import TagGateway.Proxy.BlockServe
import TagGateway.Proxy.FetchGroup

/-!
# Signals that an entry is stale

Every route that serves blocks may come upon a sign that the entry is stale. The calls
that can show one are the fetches of blocks, the request for the rest of a response, and
the probes of a whole object. A serve is described by the trace of these calls, with the
answers it got; the entry is invalidated just when one of them is definitive. Here the
streams of blocks are followed, from one read to a whole response.
-/
namespace TagGateway.Proxy.BlockInvalidation

open Foundation Cache

/-- A call whose answer can invalidate the entry. -/
inductive Call where
  /-- A group of fetches, with how each of them went. -/
  | fetch (outcomes : List (ℤ × BlockFetch))
  /-- The rest of a response from upstream: whether the cap on fetches was passed before
  it, the answer, and whether all of the rest was delivered. -/
  | remainder (capTripped : Bool) (reply : Except ℕ RangeResponse) (completed : Bool)
  /-- The probes of all blocks of an object. -/
  | probes (results : List (Except BlockError Bool))

def Call.isFetch : Call → Bool
  | .fetch _ => true
  | .remainder _ _ _ | .probes _ => false

/-- Upstream no longer has the version of the entry. -/
def Stale (m : CachedObjectMeta) (resp : RangeResponse) : Prop :=
  resp.status = 404 ∨ resp.status = 206 ∧ resp.header.get (ascii "ETag") ≠ [] ∧
    resp.header.get (ascii "ETag") ≠ m.etag

def isAbsent : Except BlockError Bool → Bool
  | .ok false => true
  | .ok true | .error _ => false

def blockCount (m : CachedObjectMeta) : ℤ := (m.contentLength - 1).tdiv m.blockSize + 1

inductive Signal (m : CachedObjectMeta) : Call → Prop
  | fetched {outcomes : List (ℤ × BlockFetch)} {idx : ℤ} {resp : RangeResponse} {remote : Bool}
      {put : PutOutcome} (hfetch : (idx, .answered resp remote put) ∈ outcomes)
      (hstale : Stale m resp) : Signal m (.fetch outcomes)
  | remainder {capTripped completed : Bool} {resp : RangeResponse} (hstale : Stale m resp) :
      Signal m (.remainder capTripped (.ok resp) completed)
  | salvaged {reply : Except ℕ RangeResponse} : Signal m (.remainder true reply true)
  | mostlyAbsent {results : List (Except BlockError Bool)}
      (hclean : ∀ r ∈ results, ∃ present, r = .ok present)
      (hmost : blockCount m < 2 * (results.countP isAbsent : ℤ)) : Signal m (.probes results)

section

variable (env : BlockEnv) (m : CachedObjectMeta)

def probe (clock : ℕ) (idx : ℤ) : Except BlockError Bool :=
  if m.etag = [] then .ok false
  else
    match readBlockInto env m clock idx 0 0 with
    | (_, none) => .ok true
    | (_, some .notFound) => .ok false
    | (_, some e) => .error e

def probeResults : List ℤ → ℕ → List (Except BlockError Bool)
  | [], _ => []
  | i :: is, clock => probe env m clock i :: probeResults is (clock + 1)

/-- An earlier read of the block, or a probe, did not find it. -/
inductive FoundMissing (clock : ℕ) (idx : ℤ) : Prop
  | streamed (st : Stream) (localStart localEnd : ℤ) (hbefore : st.clock < clock)
      (h : (getBlockRangeStream env m st idx localStart localEnd).1 = some .notFound)
  | read (before : ℕ) (localStart localEnd : ℤ) (hbefore : before < clock)
      (h : (readBlockInto env m before idx localStart localEnd).2 = some .notFound)
  | probed (before : ℕ) (hbefore : before < clock) (h : probe env m before idx = .ok false)

/-- From one call to a later one these of the calls in between can show a signal. -/
inductive Asked : ℕ → List Call → ℕ → Prop
  | other {clock clock' : ℕ} (hle : clock ≤ clock') : Asked clock [] clock'
  /-- Blocks are fetched that were found missing. -/
  | fetch (clock : ℕ) (idxs : List ℤ) (hmissing : ∀ idx ∈ idxs, FoundMissing env m clock idx) :
      Asked clock [.fetch (idxs.map fun idx => (idx, env.fetch clock idx))] (clock + 1)
  /-- The rest is asked for when the stream of the blocks gave up; whether that was for the
  cap is in its error. -/
  | remainder {clock : ℕ} {trace : List Call} {start stop : ℤ} {out : StreamOutcome}
      {capTripped : Bool} {st : Stream}
      (hstream : streamBlocks env m start stop { clock := clock } =
        (out, some (.degraded capTripped), st))
      (hfetches : capTripped = true → trace.countP Call.isFetch = maxInlineFetchesPerServe)
      (hasked : Asked clock trace st.clock) :
      Asked clock (trace ++ [.remainder capTripped
        (env.rangeGet st.clock (start + st.written.length) stop)
        (streamRemainderFromUpstream env m (start + st.written.length) stop st).1.isNone])
        (st.clock + 1)
  | probes (clock : ℕ) :
      Asked clock [.probes (probeResults env m
        (blockIndices 0 ((m.contentLength - 1).tdiv m.blockSize)) clock)]
        (clock + (blockIndices 0 ((m.contentLength - 1).tdiv m.blockSize)).length)
  | trans {clock clock' clock'' : ℕ} {trace trace' : List Call} (h : Asked clock trace clock')
      (h' : Asked clock' trace' clock'') : Asked clock (trace ++ trace') clock''

/-- The calls between two states of a response, and that the entry is invalidated in
between just when one of them shows a signal. -/
structure Acts (st : Stream) (trace : List Call) (st' : Stream) : Prop where
  asked : Asked env m st.clock trace st'.clock
  invalidated : st'.invalidated = true ↔ st.invalidated = true ∨ ∃ call ∈ trace, Signal m call

end

/-! ## The fetches -/

section

variable {env : BlockEnv} {m : CachedObjectMeta} {st st' st'' : Stream} {trace trace' : List Call}

theorem validateBlock_stale_iff (idx : ℤ) (resp : RangeResponse) :
    (∃ e, validateBlock m idx resp = .error e ∧ e.isStale = true) ↔ Stale m resp := by
  unfold validateBlock Stale
  dsimp only
  split_ifs with hgone hstatus hempty hetag hlength hbounds
  · simp [hgone, BlockError.isStale]
  · simp [hgone, hstatus, BlockError.isStale]
  · simp [hgone, hempty, BlockError.isStale]
  · simp [not_not.mp hstatus, hempty, hetag, BlockError.isStale]
  · simp [hgone, not_not.mp hetag, BlockError.isStale]
  · simp [hgone, not_not.mp hetag, BlockError.isStale]
  · have hneither : ¬(resp.status = 404 ∨ resp.status = 206 ∧
        resp.header.get (ascii "ETag") ≠ [] ∧ resp.header.get (ascii "ETag") ≠ m.etag) := by
      simp [hgone, not_not.mp hetag]
    simp only [hneither, iff_false]
    rintro ⟨e, he, hstale⟩
    split at he
    · obtain rfl := Except.error.inj he
      simp [BlockError.isStale] at hstale
    · simp at he

theorem cacheResult_stale_iff {idx : ℤ} {f : BlockFetch} :
    (∃ e, f.cacheResult m idx = some e ∧ e.isStale = true) ↔
      ∃ resp remote put, f = .answered resp remote put ∧ Stale m resp := by
  cases f with
  | present => simp [BlockFetch.cacheResult]
  | declined => simp [BlockFetch.cacheResult, BlockError.isStale]
  | canceled => simp [BlockFetch.cacheResult, BlockError.isStale]
  | unreachable code => simp [BlockFetch.cacheResult, BlockError.isStale]
  | answered resp remote put =>
    have hanswer : (∃ resp' remote' put', BlockFetch.answered resp remote put =
        .answered resp' remote' put' ∧ Stale m resp') ↔ Stale m resp := by simp
    rw [hanswer, ← validateBlock_stale_iff idx]
    simp only [BlockFetch.cacheResult]
    cases hvalid : validateBlock m idx resp with
    | error e => simp
    | ok data => cases put <;> simp [BlockError.isStale]

theorem serveResult_stale_iff (idx : ℤ) {f : BlockFetch} :
    (∃ e, f.serveResult m idx = .error e ∧ e.isStale = true) ↔
      ∃ resp remote put, f = .answered resp remote put ∧ Stale m resp := by
  cases f with
  | present => simp [BlockFetch.serveResult]
  | declined => simp [BlockFetch.serveResult, BlockError.isStale]
  | canceled => simp [BlockFetch.serveResult, BlockError.isStale]
  | unreachable code => simp [BlockFetch.serveResult, BlockError.isStale]
  | answered resp remote put =>
    have hanswer : (∃ resp' remote' put', BlockFetch.answered resp remote put =
        .answered resp' remote' put' ∧ Stale m resp') ↔ Stale m resp := by simp
    rw [hanswer, ← validateBlock_stale_iff idx, BlockFetch.serveResult]
    cases hvalid : validateBlock m idx resp with
    | error e => simp
    | ok data => cases put <;> cases remote <;> simp [BlockError.isStale]

theorem signal_fetch_iff {clock : ℕ} {idxs : List ℤ} :
    Signal m (.fetch (idxs.map fun idx => (idx, env.fetch clock idx))) ↔
      ∃ idx ∈ idxs, ∃ resp remote put, env.fetch clock idx = .answered resp remote put ∧
        Stale m resp := by
  constructor
  · intro h
    cases h with
    | fetched hfetch hstale =>
      obtain ⟨idx, hidx, heq⟩ := List.mem_map.mp hfetch
      exact ⟨idx, hidx, _, _, _, (Prod.mk.inj heq).2, hstale⟩
  · rintro ⟨idx, hidx, resp, remote, put, hfetch, hstale⟩
    exact .fetched (List.mem_map.mpr ⟨idx, hidx, by rw [hfetch]⟩) hstale

theorem fetchBlocksToCache_stale_iff {clock : ℕ} {idxs : List ℤ} :
    (fetchBlocksToCache env m clock idxs).any BlockError.isStale = true ↔
      Signal m (.fetch (idxs.map fun idx => (idx, env.fetch clock idx))) := by
  rw [fetchBlocksToCache, FetchGroup.groupError_isStale_iff, signal_fetch_iff]
  constructor
  · rintro ⟨e, he, hstale⟩
    obtain ⟨idx, hidx, hresult⟩ := List.mem_filterMap.mp he
    exact ⟨idx, hidx, cacheResult_stale_iff.mp ⟨e, hresult, hstale⟩⟩
  · rintro ⟨idx, hidx, hanswer⟩
    obtain ⟨e, hresult, hstale⟩ := cacheResult_stale_iff.mpr hanswer
    exact ⟨e, List.mem_filterMap.mpr ⟨idx, hidx, hresult⟩, hstale⟩

theorem fetchBlocksForAssembly_stale_iff (env : ServeEnv) (m : CachedObjectMeta) (clock : ℕ)
    (idxs : List ℤ) :
    (∃ e, fetchBlocksForAssembly env m clock idxs = .error e ∧ e.isStale = true) ↔
      Signal m (.fetch (idxs.map fun idx => (idx, env.fetch clock idx))) := by
  unfold fetchBlocksForAssembly
  dsimp only
  generalize herrs : List.filterMap _ idxs = errs
  have hgroup : (∃ e ∈ errs, e.isStale = true) ↔
      Signal m (.fetch (idxs.map fun idx => (idx, env.fetch clock idx))) := by
    rw [signal_fetch_iff, ← herrs]
    constructor
    · rintro ⟨e, he, hstale⟩
      obtain ⟨idx, hidx, hresult⟩ := List.mem_filterMap.mp he
      split at hresult
      next e' hserve =>
        obtain rfl := Option.some.inj hresult
        exact ⟨idx, hidx, (serveResult_stale_iff idx).mp ⟨e', hserve, hstale⟩⟩
      next => simp at hresult
    · rintro ⟨idx, hidx, hanswer⟩
      obtain ⟨e, hresult, hstale⟩ := (serveResult_stale_iff idx).mpr hanswer
      exact ⟨e, List.mem_filterMap.mpr ⟨idx, hidx, by rw [hresult]⟩, hstale⟩
  have hhead : ∀ e ∈ errs.head?, e ∈ errs ∨ e.isStale = false :=
    fun e he => .inl (List.mem_of_head? he)
  rw [← hgroup, ← FetchGroup.or_any_isStale_iff hhead]
  cases (errs.find? BlockError.isStale).or errs.head? with
  | none => simp
  | some e => simp

/-! ## Composing calls -/

namespace Acts

theorem trans (h : Acts env m st trace st') (h' : Acts env m st' trace' st'') :
    Acts env m st (trace ++ trace') st'' where
  asked := h.asked.trans h'.asked
  invalidated := by
    rw [h'.invalidated, h.invalidated]
    simp only [List.mem_append, or_and_right, exists_or, or_assoc]

theorem quiet (hclock : st.clock ≤ st'.clock) (hinvalidated : st'.invalidated = st.invalidated) :
    Acts env m st [] st' where
  asked := .other hclock
  invalidated := by simp [hinvalidated]

theorem snoc (h : Acts env m st trace st') {call : Call}
    (hasked : Asked env m st.clock (trace ++ [call]) st''.clock)
    (hcall : st''.invalidated = true ↔ st'.invalidated = true ∨ Signal m call) :
    Acts env m st (trace ++ [call]) st'' where
  asked := hasked
  invalidated := by
    rw [hcall, h.invalidated]
    simp only [List.mem_append, List.mem_singleton, or_and_right, exists_or, exists_eq_left,
      or_assoc]

theorem one {call : Call} (hasked : Asked env m st.clock [call] st'.clock)
    (hcall : st'.invalidated = true ↔ st.invalidated = true ∨ Signal m call) :
    Acts env m st [call] st' :=
  (quiet le_rfl rfl : Acts env m st [] st).snoc hasked hcall

theorem tick (st : Stream) : Acts env m st [] st.tick := quiet (Nat.le_succ _) rfl

theorem fetch {idxs : List ℤ} (hmissing : ∀ idx ∈ idxs, FoundMissing env m st.clock idx)
    {err : Option BlockError} (herr : fetchBlocksToCache env m st.clock idxs = err) :
    Acts env m st [.fetch (idxs.map fun idx => (idx, env.fetch st.clock idx))]
      (st.afterFetch err) := by
  apply one (.fetch st.clock idxs hmissing)
  rw [← fetchBlocksToCache_stale_iff, herr, Stream.afterFetch, Bool.or_eq_true]

theorem send (st : Stream) (data : Bytes) : Acts env m st [] (st.send env data).2.2 := by
  unfold Stream.send
  split_ifs
  · exact quiet le_rfl rfl
  · exact quiet le_rfl rfl

theorem sent (st : Stream) (data : Bytes) : Acts env m st [] (st.send env data).2.2.tick :=
  (send st data).trans (tick _)

end Acts

/-! ## Streaming blocks -/

@[simp] theorem toBlockError_isDegraded (e : CacheFailure) : e.toBlockError.isDegraded = false := by
  cases e <;> rfl

theorem rangeResult_isDegraded (start stop : ℤ) (taken : ℕ) (err : Option CacheFailure) :
    (rangeResult start stop taken err).all (!·.isDegraded) = true := by
  unfold rangeResult
  cases err with
  | some e => simp
  | none =>
    dsimp only
    split_ifs <;> rfl

theorem getBlockRangeStream_isDegraded (env : BlockEnv) (m : CachedObjectMeta) (st : Stream)
    (idx localStart localEnd : ℤ) :
    (getBlockRangeStream env m st idx localStart localEnd).1.all (!·.isDegraded) = true := by
  unfold getBlockRangeStream
  split_ifs
  · dsimp only
    split
    · simp
    · rfl
    · dsimp only
      split_ifs <;> rfl
  · exact rangeResult_isDegraded _ _ _ _

theorem acts_getBlockRangeStream (env : BlockEnv) (m : CachedObjectMeta) (st : Stream)
    (idx localStart localEnd : ℤ) :
    Acts env m st [] (getBlockRangeStream env m st idx localStart localEnd).2.2 := by
  unfold getBlockRangeStream
  split_ifs
  · dsimp only
    split
    next => exact .tick st
    next => exact .tick st
    next b _ _ _ => exact Acts.sent st [b]
  · exact .sent st _

theorem getBlockRangeStream_clock (env : BlockEnv) (m : CachedObjectMeta) (st : Stream)
    (idx localStart localEnd : ℤ) :
    (getBlockRangeStream env m st idx localStart localEnd).2.2.clock = st.clock + 1 := by
  have hsend : ∀ data, (st.send env data).2.2.tick.clock = st.clock + 1 := by
    intro data
    unfold Stream.send
    split_ifs <;> rfl
  unfold getBlockRangeStream
  split_ifs
  · dsimp only
    split
    next => rfl
    next => rfl
    next b _ _ _ => exact hsend [b]
  · exact hsend _

theorem foundMissing_of_streamed {env : BlockEnv} {m : CachedObjectMeta} {st : Stream}
    {idx localStart localEnd : ℤ}
    (h : (getBlockRangeStream env m st idx localStart localEnd).1 = some .notFound) :
    FoundMissing env m (getBlockRangeStream env m st idx localStart localEnd).2.2.clock idx := by
  refine .streamed st localStart localEnd ?_ h
  rw [getBlockRangeStream_clock]
  exact Nat.lt_succ_self _

theorem readBlockInto_of_error {clock : ℕ} {idx localStart localEnd : ℤ} {e : BlockError}
    (h : readCachedBlockSlice env m clock idx localStart localEnd = .error e) :
    (readBlockInto env m clock idx localStart localEnd).2 = some e := by
  unfold readCachedBlockSlice at h
  split at h
  next landed e' heq =>
    rw [heq, Except.error.inj h]
  next => simp at h

/-- The fetches that a part of a stream makes come out of its allowance, and it gives up
for lack of one only when none is left. -/
structure Spends (env : BlockEnv) (m : CachedObjectMeta) (st : Stream) (fetchesLeft : ℕ)
    (trace : List Call) (st' : Stream) (left : ℕ) (err : Option BlockError) : Prop where
  acts : Acts env m st trace st'
  count : trace.countP Call.isFetch + left = fetchesLeft
  cap : err = some (.degraded true) → left = 0

theorem streamFailure_ne_cap {writeErr : Bool} {err : Option BlockError}
    (h : err.all (!·.isDegraded) = true) :
    err.map (streamFailure writeErr) ≠ some (.degraded true) := by
  cases err with
  | none => simp
  | some e =>
    cases writeErr with
    | true =>
      intro hcap
      obtain rfl : e = .degraded true := by simpa [streamFailure] using hcap
      simp [BlockError.isDegraded] at h
    | false => simp [streamFailure]

theorem fetchFailure_ne_cap (e : BlockError) :
    (if e.isStale = true then e else .degraded false) ≠ .degraded true := by
  split_ifs with hstale
  · rintro rfl
    simp [BlockError.isStale] at hstale
  · simp

theorem sequentialBlock_spends (env : BlockEnv) (m : CachedObjectMeta) (start stop i : ℤ)
    (fetchesLeft : ℕ) (writeErr : Bool) (st : Stream) :
    ∃ trace, Spends env m st fetchesLeft trace
      (sequentialBlock env m start stop i fetchesLeft writeErr st).stream
      (sequentialBlock env m start stop i fetchesLeft writeErr st).fetchesLeft
      (sequentialBlock env m start stop i fetchesLeft writeErr st).err := by
  unfold sequentialBlock
  generalize blockLocalRange i start stop m.blockSize m.contentLength = bounds
  obtain ⟨localStart, localEnd⟩ := bounds
  dsimp only
  have hread := acts_getBlockRangeStream env m st i localStart localEnd
  have herr := getBlockRangeStream_isDegraded env m st i localStart localEnd
  have hfound : _ → FoundMissing env m
      (getBlockRangeStream env m st i localStart localEnd).2.2.clock i := foundMissing_of_streamed
  generalize getBlockRangeStream env m st i localStart localEnd = read at hread herr hfound ⊢
  obtain ⟨berr, failed, st'⟩ := read
  dsimp only at hread herr hfound ⊢
  split_ifs with hmissing hnone
  · exact ⟨[], hread, by simp [hnone], fun _ => rfl⟩
  · have hmissing : ∀ idx ∈ [i], FoundMissing env m st'.clock idx := by
      simpa using hfound hmissing.1
    cases hfetch : fetchBlocksToCache env m st'.clock [i] with
    | some e =>
      dsimp only
      refine ⟨_, hread.trans (.fetch hmissing hfetch), ?_, ?_⟩
      · simp [Call.isFetch]
        omega
      · exact fun hcap => absurd (Option.some.inj hcap) (fetchFailure_ne_cap e)
    | none =>
      dsimp only
      have hagain := acts_getBlockRangeStream env m (st'.afterFetch none) i localStart localEnd
      refine ⟨_, (hread.trans (.fetch hmissing hfetch)).trans hagain, ?_, ?_⟩
      · simp [Call.isFetch]
        omega
      · intro hcap
        exact absurd hcap (streamFailure_ne_cap (getBlockRangeStream_isDegraded _ _ _ _ _ _))
  · exact ⟨[], hread, by simp, fun hcap => absurd hcap (streamFailure_ne_cap herr)⟩

theorem Spends.trans {fetchesLeft left left' : ℕ} {err : Option BlockError}
    (h : Spends env m st fetchesLeft trace st' left none)
    (h' : Spends env m st' left trace' st'' left' err) :
    Spends env m st fetchesLeft (trace ++ trace') st'' left' err where
  acts := h.acts.trans h'.acts
  count := by
    have hcount := h.count
    have hcount' := h'.count
    rw [List.countP_append]
    omega
  cap := h'.cap

/-- Something else follows, or another error is reported. -/
theorem Spends.followed {fetchesLeft left : ℕ} {err : Option BlockError}
    (h : Spends env m st fetchesLeft trace st' left none) (hacts : Acts env m st' [] st'')
    (herr : err ≠ some (.degraded true)) : Spends env m st fetchesLeft trace st'' left err where
  acts := by simpa using h.acts.trans hacts
  count := h.count
  cap hcap := absurd hcap herr

theorem streamSequentialLoop_spends (env : BlockEnv) (m : CachedObjectMeta) (start stop : ℤ)
    (is : List ℤ) (fetchesLeft : ℕ) (writeErr : Bool) (out : StreamOutcome) (st : Stream) :
    ∃ trace left, Spends env m st fetchesLeft trace
      (streamSequentialLoop env m start stop is fetchesLeft writeErr out st).2.2 left
      (streamSequentialLoop env m start stop is fetchesLeft writeErr out st).2.1 := by
  induction is generalizing fetchesLeft writeErr out st with
  | nil => exact ⟨[], fetchesLeft, .quiet le_rfl rfl, by simp, by simp [streamSequentialLoop]⟩
  | cons i is ih =>
    obtain ⟨trace, hblock⟩ :=
      sequentialBlock_spends env m start stop i fetchesLeft writeErr st
    rw [streamSequentialLoop]
    dsimp only
    generalize sequentialBlock env m start stop i fetchesLeft writeErr st = b at hblock ⊢
    cases herr : b.err with
    | some e =>
      rw [herr] at hblock
      exact ⟨trace, _, hblock⟩
    | none =>
      rw [herr] at hblock
      obtain ⟨trace', left, hrest⟩ := ih b.fetchesLeft b.writeErr _ b.stream
      exact ⟨_, left, hblock.trans hrest⟩

/-- A slice that is read with recovery; without a cap there is no allowance to spend. -/
structure Recovers (env : BlockEnv) (m : CachedObjectMeta) (st : Stream) (fetchesLeft : Option ℕ)
    (trace : List Call) (r : Recovered) : Prop where
  acts : Acts env m st trace r.stream
  spends : ∀ n, fetchesLeft = some n → ∃ left, r.fetchesLeft = some left ∧
    Spends env m st n trace r.stream left (readError r.result)

theorem Recovers.of_quiet {fetchesLeft : Option ℕ} {fetched : Bool}
    {result : Except BlockError Bytes} (hacts : Acts env m st [] st')
    (hcap : result = .error (.degraded true) → fetchesLeft = some 0) :
    Recovers env m st fetchesLeft [] ⟨fetched, result, fetchesLeft, st'⟩ where
  acts := hacts
  spends n hn := by
    refine ⟨n, hn, hacts, by simp, fun herr => ?_⟩
    cases result with
    | ok data => simp [readError] at herr
    | error e =>
      obtain rfl : e = .degraded true := by simpa [readError] using herr
      simpa [hn] using hcap rfl

theorem Recovers.of_fetch {fetchesLeft : Option ℕ} {fetched : Bool}
    {result : Except BlockError Bytes} (hacts : Acts env m st trace st')
    (hcount : trace.countP Call.isFetch = 1) (hleft : fetchesLeft ≠ some 0)
    (hcap : result ≠ .error (.degraded true)) :
    Recovers env m st fetchesLeft trace ⟨fetched, result, fetchesLeft.map (· - 1), st'⟩ where
  acts := hacts
  spends n hn := by
    subst hn
    have hn : n ≠ 0 := by simpa using hleft
    refine ⟨n - 1, rfl, hacts, by omega, fun herr => ?_⟩
    cases result with
    | ok data => simp [readError] at herr
    | error e => exact absurd (by simpa [readError] using herr) hcap

theorem recoverMissingBlockSlice_recovers (env : BlockEnv) (m : CachedObjectMeta)
    (idx localStart localEnd : ℤ) (fetchesLeft : Option ℕ) (st : Stream) :
    ∃ trace, Recovers env m st fetchesLeft trace
      (recoverMissingBlockSlice env m idx localStart localEnd fetchesLeft st) := by
  unfold recoverMissingBlockSlice
  split
  next => exact ⟨[], .of_quiet (.tick st) (by simp)⟩
  next hread =>
    split_ifs with hnone
    · exact ⟨[], .of_quiet (.tick st) fun _ => hnone⟩
    · have hfound : FoundMissing env m st.tick.clock idx :=
        .read st.clock localStart localEnd (Nat.lt_succ_self _) (readBlockInto_of_error hread)
      have hmissing : ∀ i ∈ [idx], FoundMissing env m st.tick.clock i := by
        simpa using hfound
      dsimp only
      cases hfetch : fetchBlocksToCache env m st.tick.clock [idx] with
      | some e =>
        dsimp only
        refine ⟨_, .of_fetch ((Acts.tick st).trans (.fetch hmissing hfetch)) rfl hnone ?_⟩
        exact fun hcap => fetchFailure_ne_cap e (Except.error.inj hcap)
      | none =>
        have hacts := (Acts.tick st).trans (.fetch hmissing hfetch)
        dsimp only
        split
        next => exact ⟨_, .of_fetch (hacts.trans (.tick _)) rfl hnone (by simp)⟩
        next => exact ⟨_, .of_fetch (hacts.trans (.tick _)) rfl hnone (by simp)⟩
  next => exact ⟨[], .of_quiet (.tick st) (by simp)⟩

theorem readBlockSlice_acts (env : BlockEnv) (m : CachedObjectMeta)
    (idx localStart localEnd : ℤ) (fetchesLeft : Option ℕ) (st : Stream) :
    ∃ trace, Acts env m st trace
      (readBlockSlice env m idx localStart localEnd fetchesLeft st).stream := by
  unfold readBlockSlice
  split
  next => exact ⟨[], .tick st⟩
  next =>
    obtain ⟨trace, hrecovers⟩ :=
      recoverMissingBlockSlice_recovers env m idx localStart localEnd fetchesLeft st.tick
    exact ⟨_, (Acts.tick st).trans hrecovers.acts⟩
  next => exact ⟨[], .tick st⟩

theorem settleRead_recovers (env : BlockEnv) (m : CachedObjectMeta) (i localStart localEnd : ℤ)
    (fetchesLeft : ℕ) (st : Stream) (read : Except BlockError Bytes) :
    ∃ trace, Recovers env m st (some fetchesLeft) trace
      (settleRead env m i localStart localEnd fetchesLeft st read) := by
  unfold settleRead
  split
  next => exact ⟨[], .of_quiet (.quiet le_rfl rfl) (by simp)⟩
  next => exact recoverMissingBlockSlice_recovers env m i localStart localEnd _ st
  next => exact ⟨[], .of_quiet (.quiet le_rfl rfl) (by simp)⟩

theorem streamPipelinedLoop_spends (env : BlockEnv) (m : CachedObjectMeta) (start stop bK : ℤ)
    (is : List ℤ) (next : ℤ) (pending : Pending) (fetchesLeft : ℕ) (out : StreamOutcome)
    (st : Stream) :
    ∃ trace left, Spends env m st fetchesLeft trace
      (streamPipelinedLoop env m start stop bK is next pending fetchesLeft out st).2.2 left
      (streamPipelinedLoop env m start stop bK is next pending fetchesLeft out st).2.1 := by
  induction is generalizing next pending fetchesLeft out st with
  | nil => exact ⟨[], fetchesLeft, .quiet le_rfl rfl, by simp, by simp [streamPipelinedLoop]⟩
  | cons i is ih =>
    rw [streamPipelinedLoop]
    generalize blockLocalRange i start stop m.blockSize m.contentLength = bounds
    obtain ⟨localStart, localEnd⟩ := bounds
    dsimp only
    cases pending i with
    | none => exact ⟨[], fetchesLeft, .quiet le_rfl rfl, by simp, by simp⟩
    | some read =>
      obtain ⟨trace, hrecovers⟩ :=
        settleRead_recovers env m i localStart localEnd fetchesLeft st read
      dsimp only
      generalize settleRead env m i localStart localEnd fetchesLeft st read = br at hrecovers ⊢
      obtain ⟨left, hleft, hspends⟩ := hrecovers.spends fetchesLeft rfl
      cases hresult : br.result with
      | error e =>
        rw [hresult] at hspends
        exact ⟨trace, left, hspends⟩
      | ok data =>
        rw [hresult] at hspends
        have hsent : Acts env m br.stream [] (br.stream.send env data).2.2.tick := .sent _ _
        dsimp only
        by_cases hfailed : (br.stream.send env data).2.1 = true
        · rw [if_pos hfailed]
          exact ⟨trace, left, hspends.followed hsent (by simp)⟩
        · have hkept : Spends env m st fetchesLeft trace _ left none :=
            hspends.followed hsent (by simp)
          rw [if_neg hfailed, hleft, Option.getD_some]
          by_cases hnext : next ≤ bK
          · rw [if_pos hnext]
            obtain ⟨trace', left', hrest⟩ := ih _ _ left _ _
            exact ⟨_, left', hkept.trans hrest⟩
          · rw [if_neg hnext]
            obtain ⟨trace', left', hrest⟩ := ih _ _ left _ _
            exact ⟨_, left', hkept.trans hrest⟩

theorem reserveWindow_clock_le (env : BlockEnv) (clock window : ℕ) :
    clock ≤ (reserveWindow env clock window).2 := by
  induction window generalizing clock with
  | zero => exact le_rfl
  | succ window ih =>
    cases window with
    | zero => exact le_rfl
    | succ window =>
      rw [reserveWindow]
      split_ifs
      · exact Nat.le_succ clock
      · exact (Nat.le_succ clock).trans (ih (clock + 1))

theorem Spends.later {fetchesLeft left : ℕ} {err : Option BlockError}
    (h : Spends env m st' fetchesLeft trace st'' left err) (hclock : st.clock ≤ st'.clock)
    (hinvalidated : st'.invalidated = st.invalidated) :
    Spends env m st fetchesLeft trace st'' left err where
  acts := (Acts.quiet hclock hinvalidated).trans h.acts
  count := h.count
  cap := h.cap

theorem streamBlocks_spends (env : BlockEnv) (m : CachedObjectMeta) (start stop : ℤ)
    (st : Stream) :
    ∃ trace left, Spends env m st maxInlineFetchesPerServe trace
      (streamBlocks env m start stop st).2.2 left (streamBlocks env m start stop st).2.1 := by
  have hsequential : ∀ st : Stream, ∃ trace left, Spends env m st maxInlineFetchesPerServe trace
      (streamBlockRangeSequential env m start stop st).2.2 left
      (streamBlockRangeSequential env m start stop st).2.1 :=
    fun st => streamSequentialLoop_spends _ _ _ _ _ _ _ _ st
  have hpipelined : ∀ (window : ℕ) (st : Stream), ∃ trace left,
      Spends env m st maxInlineFetchesPerServe trace
        (streamBlockRangePipelined env m start stop window st).2.2 left
        (streamBlockRangePipelined env m start stop window st).2.1 := by
    intro window st
    unfold streamBlockRangePipelined
    obtain ⟨trace, left, hloop⟩ := streamPipelinedLoop_spends env m _ _ _ _ _ _ _ _ _
    exact ⟨trace, left, hloop.later (Nat.le_add_right _ _) rfl⟩
  unfold streamBlocks
  dsimp only
  split_ifs
  · exact hsequential st
  · have hreserve := reserveWindow_clock_le env st.clock
      (min ((coveringBlocks start stop m.blockSize).2 -
        (coveringBlocks start stop m.blockSize).1 + 1).toNat maxBlockServePrefetch)
    generalize reserveWindow env st.clock _ = reserved at hreserve ⊢
    obtain ⟨window, clock⟩ := reserved
    cases window with
    | none =>
      obtain ⟨trace, left, hstream⟩ := hsequential { st with clock := clock }
      exact ⟨trace, left, hstream.later hreserve rfl⟩
    | some window =>
      obtain ⟨trace, left, hstream⟩ := hpipelined window { st with clock := clock }
      exact ⟨trace, left, hstream.later hreserve rfl⟩

theorem signal_remainder_iff {capTripped completed : Bool} {reply : Except ℕ RangeResponse} :
    Signal m (.remainder capTripped reply completed) ↔
      (∃ resp, reply = .ok resp ∧ Stale m resp) ∨ capTripped = true ∧ completed = true := by
  constructor
  · intro h
    cases h with
    | remainder hstale => exact .inl ⟨_, rfl, hstale⟩
    | salvaged => exact .inr ⟨rfl, rfl⟩
  · rintro (⟨resp, rfl, hstale⟩ | ⟨rfl, rfl⟩)
    · exact .remainder hstale
    · exact .salvaged

theorem copyBody_effect (env : BlockEnv) (want : ℤ) (body : Source UInt8) (st : Stream) :
    (copyBody env want body st).2.clock = st.clock + 1 ∧
      (copyBody env want body st).2.invalidated = st.invalidated := by
  have hsend : ∀ data, (st.send env data).2.2.clock = st.clock ∧
      (st.send env data).2.2.invalidated = st.invalidated := by
    intro data
    unfold Stream.send
    split_ifs <;> exact ⟨rfl, rfl⟩
  obtain ⟨hclock, hinvalidated⟩ := hsend body.rest
  unfold copyBody
  dsimp only
  split_ifs <;> exact ⟨congrArg (· + 1) hclock, hinvalidated⟩

/-- The rest of a response is one call, and it shows a signal if its answer does. -/
theorem streamRemainderFromUpstream_effect (env : BlockEnv) (m : CachedObjectMeta)
    (absStart absEnd : ℤ) (st : Stream) :
    (streamRemainderFromUpstream env m absStart absEnd st).2.clock = st.clock + 1 ∧
      ((streamRemainderFromUpstream env m absStart absEnd st).2.invalidated = true ↔
        st.invalidated = true ∨
          ∃ resp, env.rangeGet st.clock absStart absEnd = .ok resp ∧ Stale m resp) := by
  unfold streamRemainderFromUpstream
  cases env.rangeGet st.clock absStart absEnd with
  | error code => simp [Stream.tick]
  | ok resp =>
    simp only [Except.ok.injEq, exists_eq_left']
    unfold Stale
    split_ifs with hgone hstatus hempty hetag hbounds
    · simp [Stream.tick, hgone]
    · simp [Stream.tick, hgone, hstatus]
    · simp [Stream.tick, hgone, hempty]
    · simp [Stream.tick, not_not.mp hstatus, hempty, hetag]
    · simp [Stream.tick, hgone, not_not.mp hetag]
    · obtain ⟨hclock, hinvalidated⟩ :=
        copyBody_effect env (absEnd - absStart + 1) resp.body st
      simp [hclock, hinvalidated, hgone, not_not.mp hetag]

theorem eq_degraded_of_isDegraded {e : BlockError} (h : e.isDegraded = true) :
    ∃ mostlyAbsent, e = .degraded mostlyAbsent := by
  cases e with
  | degraded mostlyAbsent => exact ⟨mostlyAbsent, rfl⟩
  | _ => simp [BlockError.isDegraded] at h

theorem streamBlockRangeWithFooterRange_acts (env : BlockEnv) (m : CachedObjectMeta)
    (start stop : ℤ) (clock : ℕ) :
    ∃ trace, Acts env m { clock := clock } trace
      (streamBlockRangeWithFooterRange env m start stop clock).2.2 := by
  obtain ⟨trace, left, hspends⟩ := streamBlocks_spends env m start stop { clock := clock }
  unfold streamBlockRangeWithFooterRange
  generalize hstream : streamBlocks env m start stop { clock := clock } = streamed at hspends ⊢
  obtain ⟨out, err, st⟩ := streamed
  cases err with
  | none => exact ⟨trace, hspends.acts⟩
  | some e =>
    dsimp only at hspends ⊢
    split_ifs with hsalvage
    · simp only [Bool.and_eq_true] at hsalvage
      obtain ⟨capTripped, rfl⟩ := eq_degraded_of_isDegraded hsalvage.1.1
      obtain ⟨hclock, hstale⟩ := streamRemainderFromUpstream_effect env m
        (start + st.written.length) stop st
      have hfetches : capTripped = true →
          trace.countP Call.isFetch = maxInlineFetchesPerServe := by
        rintro rfl
        have hcount := hspends.count
        rwa [hspends.cap rfl, Nat.add_zero] at hcount
      have hasked := Asked.remainder hstream hfetches hspends.acts.asked
      generalize streamRemainderFromUpstream env m (start + st.written.length) stop st = rest
        at hclock hstale hasked ⊢
      obtain ⟨rerr, st'⟩ := rest
      dsimp only at hclock hstale hasked
      rw [← hclock] at hasked
      cases rerr with
      | some rerr =>
        have hcall := hspends.acts.snoc hasked (by simp [signal_remainder_iff, hstale])
        exact ⟨_, hcall⟩
      | none =>
        have hcall : (st'.invalidated || decide (BlockError.degraded capTripped = .degraded true)) =
            true ↔ st.invalidated = true ∨ Signal m (.remainder capTripped
              (env.rangeGet st.clock (start + st.written.length) stop) true) := by
          rw [signal_remainder_iff, ← or_assoc, ← hstale]
          simp
        exact ⟨_, hspends.acts.snoc hasked hcall⟩
    · exact ⟨trace, hspends.acts⟩

end

end TagGateway.Proxy.BlockInvalidation
