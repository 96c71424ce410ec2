import TagGateway.Proxy.BlockServe
import TagGateway.Proxy.BlockStreamExact

/-!
# Served ranges are exact

A route that gives up leaves the response as it was. A route that commits writes
one partial response, with the fields of the requested range and a body that is
the beginning of it, all of it when no error is returned.
-/
namespace TagGateway.Proxy

open Foundation Cache

section Assembly

variable {env : ServeEnv} {m : CachedObjectMeta} {object buf data : Bytes} {missing : List ℤ}
  {start stop i i₁ j a b : ℤ}

theorem Range.le_takeover (hr : Range env.toBlockEnv m object start stop) (i : ℤ) :
    start ≤ takeover start stop m.blockSize i := by
  have hle := hr.start_le
  unfold takeover
  omega

def Placed (m : CachedObjectMeta) (object : Bytes) (start stop : ℤ) (buf : Bytes) (j : ℤ) : Prop :=
  slice buf (takeover start stop m.blockSize j - start)
    (takeover start stop m.blockSize (j + 1) - start - 1) = blockPart m object start stop j

/-- The buffer has the length of the range, and the blocks before `i` are in their
places or known to be missing. -/
structure Assembled (m : CachedObjectMeta) (object : Bytes) (start stop i : ℤ) (buf : Bytes)
    (missing : List ℤ) : Prop where
  length : (buf.length : ℤ) = stop - start + 1
  placed : ∀ j, start.tdiv m.blockSize ≤ j → j < i →
    j ∈ missing ∨ Placed m object start stop buf j
  covering : ∀ j ∈ missing, start.tdiv m.blockSize ≤ j ∧ j < i

def placeOf (m : CachedObjectMeta) (start stop i : ℤ) : ℕ :=
  (takeover start stop m.blockSize i - start).toNat

theorem placeOf_add_le (hr : Range env.toBlockEnv m object start stop)
    (ho : BlockOffsets m start stop i a b) (hlen : (buf.length : ℤ) = stop - start + 1)
    (hdata : (data.length : ℤ) ≤ b - a + 1) :
    placeOf m start stop i + data.length ≤ buf.length := by
  have hfirst := ho.first
  have hlast := ho.last
  have hle := hr.le_takeover i
  have hend : takeover start stop m.blockSize (i + 1) ≤ stop + 1 := min_le_right _ _
  unfold placeOf
  omega

theorem Placed.splice_of_ne (hr : Range env.toBlockEnv m object start stop)
    (ho : BlockOffsets m start stop i a b) (hlen : (buf.length : ℤ) = stop - start + 1)
    (hdata : (data.length : ℤ) ≤ b - a + 1) (hne : j ≠ i) (h : Placed m object start stop buf j) :
    Placed m object start stop (splice buf (placeOf m start stop i) data) j := by
  have hroom := placeOf_add_le hr ho hlen hdata
  have hfirst := ho.first
  have hlast := ho.last
  have hle := hr.le_takeover i
  have hle' := hr.le_takeover j
  unfold Placed
  rw [slice_splice_of_disjoint (by omega) hroom]
  · exact h
  · unfold placeOf
    rcases lt_or_gt_of_ne hne with hlt | hlt
    · have hbefore := takeover_mono start stop hr.blockSize
        (show j + 1 ≤ i by omega)
      omega
    · have hafter := takeover_mono start stop hr.blockSize
        (show i + 1 ≤ j by omega)
      omega

theorem placed_splice (hr : Range env.toBlockEnv m object start stop)
    (ho : BlockOffsets m start stop i a b) (hlen : (buf.length : ℤ) = stop - start + 1) :
    Placed m object start stop
      (splice buf (placeOf m start stop i) (blockPart m object start stop i)) i := by
  have hpart := length_blockPart hr.toFaithful ho
  have hroom := placeOf_add_le hr ho hlen hpart.le
  have hfirst := ho.first
  have hlast := ho.last
  have hle := hr.le_takeover i
  have hplace : takeover start stop m.blockSize i - start = (placeOf m start stop i : ℤ) := by
    unfold placeOf
    omega
  have hend : takeover start stop m.blockSize (i + 1) - start - 1 =
      placeOf m start stop i + (blockPart m object start stop i).length - 1 := by
    omega
  unfold Placed
  rw [hplace, hend]
  exact slice_splice_self hroom

namespace Assembled

theorem miss (hfirst : start.tdiv m.blockSize ≤ i)
    (h : Assembled m object start stop i buf missing) :
    Assembled m object start stop (i + 1) buf (missing ++ [i]) := by
  constructor
  · exact h.length
  · intro j hj hlt
    by_cases hji : j = i
    · left
      simp [hji]
    · rcases h.placed j hj (by omega) with hmissing | hplaced
      · exact .inl (List.mem_append_left _ hmissing)
      · exact .inr hplaced
  · intro j hj
    rcases List.mem_append.mp hj with hold | hnew
    · have hcovering := h.covering j hold
      omega
    · obtain rfl := List.mem_singleton.mp hnew
      omega

theorem scratch (hr : Range env.toBlockEnv m object start stop)
    (ho : BlockOffsets m start stop i a b) (h : Assembled m object start stop i₁ buf missing)
    (hi : i ∈ missing) (hdata : (data.length : ℤ) ≤ b - a + 1) :
    Assembled m object start stop i₁ (splice buf (placeOf m start stop i) data) missing := by
  constructor
  · rw [length_splice (placeOf_add_le hr ho h.length hdata)]
    exact h.length
  · intro j hj hlt
    by_cases hji : j = i
    · exact .inl (hji ▸ hi)
    · rcases h.placed j hj hlt with hmissing | hplaced
      · exact .inl hmissing
      · exact .inr (hplaced.splice_of_ne hr ho h.length hdata hji)
  · exact h.covering

theorem fill (hr : Range env.toBlockEnv m object start stop)
    (ho : BlockOffsets m start stop i a b) (h : Assembled m object start stop i₁ buf missing)
    {left : List ℤ} (hleft : left ⊆ missing) (hothers : ∀ j ∈ missing, j = i ∨ j ∈ left) :
    Assembled m object start stop i₁
      (splice buf (placeOf m start stop i) (blockPart m object start stop i)) left := by
  have hpart := length_blockPart hr.toFaithful ho
  constructor
  · rw [length_splice (placeOf_add_le hr ho h.length hpart.le)]
    exact h.length
  · intro j hj hlt
    by_cases hji : j = i
    · subst hji
      exact .inr (placed_splice hr ho h.length)
    · rcases h.placed j hj hlt with hmissing | hplaced
      · exact .inl ((hothers j hmissing).resolve_left hji)
      · exact .inr (hplaced.splice_of_ne hr ho h.length hpart.le hji)
  · intro j hj
    exact h.covering j (hleft hj)

theorem add (hr : Range env.toBlockEnv m object start stop) (hfirst : start.tdiv m.blockSize ≤ i)
    (ho : BlockOffsets m start stop i a b) (h : Assembled m object start stop i buf missing) :
    Assembled m object start stop (i + 1)
      (splice buf (placeOf m start stop i) (blockPart m object start stop i)) missing := by
  apply (h.miss hfirst).fill hr ho (List.subset_append_left _ _)
  intro j hj
  rcases List.mem_append.mp hj with hold | hnew
  · exact .inr hold
  · exact .inl (List.mem_singleton.mp hnew)

theorem filled (hr : Range env.toBlockEnv m object start stop)
    (h : Assembled m object start stop (stop.tdiv m.blockSize + 1) buf []) (count : ℕ)
    (hcount : start.tdiv m.blockSize + count ≤ stop.tdiv m.blockSize + 1) :
    FilledTo m object start stop (start.tdiv m.blockSize + count)
      (slice buf 0 (takeover start stop m.blockSize (start.tdiv m.blockSize + count) -
        start - 1)) := by
  induction count with
  | zero =>
    have hnone := FilledTo.first hr
    have hoffset := hnone.offset
    rw [Nat.cast_zero, Int.add_zero, ← hoffset]
    simpa [slice] using hnone
  | succ count ih =>
    generalize hi : start.tdiv m.blockSize + (count : ℤ) = i at ih
    have hsucc : start.tdiv m.blockSize + ((count + 1 : ℕ) : ℤ) = i + 1 := by omega
    obtain ⟨⟨a, b⟩, hlocal⟩ : ∃ p, blockLocalRange i start stop m.blockSize m.contentLength = p :=
      ⟨_, rfl⟩
    have ho := hr.offsets (by omega) (by omega) hlocal
    have hplaced := (h.placed i (by omega) (by omega)).resolve_left List.not_mem_nil
    have hle := hr.le_takeover i
    have hstep := takeover_mono start stop hr.blockSize
      (show i ≤ i + 1 by omega)
    have hbefore : takeover start stop m.blockSize i - start - 1 + 1 =
        takeover start stop m.blockSize i - start := by omega
    rw [hsucc, ← slice_append (b := takeover start stop m.blockSize i - start - 1) (by omega)
      (by omega), hbefore, hplaced]
    exact (ih (by omega)).advance hr ho

theorem eq_slice (hr : Range env.toBlockEnv m object start stop)
    (h : Assembled m object start stop (stop.tdiv m.blockSize + 1) buf []) :
    buf = slice object start stop := by
  have hle := hr.covering_le
  have hfilled := h.filled hr (stop.tdiv m.blockSize + 1 - start.tdiv m.blockSize).toNat (by omega)
  have hlast : start.tdiv m.blockSize +
      ((stop.tdiv m.blockSize + 1 - start.tdiv m.blockSize).toNat : ℤ) =
      stop.tdiv m.blockSize + 1 := by omega
  rw [hlast] at hfilled
  have hcomplete := hfilled.complete hr
  have hoffset := hfilled.offset
  have hlength := h.length
  have hlt := hr.stop_lt
  have hcontent := hr.contentLength
  have hrange := length_slice (s := object) (a := start) (b := stop) hr.start_nonneg (by omega)
    (by omega)
  rw [hcomplete, hrange] at hoffset
  rw [← hcomplete, slice_full]
  omega

end Assembled

theorem readBlockInto_length {env : BlockEnv} {t : ℕ} {landed : Bytes} {err : Option BlockError}
    (h : readBlockInto env m t i a b = (landed, err)) (hab : a ≤ b) :
    (landed.length : ℤ) ≤ b - a + 1 := by
  unfold readBlockInto at h
  split at h
  · dsimp only at h
    split at h
    all_goals
      cases h
      simp
      omega
  · cases h
    rw [List.length_take]
    omega

theorem assemblePass_ok (hr : Range env.toBlockEnv m object start stop) (count : ℕ) :
    ∀ {i off buf missing clock buf' missing' clock'}, start.tdiv m.blockSize ≤ i →
      i + count = stop.tdiv m.blockSize + 1 → start + off = takeover start stop m.blockSize i →
      Assembled m object start stop i buf missing →
      assemblePass env m start stop (blocksFrom i count) off buf missing clock =
        (.ok (buf', missing'), clock') →
      Assembled m object start stop (stop.tdiv m.blockSize + 1) buf' missing' := by
  induction count with
  | zero =>
    intro i off buf missing clock buf' missing' clock' hi hcount hoff hassembled hpass
    cases hpass
    have hlast : i = stop.tdiv m.blockSize + 1 := by omega
    rwa [hlast] at hassembled
  | succ count ih =>
    intro i off buf missing clock buf' missing' clock' hi hcount hoff hassembled hpass
    obtain ⟨⟨a, b⟩, hlocal⟩ : ∃ p, blockLocalRange i start stop m.blockSize m.contentLength = p :=
      ⟨_, rfl⟩
    have ho := hr.offsets hi (by omega) hlocal
    have hplace : off.toNat = placeOf m start stop i := by
      unfold placeOf
      omega
    have hnext : start + (off + (b - a + 1)) = takeover start stop m.blockSize (i + 1) := by
      have hfirst := ho.first
      have hlast := ho.last
      omega
    rw [blocksFrom, assemblePass, hlocal] at hpass
    dsimp only at hpass
    generalize hread : readBlockInto env.toBlockEnv m clock i a b = read at hpass
    obtain ⟨landed, err⟩ := read
    have hlen := readBlockInto_length hread ho.le
    rw [hplace] at hpass
    dsimp only at hpass
    split at hpass
    · refine ih (by omega) (by omega) hnext ?_ hpass
      exact (hassembled.miss hi).scratch hr ho (by simp) hlen
    · cases hpass
    · split at hpass
      · cases hpass
      · obtain rfl := readBlockInto_none hr.toFaithful ho hread
        exact ih (by omega) (by omega) hnext (hassembled.add hr hi ho) hpass

theorem validateBlock_ok {env : BlockEnv} (hr : Range env m object start stop) {t : ℕ}
    {resp : RangeResponse} {remote : Bool} {put : PutOutcome}
    (hfetch : env.fetch t i = .answered resp remote put)
    (ho : BlockOffsets m start stop i a b) (h : validateBlock m i resp = .ok data) :
    data = blockBytes m object i := by
  unfold validateBlock at h
  dsimp only at h
  split_ifs at h with hgone hstatus hempty hetag hlength hbounds
  split at h
  · cases h
  · rename_i rest hread
    cases h
    have hversion : resp.OfVersion m (blockBounds i m.blockSize m.contentLength).1
        (blockBounds i m.blockSize m.contentLength).2 :=
      ⟨not_not.mp hstatus, not_not.mp hetag, not_not.mp hbounds⟩
    have hbody := hr.fetch t i resp remote put hfetch hversion
    obtain ⟨hrest, hlen⟩ := Source.readFull_ok hread
    have hpre : data <+: blockBytes m object i :=
      (List.prefix_append _ _).trans (hrest ▸ hbody)
    have hbase := ho.base
    have hnonneg := ho.nonneg
    have hle := ho.le
    have hinside := ho.inside
    have hcontent := hr.contentLength
    have hfirst : (blockBounds i m.blockSize m.contentLength).1 = i * m.blockSize := rfl
    have hlast : (blockBounds i m.blockSize m.contentLength).2 ≤ m.contentLength - 1 := by
      unfold blockBounds
      dsimp only
      omega
    exact eq_slice_of_length (by omega) (by omega) (by omega) hpre (by omega)

theorem serveResult_ok {env : BlockEnv} (hr : Range env m object start stop) {t : ℕ}
    (ho : BlockOffsets m start stop i a b)
    (h : (env.fetch t i).serveResult m i = .ok (some data)) : data = blockBytes m object i := by
  generalize hfetch : env.fetch t i = answer at h
  cases answer with
  | answered resp remote put =>
    simp only [BlockFetch.serveResult] at h
    split at h
    · cases h
    · rename_i fetched hvalid
      have hdata : fetched = data := by
        cases put <;> simp only at h <;> (try split at h) <;> cases h <;> rfl
      exact validateBlock_ok hr hfetch ho (hdata ▸ hvalid)
  | _ => cases h

theorem fetchBlocksForAssembly_ok {clock : ℕ} {idxs : List ℤ} {leases : ℤ → Option Bytes}
    (h : fetchBlocksForAssembly env m clock idxs = .ok leases) (hlease : leases i = some data) :
    (env.fetch clock i).serveResult m i = .ok (some data) := by
  unfold fetchBlocksForAssembly at h
  dsimp only at h
  split at h
  · cases h
  · cases h
    dsimp only at hlease
    split at hlease
    · cases hlease
    · rename_i hresult
      rw [hresult, hlease]

theorem fillPass_ok (hr : Range env.toBlockEnv m object start stop) {leases : ℤ → Option Bytes}
    {fetchedAt : ℕ}
    (hleases : ∀ i data, leases i = some data →
      (env.fetch fetchedAt i).serveResult m i = .ok (some data)) (missing : List ℤ) :
    ∀ {buf clock buf' clock'},
      Assembled m object start stop (stop.tdiv m.blockSize + 1) buf missing →
      fillPass env m start stop leases missing buf clock = (.ok buf', clock') →
      Assembled m object start stop (stop.tdiv m.blockSize + 1) buf' [] := by
  induction missing with
  | nil =>
    intro buf clock buf' clock' hassembled hpass
    cases hpass
    exact hassembled
  | cons i is ih =>
    intro buf clock buf' clock' hassembled hpass
    obtain ⟨⟨a, b⟩, hlocal⟩ : ∃ p, blockLocalRange i start stop m.blockSize m.contentLength = p :=
      ⟨_, rfl⟩
    obtain ⟨hfirst, hlast⟩ := hassembled.covering i List.mem_cons_self
    have ho := hr.offsets hfirst (by omega) hlocal
    have hplace : ((blockBounds i m.blockSize m.contentLength).1 + a - start).toNat =
        placeOf m start stop i := by
      rw [placeOf, ← ho.first]
      rfl
    have hfilled := hassembled.fill hr ho (List.subset_cons_self i is)
      (fun j hj => List.mem_cons.mp hj)
    rw [fillPass, hlocal] at hpass
    dsimp only at hpass
    rw [hplace] at hpass
    split at hpass
    · rename_i lease hlease
      obtain rfl := serveResult_ok hr ho (hleases i _ hlease)
      rw [slice_blockBytes object ho] at hpass
      split at hpass
      · cases hpass
      · exact ih hfilled hpass
    · generalize hread : readBlockInto env.toBlockEnv m clock i a b = read at hpass
      obtain ⟨landed, err⟩ := read
      dsimp only at hpass
      split at hpass
      · cases hpass
      · rename_i hfine
        obtain ⟨rfl, hlen⟩ : err = none ∧ (landed.length : ℤ) = b - a + 1 := by
          simpa using hfine
        obtain rfl := readBlockInto_none hr.toFaithful ho hread
        exact ih hfilled hpass

end Assembly

structure Untouched (resp resp' : ClientResponse) : Prop where
  header : resp'.header = resp.header
  committed : resp'.committed = resp.committed
  written : resp'.stream.written = resp.stream.written

/-- One partial response was committed, with the fields of the range, and its body
is the range or, with an error, the beginning of it. -/
structure PartialResponse (m : CachedObjectMeta) (object : Bytes) (rng : ByteRange)
    (resp : ClientResponse) (out : Served) : Prop where
  committed : ∃ h, out.response.committed = resp.committed ++ [(206, h)] ∧
    h.get (ascii "Content-Range") = ascii "bytes " ++ formatInt rng.start ++ ascii "-" ++
      formatInt rng.stop ++ ascii "/" ++ formatInt m.contentLength ∧
    h.get (ascii "Content-Length") = formatInt (rng.stop - rng.start + 1)
  body : ∃ body, out.response.stream.written = resp.stream.written ++ body ∧
    Exact object rng.start rng.stop out.err body

/-- Nothing was done to the response, or all of it. -/
def RangeServed (m : CachedObjectMeta) (object : Bytes) (rng : ByteRange) (resp : ClientResponse)
    (out : Served) : Prop :=
  out.served = false ∧ Untouched resp out.response ∨
    out.served = true ∧ PartialResponse m object rng resp out

section Routes

variable {env : ServeEnv} {m : CachedObjectMeta} {object data : Bytes} {rng : ByteRange}
  {resp resp' : ClientResponse} {out : Served}

theorem Untouched.trans {resp₁ resp₂ : ClientResponse} (h : Untouched resp resp₁)
    (h' : Untouched resp₁ resp₂) : Untouched resp resp₂ :=
  ⟨h'.header.trans h.header, h'.committed.trans h.committed, h'.written.trans h.written⟩

theorem untouched_atClock (resp : ClientResponse) (clock : ℕ) :
    Untouched resp (resp.atClock clock) := ⟨rfl, rfl, rfl⟩

theorem untouched_afterFetch (resp : ClientResponse) (err : Option BlockError) :
    Untouched resp (resp.afterFetch err) := ⟨rfl, rfl, rfl⟩

theorem RangeServed.of_untouched (h : Untouched resp resp')
    (hserved : RangeServed m object rng resp' out) : RangeServed m object rng resp out := by
  rcases hserved with ⟨hdeclined, hsame⟩ | ⟨hserved, hpartial⟩
  · exact .inl ⟨hdeclined, h.trans hsame⟩
  · refine .inr ⟨hserved, ?_, ?_⟩
    · rw [← h.committed]
      exact hpartial.committed
    · rw [← h.written]
      exact hpartial.body

theorem rangeHeader_contentRange (env : ServeEnv) (m : CachedObjectMeta) (rng : ByteRange)
    (h : Header) :
    (rangeHeader env m rng h).get (ascii "Content-Range") = ascii "bytes " ++
      formatInt rng.start ++ ascii "-" ++ formatInt rng.stop ++ ascii "/" ++
      formatInt m.contentLength := by
  unfold rangeHeader withRangeHeaders
  dsimp only
  rw [Header.get_set_ne _ _ (by decide), Header.get_set_ne _ _ (by decide), Header.get_set_self]

theorem rangeHeader_contentLength (env : ServeEnv) (m : CachedObjectMeta) (rng : ByteRange)
    (h : Header) :
    (rangeHeader env m rng h).get (ascii "Content-Length") =
      formatInt (rng.stop - rng.start + 1) := by
  unfold rangeHeader withRangeHeaders
  dsimp only
  rw [Header.get_set_ne _ _ (by decide), Header.get_set_ne _ _ (by decide),
    Header.get_set_ne _ _ (by decide), Header.get_set_self]

theorem partialResponse_of_commit {err : Option BlockError} {body : Bytes}
    (hcommitted : resp'.committed = (resp.commitRange env m rng).committed)
    (hwritten : resp'.stream.written = resp.stream.written ++ body)
    (hexact : Exact object rng.start rng.stop err body) :
    PartialResponse m object rng resp ⟨true, err, resp'⟩ := by
  refine ⟨⟨rangeHeader env m rng resp.header, hcommitted, ?_, ?_⟩, body, hwritten, hexact⟩
  · exact rangeHeader_contentRange env m rng resp.header
  · exact rangeHeader_contentLength env m rng resp.header

theorem write_eq {failed : Bool} (h : resp.write env data = (failed, resp')) :
    resp'.committed = resp.committed ∧
    ∃ taken, resp'.stream.written = resp.stream.written ++ taken ∧ taken <+: data ∧
      (failed = false → taken = data) := by
  unfold ClientResponse.write at h
  generalize hsend : resp.stream.send env.toBlockEnv data = sent at h
  obtain ⟨taken, refused, st⟩ := sent
  obtain ⟨hpre, hwritten, hall⟩ := send_eq hsend
  cases h
  exact ⟨rfl, taken, hwritten, hpre, hall⟩

theorem assembleRange_eq (hr : Range env.toBlockEnv m object rng.start rng.stop)
    {result : Except BlockError Bytes} (h : assembleRange env m rng resp = (result, resp')) :
    Untouched resp resp' ∧ ∀ buf, result = .ok buf → buf = slice object rng.start rng.stop := by
  have hle := hr.covering_le
  have hrange := hr.start_le
  have hempty : Assembled m object rng.start rng.stop (rng.start.tdiv m.blockSize)
      (getBlockBuf env (rng.stop - rng.start + 1)) [] := by
    constructor
    · rw [getBlockBuf, List.length_map, List.length_range]
      omega
    · intro j hj hlt
      omega
    · simp
  have hoff : rng.start + 0 =
      takeover rng.start rng.stop m.blockSize (rng.start.tdiv m.blockSize) :=
    (FilledTo.first hr).offset
  unfold assembleRange at h
  simp only [coveringBlocks, blockIndices] at h
  split at h
  · cases h
    exact ⟨untouched_atClock _ _, by simp⟩
  · rename_i buf missing clock hpass
    have hassembled := assemblePass_ok hr _ le_rfl (by omega) hoff hempty hpass
    split at h
    · rename_i hnone
      cases h
      subst hnone
      refine ⟨untouched_atClock _ _, fun buf' hbuf => ?_⟩
      cases hbuf
      exact hassembled.eq_slice hr
    · split at h
      · cases h
        exact ⟨(untouched_atClock _ _).trans (untouched_afterFetch _ _), by simp⟩
      · rename_i leases hfetch
        have huntouched := (untouched_atClock resp clock).trans
          (untouched_afterFetch (resp.atClock clock) none)
        split at h
        · cases h
          exact ⟨huntouched.trans (untouched_atClock _ _), by simp⟩
        · rename_i buf' clock' hfill
          cases h
          refine ⟨huntouched.trans (untouched_atClock _ _), fun buf'' hbuf => ?_⟩
          cases hbuf
          have hfilled := fillPass_ok hr
            (fun i data hlease => fetchBlocksForAssembly_ok hfetch hlease) missing hassembled hfill
          exact hfilled.eq_slice hr

theorem serveAssembledRange_served (hr : Range env.toBlockEnv m object rng.start rng.stop)
    (resp : ClientResponse) : RangeServed m object rng resp (serveAssembledRange env m rng resp) := by
  unfold serveAssembledRange
  split
  · rename_i e resp₁ hassemble
    exact .inl ⟨rfl, (assembleRange_eq hr hassemble).1⟩
  · rename_i buf resp₁ hassemble
    obtain ⟨huntouched, hbuf⟩ := assembleRange_eq hr hassemble
    obtain rfl := hbuf buf rfl
    apply RangeServed.of_untouched huntouched
    generalize hwrite : (resp₁.commitRange env m rng).write env
      (slice object rng.start rng.stop) = wrote
    obtain ⟨failed, resp₂⟩ := wrote
    obtain ⟨hcommitted, taken, hwritten, hpre, hall⟩ := write_eq hwrite
    refine .inr ⟨rfl, partialResponse_of_commit hcommitted hwritten ⟨hpre, fun hnone => ?_⟩⟩
    apply hall
    cases failed with
    | false => rfl
    | true => cases hnone

theorem certifiedReads_filled {start stop : ℤ} (hr : Range env.toBlockEnv m object start stop)
    (count : ℕ) :
    ∀ {i clock w}, start.tdiv m.blockSize ≤ i → i + count = stop.tdiv m.blockSize + 1 →
      FilledTo m object start stop i w →
      (∀ r ∈ certifiedReads env m start stop (blocksFrom i count) clock, readError r = none) →
      w ++ ((certifiedReads env m start stop (blocksFrom i count) clock).filterMap
        Except.toOption).flatten = slice object start stop := by
  induction count with
  | zero =>
    intro i clock w hi hcount hfilled hread
    have hlast : i = stop.tdiv m.blockSize + 1 := by omega
    rw [hlast] at hfilled
    simpa [blocksFrom, certifiedReads] using hfilled.complete hr
  | succ count ih =>
    intro i clock w hi hcount hfilled hread
    obtain ⟨⟨a, b⟩, hlocal⟩ : ∃ p, blockLocalRange i start stop m.blockSize m.contentLength = p :=
      ⟨_, rfl⟩
    have ho := hr.offsets hi (by omega) hlocal
    rw [blocksFrom, certifiedReads, hlocal] at hread ⊢
    dsimp only at hread ⊢
    rw [List.forall_mem_cons] at hread
    generalize hslice : readCachedBlockSlice env.toBlockEnv m clock i a b = read at hread ⊢
    cases read with
    | error e => cases hread.1
    | ok data =>
      obtain rfl := readCachedBlockSlice_ok hr.toFaithful ho hslice
      have hrest := ih (by omega) (by omega) (hfilled.advance hr ho) hread.2
      rw [List.append_assoc] at hrest
      exact hrest

theorem settleReads_hit {clock : ℕ} {reads : List (Except BlockError Bytes)} {slices : List Bytes}
    (h : settleReads env clock reads = .hit slices) :
    (∀ r ∈ reads, readError r = none) ∧ slices = reads.filterMap Except.toOption := by
  have htail : ∀ e, stagedTailFailure env clock e ≠ .hit slices := by
    intro e
    unfold stagedTailFailure
    split_ifs <;> simp
  have hfirst : ∀ e, stagedFirstFailure env clock e ≠ .hit slices := by
    intro e
    unfold stagedFirstFailure
    split_ifs <;> simp
  unfold settleReads at h
  split at h
  · cases h
  · split at h
    · rename_i hhead htails
      split at h
      · cases h
      · cases h
        refine ⟨?_, rfl⟩
        cases reads with
        | nil => simp
        | cons r rs =>
          rw [List.forall_mem_cons]
          exact ⟨hhead, List.filterMap_eq_nil_iff.mp htails⟩
    · exact absurd h (hfirst _)
    · exact absurd h (htail _)
    · split at h
      · exact absurd h (htail _)
      · exact absurd h (hfirst _)

theorem writeSlices_eq (slices : List Bytes) :
    ∀ {resp resp' failed}, writeSlices env slices resp = (failed, resp') →
      resp'.committed = resp.committed ∧
      ∃ taken, resp'.stream.written = resp.stream.written ++ taken ∧ taken <+: slices.flatten ∧
        (failed = false → taken = slices.flatten) := by
  induction slices with
  | nil =>
    intro resp resp' failed h
    cases h
    exact ⟨rfl, [], (List.append_nil _).symm, List.nil_prefix, fun _ => rfl⟩
  | cons data rest ih =>
    intro resp resp' failed h
    rw [writeSlices] at h
    split at h
    · rename_i resp₁ hwrite
      cases h
      obtain ⟨hcommitted, taken, hwritten, hpre, -⟩ := write_eq hwrite
      exact ⟨hcommitted, taken, hwritten, hpre.trans (List.prefix_append _ _), by simp⟩
    · rename_i resp₁ hwrite
      obtain ⟨hcommitted, taken, hwritten, -, hall⟩ := write_eq hwrite
      obtain ⟨hcommitted', taken', hwritten', hpre', hall'⟩ := ih h
      obtain rfl := hall rfl
      refine ⟨hcommitted'.trans hcommitted, taken ++ taken', ?_, ?_, fun hfine => ?_⟩
      · rw [hwritten', hwritten, List.append_assoc]
      · exact (List.prefix_append_right_inj taken).mpr hpre'
      · rw [hall' hfine, List.flatten_cons]

theorem serveCertifiedRange_served (hr : Range env.toBlockEnv m object rng.start rng.stop)
    {clock : ℕ} (h : serveCertifiedRange env m rng resp = (some out, clock)) :
    RangeServed m object rng resp out := by
  have hle := hr.covering_le
  unfold serveCertifiedRange at h
  dsimp only [coveringBlocks, blockIndices] at h
  generalize hcount : (rng.stop.tdiv m.blockSize - rng.start.tdiv m.blockSize + 1).toNat = count at h
  generalize resp.stream.clock + (blocksFrom (rng.start.tdiv m.blockSize) count).length = t at h
  split at h
  · cases h
    exact .inl ⟨rfl, rfl, rfl, rfl⟩
  · split at h
    · cases h
    · cases h
      exact .inl ⟨rfl, untouched_atClock _ _⟩
    · rename_i slices hsettled
      obtain ⟨hread, rfl⟩ := settleReads_hit hsettled
      have hslices := certifiedReads_filled hr _ le_rfl (by omega) (.first hr) hread
      rw [List.nil_append] at hslices
      generalize hwrite : writeSlices env _ ((resp.atClock _).commitRange env m rng) = wrote at h
      obtain ⟨failed, resp₁⟩ := wrote
      obtain ⟨hcommitted, taken, hwritten, hpre, hall⟩ := writeSlices_eq _ hwrite
      rw [hslices] at hpre hall
      cases h
      apply RangeServed.of_untouched (untouched_atClock resp _)
      refine .inr ⟨rfl, partialResponse_of_commit hcommitted hwritten ⟨hpre, fun hnone => ?_⟩⟩
      apply hall
      cases failed with
      | false => rfl
      | true => cases hnone

theorem serveCompleteFromBlocks_served (hr : Range env.toBlockEnv m object rng.start rng.stop)
    (resp : ClientResponse) :
    RangeServed m object rng resp (serveCompleteFromBlocks env m (some rng) resp) := by
  unfold serveCompleteFromBlocks
  dsimp only [servedBounds, coveringBlocks]
  generalize hb : rng.start.tdiv m.blockSize = b₀
  obtain ⟨⟨a, b⟩, hlocal⟩ :
      ∃ p, blockLocalRange b₀ rng.start rng.stop m.blockSize m.contentLength = p := ⟨_, rfl⟩
  have ho := hr.offsets hb.le (hb ▸ hr.covering_le) hlocal
  obtain ⟨hkept, hbytes⟩ := readBlockSlice_part hr.toFaithful ho none resp.stream
  have hfilled : FilledTo m object rng.start rng.stop (b₀ + 1)
      (blockPart m object rng.start rng.stop b₀) := by
    have hnone := FilledTo.first hr
    rw [hb] at hnone
    exact hnone.advance hr ho
  have hlast : (blockBounds b₀ m.blockSize m.contentLength).1 + b + 1 =
      takeover rng.start rng.stop m.blockSize (b₀ + 1) := ho.last
  rw [hlocal]
  dsimp only
  split
  · exact .inl ⟨rfl, rfl, rfl, hkept⟩
  · rename_i buf hbuf
    obtain rfl := hbytes buf hbuf
    have huntouched : Untouched resp { resp with
        stream := (readBlockSlice env.toBlockEnv m b₀ a b none resp.stream).stream } :=
      ⟨rfl, rfl, hkept⟩
    apply RangeServed.of_untouched huntouched
    split
    · rename_i resp₁ hwrite
      obtain ⟨hcommitted, taken, hwritten, hpre, -⟩ := write_eq hwrite
      have hexact : Exact object rng.start rng.stop (some .clientWrite) taken :=
        ⟨hpre.trans hfilled.part, by simp⟩
      exact .inr ⟨rfl, partialResponse_of_commit hcommitted hwritten hexact⟩
    · rename_i resp₁ hwrite
      obtain ⟨hcommitted, taken, hwritten, -, hall⟩ := write_eq hwrite
      rw [hall rfl] at hwritten
      have hoffset := hfilled.offset
      split
      · rename_i hmore
        have hstart := hr.start_nonneg
        have hrest : Range env.toBlockEnv m object
            ((blockBounds b₀ m.blockSize m.contentLength).1 + b + 1) rng.stop :=
          { hr.toFaithful with
            start_nonneg := by omega
            start_le := by omega
            stop_lt := hr.stop_lt }
        have hexact := streamBlockRange_byteExact hrest resp₁.stream.clock
        rw [hlast, ← hoffset] at hexact ⊢
        have hboth := Exact.append hr.start_nonneg hfilled.part hexact
        refine .inr ⟨rfl, partialResponse_of_commit hcommitted ?_ hboth⟩
        rw [ClientResponse.append, hwritten, List.append_assoc]
        rfl
      · rename_i hmore
        have hle := hr.start_le
        have hlt := hr.stop_lt
        have hcontent := hr.contentLength
        have hstop : takeover rng.start rng.stop m.blockSize (b₀ + 1) ≤ rng.stop + 1 :=
          min_le_right _ _
        have hfull := eq_slice_of_length hr.start_nonneg (by omega) (by omega) hfilled.part
          (by omega)
        have hexact : Exact object rng.start rng.stop none
            (blockPart m object rng.start rng.stop b₀) := ⟨hfilled.part, fun _ => hfull⟩
        exact .inr ⟨rfl, partialResponse_of_commit hcommitted hwritten hexact⟩

theorem ensureBlocksCached_untouched {b₀ bK : ℤ} {result : Option (Option BlockError)}
    (h : ensureBlocksCached env m b₀ bK resp = (result, resp')) : Untouched resp resp' := by
  unfold ensureBlocksCached at h
  split at h
  · cases h
    exact untouched_atClock _ _
  · dsimp only at h
    split at h
    · cases h
      exact untouched_atClock _ _
    · split at h
      all_goals
        cases h
        exact (untouched_atClock _ _).trans (untouched_afterFetch _ _)

theorem serveProbed_served (hr : Range env.toBlockEnv m object rng.start rng.stop)
    (resp : ClientResponse) : RangeServed m object rng resp (serveProbed env m rng resp) := by
  unfold serveProbed
  dsimp only [coveringBlocks]
  split
  · rename_i err resp₁ hensure
    exact .inl ⟨rfl, ensureBlocksCached_untouched hensure⟩
  · rename_i resp₁ hensure
    apply RangeServed.of_untouched (ensureBlocksCached_untouched hensure)
    have hexact := streamBlockRange_byteExact hr (resp₁.commitRange env m rng).stream.clock
    exact .inr ⟨rfl, partialResponse_of_commit rfl rfl hexact⟩

theorem serveUncertified_served (hr : Range env.toBlockEnv m object rng.start rng.stop)
    (resp : ClientResponse) : RangeServed m object rng resp (serveUncertified env m rng resp) := by
  unfold serveUncertified
  split
  · split
    · exact (serveCompleteFromBlocks_served hr _).of_untouched (untouched_atClock _ _)
    · exact (serveProbed_served hr _).of_untouched (untouched_atClock _ _)
  · exact serveProbed_served hr resp

theorem serveLongRange_served (hr : Range env.toBlockEnv m object rng.start rng.stop)
    (resp : ClientResponse) : RangeServed m object rng resp (serveLongRange env m rng resp) := by
  unfold serveLongRange
  dsimp only [coveringBlocks]
  split
  · split
    · split
      · rename_i hcertified
        exact (serveCertifiedRange_served hr hcertified).of_untouched (untouched_atClock _ _)
      · exact (serveUncertified_served hr _).of_untouched (untouched_atClock _ _)
    · exact (serveUncertified_served hr _).of_untouched (untouched_atClock _ _)
  · exact serveUncertified_served hr resp

end Routes

/-- Every range request, on each of the routes. A header with one range that lies
in the object is declined with the response untouched, or answered by one partial
response that is exact; any other is answered by one error. -/
theorem serveRangeFromBlockCache_exact {env : ServeEnv} {m : CachedObjectMeta} {object : Bytes}
    (hf : Faithful env.toBlockEnv m object) (range : Bytes) (resp : ClientResponse) :
    (∀ rng, parseRangeHeader range m.contentLength = some [rng] →
      RangeServed m object rng resp (serveRangeFromBlockCache env m range resp)) ∧
    ((∀ rng, parseRangeHeader range m.contentLength ≠ some [rng]) →
      (serveRangeFromBlockCache env m range resp).served = true ∧
      ∃ h, (serveRangeFromBlockCache env m range resp).response.committed =
          resp.committed ++ [(416, h)] ∧
        h.get (ascii "Content-Range") = ascii "bytes */" ++ formatInt m.contentLength) := by
  constructor
  · intro rng hparse
    obtain ⟨hstart, hle, hstop⟩ := parseRangeHeader_bounds hparse
    have hr : Range env.toBlockEnv m object rng.start rng.stop :=
      { hf with
        start_nonneg := hstart
        start_le := hle
        stop_lt := hstop }
    unfold serveRangeFromBlockCache
    simp only [hparse]
    split
    · split
      · exact (serveAssembledRange_served hr _).of_untouched (untouched_atClock _ _)
      · exact (serveLongRange_served hr _).of_untouched (untouched_atClock _ _)
    · exact serveLongRange_served hr resp
  · intro hnone
    unfold serveRangeFromBlockCache
    split
    · rename_i rng hparse
      exact absurd hparse (hnone rng)
    · refine ⟨rfl, ?_⟩
      unfold writeRangeNotSatisfiable
      dsimp only
      generalize hwrite : ClientResponse.write env _ _ = wrote
      obtain ⟨failed, resp₁⟩ := wrote
      obtain ⟨hcommitted, -⟩ := write_eq hwrite
      refine ⟨_, hcommitted, ?_⟩
      rw [Header.get_set_ne _ _ (by decide)]
      split_ifs
      · rw [Header.get_set_ne _ _ (by decide), Header.get_set_ne _ _ (by decide),
          Header.get_set_self]
      · rw [Header.get_set_ne _ _ (by decide), Header.get_set_self]

def lostBlockServe : ServeEnv where
  toBlockEnv := lostBlock
  stageSeen _ := false
  stageExpired _ := false
  tailFirst _ := false
  pick _ := 0
  garbage _ := 0
  formatTime _ := []
  newRequestID := ascii "1"
  invalidRange _ := []

/-- The complete route, with a block that has to come from upstream. -/
theorem serveRangeFromBlockCache_exact_lostBlock :
    ∃ h, (serveRangeFromBlockCache lostBlockServe threeBlocks (ascii "bytes=2-9")
        {}).response.committed = [(206, h)] ∧
      h.get (ascii "Content-Range") = ascii "bytes 2-9/10" ∧
      (serveRangeFromBlockCache lostBlockServe threeBlocks (ascii "bytes=2-9")
        {}).response.stream.written = ascii "23456789" := by
  have hserved : (serveRangeFromBlockCache lostBlockServe threeBlocks (ascii "bytes=2-9")
      {}).served = true := by decide +kernel
  have hfine : (serveRangeFromBlockCache lostBlockServe threeBlocks (ascii "bytes=2-9")
      {}).err = none := by decide +kernel
  have hf : Faithful lostBlockServe.toBlockEnv threeBlocks tenBytes := lostBlock_range.toFaithful
  have hexact := (serveRangeFromBlockCache_exact hf (ascii "bytes=2-9") {}).1 ⟨2, 9⟩
    (by decide +kernel)
  rcases hexact with ⟨hdeclined, -⟩ | ⟨-, hpartial⟩
  · rw [hserved] at hdeclined
    cases hdeclined
  · obtain ⟨h, hcommitted, hrange, -⟩ := hpartial.committed
    obtain ⟨body, hwritten, -, hall⟩ := hpartial.body
    refine ⟨h, hcommitted, hrange.trans (by decide +kernel), ?_⟩
    rw [hwritten, hall hfine]
    decide +kernel

end TagGateway.Proxy
