import TagGateway.Proxy.FullBlockServe
import TagGateway.Proxy.StaleSignals

/-!
# When an entry stored in blocks is invalidated

The routes of a range and of a whole object, each with the calls it makes, and the groups
of fetches in every order of their members. An entry is invalidated on a definitive
signal and on nothing else, and what is removed carries the tag that was served.
-/
namespace TagGateway.Proxy.BlockInvalidation

open Foundation Cache

/-! ## Serving a range -/

section

variable {env : ServeEnv} {m : CachedObjectMeta} {resp resp' resp'' : ClientResponse}

def Responds (env : ServeEnv) (m : CachedObjectMeta) (resp resp' : ClientResponse) : Prop :=
  ∃ trace, Acts env.toBlockEnv m resp.stream trace resp'.stream

namespace Responds

theorem trans (h : Responds env m resp resp') (h' : Responds env m resp' resp'') :
    Responds env m resp resp'' := by
  obtain ⟨trace, hacts⟩ := h
  obtain ⟨trace', hacts'⟩ := h'
  exact ⟨_, hacts.trans hacts'⟩

theorem quiet (hclock : resp.stream.clock ≤ resp'.stream.clock)
    (hinvalidated : resp'.stream.invalidated = resp.stream.invalidated) :
    Responds env m resp resp' := ⟨[], .quiet hclock hinvalidated⟩

theorem atClock {clock : ℕ} (h : resp.stream.clock ≤ clock) :
    Responds env m resp (resp.atClock clock) := quiet h rfl

theorem fetch {idxs : List ℤ}
    (hmissing : ∀ idx ∈ idxs, FoundMissing env.toBlockEnv m resp.stream.clock idx)
    {err : Option BlockError}
    (herr : fetchBlocksToCache env.toBlockEnv m resp.stream.clock idxs = err) :
    Responds env m resp (resp.afterFetch err) := ⟨_, .fetch hmissing herr⟩

theorem write (resp : ClientResponse) (data : Bytes) :
    Responds env m resp (resp.write env data).2 := ⟨[], .sent resp.stream data⟩

theorem commitServed (resp : ClientResponse) (rng : Option ByteRange) :
    Responds env m resp (resp.commitServed env m rng) := by
  cases rng with
  | none => exact quiet le_rfl rfl
  | some r => exact quiet le_rfl rfl

theorem append {st : Stream} {trace : List Call}
    (h : Acts env.toBlockEnv m { clock := resp.stream.clock } trace st) :
    Responds env m resp (resp.append st) := by
  refine ⟨trace, h.asked, ?_⟩
  have hinvalidated := h.invalidated
  simp only [Bool.false_eq_true, false_or] at hinvalidated
  simp only [ClientResponse.append, Bool.or_eq_true, hinvalidated]

theorem streamed (resp : ClientResponse) (start stop : ℤ) :
    Responds env m resp (resp.append (streamBlockRangeWithFooterRange env.toBlockEnv m start stop
      resp.stream.clock).2.2) := by
  obtain ⟨trace, hacts⟩ :=
    streamBlockRangeWithFooterRange_acts env.toBlockEnv m start stop resp.stream.clock
  exact append hacts

end Responds

theorem FoundMissing.later {env : BlockEnv} {clock clock' : ℕ} {idx : ℤ}
    (h : FoundMissing env m clock idx) (hle : clock ≤ clock') : FoundMissing env m clock' idx := by
  cases h with
  | streamed st localStart localEnd hbefore h =>
    exact .streamed st localStart localEnd (hbefore.trans_le hle) h
  | read before localStart localEnd hbefore h =>
    exact .read before localStart localEnd (hbefore.trans_le hle) h
  | probed before hbefore h => exact .probed before (hbefore.trans_le hle) h

theorem assemblePass_clock_le (start stop : ℤ) (is : List ℤ) (off : ℤ) (buf : Bytes)
    (missing : List ℤ) (clock : ℕ) :
    clock ≤ (assemblePass env m start stop is off buf missing clock).2 := by
  induction is generalizing off buf missing clock with
  | nil => exact le_rfl
  | cons i is ih =>
    rw [assemblePass]
    dsimp only
    split
    · exact (Nat.le_succ clock).trans (ih _ _ _ _)
    · exact Nat.le_succ clock
    · split_ifs
      · exact Nat.le_succ clock
      · exact (Nat.le_succ clock).trans (ih _ _ _ _)

theorem assemblePass_foundMissing {start stop : ℤ} {is : List ℤ} {off : ℤ} {buf buf' : Bytes}
    {missing₀ missing : List ℤ} {clock clock' : ℕ}
    (h : assemblePass env m start stop is off buf missing₀ clock = (.ok (buf', missing), clock'))
    (hmissing : ∀ idx ∈ missing₀, FoundMissing env.toBlockEnv m clock idx) :
    ∀ idx ∈ missing, FoundMissing env.toBlockEnv m clock' idx := by
  induction is generalizing off buf missing₀ clock with
  | nil =>
    obtain ⟨⟨-, rfl⟩, rfl⟩ := by simpa [assemblePass] using h
    exact hmissing
  | cons i is ih =>
    rw [assemblePass] at h
    dsimp only at h
    have hlater : ∀ idx ∈ missing₀, FoundMissing env.toBlockEnv m (clock + 1) idx :=
      fun idx hidx => (hmissing idx hidx).later (Nat.le_succ clock)
    split at h
    next hread =>
      apply ih h
      intro idx hidx
      rcases List.mem_append.mp hidx with hold | hnew
      · exact hlater idx hold
      · obtain rfl := List.mem_singleton.mp hnew
        exact .read clock _ _ (Nat.lt_succ_self _) hread
    next => simp at h
    next =>
      split_ifs at h
      · simp at h
      · exact ih h hlater

theorem fillPass_clock_le (start stop : ℤ) (leases : ℤ → Option Bytes) (is : List ℤ)
    (buf : Bytes) (clock : ℕ) :
    clock ≤ (fillPass env m start stop leases is buf clock).2 := by
  induction is generalizing buf clock with
  | nil => exact le_rfl
  | cons i is ih =>
    rw [fillPass]
    dsimp only
    split
    · split_ifs
      · exact le_rfl
      · exact ih _ _
    · split_ifs
      · exact Nat.le_succ clock
      · exact (Nat.le_succ clock).trans (ih _ _)

theorem acts_afterFetch {st : Stream} {idxs : List ℤ}
    (hmissing : ∀ idx ∈ idxs, FoundMissing env.toBlockEnv m st.clock idx)
    {err : Option BlockError}
    (h : err.any BlockError.isStale = true ↔
      Signal m (.fetch (idxs.map fun idx => (idx, env.fetch st.clock idx)))) :
    Acts env.toBlockEnv m st [.fetch (idxs.map fun idx => (idx, env.fetch st.clock idx))]
      (st.afterFetch err) := by
  apply Acts.one (.fetch st.clock idxs hmissing)
  rw [← h, Stream.afterFetch, Bool.or_eq_true]

theorem Responds.fetchForAssembly (resp : ClientResponse) {idxs : List ℤ}
    (hmissing : ∀ idx ∈ idxs, FoundMissing env.toBlockEnv m resp.stream.clock idx) :
    (∀ e, fetchBlocksForAssembly env m resp.stream.clock idxs = .error e →
      Responds env m resp (resp.afterFetch (some e))) ∧
    ∀ leases, fetchBlocksForAssembly env m resp.stream.clock idxs = .ok leases →
      Responds env m resp (resp.afterFetch none) := by
  have hstale := fetchBlocksForAssembly_stale_iff env m resp.stream.clock idxs
  constructor
  · intro e he
    refine ⟨_, acts_afterFetch hmissing ?_⟩
    rw [← hstale, he]
    simp
  · intro leases hleases
    refine ⟨_, acts_afterFetch hmissing ?_⟩
    rw [← hstale, hleases]
    simp

theorem assembleRange_responds (env : ServeEnv) (m : CachedObjectMeta) (rng : ByteRange)
    (resp : ClientResponse) :
    Responds env m resp (assembleRange env m rng resp).2 := by
  unfold assembleRange
  dsimp only
  split
  next e clock hpass =>
    exact .atClock ((assemblePass_clock_le ..).trans_eq (congrArg Prod.snd hpass))
  next buf missing clock hpass =>
    have hread : Responds env m resp (resp.atClock clock) :=
      .atClock ((assemblePass_clock_le ..).trans_eq (congrArg Prod.snd hpass))
    have hmissing : ∀ idx ∈ missing, FoundMissing env.toBlockEnv m clock idx :=
      assemblePass_foundMissing hpass (by simp)
    obtain ⟨hfailed, hfetched⟩ := Responds.fetchForAssembly (resp.atClock clock) hmissing
    split_ifs
    · exact hread
    · split
      next e hfetch => exact hread.trans (hfailed e hfetch)
      next leases hfetch =>
        have hfill := hread.trans (hfetched leases hfetch)
        split
        next e clock' hfilled =>
          exact hfill.trans (.atClock ((fillPass_clock_le ..).trans_eq (congrArg Prod.snd hfilled)))
        next buf clock' hfilled =>
          exact hfill.trans (.atClock ((fillPass_clock_le ..).trans_eq (congrArg Prod.snd hfilled)))

theorem serveAssembledRange_responds (env : ServeEnv) (m : CachedObjectMeta) (rng : ByteRange)
    (resp : ClientResponse) :
    Responds env m resp (serveAssembledRange env m rng resp).response := by
  have hassemble := assembleRange_responds env m rng resp
  unfold serveAssembledRange
  split
  next e resp' h =>
    rw [h] at hassemble
    exact hassemble
  next buf resp' h =>
    rw [h] at hassemble
    exact hassemble.trans (.write _ buf)

theorem writeSlices_responds (slices : List Bytes) (resp : ClientResponse) :
    Responds env m resp (writeSlices env slices resp).2 := by
  induction slices generalizing resp with
  | nil => exact .quiet le_rfl rfl
  | cons data rest ih =>
    have hwrite : Responds env m resp (resp.write env data).2 := .write resp data
    rw [writeSlices]
    split
    next resp' h =>
      rw [h] at hwrite
      exact hwrite
    next resp' h =>
      rw [h] at hwrite
      exact hwrite.trans (ih resp')

theorem serveCertifiedRange_responds (env : ServeEnv) (m : CachedObjectMeta) (rng : ByteRange)
    (resp : ClientResponse) :
    (∀ served clock, serveCertifiedRange env m rng resp = (some served, clock) →
      Responds env m resp served.response) ∧
    ∀ clock, serveCertifiedRange env m rng resp = (none, clock) → resp.stream.clock ≤ clock := by
  unfold serveCertifiedRange
  dsimp only
  split_ifs
  · constructor
    · rintro served clock ⟨⟩
      exact .quiet le_rfl rfl
    · simp
  · split
    next =>
      constructor
      · simp
      · rintro clock ⟨⟩
        omega
    next e =>
      constructor
      · rintro served clock ⟨⟩
        exact .atClock (by omega)
      · simp
    next =>
      constructor
      · rintro served clock ⟨⟩
        refine Responds.trans ?_ (writeSlices_responds _ _)
        exact .quiet (Nat.le_succ_of_le (Nat.le_add_right _ _)) rfl
      · simp

theorem serveCompleteFromBlocks_responds (env : ServeEnv) (m : CachedObjectMeta)
    (rng : Option ByteRange) (resp : ClientResponse) :
    Responds env m resp (serveCompleteFromBlocks env m rng resp).response := by
  unfold serveCompleteFromBlocks
  dsimp only
  generalize blockLocalRange _ _ _ _ _ = bounds
  generalize (coveringBlocks _ _ _).1 = b₀
  obtain ⟨trace, hfirst⟩ :=
    readBlockSlice_acts env.toBlockEnv m b₀ bounds.1 bounds.2 none resp.stream
  generalize readBlockSlice env.toBlockEnv m b₀ bounds.1 bounds.2 none resp.stream = first
    at hfirst ⊢
  have hread : Responds env m resp { resp with stream := first.stream } := ⟨trace, hfirst⟩
  split
  next e _ => exact hread
  next buf _ =>
    have hwrite := (hread.trans (.commitServed _ rng)).trans (.write _ buf)
    split
    next resp' h =>
      rw [h] at hwrite
      exact hwrite
    next resp' h =>
      rw [h] at hwrite
      split_ifs
      · exact hwrite.trans (.streamed resp' _ _)
      · exact hwrite

/-! ## Probing -/

theorem probeBlock_eq_probe (clock : ℕ) (idx : ℤ) :
    probeBlock env m clock idx = probe env.toBlockEnv m clock idx := rfl

theorem probeBlocks_clock_le (maxFetchFanout : ℕ) (is missing : List ℤ) (clock : ℕ) :
    clock ≤ (probeBlocks env m maxFetchFanout is missing clock).2 := by
  induction is generalizing missing clock with
  | nil => exact le_rfl
  | cons i is ih =>
    rw [probeBlocks]
    split
    · exact Nat.le_succ clock
    · exact (Nat.le_succ clock).trans (ih _ _)
    · split_ifs
      · exact Nat.le_succ clock
      · exact (Nat.le_succ clock).trans (ih _ _)

theorem probeBlocks_foundMissing {maxFetchFanout : ℕ} {is missing₀ missing : List ℤ}
    {clock clock' : ℕ}
    (h : probeBlocks env m maxFetchFanout is missing₀ clock = (.ok missing, clock'))
    (hmissing : ∀ idx ∈ missing₀, FoundMissing env.toBlockEnv m clock idx) :
    ∀ idx ∈ missing, FoundMissing env.toBlockEnv m clock' idx := by
  induction is generalizing missing₀ clock with
  | nil =>
    obtain ⟨rfl, rfl⟩ := by simpa [probeBlocks] using h
    exact hmissing
  | cons i is ih =>
    have hlater : ∀ idx ∈ missing₀, FoundMissing env.toBlockEnv m (clock + 1) idx :=
      fun idx hidx => (hmissing idx hidx).later (Nat.le_succ clock)
    rw [probeBlocks] at h
    split at h
    next => simp at h
    next => exact ih h hlater
    next hprobe =>
      split_ifs at h
      · simp at h
      apply ih h
      intro idx hidx
      rcases List.mem_append.mp hidx with hold | hnew
      · exact hlater idx hold
      · obtain rfl := List.mem_singleton.mp hnew
        exact .probed clock (Nat.lt_succ_self _) hprobe

theorem probeBlocks_ok (is missing₀ : List ℤ) (clock : ℕ) {missing : List ℤ} {clock' : ℕ}
    (h : probeBlocks env m 0 is missing₀ clock = (.ok missing, clock')) :
    clock' = clock + is.length ∧
      (∀ r ∈ probeResults env.toBlockEnv m is clock, ∃ present, r = .ok present) ∧
      missing.length =
        missing₀.length + (probeResults env.toBlockEnv m is clock).countP isAbsent := by
  induction is generalizing missing₀ clock with
  | nil =>
    obtain ⟨rfl, rfl⟩ := by simpa [probeBlocks] using h
    simp [probeResults]
  | cons i is ih =>
    rw [probeBlocks, probeBlock_eq_probe] at h
    rw [probeResults]
    split at h
    next => simp at h
    next hprobe =>
      obtain ⟨hclock, hclean, hcount⟩ := ih _ _ h
      rw [hprobe, List.countP_cons_of_neg (by simp [isAbsent]), List.length_cons]
      refine ⟨by omega, ?_, hcount⟩
      simpa using hclean
    next hprobe =>
      rw [if_neg (by omega)] at h
      obtain ⟨hclock, hclean, hcount⟩ := ih _ _ h
      rw [hprobe, List.countP_cons_of_pos (by simp [isAbsent]), List.length_cons]
      rw [List.length_append, List.length_singleton] at hcount
      refine ⟨by omega, ?_, by omega⟩
      simpa using hclean

theorem probeBlocks_error (env : ServeEnv) (m : CachedObjectMeta) (is missing : List ℤ)
    (clock : ℕ) :
    (probeBlocks env m 0 is missing clock).1 ≠ .error none := by
  induction is generalizing missing clock with
  | nil => simp [probeBlocks]
  | cons i is ih =>
    rw [probeBlocks]
    split
    · simp
    · exact ih _ _
    · rw [if_neg (by omega)]
      exact ih _ _

theorem ensureBlocks_responds (env : ServeEnv) (m : CachedObjectMeta) (b₀ bK : ℤ)
    (bailIfMostlyMissing : Bool) (maxFetchFanout : ℕ) (resp : ClientResponse) :
    Responds env m resp (ensureBlocks env m b₀ bK bailIfMostlyMissing maxFetchFanout resp).2 := by
  unfold ensureBlocks
  split
  next e clock hprobed =>
    exact .atClock ((probeBlocks_clock_le ..).trans_eq (congrArg Prod.snd hprobed))
  next missing clock hprobed =>
    have hread : Responds env m resp (resp.atClock clock) :=
      .atClock ((probeBlocks_clock_le ..).trans_eq (congrArg Prod.snd hprobed))
    have hmissing : ∀ idx ∈ missing, FoundMissing env.toBlockEnv m
        (resp.atClock clock).stream.clock idx := probeBlocks_foundMissing hprobed (by simp)
    dsimp only
    split_ifs
    · exact hread
    · exact hread
    · split
      next e hfetch => exact hread.trans (.fetch hmissing hfetch)
      next hfetch => exact hread.trans (.fetch hmissing hfetch)

theorem serveProbed_responds (env : ServeEnv) (m : CachedObjectMeta) (rng : ByteRange)
    (resp : ClientResponse) : Responds env m resp (serveProbed env m rng resp).response := by
  unfold serveProbed
  dsimp only
  have hensure := ensureBlocks_responds env m (coveringBlocks rng.start rng.stop m.blockSize).1
    (coveringBlocks rng.start rng.stop m.blockSize).2 false maxRangeBlockFanout resp
  rw [← ensureBlocksCached_eq_ensureBlocks] at hensure
  split
  next err resp' h =>
    rw [h] at hensure
    exact hensure
  next resp' h =>
    rw [h] at hensure
    have hcommit : Responds env m resp (resp'.commitRange env m rng) :=
      hensure.trans (.quiet le_rfl rfl)
    exact hcommit.trans (.streamed _ _ _)

theorem serveUncertified_responds (env : ServeEnv) (m : CachedObjectMeta) (rng : ByteRange)
    (resp : ClientResponse) : Responds env m resp (serveUncertified env m rng resp).response := by
  have hreserve : Responds env m resp (resp.atClock (resp.stream.clock + 1)) :=
    .atClock (Nat.le_succ _)
  unfold serveUncertified
  split_ifs
  · exact hreserve.trans (serveCompleteFromBlocks_responds env m (some rng) _)
  · exact hreserve.trans (serveProbed_responds env m rng _)
  · exact serveProbed_responds env m rng resp

theorem serveLongRange_responds (env : ServeEnv) (m : CachedObjectMeta) (rng : ByteRange)
    (resp : ClientResponse) : Responds env m resp (serveLongRange env m rng resp).response := by
  have hreserve : Responds env m resp (resp.atClock (resp.stream.clock + 1)) :=
    .atClock (Nat.le_succ _)
  unfold serveLongRange
  dsimp only
  split_ifs
  · obtain ⟨hserved, hdeclined⟩ :=
      serveCertifiedRange_responds env m rng (resp.atClock (resp.stream.clock + 1))
    split
    next served _ h => exact hreserve.trans (hserved _ _ h)
    next clock h =>
      have hretry : Responds env m resp (resp.atClock clock) :=
        .atClock ((Nat.le_succ _).trans (hdeclined clock h))
      exact hretry.trans (serveUncertified_responds env m rng _)
  · exact hreserve.trans (serveUncertified_responds env m rng _)
  · exact serveUncertified_responds env m rng resp

theorem serveRangeFromBlockCache_responds (env : ServeEnv) (m : CachedObjectMeta) (range : Bytes)
    (resp : ClientResponse) :
    Responds env m resp (serveRangeFromBlockCache env m range resp).response := by
  have hreserve : Responds env m resp (resp.atClock (resp.stream.clock + 1)) :=
    .atClock (Nat.le_succ _)
  unfold serveRangeFromBlockCache
  split
  next rng _ =>
    split_ifs
    · exact hreserve.trans (serveAssembledRange_responds env m rng _)
    · exact hreserve.trans (serveLongRange_responds env m rng _)
    · exact serveLongRange_responds env m rng resp
  next => exact .trans (.quiet le_rfl rfl) (.write _ _)

theorem signal_probes_iff {clock clock' : ℕ} {missing : List ℤ}
    (h : probeBlocks env m 0 (blockIndices 0 ((m.contentLength - 1).tdiv m.blockSize)) [] clock =
      (.ok missing, clock')) :
    Signal m (.probes (probeResults env.toBlockEnv m
        (blockIndices 0 ((m.contentLength - 1).tdiv m.blockSize)) clock)) ↔
      (m.contentLength - 1).tdiv m.blockSize - 0 + 1 < (missing.length : ℤ) * 2 := by
  obtain ⟨-, hclean, hcount⟩ := probeBlocks_ok _ _ _ h
  rw [List.length_nil, Nat.zero_add] at hcount
  rw [hcount]
  constructor
  · intro hsignal
    cases hsignal with
    | mostlyAbsent _ hmost =>
      unfold blockCount at hmost
      omega
  · intro hmost
    refine .mostlyAbsent hclean ?_
    unfold blockCount
    omega

theorem serveAssembledObject_responds (env : ServeEnv) (m : CachedObjectMeta)
    (resp : ClientResponse) :
    Responds env m resp (serveAssembledObject env m resp).response := by
  have herror := probeBlocks_error env m
    (blockIndices 0 ((m.contentLength - 1).tdiv m.blockSize)) [] resp.stream.clock
  unfold serveAssembledObject ensureBlocks
  cases hprobed : probeBlocks env m 0 (blockIndices 0 ((m.contentLength - 1).tdiv m.blockSize)) []
    resp.stream.clock with
  | mk result clock =>
    rw [hprobed] at herror
    cases result with
    | error e =>
      cases e with
      | none => exact absurd rfl herror
      | some e => exact .atClock ((probeBlocks_clock_le ..).trans_eq (congrArg Prod.snd hprobed))
    | ok missing =>
      have hsignal := signal_probes_iff hprobed
      obtain ⟨hclock, -, -⟩ := probeBlocks_ok _ _ _ hprobed
      have hasked : Asked env.toBlockEnv m resp.stream.clock _ _ := .probes resp.stream.clock
      rw [← hclock] at hasked
      dsimp only
      by_cases hmost : (m.contentLength - 1).tdiv m.blockSize - 0 + 1 < (missing.length : ℤ) * 2
      · rw [if_pos ⟨rfl, hmost⟩]
        refine ⟨_, .one hasked ?_⟩
        rw [hsignal]
        exact ⟨fun _ => .inr hmost, fun _ => rfl⟩
      · have hread : Responds env m resp (resp.atClock clock) := by
          refine ⟨_, .one hasked ?_⟩
          rw [hsignal]
          exact ⟨.inl, fun h => h.resolve_right hmost⟩
        rw [if_neg (fun h => hmost h.2)]
        by_cases hmissing : missing = []
        · rw [if_pos hmissing]
          exact (hread.trans (.commitServed _ none)).trans (.streamed _ _ _)
        · have hfound : ∀ idx ∈ missing, FoundMissing env.toBlockEnv m
              (resp.atClock clock).stream.clock idx := probeBlocks_foundMissing hprobed (by simp)
          rw [if_neg hmissing]
          cases hfetch : fetchBlocksToCache env.toBlockEnv m clock missing with
          | some e => exact hread.trans (.fetch hfound hfetch)
          | none =>
            have hfetched := hread.trans (.fetch hfound hfetch)
            exact (hfetched.trans (.commitServed _ none)).trans (.streamed _ _ _)

theorem serveFullObjectFromBlockCache_responds (env : ServeEnv) (m : CachedObjectMeta)
    (resp : ClientResponse) :
    Responds env m resp (serveFullObjectFromBlockCache env m resp).response := by
  have hreserve : Responds env m resp (resp.atClock (resp.stream.clock + 1)) :=
    .atClock (Nat.le_succ _)
  unfold serveFullObjectFromBlockCache
  split_ifs
  · exact hreserve.trans (serveCompleteFromBlocks_responds env m none _)
  · exact hreserve.trans (serveAssembledObject_responds env m _)
  · exact serveAssembledObject_responds env m resp

end

/-! ## The guard of the delete -/

section

universe u

variable {σ : Type u} {store : VersionedStore σ CachedObjectMeta}

/-- `invalidateStaleMeta` reads the row and deletes it at the version it read, with others
at work in between. What it removes carries the tag that was served. -/
theorem invalidateStaleMeta_guarded (hstore : store.Lawful) (m : CachedObjectMeta)
    {s s₁ s₂ : σ} {version : ℕ}
    (hread : CasCoordinator.deleteMetaIfETagRead store (·.etag) m.etag s = (s₁, some version))
    (hothers : store.Advances s₁ s₂)
    (hdelete : (CasCoordinator.deleteMetaIfVersion store s₂ version).2 = true) :
    ∃ row, store.row s₂ = some row ∧ row.etag = m.etag := by
  have hstored : s₁ = (store.getWithVersion s).1 := by
    rw [← CasCoordinator.deleteMetaIfETagRead_store store (·.etag) m.etag s, hread]
  simp only [CasCoordinator.deleteMetaIfETagRead] at hread
  split at hread
  next => simp at hread
  next row hrow =>
    simp only [Prod.mk.injEq, Option.ite_none_right_eq_some, Option.some.injEq] at hread
    obtain ⟨-, hetag, hversion⟩ := hread
    have hobserved : store.Observed s₁ (some row) version := by
      subst hversion hstored
      constructor
      case pos => exact hstore.get_pos s
      case le => exact (hstore.get_version s).le
      case current =>
        intro _
        rw [hstore.get_row, ← hstore.get_found, hrow]
    have hnow := hobserved.advance hothers
    have hcurrent : version = store.version s₂ := by
      by_contra hother
      apply hstore.delete_stale s₂ version hobserved.pos.ne' hother
      unfold CasCoordinator.deleteMetaIfVersion at hdelete
      split at hdelete
      next h => exact congrArg Prod.snd h
      next => simp at hdelete
    exact ⟨row, hnow.current hcurrent.symm, hetag⟩

end

/-! ## The signals -/

/-- What a group of fetches does with the signals its members get. -/
structure Reports (m : CachedObjectMeta) (kind : FetchGroup.Kind) (idxs : List ℤ) (steps : ℕ)
    (g : FetchGroup.Group) : Prop where
  /-- The entry is invalidated, and the signal reported, just when a member got one. -/
  signaled : g.stale.isSome = true ↔ ∃ idx resp remote put,
    (idx, .fetched (.answered resp remote put)) ∈ g.endings ∧ Stale m resp
  reported : g.result.any BlockError.isStale = g.stale.isSome
  /-- With the caller still there, every fetch is waited for. -/
  attempted : g.drained → g.canceled = false → ∀ idx ∈ idxs, ∃ f, (idx, .fetched f) ∈ g.endings
  goesOn : ¬g.drained → ∃ l, l ≠ .cancel ∧ (FetchGroup.step kind g l).isSome = true
  bounded : steps ≤ 4 * idxs.length + 1

theorem kind_error_stale_iff {m : CachedObjectMeta} {kind : FetchGroup.Kind}
    (hkind : kind = FetchGroup.toCache m ∨ kind = FetchGroup.forAssembly m) (idx : ℤ)
    {f : BlockFetch} :
    (∃ e, kind.error idx f = some e ∧ e.isStale = true) ↔
      ∃ resp remote put, f = .answered resp remote put ∧ Stale m resp := by
  rcases hkind with rfl | rfl
  · exact cacheResult_stale_iff
  · rw [← serveResult_stale_iff idx]
    simp only [FetchGroup.forAssembly]
    cases f.serveResult m idx with
    | error e => simp
    | ok lease => simp

theorem group_reports {m : CachedObjectMeta} {kind : FetchGroup.Kind}
    (hkind : kind = FetchGroup.toCache m ∨ kind = FetchGroup.forAssembly m) {idxs : List ℤ}
    {ls : List FetchGroup.Label} {g : FetchGroup.Group}
    (hrun : run (FetchGroup.step kind) (.start idxs) ls = some g) :
    Reports m kind idxs (ls.countP (· ≠ .cancel)) g := by
  have hsound := FetchGroup.Sound.along_run hrun
  constructor
  case signaled =>
    rw [← hsound.result_stale, hsound.result_stale_iff]
    constructor
    · rintro ⟨idx, f, e, hidx, herror, hstale⟩
      obtain ⟨resp, remote, put, rfl, hresp⟩ :=
        (kind_error_stale_iff hkind idx).mp ⟨e, herror, hstale⟩
      exact ⟨idx, resp, remote, put, hidx, hresp⟩
    · rintro ⟨idx, resp, remote, put, hidx, hresp⟩
      obtain ⟨e, herror, hstale⟩ :=
        (kind_error_stale_iff hkind idx).mpr ⟨resp, remote, put, rfl, hresp⟩
      exact ⟨idx, _, e, hidx, herror, hstale⟩
  case reported => exact hsound.result_stale
  case attempted =>
    intro hdrained halive idx hidx
    obtain ⟨ending, hending⟩ := hsound.ended hdrained hidx
    obtain ⟨f, rfl⟩ := hsound.fetched halive hending
    exact ⟨f, hending⟩
  case goesOn => exact FetchGroup.exists_step kind
  case bounded =>
    have hle := FetchGroup.run_length_le hrun
    simp only [FetchGroup.Group.weight, FetchGroup.Group.start, List.length_nil,
      Bool.false_eq_true, if_false] at hle
    omega

def mixedFetches : List FetchGroup.Label :=
  [.check, .go, .enter 0, .check, .go, .enter 1, .settle 0 .declined,
    .settle 1 (.answered ⟨404, .empty, 0, ⟨[], .eof⟩⟩ false .stored)]

def goneEntry : CachedObjectMeta where
  key := ascii "key"
  bucket := ascii "bucket"
  etag := ascii "\"v1\""
  contentLength := 16
  blockSize := 8

end TagGateway.Proxy.BlockInvalidation
