import TagGateway.Proxy.Freshness

/-!
# Paths that read their token after the answer

The range path and the revalidation path read the token they commit under once
upstream's answer is in. A post-success delete that completes between the
request and that read is not seen by the token, so the commit goes through with
the replaced version. When no such delete comes in between, the fence law holds
for them as it does for the other paths.
-/
namespace TagGateway.Proxy

open Foundation Cache List

universe u

variable {σ : Type u} {store : VersionedStore σ Row} {timely : PopulateKind → Prop}
  {w₀ w : World σ}

namespace PopulateKind

def RangeMiss : PopulateKind → Prop
  | .handleRangeWithBackgroundCache _ _ => True
  | _ => False

def Revalidation : PopulateKind → Prop
  | .handleRevalidation200 _ => True
  | _ => False

instance : DecidablePred RangeMiss := fun kind => by
  cases kind <;> first | exact .isTrue trivial | exact .isFalse id

instance : DecidablePred Revalidation := fun kind => by
  cases kind <;> first | exact .isTrue trivial | exact .isFalse id

end PopulateKind

theorem World.tokenGuard_of_not (htimely : ∀ kind, ¬ timely kind) (w : World σ) (l : Label) :
    w.TokenGuard timely l := by
  unfold World.TokenGuard
  split
  · exact fun p _ ht => absurd ht (htimely _)
  · trivial

theorem invariant_of_tokenGuard (h : store.Lawful) (cfg : Config) {ls : List Label}
    (hidle : w₀.Idle) (hrow : (∀ kind, timely kind) → ∀ r,
      store.row w₀.shared.store = some r → w₀.shared.Current r)
    (hguard : Along (World.step store cfg) (World.TokenGuard timely) w₀ ls)
    (hrun : run (World.step store cfg) w₀ ls = some w) : Invariant store timely w := by
  have hpreserved : ∀ (s : World σ) (l : Label) (s' : World σ), Invariant store timely s →
      s.TokenGuard timely l → s.step store cfg l = some s' → Invariant store timely s' :=
    fun s l s' inv hl hstep => inv.step h cfg hl hstep
  exact run_invariant hpreserved (hidle.invariant hrow) hguard hrun

/-- No path that reads its tokens in time commits after a fence that completed
since its request left. -/
theorem Invariant.not_committed_after_fence (inv : Invariant store timely w) {i : ℕ}
    {p : Populate} (hp : w.populates i = some p) (htimely : timely p.kind) (j : ℕ)
    (d : Option Row) : ¬ [Event.sent i, Event.fenced j, Event.committed i d] <+ w.shared.log := by
  intro hsub
  obtain ⟨q, hq, -, horder⟩ := inv.commit_order i d (hsub.subset (by simp))
  rw [hp, Option.some.injEq] at hq
  subst hq
  exact horder htimely j hsub

/-- Along every run in which no range populate reads its token after a fence
that completed since its request left, no range populate commits its row after
such a fence, whatever blocks are stored. -/
theorem rangePopulate_not_committed_after_fence (h : store.Lawful) (cfg : Config)
    {ls : List Label} (hidle : w₀.Idle)
    (hguard : Along (World.step store cfg) (World.TokenGuard PopulateKind.RangeMiss) w₀ ls)
    (hrun : run (World.step store cfg) w₀ ls = some w) :
    ∀ i p, w.populates i = some p → p.kind.RangeMiss →
      ∀ j d, ¬ [Event.sent i, Event.fenced j, Event.committed i d] <+ w.shared.log := by
  intro i p hp hkind j d
  have hothers : ¬ ∀ kind, PopulateKind.RangeMiss kind := fun hall =>
    hall (.streamFromUpstream false)
  have inv := invariant_of_tokenGuard h cfg hidle (fun hall => absurd hall hothers) hguard hrun
  exact inv.not_committed_after_fence hp hkind j d

def rangeResponse : Response where
  status := 206
  header := (Header.empty.set (ascii "ETag") (ascii "a")).set (ascii "Content-Range")
    (ascii "bytes 0-7/16")

/-- A range miss up to its deferred check that the key is absent. -/
def rangeMiss : List Label :=
  [.startPopulate 0 (.handleRangeWithBackgroundCache (ascii "bytes=0-7") false),
    .populate 0 .proceed, .populate 0 (.response rangeResponse), .populate 0 .proceed]

def putObject (j : ℕ) (etag : String) : List Label :=
  [.startMutation j .putObject, .mutation j .proceed, .mutation j (.apply (ascii etag)),
    .mutation j (.respond 200 false), .mutation j .proceed]

/-- The first block of version `a` is still stored. -/
def oldBlock : List BlockKey := [(etagKeyComponent (ascii "a"), 8, 0)]

def timelyRangeRun : List Label :=
  rangeMiss ++ [.populate 0 .proceed] ++ putObject 0 "b" ++
    [.populate 0 (.blockPresent 0), .populate 0 .proceed, .populate 0 .proceed,
      .populate 0 .proceed]

theorem rangePopulate_not_committed_after_fence_timely :
    ∃ w, run (World.step Cell.store sampleConfig) (coldStart oldBlock) timelyRangeRun = some w ∧
      [Event.sent 0, Event.fenced 0] <+ w.shared.log ∧
      ∀ i p, w.populates i = some p → p.kind.RangeMiss →
        ∀ j d, ¬ [Event.sent i, Event.fenced j, Event.committed i d] <+ w.shared.log := by
  have hends : ∃ w, run (World.step Cell.store sampleConfig) (coldStart oldBlock)
      timelyRangeRun = some w ∧ [Event.sent 0, Event.fenced 0] <+ w.shared.log :=
    exists_run_of_any (by decide +kernel)
  obtain ⟨w, hrun, hlog⟩ := hends
  exact ⟨w, hrun, hlog, rangePopulate_not_committed_after_fence Cell.store_lawful sampleConfig
    (coldStart_starts oldBlock).toIdle (by decide +kernel) hrun⟩

/-- The token is read after the write's fence. -/
def lateRangeRun : List Label :=
  rangeMiss ++ putObject 0 "b" ++
    [.populate 0 .proceed, .populate 0 (.blockPresent 0), .populate 0 .proceed,
      .populate 0 .proceed, .populate 0 .proceed]

/-- The row of version `a` is committed after the fence, and stays with `b`
upstream. -/
theorem rangePopulate_commits_after_fence :
    ∃ w, run (World.step Cell.store sampleConfig) (coldStart oldBlock) lateRangeRun = some w ∧
      [Event.sent 0, Event.fenced 0, Event.committed 0 none] <+ w.shared.log ∧
      (Cell.store.row w.shared.store).map (·.metadata.etag) = some (ascii "a") ∧
      w.shared.object.map (·.etag) = some (ascii "b") :=
  exists_run_of_any (by decide +kernel)

/-- Along every run in which no revalidation reads its token after a fence that
completed since its conditional request left, no revalidation commits after
such a fence. In every run, whether or not the guarded delete went through, the
row a revalidation replaces is the stale one it observed, or there is none. -/
theorem revalidation_not_committed_after_fence (h : store.Lawful) (cfg : Config)
    {ls : List Label} (hidle : w₀.Idle)
    (hrun : run (World.step store cfg) w₀ ls = some w) {i : ℕ} {p : Populate}
    {staleETag : Bytes} (hp : w.populates i = some p)
    (hkind : p.kind = .handleRevalidation200 staleETag) :
    (Along (World.step store cfg) (World.TokenGuard PopulateKind.Revalidation) w₀ ls →
      ∀ j d, ¬ [Event.sent i, Event.fenced j, Event.committed i d] <+ w.shared.log) ∧
    ∀ r, Event.committed i (some r) ∈ w.shared.log → r.metadata.etag = staleETag := by
  constructor
  · intro hguard j d
    have hothers : ¬ ∀ kind, PopulateKind.Revalidation kind := fun hall =>
      hall (.streamFromUpstream false)
    have inv := invariant_of_tokenGuard h cfg hidle (fun hall => absurd hall hothers) hguard hrun
    exact inv.not_committed_after_fence hp (by rw [hkind]; trivial) j d
  · intro r hmem
    have hnone : Along (World.step store cfg) (World.TokenGuard fun _ => False) w₀ ls :=
      along_of_forall fun l _ s => s.tokenGuard_of_not (fun _ => id) l
    have inv := invariant_of_tokenGuard h cfg hidle
      (fun hall => (hall (.streamFromUpstream false)).elim) hnone hrun
    obtain ⟨q, hq, hgate, -⟩ := inv.commit_order i (some r) hmem
    rw [hp, Option.some.injEq] at hq
    subst hq
    simpa [hkind, PopulateKind.gate, TokenGate.admits] using hgate

/-- Version `a` is cached while a first write is on its way; when the write is
applied, a revalidation of that row starts. -/
def staleRow : List Label :=
  [.startMutation 0 .putObject, .mutation 0 .proceed,
    .startPopulate 0 (.streamFromUpstream false), .populate 0 .proceed, .populate 0 .proceed,
    .populate 0 (.response (taggedResponse 200 "a" "4")), .populate 0 .proceed,
    .mutation 0 (.apply (ascii "b")), .startPopulate 1 (.handleRevalidation200 (ascii "a"))]

/-- The guarded delete of the stale row fails. -/
def timelyRevalidation : List Label :=
  staleRow ++ [.populate 1 .proceed, .populate 1 (.response (taggedResponse 200 "b" "4")),
    .populate 1 .storeError, .populate 1 .proceed, .populate 1 .proceed, .populate 1 .proceed,
    .mutation 0 (.respond 200 false), .mutation 0 .proceed, .mutation 0 .proceed]

theorem revalidation_not_committed_after_fence_timely :
    ∃ w, run (World.step Cell.store sampleConfig) (coldStart []) timelyRevalidation = some w ∧
      (∃ e ∈ w.shared.log, e matches .committed 1 (some _)) ∧
      (∀ j d, ¬ [Event.sent 1, Event.fenced j, Event.committed 1 d] <+ w.shared.log) ∧
      ∀ r, Event.committed 1 (some r) ∈ w.shared.log → r.metadata.etag = ascii "a" := by
  have hends : ∃ w, run (World.step Cell.store sampleConfig) (coldStart [])
      timelyRevalidation = some w ∧ (∃ e ∈ w.shared.log, e matches .committed 1 (some _)) ∧
      (w.populates 1).map (·.kind) = some (.handleRevalidation200 (ascii "a")) :=
    exists_run_of_any (by decide +kernel)
  obtain ⟨w, hrun, hlog, hkind⟩ := hends
  obtain ⟨p, hp, hkind⟩ := Option.map_eq_some_iff.mp hkind
  obtain ⟨horder, hstale⟩ := revalidation_not_committed_after_fence Cell.store_lawful
    sampleConfig (coldStart_starts []).toIdle hrun hp hkind
  exact ⟨w, hrun, hlog, horder (by decide +kernel), hstale⟩

/-- A second write is fenced after the conditional request left and before the
token is read. -/
def lateRevalidation : List Label :=
  staleRow ++ [.mutation 0 (.respond 200 false), .mutation 0 .proceed, .mutation 0 .proceed,
    .populate 1 .proceed, .populate 1 (.response (taggedResponse 200 "b" "4"))] ++
    putObject 1 "c" ++
    [.populate 1 .proceed, .populate 1 .proceed, .populate 1 .proceed, .populate 1 .proceed]

/-- The bytes of version `b` are published after the fence, and stay with `c`
upstream. -/
theorem revalidation_commits_after_fence :
    ∃ w, run (World.step Cell.store sampleConfig) (coldStart []) lateRevalidation = some w ∧
      [Event.sent 1, Event.fenced 1, Event.committed 1 none] <+ w.shared.log ∧
      (Cell.store.row w.shared.store).map (·.metadata.etag) = some (ascii "b") ∧
      w.shared.object.map (·.etag) = some (ascii "c") :=
  exists_run_of_any (by decide +kernel)

end TagGateway.Proxy
