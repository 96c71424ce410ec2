import TagGateway.Proxy.FenceLawRuns

/-!
# Visible rows are fresh when no mutation is in flight

Populates that read their token before their upstream request leaves meet the
condition of the fence law by the order of their steps. So in every run of
mutations and such populates, whatever row is visible once every change
upstream has been fenced describes the object, and goes on describing it until
a next mutation starts.
-/
namespace TagGateway.Proxy

open Foundation Cache List

universe u

variable {σ : Type u}

namespace Label

/-- Every populate that starts reads its token before its request leaves. -/
def TokenFirst : Label → Prop
  | .startPopulate _ kind => kind.tokenFirst = true
  | _ => True

def StartsMutation : Label → Prop
  | .startMutation _ _ => True
  | _ => False

end Label

namespace World

structure Idle (w : World σ) : Prop where
  mutations : ∀ j, w.mutations j = none
  populates : ∀ i, w.populates i = none
  lookups : ∀ k, w.lookups k = none
  log : w.shared.log = []
  object : ∀ v, w.shared.object = some v → v.id < w.shared.nextId

/-- Nothing runs yet, and a row that is there describes the object. -/
structure Starts (store : VersionedStore σ Row) (w : World σ) : Prop extends Idle w where
  row : ∀ r, store.row w.shared.store = some r → w.shared.Current r

/-- No mutation is in flight, and every one that changed the object has
completed its post-success delete. -/
def Quiescent (w : World σ) : Prop :=
  ∀ j m, w.mutations j = some m → ¬ m.inFlight ∧ ¬ m.unfenced

end World

variable {store : VersionedStore σ Row} {timely : PopulateKind → Prop} {w w' : World σ}

theorem World.Idle.invariant (h : w.Idle) (hrow : (∀ kind, timely kind) → ∀ r,
    store.row w.shared.store = some r → w.shared.Current r) : Invariant store timely w := by
  have happlied : ∀ j, w.applied j = none := fun j => by simp [World.applied, h.mutations]
  have hfenced : ∀ j, w.fenced j = false := fun j => by simp [World.fenced, h.mutations]
  constructor
  · simp [h.log]
  · intro i p hp
    rw [h.populates] at hp
    cases hp
  · exact fun hall r hr => .inl (hrow hall r hr)
  · rintro - r - ⟨j, hf, -⟩
    rw [hfenced] at hf
    cases hf
  · exact h.object
  · simp [happlied]
  · simp [happlied]
  · intro j m hm
    rw [h.mutations] at hm
    cases hm
  · simp [h.log]

theorem World.Quiescent.not_pending (h : w.Quiescent) : ¬ w.Pending := by
  rintro ⟨j, ha, hf⟩
  cases hm : w.mutations j with
  | none => simp [World.applied, hm] at ha
  | some m =>
    apply (h j m hm).2
    simp only [World.applied, World.fenced, hm, Option.bind_some, Option.any_some] at ha hf
    exact ⟨ha, hf⟩

theorem PopulateKind.send_mem_of_tokenFirst {kind : PopulateKind} (h : kind.tokenFirst = true)
    {rest : List Op} (hsuffix : Op.getMetaWithVersion :: rest <:+ kind.program) :
    Op.send ∈ rest := by
  rw [← mem_tails] at hsuffix
  cases kind <;> simp_all [tokenFirst, program]

theorem Populate.Effect.kind_eq {cfg : Config} {i : ℕ} {sh sh' : Shared σ} {p p' : Populate}
    (h : Populate.Effect store cfg i sh p sh' p') : p'.kind = p.kind := by
  cases h with
  | quiet settles kind token row rest => exact kind
  | token next admits => rfl
  | send next => rfl
  | receive next answers => exact (Populate.receive_spec answers _ p).1
  | commit token row written => rfl

theorem tokenGuard_of_tokenFirst (inv : Invariant store timely w)
    (hfirst : ∀ i p, w.populates i = some p → p.kind.tokenFirst = true) (l : Label) :
    w.TokenGuard timely l := by
  unfold World.TokenGuard
  split
  · rintro p hp - hhead ⟨j, hsub⟩
    have ok := inv.populate _ p hp
    obtain ⟨rest, next⟩ : ∃ rest, p.rest = .getMetaWithVersion :: rest :=
      head?_eq_some_iff.mp hhead
    have hmem := PopulateKind.send_mem_of_tokenFirst (hfirst _ p hp) (next ▸ ok.suffix)
    have hsent := hsub.subset mem_cons_self
    rw [ok.sent_iff (by simp [next]), next] at hsent
    simp [hmem] at hsent
  · trivial

theorem tokenFirst_step (h : store.Lawful) {cfg : Config} {l : Label} (hl : l.TokenFirst)
    (hfirst : ∀ i p, w.populates i = some p → p.kind.tokenFirst = true)
    (hstep : w.step store cfg l = some w') :
    ∀ i p, w'.populates i = some p → p.kind.tokenFirst = true := by
  intro i p hp
  cases World.stepped hstep with
  | startPopulate =>
    rcases update_eq_some_cases hp with ⟨-, rfl⟩ | hp
    · exact hl
    · exact hfirst i p hp
  | populate found step =>
    rcases update_eq_some_cases hp with ⟨-, rfl⟩ | hp
    · rw [(Populate.step_effect h step).kind_eq]
      exact hfirst _ _ found
    · exact hfirst i p hp
  | startMutation | mutation | startLookup | lookup | invalidate | expire | blocks =>
    exact hfirst i p hp

theorem invariant_of_tokenFirst (h : store.Lawful) (cfg : Config) {ls : List Label}
    (hstart : w.Starts store) (hfirst : ∀ l ∈ ls, l.TokenFirst)
    (hrun : run (World.step store cfg) w ls = some w') : Invariant store timely w' := by
  have hpreserved : ∀ (s : World σ) (l : Label) (s' : World σ),
      (Invariant store timely s ∧ ∀ i p, s.populates i = some p → p.kind.tokenFirst = true) →
      l.TokenFirst → s.step store cfg l = some s' →
      Invariant store timely s' ∧ ∀ i p, s'.populates i = some p → p.kind.tokenFirst = true := by
    rintro s l s' ⟨inv, hkinds⟩ hl hstep
    exact ⟨inv.step h cfg (tokenGuard_of_tokenFirst inv hkinds l) hstep,
      tokenFirst_step h hl hkinds hstep⟩
  refine (run_invariant hpreserved ⟨hstart.invariant fun _ => hstart.row, ?_⟩ (along_of_forall fun l hl _ => hfirst l hl) hrun).1
  simp [hstart.populates]

theorem Mutation.step_of_finished {j : ℕ} {sh : Shared σ} {m : Mutation} {input : MutationInput}
    (h : ¬ m.inFlight) : m.step store j sh input = none := by
  have hphase : m.phase = .finished := by simpa [inFlight] using h
  unfold step
  rw [hphase]

theorem World.Quiescent.step (h : w.Quiescent) {cfg : Config} {l : Label}
    (hl : ¬ l.StartsMutation) (hstep : w.step store cfg l = some w') : w'.Quiescent := by
  cases World.stepped hstep with
  | startMutation => exact absurd trivial hl
  | @mutation j input m m' sh found step =>
    rw [Mutation.step_of_finished (h j m found).1] at step
    cases step
  | startPopulate | populate | startLookup | lookup | invalidate | expire | blocks => exact h

/-- In every interleaving of mutations with populates that read their token
first: from a state in which no mutation is in flight and every change upstream
has been fenced, and until a next mutation starts, any visible row describes
the current upstream version. -/
theorem quiescent_row_current (h : store.Lawful) (cfg : Config) {w₀ : World σ}
    {ls ks : List Label} (hstart : w₀.Starts store) (hfirst : ∀ l ∈ ls ++ ks, l.TokenFirst)
    (hrun : run (World.step store cfg) w₀ ls = some w) (hquiet : w.Quiescent)
    (hnext : ∀ l ∈ ks, ¬ l.StartsMutation) (hrun' : run (World.step store cfg) w ks = some w') :
    ∀ r, store.row w'.shared.store = some r → w'.shared.Current r := by
  have hwhole : run (World.step store cfg) w₀ (ls ++ ks) = some w' := by
    rw [run_append, hrun, Option.bind_some, hrun']
  have inv : Invariant store (fun _ => True) w' :=
    invariant_of_tokenFirst h cfg hstart hfirst hwhole
  have hpreserved : ∀ (s : World σ) (l : Label) (s' : World σ), s.Quiescent →
      ¬ l.StartsMutation → s.step store cfg l = some s' → s'.Quiescent :=
    fun s l s' hs hl hstep => hs.step hl hstep
  have hquiet' := run_invariant hpreserved hquiet (along_of_forall fun l hl _ => hnext l hl) hrun'
  intro r hr
  exact (inv.row_fresh (fun _ => trivial) r hr).resolve_right hquiet'.not_pending

/-! A populate that races a `PutObject`: its commit is refused, and the populate
after it stores the new version. -/

def sampleConfig : Config where
  bucket := ascii "bucket"
  key := ascii "key"
  sizeThreshold := 1000
  blockSize := 8
  blockCachingEnabled := true
  parseTime _ := none

def taggedResponse (status : ℕ) (etag length : String) : Response where
  status := status
  header := (Header.empty.set (ascii "ETag") (ascii etag)).set (ascii "Content-Length")
    (ascii length)

def coldStart (blocks : List BlockKey) : World (Cell Row) :=
  .initial ⟨none, 0⟩ (some ⟨0, ascii "a"⟩) 1 blocks

theorem coldStart_starts (blocks : List BlockKey) : (coldStart blocks).Starts Cell.store where
  mutations _ := rfl
  populates _ := rfl
  lookups _ := rfl
  log := rfl
  object := by
    rintro v ⟨rfl⟩
    exact Nat.one_pos
  row := by rintro r ⟨⟩

def putRace : List Label :=
  [.startPopulate 0 (.streamFromUpstream false), .populate 0 .proceed, .populate 0 .proceed,
    .populate 0 (.response (taggedResponse 200 "a" "4")),
    .startMutation 0 .putObject, .mutation 0 .proceed, .mutation 0 (.apply (ascii "b")),
    .mutation 0 (.respond 200 false), .mutation 0 .proceed, .populate 0 .proceed,
    .startPopulate 1 (.streamFromUpstream false), .populate 1 .proceed, .populate 1 .proceed,
    .populate 1 (.response (taggedResponse 200 "b" "4")), .populate 1 .proceed]

theorem putRace_runs :
    (run (World.step Cell.store sampleConfig) (coldStart []) putRace).isSome = true := by
  decide +kernel

def putRaceEnd : World (Cell Row) :=
  (run (World.step Cell.store sampleConfig) (coldStart []) putRace).get putRace_runs

theorem putRaceEnd_quiescent : putRaceEnd.Quiescent := by
  intro j m hm
  cases j with
  | zero =>
    have hzero : putRaceEnd.mutations 0 =
        some ⟨.putObject, .finished, some (some 0), true⟩ := by decide +kernel
    rw [hzero, Option.some.injEq] at hm
    subst hm
    decide
  | succ j =>
    have hnone : putRaceEnd.mutations (j + 1) = none := rfl
    rw [hnone] at hm
    cases hm

theorem quiescent_row_current_putRace :
    (Cell.store.row putRaceEnd.shared.store).isSome = true ∧
      ∀ r, Cell.store.row putRaceEnd.shared.store = some r → putRaceEnd.shared.Current r :=
  ⟨by decide +kernel,
    quiescent_row_current Cell.store_lawful sampleConfig (coldStart_starts [])
      (by simp [putRace, Label.TokenFirst, PopulateKind.tokenFirst, PopulateKind.program])
      (Option.some_get putRace_runs).symm putRaceEnd_quiescent
      (by simp : ∀ l ∈ ([] : List Label), ¬ l.StartsMutation) rfl⟩

end TagGateway.Proxy
