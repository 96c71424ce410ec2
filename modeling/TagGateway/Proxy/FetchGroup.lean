import Mathlib.Data.List.Perm.Basic
import TagGateway.Foundation.Machine
import TagGateway.Proxy.BlockStream

/-!
# A group of block fetches

The blocks a request misses are fetched at the same time, a few at once. The loop that
starts the fetches and the fetches themselves look at the caller's context; the fetches
end in any order and keep the first error of each kind. The group answers when all have
ended: a stale signal first, then a canceled start, then any other error.
-/
namespace TagGateway.Proxy.FetchGroup

open Foundation Cache

/-- What tells the two kinds of groups apart: whether starts are given up once the
context has ended, and what a member makes of the fetch it waits for. -/
structure Kind where
  watchesContext : Bool
  error : ℤ → BlockFetch → Option BlockError

/-- `fetchBlocksToCache`: the members wait for the cache write. -/
def toCache (m : CachedObjectMeta) : Kind where
  watchesContext := true
  error idx f := f.cacheResult m idx

/-- `fetchBlocksForAssembly`: the members wait for the bytes. -/
def forAssembly (m : CachedObjectMeta) : Kind where
  watchesContext := false
  error idx f :=
    match f.serveResult m idx with
    | .error e => some e
    | .ok _ => none

inductive Ending where
  | fetched (f : BlockFetch)
  | gaveUp
  /-- The context had ended before it asked for its block. -/
  | notStarted
deriving DecidableEq

def Ending.error (kind : Kind) (idx : ℤ) : Ending → Option BlockError
  | .fetched f => kind.error idx f
  | .gaveUp => some .canceled
  | .notStarted => none

structure Group where
  pending : List ℤ
  /-- The loop has seen the context alive and waits until a member may start. -/
  checked : Bool := false
  entered : List ℤ := []
  waiting : List ℤ := []
  endings : List (ℤ × Ending) := []
  canceled : Bool := false
  stale : Option BlockError := none
  transient : Option BlockError := none
  canceledAdmission : Bool := false
deriving DecidableEq

inductive Label where
  | cancel
  | check
  | go
  | enter (idx : ℤ)
  | settle (idx : ℤ) (f : BlockFetch)
  | giveUp (idx : ℤ)
deriving DecidableEq

def maxConcurrentBlockFetches : ℕ := 4

namespace Group

def start (idxs : List ℤ) : Group := { pending := idxs }

def collect (g : Group) : Option BlockError → Group
  | none => g
  | some e =>
    if e.isStale then { g with stale := g.stale.or (some e) }
    else { g with transient := g.transient.or (some e) }

def leave (kind : Kind) (g : Group) (idx : ℤ) (ending : Ending) : Group :=
  { g.collect (ending.error kind idx) with
    waiting := g.waiting.erase idx
    endings := g.endings ++ [(idx, ending)] }

def drained (g : Group) : Prop := g.pending = [] ∧ g.entered = [] ∧ g.waiting = []

instance (g : Group) : Decidable g.drained := inferInstanceAs (Decidable (_ ∧ _))

/-- What the group answers once it is drained. A stale signal invalidates the entry, too. -/
def result (g : Group) : Option BlockError :=
  g.stale.or (if g.canceledAdmission then some .canceled else g.transient)

end Group

def step (kind : Kind) (g : Group) : Label → Option Group
  | .cancel => some { g with canceled := true }
  | .check =>
    match g.pending with
    | [] => none
    | idx :: rest =>
      if g.checked then none
      else if kind.watchesContext && g.canceled then
        some { g with
          pending := []
          endings := g.endings ++ (idx :: rest).map fun i => (i, .notStarted)
          canceledAdmission := true }
      else some { g with checked := true }
  | .go =>
    match g.pending with
    | [] => none
    | idx :: rest =>
      if g.checked ∧ g.entered.length + g.waiting.length < maxConcurrentBlockFetches then
        some { g with pending := rest, checked := false, entered := g.entered ++ [idx] }
      else none
  | .enter idx =>
    if idx ∈ g.entered then
      if kind.watchesContext && g.canceled then
        some { g with
          entered := g.entered.erase idx
          endings := g.endings ++ [(idx, .notStarted)]
          canceledAdmission := true }
      else some { g with entered := g.entered.erase idx, waiting := g.waiting ++ [idx] }
    else none
  | .settle idx f => if idx ∈ g.waiting then some (g.leave kind idx (.fetched f)) else none
  | .giveUp idx =>
    if idx ∈ g.waiting ∧ g.canceled then some (g.leave kind idx .gaveUp) else none

/-! ## What one step does -/

section

variable {kind : Kind} {idxs : List ℤ} {g g' : Group} {l : Label} {new : List (ℤ × Ending)}

/-- The errors of members, in the order in which they ended. -/
def errors (kind : Kind) (endings : List (ℤ × Ending)) : List BlockError :=
  endings.filterMap fun e => e.2.error kind e.1

/-- The members `new` end and everything about them is noted. -/
structure Advances (kind : Kind) (g : Group) (l : Label) (new : List (ℤ × Ending)) (g' : Group) :
    Prop where
  endings : g'.endings = g.endings ++ new
  places : (new.map Prod.fst ++ g'.waiting ++ g'.entered ++ g'.pending).Perm
    (g.waiting ++ g.entered ++ g.pending)
  stale : g'.stale = g.stale.or ((errors kind new).find? (·.isStale))
  transient : g'.transient = g.transient.or ((errors kind new).find? (!·.isStale))
  admission : g'.canceledAdmission = true ↔
    g.canceledAdmission = true ∨ ∃ i, (i, .notStarted) ∈ new
  canceled : g.canceled = true → g'.canceled = true
  excused : ∀ i ending, (i, ending) ∈ new → (∀ f, ending ≠ .fetched f) →
    g'.canceled = true ∧ (ending = .notStarted → kind.watchesContext = true)
  asked : ∀ i f, (i, .fetched f) ∈ new → l = .settle i f

theorem find?_option_toList {α : Type} (p : α → Bool) (o : Option α) :
    o.toList.find? p = o.filter p := by
  cases o with
  | none => rfl
  | some a =>
    simp only [Option.toList_some, List.find?_cons, List.find?_nil, Option.filter]
    cases p a <;> rfl

theorem collect_eq (g : Group) (err : Option BlockError) :
    g.collect err =
      { g with
        stale := g.stale.or (err.toList.find? (·.isStale))
        transient := g.transient.or (err.toList.find? (!·.isStale)) } := by
  rw [find?_option_toList, find?_option_toList]
  cases err with
  | none => simp [Group.collect]
  | some e =>
    cases he : e.isStale with
    | true => simp [Group.collect, he, Option.filter]
    | false => simp [Group.collect, he, Option.filter]

theorem errors_singleton (idx : ℤ) (ending : Ending) :
    errors kind [(idx, ending)] = (ending.error kind idx).toList := by
  simp only [errors, List.filterMap_cons, List.filterMap_nil]
  cases ending.error kind idx <;> rfl

theorem errors_notStarted (is : List ℤ) :
    errors kind (is.map fun i => (i, .notStarted)) = [] := by
  simp [errors, List.filterMap_map, Ending.error]

theorem advances_leave {idx : ℤ} {ending : Ending} (hidx : idx ∈ g.waiting)
    (hstarted : ending ≠ .notStarted)
    (hexcused : (∀ f, ending ≠ .fetched f) → g.canceled = true)
    (hasked : ∀ f, ending = .fetched f → l = .settle idx f) :
    Advances kind g l [(idx, ending)] (g.leave kind idx ending) := by
  rw [Group.leave, collect_eq]
  constructor
  case endings => rfl
  case places =>
    have hperm := List.perm_cons_erase hidx
    simpa using ((hperm.symm.append_right g.entered).append_right g.pending)
  case stale => rw [errors_singleton]
  case transient => rw [errors_singleton]
  case admission => simp [hstarted.symm]
  case canceled => exact id
  case excused =>
    intro i e he hnot
    obtain ⟨rfl, rfl⟩ : i = idx ∧ e = ending := by simpa using he
    exact ⟨hexcused hnot, fun h => absurd h hstarted⟩
  case asked =>
    intro i f hf
    obtain ⟨rfl, hending⟩ : i = idx ∧ .fetched f = ending := by simpa using hf
    exact hasked f hending.symm

theorem advances_notStarted (is : List ℤ) {waiting entered pending : List ℤ}
    (hplaces : (is ++ waiting ++ entered ++ pending).Perm (g.waiting ++ g.entered ++ g.pending))
    (his : is ≠ []) (hcanceled : (kind.watchesContext && g.canceled) = true) :
    Advances kind g l (is.map fun i => (i, .notStarted))
      { g with
        pending := pending, entered := entered, waiting := waiting
        endings := g.endings ++ is.map fun i => (i, .notStarted)
        canceledAdmission := true } := by
  rw [Bool.and_eq_true] at hcanceled
  constructor
  case endings => rfl
  case places => simpa [Function.comp_def] using hplaces
  case stale => simp [errors_notStarted]
  case transient => simp [errors_notStarted]
  case admission =>
    obtain ⟨i, hi⟩ := List.exists_mem_of_ne_nil is his
    simp only [true_iff, List.mem_map]
    exact .inr ⟨i, i, hi, rfl⟩
  case canceled => exact id
  case excused => exact fun _ _ _ _ => ⟨hcanceled.2, fun _ => hcanceled.1⟩
  case asked => simp

theorem advances_moved {checked : Bool} {waiting entered pending : List ℤ}
    (hplaces : (waiting ++ entered ++ pending).Perm (g.waiting ++ g.entered ++ g.pending)) :
    Advances kind g l []
      { g with pending := pending, entered := entered, waiting := waiting, checked := checked } := by
  constructor
  case places => simpa using hplaces
  case excused =>
    intro i ending h
    simp at h
  all_goals simp [errors]

theorem step_advances (h : step kind g l = some g') : ∃ new, Advances kind g l new g' := by
  cases l with
  | cancel =>
    obtain rfl := Option.some.inj h
    refine ⟨[], ?_⟩
    constructor <;> simp [errors]
  | check =>
    rw [step] at h
    split at h
    next => simp at h
    next idx rest hpending =>
      split_ifs at h with hchecked hcanceled
      · obtain rfl := Option.some.inj h
        refine ⟨_, advances_notStarted (idx :: rest) ?_ (List.cons_ne_nil idx rest) hcanceled⟩
        rw [hpending, List.append_nil, List.append_assoc]
        exact List.perm_append_comm
      · obtain rfl := Option.some.inj h
        exact ⟨[], advances_moved (.refl _)⟩
  | go =>
    rw [step] at h
    split at h
    next => simp at h
    next idx rest hpending =>
      simp only [Option.ite_none_right_eq_some, Option.some.injEq] at h
      obtain ⟨-, rfl⟩ := h
      refine ⟨[], advances_moved ?_⟩
      simp [hpending]
  | enter idx =>
    rw [step] at h
    simp only [Option.ite_none_right_eq_some] at h
    obtain ⟨hidx, h⟩ := h
    have hperm := List.perm_cons_erase hidx
    split_ifs at h with hcanceled
    · obtain rfl := Option.some.inj h
      refine ⟨_, advances_notStarted [idx] ?_ (by simp) hcanceled⟩
      exact ((List.perm_middle.symm.trans (hperm.symm.append_left _)).append_right _)
    · obtain rfl := Option.some.inj h
      refine ⟨[], advances_moved ?_⟩
      rw [List.append_assoc g.waiting]
      exact (hperm.symm.append_left _).append_right _
  | settle idx f =>
    simp only [step, Option.ite_none_right_eq_some, Option.some.injEq] at h
    obtain ⟨hidx, rfl⟩ := h
    exact ⟨_, advances_leave hidx (by simp) (fun hnot => absurd rfl (hnot f)) (by simp)⟩
  | giveUp idx =>
    simp only [step, Option.ite_none_right_eq_some, Option.some.injEq] at h
    obtain ⟨⟨hidx, hcanceled⟩, rfl⟩ := h
    exact ⟨_, advances_leave hidx (by simp) (fun _ => hcanceled) (by simp)⟩

/-! ## What a run has noted -/

/-- Every block is at one place, and the notes are those of the members that have ended. -/
structure Sound (kind : Kind) (idxs : List ℤ) (g : Group) : Prop where
  places : (g.endings.map Prod.fst ++ (g.waiting ++ g.entered ++ g.pending)).Perm idxs
  stale : g.stale = (errors kind g.endings).find? (·.isStale)
  transient : g.transient = (errors kind g.endings).find? (!·.isStale)
  admission : g.canceledAdmission = true ↔ ∃ i, (i, .notStarted) ∈ g.endings
  excused : ∀ i ending, (i, ending) ∈ g.endings → (∀ f, ending ≠ .fetched f) →
    g.canceled = true ∧ (ending = .notStarted → kind.watchesContext = true)

namespace Sound

theorem start (kind : Kind) (idxs : List ℤ) : Sound kind idxs (.start idxs) := by
  constructor <;> simp [Group.start, errors]

theorem advance (h : Sound kind idxs g) (hnew : Advances kind g l new g') : Sound kind idxs g' := by
  have herrors : errors kind g'.endings = errors kind g.endings ++ errors kind new := by
    rw [hnew.endings, errors, List.filterMap_append]
    rfl
  constructor
  case places =>
    have hplaces := hnew.places.append_left (g.endings.map Prod.fst)
    rw [hnew.endings, List.map_append]
    simpa using hplaces.trans h.places
  case stale => rw [herrors, List.find?_append, ← h.stale, hnew.stale]
  case transient => rw [herrors, List.find?_append, ← h.transient, hnew.transient]
  case admission =>
    rw [hnew.admission, h.admission, hnew.endings]
    simp only [List.mem_append, exists_or]
  case excused =>
    intro i ending hi hnot
    rw [hnew.endings, List.mem_append] at hi
    rcases hi with hold | hadded
    · obtain ⟨hcanceled, hwatches⟩ := h.excused i ending hold hnot
      exact ⟨hnew.canceled hcanceled, hwatches⟩
    · exact hnew.excused i ending hadded hnot

theorem along_run {ls : List Label} (hrun : run (step kind) (.start idxs) ls = some g) :
    Sound kind idxs g := by
  have hkeep : ∀ (g : Group) l (g' : Group), Sound kind idxs g → True →
      step kind g l = some g' → Sound kind idxs g' := by
    intro g l g' hg _ hstep
    obtain ⟨new, hnew⟩ := step_advances hstep
    exact hg.advance hnew
  exact run_invariant hkeep (start kind idxs) (along_of_forall fun _ _ _ => trivial) hrun

theorem endings_perm (h : Sound kind idxs g) (hdrained : g.drained) :
    (g.endings.map Prod.fst).Perm idxs := by
  obtain ⟨hpending, hentered, hwaiting⟩ := hdrained
  have hplaces := h.places
  rwa [hpending, hentered, hwaiting, List.append_nil, List.append_nil, List.append_nil] at hplaces

theorem ended (h : Sound kind idxs g) (hdrained : g.drained) {idx : ℤ} (hidx : idx ∈ idxs) :
    ∃ ending, (idx, ending) ∈ g.endings := by
  obtain ⟨e, he, rfl⟩ := List.mem_map.mp ((h.endings_perm hdrained).mem_iff.mpr hidx)
  exact ⟨e.2, he⟩

theorem fetched (h : Sound kind idxs g) (halive : g.canceled = false) {idx : ℤ} {ending : Ending}
    (hidx : (idx, ending) ∈ g.endings) : ∃ f, ending = .fetched f := by
  by_contra hnot
  have hcanceled := (h.excused idx ending hidx (fun f hf => hnot ⟨f, hf⟩)).1
  rw [halive] at hcanceled
  simp at hcanceled

theorem mem_errors {idx : ℤ} {ending : Ending} {e : BlockError} (hidx : (idx, ending) ∈ g.endings)
    (he : ending.error kind idx = some e) : e ∈ errors kind g.endings :=
  List.mem_filterMap.mpr ⟨_, hidx, he⟩

/-- A group reports no error just when every member that has ended got its block. -/
theorem result_eq_none_iff (h : Sound kind idxs g) :
    g.result = none ↔ ∀ idx ending, (idx, ending) ∈ g.endings →
      ∃ f, ending = .fetched f ∧ kind.error idx f = none := by
  constructor
  · intro hresult idx ending hending
    obtain ⟨hstale, hrest⟩ := Option.or_eq_none_iff.mp hresult
    split_ifs at hrest with hadmission
    have hno : ∀ e, e ∉ errors kind g.endings := by
      intro e he
      have hnotStale := List.find?_eq_none.mp (h.stale.symm.trans hstale) e he
      have hnotTransient := List.find?_eq_none.mp (h.transient.symm.trans hrest) e he
      simp [hnotStale] at hnotTransient
    cases ending with
    | fetched f =>
      refine ⟨f, rfl, Option.eq_none_iff_forall_ne_some.mpr fun e he => ?_⟩
      exact hno e (mem_errors hending he)
    | gaveUp =>
      have hcanceled : Ending.gaveUp.error kind idx = some .canceled := rfl
      exact absurd (mem_errors hending hcanceled) (hno _)
    | notStarted => exact absurd (h.admission.mpr ⟨idx, hending⟩) hadmission
  · intro hall
    have hnone : errors kind g.endings = [] := by
      refine List.filterMap_eq_nil_iff.mpr fun ⟨idx, ending⟩ hending => ?_
      obtain ⟨f, rfl, herror⟩ := hall idx ending hending
      exact herror
    have hadmission : ¬g.canceledAdmission = true := by
      rw [h.admission]
      rintro ⟨idx, hidx⟩
      obtain ⟨f, hf, -⟩ := hall idx _ hidx
      simp at hf
    rw [Group.result, h.stale, h.transient, hnone, if_neg hadmission]
    rfl

theorem result_none (h : Sound kind idxs g) (hdrained : g.drained) (hresult : g.result = none)
    {idx : ℤ} (hidx : idx ∈ idxs) :
    ∃ f, (idx, .fetched f) ∈ g.endings ∧ kind.error idx f = none := by
  obtain ⟨ending, hending⟩ := h.ended hdrained hidx
  obtain ⟨f, rfl, herror⟩ := h.result_eq_none_iff.mp hresult idx ending hending
  exact ⟨f, hending, herror⟩

theorem mem_errors_stale {e : BlockError} (he : e ∈ errors kind g.endings)
    (hstale : e.isStale = true) :
    ∃ idx f, (idx, .fetched f) ∈ g.endings ∧ kind.error idx f = some e := by
  obtain ⟨⟨idx, ending⟩, hidx, hending⟩ := List.mem_filterMap.mp he
  cases ending with
  | fetched f => exact ⟨idx, f, hidx, hending⟩
  | gaveUp =>
    obtain rfl := Option.some.inj hending
    simp [BlockError.isStale] at hstale
  | notStarted => simp [Ending.error] at hending

theorem result_stale (h : Sound kind idxs g) :
    g.result.any (·.isStale) = g.stale.isSome := by
  cases hstale : g.stale with
  | some e =>
    have he := List.find?_some (h.stale.symm.trans hstale)
    simp [Group.result, hstale, he]
  | none =>
    rw [Group.result, hstale, Option.none_or, Option.isSome_none]
    split_ifs
    · rfl
    · cases htransient : g.transient with
      | none => rfl
      | some e =>
        have he := List.find?_some (h.transient.symm.trans htransient)
        simpa using he

/-- A stale signal that a member got is what the group reports, whatever the others got;
nothing else makes it report one. -/
theorem result_stale_iff (h : Sound kind idxs g) :
    g.result.any (·.isStale) = true ↔
      ∃ idx f e, (idx, .fetched f) ∈ g.endings ∧ kind.error idx f = some e ∧ e.isStale = true := by
  rw [h.result_stale, h.stale, List.find?_isSome]
  constructor
  · rintro ⟨e, he, hstale⟩
    obtain ⟨idx, f, hidx, herror⟩ := mem_errors_stale he hstale
    exact ⟨idx, f, e, hidx, herror, hstale⟩
  · rintro ⟨idx, f, e, hidx, herror, hstale⟩
    exact ⟨e, mem_errors hidx herror, hstale⟩

end Sound

/-! ## The group comes to an end -/

def Group.weight (g : Group) : ℕ :=
  4 * g.pending.length + 2 * g.entered.length + g.waiting.length + if g.checked then 0 else 1

theorem weight_leave {idx : ℤ} {ending : Ending} (hidx : idx ∈ g.waiting) :
    (g.leave kind idx ending).weight < g.weight := by
  have hpos := List.length_pos_of_mem hidx
  have herase := List.length_erase_of_mem hidx
  simp only [Group.leave, collect_eq, Group.weight, herase]
  omega

theorem step_weight (h : step kind g l = some g') (hl : l ≠ .cancel) : g'.weight < g.weight := by
  cases l with
  | cancel => exact absurd rfl hl
  | check =>
    rw [step] at h
    split at h
    next => simp at h
    next idx rest hpending =>
      split_ifs at h with hchecked hcanceled
      · obtain rfl := Option.some.inj h
        simp [Group.weight, hpending, hchecked]
      · obtain rfl := Option.some.inj h
        simp [Group.weight, hpending, hchecked]
  | go =>
    rw [step] at h
    split at h
    next => simp at h
    next idx rest hpending =>
      simp only [Option.ite_none_right_eq_some, Option.some.injEq] at h
      obtain ⟨⟨hchecked, -⟩, rfl⟩ := h
      simp only [Group.weight, hpending, hchecked, List.length_append, List.length_cons,
        List.length_nil, if_true, Bool.false_eq_true, if_false]
      omega
  | enter idx =>
    simp only [step, Option.ite_none_right_eq_some] at h
    obtain ⟨hidx, h⟩ := h
    have hpos := List.length_pos_of_mem hidx
    have herase := List.length_erase_of_mem hidx
    split_ifs at h
    · obtain rfl := Option.some.inj h
      simp only [Group.weight, herase]
      omega
    · obtain rfl := Option.some.inj h
      simp only [Group.weight, herase, List.length_append, List.length_singleton]
      omega
  | settle idx f =>
    simp only [step, Option.ite_none_right_eq_some, Option.some.injEq] at h
    obtain ⟨hidx, rfl⟩ := h
    exact weight_leave hidx
  | giveUp idx =>
    simp only [step, Option.ite_none_right_eq_some, Option.some.injEq] at h
    obtain ⟨⟨hidx, -⟩, rfl⟩ := h
    exact weight_leave hidx

/-- A run has no more steps of its own than there was to do. -/
theorem run_length_le {ls : List Label} (hrun : run (step kind) g ls = some g') :
    ls.countP (· ≠ .cancel) + g'.weight ≤ g.weight := by
  induction ls generalizing g with
  | nil =>
    obtain rfl := Option.some.inj hrun
    simp
  | cons l ls ih =>
    obtain ⟨g₁, hstep, hrest⟩ := run_cons_eq_some.mp hrun
    have hle := ih hrest
    by_cases hl : l = .cancel
    · subst hl
      obtain rfl := Option.some.inj hstep
      simpa [Group.weight] using hle
    · have hlt := step_weight hstep hl
      rw [List.countP_cons_of_pos (by simpa using hl)]
      omega

/-- As long as the group is not drained, its loop or one of its members can go on. -/
theorem exists_step (kind : Kind) (hdrained : ¬g.drained) :
    ∃ l, l ≠ .cancel ∧ (step kind g l).isSome = true := by
  cases hwaiting : g.waiting with
  | cons idx rest => exact ⟨.settle idx .present, by simp, by simp [step, hwaiting]⟩
  | nil =>
    cases hentered : g.entered with
    | cons idx rest =>
      refine ⟨.enter idx, by simp, ?_⟩
      rw [step, if_pos (by simp [hentered])]
      split_ifs <;> rfl
    | nil =>
      cases hpending : g.pending with
      | nil => exact absurd ⟨hpending, hentered, hwaiting⟩ hdrained
      | cons idx rest =>
        cases hchecked : g.checked with
        | true =>
          refine ⟨.go, by simp, ?_⟩
          simp [step, hpending, hchecked, hentered, hwaiting, maxConcurrentBlockFetches]
        | false =>
          refine ⟨.check, by simp, ?_⟩
          simp only [step, hpending, hchecked, Bool.false_eq_true, if_false]
          split_ifs <;> rfl

/-! ## The answers of one call -/

theorem or_any_isStale_iff {errs : List BlockError} {other : Option BlockError}
    (hother : ∀ e ∈ other, e ∈ errs ∨ e.isStale = false) :
    ((errs.find? BlockError.isStale).or other).any BlockError.isStale = true ↔
      ∃ e ∈ errs, e.isStale = true := by
  cases hfind : errs.find? BlockError.isStale with
  | some e =>
    have he := List.find?_some hfind
    simp only [Option.some_or, Option.any_some, he, true_iff]
    exact ⟨e, List.mem_of_find?_eq_some hfind, he⟩
  | none =>
    have hnone : ∀ e ∈ errs, ¬e.isStale = true := fun e he =>
      List.find?_eq_none.mp hfind e he
    rw [Option.none_or]
    constructor
    · intro hany
      obtain ⟨e, he, hstale⟩ := (Option.any_eq_true _ _).mp hany
      rcases hother e he with hmem | hfresh
      · exact ⟨e, hmem, hstale⟩
      · rw [hfresh] at hstale
        simp at hstale
    · rintro ⟨e, he, hstale⟩
      exact absurd hstale (hnone e he)

theorem groupError_isStale_iff {errs : List BlockError} :
    (groupError errs).any BlockError.isStale = true ↔ ∃ e ∈ errs, e.isStale = true := by
  unfold groupError
  apply or_any_isStale_iff
  intro e he
  rcases Option.or_eq_some_iff.mp he with hcanceled | ⟨-, hhead⟩
  · exact .inl (List.mem_of_find?_eq_some hcanceled)
  · exact .inl (List.mem_of_head? hhead)

end

end TagGateway.Proxy.FetchGroup
