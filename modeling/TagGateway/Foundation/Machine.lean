import Mathlib.Data.List.Infix
import Mathlib.Data.Option.Basic

/-!
# Labelled machines and their runs

A machine is an executable partial step function. Whatever the environment may
choose (which process moves, what an outside party answers) is part of the
label, so one list of labels is one interleaving. Invariants are proved for one
step and carried to every run, under a guard on the steps that is itself part
of the rule.
-/
namespace TagGateway.Foundation

universe u v

variable {σ : Type u} {ℓ : Type v}

/-- The state after the labels `ls`, when every one of them is enabled. -/
def run (step : σ → ℓ → Option σ) : σ → List ℓ → Option σ
  | s, [] => some s
  | s, l :: ls => (step s l).bind fun s' => run step s' ls

/-- Every step of the run from `s` along `ls` meets `guard` in the state in
which it is taken. -/
def Along (step : σ → ℓ → Option σ) (guard : σ → ℓ → Prop) : σ → List ℓ → Prop
  | _, [] => True
  | s, l :: ls => guard s l ∧ ∀ s', step s l = some s' → Along step guard s' ls

variable {step : σ → ℓ → Option σ} {guard : σ → ℓ → Prop}

instance Along.decidable [∀ s l, Decidable (guard s l)] :
    (s : σ) → (ls : List ℓ) → Decidable (Along step guard s ls)
  | _, [] => .isTrue trivial
  | s, l :: ls =>
    haveI : Decidable (∀ s', step s l = some s' → Along step guard s' ls) :=
      match step s l with
      | none => .isTrue nofun
      | some s' =>
        haveI := Along.decidable s' ls
        decidable_of_iff (Along step guard s' ls) (by simp)
    inferInstanceAs (Decidable (_ ∧ _))

@[simp] theorem run_nil (s : σ) : run step s [] = some s := rfl

theorem run_cons (s : σ) (l : ℓ) (ls : List ℓ) :
    run step s (l :: ls) = (step s l).bind fun s' => run step s' ls := rfl

theorem run_cons_eq_some {s t : σ} {l : ℓ} {ls : List ℓ} :
    run step s (l :: ls) = some t ↔ ∃ s', step s l = some s' ∧ run step s' ls = some t := by
  rw [run_cons, Option.bind_eq_some_iff]

theorem run_append (s : σ) (ls ks : List ℓ) :
    run step s (ls ++ ks) = (run step s ls).bind fun s' => run step s' ks := by
  induction ls generalizing s with
  | nil => rfl
  | cons l ls ih =>
    rw [List.cons_append, run_cons, run_cons, Option.bind_assoc]
    exact congrArg _ (funext ih)

theorem along_of_forall {s : σ} {ls : List ℓ} (h : ∀ l ∈ ls, ∀ s, guard s l) :
    Along step guard s ls := by
  induction ls generalizing s with
  | nil => trivial
  | cons l ls ih =>
    refine ⟨h l (by simp) s, fun s' _ => ih fun k hk => ?_⟩
    exact h k (by simp [hk])

theorem Along.mono {guard' : σ → ℓ → Prop} {s : σ} {ls : List ℓ} (h : Along step guard s ls)
    (himp : ∀ s l, guard s l → guard' s l) : Along step guard' s ls := by
  induction ls generalizing s with
  | nil => trivial
  | cons l ls ih => exact ⟨himp s l h.1, fun s' hs' => ih (h.2 s' hs')⟩

theorem Along.and_forall {p : ℓ → Prop} {s : σ} {ls : List ℓ} (h : Along step guard s ls)
    (hp : ∀ l ∈ ls, p l) : Along step (fun s l => p l ∧ guard s l) s ls := by
  induction ls generalizing s with
  | nil => trivial
  | cons l ls ih =>
    refine ⟨⟨hp l (by simp), h.1⟩, fun s' hs' => ih (h.2 s' hs') fun k hk => ?_⟩
    exact hp k (by simp [hk])

/-- An invariant kept by every guarded step holds at the end of every run
whose steps all meet the guard. -/
theorem run_invariant {inv : σ → Prop}
    (hstep : ∀ s l s', inv s → guard s l → step s l = some s' → inv s')
    {s t : σ} {ls : List ℓ} (hs : inv s) (hguard : Along step guard s ls)
    (hrun : run step s ls = some t) : inv t := by
  induction ls generalizing s with
  | nil =>
    rw [run_nil, Option.some.injEq] at hrun
    exact hrun ▸ hs
  | cons l ls ih =>
    obtain ⟨s', hs', hrest⟩ := run_cons_eq_some.mp hrun
    exact ih (hstep s l s' hs hguard.1 hs') (hguard.2 s' hs') hrest

theorem Along.snoc {s : σ} {ls : List ℓ} {l : ℓ} (h : Along step guard s (ls ++ [l])) :
    Along step guard s ls ∧ ∀ t, run step s ls = some t → guard t l := by
  induction ls generalizing s with
  | nil =>
    refine ⟨trivial, fun t ht => ?_⟩
    rw [run_nil, Option.some.injEq] at ht
    exact ht ▸ h.1
  | cons k ls ih =>
    refine ⟨⟨h.1, fun s' hs' => (ih (h.2 s' hs')).1⟩, fun t ht => ?_⟩
    obtain ⟨s', hs', hrest⟩ := run_cons_eq_some.mp ht
    exact (ih (h.2 s' hs')).2 t hrest

theorem run_snoc_eq_some {s t : σ} {ls : List ℓ} {l : ℓ} :
    run step s (ls ++ [l]) = some t ↔ ∃ s', run step s ls = some s' ∧ step s' l = some t := by
  rw [run_append, Option.bind_eq_some_iff]
  simp [run_cons]

/-! What happened earlier in a run. -/

/-- Some step of the run from `s` along `ls` was taken by a label that meets `p` in
the state in which it was taken. -/
def Took (step : σ → ℓ → Option σ) (p : σ → ℓ → Prop) (s : σ) (ls : List ℓ) : Prop :=
  ∃ before l after t, ls = before ++ l :: after ∧ run step s before = some t ∧ p t l

section Took

variable {p : σ → ℓ → Prop} {s t : σ} {ls : List ℓ} {l : ℓ}

theorem not_took_nil : ¬ Took step p s [] := by
  rintro ⟨before, l, after, t, heq, -⟩
  simp at heq

theorem took_snoc_iff (hrun : run step s ls = some t) :
    Took step p s (ls ++ [l]) ↔ Took step p s ls ∨ p t l := by
  constructor
  · rintro ⟨before, k, after, t', heq, hbefore, hp⟩
    rcases List.eq_nil_or_concat after with rfl | ⟨after, k', rfl⟩
    · obtain ⟨rfl, hk⟩ := List.append_inj' heq rfl
      obtain rfl : t = t' := Option.some.inj (hrun.symm.trans hbefore)
      obtain rfl : l = k := by simpa using hk
      exact .inr hp
    · rw [List.concat_eq_append, ← List.cons_append, ← List.append_assoc] at heq
      exact .inl ⟨before, k, after, t', (List.append_inj' heq rfl).1, hbefore, hp⟩
  · rintro (⟨before, k, after, t', rfl, hbefore, hp⟩ | hp)
    · exact ⟨before, k, after ++ [l], t', by simp, hbefore, hp⟩
    · exact ⟨ls, l, [], t, rfl, hrun, hp⟩

/-- An invariant of a state and of the run that led there. -/
theorem run_history {inv : List ℓ → σ → Prop} (hinit : inv [] s)
    (hstep : ∀ ls t l t', run step s ls = some t → inv ls t → guard t l → step t l = some t' →
      inv (ls ++ [l]) t')
    (hguard : Along step guard s ls) (hrun : run step s ls = some t) : inv ls t := by
  induction ls using List.reverseRecOn generalizing t with
  | nil =>
    rw [run_nil, Option.some.injEq] at hrun
    exact hrun ▸ hinit
  | append_singleton ls l ih =>
    obtain ⟨t₀, ht₀, hlast⟩ := run_snoc_eq_some.mp hrun
    exact hstep ls t₀ l t ht₀ (ih hguard.snoc.1 ht₀) (hguard.snoc.2 t₀ ht₀) hlast

end Took

/-- What a view shows at the end of a guarded run depends on the run's visible
events only, when every step either acts on the view by its event or leaves it
as it is. -/
theorem run_view {ν : Type*} {ε : Type*} {inv : σ → Prop} {view : σ → ν} {own : ℓ → Option ε}
    {act : ν → ε → ν}
    (hstep : ∀ s l s', inv s → guard s l → step s l = some s' →
      inv s' ∧ view s' = (own l).elim (view s) (act (view s)))
    {s t : σ} {ls : List ℓ} (hs : inv s) (hguard : Along step guard s ls)
    (hrun : run step s ls = some t) : view t = (ls.filterMap own).foldl act (view s) := by
  induction ls generalizing s with
  | nil =>
    rw [run_nil, Option.some.injEq] at hrun
    rw [hrun]
    rfl
  | cons l ls ih =>
    obtain ⟨s', hs', hrest⟩ := run_cons_eq_some.mp hrun
    obtain ⟨hinv, hview⟩ := hstep s l s' hs hguard.1 hs'
    rw [ih hinv (hguard.2 s' hs') hrest, hview]
    cases hl : own l with
    | none => rw [List.filterMap_cons_none hl, Option.elim_none]
    | some e => rw [List.filterMap_cons_some hl, List.foldl_cons, Option.elim_some]

theorem exists_run_of_any {p : σ → Prop} [DecidablePred p] {s : σ} {ls : List ℓ}
    (h : (run step s ls).any (fun t => decide (p t)) = true) :
    ∃ t, run step s ls = some t ∧ p t := by
  obtain ⟨t, ht, hp⟩ := (Option.any_eq_true _ _).mp h
  exact ⟨t, ht, of_decide_eq_true hp⟩

/-! A table of processes, one of which moved. -/

section Table

variable {ι : Type u} {α : Type v} {β : Type*} [DecidableEq ι] {table : ι → Option α} {i k : ι}
  {a : α}

theorem update_eq_some_cases_ne {b : α} (h : Function.update table i (some a) k = some b) :
    k = i ∧ b = a ∨ k ≠ i ∧ table k = some b := by
  by_cases hk : k = i
  · subst hk
    rw [Function.update_self, Option.some.injEq] at h
    exact .inl ⟨rfl, h.symm⟩
  · rw [Function.update_of_ne hk] at h
    exact .inr ⟨hk, h⟩

theorem update_eq_some_cases {b : α} (h : Function.update table i (some a) k = some b) :
    k = i ∧ b = a ∨ table k = some b :=
  (update_eq_some_cases_ne h).imp_right And.right

theorem ne_of_update_eq_none (h : Function.update table i (some a) k = none) :
    k ≠ i ∧ table k = none := by
  have hk : k ≠ i := by
    intro hk
    rw [hk, Function.update_self] at h
    cases h
  rw [Function.update_of_ne hk] at h
  exact ⟨hk, h⟩

/-- Every entry of the new table is one of the old table's, or meets `ok`. -/
def TableStep (table table' : ι → Option α) (ok : ι → α → Prop) : Prop :=
  ∀ i a, table' i = some a → table i = some a ∨ ok i a

omit [DecidableEq ι] in
theorem TableStep.refl {ok : ι → α → Prop} : TableStep table table ok := fun _ _ h => .inl h

theorem TableStep.update {ok : ι → α → Prop} (h : ok i a) :
    TableStep table (Function.update table i (some a)) ok := by
  intro k b hb
  rcases update_eq_some_cases hb with ⟨rfl, rfl⟩ | hold
  · exact .inr h
  · exact .inl hold

theorem update_bind_cases {f : α → Option β} {b : β}
    (h : (Function.update table i (some a) k).bind f = some b) :
    k = i ∧ f a = some b ∨ (table k).bind f = some b := by
  obtain ⟨x, hx, hb⟩ := Option.bind_eq_some_iff.mp h
  rcases update_eq_some_cases hx with ⟨rfl, rfl⟩ | hx
  · exact .inl ⟨rfl, hb⟩
  · exact .inr (Option.bind_eq_some_iff.mpr ⟨x, hx, hb⟩)

end Table

/-! A list of processes, one of which moved. -/

section Processes

variable {α : Type u} {procs : List α} {i : ℕ} {p q : α}

theorem countP_moved (f : α → Bool) (hp : procs[i]? = some p) :
    (procs.set i q).countP f + (f p).toNat = procs.countP f + (f q).toNat := by
  obtain ⟨hi, rfl⟩ := List.getElem?_eq_some_iff.mp hp
  rw [List.countP_set hi]
  have hpos : f procs[i] = true → 0 < procs.countP f :=
    fun hf => List.countP_pos_iff.mpr ⟨_, List.getElem_mem hi, hf⟩
  cases hf : f procs[i] <;> cases f q <;> simp_all

theorem exists_countP_others (f : α → Bool) (q : α) (hp : procs[i]? = some p) :
    ∃ others, procs.countP f = others + (f p).toNat ∧
      (procs.set i q).countP f = others + (f q).toNat := by
  have hmoved := countP_moved (q := q) f hp
  have hle : (f p).toNat ≤ procs.countP f := by
    cases hf : f p
    · exact Nat.zero_le _
    · exact List.countP_pos_iff.mpr ⟨p, List.mem_of_getElem? hp, hf⟩
  exact ⟨procs.countP f - (f p).toNat, by omega, by omega⟩

theorem countP_joined (f : α → Bool) :
    (procs ++ [q]).countP f = procs.countP f + (f q).toNat := by
  rw [List.countP_append, List.countP_singleton]
  cases f q <;> rfl

/-- A process of another kind than the one that moved is still there. -/
theorem mem_moved {r : α} (hr : r ∈ procs) (hp : procs[i]? = some p) (hne : r ≠ p) :
    r ∈ procs.set i q := by
  obtain ⟨k, hk⟩ := List.mem_iff_getElem?.mp hr
  have hik : i ≠ k := by
    rintro rfl
    exact hne (Option.some.inj (hk.symm.trans hp))
  apply List.mem_iff_getElem?.mpr
  exact ⟨k, by rw [List.getElem?_set_ne hik, hk]⟩

end Processes

end TagGateway.Foundation
