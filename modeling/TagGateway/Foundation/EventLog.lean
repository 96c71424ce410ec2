import Mathlib.Data.List.Infix

/-!
# Order in an event log

`[a, b] <+ log` says that `a` was logged before `b`. A log only grows at its
end, and these lemmas say what a new event can add.
-/
namespace TagGateway.Foundation

open List

universe u

variable {α : Type u} {log es : List α} {a b c e : α}

/-- An event absent from the new part was there before, with everything that
precedes it. -/
theorem sublist_append_of_not_mem {l : List α} (h : e ∉ es) :
    l ++ [e] <+ log ++ es ↔ l ++ [e] <+ log := by
  constructor
  · intro hsub
    obtain ⟨l₁, l₂, heq, h₁, h₂⟩ := List.sublist_append_iff.mp hsub
    cases l₂ using List.reverseRecOn with
    | nil => simpa [heq] using h₁
    | append_singleton l₂ x =>
      rw [← List.append_assoc] at heq
      obtain ⟨-, hx⟩ := List.append_inj' heq rfl
      rw [List.cons.injEq] at hx
      exact absurd (h₂.subset (by simp [hx.1])) h
  · exact fun hsub => hsub.trans (List.sublist_append_left _ _)

theorem sublist_snoc_self {l : List α} (h : l <+ log) : l ++ [e] <+ log ++ [e] :=
  h.append (List.Sublist.refl _)

/-- What a new last event can complete. -/
theorem sublist_snoc_cases {l : List α} (h : l ++ [a] <+ log ++ [e]) :
    l ++ [a] <+ log ∨ a = e ∧ l <+ log := by
  by_cases hae : a = e
  · subst hae
    have hl : l <+ log := by simpa using h
    exact .inr ⟨rfl, hl⟩
  · left
    exact (sublist_append_of_not_mem (by simpa using hae)).mp h

theorem pair_append_of_not_mem (h : b ∉ es) : [a, b] <+ log ++ es ↔ [a, b] <+ log :=
  sublist_append_of_not_mem (l := [a]) h

theorem pair_snoc (h : a ∈ log) : [a, e] <+ log ++ [e] :=
  sublist_snoc_self (l := [a]) (List.singleton_sublist.mpr h)

theorem pair_snoc_cases (h : [a, b] <+ log ++ [e]) : [a, b] <+ log ∨ b = e ∧ a ∈ log := by
  rcases sublist_snoc_cases (l := [a]) h with h | ⟨hb, h⟩
  · exact .inl h
  · exact .inr ⟨hb, List.singleton_sublist.mp h⟩

/-- When the first event is not among the new ones, it precedes what they add. -/
theorem pair_append_cases (ha : a ∉ es) (h : [a, b] <+ log ++ es) :
    [a, b] <+ log ∨ a ∈ log ∧ b ∈ es := by
  by_cases hb : b ∈ es
  · have hmem : a ∈ log ++ es := h.subset List.mem_cons_self
    exact .inr ⟨(List.mem_append.mp hmem).resolve_right ha, hb⟩
  · exact .inl ((pair_append_of_not_mem hb).mp h)

theorem triple_snoc_cases (h : [a, b, c] <+ log ++ [e]) :
    [a, b, c] <+ log ∨ c = e ∧ [a, b] <+ log :=
  sublist_snoc_cases (l := [a, b]) h

end TagGateway.Foundation
