import Mathlib.Data.List.Perm.Basic
import Mathlib.Data.List.Nodup

/-!
# Exclusive ownership

Resources that are handed from one holder to the next. As long as every step moves one
resource, or brings in one that nobody has, no two holders ever share one.
-/
namespace TagGateway.Foundation

open List

variable {ι β : Type*} {held held' : ι → List β} {i j : ι} {b : β}

/-- Nobody holds a resource twice, and no two hold the same. -/
structure Exclusive (held : ι → List β) : Prop where
  nodup : ∀ i, (held i).Nodup
  unique : ∀ {i j b}, b ∈ held i → b ∈ held j → i = j

namespace Exclusive

theorem not_mem (h : Exclusive held) (hb : b ∈ held i) (hij : j ≠ i) : b ∉ held j :=
  fun hj => hij (h.unique hj hb)

theorem perm (h : Exclusive held) (hperm : ∀ i, held' i ~ held i) : Exclusive held' where
  nodup i := (hperm i).nodup_iff.mpr (h.nodup i)
  unique hi hj := h.unique ((hperm _).mem_iff.mp hi) ((hperm _).mem_iff.mp hj)

theorem drop (h : Exclusive held) (hi : held i ~ b :: held' i)
    (hother : ∀ k, k ≠ i → held' k = held k) : Exclusive held' ∧ ∀ k, b ∉ held' k := by
  have hsub : ∀ k, held' k ⊆ held k := by
    intro k
    by_cases hk : k = i
    · subst hk
      exact fun c hc => hi.mem_iff.mpr (mem_cons_of_mem b hc)
    · exact fun c hc => hother k hk ▸ hc
  have hnodup : (b :: held' i).Nodup := hi.nodup_iff.mp (h.nodup i)
  constructor
  · constructor
    · intro k
      by_cases hk : k = i
      · subst hk
        exact hnodup.of_cons
      · exact hother k hk ▸ h.nodup k
    · exact fun hj hk => h.unique (hsub _ hj) (hsub _ hk)
  · intro k hb
    have hk : k = i := h.unique (hsub k hb) (hi.mem_iff.mpr mem_cons_self)
    subst hk
    exact (nodup_cons.mp hnodup).1 hb

theorem add (h : Exclusive held) (hfree : ∀ k, b ∉ held k) (hj : held' j ~ b :: held j)
    (hother : ∀ k, k ≠ j → held' k = held k) : Exclusive held' := by
  have hmem : ∀ k c, c ∈ held' k → k = j ∧ c = b ∨ c ∈ held k := by
    intro k c hc
    by_cases hk : k = j
    · subst hk
      rcases mem_cons.mp (hj.mem_iff.mp hc) with rfl | hc
      · exact .inl ⟨rfl, rfl⟩
      · exact .inr hc
    · exact .inr (hother k hk ▸ hc)
  constructor
  · intro k
    by_cases hk : k = j
    · subst hk
      exact hj.nodup_iff.mpr (nodup_cons.mpr ⟨hfree k, h.nodup k⟩)
    · exact hother k hk ▸ h.nodup k
  · intro k l c hk hl
    rcases hmem k c hk with ⟨rfl, rfl⟩ | hk'
    · rcases hmem l c hl with ⟨rfl, -⟩ | hl'
      · rfl
      · exact absurd hl' (hfree l)
    · rcases hmem l c hl with ⟨rfl, rfl⟩ | hl'
      · exact absurd hk' (hfree k)
      · exact h.unique hk' hl'

end Exclusive

/-- Resources with numbers, those from `next` on not yet made. -/
structure Allocated (held : ι → List ℕ) (next : ℕ) : Prop extends Exclusive held where
  old : ∀ i, ∀ b ∈ held i, b < next

namespace Allocated

variable {held held' : ι → List ℕ} {next b : ℕ}

theorem rearrange (h : Allocated held next) (hperm : ∀ i, held' i ~ held i) :
    Allocated held' next where
  toExclusive := h.toExclusive.perm hperm
  old i c hc := h.old i c ((hperm i).mem_iff.mp hc)

theorem take (h : Allocated held next) (hi : held i ~ b :: held' i)
    (hother : ∀ k, k ≠ i → held' k = held k) :
    Allocated held' next ∧ (∀ k, b ∉ held' k) ∧ b < next := by
  obtain ⟨hexclusive, hfree⟩ := h.toExclusive.drop hi hother
  have hold : ∀ k, ∀ c ∈ held' k, c < next := by
    intro k c hc
    by_cases hk : k = i
    · subst hk
      exact h.old k c (hi.mem_iff.mpr (mem_cons_of_mem b hc))
    · exact h.old k c (hother k hk ▸ hc)
  exact ⟨⟨hexclusive, hold⟩, hfree, h.old i b (hi.mem_iff.mpr mem_cons_self)⟩

theorem make (h : Allocated held next) :
    Allocated held (next + 1) ∧ (∀ k, next ∉ held k) ∧ next < next + 1 :=
  ⟨⟨h.toExclusive, fun k c hc => Nat.lt_succ_of_lt (h.old k c hc)⟩,
    fun k hk => Nat.lt_irrefl _ (h.old k next hk), Nat.lt_succ_self next⟩

theorem put (h : Allocated held next) (hfree : ∀ k, b ∉ held k) (hb : b < next)
    (hj : held' j ~ b :: held j) (hother : ∀ k, k ≠ j → held' k = held k) :
    Allocated held' next where
  toExclusive := h.toExclusive.add hfree hj hother
  old := by
    intro k c hc
    by_cases hk : k = j
    · subst hk
      rcases mem_cons.mp (hj.mem_iff.mp hc) with rfl | hc
      · exact hb
      · exact h.old k c hc
    · exact h.old k c (hother k hk ▸ hc)

end Allocated

end TagGateway.Foundation
