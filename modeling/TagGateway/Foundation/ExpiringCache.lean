import Mathlib.Data.Int.Notation
import Mathlib.Logic.Function.Basic
import Mathlib.Tactic.Common

/-!
# Caches whose entries expire

A map that knows when each entry was put there. An entry is returned as long as it is
younger than the lifetime of the cache; it may go earlier, by a removal or because the
cache needs the room.
-/
namespace TagGateway.Foundation

universe u v

structure ExpiringCache (κ : Type u) (ν : Type v) where
  ttl : ℤ
  entries : κ → Option (ν × ℤ)

namespace ExpiringCache

variable {κ : Type u} {ν : Type v}

def empty (ttl : ℤ) : ExpiringCache κ ν := ⟨ttl, fun _ => none⟩

def get (c : ExpiringCache κ ν) (now : ℤ) (k : κ) : Option ν :=
  (c.entries k).bind fun e => if now - e.2 < c.ttl then some e.1 else none

variable [DecidableEq κ]

def add (c : ExpiringCache κ ν) (now : ℤ) (k : κ) (value : ν) : ExpiringCache κ ν :=
  { c with entries := Function.update c.entries k (some (value, now)) }

def remove (c : ExpiringCache κ ν) (k : κ) : ExpiringCache κ ν :=
  { c with entries := Function.update c.entries k none }

variable {c : ExpiringCache κ ν} {now : ℤ} {k l : κ} {value : ν} {e : ν × ℤ}

@[simp] theorem add_ttl : (c.add now k value).ttl = c.ttl := rfl

@[simp] theorem remove_ttl : (c.remove k).ttl = c.ttl := rfl

omit [DecidableEq κ] in
/-- What is returned was put there less than a lifetime ago. -/
theorem entry_of_get (h : c.get now k = some value) :
    ∃ since, c.entries k = some (value, since) ∧ now - since < c.ttl := by
  obtain ⟨⟨found, since⟩, hentry, hfresh⟩ := Option.bind_eq_some_iff.mp h
  rw [Option.ite_none_right_eq_some, Option.some.injEq] at hfresh
  obtain ⟨hyoung, rfl⟩ := hfresh
  exact ⟨since, hentry, hyoung⟩

theorem entry_of_add (h : (c.add now k value).entries l = some e) :
    l = k ∧ e = (value, now) ∨ l ≠ k ∧ c.entries l = some e := by
  by_cases hl : l = k
  · subst hl
    simp only [add, Function.update_self, Option.some.injEq] at h
    exact .inl ⟨rfl, h.symm⟩
  · simp only [add, Function.update_of_ne hl] at h
    exact .inr ⟨hl, h⟩

theorem entry_of_remove (h : (c.remove k).entries l = some e) :
    l ≠ k ∧ c.entries l = some e := by
  by_cases hl : l = k
  · subst hl
    simp [remove] at h
  · simp only [remove, Function.update_of_ne hl] at h
    exact ⟨hl, h⟩

end ExpiringCache

end TagGateway.Foundation
