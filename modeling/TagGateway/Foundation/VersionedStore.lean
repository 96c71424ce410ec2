import Mathlib.Data.Nat.Basic
import Mathlib.Tactic.Common

/-!
# A versioned compare-and-set cell with fenced deletes

One key of a store whose every observation carries a version, absence
included. A conditional write commits exactly when the version it expects is
still the key's version, and a delete leaves a fence: the key's version moves
past every version handed out before it.
-/
namespace TagGateway.Foundation

universe u v

inductive PutReply where
  | written
  | mismatch
deriving DecidableEq, Repr

/-- The answer to a conditional delete; a mismatch reports the version the
store holds. -/
inductive DeleteReply where
  | deleted
  | mismatch (current : ℕ)
  | notFound
deriving DecidableEq, Repr

/-- The operations of one key. `row` and `version` read the state, `expire` is
the store's own removal of a row whose time to live ended. -/
structure VersionedStore (σ : Type u) (ρ : Type v) where
  row : σ → Option ρ
  version : σ → ℕ
  getWithVersion : σ → σ × Option ρ × ℕ
  putIfVersion : σ → ρ → ℕ → σ × PutReply
  deleteIfVersion : σ → ℕ → σ × DeleteReply
  expire : σ → σ

namespace VersionedStore

variable {σ : Type u} {ρ : Type v}

/-- The documented behaviour of a versioned store. Version `0` is never handed
out; as an expectation it stands for "no live row". -/
structure Lawful (store : VersionedStore σ ρ) : Prop where
  get_row : ∀ s, store.row (store.getWithVersion s).1 = store.row s
  get_found : ∀ s, (store.getWithVersion s).2.1 = store.row s
  get_version : ∀ s, (store.getWithVersion s).2.2 = store.version (store.getWithVersion s).1
  get_mono : ∀ s, store.version s ≤ store.version (store.getWithVersion s).1
  get_pos : ∀ s, 0 < (store.getWithVersion s).2.2
  put_commits : ∀ s r v, v ≠ 0 →
    ((store.putIfVersion s r v).2 = .written ↔ store.version s = v)
  put_row : ∀ s r v, (store.putIfVersion s r v).2 = .written →
    store.row (store.putIfVersion s r v).1 = some r
  put_version : ∀ s r v, (store.putIfVersion s r v).2 = .written →
    store.version s < store.version (store.putIfVersion s r v).1
  put_mismatch : ∀ s r v, (store.putIfVersion s r v).2 = .mismatch →
    (store.putIfVersion s r v).1 = s
  delete_row : ∀ s v, (store.deleteIfVersion s v).2 = .deleted →
    store.row (store.deleteIfVersion s v).1 = none
  delete_fences : ∀ s v, (store.deleteIfVersion s v).2 = .deleted →
    store.version s < store.version (store.deleteIfVersion s v).1
  delete_mismatch : ∀ s v c, (store.deleteIfVersion s v).2 = .mismatch c →
    (store.deleteIfVersion s v).1 = s ∧
      (c = store.version s ∨ store.row s = none ∧ c = 0)
  delete_absent : ∀ s, store.row s = none → (store.deleteIfVersion s 0).2 = .deleted
  delete_current : ∀ s, (store.deleteIfVersion s (store.version s)).2 = .deleted
  delete_stale : ∀ s v, v ≠ 0 → v ≠ store.version s →
    (store.deleteIfVersion s v).2 ≠ .deleted
  delete_not_found : ∀ s v, (store.deleteIfVersion s v).2 ≠ .notFound
  expire_row : ∀ s, store.row (store.expire s) = none
  expire_mono : ∀ s, store.version s ≤ store.version (store.expire s)

namespace Lawful

variable {store : VersionedStore σ ρ} (h : store.Lawful)
include h

theorem delete_cases (s : σ) (v : ℕ) :
    ((store.deleteIfVersion s v).2 = .deleted ∧
        store.row (store.deleteIfVersion s v).1 = none ∧
        store.version s < store.version (store.deleteIfVersion s v).1) ∨
      ∃ c, (store.deleteIfVersion s v).2 = .mismatch c ∧ (store.deleteIfVersion s v).1 = s := by
  cases hr : (store.deleteIfVersion s v).2 with
  | deleted => exact .inl ⟨rfl, h.delete_row s v hr, h.delete_fences s v hr⟩
  | mismatch c => exact .inr ⟨c, rfl, (h.delete_mismatch s v c hr).1⟩
  | notFound => exact absurd hr (h.delete_not_found s v)

theorem delete_mono (s : σ) (v : ℕ) :
    store.version s ≤ store.version (store.deleteIfVersion s v).1 := by
  rcases h.delete_cases s v with ⟨-, -, hlt⟩ | ⟨c, -, heq⟩
  · exact Nat.le_of_lt hlt
  · rw [heq]

/-- A conditional write either commits at exactly the expected version or
leaves the key alone. -/
theorem put_cases (s : σ) (r : ρ) (v : ℕ) :
    ((store.putIfVersion s r v).2 = .written ∧
        store.row (store.putIfVersion s r v).1 = some r ∧
        store.version s < store.version (store.putIfVersion s r v).1) ∨
      ((store.putIfVersion s r v).2 = .mismatch ∧ (store.putIfVersion s r v).1 = s) := by
  cases hr : (store.putIfVersion s r v).2 with
  | written => exact .inl ⟨rfl, h.put_row s r v hr, h.put_version s r v hr⟩
  | mismatch => exact .inr ⟨rfl, h.put_mismatch s r v hr⟩

end Lawful

/-- A row and its version as they were read: the version is not yet to come, and
as long as it is the key's version the row is the key's row. -/
structure Observed (store : VersionedStore σ ρ) (s : σ) (row : Option ρ) (v : ℕ) : Prop where
  pos : 0 < v
  le : v ≤ store.version s
  current : store.version s = v → store.row s = row

/-- The version does not fall, and the row changes only with the version. -/
structure Advances (store : VersionedStore σ ρ) (s s' : σ) : Prop where
  le : store.version s ≤ store.version s'
  row : store.version s' = store.version s → store.row s' = store.row s

/-- The version does not fall, and under one version a row may only go away: an expiry
need not move the version. -/
structure Passes (store : VersionedStore σ ρ) (s s' : σ) : Prop where
  le : store.version s ≤ store.version s'
  row : store.version s' = store.version s → ∀ r, store.row s' = some r → store.row s = some r

/-- A row was read at a version that is not yet to come, and as long as that is the key's
version no other row is live. -/
structure Stands (store : VersionedStore σ ρ) (s : σ) (row : ρ) (v : ℕ) : Prop where
  pos : 0 < v
  le : v ≤ store.version s
  live : store.version s = v → ∀ r, store.row s = some r → r = row

/-- Reading a live row leaves its version as it is; only the absence of a row may
be observed under a fresh version. -/
def LiveReads (store : VersionedStore σ ρ) : Prop :=
  ∀ s, (store.row s).isSome → store.version (store.getWithVersion s).1 = store.version s

theorem Advances.refl {store : VersionedStore σ ρ} (s : σ) : store.Advances s s :=
  ⟨le_rfl, fun _ => rfl⟩

theorem Advances.of_lt {store : VersionedStore σ ρ} {s s' : σ}
    (h : store.version s < store.version s') : store.Advances s s' :=
  ⟨Nat.le_of_lt h, fun heq => absurd heq (Nat.ne_of_gt h)⟩

theorem Observed.advance {store : VersionedStore σ ρ} {s s' : σ} {row : Option ρ} {v : ℕ}
    (h : store.Observed s row v) (hs : store.Advances s s') : store.Observed s' row v := by
  refine ⟨h.pos, Nat.le_trans h.le hs.le, fun hv => ?_⟩
  have hle := h.le
  have hle' := hs.le
  have heq : store.version s' = store.version s := by omega
  rw [hs.row heq]
  exact h.current (by omega)

namespace Passes

variable {store : VersionedStore σ ρ} {s s' : σ}

theorem refl (s : σ) : store.Passes s s := ⟨le_rfl, fun _ _ hr => hr⟩

theorem of_lt (h : store.version s < store.version s') : store.Passes s s' :=
  ⟨Nat.le_of_lt h, fun heq => absurd heq (Nat.ne_of_gt h)⟩

end Passes

theorem Advances.passes {store : VersionedStore σ ρ} {s s' : σ} (h : store.Advances s s') :
    store.Passes s s' := ⟨h.le, fun heq _ hr => h.row heq ▸ hr⟩

theorem Stands.pass {store : VersionedStore σ ρ} {s s' : σ} {row : ρ} {v : ℕ}
    (h : store.Stands s row v) (hs : store.Passes s s') : store.Stands s' row v := by
  have hle := h.le
  have hle' := hs.le
  refine ⟨h.pos, Nat.le_trans hle hle', fun hv r hr => ?_⟩
  exact h.live (by omega) r (hs.row (by omega) r hr)

namespace Lawful

variable {store : VersionedStore σ ρ} (h : store.Lawful)
include h

theorem get_stands {s : σ} {row : ρ} (hrow : store.row s = some row) :
    store.Stands (store.getWithVersion s).1 row (store.getWithVersion s).2.2 := by
  refine ⟨h.get_pos s, Nat.le_of_eq (h.get_version s), fun _ r hr => ?_⟩
  rw [h.get_row, hrow, Option.some.injEq] at hr
  exact hr.symm

theorem put_passes (s : σ) (r : ρ) (v : ℕ) : store.Passes s (store.putIfVersion s r v).1 := by
  rcases h.put_cases s r v with ⟨-, -, hlt⟩ | ⟨-, heq⟩
  · exact .of_lt hlt
  · rw [heq]
    exact .refl s

theorem delete_passes (s : σ) (v : ℕ) : store.Passes s (store.deleteIfVersion s v).1 := by
  rcases h.delete_cases s v with ⟨-, -, hlt⟩ | ⟨c, -, heq⟩
  · exact .of_lt hlt
  · rw [heq]
    exact .refl s

theorem expire_passes (s : σ) : store.Passes s (store.expire s) := by
  refine ⟨h.expire_mono s, fun _ r hr => ?_⟩
  rw [h.expire_row] at hr
  cases hr

theorem get_advances (s : σ) : store.Advances s (store.getWithVersion s).1 :=
  ⟨h.get_mono s, fun _ => h.get_row s⟩

theorem get_observed (s : σ) :
    store.Observed (store.getWithVersion s).1 (store.row s) (store.getWithVersion s).2.2 :=
  ⟨h.get_pos s, Nat.le_of_eq (h.get_version s), fun _ => h.get_row s⟩

end Lawful
end VersionedStore

/-- The smallest versioned store: the row and a stamp that every write and
every fence advances. -/
structure Cell (ρ : Type v) where
  row : Option ρ
  stamp : ℕ
deriving DecidableEq, Repr

namespace Cell

variable {ρ : Type v}

/-- The condition under which both conditional operations act. -/
def Matches (c : Cell ρ) (expected : ℕ) : Prop :=
  expected = c.stamp + 1 ∨ expected = 0 ∧ c.row.isNone

instance (c : Cell ρ) (expected : ℕ) : Decidable (c.Matches expected) :=
  inferInstanceAs (Decidable (_ ∨ _))

def putIfVersion (c : Cell ρ) (r : ρ) (expected : ℕ) : Cell ρ × PutReply :=
  if c.Matches expected then
    (⟨some r, c.stamp + 1⟩, .written)
  else (c, .mismatch)

def deleteIfVersion (c : Cell ρ) (expected : ℕ) : Cell ρ × DeleteReply :=
  if c.Matches expected then
    (⟨none, c.stamp + 1⟩, .deleted)
  else (c, .mismatch (c.stamp + 1))

/-- The cell as a versioned store. Its version is one more than the stamp, so
that `0` is never handed out. -/
def store : VersionedStore (Cell ρ) ρ where
  row := Cell.row
  version c := c.stamp + 1
  getWithVersion c := (c, c.row, c.stamp + 1)
  putIfVersion := putIfVersion
  deleteIfVersion := deleteIfVersion
  expire c := { c with row := none }

@[simp] theorem store_row (c : Cell ρ) : store.row c = c.row := rfl

@[simp] theorem store_version (c : Cell ρ) : store.version c = c.stamp + 1 := rfl

theorem putIfVersion_of_matches {c : Cell ρ} {v : ℕ} (r : ρ) (h : c.Matches v) :
    store.putIfVersion c r v = (⟨some r, c.stamp + 1⟩, .written) := if_pos h

theorem putIfVersion_of_not_matches {c : Cell ρ} {v : ℕ} (r : ρ) (h : ¬ c.Matches v) :
    store.putIfVersion c r v = (c, .mismatch) := if_neg h

theorem deleteIfVersion_of_matches {c : Cell ρ} {v : ℕ} (h : c.Matches v) :
    store.deleteIfVersion c v = (⟨none, c.stamp + 1⟩, .deleted) := if_pos h

theorem deleteIfVersion_of_not_matches {c : Cell ρ} {v : ℕ} (h : ¬ c.Matches v) :
    store.deleteIfVersion c v = (c, .mismatch (c.stamp + 1)) := if_neg h

theorem store_lawful : (store : VersionedStore (Cell ρ) ρ).Lawful where
  get_row _ := rfl
  get_found _ := rfl
  get_version _ := rfl
  get_mono _ := le_rfl
  get_pos _ := Nat.succ_pos _
  put_commits c r v hv := by
    by_cases h : c.Matches v
    · have hstamp : v = c.stamp + 1 := h.resolve_right fun h0 => hv h0.1
      simp [putIfVersion_of_matches r h, hstamp.symm]
    · have hne : ¬ c.stamp + 1 = v := fun he => h (.inl he.symm)
      simp [putIfVersion_of_not_matches r h, hne]
  put_row c r v := by
    by_cases h : c.Matches v
    · simp [putIfVersion_of_matches r h]
    · simp [putIfVersion_of_not_matches r h]
  put_version c r v := by
    by_cases h : c.Matches v
    · simp [putIfVersion_of_matches r h]
    · simp [putIfVersion_of_not_matches r h]
  put_mismatch c r v := by
    by_cases h : c.Matches v
    · simp [putIfVersion_of_matches r h]
    · simp [putIfVersion_of_not_matches r h]
  delete_row c v := by
    by_cases h : c.Matches v
    · simp [deleteIfVersion_of_matches h]
    · simp [deleteIfVersion_of_not_matches h]
  delete_fences c v := by
    by_cases h : c.Matches v
    · simp [deleteIfVersion_of_matches h]
    · simp [deleteIfVersion_of_not_matches h]
  delete_mismatch c v w := by
    by_cases h : c.Matches v
    · simp [deleteIfVersion_of_matches h]
    · simp only [deleteIfVersion_of_not_matches h, DeleteReply.mismatch.injEq]
      rintro rfl
      exact ⟨trivial, .inl rfl⟩
  delete_absent c hrow := by
    have h : c.Matches 0 := .inr ⟨rfl, by simpa using hrow⟩
    rw [deleteIfVersion_of_matches h]
  delete_current c := by
    have h : c.Matches (c.stamp + 1) := .inl rfl
    exact congrArg Prod.snd (deleteIfVersion_of_matches h)
  delete_stale c v hv hne := by
    have h : ¬ c.Matches v := by
      rintro (he | ⟨h0, -⟩)
      · exact hne he
      · exact hv h0
    simp [deleteIfVersion_of_not_matches h]
  delete_not_found c v := by
    by_cases h : c.Matches v
    · simp [deleteIfVersion_of_matches h]
    · simp [deleteIfVersion_of_not_matches h]
  expire_row _ := rfl
  expire_mono _ := le_rfl

theorem store_liveReads : (store : VersionedStore (Cell ρ) ρ).LiveReads := fun _ _ => rfl

end Cell
end TagGateway.Foundation
