import TagGateway.Foundation.VersionedStore
import TagGateway.Cache.Object

/-!
# The compare-and-set coordinator

Everything that orders the writers of an object's metadata row goes through
these operations. Each one is a sequence of store operations; the functions
named `…Attempt` and `…Read` are the single store steps that other requests may
interleave with, and the operations are their sequential composition.
-/
namespace TagGateway.Cache

open Foundation

universe u v

/-- The precondition of a metadata commit: a decision-time version, or the
deliberately unordered last write wins. -/
inductive Expected where
  | any
  | version (v : ℕ)
deriving DecidableEq, Repr

/-- Where the bounded delete loop stands: the attempts already lost and the
version the next attempt expects. -/
structure DeleteLoop where
  attempt : ℕ
  expected : ℕ
deriving DecidableEq, Repr

inductive LoopResult where
  | done
  | again (next : DeleteLoop)
  | exhausted
deriving DecidableEq, Repr

def DeleteLoop.start : DeleteLoop := ⟨0, 0⟩

def deleteMaxAttempts : ℕ := 64

def putMaxAttempts : ℕ := 8

namespace CasCoordinator

variable {σ : Type u} {ρ : Type v} (store : VersionedStore σ ρ)

def getMetaWithVersion (s : σ) : σ × Option ρ × ℕ := store.getWithVersion s

/-- The unordered write: commit against whatever version is current, and try
again when another write came between. -/
def putMetaAny (r : ρ) : ℕ → σ → σ × Bool
  | 0, s => (s, false)
  | attempts + 1, s =>
    let (s₁, _, version) := store.getWithVersion s
    match store.putIfVersion s₁ r version with
    | (s₂, .written) => (s₂, true)
    | (s₂, .mismatch) => putMetaAny r attempts s₂

/-- Commit a row under the caller's precondition; `false` is a lost
precondition, the newer state stays. -/
def putMeta (s : σ) (r : ρ) : Expected → σ × Bool
  | .version v =>
    match store.putIfVersion s r v with
    | (s', .written) => (s', true)
    | (s', .mismatch) => (s', false)
  | .any => putMetaAny store r putMaxAttempts s

/-- One round of the fenced delete: a mismatch reports the version to expect
in the next round. -/
def deleteMetaAttempt (s : σ) (loop : DeleteLoop) : σ × LoopResult :=
  match store.deleteIfVersion s loop.expected with
  | (s', .deleted) => (s', .done)
  | (s', .notFound) => (s', .done)
  | (s', .mismatch current) =>
    if loop.attempt + 1 < deleteMaxAttempts then (s', .again ⟨loop.attempt + 1, current⟩)
    else (s', .exhausted)

/-- The read half of the guarded delete: the version to delete, when the row
still carries the stale tag. -/
def deleteMetaIfETagRead (etagOf : ρ → Bytes) (staleETag : Bytes) (s : σ) : σ × Option ℕ :=
  let (s', row, version) := store.getWithVersion s
  match row with
  | none => (s', none)
  | some r => (s', if etagOf r = staleETag then some version else none)

def deleteMetaIfVersion (s : σ) (version : ℕ) : σ × Bool :=
  match store.deleteIfVersion s version with
  | (s', .deleted) => (s', true)
  | (s', _) => (s', false)

/-- Invalidate only while the row still carries the stale tag. -/
def deleteMetaIfETag (etagOf : ρ → Bytes) (staleETag : Bytes) (s : σ) : σ × Bool :=
  match deleteMetaIfETagRead store etagOf staleETag s with
  | (s', none) => (s', false)
  | (s', some version) => deleteMetaIfVersion store s' version

theorem deleteMetaIfETagRead_store (etagOf : ρ → Bytes) (staleETag : Bytes) (s : σ) :
    (deleteMetaIfETagRead store etagOf staleETag s).1 = (store.getWithVersion s).1 := by
  unfold deleteMetaIfETagRead
  dsimp only
  split <;> rfl

theorem deleteMetaIfVersion_store (s : σ) (version : ℕ) :
    (deleteMetaIfVersion store s version).1 = (store.deleteIfVersion s version).1 := by
  unfold deleteMetaIfVersion
  split <;> simp_all

section Lawful

variable {store} (h : store.Lawful)
include h

/-- One round of the delete loop either removes the row behind a fence or
leaves the key alone and learns a version. -/
theorem deleteMetaAttempt_cases (s : σ) (loop : DeleteLoop) :
    ((deleteMetaAttempt store s loop).2 = .done ∧
        store.row (deleteMetaAttempt store s loop).1 = none ∧
        store.version s < store.version (deleteMetaAttempt store s loop).1) ∨
      ((deleteMetaAttempt store s loop).2 ≠ .done ∧
        (deleteMetaAttempt store s loop).1 = s) := by
  rcases h.delete_cases s loop.expected with ⟨hr, hrow, hlt⟩ | ⟨c, hr, hs⟩
  · left
    unfold deleteMetaAttempt
    generalize store.deleteIfVersion s loop.expected = reply at hr hrow hlt ⊢
    obtain ⟨s', r⟩ := reply
    subst hr
    exact ⟨rfl, hrow, hlt⟩
  · right
    unfold deleteMetaAttempt
    generalize store.deleteIfVersion s loop.expected = reply at hr hs ⊢
    obtain ⟨s', r⟩ := reply
    subst hr hs
    dsimp only
    split_ifs <;> simp

end Lawful
end CasCoordinator
end TagGateway.Cache
