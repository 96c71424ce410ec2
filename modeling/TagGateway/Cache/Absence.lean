import TagGateway.Cache.Coordinator

/-!
# What a cache client's error says about a key

A client reports that a key is absent by finding nothing, or by an error with the status
code for it. The coordinators go by the text of the error instead. They are modelled
here above an arbitrary client, one that may answer with any error at any time; the
client that a versioned store gives rise to is one of them.
-/
namespace TagGateway.Cache

open Foundation

universe u v

inductive GrpcCode where
  | ok | canceled | unknown | invalidArgument | deadlineExceeded | notFound | alreadyExists
  | permissionDenied | resourceExhausted | failedPrecondition | aborted | outOfRange
  | unimplemented | internal | unavailable | dataLoss | unauthenticated
deriving DecidableEq

/-- An error of the client: its text, its status code, the version that a mismatch
reports, and whether it wraps the end of a context. -/
structure ClientError where
  text : Bytes
  code : GrpcCode := .unknown
  mismatch : Option ℕ := none
  canceled : Bool := false
  deadlineExceeded : Bool := false
deriving DecidableEq

namespace ClientError

variable (e : ClientError)

def isNotFoundError : Bool :=
  e.text == ascii "key not found" || e.text == ascii "not found" ||
    contains e.text (ascii "NotFound") || contains e.text (ascii "not found")

def reportsAbsence : Bool := e.code == .notFound

end ClientError

def confirmsAbsence (answer : Option ClientError) : Bool := answer.all ClientError.reportsAbsence

/-- The answer to a read of a row. A row that is not found has a version too, and so may
an error. -/
inductive GetReply (ρ : Type v) where
  | error (e : ClientError) (version : ℕ)
  | value (row : Option ρ) (version : ℕ)
  | undecodable

namespace GetReply

variable {ρ : Type v}

def reportsAbsence : GetReply ρ → Bool
  | .error e _ => e.reportsAbsence
  | .value row _ => row.isNone
  | .undecodable => false

def Returns (may : ClientError → Prop) : GetReply ρ → Prop
  | .error e _ => may e
  | .value _ _ | .undecodable => True

end GetReply

inductive CoordinatorError where
  | client (e : ClientError)
  | undecodable
  | lostRaces
deriving DecidableEq

/-- The answers that an invalidation got, in order, and the errors it returns. -/
structure Invalidation where
  answers : List (Option ClientError)
  errors : List CoordinatorError
deriving DecidableEq

/-- The last call removed the key or was told that it is absent. -/
def Invalidation.Confirmed (inv : Invalidation) : Prop :=
  inv.answers.getLast?.any confirmsAbsence

/-- The part of a client that the fenced delete uses. `ctxErr` is the state of the
caller's context. -/
structure DeleteClient (σ : Type u) where
  ctxErr : σ → Option ClientError
  deleteIfVersion : σ → ℕ → σ × Option ClientError

def DeleteClient.Returns {σ : Type u} (client : DeleteClient σ) (may : ClientError → Prop) : Prop :=
  ∀ s version, ∀ e ∈ (client.deleteIfVersion s version).2, may e

namespace CasCoordinator

variable {σ : Type u} {ρ : Type v}

def readMetaWithVersion : GetReply ρ → Except CoordinatorError (Option ρ × ℕ)
  | .error e version => if e.isNotFoundError then .ok (none, version) else .error (.client e)
  | .value row version => .ok (row, version)
  | .undecodable => .error .undecodable

variable (client : DeleteClient σ)

def fencedDeleteLoop : ℕ → σ → ℕ → σ × Invalidation
  | 0, s, _ => (s, ⟨[], [.lostRaces]⟩)
  | fuel + 1, s, expected =>
    match client.ctxErr s with
    | some e => (s, ⟨[], [.client e]⟩)
    | none =>
      match client.deleteIfVersion s expected with
      | (s', none) => (s', ⟨[none], []⟩)
      | (s', some e) =>
        match e.mismatch with
        | some current =>
          let (s'', inv) := fencedDeleteLoop fuel s' current
          (s'', { inv with answers := some e :: inv.answers })
        | none =>
          (s', ⟨[some e], if e.isNotFoundError then [] else [.client e]⟩)

def fencedDelete (s : σ) : σ × Invalidation := fencedDeleteLoop client deleteMaxAttempts s 0

variable {client}

/-- A delete that returns no error made a call whose answer is none, or an error that is
taken for absence. -/
theorem fencedDeleteLoop_last (fuel : ℕ) (s : σ) (expected : ℕ)
    (hok : (fencedDeleteLoop client fuel s expected).2.errors = []) :
    ∃ s' version, (fencedDeleteLoop client fuel s expected).2.answers.getLast? =
        some (client.deleteIfVersion s' version).2 ∧
      ∀ e ∈ (client.deleteIfVersion s' version).2, e.isNotFoundError = true := by
  induction fuel generalizing s expected with
  | zero => cases hok
  | succ fuel ih =>
    simp only [fencedDeleteLoop] at hok ⊢
    cases hctx : client.ctxErr s with
    | some e => simp [hctx] at hok
    | none =>
      simp only [hctx] at hok ⊢
      generalize hanswer : client.deleteIfVersion s expected = answer at hok ⊢
      obtain ⟨s', answer⟩ := answer
      cases answer with
      | none =>
        refine ⟨s, expected, ?_⟩
        rw [hanswer]
        exact ⟨rfl, by simp⟩
      | some e =>
        cases hmismatch : e.mismatch with
        | some current =>
          -- the last call is the last one of the attempts that follow
          simp only [hmismatch] at hok ⊢
          obtain ⟨s'', version, hlast, htext⟩ := ih s' current hok
          refine ⟨s'', version, ?_, htext⟩
          rw [List.getLast?_cons, hlast, Option.getD_some]
        | none =>
          simp only [hmismatch] at hok ⊢
          have htext : e.isNotFoundError = true := by
            by_contra hno
            simp [hno] at hok
          refine ⟨s, expected, ?_⟩
          rw [hanswer]
          exact ⟨rfl, by simpa using htext⟩

end CasCoordinator

/-! ## The legacy coordinator -/

namespace LegacyCoordinator

/-- The tombstone comes first and the row is deleted either way: the answers to the two
writes, and the errors of both. -/
def deleteMeta (tombstone deleted : Option ClientError) : Invalidation where
  answers := [tombstone, deleted]
  errors := (tombstone.toList ++
    (deleted.filter fun e => !e.isNotFoundError).toList).map .client

theorem deleteMeta_last {tombstone deleted : Option ClientError}
    (hok : (deleteMeta tombstone deleted).errors = []) :
    ∀ e ∈ deleted, e.isNotFoundError = true := by
  intro e he
  rw [Option.mem_def] at he
  subst he
  by_contra hno
  simp [deleteMeta, hno] at hok

end LegacyCoordinator
end TagGateway.Cache
