import TagGateway.Proxy.Populate

/-!
# Mutations

A write or delete that passes through the gateway invalidates the key before
it is forwarded and again once upstream confirmed it. The second delete is the
fence that refuses every populate that started from the older object. The
single-object handlers write upstream's status to the client before that fence;
the bulk delete holds its response back until the fence is done.
-/
namespace TagGateway.Proxy

open Foundation Cache

universe u

inductive MutationKind where
  | putObject
  | deleteObject
  | copyObject
  | completeMultipartUpload
  | deleteObjects
deriving DecidableEq

def isSuccess (status : ℕ) : Bool := decide (200 ≤ status ∧ status < 300)

namespace MutationKind

/-- The mutation leaves no object behind. -/
def removes : MutationKind → Bool
  | .deleteObject | .deleteObjects => true
  | .putObject | .copyObject | .completeMultipartUpload => false

/-- The response is held back until the post-success delete returned. -/
def staged : MutationKind → Bool
  | .deleteObjects => true
  | .putObject | .deleteObject | .copyObject | .completeMultipartUpload => false

/-- Whether upstream's answer confirms the mutation. `errorBody` is an error
document under a success status; for the bulk delete it is an error entry for
every request of this key. The streaming handlers look at the status alone. -/
def confirmed (kind : MutationKind) (status : ℕ) (errorBody : Bool) : Bool :=
  let success := decide (200 ≤ status ∧ status < 300)
  match kind with
  | .putObject | .deleteObject => success
  | .copyObject | .completeMultipartUpload | .deleteObjects => success && !errorBody

end MutationKind

/-- Where a mutation stands. An abandoned one got no answer: its handler is
done, but upstream may still apply the request. -/
inductive MutationPhase where
  | invalidating (loop : DeleteLoop)
  | forwarding
  | abandoned
  | converging (loop : DeleteLoop) (retried : Bool)
  | committing
  | finished
deriving DecidableEq

/-- A running mutation. `applied` is set once upstream made the change, and
holds the version that change replaced, if there was one. -/
structure Mutation where
  kind : MutationKind
  phase : MutationPhase
  applied : Option (Option ℕ) := none
  fenced : Bool := false
deriving DecidableEq

inductive MutationInput where
  | proceed
  | storeError
  | apply (etag : Bytes)
  | respond (status : ℕ) (errorBody : Bool)
  | lose
deriving DecidableEq

namespace Mutation

def start (kind : MutationKind) : Mutation := { kind := kind, phase := .invalidating .start }

def inFlight (m : Mutation) : Prop := m.phase ≠ .finished

/-- Upstream changed and the post-success delete has not completed. -/
def unfenced (m : Mutation) : Prop := m.applied.isSome ∧ m.fenced = false

instance (m : Mutation) : Decidable m.inFlight := inferInstanceAs (Decidable (_ ≠ _))

instance (m : Mutation) : Decidable m.unfenced := inferInstanceAs (Decidable (_ ∧ _))

/-- After the post-success delete, with or without a fence: the bulk delete
still has its response to write. -/
def converged (m : Mutation) : Mutation :=
  { m with phase := if m.kind.staged then .committing else .finished }

/-- A failed post-success delete is tried once more. -/
def retry (retried : Bool) (m : Mutation) : Mutation :=
  if retried then m.converged else { m with phase := .converging .start true }

variable {σ : Type u} (store : VersionedStore σ Row)

def applyUpstream (sh : Shared σ) (etag : Bytes) (m : Mutation) : Shared σ × Mutation :=
  ({ sh with
      object := if m.kind.removes then none else some ⟨sh.nextId, etag⟩
      nextId := sh.nextId + 1 },
    { m with applied := some (sh.object.map ObjectVersion.id) })

/-- Upstream's answer reaches the handler, and the client unless it is
staged. -/
def respond (j : ℕ) (sh : Shared σ) (status : ℕ) (errorBody : Bool) (m : Mutation) :
    Shared σ × Mutation :=
  if m.kind.confirmed status errorBody then
    (if m.kind.staged then sh else sh.emit (.acked j),
      { m with phase := .converging .start false })
  else (sh, { m with phase := .finished })

def converge (j : ℕ) (sh : Shared σ) (loop : DeleteLoop) (retried : Bool) (m : Mutation) :
    Shared σ × Mutation :=
  match CasCoordinator.deleteMetaAttempt store sh.store loop with
  | (s, .done) => (({ sh with store := s } : Shared σ).emit (.fenced j),
      { m.converged with fenced := true })
  | (s, .again next) => ({ sh with store := s }, { m with phase := .converging next retried })
  | (s, .exhausted) => ({ sh with store := s }, m.retry retried)

def step (j : ℕ) (sh : Shared σ) (m : Mutation) (input : MutationInput) :
    Option (Shared σ × Mutation) :=
  match m.phase, input with
  | .invalidating loop, .proceed =>
    let (s, result) := CasCoordinator.deleteMetaAttempt store sh.store loop
    some ({ sh with store := s },
      { m with phase := match result with
          | .again next => .invalidating next
          | .done | .exhausted => .forwarding })
  | .invalidating _, .storeError => some (sh, { m with phase := .forwarding })
  | .forwarding, .apply etag => if m.applied.isNone then some (m.applyUpstream sh etag) else none
  | .abandoned, .apply etag => if m.applied.isNone then some (m.applyUpstream sh etag) else none
  | .forwarding, .respond status errorBody => some (m.respond j sh status errorBody)
  | .forwarding, .lose => some (sh, { m with phase := .abandoned })
  | .abandoned, .lose => some (sh, { m with phase := .finished })
  | .converging loop retried, .proceed => some (converge store j sh loop retried m)
  | .converging _ retried, .storeError => some (sh, m.retry retried)
  | .committing, .proceed => some (sh.emit (.acked j), { m with phase := .finished })
  | _, _ => none

end Mutation
end TagGateway.Proxy
