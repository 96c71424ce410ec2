import TagGateway.Foundation.EventLog
import TagGateway.Foundation.Machine
import TagGateway.Foundation.Word

/-!
# The legacy coordinator

Invalidations leave a timestamped tombstone next to the row they delete, and a
commit looks for one that is not older than its token. The tombstone and the
row are two keys of a plain store: a call is a sequence of single store
operations, and the steps of other calls come in between. Every clock reading
is later than all those before it.
-/
namespace TagGateway.Cache

open Foundation List

universe u

namespace LegacyCoordinator

def versionAny : ℕ := 2 ^ 64 - 1

inductive TombstoneError where
  | malformed (length : ℕ)
deriving DecidableEq

/-- The bytes `writeTombstone` stores for a clock reading. -/
def tombstoneData (now : ℕ) : Bytes := putUint64 now

/-- The time a stored tombstone carries; none stored counts as time zero. -/
def tombstoneTimestamp : Option Bytes → Except TombstoneError ℤ
  | none => .ok 0
  | some data => if data.length = 8 then .ok (wrap64 (uint64 data)) else .error (.malformed data.length)

/-- Whether `putMeta` goes on to its write once it has read the tombstone. -/
def tombstoneAdmits (expected : ℕ) (tombstone : Option Bytes) : Bool :=
  match tombstoneTimestamp tombstone with
  | .error _ => false
  | .ok ts => decide (ts < wrap64 expected)

end LegacyCoordinator

open LegacyCoordinator

/-- A row together with the token of the call that wrote it. -/
structure Stamped (ρ : Type u) where
  metadata : ρ
  token : ℕ
deriving DecidableEq

inductive PutPhase where
  | checking
  | writing
  | finished (wrote : Bool)
deriving DecidableEq

structure PutCall (ρ : Type u) where
  metadata : ρ
  expected : ℕ
  phase : PutPhase
deriving DecidableEq

/-- A call of `deleteMeta`. The tombstone's time is read before the tombstone is
stored; both store operations are attempted, and the call fails if one does. -/
inductive DeletePhase where
  | stamping
  | stamped (ts : ℕ)
  | marked (ts : ℕ)
  | unmarked
  | finished (ts : ℕ)
  | failed
deriving DecidableEq

namespace DeletePhase

def stampedAt : DeletePhase → Option ℕ
  | .stamped ts | .marked ts | .finished ts => some ts
  | _ => none

def pendingAt : DeletePhase → Option ℕ
  | .stamped ts => some ts
  | _ => none

def completedAt : DeletePhase → Option ℕ
  | .finished ts => some ts
  | _ => none

def markedAt : DeletePhase → Option ℕ
  | .marked ts | .finished ts => some ts
  | _ => none

end DeletePhase

inductive LegacyEvent where
  | checked (put : ℕ)
  | marked (delete : ℕ)
deriving DecidableEq

structure LegacyWorld (ρ : Type u) where
  row : Option (Stamped ρ)
  tombstone : Option Bytes
  clock : ℕ
  puts : ℕ → Option (PutCall ρ)
  deletes : ℕ → Option DeletePhase
  log : List LegacyEvent

/-- What the environment contributes to a step. An operation that reports an
error may have been applied all the same. -/
inductive LegacyInput where
  | proceed
  | storeError (applied : Bool)
  | clock (now : ℕ)
deriving DecidableEq

def LegacyInput.applies : LegacyInput → Bool
  | .proceed => true
  | .storeError applied => applied
  | .clock _ => false

inductive LegacyLabel (ρ : Type u) where
  | getMetaWithVersion (now : ℕ)
  | startPut (i : ℕ) (metadata : ρ) (expected : ℕ)
  | put (i : ℕ) (input : LegacyInput)
  | startDelete (d : ℕ)
  | delete (d : ℕ) (input : LegacyInput)
  | expire

namespace LegacyWorld

variable {ρ : Type u}

/-- A clock reading, in nanoseconds; it fits a signed word. -/
def ticks (w : LegacyWorld ρ) (now : ℕ) : Prop := w.clock < now ∧ now < 2 ^ 63

instance (w : LegacyWorld ρ) (now : ℕ) : Decidable (w.ticks now) :=
  inferInstanceAs (Decidable (_ ∧ _))

def setPut (w : LegacyWorld ρ) (i : ℕ) (c : PutCall ρ) (phase : PutPhase) : LegacyWorld ρ :=
  { w with puts := Function.update w.puts i (some { c with phase := phase }) }

def setDelete (w : LegacyWorld ρ) (d : ℕ) (phase : DeletePhase) : LegacyWorld ρ :=
  { w with deletes := Function.update w.deletes d (some phase) }

def stepPut (w : LegacyWorld ρ) (i : ℕ) (c : PutCall ρ) (input : LegacyInput) :
    Option (LegacyWorld ρ) :=
  match c.phase, input with
  | .checking, .proceed =>
    if c.expected = 0 then some (w.setPut i c (.finished false))
    else if c.expected = versionAny then some (w.setPut i c .writing)
    else if tombstoneAdmits c.expected w.tombstone then
      some { w.setPut i c .writing with log := w.log ++ [.checked i] }
    else some (w.setPut i c (.finished false))
  | .checking, .storeError _ =>
    if c.expected = 0 ∨ c.expected = versionAny then none
    else some (w.setPut i c (.finished false))
  | .writing, .proceed =>
    some { w.setPut i c (.finished true) with row := some ⟨c.metadata, c.expected⟩ }
  | .writing, .storeError applied =>
    some { w.setPut i c (.finished false) with
      row := if applied then some ⟨c.metadata, c.expected⟩ else w.row }
  | _, _ => none

def stepDelete (w : LegacyWorld ρ) (d : ℕ) (phase : DeletePhase) (input : LegacyInput) :
    Option (LegacyWorld ρ) :=
  match phase, input with
  | .stamping, .clock now =>
    if w.ticks now then some { w.setDelete d (.stamped now) with clock := now } else none
  | .stamped ts, .proceed =>
    some { w.setDelete d (.marked ts) with
      tombstone := some (tombstoneData ts), log := w.log ++ [.marked d] }
  | .stamped ts, .storeError applied =>
    some { w.setDelete d .unmarked with
      tombstone := if applied then some (tombstoneData ts) else w.tombstone }
  | .marked ts, .proceed => some { w.setDelete d (.finished ts) with row := none }
  | .unmarked, .proceed => some { w.setDelete d .failed with row := none }
  | .marked _, .storeError applied | .unmarked, .storeError applied =>
    some { w.setDelete d .failed with row := if applied then none else w.row }
  | _, _ => none

/-- One step of the key. The token a populate later carries is the clock reading
its `getMetaWithVersion` took. -/
def step (w : LegacyWorld ρ) : LegacyLabel ρ → Option (LegacyWorld ρ)
  | .getMetaWithVersion now => if w.ticks now then some { w with clock := now } else none
  | .startPut i metadata expected =>
    match w.puts i with
    | none => some (w.setPut i ⟨metadata, expected, .checking⟩ .checking)
    | some _ => none
  | .put i input => (w.puts i).bind fun c => w.stepPut i c input
  | .startDelete d =>
    match w.deletes d with
    | none => some (w.setDelete d .stamping)
    | some _ => none
  | .delete d input => (w.deletes d).bind fun phase => w.stepDelete d phase input
  | .expire => some { w with row := none }

def initial (row : Option (Stamped ρ)) (tombstone : Option Bytes) (clock : ℕ) : LegacyWorld ρ where
  row := row
  tombstone := tombstone
  clock := clock
  puts _ := none
  deletes _ := none
  log := []

def markedAt (w : LegacyWorld ρ) (d : ℕ) : Option ℕ := (w.deletes d).bind DeletePhase.markedAt

def completedAt (w : LegacyWorld ρ) (d : ℕ) : Option ℕ :=
  (w.deletes d).bind DeletePhase.completedAt

end LegacyWorld
end TagGateway.Cache
