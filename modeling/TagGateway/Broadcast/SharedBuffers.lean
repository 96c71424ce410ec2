import TagGateway.Broadcast.Broadcaster
import TagGateway.Foundation.Ownership

/-!
# The broadcaster and its buffers

A call of the broadcaster, taken apart. The producer fills a buffer and broadcasts it.
Every listener gets a buffer of its own with the same bytes; in the variant that gives
the input away, the first listener with room gets the producer's buffer, after the copies
are made. Buffers come from a pool, or are new, and a consumer puts them back when it has
read them, so one buffer serves many chunks. The slice of listeners is filtered in place.
Consumers do not wait for the broadcaster's lock: they take, read and release chunks
between any two steps of a call.
-/
namespace TagGateway.Broadcast.Shared

open Foundation

universe u

/-- A chunk in a channel. Its data lies in a buffer; the last chunk may have none. -/
structure Chunk where
  data : Option ℕ
  err : Option StreamError
deriving DecidableEq

/-- A listener and its consumer. The consumer has the buffers in `hand` to read and those
in `spent` to release; `got` is what it has read. It subscribed after `since` chunks. -/
structure Listener where
  ch : List Chunk := []
  closed : Bool := false
  disconnected : Bool := false
  termErr : Option StreamError := none
  hand : List ℕ := []
  spent : List ℕ := []
  got : List Bytes := []
  since : ℕ

/-- Where a running call stands. An owner is noted with its index; `active` listeners have
been kept in the front of the slice, `position` of them before the owner. -/
inductive Call (κ : Type u) where
  | idle
  | search (i : ℕ)
  | copies (owner : Option (ℕ × κ)) (i active position : ℕ)
  /-- Listener `k` at index `i` had no room. -/
  | disconnect (k : κ) (owner : Option (ℕ × κ)) (i active position : ℕ)
  | handOver (owner : κ) (active position : ℕ)
  | disconnectOwner (owner : κ) (active : ℕ)
deriving DecidableEq

/-- `input` is the producer's buffer, `mem` what the buffers hold, and those from `next` on
are not allocated. `sent` are the chunks that were broadcast, `completion` what the
broadcast was completed with and whether there were headers then. -/
structure Broadcaster (κ : Type u) where
  channelBuf : ℕ
  listeners : List κ := []
  table : κ → Option Listener := fun _ => none
  headerSet : Bool := false
  streaming : Bool := false
  done : Bool := false
  err : Option StreamError := none
  call : Call κ := .idle
  input : Option ℕ := none
  mem : ℕ → Bytes := fun _ => []
  pool : List ℕ := []
  next : ℕ := 0
  sent : List Bytes := []
  completion : Option (Option StreamError × Bool) := none
  panicked : Bool := false

inductive Act (κ : Type u) where
  | subscribe (k : κ)
  | setHeaders
  /-- The producer puts data in its buffer; if it has none it gets one. -/
  | fill (lease : Option ℕ) (data : Bytes)
  | broadcast (owned : Bool)
  /-- The running call goes on. -/
  | advance (lease : Option ℕ)
  | complete (err : Option StreamError)
  | receive (k : κ)
  | read (k : κ)
  | release (k : κ) (buf : ℕ)
deriving DecidableEq

def Listener.closeWithError (channelBuf : ℕ) (err : Option StreamError) (l : Listener) : Listener :=
  { l with
    ch := if l.ch.length < channelBuf then l.ch ++ [⟨none, err⟩] else l.ch
    termErr := err
    closed := true }

namespace Broadcaster

variable {κ : Type u} [DecidableEq κ]

def new (channelBuf : ℤ) : Broadcaster κ where
  channelBuf := if channelBuf ≤ 0 then defaultChannelBuffer else channelBuf.toNat

def setListener (b : Broadcaster κ) (k : κ) (l : Listener) : Broadcaster κ :=
  { b with table := Function.update b.table k (some l) }

def hasRoom (b : Broadcaster κ) (l : Listener) : Bool := decide (l.ch.length < b.channelBuf)

def getChunkBuf (b : Broadcaster κ) : Option ℕ → Option (ℕ × Broadcaster κ)
  | some buf => if buf ∈ b.pool then some (buf, { b with pool := b.pool.erase buf }) else none
  | none => some (b.next, { b with next := b.next + 1 })

def putChunkBuf (b : Broadcaster κ) (buf : ℕ) : Broadcaster κ := { b with pool := buf :: b.pool }

def write (b : Broadcaster κ) (buf : ℕ) (data : Bytes) : Broadcaster κ :=
  { b with mem := Function.update b.mem buf data }

/-- A send on a closed channel panics. -/
def send (b : Broadcaster κ) (k : κ) (l : Listener) (chunk : Chunk) : Broadcaster κ :=
  if l.closed then { b with panicked := true } else b.setListener k { l with ch := l.ch ++ [chunk] }

/-- So does closing a channel again. -/
def closeWithError (b : Broadcaster κ) (k : κ) (l : Listener) (err : Option StreamError) :
    Broadcaster κ :=
  if l.closed then { b with panicked := true }
  else b.setListener k (l.closeWithError b.channelBuf err)

def subscribe (b : Broadcaster κ) (k : κ) : Broadcaster κ :=
  if b.streaming then b
  else if b.done then
    b.setListener k
      { ch := b.err.toList.map fun e => ⟨none, some e⟩
        termErr := b.err, closed := true, since := b.sent.length }
  else { b.setListener k { since := b.sent.length } with listeners := b.listeners ++ [k] }

def fill (b : Broadcaster κ) (lease : Option ℕ) (data : Bytes) : Option (Broadcaster κ) :=
  match b.input with
  | some buf => some (b.write buf data)
  | none => (b.getChunkBuf lease).map fun p => { p.2.write p.1 data with input := some p.1 }

/-- The call begins. An empty chunk is not sent. -/
def broadcast (b : Broadcaster κ) (owned : Bool) (data : Bytes) : Broadcaster κ :=
  if data = [] then b
  else { b with
    streaming := true
    sent := b.sent ++ [data]
    call := if owned then .search 0 else .copies none 0 0 0 }

/-- The listener at index `i` gets a copy in `buf`. Without room the copy goes back to the
pool. -/
def sendCopy (b : Broadcaster κ) (k : κ) (l : Listener) (buf : ℕ) (owner : Option (ℕ × κ))
    (i active position : ℕ) : Broadcaster κ :=
  if b.hasRoom l then
    { b.send k l ⟨some buf, none⟩ with
      listeners := b.listeners.set active k
      call := .copies owner (i + 1) (active + 1)
        (if owner.any (fun o => i < o.1) then position + 1 else position) }
  else { (b.putChunkBuf buf).setListener k { l with disconnected := true } with
    call := .disconnect k owner i active position }

def copyNext (b : Broadcaster κ) (lease : Option ℕ) (owner : Option (ℕ × κ))
    (i active position : ℕ) : Option (Broadcaster κ) :=
  match b.listeners[i]? with
  | none =>
    match owner with
    | none => some { b with listeners := b.listeners.take active, call := .idle }
    | some o => some { b with call := .handOver o.2 active position }
  | some k =>
    (b.table k).bind fun l =>
      if l.disconnected ∨ owner.any (fun o => o.1 == i) then
        some { b with call := .copies owner (i + 1) active position }
      else b.input.bind fun input => (b.getChunkBuf lease).map fun p =>
        (p.2.write p.1 (b.mem input)).sendCopy k l p.1 owner i active position

def advance (b : Broadcaster κ) (lease : Option ℕ) : Option (Broadcaster κ) :=
  match b.call with
  | .idle => none
  | .search i =>
    match b.listeners[i]? with
    | none => some { b with call := .copies none 0 0 0 }
    | some k => (b.table k).map fun l =>
        if !l.disconnected && b.hasRoom l then { b with call := .copies (some (i, k)) 0 0 0 }
        else { b with call := .search (i + 1) }
  | .copies owner i active position => b.copyNext lease owner i active position
  | .disconnect k owner i active position => (b.table k).map fun l =>
      { b.closeWithError k l (some .slowConsumer) with call := .copies owner (i + 1) active position }
  | .handOver k active position => (b.table k).bind fun l => b.input.map fun input =>
      if b.hasRoom l then
        { b.send k l ⟨some input, none⟩ with
          input := none
          listeners := (b.listeners.take active).take position ++
            k :: (b.listeners.take active).drop position
          call := .idle }
      else { b.setListener k { l with disconnected := true } with
        call := .disconnectOwner k active }
  | .disconnectOwner k active => (b.table k).map fun l =>
      { b.closeWithError k l (some .slowConsumer) with
        listeners := b.listeners.take active, call := .idle }

def finalErr (b : Broadcaster κ) (err : Option StreamError) : Option StreamError :=
  if !b.headerSet && err.isNone then some .completedBeforeHeaders else err

def closeListener (err : Option StreamError) (b : Broadcaster κ) (k : κ) : Broadcaster κ :=
  match b.table k with
  | some l => if l.disconnected then b else b.closeWithError k l err
  | none => b

def complete (b : Broadcaster κ) (err : Option StreamError) : Broadcaster κ :=
  if b.done then b
  else { b.listeners.foldl (closeListener (b.finalErr err)) b with
    done := true, err := b.finalErr err, completion := some (err, b.headerSet) }

/-- The lock is free; nobody broadcasts after the completion. -/
def step (b : Broadcaster κ) : Act κ → Option (Broadcaster κ)
  | .subscribe k => if b.call = .idle ∧ b.table k = none then some (b.subscribe k) else none
  | .setHeaders => if b.call = .idle then some { b with headerSet := true } else none
  | .fill lease data => if b.call = .idle then b.fill lease data else none
  | .broadcast owned =>
    if b.call = .idle ∧ b.done = false then b.input.map fun buf => b.broadcast owned (b.mem buf)
    else none
  | .advance lease => b.advance lease
  | .complete err => if b.call = .idle then some (b.complete err) else none
  | .receive k => (b.table k).bind fun l => match l.ch with
    | c :: ch => some (b.setListener k { l with ch := ch, hand := l.hand ++ c.data.toList })
    | [] => none
  | .read k => (b.table k).bind fun l => match l.hand with
    | buf :: hand => some (b.setListener k
        { l with hand := hand, spent := buf :: l.spent, got := l.got ++ [b.mem buf] })
    | [] => none
  | .release k buf => (b.table k).bind fun l =>
    if buf ∈ l.spent then
      some ((b.putChunkBuf buf).setListener k { l with spent := l.spent.erase buf })
    else none

def Leases (b : Broadcaster κ) (buf : ℕ) (pool : List ℕ) (next : ℕ) : Prop :=
  buf ∈ b.pool ∧ pool = b.pool.erase buf ∧ next = b.next ∨
    buf = b.next ∧ pool = b.pool ∧ next = b.next + 1

omit [DecidableEq κ] in
theorem getChunkBuf_eq_some {b b' : Broadcaster κ} {lease : Option ℕ} {buf : ℕ}
    (h : b.getChunkBuf lease = some (buf, b')) :
    ∃ pool next, b.Leases buf pool next ∧ b' = { b with pool := pool, next := next } := by
  cases lease with
  | none =>
    simp only [getChunkBuf, Option.some.injEq, Prod.mk.injEq] at h
    obtain ⟨rfl, rfl⟩ := h
    exact ⟨_, _, .inr ⟨rfl, rfl, rfl⟩, rfl⟩
  | some c =>
    simp only [getChunkBuf, Option.ite_none_right_eq_some, Option.some.injEq, Prod.mk.injEq] at h
    obtain ⟨hc, rfl, rfl⟩ := h
    exact ⟨_, _, .inl ⟨hc, rfl, rfl⟩, rfl⟩

def target (b : Broadcaster κ) : Option κ :=
  match b.call with
  | .idle | .search _ => none
  | .copies owner i _ _ => if owner.any (fun o => o.1 == i) then none else b.listeners[i]?
  | .disconnect k _ _ _ _ | .handOver k _ _ | .disconnectOwner k _ => some k

/-- The next step sends on no closed channel and closes none again. -/
structure Ready (b : Broadcaster κ) : Prop where
  target : ∀ k l, b.target = some k → b.table k = some l → l.closed = false
  nodup : b.call = .idle → b.done = false → b.listeners.Nodup
  listeners : b.call = .idle → b.done = false → ∀ k ∈ b.listeners,
    ∃ l, b.table k = some l ∧ l.closed = false ∧ l.disconnected = false

/-- What a step does then. -/
inductive Effect (b : Broadcaster κ) : Broadcaster κ → Prop where
  | same : Effect b b
  | subscribe {k : κ} (hcall : b.call = .idle) (hk : b.table k = none)
    (hstreaming : b.streaming = false) (hdone : b.done = false) :
    Effect b { b with
      table := Function.update b.table k (some { since := b.sent.length })
      listeners := b.listeners ++ [k] }
  | subscribeDone {k : κ} (hcall : b.call = .idle) (hk : b.table k = none)
    (hstreaming : b.streaming = false) (hdone : b.done = true) :
    Effect b { b with table := Function.update b.table k (some
      { ch := b.err.toList.map fun e => ⟨none, some e⟩
        termErr := b.err, closed := true, since := b.sent.length }) }
  | setHeaders (hcall : b.call = .idle) : Effect b { b with headerSet := true }
  | refill {buf : ℕ} {data : Bytes} (hcall : b.call = .idle) (hin : b.input = some buf) :
    Effect b { b with mem := Function.update b.mem buf data }
  | fill {buf next : ℕ} {pool : List ℕ} {data : Bytes} (hcall : b.call = .idle)
    (hin : b.input = none) (hlease : b.Leases buf pool next) :
    Effect b { b with
      pool := pool, next := next, mem := Function.update b.mem buf data, input := some buf }
  | broadcast {buf : ℕ} (owned : Bool) (hcall : b.call = .idle) (hdone : b.done = false)
    (hin : b.input = some buf) (hdata : b.mem buf ≠ []) :
    Effect b { b with
      streaming := true
      sent := b.sent ++ [b.mem buf]
      call := if owned then .search 0 else .copies none 0 0 0 }
  | searchNext {i : ℕ} (hcall : b.call = .search i) : Effect b { b with call := .search (i + 1) }
  | searchEnd {i : ℕ} (hcall : b.call = .search i) :
    Effect b { b with call := .copies none 0 0 0 }
  | searchFound {i : ℕ} {k : κ} (hcall : b.call = .search i) (hk : b.listeners[i]? = some k) :
    Effect b { b with call := .copies (some (i, k)) 0 0 0 }
  | copiesEnd {i active position : ℕ} (hcall : b.call = .copies none i active position)
    (hi : b.listeners[i]? = none) :
    Effect b { b with listeners := b.listeners.take active, call := .idle }
  | copiesMade {o : ℕ × κ} {i active position : ℕ}
    (hcall : b.call = .copies (some o) i active position) (hi : b.listeners[i]? = none) :
    Effect b { b with call := .handOver o.2 active position }
  | skip {owner : Option (ℕ × κ)} {i active position : ℕ} {k : κ} {l : Listener}
    (hcall : b.call = .copies owner i active position) (hk : b.listeners[i]? = some k)
    (hl : b.table k = some l) (hskip : l.disconnected = true ∨ owner.any (fun o => o.1 == i) = true) :
    Effect b { b with call := .copies owner (i + 1) active position }
  | copy {owner : Option (ℕ × κ)} {i active position position' : ℕ} {k : κ} {l : Listener}
    {input buf next : ℕ} {pool : List ℕ}
    (hcall : b.call = .copies owner i active position) (hk : b.listeners[i]? = some k)
    (hl : b.table k = some l) (howner : owner.any (fun o => o.1 == i) = false)
    (hin : b.input = some input) (hlease : b.Leases buf pool next) (hroom : b.hasRoom l = true) :
    Effect b { b with
      pool := pool, next := next, mem := Function.update b.mem buf (b.mem input)
      table := Function.update b.table k (some { l with ch := l.ch ++ [⟨some buf, none⟩] })
      listeners := b.listeners.set active k
      call := .copies owner (i + 1) (active + 1) position' }
  | reject {owner : Option (ℕ × κ)} {i active position : ℕ} {k : κ} {l : Listener}
    {input buf next : ℕ} {pool : List ℕ}
    (hcall : b.call = .copies owner i active position) (hk : b.listeners[i]? = some k)
    (hl : b.table k = some l) (howner : owner.any (fun o => o.1 == i) = false)
    (hin : b.input = some input) (hlease : b.Leases buf pool next) (hroom : b.hasRoom l = false) :
    Effect b { b with
      pool := buf :: pool, next := next, mem := Function.update b.mem buf (b.mem input)
      table := Function.update b.table k (some { l with disconnected := true })
      call := .disconnect k owner i active position }
  | disconnect {owner : Option (ℕ × κ)} {i active position : ℕ} {k : κ} {l : Listener}
    (hcall : b.call = .disconnect k owner i active position) (hl : b.table k = some l) :
    Effect b { b with
      table := Function.update b.table k
        (some (l.closeWithError b.channelBuf (some .slowConsumer)))
      call := .copies owner (i + 1) active position }
  | handOver {active position : ℕ} {k : κ} {l : Listener} {input : ℕ}
    (hcall : b.call = .handOver k active position) (hl : b.table k = some l)
    (hin : b.input = some input) (hroom : b.hasRoom l = true) :
    Effect b { b with
      input := none
      table := Function.update b.table k (some { l with ch := l.ch ++ [⟨some input, none⟩] })
      listeners := (b.listeners.take active).take position ++
        k :: (b.listeners.take active).drop position
      call := .idle }
  | rejectOwner {active position : ℕ} {k : κ} {l : Listener}
    (hcall : b.call = .handOver k active position) (hl : b.table k = some l)
    (hroom : b.hasRoom l = false) :
    Effect b { b with
      table := Function.update b.table k (some { l with disconnected := true })
      call := .disconnectOwner k active }
  | disconnectOwner {active : ℕ} {k : κ} {l : Listener}
    (hcall : b.call = .disconnectOwner k active) (hl : b.table k = some l) :
    Effect b { b with
      table := Function.update b.table k
        (some (l.closeWithError b.channelBuf (some .slowConsumer)))
      listeners := b.listeners.take active
      call := .idle }
  | complete (err : Option StreamError) (hcall : b.call = .idle) (hdone : b.done = false) :
    Effect b { b with
      table := fun k => if k ∈ b.listeners then
        (b.table k).map (.closeWithError b.channelBuf (b.finalErr err)) else b.table k
      done := true, err := b.finalErr err, completion := some (err, b.headerSet) }
  | receive {k : κ} {l : Listener} {c : Chunk} {ch : List Chunk} (hl : b.table k = some l)
    (hch : l.ch = c :: ch) :
    Effect b (b.setListener k { l with ch := ch, hand := l.hand ++ c.data.toList })
  | read {k : κ} {l : Listener} {buf : ℕ} {hand : List ℕ} (hl : b.table k = some l)
    (hhand : l.hand = buf :: hand) :
    Effect b (b.setListener k
      { l with hand := hand, spent := buf :: l.spent, got := l.got ++ [b.mem buf] })
  | release {k : κ} {l : Listener} {buf : ℕ} (hl : b.table k = some l) (hbuf : buf ∈ l.spent) :
    Effect b ((b.putChunkBuf buf).setListener k { l with spent := l.spent.erase buf })

variable {b b' : Broadcaster κ}

theorem send_of_open {k : κ} {l : Listener} {chunk : Chunk} (h : l.closed = false) :
    b.send k l chunk = b.setListener k { l with ch := l.ch ++ [chunk] } :=
  if_neg (by simp [h])

theorem closeWithError_of_open {k : κ} {l : Listener} {err : Option StreamError}
    (h : l.closed = false) :
    b.closeWithError k l err = b.setListener k (l.closeWithError b.channelBuf err) :=
  if_neg (by simp [h])

omit [DecidableEq κ] in
theorem target_copies {owner : Option (ℕ × κ)} {i active position : ℕ}
    (hcall : b.call = .copies owner i active position)
    (howner : owner.any (fun o => o.1 == i) = false) : b.target = b.listeners[i]? := by
  simp only [target, hcall, howner, Bool.false_eq_true, if_false]

theorem copyNext_effect {lease : Option ℕ} {owner : Option (ℕ × κ)} {i active position : ℕ}
    (hcall : b.call = .copies owner i active position)
    (hready : b.Ready) (h : b.copyNext lease owner i active position = some b') : Effect b b' := by
  unfold copyNext at h
  split at h
  next hi =>
    cases owner with
    | none =>
      obtain rfl := Option.some.inj h
      exact .copiesEnd hcall hi
    | some o =>
      obtain rfl := Option.some.inj h
      exact .copiesMade hcall hi
  next k hk =>
    obtain ⟨l, hl, h⟩ := Option.bind_eq_some_iff.mp h
    by_cases hskip : l.disconnected = true ∨ owner.any (fun o => o.1 == i) = true
    · rw [if_pos hskip] at h
      obtain rfl := Option.some.inj h
      exact .skip hcall hk hl hskip
    · rw [if_neg hskip] at h
      have howner : owner.any (fun o => o.1 == i) = false := by
        simpa using fun ho => hskip (.inr ho)
      obtain ⟨input, hin, h⟩ := Option.bind_eq_some_iff.mp h
      obtain ⟨⟨buf, b₁⟩, hbuf, rfl⟩ := Option.map_eq_some_iff.mp h
      obtain ⟨pool, next, hlease, rfl⟩ := getChunkBuf_eq_some hbuf
      have hclosed := hready.target k l (target_copies hcall howner ▸ hk) hl
      unfold sendCopy
      split
      next hroom =>
        rw [send_of_open hclosed]
        exact .copy hcall hk hl howner hin hlease hroom
      next hroom =>
        have hfull : b.hasRoom l = false := Bool.eq_false_iff.mpr hroom
        exact .reject hcall hk hl howner hin hlease hfull

theorem advance_effect {lease : Option ℕ}
    (hready : b.Ready) (h : b.advance lease = some b') : Effect b b' := by
  unfold advance at h
  split at h
  next => cases h
  next i hcall =>
    split at h
    next =>
      obtain rfl := Option.some.inj h
      exact .searchEnd hcall
    next k hk =>
      obtain ⟨l, hl, rfl⟩ := Option.map_eq_some_iff.mp h
      split
      · exact .searchFound hcall hk
      · exact .searchNext hcall
  next hcall => exact copyNext_effect hcall hready h
  next k owner i active position hcall =>
    obtain ⟨l, hl, rfl⟩ := Option.map_eq_some_iff.mp h
    have hclosed := hready.target k l (by simp only [target, hcall]) hl
    rw [closeWithError_of_open hclosed]
    exact .disconnect hcall hl
  next k active position hcall =>
    obtain ⟨l, hl, h⟩ := Option.bind_eq_some_iff.mp h
    obtain ⟨input, hin, rfl⟩ := Option.map_eq_some_iff.mp h
    have hclosed := hready.target k l (by simp only [target, hcall]) hl
    split
    next hroom =>
      rw [send_of_open hclosed]
      exact .handOver hcall hl hin hroom
    next hroom => exact .rejectOwner hcall hl (Bool.eq_false_iff.mpr hroom)
  next k active hcall =>
    obtain ⟨l, hl, rfl⟩ := Option.map_eq_some_iff.mp h
    have hclosed := hready.target k l (by simp only [target, hcall]) hl
    rw [closeWithError_of_open hclosed]
    exact .disconnectOwner hcall hl

theorem subscribe_effect {k : κ} (hcall : b.call = .idle) (hk : b.table k = none) :
    Effect b (b.subscribe k) := by
  unfold subscribe
  by_cases hstreaming : b.streaming = true
  · rw [if_pos hstreaming]
    exact .same
  · rw [if_neg hstreaming]
    by_cases hdone : b.done = true
    · rw [if_pos hdone]
      exact .subscribeDone hcall hk (by simpa using hstreaming) hdone
    · rw [if_neg hdone]
      exact .subscribe hcall hk (by simpa using hstreaming) (by simpa using hdone)

theorem fill_effect {lease : Option ℕ} {data : Bytes} (hcall : b.call = .idle)
    (h : b.fill lease data = some b') : Effect b b' := by
  unfold fill at h
  split at h
  next buf hin =>
    obtain rfl := Option.some.inj h
    exact .refill hcall hin
  next hin =>
    obtain ⟨⟨buf, b₁⟩, hbuf, rfl⟩ := Option.map_eq_some_iff.mp h
    obtain ⟨pool, next, hlease, rfl⟩ := getChunkBuf_eq_some hbuf
    exact .fill hcall hin hlease

theorem foldl_closeListener (err : Option StreamError) (ks : List κ) (b : Broadcaster κ)
    (hnodup : ks.Nodup) (hopen : ∀ k ∈ ks,
      ∃ l, b.table k = some l ∧ l.closed = false ∧ l.disconnected = false) :
    ks.foldl (closeListener err) b = { b with
      table := fun k => if k ∈ ks then (b.table k).map (.closeWithError b.channelBuf err)
        else b.table k } := by
  induction ks generalizing b with
  | nil => simp
  | cons k ks ih =>
    obtain ⟨l, hl, hclosed, hconnected⟩ := hopen k List.mem_cons_self
    obtain ⟨hk, hnodup⟩ := List.nodup_cons.mp hnodup
    have hfirst : closeListener err b k = b.setListener k (l.closeWithError b.channelBuf err) := by
      simp only [closeListener, hl, hconnected, Bool.false_eq_true, if_false]
      exact closeWithError_of_open hclosed
    have hrest : ∀ j ∈ ks, ∃ l', (closeListener err b k).table j = some l' ∧ l'.closed = false ∧
        l'.disconnected = false := by
      intro j hj
      have hne : j ≠ k := fun hjk => hk (hjk ▸ hj)
      simp only [hfirst, setListener, Function.update_of_ne hne]
      exact hopen j (List.mem_cons_of_mem k hj)
    rw [List.foldl_cons, ih _ hnodup hrest, hfirst]
    simp only [setListener, Broadcaster.mk.injEq, true_and, and_true]
    funext j
    by_cases hjk : j = k
    · subst hjk
      simp [hk, hl]
    · simp [hjk]

theorem complete_effect (err : Option StreamError) (hready : b.Ready) (hcall : b.call = .idle) :
    Effect b (b.complete err) := by
  unfold complete
  by_cases hdone : b.done = true
  · rw [if_pos hdone]
    exact .same
  · have hdone : b.done = false := by simpa using hdone
    rw [if_neg (by simp [hdone]), foldl_closeListener _ _ _ (hready.nodup hcall hdone)
      (hready.listeners hcall hdone)]
    exact .complete err hcall hdone

theorem step_effect {a : Act κ}
    (hready : b.Ready) (h : b.step a = some b') : Effect b b' := by
  cases a with
  | subscribe k =>
    simp only [step, Option.ite_none_right_eq_some, Option.some.injEq] at h
    obtain ⟨⟨hcall, hk⟩, rfl⟩ := h
    exact subscribe_effect hcall hk
  | setHeaders =>
    simp only [step, Option.ite_none_right_eq_some, Option.some.injEq] at h
    obtain ⟨hcall, rfl⟩ := h
    exact .setHeaders hcall
  | fill lease data =>
    simp only [step, Option.ite_none_right_eq_some] at h
    exact fill_effect h.1 h.2
  | broadcast owned =>
    simp only [step, Option.ite_none_right_eq_some] at h
    obtain ⟨⟨hcall, hdone⟩, h⟩ := h
    obtain ⟨buf, hin, rfl⟩ := Option.map_eq_some_iff.mp h
    unfold broadcast
    by_cases hdata : b.mem buf = []
    · rw [if_pos hdata]
      exact .same
    · rw [if_neg hdata]
      exact .broadcast owned hcall hdone hin hdata
  | advance lease => exact advance_effect hready h
  | complete err =>
    simp only [step, Option.ite_none_right_eq_some, Option.some.injEq] at h
    obtain ⟨hcall, rfl⟩ := h
    exact complete_effect err hready hcall
  | receive k =>
    obtain ⟨l, hl, h⟩ := Option.bind_eq_some_iff.mp h
    split at h
    next c ch hch =>
      obtain rfl := Option.some.inj h
      exact .receive hl hch
    next => cases h
  | read k =>
    obtain ⟨l, hl, h⟩ := Option.bind_eq_some_iff.mp h
    split at h
    next buf hand hhand =>
      obtain rfl := Option.some.inj h
      exact .read hl hhand
    next => cases h
  | release k buf =>
    obtain ⟨l, hl, h⟩ := Option.bind_eq_some_iff.mp h
    simp only [Option.ite_none_right_eq_some, Option.some.injEq] at h
    obtain ⟨hbuf, rfl⟩ := h
    exact .release hl hbuf

end Broadcaster

end TagGateway.Broadcast.Shared
