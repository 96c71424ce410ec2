import TagGateway.Proxy.Lifecycle
import Mathlib.Data.Nat.Bitwise

/-!
# Handler admission and the shutdown of the gateway

Every request passes `foregroundHandlerMiddleware`, which counts it in one atomic
word whose highest bit says that the server is stopping. A request counts itself
before it looks at the bit, so a late one disturbs the count for a moment. Whoever
sees the bit with a count of zero closes `handlersDone`, under a `sync.Once`, and
`Stop` waits for that channel. Each atomic operation is a step of its own here.
What `http.Server` does between the sealing of admission and the wait (drain,
deadline, cancelled request contexts) only decides when the handlers exit, which
is the environment's choice in any case.
-/
namespace TagGateway.Handlers

open Foundation Proxy

def handlerStoppingBit : BitVec 64 := 1 <<< 63

def handlerCountMask : BitVec 64 := handlerStoppingBit - 1

/-- The number `^uint64(0)`, with which the count goes down by one. -/
def minusOne : BitVec 64 := ~~~0

def stopBit (state : BitVec 64) : Bool := state &&& handlerStoppingBit != 0

def countIsZero (state : BitVec 64) : Bool := state &&& handlerCountMask == 0

/-- A goroutine has a stack of 2 KiB or more in an address space of 2⁶⁴ bytes, so
there are never more of them than this. -/
def goroutineLimit : ℕ := 9007199254740992

inductive Once
  | fresh
  | busy
  | done
  deriving DecidableEq, Repr

/-- Where a call of `handlerDoneOnce.Do` is: before it, or in the function. -/
inductive OnceCall
  | calling
  | inside
  deriving DecidableEq, Repr

/-- Where a request is in `foregroundHandlerMiddleware`. A `state` is what the
last atomic addition returned; `admitted` tells a handler that ran from a request
that was turned away. -/
inductive HandlerPlace
  | entering (state : BitVec 64)
  | running
  | leaving (admitted : Bool) (state : BitVec 64)
  | once (admitted : Bool) (call : OnceCall)
  | gone (admitted : Bool)
  deriving DecidableEq, Repr

/-- Where a call of `Stop` is. `atomic.Or` returns the old word. -/
inductive StopPlace
  | sealed (old : BitVec 64)
  | once (call : OnceCall)
  | waiting
  | returned
  deriving DecidableEq, Repr

/-- The part of `Server` that shutdown is about. `handlersDone` is how often that
channel has been closed: a second time would panic. -/
structure Server where
  handlerState : BitVec 64
  handlerDoneOnce : Once
  handlersDone : ℕ
  requests : List HandlerPlace
  stops : List StopPlace
  deriving DecidableEq, Repr

inductive ServerLabel
  | arrive
  | request (i : ℕ)
  | stop
  | stopper (j : ℕ)
  deriving DecidableEq, Repr

namespace HandlerPlace

def counted : HandlerPlace → Bool
  | entering _ | running => true
  | leaving _ _ | once _ _ | gone _ => false

/-- The handler runs, or nothing can keep it from running any more. -/
def accepted : HandlerPlace → Bool
  | entering state => !stopBit state
  | running => true
  | leaving _ _ | once _ _ | gone _ => false

def admitted : HandlerPlace → Bool
  | running => true
  | leaving admitted _ | once admitted _ | gone admitted => admitted
  | entering _ => false

/-- The request saw the stop bit with a count of zero, and has not closed
`handlersDone` or found it closed. -/
def sawZero : HandlerPlace → Bool
  | leaving _ state => stopBit state && countIsZero state
  | once _ _ => true
  | entering _ | running | gone _ => false

def inside : HandlerPlace → Bool
  | once _ .inside => true
  | _ => false

def live : HandlerPlace → Bool
  | gone _ => false
  | _ => true

end HandlerPlace

namespace StopPlace

def sawZero : StopPlace → Bool
  | sealed old => countIsZero old
  | once _ => true
  | waiting | returned => false

def inside : StopPlace → Bool
  | once .inside => true
  | _ => false

end StopPlace

namespace Server

def newServer : Server := ⟨0, .fresh, 0, [], []⟩

/-- `enterHandler` up to its atomic addition. -/
def enterHandler (s : Server) : Option Server :=
  if s.requests.countP HandlerPlace.live < goroutineLimit then
    some { s with
      handlerState := s.handlerState + 1
      requests := s.requests ++ [.entering (s.handlerState + 1)] }
  else none

/-- `leaveHandler` up to its atomic addition. -/
def leaveHandler (s : Server) (i : ℕ) (admitted : Bool) : Server :=
  { s with
    handlerState := s.handlerState + minusOne
    requests := s.requests.set i (.leaving admitted (s.handlerState + minusOne)) }

/-- `closeHandlerAdmission` up to its atomic operation. -/
def closeHandlerAdmission (s : Server) : Server :=
  { s with
    handlerState := s.handlerState ||| handlerStoppingBit
    stops := s.stops ++ [.sealed s.handlerState] }

/-- One step of `handlerDoneOnce.Do(func() { close(s.handlersDone) })`, and what is
left of the call. A second caller waits while the first is inside. -/
def handlerDoneOnceDo (s : Server) : OnceCall → Option (Server × Option OnceCall)
  | .calling =>
    match s.handlerDoneOnce with
    | .fresh => some ({ s with handlerDoneOnce := .busy }, some .inside)
    | .busy => none
    | .done => some (s, none)
  | .inside =>
    some ({ s with handlerDoneOnce := .done, handlersDone := s.handlersDone + 1 }, none)

def advance (s : Server) (i : ℕ) : HandlerPlace → Option Server
  | .entering state =>
    if stopBit state then some (s.leaveHandler i false)
    else some { s with requests := s.requests.set i .running }
  | .running => some (s.leaveHandler i true)
  | .leaving admitted state =>
    if stopBit state && countIsZero state then
      some { s with requests := s.requests.set i (.once admitted .calling) }
    else some { s with requests := s.requests.set i (.gone admitted) }
  | .once admitted call =>
    (s.handlerDoneOnceDo call).map fun r =>
      { r.1 with requests := r.1.requests.set i (r.2.elim (.gone admitted) (.once admitted)) }
  | .gone _ => none

def advanceStop (s : Server) (j : ℕ) : StopPlace → Option Server
  | .sealed old =>
    some { s with stops := s.stops.set j (if countIsZero old then .once .calling else .waiting) }
  | .once call =>
    (s.handlerDoneOnceDo call).map fun r =>
      { r.1 with stops := r.1.stops.set j (r.2.elim .waiting .once) }
  | .waiting =>
    if 0 < s.handlersDone then some { s with stops := s.stops.set j .returned } else none
  | .returned => none

def step (s : Server) : ServerLabel → Option Server
  | .arrive => s.enterHandler
  | .request i => s.requests[i]?.bind (s.advance i)
  | .stop => some s.closeHandlerAdmission
  | .stopper j => s.stops[j]?.bind (s.advanceStop j)

end Server

/-! The atomic word. -/

def handlerWord (stop : Bool) (n : ℕ) : BitVec 64 :=
  BitVec.ofNat 64 (stop.toNat * 9223372036854775808 + n)

section Word

variable {stop : Bool} {n : ℕ}

theorem handlerWord_succ : handlerWord stop n + 1 = handlerWord stop (n + 1) := by
  unfold handlerWord
  rw [← Nat.add_assoc, BitVec.ofNat_add _ 1]
  rfl

theorem handlerWord_pred : handlerWord stop (n + 1) + minusOne = handlerWord stop n := by
  have hone : (1 : BitVec 64) + minusOne = 0#64 := rfl
  rw [← handlerWord_succ, BitVec.add_assoc, hone, BitVec.add_zero]

theorem toNat_handlerWord (hn : n ≤ goroutineLimit) :
    (handlerWord stop n).toNat = stop.toNat * 9223372036854775808 + n := by
  unfold goroutineLimit at hn
  rw [handlerWord, BitVec.toNat_ofNat]
  cases stop <;> simp only [Bool.toNat_true, Bool.toNat_false] <;> omega

theorem testBit_handlerWord (hn : n ≤ goroutineLimit) :
    (handlerWord stop n).toNat.testBit 63 = stop := by
  have hlow : n < 2 ^ 63 := by
    unfold goroutineLimit at hn
    omega
  rw [toNat_handlerWord hn]
  cases stop
  · simpa using Nat.testBit_eq_false_of_lt hlow
  · have hhigh := Nat.testBit_two_pow_add_eq n 63
    rw [Nat.testBit_eq_false_of_lt hlow] at hhigh
    simpa using hhigh

theorem stopBit_handlerWord (hn : n ≤ goroutineLimit) : stopBit (handlerWord stop n) = stop := by
  have hand : (handlerWord stop n &&& handlerStoppingBit).toNat = stop.toNat * 2 ^ 63 := by
    rw [BitVec.toNat_and, show handlerStoppingBit.toNat = 2 ^ 63 by decide, Nat.and_two_pow,
      testBit_handlerWord hn]
  unfold stopBit
  cases stop
  · rw [bne_eq_false_iff_eq]
    apply BitVec.eq_of_toNat_eq
    simpa using hand
  · rw [bne_iff_ne]
    intro hzero
    rw [hzero] at hand
    simp at hand

theorem countIsZero_handlerWord (hn : n ≤ goroutineLimit) :
    countIsZero (handlerWord stop n) = decide (n = 0) := by
  have hand : (handlerWord stop n &&& handlerCountMask).toNat = n := by
    rw [BitVec.toNat_and, show handlerCountMask.toNat = 2 ^ 63 - 1 by decide,
      Nat.and_two_pow_sub_one_eq_mod, toNat_handlerWord hn]
    unfold goroutineLimit at hn
    cases stop <;> simp only [Bool.toNat_true, Bool.toNat_false] <;> omega
  unfold countIsZero
  rw [Bool.eq_iff_iff, beq_iff_eq, decide_eq_true_iff]
  constructor
  · intro hzero
    rw [hzero] at hand
    exact hand.symm
  · intro hzero
    apply BitVec.eq_of_toNat_eq
    rw [hand, hzero]
    rfl

theorem handlerWord_or (hn : n ≤ goroutineLimit) :
    handlerWord stop n ||| handlerStoppingBit = handlerWord true n := by
  have hlow : n < 2 ^ 63 := by
    unfold goroutineLimit at hn
    omega
  have hor : 2 ^ 63 + n = 2 ^ 63 ||| n := by
    simpa using Nat.two_pow_add_eq_or_of_lt hlow 1
  apply BitVec.eq_of_toNat_eq
  rw [BitVec.toNat_or, toNat_handlerWord hn, toNat_handlerWord hn,
    show handlerStoppingBit.toNat = 2 ^ 63 by decide]
  cases stop
  · simpa [Nat.or_comm] using hor.symm
  · simp only [Bool.toNat_true, Nat.one_mul]
    rw [show 9223372036854775808 + n = 2 ^ 63 ||| n from hor, Nat.or_right_comm, Nat.or_self]

end Word

/-! The accounts of a shutdown. -/

/-- What holds between the count, the handlers that are accepted, the goroutines that
saw a count of zero, those inside the once, and the channel. -/
structure Tallied (stop : Bool) (once : Once) (closes counted accepted sawZero inside : ℕ) :
    Prop where
  accepted_le : accepted ≤ counted
  early : stop = false → once = .fresh ∧ sawZero = 0
  -- nobody sees zero, or gets to close the channel, while a handler can still run
  empty : once ≠ .fresh ∨ 0 < sawZero → accepted = 0
  -- somebody is left to close it
  last : stop = true → once = .done ∨ 0 < counted + sawZero
  inside : inside = (once == .busy).toNat
  closed : closes = (once == .done).toNat

namespace Tallied

variable {stop : Bool} {once : Once} {closes counted accepted sawZero inside : ℕ}

theorem enter (h : Tallied stop once closes counted accepted sawZero inside) :
    Tallied stop once closes (counted + 1) (accepted + (!stop).toNat) sawZero inside := by
  have hle := h.accepted_le
  constructor
  · cases stop <;> simp only [Bool.not_true, Bool.not_false, Bool.toNat_true, Bool.toNat_false] <;>
      omega
  · exact h.early
  · intro hempty
    cases stop
    · obtain ⟨hfresh, hnone⟩ := h.early rfl
      rcases hempty with hbusy | hsaw
      · exact absurd hfresh hbusy
      · omega
    · exact h.empty hempty
  · intro _
    right
    omega
  · exact h.inside
  · exact h.closed

theorem leave {accepted' : ℕ}
    (h : Tallied stop once closes (counted + 1) accepted sawZero inside)
    (hle : accepted' ≤ accepted) (hcount : accepted' ≤ counted) :
    Tallied stop once closes counted accepted' (sawZero + (stop && decide (counted = 0)).toNat)
      inside := by
  constructor
  · exact hcount
  · rintro rfl
    exact h.early rfl
  · intro hempty
    by_cases hzero : counted = 0
    · omega
    · have := h.empty (by simpa [hzero] using hempty)
      omega
  · rintro rfl
    by_cases hzero : counted = 0
    · right
      simp [hzero]
    · right
      omega
  · exact h.inside
  · exact h.closed

theorem sealAdmission (h : Tallied stop once closes counted accepted sawZero inside) :
    Tallied true once closes counted accepted (sawZero + (decide (counted = 0)).toNat) inside := by
  have hle := h.accepted_le
  constructor
  · exact hle
  · intro hfalse
    exact absurd hfalse (by simp)
  · intro hempty
    by_cases hzero : counted = 0
    · omega
    · exact h.empty (by simpa [hzero] using hempty)
  · intro _
    by_cases hzero : counted = 0
    · right
      simp [hzero]
    · right
      omega
  · exact h.inside
  · exact h.closed

theorem enterOnce (h : Tallied stop .fresh closes counted accepted sawZero inside)
    (hsaw : 0 < sawZero) : Tallied stop .busy closes counted accepted sawZero (inside + 1) := by
  constructor
  · exact h.accepted_le
  · intro hstop
    have := (h.early hstop).2
    omega
  · intro _
    exact h.empty (.inr hsaw)
  · intro _
    right
    omega
  · rw [h.inside]
    rfl
  · exact h.closed

theorem skipOnce (h : Tallied stop .done closes counted accepted (sawZero + 1) inside) :
    Tallied stop .done closes counted accepted sawZero inside := by
  constructor
  · exact h.accepted_le
  · intro hstop
    exact absurd (h.early hstop).1 (by simp)
  · intro _
    exact h.empty (.inr (Nat.succ_pos _))
  · intro _
    exact .inl rfl
  · exact h.inside
  · exact h.closed

theorem close (h : Tallied stop once closes counted accepted (sawZero + 1) (inside + 1)) :
    Tallied stop .done (closes + 1) counted accepted sawZero inside := by
  have hbusy : once = .busy := by
    have hcount := h.inside
    cases once
    · exact absurd hcount (Nat.succ_ne_zero _)
    · rfl
    · exact absurd hcount (Nat.succ_ne_zero _)
  subst hbusy
  have hinside := h.inside
  constructor
  · exact h.accepted_le
  · intro hstop
    exact absurd (h.early hstop).1 (by simp)
  · intro _
    exact h.empty (.inr (Nat.succ_pos _))
  · intro _
    exact .inl rfl
  · exact Nat.succ.inj hinside
  · rw [h.closed]
    rfl

theorem done_of_closed (h : Tallied stop once closes counted accepted sawZero inside)
    (hclosed : 0 < closes) : once = .done := by
  by_contra hne
  rw [h.closed, beq_eq_false_iff_ne.mpr hne] at hclosed
  exact absurd hclosed (Nat.lt_irrefl 0)

theorem closes_le_one (h : Tallied stop once closes counted accepted sawZero inside) :
    closes ≤ 1 := h.closed ▸ Bool.toNat_le _

theorem closes_eq_one (h : Tallied stop .done closes counted accepted sawZero inside) :
    closes = 1 := h.closed

end Tallied

namespace Server

def stopped (s : Server) : Bool := !s.stops.isEmpty

def counted (s : Server) : ℕ := s.requests.countP HandlerPlace.counted

def accepted (s : Server) : ℕ := s.requests.countP HandlerPlace.accepted

def sawZero (s : Server) : ℕ :=
  s.requests.countP HandlerPlace.sawZero + s.stops.countP StopPlace.sawZero

def inside (s : Server) : ℕ :=
  s.requests.countP HandlerPlace.inside + s.stops.countP StopPlace.inside

structure Drains (s : Server) : Prop where
  word : s.handlerState = handlerWord s.stopped s.counted
  few : s.requests.countP HandlerPlace.live ≤ goroutineLimit
  tally : Tallied s.stopped s.handlerDoneOnce s.handlersDone s.counted s.accepted s.sawZero s.inside
  returned : .returned ∈ s.stops → s.handlerDoneOnce = .done

theorem drains_new : Drains newServer := by
  constructor
  · rfl
  · exact Nat.zero_le _
  · exact ⟨Nat.le_refl _, fun _ => ⟨rfl, rfl⟩, fun _ => rfl, by simp [stopped, newServer], rfl, rfl⟩
  · simp [newServer]

variable {s s' : Server} {i j : ℕ}

theorem counted_le_live (s : Server) : s.counted ≤ s.requests.countP HandlerPlace.live := by
  apply List.countP_mono_left
  intro p _ hp
  cases p
  case gone => exact absurd hp (by simp [HandlerPlace.counted])
  all_goals rfl

theorem Drains.counted_le (h : Drains s) : s.counted ≤ goroutineLimit :=
  Nat.le_trans s.counted_le_live h.few

theorem accepted_le_counted (s : Server) : s.accepted ≤ s.counted := by
  apply List.countP_mono_left
  intro p _ hp
  cases p
  case entering => rfl
  case running => rfl
  all_goals exact absurd hp (by simp [HandlerPlace.accepted])

theorem Drains.enterHandler (h : Drains s) (henter : s.enterHandler = some s') : Drains s' := by
  unfold Server.enterHandler at henter
  split_ifs at henter with hlimit
  obtain rfl := Option.some.inj henter
  have hcount := s.counted_le_live
  have hbit : stopBit (s.handlerState + 1) = s.stopped := by
    rw [h.word, handlerWord_succ, stopBit_handlerWord (by omega)]
  constructor
  · change s.handlerState + 1 = handlerWord s.stopped ((s.requests ++ [_]).countP _)
    rw [countP_joined, h.word, handlerWord_succ]
    rfl
  · change (s.requests ++ [_]).countP _ ≤ _
    rw [countP_joined]
    exact hlimit
  · have htally := h.tally.enter
    simp only [counted, accepted, sawZero, inside, stopped, countP_joined,
      HandlerPlace.counted, HandlerPlace.accepted, HandlerPlace.sawZero, HandlerPlace.inside,
      Bool.toNat_true, Bool.toNat_false, Nat.add_zero, hbit] at htally ⊢
    exact htally
  · exact h.returned

theorem Drains.left {p : HandlerPlace} {word : BitVec 64} {n : ℕ} {admitted : Bool} (h : Drains s)
    (hi : s.requests[i]? = some p) (hp : p.counted = true) (hn : s.counted = n + 1)
    (hword : word = handlerWord s.stopped n) :
    Drains { s with handlerState := word, requests := s.requests.set i (.leaving admitted word) } := by
  have hsub : ¬ p.sawZero = true ∧ ¬ p.inside = true ∧ p.live = true := by
    cases p <;> simp_all [HandlerPlace.counted, HandlerPlace.sawZero, HandlerPlace.inside,
      HandlerPlace.live]
  obtain ⟨hsaw, hinside, hlive⟩ := hsub
  rw [Bool.not_eq_true] at hsaw hinside
  have hlimit := h.counted_le
  have hseen : (stopBit word && countIsZero word) = (s.stopped && decide (n = 0)) := by
    rw [hword, stopBit_handlerWord (by omega), countIsZero_handlerWord (by omega)]
  have moved := fun f => countP_moved (q := .leaving admitted word) f hi
  have hcounted : (s.requests.set i (.leaving admitted word)).countP HandlerPlace.counted = n := by
    have hmoved := moved HandlerPlace.counted
    rw [hp] at hmoved
    exact Nat.succ.inj (hmoved.trans hn)
  have haccepted := moved HandlerPlace.accepted
  have hsawZero := moved HandlerPlace.sawZero
  have hin := moved HandlerPlace.inside
  rw [hsaw] at hsawZero
  rw [hinside] at hin
  simp only [HandlerPlace.accepted, HandlerPlace.sawZero, HandlerPlace.inside, hseen,
    Bool.toNat_false, Nat.add_zero] at haccepted hsawZero hin
  constructor
  · change word = handlerWord s.stopped ((s.requests.set i _).countP HandlerPlace.counted)
    rw [hcounted]
    exact hword
  · have hmoved := moved HandlerPlace.live
    have hfew := h.few
    rw [hlive] at hmoved
    change (s.requests.set i _).countP HandlerPlace.live ≤ goroutineLimit
    exact Nat.succ.inj hmoved ▸ hfew
  · have hle : (s.requests.set i (.leaving admitted word)).countP HandlerPlace.accepted ≤ n :=
      hcounted ▸ accepted_le_counted
        { s with handlerState := word, requests := s.requests.set i (.leaving admitted word) }
    have htally := h.tally
    rw [hn] at htally
    have hleft := htally.leave (by unfold accepted; omega) hle
    simp only [stopped, counted, accepted, sawZero, inside, hcounted, hin, hsawZero] at hleft ⊢
    rw [Nat.add_right_comm] at hleft
    exact hleft
  · exact h.returned

theorem Drains.leaveHandler {p : HandlerPlace} (h : Drains s) (hi : s.requests[i]? = some p)
    (hp : p.counted = true) (admitted : Bool) : Drains (s.leaveHandler i admitted) := by
  obtain ⟨n, hn⟩ : ∃ n, s.counted = n + 1 := by
    apply Nat.exists_eq_add_one.mpr
    exact List.countP_pos_iff.mpr ⟨p, List.mem_of_getElem? hi, hp⟩
  apply h.left hi hp hn
  rw [h.word, hn, handlerWord_pred]

theorem Drains.closeHandlerAdmission (h : Drains s) : Drains s.closeHandlerAdmission := by
  have hstopped : s.closeHandlerAdmission.stopped = true := by
    simp [stopped, Server.closeHandlerAdmission]
  have hzero : countIsZero s.handlerState = decide (s.counted = 0) := by
    rw [h.word, countIsZero_handlerWord h.counted_le]
  constructor
  · rw [hstopped]
    change s.handlerState ||| handlerStoppingBit = handlerWord true s.counted
    rw [h.word, handlerWord_or h.counted_le]
  · exact h.few
  · rw [hstopped]
    have hsaw : s.closeHandlerAdmission.sawZero = s.sawZero + (decide (s.counted = 0)).toNat := by
      simp only [sawZero, Server.closeHandlerAdmission, countP_joined, StopPlace.sawZero, hzero]
      omega
    have hinside : s.closeHandlerAdmission.inside = s.inside := by
      simp only [inside, Server.closeHandlerAdmission, countP_joined, StopPlace.inside,
        Bool.toNat_false, Nat.add_zero]
    rw [hsaw, hinside]
    exact h.tally.sealAdmission
  · intro hmem
    apply h.returned
    simpa [Server.closeHandlerAdmission] using hmem

theorem Drains.request_moved {p q : HandlerPlace} {once : Once} {closes : ℕ} (h : Drains s)
    (hi : s.requests[i]? = some p) (hcounted : q.counted = p.counted) (hlive : q.live → p.live)
    (haccepted : q.accepted = p.accepted)
    (htally : ∀ saw inside, s.sawZero = saw + p.sawZero.toNat → s.inside = inside + p.inside.toNat →
      Tallied s.stopped once closes s.counted s.accepted (saw + q.sawZero.toNat)
        (inside + q.inside.toNat))
    (honce : s.handlerDoneOnce = .done → once = .done) :
    Drains { s with
      requests := s.requests.set i q, handlerDoneOnce := once, handlersDone := closes } := by
  have moved := fun f => countP_moved (q := q) f hi
  have hcount : (s.requests.set i q).countP HandlerPlace.counted = s.counted := by
    have := moved HandlerPlace.counted
    rw [hcounted] at this
    exact Nat.add_right_cancel this
  have hacc : (s.requests.set i q).countP HandlerPlace.accepted = s.accepted := by
    have := moved HandlerPlace.accepted
    rw [haccepted] at this
    exact Nat.add_right_cancel this
  constructor
  · change s.handlerState = handlerWord s.stopped ((s.requests.set i q).countP _)
    rw [hcount]
    exact h.word
  · change (s.requests.set i q).countP HandlerPlace.live ≤ goroutineLimit
    have hmoved := moved HandlerPlace.live
    have hfew := h.few
    have : q.live.toNat ≤ p.live.toNat := by
      cases hq : q.live
      · exact Nat.zero_le _
      · rw [hlive hq]
    omega
  · obtain ⟨saw, hsaw, hsaw'⟩ := exists_countP_others HandlerPlace.sawZero q hi
    obtain ⟨inside, hin, hin'⟩ := exists_countP_others HandlerPlace.inside q hi
    have hnext := htally (saw + s.stops.countP StopPlace.sawZero)
      (inside + s.stops.countP StopPlace.inside) (by rw [sawZero, hsaw, Nat.add_right_comm])
      (by rw [Server.inside, hin, Nat.add_right_comm])
    rw [Nat.add_right_comm, ← hsaw', Nat.add_right_comm, ← hin', ← hcount, ← hacc] at hnext
    exact hnext
  · intro hmem
    exact honce (h.returned hmem)

theorem Drains.stopper_moved {p q : StopPlace} {once : Once} {closes : ℕ} (h : Drains s)
    (hj : s.stops[j]? = some p)
    (htally : ∀ saw inside, s.sawZero = saw + p.sawZero.toNat → s.inside = inside + p.inside.toNat →
      Tallied s.stopped once closes s.counted s.accepted (saw + q.sawZero.toNat)
        (inside + q.inside.toNat))
    (honce : s.handlerDoneOnce = .done ∨ q = .returned → once = .done) :
    Drains { s with
      stops := s.stops.set j q, handlerDoneOnce := once, handlersDone := closes } := by
  have hstopped : (!(s.stops.set j q).isEmpty) = s.stopped := by
    rw [stopped, Bool.eq_iff_iff]
    simp
  constructor
  · change s.handlerState = handlerWord (!(s.stops.set j q).isEmpty) s.counted
    rw [hstopped]
    exact h.word
  · exact h.few
  · obtain ⟨saw, hsaw, hsaw'⟩ := exists_countP_others StopPlace.sawZero q hj
    obtain ⟨inside, hin, hin'⟩ := exists_countP_others StopPlace.inside q hj
    have hnext := htally (s.requests.countP HandlerPlace.sawZero + saw)
      (s.requests.countP HandlerPlace.inside + inside) (by rw [sawZero, hsaw, Nat.add_assoc])
      (by rw [Server.inside, hin, Nat.add_assoc])
    rw [Nat.add_assoc, ← hsaw', Nat.add_assoc, ← hin', ← hstopped] at hnext
    exact hnext
  · intro hmem
    rcases List.mem_or_eq_of_mem_set hmem with hmem | heq
    · exact honce (.inl (h.returned hmem))
    · exact honce (.inr heq.symm)

theorem handlerDoneOnceDo_eq {call : OnceCall} {rest : Option OnceCall}
    (hdo : s.handlerDoneOnceDo call = some (s', rest)) :
    s' = { s with handlerDoneOnce := s'.handlerDoneOnce, handlersDone := s'.handlersDone } ∧
    (s.handlerDoneOnce = .done → s'.handlerDoneOnce = .done) ∧
    (rest = none ∨ rest = some .inside) := by
  cases call with
  | calling =>
    rw [handlerDoneOnceDo] at hdo
    split at hdo
    · rename_i hfresh
      obtain ⟨rfl, rfl⟩ := Prod.mk.inj (Option.some.inj hdo)
      exact ⟨rfl, fun hdone => absurd (hfresh.symm.trans hdone) (by simp), .inr rfl⟩
    · exact absurd hdo (by simp)
    · obtain ⟨rfl, rfl⟩ := Prod.mk.inj (Option.some.inj hdo)
      exact ⟨rfl, id, .inl rfl⟩
  | inside =>
    obtain ⟨rfl, rfl⟩ := Prod.mk.inj (Option.some.inj hdo)
    exact ⟨rfl, fun _ => rfl, .inl rfl⟩

theorem handlerDoneOnceDo_tally {call : OnceCall} {rest : Option OnceCall} {saw inside : ℕ}
    (hdo : s.handlerDoneOnceDo call = some (s', rest))
    (h : Tallied s.stopped s.handlerDoneOnce s.handlersDone s.counted s.accepted (saw + 1)
      (inside + (call == .inside).toNat)) :
    Tallied s.stopped s'.handlerDoneOnce s'.handlersDone s.counted s.accepted
      (saw + rest.isSome.toNat) (inside + rest.isSome.toNat) := by
  cases call with
  | calling =>
    rw [handlerDoneOnceDo] at hdo
    split at hdo
    · rename_i hfresh
      obtain ⟨rfl, rfl⟩ := Prod.mk.inj (Option.some.inj hdo)
      rw [hfresh] at h
      exact h.enterOnce (Nat.succ_pos _)
    · exact absurd hdo (by simp)
    · rename_i hdone
      obtain ⟨rfl, rfl⟩ := Prod.mk.inj (Option.some.inj hdo)
      rw [hdone] at h ⊢
      exact h.skipOnce
  | inside =>
    obtain ⟨rfl, rfl⟩ := Prod.mk.inj (Option.some.inj hdo)
    exact h.close

theorem Drains.advance {p : HandlerPlace} (h : Drains s) (hi : s.requests[i]? = some p)
    (hstep : s.advance i p = some s') : Drains s' := by
  cases p with
  | entering state =>
    rw [Server.advance] at hstep
    split_ifs at hstep with hbit
    · exact Option.some.inj hstep ▸ h.leaveHandler hi rfl false
    · obtain rfl := Option.some.inj hstep
      apply h.request_moved hi
      · rfl
      · exact fun _ => rfl
      · simp [HandlerPlace.accepted, hbit]
      · intro saw inside hsaw hinside
        exact hsaw ▸ hinside ▸ h.tally
      · exact id
  | running => exact Option.some.inj hstep ▸ h.leaveHandler hi rfl true
  | leaving admitted state =>
    rw [Server.advance] at hstep
    split_ifs at hstep with hseen
    · obtain rfl := Option.some.inj hstep
      apply h.request_moved hi
      · rfl
      · exact fun _ => rfl
      · rfl
      · intro saw inside hsaw hinside
        rw [HandlerPlace.sawZero, hseen] at hsaw
        exact hsaw ▸ hinside ▸ h.tally
      · exact id
    · obtain rfl := Option.some.inj hstep
      apply h.request_moved hi
      · rfl
      · exact fun _ => rfl
      · rfl
      · intro saw inside hsaw hinside
        rw [HandlerPlace.sawZero, Bool.eq_false_of_not_eq_true hseen] at hsaw
        exact hsaw ▸ hinside ▸ h.tally
      · exact id
  | once admitted call =>
    obtain ⟨⟨t, rest⟩, hdo, rfl⟩ := Option.map_eq_some_iff.mp hstep
    obtain ⟨ht, hdone, hrest⟩ := handlerDoneOnceDo_eq hdo
    rw [ht]
    apply h.request_moved hi
    · rcases hrest with rfl | rfl <;> rfl
    · exact fun _ => rfl
    · rcases hrest with rfl | rfl <;> rfl
    · intro saw inside hsaw hinside
      have htally := @handlerDoneOnceDo_tally _ _ _ _ saw inside hdo
      rcases hrest with rfl | rfl
      · apply htally
        cases call <;> exact hsaw ▸ hinside ▸ h.tally
      · apply htally
        cases call <;> exact hsaw ▸ hinside ▸ h.tally
    · exact hdone
  | gone admitted => exact absurd hstep (by simp [Server.advance])

theorem Drains.advanceStop {p : StopPlace} (h : Drains s) (hj : s.stops[j]? = some p)
    (hstep : s.advanceStop j p = some s') : Drains s' := by
  cases p with
  | sealed old =>
    obtain rfl := Option.some.inj hstep
    apply h.stopper_moved hj
    · intro saw inside hsaw hinside
      rw [StopPlace.sawZero] at hsaw
      cases hzero : countIsZero old <;> rw [hzero] at hsaw <;> exact hsaw ▸ hinside ▸ h.tally
    · rintro (hdone | hreturned)
      · exact hdone
      · split_ifs at hreturned
  | once call =>
    obtain ⟨⟨t, rest⟩, hdo, rfl⟩ := Option.map_eq_some_iff.mp hstep
    obtain ⟨ht, hdone, hrest⟩ := handlerDoneOnceDo_eq hdo
    rw [ht]
    apply h.stopper_moved hj
    · intro saw inside hsaw hinside
      have htally := @handlerDoneOnceDo_tally _ _ _ _ saw inside hdo
      rcases hrest with rfl | rfl
      · apply htally
        cases call <;> exact hsaw ▸ hinside ▸ h.tally
      · apply htally
        cases call <;> exact hsaw ▸ hinside ▸ h.tally
    · rintro (hold | hreturned)
      · exact hdone hold
      · rcases hrest with rfl | rfl <;> simp at hreturned
  | waiting =>
    rw [Server.advanceStop] at hstep
    split_ifs at hstep with hclosed
    obtain rfl := Option.some.inj hstep
    apply h.stopper_moved hj
    · intro saw inside hsaw hinside
      exact hsaw ▸ hinside ▸ h.tally
    · exact fun _ => h.tally.done_of_closed hclosed
  | returned => exact absurd hstep (by simp [Server.advanceStop])

theorem Drains.step {l : ServerLabel} (h : Drains s) (hstep : s.step l = some s') : Drains s' := by
  cases l with
  | arrive => exact h.enterHandler hstep
  | request i =>
    obtain ⟨p, hp, hadvance⟩ := Option.bind_eq_some_iff.mp hstep
    exact h.advance hp hadvance
  | stop => exact Option.some.inj hstep ▸ h.closeHandlerAdmission
  | stopper j =>
    obtain ⟨p, hp, hadvance⟩ := Option.bind_eq_some_iff.mp hstep
    exact h.advanceStop hp hadvance

def everAdmitted (s : Server) : ℕ := s.requests.countP HandlerPlace.admitted

theorem advance_admitted {p : HandlerPlace} (hp : p.accepted = false)
    (hstep : s.advance i p = some s') :
    s'.stops = s.stops ∧ ∃ q, s'.requests = s.requests.set i q ∧ q.admitted = p.admitted := by
  cases p with
  | entering state =>
    have hbit : stopBit state = true := by simpa [HandlerPlace.accepted] using hp
    rw [Server.advance, if_pos hbit, leaveHandler] at hstep
    obtain rfl := Option.some.inj hstep
    exact ⟨rfl, _, rfl, rfl⟩
  | running => exact absurd hp (by simp [HandlerPlace.accepted])
  | leaving admitted state =>
    rw [Server.advance] at hstep
    split_ifs at hstep
    · obtain rfl := Option.some.inj hstep
      exact ⟨rfl, _, rfl, rfl⟩
    · obtain rfl := Option.some.inj hstep
      exact ⟨rfl, _, rfl, rfl⟩
  | once admitted call =>
    obtain ⟨⟨t, rest⟩, hdo, rfl⟩ := Option.map_eq_some_iff.mp hstep
    obtain ⟨ht, -, hrest⟩ := handlerDoneOnceDo_eq hdo
    rw [ht]
    refine ⟨rfl, _, rfl, ?_⟩
    rcases hrest with rfl | rfl <;> rfl
  | gone admitted => exact absurd hstep (by simp [Server.advance])

theorem advanceStop_returned {p : StopPlace} (hj : s.stops[j]? = some p)
    (hmem : .returned ∈ s.stops) (hstep : s.advanceStop j p = some s') :
    s'.requests = s.requests ∧ .returned ∈ s'.stops := by
  cases p with
  | sealed old =>
    obtain rfl := Option.some.inj hstep
    exact ⟨rfl, mem_moved hmem hj (by simp)⟩
  | once call =>
    obtain ⟨⟨t, rest⟩, hdo, rfl⟩ := Option.map_eq_some_iff.mp hstep
    rw [(handlerDoneOnceDo_eq hdo).1]
    exact ⟨rfl, mem_moved hmem hj (by simp)⟩
  | waiting =>
    rw [Server.advanceStop] at hstep
    split_ifs at hstep
    obtain rfl := Option.some.inj hstep
    exact ⟨rfl, mem_moved hmem hj (by simp)⟩
  | returned => exact absurd hstep (by simp [Server.advanceStop])

theorem Drains.accepted_eq_zero (h : Drains s) (hmem : .returned ∈ s.stops) : s.accepted = 0 := by
  apply h.tally.empty
  rw [h.returned hmem]
  exact .inl (by simp)

theorem Drains.not_running (h : Drains s) (hmem : .returned ∈ s.stops) :
    .running ∉ s.requests := by
  intro hrunning
  exact List.countP_eq_zero.mp (h.accepted_eq_zero hmem) _ hrunning rfl

theorem Drains.returned_step {l : ServerLabel} (h : Drains s) (hmem : .returned ∈ s.stops)
    (hstep : s.step l = some s') : .returned ∈ s'.stops ∧ s'.everAdmitted = s.everAdmitted := by
  have hnone := List.countP_eq_zero.mp (h.accepted_eq_zero hmem)
  cases l with
  | arrive =>
    change s.enterHandler = some s' at hstep
    rw [Server.enterHandler] at hstep
    split_ifs at hstep
    obtain rfl := Option.some.inj hstep
    refine ⟨hmem, ?_⟩
    change (s.requests ++ [_]).countP HandlerPlace.admitted = _
    rw [countP_joined]
    rfl
  | request i =>
    obtain ⟨p, hp, hadvance⟩ := Option.bind_eq_some_iff.mp hstep
    have hacc := Bool.eq_false_of_not_eq_true (hnone p (List.mem_of_getElem? hp))
    obtain ⟨hstops, q, hreq, hq⟩ := advance_admitted hacc hadvance
    refine ⟨hstops ▸ hmem, ?_⟩
    have hmoved := countP_moved (q := q) HandlerPlace.admitted hp
    rw [hq] at hmoved
    rw [everAdmitted, hreq]
    exact Nat.add_right_cancel hmoved
  | stop =>
    obtain rfl := Option.some.inj hstep
    exact ⟨List.mem_append_left _ hmem, rfl⟩
  | stopper j =>
    obtain ⟨p, hp, hadvance⟩ := Option.bind_eq_some_iff.mp hstep
    obtain ⟨hreq, hmem'⟩ := advanceStop_returned hp hmem hadvance
    exact ⟨hmem', by rw [everAdmitted, hreq]; rfl⟩

/-- Every goroutine has come to its end, or waits for `handlersDone`. -/
def Quiet (s : Server) : Prop :=
  (∀ p ∈ s.requests, p.live = false) ∧ ∀ q ∈ s.stops, q = .waiting ∨ q = .returned

/-- Late arrivals do not keep the channel open: once all is quiet it is closed. -/
theorem Drains.closed_of_quiet (h : Drains s) (hstop : s.stops ≠ []) (hquiet : s.Quiet) :
    s.handlersDone = 1 := by
  obtain ⟨hrequests, hstops⟩ := hquiet
  have hcounted : s.counted = 0 := by
    apply List.countP_eq_zero.mpr
    intro p hp hcount
    have hlive := hrequests p hp
    cases p <;> simp_all [HandlerPlace.counted, HandlerPlace.live]
  have hsaw : s.sawZero = 0 := by
    apply Nat.add_eq_zero_iff.mpr
    constructor
    · apply List.countP_eq_zero.mpr
      intro p hp hzero
      have hlive := hrequests p hp
      cases p <;> simp_all [HandlerPlace.sawZero, HandlerPlace.live]
    · apply List.countP_eq_zero.mpr
      intro q hq hzero
      rcases hstops q hq with rfl | rfl <;> exact absurd hzero (by simp [StopPlace.sawZero])
  have hdone : s.handlerDoneOnce = .done := by
    apply (h.tally.last (by simpa [stopped] using hstop)).resolve_right
    omega
  rw [h.tally.closed, hdone]
  rfl

end Server

/-! The gateway. -/

structure Gateway where
  server : Server
  workers : ServiceWorkers
  deriving DecidableEq, Repr

inductive GatewayLabel
  | server (l : ServerLabel)
  | service (l : WorkersLabel)
  deriving DecidableEq, Repr

namespace Gateway

def newGateway : Gateway := ⟨.newServer, newServiceWorkers⟩

def step (g : Gateway) : GatewayLabel → Option Gateway
  | .server l => (g.server.step l).map fun s => { g with server := s }
  | .service l => (g.workers.step l).map fun w => { g with workers := w }

variable {g g' : Gateway}

theorem drains_step {l : GatewayLabel} (h : g.server.Drains ∧ g.workers.Joins)
    (hstep : g.step l = some g') : g'.server.Drains ∧ g'.workers.Joins := by
  cases l with
  | server l =>
    obtain ⟨s, hs, rfl⟩ := Option.map_eq_some_iff.mp hstep
    exact ⟨h.1.step hs, h.2⟩
  | service l =>
    obtain ⟨w, hw, rfl⟩ := Option.map_eq_some_iff.mp hstep
    exact ⟨h.1, h.2.step hw⟩

theorem drains_run {ls : List GatewayLabel} (h : g.server.Drains ∧ g.workers.Joins)
    (hrun : run step g ls = some g') : g'.server.Drains ∧ g'.workers.Joins := by
  have hguard : Along step (fun _ _ => True) g ls := along_of_forall fun _ _ _ => trivial
  exact run_invariant (fun _ _ _ h _ => drains_step h) h hguard hrun

/-- What a call of `Server.Stop` that has returned leaves for every later moment. -/
theorem server_returned_run {ls : List GatewayLabel} (h : g.server.Drains ∧ g.workers.Joins)
    (hmem : .returned ∈ g.server.stops) (hrun : run step g ls = some g') :
    .returned ∈ g'.server.stops ∧ g'.server.everAdmitted = g.server.everAdmitted := by
  induction ls generalizing g with
  | nil =>
    obtain rfl := Option.some.inj hrun
    exact ⟨hmem, rfl⟩
  | cons l ls ih =>
    obtain ⟨g₁, hstep, hrest⟩ := run_cons_eq_some.mp hrun
    have hfirst : .returned ∈ g₁.server.stops ∧
        g₁.server.everAdmitted = g.server.everAdmitted := by
      cases l with
      | server l =>
        obtain ⟨s, hs, rfl⟩ := Option.map_eq_some_iff.mp hstep
        exact h.1.returned_step hmem hs
      | service l =>
        obtain ⟨w, hw, rfl⟩ := Option.map_eq_some_iff.mp hstep
        exact ⟨hmem, rfl⟩
    obtain ⟨hlast, hcount⟩ := ih (drains_step h hstep) hfirst.1 hrest
    exact ⟨hlast, hcount.trans hfirst.2⟩

theorem service_returned_run {ls : List GatewayLabel} (h : g.server.Drains ∧ g.workers.Joins)
    (hmem : .returned ∈ g.workers.stops) (hrun : run step g ls = some g') :
    .returned ∈ g'.workers.stops ∧ g'.workers.tasks.length = g.workers.tasks.length := by
  induction ls generalizing g with
  | nil =>
    obtain rfl := Option.some.inj hrun
    exact ⟨hmem, rfl⟩
  | cons l ls ih =>
    obtain ⟨g₁, hstep, hrest⟩ := run_cons_eq_some.mp hrun
    have hfirst : .returned ∈ g₁.workers.stops ∧
        g₁.workers.tasks.length = g.workers.tasks.length := by
      cases l with
      | server l =>
        obtain ⟨s, hs, rfl⟩ := Option.map_eq_some_iff.mp hstep
        exact ⟨hmem, rfl⟩
      | service l =>
        obtain ⟨w, hw, rfl⟩ := Option.map_eq_some_iff.mp hstep
        exact h.2.returned_step hmem hw
    obtain ⟨hlast, hcount⟩ := ih (drains_step h hstep) hfirst.1 hrest
    exact ⟨hlast, hcount.trans hfirst.2⟩

/-- Shutdown joins everything. Whatever has happened so far, and whatever happens
afterwards: when a `Server.Stop` has returned no handler runs and none is admitted
any more; `handlersDone` is closed at most once, has been closed when a `Stop`
returns, and is closed whenever admission is sealed and all goroutines have come to
rest; and when a `Service.Stop` has returned no background task runs and none is
admitted any more. -/
theorem shutdown_joins_everything {before after : List GatewayLabel}
    (hbefore : run step newGateway before = some g) (hafter : run step g after = some g') :
    (.returned ∈ g.server.stops →
      .running ∉ g'.server.requests ∧ g'.server.everAdmitted = g.server.everAdmitted ∧
      g.server.handlersDone = 1) ∧
    g.server.handlersDone ≤ 1 ∧
    (g.server.stops ≠ [] → g.server.Quiet → g.server.handlersDone = 1) ∧
    (.returned ∈ g.workers.stops →
      .running ∉ g'.workers.tasks ∧ g'.workers.tasks.length = g.workers.tasks.length) := by
  have hinv := drains_run ⟨Server.drains_new, ServiceWorkers.joins_new⟩ hbefore
  have hlater := drains_run hinv hafter
  refine ⟨fun hmem => ?_, hinv.1.tally.closes_le_one, hinv.1.closed_of_quiet, fun hmem => ?_⟩
  · obtain ⟨hmem', hadmitted⟩ := server_returned_run hinv hmem hafter
    have htally := hinv.1.tally
    rw [hinv.1.returned hmem] at htally
    exact ⟨hlater.1.not_running hmem', hadmitted, htally.closes_eq_one⟩
  · obtain ⟨hmem', htasks⟩ := service_returned_run hinv hmem hafter
    exact ⟨hlater.2.not_running hmem', htasks⟩

/-- A handler and a background task are running when both are stopped, the service
twice. A late request counts itself before the handler leaves, so that the handler
does not see zero and the late request closes the channel. -/
def lateArrival : List GatewayLabel :=
  [.server .arrive, .server (.request 0), .service .begin, .server .stop, .server (.stopper 0),
    .server .arrive, .server (.request 0), .server (.request 0), .server (.request 1),
    .server (.request 1), .server (.request 1), .server (.request 1), .server (.stopper 0),
    .service .stop, .service .stop, .service .begin, .service (.done 0), .service (.stopper 0),
    .service (.stopper 0), .service (.stopper 1)]

theorem shutdown_joins_late_arrival :
    ∃ g, run step newGateway lateArrival = some g ∧ .returned ∈ g.server.stops ∧
      .returned ∈ g.workers.stops ∧ g.server.everAdmitted = 1 ∧ .running ∉ g.server.requests ∧
      .running ∉ g.workers.tasks ∧ g.server.handlersDone = 1 := by
  obtain ⟨g, hrun, hserver, hservice, hone⟩ : ∃ g, run step newGateway lateArrival = some g ∧
      .returned ∈ g.server.stops ∧ .returned ∈ g.workers.stops ∧ g.server.everAdmitted = 1 :=
    exists_run_of_any (by decide +kernel)
  have hjoined := shutdown_joins_everything hrun (run_nil g)
  exact ⟨g, hrun, hserver, hservice, hone, (hjoined.1 hserver).1, (hjoined.2.2.2 hservice).1,
    (hjoined.1 hserver).2.2⟩

end Gateway

end TagGateway.Handlers
