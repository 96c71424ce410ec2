import TagGateway.Broadcast.Broadcaster
import TagGateway.Proxy.Admission
import TagGateway.Proxy.ReadRoute

/-!
# Concurrent reads and the fetches they share

Any number of GETs and HEADs run at once. A full-object GET that misses the
cache asks the broadcast manager for a running fetch of its key; it either joins
that fetch as a listener or fetches itself. Every label is one atomic action of
one request, of the fetch it started, or an outcome the environment chooses:
the entry the cache returned, what reading its body gave, what upstream
answered. Requests, and the fetches they start, are named by numbers; `reqs`
says which request a number stands for.
-/
namespace TagGateway.Proxy.Coalescing

open Foundation Cache Broadcast

/-- What passing a response on to the client came to. `head` is the status and
header that were written, if any were; `err` ended the response early. -/
structure Delivery where
  head : Option (ℕ × Header)
  body : Bytes
  err : Option StreamError
deriving DecidableEq

/-- A part of a body served for an entry: stored under the entry's version, or
fetched with the gateway's credentials for a block that is missing. -/
inductive BodyPart where
  | stored (data : Bytes)
  | fetched (resp : Response)
deriving DecidableEq

/-- The version test a block fetch makes before it uses a response. -/
def BodyPart.ofVersion (m : CachedObjectMeta) : BodyPart → Bool
  | .stored _ => true
  | .fetched resp =>
    decide (0 < m.blockSize) && resp.status == 206 && resp.header.get (ascii "ETag") != [] &&
      resp.header.get (ascii "ETag") == m.etag

inductive Reply where
  | notModified (m : CachedObjectMeta)
  | cached (m : CachedObjectMeta) (parts : List BodyPart) (err : Option StreamError)
  | revalidated (resp : Response) (err : Option StreamError)
  | upstream (xCache : XCache) (d : Delivery)
deriving DecidableEq

/-- How serving an entry ended. Whether the client's validators match is left
to the environment. -/
inductive ServeOutcome where
  | notModified
  | body (parts : List BodyPart) (err : Option StreamError)
  | unavailable
deriving DecidableEq

/-- The state of `writeChunksToResponse`. -/
structure Receiver where
  head : Option (ℕ × Header) := none
  committed : Bool := false
  body : Bytes := []
deriving DecidableEq

inductive Phase where
  | looking
  | routed (route : Route)
  | found (b : ℕ)
  | created
  | receiving (b : ℕ) (rcv : Receiver)
  | finished (reply : Reply)
deriving DecidableEq

inductive Subscriber where
  | client (i : ℕ)
  | cache
deriving DecidableEq

/-- A fetch and its broadcast. `rest` is what is left of upstream's body once it
has answered. -/
structure Stream where
  broadcaster : Broadcaster Subscriber
  rest : Option Bytes := none
  registered : Bool

structure World where
  active : Bytes → Option ℕ
  streams : ℕ → Option Stream
  phases : ℕ → Option Phase

inductive Label where
  | arrive (i : ℕ)
  | lookup (i : ℕ) (entry : Option CachedObjectMeta)
  | serve (i : ℕ) (outcome : ServeOutcome)
  /-- The conditional request was answered, or failed. -/
  | revalidate (i : ℕ) (resp : Option Response) (err : Option StreamError)
  | forward (i : ℕ) (d : Delivery)
  | getOrCreate (i : ℕ)
  | subscribe (i : ℕ)
  | attachCache (i : ℕ)
  | answer (i : ℕ) (resp : Response)
  | read (i : ℕ) (n : ℕ)
  | complete (i : ℕ) (err : Option StreamError)
  | drainCache (i : ℕ)
  | receive (i : ℕ)
  | cancel (i : ℕ)
  | remove (i : ℕ)
deriving DecidableEq

def Label.owner : Label → ℕ
  | .arrive i | .lookup i _ | .serve i _ | .revalidate i _ _ | .forward i _ | .getOrCreate i
  | .subscribe i | .attachCache i | .answer i _ | .read i _ | .complete i _ | .drainCache i
  | .receive i | .cancel i | .remove i => i

namespace Receiver

def delivery (rcv : Receiver) (err : Option StreamError) : Delivery :=
  ⟨if rcv.committed then rcv.head else none, rcv.body, err⟩

/-- One iteration of `writeChunksToResponse`: what is left in the listener, and
the receiver or the finished response. It waits while the listener has nothing
for it. -/
def step (rcv : Receiver) (l : Listener) : Option (Listener × (Receiver ⊕ Delivery)) :=
  match rcv.head with
  | none =>
    if l.headerReady then
      match l.headerErr with
      | some e => some (l, .inr (rcv.delivery (some e)))
      | none => some (l, .inl { rcv with head := l.headers })
    else none
  | some head =>
    match l.queue with
    | c :: queue =>
      match c.err with
      | some e => some ({ l with queue := queue }, .inr (rcv.delivery (some e)))
      | none => some ({ l with queue := queue }, .inl { rcv with
          committed := rcv.committed || c.data != [], body := rcv.body ++ c.data })
    | [] =>
      if l.closed then
        match l.termErr with
        | some e => some (l, .inr (rcv.delivery (some e)))
        | none => some (l, .inr ⟨some head, rcv.body, none⟩)
      else none

/-- The client is gone. Headers that are ready win over the cancellation. -/
def cancel (rcv : Receiver) (l : Listener) : Option Delivery :=
  if rcv.head = none ∧ l.headerReady = true ∧ l.headerErr = none then none
  else some (rcv.delivery (some .canceled))

end Receiver

namespace Stream

/-- The fetch of request `i` runs: it starts once `i` listens itself. -/
def running (st : Stream) (i : ℕ) : Bool :=
  (st.broadcaster.table (.client i)).isSome && !st.broadcaster.done

theorem not_done_of_running {st : Stream} {i : ℕ} (h : st.running i = true) :
    st.broadcaster.done = false := by
  simp only [running, Bool.and_eq_true, Bool.not_eq_true'] at h
  exact h.2

/-- Upstream answered. A full unsigned read marks the object public. -/
def answer (st : Stream) (r : ReadRequest) (resp : Response) : Stream :=
  { st with
    broadcaster := st.broadcaster.setHeaders resp.status
      (withInferredACL (resp.status == 200 && r.hasNoAuthCredentials) resp.header)
    rest := some resp.body }

def read (st : Stream) (body : Bytes) (n : ℕ) : Stream :=
  { st with broadcaster := st.broadcaster.broadcast (body.take n), rest := some (body.drop n) }

def complete (st : Stream) (err : Option StreamError) : Stream :=
  { st with broadcaster := st.broadcaster.complete err }

def receive (st : Stream) (i : ℕ) (rcv : Receiver) : Option (Stream × (Receiver ⊕ Delivery)) :=
  (st.broadcaster.table (.client i)).bind fun l =>
    (rcv.step l).map fun p =>
      ({ st with broadcaster := st.broadcaster.setListener (.client i) p.1 }, p.2)

def cancel (st : Stream) (i : ℕ) (rcv : Receiver) : Option Delivery :=
  (st.broadcaster.table (.client i)).bind rcv.cancel

end Stream

def setPhase (w : World) (i : ℕ) (phase : Phase) : World :=
  { w with phases := Function.update w.phases i (some phase) }

def setStream (w : World) (b : ℕ) (st : Stream) : World :=
  { w with streams := Function.update w.streams b (some st) }

variable (cfg : ReadConfig) (reqs : ℕ → ReadRequest)

def freshStream (registered : Bool) : Stream :=
  { broadcaster := .new cfg.channelBuffer, registered := registered }

/-- Whether serving may end this way: validators are looked at for a HEAD and for
a full-object hit, a HEAD needs no body, and a body has only parts of the
entry's version. -/
def serveAllowed (r : ReadRequest) (m : CachedObjectMeta) (revalidated : Bool) :
    ServeOutcome → Bool
  | .notModified => r.method == .head || (!revalidated && r.rangeHeader == [])
  | .body parts _ => parts.all (·.ofVersion m)
  | .unavailable => r.method == .get

def afterServe (r : ReadRequest) (m : CachedObjectMeta) (revalidated : Bool) :
    ServeOutcome → Phase
  | .notModified => .finished (.notModified m)
  | .body parts err => .finished (.cached m parts err)
  | .unavailable => .routed (fallbackRoute cfg r revalidated)

/-- The conditional request found a new version: a full one, or a range of it
for a GET. -/
def changed (r : ReadRequest) (resp : Option Response) : Bool :=
  resp.any fun resp => resp.status == 200 || (r.method == .get && resp.status == 206)

def afterRevalidate (r : ReadRequest) (m : CachedObjectMeta) (resp : Option Response)
    (err : Option StreamError) : Phase :=
  match resp with
  | some new => if changed r resp then .finished (.revalidated new err)
    else .routed (.serve m true)
  | none => .routed (.serve m true)

theorem afterRevalidate_of_unchanged {r : ReadRequest} {m : CachedObjectMeta}
    {resp : Option Response} {err : Option StreamError} (h : changed r resp = false) :
    afterRevalidate r m resp err = .routed (.serve m true) := by
  cases resp with
  | none => rfl
  | some new => exact if_neg (by simp [h])

/-- The broadcast registered under `key` that can still be joined. -/
def joinable (w : World) (key : Bytes) : Option ℕ :=
  (w.active key).filter fun b => (w.streams b).any fun st => !st.broadcaster.streaming

def afterReceive (r : ReadRequest) (b : ℕ) : Receiver ⊕ Delivery → Phase
  | .inl rcv => .receiving b rcv
  | .inr d => .finished (.upstream (cacheMissStatus cfg r.shouldBypassCache) d)

/-- Join the broadcast the manager handed out. Once it streams, the request
fetches on its own, in a broadcast that is not registered. -/
def join (w : World) (i b : ℕ) (st : Stream) : World :=
  match st.broadcaster.subscribe (.client i) with
  | some bc => setPhase (setStream w b { st with broadcaster := bc }) i (.receiving b {})
  | none => setPhase (setStream w i (freshStream cfg false)) i .created

def step (w : World) : Label → Option World
  | .arrive i =>
    if w.phases i = none then
      some (setPhase w i (((arrivalRoute cfg (reqs i)).map .routed).getD .looking))
    else none
  | .lookup i entry =>
    if w.phases i = some .looking then
      some (setPhase w i (.routed (lookupRoute cfg (reqs i) entry)))
    else none
  | .serve i outcome =>
    match w.phases i with
    | some (.routed (.serve m revalidated)) =>
      if serveAllowed (reqs i) m revalidated outcome then
        some (setPhase w i (afterServe cfg (reqs i) m revalidated outcome))
      else none
    | _ => none
  | .revalidate i resp err =>
    match w.phases i with
    | some (.routed (.revalidate m)) => some (setPhase w i (afterRevalidate (reqs i) m resp err))
    | _ => none
  | .forward i d =>
    match w.phases i with
    | some (.routed (.forward xCache)) => some (setPhase w i (.finished (.upstream xCache d)))
    | _ => none
  | .getOrCreate i =>
    if w.phases i = some (.routed .coalesce) then
      match joinable w (reqs i).broadcastKey with
      | some b => some (setPhase w i (.found b))
      | none => some { setPhase (setStream w i (freshStream cfg true)) i .created with
          active := Function.update w.active (reqs i).broadcastKey (some i) }
    else none
  | .subscribe i =>
    match w.phases i with
    | some (.found b) => (w.streams b).map (join cfg w i b)
    | some .created => (w.streams i).bind fun st =>
        (st.broadcaster.subscribe (.client i)).map fun bc =>
          setPhase (setStream w i { st with broadcaster := bc }) i (.receiving i {})
    | _ => none
  | .attachCache i => (w.streams i).bind fun st =>
      if st.running i ∧ st.rest = none ∧ st.broadcaster.table .cache = none then
        (st.broadcaster.subscribe .cache).map fun bc => setStream w i { st with broadcaster := bc }
      else none
  | .answer i resp => (w.streams i).bind fun st =>
      if st.running i ∧ st.rest = none then some (setStream w i (st.answer (reqs i) resp)) else none
  | .read i n => (w.streams i).bind fun st => st.rest.bind fun body =>
      if st.running i then some (setStream w i (st.read body n)) else none
  | .complete i err => (w.streams i).bind fun st =>
      -- a clean end is the end of upstream's body
      if st.running i ∧ (err = none → st.rest = some []) then some (setStream w i (st.complete err))
      else none
  | .drainCache i => (w.streams i).bind fun st => (st.broadcaster.table .cache).map fun l =>
      setStream w i { st with
        broadcaster := st.broadcaster.setListener .cache { l with queue := l.queue.tail } }
  | .receive i =>
    match w.phases i with
    | some (.receiving b rcv) => (w.streams b).bind fun st => (st.receive i rcv).map fun p =>
        setPhase (setStream w b p.1) i (afterReceive cfg (reqs i) b p.2)
    | _ => none
  | .cancel i =>
    match w.phases i with
    | some (.receiving b rcv) => (w.streams b).bind fun st => (st.cancel i rcv).map fun d =>
        setPhase w i (afterReceive cfg (reqs i) b (.inr d))
    | _ => none
  | .remove i =>
    -- the deferred removal takes whatever is registered under the key by now
    match w.phases i, w.streams i with
    | some (.finished _), some st =>
      if st.registered then
        some { setStream w i { st with registered := false } with
          active := Function.update w.active (reqs i).broadcastKey none }
      else none
    | _, _ => none

def initial : World where
  active := fun _ => none
  streams := fun _ => none
  phases := fun _ => none

def World.reply (w : World) (i : ℕ) : Option Reply :=
  match w.phases i with
  | some (.finished reply) => some reply
  | _ => none

/-- The fetch that the manager handed to request `i`, which has not joined it
yet. -/
def World.handed (w : World) (i : ℕ) : Option ℕ :=
  match w.phases i with
  | some (.found b) => some b
  | _ => none

/-- What a step that is taken finds and does. -/
inductive Effect (w : World) : Label → World → Prop where
  | arrive {i : ℕ} (h : w.phases i = none) :
    Effect w (.arrive i) (setPhase w i (((arrivalRoute cfg (reqs i)).map .routed).getD .looking))
  | lookup {i : ℕ} {entry : Option CachedObjectMeta} (h : w.phases i = some .looking) :
    Effect w (.lookup i entry) (setPhase w i (.routed (lookupRoute cfg (reqs i) entry)))
  | serve {i : ℕ} {m : CachedObjectMeta} {revalidated : Bool} {outcome : ServeOutcome}
    (h : w.phases i = some (.routed (.serve m revalidated)))
    (hallowed : serveAllowed (reqs i) m revalidated outcome = true) :
    Effect w (.serve i outcome) (setPhase w i (afterServe cfg (reqs i) m revalidated outcome))
  | revalidate {i : ℕ} {m : CachedObjectMeta} {resp : Option Response} {err : Option StreamError}
    (h : w.phases i = some (.routed (.revalidate m))) :
    Effect w (.revalidate i resp err) (setPhase w i (afterRevalidate (reqs i) m resp err))
  | forward {i : ℕ} {xCache : XCache} {d : Delivery}
    (h : w.phases i = some (.routed (.forward xCache))) :
    Effect w (.forward i d) (setPhase w i (.finished (.upstream xCache d)))
  | find {i b : ℕ} (h : w.phases i = some (.routed .coalesce))
    (hb : joinable w (reqs i).broadcastKey = some b) :
    Effect w (.getOrCreate i) (setPhase w i (.found b))
  | create {i : ℕ} (h : w.phases i = some (.routed .coalesce))
    (hb : joinable w (reqs i).broadcastKey = none) :
    Effect w (.getOrCreate i) { setPhase (setStream w i (freshStream cfg true)) i .created with
      active := Function.update w.active (reqs i).broadcastKey (some i) }
  | join {i b : ℕ} {st : Stream} {bc : Broadcaster Subscriber} (h : w.phases i = some (.found b))
    (hst : w.streams b = some st) (hsub : st.broadcaster.subscribe (.client i) = some bc) :
    Effect w (.subscribe i)
      (setPhase (setStream w b { st with broadcaster := bc }) i (.receiving b {}))
  | late {i b : ℕ} {st : Stream} (h : w.phases i = some (.found b)) (hst : w.streams b = some st)
    (hsub : st.broadcaster.subscribe (.client i) = none) :
    Effect w (.subscribe i) (setPhase (setStream w i (freshStream cfg false)) i .created)
  | start {i : ℕ} {st : Stream} {bc : Broadcaster Subscriber} (h : w.phases i = some .created)
    (hst : w.streams i = some st) (hsub : st.broadcaster.subscribe (.client i) = some bc) :
    Effect w (.subscribe i)
      (setPhase (setStream w i { st with broadcaster := bc }) i (.receiving i {}))
  | attachCache {i : ℕ} {st : Stream} {bc : Broadcaster Subscriber} (hst : w.streams i = some st)
    (hrun : st.running i = true) (hrest : st.rest = none)
    (hsub : st.broadcaster.subscribe .cache = some bc) :
    Effect w (.attachCache i) (setStream w i { st with broadcaster := bc })
  | answer {i : ℕ} {st : Stream} {resp : Response} (hst : w.streams i = some st)
    (hrun : st.running i = true) (hrest : st.rest = none) :
    Effect w (.answer i resp) (setStream w i (st.answer (reqs i) resp))
  | read {i n : ℕ} {st : Stream} {body : Bytes} (hst : w.streams i = some st)
    (hrun : st.running i = true) (hrest : st.rest = some body) :
    Effect w (.read i n) (setStream w i (st.read body n))
  | complete {i : ℕ} {st : Stream} {err : Option StreamError} (hst : w.streams i = some st)
    (hrun : st.running i = true) (hrest : err = none → st.rest = some []) :
    Effect w (.complete i err) (setStream w i (st.complete err))
  | drainCache {i : ℕ} {st : Stream} {l : Listener} (hst : w.streams i = some st)
    (hl : st.broadcaster.table .cache = some l) :
    Effect w (.drainCache i) (setStream w i { st with
      broadcaster := st.broadcaster.setListener .cache { l with queue := l.queue.tail } })
  | receive {i b : ℕ} {rcv : Receiver} {st st' : Stream} {next : Receiver ⊕ Delivery}
    (h : w.phases i = some (.receiving b rcv)) (hst : w.streams b = some st)
    (hrcv : st.receive i rcv = some (st', next)) :
    Effect w (.receive i) (setPhase (setStream w b st') i (afterReceive cfg (reqs i) b next))
  | cancel {i b : ℕ} {rcv : Receiver} {st : Stream} {d : Delivery}
    (h : w.phases i = some (.receiving b rcv)) (hst : w.streams b = some st)
    (hd : st.cancel i rcv = some d) :
    Effect w (.cancel i) (setPhase w i (afterReceive cfg (reqs i) b (.inr d)))
  | remove {i : ℕ} {reply : Reply} {st : Stream} (h : w.phases i = some (.finished reply))
    (hst : w.streams i = some st) :
    Effect w (.remove i) { setStream w i { st with registered := false } with
      active := Function.update w.active (reqs i).broadcastKey none }

variable {cfg reqs}

theorem step_effect {w w' : World} {l : Label} (h : step cfg reqs w l = some w') :
    Effect cfg reqs w l w' := by
  cases l with
  | arrive i =>
    simp only [step, Option.ite_none_right_eq_some, Option.some.injEq] at h
    obtain ⟨hph, rfl⟩ := h
    exact .arrive hph
  | lookup i entry =>
    simp only [step, Option.ite_none_right_eq_some, Option.some.injEq] at h
    obtain ⟨hph, rfl⟩ := h
    exact .lookup hph
  | serve i outcome =>
    simp only [step] at h
    split at h
    next m revalidated hph =>
      simp only [Option.ite_none_right_eq_some, Option.some.injEq] at h
      obtain ⟨hallowed, rfl⟩ := h
      exact .serve hph hallowed
    next => simp at h
  | revalidate i resp err =>
    simp only [step] at h
    split at h
    next m hph =>
      simp only [Option.some.injEq] at h
      exact h ▸ .revalidate hph
    next => simp at h
  | forward i d =>
    simp only [step] at h
    split at h
    next xCache hph =>
      simp only [Option.some.injEq] at h
      exact h ▸ .forward hph
    next => simp at h
  | getOrCreate i =>
    simp only [step, Option.ite_none_right_eq_some] at h
    obtain ⟨hph, h⟩ := h
    split at h
    next b hb =>
      simp only [Option.some.injEq] at h
      exact h ▸ .find hph hb
    next hb =>
      simp only [Option.some.injEq] at h
      exact h ▸ .create hph hb
  | subscribe i =>
    simp only [step] at h
    split at h
    next b hph =>
      obtain ⟨st, hst, rfl⟩ := Option.map_eq_some_iff.mp h
      unfold Coalescing.join
      split
      next bc hsub => exact .join hph hst hsub
      next hsub => exact .late hph hst hsub
    next hph =>
      obtain ⟨st, hst, h⟩ := Option.bind_eq_some_iff.mp h
      obtain ⟨bc, hsub, rfl⟩ := Option.map_eq_some_iff.mp h
      exact .start hph hst hsub
    next => simp at h
  | attachCache i =>
    obtain ⟨st, hst, h⟩ := Option.bind_eq_some_iff.mp h
    simp only [Option.ite_none_right_eq_some] at h
    obtain ⟨⟨hrun, hrest, -⟩, h⟩ := h
    obtain ⟨bc, hsub, rfl⟩ := Option.map_eq_some_iff.mp h
    exact .attachCache hst hrun hrest hsub
  | answer i resp =>
    obtain ⟨st, hst, h⟩ := Option.bind_eq_some_iff.mp h
    simp only [Option.ite_none_right_eq_some, Option.some.injEq] at h
    obtain ⟨⟨hrun, hrest⟩, rfl⟩ := h
    exact .answer hst hrun hrest
  | read i n =>
    obtain ⟨st, hst, h⟩ := Option.bind_eq_some_iff.mp h
    obtain ⟨body, hrest, h⟩ := Option.bind_eq_some_iff.mp h
    simp only [Option.ite_none_right_eq_some, Option.some.injEq] at h
    obtain ⟨hrun, rfl⟩ := h
    exact .read hst hrun hrest
  | complete i err =>
    obtain ⟨st, hst, h⟩ := Option.bind_eq_some_iff.mp h
    simp only [Option.ite_none_right_eq_some, Option.some.injEq] at h
    obtain ⟨⟨hrun, hrest⟩, rfl⟩ := h
    exact .complete hst hrun hrest
  | drainCache i =>
    obtain ⟨st, hst, h⟩ := Option.bind_eq_some_iff.mp h
    obtain ⟨l, hl, rfl⟩ := Option.map_eq_some_iff.mp h
    exact .drainCache hst hl
  | receive i =>
    simp only [step] at h
    split at h
    next b rcv hph =>
      obtain ⟨st, hst, h⟩ := Option.bind_eq_some_iff.mp h
      obtain ⟨⟨st', next⟩, hrcv, rfl⟩ := Option.map_eq_some_iff.mp h
      exact .receive hph hst hrcv
    next => simp at h
  | cancel i =>
    simp only [step] at h
    split at h
    next b rcv hph =>
      obtain ⟨st, hst, h⟩ := Option.bind_eq_some_iff.mp h
      obtain ⟨d, hd, rfl⟩ := Option.map_eq_some_iff.mp h
      exact .cancel hph hst hd
    next => simp at h
  | remove i =>
    simp only [step] at h
    split at h
    next reply st hph hst =>
      simp only [Option.ite_none_right_eq_some, Option.some.injEq] at h
      obtain ⟨-, rfl⟩ := h
      exact .remove hph hst
    next => simp at h

/-! Two reads of one key, to be evaluated. -/

def readConfig : ReadConfig where
  cacheEnabled := true
  channelBuffer := 8

def signedRead (authorization : String) : ReadRequest where
  bucket := ascii "b"
  key := ascii "k"
  header := Header.empty.set (ascii "Authorization") (ascii authorization)
  auth := .validated

def plainResponse (status : ℕ) (body : String) : Response where
  status := status
  header := .empty
  body := ascii body

/-- Request `1` joins the fetch of request `0` before upstream answers it, and
takes `n` steps when all of the answer is there. -/
def joinRun (resp : Response) (n : ℕ) : List Label :=
  [.arrive 0, .lookup 0 none, .getOrCreate 0, .subscribe 0, .arrive 1, .lookup 1 none,
    .getOrCreate 1, .subscribe 1, .answer 0 resp, .read 0 8, .complete 0 none] ++
  List.replicate n (.receive 1)

end TagGateway.Proxy.Coalescing
