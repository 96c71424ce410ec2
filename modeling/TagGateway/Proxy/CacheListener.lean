import TagGateway.Proxy.Coalescing
import TagGateway.Proxy.StreamPut

/-!
# The cache as a listener of a fetch

While a fetch is broadcast, the cache listens like any client. Four processes pass
the bytes on: the owner takes chunks from the listener and queues them, the writer
moves them from the queue into a pipe, and the store reads the pipe. Each can be
overtaken by a deadline, by a failure of its own, or by one of the others giving
up. A label is one atomic action of one of them, or of the fetch itself.
-/
namespace TagGateway.Proxy.CacheListener

open Foundation Cache Broadcast Coalescing

/-- An error that looks like the end of a value is wrapped. -/
def cachePipeReadError (e : ReadError) : ReadError :=
  if e = .eof ∨ e = .unexpectedEOF then .wrapped e else e

inductive Owner where
  | unattached
  | waitForHeaders
  | relaying
  /-- It left the loop and releases what is still sent to it. -/
  | discarding (chunkErr relayErr : Option StreamError)
  | waitForWriter (chunkErr relayErr : Option StreamError)
  | waitForStore
  | finished
deriving DecidableEq

inductive Writer where
  | waitForReader
  | idle
  /-- A write of which this is not read yet. -/
  | writing (left : Bytes)
  | draining (err : ReadError)
  | done (err : Option ReadError)
deriving DecidableEq

inductive StoreTask where
  | idle
  | reading (m : CachedObjectMeta)
  | finished (result : PutResult)
deriving DecidableEq

structure World where
  stream : Coalescing.Stream
  owner : Owner := .unattached
  queue : List Bytes := []
  queueClosed : Bool := false
  writer : Writer := .waitForReader
  taken : Bytes := []
  ready : Bool := false
  closed : Option ReadError := none
  readClosed : Option ReadError := none
  expired : Bool := false
  store : StoreTask := .idle

inductive FetchStep where
  | join (i : ℕ)
  | client (i : ℕ) (l : Listener)
  | answer
  | read (n : ℕ)
  | complete (err : Option StreamError)

inductive OwnerStep where
  | attach
  | headers (now : ℤ)
  | cancel
  | relay
  | relayExpired
  | discard
  | closePipe

inductive WriterStep where
  | start
  | expired
  | next

inductive StoreStep where
  | read (n : ℕ)
  /-- The put came to the end of the pipe. -/
  | returns (env : StoreEnv)
  /-- The put gave up, or there was nothing to put. -/
  | stops (err : Option ℕ)

inductive Label where
  | fetch (s : FetchStep)
  | owner (s : OwnerStep)
  | writer (s : WriterStep)
  | store (s : StoreStep)
  | expire

section

variable (cfg : Config) (rcfg : ReadConfig) (errors : ℕ → ReadError) (r : ReadRequest)
  (resp : Response)

/-- The error behind a stream's error; `errors` are those of reading upstream. -/
def streamError : StreamError → ReadError
  | .fetch code => errors code
  | .slowConsumer => .failure 1
  | .completedBeforeHeaders => .failure 2
  | .canceled => .failure 0

def cacheQueueSize : ℤ :=
  if rcfg.channelBuffer.tdiv 4 < 64 then 64 else rcfg.channelBuffer.tdiv 4

def shouldCache : Bool :=
  resp.status == 200 && rcfg.cacheEnabled && !hasNoCacheHeaders resp.header &&
    isWithinSizeThreshold cfg resp

def stepFetch (st : Coalescing.Stream) : FetchStep → Option Coalescing.Stream
  | .join i => (st.broadcaster.subscribe (.client i)).map fun bc => { st with broadcaster := bc }
  | .client i l => some { st with broadcaster := st.broadcaster.setListener (.client i) l }
  | .answer =>
    if st.rest = none ∧ st.broadcaster.done = false then some (st.answer r resp) else none
  | .read n => st.rest.bind fun body =>
    if st.broadcaster.done = false then some (st.read body n) else none
  | .complete err =>
    -- a clean end is the end of upstream's body
    if st.broadcaster.done = false ∧ (err = none → st.rest = some []) then some (st.complete err)
    else none

namespace World

def setListener (w : World) (l : Listener) : World :=
  { w with stream :=
    { w.stream with broadcaster := w.stream.broadcaster.setListener .cache l } }

def listener (w : World) : Option Listener := w.stream.broadcaster.table .cache

/-- The headers are there: build the row and start the put, or leave. -/
def onHeaders (w : World) (now : ℤ) (l : Listener) : Option World :=
  if l.headerReady then
    match l.headerErr, l.headers with
    | some e, _ => some { w with owner := .finished, closed := some (streamError errors e) }
    | none, some (status, header) =>
      let m := responseMeta cfg status header now
      if m.isCacheable cfg.sizeThreshold then
        some { w with owner := .relaying, store := .reading m }
      else some { w with owner := .finished, closed := some .eof }
    | none, none => none
  else none

/-- One iteration of the chunk loop; it waits while the queue is full. -/
def relay (w : World) (l : Listener) : Option World :=
  match l.queue with
  | c :: queue =>
    let w' := w.setListener { l with queue := queue }
    match c.err with
    | some e => some { w' with owner := .discarding (some e) none }
    | none =>
      if c.data = [] then some w'
      else if (w.queue.length : ℤ) < cacheQueueSize rcfg then
        some { w' with queue := w.queue ++ [c.data] }
      else none
  | [] =>
    if l.closed then some { w with owner := .waitForWriter l.termErr none, queueClosed := true }
    else none

def relayExpired (w : World) (l : Listener) : Option World :=
  match l.queue with
  | c :: queue =>
    if w.expired ∧ c.err = none ∧ c.data ≠ [] then
      some { w.setListener { l with queue := queue } with
        owner := .discarding none (some .canceled) }
    else none
  | [] => none

def discard (w : World) (chunkErr relayErr : Option StreamError) (l : Listener) : Option World :=
  match l.queue with
  | _ :: queue => some (w.setListener { l with queue := queue })
  | [] =>
    if l.closed then some { w with owner := .waitForWriter chunkErr relayErr, queueClosed := true }
    else none

/-- How the pipe is closed once the writer is done. -/
def pipeEnd (chunkErr relayErr : Option StreamError) (writeErr : Option ReadError) : ReadError :=
  match chunkErr, writeErr, relayErr with
  | some e, _, _ => cachePipeReadError (streamError errors e)
  | none, some e, _ => cachePipeReadError e
  | none, none, some e => cachePipeReadError (streamError errors e)
  | none, none, none => .eof

def stepOwner (w : World) : OwnerStep → Option World
  | .attach =>
    if w.owner = .unattached ∧ w.stream.rest = none ∧ shouldCache cfg rcfg resp then
      (w.stream.broadcaster.subscribe .cache).map fun bc =>
        { w with stream := { w.stream with broadcaster := bc }, owner := .waitForHeaders }
    else none
  | .headers now =>
    if w.owner = .waitForHeaders then w.listener.bind (w.onHeaders cfg errors now) else none
  | .cancel =>
    if w.owner = .waitForHeaders then
      some { w with owner := .finished, closed := some (streamError errors .canceled) }
    else none
  | .relay => if w.owner = .relaying then w.listener.bind (w.relay rcfg) else none
  | .relayExpired => if w.owner = .relaying then w.listener.bind w.relayExpired else none
  | .discard =>
    match w.owner with
    | .discarding chunkErr relayErr => w.listener.bind (w.discard chunkErr relayErr)
    | _ => none
  | .closePipe =>
    match w.owner, w.writer with
    | .waitForWriter chunkErr relayErr, .done writeErr =>
      some { w with
        owner := .waitForStore, closed := some (pipeEnd errors chunkErr relayErr writeErr) }
    | _, _ => none

def stepWriter (w : World) : WriterStep → Option World
  | .start =>
    if w.writer = .waitForReader ∧ w.ready then some { w with writer := .idle } else none
  | .expired =>
    if w.writer = .waitForReader ∧ w.store ≠ .idle ∧ w.expired then
      some { w with writer := .draining (streamError errors .canceled) }
    else none
  | .next =>
    match w.writer, w.queue with
    | .idle, chunk :: queue => some { w with writer := .writing chunk, queue := queue }
    | .idle, [] => if w.queueClosed then some { w with writer := .done none } else none
    | .writing [], _ => some { w with writer := .idle }
    | .writing _, _ => w.readClosed.map fun e => { w with writer := .draining e }
    | .draining _, _ :: queue => some { w with queue := queue }
    | .draining e, [] => if w.queueClosed then some { w with writer := .done (some e) } else none
    | _, _ => none

/-- The put is over: the read end is closed, and a failure ends the context. -/
def finishPut (w : World) (result : PutResult) : World :=
  { w with
    store := .finished result
    readClosed := some (.failure 3)
    expired := w.expired || result.err.isSome }

def stepStore (w : World) : StoreStep → Option World
  | .read n =>
    match w.store, w.writer with
    | .reading _, .writing left =>
      some { w with ready := true, taken := w.taken ++ left.take n, writer := .writing (left.drop n) }
    | .reading _, _ => some { w with ready := true }
    | _, _ => none
  | .returns env =>
    match w.store, w.closed with
    | .reading m, some ending => some (w.finishPut (env.putFullObject m cfg ⟨w.taken, ending⟩))
    | _, _ => none
  | .stops err =>
    match w.store with
    | .reading _ => some (w.finishPut { err := err.map .store })
    | _ => none

def step (w : World) : Label → Option World
  | .fetch s => (stepFetch r resp w.stream s).map fun st => { w with stream := st }
  | .owner s => w.stepOwner cfg rcfg errors resp s
  | .writer s => w.stepWriter errors s
  | .store s => w.stepStore cfg s
  | .expire => some { w with expired := true }

def initial (registered : Bool) : World where
  stream := freshStream rcfg registered

end World
end
end TagGateway.Proxy.CacheListener
