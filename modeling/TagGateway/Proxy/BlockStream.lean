import TagGateway.Foundation.Slice
import TagGateway.Foundation.Source
import TagGateway.Proxy.Populate

/-!
# Streaming a range from cached blocks

A committed response is filled block by block from the cache, in order. A block
that is gone is fetched again, a few times per response; after that, or when a
read fails, the rest comes from upstream in one request. The cache, the client's
connection and upstream answer as they like: `BlockEnv` holds their answers, call
by call.
-/
namespace TagGateway.Proxy

open Foundation Cache

inductive CacheFailure where
  | notFound
  | canceled
  | other (code : ℕ)
deriving DecidableEq

/-- What the store hands out for a range and what it then reports; it reports
`afterRefusal` when the sink refuses some of it. -/
structure BackendRead where
  data : Bytes
  err : Option CacheFailure := none
  afterRefusal : Option CacheFailure := none
deriving DecidableEq

/-- How a connection takes what is written to it: this much, and with or without
an error. -/
structure WriteReply where
  count : ℕ
  fails : Bool := false
deriving DecidableEq

inductive BlockError where
  | notFound
  | etagMismatch
  | upstreamGone
  /-- Upstream can still supply what is missing. -/
  | degraded (mostlyAbsent : Bool)
  | clientWrite
  | canceled
  /-- A read that was never started was waited for. -/
  | noRead
  | other (code : ℕ)
deriving DecidableEq

namespace BlockError

def isStale : BlockError → Bool
  | .etagMismatch | .upstreamGone => true
  | _ => false

def isDegraded : BlockError → Bool
  | .degraded _ => true
  | _ => false

end BlockError

def CacheFailure.toBlockError : CacheFailure → BlockError
  | .notFound => .notFound
  | .canceled => .canceled
  | .other code => .other code

/-- A response of upstream to a ranged request; the body is read as it arrives. -/
structure RangeResponse where
  status : ℕ
  header : Header
  contentLength : ℤ
  body : Source UInt8
deriving DecidableEq

inductive PutOutcome where
  | stored
  | shed
  | failed (code : ℕ)
deriving DecidableEq

/-- How the fetch of one block goes that this request starts or joins. -/
inductive BlockFetch where
  | present
  | declined
  /-- The request was canceled before the fetch was admitted or while it ran. -/
  | canceled
  | unreachable (code : ℕ)
  | answered (resp : RangeResponse) (remote : Bool) (put : PutOutcome)
deriving DecidableEq

/-- The answers of everything outside, by the number of the call. -/
structure BlockEnv where
  cacheRead : ℕ → BlockKey → ℤ → ℤ → BackendRead
  clientWrite : ℕ → WriteReply
  fetch : ℕ → ℤ → BlockFetch
  rangeGet : ℕ → ℤ → ℤ → Except ℕ RangeResponse
  acquireStaging : ℕ → Bool
  canceled : ℕ → Bool

/-- A response while it is written: the number of the next call, and what the
client took. -/
structure Stream where
  clock : ℕ := 0
  written : Bytes := []
  invalidated : Bool := false
deriving DecidableEq

structure StreamOutcome where
  fromCache : ℕ := 0
  fetched : ℕ := 0
  remainder : Bool := false
deriving DecidableEq

def maxInlineFetchesPerServe : ℕ := 2

def maxBlockServePrefetch : ℕ := maxRangeBlockFanout

/-- What a range read reports once the store is done and `taken` bytes reached
the sink. The store may report success for a key it does not have. -/
def rangeResult (start stop : ℤ) (taken : ℕ) (err : Option CacheFailure) : Option BlockError :=
  match err with
  | some e => some e.toBlockError
  | none =>
    if taken = 0 then some .notFound
    else if 0 ≤ start ∧ start ≤ stop ∧ (taken : ℤ) ≠ stop - start + 1 then some (.other 0)
    else none

def blocksFrom (i : ℤ) : ℕ → List ℤ
  | 0 => []
  | count + 1 => i :: blocksFrom (i + 1) count

theorem mem_blocksFrom {i j : ℤ} {count : ℕ} : j ∈ blocksFrom i count ↔ i ≤ j ∧ j < i + count := by
  induction count generalizing i with
  | zero => simp [blocksFrom]
  | succ count ih =>
    rw [blocksFrom, List.mem_cons, ih]
    omega

def blockIndices (b₀ bK : ℤ) : List ℤ := blocksFrom b₀ (bK - b₀ + 1).toNat

namespace Stream

variable (env : BlockEnv)

def tick (st : Stream) : Stream := { st with clock := st.clock + 1 }

/-- The client takes the bytes of one or more writes, up to the first that
fails; a short write is reported as a failure. -/
def send (st : Stream) (data : Bytes) : Bytes × Bool × Stream :=
  if data = [] then ([], false, st)
  else
    let reply := env.clientWrite st.clock
    let taken := data.take reply.count
    (taken, reply.fails || decide (taken.length < data.length),
      { st with written := st.written ++ taken })

end Stream

section

variable (env : BlockEnv) (m : CachedObjectMeta)

/-- Read a block's slice into a buffer that holds no more than the slice; with
what landed there. Byte 0 alone is read as two bytes, the second dropped. -/
def readBlockInto (clock : ℕ) (idx localStart localEnd : ℤ) : Bytes × Option BlockError :=
  if localStart = 0 ∧ localEnd = 0 then
    let r := env.cacheRead clock (makeBlockKey m idx) 0 1
    match r.err, r.data with
    | some e, _ => ([], some e.toBlockError)
    | none, [] => ([], some .notFound)
    | none, b :: _ => ([b], none)
  else
    let r := env.cacheRead clock (makeBlockKey m idx) localStart localEnd
    let room := (localEnd - localStart + 1).toNat
    let landed := r.data.take room
    let err := if r.data.length ≤ room then r.err else r.afterRefusal
    (landed, rangeResult localStart localEnd landed.length err)

def readCachedBlockSlice (clock : ℕ) (idx localStart localEnd : ℤ) : Except BlockError Bytes :=
  match readBlockInto env m clock idx localStart localEnd with
  | (_, some e) => .error e
  | (landed, none) => .ok landed

def getBlockRangeStream (st : Stream) (idx localStart localEnd : ℤ) :
    Option BlockError × Bool × Stream :=
  if localStart = 0 ∧ localEnd = 0 then
    let r := env.cacheRead st.clock (makeBlockKey m idx) 0 1
    match r.err, r.data with
    | some e, _ => (some e.toBlockError, false, st.tick)
    | none, [] => (some .notFound, false, st.tick)
    | none, b :: _ =>
      let (_, failed, st) := st.send env [b]
      (if failed then some .clientWrite else none, failed, st.tick)
  else
    let r := env.cacheRead st.clock (makeBlockKey m idx) localStart localEnd
    let (taken, failed, st) := st.send env r.data
    let err := if failed then r.afterRefusal else r.err
    (rangeResult localStart localEnd taken.length err, failed, st.tick)

/-- The checks a fetched block passes before its bytes are used. -/
def validateBlock (idx : ℤ) (resp : RangeResponse) : Except BlockError Bytes :=
  let (bStart, bEnd) := blockBounds idx m.blockSize m.contentLength
  if resp.status = 404 then .error .upstreamGone
  else if resp.status ≠ 206 then .error (.other 1)
  else if resp.header.get (ascii "ETag") = [] then .error (.other 2)
  else if resp.header.get (ascii "ETag") ≠ m.etag then .error .etagMismatch
  else if resp.contentLength ≠ bEnd - bStart + 1 then .error (.other 3)
  else if (parseContentRange (resp.header.get (ascii "Content-Range"))).bounds ≠
      some (bStart, bEnd) then .error (.other 4)
  else
    match resp.body.readFull (bEnd - bStart + 1).toNat with
    | (.error _, _) => .error (.other 5)
    | (.ok data, _) => .ok data

namespace BlockFetch

/-- What a request that assembles its answer gets: the bytes themselves, or the
word that the block is in the cache. -/
def serveResult (idx : ℤ) : BlockFetch → Except BlockError (Option Bytes)
  | .present => .ok none
  | .declined => .error (.other 6)
  | .canceled => .error .canceled
  | .unreachable code => .error (.other code)
  | .answered resp remote put =>
    match validateBlock m idx resp with
    | .error e => .error e
    | .ok data =>
      match put with
      | .failed code => if remote then .ok (some data) else .error (.other code)
      | .stored | .shed => .ok (some data)

def cacheResult (idx : ℤ) : BlockFetch → Option BlockError
  | .present => none
  | .declined => some (.other 6)
  | .canceled => some .canceled
  | .unreachable code => some (.other code)
  | .answered resp _ put =>
    match validateBlock m idx resp with
    | .error e => some e
    | .ok _ =>
      match put with
      | .stored => none
      | .shed => some (.other 7)
      | .failed code => some (.other code)

end BlockFetch

/-- The error a group of fetches reports: a stale signal before a cancellation,
and that before any other. -/
def groupError (errs : List BlockError) : Option BlockError :=
  (errs.find? BlockError.isStale).or ((errs.find? (· = .canceled)).or errs.head?)

def fetchBlocksToCache (clock : ℕ) (idxs : List ℤ) : Option BlockError :=
  groupError (idxs.filterMap fun idx => (env.fetch clock idx).cacheResult m idx)

def Stream.afterFetch (st : Stream) (err : Option BlockError) : Stream :=
  { st.tick with invalidated := st.invalidated || err.any BlockError.isStale }

structure SequentialBlock where
  err : Option BlockError
  fetched : Bool
  fetchesLeft : ℕ
  writeErr : Bool
  stream : Stream

/-- A failure on the client's side is reported as it is, any other as one that
upstream can make up for. -/
def streamFailure (writeErr : Bool) (e : BlockError) : BlockError :=
  if writeErr then e else .degraded false

def sequentialBlock (start stop i : ℤ) (fetchesLeft : ℕ) (writeErr : Bool) (st : Stream) :
    SequentialBlock :=
  let (localStart, localEnd) := blockLocalRange i start stop m.blockSize m.contentLength
  let (berr, failed, st') := getBlockRangeStream env m st i localStart localEnd
  -- a second read may follow only a read that delivered nothing
  if berr = some .notFound ∧ st'.written.length = st.written.length then
    if fetchesLeft = 0 then ⟨some (.degraded true), false, 0, writeErr || failed, st'⟩
    else
      match fetchBlocksToCache env m st'.clock [i] with
      | some e =>
        ⟨some (if e.isStale then e else .degraded false), false, fetchesLeft - 1,
          writeErr || failed, st'.afterFetch (some e)⟩
      | none =>
        let (berr, failed', st'') :=
          getBlockRangeStream env m (st'.afterFetch none) i localStart localEnd
        ⟨berr.map (streamFailure (writeErr || failed || failed')), true, fetchesLeft - 1,
          writeErr || failed || failed', st''⟩
  else ⟨berr.map (streamFailure (writeErr || failed)), false, fetchesLeft, writeErr || failed, st'⟩

def streamSequentialLoop (start stop : ℤ) : List ℤ → ℕ → Bool → StreamOutcome → Stream →
    StreamOutcome × Option BlockError × Stream
  | [], _, _, out, st => (out, none, st)
  | i :: is, fetchesLeft, writeErr, out, st =>
    let b := sequentialBlock env m start stop i fetchesLeft writeErr st
    let out := if b.fetched then { out with fetched := out.fetched + 1 } else out
    match b.err with
    | some e => (out, some e, b.stream)
    | none =>
      let out := if b.fetched then out else { out with fromCache := out.fromCache + 1 }
      streamSequentialLoop start stop is b.fetchesLeft b.writeErr out b.stream

def streamBlockRangeSequential (start stop : ℤ) (st : Stream) :
    StreamOutcome × Option BlockError × Stream :=
  let (b₀, bK) := coveringBlocks start stop m.blockSize
  streamSequentialLoop env m start stop (blockIndices b₀ bK) maxInlineFetchesPerServe false {} st

structure Recovered where
  fetched : Bool
  result : Except BlockError Bytes
  fetchesLeft : Option ℕ
  stream : Stream

/-- Read again, then fetch the block and read once more. Without a cap
(`none`) the fetch is always allowed. -/
def recoverMissingBlockSlice (idx localStart localEnd : ℤ) (fetchesLeft : Option ℕ) (st : Stream) :
    Recovered :=
  match readCachedBlockSlice env m st.clock idx localStart localEnd with
  | .ok data => ⟨false, .ok data, fetchesLeft, st.tick⟩
  | .error .notFound =>
    if fetchesLeft = some 0 then ⟨false, .error (.degraded true), fetchesLeft, st.tick⟩
    else
      let left := fetchesLeft.map (· - 1)
      let st := st.tick
      match fetchBlocksToCache env m st.clock [idx] with
      | some e =>
        ⟨false, .error (if e.isStale then e else .degraded false), left, st.afterFetch (some e)⟩
      | none =>
        let st := st.afterFetch none
        match readCachedBlockSlice env m st.clock idx localStart localEnd with
        | .ok data => ⟨true, .ok data, left, st.tick⟩
        | .error _ => ⟨true, .error (.degraded false), left, st.tick⟩
  | .error _ => ⟨false, .error (.degraded false), fetchesLeft, st.tick⟩

def readBlockSlice (idx localStart localEnd : ℤ) (fetchesLeft : Option ℕ) (st : Stream) :
    Recovered :=
  match readCachedBlockSlice env m st.clock idx localStart localEnd with
  | .ok data => ⟨false, .ok data, fetchesLeft, st.tick⟩
  | .error .notFound =>
    recoverMissingBlockSlice env m idx localStart localEnd fetchesLeft st.tick
  | .error _ => ⟨false, .error (.degraded false), fetchesLeft, st.tick⟩

abbrev Pending := ℤ → Option (Except BlockError Bytes)

def startRead (start stop i : ℤ) (clock : ℕ) (pending : Pending) : Pending :=
  let (localStart, localEnd) := blockLocalRange i start stop m.blockSize m.contentLength
  Function.update pending i (some (readCachedBlockSlice env m clock i localStart localEnd))

def fillWindow (start stop : ℤ) : List ℤ → ℕ → Pending → Pending
  | [], _, pending => pending
  | i :: is, clock, pending =>
    fillWindow start stop is (clock + 1) (startRead env m start stop i clock pending)

def settleRead (i localStart localEnd : ℤ) (fetchesLeft : ℕ) (st : Stream) :
    Except BlockError Bytes → Recovered
  | .ok data => ⟨false, .ok data, some fetchesLeft, st⟩
  | .error .notFound =>
    recoverMissingBlockSlice env m i localStart localEnd (some fetchesLeft) st
  | .error _ => ⟨false, .error (.degraded false), some fetchesLeft, st⟩

/-- The ordered writer: wait for the read of each block, recover it if it was
missing, send it, and start one more read. -/
def streamPipelinedLoop (start stop bK : ℤ) : List ℤ → ℤ → Pending → ℕ → StreamOutcome → Stream →
    StreamOutcome × Option BlockError × Stream
  | [], _, _, _, out, st => (out, none, st)
  | i :: is, next, pending, fetchesLeft, out, st =>
    let (localStart, localEnd) := blockLocalRange i start stop m.blockSize m.contentLength
    match pending i with
    | none => (out, some .noRead, st)
    | some read =>
      let br := settleRead env m i localStart localEnd fetchesLeft st read
      let out := if br.fetched then { out with fetched := out.fetched + 1 } else out
      match br.result with
      | .error e => (out, some e, br.stream)
      | .ok data =>
        let out := if br.fetched then out else { out with fromCache := out.fromCache + 1 }
        let (_, failed, st) := br.stream.send env data
        if failed then (out, some .clientWrite, st.tick)
        else if next ≤ bK then
          streamPipelinedLoop start stop bK is (next + 1)
            (startRead env m start stop next st.clock (Function.update pending i none))
            (br.fetchesLeft.getD 0) out st.tick
        else
          streamPipelinedLoop start stop bK is next (Function.update pending i none)
            (br.fetchesLeft.getD 0) out st.tick

def streamBlockRangePipelined (start stop : ℤ) (prefetchWindow : ℕ) (st : Stream) :
    StreamOutcome × Option BlockError × Stream :=
  let (b₀, bK) := coveringBlocks start stop m.blockSize
  let first := (blockIndices b₀ bK).take prefetchWindow
  let pending := fillWindow env m start stop first st.clock fun _ => none
  streamPipelinedLoop env m start stop bK (blockIndices b₀ bK) (b₀ + first.length) pending
    maxInlineFetchesPerServe {} { st with clock := st.clock + first.length }

/-- The largest window of at least two buffers that can be reserved. -/
def reserveWindow (clock : ℕ) : ℕ → Option ℕ × ℕ
  | 0 | 1 => (none, clock)
  | window + 2 =>
    if env.acquireStaging clock then (some (window + 2), clock + 1)
    else reserveWindow (clock + 1) (window + 1)

/-- Copy a body to the client; it should have `want` bytes. -/
def copyBody (want : ℤ) (body : Source UInt8) (st : Stream) : Option BlockError × Stream :=
  let (taken, failed, st) := st.send env body.rest
  if failed then (some .clientWrite, st.tick)
  else if body.ending ≠ .eof then (some (.other 5), st.tick)
  else if (taken.length : ℤ) ≠ want then (some (.other 8), st.tick)
  else (none, st.tick)

/-- The rest of a committed response from upstream, in one request. -/
def streamRemainderFromUpstream (absStart absEnd : ℤ) (st : Stream) :
    Option BlockError × Stream :=
  match env.rangeGet st.clock absStart absEnd with
  | .error code => (some (.other code), st.tick)
  | .ok resp =>
    if resp.status = 404 then (some .upstreamGone, { st.tick with invalidated := true })
    else if resp.status ≠ 206 then (some (.other 1), st.tick)
    else if resp.header.get (ascii "ETag") = [] then (some (.other 2), st.tick)
    else if resp.header.get (ascii "ETag") ≠ m.etag then
      (some .etagMismatch, { st.tick with invalidated := true })
    else if (parseContentRange (resp.header.get (ascii "Content-Range"))).bounds ≠
        some (absStart, absEnd) then (some (.other 4), st.tick)
    else copyBody env (absEnd - absStart + 1) resp.body st

/-- The strategy for a range: sequential for one block, or when not even two
buffers can be reserved. -/
def streamBlocks (start stop : ℤ) (st : Stream) : StreamOutcome × Option BlockError × Stream :=
  let (b₀, bK) := coveringBlocks start stop m.blockSize
  if b₀ = bK then streamBlockRangeSequential env m start stop st
  else
    let requested := min (bK - b₀ + 1).toNat maxBlockServePrefetch
    match reserveWindow env st.clock requested with
    | (some window, clock) =>
      streamBlockRangePipelined env m start stop window { st with clock := clock }
    | (none, clock) => streamBlockRangeSequential env m start stop { st with clock := clock }

/-- Stream the bytes `start` to `stop`; `clock` numbers the first call. -/
def streamBlockRangeWithFooterRange (start stop : ℤ) (clock : ℕ) :
    StreamOutcome × Option BlockError × Stream :=
  match streamBlocks env m start stop { clock := clock } with
  | (out, none, st) => (out, none, st)
  | (out, some e, st) =>
    if e.isDegraded && !env.canceled st.clock && decide (start + st.written.length ≤ stop) then
      match streamRemainderFromUpstream env m (start + st.written.length) stop st with
      | (some rerr, st) => (out, some rerr, st)
      | (none, st) =>
        ({ out with remainder := true }, none,
          { st with invalidated := st.invalidated || decide (e = .degraded true) })
    else (out, some e, st)

end
end TagGateway.Proxy
