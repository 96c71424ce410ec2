import TagGateway.Proxy.BlockStream

/-!
# Serving a range from cached blocks

A single-range request for an entry stored in blocks is answered along one of
four routes, by the size of the range and by what the entry says about its
blocks. Each route reads ahead as much as it can hold before it commits the
response, and leaves the response alone when it gives up before that.
-/
namespace TagGateway.Proxy

open Foundation Cache

/-- The answers of everything outside, with those only a route asks for: what a
recycled buffer still holds, how times and errors are written, and, for reads
that run at the same time, which of their endings is seen first. -/
structure ServeEnv extends BlockEnv where
  /-- The end of the staged reads' context is seen before any read's. -/
  stageSeen : ℕ → Bool
  /-- That context has ended when a failure is seen. -/
  stageExpired : ℕ → Bool
  tailFirst : ℕ → Bool
  pick : ℕ → ℕ
  garbage : ℕ → UInt8
  formatTime : ℤ → Bytes
  newRequestID : Bytes
  /-- The error document of an unsatisfiable range, by request id. -/
  invalidRange : Bytes → Bytes

structure ClientResponse where
  header : Header := .empty
  committed : List (ℕ × Header) := []
  stream : Stream := {}

def xCacheHeader : Bytes := ascii "X-Cache"

namespace ClientResponse

def commit (resp : ClientResponse) (status : ℕ) (header : Header) : ClientResponse :=
  { resp with header := header, committed := resp.committed ++ [(status, header)] }

def atClock (resp : ClientResponse) (clock : ℕ) : ClientResponse :=
  { resp with stream := { resp.stream with clock := clock } }

def afterFetch (resp : ClientResponse) (err : Option BlockError) : ClientResponse :=
  { resp with stream := resp.stream.afterFetch err }

end ClientResponse

structure Served where
  served : Bool
  err : Option BlockError
  response : ClientResponse

/-- A span is used only while it still makes sense for its row. -/
def certifiedRangeBlockSpanCovers (m : CachedObjectMeta) (b₀ bK : ℤ) : Bool :=
  match m.rangeBlockSpan with
  | none => false
  | some span =>
    if m.etag = [] ∨ m.blockSize ≤ 0 ∨ m.contentLength ≤ 0 ∨ b₀ < 0 ∨ bK < b₀ then false
    else if span.first < 0 ∨ span.last < span.first ∨
        (m.contentLength - 1).tdiv m.blockSize < span.last ∨
        maxRangeBlockFanout < span.last - span.first + 1 then false
    else decide (span.first ≤ b₀ ∧ bK ≤ span.last)

section

variable (env : ServeEnv) (m : CachedObjectMeta)

def rangeHeader (rng : ByteRange) (h : Header) : Header :=
  (withRangeHeaders rng.start rng.stop m.contentLength (m.writeHeaders env.formatTime h)).set
    xCacheHeader (ascii "HIT")

def ClientResponse.commitRange (resp : ClientResponse) (rng : ByteRange) : ClientResponse :=
  resp.commit 206 (rangeHeader env m rng resp.header)

def ClientResponse.write (resp : ClientResponse) (data : Bytes) : Bool × ClientResponse :=
  let (_, failed, st) := resp.stream.send env.toBlockEnv data
  (failed, { resp with stream := st.tick })

/-- The response to a range that cannot be served; its id is in the header and in
the document. -/
def writeRangeNotSatisfiable (resp : ClientResponse) : ClientResponse :=
  let h := (resp.header.set (ascii "Content-Range")
    (ascii "bytes */" ++ formatInt m.contentLength)).set xCacheHeader (ascii "HIT")
  let found := h.get (ascii "x-amz-request-id")
  let requestID := if found = [] then env.newRequestID else found
  let h := if found = [] then h.set (ascii "x-amz-request-id") requestID else h
  let h := h.set (ascii "Content-Type") (ascii "application/xml")
  ((resp.commit 416 h).write env (env.invalidRange requestID)).2

def getBlockBuf (n : ℤ) : Bytes := (List.range n.toNat).map env.garbage

/-- The first pass of an assembly: read every block's slice into its place and
note the blocks that are missing. -/
def assemblePass (start stop : ℤ) : List ℤ → ℤ → Bytes → List ℤ → ℕ →
    Except BlockError (Bytes × List ℤ) × ℕ
  | [], _, buf, missing, clock => (.ok (buf, missing), clock)
  | i :: is, off, buf, missing, clock =>
    let (localStart, localEnd) := blockLocalRange i start stop m.blockSize m.contentLength
    let n := localEnd - localStart + 1
    let (landed, err) := readBlockInto env.toBlockEnv m clock i localStart localEnd
    let buf := splice buf off.toNat landed
    match err with
    | some .notFound => assemblePass start stop is (off + n) buf (missing ++ [i]) (clock + 1)
    | some e => (.error e, clock + 1)
    | none =>
      if (landed.length : ℤ) ≠ n then (.error (.other 9), clock + 1)
      else assemblePass start stop is (off + n) buf missing (clock + 1)

def fetchBlocksForAssembly (clock : ℕ) (idxs : List ℤ) :
    Except BlockError (ℤ → Option Bytes) :=
  let errs := idxs.filterMap fun idx =>
    match (env.fetch clock idx).serveResult m idx with
    | .error e => some e
    | .ok _ => none
  match (errs.find? BlockError.isStale).or errs.head? with
  | some e => .error e
  | none => .ok fun idx =>
    match (env.fetch clock idx).serveResult m idx with
    | .error _ => none
    | .ok lease => lease

/-- The second pass: the missing blocks, from the fetched buffers or, when another
writer stored them, by another read. -/
def fillPass (start stop : ℤ) (leases : ℤ → Option Bytes) : List ℤ → Bytes → ℕ →
    Except BlockError Bytes × ℕ
  | [], buf, clock => (.ok buf, clock)
  | i :: is, buf, clock =>
    let (localStart, localEnd) := blockLocalRange i start stop m.blockSize m.contentLength
    let goff := (blockBounds i m.blockSize m.contentLength).1 + localStart - start
    let n := localEnd - localStart + 1
    match leases i with
    | some data =>
      let copied := slice data localStart localEnd
      if (copied.length : ℤ) ≠ n then (.error (.other 10), clock)
      else fillPass start stop leases is (splice buf goff.toNat copied) clock
    | none =>
      let (landed, err) := readBlockInto env.toBlockEnv m clock i localStart localEnd
      if err ≠ none ∨ (landed.length : ℤ) ≠ n then (.error (.other 11), clock + 1)
      else fillPass start stop leases is (splice buf goff.toNat landed) (clock + 1)

/-- The bytes of a range, read and fetched before anything is committed. -/
def assembleRange (rng : ByteRange) (resp : ClientResponse) :
    Except BlockError Bytes × ClientResponse :=
  let (b₀, bK) := coveringBlocks rng.start rng.stop m.blockSize
  let buf := getBlockBuf env (rng.stop - rng.start + 1)
  match assemblePass env m rng.start rng.stop (blockIndices b₀ bK) 0 buf [] resp.stream.clock with
  | (.error e, clock) => (.error e, resp.atClock clock)
  | (.ok (buf, missing), clock) =>
    let resp := resp.atClock clock
    if missing = [] then (.ok buf, resp)
    else
      match fetchBlocksForAssembly env m clock missing with
      | .error e => (.error e, resp.afterFetch (some e))
      | .ok leases =>
        let resp := resp.afterFetch none
        match fillPass env m rng.start rng.stop leases missing buf resp.stream.clock with
        | (.error e, clock) => (.error e, resp.atClock clock)
        | (.ok buf, clock) => (.ok buf, resp.atClock clock)

def serveAssembledRange (rng : ByteRange) (resp : ClientResponse) : Served :=
  match assembleRange env m rng resp with
  | (.error e, resp) => ⟨false, some e, resp⟩
  | (.ok buf, resp) =>
    let (failed, resp) := (resp.commitRange env m rng).write env buf
    ⟨true, if failed then some .clientWrite else none, resp⟩

/-- The reads of a certified span run at the same time, each into a buffer of its
own. -/
def certifiedReads (start stop : ℤ) : List ℤ → ℕ → List (Except BlockError Bytes)
  | [], _ => []
  | i :: is, clock =>
    let (localStart, localEnd) := blockLocalRange i start stop m.blockSize m.contentLength
    readCachedBlockSlice env.toBlockEnv m clock i localStart localEnd ::
      certifiedReads start stop is (clock + 1)

def slicesLength (start stop : ℤ) (is : List ℤ) : ℤ :=
  (is.map fun i =>
    let (localStart, localEnd) := blockLocalRange i start stop m.blockSize m.contentLength
    localEnd - localStart + 1).sum

def readError : Except BlockError Bytes → Option BlockError
  | .error e => some e
  | .ok _ => none

inductive StagedReads where
  /-- The probing route is tried next. -/
  | retryProbe
  | failed (err : BlockError)
  | hit (slices : List Bytes)

def stagedTailFailure (clock : ℕ) (e : BlockError) : StagedReads :=
  if env.canceled clock then .failed .canceled
  else if env.stageExpired clock ∨ e = .canceled then .failed (.degraded false)
  else .retryProbe

/-- The first slice failed: only a missing block is left to the probing route. -/
def stagedFirstFailure (clock : ℕ) (e : BlockError) : StagedReads :=
  if env.canceled clock then .failed .canceled
  else if env.stageExpired clock ∨ e = .canceled then .failed (.degraded false)
  else if e = .notFound then .retryProbe
  else .failed (.degraded false)

/-- Wait for the reads, up to the first failure that is seen. -/
def settleReads (clock : ℕ) (reads : List (Except BlockError Bytes)) : StagedReads :=
  if env.stageSeen clock then .failed .canceled
  else
    match reads.head?.bind readError, reads.tail.filterMap readError with
    | none, [] =>
      if env.canceled clock then .failed .canceled
      else .hit (reads.filterMap Except.toOption)
    | some e, [] => stagedFirstFailure env clock e
    | none, tail :: more =>
      stagedTailFailure env clock ((tail :: more).getD (env.pick clock) tail)
    | some e, tail :: more =>
      if env.tailFirst clock then
        stagedTailFailure env clock ((tail :: more).getD (env.pick clock) tail)
      else stagedFirstFailure env clock e

def writeSlices : List Bytes → ClientResponse → Bool × ClientResponse
  | [], resp => (false, resp)
  | data :: rest, resp =>
    match resp.write env data with
    | (true, resp) => (true, resp)
    | (false, resp) => writeSlices rest resp

/-- The certified span; no answer means that the other routes are to be tried. -/
def serveCertifiedRange (rng : ByteRange) (resp : ClientResponse) : Option Served × ℕ :=
  let (b₀, bK) := coveringBlocks rng.start rng.stop m.blockSize
  let is := blockIndices b₀ bK
  let clock := resp.stream.clock + is.length
  if slicesLength m rng.start rng.stop is ≠ rng.stop - rng.start + 1 then
    (some ⟨false, some (.other 12), resp⟩, resp.stream.clock)
  else
    match settleReads env clock (certifiedReads env m rng.start rng.stop is resp.stream.clock) with
    | .retryProbe => (none, clock + 1)
    | .failed e => (some ⟨false, some e, resp.atClock (clock + 1)⟩, clock + 1)
    | .hit slices =>
      let (failed, resp) :=
        writeSlices env slices ((resp.atClock (clock + 1)).commitRange env m rng)
      (some ⟨true, if failed then some .clientWrite else none, resp⟩, clock + 1)

def ClientResponse.append (resp : ClientResponse) (st : Stream) : ClientResponse :=
  { resp with stream :=
    ⟨st.clock, resp.stream.written ++ st.written, resp.stream.invalidated || st.invalidated⟩ }

/-- The bytes a complete serve covers: the range, or the object. -/
def servedBounds (rng : Option ByteRange) : ℤ × ℤ :=
  match rng with
  | some r => (r.start, r.stop)
  | none => (0, m.contentLength - 1)

def ClientResponse.commitServed (resp : ClientResponse) (rng : Option ByteRange) :
    ClientResponse :=
  match rng with
  | some r => resp.commitRange env m r
  | none =>
    resp.commit m.statusCode ((m.writeHeaders env.formatTime resp.header).set xCacheHeader
      (ascii "HIT"))

/-- A complete entry: the first slice is read before the response is committed,
the rest is streamed after it. -/
def serveCompleteFromBlocks (rng : Option ByteRange) (resp : ClientResponse) : Served :=
  let (start, stop) := servedBounds m rng
  let (b₀, _) := coveringBlocks start stop m.blockSize
  let (localStart, localEnd) := blockLocalRange b₀ start stop m.blockSize m.contentLength
  let firstAbsEnd := (blockBounds b₀ m.blockSize m.contentLength).1 + localEnd
  let first := readBlockSlice env.toBlockEnv m b₀ localStart localEnd none resp.stream
  let resp := { resp with stream := first.stream }
  match first.result with
  | .error e => ⟨false, some e, resp⟩
  | .ok buf =>
    match (resp.commitServed env m rng).write env buf with
    | (true, resp) => ⟨true, some .clientWrite, resp⟩
    | (false, resp) =>
      if firstAbsEnd < stop then
        let (_, err, st) := streamBlockRangeWithFooterRange env.toBlockEnv m (firstAbsEnd + 1)
          stop resp.stream.clock
        ⟨true, err, resp.append st⟩
      else ⟨true, none, resp⟩

def probeBlock (clock : ℕ) (idx : ℤ) : Except BlockError Bool :=
  if m.etag = [] then .ok false
  else
    match readBlockInto env.toBlockEnv m clock idx 0 0 with
    | (_, none) => .ok true
    | (_, some .notFound) => .ok false
    | (_, some e) => .error e

/-- Probe the blocks; `.error none` when more are missing than may be fetched. -/
def probePass : List ℤ → List ℤ → ℕ → Except (Option BlockError) (List ℤ) × ℕ
  | [], missing, clock => (.ok missing, clock)
  | i :: is, missing, clock =>
    match probeBlock env m clock i with
    | .error e => (.error (some e), clock + 1)
    | .ok true => probePass is missing (clock + 1)
    | .ok false =>
      if maxRangeBlockFanout < (missing ++ [i]).length then (.error none, clock + 1)
      else probePass is (missing ++ [i]) (clock + 1)

/-- Make the covering blocks present; `some none` when that would take too many
fetches. -/
def ensureBlocksCached (b₀ bK : ℤ) (resp : ClientResponse) :
    Option (Option BlockError) × ClientResponse :=
  match probePass env m (blockIndices b₀ bK) [] resp.stream.clock with
  | (.error e, clock) => (some e, resp.atClock clock)
  | (.ok missing, clock) =>
    let resp := resp.atClock clock
    if missing = [] then (none, resp)
    else
      match fetchBlocksToCache env.toBlockEnv m clock missing with
      | some e => (some (some e), resp.afterFetch (some e))
      | none => (none, resp.afterFetch none)

def serveProbed (rng : ByteRange) (resp : ClientResponse) : Served :=
  let (b₀, bK) := coveringBlocks rng.start rng.stop m.blockSize
  match ensureBlocksCached env m b₀ bK resp with
  | (some err, resp) => ⟨false, err, resp⟩
  | (none, resp) =>
    let resp := resp.commitRange env m rng
    let (_, err, st) := streamBlockRangeWithFooterRange env.toBlockEnv m rng.start rng.stop
      resp.stream.clock
    ⟨true, err, resp.append st⟩

/-- What follows when the certified span is not used or is abandoned. -/
def serveUncertified (rng : ByteRange) (resp : ClientResponse) : Served :=
  if m.blockSize < rng.stop - rng.start + 1 ∧ m.blocksComplete then
    if env.acquireStaging resp.stream.clock then
      serveCompleteFromBlocks env m (some rng) (resp.atClock (resp.stream.clock + 1))
    else serveProbed env m rng (resp.atClock (resp.stream.clock + 1))
  else serveProbed env m rng resp

def serveLongRange (rng : ByteRange) (resp : ClientResponse) : Served :=
  let (b₀, bK) := coveringBlocks rng.start rng.stop m.blockSize
  if m.blockSize < rng.stop - rng.start + 1 ∧ b₀ < bK ∧
      certifiedRangeBlockSpanCovers m b₀ bK then
    if env.acquireStaging resp.stream.clock then
      match serveCertifiedRange env m rng (resp.atClock (resp.stream.clock + 1)) with
      | (some served, _) => served
      | (none, clock) => serveUncertified env m rng (resp.atClock clock)
    else serveUncertified env m rng (resp.atClock (resp.stream.clock + 1))
  else serveUncertified env m rng resp

def serveRangeFromBlockCache (range : Bytes) (resp : ClientResponse) : Served :=
  match parseRangeHeader range m.contentLength with
  | some [rng] =>
    if rng.stop - rng.start + 1 ≤ m.blockSize then
      if env.acquireStaging resp.stream.clock then
        serveAssembledRange env m rng (resp.atClock (resp.stream.clock + 1))
      else serveLongRange env m rng (resp.atClock (resp.stream.clock + 1))
    else serveLongRange env m rng resp
  | _ => ⟨true, none, writeRangeNotSatisfiable env m resp⟩

end
end TagGateway.Proxy
