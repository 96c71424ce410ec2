import TagGateway.Proxy.ChunkedReader
import TagGateway.Proxy.Populate
import TagGateway.Proxy.ReadRoute
import TagGateway.Proxy.SigningForward

/-!
# The local tier

In tiered mode the metadata rows say what exists. A small object is stored whole
by the engine of this file: its body goes in first, under a reference of its own,
and the row that makes it visible is committed under the version that was read
before the first byte. A PUT that the engine may not take is left to the
forwarding path. Every function that waits for the store is a process, so that
other requests may run between any two of its store operations.
-/
namespace TagGateway.Proxy

open Foundation Cache Auth

universe u

structure TieredConfig extends Config where
  cacheEnabled : Bool := true
  populateShedReject : Bool := false

/-- What the engine takes from elsewhere besides the signature's platform. -/
structure EngineLib extends Stdlib where
  md5 : Bytes → Bytes
  decodeBase64 : Bytes → Option Bytes
  decodeHex : Bytes → Option Bytes

inductive S3Error where
  | noSuchKey
  | preconditionFailed
  | missingContentLength
  | entityTooLarge
  | slowDown
  | invalidDigest
  | incompleteBody
  | signatureDoesNotMatch
  | badDigest
  | contentSHA256Mismatch
  | notImplemented
deriving DecidableEq, Repr

def S3Error.status : S3Error → ℕ
  | .noSuchKey => 404
  | .preconditionFailed => 412
  | .missingContentLength => 411
  | .slowDown => 503
  | .signatureDoesNotMatch => 403
  | .notImplemented => 501
  | .entityTooLarge | .invalidDigest | .incompleteBody | .badDigest | .contentSHA256Mismatch => 400

/-- How a PUT ends: stored, refused with an error document, or with an error of the
handler, which the server answers as an internal one. -/
inductive PutAnswer where
  | stored (etag : Bytes)
  | refused (code : S3Error)
  | failed
deriving DecidableEq, Repr

def PutAnswer.status : PutAnswer → ℕ
  | .stored _ => 200
  | .refused code => code.status
  | .failed => 500

/-! ## The request -/

/-- A PUT of an object. `contentLength` is negative when none was declared. -/
structure PutRequest where
  request : Request
  contentLength : ℤ
  body : Source UInt8
deriving DecidableEq

def originlessPlainObject (lib : EngineLib) (r : Request) : Bool :=
  r.header.get (ascii "X-Amz-Copy-Source") == [] &&
    (r.url.rawQuery == [] ||
      (lib.parseQuery r.url.rawQuery).all fun p => originlessIgnoredParams.contains p.1)

namespace PutRequest

variable (r : PutRequest)

def header : Header := r.request.header

def payloadHash : Bytes := r.header.get (ascii "X-Amz-Content-Sha256")

def streaming : Bool := isStreamingPayload r.payloadHash

def ifMatch : Bytes := r.header.get (ascii "If-Match")

def ifNoneMatch : Bytes := r.header.get (ascii "If-None-Match")

def conditional : Bool := r.ifMatch != [] || r.ifNoneMatch != []

def originlessPutSize : Option ℤ :=
  if r.streaming then
    let dcl := r.header.get (ascii "X-Amz-Decoded-Content-Length")
    if dcl = [] then none
    else
      match parseInt dcl with
      | (n, none) => if 0 ≤ n then some n else none
      | (_, some _) => none
  else if r.contentLength < 0 then none
  else some r.contentLength

def concretePayloadSHA256 (lib : EngineLib) : Option Bytes :=
  if r.payloadHash = [] ∨ r.payloadHash = unsignedPayload ∨ r.streaming = true ∨
      r.payloadHash.length ≠ 64 then none
  else lib.decodeHex r.payloadHash

/-- The coding of the object as it is stored, over all field lines. -/
def storedEncoding : Bytes :=
  let coding := joinWith (byte ',')
    ((r.header.values (canonicalHeaderKey (ascii "Content-Encoding"))).getD [])
  if r.streaming then stripAWSChunkedToken coding else coding

/-- The digest of `Content-MD5`, or its refusal when it is no digest. -/
def contentMD5 (lib : EngineLib) : Except S3Error (Option Bytes) :=
  match (r.header.values (canonicalHeaderKey (ascii "Content-MD5"))).getD [] with
  | [] => .ok none
  | value :: _ =>
    match lib.decodeBase64 value with
    | none => .error .invalidDigest
    | some digest => if digest.length = 16 then .ok (some digest) else .error .invalidDigest

/-- The answer that the preconditions earn against the visible object. -/
def checkPreconditions (visible : Option CachedObjectMeta) : Option S3Error :=
  match visible with
  | none => if r.ifMatch ≠ [] then some .noSuchKey else none
  | some existing =>
    if r.ifMatch ≠ [] ∧ r.ifMatch ≠ ascii "*" ∧ existing.matchesETagHeader r.ifMatch true = false
    then some .preconditionFailed
    else if r.ifNoneMatch ≠ [] ∧
      (r.ifNoneMatch = ascii "*" ∨ existing.matchesETagHeader r.ifNoneMatch false = true)
    then some .preconditionFailed
    else none

end PutRequest

/-! ## The body -/

inductive BodyReader where
  | plain (s : Source UInt8)
  | chunked (r : AwsChunkedReader)

inductive BodyReply where
  | stored
  | shed
  | failed
deriving DecidableEq

/-- How a body arrives: the calls of the store's reader, its answer, and the clock
after it. -/
structure Upload where
  calls : List AwsChunkedReader.ReadCall
  reply : BodyReply
  now : ℤ
deriving DecidableEq

/-- The failure is one of the chunk chain. -/
def ChunkError.isSignatureMismatch : ChunkError → Bool
  | .noSignature | .finalMismatch | .shortBody _ | .overClaim _ _ | .chunkMismatch => true
  | .eof | .truncated | .source _ | .headerLine _ | .headerTooLong | .chunkSize _ | .trailer _
  | .badTrailer => false

namespace BodyReader

variable (lib : Stdlib)

def read (call : AwsChunkedReader.ReadCall) :
    BodyReader → Bytes × Option ChunkError × BodyReader
  | .plain s =>
    let (data, err, s) := s.read call.buffer call.reply
    (data, err.map fun e => if e = .eof then .eof else .source e, .plain s)
  | .chunked r =>
    let (data, err, r) := r.read lib call
    (data, err, .chunked r)

def readLimited (limit : ℕ) (r : BodyReader) :
    List AwsChunkedReader.ReadCall → Bytes × Option ChunkError
  | [] => ([], none)
  | call :: calls =>
    if limit = 0 then ([], some .eof)
    else
      match r.read lib { call with buffer := min call.buffer limit } with
      | (data, some e, _) => (data, some e)
      | (data, none, r) =>
        let (more, err) := readLimited (limit - data.length) r calls
        (data ++ more, err)

end BodyReader

/-! ## The shared state of a key -/

/-- What an observer of a key in tiered mode sees happen, oldest first. -/
inductive TierEvent where
  /-- A PUT read the row it decides by. -/
  | tokenRead (put : ℕ) (row : Option Row) (version : ℕ)
  /-- The row of a PUT became visible, in place of this row at this version. -/
  | installed (put : ℕ) (displaced : Option Row) (version : ℕ)
  | answered (put : ℕ) (answer : PutAnswer)
  | removed (delete : ℕ) (displaced : Option Row)
  /-- A forwarded mutation read the row it is about to displace. -/
  | captured (mutation : ℕ)
  | acked (mutation : ℕ)
  | marked (mutation : ℕ)
deriving DecidableEq

/-- The metadata row's store, the object upstream, the keys of the stored bodies,
and the log. -/
structure Tier (σ : Type u) where
  store : σ
  object : Option ObjectVersion
  nextId : ℕ
  bodies : List Bytes
  log : List TierEvent

namespace Tier

variable {σ : Type u} (store : VersionedStore σ Row) (sh : Tier σ)

def emit (e : TierEvent) : Tier σ := { sh with log := sh.log ++ [e] }

def getMetaWithVersion : Tier σ × Option Row × ℕ :=
  let (s, row, version) := CasCoordinator.getMetaWithVersion store sh.store
  ({ sh with store := s }, row, version)

def putMetaIfVersion (row : Row) (expected : ℕ) : Tier σ × Bool :=
  if row.metadata.etag = [] then (sh, false)
  else
    let (s, wrote) := CasCoordinator.putMeta store sh.store row (.version expected)
    ({ sh with store := s }, wrote)

def deleteMetaIfVersion (version : ℕ) : Tier σ × Bool :=
  let (s, deleted) := CasCoordinator.deleteMetaIfVersion store sh.store version
  ({ sh with store := s }, deleted)

/-- The data of the entry is there: an empty object has none. -/
def entryServable (m : CachedObjectMeta) : Bool :=
  m.contentLength == 0 || (m.bodyDiscriminator != [] &&
    sh.bodies.contains (etagKeyComponent m.bodyDiscriminator))

/-- The object that reads report: an upstream marker, or an entry of the local tier
whose data is there. -/
def reported : Option CachedObjectMeta :=
  (store.row sh.store).bind fun row =>
    if row.metadata.bodyUpstream || sh.entryServable row.metadata then some row.metadata else none

end Tier

/-! ## The PUT handler -/

/-- Where a PUT stands. A commit attempt is numbered by the refusals before it. -/
inductive TieredPutPhase where
  | routing
  | forwarded
  | probing (row : Row) (token : ℕ)
  | uploading (token : ℕ) (size : ℤ)
  | storing (metadata : CachedObjectMeta) (token attempt : ℕ)
  | rereading (metadata : CachedObjectMeta) (attempt : ℕ)
  | discarding
  | finished
deriving DecidableEq

/-- A running PUT, with the chunk chain of its body if there is one. -/
structure TieredPut where
  node : ℕ := 0
  request : PutRequest
  auth : AuthResult
  chunkVerifier : Option ChunkVerifier := none
  phase : TieredPutPhase := .routing
deriving DecidableEq

/-- What the environment contributes to a step. After an error of a write the
write may or may not have been applied. -/
inductive TieredPutInput where
  | route (overBudget : Bool)
  | proceed
  | storeError (applied : Bool)
  | noSlot
  | upload (up : Upload)
  | discard (deleted : Bool)
deriving DecidableEq

/-- The number of fresh tokens an unconditional PUT tries after the first. -/
def enginePutRetries : ℕ := 8

namespace TieredPut

variable {σ : Type u} (store : VersionedStore σ Row) (cfg : TieredConfig) (lib : EngineLib)
  (newBodyRef : ℕ → Bytes)

/-- The engine may take the request, as far as the request itself tells. -/
def localTier (p : TieredPut) : Bool :=
  p.auth == .validated && originlessPlainObject lib p.request.request &&
    p.request.originlessPutSize.any fun size => decide (size ≤ cfg.sizeThreshold)

/-- End with an answer before anything was staged, or with the body referenced. -/
def finish (i : ℕ) (sh : Tier σ) (answer : PutAnswer) (p : TieredPut) : Tier σ × TieredPut :=
  (sh.emit (.answered i answer), { p with phase := .finished })

/-- End with an answer while the staged body is not referenced. -/
def abort (i : ℕ) (sh : Tier σ) (answer : PutAnswer) (p : TieredPut) : Tier σ × TieredPut :=
  (sh.emit (.answered i answer), { p with phase := .discarding })

/-- The preconditions held, or there are none. -/
def accept (i : ℕ) (sh : Tier σ) (token : ℕ) (p : TieredPut) : Tier σ × TieredPut :=
  match p.request.originlessPutSize with
  | none => p.finish i sh (.refused .missingContentLength)
  | some size =>
    if cfg.sizeThreshold < size then p.finish i sh (.refused .entityTooLarge)
    else (sh, { p with phase := .uploading token size })

def judge (i : ℕ) (sh : Tier σ) (visible : Option CachedObjectMeta) (token : ℕ)
    (p : TieredPut) : Tier σ × TieredPut :=
  match p.request.checkPreconditions visible with
  | some code => p.finish i sh (.refused code)
  | none => p.accept cfg i sh token

/-- The engine goes on from the row that was read. A marker exists whatever is
stored locally; the data of any other row is probed first. -/
def handleOriginlessPut (i : ℕ) (sh : Tier σ) (row : Option Row) (token : ℕ)
    (p : TieredPut) : Tier σ × TieredPut :=
  if p.request.conditional then
    match row with
    | none => p.judge cfg i sh none token
    | some row =>
      if row.metadata.bodyUpstream then p.judge cfg i sh (some row.metadata) token
      else (sh, { p with phase := .probing row token })
  else p.accept cfg i sh token

/-- Route the request by its declared size, and by the tier of the row it finds. -/
def route (i : ℕ) (sh : Tier σ) (overBudget : Bool) (p : TieredPut) : Tier σ × TieredPut :=
  if !p.localTier cfg lib then (sh, { p with phase := .forwarded })
  else if !p.request.conditional && overBudget then
    if cfg.populateShedReject then p.finish i sh (.refused .slowDown)
    else (sh, { p with phase := .forwarded })
  else
    let (sh, row, token) := sh.getMetaWithVersion store
    let sh := sh.emit (.tokenRead i row token)
    if p.request.conditional && row.any fun row => row.metadata.bodyUpstream then
      (sh, { p with phase := .forwarded })
    else if !cfg.cacheEnabled then p.finish i sh (.refused .notImplemented)
    else p.handleOriginlessPut cfg i sh row token

def reader (size : ℤ) (p : TieredPut) : BodyReader :=
  if p.request.streaming then
    .chunked (newVerifyingAWSChunkedReader p.request.body p.chunkVerifier size)
  else .plain p.request.body

def storedMeta (i : ℕ) (size : ℤ) (data : Bytes) (now : ℤ) (p : TieredPut) : CachedObjectMeta :=
  { metaFromHTTPHeaders cfg.parseTime cfg.bucket cfg.key 200 p.request.header now with
    etag := ascii "\"" ++ hexEncode (lib.md5 data) ++ ascii "\""
    bodyRef := newBodyRef i
    contentLength := size
    contentEncoding := p.request.storedEncoding
    lastModified := now }

def checkBody (i : ℕ) (size : ℤ) (wantMD5 : Option Bytes) (data : Bytes) (now : ℤ)
    (p : TieredPut) : Except PutAnswer CachedObjectMeta :=
  if (data.length : ℤ) ≠ size then .error (.refused .incompleteBody)
  else if wantMD5.any fun want => want != lib.md5 data then .error (.refused .badDigest)
  else if (p.request.concretePayloadSHA256 lib).any fun want => want != lib.sha256 data then
    .error (.refused .contentSHA256Mismatch)
  else .ok (p.storedMeta cfg lib newBodyRef i size data now)

/-- Stream the body into the store, and check it. An error of the reader is the
client's, whatever the store made of it. -/
def receive (i : ℕ) (size : ℤ) (wantMD5 : Option Bytes) (up : Upload) (p : TieredPut) :
    Except PutAnswer CachedObjectMeta :=
  let (data, err) := (p.reader size).readLimited lib.toStdlib (size + 1).toNat up.calls
  match up.reply, err.filter (· ≠ .eof) with
  | .stored, _ => p.checkBody cfg lib newBodyRef i size wantMD5 data up.now
  | _, some e =>
    .error (.refused (if e.isSignatureMismatch then .signatureDoesNotMatch else .incompleteBody))
  | .shed, none => .error (.refused .slowDown)
  | .failed, none => .error .failed

def upload (i : ℕ) (sh : Tier σ) (token : ℕ) (size : ℤ) (up : Upload) (p : TieredPut) :
    Tier σ × TieredPut :=
  match p.request.contentMD5 lib with
  | .error code => p.finish i sh (.refused code)
  | .ok wantMD5 =>
    let sh := if up.reply = .stored then
        { sh with bodies := etagKeyComponent (newBodyRef i) :: sh.bodies }
      else sh
    match p.receive cfg lib newBodyRef i size wantMD5 up with
    | .error answer => p.abort i sh answer
    | .ok metadata => (sh, { p with phase := .storing metadata token 0 })

/-- One attempt to make the row visible; `true` when it did. -/
def install (i : ℕ) (sh : Tier σ) (metadata : CachedObjectMeta) (token : ℕ) : Tier σ × Bool :=
  let displaced := store.row sh.store
  let version := store.version sh.store
  match sh.putMetaIfVersion store ⟨metadata, sh.nextId⟩ token with
  | (sh, true) => (({ sh with nextId := sh.nextId + 1 } : Tier σ).emit
      (.installed i displaced version), true)
  | (sh, false) => (sh, false)

/-- A refused commit: a conditional PUT has lost its precondition, any other tries
again under a fresh token. -/
def commit (i : ℕ) (sh : Tier σ) (metadata : CachedObjectMeta) (token attempt : ℕ)
    (p : TieredPut) : Tier σ × TieredPut :=
  match install store i sh metadata token with
  | (sh, true) => p.finish i sh (.stored metadata.etag)
  | (sh, false) =>
    if p.request.conditional then p.abort i sh (.refused .preconditionFailed)
    else if attempt < enginePutRetries then (sh, { p with phase := .rereading metadata attempt })
    else p.abort i sh .failed

def step (i : ℕ) (sh : Tier σ) (p : TieredPut) (input : TieredPutInput) :
    Option (Tier σ × TieredPut) :=
  match p.phase, input with
  | .routing, .route overBudget => some (p.route store cfg lib i sh overBudget)
  | .routing, .storeError _ =>
    if p.localTier cfg lib then some (p.finish i sh .failed) else none
  | .probing row token, .proceed =>
    some (p.judge cfg i sh
      (if sh.entryServable row.metadata then some row.metadata else none) token)
  | .probing _ _, .storeError _ => some (p.finish i sh .failed)
  | .uploading _ _, .noSlot => some (p.finish i sh (.refused .slowDown))
  | .uploading token size, .upload up => some (p.upload cfg lib newBodyRef i sh token size up)
  | .storing metadata token attempt, .proceed =>
    some (p.commit store i sh metadata token attempt)
  | .storing metadata token _, .storeError applied =>
    -- the commit may have been applied, so the body stays
    some (p.finish i (if applied then (install store i sh metadata token).1 else sh) .failed)
  | .rereading metadata attempt, .proceed =>
    let (sh, _, token) := sh.getMetaWithVersion store
    some (sh, { p with phase := .storing metadata token (attempt + 1) })
  | .rereading _ _, .storeError _ => some (p.abort i sh .failed)
  | .discarding, .discard deleted =>
    some (if deleted then
        { sh with bodies := sh.bodies.filter (· ≠ etagKeyComponent (newBodyRef i)) }
      else sh, { p with phase := .finished })
  | _, _ => none

end TieredPut

/-! ## The DELETE handler -/

inductive EngineDelete where
  | deleting (loop : DeleteLoop)
  | finished (removed : Bool)
deriving DecidableEq

inductive DeleteInput where
  | proceed
  | storeError (applied : Bool)
deriving DecidableEq

namespace EngineDelete

variable {σ : Type u} (store : VersionedStore σ Row)

def attempt (d : ℕ) (sh : Tier σ) (loop : DeleteLoop) : Tier σ × LoopResult :=
  let displaced := store.row sh.store
  match CasCoordinator.deleteMetaAttempt store sh.store loop with
  | (s, .done) => (({ sh with store := s } : Tier σ).emit (.removed d displaced), .done)
  | (s, result) => ({ sh with store := s }, result)

def step (d : ℕ) (sh : Tier σ) : EngineDelete → DeleteInput → Option (Tier σ × EngineDelete)
  | .deleting loop, .proceed =>
    match attempt store d sh loop with
    | (sh, .done) => some (sh, .finished true)
    | (sh, .again next) => some (sh, .deleting next)
    | (sh, .exhausted) => some (sh, .finished false)
  | .deleting loop, .storeError applied =>
    some (if applied then (attempt store d sh loop).1 else sh, .finished false)
  | .finished _, _ => none

end EngineDelete
end TagGateway.Proxy
