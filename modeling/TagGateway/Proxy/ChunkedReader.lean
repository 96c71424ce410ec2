import TagGateway.Auth.ChunkVerifier
import TagGateway.Foundation.Source

/-!
# The reader of chunked uploads

The body of a streamed upload is a sequence of frames, each a header line and
its data. The reader strips the framing. With a verifier it withholds the last
byte of a chunk until the chunk's signature and the header after it were
checked, and it binds the frames to the declared length.
-/
namespace TagGateway.Proxy

open Foundation Auth

/-- The values of the payload hash that announce chunked framing. -/
def streamingPayloadHashes : List Bytes :=
  [ascii "STREAMING-AWS4-HMAC-SHA256-PAYLOAD", ascii "STREAMING-AWS4-HMAC-SHA256-PAYLOAD-TRAILER",
    ascii "STREAMING-UNSIGNED-PAYLOAD-TRAILER", ascii "STREAMING-AWS4-ECDSA-P256-SHA256-PAYLOAD",
    ascii "STREAMING-AWS4-ECDSA-P256-SHA256-PAYLOAD-TRAILER"]

def isStreamingPayload (bodyHash : Bytes) : Bool := streamingPayloadHashes.contains bodyHash

inductive ChunkError where
  | eof
  /-- The body ended inside a chunk. -/
  | truncated
  | source (e : ReadError)
  | headerLine (e : ReadError)
  | headerTooLong
  | chunkSize (e : NumError)
  | noSignature
  | finalMismatch
  | shortBody (undeclared : ℤ)
  | overClaim (size undeclared : ℤ)
  | chunkMismatch
  | trailer (e : ReadError)
  | badTrailer
deriving DecidableEq

structure AwsChunkedReader where
  reader : Source UInt8
  remaining : ℕ := 0
  done : Bool := false
  verifier : Option ChunkVerifier := none
  chunkSig : Bytes := []
  chunkData : Bytes := []
  err : Option ChunkError := none
  undeclared : ℤ := -1

def newAWSChunkedReader (r : Source UInt8) : AwsChunkedReader := { reader := r }

/-- A negative length means that none was declared. -/
def newVerifyingAWSChunkedReader (r : Source UInt8) (verifier : Option ChunkVerifier)
    (decodedLength : ℤ) : AwsChunkedReader :=
  match verifier with
  | none => newAWSChunkedReader r
  | some v => { newAWSChunkedReader r with
      verifier := some v, undeclared := if 0 ≤ decodedLength then decodedLength else -1 }

def maxChunkHeaderLen : ℕ := 256

inductive LineScan where
  | line (text : Bytes)
  | exhausted
  | tooLong

def trimRight (b : UInt8) (s : Bytes) : Bytes := (s.reverse.dropWhile (· = b)).reverse

/-- Scan for the end of a line, of which `line` was read; with the input left. -/
def scanLine (line : Bytes) : Bytes → LineScan × Bytes
  | [] => (.exhausted, [])
  | b :: bs =>
    if b = newline then (.line (trimRight (byte '\r') line), bs)
    else if maxChunkHeaderLen < (line ++ [b]).length then (.tooLong, bs)
    else scanLine (line ++ [b]) bs

def chunkSignatureExtension (ext : Bytes) : Option Bytes :=
  (ext.splitOn (byte ';')).findSome? fun part =>
    let part := trimSpace part
    if hasPrefix part (ascii "chunk-signature=") then
      some (part.drop (ascii "chunk-signature=").length)
    else none

def parseChunkLine (line : Bytes) : Except NumError ℤ × Bytes :=
  let (sizeStr, ext) := (cutAt (byte ';') line).getD (line, [])
  (parseHexInt (trimSpace sizeStr), ext)

namespace AwsChunkedReader

variable (lib : Stdlib)

def fail (r : AwsChunkedReader) (e : ChunkError) : Except ChunkError Unit × AwsChunkedReader :=
  (.error e, { r with err := some e })

def enter (r : AwsChunkedReader) (size : ℤ) : AwsChunkedReader :=
  if size ≤ 0 then { r with done := true } else { r with remaining := size.toNat }

/-- What a verifier asks of a header before its frame begins. -/
def admitFrame (r : AwsChunkedReader) (v : ChunkVerifier) (size : ℤ) (ext : Bytes) :
    Except ChunkError Unit × AwsChunkedReader :=
  match chunkSignatureExtension ext with
  | none => r.fail .noSignature
  | some sig =>
    if size ≤ 0 then
      match v.verifyChunk lib sig (lib.sha256 []) with
      | none => r.fail .finalMismatch
      | some v' =>
        if 0 < r.undeclared then { r with verifier := some v' }.fail (.shortBody r.undeclared)
        else (.ok (), { r with verifier := some v', chunkSig := sig, chunkData := [] }.enter size)
    else if 0 ≤ r.undeclared ∧ r.undeclared < size then r.fail (.overClaim size r.undeclared)
    else (.ok (),
      { r with
        undeclared := if 0 ≤ r.undeclared then r.undeclared - size else r.undeclared
        chunkSig := sig
        chunkData := [] }.enter size)

def readChunkHeader (r : AwsChunkedReader) : Except ChunkError Unit × AwsChunkedReader :=
  let (scan, left) := scanLine [] r.reader.rest
  let r := { r with reader := { r.reader with rest := left } }
  match scan with
  | .exhausted => (.error (.headerLine r.reader.ending), r)
  | .tooLong => (.error .headerTooLong, r)
  | .line text =>
    match parseChunkLine text with
    | (.error e, _) => (.error (.chunkSize e), r)
    | (.ok size, ext) =>
      match r.verifier with
      | none => (.ok (), r.enter size)
      | some v => r.admitFrame lib v size ext

def readTrailingCRLF (r : AwsChunkedReader) : Except ChunkError Unit × AwsChunkedReader :=
  match r.reader.readFull 2 with
  | (.error e, s) => (.error (.trailer e), { r with reader := s })
  | (.ok buf, s) =>
    (if buf = [byte '\r', newline] then .ok () else .error .badTrailer, { r with reader := s })

def truncatedOr (e : ReadError) : ChunkError := if e.isEOF then .truncated else .source e

/-- The last byte of a chunk goes out once the chunk and the next header hold. -/
def readVerifiedLastByte (r : AwsChunkedReader) (v : ChunkVerifier) (buffer : ℕ) :
    Bytes × Option ChunkError × AwsChunkedReader :=
  if buffer = 0 then ([], none, r)
  else
    match r.reader.readFull 1 with
    | (.error e, s) => ([], some (truncatedOr e), { r with reader := s })
    | (.ok last, s) =>
      let r := { r with reader := s, chunkData := r.chunkData ++ last }
      match r.readTrailingCRLF with
      | (.error e, r) => ([], some e, r)
      | (.ok _, r) =>
        match v.verifyChunk lib r.chunkSig (lib.sha256 r.chunkData) with
        | none => ([], some .chunkMismatch, { r with err := some .chunkMismatch })
        | some v' =>
          match { r with verifier := some v', remaining := 0 }.readChunkHeader lib with
          | (.error e, r) => ([], some e, r)
          | (.ok _, r) => (last, none, r)

/-- One call: the size of its buffer, and how the source answers a read. -/
structure ReadCall where
  buffer : ℕ
  reply : Reply
deriving DecidableEq

/-- How much of the current chunk may go straight through: a verifier keeps the
last byte back. -/
def toRead (r : AwsChunkedReader) (buffer : ℕ) : ℕ :=
  if r.verifier.isSome && min buffer r.remaining == r.remaining then min buffer r.remaining - 1
  else min buffer r.remaining

def readData (r : AwsChunkedReader) (call : ReadCall) :
    Bytes × Option ChunkError × AwsChunkedReader :=
  let (data, err, s) := r.reader.read (r.toRead call.buffer) call.reply
  let r := { r with
    reader := s
    remaining := r.remaining - data.length
    chunkData := if r.verifier.isSome then r.chunkData ++ data else r.chunkData }
  match err with
  | some e => (data, some (truncatedOr e), r)
  | none =>
    if r.remaining = 0 then
      match r.readTrailingCRLF with
      | (.error e, r) => (data, some e, r)
      | (.ok _, r) => (data, none, r)
    else (data, none, r)

def readChunk (r : AwsChunkedReader) (call : ReadCall) :
    Bytes × Option ChunkError × AwsChunkedReader :=
  match r.verifier with
  | some v => if r.remaining = 1 then r.readVerifiedLastByte lib v call.buffer else r.readData call
  | none => r.readData call

def read (r : AwsChunkedReader) (call : ReadCall) :
    Bytes × Option ChunkError × AwsChunkedReader :=
  match r.err with
  | some e => ([], some e, r)
  | none =>
    if r.done then ([], some .eof, r)
    else if r.remaining = 0 then
      match r.readChunkHeader lib with
      | (.error e, r) => ([], some e, r)
      | (.ok _, r) => if r.done then ([], some .eof, r) else r.readChunk lib call
    else r.readChunk lib call

/-- Calls up to the first error: all that was delivered, and that error. -/
def readAll (r : AwsChunkedReader) :
    List ReadCall → Bytes × Option ChunkError × AwsChunkedReader
  | [] => ([], none, r)
  | call :: calls =>
    match r.read lib call with
    | (data, some e, r) => (data, some e, r)
    | (data, none, r) =>
      let (more, err, r) := r.readAll calls
      (data ++ more, err, r)

end AwsChunkedReader
end TagGateway.Proxy
