import TagGateway.Auth.Validator

/-!
# The chain of chunk signatures

Each chunk of a signed stream carries a signature over its data and over the
signature before it; the first one follows the signature of the request.
-/
namespace TagGateway.Auth

open Foundation

def streamingAlgorithm : Bytes := ascii "AWS4-HMAC-SHA256-PAYLOAD"

/-- `preamble` is the algorithm, the signing time and the scope. -/
structure ChunkVerifier where
  signingKey : Bytes
  preamble : Bytes
  previous : Bytes
deriving DecidableEq

def ValidatedRequest.chunkVerifier (vr : ValidatedRequest) : ChunkVerifier where
  signingKey := vr.signingKey
  preamble := streamingAlgorithm ++ [newline] ++ vr.signingTime ++ [newline] ++ vr.scope ++
    [newline]
  previous := vr.signature

/-- A chunk as it was sent: the signature it claims, and its data. -/
structure Frame where
  signature : Bytes
  data : Bytes
deriving DecidableEq

namespace ChunkVerifier

variable (lib : Stdlib)

/-- The only signature the chain goes on with. -/
def expected (v : ChunkVerifier) (chunkSHA256 : Bytes) : Bytes :=
  hexEncode (lib.hmacSHA256 v.signingKey
    (v.preamble ++ v.previous ++ [newline] ++ emptyBodyHash ++ [newline] ++ hexEncode chunkSHA256))

/-- Check a signature and go on from it; `none` is the mismatch. -/
def verifyChunk (v : ChunkVerifier) (signature chunkSHA256 : Bytes) : Option ChunkVerifier :=
  if v.expected lib chunkSHA256 = signature then
    some { v with previous := v.expected lib chunkSHA256 }
  else none

def verifyFrames (v : ChunkVerifier) : List Frame → Option ChunkVerifier
  | [] => some v
  | f :: fs => (v.verifyChunk lib f.signature (lib.sha256 f.data)).bind (verifyFrames · fs)

theorem verifyFrames_append (v : ChunkVerifier) (fs gs : List Frame) :
    v.verifyFrames lib (fs ++ gs) =
      (v.verifyFrames lib fs).bind fun v' => v'.verifyFrames lib gs := by
  induction fs generalizing v with
  | nil => rfl
  | cons f fs ih =>
    rw [List.cons_append, verifyFrames, verifyFrames, Option.bind_assoc]
    congr 1
    funext v'
    exact ih v'

theorem verifyFrames_snoc {v v' : ChunkVerifier} {fs : List Frame}
    (h : v.verifyFrames lib fs = some v') (f : Frame) :
    v.verifyFrames lib (fs ++ [f]) = v'.verifyChunk lib f.signature (lib.sha256 f.data) := by
  rw [verifyFrames_append, h]
  exact Option.bind_fun_some _

end ChunkVerifier
end TagGateway.Auth
