import TagGateway.Auth.SigV4

/-!
# The signer

Builds the upstream request: the target URL, the client's headers that go along,
and a fresh signature over the host, every `x-amz-*` header and the content
type.
-/
namespace TagGateway.Auth

open Foundation

def copiedHeaders : List Bytes :=
  [ascii "content-type", ascii "content-length", ascii "content-encoding",
    ascii "content-disposition", ascii "content-language", ascii "cache-control",
    ascii "expires", ascii "content-md5", ascii "range", ascii "if-match", ascii "if-none-match",
    ascii "if-modified-since", ascii "if-unmodified-since"]

def isAmzHeader (lower : Bytes) : Bool := hasPrefix lower (ascii "x-amz-")

/-- The headers of the proxy protocol itself are never taken from a client. -/
def shouldCopyHeader (key : Bytes) : Bool :=
  let lower := toLower key
  if lower ∈ copiedHeaders then true
  else if isAmzHeader lower then true
  else if hasPrefix lower (ascii "x-tigris-proxy-") ∨ lower = ascii "x-tigris-forwarded-host" then
    false
  else hasPrefix lower (ascii "tigris-") || hasPrefix lower (ascii "x-tigris-")

def signsHeader (lower : Bytes) : Bool :=
  lower == ascii "host" || isAmzHeader lower || lower == ascii "content-type"

/-- The part of a path with a query that is the path, and the rest. -/
def splitTarget (target : Bytes) : Bytes × Bytes :=
  (cutAt (byte '?') target).getD (target, [])

section

variable (lib : Stdlib)

/-- An encoded form that does not belong to the path is dropped. -/
def dropStaleRawPath (u : URL) : URL :=
  if u.rawPath ≠ [] ∧ lib.pathUnescape u.rawPath ≠ some u.path then { u with rawPath := [] } else u

/-- A relative path gets a slash when there is a host. -/
def addLeadingSlash (u : URL) : URL :=
  if u.host ≠ [] ∧ u.path ≠ [] ∧ u.path.head? ≠ some (byte '/') then
    { u with path := byte '/' :: u.path, rawPath := [] }
  else u

/-- The path as the transport will see it. An endpoint without a hierarchy has no
path at all. -/
def normalisePath (u : URL) : URL :=
  if u.opaqueData ≠ [] then { u with path := [], rawPath := [] }
  else addLeadingSlash (dropStaleRawPath lib u)

/-- The URL the request is sent to. A number sign in the query goes the long way
round, through the URL's string form. -/
def finishURL (u : URL) : Option URL :=
  let u := normalisePath lib u
  let u := { u with forceQuery := u.forceQuery && u.rawQuery == [] }
  if byte '#' ∈ u.rawQuery then lib.reparse u else some u

/-- The client's headers that go along, with what the signer sets itself. -/
def outgoingHeader (client : Header) (host bodyHash : Bytes) (now : Time) : Header :=
  let copied : Header := ⟨client.entries.filter fun e => shouldCopyHeader e.1,
    client.nodup_filter _⟩
  ((copied.set (ascii "X-Amz-Date") (lib.formatTime now)).set
    (ascii "X-Amz-Content-Sha256") bodyHash).set (ascii "Host") host

def signedEntries (r : Request) : Header :=
  let listed := r.header.entries.foldl
    (fun h e => if signsHeader (toLower e.1) then h.put (toLower e.1) e.2 else h) .empty
  if (listed.values (ascii "host")).isSome then listed
  else listed.put (ascii "host") [r.url.host]

def signedNames (r : Request) : List Bytes := sortBytes ((signedEntries r).entries.map Prod.fst)

def buildCanonicalHeaders (r : Request) : Bytes × Bytes :=
  let lines := (signedNames r).flatMap fun name =>
    headerLine name (canonicalHeaderValues (((signedEntries r).values name).getD []))
  (lines, joinWith (byte ';') (signedNames r))

def deriveSigningKey (secretKey date region : Bytes) : Bytes :=
  let kDate := lib.hmacSHA256 (ascii "AWS4" ++ secretKey) date
  let kRegion := lib.hmacSHA256 kDate region
  let kService := lib.hmacSHA256 kRegion service
  lib.hmacSHA256 kService terminationString

structure SigningIdentity where
  accessKey : Bytes
  secretKey : Bytes
  region : Bytes

def signHTTP (id : SigningIdentity) (r : Request) (bodyHash : Bytes) (now : Time) : Request :=
  let (canonicalHeaders, signedHeaders) := buildCanonicalHeaders r
  let canonical := canonicalRequest r.method r.url.path (lib.parseQuery r.url.rawQuery)
    canonicalHeaders signedHeaders bodyHash
  let signingKey := deriveSigningKey lib id.secretKey (lib.formatDate now) id.region
  let signature := signatureOf lib signingKey now id.region canonical
  { r with header := r.header.set (ascii "Authorization") (algorithm ++ ascii " Credential=" ++
      id.accessKey ++ ascii "/" ++ credentialScope lib now id.region ++ ascii ", SignedHeaders=" ++
      signedHeaders ++ ascii ", Signature=" ++ signature) }

def signURL (id : SigningIdentity) (method : Bytes) (base : URL) (bodyHash : Bytes)
    (client : Header) (now : Time) : Option Request :=
  let bodyHash := if bodyHash = [] then emptyBodyHash else bodyHash
  (finishURL lib base).map fun url =>
    signHTTP lib id
      { method := method, url := url, host := url.host
        header := outgoingHeader lib client url.host bodyHash now } bodyHash now

def signRequest (endpoint : URL) (id : SigningIdentity) (method target bodyHash : Bytes)
    (client : Header) (now : Time) : Option Request :=
  signURL lib id method
    { endpoint with path := (splitTarget target).1, rawQuery := (splitTarget target).2 }
    bodyHash client now

/-- Sign a request of the gateway's own for one object. The key is taken
literally. -/
def signObjectRequest (endpoint : URL) (id : SigningIdentity) (method bucket key bodyHash : Bytes)
    (client : Header) (now : Time) : Option Request :=
  signURL lib id method
    { endpoint with path := ascii "/" ++ bucket ++ ascii "/" ++ key, rawQuery := [] }
    bodyHash client now

end

theorem mem_signedNames (r : Request) (name : Bytes) :
    name ∈ signedNames r ↔ name = ascii "host" ∨
      signsHeader name ∧ ∃ k ∈ r.header.names, toLower k = name := by
  have hlisted := Header.mem_names_putLower signsHeader name r.header.entries .empty
  rw [Header.putLower] at hlisted
  have hempty : name ∉ Header.empty.names := List.not_mem_nil
  have hsort : name ∈ signedNames r ↔ name ∈ (signedEntries r).names := List.mem_insertionSort _
  rw [hsort]
  unfold signedEntries
  dsimp only
  split_ifs with hhost
  · rw [hlisted]
    simp only [hempty, false_or]
    refine ⟨.inr, fun h => h.elim (fun heq => ?_) id⟩
    subst heq
    exact (hlisted.mp (Header.mem_names_of_isSome hhost)).resolve_left hempty
  · rw [Header.mem_names_put, hlisted]
    simp only [hempty, false_or]
    rfl

end TagGateway.Auth
