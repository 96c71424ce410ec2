import TagGateway.Foundation.HttpHeader

/-!
# Cached object metadata

The row stored under the one mutable key of an object, how it is built from an
upstream response, and the predicates that decide whether it may be stored and
whom it may be served to. The stored encoding is left out: a row is its decoded
value.
-/
namespace TagGateway.Cache

open Foundation

structure BlockSpan where
  first : ℤ
  last : ℤ
deriving DecidableEq, Repr

/-- The metadata row. `contentLength = -1` is an unknown length, `blockSize = 0`
a body stored whole. -/
structure CachedObjectMeta where
  key : Bytes
  bucket : Bytes
  etag : Bytes := []
  contentType : Bytes := []
  contentLength : ℤ := 0
  lastModified : ℤ := 0
  cacheControl : Bytes := []
  storageClass : Bytes := []
  acl : Bytes := []
  contentEncoding : Bytes := []
  contentDisposition : Bytes := []
  contentLanguage : Bytes := []
  expires : Bytes := []
  serverSideEncryption : Bytes := []
  versionID : Bytes := []
  partsCount : Bytes := []
  userMetadata : List (Bytes × Bytes) := []
  statusCode : ℕ := 0
  bodyUpstream : Bool := false
  blockSize : ℤ := 0
  blocksComplete : Bool := false
  rangeBlockSpan : Option BlockSpan := none
  bodyRef : Bytes := []
  cachedAt : ℤ := 0
deriving DecidableEq, Repr

/-- An upstream response as far as the cache reads it. `contentLength` is the
transport's own account of the length, `receivedAt` the wall clock (in
seconds) when the metadata is built. -/
structure Response where
  status : ℕ
  header : Header
  contentLength : ℤ := -1
  body : Bytes := []
  receivedAt : ℤ := 0
deriving DecidableEq

/-- The `x-amz-meta-*` fields with lower-case names, first value each. -/
def userMetadataOf (h : Header) : List (Bytes × Bytes) :=
  h.entries.filterMap fun e =>
    let name := toLower e.1
    if hasPrefix name (ascii "x-amz-meta-") then e.2.head?.map (name, ·) else none

/-- The length a `Content-Length` value declares; absent is unknown, and an
unreadable value keeps what the number parser left. -/
def declaredLength (value : Bytes) : ℤ := if value = [] then -1 else (parseInt value).1

section

variable (parseTime : Bytes → Option ℤ)

/-- Build the row from a response's headers. `parseTime` reads an HTTP date as
seconds since the epoch. -/
def metaFromHTTPHeaders (bucket key : Bytes) (statusCode : ℕ) (headers : Header) (now : ℤ) :
    CachedObjectMeta where
  key := key
  bucket := bucket
  statusCode := statusCode
  cachedAt := now
  etag := headers.get (ascii "ETag")
  contentType := headers.get (ascii "Content-Type")
  cacheControl := headers.get (ascii "Cache-Control")
  storageClass := headers.get (ascii "x-amz-storage-class")
  acl := headers.get (ascii "X-Amz-Acl")
  contentEncoding := headers.get (ascii "Content-Encoding")
  contentDisposition := headers.get (ascii "Content-Disposition")
  contentLanguage := headers.get (ascii "Content-Language")
  expires := headers.get (ascii "Expires")
  serverSideEncryption := headers.get (ascii "x-amz-server-side-encryption")
  versionID := headers.get (ascii "x-amz-version-id")
  partsCount := headers.get (ascii "x-amz-mp-parts-count")
  contentLength := declaredLength (headers.get (ascii "Content-Length"))
  lastModified :=
    let value := headers.get (ascii "Last-Modified")
    if value = [] then 0 else (parseTime value).getD 0
  userMetadata := userMetadataOf headers

end

def trimQuotes (s : Bytes) : Bytes :=
  ((s.dropWhile (· == byte '"')).reverse.dropWhile (· == byte '"')).reverse

/-- A tag as part of a body key: the quotes go, the weak marker stays. -/
def etagKeyComponent (etag : Bytes) : Bytes :=
  let weak := hasPrefix etag (ascii "W/")
  let bare := trimQuotes (if weak then etag.drop 2 else etag)
  if weak then ascii "W/" ++ bare else bare

/-- A tag for comparison: neither the quotes nor the weak marker count. -/
def normalizeETag (etag : Bytes) : Bytes :=
  trimQuotes (if hasPrefix etag (ascii "W/") then etag.drop 2 else etag)

/-- The tag is in the list of an `If-Match` or `If-None-Match` header. In the strong
comparison a weak tag on either side never matches. -/
def etagListed (header etag : Bytes) (strong : Bool) : Bool :=
  if header = [] ∨ etag = [] then false
  else if header = ascii "*" then true
  else (header.splitOn (byte ',')).any fun candidate =>
    let candidate := trimSpace candidate
    candidate == ascii "*" || (candidate != [] &&
      !(strong && (hasPrefix candidate (ascii "W/") || hasPrefix etag (ascii "W/"))) &&
      normalizeETag candidate == normalizeETag etag)

namespace CachedObjectMeta

variable (m : CachedObjectMeta)

def matchesETagHeader (header : Bytes) (strong : Bool) : Bool := etagListed header m.etag strong

def bodyDiscriminator : Bytes := if m.bodyRef = [] then m.etag else m.bodyRef

def isPublicRead : Bool :=
  m.acl == ascii "public-read" || m.acl == ascii "public-read-write"

/-- The row may be stored: it names a version, no directive forbids a shared
cache, and the object is within the size bound. -/
def isCacheable (maxSize : ℤ) : Bool :=
  let cc := toLower m.cacheControl
  m.etag != [] && !(contains cc (ascii "no-store") || contains cc (ascii "private")) &&
    decide (m.contentLength ≤ maxSize)

theorem etag_ne_nil_of_isCacheable {maxSize : ℤ} (h : m.isCacheable maxSize = true) :
    m.etag ≠ [] := by
  simp only [isCacheable, Bool.and_eq_true, bne_iff_ne] at h
  exact h.1.1

end CachedObjectMeta

def setNonempty (h : Header) (name : String) (value : Bytes) : Header :=
  if value = [] then h else h.set (ascii name) value

/-- The object's fields as response headers. User metadata keeps its lower-case
names. `formatTime` writes a Unix time as an HTTP date. -/
def CachedObjectMeta.writeHeaders (formatTime : ℤ → Bytes) (m : CachedObjectMeta) (h : Header) :
    Header :=
  let h := setNonempty h "ETag" m.etag
  let h := setNonempty h "Content-Type" m.contentType
  let h := if 0 ≤ m.contentLength then h.set (ascii "Content-Length") (formatInt m.contentLength)
    else h
  let h := if 0 < m.lastModified then h.set (ascii "Last-Modified") (formatTime m.lastModified)
    else h
  let h := setNonempty h "Cache-Control" m.cacheControl
  let h := setNonempty h "x-amz-storage-class" m.storageClass
  let h := setNonempty h "X-Amz-Acl" m.acl
  let h := setNonempty h "Content-Encoding" m.contentEncoding
  let h := setNonempty h "Content-Disposition" m.contentDisposition
  let h := setNonempty h "Content-Language" m.contentLanguage
  let h := setNonempty h "Expires" m.expires
  let h := setNonempty h "x-amz-server-side-encryption" m.serverSideEncryption
  let h := setNonempty h "x-amz-version-id" m.versionID
  let h := setNonempty h "x-amz-mp-parts-count" m.partsCount
  m.userMetadata.foldl (fun h kv => h.put (toLower kv.1) [kv.2]) h

def withRangeHeaders (start stop totalSize : ℤ) (h : Header) : Header :=
  let h := h.set (ascii "Content-Length") (formatInt (stop - start + 1))
  let h := h.set (ascii "Content-Range") (ascii "bytes " ++ formatInt start ++ ascii "-" ++
    formatInt stop ++ ascii "/" ++ formatInt totalSize)
  h.set (ascii "Accept-Ranges") (ascii "bytes")

end TagGateway.Cache
