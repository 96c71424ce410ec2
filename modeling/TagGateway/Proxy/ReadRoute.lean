import TagGateway.Cache.Object

/-!
# Where an object read goes

How `HandleGetObject` and `HandleHeadObject` decide between the cached entry, a
revalidation, a plain forward and a coalesced fetch. The decision reads the
request, the result of the local signature check and the entry the cache holds.
-/
namespace TagGateway.Proxy

open Foundation Cache

inductive AuthResult where
  | validated
  | notValidated
deriving DecidableEq

inductive ReadMethod where
  | get
  | head
deriving DecidableEq

/-- An object GET or HEAD. `query` is the decoded query string in order. -/
structure ReadRequest where
  method : ReadMethod := .get
  bucket : Bytes
  key : Bytes
  header : Header := .empty
  query : List (Bytes × Bytes) := []
  auth : AuthResult
deriving DecidableEq

inductive XCache where
  | miss
  | bypass
  | disabled
deriving DecidableEq

structure ReadConfig where
  cacheEnabled : Bool
  channelBuffer : ℤ

def cacheMissStatus (cfg : ReadConfig) (bypassCache : Bool) : XCache :=
  if !cfg.cacheEnabled then .disabled else if bypassCache then .bypass else .miss

/-- The query parameters that select another representation than the current
object under its own headers. -/
def readRepresentationSelectors : List Bytes :=
  [ascii "versionId", ascii "partNumber", ascii "response-cache-control",
    ascii "response-content-disposition", ascii "response-content-encoding",
    ascii "response-content-language", ascii "response-content-type", ascii "response-expires"]

/-- Query parameters that select no operation or representation: the no-op tag of
client libraries, and the auth parameters of presigned URLs, SigV4 and SigV2. -/
def originlessIgnoredParams : List Bytes :=
  [ascii "x-id",
    ascii "X-Amz-Algorithm", ascii "X-Amz-Credential", ascii "X-Amz-Date", ascii "X-Amz-Expires",
    ascii "X-Amz-SignedHeaders", ascii "X-Amz-Signature", ascii "X-Amz-Security-Token",
    ascii "AWSAccessKeyId", ascii "Signature", ascii "Expires"]

namespace ReadRequest

variable (r : ReadRequest)

def hasRepresentationSelectors : Bool :=
  r.query.any fun p => readRepresentationSelectors.contains p.1

def queryGet (name : Bytes) : Bytes := (r.query.lookup name).getD []

def hasNoAuthCredentials : Bool :=
  r.header.get (ascii "Authorization") == [] && r.queryGet (ascii "X-Amz-Credential") == []

def isAnonymousRequest : Bool := r.auth == .notValidated && r.hasNoAuthCredentials

def rangeHeader : Bytes := r.header.get (ascii "Range")

def shouldForceRevalidate : Bool :=
  let cc := r.header.get (ascii "Cache-Control")
  contains cc (ascii "no-cache") || contains cc (ascii "max-age=0")

def shouldBypassCache : Bool :=
  contains (r.header.get (ascii "Cache-Control")) (ascii "no-store")

/-- The path under which concurrent fetches are shared. Only full-object reads
get that far, so the variant with a range is never built. -/
def broadcastKey : Bytes := r.bucket ++ ascii "/" ++ r.key

end ReadRequest

inductive Route where
  /-- The client's own request goes upstream and its answer is passed on. -/
  | forward (xCache : XCache)
  /-- A conditional request signed with the gateway's credentials asks whether
  the entry is still current. -/
  | revalidate (m : CachedObjectMeta)
  /-- The entry is served; `revalidated` when a revalidation came before. -/
  | serve (m : CachedObjectMeta) (revalidated : Bool)
  /-- A full-object fetch that may be shared. -/
  | coalesce
deriving DecidableEq

variable (cfg : ReadConfig) (r : ReadRequest)

/-- The entry this request may be answered from: the cache is only read for a
validated or an anonymous request, and only a public entry shows itself to the
latter. -/
def visibleEntry (entry : Option CachedObjectMeta) : Option CachedObjectMeta :=
  if (r.auth = .validated ∨ r.isAnonymousRequest) ∧ ¬ r.shouldBypassCache ∧ cfg.cacheEnabled then
    entry.filter fun m => !r.isAnonymousRequest || m.isPublicRead
  else none

def missRoute : Route :=
  if r.method = .head ∨ r.rangeHeader ≠ [] then .forward (cacheMissStatus cfg r.shouldBypassCache)
  else .coalesce

/-- A request with selectors never looks at the cache. -/
def arrivalRoute : Option Route :=
  if r.hasRepresentationSelectors then some (.forward (cacheMissStatus cfg true)) else none

/-- The conditional GET only understands entries stored whole. -/
def revalidates (m : CachedObjectMeta) : Bool :=
  r.shouldForceRevalidate && m.etag != [] && (r.method == .head || m.blockSize == 0)

def lookupRoute (entry : Option CachedObjectMeta) : Route :=
  match visibleEntry cfg r entry with
  | none => missRoute cfg r
  | some m =>
    if revalidates r m then .revalidate m
    else if r.shouldForceRevalidate then missRoute cfg r
    else .serve m false

/-- Where the read goes when the entry's body turns out to be unavailable. -/
def fallbackRoute (revalidated : Bool) : Route :=
  if revalidated then .forward .miss else missRoute cfg r

theorem visibleEntry_idem (entry : Option CachedObjectMeta) :
    visibleEntry cfg r (visibleEntry cfg r entry) = visibleEntry cfg r entry := by
  unfold visibleEntry
  split_ifs with h
  · simp [Option.filter_filter]
  · rfl

theorem lookupRoute_visibleEntry (entry : Option CachedObjectMeta) :
    lookupRoute cfg r (visibleEntry cfg r entry) = lookupRoute cfg r entry := by
  simp only [lookupRoute, visibleEntry_idem]

theorem eq_of_visibleEntry {entry : Option CachedObjectMeta} {m : CachedObjectMeta}
    (h : visibleEntry cfg r entry = some m) : entry = some m := by
  unfold visibleEntry at h
  split_ifs at h
  exact (Option.filter_eq_some_iff.mp h).1

/-- A request that was not validated is answered from public entries only. -/
theorem isPublicRead_of_visibleEntry {entry : Option CachedObjectMeta} {m : CachedObjectMeta}
    (hr : r.auth = .notValidated) (h : visibleEntry cfg r entry = some m) :
    r.isAnonymousRequest = true ∧ m.isPublicRead = true := by
  unfold visibleEntry at h
  split_ifs at h with hlook
  have hanon : r.isAnonymousRequest = true := by simpa [hr] using hlook.1
  obtain ⟨-, hm⟩ := Option.filter_eq_some_iff.mp h
  exact ⟨hanon, by simpa [hanon] using hm⟩

end TagGateway.Proxy
