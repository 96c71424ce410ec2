import TagGateway.Proxy.Admission
import TagGateway.Proxy.ReadRoute
import TagGateway.Proxy.SignedHeaders

/-!
# When an entry is marked public

Upstream leaves the ACL out for objects that inherit their bucket's access. The
populate paths then mark the entry public when the read that succeeded was
anonymous. Whether it was is asked of two fields of the client's request, while
a presigned URL may carry its signature in others.
-/
namespace TagGateway.Proxy

open Foundation Cache Auth

/-- The ignored query parameters that are authentication material. -/
def authParams : List Bytes :=
  originlessIgnoredParams.filter fun p => !([ascii "x-id", ascii "Expires"].contains p)

inductive ForwardMode where
  | transparent
  | signing
deriving DecidableEq

inductive SentRequest where
  | unsigned
  | signedByGateway
  | client (header : Header) (query : List (Bytes × Bytes))

def SentRequest.carriesAuth : SentRequest → Bool
  | .unsigned => false
  | .signedByGateway => true
  | .client header query =>
    (header.values (canonicalHeaderKey (ascii "Authorization"))).isSome ||
      query.any fun p => authParams.contains p.1

/-- The paths that store a row, with what each of them has at hand. -/
inductive PopulatePath where
  /-- `streamFromUpstream`, for the client's full-object read. -/
  | broadcast (q : Request)
  /-- `handleRangeWithBackgroundCache` in block mode, for the client's range. -/
  | blockRange (q : Request)
  /-- `fetchFullObjectToCache`. -/
  | warm (anonymous : Bool)
  | revalidation
  | teedBody (putETag : Bytes) (bodyLength : ℤ)
  | blockMeta (writtenETag : Bytes)
  | parquetTrailer (writtenETag : Bytes)

section

variable (lib : Stdlib)

def readRequest (q : Request) (auth : AuthResult) : ReadRequest where
  bucket := (parseBucketKey q.url.path).1
  key := (parseBucketKey q.url.path).2
  header := q.header
  query := lib.parseQuery q.url.rawQuery
  auth := auth

def hasNoAuthCredentials (q : Request) : Bool :=
  (readRequest lib q .notValidated).hasNoAuthCredentials

def carriesAuth (q : Request) : Bool :=
  SentRequest.carriesAuth (.client q.header (lib.parseQuery q.url.rawQuery))

namespace PopulatePath

def client : PopulatePath → Option Request
  | .broadcast q | .blockRange q => some q
  | _ => none

def sent (mode : ForwardMode) : PopulatePath → SentRequest
  | .broadcast q | .blockRange q =>
    match mode with
    | .transparent => .client q.header (lib.parseQuery q.url.rawQuery)
    | .signing => .signedByGateway
  | .warm true => .unsigned
  | _ => .signedByGateway

def anonymous : PopulatePath → Bool
  | .broadcast q | .blockRange q => hasNoAuthCredentials lib q
  | .warm anonymous => anonymous
  | _ => false

/-- The row a path stores when its inference is gated on `anonymous`. -/
def rowWith (cfg : Config) (anonymous : Bool) (resp : Response) :
    PopulatePath → Option CachedObjectMeta
  | .broadcast _ | .warm _ => admitFullObject cfg anonymous resp
  | .blockRange q =>
    (admitRangeMiss cfg (q.header.get (ascii "Range")) anonymous resp).map Prod.fst
  | .revalidation => admitRevalidated cfg resp
  | .teedBody putETag bodyLength => admitTeedBody cfg putETag bodyLength resp
  | .blockMeta writtenETag => admitBlockMetaFromHead cfg writtenETag resp
  | .parquetTrailer writtenETag => (admitParquetTrailer cfg writtenETag resp).map Prod.fst

def row (cfg : Config) (resp : Response) (path : PopulatePath) : Option CachedObjectMeta :=
  path.rowWith cfg (path.anonymous lib) resp

/-- The path stores this response, whatever ACL the row gets. -/
def stores (cfg : Config) (resp : Response) (path : PopulatePath) : Bool :=
  (path.rowWith cfg false resp).isSome

variable (now : ℤ) (getSigningKey : Bytes → Bytes → Bytes → Option Bytes)

/-- The path gets an answer at all: signing mode turns away what it cannot
validate. -/
def Forwarded (mode : ForwardMode) (path : PopulatePath) : Prop :=
  mode = .signing → ∀ q, path.client = some q →
    ∃ vr, validateRequest lib now getSigningKey q = .ok vr

end PopulatePath

end

variable {lib : Stdlib} {now : ℤ} {getSigningKey : Bytes → Bytes → Bytes → Option Bytes}
  {cfg : Config} {resp : Response} {path : PopulatePath}

namespace PopulatePath

theorem rowWith_isSome (anonymous : Bool) :
    (path.rowWith cfg anonymous resp).isSome = path.stores cfg resp := by
  cases path with
  | broadcast q => exact admitFullObject_isSome anonymous resp
  | warm a => exact admitFullObject_isSome anonymous resp
  | blockRange q =>
    simp only [stores, rowWith, Option.isSome_map]
    exact admitRangeMiss_isSome _ anonymous resp
  | _ => rfl

theorem acl_of_row {m : CachedObjectMeta} (h : path.row lib cfg resp = some m) :
    m.acl = (withInferredACL (path.anonymous lib) resp.header).get (ascii "X-Amz-Acl") := by
  unfold row at h
  cases path with
  | broadcast q => exact admitFullObject_acl h
  | warm a => exact admitFullObject_acl h
  | blockRange q =>
    obtain ⟨⟨m', blocks⟩, hrow, rfl⟩ := Option.map_eq_some_iff.mp h
    exact admitRangeMiss_acl hrow
  | revalidation => exact admitRevalidated_acl h
  | teedBody putETag bodyLength => exact admitTeedBody_acl h
  | blockMeta writtenETag => exact admitBlockMetaFromHead_acl h
  | parquetTrailer writtenETag =>
    obtain ⟨⟨m', blocks⟩, hrow, rfl⟩ := Option.map_eq_some_iff.mp h
    exact admitParquetTrailer_acl hrow

/-- Without an ACL from upstream it is the flag that marks a row public. -/
theorem acl_eq_publicRead_iff {m : CachedObjectMeta} (h : path.row lib cfg resp = some m)
    (hacl : resp.header.get (ascii "X-Amz-Acl") = []) :
    m.acl = ascii "public-read" ↔ path.anonymous lib = true := by
  rw [acl_of_row h, withInferredACL_acl]
  cases path.anonymous lib with
  | true => simp [hacl]
  | false =>
    simp only [Bool.false_eq_true, false_and, if_false, hacl, iff_false]
    decide

end PopulatePath

/-- A request that signing mode accepts has SigV4 credentials. -/
theorem hasNoAuthCredentials_of_validateRequest {q : Request} {vr : ValidatedRequest}
    (h : validateRequest lib now getSigningKey q = .ok vr) : hasNoAuthCredentials lib q = false := by
  have hvalid : validate lib now getSigningKey q = .ok vr := by
    unfold validateRequest at h
    split_ifs at h
    exact h
  obtain ⟨info, -, hinfo, -⟩ := validate_ok hvalid
  by_contra hnone
  have hfields : q.header.get (ascii "Authorization") = [] ∧
      queryGet lib q (ascii "X-Amz-Credential") = [] := by
    simpa [hasNoAuthCredentials, ReadRequest.hasNoAuthCredentials, readRequest,
      ReadRequest.queryGet, queryGet] using hnone
  simp [parseAuthInfo, parseFromQuery, hfields.1, hfields.2] at hinfo

/-- A row without an ACL from upstream is stored as public only when upstream
answered a request without authentication material, exactly when no client read
that transparent mode sends on and whose answer is stored passes for anonymous
while it carries some. -/
theorem inferred_publicRead_proven_iff (lib : Stdlib) (now : ℤ)
    (getSigningKey : Bytes → Bytes → Bytes → Option Bytes) (cfg : Config) (mode : ForwardMode)
    (path : PopulatePath) (resp : Response) :
    (path.Forwarded lib now getSigningKey mode → ∀ m, path.row lib cfg resp = some m →
      resp.header.get (ascii "X-Amz-Acl") = [] → m.acl = ascii "public-read" →
        (path.sent lib mode).carriesAuth = false) ↔
    ∀ q, path.client = some q → mode = .transparent → path.stores cfg resp = true →
      resp.header.get (ascii "X-Amz-Acl") = [] → hasNoAuthCredentials lib q = true →
        carriesAuth lib q = false := by
  constructor
  · intro hproven q hq hmode hstores hacl hnone
    subst hmode
    obtain ⟨m, hm⟩ := Option.isSome_iff_exists.mp
      ((path.rowWith_isSome (path.anonymous lib)).trans hstores)
    have hforwarded : path.Forwarded lib now getSigningKey .transparent := fun h => nomatch h
    have hclient : path.anonymous lib = hasNoAuthCredentials lib q ∧
        (path.sent lib .transparent).carriesAuth = carriesAuth lib q := by
      cases path with
      | broadcast q' | blockRange q' =>
        obtain rfl : q' = q := Option.some.inj hq
        exact ⟨rfl, rfl⟩
      | _ => cases hq
    rw [← hclient.2]
    refine hproven hforwarded m hm hacl ?_
    rw [PopulatePath.acl_eq_publicRead_iff hm hacl, hclient.1, hnone]
  · intro hcond hforwarded m hm hacl hpublic
    have hanon := (PopulatePath.acl_eq_publicRead_iff hm hacl).mp hpublic
    have hstores : path.stores cfg resp = true := by
      rw [← path.rowWith_isSome (path.anonymous lib)]
      exact Option.isSome_iff_exists.mpr ⟨m, hm⟩
    cases path with
    | broadcast q | blockRange q =>
      cases mode with
      | transparent => exact hcond q rfl rfl hstores hacl hanon
      | signing =>
        -- what signing mode accepts does not pass for anonymous
        obtain ⟨vr, hvr⟩ := hforwarded rfl q rfl
        rw [PopulatePath.anonymous, hasNoAuthCredentials_of_validateRequest hvr] at hanon
        cases hanon
    | warm anonymous =>
      cases anonymous with
      | true => rfl
      | false => cases hanon
    | _ => cases hanon

def presignedV2 : Request :=
  clientRequest "GET" "/b/k" "AWSAccessKeyId=AK&Expires=1&Signature=s" .empty

def rowConfig : Config where
  bucket := ascii "b"
  key := ascii "k"
  sizeThreshold := 1000
  blockSize := 100
  blockCachingEnabled := true
  parseTime _ := none

/-- An object whose access is its bucket's. -/
def inheritedAccess : Response where
  status := 200
  header := Header.empty.set (ascii "ETag") (ascii "v1")
  body := ascii "secret"

/-- Upstream serves it for its signature, and the row is marked public. -/
theorem presignedV2_stored_as_public :
    (∃ m, (PopulatePath.broadcast presignedV2).row plainLib rowConfig inheritedAccess = some m ∧
      m.acl = ascii "public-read") ∧
    inheritedAccess.header.get (ascii "X-Amz-Acl") = [] ∧
    ((PopulatePath.broadcast presignedV2).sent plainLib .transparent).carriesAuth = true := by
  have hrow : ((PopulatePath.broadcast presignedV2).row plainLib rowConfig inheritedAccess).any
      (fun m => decide (m.acl = ascii "public-read")) = true := by
    decide +kernel
  obtain ⟨m, hm, hacl⟩ := (Option.any_eq_true _ _).mp hrow
  exact ⟨⟨m, hm, of_decide_eq_true hacl⟩, by decide +kernel, by decide +kernel⟩

end TagGateway.Proxy
