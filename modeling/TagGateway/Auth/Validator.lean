import TagGateway.Auth.Parser

/-!
# The validator

Accepts a request when the signature it carries is the one its own account of
the signed headers, its path, query and payload hash give under the signing
key. Headers the client did not list are not part of that text.
-/
namespace TagGateway.Auth

open Foundation

def second : ℤ := 1000000000

def maxRequestAge : ℤ := 15 * 60 * second

def maxPresignedExpires : ℤ := 604800

/-- The outcome of a successful check, with the material the chunks of a signed
stream are checked against. -/
structure ValidatedRequest where
  accessKey : Bytes
  signingKey : Bytes
  signingTime : Bytes
  scope : Bytes
  signature : Bytes
deriving DecidableEq

def headerValues (h : Header) (name : Bytes) : List Bytes :=
  (h.values (canonicalHeaderKey name)).getD []

/-- The value the validator takes for a listed header. The host is no header of
the request. -/
def listedValue (r : Request) (name : Bytes) : Bytes :=
  if name = ascii "host" then canonicalHeaderValue (if r.host = [] then r.url.host else r.host)
  else canonicalHeaderValues (headerValues r.header name)

def buildCanonicalHeadersFromList (r : Request) (signedHeaders : List Bytes) : Bytes :=
  signedHeaders.flatMap fun name => headerLine name (listedValue r name)

section

variable (lib : Stdlib)

/-- The query that a signature covers; a presigned one does not cover itself. -/
def signedQuery (r : Request) (isPresigned : Bool) : List (Bytes × Bytes) :=
  let query := lib.parseQuery r.url.rawQuery
  if isPresigned then query.filter fun p => p.1 != ascii "X-Amz-Signature" else query

def buildCanonicalRequest (r : Request) (info : AuthInfo) (bodyHash : Bytes) : Bytes :=
  canonicalRequest r.method r.url.path (signedQuery lib r info.isPresigned)
    (buildCanonicalHeadersFromList r info.signedHeaders)
    (joinWith (byte ';') info.signedHeaders) bodyHash

def computeSignature (r : Request) (info : AuthInfo) (signingKey bodyHash : Bytes)
    (signingTime : Time) : Bytes :=
  signatureOf lib signingKey signingTime info.region (buildCanonicalRequest lib r info bodyHash)

def requestDate (h : Header) : Bytes :=
  let amzDate := h.get (ascii "X-Amz-Date")
  if amzDate = [] then h.get (ascii "Date") else amzDate

variable (now : ℤ)

def validateSigned (r : Request) (info : AuthInfo) (signingKey bodyHash : Bytes) :
    Except AuthError Time := do
  let dateStr := requestDate r.header
  if dateStr = [] then throw .invalidDate
  let some requestTime := parseHTTPDate lib dateStr | throw .invalidDate
  let age := now - requestTime.instant
  if age > maxRequestAge ∨ age < -maxRequestAge then throw .expiredRequest
  if info.signature ≠ computeSignature lib r info signingKey bodyHash requestTime then
    throw .signatureMismatch
  return requestTime

def validatePresigned (r : Request) (info : AuthInfo) (signingKey : Bytes) :
    Except AuthError Time := do
  let dateStr := queryGet lib r (ascii "X-Amz-Date")
  if dateStr = [] then throw .invalidDate
  let some requestTime := lib.parseTime .amz dateStr | throw .invalidDate
  let [expiresText] := ((lib.parseQuery r.url.rawQuery).filter fun p =>
      p.1 == ascii "X-Amz-Expires").map Prod.snd | throw .invalidExpires
  let (expires, expiresErr) := parseInt expiresText
  if expiresErr ≠ none ∨ expires < 1 ∨ expires > maxPresignedExpires then throw .invalidExpires
  let age := now - requestTime.instant
  if age < -maxRequestAge then throw .expiredRequest
  if age > expires * second then throw .expiredRequest
  if info.signature ≠ computeSignature lib r info signingKey unsignedPayload requestTime then
    throw .signatureMismatch
  return requestTime

/-- The calendar day whose signing key is looked up. -/
def shortDate (r : Request) (info : AuthInfo) : Except AuthError Bytes :=
  if info.date = [] then
    let dateStr := if info.isPresigned then queryGet lib r (ascii "X-Amz-Date")
      else requestDate r.header
    match parseHTTPDate lib dateStr with
    | some t => .ok (lib.formatDate { t with offset := 0 })
    | none => .error .invalidDate
  else .ok info.date

variable (getSigningKey : Bytes → Bytes → Bytes → Option Bytes)

def validate (r : Request) : Except AuthError ValidatedRequest := do
  let bodyHash := r.header.get (ascii "X-Amz-Content-Sha256")
  let info ← match parseAuthInfo lib r with
    | .ok info => pure info
    | .error e => throw (if bodyHash = [] then .missingContentHash else e)
  if bodyHash = [] ∧ ¬ (info.isPresigned ∧ r.method = ascii "GET") then throw .missingContentHash
  let date ← shortDate lib r info
  let some signingKey := getSigningKey info.accessKey date info.region | throw .unknownAccessKey
  let signingTime ← if info.isPresigned then validatePresigned lib now r info signingKey
    else validateSigned lib now r info signingKey bodyHash
  return {
    accessKey := info.accessKey
    signingKey := signingKey
    signingTime := lib.formatTime signingTime
    scope := credentialScope lib signingTime info.region
    signature := info.signature }

end

section

variable {lib : Stdlib} {now : ℤ} {r : Request} {info : AuthInfo}

theorem validateSigned_ok {signingKey bodyHash : Bytes} {t : Time}
    (h : validateSigned lib now r info signingKey bodyHash = .ok t) :
    info.signature = computeSignature lib r info signingKey bodyHash t := by
  simp only [validateSigned, bind, Except.bind, throw, throwThe, MonadExceptOf.throw, pure,
    Except.pure] at h
  repeat' split at h
  all_goals grind

theorem validatePresigned_ok {signingKey : Bytes} {t : Time}
    (h : validatePresigned lib now r info signingKey = .ok t) :
    info.signature = computeSignature lib r info signingKey unsignedPayload t := by
  simp only [validatePresigned, bind, Except.bind, throw, throwThe, MonadExceptOf.throw, pure,
    Except.pure] at h
  repeat' split at h
  all_goals grind

/-- The payload hash the client's signature is checked with. -/
def checkedHash (r : Request) (info : AuthInfo) : Bytes :=
  if info.isPresigned then unsignedPayload else r.header.get (ascii "X-Amz-Content-Sha256")

/-- What an accepted request is known to carry. -/
theorem validate_ok {getSigningKey : Bytes → Bytes → Bytes → Option Bytes} {vr : ValidatedRequest}
    (h : validate lib now getSigningKey r = .ok vr) :
    ∃ info t, parseAuthInfo lib r = .ok info ∧
      info.signature = computeSignature lib r info vr.signingKey (checkedHash r info) t := by
  cases hinfo : parseAuthInfo lib r with
  | error e =>
    simp only [validate, hinfo, bind, Except.bind, throw, throwThe, MonadExceptOf.throw] at h
    cases h
  | ok info =>
    simp only [validate, hinfo, bind, Except.bind, throw, throwThe, MonadExceptOf.throw, pure,
      Except.pure] at h
    refine ⟨info, ?_⟩
    unfold checkedHash
    -- only the two branches that return say anything
    repeat' split at h
    all_goals cases h
    · rename_i hpresigned _ t hok
      exact ⟨t, rfl, by rw [if_pos hpresigned]; exact validatePresigned_ok hok⟩
    · rename_i hpresigned _ t hok
      exact ⟨t, rfl, by rw [if_neg hpresigned]; exact validateSigned_ok hok⟩

theorem validate_signingKey {getSigningKey : Bytes → Bytes → Bytes → Option Bytes}
    {vr : ValidatedRequest} (h : validate lib now getSigningKey r = .ok vr)
    (hinfo : parseAuthInfo lib r = .ok info) :
    ∃ date, getSigningKey info.accessKey date info.region = some vr.signingKey := by
  simp only [validate, hinfo, bind, Except.bind, throw, throwThe, MonadExceptOf.throw, pure,
    Except.pure] at h
  repeat' split at h
  all_goals cases h
  all_goals
    rename_i hkey _ _ _ _
    exact ⟨_, hkey⟩

end

end TagGateway.Auth
