import TagGateway.Auth.Validator
import TagGateway.Proxy.SigningForward

/-!
# Which headers either signature covers

The client's signature covers the headers it lists, the gateway's fresh one
covers every `x-amz-*` header and the content type of what it sends on. Nothing
compares the two sets.
-/
namespace TagGateway.Proxy

open Foundation Auth

def readHeaders : List Bytes :=
  [ascii "Authorization", ascii "X-Amz-Content-Sha256", ascii "X-Amz-Date", ascii "Date"]

/-- The second header map has the same values where the validator looks. -/
def AgreesWhereRead (info : AuthInfo) (h h' : Header) : Prop :=
  ∀ name, name ∈ readHeaders ∨ name ∈ info.signedHeaders →
    h'.values (canonicalHeaderKey name) = h.values (canonicalHeaderKey name)

section

variable (lib : Stdlib) (now : ℤ) (getSigningKey : Bytes → Bytes → Bytes → Option Bytes)

/-- Signing mode asks for a payload hash in every request. -/
def validateRequest (r : Request) : Except AuthError ValidatedRequest :=
  if r.header.get (ascii "X-Amz-Content-Sha256") = [] then .error .missingContentHash
  else validate lib now getSigningKey r

end

variable {lib : Stdlib} {now : ℤ} {getSigningKey : Bytes → Bytes → Bytes → Option Bytes}
  {r : Request} {info : AuthInfo} {h' : Header}

namespace AgreesWhereRead

theorem get_eq (h : AgreesWhereRead info r.header h') (name : Bytes)
    (hname : name ∈ readHeaders) : h'.get name = r.header.get name := by
  rw [Header.get, Header.get, h name (.inl hname)]

theorem parseAuthInfo_eq (h : AgreesWhereRead info r.header h') :
    parseAuthInfo lib { r with header := h' } = parseAuthInfo lib r := by
  unfold parseAuthInfo
  dsimp only
  rw [h.get_eq _ (by simp [readHeaders])]
  rfl

theorem requestDate_eq (h : AgreesWhereRead info r.header h') :
    requestDate h' = requestDate r.header := by
  unfold requestDate
  rw [h.get_eq (ascii "X-Amz-Date") (by simp [readHeaders]),
    h.get_eq (ascii "Date") (by simp [readHeaders])]

theorem canonicalHeaders_eq (h : AgreesWhereRead info r.header h') :
    buildCanonicalHeadersFromList { r with header := h' } info.signedHeaders =
      buildCanonicalHeadersFromList r info.signedHeaders := by
  unfold buildCanonicalHeadersFromList
  refine List.flatMap_congr fun name hname => ?_
  simp only [listedValue, headerValues, h name (.inr hname)]

theorem computeSignature_eq (h : AgreesWhereRead info r.header h') (signingKey bodyHash : Bytes)
    (signingTime : Time) :
    computeSignature lib { r with header := h' } info signingKey bodyHash signingTime =
      computeSignature lib r info signingKey bodyHash signingTime := by
  unfold computeSignature buildCanonicalRequest
  rw [h.canonicalHeaders_eq]
  rfl

theorem validate_eq (h : AgreesWhereRead info r.header h') (hinfo : parseAuthInfo lib r = .ok info) :
    validate lib now getSigningKey { r with header := h' } = validate lib now getSigningKey r := by
  have hdate : shortDate lib { r with header := h' } info = shortDate lib r info := by
    unfold shortDate
    dsimp only
    rw [h.requestDate_eq]
    rfl
  have hsigned : ∀ key bodyHash, validateSigned lib now { r with header := h' } info key bodyHash =
      validateSigned lib now r info key bodyHash := by
    intro key bodyHash
    unfold validateSigned
    dsimp only
    simp only [h.requestDate_eq, h.computeSignature_eq]
  have hpresigned : ∀ key, validatePresigned lib now { r with header := h' } info key =
      validatePresigned lib now r info key := by
    intro key
    unfold validatePresigned
    simp only [h.computeSignature_eq]
    rfl
  unfold validate
  dsimp only
  rw [h.parseAuthInfo_eq, hinfo, h.get_eq _ (by simp [readHeaders])]
  simp only [pure_bind, hdate, hsigned, hpresigned]

theorem validateRequest_eq (h : AgreesWhereRead info r.header h')
    (hinfo : parseAuthInfo lib r = .ok info) :
    validateRequest lib now getSigningKey { r with header := h' } =
      validateRequest lib now getSigningKey r := by
  unfold validateRequest
  rw [h.validate_eq hinfo]
  dsimp only
  rw [h.get_eq _ (by simp [readHeaders])]

end AgreesWhereRead

theorem headerLine_infix (lib : Stdlib) (bodyHash : Bytes) {name : Bytes}
    (hname : name ∈ info.signedHeaders) :
    headerLine name (listedValue r name) <:+: buildCanonicalRequest lib r info bodyHash := by
  obtain ⟨before, after, hsplit⟩ := List.append_of_mem hname
  have hlines : headerLine name (listedValue r name) <:+:
      buildCanonicalHeadersFromList r info.signedHeaders := by
    rw [buildCanonicalHeadersFromList, hsplit, List.flatMap_append, List.flatMap_cons,
      ← List.append_assoc]
    exact List.infix_append _ _ _
  exact hlines.trans (infix_joinWith newline (by simp))

def ownHeaders : List Bytes :=
  [ascii "Authorization", ascii "Host", ascii "X-Amz-Content-Sha256", ascii "X-Amz-Date"]

theorem shouldCopyHeader_of_signsHeader {k : Bytes} (h : signsHeader (toLower k) = true) :
    shouldCopyHeader k = true ∨ toLower k = ascii "host" := by
  simp only [signsHeader, Bool.or_eq_true, beq_iff_eq] at h
  rcases h with (hhost | hamz) | htype
  · exact .inr hhost
  · left
    simp [shouldCopyHeader, hamz]
  · left
    simp [shouldCopyHeader, htype, copiedHeaders]

theorem canonicalHeaderKey_ownHeaders : ∀ name ∈ ownHeaders, canonicalHeaderKey name = name := by
  decide

theorem values_signURL {id : SigningIdentity} {method bodyHash : Bytes} {base : URL}
    {client : Header} {time : Time} {out : Request}
    (hout : signURL lib id method base bodyHash client time = some out) {k : Bytes}
    (hcopy : shouldCopyHeader k = true) (hown : k ∉ ownHeaders) :
    out.header.values k = client.values k := by
  obtain ⟨url, -, rfl⟩ := Option.map_eq_some_iff.mp hout
  have hne : ∀ name ∈ ownHeaders, k ≠ canonicalHeaderKey name := by
    intro name hname heq
    rw [canonicalHeaderKey_ownHeaders name hname] at heq
    exact hown (heq ▸ hname)
  simp only [ownHeaders, List.forall_mem_cons] at hne
  obtain ⟨hauth, hhost, hhash, hdate, -⟩ := hne
  simp only [signHTTP, outgoingHeader, Header.set]
  rw [Header.values_put_ne _ _ hauth, Header.values_put_ne _ _ hhost,
    Header.values_put_ne _ _ hhash, Header.values_put_ne _ _ hdate]
  exact client.values_filter shouldCopyHeader hcopy

theorem mem_names_signURL {id : SigningIdentity} {method bodyHash : Bytes} {base : URL}
    {client : Header} {time : Time} {out : Request}
    (hout : signURL lib id method base bodyHash client time = some out) (k : Bytes) :
    k ∈ out.header.names ↔ k ∈ ownHeaders ∨ k ∈ client.names ∧ shouldCopyHeader k := by
  obtain ⟨url, -, rfl⟩ := Option.map_eq_some_iff.mp hout
  have hcanonical := canonicalHeaderKey_ownHeaders
  simp only [ownHeaders, List.forall_mem_cons] at hcanonical
  obtain ⟨hauth, hhost, hhash, hdate, -⟩ := hcanonical
  simp only [signHTTP, outgoingHeader, Header.set, Header.mem_names_put, hdate, hhash, hhost,
    hauth]
  simp only [ownHeaders, List.mem_cons, List.not_mem_nil, or_false, or_assoc,
    client.mem_names_filter shouldCopyHeader]

/-- What is signed of a request that is sent: the headers the signer sets and the
client's, by one rule. -/
theorem mem_signedNames_signURL {id : SigningIdentity} {method bodyHash : Bytes} {base : URL}
    {client : Header} {time : Time} {out : Request}
    (hout : signURL lib id method base bodyHash client time = some out) (name : Bytes) :
    name ∈ signedNames out ↔
      signsHeader name ∧ ∃ k ∈ ownHeaders ++ client.names, toLower k = name := by
  rw [mem_signedNames]
  simp only [mem_names_signURL hout, List.mem_append]
  constructor
  · rintro (rfl | ⟨hsigned, k, hk, rfl⟩)
    · exact ⟨by decide, ascii "Host", .inl (by simp [ownHeaders]), by decide⟩
    · exact ⟨hsigned, k, hk.imp_right And.left, rfl⟩
  · rintro ⟨hsigned, k, hk, rfl⟩
    rcases shouldCopyHeader_of_signsHeader hsigned with hcopy | hhost
    · exact .inr ⟨hsigned, k, hk.imp_right fun hk => ⟨hk, hcopy⟩, rfl⟩
    · exact .inl hhost

/-- The upstream request signs its own headers and every `x-amz-*` header and the
content type that the client's request is sent on with. -/
structure Covers (client : Header) (out : Request) : Prop where
  names : ∀ name, name ∈ signedNames out ↔
    signsHeader name ∧ ∃ k ∈ ownHeaders ++ client.names, toLower k = name
  values : ∀ k, signsHeader (toLower k) = true → toLower k ≠ ascii "host" → k ∉ ownHeaders →
    out.header.values k = client.values k

theorem signForward_covers {endpoint : URL} {id : SigningIdentity} {bodyHash : Bytes}
    {chunked : Bool} {time : Time} {out : Request}
    (hout : signForward lib endpoint id r bodyHash chunked time = some out) :
    Covers (headersForForwardedSigning r.header chunked) out where
  names := mem_signedNames_signURL hout
  values _ hsigned hhost hown :=
    values_signURL hout ((shouldCopyHeader_of_signsHeader hsigned).resolve_right hhost) hown

/-- An accepted request has its listed headers, and no others, bound by the
client's signature. The fresh signature does not go by that list: it covers what
is sent on, also where it is not what the client signed. -/
theorem accepted_headers_bound_by_list (lib : Stdlib) (now : ℤ)
    (getSigningKey : Bytes → Bytes → Bytes → Option Bytes) (r : Request) (vr : ValidatedRequest)
    (haccepted : validateRequest lib now getSigningKey r = .ok vr) :
    ∃ info t, parseAuthInfo lib r = .ok info ∧
      info.signature = signatureOf lib vr.signingKey t info.region
        (buildCanonicalRequest lib r info (checkedHash r info)) ∧
      (∀ name ∈ info.signedHeaders, headerLine name (listedValue r name) <:+:
        buildCanonicalRequest lib r info (checkedHash r info)) ∧
      ∀ h', AgreesWhereRead info r.header h' →
        validateRequest lib now getSigningKey { r with header := h' } = .ok vr ∧
        ∀ endpoint id bodyHash chunked time out,
          signForward lib endpoint id { r with header := h' } bodyHash chunked time = some out →
            Covers (headersForForwardedSigning h' chunked) out := by
  have hvalid : validate lib now getSigningKey r = .ok vr := by
    unfold validateRequest at haccepted
    split_ifs at haccepted
    exact haccepted
  obtain ⟨info, t, hinfo, hsignature⟩ := validate_ok hvalid
  refine ⟨info, t, hinfo, hsignature, fun name hname => headerLine_infix lib _ hname, ?_⟩
  intro h' hagrees
  refine ⟨(hagrees.validateRequest_eq hinfo).trans haccepted, ?_⟩
  intro endpoint id bodyHash chunked time out hout
  exact signForward_covers hout

def plainKeys : Bytes → Bytes → Bytes → Option Bytes := fun _ _ _ => some (ascii "key")

/-- The headers of a client that makes an object public without signing that. -/
def unlistedAcl : Header :=
  ((Header.empty.set (ascii "X-Amz-Date") (ascii "0")).set (ascii "X-Amz-Content-Sha256")
    (ascii "h")).set (ascii "X-Amz-Acl") (ascii "public-read")

def hostSigned (header : Header) : Request :=
  let r := clientRequest "PUT" "/b/k" "" header
  let canonical := canonicalRequest r.method r.url.path [] (headerLine (ascii "host") r.host)
    (ascii "host") (ascii "h")
  let authorization := algorithm ++ ascii " Credential=AK/20260101/auto/s3/aws4_request" ++
    ascii ", SignedHeaders=host, Signature=" ++
    signatureOf plainLib (ascii "key") ⟨0, 0⟩ (ascii "auto") canonical
  { r with header := header.set (ascii "Authorization") authorization }

theorem exists_ok_of_any {ε α : Type} {x : Except ε α} {p : α → Prop} [DecidablePred p]
    (h : x.toOption.any (fun a => decide (p a)) = true) : ∃ a, x = .ok a ∧ p a := by
  cases x with
  | error e => cases h
  | ok a => exact ⟨a, rfl, of_decide_eq_true h⟩

theorem hostSigned_accepted :
    ∃ vr, validateRequest plainLib 0 plainKeys (hostSigned unlistedAcl) = .ok vr ∧
      vr.accessKey = ascii "AK" :=
  exists_ok_of_any (by decide +kernel)

theorem accepted_headers_bound_by_list_host :
    ∃ vr info, validateRequest plainLib 0 plainKeys (hostSigned unlistedAcl) = .ok vr ∧
      parseAuthInfo plainLib (hostSigned unlistedAcl) = .ok info ∧
      ∀ h', AgreesWhereRead info (hostSigned unlistedAcl).header h' →
        validateRequest plainLib 0 plainKeys { hostSigned unlistedAcl with header := h' } =
          .ok vr := by
  obtain ⟨vr, hok, -⟩ := hostSigned_accepted
  obtain ⟨info, t, hinfo, -, -, hunlisted⟩ :=
    accepted_headers_bound_by_list plainLib 0 plainKeys (hostSigned unlistedAcl) vr hok
  exact ⟨vr, info, hok, hinfo, fun h' hagrees => (hunlisted h' hagrees).1⟩

/-- A header that is not in the client's list goes upstream under the fresh
signature. -/
theorem unlisted_header_is_resigned :
    ∃ vr info out, validateRequest plainLib 0 plainKeys (hostSigned unlistedAcl) = .ok vr ∧
      parseAuthInfo plainLib (hostSigned unlistedAcl) = .ok info ∧
      ascii "x-amz-acl" ∉ info.signedHeaders ∧
      signForward plainLib plainEndpoint plainIdentity (hostSigned unlistedAcl) (ascii "h") false
        ⟨0, 0⟩ = some out ∧
      ascii "x-amz-acl" ∈ signedNames out ∧
      out.header.get (ascii "X-Amz-Acl") = ascii "public-read" := by
  have hinfo : ∃ info, parseAuthInfo plainLib (hostSigned unlistedAcl) = .ok info ∧
      ascii "x-amz-acl" ∉ info.signedHeaders := exists_ok_of_any (by decide +kernel)
  have hout : (signForward plainLib plainEndpoint plainIdentity (hostSigned unlistedAcl)
      (ascii "h") false ⟨0, 0⟩).any (fun out => decide (ascii "x-amz-acl" ∈ signedNames out ∧
        out.header.get (ascii "X-Amz-Acl") = ascii "public-read")) = true := by
    decide +kernel
  obtain ⟨vr, hok, -⟩ := hostSigned_accepted
  obtain ⟨info, hparsed, hunlisted⟩ := hinfo
  obtain ⟨out, hsent, hsigned⟩ := (Option.any_eq_true _ _).mp hout
  exact ⟨vr, info, out, hok, hparsed, hunlisted, hsent, of_decide_eq_true hsigned⟩

end TagGateway.Proxy
