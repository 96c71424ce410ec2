import TagGateway.Auth.Signer

/-!
# The target of a re-signed request

In signing mode the client's decoded path and its raw query are joined into one
text, which the signer splits again at the first question mark. The object the
cache works with is read off the client's path directly.
-/
namespace TagGateway.Proxy

open Foundation Auth

def parseBucketKey (path : Bytes) : Bytes × Bytes :=
  let path := if hasPrefix path (ascii "/") then path.drop 1 else path
  (cutAt (byte '/') path).getD (path, [])

/-- The tokens of a content coding but for the chunk framing. -/
def stripAWSChunkedToken (coding : Bytes) : Bytes :=
  joinWith (byte ',') (((coding.splitOn (byte ',')).map trimSpace).filter fun part =>
    part != [] && foldCase part != ascii "aws-chunked")

/-- The headers as they will be sent. A body that was decoded loses the headers of
its framing. -/
def headersForForwardedSigning (headers : Header) (chunked : Bool) : Header :=
  if chunked then
    let forwarded := headers.del (ascii "X-Amz-Decoded-Content-Length")
    let coding := forwarded.get (ascii "Content-Encoding")
    if coding = [] then forwarded
    else if stripAWSChunkedToken coding = [] then forwarded.del (ascii "Content-Encoding")
    else forwarded.set (ascii "Content-Encoding") (stripAWSChunkedToken coding)
  else headers

def joinTarget (path rawQuery : Bytes) : Bytes :=
  if rawQuery = [] then path else path ++ byte '?' :: rawQuery

variable (lib : Stdlib)

def signForward (endpoint : URL) (id : SigningIdentity) (r : Request) (bodyHash : Bytes)
    (chunked : Bool) (now : Time) : Option Request :=
  signRequest lib endpoint id r.method (joinTarget r.url.path r.url.rawQuery) bodyHash
    (headersForForwardedSigning r.header chunked) now

theorem splitTarget_joinTarget {path : Bytes} (h : byte '?' ∉ path) (rawQuery : Bytes) :
    splitTarget (joinTarget path rawQuery) = (path, rawQuery) := by
  unfold joinTarget splitTarget
  split_ifs with hq
  · rw [cutAt_of_not_mem h, hq, Option.getD_none]
  · rw [cutAt_append h, Option.getD_some]

theorem not_mem_splitTarget (target : Bytes) : byte '?' ∉ (splitTarget target).1 := by
  unfold splitTarget
  cases hcut : cutAt (byte '?') target with
  | some p => exact not_mem_of_cutAt hcut
  | none =>
    rw [Option.getD_none]
    intro hmem
    obtain ⟨s, t, rfl, hs⟩ := List.eq_append_cons_of_mem hmem
    rw [cutAt_append hs] at hcut
    cases hcut

def sentPath (endpoint : URL) (path : Bytes) : Bytes :=
  if endpoint.opaqueData ≠ [] then []
  else if endpoint.host ≠ [] ∧ path ≠ [] ∧ path.head? ≠ some (byte '/') then byte '/' :: path
  else path

theorem normalisePath_path (endpoint : URL) (path rawQuery : Bytes) :
    (normalisePath lib { endpoint with path := path, rawQuery := rawQuery }).path =
      sentPath endpoint path := by
  have hdrop : ∀ u : URL, (dropStaleRawPath lib u).path = u.path ∧
      (dropStaleRawPath lib u).host = u.host := by
    intro u
    unfold dropStaleRawPath
    split_ifs <;> exact ⟨rfl, rfl⟩
  obtain ⟨hpath, hhost⟩ := hdrop { endpoint with path := path, rawQuery := rawQuery }
  unfold normalisePath sentPath
  split_ifs
  · rfl
  · simp only [addLeadingSlash, hpath, hhost]
    rw [if_pos ‹_›]
  · simp only [addLeadingSlash, hpath, hhost]
    rw [if_neg ‹_›, hpath]

theorem normalisePath_rawQuery (u : URL) : (normalisePath lib u).rawQuery = u.rawQuery := by
  unfold normalisePath addLeadingSlash dropStaleRawPath
  split_ifs <;> rfl

theorem sentPath_eq_iff (endpoint : URL) (path : Bytes) :
    sentPath endpoint path = path ↔ path = [] ∨ endpoint.opaqueData = [] ∧
      (endpoint.host = [] ∨ path.head? = some (byte '/')) := by
  unfold sentPath
  cases path with
  | nil => simp
  | cons b bs =>
    by_cases hdata : endpoint.opaqueData = []
    · by_cases hhost : endpoint.host = []
      · simp [hdata, hhost]
      · by_cases hb : b = byte '/'
        · simp [hdata, hhost, hb]
        · simp [hdata, hhost, hb]
    · simp [hdata]

theorem not_mem_sentPath {endpoint : URL} {path : Bytes} (h : byte '?' ∉ path) :
    byte '?' ∉ sentPath endpoint path := by
  unfold sentPath
  split_ifs
  · exact List.not_mem_nil
  · simp only [List.mem_cons, not_or]
    exact ⟨by decide, h⟩
  · exact h

theorem finishURL_path (hreparse : ∀ u u', lib.reparse u = some u' → u'.path = u.path)
    {endpoint url : URL} {path rawQuery : Bytes}
    (h : finishURL lib { endpoint with path := path, rawQuery := rawQuery } = some url) :
    url.path = sentPath endpoint path := by
  unfold finishURL at h
  dsimp only at h
  rw [← normalisePath_path lib endpoint path rawQuery]
  split_ifs at h
  · have hkept := hreparse _ _ h
    exact hkept
  · rw [← Option.some.inj h]

theorem finishURL_of_not_mem (endpoint : URL) (path : Bytes) {rawQuery : Bytes}
    (h : byte '#' ∉ rawQuery) :
    ∃ url, finishURL lib { endpoint with path := path, rawQuery := rawQuery } = some url ∧
      url.path = sentPath endpoint path ∧ url.rawQuery = rawQuery := by
  unfold finishURL
  dsimp only
  rw [if_neg (by rwa [normalisePath_rawQuery])]
  exact ⟨_, rfl, normalisePath_path lib endpoint path rawQuery, normalisePath_rawQuery lib _⟩

/-- The request that is sent has the client's path and query, and names the same
object, exactly when the path has no question mark and needs no slash. A URL's
string form is parsed back to the same path. -/
theorem signForward_keeps_target_iff
    (hreparse : ∀ u u', lib.reparse u = some u' → u'.path = u.path) (endpoint : URL)
    (id : SigningIdentity) (r : Request) (bodyHash : Bytes) (chunked : Bool) (now : Time)
    (hquery : byte '#' ∉ r.url.rawQuery) :
    (∃ out, signForward lib endpoint id r bodyHash chunked now = some out ∧
        out.url.path = r.url.path ∧ out.url.rawQuery = r.url.rawQuery ∧
        parseBucketKey out.url.path = parseBucketKey r.url.path) ↔
      byte '?' ∉ r.url.path ∧ (r.url.path = [] ∨ endpoint.opaqueData = [] ∧
        (endpoint.host = [] ∨ r.url.path.head? = some (byte '/'))) := by
  rw [← sentPath_eq_iff]
  constructor
  · rintro ⟨out, hout, hpath, -, -⟩
    obtain ⟨url, hurl, rfl⟩ := Option.map_eq_some_iff.mp hout
    have hsent := (finishURL_path lib hreparse hurl).symm.trans hpath
    have hmark : byte '?' ∉ r.url.path := by
      rw [← hsent]
      exact not_mem_sentPath (not_mem_splitTarget _)
    rw [splitTarget_joinTarget hmark] at hsent
    exact ⟨hmark, hsent⟩
  · rintro ⟨hmark, hsent⟩
    obtain ⟨url, hurl, hpath, hraw⟩ := finishURL_of_not_mem lib endpoint r.url.path hquery
    have hkept : url.path = r.url.path := hpath.trans hsent
    unfold signForward signRequest signURL
    rw [splitTarget_joinTarget hmark, hurl, Option.map_some]
    exact ⟨_, rfl, hkept, hraw, congrArg parseBucketKey hkept⟩

/-- A platform to evaluate requests on. The hash functions are injective. -/
def plainLib : Stdlib where
  hmacSHA256 key data := key ++ 0 :: data
  sha256 := id
  parseTime _ text := (parseInt text).2.elim (some ⟨(parseInt text).1 * 1000000000, 0⟩) fun _ => none
  formatTime _ := ascii "20260101T000000Z"
  formatDate _ := ascii "20260101"
  parseQuery raw := (raw.splitOn (byte '&')).filterMap (cutAt (byte '='))
  pathUnescape := some
  reparse := some

def plainEndpoint : URL where
  scheme := ascii "https"
  host := ascii "origin"

def plainIdentity : SigningIdentity where
  accessKey := ascii "AK"
  secretKey := ascii "SK"
  region := ascii "auto"

def clientRequest (method path rawQuery : String) (header : Header) : Request where
  method := ascii method
  url := { path := ascii path, rawQuery := ascii rawQuery }
  host := ascii "gateway"
  header := header

theorem signForward_keeps_target_iff_plain :
    ∃ out, signForward plainLib plainEndpoint plainIdentity
        (clientRequest "GET" "/b/dir/k" "versionId=3" .empty) [] false ⟨0, 0⟩ = some out ∧
      out.url.path = ascii "/b/dir/k" ∧ out.url.rawQuery = ascii "versionId=3" ∧
      parseBucketKey out.url.path = parseBucketKey (ascii "/b/dir/k") :=
  (signForward_keeps_target_iff plainLib (fun u u' h => by rw [Option.some.inj h])
    plainEndpoint plainIdentity (clientRequest "GET" "/b/dir/k" "versionId=3" .empty) [] false ⟨0, 0⟩
    (by decide)).mpr (by decide)

/-- A key with a question mark: the request that is sent names the object up to
it, while the cache works with the whole key. -/
theorem signForward_truncates_key :
    (∃ out, signForward plainLib plainEndpoint plainIdentity
        (clientRequest "DELETE" "/b/k?x" "" .empty) [] false ⟨0, 0⟩ = some out ∧
      out.url.path = ascii "/b/k" ∧ out.url.rawQuery = ascii "x") ∧
      parseBucketKey (ascii "/b/k") = (ascii "b", ascii "k") ∧
      parseBucketKey (ascii "/b/k?x") = (ascii "b", ascii "k?x") := by
  refine ⟨⟨_, rfl, ?_, ?_⟩, ?_, ?_⟩
  all_goals decide +kernel

end TagGateway.Proxy
