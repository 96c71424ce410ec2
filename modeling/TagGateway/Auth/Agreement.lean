import TagGateway.Auth.KeyStores
import TagGateway.Auth.Lifetime

/-!
# The signer and the validator agree

Both write the canonical text of a request for themselves: the signer from the headers it
is about to send, the validator from those it received and from the list in the client's
account of its signature. A request of the signer passes the validator.
-/
namespace TagGateway.Auth

open Foundation

/-! ## The account of a signature -/

def authorization (accessKey scope signedHeaders signature : Bytes) : Bytes :=
  algorithm ++ ascii " Credential=" ++ accessKey ++ ascii "/" ++ scope ++
    ascii ", SignedHeaders=" ++ signedHeaders ++ ascii ", Signature=" ++ signature

/-- None of the bytes that delimit the parts. -/
def IsPlain (s : Bytes) : Prop :=
  ∀ b ∈ s, b ≠ byte ',' ∧ b ≠ byte ';' ∧ b ≠ byte '=' ∧ b ≠ byte '/'

def isNameByte (b : UInt8) : Bool := isUpper b || isLower b || isDigit b || b == byte '-'

theorem isPlain_of_tokens {s : Bytes} (h : s.all isTokenByte = true) : IsPlain s := by
  have hall : ∀ n : Fin 256, isTokenByte (UInt8.ofFin n) = true → UInt8.ofFin n ≠ byte ',' ∧
      UInt8.ofFin n ≠ byte ';' ∧ UInt8.ofFin n ≠ byte '=' ∧ UInt8.ofFin n ≠ byte '/' := by
    decide +kernel
  exact fun b hb => hall b.toFin (List.all_eq_true.mp h b hb)

theorem isPlain_of_names {s : Bytes} (h : ∀ b ∈ s, isNameByte b = true) : IsPlain s := by
  have hall : ∀ n : Fin 256, isNameByte (UInt8.ofFin n) = true →
      isTokenByte (UInt8.ofFin n) = true := by
    decide +kernel
  exact isPlain_of_tokens (List.all_eq_true.mpr fun b hb => hall b.toFin (h b hb))

theorem takeWhile_delimiter {cls : UInt8 → Bool} {s : Bytes} {d : UInt8}
    (hs : ∀ b ∈ s, cls b = true) (hd : cls d = false) (rest : Bytes) :
    (s ++ d :: rest).takeWhile cls = s ∧ (s ++ d :: rest).dropWhile cls = d :: rest := by
  rw [List.takeWhile_append_of_pos hs, List.dropWhile_append_of_pos hs,
    List.takeWhile_cons_of_neg (by simp [hd]), List.dropWhile_cons_of_neg (by simp [hd]),
    List.append_nil]
  exact ⟨rfl, rfl⟩

theorem mem_joinWith {sep b : UInt8} {parts : List Bytes} (h : b ∈ joinWith sep parts) :
    b = sep ∨ ∃ p ∈ parts, b ∈ p := by
  induction parts with
  | nil => cases h
  | cons p parts ih =>
    cases parts with
    | nil => exact .inr ⟨p, by simp, by simpa [joinWith] using h⟩
    | cons q parts =>
      simp only [joinWith, List.intercalate_cons_cons, List.mem_append, List.mem_singleton] at h
      rcases h with (h | h) | h
      · exact .inr ⟨p, by simp, h⟩
      · exact .inl h
      · rcases ih h with h | ⟨r, hr, hb⟩
        · exact .inl h
        · exact .inr ⟨r, List.mem_cons_of_mem p hr, hb⟩

section

variable {accessKey date region signature : Bytes} {names : List Bytes}

def accountEnd (signedHeaders signature : Bytes) : Bytes :=
  ascii "SignedHeaders" ++ byte '=' :: (signedHeaders ++ ascii ", " ++
    (ascii "Signature" ++ byte '=' :: signature))

theorem authorization_eq (accessKey scope signedHeaders signature : Bytes) :
    authorization accessKey scope signedHeaders signature =
      ascii "AWS4-HMAC-SHA256 " ++ (ascii "Credential" ++ byte '=' :: (accessKey ++
        byte '/' :: (scope ++ ascii ", " ++ accountEnd signedHeaders signature))) := by
  have hcredential : ascii " Credential=" = ascii " " ++ (ascii "Credential" ++ [byte '=']) := by
    decide
  have hheaders : ascii ", SignedHeaders=" =
      ascii ", " ++ (ascii "SignedHeaders" ++ [byte '=']) := by
    decide
  have hsignature : ascii ", Signature=" = ascii ", " ++ (ascii "Signature" ++ [byte '=']) := by
    decide
  have halgorithm : ascii "AWS4-HMAC-SHA256 " = algorithm ++ ascii " " := by decide
  have hslash : ascii "/" = [byte '/'] := by decide
  rw [authorization, hcredential, hheaders, hsignature, halgorithm, hslash, accountEnd]
  simp only [List.append_assoc, List.cons_append, List.nil_append]

theorem credentialRegex_authorization (hkey : IsPlain accessKey) (hsome : accessKey ≠ [])
    (scope signedHeaders signature : Bytes) :
    credentialRegex (authorization accessKey scope signedHeaders signature) = some accessKey := by
  have hslash : ∀ b ∈ accessKey, (b != byte '/') = true := fun b hb => by
    simpa using (hkey b hb).2.2.2
  obtain ⟨hrun, hrest⟩ := takeWhile_delimiter (d := byte '/') hslash (by simp)
    (scope ++ ascii ", " ++ accountEnd signedHeaders signature)
  have hlit : ascii "Credential=" = ascii "Credential" ++ [byte '='] := by decide
  rw [credentialRegex, hlit, authorization_eq]
  exact findRun_hit (by decide) (by decide) (by decide) hrun hsome (by rw [hrest]; rfl)

theorem scopeRegex_authorization (hkey : IsPlain accessKey) {scope : Bytes}
    (hscope : byte ',' ∉ scope) (signedHeaders signature : Bytes) :
    scopeRegex (authorization accessKey scope signedHeaders signature) =
      some (accessKey ++ byte '/' :: scope) := by
  have hcomma : ∀ b ∈ accessKey ++ byte '/' :: scope, (b != byte ',') = true := by
    intro b hb
    simp only [List.mem_append, List.mem_cons] at hb
    rcases hb with hb | rfl | hb
    · simpa using (hkey b hb).1
    · decide
    · exact bne_iff_ne.mpr fun h => hscope (h ▸ hb)
  obtain ⟨hrun, -⟩ := takeWhile_delimiter (d := byte ',') hcomma (by simp)
    (ascii " " ++ accountEnd signedHeaders signature)
  have htext : accessKey ++ byte '/' :: (scope ++ ascii ", " ++
      accountEnd signedHeaders signature) = accessKey ++ byte '/' :: scope ++ byte ',' ::
        (ascii " " ++ accountEnd signedHeaders signature) := by
    have hcommaText : ascii ", " = byte ',' :: ascii " " := by decide
    rw [hcommaText]
    simp only [List.append_assoc, List.cons_append]
  have hlit : ascii "Credential=" = ascii "Credential" ++ [byte '='] := by decide
  rw [scopeRegex, hlit, authorization_eq, htext]
  exact findRun_hit (by decide) (by decide) (by decide) hrun (by simp) rfl

theorem findRun_authorization {name : Bytes} (hne : name ≠ []) (hname : byte '=' ∉ name)
    (hend : ¬ name <:+ ascii "AWS4-HMAC-SHA256 Credential") (cls : UInt8 → Bool)
    (follows : Bytes → Bool) (accessKey scope signedHeaders signature : Bytes) :
    findRun (name ++ [byte '=']) cls follows
        (authorization accessKey scope signedHeaders signature) =
      findRun (name ++ [byte '=']) cls follows
        (accessKey ++ byte '/' :: (scope ++ ascii ", ") ++ accountEnd signedHeaders signature) := by
  have htext : ascii "AWS4-HMAC-SHA256 Credential" =
      ascii "AWS4-HMAC-SHA256 " ++ ascii "Credential" := by
    decide
  rw [authorization_eq, ← List.append_assoc, ← htext,
    findRun_skip hne hname (by decide) hend]
  simp only [List.append_assoc, List.cons_append]

theorem signedHeadersRegex_authorization (hkey : IsPlain accessKey) {scope : Bytes}
    (hscope : byte '=' ∉ scope) {signedHeaders : Bytes} (hsome : signedHeaders ≠ [])
    (hheaders : byte ',' ∉ signedHeaders) (signature : Bytes) :
    signedHeadersRegex (authorization accessKey scope signedHeaders signature) =
      some signedHeaders := by
  have hcomma : ∀ b ∈ signedHeaders, (b != byte ',') = true := fun b hb =>
    bne_iff_ne.mpr fun h => hheaders (h ▸ hb)
  obtain ⟨hrun, -⟩ := takeWhile_delimiter (d := byte ',') hcomma (by simp)
    (ascii " " ++ (ascii "Signature" ++ byte '=' :: signature))
  have htext : signedHeaders ++ ascii ", " ++ (ascii "Signature" ++ byte '=' :: signature) =
      signedHeaders ++ byte ',' :: (ascii " " ++ (ascii "Signature" ++ byte '=' :: signature)) := by
    have hcommaText : ascii ", " = byte ',' :: ascii " " := by decide
    rw [hcommaText]
    simp only [List.append_assoc, List.cons_append]
  have hbefore : byte '=' ∉ accessKey ++ byte '/' :: (scope ++ ascii ", ") := by
    have hsep : byte '=' ∉ ascii ", " := by decide
    simp only [List.mem_append, List.mem_cons, not_or]
    exact ⟨fun h => (hkey _ h).2.2.1 rfl, by decide, hscope, hsep⟩
  have hlit : ascii "SignedHeaders=" = ascii "SignedHeaders" ++ [byte '='] := by decide
  rw [signedHeadersRegex, hlit, findRun_authorization (by decide) (by decide) (by decide),
    accountEnd, htext]
  exact findRun_hit (by decide) (by decide) hbefore hrun hsome rfl

theorem signatureRegex_authorization (hkey : IsPlain accessKey) {scope : Bytes}
    (hscope : byte '=' ∉ scope) {signedHeaders : Bytes} (hheaders : byte '=' ∉ signedHeaders)
    (hsig : ∀ b ∈ signature, (isDigit b || (byte 'a' ≤ b && b ≤ byte 'f')) = true) :
    (signatureRegex (authorization accessKey scope signedHeaders signature)).getD [] =
      signature := by
  have hsep : byte '=' ∉ ascii ", " := by decide
  have hlit : ascii "Signature=" = ascii "Signature" ++ [byte '='] := by decide
  have hseg : byte '=' ∉
      accessKey ++ byte '/' :: (scope ++ ascii ", ") ++ ascii "SignedHeaders" := by
    have hname : byte '=' ∉ ascii "SignedHeaders" := by decide
    simp only [List.mem_append, List.mem_cons, not_or]
    exact ⟨⟨fun h => (hkey _ h).2.2.1 rfl, by decide, hscope, hsep⟩, hname⟩
  have hend : ¬ ascii "Signature" <:+
      accessKey ++ byte '/' :: (scope ++ ascii ", ") ++ ascii "SignedHeaders" := by
    intro h
    have hshort := List.suffix_of_suffix_length_le h (List.suffix_append _ _) (by decide)
    exact absurd hshort (by decide)
  have hbefore : byte '=' ∉ signedHeaders ++ ascii ", " := by
    simp only [List.mem_append, not_or]
    exact ⟨hheaders, hsep⟩
  rw [signatureRegex, hlit, findRun_authorization (by decide) (by decide) (by decide),
    accountEnd, ← List.append_assoc, findRun_skip (by decide) (by decide) hseg hend]
  rcases eq_or_ne signature [] with rfl | hsome
  · have hnone : byte '=' ∉ signedHeaders ++ ascii ", " ++ ascii "Signature" := by
      have hname : byte '=' ∉ ascii "Signature" := by decide
      rw [List.mem_append, not_or]
      exact ⟨hbefore, hname⟩
    rw [← List.append_assoc, findRun_empty (by decide) hnone]
    rfl
  · have hrun : (signature ++ []).takeWhile _ = signature ++ [] := List.takeWhile_append_of_pos hsig
    rw [List.append_nil] at hrun
    rw [findRun_hit (by decide) (by decide) hbefore hrun hsome rfl]
    rfl

theorem parseFromHeader_authorization (hkey : IsPlain accessKey) (hsome : accessKey ≠ [])
    (hdate : IsPlain date) (hregion : IsPlain region) (hnames : ∀ n ∈ names, IsPlain n)
    (hlist : joinWith (byte ';') names ≠ [])
    (hsig : ∀ b ∈ signature, (isDigit b || (byte 'a' ≤ b && b ≤ byte 'f')) = true) :
    parseFromHeader (authorization accessKey
        (joinWith (byte '/') [date, region, service, terminationString])
        (joinWith (byte ';') names) signature) =
      .ok
        { accessKey := accessKey, signedHeaders := names, signature := signature, region := region
          date := date } := by
  have hparts : ∀ p ∈ [date, region, service, terminationString], IsPlain p := by
    have hservice : IsPlain service := isPlain_of_tokens (by decide)
    have htermination : IsPlain terminationString := isPlain_of_tokens (by decide)
    simpa using ⟨hdate, hregion, hservice, htermination⟩
  have hscope : ∀ c, c ≠ byte '/' → (∀ s, IsPlain s → c ∉ s) →
      c ∉ joinWith (byte '/') [date, region, service, terminationString] := by
    intro c hc hplain hmem
    rcases mem_joinWith hmem with h | ⟨p, hp, h⟩
    · exact hc h
    · exact hplain p (hparts p hp) h
  have hheaders : ∀ c, c ≠ byte ';' → (∀ s, IsPlain s → c ∉ s) → c ∉ joinWith (byte ';') names := by
    intro c hc hplain hmem
    rcases mem_joinWith hmem with h | ⟨p, hp, h⟩
    · exact hc h
    · exact hplain p (hnames p hp) h
  have hequals : ∀ s, IsPlain s → byte '=' ∉ s := fun s hs h => (hs _ h).2.2.1 rfl
  have hcomma : ∀ s, IsPlain s → byte ',' ∉ s := fun s hs h => (hs _ h).1 rfl
  have hsplit : splitBytes ';' (joinWith (byte ';') names) = names := by
    refine List.splitOn_intercalate (byte ';') (fun n hn h => (hnames n hn _ h).2.1 rfl) ?_
    rintro rfl
    exact hlist rfl
  have hparse : scopeParts (accessKey ++ byte '/' ::
      joinWith (byte '/') [date, region, service, terminationString]) = some (date, region) := by
    have hjoin : accessKey ++ byte '/' ::
        joinWith (byte '/') [date, region, service, terminationString] =
        joinWith (byte '/') (accessKey :: [date, region, service, terminationString]) := by
      simp [joinWith]
    have hall : ∀ p ∈ accessKey :: [date, region, service, terminationString], byte '/' ∉ p := by
      intro p hp h
      rcases List.mem_cons.mp hp with rfl | hp
      · exact (hkey _ h).2.2.2 rfl
      · exact (hparts p hp _ h).2.2.2 rfl
    rw [scopeParts, hjoin, splitBytes, joinWith, List.splitOn_intercalate _ hall (by simp)]
  have hprefix : hasPrefix (authorization accessKey
      (joinWith (byte '/') [date, region, service, terminationString])
      (joinWith (byte ';') names) signature) algorithm = true := by
    rw [hasPrefix, List.isPrefixOf_iff_prefix]
    simp only [authorization, List.append_assoc]
    exact List.prefix_append _ _
  rw [parseFromHeader, if_pos hprefix, credentialRegex_authorization hkey hsome,
    scopeRegex_authorization hkey (hscope _ (by decide) hcomma),
    signedHeadersRegex_authorization hkey (hscope _ (by decide) hequals) hlist
      (hheaders _ (by decide) hcomma),
    signatureRegex_authorization hkey (hscope _ (by decide) hequals)
      (hheaders _ (by decide) hequals) hsig]
  simp [hparse, hsplit]

end

/-! ## The signed headers -/

section

variable {r : Request} {key : Bytes}

theorem signedEntries_values (hfield : ∀ k ∈ r.header.names, IsFieldName k)
    (hhost : (r.header.values (ascii "Host")).isSome = true) (hkey : IsFieldName key)
    (hsigns : signsHeader (toLower key) = true) :
    (signedEntries r).values (toLower key) = r.header.values key := by
  have hlisted : ∀ {key : Bytes}, IsFieldName key → signsHeader (toLower key) = true →
      (Header.putLower signsHeader r.header.entries .empty).values (toLower key) =
        r.header.values key := by
    intro key hkey hsigns
    have hentries : ∀ e ∈ r.header.entries, IsFieldName e.1 := fun e he =>
      hfield e.1 (List.mem_map_of_mem he)
    rw [Header.values_putLower _ hentries r.header.nodup .empty hkey hsigns]
    exact Option.or_none
  have hlower : toLower (ascii "Host") = ascii "host" := by decide
  have hsome := hlisted (by decide : IsFieldName (ascii "Host")) (by decide)
  rw [hlower, Header.putLower] at hsome
  rw [signedEntries, if_pos (by rw [hsome]; exact hhost)]
  exact hlisted hkey hsigns

theorem mem_signedNames_key (hfield : ∀ k ∈ r.header.names, IsFieldName k) {name : Bytes}
    (hname : name ∈ signedNames r) :
    ∃ key, IsFieldName key ∧ signsHeader (toLower key) = true ∧ toLower key = name ∧
      canonicalHeaderKey name = key := by
  have hkey : ∃ key, IsFieldName key ∧ signsHeader (toLower key) = true ∧ toLower key = name := by
    rcases (mem_signedNames r name).mp hname with rfl | ⟨hsigns, k, hk, rfl⟩
    · exact ⟨ascii "Host", by decide, by decide, by decide⟩
    · exact ⟨k, hfield k hk, hsigns, rfl⟩
  obtain ⟨key, hfieldName, hsigns, rfl⟩ := hkey
  exact ⟨key, hfieldName, hsigns, rfl, (canonicalHeaderKey_toLower hfieldName).1⟩

end

/-! ## From the signer to the validator -/

/-- The request as it arrives. The host is no header there. -/
structure Received (lib : Stdlib) (sent r : Request) : Prop where
  method : r.method = sent.method
  path : r.url.path = sent.url.path
  query : lib.parseQuery r.url.rawQuery = lib.parseQuery sent.url.rawQuery
  host : r.host = sent.host
  urlHost : r.url.host = [] ∨ r.url.host = sent.url.host
  header : ∀ name, name ≠ ascii "Host" → r.header.values name = sent.header.values name

/-- The text of `signedAt` is read back as `t`, the same time to the second. -/
structure ReadsBack (lib : Stdlib) (signedAt t : Time) : Prop where
  parse : lib.parseTime .amz (lib.formatTime signedAt) = some t
  time : lib.formatTime t = lib.formatTime signedAt
  date : lib.formatDate t = lib.formatDate signedAt
  timeText : lib.formatTime signedAt ≠ []
  dateText : lib.formatDate signedAt ≠ [] ∧ ∀ b ∈ lib.formatDate signedAt, isDigit b = true

section

variable {lib : Stdlib} {id : SigningIdentity} {client : Header} {signedAt t : Time}
  {q sent r : Request} {bodyHash : Bytes}

/-- What the signer signs: the headers it copies and its own. -/
structure Prepared (lib : Stdlib) (q : Request) (bodyHash : Bytes) (signedAt : Time) : Prop where
  field : ∀ k ∈ q.header.names, IsFieldName k
  host : q.host = q.url.host
  hostHeader : q.header.values (ascii "Host") = some [q.url.host]
  dateHeader : q.header.get (ascii "X-Amz-Date") = lib.formatTime signedAt
  hashHeader : q.header.get (ascii "X-Amz-Content-Sha256") = bodyHash
  hash : bodyHash ≠ []

theorem outgoingHeader_prepared (hclient : ∀ k ∈ client.names, IsFieldName k)
    (hhash : bodyHash ≠ []) (method : Bytes) (url : URL) :
    Prepared lib
      { method := method, url := url, host := url.host
        header := outgoingHeader lib client url.host bodyHash signedAt } bodyHash signedAt := by
  constructor
  · intro k hk
    simp only [outgoingHeader, Header.set, Header.mem_names_put, Header.mem_names_filter] at hk
    rcases hk with rfl | rfl | rfl | ⟨hk, -⟩
    · decide
    · decide
    · decide
    · exact hclient k hk
  · rfl
  · exact Header.values_put_self _ _ _
  · simp only [outgoingHeader]
    rw [Header.get_set_ne _ _ (by decide), Header.get_set_ne _ _ (by decide), Header.get_set_self]
  · simp only [outgoingHeader]
    rw [Header.get_set_ne _ _ (by decide), Header.get_set_self]
  · exact hhash

theorem Received.effectiveHost (hr : Received lib q r) (hq : q.host = q.url.host) :
    (if r.host = [] then r.url.host else r.host) = q.url.host := by
  have hhost := hr.host.trans hq
  split_ifs with hempty
  · rcases hr.urlHost with hnone | hsame
    · rw [hnone, ← hhost, hempty]
    · exact hsame
  · exact hhost

/-- Both sides write the same value for a signed header. -/
theorem Prepared.listedValue (hq : Prepared lib q bodyHash signedAt) {auth : Bytes}
    (hr : Received lib { q with header := q.header.set (ascii "Authorization") auth } r)
    {name : Bytes} (hname : name ∈ signedNames q) :
    listedValue r name = canonicalHeaderValues (((signedEntries q).values name).getD []) := by
  have hsome : (q.header.values (ascii "Host")).isSome = true := by
    rw [hq.hostHeader]
    rfl
  obtain ⟨key, hkey, hsigns, rfl, hcanonical⟩ := mem_signedNames_key hq.field hname
  rw [signedEntries_values hq.field hsome hkey hsigns, Auth.listedValue]
  by_cases hhost : toLower key = ascii "host"
  · have hkeyHost : key = ascii "Host" := by
      rw [← hcanonical, hhost]
      decide
    rw [if_pos hhost, hr.effectiveHost hq.host, hkeyHost, hq.hostHeader]
    simp [canonicalHeaderValues, joinWith]
  · have hnotHost : key ≠ ascii "Host" := by
      rintro rfl
      exact hhost (by decide)
    have hnotAuth : key ≠ canonicalHeaderKey (ascii "Authorization") := by
      rintro rfl
      exact absurd hsigns (by decide)
    rw [if_neg hhost, headerValues, hcanonical, hr.header key hnotHost]
    dsimp only
    rw [Header.set, Header.values_put_ne _ _ hnotAuth]

theorem Prepared.canonicalHeaders (hq : Prepared lib q bodyHash signedAt) {auth : Bytes}
    (hr : Received lib { q with header := q.header.set (ascii "Authorization") auth } r) :
    buildCanonicalHeadersFromList r (signedNames q) = (buildCanonicalHeaders q).1 := by
  rw [buildCanonicalHeadersFromList, buildCanonicalHeaders]
  refine List.flatMap_congr fun name hname => ?_
  rw [hq.listedValue hr hname]

def signedSignature (lib : Stdlib) (id : SigningIdentity) (q : Request) (bodyHash : Bytes)
    (signedAt : Time) : Bytes :=
  signatureOf lib (deriveSigningKey lib id.secretKey (lib.formatDate signedAt) id.region) signedAt
    id.region (canonicalRequest q.method q.url.path (lib.parseQuery q.url.rawQuery)
      (buildCanonicalHeaders q).1 (buildCanonicalHeaders q).2 bodyHash)

theorem signHTTP_eq (lib : Stdlib) (id : SigningIdentity) (q : Request) (bodyHash : Bytes)
    (signedAt : Time) :
    signHTTP lib id q bodyHash signedAt =
      { q with
        header := q.header.set (ascii "Authorization")
          (authorization id.accessKey (credentialScope lib signedAt id.region)
            (joinWith (byte ';') (signedNames q))
            (signedSignature lib id q bodyHash signedAt)) } := rfl

/-- An identity whose key and region hold letters, digits and hyphens. -/
structure PlainIdentity (id : SigningIdentity) : Prop where
  accessKey_ne : id.accessKey ≠ []
  accessKey : ∀ b ∈ id.accessKey, isNameByte b = true
  region : ∀ b ∈ id.region, isNameByte b = true

theorem Prepared.parseAuthInfo (hq : Prepared lib q bodyHash signedAt) (hid : PlainIdentity id)
    (hback : ReadsBack lib signedAt t)
    (hr : Received lib (signHTTP lib id q bodyHash signedAt) r) :
    parseAuthInfo lib r = .ok
      { accessKey := id.accessKey, signedHeaders := signedNames q
        signature := signedSignature lib id q bodyHash signedAt, region := id.region
        date := lib.formatDate signedAt } := by
  have hauth : r.header.get (ascii "Authorization") =
      authorization id.accessKey (credentialScope lib signedAt id.region)
        (joinWith (byte ';') (signedNames q)) (signedSignature lib id q bodyHash signedAt) := by
    rw [Header.get, hr.header _ (by decide), signHTTP_eq]
    exact Header.get_set_self _ _ _
  have hsome : authorization id.accessKey (credentialScope lib signedAt id.region)
      (joinWith (byte ';') (signedNames q)) (signedSignature lib id q bodyHash signedAt) ≠ [] := by
    rw [authorization_eq]
    exact List.append_ne_nil_of_left_ne_nil (by decide) _
  have hnames : ∀ n ∈ signedNames q, IsPlain n := by
    intro n hn
    obtain ⟨key, hkey, -, rfl, -⟩ := mem_signedNames_key hq.field hn
    exact isPlain_of_tokens (canonicalHeaderKey_toLower hkey).2
  have hhost : ascii "host" ∈ signedNames q := (mem_signedNames q _).mpr (.inl rfl)
  have hlist : joinWith (byte ';') (signedNames q) ≠ [] := by
    intro hempty
    have hinfix := infix_joinWith (byte ';') hhost
    rw [hempty, List.infix_nil] at hinfix
    exact absurd hinfix (by decide)
  have hdigits : ∀ b ∈ lib.formatDate signedAt, isNameByte b = true := fun b hb => by
    simp [isNameByte, hback.dateText.2 b hb]
  rw [Auth.parseAuthInfo, hauth, if_neg hsome]
  exact parseFromHeader_authorization (isPlain_of_names hid.accessKey) hid.accessKey_ne
    (isPlain_of_names hdigits) (isPlain_of_names hid.region) hnames hlist
    fun b hb => mem_hexEncode hb

/-- The validator computes the signature that the signer wrote. -/
theorem Prepared.computeSignature (hq : Prepared lib q bodyHash signedAt)
    (hback : ReadsBack lib signedAt t) (hr : Received lib (signHTTP lib id q bodyHash signedAt) r)
    {info : AuthInfo} (hpresigned : info.isPresigned = false)
    (hheaders : info.signedHeaders = signedNames q) (hregion : info.region = id.region) :
    computeSignature lib r info
        (deriveSigningKey lib id.secretKey (lib.formatDate signedAt) id.region) bodyHash t =
      signedSignature lib id q bodyHash signedAt := by
  have hscope : credentialScope lib t id.region = credentialScope lib signedAt id.region := by
    rw [credentialScope, credentialScope, hback.date]
  have hlines := hq.canonicalHeaders hr
  have hquery : signedQuery lib r false = lib.parseQuery q.url.rawQuery := hr.query
  rw [Auth.computeSignature, buildCanonicalRequest, hpresigned, hheaders, hregion, hquery, hlines,
    hr.method, hr.path, signedSignature, signatureOf, signatureOf, stringToSign, stringToSign,
    hscope, hback.time]
  rfl

variable {now : ℤ} {getSigningKey : Bytes → Bytes → Bytes → Option Bytes}

theorem Prepared.validate (hq : Prepared lib q bodyHash signedAt) (hid : PlainIdentity id)
    (hback : ReadsBack lib signedAt t) (hr : Received lib (signHTTP lib id q bodyHash signedAt) r)
    (hage : -maxRequestAge ≤ now - t.instant ∧ now - t.instant ≤ maxRequestAge)
    (hkey : getSigningKey id.accessKey (lib.formatDate signedAt) id.region =
      some (deriveSigningKey lib id.secretKey (lib.formatDate signedAt) id.region)) :
    validate lib now getSigningKey r = .ok
      { accessKey := id.accessKey
        signingKey := deriveSigningKey lib id.secretKey (lib.formatDate signedAt) id.region
        signingTime := lib.formatTime signedAt
        scope := credentialScope lib signedAt id.region
        signature := signedSignature lib id q bodyHash signedAt } := by
  have hget : ∀ name, canonicalHeaderKey name ≠ ascii "Host" →
      canonicalHeaderKey name ≠ canonicalHeaderKey (ascii "Authorization") →
      r.header.get name = q.header.get name := by
    intro name hhost hauth
    rw [Header.get, hr.header _ hhost, signHTTP_eq]
    exact Header.get_set_ne _ _ hauth
  have hhash : r.header.get (ascii "X-Amz-Content-Sha256") = bodyHash :=
    (hget _ (by decide) (by decide)).trans hq.hashHeader
  have hdate : requestDate r.header = lib.formatTime signedAt := by
    rw [requestDate, hget _ (by decide) (by decide), hq.dateHeader, if_neg hback.timeText]
  have htime : parseHTTPDate lib (lib.formatTime signedAt) = some t := by
    simp [parseHTTPDate, hback.parse]
  have hsigned : validateSigned lib now r
      { accessKey := id.accessKey, signedHeaders := signedNames q
        signature := signedSignature lib id q bodyHash signedAt, region := id.region
        date := lib.formatDate signedAt }
      (deriveSigningKey lib id.secretKey (lib.formatDate signedAt) id.region) bodyHash = .ok t := by
    have hyoung : ¬ (now - t.instant > maxRequestAge ∨ now - t.instant < -maxRequestAge) := by
      omega
    simp only [validateSigned, hdate, hback.timeText, if_false, htime, hyoung, bind, Except.bind,
      pure, Except.pure]
    rw [hq.computeSignature hback hr rfl rfl rfl]
    simp
  have hscope : credentialScope lib t id.region = credentialScope lib signedAt id.region := by
    rw [credentialScope, credentialScope, hback.date]
  simp only [Auth.validate, hq.parseAuthInfo hid hback hr, hhash, hq.hash, shortDate,
    hback.dateText.1, bind, Except.bind, pure, Except.pure]
  simp [hkey, hsigned, hscope, hback.time]

/-- The validator has the secret of the access key, or the key derived from it for the day and
the region. -/
def HoldsKey (lib : Stdlib) (id : SigningIdentity) (signedAt : Time) (now : ℤ)
    (getSigningKey : Bytes → Bytes → Bytes → Option Bytes) : Prop :=
  (∃ c : CredentialStore, c.getSecretKey id.accessKey = some id.secretKey ∧
    getSigningKey = c.getSigningKey lib) ∨
  ∃ d : DerivedKeyStore, d.getSigningKey now id.accessKey (lib.formatDate signedAt) id.region =
      some (deriveSigningKey lib id.secretKey (lib.formatDate signedAt) id.region) ∧
    getSigningKey = d.getSigningKey now

theorem HoldsKey.signingKey (h : HoldsKey lib id signedAt now getSigningKey) :
    getSigningKey id.accessKey (lib.formatDate signedAt) id.region =
      some (deriveSigningKey lib id.secretKey (lib.formatDate signedAt) id.region) := by
  rcases h with ⟨c, hsecret, rfl⟩ | ⟨d, hderived, rfl⟩
  · rw [CredentialStore.getSigningKey, hsecret]
    rfl
  · exact hderived

theorem signURL_prepared (hclient : ∀ k ∈ client.names, IsFieldName k) {method : Bytes} {base : URL}
    (h : signURL lib id method base bodyHash client signedAt = some sent) :
    ∃ q hash, Prepared lib q hash signedAt ∧ sent = signHTTP lib id q hash signedAt := by
  obtain ⟨url, -, rfl⟩ := Option.map_eq_some_iff.mp h
  refine ⟨_, _, outgoingHeader_prepared hclient ?_ method url, rfl⟩
  split_ifs with hnone
  · decide
  · exact hnone

/-- A request that the signer built passes the validator. -/
theorem signed_request_accepted (hid : PlainIdentity id)
    (hclient : ∀ k ∈ client.names, IsFieldName k) {endpoint : URL} {method : Bytes}
    (hsent : (∃ target, signRequest lib endpoint id method target bodyHash client signedAt =
        some sent) ∨
      ∃ bucket key, signObjectRequest lib endpoint id method bucket key bodyHash client signedAt =
        some sent)
    (hr : Received lib sent r) (hback : ReadsBack lib signedAt t)
    (hage : -maxRequestAge ≤ now - t.instant ∧ now - t.instant ≤ maxRequestAge)
    (hkey : HoldsKey lib id signedAt now getSigningKey) :
    ∃ vr, validate lib now getSigningKey r = .ok vr ∧ vr.accessKey = id.accessKey := by
  obtain ⟨base, hbase⟩ : ∃ base, signURL lib id method base bodyHash client signedAt =
      some sent := by
    rcases hsent with ⟨target, h⟩ | ⟨bucket, key, h⟩
    · exact ⟨_, h⟩
    · exact ⟨_, h⟩
  obtain ⟨q, hash, hq, rfl⟩ := signURL_prepared hclient hbase
  exact ⟨_, hq.validate hid hback hr hage hkey.signingKey, rfl⟩

end

def uploadHeader : Header :=
  (Header.empty.set (ascii "Content-Type") (ascii "text/plain")).set (ascii "X-Amz-Meta-Note")
    (ascii " two  words ")

def uploader : SigningIdentity where
  accessKey := ascii "AK-1"
  secretKey := ascii "secret"
  region := ascii "auto"

theorem signed_upload_accepted :
    ∃ sent vr, signObjectRequest dayLib { host := ascii "store" } uploader (ascii "PUT") (ascii "b")
        (ascii "k?") [] uploadHeader ⟨86460 * second + 7, 0⟩ = some sent ∧
      validate dayLib (86460 * second + maxRequestAge)
        (CredentialStore.getSigningKey ⟨[(ascii "AK-1", ascii "secret")]⟩ dayLib)
        { sent with
          header := sent.header.del (ascii "Host"), url := { sent.url with host := [] } } =
          .ok vr ∧ vr.accessKey = ascii "AK-1" := by
  obtain ⟨sent, hsent⟩ : ∃ sent, signObjectRequest dayLib { host := ascii "store" } uploader
      (ascii "PUT") (ascii "b") (ascii "k?") [] uploadHeader ⟨86460 * second + 7, 0⟩ = some sent :=
    ⟨_, rfl⟩
  have hid : PlainIdentity uploader :=
    ⟨by decide +kernel, by decide +kernel, by decide +kernel⟩
  have hclient : ∀ k ∈ uploadHeader.names, IsFieldName k := by decide +kernel
  have hr : Received dayLib sent
      { sent with header := sent.header.del (ascii "Host"), url := { sent.url with host := [] } } :=
    { method := rfl
      path := rfl
      query := rfl
      host := rfl
      urlHost := .inl rfl
      header := fun name hname => Header.values_erase_ne _ hname }
  have hback : ReadsBack dayLib ⟨86460 * second + 7, 0⟩ ⟨86460 * second, 0⟩ :=
    ⟨by decide, by decide, by decide, by decide, by decide +kernel⟩
  have hage : -maxRequestAge ≤ 86460 * second + maxRequestAge - 86460 * second ∧
      86460 * second + maxRequestAge - 86460 * second ≤ maxRequestAge := by decide
  obtain ⟨vr, haccepted, hname⟩ := signed_request_accepted hid hclient (.inr ⟨_, _, hsent⟩) hr hback
    hage (.inl ⟨⟨[(ascii "AK-1", ascii "secret")]⟩, by decide, rfl⟩)
  exact ⟨sent, vr, hsent, haccepted, hname⟩

end TagGateway.Auth
