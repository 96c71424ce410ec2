import TagGateway.Auth.KeyStores
import TagGateway.Foundation.Machine
import TagGateway.Proxy.Mutation
import TagGateway.Proxy.ReadRoute
import TagGateway.Proxy.SigningForward

/-!
# Grants of cached reads

In transparent mode upstream decides who may read. The gateway looks at the answers:
a successful object read lets its access key read the bucket from the cache for a while,
a refusal ends that. A request is answered from the cache when its signature verifies
under a learned key and its access key has such a grant.
-/
namespace TagGateway.Proxy

open Foundation Cache Auth

def signingKeysHeader : Bytes := ascii "X-Tigris-Proxy-Signing-Keys"

section

variable (lib : KeyLib)

/-- The query parameters an object read may carry besides those that select a
representation or authenticate it. -/
def readAuthorizationParams : List Bytes :=
  [ascii "X-Amz-Checksum-Mode", ascii "x-amz-expected-bucket-owner", ascii "x-amz-request-payer"]

def isReadAuthorizationQuery (rawQuery : Bytes) : Bool :=
  rawQuery == [] || !lib.queryError rawQuery && (lib.parseQuery rawQuery).all fun p =>
    readRepresentationSelectors.contains p.1 || readAuthorizationParams.contains p.1 ||
      originlessIgnoredParams.contains p.1

/-- The access key a request presents and the bucket it names. -/
def presented (q : Request) : Option (Bytes × Bytes) :=
  (parseAuthInfo lib.toStdlib q).toOption.map fun info =>
    (info.accessKey, (parseBucketKey q.url.path).1)

/-- Keep the keys of an answer that decode. -/
def storeEntries (now : ℤ) (accessKey : Bytes) (d : DerivedKeyStore)
    (entries : List SigningKeyEntry) : DerivedKeyStore :=
  entries.foldl (fun d entry =>
    match lib.decodeHex entry.signingKey with
    | none => d
    | some key => d.store now accessKey entry.date entry.region key) d

/-- The keys are taken from a success only; the client never sees their header. -/
def learnSigningKeys (now : ℤ) (resp : Response) (q : Request) (d : DerivedKeyStore) :
    Response × DerivedKeyStore :=
  let headerVal := resp.header.get signingKeysHeader
  let resp := { resp with header := resp.header.del signingKeysHeader }
  if headerVal = [] ∨ ¬ isSuccess resp.status then (resp, d)
  else
    match parseAuthInfo lib.toStdlib q with
    | .error _ => (resp, d)
    | .ok info =>
      match unwrap lib headerVal info.accessKey with
      | none => (resp, d)
      | some entries => (resp, storeEntries lib now info.accessKey d entries)

def grantReadAuthorization (now : ℤ) (resp : Response) (q : Request) (c : AuthzCache) :
    AuthzCache :=
  if isSuccess resp.status ∧ (q.method = ascii "GET" ∨ q.method = ascii "HEAD") ∧
      isReadAuthorizationQuery lib q.url.rawQuery then
    match parseAuthInfo lib.toStdlib q with
    | .error _ => c
    | .ok info =>
      let (bucket, key) := parseBucketKey q.url.path
      if bucket = [] ∨ key = [] then c else c.grant now info.accessKey bucket
  else c

def handleAuthzRevocation (resp : Response) (q : Request) (c : AuthzCache) : AuthzCache :=
  if resp.status = 403 then
    match parseAuthInfo lib.toStdlib q with
    | .error _ => c
    | .ok info => c.revoke info.accessKey (parseBucketKey q.url.path).1
  else c

/-- The caches of local authentication, and the time of the last thing that happened. -/
structure LocalAuth where
  clock : ℤ
  derivedKeyStore : DerivedKeyStore
  authzCache : AuthzCache

namespace LocalAuth

def initial (clock keyTTL authzTTL : ℤ) : LocalAuth :=
  ⟨clock, .new keyTTL, .new authzTTL⟩

/-- Look at upstream's answer before the client gets it. -/
def interceptResponse (s : LocalAuth) (now : ℤ) (resp : Response) (q : Request) :
    Response × LocalAuth :=
  let (resp, keys) := learnSigningKeys lib now resp q s.derivedKeyStore
  let authz := grantReadAuthorization lib now resp q s.authzCache
  (resp, ⟨now, keys, handleAuthzRevocation lib resp q authz⟩)

/-- The local check of a request. A request without credentials, with an unknown key, with
a wrong signature or without a grant goes upstream; one that cannot be read is refused. -/
def validateLocally (s : LocalAuth) (now : ℤ) (r : Request) : Except AuthError AuthResult :=
  match parseAuthInfo lib.toStdlib r with
  | .error .missingAuth => .ok .notValidated
  | .error e => .error e
  | .ok info =>
    if s.derivedKeyStore.hasKey now info.accessKey then
      match validate lib.toStdlib now (s.derivedKeyStore.getSigningKey now) r with
      | .error _ => .ok .notValidated
      | .ok _ =>
        if s.authzCache.isAuthorized now info.accessKey (parseBucketKey r.url.path).1 then
          .ok .validated
        else .ok .notValidated
    else .ok .notValidated

end LocalAuth

/-- What changes the caches: an answer from upstream to a client's request, and the caches
themselves when they drop an entry. -/
inductive AuthLabel where
  | response (q : Request) (resp : Response) (now : ℤ)
  | dropKey (k : Bytes)
  | dropAccessKey (k : Bytes)
  | dropGrant (k : Bytes)

def LocalAuth.step (s : LocalAuth) : AuthLabel → Option LocalAuth
  | .response q resp now =>
    if s.clock ≤ now then some (s.interceptResponse lib now resp q).2 else none
  | .dropKey k => some { s with
      derivedKeyStore := { s.derivedKeyStore with keys := s.derivedKeyStore.keys.remove k } }
  | .dropAccessKey k => some { s with
      derivedKeyStore :=
        { s.derivedKeyStore with accessKeys := s.derivedKeyStore.accessKeys.remove k } }
  | .dropGrant k => some { s with authzCache := ⟨s.authzCache.cache.remove k⟩ }

/-! ## What the answers prove -/

/-- The answer shows that the access key may read objects of the bucket. -/
def ProvesRead (a b : Bytes) (q : Request) (resp : Response) : Prop :=
  isSuccess resp.status = true ∧ (q.method = ascii "GET" ∨ q.method = ascii "HEAD") ∧
    isReadAuthorizationQuery lib q.url.rawQuery = true ∧ presented lib q = some (a, b) ∧
    (parseBucketKey q.url.path).2 ≠ []

/-- The answer brings this signing key for the access key. -/
def Teaches (a date region key : Bytes) (q : Request) (resp : Response) : Prop :=
  isSuccess resp.status = true ∧ (presented lib q).map Prod.fst = some a ∧
    ∃ entries, unwrap lib (resp.header.get signingKeysHeader) a = some entries ∧
      ∃ entry ∈ entries, entry.date = date ∧ entry.region = region ∧
        lib.decodeHex entry.signingKey = some key

/-- The answer refuses the access key the bucket. -/
def Refuses (a b : Bytes) : AuthLabel → Prop
  | .response q resp _ => resp.status = 403 ∧ presented lib q = some (a, b)
  | _ => False

end

section

variable {lib : KeyLib} {now : ℤ} {q : Request} {resp : Response} {k : Bytes}

theorem entry_of_storeEntries {a : Bytes} {d : DerivedKeyStore} {entries : List SigningKeyEntry}
    {e : Bytes × ℤ} (h : (storeEntries lib now a d entries).keys.entries k = some e) :
    d.keys.entries k = some e ∨ ∃ entry ∈ entries, ∃ key,
      lib.decodeHex entry.signingKey = some key ∧ k = makeKey a entry.date entry.region ∧
        e = (key, now) := by
  induction entries generalizing d with
  | nil => exact .inl h
  | cons entry entries ih =>
    rw [storeEntries, List.foldl_cons] at h
    rcases ih h with hrest | ⟨other, hmem, hother⟩
    · cases hkey : lib.decodeHex entry.signingKey with
      | none =>
        rw [hkey] at hrest
        exact .inl hrest
      | some key =>
        rw [hkey] at hrest
        rcases ExpiringCache.entry_of_add hrest with ⟨hk, he⟩ | ⟨-, hold⟩
        · exact .inr ⟨entry, List.mem_cons_self, key, hkey, hk, he⟩
        · exact .inl hold
    · exact .inr ⟨other, List.mem_cons_of_mem entry hmem, hother⟩

theorem entry_of_learnSigningKeys {d : DerivedKeyStore} {e : Bytes × ℤ}
    (h : (learnSigningKeys lib now resp q d).2.keys.entries k = some e) :
    d.keys.entries k = some e ∨ ∃ a date region key, Teaches lib a date region key q resp ∧
      k = makeKey a date region ∧ e = (key, now) := by
  unfold learnSigningKeys at h
  dsimp only at h
  split at h
  · exact .inl h
  · rename_i hsuccess
    split at h
    · exact .inl h
    · rename_i info hinfo
      split at h
      · exact .inl h
      · rename_i entries hentries
        rcases entry_of_storeEntries h with hold | ⟨entry, hmem, key, hkey, hk, he⟩
        · exact .inl hold
        · refine .inr ⟨info.accessKey, entry.date, entry.region, key, ⟨?_, ?_, entries, hentries,
            entry, hmem, rfl, rfl, hkey⟩, hk, he⟩
          · exact not_not.mp (not_or.mp hsuccess).2
          · rw [presented, hinfo]
            rfl

theorem learnSigningKeys_resp (d : DerivedKeyStore) : (learnSigningKeys lib now resp q d).1 =
    { resp with header := resp.header.del signingKeysHeader } := by
  unfold learnSigningKeys
  dsimp only
  split
  · rfl
  · split
    · rfl
    · split <;> rfl

theorem entry_of_grantReadAuthorization {c : AuthzCache} {e : Unit × ℤ}
    (h : (grantReadAuthorization lib now resp q c).cache.entries k = some e) :
    c.cache.entries k = some e ∨ ∃ a b, ProvesRead lib a b q resp ∧ k = authzKey a b ∧
      e = ((), now) := by
  unfold grantReadAuthorization at h
  split at h
  · rename_i hgate
    split at h
    · exact .inl h
    · rename_i info hinfo
      dsimp only at h
      split at h
      · exact .inl h
      · rename_i hobject
        rcases ExpiringCache.entry_of_add h with ⟨hk, he⟩ | ⟨-, hold⟩
        · refine .inr ⟨info.accessKey, _, ⟨hgate.1, hgate.2.1, hgate.2.2, ?_,
            (not_or.mp hobject).2⟩, hk, he⟩
          rw [presented, hinfo]
          rfl
        · exact .inl hold
  · exact .inl h

/-- No grant survives the answer that refuses it. -/
theorem entry_of_handleAuthzRevocation {c : AuthzCache} {e : Unit × ℤ}
    (h : (handleAuthzRevocation lib resp q c).cache.entries k = some e) :
    c.cache.entries k = some e ∧ ∀ a b, resp.status = 403 → presented lib q = some (a, b) →
      k ≠ authzKey a b := by
  unfold handleAuthzRevocation at h
  split at h
  · split at h
    · rename_i hinfo
      refine ⟨h, fun a b _ hpresented => ?_⟩
      simp [presented, hinfo, Except.toOption] at hpresented
    · rename_i info hinfo
      obtain ⟨hne, hold⟩ := ExpiringCache.entry_of_remove h
      refine ⟨hold, fun a b _ hpresented => ?_⟩
      simp only [presented, hinfo, Except.toOption, Option.map_some, Option.some.injEq,
        Prod.mk.injEq] at hpresented
      obtain ⟨rfl, rfl⟩ := hpresented
      exact hne
  · rename_i hstatus
    exact ⟨h, fun a b hforbidden => absurd hforbidden hstatus⟩

theorem grantReadAuthorization_ttl (c : AuthzCache) :
    (grantReadAuthorization lib now resp q c).cache.ttl = c.cache.ttl := by
  unfold grantReadAuthorization
  split
  · split
    · rfl
    · dsimp only
      split <;> rfl
  · rfl

theorem handleAuthzRevocation_ttl (c : AuthzCache) :
    (handleAuthzRevocation lib resp q c).cache.ttl = c.cache.ttl := by
  unfold handleAuthzRevocation
  split
  · split <;> rfl
  · rfl

end

/-! ## Runs -/

section

variable {lib : KeyLib} {s s' : LocalAuth} {l : AuthLabel} {k : Bytes}

namespace LocalAuth

theorem interceptResponse_authzCache (s : LocalAuth) (now : ℤ) (resp : Response) (q : Request) :
    (s.interceptResponse lib now resp q).2.authzCache =
      let stripped := { resp with header := resp.header.del signingKeysHeader }
      handleAuthzRevocation lib stripped q (grantReadAuthorization lib now stripped q s.authzCache) := by
  unfold interceptResponse
  dsimp only
  rw [learnSigningKeys_resp]

theorem entry_of_step_keys (hstep : s.step lib l = some s') {key : Bytes} {since : ℤ}
    (h : s'.derivedKeyStore.keys.entries k = some (key, since)) :
    s.derivedKeyStore.keys.entries k = some (key, since) ∨ ∃ q resp a date region,
      l = .response q resp since ∧ Teaches lib a date region key q resp ∧
        k = makeKey a date region := by
  cases l with
  | response q resp now =>
    simp only [step, Option.ite_none_right_eq_some, Option.some.injEq] at hstep
    obtain ⟨-, rfl⟩ := hstep
    rcases entry_of_learnSigningKeys h with hold | ⟨a, date, region, key', hteaches, hk, he⟩
    · exact .inl hold
    · cases he
      exact .inr ⟨q, resp, a, date, region, rfl, hteaches, hk⟩
  | dropKey k' =>
    cases hstep
    exact .inl (ExpiringCache.entry_of_remove h).2
  | dropAccessKey k' | dropGrant k' =>
    cases hstep
    exact .inl h

/-- A grant in the cache was there before the step, or the step's answer proves it; and
the step does not refuse it. -/
theorem entry_of_step_grants (hstep : s.step lib l = some s') {since : ℤ}
    (h : s'.authzCache.cache.entries k = some ((), since)) :
    (s.authzCache.cache.entries k = some ((), since) ∨ ∃ q resp a b,
      l = .response q resp since ∧ ProvesRead lib a b q resp ∧ k = authzKey a b) ∧
      ∀ a b, Refuses lib a b l → k ≠ authzKey a b := by
  cases l with
  | response q resp now =>
    simp only [step, Option.ite_none_right_eq_some, Option.some.injEq] at hstep
    obtain ⟨-, rfl⟩ := hstep
    rw [interceptResponse_authzCache] at h
    obtain ⟨hgranted, hrefused⟩ := entry_of_handleAuthzRevocation h
    refine ⟨?_, fun a b hrefuses => hrefused a b hrefuses.1 hrefuses.2⟩
    rcases entry_of_grantReadAuthorization hgranted with hold | ⟨a, b, hproves, hk, he⟩
    · exact .inl hold
    · cases he
      exact .inr ⟨q, resp, a, b, rfl, hproves, hk⟩
  | dropGrant k' =>
    cases hstep
    exact ⟨.inl (ExpiringCache.entry_of_remove h).2, fun a b => False.elim⟩
  | dropKey k' | dropAccessKey k' =>
    cases hstep
    exact ⟨.inl h, fun a b => False.elim⟩

theorem step_clock (hstep : s.step lib l = some s') : s.clock ≤ s'.clock ∧
    ∀ q resp now, l = .response q resp now → s'.clock = now := by
  cases l with
  | response q resp now =>
    simp only [step, Option.ite_none_right_eq_some, Option.some.injEq] at hstep
    obtain ⟨hclock, rfl⟩ := hstep
    refine ⟨hclock, ?_⟩
    rintro _ _ _ ⟨⟩
    rfl
  | dropKey k | dropAccessKey k | dropGrant k =>
    cases hstep
    exact ⟨le_rfl, by simp⟩

theorem step_ttl (hstep : s.step lib l = some s') :
    s'.authzCache.cache.ttl = s.authzCache.cache.ttl := by
  cases l with
  | response q resp now =>
    simp only [step, Option.ite_none_right_eq_some, Option.some.injEq] at hstep
    obtain ⟨-, rfl⟩ := hstep
    exact (handleAuthzRevocation_ttl _).trans (grantReadAuthorization_ttl _)
  | dropKey k | dropAccessKey k | dropGrant k =>
    cases hstep
    rfl

end LocalAuth

variable (lib) in
/-- The history accounts for everything the caches hold: for each signing key the answer that
brought it, for each grant the answer that proves it and that nothing refused it since. -/
structure Backed (authzTTL : ℤ) (ls : List AuthLabel) (s : LocalAuth) : Prop where
  ttl : s.authzCache.cache.ttl = AuthzCache.lifetime authzTTL
  keys : ∀ k key since, s.derivedKeyStore.keys.entries k = some (key, since) →
    ∃ q resp a date region, .response q resp since ∈ ls ∧ Teaches lib a date region key q resp ∧
      k = makeKey a date region
  clock : ∀ k since, s.authzCache.cache.entries k = some ((), since) → since ≤ s.clock
  grants : ∀ k since, s.authzCache.cache.entries k = some ((), since) →
    ∃ before q resp after a b, ls = before ++ .response q resp since :: after ∧
      ProvesRead lib a b q resp ∧ k = authzKey a b ∧
      ∀ l ∈ after, ∀ a' b', Refuses lib a' b' l → k ≠ authzKey a' b'

theorem Backed.step {authzTTL : ℤ} {ls : List AuthLabel} (hs : Backed lib authzTTL ls s)
    (hstep : s.step lib l = some s') : Backed lib authzTTL (ls ++ [l]) s' := by
  constructor
  · exact (LocalAuth.step_ttl hstep).trans hs.ttl
  · intro k key since hentry
    rcases LocalAuth.entry_of_step_keys hstep hentry with
      hold | ⟨q, resp, a, date, region, rfl, hteaches, hk⟩
    · obtain ⟨q, resp, a, date, region, hmem, hteaches, hk⟩ := hs.keys k key since hold
      exact ⟨q, resp, a, date, region, List.mem_append_left _ hmem, hteaches, hk⟩
    · exact ⟨q, resp, a, date, region, List.mem_append_right _ List.mem_cons_self, hteaches, hk⟩
  · intro k since hentry
    obtain ⟨hle, hnow⟩ := LocalAuth.step_clock hstep
    rcases (LocalAuth.entry_of_step_grants hstep hentry).1 with hold | ⟨q, resp, a, b, hl, -, -⟩
    · exact (hs.clock k since hold).trans hle
    · exact (hnow q resp since hl).ge
  · intro k since hentry
    obtain ⟨hsource, hrefused⟩ := LocalAuth.entry_of_step_grants hstep hentry
    rcases hsource with hold | ⟨q, resp, a, b, rfl, hproves, hk⟩
    · obtain ⟨before, q, resp, after, a, b, rfl, hproves, hk, hafter⟩ := hs.grants k since hold
      refine ⟨before, q, resp, after ++ [l], a, b, by simp, hproves, hk, ?_⟩
      intro l' hl'
      rcases List.mem_append.mp hl' with hin | hlast
      · exact hafter l' hin
      · rw [List.mem_singleton.mp hlast]
        exact hrefused
    · exact ⟨ls, q, resp, [], a, b, rfl, hproves, hk, by simp⟩

theorem backed_of_run {clock keyTTL authzTTL : ℤ} {ls : List AuthLabel}
    (hrun : run (LocalAuth.step lib) (.initial clock keyTTL authzTTL) ls = some s) :
    Backed lib authzTTL ls s := by
  have hstart : Backed lib authzTTL [] (.initial clock keyTTL authzTTL) :=
    ⟨rfl, by rintro _ _ _ ⟨⟩, by rintro _ _ ⟨⟩, by rintro _ _ ⟨⟩⟩
  have hkeep : ∀ ls t l t', run (LocalAuth.step lib) (.initial clock keyTTL authzTTL) ls = some t →
      Backed lib authzTTL ls t → True → t.step lib l = some t' → Backed lib authzTTL (ls ++ [l]) t' :=
    fun _ _ _ _ _ ht _ hstep => ht.step hstep
  exact run_history hstart hkeep (along_of_forall fun _ _ _ => trivial) hrun

/-- Everything the local check has found when it lets a request read the cache. -/
theorem LocalAuth.validateLocally_validated {t : ℤ} {r : Request}
    (h : s.validateLocally lib t r = .ok .validated) :
    ∃ info vr, parseAuthInfo lib.toStdlib r = .ok info ∧
      validate lib.toStdlib t (s.derivedKeyStore.getSigningKey t) r = .ok vr ∧
      s.authzCache.isAuthorized t info.accessKey (parseBucketKey r.url.path).1 = true := by
  unfold validateLocally at h
  repeat' split at h
  all_goals try cases h
  rename_i info hinfo hknown _ vr hvalid hauthorized
  exact ⟨info, vr, hinfo, hvalid, hauthorized⟩

end

/-- No access key that upstream's answer is about contains the separator of the composite
keys. -/
def AuthLabel.NulFree (lib : KeyLib) : AuthLabel → Prop
  | .response q _ _ => ∀ a b, presented lib q = some (a, b) → nul ∉ a
  | _ => True

/-! ## Two requests -/

instance (lib : KeyLib) (a b : Bytes) (q : Request) (resp : Response) :
    Decidable (ProvesRead lib a b q resp) := by
  unfold ProvesRead
  infer_instance

def unescape : Bytes → Bytes
  | 0x25 :: high :: low :: bs =>
    (16 * (hexValue high).getD 0 + (hexValue low).getD 0).toUInt8 :: unescape bs
  | b :: bs => b :: unescape bs
  | [] => []

/-- A platform on which a signature shows its key, and a wrapped key stands in the clear
behind the nonce and the tag. -/
def sampleKeyLib : KeyLib where
  toStdlib :=
    { plainLib with
      hmacSHA256 := fun key _ => key
      parseQuery := fun raw => (plainLib.parseQuery raw).map fun p => (unescape p.1, unescape p.2) }
  decodeBase64 := some
  decodeHex := some
  gcmOverhead := 16
  gcmOpen _ ciphertext _ := some (ciphertext.drop 16)
  unmarshalEntries plaintext := some [⟨ascii "d", ascii "r", plaintext⟩]
  queryError _ := false

def plainSuccess : Response where
  status := 200
  header := .empty

/-- A success that brings the signing key the requests below are signed with. -/
def teachingResponse : Response where
  status := 200
  header := Header.empty.set signingKeysHeader (ascii "nonce-nonce-tag-tag-tag-tag-k")

/-- A presigned request of an access key, which is written as in a URL. -/
def presignedBy (accessKey method path : String) : Request where
  method := ascii method
  url :=
    { path := ascii path
      rawQuery := ascii "X-Amz-Credential=" ++ ascii accessKey ++
        ascii "/d/r/s3/aws4_request&X-Amz-Date=0&X-Amz-Expires=60&X-Amz-Signature=6b" }
  host := ascii "gateway"
  header := .empty

end TagGateway.Proxy
