import TagGateway.Auth.Validator
import TagGateway.Foundation.Word

/-!
# The date and the lifetime of an accepted signature

A signing key belongs to a calendar day, and a signature to the moment it was made. The
validator takes the day from the credential and the moment from the date of the request;
that the one is the day of the other is not checked. The age of an accepted signature is
bounded, and the bound is computed without overflow.
-/
namespace TagGateway.Auth

open Foundation

def Time.utc (t : Time) : Time := { t with offset := 0 }

/-- `time.Since`. A duration that does not fit saturates. -/
def timeSince (now : ℤ) (t : Time) : ℤ :=
  max (-9223372036854775808) (min 9223372036854775807 (now - t.instant))

/-- `time.Duration(n) * time.Second`, a product of words. -/
def secondsDuration (n : ℤ) : ℤ := wrap64 (n * second)

/-- The checks of an age come out as for unbounded numbers. -/
theorem timeSince_checks (now : ℤ) (t : Time) {e : ℤ} (hlow : 1 ≤ e) (hhigh : e ≤ maxPresignedExpires) :
    (timeSince now t > maxRequestAge ↔ now - t.instant > maxRequestAge) ∧
      (timeSince now t < -maxRequestAge ↔ now - t.instant < -maxRequestAge) ∧
      (timeSince now t > secondsDuration e ↔ now - t.instant > e * second) := by
  have hproduct : secondsDuration e = e * second := by
    unfold secondsDuration wrap64
    unfold maxPresignedExpires at hhigh
    simp only [second]
    rw [Int.bmod_def]
    split_ifs <;> omega
  rw [hproduct]
  simp only [timeSince, maxRequestAge, second, maxPresignedExpires] at hhigh ⊢
  omega

section

variable (lib : Stdlib) (now : ℤ) (r : Request)

def expiresValues : List Bytes :=
  ((lib.parseQuery r.url.rawQuery).filter fun p => p.1 == ascii "X-Amz-Expires").map Prod.snd

def signingTime (info : AuthInfo) : Option Time :=
  if info.isPresigned then lib.parseTime .amz (queryGet lib r (ascii "X-Amz-Date"))
  else parseHTTPDate lib (requestDate r.header)

def InLifetime (info : AuthInfo) (t : Time) : Prop :=
  if info.isPresigned then
    ∃ text e, expiresValues lib r = [text] ∧ parseInt text = (e, none) ∧ 1 ≤ e ∧ e ≤ 604800 ∧
      -(15 * 60 * second) ≤ now - t.instant ∧ now - t.instant ≤ e * second
  else |now - t.instant| ≤ 15 * 60 * second

end

variable {lib : Stdlib} {now : ℤ} {r : Request} {info : AuthInfo} {t : Time}

theorem validateSigned_lifetime {signingKey bodyHash : Bytes} (hsigned : info.isPresigned = false)
    (h : validateSigned lib now r info signingKey bodyHash = .ok t) :
    signingTime lib r info = some t ∧ InLifetime lib now r info t := by
  simp only [validateSigned, bind, Except.bind, throw, throwThe, MonadExceptOf.throw, pure,
    Except.pure] at h
  unfold signingTime InLifetime
  rw [hsigned]
  repeat' split at h
  all_goals grind [abs_le, maxRequestAge]

theorem validatePresigned_lifetime {signingKey : Bytes} (hpresigned : info.isPresigned = true)
    (h : validatePresigned lib now r info signingKey = .ok t) :
    signingTime lib r info = some t ∧ InLifetime lib now r info t := by
  simp only [validatePresigned, bind, Except.bind, throw, throwThe, MonadExceptOf.throw, pure,
    Except.pure] at h
  unfold signingTime InLifetime expiresValues
  rw [hpresigned]
  repeat' split at h
  all_goals try cases h
  rename_i text hvalues hexpires htime hearly hlate _
  simp only [ne_eq, not_or, not_not, not_lt, gt_iff_lt] at hexpires hearly hlate
  rw [if_pos rfl, if_pos rfl]
  refine ⟨htime, text, (parseInt text).1, hvalues, ?_, hexpires.2.1, hexpires.2.2, hearly, hlate⟩
  exact Prod.ext rfl hexpires.1

/-- What is known of an accepted request: which day's key it was checked with, and when it
was signed. -/
theorem validate_dates {getSigningKey : Bytes → Bytes → Bytes → Option Bytes}
    {vr : ValidatedRequest} (h : validate lib now getSigningKey r = .ok vr) :
    ∃ info date t, parseAuthInfo lib r = .ok info ∧ shortDate lib r info = .ok date ∧
      getSigningKey info.accessKey date info.region = some vr.signingKey ∧
      signingTime lib r info = some t ∧ InLifetime lib now r info t := by
  cases hinfo : parseAuthInfo lib r with
  | error e =>
    simp only [validate, hinfo, bind, Except.bind, throw, throwThe, MonadExceptOf.throw] at h
    cases h
  | ok info =>
    cases hdate : shortDate lib r info with
    | error e =>
      simp only [validate, hinfo, hdate, bind, Except.bind, throw, throwThe, MonadExceptOf.throw,
        pure, Except.pure] at h
      split at h <;> cases h
    | ok date =>
      simp only [validate, hinfo, hdate, bind, Except.bind, throw, throwThe, MonadExceptOf.throw,
        pure, Except.pure] at h
      repeat' split at h
      all_goals cases h
      · rename_i hkey hpresigned _ t hok
        obtain ⟨htime, hlifetime⟩ := validatePresigned_lifetime hpresigned hok
        exact ⟨info, date, t, rfl, hdate, hkey, htime, hlifetime⟩
      · rename_i hkey hpresigned _ t hok
        obtain ⟨htime, hlifetime⟩ := validateSigned_lifetime (by simpa using hpresigned) hok
        exact ⟨info, date, t, rfl, hdate, hkey, htime, hlifetime⟩

theorem parseHTTPDate_of_amz {text : Bytes} (h : lib.parseTime .amz text = some t) :
    parseHTTPDate lib text = some t := by
  simp [parseHTTPDate, h]

/-- A credential that names no day stands for the day of the signature. -/
theorem shortDate_of_signingTime (htime : signingTime lib r info = some t) :
    shortDate lib r info = .ok (if info.date = [] then lib.formatDate t.utc else info.date) := by
  by_cases hdate : info.date = []
  · have hparse : parseHTTPDate lib (if info.isPresigned then queryGet lib r (ascii "X-Amz-Date")
        else requestDate r.header) = some t := by
      unfold signingTime at htime
      split at htime
      next hpresigned =>
        rw [if_pos hpresigned]
        exact parseHTTPDate_of_amz htime
      next hpresigned =>
        rw [if_neg hpresigned]
        exact htime
    simp only [shortDate, hdate, if_true, hparse]
    rfl
  · simp only [shortDate, hdate, if_false]

/-- The credential names no day, or the day in UTC on which the request was signed. -/
def ScopeOfSigningDay (lib : Stdlib) (r : Request) : Prop :=
  ∀ info t, parseAuthInfo lib r = .ok info → signingTime lib r info = some t →
    info.date = [] ∨ info.date = lib.formatDate t.utc

/-- The key that a request was checked with is the one of the day it was signed on. Its age
is within its lifetime, and the checks of that come out as for unbounded numbers. -/
def BoundToDate (lib : Stdlib) (now : ℤ) (getSigningKey : Bytes → Bytes → Bytes → Option Bytes)
    (r : Request) (vr : ValidatedRequest) : Prop :=
  ∃ info date t, parseAuthInfo lib r = .ok info ∧ shortDate lib r info = .ok date ∧
    getSigningKey info.accessKey date info.region = some vr.signingKey ∧
    signingTime lib r info = some t ∧ InLifetime lib now r info t ∧
    (∀ e, 1 ≤ e → e ≤ maxPresignedExpires →
      (timeSince now t > maxRequestAge ↔ now - t.instant > maxRequestAge) ∧
      (timeSince now t < -maxRequestAge ↔ now - t.instant < -maxRequestAge) ∧
      (timeSince now t > secondsDuration e ↔ now - t.instant > e * second)) ∧
    date = lib.formatDate t.utc

/-- An accepted request is bound to its date exactly if its credential names the day it was
signed on, or none. -/
theorem accepted_signature_bound_iff
    {getSigningKey : Bytes → Bytes → Bytes → Option Bytes} {vr : ValidatedRequest}
    (h : validate lib now getSigningKey r = .ok vr) :
    BoundToDate lib now getSigningKey r vr ↔ ScopeOfSigningDay lib r := by
  obtain ⟨info, date, t, hinfo, hdate, hkey, htime, hlifetime⟩ := validate_dates h
  rw [shortDate_of_signingTime htime] at hdate
  constructor
  · rintro ⟨info', date', t', hinfo', hdate', -, htime', -, -, hday⟩ info'' t'' hinfo'' htime''
    obtain rfl : info' = info'' := Except.ok.inj (hinfo'.symm.trans hinfo'')
    obtain rfl : t' = t'' := Option.some.inj (htime'.symm.trans htime'')
    rw [shortDate_of_signingTime htime', Except.ok.injEq, hday] at hdate'
    by_cases hnone : info'.date = []
    · exact .inl hnone
    · rw [if_neg hnone] at hdate'
      exact .inr hdate'
  · intro hscope
    refine ⟨info, date, t, hinfo, ?_, hkey, htime, hlifetime, fun e => timeSince_checks now t, ?_⟩
    · rw [shortDate_of_signingTime htime]
      exact hdate
    · obtain rfl := Except.ok.inj hdate
      rcases hscope info t hinfo htime with hnone | hday
      · rw [if_pos hnone]
      · split
        · rfl
        · exact hday

/-- A platform whose clock starts on the first of January, and on which a signature shows its
key. -/
def dayLib : Stdlib where
  hmacSHA256 key _ := key
  sha256 := id
  parseTime _ text := if text = ascii "20260102T000100Z" then some ⟨86460 * second, 0⟩ else none
  formatTime _ := ascii "20260102T000100Z"
  formatDate t :=
    if t.instant + t.offset < 86400 * second then ascii "20260101" else ascii "20260102"
  parseQuery _ := []
  pathUnescape := some
  reparse := some

def dayKey (_ date _ : Bytes) : Option Bytes :=
  if date = ascii "20260101" then some (ascii "k") else if date = ascii "20260102" then some (ascii "K")
  else none

def signedRequest (credential signature : Bytes) : Request where
  method := ascii "GET"
  url := { path := ascii "/b/k" }
  host := ascii "gateway"
  header := ((Header.empty.set (ascii "Authorization") (ascii "AWS4-HMAC-SHA256 Credential=AK/" ++
      credential ++ ascii "/auto/s3/aws4_request, Signature=" ++ signature)).set
    (ascii "X-Amz-Date") (ascii "20260102T000100Z")).set
    (ascii "X-Amz-Content-Sha256") unsignedPayload

def validatedWith (signingKey signature : Bytes) : ValidatedRequest where
  accessKey := ascii "AK"
  signingKey := signingKey
  signingTime := ascii "20260102T000100Z"
  scope := ascii "20260102/auto/s3/aws4_request"
  signature := signature

theorem accepted_signature_bound_second_day :
    validate dayLib (86461 * second) dayKey (signedRequest (ascii "20260102") (ascii "4b")) =
        .ok (validatedWith (ascii "K") (ascii "4b")) ∧
      BoundToDate dayLib (86461 * second) dayKey (signedRequest (ascii "20260102") (ascii "4b"))
        (validatedWith (ascii "K") (ascii "4b")) := by
  have haccepted : validate dayLib (86461 * second) dayKey
      (signedRequest (ascii "20260102") (ascii "4b")) =
      .ok (validatedWith (ascii "K") (ascii "4b")) := by decide +kernel
  refine ⟨haccepted, (accepted_signature_bound_iff haccepted).mpr fun info t hinfo htime => ?_⟩
  have hparsed : parseAuthInfo dayLib (signedRequest (ascii "20260102") (ascii "4b")) = .ok
      { accessKey := ascii "AK", signature := ascii "4b", region := ascii "auto"
        date := ascii "20260102" } := by decide +kernel
  obtain rfl := Except.ok.inj (hparsed.symm.trans hinfo)
  have hsigned : signingTime dayLib (signedRequest (ascii "20260102") (ascii "4b"))
      { accessKey := ascii "AK", signature := ascii "4b", region := ascii "auto"
        date := ascii "20260102" } = some ⟨86460 * second, 0⟩ := by decide +kernel
  obtain rfl := Option.some.inj (hsigned.symm.trans htime)
  exact .inr (by decide +kernel)

/-- A request signed on the second day whose credential stands in the scope of the first: it
is accepted with the key of the first day. -/
theorem key_of_other_day_accepted :
    validate dayLib (86461 * second) dayKey (signedRequest (ascii "20260101") (ascii "6b")) =
        .ok (validatedWith (ascii "k") (ascii "6b")) ∧
      requestDate (signedRequest (ascii "20260101") (ascii "6b")).header =
        ascii "20260102T000100Z" ∧
      ∀ t, parseHTTPDate dayLib (ascii "20260102T000100Z") = some t →
        dayKey (ascii "AK") (dayLib.formatDate t.utc) (ascii "auto") = some (ascii "K") := by
  refine ⟨by decide +kernel, by decide +kernel, fun t ht => ?_⟩
  have hparsed : parseHTTPDate dayLib (ascii "20260102T000100Z") = some ⟨86460 * second, 0⟩ := by
    decide +kernel
  obtain rfl := Option.some.inj (hparsed.symm.trans ht)
  decide +kernel

end TagGateway.Auth
