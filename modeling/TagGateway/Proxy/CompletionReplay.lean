import TagGateway.Cache.Completion
import TagGateway.Auth.Lifetime
import TagGateway.Foundation.Machine
import TagGateway.Proxy.ForwardResult
import TagGateway.Proxy.SigningForward

/-!
# The replay of a completion

A completion takes the caller's identity before anything else, looks for a cached
answer of the same caller, and checks the caller once more before it replays it.
Otherwise the request is forwarded, and a success that was captured as a whole is kept
for the caller. Requests of any callers interleave step by step, entries expire at any
time, and what the forwarder accepts as a caller changes at any time.
-/
namespace TagGateway.Proxy

open Foundation Auth Cache

/-! ## The caller -/

section

variable {α : Type*} (lib : Stdlib) (validates : α → Request → Bool)

def isPresignedRequest (r : Request) : Bool := queryGet lib r (ascii "X-Amz-Credential") != []

/-- The request to validate locally, with the payload marker of a presigned one. -/
def completionRequestForLocalValidation (r : Request) : Option Request :=
  if r.header.get (ascii "X-Amz-Content-Sha256") ≠ [] then some r
  else if isPresignedRequest lib r then
    match parseAuthInfo lib r with
    | .error _ => none
    | .ok info =>
      if info.isPresigned = false ∨
          info.signedHeaders.any (fun h => foldCase h == ascii "x-amz-content-sha256") then none
      else some
        { r with header := r.header.set (ascii "X-Amz-Content-Sha256") (ascii "UNSIGNED-PAYLOAD") }
  else none

/-- The access key of a caller whom the forwarder validates in the state `auth`. -/
def completionPrincipal (auth : α) (r : Request) : Bytes :=
  match completionRequestForLocalValidation lib r with
  | none => []
  | some validationRequest =>
    if validates auth validationRequest then
      match parseAuthInfo lib r with
      | .error _ => []
      | .ok info => info.accessKey
    else []

def completedUpload (r : Request) : Bytes × Bytes × Bytes :=
  ((parseBucketKey r.url.path).1, (parseBucketKey r.url.path).2, queryGet lib r (ascii "uploadId"))

def completionKeyOf (r : Request) : Bytes :=
  makeCompletionKey (completedUpload lib r).1 (completedUpload lib r).2.1 (completedUpload lib r).2.2

structure SigningAuth where
  now : ℤ
  getSigningKey : Bytes → Bytes → Bytes → Option Bytes
  getSecretKey : Bytes → Option Bytes

/-- `ValidateAndGetCredentials` of the signing forwarder. -/
def signingValidates (s : SigningAuth) (r : Request) : Bool :=
  r.header.get (ascii "X-Amz-Content-Sha256") != [] &&
    match validate lib s.now s.getSigningKey r with
    | .ok vr => (s.getSecretKey vr.accessKey).isSome
    | .error _ => false

end

/-! ## The handler -/

structure ReplayedResponse where
  statusCode : ℕ
  header : Header
  body : Bytes

inductive CompletionPhase where
  | started (r : Request) (principal : Bytes)
  | looked (r : Request) (principal : Bytes) (entry : Option CompletionEntry)
  | forwarding (r : Request) (principal : Bytes)
  | replayed (r : Request) (response : ReplayedResponse)
  | done

structure Completions (α δ : Type*) where
  auth : α
  store : Bytes → Option δ
  requests : ℕ → Option CompletionPhase

/-- In `answer`, `complete` says that the whole body was captured and `stored` that the
store took the entry, whatever it reported. A lookup that `fails` finds nothing. -/
inductive CompletionLabel (α : Type*) where
  | auth (state : α)
  | expire (cacheKey : Bytes)
  | arrive (i : ℕ) (r : Request)
  | lookup (i : ℕ) (fails : Bool)
  | decide (i : ℕ)
  | answer (i : ℕ) (result : ForwardResult) (complete stored : Bool)

def replay (entry : CompletionEntry) : ReplayedResponse :=
  ⟨entry.statusCode, replayHeader entry.headers Header.empty, entry.body⟩

def completionEntry (principal : Bytes) (capture : ResponseCapture) : CompletionEntry :=
  ⟨principal, capture.statusCode, firstValues capture.headers, capture.body⟩

namespace Completions

variable {α δ : Type*} (lib : Stdlib) (xml : XmlLib) (codec : CompletionCodec δ)
  (validates : α → Request → Bool) (cacheEnabled : Bool)

def setPhase (s : Completions α δ) (i : ℕ) (phase : CompletionPhase) : Completions α δ :=
  { s with requests := Function.update s.requests i (some phase) }

/-- What `PutCompletion` does with an answer: a success that was captured as a whole is
kept for the caller. -/
def keep (s : Completions α δ) (r : Request) (principal : Bytes) (a : UpstreamAnswer)
    (complete stored : Bool) : Completions α δ :=
  if s3WriteSucceeded xml (executeAndCapture (.received a)) ∧ complete ∧ principal ≠ [] ∧ stored then
    { s with
      store := Function.update s.store (completionKeyOf lib r)
        (some (codec.marshal (completionEntry principal
          ⟨a.status, a.header, a.body.take a.copied⟩))) }
  else s

def step (s : Completions α δ) : CompletionLabel α → Option (Completions α δ)
  | .auth state => some { s with auth := state }
  | .expire cacheKey => some { s with store := Function.update s.store cacheKey none }
  | .arrive i r =>
    match s.requests i with
    | none => some (s.setPhase i (.started r
        (if cacheEnabled then completionPrincipal lib validates s.auth r else [])))
    | some _ => none
  | .lookup i fails =>
    match s.requests i with
    | some (.started r principal) =>
      some (s.setPhase i (if principal = [] then .forwarding r principal
        else .looked r principal
          (if fails then none else getCompletion codec (s.store (completionKeyOf lib r)) principal)))
    | _ => none
  | .decide i =>
    match s.requests i with
    | some (.looked r principal (some entry)) =>
      some (s.setPhase i (if completionPrincipal lib validates s.auth r = principal then
        .replayed r (replay entry) else .forwarding r principal))
    | some (.looked r principal none) => some (s.setPhase i (.forwarding r principal))
    | _ => none
  | .answer i result complete stored =>
    match s.requests i with
    | some (.forwarding r principal) =>
      match result with
      | .lost => some (s.setPhase i .done)
      | .received a =>
        -- an answer has the names that `net/http` gives them
        if CanonicalNames a.header ∧ (complete = true → a.body.length ≤ a.copied) then
          some ((s.keep lib xml codec r principal a complete stored).setPhase i .done)
        else none
    | _ => none

/-- Nothing is bound to a caller yet: the store may have entries from before entries
were bound. -/
def start (auth : α) (store : Bytes → Option δ) : Completions α δ := ⟨auth, store, fun _ => none⟩

def Unbound (store : Bytes → Option δ) : Prop :=
  ∀ cacheKey data entry, store cacheKey = some data → codec.unmarshal data = some entry →
    entry.accessKey = []

/-! ## What is replayed -/

end Completions

/-- The request and the caller of a handler that has not answered. -/
def CompletionPhase.carries : CompletionPhase → Option (Request × Bytes)
  | .started r principal | .looked r principal _ | .forwarding r principal => some (r, principal)
  | .replayed _ _ | .done => none

namespace Completions

variable {α δ : Type*} (lib : Stdlib) (xml : XmlLib) (codec : CompletionCodec δ)
  (validates : α → Request → Bool) (cacheEnabled : Bool) (s₀ : Completions α δ)
  (ls : List (CompletionLabel α))

/-- In the run, request `i` arrived as `r`, and the forwarder validated its caller as
`principal` at that time. -/
def Arrived (i : ℕ) (r : Request) (principal : Bytes) : Prop :=
  Took (step lib xml codec validates cacheEnabled)
    (fun t l => l = .arrive i r ∧ completionPrincipal lib validates t.auth r = principal) s₀ ls

/-- In the run, a request of this caller completed the upload: the answer was a success
without an error document, it was captured as a whole, and it was stored. -/
def Stored (upload : Bytes × Bytes × Bytes) (principal : Bytes) (capture : ResponseCapture) : Prop :=
  ∃ i r a, completedUpload lib r = upload ∧
    Arrived lib xml codec validates cacheEnabled s₀ ls i r principal ∧
    Took (step lib xml codec validates cacheEnabled)
      (fun t l => l = .answer i (.received a) true true ∧
        t.requests i = some (.forwarding r principal)) s₀ ls ∧
    capture = ⟨a.status, a.header, a.body⟩ ∧ CanonicalNames a.header ∧
    isSuccess a.status = true ∧ isS3ErrorBody xml a.body = false

/-- Where the callers and the entries of a state come from. -/
structure Traced (arrived : ℕ → Request → Bytes → Prop)
    (stored : Bytes × Bytes × Bytes → Bytes → ResponseCapture → Prop) (t : Completions α δ) :
    Prop where
  callers : ∀ i phase r principal, t.requests i = some phase →
    phase.carries = some (r, principal) → principal ≠ [] → arrived i r principal
  entries : ∀ cacheKey data entry, t.store cacheKey = some data →
    codec.unmarshal data = some entry → entry.accessKey ≠ [] →
    ∃ upload capture, cacheKey = makeCompletionKey upload.1 upload.2.1 upload.2.2 ∧
      entry = completionEntry entry.accessKey capture ∧ stored upload entry.accessKey capture
  found : ∀ i r principal entry, t.requests i = some (.looked r principal (some entry)) →
    principal ≠ [] ∧ ∃ capture, entry = completionEntry principal capture ∧
      stored (completedUpload lib r) principal capture

variable {lib xml codec validates cacheEnabled s₀ ls}
variable {arrived arrived' : ℕ → Request → Bytes → Prop}
  {stored stored' : Bytes × Bytes × Bytes → Bytes → ResponseCapture → Prop} {t t' : Completions α δ}

theorem Traced.mono (h : Traced lib codec arrived stored t)
    (harrived : ∀ i r p, arrived i r p → arrived' i r p)
    (hstored : ∀ upload p capture, stored upload p capture → stored' upload p capture) :
    Traced lib codec arrived' stored' t := by
  constructor
  · intro i phase r principal hphase hcarries hne
    exact harrived _ _ _ (h.callers i phase r principal hphase hcarries hne)
  · intro cacheKey data entry hdata hentry hbound
    obtain ⟨upload, capture, hkey, heq, hst⟩ := h.entries cacheKey data entry hdata hentry hbound
    exact ⟨upload, capture, hkey, heq, hstored _ _ _ hst⟩
  · intro i r principal entry hphase
    obtain ⟨hne, capture, heq, hst⟩ := h.found i r principal entry hphase
    exact ⟨hne, capture, heq, hstored _ _ _ hst⟩

theorem Traced.setPhase {i : ℕ} {phase : CompletionPhase} (h : Traced lib codec arrived stored t)
    (hcallers : ∀ r principal, phase.carries = some (r, principal) → principal ≠ [] →
      arrived i r principal)
    (hfound : ∀ r principal entry, phase = .looked r principal (some entry) →
      principal ≠ [] ∧ ∃ capture, entry = completionEntry principal capture ∧
        stored (completedUpload lib r) principal capture) :
    Traced lib codec arrived stored (t.setPhase i phase) := by
  constructor
  · intro j other r principal hother hcarries hne
    rcases update_eq_some_cases_ne hother with ⟨rfl, rfl⟩ | ⟨-, hold⟩
    · exact hcallers r principal hcarries hne
    · exact h.callers j other r principal hold hcarries hne
  · exact h.entries
  · intro j r principal entry hother
    rcases update_eq_some_cases_ne hother with ⟨rfl, hphase⟩ | ⟨-, hold⟩
    · exact hfound r principal entry hphase.symm
    · exact h.found j r principal entry hold

theorem Traced.advance {i : ℕ} {phase next : CompletionPhase} (h : Traced lib codec arrived stored t)
    (hphase : t.requests i = some phase)
    (hcarries : ∀ c, next.carries = some c → phase.carries = some c)
    (hfound : ∀ r principal entry, next ≠ .looked r principal (some entry)) :
    Traced lib codec arrived stored (t.setPhase i next) := by
  apply h.setPhase
  · intro r principal hnext hne
    exact h.callers i phase r principal hphase (hcarries _ hnext) hne
  · intro r principal entry heq
    exact absurd heq (hfound r principal entry)

/-- What a lookup finds was stored for the same upload and the same caller. -/
theorem Traced.getCompletion {r : Request} {principal : Bytes} {entry : CompletionEntry}
    (h : Traced lib codec arrived stored t)
    (hget : getCompletion codec (t.store (completionKeyOf lib r)) principal = some entry) :
    principal ≠ [] ∧ ∃ capture, entry = completionEntry principal capture ∧
      stored (completedUpload lib r) principal capture := by
  obtain ⟨hne, rfl, data, hdata, hentry⟩ := getCompletion_eq_some codec hget
  obtain ⟨upload, capture, hkey, heq, hst⟩ := h.entries _ data entry hdata hentry hne
  obtain ⟨hbucket, hname, hupload⟩ := makeCompletionKey_inj hkey
  have hsame : upload = completedUpload lib r := by
    obtain ⟨b, k, u⟩ := upload
    simp only at hbucket hname hupload
    rw [← hbucket, ← hname, ← hupload]
  exact ⟨hne, capture, heq, hsame ▸ hst⟩

theorem Traced.keep {r : Request} {principal : Bytes} {a : UpstreamAnswer} {complete kept : Bool}
    (h : Traced lib codec arrived stored t)
    (hwhole : complete = true → a.body.length ≤ a.copied)
    (hstored : complete = true → kept = true → principal ≠ [] → isSuccess a.status = true →
      isS3ErrorBody xml a.body = false →
      stored (completedUpload lib r) principal ⟨a.status, a.header, a.body⟩) :
    Traced lib codec arrived stored (t.keep lib xml codec r principal a complete kept) := by
  unfold Completions.keep
  split_ifs with hkeep
  · obtain ⟨hsuccess, hcomplete, hne, hkept⟩ := hkeep
    rw [executeAndCapture, List.take_of_length_le (hwhole hcomplete), s3WriteSucceeded,
      Bool.and_eq_true, Bool.not_eq_true'] at hsuccess
    rw [List.take_of_length_le (hwhole hcomplete)]
    constructor
    · exact h.callers
    · intro cacheKey data entry hdata hentry hbound
      rcases update_eq_some_cases_ne hdata with ⟨rfl, rfl⟩ | ⟨-, hold⟩
      · rw [codec.roundTrip] at hentry
        obtain rfl := Option.some.inj hentry
        exact ⟨completedUpload lib r, ⟨a.status, a.header, a.body⟩, rfl, rfl,
          hstored hcomplete hkept hne hsuccess.1 hsuccess.2⟩
      · exact h.entries cacheKey data entry hold hentry hbound
    · exact h.found
  · exact h

theorem traced_step {l : CompletionLabel α}
    (hrun : run (step lib xml codec validates cacheEnabled) s₀ ls = some t)
    (h : Traced lib codec (Arrived lib xml codec validates cacheEnabled s₀ ls)
      (Stored lib xml codec validates cacheEnabled s₀ ls) t)
    (hstep : t.step lib xml codec validates cacheEnabled l = some t') :
    Traced lib codec (Arrived lib xml codec validates cacheEnabled s₀ (ls ++ [l]))
      (Stored lib xml codec validates cacheEnabled s₀ (ls ++ [l])) t' := by
  have harrived : ∀ i r p, Arrived lib xml codec validates cacheEnabled s₀ ls i r p →
      Arrived lib xml codec validates cacheEnabled s₀ (ls ++ [l]) i r p :=
    fun i r p hp => (took_snoc_iff hrun).mpr (.inl hp)
  have hnext : Traced lib codec (Arrived lib xml codec validates cacheEnabled s₀ (ls ++ [l]))
      (Stored lib xml codec validates cacheEnabled s₀ (ls ++ [l])) t := by
    apply h.mono harrived
    rintro upload p capture ⟨i, r, a, hupload, hi, ha, hrest⟩
    exact ⟨i, r, a, hupload, harrived _ _ _ hi, (took_snoc_iff hrun).mpr (.inl ha), hrest⟩
  cases l with
  | auth state =>
    obtain rfl := Option.some.inj hstep
    exact ⟨hnext.callers, hnext.entries, hnext.found⟩
  | expire cacheKey =>
    obtain rfl := Option.some.inj hstep
    refine ⟨hnext.callers, ?_, hnext.found⟩
    intro other data entry hdata hentry hbound
    by_cases hother : other = cacheKey
    · rw [hother] at hdata
      simp at hdata
    · exact hnext.entries other data entry (by simpa [hother] using hdata) hentry hbound
  | arrive i r =>
    rw [step] at hstep
    split at hstep
    · obtain rfl := Option.some.inj hstep
      apply hnext.setPhase
      · intro r' principal hcarries hne
        obtain ⟨rfl, rfl⟩ := Prod.mk.inj (Option.some.inj hcarries)
        split_ifs at hne ⊢
        · exact (took_snoc_iff hrun).mpr (.inr ⟨rfl, rfl⟩)
        · exact absurd rfl hne
      · intro r' principal entry heq
        cases heq
    · cases hstep
  | lookup i fails =>
    rw [step] at hstep
    split at hstep
    · rename_i r principal hphase
      obtain rfl := Option.some.inj hstep
      split_ifs with hnone hfails
      · exact hnext.advance hphase (fun _ => id) (by simp)
      · exact hnext.advance hphase (fun _ => id) (by simp)
      · apply hnext.setPhase
        · intro r' principal' hcarries hne
          exact hnext.callers i _ r' principal' hphase hcarries hne
        · intro r' principal' entry heq
          obtain ⟨rfl, rfl, hget⟩ := CompletionPhase.looked.inj heq
          exact hnext.getCompletion hget
    · cases hstep
  | decide i =>
    rw [step] at hstep
    split at hstep
    · rename_i r principal entry hphase
      obtain rfl := Option.some.inj hstep
      split_ifs
      · exact hnext.advance hphase (by simp [CompletionPhase.carries]) (by simp)
      · exact hnext.advance hphase (fun _ => id) (by simp)
    · rename_i r principal hphase
      obtain rfl := Option.some.inj hstep
      exact hnext.advance hphase (fun _ => id) (by simp)
    · cases hstep
  | answer i result complete kept =>
    rw [step] at hstep
    split at hstep
    · rename_i r principal hphase
      cases result with
      | lost =>
        obtain rfl := Option.some.inj hstep
        exact hnext.advance hphase (by simp [CompletionPhase.carries]) (by simp)
      | received a =>
        dsimp only at hstep
        split_ifs at hstep with henv
        obtain rfl := Option.some.inj hstep
        apply Traced.setPhase
        · apply hnext.keep henv.2
          rintro rfl rfl hne hsuccess hplain
          refine ⟨i, r, a, rfl, ?_, ?_, rfl, henv.1, hsuccess, hplain⟩
          · exact hnext.callers i _ r principal hphase rfl hne
          · exact (took_snoc_iff hrun).mpr (.inr ⟨rfl, hphase⟩)
        · intro r' principal' hcarries
          cases hcarries
        · intro r' principal' entry heq
          cases heq
    · cases hstep

theorem traced_of_run {auth : α} {store : Bytes → Option δ} (hstore : Unbound codec store)
    (hrun : run (step lib xml codec validates cacheEnabled) (start auth store) ls = some t) :
    Traced lib codec (Arrived lib xml codec validates cacheEnabled (start auth store) ls)
      (Stored lib xml codec validates cacheEnabled (start auth store) ls) t := by
  have hguard : Along (step lib xml codec validates cacheEnabled) (fun _ _ => True)
      (start auth store) ls := along_of_forall fun _ _ _ => trivial
  apply run_history _ _ hguard hrun
  · constructor
    · intro i phase r principal hphase
      cases hphase
    · intro cacheKey data entry hdata hentry hbound
      exact absurd (hstore cacheKey data entry hdata hentry) hbound
    · intro i r principal entry hphase
      cases hphase
  · intro ls t l t' hrun h _ hstep
    exact traced_step hrun h hstep

/-- The keys of completions are as different as the uploads. And whatever has happened:
a completion that is answered from the cache gets the status, the body and the first
value of every header of an answer that was stored before, for the same upload and a
caller validated as the same access key, and the caller is validated as that at the
time of the replay. -/
theorem completion_replay_bound (lib : Stdlib) (xml : XmlLib) (codec : CompletionCodec δ)
    (validates : α → Request → Bool) (cacheEnabled : Bool) :
    (∀ bucket key uploadId bucket' key' uploadId',
      makeCompletionKey bucket key uploadId = makeCompletionKey bucket' key' uploadId' →
      bucket = bucket' ∧ key = key' ∧ uploadId = uploadId') ∧
    ∀ auth store ls i r response (t t' : Completions α δ), Unbound codec store →
      run (step lib xml codec validates cacheEnabled) (start auth store) ls = some t →
      t.step lib xml codec validates cacheEnabled (.decide i) = some t' →
      t'.requests i = some (.replayed r response) →
      ∃ principal capture, principal ≠ [] ∧
        completionPrincipal lib validates t.auth r = principal ∧
        Stored lib xml codec validates cacheEnabled (start auth store) ls (completedUpload lib r)
          principal capture ∧
        response.statusCode = capture.statusCode ∧ response.body = capture.body ∧
        ∀ name, response.header.values name =
          ((capture.headers.values name).bind List.head?).map fun v => [v] := by
  constructor
  · intro bucket key uploadId bucket' key' uploadId' h
    exact makeCompletionKey_inj h
  · intro auth store ls i r response t t' hstore hrun hstep hreplayed
    have htraced := traced_of_run hstore hrun
    rw [step] at hstep
    split at hstep
    · rename_i r' principal entry hphase
      obtain rfl := Option.some.inj hstep
      obtain ⟨-, hnew⟩ | ⟨hne, -⟩ := update_eq_some_cases_ne hreplayed
      · split_ifs at hnew with hstill
        obtain ⟨rfl, rfl⟩ := CompletionPhase.replayed.inj hnew
        obtain ⟨hne, capture, rfl, hst⟩ := htraced.found i r principal entry hphase
        refine ⟨principal, capture, hne, hstill, hst, rfl, rfl, ?_⟩
        obtain ⟨-, -, a, -, -, -, rfl, hcanonical, -⟩ := hst
        exact values_replayHeader_firstValues hcanonical
      · exact absurd rfl hne
    · rename_i r' principal hphase
      obtain rfl := Option.some.inj hstep
      obtain ⟨-, hnew⟩ | ⟨hne, -⟩ := update_eq_some_cases_ne hreplayed
      · cases hnew
      · exact absurd rfl hne
    · cases hstep

end Completions

def plainCodec : CompletionCodec CompletionEntry := ⟨id, some, fun _ => rfl⟩

/-- A moment of the second of January, with the day's key. -/
def januaryAuth : SigningAuth := ⟨86460 * second, dayKey, fun _ => some (ascii "SK")⟩

/-- A completion that is signed with the day's key. -/
def signedCompletion : Request :=
  { signedRequest (ascii "20260102") (ascii "4b") with method := ascii "POST" }

def completionAnswer : UpstreamAnswer :=
  ⟨200, Header.empty.set (ascii "Server") (ascii "origin"), ascii "<R>", 3⟩

def repeatedCompletion : List (CompletionLabel SigningAuth) :=
  [.arrive 0 signedCompletion, .lookup 0 false, .decide 0, .answer 0 (.received completionAnswer) true true,
    .arrive 1 signedCompletion, .lookup 1 false]

def replayedStatus (s : Completions SigningAuth CompletionEntry) (i : ℕ) : Option (Request × ℕ) :=
  match s.requests i with
  | some (.replayed r response) => some (r, response.statusCode)
  | _ => none

theorem completion_replay_bound_repeated :
    ∃ (t : Completions SigningAuth CompletionEntry) (principal : Bytes) (capture : ResponseCapture),
      principal ≠ [] ∧
      completionPrincipal dayLib (signingValidates dayLib) t.auth signedCompletion = principal ∧
      Completions.Stored dayLib sampleXml plainCodec (signingValidates dayLib) true
        (.start januaryAuth fun _ => none) repeatedCompletion (completedUpload dayLib signedCompletion)
        principal capture ∧ capture.statusCode = 200 := by
  obtain ⟨t', hrun, hreplayed⟩ :
      ∃ t, run (Completions.step dayLib sampleXml plainCodec (signingValidates dayLib) true)
          (.start januaryAuth fun _ => none) (repeatedCompletion ++ [.decide 1]) = some t ∧
        replayedStatus t 1 = some (signedCompletion, 200) :=
    exists_run_of_any (by decide +kernel)
  obtain ⟨t, ht, hstep⟩ := run_snoc_eq_some.mp hrun
  unfold replayedStatus at hreplayed
  split at hreplayed
  · rename_i r response hphase
    obtain ⟨hr, h200⟩ := Prod.mk.inj (Option.some.inj hreplayed)
    obtain ⟨principal, capture, hne, hstill, hst, hstatus, -⟩ :=
      (Completions.completion_replay_bound dayLib sampleXml plainCodec (signingValidates dayLib)
        true).2 _ _ _ _ _ _ _ _ (by intro _ _ _ h; cases h) ht hstep hphase
    rw [h200] at hstatus
    exact ⟨t, principal, capture, hne, hr ▸ hstill, hr ▸ hst, hstatus.symm⟩
  · cases hreplayed

end TagGateway.Proxy
