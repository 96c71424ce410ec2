import TagGateway.Proxy.ForwardResult
import TagGateway.Proxy.TieredConvergence

/-!
# Mutations that upstream did not confirm, in tiered mode

Each handler is followed here from its first read of the row to its return, with no
other writer of the key. A handler acts on the row only if it takes the change for
made. It does not look at all that upstream says: a PUT and a DELETE look at the status
alone, and a multi-object delete takes a result that it cannot read for a success.
-/
namespace TagGateway.Proxy

open Foundation Cache

/-- What the store answers to one handler. A write answers, or it ends in an error and
may have been applied; `expired` says that the time for a multi-object delete is up. -/
structure StoreReplies where
  known : Bool := true
  put : Option Bool := none
  sweep : Option Bool := none
  converge : Option Bool × Option Bool := (none, none)
  expired : Bool := false

/-- The row a handler displaces, with its version, if its first read succeeded. -/
abbrev Prior := Option (Option Row × ℕ)

universe u

namespace Alone

variable {σ : Type u} (store : VersionedStore σ Row) (cfg : TieredConfig) (lib : EngineLib)
  (xml : XmlLib) (replies : StoreReplies)

def attempt (reply : Option Bool) (sh written : Tier σ) : Tier σ :=
  if reply = some false then sh else written

def captureMarkerPrior (sh : Tier σ) : Tier σ × Prior :=
  if cfg.cacheEnabled && replies.known then
    let (sh, row, version) := sh.getMetaWithVersion store
    (sh, some (row, version))
  else (sh, none)

def invalidateDisplacedTieredMeta (sh : Tier σ) : Prior → Tier σ
  | none | some (none, _) => sh
  | some (some _, version) =>
    attempt replies.sweep sh (sh.deleteMetaIfVersion store version).1

def commitUpstreamMarker (row : Row) (sh : Tier σ) (prior : Prior) : Tier σ :=
  match prior with
  | none => invalidateDisplacedTieredMeta store replies sh prior
  | some (_, version) =>
    let (written, wrote) := sh.putMetaIfVersion store row version
    if replies.put = none ∧ wrote = true then written
    else invalidateDisplacedTieredMeta store replies (attempt replies.put sh written) prior

/-- The marker of an object whose body upstream holds. Without its tag there is none. -/
def stampMarker (kind : ForwardedKind) (etag : Bytes) (now : ℤ) (sh : Tier σ) (prior : Prior) :
    Tier σ :=
  if etag = [] then invalidateDisplacedTieredMeta store replies sh prior
  else commitUpstreamMarker store replies
    ⟨Forwarded.upstreamMarker cfg etag now kind, sh.sourceId⟩ sh prior

def putUpstreamMarker (r : PutRequest) : Bytes → ℤ → Tier σ → Prior → Tier σ :=
  stampMarker store cfg replies (.putObject r)

/-- The marker of a completion; the worker that completes it runs later. -/
def stampUpstreamMarkerAfterCompletion (credentials : Bool) :
    Bytes → ℤ → Tier σ → Prior → Tier σ :=
  stampMarker store cfg replies (.completeMultipartUpload credentials)

def convergeTieredDelete (sh : Tier σ) (prior : Prior) : Tier σ :=
  match prior with
  | none => sh
  | some (_, version) =>
    let first := attempt replies.converge.1 sh (sh.deleteMetaIfVersion store version).1
    if replies.converge.1 = none then first
    else attempt replies.converge.2 first (first.deleteMetaIfVersion store version).1

/-- What the handlers have in common: the row is read, the request is forwarded, and if
the change is taken for made, the handler acts on what it displaced. -/
def forwardThen (taken : Bool) (act : Tier σ → Prior → Tier σ) (sh : Tier σ) : Tier σ :=
  let (sh, prior) := captureMarkerPrior store cfg replies sh
  if taken && cfg.cacheEnabled then act sh prior else sh

def responseETag : ForwardResult → Bytes
  | .lost => []
  | .received a => a.header.get (ascii "ETag")

def completedMultipartETag : Option ResponseCapture → Bytes
  | none => []
  | some capture =>
    let etag := capture.headers.get (ascii "ETag")
    if etag ≠ [] then etag else (xml.completedETag capture.body).getD []

def handleTieredPut (r : PutRequest) (result : ForwardResult) (now : ℤ) (sh : Tier σ) : Tier σ :=
  if originlessPlainObject lib r.request then
    forwardThen store cfg replies (wroteSuccess result)
      (putUpstreamMarker store cfg replies r (responseETag result) now) sh
  else sh

def handleDeleteObject (result : ForwardResult) (sh : Tier σ) : Tier σ :=
  forwardThen store cfg replies (wroteSuccess result) (convergeTieredDelete store replies) sh

def handleCopyObject (result : ForwardResult) (sh : Tier σ) : Tier σ :=
  forwardThen store cfg replies (s3WriteSucceeded xml (executeAndCapture result))
    (convergeTieredDelete store replies) sh

def handleCompleteMultipartUpload (credentials : Bool) (result : ForwardResult) (now : ℤ)
    (sh : Tier σ) : Tier σ :=
  let capture := executeAndCapture result
  forwardThen store cfg replies (s3WriteSucceeded xml capture)
    (stampUpstreamMarkerAfterCompletion store cfg replies credentials
      (completedMultipartETag xml capture) now) sh

/-- The key was deleted at least once, as far as the handler can tell. A result that it
cannot read counts as one without errors. -/
def deletedSome (keys : List Bytes) (key : Bytes) (result : ForwardResult) : Bool :=
  match executeAndCapture result with
  | none => false
  | some capture => isSuccess capture.statusCode &&
      match xml.errorKeys capture.body with
      | none => true
      | some errored => decide (errored.count key < keys.count key)

/-- What a multi-object delete with this body does to one key. -/
def handleDeleteObjects (body key : Bytes) (result : ForwardResult) (sh : Tier σ) : Tier σ :=
  match xml.deleteKeys body with
  | none => sh
  | some keys =>
    if cfg.cacheEnabled && keys.contains key then
      forwardThen store cfg replies (deletedSome xml keys key result && !replies.expired)
        (convergeTieredDelete store replies) sh
    else sh

end Alone

/-- A mutation of a key that is forwarded: one of its own, or a multi-object delete. -/
inductive TieredRequest where
  | single (kind : ForwardedKind)
  | deleteObjects (body key : Bytes)

namespace TieredRequest

variable {σ : Type u} (store : VersionedStore σ Row) (cfg : TieredConfig) (lib : EngineLib)
  (xml : XmlLib)

def handle (replies : StoreReplies) (result : ForwardResult) (now : ℤ) (sh : Tier σ) :
    TieredRequest → Tier σ
  | .single (.putObject r) => Alone.handleTieredPut store cfg lib replies r result now sh
  | .single .deleteObject => Alone.handleDeleteObject store cfg replies result sh
  | .single .copyObject => Alone.handleCopyObject store cfg xml replies result sh
  | .single (.completeMultipartUpload credentials) =>
    Alone.handleCompleteMultipartUpload store cfg xml replies credentials result now sh
  | .deleteObjects body key => Alone.handleDeleteObjects store cfg xml replies body key result sh

def requested (body : Bytes) : List Bytes := (xml.deleteKeys body).getD []

/-- Upstream did not confirm the change of the key: no answer came, or one that says that
nothing changed, or one that reports an error for every time the key was requested. -/
def unconfirmed (result : ForwardResult) (request : TieredRequest) : Bool :=
  match result, request with
  | .lost, _ => true
  | .received a, .single _ => (ForwardResult.received a).saysUnchanged xml
  | .received a, .deleteObjects body key => (ForwardResult.received a).saysUnchanged xml ||
      (xml.errorKeys a.body).any fun errored =>
        decide ((requested xml body).count key ≤ errored.count key)

/-- The failure does not show where the handler looks: the status is a success, and, for
a copy and a completion, the part of the body that was copied does not reach the start
of an error document, or, for a multi-object delete that names the key, that part is not
a result that lists an error for every time the key was requested. A PUT that does not
write the object itself is none of these. -/
def unnoticed (result : ForwardResult) (request : TieredRequest) : Bool :=
  match result, request with
  | .lost, _ => false
  | .received a, request => cfg.cacheEnabled && isSuccess a.status &&
      match request with
      | .single (.putObject r) => originlessPlainObject lib r.request
      | .single .deleteObject => true
      | .single .copyObject | .single (.completeMultipartUpload _) =>
        !isS3ErrorBody xml (a.body.take a.copied)
      | .deleteObjects body key => (requested xml body).contains key &&
          (xml.errorKeys (a.body.take a.copied)).all fun errored =>
            decide (errored.count key < (requested xml body).count key)

end TieredRequest

/-! ## A change that is not taken for made leaves the row alone -/

section Unchanged

variable {σ : Type u} {store : VersionedStore σ Row} (h : store.Lawful) {cfg : TieredConfig}
  {lib : EngineLib} {xml : XmlLib} {replies : StoreReplies} {sh : Tier σ}
include h

theorem Alone.captureMarkerPrior_row :
    store.row (captureMarkerPrior store cfg replies sh).1.store = store.row sh.store := by
  unfold captureMarkerPrior
  split_ifs
  · exact h.get_row sh.store
  · rfl

theorem Alone.forwardThen_row {taken : Bool} {act : Tier σ → Prior → Tier σ}
    (htaken : (taken && cfg.cacheEnabled) = false) :
    store.row (forwardThen store cfg replies taken act sh).store = store.row sh.store := by
  simp only [forwardThen, htaken, Bool.false_eq_true, if_false]
  exact captureMarkerPrior_row h

theorem TieredRequest.handle_row {result : ForwardResult} {now : ℤ} {request : TieredRequest}
    (hseen : request.unnoticed cfg lib xml result = false) :
    store.row (request.handle store cfg lib xml replies result now sh).store =
      store.row sh.store := by
  cases request with
  | single kind =>
    cases kind with
    | putObject r =>
      simp only [handle, Alone.handleTieredPut]
      split_ifs with hplain
      · apply Alone.forwardThen_row h
        cases result with
        | lost => rfl
        | received a =>
          simp only [unnoticed, hplain, Bool.and_true] at hseen
          rwa [Bool.and_comm] at hseen
      · rfl
    | deleteObject =>
      apply Alone.forwardThen_row h
      cases result with
      | lost => rfl
      | received a =>
        simp only [unnoticed, Bool.and_true] at hseen
        rwa [Bool.and_comm] at hseen
    | copyObject =>
      apply Alone.forwardThen_row h
      cases result with
      | lost => rfl
      | received a =>
        rw [← hseen]
        simp only [unnoticed, executeAndCapture, s3WriteSucceeded]
        ac_rfl
    | completeMultipartUpload credentials =>
      apply Alone.forwardThen_row h
      cases result with
      | lost => rfl
      | received a =>
        rw [← hseen]
        simp only [unnoticed, executeAndCapture, s3WriteSucceeded]
        ac_rfl
  | deleteObjects body key =>
    simp only [handle, Alone.handleDeleteObjects]
    cases hkeys : xml.deleteKeys body with
    | none => rfl
    | some keys =>
      dsimp only
      split_ifs with hnamed
      · apply Alone.forwardThen_row h
        rw [Bool.and_eq_true] at hnamed
        cases result with
        | lost => rfl
        | received a =>
          simp only [unnoticed, requested, hkeys, Option.getD_some, hnamed, Bool.true_and] at hseen
          simp only [Alone.deletedSome, executeAndCapture]
          cases hstatus : isSuccess a.status with
          | false => rfl
          | true =>
            rw [hstatus, Bool.true_and] at hseen
            cases herrors : xml.errorKeys (a.body.take a.copied) with
            | none => simp [herrors] at hseen
            | some errored =>
              rw [herrors, Option.all_some] at hseen
              simp [hseen]
      · rfl

end Unchanged

/-! ## A change that is taken for made alters some row -/

def tierOf (row : Option Row) : Tier (Cell Row) where
  store := ⟨row, 0⟩
  object := none
  nextId := 1
  bodies := []
  log := []

def onlyCopy : Row where
  metadata :=
    { key := ascii "key", bucket := ascii "bucket", etag := ascii "\"7a\"", contentLength := 1
      statusCode := 200, bodyRef := ascii "r" }
  source := 1

namespace Alone

theorem convergeTieredDelete_tierOf (row : Option Row) :
    (convergeTieredDelete Cell.store {} (tierOf row) (some (row, 1))).store.row = none := rfl

theorem stampMarker_tierOf (cfg : TieredConfig) (kind : ForwardedKind) (etag : Bytes) (now : ℤ) :
    ∃ row, (stampMarker Cell.store cfg {} kind etag now (tierOf row)
      (some (row, 1))).store.row ≠ row := by
  by_cases hetag : etag = []
  · refine ⟨some onlyCopy, ?_⟩
    rw [stampMarker, if_pos hetag]
    exact fun heq => Option.some_ne_none _ heq.symm
  · refine ⟨none, ?_⟩
    have htag : (Forwarded.upstreamMarker cfg etag now kind).etag = etag := by cases kind <;> rfl
    simp only [stampMarker, if_neg hetag, commitUpstreamMarker, Tier.putMetaIfVersion, htag]
    exact Option.some_ne_none _

theorem forwardThen_tierOf {cfg : TieredConfig} (hcache : cfg.cacheEnabled = true) {taken : Bool}
    (htaken : taken = true) (act : Tier (Cell Row) → Prior → Tier (Cell Row)) (row : Option Row) :
    forwardThen Cell.store cfg {} taken act (tierOf row) = act (tierOf row) (some (row, 1)) := by
  simp only [forwardThen, captureMarkerPrior, htaken, hcache]
  rfl

end Alone

theorem TieredRequest.exists_handle_row_ne {cfg : TieredConfig} {lib : EngineLib} {xml : XmlLib}
    {result : ForwardResult} {request : TieredRequest}
    (hunseen : request.unnoticed cfg lib xml result = true) :
    ∃ row, (request.handle Cell.store cfg lib xml {} result 0 (tierOf row)).store.row ≠ row := by
  cases result with
  | lost => cases hunseen
  | received a =>
    simp only [unnoticed, Bool.and_eq_true] at hunseen
    obtain ⟨⟨hcache, hstatus⟩, hunseen⟩ := hunseen
    have hwrote : wroteSuccess (.received a) = true := hstatus
    cases request with
    | single kind =>
      cases kind with
      | putObject r =>
        obtain ⟨row, hrow⟩ := Alone.stampMarker_tierOf cfg (.putObject r)
          (Alone.responseETag (.received a)) 0
        refine ⟨row, ?_⟩
        simp only [handle, Alone.handleTieredPut]
        rwa [if_pos hunseen, Alone.forwardThen_tierOf hcache hwrote]
      | deleteObject =>
        refine ⟨some onlyCopy, ?_⟩
        simp only [handle, Alone.handleDeleteObject]
        rw [Alone.forwardThen_tierOf hcache hwrote, Alone.convergeTieredDelete_tierOf]
        exact (Option.some_ne_none onlyCopy).symm
      | copyObject =>
        have hwritten : s3WriteSucceeded xml (executeAndCapture (.received a)) = true := by
          simp only [executeAndCapture, s3WriteSucceeded, hstatus, Bool.true_and]
          exact hunseen
        refine ⟨some onlyCopy, ?_⟩
        simp only [handle, Alone.handleCopyObject]
        rw [Alone.forwardThen_tierOf hcache hwritten, Alone.convergeTieredDelete_tierOf]
        exact (Option.some_ne_none onlyCopy).symm
      | completeMultipartUpload credentials =>
        have hwritten : s3WriteSucceeded xml (executeAndCapture (.received a)) = true := by
          simp only [executeAndCapture, s3WriteSucceeded, hstatus, Bool.true_and]
          exact hunseen
        obtain ⟨row, hrow⟩ := Alone.stampMarker_tierOf cfg (.completeMultipartUpload credentials)
          (Alone.completedMultipartETag xml (executeAndCapture (.received a))) 0
        refine ⟨row, ?_⟩
        simp only [handle, Alone.handleCompleteMultipartUpload]
        rwa [Alone.forwardThen_tierOf hcache hwritten]
    | deleteObjects body key =>
      rw [Bool.and_eq_true] at hunseen
      cases hkeys : xml.deleteKeys body with
      | none => simp [requested, hkeys] at hunseen
      | some keys =>
        have hrequested : requested xml body = keys := by rw [requested, hkeys, Option.getD_some]
        rw [hrequested] at hunseen
        have hdeleted : (Alone.deletedSome xml keys key (.received a) && !false) = true := by
          simp only [Alone.deletedSome, executeAndCapture, hstatus, Bool.true_and]
          cases herrors : xml.errorKeys (a.body.take a.copied) with
          | none => rfl
          | some errored =>
            rw [herrors, Option.all_some] at hunseen
            simpa using hunseen.2
        refine ⟨some onlyCopy, ?_⟩
        simp only [handle, Alone.handleDeleteObjects, hkeys, hcache, hunseen.1, Bool.and_self,
          if_true]
        rw [Alone.forwardThen_tierOf hcache hdeleted, Alone.convergeTieredDelete_tierOf]
        exact (Option.some_ne_none onlyCopy).symm

/-- An unconfirmed mutation leaves every row as it was, whatever the store answers,
exactly when its failure shows where the handler looks. -/
theorem unconfirmed_mutation_unchanged_iff (cfg : TieredConfig) (lib : EngineLib) (xml : XmlLib)
    (request : TieredRequest) (result : ForwardResult) :
    (request.unconfirmed xml result = true →
      ∀ (σ : Type) (store : VersionedStore σ Row), store.Lawful →
        ∀ (replies : StoreReplies) (now : ℤ) (sh : Tier σ),
          store.row (request.handle store cfg lib xml replies result now sh).store =
            store.row sh.store) ↔
    (request.unconfirmed xml result = true → request.unnoticed cfg lib xml result = false) := by
  constructor
  · intro hkeeps hunconfirmed
    by_contra hunseen
    rw [Bool.not_eq_false] at hunseen
    obtain ⟨row, hrow⟩ := TieredRequest.exists_handle_row_ne hunseen
    exact hrow (hkeeps hunconfirmed (Cell Row) Cell.store Cell.store_lawful {} 0 (tierOf row))
  · intro hseen hunconfirmed σ store h replies now sh
    exact TieredRequest.handle_row h (hseen hunconfirmed)

/-- A multi-object delete that upstream rejects as a whole, with a success status and an
error document, removes the only copy of the object it names. -/
theorem unconfirmed_delete_removes_only_copy :
    (TieredRequest.deleteObjects (ascii "<Delete>key") (ascii "key")).unconfirmed sampleXml
        (.received ⟨200, Header.empty, ascii "<Error>", 7⟩) = true ∧
      ((TieredRequest.deleteObjects (ascii "<Delete>key") (ascii "key")).handle Cell.store
        sampleTiered engineLib sampleXml {} (.received ⟨200, Header.empty, ascii "<Error>", 7⟩) 0
        (tierOf (some onlyCopy))).store.row = none := by
  constructor
  · decide +kernel
  · rfl

end TagGateway.Proxy
