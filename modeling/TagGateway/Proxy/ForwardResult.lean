import TagGateway.Proxy.Mutation

/-!
# What a forwarded mutation ends with

The transport may fail, or upstream answers, and then the copy of the answer to the
client may stop at any byte, because upstream broke off or because the client did. Some
handlers see the status that was written, others the part of the body that was copied.
A success status with an error document is a failure; whether it is one shows in the
first element of the body.
-/
namespace TagGateway.Proxy

open Foundation Cache List

/-- What `encoding/xml` makes of a document. -/
structure XmlLib where
  /-- The local name of the first element that a decoder reports, if it reports any. -/
  firstElement : Bytes → Option Bytes
  /-- The keys of a `Delete` request, in its order. -/
  deleteKeys : Bytes → Option (List Bytes)
  /-- The keys of the `Error` entries of a `DeleteResult`. -/
  errorKeys : Bytes → Option (List Bytes)
  /-- The tag in a `CompleteMultipartUploadResult`. -/
  completedETag : Bytes → Option Bytes

/-- A decoder reports an element once it has read the start tag, whatever comes after. -/
def XmlLib.Streams (xml : XmlLib) : Prop :=
  ∀ body rest name, xml.firstElement body = some name → xml.firstElement (body ++ rest) = some name

/-- Upstream's answer. The first `copied` bytes of its body were written to the client,
or held for it, before the copy ended. -/
structure UpstreamAnswer where
  status : ℕ
  header : Header
  body : Bytes
  copied : ℕ

inductive ForwardResult where
  /-- The transport failed after the request was sent. -/
  | lost
  | received (answer : UpstreamAnswer)

structure ResponseCapture where
  statusCode : ℕ
  headers : Header
  body : Bytes

/-- The status that the handler's recorder saw, zero if none was written. -/
def statusRecorder : ForwardResult → ℕ
  | .lost => 0
  | .received a => a.status

def wroteSuccess (result : ForwardResult) : Bool := isSuccess (statusRecorder result)

def executeAndCapture : ForwardResult → Option ResponseCapture
  | .lost => none
  | .received a => some ⟨a.status, a.header, a.body.take a.copied⟩

variable (xml : XmlLib)

def isS3ErrorBody (body : Bytes) : Bool :=
  !body.isEmpty && xml.firstElement body == some (ascii "Error")

def s3WriteSucceeded : Option ResponseCapture → Bool
  | none => false
  | some capture => isSuccess capture.statusCode && !isS3ErrorBody xml capture.body

/-- Upstream said that nothing changed: by its status, or by an error document. -/
def ForwardResult.saysUnchanged : ForwardResult → Bool
  | .lost => false
  | .received a => !isSuccess a.status || xml.firstElement a.body == some (ascii "Error")

theorem firstElement_of_isS3ErrorBody (hxml : xml.Streams) {body : Bytes} {n : ℕ}
    (herror : isS3ErrorBody xml (body.take n) = true) :
    xml.firstElement body = some (ascii "Error") := by
  rw [isS3ErrorBody, Bool.and_eq_true, beq_iff_eq] at herror
  have hwhole := hxml _ (body.drop n) _ herror.2
  rwa [List.take_append_drop] at hwhole

/-! ## The handlers of the proxy modes -/

inductive HandlerStep where
  | invalidate
  | forward
deriving DecidableEq

def convergeInvalidation (deleted : Bool) : List HandlerStep :=
  if deleted then [.invalidate] else [.invalidate, .invalidate]

def preForwardInvalidate (cacheEnabled : Bool) : List HandlerStep :=
  if cacheEnabled then [.invalidate] else []

/-- What a handler does for the key's metadata: `confirms` is its test of the result, and
`deleted` says whether the first attempt of the second invalidation succeeds. -/
def mutationHandler (confirms : ForwardResult → Bool) (cacheEnabled deleted : Bool)
    (result : ForwardResult) : List HandlerStep :=
  preForwardInvalidate cacheEnabled ++ .forward ::
    if confirms result && cacheEnabled then convergeInvalidation deleted else []

def handlePutObject : Bool → Bool → ForwardResult → List HandlerStep :=
  mutationHandler wroteSuccess

def handleDeleteObject : Bool → Bool → ForwardResult → List HandlerStep :=
  mutationHandler wroteSuccess

def handleCopyObject : Bool → Bool → ForwardResult → List HandlerStep :=
  mutationHandler fun result => s3WriteSucceeded xml (executeAndCapture result)

/-- A completion that is answered from the cache is not forwarded, and not here. -/
def handleCompleteMultipartUpload : Bool → Bool → ForwardResult → List HandlerStep :=
  mutationHandler fun result => s3WriteSucceeded xml (executeAndCapture result)

def mutationHandlers : List (Bool → Bool → ForwardResult → List HandlerStep) :=
  [handlePutObject, handleDeleteObject, handleCopyObject xml, handleCompleteMultipartUpload xml]

def Converges (steps : List HandlerStep) : Prop := [.forward, .invalidate] <+ steps

theorem mutationHandler_converges {confirms : ForwardResult → Bool} {deleted : Bool}
    {result : ForwardResult} :
    Converges (mutationHandler confirms true deleted result) ↔ confirms result = true := by
  unfold Converges mutationHandler preForwardInvalidate convergeInvalidation
  cases confirms result <;> cases deleted <;> decide

variable {xml}

/-- The tests of a result: all of them take every answer for a success that does not say
that nothing changed, and none takes a lost answer for one. -/
theorem confirms_of_received (hxml : xml.Streams) {a : UpstreamAnswer}
    (hunsaid : (ForwardResult.received a).saysUnchanged xml = false) :
    wroteSuccess (.received a) = true ∧
      s3WriteSucceeded xml (executeAndCapture (.received a)) = true := by
  rw [ForwardResult.saysUnchanged, Bool.or_eq_false_iff, Bool.not_eq_false'] at hunsaid
  obtain ⟨hstatus, hroot⟩ := hunsaid
  refine ⟨hstatus, ?_⟩
  simp only [executeAndCapture, s3WriteSucceeded, hstatus, Bool.true_and, Bool.not_eq_true']
  by_contra herror
  rw [Bool.not_eq_false] at herror
  rw [firstElement_of_isS3ErrorBody xml hxml herror] at hroot
  simp at hroot

/-- Unless upstream said that nothing changed, the key is invalidated after the forward,
exactly when an answer was received. -/
theorem unconfirmable_mutation_converges_iff (hxml : xml.Streams)
    (handler : Bool → Bool → ForwardResult → List HandlerStep)
    (hhandler : handler ∈ mutationHandlers xml) (cacheEnabled deleted : Bool)
    (result : ForwardResult) :
    (cacheEnabled = true → result.saysUnchanged xml = false →
      Converges (handler cacheEnabled deleted result)) ↔
    (cacheEnabled = true → result ≠ .lost) := by
  have htest : ∃ confirms, handler = mutationHandler confirms ∧ confirms .lost = false ∧
      ∀ a, (ForwardResult.received a).saysUnchanged xml = false → confirms (.received a) = true := by
    simp only [mutationHandlers, List.mem_cons, List.not_mem_nil, or_false] at hhandler
    rcases hhandler with rfl | rfl | rfl | rfl
    · exact ⟨_, rfl, rfl, fun a ha => (confirms_of_received hxml ha).1⟩
    · exact ⟨_, rfl, rfl, fun a ha => (confirms_of_received hxml ha).1⟩
    · exact ⟨_, rfl, rfl, fun a ha => (confirms_of_received hxml ha).2⟩
    · exact ⟨_, rfl, rfl, fun a ha => (confirms_of_received hxml ha).2⟩
  obtain ⟨confirms, rfl, hlost, hreceived⟩ := htest
  constructor
  · rintro h rfl rfl
    have hconfirms := mutationHandler_converges.mp (h rfl rfl)
    rw [hlost] at hconfirms
    cases hconfirms
  · rintro h rfl hunsaid
    apply mutationHandler_converges.mpr
    cases result with
    | lost => exact absurd rfl (h rfl)
    | received a => exact hreceived a hunsaid

/-- A decoder that knows the start tags of three documents. A request names one key, and
a result lists one error, right after the start tag. -/
def sampleXml : XmlLib where
  firstElement body :=
    if hasPrefix body (ascii "<Error>") then some (ascii "Error")
    else if hasPrefix body (ascii "<DeleteResult>") then some (ascii "DeleteResult")
    else none
  deleteKeys body := if hasPrefix body (ascii "<Delete>") then some [body.drop 8] else none
  errorKeys body :=
    if hasPrefix body (ascii "<DeleteResult>") then some [body.drop 14] else none
  completedETag _ := none

theorem sampleXml_streams : sampleXml.Streams := by
  intro body rest name hname
  have hstarts : ∀ pre, hasPrefix body pre = true → hasPrefix (body ++ rest) pre = true := by
    intro pre hpre
    rw [hasPrefix, List.isPrefixOf_iff_prefix] at hpre ⊢
    exact hpre.trans (List.prefix_append body rest)
  simp only [sampleXml] at hname ⊢
  split at hname
  · rename_i herror
    rwa [if_pos (hstarts _ herror)]
  · split at hname
    · rename_i hresult
      obtain ⟨tail, rfl⟩ := List.isPrefixOf_iff_prefix.mp hresult
      exact hname
    · cases hname

/-- A PUT whose success was received, with a body that could not be copied. -/
theorem unconfirmable_mutation_converges_truncated :
    Converges (handlePutObject true false (.received ⟨200, Header.empty, ascii "<", 0⟩)) :=
  (unconfirmable_mutation_converges_iff sampleXml_streams handlePutObject List.mem_cons_self
    true false _).mpr (by simp) rfl rfl

/-- A PUT that upstream may have applied, but whose answer was lost. -/
theorem lost_mutation_not_converged :
    (ForwardResult.lost).saysUnchanged sampleXml = false ∧
      handlePutObject true true .lost = [.invalidate, .forward] ∧
      ¬ Converges (handlePutObject true true .lost) := by
  refine ⟨rfl, rfl, ?_⟩
  unfold handlePutObject
  rw [mutationHandler_converges]
  decide

end TagGateway.Proxy
