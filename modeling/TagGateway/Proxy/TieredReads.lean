import TagGateway.Cache.Absence
import TagGateway.Proxy.EnginePuts

/-!
# Reads in tiered mode

A GET or HEAD of an object is answered from its row: a marker sends the body of a GET
upstream, an entry of the local tier is served from its stored body, and no row is an
authoritative `NoSuchKey`. The body is probed before anything is answered from the row.
A read of the body may fail before the response is committed; then it is decided
whether the body is gone, and with it the row.
-/
namespace TagGateway.Proxy

open Foundation Cache Auth

/-- What the client hands out for a body: chunks, and an error in the end or none. -/
structure BodyStream where
  chunks : List Bytes
  ending : Option ClientError := none
deriving DecidableEq

namespace BodyStream

def data (s : BodyStream) : Bytes := s.chunks.flatten

end BodyStream

/-- How a read of a body ended: by itself, in an error of the client, or because the
writer refused bytes beyond the recorded length or could not write any more. -/
inductive ReadEnd where
  | clean
  | error (e : ClientError)
  | refused
  | broken
deriving DecidableEq

/-- A read of a body: the bytes it should deliver, if that is known, the bytes it did
deliver, and how it ended. -/
structure BodyRead where
  expected : Option ℤ
  delivered : ℕ
  ending : ReadEnd
deriving DecidableEq

def BodyStream.toRead (s : BodyStream) (expected : Option ℤ) : BodyRead where
  expected := expected
  delivered := s.data.length
  ending := s.ending.elim .clean .error

inductive ServeError where
  | client (e : ClientError)
  | undecodable
  | notFound
  | empty
  | lengthMismatch
  | clientWrite
deriving DecidableEq

/-- A removal of the row: at the version that was read, or under its tag. -/
inductive Removal where
  | version (v : ℕ)
  | etag (staleETag : Bytes)
deriving DecidableEq

inductive TieredAnswer where
  /-- An error that the client may retry after. -/
  | failed (err : ServeError)
  | forwarded
  | notImplemented
  | noSuchKey
  | preconditionFailed
  | notModified
  | rangeNotSatisfiable
  /-- Headers only: a HEAD, or an empty object. -/
  | metadata
  /-- The response is committed and at least a part of the body follows. -/
  | body
deriving DecidableEq

/-- What a handler answers, the removal it asks for, and the reads of the body it made. -/
structure ReadOutcome where
  answer : TieredAnswer
  removal : Option Removal := none
  reads : List BodyRead := []
deriving DecidableEq

/-- Whether a write of the response succeeds, or how it fails. -/
inductive ClientWrite where
  | ok
  | failed
  | contentLength
deriving DecidableEq

def ClientWrite.error : ClientWrite → Option ServeError
  | .ok => none
  | .failed => some .clientWrite
  | .contentLength => some .lengthMismatch

/-- The answers of the cache client to the probe and to the read of a body, and of the
response writer to the write that so many chunks follow. -/
structure BodyClient where
  probe : Bytes → BodyStream
  getStream : Bytes → BodyStream
  getRangeStream : Bytes → ℤ → ℤ → BodyStream
  write : ℕ → ClientWrite

structure TieredRead where
  method : ReadMethod
  request : Request
  auth : AuthResult

def TieredRead.header (r : TieredRead) : Header := r.request.header

/-! ## Reading a body -/

/-- An error of the client whose text says so is taken for absence. -/
def bodyError (e : ClientError) : ServeError :=
  if e.isNotFoundError then .notFound else .client e

/-- The one byte at the start is read with the one after it, into a buffer. -/
def firstByte (s : BodyStream) : Except ServeError Bytes :=
  match s.ending with
  | some e => .error (bodyError e)
  | none => if s.data = [] then .error .notFound else .ok (s.data.take 1)

def bodyExistsErr (s : BodyStream) : Except ServeError Bool :=
  match firstByte s with
  | .ok _ => .ok true
  | .error .notFound => .ok false
  | .error err => .error err

/-- What serving a body leads to; `unserved` leaves the response untouched. -/
inductive BodyResult where
  | unserved (err : ServeError)
  | served (answer : TieredAnswer) (removal : Option Removal)
deriving DecidableEq

section Serve

variable (cfg : TieredConfig) (m : CachedObjectMeta)

def smallObjectThreshold : ℤ := 64 * 1024

/-- A length that is not known agrees with every body. -/
def checkCachedBodyLength (got : ℕ) : Bool :=
  decide (m.contentLength < 0) || (got : ℤ) == m.contentLength

/-- The error of a body that the writer refused, as it comes back from the client. Its
text names the object, and is classified like any other. -/
def refusedError : ServeError :=
  let object := cfg.bucket ++ ascii "/" ++ cfg.key
  if contains object (ascii "NotFound") || contains object (ascii "not found") then .notFound
  else .lengthMismatch

def recordedLength : Option ℤ := if m.contentLength < 0 then none else some m.contentLength

def serveSmall (s : BodyStream) : BodyResult × BodyRead :=
  let read := s.toRead (recordedLength m)
  match s.ending with
  | some e => (.unserved (bodyError e), read)
  | none =>
    if s.data = [] then (.unserved .empty, read)
    else if checkCachedBodyLength m s.data.length then (.served .body none, read)
    else (.unserved .lengthMismatch, read)

/-- What the writer in front of the response has let through: the bytes it has seen,
and whether the response is committed. -/
structure Bounded where
  seen : ℕ := 0
  committed : Bool := false
deriving DecidableEq

inductive WriteEnd where
  | drained
  | refused
  | broken (err : ServeError)
deriving DecidableEq

/-- The bounded writer: a chunk beyond the recorded length is refused in full, and the
last byte of that length is held back. -/
def lengthBoundedWriter (write : ℕ → ClientWrite) : List Bytes → Bounded → WriteEnd × Bounded
  | [], st => (.drained, st)
  | chunk :: rest, st =>
    let next := st.seen + chunk.length
    if chunk = [] then lengthBoundedWriter write rest st
    else if 0 ≤ m.contentLength ∧ m.contentLength < (next : ℤ) then (.refused, st)
    else
      let forward := if (next : ℤ) = m.contentLength then chunk.dropLast else chunk
      if forward = [] then lengthBoundedWriter write rest { st with seen := next }
      else match (write (rest.length + 1)).error with
        | none => lengthBoundedWriter write rest ⟨next, true⟩
        | some err => (.broken err, ⟨next, true⟩)

/-- The outcome of the whole read, once the writer has seen the stream: its error, and
whether the response is committed. The held byte is let through, which commits the
response, if the stream ended by itself with exactly the recorded bytes. -/
def settleStream (write : ℕ → ClientWrite) (s : BodyStream) :
    WriteEnd × Bounded → Option ServeError × Bool × BodyRead
  | (.refused, st) =>
    (some (refusedError cfg), st.committed, ⟨recordedLength m, st.seen, .refused⟩)
  | (.broken err, st) => (some err, st.committed, ⟨recordedLength m, st.seen, .broken⟩)
  | (.drained, st) =>
    match s.ending with
    | some e => (some (bodyError e), st.committed, ⟨recordedLength m, st.seen, .error e⟩)
    | none =>
      let read := ⟨recordedLength m, st.seen, .clean⟩
      if checkCachedBodyLength m st.seen then
        ((write 0).error, st.committed || decide (0 < st.seen), read)
      else (some .lengthMismatch, st.committed, read)

def serveLarge (client : BodyClient) (s : BodyStream) : BodyResult × BodyRead :=
  let (err, committed, read) :=
    settleStream cfg m client.write s (lengthBoundedWriter m client.write s.chunks {})
  (if committed then
      .served .body (if err = some .lengthMismatch then some (.etag m.etag) else none)
    else .unserved (err.getD .empty), read)

def serveFromCache (client : BodyClient) : BodyResult × List BodyRead :=
  if m.contentLength = 0 then (.served .metadata none, [])
  else
    let s := client.getStream m.bodyDiscriminator
    let (result, read) := if m.contentLength ≤ smallObjectThreshold then serveSmall m s
      else serveLarge cfg m client s
    (result, [read])

/-- A range is committed with its first chunk that is not empty. -/
def getRangeStreamByKey (rng : ByteRange) (s : BodyStream) : BodyResult :=
  if rng.start = 0 ∧ rng.stop = 0 then
    match firstByte s with
    | .ok _ => .served .body none
    | .error err => .unserved err
  else if s.data ≠ [] then .served .body none
  else .unserved (s.ending.elim .notFound bodyError)

def serveRangeFromCache (range : Bytes) (client : BodyClient) : BodyResult × List BodyRead :=
  match parseRangeHeader range m.contentLength with
  | some [rng] =>
    if rng.start = 0 ∧ rng.stop = 0 then
      let s := client.getRangeStream m.bodyDiscriminator 0 1
      (getRangeStreamByKey rng s, [s.toRead none])
    else
      let s := client.getRangeStream m.bodyDiscriminator rng.start rng.stop
      (getRangeStreamByKey rng s, [s.toRead (some (rng.stop - rng.start + 1))])
  | _ => (.served .rangeNotSatisfiable none, [])

end Serve

/-! ## The handlers -/

/-- The errors that are no evidence that a body is gone. -/
def transient (e : ClientError) : Bool :=
  e.canceled || e.deadlineExceeded || e.code == .canceled || e.code == .deadlineExceeded ||
    e.code == .unavailable

def bodyGone : ServeError → Bool
  | .client e => !transient e
  | .undecodable | .notFound | .empty | .lengthMismatch | .clientWrite => true

/-- A body that could not be served before the response was committed. -/
def finishServeBodyError (version : ℕ) (err : ServeError) (reads : List BodyRead) : ReadOutcome :=
  if bodyGone err then ⟨.noSuchKey, some (.version version), reads⟩
  else ⟨.failed err, none, reads⟩

section Handlers

variable (cfg : TieredConfig) (lib : EngineLib) (client : BodyClient) (r : TieredRead)

/-- An object whose date is not known counts as modified. -/
def isModifiedSince (m : CachedObjectMeta) (since : ℤ) : Bool :=
  m.lastModified == 0 || decide (since < m.lastModified)

def writePreconditionFailed (m : CachedObjectMeta) : Bool :=
  let ifMatch := r.header.get (ascii "If-Match")
  if ifMatch ≠ [] then ifMatch != ascii "*" && !m.matchesETagHeader ifMatch true
  else
    let since := r.header.get (ascii "If-Unmodified-Since")
    since != [] && (cfg.parseTime since).any (isModifiedSince m)

def writeNotModifiedFromCache (m : CachedObjectMeta) : Bool :=
  let ifNoneMatch := r.header.get (ascii "If-None-Match")
  if ifNoneMatch ≠ [] then m.matchesETagHeader ifNoneMatch false
  else
    let since := r.header.get (ascii "If-Modified-Since")
    since != [] && (cfg.parseTime since).any fun t => !isModifiedSince m t

def answerConditionalsFromMeta (m : CachedObjectMeta) : Option TieredAnswer :=
  if writePreconditionFailed cfg r m then some .preconditionFailed
  else if writeNotModifiedFromCache cfg r m then some .notModified
  else none

/-- The existence of an entry: an empty object is always there. -/
def entryServable (m : CachedObjectMeta) : Except ServeError Bool × List BodyRead :=
  if m.contentLength = 0 then (.ok true, [])
  else if m.bodyDiscriminator = [] then (.ok false, [])
  else
    let s := client.probe m.bodyDiscriminator
    (bodyExistsErr s, [s.toRead none])

def serveBody (m : CachedObjectMeta) : BodyResult × List BodyRead :=
  let range := r.header.get (ascii "Range")
  if range ≠ [] then serveRangeFromCache m range client else serveFromCache cfg m client

/-- An entry that is there: conditions first, then the metadata or the body. -/
def serveEntry (m : CachedObjectMeta) (version : ℕ) : ReadOutcome :=
  match answerConditionalsFromMeta cfg r m with
  | some answer => ⟨answer, none, []⟩
  | none =>
    if r.method = .head then ⟨.metadata, none, []⟩
    else match serveBody cfg client r m with
      | (.served answer removal, reads) => ⟨answer, removal, reads⟩
      | (.unserved err, reads) => finishServeBodyError version err reads

def serveOriginlessObject (entry : Option CachedObjectMeta) (version : ℕ) : ReadOutcome :=
  match entry with
  | none => ⟨.noSuchKey, none, []⟩
  | some m =>
    match entryServable client m with
    | (.error err, reads) => ⟨.failed err, none, reads⟩
    | (.ok false, reads) => ⟨.noSuchKey, none, reads⟩
    | (.ok true, reads) =>
      let outcome := serveEntry cfg client r m version
      { outcome with reads := reads ++ outcome.reads }

/-- The answer from a marker; only the body of a GET, or another resource, is upstream. -/
def serveMarker (m : CachedObjectMeta) : ReadOutcome :=
  if r.method = .head ∧ originlessPlainObject lib r.request then
    ⟨(answerConditionalsFromMeta cfg r m).getD .metadata, none, []⟩
  else ⟨.forwarded, none, []⟩

/-- A GET or HEAD, given the answer to its read of the row. -/
def handleTieredObject (reply : GetReply CachedObjectMeta) : ReadOutcome :=
  if r.auth ≠ .validated then ⟨.forwarded, none, []⟩
  else
    match CasCoordinator.readMetaWithVersion reply with
    | .error (.client e) => ⟨.failed (.client e), none, []⟩
    | .error _ => ⟨.failed .undecodable, none, []⟩
    | .ok (entry, version) =>
      match entry.filter (·.bodyUpstream) with
      | some m => serveMarker cfg lib r m
      | none =>
        if originlessPlainObject lib r.request then
          serveOriginlessObject cfg client r entry version
        else ⟨.notImplemented, none, []⟩

end Handlers

/-! ## Absence -/

section Absence

variable {cfg : TieredConfig} {lib : EngineLib} {client : BodyClient} {r : TieredRead}

/-- A read that found no row and is answered with `NoSuchKey` was told that there is
none, or got an error whose text says so. -/
theorem handleTieredObject_noSuchKey {reply : GetReply CachedObjectMeta}
    (hanswer : (handleTieredObject cfg lib client r reply).answer = .noSuchKey)
    (hrow : ∀ m version, reply ≠ .value (some m) version) :
    (∃ version, reply = .value none version) ∨
      ∃ e version, reply = .error e version ∧ e.isNotFoundError = true := by
  cases reply with
  | value row version =>
    cases row with
    | none => exact .inl ⟨version, rfl⟩
    | some m => exact absurd rfl (hrow m version)
  | undecodable =>
    simp only [handleTieredObject, CasCoordinator.readMetaWithVersion] at hanswer
    split_ifs at hanswer
  | error e version =>
    by_cases htext : e.isNotFoundError = true
    · exact .inr ⟨e, version, rfl, htext⟩
    · simp only [handleTieredObject, CasCoordinator.readMetaWithVersion, if_neg htext] at hanswer
      split_ifs at hanswer

/-- What only a key that is really absent may lead to, when the client's errors are of
this kind: success of an invalidation under either coordinator, and `NoSuchKey` from a
read of the row. -/
structure OnlyRealAbsence (may : ClientError → Prop) : Prop where
  fencedDelete : ∀ (σ : Type) (client : DeleteClient σ), client.Returns may → ∀ s,
    (CasCoordinator.fencedDelete client s).2.errors = [] →
      (CasCoordinator.fencedDelete client s).2.Confirmed
  legacyDelete : ∀ tombstone deleted : Option ClientError, (∀ e ∈ tombstone, may e) →
    (∀ e ∈ deleted, may e) → (LegacyCoordinator.deleteMeta tombstone deleted).errors = [] →
      (LegacyCoordinator.deleteMeta tombstone deleted).Confirmed
  read : ∀ (cfg : TieredConfig) (lib : EngineLib) (client : BodyClient) (r : TieredRead)
    (reply : GetReply CachedObjectMeta), reply.Returns may →
      (handleTieredObject cfg lib client r reply).answer = .noSuchKey →
      (∀ m version, reply ≠ .value (some m) version) → reply.reportsAbsence = true

def plainGet (header : Header) : TieredRead where
  method := .get
  request := clientRequest "GET" "/bucket/key" "" header
  auth := .validated

def constantClient (probe read : BodyStream) : BodyClient where
  probe _ := probe
  getStream _ := read
  getRangeStream _ _ _ := read
  write _ := .ok

/-- Only real absence counts as absence, exactly when every error of the client whose
text says so has the status code for it. -/
theorem only_real_absence_iff (may : ClientError → Prop) :
    OnlyRealAbsence may ↔
      ∀ e, may e → e.isNotFoundError = true → e.reportsAbsence = true := by
  constructor
  · intro h e he htext
    apply h.read sampleTiered engineLib (constantClient ⟨[], none⟩ ⟨[], none⟩) (plainGet .empty)
      (.error e 1) he
    · simp only [handleTieredObject, CasCoordinator.readMetaWithVersion, if_pos htext]
      rfl
    · simp
  · intro hcode
    constructor
    · intro σ client hclient s hok
      obtain ⟨s', version, hlast, htext⟩ := CasCoordinator.fencedDeleteLoop_last _ s 0 hok
      unfold Invalidation.Confirmed
      rw [CasCoordinator.fencedDelete, hlast]
      simp only [Option.any_some, confirmsAbsence, Option.all_eq_true]
      intro e he
      exact hcode e (hclient s' version e he) (htext e he)
    · intro tombstone deleted htombstone hdeleted hok
      have htext := LegacyCoordinator.deleteMeta_last hok
      simp only [Invalidation.Confirmed, LegacyCoordinator.deleteMeta, List.getLast?_cons,
        List.getLast?_nil, Option.getD_none, Option.getD_some, Option.any_some, confirmsAbsence,
        Option.all_eq_true]
      intro e he
      exact hcode e (hdeleted e he) (htext e he)
    · intro cfg lib client r reply hreply hanswer hrow
      rcases handleTieredObject_noSuchKey hanswer hrow with ⟨version, rfl⟩ | ⟨e, version, rfl, htext⟩
      · rfl
      · exact hcode e hreply htext

/-- A peer that cannot be reached says that it was not found, and the object is reported
absent although its row may well be there. -/
theorem unreachable_peer_read_as_absent :
    (GetReply.error { text := ascii "peer not found", code := .unavailable } 0 :
        GetReply CachedObjectMeta).reportsAbsence = false ∧
      (handleTieredObject sampleTiered engineLib (constantClient ⟨[], none⟩ ⟨[], none⟩)
        (plainGet .empty)
        (.error { text := ascii "peer not found", code := .unavailable } 0)).answer =
        .noSuchKey := by
  decide +kernel

end Absence
end TagGateway.Proxy
