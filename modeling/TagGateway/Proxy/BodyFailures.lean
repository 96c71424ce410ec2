import TagGateway.Proxy.TieredReads

/-!
# Failed reads of a local body

A body of the local tier is the only copy of its object, so a read that failed must not
be taken for a deletion. What a handler may conclude is stated over the reads it made:
the object is gone only if one of them reported its body absent, or ended by itself
with another length than the row records.
-/
namespace TagGateway.Proxy

open Foundation Cache

universe u

namespace BodyRead

variable (read : BodyRead)

def reportsAbsence : Bool :=
  match read.ending with
  | .clean => read.delivered == 0
  | .error e => e.reportsAbsence
  | .refused | .broken => false

def contradicts : Bool :=
  match read.expected, read.ending with
  | some n, .clean => (read.delivered : ℤ) != n
  | some _, .refused => true
  | _, _ => false

def saysGone : Bool := read.reportsAbsence || read.contradicts

end BodyRead

/-- The removal that a handler asks for, on the store as it is by then. -/
def ReadOutcome.remove {σ : Type u} (store : VersionedStore σ Row) (sh : Tier σ)
    (o : ReadOutcome) : Tier σ :=
  match o.removal with
  | none => sh
  | some (.version v) => (sh.deleteMetaIfVersion store v).1
  | some (.etag tag) =>
    { sh with
      store := (CasCoordinator.deleteMetaIfETag store (fun row => row.metadata.etag) tag sh.store).1 }

/-- A handler that read a row at this version concludes no more than its reads say: the
object is gone only if a read says so, any other error is what the client sees, with the
row left in place, and a removal touches the row only while it has that version. -/
structure ReadOutcome.Honest (o : ReadOutcome) (version : ℕ) : Prop where
  gone : o.answer = .noSuchKey ∨ o.removal ≠ none → ∃ read ∈ o.reads, read.saysGone = true
  failed : ∀ read ∈ o.reads, ∀ e, read.ending = .error e → e.reportsAbsence = false →
    o.answer = .failed (.client e) ∧ o.removal = none
  exact : ∀ (σ : Type) (store : VersionedStore σ Row), store.Lawful → ∀ sh : Tier σ,
    o.remove store sh = sh ∨ store.version sh.store = version

/-- The errors that reading a body may end in are of this kind. -/
def BodyClient.Returns (client : BodyClient) (may : ClientError → Prop) : Prop :=
  (∀ k, ∀ e ∈ (client.probe k).ending, may e) ∧ (∀ k, ∀ e ∈ (client.getStream k).ending, may e) ∧
    ∀ k start stop, ∀ e ∈ (client.getRangeStream k start stop).ending, may e

structure LocalEntry where
  metadata : CachedObjectMeta
  tagged : metadata.etag ≠ []
  isLocal : metadata.bodyUpstream = false

theorem LocalEntry.bodyDiscriminator_ne (entry : LocalEntry) :
    entry.metadata.bodyDiscriminator ≠ [] := by
  unfold CachedObjectMeta.bodyDiscriminator
  split_ifs with href
  · exact entry.tagged
  · exact href

/-- An error that is handled as what it is. -/
def Classified (e : ClientError) : Prop :=
  e.reportsAbsence = true ∨ transient e = true ∧ e.isNotFoundError = false

/-! ## What a failure to serve says about the read -/

/-- The error of a read, and what it is taken for, agree with the read. -/
structure Disposes (err : ServeError) (read : BodyRead) : Prop where
  gone : bodyGone err = true → read.saysGone = true
  failed : ∀ e, read.ending = .error e → e.reportsAbsence = false →
    err = .client e ∧ bodyGone err = false

theorem bodyError_disposes {e : ClientError} (he : Classified e) {read : BodyRead}
    (hread : read.ending = .error e) : Disposes (bodyError e) read := by
  rcases he with habsent | ⟨htransient, htext⟩
  · constructor
    · intro _
      simp [BodyRead.saysGone, BodyRead.reportsAbsence, hread, habsent]
    · intro e' he' hpresent
      rw [hread, ReadEnd.error.injEq] at he'
      subst he'
      rw [habsent] at hpresent
      cases hpresent
  · have herr : bodyError e = .client e := by simp [bodyError, htext]
    have hgone : bodyGone (.client e) = false := by simp [bodyGone, htransient]
    rw [herr]
    constructor
    · intro h
      rw [hgone] at h
      cases h
    · intro e' he' _
      rw [hread, ReadEnd.error.injEq] at he'
      subst he'
      exact ⟨rfl, hgone⟩

theorem disposes_of_saysGone {err : ServeError} {read : BodyRead}
    (hgone : read.saysGone = true) (hend : ∀ e, read.ending ≠ .error e) : Disposes err read :=
  ⟨fun _ => hgone, fun e he => absurd he (hend e)⟩

section Bodies

variable {cfg : TieredConfig} {m : CachedObjectMeta} {client : BodyClient} {s : BodyStream}
  {err : ServeError}

theorem firstByte_disposes (hs : ∀ e ∈ s.ending, Classified e) (herr : firstByte s = .error err)
    (expected : Option ℤ) : Disposes err (s.toRead expected) := by
  unfold firstByte at herr
  cases hend : s.ending with
  | some e =>
    simp only [hend, Except.error.injEq] at herr
    subst herr
    exact bodyError_disposes (hs e hend) (by simp [BodyStream.toRead, hend])
  | none =>
    simp only [hend] at herr
    split_ifs at herr with hdata
    apply disposes_of_saysGone
    · simp [BodyRead.saysGone, BodyRead.reportsAbsence, BodyStream.toRead, hend, hdata]
    · simp [BodyStream.toRead, hend]

theorem serveSmall_disposes (hs : ∀ e ∈ s.ending, Classified e)
    (herr : (serveSmall m s).1 = .unserved err) : Disposes err (serveSmall m s).2 := by
  unfold serveSmall at herr ⊢
  cases hend : s.ending with
  | some e =>
    simp only [hend, BodyResult.unserved.injEq] at herr ⊢
    subst herr
    exact bodyError_disposes (hs e hend) (by simp [BodyStream.toRead, hend])
  | none =>
    simp only [hend] at herr ⊢
    split_ifs at herr ⊢ with hdata hlength
    · apply disposes_of_saysGone
      · simp [BodyRead.saysGone, BodyRead.reportsAbsence, BodyStream.toRead, hend, hdata]
      · simp [BodyStream.toRead, hend]
    · simp only [checkCachedBodyLength, Bool.or_eq_true, decide_eq_true_eq, beq_iff_eq,
        not_or] at hlength
      apply disposes_of_saysGone
      · simp [BodyRead.saysGone, BodyRead.contradicts, BodyStream.toRead, recordedLength, hend,
          hlength]
      · simp [BodyStream.toRead, hend]

theorem lengthBoundedWriter_broken (m : CachedObjectMeta) (write : ℕ → ClientWrite)
    (chunks : List Bytes) (st : Bounded) {err : ServeError}
    (hbroken : (lengthBoundedWriter m write chunks st).1 = .broken err) :
    (lengthBoundedWriter m write chunks st).2.committed = true := by
  induction chunks generalizing st with
  | nil => cases hbroken
  | cons chunk rest ih =>
    simp only [lengthBoundedWriter] at hbroken ⊢
    split_ifs at hbroken ⊢
    · exact ih _ hbroken
    · exact ih _ hbroken
    · cases hwrite : (write (rest.length + 1)).error with
      | none =>
        simp only [hwrite] at hbroken ⊢
        exact ih _ hbroken
      | some err => rfl
    · cases hwrite : (write (rest.length + 1)).error with
      | none =>
        simp only [hwrite] at hbroken ⊢
        exact ih _ hbroken
      | some err => rfl

theorem serveLarge_disposes (hlarge : smallObjectThreshold < m.contentLength)
    (hs : ∀ e ∈ s.ending, Classified e) (herr : (serveLarge cfg m client s).1 = .unserved err) :
    Disposes err (serveLarge cfg m client s).2 := by
  have hpos : 0 < m.contentLength := lt_trans (by decide) hlarge
  have hrecorded : recordedLength m = some m.contentLength := if_neg (by omega)
  have hbroken := @lengthBoundedWriter_broken m client.write s.chunks {}
  simp only [serveLarge] at herr ⊢
  generalize lengthBoundedWriter m client.write s.chunks {} = written at hbroken herr ⊢
  obtain ⟨wend, st⟩ := written
  cases wend with
  | refused =>
    apply disposes_of_saysGone
    · simp [settleStream, BodyRead.saysGone, BodyRead.contradicts, hrecorded]
    · simp [settleStream]
  | broken werr =>
    -- the response was committed, so this is not an error to be disposed of
    have hcommitted : st.committed = true := hbroken rfl
    simp [settleStream, hcommitted] at herr
  | drained =>
    cases hend : s.ending with
    | some e =>
      simp only [settleStream, hend, Option.getD_some] at herr ⊢
      split_ifs at herr
      simp only [BodyResult.unserved.injEq] at herr
      subst herr
      exact bodyError_disposes (hs e hend) rfl
    | none =>
      simp only [settleStream, hend] at herr ⊢
      split_ifs at herr ⊢ with hlength
      · -- all recorded bytes came, and with the held one the response is committed
        have hseen : (st.seen : ℤ) = m.contentLength := by
          simp only [checkCachedBodyLength, Bool.or_eq_true, decide_eq_true_eq,
            beq_iff_eq] at hlength
          omega
        have hcommitted : (st.committed || decide (0 < st.seen)) = true := by
          simp [show 0 < st.seen by omega]
        exact absurd hcommitted (by assumption)
      · simp only [checkCachedBodyLength, Bool.or_eq_true, decide_eq_true_eq, beq_iff_eq,
          not_or] at hlength
        apply disposes_of_saysGone
        · simp [BodyRead.saysGone, BodyRead.contradicts, hrecorded, hlength]
        · simp

/-- What serving a body comes to: an answer that is not the body follows no read of it,
and a failure is that of the one read that was made. -/
structure Serves (served : BodyResult × List BodyRead) : Prop where
  other : ∀ answer removal, served.1 = .served answer removal → answer ≠ .body →
    answer ≠ .noSuchKey ∧ removal = none ∧ served.2 = []
  disposes : ∀ err, served.1 = .unserved err → ∃ read, served.2 = [read] ∧ Disposes err read

theorem serves_of_read {result : BodyResult} {read : BodyRead}
    (hbody : ∀ answer removal, result = .served answer removal → answer = .body)
    (hread : ∀ err, result = .unserved err → Disposes err read) : Serves (result, [read]) where
  other answer removal h hne := absurd (hbody answer removal h) hne
  disposes err h := ⟨read, rfl, hread err h⟩

theorem serveFromCache_serves (hclient : client.Returns Classified) :
    Serves (serveFromCache cfg m client) := by
  have hs := hclient.2.1 m.bodyDiscriminator
  unfold serveFromCache
  split_ifs with hempty hsmall
  · exact ⟨by simp, by simp⟩
  · apply serves_of_read
    · intro answer removal h
      split at h
      · cases h
      · split_ifs at h
        cases h
        rfl
    · exact fun err herr => serveSmall_disposes hs herr
  · apply serves_of_read
    · intro answer removal h
      dsimp only at h
      split_ifs at h <;> cases h <;> rfl
    · exact fun err herr => serveLarge_disposes (lt_of_not_ge hsmall) hs herr

theorem getRangeStreamByKey_disposes {rng : ByteRange} (hs : ∀ e ∈ s.ending, Classified e)
    (herr : getRangeStreamByKey rng s = .unserved err) (expected : Option ℤ) :
    Disposes err (s.toRead expected) := by
  unfold getRangeStreamByKey at herr
  split_ifs at herr with hfirst hdata
  · cases hbyte : firstByte s with
    | ok byte => simp [hbyte] at herr
    | error err' =>
      simp only [hbyte, BodyResult.unserved.injEq] at herr
      subst herr
      exact firstByte_disposes hs hbyte expected
  · simp only [BodyResult.unserved.injEq] at herr
    subst herr
    cases hend : s.ending with
    | some e => exact bodyError_disposes (hs e hend) (by simp [BodyStream.toRead, hend])
    | none =>
      rw [not_not] at hdata
      apply disposes_of_saysGone
      · simp [BodyRead.saysGone, BodyRead.reportsAbsence, BodyStream.toRead, hend, hdata]
      · simp [BodyStream.toRead, hend]

theorem getRangeStreamByKey_serves {rng : ByteRange} (hs : ∀ e ∈ s.ending, Classified e)
    (expected : Option ℤ) : Serves (getRangeStreamByKey rng s, [s.toRead expected]) := by
  apply serves_of_read
  · intro answer removal h
    unfold getRangeStreamByKey at h
    split_ifs at h
    · split at h <;> cases h
      rfl
    · cases h
      rfl
  · exact fun err herr => getRangeStreamByKey_disposes hs herr expected

theorem serveRangeFromCache_serves (hclient : client.Returns Classified) (range : Bytes) :
    Serves (serveRangeFromCache m range client) := by
  have hs := hclient.2.2 m.bodyDiscriminator
  unfold serveRangeFromCache
  split
  · split_ifs
    · exact getRangeStreamByKey_serves (hs 0 1) _
    · exact getRangeStreamByKey_serves (hs _ _) _
  · exact ⟨by simp, by simp⟩

end Bodies

/-! ## What the handler answers -/

section Handler

variable {cfg : TieredConfig} {lib : EngineLib} {client : BodyClient} {r : TieredRead}
  {m : CachedObjectMeta} {version : ℕ}

theorem ReadOutcome.honest_of_clean {o : ReadOutcome} (hanswer : o.answer ≠ .noSuchKey)
    (hremoval : o.removal = none) (hreads : ∀ read ∈ o.reads, ∀ e, read.ending ≠ .error e) :
    o.Honest version where
  gone h := absurd h (by simp [hanswer, hremoval])
  failed read hread e he := absurd he (hreads read hread e)
  exact σ store h sh := .inl (by simp [remove, hremoval])

section Disposed

variable {err : ServeError} {read : BodyRead} (hread : Disposes err read) {before : List BodyRead}
  (hbefore : ∀ b ∈ before, ∀ e, b.ending ≠ .error e)
include hread hbefore

theorem disposes_last {b : BodyRead} (hb : b ∈ before ++ [read]) {e : ClientError}
    (he : b.ending = .error e) (hpresent : e.reportsAbsence = false) :
    err = .client e ∧ bodyGone err = false := by
  rcases List.mem_append.mp hb with hold | hlast
  · exact absurd he (hbefore b hold e)
  · rw [List.mem_singleton] at hlast
    subst hlast
    exact hread.failed e he hpresent

theorem honest_failed : ReadOutcome.Honest ⟨.failed err, none, before ++ [read]⟩ version where
  gone h := by simp at h
  failed b hb e he hpresent := ⟨by rw [(disposes_last hread hbefore hb he hpresent).1], rfl⟩
  exact _ _ _ _ := .inl rfl

theorem honest_gone (hversion : 0 < version) (hgone : bodyGone err = true)
    {removal : Option Removal} (hremoval : ∀ x ∈ removal, x = .version version) :
    ReadOutcome.Honest ⟨.noSuchKey, removal, before ++ [read]⟩ version where
  gone _ := ⟨read, by simp, hread.gone hgone⟩
  failed b hb e he hpresent := by
    rw [(disposes_last hread hbefore hb he hpresent).2] at hgone
    cases hgone
  exact σ store h sh := by
    cases removal with
    | none => exact .inl rfl
    | some x =>
      obtain rfl := hremoval x rfl
      rcases sh.deleteMetaIfVersion_cases h hversion with ⟨s, -, hv, -⟩ | ⟨hs, -⟩
      · exact .inr hv
      · exact .inl hs

theorem finishServeBodyError_honest (hversion : 0 < version) :
    (finishServeBodyError version err (before ++ [read])).Honest version := by
  unfold finishServeBodyError
  split_ifs with hgone
  · exact honest_gone hread hbefore hversion hgone (by simp)
  · exact honest_failed hread hbefore

end Disposed

theorem serveBody_serves (hclient : client.Returns Classified) :
    Serves (serveBody cfg client r m) := by
  simp only [serveBody]
  split_ifs
  · exact serveRangeFromCache_serves hclient _
  · exact serveFromCache_serves hclient

theorem serveEntry_honest (hversion : 0 < version) (hclient : client.Returns Classified)
    {before : List BodyRead} (hbefore : ∀ b ∈ before, ∀ e, b.ending ≠ .error e)
    (hanswer : (serveEntry cfg client r m version).answer ≠ .body) :
    ReadOutcome.Honest { serveEntry cfg client r m version with
      reads := before ++ (serveEntry cfg client r m version).reads } version := by
  have hserves : Serves (serveBody cfg client r m) := serveBody_serves hclient
  unfold serveEntry at hanswer ⊢
  cases hcond : answerConditionalsFromMeta cfg r m with
  | some answer =>
    have hne : answer ≠ .noSuchKey := by
      unfold answerConditionalsFromMeta at hcond
      split_ifs at hcond <;> cases hcond <;> decide
    exact ReadOutcome.honest_of_clean hne rfl (by simpa using hbefore)
  | none =>
    simp only [hcond] at hanswer ⊢
    split_ifs at hanswer ⊢ with hhead
    · exact ReadOutcome.honest_of_clean (by simp) rfl (by simpa using hbefore)
    · generalize serveBody cfg client r m = served at hserves hanswer ⊢
      obtain ⟨result, reads⟩ := served
      cases result with
      | served answer removal =>
        obtain ⟨hne, hremoval, hreads⟩ := hserves.other answer removal rfl hanswer
        subst hremoval hreads
        exact ReadOutcome.honest_of_clean hne rfl (by simpa using hbefore)
      | unserved err =>
        obtain ⟨read, hreads, hdisposes⟩ := hserves.disposes err rfl
        subst hreads
        have hfinish := finishServeBodyError_honest hdisposes hbefore hversion
        simp only [finishServeBodyError] at hfinish ⊢
        cases hgone : bodyGone err <;> simpa [hgone] using hfinish

theorem serveOriginlessObject_honest (hversion : 0 < version) (hkey : m.bodyDiscriminator ≠ [])
    (hclient : client.Returns Classified)
    (hanswer : (serveOriginlessObject cfg client r (some m) version).answer ≠ .body) :
    (serveOriginlessObject cfg client r (some m) version).Honest version := by
  simp only [serveOriginlessObject, entryServable, if_neg hkey] at hanswer ⊢
  split_ifs at hanswer ⊢ with hempty
  · exact serveEntry_honest hversion hclient (by simp) hanswer
  · have hs := hclient.1 m.bodyDiscriminator
    generalize client.probe m.bodyDiscriminator = s at hs hanswer ⊢
    cases hbyte : firstByte s with
    | ok byte =>
      have hend : s.ending = none := by
        unfold firstByte at hbyte
        split at hbyte
        · cases hbyte
        · assumption
      simp only [bodyExistsErr, hbyte] at hanswer ⊢
      exact serveEntry_honest hversion hclient (by simp [BodyStream.toRead, hend]) hanswer
    | error err =>
      have hdisposes := firstByte_disposes hs hbyte none
      cases err with
      | notFound =>
        simp only [bodyExistsErr, hbyte]
        exact honest_gone hdisposes (List.forall_mem_nil _) hversion rfl (by simp)
      | _ =>
        simp only [bodyExistsErr, hbyte]
        exact honest_failed hdisposes (List.forall_mem_nil _)

/-- Whatever the request, and whatever the client answers with errors that are handled as
what they are, the handler concludes no more than its reads say. -/
theorem handleTieredObject_honest (entry : LocalEntry) (hversion : 0 < version)
    (hclient : client.Returns Classified)
    (hanswer : (handleTieredObject cfg lib client r
      (.value (some entry.metadata) version)).answer ≠ .body) :
    (handleTieredObject cfg lib client r (.value (some entry.metadata) version)).Honest version := by
  have hmarker : (some entry.metadata).filter (·.bodyUpstream) = none := by simp [entry.isLocal]
  simp only [handleTieredObject, CasCoordinator.readMetaWithVersion, hmarker] at hanswer ⊢
  split_ifs at hanswer ⊢
  · exact ReadOutcome.honest_of_clean (by simp) rfl (by simp)
  · exact serveOriginlessObject_honest hversion entry.bodyDiscriminator_ne hclient hanswer
  · exact ReadOutcome.honest_of_clean (by simp) rfl (by simp)

/-- A failed read of a body is not a deletion, whatever the entry and the request, when
the errors that the client may end such a read in are of this kind. -/
def FailedReadsHonest (may : ClientError → Prop) : Prop :=
  ∀ (cfg : TieredConfig) (lib : EngineLib) (client : BodyClient) (r : TieredRead)
    (entry : LocalEntry) (version : ℕ), client.Returns may → 0 < version →
    let o := handleTieredObject cfg lib client r (.value (some entry.metadata) version)
    o.answer ≠ .body → o.Honest version

def oneByte : LocalEntry where
  metadata :=
    { key := ascii "key", bucket := ascii "bucket", etag := ascii "\"7a\"", contentLength := 1
      statusCode := 200 }
  tagged := by decide
  isLocal := rfl

/-- No failed read is taken for a deletion, exactly when every error of the client reports
absence, or is one of the transient ones and does not mention that something was not
found. -/
theorem failed_reads_honest_iff (may : ClientError → Prop) :
    FailedReadsHonest may ↔
      ∀ e, may e → e.reportsAbsence = true ∨ transient e = true ∧ e.isNotFoundError = false := by
  constructor
  · intro h e he
    by_contra hclass
    rw [not_or] at hclass
    have hgone : bodyGone (bodyError e) = true := by
      unfold bodyError
      split_ifs with htext
      · rfl
      · rw [Bool.not_eq_true] at htext
        have htransient : ¬ transient e = true := fun ht => hclass.2 ⟨ht, htext⟩
        simpa [bodyGone] using htransient
    have hhonest := h sampleTiered engineLib (constantClient ⟨[[0]], none⟩ ⟨[], some e⟩)
      (plainGet .empty) oneByte 1
      ⟨by simp [constantClient], by simpa [constantClient] using he,
        by simpa [constantClient] using he⟩ Nat.one_pos
    have houtcome : handleTieredObject sampleTiered engineLib
        (constantClient ⟨[[0]], none⟩ ⟨[], some e⟩) (plainGet .empty)
        (.value (some oneByte.metadata) 1) =
        ⟨.noSuchKey, some (.version 1), [⟨none, 1, .clean⟩, ⟨some 1, 0, .error e⟩]⟩ := by
      have hfinish : finishServeBodyError 1 (bodyError e) [⟨some 1, 0, .error e⟩] =
          ⟨.noSuchKey, some (.version 1), [⟨some 1, 0, .error e⟩]⟩ := by
        rw [finishServeBodyError, if_pos hgone]
      change ({ finishServeBodyError 1 (bodyError e) [⟨some 1, 0, .error e⟩] with
        reads := [⟨none, 1, .clean⟩] ++
          (finishServeBodyError 1 (bodyError e) [⟨some 1, 0, .error e⟩]).reads } : ReadOutcome) = _
      rw [hfinish]
      rfl
    rw [houtcome] at hhonest
    obtain ⟨read, hread, hsays⟩ := (hhonest (by simp)).gone (.inl rfl)
    simp only [List.mem_cons, List.not_mem_nil, or_false] at hread
    rcases hread with rfl | rfl
    · cases hsays
    · simp [BodyRead.saysGone, BodyRead.reportsAbsence, BodyRead.contradicts, hclass.1] at hsays
  · intro hclass cfg lib client r entry version hclient hversion
    dsimp only
    intro hanswer
    apply handleTieredObject_honest entry hversion _ hanswer
    exact ⟨fun k e he => hclass e (hclient.1 k e he), fun k e he => hclass e (hclient.2.1 k e he),
      fun k start stop e he => hclass e (hclient.2.2 k start stop e he)⟩

/-- A read of the body that ends in an internal error: the object is reported absent, and
its row is removed. -/
theorem internal_error_removes_row :
    (handleTieredObject sampleTiered engineLib
        (constantClient ⟨[[0]], none⟩
          ⟨[], some { text := ascii "disk read failed", code := .internal }⟩)
        (plainGet .empty) (.value (some oneByte.metadata) 1)).answer = .noSuchKey ∧
      ((handleTieredObject sampleTiered engineLib
          (constantClient ⟨[[0]], none⟩
            ⟨[], some { text := ascii "disk read failed", code := .internal }⟩)
          (plainGet .empty) (.value (some oneByte.metadata) 1)).remove Cell.store
        { store := ⟨some ⟨oneByte.metadata, 0⟩, 0⟩, object := none, nextId := 1, bodies := [],
          log := [] }).store.row = none := by
  decide +kernel

end Handler
end TagGateway.Proxy
