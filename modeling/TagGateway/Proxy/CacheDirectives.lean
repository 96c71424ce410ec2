import TagGateway.Proxy.UndisturbedPopulate

/-!
# The directives of a response

`hasNoCacheDirectives` reads the directives of every `Cache-Control` line by name and
without regard to case. It is asked about the headers of a write. The paths that fill
the cache look for the words in the first line only, the one for a missed range in
lower case only.
-/
namespace TagGateway.Proxy

open Foundation Cache

def separatesDirectives (b : UInt8) : Bool := b == byte ',' || b == byte ' ' || b == byte '\t'

def endsDirectiveName (b : UInt8) : Bool := b == byte '=' || separatesDirectives b

/-- What follows the directive. A comma in a quoted value does not end it, and an
escaped quote does not end the value. -/
def scanDirective (quoted escaped : Bool) : Bytes → Bytes
  | [] => []
  | b :: bs =>
    if b = byte '\\' then scanDirective quoted (if quoted then !escaped else escaped) bs
    else if b = byte '"' then scanDirective (if escaped then quoted else !quoted) false bs
    else if b = byte ',' then
      if quoted then scanDirective quoted escaped bs else bs
    else scanDirective quoted false bs

theorem length_scanDirective_le (quoted escaped : Bool) (line : Bytes) :
    (scanDirective quoted escaped line).length ≤ line.length := by
  induction line generalizing quoted escaped with
  | nil => exact Nat.le_refl 0
  | cons b bs ih =>
    unfold scanDirective
    split_ifs
    all_goals first
      | exact Nat.le_succ_of_le (ih _ _)
      | exact Nat.le_succ _

theorem length_scanDirective_lt (quoted escaped : Bool) (b : UInt8) (bs : Bytes) :
    (scanDirective quoted escaped (b :: bs)).length < (b :: bs).length := by
  unfold scanDirective
  split_ifs
  all_goals first
    | exact Nat.lt_succ_of_le (length_scanDirective_le _ _ _)
    | exact Nat.lt_succ_self _

theorem length_afterDirective_lt (b : UInt8) (bs : Bytes) :
    (scanDirective false false (((b :: bs).dropWhile separatesDirectives).dropWhile
      (!endsDirectiveName ·))).length < (b :: bs).length := by
  have hskip : ((b :: bs).dropWhile separatesDirectives).length ≤ (b :: bs).length :=
    (List.dropWhile_suffix _).length_le
  have hname : (((b :: bs).dropWhile separatesDirectives).dropWhile
      (!endsDirectiveName ·)).length ≤ ((b :: bs).dropWhile separatesDirectives).length :=
    (List.dropWhile_suffix _).length_le
  cases hrest : ((b :: bs).dropWhile separatesDirectives).dropWhile (!endsDirectiveName ·) with
  | nil => exact Nat.succ_pos _
  | cons c cs =>
    rw [hrest] at hname
    exact (length_scanDirective_lt false false c cs).trans_le (hname.trans hskip)

def directiveNames : Bytes → List Bytes
  | [] => []
  | b :: bs =>
    let line := (b :: bs).dropWhile separatesDirectives
    line.takeWhile (!endsDirectiveName ·) ::
      directiveNames (scanDirective false false (line.dropWhile (!endsDirectiveName ·)))
termination_by line => line.length
decreasing_by exact length_afterDirective_lt b bs

def forbidsSharing (name : Bytes) : Bool :=
  foldCase name == ascii "no-store" || foldCase name == ascii "private"

def hasNoCacheDirectives (cacheControls : List Bytes) : Bool :=
  cacheControls.any fun cacheControl => (directiveNames cacheControl).any forbidsSharing

example : hasNoCacheDirectives [ascii "max-age=60, PRIVATE"] = true ∧
    hasNoCacheDirectives [ascii "foo=\"a, no-store\", no-storex"] = false := by
  decide +kernel

/-! ## What the paths look at -/

/-- The words a path looks for, wherever in the text they stand. -/
def forbidsIn (cc : Bytes) : Bool :=
  contains cc (ascii "no-store") || contains cc (ascii "private")

inductive PopulateForm where
  | streamFromUpstream
  | fetchFullObjectToCache
  | cacheTeedBodyFromHead
  | establishBlockMetaFromHead
  | warmParquetFooterBlocks
  | handleRangeWithBackgroundCache
  | handleRevalidation200
deriving DecidableEq

def PopulateKind.form : PopulateKind → PopulateForm
  | .streamFromUpstream _ => .streamFromUpstream
  | .fetchFullObjectToCache _ _ => .fetchFullObjectToCache
  | .cacheTeedBodyFromHead _ _ => .cacheTeedBodyFromHead
  | .establishBlockMetaFromHead _ => .establishBlockMetaFromHead
  | .warmParquetFooterBlocks _ => .warmParquetFooterBlocks
  | .handleRangeWithBackgroundCache _ _ => .handleRangeWithBackgroundCache
  | .handleRevalidation200 _ => .handleRevalidation200

/-- The lines in which the path finds one of the words. -/
def PopulateForm.Notices (form : PopulateForm) (lines : List Bytes) : Prop :=
  let first := lines.headD []
  match form with
  | .handleRangeWithBackgroundCache => forbidsIn first = true
  | .cacheTeedBodyFromHead | .establishBlockMetaFromHead | .warmParquetFooterBlocks =>
    forbidsIn (toLower first) = true
  | .streamFromUpstream | .fetchFullObjectToCache | .handleRevalidation200 =>
    forbidsIn first = true ∨ forbidsIn (toLower first) = true

section

variable {cfg : Config} {headers : Header} {lines : List Bytes}

theorem get_cacheControl (hlines : headers.values (ascii "Cache-Control") = some lines) :
    headers.get (ascii "Cache-Control") = lines.headD [] := by
  have hkey : canonicalHeaderKey (ascii "Cache-Control") = ascii "Cache-Control" := by decide
  rw [Header.get, hkey, hlines, Option.bind_some]
  cases lines <;> rfl

theorem hasNoCacheHeaders_eq (hlines : headers.values (ascii "Cache-Control") = some lines) :
    hasNoCacheHeaders headers = forbidsIn (lines.headD []) := by
  rw [hasNoCacheHeaders, get_cacheControl hlines]
  rfl

theorem isCacheable_iff {m : CachedObjectMeta} {maxSize : ℤ} :
    m.isCacheable maxSize = true ↔
      m.etag ≠ [] ∧ forbidsIn (toLower m.cacheControl) = false ∧ m.contentLength ≤ maxSize := by
  simp only [CachedObjectMeta.isCacheable, forbidsIn, Bool.and_eq_true, Bool.not_eq_true', bne_iff_ne,
    decide_eq_true_eq, and_assoc]

theorem not_forbidsIn_of_isCacheable {m : CachedObjectMeta} {maxSize : ℤ}
    (hlines : headers.values (ascii "Cache-Control") = some lines)
    (hcontrol : m.cacheControl = headers.get (ascii "Cache-Control"))
    (h : m.isCacheable maxSize = true) : ¬ forbidsIn (toLower (lines.headD [])) = true := by
  rw [← get_cacheControl hlines, ← hcontrol, (isCacheable_iff.mp h).2.1]
  exact Bool.false_ne_true

end

theorem not_notices_of_admitFullObject {cfg : Config} {anonymous : Bool} {resp : Response}
    {m : CachedObjectMeta} {lines : List Bytes}
    (hlines : resp.header.values (ascii "Cache-Control") = some lines)
    (h : admitFullObject cfg anonymous resp = some m) :
    ¬ (forbidsIn (lines.headD []) = true ∨ forbidsIn (toLower (lines.headD [])) = true) := by
  simp only [admitFullObject, Option.ite_none_right_eq_some] at h
  obtain ⟨⟨-, hheaders, -, hcacheable⟩, -⟩ := h
  rw [hasNoCacheHeaders_eq hlines] at hheaders
  rintro (hfirst | hlower)
  · exact hheaders hfirst
  · exact not_forbidsIn_of_isCacheable hlines
      (withInferredACL_get_ne anonymous resp.header _ (by decide)) hcacheable hlower

/-- A path makes no row of a response in which it finds one of the words. -/
theorem PopulateKind.not_notices {cfg : Config} {kind : PopulateKind} {resp : Response}
    {m : CachedObjectMeta} {blocks : List ℤ} {lines : List Bytes}
    (hlines : resp.header.values (ascii "Cache-Control") = some lines)
    (haccept : kind.admission cfg resp = .accept (some m) blocks) : ¬ kind.form.Notices lines := by
  cases kind with
  | streamFromUpstream anonymous | fetchFullObjectToCache gate anonymous =>
    exact not_notices_of_admitFullObject hlines (Admission.eq_of_ofMeta haccept)
  | cacheTeedBodyFromHead putETag bodyLength =>
    have h := Admission.eq_of_ofMeta haccept
    simp only [admitTeedBody, Option.ite_none_right_eq_some] at h
    exact not_forbidsIn_of_isCacheable hlines rfl h.1.2.2.1
  | establishBlockMetaFromHead writtenETag =>
    have h := Admission.eq_of_ofMeta haccept
    simp only [admitBlockMetaFromHead, Option.ite_none_right_eq_some] at h
    exact not_forbidsIn_of_isCacheable hlines rfl h.1.2.2.1
  | warmParquetFooterBlocks writtenETag =>
    have h := Admission.eq_of_ofBlocks haccept
    unfold admitParquetTrailer at h
    split at h
    · simp only [Option.ite_none_right_eq_some] at h
      exact not_forbidsIn_of_isCacheable hlines rfl h.1.2.2.2.2.2.2.1
    · cases h
  | handleRangeWithBackgroundCache rangeHeader anonymous =>
    have h := Admission.eq_of_ofBlocks haccept
    simp only [admitRangeMiss, Option.ite_none_right_eq_some, hasNoCacheHeaders_eq hlines] at h
    exact h.1.2.2.2.2.2.1
  | handleRevalidation200 staleETag =>
    simp only [PopulateKind.admission] at haccept
    split_ifs at haccept with hstatus
    rw [Admission.accept.injEq] at haccept
    have h := haccept.1
    simp only [admitRevalidated, Option.ite_none_right_eq_some, hasNoCacheHeaders_eq hlines] at h
    rintro (hfirst | hlower)
    · exact h.1.2 hfirst
    · exact not_forbidsIn_of_isCacheable hlines rfl h.1.1 hlower

/-! ## A response that only these lines could stop -/

/-- Sixteen bytes with these lines, of which the last eight are a Parquet trailer. -/
def responseWith (status : ℕ) (lines : List Bytes) : Response where
  status := status
  header := (((Header.empty.set (ascii "ETag") (ascii "v")).set (ascii "Content-Length")
    (ascii "16")).set (ascii "Content-Range") (ascii "bytes 8-15/16")).put
    (ascii "Cache-Control") lines
  body := [1, 0, 0, 0] ++ ascii "PAR1"

/-- A request of each path that makes a row of such a response. -/
def PopulateForm.sample : PopulateForm → PopulateKind × ℕ
  | .streamFromUpstream => (.streamFromUpstream false, 200)
  | .fetchFullObjectToCache => (.fetchFullObjectToCache .absent false, 200)
  | .cacheTeedBodyFromHead => (.cacheTeedBodyFromHead (ascii "v") 16, 200)
  | .establishBlockMetaFromHead => (.establishBlockMetaFromHead (ascii "v"), 200)
  | .warmParquetFooterBlocks => (.warmParquetFooterBlocks (ascii "v"), 206)
  | .handleRangeWithBackgroundCache =>
    (.handleRangeWithBackgroundCache (ascii "bytes=8-15") false, 206)
  | .handleRevalidation200 => (.handleRevalidation200 (ascii "u"), 200)

theorem PopulateForm.sample_form (form : PopulateForm) : form.sample.1.form = form := by
  cases form <;> rfl

theorem responseWith_values (status : ℕ) (lines : List Bytes) :
    (responseWith status lines).header.values (ascii "Cache-Control") = some lines :=
  Header.values_put_self _ _ _

/-- Nothing but the lines stands against the sample. -/
theorem PopulateForm.sample_admitted (form : PopulateForm) {lines : List Bytes}
    (hnot : ¬ form.Notices lines) : ∃ m blocks, form.sample.1.admission sampleConfig
      (responseWith form.sample.2 lines) = .accept (some m) blocks := by
  have hheaders : ∀ status, hasNoCacheHeaders (responseWith status lines).header =
      forbidsIn (lines.headD []) := fun status => hasNoCacheHeaders_eq (responseWith_values _ _)
  have hetag : (responseWith 206 lines).header.get (ascii "ETag") ≠ [] :=
    show ascii "v" ≠ [] by decide
  have hcacheable : ∀ {m : CachedObjectMeta}, m.etag = ascii "v" →
      m.cacheControl = (responseWith 200 lines).header.get (ascii "Cache-Control") →
      m.contentLength = 16 → ¬ forbidsIn (toLower (lines.headD [])) = true →
      m.isCacheable sampleConfig.sizeThreshold = true := by
    intro m hetag hcontrol hlength hlower
    rw [isCacheable_iff, hetag, hcontrol, hlength, get_cacheControl (responseWith_values _ _)]
    exact ⟨by decide, Bool.eq_false_of_not_eq_true hlower, by decide⟩
  cases form with
  | streamFromUpstream | fetchFullObjectToCache =>
    obtain ⟨hfirst, hlower⟩ := not_or.mp hnot
    obtain ⟨m, hm⟩ : ∃ m, admitFullObject sampleConfig false (responseWith 200 lines) = some m :=
      ⟨_, if_pos ⟨rfl, hheaders 200 ▸ hfirst, rfl, hcacheable rfl rfl rfl hlower⟩⟩
    exact ⟨m, [], congrArg Admission.ofMeta hm⟩
  | cacheTeedBodyFromHead =>
    obtain ⟨m, hm⟩ : ∃ m,
        admitTeedBody sampleConfig (ascii "v") 16 (responseWith 200 lines) = some m :=
      ⟨_, if_pos ⟨rfl, rfl, hcacheable rfl rfl rfl hnot, rfl⟩⟩
    exact ⟨m, [], congrArg Admission.ofMeta hm⟩
  | establishBlockMetaFromHead =>
    obtain ⟨m, hm⟩ : ∃ m,
        admitBlockMetaFromHead sampleConfig (ascii "v") (responseWith 200 lines) = some m :=
      ⟨_, if_pos ⟨rfl, rfl, hcacheable rfl rfl rfl hnot, rfl⟩⟩
    exact ⟨m, [], congrArg Admission.ofMeta hm⟩
  | warmParquetFooterBlocks =>
    obtain ⟨m, hm⟩ : ∃ m,
        admitParquetTrailer sampleConfig (ascii "v") (responseWith 206 lines) = some m := by
      refine ⟨_, if_pos ⟨rfl, by decide, rfl, rfl, hetag, rfl, ?_, fun _ => rfl⟩⟩
      exact hcacheable rfl rfl rfl hnot
    exact ⟨m.1, m.2, congrArg Admission.ofBlocks hm⟩
  | handleRangeWithBackgroundCache =>
    obtain ⟨m, hm⟩ : ∃ m, admitRangeMiss sampleConfig (ascii "bytes=8-15") false
        (responseWith 206 lines) = some m := by
      have htouched : touchedBlocks (ascii "bytes=8-15") 16 8 = [1] := by decide
      refine ⟨_, if_pos ⟨rfl, ?_, ?_, rfl, hetag, hheaders 206 ▸ hnot, ?_, ?_⟩⟩
      · exact show (0 : ℤ) < 16 by decide
      · exact show (16 : ℤ) ≤ 1000 by decide
      · exact show touchedBlocks (ascii "bytes=8-15") 16 8 ≠ [] by simp [htouched]
      · exact show (touchedBlocks (ascii "bytes=8-15") 16 8).length ≤ maxRangeBlockFanout by
          simp [htouched, maxRangeBlockFanout]
    exact ⟨m.1, m.2, congrArg Admission.ofBlocks hm⟩
  | handleRevalidation200 =>
    obtain ⟨hfirst, hlower⟩ := not_or.mp hnot
    obtain ⟨m, hm⟩ : ∃ m, admitRevalidated sampleConfig (responseWith 200 lines) = some m :=
      ⟨_, if_pos ⟨hcacheable rfl rfl rfl hlower, hheaders 200 ▸ hfirst⟩⟩
    exact ⟨m, [], congrArg (fun o => Admission.accept o []) hm⟩

/-- A path keeps every response with a forbidding directive on these lines out of the
cache exactly when it finds one of the words in their first. -/
theorem uncacheable_never_visible_iff (form : PopulateForm) (lines : List Bytes) :
    (hasNoCacheDirectives lines = true → ∀ cfg kind resp, kind.form = form →
      resp.header.values (ascii "Cache-Control") = some lines → ¬ MakesVisible cfg kind resp) ↔
    (hasNoCacheDirectives lines = true → form.Notices lines) := by
  constructor
  · intro h hforbids
    by_contra hnot
    exact h hforbids sampleConfig form.sample.1 _ form.sample_form (responseWith_values _ lines)
      (makesVisible_iff.mpr (form.sample_admitted hnot))
  · intro h hforbids cfg kind resp hform hlines hvisible
    obtain ⟨m, blocks, haccept⟩ := makesVisible_iff.mp hvisible
    exact PopulateKind.not_notices hlines haccept (hform ▸ h hforbids)

/-- A directive on the second line is not seen, and neither is one with a capital letter
when a range is fetched. -/
theorem uncacheable_response_visible :
    hasNoCacheDirectives [ascii "public", ascii "no-store"] = true ∧
    MakesVisible sampleConfig (.streamFromUpstream false)
      (responseWith 200 [ascii "public", ascii "no-store"]) ∧
    hasNoCacheDirectives [ascii "No-Store"] = true ∧
    MakesVisible sampleConfig (.handleRangeWithBackgroundCache (ascii "bytes=8-15") false)
      (responseWith 206 [ascii "No-Store"]) := by
  refine ⟨by decide +kernel, ?_, by decide +kernel, ?_⟩
  · exact makesVisible_iff.mpr (PopulateForm.streamFromUpstream.sample_admitted
      (show ¬ (_ ∨ _) by decide))
  · exact makesVisible_iff.mpr (PopulateForm.handleRangeWithBackgroundCache.sample_admitted
      (show ¬ (_ = _) by decide))

end TagGateway.Proxy
