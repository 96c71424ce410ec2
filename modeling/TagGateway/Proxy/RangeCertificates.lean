import TagGateway.Proxy.BlockServe
import TagGateway.Proxy.FetchGroup

/-!
# Certificates of fetched ranges

A range request that misses the cache has the blocks it touched fetched in the
background. When all of them have landed, the entry is published with the span of these
blocks as a certificate, and later requests inside the span skip the probes.
-/
namespace TagGateway.Proxy.RangeCertificates

open Foundation Cache FetchGroup

inductive Event where
  | settled (idx : ℤ) (f : BlockFetch)
  | committed (row : CachedObjectMeta)
deriving DecidableEq

inductive Phase where
  | token
  | fetching (expected : ℕ) (g : Group)
  | recheck (expected : ℕ)
  | commit (expected : ℕ)
  | ended
deriving DecidableEq

structure Task where
  phase : Phase := .token
  log : List Event := []
deriving DecidableEq

inductive Label where
  | getMetaWithVersion (version : Option ℕ)
  | fetch (l : FetchGroup.Label)
  | fetched
  | getMeta (found : Bool)
  | putMetaIfVersion (wrote : Bool)
deriving DecidableEq

def settlement : FetchGroup.Label → List Event
  | .settle idx f => [.settled idx f]
  | .cancel | .check | .go | .enter _ | .giveUp _ => []

section

variable (m : CachedObjectMeta) (touched : List ℤ)

def publishedMeta : CachedObjectMeta := { m with rangeBlockSpan := blockSpanForRange m touched }

/-- `populateBlockMode`, with `finalizeBlockModeMeta` at its end. -/
def step (t : Task) (l : Label) : Option Task :=
  match t.phase, l with
  | .token, .getMetaWithVersion none => some { t with phase := .ended }
  | .token, .getMetaWithVersion (some version) =>
    some { t with phase := .fetching version (.start touched) }
  | .fetching expected g, .fetch l =>
    (FetchGroup.step (toCache m) g l).map fun g' =>
      { phase := .fetching expected g', log := t.log ++ settlement l }
  | .fetching expected g, .fetched =>
    if g.drained then
      some { t with phase := if g.result = none then .recheck expected else .ended }
    else none
  | .recheck expected, .getMeta found =>
    some { t with phase := if found then .ended else .commit expected }
  | .commit _, .putMetaIfVersion wrote =>
    some { phase := .ended
           log := t.log ++ if wrote then [.committed (publishedMeta m touched)] else [] }
  | _, _ => none

/-- Ranges that touch too many blocks are not populated. -/
def triggerBlockModePopulate : Option Task :=
  if maxRangeBlockFanout < touched.length then none else some {}

end

/-! ## The order of a populate -/

/-- The block was found in the cache, or fetched, checked and stored there. -/
inductive Landed (m : CachedObjectMeta) (idx : ℤ) : BlockFetch → Prop
  | present : Landed m idx .present
  | stored {resp : RangeResponse} {remote : Bool} {data : Bytes}
      (hvalid : validateBlock m idx resp = .ok data) :
      Landed m idx (.answered resp remote .stored)

section

variable {m : CachedObjectMeta} {touched : List ℤ} {t t' : Task} {l : Label}

theorem landed_of_cacheResult {idx : ℤ} {f : BlockFetch} (h : f.cacheResult m idx = none) :
    Landed m idx f := by
  cases f with
  | present => exact .present
  | declined => simp [BlockFetch.cacheResult] at h
  | canceled => simp [BlockFetch.cacheResult] at h
  | unreachable code => simp [BlockFetch.cacheResult] at h
  | answered resp remote put =>
    simp only [BlockFetch.cacheResult] at h
    split at h
    next => simp at h
    next data hvalid =>
      cases put with
      | stored => exact .stored hvalid
      | shed => simp at h
      | failed code => simp at h

def AllLanded (m : CachedObjectMeta) (touched : List ℤ) (log : List Event) : Prop :=
  ∀ idx ∈ touched, ∃ f, Event.settled idx f ∈ log ∧ Landed m idx f

def Reached (m : CachedObjectMeta) (touched : List ℤ) (log : List Event) : Phase → Prop
  | .token | .ended => True
  | .fetching _ g => Sound (toCache m) touched g ∧
      ∀ idx f, (idx, .fetched f) ∈ g.endings → Event.settled idx f ∈ log
  | .recheck _ | .commit _ => AllLanded m touched log

/-- The entry is published last, when all blocks have landed. -/
structure Ordered (m : CachedObjectMeta) (touched : List ℤ) (t : Task) : Prop where
  reached : Reached m touched t.log t.phase
  unpublished : t.phase ≠ .ended → ∀ row, Event.committed row ∉ t.log
  published : ∀ before row after, t.log = before ++ .committed row :: after →
    row = publishedMeta m touched ∧ AllLanded m touched before

theorem Ordered.start : Ordered m touched {} where
  reached := trivial
  unpublished _ _ := by simp
  published before row after h := by simp at h

theorem Ordered.keep (h : Ordered m touched t) (hphase : t.phase ≠ .ended) {phase : Phase}
    (more : List Event) (hmore : ∀ row, Event.committed row ∉ more)
    (hreached : Reached m touched (t.log ++ more) phase) :
    Ordered m touched { phase := phase, log := t.log ++ more } := by
  have hnone : ∀ row, Event.committed row ∉ t.log ++ more := by
    intro row hrow
    rcases List.mem_append.mp hrow with hold | hnew
    · exact h.unpublished hphase row hold
    · exact hmore row hnew
  refine ⟨hreached, fun _ => hnone, fun before row after heq => ?_⟩
  refine absurd ?_ (hnone row)
  dsimp only at heq
  rw [heq]
  simp

theorem Ordered.pass (h : Ordered m touched t) (hphase : t.phase ≠ .ended) {phase : Phase}
    (hreached : Reached m touched t.log phase) : Ordered m touched { t with phase := phase } := by
  have hkept := h.keep hphase [] (by simp) (by simpa using hreached)
  rwa [List.append_nil] at hkept

theorem settled_of_advances {g g' : Group} {l : FetchGroup.Label} {new : List (ℤ × Ending)}
    (hnew : Advances (toCache m) g l new g') {log : List Event}
    (hlog : ∀ idx f, (idx, .fetched f) ∈ g.endings → Event.settled idx f ∈ log) {idx : ℤ}
    {f : BlockFetch} (hidx : (idx, .fetched f) ∈ g'.endings) :
    Event.settled idx f ∈ log ++ settlement l := by
  rw [hnew.endings, List.mem_append] at hidx
  rw [List.mem_append]
  rcases hidx with hold | hadded
  · exact .inl (hlog idx f hold)
  · rw [hnew.asked idx f hadded, settlement]
    exact .inr (List.mem_singleton_self _)

theorem allLanded_of_result_none {g : Group} (hsound : Sound (toCache m) touched g)
    (hdrained : g.drained) (hresult : g.result = none) {log : List Event}
    (hlog : ∀ idx f, (idx, .fetched f) ∈ g.endings → Event.settled idx f ∈ log) :
    AllLanded m touched log := by
  intro idx hidx
  obtain ⟨f, hf, herror⟩ := hsound.result_none hdrained hresult hidx
  exact ⟨f, hlog idx f hf, landed_of_cacheResult herror⟩

theorem Ordered.publish (h : Ordered m touched t) (hphase : t.phase ≠ .ended)
    (hlanded : AllLanded m touched t.log) :
    Ordered m touched ⟨.ended, t.log ++ [.committed (publishedMeta m touched)]⟩ := by
  constructor
  case reached => trivial
  case unpublished => simp
  case published =>
    intro before row after heq
    dsimp only at heq
    have hnone := h.unpublished hphase
    rcases List.eq_nil_or_concat after with rfl | ⟨after, e, rfl⟩
    · obtain ⟨hbefore, hrow⟩ := List.append_inj' heq rfl
      obtain rfl : publishedMeta m touched = row := by simpa using hrow
      exact ⟨rfl, hbefore ▸ hlanded⟩
    · rw [List.concat_eq_append, ← List.cons_append, ← List.append_assoc] at heq
      obtain ⟨hlog, -⟩ := List.append_inj' heq rfl
      exact absurd (by rw [hlog]; simp) (hnone row)

theorem Ordered.step (h : Ordered m touched t) (hstep : step m touched t l = some t') :
    Ordered m touched t' := by
  have hreached := h.reached
  unfold RangeCertificates.step at hstep
  split at hstep
  case h_1 hphase =>
    obtain rfl := Option.some.inj hstep
    exact h.pass (by simp [hphase]) trivial
  case h_2 hphase =>
    obtain rfl := Option.some.inj hstep
    exact h.pass (by simp [hphase]) ⟨.start _ _, by simp [Group.start]⟩
  case h_3 expected g l hphase =>
    rw [hphase] at hreached
    obtain ⟨hsound, hlog⟩ := hreached
    obtain ⟨g', hg', rfl⟩ := Option.map_eq_some_iff.mp hstep
    obtain ⟨new, hnew⟩ := step_advances hg'
    apply h.keep (by simp [hphase]) (settlement l)
    · cases l <;> simp [settlement]
    · exact ⟨hsound.advance hnew, fun _ _ hidx => settled_of_advances hnew hlog hidx⟩
  case h_4 expected g hphase =>
    rw [hphase] at hreached
    obtain ⟨hsound, hlog⟩ := hreached
    simp only [Option.ite_none_right_eq_some, Option.some.injEq] at hstep
    obtain ⟨hdrained, rfl⟩ := hstep
    apply h.pass (by simp [hphase])
    split_ifs with hresult
    · exact allLanded_of_result_none hsound hdrained hresult hlog
    · trivial
  case h_5 expected found hphase =>
    rw [hphase] at hreached
    obtain rfl := Option.some.inj hstep
    apply h.pass (by simp [hphase])
    cases found with
    | true => trivial
    | false => exact hreached
  case h_6 expected wrote hphase =>
    rw [hphase] at hreached
    obtain rfl := Option.some.inj hstep
    cases wrote with
    | true => exact h.publish (by simp [hphase]) hreached
    | false => exact h.keep (by simp [hphase]) [] (by simp) trivial
  case h_7 => simp at hstep

theorem Ordered.along_run {ls : List Label} (hrun : run (RangeCertificates.step m touched) {} ls =
    some t) : Ordered m touched t := by
  have hkeep : ∀ (t : Task) l (t' : Task), Ordered m touched t → True →
      RangeCertificates.step m touched t l = some t' → Ordered m touched t' :=
    fun _ _ _ h _ hstep => h.step hstep
  exact run_invariant hkeep .start (along_of_forall fun _ _ _ => trivial) hrun

end

/-! ## The blocks of a request -/

section

variable {m : CachedObjectMeta} {range : Bytes} {span : BlockSpan}

theorem mem_touchedBlocks {totalSize blockSize i : ℤ} :
    i ∈ touchedBlocks range totalSize blockSize ↔
      ∃ rng, parseRangeHeader range totalSize = some [rng] ∧
        rng.start.tdiv blockSize ≤ i ∧ i ≤ rng.stop.tdiv blockSize := by
  unfold touchedBlocks
  split
  next rng hparse =>
    simp only [coveringBlocks, List.bind_eq_flatMap, List.pure_def, List.mem_map,
      List.mem_flatMap, List.mem_range, List.mem_singleton, hparse, Option.some.injEq,
      List.cons.injEq, and_true, exists_eq_left']
    constructor
    · rintro ⟨_, ⟨n, hn, rfl⟩, rfl⟩
      omega
    · rintro ⟨hfirst, hlast⟩
      exact ⟨i - rng.start.tdiv blockSize, ⟨(i - rng.start.tdiv blockSize).toNat, by omega,
        by omega⟩, by omega⟩
  next hother =>
    simp only [List.not_mem_nil, false_iff, not_exists]
    rintro rng ⟨hparse, -⟩
    exact hother rng hparse

/-- A block is touched if it holds a byte of the range. -/
theorem touched_iff_holds_byte {blockSize i : ℤ} {rng : ByteRange} (hsize : 0 < blockSize)
    (hstart : 0 ≤ rng.start) (hle : rng.start ≤ rng.stop) :
    rng.start.tdiv blockSize ≤ i ∧ i ≤ rng.stop.tdiv blockSize ↔
      ∃ b, rng.start ≤ b ∧ b ≤ rng.stop ∧ b / blockSize = i := by
  rw [Int.tdiv_eq_ediv_of_nonneg hstart, Int.tdiv_eq_ediv_of_nonneg (hstart.trans hle)]
  constructor
  · rintro ⟨hfirst, hlast⟩
    rw [Int.le_ediv_iff_mul_le hsize] at hlast
    by_cases hinside : rng.start ≤ i * blockSize
    · exact ⟨i * blockSize, hinside, hlast, Int.mul_ediv_cancel i hsize.ne'⟩
    · have hbelow : i ≤ rng.start / blockSize := by
        rw [Int.le_ediv_iff_mul_le hsize]
        omega
      exact ⟨rng.start, le_rfl, hle, le_antisymm hfirst hbelow⟩
  · rintro ⟨b, hb, hb', rfl⟩
    exact ⟨Int.ediv_le_ediv hsize hb, Int.ediv_le_ediv hsize hb'⟩

/-- A list that goes up by one has everything between its ends. -/
theorem mem_iff_of_isChain {touched : List ℤ} (hchain : touched.IsChain fun a b => b = a + 1)
    {first last : ℤ} (hfirst : touched.head? = some first) (hlast : touched.getLast? = some last) :
    (∀ i, first ≤ i ∧ i ≤ last ↔ i ∈ touched) ∧ first ≤ last ∧
      last - first + 1 = touched.length := by
  induction touched generalizing first with
  | nil => simp at hfirst
  | cons a rest ih =>
    obtain rfl : a = first := by simpa using hfirst
    cases rest with
    | nil =>
      obtain rfl : a = last := by simpa using hlast
      constructor
      · intro i
        rw [List.mem_singleton]
        omega
      · simp
    | cons b rest =>
      obtain ⟨hb, htail⟩ := List.isChain_cons_cons.mp hchain
      rw [List.getLast?_cons_cons] at hlast
      obtain ⟨hmem, hle, hlength⟩ := ih htail rfl hlast
      have hstep : ∀ i, a ≤ i ∧ i ≤ last ↔ i = a ∨ b ≤ i ∧ i ≤ last := by
        intro i
        omega
      rw [List.length_cons]
      constructor
      · intro i
        rw [hstep, hmem, List.mem_cons (a := i) (b := a)]
      · omega

/-- The span has the touched blocks and no others. -/
theorem blockSpanForRange_eq_some {touched : List ℤ} (h : blockSpanForRange m touched = some span) :
    (∀ i, span.first ≤ i ∧ i ≤ span.last ↔ i ∈ touched) ∧
      0 < m.blockSize ∧ 0 ≤ span.first ∧ span.first ≤ span.last ∧
      span.last * m.blockSize < m.contentLength ∧
      span.last - span.first + 1 ≤ maxRangeBlockFanout := by
  unfold blockSpanForRange at h
  split at h
  next first last hfirst hlast =>
    simp only [Option.ite_none_right_eq_some, Option.some.injEq] at h
    obtain ⟨⟨hsize, hlength, hfanout, hnonneg, hinside, hchain⟩, rfl⟩ := h
    obtain ⟨hmem, hle, hcount⟩ := mem_iff_of_isChain hchain hfirst hlast
    rw [Int.tdiv_eq_ediv_of_nonneg (by omega), Int.le_ediv_iff_mul_le hsize] at hinside
    dsimp only
    exact ⟨hmem, hsize, hnonneg, hle, by omega, by omega⟩
  next => simp at h

/-! ## The certificate -/

/-- What a certificate says of the request it was made for, when `before` has happened. -/
structure Certifies (m : CachedObjectMeta) (range : Bytes) (before : List Event)
    (span : BlockSpan) : Prop where
  request : ∃ rng, parseRangeHeader range m.contentLength = some [rng] ∧
    ∀ i, span.first ≤ i ∧ i ≤ span.last ↔
      ∃ b, rng.start ≤ b ∧ b ≤ rng.stop ∧ b / m.blockSize = i
  inside : 0 ≤ span.first ∧ span.first ≤ span.last ∧ span.last * m.blockSize < m.contentLength
  bounded : span.last - span.first + 1 ≤ 32
  landed : ∀ i, span.first ≤ i → i ≤ span.last →
    ∃ f, Event.settled i f ∈ before ∧ Landed m i f

/-- Certificates are truthful: for every range, object and block size and every run of the
populate, a published span has exactly the blocks of the request, and each of them had
landed before; and a request is let through on a span only if all its blocks are in it. -/
theorem range_certificates_truthful :
    (∀ (m : CachedObjectMeta) (range : Bytes) (t : Task) (ls : List Label) (t' : Task),
      triggerBlockModePopulate (touchedBlocks range m.contentLength m.blockSize) = some t →
      run (step m (touchedBlocks range m.contentLength m.blockSize)) t ls = some t' →
      ∀ before row after span, t'.log = before ++ .committed row :: after →
        row.rangeBlockSpan = some span → Certifies m range before span) ∧
    ∀ (m : CachedObjectMeta) (b₀ bK : ℤ), certifiedRangeBlockSpanCovers m b₀ bK = true →
      ∃ span, m.rangeBlockSpan = some span ∧
        ∀ i, b₀ ≤ i → i ≤ bK → span.first ≤ i ∧ i ≤ span.last := by
  constructor
  · intro m range t ls t' htrigger hrun before row after span hlog hspan
    have ht : t = {} := by
      unfold triggerBlockModePopulate at htrigger
      split_ifs at htrigger
      exact (Option.some.inj htrigger).symm
    subst ht
    obtain ⟨rfl, hlanded⟩ := (Ordered.along_run hrun).published before row after hlog
    obtain ⟨hmem, hsize, hfirst, hle, hinside, hbounded⟩ := blockSpanForRange_eq_some hspan
    have hend := (hmem span.last).mp ⟨hle, le_rfl⟩
    obtain ⟨rng, hparse, -⟩ := mem_touchedBlocks.mp hend
    obtain ⟨hstart, hstop, -⟩ := parseRangeHeader_bounds hparse
    constructor
    case request =>
      use rng, hparse
      intro i
      rw [hmem, mem_touchedBlocks, ← touched_iff_holds_byte hsize hstart hstop, hparse]
      simp
    case inside => exact ⟨hfirst, hle, hinside⟩
    case bounded => exact hbounded
    case landed => exact fun i hi hi' => hlanded i ((hmem i).mp ⟨hi, hi'⟩)
  · intro m b₀ bK hcovers
    unfold certifiedRangeBlockSpanCovers at hcovers
    split at hcovers
    next => simp at hcovers
    next span hspan =>
      split_ifs at hcovers
      obtain ⟨hfirst, hlast⟩ := of_decide_eq_true hcovers
      exact ⟨span, hspan, fun i hi hi' => ⟨hfirst.trans hi, hi'.trans hlast⟩⟩

end

def twoBlockEntry : CachedObjectMeta where
  key := ascii "key"
  bucket := ascii "bucket"
  etag := ascii "\"v1\""
  contentLength := 16
  blockSize := 8

/-- A populate of the second block, which turns out to be there. -/
def secondBlockRun : List Label :=
  [.getMetaWithVersion (some 3), .fetch .check, .fetch .go, .fetch (.enter 1),
    .fetch (.settle 1 .present), .fetched, .getMeta false, .putMetaIfVersion true]

def secondBlockLog : List Event :=
  [.settled 1 .present,
    .committed { twoBlockEntry with rangeBlockSpan := some { first := 1, last := 1 } }]

theorem range_certificates_truthful_secondBlock :
    ∃ t, run (step twoBlockEntry (touchedBlocks (ascii "bytes=8-15") 16 8)) {} secondBlockRun =
        some t ∧ t.log = secondBlockLog ∧
      Certifies twoBlockEntry (ascii "bytes=8-15") [.settled 1 .present]
        { first := 1, last := 1 } :=
  ⟨{ phase := .ended, log := secondBlockLog }, by decide +kernel, rfl,
    range_certificates_truthful.1 twoBlockEntry (ascii "bytes=8-15") {} secondBlockRun
      { phase := .ended, log := secondBlockLog } (by decide +kernel) (by decide +kernel)
      [.settled 1 .present] _ [] _ rfl rfl⟩

section

variable {cfg : Config} {range : Bytes} {anonymous : Bool} {resp : Response}
  {row : CachedObjectMeta} {touched : List ℤ}

end

end TagGateway.Proxy.RangeCertificates
