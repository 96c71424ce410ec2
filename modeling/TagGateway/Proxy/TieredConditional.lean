import TagGateway.Proxy.EnginePuts

/-!
# Conditional PUTs in tiered mode

The engine judges a conditional PUT against the object that reads report. A request
that it may not take goes upstream, and upstream judges it against its own copy: it
cannot see an object of the local tier. So the size of the request decides who
judges it, and the two need not agree.
-/
namespace TagGateway.Proxy

open Foundation Cache

universe u

variable {σ : Type u} (store : VersionedStore σ Row) (cfg : TieredConfig) (lib : EngineLib)
  (newBodyRef : ℕ → Bytes)

namespace TieredPut

def alone (i : ℕ) (s : Tier σ × TieredPut) (input : TieredPutInput) : Option (Tier σ × TieredPut) :=
  s.2.step store cfg lib newBodyRef i s.1 input

/-- The client is told that the object is stored, by the engine or by upstream. -/
def Accepted (i status : ℕ) (s : Tier σ × TieredPut) : Prop :=
  (∃ etag, TierEvent.answered i (.stored etag) ∈ s.1.log) ∨
    s.2.phase = .forwarded ∧ MutationKind.putObject.confirmed status false = true

/-- Upstream reports a success only if the preconditions hold for its own copy. -/
def UpstreamJudges (status : ℕ) (s : Tier σ × TieredPut) : Prop :=
  MutationKind.putObject.confirmed status false = true →
    s.2.request.PreconditionHolds (s.1.object.map ObjectVersion.etag)

/-- The size is declared and fits the local tier, and the row is no marker. -/
def EngineJudges (sh : Tier σ) (p : TieredPut) : Prop :=
  (∃ size, p.request.originlessPutSize = some size ∧ size ≤ cfg.sizeThreshold) ∧
    ∀ row, store.row sh.store = some row → row.metadata.bodyUpstream = false

/-- The engine judges the request, or upstream's copy cannot let it through against
what is reported. Upstream holds no copy of a local object: it refuses `If-Match`, and
does not see what `If-None-Match` asks about. -/
def JudgedAsReported (sh : Tier σ) (p : TieredPut) : Prop :=
  EngineJudges store cfg sh p ∨
    match sh.reported store with
    | none => p.request.ifMatch = [] ∨
        ¬ p.request.PreconditionHolds (sh.object.map ObjectVersion.etag)
    | some m =>
      if m.bodyUpstream then
        p.request.PreconditionHolds (some m.etag) ∨
          ¬ p.request.PreconditionHolds (sh.object.map ObjectVersion.etag)
      else p.request.ifMatch ≠ [] ∨
        p.request.ifNoneMatch ≠ ascii "*" ∧ etagListed p.request.ifNoneMatch m.etag false = false

/-- The preconditions hold for the object that reads report. -/
def HoldsForReported (sh : Tier σ) (p : TieredPut) : Prop :=
  p.request.PreconditionHolds ((sh.reported store).map CachedObjectMeta.etag)

variable {store cfg lib newBodyRef} {i : ℕ} {sh : Tier σ} {p : TieredPut}

/-! ## Who judges -/

theorem route_conditional (hl : store.Lawful) (hcond : p.request.conditional = true)
    (overBudget : Bool) :
    p.route store cfg lib i sh overBudget =
      if p.localTier cfg lib = false then (sh, { p with phase := .forwarded })
      else if (store.row sh.store).any (fun row => row.metadata.bodyUpstream) then
        (readToken store i sh, { p with phase := .forwarded })
      else if cfg.cacheEnabled = false then
        p.finish i (readToken store i sh) (.refused .notImplemented)
      else p.handleOriginlessPut cfg i (readToken store i sh) (store.row sh.store)
        (store.getWithVersion sh.store).2.2 := by
  simp only [route, sh.getMetaWithVersion_eq hl, hcond, readToken, Bool.not_eq_true', Bool.not_true,
    Bool.false_and, Bool.false_eq_true, if_false, Bool.true_and]

section Routed

variable (hl : store.Lawful) (hvalidated : p.auth = .validated)
  (hplain : originlessPlainObject lib p.request.request = true)
  (hcond : p.request.conditional = true)

include hvalidated hplain in
theorem localTier_iff : p.localTier cfg lib = true ↔
    ∃ size, p.request.originlessPutSize = some size ∧ size ≤ cfg.sizeThreshold := by
  simp [localTier, hvalidated, hplain, Option.any_eq_true]

theorem any_bodyUpstream_eq_false {row : Option Row} :
    row.any (fun row => row.metadata.bodyUpstream) = false ↔
      ∀ r, row = some r → r.metadata.bodyUpstream = false := by
  cases row <;> simp

include hl hvalidated hplain hcond

theorem route_of_engineJudges (hjudges : EngineJudges store cfg sh p) (overBudget : Bool) :
    (p.route store cfg lib i sh overBudget).2.phase ≠ .forwarded := by
  have hlocal : p.localTier cfg lib = true := (localTier_iff hvalidated hplain).mpr hjudges.1
  rw [route_conditional hl hcond, if_neg (by simp [hlocal]),
    if_neg (by simp [any_bodyUpstream_eq_false.mpr hjudges.2])]
  split
  · simp [finish]
  · rcases handleOriginlessPut_cases cfg i (readToken store i sh) p
      (store.getWithVersion sh.store).2.2 (fun _ => hjudges.2) with
        ⟨code, heq⟩ | ⟨r, -, -, -, heq⟩ | ⟨-, size, heq⟩
    · simp [heq, finish]
    · simp [heq]
    · simp [heq]

theorem route_of_not_engineJudges (hjudges : ¬ EngineJudges store cfg sh p) (overBudget : Bool) :
    (p.route store cfg lib i sh overBudget).2 = { p with phase := .forwarded } ∧
      (p.route store cfg lib i sh overBudget).1.object = sh.object ∧
      ∀ etag, TierEvent.answered i (.stored etag) ∈ (p.route store cfg lib i sh overBudget).1.log →
        TierEvent.answered i (.stored etag) ∈ sh.log := by
  rw [route_conditional hl hcond]
  split
  · exact ⟨rfl, rfl, fun _ h => h⟩
  · rename_i hlocal
    rw [Bool.not_eq_false, localTier_iff hvalidated hplain] at hlocal
    have hmarker : (store.row sh.store).any (fun row => row.metadata.bodyUpstream) = true := by
      by_contra hne
      rw [Bool.not_eq_true, any_bodyUpstream_eq_false] at hne
      exact hjudges ⟨hlocal, hne⟩
    rw [if_pos hmarker]
    exact ⟨rfl, rfl, by simp [readToken, Tier.emit]⟩

theorem not_engineJudges_of_forwarded (hphase : p.phase = .routing) {input : TieredPutInput}
    {r : Tier σ × TieredPut} (hstep : p.step store cfg lib newBodyRef i sh input = some r)
    (hforwarded : r.2.phase = .forwarded) : ¬ EngineJudges store cfg sh p := by
  intro hjudges
  unfold step at hstep
  rw [hphase] at hstep
  cases input with
  | route overBudget =>
    cases hstep
    exact route_of_engineJudges hl hvalidated hplain hcond hjudges overBudget hforwarded
  | storeError applied =>
    dsimp only at hstep
    split at hstep
    · cases hstep
      cases hforwarded
    · cases hstep
  | proceed | noSlot | upload | discard => cases hstep

end Routed

/-! ## A request that the engine judges -/

theorem reported_of_local {row : Row} (hrow : store.row sh.store = some row)
    (htier : row.metadata.bodyUpstream = false) :
    sh.reported store = if sh.entryServable row.metadata then some row.metadata else none := by
  simp [Tier.reported, hrow, htier]

def passed (p : TieredPut) : Bool :=
  match p.phase with
  | .uploading _ _ | .storing _ _ _ | .rereading _ _ => true
  | .routing | .forwarded | .probing _ _ | .discarding | .finished => false

theorem stored_of_emit {answer : PutAnswer} {etag : Bytes} (hrefused : answer ≠ .stored etag)
    (hmem : TierEvent.answered i (.stored etag) ∈ (sh.emit (.answered i answer)).log) :
    TierEvent.answered i (.stored etag) ∈ sh.log := by
  simp only [Tier.emit, List.mem_append, List.mem_singleton, TierEvent.answered.injEq] at hmem
  exact hmem.resolve_right fun heq => hrefused heq.2.symm

theorem Effect.routing_of_forwarded {sh' : Tier σ} {p' : TieredPut}
    (h : Effect store newBodyRef i sh p sh' p') (hforwarded : p'.phase = .forwarded) :
    p.phase = .routing := by
  cases h with
  | forward phase => exact phase
  | readForward phase => exact phase
  | _ => cases hforwarded

variable (store) in
/-- What holds of a request that the engine judges, at every step. -/
structure Judged (i : ℕ) (sh₀ : Tier σ) (p₀ : TieredPut) (s : Tier σ × TieredPut) : Prop where
  start : s.2.phase = .routing → s = (sh₀, p₀)
  request : s.2.request = p₀.request
  forwarded : s.2.phase ≠ .forwarded
  probing : ∀ row t, s.2.phase = .probing row t → store.row sh₀.store = some row ∧
    row.metadata.bodyUpstream = false ∧ s.1.bodies = sh₀.bodies
  token_pos : ∀ t, s.2.token = some t → 0 < t
  passed : s.2.passed = true → HoldsForReported store sh₀ p₀
  stored : ∀ etag, TierEvent.answered i (.stored etag) ∈ s.1.log → HoldsForReported store sh₀ p₀

namespace Judged

variable {sh₀ : Tier σ} {p₀ : TieredPut} {s s' : Tier σ × TieredPut}

theorem initial (hphase : p₀.phase = .routing)
    (hnew : ∀ etag, TierEvent.answered i (.stored etag) ∉ sh₀.log) :
    Judged store i sh₀ p₀ (sh₀, p₀) where
  start _ := rfl
  request := rfl
  forwarded := by simp [hphase]
  probing := by simp [hphase]
  token_pos := by simp [TieredPut.token, hphase]
  passed := by simp [TieredPut.passed, hphase]
  stored etag hmem := absurd hmem (hnew etag)

section Phases

variable {sh : Tier σ} {p : TieredPut} (hrequest : p.request = p₀.request) {q : TieredPutPhase}
include hrequest

theorem of_passed (hpassed : ({ p with phase := q } : TieredPut).passed = true)
    (hpos : ∀ t, ({ p with phase := q } : TieredPut).token = some t → 0 < t)
    (hholds : HoldsForReported store sh₀ p₀) :
    Judged store i sh₀ p₀ (sh, { p with phase := q }) := by
  constructor
  case request => exact hrequest
  case token_pos => exact hpos
  case passed => exact fun _ => hholds
  case stored => exact fun _ _ => hholds
  all_goals
    simp only [TieredPut.passed] at hpassed
    split at hpassed <;> simp_all

theorem of_answered (hphase : q = .finished ∨ q = .discarding)
    (hstored : ∀ etag, TierEvent.answered i (.stored etag) ∈ sh.log →
      HoldsForReported store sh₀ p₀) : Judged store i sh₀ p₀ (sh, { p with phase := q }) := by
  constructor
  case request => exact hrequest
  case stored => exact hstored
  all_goals rcases hphase with rfl | rfl <;> simp [TieredPut.passed, TieredPut.token]

end Phases

theorem of_effect (hl : store.Lawful) (hcond : p₀.request.conditional = true)
    (h : Judged store i sh₀ p₀ s) (hforwarded : s'.2.phase ≠ .forwarded)
    (heffect : Effect store newBodyRef i s.1 s.2 s'.1 s'.2) : Judged store i sh₀ p₀ s' := by
  obtain ⟨sh, p⟩ := s
  obtain ⟨sh', p'⟩ := s'
  have hrequest := h.request
  have hstored := h.stored
  dsimp only at heffect hforwarded hrequest hstored
  cases heffect with
  | forward | readForward => exact absurd rfl hforwarded
  | refuse live refused =>
    apply of_answered hrequest (.inl rfl)
    exact fun etag hmem => hstored etag (stored_of_emit (refused etag) hmem)
  | readRefuse phase =>
    apply of_answered hrequest (.inl rfl)
    intro etag hmem
    simp only [readToken, Tier.emit, List.mem_append, List.mem_singleton,
      TierEvent.answered.injEq, reduceCtorEq, and_false, or_false] at hmem
    exact hstored etag hmem
  | readProbe phase conditional found tier =>
    cases h.start phase
    constructor
    case request => rfl
    case probing =>
      rintro row t ⟨⟩
      exact ⟨found, tier, rfl⟩
    case token_pos =>
      rintro t ⟨⟩
      exact hl.get_pos _
    case stored =>
      intro etag hmem
      simp only [readToken, Tier.emit, List.mem_append, List.mem_singleton, reduceCtorEq,
        or_false] at hmem
      exact hstored etag hmem
    all_goals simp [TieredPut.passed]
  | readAccept phase met =>
    cases h.start phase
    apply of_passed hrequest rfl
    · rintro t ⟨⟩
      exact hl.get_pos _
    · obtain ⟨hrow, hcheck⟩ := met hcond
      rw [PutRequest.checkPreconditions_eq_none_iff] at hcheck
      simpa [HoldsForReported, Tier.reported, hrow] using hcheck
  | @accept row token size phase met =>
    obtain ⟨hrow, htier, hbodies⟩ := h.probing row token phase
    apply of_passed hrequest rfl
    · rintro t ⟨⟩
      exact h.token_pos token (by rw [TieredPut.token, phase])
    · have hservable : sh.entryServable row.metadata = sh₀.entryServable row.metadata := by
        rw [Tier.entryServable, hbodies, Tier.entryServable]
      rw [hrequest, hservable, PutRequest.checkPreconditions_eq_none_iff] at met
      rw [HoldsForReported, reported_of_local hrow htier]
      exact met
  | @stage token size m phase staged =>
    apply of_passed hrequest rfl
    · rintro t ⟨⟩
      exact h.token_pos token (by rw [TieredPut.token, phase])
    · exact h.passed (by rw [TieredPut.passed, phase])
  | abort live kept refused =>
    apply of_answered hrequest (.inr rfl)
    exact fun etag hmem => hstored etag (stored_of_emit (refused etag) hmem)
  | install phase =>
    apply of_answered hrequest (.inl rfl)
    exact fun _ _ => h.passed (by rw [TieredPut.passed, phase])
  | retry phase unconditional =>
    exact of_passed hrequest rfl (by simp [TieredPut.token])
      (h.passed (by rw [TieredPut.passed, phase]))
  | reread phase =>
    apply of_passed hrequest rfl
    · rintro t ⟨⟩
      exact hl.get_pos _
    · exact h.passed (by rw [TieredPut.passed, phase])
  | discard phase kept => exact of_answered hrequest (.inl rfl) hstored

/-- A request that the engine judges is accepted only if its preconditions hold for
the object that reads report. -/
theorem holds_of_accepted (hl : store.Lawful) (hvalidated : p₀.auth = .validated)
    (hplain : originlessPlainObject lib p₀.request.request = true)
    (hcond : p₀.request.conditional = true) (hjudges : EngineJudges store cfg sh₀ p₀)
    (hinit : Judged store i sh₀ p₀ (sh₀, p₀)) {inputs : List TieredPutInput}
    (hrun : run (alone store cfg lib newBodyRef i) (sh₀, p₀) inputs = some s) {status : ℕ}
    (haccepted : Accepted i status s) : HoldsForReported store sh₀ p₀ := by
  have hjudged : Judged store i sh₀ p₀ s := by
    refine run_invariant ?_ hinit (along_of_forall fun _ _ _ => trivial) hrun
    intro s input s' hs _ hstep
    have heffect := step_effect hl hs.token_pos hstep
    apply hs.of_effect hl hcond _ heffect
    intro hforwarded
    have hphase : s.2.phase = .routing := heffect.routing_of_forwarded hforwarded
    cases hs.start hphase
    exact not_engineJudges_of_forwarded hl hvalidated hplain hcond hphase hstep hforwarded hjudges
  rcases haccepted with ⟨etag, hmem⟩ | ⟨hphase, -⟩
  · exact hjudged.stored etag hmem
  · exact absurd hphase hjudged.forwarded

end Judged

/-! ## A request that is sent on -/

/-- The request waits, is sent on or has failed, and nothing is stored. -/
structure SentOn (i : ℕ) (sh₀ : Tier σ) (p₀ : TieredPut) (s : Tier σ × TieredPut) : Prop where
  phase : s = (sh₀, p₀) ∨ s.2.phase = .forwarded ∨ s.2.phase = .finished
  request : s.2.request = p₀.request
  object : s.1.object = sh₀.object
  stored : ∀ etag, TierEvent.answered i (.stored etag) ∉ s.1.log

theorem SentOn.of_run {sh₀ : Tier σ} {p₀ : TieredPut} (hl : store.Lawful)
    (hphase : p₀.phase = .routing) (hvalidated : p₀.auth = .validated)
    (hplain : originlessPlainObject lib p₀.request.request = true)
    (hcond : p₀.request.conditional = true) (hjudges : ¬ EngineJudges store cfg sh₀ p₀)
    (hnew : ∀ etag, TierEvent.answered i (.stored etag) ∉ sh₀.log)
    {inputs : List TieredPutInput} {s : Tier σ × TieredPut}
    (hrun : run (alone store cfg lib newBodyRef i) (sh₀, p₀) inputs = some s) :
    SentOn i sh₀ p₀ s := by
  have hinit : SentOn i sh₀ p₀ (sh₀, p₀) := ⟨.inl rfl, rfl, rfl, hnew⟩
  refine run_invariant ?_ hinit (along_of_forall fun _ _ _ => trivial) hrun
  intro s input s' hs _ hstep
  rcases hs.phase with rfl | hforwarded | hfinished
  · simp only [alone, step, hphase] at hstep
    split at hstep
    · rename_i overBudget _
      cases hstep
      obtain ⟨hsent, hobject, hlog⟩ :=
        route_of_not_engineJudges hl hvalidated hplain hcond hjudges overBudget
      refine ⟨.inr (.inl ?_), ?_, hobject, fun etag hmem => hnew etag (hlog etag hmem)⟩
      · rw [hsent]
      · rw [hsent]
    · split at hstep
      · cases hstep
        refine ⟨.inr (.inr rfl), rfl, rfl, fun etag hmem => hnew etag ?_⟩
        have hfailed : PutAnswer.failed ≠ .stored etag := by simp
        exact stored_of_emit hfailed hmem
      · cases hstep
    all_goals simp_all
  · simp [alone, step, hforwarded] at hstep
  · simp [alone, step, hfinished] at hstep

/-- What the condition says of a request that is sent on: upstream's verdict implies
the one against the reported object. -/
theorem judgedAsReported_iff (hcond : p.request.conditional = true)
    (hjudges : ¬ EngineJudges store cfg sh p)
    (hcopy : ∀ m, sh.reported store = some m → m.bodyUpstream = false → sh.object = none) :
    JudgedAsReported store cfg sh p ↔
      (p.request.PreconditionHolds (sh.object.map ObjectVersion.etag) →
        HoldsForReported store sh p) := by
  rw [JudgedAsReported, or_iff_right hjudges, HoldsForReported]
  cases hreported : sh.reported store with
  | none =>
    dsimp only [Option.map_none]
    rw [PutRequest.preconditionHolds_none]
    tauto
  | some m =>
    dsimp only [Option.map_some]
    split
    · tauto
    · rename_i htier
      rw [hcopy m hreported (by simpa using htier), Option.map_none,
        PutRequest.preconditionHolds_none, ← imp_iff_not_or]
      have hheader : p.request.ifMatch = [] → p.request.ifNoneMatch ≠ [] := by
        intro hnone
        simpa [PutRequest.conditional, hnone] using hcond
      constructor
      · intro hlisted hnone
        refine ⟨fun him => absurd hnone him, fun _ tag htag => ?_⟩
        rw [← Option.some.inj htag]
        exact hlisted hnone
      · intro hholds hnone
        exact (hholds hnone).2 (hheader hnone) m.etag rfl

/-- For every state of the key and every validated plain PUT with a precondition, of
any declared size, alone or failing at any step: the PUT is accepted only if its
preconditions hold for the object that reads report, exactly when the engine judges
it or upstream's own copy cannot let it through against that object. Upstream judges
by its own copy, and holds none of an object of the local tier. -/
theorem conditional_put_judged_as_reported_iff (hl : store.Lawful) {i : ℕ} {sh : Tier σ}
    {p : TieredPut} (hphase : p.phase = .routing) (hvalidated : p.auth = .validated)
    (hplain : originlessPlainObject lib p.request.request = true)
    (hcond : p.request.conditional = true)
    (hnew : ∀ etag, TierEvent.answered i (.stored etag) ∉ sh.log)
    (hcopy : ∀ m, sh.reported store = some m → m.bodyUpstream = false → sh.object = none) :
    (∀ inputs s status, run (alone store cfg lib newBodyRef i) (sh, p) inputs = some s →
      UpstreamJudges status s → Accepted i status s →
      p.request.PreconditionHolds ((sh.reported store).map CachedObjectMeta.etag)) ↔
    JudgedAsReported store cfg sh p := by
  by_cases hjudges : EngineJudges store cfg sh p
  · apply iff_of_true _ (.inl hjudges)
    intro inputs s status hrun _ haccepted
    exact Judged.holds_of_accepted hl hvalidated hplain hcond hjudges (.initial hphase hnew) hrun
      haccepted
  rw [judgedAsReported_iff hcond hjudges hcopy]
  constructor
  · intro h hholds
    obtain ⟨hsent, hobject, -⟩ := route_of_not_engineJudges (i := i) hl hvalidated hplain hcond
      hjudges false
    apply h [.route false] (p.route store cfg lib i sh false) 200
    · simp [run_cons, alone, step, hphase]
    · intro _
      rw [hsent, hobject]
      exact hholds
    · exact .inr ⟨by rw [hsent], rfl⟩
  · intro h inputs s status hrun hupstream haccepted
    have hsent := SentOn.of_run hl hphase hvalidated hplain hcond hjudges hnew hrun
    rcases haccepted with ⟨etag, hmem⟩ | ⟨-, hconfirmed⟩
    · exact absurd hmem (hsent.stored etag)
    · apply h
      rw [← hsent.request, ← hsent.object]
      exact hupstream hconfirmed

def localEntry : Tier (Cell Row) where
  store := ⟨some ⟨{ key := ascii "key", bucket := ascii "bucket", etag := ascii "\"78\""
                    contentLength := 1, bodyRef := sampleRef 0 }, 0⟩, 1⟩
  object := none
  nextId := 1
  bodies := [sampleRef 0]
  log := []

theorem conditional_put_judged_as_reported_small :
    ∃ s, run (alone Cell.store sampleTiered engineLib sampleRef 1)
        (localEntry, samplePut "If-Match" "\"78\"" "w")
        [.route false, .proceed, .upload wholeUpload, .proceed] = some s ∧
      TierEvent.answered 1 (.stored (ascii "\"77\"")) ∈ s.1.log ∧
      (samplePut "If-Match" "\"78\"" "w").request.PreconditionHolds
        ((localEntry.reported Cell.store).map CachedObjectMeta.etag) := by
  have hends : ∃ s, run (alone Cell.store sampleTiered engineLib sampleRef 1)
      (localEntry, samplePut "If-Match" "\"78\"" "w")
      [.route false, .proceed, .upload wholeUpload, .proceed] = some s ∧
      TierEvent.answered 1 (.stored (ascii "\"77\"")) ∈ s.1.log :=
    exists_run_of_any (by decide +kernel)
  obtain ⟨s, hrun, hstored⟩ := hends
  refine ⟨s, hrun, hstored, ?_⟩
  have hjudged : JudgedAsReported Cell.store sampleTiered localEntry
      (samplePut "If-Match" "\"78\"" "w") := by
    refine .inl ⟨⟨1, by decide +kernel, by decide⟩, ?_⟩
    rintro row ⟨⟩
    rfl
  exact (conditional_put_judged_as_reported_iff Cell.store_lawful rfl rfl (by decide +kernel)
    (by decide +kernel) (by simp [localEntry]) (fun _ _ _ => rfl)).mpr hjudged _ s 500 hrun
    (by nofun) (.inl ⟨_, hstored⟩)

def largeCreate : TieredPut where
  request :=
    { request := clientRequest "PUT" "/bucket/key" ""
        (Header.empty.set (ascii "If-None-Match") (ascii "*"))
      contentLength := 2000
      body := ⟨List.replicate 2000 0, .eof⟩ }
  auth := .validated

/-- It is sent on, upstream holds nothing and accepts it, though the object exists. -/
theorem conditional_put_replaces_local_entry :
    ∃ s, run (alone Cell.store sampleTiered engineLib sampleRef 0) (localEntry, largeCreate)
        [.route false] = some s ∧
      localEntry.object = none ∧ UpstreamJudges 200 s ∧ Accepted 0 200 s ∧
      (localEntry.reported Cell.store).map CachedObjectMeta.bodyUpstream = some false ∧
      ¬ largeCreate.request.PreconditionHolds
        ((localEntry.reported Cell.store).map CachedObjectMeta.etag) := by
  have hends : ∃ s, run (alone Cell.store sampleTiered engineLib sampleRef 0)
      (localEntry, largeCreate) [.route false] = some s ∧ s.2.phase = .forwarded ∧
      s.2.request.PreconditionHolds (s.1.object.map ObjectVersion.etag) :=
    exists_run_of_any (by decide +kernel)
  obtain ⟨s, hrun, hphase, hholds⟩ := hends
  refine ⟨s, hrun, rfl, fun _ => hholds, .inr ⟨hphase, rfl⟩, ?_, ?_⟩
  · decide +kernel
  · decide +kernel

end TieredPut
end TagGateway.Proxy
