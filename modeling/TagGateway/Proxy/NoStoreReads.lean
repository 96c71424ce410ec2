import TagGateway.Proxy.ReadRoute
import TagGateway.Proxy.UndisturbedPopulate

/-!
# A read that asks not to be stored

`HandleGetObject` looks at the client's `no-store` when it decides whether to read the
cache, and again for the status it reports. The populates that the miss path starts do
not know of it.
-/
namespace TagGateway.Proxy

open Foundation Cache

universe u

/-- A GET whose `Cache-Control` contains `no-store`, with what decides its handling: the
settings, whether there are credentials to fetch with, and upstream's answers to the
client's request and to a fetch of the whole object. -/
structure BypassedGet where
  read : ReadConfig
  cfg : Config
  request : ReadRequest
  hasCredentials : Bool
  resp : Response
  full : Response
  isGet : request.method = .get
  bypasses : request.shouldBypassCache = true

inductive GetPhase where
  | arrived
  | asked
  | answered
deriving DecidableEq

inductive GetLabel where
  | ask
  | own (input : PopulateInput)
  | warm
  | background (input : PopulateInput)

/-- A response the environment gives is the one upstream sends. -/
def PopulateInput.fits (resp : Response) : PopulateInput → Bool
  | .response other => other = resp
  | _ => true

def PopulateInput.answers : PopulateInput → Bool
  | .response _ => true
  | _ => false

namespace BypassedGet

variable (g : BypassedGet)

def totalSize : ℤ := (parseContentRange (g.resp.header.get (ascii "Content-Range"))).total

/-- `cacheable` of `handleRangeWithBackgroundCache`. -/
def cacheable : Bool :=
  decide (g.resp.status = 206) && decide (0 < g.totalSize) &&
    decide (g.totalSize ≤ g.cfg.sizeThreshold) && g.read.cacheEnabled && g.hasCredentials

def blockEligible : Bool :=
  isBlockEligibleSize g.cfg g.totalSize && g.cacheable &&
    g.resp.header.get (ascii "ETag") != [] && !hasNoCacheHeaders g.resp.header

/-- The populate that reads along with the client's request. A disabled cache admits
nothing, and neither does a range request without credentials. -/
def own : Option PopulateKind :=
  if g.request.hasRepresentationSelectors || !g.read.cacheEnabled then none
  else match missRoute g.read g.request with
    | .coalesce => some (.streamFromUpstream g.request.hasNoAuthCredentials)
    | _ =>
      if g.hasCredentials then
        some (.handleRangeWithBackgroundCache g.request.rangeHeader g.request.hasNoAuthCredentials)
      else none

/-- Whether the whole object is fetched in the background: when the client of a full read
is gone, and after an answered range request whose blocks are not kept. -/
def warms (phase : GetPhase) : Bool :=
  !g.request.hasRepresentationSelectors &&
    match missRoute g.read g.request with
    | .coalesce => phase != .arrived && g.read.cacheEnabled && g.hasCredentials
    | _ => phase == .answered && g.cacheable && !g.blockEligible

variable {σ : Type u} (store : VersionedStore σ Row)

def step (s : World σ × GetPhase) : GetLabel → Option (World σ × GetPhase)
  | .ask =>
    if s.2 = .arrived then
      g.own.bind fun kind => (s.1.step store g.cfg (.startPopulate 0 kind)).map (·, .asked)
    else none
  | .own input =>
    if input.fits g.resp then
      (s.1.step store g.cfg (.populate 0 input)).map
        (·, if input.answers then .answered else s.2)
    else none
  | .warm =>
    if g.warms s.2 then
      (s.1.step store g.cfg (.startPopulate 1
        (.fetchFullObjectToCache .absent g.request.hasNoAuthCredentials))).map (·, s.2)
    else none
  | .background input =>
    if input.fits g.full then (s.1.step store g.cfg (.populate 1 input)).map (·, s.2) else none

/-- Nothing the request starts changes the row of its key, whatever the cache holds. -/
def StoresNothing : Prop :=
  ∀ (σ : Type) (store : VersionedStore σ Row), store.Lawful →
    ∀ (s : σ) (object : Option ObjectVersion) (nextId : ℕ) (blocks : List BlockKey)
      (ls : List GetLabel) (t : World σ × GetPhase),
      run (g.step store) (World.initial s object nextId blocks, .arrived) ls = some t →
      store.row t.1.shared.store = store.row s

/-- An answer to the request, or to the fetch it leaves behind, is one that the gateway
keeps. The fetch after a range request finds the version that the range was of. -/
def Storable : Prop :=
  g.read.cacheEnabled = true ∧ g.request.hasRepresentationSelectors = false ∧
    if g.request.rangeHeader = [] then
      (admitFullObject g.cfg g.request.hasNoAuthCredentials g.resp).isSome = true ∨
        g.hasCredentials = true ∧
          (admitFullObject g.cfg g.request.hasNoAuthCredentials g.full).isSome = true
    else
      g.hasCredentials = true ∧ (admitRangeMiss g.cfg g.request.rangeHeader
          g.request.hasNoAuthCredentials g.resp).isSome = true ∨
        g.cacheable = true ∧ g.blockEligible = false ∧
          (admitFullObject g.cfg g.request.hasNoAuthCredentials g.full).isSome = true ∧
          g.full.header.get (ascii "ETag") = g.resp.header.get (ascii "ETag")

end BypassedGet

/-! ## Populates that hold no row -/

namespace Populate

variable {σ : Type u} {store : VersionedStore σ Row} {cfg : Config} {i : ℕ} {sh sh' : Shared σ}
  {p p' : Populate} {input : PopulateInput}

/-- A populate without a row leaves the key's row alone, unless it removes a stale one. -/
theorem step_row_eq (h : store.Lawful) (hrow : p.row = none)
    (hdelete : Op.deleteIfETagDelete ∉ p.rest)
    (hstep : step store cfg i sh p input = some (sh', p')) :
    store.row sh'.store = store.row sh.store := by
  cases hrest : p.rest with
  | nil => simp [step, hrest] at hstep
  | cons op rest =>
    cases op with
    | deleteIfETagDelete =>
      rw [hrest] at hdelete
      exact absurd List.mem_cons_self hdelete
    | getMetaWithVersion =>
      cases input <;> simp [step, hrest, readToken, CasCoordinator.getMetaWithVersion] at hstep
      · rw [← hstep.1]
        exact h.get_row sh.store
      · rw [← hstep.1]
      · rw [← hstep.1]
    | deleteIfETagRead =>
      cases input <;> simp [step, hrest] at hstep
      · rw [← hstep.1, CasCoordinator.deleteMetaIfETagRead_store]
        exact h.get_row sh.store
      · rw [← hstep.1]
      · rw [← hstep.1]
    | putMeta =>
      cases input <;> simp [step, hrest, commit, hrow] at hstep
      · rw [← hstep.1]
      · rw [← hstep.1]
      · rw [← hstep.1]
    | send | receive | getMeta | fetchBlocks =>
      have hstore : sh'.store = sh.store := by
        cases input <;> simp [step, hrest, hrow] at hstep <;> grind [Shared.emit]
      rw [hstore]

/-- A step keeps the populate without a row when no row is made of the response it gets. -/
theorem step_row_none (h : store.Lawful) (hrow : p.row = none)
    (hresp : ∀ resp, input = .response resp → sh.answers resp = true →
      ∀ m blocks, p.kind.admission cfg resp ≠ .accept (some m) blocks)
    (hstep : step store cfg i sh p input = some (sh', p')) : p'.row = none := by
  rcases (step_effect h hstep).row_cases with hsame | ⟨rest, hrest, -⟩
  · rw [hsame, hrow]
  · cases input with
    | response resp =>
      obtain ⟨rest', -, hanswers, rfl, rfl⟩ := step_response hstep
      exact receive_row_none hrow (hresp resp rfl hanswers)
    | abandon =>
      simp only [step, hrest, Option.some.injEq, Prod.mk.injEq] at hstep
      rw [← hstep.2]
      exact hrow
    | _ => simp [step, hrest] at hstep

theorem Effect.object_eq (heffect : Effect store cfg i sh p sh' p') : sh'.object = sh.object := by
  cases heffect with
  | quiet settles kind token row rest => exact settles.object
  | token next admits | send next | receive next answers | commit token row written => rfl

end Populate

theorem Shared.answers_congr {σ : Type u} {sh sh' : Shared σ} (hobject : sh'.object = sh.object)
    (resp : Response) : sh'.answers resp = sh.answers resp := by
  unfold Shared.answers
  rw [hobject]

/-! ## Nothing to store -/

namespace BypassedGet

variable {g : BypassedGet}

theorem missRoute_eq (g : BypassedGet) : missRoute g.read g.request =
    if g.request.rangeHeader = [] then .coalesce else .forward (cacheMissStatus g.read true) := by
  by_cases hrange : g.request.rangeHeader = [] <;>
    simp [missRoute, g.isGet, g.bypasses, hrange]

theorem own_spec {kind : PopulateKind} (hown : g.own = some kind) :
    g.read.cacheEnabled = true ∧ g.request.hasRepresentationSelectors = false ∧
      if g.request.rangeHeader = [] then kind = .streamFromUpstream g.request.hasNoAuthCredentials
      else g.hasCredentials = true ∧ kind = .handleRangeWithBackgroundCache g.request.rangeHeader
        g.request.hasNoAuthCredentials := by
  unfold own at hown
  rw [missRoute_eq] at hown
  by_cases hrange : g.request.rangeHeader = []
  · simp only [hrange, if_true, Option.ite_none_left_eq_some, Option.some.injEq] at hown ⊢
    simp_all
  · simp only [hrange, if_false, Option.ite_none_left_eq_some, Option.ite_none_right_eq_some,
      Option.some.injEq] at hown ⊢
    simp_all

theorem warms_spec {phase : GetPhase} (hwarms : g.warms phase = true) :
    g.read.cacheEnabled = true ∧ g.request.hasRepresentationSelectors = false ∧
      g.hasCredentials = true ∧ phase ≠ .arrived ∧ (g.request.rangeHeader ≠ [] →
        phase = .answered ∧ g.cacheable = true ∧ g.blockEligible = false) := by
  unfold warms at hwarms
  rw [missRoute_eq] at hwarms
  by_cases hrange : g.request.rangeHeader = []
  · simp_all
  · have hcacheable : g.cacheable = true := by simp_all
    have hparts := hcacheable
    simp only [cacheable, Bool.and_eq_true] at hparts
    simp_all

theorem own_refused (hnot : ¬ g.Storable) {kind : PopulateKind} (hown : g.own = some kind)
    (m : CachedObjectMeta) (blocks : List ℤ) :
    kind.admission g.cfg g.resp ≠ .accept (some m) blocks := by
  intro haccept
  obtain ⟨henabled, hselectors, hkind⟩ := own_spec hown
  apply hnot
  refine ⟨henabled, hselectors, ?_⟩
  split_ifs at hkind ⊢ with hrange
  · subst hkind
    exact .inl (by simp [Admission.eq_of_ofMeta haccept])
  · obtain ⟨hcreds, rfl⟩ := hkind
    exact .inl ⟨hcreds, by simp [Admission.eq_of_ofBlocks haccept]⟩

theorem warm_refused (hnot : ¬ g.Storable) {phase : GetPhase} (hwarms : g.warms phase = true)
    {σ : Type u} {sh : Shared σ} (hresp : phase = .answered → sh.answers g.resp = true)
    (hfull : sh.answers g.full = true) (m : CachedObjectMeta) (blocks : List ℤ) :
    (PopulateKind.fetchFullObjectToCache .absent g.request.hasNoAuthCredentials).admission
      g.cfg g.full ≠ .accept (some m) blocks := by
  intro haccept
  obtain ⟨henabled, hselectors, hcreds, -, hrange⟩ := warms_spec hwarms
  have hadmitted := Admission.eq_of_ofMeta haccept
  apply hnot
  refine ⟨henabled, hselectors, ?_⟩
  split_ifs with hempty
  · exact .inr ⟨hcreds, by simp [hadmitted]⟩
  · obtain ⟨hanswered, hcacheable, heligible⟩ := hrange hempty
    refine .inr ⟨hcacheable, heligible, by simp [hadmitted], ?_⟩
    -- both answers name the version upstream holds
    have hpartial : g.resp.status = 206 := by
      simp only [cacheable, Bool.and_eq_true, decide_eq_true_eq] at hcacheable
      exact hcacheable.1.1.1.1
    have hwhole : g.full.status = 200 := (admitFullObject_spec hadmitted).1
    have hheld := hresp hanswered
    cases hobject : sh.object with
    | none => simp [Shared.answers, hwhole, hobject] at hfull
    | some v =>
      exact (Shared.etag_of_answers hfull (.inl hwhole) hobject).symm.trans
        (Shared.etag_of_answers hheld (.inr hpartial) hobject)

variable {σ : Type u} {store : VersionedStore σ Row} {row₀ : Option Row} {w : World σ}
  {phase phase' : GetPhase}

variable (g store row₀) in
/-- The key has the row it had, and nothing that runs holds another. -/
structure Kept (s : World σ × GetPhase) : Prop where
  row : store.row s.1.shared.store = row₀
  empty : ∀ i p, s.1.populates i = some p → p.row = none ∧ Op.deleteIfETagDelete ∉ p.rest
  kinds : ∀ i p, s.1.populates i = some p → i = 0 ∧ g.own = some p.kind ∨
    i = 1 ∧ p.kind = .fetchFullObjectToCache .absent g.request.hasNoAuthCredentials ∧
      g.warms s.2 = true
  answered : s.2 = .answered → s.1.shared.answers g.resp = true

theorem Kept.populate (h : store.Lawful) (hs : g.Kept store row₀ (w, phase)) {i : ℕ}
    {input : PopulateInput} {w' : World σ}
    (hstep : w.step store g.cfg (.populate i input) = some w')
    (hresp : ∀ p resp, w.populates i = some p → input = .response resp →
      w.shared.answers resp = true →
      ∀ m blocks, p.kind.admission g.cfg resp ≠ .accept (some m) blocks)
    (hwarms : g.warms phase = true → g.warms phase' = true)
    (hanswered : phase' = .answered → w.shared.answers g.resp = true) :
    g.Kept store row₀ (w', phase') := by
  simp only [World.step, Option.bind_eq_some_iff, Option.map_eq_some_iff] at hstep
  obtain ⟨p, hp, ⟨sh', p'⟩, hps, rfl⟩ := hstep
  have heffect := Populate.step_effect h hps
  obtain ⟨hrow, hdelete⟩ := hs.empty i p hp
  constructor
  · exact (Populate.step_row_eq h hrow hdelete hps).trans hs.row
  · intro k q hq
    rcases update_eq_some_cases hq with ⟨rfl, rfl⟩ | hq
    · exact ⟨Populate.step_row_none h hrow (hresp p · hp) hps,
        fun hmem => hdelete (heffect.rest_suffix.subset hmem)⟩
    · exact hs.empty k q hq
  · intro k q hq
    rcases update_eq_some_cases hq with ⟨rfl, rfl⟩ | hq
    · rw [heffect.kind_eq]
      exact (hs.kinds _ p hp).imp_right (And.imp_right (And.imp_right hwarms))
    · exact (hs.kinds k q hq).imp_right (And.imp_right (And.imp_right hwarms))
  · intro hphase
    exact (Shared.answers_congr heffect.object_eq g.resp).trans (hanswered hphase)

theorem Kept.start (hs : g.Kept store row₀ (w, phase)) {i : ℕ} {kind : PopulateKind}
    {w' : World σ} (hstep : w.step store g.cfg (.startPopulate i kind) = some w')
    (hdelete : Op.deleteIfETagDelete ∉ kind.program)
    (hkind : i = 0 ∧ g.own = some kind ∨ i = 1 ∧
      kind = .fetchFullObjectToCache .absent g.request.hasNoAuthCredentials ∧
        g.warms phase' = true)
    (hwarms : g.warms phase = true → g.warms phase' = true)
    (hanswered : phase' = .answered → w.shared.answers g.resp = true) :
    g.Kept store row₀ (w', phase') := by
  simp only [World.step] at hstep
  split at hstep
  · cases hstep
    constructor
    · exact hs.row
    · intro k q hq
      rcases update_eq_some_cases hq with ⟨rfl, rfl⟩ | hq
      · exact ⟨rfl, hdelete⟩
      · exact hs.empty k q hq
    · intro k q hq
      rcases update_eq_some_cases hq with ⟨rfl, rfl⟩ | hq
      · exact hkind
      · exact (hs.kinds k q hq).imp_right (And.imp_right (And.imp_right hwarms))
    · exact hanswered
  · cases hstep

theorem warms_answered (hwarms : g.warms phase = true) : g.warms .answered = true := by
  unfold warms at hwarms ⊢
  rw [missRoute_eq] at hwarms ⊢
  by_cases hrange : g.request.rangeHeader = [] <;> simp_all

theorem fits_response {resp resp' : Response}
    (hfits : (PopulateInput.response resp).fits resp' = true) : resp = resp' :=
  of_decide_eq_true hfits

theorem Kept.step (h : store.Lawful) (hnot : ¬ g.Storable) {s s' : World σ × GetPhase}
    (hs : g.Kept store row₀ s) {l : GetLabel} (hstep : g.step store s l = some s') :
    g.Kept store row₀ s' := by
  obtain ⟨w, phase⟩ := s
  cases l with
  | ask =>
    simp only [BypassedGet.step, Option.ite_none_right_eq_some, Option.bind_eq_some_iff,
      Option.map_eq_some_iff] at hstep
    obtain ⟨rfl, kind, hown, w', hw', rfl⟩ := hstep
    apply hs.start hw' ?_ (.inl ⟨rfl, hown⟩)
    · exact fun hwarms => absurd rfl (warms_spec hwarms).2.2.2.1
    · intro hphase
      cases hphase
    · obtain ⟨-, -, hkind⟩ := own_spec hown
      split_ifs at hkind
      · simp [hkind, PopulateKind.program]
      · simp [hkind.2, PopulateKind.program]
  | own input =>
    simp only [BypassedGet.step, Option.ite_none_right_eq_some, Option.map_eq_some_iff] at hstep
    obtain ⟨hfits, w', hw', rfl⟩ := hstep
    apply hs.populate h hw'
    · rintro p resp hp rfl -
      obtain rfl := fits_response hfits
      rcases hs.kinds 0 p hp with ⟨-, hown⟩ | ⟨hzero, -⟩
      · exact own_refused hnot hown
      · cases hzero
    · intro hwarms
      split_ifs
      · exact warms_answered hwarms
      · exact hwarms
    · intro hphase
      cases input with
      | response resp =>
        obtain rfl := fits_response hfits
        simp only [World.step, Option.bind_eq_some_iff, Option.map_eq_some_iff] at hw'
        obtain ⟨p, -, ⟨sh', p'⟩, hps, -⟩ := hw'
        obtain ⟨-, -, hanswers, -⟩ := Populate.step_response hps
        exact hanswers
      | _ => exact hs.answered hphase
  | warm =>
    simp only [BypassedGet.step, Option.ite_none_right_eq_some, Option.map_eq_some_iff] at hstep
    obtain ⟨hwarms, w', hw', rfl⟩ := hstep
    exact hs.start hw' (by simp [PopulateKind.program]) (.inr ⟨rfl, rfl, hwarms⟩) id hs.answered
  | background input =>
    simp only [BypassedGet.step, Option.ite_none_right_eq_some, Option.map_eq_some_iff] at hstep
    obtain ⟨hfits, w', hw', rfl⟩ := hstep
    apply hs.populate h hw' ?_ id hs.answered
    rintro p resp hp rfl hfull
    obtain rfl := fits_response hfits
    rcases hs.kinds 1 p hp with ⟨hone, -⟩ | ⟨-, hkind, hwarms⟩
    · cases hone
    · rw [hkind]
      exact warm_refused hnot hwarms hs.answered hfull

/-! ## Something to store -/

theorem fits_inputs (resp : Response) (blocks : List ℤ) (ops : List Op) :
    ∀ input ∈ Populate.inputs resp blocks ops, input.fits resp = true := by
  induction ops with
  | nil => simp [Populate.inputs]
  | cons op ops ih => cases op <;> simp_all [Populate.inputs, PopulateInput.fits, or_imp]

theorem run_own (phase : GetPhase) {ins : List PopulateInput} {w' : World σ}
    (hfits : ∀ input ∈ ins, input.fits g.resp = true)
    (hrun : run (World.step store g.cfg) w (ins.map (.populate 0)) = some w') :
    ∃ phase', run (g.step store) (w, phase) (ins.map .own) = some (w', phase') := by
  induction ins generalizing w phase with
  | nil =>
    cases hrun
    exact ⟨phase, rfl⟩
  | cons input ins ih =>
    obtain ⟨w₁, hstep, hrest⟩ := run_cons_eq_some.mp hrun
    have hown : g.step store (w, phase) (.own input) =
        some (w₁, if input.answers then .answered else phase) := by
      simp only [step, hfits input List.mem_cons_self, if_true]
      rw [hstep, Option.map_some]
    obtain ⟨phase', hrun'⟩ := ih _ (fun i hi => hfits i (List.mem_cons_of_mem _ hi)) hrest
    refine ⟨phase', ?_⟩
    rw [List.map_cons, run_cons, hown, Option.bind_some]
    exact hrun'

theorem run_background (phase : GetPhase) {ins : List PopulateInput} {w' : World σ}
    (hfits : ∀ input ∈ ins, input.fits g.full = true)
    (hrun : run (World.step store g.cfg) w (ins.map (.populate 1)) = some w') :
    run (g.step store) (w, phase) (ins.map .background) = some (w', phase) := by
  induction ins generalizing w with
  | nil =>
    cases hrun
    rfl
  | cons input ins ih =>
    obtain ⟨w₁, hstep, hrest⟩ := run_cons_eq_some.mp hrun
    have hbackground : g.step store (w, phase) (.background input) = some (w₁, phase) := by
      simp only [step, hfits input List.mem_cons_self, if_true]
      rw [hstep, Option.map_some]
    rw [List.map_cons, run_cons, hbackground, Option.bind_some]
    exact ih (fun i hi => hfits i (List.mem_cons_of_mem _ hi)) hrest

theorem own_stores {kind : PopulateKind} {m : CachedObjectMeta} {blocks : List ℤ}
    (hown : g.own = some kind) (haccept : kind.admission g.cfg g.resp = .accept (some m) blocks) :
    ¬ g.StoresNothing := by
  intro hnothing
  have halone := Populate.alone_commits 0 [] haccept
  rw [Option.map_eq_some_iff] at halone
  obtain ⟨⟨sh, p⟩, hrun, hcommitted⟩ := halone
  let stored := blocks.map (makeBlockKey m)
  let w : World (Cell Row) := World.initial ⟨none, 0⟩ (some ⟨1, m.etag⟩) 2 stored
  let w₀ : World (Cell Row) :=
    { w with populates := Function.update w.populates 0 (some (.start kind)) }
  have hask : g.step Cell.store (w, .arrived) .ask = some (w₀, .asked) := by
    simp only [step, if_true, hown]
    rfl
  obtain ⟨t, ht, hshared, -⟩ := Populate.run_world (w := w₀) (Function.update_self 0 _ _) hrun
  obtain ⟨phase', ht'⟩ := run_own .asked (fits_inputs g.resp blocks kind.program) ht
  have hrow := hnothing (Cell Row) Cell.store Cell.store_lawful ⟨none, 0⟩ (some ⟨1, m.etag⟩) 2 stored
    (.ask :: (Populate.inputs g.resp blocks kind.program).map .own) (t, phase')
    (by rw [run_cons, hask]; exact ht')
  rw [hshared, show sh = _ from hcommitted] at hrow
  cases hrow

/-- The row that the answer to the background fetch is made into becomes visible, once
the fetch may start. -/
theorem warm_stores {m : CachedObjectMeta} {log : List Event} {before : List GetLabel}
    {w : World (Cell Row)} (hadmitted : admitFullObject g.cfg g.request.hasNoAuthCredentials g.full = some m)
    (hbefore : run (g.step Cell.store)
      (World.initial ⟨none, 0⟩ (some ⟨1, m.etag⟩) 2 [], .arrived) before = some (w, phase))
    (hshared : w.shared = absentRow m.etag [] log) (hfree : w.populates 1 = none)
    (hwarms : g.warms phase = true) : ¬ g.StoresNothing := by
  intro hnothing
  have haccept : (PopulateKind.fetchFullObjectToCache .absent
      g.request.hasNoAuthCredentials).admission g.cfg g.full = .accept (some m) [] :=
    congrArg Admission.ofMeta hadmitted
  have halone := Populate.alone_commits 1 log haccept
  rw [Option.map_eq_some_iff] at halone
  obtain ⟨⟨sh, p⟩, hrun, hcommitted⟩ := halone
  let kind := PopulateKind.fetchFullObjectToCache .absent g.request.hasNoAuthCredentials
  let w₀ : World (Cell Row) :=
    { w with populates := Function.update w.populates 1 (some (.start kind)) }
  have hwarm : g.step Cell.store (w, phase) .warm = some (w₀, phase) := by
    simp only [step, hwarms, if_true, World.step, hfree, Option.map_some]
    rfl
  obtain ⟨t, ht, hshared', -⟩ := Populate.run_world (w := w₀) (Function.update_self 1 _ _)
    (show run (Populate.alone Cell.store g.cfg 1) (w.shared, .start kind) _ = _ by
      rw [hshared]; exact hrun)
  have ht' := run_background phase (fits_inputs g.full [] kind.program) ht
  have hrow := hnothing (Cell Row) Cell.store Cell.store_lawful ⟨none, 0⟩ (some ⟨1, m.etag⟩) 2 []
    (before ++ .warm :: (Populate.inputs g.full [] kind.program).map .background) (t, phase)
    (by rw [run_append, hbefore, Option.bind_some, run_cons, hwarm]; exact ht')
  rw [hshared', show sh = _ from hcommitted] at hrow
  cases hrow

/-- A range response that could be kept in blocks is block eligible. -/
theorem admitRangeMiss_none (hcacheable : g.cacheable = true) (heligible : g.blockEligible = false) :
    admitRangeMiss g.cfg g.request.rangeHeader g.request.hasNoAuthCredentials g.resp = none := by
  unfold admitRangeMiss
  rw [if_neg]
  rintro ⟨-, -, -, hsize, hetag, hheaders, -⟩
  have heligible' : g.blockEligible = true := by
    simp only [blockEligible, totalSize, hsize, hcacheable, Bool.true_and, Bool.and_eq_true,
      bne_iff_ne, Bool.not_eq_true']
    exact ⟨hetag, Bool.eq_false_of_not_eq_true hheaders⟩
  rw [heligible] at heligible'
  cases heligible'

theorem answered_unkept {etag : Bytes} (hrange : ¬ g.request.rangeHeader = [])
    (henabled : g.read.cacheEnabled = true) (hselectors : g.request.hasRepresentationSelectors = false)
    (hcacheable : g.cacheable = true) (heligible : g.blockEligible = false)
    (hetag : g.resp.header.get (ascii "ETag") = etag) :
    ∃ w, run (g.step Cell.store) (World.initial ⟨none, 0⟩ (some ⟨1, etag⟩) 2 [], .arrived)
      [.ask, .own .proceed, .own (.response g.resp)] = some (w, .answered) ∧
      w.shared = absentRow etag [] [.sent 0] ∧ w.populates 1 = none := by
  have hcreds : g.hasCredentials = true := by
    simp only [cacheable, Bool.and_eq_true] at hcacheable
    exact hcacheable.2
  have hown : g.own = some (.handleRangeWithBackgroundCache g.request.rangeHeader
      g.request.hasNoAuthCredentials) := by
    simp [own, hselectors, henabled, hcreds, missRoute_eq, hrange]
  have hanswers : (absentRow etag [] [.sent 0]).answers g.resp = true := by
    simp [Shared.answers, absentRow, hetag]
  have hreceive : ∀ p : Populate, p.kind = .handleRangeWithBackgroundCache g.request.rangeHeader
      g.request.hasNoAuthCredentials → ∀ object rest,
      p.receive g.cfg object g.resp rest = p.stop := by
    intro p hp object rest
    simp [Populate.receive, hp, PopulateKind.admission, admitRangeMiss_none hcacheable heligible,
      Admission.ofBlocks]
  unfold absentRow at hanswers
  simp [run, step, hown, World.step, World.initial, Populate.step, Populate.start,
    PopulateKind.program, PopulateInput.fits, PopulateInput.answers, Shared.emit, hanswers,
    hreceive, absentRow]

/-- A GET with `no-store` leaves the cache as it was exactly when none of the answers it
brings about is one that the gateway keeps: the directive itself keeps nothing out. -/
theorem client_no_store_stores_nothing_iff (g : BypassedGet) :
    g.StoresNothing ↔ ¬ g.Storable := by
  constructor
  · rintro hnothing ⟨henabled, hselectors, hcase⟩
    split_ifs at hcase with hrange
    · have hown : g.own = some (.streamFromUpstream g.request.hasNoAuthCredentials) := by
        simp [own, hselectors, henabled, missRoute_eq, hrange]
      rcases hcase with hresp | ⟨hcreds, hfull⟩
      · obtain ⟨m, hm⟩ := Option.isSome_iff_exists.mp hresp
        exact own_stores hown (congrArg Admission.ofMeta hm) hnothing
      · obtain ⟨m, hm⟩ := Option.isSome_iff_exists.mp hfull
        have hwarms : g.warms .asked = true := by
          simp [warms, hselectors, henabled, hcreds, missRoute_eq, hrange]
        -- the client goes away before anything was read
        have hbefore : ∃ w, run (g.step Cell.store)
            (World.initial ⟨none, 0⟩ (some ⟨1, m.etag⟩) 2 [], .arrived) [.ask, .own .abandon] =
            some (w, .asked) ∧ w.shared = absentRow m.etag [] [] ∧ w.populates 1 = none := by
          simp only [run_cons, step, hown, if_true, Option.bind_some]
          exact ⟨_, rfl, rfl, rfl⟩
        obtain ⟨w, hrun, hshared, hfree⟩ := hbefore
        exact warm_stores hm hrun hshared hfree hwarms hnothing
    · rcases hcase with ⟨hcreds, hresp⟩ | ⟨hcacheable, heligible, hfull, hetag⟩
      · obtain ⟨⟨m, blocks⟩, hm⟩ := Option.isSome_iff_exists.mp hresp
        have hown : g.own = some (.handleRangeWithBackgroundCache g.request.rangeHeader
            g.request.hasNoAuthCredentials) := by
          simp [own, hselectors, henabled, hcreds, missRoute_eq, hrange]
        exact own_stores hown (congrArg Admission.ofBlocks hm) hnothing
      · obtain ⟨m, hm⟩ := Option.isSome_iff_exists.mp hfull
        have hwarms : g.warms .answered = true := by
          simp [warms, hselectors, hcacheable, heligible, missRoute_eq, hrange]
        obtain ⟨w, hrun, hshared, hfree⟩ := answered_unkept hrange henabled hselectors hcacheable
          heligible (hetag.symm.trans (admitFullObject_spec hm).2.symm)
        exact warm_stores hm hrun hshared hfree hwarms hnothing
  · intro hnot σ store h s object nextId blocks ls t hrun
    have hkeep : ∀ u l u', g.Kept store (store.row s) u → True → g.step store u l = some u' →
        g.Kept store (store.row s) u' := fun u l u' hu _ hstep => hu.step h hnot hstep
    have hstart : g.Kept store (store.row s) (World.initial s object nextId blocks, .arrived) :=
      ⟨rfl, by simp [World.initial], by simp [World.initial], by simp⟩
    exact (run_invariant hkeep hstart (along_of_forall fun _ _ _ => trivial) hrun).row

/-- A GET with `no-store` of a small object that upstream sends without a word on
caching. -/
def noStoreGet : BypassedGet where
  read := ⟨true, 16⟩
  cfg := sampleConfig
  request :=
    { bucket := ascii "bucket"
      key := ascii "key"
      header := Header.empty.set (ascii "Cache-Control") (ascii "no-store")
      auth := .validated }
  hasCredentials := true
  resp := taggedResponse 200 "a" "4"
  full := taggedResponse 200 "a" "4"
  isGet := rfl
  bypasses := by decide

/-- Its answer is stored, in a cache that held nothing. -/
theorem no_store_get_stored : ∃ t, run (noStoreGet.step Cell.store) (coldStart [], .arrived)
    [.ask, .own .proceed, .own .proceed, .own (.response noStoreGet.resp), .own .proceed] = some t ∧
      t.1.shared.store.row.isSome = true :=
  exists_run_of_any (by decide +kernel)

end BypassedGet

end TagGateway.Proxy
