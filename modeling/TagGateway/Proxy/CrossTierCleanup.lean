import TagGateway.Proxy.StagedBodies

/-!
# The cleanup of a displaced upstream copy

A small PUT that displaces a marker leaves the object upstream behind, and the cleanup
deletes it, bound to the tag of the marker. The same content can be put upstream again
under the same tag meanwhile, so the cleanup looks for a marker with that tag before its
DELETE and removes one that it finds after it.
-/
namespace TagGateway.Proxy

open Foundation Cache

universe u

variable {σ : Type u}

inductive CleanupPhase where
  | checking
  | deleting
  | reading
  | repairing (version : ℕ)
  | finished
deriving DecidableEq

structure Cleanup where
  etag : Bytes
  phase : CleanupPhase := .checking
deriving DecidableEq

inductive CleanupInput where
  | proceed
  | storeError (applied : Bool)
  /-- The DELETE ends without a success, and may have been applied. -/
  | failed (applied : Bool)
deriving DecidableEq

def Row.isMarker (etag : Bytes) (row : Row) : Bool :=
  row.metadata.bodyUpstream && row.metadata.etag == etag

namespace Cleanup

variable (store : VersionedStore σ Row)

/-- A cleanup starts with credentials, with a tag to bind it to, and on a backend that
is known to enforce the binding. -/
def deleteUpstreamObjectAsync (credentials transparent : Bool) (etag : Bytes) : Option Cleanup :=
  if !credentials then none
  else if etag = [] then none
  else if !transparent then none
  else some { etag := etag }

def matched (sh : Tier σ) (k : Cleanup) : Bool := sh.object.any fun o => o.etag == k.etag

def step (sh : Tier σ) (k : Cleanup) (input : CleanupInput) : Option (Tier σ × Cleanup) :=
  match k.phase, input with
  | .checking, .proceed =>
    let live := (store.row sh.store).any (Row.isMarker k.etag)
    some (sh, { k with phase := if live then .finished else .deleting })
  | .checking, .storeError _ => some (sh, { k with phase := .deleting })
  | .deleting, .proceed =>
    if k.matched sh then some ({ sh with object := none }, { k with phase := .reading })
    else some (sh, { k with phase := .finished })
  | .deleting, .failed applied =>
    some (if applied && k.matched sh then { sh with object := none } else sh,
      { k with phase := .finished })
  | .reading, .proceed =>
    let (sh, row, version) := sh.getMetaWithVersion store
    some (sh, { k with phase := if row.any (Row.isMarker k.etag) then .repairing version
      else .finished })
  | .reading, .storeError _ => some (sh, { k with phase := .finished })
  | .repairing version, .proceed =>
    some ((sh.deleteMetaIfVersion store version).1, { k with phase := .finished })
  | .repairing version, .storeError applied =>
    some (if applied then (sh.deleteMetaIfVersion store version).1 else sh,
      { k with phase := .finished })
  | _, _ => none

end Cleanup

/-- The tag of the upstream copy that PUT `i` has displaced: its answer was a success,
and the row it had read was a marker. -/
def displacedUpstream (i : ℕ) (log : List TierEvent) : Option Bytes :=
  if log.any (fun e => match e with
      | .answered k (.stored _) => k == i
      | _ => false) then
    log.findSome? fun e => match e with
      | .tokenRead k (some row) _ =>
        if k = i ∧ row.metadata.bodyUpstream then some row.metadata.etag else none
      | _ => none
  else none

structure CleanupWorld (σ : Type u) extends TieredWorld σ where
  cleanups : ℕ → Option Cleanup := fun _ => none

inductive CleanupLabel where
  | tiered (l : TieredLabel)
  | startCleanup (c i : ℕ) (credentials : Bool)
  | cleanup (c : ℕ) (input : CleanupInput)
deriving DecidableEq

namespace CleanupWorld

variable (store : VersionedStore σ Row) (cfg : TieredConfig) (lib : EngineLib)
  (newBodyRef : ℕ → Bytes) (transparent : Bool)

def step (w : CleanupWorld σ) : CleanupLabel → Option (CleanupWorld σ)
  | .tiered l => (w.toTieredWorld.step store cfg lib newBodyRef l).map fun t =>
      { w with toTieredWorld := t }
  | .startCleanup c i credentials =>
    if w.cleanups c = none then
      (displacedUpstream i w.shared.log).bind fun etag =>
        (Cleanup.deleteUpstreamObjectAsync credentials transparent etag).map fun k =>
          { w with cleanups := Function.update w.cleanups c (some k) }
    else none
  | .cleanup c input =>
    (w.cleanups c).bind fun k => (k.step store w.shared input).map fun r =>
      { w with shared := r.1, cleanups := Function.update w.cleanups c (some r.2) }

end CleanupWorld

/-- The mutation has made its object upstream, and its marker may still be committed. -/
def Forwarded.committable (m : Forwarded) : Bool :=
  m.applied.isSome && m.prior.isSome &&
    match m.phase with
    | .forwarding | .marking _ => true
    | .capturing | .abandoned | .sweeping | .converging _ | .finished => false

/-- An object upstream waits for its marker. -/
def TieredWorld.unmarked (w : TieredWorld σ) : Bool :=
  w.shared.log.any fun e =>
    match e with
    | .captured j => (w.mutations j).any Forwarded.committable
    | _ => false

/-- No DELETE of a cleanup removes an object that waits for its marker. -/
def CleanupWorld.deletesMarked (w : CleanupWorld σ) : CleanupLabel → Bool
  | .cleanup c _ => (w.cleanups c).all fun k =>
      k.phase != .deleting || !k.matched w.shared || !w.unmarked
  | .tiered _ | .startCleanup _ _ _ => true

/-- The label is one of a PUT, small or large, where a large one makes an object with this
tag, or of a cleanup without an error. -/
def CleanupLabel.recreates (etag : Bytes) : CleanupLabel → Bool
  | .tiered (.startPut _ _) | .tiered (.put _ _) | .tiered (.forwardPut _) => true
  | .tiered (.startMutation _ _ kind) => (kind matches .putObject _)
  | .tiered (.mutation _ input) =>
    match input with
    | .apply tag => tag == etag
    | .proceed | .storeError _ | .respond _ _ _ _ | .lose => true
  | .tiered _ => false
  | .startCleanup _ _ _ => true
  | .cleanup _ input => input == .proceed

/-! ## One PUT, one cleanup -/

variable {store : VersionedStore σ Row} {cfg : TieredConfig} {lib : EngineLib}
  {newBodyRef : ℕ → Bytes} {transparent : Bool} {etag : Bytes}

def Tier.Holds (etag : Bytes) (sh : Tier σ) : Prop := ∃ o, sh.object = some o ∧ o.etag = etag

theorem Tier.Holds.of_eq {sh sh' : Tier σ} (hsh : sh.Holds etag) (hobject : sh'.object = sh.object) :
    sh'.Holds etag := by
  rw [Tier.Holds, hobject]
  exact hsh

/-- What holds of a large PUT, by where it stands. -/
structure Forwarded.LargeOk (sh : Tier σ) (j : ℕ) (m : Forwarded) : Prop where
  kind : ∃ r, m.kind = .putObject r
  capturing : m.phase = .capturing → m.applied = none
  marking : ∀ row, m.phase = .marking row → m.committable = true
  logged : m.prior.isSome = true → TierEvent.captured j ∈ sh.log

variable (store) in
theorem Tier.putMetaIfVersion_fst (sh : Tier σ) (row : Row) (v : ℕ) :
    ∃ s, (sh.putMetaIfVersion store row v).1 = { sh with store := s } := by
  unfold putMetaIfVersion
  split_ifs
  · exact ⟨sh.store, rfl⟩
  · exact ⟨_, rfl⟩

namespace Forwarded

variable {sh sh' : Tier σ} {j : ℕ} {m : Forwarded}

theorem LargeOk.fresh (node : ℕ) (request : PutRequest) :
    ({ node := node, kind := .putObject request } : Forwarded).LargeOk sh j :=
  ⟨⟨request, rfl⟩, fun _ => rfl, by simp, by simp⟩

theorem LargeOk.mono (hm : m.LargeOk sh j) (hlog : ∃ es, sh'.log = sh.log ++ es) :
    m.LargeOk sh' j := by
  obtain ⟨es, hes⟩ := hlog
  refine ⟨hm.kind, hm.capturing, hm.marking, fun hprior => ?_⟩
  rw [hes]
  exact List.mem_append_left es (hm.logged hprior)

theorem LargeOk.settled (hm : m.LargeOk sh j) {q : ForwardedPhase} (hcapturing : q ≠ .capturing)
    (hforwarding : q ≠ .forwarding) (hmarking : ∀ row, q ≠ .marking row) :
    ({ m with phase := q } : Forwarded).LargeOk sh j ∧
      ({ m with phase := q } : Forwarded).committable = false := by
  refine ⟨⟨hm.kind, fun h => absurd h hcapturing, fun row h => absurd h (hmarking row),
    hm.logged⟩, ?_⟩
  cases q <;> simp_all [committable]

theorem LargeOk.swept (hm : m.LargeOk sh j) :
    m.invalidateDisplacedTieredMeta.LargeOk sh j ∧
      m.invalidateDisplacedTieredMeta.committable = false := by
  unfold invalidateDisplacedTieredMeta
  split <;> exact hm.settled (by simp) (by simp) (by simp)

variable (cfg lib) in
theorem LargeOk.confirmed (hm : m.LargeOk sh j) (hforwarding : m.phase = .forwarding)
    (happlied : m.applied ≠ none) (tag : Bytes) (now : ℤ) :
    (m.confirm cfg lib tag now).LargeOk sh j ∧
      ((m.confirm cfg lib tag now).committable = true → m.committable = true) := by
  have hc : ({ m with etag := tag, confirmed := true } : Forwarded).LargeOk sh j := by
    refine ⟨hm.kind, ?_, ?_, hm.logged⟩
    · intro hphase
      rw [hforwarding] at hphase
      cases hphase
    · intro row hphase
      rw [hforwarding] at hphase
      cases hphase
  obtain ⟨r, hkind⟩ := hm.kind
  unfold confirm
  dsimp only
  split_ifs with hunknown hclears htag
  · obtain ⟨hok, hdone⟩ := hc.settled (q := .finished) (by simp) (by simp) (by simp)
    exact ⟨hok, fun h => absurd h (by rw [hdone]; simp)⟩
  · rw [hkind] at hclears
    cases hclears
  · obtain ⟨hok, hdone⟩ := hc.swept
    exact ⟨hok, fun h => absurd h (by rw [hdone]; simp)⟩
  · have hcommittable : m.committable = true := by
      have hprior : m.prior ≠ none := fun h => hunknown (.inr h)
      rw [committable, hforwarding, Option.isSome_iff_ne_none.mpr happlied,
        Option.isSome_iff_ne_none.mpr hprior]
      rfl
    refine ⟨⟨hm.kind, by simp, fun row _ => ?_, hm.logged⟩, fun _ => hcommittable⟩
    simp only [committable, hforwarding, Bool.and_true] at hcommittable ⊢
    exact hcommittable

/-- A step of a large PUT: only the write upstream changes the object, and makes it one
that waits for its marker. -/
theorem LargeOk.step (hm : m.LargeOk sh j) {x : Tier σ × Forwarded} {input : ForwardedInput}
    (hstep : m.step store cfg lib j sh input = some x) :
    x.2.LargeOk x.1 j ∧ (∃ es, x.1.log = sh.log ++ es) ∧
      (x.1.object = sh.object ∧ (x.2.committable = true → m.committable = true) ∨
        ∃ tag id, input = .apply tag ∧ x.1.object = some ⟨id, tag⟩) := by
  obtain ⟨r, hkind⟩ := hm.kind
  have hdone : ∀ {m' : Forwarded} {sh' : Tier σ}, m'.LargeOk sh j ∧ m'.committable = false →
      (∃ es, sh'.log = sh.log ++ es) → sh'.object = sh.object →
      m'.LargeOk sh' j ∧ (∃ es, sh'.log = sh.log ++ es) ∧
        (sh'.object = sh.object ∧ (m'.committable = true → m.committable = true) ∨
          ∃ tag id, input = .apply tag ∧ sh'.object = some ⟨id, tag⟩) := by
    intro m' sh' hm' hlog hobject
    refine ⟨hm'.1.mono hlog, hlog, .inl ⟨hobject, fun h => ?_⟩⟩
    rw [hm'.2] at h
    cases h
  have hforward : m.phase = .capturing → ({ m with phase := .forwarding } : Forwarded).LargeOk sh j ∧
      ({ m with phase := .forwarding } : Forwarded).committable = false := by
    intro hphase
    refine ⟨⟨hm.kind, by simp, by simp, hm.logged⟩, ?_⟩
    simp [committable, hm.capturing hphase]
  have hwrite : ∀ tag, input = .apply tag → m.phase ≠ .capturing → (∀ row, m.phase ≠ .marking row) →
      (m.applyUpstream sh tag).2.LargeOk (m.applyUpstream sh tag).1 j ∧
        (∃ es, (m.applyUpstream sh tag).1.log = sh.log ++ es) ∧
        ((m.applyUpstream sh tag).1.object = sh.object ∧
          ((m.applyUpstream sh tag).2.committable = true → m.committable = true) ∨
        ∃ tag' id, input = .apply tag' ∧ (m.applyUpstream sh tag).1.object = some ⟨id, tag'⟩) := by
    intro tag hinput hcapturing hmarking
    refine ⟨⟨hm.kind, fun h => absurd h hcapturing, fun row h => absurd h (hmarking row), hm.logged⟩,
      ⟨[], (List.append_nil _).symm⟩, .inr ⟨tag, sh.nextId, hinput, ?_⟩⟩
    rw [applyUpstream, hkind]
    rfl
  have hlog : ∃ es, sh.log = sh.log ++ es := sh.log_extends
  have hnone : ∀ {q : ForwardedPhase}, q ≠ .capturing → q ≠ .forwarding → (∀ row, q ≠ .marking row) →
      ({ m with phase := q } : Forwarded).LargeOk sh j ∧
        ({ m with phase := q } : Forwarded).committable = false := hm.settled
  unfold Forwarded.step at hstep
  split at hstep
  case h_1 hphase =>
    split at hstep
    · cases hstep
      refine ⟨⟨hm.kind, by simp [captureMarkerPrior], by simp [captureMarkerPrior], ?_⟩,
        ⟨[.captured j], rfl⟩, .inl ⟨rfl, ?_⟩⟩
      · intro _
        exact List.mem_append_right _ (List.mem_singleton.mpr rfl)
      · simp [committable, captureMarkerPrior, hm.capturing hphase]
    · cases hstep
      exact hdone (hforward hphase) hlog rfl
  case h_2 hphase =>
    cases hstep
    exact hdone (hforward hphase) hlog rfl
  case h_3 hphase =>
    split at hstep
    · cases hstep
      exact hwrite _ rfl (by simp [hphase]) (by simp [hphase])
    · cases hstep
  case h_4 hphase =>
    split at hstep
    · cases hstep
      exact hwrite _ rfl (by simp [hphase]) (by simp [hphase])
    · cases hstep
  case h_5 tag _ now hphase =>
    split at hstep
    · split at hstep
      · cases hstep
      · rename_i happlied
        cases hstep
        obtain ⟨hok, hkept⟩ := hm.confirmed cfg lib hphase happlied tag now
        have hemit : ∃ es, (sh.emit (.acked j)).log = sh.log ++ es := ⟨[.acked j], rfl⟩
        exact ⟨hok.mono hemit, hemit, .inl ⟨rfl, hkept⟩⟩
    · cases hstep
      exact hdone (hnone (by simp) (by simp) (by simp)) hlog rfl
  case h_6 =>
    cases hstep
    exact hdone (hnone (by simp) (by simp) (by simp)) hlog rfl
  case h_7 =>
    cases hstep
    exact hdone (hnone (by simp) (by simp) (by simp)) hlog rfl
  case h_8 row hphase =>
    cases hstep
    unfold commitUpstreamMarker
    obtain ⟨s, heq⟩ := sh.putMetaIfVersion_fst store row m.priorVersion
    generalize sh.putMetaIfVersion store row m.priorVersion = reply at heq ⊢
    obtain ⟨sh', wrote⟩ := reply
    subst heq
    cases wrote with
    | true => exact hdone (hnone (by simp) (by simp) (by simp)) ⟨[.marked j], rfl⟩ rfl
    | false => exact hdone hm.swept hlog rfl
  case h_9 row applied hphase =>
    cases hstep
    obtain ⟨s, heq⟩ := sh.putMetaIfVersion_fst store row m.priorVersion
    cases applied with
    | true =>
      rw [if_pos rfl, heq]
      exact hdone hm.swept hlog rfl
    | false => exact hdone hm.swept hlog rfl
  case h_10 =>
    cases hstep
    exact hdone (hnone (by simp) (by simp) (by simp)) hlog rfl
  case h_11 applied hphase =>
    cases hstep
    cases applied <;> exact hdone (hnone (by simp) (by simp) (by simp)) hlog rfl
  case h_12 =>
    cases hstep
    exact hdone (hnone (by simp) (by simp) (by simp)) hlog rfl
  case h_13 retried applied hphase =>
    cases hstep
    cases applied <;> cases retried <;>
      exact hdone (hnone (by simp) (by simp) (by simp)) hlog rfl
  case h_14 => cases hstep

end Forwarded
theorem TieredPut.step_frame (h : store.Lawful) {i : ℕ} {sh : Tier σ} {p : TieredPut}
    {x : Tier σ × TieredPut} {input : TieredPutInput} (hp : p.RefOk newBodyRef i)
    (hstep : p.step store cfg lib newBodyRef i sh input = some x) :
    x.1.object = sh.object ∧ ∃ es, x.1.log = sh.log ++ es := by
  generalize hsh : x.1 = sh', hq : x.2 = p'
  have heffect := TieredPut.step_effect h hp.token_pos hstep
  rw [hsh, hq] at heffect
  cases heffect with
  | forward | accept | stage | retry | reread | discard => exact ⟨rfl, sh.log_extends⟩
  | refuse | readForward | readProbe | readAccept | abort => exact ⟨rfl, _, rfl⟩
  | readRefuse | install => exact ⟨rfl, _, List.append_assoc _ _ _⟩

/-! ## All of them -/

variable (store newBodyRef etag) in
/-- A marker with the tag stands for an object with the tag, or some cleanup will still
remove the marker; and so does an object that waits for its marker. -/
structure Covered (w : CleanupWorld σ) : Prop where
  refs : w.RefsOk newBodyRef
  large : ∀ j m, w.mutations j = some m → m.LargeOk w.shared j
  pending : ∀ j m, w.mutations j = some m → m.committable = true → w.shared.Holds etag
  repairing : ∀ c k v, w.cleanups c = some k → k.phase = .repairing v → 0 < v
  marker : ∀ row, store.row w.shared.store = some row → row.isMarker etag = true →
    w.shared.Holds etag ∨ ∃ c k, w.cleanups c = some k ∧ k.etag = etag ∧
      (k.phase = .reading ∨ k.phase = .repairing (store.version w.shared.store))

namespace Covered

variable {w : CleanupWorld σ} {t : TieredWorld σ}

theorem large_update (hw : Covered store newBodyRef etag w) {j : ℕ} {m : Forwarded}
    (hm : m.LargeOk w.shared j) :
    ∀ k m', Function.update w.mutations j (some m) k = some m' → m'.LargeOk w.shared k := by
  intro k m' hm'
  rcases update_eq_some_cases hm' with ⟨rfl, rfl⟩ | hold
  · exact hm
  · exact hw.large k m' hold

theorem pending_update (hw : Covered store newBodyRef etag w) {j : ℕ} {m : Forwarded}
    (hm : m.committable = false) :
    ∀ k m', Function.update w.mutations j (some m) k = some m' → m'.committable = true →
      w.shared.Holds etag := by
  intro k m' hm' hcommittable
  rcases update_eq_some_cases hm' with ⟨rfl, rfl⟩ | hold
  · rw [hm] at hcommittable
    cases hcommittable
  · exact hw.pending k m' hold hcommittable

theorem of_touches (hlive : store.LiveReads) (hw : Covered store newBodyRef etag w)
    {offered : Row → Prop} (hrefs : t.RefsOk newBodyRef)
    (hlarge : ∀ j m, t.mutations j = some m → m.LargeOk t.shared j)
    (hpending : ∀ j m, t.mutations j = some m → m.committable = true → t.shared.Holds etag)
    (hobject : w.shared.Holds etag → t.shared.Holds etag)
    (htouches : Touches store offered w.shared.store t.shared.store)
    (hoffered : ∀ row, offered row → row.isMarker etag = true → t.shared.Holds etag) :
    Covered store newBodyRef etag { w with toTieredWorld := t } := by
  refine ⟨hrefs, hlarge, hpending, hw.repairing, ?_⟩
  intro row hrow hmarker
  cases htouches with
  | kept _ same live =>
    dsimp only at hrow ⊢
    rw [same] at hrow
    rw [live hlive (by rw [hrow]; rfl)]
    exact (hw.marker row hrow hmarker).imp_left hobject
  | removed _ gone =>
    rw [gone] at hrow
    cases hrow
  | wrote _ found offer =>
    obtain rfl := Option.some.inj (found.symm.trans hrow)
    exact .inl (hoffered _ offer hmarker)

theorem tiered (h : store.Lawful) (hlive : store.LiveReads)
    (hw : Covered store newBodyRef etag w) {l : TieredLabel}
    (hscope : (CleanupLabel.tiered l).recreates etag = true)
    (hstep : w.toTieredWorld.step store cfg lib newBodyRef l = some t) :
    Covered store newBodyRef etag { w with toTieredWorld := t } := by
  have hrefs := hw.refs.step h hstep
  have htouches := TieredWorld.step_touches h hstep
  cases l with
  | startPut i p =>
    simp only [TieredWorld.step, Option.ite_none_right_eq_some, Option.some.injEq] at hstep
    obtain ⟨-, rfl⟩ := hstep
    exact hw.of_touches hlive hrefs hw.large hw.pending id htouches fun _ hoffer => hoffer.elim
  | put i input =>
    simp only [TieredWorld.step, Option.bind_eq_some_iff, Option.map_eq_some_iff] at hstep
    obtain ⟨p, hp, x, hx, rfl⟩ := hstep
    have hok := hw.refs.puts i p hp
    obtain ⟨hobject, hlog⟩ := TieredPut.step_frame h hok hx
    refine hw.of_touches hlive hrefs ?_ ?_ ?_ htouches ?_
    all_goals simp only [TieredWorld.releaseRetierWrite_mutations,
      TieredWorld.releaseRetierWrite_shared]
    · intro j m hm
      exact (hw.large j m hm).mono hlog
    · intro j m hm hcommittable
      exact (hw.pending j m hm hcommittable).of_eq hobject
    · exact fun hheld => hheld.of_eq hobject
    · rintro row ⟨p', hp', token, attempt, hphase⟩ hmarker
      obtain rfl : p = p' := Option.some.inj (hp.symm.trans hp')
      have htier := hok.tier row.metadata (by rw [TieredPut.metadata, hphase])
      rw [Row.isMarker, htier] at hmarker
      cases hmarker
  | forwardPut i =>
    simp only [TieredWorld.step, Option.bind_eq_some_iff, Option.ite_none_right_eq_some,
      Option.some.injEq] at hstep
    obtain ⟨p, -, -, rfl⟩ := hstep
    exact hw.of_touches hlive hrefs (hw.large_update (.fresh _ _))
      (hw.pending_update rfl) id htouches fun _ hoffer => hoffer.elim
  | startMutation j node kind =>
    simp only [TieredWorld.step, Option.ite_none_right_eq_some, Option.some.injEq] at hstep
    obtain ⟨-, rfl⟩ := hstep
    obtain ⟨request, rfl⟩ : ∃ request, kind = .putObject request := by
      cases kind with
      | putObject request => exact ⟨request, rfl⟩
      | completeMultipartUpload | deleteObject | copyObject => cases hscope
    exact hw.of_touches hlive hrefs (hw.large_update (.fresh _ _))
      (hw.pending_update rfl) id htouches fun _ hoffer => hoffer.elim
  | mutation j input =>
    simp only [TieredWorld.step, Option.bind_eq_some_iff, Option.map_eq_some_iff] at hstep
    obtain ⟨m, hm, x, hx, rfl⟩ := hstep
    obtain ⟨hok, hlog, hobject⟩ := (hw.large j m hm).step hx
    have hheld : w.shared.Holds etag → x.1.Holds etag := by
      intro hheld
      rcases hobject with ⟨hsame, -⟩ | ⟨tag, id, rfl, happlied⟩
      · exact hheld.of_eq hsame
      · exact ⟨_, happlied, beq_iff_eq.mp hscope⟩
    refine hw.of_touches hlive hrefs ?_ ?_ ?_ htouches ?_
    all_goals simp only [TieredWorld.releaseRetierWrite_mutations,
      TieredWorld.releaseRetierWrite_shared]
    · intro k m' hm'
      rcases update_eq_some_cases hm' with ⟨rfl, rfl⟩ | hold
      · exact hok
      · exact (hw.large k m' hold).mono hlog
    · intro k m' hm' hcommittable
      rcases update_eq_some_cases hm' with ⟨rfl, rfl⟩ | hold
      · rcases hobject with ⟨hsame, hkept⟩ | ⟨tag, id, rfl, happlied⟩
        · exact (hw.pending k m hm (hkept hcommittable)).of_eq hsame
        · exact ⟨_, happlied, beq_iff_eq.mp hscope⟩
      · exact hheld (hw.pending k m' hold hcommittable)
    · exact hheld
    · rintro row ⟨m', hm', hphase⟩ -
      obtain rfl : m = m' := Option.some.inj (hm.symm.trans hm')
      exact hheld (hw.pending j m hm ((hw.large j m hm).marking row hphase))
  | startDelete | delete | readMarker | registerRetier | retier | startUpgrade | upgrade =>
    simp [CleanupLabel.recreates] at hscope

theorem unmarked_of_committable (hw : Covered store newBodyRef etag w) {j : ℕ} {m : Forwarded}
    (hm : w.mutations j = some m) (hcommittable : m.committable = true) : w.unmarked = true := by
  have hprior : m.prior.isSome = true := by
    simp only [Forwarded.committable, Bool.and_eq_true] at hcommittable
    exact hcommittable.1.2
  refine List.any_eq_true.mpr ⟨.captured j, (hw.large j m hm).logged hprior, ?_⟩
  simp only [hm, Option.any_some]
  exact hcommittable

theorem set_cleanup (hw : Covered store newBodyRef etag w) {c : ℕ} {k k' : Cleanup}
    (hk : w.cleanups c = some k) (hreading : k.phase ≠ .reading)
    (hrepairing : ∀ v, k.phase ≠ .repairing v) (hrepairing' : ∀ v, k'.phase ≠ .repairing v) :
    Covered store newBodyRef etag { w with cleanups := Function.update w.cleanups c (some k') } := by
  refine ⟨hw.refs, hw.large, hw.pending, ?_, ?_⟩
  · intro d q v hq hphase
    rcases update_eq_some_cases hq with ⟨rfl, rfl⟩ | hold
    · exact absurd hphase (hrepairing' v)
    · exact hw.repairing d q v hold hphase
  · intro row hrow hmarker
    refine (hw.marker row hrow hmarker).imp_right ?_
    rintro ⟨d, q, hq, hetag, hphase⟩
    refine ⟨d, q, ?_, hetag, hphase⟩
    have hd : d ≠ c := by
      rintro rfl
      obtain rfl : k = q := Option.some.inj (hk.symm.trans hq)
      exact hphase.elim hreading (hrepairing _)
    dsimp only
    rw [Function.update_of_ne hd]
    exact hq

theorem delete (hw : Covered store newBodyRef etag w) {c : ℕ} {k : Cleanup}
    (hk : w.cleanups c = some k) (hphase : k.phase = .deleting)
    (hmatched : k.matched w.shared = true) (hmarked : w.unmarked = false) :
    Covered store newBodyRef etag { w with
      shared := { w.shared with object := none }
      cleanups := Function.update w.cleanups c (some { k with phase := .reading }) } := by
  have hnone : ∀ j m, w.mutations j = some m → m.committable = true → False := by
    intro j m hm hcommittable
    rw [hw.unmarked_of_committable hm hcommittable] at hmarked
    cases hmarked
  refine ⟨⟨hw.refs.apart, hw.refs.puts, hw.refs.mutations, hw.refs.retiers, hw.refs.upgrades⟩,
    fun j m hm => (hw.large j m hm).mono w.shared.log_extends,
    fun j m hm hcommittable => (hnone j m hm hcommittable).elim, ?_, ?_⟩
  · intro d q v hq hq'
    rcases update_eq_some_cases hq with ⟨rfl, rfl⟩ | hold
    · cases hq'
    · exact hw.repairing d q v hold hq'
  · intro row hrow hmarker
    right
    by_cases hetag : k.etag = etag
    · exact ⟨c, _, Function.update_self _ _ _, hetag, .inl rfl⟩
    · -- the object had another tag, so another cleanup is after the marker
      rcases hw.marker row hrow hmarker with ⟨o, ho, ho'⟩ | ⟨d, q, hq, hq', hphase'⟩
      · rw [Cleanup.matched, ho, Option.any_some, beq_iff_eq] at hmatched
        exact absurd (hmatched.symm.trans ho') hetag
      · refine ⟨d, q, ?_, hq', hphase'⟩
        have hd : d ≠ c := by
          rintro rfl
          obtain rfl : k = q := Option.some.inj (hk.symm.trans hq)
          rw [hphase] at hphase'
          simp at hphase'
        dsimp only
        rw [Function.update_of_ne hd]
        exact hq

theorem read (h : store.Lawful) (hlive : store.LiveReads) (hw : Covered store newBodyRef etag w)
    {c : ℕ} {k : Cleanup} (hk : w.cleanups c = some k) :
    Covered store newBodyRef etag { w with
      shared := { w.shared with store := (store.getWithVersion w.shared.store).1 }
      cleanups := Function.update w.cleanups c (some { k with
        phase := if (store.row w.shared.store).any (Row.isMarker k.etag) then
            .repairing (store.getWithVersion w.shared.store).2.2
          else .finished }) } := by
  refine ⟨⟨hw.refs.apart, hw.refs.puts, hw.refs.mutations, hw.refs.retiers, hw.refs.upgrades⟩,
    fun j m hm => (hw.large j m hm).mono w.shared.log_extends, hw.pending, ?_, ?_⟩
  · intro d q v hq hq'
    rcases update_eq_some_cases hq with ⟨rfl, rfl⟩ | hold
    · dsimp only at hq'
      split_ifs at hq'
      cases hq'
      exact h.get_pos _
    · exact hw.repairing d q v hold hq'
  · intro row hrow hmarker
    dsimp only at hrow ⊢
    rw [h.get_row] at hrow
    rw [hlive w.shared.store (by rw [hrow]; rfl)]
    refine (hw.marker row hrow hmarker).imp_right ?_
    rintro ⟨d, q, hq, hetag, hphase'⟩
    by_cases hd : d = c
    · subst hd
      obtain rfl : k = q := Option.some.inj (hk.symm.trans hq)
      refine ⟨d, _, Function.update_self _ _ _, hetag, .inr ?_⟩
      dsimp only
      rw [hrow, Option.any_some, hetag, if_pos hmarker, h.get_version,
        hlive w.shared.store (by rw [hrow]; rfl)]
    · exact ⟨d, q, by rw [Function.update_of_ne hd]; exact hq, hetag, hphase'⟩

theorem repair (h : store.Lawful) (hw : Covered store newBodyRef etag w) {c v : ℕ} {k : Cleanup}
    (hk : w.cleanups c = some k) (hphase : k.phase = .repairing v) :
    Covered store newBodyRef etag { w with
      shared := (w.shared.deleteMetaIfVersion store v).1
      cleanups := Function.update w.cleanups c (some { k with phase := .finished }) } := by
  have hrepairing : ∀ d q u, Function.update w.cleanups c
      (some { k with phase := .finished }) d = some q → q.phase = .repairing u → 0 < u := by
    intro d q u hq hq'
    rcases update_eq_some_cases hq with ⟨rfl, rfl⟩ | hold
    · cases hq'
    · exact hw.repairing d q u hold hq'
  rcases w.shared.deleteMetaIfVersion_cases h (hw.repairing c k v hk hphase) with
    ⟨s, heq, -, hgone, -⟩ | ⟨heq, hne⟩
  · rw [heq]
    refine ⟨⟨hw.refs.apart, hw.refs.puts, hw.refs.mutations, hw.refs.retiers, hw.refs.upgrades⟩,
      fun j m hm => (hw.large j m hm).mono w.shared.log_extends, hw.pending, hrepairing, ?_⟩
    intro row hrow
    dsimp only at hrow
    rw [hgone] at hrow
    cases hrow
  · rw [heq]
    refine ⟨hw.refs, hw.large, hw.pending, hrepairing, ?_⟩
    intro row hrow hmarker
    refine (hw.marker row hrow hmarker).imp_right ?_
    rintro ⟨d, q, hq, hetag, hphase'⟩
    refine ⟨d, q, ?_, hetag, hphase'⟩
    have hd : d ≠ c := by
      rintro rfl
      obtain rfl : k = q := Option.some.inj (hk.symm.trans hq)
      rw [hphase] at hphase'
      simp only [reduceCtorEq, CleanupPhase.repairing.injEq, false_or] at hphase'
      exact hne hphase'.symm
    dsimp only
    rw [Function.update_of_ne hd]
    exact hq

theorem cleanup (h : store.Lawful) (hlive : store.LiveReads) (hw : Covered store newBodyRef etag w)
    {c : ℕ} {k : Cleanup} {x : Tier σ × Cleanup} (hk : w.cleanups c = some k)
    (hmarked : k.phase = .deleting → k.matched w.shared = true → w.unmarked = false)
    (hstep : k.step store w.shared .proceed = some x) :
    Covered store newBodyRef etag
      { w with shared := x.1, cleanups := Function.update w.cleanups c (some x.2) } := by
  unfold Cleanup.step at hstep
  cases hphase : k.phase with
  | checking =>
    simp only [hphase, Option.some.injEq] at hstep
    subst hstep
    refine hw.set_cleanup hk (by simp [hphase]) (by simp [hphase]) fun v => ?_
    dsimp only
    split_ifs <;> simp
  | deleting =>
    simp only [hphase] at hstep
    split_ifs at hstep with hmatched
    · cases hstep
      exact hw.delete hk hphase hmatched (hmarked hphase hmatched)
    · cases hstep
      exact hw.set_cleanup hk (by simp [hphase]) (by simp [hphase]) (by simp)
  | reading =>
    simp only [hphase, w.shared.getMetaWithVersion_eq h, Option.some.injEq] at hstep
    subst hstep
    exact hw.read h hlive hk
  | repairing v =>
    simp only [hphase, Option.some.injEq] at hstep
    subst hstep
    exact hw.repair h hk hphase
  | finished => simp [hphase] at hstep

theorem step (h : store.Lawful) (hlive : store.LiveReads) (hw : Covered store newBodyRef etag w)
    {w' : CleanupWorld σ} {l : CleanupLabel} (hscope : l.recreates etag = true)
    (hmarked : w.deletesMarked l = true)
    (hstep : w.step store cfg lib newBodyRef transparent l = some w') :
    Covered store newBodyRef etag w' := by
  cases l with
  | tiered l =>
    simp only [CleanupWorld.step, Option.map_eq_some_iff] at hstep
    obtain ⟨t, ht, rfl⟩ := hstep
    exact hw.tiered h hlive hscope ht
  | startCleanup c i credentials =>
    simp only [CleanupWorld.step, Option.ite_none_right_eq_some, Option.bind_eq_some_iff,
      Option.map_eq_some_iff] at hstep
    obtain ⟨hnone, tag, -, k, hk, rfl⟩ := hstep
    unfold Cleanup.deleteUpstreamObjectAsync at hk
    split_ifs at hk
    cases hk
    refine ⟨hw.refs, hw.large, hw.pending, ?_, ?_⟩
    · intro d q v hq hphase
      rcases update_eq_some_cases hq with ⟨rfl, rfl⟩ | hold
      · cases hphase
      · exact hw.repairing d q v hold hphase
    · intro row hrow hmarker
      refine (hw.marker row hrow hmarker).imp_right ?_
      rintro ⟨d, q, hq, hrest⟩
      have hd : d ≠ c := by
        rintro rfl
        rw [hnone] at hq
        cases hq
      refine ⟨d, q, ?_, hrest⟩
      dsimp only
      rw [Function.update_of_ne hd]
      exact hq
  | cleanup c input =>
    simp only [CleanupWorld.step, Option.bind_eq_some_iff, Option.map_eq_some_iff] at hstep
    obtain ⟨k, hk, x, hx, rfl⟩ := hstep
    obtain rfl : input = .proceed := beq_iff_eq.mp hscope
    refine hw.cleanup h hlive hk ?_ hx
    intro hphase hmatched
    simpa [CleanupWorld.deletesMarked, hk, hphase, hmatched] using hmarked

end Covered

theorem CleanupWorld.cleanups_none {start w : CleanupWorld σ} {ls : List CleanupLabel} {c : ℕ}
    (hls : ∀ l ∈ ls, ∀ i credentials, l ≠ .startCleanup c i credentials)
    (hstart : start.cleanups c = none)
    (hrun : run (CleanupWorld.step store cfg lib newBodyRef transparent) start ls = some w) :
    w.cleanups c = none := by
  have hguard : Along (CleanupWorld.step store cfg lib newBodyRef transparent)
      (fun _ l => ∀ i credentials, l ≠ .startCleanup c i credentials) start ls :=
    along_of_forall fun l hl _ => hls l hl
  have hkeep : ∀ (w : CleanupWorld σ) (l : CleanupLabel) (w' : CleanupWorld σ),
      w.cleanups c = none → (∀ i credentials, l ≠ .startCleanup c i credentials) →
      w.step store cfg lib newBodyRef transparent l = some w' → w'.cleanups c = none := by
    intro w l w' hw hl hstep
    cases l with
    | tiered l =>
      simp only [step, Option.map_eq_some_iff] at hstep
      obtain ⟨t, -, rfl⟩ := hstep
      exact hw
    | startCleanup d i credentials =>
      simp only [step, Option.ite_none_right_eq_some, Option.bind_eq_some_iff,
        Option.map_eq_some_iff] at hstep
      obtain ⟨-, tag, -, k, -, rfl⟩ := hstep
      have hd : c ≠ d := by
        rintro rfl
        exact hl i credentials rfl
      exact (Function.update_of_ne hd _ _).trans hw
    | cleanup d input =>
      simp only [step, Option.bind_eq_some_iff, Option.map_eq_some_iff] at hstep
      obtain ⟨k, hk, x, -, rfl⟩ := hstep
      have hd : c ≠ d := by
        rintro rfl
        rw [hw] at hk
        cases hk
      exact (Function.update_of_ne hd _ _).trans hw
  exact run_invariant hkeep hstart hguard hrun

/-- The cleanups leave no marker without an object: in every run of small PUTs, of large
PUTs of one content and of cleanups in which no DELETE removes an object that waits for
its marker, a marker with the tag of the content that is there when the cleanups have
ended stands for an object upstream with that tag. -/
theorem cleanup_leaves_no_dangling_marker (h : store.Lawful) (hlive : store.LiveReads)
    {start w : CleanupWorld σ} {ls : List CleanupLabel} (hidle : start.Idle)
    (hchecking : ∀ c k, start.cleanups c = some k → k.phase = .checking)
    (hstart : ∀ row, store.row start.shared.store = some row → row.isMarker etag = true →
      start.shared.Holds etag)
    (hscope : ∀ l ∈ ls, l.recreates etag = true)
    (hmarked : Along (CleanupWorld.step store cfg lib newBodyRef transparent)
      (fun w l => w.deletesMarked l = true) start ls)
    (hrun : run (CleanupWorld.step store cfg lib newBodyRef transparent) start ls = some w)
    (hended : ∀ c k, w.cleanups c = some k → k.phase = .finished) (row : Row)
    (hrow : store.row w.shared.store = some row) (hmarker : row.isMarker etag = true) :
    w.shared.Holds etag := by
  have hinit : Covered store newBodyRef etag start := by
    refine ⟨hidle.refsOk, ?_, ?_, ?_, fun row hrow hmarker => .inl (hstart row hrow hmarker)⟩
    · intro j m hm
      rw [hidle.mutations] at hm
      cases hm
    · intro j m hm
      rw [hidle.mutations] at hm
      cases hm
    · intro c k v hk hphase
      rw [hchecking c k hk] at hphase
      cases hphase
  have hw : Covered store newBodyRef etag w :=
    run_invariant (fun w l w' hw hl hstep => hw.step h hlive hl.1 hl.2 hstep) hinit
      (hmarked.and_forall hscope) hrun
  rcases hw.marker row hrow hmarker with hheld | ⟨c, k, hk, -, hphase⟩
  · exact hheld
  · rw [hended c k hk] at hphase
    simp at hphase

def cleanupStart : CleanupWorld (Cell Row) := { markedTier with }

def displaceMarker : List CleanupLabel :=
  [.tiered (.startPut 0 (samplePut "Range" "a" "x")), .tiered (.put 0 (.route false)),
    .tiered (.put 0 (.upload wholeUpload)), .tiered (.put 0 .proceed), .startCleanup 0 0 true]

/-- A large PUT of the old content, up to its write upstream, and what follows that. -/
def recreateObject : List CleanupLabel :=
  [.tiered (.startMutation 1 0 (.putObject (samplePut "Range" "a" "body").request)),
    .tiered (.mutation 1 .proceed), .tiered (.mutation 1 (.apply (ascii "a")))]

def markRecreated : List CleanupLabel :=
  [.tiered (.mutation 1 (.respond 200 (ascii "a") false 0)), .tiered (.mutation 1 .proceed)]

def wholeCleanup : List CleanupLabel :=
  [.cleanup 0 .proceed, .cleanup 0 .proceed, .cleanup 0 .proceed]

theorem cleanups_ended {w : CleanupWorld (Cell Row)} {ls : List CleanupLabel}
    (hls : (ls.all fun l => match l with
      | .startCleanup c _ _ => c == 0
      | .tiered _ | .cleanup _ _ => true) = true)
    (hrun : run (CleanupWorld.step Cell.store sampleTiered engineLib sampleRef true) cleanupStart
      ls = some w)
    (hended : (w.cleanups 0).map Cleanup.phase = some .finished) (c : ℕ) (k : Cleanup)
    (hk : w.cleanups c = some k) : k.phase = .finished := by
  by_cases hc : c = 0
  · subst hc
    rw [hk] at hended
    exact Option.some.inj hended
  · have hunnamed : ∀ l ∈ ls, ∀ i credentials, l ≠ .startCleanup c i credentials := by
      rintro l hl i credentials rfl
      exact hc (beq_iff_eq.mp (List.all_eq_true.mp hls _ hl))
    rw [CleanupWorld.cleanups_none hunnamed rfl hrun] at hk
    cases hk

theorem cleanup_leaves_no_dangling_marker_recreated :
    ∃ w, run (CleanupWorld.step Cell.store sampleTiered engineLib sampleRef true) cleanupStart
        (displaceMarker ++ recreateObject ++ markRecreated ++ [.cleanup 0 .proceed]) = some w ∧
      (Cell.store.row w.shared.store).any (Row.isMarker (ascii "a")) = true ∧
      w.shared.Holds (ascii "a") := by
  have hends : ∃ w, run (CleanupWorld.step Cell.store sampleTiered engineLib sampleRef true)
      cleanupStart (displaceMarker ++ recreateObject ++ markRecreated ++ [.cleanup 0 .proceed]) =
        some w ∧ (w.cleanups 0).map Cleanup.phase = some .finished ∧
      (Cell.store.row w.shared.store).any (Row.isMarker (ascii "a")) = true :=
    exists_run_of_any (by decide +kernel)
  obtain ⟨w, hrun, hended, hmarker⟩ := hends
  obtain ⟨row, hrow⟩ : ∃ row, Cell.store.row w.shared.store = some row := by
    cases hrow : Cell.store.row w.shared.store with
    | none =>
      rw [hrow] at hmarker
      cases hmarker
    | some row => exact ⟨row, rfl⟩
  refine ⟨w, hrun, hmarker, ?_⟩
  rw [hrow, Option.any_some] at hmarker
  exact cleanup_leaves_no_dangling_marker Cell.store_lawful Cell.store_liveReads markedTier_idle
    (by rintro c k ⟨⟩) (fun row _ _ => ⟨_, rfl, rfl⟩) (by decide +kernel) (by decide +kernel) hrun
    (cleanups_ended (by decide +kernel) hrun hended) row hrow hmarker

/-- The cleanup runs between the write upstream and the commit of the marker: it deletes
the object, finds no marker to remove, and ends; then the marker is committed. -/
theorem cleanup_leaves_dangling_marker :
    ∃ w, run (CleanupWorld.step Cell.store sampleTiered engineLib sampleRef true) cleanupStart
        (displaceMarker ++ recreateObject ++ wholeCleanup ++ markRecreated) = some w ∧
      (∀ l ∈ displaceMarker ++ recreateObject ++ wholeCleanup ++ markRecreated,
        l.recreates (ascii "a") = true) ∧
      (∀ c k, w.cleanups c = some k → k.phase = .finished) ∧
      (w.mutations 1).map Forwarded.phase = some .finished ∧
      (Cell.store.row w.shared.store).any (Row.isMarker (ascii "a")) = true ∧
      w.shared.object = none := by
  have hends : ∃ w, run (CleanupWorld.step Cell.store sampleTiered engineLib sampleRef true)
      cleanupStart (displaceMarker ++ recreateObject ++ wholeCleanup ++ markRecreated) = some w ∧
      (w.cleanups 0).map Cleanup.phase = some .finished ∧
      (w.mutations 1).map Forwarded.phase = some .finished ∧
      (Cell.store.row w.shared.store).any (Row.isMarker (ascii "a")) = true ∧
      w.shared.object = none := exists_run_of_any (by decide +kernel)
  obtain ⟨w, hrun, hended, hrest⟩ := hends
  exact ⟨w, hrun, by decide +kernel, cleanups_ended (by decide +kernel) hrun hended, hrest⟩

end TagGateway.Proxy
