import TagGateway.Proxy.Freshness
import TagGateway.Proxy.TieredEffects

/-!
# PUTs and DELETEs of the local tier take effect one at a time

The commit of a PUT is the point at which it takes effect. A conditional PUT commits
under the version at which its precondition was evaluated, so nothing happened to the
row in between; any other PUT may try again, but installs its row once. The log
records every read, commit and removal, and the invariants say where they stand.
-/
namespace TagGateway.Proxy

open Foundation Cache List

universe u

namespace TierEvent

def putId : TierEvent → Option ℕ
  | .tokenRead i _ _ | .installed i _ _ | .answered i _ => some i
  | .removed _ _ | .captured _ | .acked _ | .marked _ => none

def isEffect : TierEvent → Bool
  | .installed _ _ _ | .removed _ _ | .marked _ => true
  | .tokenRead _ _ _ | .answered _ _ | .captured _ | .acked _ => false

def installs (i : ℕ) : TierEvent → Bool
  | .installed k _ _ => k == i
  | .tokenRead _ _ _ | .answered _ _ | .removed _ _ | .captured _ | .acked _ | .marked _ => false

theorem isEffect_of_installs {i : ℕ} {e : TierEvent} (h : e.installs i = true) :
    e.isEffect = true := by
  cases e with
  | installed => rfl
  | _ => cases h

theorem putId_of_installs {i : ℕ} {e : TierEvent} (h : e.installs i = true) : e.putId = some i := by
  cases e with
  | installed k => exact congrArg some (beq_iff_eq.mp h)
  | _ => cases h

end TierEvent

/-- References of bodies name a body and are not given out twice. -/
structure FreshRefs (newBodyRef : ℕ → Bytes) : Prop where
  nonempty : ∀ i, newBodyRef i ≠ []
  injective : ∀ i k, etagKeyComponent (newBodyRef i) = etagKeyComponent (newBodyRef k) → i = k

/-- The object's tag meets `If-Match`. -/
def PutRequest.MatchedBy (r : PutRequest) (row : Row) : Prop :=
  r.ifMatch = ascii "*" ∨ row.metadata.matchesETagHeader r.ifMatch true = true

/-- PUT `i` replaced the row it had read, at the version it had read, and the row was
not touched in between. -/
def ReplacedRead (log : List TierEvent) (i : ℕ) (row : Option Row) (v : ℕ) : Prop :=
  ∃ before between after,
    log = before ++ .tokenRead i row v :: (between ++ .installed i row v :: after) ∧
      ∀ e ∈ between, e.isEffect = false

theorem ReplacedRead.append {log : List TierEvent} {i v : ℕ} {row : Option Row}
    (h : ReplacedRead log i row v) (es : List TierEvent) : ReplacedRead (log ++ es) i row v := by
  obtain ⟨before, between, after, rfl, hbetween⟩ := h
  exact ⟨before, between, after ++ es, by simp, hbetween⟩

variable {σ : Type u} (store : VersionedStore σ Row) (newBodyRef : ℕ → Bytes)

/-! ## What the log says -/

/-- What PUT `i` read, as long as the version is still the key's. -/
structure Snapshot (sh : Tier σ) (i : ℕ) (row : Option Row) (t : ℕ) : Prop where
  observed : store.Observed sh.store row t
  untouched : store.version sh.store = t → ∃ before after,
    sh.log = before ++ .tokenRead i row t :: after ∧ ∀ e ∈ after, e.isEffect = false

def Cleared (log : List TierEvent) : Prop :=
  ∀ k d v, TierEvent.installed k d v ∈ log →
    ∃ del row, [TierEvent.installed k d v, .removed del (some row)] <+ log

/-- The precondition of PUT `i` held when it was evaluated. -/
def Decided (sh : Tier σ) (i : ℕ) (r : PutRequest) (t : ℕ) : Prop :=
  ∃ row, Snapshot store sh i row t ∧
    (r.ifMatch ≠ [] → ∃ existing, row = some existing ∧ r.MatchedBy existing) ∧
    (r.ifNoneMatch = ascii "*" → store.version sh.store = t → Cleared sh.log)

/-- What the answers and the installed rows have behind them. -/
structure History (requests : ℕ → Option PutRequest) (sh : Tier σ) : Prop where
  stored : ∀ i etag, TierEvent.answered i (.stored etag) ∈ sh.log →
    sh.log.countP (TierEvent.installs i) = 1 ∧
    (∃ row v d v', [TierEvent.tokenRead i row v, .installed i d v'] <+ sh.log) ∧
    ∀ r, requests i = some r → r.ifMatch ≠ [] →
      ∃ row v, ReplacedRead sh.log i (some row) v ∧ r.MatchedBy row
  refused : ∀ i, TierEvent.answered i (.refused .preconditionFailed) ∈ sh.log →
    sh.log.countP (TierEvent.installs i) = 0
  separated : ∀ i k r d v d' v', requests k = some r → r.ifNoneMatch = ascii "*" →
    [TierEvent.installed i d v, .installed k d' v'] <+ sh.log →
    ∃ del row, [TierEvent.installed i d v, .removed del (some row), .installed k d' v'] <+ sh.log
  visible : ∀ i d v, TierEvent.installed i d v ∈ sh.log →
    (∃ del row, [TierEvent.installed i d v, .removed del (some row)] <+ sh.log) ∨
    ∃ k d' v' row, TierEvent.installed k d' v' ∈ sh.log ∧ store.row sh.store = some row ∧
      TieredPut.StagedBy newBodyRef k sh.bodies row.metadata

/-- What holds of every PUT, by where it stands. -/
structure PutOk (sh : Tier σ) (i : ℕ) (p : TieredPut) : Prop where
  unread : p.phase = .routing → ∀ e ∈ sh.log, e.putId ≠ some i
  unanswered : p.live = true → ∀ e ∈ sh.log, e.putId = some i → ∃ row v, e = .tokenRead i row v
  discarded : p.phase = .discarding → sh.log.countP (TierEvent.installs i) = 0
  read : p.token ≠ none ∨ p.metadata ≠ none → ∃ row v, TierEvent.tokenRead i row v ∈ sh.log
  token_pos : ∀ t, p.token = some t → 0 < t
  probing : ∀ row t, p.phase = .probing row t →
    p.request.conditional = true ∧ Snapshot store sh i (some row) t
  uploading : ∀ t size, p.phase = .uploading t size → p.request.conditional = true →
    Decided store sh i p.request t
  storing : ∀ m t a, p.phase = .storing m t a → p.request.conditional = true →
    Decided store sh i p.request t
  staged : ∀ m, p.metadata = some m → TieredPut.StagedBy newBodyRef i sh.bodies m
  rereading : ∀ m a, p.phase = .rereading m a → p.request.conditional = false

variable {store newBodyRef}

theorem countP_installs_eq_zero {log : List TierEvent} {i : ℕ}
    (h : ∀ e ∈ log, e.putId = some i → ∃ row v, e = .tokenRead i row v) :
    log.countP (TierEvent.installs i) = 0 := by
  rw [List.countP_eq_zero]
  intro e he hinst
  obtain ⟨row, v, rfl⟩ := h e he (TierEvent.putId_of_installs hinst)
  cases hinst

theorem countP_installs_append {log es : List TierEvent} {i : ℕ}
    (h : ∀ e ∈ es, e.isEffect = false) :
    (log ++ es).countP (TierEvent.installs i) = log.countP (TierEvent.installs i) := by
  have hes : es.countP (TierEvent.installs i) = 0 := by
    rw [List.countP_eq_zero]
    intro e he hinst
    have heffect := TierEvent.isEffect_of_installs hinst
    rw [h e he] at heffect
    cases heffect
  rw [List.countP_append, hes, Nat.add_zero]

theorem entryServable_of_staged (hrefs : FreshRefs newBodyRef) {sh : Tier σ} {k : ℕ}
    {m : CachedObjectMeta} (h : TieredPut.StagedBy newBodyRef k sh.bodies m) :
    sh.entryServable m = true := by
  have hne := hrefs.nonempty k
  simp [Tier.entryServable, CachedObjectMeta.bodyDiscriminator, h.ref, hne, h.body]

namespace History

variable {requests : ℕ → Option PutRequest} {sh sh' : Tier σ}

/-- A step that changes no row. A PUT that is refused now has installed nothing. -/
theorem quiet (hh : History store newBodyRef requests sh) {es : List TierEvent}
    (hlog : sh'.log = sh.log ++ es) (heffect : ∀ e ∈ es, e.isEffect = false)
    (hstored : ∀ i etag, TierEvent.answered i (.stored etag) ∉ es)
    (hrefused : ∀ i, TierEvent.answered i (.refused .preconditionFailed) ∈ es →
      sh.log.countP (TierEvent.installs i) = 0)
    (hrow : store.row sh'.store = store.row sh.store)
    (hbodies : ∀ k m, (∃ d v, TierEvent.installed k d v ∈ sh.log) →
      TieredPut.StagedBy newBodyRef k sh.bodies m → TieredPut.StagedBy newBodyRef k sh'.bodies m) :
    History store newBodyRef requests sh' := by
  have hnew : ∀ {i d v}, TierEvent.installed i d v ∉ es := fun {i d v} hmem =>
    absurd (heffect _ hmem) (by simp [TierEvent.isEffect])
  have hsub : ∀ {l}, l <+ sh.log → l <+ sh.log ++ es :=
    fun hl => hl.trans (List.sublist_append_left _ _)
  constructor
  · intro i etag hmem
    rw [hlog] at hmem ⊢
    have hold := (List.mem_append.mp hmem).resolve_right (hstored i etag)
    obtain ⟨hcount, ⟨row, v, d, v', hread⟩, hmatch⟩ := hh.stored i etag hold
    refine ⟨(countP_installs_append heffect).trans hcount, ⟨row, v, d, v', hsub hread⟩, ?_⟩
    intro r hr him
    obtain ⟨row, v, hreplaced, hm⟩ := hmatch r hr him
    exact ⟨row, v, hreplaced.append es, hm⟩
  · intro i hmem
    rw [hlog] at hmem ⊢
    rw [countP_installs_append heffect]
    rcases List.mem_append.mp hmem with hold | hes
    · exact hh.refused i hold
    · exact hrefused i hes
  · intro i k r d v d' v' hr hinm hpair
    rw [hlog] at hpair ⊢
    obtain ⟨del, row, htriple⟩ :=
      hh.separated i k r d v d' v' hr hinm ((pair_append_of_not_mem hnew).mp hpair)
    exact ⟨del, row, hsub htriple⟩
  · intro i d v hmem
    rw [hlog] at hmem ⊢
    have hold := (List.mem_append.mp hmem).resolve_right hnew
    rcases hh.visible i d v hold with ⟨del, row, hpair⟩ | ⟨k, d', v', row, hk, hfound, hstaged⟩
    · exact .inl ⟨del, row, hsub hpair⟩
    · refine .inr ⟨k, d', v', row, List.mem_append_left _ hk, hrow.trans hfound, ?_⟩
      exact hbodies k row.metadata ⟨d', v', hk⟩ hstaged

theorem answered (hh : History store newBodyRef requests sh) {i : ℕ} {answer : PutAnswer}
    (hlog : sh'.log = sh.log ++ [.answered i answer]) (hrefused : ∀ etag, answer ≠ .stored etag)
    (hzero : sh.log.countP (TierEvent.installs i) = 0)
    (hrow : store.row sh'.store = store.row sh.store)
    (hbodies : ∀ k m, (∃ d v, TierEvent.installed k d v ∈ sh.log) →
      TieredPut.StagedBy newBodyRef k sh.bodies m → TieredPut.StagedBy newBodyRef k sh'.bodies m) :
    History store newBodyRef requests sh' := by
  refine hh.quiet hlog (by simp [TierEvent.isEffect]) ?_ ?_ hrow hbodies
  · intro k etag hmem
    rw [List.mem_singleton, TierEvent.answered.injEq] at hmem
    exact hrefused etag hmem.2.symm
  · intro k hmem
    rw [List.mem_singleton, TierEvent.answered.injEq] at hmem
    rw [hmem.1]
    exact hzero

theorem removal (hh : History store newBodyRef requests sh) {del : ℕ} {s : σ}
    (hsh : sh' = ({ sh with store := s } : Tier σ).emit (.removed del (store.row sh.store))) :
    History store newBodyRef requests sh' := by
  subst hsh
  simp only [Tier.emit]
  have hsub : ∀ {l e}, l <+ sh.log → l <+ sh.log ++ [e] :=
    fun hl => hl.trans (List.sublist_append_left _ _)
  have hcount : ∀ i, (sh.log ++ [TierEvent.removed del (store.row sh.store)]).countP
      (TierEvent.installs i) = sh.log.countP (TierEvent.installs i) := by
    intro i
    simp [TierEvent.installs]
  constructor
  · intro i etag hmem
    obtain ⟨hone, ⟨row, v, d, v', hread⟩, hmatch⟩ := hh.stored i etag (by simpa using hmem)
    refine ⟨(hcount i).trans hone, ⟨row, v, d, v', hsub hread⟩, ?_⟩
    intro r hr him
    obtain ⟨row, v, hreplaced, hm⟩ := hmatch r hr him
    exact ⟨row, v, hreplaced.append _, hm⟩
  · intro i hmem
    exact (hcount i).trans (hh.refused i (by simpa using hmem))
  · intro i k r d v d' v' hr hinm hpair
    rcases pair_snoc_cases hpair with hold | ⟨hlast, -⟩
    · obtain ⟨del', row, htriple⟩ := hh.separated i k r d v d' v' hr hinm hold
      exact ⟨del', row, hsub htriple⟩
    · cases hlast
  · intro i d v hmem
    have hold : TierEvent.installed i d v ∈ sh.log := by simpa using hmem
    left
    rcases hh.visible i d v hold with ⟨del', row, hpair⟩ | ⟨k, d', v', row, -, hfound, -⟩
    · exact ⟨del', row, hsub hpair⟩
    · refine ⟨del, row, ?_⟩
      rw [← hfound]
      exact pair_snoc hold

theorem install (hh : History store newBodyRef requests sh) {i : ℕ} {m : CachedObjectMeta} {s : σ}
    {answer : PutAnswer} {r : PutRequest} (hrequest : requests i = some r)
    (hunanswered : ∀ e ∈ sh.log, e.putId = some i → ∃ row v, e = .tokenRead i row v)
    (hread : ∃ row v, TierEvent.tokenRead i row v ∈ sh.log)
    (hdecided : r.conditional = true → Decided store sh i r (store.version sh.store))
    (hstaged : TieredPut.StagedBy newBodyRef i sh.bodies m)
    (hrow : store.row s = some ⟨m, sh.nextId⟩)
    (hanswer : answer = .stored m.etag ∨ answer = .failed) :
    History store newBodyRef requests
      ((({ sh with store := s, nextId := sh.nextId + 1 } : Tier σ).emit
        (.installed i (store.row sh.store) (store.version sh.store))).emit (.answered i answer)) := by
  simp only [Tier.emit, List.append_assoc, List.cons_append, List.nil_append]
  generalize hlog' : sh.log ++ [TierEvent.installed i (store.row sh.store) (store.version sh.store),
    .answered i answer] = log'
  have hsub : ∀ {l}, l <+ sh.log → l <+ log' :=
    fun hl => hlog' ▸ hl.trans (List.sublist_append_left _ _)
  have hinstalled : TierEvent.installed i (store.row sh.store) (store.version sh.store) ∈ log' := by
    simp [← hlog']
  -- `log'` is the old log with the commit, and then the answer
  have hsnoc : log' = (sh.log ++ [TierEvent.installed i (store.row sh.store)
      (store.version sh.store)]) ++ [.answered i answer] := by
    simp [← hlog']
  constructor
  · intro k etag hmem
    by_cases hk : k = i
    · subst hk
      refine ⟨?_, ?_, ?_⟩
      · rw [← hlog', List.countP_append, countP_installs_eq_zero hunanswered]
        simp [TierEvent.installs]
      · obtain ⟨row, v, hmem⟩ := hread
        refine ⟨row, v, store.row sh.store, store.version sh.store, ?_⟩
        rw [hsnoc]
        exact (pair_snoc hmem).trans (List.sublist_append_left _ _)
      · intro r' hr' him
        rw [hrequest, Option.some.injEq] at hr'
        subst hr'
        have hcond : r.conditional = true := by simp [PutRequest.conditional, him]
        obtain ⟨row, hsnap, hmatch, -⟩ := hdecided hcond
        obtain ⟨existing, rfl, hm⟩ := hmatch him
        obtain ⟨before, after, hlog, hafter⟩ := hsnap.untouched rfl
        refine ⟨existing, store.version sh.store, ⟨before, after, [.answered k answer], ?_, hafter⟩, hm⟩
        rw [← hlog', hlog, hsnap.observed.current rfl]
        simp
    · have hold : TierEvent.answered k (.stored etag) ∈ sh.log := by
        rw [← hlog'] at hmem
        simpa [hk] using hmem
      obtain ⟨hcount, ⟨row, v, d, v', hpair⟩, hmatch⟩ := hh.stored k etag hold
      refine ⟨?_, ⟨row, v, d, v', hsub hpair⟩, ?_⟩
      · rw [← hlog', List.countP_append, hcount]
        simp [TierEvent.installs, Ne.symm hk]
      · intro r' hr' him
        obtain ⟨row, v, hreplaced, hm⟩ := hmatch r' hr' him
        rw [← hlog']
        exact ⟨row, v, hreplaced.append _, hm⟩
  · intro k hmem
    have hold : TierEvent.answered k (.refused .preconditionFailed) ∈ sh.log := by
      rw [← hlog'] at hmem
      rcases hanswer with rfl | rfl <;> simpa using hmem
    have hk : k ≠ i := by
      rintro rfl
      obtain ⟨row, v, heq⟩ := hunanswered _ hold rfl
      cases heq
    rw [← hlog', List.countP_append, hh.refused k hold]
    simp [TierEvent.installs, Ne.symm hk]
  · intro k l r' d v d' v' hr' hinm hpair
    rw [hsnoc] at hpair
    rcases pair_snoc_cases hpair with hpair | ⟨hlast, -⟩
    · rcases pair_snoc_cases hpair with hold | ⟨hlast, hmem⟩
      · obtain ⟨del, row, htriple⟩ := hh.separated k l r' d v d' v' hr' hinm hold
        exact ⟨del, row, hsub htriple⟩
      · obtain ⟨rfl, rfl, rfl⟩ := TierEvent.installed.inj hlast
        rw [hrequest, Option.some.injEq] at hr'
        subst hr'
        have hcond : r.conditional = true := by
          rw [PutRequest.conditional, hinm]
          simp [ascii]
        obtain ⟨row, -, -, hclear⟩ := hdecided hcond
        obtain ⟨del, row, hremoved⟩ := hclear hinm rfl k d v hmem
        refine ⟨del, row, ?_⟩
        rw [hsnoc]
        exact (sublist_snoc_self hremoved).trans (List.sublist_append_left _ _)
    · cases hlast
  · intro k d v _
    exact .inr ⟨i, _, _, _, hinstalled, hrow, hstaged⟩

end History

/-! ## What the PUTs that do not move see -/

variable (store newBodyRef) in
/-- A step of the PUT `i`, or of a DELETE, as the other PUTs see it. -/
structure Passes (i : Option ℕ) (sh sh' : Tier σ) : Prop where
  advances : store.Advances sh.store sh'.store
  log : ∃ es, sh'.log = sh.log ++ es ∧ (∀ e ∈ es, ∀ k, e.putId = some k → i = some k) ∧
    (∀ e ∈ es, e.isEffect = true → store.version sh.store < store.version sh'.store)
  bodies : ∀ k m, i ≠ some k → TieredPut.StagedBy newBodyRef k sh.bodies m →
    TieredPut.StagedBy newBodyRef k sh'.bodies m

variable {i : ℕ} {sh sh' : Tier σ} {p p' : TieredPut}

theorem TieredPut.StagedBy.mono {k : ℕ} {bodies bodies' : List Bytes} {m : CachedObjectMeta}
    (h : TieredPut.StagedBy newBodyRef k bodies m)
    (hb : etagKeyComponent (newBodyRef k) ∈ bodies → etagKeyComponent (newBodyRef k) ∈ bodies') :
    TieredPut.StagedBy newBodyRef k bodies' m := ⟨h.ref, h.tier, h.etag, hb h.body⟩

namespace Passes

theorem silent {i : Option ℕ} {s : σ} {bodies : List Bytes} (h : store.Advances sh.store s)
    (hbodies : ∀ k m, i ≠ some k → TieredPut.StagedBy newBodyRef k sh.bodies m →
      TieredPut.StagedBy newBodyRef k bodies m) :
    Passes store newBodyRef i sh { sh with store := s, bodies := bodies } :=
  ⟨h, ⟨[], by simp, by simp, by simp⟩, hbodies⟩

variable {j : Option ℕ} (hp : Passes store newBodyRef j sh sh')
include hp

theorem snapshot {row : Option Row} {t : ℕ} (hs : Snapshot store sh i row t) :
    Snapshot store sh' i row t := by
  refine ⟨hs.observed.advance hp.advances, fun hv => ?_⟩
  obtain ⟨es, hlog, -, heffect⟩ := hp.log
  have hle := hs.observed.le
  have hle' := hp.advances.le
  obtain ⟨before, after, heq, hafter⟩ := hs.untouched (by omega)
  refine ⟨before, after ++ es, by rw [hlog, heq]; simp, ?_⟩
  intro e he
  rcases List.mem_append.mp he with hold | hnew
  · exact hafter e hold
  · by_contra hne
    have hlt := heffect e hnew (by simpa using hne)
    omega

theorem decided {r : PutRequest} {t : ℕ} (hd : Decided store sh i r t) :
    Decided store sh' i r t := by
  obtain ⟨row, hsnap, hmatch, hclear⟩ := hd
  refine ⟨row, hp.snapshot hsnap, hmatch, fun hinm hv k d v hmem => ?_⟩
  obtain ⟨es, hlog, -, heffect⟩ := hp.log
  have hle := hsnap.observed.le
  have hle' := hp.advances.le
  rw [hlog] at hmem ⊢
  rcases List.mem_append.mp hmem with hold | hnew
  · obtain ⟨del, row, hpair⟩ := hclear hinm (by omega) k d v hold
    exact ⟨del, row, hpair.trans (List.sublist_append_left _ _)⟩
  · have hlt := heffect _ hnew rfl
    omega

theorem mem_log (hij : j ≠ some i) : ∀ e ∈ sh'.log, e.putId = some i → e ∈ sh.log := by
  intro e he hid
  obtain ⟨es, hlog, hown, -⟩ := hp.log
  rw [hlog] at he
  rcases List.mem_append.mp he with hold | hnew
  · exact hold
  · exact absurd (hown e hnew i hid) hij

theorem put (hij : j ≠ some i) (hok : PutOk store newBodyRef sh i p) :
    PutOk store newBodyRef sh' i p := by
  have hold := hp.mem_log hij
  constructor
  · intro hphase e he hid
    exact hok.unread hphase e (hold e he hid) hid
  · intro hlive e he hid
    exact hok.unanswered hlive e (hold e he hid) hid
  · intro hphase
    rw [List.countP_eq_zero]
    intro e he hinst
    exact List.countP_eq_zero.mp (hok.discarded hphase) e
      (hold e he (TierEvent.putId_of_installs hinst)) hinst
  · intro hpast
    obtain ⟨row, v, hmem⟩ := hok.read hpast
    obtain ⟨es, hlog, -⟩ := hp.log
    exact ⟨row, v, by rw [hlog]; exact List.mem_append_left _ hmem⟩
  · exact hok.token_pos
  · intro row t hphase
    exact ⟨(hok.probing row t hphase).1, hp.snapshot (hok.probing row t hphase).2⟩
  · intro t size hphase hcond
    exact hp.decided (hok.uploading t size hphase hcond)
  · intro m t a hphase hcond
    exact hp.decided (hok.storing m t a hphase hcond)
  · intro m hm
    exact hp.bodies i m hij (hok.staged m hm)
  · exact hok.rereading

end Passes

namespace TieredPut.Effect

theorem request (h : Effect store newBodyRef i sh p sh' p') : p'.request = p.request := by
  cases h <;> rfl

theorem passes (hl : store.Lawful) (hrefs : FreshRefs newBodyRef)
    (h : Effect store newBodyRef i sh p sh' p') : Passes store newBodyRef (some i) sh sh' := by
  have hcons : ∀ {k m}, StagedBy newBodyRef k sh.bodies m →
      StagedBy newBodyRef k (etagKeyComponent (newBodyRef i) :: sh.bodies) m :=
    fun hs => hs.mono (List.mem_cons_of_mem _)
  cases h with
  | forward phase | accept phase met | retry phase unconditional =>
    exact .silent (.refl _) fun _ _ _ hs => hs
  | refuse live refused =>
    exact ⟨.refl _, ⟨[.answered i _], rfl, by simp [TierEvent.putId], by simp [TierEvent.isEffect]⟩,
      fun _ _ _ hs => hs⟩
  | readForward phase | readProbe phase _ _ _ | readAccept phase _ =>
    exact ⟨hl.get_advances _,
      ⟨[.tokenRead i _ _], rfl, by simp [TierEvent.putId], by simp [TierEvent.isEffect]⟩,
      fun _ _ _ hs => hs⟩
  | readRefuse phase =>
    refine ⟨hl.get_advances _, ⟨_, List.append_assoc _ _ _, ?_, ?_⟩, fun _ _ _ hs => hs⟩
    · simp [TierEvent.putId]
    · simp [TierEvent.isEffect]
  | stage phase staged => exact .silent (.refl _) fun _ _ _ hs => hcons hs
  | abort live kept refused =>
    refine ⟨.refl _, ⟨[.answered i _], rfl, by simp [TierEvent.putId], by simp [TierEvent.isEffect]⟩,
      fun k m _ hs => ?_⟩
    rcases kept with rfl | rfl
    · exact hs
    · exact hcons hs
  | install phase version row advances answered =>
    refine ⟨.of_lt advances, ⟨_, List.append_assoc _ _ _, ?_, ?_⟩, fun _ _ _ hs => hs⟩
    · simp [TierEvent.putId]
    · intro _ _ _
      exact advances
  | reread phase => exact .silent (hl.get_advances _) fun _ _ _ hs => hs
  | discard phase kept =>
    refine .silent (.refl _) fun k m hne hs => ?_
    rcases kept with rfl | rfl
    · exact hs
    · apply hs.mono
      intro hmem
      have hkey : etagKeyComponent (newBodyRef k) ≠ etagKeyComponent (newBodyRef i) := by
        intro heq
        exact hne (congrArg some (hrefs.injective k i heq).symm)
      simpa [hkey] using hmem

end TieredPut.Effect

/-! ## What the PUT that moves keeps -/

theorem Cleared.snoc {log : List TierEvent} (h : Cleared log) {e : TierEvent}
    (he : e.isEffect = false) : Cleared (log ++ [e]) := by
  intro k d v hmem
  rcases List.mem_append.mp hmem with hold | hnew
  · obtain ⟨del, row, hpair⟩ := h k d v hold
    exact ⟨del, row, hpair.trans (List.sublist_append_left _ _)⟩
  · rw [List.mem_singleton] at hnew
    rw [← hnew] at he
    cases he

/-- Without a row that could be served, every row installed so far was removed. -/
theorem History.cleared {requests : ℕ → Option PutRequest}
    (hh : History store newBodyRef requests sh) (hrefs : FreshRefs newBodyRef)
    (hrow : ∀ row, store.row sh.store = some row → sh.entryServable row.metadata = false) :
    Cleared sh.log := by
  intro k d v hmem
  rcases hh.visible k d v hmem with hremoved | ⟨l, d', v', row, -, hfound, hstaged⟩
  · exact hremoved
  · have hserves := entryServable_of_staged hrefs hstaged
    rw [hrow row hfound] at hserves
    cases hserves

/-- Without a visible object `If-Match` is refused, and with one a `*` in
`If-None-Match` is. -/
theorem PutRequest.checkPreconditions_none {r : PutRequest} {visible : Option CachedObjectMeta}
    (h : r.checkPreconditions visible = none) :
    (r.ifMatch ≠ [] → ∃ m, visible = some m ∧
      (r.ifMatch = ascii "*" ∨ m.matchesETagHeader r.ifMatch true = true)) ∧
    (r.ifNoneMatch = ascii "*" → visible = none) := by
  obtain ⟨hmatch, hnone⟩ := (checkPreconditions_eq_none_iff r visible).mp h
  constructor
  · intro him
    obtain ⟨tag, htag, hmet⟩ := hmatch him
    obtain ⟨m, hm, rfl⟩ := Option.map_eq_some_iff.mp htag
    exact ⟨m, hm, hmet⟩
  · intro hinm
    cases visible with
    | none => rfl
    | some m => exact absurd hinm (hnone (by simp [hinm, ascii]) m.etag rfl).1

/-! A PUT that stands at a phase needs only what the phase says. -/

namespace PutOk

variable (hlog : ∀ e ∈ sh.log, e.putId = some i → ∃ row v, e = .tokenRead i row v)
  (hread : ∃ row v, TierEvent.tokenRead i row v ∈ sh.log)

theorem of_finished (sh : Tier σ) (i : ℕ) (p : TieredPut) :
    PutOk store newBodyRef sh i { p with phase := .finished } := by
  constructor <;> simp [TieredPut.live, TieredPut.token, TieredPut.metadata]

theorem of_discarding (h : sh.log.countP (TierEvent.installs i) = 0) :
    PutOk store newBodyRef sh i { p with phase := .discarding } := by
  constructor <;> simp [TieredPut.live, TieredPut.token, TieredPut.metadata, h]

include hlog in
theorem of_forwarded : PutOk store newBodyRef sh i { p with phase := .forwarded } := by
  constructor
  case unanswered => exact fun _ => hlog
  all_goals simp [TieredPut.token, TieredPut.metadata]

include hlog hread

theorem of_probing {row : Row} {t : ℕ} (hcond : p.request.conditional = true)
    (hsnap : Snapshot store sh i (some row) t) :
    PutOk store newBodyRef sh i { p with phase := .probing row t } := by
  constructor
  case unanswered => exact fun _ => hlog
  case read => exact fun _ => hread
  case token_pos =>
    rintro t ⟨⟩
    exact hsnap.observed.pos
  case probing =>
    rintro row t ⟨⟩
    exact ⟨hcond, hsnap⟩
  all_goals simp [TieredPut.metadata]

theorem of_uploading {t : ℕ} {size : ℤ} (hpos : 0 < t)
    (hdecided : p.request.conditional = true → Decided store sh i p.request t) :
    PutOk store newBodyRef sh i { p with phase := .uploading t size } := by
  constructor
  case unanswered => exact fun _ => hlog
  case read => exact fun _ => hread
  case token_pos =>
    rintro t ⟨⟩
    exact hpos
  case uploading =>
    rintro t size ⟨⟩
    exact hdecided
  all_goals simp [TieredPut.metadata]

theorem of_storing {m : CachedObjectMeta} {t a : ℕ} (hpos : 0 < t)
    (hdecided : p.request.conditional = true → Decided store sh i p.request t)
    (hstaged : TieredPut.StagedBy newBodyRef i sh.bodies m) :
    PutOk store newBodyRef sh i { p with phase := .storing m t a } := by
  constructor
  case unanswered => exact fun _ => hlog
  case read => exact fun _ => hread
  case token_pos =>
    rintro t ⟨⟩
    exact hpos
  case storing =>
    rintro m t a ⟨⟩
    exact hdecided
  case staged =>
    rintro m ⟨⟩
    exact hstaged
  all_goals simp

theorem of_rereading {m : CachedObjectMeta} {a : ℕ} (hcond : p.request.conditional = false)
    (hstaged : TieredPut.StagedBy newBodyRef i sh.bodies m) :
    PutOk store newBodyRef sh i { p with phase := .rereading m a } := by
  constructor
  case unanswered => exact fun _ => hlog
  case read => exact fun _ => hread
  case staged =>
    rintro m ⟨⟩
    exact hstaged
  case rereading => exact fun _ _ _ => hcond
  all_goals simp [TieredPut.token]

end PutOk

theorem Snapshot.of_read (hl : store.Lawful) (sh : Tier σ) (i : ℕ) :
    Snapshot store (TieredPut.readToken store i sh) i (store.row sh.store)
      (store.getWithVersion sh.store).2.2 :=
  ⟨hl.get_observed sh.store, fun _ => ⟨sh.log, [], rfl, by simp⟩⟩

theorem decided_of_probe (hrefs : FreshRefs newBodyRef) {requests : ℕ → Option PutRequest}
    (hh : History store newBodyRef requests sh) {r : PutRequest} {row : Row} {t : ℕ}
    (hsnap : Snapshot store sh i (some row) t)
    (hmet : r.checkPreconditions
      (if sh.entryServable row.metadata then some row.metadata else none) = none) :
    Decided store sh i r t := by
  obtain ⟨hmatch, hnone⟩ := PutRequest.checkPreconditions_none hmet
  refine ⟨some row, hsnap, fun him => ⟨row, rfl, ?_⟩, fun hinm hv => ?_⟩
  · obtain ⟨m, hm, hmatched⟩ := hmatch him
    split at hm
    · cases hm
      exact hmatched
    · cases hm
  · apply hh.cleared hrefs
    intro row' hrow'
    rw [hsnap.observed.current hv, Option.some.injEq] at hrow'
    have hunserved := hnone hinm
    rw [← hrow']
    by_contra hserved
    simp [hserved] at hunserved

namespace TieredPut.Effect

theorem putOk (hl : store.Lawful) (hrefs : FreshRefs newBodyRef)
    {requests : ℕ → Option PutRequest} (hh : History store newBodyRef requests sh)
    (hok : PutOk store newBodyRef sh i p) (h : Effect store newBodyRef i sh p sh' p') :
    PutOk store newBodyRef sh' i p' := by
  have hp := h.passes hl hrefs
  -- a PUT that has just read the row has only that in the log
  have hread : p.phase = .routing → ∀ e ∈ (readToken store i sh).log, e.putId = some i →
      ∃ row v, e = .tokenRead i row v := by
    intro hphase e he hid
    rcases List.mem_append.mp he with hold | hnew
    · exact absurd hid (hok.unread hphase e hold)
    · exact ⟨_, _, List.mem_singleton.mp hnew⟩
  have hmem : TierEvent.tokenRead i (store.row sh.store) (store.getWithVersion sh.store).2.2 ∈
      (readToken store i sh).log := List.mem_append_right _ (List.mem_singleton_self _)
  cases h with
  | refuse | readRefuse | install | discard => exact .of_finished _ _ _
  | forward phase => exact .of_forwarded (hok.unanswered (by rw [live, phase]))
  | readForward phase => exact .of_forwarded (hread phase)
  | readProbe phase conditional found tier =>
    have hsnap := Snapshot.of_read hl sh i
    rw [found] at hsnap
    exact .of_probing (hread phase) ⟨_, _, hmem⟩ conditional hsnap
  | readAccept phase met =>
    refine .of_uploading (hread phase) ⟨_, _, hmem⟩ (hl.get_pos _) fun hcond => ?_
    obtain ⟨hrow, hcheck⟩ := met hcond
    obtain ⟨hmatch, -⟩ := PutRequest.checkPreconditions_none hcheck
    refine ⟨store.row sh.store, Snapshot.of_read hl sh i, fun him => ?_, fun _ _ => ?_⟩
    · obtain ⟨m, hm, -⟩ := hmatch him
      cases hm
    · exact (hh.cleared hrefs (by simp [hrow])).snoc rfl
  | @accept row token size phase met =>
    have htoken : p.token = some token := by rw [TieredPut.token, phase]
    refine .of_uploading (hok.unanswered (by rw [live, phase])) (hok.read (.inl (by simp [htoken])))
      (hok.token_pos token htoken) fun _ => ?_
    exact decided_of_probe hrefs hh (hok.probing row token phase).2 met
  | @stage token size m phase staged =>
    have htoken : p.token = some token := by rw [TieredPut.token, phase]
    have hdecided := hok.uploading token size phase
    apply PutOk.of_storing
    · exact hok.unanswered (by rw [live, phase])
    · exact hok.read (.inl (by simp [htoken]))
    · exact hok.token_pos token htoken
    · exact fun hcond => hp.decided (hdecided hcond)
    · exact staged
  | abort hlive kept refused =>
    have hzero := countP_installs_eq_zero (hok.unanswered hlive)
    exact .of_discarding ((countP_installs_append (by simp [TierEvent.isEffect])).trans hzero)
  | @retry m token attempt phase unconditional =>
    have hmeta : p.metadata = some m := by rw [metadata, phase]
    exact .of_rereading (hok.unanswered (by rw [live, phase])) (hok.read (.inr (by simp [hmeta])))
      unconditional (hok.staged m hmeta)
  | @reread m attempt phase =>
    have hmeta : p.metadata = some m := by rw [metadata, phase]
    have hcond := hok.rereading m attempt phase
    apply PutOk.of_storing
    · exact hok.unanswered (by rw [live, phase])
    · exact hok.read (.inr (by simp [hmeta]))
    · exact hl.get_pos _
    · exact fun hconditional => absurd hconditional (by simp [hcond])
    · exact hok.staged m hmeta

theorem history (hl : store.Lawful) (hrefs : FreshRefs newBodyRef)
    {requests : ℕ → Option PutRequest} (hrequest : requests i = some p.request)
    (hh : History store newBodyRef requests sh) (hok : PutOk store newBodyRef sh i p)
    (h : Effect store newBodyRef i sh p sh' p') : History store newBodyRef requests sh' := by
  have hp := h.passes hl hrefs
  -- an installed row of another PUT keeps its body, and this one has none to lose
  have hbodies : sh.log.countP (TierEvent.installs i) = 0 → ∀ k m,
      (∃ d v, TierEvent.installed k d v ∈ sh.log) → StagedBy newBodyRef k sh.bodies m →
      StagedBy newBodyRef k sh'.bodies m := by
    intro hzero k m hk hs
    obtain ⟨d, v, hmem⟩ := hk
    refine hp.bodies k m ?_ hs
    rintro ⟨⟩
    exact List.countP_eq_zero.mp hzero _ hmem (by simp [TierEvent.installs])
  have hzero : p.live = true → sh.log.countP (TierEvent.installs i) = 0 :=
    fun hlive => countP_installs_eq_zero (hok.unanswered hlive)
  cases h with
  | forward | accept | retry => exact hh
  | refuse hlive refused =>
    exact hh.answered rfl refused (hzero hlive) rfl (hbodies (hzero hlive))
  | readForward phase | readProbe phase _ _ _ | readAccept phase _ =>
    have hlive : p.live = true := by rw [live, phase]
    exact hh.quiet rfl (by simp [TierEvent.isEffect]) (by simp) (by simp) (hl.get_row _)
      (hbodies (hzero hlive))
  | readRefuse phase =>
    have hlive : p.live = true := by rw [live, phase]
    refine hh.quiet (List.append_assoc _ _ _) (by simp [TierEvent.isEffect]) (by simp) ?_
      (hl.get_row _) (hbodies (hzero hlive))
    intro k hmem
    simp only [List.mem_append, List.mem_singleton, TierEvent.answered.injEq, reduceCtorEq,
      false_or] at hmem
    rw [hmem.1]
    exact hzero hlive
  | stage phase staged =>
    have hlive : p.live = true := by rw [live, phase]
    exact hh.quiet (List.append_nil _).symm (by simp) (by simp) (by simp) rfl
      (hbodies (hzero hlive))
  | abort hlive kept refused =>
    exact hh.answered rfl refused (hzero hlive) rfl (hbodies (hzero hlive))
  | @install m token attempt s answer phase version row advances answered =>
    have hlive : p.live = true := by rw [live, phase]
    have hmeta : p.metadata = some m := by rw [metadata, phase]
    refine hh.install hrequest (hok.unanswered hlive) (hok.read (.inr (by simp [hmeta]))) ?_
      (hok.staged m hmeta) row answered
    intro hcond
    rw [version]
    exact hok.storing m token attempt phase hcond
  | reread phase =>
    have hlive : p.live = true := by rw [live, phase]
    exact hh.quiet (List.append_nil _).symm (by simp) (by simp) (by simp) (hl.get_row _)
      (hbodies (hzero hlive))
  | discard phase kept =>
    exact hh.quiet (List.append_nil _).symm (by simp) (by simp) (by simp) rfl
      (hbodies (hok.discarded phase))

end TieredPut.Effect

/-! ## All requests of the key -/

def TieredLabel.isEngine : TieredLabel → Bool
  | .startPut _ _ | .put _ _ | .startDelete _ _ _ | .delete _ _ => true
  | .forwardPut _ | .startMutation _ _ _ | .mutation _ _ | .readMarker _ _ | .registerRetier _
  | .retier _ _ | .startUpgrade _ _ | .upgrade _ _ => false

def TieredWorld.requests (w : TieredWorld σ) (i : ℕ) : Option PutRequest :=
  (w.puts i).map TieredPut.request

theorem TieredWorld.requests_congr {w w' : TieredWorld σ} (h : w'.puts = w.puts) :
    w'.requests = w.requests := by
  funext k
  rw [requests, h, requests]

variable (store newBodyRef) in
structure Linear (w : TieredWorld σ) : Prop where
  put : ∀ i p, w.puts i = some p → PutOk store newBodyRef w.shared i p
  idle : ∀ i, w.puts i = none → ∀ e ∈ w.shared.log, e.putId ≠ some i
  history : History store newBodyRef w.requests w.shared

theorem History.startPut {requests : ℕ → Option PutRequest} {r : PutRequest}
    (hh : History store newBodyRef requests sh) (hidle : ∀ e ∈ sh.log, e.putId ≠ some i) :
    History store newBodyRef (Function.update requests i (some r)) sh := by
  have hold : ∀ {k e}, e ∈ sh.log → e.putId = some k →
      Function.update requests i (some r) k = requests k := by
    intro k e he hid
    apply Function.update_of_ne
    rintro rfl
    exact hidle e he hid
  constructor
  · intro k etag hmem
    rw [hold hmem rfl]
    exact hh.stored k etag hmem
  · exact hh.refused
  · intro k l r' d v d' v' hr hinm hpair
    rw [hold (hpair.subset (by simp) : TierEvent.installed l d' v' ∈ sh.log) rfl] at hr
    exact hh.separated k l r' d v d' v' hr hinm hpair
  · exact hh.visible

namespace Linear

variable {w w' : TieredWorld σ}

theorem startPut (hw : Linear store newBodyRef w) (hnone : w.puts i = none)
    (hphase : p.phase = .routing) (hshared : w'.shared = w.shared)
    (hputs : w'.puts = Function.update w.puts i (some p)) : Linear store newBodyRef w' := by
  constructor
  · intro k q hq
    rw [hputs] at hq
    rw [hshared]
    rcases update_eq_some_cases hq with ⟨rfl, rfl⟩ | hq
    · have hidle := hw.idle k hnone
      constructor
      case unread => exact fun _ => hidle
      case unanswered => exact fun _ e he hid => absurd hid (hidle e he)
      all_goals simp [TieredPut.token, TieredPut.metadata, hphase]
    · exact hw.put k q hq
  · intro k hk
    rw [hputs] at hk
    rw [hshared]
    exact hw.idle k (ne_of_update_eq_none hk).2
  · have hrequests : w'.requests = Function.update w.requests i (some p.request) := by
      funext k
      rw [TieredWorld.requests, hputs]
      by_cases hk : k = i
      · subst hk
        simp
      · simp [Function.update_of_ne hk, TieredWorld.requests]
    rw [hshared, hrequests]
    exact hw.history.startPut (hw.idle i hnone)

theorem putStep (hl : store.Lawful) (hrefs : FreshRefs newBodyRef) (hw : Linear store newBodyRef w)
    (hp : w.puts i = some p) (heffect : p.Effect store newBodyRef i w.shared sh' p')
    (hshared : w'.shared = sh') (hputs : w'.puts = Function.update w.puts i (some p')) :
    Linear store newBodyRef w' := by
  have hpasses := heffect.passes hl hrefs
  have hok := hw.put i p hp
  subst hshared
  constructor
  · intro k q hq
    rw [hputs] at hq
    by_cases hk : k = i
    · subst hk
      rw [Function.update_self, Option.some.injEq] at hq
      rw [← hq]
      exact heffect.putOk hl hrefs hw.history hok
    · rw [Function.update_of_ne hk] at hq
      exact hpasses.put (fun heq => hk (Option.some.inj heq).symm) (hw.put k q hq)
  · intro k hk e he
    rw [hputs] at hk
    obtain ⟨hki, hk⟩ := ne_of_update_eq_none hk
    exact fun hid => hw.idle k hk e (hpasses.mem_log (by simpa using Ne.symm hki) e he hid) hid
  · have hrequests : w'.requests = w.requests := by
      funext k
      rw [TieredWorld.requests, TieredWorld.requests, hputs]
      by_cases hk : k = i
      · subst hk
        simp [hp, heffect.request]
      · rw [Function.update_of_ne hk]
    have hrequest : w.requests i = some p.request := by simp [TieredWorld.requests, hp]
    rw [hrequests]
    exact heffect.history hl hrefs hrequest hw.history hok

theorem removal (hw : Linear store newBodyRef w) {d : ℕ} {s : σ}
    (hlt : store.version w.shared.store < store.version s)
    (hshared : w'.shared =
      ({ w.shared with store := s } : Tier σ).emit (.removed d (store.row w.shared.store)))
    (hputs : w'.puts = w.puts) : Linear store newBodyRef w' := by
  have hpasses : Passes store newBodyRef none w.shared w'.shared := by
    rw [hshared]
    refine ⟨.of_lt hlt, ⟨[.removed d _], rfl, by simp [TierEvent.putId], ?_⟩, fun _ _ _ h => h⟩
    intro _ _ _
    exact hlt
  constructor
  · intro k q hq
    rw [hputs] at hq
    exact hpasses.put nofun (hw.put k q hq)
  · intro k hk e he
    rw [hputs] at hk
    exact fun hid => hw.idle k hk e (hpasses.mem_log nofun e he hid) hid
  · rw [TieredWorld.requests_congr hputs]
    exact hw.history.removal hshared

theorem congr (hw : Linear store newBodyRef w) (hshared : w'.shared = w.shared)
    (hputs : w'.puts = w.puts) : Linear store newBodyRef w' := by
  constructor
  · rw [hputs, hshared]
    exact hw.put
  · rw [hputs, hshared]
    exact hw.idle
  · rw [TieredWorld.requests_congr hputs, hshared]
    exact hw.history

variable {cfg : TieredConfig} {lib : EngineLib}

theorem preserved (hl : store.Lawful) (hrefs : FreshRefs newBodyRef) (w : TieredWorld σ)
    (l : TieredLabel) (w' : TieredWorld σ) (hw : Linear store newBodyRef w)
    (hengine : l.isEngine = true) (hstep : w.step store cfg lib newBodyRef l = some w') :
    Linear store newBodyRef w' := by
  cases TieredWorld.stepped hstep with
  | startPut unused free routing => exact hw.startPut unused routing rfl rfl
  | put found step =>
    have heffect := TieredPut.step_effect hl (hw.put _ _ found).token_pos step
    exact hw.putStep hl hrefs found heffect (by simp) (by simp)
  | deleteHere | deleteUpstream => exact hw.congr rfl rfl
  | delete found step =>
    rcases EngineDelete.step_cases hl step with hsame | ⟨s, -, hlt, hsh⟩
    · exact hw.congr (by simp [hsame]) (by simp)
    · exact hw.removal hlt ((TieredWorld.releaseRetierWrite_shared _ _ _).trans hsh) (by simp)
  | forwardPut | startMutation | mutation | readMarker | registered | unregistered | retier
    | startUpgrade | upgrade => cases hengine

theorem initial (hputs : ∀ i, w.puts i = none) (hlog : w.shared.log = []) :
    Linear store newBodyRef w := by
  constructor
  · intro i p hp
    rw [hputs i] at hp
    cases hp
  · simp [hlog]
  · constructor <;> simp [hlog]

end Linear

/-! A race: two requests create the object, one of them loses; a DELETE lets a third
create it anew, and the fourth replaces what the third stored. -/

def sampleTiered : TieredConfig := { sampleConfig with }

def engineLib : EngineLib := { plainLib with
  md5 := id
  decodeBase64 := some
  decodeHex := some }

def sampleRef (i : ℕ) : Bytes := List.replicate (i + 1) (byte 'r')

theorem etagKeyComponent_sampleRef (i : ℕ) : etagKeyComponent (sampleRef i) = sampleRef i := by
  have hweak : hasPrefix (sampleRef i) (ascii "W/") = false := rfl
  have hhead : ∀ l : Bytes, (byte 'r' :: l).dropWhile (· == byte '"') = byte 'r' :: l := fun _ => rfl
  have hquotes : trimQuotes (sampleRef i) = sampleRef i := by
    simp only [trimQuotes, sampleRef, List.replicate_succ, hhead]
    rw [← List.replicate_succ, List.reverse_replicate, List.replicate_succ, hhead,
      ← List.replicate_succ, List.reverse_replicate]
  simp only [etagKeyComponent, hweak, hquotes, Bool.false_eq_true, if_false]

theorem sampleRef_fresh : FreshRefs sampleRef where
  nonempty i := by simp [sampleRef]
  injective i k h := by
    rw [etagKeyComponent_sampleRef, etagKeyComponent_sampleRef] at h
    have hlength := congrArg List.length h
    simpa [sampleRef] using hlength

def samplePut (name value body : String) : TieredPut where
  request :=
    { request := clientRequest "PUT" "/bucket/key" "" (Header.empty.set (ascii name) (ascii value))
      contentLength := body.length
      body := ⟨ascii body, .eof⟩ }
  auth := .validated

def wholeUpload : Upload := ⟨[⟨64, ⟨64, true⟩⟩], .stored, 0⟩

def emptyTier : TieredWorld (Cell Row) where
  shared := { store := { row := none, stamp := 0 }, object := none, nextId := 1, bodies := [], log := [] }

def createRace : List TieredLabel :=
  [.startPut 0 (samplePut "If-None-Match" "*" "x"), .startPut 1 (samplePut "If-None-Match" "*" "y"),
    .put 0 (.route false), .put 1 (.route false), .put 0 (.upload wholeUpload),
    .put 1 (.upload wholeUpload), .put 0 .proceed, .put 1 .proceed,
    .startDelete 0 0 true, .delete 0 .proceed, .delete 0 .proceed,
    .startPut 2 (samplePut "If-None-Match" "*" "z"), .put 2 (.route false),
    .put 2 (.upload wholeUpload), .put 2 .proceed,
    .startPut 3 (samplePut "If-Match" "\"7a\"" "w"), .put 3 (.route false), .put 3 .proceed,
    .put 3 (.upload wholeUpload), .put 3 .proceed]

end TagGateway.Proxy
