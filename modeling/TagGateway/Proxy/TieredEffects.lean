import TagGateway.Proxy.TieredProtocol

/-!
# What a step can do in tiered mode

One lemma for each process of the local tier says everything its steps can do to
the shared state and where they lead. The invariants are derived from these effects.
-/
namespace TagGateway.Proxy

open Foundation Cache

universe u

variable {σ : Type u} {store : VersionedStore σ Row}

namespace Tier

variable (h : store.Lawful) (sh : Tier σ)
include h

theorem getMetaWithVersion_eq : sh.getMetaWithVersion store =
    ({ sh with store := (store.getWithVersion sh.store).1 }, store.row sh.store,
      (store.getWithVersion sh.store).2.2) := by
  rw [← h.get_found]
  rfl

theorem putMetaIfVersion_cases (row : Row) {v : ℕ} (hv : 0 < v) :
    (∃ s, sh.putMetaIfVersion store row v = ({ sh with store := s }, true) ∧
        store.version sh.store = v ∧ store.row s = some row ∧ store.version sh.store < store.version s) ∨
      (sh.putMetaIfVersion store row v = (sh, false) ∧
        (row.metadata.etag ≠ [] → store.version sh.store ≠ v)) := by
  unfold putMetaIfVersion
  by_cases hetag : row.metadata.etag = []
  · rw [if_pos hetag]
    exact .inr ⟨rfl, fun hne => absurd hetag hne⟩
  · rw [if_neg hetag]
    have hcommits := h.put_commits sh.store row v (Nat.ne_of_gt hv)
    rcases h.put_cases sh.store row v with ⟨hw, hrow, hlt⟩ | ⟨hm, hs⟩
    · left
      refine ⟨(store.putIfVersion sh.store row v).1, ?_, hcommits.mp hw, hrow, hlt⟩
      simp only [CasCoordinator.putMeta]
      generalize store.putIfVersion sh.store row v = reply at hw ⊢
      obtain ⟨s, r⟩ := reply
      subst hw
      rfl
    · right
      constructor
      · simp only [CasCoordinator.putMeta]
        generalize store.putIfVersion sh.store row v = reply at hm hs ⊢
        obtain ⟨s, r⟩ := reply
        subst hm hs
        rfl
      · intro _ heq
        rw [hcommits.mpr heq] at hm
        cases hm

theorem deleteMetaIfVersion_cases {v : ℕ} (hv : 0 < v) :
    (∃ s, (sh.deleteMetaIfVersion store v).1 = { sh with store := s } ∧
        store.version sh.store = v ∧ store.row s = none ∧ store.version sh.store < store.version s) ∨
      ((sh.deleteMetaIfVersion store v).1 = sh ∧ store.version sh.store ≠ v) := by
  have hcurrent : (store.deleteIfVersion sh.store v).2 = .deleted ↔ store.version sh.store = v := by
    constructor
    · intro hd
      by_contra hne
      exact h.delete_stale sh.store v (Nat.ne_of_gt hv) (Ne.symm hne) hd
    · rintro rfl
      exact h.delete_current sh.store
  unfold deleteMetaIfVersion CasCoordinator.deleteMetaIfVersion
  rcases h.delete_cases sh.store v with ⟨hd, hrow, hlt⟩ | ⟨c, hc, hs⟩
  · left
    refine ⟨(store.deleteIfVersion sh.store v).1, ?_, hcurrent.mp hd, hrow, hlt⟩
    generalize store.deleteIfVersion sh.store v = reply at hd ⊢
    obtain ⟨s, r⟩ := reply
    subst hd
    rfl
  · right
    have hne : store.version sh.store ≠ v := by
      intro heq
      rw [hcurrent.mpr heq] at hc
      cases hc
    refine ⟨?_, hne⟩
    generalize store.deleteIfVersion sh.store v = reply at hc hs ⊢
    obtain ⟨s, r⟩ := reply
    subst hc hs
    rfl

end Tier

namespace PutRequest

/-- The preconditions of the request hold for an object with this tag, or for no
object. -/
def PreconditionHolds (r : PutRequest) (etag : Option Bytes) : Prop :=
  (r.ifMatch ≠ [] → ∃ tag, etag = some tag ∧
    (r.ifMatch = ascii "*" ∨ etagListed r.ifMatch tag true = true)) ∧
  (r.ifNoneMatch ≠ [] → ∀ tag, etag = some tag →
    r.ifNoneMatch ≠ ascii "*" ∧ etagListed r.ifNoneMatch tag false = false)

theorem preconditionHolds_none (r : PutRequest) : r.PreconditionHolds none ↔ r.ifMatch = [] := by
  simp [PreconditionHolds]

instance (r : PutRequest) : (etag : Option Bytes) → Decidable (r.PreconditionHolds etag)
  | none => decidable_of_iff (r.ifMatch = []) r.preconditionHolds_none.symm
  | some tag => decidable_of_iff
      ((r.ifMatch ≠ [] → r.ifMatch = ascii "*" ∨ etagListed r.ifMatch tag true = true) ∧
        (r.ifNoneMatch ≠ [] → r.ifNoneMatch ≠ ascii "*" ∧
          etagListed r.ifNoneMatch tag false = false)) (by simp [PreconditionHolds])

/-- The engine lets through exactly the requests whose preconditions hold. -/
theorem checkPreconditions_eq_none_iff (r : PutRequest) (visible : Option CachedObjectMeta) :
    r.checkPreconditions visible = none ↔
      r.PreconditionHolds (visible.map CachedObjectMeta.etag) := by
  cases visible with
  | none => simp [checkPreconditions, preconditionHolds_none]
  | some m =>
    simp only [checkPreconditions, PreconditionHolds, Option.map_some, Option.some.injEq,
      exists_eq_left', forall_eq']
    by_cases hmatch : r.ifMatch ≠ [] ∧ r.ifMatch ≠ ascii "*" ∧
        m.matchesETagHeader r.ifMatch true = false
    · have hlisted : etagListed r.ifMatch m.etag true = false := hmatch.2.2
      rw [if_pos hmatch]
      constructor
      · nofun
      · intro hholds
        exact absurd (hholds.1 hmatch.1) (by simp [hmatch.2.1, hlisted])
    rw [if_neg hmatch]
    by_cases hnone : r.ifNoneMatch ≠ [] ∧
        (r.ifNoneMatch = ascii "*" ∨ m.matchesETagHeader r.ifNoneMatch false = true)
    · rw [if_pos hnone]
      constructor
      · nofun
      · intro hholds
        obtain ⟨hstar, hlisted⟩ := hholds.2 hnone.1
        exact absurd hnone.2 (by simp [hstar, CachedObjectMeta.matchesETagHeader, hlisted])
    · rw [if_neg hnone]
      refine ⟨fun _ => ⟨fun him => ?_, fun hinm => ?_⟩, fun _ => rfl⟩
      · by_contra hne
        rw [not_or, Bool.not_eq_true] at hne
        exact hmatch ⟨him, hne⟩
      · by_contra hne
        rw [not_and_or, not_not, Bool.not_eq_false] at hne
        exact hnone ⟨hinm, hne⟩

end PutRequest

theorem EngineDelete.step_cases (h : store.Lawful) {d : ℕ} {sh sh' : Tier σ} {p p' : EngineDelete}
    {input : DeleteInput} (hstep : p.step store d sh input = some (sh', p')) :
    sh' = sh ∨ ∃ s, store.row s = none ∧ store.version sh.store < store.version s ∧
      sh' = ({ sh with store := s } : Tier σ).emit (.removed d (store.row sh.store)) := by
  have hattempt : ∀ loop, (attempt store d sh loop).1 = sh ∨
      ∃ s, store.row s = none ∧ store.version sh.store < store.version s ∧
        (attempt store d sh loop).1 =
          ({ sh with store := s } : Tier σ).emit (.removed d (store.row sh.store)) := by
    intro loop
    unfold attempt
    rcases CasCoordinator.deleteMetaAttempt_cases h sh.store loop with ⟨hdone, hrow, hlt⟩ | ⟨hne, hs⟩
    · refine .inr ⟨_, hrow, hlt, ?_⟩
      generalize CasCoordinator.deleteMetaAttempt store sh.store loop = reply at hdone ⊢
      obtain ⟨s, r⟩ := reply
      subst hdone
      rfl
    · left
      generalize CasCoordinator.deleteMetaAttempt store sh.store loop = reply at hne hs ⊢
      obtain ⟨s, r⟩ := reply
      subst hs
      cases r with
      | done => exact absurd rfl hne
      | again next => rfl
      | exhausted => rfl
  cases p with
  | finished removed => cases input <;> cases hstep
  | deleting loop =>
    cases input with
    | proceed =>
      have hcases := hattempt loop
      simp only [step] at hstep
      generalize attempt store d sh loop = reply at hcases hstep
      obtain ⟨s, r⟩ := reply
      cases r
      all_goals
        cases hstep
        exact hcases
    | storeError applied =>
      cases hstep
      cases applied with
      | false => exact .inl rfl
      | true => exact hattempt loop

namespace TieredPut

variable (store) (newBodyRef : ℕ → Bytes)

def live (p : TieredPut) : Bool :=
  match p.phase with
  | .discarding | .finished => false
  | .routing | .forwarded | .probing _ _ | .uploading _ _ | .storing _ _ _ | .rereading _ _ => true

def token (p : TieredPut) : Option ℕ :=
  match p.phase with
  | .probing _ token | .uploading token _ | .storing _ token _ => some token
  | .routing | .forwarded | .rereading _ _ | .discarding | .finished => none

def metadata (p : TieredPut) : Option CachedObjectMeta :=
  match p.phase with
  | .storing m _ _ | .rereading m _ => some m
  | .routing | .forwarded | .probing _ _ | .uploading _ _ | .discarding | .finished => none

def readToken (i : ℕ) (sh : Tier σ) : Tier σ :=
  ({ sh with store := (store.getWithVersion sh.store).1 } : Tier σ).emit
    (.tokenRead i (store.row sh.store) (store.getWithVersion sh.store).2.2)

/-- A row whose body was staged by PUT `i`. -/
structure StagedBy (i : ℕ) (bodies : List Bytes) (m : CachedObjectMeta) : Prop where
  ref : m.bodyRef = newBodyRef i
  tier : m.bodyUpstream = false
  etag : m.etag ≠ []
  body : etagKeyComponent (newBodyRef i) ∈ bodies

/-- Everything a step of PUT `i` can do. -/
inductive Effect (i : ℕ) (sh : Tier σ) (p : TieredPut) : Tier σ → TieredPut → Prop
  | forward (phase : p.phase = .routing) : Effect i sh p sh { p with phase := .forwarded }
  | refuse {answer : PutAnswer} (live : p.live = true) (refused : ∀ etag, answer ≠ .stored etag) :
      Effect i sh p (sh.emit (.answered i answer)) { p with phase := .finished }
  | readForward (phase : p.phase = .routing) :
      Effect i sh p (readToken store i sh) { p with phase := .forwarded }
  | readRefuse {code : S3Error} (phase : p.phase = .routing) :
      Effect i sh p ((readToken store i sh).emit (.answered i (.refused code)))
        { p with phase := .finished }
  | readProbe {row : Row} (phase : p.phase = .routing) (conditional : p.request.conditional = true)
      (found : store.row sh.store = some row) (tier : row.metadata.bodyUpstream = false) :
      Effect i sh p (readToken store i sh)
        { p with phase := .probing row (store.getWithVersion sh.store).2.2 }
  | readAccept {size : ℤ} (phase : p.phase = .routing)
      (met : p.request.conditional = true → store.row sh.store = none ∧
        p.request.checkPreconditions none = none) :
      Effect i sh p (readToken store i sh)
        { p with phase := .uploading (store.getWithVersion sh.store).2.2 size }
  | accept {row : Row} {token : ℕ} {size : ℤ} (phase : p.phase = .probing row token)
      (met : p.request.checkPreconditions
        (if sh.entryServable row.metadata then some row.metadata else none) = none) :
      Effect i sh p sh { p with phase := .uploading token size }
  | stage {token : ℕ} {size : ℤ} {m : CachedObjectMeta} (phase : p.phase = .uploading token size)
      (staged : StagedBy newBodyRef i (etagKeyComponent (newBodyRef i) :: sh.bodies) m) :
      Effect i sh p { sh with bodies := etagKeyComponent (newBodyRef i) :: sh.bodies }
        { p with phase := .storing m token 0 }
  | abort {answer : PutAnswer} {bodies : List Bytes} (live : p.live = true)
      (kept : bodies = sh.bodies ∨ bodies = etagKeyComponent (newBodyRef i) :: sh.bodies)
      (refused : ∀ etag, answer ≠ .stored etag) :
      Effect i sh p (({ sh with bodies := bodies } : Tier σ).emit (.answered i answer))
        { p with phase := .discarding }
  | install {m : CachedObjectMeta} {token attempt : ℕ} {s : σ} {answer : PutAnswer}
      (phase : p.phase = .storing m token attempt) (version : store.version sh.store = token)
      (row : store.row s = some ⟨m, sh.nextId⟩) (advances : store.version sh.store < store.version s)
      (answered : answer = .stored m.etag ∨ answer = .failed) :
      Effect i sh p
        ((({ sh with store := s, nextId := sh.nextId + 1 } : Tier σ).emit
          (.installed i (store.row sh.store) (store.version sh.store))).emit (.answered i answer))
        { p with phase := .finished }
  | retry {m : CachedObjectMeta} {token attempt : ℕ} (phase : p.phase = .storing m token attempt)
      (unconditional : p.request.conditional = false) :
      Effect i sh p sh { p with phase := .rereading m attempt }
  | reread {m : CachedObjectMeta} {attempt : ℕ} (phase : p.phase = .rereading m attempt) :
      Effect i sh p { sh with store := (store.getWithVersion sh.store).1 }
        { p with phase := .storing m (store.getWithVersion sh.store).2.2 (attempt + 1) }
  | discard {bodies : List Bytes} (phase : p.phase = .discarding)
      (kept : bodies = sh.bodies ∨ bodies = sh.bodies.filter (· ≠ etagKeyComponent (newBodyRef i))) :
      Effect i sh p { sh with bodies := bodies } { p with phase := .finished }

variable {store newBodyRef} {cfg : TieredConfig} {lib : EngineLib} {i : ℕ} {sh : Tier σ}
  {p : TieredPut}

section Cases

variable (cfg i sh p)

theorem accept_cases (token : ℕ) :
    (∃ code, p.accept cfg i sh token = p.finish i sh (.refused code)) ∨
      ∃ size, p.accept cfg i sh token = (sh, { p with phase := .uploading token size }) := by
  unfold accept
  split
  · exact .inl ⟨_, rfl⟩
  · split
    · exact .inl ⟨_, rfl⟩
    · exact .inr ⟨_, rfl⟩

theorem judge_cases (visible : Option CachedObjectMeta) (token : ℕ) :
    (∃ code, p.judge cfg i sh visible token = p.finish i sh (.refused code)) ∨
      p.request.checkPreconditions visible = none ∧
        ∃ size, p.judge cfg i sh visible token = (sh, { p with phase := .uploading token size }) := by
  unfold judge
  cases hcheck : p.request.checkPreconditions visible with
  | some code => exact .inl ⟨code, rfl⟩
  | none =>
    rcases accept_cases cfg i sh p token with hrefused | hadmitted
    · exact .inl hrefused
    · exact .inr ⟨rfl, hadmitted⟩

theorem handleOriginlessPut_cases {row : Option Row} (token : ℕ)
    (hrow : p.request.conditional = true → ∀ r ∈ row, r.metadata.bodyUpstream = false) :
    (∃ code, p.handleOriginlessPut cfg i sh row token = p.finish i sh (.refused code)) ∨
      (∃ r, p.request.conditional = true ∧ row = some r ∧ r.metadata.bodyUpstream = false ∧
        p.handleOriginlessPut cfg i sh row token = (sh, { p with phase := .probing r token })) ∨
      (p.request.conditional = true → row = none ∧ p.request.checkPreconditions none = none) ∧
        ∃ size, p.handleOriginlessPut cfg i sh row token =
          (sh, { p with phase := .uploading token size }) := by
  unfold handleOriginlessPut
  by_cases hcond : p.request.conditional = true
  · rw [if_pos hcond]
    cases row with
    | none =>
      rcases judge_cases cfg i sh p none token with hrefused | ⟨hmet, hadmitted⟩
      · exact .inl hrefused
      · exact .inr (.inr ⟨fun _ => ⟨rfl, hmet⟩, hadmitted⟩)
    | some r =>
      have hlocal := hrow hcond r rfl
      dsimp only
      rw [if_neg (by simp [hlocal])]
      exact .inr (.inl ⟨r, hcond, rfl, hlocal, rfl⟩)
  · rw [if_neg hcond]
    rcases accept_cases cfg i sh p token with hrefused | hadmitted
    · exact .inl hrefused
    · exact .inr (.inr ⟨fun hc => absurd hc hcond, hadmitted⟩)

end Cases

theorem route_effect (h : store.Lawful) (hphase : p.phase = .routing) (overBudget : Bool) :
    Effect store newBodyRef i sh p (p.route store cfg lib i sh overBudget).1
      (p.route store cfg lib i sh overBudget).2 := by
  have hlive : p.live = true := by rw [live, hphase]
  unfold route
  split
  · exact .forward hphase
  split
  · split
    · exact .refuse hlive (by simp)
    · exact .forward hphase
  · rw [sh.getMetaWithVersion_eq h]
    dsimp only
    split
    · exact .readForward hphase
    · rename_i hmarker
      split
      · exact .readRefuse hphase
      · have hrow : p.request.conditional = true → ∀ r ∈ store.row sh.store,
            r.metadata.bodyUpstream = false := by
          intro hcond r hr
          rw [hr, hcond] at hmarker
          simpa using hmarker
        rcases handleOriginlessPut_cases cfg i (readToken store i sh) p
          (store.getWithVersion sh.store).2.2 hrow with
            ⟨code, heq⟩ | ⟨r, hcond, hfound, htier, heq⟩ | ⟨hmet, size, heq⟩
        · rw [readToken] at heq
          rw [heq]
          exact .readRefuse hphase
        · rw [readToken] at heq
          rw [heq]
          exact .readProbe hphase hcond hfound htier
        · rw [readToken] at heq
          rw [heq]
          exact .readAccept hphase hmet

theorem receive_ok {size : ℤ} {wantMD5 : Option Bytes} {up : Upload} {m : CachedObjectMeta}
    (hok : p.receive cfg lib newBodyRef i size wantMD5 up = .ok m) :
    up.reply = .stored ∧ m.bodyRef = newBodyRef i ∧ m.bodyUpstream = false ∧ m.etag ≠ [] := by
  unfold receive at hok
  dsimp only at hok
  split at hok
  · rename_i hreply
    refine ⟨hreply, ?_⟩
    unfold checkBody at hok
    split at hok
    · cases hok
    split at hok
    · cases hok
    split at hok
    · cases hok
    · cases hok
      exact ⟨rfl, rfl, by simp [storedMeta, ascii]⟩
  all_goals cases hok

theorem receive_error {size : ℤ} {wantMD5 : Option Bytes} {up : Upload} {answer : PutAnswer}
    (herror : p.receive cfg lib newBodyRef i size wantMD5 up = .error answer) (etag : Bytes) :
    answer ≠ .stored etag := by
  rintro rfl
  unfold receive at herror
  dsimp only at herror
  split at herror
  · unfold checkBody at herror
    split_ifs at herror
    all_goals cases herror
  all_goals cases herror

theorem upload_effect {token : ℕ} {size : ℤ} (hphase : p.phase = .uploading token size)
    (up : Upload) :
    Effect store newBodyRef i sh p (p.upload cfg lib newBodyRef i sh token size up).1
      (p.upload cfg lib newBodyRef i sh token size up).2 := by
  have hlive : p.live = true := by rw [live, hphase]
  unfold upload
  split
  · exact .refuse hlive (by simp)
  · dsimp only
    split
    · rename_i answer hreceive
      split
      · exact .abort hlive (.inr rfl) (receive_error hreceive)
      · exact .abort hlive (.inl rfl) (receive_error hreceive)
    · rename_i m hreceive
      obtain ⟨hreply, href, htier, hetag⟩ := receive_ok hreceive
      rw [if_pos hreply]
      exact .stage hphase ⟨href, htier, hetag, List.mem_cons_self⟩

theorem install_cases (h : store.Lawful) (i : ℕ) (sh : Tier σ) (m : CachedObjectMeta) {token : ℕ}
    (hpos : 0 < token) :
    (∃ s, store.version sh.store = token ∧ store.row s = some ⟨m, sh.nextId⟩ ∧
        store.version sh.store < store.version s ∧
        install store i sh m token = (({ sh with store := s, nextId := sh.nextId + 1 } : Tier σ).emit
          (.installed i (store.row sh.store) (store.version sh.store)), true)) ∨
      install store i sh m token = (sh, false) := by
  unfold install
  dsimp only
  rcases sh.putMetaIfVersion_cases h ⟨m, sh.nextId⟩ hpos with
    ⟨s, heq, hversion, hrow, hlt⟩ | ⟨heq, -⟩
  · rw [heq]
    exact .inl ⟨s, hversion, hrow, hlt, rfl⟩
  · rw [heq]
    exact .inr rfl

theorem step_effect (h : store.Lawful) {r : Tier σ × TieredPut} {input : TieredPutInput}
    (hpos : ∀ t, p.token = some t → 0 < t)
    (hstep : p.step store cfg lib newBodyRef i sh input = some r) :
    Effect store newBodyRef i sh p r.1 r.2 := by
  unfold step at hstep
  split at hstep
  · rename_i hphase
    cases hstep
    exact route_effect h hphase _
  · rename_i hphase
    split at hstep
    · cases hstep
      exact .refuse (by rw [live, hphase]) (by simp)
    · cases hstep
  · rename_i row token hphase
    cases hstep
    rcases judge_cases cfg i sh p
      (if sh.entryServable row.metadata then some row.metadata else none) token with
        ⟨code, heq⟩ | ⟨hmet, size, heq⟩
    · rw [heq]
      exact .refuse (by rw [live, hphase]) (by simp)
    · rw [heq]
      exact .accept hphase hmet
  · rename_i hphase
    cases hstep
    exact .refuse (by rw [live, hphase]) (by simp)
  · rename_i hphase
    cases hstep
    exact .refuse (by rw [live, hphase]) (by simp)
  · rename_i hphase
    cases hstep
    exact upload_effect hphase _
  · rename_i m token attempt hphase
    have hlive : p.live = true := by rw [live, hphase]
    cases hstep
    unfold commit
    rcases install_cases h i sh m (hpos token (by rw [TieredPut.token, hphase]))
      with ⟨s, hversion, hrow, hlt, heq⟩ | heq
    · rw [heq]
      exact .install hphase hversion hrow hlt (.inl rfl)
    · rw [heq]
      dsimp only
      split
      · exact .abort hlive (.inl rfl) (by simp)
      split
      · rename_i hcond _
        exact .retry hphase (by simpa using hcond)
      · exact .abort hlive (.inl rfl) (by simp)
  · rename_i m token attempt applied hphase
    have hlive : p.live = true := by rw [live, hphase]
    cases hstep
    cases applied with
    | false => exact .refuse hlive (by simp)
    | true =>
      rcases install_cases h i sh m (hpos token (by rw [TieredPut.token, hphase]))
        with ⟨s, hversion, hrow, hlt, heq⟩ | heq
      · rw [if_pos rfl, heq]
        exact .install hphase hversion hrow hlt (.inr rfl)
      · rw [if_pos rfl, heq]
        exact .refuse hlive (by simp)
  · rename_i hphase
    rw [sh.getMetaWithVersion_eq h] at hstep
    cases hstep
    exact .reread hphase
  · rename_i hphase
    cases hstep
    exact .abort (by rw [live, hphase]) (.inl rfl) (by simp)
  · rename_i deleted hphase
    cases hstep
    cases deleted with
    | false => exact .discard hphase (.inl rfl)
    | true => exact .discard hphase (.inr rfl)
  · cases hstep

end TieredPut
end TagGateway.Proxy
