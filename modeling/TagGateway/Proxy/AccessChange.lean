import TagGateway.Proxy.ReadAfterWrite
import TagGateway.Proxy.ReadRoute

/-!
# Changes of an object's ACL

A request that changes the ACL is passed through: upstream applies it and its
answer goes to the client. The cached row, whose ACL decides whether anonymous
readers are served, stays as it is. Rows are numbered in the order they are
stored, so that a row stored before a change has a number that is not above the
one reached at the change.
-/
namespace TagGateway.Proxy

open Foundation Cache List

universe u

def Event.isCommit : Event → Bool
  | .committed _ _ => true
  | _ => false

/-- The number of rows stored so far. The visible row is the last of them. -/
def World.entries {σ : Type u} (w : World σ) : ℕ := w.shared.log.countP Event.isCommit

/-- An ACL change on its way. `appliedAt` is the number of rows stored when
upstream applied it. -/
structure AclPut where
  makesPublic : Bool
  appliedAt : Option ℕ := none
  answered : Bool := false
deriving DecidableEq

inductive AnonymousRead where
  | started (r : ReadRequest)
  /-- It found a row it may be served from, the one with this number. -/
  | holding (entry : ℕ)
  | finished
deriving DecidableEq

inductive AclEvent where
  | acked (j : ℕ)
  | found (k entry : ℕ)
  /-- A `200` or `206` from the row. -/
  | served (k entry : ℕ)
deriving DecidableEq

structure AclWorld (σ : Type u) where
  base : World σ
  puts : ℕ → Option AclPut
  reads : ℕ → Option AnonymousRead
  log : List AclEvent

inductive AclLabel where
  | base (l : Label)
  | startAclPut (j : ℕ) (makesPublic : Bool)
  | applyAcl (j : ℕ)
  | respondAcl (j status : ℕ)
  | startRead (k : ℕ) (r : ReadRequest)
  | getMeta (k : ℕ)
  | serve (k : ℕ)
  | leave (k : ℕ)

namespace AclWorld

variable {σ : Type u} (store : VersionedStore σ Row) (cfg : Config) (rcfg : ReadConfig)

/-- The row an anonymous read goes on with, right away or after a revalidation. -/
def afterLookup (w : AclWorld σ) (r : ReadRequest) : AnonymousRead :=
  match lookupRoute rcfg r ((store.row w.base.shared.store).map Row.metadata) with
  | .serve _ _ | .revalidate _ => .holding w.base.entries
  | .forward _ | .coalesce => .finished

def foundEvents (k : ℕ) : AnonymousRead → List AclEvent
  | .holding entry => [.found k entry]
  | _ => []

def step (w : AclWorld σ) : AclLabel → Option (AclWorld σ)
  | .base l => (w.base.step store cfg l).map fun base => { w with base := base }
  | .startAclPut j makesPublic =>
    if w.puts j = none then
      some { w with puts := Function.update w.puts j (some { makesPublic := makesPublic }) }
    else none
  | .applyAcl j => (w.puts j).bind fun p =>
      if p.appliedAt = none then
        some { w with
          puts := Function.update w.puts j (some { p with appliedAt := some w.base.entries }) }
      else none
  | .respondAcl j status => (w.puts j).bind fun p =>
      -- upstream reports a success once it has applied the change
      if p.answered = false ∧ (isSuccess status = true → p.appliedAt.isSome = true) then
        some { w with
          puts := Function.update w.puts j (some { p with answered := true })
          log := if isSuccess status then w.log ++ [.acked j] else w.log }
      else none
  | .startRead k r =>
    if w.reads k = none ∧ r.isAnonymousRequest = true ∧ r.hasRepresentationSelectors = false then
      some { w with reads := Function.update w.reads k (some (.started r)) }
    else none
  | .getMeta k =>
    match w.reads k with
    | some (.started r) =>
      let next := w.afterLookup store rcfg r
      some { w with
        reads := Function.update w.reads k (some next), log := w.log ++ foundEvents k next }
    | _ => none
  | .serve k =>
    match w.reads k with
    | some (.holding entry) => some { w with
        reads := Function.update w.reads k (some .finished), log := w.log ++ [.served k entry] }
    | _ => none
  | .leave k =>
    match w.reads k with
    | some (.holding _) => some { w with reads := Function.update w.reads k (some .finished) }
    | _ => none

def start (base : World σ) : AclWorld σ := ⟨base, fun _ => none, fun _ => none, []⟩

/-- A read that was found to hold a row holds a later one, if it still does. -/
def HoldsAfter (w : AclWorld σ) (a : ℕ) : AclEvent → Prop
  | .found k entry => w.reads k = some (.holding entry) → a < entry
  | _ => True

/-- No public row that was stored before the change is visible, or held by an
anonymous read. -/
def ClearedSince (w : AclWorld σ) (a : ℕ) : Prop :=
  (∀ row ∈ store.row w.base.shared.store, row.metadata.isPublicRead = true → a < w.base.entries) ∧
    ∀ e ∈ w.log, w.HoldsAfter a e

/-- The condition on acknowledgements of a change to a non-public ACL. -/
def Withdrawn (w : AclWorld σ) : AclLabel → Prop
  | .respondAcl j status => isSuccess status = true → ∀ p ∈ w.puts j, p.makesPublic = false →
      ∀ a ∈ p.appliedAt, w.ClearedSince store a
  | _ => True

instance (w : AclWorld σ) (a : ℕ) : DecidablePred (w.HoldsAfter a)
  | .found _ _ => inferInstanceAs (Decidable (_ → _))
  | .acked _ | .served _ _ => .isTrue trivial

instance (w : AclWorld σ) (a : ℕ) : Decidable (w.ClearedSince store a) :=
  inferInstanceAs (Decidable (_ ∧ _))

instance (w : AclWorld σ) : DecidablePred (w.Withdrawn store)
  | .respondAcl _ _ => inferInstanceAs (Decidable (_ → ∀ _ ∈ _, _ → ∀ _ ∈ _, _))
  | .base _ | .startAclPut _ _ | .applyAcl _ | .startRead _ _ | .getMeta _ | .serve _
  | .leave _ => .isTrue trivial

end AclWorld

variable {σ : Type u} {store : VersionedStore σ Row} {cfg : Config} {rcfg : ReadConfig}

/-- A row is stored under the next number, or the visible row stays or goes. -/
def Shared.Numbers (store : VersionedStore σ Row) (sh sh' : Shared σ) : Prop :=
  sh'.log.countP Event.isCommit = sh.log.countP Event.isCommit + 1 ∨
    sh'.log.countP Event.isCommit = sh.log.countP Event.isCommit ∧
      (store.row sh'.store = store.row sh.store ∨ store.row sh'.store = none)

namespace Shared.Numbers

variable {sh sh' : Shared σ}

theorem refl (sh : Shared σ) : Shared.Numbers store sh sh := .inr ⟨rfl, .inl rfl⟩

theorem of_settles (hs : Settles store sh sh') : Shared.Numbers store sh sh' :=
  .inr ⟨by rw [hs.log], hs.row⟩

theorem emit (sh : Shared σ) {e : Event} (he : e.isCommit = false) :
    Shared.Numbers store sh (sh.emit e) := by
  refine .inr ⟨?_, .inl rfl⟩
  simp [Shared.emit, he]

theorem of_mutation {j : ℕ} {m m' : Mutation} (heffect : Mutation.Effect store j sh m sh' m') :
    Shared.Numbers store sh sh' := by
  cases heffect with
  | quiet settles _ _ _ => exact of_settles settles
  | apply _ _ => exact .inr ⟨rfl, .inl rfl⟩
  | ack _ _ _ => exact emit sh rfl
  | fence row _ _ _ _ _ =>
    refine .inr ⟨?_, .inr row⟩
    simp [Shared.emit, Event.isCommit]

theorem of_populate (h : store.Lawful) {i : ℕ} {p p' : Populate}
    (heffect : Populate.Effect store cfg i sh p sh' p') : Shared.Numbers store sh sh' := by
  cases heffect with
  | quiet settles _ _ _ _ => exact of_settles settles
  | token _ _ => exact of_settles (.get h sh)
  | send _ => exact emit sh rfl
  | receive _ _ => exact refl sh
  | commit _ _ _ =>
    left
    simp [Shared.emit, Event.isCommit]

end Shared.Numbers

theorem World.step_numbers (h : store.Lawful) {w w' : World σ} {l : Label}
    (hstep : w.step store cfg l = some w') : Shared.Numbers store w.shared w'.shared := by
  cases World.stepped hstep with
  | startMutation | startPopulate => exact .refl _
  | mutation found step => exact .of_mutation (Mutation.step_effect h step)
  | populate found step => exact .of_populate h (Populate.step_effect h step)
  | startLookup | lookup => exact .emit _ rfl
  | @invalidate version => exact .of_settles (.guardedDelete h w.shared version)
  | expire => exact .of_settles (.expire h w.shared)
  | blocks => exact .of_settles (.withBlocks w.shared _)

namespace AclWorld

/-- A change to a non-public ACL was acknowledged; `a` rows had been stored when
it was applied. -/
def Barrier (w : AclWorld σ) (a : ℕ) : Prop :=
  ∃ j p, AclEvent.acked j ∈ w.log ∧ w.puts j = some p ∧ p.makesPublic = false ∧
    p.appliedAt = some a

/-- What acknowledgements order. -/
structure Ordered (store : VersionedStore σ Row) (w : AclWorld σ) : Prop where
  applied_le : ∀ j p a, w.puts j = some p → p.appliedAt = some a → a ≤ w.base.entries
  acked : ∀ j, AclEvent.acked j ∈ w.log → ∃ p a, w.puts j = some p ∧ p.appliedAt = some a
  visible : ∀ a row, w.Barrier a → store.row w.base.shared.store = some row →
    row.metadata.isPublicRead = true → a < w.base.entries
  holding : ∀ a k entry, w.Barrier a → w.reads k = some (.holding entry) → a < entry
  found : ∀ k entry, w.reads k = some (.holding entry) → AclEvent.found k entry ∈ w.log
  served : ∀ j k entry p a, [AclEvent.acked j, AclEvent.served k entry] <+ w.log →
    w.puts j = some p → p.makesPublic = false → p.appliedAt = some a → a < entry

/-- The reads that have not looked up yet are anonymous. -/
def AnonymousOnly (w : AclWorld σ) : Prop :=
  ∀ k r, w.reads k = some (.started r) → r.isAnonymousRequest = true

variable {w w' : AclWorld σ}

theorem AnonymousOnly.step (hanon : w.AnonymousOnly) {l : AclLabel}
    (hstep : w.step store cfg rcfg l = some w') : w'.AnonymousOnly := by
  have hread : ∀ {k next}, (∀ r, next = .started r → r.isAnonymousRequest = true) →
      ∀ k' r, Function.update w.reads k (some next) k' = some (.started r) →
        r.isAnonymousRequest = true := by
    intro k next hnext k' r hr
    rcases update_eq_some_cases hr with ⟨-, rfl⟩ | hr
    · exact hnext r rfl
    · exact hanon k' r hr
  cases l with
  | base l =>
    obtain ⟨b, -, rfl⟩ := Option.map_eq_some_iff.mp hstep
    exact hanon
  | startAclPut j makesPublic =>
    simp only [AclWorld.step] at hstep
    split at hstep
    · cases hstep
      exact hanon
    · cases hstep
  | applyAcl j | respondAcl j status =>
    obtain ⟨p, -, hstep⟩ := Option.bind_eq_some_iff.mp hstep
    split at hstep
    · cases hstep
      exact hanon
    · cases hstep
  | startRead k r =>
    simp only [AclWorld.step] at hstep
    split at hstep
    · rename_i hcond
      cases hstep
      apply hread
      rintro _ ⟨⟩
      exact hcond.2.1
    · cases hstep
  | getMeta k =>
    simp only [AclWorld.step] at hstep
    split at hstep
    · cases hstep
      apply hread
      intro r' hnext
      unfold afterLookup at hnext
      split at hnext <;> cases hnext
    · cases hstep
  | serve k | leave k =>
    simp only [AclWorld.step] at hstep
    split at hstep
    · cases hstep
      exact hread (by simp)
    · cases hstep

namespace Ordered

theorem start (base : World σ) : Ordered store (start base) := by
  constructor
  · rintro j p a ⟨⟩
  · rintro j ⟨⟩
  · rintro a row ⟨j, p, hacked, -⟩
    cases hacked
  · rintro a k entry ⟨j, p, hacked, -⟩
    cases hacked
  · rintro k entry ⟨⟩
  · intro j k entry p a hsub
    cases hsub

theorem base (h : store.Lawful) (ho : Ordered store w) {l : Label} {b : World σ}
    (hstep : w.base.step store cfg l = some b) : Ordered store { w with base := b } := by
  have hnumbers := World.step_numbers h hstep
  have hle : w.base.entries ≤ b.entries := by
    rcases hnumbers with heq | ⟨heq, -⟩
    · exact (Nat.le_succ _).trans heq.ge
    · exact heq.ge
  constructor
  · intro j p a hp ha
    exact (ho.applied_le j p a hp ha).trans hle
  · exact ho.acked
  · intro a row hbarrier hrow hpublic
    rcases hnumbers with heq | ⟨heq, hsame | hnone⟩
    · obtain ⟨j, p, -, hp, -, ha⟩ := hbarrier
      have hbefore := ho.applied_le j p a hp ha
      exact Nat.lt_of_le_of_lt hbefore ((Nat.lt_succ_self _).trans_le heq.ge)
    · exact (ho.visible a row hbarrier (hsame.symm.trans hrow) hpublic).trans_le hle
    · rw [hnone] at hrow
      cases hrow
  · exact ho.holding
  · exact ho.found
  · exact ho.served

theorem put (ho : Ordered store w) {j : ℕ} {p' : AclPut}
    (hle : ∀ a, p'.appliedAt = some a → a ≤ w.base.entries)
    (hkeep : ∀ p a, w.puts j = some p → p.appliedAt = some a →
      p'.appliedAt = some a ∧ p'.makesPublic = p.makesPublic) :
    Ordered store { w with puts := Function.update w.puts j (some p') } := by
  -- an acknowledged change looks the same before
  have hold : ∀ i q a, AclEvent.acked i ∈ w.log →
      Function.update w.puts j (some p') i = some q → q.makesPublic = false →
      q.appliedAt = some a → ∃ p, w.puts i = some p ∧ p.makesPublic = false ∧
        p.appliedAt = some a := by
    intro i q a hacked hq hprivate ha
    rcases update_eq_some_cases hq with ⟨rfl, rfl⟩ | hq
    · obtain ⟨p, a', hp, ha'⟩ := ho.acked i hacked
      obtain ⟨hsame, hpublic⟩ := hkeep p a' hp ha'
      refine ⟨p, hp, hpublic.symm.trans hprivate, ?_⟩
      rw [ha', ← hsame, ha]
    · exact ⟨q, hq, hprivate, ha⟩
  have hbarrier : ∀ a, Barrier { w with puts := Function.update w.puts j (some p') } a →
      w.Barrier a := by
    rintro a ⟨i, q, hacked, hq, hprivate, ha⟩
    obtain ⟨p, hp, hprivate, ha⟩ := hold i q a hacked hq hprivate ha
    exact ⟨i, p, hacked, hp, hprivate, ha⟩
  constructor
  · intro i q a hq ha
    rcases update_eq_some_cases hq with ⟨rfl, rfl⟩ | hq
    · exact hle a ha
    · exact ho.applied_le i q a hq ha
  · intro i hacked
    obtain ⟨p, a, hp, ha⟩ := ho.acked i hacked
    by_cases hi : i = j
    · subst hi
      exact ⟨p', a, Function.update_self .., (hkeep p a hp ha).1⟩
    · exact ⟨p, a, (Function.update_of_ne hi ..).trans hp, ha⟩
  · exact fun a row hb => ho.visible a row (hbarrier a hb)
  · exact fun a k entry hb => ho.holding a k entry (hbarrier a hb)
  · exact ho.found
  · intro i k entry q a hsub hq hprivate ha
    obtain ⟨p, hp, hprivate, ha⟩ := hold i q a (hsub.subset mem_cons_self) hq hprivate ha
    exact ho.served i k entry p a hsub hp hprivate ha

theorem ack (ho : Ordered store w) {j a : ℕ} {p : AclPut} (hp : w.puts j = some p)
    (ha : p.appliedAt = some a) (hclear : p.makesPublic = false → w.ClearedSince store a) :
    Ordered store { w with log := w.log ++ [.acked j] } := by
  have hbarrier : ∀ a', Barrier { w with log := w.log ++ [.acked j] } a' →
      w.Barrier a' ∨ w.ClearedSince store a' := by
    rintro a' ⟨i, q, hacked, hq, hprivate, ha'⟩
    rcases mem_append.mp hacked with hacked | hnew
    · exact .inl ⟨i, q, hacked, hq, hprivate, ha'⟩
    · obtain rfl : i = j := by simpa using hnew
      obtain rfl : p = q := Option.some.inj (hp.symm.trans hq)
      obtain rfl : a = a' := Option.some.inj (ha.symm.trans ha')
      exact .inr (hclear hprivate)
  constructor
  · exact ho.applied_le
  · intro i hacked
    rcases mem_append.mp hacked with hacked | hnew
    · exact ho.acked i hacked
    · obtain rfl : i = j := by simpa using hnew
      exact ⟨p, a, hp, ha⟩
  · intro a' row hb hrow hpublic
    rcases hbarrier a' hb with hb | hclear
    · exact ho.visible a' row hb hrow hpublic
    · exact hclear.1 row hrow hpublic
  · intro a' k entry hb hk
    rcases hbarrier a' hb with hb | hclear
    · exact ho.holding a' k entry hb hk
    · exact hclear.2 _ (ho.found k entry hk) hk
  · exact fun k entry hk => mem_append_left _ (ho.found k entry hk)
  · intro i k entry q a' hsub
    rw [pair_append_of_not_mem (by simp)] at hsub
    exact ho.served i k entry q a' hsub

theorem read (ho : Ordered store w) (k : ℕ) {next : AnonymousRead} (es : List AclEvent)
    (hacked : ∀ j, AclEvent.acked j ∉ es)
    (hhold : ∀ entry, next = .holding entry → AclEvent.found k entry ∈ es ∧
      ∀ a, w.Barrier a → a < entry)
    (hserved : ∀ k' entry, AclEvent.served k' entry ∈ es → ∀ a, w.Barrier a → a < entry) :
    Ordered store { w with
      reads := Function.update w.reads k (some next), log := w.log ++ es } := by
  have hbefore : ∀ j, AclEvent.acked j ∈ w.log ++ es → AclEvent.acked j ∈ w.log := by
    intro j hj
    exact (mem_append.mp hj).resolve_right (hacked j)
  have hbarrier : ∀ a, Barrier { w with
      reads := Function.update w.reads k (some next), log := w.log ++ es } a → w.Barrier a := by
    rintro a ⟨j, p, hj, hp⟩
    exact ⟨j, p, hbefore j hj, hp⟩
  constructor
  · exact ho.applied_le
  · exact fun j hj => ho.acked j (hbefore j hj)
  · exact fun a row hb => ho.visible a row (hbarrier a hb)
  · intro a k' entry hb hk
    rcases update_eq_some_cases hk with ⟨rfl, hnext⟩ | hk
    · exact (hhold entry hnext.symm).2 a (hbarrier a hb)
    · exact ho.holding a k' entry (hbarrier a hb) hk
  · intro k' entry hk
    rcases update_eq_some_cases hk with ⟨rfl, hnext⟩ | hk
    · exact mem_append_right _ (hhold entry hnext.symm).1
    · exact mem_append_left _ (ho.found k' entry hk)
  · intro j k' entry p a hsub hp hprivate ha
    rcases pair_append_cases (hacked j) hsub with hsub | ⟨hj, hmem⟩
    · exact ho.served j k' entry p a hsub hp hprivate ha
    · exact hserved k' entry hmem a ⟨j, p, hj, hp, hprivate, ha⟩

theorem readIdle (ho : Ordered store w) (k : ℕ) {next : AnonymousRead}
    (hidle : ∀ entry, next ≠ .holding entry) :
    Ordered store { w with reads := Function.update w.reads k (some next) } := by
  have hread := ho.read k [] (by simp) (fun entry h => absurd h (hidle entry)) (by simp)
  rwa [List.append_nil] at hread

theorem afterLookup_lt (ho : Ordered store w) {r : ReadRequest}
    (hr : r.isAnonymousRequest = true) {entry a : ℕ}
    (hnext : w.afterLookup store rcfg r = .holding entry) (hb : w.Barrier a) : a < entry := by
  have hauth : r.auth = .notValidated := by
    simp only [ReadRequest.isAnonymousRequest, Bool.and_eq_true, beq_iff_eq] at hr
    exact hr.1
  unfold afterLookup lookupRoute at hnext
  cases hvisible : visibleEntry rcfg r ((store.row w.base.shared.store).map Row.metadata) with
  | none =>
    simp only [hvisible, missRoute] at hnext
    split_ifs at hnext
  | some m =>
    obtain ⟨-, hpublic⟩ := isPublicRead_of_visibleEntry rcfg r hauth hvisible
    obtain ⟨row, hrow, rfl⟩ := Option.map_eq_some_iff.mp (eq_of_visibleEntry rcfg r hvisible)
    have hlt : a < w.base.entries := ho.visible a row hb hrow hpublic
    have hentry : entry = w.base.entries := by
      simp only [hvisible, missRoute] at hnext
      split_ifs at hnext <;> cases hnext <;> rfl
    exact hlt.trans_eq hentry.symm

theorem step (h : store.Lawful) (ho : Ordered store w) (hanon : w.AnonymousOnly) {l : AclLabel}
    (hguard : w.Withdrawn store l) (hstep : w.step store cfg rcfg l = some w') :
    Ordered store w' := by
  cases l with
  | base l =>
    obtain ⟨b, hb, rfl⟩ := Option.map_eq_some_iff.mp hstep
    exact ho.base h hb
  | startAclPut j makesPublic =>
    simp only [AclWorld.step] at hstep
    split at hstep
    · rename_i hnone
      cases hstep
      apply ho.put
      · rintro a ⟨⟩
      · intro p a hp
        rw [hnone] at hp
        cases hp
    · cases hstep
  | applyAcl j =>
    obtain ⟨p, hp, hstep⟩ := Option.bind_eq_some_iff.mp hstep
    split at hstep
    · rename_i hnone
      cases hstep
      apply ho.put
      · rintro a ⟨⟩
        exact Nat.le_refl _
      · intro q a hq ha
        obtain rfl : p = q := Option.some.inj (hp.symm.trans hq)
        rw [hnone] at ha
        cases ha
    · cases hstep
  | respondAcl j status =>
    obtain ⟨p, hp, hstep⟩ := Option.bind_eq_some_iff.mp hstep
    split at hstep
    · rename_i hcond
      cases hstep
      have hput : Ordered store { w with
          puts := Function.update w.puts j (some { p with answered := true }) } := by
        apply ho.put
        · intro a ha
          exact ho.applied_le j p a hp ha
        · intro q a hq ha
          obtain rfl : p = q := Option.some.inj (hp.symm.trans hq)
          exact ⟨ha, rfl⟩
      by_cases hsuccess : isSuccess status = true
      · obtain ⟨a, ha⟩ := Option.isSome_iff_exists.mp (hcond.2 hsuccess)
        rw [if_pos hsuccess]
        apply hput.ack (Function.update_self ..) ha
        intro hprivate
        exact hguard hsuccess p hp hprivate a ha
      · rw [if_neg hsuccess]
        exact hput
    · cases hstep
  | startRead k r =>
    simp only [AclWorld.step] at hstep
    split at hstep
    · cases hstep
      exact ho.readIdle k (by simp)
    · cases hstep
  | getMeta k =>
    simp only [AclWorld.step] at hstep
    split at hstep
    · rename_i r hr
      cases hstep
      apply ho.read
      · intro j
        cases w.afterLookup store rcfg r <;> simp [foundEvents]
      · intro entry hnext
        refine ⟨by simp [hnext, foundEvents], fun a hb => ?_⟩
        exact ho.afterLookup_lt (hanon k r hr) hnext hb
      · intro k' entry
        cases w.afterLookup store rcfg r <;> simp [foundEvents]
    · cases hstep
  | serve k =>
    simp only [AclWorld.step] at hstep
    split at hstep
    · rename_i entry hk
      cases hstep
      refine ho.read k _ (by simp) (by simp) ?_
      intro k' entry' hmem a hb
      obtain ⟨-, rfl⟩ : k' = k ∧ entry' = entry := by simpa using hmem
      exact ho.holding a k entry' hb hk
    · cases hstep
  | leave k =>
    simp only [AclWorld.step] at hstep
    split at hstep
    · cases hstep
      exact ho.readIdle k (by simp)
    · cases hstep

end Ordered
end AclWorld

/-- Along every run in which no success of a change to a non-public ACL is
reported while a public row stored before the change is visible or held: no
anonymous read is served such a row after the change was acknowledged. -/
theorem acl_change_takes_effect (h : store.Lawful) (cfg : Config) (rcfg : ReadConfig)
    {base : World σ} {w : AclWorld σ} {ls : List AclLabel}
    (hguard : Along (AclWorld.step store cfg rcfg) (AclWorld.Withdrawn store) (.start base) ls)
    (hrun : run (AclWorld.step store cfg rcfg) (.start base) ls = some w)
    {j k entry a : ℕ} {p : AclPut} (hp : w.puts j = some p) (hprivate : p.makesPublic = false)
    (happlied : p.appliedAt = some a)
    (hserved : [AclEvent.acked j, AclEvent.served k entry] <+ w.log) : a < entry := by
  have hstep : ∀ (s : AclWorld σ) (l : AclLabel) (s' : AclWorld σ),
      (AclWorld.Ordered store s ∧ s.AnonymousOnly) → s.Withdrawn store l →
      s.step store cfg rcfg l = some s' → AclWorld.Ordered store s' ∧ s'.AnonymousOnly := by
    rintro s l s' ⟨ho, hanon⟩ hg hs
    exact ⟨ho.step h hanon hg hs, hanon.step hs⟩
  have hanon : (AclWorld.start base).AnonymousOnly := by rintro k r ⟨⟩
  obtain ⟨hlast, -⟩ := run_invariant hstep ⟨.start base, hanon⟩ hguard hrun
  exact hlast.served j k entry p a hserved hp hprivate happlied

def anyoneReads : ReadRequest where
  bucket := ascii "bucket"
  key := ascii "key"
  auth := .notValidated

def lookupsOn : ReadConfig where
  cacheEnabled := true
  channelBuffer := 8

def publicRow (i : ℕ) (etag : String) : List AclLabel :=
  [.base (.startPopulate i (.streamFromUpstream true)), .base (.populate i .proceed),
    .base (.populate i .proceed), .base (.populate i (.response (taggedResponse 200 etag "4"))),
    .base (.populate i .proceed)]

def privateAcl (j : ℕ) : List AclLabel := [.startAclPut j false, .applyAcl j, .respondAcl j 200]

def readFromCache (k : ℕ) : List AclLabel := [.startRead k anyoneReads, .getMeta k, .serve k]

def writeThenAcl : List AclLabel :=
  publicRow 0 "a" ++
    [.base (.startMutation 0 .putObject), .base (.mutation 0 .proceed),
      .base (.mutation 0 .proceed), .base (.mutation 0 (.apply (ascii "b"))),
      .base (.mutation 0 (.respond 200 false)), .base (.mutation 0 .proceed)] ++
    privateAcl 0 ++ publicRow 1 "b" ++ readFromCache 0

theorem acl_change_takes_effect_cleared :
    ∃ w, run (AclWorld.step Cell.store sampleConfig lookupsOn) (.start (coldStart []))
        writeThenAcl = some w ∧ w.puts 0 = some ⟨false, some 1, true⟩ ∧
      [AclEvent.acked 0, AclEvent.served 0 2] <+ w.log ∧ 1 < 2 := by
  have hends : ∃ w, run (AclWorld.step Cell.store sampleConfig lookupsOn) (.start (coldStart []))
      writeThenAcl = some w ∧ w.puts 0 = some ⟨false, some 1, true⟩ ∧
      [AclEvent.acked 0, AclEvent.served 0 2] <+ w.log := exists_run_of_any (by decide +kernel)
  obtain ⟨w, hrun, hput, hserved⟩ := hends
  exact ⟨w, hrun, hput, hserved, acl_change_takes_effect Cell.store_lawful sampleConfig lookupsOn
    (by decide +kernel) hrun hput rfl rfl hserved⟩

/-- The ACL change leaves the public row in place, and the next anonymous read is
served from it. -/
theorem acl_change_leaves_public_row :
    ∃ w, run (AclWorld.step Cell.store sampleConfig lookupsOn) (.start (coldStart []))
        (publicRow 0 "a" ++ privateAcl 0 ++ readFromCache 0) = some w ∧
      w.puts 0 = some ⟨false, some 1, true⟩ ∧ w.puts 1 = none ∧
      [AclEvent.acked 0, AclEvent.served 0 1] <+ w.log :=
  exists_run_of_any (by decide +kernel)

end TagGateway.Proxy
