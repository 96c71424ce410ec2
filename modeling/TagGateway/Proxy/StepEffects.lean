import TagGateway.Proxy.KeyProtocol

/-!
# What a step can do

One lemma for each kind of process says everything its steps can do to the
shared state; the invariants are derived from these effects and never look at
the step functions again.
-/
namespace TagGateway.Proxy

open Foundation Cache

universe u

variable {σ : Type u} (store : VersionedStore σ Row)

/-- The row stays or goes, the version does not fall, and nothing else of the
shared state but the blocks moves. -/
structure Settles (sh sh' : Shared σ) : Prop where
  version_le : store.version sh.store ≤ store.version sh'.store
  row : store.row sh'.store = store.row sh.store ∨ store.row sh'.store = none
  object : sh'.object = sh.object
  nextId : sh'.nextId = sh.nextId
  log : sh'.log = sh.log

namespace Settles

variable {store}

theorem refl (sh : Shared σ) : Settles store sh sh := ⟨le_rfl, .inl rfl, rfl, rfl, rfl⟩

theorem withBlocks (sh : Shared σ) (blocks : List BlockKey) :
    Settles store sh { sh with blocks := blocks } := ⟨le_rfl, .inl rfl, rfl, rfl, rfl⟩

theorem withStore {sh : Shared σ} {s : σ} (hv : store.version sh.store ≤ store.version s)
    (hr : store.row s = store.row sh.store ∨ store.row s = none) :
    Settles store sh { sh with store := s } := ⟨hv, hr, rfl, rfl, rfl⟩

variable (h : store.Lawful)
include h

theorem get (sh : Shared σ) :
    Settles store sh { sh with store := (store.getWithVersion sh.store).1 } :=
  withStore (h.get_mono _) (.inl (h.get_row _))

theorem delete (sh : Shared σ) (version : ℕ) :
    Settles store sh { sh with store := (store.deleteIfVersion sh.store version).1 } := by
  refine withStore (h.delete_mono _ _) ?_
  rcases h.delete_cases sh.store version with ⟨-, hrow, -⟩ | ⟨c, -, hs⟩
  · exact .inr hrow
  · exact .inl (by rw [hs])

theorem deleteAttempt (sh : Shared σ) (loop : DeleteLoop) :
    Settles store sh
      { sh with store := (CasCoordinator.deleteMetaAttempt store sh.store loop).1 } := by
  rcases CasCoordinator.deleteMetaAttempt_cases h sh.store loop with ⟨-, hrow, hlt⟩ | ⟨-, hs⟩
  · exact withStore hlt.le (.inr hrow)
  · rw [hs]
    exact refl sh

theorem guardedDelete (sh : Shared σ) (version : ℕ) :
    Settles store sh
      { sh with store := (CasCoordinator.deleteMetaIfVersion store sh.store version).1 } := by
  rw [CasCoordinator.deleteMetaIfVersion_store]
  exact delete h sh version

theorem guardedRead (sh : Shared σ) (etagOf : Row → Bytes) (staleETag : Bytes) :
    Settles store sh
      { sh with
        store := (CasCoordinator.deleteMetaIfETagRead store etagOf staleETag sh.store).1 } := by
  rw [CasCoordinator.deleteMetaIfETagRead_store]
  exact get h sh

theorem expire (sh : Shared σ) :
    Settles store sh { sh with store := store.expire sh.store } :=
  withStore (h.expire_mono _) (.inr (h.expire_row _))

end Settles

namespace Populate

/-- The steps left after a step: none, the same, or all but a first one that
sends nothing. -/
def Shortens (rest rest' : List Op) : Prop :=
  rest' = [] ∨ rest' = rest ∨ ∃ op, op ≠ .send ∧ rest = op :: rest'

/-- Everything a step of populate `i` can do. -/
inductive Effect (cfg : Config) (i : ℕ) (sh : Shared σ) (p : Populate) :
    Shared σ → Populate → Prop
  | quiet {sh' : Shared σ} {p' : Populate} (settles : Settles store sh sh')
      (kind : p'.kind = p.kind) (token : p'.token = p.token) (row : p'.row = p.row)
      (rest : Shortens p.rest p'.rest) : Effect cfg i sh p sh' p'
  | token {rest : List Op} (next : p.rest = .getMetaWithVersion :: rest)
      (admits : p.kind.gate.admits (store.row sh.store) = true) :
      Effect cfg i sh p { sh with store := (store.getWithVersion sh.store).1 }
        { p with rest := rest, token := some (store.getWithVersion sh.store).2.2 }
  | send {rest : List Op} (next : p.rest = .send :: rest) :
      Effect cfg i sh p (sh.emit (.sent i)) { p with rest := rest }
  | receive {rest : List Op} {resp : Response} (next : p.rest = .receive :: rest)
      (answers : sh.answers resp = true) :
      Effect cfg i sh p sh (p.receive cfg sh.object resp rest)
  | commit {t : ℕ} {r : Row} (token : p.token = some t) (row : p.row = some r)
      (written : (store.putIfVersion sh.store r t).2 = .written) :
      Effect cfg i sh p
        (({ sh with store := (store.putIfVersion sh.store r t).1 } : Shared σ).emit
          (.committed i (store.row sh.store))) p.stop

variable {store} (h : store.Lawful)
include h

theorem readToken_effect {cfg : Config} {i : ℕ} {sh : Shared σ} {p : Populate} {rest : List Op}
    (next : p.rest = .getMetaWithVersion :: rest) :
    Effect store cfg i sh p (readToken store sh rest p).1 (readToken store sh rest p).2 := by
  by_cases hgate : p.kind.gate.admits (store.row sh.store)
  · simp only [readToken, CasCoordinator.getMetaWithVersion, h.get_found, hgate, if_true]
    exact .token next hgate
  · simp only [readToken, CasCoordinator.getMetaWithVersion, h.get_found, hgate]
    exact .quiet (.get h sh) rfl rfl rfl (.inl rfl)

theorem commit_effect (cfg : Config) (i : ℕ) (sh : Shared σ) (p : Populate) :
    Effect store cfg i sh p (commit store i sh p).1 (commit store i sh p).2 := by
  cases ht : p.token with
  | none =>
    simp only [commit, ht]
    exact .quiet (.refl sh) rfl rfl rfl (.inl rfl)
  | some t =>
    cases hr : p.row with
    | none =>
      simp only [commit, ht, hr]
      exact .quiet (.refl sh) rfl rfl rfl (.inl rfl)
    | some r =>
      rcases h.put_cases sh.store r t with ⟨hw, -, -⟩ | ⟨hm, hs⟩
      · have hput : store.putIfVersion sh.store r t =
            ((store.putIfVersion sh.store r t).1, .written) := Prod.ext rfl hw
        simp only [commit, ht, hr, CasCoordinator.putMeta]
        rw [hput]
        exact .commit ht hr hw
      · have hput : store.putIfVersion sh.store r t = (sh.store, .mismatch) := Prod.ext hs hm
        simp only [commit, ht, hr, CasCoordinator.putMeta, hput]
        exact .quiet (.refl sh) rfl rfl rfl (.inl rfl)

theorem step_effect {cfg : Config} {i : ℕ} {sh sh' : Shared σ} {p p' : Populate}
    {input : PopulateInput} (hstep : step store cfg i sh p input = some (sh', p')) :
    Effect store cfg i sh p sh' p' := by
  unfold step at hstep
  split at hstep
  · cases hstep
  · cases hstep
    exact .quiet (.refl sh) rfl rfl rfl (.inl rfl)
  · rename_i rest hrest
    rw [Option.some.injEq] at hstep
    rw [show sh' = _ from (congrArg Prod.fst hstep).symm,
      show p' = _ from (congrArg Prod.snd hstep).symm]
    exact readToken_effect h hrest
  · cases hstep
    exact .quiet (.refl sh) rfl rfl rfl (.inl rfl)
  · rename_i rest hrest
    cases hstep
    exact .send hrest
  · rename_i rest resp hrest
    simp only [Option.ite_none_right_eq_some] at hstep
    obtain ⟨hans, hstep⟩ := hstep
    cases hstep
    exact .receive hrest hans
  · rename_i rest hrest
    cases hstep
    refine .quiet (.refl sh) ?_ ?_ ?_ ?_
    · split_ifs <;> rfl
    · split_ifs <;> rfl
    · split_ifs <;> rfl
    · split_ifs
      · exact .inl rfl
      · exact .inr (.inr ⟨.getMeta, by decide, hrest⟩)
  · rename_i rest hrest
    cases hstep
    exact .quiet (.refl sh) rfl rfl rfl (.inr (.inr ⟨.getMeta, by decide, hrest⟩))
  · split at hstep
    · simp only [Option.ite_none_right_eq_some] at hstep
      obtain ⟨-, hstep⟩ := hstep
      cases hstep
      exact .quiet (.refl sh) rfl rfl rfl (.inr (.inl rfl))
    · cases hstep
  · split at hstep
    · simp only [Option.ite_none_right_eq_some] at hstep
      obtain ⟨-, hstep⟩ := hstep
      split_ifs at hstep
      · cases hstep
        exact .quiet (.withBlocks sh _) rfl rfl rfl (.inr (.inl rfl))
      · cases hstep
        exact .quiet (.refl sh) rfl rfl rfl (.inl rfl)
    · cases hstep
  · rename_i rest hrest
    simp only [Option.ite_none_right_eq_some] at hstep
    obtain ⟨-, hstep⟩ := hstep
    cases hstep
    exact .quiet (.refl sh) rfl rfl rfl (.inr (.inr ⟨.fetchBlocks, by decide, hrest⟩))
  · rename_i rest hrest
    cases hstep
    exact .quiet (.guardedRead h sh _ _) rfl rfl rfl
      (.inr (.inr ⟨.deleteIfETagRead, by decide, hrest⟩))
  · rename_i rest hrest
    cases hstep
    exact .quiet (.refl sh) rfl rfl rfl (.inr (.inr ⟨.deleteIfETagRead, by decide, hrest⟩))
  · rename_i rest hrest
    split at hstep
    · cases hstep
      exact .quiet (.guardedDelete h sh _) rfl rfl rfl
        (.inr (.inr ⟨.deleteIfETagDelete, by decide, hrest⟩))
    · cases hstep
      exact .quiet (.refl sh) rfl rfl rfl (.inr (.inr ⟨.deleteIfETagDelete, by decide, hrest⟩))
  · rename_i rest hrest
    cases hstep
    exact .quiet (.refl sh) rfl rfl rfl (.inr (.inr ⟨.deleteIfETagDelete, by decide, hrest⟩))
  · rw [Option.some.injEq] at hstep
    rw [show sh' = _ from (congrArg Prod.fst hstep).symm,
      show p' = _ from (congrArg Prod.snd hstep).symm]
    exact commit_effect h cfg i sh p
  · cases hstep
    exact .quiet (.refl sh) rfl rfl rfl (.inl rfl)
  · cases hstep

end Populate

namespace Mutation

def Answered (m : Mutation) : Prop :=
  m.phase = .finished ∨ m.phase = .committing ∨ ∃ loop retried, m.phase = .converging loop retried

/-- Everything a step of mutation `j` can do. -/
inductive Effect (j : ℕ) (sh : Shared σ) (m : Mutation) : Shared σ → Mutation → Prop
  | quiet {sh' : Shared σ} {m' : Mutation} (settles : Settles store sh sh')
      (applied : m'.applied = m.applied) (fenced : m'.fenced = m.fenced)
      (answered : m.Answered → m'.Answered) : Effect j sh m sh' m'
  | apply {etag : Bytes} (fresh : m.applied = none) (unanswered : ¬ m.Answered) :
      Effect j sh m (m.applyUpstream sh etag).1 (m.applyUpstream sh etag).2
  | ack {m' : Mutation} (applied : m'.applied = m.applied) (fenced : m'.fenced = m.fenced)
      (answered : m'.Answered) : Effect j sh m (sh.emit (.acked j)) m'
  | fence {s : σ} {m' : Mutation} (row : store.row s = none)
      (version : store.version sh.store < store.version s)
      (applied : m'.applied = m.applied) (fenced : m'.fenced = true) (before : m.Answered)
      (answered : m'.Answered) :
      Effect j sh m (({ sh with store := s } : Shared σ).emit (.fenced j)) m'

theorem converged_answered (m : Mutation) : m.converged.Answered := by
  unfold converged Answered
  split_ifs <;> simp

theorem retry_answered (m : Mutation) (retried : Bool) : (m.retry retried).Answered := by
  unfold retry
  split_ifs
  · exact m.converged_answered
  · exact .inr (.inr ⟨_, _, rfl⟩)

@[simp] theorem retry_applied (m : Mutation) (retried : Bool) :
    (m.retry retried).applied = m.applied := by
  unfold retry
  split_ifs <;> rfl

@[simp] theorem retry_fenced (m : Mutation) (retried : Bool) :
    (m.retry retried).fenced = m.fenced := by
  unfold retry
  split_ifs <;> rfl

variable {store} (h : store.Lawful)
include h

theorem converge_effect {j : ℕ} {sh : Shared σ} {loop : DeleteLoop} {retried : Bool}
    {m : Mutation} (hphase : m.phase = .converging loop retried) :
    Effect store j sh m (converge store j sh loop retried m).1
      (converge store j sh loop retried m).2 := by
  have hbefore : m.Answered := .inr (.inr ⟨loop, retried, hphase⟩)
  have hsettles := Settles.deleteAttempt h sh loop
  rcases CasCoordinator.deleteMetaAttempt_cases h sh.store loop with
    ⟨hdone, hrow, hlt⟩ | ⟨hne, -⟩
  · unfold converge
    generalize CasCoordinator.deleteMetaAttempt store sh.store loop = reply at hdone hrow hlt ⊢
    obtain ⟨s, r⟩ := reply
    subst hdone
    exact .fence hrow hlt rfl rfl hbefore m.converged_answered
  · unfold converge
    generalize CasCoordinator.deleteMetaAttempt store sh.store loop = reply at hne hsettles ⊢
    obtain ⟨s, r⟩ := reply
    cases r with
    | done => exact absurd rfl hne
    | again next => exact .quiet hsettles rfl rfl fun _ => .inr (.inr ⟨next, retried, rfl⟩)
    | exhausted =>
      exact .quiet hsettles (m.retry_applied retried) (m.retry_fenced retried)
        fun _ => m.retry_answered retried

omit h in
theorem respond_effect {j : ℕ} {sh : Shared σ} {m : Mutation} (status : ℕ) (errorBody : Bool)
    (hphase : m.phase = .forwarding) :
    Effect store j sh m (m.respond j sh status errorBody).1
      (m.respond j sh status errorBody).2 := by
  have hun : m.Answered → False := by simp [Answered, hphase]
  unfold respond
  split_ifs
  · exact .quiet (.refl sh) rfl rfl fun ha => (hun ha).elim
  · exact .ack rfl rfl (.inr (.inr ⟨_, _, rfl⟩))
  · exact .quiet (.refl sh) rfl rfl fun ha => (hun ha).elim

theorem step_effect {j : ℕ} {sh sh' : Shared σ} {m m' : Mutation} {input : MutationInput}
    (hstep : step store j sh m input = some (sh', m')) : Effect store j sh m sh' m' := by
  unfold step at hstep
  split at hstep
  · rename_i loop hphase
    rw [Option.some.injEq, Prod.mk.injEq] at hstep
    obtain ⟨rfl, rfl⟩ := hstep
    refine .quiet (.deleteAttempt h sh loop) rfl rfl fun ha => ?_
    simp [Answered, hphase] at ha
  · rename_i loop hphase
    cases hstep
    refine .quiet (.refl sh) rfl rfl fun ha => ?_
    simp [Answered, hphase] at ha
  · rename_i etag hphase
    simp only [Option.ite_none_right_eq_some, Option.isNone_iff_eq_none] at hstep
    obtain ⟨hnone, hstep⟩ := hstep
    cases hstep
    exact .apply hnone (by simp [Answered, hphase])
  · rename_i etag hphase
    simp only [Option.ite_none_right_eq_some, Option.isNone_iff_eq_none] at hstep
    obtain ⟨hnone, hstep⟩ := hstep
    cases hstep
    exact .apply hnone (by simp [Answered, hphase])
  · rename_i status errorBody hphase
    rw [Option.some.injEq] at hstep
    rw [show sh' = _ from (congrArg Prod.fst hstep).symm,
      show m' = _ from (congrArg Prod.snd hstep).symm]
    exact respond_effect status errorBody hphase
  · rename_i hphase
    cases hstep
    refine .quiet (.refl sh) rfl rfl fun ha => ?_
    simp [Answered, hphase] at ha
  · cases hstep
    exact .quiet (.refl sh) rfl rfl fun _ => .inl rfl
  · rename_i loop retried hphase
    rw [Option.some.injEq] at hstep
    rw [show sh' = _ from (congrArg Prod.fst hstep).symm,
      show m' = _ from (congrArg Prod.snd hstep).symm]
    exact converge_effect h hphase
  · rename_i loop retried hphase
    cases hstep
    exact .quiet (.refl sh) (m.retry_applied retried) (m.retry_fenced retried)
      fun _ => m.retry_answered retried
  · cases hstep
    exact .ack rfl rfl (.inl rfl)
  · cases hstep

end Mutation
end TagGateway.Proxy
