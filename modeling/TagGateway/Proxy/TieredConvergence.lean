import TagGateway.Proxy.EnginePuts
import TagGateway.Proxy.TieredWorkers

/-!
# Forwarded mutations against TAG's own writers

A mutation that goes upstream touches the row under the version it read before, once,
and takes a refusal for the work of a newer write. The workers that move bodies
between the tiers commit under the version of the row they looked at, too, and what
they write stands for the version that was there already. So a worker that commits
while a mutation is under way makes the mutation's own update fail. Versions of the
object are numbered in the order in which they were made; `high` bounds the numbers
of all rows that were visible so far.
-/
namespace TagGateway.Proxy

open Foundation Cache List

universe u

variable {σ : Type u} (store : VersionedStore σ Row) (cfg : TieredConfig) (lib : EngineLib)

def TierEvent.isInstall : TierEvent → Bool
  | .installed _ _ _ | .marked _ => true
  | .tokenRead _ _ _ | .answered _ _ | .removed _ _ | .captured _ | .acked _ => false

namespace Forwarded

/-- The mutation will still touch the row, under the version it read. -/
def holds (m : Forwarded) : Bool := m.phase == .forwarding || m.settling

def done (m : Forwarded) : Bool := m.phase == .finished && m.confirmed

end Forwarded

/-- A mutation that has not ended has read the current version of the row. -/
def TieredWorld.pinned (w : TieredWorld σ) : Bool :=
  w.shared.log.any fun e =>
    match e with
    | .captured j => (w.mutations j).any fun m =>
        m.holds && m.prior.any fun prior => prior.2 == store.version w.shared.store
    | _ => false

/-- The step does not let a worker commit over a row that a mutation has read and
will still touch, nor an upgrade over the marker of a later version than it asked
upstream about. -/
def TieredWorld.commitSafe (w : TieredWorld σ) : TieredLabel → Bool
  | .retier r _ => (w.retiers r).all fun k =>
      match k.phase with
      | .committing _ | .rewriting _ =>
        k.version != store.version w.shared.store || !w.pinned store
      | _ => true
  | .upgrade u _ => (w.upgrades u).all fun k =>
      match k.phase with
      | .committing full replaced version => version != store.version w.shared.store ||
          !w.pinned store && decide (replaced.source ≤ full.source)
      | _ => true
  | _ => true

/-! ## What a step shows to the others -/

/-- Upstream holds this version or a later one, or none at all. -/
def Tier.Reached (sh : Tier σ) (n : ℕ) : Prop := ∀ o, sh.object = some o → n ≤ o.id

structure TierOk (high : ℕ) (sh : Tier σ) : Prop where
  row_le : ∀ row, store.row sh.store = some row → row.source ≤ high
  high_lt : high < sh.nextId
  object_lt : ∀ o, sh.object = some o → o.id < sh.nextId
  marker_reached : ∀ row, store.row sh.store = some row → row.metadata.bodyUpstream = true →
    sh.Reached row.source

/-- A step as the other processes see it. A row that becomes visible is newer than
every row before it and a client's, or it is a worker's: then no mutation was about
to touch the row, and it is no older than the row it replaces. -/
structure Moves (pinned : Prop) (high high' : ℕ) (sh sh' : Tier σ) : Prop where
  advances : store.Advances sh.store sh'.store
  high_le : high ≤ high'
  high_eq : store.version sh'.store = store.version sh.store → high' = high
  high_lt : high' < sh'.nextId
  next_le : sh.nextId ≤ sh'.nextId
  object : ∀ o, sh'.object = some o → sh.object = some o ∨ sh.nextId ≤ o.id ∧ o.id < sh'.nextId
  log : ∃ es, sh'.log = sh.log ++ es
  visible : ∀ row, store.row sh'.store = some row →
    (store.row sh.store = some row ∧ store.version sh'.store = store.version sh.store) ∨
    (row.source ≤ high' ∧ (row.metadata.bodyUpstream = true → sh'.Reached row.source)) ∧
      ((high < row.source ∧ ∃ es e, sh'.log = sh.log ++ es ∧ e ∈ es ∧ e.isInstall = true) ∨
        ¬ pinned ∧ ∃ old, store.row sh.store = some old ∧ old.source ≤ row.source)

variable {store cfg lib} {pinned : Prop} {high high' : ℕ} {sh sh' : Tier σ}

theorem Tier.log_extends (sh : Tier σ) : ∃ es, sh.log = sh.log ++ es :=
  ⟨[], (List.append_nil _).symm⟩

namespace Moves

theorem object_of_eq (h : sh'.object = sh.object) (o : ObjectVersion) (ho : sh'.object = some o) :
    sh.object = some o ∨ sh.nextId ≤ o.id ∧ o.id < sh'.nextId :=
  .inl (h.symm.trans ho)

theorem quiet (hl : store.Lawful) (hlive : store.LiveReads) (htier : TierOk store high sh)
    (hstore : sh'.store = sh.store ∨ sh'.store = (store.getWithVersion sh.store).1)
    (hobject : sh'.object = sh.object) (hnext : sh'.nextId = sh.nextId)
    (hlog : ∃ es, sh'.log = sh.log ++ es) : Moves store pinned high high sh sh' where
  advances := by
    rcases hstore with heq | heq
    · rw [heq]
      exact .refl _
    · rw [heq]
      exact hl.get_advances _
  high_le := le_rfl
  high_eq _ := rfl
  high_lt := by
    rw [hnext]
    exact htier.high_lt
  next_le := le_of_eq hnext.symm
  object := object_of_eq hobject
  log := hlog
  visible := by
    intro row hrow
    left
    rcases hstore with heq | heq
    · rw [heq] at hrow ⊢
      exact ⟨hrow, rfl⟩
    · rw [heq, hl.get_row] at hrow
      rw [heq]
      exact ⟨hrow, hlive _ (by simp [hrow])⟩

theorem removal (htier : TierOk store high sh) (hgone : store.row sh'.store = none)
    (hlt : store.version sh.store < store.version sh'.store) (hobject : sh'.object = sh.object)
    (hnext : sh'.nextId = sh.nextId) (hlog : ∃ es, sh'.log = sh.log ++ es) :
    Moves store pinned high high sh sh' where
  advances := .of_lt hlt
  high_le := le_rfl
  high_eq _ := rfl
  high_lt := by
    rw [hnext]
    exact htier.high_lt
  next_le := le_of_eq hnext.symm
  object := object_of_eq hobject
  log := hlog
  visible := by
    intro row hrow
    rw [hgone] at hrow
    cases hrow

theorem client {row : Row} (hfound : store.row sh'.store = some row)
    (hlt : store.version sh.store < store.version sh'.store) (hnew : high < row.source)
    (hsource : row.source < sh'.nextId)
    (hreached : row.metadata.bodyUpstream = true → sh'.Reached row.source)
    (hobject : sh'.object = sh.object) (hnext : sh.nextId ≤ sh'.nextId)
    (hlog : ∃ es e, sh'.log = sh.log ++ es ∧ e ∈ es ∧ e.isInstall = true) :
    Moves store pinned high row.source sh sh' where
  advances := .of_lt hlt
  high_le := le_of_lt hnew
  high_eq hversion := absurd hversion (ne_of_gt hlt)
  high_lt := hsource
  next_le := hnext
  object := object_of_eq hobject
  log := by
    obtain ⟨es, -, heq, -⟩ := hlog
    exact ⟨es, heq⟩
  visible := by
    intro row' hrow'
    rw [hfound, Option.some.injEq] at hrow'
    subst hrow'
    exact .inr ⟨⟨le_rfl, hreached⟩, .inl ⟨hnew, hlog⟩⟩

theorem background (htier : TierOk store high sh) {row old : Row}
    (hfound : store.row sh'.store = some row)
    (hlt : store.version sh.store < store.version sh'.store) (hfree : ¬ pinned)
    (hold : store.row sh.store = some old) (hle : old.source ≤ row.source)
    (hsource : row.source < sh.nextId) (hreached : sh.Reached row.source)
    (hobject : sh'.object = sh.object) (hnext : sh'.nextId = sh.nextId)
    (hlog : ∃ es, sh'.log = sh.log ++ es) :
    Moves store pinned high (max high row.source) sh sh' where
  advances := .of_lt hlt
  high_le := le_max_left _ _
  high_eq hversion := absurd hversion (ne_of_gt hlt)
  high_lt := by
    rw [hnext]
    exact max_lt htier.high_lt hsource
  next_le := le_of_eq hnext.symm
  object := object_of_eq hobject
  log := hlog
  visible := by
    intro row' hrow'
    rw [hfound, Option.some.injEq] at hrow'
    subst hrow'
    refine .inr ⟨⟨le_max_right _ _, fun _ => ?_⟩, .inr ⟨hfree, old, hold, hle⟩⟩
    rw [Tier.Reached, hobject]
    exact hreached

theorem applied (htier : TierOk store high sh) (m : Forwarded) (etag : Bytes) :
    Moves store pinned high high sh (m.applyUpstream sh etag).1 where
  advances := .refl _
  high_le := le_rfl
  high_eq _ := rfl
  high_lt := Nat.lt_succ_of_lt htier.high_lt
  next_le := Nat.le_succ _
  object := by
    intro o ho
    simp only [Forwarded.applyUpstream] at ho
    split at ho
    · cases ho
    · cases ho
      exact .inr ⟨le_rfl, Nat.lt_succ_self _⟩
  log := sh.log_extends
  visible row hrow := .inl ⟨hrow, rfl⟩

variable (hm : Moves store pinned high high' sh sh')
include hm

theorem reached {n : ℕ} (hn : n < sh.nextId) (h : sh.Reached n) : sh'.Reached n := by
  intro o ho
  rcases hm.object o ho with hold | ⟨hnew, -⟩
  · exact h o hold
  · omega

theorem tierOk (htier : TierOk store high sh) : TierOk store high' sh' where
  row_le := by
    intro row hrow
    rcases hm.visible row hrow with ⟨hold, -⟩ | ⟨⟨hle, -⟩, -⟩
    · exact (htier.row_le row hold).trans hm.high_le
    · exact hle
  high_lt := hm.high_lt
  object_lt := by
    intro o ho
    rcases hm.object o ho with hold | ⟨-, hnew⟩
    · exact (htier.object_lt o hold).trans_le hm.next_le
    · exact hnew
  marker_reached := by
    intro row hrow hmarker
    rcases hm.visible row hrow with ⟨hold, -⟩ | ⟨⟨-, hreached⟩, -⟩
    · have hlt := (htier.row_le row hold).trans_lt htier.high_lt
      exact hm.reached hlt (htier.marker_reached row hold hmarker)
    · exact hreached hmarker

end Moves

/-! ## Mutations -/

variable (store cfg lib) in
/-- What holds of a mutation. Once it ended with a confirmed change, or the row is no
longer at the version it read, every visible row is newer than the row it displaces,
and after a delete or a copy a visible row is a later client's. -/
structure MutationOk (high : ℕ) (sh : Tier σ) (j : ℕ) (m : Forwarded) : Prop where
  fresh : m.phase = .capturing → m.prior = none ∧ m.applied = none
  unconfirmed : m.settling = false → m.phase ≠ .finished → m.confirmed = false
  owned : m.phase ≠ .capturing → (m.ownsRow cfg lib = true ↔ m.prior ≠ none)
  settled : m.settling = true → m.prior ≠ none
  captured : m.prior ≠ none → TierEvent.captured j ∈ sh.log
  observed : ∀ row t, m.prior = some (row, t) → store.Observed sh.store row t
  prior_le : ∀ row t, m.prior = some (some row, t) → row.source ≤ high
  applied_le : ∀ a, m.applied = some a → a < sh.nextId ∧ sh.Reached a
  applied_gt : ∀ row t a, m.prior = some (row, t) → m.applied = some a →
    store.version sh.store = t → high < a
  marking : ∀ row, m.phase = .marking row → m.applied = some row.source ∧ m.kind.clears = false
  newer : ∀ prior t, m.prior = some (some prior, t) →
    (m.holds = true ∧ store.version sh.store ≠ t) ∨ m.done = true →
    ∀ row, store.row sh.store = some row → prior.source < row.source
  cleared : ∀ prior t, m.prior = some (prior, t) → m.kind.clears = true →
    (m.holds = true ∧ store.version sh.store ≠ t) ∨ m.done = true →
    store.row sh.store = none ∨
      ∃ e, e.isInstall = true ∧ [TierEvent.captured j, e] <+ sh.log

namespace MutationOk

variable {j : ℕ} {m : Forwarded}

theorem start (node : ℕ) (kind : ForwardedKind) :
    MutationOk store cfg lib high sh j { node := node, kind := kind } := by
  constructor <;> simp [Forwarded.settling]

theorem moves (hok : MutationOk store cfg lib high sh j m)
    (hm : Moves store pinned high high' sh sh')
    (hpinned : ∀ row, m.holds = true → m.prior = some (row, store.version sh.store) → pinned) :
    MutationOk store cfg lib high' sh' j m := by
  obtain ⟨es, hlog⟩ := hm.log
  -- a version that the mutation read is not the current one again
  have hversion : ∀ {row t}, m.prior = some (row, t) → store.version sh'.store = t →
      store.version sh'.store = store.version sh.store := by
    intro row t hprior hv
    have hle := (hok.observed row t hprior).le
    have hle' := hm.advances.le
    omega
  -- what released the mutation's version before the step, when a worker wrote
  have hreleased : ∀ {prior t}, m.prior = some (prior, t) → ¬ pinned →
      (m.holds = true ∧ store.version sh'.store ≠ t) ∨ m.done = true →
      (m.holds = true ∧ store.version sh.store ≠ t) ∨ m.done = true := by
    intro prior t hprior hfree hrel
    rcases hrel with ⟨hholds, -⟩ | hdone
    · refine .inl ⟨hholds, fun hv => hfree (hpinned prior hholds ?_)⟩
      rw [hv]
      exact hprior
    · exact .inr hdone
  constructor
  · exact hok.fresh
  · exact hok.unconfirmed
  · exact hok.owned
  · exact hok.settled
  · intro hprior
    rw [hlog]
    exact List.mem_append_left _ (hok.captured hprior)
  · intro row t hprior
    exact (hok.observed row t hprior).advance hm.advances
  · intro row t hprior
    exact (hok.prior_le row t hprior).trans hm.high_le
  · intro a happlied
    obtain ⟨hlt, hreached⟩ := hok.applied_le a happlied
    exact ⟨hlt.trans_le hm.next_le, hm.reached hlt hreached⟩
  · intro row t a hprior happlied hv
    have hsame := hversion hprior hv
    rw [hm.high_eq hsame]
    exact hok.applied_gt row t a hprior happlied (hsame.symm.trans hv)
  · exact hok.marking
  · intro prior t hprior hrel row hrow
    rcases hm.visible row hrow with ⟨hold, hsame⟩ | ⟨-, ⟨hnew, -⟩ | ⟨hfree, old, hold, hle⟩⟩
    · rw [hsame] at hrel
      exact hok.newer prior t hprior hrel row hold
    · exact (hok.prior_le prior t hprior).trans_lt hnew
    · exact (hok.newer prior t hprior (hreleased hprior hfree hrel) old hold).trans_le hle
  · intro prior t hprior hclears hrel
    have hlater : (∃ e, e.isInstall = true ∧ [TierEvent.captured j, e] <+ sh.log) →
        ∃ e, e.isInstall = true ∧ [TierEvent.captured j, e] <+ sh'.log := by
      rintro ⟨e, he, hpair⟩
      refine ⟨e, he, ?_⟩
      rw [hlog]
      exact hpair.trans (List.sublist_append_left _ _)
    cases hrow : store.row sh'.store with
    | none => exact .inl rfl
    | some row =>
      right
      rcases hm.visible row hrow with ⟨hold, hsame⟩ | ⟨-, ⟨-, es', e, hlog', he, hinstall⟩ |
        ⟨hfree, old, hold, -⟩⟩
      · rw [hsame] at hrel
        apply hlater
        exact (hok.cleared prior t hprior hclears hrel).resolve_left (by simp [hold])
      · refine ⟨e, hinstall, ?_⟩
        have hcaptured := hok.captured (by simp [hprior])
        rw [hlog']
        exact (List.singleton_sublist.mpr hcaptured).append (List.singleton_sublist.mpr he)
      · apply hlater
        exact (hok.cleared prior t hprior hclears (hreleased hprior hfree hrel)).resolve_left
          (by simp [hold])

/-- The mutation itself goes on, with the row as it is. What was released stays so;
there is nothing to say of a mutation that displaced no row and writes its own. -/
theorem rephase {m' : Forwarded} (hok : MutationOk store cfg lib high sh j m)
    (hcaptured : m.phase ≠ .capturing) (hkind : m'.kind = m.kind) (hprior : m'.prior = m.prior)
    (happlied : m'.applied = m.applied) (hphase : m'.phase ≠ .capturing)
    (hunconfirmed : m'.settling = false → m'.phase ≠ .finished → m'.confirmed = false)
    (hsettled : m'.settling = true → m.prior ≠ none)
    (hmarking : ∀ row, m'.phase = .marking row →
      m.applied = some row.source ∧ m.kind.clears = false)
    (hreleased : ∀ prior t, m.prior = some (prior, t) →
      (m'.holds = true ∧ store.version sh.store ≠ t) ∨ m'.done = true →
      ((m.holds = true ∧ store.version sh.store ≠ t) ∨ m.done = true) ∨
        prior = none ∧ m.kind.clears = false) :
    MutationOk store cfg lib high sh j m' := by
  have howns : m'.ownsRow cfg lib = m.ownsRow cfg lib := by
    rw [Forwarded.ownsRow, hkind, Forwarded.ownsRow]
  constructor
  · exact fun h => absurd h hphase
  · exact hunconfirmed
  · intro _
    rw [howns, hprior]
    exact hok.owned hcaptured
  · rw [hprior]
    exact hsettled
  · rw [hprior]
    exact hok.captured
  · rw [hprior]
    exact hok.observed
  · rw [hprior]
    exact hok.prior_le
  · rw [happlied]
    exact hok.applied_le
  · rw [hprior, happlied]
    exact hok.applied_gt
  · rw [happlied, hkind]
    exact hmarking
  · intro prior t ht hrel
    rw [hprior] at ht
    rcases hreleased _ t ht hrel with hrel | ⟨hnone, -⟩
    · exact hok.newer prior t ht hrel
    · cases hnone
  · intro prior t ht hclears hrel
    rw [hprior] at ht
    rw [hkind] at hclears
    rcases hreleased prior t ht hrel with hrel | ⟨-, hkeeps⟩
    · exact hok.cleared prior t ht hclears hrel
    · rw [hclears] at hkeeps
      cases hkeeps

/-- The mutation ends once the row is no longer at the version it read. -/
theorem finish (hok : MutationOk store cfg lib high sh j m) (hholds : m.holds = true)
    (hversion : ∀ row t, m.prior = some (row, t) → store.version sh.store ≠ t) :
    MutationOk store cfg lib high sh j { m with phase := .finished } := by
  have hcaptured : m.phase ≠ .capturing := by
    intro hphase
    simp [Forwarded.holds, Forwarded.settling, hphase] at hholds
  apply hok.rephase hcaptured
  case hreleased =>
    intro prior t hprior _
    exact .inl (.inl ⟨hholds, hversion prior t hprior⟩)
  all_goals simp [Forwarded.settling]

/-- The mutation ends, or goes without an answer, before upstream confirmed it. -/
theorem giveUp (hok : MutationOk store cfg lib high sh j m)
    (hphase : m.phase = .forwarding ∨ m.phase = .abandoned) {q : ForwardedPhase}
    (hq : q = .finished ∨ q = .abandoned) :
    MutationOk store cfg lib high sh j { m with phase := q } := by
  have hconfirmed : m.confirmed = false := by
    apply hok.unconfirmed
    · rcases hphase with h | h <;> rw [Forwarded.settling, h]
    · rcases hphase with h | h <;> simp [h]
  apply hok.rephase (by rcases hphase with h | h <;> simp [h])
  all_goals
    rcases hq with rfl | rfl <;>
      simp [Forwarded.settling, Forwarded.holds, Forwarded.done, hconfirmed]

/-- After a refused marker, or when upstream named no tag, only a displaced row is
left to remove. -/
theorem invalidate {m' : Forwarded} (hok : MutationOk store cfg lib high sh j m)
    (hholds : m.holds = true) (hcaptured : m.phase ≠ .capturing) (hprior : m.prior ≠ none)
    (hkeeps : m.kind.clears = false) (hkind : m'.kind = m.kind) (hsame : m'.prior = m.prior)
    (happlied : m'.applied = m.applied) :
    MutationOk store cfg lib high sh j m'.invalidateDisplacedTieredMeta := by
  unfold Forwarded.invalidateDisplacedTieredMeta
  split
  · apply hok.rephase hcaptured
    case hkind => exact hkind
    case hprior => exact hsame
    case happlied => exact happlied
    case hreleased =>
      intro prior t _ hrel
      rcases hrel with ⟨-, hversion⟩ | hdone
      · exact .inl (.inl ⟨hholds, hversion⟩)
      · simp [Forwarded.done] at hdone
    all_goals simp [Forwarded.settling, hprior]
  · rename_i t hnone
    apply hok.rephase hcaptured
    case hkind => exact hkind
    case hprior => exact hsame
    case happlied => exact happlied
    case hreleased =>
      intro prior t' ht' _
      rw [← hsame, hnone] at ht'
      cases ht'
      exact .inr ⟨rfl, hkeeps⟩
    all_goals simp [Forwarded.settling]
  · rename_i hnone
    rw [hsame] at hnone
    exact absurd hnone hprior

theorem confirm (hok : MutationOk store cfg lib high sh j m) (hphase : m.phase = .forwarding)
    (happlied : m.applied ≠ none) (etag : Bytes) (now : ℤ) :
    MutationOk store cfg lib high sh j (m.confirm cfg lib etag now) := by
  have hcaptured : m.phase ≠ .capturing := by simp [hphase]
  have hholds : m.holds = true := by simp [Forwarded.holds, hphase]
  have howned := hok.owned hcaptured
  -- the version is released by a phase that still holds the row as it was before
  have hstays : ∀ {m' : Forwarded}, m'.done = false → ∀ prior t, m.prior = some (prior, t) →
      (m'.holds = true ∧ store.version sh.store ≠ t) ∨ m'.done = true →
      ((m.holds = true ∧ store.version sh.store ≠ t) ∨ m.done = true) ∨
        prior = none ∧ m.kind.clears = false := by
    intro m' hdone prior t _ hrel
    rcases hrel with ⟨-, hversion⟩ | hdone'
    · exact .inl (.inl ⟨hholds, hversion⟩)
    · rw [hdone] at hdone'
      cases hdone'
  unfold Forwarded.confirm
  dsimp only
  split
  · rename_i hunknown
    have hprior : m.prior = none := by
      rcases hunknown with hunowned | hnone
      · have hfalse : m.ownsRow cfg lib = false := hunowned
        by_contra hne
        rw [howned.mpr hne] at hfalse
        cases hfalse
      · exact hnone
    apply hok.rephase hcaptured
    all_goals simp [Forwarded.settling, hprior]
  · rename_i hknown
    have hprior : m.prior ≠ none := fun hnone => hknown (.inr hnone)
    split
    · apply hok.rephase hcaptured
      case hreleased => exact hstays (by simp [Forwarded.done])
      all_goals simp [Forwarded.settling, hprior]
    · rename_i hkeeps
      split
      · exact hok.invalidate hholds hcaptured hprior (by simpa using hkeeps) rfl rfl rfl
      · obtain ⟨a, ha⟩ := Option.ne_none_iff_exists'.mp happlied
        apply hok.rephase hcaptured
        case hreleased => exact hstays (by simp [Forwarded.done])
        case hmarking =>
          rintro row ⟨⟩
          exact ⟨by simp [ha], by simpa using hkeeps⟩
        all_goals simp [Forwarded.settling, hprior]

end MutationOk

section Steps

variable (hl : store.Lawful) (hlive : store.LiveReads) (htier : TierOk store high sh)

theorem MutationOk.skip {j : ℕ} {m : Forwarded} (hok : MutationOk store cfg lib high sh j m)
    (hphase : m.phase = .capturing) (hunowned : m.ownsRow cfg lib = false) :
    MutationOk store cfg lib high sh j { m with phase := .forwarding } := by
  obtain ⟨hprior, happlied⟩ := hok.fresh hphase
  have hconfirmed : m.confirmed = false :=
    hok.unconfirmed (by rw [Forwarded.settling, hphase]) (by simp [hphase])
  constructor
  case owned =>
    intro _
    exact iff_of_false (fun howns => Bool.false_ne_true (hunowned.symm.trans howns)) (by simp [hprior])
  all_goals simp [hprior, happlied, hconfirmed, Forwarded.settling]

include htier

include hl in
theorem MutationOk.capture {j : ℕ} {m : Forwarded} (hok : MutationOk store cfg lib high sh j m)
    (hphase : m.phase = .capturing) (howned : m.ownsRow cfg lib = true) :
    MutationOk store cfg lib high
      (({ sh with store := (store.getWithVersion sh.store).1 } : Tier σ).emit (.captured j)) j
      { m with
        phase := .forwarding
        prior := some (store.row sh.store, (store.getWithVersion sh.store).2.2) } := by
  obtain ⟨-, happlied⟩ := hok.fresh hphase
  have hconfirmed : m.confirmed = false :=
    hok.unconfirmed (by rw [Forwarded.settling, hphase]) (by simp [hphase])
  -- the version is the current one, so nothing is released yet
  have hheld : ∀ {prior : Option Row} {t : ℕ},
      some (store.row sh.store, (store.getWithVersion sh.store).2.2) = some (prior, t) →
      store.version (store.getWithVersion sh.store).1 = t := by
    rintro prior t ⟨⟩
    exact (hl.get_version _).symm
  constructor
  case owned => exact fun _ => iff_of_true howned (by simp)
  case captured => simp [Tier.emit]
  case observed =>
    rintro row t ⟨⟩
    exact hl.get_observed _
  case prior_le =>
    intro row t hprior
    rw [Option.some.injEq, Prod.mk.injEq] at hprior
    exact htier.row_le row hprior.1
  case newer =>
    rintro prior t hprior (⟨-, hversion⟩ | hdone)
    · exact absurd (hheld hprior) hversion
    · simp [Forwarded.done] at hdone
  case cleared =>
    rintro prior t hprior - (⟨-, hversion⟩ | hdone)
    · exact absurd (hheld hprior) hversion
    · simp [Forwarded.done] at hdone
  all_goals simp [happlied, hconfirmed, Forwarded.settling]

/-- Upstream makes the change: its version is newer than every row so far. -/
theorem MutationOk.applyUpstream {j : ℕ} {m : Forwarded}
    (hok : MutationOk store cfg lib high sh j m)
    (hphase : m.phase = .forwarding ∨ m.phase = .abandoned) (etag : Bytes) :
    MutationOk store cfg lib high (m.applyUpstream sh etag).1 j (m.applyUpstream sh etag).2 := by
  have hok' : MutationOk store cfg lib high (m.applyUpstream sh etag).1 j m :=
    hok.moves (.applied htier m etag) fun _ _ _ => trivial
  constructor
  case fresh =>
    intro h
    rcases hphase with h' | h' <;> simp [h', Forwarded.applyUpstream] at h
  case unconfirmed => exact hok'.unconfirmed
  case owned => exact hok'.owned
  case settled => exact hok'.settled
  case captured => exact hok'.captured
  case observed => exact hok'.observed
  case prior_le => exact hok'.prior_le
  case applied_le =>
    rintro a ⟨⟩
    refine ⟨Nat.lt_succ_self _, fun o ho => ?_⟩
    simp only [Forwarded.applyUpstream] at ho
    split at ho
    · cases ho
    · cases ho
      exact le_rfl
  case applied_gt =>
    rintro row t a - ⟨⟩ -
    exact htier.high_lt
  case marking =>
    intro row h
    rcases hphase with h' | h' <;> simp [h', Forwarded.applyUpstream] at h
  case newer => exact hok'.newer
  case cleared => exact hok'.cleared

include hl hlive

theorem Moves.refl : Moves store pinned high high sh sh :=
  .quiet hl hlive htier (.inl rfl) rfl rfl sh.log_extends

theorem Forwarded.Effect.ok {j : ℕ} {m m' : Forwarded} (hok : MutationOk store cfg lib high sh j m)
    (h : Effect store cfg lib j sh m sh' m') :
    ∃ high', Moves store pinned high high' sh sh' ∧ MutationOk store cfg lib high' sh' j m' := by
  -- no mutation's step is a worker's, so what the mutation keeps follows from any view of it
  have hown : ∀ {high'}, Moves store True high high' sh sh' →
      MutationOk store cfg lib high' sh' j m := fun hm => hok.moves hm fun _ _ _ => trivial
  have hrefl : ∀ {pinned}, Moves store pinned high high sh sh := .refl hl hlive htier
  have hemit : ∀ {pinned e}, Moves store pinned high high sh (sh.emit e) :=
    .quiet hl hlive htier (.inl rfl) rfl rfl ⟨_, rfl⟩
  have hversion : ∀ {row t}, m.prior = some (row, t) → m.priorVersion = t := by
    intro row t hprior
    simp [Forwarded.priorVersion, hprior]
  have hremoving : m.phase = .sweeping ∨ (∃ retried, m.phase = .converging retried) →
      m.holds = true := by
    rintro (h | ⟨retried, h⟩) <;> simp [Forwarded.holds, Forwarded.settling, h]
  cases h with
  | skip phase unowned => exact ⟨high, hrefl, hok.skip phase unowned⟩
  | capture phase owned =>
    exact ⟨high, .quiet hl hlive htier (.inr rfl) rfl rfl ⟨_, rfl⟩, hok.capture hl htier phase owned⟩
  | apply phase => exact ⟨high, .applied htier m _, hok.applyUpstream htier phase _⟩
  | giveUp phase next => exact ⟨high, hrefl, hok.giveUp phase next⟩
  | confirm phase applied => exact ⟨high, hemit, (hown hemit).confirm phase applied _ _⟩
  | @mark row s phase version found advances =>
    have hsettling : m.settling = true := by rw [Forwarded.settling, phase]
    have hholds : m.holds = true := by simp [Forwarded.holds, hsettling]
    obtain ⟨⟨prior, t⟩, hprior⟩ := Option.ne_none_iff_exists'.mp (hok.settled hsettling)
    rw [hversion hprior] at version
    obtain ⟨happlied, -⟩ := hok.marking row phase
    obtain ⟨hlt, hreached⟩ := hok.applied_le _ happlied
    have hm : ∀ {pinned}, Moves store pinned high row.source sh
        (({ sh with store := s } : Tier σ).emit (.marked j)) :=
      .client found advances (hok.applied_gt prior t _ hprior happlied version) hlt
        (fun _ => hreached) rfl le_rfl ⟨[.marked j], .marked j, rfl, by simp, rfl⟩
    refine ⟨row.source, hm, (hown hm).finish hholds fun prior' t' hprior' heq => ?_⟩
    have hle := (hok.observed prior' t' hprior').le
    exact absurd heq (ne_of_gt (hle.trans_lt advances))
  | @unmarked row phase =>
    have hsettling : m.settling = true := by rw [Forwarded.settling, phase]
    have hholds : m.holds = true := by simp [Forwarded.holds, hsettling]
    exact ⟨high, hrefl, hok.invalidate hholds (by simp [phase]) (hok.settled hsettling)
      (hok.marking row phase).2 rfl rfl rfl⟩
  | @remove s phase gone advances =>
    have hm : ∀ {pinned}, Moves store pinned high high sh { sh with store := s } :=
      .removal htier gone advances rfl rfl sh.log_extends
    refine ⟨high, hm, (hown hm).finish (hremoving phase) fun row t hprior heq => ?_⟩
    have hle := (hok.observed row t hprior).le
    exact absurd heq (ne_of_gt (hle.trans_lt advances))
  | kept phase version =>
    refine ⟨high, hrefl, hok.finish (hremoving phase) fun row t hprior => ?_⟩
    rw [← hversion hprior]
    exact version

end Steps

/-! ## Workers -/

variable (store) in
/-- A re-tier works on a row that was visible, and what it would install is no older. -/
structure RetierOk (sh : Tier σ) (k : Retier) : Prop where
  observed : store.Observed sh.store (some k.marker) k.version
  marker_lt : k.marker.source < sh.nextId
  marker_reached : sh.Reached k.marker.source
  row_le : ∀ row, k.phase.row = some row →
    k.marker.source ≤ row.source ∧ row.source < sh.nextId ∧ sh.Reached row.source

theorem RetierOk.moves {k : Retier} (hok : RetierOk store sh k)
    (hm : Moves store pinned high high' sh sh') : RetierOk store sh' k where
  observed := hok.observed.advance hm.advances
  marker_lt := hok.marker_lt.trans_le hm.next_le
  marker_reached := hm.reached hok.marker_lt hok.marker_reached
  row_le := by
    intro row hrow
    obtain ⟨hle, hlt, hreached⟩ := hok.row_le row hrow
    exact ⟨hle, hlt.trans_le hm.next_le, hm.reached hlt hreached⟩

/-- A re-tier at another phase, with what it would install from the same version. -/
theorem RetierOk.rephase {k : Retier} (hok : RetierOk store sh k) {q : RetierPhase}
    (hq : ∀ row, q.row = some row → ∃ old, k.phase.row = some old ∧ row.source = old.source) :
    RetierOk store sh { k with phase := q } := by
  refine ⟨hok.observed, hok.marker_lt, hok.marker_reached, fun row hrow => ?_⟩
  obtain ⟨old, hold, hsource⟩ := hq row hrow
  rw [hsource]
  exact hok.row_le old hold

/-- What an upgrade learnt from upstream, and the row it replaces. -/
structure UpgradeOk (store : VersionedStore σ Row) (sh : Tier σ) (u : MarkerUpgrade) : Prop where
  reading : ∀ full, u.phase = .reading full → full.source < sh.nextId ∧ sh.Reached full.source
  committing : ∀ full cur v, u.phase = .committing full cur v →
    store.Observed sh.store (some cur) v ∧ full.source < sh.nextId ∧ sh.Reached full.source

theorem UpgradeOk.moves {u : MarkerUpgrade} (hok : UpgradeOk store sh u)
    (hm : Moves store pinned high high' sh sh') : UpgradeOk store sh' u where
  reading := by
    intro full hphase
    obtain ⟨hlt, hreached⟩ := hok.reading full hphase
    exact ⟨hlt.trans_le hm.next_le, hm.reached hlt hreached⟩
  committing := by
    intro full cur v hphase
    obtain ⟨hobserved, hlt, hreached⟩ := hok.committing full cur v hphase
    exact ⟨hobserved.advance hm.advances, hlt.trans_le hm.next_le, hm.reached hlt hreached⟩

theorem UpgradeOk.of_finished (u : MarkerUpgrade) :
    UpgradeOk store sh { u with phase := .finished } := by
  constructor <;> simp

section Workers

variable (hl : store.Lawful) (hlive : store.LiveReads) (htier : TierOk store high sh)
include hl hlive htier

/-- A step of a re-tier that does not commit over a row some mutation will touch. -/
theorem Retier.Effect.ok {k k' : Retier} (hok : RetierOk store sh k)
    (hfree : ∀ row, k.phase = .committing row ∨ k.phase = .rewriting row →
      store.version sh.store = k.version → ¬ pinned)
    (h : Effect store sh k sh' k') :
    ∃ high', Moves store pinned high high' sh sh' ∧ RetierOk store sh' k' := by
  cases h with
  | @turn s bodies q reads row =>
    have hm : Moves store pinned high high sh { sh with store := s, bodies := bodies } :=
      .quiet hl hlive htier reads rfl rfl sh.log_extends
    exact ⟨high, hm, (hok.moves hm).rephase row⟩
  | @fetch q o object row =>
    refine ⟨high, .refl hl hlive htier, hok.observed, hok.marker_lt, hok.marker_reached, ?_⟩
    intro row' hrow'
    rw [row row' hrow']
    refine ⟨hok.marker_reached o object, htier.object_lt o object, fun o' ho' => ?_⟩
    rw [object, Option.some.injEq] at ho'
    rw [ho']
  | @install row s phase version found advances =>
    have hrow : k.phase.row = some row := by
      rcases phase with h | h <;> rw [h, RetierPhase.row]
    obtain ⟨hle, hlt, hreached⟩ := hok.row_le row hrow
    have hm : Moves store pinned high (max high row.source) sh { sh with store := s } :=
      .background htier found advances (hfree row phase version) (hok.observed.current version) hle
        hlt hreached rfl rfl sh.log_extends
    exact ⟨_, hm, (hok.moves hm).rephase (by simp [RetierPhase.row])⟩
  | @remove s gone advances =>
    have hm : Moves store pinned high high sh { sh with store := s } :=
      .removal htier gone advances rfl rfl sh.log_extends
    exact ⟨high, hm, (hok.moves hm).rephase (by simp [RetierPhase.row])⟩

/-- A step of an upgrade that does not commit over a row some mutation will touch, nor
over the marker of a later version. -/
theorem MarkerUpgrade.Effect.ok {u u' : MarkerUpgrade} (hok : UpgradeOk store sh u)
    (hfree : ∀ full cur v, u.phase = .committing full cur v → store.version sh.store = v →
      ¬ pinned ∧ cur.source ≤ full.source)
    (h : Effect store sh u sh' u') :
    ∃ high', Moves store pinned high high' sh sh' ∧ UpgradeOk store sh' u' := by
  cases h with
  | finish reads =>
    exact ⟨high, .quiet hl hlive htier reads rfl rfl sh.log_extends, .of_finished u⟩
  | @head full o object source =>
    refine ⟨high, .refl hl hlive htier, ?_, by simp⟩
    rintro full' ⟨⟩
    rw [source]
    refine ⟨htier.object_lt o object, fun o' ho' => ?_⟩
    rw [object, Option.some.injEq] at ho'
    rw [ho']
  | @read full cur phase found =>
    have hm : Moves store pinned high high sh
        { sh with store := (store.getWithVersion sh.store).1 } :=
      .quiet hl hlive htier (.inr rfl) rfl rfl sh.log_extends
    refine ⟨high, hm, by simp, ?_⟩
    rintro full' cur' v ⟨⟩
    refine ⟨?_, (hok.moves hm).reading full phase⟩
    rw [← found]
    exact hl.get_observed _
  | @install full cur v s phase version found advances =>
    obtain ⟨hobserved, hlt, hreached⟩ := hok.committing full cur v phase
    obtain ⟨hunpinned, hle⟩ := hfree full cur v phase version
    have hm : Moves store pinned high (max high full.source) sh { sh with store := s } :=
      .background htier found advances hunpinned (hobserved.current version) hle hlt hreached rfl
        rfl sh.log_extends
    exact ⟨_, hm, .of_finished u⟩

end Workers

/-! ## Requests of the local tier -/

structure PutWell (p : TieredPut) : Prop where
  token_pos : ∀ t, p.token = some t → 0 < t
  tier : ∀ m, p.metadata = some m → m.bodyUpstream = false

theorem TieredPut.Effect.well (hl : store.Lawful) {newBodyRef : ℕ → Bytes} {i : ℕ}
    {p p' : TieredPut} (hp : PutWell p) (h : Effect store newBodyRef i sh p sh' p') :
    PutWell p' := by
  have htoken := hp.token_pos
  have htier := hp.tier
  cases h with
  | readProbe | readAccept =>
    refine ⟨?_, by simp [TieredPut.metadata]⟩
    rintro t ⟨⟩
    exact hl.get_pos _
  | accept phase =>
    rw [TieredPut.token, phase] at htoken
    exact ⟨htoken, by simp [TieredPut.metadata]⟩
  | stage phase staged =>
    rw [TieredPut.token, phase] at htoken
    refine ⟨htoken, ?_⟩
    rintro m ⟨⟩
    exact staged.tier
  | retry phase =>
    rw [TieredPut.metadata, phase] at htier
    exact ⟨by simp [TieredPut.token], htier⟩
  | reread phase =>
    rw [TieredPut.metadata, phase] at htier
    refine ⟨?_, htier⟩
    rintro t ⟨⟩
    exact hl.get_pos _
  | forward | refuse | readForward | readRefuse | abort | install | discard =>
    exact ⟨by simp [TieredPut.token], by simp [TieredPut.metadata]⟩

section Engine

variable (hl : store.Lawful) (hlive : store.LiveReads) (htier : TierOk store high sh)
include hl hlive htier

theorem TieredPut.Effect.moves {newBodyRef : ℕ → Bytes} {i : ℕ} {p p' : TieredPut}
    (hp : PutWell p) (h : Effect store newBodyRef i sh p sh' p') :
    ∃ high', Moves store pinned high high' sh sh' := by
  cases h with
  | forward | accept | retry => exact ⟨high, .refl hl hlive htier⟩
  | refuse | abort => exact ⟨high, .quiet hl hlive htier (.inl rfl) rfl rfl ⟨_, rfl⟩⟩
  | readForward | readProbe | readAccept =>
    exact ⟨high, .quiet hl hlive htier (.inr rfl) rfl rfl ⟨_, rfl⟩⟩
  | readRefuse =>
    exact ⟨high, .quiet hl hlive htier (.inr rfl) rfl rfl ⟨_, List.append_assoc _ _ _⟩⟩
  | stage | discard => exact ⟨high, .quiet hl hlive htier (.inl rfl) rfl rfl sh.log_extends⟩
  | reread => exact ⟨high, .quiet hl hlive htier (.inr rfl) rfl rfl sh.log_extends⟩
  | install phase version row advances answered =>
    have hlocal := hp.tier _ (by rw [TieredPut.metadata, phase])
    refine ⟨_, .client row advances htier.high_lt (Nat.lt_succ_self _) ?_ rfl (Nat.le_succ _)
      ⟨_, _, List.append_assoc _ _ _, List.mem_append_left _ (List.mem_singleton_self _), rfl⟩⟩
    intro hmarker
    rw [hlocal] at hmarker
    cases hmarker

theorem EngineDelete.step_moves {d : ℕ} {q q' : EngineDelete} {input : DeleteInput}
    (hstep : q.step store d sh input = some (sh', q')) :
    ∃ high', Moves store pinned high high' sh sh' := by
  rcases EngineDelete.step_cases hl hstep with rfl | ⟨s, hgone, hlt, rfl⟩
  · exact ⟨high, .refl hl hlive htier⟩
  · exact ⟨high, .removal htier hgone hlt rfl rfl ⟨_, rfl⟩⟩

end Engine

/-! ## All of them -/

variable (store cfg lib) in
structure TierInv (high : ℕ) (w : TieredWorld σ) : Prop where
  tier : TierOk store high w.shared
  put : ∀ i p, w.puts i = some p → PutWell p
  mutation : ∀ j m, w.mutations j = some m → MutationOk store cfg lib high w.shared j m
  retier : ∀ r k, w.retiers r = some k → RetierOk store w.shared k
  upgrade : ∀ u k, w.upgrades u = some k → UpgradeOk store w.shared k

namespace TieredWorld

variable {w w' : TieredWorld σ}

theorem pinned_of_holds {j : ℕ} {m : Forwarded} (hj : w.mutations j = some m)
    (hok : MutationOk store cfg lib high w.shared j m) (hholds : m.holds = true) {row : Option Row}
    (hprior : m.prior = some (row, store.version w.shared.store)) : w.pinned store = true := by
  rw [pinned, List.any_eq_true]
  refine ⟨.captured j, hok.captured (by simp [hprior]), ?_⟩
  simp [hj, hholds, hprior]

end TieredWorld

namespace TierInv

variable {w w' : TieredWorld σ}

/-- A step keeps the invariant when it is one of the moves, and every process that it
changes is as it should be. -/
theorem step (hw : TierInv store cfg lib high w)
    (hm : Moves store (w.pinned store = true) high high' w.shared w'.shared)
    (hputs : TableStep w.puts w'.puts fun _ p => PutWell p)
    (hmutations : TableStep w.mutations w'.mutations
      fun j m => MutationOk store cfg lib high' w'.shared j m)
    (hretiers : TableStep w.retiers w'.retiers fun _ k => RetierOk store w'.shared k)
    (hupgrades : TableStep w.upgrades w'.upgrades fun _ k => UpgradeOk store w'.shared k) :
    TierInv store cfg lib high' w' where
  tier := hm.tierOk hw.tier
  put := by
    intro i p hp
    rcases hputs i p hp with hold | hnew
    · exact hw.put i p hold
    · exact hnew
  mutation := by
    intro j m hj
    rcases hmutations j m hj with hold | hnew
    · have hok := hw.mutation j m hold
      exact hok.moves hm fun row hholds hprior => TieredWorld.pinned_of_holds hold hok hholds hprior
    · exact hnew
  retier := by
    intro r k hk
    rcases hretiers r k hk with hold | hnew
    · exact (hw.retier r k hold).moves hm
    · exact hnew
  upgrade := by
    intro u k hk
    rcases hupgrades u k hk with hold | hnew
    · exact (hw.upgrade u k hold).moves hm
    · exact hnew

theorem claimed (hw : TierInv store cfg lib high w) (node : ℕ) :
    TableStep w.retiers (w.claimRetierWrite node).retiers fun _ k => RetierOk store w.shared k := by
  intro r k hk
  cases hinflight : w.inflight node with
  | none =>
    simp only [TieredWorld.claimRetierWrite, hinflight] at hk
    exact .inl hk
  | some r' =>
    simp only [TieredWorld.claimRetierWrite, hinflight] at hk
    by_cases hr : r = r'
    · subst hr
      rw [Function.update_self, Option.map_eq_some_iff] at hk
      obtain ⟨old, hold, rfl⟩ := hk
      have hok := hw.retier r old hold
      exact .inr ⟨hok.observed, hok.marker_lt, hok.marker_reached, hok.row_le⟩
    · rw [Function.update_of_ne hr] at hk
      exact .inl hk

/-! Who holds the key, and which re-tier runs where, does not matter. -/

theorem release (hw : TierInv store cfg lib high w) (done : Bool) (node : ℕ) :
    TierInv store cfg lib high (w.releaseRetierWrite done node) := by
  unfold TieredWorld.releaseRetierWrite
  split
  · exact ⟨hw.tier, hw.put, hw.mutation, hw.retier, hw.upgrade⟩
  · exact hw

theorem unregister (hw : TierInv store cfg lib high w) (r : ℕ) (k : Retier) :
    TierInv store cfg lib high (w.unregisterRetier r k) := by
  unfold TieredWorld.unregisterRetier
  split
  · exact ⟨hw.tier, hw.put, hw.mutation, hw.retier, hw.upgrade⟩
  · exact hw

variable {newBodyRef : ℕ → Bytes} (hl : store.Lawful) (hlive : store.LiveReads)
  (hw : TierInv store cfg lib high w)
include hl hlive hw

theorem mutation_step {j : ℕ} {input : ForwardedInput} {m : Forwarded} {x : Tier σ × Forwarded}
    (herror : (TieredLabel.mutation j input).storeError = false) (hj : w.mutations j = some m)
    (hx : m.step store cfg lib j w.shared input = some x) :
    ∃ high', TierInv store cfg lib high'
      { w with shared := x.1, mutations := Function.update w.mutations j (some x.2) } := by
  have hok := hw.mutation j m hj
  have hpos : m.settling = true → 0 < m.priorVersion := by
    intro hsettling
    obtain ⟨⟨row, t⟩, hprior⟩ := Option.ne_none_iff_exists'.mp (hok.settled hsettling)
    simp only [Forwarded.priorVersion, hprior]
    exact (hok.observed row t hprior).pos
  obtain ⟨high', hm, hok'⟩ := (Forwarded.step_effect hl hpos herror hx).ok hl hlive hw.tier hok
  exact ⟨high', hw.step hm .refl (.update hok') .refl .refl⟩

theorem retier_step {r : ℕ} {input : RetierInput} {k : Retier} {x : Tier σ × Retier}
    (herror : (TieredLabel.retier r input).storeError = false)
    (hsafe : w.commitSafe store (.retier r input) = true) (hk : w.retiers r = some k)
    (hx : k.step store cfg newBodyRef r w.shared input = some x) :
    ∃ high', TierInv store cfg lib high'
      { w with shared := x.1, retiers := Function.update w.retiers r (some x.2) } := by
  have hok := hw.retier r k hk
  have heffect := Retier.step_effect hl hok.observed.pos herror hx
  have hfree : ∀ row, k.phase = .committing row ∨ k.phase = .rewriting row →
      store.version w.shared.store = k.version → ¬ w.pinned store = true := by
    intro row hphase hversion
    rw [TieredWorld.commitSafe, hk, Option.all_some] at hsafe
    rcases hphase with hphase | hphase
    · simpa [hphase, hversion] using hsafe
    · simpa [hphase, hversion] using hsafe
  obtain ⟨high', hm, hok'⟩ := heffect.ok hl hlive hw.tier hok hfree
  exact ⟨high', hw.step hm .refl .refl (.update hok') .refl⟩

theorem upgrade_step {u : ℕ} {input : UpgradeInput} {k : MarkerUpgrade}
    {x : Tier σ × MarkerUpgrade} (herror : (TieredLabel.upgrade u input).storeError = false)
    (hsafe : w.commitSafe store (.upgrade u input) = true) (hk : w.upgrades u = some k)
    (hx : k.step store cfg w.shared input = some x) :
    ∃ high', TierInv store cfg lib high'
      { w with shared := x.1, upgrades := Function.update w.upgrades u (some x.2) } := by
  have hok := hw.upgrade u k hk
  have hpos : ∀ full cur v, k.phase = .committing full cur v → 0 < v :=
    fun full cur v hphase => (hok.committing full cur v hphase).1.pos
  have heffect := MarkerUpgrade.step_effect hl hpos herror hx
  have hfree : ∀ full cur v, k.phase = .committing full cur v →
      store.version w.shared.store = v → ¬ w.pinned store = true ∧ cur.source ≤ full.source := by
    intro full cur v hphase hversion
    rw [TieredWorld.commitSafe, hk, Option.all_some] at hsafe
    simpa [hphase, hversion] using hsafe
  obtain ⟨high', hm, hok'⟩ := heffect.ok hl hlive hw.tier hok hfree
  exact ⟨high', hw.step hm .refl .refl .refl (.update hok')⟩

theorem preserved {l : TieredLabel} (herror : l.storeError = false)
    (hsafe : w.commitSafe store l = true)
    (hstep : w.step store cfg lib newBodyRef l = some w') :
    ∃ high', TierInv store cfg lib high' w' := by
  have hstill : Moves store (w.pinned store = true) high high w.shared w.shared :=
    .refl hl hlive hw.tier
  cases TieredWorld.stepped hstep with
  | put found step =>
    have hwell := hw.put _ _ found
    have heffect := TieredPut.step_effect hl hwell.token_pos step
    obtain ⟨high', hm⟩ := heffect.moves hl hlive hw.tier hwell
    refine ⟨high', release ?_ _ _⟩
    exact hw.step hm (.update (heffect.well hl hwell)) .refl .refl .refl
  | delete found step =>
    obtain ⟨high', hm⟩ := EngineDelete.step_moves hl hlive hw.tier step
    refine ⟨high', release ?_ _ _⟩
    exact hw.step hm .refl .refl .refl .refl
  | mutation found step =>
    obtain ⟨high', hw'⟩ := hw.mutation_step hl hlive herror found step
    exact ⟨high', hw'.release _ _⟩
  | retier found step =>
    obtain ⟨high', hw'⟩ := hw.retier_step hl hlive herror hsafe found step
    exact ⟨high', hw'.unregister _ _⟩
  | upgrade found step => exact hw.upgrade_step hl hlive herror hsafe found step
  | readMarker read unused free fits =>
    rw [w.shared.getMetaWithVersion_eq hl, Prod.mk.injEq, Prod.mk.injEq] at read
    obtain ⟨rfl, hrow, rfl⟩ := read
    have hm : Moves store (w.pinned store = true) high high w.shared
        { w.shared with store := (store.getWithVersion w.shared.store).1 } :=
      .quiet hl hlive hw.tier (.inr rfl) rfl rfl w.shared.log_extends
    rw [Retier.fits, Bool.and_eq_true] at fits
    have hlt := (hw.tier.row_le _ hrow).trans_lt hw.tier.high_lt
    refine ⟨high, hw.step hm .refl .refl (.update ⟨?_, hlt, ?_, by simp [RetierPhase.row]⟩) .refl⟩
    · rw [← hrow]
      exact hl.get_observed _
    · exact hw.tier.marker_reached _ hrow fits.1
  -- the steps that start a process, or move it without touching the shared state
  | @startPut i p unused free routing =>
    have hwell : PutWell p :=
      ⟨by simp [TieredPut.token, routing], by simp [TieredPut.metadata, routing]⟩
    exact ⟨high, hw.step hstill (.update hwell) .refl (hw.claimed _) .refl⟩
  | forwardPut => exact ⟨high, hw.step hstill .refl (.update (.start _ _)) .refl .refl⟩
  | deleteHere => exact ⟨high, hw.step hstill .refl .refl (hw.claimed _) .refl⟩
  | deleteUpstream | startMutation =>
    exact ⟨high, hw.step hstill .refl (.update (.start _ _)) (hw.claimed _) .refl⟩
  | registered found | unregistered found =>
    refine ⟨high, hw.step hstill .refl .refl (.update ?_) .refl⟩
    exact (hw.retier _ _ found).rephase (by simp [RetierPhase.row])
  | startUpgrade => exact ⟨high, hw.step hstill .refl .refl .refl (.update ⟨by simp, by simp⟩)⟩

end TierInv

variable (store) in
/-- Before any request: upstream's versions are numbered in order, and a marker
stands for one that upstream has made. -/
structure TieredWorld.Starts (w : TieredWorld σ) : Prop where
  puts : ∀ i, w.puts i = none
  mutations : ∀ j, w.mutations j = none
  retiers : ∀ r, w.retiers r = none
  upgrades : ∀ u, w.upgrades u = none
  next_pos : 0 < w.shared.nextId
  row_lt : ∀ row, store.row w.shared.store = some row → row.source < w.shared.nextId
  object_lt : ∀ o, w.shared.object = some o → o.id < w.shared.nextId
  marker_reached : ∀ row, store.row w.shared.store = some row → row.metadata.bodyUpstream = true →
    w.shared.Reached row.source

theorem TierInv.initial {w : TieredWorld σ} (hstart : w.Starts store) :
    TierInv store cfg lib (w.shared.nextId - 1) w where
  tier := by
    have hnext := hstart.next_pos
    refine ⟨fun row hrow => ?_, by omega, hstart.object_lt, hstart.marker_reached⟩
    have hlt := hstart.row_lt row hrow
    omega
  put i p hp := by
    rw [hstart.puts i] at hp
    cases hp
  mutation j m hj := by
    rw [hstart.mutations j] at hj
    cases hj
  retier r k hk := by
    rw [hstart.retiers r] at hk
    cases hk
  upgrade u k hk := by
    rw [hstart.upgrades u] at hk
    cases hk

/-- Take any run of PUTs, completions, DELETEs, copies, re-tiers and upgrades of a key
on any nodes, without store errors, in which no worker commits over a row that an
unfinished forwarded mutation has read, nor an upgrade over the marker of a later
version. Once a mutation that owns the row ended with a change that upstream
confirmed, the visible row is not that of the version it displaced, and after a DELETE
or a copy there is none unless another client's row became visible after the mutation
read the row. -/
theorem forwarded_mutation_not_lost (hl : store.Lawful) (hlive : store.LiveReads)
    {newBodyRef : ℕ → Bytes} {w w' : TieredWorld σ} (hstart : w.Starts store)
    {ls : List TieredLabel} (herror : ∀ l ∈ ls, l.storeError = false)
    (hsafe : Along (TieredWorld.step store cfg lib newBodyRef)
      (fun w l => w.commitSafe store l = true) w ls)
    (hrun : run (TieredWorld.step store cfg lib newBodyRef) w ls = some w') {j : ℕ} {m : Forwarded}
    (hm : w'.mutations j = some m) (howns : m.ownsRow cfg lib = true)
    (hfinished : m.phase = .finished) (hconfirmed : m.confirmed = true) :
    (∃ prior t, m.prior = some (prior, t) ∧ ∀ displaced, prior = some displaced →
      ∀ row, store.row w'.shared.store = some row → row.source ≠ displaced.source) ∧
    (m.kind.clears = true → store.row w'.shared.store = none ∨
      ∃ e, e.isInstall = true ∧ [TierEvent.captured j, e] <+ w'.shared.log) := by
  have hpreserved : ∀ w l w', (∃ high, TierInv store cfg lib high w) →
      l.storeError = false ∧ w.commitSafe store l = true →
      w.step store cfg lib newBodyRef l = some w' → ∃ high, TierInv store cfg lib high w' := by
    rintro w l w' ⟨high, hw⟩ ⟨hnone, hcommit⟩ hstep
    exact hw.preserved hl hlive hnone hcommit hstep
  obtain ⟨high, hw⟩ :=
    run_invariant hpreserved ⟨_, .initial hstart⟩ (hsafe.and_forall herror) hrun
  have hok := hw.mutation j m hm
  have hdone : m.done = true := by simp [Forwarded.done, hfinished, hconfirmed]
  obtain ⟨⟨prior, t⟩, hprior⟩ :=
    Option.ne_none_iff_exists'.mp ((hok.owned (by simp [hfinished])).mp howns)
  constructor
  · refine ⟨prior, t, hprior, fun displaced hdisplaced row hrow => ?_⟩
    rw [hdisplaced] at hprior
    exact ne_of_gt (hok.newer displaced t hprior (.inr hdone) row hrow)
  · intro hclears
    exact hok.cleared prior t hprior hclears (.inr hdone)

/-! A DELETE on one node against a re-tier on another. -/

def fourByteMarker : Row :=
  ⟨{ key := ascii "key", bucket := ascii "bucket", etag := ascii "a", contentLength := 4
     bodyUpstream := true }, 0⟩

def markedTier : TieredWorld (Cell Row) where
  shared :=
    { store := ⟨some fourByteMarker, 1⟩
      object := some ⟨0, ascii "a"⟩
      nextId := 1
      bodies := []
      log := [] }

theorem markedTier_starts : markedTier.Starts Cell.store where
  puts _ := rfl
  mutations _ := rfl
  retiers _ := rfl
  upgrades _ := rfl
  next_pos := by decide
  row_lt := by
    rintro row ⟨⟩
    decide
  object_lt := by
    rintro o ⟨⟩
    decide
  marker_reached := by
    rintro row ⟨⟩ - o ⟨⟩
    decide

/-- The re-tier has moved the body; the DELETE has read the row, and upstream has no
object any more. -/
def deleteUnderWay : List TieredLabel :=
  [.readMarker 0 1, .registerRetier 0, .retier 0 .proceed,
    .retier 0 (.response { taggedResponse 200 "a" "4" with body := ascii "body" } true),
    .retier 0 (.stream [(8, ⟨4, true⟩)] .stored),
    .retier 0 .proceed, .retier 0 .proceed, .startDelete 0 0 true, .mutation 0 .proceed,
    .mutation 0 (.apply [])]

def deleteAnswered : List TieredLabel :=
  [.mutation 0 (.respond 204 [] false 0), .mutation 0 .proceed]

def deleteEnded : Forwarded where
  node := 0
  kind := .deleteObject
  phase := .finished
  prior := some (some fourByteMarker, 2)
  applied := some 1
  confirmed := true

theorem forwarded_mutation_not_lost_delete :
    ∃ w, run (TieredWorld.step Cell.store sampleTiered engineLib sampleRef) markedTier
        (deleteUnderWay ++ deleteAnswered ++ [.retier 0 .proceed, .retier 0 (.discard true)]) =
          some w ∧ w.mutations 0 = some deleteEnded ∧
      (Cell.store.row w.shared.store = none ∨
        ∃ e, e.isInstall = true ∧ [TierEvent.captured 0, e] <+ w.shared.log) := by
  have hends : ∃ w, run (TieredWorld.step Cell.store sampleTiered engineLib sampleRef) markedTier
      (deleteUnderWay ++ deleteAnswered ++ [.retier 0 .proceed, .retier 0 (.discard true)]) =
        some w ∧ w.mutations 0 = some deleteEnded := exists_run_of_any (by decide +kernel)
  obtain ⟨w, hrun, hm⟩ := hends
  refine ⟨w, hrun, hm, ?_⟩
  exact (forwarded_mutation_not_lost Cell.store_lawful Cell.store_liveReads markedTier_starts
    (by decide +kernel) (by decide +kernel) hrun hm rfl rfl rfl).2 rfl

/-- The re-tier, past its last look at its context, commits before the DELETE is
answered: the DELETE ends, and the object it deleted is still there. -/
theorem forwarded_delete_lost_to_retier :
    ∃ w, run (TieredWorld.step Cell.store sampleTiered engineLib sampleRef) markedTier
        (deleteUnderWay ++ [.retier 0 .proceed] ++ deleteAnswered) = some w ∧
      (∀ l ∈ deleteUnderWay ++ [.retier 0 .proceed] ++ deleteAnswered, l.storeError = false) ∧
      w.mutations 0 = some deleteEnded ∧ TierEvent.acked 0 ∈ w.shared.log ∧
      (w.retiers 0).map Retier.phase = some .finished ∧
      (∀ e ∈ w.shared.log, e.isInstall = false) ∧ w.shared.object = none ∧
      (Cell.store.row w.shared.store).map Row.source = some fourByteMarker.source := by
  have hends : ∃ w, run (TieredWorld.step Cell.store sampleTiered engineLib sampleRef) markedTier
      (deleteUnderWay ++ [.retier 0 .proceed] ++ deleteAnswered) = some w ∧
      w.mutations 0 = some deleteEnded ∧ TierEvent.acked 0 ∈ w.shared.log ∧
      (w.retiers 0).map Retier.phase = some .finished ∧
      (∀ e ∈ w.shared.log, e.isInstall = false) ∧ w.shared.object = none ∧
      (Cell.store.row w.shared.store).map Row.source = some fourByteMarker.source :=
    exists_run_of_any (by decide +kernel)
  obtain ⟨w, hrun, hrest⟩ := hends
  exact ⟨w, hrun, by decide +kernel, hrest⟩

end TagGateway.Proxy
