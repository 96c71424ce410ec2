import TagGateway.Proxy.TieredProtocol
import Mathlib.Data.Set.Card

/-!
# Claims and registrations

A node keeps one count of the writes that hold the key and one place for a running
re-tier. A write counts itself in before it does anything and out when its handler
returns, and a re-tier takes the place only while the count is zero. So no two re-tiers
run on a node, and one that runs while a write does has been told to stop.
-/
namespace TagGateway.Proxy

open Foundation Cache

universe u

variable {σ : Type u} {store : VersionedStore σ Row} {cfg : TieredConfig} {lib : EngineLib}
  {newBodyRef : ℕ → Bytes}

namespace Retier

def active (w : Retier) : Bool :=
  match w.phase with
  | .seen | .finished => false
  | .verifying | .fetching | .storing _ _ | .rereading _ | .checking _ | .committing _ | .removing
  | .rewriting _ | .discarding => true

variable {r : ℕ} {sh : Tier σ} {w : Retier}

theorem receive_phase (resp : Response) (drained : Bool) :
    ∃ q, w.receive cfg sh resp drained = { w with phase := q } := by
  unfold receive
  dsimp only
  split_ifs <;> exact ⟨_, rfl⟩

theorem stream_phase (row : Row) (body : Source UInt8) (calls : List (ℕ × Reply))
    (reply : BodyReply) :
    ∃ q, (w.stream newBodyRef r sh row body calls reply).2 = { w with phase := q } := by
  unfold stream
  dsimp only
  split_ifs <;> exact ⟨_, rfl⟩

/-- Only a registered worker moves, and a step changes nothing of it but its phase. -/
theorem step_phase {x : Tier σ × Retier} {input : RetierInput}
    (hstep : w.step store cfg newBodyRef r sh input = some x) :
    w.active = true ∧ ∃ q, x.2 = { w with phase := q } := by
  unfold step at hstep
  split at hstep
  case h_2 hphase =>
    split at hstep
    · cases hstep
      exact ⟨by rw [active, hphase], receive_phase _ _⟩
    · cases hstep
  case h_3 hphase =>
    cases hstep
    exact ⟨by rw [active, hphase], stream_phase _ _ _ _⟩
  all_goals
    cases hstep
    try exact ⟨by simp [active, *], _, rfl⟩

end Retier

namespace TieredPut

variable {i : ℕ} {sh : Tier σ} {p : TieredPut}

theorem accept_node (token : ℕ) : (p.accept cfg i sh token).2.node = p.node := by
  unfold accept
  split
  · rfl
  · split_ifs <;> rfl

theorem judge_node (visible : Option CachedObjectMeta) (token : ℕ) :
    (p.judge cfg i sh visible token).2.node = p.node := by
  unfold judge
  split
  · rfl
  · exact accept_node token

theorem handleOriginlessPut_node (row : Option Row) (token : ℕ) :
    (p.handleOriginlessPut cfg i sh row token).2.node = p.node := by
  unfold handleOriginlessPut
  split_ifs
  · split
    · exact judge_node _ _
    · split_ifs
      · exact judge_node _ _
      · rfl
  · exact accept_node token

theorem route_node (overBudget : Bool) :
    (p.route store cfg lib i sh overBudget).2.node = p.node := by
  unfold route
  dsimp only
  split_ifs
  all_goals first | rfl | exact handleOriginlessPut_node _ _

theorem upload_node (token : ℕ) (size : ℤ) (up : Upload) :
    (p.upload cfg lib newBodyRef i sh token size up).2.node = p.node := by
  unfold upload
  split
  · rfl
  · dsimp only
    split <;> rfl

theorem commit_node (metadata : CachedObjectMeta) (token attempt : ℕ) :
    (p.commit store i sh metadata token attempt).2.node = p.node := by
  unfold commit
  split
  · rfl
  · split_ifs <;> rfl

theorem step_node {x : Tier σ × TieredPut} {input : TieredPutInput}
    (hstep : p.step store cfg lib newBodyRef i sh input = some x) :
    p.phase ≠ .finished ∧ p.phase ≠ .forwarded ∧ x.2.node = p.node := by
  unfold step at hstep
  split at hstep
  case h_1 hphase =>
    cases hstep
    exact ⟨by simp [hphase], by simp [hphase], route_node _⟩
  case h_2 hphase =>
    split at hstep
    · cases hstep
      exact ⟨by simp [hphase], by simp [hphase], rfl⟩
    · cases hstep
  case h_3 hphase =>
    cases hstep
    exact ⟨by simp [hphase], by simp [hphase], judge_node _ _⟩
  case h_6 hphase =>
    cases hstep
    exact ⟨by simp [hphase], by simp [hphase], upload_node _ _ _⟩
  case h_7 hphase =>
    cases hstep
    exact ⟨by simp [hphase], by simp [hphase], commit_node _ _ _⟩
  all_goals
    cases hstep
    try exact ⟨by simp [*], by simp [*], rfl⟩

end TieredPut

/-- A handler that has returned is done, and a mutation stays on its node. -/
theorem Forwarded.step_node {j : ℕ} {sh : Tier σ} {m : Forwarded} {x : Tier σ × Forwarded}
    {input : ForwardedInput} (hstep : m.step store cfg lib j sh input = some x) :
    x.2.node = m.node ∧ (m.returned = true → x.2.returned = true) := by
  have hconfirm : ∀ etag now, (m.confirm cfg lib etag now).node = m.node := by
    intro etag now
    unfold confirm invalidateDisplacedTieredMeta
    dsimp only
    split_ifs
    · rfl
    · rfl
    · split <;> rfl
    · rfl
  have hsweep : m.invalidateDisplacedTieredMeta.node = m.node := by
    unfold invalidateDisplacedTieredMeta
    split <;> rfl
  unfold step at hstep
  split at hstep
  case h_1 hphase =>
    split at hstep
    all_goals
      cases hstep
      exact ⟨rfl, by simp [returned, hphase]⟩
  case h_3 hphase =>
    split at hstep
    · cases hstep
      exact ⟨rfl, by simp [returned, hphase]⟩
    · cases hstep
  case h_4 hphase =>
    split at hstep
    · cases hstep
      exact ⟨rfl, by simp [returned, hphase, applyUpstream]⟩
    · cases hstep
  case h_5 hphase =>
    split at hstep
    · split at hstep
      · cases hstep
      · cases hstep
        exact ⟨hconfirm _ _, by simp [returned, hphase]⟩
    · cases hstep
      exact ⟨rfl, by simp [returned, hphase]⟩
  case h_8 hphase =>
    cases hstep
    refine ⟨?_, by simp [returned, hphase]⟩
    unfold commitUpstreamMarker
    split
    · rfl
    · exact hsweep
  case h_9 hphase =>
    cases hstep
    exact ⟨hsweep, by simp [returned, hphase]⟩
  all_goals
    cases hstep
    try exact ⟨rfl, by simp [returned, *]⟩

namespace TieredWorld

variable (w : TieredWorld σ) {w' : TieredWorld σ}

theorem claimRetierWrite_retiers {node r : ℕ} {wk : Retier}
    (hwk : (w.claimRetierWrite node).retiers r = some wk) :
    ∃ old c, w.retiers r = some old ∧ wk = { old with canceled := c } ∧
      (old.canceled = true ∨ w.inflight node = some r → c = true) := by
  cases hplace : w.inflight node with
  | none =>
    simp only [claimRetierWrite, hplace] at hwk
    exact ⟨wk, wk.canceled, hwk, rfl, by simp⟩
  | some k =>
    simp only [claimRetierWrite, hplace] at hwk
    by_cases hr : r = k
    · subst hr
      rw [Function.update_self, Option.map_eq_some_iff] at hwk
      obtain ⟨old, hold, rfl⟩ := hwk
      exact ⟨old, true, hold, rfl, fun _ => rfl⟩
    · rw [Function.update_of_ne hr] at hwk
      refine ⟨wk, wk.canceled, hwk, rfl, ?_⟩
      rintro (hc | hc)
      · exact hc
      · exact absurd (Option.some.inj hc).symm hr

@[simp] theorem releaseRetierWrite_retiers (done : Bool) (node : ℕ) :
    (releaseRetierWrite done node w).retiers = w.retiers := by
  cases done <;> rfl

@[simp] theorem releaseRetierWrite_mutations (done : Bool) (node : ℕ) :
    (releaseRetierWrite done node w).mutations = w.mutations := by
  cases done <;> rfl

@[simp] theorem unregisterRetier_puts (r : ℕ) (wk : Retier) :
    (unregisterRetier r wk w).puts = w.puts := by
  unfold unregisterRetier
  split_ifs <;> rfl

@[simp] theorem unregisterRetier_retiers (r : ℕ) (wk : Retier) :
    (unregisterRetier r wk w).retiers = w.retiers := by
  unfold unregisterRetier
  split_ifs <;> rfl

variable (store cfg newBodyRef) in
/-- How worker `r` came to be as it is after a step. -/
inductive RetierMove (w w' : TieredWorld σ) (l : TieredLabel) (r : ℕ) (wk : Retier) : Prop
  | kept {old : Retier} (found : w.retiers r = some old) (c : Bool)
      (eq : wk = { old with canceled := c })
  | read {node : ℕ} (label : l = .readMarker r node) (unused : w.puts r = none)
      (fits : Retier.fits cfg wk.marker.metadata = true)
      (found : (w.shared.getMetaWithVersion store).2 = (some wk.marker, wk.version))
      (shared : w'.shared = (w.shared.getMetaWithVersion store).1) (phase : wk.phase = .seen)
  | placed {old : Retier} {q : RetierPhase} (found : w.retiers r = some old)
      (phase : q = .verifying ∨ q = .finished) (eq : wk = { old with phase := q })
  | moved {old : Retier} {input : RetierInput} {x : Tier σ × Retier} (label : l = .retier r input)
      (found : w.retiers r = some old)
      (step : old.step store cfg newBodyRef r w.shared input = some x) (eq : wk = x.2)

variable {w}

theorem step_retier {l : TieredLabel} {r : ℕ} {wk : Retier}
    (hstep : w.step store cfg lib newBodyRef l = some w') (hwk : w'.retiers r = some wk) :
    RetierMove store cfg newBodyRef w w' l r wk := by
  have hclaim : ∀ node, (w.claimRetierWrite node).retiers r = some wk →
      RetierMove store cfg newBodyRef w w' l r wk := by
    intro node hold
    obtain ⟨old, c, hold, heq, -⟩ := w.claimRetierWrite_retiers hold
    exact .kept hold c heq
  cases stepped hstep with
  | startPut | deleteHere | deleteUpstream | startMutation => exact hclaim _ hwk
  | put | delete | mutation =>
    rw [releaseRetierWrite_retiers] at hwk
    exact .kept hwk wk.canceled rfl
  | forwardPut | startUpgrade | upgrade => exact .kept hwk wk.canceled rfl
  | readMarker read unused free fits =>
    rcases update_eq_some_cases hwk with ⟨rfl, rfl⟩ | hold
    · exact .read rfl free fits (congrArg Prod.snd read) (congrArg Prod.fst read.symm) rfl
    · exact .kept hold wk.canceled rfl
  | registered found =>
    rcases update_eq_some_cases hwk with ⟨rfl, rfl⟩ | hkept
    · exact .placed found (.inl rfl) rfl
    · exact .kept hkept wk.canceled rfl
  | unregistered found =>
    rcases update_eq_some_cases hwk with ⟨rfl, rfl⟩ | hkept
    · exact .placed found (.inr rfl) rfl
    · exact .kept hkept wk.canceled rfl
  | retier found step =>
    rw [unregisterRetier_retiers] at hwk
    rcases update_eq_some_cases hwk with ⟨rfl, rfl⟩ | hkept
    · exact .moved rfl found step rfl
    · exact .kept hkept wk.canceled rfl

end TieredWorld

/-! ## Registrations -/

/-- A registered worker is the one its node knows of, and has been cancelled if a write
holds the key there. -/
structure Registry (w : TieredWorld σ) : Prop where
  registered : ∀ r wk, w.retiers r = some wk → wk.active = true → w.inflight wk.node = some r
  canceled : ∀ r wk, w.retiers r = some wk → wk.active = true → 0 < w.claims wk.node →
    wk.canceled = true

namespace Registry

variable {w w' : TieredWorld σ}

theorem congr (hw : Registry w) (hretiers : w'.retiers = w.retiers)
    (hinflight : w'.inflight = w.inflight)
    (hclaims : ∀ node, 0 < w'.claims node → 0 < w.claims node) : Registry w' := by
  constructor
  · rw [hretiers, hinflight]
    exact hw.registered
  · rw [hretiers]
    intro r wk hwk hactive hpos
    exact hw.canceled r wk hwk hactive (hclaims _ hpos)

theorem claim (hw : Registry w) (node : ℕ) : Registry (w.claimRetierWrite node) := by
  constructor
  · intro r wk hwk hactive
    obtain ⟨old, c, hold, rfl, -⟩ := w.claimRetierWrite_retiers hwk
    exact hw.registered r old hold hactive
  · intro r wk hwk hactive hpos
    obtain ⟨old, c, hold, rfl, hcanceled⟩ := w.claimRetierWrite_retiers hwk
    apply hcanceled
    by_cases hn : old.node = node
    · exact .inr (hn ▸ hw.registered r old hold hactive)
    · left
      apply hw.canceled r old hold hactive
      simpa [TieredWorld.claimRetierWrite, Function.update_of_ne hn] using hpos

theorem release (hw : Registry w) (done : Bool) (node : ℕ) :
    Registry (w.releaseRetierWrite done node) := by
  unfold TieredWorld.releaseRetierWrite
  split_ifs
  · refine hw.congr rfl rfl fun n hn => ?_
    dsimp only at hn
    by_cases hnode : n = node
    · subst hnode
      rw [Function.update_self] at hn
      omega
    · rwa [Function.update_of_ne hnode] at hn
  · exact hw

theorem register (hw : Registry w) {r : ℕ} {wk : Retier} (hclaims : w.claims wk.node = 0)
    (hfree : w.inflight wk.node = none) :
    Registry { w with
      retiers := Function.update w.retiers r (some { wk with phase := .verifying })
      inflight := Function.update w.inflight wk.node (some r) } := by
  constructor
  · intro k old hold hactive
    dsimp only at hold ⊢
    rcases update_eq_some_cases hold with ⟨rfl, rfl⟩ | hold
    · exact Function.update_self _ _ _
    · have hreg := hw.registered k old hold hactive
      have hne : old.node ≠ wk.node := by
        intro heq
        rw [heq, hfree] at hreg
        cases hreg
      rw [Function.update_of_ne hne]
      exact hreg
  · intro k old hold hactive hpos
    rcases update_eq_some_cases hold with ⟨rfl, rfl⟩ | hold
    · exact absurd hclaims (Nat.ne_of_gt hpos)
    · exact hw.canceled k old hold hactive hpos

theorem idle (hw : Registry w) {r : ℕ} {wk : Retier} {sh : Tier σ} (hidle : wk.active = false) :
    Registry { w with shared := sh, retiers := Function.update w.retiers r (some wk) } := by
  constructor
  · intro k old hold hactive
    rcases update_eq_some_cases hold with ⟨rfl, rfl⟩ | hold
    · rw [hidle] at hactive
      cases hactive
    · exact hw.registered k old hold hactive
  · intro k old hold hactive hpos
    rcases update_eq_some_cases hold with ⟨rfl, rfl⟩ | hold
    · rw [hidle] at hactive
      cases hactive
    · exact hw.canceled k old hold hactive hpos

theorem rephase (hw : Registry w) {r : ℕ} {wk : Retier} {sh : Tier σ} (q : RetierPhase)
    (hwk : w.retiers r = some wk) (hactive : wk.active = true) :
    Registry { w with
      shared := sh, retiers := Function.update w.retiers r (some { wk with phase := q }) } := by
  constructor
  · intro k old hold hq
    rcases update_eq_some_cases hold with ⟨rfl, rfl⟩ | hold
    · exact hw.registered k wk hwk hactive
    · exact hw.registered k old hold hq
  · intro k old hold hq hpos
    rcases update_eq_some_cases hold with ⟨rfl, rfl⟩ | hold
    · exact hw.canceled k wk hwk hactive hpos
    · exact hw.canceled k old hold hq hpos

theorem unregister (hw : Registry w) {r : ℕ} {wk : Retier} (hwk : w.retiers r = some wk) :
    Registry (w.unregisterRetier r wk) := by
  unfold TieredWorld.unregisterRetier
  split_ifs with hdone
  · obtain ⟨hphase, hplace⟩ := hdone
    constructor
    · intro k old hold hactive
      have hreg := hw.registered k old hold hactive
      dsimp only
      rw [Function.update_of_ne]
      · exact hreg
      · intro heq
        rw [heq, hplace, Option.some.injEq] at hreg
        subst hreg
        have hsame : wk = old := Option.some.inj (hwk.symm.trans hold)
        rw [← hsame, Retier.active, hphase] at hactive
        cases hactive
    · exact hw.canceled
  · exact hw

theorem step {l : TieredLabel} (hw : Registry w)
    (hstep : w.step store cfg lib newBodyRef l = some w') : Registry w' := by
  cases TieredWorld.stepped hstep with
  | startPut | deleteHere | deleteUpstream | startMutation =>
    exact (hw.claim _).congr rfl rfl fun _ h => h
  | put | delete | mutation =>
    apply release
    exact hw.congr rfl rfl fun _ h => h
  | forwardPut | startUpgrade | upgrade => exact hw.congr rfl rfl fun _ h => h
  | readMarker | unregistered => exact hw.idle rfl
  | registered found seen unclaimed free => exact hw.register unclaimed free
  | retier found step =>
    obtain ⟨hactive, q, hq⟩ := Retier.step_phase step
    apply unregister
    · rw [hq]
      exact hw.rephase q found hactive
    · exact Function.update_self _ _ _

/-- Two workers that are registered on one node are the same. -/
theorem unique (hw : Registry w) {r k : ℕ} {wk wk' : Retier} (hr : w.retiers r = some wk)
    (hk : w.retiers k = some wk') (hactive : wk.active = true) (hactive' : wk'.active = true)
    (hnode : wk.node = wk'.node) : r = k := by
  have hreg := hw.registered r wk hr hactive
  rw [hnode, hw.registered k wk' hk hactive', Option.some.injEq] at hreg
  exact hreg.symm

end Registry

/-! ## Claims -/

/-- A handler that holds the key while it runs. -/
inductive Claimant where
  | put (i : ℕ)
  | delete (d : ℕ)
  | mutation (j : ℕ)
deriving DecidableEq

namespace TieredWorld

/-- The handler runs on the node and has not returned. A PUT that was routed upstream
goes on as a mutation of the same index, which then holds the key for it. -/
def Holds (w : TieredWorld σ) (node : ℕ) : Claimant → Prop
  | .put i => ∃ p, w.puts i = some p ∧ p.node = node ∧ p.phase ≠ .finished ∧
      (p.phase = .forwarded → w.mutations i = none)
  | .delete d => ∃ p, w.deletes d = some (node, p) ∧ ∀ removed, p ≠ .finished removed
  | .mutation j => ∃ m, w.mutations j = some m ∧ m.node = node ∧ m.returned = false

/-- Every handler that holds the key is counted. -/
def Counted (w : TieredWorld σ) : Prop :=
  ∀ node, {c | w.Holds node c}.encard ≤ w.claims node

namespace Counted

variable {w w' : TieredWorld σ} {node : ℕ} {c d : Claimant}

theorem keep (hw : w.Counted) (hclaims : w'.claims = w.claims)
    (hold : ∀ n e, w'.Holds n e → w.Holds n e) : w'.Counted := by
  intro n
  rw [hclaims]
  exact (Set.encard_le_encard (hold n)).trans (hw n)

theorem claim (hw : w.Counted)
    (hclaims : w'.claims = Function.update w.claims node (w.claims node + 1))
    (hold : ∀ n e, w'.Holds n e → w.Holds n e ∨ e = c ∧ n = node) : w'.Counted := by
  intro n
  rw [hclaims]
  by_cases hn : n = node
  · subst hn
    rw [Function.update_self]
    have hsub : {e | w'.Holds n e} ⊆ insert c {e | w.Holds n e} := by
      intro e he
      rcases hold n e he with he | ⟨rfl, -⟩
      · exact .inr he
      · exact .inl rfl
    calc {e | w'.Holds n e}.encard
        ≤ {e | w.Holds n e}.encard + 1 := (Set.encard_le_encard hsub).trans (Set.encard_insert_le _ _)
      _ ≤ (w.claims n : ℕ∞) + 1 := add_le_add_left (hw n) 1
      _ = ((w.claims n + 1 : ℕ) : ℕ∞) := by push_cast; rfl
  · rw [Function.update_of_ne hn]
    refine (Set.encard_le_encard fun e he => ?_).trans (hw n)
    exact (hold n e he).resolve_right fun h => hn h.2

theorem release (hw : w.Counted) (hc : w.Holds node c)
    (hclaims : w'.claims = Function.update w.claims node (w.claims node - 1))
    (hold : ∀ n e, w'.Holds n e → w.Holds n e ∧ e ≠ c) : w'.Counted := by
  intro n
  rw [hclaims]
  by_cases hn : n = node
  · subst hn
    rw [Function.update_self]
    have hsub : {e | w'.Holds n e} ⊆ {e | w.Holds n e} \ {c} := fun e he => hold n e he
    have hcount : {e | w'.Holds n e}.encard + 1 ≤ w.claims n := by
      calc {e | w'.Holds n e}.encard + 1
          ≤ ({e | w.Holds n e} \ {c}).encard + 1 := add_le_add_left (Set.encard_le_encard hsub) 1
        _ = {e | w.Holds n e}.encard := Set.encard_sdiff_singleton_add_one hc
        _ ≤ w.claims n := hw n
    rw [ENat.natCast_sub]
    exact ENat.le_sub_of_add_le_right ENat.one_ne_top hcount
  · rw [Function.update_of_ne hn]
    exact (Set.encard_le_encard fun e he => (hold n e he).1).trans (hw n)

theorem swap (hw : w.Counted) (hc : w.Holds node c) (hclaims : w'.claims = w.claims)
    (hold : ∀ n e, w'.Holds n e → w.Holds n e ∧ e ≠ c ∨ e = d ∧ n = node) : w'.Counted := by
  intro n
  rw [hclaims]
  by_cases hn : n = node
  · subst hn
    have hsub : {e | w'.Holds n e} ⊆ insert d ({e | w.Holds n e} \ {c}) := by
      intro e he
      rcases hold n e he with he | ⟨rfl, -⟩
      · exact .inr he
      · exact .inl rfl
    calc {e | w'.Holds n e}.encard
        ≤ ({e | w.Holds n e} \ {c}).encard + 1 :=
          (Set.encard_le_encard hsub).trans (Set.encard_insert_le _ _)
      _ = {e | w.Holds n e}.encard := Set.encard_sdiff_singleton_add_one hc
      _ ≤ w.claims n := hw n
  · refine (Set.encard_le_encard fun e he => ?_).trans (hw n)
    exact ((hold n e he).resolve_right fun h => hn h.2).1

theorem pos (hw : w.Counted) (hc : w.Holds node c) : 0 < w.claims node := by
  by_contra hzero
  have hcount := hw node
  rw [Nat.eq_zero_of_not_pos hzero, Nat.cast_zero, nonpos_iff_eq_zero,
    Set.encard_eq_zero] at hcount
  exact Set.notMem_empty c (hcount ▸ hc)

/-- What the mutations do not tell of another PUT: whether it has gone on as one. -/
theorem put_of_update {j k n : ℕ} {m : Forwarded} {puts : ℕ → Option TieredPut}
    (he : ∃ p, puts k = some p ∧ p.node = n ∧ p.phase ≠ .finished ∧
      (p.phase = .forwarded → Function.update w.mutations j (some m) k = none)) :
    ∃ p, puts k = some p ∧ p.node = n ∧ p.phase ≠ .finished ∧
      (p.phase = .forwarded → w.mutations k = none) := by
  obtain ⟨p, hp, hnode, hphase, hnone⟩ := he
  exact ⟨p, hp, hnode, hphase, fun h => (ne_of_update_eq_none (hnone h)).2⟩

theorem claim_mutation (hw : w.Counted) {j : ℕ} {kind : ForwardedKind}
    (hclaims : w'.claims = Function.update w.claims node (w.claims node + 1))
    (hmutations : w'.mutations =
      Function.update w.mutations j (some { node := node, kind := kind }))
    (hputs : w'.puts = w.puts) (hdeletes : w'.deletes = w.deletes) : w'.Counted := by
  apply hw.claim (c := .mutation j) hclaims
  intro n e he
  cases e with
  | put k =>
    left
    simp only [Holds, hputs, hmutations] at he
    exact put_of_update he
  | delete k =>
    left
    simp only [Holds, hdeletes] at he
    exact he
  | mutation k =>
    simp only [Holds, hmutations] at he
    obtain ⟨m, hm, hn, hrunning⟩ := he
    rcases update_eq_some_cases hm with ⟨rfl, rfl⟩ | hold
    · exact .inr ⟨rfl, hn.symm⟩
    · exact .inl ⟨m, hold, hn, hrunning⟩

theorem step_put (hw : w.Counted) {i : ℕ} {p : TieredPut} {input : TieredPutInput}
    {x : Tier σ × TieredPut} (hp : w.puts i = some p)
    (hx : p.step store cfg lib newBodyRef i w.shared input = some x) :
    (releaseRetierWrite (x.2.phase == .finished) p.node
      { w with shared := x.1, puts := Function.update w.puts i (some x.2) }).Counted := by
  obtain ⟨hrunning, hhere, hnode⟩ := TieredPut.step_node hx
  have hc : w.Holds p.node (.put i) := ⟨p, hp, rfl, hrunning, fun h => absurd h hhere⟩
  by_cases hdone : x.2.phase = .finished
  · rw [beq_iff_eq.mpr hdone]
    apply hw.release hc rfl
    intro n e he
    cases e with
    | put k =>
      obtain ⟨p', hp', hn, hphase, hnone⟩ := he
      rcases update_eq_some_cases_ne hp' with ⟨rfl, rfl⟩ | ⟨hk, hold⟩
      · exact absurd hdone hphase
      · exact ⟨⟨p', hold, hn, hphase, hnone⟩, by simpa using hk⟩
    | delete d => exact ⟨he, by simp⟩
    | mutation j => exact ⟨he, by simp⟩
  · rw [beq_eq_false_iff_ne.mpr hdone]
    refine hw.keep rfl ?_
    intro n e he
    cases e with
    | put k =>
      obtain ⟨p', hp', hn, hphase, hnone⟩ := he
      rcases update_eq_some_cases hp' with ⟨rfl, rfl⟩ | hold
      · exact hn ▸ hnode ▸ hc
      · exact ⟨p', hold, hn, hphase, hnone⟩
    | delete d => exact he
    | mutation j => exact he

theorem step_delete (hw : w.Counted) {d : ℕ} {p : ℕ × EngineDelete} {input : DeleteInput}
    {x : Tier σ × EngineDelete} (hp : w.deletes d = some p)
    (hx : p.2.step store d w.shared input = some x) :
    (releaseRetierWrite (x.2 matches .finished _) p.1
      { w with shared := x.1, deletes := Function.update w.deletes d (some (p.1, x.2)) }).Counted := by
  have hc : w.Holds p.1 (.delete d) := by
    refine ⟨p.2, hp, fun removed hfinished => ?_⟩
    rw [hfinished] at hx
    cases hx
  cases hresult : x.2 with
  | finished removed =>
    apply hw.release hc rfl
    intro n e he
    cases e with
    | delete k =>
      obtain ⟨p', hp', hrunning⟩ := he
      rcases update_eq_some_cases_ne hp' with ⟨rfl, hsame⟩ | ⟨hk, hold⟩
      · exact absurd (congrArg Prod.snd hsame) (hrunning removed)
      · exact ⟨⟨p', hold, hrunning⟩, by simpa using hk⟩
    | put i => exact ⟨he, by simp⟩
    | mutation j => exact ⟨he, by simp⟩
  | deleting loop =>
    refine hw.keep rfl ?_
    intro n e he
    cases e with
    | delete k =>
      obtain ⟨p', hp', hrunning⟩ := he
      rcases update_eq_some_cases hp' with ⟨rfl, hsame⟩ | hold
      · cases hsame
        exact hc
      · exact ⟨p', hold, hrunning⟩
    | put i => exact he
    | mutation j => exact he

theorem step_mutation (hw : w.Counted) {j : ℕ} {m : Forwarded} {input : ForwardedInput}
    {x : Tier σ × Forwarded} (hm : w.mutations j = some m)
    (hx : m.step store cfg lib j w.shared input = some x) :
    (releaseRetierWrite (x.2.returned && !m.returned) m.node
      { w with shared := x.1, mutations := Function.update w.mutations j (some x.2) }).Counted := by
  obtain ⟨hnode, hdone⟩ := Forwarded.step_node hx
  by_cases hreturns : (x.2.returned && !m.returned) = true
  · rw [hreturns]
    rw [Bool.and_eq_true, Bool.not_eq_true'] at hreturns
    have hc : w.Holds m.node (.mutation j) := ⟨m, hm, rfl, hreturns.2⟩
    apply hw.release hc rfl
    intro n e he
    cases e with
    | mutation k =>
      obtain ⟨m', hm', hn, hrunning⟩ := he
      rcases update_eq_some_cases_ne hm' with ⟨rfl, rfl⟩ | ⟨hk, hold⟩
      · rw [hreturns.1] at hrunning
        cases hrunning
      · exact ⟨⟨m', hold, hn, hrunning⟩, by simpa using hk⟩
    | put i => exact ⟨put_of_update he, by simp⟩
    | delete d => exact ⟨he, by simp⟩
  · rw [Bool.eq_false_iff.mpr hreturns]
    refine hw.keep rfl ?_
    intro n e he
    cases e with
    | mutation k =>
      obtain ⟨m', hm', hn, hrunning⟩ := he
      rcases update_eq_some_cases hm' with ⟨rfl, rfl⟩ | hold
      · refine ⟨m, hm, hnode ▸ hn, ?_⟩
        by_contra hm
        rw [hdone (by simpa using hm)] at hrunning
        cases hrunning
      · exact ⟨m', hold, hn, hrunning⟩
    | put i => exact put_of_update he
    | delete d => exact he

theorem step {l : TieredLabel} (hw : w.Counted)
    (hstep : w.step store cfg lib newBodyRef l = some w') : w'.Counted := by
  cases stepped hstep with
  | startPut =>
    apply hw.claim rfl
    intro n e he
    cases e with
    | put k =>
      obtain ⟨p', hp', hn, hphase, hnone⟩ := he
      rcases update_eq_some_cases hp' with ⟨rfl, rfl⟩ | hold
      · exact .inr ⟨rfl, hn.symm⟩
      · exact .inl ⟨p', hold, hn, hphase, hnone⟩
    | delete d => exact .inl he
    | mutation j => exact .inl he
  | put found step => exact hw.step_put found step
  | @forwardPut i p found forwarded unused =>
    have hc : w.Holds p.node (.put i) := ⟨p, found, rfl, by simp [forwarded], fun _ => unused⟩
    refine hw.swap (d := .mutation i) hc rfl ?_
    intro n e he
    cases e with
    | put k =>
      refine .inl ⟨put_of_update he, fun hk => ?_⟩
      obtain ⟨p', hp', -, -, hfree⟩ := he
      cases hk
      obtain rfl : p = p' := Option.some.inj (found.symm.trans hp')
      exact (ne_of_update_eq_none (hfree forwarded)).1 rfl
    | delete d => exact .inl ⟨he, by simp⟩
    | mutation k =>
      obtain ⟨m, hm, hn, hrunning⟩ := he
      rcases update_eq_some_cases hm with ⟨rfl, rfl⟩ | hold
      · exact .inr ⟨rfl, hn.symm⟩
      · exact .inl ⟨⟨m, hold, hn, hrunning⟩, by simp⟩
  | deleteHere =>
    apply hw.claim rfl
    intro n e he
    cases e with
    | put k => exact .inl he
    | delete k =>
      obtain ⟨p, hp, hrunning⟩ := he
      rcases update_eq_some_cases hp with ⟨rfl, hsame⟩ | hold
      · exact .inr ⟨rfl, congrArg Prod.fst hsame⟩
      · exact .inl ⟨p, hold, hrunning⟩
    | mutation k => exact .inl he
  | delete found step => exact hw.step_delete found step
  | deleteUpstream | startMutation => exact hw.claim_mutation rfl rfl rfl rfl
  | mutation found step => exact hw.step_mutation found step
  | retier =>
    unfold unregisterRetier
    split_ifs
    all_goals exact hw.keep rfl fun n e he => by cases e <;> exact he
  | readMarker | registered | unregistered | startUpgrade | upgrade =>
    exact hw.keep rfl fun n e he => by cases e <;> exact he

end Counted

structure Idle (w : TieredWorld σ) : Prop where
  puts : w.puts = fun _ => none
  deletes : w.deletes = fun _ => none
  mutations : w.mutations = fun _ => none
  retiers : w.retiers = fun _ => none
  upgrades : w.upgrades = fun _ => none

variable {w : TieredWorld σ}

theorem Idle.registry (hw : w.Idle) : Registry w := by
  constructor
  all_goals
    rw [hw.retiers]
    intro r wk hwk
    cases hwk

theorem Idle.counted (hw : w.Idle) : w.Counted := by
  intro node
  have hempty : {c | w.Holds node c} = ∅ := by
    refine Set.eq_empty_of_forall_notMem fun c hc => ?_
    cases c with
    | put i =>
      obtain ⟨p, hp, -⟩ := hc
      rw [hw.puts] at hp
      cases hp
    | delete d =>
      obtain ⟨p, hp, -⟩ := hc
      rw [hw.deletes] at hp
      cases hp
    | mutation j =>
      obtain ⟨m, hm, -⟩ := hc
      rw [hw.mutations] at hm
      cases hm
  rw [hempty, Set.encard_empty]
  exact zero_le

end TieredWorld
end TagGateway.Proxy
