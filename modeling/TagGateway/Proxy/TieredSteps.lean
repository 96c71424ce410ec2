import TagGateway.Proxy.TieredEffects

/-!
# What any step does to the row

Whatever the store answers, a step leaves the row as it is, removes it, or replaces it
by the row its process has ready, and only the last two move the version on for sure.
-/
namespace TagGateway.Proxy

open Foundation Cache

universe u

variable {σ : Type u} {store : VersionedStore σ Row} {cfg : TieredConfig} {lib : EngineLib}
  {newBodyRef : ℕ → Bytes}

variable (store) in
/-- From `s` to `s'` the row is kept, removed, or replaced by one that is offered. -/
inductive Touches (offered : Row → Prop) (s s' : σ) : Prop
  | kept (advances : store.Advances s s') (row : store.row s' = store.row s)
      (live : store.LiveReads → (store.row s).isSome → store.version s' = store.version s)
  | removed (later : store.version s < store.version s') (gone : store.row s' = none)
  | wrote {row : Row} (later : store.version s < store.version s')
      (found : store.row s' = some row) (offer : offered row)

namespace Touches

variable {offered : Row → Prop} {s s' : σ}

theorem refl (s : σ) : Touches store offered s s := .kept (.refl s) rfl fun _ _ => rfl

theorem of_eq (h : s' = s) : Touches store offered s s' := by
  rw [h]
  exact refl s

theorem imp {offered' : Row → Prop} (h : Touches store offered s s')
    (himp : ∀ row, offered row → offered' row) : Touches store offered' s s' := by
  cases h with
  | kept advances row live => exact .kept advances row live
  | removed later gone => exact .removed later gone
  | wrote later found offer => exact .wrote later found (himp _ offer)

theorem advances (h : Touches store offered s s') : store.Advances s s' := by
  cases h with
  | kept advances => exact advances
  | removed later => exact .of_lt later
  | wrote later => exact .of_lt later

theorem get (h : store.Lawful) (s : σ) : Touches store offered s (store.getWithVersion s).1 :=
  .kept (h.get_advances s) (h.get_row s) fun hlive hsome => hlive s hsome

end Touches

namespace Tier

variable {offered : Row → Prop} (h : store.Lawful) (sh : Tier σ)
include h

theorem putMetaIfVersion_touches {row : Row} (v : ℕ) (hoffer : offered row) :
    Touches store offered sh.store (sh.putMetaIfVersion store row v).1.store := by
  unfold putMetaIfVersion
  split_ifs
  · exact .refl _
  simp only [CasCoordinator.putMeta]
  rcases h.put_cases sh.store row v with ⟨hw, hrow, hlt⟩ | ⟨hm, hs⟩
  · generalize store.putIfVersion sh.store row v = reply at hw hrow hlt ⊢
    obtain ⟨s, r⟩ := reply
    subst hw
    exact .wrote hlt hrow hoffer
  · generalize store.putIfVersion sh.store row v = reply at hm hs ⊢
    obtain ⟨s, r⟩ := reply
    subst hm hs
    exact .refl _

theorem deleteMetaIfVersion_touches (v : ℕ) :
    Touches store offered sh.store (sh.deleteMetaIfVersion store v).1.store := by
  simp only [deleteMetaIfVersion, CasCoordinator.deleteMetaIfVersion]
  rcases h.delete_cases sh.store v with ⟨hd, hrow, hlt⟩ | ⟨c, hc, hs⟩
  · generalize store.deleteIfVersion sh.store v = reply at hd hrow hlt ⊢
    obtain ⟨s, r⟩ := reply
    subst hd
    exact .removed hlt hrow
  · generalize store.deleteIfVersion sh.store v = reply at hc hs ⊢
    obtain ⟨s, r⟩ := reply
    subst hc hs
    exact .refl _

theorem putMetaIfVersion_error_touches {row : Row} (v : ℕ) (hoffer : offered row) (applied : Bool) :
    Touches store offered sh.store
      (if applied then (sh.putMetaIfVersion store row v).1 else sh).store := by
  cases applied with
  | false => exact .refl _
  | true => exact sh.putMetaIfVersion_touches h v hoffer

theorem deleteMetaIfVersion_error_touches (v : ℕ) (applied : Bool) :
    Touches store offered sh.store
      (if applied then (sh.deleteMetaIfVersion store v).1 else sh).store := by
  cases applied with
  | false => exact .refl _
  | true => exact sh.deleteMetaIfVersion_touches h v

end Tier

namespace TieredPut

def Offers (p : TieredPut) (row : Row) : Prop :=
  ∃ token attempt, p.phase = .storing row.metadata token attempt

variable {i : ℕ} {sh : Tier σ} {p : TieredPut}

@[simp] theorem accept_store (token : ℕ) : (p.accept cfg i sh token).1.store = sh.store := by
  unfold accept
  split
  · rfl
  · split_ifs <;> rfl

@[simp] theorem judge_store (visible : Option CachedObjectMeta) (token : ℕ) :
    (p.judge cfg i sh visible token).1.store = sh.store := by
  unfold judge
  split
  · rfl
  · exact accept_store token

@[simp] theorem handleOriginlessPut_store (row : Option Row) (token : ℕ) :
    (p.handleOriginlessPut cfg i sh row token).1.store = sh.store := by
  unfold handleOriginlessPut
  split_ifs
  · split
    · exact judge_store _ _
    · split_ifs
      · exact judge_store _ _
      · rfl
  · exact accept_store token

theorem route_touches (h : store.Lawful) {offered : Row → Prop} (overBudget : Bool) :
    Touches store offered sh.store (p.route store cfg lib i sh overBudget).1.store := by
  rw [route, sh.getMetaWithVersion_eq h]
  dsimp only
  split_ifs
  · exact .refl _
  · exact .refl _
  · exact .refl _
  · exact .get h sh.store
  · exact .get h sh.store
  · rw [handleOriginlessPut_store]
    exact .get h sh.store

@[simp] theorem upload_store (token : ℕ) (size : ℤ) (up : Upload) :
    (p.upload cfg lib newBodyRef i sh token size up).1.store = sh.store := by
  unfold upload
  split
  · rfl
  · dsimp only
    split
    all_goals
      dsimp only [abort, Tier.emit]
      split_ifs <;> rfl

theorem install_touches (h : store.Lawful) {offered : Row → Prop} {metadata : CachedObjectMeta}
    (token : ℕ) (hoffer : ∀ row : Row, row.metadata = metadata → offered row) :
    Touches store offered sh.store (install store i sh metadata token).1.store := by
  have hput := sh.putMetaIfVersion_touches h token (hoffer ⟨metadata, sh.nextId⟩ rfl)
  unfold install
  dsimp only
  generalize sh.putMetaIfVersion store ⟨metadata, sh.nextId⟩ token = reply at hput ⊢
  obtain ⟨sh', wrote⟩ := reply
  cases wrote <;> exact hput

theorem commit_touches (h : store.Lawful) {metadata : CachedObjectMeta} {token attempt : ℕ}
    (hphase : p.phase = .storing metadata token attempt) :
    Touches store p.Offers sh.store (p.commit store i sh metadata token attempt).1.store := by
  have hinstall : Touches store p.Offers sh.store (install store i sh metadata token).1.store :=
    install_touches h token fun row hrow => ⟨token, attempt, hrow ▸ hphase⟩
  unfold commit
  generalize install store i sh metadata token = reply at hinstall ⊢
  obtain ⟨sh', wrote⟩ := reply
  cases wrote with
  | true => exact hinstall
  | false =>
    dsimp only
    split_ifs <;> exact hinstall

theorem step_touches (h : store.Lawful) {r : Tier σ × TieredPut} {input : TieredPutInput}
    (hstep : p.step store cfg lib newBodyRef i sh input = some r) :
    Touches store p.Offers sh.store r.1.store := by
  unfold step at hstep
  split at hstep
  · cases hstep
    exact route_touches h _
  · split at hstep
    · cases hstep
      exact .refl _
    · cases hstep
  · cases hstep
    exact .of_eq (judge_store _ _)
  · cases hstep
    exact .refl _
  · cases hstep
    exact .refl _
  · cases hstep
    exact .of_eq (upload_store _ _ _)
  · rename_i hphase
    cases hstep
    exact commit_touches h hphase
  · rename_i metadata token attempt applied hphase
    cases hstep
    cases applied with
    | false => exact .refl _
    | true => exact install_touches h token fun row hrow => ⟨token, attempt, hrow ▸ hphase⟩
  · cases hstep
    exact .get h sh.store
  · cases hstep
    exact .refl _
  · rename_i deleted hphase
    cases hstep
    cases deleted <;> exact .refl _
  · cases hstep

end TieredPut

theorem EngineDelete.step_touches (h : store.Lawful) {d : ℕ} {sh : Tier σ} {p : EngineDelete}
    {offered : Row → Prop} {r : Tier σ × EngineDelete} {input : DeleteInput}
    (hstep : p.step store d sh input = some r) : Touches store offered sh.store r.1.store := by
  rcases EngineDelete.step_cases h hstep with hsame | ⟨s, hrow, hlt, heq⟩
  · exact .of_eq (congrArg Tier.store hsame)
  · rw [heq]
    exact .removed hlt hrow

namespace Forwarded

def Offers (m : Forwarded) (row : Row) : Prop := m.phase = .marking row

theorem step_touches (h : store.Lawful) {j : ℕ} {sh : Tier σ} {m : Forwarded}
    {r : Tier σ × Forwarded} {input : ForwardedInput}
    (hstep : m.step store cfg lib j sh input = some r) :
    Touches store m.Offers sh.store r.1.store := by
  unfold step at hstep
  split at hstep
  · split at hstep
    · cases hstep
      exact .get h sh.store
    · cases hstep
      exact .refl _
  · cases hstep
    exact .refl _
  · split at hstep
    · cases hstep
      exact .refl _
    · cases hstep
  · split at hstep
    · cases hstep
      exact .refl _
    · cases hstep
  · split at hstep
    · split at hstep
      · cases hstep
      · cases hstep
        exact .refl _
    · cases hstep
      exact .refl _
  · cases hstep
    exact .refl _
  · cases hstep
    exact .refl _
  · rename_i row hphase
    cases hstep
    have hput : Touches store m.Offers sh.store
        (sh.putMetaIfVersion store row m.priorVersion).1.store :=
      sh.putMetaIfVersion_touches h m.priorVersion hphase
    unfold commitUpstreamMarker
    generalize sh.putMetaIfVersion store row m.priorVersion = reply at hput ⊢
    obtain ⟨sh', wrote⟩ := reply
    cases wrote <;> exact hput
  · rename_i hphase
    cases hstep
    exact sh.putMetaIfVersion_error_touches h _ hphase _
  · cases hstep
    exact sh.deleteMetaIfVersion_touches h _
  · cases hstep
    exact sh.deleteMetaIfVersion_error_touches h _ _
  · cases hstep
    exact sh.deleteMetaIfVersion_touches h _
  · cases hstep
    exact sh.deleteMetaIfVersion_error_touches h _ _
  · cases hstep

end Forwarded

namespace Retier

def Offers (w : Retier) (row : Row) : Prop := w.phase = .committing row ∨ w.phase = .rewriting row

theorem step_touches (h : store.Lawful) {r : ℕ} {sh : Tier σ} {w : Retier}
    {x : Tier σ × Retier} {input : RetierInput}
    (hstep : w.step store cfg newBodyRef r sh input = some x) :
    Touches store w.Offers sh.store x.1.store := by
  unfold step at hstep
  split at hstep
  · cases hstep
    exact .get h sh.store
  · split at hstep
    · cases hstep
      exact .refl _
    · cases hstep
  · cases hstep
    unfold stream
    dsimp only
    split_ifs <;> exact .refl _
  · cases hstep
    exact .get h sh.store
  · cases hstep
    exact .refl _
  · rename_i row hphase
    cases hstep
    exact sh.putMetaIfVersion_touches h w.version (.inl hphase)
  · rename_i hphase
    cases hstep
    exact sh.putMetaIfVersion_error_touches h _ (.inl hphase) _
  · cases hstep
    exact sh.deleteMetaIfVersion_touches h _
  · cases hstep
    exact sh.deleteMetaIfVersion_error_touches h _ _
  · rename_i hphase
    cases hstep
    exact sh.putMetaIfVersion_touches h _ (.inr hphase)
  · rename_i hphase
    cases hstep
    exact sh.putMetaIfVersion_error_touches h _ (.inr hphase) _
  · rename_i deleted hphase
    cases hstep
    cases deleted <;> exact .refl _
  all_goals
    cases hstep
    try exact .refl _

end Retier

namespace MarkerUpgrade

def Offers (u : MarkerUpgrade) (row : Row) : Prop := ∃ cur v, u.phase = .committing row cur v

theorem step_touches (h : store.Lawful) {sh : Tier σ} {u : MarkerUpgrade}
    {x : Tier σ × MarkerUpgrade} {input : UpgradeInput}
    (hstep : u.step store cfg sh input = some x) : Touches store u.Offers sh.store x.1.store := by
  unfold step at hstep
  split at hstep
  · split at hstep
    · cases hstep
      exact .refl _
    · cases hstep
  · cases hstep
    exact .get h sh.store
  · rename_i hphase
    cases hstep
    exact sh.putMetaIfVersion_touches h _ ⟨_, _, hphase⟩
  · rename_i hphase
    cases hstep
    exact sh.putMetaIfVersion_error_touches h _ ⟨_, _, hphase⟩ _
  all_goals
    cases hstep
    try exact .refl _

end MarkerUpgrade

namespace TieredWorld

/-- The process that moves has this row ready. -/
def Offers (w : TieredWorld σ) (l : TieredLabel) (row : Row) : Prop :=
  match l with
  | .put i _ => ∃ p, w.puts i = some p ∧ p.Offers row
  | .mutation j _ => ∃ m, w.mutations j = some m ∧ m.Offers row
  | .retier r _ => ∃ wk, w.retiers r = some wk ∧ wk.Offers row
  | .upgrade u _ => ∃ up, w.upgrades u = some up ∧ up.Offers row
  | _ => False

theorem step_touches (h : store.Lawful) {w w' : TieredWorld σ} {l : TieredLabel}
    (hstep : w.step store cfg lib newBodyRef l = some w') :
    Touches store (w.Offers l) w.shared.store w'.shared.store := by
  cases stepped hstep with
  | put found step =>
    rw [releaseRetierWrite_shared]
    exact (TieredPut.step_touches h step).imp fun row hrow => ⟨_, found, hrow⟩
  | delete found step =>
    rw [releaseRetierWrite_shared]
    exact EngineDelete.step_touches h step
  | mutation found step =>
    rw [releaseRetierWrite_shared]
    exact (Forwarded.step_touches h step).imp fun row hrow => ⟨_, found, hrow⟩
  | readMarker read unused free fits =>
    rw [w.shared.getMetaWithVersion_eq h] at read
    obtain ⟨rfl, -⟩ := Prod.mk.inj read
    exact .get h _
  | retier found step =>
    rw [unregisterRetier_shared]
    exact (Retier.step_touches h step).imp fun row hrow => ⟨_, found, hrow⟩
  | upgrade found step =>
    exact (MarkerUpgrade.step_touches h step).imp fun row hrow => ⟨_, found, hrow⟩
  | startPut | forwardPut | deleteHere | deleteUpstream | startMutation | registered
    | unregistered | startUpgrade => exact .refl _

end TieredWorld
end TagGateway.Proxy
