import TagGateway.Proxy.RetierSafety

/-!
# Staged bodies

A PUT that the engine takes and a re-tier both store the body first, under a reference
of its own, and then try to make the row visible. A body that no row will refer to is
deleted; one that a row may refer to, because an attempt was not refused, is not.
-/
namespace TagGateway.Proxy

open Foundation Cache

universe u

variable {σ : Type u} {store : VersionedStore σ Row} {cfg : TieredConfig} {lib : EngineLib}
  {newBodyRef : ℕ → Bytes}

inductive Stage where
  | before
  | staged
  | discarding
  | ended
deriving DecidableEq

/-- How a step moves a body, by what the step does: it stores the body, attempts a
commit that is not refused, or deletes the body. -/
inductive StageMove (stages unrefused discards : Prop) : Stage → Stage → Prop
  | same {s : Stage} (unstaged : ¬ stages) (kept : ¬ discards) :
      StageMove stages unrefused discards s s
  | skipped (unstaged : ¬ stages) (kept : ¬ discards) :
      StageMove stages unrefused discards .before .ended
  | stored {s : Stage} (put : stages) (kept : ¬ discards) (here : s = .staged ∨ s = .discarding) :
      StageMove stages unrefused discards .before s
  | refused (unstaged : ¬ stages) (kept : ¬ discards) :
      StageMove stages unrefused discards .staged .discarding
  | settled (unstaged : ¬ stages) (kept : ¬ discards) (commit : unrefused) :
      StageMove stages unrefused discards .staged .ended
  | discarded (unstaged : ¬ stages) (deleted : discards) :
      StageMove stages unrefused discards .discarding .ended

theorem StageMove.of_iff {stages unrefused discards stages' unrefused' discards' : Prop}
    {s s' : Stage} (hmove : StageMove stages unrefused discards s s') (hstages : stages' ↔ stages)
    (hunrefused : unrefused' ↔ unrefused) (hdiscards : discards' ↔ discards) :
    StageMove stages' unrefused' discards' s s' := by
  rw [propext hstages, propext hunrefused, propext hdiscards]
  exact hmove

section StageMove

variable {stages unrefused discards : Prop} {s s' : Stage}

theorem StageMove.of_ended (hmove : StageMove stages unrefused discards .ended s) :
    s = .ended ∧ ¬ stages ∧ ¬ discards := by
  cases hmove with
  | same unstaged kept => exact ⟨rfl, unstaged, kept⟩

theorem StageMove.of_discards (hmove : StageMove stages unrefused discards s s') (hd : discards) :
    s = .discarding ∧ s' = .ended := by
  cases hmove with
  | discarded => exact ⟨rfl, rfl⟩
  | same _ kept | skipped _ kept | stored _ kept | refused _ kept | settled _ kept =>
    exact absurd hd kept

theorem StageMove.of_stages (hmove : StageMove stages unrefused discards s s') (hs : stages) :
    s' = .staged ∨ s' = .discarding := by
  cases hmove with
  | stored _ _ here => exact here
  | same unstaged | skipped unstaged | refused unstaged | settled unstaged | discarded unstaged =>
    exact absurd hs unstaged

theorem StageMove.of_pending (hmove : StageMove stages unrefused discards s s')
    (hs : s = .staged ∨ s = .discarding) :
    s' = .staged ∨ s' = .discarding ∨ discards ∨ unrefused := by
  cases hmove with
  | same => exact hs.elim .inl fun h => .inr (.inl h)
  | skipped | stored => simp at hs
  | refused => exact .inr (.inl rfl)
  | settled _ _ commit => exact .inr (.inr (.inr commit))
  | discarded _ deleted => exact .inr (.inr (.inl deleted))

end StageMove

/-! ## The PUT -/

def TieredPutPhase.stage : TieredPutPhase → Stage
  | .routing | .forwarded | .probing _ _ | .uploading _ _ => .before
  | .storing _ _ _ | .rereading _ _ => .staged
  | .discarding => .discarding
  | .finished => .ended

namespace TieredPut

variable {i : ℕ} {sh : Tier σ} {p : TieredPut} {x : Tier σ × TieredPut} {input : TieredPutInput}

variable (lib) in
def Stages (p : TieredPut) (input : TieredPutInput) : Prop :=
  ∃ up wantMD5, input = .upload up ∧ p.request.contentMD5 lib = .ok wantMD5

variable (store) in
/-- A commit is made, or ends with an error after which it may have been. -/
def Unrefused (i : ℕ) (sh : Tier σ) (p : TieredPut) (input : TieredPutInput) : Prop :=
  ∃ m token attempt, p.phase = .storing m token attempt ∧
    ((∃ applied, input = .storeError applied) ∨
      input = .proceed ∧ (install store i sh m token).2 = true)

theorem accept_stage (token : ℕ) :
    (p.accept cfg i sh token).2.phase.stage = .before ∨
      (p.accept cfg i sh token).2.phase.stage = .ended := by
  rcases accept_cases cfg i sh p token with ⟨code, heq⟩ | ⟨size, heq⟩
  · rw [heq]
    exact .inr rfl
  · rw [heq]
    exact .inl rfl

theorem judge_stage (visible : Option CachedObjectMeta) (token : ℕ) :
    (p.judge cfg i sh visible token).2.phase.stage = .before ∨
      (p.judge cfg i sh visible token).2.phase.stage = .ended := by
  unfold judge
  split
  · exact .inr rfl
  · exact accept_stage token

theorem handleOriginlessPut_stage (row : Option Row) (token : ℕ) :
    (p.handleOriginlessPut cfg i sh row token).2.phase.stage = .before ∨
      (p.handleOriginlessPut cfg i sh row token).2.phase.stage = .ended := by
  unfold handleOriginlessPut
  split_ifs
  · split
    · exact judge_stage _ _
    · split_ifs
      · exact judge_stage _ _
      · exact .inl rfl
  · exact accept_stage token

theorem route_stage (overBudget : Bool) :
    (p.route store cfg lib i sh overBudget).2.phase.stage = .before ∨
      (p.route store cfg lib i sh overBudget).2.phase.stage = .ended := by
  unfold route
  dsimp only
  split_ifs
  · exact .inl rfl
  · exact .inr rfl
  · exact .inl rfl
  · exact .inl rfl
  · exact .inr rfl
  · exact handleOriginlessPut_stage _ _

theorem upload_stage (token : ℕ) (size : ℤ) (up : Upload) :
    StageMove (p.Stages lib (.upload up)) (p.Unrefused store i sh (.upload up))
      (∃ deleted, TieredPutInput.upload up = .discard deleted) .before
      (p.upload cfg lib newBodyRef i sh token size up).2.phase.stage := by
  have hkept : ¬ ∃ deleted, TieredPutInput.upload up = .discard deleted := by simp
  unfold upload
  split
  · rename_i hmd5
    exact .skipped (by simp [Stages, hmd5]) hkept
  · rename_i wantMD5 hmd5
    dsimp only
    split
    · exact .stored ⟨up, wantMD5, rfl, hmd5⟩ hkept (.inr rfl)
    · exact .stored ⟨up, wantMD5, rfl, hmd5⟩ hkept (.inl rfl)

theorem commit_stage {metadata : CachedObjectMeta} {token attempt : ℕ}
    (hphase : p.phase = .storing metadata token attempt) :
    StageMove (p.Stages lib .proceed) (p.Unrefused store i sh .proceed)
      (∃ deleted, TieredPutInput.proceed = .discard deleted) .staged
      (p.commit store i sh metadata token attempt).2.phase.stage := by
  have hunstaged : ¬ p.Stages lib .proceed := by simp [Stages]
  have hkept : ¬ ∃ deleted, TieredPutInput.proceed = .discard deleted := by simp
  unfold commit
  split
  · rename_i sh' hinstall
    exact .settled hunstaged hkept
      ⟨metadata, token, attempt, hphase, .inr ⟨rfl, by rw [hinstall]⟩⟩
  · split
    · exact .refused hunstaged hkept
    · split
      · exact .same hunstaged hkept
      · exact .refused hunstaged hkept

theorem step_stage (hstep : p.step store cfg lib newBodyRef i sh input = some x) :
    StageMove (p.Stages lib input) (p.Unrefused store i sh input)
      (∃ deleted, input = .discard deleted) p.phase.stage x.2.phase.stage := by
  have hahead : ∀ {s : Stage}, ¬ p.Stages lib input → (¬ ∃ deleted, input = .discard deleted) →
      s = .before ∨ s = .ended → StageMove (p.Stages lib input) (p.Unrefused store i sh input)
        (∃ deleted, input = .discard deleted) .before s := by
    rintro s hunstaged hkept (rfl | rfl)
    · exact .same hunstaged hkept
    · exact .skipped hunstaged hkept
  unfold step at hstep
  split at hstep
  case h_1 hphase =>
    cases hstep
    rw [hphase]
    exact hahead (by simp [Stages]) (by simp) (route_stage _)
  case h_2 hphase =>
    split at hstep
    · cases hstep
      rw [hphase]
      exact hahead (by simp [Stages]) (by simp) (.inr rfl)
    · cases hstep
  case h_3 hphase =>
    cases hstep
    rw [hphase]
    exact hahead (by simp [Stages]) (by simp) (judge_stage _ _)
  case h_4 hphase =>
    cases hstep
    rw [hphase]
    exact hahead (by simp [Stages]) (by simp) (.inr rfl)
  case h_5 hphase =>
    cases hstep
    rw [hphase]
    exact hahead (by simp [Stages]) (by simp) (.inr rfl)
  case h_6 hphase =>
    cases hstep
    rw [hphase]
    exact upload_stage _ _ _
  case h_7 hphase =>
    cases hstep
    rw [hphase]
    exact commit_stage hphase
  case h_8 metadata token attempt applied hphase =>
    cases hstep
    have hcommit : p.Unrefused store i sh (.storeError applied) :=
      ⟨metadata, token, attempt, hphase, .inl ⟨applied, rfl⟩⟩
    rw [hphase]
    exact .settled (by simp [Stages]) (by simp) hcommit
  case h_9 hphase =>
    cases hstep
    rw [hphase]
    exact .same (by simp [Stages]) (by simp)
  case h_10 hphase =>
    cases hstep
    rw [hphase]
    exact .refused (by simp [Stages]) (by simp)
  case h_11 hphase =>
    cases hstep
    rw [hphase]
    exact .discarded (by simp [Stages]) ⟨_, rfl⟩
  case h_12 => cases hstep

/-- The row a PUT commits is of the local tier, refers to its own body, and goes under a
version that was handed out. -/
structure RefOk (newBodyRef : ℕ → Bytes) (i : ℕ) (p : TieredPut) : Prop where
  token_pos : ∀ t, p.token = some t → 0 < t
  ref : ∀ m, p.metadata = some m → m.bodyRef = newBodyRef i
  tier : ∀ m, p.metadata = some m → m.bodyUpstream = false

theorem RefOk.of_token {p : TieredPut} (htoken : ∀ t, p.token = some t → 0 < t)
    (hmetadata : p.metadata = none) : p.RefOk newBodyRef i := by
  refine ⟨htoken, ?_, ?_⟩
  all_goals
    intro m hm
    rw [hmetadata] at hm
    cases hm

theorem RefOk.of_none {p : TieredPut} (htoken : p.token = none) (hmetadata : p.metadata = none) :
    p.RefOk newBodyRef i := by
  refine .of_token ?_ hmetadata
  intro t ht
  rw [htoken] at ht
  cases ht

theorem RefOk.step (h : store.Lawful) (hp : p.RefOk newBodyRef i)
    (hstep : p.step store cfg lib newBodyRef i sh input = some x) : x.2.RefOk newBodyRef i := by
  have hget : ∀ t, some (store.getWithVersion sh.store).2.2 = some t → 0 < t := by
    rintro t ⟨⟩
    exact h.get_pos sh.store
  generalize hsh : x.1 = sh', hq : x.2 = p'
  have heffect := TieredPut.step_effect h hp.token_pos hstep
  rw [hsh, hq] at heffect
  cases heffect with
  | forward | refuse | readForward | readRefuse | abort | install | discard => exact .of_none rfl rfl
  | readProbe | readAccept => exact .of_token hget rfl
  | accept phase =>
    refine .of_token ?_ rfl
    rintro t ⟨⟩
    exact hp.token_pos _ (by rw [token, phase])
  | stage phase staged =>
    constructor
    · rintro t ⟨⟩
      exact hp.token_pos _ (by rw [token, phase])
    · rintro m ⟨⟩
      exact staged.ref
    · rintro m ⟨⟩
      exact staged.tier
  | retry phase =>
    constructor
    · rintro t ⟨⟩
    · rintro m ⟨⟩
      exact hp.ref _ (by rw [metadata, phase])
    · rintro m ⟨⟩
      exact hp.tier _ (by rw [metadata, phase])
  | reread phase =>
    refine ⟨hget, ?_, ?_⟩
    · rintro m ⟨⟩
      exact hp.ref _ (by rw [metadata, phase])
    · rintro m ⟨⟩
      exact hp.tier _ (by rw [metadata, phase])

theorem step_storing (h : store.Lawful) {m : CachedObjectMeta} {t attempt : ℕ} (hpos : 0 < t)
    (hphase : p.phase = .storing m t attempt)
    (hstep : p.step store cfg lib newBodyRef i sh input = some x) :
    x.2.phase = .finished ∨ x.1.store = sh.store := by
  cases input with
  | proceed =>
    simp only [step, hphase, Option.some.injEq] at hstep
    rw [← hstep]
    unfold commit
    rcases install_cases h i sh m hpos with ⟨s, -, -, -, heq⟩ | heq
    · rw [heq]
      exact .inl rfl
    · rw [heq]
      dsimp only
      split_ifs <;> exact .inr rfl
  | storeError applied =>
    simp only [step, hphase, Option.some.injEq] at hstep
    rw [← hstep]
    exact .inl rfl
  | route overBudget => simp [step, hphase] at hstep
  | noSlot => simp [step, hphase] at hstep
  | upload up => simp [step, hphase] at hstep
  | discard deleted => simp [step, hphase] at hstep

end TieredPut

/-! ## The re-tier -/

def RetierPhase.stage : RetierPhase → Stage
  | .seen | .verifying | .fetching | .storing _ _ | .removing | .rewriting _ => .before
  | .rereading _ | .checking _ | .committing _ => .staged
  | .discarding => .discarding
  | .finished => .ended

namespace Retier

variable {r : ℕ} {sh : Tier σ} {w : Retier} {x : Tier σ × Retier} {input : RetierInput}

variable (store) in
/-- A commit is made, or ends with an error after which it may have been. -/
def Unrefused (sh : Tier σ) (w : Retier) (input : RetierInput) : Prop :=
  ∃ row, w.phase = .committing row ∧ ((∃ applied, input = .storeError applied) ∨
    input = .proceed ∧ (sh.putMetaIfVersion store row w.version).2 = true)

theorem step_stage (hstep : w.step store cfg newBodyRef r sh input = some x) :
    StageMove (∃ calls reply, input = .stream calls reply) (w.Unrefused store sh input)
      (∃ deleted, input = .discard deleted) w.phase.stage x.2.phase.stage := by
  unfold step at hstep
  split at hstep
  case h_1 hphase =>
    cases hstep
    rw [hphase]
    dsimp only
    split_ifs
    · exact .same (by simp) (by simp)
    · exact .skipped (by simp) (by simp)
  case h_2 hphase =>
    split at hstep
    · cases hstep
      rw [hphase]
      unfold receive
      dsimp only
      split_ifs
      all_goals first | exact .same (by simp) (by simp) | exact .skipped (by simp) (by simp)
    · cases hstep
  case h_3 calls reply hphase =>
    cases hstep
    rw [hphase]
    unfold stream
    dsimp only
    split_ifs
    · exact .stored ⟨calls, reply, rfl⟩ (by simp) (.inl rfl)
    · exact .stored ⟨calls, reply, rfl⟩ (by simp) (.inr rfl)
    · exact .stored ⟨calls, reply, rfl⟩ (by simp) (.inr rfl)
  case h_4 hphase =>
    cases hstep
    rw [hphase]
    dsimp only
    split_ifs
    · exact .same (by simp) (by simp)
    · exact .refused (by simp) (by simp)
  case h_5 hphase =>
    cases hstep
    rw [hphase]
    dsimp only
    split_ifs
    · exact .refused (by simp) (by simp)
    · exact .same (by simp) (by simp)
  case h_6 row hphase =>
    cases hstep
    rw [hphase]
    dsimp only
    split_ifs with hwrote
    · exact .settled (by simp) (by simp) ⟨row, hphase, .inr ⟨rfl, hwrote⟩⟩
    · exact .refused (by simp) (by simp)
  case h_7 row applied hphase =>
    cases hstep
    have hcommit : w.Unrefused store sh (.storeError applied) :=
      ⟨row, hphase, .inl ⟨applied, rfl⟩⟩
    rw [hphase]
    exact .settled (by simp) (by simp) hcommit
  case h_12 hphase =>
    cases hstep
    rw [hphase]
    exact .discarded (by simp) ⟨_, rfl⟩
  case h_16 hphase =>
    cases hstep
    rw [hphase]
    exact .refused (by simp) (by simp)
  case h_17 => cases hstep
  -- a write on the marker, or an error before anything was stored
  all_goals
    rename_i hphase
    cases hstep
    rw [hphase]
    exact .skipped (by simp) (by simp)

/-- A staged row refers to the worker's own body; one that replaces the marker refers
to none. -/
structure RefOk (newBodyRef : ℕ → Bytes) (r : ℕ) (w : Retier) : Prop where
  version_pos : 0 < w.version
  staged : ∀ row, w.phase.staged = some row → row.metadata.bodyRef = newBodyRef r
  rewriting : ∀ row, w.phase = .rewriting row → row.metadata.bodyRef = []

theorem step_rewriting {row : Row} (hstep : w.step store cfg newBodyRef r sh input = some x)
    (hphase : x.2.phase = .rewriting row) : row.metadata.bodyRef = [] := by
  unfold step at hstep
  split at hstep
  case h_2 =>
    split at hstep
    · cases hstep
      unfold receive at hphase
      dsimp only at hphase
      split_ifs at hphase
      all_goals
        cases hphase
        rfl
    · cases hstep
  case h_3 =>
    cases hstep
    unfold stream at hphase
    dsimp only at hphase
    split_ifs at hphase
  all_goals
    cases hstep
    try
      dsimp only at hphase
      split_ifs at hphase
    try cases hphase

theorem RefOk.step (hw : w.RefOk newBodyRef r)
    (hstep : w.step store cfg newBodyRef r sh input = some x) : x.2.RefOk newBodyRef r := by
  obtain ⟨-, q, hq⟩ := step_phase hstep
  constructor
  · rw [hq]
    exact hw.version_pos
  · intro row hstaged
    rcases step_staged hstep hstaged with hold | ⟨_, _, _, _, _, _, href, _⟩
    · exact hw.staged row hold
    · exact href
  · intro row hphase
    exact step_rewriting hstep hphase

theorem step_committing (h : store.Lawful) (hw : w.RefOk newBodyRef r) {row : Row}
    (hphase : w.phase = .committing row)
    (hstep : w.step store cfg newBodyRef r sh input = some x) :
    x.2.phase = .finished ∨ x.1.store = sh.store := by
  cases input with
  | proceed =>
    simp only [step, hphase, Option.some.injEq] at hstep
    rw [← hstep]
    rcases sh.putMetaIfVersion_cases h row hw.version_pos with ⟨s, heq, -⟩ | ⟨heq, -⟩
    · rw [heq]
      exact .inl rfl
    · rw [heq]
      exact .inr rfl
  | storeError applied =>
    simp only [step, hphase, Option.some.injEq] at hstep
    rw [← hstep]
    exact .inl rfl
  | response resp drained => simp [step, hphase] at hstep
  | stream calls reply => simp [step, hphase] at hstep
  | discard deleted => simp [step, hphase] at hstep
  | abandon => simp [step, hphase] at hstep

end Retier

/-! ## Rows without a body of their own -/

theorem Forwarded.step_marking {j : ℕ} {sh : Tier σ} {m : Forwarded} {x : Tier σ × Forwarded}
    {input : ForwardedInput} {row : Row} (hstep : m.step store cfg lib j sh input = some x)
    (hphase : x.2.phase = .marking row) : row.metadata.bodyRef = [] := by
  have hsweep : m.invalidateDisplacedTieredMeta.phase ≠ .marking row := by
    unfold invalidateDisplacedTieredMeta
    split <;> simp
  unfold step at hstep
  split at hstep
  case h_1 =>
    split at hstep
    all_goals
      cases hstep
      cases hphase
  case h_3 hforwarding =>
    split at hstep
    · cases hstep
      rw [applyUpstream, hforwarding] at hphase
      cases hphase
    · cases hstep
  case h_4 habandoned =>
    split at hstep
    · cases hstep
      rw [applyUpstream, habandoned] at hphase
      cases hphase
    · cases hstep
  case h_5 =>
    split at hstep
    · split at hstep
      · cases hstep
      · cases hstep
        unfold confirm invalidateDisplacedTieredMeta at hphase
        dsimp only at hphase
        split_ifs at hphase
        · split at hphase <;> cases hphase
        · cases hphase
          cases m.kind <;> rfl
    · cases hstep
      cases hphase
  case h_8 =>
    cases hstep
    unfold commitUpstreamMarker at hphase
    split at hphase
    · cases hphase
    · exact absurd hphase hsweep
  case h_9 =>
    cases hstep
    exact absurd hphase hsweep
  case h_13 =>
    cases hstep
    dsimp only at hphase
    split_ifs at hphase
  all_goals
    cases hstep
    try cases hphase

namespace MarkerUpgrade

/-- The row of an upgrade, from the answer it was made of. -/
structure RefOk (u : MarkerUpgrade) : Prop where
  reading : ∀ full, u.phase = .reading full → full.metadata.bodyRef = []
  committing : ∀ full cur v, u.phase = .committing full cur v → full.metadata.bodyRef = []

theorem RefOk.step {sh : Tier σ} {u : MarkerUpgrade} {x : Tier σ × MarkerUpgrade}
    {input : UpgradeInput} (hu : u.RefOk) (hstep : u.step store cfg sh input = some x) :
    x.2.RefOk := by
  unfold MarkerUpgrade.step at hstep
  split at hstep
  case h_1 =>
    split at hstep
    · cases hstep
      constructor
      · intro full hphase
        dsimp only at hphase
        split at hphase
        · rename_i full₀ hhead
          cases hphase
          unfold headObjectMeta at hhead
          split_ifs at hhead
          cases hhead
          rfl
        · cases hphase
      · intro full cur v hphase
        dsimp only at hphase
        split at hphase <;> cases hphase
    · cases hstep
  case h_2 full hreading =>
    cases hstep
    constructor
    · intro full' hphase
      dsimp only at hphase
      split at hphase
      · split_ifs at hphase
      · cases hphase
    · intro full' cur v hphase
      dsimp only at hphase
      split at hphase
      · split_ifs at hphase
        cases hphase
        exact hu.reading full hreading
      · cases hphase
  case h_8 => cases hstep
  all_goals
    cases hstep
    constructor
    · intro full hphase
      cases hphase
    · intro full cur v hphase
      cases hphase

end MarkerUpgrade

/-! ## All of them -/

namespace TieredWorld

variable {w w' : TieredWorld σ} {l : TieredLabel} {i : ℕ}

def stage (w : TieredWorld σ) (i : ℕ) : Stage :=
  match w.puts i with
  | some p => p.phase.stage
  | none =>
    match w.retiers i with
    | some wk => wk.phase.stage
    | none => .before

variable (lib) in
def Stages (i : ℕ) (w : TieredWorld σ) (l : TieredLabel) : Prop :=
  (∃ p input, w.puts i = some p ∧ l = .put i input ∧ p.Stages lib input) ∨
    ∃ calls reply, l = .retier i (.stream calls reply)

variable (store) in
def Unrefused (i : ℕ) (w : TieredWorld σ) (l : TieredLabel) : Prop :=
  (∃ p input, w.puts i = some p ∧ l = .put i input ∧ p.Unrefused store i w.shared input) ∨
    ∃ wk input, w.retiers i = some wk ∧ l = .retier i input ∧ wk.Unrefused store w.shared input

def Discards (i : ℕ) (_ : TieredWorld σ) (l : TieredLabel) : Prop :=
  (∃ deleted, l = .put i (.discard deleted)) ∨ ∃ deleted, l = .retier i (.discard deleted)

/-- Two processes that name a body have different indices, and every row that one of
them has ready refers to its own body or to none. -/
structure RefsOk (newBodyRef : ℕ → Bytes) (w : TieredWorld σ) : Prop where
  apart : ∀ i p, w.puts i = some p → w.retiers i = none
  puts : ∀ i p, w.puts i = some p → p.RefOk newBodyRef i
  mutations : ∀ j m, w.mutations j = some m → ∀ row, m.phase = .marking row →
    row.metadata.bodyRef = []
  retiers : ∀ r wk, w.retiers r = some wk → wk.RefOk newBodyRef r
  upgrades : ∀ u up, w.upgrades u = some up → up.RefOk

namespace RefsOk

theorem claim (hw : w.RefsOk newBodyRef) (node : ℕ) : (w.claimRetierWrite node).RefsOk newBodyRef := by
  constructor
  · intro i p hp
    by_contra hsome
    obtain ⟨wk, hwk⟩ := Option.ne_none_iff_exists'.mp hsome
    obtain ⟨old, c, hold, -⟩ := w.claimRetierWrite_retiers hwk
    rw [hw.apart i p hp] at hold
    cases hold
  · exact hw.puts
  · exact hw.mutations
  · intro r wk hwk
    obtain ⟨old, c, hold, rfl, -⟩ := w.claimRetierWrite_retiers hwk
    have hok := hw.retiers r old hold
    exact ⟨hok.version_pos, hok.staged, hok.rewriting⟩
  · exact hw.upgrades

theorem release (hw : w.RefsOk newBodyRef) (done : Bool) (node : ℕ) :
    (w.releaseRetierWrite done node).RefsOk newBodyRef := by
  cases done <;> exact ⟨hw.apart, hw.puts, hw.mutations, hw.retiers, hw.upgrades⟩

theorem unregister (hw : w.RefsOk newBodyRef) (r : ℕ) (wk : Retier) :
    (w.unregisterRetier r wk).RefsOk newBodyRef := by
  unfold unregisterRetier
  split_ifs <;> exact ⟨hw.apart, hw.puts, hw.mutations, hw.retiers, hw.upgrades⟩

theorem setPut (hw : w.RefsOk newBodyRef) (sh : Tier σ) {p : TieredPut} (hfree : w.retiers i = none)
    (hp : p.RefOk newBodyRef i) :
    RefsOk newBodyRef { w with shared := sh, puts := Function.update w.puts i (some p) } := by
  refine ⟨?_, ?_, hw.mutations, hw.retiers, hw.upgrades⟩
  · intro k q hq
    rcases update_eq_some_cases hq with ⟨rfl, -⟩ | hold
    · exact hfree
    · exact hw.apart k q hold
  · intro k q hq
    rcases update_eq_some_cases hq with ⟨rfl, rfl⟩ | hold
    · exact hp
    · exact hw.puts k q hold

theorem setMutation (hw : w.RefsOk newBodyRef) (sh : Tier σ) {m : Forwarded}
    (hm : ∀ row, m.phase = .marking row → row.metadata.bodyRef = []) :
    RefsOk newBodyRef
      { w with shared := sh, mutations := Function.update w.mutations i (some m) } := by
  refine ⟨hw.apart, hw.puts, ?_, hw.retiers, hw.upgrades⟩
  intro k q hq
  rcases update_eq_some_cases hq with ⟨rfl, rfl⟩ | hold
  · exact hm
  · exact hw.mutations k q hold

theorem setRetier (hw : w.RefsOk newBodyRef) (sh : Tier σ) {wk : Retier} (hfree : w.puts i = none)
    (hwk : wk.RefOk newBodyRef i) :
    RefsOk newBodyRef { w with shared := sh, retiers := Function.update w.retiers i (some wk) } := by
  refine ⟨?_, hw.puts, hw.mutations, ?_, hw.upgrades⟩
  · intro k q hq
    have hk : k ≠ i := by
      rintro rfl
      rw [hfree] at hq
      cases hq
    dsimp only
    rw [Function.update_of_ne hk]
    exact hw.apart k q hq
  · intro k q hq
    rcases update_eq_some_cases hq with ⟨rfl, rfl⟩ | hold
    · exact hwk
    · exact hw.retiers k q hold

theorem setUpgrade (hw : w.RefsOk newBodyRef) (sh : Tier σ) {up : MarkerUpgrade} (hup : up.RefOk) :
    RefsOk newBodyRef { w with shared := sh, upgrades := Function.update w.upgrades i (some up) } := by
  refine ⟨hw.apart, hw.puts, hw.mutations, hw.retiers, ?_⟩
  intro k q hq
  rcases update_eq_some_cases hq with ⟨rfl, rfl⟩ | hold
  · exact hup
  · exact hw.upgrades k q hold

theorem unused (hw : w.RefsOk newBodyRef) {wk : Retier} (hwk : w.retiers i = some wk) :
    w.puts i = none := by
  by_contra hsome
  obtain ⟨p, hp⟩ := Option.ne_none_iff_exists'.mp hsome
  rw [hw.apart i p hp] at hwk
  cases hwk

theorem idle_retier {wk : Retier} (hpos : 0 < wk.version) (hstaged : wk.phase.staged = none)
    (hrewriting : ∀ row, wk.phase ≠ .rewriting row) : wk.RefOk newBodyRef i := by
  refine ⟨hpos, ?_, fun row hrow => absurd hrow (hrewriting row)⟩
  intro row hrow
  rw [hstaged] at hrow
  cases hrow

theorem step (h : store.Lawful) (hw : w.RefsOk newBodyRef)
    (hstep : w.step store cfg lib newBodyRef l = some w') : w'.RefsOk newBodyRef := by
  cases TieredWorld.stepped hstep with
  | @startPut i p unused free routing =>
    have hp : p.RefOk newBodyRef i :=
      .of_none (by rw [TieredPut.token, routing]) (by rw [TieredPut.metadata, routing])
    have hset := (hw.setPut w.shared free hp).claim p.node
    exact ⟨hset.apart, hset.puts, hset.mutations, hset.retiers, hset.upgrades⟩
  | put found step =>
    apply release
    exact hw.setPut _ (hw.apart _ _ found) ((hw.puts _ _ found).step h step)
  | forwardPut => exact hw.setMutation _ fun row hrow => by cases hrow
  | @deleteHere d node =>
    have hclaim := hw.claim node
    exact ⟨hclaim.apart, hclaim.puts, hclaim.mutations, hclaim.retiers, hclaim.upgrades⟩
  | deleteUpstream | startMutation =>
    exact (hw.claim _).setMutation _ fun row hrow => by cases hrow
  | delete =>
    apply release
    exact ⟨hw.apart, hw.puts, hw.mutations, hw.retiers, hw.upgrades⟩
  | mutation found step =>
    apply release
    exact hw.setMutation _ fun row hrow => Forwarded.step_marking step hrow
  | readMarker read unused free fits =>
    rw [w.shared.getMetaWithVersion_eq h, Prod.mk.injEq, Prod.mk.injEq] at read
    obtain ⟨rfl, -, rfl⟩ := read
    exact hw.setRetier _ free (idle_retier (h.get_pos _) rfl (by simp))
  | @registered r wk found =>
    have hok : ({ wk with phase := .verifying } : Retier).RefOk newBodyRef r :=
      idle_retier (hw.retiers r wk found).version_pos rfl (by simp)
    have hset := hw.setRetier w.shared (hw.unused found) hok
    exact ⟨hset.apart, hset.puts, hset.mutations, hset.retiers, hset.upgrades⟩
  | unregistered found =>
    have hpos := (hw.retiers _ _ found).version_pos
    exact hw.setRetier _ (hw.unused found) (idle_retier hpos rfl (by simp))
  | retier found step =>
    apply unregister
    exact hw.setRetier _ (hw.unused found) ((hw.retiers _ _ found).step step)
  | startUpgrade =>
    apply hw.setUpgrade w.shared
    constructor
    · intro full hphase
      cases hphase
    · intro full cur v hphase
      cases hphase
  | upgrade found step => exact hw.setUpgrade _ ((hw.upgrades _ _ found).step step)

end RefsOk

theorem Idle.refsOk (hw : w.Idle) : w.RefsOk newBodyRef := by
  constructor
  · intro i p hp
    rw [hw.retiers]
  · intro i p hp
    rw [hw.puts] at hp
    cases hp
  · intro j m hm
    rw [hw.mutations] at hm
    cases hm
  · intro r wk hwk
    rw [hw.retiers] at hwk
    cases hwk
  · intro u up hup
    rw [hw.upgrades] at hup
    cases hup

theorem claimRetierWrite_stage (node : ℕ) : (w.claimRetierWrite node).stage i = w.stage i := by
  unfold stage claimRetierWrite
  dsimp only
  cases w.inflight node with
  | none => rfl
  | some r =>
    dsimp only
    by_cases hi : i = r
    · subst hi
      rw [Function.update_self]
      cases w.retiers i <;> rfl
    · rw [Function.update_of_ne hi]

theorem stageMove_of_ne (hstage : w'.stage i = w.stage i) (hput : ∀ input, l ≠ .put i input)
    (hretier : ∀ input, l ≠ .retier i input) :
    StageMove (w.Stages lib i l) (w.Unrefused store i l) (w.Discards i l) (w.stage i)
      (w'.stage i) := by
  rw [hstage]
  apply StageMove.same
  · rintro (⟨p, input, -, rfl, -⟩ | ⟨calls, reply, rfl⟩)
    · exact hput input rfl
    · exact hretier _ rfl
  · rintro (⟨deleted, rfl⟩ | ⟨deleted, rfl⟩)
    · exact hput _ rfl
    · exact hretier _ rfl

theorem stage_of_put {p : TieredPut} (hp : w.puts i = some p) : w.stage i = p.phase.stage := by
  simp only [stage, hp]

theorem stage_of_retier {k : Retier} (hp : w.puts i = none) (hk : w.retiers i = some k) :
    w.stage i = k.phase.stage := by
  simp only [stage, hp, hk]

theorem stage_congr (hputs : w'.puts i = w.puts i) (hretiers : w'.retiers i = w.retiers i) :
    w'.stage i = w.stage i := by
  rw [stage, stage, hputs, hretiers]

theorem stage_of_claim (node : ℕ) (hputs : w'.puts i = w.puts i)
    (hretiers : w'.retiers = (w.claimRetierWrite node).retiers) : w'.stage i = w.stage i :=
  (stage_congr (w := w.claimRetierWrite node) hputs (congrFun hretiers i)).trans
    (claimRetierWrite_stage node)

theorem step_stage (hw : w.RefsOk newBodyRef)
    (hstep : w.step store cfg lib newBodyRef l = some w') (i : ℕ) :
    StageMove (w.Stages lib i l) (w.Unrefused store i l) (w.Discards i l) (w.stage i)
      (w'.stage i) := by
  cases stepped hstep with
  | @startPut k p unused free routing =>
    apply stageMove_of_ne _ (by simp) (by simp)
    by_cases hi : i = k
    · subst hi
      rw [stage_of_put (Function.update_self _ _ _), routing]
      simp only [stage, unused, free]
      rfl
    · exact stage_of_claim p.node (Function.update_of_ne hi _ _) rfl
  | @put k input p x found step =>
    by_cases hi : i = k
    · subst hi
      rw [stage_of_put found, stage_of_put (p := x.2) (by simp)]
      apply (TieredPut.step_stage step).of_iff
      · simp [Stages, found]
      · simp [Unrefused, found, hw.apart i p found]
      · simp [Discards]
    · apply stageMove_of_ne _ (by simpa using fun h => absurd h.symm hi) (by simp)
      exact stage_congr (by simp [Function.update_of_ne hi]) (by simp)
  | forwardPut | startUpgrade | upgrade => exact stageMove_of_ne rfl (by simp) (by simp)
  | deleteHere | deleteUpstream | startMutation =>
    exact stageMove_of_ne (stage_of_claim _ rfl rfl) (by simp) (by simp)
  | delete | mutation =>
    exact stageMove_of_ne (stage_congr (by simp) (by simp)) (by simp) (by simp)
  | @readMarker k node version sh row read unused free fits =>
    apply stageMove_of_ne _ (by simp) (by simp)
    by_cases hi : i = k
    · subst hi
      simp only [stage, free, unused, Function.update_self]
      rfl
    · exact stage_congr rfl (Function.update_of_ne hi _ _)
  | @registered k wk found seen =>
    by_cases hi : i = k
    · subst hi
      have hunused := hw.unused found
      rw [stage_of_retier hunused found, seen]
      simp only [stage, hunused, Function.update_self]
      exact .same (by simp [Stages]) (by simp [Discards])
    · exact stageMove_of_ne (stage_congr rfl (Function.update_of_ne hi _ _)) (by simp) (by simp)
  | @unregistered k wk found seen =>
    by_cases hi : i = k
    · subst hi
      have hunused := hw.unused found
      rw [stage_of_retier hunused found, seen]
      simp only [stage, hunused, Function.update_self]
      exact .skipped (by simp [Stages]) (by simp [Discards])
    · exact stageMove_of_ne (stage_congr rfl (Function.update_of_ne hi _ _)) (by simp) (by simp)
  | @retier k input wk x found step =>
    by_cases hi : i = k
    · subst hi
      have hunused := hw.unused found
      rw [stage_of_retier hunused found, stage_of_retier (k := x.2) (by simp [hunused]) (by simp)]
      apply (Retier.step_stage step).of_iff
      · simp [Stages]
      · simp [Unrefused, found]
      · simp [Discards]
    · apply stageMove_of_ne _ (by simp) (by simpa using fun h => absurd h.symm hi)
      exact stage_congr (by simp) (by simp [Function.update_of_ne hi])

/-- A row that becomes visible with the reference of index `i` is committed by the PUT
or the re-tier of that index, which ends with it. -/
theorem step_wrote (h : store.Lawful) (hrefs : FreshRefs newBodyRef) (hw : w.RefsOk newBodyRef)
    (hstep : w.step store cfg lib newBodyRef l = some w') {row : Row} (hoffer : w.Offers l row)
    (hlater : store.version w.shared.store < store.version w'.shared.store) (href : row.metadata.bodyRef = newBodyRef i) :
    w.stage i = .staged ∧ w'.stage i = .ended := by
  have hindex : ∀ k, row.metadata.bodyRef = newBodyRef k → k = i := by
    intro k hk
    exact hrefs.injective k i (congrArg etagKeyComponent (hk.symm.trans href))
  have hmarker : row.metadata.bodyRef ≠ [] := by
    rw [href]
    exact hrefs.nonempty i
  cases l with
  | put k input =>
    obtain ⟨p, hp, token, attempt, hphase⟩ := hoffer
    have hok := hw.puts k p hp
    obtain rfl := hindex k (hok.ref _ (by rw [TieredPut.metadata, hphase]))
    simp only [step, hp, Option.bind_some, Option.map_eq_some_iff] at hstep
    obtain ⟨x, hx, rfl⟩ := hstep
    rw [releaseRetierWrite_shared] at hlater
    have hpos := hok.token_pos token (by rw [TieredPut.token, hphase])
    rcases TieredPut.step_storing h hpos hphase hx with hdone | hsame
    · rw [stage_of_put hp, stage_of_put (p := x.2) (by simp), hphase, hdone]
      exact ⟨rfl, rfl⟩
    · rw [hsame] at hlater
      exact absurd hlater (lt_irrefl _)
  | retier k input =>
    obtain ⟨wk, hwk, hphase | hphase⟩ := hoffer
    · have hok := hw.retiers k wk hwk
      obtain rfl := hindex k (hok.staged row (by rw [hphase]; rfl))
      have hunused := hw.unused hwk
      simp only [step, hwk, Option.bind_some, Option.map_eq_some_iff] at hstep
      obtain ⟨x, hx, rfl⟩ := hstep
      rw [unregisterRetier_shared] at hlater
      rcases Retier.step_committing h hok hphase hx with hdone | hsame
      · rw [stage_of_retier hunused hwk, stage_of_retier (k := x.2) (by simp [hunused]) (by simp),
          hphase, hdone]
        exact ⟨rfl, rfl⟩
      · rw [hsame] at hlater
        exact absurd hlater (lt_irrefl _)
    · exact absurd ((hw.retiers k wk hwk).rewriting row hphase) hmarker
  | mutation j input =>
    obtain ⟨m, hm, hphase⟩ := hoffer
    exact absurd (hw.mutations j m hm row hphase) hmarker
  | upgrade u input =>
    obtain ⟨up, hup, cur, v, hphase⟩ := hoffer
    exact absurd ((hw.upgrades u up hup).committing row cur v hphase) hmarker
  | startPut | forwardPut | startDelete | delete | startMutation | readMarker | registerRetier
  | startUpgrade => exact hoffer.elim

end TieredWorld

variable (store cfg lib newBodyRef) in
/-- What a run tells about the bodies that were staged in it. -/
structure StagedHistory (start : TieredWorld σ) (ls : List TieredLabel) (w : TieredWorld σ) :
    Prop where
  refs : w.RefsOk newBodyRef
  discarded : ∀ i, Took (TieredWorld.step store cfg lib newBodyRef) (TieredWorld.Discards i)
    start ls → w.stage i = .ended
  attempted : ∀ i, Took (TieredWorld.step store cfg lib newBodyRef) (TieredWorld.Stages lib i)
    start ls → w.stage i = .staged ∨ w.stage i = .discarding ∨
      Took (TieredWorld.step store cfg lib newBodyRef) (TieredWorld.Discards i) start ls ∨
      Took (TieredWorld.step store cfg lib newBodyRef) (TieredWorld.Unrefused store i) start ls
  visible : ∀ row, store.row w.shared.store = some row → ∀ i,
    row.metadata.bodyRef = newBodyRef i → w.stage i = .ended ∧
      ¬ Took (TieredWorld.step store cfg lib newBodyRef) (TieredWorld.Discards i) start ls

namespace StagedHistory

variable {start w w' : TieredWorld σ} {ls : List TieredLabel} {l : TieredLabel}

theorem init (hidle : start.Idle)
    (hvisible : ∀ row, store.row start.shared.store = some row → ∀ i,
      row.metadata.bodyRef ≠ newBodyRef i) :
    StagedHistory store cfg lib newBodyRef start [] start :=
  ⟨hidle.refsOk, fun _ htook => absurd htook not_took_nil,
    fun _ htook => absurd htook not_took_nil, fun row hrow i href => absurd href (hvisible row hrow i)⟩

theorem step (h : store.Lawful) (hrefs : FreshRefs newBodyRef)
    (hrun : run (TieredWorld.step store cfg lib newBodyRef) start ls = some w)
    (hw : StagedHistory store cfg lib newBodyRef start ls w)
    (hstep : w.step store cfg lib newBodyRef l = some w') :
    StagedHistory store cfg lib newBodyRef start (ls ++ [l]) w' := by
  have hmove := TieredWorld.step_stage hw.refs hstep
  refine ⟨hw.refs.step h hstep, ?_, ?_, ?_⟩
  · intro i htook
    rcases (took_snoc_iff hrun).mp htook with hold | hnow
    · have hi := hmove i
      rw [hw.discarded i hold] at hi
      exact hi.of_ended.1
    · exact ((hmove i).of_discards hnow).2
  · intro i htook
    rcases (took_snoc_iff hrun).mp htook with hold | hnow
    · have hpending : ∀ {s}, (w.stage i = .staged ∨ w.stage i = .discarding) → s = w'.stage i →
          s = .staged ∨ s = .discarding ∨
            Took (TieredWorld.step store cfg lib newBodyRef) (TieredWorld.Discards i) start
              (ls ++ [l]) ∨
            Took (TieredWorld.step store cfg lib newBodyRef) (TieredWorld.Unrefused store i) start
              (ls ++ [l]) := by
        rintro s hs rfl
        exact ((hmove i).of_pending hs).imp_right (.imp_right (.imp
          (fun hd => (took_snoc_iff hrun).mpr (.inr hd)) fun hu => (took_snoc_iff hrun).mpr (.inr hu)))
      rcases hw.attempted i hold with hs | hs | hd | hu
      · exact hpending (.inl hs) rfl
      · exact hpending (.inr hs) rfl
      · exact .inr (.inr (.inl ((took_snoc_iff hrun).mpr (.inl hd))))
      · exact .inr (.inr (.inr ((took_snoc_iff hrun).mpr (.inl hu))))
    · rcases (hmove i).of_stages hnow with hs | hs
      · exact .inl hs
      · exact .inr (.inl hs)
  · intro row hrow i href
    cases TieredWorld.step_touches h hstep with
    | kept _ hsame _ =>
      obtain ⟨hended, hkept⟩ := hw.visible row (hsame ▸ hrow) i href
      have hi := hmove i
      rw [hended] at hi
      refine ⟨hi.of_ended.1, fun htook => ?_⟩
      rcases (took_snoc_iff hrun).mp htook with hold | hnow
      · exact hkept hold
      · exact hi.of_ended.2.2 hnow
    | removed _ gone =>
      rw [gone] at hrow
      cases hrow
    | wrote later found offer =>
      obtain rfl := Option.some.inj (found.symm.trans hrow)
      obtain ⟨hstaged, hended⟩ := TieredWorld.step_wrote h hrefs hw.refs hstep offer later href
      refine ⟨hended, fun htook => ?_⟩
      rcases (took_snoc_iff hrun).mp htook with hold | hnow
      · rw [hw.discarded i hold] at hstaged
        cases hstaged
      · rw [((hmove i).of_discards hnow).1] at hstaged
        cases hstaged

end StagedHistory

theorem stagedHistory_run (h : store.Lawful) (hrefs : FreshRefs newBodyRef)
    {start w : TieredWorld σ} {ls : List TieredLabel} (hidle : start.Idle)
    (hvisible : ∀ row, store.row start.shared.store = some row → ∀ i,
      row.metadata.bodyRef ≠ newBodyRef i)
    (hrun : run (TieredWorld.step store cfg lib newBodyRef) start ls = some w) :
    StagedHistory store cfg lib newBodyRef start ls w := by
  have hguard : Along (TieredWorld.step store cfg lib newBodyRef) (fun _ _ => True) start ls :=
    along_of_forall fun _ _ _ => trivial
  exact run_history (.init hidle hvisible)
    (fun _ _ _ _ hrun hw _ hstep => hw.step h hrefs hrun hstep) hguard hrun

/-- No visible row refers to a body whose deletion was attempted; and where a PUT or a
re-tier that had handed its body to the store has ended without a commit that was made or
may have been, the deletion of its body was attempted. -/
theorem staged_bodies_reclaimed (h : store.Lawful) (hrefs : FreshRefs newBodyRef)
    {start w : TieredWorld σ} {ls : List TieredLabel} (hidle : start.Idle)
    (hvisible : ∀ row, store.row start.shared.store = some row → ∀ i,
      row.metadata.bodyRef ≠ newBodyRef i)
    (hrun : run (TieredWorld.step store cfg lib newBodyRef) start ls = some w) :
    (∀ row, store.row w.shared.store = some row → ∀ i, row.metadata.bodyRef = newBodyRef i →
      ¬ Took (TieredWorld.step store cfg lib newBodyRef) (TieredWorld.Discards i) start ls) ∧
    ∀ i, w.stage i = .ended →
      Took (TieredWorld.step store cfg lib newBodyRef) (TieredWorld.Stages lib i) start ls →
      ¬ Took (TieredWorld.step store cfg lib newBodyRef) (TieredWorld.Unrefused store i) start ls →
      Took (TieredWorld.step store cfg lib newBodyRef) (TieredWorld.Discards i) start ls := by
  have hw := stagedHistory_run h hrefs hidle hvisible hrun
  constructor
  · intro row hrow i href
    exact (hw.visible row hrow i href).2
  · intro i hended hstages hrefused
    rcases hw.attempted i hstages with hs | hs | hd | hu
    · rw [hended] at hs
      cases hs
    · rw [hended] at hs
      cases hs
    · exact hd
    · exact absurd hu hrefused

/-- One PUT is stored; the body of a second is shed. -/
def storedAndShed : List TieredLabel :=
  [.startPut 0 (samplePut "Range" "a" "x"), .put 0 (.route false), .put 0 (.upload wholeUpload),
    .put 0 .proceed, .startPut 1 (samplePut "Range" "a" "y"), .put 1 (.route false),
    .put 1 (.upload { wholeUpload with reply := .shed }), .put 1 (.discard true)]

theorem staged_bodies_reclaimed_shed :
    ∃ w, run (TieredWorld.step Cell.store sampleTiered engineLib sampleRef) emptyTier
        storedAndShed = some w ∧
      (∃ row, Cell.store.row w.shared.store = some row ∧ row.metadata.bodyRef = sampleRef 0) ∧
      ¬ Took (TieredWorld.step Cell.store sampleTiered engineLib sampleRef)
        (TieredWorld.Discards 0) emptyTier storedAndShed ∧
      Took (TieredWorld.step Cell.store sampleTiered engineLib sampleRef)
        (TieredWorld.Discards 1) emptyTier storedAndShed := by
  have hends : ∃ w, run (TieredWorld.step Cell.store sampleTiered engineLib sampleRef) emptyTier
      storedAndShed = some w ∧
      ((Cell.store.row w.shared.store).map fun row => row.metadata.bodyRef) = some (sampleRef 0) ∧
      w.stage 1 = .ended := exists_run_of_any (by decide +kernel)
  have huploads : ∃ w, run (TieredWorld.step Cell.store sampleTiered engineLib sampleRef) emptyTier
      (storedAndShed.take 6) = some w ∧
      w.puts 1 = some { samplePut "Range" "a" "y" with phase := .uploading 2 1 } :=
    exists_run_of_any (by decide +kernel)
  obtain ⟨w, hrun, hrow, hended⟩ := hends
  obtain ⟨t, ht, hput⟩ := huploads
  obtain ⟨row, hfound, href⟩ := Option.map_eq_some_iff.mp hrow
  obtain ⟨hkept, hreclaimed⟩ := staged_bodies_reclaimed Cell.store_lawful sampleRef_fresh
    ⟨rfl, rfl, rfl, rfl, rfl⟩ (by rintro row ⟨⟩) hrun
  refine ⟨w, hrun, ⟨row, hfound, href⟩, hkept row hfound 0 href, hreclaimed 1 hended ?_ ?_⟩
  · exact ⟨_, _, [.put 1 (.discard true)], t, rfl, ht, .inl ⟨_, _, hput, rfl, _, none, rfl, rfl⟩⟩
  · rintro ⟨before, l, after, s, heq, -, hl⟩
    have hmem : l ∈ storedAndShed := by
      rw [heq]
      simp
    rcases hl with ⟨p, input, -, rfl, -, -, -, -, ⟨_, rfl⟩ | ⟨rfl, -⟩⟩ |
      ⟨wk, input, -, rfl, -⟩ <;> simp [storedAndShed] at hmem

end TagGateway.Proxy
