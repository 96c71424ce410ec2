import TagGateway.Cache.LegacyCoordinator

/-!
# What tombstones order

A commit that found no tombstone at or after its token may still store its row
once a later invalidation has both stored its tombstone and deleted the row; and
a tombstone may replace a newer one. When neither happens, no visible row is as
old as a completed invalidation.
-/
namespace TagGateway.Cache

open Foundation List LegacyCoordinator

universe u

variable {ρ : Type u} {w w' : LegacyWorld ρ}

namespace LegacyCoordinator

theorem tombstoneTimestamp_data {ts : ℕ} (h : ts < 2 ^ 63) :
    tombstoneTimestamp (some (tombstoneData ts)) = .ok (ts : ℤ) := by
  have hword : ts < 2 ^ 64 := by omega
  simp [tombstoneTimestamp, tombstoneData, length_putUint64, uint64_putUint64 hword,
    wrap64_eq_self h]

/-- A commit that goes on past a tombstone carries a later token. -/
theorem lt_of_tombstoneAdmits {expected ts : ℕ} (hts : ts < 2 ^ 63)
    (h : tombstoneAdmits expected (some (tombstoneData ts)) = true) : ts < expected := by
  simp only [tombstoneAdmits, tombstoneTimestamp_data hts, decide_eq_true_eq] at h
  have hle := wrap64_le expected
  omega

end LegacyCoordinator

namespace LegacyWorld

/-- A tombstone that call `d` stored after the check of commit `i` belongs to a
call that has not completed, or is older than the token. -/
def NotOvertaken (w : LegacyWorld ρ) (i expected : ℕ) : LegacyEvent → Prop
  | .marked d => [LegacyEvent.checked i, LegacyEvent.marked d] <+ w.log →
      ∀ ts ∈ w.completedAt d, ts < expected
  | .checked _ => True

/-- The stored tombstone is not newer than `ts`. -/
def NotNewer (w : LegacyWorld ρ) (ts : ℕ) : Prop :=
  ∀ stored ∈ (tombstoneTimestamp w.tombstone).toOption, stored ≤ (ts : ℤ)

/-- The condition on steps: no row is stored when an invalidation at or after its
token has stored its tombstone since the check and completed; and no tombstone
replaces a newer one. -/
def OrderGuard (w : LegacyWorld ρ) : LegacyLabel ρ → Prop
  | .put i input => input.applies = true → ∀ c ∈ w.puts i, c.phase = .writing →
      ∀ e ∈ w.log, w.NotOvertaken i c.expected e
  | .delete d input => input.applies = true →
      ∀ ts ∈ (w.deletes d).bind DeletePhase.pendingAt, w.NotNewer ts
  | .getMetaWithVersion _ | .startPut _ _ _ | .startDelete _ | .expire => True

instance (w : LegacyWorld ρ) (i expected : ℕ) : DecidablePred (w.NotOvertaken i expected)
  | .marked _ => inferInstanceAs (Decidable (_ → ∀ ts ∈ _, _))
  | .checked _ => .isTrue trivial

instance (w : LegacyWorld ρ) (ts : ℕ) : Decidable (w.NotNewer ts) :=
  inferInstanceAs (Decidable (∀ stored ∈ _, _))

instance (w : LegacyWorld ρ) : DecidablePred w.OrderGuard
  | .put _ _ => inferInstanceAs (Decidable (_ → ∀ c ∈ _, _ → ∀ e ∈ _, _))
  | .delete _ _ => inferInstanceAs (Decidable (_ → ∀ ts ∈ _, _))
  | .getMetaWithVersion _ | .startPut _ _ _ | .startDelete _ | .expire => .isTrue trivial

/-- What tombstones order, under that condition. -/
structure TombstoneOrder (w : LegacyWorld ρ) : Prop where
  stamp_lt : ∀ d ts, (w.deletes d).bind DeletePhase.stampedAt = some ts → ts < 2 ^ 63
  mark_le : ∀ d ts, w.markedAt d = some ts →
    ∃ T, w.tombstone = some (tombstoneData T) ∧ T < 2 ^ 63 ∧ ts ≤ T
  checked : ∀ i c, w.puts i = some c → c.phase = .writing →
    LegacyEvent.checked i ∈ w.log ∨ 2 ^ 63 ≤ c.expected
  writing : ∀ i c d ts, w.puts i = some c → c.phase = .writing → w.markedAt d = some ts →
    ts < c.expected ∨ [LegacyEvent.checked i, LegacyEvent.marked d] <+ w.log
  row : ∀ x d ts, w.row = some x → w.completedAt d = some ts → ts < x.token

theorem markedAt_of_completedAt {d ts : ℕ} (h : w.completedAt d = some ts) :
    w.markedAt d = some ts := by
  obtain ⟨phase, hphase, hts⟩ := Option.bind_eq_some_iff.mp h
  cases phase with
  | finished t => exact Option.bind_eq_some_iff.mpr ⟨_, hphase, hts⟩
  | _ => cases hts

theorem stampedAt_of_markedAt {d ts : ℕ} (h : w.markedAt d = some ts) :
    (w.deletes d).bind DeletePhase.stampedAt = some ts := by
  obtain ⟨phase, hphase, hts⟩ := Option.bind_eq_some_iff.mp h
  cases phase with
  | marked t | finished t => exact Option.bind_eq_some_iff.mpr ⟨_, hphase, hts⟩
  | _ => cases hts

namespace TombstoneOrder

theorem clearRow (h : w.TombstoneOrder) : ({ w with row := none } : LegacyWorld ρ).TombstoneOrder :=
  { h with row := by rintro x d ts ⟨⟩ }

theorem storeRow (h : w.TombstoneOrder) {x : Stamped ρ}
    (hx : ∀ d ts, w.completedAt d = some ts → ts < x.token) :
    ({ w with row := some x } : LegacyWorld ρ).TombstoneOrder :=
  { h with
    row := by
      rintro y d ts ⟨rfl⟩ hts
      exact hx d ts hts }

theorem setPut (h : w.TombstoneOrder) (i : ℕ) (c : PutCall ρ) {phase : PutPhase}
    (hphase : phase ≠ .writing) : (w.setPut i c phase).TombstoneOrder := by
  refine ⟨h.stamp_lt, h.mark_le, ?_, ?_, h.row⟩
  · intro i' c' hc' hw
    rcases update_eq_some_cases hc' with ⟨-, rfl⟩ | hc'
    · exact absurd hw hphase
    · exact h.checked i' c' hc' hw
  · intro i' c' d ts hc' hw
    rcases update_eq_some_cases hc' with ⟨-, rfl⟩ | hc'
    · exact absurd hw hphase
    · exact h.writing i' c' d ts hc' hw

theorem setDelete (h : w.TombstoneOrder) {d : ℕ} {phase : DeletePhase}
    (hstamp : ∀ ts, phase.stampedAt = some ts → ts < 2 ^ 63)
    (hmark : ∀ ts, phase.markedAt = some ts → w.markedAt d = some ts)
    (hcompleted : phase.completedAt.isSome → w.row = none) :
    (w.setDelete d phase).TombstoneOrder := by
  have hold : ∀ d' ts, (w.setDelete d phase).markedAt d' = some ts → w.markedAt d' = some ts := by
    intro d' ts hts
    rcases update_bind_cases hts with ⟨rfl, hphase⟩ | hold
    · exact hmark ts hphase
    · exact hold
  refine ⟨?_, ?_, h.checked, ?_, ?_⟩
  · intro d' ts hts
    rcases update_bind_cases hts with ⟨-, hts⟩ | hts
    · exact hstamp ts hts
    · exact h.stamp_lt d' ts hts
  · intro d' ts hts
    exact h.mark_le d' ts (hold d' ts hts)
  · intro i c d' ts hc hw hts
    exact h.writing i c d' ts hc hw (hold d' ts hts)
  · intro x d' ts hx hts
    rcases update_bind_cases hts with ⟨-, hts⟩ | hts
    · have hnone := hcompleted (by simp [hts])
      exact absurd (hnone.symm.trans hx) (by simp)
    · exact h.row x d' ts hx hts

theorem storeTombstone (h : w.TombstoneOrder) {T : ℕ} (hT : T < 2 ^ 63)
    (hle : ∀ d ts, w.markedAt d = some ts → ts ≤ T) :
    ({ w with tombstone := some (tombstoneData T) } : LegacyWorld ρ).TombstoneOrder :=
  { h with mark_le := fun d ts hts => ⟨T, rfl, hT, hle d ts hts⟩ }

theorem le_of_notNewer (h : w.TombstoneOrder) {ts : ℕ} (hn : w.NotNewer ts) :
    ∀ d ts', w.markedAt d = some ts' → ts' ≤ ts := by
  intro d ts' hts'
  obtain ⟨T, hstored, hT, hle⟩ := h.mark_le d ts' hts'
  have hstored' := hn T (by rw [hstored, tombstoneTimestamp_data hT]; rfl)
  omega

/-- A check that finds no tombstone at or after the token lets the commit go on
to its write. -/
theorem check (h : w.TombstoneOrder) {i : ℕ} {c : PutCall ρ}
    (hadmits : tombstoneAdmits c.expected w.tombstone = true) :
    ({ w.setPut i c .writing with log := w.log ++ [.checked i] } :
      LegacyWorld ρ).TombstoneOrder := by
  refine ⟨h.stamp_lt, h.mark_le, ?_, ?_, h.row⟩
  · intro i' c' hc' hw
    rcases update_eq_some_cases hc' with ⟨rfl, -⟩ | hc'
    · exact .inl (by simp)
    · refine (h.checked i' c' hc' hw).imp_left fun hmem => ?_
      simp [hmem]
  · intro i' c' d ts hc' hw hts
    rcases update_eq_some_cases hc' with ⟨-, rfl⟩ | hc'
    · obtain ⟨T, hstored, hT, hle⟩ := h.mark_le d ts hts
      rw [hstored] at hadmits
      exact .inl (hle.trans_lt (lt_of_tombstoneAdmits hT hadmits))
    · refine (h.writing i' c' d ts hc' hw hts).imp_right fun hsub => ?_
      exact hsub.trans (sublist_append_left _ _)

/-- The unordered write checks nothing; its token is beyond every clock. -/
theorem skipCheck (h : w.TombstoneOrder) {i : ℕ} {c : PutCall ρ}
    (hany : c.expected = versionAny) : (w.setPut i c .writing).TombstoneOrder := by
  have hbig : 2 ^ 63 ≤ c.expected := by rw [hany]; decide
  refine ⟨h.stamp_lt, h.mark_le, ?_, ?_, h.row⟩
  · intro i' c' hc' hw
    rcases update_eq_some_cases hc' with ⟨-, rfl⟩ | hc'
    · exact .inr hbig
    · exact h.checked i' c' hc' hw
  · intro i' c' d ts hc' hw hts
    rcases update_eq_some_cases hc' with ⟨-, rfl⟩ | hc'
    · exact .inl ((h.stamp_lt d ts (stampedAt_of_markedAt hts)).trans_le hbig)
    · exact h.writing i' c' d ts hc' hw hts

/-- A stored tombstone is seen by no commit that was checked before. -/
theorem mark (h : w.TombstoneOrder) {d ts : ℕ} (hts : ts < 2 ^ 63) (hn : w.NotNewer ts) :
    ({ w.setDelete d (.marked ts) with
      tombstone := some (tombstoneData ts), log := w.log ++ [.marked d] } :
      LegacyWorld ρ).TombstoneOrder := by
  refine ⟨?_, ?_, ?_, ?_, ?_⟩
  · intro d' ts' hts'
    rcases update_bind_cases hts' with ⟨-, ⟨rfl⟩⟩ | hts'
    · exact hts
    · exact h.stamp_lt d' ts' hts'
  · intro d' ts' hts'
    refine ⟨ts, rfl, hts, ?_⟩
    rcases update_bind_cases hts' with ⟨-, ⟨rfl⟩⟩ | hts'
    · exact le_rfl
    · exact h.le_of_notNewer hn d' ts' hts'
  · intro i c hc hw
    refine (h.checked i c hc hw).imp_left fun hmem => ?_
    simp [hmem]
  · intro i c d' ts' hc hw hts'
    rcases update_bind_cases hts' with ⟨rfl, ⟨rfl⟩⟩ | hts'
    · rcases h.checked i c hc hw with hmem | hbig
      · exact .inr (pair_snoc hmem)
      · exact .inl (hts.trans_le hbig)
    · refine (h.writing i c d' ts' hc hw hts').imp_right fun hsub => ?_
      exact hsub.trans (sublist_append_left _ _)
  · intro x d' ts' hx hts'
    rcases update_bind_cases hts' with ⟨-, ⟨⟩⟩ | hts'
    exact h.row x d' ts' hx hts'

end TombstoneOrder

theorem initial_tombstoneOrder (row : Option (Stamped ρ)) (tombstone : Option Bytes) (clock : ℕ) :
    (initial row tombstone clock).TombstoneOrder := by
  constructor <;> simp [initial, markedAt, completedAt]

theorem stepPut_tombstoneOrder (h : w.TombstoneOrder) {i : ℕ} {c : PutCall ρ}
    {input : LegacyInput} (hc : w.puts i = some c) (hguard : w.OrderGuard (.put i input))
    (hstep : w.stepPut i c input = some w') : w'.TombstoneOrder := by
  have hrow : input.applies = true → c.phase = .writing →
      ∀ d ts, w.completedAt d = some ts → ts < c.expected := by
    intro happlies hw d ts hts
    rcases h.writing i c d ts hc hw (markedAt_of_completedAt hts) with hlt | hsub
    · exact hlt
    · exact hguard happlies c hc hw (.marked d) (hsub.subset (by simp)) hsub ts hts
  unfold stepPut at hstep
  split at hstep
  · split_ifs at hstep with hzero hany hadmits
    · cases hstep
      exact h.setPut i c (by simp)
    · cases hstep
      exact h.skipCheck hany
    · cases hstep
      exact h.check hadmits
    · cases hstep
      exact h.setPut i c (by simp)
  · simp only [Option.ite_none_left_eq_some, Option.some.injEq] at hstep
    rw [← hstep.2]
    exact h.setPut i c (by simp)
  · rename_i hphase
    cases hstep
    exact (h.setPut i c (by simp)).storeRow (hrow rfl hphase)
  · rename_i applied hphase
    cases hstep
    cases applied with
    | false => exact h.setPut i c (by simp)
    | true => exact (h.setPut i c (by simp)).storeRow (hrow rfl hphase)
  · cases hstep

theorem stepDelete_tombstoneOrder (h : w.TombstoneOrder) {d : ℕ} {phase : DeletePhase}
    {input : LegacyInput} (hd : w.deletes d = some phase) (hguard : w.OrderGuard (.delete d input))
    (hstep : w.stepDelete d phase input = some w') : w'.TombstoneOrder := by
  unfold stepDelete at hstep
  split at hstep
  · simp only [Option.ite_none_right_eq_some, Option.some.injEq] at hstep
    obtain ⟨⟨-, hnow⟩, rfl⟩ := hstep
    have hnext : (w.setDelete d (.stamped _)).TombstoneOrder :=
      h.setDelete (by rintro ts ⟨rfl⟩; exact hnow) (by rintro ts ⟨⟩) (by rintro ⟨⟩)
    exact { hnext with }
  · rename_i ts
    cases hstep
    have hts : ts < 2 ^ 63 := h.stamp_lt d ts (by rw [hd]; rfl)
    exact h.mark hts (hguard rfl ts (by rw [hd]; rfl))
  · rename_i ts applied
    cases hstep
    have hts : ts < 2 ^ 63 := h.stamp_lt d ts (by rw [hd]; rfl)
    have hnext : (w.setDelete d .unmarked).TombstoneOrder :=
      h.setDelete (by rintro ts ⟨⟩) (by rintro ts ⟨⟩) (by rintro ⟨⟩)
    cases applied with
    | false => exact hnext
    | true =>
      refine hnext.storeTombstone hts fun d' ts' hts' => ?_
      rcases update_bind_cases hts' with ⟨-, ⟨⟩⟩ | hts'
      exact h.le_of_notNewer (hguard rfl ts (by rw [hd]; rfl)) d' ts' hts'
  · rename_i ts
    cases hstep
    have hts : ts < 2 ^ 63 := h.stamp_lt d ts (by rw [hd]; rfl)
    refine h.clearRow.setDelete (by rintro ts ⟨rfl⟩; exact hts) ?_ fun _ => rfl
    rintro ts ⟨rfl⟩
    simp [markedAt, hd, DeletePhase.markedAt]
  · cases hstep
    exact h.clearRow.setDelete (by rintro ts ⟨⟩) (by rintro ts ⟨⟩) (by rintro ⟨⟩)
  · rename_i applied
    cases hstep
    have hnext : (w.setDelete d .failed).TombstoneOrder :=
      h.setDelete (by rintro ts ⟨⟩) (by rintro ts ⟨⟩) (by rintro ⟨⟩)
    cases applied with
    | false => exact hnext
    | true => exact hnext.clearRow
  · rename_i applied
    cases hstep
    have hnext : (w.setDelete d .failed).TombstoneOrder :=
      h.setDelete (by rintro ts ⟨⟩) (by rintro ts ⟨⟩) (by rintro ⟨⟩)
    cases applied with
    | false => exact hnext
    | true => exact hnext.clearRow
  · cases hstep

theorem TombstoneOrder.step (h : w.TombstoneOrder) {l : LegacyLabel ρ} (hguard : w.OrderGuard l)
    (hstep : w.step l = some w') : w'.TombstoneOrder := by
  cases l with
  | getMetaWithVersion now =>
    simp only [LegacyWorld.step, Option.ite_none_right_eq_some, Option.some.injEq] at hstep
    rw [← hstep.2]
    exact { h with }
  | startPut i metadata expected =>
    simp only [LegacyWorld.step] at hstep
    split at hstep
    · cases hstep
      exact h.setPut i _ (by simp)
    · cases hstep
  | put i input =>
    obtain ⟨c, hc, hstep⟩ := Option.bind_eq_some_iff.mp hstep
    exact stepPut_tombstoneOrder h hc hguard hstep
  | startDelete d =>
    simp only [LegacyWorld.step] at hstep
    split at hstep
    · cases hstep
      exact h.setDelete (by rintro ts ⟨⟩) (by rintro ts ⟨⟩) (by rintro ⟨⟩)
    · cases hstep
  | delete d input =>
    obtain ⟨phase, hd, hstep⟩ := Option.bind_eq_some_iff.mp hstep
    exact stepDelete_tombstoneOrder h hd hguard hstep
  | expire =>
    cases hstep
    exact h.clearRow

/-- Along every interleaving of commits and invalidations that meets the
condition, in every state: a visible row was put with a token greater than the
time of every completed invalidation's tombstone. -/
theorem visible_row_newer_than_completed_delete {row : Option (Stamped ρ)}
    {tombstone : Option Bytes} {clock : ℕ} {ls : List (LegacyLabel ρ)}
    (hguard : Along step OrderGuard (initial row tombstone clock) ls)
    (hrun : run step (initial row tombstone clock) ls = some w) :
    ∀ x d ts, w.row = some x → w.completedAt d = some ts → ts < x.token := by
  have hpreserved : ∀ (s : LegacyWorld ρ) (l : LegacyLabel ρ) (s' : LegacyWorld ρ),
      s.TombstoneOrder → s.OrderGuard l → s.step l = some s' → s'.TombstoneOrder :=
    fun s l s' hs hl hstep => hs.step hl hstep
  exact (run_invariant hpreserved (initial_tombstoneOrder row tombstone clock) hguard hrun).row

def deleteMeta (d now : ℕ) : List (LegacyLabel Unit) :=
  [.startDelete d, .delete d (.clock now), .delete d .proceed, .delete d .proceed]

/-- A populate stamped after an invalidation, and a second one stamped before it
that finds its tombstone. -/
def orderedPopulates : List (LegacyLabel Unit) :=
  [.getMetaWithVersion 1] ++ deleteMeta 0 2 ++
    [.getMetaWithVersion 3, .startPut 0 () 3, .put 0 .proceed, .put 0 .proceed,
      .startPut 1 () 1, .put 1 .proceed]

theorem visible_row_newer_than_completed_delete_ordered :
    ∃ w, run step (initial none none 0) orderedPopulates = some w ∧
      w.row = some ⟨(), 3⟩ ∧ w.completedAt 0 = some 2 ∧
      ∀ x d ts, w.row = some x → w.completedAt d = some ts → ts < x.token := by
  have hends : ∃ w, run step (initial none none 0) orderedPopulates = some w ∧
      w.row = some ⟨(), 3⟩ ∧ w.completedAt 0 = some 2 := exists_run_of_any (by decide +kernel)
  obtain ⟨w, hrun, hrow, hdelete⟩ := hends
  exact ⟨w, hrun, hrow, hdelete,
    visible_row_newer_than_completed_delete (by decide +kernel) hrun⟩

/-- The invalidation runs between the populate's check and its write. -/
def racingPopulate : List (LegacyLabel Unit) :=
  [.getMetaWithVersion 1, .startPut 0 () 1, .put 0 .proceed] ++ deleteMeta 0 2 ++
    [.put 0 .proceed]

/-- The row stamped before the invalidation is visible once both calls have
finished. -/
theorem populate_resurrects_deleted_row :
    ∃ w, run step (initial none none 0) racingPopulate = some w ∧
      w.puts 0 = some ⟨(), 1, .finished true⟩ ∧ w.deletes 0 = some (.finished 2) ∧
      w.row = some ⟨(), 1⟩ :=
  exists_run_of_any (by decide +kernel)

/-- The second invalidation's tombstone, stored late, hides the first one's: the
populate's check passes though nothing completes between it and the write. -/
example : ∃ w, run step (initial none none 0)
    ([.startDelete 1, .delete 1 (.clock 1), .getMetaWithVersion 2] ++ deleteMeta 0 3 ++
      [.delete 1 .proceed, .delete 1 .proceed, .startPut 0 () 2, .put 0 .proceed,
        .put 0 .proceed]) = some w ∧
      w.row = some ⟨(), 2⟩ ∧ w.completedAt 0 = some 3 ∧ w.completedAt 1 = some 1 :=
  exists_run_of_any (by decide +kernel)

end LegacyWorld
end TagGateway.Cache
