import TagGateway.Foundation.Machine

/-!
# The service's background work and its shutdown

Detached work (cache writers, prefetches, re-tiers) is admitted by `begin` and
joined by `stop`. The mutex makes admission and the sealing of admission one step
each; the wait group is its counter. Every caller of `stop` seals, the first one
joins and closes `stopped`, and all of them wait for that channel.
-/
namespace TagGateway.Proxy

open TagGateway.Foundation

inductive TaskPlace
  | running
  | done
  deriving DecidableEq, Repr

inductive WorkersStop
  /-- The first caller, in `join`. -/
  | joining
  /-- The first caller, with the wait group at zero, before it closes `stopped`. -/
  | joined
  | waiting
  | returned
  deriving DecidableEq, Repr

/-- `serviceWorkers`, with the goroutines that use it. `tasks` are the admitted
ones; `stopped` is how often that channel has been closed (a second time panics). -/
structure ServiceWorkers where
  stopping : Bool
  wg : ℕ
  stopped : ℕ
  tasks : List TaskPlace
  stops : List WorkersStop
  deriving DecidableEq, Repr

def newServiceWorkers : ServiceWorkers := ⟨false, 0, 0, [], []⟩

inductive WorkersLabel
  | begin
  | done (i : ℕ)
  | stop
  | stopper (j : ℕ)
  deriving DecidableEq, Repr

namespace ServiceWorkers

/-- `begin` under its mutex. A caller that is turned away leaves no trace. -/
def begin (w : ServiceWorkers) : ServiceWorkers :=
  if w.stopping then w
  else { w with wg := w.wg + 1, tasks := w.tasks ++ [.running] }

def stop (w : ServiceWorkers) : ServiceWorkers :=
  { w with stopping := true, stops := w.stops ++ [if w.stopping then .waiting else .joining] }

def step (w : ServiceWorkers) : WorkersLabel → Option ServiceWorkers
  | .begin => some w.begin
  | .done i =>
    match w.tasks[i]? with
    | some .running => some { w with wg := w.wg - 1, tasks := w.tasks.set i .done }
    | _ => none
  | .stop => some w.stop
  | .stopper j =>
    match w.stops[j]? with
    | some .joining => if w.wg = 0 then some { w with stops := w.stops.set j .joined } else none
    | some .joined =>
      some { w with stopped := w.stopped + 1, stops := w.stops.set j .waiting }
    | some .waiting =>
      if 0 < w.stopped then some { w with stops := w.stops.set j .returned } else none
    | _ => none

def active (w : ServiceWorkers) : ℕ := w.tasks.countP (· == .running)

end ServiceWorkers

/-- The caller that joins, while it has not closed `stopped`. -/
def WorkersStop.joins : WorkersStop → Bool
  | .joining | .joined => true
  | _ => false

namespace ServiceWorkers

structure Joins (w : ServiceWorkers) : Prop where
  wg : w.wg = w.active
  -- the caller that sealed admission closes `stopped`, and nobody else does
  once : w.stopped + w.stops.countP WorkersStop.joins = w.stopping.toNat
  drained : 0 < w.stopped ∨ .joined ∈ w.stops → w.active = 0
  returned : .returned ∈ w.stops → 0 < w.stopped

theorem joins_new : Joins newServiceWorkers :=
  ⟨rfl, rfl, fun _ => rfl, by simp [newServiceWorkers]⟩

variable {w w' : ServiceWorkers}

theorem Joins.not_drained (h : Joins w) (hopen : w.stopping = false) :
    ¬ (0 < w.stopped ∨ .joined ∈ w.stops) := by
  have honce := h.once
  rw [hopen, Bool.toNat_false] at honce
  rintro (hclosed | hjoined)
  · omega
  · have : 0 < w.stops.countP WorkersStop.joins :=
      List.countP_pos_iff.mpr ⟨_, hjoined, rfl⟩
    omega

theorem Joins.begin (h : Joins w) : Joins w.begin := by
  unfold ServiceWorkers.begin
  split_ifs with hstop
  · exact h
  · have hopen := h.not_drained (Bool.not_eq_true _ ▸ hstop)
    constructor
    · change w.wg + 1 = (w.tasks ++ [TaskPlace.running]).countP (· == .running)
      rw [countP_joined, h.wg]
      rfl
    · exact h.once
    · intro hdrained
      exact absurd hdrained hopen
    · exact h.returned

theorem Joins.done {i : ℕ} (h : Joins w) (hi : w.tasks[i]? = some .running) :
    Joins { w with wg := w.wg - 1, tasks := w.tasks.set i .done } := by
  have hcount := countP_moved (q := TaskPlace.done) (· == .running) hi
  have hwg := h.wg
  have hdrained := h.drained
  unfold active at hwg hdrained
  simp only [beq_self_eq_true, Bool.toNat_true, show (TaskPlace.done == .running) = false from rfl,
    Bool.toNat_false] at hcount
  constructor
  · change w.wg - 1 = (w.tasks.set i TaskPlace.done).countP (· == .running)
    omega
  · exact h.once
  · intro hclosed
    have := hdrained hclosed
    change (w.tasks.set i TaskPlace.done).countP (· == .running) = 0
    omega
  · exact h.returned

theorem Joins.stop (h : Joins w) : Joins w.stop := by
  have honce := h.once
  constructor
  · exact h.wg
  · change w.stopped + (w.stops ++ [_]).countP WorkersStop.joins = 1
    rw [countP_joined]
    cases hstop : w.stopping
    · simp_all [WorkersStop.joins]
    · simp_all [WorkersStop.joins]
  · intro hdrained
    apply h.drained
    apply hdrained.imp_right
    intro hmem
    rcases List.mem_append.mp hmem with hmem | hmem
    · exact hmem
    · cases hstop : w.stopping <;> simp [hstop] at hmem
  · intro hmem
    apply h.returned
    rcases List.mem_append.mp hmem with hmem | hmem
    · exact hmem
    · cases hstop : w.stopping <;> simp [hstop] at hmem

theorem Joins.stopper {j : ℕ} (h : Joins w) (hstep : w.step (.stopper j) = some w') : Joins w' := by
  have honce := h.once
  simp only [step] at hstep
  split at hstep
  · rename_i hj
    split_ifs at hstep with hzero
    obtain rfl := Option.some.inj hstep
    have hcount := countP_moved (q := WorkersStop.joined) WorkersStop.joins hj
    simp only [WorkersStop.joins, Bool.toNat_true] at hcount
    constructor
    · exact h.wg
    · change w.stopped + (w.stops.set j .joined).countP WorkersStop.joins = w.stopping.toNat
      omega
    · intro _
      exact h.wg ▸ hzero
    · intro hmem
      apply h.returned
      simpa using List.mem_or_eq_of_mem_set hmem
  · rename_i hj
    obtain rfl := Option.some.inj hstep
    have hcount := countP_moved (q := WorkersStop.waiting) WorkersStop.joins hj
    simp only [WorkersStop.joins, Bool.toNat_true, Bool.toNat_false] at hcount
    constructor
    · exact h.wg
    · change w.stopped + 1 + (w.stops.set j .waiting).countP WorkersStop.joins = w.stopping.toNat
      omega
    · intro _
      exact h.drained (.inr (List.mem_of_getElem? hj))
    · intro _
      exact Nat.succ_pos _
  · rename_i hj
    split_ifs at hstep with hclosed
    obtain rfl := Option.some.inj hstep
    have hcount := countP_moved (q := WorkersStop.returned) WorkersStop.joins hj
    simp only [WorkersStop.joins, Bool.toNat_false] at hcount
    constructor
    · exact h.wg
    · change w.stopped + (w.stops.set j .returned).countP WorkersStop.joins = w.stopping.toNat
      omega
    · intro _
      exact h.drained (.inl hclosed)
    · intro _
      exact hclosed
  · exact absurd hstep (by simp)

theorem Joins.step {l : WorkersLabel} (h : Joins w) (hstep : w.step l = some w') : Joins w' := by
  cases l with
  | begin => exact Option.some.inj hstep ▸ h.begin
  | done i =>
    simp only [ServiceWorkers.step] at hstep
    split at hstep
    · rename_i hi
      exact Option.some.inj hstep ▸ h.done hi
    · exact absurd hstep (by simp)
  | stop => exact Option.some.inj hstep ▸ h.stop
  | stopper j => exact h.stopper hstep

theorem Joins.not_running (h : Joins w) (hmem : .returned ∈ w.stops) : .running ∉ w.tasks := by
  intro hrunning
  have hzero := h.drained (.inl (h.returned hmem))
  exact List.countP_eq_zero.mp hzero _ hrunning rfl

/-- A caller that has returned stays so, and then nothing is admitted. -/
theorem Joins.returned_step {l : WorkersLabel} (h : Joins w) (hmem : .returned ∈ w.stops)
    (hstep : w.step l = some w') : .returned ∈ w'.stops ∧ w'.tasks.length = w.tasks.length := by
  have hstop : w.stopping = true := by
    by_contra hopen
    exact h.not_drained (Bool.not_eq_true _ ▸ hopen) (.inl (h.returned hmem))
  cases l with
  | begin =>
    obtain rfl := Option.some.inj hstep
    rw [ServiceWorkers.begin, if_pos hstop]
    exact ⟨hmem, rfl⟩
  | done i =>
    simp only [ServiceWorkers.step] at hstep
    split at hstep
    · obtain rfl := Option.some.inj hstep
      exact ⟨hmem, List.length_set⟩
    · exact absurd hstep (by simp)
  | stop =>
    obtain rfl := Option.some.inj hstep
    exact ⟨List.mem_append_left _ hmem, rfl⟩
  | stopper j =>
    simp only [ServiceWorkers.step] at hstep
    split at hstep
    · rename_i hj
      split_ifs at hstep
      obtain rfl := Option.some.inj hstep
      exact ⟨mem_moved hmem hj (by simp), rfl⟩
    · rename_i hj
      obtain rfl := Option.some.inj hstep
      exact ⟨mem_moved hmem hj (by simp), rfl⟩
    · rename_i hj
      split_ifs at hstep
      obtain rfl := Option.some.inj hstep
      exact ⟨mem_moved hmem hj (by simp), rfl⟩
    · exact absurd hstep (by simp)

end ServiceWorkers

end TagGateway.Proxy
