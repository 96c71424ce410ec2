import TagGateway.Foundation.Machine
import TagGateway.Foundation.Word

/-!
# The byte budget

Populates and staging buffers share one budget of bytes. A read-miss populate and a staging
buffer take what they need at once or not at all, and leave room for the warm-on-write
populates that wait; those register their demand, park on a condition variable and look
again when bytes are released. Every operation runs under the lock of the budget; its
numbers are words.
-/
namespace TagGateway.Proxy

open Foundation

structure ByteBudget where
  total : ℤ
  remaining : ℤ
  pendingWarm : ℤ := 0
  reserveCap : ℤ
  stagingInUse : ℤ := 0
  stagingCap : ℤ
deriving DecidableEq

namespace ByteBudget

variable (n : ℤ) (b : ByteBudget)

def reserve : ℤ := if b.pendingWarm > b.reserveCap then b.reserveCap else b.pendingWarm

def take : ByteBudget := { b with remaining := wrap64 (b.remaining - n) }

def registerWarm : ByteBudget := { b with pendingWarm := wrap64 (b.pendingWarm + n) }

def unregisterWarm : ByteBudget := { b with pendingWarm := wrap64 (b.pendingWarm - n) }

def tryAcquireReadMiss : Bool × ByteBudget :=
  if wrap64 (b.remaining - n) < b.reserve then (false, b) else (true, b.take n)

def tryAcquireWarm : Bool × ByteBudget :=
  if n > b.total then (false, b)
  else if (b.registerWarm n).remaining < n then (false, (b.registerWarm n).unregisterWarm n)
  else (true, ((b.registerWarm n).take n).unregisterWarm n)

def tryAcquireStaging : Bool × ByteBudget :=
  if wrap64 (b.stagingInUse + n) > b.stagingCap then (false, b)
  else if wrap64 (b.remaining - n) < b.reserve then (false, b)
  else (true, { b.take n with stagingInUse := wrap64 (b.stagingInUse + n) })

def release : ByteBudget := { b with remaining := wrap64 (b.remaining + n) }

def releaseStaging : ByteBudget :=
  { b.release n with stagingInUse := wrap64 (b.stagingInUse - n) }

variable {b}

theorem reserve_eq : b.reserve = min b.pendingWarm b.reserveCap := by
  unfold reserve
  split <;> omega

end ByteBudget

/-- An `acquireWarm` that is parked. A broadcast has reached it if it is woken. -/
structure Waiter where
  weight : ℤ
  woken : Bool
deriving DecidableEq

structure Holding where
  weight : ℤ
  staging : Bool
deriving DecidableEq

structure BudgetWorld where
  budget : ByteBudget
  held : List Holding := []
  waiting : List Waiter := []
deriving DecidableEq

inductive BudgetLabel where
  | readMiss (n : ℤ)
  | warm (n : ℤ)
  | staging (n : ℤ)
  /-- `acquireWarm` is called; its context may be done already. -/
  | acquireWarm (n : ℤ) (canceled : Bool)
  /-- A woken waiter has the lock again. -/
  | resume (i : ℕ) (canceled : Bool)
  /-- The context of a waiter ends, and its hook broadcasts. -/
  | cancel
  | release (i : ℕ)
deriving DecidableEq

namespace BudgetWorld

variable (w : BudgetWorld)

def settle (n : ℤ) (staging : Bool) (outcome : Bool × ByteBudget) : BudgetWorld :=
  if outcome.1 then { w with budget := outcome.2, held := ⟨n, staging⟩ :: w.held }
  else { w with budget := outcome.2 }

/-- The loop of `acquireWarm`, for a demand that is registered. -/
def awaitWarm (n : ℤ) (canceled : Bool) : BudgetWorld :=
  if w.budget.remaining < n then
    if canceled then { w with budget := w.budget.unregisterWarm n }
    else { w with waiting := ⟨n, false⟩ :: w.waiting }
  else { w with
    budget := (w.budget.take n).unregisterWarm n
    held := ⟨n, false⟩ :: w.held }

def broadcast : BudgetWorld := { w with waiting := w.waiting.map fun x => { x with woken := true } }

def IsWeight (n : ℤ) : Prop := 0 ≤ n ∧ n < 9223372036854775808

instance (n : ℤ) : Decidable (IsWeight n) := inferInstanceAs (Decidable (_ ∧ _))

def step (w : BudgetWorld) : BudgetLabel → Option BudgetWorld
  | .readMiss n =>
    if IsWeight n then some (w.settle n false (w.budget.tryAcquireReadMiss n)) else none
  | .warm n => if IsWeight n then some (w.settle n false (w.budget.tryAcquireWarm n)) else none
  | .staging n => if IsWeight n then some (w.settle n true (w.budget.tryAcquireStaging n)) else none
  | .acquireWarm n canceled =>
    if IsWeight n then
      if n > w.budget.total then some w
      else some ({ w with budget := w.budget.registerWarm n }.awaitWarm n canceled)
    else none
  | .resume i canceled =>
    match w.waiting[i]? with
    | some ⟨n, true⟩ => some ({ w with waiting := w.waiting.eraseIdx i }.awaitWarm n canceled)
    | _ => none
  | .cancel => some w.broadcast
  | .release i => w.held[i]?.map fun h =>
      { w with
        budget := if h.staging then w.budget.releaseStaging h.weight else w.budget.release h.weight
        held := w.held.eraseIdx i }.broadcast

end BudgetWorld

def weigh {α : Type*} (weight : α → ℤ) (l : List α) : ℤ := l.foldr (fun a sum => weight a + sum) 0

section

variable {α : Type*} {weight weight' : α → ℤ} {l : List α}

theorem weigh_cons (a : α) : weigh weight (a :: l) = weight a + weigh weight l := rfl

theorem weigh_eraseIdx {i : ℕ} {a : α} (h : l[i]? = some a) :
    weigh weight (l.eraseIdx i) = weigh weight l - weight a := by
  induction l generalizing i with
  | nil => simp at h
  | cons c l ih =>
    cases i with
    | zero =>
      obtain rfl : c = a := by simpa using h
      rw [List.eraseIdx_cons_zero, weigh_cons]
      omega
    | succ i =>
      have hrest := ih (i := i) (by simpa using h)
      rw [List.eraseIdx_cons_succ, weigh_cons, weigh_cons, hrest]
      omega

theorem weigh_le_weigh (h : ∀ a ∈ l, weight a ≤ weight' a) : weigh weight l ≤ weigh weight' l := by
  induction l with
  | nil => exact le_refl _
  | cons a l ih =>
    have ha := h a List.mem_cons_self
    have hrest := ih fun c hc => h c (List.mem_cons_of_mem a hc)
    rw [weigh_cons, weigh_cons]
    omega

theorem weigh_nonneg (h : ∀ a ∈ l, 0 ≤ weight a) : 0 ≤ weigh weight l := by
  induction l with
  | nil => exact le_refl _
  | cons a l ih =>
    have ha := h a List.mem_cons_self
    have hrest := ih fun c hc => h c (List.mem_cons_of_mem a hc)
    rw [weigh_cons]
    omega

theorem weigh_map {β : Type*} (f : β → α) (l : List β) :
    weigh weight (l.map f) = weigh (fun b => weight (f b)) l := by
  induction l with
  | nil => rfl
  | cons b l ih => rw [List.map_cons, weigh_cons, weigh_cons, ih]

end

namespace BudgetWorld

variable (w : BudgetWorld)

def heldWeight : ℤ := weigh Holding.weight w.held

def stagingWeight : ℤ := weigh (fun h => if h.staging then h.weight else 0) w.held

def waitingWeight : ℤ := weigh Waiter.weight w.waiting

structure Accounts : Prop where
  total : w.budget.total < 9223372036854775808
  reserveCap : 0 ≤ w.budget.reserveCap
  stagingCap : w.budget.stagingCap ≤ w.budget.total
  account : w.budget.remaining + w.heldWeight = w.budget.total
  remaining : 0 ≤ w.budget.remaining
  held : ∀ h ∈ w.held, 0 ≤ h.weight
  stagingInUse : w.budget.stagingInUse = w.stagingWeight
  staging : w.stagingWeight ≤ w.budget.stagingCap

/-- The invariant of the budget. `extra` is a demand that is registered but not parked, while
`acquireWarm` has the lock. -/
structure Balanced (extra : ℤ) : Prop extends w.Accounts where
  waiting : ∀ x ∈ w.waiting, 0 ≤ x.weight
  demand : 0 ≤ extra
  pendingWarm : w.budget.pendingWarm = w.waitingWeight + extra
  pending : w.waitingWeight + extra < 9223372036854775808
  woken : ∀ x ∈ w.waiting, x.weight ≤ w.budget.remaining → x.woken = true

variable {w} {n extra : ℤ}

namespace Balanced

theorem stagingWeight_le (h : w.Balanced extra) :
    0 ≤ w.stagingWeight ∧ w.stagingWeight ≤ w.heldWeight := by
  constructor
  · apply weigh_nonneg
    intro a ha
    have hweight := h.held a ha
    split <;> omega
  · apply weigh_le_weigh
    intro a ha
    have hweight := h.held a ha
    split <;> omega

theorem waitingWeight_nonneg (h : w.Balanced extra) : 0 ≤ w.waitingWeight := weigh_nonneg h.waiting

theorem reserve_nonneg (h : w.Balanced extra) : 0 ≤ w.budget.reserve := by
  have hwaiting := h.waitingWeight_nonneg
  have hcap := h.reserveCap
  have hpending := h.pendingWarm
  have hextra := h.demand
  unfold ByteBudget.reserve
  split <;> omega

theorem remaining_le (h : w.Balanced extra) : w.budget.remaining ≤ w.budget.total := by
  have hstaging := h.stagingWeight_le
  have haccount := h.account
  omega

theorem wrap_remaining_sub (h : w.Balanced extra) (hn : IsWeight n) :
    wrap64 (w.budget.remaining - n) = w.budget.remaining - n := by
  have hremaining := h.remaining
  have hle := h.remaining_le
  have htotal := h.total
  unfold IsWeight at hn
  exact wrap64_of_fits (by omega) (by omega)

theorem register (h : w.Balanced 0) (hn : 0 ≤ n)
    (hfits : w.waitingWeight + n < 9223372036854775808) :
    Balanced { w with budget := w.budget.registerWarm n } n := by
  have hwaiting := h.waitingWeight_nonneg
  have hpending := h.pendingWarm
  have hwrap : wrap64 (w.budget.pendingWarm + n) = w.budget.pendingWarm + n :=
    wrap64_of_fits (by omega) (by omega)
  refine ⟨{ h.toAccounts with }, h.waiting, hn, ?_, hfits, h.woken⟩
  change wrap64 (w.budget.pendingWarm + n) = w.waitingWeight + n
  omega

theorem unregister (h : w.Balanced n) :
    Balanced { w with budget := w.budget.unregisterWarm n } 0 := by
  have hwaiting := h.waitingWeight_nonneg
  have hpending := h.pendingWarm
  have hfits := h.pending
  have hn := h.demand
  have hwrap : wrap64 (w.budget.pendingWarm - n) = w.waitingWeight := by
    rw [hpending, Int.add_sub_cancel]
    exact wrap64_of_fits (by omega) (by omega)
  refine ⟨{ h.toAccounts with }, h.waiting, le_refl 0, hwrap.trans (Int.add_zero _).symm, ?_, h.woken⟩
  change w.waitingWeight + 0 < 9223372036854775808
  omega

theorem hold (h : w.Balanced extra) (hn : 0 ≤ n) (hroom : n ≤ w.budget.remaining)
    {b : ByteBudget} {staging : Bool}
    (hstaging : staging = true → w.stagingWeight + n ≤ w.budget.stagingCap)
    (hb : b = { w.budget with
      remaining := w.budget.remaining - n
      stagingInUse := w.budget.stagingInUse + if staging then n else 0 }) :
    Balanced { w with budget := b, held := ⟨n, staging⟩ :: w.held } extra := by
  subst hb
  have haccount := h.account
  have hinUse := h.stagingInUse
  have hcap := h.staging
  refine ⟨?_, h.waiting, h.demand, h.pendingWarm, h.pending, fun x hx hfits => ?_⟩
  · refine ⟨h.total, h.reserveCap, h.stagingCap, ?_, Int.sub_nonneg_of_le hroom, ?_, ?_, ?_⟩
    · simp only [heldWeight, weigh_cons] at haccount ⊢
      omega
    · exact List.forall_mem_cons.mpr ⟨hn, h.held⟩
    · simp only [stagingWeight, weigh_cons] at hinUse ⊢
      omega
    · simp only [stagingWeight, weigh_cons] at hcap hstaging ⊢
      cases staging with
      | true =>
        have hfits := hstaging rfl
        simp only [if_true]
        omega
      | false => simpa using hcap
  · apply h.woken x hx
    simp only at hfits
    omega

theorem park (h : w.Balanced n) (hlarge : w.budget.remaining < n) :
    Balanced { w with waiting := ⟨n, false⟩ :: w.waiting } 0 := by
  have hpending := h.pendingWarm
  have hfits := h.pending
  refine ⟨{ h.toAccounts with }, List.forall_mem_cons.mpr ⟨h.demand, h.waiting⟩, le_refl 0, ?_, ?_,
    List.forall_mem_cons.mpr ⟨fun hroom => ?_, h.woken⟩⟩
  · simp only [waitingWeight, weigh_cons] at hpending ⊢
    omega
  · simp only [waitingWeight, weigh_cons] at hfits ⊢
    omega
  · simp only at hroom
    omega

theorem wake (h : w.Balanced 0) {i : ℕ} {x : Waiter} (hx : w.waiting[i]? = some x) :
    Balanced { w with waiting := w.waiting.eraseIdx i } x.weight := by
  have hpending := h.pendingWarm
  have hfits := h.pending
  have hweight : weigh Waiter.weight (w.waiting.eraseIdx i) = w.waitingWeight - x.weight :=
    weigh_eraseIdx hx
  refine ⟨{ h.toAccounts with }, fun y hy => h.waiting y (List.mem_of_mem_eraseIdx hy),
    h.waiting x (List.mem_of_getElem? hx), ?_, ?_, fun y hy => h.woken y (List.mem_of_mem_eraseIdx hy)⟩
  · simp only [waitingWeight] at hpending hweight ⊢
    omega
  · simp only [waitingWeight] at hfits hweight ⊢
    omega

end Balanced

/-- Everyone who waits is woken, so nobody has to be looked at. -/
theorem Accounts.broadcast (h : w.Accounts) (hwaiting : ∀ x ∈ w.waiting, 0 ≤ x.weight)
    (hpending : w.budget.pendingWarm = w.waitingWeight + 0)
    (hfits : w.waitingWeight + 0 < 9223372036854775808) : w.broadcast.Balanced 0 := by
  have hweight : w.broadcast.waitingWeight = w.waitingWeight := weigh_map _ _
  refine ⟨{ h with }, ?_, le_refl 0, hweight ▸ hpending, hweight ▸ hfits, ?_⟩
  · exact List.forall_mem_map.mpr hwaiting
  · exact List.forall_mem_map.mpr fun _ _ _ => rfl

namespace Balanced

theorem release (h : w.Balanced 0) {i : ℕ} {a : Holding} (ha : w.held[i]? = some a) :
    Balanced { w with
      budget := if a.staging then w.budget.releaseStaging a.weight else w.budget.release a.weight
      held := w.held.eraseIdx i }.broadcast 0 := by
  have hmem := List.mem_of_getElem? ha
  have haccount := h.account
  have hremaining := h.remaining
  have hle := h.stagingWeight_le
  have hinUse := h.stagingInUse
  have hcap := h.staging
  have htotal := h.total
  have hstagingCap := h.stagingCap
  have hweight := h.held a hmem
  have hheld : weigh Holding.weight (w.held.eraseIdx i) = w.heldWeight - a.weight :=
    weigh_eraseIdx ha
  have hstaging : weigh (fun h => if h.staging then h.weight else 0) (w.held.eraseIdx i) =
      w.stagingWeight - if a.staging then a.weight else 0 := weigh_eraseIdx ha
  have hrest : 0 ≤ weigh Holding.weight (w.held.eraseIdx i) :=
    weigh_nonneg fun c hc => h.held c (List.mem_of_mem_eraseIdx hc)
  have hrestStaging : 0 ≤ weigh (fun h => if h.staging then h.weight else 0) (w.held.eraseIdx i) := by
    apply weigh_nonneg
    intro c hc
    have hc := h.held c (List.mem_of_mem_eraseIdx hc)
    split <;> omega
  have hwrap : wrap64 (w.budget.remaining + a.weight) = w.budget.remaining + a.weight :=
    wrap64_of_fits (by omega) (by omega)
  have hfree : ∀ b : ByteBudget, b.total = w.budget.total → b.reserveCap = w.budget.reserveCap →
      b.stagingCap = w.budget.stagingCap → b.pendingWarm = w.budget.pendingWarm →
      b.remaining = w.budget.remaining + a.weight →
      b.stagingInUse = w.budget.stagingInUse - (if a.staging then a.weight else 0) →
      Balanced { w with budget := b, held := w.held.eraseIdx i }.broadcast 0 := by
    intro b hbtotal hbreserve hbcap hbpending hbremaining hbinUse
    refine Accounts.broadcast ?_ h.waiting (hbpending.trans h.pendingWarm) h.pending
    constructor
    case held => exact fun c hc => h.held c (List.mem_of_mem_eraseIdx hc)
    case reserveCap => exact hbreserve ▸ h.reserveCap
    all_goals
      simp only [heldWeight, stagingWeight] at *
      omega
  cases hkind : a.staging with
  | true =>
    have hwrapStaging : wrap64 (w.budget.stagingInUse - a.weight) =
        w.budget.stagingInUse - a.weight := by
      simp only [hkind, if_true] at hstaging
      exact wrap64_of_fits (by omega) (by omega)
    apply hfree <;> simp [ByteBudget.releaseStaging, ByteBudget.release, hwrap, hwrapStaging, hkind]
  | false => apply hfree <;> simp [ByteBudget.release, hwrap, hkind]

/-- The loop of `acquireWarm` keeps the accounts, whether it takes the bytes, gives up or
parks. -/
theorem awaitWarm (h : w.Balanced n) (hn : IsWeight n) (canceled : Bool) :
    (w.awaitWarm n canceled).Balanced 0 := by
  unfold BudgetWorld.awaitWarm
  split
  next hlarge =>
    cases canceled with
    | true => exact h.unregister
    | false => exact h.park hlarge
  next hroom =>
    have htaken : Balanced { w with
        budget := w.budget.take n, held := ⟨n, false⟩ :: w.held } n := by
      apply h.hold hn.1 (by omega)
      · exact fun hno => Bool.noConfusion hno
      · simp [ByteBudget.take, h.wrap_remaining_sub hn]
    exact htaken.unregister

theorem readMiss (h : w.Balanced 0) (hn : IsWeight n) :
    (w.settle n false (w.budget.tryAcquireReadMiss n)).Balanced 0 := by
  have hreserve := h.reserve_nonneg
  unfold ByteBudget.tryAcquireReadMiss
  rw [h.wrap_remaining_sub hn]
  split
  · exact h
  · apply h.hold hn.1 (by omega)
    · exact fun hno => Bool.noConfusion hno
    · simp [ByteBudget.take, h.wrap_remaining_sub hn]

theorem unregister_register (h : w.Balanced 0) (n m : ℤ) :
    ({ w.budget.registerWarm n with remaining := m }).unregisterWarm n =
      { w.budget with remaining := m } := by
  have hnonneg := h.waitingWeight_nonneg
  have hpending := h.pending
  have heq := h.pendingWarm
  have hwrap : wrap64 (wrap64 (w.budget.pendingWarm + n) - n) = w.budget.pendingWarm := by
    have hsub : wrap64 (wrap64 (w.budget.pendingWarm + n) - n) =
        wrap64 (w.budget.pendingWarm + n - n) := Int.bmod_sub_bmod
    rw [hsub, Int.add_sub_cancel]
    exact wrap64_of_fits (by omega) (by omega)
  simp only [ByteBudget.unregisterWarm, ByteBudget.registerWarm, hwrap]

theorem tryAcquireWarm_eq (h : w.Balanced 0) (hn : IsWeight n) :
    w.budget.tryAcquireWarm n = if n > w.budget.total ∨ w.budget.remaining < n then (false, w.budget)
      else (true, { w.budget with remaining := w.budget.remaining - n }) := by
  have hsame := h.unregister_register n w.budget.remaining
  have htaken := h.unregister_register n (w.budget.remaining - n)
  unfold ByteBudget.tryAcquireWarm
  by_cases htotal : n > w.budget.total
  · rw [if_pos htotal, if_pos (.inl htotal)]
  · rw [if_neg htotal]
    by_cases hroom : w.budget.remaining < n
    · rw [if_pos (show (w.budget.registerWarm n).remaining < n from hroom), if_pos (.inr hroom)]
      exact congrArg (Prod.mk false) hsame
    · rw [if_neg (show ¬ (w.budget.registerWarm n).remaining < n from hroom),
        if_neg (not_or_intro htotal hroom), ← htaken]
      simp only [ByteBudget.take, ByteBudget.registerWarm, h.wrap_remaining_sub hn]

theorem warm (h : w.Balanced 0) (hn : IsWeight n) :
    (w.settle n false (w.budget.tryAcquireWarm n)).Balanced 0 := by
  rw [h.tryAcquireWarm_eq hn]
  split
  · exact h
  next hroom =>
    apply h.hold hn.1 (by omega)
    · exact fun hno => Bool.noConfusion hno
    · simp

/-- A sum too large for a word is refused by the second check: more is asked for than is
left. -/
theorem tryAcquireStaging_eq (h : w.Balanced 0) (hn : IsWeight n) :
    w.budget.tryAcquireStaging n =
      if w.budget.stagingInUse + n > w.budget.stagingCap ∨
          w.budget.remaining - n < w.budget.reserve then (false, w.budget)
      else (true, { w.budget with
        remaining := w.budget.remaining - n
        stagingInUse := w.budget.stagingInUse + n }) := by
  have hreserve := h.reserve_nonneg
  have hle := h.stagingWeight_le
  have haccount := h.account
  have hinUse := h.stagingInUse
  have htotal := h.total
  have hcap := h.stagingCap
  have hremaining := h.remaining
  unfold ByteBudget.tryAcquireStaging
  rw [h.wrap_remaining_sub hn]
  by_cases hfits : w.budget.stagingInUse + n < 9223372036854775808
  · have hwrap : wrap64 (w.budget.stagingInUse + n) = w.budget.stagingInUse + n :=
      wrap64_of_fits (by have := hn.1; omega) hfits
    rw [hwrap]
    by_cases hstaging : w.budget.stagingInUse + n > w.budget.stagingCap
    · rw [if_pos hstaging, if_pos (.inl hstaging)]
    · rw [if_neg hstaging]
      by_cases hroom : w.budget.remaining - n < w.budget.reserve
      · rw [if_pos hroom, if_pos (.inr hroom)]
      · rw [if_neg hroom, if_neg (not_or_intro hstaging hroom)]
        simp only [ByteBudget.take, h.wrap_remaining_sub hn]
  · have hroom : w.budget.remaining - n < w.budget.reserve := by omega
    simp only [hroom, if_true, or_true, ite_self]

theorem stage (h : w.Balanced 0) (hn : IsWeight n) :
    (w.settle n true (w.budget.tryAcquireStaging n)).Balanced 0 := by
  have hreserve := h.reserve_nonneg
  have hinUse := h.stagingInUse
  rw [h.tryAcquireStaging_eq hn]
  split
  · exact h
  next hroom =>
    apply h.hold hn.1 (by omega)
    · intro _
      omega
    · simp

end Balanced

/-- The weights that wait at one time, with one that comes, fit in a word. -/
def DemandFits (w : BudgetWorld) : BudgetLabel → Prop
  | .acquireWarm n _ => w.waitingWeight + n < 9223372036854775808
  | _ => True

instance (w : BudgetWorld) : (l : BudgetLabel) → Decidable (w.DemandFits l)
  | .acquireWarm _ _ => inferInstanceAs (Decidable (_ < _))
  | .readMiss _ | .warm _ | .staging _ | .resume _ _ | .cancel | .release _ => .isTrue trivial

variable {w' : BudgetWorld}

theorem Balanced.step (h : w.Balanced 0) {l : BudgetLabel} (hfits : w.DemandFits l)
    (hstep : w.step l = some w') : w'.Balanced 0 := by
  cases l with
  | readMiss n =>
    simp only [BudgetWorld.step, Option.ite_none_right_eq_some, Option.some.injEq] at hstep
    exact hstep.2 ▸ h.readMiss hstep.1
  | warm n =>
    simp only [BudgetWorld.step, Option.ite_none_right_eq_some, Option.some.injEq] at hstep
    exact hstep.2 ▸ h.warm hstep.1
  | staging n =>
    simp only [BudgetWorld.step, Option.ite_none_right_eq_some, Option.some.injEq] at hstep
    exact hstep.2 ▸ h.stage hstep.1
  | acquireWarm n canceled =>
    simp only [BudgetWorld.step, Option.ite_none_right_eq_some] at hstep
    obtain ⟨hn, hstep⟩ := hstep
    split at hstep
    · obtain rfl := Option.some.inj hstep
      exact h
    · obtain rfl := Option.some.inj hstep
      exact (h.register hn.1 hfits).awaitWarm hn canceled
  | resume i canceled =>
    simp only [BudgetWorld.step] at hstep
    split at hstep
    next n hx =>
      obtain rfl := Option.some.inj hstep
      have hwoken := h.wake hx
      have hn : IsWeight n := by
        have hwaiting := hwoken.waitingWeight_nonneg
        have hpending := hwoken.pending
        exact ⟨hwoken.demand, by simp only at hpending; omega⟩
      exact hwoken.awaitWarm hn canceled
    next => cases hstep
  | cancel =>
    obtain rfl := Option.some.inj hstep
    exact h.toAccounts.broadcast h.waiting h.pendingWarm h.pending
  | release i =>
    obtain ⟨a, ha, rfl⟩ := Option.map_eq_some_iff.mp hstep
    exact h.release ha

def start (total reserveCap stagingCap : ℤ) : BudgetWorld where
  budget := { total := total, remaining := total, reserveCap := reserveCap, stagingCap := stagingCap }

theorem balanced_start {total reserveCap stagingCap : ℤ} (htotal : IsWeight total)
    (hreserve : 0 ≤ reserveCap ∧ reserveCap ≤ total) (hstaging : 0 ≤ stagingCap ∧ stagingCap ≤ total) :
    (start total reserveCap stagingCap).Balanced 0 := by
  have hzero : ∀ {α : Type} (weight : α → ℤ), weigh weight [] = 0 := fun _ => rfl
  unfold IsWeight at htotal
  constructor
  case toAccounts =>
    constructor
    all_goals simp [start, heldWeight, stagingWeight, hzero]
    all_goals omega
  all_goals simp [start, waitingWeight, hzero]

def SameCaps (w w' : BudgetWorld) : Prop :=
  w'.budget.total = w.budget.total ∧ w'.budget.reserveCap = w.budget.reserveCap ∧
    w'.budget.stagingCap = w.budget.stagingCap

theorem step_caps {l : BudgetLabel} (hstep : w.step l = some w') : SameCaps w w' := by
  have hawait : ∀ v n canceled, SameCaps w v → SameCaps w (awaitWarm v n canceled) := by
    intro v n canceled h
    unfold awaitWarm
    repeat' split
    all_goals exact h
  cases l with
  | readMiss n | warm n | staging n =>
    simp only [step, Option.ite_none_right_eq_some, Option.some.injEq] at hstep
    rw [← hstep.2]
    simp only [settle, ByteBudget.tryAcquireReadMiss, ByteBudget.tryAcquireWarm,
      ByteBudget.tryAcquireStaging]
    repeat' split
    all_goals exact ⟨rfl, rfl, rfl⟩
  | acquireWarm n canceled =>
    simp only [step, Option.ite_none_right_eq_some] at hstep
    obtain ⟨-, hstep⟩ := hstep
    split at hstep
    · obtain rfl := Option.some.inj hstep
      exact ⟨rfl, rfl, rfl⟩
    · obtain rfl := Option.some.inj hstep
      exact hawait _ _ _ ⟨rfl, rfl, rfl⟩
  | resume i canceled =>
    simp only [step] at hstep
    split at hstep
    · obtain rfl := Option.some.inj hstep
      exact hawait _ _ _ ⟨rfl, rfl, rfl⟩
    · cases hstep
  | cancel =>
    obtain rfl := Option.some.inj hstep
    exact ⟨rfl, rfl, rfl⟩
  | release i =>
    obtain ⟨a, -, rfl⟩ := Option.map_eq_some_iff.mp hstep
    simp only [broadcast, SameCaps]
    split <;> exact ⟨rfl, rfl, rfl⟩

/-- A read-miss or staging acquisition that takes bytes leaves room for those that wait. -/
theorem Balanced.leaves_reserve (h : w.Balanced 0)
    (hstep : w.step (.readMiss n) = some w' ∨ w.step (.staging n) = some w')
    (htaken : w'.held ≠ w.held) :
    min w'.budget.pendingWarm w'.budget.reserveCap ≤ w'.budget.remaining := by
  rcases hstep with hstep | hstep
  · simp only [BudgetWorld.step, Option.ite_none_right_eq_some, Option.some.injEq] at hstep
    obtain ⟨hn, rfl⟩ := hstep
    have hwrap := h.wrap_remaining_sub hn
    simp only [ByteBudget.tryAcquireReadMiss, hwrap] at htaken ⊢
    split at htaken
    · exact absurd rfl htaken
    next hroom =>
      rw [if_neg hroom]
      rw [ByteBudget.reserve_eq] at hroom
      simpa only [settle, ByteBudget.take, hwrap, if_true] using not_lt.mp hroom
  · simp only [BudgetWorld.step, Option.ite_none_right_eq_some, Option.some.injEq] at hstep
    obtain ⟨hn, rfl⟩ := hstep
    rw [h.tryAcquireStaging_eq hn] at htaken ⊢
    split at htaken
    · exact absurd rfl htaken
    next hroom =>
      rw [if_neg hroom]
      rw [ByteBudget.reserve_eq] at hroom
      simpa only [settle, if_true] using not_lt.mp (not_or.mp hroom).2

theorem Balanced.eq_of_failed (h : w.Balanced 0) {l : BudgetLabel} (hstep : w.step l = some w')
    (hlabel : (∃ n, l = .readMiss n) ∨ (∃ n, l = .warm n) ∨ (∃ n, l = .staging n) ∨
      ∃ n canceled, l = .acquireWarm n canceled)
    (hheld : w'.held = w.held) (hwaiting : w'.waiting = w.waiting) : w' = w := by
  have hgrown : ∀ a : Holding, a :: w.held ≠ w.held := fun a => List.cons_ne_self a w.held
  have hparked : ∀ x : Waiter, x :: w.waiting ≠ w.waiting := fun x => List.cons_ne_self x w.waiting
  rcases hlabel with ⟨n, rfl⟩ | ⟨n, rfl⟩ | ⟨n, rfl⟩ | ⟨n, canceled, rfl⟩
  · simp only [BudgetWorld.step, Option.ite_none_right_eq_some, Option.some.injEq] at hstep
    obtain ⟨-, rfl⟩ := hstep
    unfold ByteBudget.tryAcquireReadMiss at hheld ⊢
    split at hheld
    next hroom => rw [if_pos hroom]; rfl
    next => exact absurd hheld (hgrown _)
  · simp only [BudgetWorld.step, Option.ite_none_right_eq_some, Option.some.injEq] at hstep
    obtain ⟨hn, rfl⟩ := hstep
    rw [h.tryAcquireWarm_eq hn] at hheld ⊢
    split at hheld
    next hroom => rw [if_pos hroom]; rfl
    next => exact absurd hheld (hgrown _)
  · simp only [BudgetWorld.step, Option.ite_none_right_eq_some, Option.some.injEq] at hstep
    obtain ⟨hn, rfl⟩ := hstep
    rw [h.tryAcquireStaging_eq hn] at hheld ⊢
    split at hheld
    next hroom => rw [if_pos hroom]; rfl
    next => exact absurd hheld (hgrown _)
  · simp only [BudgetWorld.step, Option.ite_none_right_eq_some] at hstep
    obtain ⟨-, hstep⟩ := hstep
    split at hstep
    · exact (Option.some.inj hstep).symm
    · obtain rfl := Option.some.inj hstep
      unfold BudgetWorld.awaitWarm at hheld hwaiting ⊢
      split at hheld
      next hlarge =>
        rw [if_pos hlarge] at hwaiting ⊢
        cases canceled with
        | true =>
          have hsame := h.unregister_register n w.budget.remaining
          exact congrArg (fun b => ({ w with budget := b } : BudgetWorld)) hsame
        | false => exact absurd hwaiting (hparked _)
      next => exact absurd hheld (hgrown _)

theorem Balanced.resume_failed (h : w.Balanced 0) {i : ℕ} {canceled : Bool}
    (hstep : w.step (.resume i canceled) = some w') (hheld : w'.held = w.held) :
    w'.budget = { w.budget with pendingWarm := w'.waitingWeight } := by
  have hafter : w'.Balanced 0 := h.step (l := .resume i canceled) trivial hstep
  have hpending := hafter.pendingWarm
  simp only [BudgetWorld.step] at hstep
  split at hstep
  next n hx =>
    obtain rfl := Option.some.inj hstep
    unfold BudgetWorld.awaitWarm at hheld hpending ⊢
    split at hheld
    next hlarge =>
      rw [if_pos hlarge] at hpending ⊢
      cases canceled with
      | true =>
        simp only [if_true] at hpending ⊢
        rw [← Int.add_zero (waitingWeight _), ← hpending]
        rfl
      | false =>
        simp only [Bool.false_eq_true, if_false] at hpending ⊢
        rw [← Int.add_zero (waitingWeight _), ← hpending]
    next => exact absurd hheld (List.cons_ne_self _ _)
  next => cases hstep

/-- In every run in which the weights that wait at one time fit in a word: what is left and
what is held make up the total, nothing is overdrawn, staging buffers stay within their cap,
and the registered demand is that of the waiters. A read-miss or staging acquisition leaves
room for them, one that fails changes nothing, and a waiter whose demand could be met is
about to look again. -/
theorem byte_budget_kept {total reserveCap stagingCap : ℤ} (htotal : IsWeight total)
    (hreserve : 0 ≤ reserveCap ∧ reserveCap ≤ total) (hstaging : 0 ≤ stagingCap ∧ stagingCap ≤ total)
    {ls : List BudgetLabel} (hrun : run step (start total reserveCap stagingCap) ls = some w)
    (hfits : Along step DemandFits (start total reserveCap stagingCap) ls) :
    (w.budget.remaining + w.heldWeight = total ∧ 0 ≤ w.budget.remaining) ∧
      w.stagingWeight ≤ stagingCap ∧
      w.budget.pendingWarm = w.waitingWeight ∧
      (∀ n w', w.step (.readMiss n) = some w' ∨ w.step (.staging n) = some w' → w'.held ≠ w.held →
        min w'.budget.pendingWarm reserveCap ≤ w'.budget.remaining) ∧
      (∀ l w', w.step l = some w' → ((∃ n, l = .readMiss n) ∨ (∃ n, l = .warm n) ∨
        (∃ n, l = .staging n) ∨ ∃ n canceled, l = .acquireWarm n canceled) →
        w'.held = w.held → w'.waiting = w.waiting → w' = w) ∧
      (∀ i canceled w', w.step (.resume i canceled) = some w' → w'.held = w.held →
        w'.budget = { w.budget with pendingWarm := w'.waitingWeight }) ∧
      ∀ x ∈ w.waiting, x.weight ≤ w.budget.remaining → x.woken = true := by
  have hkeep : ∀ v l v', v.Balanced 0 ∧ SameCaps (start total reserveCap stagingCap) v →
      v.DemandFits l → v.step l = some v' →
      v'.Balanced 0 ∧ SameCaps (start total reserveCap stagingCap) v' := by
    intro v l v' hv hfits hstep
    obtain ⟨hcaps₁, hcaps₂, hcaps₃⟩ := step_caps hstep
    exact ⟨hv.1.step hfits hstep, hcaps₁.trans hv.2.1, hcaps₂.trans hv.2.2.1,
      hcaps₃.trans hv.2.2.2⟩
  have hstart : (start total reserveCap stagingCap).Balanced 0 ∧
      SameCaps (start total reserveCap stagingCap) (start total reserveCap stagingCap) :=
    ⟨balanced_start htotal hreserve hstaging, rfl, rfl, rfl⟩
  obtain ⟨h, hsame, hsameReserve, hsameStaging⟩ := run_invariant hkeep hstart hfits hrun
  have haccount : w.budget.remaining + w.heldWeight = total := h.account.trans hsame
  have hcap : w.stagingWeight ≤ stagingCap := h.staging.trans_eq hsameStaging
  have hpending : w.budget.pendingWarm = w.waitingWeight :=
    h.pendingWarm.trans (Int.add_zero _)
  refine ⟨⟨haccount, h.remaining⟩, hcap, hpending, fun n w' hstep htaken => ?_,
    fun l w' hstep hlabel => h.eq_of_failed hstep hlabel,
    fun i canceled w' hstep => h.resume_failed hstep, h.woken⟩
  have hleaves := h.leaves_reserve hstep htaken
  have hcaps : w'.budget.reserveCap = reserveCap := by
    rcases hstep with hstep | hstep
    · exact (step_caps hstep).2.1.trans hsameReserve
    · exact (step_caps hstep).2.1.trans hsameReserve
  rwa [hcaps] at hleaves

/-- A populate holds most of a small budget, a warm-on-write waits for it and is woken by the
release. -/
theorem byte_budget_kept_small :
    ∃ w, run step (start 10 5 5) [.readMiss 8, .acquireWarm 6 false, .staging 1, .release 0] =
        some w ∧ w.waiting = [⟨6, true⟩] ∧ w.budget.remaining = 10 ∧
      w.budget.pendingWarm = w.waitingWeight ∧
      ∀ x ∈ w.waiting, x.weight ≤ w.budget.remaining → x.woken = true := by
  have hrun : ∃ w, run step (start 10 5 5)
      [.readMiss 8, .acquireWarm 6 false, .staging 1, .release 0] = some w ∧
      w.waiting = [⟨6, true⟩] ∧ w.budget.remaining = 10 := exists_run_of_any (by decide +kernel)
  obtain ⟨w, hw, hwaiting, hremaining⟩ := hrun
  have hkept := byte_budget_kept (by decide) (by decide) (by decide) hw (by decide +kernel)
  exact ⟨w, hw, hwaiting, hremaining, hkept.2.2.1, hkept.2.2.2.2.2.2⟩

/-- Two waiters for all of the largest budget: the sum of their demands wraps around, nothing
is held back for them, and a read-miss populate overdraws the budget. -/
theorem pending_sum_overdraws :
    ∃ w, run step (start 9223372036854775807 9223372036854775807 0)
        [.readMiss 1, .acquireWarm 9223372036854775807 false,
          .acquireWarm 9223372036854775807 false, .readMiss 9223372036854775807] = some w ∧
      w.budget.pendingWarm = -2 ∧ w.budget.remaining = -1 :=
  exists_run_of_any (by decide +kernel)

end BudgetWorld

end TagGateway.Proxy
