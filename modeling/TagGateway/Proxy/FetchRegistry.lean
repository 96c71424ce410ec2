import TagGateway.Proxy.Coalescing

/-!
# The registry of running broadcasts

The manager keeps one broadcast per key. A caller that finds none, or one whose stream
has started, is the first caller: it registers a broadcast of its own and removes the key
when its handler returns. The removal goes by the key alone, so it takes the right
broadcast only while nobody has registered another one.
-/
namespace TagGateway.Proxy.Coalescing

open Foundation Broadcast

def Phase.early : Phase → Bool
  | .looking | .routed _ | .found _ => true
  | .created | .receiving _ _ | .finished _ => false

/-- Whether the fetch of request `i` still has a removal to make, if there is one. -/
def World.removes (w : World) (i : ℕ) : Option Bool := (w.streams i).map (·.registered)

/-- The registered broadcasts are those of the fetches that have a removal to make. -/
structure Registered (reqs : ℕ → ReadRequest) (w : World) : Prop where
  early : ∀ i, (w.phases i).all Phase.early = true → w.removes i = none
  owner : ∀ key b, w.active key = some b → w.removes b = some true ∧ (reqs b).broadcastKey = key
  own : ∀ i, w.removes i = some true → w.active (reqs i).broadcastKey = some i

/-- No caller asks for a key while the broadcast registered under it is streaming. -/
def Unhurried (reqs : ℕ → ReadRequest) (w : World) : Label → Prop
  | .getOrCreate i => ((w.active (reqs i).broadcastKey).bind w.streams).all
      (fun st => !st.broadcaster.streaming) = true
  | _ => True

instance (reqs : ℕ → ReadRequest) (w : World) : (l : Label) → Decidable (Unhurried reqs w l)
  | .getOrCreate _ => inferInstanceAs (Decidable (_ = true))
  | .arrive _ | .lookup _ _ | .serve _ _ | .revalidate _ _ _ | .forward _ _ | .subscribe _
  | .attachCache _ | .answer _ _ | .read _ _ | .complete _ _ | .drainCache _ | .receive _
  | .cancel _ | .remove _ => .isTrue trivial

variable {cfg : ReadConfig} {reqs : ℕ → ReadRequest} {w w' : World} {i b : ℕ}

@[simp] theorem removes_setPhase (phase : Phase) : (setPhase w i phase).removes = w.removes := rfl

theorem removes_setStream (st : Stream) :
    (setStream w b st).removes = Function.update w.removes b (some st.registered) := by
  funext j
  by_cases hj : j = b
  · subst hj
    simp [World.removes, setStream]
  · simp [World.removes, setStream, hj]

theorem removes_setStream_of_eq {st st' : Stream} (hst : w.streams b = some st)
    (hreg : st'.registered = st.registered) : (setStream w b st').removes = w.removes := by
  have hb : w.removes b = some st'.registered := by
    simp [World.removes, hst, hreg]
  rw [removes_setStream, ← hb, Function.update_eq_self]

/-- A first caller finds no registered broadcast, or one that streams. -/
theorem joinable_eq_none_iff {key : Bytes} :
    joinable w key = none ↔
      ∀ b, w.active key = some b → ∀ st, w.streams b = some st →
        st.broadcaster.streaming = true := by
  unfold joinable
  cases hactive : w.active key with
  | none => simp
  | some b =>
    cases hst : w.streams b with
    | none => simp [hst]
    | some st => simp [hst]

theorem receive_registered {st st' : Stream} {rcv : Receiver} {next : Receiver ⊕ Delivery}
    (h : st.receive i rcv = some (st', next)) : st'.registered = st.registered := by
  obtain ⟨l, -, h⟩ := Option.bind_eq_some_iff.mp h
  obtain ⟨p, -, hp⟩ := Option.map_eq_some_iff.mp h
  exact congrArg (fun q => q.1.registered) hp.symm

@[simp] theorem afterReceive_early (r : ReadRequest) (next : Receiver ⊕ Delivery) :
    (afterReceive cfg r b next).early = false := by
  cases next <;> rfl

/-- The removal is made once, by a fetcher that registered its broadcast. -/
theorem remove_eq_some (h : step cfg reqs w (.remove i) = some w') :
    w.removes i = some true ∧ w'.removes = Function.update w.removes i (some false) ∧
      w'.phases = w.phases ∧
      w'.active = Function.update w.active (reqs i).broadcastKey none := by
  simp only [step] at h
  split at h
  next reply st hph hst =>
    simp only [Option.ite_none_right_eq_some, Option.some.injEq] at h
    obtain ⟨hreg, rfl⟩ := h
    have hremoves : w.removes i = some true := by simp [World.removes, hst, hreg]
    exact ⟨hremoves, removes_setStream _, rfl, rfl⟩
  next => simp at h

namespace Registered

theorem start (reqs : ℕ → ReadRequest) : Registered reqs initial where
  early _ _ := rfl
  owner _ _ h := by simp [initial] at h
  own _ h := by simp [initial, World.removes] at h

theorem keep (h : Registered reqs w) (hactive : w'.active = w.active)
    (hremoves : w'.removes = w.removes)
    (hearly : ∀ j, (w'.phases j).all Phase.early = true → (w.phases j).all Phase.early = true) :
    Registered reqs w' := by
  constructor
  case early =>
    intro j hj
    rw [hremoves]
    exact h.early j (hearly j hj)
  case owner => rw [hactive, hremoves]; exact h.owner
  case own => rw [hactive, hremoves]; exact h.own

theorem move (h : Registered reqs w) {phase : Phase}
    (hactive : w'.active = w.active) (hremoves : w'.removes = w.removes)
    (hphases : w'.phases = Function.update w.phases i (some phase))
    (hearly : phase.early = true → (w.phases i).all Phase.early = true) :
    Registered reqs w' := by
  apply h.keep hactive hremoves
  intro j hj
  rw [hphases] at hj
  by_cases hji : j = i
  · subst hji
    rw [Function.update_self] at hj
    exact hearly hj
  · rwa [Function.update_of_ne hji] at hj

/-- The fetch that request `i` begins. Its key is free if it is registered. -/
theorem begin_fetch (h : Registered reqs w) {registered : Bool}
    (hphase : (w.phases i).all Phase.early = true)
    (hremoves : w'.removes = Function.update w.removes i (some registered))
    (hphases : w'.phases = Function.update w.phases i (some .created))
    (hactive : w'.active = if registered then
      Function.update w.active (reqs i).broadcastKey (some i) else w.active)
    (hfree : registered = true → w.active (reqs i).broadcastKey = none) :
    Registered reqs w' := by
  have hi : w.removes i = none := h.early i hphase
  constructor
  case early =>
    intro j hj
    rw [hphases] at hj
    have hji : j ≠ i := by
      rintro rfl
      simp [Phase.early] at hj
    rw [Function.update_of_ne hji] at hj
    rw [hremoves, Function.update_of_ne hji]
    exact h.early j hj
  case owner =>
    intro key b hb
    have hold : w.active key = some b →
        w'.removes b = some true ∧ (reqs b).broadcastKey = key := by
      intro hold
      have hne : b ≠ i := by
        rintro rfl
        simp [(h.owner key b hold).1] at hi
      rw [hremoves, Function.update_of_ne hne]
      exact h.owner key b hold
    cases registered with
    | false =>
      rw [hactive, if_neg Bool.false_ne_true] at hb
      exact hold hb
    | true =>
      rw [hactive, if_pos rfl] at hb
      rcases update_eq_some_cases hb with ⟨rfl, rfl⟩ | hb
      · rw [hremoves, Function.update_self]
        exact ⟨rfl, rfl⟩
      · exact hold hb
  case own =>
    intro j hj
    rw [hremoves] at hj
    by_cases hji : j = i
    · subst hji
      rw [Function.update_self, Option.some.injEq] at hj
      rw [hactive, if_pos hj, Function.update_self]
    · rw [Function.update_of_ne hji] at hj
      have hold := h.own j hj
      cases registered with
      | false => rwa [hactive, if_neg Bool.false_ne_true]
      | true =>
        have hkey : (reqs j).broadcastKey ≠ (reqs i).broadcastKey := by
          intro hkey
          rw [hkey, hfree rfl] at hold
          cases hold
        rwa [hactive, if_pos rfl, Function.update_of_ne hkey]

theorem finish (h : Registered reqs w) (hi : w.removes i = some true)
    (hremoves : w'.removes = Function.update w.removes i (some false))
    (hphases : w'.phases = w.phases)
    (hactive : w'.active = Function.update w.active (reqs i).broadcastKey none) :
    Registered reqs w' := by
  have hown := h.own i hi
  constructor
  case early =>
    intro j hj
    rw [hphases] at hj
    have hnone := h.early j hj
    have hji : j ≠ i := by
      rintro rfl
      simp [hi] at hnone
    rwa [hremoves, Function.update_of_ne hji]
  case owner =>
    intro key b hb
    rw [hactive] at hb
    have hkey : key ≠ (reqs i).broadcastKey := by
      rintro rfl
      rw [Function.update_self] at hb
      cases hb
    rw [Function.update_of_ne hkey] at hb
    have hold := h.owner key b hb
    have hne : b ≠ i := by
      rintro rfl
      exact hkey hold.2.symm
    rwa [hremoves, Function.update_of_ne hne]
  case own =>
    intro j hj
    rw [hremoves] at hj
    have hji : j ≠ i := by
      rintro rfl
      simp at hj
    rw [Function.update_of_ne hji] at hj
    have hold := h.own j hj
    have hkey : (reqs j).broadcastKey ≠ (reqs i).broadcastKey := by
      intro hkey
      rw [hkey, hown, Option.some.injEq] at hold
      exact hji hold.symm
    rwa [hactive, Function.update_of_ne hkey]

theorem step_keep (h : Registered reqs w) {l : Label} (hcond : Unhurried reqs w l)
    (hstep : step cfg reqs w l = some w') : Registered reqs w' := by
  cases step_effect hstep with
  | arrive hph => exact h.move rfl rfl rfl fun _ => by rw [hph]; rfl
  | lookup hph => exact h.move rfl rfl rfl fun _ => by rw [hph]; rfl
  | serve hph => exact h.move rfl rfl rfl fun _ => by rw [hph]; rfl
  | revalidate hph => exact h.move rfl rfl rfl fun _ => by rw [hph]; rfl
  | forward hph => exact h.move rfl rfl rfl fun _ => by rw [hph]; rfl
  | find hph => exact h.move rfl rfl rfl fun _ => by rw [hph]; rfl
  | @create i hph hb =>
    have hfree : w.active (reqs i).broadcastKey = none := by
      cases hactive : w.active (reqs i).broadcastKey with
      | none => rfl
      | some b =>
        obtain ⟨st, hst, -⟩ := Option.map_eq_some_iff.mp (h.owner _ _ hactive).1
        have hstreams := joinable_eq_none_iff.mp hb b hactive st hst
        simp [Unhurried, hactive, hst, hstreams] at hcond
    exact h.begin_fetch (by rw [hph]; rfl) (removes_setStream _) rfl rfl fun _ => hfree
  | join hph hst =>
    exact h.move rfl (removes_setStream_of_eq hst rfl) rfl fun hno => by simp [Phase.early] at hno
  | late hph =>
    exact h.begin_fetch (by rw [hph]; rfl) (removes_setStream _) rfl rfl fun hno => by cases hno
  | start hph hst =>
    exact h.move rfl (removes_setStream_of_eq hst rfl) rfl fun hno => by simp [Phase.early] at hno
  | attachCache hst => exact h.keep rfl (removes_setStream_of_eq hst rfl) fun _ => id
  | answer hst => exact h.keep rfl (removes_setStream_of_eq hst rfl) fun _ => id
  | read hst => exact h.keep rfl (removes_setStream_of_eq hst rfl) fun _ => id
  | complete hst => exact h.keep rfl (removes_setStream_of_eq hst rfl) fun _ => id
  | drainCache hst => exact h.keep rfl (removes_setStream_of_eq hst rfl) fun _ => id
  | receive hph hst hrcv =>
    exact h.move rfl (removes_setStream_of_eq hst (receive_registered hrcv)) rfl
      fun hno => by simp at hno
  | cancel hph => exact h.move rfl rfl rfl fun hno => by simp at hno
  | remove hph hst =>
    obtain ⟨hi, hremoves, hphases, hactive⟩ := remove_eq_some hstep
    exact h.finish hi hremoves hphases hactive

theorem run_keep {ls : List Label} (hrun : run (step cfg reqs) initial ls = some w)
    (hcond : Along (step cfg reqs) (Unhurried reqs) initial ls) : Registered reqs w :=
  run_invariant (fun _ _ _ h hguard hstep => h.step_keep hguard hstep) (start reqs) hcond hrun

end Registered

/-- While no caller comes to a streaming broadcast, every removal unregisters the
broadcast of its own fetcher and no other, under any key. A first caller is told so only
when no registered, unfinished broadcast of its key has yet to stream. -/
theorem registry_tracks_own_broadcast {ls : List Label}
    (hrun : run (step cfg reqs) initial ls = some w)
    (hcond : Along (step cfg reqs) (Unhurried reqs) initial ls) :
    (∀ i w', step cfg reqs w (.remove i) = some w' →
      ∀ key b, w.active key = some b → w'.active key ≠ some b → b = i) ∧
    ∀ i w', step cfg reqs w (.getOrCreate i) = some w' → w'.phases i = some .created →
      ∀ b st, w.active (reqs i).broadcastKey = some b → w.streams b = some st →
        st.broadcaster.done = false → st.broadcaster.streaming = true := by
  have hreg := Registered.run_keep hrun hcond
  constructor
  · intro i w' hstep key b hb hgone
    obtain ⟨hi, -, -, hactive⟩ := remove_eq_some hstep
    have hkey : key = (reqs i).broadcastKey := by
      by_contra hkey
      rw [hactive, Function.update_of_ne hkey] at hgone
      exact hgone hb
    have hown := hreg.own i hi
    rw [← hkey, hb, Option.some.injEq] at hown
    exact hown
  · intro i w' hstep hfirst b st hb hst _
    cases step_effect hstep with
    | find hph hjoin =>
      simp [setPhase] at hfirst
    | create hph hjoin => exact joinable_eq_none_iff.mp hjoin b hb st hst

def sameKey : ℕ → ReadRequest := fun _ => signedRead "owner"

/-- The second read joins the first one's broadcast before it streams. -/
def unhurriedRun : List Label :=
  [.arrive 0, .lookup 0 none, .getOrCreate 0, .subscribe 0, .arrive 1, .lookup 1 none,
    .getOrCreate 1, .subscribe 1, .answer 0 (plainResponse 200 "body"), .read 0 8,
    .complete 0 none] ++ List.replicate 4 (.receive 0)

theorem registry_tracks_own_broadcast_unhurried :
    ∃ w w', run (step readConfig sameKey) initial unhurriedRun = some w ∧
      step readConfig sameKey w (.remove 0) = some w' ∧
      w.active (sameKey 0).broadcastKey = some 0 ∧
      ∀ key b, w.active key = some b → w'.active key ≠ some b → b = 0 := by
  have hrun : ∃ w, run (step readConfig sameKey) initial unhurriedRun = some w ∧
      w.active (sameKey 0).broadcastKey = some 0 ∧
      (step readConfig sameKey w (.remove 0)).isSome = true :=
    exists_run_of_any (by decide +kernel)
  obtain ⟨w, hw, hactive, hremove⟩ := hrun
  obtain ⟨w', hw'⟩ := Option.isSome_iff_exists.mp hremove
  have hcond : Along (step readConfig sameKey) (Unhurried sameKey) initial unhurriedRun := by
    decide +kernel
  exact ⟨w, w', hw, hw', hactive, (registry_tracks_own_broadcast hw hcond).1 0 w' hw'⟩

/-- The first read streams, the second registers a broadcast of its own. -/
def overtakenRun : List Label :=
  [.arrive 0, .lookup 0 none, .getOrCreate 0, .subscribe 0, .answer 0 (plainResponse 200 "body"),
    .read 0 8, .arrive 1, .lookup 1 none, .getOrCreate 1, .complete 0 none] ++
  List.replicate 4 (.receive 0)

/-- The first read's removal takes the second read's broadcast, which has not begun to
stream. -/
theorem removal_takes_newer_broadcast :
    ∃ w w', run (step readConfig sameKey) initial overtakenRun = some w ∧
      step readConfig sameKey w (.remove 0) = some w' ∧
      w.active (sameKey 0).broadcastKey = some 1 ∧ w'.active (sameKey 0).broadcastKey = none := by
  have hrun : ∃ w, run (step readConfig sameKey) initial overtakenRun = some w ∧
      w.active (sameKey 0).broadcastKey = some 1 ∧
      (step readConfig sameKey w (.remove 0)).any
        (fun w' => w'.active (sameKey 0).broadcastKey == none) = true :=
    exists_run_of_any (by decide +kernel)
  obtain ⟨w, hw, hactive, hremove⟩ := hrun
  obtain ⟨w', hw', hgone⟩ := (Option.any_eq_true _ _).mp hremove
  exact ⟨w, w', hw, hw', hactive, beq_iff_eq.mp hgone⟩

end TagGateway.Proxy.Coalescing
