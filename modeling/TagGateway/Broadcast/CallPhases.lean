import TagGateway.Broadcast.SharedBuffers

/-!
# Buffers and listeners during a call

Two invariants of the broadcaster, each by one case analysis over what a step does. No
buffer is in two places, so what is queued for a listener does not change under it. The
slice of listeners and the indices of the running call say who is connected, who is being
cut off and who has ended, and no channel is closed twice or sent to after it is closed.
-/
namespace TagGateway.Broadcast.Shared

open Foundation List

universe u

variable {κ : Type u}

/-! ### Buffers -/

inductive Holder (κ : Type u) where
  | pool
  | producer
  | listener (k : κ)

def Listener.bufs (l : Listener) : List ℕ := l.ch.filterMap Chunk.data ++ l.hand ++ l.spent

def holders (pool : List ℕ) (input : Option ℕ) (table : κ → Option Listener) :
    Holder κ → List ℕ
  | .pool => pool
  | .producer => input.toList
  | .listener k => (table k).elim [] Listener.bufs

namespace Broadcaster

/-- The buffers that are in use or in the pool, by who has them. -/
def bufs (b : Broadcaster κ) : Holder κ → List ℕ := holders b.pool b.input b.table

variable {b b' : Broadcaster κ} {pool pool' : List ℕ} {input input' : Option ℕ}
  {table table' : κ → Option Listener} {next buf : ℕ}

theorem holders_pool_ne (holder : Holder κ) (hne : holder ≠ .pool) :
    holders pool' input table holder = holders pool input table holder := by
  cases holder with
  | pool => exact absurd rfl hne
  | producer => rfl
  | listener k => rfl

theorem holders_producer_ne (holder : Holder κ) (hne : holder ≠ .producer) :
    holders pool input' table holder = holders pool input table holder := by
  cases holder with
  | pool => rfl
  | producer => exact absurd rfl hne
  | listener k => rfl

theorem allocated_lease (h : Allocated b.bufs b.next) (hlease : b.Leases buf pool next) :
    Allocated (holders pool b.input b.table) next ∧
      (∀ holder, buf ∉ holders pool b.input b.table holder) ∧ buf < next := by
  rcases hlease with ⟨hmem, rfl, rfl⟩ | ⟨rfl, rfl, rfl⟩
  · apply h.take (i := .pool)
    · exact perm_cons_erase hmem
    · exact holders_pool_ne
  · exact h.make

theorem allocated_giveUp (h : Allocated b.bufs b.next) (hin : b.input = some buf) :
    Allocated (holders b.pool none b.table) b.next ∧
      (∀ holder, buf ∉ holders b.pool none b.table holder) ∧ buf < b.next := by
  apply h.take (i := .producer)
  · simp [bufs, holders, hin]
  · exact holders_producer_ne

section Table

variable [DecidableEq κ] {k : κ} {l l' : Listener}

theorem holders_update_self :
    holders pool input (Function.update table k (some l)) (.listener k) = l.bufs := by
  simp [holders]

theorem holders_update_ne {holder : Holder κ} (hne : holder ≠ .listener k) :
    holders pool input (Function.update table k (some l)) holder = holders pool input table holder := by
  cases holder with
  | pool => rfl
  | producer => rfl
  | listener j =>
    have hj : j ≠ k := fun hj => hne (hj ▸ rfl)
    simp [holders, hj]

omit [DecidableEq κ] in
theorem holders_listener (hl : table k = some l) :
    holders pool input table (.listener k) = l.bufs := by
  simp [holders, hl]

theorem allocated_update (h : Allocated (holders pool input table) next) (hl : table k = some l)
    (hperm : l'.bufs ~ l.bufs) :
    Allocated (holders pool input (Function.update table k (some l'))) next := by
  apply h.rearrange
  intro holder
  by_cases hne : holder = .listener k
  · subst hne
    rw [holders_update_self, holders_listener hl]
    exact hperm
  · rw [holders_update_ne hne]

theorem allocated_send (h : Allocated (holders pool input table) next)
    (hfree : ∀ holder, buf ∉ holders pool input table holder) (hbuf : buf < next)
    (hl : table k = some l) (hperm : l'.bufs ~ buf :: l.bufs) :
    Allocated (holders pool input (Function.update table k (some l'))) next := by
  apply h.put hfree hbuf (j := .listener k)
  · rw [holders_update_self, holders_listener hl]
    exact hperm
  · exact fun holder hne => holders_update_ne hne

theorem allocated_release (h : Allocated (holders pool input table) next) (hl : table k = some l)
    (hperm : l.bufs ~ buf :: l'.bufs) :
    Allocated (holders (buf :: pool) input (Function.update table k (some l'))) next := by
  have htaken : Allocated (holders pool input (Function.update table k (some l'))) next ∧
      (∀ holder, buf ∉ holders pool input (Function.update table k (some l')) holder) ∧
      buf < next := by
    apply h.take (i := .listener k)
    · rw [holders_update_self, holders_listener hl]
      exact hperm
    · exact fun holder hne => holders_update_ne hne
  obtain ⟨hleft, hfree, hbuf⟩ := htaken
  exact hleft.put hfree hbuf (j := .pool) (Perm.refl _) holders_pool_ne

end Table

end Broadcaster

theorem Listener.bufs_closeWithError (channelBuf : ℕ) (err : Option StreamError) (l : Listener) :
    (l.closeWithError channelBuf err).bufs = l.bufs := by
  unfold closeWithError bufs
  split <;> simp

theorem Listener.bufs_send (l : Listener) (buf : ℕ) :
    ({ l with ch := l.ch ++ [⟨some buf, none⟩] } : Listener).bufs ~ buf :: l.bufs := by
  simp only [bufs, filterMap_append, filterMap_cons, filterMap_nil, append_assoc]
  exact perm_middle

namespace Broadcaster

variable [DecidableEq κ] {b b' : Broadcaster κ}

theorem Effect.allocated (heffect : Effect b b') (h : Allocated b.bufs b.next) :
    Allocated b'.bufs b'.next := by
  cases heffect with
  | same | setHeaders | refill | broadcast | searchNext | searchEnd | searchFound | copiesEnd
  | copiesMade | skip => exact h
  | @subscribe k hcall hk | @subscribeDone k hcall hk =>
    apply h.rearrange
    intro holder
    by_cases hne : holder = .listener k
    · subst hne
      simp [bufs, holders, hk, Listener.bufs]
    · simp only [bufs]
      rw [holders_update_ne hne]
  | fill hcall hin hlease =>
    obtain ⟨hleft, hfree, hbuf⟩ := allocated_lease h hlease
    apply hleft.put hfree hbuf (j := .producer)
    · simp [bufs, holders, hin]
    · exact holders_producer_ne
  | copy hcall hk hl howner hin hlease =>
    obtain ⟨hleft, hfree, hbuf⟩ := allocated_lease h hlease
    exact allocated_send hleft hfree hbuf hl (Listener.bufs_send _ _)
  | reject hcall hk hl howner hin hlease =>
    obtain ⟨hleft, hfree, hbuf⟩ := allocated_lease h hlease
    exact allocated_update (hleft.put hfree hbuf (j := .pool) (Perm.refl _) holders_pool_ne) hl
      (Perm.refl _)
  | disconnect hcall hl =>
    exact allocated_update h hl (by rw [Listener.bufs_closeWithError])
  | handOver hcall hl hin =>
    obtain ⟨hleft, hfree, hbuf⟩ := allocated_giveUp h hin
    exact allocated_send hleft hfree hbuf hl (Listener.bufs_send _ _)
  | rejectOwner hcall hl => exact allocated_update h hl (Perm.refl _)
  | disconnectOwner hcall hl =>
    exact allocated_update h hl (by rw [Listener.bufs_closeWithError])
  | complete err hcall hdone =>
    apply h.rearrange
    intro holder
    cases holder with
    | pool => exact Perm.refl _
    | producer => exact Perm.refl _
    | listener k =>
      simp only [bufs, holders]
      by_cases hk : k ∈ b.listeners
      · cases hl : b.table k <;> simp [hk, Listener.bufs_closeWithError]
      · simp [hk]
  | @receive k l c ch hl hch =>
    apply allocated_update h hl
    -- what is taken from the channel goes behind what is in hand
    have hdata : l.ch.filterMap Chunk.data = c.data.toList ++ ch.filterMap Chunk.data := by
      rw [hch, filterMap_cons]
      cases c.data <;> rfl
    simp only [Listener.bufs, hdata, append_assoc]
    exact ((perm_append_comm_assoc _ _ _).append_left _).trans (perm_append_comm_assoc _ _ _)
  | read hl hhand =>
    apply allocated_update h hl
    simp only [Listener.bufs, hhand, append_assoc, cons_append]
    exact perm_middle.append_left _
  | release hl hbuf =>
    apply allocated_release h hl
    exact ((perm_cons_erase hbuf).append_left _).trans perm_middle

end Broadcaster

/-! ### Listeners -/

/-- Whether a listener is sent to, and what it ended with. -/
structure Status where
  closed : Bool
  disconnected : Bool
  termErr : Option StreamError

def Status.connected : Status := ⟨false, false, none⟩

def Status.cut : Status := ⟨false, true, none⟩

def Status.slow : Status := ⟨true, true, some .slowConsumer⟩

def Listener.status (l : Listener) : Status := ⟨l.closed, l.disconnected, l.termErr⟩

def passed (owner : Option (ℕ × κ)) (i : ℕ) : List κ :=
  (owner.filter fun o => o.1 < i).toList.map Prod.snd

theorem passed_succ {owner : Option (ℕ × κ)} {i : ℕ} (h : owner.any (fun o => o.1 == i) = false) :
    passed owner (i + 1) = passed owner i := by
  cases owner with
  | none => rfl
  | some o =>
    have hi : o.1 ≠ i := by simpa using h
    have hlt : o.1 < i + 1 ↔ o.1 < i := by omega
    simp [passed, Option.filter, hlt]

namespace Broadcaster

def status (b : Broadcaster κ) (k : κ) : Option Status := (b.table k).map Listener.status

def served (b : Broadcaster κ) : List κ :=
  match b.call with
  | .idle => b.listeners
  | .search _ => []
  | .copies _ _ active _ | .disconnect _ _ _ active _ | .handOver _ active _
  | .disconnectOwner _ active => b.listeners.take active

def pending (b : Broadcaster κ) : List κ :=
  match b.call with
  | .idle | .disconnectOwner _ _ => []
  | .search _ => b.listeners
  | .copies owner i _ _ => passed owner i ++ b.listeners.drop i
  | .disconnect _ owner i _ _ => passed owner i ++ b.listeners.drop (i + 1)
  | .handOver k _ _ => [k]

def live (b : Broadcaster κ) : List κ := b.served ++ b.pending

def cutting (b : Broadcaster κ) : Option κ :=
  match b.call with
  | .idle | .search _ | .copies _ _ _ _ | .handOver _ _ _ => none
  | .disconnect k _ _ _ _ | .disconnectOwner k _ => some k

/-- The indices of the copying loop. The slice still has the owner where it was found
until the loop comes to it. -/
def InLoop (b : Broadcaster κ) (owner : Option (ℕ × κ)) (i active : ℕ) : Prop :=
  active ≤ i ∧ i ≤ b.listeners.length ∧
    ∀ o ∈ owner, o.1 < b.listeners.length ∧ (i ≤ o.1 → b.listeners[o.1]? = some o.2)

def SliceOk (b : Broadcaster κ) : Prop :=
  match b.call with
  | .copies owner i active _ => b.InLoop owner i active
  | .disconnect _ owner i active _ =>
    b.InLoop owner i active ∧ i < b.listeners.length ∧ owner.any (fun o => o.1 == i) = false
  | _ => True

structure Phases (b : Broadcaster κ) : Prop where
  calm : b.panicked = false
  running : b.call ≠ .idle → b.done = false ∧ b.streaming = true
  slice : b.SliceOk
  nodup : b.live.Nodup
  live : b.done = false → ∀ k ∈ b.live, b.status k = some .connected
  cut : ∀ k, b.cutting = some k → k ∉ b.live ∧ b.status k = some .cut
  ended : ∀ k s, b.status k = some s → b.done = true ∨ k ∉ b.live → b.cutting ≠ some k →
    s = .slow ∨ b.done = true ∧ s = ⟨true, false, b.err⟩
  completed : b.done = true → ∃ err headerSet, b.completion = some (err, headerSet) ∧
    b.err = if !headerSet && err.isNone then some .completedBeforeHeaders else err

structure Onward (b b' : Broadcaster κ) : Prop where
  panicked : b'.panicked = b.panicked := by rfl
  done : b'.done = b.done := by rfl
  err : b'.err = b.err := by rfl
  completion : b'.completion = b.completion := by rfl
  running : b'.call ≠ .idle → b'.done = false ∧ b'.streaming = true
  slice : b'.SliceOk

section

variable {b b' : Broadcaster κ} {k : κ} {owner : Option (ℕ × κ)} {i active position : ℕ}

theorem drop_of_getElem? (hk : b.listeners[i]? = some k) :
    b.listeners.drop i = k :: b.listeners.drop (i + 1) := by
  obtain ⟨hi, hget⟩ := List.getElem?_eq_some_iff.mp hk
  rw [drop_eq_getElem_cons hi, hget]

theorem passed_owner (hk : b.listeners[i]? = some k) :
    passed (some (i, k)) i ++ b.listeners.drop i =
      passed (some (i, k)) (i + 1) ++ b.listeners.drop (i + 1) := by
  rw [drop_of_getElem? hk]
  simp [passed, Option.filter]

theorem live_copies (hcall : b.call = .copies owner i active position) :
    b.live = b.listeners.take active ++ (passed owner i ++ b.listeners.drop i) := by
  simp only [Broadcaster.live, served, pending, hcall]

theorem pending_copies (hcall : b.call = .copies owner i active position) :
    b.pending = passed owner i ++ b.listeners.drop i := by
  simp only [pending, hcall]

theorem mem_pending_of_copies (hcall : b.call = .copies owner i active position)
    (hk : b.listeners[i]? = some k) : k ∈ b.pending := by
  rw [pending_copies hcall, drop_of_getElem? hk]
  simp

theorem connected_of_status {l : Listener} (hl : b.table k = some l)
    (hstatus : b.status k = some .connected) : l.status = .connected := by
  simpa [status, hl] using hstatus

theorem live_of_getElem? (h : b.Phases) (hcall : b.call = .copies owner i active position)
    (hk : b.listeners[i]? = some k) : b.status k = some .connected := by
  have hdone := (h.running (by simp [hcall])).1
  exact h.live hdone k (mem_append_right _ (mem_pending_of_copies hcall hk))

namespace Phases

theorem mem_rest (h : b.Phases) (hcall : b.call = .copies owner i active position)
    (hk : b.listeners[i]? = some k) (j : κ) :
    j ∈ passed owner i ++ b.listeners.drop (i + 1) ↔ j ∈ b.pending ∧ j ≠ k := by
  have hpending : b.pending = passed owner i ++ k :: b.listeners.drop (i + 1) := by
    rw [pending_copies hcall, drop_of_getElem? hk]
  have hnodup := (nodup_append.mp h.nodup).2.1
  rw [hpending, perm_middle.nodup_iff, nodup_cons] at hnodup
  rw [hpending, perm_middle.mem_iff, mem_cons]
  constructor
  · intro hj
    exact ⟨.inr hj, fun hjk => hnodup.1 (hjk ▸ hj)⟩
  · rintro ⟨hjk | hj, hne⟩
    · exact absurd hjk hne
    · exact hj

theorem open_of_target (h : b.Phases) {l : Listener} (hk : b.target = some k)
    (hl : b.table k = some l) : l.closed = false := by
  have hstatus : b.status k = some l.status := by simp [status, hl]
  have hopen : b.status k = some .connected ∨ b.status k = some .cut := by
    cases hcall : b.call with
    | idle => simp [target, hcall] at hk
    | search => simp [target, hcall] at hk
    | copies owner i active position =>
      simp only [target, hcall, Option.ite_none_left_eq_some] at hk
      exact .inl (live_of_getElem? h hcall hk.2)
    | disconnect k' owner i active position =>
      simp only [target, hcall, Option.some.injEq] at hk
      exact .inr (h.cut k (by simp [cutting, hcall, hk])).2
    | handOver k' active position =>
      simp only [target, hcall, Option.some.injEq] at hk
      have hdone := (h.running (by simp [hcall])).1
      exact .inl (h.live hdone k (by simp [Broadcaster.live, pending, hcall, hk]))
    | disconnectOwner k' active =>
      simp only [target, hcall, Option.some.injEq] at hk
      exact .inr (h.cut k (by simp [cutting, hcall, hk])).2
  rw [hstatus] at hopen
  rcases hopen with hopen | hopen
  · exact congrArg Status.closed (Option.some.inj hopen)
  · exact congrArg Status.closed (Option.some.inj hopen)

theorem owner_of_skip (h : b.Phases) {l : Listener}
    (hcall : b.call = .copies owner i active position) (hk : b.listeners[i]? = some k)
    (hl : b.table k = some l)
    (hskip : l.disconnected = true ∨ owner.any (fun o => o.1 == i) = true) :
    owner = some (i, k) := by
  have hslice : b.InLoop owner i active := by simpa only [SliceOk, hcall] using h.slice
  have hconnected := connected_of_status hl (live_of_getElem? h hcall hk)
  rcases hskip with hdisc | howner
  · rw [show l.disconnected = false from congrArg Status.disconnected hconnected] at hdisc
    cases hdisc
  · obtain ⟨⟨index, k'⟩, ho, hindex⟩ := (Option.any_eq_true _ _).mp howner
    obtain rfl : index = i := by simpa using hindex
    have hk' := (hslice.2.2 _ ho).2 (Nat.le_refl _)
    obtain rfl : k' = k := Option.some.inj (hk'.symm.trans hk)
    exact ho

theorem mem_listeners (h : b.Phases) (hcall : b.call = .idle) (hdone : b.done = false)
    {l : Listener} (hl : b.table k = some l) : k ∈ b.listeners ↔ l.disconnected = false := by
  have hlive : b.live = b.listeners := by simp [Broadcaster.live, served, pending, hcall]
  constructor
  · intro hk
    exact congrArg Status.disconnected (connected_of_status hl (h.live hdone k (hlive ▸ hk)))
  · intro hconnected
    by_contra hk
    have hended := h.ended k l.status (by simp [status, hl]) (.inr (hlive ▸ hk))
      (by simp [cutting, hcall])
    rcases hended with hslow | ⟨hd, -⟩
    · have hdisc : l.disconnected = true := congrArg Status.disconnected hslow
      simp [hconnected] at hdisc
    · simp [hdone] at hd

theorem ready (h : b.Phases) : b.Ready where
  target _ _ hk hl := h.open_of_target hk hl
  nodup hcall _ := by
    have hnodup := h.nodup
    simpa [Broadcaster.live, served, pending, hcall] using hnodup
  listeners hcall hdone k hk := by
    have hstatus := h.live hdone k (by simpa [Broadcaster.live, served, pending, hcall] using hk)
    obtain ⟨l, hl, hconnected⟩ := Option.map_eq_some_iff.mp hstatus
    exact ⟨l, hl, congrArg Status.closed hconnected, congrArg Status.disconnected hconnected⟩

/-- A step after which the listeners are again as the call says. -/
theorem onward (h : b.Phases) (honward : b.Onward b') (hnodup : b'.live.Nodup)
    (hlive : b.done = false → ∀ k ∈ b'.live, b'.status k = some .connected)
    (hcut : ∀ k, b'.cutting = some k → k ∉ b'.live ∧ b'.status k = some .cut)
    (hended : ∀ k s, b'.status k = some s → b.done = true ∨ k ∉ b'.live → b'.cutting ≠ some k →
      s = .slow ∨ b.done = true ∧ s = ⟨true, false, b.err⟩) : b'.Phases where
  calm := honward.panicked ▸ h.calm
  running := honward.running
  slice := honward.slice
  nodup := hnodup
  live := honward.done ▸ hlive
  cut := hcut
  ended := by
    rw [honward.done, honward.err]
    exact hended
  completed := by
    rw [honward.done, honward.err, honward.completion]
    exact h.completed

theorem move (h : b.Phases)
    (hstatus : b'.status = b.status) (hlive : b'.live ~ b.live) (hcutting : b'.cutting = b.cutting)
    (honward : b.Onward b') : b'.Phases := by
  apply h.onward honward (hlive.nodup_iff.mpr h.nodup)
  · intro hd k hk
    rw [hstatus]
    exact h.live hd k (hlive.mem_iff.mp hk)
  · intro k hk
    rw [hstatus, hlive.mem_iff]
    exact h.cut k (hcutting ▸ hk)
  · intro k s hs hout hk
    rw [hstatus] at hs
    rw [hlive.mem_iff] at hout
    exact h.ended k s hs hout (hcutting ▸ hk)

theorem cutOff [DecidableEq κ] (h : b.Phases)
    (hstatus : b'.status = Function.update b.status k (some .cut))
    (hlive : b.live ~ k :: b'.live) (hcutting : b.cutting = none) (hcutting' : b'.cutting = some k)
    (honward : b.Onward b') : b'.Phases := by
  have hnodup := nodup_cons.mp (hlive.nodup_iff.mp h.nodup)
  apply h.onward honward hnodup.2
  · intro hd j hj
    have hne : j ≠ k := fun hjk => hnodup.1 (hjk ▸ hj)
    rw [hstatus, Function.update_of_ne hne]
    exact h.live hd j (hlive.mem_iff.mpr (mem_cons_of_mem k hj))
  · intro j hj
    obtain rfl : k = j := Option.some.inj (hcutting'.symm.trans hj)
    rw [hstatus, Function.update_self]
    exact ⟨hnodup.1, rfl⟩
  · intro j s hs hout hj
    have hne : j ≠ k := fun hjk => hj (hjk ▸ hcutting')
    rw [hstatus, Function.update_of_ne hne] at hs
    refine h.ended j s hs (hout.imp_right fun hout hmem => ?_) (by simp [hcutting])
    exact hout ((mem_cons.mp (hlive.mem_iff.mp hmem)).resolve_left hne)

theorem close [DecidableEq κ] (h : b.Phases)
    (hstatus : b'.status = Function.update b.status k (some .slow))
    (hlive : b'.live = b.live) (hcutting : b.cutting = some k) (hcutting' : b'.cutting = none)
    (honward : b.Onward b') : b'.Phases := by
  have hk := (h.cut k hcutting).1
  rw [← hlive] at hk
  apply h.onward honward (hlive ▸ h.nodup)
  · intro hd j hj
    have hne : j ≠ k := fun hjk => hk (hjk ▸ hj)
    rw [hstatus, Function.update_of_ne hne]
    exact h.live hd j (hlive ▸ hj)
  · simp [hcutting']
  · intro j s hs hout _
    by_cases hne : j = k
    · rw [hstatus, hne, Function.update_self] at hs
      exact .inl (Option.some.inj hs).symm
    · rw [hstatus, Function.update_of_ne hne] at hs
      refine h.ended j s hs (hlive ▸ hout) ?_
      rw [hcutting]
      exact fun hjk => hne (Option.some.inj hjk).symm

theorem join [DecidableEq κ] (h : b.Phases) (hnot : b.done = false) (hnew : b.status k = none)
    (hstatus : b'.status = Function.update b.status k (some .connected))
    (hlive : b'.live ~ k :: b.live) (hcutting : b.cutting = none) (hcutting' : b'.cutting = none)
    (honward : b.Onward b') : b'.Phases := by
  have hout : k ∉ b.live := by
    intro hmem
    rw [h.live hnot k hmem] at hnew
    cases hnew
  apply h.onward honward (hlive.nodup_iff.mpr (nodup_cons.mpr ⟨hout, h.nodup⟩))
  · intro hd j hj
    rw [hstatus]
    by_cases hjk : j = k
    · rw [hjk, Function.update_self]
    · rw [Function.update_of_ne hjk]
      exact h.live hnot j ((mem_cons.mp (hlive.mem_iff.mp hj)).resolve_left hjk)
  · simp [hcutting']
  · intro j s hs hgone _
    rw [hlive.mem_iff, mem_cons, not_or] at hgone
    obtain ⟨hjk, hgone⟩ := hgone.resolve_left (by simp [hnot])
    rw [hstatus, Function.update_of_ne hjk] at hs
    exact h.ended j s hs (.inr hgone) (by simp [hcutting])

theorem joinDone [DecidableEq κ] (h : b.Phases) (hended : b.done = true)
    (hstatus : b'.status = Function.update b.status k (some ⟨true, false, b.err⟩))
    (hlive : b'.live = b.live) (hcutting : b.cutting = none) (hcutting' : b'.cutting = none)
    (honward : b.Onward b') : b'.Phases := by
  apply h.onward honward (hlive ▸ h.nodup) (by simp [hended]) (by simp [hcutting'])
  intro j s hs _ _
  by_cases hjk : j = k
  · rw [hstatus, hjk, Function.update_self] at hs
    exact .inr ⟨hended, (Option.some.inj hs).symm⟩
  · rw [hstatus, Function.update_of_ne hjk] at hs
    exact h.ended j s hs (.inl hended) (by simp [hcutting])

end Phases

end

variable [DecidableEq κ] {b b' : Broadcaster κ} {k : κ} {l l' : Listener}

theorem status_of_table (h : b'.table = Function.update b.table k (some l)) :
    b'.status = Function.update b.status k (some l.status) := by
  funext j
  by_cases hj : j = k
  · subst hj
    simp [status, h]
  · simp [status, h, hj]

theorem status_disconnected (h : l.status = .connected) :
    ({ l with disconnected := true } : Listener).status = .cut := by
  simp only [Listener.status, Status.connected, Status.mk.injEq] at h
  simp only [Listener.status, h, Status.cut]

theorem status_of_same (hl : b.table k = some l)
    (h : b'.table = Function.update b.table k (some l')) (hs : l'.status = l.status) :
    b'.status = b.status := by
  have hk : b.status k = some l'.status := by simp [status, hl, hs]
  rw [status_of_table h, ← hk, Function.update_eq_self]

theorem status_closeWithError {channelBuf : ℕ} (hl : b.table k = some l)
    (hcut : b.status k = some .cut)
    (h : b'.table = Function.update b.table k
      (some (l.closeWithError channelBuf (some .slowConsumer)))) :
    b'.status = Function.update b.status k (some .slow) := by
  have hdisc : l.disconnected = true := by
    have hstatus : l.status = .cut := by simpa [status, hl] using hcut
    exact congrArg Status.disconnected hstatus
  rw [status_of_table h]
  simp only [Listener.closeWithError, Listener.status, hdisc, Status.slow]

theorem take_succ_set {α : Type*} {xs : List α} {n : ℕ} {a : α} (hn : n < xs.length) :
    (xs.set n a).take (n + 1) = xs.take n ++ [a] := by
  rw [take_add_one, take_set_of_le (Nat.le_refl n), getElem?_set_self hn]
  rfl

theorem Effect.phases (heffect : Effect b b') (h : b.Phases) : b'.Phases := by
  cases heffect with
  | same => exact h
  | setHeaders | refill | fill =>
    exact h.move rfl (.refl _) rfl { running := h.running, slice := h.slice }
  | receive hl | read hl | release hl =>
    exact h.move (status_of_same hl rfl rfl) (.refl _) rfl
      { running := h.running, slice := h.slice }
  | broadcast owned hcall hdone =>
    have hlive : b.live = b.listeners := by simp [Broadcaster.live, served, pending, hcall]
    cases owned with
    | true =>
      refine h.move rfl ?_ ?_ { running := fun _ => ⟨hdone, rfl⟩, slice := trivial }
      · rw [hlive]; rfl
      · simp [cutting, hcall]
    | false =>
      refine h.move rfl ?_ ?_ { running := fun _ => ⟨hdone, rfl⟩, slice := ?_ }
      · rw [hlive]; rfl
      · simp [cutting, hcall]
      · simp [SliceOk, InLoop]
  | @searchNext i hcall =>
    refine h.move rfl ?_ ?_ { running := fun _ => h.running (by simp [hcall]), slice := trivial }
    · simp [Broadcaster.live, served, pending, hcall]
    · simp [cutting, hcall]
  | @searchEnd i hcall =>
    refine h.move rfl ?_ ?_ { running := fun _ => h.running (by simp [hcall]), slice := ?_ }
    · simp [Broadcaster.live, served, pending, hcall, passed]
    · simp [cutting, hcall]
    · simp [SliceOk, InLoop]
  | @searchFound i k hcall hk =>
    refine h.move rfl ?_ ?_ { running := fun _ => h.running (by simp [hcall]), slice := ?_ }
    · simp [Broadcaster.live, served, pending, hcall, passed, Option.filter]
    · simp [cutting, hcall]
    · obtain ⟨hi, hget⟩ := List.getElem?_eq_some_iff.mp hk
      simp [SliceOk, InLoop, hi, hget]
  | @copiesEnd i active position hcall hi =>
    have hi := List.getElem?_eq_none_iff.mp hi
    refine h.move rfl ?_ ?_ { running := fun hno => absurd rfl hno, slice := trivial }
    · simp [Broadcaster.live, served, pending, hcall, passed, drop_eq_nil_of_le hi]
    · simp [cutting, hcall]
  | @copiesMade o i active position hcall hi =>
    have hi := List.getElem?_eq_none_iff.mp hi
    have hslice := h.slice
    simp only [SliceOk, hcall, InLoop] at hslice
    have ho : o.1 < i := Nat.lt_of_lt_of_le (hslice.2.2 o rfl).1 hi
    refine h.move rfl ?_ ?_ { running := fun _ => h.running (by simp [hcall]), slice := trivial }
    · simp [Broadcaster.live, served, pending, hcall, passed, drop_eq_nil_of_le hi, Option.filter, ho]
    · simp [cutting, hcall]
  | @skip owner i active position k l hcall hk hl hskip =>
    have hslice : b.InLoop owner i active := by simpa only [SliceOk, hcall] using h.slice
    have hlt := (List.getElem?_eq_some_iff.mp hk).1
    obtain rfl := h.owner_of_skip hcall hk hl hskip
    refine h.move rfl ?_ ?_ { running := fun _ => h.running (by simp [hcall]), slice := ?_ }
    · rw [live_copies hcall, live_copies rfl, passed_owner hk]
    · simp [cutting, hcall]
    · refine ⟨Nat.le_succ_of_le hslice.1, hlt, fun o ho => ?_⟩
      obtain rfl := Option.some.inj ho
      exact ⟨(hslice.2.2 _ rfl).1, fun hle => absurd hle (Nat.not_succ_le_self _)⟩
  | @copy owner i active position position' k l input buf next pool hcall hk hl howner hin hlease =>
    have hslice : b.InLoop owner i active := by simpa only [SliceOk, hcall] using h.slice
    have hlt := (List.getElem?_eq_some_iff.mp hk).1
    refine h.move (status_of_same hl rfl rfl) ?_ ?_
      { running := fun _ => h.running (by simp [hcall]), slice := ?_ }
    · rw [live_copies hcall, live_copies rfl, passed_succ howner, drop_of_getElem? hk]
      simp only
      rw [take_succ_set (Nat.lt_of_le_of_lt hslice.1 hlt),
        drop_set_of_lt (Nat.lt_succ_of_le hslice.1), append_assoc, singleton_append]
      exact perm_middle.symm.append_left _
    · simp [cutting, hcall]
    · refine ⟨Nat.succ_le_succ hslice.1, by simpa using Nat.succ_le_of_lt hlt, fun o ho => ?_⟩
      have hold := hslice.2.2 o ho
      refine ⟨by simpa using hold.1, fun hle => ?_⟩
      have hne : active ≠ o.1 := by have := hslice.1; omega
      simp only [List.getElem?_set_ne hne]
      exact hold.2 (Nat.le_of_succ_le hle)
  | @reject owner i active position k l input buf next pool hcall hk hl howner hin hlease =>
    have hslice : b.InLoop owner i active := by simpa only [SliceOk, hcall] using h.slice
    have hlt := (List.getElem?_eq_some_iff.mp hk).1
    have hconnected := connected_of_status hl (live_of_getElem? h hcall hk)
    refine h.cutOff ?_ ?_ ?_ rfl
      { running := fun _ => h.running (by simp [hcall]), slice := ⟨hslice, hlt, howner⟩ }
    · rw [status_of_table rfl, status_disconnected hconnected]
    · rw [live_copies hcall, drop_of_getElem? hk, ← append_assoc]
      simp only [Broadcaster.live, served, pending, ← append_assoc]
      exact perm_middle
    · simp [cutting, hcall]
  | @disconnect owner i active position k l hcall hl =>
    have hslice : b.InLoop owner i active ∧ i < b.listeners.length ∧
        owner.any (fun o => o.1 == i) = false := by simpa only [SliceOk, hcall] using h.slice
    obtain ⟨⟨hactive, -, howner⟩, hlt, hany⟩ := hslice
    have hcut : b.cutting = some k := by simp only [cutting, hcall]
    refine h.close (status_closeWithError hl (h.cut k hcut).2 rfl) ?_ hcut rfl
      { running := fun _ => h.running (by simp [hcall]), slice := ?_ }
    · simp only [Broadcaster.live, served, pending, hcall, passed_succ hany]
    · exact ⟨Nat.le_succ_of_le hactive, hlt,
        fun o ho => ⟨(howner o ho).1, fun hle => (howner o ho).2 (Nat.le_of_succ_le hle)⟩⟩
  | @handOver active position k l input hcall hl hin =>
    refine h.move (status_of_same hl rfl rfl) ?_ ?_
      { running := fun hno => absurd rfl hno, slice := trivial }
    · simp only [Broadcaster.live, served, pending, hcall, append_nil]
      calc (b.listeners.take active).take position ++ k :: (b.listeners.take active).drop position
          ~ k :: ((b.listeners.take active).take position ++
              (b.listeners.take active).drop position) := perm_middle
        _ = k :: b.listeners.take active := by rw [take_append_drop]
        _ ~ b.listeners.take active ++ [k] := (perm_append_singleton _ _).symm
    · simp [cutting, hcall]
  | @rejectOwner active position k l hcall hl =>
    have hlive : b.live = b.listeners.take active ++ [k] := by
      simp only [Broadcaster.live, served, pending, hcall]
    have hconnected := connected_of_status hl
      (h.live (h.running (by simp [hcall])).1 k (by simp [hlive]))
    refine h.cutOff ?_ ?_ ?_ rfl
      { running := fun _ => h.running (by simp [hcall]), slice := trivial }
    · rw [status_of_table rfl, status_disconnected hconnected]
    · rw [hlive]
      simp only [Broadcaster.live, served, pending, append_nil]
      exact perm_append_singleton _ _
    · simp [cutting, hcall]
  | @disconnectOwner active k l hcall hl =>
    have hcut : b.cutting = some k := by simp only [cutting, hcall]
    refine h.close (status_closeWithError hl (h.cut k hcut).2 rfl) ?_ hcut rfl
      { running := fun hno => absurd rfl hno, slice := trivial }
    simp only [Broadcaster.live, served, pending, hcall]
  | complete err hcall hdone =>
    have hlive : b.live = b.listeners := by simp [Broadcaster.live, served, pending, hcall]
    constructor
    case calm => exact h.calm
    case running => exact fun hno => absurd hcall hno
    case slice => simp [SliceOk, hcall]
    case nodup => exact h.nodup
    case live => exact fun hno => Bool.noConfusion hno
    case cut =>
      intro k hk
      simp [cutting, hcall] at hk
    case ended =>
      intro k s hs _ _
      simp only [status] at hs
      by_cases hk : k ∈ b.listeners
      · rw [if_pos hk] at hs
        have hconnected := h.live hdone k (hlive ▸ hk)
        obtain ⟨l, hl, hconnected⟩ := Option.map_eq_some_iff.mp hconnected
        simp only [Listener.status, Status.connected, Status.mk.injEq] at hconnected
        simp only [hl, Option.map_some, Option.some.injEq, Listener.closeWithError,
          Listener.status, hconnected] at hs
        exact .inr ⟨rfl, hs.symm⟩
      · rw [if_neg hk] at hs
        rcases h.ended k s hs (.inr (hlive ▸ hk)) (by simp [cutting, hcall]) with hslow | ⟨hd, -⟩
        · exact .inl hslow
        · rw [hdone] at hd
          cases hd
    case completed => exact fun _ => ⟨err, b.headerSet, rfl, rfl⟩
  | @subscribe k hcall hk hstreaming hdone =>
    refine h.join (k := k) hdone (by simp [status, hk]) ?_ ?_ (by simp [cutting, hcall])
      (by simp [cutting, hcall])
      { running := fun hno => absurd hcall hno, slice := by simp [SliceOk, hcall] }
    · rw [status_of_table rfl]
      rfl
    · simp only [Broadcaster.live, served, pending, hcall, append_nil]
      exact perm_append_singleton k b.listeners
  | @subscribeDone k hcall hk hstreaming hdone =>
    refine h.joinDone (k := k) hdone ?_ rfl (by simp [cutting, hcall]) (by simp [cutting, hcall])
      { running := fun hno => absurd hcall hno, slice := by simp [SliceOk, hcall] }
    rw [status_of_table rfl]
    rfl

/-- A step of the call takes the listener it sends to off those that wait, and no other. -/
theorem Effect.pending_iff (heffect : Effect b b') (h : b.Phases) (hrunning : b.call ≠ .idle)
    (hmoved : b'.call ≠ b.call) (j : κ) : j ∈ b'.pending ↔ j ∈ b.pending ∧ b.target ≠ some j := by
  cases heffect with
  | same | refill | fill | receive | read | release | subscribe | subscribeDone | setHeaders
  | complete => exact absurd rfl hmoved
  | broadcast owned hcall => exact absurd hcall hrunning
  | searchNext hcall => simp [pending, target, hcall]
  | searchEnd hcall => simp [pending, target, hcall, passed]
  | searchFound hcall => simp [pending, target, hcall, passed, Option.filter]
  | copiesEnd hcall hi =>
    have hi := List.getElem?_eq_none_iff.mp hi
    simp [pending, hcall, passed, drop_eq_nil_of_le hi]
  | @copiesMade o i active position hcall hi =>
    have hlen := List.getElem?_eq_none_iff.mp hi
    have hslice : b.InLoop (some o) i active := by simpa only [SliceOk, hcall] using h.slice
    have ho : o.1 < i := Nat.lt_of_lt_of_le (hslice.2.2 o rfl).1 hlen
    simp [pending, target, hcall, hi, passed, drop_eq_nil_of_le hlen, Option.filter, ho]
  | @skip owner i active position k l hcall hk hl hskip =>
    obtain rfl := h.owner_of_skip hcall hk hl hskip
    rw [pending_copies hcall, pending_copies rfl, passed_owner hk]
    simp [target, hcall]
  | @copy owner i active position position' k l input buf next pool hcall hk hl howner =>
    have hslice : b.InLoop owner i active := by simpa only [SliceOk, hcall] using h.slice
    rw [pending_copies rfl, passed_succ howner, drop_set_of_lt (Nat.lt_succ_of_le hslice.1),
      h.mem_rest hcall hk, target_copies hcall howner, hk]
    simp [eq_comm]
  | @reject owner i active position k l input buf next pool hcall hk hl howner =>
    change j ∈ passed owner i ++ b.listeners.drop (i + 1) ↔ _
    rw [h.mem_rest hcall hk, target_copies hcall howner, hk]
    simp [eq_comm]
  | @disconnect owner i active position k l hcall hl =>
    have hslice : b.InLoop owner i active ∧ i < b.listeners.length ∧
        owner.any (fun o => o.1 == i) = false := by simpa only [SliceOk, hcall] using h.slice
    have hout : k ∉ b.pending := fun hk =>
      (h.cut k (by simp only [cutting, hcall])).1 (mem_append_right _ hk)
    have hpending : b.pending = passed owner (i + 1) ++ b.listeners.drop (i + 1) := by
      rw [passed_succ hslice.2.2]
      simp only [pending, hcall]
    have htarget : b.target = some k := by simp only [target, hcall]
    rw [pending_copies rfl, ← hpending, htarget]
    exact ⟨fun hj => ⟨hj, fun hkj => hout (Option.some.inj hkj ▸ hj)⟩, And.left⟩
  | @handOver active position k l input hcall => simp [pending, target, hcall, @eq_comm _ j k]
  | @rejectOwner active position k l hcall => simp [pending, target, hcall, @eq_comm _ j k]
  | disconnectOwner hcall => simp [pending, hcall]

theorem Effect.pending_target (heffect : Effect b b') (h : b.Phases) (hrunning : b.call ≠ .idle)
    (hmoved : b'.call ≠ b.call) (htarget : b.target = some k) :
    (∀ j, j ≠ k → (j ∈ b'.pending ↔ j ∈ b.pending)) ∧ k ∉ b'.pending := by
  have hiff := heffect.pending_iff h hrunning hmoved
  rw [htarget] at hiff
  constructor
  · intro j hj
    rw [hiff j]
    exact and_iff_left fun hkj => hj (Option.some.inj hkj).symm
  · intro hk
    exact ((hiff k).mp hk).2 rfl

end Broadcaster

end TagGateway.Broadcast.Shared
