import TagGateway.Broadcast.CallPhases

/-!
# What the listeners receive

What a listener got, has in hand and has queued is what was broadcast since it subscribed,
chunk by chunk: all of it while the listener is connected, but for the chunk that a running
call has yet to give it, and an initial part once it was cut off.
-/
namespace TagGateway.Broadcast.Shared

open Foundation List

universe u

variable {κ : Type u}

def Listener.data (mem : ℕ → Bytes) (l : Listener) : List Bytes :=
  l.got ++ l.hand.map mem ++ (l.ch.filterMap Chunk.data).map mem

/-- A listener has all that was sent to it. One that waits lacks the last chunk. -/
structure Listener.Follows (mem : ℕ → Bytes) (sent : List Bytes) (waiting : Prop) (l : Listener) :
    Prop where
  since : l.since ≤ sent.length
  initial : l.data mem <+: sent.drop l.since
  rest : l.disconnected = false → waiting → l.data mem ++ sent.getLast?.toList = sent.drop l.since
  all : l.disconnected = false → ¬ waiting → l.data mem = sent.drop l.since

namespace Listener

variable {mem mem' : ℕ → Bytes} {sent : List Bytes} {waiting waiting' : Prop} {l l' : Listener}
  {buf : ℕ} {data : Bytes}

theorem data_update (hbuf : buf ∉ l.bufs) : l.data (Function.update mem buf data) = l.data mem := by
  have hmap : ∀ bufs : List ℕ, buf ∉ bufs → bufs.map (Function.update mem buf data) = bufs.map mem := by
    intro bufs hnot
    apply map_congr_left
    intro c hc
    have hne : c ≠ buf := fun hcb => hnot (hcb ▸ hc)
    exact Function.update_of_ne hne _ _
  simp only [bufs, mem_append, not_or] at hbuf
  simp only [Listener.data, hmap _ hbuf.1.1, hmap _ hbuf.1.2]

theorem data_send : ({ l with ch := l.ch ++ [⟨some buf, none⟩] } : Listener).data mem =
    l.data mem ++ [mem buf] := by
  simp [Listener.data]

theorem data_closeWithError (channelBuf : ℕ) (err : Option StreamError) :
    (l.closeWithError channelBuf err).data mem = l.data mem := by
  unfold closeWithError Listener.data
  split <;> simp

namespace Follows

theorem same (h : l.Follows mem sent waiting) (hdata : l'.data mem' = l.data mem)
    (hsince : l'.since = l.since) (hdisc : l'.disconnected = l.disconnected)
    (hwaiting : waiting' ↔ waiting) : l'.Follows mem' sent waiting' where
  since := hsince ▸ h.since
  initial := by rw [hdata, hsince]; exact h.initial
  rest hd hw := by rw [hdata, hsince]; exact h.rest (hdisc ▸ hd) (hwaiting.mp hw)
  all hd hw := by rw [hdata, hsince]; exact h.all (hdisc ▸ hd) fun hold => hw (hwaiting.mpr hold)

theorem take (h : l.Follows mem sent waiting) (hw : waiting) (hconnected : l.disconnected = false)
    (hlast : sent.getLast? = some data) (hdata : l'.data mem' = l.data mem ++ [data])
    (hsince : l'.since = l.since) (hnot : ¬ waiting') : l'.Follows mem' sent waiting' := by
  have hall : l'.data mem' = sent.drop l'.since := by
    have hrest := h.rest hconnected hw
    rw [hlast] at hrest
    rw [hdata, hsince]
    exact hrest
  exact ⟨hsince ▸ h.since, hall ▸ prefix_rfl, fun _ hw' => absurd hw' hnot, fun _ _ => hall⟩

theorem cut (h : l.Follows mem sent waiting) (hdata : l'.data mem' = l.data mem)
    (hsince : l'.since = l.since) (hdisc : l'.disconnected = true) :
    l'.Follows mem' sent waiting' where
  since := hsince ▸ h.since
  initial := by rw [hdata, hsince]; exact h.initial
  rest hd := by rw [hdisc] at hd; cases hd
  all hd := by rw [hdisc] at hd; cases hd

theorem extend (h : l.Follows mem sent waiting) (hw : ¬ waiting)
    (hwaiting : l.disconnected = false → waiting') :
    l.Follows mem (sent ++ [data]) waiting' := by
  have hdrop : (sent ++ [data]).drop l.since = sent.drop l.since ++ [data] :=
    drop_append_of_le_length h.since
  constructor
  case since => exact Nat.le_trans h.since (by simp)
  case initial =>
    rw [hdrop]
    exact h.initial.trans (prefix_append _ _)
  case rest =>
    intro hd _
    rw [hdrop, h.all hd hw, getLast?_append]
    rfl
  case all => exact fun hd hnot => absurd (hwaiting hd) hnot

end Follows

theorem follows_new (hgot : l.got = []) (hhand : l.hand = [])
    (hch : l.ch.filterMap Chunk.data = []) (hsince : l.since = sent.length) (hw : ¬ waiting) :
    l.Follows mem sent waiting := by
  have hdata : l.data mem = sent.drop l.since := by
    simp [Listener.data, hgot, hhand, hch, hsince]
  exact ⟨hsince.le, hdata ▸ prefix_rfl, fun _ h => absurd h hw, fun _ _ => hdata⟩

end Listener

namespace Broadcaster

structure Delivers (b : Broadcaster κ) : Prop where
  current : b.call ≠ .idle → ∃ buf, b.input = some buf ∧ b.sent.getLast? = some (b.mem buf)
  follows : ∀ k l, b.table k = some l → l.Follows b.mem b.sent (k ∈ b.pending)

variable [DecidableEq κ] {b b' : Broadcaster κ} {k : κ} {l l' : Listener} {buf : ℕ}

namespace Delivers

omit [DecidableEq κ] in
theorem keep (h : b.Delivers) (htable : b'.table = b.table)
    (hmem : ∀ k l, b.table k = some l → l.data b'.mem = l.data b.mem) (hsent : b'.sent = b.sent)
    (hpending : ∀ k, k ∈ b'.pending ↔ k ∈ b.pending)
    (hcurrent : b'.call ≠ .idle → ∃ buf, b'.input = some buf ∧ b'.sent.getLast? = some (b'.mem buf)) :
    b'.Delivers where
  current := hcurrent
  follows k l hl := by
    rw [htable] at hl
    rw [hsent]
    exact (h.follows k l hl).same (hmem k l hl) rfl rfl (hpending k)

theorem update (h : b.Delivers) (htable : b'.table = Function.update b.table k (some l'))
    (hmem : ∀ j l, j ≠ k → b.table j = some l → l.data b'.mem = l.data b.mem)
    (hsent : b'.sent = b.sent) (hpending : ∀ j, j ≠ k → (j ∈ b'.pending ↔ j ∈ b.pending))
    (hfollows : l'.Follows b'.mem b.sent (k ∈ b'.pending))
    (hcurrent : b'.call ≠ .idle → ∃ buf, b'.input = some buf ∧ b'.sent.getLast? = some (b'.mem buf)) :
    b'.Delivers where
  current := hcurrent
  follows j l hl := by
    rw [htable] at hl
    rw [hsent]
    rcases update_eq_some_cases_ne hl with ⟨rfl, rfl⟩ | ⟨hj, hl⟩
    · exact hfollows
    · exact (h.follows j l hl).same (hmem j l hj hl) rfl rfl (hpending j hj)

end Delivers

omit [DecidableEq κ] in
theorem data_write {data : Bytes} (hfree : ∀ k, buf ∉ b.bufs (.listener k))
    (hl : b.table k = some l) : l.data (Function.update b.mem buf data) = l.data b.mem := by
  have hbuf := hfree k
  rw [bufs, holders_listener hl] at hbuf
  exact Listener.data_update hbuf

omit [DecidableEq κ] in
theorem leased_not_held {pool : List ℕ} {next : ℕ} (halloc : Allocated b.bufs b.next)
    (hlease : b.Leases buf pool next) (k : κ) : buf ∉ b.bufs (.listener k) :=
  (allocated_lease halloc hlease).2.1 (.listener k)

omit [DecidableEq κ] in
theorem input_ne_leased {pool : List ℕ} {next input : ℕ} (halloc : Allocated b.bufs b.next)
    (hlease : b.Leases buf pool next) (hin : b.input = some input) : input ≠ buf := by
  rintro rfl
  exact (allocated_lease halloc hlease).2.1 .producer (by simp [holders, hin])

omit [DecidableEq κ] in
theorem connected_of_pending (hphases : b.Phases) (hk : k ∈ b.pending) (hl : b.table k = some l) :
    l.disconnected = false := by
  have hdone : b.done = false := by
    apply (hphases.running _).1
    intro hcall
    simp [pending, hcall] at hk
  have hstatus := hphases.live hdone k (mem_append_right _ hk)
  exact congrArg Status.disconnected (connected_of_status hl hstatus)

theorem Effect.delivers (heffect : Effect b b') (halloc : Allocated b.bufs b.next)
    (hphases : b.Phases) (h : b.Delivers) : b'.Delivers := by
  have hwaiting := heffect.pending_iff hphases
  have htaken := fun hrunning hmoved k => heffect.pending_target hphases hrunning hmoved (k := k)
  cases heffect with
  | same => exact h
  | setHeaders => exact h.keep rfl (fun _ _ _ => rfl) rfl (fun _ => Iff.rfl) h.current
  | refill hcall hin =>
    refine h.keep rfl (fun k l hl => ?_) rfl (fun _ => Iff.rfl) fun hno => absurd hcall hno
    apply data_write _ hl
    exact fun j => halloc.not_mem (i := .producer) (by simp [bufs, holders, hin]) (by simp)
  | fill hcall hin hlease =>
    refine h.keep rfl (fun k l hl => ?_) rfl (fun _ => Iff.rfl) fun hno => absurd hcall hno
    exact data_write (leased_not_held halloc hlease) hl
  | broadcast owned hcall hdone hin hdata =>
    have hidle : ∀ k, k ∉ b.pending := by simp [pending, hcall]
    constructor
    case current => exact fun _ => ⟨_, hin, by simp⟩
    case follows =>
      intro k l hl
      apply (h.follows k l hl).extend (hidle k)
      intro hconnected
      have hmem := (hphases.mem_listeners hcall hdone hl).mpr hconnected
      cases owned <;> simpa [pending, passed] using hmem
  | searchNext hcall | searchEnd hcall | searchFound hcall =>
    refine h.keep rfl (fun _ _ _ => rfl) rfl (fun k => ?_) fun _ => h.current (by simp [hcall])
    rw [hwaiting (by simp [hcall]) (by simp [hcall])]
    simp [target, hcall]
  | copiesEnd hcall hi =>
    refine h.keep rfl (fun _ _ _ => rfl) rfl (fun k => ?_) fun hno => absurd rfl hno
    rw [hwaiting (by simp [hcall]) (by simp [hcall]), target_copies hcall rfl, hi]
    simp
  | copiesMade hcall hi =>
    refine h.keep rfl (fun _ _ _ => rfl) rfl (fun k => ?_) fun _ => h.current (by simp [hcall])
    rw [hwaiting (by simp [hcall]) (by simp [hcall])]
    simp [target, hcall, hi]
  | skip hcall hk hl hskip =>
    obtain rfl := hphases.owner_of_skip hcall hk hl hskip
    refine h.keep rfl (fun _ _ _ => rfl) rfl (fun k => ?_) fun _ => h.current (by simp [hcall])
    rw [hwaiting (by simp [hcall]) (by simp [hcall])]
    simp [target, hcall]
  | @copy owner i active position position' k l input buf next pool hcall hk hl howner hin hlease =>
    have hmem := mem_pending_of_copies hcall hk
    obtain ⟨hothers, hnot⟩ := htaken (by simp [hcall]) (by simp [hcall]) k
      ((target_copies hcall howner).trans hk)
    obtain ⟨current, hcurrent, hlast⟩ := h.current (by simp [hcall])
    obtain rfl : current = input := Option.some.inj (hcurrent.symm.trans hin)
    have hne := input_ne_leased halloc hlease hin
    refine h.update rfl (fun j l' _ hl' => data_write (leased_not_held halloc hlease) hl') rfl
      hothers ?_ fun _ => ⟨current, hin, ?_⟩
    · refine (h.follows k l hl).take hmem (connected_of_pending hphases hmem hl) hlast ?_ rfl hnot
      rw [Listener.data_send, data_write (leased_not_held halloc hlease) hl]
      simp only [Function.update_self]
    · simp only [Function.update_of_ne hne]
      exact hlast
  | @reject owner i active position k l input buf next pool hcall hk hl howner hin hlease =>
    obtain ⟨hothers, -⟩ := htaken (by simp [hcall]) (by simp [hcall]) k
      ((target_copies hcall howner).trans hk)
    obtain ⟨current, hcurrent, hlast⟩ := h.current (by simp [hcall])
    obtain rfl : current = input := Option.some.inj (hcurrent.symm.trans hin)
    have hne := input_ne_leased halloc hlease hin
    refine h.update rfl (fun j l' _ hl' => data_write (leased_not_held halloc hlease) hl') rfl
      hothers ?_ fun _ => ⟨current, hin, ?_⟩
    · have hsame : l.data (Function.update b.mem buf (b.mem current)) = l.data b.mem :=
        data_write (leased_not_held halloc hlease) hl
      exact (h.follows k l hl).cut hsame rfl rfl
    · simp only [Function.update_of_ne hne]
      exact hlast
  | @disconnect owner i active position k l hcall hl =>
    have htarget : b.target = some k := by simp only [target, hcall]
    obtain ⟨hothers, hnot⟩ := htaken (by simp [hcall]) (by simp [hcall]) k htarget
    have hout : k ∉ b.pending := fun hk =>
      (hphases.cut k (by simp only [cutting, hcall])).1 (mem_append_right _ hk)
    refine h.update rfl (fun _ _ _ _ => rfl) rfl hothers ?_ fun _ => h.current (by simp [hcall])
    exact (h.follows k l hl).same (Listener.data_closeWithError _ _) rfl rfl (iff_of_false hnot hout)
  | @handOver active position k l input hcall hl hin =>
    have hmem : k ∈ b.pending := by simp [pending, hcall]
    obtain ⟨hothers, hnot⟩ := htaken (by simp [hcall]) (by simp [hcall]) k
      (by simp only [target, hcall])
    obtain ⟨current, hcurrent, hlast⟩ := h.current (by simp [hcall])
    obtain rfl : current = input := Option.some.inj (hcurrent.symm.trans hin)
    refine h.update rfl (fun _ _ _ _ => rfl) rfl hothers ?_ fun hno => absurd rfl hno
    exact (h.follows k l hl).take hmem (connected_of_pending hphases hmem hl) hlast
      Listener.data_send rfl hnot
  | @rejectOwner active position k l hcall hl =>
    obtain ⟨hothers, -⟩ := htaken (by simp [hcall]) (by simp [hcall]) k
      (by simp only [target, hcall])
    refine h.update rfl (fun _ _ _ _ => rfl) rfl hothers ?_ fun _ => h.current (by simp [hcall])
    exact (h.follows k l hl).cut rfl rfl rfl
  | @disconnectOwner active k l hcall hl =>
    refine h.update rfl (fun _ _ _ _ => rfl) rfl (fun j hj => ?_) ?_ fun hno => absurd rfl hno
    · simp [pending, hcall]
    · exact (h.follows k l hl).same (Listener.data_closeWithError _ _) rfl rfl
        (by simp [pending, hcall])
  | complete err hcall hdone =>
    constructor
    case current => exact fun hno => absurd hcall hno
    case follows =>
      intro k l hl
      simp only at hl
      by_cases hk : k ∈ b.listeners
      · rw [if_pos hk] at hl
        obtain ⟨l₀, hl₀, rfl⟩ := Option.map_eq_some_iff.mp hl
        exact (h.follows k l₀ hl₀).same (Listener.data_closeWithError _ _) rfl rfl Iff.rfl
      · rw [if_neg hk] at hl
        exact (h.follows k l hl).same rfl rfl rfl Iff.rfl
  | @subscribe k hcall hk hstreaming hdone =>
    refine h.update rfl (fun _ _ _ _ => rfl) rfl (fun j _ => by simp [pending, hcall]) ?_
      fun hno => absurd hcall hno
    exact Listener.follows_new rfl rfl rfl rfl (by simp [pending, hcall])
  | @subscribeDone k hcall hk hstreaming hdone =>
    refine h.update rfl (fun _ _ _ _ => rfl) rfl (fun j _ => Iff.rfl) ?_
      fun hno => absurd hcall hno
    exact Listener.follows_new rfl rfl (by simp) rfl (by simp [pending, hcall])
  | @receive k l c ch hl hch =>
    refine h.update rfl (fun _ _ _ _ => rfl) rfl (fun _ _ => Iff.rfl) ?_ h.current
    refine (h.follows k l hl).same ?_ rfl rfl Iff.rfl
    have hdata : l.ch.filterMap Chunk.data = c.data.toList ++ ch.filterMap Chunk.data := by
      rw [hch, filterMap_cons]
      cases c.data <;> rfl
    simp [Listener.data, setListener, hdata]
  | @read k l buf hand hl hhand =>
    refine h.update rfl (fun _ _ _ _ => rfl) rfl (fun _ _ => Iff.rfl) ?_ h.current
    refine (h.follows k l hl).same ?_ rfl rfl Iff.rfl
    simp [Listener.data, setListener, hhand]
  | @release k l buf hl hbuf =>
    refine h.update rfl (fun _ _ _ _ => rfl) rfl (fun _ _ => Iff.rfl) ?_ h.current
    exact (h.follows k l hl).same rfl rfl rfl Iff.rfl

/-- The three invariants together, with what is sent never empty. -/
structure Sound (b : Broadcaster κ) : Prop where
  buffers : Allocated b.bufs b.next
  phases : b.Phases
  delivers : b.Delivers
  nonempty : ∀ data ∈ b.sent, data ≠ []

omit [DecidableEq κ] in
theorem sound_new (channelBuf : ℤ) : (new channelBuf : Broadcaster κ).Sound where
  buffers := by
    have hnone : ∀ holder : Holder κ, (new channelBuf : Broadcaster κ).bufs holder = [] := by
      intro holder
      cases holder <;> rfl
    exact ⟨⟨fun holder => by simp [hnone], fun hmem => by simp [hnone] at hmem⟩,
      fun holder buf hmem => by simp [hnone] at hmem⟩
  phases := by
    constructor <;> simp [new, Broadcaster.live, served, pending, cutting, status, SliceOk]
  delivers := by
    constructor <;> simp [new]
  nonempty := by simp [new]

theorem Effect.nonempty (heffect : Effect b b') (h : ∀ data ∈ b.sent, data ≠ []) :
    ∀ data ∈ b'.sent, data ≠ [] := by
  cases heffect with
  | broadcast owned hcall hdone hin hdata =>
    intro data hmem
    rcases mem_append.mp hmem with hmem | hmem
    · exact h data hmem
    · exact mem_singleton.mp hmem ▸ hdata
  | _ => exact h

theorem Sound.step (h : b.Sound) {a : Act κ} (hstep : b.step a = some b') : b'.Sound := by
  have heffect := step_effect h.phases.ready hstep
  exact ⟨heffect.allocated h.buffers, heffect.phases h.phases,
    heffect.delivers h.buffers h.phases h.delivers, heffect.nonempty h.nonempty⟩

theorem sound_of_run {channelBuf : ℤ} {acts : List (Act κ)}
    (hrun : run Broadcaster.step (new channelBuf) acts = some b) : b.Sound :=
  run_invariant (fun _ _ _ h _ hstep => h.step hstep) (sound_new channelBuf)
    (along_of_forall fun _ _ _ => trivial) hrun

omit [DecidableEq κ] in
theorem Phases.idle_of_done (h : b.Phases) (hdone : b.done = true) : b.call = .idle := by
  by_contra hcall
  simp [(h.running hcall).1] at hdone

omit [DecidableEq κ] in
theorem Phases.closed_of_done (h : b.Phases) (hdone : b.done = true) (hl : b.table k = some l) :
    l.closed = true := by
  have hidle := h.idle_of_done hdone
  have hended := h.ended k l.status (by simp [status, hl]) (.inl hdone) (by simp [cutting, hidle])
  rcases hended with hslow | ⟨-, hclean⟩
  · exact congrArg Status.closed hslow
  · exact congrArg Status.closed hclean

omit [DecidableEq κ] in
theorem Phases.of_closed (h : b.Phases) (hl : b.table k = some l) (hclosed : l.closed = true) :
    l.status = .slow ∨ b.done = true ∧ l.status = ⟨true, false, b.err⟩ := by
  have hstatus : b.status k = some l.status := by simp [status, hl]
  apply h.ended k l.status hstatus
  · by_cases hdone : b.done = true
    · exact .inl hdone
    · refine .inr fun hlive => ?_
      have hconnected := h.live (by simpa using hdone) k hlive
      rw [hstatus] at hconnected
      have hopen : l.closed = false := congrArg Status.closed (Option.some.inj hconnected)
      simp [hclosed] at hopen
  · intro hcutting
    have hcut := (h.cut k hcutting).2
    rw [hstatus] at hcut
    have hopen : l.closed = false := congrArg Status.closed (Option.some.inj hcut)
    simp [hclosed] at hopen

omit [DecidableEq κ] in
theorem Phases.termErr_eq_none_iff (h : b.Phases) (hl : b.table k = some l)
    (hclosed : l.closed = true) :
    l.termErr = none ↔ b.completion = some (none, true) ∧ l.disconnected = false := by
  rcases h.of_closed hl hclosed with hslow | ⟨hdone, hclean⟩
  · have hterm : l.termErr = some .slowConsumer := congrArg Status.termErr hslow
    have hdisc : l.disconnected = true := congrArg Status.disconnected hslow
    simp [hterm, hdisc]
  · have hterm : l.termErr = b.err := congrArg Status.termErr hclean
    have hdisc : l.disconnected = false := congrArg Status.disconnected hclean
    obtain ⟨err, headerSet, hcompletion, herr⟩ := h.completed hdone
    rw [hterm, herr, hcompletion, hdisc]
    cases err <;> cases headerSet <;> simp

/-- Whatever is subscribed, broadcast, given away and completed, with any buffer size and
any reading in between: a listener reads an initial part of the chunks that were broadcast
since it subscribed. No channel is closed twice or sent to after it was closed, and the
completion leaves none open. A closed listener has no error exactly if the broadcast was
completed without one, with headers, and it was never cut off; then its chunks are all
there to be read. -/
theorem listeners_read_broadcast {channelBuf : ℤ} {acts : List (Act κ)}
    (hrun : run Broadcaster.step (new channelBuf) acts = some b) :
    b.panicked = false ∧ ∀ k l, b.table k = some l →
      (l.got <+: b.sent.drop l.since ∧ ∀ data ∈ l.got, data ≠ []) ∧
      (b.done = true → l.closed = true) ∧
      (l.closed = true →
        (l.termErr = none ↔ b.completion = some (none, true) ∧ l.disconnected = false)) ∧
      (l.closed = true → l.termErr = none → l.data b.mem = b.sent.drop l.since) := by
  have h := sound_of_run hrun
  constructor
  · exact h.phases.calm
  · intro k l hl
    have hfollows := h.delivers.follows k l hl
    have hgot : l.got <+: b.sent.drop l.since :=
      ((prefix_append _ _).trans (prefix_append _ _)).trans hfollows.initial
    refine ⟨⟨hgot, fun data hmem => ?_⟩, fun hdone => h.phases.closed_of_done hdone hl,
      fun hclosed => h.phases.termErr_eq_none_iff hl hclosed, fun hclosed hterm => ?_⟩
    · exact h.nonempty data (mem_of_mem_drop (hgot.subset hmem))
    · obtain ⟨hcompletion, hconnected⟩ := (h.phases.termErr_eq_none_iff hl hclosed).mp hterm
      apply hfollows.all hconnected
      intro hwaiting
      -- a listener that waits for a chunk is open
      have hdone : b.done = true := by
        rcases h.phases.of_closed hl hclosed with hslow | ⟨hdone, -⟩
        · have hdisc : l.disconnected = true := congrArg Status.disconnected hslow
          simp [hconnected] at hdisc
        · exact hdone
      simp [pending, h.phases.idle_of_done hdone] at hwaiting

/-- Two listeners with room for one chunk. The second never reads. The first chunk's buffer
is given to the first listener, released by it and leased again for the second chunk. -/
def twoListeners : List (Act Bool) :=
  [.subscribe false, .subscribe true, .setHeaders, .fill none (ascii "ab"), .broadcast true,
    .advance none, .advance none, .advance none, .advance none, .advance none,
    .receive false, .read false, .release false 0, .fill (some 0) (ascii "cd"), .broadcast true,
    .advance none, .advance none, .advance none, .advance none, .advance none,
    .advance none, .complete none, .receive false, .read false]

theorem listeners_read_broadcast_two :
    ∃ b, run Broadcaster.step (new 1) twoListeners = some b ∧
      ((b.table false).map fun l => (l.got, l.termErr)) = some ([ascii "ab", ascii "cd"], none) ∧
      ((b.table true).map fun l => (l.closed, l.termErr)) = some (true, some .slowConsumer) ∧
      b.panicked = false := by
  have hrun : ∃ b, run Broadcaster.step (new 1) twoListeners = some b ∧
      ((b.table false).map fun l => (l.got, l.termErr)) = some ([ascii "ab", ascii "cd"], none) ∧
      ((b.table true).map fun l => (l.closed, l.termErr)) = some (true, some .slowConsumer) :=
    exists_run_of_any (by decide +kernel)
  obtain ⟨b, hb, hfirst, hsecond⟩ := hrun
  exact ⟨b, hb, hfirst, hsecond, (listeners_read_broadcast hb).1⟩

end Broadcaster

end TagGateway.Broadcast.Shared
