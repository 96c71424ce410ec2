import TagGateway.Proxy.Coalescing

/-!
# What a reply depends on

A request that joins nobody else's fetch is answered by what happens to itself
alone. Its own events are its arrival, the entry it may see, what serving that
entry gave, upstream's answers to its own forwards and the pace at which it reads
them. A view of the state that these events determine is carried along every
run; whatever the other requests do leaves it as it is.
-/
namespace TagGateway.Proxy.Coalescing

open Foundation Cache Broadcast

namespace Stream

def only (st : Stream) (i : ℕ) : Stream :=
  { st with broadcaster := st.broadcaster.only (.client i), registered := false }

variable (st : Stream) (i : ℕ)

theorem only_answer (r : ReadRequest) (resp : Response) :
    (st.answer r resp).only i = (st.only i).answer r resp := by
  simp only [only, answer, Broadcaster.only_setHeaders]

theorem only_read (body : Bytes) (n : ℕ) : (st.read body n).only i = (st.only i).read body n := by
  simp only [only, read, Broadcaster.only_broadcast]

theorem only_complete (err : Option StreamError) :
    (st.complete err).only i = (st.only i).complete err := by
  simp only [only, complete, Broadcaster.only_complete]

theorem only_receive (rcv : Receiver) :
    (st.only i).receive i rcv = (st.receive i rcv).map fun p => (p.1.only i, p.2) := by
  simp only [receive, only, Broadcaster.only_table_self, Option.map_bind]
  congr 1
  funext l
  simp only [Function.comp_apply, Option.map_map]
  congr 1
  funext p
  simp only [Function.comp_apply, Broadcaster.only_setListener]

theorem only_cancel (rcv : Receiver) : (st.only i).cancel i rcv = st.cancel i rcv := by
  simp only [cancel, only, Broadcaster.only_table_self]

theorem only_setListener {k : Subscriber} (hk : Subscriber.client i ≠ k) (l : Listener) :
    ({ st with broadcaster := st.broadcaster.setListener k l } : Stream).only i = st.only i := by
  simp only [only, Broadcaster.only_setListener_ne _ hk]

theorem only_subscribe {k : Subscriber} (hk : Subscriber.client i ≠ k)
    {bc : Broadcaster Subscriber} (h : st.broadcaster.subscribe k = some bc) :
    ({ st with broadcaster := bc } : Stream).only i = st.only i := by
  simp only [only, Broadcaster.only_subscribe_ne hk h]

end Stream

variable (cfg : ReadConfig) (reqs : ℕ → ReadRequest)

theorem only_freshStream (registered : Bool) (i : ℕ) :
    (freshStream cfg registered).only i = freshStream cfg false := by
  simp [Stream.only, freshStream, Broadcaster.only, Broadcaster.new]

/-- A fetch of its own that request `i` listens to and nothing else happened
to. -/
def ownStream (i : ℕ) : Stream :=
  { freshStream cfg false with
    broadcaster := ((Broadcaster.new cfg.channelBuffer).subscribe (.client i)).getD
      (.new cfg.channelBuffer) }

inductive View where
  | outside (phase : Option Phase)
  | listening (st : Stream) (rcv : Receiver)

/-- The way to a fetch of its own is hidden, and so is a revalidation that
changes nothing. -/
def viewAt (i : ℕ) : Option Phase → Option Stream → View
  | some (.routed .coalesce), _ => .listening (ownStream cfg i) {}
  | some (.found _), _ => .listening (ownStream cfg i) {}
  | some .created, _ => .listening (ownStream cfg i) {}
  | some (.routed (.revalidate m)), _ => .outside (some (.routed (.serve m true)))
  | some (.receiving _ rcv), some st => .listening st rcv
  | some (.receiving _ _), none => .outside none
  | phase, _ => .outside phase

def view (i : ℕ) (w : World) : View := viewAt cfg i (w.phases i) ((w.streams i).map (·.only i))

/-- A label as an event of request `r`. Of the cache it only has the entry the
request may see; the steps on the way to a fetch are not events. -/
def visibleEvent (r : ReadRequest) : Label → Option Label
  | .lookup i entry => some (.lookup i (visibleEntry cfg r entry))
  | .revalidate _ _ _ | .getOrCreate _ | .subscribe _ | .attachCache _ | .drainCache _
  | .remove _ => none
  | l => some l

def ownEvent (r : ReadRequest) (i : ℕ) (l : Label) : Option Label :=
  if l.owner = i then visibleEvent cfg r l else none

def act (r : ReadRequest) (i : ℕ) : View → Label → View
  | .outside none, .arrive _ =>
    viewAt cfg i (some (((arrivalRoute cfg r).map .routed).getD .looking)) none
  | .outside (some .looking), .lookup _ entry =>
    viewAt cfg i (some (.routed (lookupRoute cfg r entry))) none
  | .outside (some (.routed (.serve m revalidated))), .serve _ outcome =>
    viewAt cfg i (some (afterServe cfg r m revalidated outcome)) none
  | .outside (some (.routed (.forward xCache))), .forward _ d =>
    .outside (some (.finished (.upstream xCache d)))
  | .listening st rcv, .answer _ resp => .listening (st.answer r resp) rcv
  | .listening st rcv, .read _ n =>
    st.rest.elim (.listening st rcv) fun body => .listening (st.read body n) rcv
  | .listening st rcv, .complete _ err => .listening (st.complete err) rcv
  | .listening st rcv, .receive _ =>
    (st.receive i rcv).elim (.listening st rcv) fun p =>
      viewAt cfg i (some (afterReceive cfg r i p.2)) (some p.1)
  | .listening st rcv, .cancel _ =>
    (st.cancel i rcv).elim (.listening st rcv) fun d =>
      viewAt cfg i (some (afterReceive cfg r i (.inr d))) none
  | v, _ => v

/-- Request `i` joins no fetch of another, since the one it is handed streams
already, and no revalidation of its entry finds a new version. -/
def Isolated (i : ℕ) (w : World) : Label → Prop
  | .subscribe j => j = i →
      ((w.handed i).bind w.streams).all (fun st => st.broadcaster.streaming) = true
  | .revalidate j resp _ => j = i → changed (reqs i) resp = false
  | _ => True

instance (i : ℕ) (w : World) : (l : Label) → Decidable (Isolated reqs i w l)
  | .subscribe j => inferInstanceAs (Decidable (j = i → _))
  | .revalidate j _ _ => inferInstanceAs (Decidable (j = i → _))
  | .arrive _ | .lookup _ _ | .serve _ _ | .forward _ _ | .getOrCreate _ | .attachCache _
  | .answer _ _ | .read _ _ | .complete _ _ | .drainCache _ | .receive _ | .cancel _
  | .remove _ => .isTrue trivial

/-- How the fetch named `i` stands while request `i` is in a phase. -/
def OwnAt (i : ℕ) : Option Phase → Option Stream → Prop
  | some .created, st => st = some (freshStream cfg false)
  | some (.receiving b _), st => b = i ∧ st.isSome = true
  | some (.finished _), _ => True
  | _, st => st = none

def Own (i : ℕ) (w : World) : Prop := OwnAt cfg i (w.phases i) ((w.streams i).map (·.only i))

/-- What a fetch does apart from its listeners. -/
def Label.isApart : Label → Bool
  | .attachCache _ | .drainCache _ | .remove _ => true
  | _ => false

structure SameFor (i : ℕ) (w w' : World) : Prop where
  phases : w'.phases i = w.phases i
  streams : (w'.streams i).map (·.only i) = (w.streams i).map (·.only i)

variable {cfg reqs} {i : ℕ} {w w' : World}

theorem sameFor_setPhase {j : ℕ} (hj : j ≠ i) (phase : Phase) : SameFor i w (setPhase w j phase) :=
  ⟨Function.update_of_ne hj.symm _ _, rfl⟩

theorem sameFor_setStream {b : ℕ} {st : Stream}
    (h : b = i → (w.streams i).map (·.only i) = some (st.only i)) :
    SameFor i w (setStream w b st) := by
  refine ⟨rfl, ?_⟩
  by_cases hb : b = i
  · rw [h hb]
    simp [setStream, hb]
  · simp [setStream, Ne.symm hb]

theorem SameFor.setPhase {j : ℕ} (h : SameFor i w w') (hj : j ≠ i) (phase : Phase) :
    SameFor i w (setPhase w' j phase) :=
  ⟨(Function.update_of_ne hj.symm _ _).trans h.phases, h.streams⟩

theorem Stream.only_of_receive {j : ℕ} {st st' : Stream} {rcv : Receiver}
    {next : Receiver ⊕ Delivery} (hj : j ≠ i) (h : st.receive j rcv = some (st', next)) :
    st'.only i = st.only i := by
  obtain ⟨l, -, h⟩ := Option.bind_eq_some_iff.mp h
  obtain ⟨p, -, hp⟩ := Option.map_eq_some_iff.mp h
  simp only [Prod.mk.injEq] at hp
  rw [← hp.1]
  exact st.only_setListener i (by simpa using hj.symm) p.1

/-- The steps of the others, and what a fetch does apart from its listeners,
change nothing for request `i`. -/
theorem Effect.sameFor {l : Label} (h : Effect cfg reqs w l w')
    (hl : l.owner = i → l.isApart = true) : SameFor i w w' := by
  have hne : l.isApart = false → l.owner ≠ i := fun hapart howner =>
    absurd (hapart.symm.trans (hl howner)) (by simp)
  cases h with
  | arrive => exact sameFor_setPhase (hne rfl) _
  | lookup => exact sameFor_setPhase (hne rfl) _
  | serve => exact sameFor_setPhase (hne rfl) _
  | revalidate => exact sameFor_setPhase (hne rfl) _
  | forward => exact sameFor_setPhase (hne rfl) _
  | find => exact sameFor_setPhase (hne rfl) _
  | cancel => exact sameFor_setPhase (hne rfl) _
  | create =>
    obtain ⟨hphases, hstreams⟩ :=
      (sameFor_setStream fun h => absurd h (hne rfl)).setPhase (hne rfl) .created
    exact ⟨hphases, hstreams⟩
  | @join j b st bc hph hst hsub =>
    refine (sameFor_setStream fun hb => ?_).setPhase (hne rfl) _
    have hj : j ≠ i := hne rfl
    subst hb
    rw [hst, st.only_subscribe b (by simpa using hj.symm) hsub]
    rfl
  | late => exact (sameFor_setStream fun h => absurd h (hne rfl)).setPhase (hne rfl) _
  | start => exact (sameFor_setStream fun h => absurd h (hne rfl)).setPhase (hne rfl) _
  | @attachCache j st bc hst _ _ hsub =>
    refine sameFor_setStream fun hj => ?_
    subst hj
    rw [hst, st.only_subscribe j (by simp) hsub]
    rfl
  | answer => exact sameFor_setStream fun h => absurd h (hne rfl)
  | read => exact sameFor_setStream fun h => absurd h (hne rfl)
  | complete => exact sameFor_setStream fun h => absurd h (hne rfl)
  | @drainCache j st l hst =>
    refine sameFor_setStream fun hj => ?_
    subst hj
    rw [hst, st.only_setListener j (by simp)]
    rfl
  | @receive j b rcv st st' next hph hst hrcv =>
    refine (sameFor_setStream fun hb => ?_).setPhase (hne rfl) _
    subst hb
    rw [hst, Stream.only_of_receive (hne rfl) hrcv]
    rfl
  | @remove j reply st hph hst =>
    have hstream : SameFor i w (setStream w j { st with registered := false }) := by
      refine sameFor_setStream fun hj => ?_
      subst hj
      rw [hst]
      rfl
    exact ⟨hstream.phases, hstream.streams⟩

theorem SameFor.view_eq (h : SameFor i w w') : view cfg i w' = view cfg i w := by
  simp only [view, h.phases, h.streams]

theorem SameFor.own (h : SameFor i w w') (hown : Own cfg i w) : Own cfg i w' := by
  rw [Own, h.phases, h.streams]
  exact hown

/-- The fetch of request `i` runs only while `i` listens to it or has left. -/
theorem Own.phase_of_running {st : Stream} (h : Own cfg i w) (hst : w.streams i = some st)
    (hrun : st.running i = true) :
    (∃ rcv, w.phases i = some (.receiving i rcv)) ∨ ∃ reply, w.phases i = some (.finished reply) := by
  rw [Own, hst, Option.map_some] at h
  unfold OwnAt at h
  split at h
  next =>
    have htable := congrArg (fun st : Stream => st.broadcaster.table (.client i))
      (Option.some.inj h)
    simp only [Stream.only, Broadcaster.only_table_self, freshStream, Broadcaster.new] at htable
    simp [Stream.running, htable] at hrun
  next b rcv hph => exact .inl ⟨rcv, by rw [hph, h.1]⟩
  next reply hph => exact .inr ⟨reply, hph⟩
  next => simp at h

theorem fetch_event {st st' : Stream} {l : Label} {r : ReadRequest} (hown : Own cfg i w)
    (hst : w.streams i = some st) (hrun : st.running i = true)
    (hact : ∀ rcv, act cfg r i (.listening (st.only i) rcv) l = .listening (st'.only i) rcv)
    (hout : ∀ phase, act cfg r i (.outside phase) l = .outside phase) :
    Own cfg i (setStream w i st') ∧
      view cfg i (setStream w i st') = act cfg r i (view cfg i w) l := by
  rcases hown.phase_of_running hst hrun with ⟨rcv, hph⟩ | ⟨reply, hph⟩
  · simp only [Own, view, setStream, Function.update_self, hph, hst, Option.map_some, viewAt, hact]
    exact ⟨⟨rfl, rfl⟩, trivial⟩
  · simp only [Own, view, setStream, Function.update_self, hph, hst, Option.map_some, viewAt, hout]
    exact ⟨trivial, trivial⟩

theorem phase_event {phase : Phase} (phase' : Phase) (hph : w.phases i = some phase)
    (hown : Own cfg i w) (hnone : ∀ st, OwnAt cfg i (some phase) st → st = none)
    (hnext : OwnAt cfg i (some phase') none) :
    Own cfg i (setPhase w i phase') ∧
      view cfg i (setPhase w i phase') = viewAt cfg i (some phase') none := by
  rw [Own, hph] at hown
  have hst := hnone _ hown
  simp only [Own, view, setPhase, Function.update_self, hst]
  exact ⟨hnext, trivial⟩

theorem only_of_subscribe {st : Stream} {bc : Broadcaster Subscriber}
    (hst : st.only i = freshStream cfg false)
    (hsub : st.broadcaster.subscribe (.client i) = some bc) :
    ({ st with broadcaster := bc } : Stream).only i = ownStream cfg i := by
  have hnew : st.broadcaster.only (.client i) = .new cfg.channelBuffer :=
    congrArg Stream.broadcaster hst
  have hrest : st.rest = none := congrArg Stream.rest hst
  have hbc := Broadcaster.only_subscribe hsub
  rw [hnew] at hbc
  simp only [Stream.only, ownStream, freshStream, hbc, hrest, Option.getD_some]

theorem own_step {l : Label} (hown : Own cfg i w) (hiso : Isolated reqs i w l)
    (h : Effect cfg reqs w l w') (hl : l.owner = i) (hapart : l.isApart = false) :
    Own cfg i w' ∧ view cfg i w' =
      (visibleEvent cfg (reqs i) l).elim (view cfg i w) (act cfg (reqs i) i (view cfg i w)) := by
  subst hl
  cases h with
  | @arrive i hph =>
    have hst : (w.streams i).map (·.only i) = none := by
      rw [Label.owner, Own, hph] at hown
      exact hown
    simp only [Own, view, setPhase, Label.owner, Function.update_self, hst, hph, visibleEvent,
      Option.elim_some, act, viewAt]
    refine ⟨?_, trivial⟩
    cases arrivalRoute cfg (reqs i) <;> rfl
  | @lookup i entry hph =>
    obtain ⟨hown', hview⟩ := phase_event (.routed (lookupRoute cfg (reqs i) entry)) hph hown
      (fun _ h => h) rfl
    refine ⟨hown', hview.trans ?_⟩
    simp only [visibleEvent, Option.elim_some, view, hph, viewAt, act, Label.owner,
      lookupRoute_visibleEntry]
  | @serve i m revalidated outcome hph _ =>
    obtain ⟨hown', hview⟩ :=
      phase_event (afterServe cfg (reqs i) m revalidated outcome) hph hown
        (fun _ h => h) (by cases outcome <;> trivial)
    refine ⟨hown', hview.trans ?_⟩
    simp only [visibleEvent, Option.elim_some, view, hph, viewAt, act, Label.owner]
  | @revalidate i m resp err hph =>
    have hsame : changed (reqs i) resp = false := hiso rfl
    rw [afterRevalidate_of_unchanged hsame]
    obtain ⟨hown', hview⟩ := phase_event (.routed (.serve m true)) hph hown
      (fun _ h => h) rfl
    refine ⟨hown', hview.trans ?_⟩
    simp only [visibleEvent, Option.elim_none, view, hph, viewAt, Label.owner]
  | @forward i xCache d hph =>
    obtain ⟨hown', hview⟩ := phase_event (.finished (.upstream xCache d)) hph hown
      (fun _ h => h) trivial
    refine ⟨hown', hview.trans ?_⟩
    simp only [visibleEvent, Option.elim_some, view, hph, viewAt, act, Label.owner]
  | @find i b hph _ =>
    obtain ⟨hown', hview⟩ := phase_event (.found b) hph hown (fun _ h => h) rfl
    refine ⟨hown', hview.trans ?_⟩
    simp only [visibleEvent, Option.elim_none, view, hph, viewAt, Label.owner]
  | @create i hph _ =>
    simp only [Own, view, setPhase, setStream, Label.owner, Function.update_self, hph,
      Option.map_some, visibleEvent, Option.elim_none, viewAt]
    exact ⟨congrArg some (only_freshStream cfg true i), trivial⟩
  | @join i b st bc hph hst hsub =>
    have hall := hiso rfl
    simp only [Label.owner, World.handed, hph, Option.bind_some, hst, Option.all_some] at hall
    simp [Broadcaster.subscribe, hall] at hsub
  | @late i b st hph _ _ =>
    simp only [Own, view, setPhase, setStream, Label.owner, Function.update_self, hph,
      Option.map_some, visibleEvent, Option.elim_none, viewAt]
    exact ⟨congrArg some (only_freshStream cfg false i), trivial⟩
  | @start i st bc hph hst hsub =>
    rw [Label.owner, Own, hph, hst] at hown
    simp only [Own, view, setPhase, setStream, Label.owner, Function.update_self, hph, hst,
      Option.map_some, visibleEvent, Option.elim_none, viewAt,
      only_of_subscribe (Option.some.inj hown) hsub]
    exact ⟨⟨rfl, rfl⟩, trivial⟩
  | answer hst hrun _ =>
    exact fetch_event hown hst hrun (fun rcv => by simp [act, Stream.only_answer, Label.owner])
      (fun phase => by simp [act])
  | @read i n st body hst hrun hrest =>
    refine fetch_event hown hst hrun (fun rcv => ?_) (fun phase => by simp [act])
    have hbody : (st.only i).rest = some body := hrest
    simp [act, hbody, Stream.only_read, Label.owner]
  | complete hst hrun _ =>
    exact fetch_event hown hst hrun (fun rcv => by simp [act, Stream.only_complete])
      (fun phase => by simp [act])
  | @receive i b rcv st st' next hph hst hrcv =>
    rw [Label.owner, Own, hph] at hown
    obtain ⟨rfl, -⟩ := hown
    have honly : (st.only b).receive b rcv = some (st'.only b, next) := by
      rw [Stream.only_receive, hrcv]
      rfl
    simp only [Own, view, setPhase, setStream, Label.owner, Function.update_self, hph, hst,
      Option.map_some, visibleEvent, Option.elim_some, viewAt, act, honly]
    refine ⟨?_, trivial⟩
    cases next with
    | inl rcv' => exact ⟨rfl, rfl⟩
    | inr d => trivial
  | @cancel i b rcv st d hph hst hd =>
    rw [Label.owner, Own, hph] at hown
    obtain ⟨rfl, -⟩ := hown
    have honly : (st.only b).cancel b rcv = some d := by rw [Stream.only_cancel, hd]
    simp only [Own, view, setPhase, Label.owner, Function.update_self, hph, hst,
      Option.map_some, visibleEvent, Option.elim_some, viewAt, act, honly, afterReceive]
    exact ⟨trivial, trivial⟩
  | attachCache => simp [Label.isApart] at hapart
  | drainCache => simp [Label.isApart] at hapart
  | remove => simp [Label.isApart] at hapart

theorem view_step {l : Label} (hown : Own cfg i w) (hiso : Isolated reqs i w l)
    (h : step cfg reqs w l = some w') :
    Own cfg i w' ∧ view cfg i w' =
      (ownEvent cfg (reqs i) i l).elim (view cfg i w) (act cfg (reqs i) i (view cfg i w)) := by
  have heffect := step_effect h
  unfold ownEvent
  split_ifs with hl
  · by_cases hapart : l.isApart = true
    · have hsame : SameFor i w w' := heffect.sameFor fun _ => hapart
      refine ⟨hsame.own hown, ?_⟩
      have hhidden : visibleEvent cfg (reqs i) l = none := by
        cases l <;> first | rfl | simp [Label.isApart] at hapart
      rw [hhidden, Option.elim_none, hsame.view_eq]
    · exact own_step hown hiso heffect hl (by simpa using hapart)
  · have hsame := heffect.sameFor fun howner => absurd howner hl
    exact ⟨hsame.own hown, hsame.view_eq⟩

def View.reply : View → Option Reply
  | .outside (some (.finished reply)) => some reply
  | _ => none

theorem reply_view (i : ℕ) (w : World) : (view cfg i w).reply = w.reply i := by
  simp only [view, World.reply]
  generalize (w.streams i).map (·.only i) = st
  cases w.phases i with
  | none => rfl
  | some phase =>
    cases phase with
    | routed route => cases route <;> rfl
    | receiving b rcv => cases st <;> rfl
    | looking | found b | created | finished reply => rfl

theorem reply_of_ownEvents {ls : List Label} (hrun : run (step cfg reqs) initial ls = some w)
    (hiso : Along (step cfg reqs) (Isolated reqs i) initial ls) :
    w.reply i = ((ls.filterMap (ownEvent cfg (reqs i) i)).foldl (act cfg (reqs i) i)
      (.outside none)).reply := by
  have hstep : ∀ w l w', Own cfg i w → Isolated reqs i w l → step cfg reqs w l = some w' →
      Own cfg i w' ∧ view cfg i w' =
        (ownEvent cfg (reqs i) i l).elim (view cfg i w) (act cfg (reqs i) i (view cfg i w)) :=
    fun _ _ _ => view_step
  have hinit : Own cfg i initial := rfl
  rw [← reply_view i w, run_view hstep hinit hiso hrun]
  rfl

/-- In two runs with the same request `i`, not validated locally, the same events
of that request give it the same reply, and of the cache these events have
public entries only. -/
theorem unvalidated_reply_isolated (cfg : ReadConfig) {reqs reqs' : ℕ → ReadRequest} {i : ℕ}
    (hreq : reqs' i = reqs i) (hauth : (reqs i).auth = .notValidated) {ls ls' : List Label}
    {w w' : World} (hrun : run (step cfg reqs) initial ls = some w)
    (hrun' : run (step cfg reqs') initial ls' = some w')
    (hiso : Along (step cfg reqs) (Isolated reqs i) initial ls)
    (hiso' : Along (step cfg reqs') (Isolated reqs' i) initial ls')
    (hown : ls.filterMap (ownEvent cfg (reqs i) i) = ls'.filterMap (ownEvent cfg (reqs i) i)) :
    w.reply i = w'.reply i ∧ ∀ m, .lookup i (some m) ∈ ls.filterMap (ownEvent cfg (reqs i) i) →
      (reqs i).isAnonymousRequest = true ∧ m.isPublicRead = true := by
  refine ⟨?_, ?_⟩
  · rw [reply_of_ownEvents hrun hiso, reply_of_ownEvents hrun' hiso', hreq, hown]
  · intro m hm
    obtain ⟨l, -, hl⟩ := List.mem_filterMap.mp hm
    unfold ownEvent at hl
    split_ifs at hl
    cases l with
    | lookup j entry =>
      simp only [visibleEvent, Option.some.injEq, Label.lookup.injEq] at hl
      exact isPublicRead_of_visibleEntry cfg (reqs i) hauth hl.2
    | _ => simp [visibleEvent] at hl

def anonymousRead : ReadRequest where
  bucket := ascii "b"
  key := ascii "k"
  auth := .notValidated

def pair (authorization : String) (i : ℕ) : ReadRequest :=
  if i = 0 then signedRead authorization else anonymousRead

def lateRun (resp denied : Response) : List Label :=
  [.arrive 0, .lookup 0 none, .getOrCreate 0, .subscribe 0, .answer 0 resp, .arrive 1,
    .lookup 1 none, .getOrCreate 1, .read 0 8, .subscribe 1, .subscribe 1, .answer 1 denied,
    .read 1 8, .complete 1 none] ++ List.replicate 4 (.receive 1)

def aloneRun (denied : Response) : List Label :=
  [.arrive 1, .lookup 1 none, .getOrCreate 1, .subscribe 1, .answer 1 denied, .read 1 8,
    .complete 1 none] ++ List.replicate 4 (.receive 1)

theorem unvalidated_reply_isolated_late :
    ∃ w w', run (step readConfig (pair "owner")) initial
        (lateRun (plainResponse 200 "secret") (plainResponse 403 "denied")) = some w ∧
      run (step readConfig (pair "other")) initial (aloneRun (plainResponse 403 "denied")) = some w' ∧
      w.reply 1 = w'.reply 1 := by
  have hlate : ∃ w, run (step readConfig (pair "owner")) initial
      (lateRun (plainResponse 200 "secret") (plainResponse 403 "denied")) = some w ∧ True :=
    exists_run_of_any (by decide +kernel)
  have halone : ∃ w, run (step readConfig (pair "other")) initial
      (aloneRun (plainResponse 403 "denied")) = some w ∧ True :=
    exists_run_of_any (by decide +kernel)
  obtain ⟨w, hw, -⟩ := hlate
  obtain ⟨w', hw', -⟩ := halone
  have hreq : pair "other" 1 = pair "owner" 1 := by simp [pair]
  have hauth : (pair "owner" 1).auth = .notValidated := by simp [pair, anonymousRead]
  exact ⟨w, w', hw, hw', (unvalidated_reply_isolated readConfig hreq hauth hw hw'
    (by decide +kernel) (by decide +kernel) (by decide +kernel)).1⟩

/-- The anonymous read has the same events in both runs and its own request never
goes upstream; it gets what upstream gives the signed read, the object in one run
and a refusal in the other. -/
theorem unvalidated_reply_follows_another :
    anonymousRead.auth = .notValidated ∧
      (joinRun (plainResponse 200 "secret") 4).filterMap (ownEvent readConfig anonymousRead 1) =
        (joinRun (plainResponse 403 "denied") 4).filterMap (ownEvent readConfig anonymousRead 1) ∧
      (∃ w, run (step readConfig (pair "owner")) initial (joinRun (plainResponse 200 "secret") 4) =
        some w ∧ w.reply 1 = some (.upstream .miss ⟨some (200, .empty), ascii "secret", none⟩)) ∧
      ∃ w, run (step readConfig (pair "other")) initial (joinRun (plainResponse 403 "denied") 4) =
        some w ∧ w.reply 1 = some (.upstream .miss ⟨some (403, .empty), ascii "denied", none⟩) := by
  refine ⟨rfl, by decide +kernel, ?_, ?_⟩
  · exact exists_run_of_any (by decide +kernel)
  · exact exists_run_of_any (by decide +kernel)

end TagGateway.Proxy.Coalescing
