import TagGateway.Proxy.Coalescing

/-!
# What a reader of a shared fetch gets

A finished read was answered from an entry it may see, or with what upstream
answered to a request whose fetch it listened to: the same head, and the bytes
in order. Which fetches it may listen to is a parameter.
-/
namespace TagGateway.Proxy.Coalescing

open Foundation Cache Broadcast

/-- What was passed on belongs to this response: its head, up to an inferred ACL,
its bytes from the start, and all of them when nothing went wrong. -/
structure Delivery.Of (d : Delivery) (resp : Response) : Prop where
  head : ∀ head, d.head = some head →
    ∃ inferred, head = (resp.status, withInferredACL inferred resp.header)
  body : d.body <+: resp.body
  whole : d.err = none → d.head.isSome = true ∧ d.body = resp.body

/-- Upstream answers request `i`, sent with the client's own credentials, by
`answers i`. -/
def Answers (answers : ℕ → Response) : Label → Prop
  | .answer i resp => resp = answers i
  | .forward i d => d.Of (answers i)
  | _ => True

/-- A fetch has passed on the head of `resp` and the part of its body that is not
left. -/
structure Stream.Relays (st : Stream) (resp : Response) : Prop where
  sound : st.broadcaster.Sound
  unanswered : st.rest = none → st.broadcaster.headers = none ∧ st.broadcaster.sent = []
  head : ∀ head, st.broadcaster.headers = some head →
    ∃ inferred, head = (resp.status, withInferredACL inferred resp.header)
  body : ∀ rest, st.rest = some rest → st.broadcaster.sent ++ rest = resp.body
  clean : st.broadcaster.done = true → st.broadcaster.err = none → st.rest = some []

/-- What a listener has taken so far. -/
structure Receiver.Takes (rcv : Receiver) (b : Broadcaster Subscriber) (i : ℕ) : Prop where
  delivers : ∃ l, b.Delivers (.client i) rcv.body l
  head : ∀ head, rcv.head = some head → b.headers = some head

/-- What a finished response says about the broadcast it came from. -/
structure Delivery.Ends (d : Delivery) (b : Broadcaster Subscriber) : Prop where
  head : ∀ head, d.head = some head → b.headers = some head
  body : d.body <+: b.sent
  whole : d.err = none → d.head.isSome = true ∧ b.done = true ∧ b.err = none ∧ d.body = b.sent

namespace Stream.Relays

variable {st : Stream} {resp : Response}

theorem fresh (cfg : ReadConfig) (registered : Bool) (resp : Response) :
    (freshStream cfg registered).Relays resp :=
  ⟨.new _, fun _ => ⟨rfl, rfl⟩, by rintro _ ⟨⟩, by rintro _ ⟨⟩, by rintro ⟨⟩⟩

theorem sent_prefix (h : st.Relays resp) : st.broadcaster.sent <+: resp.body := by
  cases hrest : st.rest with
  | none =>
    rw [(h.unanswered hrest).2]
    exact List.nil_prefix
  | some rest => exact ⟨rest, h.body rest hrest⟩

theorem subscribe (h : st.Relays resp) {k : Subscriber} {bc : Broadcaster Subscriber}
    (hsub : st.broadcaster.subscribe k = some bc) :
    ({ st with broadcaster := bc } : Stream).Relays resp := by
  have hsound := h.sound.subscribe hsub
  simp only [Broadcaster.subscribe, Option.ite_none_left_eq_some, Option.some.injEq] at hsub
  obtain ⟨-, rfl⟩ := hsub
  exact ⟨hsound, h.unanswered, h.head, h.body, h.clean⟩

theorem setListener (h : st.Relays resp) (k : Subscriber) (l : Listener) :
    ({ st with broadcaster := st.broadcaster.setListener k l } : Stream).Relays resp :=
  ⟨⟨h.sound.unsent, h.sound.failed⟩, h.unanswered, h.head, h.body, h.clean⟩

theorem answer (h : st.Relays resp) (r : ReadRequest) (hrest : st.rest = none)
    (hdone : st.broadcaster.done = false) : (st.answer r resp).Relays resp := by
  refine ⟨h.sound.setHeaders _ _, ?_, ?_, ?_, ?_⟩
  · rintro ⟨⟩
  · rintro head ⟨rfl⟩
    exact ⟨_, rfl⟩
  · rintro rest ⟨rfl⟩
    exact (congrArg (· ++ resp.body) (h.unanswered hrest).2).trans (List.nil_append _)
  · intro hd
    exact absurd (hdone.symm.trans hd) (by simp)

theorem read (h : st.Relays resp) {body : Bytes} (hrest : st.rest = some body)
    (hdone : st.broadcaster.done = false) (n : ℕ) : (st.read body n).Relays resp := by
  have hbody := h.body body hrest
  unfold Stream.read
  refine ⟨h.sound.broadcast _, by rintro ⟨⟩, ?_, ?_, ?_⟩
  · intro head hhead
    refine h.head head ?_
    simpa only [Broadcaster.broadcast, apply_ite Broadcaster.headers, ite_self] using hhead
  · rintro rest ⟨rfl⟩
    simp only [Broadcaster.broadcast, apply_ite Broadcaster.sent]
    split_ifs with htake
    · rw [← hbody]
      nth_rewrite 2 [← List.take_append_drop n body]
      rw [htake, List.nil_append]
    · rw [List.append_assoc, List.take_append_drop, hbody]
  · intro hd
    simp only [Broadcaster.broadcast, apply_ite Broadcaster.done, ite_self] at hd
    exact absurd (hdone.symm.trans hd) (by simp)

theorem complete (h : st.Relays resp) {err : Option StreamError}
    (hdone : st.broadcaster.done = false) (hrest : err = none → st.rest = some []) :
    (st.complete err).Relays resp := by
  have hsound := h.sound.complete err
  unfold Stream.complete
  rw [Broadcaster.complete, if_neg (by simp [hdone])] at hsound ⊢
  refine ⟨hsound, h.unanswered, h.head, h.body, fun _ herr => hrest ?_⟩
  by_contra hne
  have hfinal : st.broadcaster.finalErr err = err := by simp [Broadcaster.finalErr, hne]
  exact hne (hfinal.symm.trans herr)

end Stream.Relays

namespace Receiver.Takes

variable {rcv : Receiver} {b b' : Broadcaster Subscriber} {i : ℕ}

theorem subscribe {bc : Broadcaster Subscriber} (hs : b.Sound)
    (hsub : b.subscribe (.client i) = some bc) : ({} : Receiver).Takes bc i :=
  ⟨⟨_, .subscribe hs hsub⟩, by rintro _ ⟨⟩⟩

theorem subscribe_ne (h : rcv.Takes b i) {k : Subscriber} (hk : Subscriber.client i ≠ k)
    (hsub : b.subscribe k = some b') : rcv.Takes b' i := by
  obtain ⟨⟨l, hl⟩, hhead⟩ := h
  refine ⟨⟨l, hl.subscribe_ne hk hsub⟩, ?_⟩
  simp only [Broadcaster.subscribe, Option.ite_none_left_eq_some, Option.some.injEq] at hsub
  obtain ⟨-, rfl⟩ := hsub
  exact hhead

theorem setListener_ne (h : rcv.Takes b i) {k : Subscriber} (hk : Subscriber.client i ≠ k)
    (l' : Listener) : rcv.Takes (b.setListener k l') i := by
  obtain ⟨⟨l, hl⟩, hhead⟩ := h
  exact ⟨⟨l, hl.setListener_ne hk l'⟩, hhead⟩

theorem setHeaders (h : rcv.Takes b i) (hnone : b.headers = none) (status : ℕ) (header : Header) :
    rcv.Takes (b.setHeaders status header) i := by
  obtain ⟨⟨l, hl⟩, hhead⟩ := h
  refine ⟨hl.setHeaders hnone status header, fun head hrcv => ?_⟩
  exact absurd (hnone.symm.trans (hhead head hrcv)) (by simp)

theorem broadcast (h : rcv.Takes b i) (hdone : b.done = false) (data : Bytes) :
    rcv.Takes (b.broadcast data) i := by
  obtain ⟨⟨l, hl⟩, hhead⟩ := h
  refine ⟨hl.broadcast hdone data, fun head hrcv => ?_⟩
  simpa only [Broadcaster.broadcast, apply_ite Broadcaster.headers, ite_self] using hhead head hrcv

theorem complete (h : rcv.Takes b i) (err : Option StreamError) : rcv.Takes (b.complete err) i := by
  obtain ⟨⟨l, hl⟩, hhead⟩ := h
  refine ⟨hl.complete err, fun head hrcv => ?_⟩
  simpa only [Broadcaster.complete, apply_ite Broadcaster.headers, ite_self] using hhead head hrcv

theorem ends (h : rcv.Takes b i) (e : StreamError) : (rcv.delivery (some e)).Ends b := by
  obtain ⟨⟨l, hl⟩, hhead⟩ := h
  refine ⟨fun head hd => ?_, (List.prefix_append _ _).trans hl.sent, by rintro ⟨⟩⟩
  simp only [delivery, Option.ite_none_right_eq_some] at hd
  exact hhead head hd.2

theorem step {l l' : Listener} {next : Receiver ⊕ Delivery} (h : rcv.Takes b i)
    (hl : b.table (.client i) = some l) (hstep : rcv.step l = some (l', next)) :
    (∀ rcv', next = .inl rcv' → rcv'.Takes (b.setListener (.client i) l') i) ∧
      ∀ d, next = .inr d → d.Ends b := by
  obtain ⟨l₀, hdel⟩ := h.delivers
  obtain rfl : l₀ = l := Option.some.inj (hdel.table.symm.trans hl)
  unfold Receiver.step at hstep
  split at hstep
  next hhead =>
    -- waiting for the headers
    split_ifs at hstep with hready
    split at hstep
    next e he =>
      obtain ⟨rfl, rfl⟩ := by simpa using hstep
      exact ⟨by simp, by simpa using h.ends e⟩
    next herr =>
      obtain ⟨rfl, rfl⟩ := by simpa using hstep
      refine ⟨?_, by simp⟩
      rintro rcv' ⟨rfl⟩
      refine ⟨⟨l₀, ?_⟩, fun head hh => hdel.headers head hh⟩
      exact ⟨by simp [Broadcaster.setListener], hdel.live, hdel.active, hdel.cut, hdel.sent,
        hdel.clean, hdel.headers, hdel.ready⟩
  next head hhead =>
    split at hstep
    next c queue hq =>
      split at hstep
      next e he =>
        obtain ⟨rfl, rfl⟩ := by simpa using hstep
        exact ⟨by simp, by simpa using h.ends e⟩
      next he =>
        obtain ⟨rfl, rfl⟩ := by simpa using hstep
        refine ⟨?_, by simp⟩
        rintro rcv' ⟨rfl⟩
        exact ⟨⟨_, hdel.take hq⟩, fun head hh => h.head head hh⟩
    next hq =>
      split_ifs at hstep with hclosed
      split at hstep
      next e he =>
        obtain ⟨rfl, rfl⟩ := by simpa using hstep
        exact ⟨by simp, by simpa using h.ends e⟩
      next herr =>
        -- the queue is drained and closed without an error
        obtain ⟨rfl, rfl⟩ := by simpa using hstep
        refine ⟨by simp, ?_⟩
        rintro d ⟨rfl⟩
        obtain ⟨hdone, hnone, hsent⟩ := hdel.clean hclosed herr
        have hall : rcv.body = b.sent := by simpa [Listener.payload, hq] using hsent
        refine ⟨fun x hx => h.head x (hhead.trans hx), hall ▸ List.prefix_rfl, fun _ => ?_⟩
        exact ⟨rfl, hdone, hnone, hall⟩

end Receiver.Takes

theorem Delivery.Ends.of {d : Delivery} {st : Stream} {resp : Response}
    (h : d.Ends st.broadcaster) (hst : st.Relays resp) : d.Of resp := by
  refine ⟨fun head hd => hst.head head (h.head head hd), h.body.trans hst.sent_prefix, ?_⟩
  intro herr
  obtain ⟨hhead, hdone, hnone, hbody⟩ := h.whole herr
  refine ⟨hhead, ?_⟩
  rw [hbody, ← hst.body [] (hst.clean hdone hnone), List.append_nil]

def Shows (r : ReadRequest) (m : CachedObjectMeta) : Prop :=
  r.isAnonymousRequest = true → m.isPublicRead = true

def RouteShows (r : ReadRequest) : Route → Prop
  | .revalidate m | .serve m _ => Shows r m
  | .forward _ | .coalesce => True

/-- The reads that are looked at, and the fetches each of them may join. -/
structure JoinPolicy where
  concerns : ℕ → Prop
  accepts : ℕ → ℕ → Prop
  own : ∀ i, concerns i → accepts i i

section

variable (p : JoinPolicy) (reqs : ℕ → ReadRequest) (answers : ℕ → Response)

/-- A fetch that can still be joined is joined as the policy says, and no
revalidation finds a new version. -/
def JoinPolicy.Admits (w : World) : Label → Prop
  | .subscribe i => p.concerns i → ∀ b st, w.phases i = some (.found b) → w.streams b = some st →
      st.broadcaster.streaming = false → p.accepts b i
  | .revalidate i resp _ => p.concerns i → changed (reqs i) resp = false
  | _ => True

/-- Fetch `b` is one that request `i` may have its answer from. -/
structure JoinPolicy.Source (i b : ℕ) : Prop where
  accepts : p.concerns i → p.accepts b i
  key : (reqs b).broadcastKey = (reqs i).broadcastKey

def JoinPolicy.Allows (i : ℕ) : Reply → Prop
  | .notModified m => Shows (reqs i) m
  | .cached m parts _ => Shows (reqs i) m ∧ ∀ part ∈ parts, part.ofVersion m = true
  | .revalidated _ _ => ¬ p.concerns i
  | .upstream _ d => ∃ b, p.Source reqs i b ∧ d.Of (answers b)

def PhaseOk (streams : ℕ → Option Stream) (i : ℕ) : Phase → Prop
  | .looking => streams i = none
  | .routed route => streams i = none ∧ RouteShows (reqs i) route
  | .found b => streams i = none ∧ (reqs b).broadcastKey = (reqs i).broadcastKey
  | .created => True
  | .receiving b rcv => p.Source reqs i b ∧ ∃ st, streams b = some st ∧ rcv.Takes st.broadcaster i
  | .finished reply => p.Allows reqs answers i reply

structure Faithful (w : World) : Prop where
  registry : ∀ key b, w.active key = some b → (reqs b).broadcastKey = key
  unborn : ∀ i, w.phases i = none → w.streams i = none
  phase : ∀ i phase, w.phases i = some phase → PhaseOk p reqs answers w.streams i phase
  stream : ∀ b st, w.streams b = some st → st.Relays (answers b)

end

variable {cfg : ReadConfig} {p : JoinPolicy} {reqs : ℕ → ReadRequest} {answers : ℕ → Response}
  {w w' : World} {i b : ℕ}

theorem JoinPolicy.source_self (p : JoinPolicy) (reqs : ℕ → ReadRequest) (i : ℕ) :
    p.Source reqs i i := ⟨p.own i, rfl⟩

theorem lookupRoute_shows (cfg : ReadConfig) (r : ReadRequest) (entry : Option CachedObjectMeta) :
    RouteShows r (lookupRoute cfg r entry) := by
  unfold lookupRoute
  cases hentry : visibleEntry cfg r entry with
  | none =>
    simp only [missRoute]
    split_ifs <;> trivial
  | some m =>
    have hshows : Shows r m := by
      intro hanon
      have hr : r.auth = .notValidated := by
        simp only [ReadRequest.isAnonymousRequest, Bool.and_eq_true, beq_iff_eq] at hanon
        exact hanon.1
      exact (isPublicRead_of_visibleEntry cfg r hr hentry).2
    simp only [missRoute]
    split_ifs <;> first | exact hshows | trivial

theorem fallbackRoute_shows (cfg : ReadConfig) (r : ReadRequest) (revalidated : Bool) :
    RouteShows r (fallbackRoute cfg r revalidated) := by
  unfold fallbackRoute missRoute
  split_ifs <;> trivial

theorem PhaseOk.relay {streams : ℕ → Option Stream} {st st' : Stream} {phase : Phase}
    (h : PhaseOk p reqs answers streams i phase) (hst : streams b = some st)
    (htakes : ∀ rcv, phase = .receiving b rcv → rcv.Takes st.broadcaster i →
      rcv.Takes st'.broadcaster i) :
    PhaseOk p reqs answers (Function.update streams b (some st')) i phase := by
  have hnone : streams i = none → Function.update streams b (some st') i = none := by
    intro hi
    have hne : i ≠ b := by
      rintro rfl
      exact absurd (hi.symm.trans hst) (by simp)
    exact (Function.update_of_ne hne _ _).trans hi
  cases phase with
  | looking => exact hnone h
  | routed route => exact ⟨hnone h.1, h.2⟩
  | found c => exact ⟨hnone h.1, h.2⟩
  | created => trivial
  | receiving c rcv =>
    obtain ⟨hsource, s, hs, htake⟩ := h
    refine ⟨hsource, ?_⟩
    by_cases hc : c = b
    · subst hc
      obtain rfl : st = s := Option.some.inj (hst.symm.trans hs)
      exact ⟨st', Function.update_self _ _ _, htakes rcv rfl htake⟩
    · exact ⟨s, (Function.update_of_ne hc _ _).trans hs, htake⟩
  | finished reply => exact h

theorem PhaseOk.create {streams : ℕ → Option Stream} {st : Stream} {phase : Phase}
    (h : PhaseOk p reqs answers streams i phase) (hb : streams b = none) (hi : i ≠ b) :
    PhaseOk p reqs answers (Function.update streams b (some st)) i phase := by
  have hsame : Function.update streams b (some st) i = streams i := Function.update_of_ne hi _ _
  cases phase with
  | looking => exact hsame.trans h
  | routed route => exact ⟨hsame.trans h.1, h.2⟩
  | found c => exact ⟨hsame.trans h.1, h.2⟩
  | created => trivial
  | receiving c rcv =>
    obtain ⟨hsource, s, hs, htake⟩ := h
    have hc : c ≠ b := by
      rintro rfl
      exact absurd (hb.symm.trans hs) (by simp)
    exact ⟨hsource, s, (Function.update_of_ne hc _ _).trans hs, htake⟩
  | finished reply => exact h

namespace Faithful

theorem setPhase (h : Faithful p reqs answers w) {phase : Phase}
    (hok : PhaseOk p reqs answers w.streams i phase) :
    Faithful p reqs answers (setPhase w i phase) where
  registry := h.registry
  unborn j hj := h.unborn j (ne_of_update_eq_none hj).2
  phase j phase' hj := by
    rcases update_eq_some_cases hj with ⟨rfl, rfl⟩ | hj
    · exact hok
    · exact h.phase j phase' hj
  stream := h.stream

theorem relay (h : Faithful p reqs answers w) {st st' : Stream} (hst : w.streams b = some st)
    (hrelays : st'.Relays (answers b))
    (htakes : ∀ j rcv, w.phases j = some (.receiving b rcv) → rcv.Takes st.broadcaster j →
      rcv.Takes st'.broadcaster j) : Faithful p reqs answers (setStream w b st') where
  registry := h.registry
  unborn j hj := by
    have hne : j ≠ b := by
      rintro rfl
      exact absurd ((h.unborn j hj).symm.trans hst) (by simp)
    exact (Function.update_of_ne hne _ _).trans (h.unborn j hj)
  phase j phase hj := by
    refine (h.phase j phase hj).relay hst ?_
    rintro rcv rfl
    exact htakes j rcv hj
  stream c s hs := by
    rcases update_eq_some_cases hs with ⟨rfl, rfl⟩ | hs
    · exact hrelays
    · exact h.stream c s hs

theorem relayAs (h : Faithful p reqs answers w) {st st' : Stream} {phase : Phase}
    (hst : w.streams b = some st) (hrelays : st'.Relays (answers b))
    (htakes : ∀ (j : ℕ) (rcv : Receiver), j ≠ i → rcv.Takes st.broadcaster j →
      rcv.Takes st'.broadcaster j)
    (hok : PhaseOk p reqs answers (Function.update w.streams b (some st')) i phase) :
    Faithful p reqs answers (Coalescing.setPhase (setStream w b st') i phase) := by
  -- between its two phases the request is no listener
  have hidle : Faithful p reqs answers (Coalescing.setPhase w i .created) := h.setPhase trivial
  have hrelay : Faithful p reqs answers (setStream (Coalescing.setPhase w i .created) b st') := by
    refine hidle.relay hst hrelays fun j rcv hj => htakes j rcv ?_
    rintro rfl
    simp [Coalescing.setPhase] at hj
  have heq : Coalescing.setPhase (setStream (Coalescing.setPhase w i .created) b st') i phase =
      Coalescing.setPhase (setStream w b st') i phase := by
    simp [Coalescing.setPhase, setStream]
  rw [← heq]
  exact hrelay.setPhase hok

theorem create (h : Faithful p reqs answers w) (hst : w.streams i = none) (registered : Bool) :
    Faithful p reqs answers
      (Coalescing.setPhase (setStream w i (freshStream cfg registered)) i .created) where
  registry := h.registry
  unborn j hj := by
    obtain ⟨hji, hj⟩ := ne_of_update_eq_none hj
    exact (Function.update_of_ne hji _ _).trans (h.unborn j hj)
  phase j phase hj := by
    by_cases hji : j = i
    · subst hji
      obtain rfl : Phase.created = phase := by simpa [Coalescing.setPhase] using hj
      trivial
    · have hphase := h.phase j phase ((Function.update_of_ne hji _ _).symm.trans hj)
      exact hphase.create hst hji
  stream c s hs := by
    rcases update_eq_some_cases hs with ⟨rfl, rfl⟩ | hs
    · exact .fresh cfg registered _
    · exact h.stream c s hs

theorem setActive (h : Faithful p reqs answers w) {active : Bytes → Option ℕ}
    (hactive : ∀ key b, active key = some b → (reqs b).broadcastKey = key) :
    Faithful p reqs answers { w with active := active } :=
  ⟨hactive, h.unborn, h.phase, h.stream⟩

theorem streams_none (h : Faithful p reqs answers w) {route : Route}
    (hph : w.phases i = some (.routed route)) : w.streams i = none :=
  (h.phase i _ hph).1

theorem source_of_join (h : Faithful p reqs answers w) {st : Stream} {bc : Broadcaster Subscriber}
    (hph : w.phases i = some (.found b)) (hst : w.streams b = some st)
    (hsub : st.broadcaster.subscribe (.client i) = some bc)
    (hadmits : p.Admits reqs w (.subscribe i)) : p.Source reqs i b := by
  have hopen : st.broadcaster.streaming = false := by
    by_contra hne
    simp [Broadcaster.subscribe, hne] at hsub
  exact ⟨fun hi => hadmits hi b st hph hst hopen, (h.phase i _ hph).2⟩

theorem step {l : Label} (h : Faithful p reqs answers w) (hanswers : Answers answers l)
    (hadmits : p.Admits reqs w l) (hstep : Coalescing.step cfg reqs w l = some w') :
    Faithful p reqs answers w' := by
  cases step_effect hstep with
  | @arrive i hph =>
    refine h.setPhase ?_
    unfold arrivalRoute
    split_ifs
    · exact ⟨h.unborn i hph, trivial⟩
    · exact h.unborn i hph
  | @lookup i entry hph =>
    have hst : w.streams i = none := h.phase i _ hph
    exact h.setPhase ⟨hst, lookupRoute_shows cfg (reqs i) entry⟩
  | @serve i m revalidated outcome hph hallowed =>
    obtain ⟨hst, hshows⟩ := h.phase i _ hph
    cases outcome with
    | notModified => exact h.setPhase hshows
    | body parts err => exact h.setPhase ⟨hshows, List.all_eq_true.mp hallowed⟩
    | unavailable => exact h.setPhase ⟨hst, fallbackRoute_shows cfg (reqs i) revalidated⟩
  | @revalidate i m resp err hph =>
    refine h.setPhase ?_
    cases hchanged : changed (reqs i) resp with
    | false =>
      rw [afterRevalidate_of_unchanged hchanged]
      obtain ⟨hst, hshows⟩ := h.phase i _ hph
      exact ⟨hst, hshows⟩
    | true =>
      have hout : ¬ p.concerns i := fun hi => absurd (hadmits hi) (by simp [hchanged])
      cases resp with
      | none => cases hchanged
      | some new =>
        rw [afterRevalidate, if_pos hchanged]
        exact hout
  | @forward i xCache d hph => exact h.setPhase ⟨i, p.source_self reqs i, hanswers⟩
  | @find i b hph hb =>
    refine h.setPhase ⟨h.streams_none hph, ?_⟩
    exact h.registry _ b (Option.filter_eq_some_iff.mp hb).1
  | @create i hph _ =>
    refine (h.create (h.streams_none hph) true).setActive fun key b hb => ?_
    rcases update_eq_some_cases hb with ⟨rfl, rfl⟩ | hb
    · rfl
    · exact h.registry key b hb
  | @join i b st bc hph hst hsub =>
    refine h.relayAs hst ((h.stream b st hst).subscribe hsub) ?_ ?_
    · intro j rcv hj htake
      exact htake.subscribe_ne (by simpa using hj) hsub
    · exact ⟨h.source_of_join hph hst hsub hadmits, _, Function.update_self _ _ _,
        .subscribe (h.stream b st hst).sound hsub⟩
  | @late i b st hph _ _ => exact h.create (h.phase i _ hph).1 false
  | @start i st bc hph hst hsub =>
    refine h.relayAs hst ((h.stream i st hst).subscribe hsub) ?_ ?_
    · intro j rcv hj htake
      exact htake.subscribe_ne (by simpa using hj) hsub
    · exact ⟨p.source_self reqs i, _, Function.update_self _ _ _, .subscribe (h.stream i st hst).sound hsub⟩
  | @attachCache i st bc hst _ _ hsub =>
    refine h.relay hst ((h.stream i st hst).subscribe hsub) fun j rcv _ htake => ?_
    exact htake.subscribe_ne (by simp) hsub
  | @answer i st resp hst hrun hrest =>
    have hrelays := h.stream i st hst
    obtain rfl : resp = answers i := hanswers
    refine h.relay hst (hrelays.answer (reqs i) hrest (Stream.not_done_of_running hrun)) ?_
    intro j rcv _ htake
    exact htake.setHeaders (hrelays.unanswered hrest).1 _ _
  | @read i n st body hst hrun hrest =>
    have hdone := Stream.not_done_of_running hrun
    refine h.relay hst ((h.stream i st hst).read hrest hdone n) fun j rcv _ htake => ?_
    exact htake.broadcast hdone _
  | @complete i st err hst hrun hrest =>
    have hdone := Stream.not_done_of_running hrun
    refine h.relay hst ((h.stream i st hst).complete hdone hrest) fun j rcv _ htake => ?_
    exact htake.complete err
  | @drainCache i st l hst _ =>
    refine h.relay hst ((h.stream i st hst).setListener _ _) fun j rcv _ htake => ?_
    exact htake.setListener_ne (by simp) _
  | @receive i b rcv st st' next hph hst hrcv =>
    obtain ⟨hsource, s, hs, htake⟩ := h.phase i _ hph
    obtain rfl : st = s := Option.some.inj (hst.symm.trans hs)
    obtain ⟨l, hl, hrcv⟩ := Option.bind_eq_some_iff.mp hrcv
    obtain ⟨⟨l', next'⟩, hnext, hpair⟩ := Option.map_eq_some_iff.mp hrcv
    obtain ⟨rfl, rfl⟩ := Prod.mk.inj hpair
    obtain ⟨hgoes, hends⟩ := htake.step hl hnext
    refine h.relayAs hst ((h.stream b st hst).setListener _ _) ?_ ?_
    · intro j rcv' hj htake'
      exact htake'.setListener_ne (by simpa using hj) _
    · cases next' with
      | inl rcv' => exact ⟨hsource, _, Function.update_self _ _ _, hgoes rcv' rfl⟩
      | inr d => exact ⟨b, hsource, (hends d rfl).of (h.stream b st hst)⟩
  | @cancel i b rcv st d hph hst hd =>
    obtain ⟨hsource, s, hs, htake⟩ := h.phase i _ hph
    obtain rfl : st = s := Option.some.inj (hst.symm.trans hs)
    obtain ⟨l, -, hd⟩ := Option.bind_eq_some_iff.mp hd
    simp only [Receiver.cancel, Option.ite_none_left_eq_some, Option.some.injEq] at hd
    obtain ⟨-, rfl⟩ := hd
    exact h.setPhase ⟨b, hsource, (htake.ends _).of (h.stream b st hst)⟩
  | @remove i reply st hph hst =>
    have hrelays := h.stream i st hst
    have hkept : Faithful p reqs answers (setStream w i { st with registered := false }) :=
      h.relay hst ⟨hrelays.sound, hrelays.unanswered, hrelays.head, hrelays.body, hrelays.clean⟩
        fun _ _ _ htake => htake
    refine hkept.setActive fun key b hb => ?_
    by_cases hkey : key = (reqs i).broadcastKey
    · simp [hkey] at hb
    · exact h.registry key b ((Function.update_of_ne hkey _ _).symm.trans hb)

end Faithful

theorem initial_faithful : Faithful p reqs answers initial :=
  ⟨by rintro _ _ ⟨⟩, fun _ _ => rfl, by rintro _ _ ⟨⟩, by rintro _ _ ⟨⟩⟩

/-- In a run that goes by the policy every reply comes from where it may. -/
theorem reply_source {ls : List Label} (hrun : run (step cfg reqs) initial ls = some w)
    (hanswers : ∀ l ∈ ls, Answers answers l)
    (hadmits : Along (step cfg reqs) (p.Admits reqs) initial ls) {reply : Reply}
    (hreply : w.reply i = some reply) : p.Allows reqs answers i reply := by
  have hfaithful : Faithful p reqs answers w :=
    run_invariant (fun _ _ _ hinv hguard hstep => hinv.step hguard.1 hguard.2 hstep)
      initial_faithful (hadmits.and_forall hanswers) hrun
  have hphase : w.phases i = some (.finished reply) := by
    unfold World.reply at hreply
    split at hreply
    next reply' hph => rw [hph, Option.some.inj hreply]
    next => simp at hreply
  exact hfaithful.phase i _ hphase

end TagGateway.Proxy.Coalescing
