import TagGateway.Proxy.CacheListener
import TagGateway.Proxy.Relay

/-!
# A populate publishes the whole body

Every byte upstream sent is in one place on its way to the store: with the
listener, in the queue, in the pipe or read already. Where one of the processes
loses bytes, it leaves an error that closes the pipe, and no error closes it in a
way the store could take for the end.
-/
namespace TagGateway.Proxy.CacheListener

open Foundation Cache Broadcast Coalescing

theorem cachePipeReadError_ne_eof (e : ReadError) : cachePipeReadError e ≠ .eof := by
  unfold cachePipeReadError
  split_ifs with h
  · simp
  · exact fun heq => h (.inl heq)

theorem cachePipeReadError_ne_unexpectedEOF (e : ReadError) :
    cachePipeReadError e ≠ .unexpectedEOF := by
  unfold cachePipeReadError
  split_ifs with h
  · simp
  · exact fun heq => h (.inr heq)

def Writer.inPipe : Writer → Bytes
  | .writing left => left
  | _ => []

def Writer.failed : Writer → Bool
  | .draining _ | .done (some _) => true
  | _ => false

def Owner.queueClosed : Owner → Bool
  | .waitForWriter _ _ | .waitForStore => true
  | _ => false

/-- All that is past the owner: read, in the pipe or queued. -/
def World.forwarded (w : World) : Bytes := w.taken ++ w.writer.inPipe ++ w.queue.flatten

structure World.Idle (w : World) : Prop where
  store : w.store = .idle
  writer : w.writer = .waitForReader
  ready : w.ready = false
  taken : w.taken = []
  queue : w.queue = []

/-- Only what moves the bytes differs. -/
structure World.SameFrame (w w' : World) : Prop where
  stream : w'.stream = w.stream
  owner : w'.owner = w.owner
  closed : w'.closed = w.closed
  queueClosed : w'.queueClosed = w.queueClosed
  store : w'.store = w.store

section

variable {cfg : Config} {rcfg : ReadConfig} {errors : ℕ → ReadError} {r : ReadRequest}
  {resp : Response} {w w' : World}

/-- What the owner's place says about the bytes on their way. -/
def OwnerOk (resp : Response) (w : World) : Prop :=
  match w.owner with
  | .unattached => w.Idle
  | .waitForHeaders => w.Idle ∧ ∃ l, w.stream.broadcaster.Delivers .cache [] l
  | .relaying => ∃ got l, w.stream.broadcaster.Delivers .cache got l ∧
      (w.writer.failed = false → w.forwarded = got)
  | .discarding chunkErr relayErr => chunkErr ≠ none ∨ relayErr ≠ none
  | .waitForWriter chunkErr relayErr =>
    chunkErr = none → relayErr = none → w.writer.failed = false → w.forwarded = resp.body
  | .waitForStore => ∃ writeErr e, w.writer = .done writeErr ∧ w.closed = some e ∧
      e ≠ .unexpectedEOF ∧ (e = .eof → w.taken = resp.body)
  | .finished => w.store = .idle

/-- A row built from this response's headers, as to its length. -/
def DeclaresLength (resp : Response) (m : CachedObjectMeta) : Prop :=
  m.contentLength = declaredLength (resp.header.get (ascii "Content-Length"))

structure Sound (resp : Response) (w : World) : Prop where
  relays : w.stream.Relays resp
  owner : OwnerOk resp w
  queueClosed : w.queueClosed = true → w.owner.queueClosed = true
  writerDone : ∀ err, w.writer = .done err → w.queue = [] ∧ w.queueClosed = true
  closed : ∀ e, w.closed = some e → w.owner = .waitForStore ∨ w.owner = .finished
  reading : ∀ m, w.store = .reading m → DeclaresLength resp m
  published : ∀ result p, w.store = .finished result → result.published = some p →
    p.Holds resp.body ∧ DeclaresLength resp p.metadata

theorem stepFetch_keeps {st st' : Coalescing.Stream} {s : FetchStep} (h : st.Relays resp)
    (hstep : stepFetch r resp st s = some st') :
    st'.Relays resp ∧ ∀ got l, st.broadcaster.Delivers .cache got l →
      ∃ l', st'.broadcaster.Delivers .cache got l' := by
  cases s with
  | join i =>
    obtain ⟨bc, hsub, rfl⟩ := Option.map_eq_some_iff.mp hstep
    refine ⟨h.subscribe hsub, fun got l hl => ?_⟩
    exact ⟨l, hl.subscribe_ne (by simp) hsub⟩
  | client i l' =>
    cases hstep
    refine ⟨h.setListener _ _, fun got l hl => ?_⟩
    exact ⟨l, hl.setListener_ne (by simp) l'⟩
  | answer =>
    obtain ⟨⟨hrest, hdone⟩, hst⟩ := Option.ite_none_right_eq_some.mp hstep
    cases hst
    refine ⟨h.answer r hrest hdone, fun got l hl => ?_⟩
    exact hl.setHeaders (h.unanswered hrest).1 _ _
  | read n =>
    obtain ⟨body, hrest, hread⟩ := Option.bind_eq_some_iff.mp hstep
    obtain ⟨hdone, hst⟩ := Option.ite_none_right_eq_some.mp hread
    cases hst
    refine ⟨h.read hrest hdone n, fun got l hl => ?_⟩
    exact hl.broadcast hdone _
  | complete err =>
    obtain ⟨⟨hdone, hrest⟩, hst⟩ := Option.ite_none_right_eq_some.mp hstep
    cases hst
    refine ⟨h.complete hdone hrest, fun got l hl => ?_⟩
    exact hl.complete err

theorem Sound.fetch (h : Sound resp w) {s : FetchStep} {st : Coalescing.Stream}
    (hstep : stepFetch r resp w.stream s = some st) : Sound resp { w with stream := st } := by
  obtain ⟨hrelays, hkeeps⟩ := stepFetch_keeps h.relays hstep
  refine ⟨hrelays, ?_, h.queueClosed, h.writerDone, h.closed, h.reading, h.published⟩
  have howner := h.owner
  unfold OwnerOk at howner ⊢
  cases hw : w.owner with
  | waitForHeaders =>
    rw [hw] at howner
    obtain ⟨hidle, l, hl⟩ := howner
    exact ⟨⟨hidle.store, hidle.writer, hidle.ready, hidle.taken, hidle.queue⟩, hkeeps _ l hl⟩
  | relaying =>
    rw [hw] at howner
    obtain ⟨got, l, hl, hforwarded⟩ := howner
    obtain ⟨l', hl'⟩ := hkeeps got l hl
    exact ⟨got, l', hl', hforwarded⟩
  | unattached =>
    rw [hw] at howner
    exact ⟨howner.store, howner.writer, howner.ready, howner.taken, howner.queue⟩
  | _ =>
    rw [hw] at howner
    exact howner

theorem declaresLength_responseMeta (cfg : Config) (resp : Response) (inferred : Bool) (now : ℤ) :
    DeclaresLength resp
      (responseMeta cfg resp.status (withInferredACL inferred resp.header) now) := by
  unfold DeclaresLength responseMeta metaFromHTTPHeaders withInferredACL
  dsimp only
  split_ifs
  · rw [Header.get_set_ne _ _ (by decide)]
  · rfl

namespace Sound

theorem isOpen (h : Sound resp w) (ho : w.owner.queueClosed = false) (hne : w.owner ≠ .finished) :
    w.queueClosed = false ∧ w.closed = none := by
  constructor
  · by_contra hclosed
    exact absurd (ho.symm.trans (h.queueClosed (by simpa using hclosed))) (by simp)
  · by_contra hclosed
    obtain ⟨e, he⟩ := Option.ne_none_iff_exists'.mp hclosed
    rcases h.closed e he with heq | heq
    · simp [heq, Owner.queueClosed] at ho
    · exact hne heq

/-- The owner goes on while the queue is open; what is queued may change, too. -/
theorem turn (h : Sound resp w) {st : Coalescing.Stream} {o : Owner} {q : List Bytes}
    {s : StoreTask} (hw : w.owner.queueClosed = false) (hne : w.owner ≠ .finished)
    (hrelays : st.Relays resp)
    (hok : OwnerOk resp { w with stream := st, owner := o, queue := q, store := s })
    (hreading : ∀ m, s = .reading m → DeclaresLength resp m)
    (hpublished : ∀ result p, s = .finished result → result.published = some p →
      p.Holds resp.body ∧ DeclaresLength resp p.metadata) :
    Sound resp { w with stream := st, owner := o, queue := q, store := s } := by
  obtain ⟨hqueue, hpipe⟩ := h.isOpen hw hne
  refine ⟨hrelays, hok, by simp [hqueue], fun err hdone => ?_, by simp [hpipe], hreading, hpublished⟩
  exact absurd (hqueue.symm.trans (h.writerDone err hdone).2) (by simp)

theorem attach (h : Sound resp w) (ho : w.owner = .unattached) {bc : Broadcaster Subscriber}
    (hsub : w.stream.broadcaster.subscribe .cache = some bc) :
    Sound resp { w with
      stream := { w.stream with broadcaster := bc }, owner := .waitForHeaders } := by
  have hidle : w.Idle := by
    have howner := h.owner
    rwa [OwnerOk, ho] at howner
  refine h.turn (by rw [ho]; rfl) (by simp [ho]) (h.relays.subscribe hsub) ?_ h.reading h.published
  exact ⟨⟨hidle.store, hidle.writer, hidle.ready, hidle.taken, hidle.queue⟩,
    w.stream.broadcaster.newListener, .subscribe h.relays.sound hsub⟩

theorem leave (h : Sound resp w) (ho : w.owner = .waitForHeaders) (e : ReadError) :
    Sound resp { w with owner := .finished, closed := some e } := by
  have hidle : w.store = .idle := by
    have howner := h.owner
    rw [OwnerOk, ho] at howner
    exact howner.1.store
  have hopen := (h.isOpen (by rw [ho]; rfl) (by simp [ho])).1
  exact ⟨h.relays, hidle, by simp [hopen], h.writerDone, fun _ _ => .inr rfl, h.reading, h.published⟩

theorem onHeaders (h : Sound resp w) (ho : w.owner = .waitForHeaders) {now : ℤ} {l : Listener}
    (hl : w.listener = some l) (hstep : w.onHeaders cfg errors now l = some w') :
    Sound resp w' := by
  have howner := h.owner
  rw [OwnerOk, ho] at howner
  obtain ⟨hidle, l₀, hdelivers⟩ := howner
  obtain rfl : l₀ = l := Option.some.inj (hdelivers.table.symm.trans hl)
  unfold World.onHeaders at hstep
  split at hstep
  · split at hstep
    · cases hstep
      exact h.leave ho _
    · rename_i status header herr hheaders
      dsimp only at hstep
      split at hstep
      · cases hstep
        obtain ⟨inferred, hhead⟩ := h.relays.head _ (hdelivers.headers _ hheaders)
        obtain ⟨-, rfl⟩ := Prod.mk.inj hhead
        refine h.turn (by rw [ho]; rfl) (by simp [ho]) h.relays ⟨[], l₀, hdelivers, fun _ => ?_⟩ ?_
          (by simp)
        · simp [World.forwarded, hidle.taken, hidle.writer, hidle.queue, Writer.inPipe]
        · rintro m ⟨⟩
          exact declaresLength_responseMeta cfg resp inferred now
      · cases hstep
        exact h.leave ho _
    · cases hstep
  · cases hstep

theorem giveUp (h : Sound resp w) (ho : w.owner = .relaying) (l : Listener)
    {chunkErr relayErr : Option StreamError} (herr : chunkErr ≠ none ∨ relayErr ≠ none) :
    Sound resp { w.setListener l with owner := .discarding chunkErr relayErr } :=
  h.turn (by rw [ho]; rfl) (by simp [ho]) (h.relays.setListener _ _) herr h.reading h.published

theorem closeQueue (h : Sound resp w) (hopen : w.closed = none)
    {chunkErr relayErr : Option StreamError}
    (hbody : chunkErr = none → relayErr = none → w.writer.failed = false →
      w.forwarded = resp.body) :
    Sound resp { w with owner := .waitForWriter chunkErr relayErr, queueClosed := true } :=
  ⟨h.relays, hbody, fun _ => rfl, fun err hdone => ⟨(h.writerDone err hdone).1, rfl⟩,
    by simp [hopen], h.reading, h.published⟩

theorem relay (h : Sound resp w) (ho : w.owner = .relaying) {l : Listener}
    (hl : w.listener = some l) (hstep : w.relay rcfg l = some w') : Sound resp w' := by
  have howner := h.owner
  rw [OwnerOk, ho] at howner
  obtain ⟨got, l₀, hdelivers, hforwarded⟩ := howner
  obtain rfl : l₀ = l := Option.some.inj (hdelivers.table.symm.trans hl)
  have hopen : w.owner.queueClosed = false := by rw [ho]; rfl
  unfold World.relay at hstep
  split at hstep
  · rename_i c queue hq
    have htake := hdelivers.take hq
    dsimp only at hstep
    split at hstep
    · cases hstep
      exact h.giveUp ho _ (by simp)
    · split at hstep
      · rename_i hempty
        cases hstep
        rw [hempty, List.append_nil] at htake
        refine h.turn hopen (by simp [ho]) (h.relays.setListener _ _) ?_ h.reading h.published
        rw [OwnerOk, ho]
        exact ⟨got, _, htake, hforwarded⟩
      · split at hstep
        · cases hstep
          refine h.turn hopen (by simp [ho]) (h.relays.setListener _ _) ?_ h.reading h.published
          rw [OwnerOk, show (w.setListener _).owner = .relaying from ho]
          refine ⟨_, _, htake, fun hfine => ?_⟩
          rw [← hforwarded hfine]
          simp [World.forwarded]
        · cases hstep
  · rename_i hq
    split at hstep
    · rename_i hclosed
      cases hstep
      apply h.closeQueue (h.isOpen hopen (by simp [ho])).2
      intro hterm _ hfine
      -- a clean end: everything that was sent is past the owner
      obtain ⟨hdone, herr, hsent⟩ := hdelivers.clean hclosed hterm
      have hbody := h.relays.body [] (h.relays.clean hdone herr)
      have hpayload : l₀.payload = [] := by simp [Listener.payload, hq]
      rw [hpayload, List.append_nil] at hsent
      rw [hforwarded hfine, hsent, ← hbody, List.append_nil]
    · cases hstep

theorem relayExpired (h : Sound resp w) (ho : w.owner = .relaying) {l : Listener}
    (hstep : w.relayExpired l = some w') : Sound resp w' := by
  unfold World.relayExpired at hstep
  split at hstep
  · split at hstep
    · cases hstep
      exact h.giveUp ho _ (by simp)
    · cases hstep
  · cases hstep

theorem discard (h : Sound resp w) {chunkErr relayErr : Option StreamError}
    (ho : w.owner = .discarding chunkErr relayErr) {l : Listener}
    (hstep : w.discard chunkErr relayErr l = some w') : Sound resp w' := by
  have herr : chunkErr ≠ none ∨ relayErr ≠ none := by
    have howner := h.owner
    rwa [OwnerOk, ho] at howner
  have hopen : w.owner.queueClosed = false := by rw [ho]; rfl
  unfold World.discard at hstep
  split at hstep
  · cases hstep
    refine h.turn hopen (by simp [ho]) (h.relays.setListener _ _) ?_ h.reading h.published
    rw [OwnerOk, ho]
    exact herr
  · split at hstep
    · cases hstep
      apply h.closeQueue (h.isOpen hopen (by simp [ho])).2
      intro hchunk hrelay
      rcases herr with hne | hne
      · exact absurd hchunk hne
      · exact absurd hrelay hne
    · cases hstep

end Sound

theorem pipeEnd_eq_eof {chunkErr relayErr : Option StreamError} {writeErr : Option ReadError}
    (h : World.pipeEnd errors chunkErr relayErr writeErr = .eof) :
    chunkErr = none ∧ relayErr = none ∧ writeErr = none := by
  unfold World.pipeEnd at h
  split at h
  · exact absurd h (cachePipeReadError_ne_eof _)
  · exact absurd h (cachePipeReadError_ne_eof _)
  · exact absurd h (cachePipeReadError_ne_eof _)
  · exact ⟨rfl, rfl, rfl⟩

theorem pipeEnd_ne_unexpectedEOF (chunkErr relayErr : Option StreamError)
    (writeErr : Option ReadError) :
    World.pipeEnd errors chunkErr relayErr writeErr ≠ .unexpectedEOF := by
  unfold World.pipeEnd
  split
  · exact cachePipeReadError_ne_unexpectedEOF _
  · exact cachePipeReadError_ne_unexpectedEOF _
  · exact cachePipeReadError_ne_unexpectedEOF _
  · simp

namespace Sound

theorem closePipe (h : Sound resp w) {chunkErr relayErr : Option StreamError}
    {writeErr : Option ReadError} (ho : w.owner = .waitForWriter chunkErr relayErr)
    (hw : w.writer = .done writeErr) :
    Sound resp { w with
      owner := .waitForStore
      closed := some (World.pipeEnd errors chunkErr relayErr writeErr) } := by
  have howner := h.owner
  rw [OwnerOk, ho] at howner
  constructor
  · exact h.relays
  · refine ⟨writeErr, _, hw, rfl, pipeEnd_ne_unexpectedEOF _ _ _, fun heof => ?_⟩
    obtain ⟨hchunk, hrelay, rfl⟩ := pipeEnd_eq_eof heof
    have hbody := howner hchunk hrelay (by rw [hw]; rfl)
    simpa [World.forwarded, hw, Writer.inPipe, (h.writerDone _ hw).1] using hbody
  · exact fun _ => rfl
  · exact h.writerDone
  · exact fun _ _ => .inl rfl
  · exact h.reading
  · exact h.published

theorem stepOwner (h : Sound resp w) {s : OwnerStep}
    (hstep : w.stepOwner cfg rcfg errors resp s = some w') : Sound resp w' := by
  cases s with
  | attach =>
    obtain ⟨⟨ho, -⟩, hattach⟩ := Option.ite_none_right_eq_some.mp hstep
    obtain ⟨bc, hsub, rfl⟩ := Option.map_eq_some_iff.mp hattach
    exact h.attach ho hsub
  | headers now =>
    obtain ⟨ho, hheaders⟩ := Option.ite_none_right_eq_some.mp hstep
    obtain ⟨l, hl, hheaders⟩ := Option.bind_eq_some_iff.mp hheaders
    exact h.onHeaders ho hl hheaders
  | cancel =>
    obtain ⟨ho, hw⟩ := Option.ite_none_right_eq_some.mp hstep
    cases hw
    exact h.leave ho _
  | relay =>
    obtain ⟨ho, hrelay⟩ := Option.ite_none_right_eq_some.mp hstep
    obtain ⟨l, hl, hrelay⟩ := Option.bind_eq_some_iff.mp hrelay
    exact h.relay ho hl hrelay
  | relayExpired =>
    obtain ⟨ho, hrelay⟩ := Option.ite_none_right_eq_some.mp hstep
    obtain ⟨l, -, hrelay⟩ := Option.bind_eq_some_iff.mp hrelay
    exact h.relayExpired ho hrelay
  | discard =>
    simp only [World.stepOwner] at hstep
    split at hstep
    · rename_i ho
      obtain ⟨l, -, hdiscard⟩ := Option.bind_eq_some_iff.mp hstep
      exact h.discard ho hdiscard
    · cases hstep
  | closePipe =>
    simp only [World.stepOwner] at hstep
    split at hstep
    · rename_i ho hw
      cases hstep
      exact h.closePipe ho hw
    · cases hstep

/-- The writer or the store moves bytes on: none is lost unless the writer fails. -/
theorem move (h : Sound resp w) (hframe : w.SameFrame w') (hidle : w.Idle → w'.Idle)
    (hfine : w'.writer.failed = false → w.writer.failed = false ∧ w'.forwarded = w.forwarded)
    (hdone : ∀ err, w'.writer = .done err → w'.queue = [] ∧ w'.queueClosed = true)
    (htaken : ∀ err, w.writer = .done err → w'.writer = .done err ∧ w'.taken = w.taken) :
    Sound resp w' := by
  obtain ⟨hstream, howner, hclosed, hqueueClosed, hstore⟩ := hframe
  refine ⟨hstream ▸ h.relays, ?_, ?_, hdone, ?_, ?_, ?_⟩
  · have hok := h.owner
    unfold OwnerOk at hok ⊢
    rw [howner]
    cases ho : w.owner with
    | unattached =>
      rw [ho] at hok
      exact hidle hok
    | waitForHeaders =>
      rw [ho] at hok
      obtain ⟨hidle', l, hl⟩ := hok
      exact ⟨hidle hidle', l, hstream ▸ hl⟩
    | relaying =>
      rw [ho] at hok
      obtain ⟨got, l, hl, hforwarded⟩ := hok
      refine ⟨got, l, hstream ▸ hl, fun hfine' => ?_⟩
      rw [(hfine hfine').2]
      exact hforwarded (hfine hfine').1
    | discarding chunkErr relayErr =>
      rw [ho] at hok
      exact hok
    | waitForWriter chunkErr relayErr =>
      rw [ho] at hok
      intro hchunk hrelay hfine'
      rw [(hfine hfine').2]
      exact hok hchunk hrelay (hfine hfine').1
    | waitForStore =>
      rw [ho] at hok
      obtain ⟨writeErr, e, hw, he, hne, htotal⟩ := hok
      obtain ⟨hw', htaken'⟩ := htaken _ hw
      exact ⟨writeErr, e, hw', hclosed ▸ he, hne, fun heof => htaken'.trans (htotal heof)⟩
    | finished =>
      rw [ho] at hok
      exact hstore.trans hok
  · rw [hqueueClosed, howner]
    exact h.queueClosed
  · rw [hclosed, howner]
    exact h.closed
  · rw [hstore]
    exact h.reading
  · rw [hstore]
    exact h.published

/-- The writer goes on, or the store reads from it. -/
theorem advance (h : Sound resp w) {wr : Writer} {q : List Bytes} {taken : Bytes} {ready : Bool}
    (hbusy : ¬ w.Idle) (hruns : ∀ err, w.writer ≠ .done err)
    (hfine : wr.failed = false → w.writer.failed = false ∧
      taken ++ wr.inPipe ++ q.flatten = w.forwarded)
    (hdone : ∀ err, wr = .done err → q = [] ∧ w.queueClosed = true) :
    Sound resp { w with writer := wr, queue := q, taken := taken, ready := ready } :=
  h.move ⟨rfl, rfl, rfl, rfl, rfl⟩ (fun hidle => absurd hidle hbusy) hfine hdone
    fun err hw => absurd hw (hruns err)

theorem stepWriter (h : Sound resp w) {s : WriterStep}
    (hstep : w.stepWriter errors s = some w') : Sound resp w' := by
  cases s with
  | start =>
    obtain ⟨⟨hw, hready⟩, hw'⟩ := Option.ite_none_right_eq_some.mp hstep
    cases hw'
    refine h.advance (fun hidle => ?_) (by simp [hw]) (fun _ => ?_) (by simp)
    · exact absurd (hidle.ready.symm.trans hready) (by simp)
    · simp [World.forwarded, hw, Writer.inPipe, Writer.failed]
  | expired =>
    obtain ⟨⟨hw, hstore, -⟩, hw'⟩ := Option.ite_none_right_eq_some.mp hstep
    cases hw'
    exact h.advance (fun hidle => hstore hidle.store) (by simp [hw]) (by simp [Writer.failed]) (by simp)
  | next =>
    simp only [World.stepWriter] at hstep
    have hbusy : ¬ w.Idle := by
      intro hidle
      rw [hidle.writer] at hstep
      cases hstep
    split at hstep
    · rename_i chunk queue hw hq
      cases hstep
      apply h.advance hbusy (by simp [hw]) _ (by simp)
      simp [World.forwarded, hw, hq, Writer.inPipe, Writer.failed]
    · rename_i hw hq
      split at hstep
      · rename_i hclosed
        cases hstep
        apply h.advance hbusy (by simp [hw]) _ fun _ _ => ⟨hq, hclosed⟩
        simp [World.forwarded, hw, Writer.inPipe, Writer.failed]
      · cases hstep
    · rename_i hw
      cases hstep
      apply h.advance hbusy (by simp [hw]) _ (by simp)
      simp [World.forwarded, hw, Writer.inPipe, Writer.failed]
    · rename_i left _ hw
      obtain ⟨e, -, rfl⟩ := Option.map_eq_some_iff.mp hstep
      exact h.advance hbusy (by simp [hw]) (by simp [Writer.failed]) (by simp)
    · rename_i e c queue hw hq
      cases hstep
      exact h.advance hbusy (by simp [hw]) (by simp [hw, Writer.failed]) (by simp [hw])
    · rename_i e hw hq
      split at hstep
      · rename_i hclosed
        cases hstep
        exact h.advance hbusy (by simp [hw]) (by simp [Writer.failed]) fun _ _ => ⟨hq, hclosed⟩
      · cases hstep
    · cases hstep

theorem finishPut (h : Sound resp w) {m : CachedObjectMeta} (hstore : w.store = .reading m)
    {result : PutResult}
    (hresult : ∀ p, result.published = some p →
      p.Holds resp.body ∧ DeclaresLength resp p.metadata) :
    Sound resp (w.finishPut result) := by
  refine ⟨h.relays, ?_, h.queueClosed, h.writerDone, h.closed, ?_, ?_⟩
  · have hok := h.owner
    have hbusy : w.store ≠ .idle := by simp [hstore]
    unfold OwnerOk at hok ⊢
    rw [show (w.finishPut result).owner = w.owner from rfl]
    cases ho : w.owner with
    | unattached =>
      rw [ho] at hok
      exact absurd hok.store hbusy
    | waitForHeaders =>
      rw [ho] at hok
      exact absurd hok.1.store hbusy
    | finished =>
      rw [ho] at hok
      exact absurd hok hbusy
    | _ =>
      rw [ho] at hok
      exact hok
  · rintro m' ⟨⟩
  · intro result' p hfinished
    cases hfinished
    exact hresult p

theorem declaresLength_asStored {m : CachedObjectMeta} (h : DeclaresLength resp m) :
    DeclaresLength resp (asStored cfg m) := by
  unfold asStored
  split_ifs
  · exact h
  · exact h

/-- The put came to the end of the pipe: what it publishes is what it read, and it
read everything. -/
theorem putReturns (h : Sound resp w) {m : CachedObjectMeta} {ending : ReadError}
    (hstore : w.store = .reading m) (hclosed : w.closed = some ending) (env : StoreEnv)
    {p : Publication}
    (hp : (env.putFullObject m cfg ⟨w.taken, ending⟩).published = some p) :
    p.Holds resp.body ∧ DeclaresLength resp p.metadata := by
  have hok := h.owner
  rw [OwnerOk] at hok
  rcases h.closed ending hclosed with ho | ho
  · rw [ho] at hok
    obtain ⟨writeErr, e, -, he, hne, htotal⟩ := hok
    obtain rfl : ending = e := Option.some.inj (hclosed.symm.trans he)
    obtain ⟨hmeta, hholds, hend⟩ := StoreEnv.putFullObject_published hp
    have heof : ending = .eof := hend.resolve_right fun hcut => hne hcut.1
    rw [htotal heof] at hholds
    exact ⟨hholds, hmeta ▸ declaresLength_asStored (h.reading m hstore)⟩
  · rw [ho] at hok
    exact absurd (hstore.symm.trans hok) (by simp)

theorem stepStore (h : Sound resp w) {s : StoreStep} (hstep : w.stepStore cfg s = some w') :
    Sound resp w' := by
  cases s with
  | read n =>
    simp only [World.stepStore] at hstep
    split at hstep
    · rename_i m left hstore hw
      cases hstep
      refine h.advance (fun hidle => ?_) (by simp [hw]) (fun _ => ⟨by rw [hw]; rfl, ?_⟩) (by simp)
      · exact absurd (hstore.symm.trans hidle.store) (by simp)
      · rw [Writer.inPipe, World.forwarded, hw, Writer.inPipe, List.append_assoc w.taken,
          List.take_append_drop]
    · rename_i hstore _
      cases hstep
      refine h.move ⟨rfl, rfl, rfl, rfl, rfl⟩ ?_ ?_ ?_ ?_
      · intro hidle
        exact absurd (hstore.symm.trans hidle.store) (by simp)
      · exact fun hfine => ⟨hfine, rfl⟩
      · exact h.writerDone
      · exact fun err hdone => ⟨hdone, rfl⟩
    · cases hstep
  | returns env =>
    simp only [World.stepStore] at hstep
    split at hstep
    · rename_i m ending hstore hclosed
      cases hstep
      exact h.finishPut hstore fun p hp => h.putReturns hstore hclosed env hp
    · cases hstep
  | stops err =>
    simp only [World.stepStore] at hstep
    split at hstep
    · rename_i m hstore
      cases hstep
      exact h.finishPut hstore (by simp)
    · cases hstep

theorem step (h : Sound resp w) {l : Label} (hstep : w.step cfg rcfg errors r resp l = some w') :
    Sound resp w' := by
  cases l with
  | fetch s =>
    obtain ⟨st, hst, rfl⟩ := Option.map_eq_some_iff.mp hstep
    exact h.fetch hst
  | owner s => exact h.stepOwner hstep
  | writer s => exact h.stepWriter hstep
  | store s => exact h.stepStore hstep
  | expire =>
    cases hstep
    exact h.move ⟨rfl, rfl, rfl, rfl, rfl⟩
      (fun hidle => ⟨hidle.store, hidle.writer, hidle.ready, hidle.taken, hidle.queue⟩)
      (fun hfine => ⟨hfine, rfl⟩) h.writerDone (fun err hdone => ⟨hdone, rfl⟩)

theorem initial (rcfg : ReadConfig) (resp : Response) (registered : Bool) :
    Sound resp (World.initial rcfg registered) := by
  constructor
  · exact .fresh rcfg registered resp
  · exact ⟨rfl, rfl, rfl, rfl, rfl⟩
  · rintro ⟨⟩
  · rintro err ⟨⟩
  · rintro e ⟨⟩
  · rintro m ⟨⟩
  · rintro result p ⟨⟩

end Sound

/-- Along every run, whatever the relay, the deadlines and the store do: an entry
that a populate made visible holds upstream's body, whole or in its blocks, and
the length the response declared is the body's. -/
theorem populate_publishes_whole (cfg : Config) (rcfg : ReadConfig) (errors : ℕ → ReadError)
    (r : ReadRequest) (resp : Response) (registered : Bool) {ls : List Label} {w : World}
    (hrun : run (World.step cfg rcfg errors r resp) (World.initial rcfg registered) ls = some w)
    {result : PutResult} {p : Publication} (hstore : w.store = .finished result)
    (hp : result.published = some p) :
    p.Holds resp.body ∧
      p.metadata.contentLength = declaredLength (resp.header.get (ascii "Content-Length")) := by
  have hpreserved : ∀ s l s', Sound resp s → True →
      World.step cfg rcfg errors r resp s l = some s' → Sound resp s' :=
    fun _ _ _ hs _ hstep => hs.step hstep
  have hsound := run_invariant hpreserved (Sound.initial rcfg resp registered)
    (along_of_forall fun _ _ _ => trivial) hrun
  exact hsound.published result p hstore hp

end

/-! A body of three bytes, stored in two blocks. -/

def twoByteBlocks : Config where
  bucket := ascii "b"
  key := ascii "k"
  sizeThreshold := 1000
  blockSize := 2
  blockCachingEnabled := true
  parseTime _ := none

def threeByteResponse : Response where
  status := 200
  header := (Header.empty.set (ascii "ETag") (ascii "v1")).set (ascii "Content-Length") (ascii "3")
  contentLength := 3
  body := ascii "abc"

def relayedRun : List Label :=
  [.owner .attach, .fetch .answer, .owner (.headers 0), .store (.read 1), .writer .start,
    .fetch (.read 3), .owner .relay, .writer .next, .store (.read 2), .store (.read 2),
    .writer .next, .fetch (.complete none), .owner .relay, .owner .relay, .writer .next,
    .owner .closePipe, .store (.returns {})]

theorem populate_publishes_whole_blocks :
    ∃ w, run (World.step twoByteBlocks readConfig .failure (signedRead "x") threeByteResponse)
        (World.initial readConfig true) relayedRun = some w ∧
      ∃ result p, w.store = .finished result ∧ result.published = some p ∧
        p.stored = .blocks [(0, ascii "ab"), (1, ascii "c")] ∧ p.Holds (ascii "abc") := by
  have hends : ∃ w, run (World.step twoByteBlocks readConfig .failure (signedRead "x")
      threeByteResponse) (World.initial readConfig true) relayedRun = some w ∧
      w.store = .finished ⟨some
        ⟨asStored twoByteBlocks (responseMeta twoByteBlocks 200 threeByteResponse.header 0),
          .blocks [(0, ascii "ab"), (1, ascii "c")]⟩, none⟩ :=
    exists_run_of_any (by decide +kernel)
  obtain ⟨w, hrun, hstore⟩ := hends
  refine ⟨w, hrun, _, _, hstore, rfl, rfl, ?_⟩
  exact (populate_publishes_whole twoByteBlocks readConfig .failure (signedRead "x")
    threeByteResponse true hrun hstore rfl).1

end TagGateway.Proxy.CacheListener
