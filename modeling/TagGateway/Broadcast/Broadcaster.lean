import TagGateway.Foundation.HttpHeader
import TagGateway.Foundation.Machine

/-!
# The broadcaster

One fetch streams its response to every listener. A listener is a bounded queue
that the broadcaster fills and its owner drains; a listener whose queue is full
when a chunk arrives is cut off, and no queued chunk is ever displaced. Nobody
may subscribe once the first chunk is out.
-/
namespace TagGateway.Broadcast

open Foundation

universe u

inductive StreamError where
  | slowConsumer
  | completedBeforeHeaders
  | canceled
  | fetch (code : ℕ)
deriving DecidableEq

structure Chunk where
  data : Bytes
  err : Option StreamError
deriving DecidableEq

structure Listener where
  queue : List Chunk := []
  headers : Option (ℕ × Header) := none
  headerReady : Bool := false
  headerErr : Option StreamError := none
  disconnected : Bool := false
  termErr : Option StreamError := none
  closed : Bool := false

namespace Listener

def hasRoom (channelBuf : ℕ) (l : Listener) : Bool := decide (l.queue.length < channelBuf)

/-- Record the terminal error and close the queue. The error chunk is queued
only when there is room. -/
def closeWithError (channelBuf : ℕ) (err : Option StreamError) (l : Listener) : Listener :=
  { l with
    queue := if l.hasRoom channelBuf then l.queue ++ [⟨[], err⟩] else l.queue
    termErr := err
    closed := true }

def disconnectSlowConsumer (channelBuf : ℕ) (l : Listener) : Listener :=
  closeWithError channelBuf (some .slowConsumer) { l with disconnected := true }

def offer (channelBuf : ℕ) (data : Bytes) (l : Listener) : Listener :=
  if l.disconnected then l
  else if l.hasRoom channelBuf then { l with queue := l.queue ++ [⟨data, none⟩] }
  else l.disconnectSlowConsumer channelBuf

def setHeaders (status : ℕ) (header : Header) (l : Listener) : Listener :=
  { l with headers := some (status, header), headerReady := true }

def complete (channelBuf : ℕ) (headerSet : Bool) (err : Option StreamError) (l : Listener) :
    Listener :=
  let l := if headerSet then l else { l with headerErr := err, headerReady := true }
  if l.disconnected then l else l.closeWithError channelBuf err

def payload (l : Listener) : Bytes := (l.queue.map Chunk.data).flatten

end Listener

def defaultChannelBuffer : ℕ := 1024

/-- A broadcast. `listeners` are the subscribers it still sends to, in order;
`table` holds every listener it handed out. `sent` is all that was broadcast. -/
@[ext] structure Broadcaster (κ : Type u) where
  channelBuf : ℕ
  listeners : List κ := []
  table : κ → Option Listener := fun _ => none
  headers : Option (ℕ × Header) := none
  streaming : Bool := false
  done : Bool := false
  err : Option StreamError := none
  sent : Bytes := []

namespace Broadcaster

variable {κ : Type u} [DecidableEq κ]

def new (channelBuf : ℤ) : Broadcaster κ where
  channelBuf := if channelBuf ≤ 0 then defaultChannelBuffer else channelBuf.toNat

def mapListeners (b : Broadcaster κ) (f : Listener → Listener) : κ → Option Listener := fun k =>
  if k ∈ b.listeners then (b.table k).map f else b.table k

/-- The listener a new subscriber gets. A broadcast that ended without a chunk
hands out its result at once. -/
def newListener (b : Broadcaster κ) : Listener :=
  if b.done then
    { queue := b.err.toList.map fun e => ⟨[], some e⟩
      headers := b.headers
      headerReady := true
      headerErr := if b.headers.isNone then b.err else none
      termErr := b.err
      closed := true }
  else { headers := b.headers, headerReady := b.headers.isSome }

def subscribe (b : Broadcaster κ) (k : κ) : Option (Broadcaster κ) :=
  if b.streaming then none
  else some { b with
    table := Function.update b.table k (some b.newListener)
    listeners := if b.done then b.listeners else b.listeners ++ [k] }

def setHeaders (b : Broadcaster κ) (status : ℕ) (header : Header) : Broadcaster κ :=
  { b with headers := some (status, header), table := b.mapListeners (.setHeaders status header) }

def accepts (b : Broadcaster κ) (k : κ) : Bool :=
  (b.table k).any fun l => !l.disconnected && l.hasRoom b.channelBuf

/-- Send a chunk to all listeners. The ownership-taking variant queues the same
chunks; only who frees the buffer differs. -/
def broadcast (b : Broadcaster κ) (data : Bytes) : Broadcaster κ :=
  if data = [] then b
  else { b with
    streaming := true
    table := b.mapListeners (.offer b.channelBuf data)
    listeners := b.listeners.filter b.accepts
    sent := b.sent ++ data }

/-- A clean end before any header is an error too. -/
def finalErr (b : Broadcaster κ) (err : Option StreamError) : Option StreamError :=
  if b.headers.isNone ∧ err.isNone then some .completedBeforeHeaders else err

def complete (b : Broadcaster κ) (err : Option StreamError) : Broadcaster κ :=
  if b.done then b
  else { b with
    done := true
    err := b.finalErr err
    table := b.mapListeners (.complete b.channelBuf b.headers.isSome (b.finalErr err)) }

def setListener (b : Broadcaster κ) (k : κ) (l : Listener) : Broadcaster κ :=
  { b with table := Function.update b.table k (some l) }

/-- The broadcast with no listener but `k`'s. -/
def only (b : Broadcaster κ) (k : κ) : Broadcaster κ :=
  { b with
    listeners := b.listeners.filter (· = k)
    table := fun k' => if k' = k then b.table k' else none }

/-! What the broadcast does to one listener does not depend on the others: every
operation commutes with leaving the others out. -/

section Only

variable {b b' : Broadcaster κ} {k k' : κ}

@[simp] theorem only_table_self (b : Broadcaster κ) (k : κ) : (b.only k).table k = b.table k := by
  simp [only]

theorem only_mapListeners (b : Broadcaster κ) (k : κ) (f : Listener → Listener) :
    (b.only k).mapListeners f = fun k' => if k' = k then b.mapListeners f k' else none := by
  funext k'
  by_cases hk : k' = k
  · simp [only, mapListeners, hk]
  · simp [only, mapListeners, hk]

theorem only_setHeaders (b : Broadcaster κ) (k : κ) (status : ℕ) (header : Header) :
    (b.setHeaders status header).only k = (b.only k).setHeaders status header := by
  ext1
  case table => exact (b.only_mapListeners k _).symm
  all_goals rfl

theorem only_broadcast (b : Broadcaster κ) (k : κ) (data : Bytes) :
    (b.broadcast data).only k = (b.only k).broadcast data := by
  unfold broadcast
  split_ifs with hdata
  · rfl
  · ext1
    case table => exact (b.only_mapListeners k _).symm
    case listeners =>
      simp only [only, List.filter_filter]
      refine List.filter_congr fun k' _ => ?_
      by_cases hk : k' = k
      · simp [accepts, hk]
      · simp [hk]
    all_goals rfl

theorem only_complete (b : Broadcaster κ) (k : κ) (err : Option StreamError) :
    (b.complete err).only k = (b.only k).complete err := by
  unfold complete
  by_cases hd : b.done = true
  · rw [if_pos hd, if_pos (show (b.only k).done = true from hd)]
  · rw [if_neg hd, if_neg (show ¬ (b.only k).done = true from hd)]
    ext1
    case table => exact (b.only_mapListeners k _).symm
    all_goals rfl

theorem only_setListener (b : Broadcaster κ) (k : κ) (l : Listener) :
    (b.setListener k l).only k = (b.only k).setListener k l := by
  ext1
  case table =>
    funext k'
    by_cases hk : k' = k
    · simp [only, setListener, hk]
    · simp [only, setListener, hk]
  all_goals rfl

theorem only_setListener_ne (b : Broadcaster κ) (hk : k ≠ k') (l : Listener) :
    (b.setListener k' l).only k = b.only k := by
  ext1
  case table =>
    funext j
    by_cases hj : j = k
    · simp [only, setListener, hj, hk]
    · simp [only, hj]
  all_goals rfl

theorem only_subscribe (hb : b.subscribe k = some b') :
    (b.only k).subscribe k = some (b'.only k) := by
  simp only [subscribe, Option.ite_none_left_eq_some, Option.some.injEq] at hb ⊢
  obtain ⟨hs, rfl⟩ := hb
  refine ⟨hs, ?_⟩
  ext1
  case table =>
    funext j
    by_cases hj : j = k
    · simp [only, newListener, hj]
    · simp [only, hj]
  case listeners =>
    by_cases hd : b.done = true
    · simp [only, hd]
    · simp [only, hd]
  all_goals rfl

theorem only_subscribe_ne (hk : k ≠ k') (hb : b.subscribe k' = some b') : b'.only k = b.only k := by
  simp only [subscribe, Option.ite_none_left_eq_some, Option.some.injEq] at hb
  obtain ⟨-, rfl⟩ := hb
  ext1
  case table =>
    funext j
    by_cases hj : j = k
    · simp [only, hj, hk]
    · simp [only, hj]
  case listeners =>
    by_cases hd : b.done = true
    · simp [only, hd]
    · simp [only, hd, List.filter_append, hk.symm]
  all_goals rfl

end Only

/-- Nothing was sent before the stream started, and a broadcast that ended
without headers has failed. -/
structure Sound (b : Broadcaster κ) : Prop where
  unsent : b.streaming = false → b.sent = []
  failed : b.done = true → b.headers = none → b.err ≠ none

/-- How listener `l` of subscriber `k`, who has taken `got` so far, stands to
the broadcast: it holds what was sent and not taken yet, all of it while it is
open or when it was closed without an error. -/
structure Delivers (b : Broadcaster κ) (k : κ) (got : Bytes) (l : Listener) : Prop where
  table : b.table k = some l
  live : l.closed = false → k ∈ b.listeners ∧ b.done = false ∧ got ++ l.payload = b.sent
  active : k ∈ b.listeners → b.done = false → l.closed = false
  cut : l.disconnected = true → l.closed = true
  sent : got ++ l.payload <+: b.sent
  clean : l.closed = true → l.termErr = none →
    b.done = true ∧ b.err = none ∧ got ++ l.payload = b.sent
  headers : ∀ h, l.headers = some h → b.headers = some h
  ready : l.headerReady = true → l.headerErr = none → l.headers.isSome = true

namespace Sound

variable {b : Broadcaster κ}

omit [DecidableEq κ] in
theorem new (channelBuf : ℤ) : (Broadcaster.new channelBuf : Broadcaster κ).Sound :=
  ⟨fun _ => rfl, by rintro ⟨⟩⟩

theorem setHeaders (h : b.Sound) (status : ℕ) (header : Header) :
    (b.setHeaders status header).Sound :=
  ⟨h.unsent, by rintro - ⟨⟩⟩

theorem broadcast (h : b.Sound) (data : Bytes) : (b.broadcast data).Sound := by
  unfold Broadcaster.broadcast
  split_ifs
  · exact h
  · exact ⟨by rintro ⟨⟩, h.failed⟩

theorem complete (h : b.Sound) (err : Option StreamError) : (b.complete err).Sound := by
  unfold Broadcaster.complete
  split_ifs
  · exact h
  · refine ⟨h.unsent, fun _ hheaders => ?_⟩
    dsimp only at hheaders ⊢
    cases err <;> simp [finalErr, hheaders]

theorem subscribe (h : b.Sound) {k : κ} {b' : Broadcaster κ} (hb : b.subscribe k = some b') :
    b'.Sound := by
  simp only [Broadcaster.subscribe, Option.ite_none_left_eq_some, Option.some.injEq] at hb
  obtain ⟨-, rfl⟩ := hb
  exact ⟨h.unsent, h.failed⟩

end Sound

namespace Delivers

variable {b b' : Broadcaster κ} {k k' : κ} {got : Bytes} {l : Listener}

omit [DecidableEq κ] in
theorem connected (h : Delivers b k got l) (hopen : l.closed = false) : l.disconnected = false := by
  by_contra hne
  exact absurd (hopen.symm.trans (h.cut (by simpa using hne))) (by simp)

omit [DecidableEq κ] in
theorem closed_of_not_mem (h : Delivers b k got l) (hk : k ∉ b.listeners) : l.closed = true := by
  by_contra hne
  exact hk (h.live (by simpa using hne)).1

theorem subscribe (hs : b.Sound) (hb : b.subscribe k = some b') :
    Delivers b' k [] b.newListener := by
  simp only [Broadcaster.subscribe, Option.ite_none_left_eq_some, Option.some.injEq] at hb
  obtain ⟨hstreaming, rfl⟩ := hb
  have hsent : b.sent = [] := hs.unsent (by simpa using hstreaming)
  by_cases hd : b.done = true
  · have hpayload : b.newListener.payload = [] := by
      simp only [newListener, if_pos hd, Listener.payload]
      cases b.err <;> simp
    have hl : b.newListener.closed = true := by simp [newListener, hd]
    refine ⟨by simp, ?_, ?_, ?_, ?_, ?_, ?_, ?_⟩
    · rw [hl]
      rintro ⟨⟩
    · intro _ hnot
      exact absurd (hd.symm.trans hnot) (by simp)
    · exact fun _ => hl
    · simp [hpayload, hsent]
    · intro _ herr
      refine ⟨hd, ?_, by simp [hpayload, hsent]⟩
      simpa [newListener, hd] using herr
    · simp [newListener, hd]
    · intro _ herr
      have hne := hs.failed hd
      cases hh : b.headers with
      | some h => simp [newListener, hd, hh]
      | none =>
        simp only [newListener, hd, if_true, hh, Option.isNone_none] at herr
        exact absurd herr (hne hh)
  · have hpayload : b.newListener.payload = [] := by simp [newListener, hd, Listener.payload]
    have hl : b.newListener.closed = false := by simp [newListener, hd]
    have hd' : b.done = false := by simpa using hd
    refine ⟨by simp, ?_, fun _ _ => hl, ?_, ?_, ?_, ?_, ?_⟩
    · intro _
      exact ⟨by simp [hd], hd', by simp [hpayload, hsent]⟩
    · simp [newListener, hd]
    · simp [hpayload, hsent]
    · rw [hl]
      rintro ⟨⟩
    · simp [newListener, hd]
    · simp [newListener, hd]

theorem setHeaders (h : Delivers b k got l) (hb : b.headers = none) (status : ℕ)
    (header : Header) : ∃ l', Delivers (b.setHeaders status header) k got l' := by
  have hnone : l.headers = none := by
    cases hl : l.headers with
    | none => rfl
    | some x => exact absurd (hb.symm.trans (h.headers x hl)) (by simp)
  by_cases hk : k ∈ b.listeners
  · refine ⟨l.setHeaders status header, ?_, h.live, h.active, h.cut, h.sent, h.clean, ?_, ?_⟩
    · simp [Broadcaster.setHeaders, mapListeners, hk, h.table]
    · rintro x ⟨rfl⟩
      rfl
    · exact fun _ _ => rfl
  · refine ⟨l, ?_, h.live, h.active, h.cut, h.sent, h.clean, ?_, h.ready⟩
    · simp [Broadcaster.setHeaders, mapListeners, hk, h.table]
    · rw [hnone]
      rintro x ⟨⟩

theorem broadcast (h : Delivers b k got l) (hdone : b.done = false) (data : Bytes) :
    ∃ l', Delivers (b.broadcast data) k got l' := by
  unfold Broadcaster.broadcast
  split_ifs with hdata
  · exact ⟨l, h⟩
  by_cases hk : k ∈ b.listeners
  · have hopen := h.active hk hdone
    have hcut := h.connected hopen
    obtain ⟨-, -, hsent⟩ := h.live hopen
    have htable : b.mapListeners (.offer b.channelBuf data) k =
        some (l.offer b.channelBuf data) := by
      simp [mapListeners, hk, h.table]
    by_cases hroom : l.hasRoom b.channelBuf = true
    · have hoffer : l.offer b.channelBuf data = { l with queue := l.queue ++ [⟨data, none⟩] } := by
        simp [Listener.offer, hcut, hroom]
      have hpayload : got ++ (l.offer b.channelBuf data).payload = b.sent ++ data := by
        simp [hoffer, Listener.payload, ← hsent]
      refine ⟨l.offer b.channelBuf data, htable, ?_, ?_, ?_, ?_, ?_, ?_, ?_⟩
      · exact fun _ => ⟨by simp [hk, accepts, h.table, hcut, hroom], hdone, hpayload⟩
      · exact fun _ _ => by rw [hoffer]; exact hopen
      · rw [hoffer]
        exact h.cut
      · exact hpayload ▸ List.prefix_rfl
      · rw [hoffer]
        intro hc
        exact absurd (hopen.symm.trans hc) (by simp)
      · rw [hoffer]
        exact h.headers
      · rw [hoffer]
        exact h.ready
    · -- the queue is full: cut off, with what was queued before
      have hoffer : l.offer b.channelBuf data =
          { l with disconnected := true, termErr := some .slowConsumer, closed := true } := by
        have hroom' : (l.queue.length < b.channelBuf) = False := by
          simpa [Listener.hasRoom] using hroom
        simp [Listener.offer, Listener.disconnectSlowConsumer, Listener.closeWithError,
          Listener.hasRoom, hcut, hroom']
      refine ⟨l.offer b.channelBuf data, htable, ?_, ?_, ?_, ?_, ?_, ?_, ?_⟩
      · rw [hoffer]
        rintro ⟨⟩
      · intro hmem
        simp [accepts, h.table, hroom] at hmem
      · rw [hoffer]
        exact fun _ => rfl
      · rw [hoffer]
        exact h.sent.trans (List.prefix_append _ _)
      · rw [hoffer]
        rintro - ⟨⟩
      · rw [hoffer]
        exact h.headers
      · rw [hoffer]
        exact h.ready
  · have hclosed := h.closed_of_not_mem hk
    refine ⟨l, ?_, ?_, ?_, h.cut, h.sent.trans (List.prefix_append _ _), ?_, h.headers, h.ready⟩
    · simp [mapListeners, hk, h.table]
    · intro hopen
      exact absurd (hclosed.symm.trans hopen) (by simp)
    · intro hmem
      exact absurd (List.mem_of_mem_filter hmem) hk
    · intro hc herr
      exact absurd (hdone.symm.trans (h.clean hc herr).1) (by simp)

theorem complete (h : Delivers b k got l) (err : Option StreamError) :
    ∃ l', Delivers (b.complete err) k got l' := by
  unfold Broadcaster.complete
  by_cases hd : b.done = true
  · rw [if_pos hd]
    exact ⟨l, h⟩
  rw [if_neg hd]
  have hdone : b.done = false := by simpa using hd
  have hne : b.headers = none → b.finalErr err ≠ none := by
    intro hheaders
    cases err <;> simp [finalErr, hheaders]
  by_cases hk : k ∈ b.listeners
  · have hopen := h.active hk hdone
    have hcut := h.connected hopen
    obtain ⟨-, -, hsent⟩ := h.live hopen
    have hpayload : (l.complete b.channelBuf b.headers.isSome (b.finalErr err)).payload =
        l.payload := by
      simp only [Listener.complete, Listener.closeWithError, Listener.payload]
      split_ifs <;> simp
    refine ⟨l.complete b.channelBuf b.headers.isSome (b.finalErr err), ?_, ?_, ?_, ?_, ?_, ?_, ?_,
      ?_⟩
    · simp [mapListeners, hk, h.table]
    · cases hh : b.headers.isSome <;>
        simp [Listener.complete, Listener.closeWithError, hcut]
    · rintro - ⟨⟩
    · cases hh : b.headers.isSome <;>
        simp [Listener.complete, Listener.closeWithError, hcut]
    · rw [hpayload]
      exact hsent ▸ List.prefix_rfl
    · intro _ herr
      refine ⟨rfl, ?_, hpayload.symm ▸ hsent⟩
      cases hh : b.headers.isSome <;>
        simpa [Listener.complete, Listener.closeWithError, hcut, hh] using herr
    · cases hh : b.headers.isSome <;>
        simpa [Listener.complete, Listener.closeWithError, hcut] using h.headers
    · cases hh : b.headers with
      | none => simp [Listener.complete, Listener.closeWithError, hcut, hne hh]
      | some x => simpa [Listener.complete, Listener.closeWithError, hcut] using h.ready
  · have hclosed := h.closed_of_not_mem hk
    refine ⟨l, ?_, ?_, ?_, h.cut, h.sent, ?_, h.headers, h.ready⟩
    · simp [mapListeners, hk, h.table]
    · intro hopen
      exact absurd (hclosed.symm.trans hopen) (by simp)
    · rintro - ⟨⟩
    · intro hc herr
      exact absurd (hdone.symm.trans (h.clean hc herr).1) (by simp)

theorem take (h : Delivers b k got l) {c : Chunk} {rest : List Chunk} (hq : l.queue = c :: rest) :
    Delivers (b.setListener k { l with queue := rest }) k (got ++ c.data)
      { l with queue := rest } := by
  have hpayload : got ++ c.data ++ ({ l with queue := rest } : Listener).payload =
      got ++ l.payload := by
    simp [Listener.payload, hq]
  refine ⟨by simp [setListener], ?_, h.active, h.cut, ?_, ?_, h.headers, h.ready⟩
  · rw [hpayload]
    exact h.live
  · rw [hpayload]
    exact h.sent
  · rw [hpayload]
    exact h.clean

theorem setListener_ne (h : Delivers b k got l) (hk : k ≠ k') (l' : Listener) :
    Delivers (b.setListener k' l') k got l :=
  ⟨by simp [setListener, hk, h.table], h.live, h.active, h.cut, h.sent, h.clean, h.headers,
    h.ready⟩

theorem subscribe_ne (h : Delivers b k got l) (hk : k ≠ k') (hb : b.subscribe k' = some b') :
    Delivers b' k got l := by
  simp only [Broadcaster.subscribe, Option.ite_none_left_eq_some, Option.some.injEq] at hb
  obtain ⟨-, rfl⟩ := hb
  have hmem : k ∈ (if b.done then b.listeners else b.listeners ++ [k']) ↔ k ∈ b.listeners := by
    split_ifs
    · rfl
    · simp [hk]
  refine ⟨by simp [hk, h.table], ?_, ?_, h.cut, h.sent, h.clean, h.headers, h.ready⟩
  · intro hopen
    obtain ⟨hin, hrest⟩ := h.live hopen
    exact ⟨hmem.mpr hin, hrest⟩
  · exact fun hin => h.active (hmem.mp hin)

end Delivers

end Broadcaster
end TagGateway.Broadcast
