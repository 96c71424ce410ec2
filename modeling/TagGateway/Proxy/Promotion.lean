import TagGateway.Foundation.EventLog
import TagGateway.Proxy.FullBlockServe
import TagGateway.Proxy.RangeCertificates

/-!
# Promoting an entry to complete

A request for a whole object that found or fetched every block marks the entry complete.
It reads the row three times: to serve it, for the token under which it will commit, and
in the background for the content to commit. Any number of requests and any other writers
of the key take their steps in between.
-/
namespace TagGateway.Proxy.Promotion

open Foundation Cache FetchGroup
open RangeCertificates (Landed landed_of_cacheResult)

universe u

/-- The seconds left of an entry's lifetime; 0 when there are none or its age is unknown. -/
def remainingMetaTTL (ttl now : ℤ) (m : CachedObjectMeta) : ℤ :=
  if m.cachedAt ≤ 0 then 0
  else
    let rem := ttl - (now - m.cachedAt)
    if rem ≤ 0 then 0 else rem

/-- A row that was written: over which version, with which lifetime, and when that was
computed. -/
structure Commit where
  version : ℕ
  row : CachedObjectMeta
  lifetime : ℤ
  computedAt : ℤ
deriving DecidableEq

inductive Event where
  | served (i : ℕ) (entry : CachedObjectMeta)
  | tokenRead (i : ℕ) (row : CachedObjectMeta) (version : ℕ)
  | present (i : ℕ) (idx : ℤ)
  | settled (i : ℕ) (idx : ℤ) (f : BlockFetch)
  | promoted (i : ℕ) (c : Commit)
deriving DecidableEq

/-- Where a request stands that serves an entry. The token is kept once it is read. -/
inductive Phase where
  | token
  | probing (token : Option ℕ) (rest missing : List ℤ)
  | fetching (token : Option ℕ) (g : Group)
  | assembled (token : Option ℕ)
  | reread (token : ℕ)
  | stamp (token : ℕ) (cur : CachedObjectMeta)
  | commit (token : ℕ) (cur : CachedObjectMeta) (lifetime computedAt : ℤ)
  /-- The entry is stale; the two halves of its removal. -/
  | invalidating
  | deleting (version : ℕ)
  | ended

inductive Assembly where
  | lookup
  | serving (entry : CachedObjectMeta) (phase : Phase)
  | unserved

inductive Input where
  | getMeta
  | serveComplete
  | getMetaWithVersion (answered : Bool)
  | probe (answer : Except BlockError Bool)
  | probed
  | fetch (l : FetchGroup.Label)
  | fetched
  | promote (now : ℤ) (admitted : Bool)
  | clock (now : ℤ)
  | putMetaIfVersion (applies : Bool)
  | staleRead (answered : Bool)
  | staleDelete (applies : Bool)

def lastBlock (entry : CachedObjectMeta) : ℤ := (entry.contentLength - 1).tdiv entry.blockSize

def entryBlocks (entry : CachedObjectMeta) : List ℤ := blockIndices 0 (lastBlock entry)

def settlement (i : ℕ) : FetchGroup.Label → List Event
  | .settle idx f => [.settled i idx f]
  | .cancel | .check | .go | .enter _ | .giveUp _ => []

section

variable {σ : Type u} (store : VersionedStore σ CachedObjectMeta) (ttl : ℤ) (i : ℕ)
  (entry : CachedObjectMeta)

/-- The token counts only with a live row that has the tag of the served entry. -/
def readToken (s : σ) : σ × Phase × List Event :=
  match CasCoordinator.getMetaWithVersion store s with
  | (s', some cur, version) =>
    if cur.etag = entry.etag then
      (s', .probing (some version) (entryBlocks entry) [], [.tokenRead i cur version])
    else (s', .probing none (entryBlocks entry) [], [])
  | (s', none, _) => (s', .probing none (entryBlocks entry) [], [])

def probe (token : Option ℕ) (idx : ℤ) (rest missing : List ℤ) :
    Except BlockError Bool → Phase × List Event
  | .ok true => (.probing token rest missing, [.present i idx])
  | .ok false => (.probing token rest (missing ++ [idx]), [])
  | .error _ => (.ended, [])

def reread (token : ℕ) (s : σ) : σ × Phase :=
  match CasCoordinator.getMetaWithVersion store s with
  | (s', some cur, _) =>
    (s', if cur.etag ≠ entry.etag ∨ cur.blocksComplete then .ended else .stamp token cur)
  | (s', none, _) => (s', .ended)

def commit (token : ℕ) (cur : CachedObjectMeta) (lifetime computedAt : ℤ) (s : σ) :
    σ × List Event :=
  let promoted := { cur with blocksComplete := true }
  match CasCoordinator.putMeta store s promoted (.version token) with
  | (s', true) => (s', [.promoted i ⟨store.version s, promoted, lifetime, computedAt⟩])
  | (s', false) => (s', [])

/-- `serveFullObjectFromBlockCache` up to the first byte it sends, with the task that
promotes the entry. -/
def servingStep (s : σ) : Phase → Input → Option (σ × Phase × List Event)
  | .token, .serveComplete => if entry.blocksComplete then some (s, .ended, []) else none
  | .token, .getMetaWithVersion answered =>
    if entry.blocksComplete ∨ answered = false then
      some (s, .probing none (entryBlocks entry) [], [])
    else some (readToken store i entry s)
  | .probing token (idx :: rest) missing, .probe answer =>
    some (s, probe i token idx rest missing (if entry.etag = [] then .ok false else answer))
  | .probing token [] missing, .probed =>
    if lastBlock entry + 1 < (missing.length : ℤ) * 2 then some (s, .invalidating, [])
    else if missing = [] then some (s, .assembled token, [])
    else some (s, .fetching token (.start missing), [])
  | .fetching token g, .fetch l =>
    (FetchGroup.step (toCache entry) g l).map fun g' => (s, .fetching token g', settlement i l)
  | .fetching token g, .fetched =>
    if g.drained then
      match g.result with
      | none => some (s, .assembled token, [])
      | some e => some (s, if e.isStale then .invalidating else .ended, [])
    else none
  | .assembled (some token), .promote now admitted =>
    if entry.blocksComplete = false ∧ 0 < remainingMetaTTL ttl now entry ∧ admitted then
      some (s, .reread token, [])
    else some (s, .ended, [])
  | .assembled none, .promote _ _ => some (s, .ended, [])
  | .reread token, .getMetaWithVersion answered =>
    if answered then
      let (s', phase) := reread store entry token s
      some (s', phase, [])
    else some (s, .ended, [])
  | .stamp token cur, .clock now =>
    let remaining := remainingMetaTTL ttl now cur
    some (s, if remaining ≤ 0 then .ended else .commit token cur remaining now, [])
  | .commit token cur lifetime computedAt, .putMetaIfVersion applies =>
    if applies then
      let (s', events) := commit store i token cur lifetime computedAt s
      some (s', .ended, events)
    else some (s, .ended, [])
  | .invalidating, .staleRead answered =>
    if answered then
      match CasCoordinator.deleteMetaIfETagRead store (·.etag) entry.etag s with
      | (s', some version) => some (s', .deleting version, [])
      | (s', none) => some (s', .ended, [])
    else some (s, .ended, [])
  | .deleting version, .staleDelete applies =>
    if applies then some ((CasCoordinator.deleteMetaIfVersion store s version).1, .ended, [])
    else some (s, .ended, [])
  | _, _ => none

/-- The entry is served from blocks when it was stored in blocks. -/
def Assembly.step (s : σ) : Assembly → Input → Option (σ × Assembly × List Event)
  | .lookup, .getMeta =>
    match store.row s with
    | some entry =>
      if 0 < entry.blockSize then some (s, .serving entry .token, [.served i entry])
      else some (s, .unserved, [])
    | none => some (s, .unserved, [])
  | .serving entry phase, input =>
    (servingStep store ttl i entry s phase input).map fun r =>
      (r.1, .serving entry r.2.1, r.2.2)
  | _, _ => none

end

/-- The row of the key, the requests for the whole object, and what has happened. -/
structure World (σ : Type u) where
  store : σ
  assemblies : ℕ → Option Assembly
  log : List Event

/-- A request's step, or one of the store by anybody else: conditional writes (an entry is
established again, with any block size, or promoted), removals, reads and expiries. -/
inductive Label where
  | start (i : ℕ)
  | assembly (i : ℕ) (input : Input)
  | put (row : CachedObjectMeta) (expected : ℕ)
  | delete (expected : ℕ)
  | read
  | expire

namespace World

variable {σ : Type u} (store : VersionedStore σ CachedObjectMeta) (ttl : ℤ)

def initial (s : σ) : World σ := ⟨s, fun _ => none, []⟩

def step (w : World σ) : Label → Option (World σ)
  | .start i =>
    match w.assemblies i with
    | none => some { w with assemblies := Function.update w.assemblies i (some .lookup) }
    | some _ => none
  | .assembly i input =>
    (w.assemblies i).bind fun a => (a.step store ttl i w.store input).map fun r =>
      { store := r.1
        assemblies := Function.update w.assemblies i (some r.2.1)
        log := w.log ++ r.2.2 }
  | .put row expected => some { w with store := (store.putIfVersion w.store row expected).1 }
  | .delete expected => some { w with store := (store.deleteIfVersion w.store expected).1 }
  | .read => some { w with store := (store.getWithVersion w.store).1 }
  | .expire => some { w with store := store.expire w.store }

end World

/-! ## What a promotion has behind it -/

open List in
section

variable (ttl : ℤ) (log : List Event) (i : ℕ) (entry : CachedObjectMeta)

/-- The event shows that the block is in the cache: it was found there, or was fetched,
checked and stored. -/
inductive Shows (idx : ℤ) : Event → Prop
  | present : Shows idx (.present i idx)
  | settled {f : BlockFetch} (hlanded : Landed entry idx f) : Shows idx (.settled i idx f)

/-- The row was read at the version it was promoted over, with the tag and the layout of
the entry that was served; every block of that entry was there after that read; and the
lifetime is what was left of the row's. -/
def Justified (c : Commit) : Prop :=
  ∃ entry row, [.served i entry, .tokenRead i row c.version, .promoted i c] <+ log ∧
    row.etag = entry.etag ∧ row.blockSize = entry.blockSize ∧
    row.contentLength = entry.contentLength ∧ c.row = { row with blocksComplete := true } ∧
    (∀ idx ∈ entryBlocks entry, ∃ e, Shows i entry idx e ∧
      [.tokenRead i row c.version, e, .promoted i c] <+ log) ∧
    0 < c.lifetime ∧ c.lifetime ≤ ttl - (c.computedAt - row.cachedAt)

/-- The block has been shown since the token was read. -/
def Shown (row : CachedObjectMeta) (v : ℕ) (idx : ℤ) : Prop :=
  ∃ e, Shows i entry idx e ∧ [.tokenRead i row v, e] <+ log

end

/-- A row with the tag of the entry has its layout, too. -/
def SameLayout (entry : CachedObjectMeta) (row : CachedObjectMeta) : Prop :=
  row.etag = entry.etag →
    row.blockSize = entry.blockSize ∧ row.contentLength = entry.contentLength

instance (entry row : CachedObjectMeta) : Decidable (SameLayout entry row) :=
  inferInstanceAs (Decidable (_ → _))

/-- The row that is read for the token. -/
def Assembly.TokenGuard (row : Option CachedObjectMeta) : Assembly → Prop
  | .serving entry .token => ∀ r ∈ row, SameLayout entry r
  | _ => True

instance (row : Option CachedObjectMeta) : DecidablePred (Assembly.TokenGuard row)
  | .serving _ .token => inferInstanceAs (Decidable (∀ r ∈ row, _))
  | .lookup | .unserved => .isTrue trivial
  | .serving _ (.probing _ _ _) | .serving _ (.fetching _ _) | .serving _ (.assembled _)
  | .serving _ (.reread _) | .serving _ (.stamp _ _) | .serving _ (.commit _ _ _ _)
  | .serving _ .invalidating | .serving _ (.deleting _) | .serving _ .ended => .isTrue trivial

section

variable {σ : Type u} (store : VersionedStore σ CachedObjectMeta)

/-- When a request reads its token, a row with the tag of its entry has not been
established again with another layout. -/
def World.LayoutGuard (w : World σ) : Label → Prop
  | .assembly i (.getMetaWithVersion _) =>
    ∀ a ∈ w.assemblies i, a.TokenGuard (store.row w.store)
  | _ => True

instance (w : World σ) : DecidablePred (w.LayoutGuard store)
  | .assembly _ (.getMetaWithVersion _) => inferInstanceAs (Decidable (∀ a ∈ _, _))
  | .assembly _ .getMeta | .assembly _ .serveComplete | .assembly _ (.probe _)
  | .assembly _ .probed | .assembly _ (.fetch _) | .assembly _ .fetched
  | .assembly _ (.promote _ _) | .assembly _ (.clock _) | .assembly _ (.putMetaIfVersion _)
  | .assembly _ (.staleRead _) | .assembly _ (.staleDelete _) | .start _ | .put _ _ | .delete _
  | .read | .expire => .isTrue trivial

end

/-! ## What is known of a request -/

def Phase.tokenOf : Phase → Option ℕ
  | .probing kept _ _ | .fetching kept _ | .assembled kept => kept
  | .reread kept | .stamp kept _ | .commit kept _ _ _ => some kept
  | .token | .invalidating | .deleting _ | .ended => none

section

open List

variable {σ : Type u} (store : VersionedStore σ CachedObjectMeta) (ttl : ℤ)

/-- The token of a request: the row it was read with, and that no other row has been live
under it since. -/
structure Held (s : σ) (log : List Event) (i : ℕ) (entry row : CachedObjectMeta) (v : ℕ) :
    Prop where
  order : [.served i entry, .tokenRead i row v] <+ log
  etag : row.etag = entry.etag
  layout : row.blockSize = entry.blockSize ∧ row.contentLength = entry.contentLength
  stands : store.Stands s row v

def Progress (s : σ) (log : List Event) (i : ℕ) (entry row : CachedObjectMeta) (v : ℕ) :
    Phase → Prop
  | .probing _ rest missing =>
    ∀ idx ∈ entryBlocks entry, idx ∈ rest ∨ idx ∈ missing ∨ Shown log i entry row v idx
  | .fetching _ g => ∃ missing, Sound (toCache entry) missing g ∧
    (∀ idx ∈ entryBlocks entry, idx ∈ missing ∨ Shown log i entry row v idx) ∧
    ∀ idx f, (idx, .fetched f) ∈ g.endings → [.tokenRead i row v, .settled i idx f] <+ log
  | .assembled _ | .reread _ => ∀ idx ∈ entryBlocks entry, Shown log i entry row v idx
  | .stamp _ cur => (∀ idx ∈ entryBlocks entry, Shown log i entry row v idx) ∧
    (store.version s = v → cur = row)
  | .commit _ cur lifetime computedAt =>
    (∀ idx ∈ entryBlocks entry, Shown log i entry row v idx) ∧
    (store.version s = v → cur = row) ∧ 0 < lifetime ∧
    lifetime = ttl - (computedAt - cur.cachedAt)
  | .token | .invalidating | .deleting _ | .ended => True

structure Tracked (s : σ) (log : List Event) (i : ℕ) (entry : CachedObjectMeta) (phase : Phase) :
    Prop where
  served : .served i entry ∈ log
  token : ∀ v, phase.tokenOf = some v → ∃ row, Held store s log i entry row v ∧
    Progress store ttl s log i entry row v phase

structure Consistent (w : World σ) : Prop where
  tracked : ∀ i entry phase, w.assemblies i = some (.serving entry phase) →
    Tracked store ttl w.store w.log i entry phase
  justified : ∀ i c, .promoted i c ∈ w.log → Justified ttl w.log i c

variable {store ttl} {s s' : σ} {log es : List Event} {i : ℕ} {entry row : CachedObjectMeta}
  {v : ℕ} {phase phase' : Phase} {idx : ℤ}

/-! ## Steps of others -/

theorem Shown.append (h : Shown log i entry row v idx) (es : List Event) :
    Shown (log ++ es) i entry row v idx := by
  obtain ⟨e, hshows, horder⟩ := h
  exact ⟨e, hshows, horder.trans (sublist_append_left log es)⟩

theorem Justified.append {c : Commit} (h : Justified ttl log i c) (es : List Event) :
    Justified ttl (log ++ es) i c := by
  obtain ⟨entry, row, horder, hetag, hsize, hlength, hrow, hblocks, hlifetime⟩ := h
  have happend := sublist_append_left log es
  refine ⟨entry, row, horder.trans happend, hetag, hsize, hlength, hrow, ?_, hlifetime⟩
  intro idx hidx
  obtain ⟨e, hshows, hlog⟩ := hblocks idx hidx
  exact ⟨e, hshows, hlog.trans happend⟩

theorem Held.pass (h : Held store s log i entry row v) (hs : store.Passes s s')
    (es : List Event) : Held store s' (log ++ es) i entry row v where
  order := h.order.trans (sublist_append_left log es)
  etag := h.etag
  layout := h.layout
  stands := h.stands.pass hs

/-- A version that is back has been there all along. -/
theorem Held.version_eq (h : Held store s log i entry row v) (hs : store.Passes s s')
    (hv : store.version s' = v) : store.version s = v := by
  have hle := h.stands.le
  have hle' := hs.le
  omega

theorem Progress.pass (h : Progress store ttl s log i entry row v phase)
    (hheld : Held store s log i entry row v) (hs : store.Passes s s') (es : List Event) :
    Progress store ttl s' (log ++ es) i entry row v phase := by
  have hshown : (∀ idx ∈ entryBlocks entry, Shown log i entry row v idx) →
      ∀ idx ∈ entryBlocks entry, Shown (log ++ es) i entry row v idx :=
    fun hall idx hidx => (hall idx hidx).append es
  cases phase with
  | probing token rest missing =>
    exact fun idx hidx => (h idx hidx).imp_right (Or.imp_right fun hshown => hshown.append es)
  | fetching token g =>
    obtain ⟨missing, hsound, hblocks, hendings⟩ := h
    refine ⟨missing, hsound, fun idx hidx => ?_, fun idx f hf => ?_⟩
    · exact (hblocks idx hidx).imp_right fun hshown => hshown.append es
    · exact (hendings idx f hf).trans (sublist_append_left log es)
  | assembled token => exact hshown h
  | reread token => exact hshown h
  | stamp token cur => exact ⟨hshown h.1, fun hv => h.2 (hheld.version_eq hs hv)⟩
  | commit token cur lifetime computedAt =>
    exact ⟨hshown h.1, fun hv => h.2.1 (hheld.version_eq hs hv), h.2.2⟩
  | token => trivial
  | invalidating => trivial
  | deleting version => trivial
  | ended => trivial

theorem Tracked.pass (h : Tracked store ttl s log i entry phase) (hs : store.Passes s s')
    (es : List Event) : Tracked store ttl s' (log ++ es) i entry phase where
  served := mem_append_left es h.served
  token v hv := by
    obtain ⟨row, hheld, hprogress⟩ := h.token v hv
    exact ⟨row, hheld.pass hs es, hprogress.pass hheld hs es⟩

theorem Tracked.drop (h : Tracked store ttl s log i entry phase) (hphase : phase'.tokenOf = none)
    (es : List Event) : Tracked store ttl s' (log ++ es) i entry phase' where
  served := mem_append_left es h.served
  token v hv := by simp [hphase] at hv

/-! ## The steps of a request -/

structure Sustains (store : VersionedStore σ CachedObjectMeta) (ttl : ℤ) (s : σ)
    (log : List Event) (i : ℕ) (entry : CachedObjectMeta) (s' : σ) (phase' : Phase)
    (es : List Event) : Prop where
  passes : store.Passes s s'
  tracked : Tracked store ttl s' (log ++ es) i entry phase'
  justified : ∀ k c, .promoted k c ∈ es → Justified ttl (log ++ es) k c

theorem Tracked.ends (h : Tracked store ttl s log i entry phase) (hs : store.Passes s s')
    (hphase : phase'.tokenOf = none) : Sustains store ttl s log i entry s' phase' [] :=
  ⟨hs, h.drop hphase [], by simp⟩

theorem Tracked.keep (h : Tracked store ttl s log i entry phase) (hs : store.Passes s s')
    (hes : ∀ k c, .promoted k c ∉ es) (htoken : phase'.tokenOf = phase.tokenOf)
    (hprogress : ∀ row v, Held store s log i entry row v →
      Progress store ttl s log i entry row v phase →
      Progress store ttl s' (log ++ es) i entry row v phase') :
    Sustains store ttl s log i entry s' phase' es where
  passes := hs
  tracked := by
    refine ⟨mem_append_left es h.served, fun v hv => ?_⟩
    obtain ⟨row, hheld, hold⟩ := h.token v (htoken ▸ hv)
    exact ⟨row, hheld.pass hs es, hprogress row v hheld hold⟩
  justified k c hc := absurd hc (hes k c)

theorem remainingMetaTTL_of_pos {now : ℤ} (h : 0 < remainingMetaTTL ttl now entry) :
    remainingMetaTTL ttl now entry = ttl - (now - entry.cachedAt) := by
  unfold remainingMetaTTL at h ⊢
  dsimp only at h ⊢
  split_ifs at h ⊢ with hunknown hpast
  · omega
  · omega
  · rfl

theorem readToken_sustains (hstore : store.Lawful)
    (h : Tracked store ttl s log i entry .token)
    (hguard : ∀ r ∈ store.row s, SameLayout entry r) :
    Sustains store ttl s log i entry (readToken store i entry s).1
      (readToken store i entry s).2.1 (readToken store i entry s).2.2 := by
  have hpasses := (hstore.get_advances s).passes
  have hfound := hstore.get_found s
  have hstands : ∀ row, store.row s = some row → store.Stands (store.getWithVersion s).1 row
      (store.getWithVersion s).2.2 := fun _ hrow => hstore.get_stands hrow
  unfold readToken CasCoordinator.getMetaWithVersion
  generalize store.getWithVersion s = reply at hpasses hfound hstands ⊢
  obtain ⟨s', cur, version⟩ := reply
  cases cur with
  | none => exact h.ends hpasses rfl
  | some cur =>
    dsimp only
    split_ifs with hetag
    · refine ⟨hpasses, ⟨mem_append_left _ h.served, ?_⟩, by simp⟩
      intro v hv
      obtain rfl := Option.some.inj hv
      refine ⟨cur, ⟨pair_snoc h.served, hetag, ?_, hstands cur hfound.symm⟩, ?_⟩
      · exact hguard cur hfound.symm hetag
      · exact fun idx hidx => .inl hidx
    · exact h.ends hpasses rfl

theorem probe_sustains {token : Option ℕ} {rest missing : List ℤ}
    (h : Tracked store ttl s log i entry (.probing token (idx :: rest) missing))
    (answer : Except BlockError Bool) :
    Sustains store ttl s log i entry s (probe i token idx rest missing answer).1
      (probe i token idx rest missing answer).2 := by
  cases answer with
  | error e => exact h.ends (.refl s) rfl
  | ok present =>
    cases present with
    | false =>
      refine h.keep (.refl s) (by simp [probe]) (by rfl) ?_
      intro row v _ hprogress k hk
      rcases hprogress k hk with hrest | hmissing | hshown
      · rcases mem_cons.mp hrest with rfl | hrest
        · exact .inr (.inl (by simp))
        · exact .inl hrest
      · exact .inr (.inl (by simp [hmissing]))
      · exact .inr (.inr (hshown.append []))
    | true =>
      refine h.keep (.refl s) (by simp [probe]) (by rfl) ?_
      intro row v hheld hprogress k hk
      rcases hprogress k hk with hrest | hmissing | hshown
      · rcases mem_cons.mp hrest with rfl | hrest
        · refine .inr (.inr ⟨_, .present, pair_snoc ?_⟩)
          exact hheld.order.subset (by simp)
        · exact .inl hrest
      · exact .inr (.inl hmissing)
      · exact .inr (.inr (hshown.append _))

theorem probed_sustains {token : Option ℕ} {missing : List ℤ} {s' : σ}
    (h : Tracked store ttl s log i entry (.probing token [] missing))
    (hstep : servingStep store ttl i entry s (.probing token [] missing) .probed =
      some (s', phase', es)) : Sustains store ttl s log i entry s' phase' es := by
  simp only [servingStep] at hstep
  split_ifs at hstep with hmost hmissing
  · cases hstep
    exact h.ends (.refl s) rfl
  · cases hstep
    refine h.keep (.refl s) (by simp) (by rfl) ?_
    intro row v _ hprogress k hk
    rcases hprogress k hk with hrest | hnone | hshown
    · simp at hrest
    · simp [hmissing] at hnone
    · exact hshown.append []
  · cases hstep
    refine h.keep (.refl s) (by simp) (by rfl) ?_
    intro row v _ hprogress
    refine ⟨missing, .start _ _, fun k hk => ?_, by simp [Group.start]⟩
    rcases hprogress k hk with hrest | hnone | hshown
    · simp at hrest
    · exact .inl hnone
    · exact .inr (hshown.append [])

theorem fetch_sustains {token : Option ℕ} {g g' : Group} {l : FetchGroup.Label}
    (h : Tracked store ttl s log i entry (.fetching token g))
    (hstep : FetchGroup.step (toCache entry) g l = some g') :
    Sustains store ttl s log i entry s (.fetching token g') (settlement i l) := by
  obtain ⟨new, hnew⟩ := step_advances hstep
  have hes : ∀ k c, .promoted k c ∉ settlement i l := by cases l <;> simp [settlement]
  refine h.keep (.refl s) hes (by rfl) ?_
  rintro row v hheld ⟨missing, hsound, hblocks, hendings⟩
  refine ⟨missing, hsound.advance hnew, fun k hk => ?_, fun k f hf => ?_⟩
  · exact (hblocks k hk).imp_right fun hshown => hshown.append _
  · rw [hnew.endings, mem_append] at hf
    rcases hf with hold | hadded
    · exact (hendings k f hold).trans (sublist_append_left log _)
    · rw [hnew.asked k f hadded]
      exact pair_snoc (hheld.order.subset (by simp))

theorem fetched_sustains {token : Option ℕ} {g : Group} {s' : σ}
    (h : Tracked store ttl s log i entry (.fetching token g))
    (hstep : servingStep store ttl i entry s (.fetching token g) .fetched =
      some (s', phase', es)) : Sustains store ttl s log i entry s' phase' es := by
  simp only [servingStep, Option.ite_none_right_eq_some] at hstep
  obtain ⟨hdrained, hstep⟩ := hstep
  split at hstep
  next hresult =>
    cases hstep
    refine h.keep (.refl s) (by simp) (by rfl) ?_
    rintro row v - ⟨missing, hsound, hblocks, hendings⟩ k hk
    rcases hblocks k hk with hmissing | hshown
    · obtain ⟨f, hf, herror⟩ := hsound.result_none hdrained hresult hmissing
      exact Shown.append ⟨_, .settled (landed_of_cacheResult herror), hendings k f hf⟩ []
    · exact hshown.append []
  next e hresult =>
    cases hstep
    apply h.ends (.refl s)
    split_ifs <;> rfl

theorem reread_sustains (hstore : store.Lawful) {token : ℕ}
    (h : Tracked store ttl s log i entry (.reread token)) :
    Sustains store ttl s log i entry (reread store entry token s).1
      (reread store entry token s).2 [] := by
  have hpasses := (hstore.get_advances s).passes
  have hfound := hstore.get_found s
  have hrow := hstore.get_row s
  unfold reread CasCoordinator.getMetaWithVersion
  generalize store.getWithVersion s = reply at hpasses hfound hrow ⊢
  obtain ⟨s', cur, version⟩ := reply
  cases cur with
  | none => exact h.ends hpasses rfl
  | some cur =>
    dsimp only
    split_ifs
    · exact h.ends hpasses rfl
    · refine h.keep hpasses (by simp) (by rfl) ?_
      intro row v hheld hshown
      refine ⟨fun k hk => (hshown k hk).append [], fun hv => ?_⟩
      exact hheld.stands.live (hheld.version_eq hpasses hv) cur hfound.symm

theorem stamp_sustains {token : ℕ} {cur : CachedObjectMeta} (now : ℤ)
    (h : Tracked store ttl s log i entry (.stamp token cur)) :
    Sustains store ttl s log i entry s
      (if remainingMetaTTL ttl now cur ≤ 0 then .ended
        else .commit token cur (remainingMetaTTL ttl now cur) now) [] := by
  split_ifs with hspent
  · exact h.ends (.refl s) rfl
  · refine h.keep (.refl s) (by simp) (by rfl) ?_
    rintro row v - ⟨hshown, hcur⟩
    have hpos : 0 < remainingMetaTTL ttl now cur := by omega
    exact ⟨fun k hk => (hshown k hk).append [], hcur, hpos, remainingMetaTTL_of_pos hpos⟩

/-- The commit goes through only under the version of the token; the row it replaces is
then the row of the token, and so is the row that was read again. -/
theorem commit_sustains (hstore : store.Lawful) {token : ℕ} {cur : CachedObjectMeta}
    {lifetime computedAt : ℤ}
    (h : Tracked store ttl s log i entry (.commit token cur lifetime computedAt)) :
    Sustains store ttl s log i entry (commit store i token cur lifetime computedAt s).1 .ended
      (commit store i token cur lifetime computedAt s).2 := by
  obtain ⟨row, hheld, hshown, hcur, hpos, hlifetime⟩ := h.token token rfl
  have hcommits := hstore.put_commits s { cur with blocksComplete := true } token
    hheld.stands.pos.ne'
  have hpasses := hstore.put_passes s { cur with blocksComplete := true } token
  unfold commit CasCoordinator.putMeta
  dsimp only
  generalize store.putIfVersion s { cur with blocksComplete := true } token = reply
    at hcommits hpasses ⊢
  obtain ⟨s', answer⟩ := reply
  cases answer with
  | mismatch => exact h.ends hpasses rfl
  | written =>
    have hversion : store.version s = token := hcommits.mp rfl
    obtain rfl := hcur hversion
    refine ⟨hpasses, h.drop rfl _, fun k c hc => ?_⟩
    obtain ⟨rfl, rfl⟩ : k = i ∧
        c = ⟨store.version s, { cur with blocksComplete := true }, lifetime, computedAt⟩ := by
      simpa using hc
    rw [hversion]
    refine ⟨entry, cur, sublist_snoc_self hheld.order, hheld.etag, hheld.layout.1,
      hheld.layout.2, rfl, fun idx hidx => ?_, hpos, hlifetime.le⟩
    obtain ⟨e, hshows, horder⟩ := hshown idx hidx
    exact ⟨e, hshows, sublist_snoc_self horder⟩

theorem servingStep_sustains (hstore : store.Lawful)
    (h : Tracked store ttl s log i entry phase) {input : Input}
    (hguard : ∀ answered, input = .getMetaWithVersion answered →
      (Assembly.serving entry phase).TokenGuard (store.row s))
    (hstep : servingStep store ttl i entry s phase input = some (s', phase', es)) :
    Sustains store ttl s log i entry s' phase' es := by
  unfold servingStep at hstep
  split at hstep
  case h_1 =>
    simp only [Option.ite_none_right_eq_some] at hstep
    obtain ⟨-, hstep⟩ := hstep
    cases hstep
    exact h.ends (.refl s) rfl
  case h_2 answered =>
    split_ifs at hstep
    · cases hstep
      exact h.ends (.refl s) rfl
    · have hread := readToken_sustains hstore h (hguard answered rfl)
      rw [Option.some.inj hstep] at hread
      exact hread
  case h_3 token idx rest missing answer =>
    have hprobe := probe_sustains h (if entry.etag = [] then .ok false else answer)
    obtain ⟨rfl, heq⟩ := Prod.mk.inj (Option.some.inj hstep)
    rw [heq] at hprobe
    exact hprobe
  case h_4 token missing => exact probed_sustains h hstep
  case h_5 token g l =>
    obtain ⟨g', hg', heq⟩ := Option.map_eq_some_iff.mp hstep
    cases heq
    exact fetch_sustains h hg'
  case h_6 token g => exact fetched_sustains h hstep
  case h_7 token now admitted =>
    split_ifs at hstep
    · cases hstep
      refine h.keep (.refl s) (by simp) (by rfl) ?_
      exact fun row v _ hshown k hk => (hshown k hk).append []
    · cases hstep
      exact h.ends (.refl s) rfl
  case h_8 =>
    cases hstep
    exact h.ends (.refl s) rfl
  case h_9 token answered =>
    split_ifs at hstep
    · cases hstep
      exact reread_sustains hstore h
    · cases hstep
      exact h.ends (.refl s) rfl
  case h_10 token cur now =>
    cases hstep
    exact stamp_sustains now h
  case h_11 token cur lifetime computedAt applies =>
    split_ifs at hstep
    · cases hstep
      exact commit_sustains hstore h
    · cases hstep
      exact h.ends (.refl s) rfl
  case h_12 answered =>
    have hpasses := (hstore.get_advances s).passes
    rw [← CasCoordinator.deleteMetaIfETagRead_store store (·.etag) entry.etag] at hpasses
    split_ifs at hstep
    · generalize CasCoordinator.deleteMetaIfETagRead store (·.etag) entry.etag s = reply
        at hstep hpasses
      obtain ⟨s₁, version⟩ := reply
      cases version with
      | none =>
        cases hstep
        exact h.ends hpasses rfl
      | some version =>
        cases hstep
        exact h.ends hpasses rfl
    · cases hstep
      exact h.ends (.refl s) rfl
  case h_13 version applies =>
    split_ifs at hstep
    · cases hstep
      rw [CasCoordinator.deleteMetaIfVersion_store]
      exact h.ends (hstore.delete_passes s version) rfl
    · cases hstep
      exact h.ends (.refl s) rfl
  case h_14 => simp at hstep

/-! ## Every run -/

variable {w w' : World σ} {l : Label}

theorem Consistent.initial (s : σ) : Consistent store ttl (World.initial s) := by
  constructor
  · intro i entry phase h
    simp [World.initial] at h
  · simp [World.initial]

theorem Consistent.pass (h : Consistent store ttl w) (hs : store.Passes w.store s') :
    Consistent store ttl { w with store := s' } where
  tracked i entry phase ha := by
    have hpass := (h.tracked i entry phase ha).pass hs []
    rwa [append_nil] at hpass
  justified := h.justified

theorem Consistent.move (h : Consistent store ttl w) (hs : store.Passes w.store s')
    {a : Assembly} (ha : ∀ entry phase, a = .serving entry phase →
      Tracked store ttl s' (w.log ++ es) i entry phase)
    (hes : ∀ k c, .promoted k c ∈ es → Justified ttl (w.log ++ es) k c) :
    Consistent store ttl ⟨s', Function.update w.assemblies i (some a), w.log ++ es⟩ where
  tracked k entry phase hk := by
    rcases update_eq_some_cases hk with ⟨rfl, heq⟩ | hold
    · exact ha entry phase heq.symm
    · exact (h.tracked k entry phase hold).pass hs es
  justified k c hc := by
    rcases mem_append.mp hc with hold | hnew
    · exact (h.justified k c hold).append es
    · exact hes k c hnew

theorem Consistent.assembly (hstore : store.Lawful) (h : Consistent store ttl w)
    {a a' : Assembly} {input : Input} (ha : w.assemblies i = some a)
    (hguard : ∀ answered, input = .getMetaWithVersion answered → a.TokenGuard (store.row w.store))
    (hstep : a.step store ttl i w.store input = some (s', a', es)) :
    Consistent store ttl ⟨s', Function.update w.assemblies i (some a'), w.log ++ es⟩ := by
  unfold Assembly.step at hstep
  split at hstep
  case h_1 =>
    split at hstep
    next entry hrow =>
      split_ifs at hstep
      · cases hstep
        apply h.move (.refl _)
        · intro entry' phase heq
          cases heq
          exact ⟨by simp, fun v hv => by simp [Phase.tokenOf] at hv⟩
        · simp
      · cases hstep
        exact h.move (.refl _) (fun _ _ heq => by cases heq) (by simp)
    next hrow =>
      cases hstep
      exact h.move (.refl _) (fun _ _ heq => by cases heq) (by simp)
  case h_2 input entry phase =>
    obtain ⟨⟨s₁, phase', es'⟩, hserving, heq⟩ := Option.map_eq_some_iff.mp hstep
    cases heq
    have hsustains := servingStep_sustains hstore (h.tracked i entry phase ha) hguard hserving
    apply h.move hsustains.passes
    · intro entry' phase'' heq
      cases heq
      exact hsustains.tracked
    · exact hsustains.justified
  case h_3 => simp at hstep

theorem Consistent.step (hstore : store.Lawful) (h : Consistent store ttl w)
    (hguard : w.LayoutGuard store l) (hstep : w.step store ttl l = some w') :
    Consistent store ttl w' := by
  cases l with
  | start i =>
    simp only [World.step] at hstep
    split at hstep
    next =>
      cases hstep
      have hmove : Consistent store ttl
          ⟨w.store, Function.update w.assemblies i (some .lookup), w.log ++ []⟩ :=
        h.move (.refl _) (fun _ _ heq => by cases heq) (by simp)
      rwa [append_nil] at hmove
    next => simp at hstep
  | assembly i input =>
    obtain ⟨a, ha, hmoved⟩ := Option.bind_eq_some_iff.mp hstep
    obtain ⟨⟨s', a', es⟩, htaken, rfl⟩ := Option.map_eq_some_iff.mp hmoved
    apply h.assembly hstore ha ?_ htaken
    rintro answered rfl
    exact hguard a ha
  | put row expected =>
    cases hstep
    exact h.pass (hstore.put_passes _ _ _)
  | delete expected =>
    cases hstep
    exact h.pass (hstore.delete_passes _ _)
  | read =>
    cases hstep
    exact h.pass (hstore.get_advances _).passes
  | expire =>
    cases hstep
    exact h.pass (hstore.expire_passes _)

end

/-- Every promotion is justified, in every run of requests and other writers in which no
row with the served tag has another layout when the token is read. -/
theorem promotions_justified {σ : Type u} {store : VersionedStore σ CachedObjectMeta}
    (hstore : store.Lawful) (ttl : ℤ) (s : σ) {ls : List Label} {w : World σ}
    (hguard : Along (World.step store ttl) (World.LayoutGuard store) (World.initial s) ls)
    (hrun : run (World.step store ttl) (World.initial s) ls = some w) :
    ∀ i c, .promoted i c ∈ w.log → Justified ttl w.log i c := by
  have hkeep : ∀ (w : World σ) l (w' : World σ), Consistent store ttl w →
      w.LayoutGuard store l → w.step store ttl l = some w' → Consistent store ttl w' :=
    fun _ _ _ h hguard hstep => h.step hstore hguard hstep
  exact (run_invariant hkeep (.initial s) hguard hrun).justified

def twoBlocks : CachedObjectMeta where
  key := ascii "key"
  bucket := ascii "bucket"
  etag := ascii "\"v1\""
  contentLength := 16
  blockSize := 8
  cachedAt := 1

/-- One block is found and one is fetched; the promotion then passes 100 - (21 - 1) seconds. -/
def promotingRun : List Label :=
  [.start 0, .assembly 0 .getMeta, .assembly 0 (.getMetaWithVersion true),
    .assembly 0 (.probe (.ok true)), .assembly 0 (.probe (.ok false)), .assembly 0 .probed,
    .assembly 0 (.fetch .check), .assembly 0 (.fetch .go), .assembly 0 (.fetch (.enter 1)),
    .assembly 0 (.fetch (.settle 1 .present)), .assembly 0 .fetched,
    .assembly 0 (.promote 11 true), .assembly 0 (.getMetaWithVersion true),
    .assembly 0 (.clock 21), .assembly 0 (.putMetaIfVersion true)]

theorem promotions_justified_promotingRun :
    ∃ w, run (World.step Cell.store 100) (.initial ⟨some twoBlocks, 0⟩) promotingRun = some w ∧
      Justified 100 w.log 0 ⟨1, { twoBlocks with blocksComplete := true }, 80, 21⟩ := by
  obtain ⟨w, hrun, hlog⟩ : ∃ w,
      run (World.step Cell.store 100) (.initial ⟨some twoBlocks, 0⟩) promotingRun = some w ∧
        .promoted 0 ⟨1, { twoBlocks with blocksComplete := true }, 80, 21⟩ ∈ w.log :=
    exists_run_of_any (by decide +kernel)
  have hguard : Along (World.step Cell.store 100) (World.LayoutGuard Cell.store)
      (.initial ⟨some twoBlocks, 0⟩) promotingRun := by decide +kernel
  exact ⟨w, hrun, promotions_justified Cell.store_lawful 100 _ hguard hrun 0 _ hlog⟩

/-- Between the two reads the entry is removed and established again with blocks of 4
bytes. The two blocks of 8 bytes are found, and the entry of four blocks is promoted. -/
def relaidRun : List Label :=
  [.start 0, .assembly 0 .getMeta, .delete 1, .put { twoBlocks with blockSize := 4 } 2,
    .assembly 0 (.getMetaWithVersion true), .assembly 0 (.probe (.ok true)),
    .assembly 0 (.probe (.ok true)), .assembly 0 .probed, .assembly 0 (.promote 11 true),
    .assembly 0 (.getMetaWithVersion true), .assembly 0 (.clock 21),
    .assembly 0 (.putMetaIfVersion true)]

def relaidLog : List Event :=
  [.served 0 twoBlocks, .tokenRead 0 { twoBlocks with blockSize := 4 } 3, .present 0 0,
    .present 0 1,
    .promoted 0 ⟨3, { twoBlocks with blockSize := 4, blocksComplete := true }, 80, 21⟩]

theorem promotion_of_relaid_entry :
    ∃ w, run (World.step Cell.store 100) (.initial ⟨some twoBlocks, 0⟩) relaidRun = some w ∧
      Cell.row w.store = some { twoBlocks with blockSize := 4, blocksComplete := true } ∧
      ∃ c, .promoted 0 c ∈ w.log ∧ ¬Justified 100 w.log 0 c := by
  obtain ⟨w, hrun, hrow, hlog⟩ : ∃ w,
      run (World.step Cell.store 100) (.initial ⟨some twoBlocks, 0⟩) relaidRun = some w ∧
        Cell.row w.store = some { twoBlocks with blockSize := 4, blocksComplete := true } ∧
        w.log = relaidLog := exists_run_of_any (by decide +kernel)
  refine ⟨w, hrun, hrow, ⟨3, { twoBlocks with blockSize := 4, blocksComplete := true }, 80, 21⟩,
    by simp [hlog, relaidLog], ?_⟩
  rintro ⟨entry, row, horder, -, hsize, -, hrow, -⟩
  have hserved : Event.served 0 entry ∈ relaidLog := hlog ▸ horder.subset (by simp)
  obtain rfl : entry = twoBlocks := by simpa [relaidLog] using hserved
  have hpromoted : (4 : ℤ) = row.blockSize := congrArg CachedObjectMeta.blockSize hrow
  simp [← hpromoted, twoBlocks] at hsize

end TagGateway.Proxy.Promotion
