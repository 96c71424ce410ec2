import TagGateway.Proxy.RetierRegistry
import TagGateway.Proxy.TieredConvergence
import TagGateway.Proxy.TieredSteps

/-!
# What a re-tier may change, and what it commits

The version of the marker travels with the worker from the GET that read it to the
worker's only write. The body it commits is traced back to the answer it came from.
-/
namespace TagGateway.Proxy

open Foundation Cache

universe u

variable {σ : Type u} {store : VersionedStore σ Row} {cfg : TieredConfig} {lib : EngineLib}
  {newBodyRef : ℕ → Bytes}

def RetierPhase.staged : RetierPhase → Option Row
  | .rereading row | .checking row | .committing row => some row
  | .seen | .verifying | .fetching | .storing _ _ | .removing | .rewriting _ | .discarding
  | .finished => none

namespace Retier

/-- What the row becomes if the worker's next write takes effect. -/
def writes (w : Retier) : Option (Option Row) :=
  match w.phase with
  | .committing row | .rewriting row => some (some row)
  | .removing => some none
  | .seen | .verifying | .fetching | .storing _ _ | .rereading _ | .checking _ | .discarding
  | .finished => none

variable {r : ℕ} {sh : Tier σ} {w : Retier} {x : Tier σ × Retier} {input : RetierInput}

/-- A write takes effect over the version the worker carries, and no other step of it
touches the row. -/
theorem step_writes (h : store.Lawful) (hpos : 0 < w.version)
    (hstep : w.step store cfg newBodyRef r sh input = some x) :
    x.1.store = sh.store ∨ (w.writes = none ∧ store.row x.1.store = store.row sh.store) ∨
      ∃ row, w.writes = some row ∧ store.version sh.store = w.version ∧
        store.row x.1.store = row := by
  have hput : ∀ row, (sh.putMetaIfVersion store row w.version).1.store = sh.store ∨
      (store.version sh.store = w.version ∧
        store.row (sh.putMetaIfVersion store row w.version).1.store = some row) := by
    intro row
    rcases sh.putMetaIfVersion_cases h row hpos with ⟨s, heq, hv, hrow, -⟩ | ⟨heq, -⟩
    · rw [heq]
      exact .inr ⟨hv, hrow⟩
    · rw [heq]
      exact .inl rfl
  have hdelete : (sh.deleteMetaIfVersion store w.version).1.store = sh.store ∨
      (store.version sh.store = w.version ∧
        store.row (sh.deleteMetaIfVersion store w.version).1.store = none) := by
    rcases sh.deleteMetaIfVersion_cases h hpos with ⟨s, heq, hv, hrow, -⟩ | ⟨heq, -⟩
    · rw [heq]
      exact .inr ⟨hv, hrow⟩
    · rw [heq]
      exact .inl rfl
  have hwrite : ∀ row s, w.writes = some row →
      (s = sh.store ∨ store.version sh.store = w.version ∧ store.row s = row) →
      s = sh.store ∨ (w.writes = none ∧ store.row s = store.row sh.store) ∨
        ∃ row, w.writes = some row ∧ store.version sh.store = w.version ∧ store.row s = row := by
    intro row s hrow hs
    rcases hs with hsame | hs
    · exact .inl hsame
    · exact .inr (.inr ⟨row, hrow, hs⟩)
  unfold step at hstep
  split at hstep
  case h_1 hphase =>
    cases hstep
    exact .inr (.inl ⟨by rw [writes, hphase], h.get_row sh.store⟩)
  case h_2 hphase =>
    split at hstep
    · cases hstep
      exact .inl rfl
    · cases hstep
  case h_3 hphase =>
    cases hstep
    unfold stream
    dsimp only
    split_ifs <;> exact .inl rfl
  case h_4 hphase =>
    cases hstep
    exact .inr (.inl ⟨by rw [writes, hphase], h.get_row sh.store⟩)
  case h_6 hphase =>
    cases hstep
    exact hwrite _ _ (by rw [writes, hphase]) (hput _)
  case h_7 applied hphase =>
    cases hstep
    cases applied with
    | false => exact .inl rfl
    | true => exact hwrite _ _ (by rw [writes, hphase]) (hput _)
  case h_8 hphase =>
    cases hstep
    exact hwrite _ _ (by rw [writes, hphase]) hdelete
  case h_9 applied hphase =>
    cases hstep
    cases applied with
    | false => exact .inl rfl
    | true => exact hwrite _ _ (by rw [writes, hphase]) hdelete
  case h_10 hphase =>
    cases hstep
    exact hwrite _ _ (by rw [writes, hphase]) (hput _)
  case h_11 applied hphase =>
    cases hstep
    cases applied with
    | false => exact .inl rfl
    | true => exact hwrite _ _ (by rw [writes, hphase]) (hput _)
  case h_12 deleted hphase =>
    cases hstep
    cases deleted <;> exact .inl rfl
  all_goals
    cases hstep
    try exact .inl rfl

/-- A body is stored from an answer with the marker's tag. -/
theorem step_storing {row : Row} {body : Source UInt8}
    (hstep : w.step store cfg newBodyRef r sh input = some x)
    (hphase : x.2.phase = .storing row body) :
    w.phase = .fetching ∧ ∃ resp drained, input = .response resp drained ∧ resp.status = 200 ∧
      resp.header.get (ascii "ETag") = w.marker.metadata.etag ∧
      body = ⟨resp.body, if drained then .eof else .unexpectedEOF⟩ := by
  unfold step at hstep
  split at hstep
  case h_2 resp drained hfetching =>
    split at hstep
    · cases hstep
      refine ⟨hfetching, resp, drained, rfl, ?_⟩
      unfold receive at hphase
      dsimp only at hphase
      split_ifs at hphase with hmatch hdrained
      all_goals
        cases hphase
        exact ⟨hmatch.1, hmatch.2, by simp [hdrained]⟩
    · cases hstep
  case h_3 =>
    cases hstep
    unfold stream at hphase
    dsimp only at hphase
    split_ifs at hphase
  all_goals
    cases hstep
    try
      dsimp only at hphase
      split_ifs at hphase
    try cases hphase

/-- A body of the marker's length that ended cleanly was read as a whole: the limit is
a byte longer. -/
theorem readBody_whole {body : Source UInt8} {calls : List (ℕ × Reply)}
    (heof : (w.readBody body calls).2 = some .eof)
    (hlength : ((w.readBody body calls).1.length : ℤ) = w.marker.metadata.contentLength) :
    (w.readBody body calls).1 = body.rest := by
  have hlimit : (w.readBody body calls).1.length < (w.marker.metadata.contentLength + 1).toNat := by
    rw [← hlength]
    omega
  exact (Source.readLimited_eof (Prod.ext rfl heof) hlimit).1

/-- A row is staged when the whole body was stored under its reference, and stays as
it is from there. -/
theorem step_staged {row : Row} (hstep : w.step store cfg newBodyRef r sh input = some x)
    (hstaged : x.2.phase.staged = some row) :
    w.phase.staged = some row ∨
      ∃ row₀ body calls, w.phase = .storing row₀ body ∧ input = .stream calls .stored ∧
        ((w.readBody body calls).1.length : ℤ) = w.marker.metadata.contentLength ∧
        row.metadata.bodyRef = newBodyRef r ∧
        row.metadata.contentLength = w.marker.metadata.contentLength := by
  unfold step at hstep
  split at hstep
  case h_2 =>
    split at hstep
    · cases hstep
      unfold receive at hstaged
      dsimp only at hstaged
      split_ifs at hstaged <;> cases hstaged
    · cases hstep
  case h_3 row₀ body calls reply hstoring =>
    cases hstep
    unfold stream at hstaged
    dsimp only at hstaged
    split_ifs at hstaged with hstored hlength
    · cases hstaged
      rw [hstored]
      exact .inr ⟨row₀, body, calls, hstoring, rfl, hlength, rfl, hlength⟩
    all_goals cases hstaged
  case h_4 hphase =>
    cases hstep
    rw [hphase]
    dsimp only at hstaged
    split_ifs at hstaged
    · exact .inl hstaged
    · cases hstaged
  case h_5 hphase =>
    cases hstep
    rw [hphase]
    dsimp only at hstaged
    split_ifs at hstaged
    · cases hstaged
    · exact .inl hstaged
  case h_1 =>
    cases hstep
    dsimp only at hstaged
    split_ifs at hstaged <;> cases hstaged
  case h_6 =>
    cases hstep
    dsimp only at hstaged
    split_ifs at hstaged <;> cases hstaged
  all_goals
    cases hstep
    try cases hstaged

end Retier

/-! ## Where a worker's data come from -/

namespace TieredWorld

variable (store) in
def ReadsMarker (r : ℕ) (marker : Row) (version : ℕ) (w : TieredWorld σ) (l : TieredLabel) : Prop :=
  (∃ node, l = .readMarker r node) ∧
    (w.shared.getMetaWithVersion store).2 = (some marker, version)

def Receives (r : ℕ) (resp : Response) (w : TieredWorld σ) (l : TieredLabel) : Prop :=
  (∃ drained, l = .retier r (.response resp drained)) ∧
    (w.retiers r).map Retier.phase = some .fetching

def StoresBody (r : ℕ) (bytes : Bytes) (w : TieredWorld σ) (l : TieredLabel) : Prop :=
  ∃ wk row body calls, w.retiers r = some wk ∧ wk.phase = .storing row body ∧
    l = .retier r (.stream calls .stored) ∧ (wk.readBody body calls).1 = bytes

/-- A body that was stored without an error was read to its end. -/
def storesToEnd (w : TieredWorld σ) : TieredLabel → Bool
  | .retier r (.stream calls .stored) =>
    (w.retiers r).all fun wk =>
      match wk.phase with
      | .storing _ body => (wk.readBody body calls).2 == some .eof
      | _ => true
  | _ => true

theorem storesToEnd_storing {w : TieredWorld σ} {r : ℕ} {calls : List (ℕ × Reply)} {wk : Retier}
    {row : Row} {body : Source UInt8} (hguard : w.storesToEnd (.retier r (.stream calls .stored)))
    (hwk : w.retiers r = some wk) (hphase : wk.phase = .storing row body) :
    (wk.readBody body calls).2 = some .eof := by
  simpa only [storesToEnd, hwk, Option.all_some, hphase, beq_iff_eq] using hguard

end TieredWorld

variable (store cfg lib newBodyRef) in
/-- What the run so far tells about worker `r`. -/
structure Traced (start : TieredWorld σ) (ls : List TieredLabel) (w : TieredWorld σ) (r : ℕ)
    (wk : Retier) : Prop where
  observed : store.Observed w.shared.store (some wk.marker) wk.version
  length : 0 ≤ wk.marker.metadata.contentLength
  read : Took (TieredWorld.step store cfg lib newBodyRef)
    (TieredWorld.ReadsMarker store r wk.marker wk.version) start ls
  fetched : ∀ row body, wk.phase = .storing row body → ∃ resp, ∃ drained : Bool,
    Took (TieredWorld.step store cfg lib newBodyRef) (TieredWorld.Receives r resp) start ls ∧
    resp.status = 200 ∧ resp.header.get (ascii "ETag") = wk.marker.metadata.etag ∧
    body = ⟨resp.body, if drained then .eof else .unexpectedEOF⟩
  whole : ∀ row, wk.phase.staged = some row →
    row.metadata.bodyRef = newBodyRef r ∧
    row.metadata.contentLength = wk.marker.metadata.contentLength ∧ ∃ resp,
    Took (TieredWorld.step store cfg lib newBodyRef) (TieredWorld.Receives r resp) start ls ∧
    resp.status = 200 ∧ resp.header.get (ascii "ETag") = wk.marker.metadata.etag ∧
    (resp.body.length : ℤ) = wk.marker.metadata.contentLength ∧
    Took (TieredWorld.step store cfg lib newBodyRef) (TieredWorld.StoresBody r resp.body) start ls

namespace Traced

variable {start w w' : TieredWorld σ} {ls : List TieredLabel} {l : TieredLabel} {r : ℕ}
  {wk : Retier}

theorem snoc (hwk : Traced store cfg lib newBodyRef start ls w r wk)
    (hrun : run (TieredWorld.step store cfg lib newBodyRef) start ls = some w)
    (hadvances : store.Advances w.shared.store w'.shared.store) :
    Traced store cfg lib newBodyRef start (ls ++ [l]) w' r wk := by
  have hmono : ∀ p, Took (TieredWorld.step store cfg lib newBodyRef) p start ls →
      Took (TieredWorld.step store cfg lib newBodyRef) p start (ls ++ [l]) :=
    fun p hp => (took_snoc_iff hrun).mpr (.inl hp)
  refine ⟨hwk.observed.advance hadvances, hwk.length, hmono _ hwk.read, ?_, ?_⟩
  · intro row body hphase
    obtain ⟨resp, drained, htook, hrest⟩ := hwk.fetched row body hphase
    exact ⟨resp, drained, hmono _ htook, hrest⟩
  · intro row hstaged
    obtain ⟨href, hlength, resp, htook, hstatus, hetag, hbody, hstored⟩ := hwk.whole row hstaged
    exact ⟨href, hlength, resp, hmono _ htook, hstatus, hetag, hbody, hmono _ hstored⟩

theorem congr {wk' : Retier} (hwk : Traced store cfg lib newBodyRef start ls w r wk)
    (hmarker : wk'.marker = wk.marker) (hversion : wk'.version = wk.version)
    (hstoring : ∀ row body, wk'.phase = .storing row body → wk.phase = .storing row body)
    (hstaged : ∀ row, wk'.phase.staged = some row → wk.phase.staged = some row) :
    Traced store cfg lib newBodyRef start ls w r wk' := by
  constructor
  · rw [hmarker, hversion]
    exact hwk.observed
  · rw [hmarker]
    exact hwk.length
  · rw [hmarker, hversion]
    exact hwk.read
  · rw [hmarker]
    exact fun row body hphase => hwk.fetched row body (hstoring row body hphase)
  · rw [hmarker]
    exact fun row hphase => hwk.whole row (hstaged row hphase)

theorem moved (h : store.Lawful) {input : RetierInput} {x : Tier σ × Retier}
    (hwk : Traced store cfg lib newBodyRef start ls w r wk)
    (hrun : run (TieredWorld.step store cfg lib newBodyRef) start ls = some w)
    (hguard : w.storesToEnd (.retier r input)) (hfound : w.retiers r = some wk)
    (hstep : wk.step store cfg newBodyRef r w.shared input = some x)
    (hshared : w'.shared = x.1) :
    Traced store cfg lib newBodyRef start (ls ++ [.retier r input]) w' r x.2 := by
  have hadvances : store.Advances w.shared.store w'.shared.store := by
    rw [hshared]
    exact (Retier.step_touches h hstep).advances
  have hkept := hwk.snoc (l := .retier r input) hrun hadvances
  obtain ⟨-, q, hq⟩ := Retier.step_phase hstep
  have hmarker : x.2.marker = wk.marker := by rw [hq]
  have hversion : x.2.version = wk.version := by rw [hq]
  constructor
  · rw [hmarker, hversion]
    exact hkept.observed
  · rw [hmarker]
    exact hkept.length
  · rw [hmarker, hversion]
    exact hkept.read
  · intro row body hphase
    obtain ⟨hfetching, resp, drained, rfl, hstatus, hetag, hbody⟩ :=
      Retier.step_storing hstep hphase
    refine ⟨resp, drained, (took_snoc_iff hrun).mpr (.inr ⟨⟨drained, rfl⟩, ?_⟩), hstatus, ?_, hbody⟩
    · rw [hfound, Option.map_some, hfetching]
    · rw [hmarker]
      exact hetag
  · intro row hstaged
    rw [hmarker]
    rcases Retier.step_staged hstep hstaged with hold | ⟨row₀, body, calls, hphase, rfl, hlength,
      href, hrow⟩
    · exact hkept.whole row hold
    · -- the source ended cleanly before the extra byte, so all of it was read
      obtain ⟨resp, drained, htook, hstatus, hetag, rfl⟩ := hkept.fetched row₀ body hphase
      have heof := TieredWorld.storesToEnd_storing hguard hfound hphase
      have hall := Retier.readBody_whole heof hlength
      refine ⟨href, hrow, resp, htook, hstatus, hetag, ?_, ?_⟩
      · rw [← hlength, hall]
      · exact (took_snoc_iff hrun).mpr (.inr ⟨wk, row₀, _, calls, hfound, hphase, rfl, hall⟩)

theorem step (h : store.Lawful)
    (hold : ∀ k old, w.retiers k = some old → Traced store cfg lib newBodyRef start ls w k old)
    (hrun : run (TieredWorld.step store cfg lib newBodyRef) start ls = some w)
    (hguard : w.storesToEnd l) (hstep : w.step store cfg lib newBodyRef l = some w')
    (hwk : w'.retiers r = some wk) :
    Traced store cfg lib newBodyRef start (ls ++ [l]) w' r wk := by
  have hadvances := (TieredWorld.step_touches h hstep).advances
  cases TieredWorld.step_retier hstep hwk with
  | kept found c eq =>
    subst eq
    exact ((hold r _ found).snoc hrun hadvances).congr rfl rfl (fun _ _ hp => hp) fun _ hp => hp
  | placed found phase eq =>
    subst eq
    refine ((hold r _ found).snoc hrun hadvances).congr rfl rfl ?_ ?_
    · intro row body hp
      rcases phase with rfl | rfl <;> cases hp
    · intro row hp
      rcases phase with rfl | rfl <;> cases hp
  | read label unused fits found shared phase =>
    subst label
    rw [w.shared.getMetaWithVersion_eq h] at found shared
    refine ⟨?_, ?_, (took_snoc_iff hrun).mpr (.inr ⟨⟨_, rfl⟩, ?_⟩), ?_, ?_⟩
    · obtain ⟨hrow, hversion⟩ := Prod.mk.inj found
      rw [shared, ← hrow, ← hversion]
      exact h.get_observed w.shared.store
    · unfold Retier.fits at fits
      simp only [Bool.and_eq_true, decide_eq_true_eq] at fits
      exact fits.2.1
    · rw [w.shared.getMetaWithVersion_eq h]
      exact found
    · intro row body hp
      rw [phase] at hp
      cases hp
    · intro row hp
      rw [phase] at hp
      cases hp
  | moved label found step eq =>
    subst label eq
    refine (hold r _ found).moved h hrun hguard found step ?_
    simp only [TieredWorld.step, found, Option.bind_some, step, Option.map_some,
      Option.some.injEq] at hstep
    rw [← hstep, TieredWorld.unregisterRetier_shared]

end Traced

/-- The registrations, the claims and the workers' histories, along a run. -/
structure RetierHistory (store : VersionedStore σ Row) (cfg : TieredConfig) (lib : EngineLib)
    (newBodyRef : ℕ → Bytes) (start : TieredWorld σ) (ls : List TieredLabel)
    (w : TieredWorld σ) : Prop where
  registry : Registry w
  counted : w.Counted
  traced : ∀ r wk, w.retiers r = some wk → Traced store cfg lib newBodyRef start ls w r wk

theorem retierHistory_run (h : store.Lawful) {start w : TieredWorld σ} {ls : List TieredLabel}
    (hidle : start.Idle)
    (hguard : Along (TieredWorld.step store cfg lib newBodyRef)
      (fun w l => w.storesToEnd l = true) start ls)
    (hrun : run (TieredWorld.step store cfg lib newBodyRef) start ls = some w) :
    RetierHistory store cfg lib newBodyRef start ls w := by
  refine run_history ?_ ?_ hguard hrun
  · refine ⟨hidle.registry, hidle.counted, ?_⟩
    rw [hidle.retiers]
    intro r wk hwk
    cases hwk
  · intro ls w l w' hrun hw hl hstep
    exact ⟨hw.registry.step hstep, hw.counted.step hstep,
      fun r wk hwk => Traced.step h hw.traced hrun hl hstep hwk⟩

/-- A re-tier changes the row only over the marker and the version its GET read; what
it commits is the whole body of an answer with the marker's tag, of the marker's
length; one is registered on a node at a time; and none is that was not cancelled, nor
can be, while a write holds the key there. -/
theorem retier_safety (h : store.Lawful) {start w : TieredWorld σ} {ls : List TieredLabel}
    (hidle : start.Idle)
    (hguard : Along (TieredWorld.step store cfg lib newBodyRef)
      (fun w l => w.storesToEnd l = true) start ls)
    (hrun : run (TieredWorld.step store cfg lib newBodyRef) start ls = some w) :
    (∀ r wk input w', w.retiers r = some wk →
      w.step store cfg lib newBodyRef (.retier r input) = some w' →
        w'.shared.store = w.shared.store ∨
        (wk.writes = none ∧ store.row w'.shared.store = store.row w.shared.store) ∨
        ∃ row, wk.writes = some row ∧ store.row w'.shared.store = row ∧
          store.version w.shared.store = wk.version ∧
          store.row w.shared.store = some wk.marker ∧
          Took (TieredWorld.step store cfg lib newBodyRef)
            (TieredWorld.ReadsMarker store r wk.marker wk.version) start ls) ∧
    (∀ r wk row, w.retiers r = some wk → wk.phase = .committing row →
      row.metadata.bodyRef = newBodyRef r ∧
      row.metadata.contentLength = wk.marker.metadata.contentLength ∧ ∃ resp,
      Took (TieredWorld.step store cfg lib newBodyRef) (TieredWorld.Receives r resp) start ls ∧
      resp.status = 200 ∧ resp.header.get (ascii "ETag") = wk.marker.metadata.etag ∧
      (resp.body.length : ℤ) = wk.marker.metadata.contentLength ∧
      Took (TieredWorld.step store cfg lib newBodyRef) (TieredWorld.StoresBody r resp.body)
        start ls) ∧
    (∀ r r' wk wk', w.retiers r = some wk → w.retiers r' = some wk' → wk.active = true →
      wk'.active = true → wk.node = wk'.node → r = r') ∧
    ∀ node c, w.Holds node c →
      (∀ r wk, w.retiers r = some wk → wk.active = true → wk.node = node → wk.canceled = true) ∧
      ∀ r wk w', w.retiers r = some wk → wk.node = node →
        w.step store cfg lib newBodyRef (.registerRetier r) = some w' →
        w'.retiers r = some { wk with phase := .finished } := by
  have hw := retierHistory_run h hidle hguard hrun
  refine ⟨?_, ?_, ?_, ?_⟩
  · intro r wk input w' hwk hstep
    have htraced := hw.traced r wk hwk
    simp only [TieredWorld.step, hwk, Option.bind_some, Option.map_eq_some_iff] at hstep
    obtain ⟨x, hx, rfl⟩ := hstep
    rw [TieredWorld.unregisterRetier_shared]
    rcases Retier.step_writes h htraced.observed.pos hx with hsame | hread | ⟨row, hwrites, hv, hrow⟩
    · exact .inl hsame
    · exact .inr (.inl hread)
    · exact .inr (.inr ⟨row, hwrites, hrow, hv, htraced.observed.current hv, htraced.read⟩)
  · intro r wk row hwk hphase
    exact (hw.traced r wk hwk).whole row (by rw [hphase]; rfl)
  · intro r r' wk wk' hwk hwk' hactive hactive' hnode
    exact hw.registry.unique hwk hwk' hactive hactive' hnode
  · intro node c hc
    have hpos := hw.counted.pos hc
    constructor
    · rintro r wk hwk hactive rfl
      exact hw.registry.canceled r wk hwk hactive hpos
    · rintro r wk w' hwk rfl hstep
      simp only [TieredWorld.step, hwk, Option.bind_some, Nat.ne_of_gt hpos, false_and,
        if_false, Option.ite_none_right_eq_some, Option.some.injEq] at hstep
      obtain ⟨-, rfl⟩ := hstep
      exact Function.update_self _ _ _

theorem markedTier_idle : markedTier.Idle := ⟨rfl, rfl, rfl, rfl, rfl⟩

def fourByteResponse : Response := { taggedResponse 200 "a" "4" with body := ascii "body" }

def retierUnderWay : List TieredLabel :=
  [.readMarker 0 1, .registerRetier 0, .retier 0 .proceed,
    .retier 0 (.response fourByteResponse true), .retier 0 (.stream [(8, ⟨4, true⟩)] .stored),
    .retier 0 .proceed, .retier 0 .proceed]

def retierReady : Retier where
  node := 1
  marker := fourByteMarker
  version := 2
  phase := .committing
    ⟨{ responseMeta sampleTiered.toConfig 200 fourByteResponse.header fourByteResponse.receivedAt with
        bodyRef := sampleRef 0, contentLength := 4 }, 0⟩

theorem retier_safety_four_bytes :
    ∃ w, run (TieredWorld.step Cell.store sampleTiered engineLib sampleRef) markedTier
        retierUnderWay = some w ∧ w.retiers 0 = some retierReady ∧ ∃ resp : Response,
      Took (TieredWorld.step Cell.store sampleTiered engineLib sampleRef)
        (TieredWorld.StoresBody 0 resp.body) markedTier retierUnderWay ∧
      resp.header.get (ascii "ETag") = ascii "a" ∧ resp.body.length = 4 := by
  have hends : ∃ w, run (TieredWorld.step Cell.store sampleTiered engineLib sampleRef) markedTier
      retierUnderWay = some w ∧ w.retiers 0 = some retierReady :=
    exists_run_of_any (by decide +kernel)
  obtain ⟨w, hrun, hwk⟩ := hends
  obtain ⟨-, -, resp, -, -, hetag, hbody, hstored⟩ :=
    (retier_safety Cell.store_lawful markedTier_idle (by decide +kernel) hrun).2.1 0 _ _ hwk rfl
  exact ⟨w, hrun, hwk, resp, hstored, hetag, Int.ofNat.inj hbody⟩

end TagGateway.Proxy
