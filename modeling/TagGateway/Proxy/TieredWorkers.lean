import TagGateway.Proxy.TieredEffects

/-!
# What a forwarded mutation or a background worker can do

The effects of the processes that move between the tiers, as long as the store does
not fail: a mutation that goes upstream, a re-tier, and the upgrade of a completion's
marker.
-/
namespace TagGateway.Proxy

open Foundation Cache

universe u

variable {σ : Type u} {store : VersionedStore σ Row} {cfg : TieredConfig} {lib : EngineLib}

theorem Tier.object_of_answers {sh : Tier σ} {resp : Response} (h : sh.answers resp = true)
    (hstatus : resp.status = 200) : ∃ o, sh.object = some o ∧ sh.sourceId = o.id := by
  rw [Tier.answers, if_pos hstatus, Option.any_eq_true] at h
  obtain ⟨o, ho, -⟩ := h
  exact ⟨o, ho, by simp [Tier.sourceId, ho]⟩

def TieredLabel.storeError : TieredLabel → Bool
  | .put _ (.storeError _) | .delete _ (.storeError _) | .mutation _ (.storeError _)
  | .retier _ (.storeError _) | .upgrade _ (.storeError _) => true
  | _ => false

namespace Forwarded

def settling (m : Forwarded) : Bool :=
  match m.phase with
  | .marking _ | .sweeping | .converging _ => true
  | .capturing | .forwarding | .abandoned | .finished => false

variable (store cfg lib)

/-- Everything a step of mutation `j` can do without a store error. -/
inductive Effect (j : ℕ) (sh : Tier σ) (m : Forwarded) : Tier σ → Forwarded → Prop
  | skip (phase : m.phase = .capturing) (unowned : m.ownsRow cfg lib = false) :
      Effect j sh m sh { m with phase := .forwarding }
  | capture (phase : m.phase = .capturing) (owned : m.ownsRow cfg lib = true) :
      Effect j sh m
        (({ sh with store := (store.getWithVersion sh.store).1 } : Tier σ).emit (.captured j))
        { m with
          phase := .forwarding
          prior := some (store.row sh.store, (store.getWithVersion sh.store).2.2) }
  | apply {etag : Bytes} (phase : m.phase = .forwarding ∨ m.phase = .abandoned) :
      Effect j sh m (m.applyUpstream sh etag).1 (m.applyUpstream sh etag).2
  | giveUp {q : ForwardedPhase} (phase : m.phase = .forwarding ∨ m.phase = .abandoned)
      (next : q = .finished ∨ q = .abandoned) : Effect j sh m sh { m with phase := q }
  | confirm {etag : Bytes} {now : ℤ} (phase : m.phase = .forwarding) (applied : m.applied ≠ none) :
      Effect j sh m (sh.emit (.acked j)) (m.confirm cfg lib etag now)
  | mark {row : Row} {s : σ} (phase : m.phase = .marking row)
      (version : store.version sh.store = m.priorVersion) (found : store.row s = some row)
      (advances : store.version sh.store < store.version s) :
      Effect j sh m (({ sh with store := s } : Tier σ).emit (.marked j))
        { m with phase := .finished }
  | unmarked {row : Row} (phase : m.phase = .marking row) :
      Effect j sh m sh m.invalidateDisplacedTieredMeta
  | remove {s : σ} (phase : m.phase = .sweeping ∨ ∃ retried, m.phase = .converging retried)
      (gone : store.row s = none) (advances : store.version sh.store < store.version s) :
      Effect j sh m { sh with store := s } { m with phase := .finished }
  | kept (phase : m.phase = .sweeping ∨ ∃ retried, m.phase = .converging retried)
      (version : store.version sh.store ≠ m.priorVersion) :
      Effect j sh m sh { m with phase := .finished }

variable {store cfg lib} {j : ℕ} {sh : Tier σ} {m : Forwarded}

theorem remove_effect (h : store.Lawful) (hpos : 0 < m.priorVersion)
    (hphase : m.phase = .sweeping ∨ ∃ retried, m.phase = .converging retried) :
    Effect store cfg lib j sh m (sh.deleteMetaIfVersion store m.priorVersion).1
      { m with phase := .finished } := by
  rcases sh.deleteMetaIfVersion_cases h hpos with ⟨s, heq, -, hrow, hlt⟩ | ⟨heq, hversion⟩
  · rw [heq]
    exact .remove hphase hrow hlt
  · rw [heq]
    exact .kept hphase hversion

theorem step_effect (h : store.Lawful) {r : Tier σ × Forwarded} {input : ForwardedInput}
    (hpos : m.settling = true → 0 < m.priorVersion)
    (herror : (TieredLabel.mutation j input).storeError = false)
    (hstep : m.step store cfg lib j sh input = some r) :
    Effect store cfg lib j sh m r.1 r.2 := by
  unfold step at hstep
  split at hstep
  · rename_i hphase
    split at hstep
    · rename_i howned
      rw [captureMarkerPrior, sh.getMetaWithVersion_eq h] at hstep
      cases hstep
      exact .capture hphase howned
    · rename_i howned
      cases hstep
      exact .skip hphase (by simpa using howned)
  · cases herror
  · rename_i hphase
    split at hstep
    · cases hstep
      exact .apply (.inl hphase)
    · cases hstep
  · rename_i hphase
    split at hstep
    · cases hstep
      exact .apply (.inr hphase)
    · cases hstep
  · rename_i hphase
    split at hstep
    · split at hstep
      · cases hstep
      · rename_i happlied
        cases hstep
        exact .confirm hphase happlied
    · cases hstep
      exact .giveUp (.inl hphase) (.inl rfl)
  · rename_i hphase
    cases hstep
    exact .giveUp (.inl hphase) (.inr rfl)
  · rename_i hphase
    cases hstep
    exact .giveUp (.inr hphase) (.inl rfl)
  · rename_i row hphase
    rw [commitUpstreamMarker] at hstep
    rcases sh.putMetaIfVersion_cases h row (hpos (by rw [settling, hphase])) with
      ⟨s, heq, hversion, hrow, hlt⟩ | ⟨heq, -⟩
    · rw [heq] at hstep
      cases hstep
      exact .mark hphase hversion hrow hlt
    · rw [heq] at hstep
      cases hstep
      exact .unmarked hphase
  · cases herror
  · rename_i hphase
    cases hstep
    exact remove_effect h (hpos (by rw [settling, hphase])) (.inl hphase)
  · cases herror
  · rename_i hphase
    cases hstep
    exact remove_effect h (hpos (by rw [settling, hphase])) (.inr ⟨_, hphase⟩)
  · cases herror
  · cases hstep

end Forwarded

def RetierPhase.row : RetierPhase → Option Row
  | .storing row _ | .rereading row | .checking row | .committing row | .rewriting row => some row
  | .seen | .verifying | .fetching | .removing | .discarding | .finished => none

namespace Retier

variable (store)

/-- Everything a step of a re-tier can do without a store error. -/
inductive Effect (sh : Tier σ) (w : Retier) : Tier σ → Retier → Prop
  | turn {s : σ} {bodies : List Bytes} {q : RetierPhase}
      (reads : s = sh.store ∨ s = (store.getWithVersion sh.store).1)
      (row : ∀ row, q.row = some row →
        ∃ old, w.phase.row = some old ∧ row.source = old.source) :
      Effect sh w { sh with store := s, bodies := bodies } { w with phase := q }
  | fetch {q : RetierPhase} {o : ObjectVersion} (object : sh.object = some o)
      (row : ∀ row, q.row = some row → row.source = o.id) :
      Effect sh w sh { w with phase := q }
  | install {row : Row} {s : σ} (phase : w.phase = .committing row ∨ w.phase = .rewriting row)
      (version : store.version sh.store = w.version) (found : store.row s = some row)
      (advances : store.version sh.store < store.version s) :
      Effect sh w { sh with store := s } { w with phase := .finished }
  | remove {s : σ} (gone : store.row s = none)
      (advances : store.version sh.store < store.version s) :
      Effect sh w { sh with store := s } { w with phase := .finished }

variable {store} {newBodyRef : ℕ → Bytes} {r : ℕ} {sh : Tier σ} {w : Retier}

/-- A step that does not touch the row, to a phase that would install none. -/
theorem Effect.idle {q : RetierPhase} (hq : q.row = none) :
    Effect store sh w sh { w with phase := q } :=
  .turn (.inl rfl) (by simp [hq])

theorem receive_effect {resp : Response} {drained : Bool} (hanswers : sh.answers resp = true) :
    Effect store sh w sh (w.receive cfg sh resp drained) := by
  unfold receive
  dsimp only
  split
  · rename_i hsame
    obtain ⟨o, ho, hid⟩ := Tier.object_of_answers hanswers hsame.1
    apply Effect.fetch ho
    rintro row ⟨⟩
    exact hid
  split
  · exact .idle rfl
  split
  · rename_i hstatus
    obtain ⟨o, ho, hid⟩ := Tier.object_of_answers hanswers hstatus
    apply Effect.fetch ho
    rintro row ⟨⟩
    exact hid
  · exact .idle rfl

theorem stream_effect {row : Row} {body : Source UInt8} (hphase : w.phase = .storing row body)
    (calls : List (ℕ × Reply)) (reply : BodyReply) :
    Effect store sh w (w.stream newBodyRef r sh row body calls reply).1
      (w.stream newBodyRef r sh row body calls reply).2 := by
  have hrow : w.phase.row = some row := by rw [hphase, RetierPhase.row]
  unfold stream
  dsimp only
  split
  · dsimp only
    split
    · apply Effect.turn (.inl rfl)
      rintro row' ⟨⟩
      exact ⟨row, hrow, rfl⟩
    · exact .turn (.inl rfl) (by simp [RetierPhase.row])
  · exact .idle rfl

theorem step_effect (h : store.Lawful) {x : Tier σ × Retier} {input : RetierInput}
    (hpos : 0 < w.version) (herror : (TieredLabel.retier r input).storeError = false)
    (hstep : w.step store cfg newBodyRef r sh input = some x) : Effect store sh w x.1 x.2 := by
  unfold step at hstep
  split at hstep
  · rw [sh.getMetaWithVersion_eq h] at hstep
    cases hstep
    refine .turn (.inr rfl) ?_
    split <;> simp [RetierPhase.row]
  · split at hstep
    · rename_i hanswers
      cases hstep
      exact receive_effect hanswers
    · cases hstep
  · rename_i hphase
    cases hstep
    exact stream_effect hphase _ _
  · rename_i row hphase
    rw [sh.getMetaWithVersion_eq h] at hstep
    cases hstep
    refine .turn (.inr rfl) fun row' hrow' => ⟨row, by rw [hphase, RetierPhase.row], ?_⟩
    split at hrow'
    · cases hrow'
      rfl
    · cases hrow'
  · rename_i row hphase
    cases hstep
    refine .turn (.inl rfl) fun row' hrow' => ⟨row, by rw [hphase, RetierPhase.row], ?_⟩
    split at hrow'
    · cases hrow'
    · cases hrow'
      rfl
  · rename_i row hphase
    rcases sh.putMetaIfVersion_cases h row hpos with ⟨s, heq, hversion, hrow, hlt⟩ | ⟨heq, -⟩
    · rw [heq] at hstep
      cases hstep
      exact .install (.inl hphase) hversion hrow hlt
    · rw [heq] at hstep
      cases hstep
      exact .idle rfl
  · cases herror
  · cases hstep
    rcases sh.deleteMetaIfVersion_cases h hpos with ⟨s, heq, -, hrow, hlt⟩ | ⟨heq, -⟩
    · rw [heq]
      exact .remove hrow hlt
    · rw [heq]
      exact .idle rfl
  · cases herror
  · rename_i row hphase
    cases hstep
    rcases sh.putMetaIfVersion_cases h row hpos with ⟨s, heq, hversion, hrow, hlt⟩ | ⟨heq, -⟩
    · rw [heq]
      exact .install (.inr hphase) hversion hrow hlt
    · rw [heq]
      exact .idle rfl
  · cases herror
  · rename_i deleted hphase
    cases hstep
    cases deleted with
    | false => exact .idle rfl
    | true => exact .turn (.inl rfl) (by simp [RetierPhase.row])
  · cases herror
  · cases hstep
    exact .idle rfl
  · cases hstep
    exact .idle rfl
  · cases herror
  · cases hstep

end Retier

namespace MarkerUpgrade

variable (store)

/-- Everything a step of an upgrade can do without a store error. -/
inductive Effect (sh : Tier σ) (u : MarkerUpgrade) : Tier σ → MarkerUpgrade → Prop
  | finish {s : σ} (reads : s = sh.store ∨ s = (store.getWithVersion sh.store).1) :
      Effect sh u { sh with store := s } { u with phase := .finished }
  | head {full : Row} {o : ObjectVersion} (object : sh.object = some o)
      (source : full.source = o.id) : Effect sh u sh { u with phase := .reading full }
  | read {full cur : Row} (phase : u.phase = .reading full) (found : store.row sh.store = some cur) :
      Effect sh u { sh with store := (store.getWithVersion sh.store).1 }
        { u with phase := .committing (completed full cur) cur (store.getWithVersion sh.store).2.2 }
  | install {full cur : Row} {v : ℕ} {s : σ} (phase : u.phase = .committing full cur v)
      (version : store.version sh.store = v) (found : store.row s = some full)
      (advances : store.version sh.store < store.version s) :
      Effect sh u { sh with store := s } { u with phase := .finished }

variable {store} {sh : Tier σ} {u : MarkerUpgrade} {k : ℕ}

theorem step_effect (h : store.Lawful) {x : Tier σ × MarkerUpgrade} {input : UpgradeInput}
    (hpos : ∀ full cur v, u.phase = .committing full cur v → 0 < v)
    (herror : (TieredLabel.upgrade k input).storeError = false)
    (hstep : u.step store cfg sh input = some x) : Effect store sh u x.1 x.2 := by
  unfold step at hstep
  split at hstep
  · split at hstep
    · rename_i hanswers
      cases hstep
      unfold headObjectMeta
      dsimp only
      split
      · rename_i full hfull
        split at hfull
        · rename_i hsame
          obtain ⟨o, ho, hid⟩ := Tier.object_of_answers hanswers hsame.1
          exact .head ho hid
        · cases hfull
      · exact .finish (.inl rfl)
    · cases hstep
  · rename_i full hphase
    rw [sh.getMetaWithVersion_eq h] at hstep
    cases hstep
    dsimp only
    split
    · rename_i cur hfound
      split
      · exact .read hphase hfound
      · exact .finish (.inr rfl)
    · exact .finish (.inr rfl)
  · rename_i full cur v hphase
    cases hstep
    rcases sh.putMetaIfVersion_cases h full (hpos full cur v hphase) with
      ⟨s, heq, hversion, hrow, hlt⟩ | ⟨heq, -⟩
    · rw [heq]
      exact .install hphase hversion hrow hlt
    · rw [heq]
      exact .finish (.inl rfl)
  · cases herror
  · cases hstep
    exact .finish (.inl rfl)
  · cases hstep
    exact .finish (.inl rfl)
  · cases herror
  · cases hstep

end MarkerUpgrade
end TagGateway.Proxy
