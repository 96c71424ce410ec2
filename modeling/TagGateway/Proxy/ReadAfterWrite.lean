import TagGateway.Proxy.Repopulation

/-!
# Reading after an acknowledged write

The single-object handlers write upstream's status to the client and only then
run the post-success delete. Between the two a lookup may still find the row of
the replaced version. A lookup that starts once every acknowledged change has
been fenced never does.
-/
namespace TagGateway.Proxy

open Foundation Cache List

universe u

variable {σ : Type u} {store : VersionedStore σ Row} {w₀ w w' : World σ}

namespace World

/-- A mutation whose success was written to the client has fenced the key, if
it changed the object. -/
def AckFenced (w : World σ) : Event → Prop
  | .acked j => (w.applied j).isSome → w.fenced j = true
  | _ => True

/-- The condition on lookups: none starts between a mutation's acknowledgement
and its fence. -/
def LookupGuard (w : World σ) : Label → Prop
  | .startLookup _ => ∀ e ∈ w.shared.log, w.AckFenced e
  | _ => True

def ReadGuard (w : World σ) (l : Label) : Prop :=
  w.TokenGuard (fun _ => True) l ∧ w.LookupGuard l

instance (w : World σ) : DecidablePred w.AckFenced
  | .acked _ => inferInstanceAs (Decidable (_ → _))
  | .sent _ | .committed _ _ | .fenced _ | .lookupStarted _ | .lookedUp _ _ => .isTrue trivial

instance (w : World σ) : DecidablePred w.LookupGuard
  | .startLookup _ => inferInstanceAs (Decidable (∀ e ∈ _, _))
  | .startMutation _ _ | .mutation _ _ | .startPopulate _ _ | .populate _ _ | .lookup _
  | .invalidate _ | .expire | .storeBlock _ | .evictBlock _ => .isTrue trivial

instance (w : World σ) : DecidablePred w.ReadGuard :=
  fun _ => inferInstanceAs (Decidable (_ ∧ _))

/-- What an acknowledgement orders: upstream's answer is in; a lookup started
after it finds the key fenced, and does not return the replaced version. -/
structure ReadOrder (w : World σ) : Prop where
  acked : ∀ j, Event.acked j ∈ w.shared.log → ∃ m, w.mutations j = some m ∧ m.Answered
  started : ∀ j k, [Event.acked j, Event.lookupStarted k] <+ w.shared.log →
    (w.applied j).isSome → w.fenced j = true
  looked : ∀ j k r, [Event.acked j, Event.lookupStarted k, Event.lookedUp k (some r)] <+
    w.shared.log → w.applied j ≠ some (some r.source)

/-- A step of anything but a lookup, as the answered mutations see it. -/
structure Steady (w w' : World σ) : Prop where
  log : ∃ es, w'.shared.log = w.shared.log ++ es ∧ (∀ k, Event.lookupStarted k ∉ es) ∧
    (∀ k r, Event.lookedUp k r ∉ es) ∧
    ∀ j, Event.acked j ∈ es → ∃ m, w'.mutations j = some m ∧ m.Answered
  mutations : ∀ j m, w.mutations j = some m → m.Answered → ∃ m', w'.mutations j = some m' ∧
    m'.Answered ∧ m'.applied = m.applied ∧ (m.fenced = true → m'.fenced = true)

theorem Steady.of_log (hmut : w'.mutations = w.mutations) {es : List Event}
    (hlog : w'.shared.log = w.shared.log ++ es) (hstarted : ∀ k, Event.lookupStarted k ∉ es)
    (hlooked : ∀ k r, Event.lookedUp k r ∉ es) (hacked : ∀ j, Event.acked j ∉ es) :
    Steady w w' := by
  refine ⟨⟨es, hlog, hstarted, hlooked, fun j hj => absurd hj (hacked j)⟩, ?_⟩
  intro j m hm ha
  exact ⟨m, by rw [hmut, hm], ha, rfl, id⟩

/-- After its acknowledgement a mutation's change is fixed, and its fence stays. -/
theorem Steady.applied_eq (hs : Steady w w') {j : ℕ} {m : Mutation} (hm : w.mutations j = some m)
    (ha : m.Answered) :
    w'.applied j = w.applied j ∧ (w.fenced j = true → w'.fenced j = true) := by
  obtain ⟨m', hm', -, happlied, hfenced⟩ := hs.mutations j m hm ha
  simp only [World.applied, World.fenced, hm, hm', Option.bind_some, Option.any_some]
  exact ⟨happlied, hfenced⟩

namespace ReadOrder

theorem steady (hr : ReadOrder w) (hs : Steady w w') : ReadOrder w' := by
  obtain ⟨es, hlog, hstarted, hlooked, hacked⟩ := hs.log
  have hold : ∀ j rest, Event.acked j :: rest <+ w.shared.log →
      w'.applied j = w.applied j ∧ (w.fenced j = true → w'.fenced j = true) := by
    intro j rest hsub
    obtain ⟨m, hm, ha⟩ := hr.acked j (hsub.subset (by simp))
    exact hs.applied_eq hm ha
  constructor
  · intro j hmem
    rw [hlog, mem_append] at hmem
    rcases hmem with hmem | hmem
    · obtain ⟨m, hm, ha⟩ := hr.acked j hmem
      obtain ⟨m', hm', ha', -⟩ := hs.mutations j m hm ha
      exact ⟨m', hm', ha'⟩
    · exact hacked j hmem
  · intro j k hsub happ
    rw [hlog, pair_append_of_not_mem (hstarted k)] at hsub
    obtain ⟨happlied, hfenced⟩ := hold j _ hsub
    exact hfenced (hr.started j k hsub (happlied ▸ happ))
  · intro j k r hsub
    rw [hlog] at hsub
    have hsub := (sublist_append_of_not_mem (l := [_, _]) (hlooked k (some r))).mp hsub
    rw [(hold j _ hsub).1]
    exact hr.looked j k r hsub

/-- A lookup starts when every acknowledged change has been fenced, and returns
a row that no fenced mutation has replaced. -/
theorem emit (hr : ReadOrder w) {e : Event} (hacked : ∀ j, e ≠ .acked j)
    (hstarted : ∀ k, e = .lookupStarted k → ∀ e' ∈ w.shared.log, w.AckFenced e')
    (hlooked : ∀ k r, e = .lookedUp k (some r) → ¬ w.Retired r.source)
    (hlog : w'.shared.log = w.shared.log ++ [e]) (hmut : w'.mutations = w.mutations) :
    ReadOrder w' := by
  have happlied : w'.applied = w.applied := by unfold World.applied; rw [hmut]
  have hfenced : w'.fenced = w.fenced := by unfold World.fenced; rw [hmut]
  constructor
  · rw [hlog, hmut]
    intro j hmem
    rw [mem_append, mem_singleton] at hmem
    exact hr.acked j (hmem.resolve_right fun heq => hacked j heq.symm)
  · rw [happlied, hfenced, hlog]
    intro j k hsub
    rcases pair_snoc_cases hsub with hsub | ⟨heq, hmem⟩
    · exact hr.started j k hsub
    · exact hstarted k heq.symm _ hmem
  · rw [happlied, hlog]
    intro j k r hsub
    rcases triple_snoc_cases hsub with hsub | ⟨heq, hsub⟩
    · exact hr.looked j k r hsub
    · intro happ
      have hf := hr.started j k hsub (by simp [happ])
      exact hlooked k r heq.symm ⟨j, hf, happ⟩

end ReadOrder
end World

/-- An answered mutation changes nothing upstream any more. -/
theorem Mutation.Effect.answered {j : ℕ} {sh sh' : Shared σ} {m m' : Mutation}
    (h : Mutation.Effect store j sh m sh' m') (ha : m.Answered) :
    m'.Answered ∧ m'.applied = m.applied ∧ (m.fenced = true → m'.fenced = true) := by
  cases h with
  | quiet settles applied fenced answered => exact ⟨answered ha, applied, fun hf => fenced ▸ hf⟩
  | apply fresh unanswered => exact absurd ha unanswered
  | ack applied fenced answered => exact ⟨answered, applied, fun hf => fenced ▸ hf⟩
  | fence row version applied fenced before answered => exact ⟨answered, applied, fun _ => fenced⟩

theorem Mutation.Effect.log {j : ℕ} {sh sh' : Shared σ} {m m' : Mutation}
    (h : Mutation.Effect store j sh m sh' m') :
    ∃ es, sh'.log = sh.log ++ es ∧ ∀ e ∈ es, e = .fenced j ∨ e = .acked j ∧ m'.Answered := by
  cases h with
  | quiet settles applied fenced answered => exact ⟨[], by simp [settles.log], by simp⟩
  | apply fresh unanswered => exact ⟨[], by simp [applyUpstream], by simp⟩
  | ack applied fenced answered => exact ⟨[.acked j], rfl, by simp [answered]⟩
  | fence row version applied fenced before answered => exact ⟨[.fenced j], rfl, by simp⟩

theorem Populate.Effect.log {cfg : Config} {i : ℕ} {sh sh' : Shared σ} {p p' : Populate}
    (h : Populate.Effect store cfg i sh p sh' p') :
    ∃ es, sh'.log = sh.log ++ es ∧ ∀ e ∈ es, e = .sent i ∨ ∃ d, e = .committed i d := by
  cases h with
  | quiet settles kind token row rest => exact ⟨[], by simp [settles.log], by simp⟩
  | token next admits => exact ⟨[], by simp, by simp⟩
  | send next => exact ⟨[.sent i], rfl, by simp⟩
  | receive next answers => exact ⟨[], by simp, by simp⟩
  | commit token row written => exact ⟨[.committed i (store.row sh.store)], rfl, by simp⟩

namespace World

theorem ReadOrder.mutation_step (hr : ReadOrder w) {j : ℕ} {m m' : Mutation} {sh' : Shared σ}
    (hm : w.mutations j = some m) (heffect : Mutation.Effect store j w.shared m sh' m') :
    ReadOrder { w with
      shared := sh', mutations := Function.update w.mutations j (some m') } := by
  obtain ⟨es, hlog, hes⟩ := heffect.log
  apply hr.steady
  refine ⟨⟨es, hlog, ?_, ?_, ?_⟩, ?_⟩
  · intro k hk
    rcases hes _ hk with heq | ⟨heq, -⟩ <;> cases heq
  · intro k r hk
    rcases hes _ hk with heq | ⟨heq, -⟩ <;> cases heq
  · intro j' hj'
    rcases hes _ hj' with heq | ⟨heq, ha⟩
    · cases heq
    · cases heq
      exact ⟨m', Function.update_self .., ha⟩
  · intro j' q hq ha
    by_cases hj : j' = j
    · subst hj
      rw [hm, Option.some.injEq] at hq
      subst hq
      exact ⟨m', Function.update_self .., heffect.answered ha⟩
    · exact ⟨q, (Function.update_of_ne hj ..).trans hq, ha, rfl, id⟩

theorem ReadOrder.step (h : store.Lawful) (cfg : Config) (hr : ReadOrder w)
    (hlive : ∀ r, store.row w.shared.store = some r → ¬ w.Retired r.source) {l : Label}
    (hguard : w.LookupGuard l) (hstep : w.step store cfg l = some w') : ReadOrder w' := by
  cases World.stepped hstep with
  | @startMutation j kind unused =>
    refine hr.steady ⟨⟨[], by simp, by simp, by simp, by simp⟩, ?_⟩
    intro j' m hm ha
    have hj : j' ≠ j := by
      rintro rfl
      rw [unused] at hm
      cases hm
    exact ⟨m, (Function.update_of_ne hj ..).trans hm, ha, rfl, id⟩
  | mutation found step => exact hr.mutation_step found (Mutation.step_effect h step)
  | populate found step =>
    obtain ⟨es, hlog, hes⟩ := (Populate.step_effect h step).log
    have hother : ∀ e ∈ es, (∀ k, e ≠ .lookupStarted k) ∧ (∀ k r, e ≠ .lookedUp k r) ∧
        ∀ j, e ≠ .acked j := by
      intro e he
      rcases hes e he with rfl | ⟨d, rfl⟩ <;> simp
    exact hr.steady (.of_log rfl hlog (fun k hk => (hother _ hk).1 k rfl)
      (fun k r hk => (hother _ hk).2.1 k r rfl) fun j hj => (hother _ hj).2.2 j rfl)
  | startLookup => exact hr.emit (by simp) (fun _ _ => hguard) (by simp) rfl rfl
  | lookup =>
    refine hr.emit (by simp) (by simp) ?_ rfl rfl
    intro k' r heq
    exact hlive r (Event.lookedUp.inj heq).2
  | startPopulate | invalidate | expire | blocks =>
    exact hr.steady (.of_log rfl (append_nil _).symm (by simp) (by simp) (by simp))

end World

/-- Along every run in which no lookup starts between a mutation's
acknowledgement and its fence, and no token is read after a fence that completed
since its reader's request left: a lookup that starts after a mutation was
acknowledged does not return a row of the version that mutation replaced. -/
theorem lookup_after_ack_not_replaced (h : store.Lawful) (cfg : Config) {ls : List Label}
    (hstart : w₀.Starts store) (hguard : Along (World.step store cfg) World.ReadGuard w₀ ls)
    (hrun : run (World.step store cfg) w₀ ls = some w) {j k id : ℕ} {r : Row}
    (hreplaced : w.applied j = some (some id))
    (hlooked : [Event.acked j, Event.lookupStarted k, Event.lookedUp k (some r)] <+
      w.shared.log) : r.source ≠ id := by
  have hpreserved : ∀ (s : World σ) (l : Label) (s' : World σ),
      (Invariant store (fun _ => True) s ∧ s.ReadOrder) → s.ReadGuard l →
      s.step store cfg l = some s' → Invariant store (fun _ => True) s' ∧ s'.ReadOrder := by
    rintro s l s' ⟨inv, hr⟩ ⟨htoken, hlookup⟩ hstep
    exact ⟨inv.step h cfg htoken hstep,
      hr.step h cfg (inv.row_live fun _ => trivial) hlookup hstep⟩
  have hfirst : w₀.ReadOrder := by constructor <;> simp [hstart.log]
  have hlast := run_invariant hpreserved ⟨hstart.invariant fun _ => hstart.row, hfirst⟩ hguard hrun
  rintro rfl
  exact hlast.2.looked j k r hlooked hreplaced

/-- The row of version `a` is cached while a write is on its way; the write is
applied and its success written to the client. -/
def ackedPut : List Label :=
  [.startMutation 0 .putObject, .mutation 0 .proceed,
    .startPopulate 0 (.streamFromUpstream false), .populate 0 .proceed, .populate 0 .proceed,
    .populate 0 (.response (taggedResponse 200 "a" "4")), .populate 0 .proceed,
    .mutation 0 (.apply (ascii "b")), .mutation 0 (.respond 200 false)]

def wholeRow (etag : String) (source : ℕ) : Row :=
  ⟨responseMeta sampleConfig 200 (taggedResponse 200 etag "4").header 0, source⟩

/-- The lookup starts once the fence is done, and finds the row of `b`. -/
def lookupAfterFence : List Label :=
  ackedPut ++ [.mutation 0 .proceed, .mutation 0 .proceed,
    .startPopulate 1 (.streamFromUpstream false), .populate 1 .proceed, .populate 1 .proceed,
    .populate 1 (.response (taggedResponse 200 "b" "4")), .populate 1 .proceed,
    .startLookup 0, .lookup 0]

theorem lookup_after_ack_not_replaced_fenced :
    ∃ w, run (World.step Cell.store sampleConfig) (coldStart []) lookupAfterFence = some w ∧
      w.applied 0 = some (some 0) ∧
      [Event.acked 0, Event.lookupStarted 0, Event.lookedUp 0 (some (wholeRow "b" 1))] <+
        w.shared.log ∧ (wholeRow "b" 1).source ≠ 0 := by
  have hends : ∃ w, run (World.step Cell.store sampleConfig) (coldStart [])
      lookupAfterFence = some w ∧ w.applied 0 = some (some 0) ∧
      [Event.acked 0, Event.lookupStarted 0, Event.lookedUp 0 (some (wholeRow "b" 1))] <+
        w.shared.log := exists_run_of_any (by decide +kernel)
  obtain ⟨w, hrun, happlied, hlooked⟩ := hends
  exact ⟨w, hrun, happlied, hlooked, lookup_after_ack_not_replaced Cell.store_lawful sampleConfig
    (coldStart_starts []) (by decide +kernel) hrun happlied hlooked⟩

def lookupBeforeFence : List Label :=
  ackedPut ++ [.startLookup 0, .lookup 0, .mutation 0 .proceed, .mutation 0 .proceed]

/-- A lookup between the acknowledgement and the fence returns the row of the
version the write replaced. -/
theorem lookup_after_ack_returns_replaced :
    ∃ w, run (World.step Cell.store sampleConfig) (coldStart []) lookupBeforeFence = some w ∧
      w.applied 0 = some (some (wholeRow "a" 0).source) ∧
      [Event.acked 0, Event.lookupStarted 0, Event.lookedUp 0 (some (wholeRow "a" 0))] <+
        w.shared.log :=
  exists_run_of_any (by decide +kernel)

end TagGateway.Proxy
