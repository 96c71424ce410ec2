import TagGateway.Proxy.FenceLaw

/-!
# The fence law along every run

Each kind of step keeps the invariant: most steps only frame it, and the three
that do more (a commit, a change upstream, a fence) are treated one by one.
-/
namespace TagGateway.Proxy

open Foundation Cache List

universe u

variable {σ : Type u} (store : VersionedStore σ Row)

/-- A step that commits, changes and fences nothing. -/
structure Frame (w w' : World σ) : Prop where
  version_le : store.version w.shared.store ≤ store.version w'.shared.store
  row : store.row w'.shared.store = store.row w.shared.store ∨ store.row w'.shared.store = none
  object : w'.shared.object = w.shared.object
  nextId : w'.shared.nextId = w.shared.nextId
  log : ∃ es, w'.shared.log = w.shared.log ++ es ∧ (∀ j, Event.fenced j ∉ es) ∧
    ∀ i d, Event.committed i d ∉ es
  applied : w'.applied = w.applied
  fenced : w'.fenced = w.fenced

variable {store} {timely : PopulateKind → Prop} {w w' : World σ}

theorem World.pending_congr (ha : w'.applied = w.applied) (hf : w'.fenced = w.fenced) :
    w'.Pending ↔ w.Pending := by
  simp only [World.Pending, ha, hf]

theorem World.retired_congr (ha : w'.applied = w.applied) (hf : w'.fenced = w.fenced) (id : ℕ) :
    w'.Retired id ↔ w.Retired id := by
  simp only [World.Retired, ha, hf]

theorem Shared.current_congr {sh sh' : Shared σ} (h : sh'.object = sh.object) (r : Row) :
    sh'.Current r ↔ sh.Current r := by
  simp only [Shared.Current, h]

namespace Frame

theorem calm (hf : Frame store w w') : Calm store w w' := by
  obtain ⟨es, hlog, hfence, -⟩ := hf.log
  refine ⟨hf.version_le, ?_, ⟨es, hlog, hfence⟩, ?_, ?_, ?_⟩
  · rcases hf.row with hrow | hrow
    · exact .inl hrow
    · exact .inr (.inl hrow)
  · intro r hr
    exact .inl ((Shared.current_congr hf.object r).mpr hr)
  · exact (World.pending_congr hf.applied hf.fenced).mpr
  · exact fun id => (World.retired_congr hf.applied hf.fenced id).mp

theorem of_settles (hs : Settles store w.shared w'.shared) (ha : w'.applied = w.applied)
    (hf : w'.fenced = w.fenced) : Frame store w w' :=
  ⟨hs.version_le, hs.row, hs.object, hs.nextId, ⟨[], by simp [hs.log], by simp, by simp⟩, ha, hf⟩

theorem of_populates {sh' : Shared σ} (hs : Settles store w.shared sh')
    (populates : ℕ → Option Populate) :
    Frame store w { w with shared := sh', populates := populates } :=
  of_settles hs rfl rfl

theorem of_emit {e : Event} (hs : w'.shared = w.shared.emit e) (hfence : ∀ j, e ≠ .fenced j)
    (hcommit : ∀ i d, e ≠ .committed i d) (ha : w'.applied = w.applied)
    (hf : w'.fenced = w.fenced) : Frame store w w' := by
  refine ⟨?_, ?_, ?_, ?_, ⟨[e], ?_, ?_, ?_⟩, ha, hf⟩
  · rw [hs]
    exact le_rfl
  · rw [hs]
    exact .inl rfl
  · rw [hs]
    rfl
  · rw [hs]
    rfl
  · rw [hs]
    rfl
  · intro j
    simpa using (hfence j).symm
  · intro i d
    simpa using (hcommit i d).symm

end Frame

/-- The frame rule: such a step keeps the invariant when it keeps what holds of
each populate. -/
theorem Invariant.frame (inv : Invariant store timely w) (hf : Frame store w w')
    (hidle : ∀ i, w'.populates i = none → w.populates i = none ∧
      (Event.sent i ∈ w'.shared.log → Event.sent i ∈ w.shared.log))
    (hpop : ∀ i p, w'.populates i = some p → PopulateOk store timely w' i p)
    (hkind : ∀ i p, w.populates i = some p → ∃ p', w'.populates i = some p' ∧ p'.kind = p.kind)
    (hans : ∀ j m, w'.mutations j = some m → m.fenced = true → m.Answered) :
    Invariant store timely w' := by
  obtain ⟨es, hlog, -, hcommit⟩ := hf.log
  constructor
  · intro i hnone hsent
    exact inv.idle i (hidle i hnone).1 ((hidle i hnone).2 hsent)
  · exact hpop
  · intro hall r hr
    rcases hf.row with hrow | hrow
    · exact hf.calm.fresh (inv.row_fresh hall r (hrow ▸ hr))
    · rw [hrow] at hr
      cases hr
  · intro hall r hr
    rcases hf.row with hrow | hrow
    · rw [World.retired_congr hf.applied hf.fenced]
      exact inv.row_live hall r (hrow ▸ hr)
    · rw [hrow] at hr
      cases hr
  · rw [hf.object, hf.nextId]
    exact inv.object_lt
  · rw [hf.object, hf.applied]
    exact inv.object_live
  · rw [hf.applied, hf.nextId]
    exact inv.applied_lt
  · exact hans
  · intro i d hmem
    rw [hlog, mem_append] at hmem
    obtain ⟨p, hp, hgate, horder⟩ := inv.commit_order i d (hmem.resolve_right (hcommit i d))
    obtain ⟨p', hp', hk⟩ := hkind i p hp
    refine ⟨p', hp', hk ▸ hgate, fun htimely j hsub => ?_⟩
    rw [hlog] at hsub
    exact horder (hk ▸ htimely) j
      ((sublist_append_of_not_mem (l := [_, _]) (hcommit i d)).mp hsub)

theorem Invariant.frame_populates (inv : Invariant store timely w) (hf : Frame store w w')
    (hsent : ∀ i, Event.sent i ∈ w'.shared.log → Event.sent i ∈ w.shared.log)
    (hpop : w'.populates = w.populates)
    (hans : ∀ j m, w'.mutations j = some m → m.fenced = true → m.Answered) :
    Invariant store timely w' := by
  refine inv.frame hf ?_ ?_ ?_ hans
  · intro i hnone
    exact ⟨hpop ▸ hnone, hsent i⟩
  · intro i p hp
    exact (inv.populate i p (hpop ▸ hp)).calm hf.calm (hsent i)
  · intro i p hp
    exact ⟨p, hpop ▸ hp, rfl⟩

theorem Invariant.frame_populate (inv : Invariant store timely w) (hf : Frame store w w') {i : ℕ}
    {p p' : Populate} (hp : w.populates i = some p)
    (hpop : w'.populates = Function.update w.populates i (some p')) (hk : p'.kind = p.kind)
    (hsent : ∀ i', i' ≠ i → Event.sent i' ∈ w'.shared.log → Event.sent i' ∈ w.shared.log)
    (hmut : w'.mutations = w.mutations) (hok : PopulateOk store timely w' i p') :
    Invariant store timely w' := by
  refine inv.frame hf ?_ ?_ ?_ ?_
  · intro i' hnone
    rw [hpop] at hnone
    by_cases hi : i' = i
    · subst hi
      simp at hnone
    · rw [Function.update_of_ne hi] at hnone
      exact ⟨hnone, hsent i' hi⟩
  · intro i' q hq
    rw [hpop] at hq
    by_cases hi : i' = i
    · subst hi
      rw [Function.update_self, Option.some.injEq] at hq
      exact hq ▸ hok
    · rw [Function.update_of_ne hi] at hq
      exact (inv.populate i' q hq).calm hf.calm (hsent i' hi)
  · intro i' q hq
    rw [hpop]
    by_cases hi : i' = i
    · subst hi
      rw [hp, Option.some.injEq] at hq
      exact ⟨p', by simp, hq ▸ hk⟩
    · exact ⟨q, by rw [Function.update_of_ne hi, hq], rfl⟩
  · rw [hmut]
    exact inv.fenced_answered

/-- A commit goes through only with a row that is fresh, over a row its gate
admits, and with no fence since its request left. -/
theorem Invariant.commit (h : store.Lawful) (inv : Invariant store timely w) {i t : ℕ} {r : Row}
    {p : Populate} (hp : w.populates i = some p) (ht : p.token = some t) (hr : p.row = some r)
    (hw : (store.putIfVersion w.shared.store r t).2 = .written) :
    Invariant store timely { w with
      shared := ({ w.shared with store := (store.putIfVersion w.shared.store r t).1 } :
        Shared σ).emit (.committed i (store.row w.shared.store))
      populates := Function.update w.populates i (some p.stop) } := by
  have ok := inv.populate i p hp
  have hversion : store.version w.shared.store = t :=
    (h.put_commits _ r t (ok.token_pos t ht).ne').mp hw
  have hnlt : ¬ t < store.version w.shared.store := by omega
  have hfresh : timely p.kind → w.shared.Current r ∨ w.Pending := fun hi =>
    (ok.row_fresh hi r t hr ht).resolve_left hnlt
  have hlive : timely p.kind → ¬ w.Retired r.source := fun hi hret =>
    hnlt (ok.row_retired hi r t hr hret ht)
  have hgate := (ok.token_gate t ht).resolve_left hnlt
  have hsince : timely p.kind → ¬ FencedSince w.shared.log i := fun hi hf =>
    hnlt (ok.token_stale hi t ht hf)
  have hrow := h.put_row _ _ _ hw
  have hlt := h.put_version _ _ _ hw
  generalize hw' : ({ w with
    shared := ({ w.shared with store := (store.putIfVersion w.shared.store r t).1 } :
      Shared σ).emit (.committed i (store.row w.shared.store))
    populates := Function.update w.populates i (some p.stop) } : World σ) = w'
  have hstore : w'.shared.store = (store.putIfVersion w.shared.store r t).1 := by
    rw [← hw']; rfl
  have hlog : w'.shared.log = w.shared.log ++ [.committed i (store.row w.shared.store)] := by
    rw [← hw']; rfl
  have hobject : w'.shared.object = w.shared.object := by rw [← hw']; rfl
  have hnextId : w'.shared.nextId = w.shared.nextId := by rw [← hw']; rfl
  have happlied : w'.applied = w.applied := by rw [← hw']; rfl
  have hfenced : w'.fenced = w.fenced := by rw [← hw']; rfl
  have hmut : w'.mutations = w.mutations := by rw [← hw']
  have hpops : w'.populates = Function.update w.populates i (some p.stop) := by rw [← hw']
  have hsent : ∀ i', Event.sent i' ∈ w'.shared.log → Event.sent i' ∈ w.shared.log := by
    simp [hlog]
  have hcalm : Calm store w w' := by
    refine ⟨hstore ▸ hlt.le, .inr (.inr (hstore ▸ hlt)), ⟨_, hlog, by simp⟩, ?_, ?_, ?_⟩
    · exact fun r hcur => .inl ((Shared.current_congr hobject r).mpr hcur)
    · exact (World.pending_congr happlied hfenced).mpr
    · exact fun id => (World.retired_congr happlied hfenced id).mp
  have hupdate : ∀ i', i' ≠ i → w'.populates i' = w.populates i' := fun i' hi => by
    rw [hpops, Function.update_of_ne hi]
  have hself : w'.populates i = some p.stop := by rw [hpops, Function.update_self]
  constructor
  · intro i' hnone hmem
    by_cases hi : i' = i
    · rw [hi, hself] at hnone
      cases hnone
    · exact inv.idle i' (hupdate i' hi ▸ hnone) (hsent i' hmem)
  · intro i' q hq
    by_cases hi : i' = i
    · subst hi
      rw [hself, Option.some.injEq] at hq
      subst hq
      exact (ok.calm hcalm (hsent i')).shorten rfl rfl rfl (.inl rfl)
    · exact (inv.populate i' q (hupdate i' hi ▸ hq)).calm hcalm (hsent i')
  · intro hall r' hr'
    rw [hstore, hrow, Option.some.injEq] at hr'
    exact hr' ▸ hcalm.fresh (hfresh (hall _))
  · intro hall r' hr'
    rw [hstore, hrow, Option.some.injEq] at hr'
    rw [World.retired_congr happlied hfenced]
    exact hr' ▸ hlive (hall _)
  · rw [hobject, hnextId]
    exact inv.object_lt
  · rw [hobject, happlied]
    exact inv.object_live
  · rw [happlied, hnextId]
    exact inv.applied_lt
  · rw [hmut]
    exact inv.fenced_answered
  · intro i' d hmem
    rw [hlog, mem_append, mem_singleton] at hmem
    have hlast : ∀ j, [Event.sent i', Event.fenced j, Event.committed i' d] <+ w'.shared.log →
        [Event.sent i', Event.fenced j, Event.committed i' d] <+ w.shared.log ∨
          i' = i ∧ [Event.sent i', Event.fenced j] <+ w.shared.log := by
      intro j hsub
      rw [hlog] at hsub
      rcases triple_snoc_cases hsub with hsub | ⟨heq, hsub⟩
      · exact .inl hsub
      · exact .inr ⟨(Event.committed.inj heq).1, hsub⟩
    rcases hmem with hmem | heq
    · obtain ⟨q, hq, hadm, horder⟩ := inv.commit_order i' d hmem
      have hq' : ∃ q', w'.populates i' = some q' ∧ q'.kind = q.kind := by
        by_cases hi : i' = i
        · subst hi
          rw [hp, Option.some.injEq] at hq
          exact ⟨p.stop, hself, hq ▸ rfl⟩
        · exact ⟨q, (hupdate i' hi).trans hq, rfl⟩
      obtain ⟨q', hq', hk⟩ := hq'
      refine ⟨q', hq', hk ▸ hadm, fun htimely j hsub => ?_⟩
      rcases hlast j hsub with hsub | ⟨rfl, hsub⟩
      · exact horder (hk ▸ htimely) j hsub
      · rw [hp, Option.some.injEq] at hq
        exact hsince (hq ▸ hk ▸ htimely) ⟨j, hsub⟩
    · obtain ⟨rfl, rfl⟩ := Event.committed.inj heq
      refine ⟨p.stop, hself, hgate, fun htimely j hsub => ?_⟩
      rcases hlast j hsub with hsub | ⟨-, hsub⟩
      · exact hsince htimely ⟨j, .trans (by simp) hsub⟩
      · exact hsince htimely ⟨j, hsub⟩

section Mutations

variable {j : ℕ} {m m' : Mutation}

theorem World.applied_update (w : World σ) (sh : Shared σ) (j : ℕ) (m' : Mutation) :
    ({ w with shared := sh, mutations := Function.update w.mutations j (some m') } :
      World σ).applied = Function.update w.applied j m'.applied := by
  funext j'
  by_cases hj : j' = j
  · subst hj
    simp [World.applied]
  · simp [World.applied, hj]

theorem World.fenced_update (w : World σ) (sh : Shared σ) (j : ℕ) (m' : Mutation) :
    ({ w with shared := sh, mutations := Function.update w.mutations j (some m') } :
      World σ).fenced = Function.update w.fenced j m'.fenced := by
  funext j'
  by_cases hj : j' = j
  · subst hj
    simp [World.fenced]
  · simp [World.fenced, hj]

theorem Invariant.answered_update (inv : Invariant store timely w) (hm' : m'.fenced = true → m'.Answered)
    {j' : ℕ} {q : Mutation} (hq : Function.update w.mutations j (some m') j' = some q) :
    q.fenced = true → q.Answered := by
  by_cases hj : j' = j
  · subst hj
    rw [Function.update_self, Option.some.injEq] at hq
    exact hq ▸ hm'
  · rw [Function.update_of_ne hj] at hq
    exact inv.fenced_answered j' q hq

theorem Invariant.mutation_frame (inv : Invariant store timely w) {sh' : Shared σ}
    (hm : w.mutations j = some m) (happlied : m'.applied = m.applied)
    (hfenced : m'.fenced = m.fenced) (hanswered : m'.fenced = true → m'.Answered)
    (hsent : ∀ i, Event.sent i ∈ sh'.log → Event.sent i ∈ w.shared.log)
    (hframe : ∀ {w' : World σ}, w'.shared = sh' → w'.applied = w.applied →
      w'.fenced = w.fenced → Frame store w w') :
    Invariant store timely { w with
      shared := sh', mutations := Function.update w.mutations j (some m') } := by
  have ha : w.applied j = m'.applied := by simp [World.applied, hm, happlied]
  have hf : w.fenced j = m'.fenced := by simp [World.fenced, hm, hfenced]
  refine inv.frame_populates (hframe rfl ?_ ?_) hsent rfl ?_
  · rw [World.applied_update, ← ha, Function.update_eq_self]
  · rw [World.fenced_update, ← hf, Function.update_eq_self]
  · intro j' q hq
    exact inv.answered_update hanswered hq

/-- A change upstream makes every row old at once, and leaves its own mutation
owing a fence. -/
theorem Invariant.apply (inv : Invariant store timely w) {etag : Bytes} (hm : w.mutations j = some m)
    (hun : ¬ m.Answered) :
    Invariant store timely { w with
      shared := (m.applyUpstream w.shared etag).1
      mutations := Function.update w.mutations j (some (m.applyUpstream w.shared etag).2) } := by
  have hfenced : m.fenced = false := by
    by_contra hne
    exact hun (inv.fenced_answered j m hm (by simpa using hne))
  generalize hw' : ({ w with
    shared := (m.applyUpstream w.shared etag).1
    mutations := Function.update w.mutations j (some (m.applyUpstream w.shared etag).2) } :
      World σ) = w'
  have happ : w'.applied =
      Function.update w.applied j (some (w.shared.object.map ObjectVersion.id)) := by
    rw [← hw', World.applied_update]
    rfl
  have hfen : w'.fenced = w.fenced := by
    rw [← hw', World.fenced_update]
    have hj : w.fenced j = m.fenced := by simp [World.fenced, hm]
    exact (congrArg _ hj.symm).trans (Function.update_eq_self j w.fenced)
  have hstore : w'.shared.store = w.shared.store := by rw [← hw']; rfl
  have hlog : w'.shared.log = w.shared.log := by rw [← hw']; rfl
  have hnextId : w'.shared.nextId = w.shared.nextId + 1 := by rw [← hw']; rfl
  have hfj : w.fenced j = false := by simp [World.fenced, hm, hfenced]
  have hpending : w'.Pending := ⟨j, by simp [happ], by rw [hfen, hfj]⟩
  have hretired : ∀ id, w'.Retired id → w.Retired id := by
    rintro id ⟨j', hf', ha'⟩
    rw [hfen] at hf'
    have hne : j' ≠ j := by
      rintro rfl
      rw [hfj] at hf'
      cases hf'
    rw [happ, Function.update_of_ne hne] at ha'
    exact ⟨j', hf', ha'⟩
  have hcalm : Calm store w w' :=
    ⟨hstore ▸ le_rfl, .inl (by rw [hstore]), ⟨[], by simp [hlog], by simp⟩,
      fun _ _ => .inr hpending, fun _ => hpending, hretired⟩
  have hpops : w'.populates = w.populates := by rw [← hw']
  have hbound : ∀ j' id, w'.applied j' = some (some id) → id < w.shared.nextId := by
    intro j' id ha'
    rw [happ] at ha'
    by_cases hj : j' = j
    · subst hj
      simp only [Function.update_self, Option.some.injEq, Option.map_eq_some_iff] at ha'
      obtain ⟨v, hv, rfl⟩ := ha'
      exact inv.object_lt v hv
    · rw [Function.update_of_ne hj] at ha'
      exact inv.applied_lt j' id ha'
  have hid : ∀ v, w'.shared.object = some v → v.id = w.shared.nextId := by
    intro v hv
    rw [← hw'] at hv
    simp only [Mutation.applyUpstream] at hv
    split_ifs at hv
    rw [Option.some.injEq] at hv
    rw [← hv]
  constructor
  · rw [hpops, hlog]
    exact inv.idle
  · intro i p hp
    exact (inv.populate i p (hpops ▸ hp)).calm hcalm (hlog ▸ id)
  · exact fun _ _ _ => .inr hpending
  · intro hall r hr hret
    exact inv.row_live hall r (hstore ▸ hr) (hretired _ hret)
  · intro v hv
    rw [hid v hv, hnextId]
    omega
  · intro v hv j' ha'
    have hlt := hbound j' v.id ha'
    rw [hid v hv] at hlt
    omega
  · intro j' id ha'
    rw [hnextId]
    have hlt := hbound j' id ha'
    omega
  · intro j' q hq
    rw [← hw'] at hq
    refine inv.answered_update ?_ hq
    intro htrue
    exact absurd (hfenced.symm.trans htrue) (by decide)
  · rw [hlog, hpops]
    exact inv.commit_order

/-- A fence removes the row and overtakes every token handed out so far. -/
theorem Invariant.fence (inv : Invariant store timely w) {s : σ} (hm : w.mutations j = some m)
    (hrow : store.row s = none) (hlt : store.version w.shared.store < store.version s)
    (happlied : m'.applied = m.applied) (hanswered : m'.Answered) :
    Invariant store timely { w with
      shared := ({ w.shared with store := s } : Shared σ).emit (.fenced j)
      mutations := Function.update w.mutations j (some m') } := by
  generalize hw' : ({ w with
    shared := ({ w.shared with store := s } : Shared σ).emit (.fenced j)
    mutations := Function.update w.mutations j (some m') } : World σ) = w'
  have hlog : w'.shared.log = w.shared.log ++ [.fenced j] := by rw [← hw']; rfl
  have hstore : w'.shared.store = s := by rw [← hw']; rfl
  have hobject : w'.shared.object = w.shared.object := by rw [← hw']; rfl
  have hnextId : w'.shared.nextId = w.shared.nextId := by rw [← hw']; rfl
  have happ : w'.applied = w.applied := by
    have hj : w.applied j = m'.applied := by simp [World.applied, hm, happlied]
    rw [← hw', World.applied_update, ← hj, Function.update_eq_self]
  have hfences : Fences store w w' := ⟨hstore ▸ hlt, j, hlog⟩
  have hpops : w'.populates = w.populates := by rw [← hw']
  have hnorow : ∀ r, store.row w'.shared.store = some r → False := by
    intro r hr
    rw [hstore, hrow] at hr
    cases hr
  constructor
  · rw [hpops, hlog]
    intro i hnone
    simpa using inv.idle i hnone
  · intro i p hp
    exact (inv.populate i p (hpops ▸ hp)).fence hfences
  · exact fun _ r hr => (hnorow r hr).elim
  · exact fun _ r hr => (hnorow r hr).elim
  · rw [hobject, hnextId]
    exact inv.object_lt
  · rw [hobject, happ]
    exact inv.object_live
  · rw [happ, hnextId]
    exact inv.applied_lt
  · intro j' q hq
    rw [← hw'] at hq
    exact inv.answered_update (fun _ => hanswered) hq
  · intro i d hmem
    rw [hlog, mem_append, mem_singleton] at hmem
    obtain ⟨p, hp, hgate, horder⟩ := inv.commit_order i d (hmem.resolve_right (by simp))
    refine ⟨p, hpops ▸ hp, hgate, fun htimely j' hsub => ?_⟩
    rw [hlog] at hsub
    rcases triple_snoc_cases hsub with hsub | ⟨heq, -⟩
    · exact horder htimely j' hsub
    · cases heq

theorem Invariant.mutation_step (inv : Invariant store timely w) {sh' : Shared σ}
    (hm : w.mutations j = some m) (heffect : Mutation.Effect store j w.shared m sh' m') :
    Invariant store timely { w with
      shared := sh', mutations := Function.update w.mutations j (some m') } := by
  cases heffect with
  | quiet settles applied fenced answered =>
    refine inv.mutation_frame hm applied fenced ?_ ?_ ?_
    · exact fun hf => answered (inv.fenced_answered j m hm (fenced ▸ hf))
    · rw [settles.log]
      exact fun _ => id
    · exact fun hsh ha hf => .of_settles (hsh ▸ settles) ha hf
  | apply fresh unanswered => exact inv.apply hm unanswered
  | ack applied fenced answered =>
    refine inv.mutation_frame hm applied fenced (fun _ => answered) ?_ ?_
    · intro i hmem
      simpa [Shared.emit] using hmem
    · exact fun hsh ha hf => .of_emit hsh (by simp) (by simp) ha hf
  | fence row version applied fenced before answered =>
    exact inv.fence hm row version applied answered

end Mutations

theorem Invariant.populate_step (h : store.Lawful) (inv : Invariant store timely w) {cfg : Config}
    {i : ℕ} {p p' : Populate} {sh' : Shared σ} (hp : w.populates i = some p)
    (heffect : Populate.Effect store cfg i w.shared p sh' p')
    (hguard : timely p.kind → ∀ rest t, p.rest = .getMetaWithVersion :: rest → p'.token = some t →
      ¬ FencedSince w.shared.log i) :
    Invariant store timely { w with
      shared := sh', populates := Function.update w.populates i (some p') } := by
  have ok := inv.populate i p hp
  cases heffect with
  | quiet settles kind token row rest =>
    have hframe := Frame.of_populates settles (Function.update w.populates i (some p'))
    have hsent : ∀ i', Event.sent i' ∈ sh'.log → Event.sent i' ∈ w.shared.log := by
      rw [settles.log]
      exact fun _ => id
    exact inv.frame_populate hframe hp rfl kind (fun i' _ => hsent i') rfl
      ((ok.calm hframe.calm (hsent i)).shorten kind token row rest)
  | token next admits =>
    have hframe := Frame.of_populates (Settles.get h w.shared)
    exact inv.frame_populate (hframe _) hp rfl rfl (fun _ _ => id) rfl
      (ok.readToken h next admits (fun hi => hguard hi _ _ next rfl) rfl (hframe _).calm)
  | send next =>
    refine inv.frame_populate (.of_emit rfl (by simp) (by simp) rfl rfl) hp rfl rfl ?_ rfl
      (ok.send next rfl)
    intro i' hne hmem
    simpa [Shared.emit, hne] using hmem
  | receive next answers =>
    have hsettles : Settles store w.shared w.shared := .refl w.shared
    have hframe := Frame.of_populates hsettles
    have hlive : ∀ v, w.shared.object = some v → ¬ w.Retired v.id := by
      rintro v hv ⟨j, -, ha⟩
      exact inv.object_live v hv j ha
    exact inv.frame_populate (hframe _) hp rfl (Populate.receive_spec answers _ p).1
      (fun _ _ => id) rfl ((ok.receive next answers hlive).calm (hframe _).calm id)
  | commit token row written => exact inv.commit h hp token row written

/-- Only a step that the store answers reads a token. -/
theorem Populate.token_of_step {cfg : Config} {i t : ℕ} {sh sh' : Shared σ} {p p' : Populate}
    {input : PopulateInput} {rest : List Op}
    (hstep : p.step store cfg i sh input = some (sh', p'))
    (next : p.rest = .getMetaWithVersion :: rest) (hnone : p.token = none)
    (ht : p'.token = some t) : input = .proceed := by
  unfold Populate.step at hstep
  cases input with
  | proceed => rfl
  | storeError | abandon =>
    simp only [next, Option.some.injEq, Prod.mk.injEq] at hstep
    obtain ⟨-, rfl⟩ := hstep
    exact absurd (hnone.symm.trans ht) (by simp)
  | response | blockPresent | blockFetched =>
    simp only [next] at hstep
    cases hstep

/-- The invariant is kept by every step that meets the guard. -/
theorem Invariant.step (h : store.Lawful) (cfg : Config) (inv : Invariant store timely w) {l : Label}
    (hguard : w.TokenGuard timely l) (hstep : w.step store cfg l = some w') : Invariant store timely w' := by
  cases World.stepped hstep with
  | @startMutation j kind unused =>
    refine inv.frame_populates (.of_settles (.refl _) ?_ ?_) (fun _ => id) rfl ?_
    · rw [World.applied_update w w.shared]
      have hj : w.applied j = none := by simp [World.applied, unused]
      exact (congrArg _ hj.symm).trans (Function.update_eq_self j w.applied)
    · rw [World.fenced_update w w.shared]
      have hj : w.fenced j = false := by simp [World.fenced, unused]
      exact (congrArg _ hj.symm).trans (Function.update_eq_self j w.fenced)
    · intro j' q hq
      exact inv.answered_update (fun hf => by cases hf) hq
  | mutation found step => exact inv.mutation_step found (Mutation.step_effect h step)
  | @startPopulate i kind unused =>
    have hframe : Frame store w { w with
        populates := Function.update w.populates i (some (.start kind)) } :=
      .of_populates (.refl w.shared) _
    refine inv.frame hframe ?_ ?_ ?_ inv.fenced_answered
    · intro i' hn
      by_cases hi : i' = i
      · subst hi
        simp at hn
      · exact ⟨by simpa [hi] using hn, id⟩
    · intro i' q hq
      dsimp only at hq
      by_cases hi : i' = i
      · subst hi
        rw [Function.update_self, Option.some.injEq] at hq
        subst hq
        exact .start kind (inv.idle i' unused)
      · rw [Function.update_of_ne hi] at hq
        exact (inv.populate i' q hq).calm hframe.calm id
    · intro i' q hq
      have hi : i' ≠ i := by
        rintro rfl
        rw [unused] at hq
        cases hq
      exact ⟨q, (Function.update_of_ne hi _ _).trans hq, rfl⟩
  | @populate i input p p' sh found step =>
    refine inv.populate_step h found (Populate.step_effect h step) ?_
    intro hi rest t next ht
    have hnone : p.token = none := (inv.populate i p found).untokened (by simp [next])
    have hinput := Populate.token_of_step step next hnone ht
    subst hinput
    exact hguard p found hi (by simp [next])
  | startLookup | lookup =>
    refine inv.frame_populates (.of_emit rfl (by simp) (by simp) rfl rfl) ?_ rfl
      inv.fenced_answered
    intro i hmem
    simpa [Shared.emit] using hmem
  | @invalidate version =>
    exact inv.frame_populates (.of_settles (.guardedDelete h _ version) rfl rfl) (fun _ => id) rfl
      inv.fenced_answered
  | expire =>
    exact inv.frame_populates (.of_settles (.expire h _) rfl rfl) (fun _ => id) rfl
      inv.fenced_answered
  | blocks =>
    exact inv.frame_populates (.of_settles (.withBlocks _ _) rfl rfl) (fun _ => id) rfl
      inv.fenced_answered

end TagGateway.Proxy
