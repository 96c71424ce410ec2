import TagGateway.Proxy.ReadAfterWrite

/-!
# Which responses become visible

A populate that runs alone on a key without a row commits, once its response was
admitted and its blocks are there. A populate whose response was not admitted never
commits, whatever runs beside it. So a response can become visible exactly when its
path admits it.
-/
namespace TagGateway.Proxy

open Foundation Cache

universe u

namespace Populate

variable {σ : Type u} (store : VersionedStore σ Row) (cfg : Config)

def alone (i : ℕ) (s : Shared σ × Populate) (input : PopulateInput) :
    Option (Shared σ × Populate) :=
  step store cfg i s.1 s.2 input

def inputs (resp : Response) (blocks : List ℤ) : List Op → List PopulateInput
  | [] => []
  | .receive :: ops => .response resp :: inputs resp blocks ops
  | .fetchBlocks :: ops => blocks.map .blockPresent ++ .proceed :: inputs resp blocks ops
  | _ :: ops => .proceed :: inputs resp blocks ops

variable {store cfg}

theorem run_world {i : ℕ} {ins : List PopulateInput} {w : World σ} {p p' : Populate}
    {sh' : Shared σ} (hp : w.populates i = some p)
    (hrun : run (alone store cfg i) (w.shared, p) ins = some (sh', p')) :
    ∃ w', run (World.step store cfg) w (ins.map (.populate i)) = some w' ∧ w'.shared = sh' ∧
      w'.populates i = some p' := by
  induction ins generalizing w p with
  | nil =>
    cases hrun
    exact ⟨w, rfl, rfl, hp⟩
  | cons input ins ih =>
    obtain ⟨⟨sh₁, p₁⟩, hstep, hrest⟩ := run_cons_eq_some.mp hrun
    have hworld : World.step store cfg w (.populate i input) = some
        { w with shared := sh₁, populates := Function.update w.populates i (some p₁) } := by
      simp only [World.step, hp, Option.bind_some]
      rw [show step store cfg i w.shared p input = some (sh₁, p₁) from hstep]
      rfl
    obtain ⟨w', hw', hshared, hp'⟩ := ih (w := { w with
      shared := sh₁, populates := Function.update w.populates i (some p₁) })
      (Function.update_self i _ _) hrest
    refine ⟨w', ?_, hshared, hp'⟩
    rw [List.map_cons, run_cons, hworld, Option.bind_some]
    exact hw'

theorem run_blocks {i : ℕ} {sh : Shared σ} {p : Populate} {ops : List Op} {row : Row}
    {rest : List PopulateInput} (hops : p.rest = .fetchBlocks :: ops) (hrow : p.row = some row)
    (hstored : ∀ b ∈ p.blocks, makeBlockKey row.metadata b ∈ sh.blocks) :
    run (alone store cfg i) (sh, p) (p.blocks.map .blockPresent ++ .proceed :: rest) =
      run (alone store cfg i) (sh, { p with rest := ops, blocks := [] }) rest := by
  induction hblocks : p.blocks generalizing p with
  | nil =>
    rw [List.map_nil, List.nil_append, run_cons]
    simp only [alone, step, hops, hblocks, if_true, Option.bind_some]
  | cons b blocks ih =>
    have hstep : alone store cfg i (sh, p) (.blockPresent b) =
        some (sh, { p with blocks := blocks }) := by
      have hb : b ∈ p.blocks := by rw [hblocks]; exact List.mem_cons_self
      simp only [alone, step, hops, hrow]
      rw [if_pos ⟨hb, hstored b hb⟩, hblocks, List.erase_cons_head]
    rw [List.map_cons, List.cons_append, run_cons, hstep, Option.bind_some]
    refine ih (p := { p with blocks := blocks }) hops hrow ?_ rfl
    intro b' hb'
    exact hstored b' (by rw [hblocks]; exact List.mem_cons_of_mem b hb')

end Populate

/-- The key holds no row, upstream holds an object with this tag, and the blocks of the
row are stored. -/
def absentRow (etag : Bytes) (blocks : List BlockKey) (log : List Event) : Shared (Cell Row) :=
  ⟨⟨none, 0⟩, some ⟨1, etag⟩, 2, blocks, log⟩

/-- The state in which populate `i` has committed the row of a response. -/
def committedRow (i : ℕ) (m : CachedObjectMeta) (blocks : List BlockKey) (log : List Event) :
    Shared (Cell Row) :=
  ⟨⟨some ⟨m, 1⟩, 1⟩, some ⟨1, m.etag⟩, 2, blocks, log ++ [.sent i, .committed i none]⟩

namespace Populate

/-! The steps of a populate on a key without a row. -/

section

variable {cfg : Config} {i : ℕ} {etag : Bytes} {stored : List BlockKey} {log : List Event}
  {kind : PopulateKind} {rest : List Op} {token : Option ℕ} {row : Option Row} {blocks : List ℤ}
  {stale : Option ℕ}

theorem alone_getMetaWithVersion :
    alone Cell.store cfg i
      (absentRow etag stored log, ⟨kind, .getMetaWithVersion :: rest, token, row, blocks, stale⟩)
      .proceed =
    some (absentRow etag stored log, ⟨kind, rest, some 1, row, blocks, stale⟩) := by
  simp [alone, step, readToken, CasCoordinator.getMetaWithVersion, Cell.store, absentRow]

theorem alone_send :
    alone Cell.store cfg i
      (absentRow etag stored log, ⟨kind, .send :: rest, token, row, blocks, stale⟩) .proceed =
    some (absentRow etag stored (log ++ [.sent i]), ⟨kind, rest, token, row, blocks, stale⟩) :=
  rfl

theorem alone_receive {resp : Response} {m : CachedObjectMeta} {touched : List ℤ}
    (haccept : kind.admission cfg resp = .accept (some m) touched) :
    alone Cell.store cfg i
      (absentRow m.etag stored log, ⟨kind, .receive :: rest, token, row, blocks, stale⟩)
      (.response resp) =
    some (absentRow m.etag stored log, ⟨kind, rest, token, some ⟨m, 1⟩, touched, stale⟩) := by
  have hanswers : (absentRow m.etag stored log).answers resp = true := by
    simp [Shared.answers, absentRow, (PopulateKind.admission_spec haccept).2]
  simp only [alone, step, hanswers, if_true, receive, haccept]
  rfl

theorem alone_getMeta :
    alone Cell.store cfg i
      (absentRow etag stored log, ⟨kind, .getMeta :: rest, token, row, blocks, stale⟩) .proceed =
    some (absentRow etag stored log, ⟨kind, rest, token, row, blocks, stale⟩) :=
  rfl

theorem alone_deleteIfETagRead :
    alone Cell.store cfg i
      (absentRow etag stored log, ⟨kind, .deleteIfETagRead :: rest, token, row, blocks, stale⟩)
      .proceed =
    some (absentRow etag stored log, ⟨kind, rest, token, row, blocks, none⟩) :=
  rfl

theorem alone_deleteIfETagDelete :
    alone Cell.store cfg i
      (absentRow etag stored log, ⟨kind, .deleteIfETagDelete :: rest, token, row, blocks, none⟩)
      .proceed =
    some (absentRow etag stored log, ⟨kind, rest, token, row, blocks, none⟩) :=
  rfl

theorem alone_putMeta {m : CachedObjectMeta} :
    (alone Cell.store cfg i (absentRow m.etag stored (log ++ [.sent i]),
      ⟨kind, .putMeta :: rest, some 1, some ⟨m, 1⟩, blocks, stale⟩) .proceed).map Prod.fst =
    some (committedRow i m stored log) := by
  simp [alone, step, commit, CasCoordinator.putMeta, Cell.store, Cell.putIfVersion, Cell.Matches,
    absentRow, committedRow, Shared.emit]

/-- A populate that runs alone on a key without a row commits what its path admits. -/
theorem alone_commits {resp : Response} {m : CachedObjectMeta} (i : ℕ) (log : List Event)
    (haccept : kind.admission cfg resp = .accept (some m) blocks) :
    (run (alone Cell.store cfg i) (absentRow m.etag (blocks.map (makeBlockKey m)) log, start kind)
      (inputs resp blocks kind.program)).map Prod.fst =
      some (committedRow i m (blocks.map (makeBlockKey m)) log) := by
  have hstored : ∀ b ∈ blocks, makeBlockKey m b ∈ blocks.map (makeBlockKey m) :=
    fun b hb => List.mem_map_of_mem hb
  have hsingle : ∀ s input, run (alone Cell.store cfg i) s [input] =
      alone Cell.store cfg i s input := fun s input => by simp [run]
  cases kind with
  | streamFromUpstream anonymous | fetchFullObjectToCache gate anonymous
  | cacheTeedBodyFromHead putETag bodyLength | establishBlockMetaFromHead writtenETag
  | handleRevalidation200 staleETag =>
    simp only [start, PopulateKind.program, inputs, run_cons, alone_getMetaWithVersion, alone_send,
      alone_receive haccept, alone_getMeta, alone_deleteIfETagRead, alone_deleteIfETagDelete,
      Option.bind_some, hsingle]
    exact alone_putMeta
  | warmParquetFooterBlocks writtenETag | handleRangeWithBackgroundCache rangeHeader anonymous =>
    simp only [start, PopulateKind.program, inputs, run_cons, alone_getMetaWithVersion, alone_send,
      alone_receive haccept, alone_getMeta, Option.bind_some]
    rw [run_blocks rfl rfl hstored]
    simp only [run_cons, alone_getMeta, Option.bind_some, hsingle]
    exact alone_putMeta

end

end Populate

/-! ## A response that is not admitted -/

/-- A populate of this kind gets this response and later makes a row visible, in some run
in which anything may happen besides. -/
def MakesVisible (cfg : Config) (kind : PopulateKind) (resp : Response) : Prop :=
  ∃ (σ : Type) (store : VersionedStore σ Row) (s : σ) (object : Option ObjectVersion) (nextId : ℕ)
    (blocks : List BlockKey) (before after : List Label) (t₀ t : World σ) (i : ℕ) (p : Populate)
    (displaced : Option Row), store.Lawful ∧
    run (World.step store cfg) (World.initial s object nextId blocks) before = some t₀ ∧
    t₀.populates i = some p ∧ p.kind = kind ∧
    run (World.step store cfg) t₀ (.populate i (.response resp) :: after) = some t ∧
    Event.committed i displaced ∈ t.shared.log

variable {σ : Type u} {store : VersionedStore σ Row} {cfg : Config} {w w' : World σ} {i : ℕ}

def World.Uncommitted (w : World σ) (i : ℕ) : Prop :=
  ∀ displaced, Event.committed i displaced ∉ w.shared.log

/-- What a step means for populate `i`. -/
inductive PopulateMove (store : VersionedStore σ Row) (cfg : Config) (w w' : World σ) (i : ℕ)
    (l : Label) : Prop
  | other (same : w'.populates i = w.populates i) (log : w.Uncommitted i → w'.Uncommitted i)
  | started (kind : PopulateKind) (fresh : w.populates i = none)
      (now : w'.populates i = some (.start kind)) (log : w'.shared.log = w.shared.log)
  | moved (input : PopulateInput) (p p' : Populate) (label : l = .populate i input)
      (old : w.populates i = some p) (new : w'.populates i = some p')
      (step : Populate.step store cfg i w.shared p input = some (w'.shared, p'))

theorem World.Uncommitted.append (hun : w.Uncommitted i) {es : List Event}
    (hlog : w'.shared.log = w.shared.log ++ es) (hes : ∀ d, Event.committed i d ∉ es) :
    w'.Uncommitted i := by
  intro d hd
  rw [hlog, List.mem_append] at hd
  exact hd.elim (hun d) (hes d)

theorem World.step_populate (h : store.Lawful) {l : Label}
    (hstep : w.step store cfg l = some w') : PopulateMove store cfg w w' i l := by
  cases World.stepped hstep with
  | @startPopulate k kind unused =>
    by_cases hk : i = k
    · subst hk
      exact .started kind unused (Function.update_self ..) rfl
    · exact .other (Function.update_of_ne hk ..) id
  | @populate k input p p' sh found step =>
    by_cases hk : i = k
    · subst hk
      exact .moved input p p' rfl found (Function.update_self ..) step
    · obtain ⟨es, hlog, hes⟩ := (Populate.step_effect h step).log
      refine .other (Function.update_of_ne hk ..) fun hun => hun.append hlog ?_
      intro d hd
      rcases hes _ hd with heq | ⟨d', heq⟩
      · cases heq
      · exact hk (Event.committed.inj heq).1
  | mutation found step =>
    obtain ⟨es, hlog, hes⟩ := (Mutation.step_effect h step).log
    refine .other rfl fun hun => hun.append hlog ?_
    intro d hd
    rcases hes _ hd with heq | ⟨heq, -⟩ <;> cases heq
  | startLookup | lookup => exact .other rfl fun hun => hun.append rfl (by simp)
  | startMutation | invalidate | expire | blocks => exact .other rfl id

theorem PopulateKind.receive_not_mem {kind : PopulateKind} {rest : List Op}
    (hsuffix : Op.receive :: rest <:+ kind.program) : Op.receive ∉ rest := by
  rw [← List.mem_tails] at hsuffix
  cases kind <;> simp_all [program]

theorem Populate.step_response {sh sh' : Shared σ} {p p' : Populate} {resp : Response}
    (hstep : Populate.step store cfg i sh p (.response resp) = some (sh', p')) :
    ∃ rest, p.rest = .receive :: rest ∧ sh.answers resp = true ∧ sh' = sh ∧
      p' = p.receive cfg sh.object resp rest := by
  cases hrest : p.rest with
  | nil => simp [Populate.step, hrest] at hstep
  | cons op rest =>
    cases op with
    | receive =>
      simp only [Populate.step, hrest, Option.ite_none_right_eq_some, Option.some.injEq,
        Prod.mk.injEq] at hstep
      exact ⟨rest, rfl, hstep.1, hstep.2.1.symm, hstep.2.2.symm⟩
    | _ => simp [Populate.step, hrest] at hstep

namespace Populate

variable {sh sh' : Shared σ} {p p' : Populate}

theorem receive_rest_suffix {object : Option ObjectVersion} {resp : Response} {rest : List Op} :
    (p.receive cfg object resp rest).rest <:+ rest := by
  unfold receive
  split
  · exact List.nil_suffix
  · exact List.suffix_refl rest

theorem Effect.rest_suffix (heffect : Effect store cfg i sh p sh' p') : p'.rest <:+ p.rest := by
  cases heffect with
  | quiet settles kind token row rest =>
    rcases rest with hnil | hsame | ⟨op, -, hcons⟩
    · rw [hnil]
      exact List.nil_suffix
    · rw [hsame]
    · rw [hcons]
      exact List.suffix_cons op _
  | token next admits | send next =>
    rw [next]
    exact List.suffix_cons _ _
  | receive next answers =>
    rw [next]
    exact receive_rest_suffix.trans (List.suffix_cons _ _)
  | commit token row written => exact List.nil_suffix

theorem receive_row_none {object : Option ObjectVersion} {resp : Response} {rest : List Op}
    (hrow : p.row = none)
    (hnone : ∀ m blocks, p.kind.admission cfg resp ≠ .accept (some m) blocks) :
    (p.receive cfg object resp rest).row = none := by
  unfold receive
  split
  · exact hrow
  · rename_i row blocks haccept
    cases row with
    | none => rfl
    | some m => exact absurd haccept (hnone m blocks)

theorem Effect.row_cases (heffect : Effect store cfg i sh p sh' p') :
    p'.row = p.row ∨ ∃ rest, p.rest = .receive :: rest ∧ p'.rest <:+ rest := by
  cases heffect with
  | quiet settles kind token row rest => exact .inl row
  | token next admits | send next => exact .inl rfl
  | receive next answers => exact .inr ⟨_, next, receive_rest_suffix⟩
  | commit token row written => exact .inl rfl

theorem Effect.uncommitted (heffect : Effect store cfg i sh p sh' p') (hrow : p.row = none)
    (hun : ∀ d, Event.committed i d ∉ sh.log) : ∀ d, Event.committed i d ∉ sh'.log := by
  cases heffect with
  | quiet settles kind token row rest => exact settles.log ▸ hun
  | token next admits | receive next answers => exact hun
  | send next =>
    intro d hd
    exact hun d (by simpa [Shared.emit] using hd)
  | commit token row written =>
    rw [hrow] at row
    cases row

end Populate

namespace World

/-- As long as populate `i` awaits its response it holds no row and has not committed. -/
structure Awaits (w : World σ) (i : ℕ) : Prop where
  absent : w.populates i = none → w.Uncommitted i
  rest : ∀ p, w.populates i = some p → p.rest <:+ p.kind.program
  row : ∀ p, w.populates i = some p → Op.receive ∈ p.rest → p.row = none ∧ w.Uncommitted i

/-- Populate `i` got its response and holds no row. -/
def Refused (w : World σ) (i : ℕ) : Prop :=
  ∃ p, w.populates i = some p ∧ p.row = none ∧ Op.receive ∉ p.rest ∧ w.Uncommitted i

theorem Awaits.step (h : store.Lawful) (hw : w.Awaits i) {l : Label}
    (hstep : w.step store cfg l = some w') : w'.Awaits i := by
  cases World.step_populate (i := i) h hstep with
  | other same log =>
    constructor
    · exact fun hnone => log (hw.absent (same ▸ hnone))
    · exact fun p hp => hw.rest p (same ▸ hp)
    · exact fun p hp hmem => (hw.row p (same ▸ hp) hmem).imp_right log
  | started kind fresh now log =>
    have hun : w'.Uncommitted i := by
      intro d hd
      exact hw.absent fresh d (log ▸ hd)
    constructor
    · exact fun _ => hun
    · intro p hp
      rw [now, Option.some.injEq] at hp
      subst hp
      exact List.suffix_refl _
    · intro p hp _
      rw [now, Option.some.injEq] at hp
      subst hp
      exact ⟨rfl, hun⟩
  | moved input p p' label old new step =>
    have heffect := Populate.step_effect h step
    constructor
    · intro hnone
      rw [new] at hnone
      cases hnone
    · intro q hq
      obtain rfl : p' = q := Option.some.inj (new.symm.trans hq)
      rw [heffect.kind_eq]
      exact heffect.rest_suffix.trans (hw.rest p old)
    · intro q hq hmem
      obtain rfl : p' = q := Option.some.inj (new.symm.trans hq)
      obtain ⟨hrow, hun⟩ := hw.row p old (heffect.rest_suffix.subset hmem)
      refine ⟨?_, heffect.uncommitted hrow hun⟩
      rcases heffect.row_cases with hsame | ⟨rest, hrest, hsuffix⟩
      · rw [hsame, hrow]
      · have hprogram := hw.rest p old
        rw [hrest] at hprogram
        exact absurd (hsuffix.subset hmem) (PopulateKind.receive_not_mem hprogram)

theorem Refused.step (h : store.Lawful) (hw : w.Refused i) {l : Label}
    (hstep : w.step store cfg l = some w') : w'.Refused i := by
  obtain ⟨p, hp, hrow, hrest, hun⟩ := hw
  cases World.step_populate (i := i) h hstep with
  | other same log => exact ⟨p, same.trans hp, hrow, hrest, log hun⟩
  | started kind fresh now log =>
    rw [hp] at fresh
    cases fresh
  | moved input q q' label old new step =>
    obtain rfl : p = q := Option.some.inj (hp.symm.trans old)
    have heffect := Populate.step_effect h step
    refine ⟨q', new, ?_, fun hmem => hrest (heffect.rest_suffix.subset hmem),
      heffect.uncommitted hrow hun⟩
    rcases heffect.row_cases with hsame | ⟨rest, hreceive, -⟩
    · rw [hsame, hrow]
    · rw [hreceive] at hrest
      exact absurd List.mem_cons_self hrest

end World

theorem World.Awaits.refused (hw : w.Awaits i) {p : Populate} {resp : Response}
    (hp : w.populates i = some p)
    (hstep : w.step store cfg (.populate i (.response resp)) = some w')
    (hnone : ∀ m blocks, p.kind.admission cfg resp ≠ .accept (some m) blocks) : w'.Refused i := by
  simp only [World.step, hp, Option.bind_some, Option.map_eq_some_iff] at hstep
  obtain ⟨⟨sh', p'⟩, hps, rfl⟩ := hstep
  obtain ⟨rest, hrest, -, rfl, rfl⟩ := Populate.step_response hps
  have hmem : Op.receive ∈ p.rest := by
    rw [hrest]
    exact List.mem_cons_self
  obtain ⟨hrow, hun⟩ := hw.row p hp hmem
  have hprogram := hw.rest p hp
  rw [hrest] at hprogram
  exact ⟨_, Function.update_self .., Populate.receive_row_none hrow hnone,
    fun hin => PopulateKind.receive_not_mem hprogram (Populate.receive_rest_suffix.subset hin), hun⟩

theorem Populate.run_kind {ins : List PopulateInput} {s t : Shared σ × Populate}
    (h : store.Lawful) (hrun : run (alone store cfg i) s ins = some t) : t.2.kind = s.2.kind := by
  have hkeep : ∀ (u : Shared σ × Populate) input u', u.2.kind = s.2.kind → True →
      alone store cfg i u input = some u' → u'.2.kind = s.2.kind :=
    fun u input u' hu _ hstep => (Populate.step_effect h hstep).kind_eq.trans hu
  exact run_invariant hkeep rfl (along_of_forall fun _ _ _ => trivial) hrun

theorem Populate.response_mem_inputs (kind : PopulateKind) (resp : Response) (blocks : List ℤ) :
    .response resp ∈ inputs resp blocks kind.program := by
  cases kind <;> simp [inputs, PopulateKind.program]

/-- A response can become visible exactly when its path makes a row of it. -/
theorem makesVisible_iff {cfg : Config} {kind : PopulateKind} {resp : Response} :
    MakesVisible cfg kind resp ↔ ∃ m blocks, kind.admission cfg resp = .accept (some m) blocks := by
  constructor
  · rintro ⟨σ, store, s, object, nextId, blocks, before, after, t₀, t, i, p, displaced, h, hbefore,
      hp, rfl, hafter, hcommitted⟩
    by_contra hnone
    have hkeep : ∀ (w : World σ) l w', w.Awaits i → True → w.step store cfg l = some w' →
        w'.Awaits i := fun w l w' hw _ hstep => hw.step h hstep
    have hstart : (World.initial s object nextId blocks).Awaits i :=
      ⟨fun _ => by simp [World.Uncommitted, World.initial], by simp [World.initial],
        by simp [World.initial]⟩
    have hawaits := run_invariant hkeep hstart (along_of_forall fun _ _ _ => trivial) hbefore
    obtain ⟨t₁, hreceived, hrest⟩ := run_cons_eq_some.mp hafter
    have hrefused : t₁.Refused i :=
      hawaits.refused hp hreceived fun m blocks haccept => hnone ⟨m, blocks, haccept⟩
    have hkeep' : ∀ (w : World σ) l w', w.Refused i → True → w.step store cfg l = some w' →
        w'.Refused i := fun w l w' hw _ hstep => hw.step h hstep
    obtain ⟨q, -, -, -, hun⟩ :=
      run_invariant hkeep' hrefused (along_of_forall fun _ _ _ => trivial) hrest
    exact hun displaced hcommitted
  · rintro ⟨m, blocks, haccept⟩
    have halone := Populate.alone_commits 0 [] haccept
    obtain ⟨pre, post, hsplit⟩ :=
      List.append_of_mem (Populate.response_mem_inputs kind resp blocks)
    rw [hsplit, Option.map_eq_some_iff] at halone
    obtain ⟨⟨sh, p'⟩, hrun, rfl⟩ := halone
    rw [run_append, Option.bind_eq_some_iff] at hrun
    obtain ⟨⟨sh₀, p⟩, hpre, hpost⟩ := hrun
    have hstore := Cell.store_lawful (ρ := Row)
    let stored := blocks.map (makeBlockKey m)
    let w : World (Cell Row) := World.initial ⟨none, 0⟩ (some ⟨1, m.etag⟩) 2 stored
    let w₀ : World (Cell Row) :=
      { w with populates := Function.update w.populates 0 (some (.start kind)) }
    obtain ⟨t₀, ht₀, hshared, hp⟩ :=
      Populate.run_world (w := w₀) (Function.update_self 0 _ _) hpre
    subst hshared
    obtain ⟨t, ht, hcommitted, -⟩ := Populate.run_world hp hpost
    refine ⟨Cell Row, Cell.store, ⟨none, 0⟩, some ⟨1, m.etag⟩, 2, stored,
      .startPopulate 0 kind :: pre.map (.populate 0), post.map (.populate 0), t₀, t, 0, p, none,
      hstore, ?_, hp, Populate.run_kind hstore hpre, ht, ?_⟩
    · rw [run_cons]
      exact ht₀
    · rw [hcommitted]
      exact List.mem_cons_of_mem _ List.mem_cons_self

end TagGateway.Proxy
