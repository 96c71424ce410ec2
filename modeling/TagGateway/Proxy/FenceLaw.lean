import TagGateway.Foundation.EventLog
import TagGateway.Proxy.StepEffects

/-!
# The fence law

Every populate that holds a row and a token satisfies one of three things: the
key's version has moved past the token, so that the commit will be refused; or
the row describes the object as it is upstream; or some mutation that changed
the object has its post-success delete still ahead. This needs one condition on
the steps: a token is never read after a fence that completed since the
populate's upstream request left. The condition is asked of the `timely` paths
only, and what is said of the others does not depend on it.
-/
namespace TagGateway.Proxy

open Foundation Cache List

universe u

variable {σ : Type u}

/-- The row describes the object's current version. -/
def Shared.Current (sh : Shared σ) (r : Row) : Prop :=
  ∃ v, sh.object = some v ∧ r.source = v.id ∧ r.metadata.etag = v.etag

/-- A post-success delete completed after the populate's request left. -/
def FencedSince (log : List Event) (i : ℕ) : Prop :=
  ∃ j, [Event.sent i, Event.fenced j] <+ log

instance (log : List Event) (i : ℕ) : Decidable (FencedSince log i) :=
  decidable_of_iff (∃ e ∈ log, (e matches .fenced _) ∧ [Event.sent i, e] <+ log) (by
    constructor
    · rintro ⟨e, -, he, hsub⟩
      cases e with
      | fenced j => exact ⟨j, hsub⟩
      | _ => cases he
    · rintro ⟨j, hsub⟩
      exact ⟨_, hsub.subset (by simp), rfl, hsub⟩)

namespace World

def applied (w : World σ) (j : ℕ) : Option (Option ℕ) := (w.mutations j).bind Mutation.applied

def fenced (w : World σ) (j : ℕ) : Bool := (w.mutations j).any Mutation.fenced

/-- Some mutation changed the object and has not fenced the key since. -/
def Pending (w : World σ) : Prop := ∃ j, (w.applied j).isSome ∧ w.fenced j = false

/-- The version was replaced by a mutation that has fenced the key. -/
def Retired (w : World σ) (id : ℕ) : Prop :=
  ∃ j, w.fenced j = true ∧ w.applied j = some (some id)

/-- The condition on steps: no populate on a timely path reads its token after a
fence that completed since its upstream request left. -/
def TokenGuard (timely : PopulateKind → Prop) (w : World σ) : Label → Prop
  | .populate i .proceed => ∀ p ∈ w.populates i, timely p.kind →
      p.rest.head? = some .getMetaWithVersion → ¬ FencedSince w.shared.log i
  | _ => True

instance (timely : PopulateKind → Prop) [DecidablePred timely] (w : World σ) :
    (l : Label) → Decidable (w.TokenGuard timely l)
  | .populate _ .proceed => inferInstanceAs (Decidable (∀ p ∈ _, _ → _ → ¬ _))
  | .populate _ .storeError | .populate _ (.response _) | .populate _ (.blockPresent _)
  | .populate _ (.blockFetched _ _) | .populate _ .abandon | .startMutation _ _
  | .mutation _ _ | .startPopulate _ _ | .startLookup _ | .lookup _ | .invalidate _
  | .expire | .storeBlock _ | .evictBlock _ => .isTrue trivial

end World

variable (store : VersionedStore σ Row) (timely : PopulateKind → Prop)

structure PopulateOk (w : World σ) (i : ℕ) (p : Populate) : Prop where
  suffix : p.rest <:+ p.kind.program
  sent_iff : p.rest ≠ [] → (Event.sent i ∈ w.shared.log ↔ Op.send ∉ p.rest)
  row_sent : ∀ r, p.row = some r → Event.sent i ∈ w.shared.log
  untokened : Op.getMetaWithVersion ∈ p.rest → p.token = none
  token_pos : ∀ t, p.token = some t → 0 < t
  token_le : ∀ t, p.token = some t → t ≤ store.version w.shared.store
  token_stale : timely p.kind → ∀ t, p.token = some t → FencedSince w.shared.log i →
    t < store.version w.shared.store
  token_gate : ∀ t, p.token = some t → t < store.version w.shared.store ∨
    p.kind.gate.admits (store.row w.shared.store) = true
  row_fresh : timely p.kind → ∀ r t, p.row = some r → p.token = some t →
    t < store.version w.shared.store ∨ w.shared.Current r ∨ w.Pending
  row_untokened : ∀ r, p.row = some r → p.token = none →
    w.shared.Current r ∨ w.Pending ∨ FencedSince w.shared.log i
  row_retired : timely p.kind → ∀ r t, p.row = some r → w.Retired r.source → p.token = some t →
    t < store.version w.shared.store
  row_retired_untokened : ∀ r, p.row = some r → w.Retired r.source → p.token = none →
    FencedSince w.shared.log i

structure Invariant (w : World σ) : Prop where
  idle : ∀ i, w.populates i = none → Event.sent i ∉ w.shared.log
  populate : ∀ i p, w.populates i = some p → PopulateOk store timely w i p
  row_fresh : (∀ kind, timely kind) → ∀ r, store.row w.shared.store = some r →
    w.shared.Current r ∨ w.Pending
  row_live : (∀ kind, timely kind) → ∀ r, store.row w.shared.store = some r → ¬ w.Retired r.source
  object_lt : ∀ v, w.shared.object = some v → v.id < w.shared.nextId
  object_live : ∀ v, w.shared.object = some v → ∀ j, w.applied j ≠ some (some v.id)
  applied_lt : ∀ j id, w.applied j = some (some id) → id < w.shared.nextId
  fenced_answered : ∀ j m, w.mutations j = some m → m.fenced = true → m.Answered
  commit_order : ∀ i d, Event.committed i d ∈ w.shared.log →
    ∃ p, w.populates i = some p ∧ p.kind.gate.admits d = true ∧
      (timely p.kind → ∀ j, ¬ [Event.sent i, Event.fenced j, Event.committed i d] <+ w.shared.log)

/-- A step without a fence, as the populates that do not move see it. -/
structure Calm (w w' : World σ) : Prop where
  version_le : store.version w.shared.store ≤ store.version w'.shared.store
  row : store.row w'.shared.store = store.row w.shared.store ∨
    store.row w'.shared.store = none ∨
    store.version w.shared.store < store.version w'.shared.store
  log : ∃ es, w'.shared.log = w.shared.log ++ es ∧ ∀ j, Event.fenced j ∉ es
  current : ∀ r, w.shared.Current r → w'.shared.Current r ∨ w'.Pending
  pending : w.Pending → w'.Pending
  retired : ∀ id, w'.Retired id → w.Retired id

/-- A step that completes a post-success delete. -/
structure Fences (w w' : World σ) : Prop where
  version_lt : store.version w.shared.store < store.version w'.shared.store
  log : ∃ j, w'.shared.log = w.shared.log ++ [Event.fenced j]

@[simp] theorem TokenGate.admits_none (gate : TokenGate) : gate.admits none = true := by
  cases gate <;> rfl

variable {store timely}

theorem Calm.fencedSince {w w' : World σ} (hc : Calm store w w') (i : ℕ) :
    FencedSince w'.shared.log i ↔ FencedSince w.shared.log i := by
  obtain ⟨es, hlog, hes⟩ := hc.log
  simp only [FencedSince, hlog, pair_append_of_not_mem (hes _)]

theorem Calm.fresh {w w' : World σ} (hc : Calm store w w') {r : Row}
    (h : w.shared.Current r ∨ w.Pending) : w'.shared.Current r ∨ w'.Pending := by
  rcases h with h | h
  · exact hc.current r h
  · exact .inr (hc.pending h)

namespace PopulateKind

/-- After its request left, or its token was read, a path does not do so
again; and no answer is awaited before the request left. -/
theorem program_order (kind : PopulateKind) (rest : List Op) :
    (Op.send :: rest <:+ kind.program → Op.send ∉ rest) ∧
    (Op.receive :: rest <:+ kind.program → Op.send ∉ rest) ∧
    (Op.getMetaWithVersion :: rest <:+ kind.program → Op.getMetaWithVersion ∉ rest) := by
  simp only [← mem_tails]
  cases kind <;> simp only [program, tails, mem_cons, cons.injEq, not_mem_nil, or_false] <;>
    refine ⟨?_, ?_, ?_⟩ <;> rintro h <;> simp_all

end PopulateKind

/-- A response that yields a row carries a body, and the row names the version
the response names. -/
theorem PopulateKind.admission_spec {cfg : Config} {kind : PopulateKind} {resp : Response}
    {m : CachedObjectMeta} {blocks : List ℤ}
    (h : kind.admission cfg resp = .accept (some m) blocks) :
    (resp.status = 200 ∨ resp.status = 206) ∧ m.etag = resp.header.get (ascii "ETag") := by
  cases kind with
  | streamFromUpstream anonymous =>
    obtain ⟨hs, he⟩ := admitFullObject_spec (Admission.eq_of_ofMeta h)
    exact ⟨.inl hs, he⟩
  | fetchFullObjectToCache gate anonymous =>
    obtain ⟨hs, he⟩ := admitFullObject_spec (Admission.eq_of_ofMeta h)
    exact ⟨.inl hs, he⟩
  | cacheTeedBodyFromHead putETag bodyLength =>
    obtain ⟨hs, he⟩ := admitTeedBody_spec (Admission.eq_of_ofMeta h)
    exact ⟨.inl hs, he⟩
  | establishBlockMetaFromHead writtenETag =>
    obtain ⟨hs, he⟩ := admitBlockMetaFromHead_spec (Admission.eq_of_ofMeta h)
    exact ⟨.inl hs, he⟩
  | warmParquetFooterBlocks writtenETag =>
    obtain ⟨hs, he⟩ := admitParquetTrailer_spec (Admission.eq_of_ofBlocks h)
    exact ⟨.inr hs, he⟩
  | handleRangeWithBackgroundCache rangeHeader anonymous =>
    obtain ⟨hs, he⟩ := admitRangeMiss_spec (Admission.eq_of_ofBlocks h)
    exact ⟨.inr hs, he⟩
  | handleRevalidation200 staleETag =>
    simp only [PopulateKind.admission] at h
    split_ifs at h with hs
    rw [Admission.accept.injEq] at h
    exact ⟨.inl hs, admitRevalidated_etag h.1⟩

theorem Shared.etag_of_answers {sh : Shared σ} {resp : Response} {v : ObjectVersion}
    (h : sh.answers resp = true) (hs : resp.status = 200 ∨ resp.status = 206)
    (hv : sh.object = some v) : v.etag = resp.header.get (ascii "ETag") := by
  simpa [Shared.answers, hs, hv] using h

/-- An answer either ends the populate or leaves it with a row of the version
upstream holds at that moment. -/
theorem Populate.receive_spec {cfg : Config} {sh : Shared σ} {resp : Response}
    (h : sh.answers resp = true) (rest : List Op) (p : Populate) :
    (p.receive cfg sh.object resp rest).kind = p.kind ∧
    (p.receive cfg sh.object resp rest).token = p.token ∧
    (p.receive cfg sh.object resp rest = p.stop ∨
      (p.receive cfg sh.object resp rest).rest = rest ∧
      ∀ r, (p.receive cfg sh.object resp rest).row = some r → sh.Current r) := by
  unfold Populate.receive
  cases hadmission : p.kind.admission cfg resp with
  | reject => exact ⟨rfl, rfl, .inl rfl⟩
  | accept row blocks =>
    refine ⟨rfl, rfl, .inr ⟨rfl, ?_⟩⟩
    intro r hr
    cases row with
    | none => cases hr
    | some m =>
      obtain ⟨hstatus, hetag⟩ := PopulateKind.admission_spec hadmission
      simp only [Option.bind_some, Option.map_eq_some_iff] at hr
      obtain ⟨v, hv, rfl⟩ := hr
      exact ⟨v, hv, rfl, hetag.trans (Shared.etag_of_answers h hstatus hv).symm⟩

namespace PopulateOk

variable {w w' : World σ} {i : ℕ} {p p' : Populate}

theorem calm (ok : PopulateOk store timely w i p) (hc : Calm store w w')
    (hsent : Event.sent i ∈ w'.shared.log → Event.sent i ∈ w.shared.log) :
    PopulateOk store timely w' i p := by
  have hle := hc.version_le
  have hsent_iff : Event.sent i ∈ w'.shared.log ↔ Event.sent i ∈ w.shared.log := by
    obtain ⟨es, hlog, -⟩ := hc.log
    exact ⟨hsent, fun h => by simp [hlog, h]⟩
  constructor
  · exact ok.suffix
  · rw [hsent_iff]
    exact ok.sent_iff
  · intro r hr
    exact hsent_iff.mpr (ok.row_sent r hr)
  · exact ok.untokened
  · exact ok.token_pos
  · intro t ht
    exact (ok.token_le t ht).trans hle
  · intro hi t ht hf
    exact (ok.token_stale hi t ht ((hc.fencedSince i).mp hf)).trans_le hle
  · intro t ht
    rcases ok.token_gate t ht with hlt | hgate
    · exact .inl (hlt.trans_le hle)
    · rcases hc.row with hrow | hrow | hlt
      · exact .inr (by rw [hrow]; exact hgate)
      · exact .inr (by rw [hrow, TokenGate.admits_none])
      · exact .inl ((ok.token_le t ht).trans_lt hlt)
  · intro hi r t hr ht
    rcases ok.row_fresh hi r t hr ht with hlt | hfresh
    · exact .inl (hlt.trans_le hle)
    · exact .inr (hc.fresh hfresh)
  · intro r hr ht
    rcases ok.row_untokened r hr ht with hcur | hpend | hf
    · rcases hc.current r hcur with hcur | hpend
      · exact .inl hcur
      · exact .inr (.inl hpend)
    · exact .inr (.inl (hc.pending hpend))
    · exact .inr (.inr ((hc.fencedSince i).mpr hf))
  · intro hi r t hr hret ht
    exact (ok.row_retired hi r t hr (hc.retired _ hret) ht).trans_le hle
  · intro r hr hret ht
    exact (hc.fencedSince i).mpr (ok.row_retired_untokened r hr (hc.retired _ hret) ht)

/-- A fence overtakes every token and is seen by every request on its way. -/
theorem fence (ok : PopulateOk store timely w i p) (hf : Fences store w w') :
    PopulateOk store timely w' i p := by
  obtain ⟨j, hlog⟩ := hf.log
  have hsent_iff : Event.sent i ∈ w'.shared.log ↔ Event.sent i ∈ w.shared.log := by
    simp [hlog]
  have hstale : ∀ t, p.token = some t → t < store.version w'.shared.store := fun t ht =>
    (ok.token_le t ht).trans_lt hf.version_lt
  have hsince : ∀ r, p.row = some r → FencedSince w'.shared.log i := fun r hr =>
    ⟨j, by rw [hlog]; exact pair_snoc (ok.row_sent r hr)⟩
  constructor
  · exact ok.suffix
  · rw [hsent_iff]
    exact ok.sent_iff
  · intro r hr
    exact hsent_iff.mpr (ok.row_sent r hr)
  · exact ok.untokened
  · exact ok.token_pos
  · intro t ht
    exact (hstale t ht).le
  · intro _ t ht _
    exact hstale t ht
  · intro t ht
    exact .inl (hstale t ht)
  · intro _ r t _ ht
    exact .inl (hstale t ht)
  · intro r hr _
    exact .inr (.inr (hsince r hr))
  · intro _ r t _ _ ht
    exact hstale t ht
  · intro r hr _ _
    exact hsince r hr

theorem shorten (ok : PopulateOk store timely w i p) (kind : p'.kind = p.kind)
    (token : p'.token = p.token) (row : p'.row = p.row)
    (rest : Populate.Shortens p.rest p'.rest) : PopulateOk store timely w i p' := by
  have hsub : p'.rest <:+ p.rest := by
    rcases rest with hnil | hsame | ⟨op, -, hcons⟩
    · rw [hnil]
      exact nil_suffix
    · rw [hsame]
    · rw [hcons]
      exact suffix_cons op _
  constructor
  · rw [kind]
    exact hsub.trans ok.suffix
  · intro hne
    rcases rest with hnil | hsame | ⟨op, hop, hcons⟩
    · exact absurd hnil hne
    · rw [hsame]
      exact ok.sent_iff (hsame ▸ hne)
    · rw [ok.sent_iff (by simp [hcons]), hcons]
      simp [hop.symm]
  · rw [row]
    exact ok.row_sent
  · rw [token]
    exact fun hmem => ok.untokened (hsub.subset hmem)
  · rw [token]
    exact ok.token_pos
  · rw [token]
    exact ok.token_le
  · rw [token, kind]
    exact ok.token_stale
  · rw [token, kind]
    exact ok.token_gate
  · rw [token, row, kind]
    exact ok.row_fresh
  · rw [token, row]
    exact ok.row_untokened
  · rw [token, row, kind]
    exact ok.row_retired
  · rw [token, row]
    exact ok.row_retired_untokened

/-- A token read while no fence completed since the request left is good for
whatever row the populate holds. -/
theorem readToken (h : store.Lawful) (ok : PopulateOk store timely w i p) {rest : List Op}
    (next : p.rest = .getMetaWithVersion :: rest)
    (admits : p.kind.gate.admits (store.row w.shared.store) = true)
    (guard : timely p.kind → ¬ FencedSince w.shared.log i)
    (hshared : w'.shared =
      { w.shared with store := (store.getWithVersion w.shared.store).1 })
    (hcalm : Calm store w w') :
    PopulateOk store timely w' i
      { p with rest := rest, token := some (store.getWithVersion w.shared.store).2.2 } := by
  have hnone : p.token = none := ok.untokened (by simp [next])
  have hguard : timely p.kind → ¬ FencedSince w'.shared.log i := by rwa [hcalm.fencedSince]
  have hcalmOk : PopulateOk store timely w' i p := ok.calm hcalm (by simp [hshared])
  have hversion : (store.getWithVersion w.shared.store).2.2 =
      store.version w'.shared.store := by rw [hshared, h.get_version]
  have horder := (p.kind.program_order rest).2.2 (next ▸ ok.suffix)
  constructor
  · exact (suffix_cons _ _).trans (next ▸ ok.suffix)
  · intro _
    rw [hcalmOk.sent_iff (by simp [next]), next]
    simp
  · exact hcalmOk.row_sent
  · exact fun hmem => absurd hmem horder
  · rintro t ⟨rfl⟩
    exact h.get_pos _
  · rintro t ⟨rfl⟩
    exact hversion.le
  · rintro hi t ⟨rfl⟩ hf
    exact absurd hf (hguard hi)
  · rintro t ⟨rfl⟩
    right
    rw [hshared, h.get_row]
    exact admits
  · rintro hi r t hr ⟨rfl⟩
    rcases hcalmOk.row_untokened r hr hnone with hcur | hpend | hf
    · exact .inr (.inl hcur)
    · exact .inr (.inr hpend)
    · exact absurd hf (hguard hi)
  · rintro r hr ⟨⟩
  · rintro hi r t hr hret ⟨rfl⟩
    exact absurd (hcalmOk.row_retired_untokened r hr hret hnone) (hguard hi)
  · rintro r hr hret ⟨⟩

theorem send (ok : PopulateOk store timely w i p) {rest : List Op} (next : p.rest = .send :: rest)
    (hshared : w'.shared = w.shared.emit (.sent i)) :
    PopulateOk store timely w' i { p with rest := rest } := by
  have hunsent : Event.sent i ∉ w.shared.log := by
    rw [ok.sent_iff (by simp [next]), next]
    simp
  have hnorow : ∀ r, p.row = some r → False := fun r hr => hunsent (ok.row_sent r hr)
  have hlog : w'.shared.log = w.shared.log ++ [.sent i] := by rw [hshared]; rfl
  have hstore : w'.shared.store = w.shared.store := by rw [hshared]; rfl
  have hnosince : ¬ FencedSince w'.shared.log i := by
    rintro ⟨j, hsub⟩
    rw [hlog] at hsub
    rcases pair_snoc_cases hsub with hsub | ⟨heq, -⟩
    · exact hunsent (hsub.subset (by simp))
    · cases heq
  constructor
  · exact (suffix_cons _ _).trans (next ▸ ok.suffix)
  · intro _
    have horder := (p.kind.program_order rest).1 (next ▸ ok.suffix)
    simpa [hlog] using horder
  · exact fun r hr => (hnorow r hr).elim
  · exact fun hmem => ok.untokened (by simpa [next] using hmem)
  · exact ok.token_pos
  · rw [hstore]
    exact ok.token_le
  · exact fun _ t _ hf => absurd hf hnosince
  · rw [hstore]
    exact ok.token_gate
  · exact fun _ r t hr => (hnorow r hr).elim
  · exact fun r hr => (hnorow r hr).elim
  · exact fun _ r t hr => (hnorow r hr).elim
  · exact fun r hr => (hnorow r hr).elim

/-- A row just received describes the object, whose version no mutation has
replaced. -/
theorem receive (ok : PopulateOk store timely w i p) {cfg : Config} {resp : Response}
    {rest : List Op} (next : p.rest = .receive :: rest)
    (answers : w.shared.answers resp = true)
    (live : ∀ v, w.shared.object = some v → ¬ w.Retired v.id) :
    PopulateOk store timely w i (p.receive cfg w.shared.object resp rest) := by
  obtain ⟨hkind, htoken, hstop | ⟨hrest, hrow⟩⟩ := Populate.receive_spec answers rest p
  · rw [hstop]
    exact ok.shorten rfl rfl rfl (.inl rfl)
  · have horder := (p.kind.program_order rest).2.1 (next ▸ ok.suffix)
    have hsent : Event.sent i ∈ w.shared.log := by
      rw [ok.sent_iff (by simp [next]), next]
      simpa using horder
    have hlive : ∀ r, (p.receive cfg w.shared.object resp rest).row = some r →
        ¬ w.Retired r.source := by
      intro r hr
      obtain ⟨v, hv, hsource, -⟩ := hrow r hr
      rw [hsource]
      exact live v hv
    constructor
    · rw [hrest, hkind]
      exact (suffix_cons _ _).trans (next ▸ ok.suffix)
    · intro _
      rw [hrest]
      exact ⟨fun _ => horder, fun _ => hsent⟩
    · exact fun _ _ => hsent
    · rw [hrest, htoken]
      exact fun hmem => ok.untokened (by simp [next, hmem])
    · rw [htoken]
      exact ok.token_pos
    · rw [htoken]
      exact ok.token_le
    · rw [htoken, hkind]
      exact ok.token_stale
    · rw [htoken, hkind]
      exact ok.token_gate
    · exact fun _ r _ hr _ => .inr (.inl (hrow r hr))
    · exact fun r hr _ => .inl (hrow r hr)
    · exact fun _ r _ hr hret => absurd hret (hlive r hr)
    · exact fun r hr hret => absurd hret (hlive r hr)

theorem start (kind : PopulateKind) (hunsent : Event.sent i ∉ w.shared.log) :
    PopulateOk store timely w i (.start kind) := by
  constructor
  · exact suffix_rfl
  · intro _
    have hmem : Op.send ∈ kind.program := by cases kind <;> simp [PopulateKind.program]
    simp [Populate.start, hunsent, hmem]
  · rintro r ⟨⟩
  · exact fun _ => rfl
  all_goals intros; simp_all [Populate.start]

end PopulateOk
end TagGateway.Proxy
