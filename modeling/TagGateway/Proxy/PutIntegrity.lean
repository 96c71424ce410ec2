import TagGateway.Proxy.DecodedBody
import TagGateway.Proxy.StagedBodies

/-!
# What an engine PUT stores

A PUT that the local tier takes, alone on its key. An answer of 200 means that the row
names a body which is the object of the request, whole and checked; after any other
answer the row is the one from before, unless an attempt to commit ended in an error.
-/
namespace TagGateway.Proxy

open Foundation Cache Auth

universe u

/-- A PUT of a key that nobody else writes, with what the store of bodies holds. -/
structure EnginePut (σ : Type u) where
  tier : Tier σ
  put : TieredPut
  contents : Bytes → Option Bytes

namespace TieredPut

def bodyRead (lib : EngineLib) (size : ℤ) (up : Upload) (p : TieredPut) :
    Bytes × Option ChunkError :=
  (p.reader size).readLimited lib.toStdlib (size + 1).toNat up.calls

/-- A body that the store takes without an error was read up to the end. -/
def ReadsToEnd (lib : EngineLib) (p : TieredPut) : TieredPutInput → Prop
  | .upload up => up.reply = .stored → ∀ size, p.request.originlessPutSize = some size →
      (p.bodyRead lib size up).2 = some .eof
  | .route _ | .proceed | .storeError _ | .noSlot | .discard _ => True

/-- The row describes this object, and the object is what the request says it sends: its
body without the framing, of the declared size, with the digests it names, and over a
verified chain where there is one. -/
structure Describes (lib : EngineLib) (p : TieredPut) (m : CachedObjectMeta) (object : Bytes) :
    Prop where
  carried : p.request.CarriesObject object
  declared : p.request.originlessPutSize = some (object.length : ℤ)
  length : m.contentLength = object.length
  etag : m.etag = ascii "\"" ++ hexEncode (lib.md5 object) ++ ascii "\""
  contentMD5 : ∀ value more,
    p.request.header.values (canonicalHeaderKey (ascii "Content-MD5")) = some (value :: more) →
      lib.decodeBase64 value = some (lib.md5 object)
  payloadSHA256 : ∀ digest, p.request.concretePayloadSHA256 lib = some digest →
    digest = lib.sha256 object
  chain : p.request.streaming = true → ∀ v, p.chunkVerifier = some v →
    ∃ left, Authenticated lib.toStdlib v p.request.body.rest object.length object left

end TieredPut

namespace EnginePut

variable {σ : Type u} (store : VersionedStore σ Row) (cfg : TieredConfig) (lib : EngineLib)
  (newBodyRef : ℕ → Bytes) (i : ℕ)

/-- The store of bodies after a step: it holds what was read, under the reference of the
PUT, until that is reclaimed. -/
def contentsAfter (s : EnginePut σ) (input : TieredPutInput) : Bytes → Option Bytes :=
  match s.put.phase, input with
  | .uploading _ size, .upload up =>
    if (s.put.request.contentMD5 lib).isOk ∧ up.reply = .stored then
      Function.update s.contents (etagKeyComponent (newBodyRef i))
        (some (s.put.bodyRead lib size up).1)
    else s.contents
  | .discarding, .discard true =>
    Function.update s.contents (etagKeyComponent (newBodyRef i)) none
  | _, _ => s.contents

def step (s : EnginePut σ) (input : TieredPutInput) : Option (EnginePut σ) :=
  (s.put.step store cfg lib newBodyRef i s.tier input).map fun x =>
    ⟨x.1, x.2, s.contentsAfter lib newBodyRef i input⟩

/-- An attempt to commit ends in an error. -/
def CommitFails (s : EnginePut σ) (input : TieredPutInput) : Prop :=
  ∃ m token attempt applied, s.put.phase = .storing m token attempt ∧ input = .storeError applied

/-- Reads find this row, and under its reference this object. -/
structure Visible (s : EnginePut σ) (m : CachedObjectMeta) (object : Bytes) : Prop where
  row : ∃ id, store.row s.tier.store = some ⟨m, id⟩
  reported : s.tier.reported store = some m
  body : s.contents (etagKeyComponent m.bodyDiscriminator) = some object

end EnginePut

/-! ## The body -/

namespace TieredPut

variable {cfg : TieredConfig} {lib : EngineLib} {newBodyRef : ℕ → Bytes} {i : ℕ} {p : TieredPut}

theorem originlessPutSize_nonneg {r : PutRequest} {size : ℤ}
    (h : r.originlessPutSize = some size) : 0 ≤ size := by
  unfold PutRequest.originlessPutSize at h
  split at h
  · dsimp only at h
    split at h
    · cases h
    · split at h
      · rename_i n _
        split at h
        · cases h
          assumption
        · cases h
      · cases h
  · split at h
    · cases h
    · cases h
      omega

theorem contentMD5_ok {r : PutRequest} {wantMD5 : Option Bytes} (h : r.contentMD5 lib = .ok wantMD5)
    {value : Bytes} {more : List Bytes}
    (hvalues : r.header.values (canonicalHeaderKey (ascii "Content-MD5")) = some (value :: more)) :
    ∃ digest, wantMD5 = some digest ∧ lib.decodeBase64 value = some digest := by
  unfold PutRequest.contentMD5 at h
  rw [hvalues] at h
  dsimp only [Option.getD_some] at h
  split at h
  · cases h
  · rename_i digest hdecode
    split at h
    · cases h
      exact ⟨digest, rfl, hdecode⟩
    · cases h

theorem checkBody_ok {size : ℤ} {wantMD5 : Option Bytes} {data : Bytes} {now : ℤ}
    {m : CachedObjectMeta} (h : p.checkBody cfg lib newBodyRef i size wantMD5 data now = .ok m) :
    (data.length : ℤ) = size ∧ (∀ want, wantMD5 = some want → want = lib.md5 data) ∧
      (∀ want, p.request.concretePayloadSHA256 lib = some want → want = lib.sha256 data) ∧
      m = p.storedMeta cfg lib newBodyRef i size data now := by
  unfold checkBody at h
  split at h
  · cases h
  · rename_i hlength
    split at h
    · cases h
    · rename_i hmd5
      split at h
      · cases h
      · rename_i hsha
        cases h
        refine ⟨not_not.mp hlength, ?_, ?_, rfl⟩
        · rintro want rfl
          simpa using hmd5
        · intro want hwant
          rw [hwant] at hsha
          simpa using hsha

theorem describes_of_receive {size : ℤ} {wantMD5 : Option Bytes} {up : Upload}
    {m : CachedObjectMeta} (hsize : p.request.originlessPutSize = some size)
    (hmd5 : p.request.contentMD5 lib = .ok wantMD5)
    (h : p.receive cfg lib newBodyRef i size wantMD5 up = .ok m)
    (hend : (p.bodyRead lib size up).2 = some .eof) :
    p.Describes lib m (p.bodyRead lib size up).1 := by
  have hread : (p.reader size).readLimited lib.toStdlib (size + 1).toNat up.calls =
      ((p.bodyRead lib size up).1, some .eof) := Prod.ext rfl hend
  have hcheck : p.checkBody cfg lib newBodyRef i size wantMD5 (p.bodyRead lib size up).1 up.now =
      .ok m := by
    have hreply := (receive_ok h).1
    unfold receive at h
    rw [hread, hreply] at h
    exact h
  obtain ⟨hlength, hwant, hsha, rfl⟩ := checkBody_ok hcheck
  have hnonneg := originlessPutSize_nonneg hsize
  have hlimit : (p.bodyRead lib size up).1.length < (size + 1).toNat := by omega
  constructor
  · exact reader_carries hread hlimit
  · rw [hsize, hlength]
  · exact hlength.symm
  · rfl
  · intro value more hvalues
    obtain ⟨digest, hdigest, hdecode⟩ := contentMD5_ok hmd5 hvalues
    rw [hdecode, hwant digest hdigest]
  · exact hsha
  · intro hstream v hverifier
    exact reader_authenticated hstream hverifier hlength.symm hread hlimit

theorem bodyRead_congr {q : TieredPut} (hrequest : q.request = p.request)
    (hverifier : q.chunkVerifier = p.chunkVerifier) (size : ℤ) (up : Upload) :
    q.bodyRead lib size up = p.bodyRead lib size up := by
  simp only [bodyRead, reader, hrequest, hverifier]

theorem Describes.congr {q : TieredPut} {m : CachedObjectMeta} {object : Bytes}
    (h : q.Describes lib m object) (hrequest : q.request = p.request)
    (hverifier : q.chunkVerifier = p.chunkVerifier) : p.Describes lib m object := by
  obtain ⟨hcarried, hdeclared, hlength, hetag, hmd5, hsha, hchain⟩ := h
  rw [hrequest] at hcarried hdeclared hmd5 hsha hchain
  rw [hverifier] at hchain
  exact ⟨hcarried, hdeclared, hlength, hetag, hmd5, hsha, hchain⟩

/-! ## The steps -/

section Steps

variable {σ : Type u} {store : VersionedStore σ Row} {sh : Tier σ} {x : Tier σ × TieredPut}
  {input : TieredPutInput}

/-- Where a PUT uploads, it does so under the declared size. -/
def UploadsDeclared (p : TieredPut) : Prop :=
  ∀ token size, p.phase = .uploading token size → p.request.originlessPutSize = some size

theorem uploadsDeclared_of_phase {p : TieredPut}
    (h : ∀ token size, p.phase ≠ .uploading token size) : p.UploadsDeclared :=
  fun token size hphase => absurd hphase (h token size)

theorem accept_uploadsDeclared (token : ℕ) : (p.accept cfg i sh token).2.UploadsDeclared := by
  unfold accept
  split
  · exact uploadsDeclared_of_phase (by simp [finish])
  · rename_i size hsize
    split
    · exact uploadsDeclared_of_phase (by simp [finish])
    · rintro token' size' ⟨⟩
      exact hsize

theorem judge_uploadsDeclared (visible : Option CachedObjectMeta) (token : ℕ) :
    (p.judge cfg i sh visible token).2.UploadsDeclared := by
  unfold judge
  split
  · exact uploadsDeclared_of_phase (by simp [finish])
  · exact accept_uploadsDeclared token

theorem route_uploadsDeclared (overBudget : Bool) :
    (p.route store cfg lib i sh overBudget).2.UploadsDeclared := by
  unfold route
  split
  · exact uploadsDeclared_of_phase (by simp)
  · split
    · split
      · exact uploadsDeclared_of_phase (by simp [finish])
      · exact uploadsDeclared_of_phase (by simp)
    · dsimp only
      split
      · exact uploadsDeclared_of_phase (by simp)
      · split
        · exact uploadsDeclared_of_phase (by simp [finish])
        · unfold handleOriginlessPut
          split
          · split
            · exact judge_uploadsDeclared _ _
            · split
              · exact judge_uploadsDeclared _ _
              · exact uploadsDeclared_of_phase (by simp)
          · exact accept_uploadsDeclared _

theorem upload_uploadsDeclared (token : ℕ) (size : ℤ) (up : Upload) :
    (p.upload cfg lib newBodyRef i sh token size up).2.UploadsDeclared := by
  apply uploadsDeclared_of_phase
  unfold upload
  split
  · simp [finish]
  · dsimp only
    split
    · simp [abort]
    · simp

theorem commit_uploadsDeclared (m : CachedObjectMeta) (token attempt : ℕ) :
    (p.commit store i sh m token attempt).2.UploadsDeclared := by
  apply uploadsDeclared_of_phase
  unfold commit
  split
  · simp [finish]
  · split
    · simp [abort]
    · split
      · simp
      · simp [abort]

theorem step_uploadsDeclared (hstep : p.step store cfg lib newBodyRef i sh input = some x) :
    x.2.UploadsDeclared := by
  unfold step at hstep
  split at hstep
  case h_1 =>
    cases hstep
    exact route_uploadsDeclared _
  case h_2 =>
    split at hstep
    · cases hstep
      exact uploadsDeclared_of_phase (by simp [finish])
    · cases hstep
  case h_3 =>
    cases hstep
    exact judge_uploadsDeclared _ _
  case h_6 =>
    cases hstep
    exact upload_uploadsDeclared _ _ _
  case h_7 =>
    cases hstep
    exact commit_uploadsDeclared _ _ _
  case h_12 => cases hstep
  all_goals
    cases hstep
    exact uploadsDeclared_of_phase (by simp [finish, abort])

theorem upload_metadata {token : ℕ} {size : ℤ} {up : Upload} {m : CachedObjectMeta}
    (hm : (p.upload cfg lib newBodyRef i sh token size up).2.metadata = some m) :
    ∃ wantMD5, p.request.contentMD5 lib = .ok wantMD5 ∧
      p.receive cfg lib newBodyRef i size wantMD5 up = .ok m ∧
      (p.upload cfg lib newBodyRef i sh token size up).1.bodies =
        etagKeyComponent (newBodyRef i) :: sh.bodies := by
  unfold upload at hm ⊢
  cases hmd5 : p.request.contentMD5 lib with
  | error code =>
    rw [hmd5] at hm
    cases hm
  | ok wantMD5 =>
    rw [hmd5] at hm
    dsimp only at hm ⊢
    cases hreceive : p.receive cfg lib newBodyRef i size wantMD5 up with
    | error answer =>
      rw [hreceive] at hm
      cases hm
    | ok m' =>
      rw [hreceive] at hm
      cases hm
      rw [if_pos (receive_ok hreceive).1]
      exact ⟨wantMD5, rfl, hreceive, rfl⟩

theorem step_metadata (hl : store.Lawful) (hrefs : p.RefOk newBodyRef i)
    (hstep : p.step store cfg lib newBodyRef i sh input = some x) {m : CachedObjectMeta}
    (hm : x.2.metadata = some m) :
    p.metadata = some m ∧ x.1.bodies = sh.bodies ∨
      ∃ token size up wantMD5, p.phase = .uploading token size ∧ input = .upload up ∧
        p.request.contentMD5 lib = .ok wantMD5 ∧
        p.receive cfg lib newBodyRef i size wantMD5 up = .ok m ∧
        x.1.bodies = etagKeyComponent (newBodyRef i) :: sh.bodies := by
  have heffect := step_effect hl hrefs.token_pos hstep
  generalize hsh : x.1 = sh', hq : x.2 = p' at heffect hm ⊢
  cases heffect with
  | forward | refuse | readForward | readRefuse | readProbe | readAccept | accept | abort | install
  | discard => cases hm
  | retry phase =>
    cases hm
    exact .inl ⟨by rw [metadata, phase], rfl⟩
  | reread phase =>
    cases hm
    exact .inl ⟨by rw [metadata, phase], rfl⟩
  | @stage token size m' phase staged =>
    rw [← hq] at hm
    rw [← hsh]
    cases input with
    | upload up =>
      simp only [step, phase, Option.some.injEq] at hstep
      rw [← hstep] at hm ⊢
      obtain ⟨wantMD5, hmd5, hreceive, hbodies⟩ := upload_metadata hm
      exact .inr ⟨token, size, up, wantMD5, phase, rfl, hmd5, hreceive, hbodies⟩
    | noSlot =>
      simp only [step, phase, Option.some.injEq] at hstep
      rw [← hstep] at hm
      cases hm
    | _ => simp [step, phase] at hstep

variable {sh' : Tier σ} {p' : TieredPut}

theorem Effect.answered_stored (h : Effect store newBodyRef i sh p sh' p') {etag : Bytes}
    (hanswer : .answered i (.stored etag) ∈ sh'.log) :
    .answered i (.stored etag) ∈ sh.log ∨
      ∃ m token attempt, p.phase = .storing m token attempt ∧ p'.phase = .finished ∧
        store.row sh'.store = some ⟨m, sh.nextId⟩ ∧ sh'.bodies = sh.bodies ∧ etag = m.etag := by
  cases h with
  | forward | accept | stage | retry | reread | discard => exact .inl hanswer
  | readForward | readProbe | readAccept =>
    exact .inl (by simpa [readToken, Tier.emit] using hanswer)
  | @refuse answer live refused =>
    left
    have hne := (refused etag).symm
    simpa [Tier.emit, hne] using hanswer
  | readRefuse => exact .inl (by simpa [readToken, Tier.emit] using hanswer)
  | @abort answer bodies live kept refused =>
    left
    have hne := (refused etag).symm
    simpa [Tier.emit, hne] using hanswer
  | @install m token attempt s answer phase version row advances answered =>
    rcases answered with rfl | rfl
    · have hcases : .answered i (.stored etag) ∈ sh.log ∨ etag = m.etag := by
        simpa [Tier.emit] using hanswer
      rcases hcases with hold | hetag
      · exact .inl hold
      · exact .inr ⟨m, token, attempt, phase, rfl, row, rfl, hetag⟩
    · exact .inl (by simpa [Tier.emit] using hanswer)

theorem Effect.row_kept (hl : store.Lawful) (h : Effect store newBodyRef i sh p sh' p')
    (hphase : ∀ m token attempt, p.phase ≠ .storing m token attempt) :
    store.row sh'.store = store.row sh.store := by
  cases h with
  | forward | refuse | accept | stage | abort | retry | discard => rfl
  | readForward | readRefuse | readProbe | readAccept | reread => exact hl.get_row sh.store
  | install phase => exact absurd phase (hphase _ _ _)

/-- A commit that is not answered by an error: it is refused, or it is answered with 200. -/
theorem step_commit (hl : store.Lawful) {m : CachedObjectMeta} {token attempt : ℕ}
    (hphase : p.phase = .storing m token attempt) (hpos : 0 < token)
    (hinput : ∀ applied, input ≠ .storeError applied)
    (hstep : p.step store cfg lib newBodyRef i sh input = some x) :
    store.row x.1.store = store.row sh.store ∨
      x.2.phase = .finished ∧ ∃ displaced version,
        x.1.log = sh.log ++ [.installed i displaced version, .answered i (.stored m.etag)] := by
  cases input with
  | proceed =>
    simp only [step, hphase, Option.some.injEq] at hstep
    rw [← hstep]
    unfold commit
    rcases install_cases hl i sh m hpos with ⟨s, -, -, -, heq⟩ | heq
    · rw [heq]
      exact .inr ⟨rfl, store.row sh.store, store.version sh.store, by simp [finish, Tier.emit]⟩
    · rw [heq]
      dsimp only
      split_ifs <;> exact .inl rfl
  | storeError applied => exact absurd rfl (hinput applied)
  | _ => simp [step, hphase] at hstep

end Steps

end TieredPut
/-! ## The runs -/

namespace EnginePut

variable {σ : Type u} {store : VersionedStore σ Row} {cfg : TieredConfig} {lib : EngineLib}
  {newBodyRef : ℕ → Bytes} {i : ℕ} {start s s' : EnginePut σ} {input : TieredPutInput}

theorem step_eq (h : s.step store cfg lib newBodyRef i input = some s') :
    s.put.step store cfg lib newBodyRef i s.tier input = some (s'.tier, s'.put) ∧
      s'.contents = s.contentsAfter lib newBodyRef i input := by
  obtain ⟨x, hx, rfl⟩ := Option.map_eq_some_iff.mp h
  exact ⟨hx, rfl⟩

theorem contentsAfter_of_metadata {m : CachedObjectMeta} (h : s.put.metadata = some m) :
    s.contentsAfter lib newBodyRef i input = s.contents := by
  unfold TieredPut.metadata at h
  unfold contentsAfter
  split at h
  · rename_i hphase
    simp only [hphase]
  · rename_i hphase
    simp only [hphase]
  all_goals cases h

theorem contentsAfter_upload {token : ℕ} {size : ℤ} {up : Upload} {wantMD5 : Option Bytes}
    (hphase : s.put.phase = .uploading token size)
    (hmd5 : s.put.request.contentMD5 lib = .ok wantMD5) (hreply : up.reply = .stored) :
    s.contentsAfter lib newBodyRef i (.upload up) (etagKeyComponent (newBodyRef i)) =
      some (s.put.bodyRead lib size up).1 := by
  simp only [contentsAfter, hphase, hmd5, hreply]
  rw [if_pos ⟨rfl, trivial⟩, Function.update_self]

variable (lib newBodyRef i) in
/-- The body of a row that waits for its commit is stored, and is the object. -/
def Staged (start s : EnginePut σ) (m : CachedObjectMeta) : Prop :=
  ∃ object, s.contents (etagKeyComponent (newBodyRef i)) = some object ∧
    etagKeyComponent (newBodyRef i) ∈ s.tier.bodies ∧ start.put.Describes lib m object

variable (store lib newBodyRef i) in
structure Sound (start s : EnginePut σ) : Prop where
  request : s.put.request = start.put.request
  verifier : s.put.chunkVerifier = start.put.chunkVerifier
  refs : s.put.RefOk newBodyRef i
  declared : s.put.UploadsDeclared
  staged : ∀ m, s.put.metadata = some m → Staged lib newBodyRef i start s m
  unanswered : s.put.live = true → ∀ answer, .answered i answer ∉ s.tier.log
  stored : ∀ etag, .answered i (.stored etag) ∈ s.tier.log → s.put.phase = .finished ∧
    ∃ m object, s.Visible store m object ∧ start.put.Describes lib m object ∧ etag = m.etag

namespace Sound

theorem staged_step (hl : store.Lawful) (hs : Sound store lib newBodyRef i start s)
    (hend : start.put.ReadsToEnd lib input)
    (hstep : s.step store cfg lib newBodyRef i input = some s') {m : CachedObjectMeta}
    (hm : s'.put.metadata = some m) : Staged lib newBodyRef i start s' m := by
  obtain ⟨hput, hcontents⟩ := step_eq hstep
  unfold Staged
  rw [hcontents]
  rcases TieredPut.step_metadata hl hs.refs hput hm with
    ⟨hold, hbodies⟩ | ⟨token, size, up, wantMD5, hphase, rfl, hmd5, hreceive, hbodies⟩
  · rw [contentsAfter_of_metadata hold, show s'.tier.bodies = s.tier.bodies from hbodies]
    exact hs.staged m hold
  · have hreply := (TieredPut.receive_ok hreceive).1
    have hsize := hs.declared token size hphase
    have hread : (s.put.bodyRead lib size up).2 = some .eof := by
      rw [TieredPut.bodyRead_congr hs.request hs.verifier]
      exact hend hreply size (hs.request ▸ hsize)
    refine ⟨_, contentsAfter_upload hphase hmd5 hreply, hbodies ▸ List.mem_cons_self, ?_⟩
    exact (TieredPut.describes_of_receive hsize hmd5 hreceive hread).congr hs.request hs.verifier

theorem unanswered_step (hl : store.Lawful) (hs : Sound store lib newBodyRef i start s)
    (hstep : s.step store cfg lib newBodyRef i input = some s') (hlive : s'.put.live = true)
    (answer : PutAnswer) : .answered i answer ∉ s'.tier.log := by
  have heffect := TieredPut.step_effect hl hs.refs.token_pos (step_eq hstep).1
  have hrouting : s.put.phase = .routing → ∀ a, .answered i a ∉ s.tier.log :=
    fun hphase => hs.unanswered (by rw [TieredPut.live, hphase])
  generalize s'.tier = tier, s'.put = put at heffect hlive ⊢
  cases heffect with
  | refuse | readRefuse | abort | install | discard => cases hlive
  | forward phase => exact hrouting phase answer
  | readForward phase | readProbe phase | readAccept phase =>
    simpa [TieredPut.readToken, Tier.emit] using hrouting phase answer
  | accept phase | stage phase | retry phase | reread phase =>
    exact hs.unanswered (by rw [TieredPut.live, phase]) answer

theorem visible_install (href : newBodyRef i ≠ []) (hs : Sound store lib newBodyRef i start s)
    {m : CachedObjectMeta} {token attempt id : ℕ} (hphase : s.put.phase = .storing m token attempt)
    (hrow : store.row s'.tier.store = some ⟨m, id⟩) (hbodies : s'.tier.bodies = s.tier.bodies)
    (hcontents : s'.contents = s.contents) :
    ∃ object, s'.Visible store m object ∧ start.put.Describes lib m object := by
  have hm : s.put.metadata = some m := by rw [TieredPut.metadata, hphase]
  obtain ⟨object, hbody, hstored, hdescribes⟩ := hs.staged m hm
  have hdiscriminator : m.bodyDiscriminator = newBodyRef i := by
    rw [CachedObjectMeta.bodyDiscriminator, hs.refs.ref m hm, if_neg href]
  have hservable : s'.tier.entryServable m = true := by
    simp [Tier.entryServable, hdiscriminator, href, hbodies, hstored]
  refine ⟨object, ⟨⟨id, hrow⟩, ?_, ?_⟩, hdescribes⟩
  · simp [Tier.reported, hrow, hservable]
  · rw [hcontents, hdiscriminator, hbody]

theorem stored_step (hl : store.Lawful) (href : newBodyRef i ≠ [])
    (hs : Sound store lib newBodyRef i start s)
    (hstep : s.step store cfg lib newBodyRef i input = some s') {etag : Bytes}
    (hanswer : .answered i (.stored etag) ∈ s'.tier.log) :
    s'.put.phase = .finished ∧
      ∃ m object, s'.Visible store m object ∧ start.put.Describes lib m object ∧ etag = m.etag := by
  obtain ⟨hput, hcontents⟩ := step_eq hstep
  have heffect := TieredPut.step_effect hl hs.refs.token_pos hput
  rcases heffect.answered_stored hanswer with
    hold | ⟨m, token, attempt, hphase, hfinished, hrow, hbodies, rfl⟩
  · -- a PUT that was answered with 200 makes no further step
    have hphase := (hs.stored etag hold).1
    simp [TieredPut.step, hphase] at hput
  · have hm : s.put.metadata = some m := by rw [TieredPut.metadata, hphase]
    rw [contentsAfter_of_metadata hm] at hcontents
    obtain ⟨object, hvisible, hdescribes⟩ := hs.visible_install href hphase hrow hbodies hcontents
    exact ⟨hfinished, m, object, hvisible, hdescribes, rfl⟩

theorem step (hl : store.Lawful) (href : newBodyRef i ≠ [])
    (hs : Sound store lib newBodyRef i start s) (hend : start.put.ReadsToEnd lib input)
    (hstep : s.step store cfg lib newBodyRef i input = some s') :
    Sound store lib newBodyRef i start s' := by
  have hput := (step_eq hstep).1
  have heffect := TieredPut.step_effect hl hs.refs.token_pos hput
  constructor
  · rw [heffect.request]
    exact hs.request
  · rw [← hs.verifier]
    generalize s'.tier = tier, s'.put = put at heffect
    cases heffect <;> rfl
  · exact hs.refs.step hl hput
  · exact TieredPut.step_uploadsDeclared hput
  · exact fun m hm => hs.staged_step hl hend hstep hm
  · exact hs.unanswered_step hl hstep
  · exact fun etag hanswer => hs.stored_step hl href hstep hanswer

end Sound

variable (store i) in
/-- The row is the one from before, as long as no commit was answered with 200. -/
structure Kept (start s : EnginePut σ) : Prop where
  running : s.put.phase ≠ .finished → store.row s.tier.store = store.row start.tier.store
  answered : store.row s.tier.store = store.row start.tier.store ∨
    ∀ answer, .answered i answer ∈ s.tier.log → answer.status = 200

theorem Kept.step (hl : store.Lawful) (hs : Sound store lib newBodyRef i start s)
    (hk : Kept store i start s) (hcommit : ¬ s.CommitFails input)
    (hstep : s.step store cfg lib newBodyRef i input = some s') : Kept store i start s' := by
  have hput := (step_eq hstep).1
  have hfinished : s.put.phase ≠ .finished := by
    intro hphase
    simp [TieredPut.step, hphase] at hput
  have hkept : store.row s'.tier.store = store.row s.tier.store → Kept store i start s' := by
    intro hrow
    have hsame := hrow.trans (hk.running hfinished)
    exact ⟨fun _ => hsame, .inl hsame⟩
  by_cases hstoring : ∃ m token attempt, s.put.phase = .storing m token attempt
  · obtain ⟨m, token, attempt, hphase⟩ := hstoring
    have hpos := hs.refs.token_pos token (by rw [TieredPut.token, hphase])
    have hinput : ∀ applied, input ≠ .storeError applied :=
      fun applied heq => hcommit ⟨m, token, attempt, applied, hphase, heq⟩
    rcases TieredPut.step_commit hl hphase hpos hinput hput with
      hrow | ⟨hdone, displaced, version, hlog⟩
    · exact hkept hrow
    · refine ⟨fun hne => absurd hdone hne, .inr ?_⟩
      intro answer hanswer
      have hnone := hs.unanswered (by rw [TieredPut.live, hphase]) answer
      have hstored : answer = .stored m.etag := by
        simpa [show s'.tier.log = _ from hlog, hnone] using hanswer
      rw [hstored, PutAnswer.status]
  · apply hkept
    apply (TieredPut.step_effect hl hs.refs.token_pos hput).row_kept hl
    intro m token attempt hphase
    exact hstoring ⟨m, token, attempt, hphase⟩

theorem sound_start (hstart : start.put.phase = .routing)
    (hnew : ∀ answer, .answered i answer ∉ start.tier.log) :
    Sound store lib newBodyRef i start start := by
  constructor
  · rfl
  · rfl
  · exact .of_none (by rw [TieredPut.token, hstart]) (by rw [TieredPut.metadata, hstart])
  · exact TieredPut.uploadsDeclared_of_phase (by simp [hstart])
  · intro m hm
    rw [TieredPut.metadata, hstart] at hm
    cases hm
  · exact fun _ => hnew
  · exact fun etag hanswer => absurd hanswer (hnew _)

/-- Take any run of a PUT that the engine takes, alone on its key, in which a body that
the store takes without an error was read to its end. If it is answered with 200, reads
find a row under the tag of the answer whose body is the object of the request: decoded,
of the declared size, with the digests that the request names, and with the chain of its
chunks verified. After any other answer the row is the one from before, unless an attempt
to commit ended in an error. -/
theorem engine_put_integrity (hl : store.Lawful) (href : newBodyRef i ≠ [])
    {inputs : List TieredPutInput} (hstart : start.put.phase = .routing)
    (hnew : ∀ answer, .answered i answer ∉ start.tier.log)
    (hend : ∀ input ∈ inputs, start.put.ReadsToEnd lib input)
    (hrun : run (EnginePut.step store cfg lib newBodyRef i) start inputs = some s) :
    (∀ etag, .answered i (.stored etag) ∈ s.tier.log →
      ∃ m object, s.Visible store m object ∧ start.put.Describes lib m object ∧ etag = m.etag) ∧
    ∀ answer, .answered i answer ∈ s.tier.log → answer.status ≠ 200 →
      Along (EnginePut.step store cfg lib newBodyRef i) (fun s input => ¬ s.CommitFails input) start
        inputs →
      store.row s.tier.store = store.row start.tier.store := by
  have hsound : ∀ s input s', Sound store lib newBodyRef i start s →
      start.put.ReadsToEnd lib input → s.step store cfg lib newBodyRef i input = some s' →
      Sound store lib newBodyRef i start s' :=
    fun _ _ _ hs hread hstep => hs.step hl href hread hstep
  constructor
  · intro etag hanswer
    have hs : Sound store lib newBodyRef i start s :=
      run_invariant hsound (sound_start hstart hnew)
        (along_of_forall fun input hmem _ => hend input hmem) hrun
    exact (hs.stored etag hanswer).2
  · intro answer hanswer hstatus hcommits
    have hboth : Sound store lib newBodyRef i start s ∧ Kept store i start s := by
      apply run_invariant _ _ (hcommits.and_forall hend) hrun
      · rintro s input s' ⟨hs, hk⟩ ⟨hread, hcommit⟩ hstep
        exact ⟨hsound s input s' hs hread hstep, hk.step hl hs hcommit hstep⟩
      · exact ⟨sound_start hstart hnew, fun _ => rfl, .inl rfl⟩
    rcases hboth.2.answered with hrow | hstored
    · exact hrow
    · exact absurd (hstored answer hanswer) hstatus

/-- A PUT of sixteen bytes, which are their own digest here, with this `Content-MD5`. -/
def digestedPut (contentMD5 : String) : EnginePut (Cell Row) where
  tier := emptyTier.shared
  put := samplePut "Content-MD5" contentMD5 "0123456789abcdef"
  contents := fun _ => none

def storedInputs : List TieredPutInput := [.route false, .upload wholeUpload, .proceed]

def discardedInputs : List TieredPutInput := [.route false, .upload wholeUpload, .discard true]

theorem engine_put_integrity_digested :
    (∃ s m object, run (EnginePut.step Cell.store sampleTiered engineLib sampleRef 0)
        (digestedPut "0123456789abcdef") storedInputs = some s ∧ s.Visible Cell.store m object ∧
      (digestedPut "0123456789abcdef").put.Describes engineLib m object) ∧
    ∃ s, run (EnginePut.step Cell.store sampleTiered engineLib sampleRef 0)
        (digestedPut "0123456789abcdeg") discardedInputs = some s ∧
      .answered 0 (.refused .badDigest) ∈ s.tier.log ∧
      Cell.store.row s.tier.store = Cell.store.row (digestedPut "0123456789abcdeg").tier.store := by
  have hend : ∀ p : TieredPut, p.request.originlessPutSize = some 16 →
      (p.bodyRead engineLib 16 wholeUpload).2 = some .eof →
      ∀ input ∈ storedInputs ++ discardedInputs, p.ReadsToEnd engineLib input := by
    intro p hsize hread input hmem
    simp only [storedInputs, discardedInputs, List.cons_append, List.nil_append, List.mem_cons,
      List.not_mem_nil, or_false] at hmem
    rcases hmem with rfl | rfl | rfl | rfl | rfl | rfl
    case inr.inl | inr.inr.inr.inr.inl =>
      intro _ size hdeclared
      obtain rfl : 16 = size := Option.some.inj (hsize.symm.trans hdeclared)
      exact hread
    all_goals trivial
  constructor
  · obtain ⟨s, hrun, hanswer⟩ : ∃ s, run (EnginePut.step Cell.store sampleTiered engineLib sampleRef 0)
        (digestedPut "0123456789abcdef") storedInputs = some s ∧
        .answered 0 (.stored (ascii "\"30313233343536373839616263646566\"")) ∈ s.tier.log :=
      exists_run_of_any (by decide +kernel)
    obtain ⟨m, object, hvisible, hdescribes, -⟩ := (engine_put_integrity Cell.store_lawful
      (sampleRef_fresh.nonempty 0) rfl (by simp [digestedPut, emptyTier])
      (fun input hmem => hend _ (by decide +kernel) (by decide +kernel) input (by simp [hmem]))
      hrun).1 _ hanswer
    exact ⟨s, m, object, hrun, hvisible, hdescribes⟩
  · obtain ⟨s, hrun, hanswer⟩ : ∃ s, run (EnginePut.step Cell.store sampleTiered engineLib sampleRef 0)
        (digestedPut "0123456789abcdeg") discardedInputs = some s ∧
        .answered 0 (.refused .badDigest) ∈ s.tier.log :=
      exists_run_of_any (by decide +kernel)
    refine ⟨s, hrun, hanswer, ?_⟩
    apply (engine_put_integrity Cell.store_lawful (sampleRef_fresh.nonempty 0) rfl
      (by simp [digestedPut, emptyTier])
      (fun input hmem => hend _ (by decide +kernel) (by decide +kernel) input (by simp [hmem]))
      hrun).2 _ hanswer (by decide)
    apply along_of_forall
    rintro input hmem s ⟨m, token, attempt, applied, hphase, rfl⟩
    simp [discardedInputs] at hmem

end EnginePut
end TagGateway.Proxy
