import TagGateway.Foundation.Machine
import TagGateway.Proxy.LocalStore
import TagGateway.Proxy.Mutation

/-!
# The requests and workers of a key in tiered mode

A mutation that goes upstream reads the row and its version first, and touches the
row only under that version once upstream confirmed the change. A GET of a marker
whose object is small starts a worker that moves the body into the local tier, and
a multipart completion starts one that completes its marker; both commit under the
version of the row they looked at. A mutation keeps such movers away from the key
while it runs, but only those of its own node.
-/
namespace TagGateway.Proxy

open Foundation Cache

universe u

namespace Tier

variable {σ : Type u} (sh : Tier σ)

/-- Upstream answers with a body only for the version it holds, and says that there
is none only when it holds none. Any other status may come at any time. -/
def answers (resp : Response) : Bool :=
  if resp.status = 200 then sh.object.any fun v => v.etag == resp.header.get (ascii "ETag")
  else if resp.status = 404 then sh.object.isNone
  else true

def sourceId : ℕ := (sh.object.map ObjectVersion.id).getD 0

end Tier

/-! ## Forwarded mutations -/

inductive ForwardedKind where
  | putObject (request : PutRequest)
  | completeMultipartUpload (credentials : Bool)
  | deleteObject
  | copyObject
deriving DecidableEq

def ForwardedKind.mutation : ForwardedKind → MutationKind
  | .putObject _ => .putObject
  | .completeMultipartUpload _ => .completeMultipartUpload
  | .deleteObject => .deleteObject
  | .copyObject => .copyObject

/-- The mutation leaves no row behind. A copy lives upstream and reads as a miss. -/
def ForwardedKind.clears : ForwardedKind → Bool
  | .deleteObject | .copyObject => true
  | .putObject _ | .completeMultipartUpload _ => false

/-- Where a forwarded mutation stands. An abandoned one got no answer: its handler
is done, but upstream may still apply the request. -/
inductive ForwardedPhase where
  | capturing
  | forwarding
  | abandoned
  | marking (row : Row)
  | sweeping
  | converging (retried : Bool)
  | finished
deriving DecidableEq

/-- A running mutation. `prior` is the row it displaces, with its version, once it
is known; `applied` is set once upstream made the change, to the number of the
version it made. -/
structure Forwarded where
  node : ℕ
  kind : ForwardedKind
  phase : ForwardedPhase := .capturing
  prior : Option (Option Row × ℕ) := none
  applied : Option ℕ := none
  etag : Bytes := []
  confirmed : Bool := false
deriving DecidableEq

inductive ForwardedInput where
  | proceed
  | storeError (applied : Bool)
  | apply (etag : Bytes)
  | respond (status : ℕ) (etag : Bytes) (errorBody : Bool) (now : ℤ)
  | lose
deriving DecidableEq

namespace Forwarded

variable {σ : Type u} (store : VersionedStore σ Row) (cfg : TieredConfig) (lib : EngineLib)

/-- Only a request that writes the object itself owns its row. -/
def ownsRow (m : Forwarded) : Bool :=
  cfg.cacheEnabled &&
    match m.kind with
    | .putObject r => originlessPlainObject lib r.request
    | .completeMultipartUpload _ | .deleteObject | .copyObject => true

def captureMarkerPrior (j : ℕ) (sh : Tier σ) (m : Forwarded) : Tier σ × Forwarded :=
  let (sh, row, version) := sh.getMetaWithVersion store
  (sh.emit (.captured j), { m with phase := .forwarding, prior := some (row, version) })

def applyUpstream (sh : Tier σ) (etag : Bytes) (m : Forwarded) : Tier σ × Forwarded :=
  ({ sh with
      object := if m.kind.mutation.removes then none else some ⟨sh.nextId, etag⟩
      nextId := sh.nextId + 1 },
    { m with applied := some sh.nextId })

/-- The row that stands for an object whose body is upstream. A completion knows the
tag alone. -/
def upstreamMarker (etag : Bytes) (now : ℤ) : ForwardedKind → CachedObjectMeta
  | .putObject r =>
    { metaFromHTTPHeaders cfg.parseTime cfg.bucket cfg.key 200 r.header now with
      etag := etag
      bodyUpstream := true
      lastModified := now
      contentLength := r.originlessPutSize.getD (-1)
      contentEncoding := r.storedEncoding }
  | .completeMultipartUpload _ | .deleteObject | .copyObject =>
    { key := cfg.key, bucket := cfg.bucket, etag := etag, bodyUpstream := true, statusCode := 200
      cachedAt := now, lastModified := now, contentLength := -1 }

/-- Without a displaced row there is nothing to remove. -/
def invalidateDisplacedTieredMeta (m : Forwarded) : Forwarded :=
  match m.prior with
  | some (some _, _) => { m with phase := .sweeping }
  | some (none, _) | none => { m with phase := .finished }

/-- What follows a confirmed change. With an unknown prior nothing does. -/
def confirm (etag : Bytes) (now : ℤ) (m : Forwarded) : Forwarded :=
  let m := { m with etag := etag, confirmed := true }
  if m.ownsRow cfg lib = false ∨ m.prior = none then { m with phase := .finished }
  else if m.kind.clears then { m with phase := .converging false }
  else if etag = [] then m.invalidateDisplacedTieredMeta
  else { m with phase := .marking ⟨upstreamMarker cfg etag now m.kind, m.applied.getD 0⟩ }

def priorVersion (m : Forwarded) : ℕ := (m.prior.map Prod.snd).getD 0

/-- One attempt to make the marker visible. -/
def commitUpstreamMarker (j : ℕ) (sh : Tier σ) (row : Row) (m : Forwarded) : Tier σ × Forwarded :=
  match sh.putMetaIfVersion store row m.priorVersion with
  | (sh, true) => (sh.emit (.marked j), { m with phase := .finished })
  | (sh, false) => (sh, m.invalidateDisplacedTieredMeta)

def returned (m : Forwarded) : Bool := m.phase == .finished || m.phase == .abandoned

def step (j : ℕ) (sh : Tier σ) (m : Forwarded) (input : ForwardedInput) :
    Option (Tier σ × Forwarded) :=
  match m.phase, input with
  | .capturing, .proceed =>
    if m.ownsRow cfg lib then some (m.captureMarkerPrior store j sh)
    else some (sh, { m with phase := .forwarding })
  | .capturing, .storeError _ => some (sh, { m with phase := .forwarding })
  | .forwarding, .apply etag => if m.applied = none then some (m.applyUpstream sh etag) else none
  | .abandoned, .apply etag => if m.applied = none then some (m.applyUpstream sh etag) else none
  | .forwarding, .respond status etag errorBody now =>
    if m.kind.mutation.confirmed status errorBody then
      -- upstream reports a success once it has applied the change
      if m.applied = none then none else some (sh.emit (.acked j), m.confirm cfg lib etag now)
    else some (sh, { m with phase := .finished })
  | .forwarding, .lose => some (sh, { m with phase := .abandoned })
  | .abandoned, .lose => some (sh, { m with phase := .finished })
  | .marking row, .proceed => some (m.commitUpstreamMarker store j sh row)
  | .marking row, .storeError applied =>
    some (if applied then (sh.putMetaIfVersion store row m.priorVersion).1 else sh,
      m.invalidateDisplacedTieredMeta)
  | .sweeping, .proceed =>
    some ((sh.deleteMetaIfVersion store m.priorVersion).1, { m with phase := .finished })
  | .sweeping, .storeError applied =>
    some (if applied then (sh.deleteMetaIfVersion store m.priorVersion).1 else sh,
      { m with phase := .finished })
  | .converging _, .proceed =>
    some ((sh.deleteMetaIfVersion store m.priorVersion).1, { m with phase := .finished })
  | .converging retried, .storeError applied =>
    some (if applied then (sh.deleteMetaIfVersion store m.priorVersion).1 else sh,
      { m with phase := if retried then .finished else .converging true })
  | _, _ => none

end Forwarded

/-! ## Re-tiering -/

/-- Where a re-tier stands; `seen` is the GET that has read the marker. -/
inductive RetierPhase where
  | seen
  | verifying
  | fetching
  | storing (row : Row) (body : Source UInt8)
  | rereading (row : Row)
  | checking (row : Row)
  | committing (row : Row)
  | removing
  | rewriting (row : Row)
  | discarding
  | finished
deriving DecidableEq

/-- A re-tier of the marker a GET read at this version. -/
structure Retier where
  node : ℕ
  marker : Row
  version : ℕ
  canceled : Bool := false
  phase : RetierPhase := .seen
deriving DecidableEq

inductive RetierInput where
  | proceed
  | storeError (applied : Bool)
  /-- `drained` says that the body can be read to its end. -/
  | response (resp : Response) (drained : Bool)
  /-- The reads of the body, and the store's answer. -/
  | stream (calls : List (ℕ × Reply)) (reply : BodyReply)
  | discard (deleted : Bool)
  | abandon
deriving DecidableEq

namespace Retier

variable {σ : Type u} (store : VersionedStore σ Row) (cfg : TieredConfig)
  (newBodyRef : ℕ → Bytes)

def fits (m : CachedObjectMeta) : Bool :=
  m.bodyUpstream && decide (0 ≤ m.contentLength ∧ m.contentLength ≤ cfg.sizeThreshold)

/-- The row is still the marker, at the version the GET read it. -/
def unchanged (w : Retier) (row : Option Row) (version : ℕ) : Bool :=
  version == w.version && row.any fun cur => cur.metadata.bodyUpstream &&
    cur.metadata.etag == w.marker.metadata.etag &&
    cur.metadata.contentLength == w.marker.metadata.contentLength

/-- The row is still a marker of the same tag. -/
def identified (w : Retier) (row : Option Row) : Bool :=
  row.any fun cur => cur.metadata.etag == w.marker.metadata.etag && cur.metadata.bodyUpstream

/-- What the answer to the fetch leads to: a changed or missing object is a reason to
correct the marker, a transient status is none to do anything. -/
def receive (sh : Tier σ) (resp : Response) (drained : Bool) (w : Retier) : Retier :=
  let m := responseMeta cfg.toConfig 200 resp.header resp.receivedAt
  if resp.status = 200 ∧ resp.header.get (ascii "ETag") = w.marker.metadata.etag then
    let body : Source UInt8 := ⟨resp.body, if drained then .eof else .unexpectedEOF⟩
    { w with phase := .storing ⟨m, sh.sourceId⟩ body }
  else if resp.status = 404 then { w with phase := .removing }
  else if resp.status = 200 then
    let length := if m.contentLength < 0 ∧ drained then (resp.body.length : ℤ)
      else m.contentLength
    let fresh := { m with bodyUpstream := true, contentLength := length }
    { w with phase := .rewriting ⟨fresh, sh.sourceId⟩ }
  else { w with phase := .finished }

/-- What is read of a body: a byte more than the marker's length, if there is one. -/
def readBody (body : Source UInt8) (calls : List (ℕ × Reply)) (w : Retier) :
    Bytes × Option ReadError :=
  body.readLimited (w.marker.metadata.contentLength + 1).toNat calls

/-- The body under its own reference. Its length must be the marker's. -/
def stream (r : ℕ) (sh : Tier σ) (row : Row) (body : Source UInt8) (calls : List (ℕ × Reply))
    (reply : BodyReply) (w : Retier) : Tier σ × Retier :=
  let n := (w.readBody body calls).1.length
  let metadata := { row.metadata with bodyRef := newBodyRef r, contentLength := n }
  if reply = .stored then
    ({ sh with bodies := etagKeyComponent (newBodyRef r) :: sh.bodies },
      if (n : ℤ) = w.marker.metadata.contentLength then
        { w with phase := .rereading ⟨metadata, row.source⟩ }
      else { w with phase := .discarding })
  else (sh, { w with phase := .discarding })

def step (r : ℕ) (sh : Tier σ) (w : Retier) (input : RetierInput) : Option (Tier σ × Retier) :=
  match w.phase, input with
  | .verifying, .proceed =>
    let (sh, row, version) := sh.getMetaWithVersion store
    some (sh, { w with phase := if w.unchanged row version then .fetching else .finished })
  | .fetching, .response resp drained =>
    if sh.answers resp then some (sh, w.receive cfg sh resp drained) else none
  | .storing row body, .stream calls reply => some (w.stream newBodyRef r sh row body calls reply)
  | .rereading row, .proceed =>
    let (sh, cur, _) := sh.getMetaWithVersion store
    some (sh, { w with phase := if w.identified cur then .checking row else .discarding })
  | .checking row, .proceed =>
    some (sh, { w with phase := if w.canceled then .discarding else .committing row })
  | .committing row, .proceed =>
    let (sh, wrote) := sh.putMetaIfVersion store row w.version
    some (sh, { w with phase := if wrote then .finished else .discarding })
  | .committing row, .storeError applied =>
    -- the commit may have been applied, so the body stays
    some (if applied then (sh.putMetaIfVersion store row w.version).1 else sh,
      { w with phase := .finished })
  | .removing, .proceed =>
    some ((sh.deleteMetaIfVersion store w.version).1, { w with phase := .finished })
  | .removing, .storeError applied =>
    some (if applied then (sh.deleteMetaIfVersion store w.version).1 else sh,
      { w with phase := .finished })
  | .rewriting row, .proceed =>
    some ((sh.putMetaIfVersion store row w.version).1, { w with phase := .finished })
  | .rewriting row, .storeError applied =>
    some (if applied then (sh.putMetaIfVersion store row w.version).1 else sh,
      { w with phase := .finished })
  | .discarding, .discard deleted =>
    some (if deleted then
        { sh with bodies := sh.bodies.filter (· ≠ etagKeyComponent (newBodyRef r)) }
      else sh, { w with phase := .finished })
  | .verifying, .storeError _ | .verifying, .abandon | .fetching, .abandon =>
    some (sh, { w with phase := .finished })
  | .rereading _, .storeError _ => some (sh, { w with phase := .discarding })
  | _, _ => none

end Retier

/-! ## Completing a marker -/

inductive UpgradePhase where
  | heading
  | reading (full : Row)
  | committing (full replaced : Row) (version : ℕ)
  | finished
deriving DecidableEq

structure MarkerUpgrade where
  etag : Bytes
  phase : UpgradePhase := .heading
deriving DecidableEq

inductive UpgradeInput where
  | proceed
  | storeError (applied : Bool)
  | response (resp : Response)
  | abandon
deriving DecidableEq

namespace MarkerUpgrade

variable {σ : Type u} (store : VersionedStore σ Row) (cfg : TieredConfig)

def headObjectMeta (resp : Response) (expectETag : Bytes) : Option CachedObjectMeta :=
  if resp.status = 200 ∧ resp.header.get (ascii "ETag") = expectETag then
    some (responseMeta cfg.toConfig 200 resp.header resp.receivedAt)
  else none

/-- The row is a marker with this tag and no length. -/
def upgradable (u : MarkerUpgrade) (cur : Row) : Bool :=
  cur.metadata.bodyUpstream && cur.metadata.etag == u.etag &&
    decide (cur.metadata.contentLength < 0)

def completed (full cur : Row) : Row :=
  ⟨{ full.metadata with
      bodyUpstream := true
      lastModified := if full.metadata.lastModified = 0 then cur.metadata.lastModified
        else full.metadata.lastModified },
    full.source⟩

def step (sh : Tier σ) (u : MarkerUpgrade) (input : UpgradeInput) :
    Option (Tier σ × MarkerUpgrade) :=
  match u.phase, input with
  | .heading, .response resp =>
    if sh.answers resp then
      some (sh, { u with phase :=
        match headObjectMeta cfg resp u.etag with
        | some full => .reading ⟨full, sh.sourceId⟩
        | none => .finished })
    else none
  | .reading full, .proceed =>
    let (sh, row, version) := sh.getMetaWithVersion store
    some (sh, { u with phase :=
      match row with
      | some cur => if u.upgradable cur then .committing (completed full cur) cur version
          else .finished
      | none => .finished })
  | .committing full _ version, .proceed =>
    some ((sh.putMetaIfVersion store full version).1, { u with phase := .finished })
  | .committing full _ version, .storeError applied =>
    some (if applied then (sh.putMetaIfVersion store full version).1 else sh,
      { u with phase := .finished })
  | .heading, .abandon | .reading _, .abandon | .reading _, .storeError _ =>
    some (sh, { u with phase := .finished })
  | _, _ => none

end MarkerUpgrade

/-! ## All of them, interleaved -/

/-- Everything that runs for one key, on every node. `claims` counts the mutations
that hold the key on a node, `inflight` is the re-tier registered there. -/
structure TieredWorld (σ : Type u) where
  shared : Tier σ
  puts : ℕ → Option TieredPut := fun _ => none
  deletes : ℕ → Option (ℕ × EngineDelete) := fun _ => none
  mutations : ℕ → Option Forwarded := fun _ => none
  retiers : ℕ → Option Retier := fun _ => none
  upgrades : ℕ → Option MarkerUpgrade := fun _ => none
  claims : ℕ → ℕ := fun _ => 0
  inflight : ℕ → Option ℕ := fun _ => none

inductive TieredLabel where
  | startPut (i : ℕ) (p : TieredPut)
  | put (i : ℕ) (input : TieredPutInput)
  /-- A PUT that was routed upstream goes on as a forwarded mutation. -/
  | forwardPut (i : ℕ)
  /-- `validated` says that the local check passed and that the request is plain. -/
  | startDelete (d node : ℕ) (validated : Bool)
  | delete (d : ℕ) (input : DeleteInput)
  | startMutation (j node : ℕ) (kind : ForwardedKind)
  | mutation (j : ℕ) (input : ForwardedInput)
  | readMarker (r node : ℕ)
  | registerRetier (r : ℕ)
  | retier (r : ℕ) (input : RetierInput)
  | startUpgrade (u j : ℕ)
  | upgrade (u : ℕ) (input : UpgradeInput)
deriving DecidableEq

namespace TieredWorld

variable {σ : Type u} (store : VersionedStore σ Row) (cfg : TieredConfig) (lib : EngineLib)
  (newBodyRef : ℕ → Bytes)

/-- Hold the key on a node: the re-tier that runs there is cancelled, and none can
register. -/
def claimRetierWrite (node : ℕ) (w : TieredWorld σ) : TieredWorld σ :=
  { w with
    claims := Function.update w.claims node (w.claims node + 1)
    retiers := match w.inflight node with
      | none => w.retiers
      | some r => Function.update w.retiers r
          ((w.retiers r).map fun wk => { wk with canceled := true }) }

def releaseRetierWrite (done : Bool) (node : ℕ) (w : TieredWorld σ) : TieredWorld σ :=
  if done then { w with claims := Function.update w.claims node (w.claims node - 1) } else w

def unregisterRetier (r : ℕ) (wk : Retier) (w : TieredWorld σ) : TieredWorld σ :=
  if wk.phase = .finished ∧ w.inflight wk.node = some r then
    { w with inflight := Function.update w.inflight wk.node none }
  else w

section Unchanged

variable (w : TieredWorld σ) (node : ℕ) (done : Bool)

@[simp] theorem releaseRetierWrite_shared : (releaseRetierWrite done node w).shared = w.shared := by
  cases done <;> rfl

@[simp] theorem releaseRetierWrite_puts : (releaseRetierWrite done node w).puts = w.puts := by
  cases done <;> rfl

@[simp] theorem unregisterRetier_shared (r : ℕ) (wk : Retier) :
    (unregisterRetier r wk w).shared = w.shared := by
  unfold unregisterRetier
  split_ifs <;> rfl

end Unchanged

/-- One step. Every process has its own index, used once; a PUT and a re-tier, which
both name a body by theirs, do not share it. -/
def step (w : TieredWorld σ) : TieredLabel → Option (TieredWorld σ)
  | .startPut i p =>
    if w.puts i = none ∧ w.retiers i = none ∧ p.phase = .routing then
      some { w.claimRetierWrite p.node with puts := Function.update w.puts i (some p) }
    else none
  | .put i input =>
    (w.puts i).bind fun p => (p.step store cfg lib newBodyRef i w.shared input).map fun r =>
      releaseRetierWrite (r.2.phase == .finished) p.node
        { w with shared := r.1, puts := Function.update w.puts i (some r.2) }
  | .forwardPut i =>
    (w.puts i).bind fun p =>
      if p.phase = .forwarded ∧ w.mutations i = none then
        let m : Forwarded := { node := p.node, kind := .putObject p.request }
        some { w with mutations := Function.update w.mutations i (some m) }
      else none
  | .startDelete d node validated =>
    if w.deletes d = none ∧ w.mutations d = none then
      let w' := w.claimRetierWrite node
      if validated && (store.row w.shared.store).any fun row => !row.metadata.bodyUpstream then
        some { w' with deletes := Function.update w.deletes d (some (node, .deleting .start)) }
      else
        let m : Forwarded := { node := node, kind := .deleteObject }
        some { w' with mutations := Function.update w.mutations d (some m) }
    else none
  | .delete d input =>
    (w.deletes d).bind fun p => (p.2.step store d w.shared input).map fun r =>
      releaseRetierWrite (r.2 matches .finished _) p.1
        { w with shared := r.1, deletes := Function.update w.deletes d (some (p.1, r.2)) }
  | .startMutation j node kind =>
    if w.mutations j = none ∧ w.deletes j = none then
      some { w.claimRetierWrite node with
        mutations := Function.update w.mutations j (some { node := node, kind := kind }) }
    else none
  | .mutation j input =>
    (w.mutations j).bind fun m => (m.step store cfg lib j w.shared input).map fun r =>
      releaseRetierWrite (r.2.returned && !m.returned) m.node
        { w with shared := r.1, mutations := Function.update w.mutations j (some r.2) }
  | .readMarker r node =>
    let (sh, row, version) := w.shared.getMetaWithVersion store
    match w.retiers r, row with
    | none, some row =>
      if w.puts r = none ∧ Retier.fits cfg row.metadata then
        some { w with
          shared := sh
          retiers := Function.update w.retiers r
            (some { node := node, marker := row, version := version }) }
      else none
    | _, _ => none
  | .registerRetier r =>
    (w.retiers r).bind fun wk =>
      if wk.phase = .seen then
        if w.claims wk.node = 0 ∧ w.inflight wk.node = none then
          some { w with
            retiers := Function.update w.retiers r (some { wk with phase := .verifying })
            inflight := Function.update w.inflight wk.node (some r) }
        else some { w with
          retiers := Function.update w.retiers r (some { wk with phase := .finished }) }
      else none
  | .retier r input =>
    (w.retiers r).bind fun wk => (wk.step store cfg newBodyRef r w.shared input).map fun x =>
      unregisterRetier r x.2
        { w with shared := x.1, retiers := Function.update w.retiers r (some x.2) }
  | .startUpgrade u j =>
    match w.upgrades u, w.mutations j with
    | none, some m =>
      if m.kind = .completeMultipartUpload true ∧ m.phase = .finished ∧ m.confirmed = true ∧
          m.etag ≠ [] then
        some { w with upgrades := Function.update w.upgrades u (some { etag := m.etag }) }
      else none
    | _, _ => none
  | .upgrade u input =>
    (w.upgrades u).bind fun up => (up.step store cfg w.shared input).map fun x =>
      { w with shared := x.1, upgrades := Function.update w.upgrades u (some x.2) }

inductive Stepped (w : TieredWorld σ) : TieredLabel → TieredWorld σ → Prop
  | startPut {i : ℕ} {p : TieredPut} (unused : w.puts i = none) (free : w.retiers i = none)
      (routing : p.phase = .routing) : Stepped w (.startPut i p)
        { w.claimRetierWrite p.node with puts := Function.update w.puts i (some p) }
  | put {i : ℕ} {input : TieredPutInput} {p : TieredPut} {x : Tier σ × TieredPut}
      (found : w.puts i = some p)
      (step : p.step store cfg lib newBodyRef i w.shared input = some x) :
      Stepped w (.put i input) (releaseRetierWrite (x.2.phase == .finished) p.node
        { w with shared := x.1, puts := Function.update w.puts i (some x.2) })
  | forwardPut {i : ℕ} {p : TieredPut} (found : w.puts i = some p)
      (forwarded : p.phase = .forwarded) (unused : w.mutations i = none) :
      Stepped w (.forwardPut i) { w with
        mutations := Function.update w.mutations i
          (some { node := p.node, kind := .putObject p.request }) }
  | deleteHere {d node : ℕ} {validated : Bool} : Stepped w (.startDelete d node validated)
      { w.claimRetierWrite node with
        deletes := Function.update w.deletes d (some (node, .deleting .start)) }
  | deleteUpstream {d node : ℕ} {validated : Bool} : Stepped w (.startDelete d node validated)
      { w.claimRetierWrite node with
        mutations := Function.update w.mutations d (some { node := node, kind := .deleteObject }) }
  | delete {d : ℕ} {input : DeleteInput} {p : ℕ × EngineDelete} {x : Tier σ × EngineDelete}
      (found : w.deletes d = some p) (step : p.2.step store d w.shared input = some x) :
      Stepped w (.delete d input) (releaseRetierWrite (x.2 matches .finished _) p.1
        { w with shared := x.1, deletes := Function.update w.deletes d (some (p.1, x.2)) })
  | startMutation {j node : ℕ} {kind : ForwardedKind} : Stepped w (.startMutation j node kind)
      { w.claimRetierWrite node with
        mutations := Function.update w.mutations j (some { node := node, kind := kind }) }
  | mutation {j : ℕ} {input : ForwardedInput} {m : Forwarded} {x : Tier σ × Forwarded}
      (found : w.mutations j = some m) (step : m.step store cfg lib j w.shared input = some x) :
      Stepped w (.mutation j input) (releaseRetierWrite (x.2.returned && !m.returned) m.node
        { w with shared := x.1, mutations := Function.update w.mutations j (some x.2) })
  | readMarker {r node version : ℕ} {sh : Tier σ} {row : Row}
      (read : w.shared.getMetaWithVersion store = (sh, some row, version))
      (unused : w.retiers r = none) (free : w.puts r = none)
      (fits : Retier.fits cfg row.metadata = true) : Stepped w (.readMarker r node)
        { w with
          shared := sh
          retiers := Function.update w.retiers r
            (some { node := node, marker := row, version := version }) }
  | registered {r : ℕ} {wk : Retier} (found : w.retiers r = some wk) (seen : wk.phase = .seen)
      (unclaimed : w.claims wk.node = 0) (free : w.inflight wk.node = none) :
      Stepped w (.registerRetier r) { w with
        retiers := Function.update w.retiers r (some { wk with phase := .verifying })
        inflight := Function.update w.inflight wk.node (some r) }
  | unregistered {r : ℕ} {wk : Retier} (found : w.retiers r = some wk) (seen : wk.phase = .seen) :
      Stepped w (.registerRetier r) { w with
        retiers := Function.update w.retiers r (some { wk with phase := .finished }) }
  | retier {r : ℕ} {input : RetierInput} {wk : Retier} {x : Tier σ × Retier}
      (found : w.retiers r = some wk)
      (step : wk.step store cfg newBodyRef r w.shared input = some x) :
      Stepped w (.retier r input) (unregisterRetier r x.2
        { w with shared := x.1, retiers := Function.update w.retiers r (some x.2) })
  | startUpgrade {u j : ℕ} {etag : Bytes} : Stepped w (.startUpgrade u j)
      { w with upgrades := Function.update w.upgrades u (some { etag := etag }) }
  | upgrade {u : ℕ} {input : UpgradeInput} {up : MarkerUpgrade} {x : Tier σ × MarkerUpgrade}
      (found : w.upgrades u = some up) (step : up.step store cfg w.shared input = some x) :
      Stepped w (.upgrade u input)
        { w with shared := x.1, upgrades := Function.update w.upgrades u (some x.2) }

variable {store cfg lib newBodyRef}

theorem stepped {w w' : TieredWorld σ} {l : TieredLabel}
    (hstep : w.step store cfg lib newBodyRef l = some w') :
    Stepped store cfg lib newBodyRef w l w' := by
  unfold step at hstep
  split at hstep
  case h_1 =>
    simp only [Option.ite_none_right_eq_some, Option.some.injEq] at hstep
    obtain ⟨⟨hunused, hfree, hrouting⟩, rfl⟩ := hstep
    exact .startPut hunused hfree hrouting
  case h_3 =>
    simp only [Option.bind_eq_some_iff, Option.ite_none_right_eq_some, Option.some.injEq] at hstep
    obtain ⟨p, hp, ⟨hforwarded, hunused⟩, rfl⟩ := hstep
    exact .forwardPut hp hforwarded hunused
  case h_4 =>
    simp only [Option.ite_none_right_eq_some] at hstep
    obtain ⟨-, hstep⟩ := hstep
    split_ifs at hstep
    · obtain rfl := Option.some.inj hstep
      exact .deleteHere
    · obtain rfl := Option.some.inj hstep
      exact .deleteUpstream
  case h_6 =>
    simp only [Option.ite_none_right_eq_some, Option.some.injEq] at hstep
    obtain ⟨-, rfl⟩ := hstep
    exact .startMutation
  case h_8 =>
    generalize hread : w.shared.getMetaWithVersion store = reply at hstep
    obtain ⟨sh, row, version⟩ := reply
    dsimp only at hstep
    split at hstep
    next row hunused =>
      simp only [Option.ite_none_right_eq_some, Option.some.injEq] at hstep
      obtain ⟨⟨hfree, hfits⟩, rfl⟩ := hstep
      exact .readMarker hread hunused hfree hfits
    next => cases hstep
  case h_9 =>
    simp only [Option.bind_eq_some_iff, Option.ite_none_right_eq_some] at hstep
    obtain ⟨wk, hwk, hseen, hstep⟩ := hstep
    split_ifs at hstep with hplace
    · obtain rfl := Option.some.inj hstep
      exact .registered hwk hseen hplace.1 hplace.2
    · obtain rfl := Option.some.inj hstep
      exact .unregistered hwk hseen
  case h_11 =>
    split at hstep
    next =>
      simp only [Option.ite_none_right_eq_some, Option.some.injEq] at hstep
      obtain ⟨-, rfl⟩ := hstep
      exact .startUpgrade
    next => cases hstep
  -- a process that is there takes a step of its own
  all_goals
    simp only [Option.bind_eq_some_iff, Option.map_eq_some_iff] at hstep
    obtain ⟨p, hp, x, hx, rfl⟩ := hstep
    constructor
    · exact hp
    · exact hx

end TieredWorld
end TagGateway.Proxy
