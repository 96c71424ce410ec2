import TagGateway.Cache.Coordinator
import TagGateway.Proxy.Admission

/-!
# Populates

A populate is a straight-line program of store and upstream steps, and other
requests run between any two of them. What orders a populate against an
invalidation is where in its program it reads the version token it later
commits under: the full-object and HEAD paths read it before their upstream
request leaves, the range path and the revalidation path read it after the
answer is in.
-/
namespace TagGateway.Proxy

open Foundation Cache

universe u

/-- A version of the object upstream. The number identifies the write that
made it; no client sees it. -/
structure ObjectVersion where
  id : ℕ
  etag : Bytes
deriving DecidableEq

/-- A metadata row, with the version of the object it was built from as a
ghost. -/
structure Row where
  metadata : CachedObjectMeta
  source : ℕ
deriving DecidableEq

inductive Event where
  | sent (populate : ℕ)
  | committed (populate : ℕ) (displaced : Option Row)
  | fenced (mutation : ℕ)
  | acked (mutation : ℕ)
  | lookupStarted (lookup : ℕ)
  | lookedUp (lookup : ℕ) (row : Option Row)
deriving DecidableEq

/-- The name of a stored block: tag, block size and index. -/
abbrev BlockKey := Bytes × ℤ × ℤ

def makeBlockKey (m : CachedObjectMeta) (blockIdx : ℤ) : BlockKey :=
  (etagKeyComponent m.etag, m.blockSize, blockIdx)

/-- The state the requests for one key share: the metadata row's store, the
object upstream, the stored blocks, and the log. -/
structure Shared (σ : Type u) where
  store : σ
  object : Option ObjectVersion
  nextId : ℕ
  blocks : List BlockKey
  log : List Event

namespace Shared

variable {σ : Type u}

def emit (sh : Shared σ) (e : Event) : Shared σ := { sh with log := sh.log ++ [e] }

/-- Upstream answers with a body only for the version it holds, and names
that version's tag. Any other status may come at any time. -/
def answers (sh : Shared σ) (resp : Response) : Bool :=
  if resp.status = 200 ∨ resp.status = 206 then
    sh.object.any fun v => v.etag == resp.header.get (ascii "ETag")
  else true

end Shared

/-- The row a token read may find for the populate to go on. -/
inductive TokenGate where
  | always
  | absent
  | absentOr (staleETag : Bytes)
deriving DecidableEq

def TokenGate.admits (gate : TokenGate) (found : Option Row) : Bool :=
  match gate, found with
  | .always, _ => true
  | .absent, found => found.isNone
  | .absentOr _, none => true
  | .absentOr staleETag, some row => row.metadata.etag == staleETag

/-- The populate paths, each with what its caller fixed. -/
inductive PopulateKind where
  | streamFromUpstream (anonymous : Bool)
  | fetchFullObjectToCache (gate : TokenGate) (anonymous : Bool)
  | cacheTeedBodyFromHead (putETag : Bytes) (bodyLength : ℤ)
  | establishBlockMetaFromHead (writtenETag : Bytes)
  | warmParquetFooterBlocks (writtenETag : Bytes)
  | handleRangeWithBackgroundCache (rangeHeader : Bytes) (anonymous : Bool)
  | handleRevalidation200 (staleETag : Bytes)
deriving DecidableEq

inductive Op where
  | getMetaWithVersion
  | send
  | receive
  | getMeta
  | fetchBlocks
  | deleteIfETagRead
  | deleteIfETagDelete
  | putMeta
deriving DecidableEq

namespace PopulateKind

/-- The steps of each path, in the order of its source. -/
def program : PopulateKind → List Op
  | .streamFromUpstream _ => [.getMetaWithVersion, .send, .receive, .putMeta]
  | .fetchFullObjectToCache _ _ => [.getMetaWithVersion, .send, .receive, .putMeta]
  | .cacheTeedBodyFromHead _ _ => [.getMetaWithVersion, .send, .receive, .putMeta]
  | .establishBlockMetaFromHead _ =>
    [.getMetaWithVersion, .send, .receive, .getMeta, .putMeta]
  | .warmParquetFooterBlocks _ =>
    [.getMetaWithVersion, .send, .receive, .fetchBlocks, .getMeta, .putMeta]
  | .handleRangeWithBackgroundCache _ _ =>
    -- the deferred absence check, then `populateBlockMode` and `finalizeBlockModeMeta`
    [.send, .receive, .getMeta, .getMetaWithVersion, .fetchBlocks, .getMeta, .putMeta]
  | .handleRevalidation200 _ =>
    -- `invalidateStaleMeta`, then `revalidationExpectedVersion`
    [.send, .receive, .deleteIfETagRead, .deleteIfETagDelete, .getMetaWithVersion, .putMeta]

/-- What the row found with the token must be for the path to go on. An
existing row is never rewritten by the footer warmer, which then only fetches
blocks. -/
def gate : PopulateKind → TokenGate
  | .streamFromUpstream _ => .always
  | .fetchFullObjectToCache gate _ => gate
  | .cacheTeedBodyFromHead _ _ => .always
  | .establishBlockMetaFromHead _ => .absent
  | .warmParquetFooterBlocks _ => .absent
  | .handleRangeWithBackgroundCache _ _ => .always
  | .handleRevalidation200 staleETag => .absentOr staleETag

def staleETag : PopulateKind → Bytes
  | .handleRevalidation200 staleETag => staleETag
  | _ => []

/-- The path reads its token before its upstream request leaves. -/
def tokenFirst (kind : PopulateKind) : Bool := kind.program.head? == some .getMetaWithVersion

end PopulateKind

/-- What a path makes of a response: nothing, or it goes on with a row (when
one may be stored) and the blocks to fetch first. -/
inductive Admission where
  | reject
  | accept (row : Option CachedObjectMeta) (blocks : List ℤ)

def Admission.ofMeta : Option CachedObjectMeta → Admission
  | none => .reject
  | some m => .accept (some m) []

def Admission.ofBlocks : Option (CachedObjectMeta × List ℤ) → Admission
  | none => .reject
  | some (m, blocks) => .accept (some m) blocks

theorem Admission.eq_of_ofMeta {o : Option CachedObjectMeta} {m : CachedObjectMeta}
    {blocks : List ℤ} (h : Admission.ofMeta o = .accept (some m) blocks) : o = some m := by
  cases o with
  | none => cases h
  | some m' =>
    cases h
    rfl

theorem Admission.eq_of_ofBlocks {o : Option (CachedObjectMeta × List ℤ)} {m : CachedObjectMeta}
    {blocks : List ℤ} (h : Admission.ofBlocks o = .accept (some m) blocks) :
    o = some (m, blocks) := by
  cases o with
  | none => cases h
  | some m' =>
    cases h
    rfl

def PopulateKind.admission (cfg : Config) (kind : PopulateKind) (resp : Response) : Admission :=
  match kind with
  | .streamFromUpstream anonymous => .ofMeta (admitFullObject cfg anonymous resp)
  | .fetchFullObjectToCache _ anonymous => .ofMeta (admitFullObject cfg anonymous resp)
  | .cacheTeedBodyFromHead putETag bodyLength => .ofMeta (admitTeedBody cfg putETag bodyLength resp)
  | .establishBlockMetaFromHead writtenETag =>
    .ofMeta (admitBlockMetaFromHead cfg writtenETag resp)
  | .warmParquetFooterBlocks writtenETag => .ofBlocks (admitParquetTrailer cfg writtenETag resp)
  | .handleRangeWithBackgroundCache rangeHeader anonymous =>
    .ofBlocks (admitRangeMiss cfg rangeHeader anonymous resp)
  | .handleRevalidation200 _ =>
    -- the stale row is invalidated even when the new version may not be stored
    if resp.status = 200 then .accept (admitRevalidated cfg resp) [] else .reject

/-- A running populate: the steps still to take and what it holds. -/
structure Populate where
  kind : PopulateKind
  rest : List Op
  token : Option ℕ := none
  row : Option Row := none
  blocks : List ℤ := []
  staleVersion : Option ℕ := none

inductive PopulateInput where
  | proceed
  | storeError
  | response (resp : Response)
  | blockPresent (blockIdx : ℤ)
  | blockFetched (blockIdx : ℤ) (resp : Response)
  | abandon

namespace Populate

def start (kind : PopulateKind) : Populate := { kind := kind, rest := kind.program }

def stop (p : Populate) : Populate := { p with rest := [] }

def receive (cfg : Config) (object : Option ObjectVersion) (resp : Response) (rest : List Op)
    (p : Populate) : Populate :=
  match p.kind.admission cfg resp with
  | .reject => p.stop
  | .accept m blocks =>
    { p with
      rest := rest
      row := m.bind fun m => object.map fun v => ⟨m, v.id⟩
      blocks := blocks }

variable {σ : Type u} (store : VersionedStore σ Row) (cfg : Config)

/-- Read the token; a row the path does not go on with ends it. -/
def readToken (sh : Shared σ) (rest : List Op) (p : Populate) : Shared σ × Populate :=
  let (s, found, version) := CasCoordinator.getMetaWithVersion store sh.store
  ({ sh with store := s },
    if p.kind.gate.admits found then { p with rest := rest, token := some version } else p.stop)

def commit (i : ℕ) (sh : Shared σ) (p : Populate) : Shared σ × Populate :=
  match p.token, p.row with
  | some token, some row =>
    let displaced := store.row sh.store
    match CasCoordinator.putMeta store sh.store row (.version token) with
    | (s, true) => (({ sh with store := s } : Shared σ).emit (.committed i displaced), p.stop)
    | (s, false) => ({ sh with store := s }, p.stop)
  | _, _ => (sh, p.stop)

def step (i : ℕ) (sh : Shared σ) (p : Populate) (input : PopulateInput) :
    Option (Shared σ × Populate) :=
  match p.rest, input with
  | [], _ => none
  | _ :: _, .abandon => some (sh, p.stop)
  | .getMetaWithVersion :: rest, .proceed => some (readToken store sh rest p)
  | .getMetaWithVersion :: _, .storeError => some (sh, p.stop)
  | .send :: rest, .proceed => some (sh.emit (.sent i), { p with rest := rest })
  | .receive :: rest, .response resp =>
    if sh.answers resp then some (sh, p.receive cfg sh.object resp rest) else none
  | .getMeta :: rest, .proceed =>
    some (sh, if (store.row sh.store).isSome then p.stop else { p with rest := rest })
  | .getMeta :: rest, .storeError => some (sh, { p with rest := rest })
  | .fetchBlocks :: _, .blockPresent blockIdx =>
    -- a block already stored is not fetched again, so nothing is asked of upstream
    match p.row with
    | some row =>
      if blockIdx ∈ p.blocks ∧ makeBlockKey row.metadata blockIdx ∈ sh.blocks then
        some (sh, { p with blocks := p.blocks.erase blockIdx })
      else none
    | none => none
  | .fetchBlocks :: _, .blockFetched blockIdx resp =>
    match p.row with
    | some row =>
      if blockIdx ∈ p.blocks ∧ sh.answers resp then
        if acceptsBlock row.metadata blockIdx resp then
          some ({ sh with blocks := makeBlockKey row.metadata blockIdx :: sh.blocks },
            { p with blocks := p.blocks.erase blockIdx })
        else some (sh, p.stop)
      else none
    | none => none
  | .fetchBlocks :: rest, .proceed => if p.blocks = [] then some (sh, { p with rest := rest }) else none
  | .deleteIfETagRead :: rest, .proceed =>
    let (s, version) :=
      CasCoordinator.deleteMetaIfETagRead store (·.metadata.etag) p.kind.staleETag sh.store
    some ({ sh with store := s }, { p with rest := rest, staleVersion := version })
  | .deleteIfETagRead :: rest, .storeError => some (sh, { p with rest := rest })
  | .deleteIfETagDelete :: rest, .proceed =>
    match p.staleVersion with
    | some version =>
      some ({ sh with store := (CasCoordinator.deleteMetaIfVersion store sh.store version).1 },
        { p with rest := rest })
    | none => some (sh, { p with rest := rest })
  | .deleteIfETagDelete :: rest, .storeError => some (sh, { p with rest := rest })
  | .putMeta :: _, .proceed => some (commit store i sh p)
  | .putMeta :: _, .storeError => some (sh, p.stop)
  | _ :: _, _ => none

end Populate
end TagGateway.Proxy
