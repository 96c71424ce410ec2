import TagGateway.Proxy.StreamPut

/-!
# Fills outside the broadcast

A warm reads upstream's body into the store directly, through a reader that ends
with the write's context. A revalidation that found a new version sends the body
to the client and, through a pipe, to the store. In both, the error that ends the
reading reaches the store as it is.
-/
namespace TagGateway.Proxy

open Foundation Cache

/-- Upstream's body, and where and how reading it stops early, if it does. -/
structure UpstreamBody where
  full : Bytes
  stop : Option (ℕ × ReadError) := none
deriving DecidableEq

def UpstreamBody.source (body : UpstreamBody) : Source UInt8 :=
  match body.stop with
  | none => ⟨body.full, .eof⟩
  | some (n, e) => ⟨body.full.take n, e⟩

/-- A reader that ends with its context, after so many bytes if it does. -/
def contextBoundReader (expiredAfter : Option ℕ) (src : Source UInt8) : Source UInt8 :=
  match expiredAfter with
  | none => src
  | some n => ⟨src.rest.take n, .failure 0⟩

/-- What a warm meets besides upstream's response: the populate budget, the block
scratch and the admission of the writer, the write's context, and the store. -/
structure WarmEnv where
  slot : Bool := true
  reachable : Bool := true
  scratch : Bool := true
  started : Bool := true
  expiredAfter : Option ℕ := none
  store : StoreEnv

inductive WarmOutcome where
  | declined
  | unreachable
  | unexpectedStatus (status : ℕ)
  | skipped
  | canceled
  | put (result : PutResult)
deriving DecidableEq

def WarmOutcome.published : WarmOutcome → Option Publication
  | .put result => result.published
  | _ => none

section

variable (cfg : Config)

def warmMeta (anonymous : Bool) (resp : Response) : Option CachedObjectMeta :=
  let m := responseMeta cfg resp.status (withInferredACL anonymous resp.header) resp.receivedAt
  if resp.status = 200 ∧ isWithinSizeThreshold cfg resp ∧ ¬ hasNoCacheHeaders resp.header ∧
      m.isCacheable cfg.sizeThreshold then some m
  else none

def fetchFullObjectToCache (env : WarmEnv) (anonymous : Bool) (resp : Response)
    (body : UpstreamBody) : WarmOutcome :=
  if !env.slot then .declined
  else if !env.reachable then .unreachable
  else if resp.status ≠ 200 then
    if anonymous ∧ resp.status = 403 then .declined else .unexpectedStatus resp.status
  else
    match warmMeta cfg anonymous resp with
    | none => .skipped
    | some m =>
      if isBlockEligibleSize cfg m.contentLength && !env.scratch then .declined
      else if !env.started then .canceled
      else .put (env.store.putFullObject m cfg (contextBoundReader env.expiredAfter body.source))

/-- What a revalidation meets: the state of the cache and of the token, the
admission of the writer, and a client that may leave after so many bytes. -/
structure RevalidationEnv where
  cacheEnabled : Bool := true
  tokenOK : Bool := true
  started : Bool := true
  clientLeavesAfter : Option ℕ := none
  store : StoreEnv

def revalidatedMeta (resp : Response) : Option CachedObjectMeta :=
  let m := responseMeta cfg resp.status resp.header resp.receivedAt
  if m.isCacheable cfg.sizeThreshold ∧ ¬ hasNoCacheHeaders resp.header then some m else none

/-- The pipe's read end: what was read for the client, closed with the error of
the copy. -/
def teedSource (clientLeavesAfter : Option ℕ) (body : UpstreamBody) : Source UInt8 :=
  match clientLeavesAfter with
  | none => body.source
  | some n => ⟨body.source.rest.take n, .failure 1⟩

/-- The cache's part of a revalidation; `none` when the response is only passed
on. -/
def handleRevalidation200 (env : RevalidationEnv) (resp : Response) (body : UpstreamBody) :
    Option PutResult :=
  match revalidatedMeta cfg resp with
  | none => none
  | some m =>
    if env.cacheEnabled && env.tokenOK && env.started then
      some (env.store.putFullObject m cfg (teedSource env.clientLeavesAfter body))
    else none

/-- The body is cut short and nothing the writer looks at says so: the error is a
sentinel its reader takes for the end, and the length is unknown or happens to be
the number of bytes before the cut. -/
def UpstreamBody.LooksWhole (body : UpstreamBody) (m : CachedObjectMeta) : Prop :=
  ∃ n e, body.stop = some (n, e) ∧ n < body.full.length ∧
    (e = .eof ∨ e = .unexpectedEOF ∧ isBlockEligibleSize cfg m.contentLength = false) ∧
    (m.contentLength < 0 ∨ m.contentLength = n)

end

section

variable {cfg : Config} {m : CachedObjectMeta} {body : UpstreamBody} {env : StoreEnv}
  {p : Publication}

theorem putFullObject_whole (hcut : ¬ body.LooksWhole cfg m)
    (h : (env.putFullObject m cfg body.source).published = some p) : p.Holds body.full := by
  obtain ⟨hmeta, hholds, hend⟩ := StoreEnv.putFullObject_published h
  have hlength : p.metadata.contentLength = m.contentLength := by
    rw [hmeta, asStored]
    split_ifs
    · rfl
    · rfl
  unfold UpstreamBody.source at hholds hend
  cases hstop : body.stop with
  | none =>
    rw [hstop] at hholds
    exact hholds
  | some stop =>
    obtain ⟨n, e⟩ := stop
    rw [hstop] at hholds hend
    dsimp only at hholds hend
    by_cases hn : n < body.full.length
    · exfalso
      apply hcut
      refine ⟨n, e, hstop, hn, ?_, ?_⟩
      · rcases hend with heof | ⟨hcut', -, hwhole⟩
        · exact .inl heof
        · exact .inr ⟨hcut', hwhole⟩
      · have hdeclared := hholds.length
        rw [hlength, List.length_take] at hdeclared
        omega
    · rwa [List.take_of_length_le (by omega)] at hholds

theorem putFullObject_failure {data : Bytes} {code : ℕ} :
    (env.putFullObject m cfg ⟨data, .failure code⟩).published = none := by
  cases hp : (env.putFullObject m cfg ⟨data, .failure code⟩).published with
  | none => rfl
  | some p =>
    obtain ⟨-, -, hend⟩ := StoreEnv.putFullObject_published hp
    rcases hend with heof | ⟨hcut, -⟩
    · cases heof
    · cases hcut

/-- A body that only looks whole is published, cut as it is, by a willing store. -/
theorem putFullObject_cut (hetag : m.etag ≠ []) (hcut : body.LooksWhole cfg m) :
    ∃ p, (StoreEnv.willing.putFullObject m cfg body.source).published = some p ∧
      ¬ p.Holds body.full := by
  obtain ⟨n, e, hstop, hn, hend, hlen⟩ := hcut
  have hsource : body.source = ⟨body.full.take n, e⟩ := by rw [UpstreamBody.source, hstop]
  have htake : (body.full.take n).length = n := by
    rw [List.length_take]
    omega
  have hwilling : ∃ p,
      (StoreEnv.willing.putFullObject m cfg ⟨body.full.take n, e⟩).published = some p := by
    apply StoreEnv.putFullObject_willing hetag
    · dsimp only
      omega
    · exact hend
  obtain ⟨p, hp⟩ := hwilling
  rw [hsource]
  refine ⟨p, hp, fun hfull => ?_⟩
  obtain ⟨-, hholds, -⟩ := StoreEnv.putFullObject_published hp
  have heq := congrArg List.length (hholds.unique hfull)
  dsimp only at heq
  omega

theorem etag_ne_nil_of_warmMeta {anonymous : Bool} {resp : Response}
    (h : warmMeta cfg anonymous resp = some m) : m.etag ≠ [] := by
  unfold warmMeta at h
  dsimp only at h
  split at h
  · rename_i hgates
    cases h
    exact CachedObjectMeta.etag_ne_nil_of_isCacheable _ hgates.2.2.2
  · cases h

theorem status_of_warmMeta {anonymous : Bool} {resp : Response}
    (h : warmMeta cfg anonymous resp = some m) : resp.status = 200 := by
  unfold warmMeta at h
  dsimp only at h
  split at h
  · rename_i hgates
    exact hgates.1
  · cases h

theorem etag_ne_nil_of_revalidatedMeta {resp : Response}
    (h : revalidatedMeta cfg resp = some m) : m.etag ≠ [] := by
  unfold revalidatedMeta at h
  dsimp only at h
  split at h
  · rename_i hgates
    cases h
    exact CachedObjectMeta.etag_ne_nil_of_isCacheable _ hgates.1
  · cases h

theorem fetchFullObjectToCache_published {env : WarmEnv} {anonymous : Bool} {resp : Response}
    (h : (fetchFullObjectToCache cfg env anonymous resp body).published = some p) :
    ∃ m, warmMeta cfg anonymous resp = some m ∧
      (env.store.putFullObject m cfg
        (contextBoundReader env.expiredAfter body.source)).published = some p := by
  unfold fetchFullObjectToCache at h
  split at h
  · cases h
  split at h
  · cases h
  split at h
  · split at h
    · cases h
    · cases h
  split at h
  · cases h
  · rename_i m hmeta
    split at h
    · cases h
    split at h
    · cases h
    · exact ⟨m, hmeta, h⟩

theorem handleRevalidation200_published {env : RevalidationEnv} {resp : Response}
    (h : (handleRevalidation200 cfg env resp body).bind PutResult.published = some p) :
    ∃ m, revalidatedMeta cfg resp = some m ∧
      (env.store.putFullObject m cfg (teedSource env.clientLeavesAfter body)).published =
        some p := by
  unfold handleRevalidation200 at h
  split at h
  · cases h
  · rename_i m hmeta
    split at h
    · exact ⟨m, hmeta, h⟩
    · cases h

end

/-- A warm, and a revalidation that found a new version, make only complete bodies
visible, whatever the budget, the deadline, the client and the store do, exactly
when the response's body does not stop in a way that looks like its end. -/
theorem background_fill_whole_iff (cfg : Config) (anonymous : Bool) (resp : Response)
    (body : UpstreamBody) :
    ((∀ env p, (fetchFullObjectToCache cfg env anonymous resp body).published = some p →
      p.Holds body.full) ↔
        ∀ m, warmMeta cfg anonymous resp = some m → ¬ body.LooksWhole cfg m) ∧
    ((∀ env p, (handleRevalidation200 cfg env resp body).bind PutResult.published = some p →
      p.Holds body.full) ↔
        ∀ m, revalidatedMeta cfg resp = some m → ¬ body.LooksWhole cfg m) := by
  refine ⟨⟨?_, ?_⟩, ⟨?_, ?_⟩⟩
  · intro hwhole m hmeta hcut
    obtain ⟨p, hp, hnot⟩ := putFullObject_cut (etag_ne_nil_of_warmMeta hmeta) hcut
    apply hnot
    apply hwhole { store := .willing }
    simpa [fetchFullObjectToCache, hmeta, status_of_warmMeta hmeta, WarmOutcome.published,
      contextBoundReader] using hp
  · intro hsound env p hp
    obtain ⟨m, hmeta, hput⟩ := fetchFullObjectToCache_published hp
    cases hexpired : env.expiredAfter with
    | none =>
      rw [hexpired] at hput
      exact putFullObject_whole (hsound m hmeta) hput
    | some n =>
      rw [hexpired, contextBoundReader, putFullObject_failure] at hput
      cases hput
  · intro hwhole m hmeta hcut
    obtain ⟨p, hp, hnot⟩ := putFullObject_cut (etag_ne_nil_of_revalidatedMeta hmeta) hcut
    apply hnot
    apply hwhole { store := .willing }
    simpa [handleRevalidation200, hmeta, teedSource] using hp
  · intro hsound env p hp
    obtain ⟨m, hmeta, hput⟩ := handleRevalidation200_published hp
    cases hclient : env.clientLeavesAfter with
    | none =>
      rw [hclient] at hput
      exact putFullObject_whole (hsound m hmeta) hput
    | some n =>
      rw [hclient, teedSource, putFullObject_failure] at hput
      cases hput

/-! A chunked response without a length, cut after two of its four bytes. -/

def wholeBodies : Config where
  bucket := ascii "b"
  key := ascii "k"
  sizeThreshold := 1000
  blockSize := 8
  blockCachingEnabled := true
  parseTime _ := none

def chunkedResponse : Response where
  status := 200
  header := Header.empty.set (ascii "ETag") (ascii "v1")

def cutBody : UpstreamBody where
  full := ascii "abcd"
  stop := some (2, .unexpectedEOF)

theorem background_fill_publishes_cut_body :
    (fetchFullObjectToCache wholeBodies { store := .willing } false chunkedResponse
        cutBody).published.map Publication.stored = some (.whole (ascii "ab")) ∧
      ((handleRevalidation200 wholeBodies { store := .willing } chunkedResponse cutBody).bind
        PutResult.published).map Publication.stored = some (.whole (ascii "ab")) := by
  decide +kernel

end TagGateway.Proxy
