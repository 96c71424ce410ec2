import TagGateway.Cache.Object
import TagGateway.Proxy.Range

/-!
# Which responses become cache rows

Every path that fills the cache decides from an upstream response whether a
row may be stored and builds it. The decisions differ from path to path: the
full-object paths read the status, the size and the directives, the HEAD paths
insist on the tag of the write they follow, and the range paths take the
object's size from `Content-Range`.
-/
namespace TagGateway.Proxy

open Foundation Cache

/-- The settings the populate paths read, with the object they are about.
`parseTime` reads an HTTP date. -/
structure Config where
  bucket : Bytes
  key : Bytes
  sizeThreshold : ℤ
  blockSize : ℤ
  blockCachingEnabled : Bool
  parseTime : Bytes → Option ℤ

variable (cfg : Config)

def hasNoCacheHeaders (headers : Header) : Bool :=
  let cc := headers.get (ascii "Cache-Control")
  contains cc (ascii "no-store") || contains cc (ascii "private")

def isWithinSizeThreshold (resp : Response) : Bool :=
  if 0 < resp.contentLength then decide (resp.contentLength ≤ cfg.sizeThreshold) else true

def isBlockEligibleSize (contentLength : ℤ) : Bool :=
  cfg.blockCachingEnabled && decide (0 < cfg.blockSize) &&
    decide (cfg.blockSize ≤ contentLength)

/-- A successful unsigned read of an object without an ACL of its own proves it
publicly readable. -/
def withInferredACL (anonymous : Bool) (headers : Header) : Header :=
  if anonymous && headers.get (ascii "X-Amz-Acl") == [] then
    headers.set (ascii "X-Amz-Acl") (ascii "public-read")
  else headers

def responseMeta (statusCode : ℕ) (headers : Header) (now : ℤ) : CachedObjectMeta :=
  metaFromHTTPHeaders cfg.parseTime cfg.bucket cfg.key statusCode headers now

/-- The representation a full body is stored in: blocks from the block size
on, one body below it. -/
def asStored (m : CachedObjectMeta) : CachedObjectMeta :=
  if isBlockEligibleSize cfg m.contentLength then
    { m with blockSize := cfg.blockSize, blocksComplete := true }
  else m

/-- The gate of `streamFromUpstream` and of `fetchFullObjectToCache`. -/
def admitFullObject (anonymous : Bool) (resp : Response) : Option CachedObjectMeta :=
  let m := responseMeta cfg resp.status (withInferredACL anonymous resp.header) resp.receivedAt
  if resp.status = 200 ∧ ¬ hasNoCacheHeaders resp.header ∧ isWithinSizeThreshold cfg resp ∧
      m.isCacheable cfg.sizeThreshold then some (asStored cfg m)
  else none

/-- The gate of `cacheTeedBodyFromHead`: the object is still the version whose
body was teed. -/
def admitTeedBody (putETag : Bytes) (bodyLength : ℤ) (resp : Response) :
    Option CachedObjectMeta :=
  let m := responseMeta cfg 200 resp.header resp.receivedAt
  if resp.status = 200 ∧ resp.header.get (ascii "ETag") = putETag ∧
      m.isCacheable cfg.sizeThreshold ∧ m.contentLength = bodyLength then some m
  else none

/-- The gate of `establishBlockMetaFromHead`. -/
def admitBlockMetaFromHead (writtenETag : Bytes) (resp : Response) : Option CachedObjectMeta :=
  let m := responseMeta cfg 200 resp.header resp.receivedAt
  if resp.status = 200 ∧ resp.header.get (ascii "ETag") = writtenETag ∧
      m.isCacheable cfg.sizeThreshold ∧ isBlockEligibleSize cfg m.contentLength then
    some { m with etag := writtenETag, blockSize := cfg.blockSize }
  else none

/-- A block-mode row from a partial response: the object's size, not the
range's, and the object's status. -/
def buildBlockMeta (headers : Header) (totalSize now : ℤ) : CachedObjectMeta :=
  { responseMeta cfg 200 headers now with
    contentLength := totalSize, blockSize := cfg.blockSize }

def parquetTrailerSize : ℤ := 8

def maxParquetFooterPrefetchBlocks : ℤ := 32

def parseParquetTrailer (buf : Bytes) (contentLength : ℤ) : Option ℤ :=
  match buf with
  | [a, b, c, d, m₀, m₁, m₂, m₃] =>
    let footerLen : ℤ := a.toNat + 256 * b.toNat + 65536 * c.toNat + 16777216 * d.toNat
    if [m₀, m₁, m₂, m₃] = ascii "PAR1" ∧ 0 < footerLen ∧
        footerLen ≤ contentLength - parquetTrailerSize then some footerLen
    else none
  | _ => none

/-- The blocks of the footer, the last ones when there are too many. -/
def parquetFooterBlocks (m : CachedObjectMeta) (footerLen : ℤ) : List ℤ :=
  let tailBlock := (m.contentLength - 1).tdiv m.blockSize
  let first := max 0 ((m.contentLength - parquetTrailerSize - footerLen).tdiv m.blockSize)
  let first := if maxParquetFooterPrefetchBlocks < tailBlock - first + 1 then
    tailBlock - maxParquetFooterPrefetchBlocks + 1 else first
  (List.range (tailBlock - first + 1).toNat).map fun i => first + (i : ℤ)

/-- The gate of `readParquetTrailerFromUpstream`, with the footer blocks that
must be present before the row is published. -/
def admitParquetTrailer (writtenETag : Bytes) (resp : Response) :
    Option (CachedObjectMeta × List ℤ) :=
  match parseContentRange (resp.header.get (ascii "Content-Range")) with
  | ⟨some (first, last), total⟩ =>
    let m := buildBlockMeta cfg resp.header total resp.receivedAt
    if resp.status = 206 ∧ parquetTrailerSize < total ∧ first = total - parquetTrailerSize ∧
        last = total - 1 ∧ resp.header.get (ascii "ETag") ≠ [] ∧
        isBlockEligibleSize cfg total ∧ m.isCacheable cfg.sizeThreshold ∧
        (writtenETag ≠ [] → m.etag = writtenETag) then
      (parseParquetTrailer (resp.body.take 8) total).map fun footerLen =>
        (m, parquetFooterBlocks m footerLen)
    else none
  | ⟨none, _⟩ => none

def blockSpanForRange (m : CachedObjectMeta) (touched : List ℤ) : Option BlockSpan :=
  match touched.head?, touched.getLast? with
  | some first, some last =>
    if 0 < m.blockSize ∧ 0 < m.contentLength ∧ touched.length ≤ maxRangeBlockFanout ∧
        0 ≤ first ∧ last ≤ (m.contentLength - 1).tdiv m.blockSize ∧
        touched.IsChain (fun a b => b = a + 1) then some ⟨first, last⟩
    else none
  | _, _ => none

/-- The gate of `handleRangeWithBackgroundCache` in block mode, with the blocks
the request touched. -/
def admitRangeMiss (rangeHeader : Bytes) (anonymous : Bool) (resp : Response) :
    Option (CachedObjectMeta × List ℤ) :=
  let total := (parseContentRange (resp.header.get (ascii "Content-Range"))).total
  let built := buildBlockMeta cfg resp.header total resp.receivedAt
  let m := if anonymous ∧ built.acl = [] then { built with acl := ascii "public-read" } else built
  let touched := touchedBlocks rangeHeader total m.blockSize
  if resp.status = 206 ∧ 0 < total ∧ total ≤ cfg.sizeThreshold ∧
      isBlockEligibleSize cfg total ∧ resp.header.get (ascii "ETag") ≠ [] ∧
      ¬ hasNoCacheHeaders resp.header ∧ touched ≠ [] ∧ touched.length ≤ maxRangeBlockFanout then
    some ({ m with rangeBlockSpan := blockSpanForRange m touched }, touched)
  else none

/-- The row a revalidation's new version is stored as, when it may be. -/
def admitRevalidated (resp : Response) : Option CachedObjectMeta :=
  let m := responseMeta cfg resp.status resp.header resp.receivedAt
  if m.isCacheable cfg.sizeThreshold ∧ ¬ hasNoCacheHeaders resp.header then some (asStored cfg m)
  else none

def acceptsBlock (m : CachedObjectMeta) (blockIdx : ℤ) (resp : Response) : Bool :=
  let (bStart, bEnd) := blockBounds blockIdx m.blockSize m.contentLength
  resp.status == 206 && resp.header.get (ascii "ETag") != [] &&
    resp.header.get (ascii "ETag") == m.etag && resp.contentLength == bEnd - bStart + 1 &&
    (parseContentRange (resp.header.get (ascii "Content-Range"))).bounds == some (bStart, bEnd)

/-! Whatever a gate lets through names the version the response named. -/

theorem withInferredACL_get_ne (anonymous : Bool) (headers : Header) (name : Bytes)
    (hname : canonicalHeaderKey name ≠ canonicalHeaderKey (ascii "X-Amz-Acl")) :
    (withInferredACL anonymous headers).get name = headers.get name := by
  unfold withInferredACL
  split_ifs
  · exact headers.get_set_ne _ hname
  · rfl

theorem withInferredACL_etag (anonymous : Bool) (headers : Header) :
    (withInferredACL anonymous headers).get (ascii "ETag") = headers.get (ascii "ETag") :=
  withInferredACL_get_ne anonymous headers _ (by decide)

/-- The inference adds an ACL where there is none and nothing else. -/
theorem withInferredACL_acl (anonymous : Bool) (headers : Header) :
    (withInferredACL anonymous headers).get (ascii "X-Amz-Acl") =
      if anonymous = true ∧ headers.get (ascii "X-Amz-Acl") = [] then ascii "public-read"
      else headers.get (ascii "X-Amz-Acl") := by
  unfold withInferredACL
  by_cases hacl : headers.get (ascii "X-Amz-Acl") = []
  · cases anonymous with
    | true =>
      simp only [hacl, beq_self_eq_true, Bool.and_true, if_true, and_self]
      exact headers.get_set_self _ _
    | false => simp
  · simp [hacl]

@[simp] theorem asStored_etag (m : CachedObjectMeta) : (asStored cfg m).etag = m.etag := by
  unfold asStored
  split_ifs <;> rfl

@[simp] theorem responseMeta_etag (statusCode : ℕ) (headers : Header) (now : ℤ) :
    (responseMeta cfg statusCode headers now).etag = headers.get (ascii "ETag") := rfl

variable {cfg}

theorem admitFullObject_spec {anonymous : Bool} {resp : Response} {m : CachedObjectMeta}
    (h : admitFullObject cfg anonymous resp = some m) :
    resp.status = 200 ∧ m.etag = resp.header.get (ascii "ETag") := by
  simp only [admitFullObject, Option.ite_none_right_eq_some, Option.some.injEq] at h
  obtain ⟨hgate, rfl⟩ := h
  exact ⟨hgate.1, by simp [withInferredACL_etag]⟩

/-- Whether a response is stored does not depend on the inference. -/
theorem admitFullObject_isSome (anonymous : Bool) (resp : Response) :
    (admitFullObject cfg anonymous resp).isSome = (admitFullObject cfg false resp).isSome := by
  have hcacheable : ∀ a, (responseMeta cfg resp.status (withInferredACL a resp.header)
      resp.receivedAt).isCacheable cfg.sizeThreshold =
      (responseMeta cfg resp.status resp.header resp.receivedAt).isCacheable cfg.sizeThreshold := by
    intro a
    have hcontrol : (responseMeta cfg resp.status (withInferredACL a resp.header)
        resp.receivedAt).cacheControl = resp.header.get (ascii "Cache-Control") :=
      withInferredACL_get_ne a resp.header _ (by decide)
    have hlength : (responseMeta cfg resp.status (withInferredACL a resp.header)
        resp.receivedAt).contentLength = declaredLength (resp.header.get (ascii "Content-Length")) :=
      congrArg declaredLength (withInferredACL_get_ne a resp.header _ (by decide))
    unfold CachedObjectMeta.isCacheable
    rw [hcontrol, hlength, responseMeta_etag, withInferredACL_etag]
    rfl
  simp only [admitFullObject, hcacheable]
  split_ifs <;> rfl

theorem admitFullObject_acl {anonymous : Bool} {resp : Response} {m : CachedObjectMeta}
    (h : admitFullObject cfg anonymous resp = some m) :
    m.acl = (withInferredACL anonymous resp.header).get (ascii "X-Amz-Acl") := by
  simp only [admitFullObject, Option.ite_none_right_eq_some, Option.some.injEq] at h
  obtain ⟨-, rfl⟩ := h
  unfold asStored
  split_ifs <;> rfl

theorem admitTeedBody_spec {putETag : Bytes} {bodyLength : ℤ} {resp : Response}
    {m : CachedObjectMeta} (h : admitTeedBody cfg putETag bodyLength resp = some m) :
    resp.status = 200 ∧ m.etag = resp.header.get (ascii "ETag") := by
  simp only [admitTeedBody, Option.ite_none_right_eq_some, Option.some.injEq] at h
  obtain ⟨hgate, rfl⟩ := h
  exact ⟨hgate.1, rfl⟩

theorem admitTeedBody_acl {putETag : Bytes} {bodyLength : ℤ} {resp : Response}
    {m : CachedObjectMeta} (h : admitTeedBody cfg putETag bodyLength resp = some m) :
    m.acl = resp.header.get (ascii "X-Amz-Acl") := by
  simp only [admitTeedBody, Option.ite_none_right_eq_some, Option.some.injEq] at h
  rw [← h.2]
  rfl

theorem admitBlockMetaFromHead_spec {writtenETag : Bytes} {resp : Response}
    {m : CachedObjectMeta} (h : admitBlockMetaFromHead cfg writtenETag resp = some m) :
    resp.status = 200 ∧ m.etag = resp.header.get (ascii "ETag") := by
  simp only [admitBlockMetaFromHead, Option.ite_none_right_eq_some, Option.some.injEq] at h
  obtain ⟨hgate, rfl⟩ := h
  exact ⟨hgate.1, hgate.2.1.symm⟩

theorem admitBlockMetaFromHead_acl {writtenETag : Bytes} {resp : Response}
    {m : CachedObjectMeta} (h : admitBlockMetaFromHead cfg writtenETag resp = some m) :
    m.acl = resp.header.get (ascii "X-Amz-Acl") := by
  simp only [admitBlockMetaFromHead, Option.ite_none_right_eq_some, Option.some.injEq] at h
  rw [← h.2]
  rfl

theorem admitParquetTrailer_spec {writtenETag : Bytes} {resp : Response}
    {m : CachedObjectMeta} {blocks : List ℤ}
    (h : admitParquetTrailer cfg writtenETag resp = some (m, blocks)) :
    resp.status = 206 ∧ m.etag = resp.header.get (ascii "ETag") := by
  unfold admitParquetTrailer at h
  split at h
  · simp only [Option.ite_none_right_eq_some] at h
    obtain ⟨hgate, hmap⟩ := h
    obtain ⟨footerLen, -, heq⟩ := Option.map_eq_some_iff.mp hmap
    rw [Prod.mk.injEq] at heq
    rw [← heq.1]
    exact ⟨hgate.1, rfl⟩
  · cases h

theorem admitParquetTrailer_acl {writtenETag : Bytes} {resp : Response}
    {m : CachedObjectMeta} {blocks : List ℤ}
    (h : admitParquetTrailer cfg writtenETag resp = some (m, blocks)) :
    m.acl = resp.header.get (ascii "X-Amz-Acl") := by
  unfold admitParquetTrailer at h
  split at h
  · simp only [Option.ite_none_right_eq_some] at h
    obtain ⟨footerLen, -, heq⟩ := Option.map_eq_some_iff.mp h.2
    rw [Prod.mk.injEq] at heq
    rw [← heq.1]
    rfl
  · cases h

theorem admitRangeMiss_spec {rangeHeader : Bytes} {anonymous : Bool} {resp : Response}
    {m : CachedObjectMeta} {blocks : List ℤ}
    (h : admitRangeMiss cfg rangeHeader anonymous resp = some (m, blocks)) :
    resp.status = 206 ∧ m.etag = resp.header.get (ascii "ETag") := by
  simp only [admitRangeMiss, Option.ite_none_right_eq_some, Option.some.injEq,
    Prod.mk.injEq] at h
  obtain ⟨hgate, rfl, -⟩ := h
  refine ⟨hgate.1, ?_⟩
  dsimp only
  split_ifs <;> rfl

theorem admitRangeMiss_isSome (rangeHeader : Bytes) (anonymous : Bool) (resp : Response) :
    (admitRangeMiss cfg rangeHeader anonymous resp).isSome =
      (admitRangeMiss cfg rangeHeader false resp).isSome := by
  have hblock : ∀ (a : Bool) (m : CachedObjectMeta), (if a = true ∧ m.acl = [] then
      { m with acl := ascii "public-read" } else m).blockSize = m.blockSize := by
    intro a m
    split_ifs <;> rfl
  simp only [admitRangeMiss, hblock]
  split_ifs <;> rfl

theorem admitRangeMiss_acl {rangeHeader : Bytes} {anonymous : Bool} {resp : Response}
    {m : CachedObjectMeta} {blocks : List ℤ}
    (h : admitRangeMiss cfg rangeHeader anonymous resp = some (m, blocks)) :
    m.acl = (withInferredACL anonymous resp.header).get (ascii "X-Amz-Acl") := by
  simp only [admitRangeMiss, Option.ite_none_right_eq_some, Option.some.injEq,
    Prod.mk.injEq] at h
  obtain ⟨-, rfl, -⟩ := h
  rw [withInferredACL_acl]
  by_cases hanon : anonymous = true ∧ resp.header.get (ascii "X-Amz-Acl") = []
  · rw [if_pos hanon]
    exact congrArg CachedObjectMeta.acl (if_pos hanon)
  · rw [if_neg hanon]
    exact congrArg CachedObjectMeta.acl (if_neg hanon)

theorem admitRevalidated_etag {resp : Response} {m : CachedObjectMeta}
    (h : admitRevalidated cfg resp = some m) : m.etag = resp.header.get (ascii "ETag") := by
  simp only [admitRevalidated, Option.ite_none_right_eq_some, Option.some.injEq] at h
  obtain ⟨-, rfl⟩ := h
  simp

theorem admitRevalidated_acl {resp : Response} {m : CachedObjectMeta}
    (h : admitRevalidated cfg resp = some m) : m.acl = resp.header.get (ascii "X-Amz-Acl") := by
  simp only [admitRevalidated, Option.ite_none_right_eq_some, Option.some.injEq] at h
  rw [← h.2]
  unfold asStored
  split_ifs <;> rfl

end TagGateway.Proxy
