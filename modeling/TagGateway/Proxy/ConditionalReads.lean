import TagGateway.Proxy.InferredAccess
import TagGateway.Proxy.TieredReads

/-!
# Conditional reads of a cached entry

A GET that finds its entry is answered with `304`, with a range of the body or with all
of it. RFC 9110, section 13.2.2, orders the tests: the validators of the client's copy
come first, and a range is looked at after them. The handler without an origin keeps
that order. The proxying handler looks for a range first, and after a revalidation it
looks at no validator at all.
-/
namespace TagGateway.Proxy

open Foundation Cache Auth

/-- How a read of an entry is decided. A range that cannot be satisfied is honoured by
the refusal of it. -/
inductive ReadDecision where
  | notModified
  | range
  | full
deriving DecidableEq

/-! ## The order of the standard -/

namespace Precedence

variable (cfg : TieredConfig) (m : CachedObjectMeta)

/-- `If-None-Match` is false: there is an entry, or one of the tags is the entry's. -/
def noneMatchFalse (value : Bytes) : Bool :=
  value == ascii "*" || m.matchesETagHeader value false

/-- `If-Modified-Since` is false; without two dates it is not evaluated. -/
def modifiedSinceFalse (value : Bytes) : Bool :=
  (cfg.parseTime value).any fun since => m.lastModified != 0 && decide (m.lastModified ≤ since)

/-- `If-Range` names the entry: by the very date of its last change, or by its tag in
the strong comparison. -/
def ifRangeTrue (value : Bytes) : Bool :=
  match cfg.parseTime value with
  | some date => m.lastModified != 0 && date == m.lastModified
  | none => m.etag != [] && !hasPrefix value (ascii "W/") && !hasPrefix m.etag (ascii "W/") &&
      normalizeETag value == normalizeETag m.etag

variable (h : Header)

/-- The client's copy is current. A date counts only where no tag is given. -/
def copyIsCurrent : Bool :=
  let noneMatch := h.get (ascii "If-None-Match")
  let since := h.get (ascii "If-Modified-Since")
  if noneMatch ≠ [] then noneMatchFalse m noneMatch
  else since != [] && modifiedSinceFalse cfg m since

/-- The range is for this version of the object, or for whatever version there is. -/
def rangeApplies : Bool :=
  let ifRange := h.get (ascii "If-Range")
  ifRange == [] || ifRangeTrue cfg m ifRange

def decision : ReadDecision :=
  if copyIsCurrent cfg m h then .notModified
  else if h.get (ascii "Range") ≠ [] ∧ rangeApplies cfg m h then .range
  else .full

end Precedence

/-! ## The handlers -/

inductive HitCall where
  | serveRangeFromBlockCache
  | serveRangeFromCache
  | writeNotModifiedFromCache
  | serveFullObjectFromBlockCache
  | serveFromCache
deriving DecidableEq

def HitCall.decision : HitCall → ReadDecision
  | .writeNotModifiedFromCache => .notModified
  | .serveRangeFromBlockCache | .serveRangeFromCache => .range
  | .serveFullObjectFromBlockCache | .serveFromCache => .full

section Handlers

variable (cfg : TieredConfig)

/-- A hit of `HandleGetObject` that needs no revalidation. -/
def freshHit (r : TieredRead) (m : CachedObjectMeta) : HitCall :=
  if r.header.get (ascii "Range") ≠ [] then
    if 0 < m.blockSize then .serveRangeFromBlockCache else .serveRangeFromCache
  else if writeNotModifiedFromCache cfg r m then .writeNotModifiedFromCache
  else if 0 < m.blockSize then .serveFullObjectFromBlockCache
  else .serveFromCache

/-- `handleRevalidation304` and `serveStaleFromCache`: the entry turned out to be current,
or upstream could not tell. -/
def revalidatedHit (r : TieredRead) : HitCall :=
  if r.header.get (ascii "Range") ≠ [] then .serveRangeFromCache else .serveFromCache

/-- The entry that a proxied GET is served from, and by which helper. -/
def cachedGet (read : ReadConfig) (lib : Stdlib) (q : Request) (auth : AuthResult)
    (entry : Option CachedObjectMeta) : Option (CachedObjectMeta × HitCall) :=
  let r := readRequest lib q auth
  match (arrivalRoute read r).getD (lookupRoute read r entry) with
  | .serve m _ => some (m, freshHit cfg ⟨.get, q, auth⟩ m)
  | .revalidate m => some (m, revalidatedHit ⟨.get, q, auth⟩)
  | .forward _ | .coalesce => none

/-- What the handler without an origin decides for an entry that is there; `none` when a
precondition of the request fails. -/
def originlessDecision (r : TieredRead) (m : CachedObjectMeta) : Option ReadDecision :=
  match answerConditionalsFromMeta cfg r m with
  | none => some (if r.header.get (ascii "Range") ≠ [] then .range else .full)
  | some .notModified => some .notModified
  | some _ => none

end Handlers

/-! ## Where the order is kept -/

section Kept

variable {cfg : TieredConfig} {read : ReadConfig} {lib : Stdlib} {q : Request} {auth : AuthResult}

theorem modifiedSinceFalse_eq (m : CachedObjectMeta) (value : Bytes) :
    Precedence.modifiedSinceFalse cfg m value =
      (cfg.parseTime value).any fun since => !isModifiedSince m since := by
  unfold Precedence.modifiedSinceFalse isModifiedSince
  congr 1
  funext since
  rw [Bool.not_or, ← decide_not, bne]
  simp only [not_lt]

/-- The helper finds every current copy, but for an entry without a tag whose presence
is all the client asks for. -/
theorem writeNotModifiedFromCache_iff (r : TieredRead) (m : CachedObjectMeta) :
    writeNotModifiedFromCache cfg r m = true ↔
      Precedence.copyIsCurrent cfg m r.header = true ∧
        (m.etag ≠ [] ∨ r.header.get (ascii "If-None-Match") ≠ ascii "*") := by
  unfold Precedence.copyIsCurrent writeNotModifiedFromCache
  generalize r.header.get (ascii "If-None-Match") = noneMatch
  by_cases hgiven : noneMatch = []
  · subst hgiven
    simp [modifiedSinceFalse_eq, ascii]
  · simp only [hgiven, ne_eq, not_false_eq_true, if_true, Precedence.noneMatchFalse]
    by_cases hany : noneMatch = ascii "*"
    · subst hany
      by_cases htag : m.etag = []
      · simp [htag, CachedObjectMeta.matchesETagHeader, etagListed]
      · simp [htag, CachedObjectMeta.matchesETagHeader, etagListed, ascii]
    · simp [hany]

theorem freshHit_decision (r : TieredRead) (m : CachedObjectMeta) :
    (freshHit cfg r m).decision =
      if r.header.get (ascii "Range") ≠ [] then .range
      else if writeNotModifiedFromCache cfg r m then .notModified
      else .full := by
  unfold freshHit
  split_ifs <;> rfl

theorem revalidatedHit_decision (r : TieredRead) :
    (revalidatedHit r).decision =
      if r.header.get (ascii "Range") ≠ [] then .range else .full := by
  unfold revalidatedHit
  split_ifs <;> rfl

/-- A request that forces a revalidation is served after one, any other without. -/
theorem cachedGet_cases {entry : Option CachedObjectMeta} {m : CachedObjectMeta} {call : HitCall}
    (h : cachedGet cfg read lib q auth entry = some (m, call)) :
    call = if (readRequest lib q auth).shouldForceRevalidate then revalidatedHit ⟨.get, q, auth⟩
      else freshHit cfg ⟨.get, q, auth⟩ m := by
  unfold cachedGet at h
  by_cases hselect : (readRequest lib q auth).hasRepresentationSelectors = true
  · simp [arrivalRoute, hselect] at h
  · simp only [arrivalRoute, hselect, Bool.false_eq_true, if_false, Option.getD_none,
      lookupRoute] at h
    cases hentry : visibleEntry read (readRequest lib q auth) entry with
    | none =>
      simp only [hentry, missRoute] at h
      split_ifs at h
    | some found =>
      simp only [hentry] at h
      by_cases hreval : revalidates (readRequest lib q auth) found = true
      · have hforce : (readRequest lib q auth).shouldForceRevalidate = true := by
          simp only [revalidates, Bool.and_eq_true] at hreval
          exact hreval.1.1
        simp only [if_pos hreval, Option.some.injEq, Prod.mk.injEq] at h
        rw [if_pos hforce, h.2]
      · rw [if_neg hreval] at h
        by_cases hforce : (readRequest lib q auth).shouldForceRevalidate = true
        · simp only [if_pos hforce, missRoute] at h
          split_ifs at h
        · simp only [if_neg hforce, Option.some.injEq, Prod.mk.injEq] at h
          rw [if_neg hforce, ← h.2, h.1]

theorem cachedGet_decision {entry : Option CachedObjectMeta} {m : CachedObjectMeta}
    {call : HitCall} (h : cachedGet cfg read lib q auth entry = some (m, call)) :
    call.decision =
      if q.header.get (ascii "Range") ≠ [] then .range
      else if (readRequest lib q auth).shouldForceRevalidate = false ∧
        writeNotModifiedFromCache cfg ⟨.get, q, auth⟩ m = true then .notModified
      else .full := by
  rw [cachedGet_cases h]
  by_cases hforce : (readRequest lib q auth).shouldForceRevalidate = true
  · simp only [hforce, if_true, revalidatedHit_decision, Bool.true_eq_false, false_and, if_false]
    rfl
  · simp only [hforce, if_false, freshHit_decision, true_and, Bool.false_eq_true]
    rfl

theorem originlessDecision_of_fourHeaders {r : TieredRead} (m : CachedObjectMeta)
    (hmatch : r.header.get (ascii "If-Match") = [])
    (hunmodified : r.header.get (ascii "If-Unmodified-Since") = []) :
    originlessDecision cfg r m = some
      (if writeNotModifiedFromCache cfg r m then .notModified
      else if r.header.get (ascii "Range") ≠ [] then .range
      else .full) := by
  have hholds : writePreconditionFailed cfg r m = false := by
    simp [writePreconditionFailed, hmatch, hunmodified]
  unfold originlessDecision answerConditionalsFromMeta
  cases writeNotModifiedFromCache cfg r m <;> simp [hholds]

/-- The order of the standard is kept for this request and entry. When the client's copy
is current, the request has no range and forces no revalidation, and an entry without a
tag is not asked for by its presence; otherwise a range comes with no `If-Range` that
does not name the entry. -/
def OrderKept (cfg : TieredConfig) (r : ReadRequest) (m : CachedObjectMeta) : Prop :=
  if Precedence.copyIsCurrent cfg m r.header then
    r.rangeHeader = [] ∧ r.shouldForceRevalidate = false ∧
      (m.etag ≠ [] ∨ r.header.get (ascii "If-None-Match") ≠ ascii "*")
  else r.rangeHeader = [] ∨ Precedence.rangeApplies cfg m r.header = true

theorem hit_decides_as_ordered {entry : Option CachedObjectMeta} {m : CachedObjectMeta}
    {call : HitCall} (h : cachedGet cfg read lib q auth entry = some (m, call)) :
    call.decision = Precedence.decision cfg m q.header ↔
      OrderKept cfg (readRequest lib q auth) m := by
  have hhelper : writeNotModifiedFromCache cfg ⟨.get, q, auth⟩ m = true ↔
      Precedence.copyIsCurrent cfg m q.header = true ∧
        (m.etag ≠ [] ∨ q.header.get (ascii "If-None-Match") ≠ ascii "*") :=
    writeNotModifiedFromCache_iff ⟨.get, q, auth⟩ m
  have hheader : (readRequest lib q auth).header = q.header := rfl
  simp only [cachedGet_decision h, Precedence.decision, OrderKept, ReadRequest.rangeHeader, hheader,
    hhelper]
  by_cases hrange : q.header.get (ascii "Range") = []
  · by_cases hcurrent : Precedence.copyIsCurrent cfg m q.header = true
    · simp [hrange, hcurrent, imp_iff_not_or]
    · simp [hrange, hcurrent]
  · by_cases hcurrent : Precedence.copyIsCurrent cfg m q.header = true
    · simp [hrange, hcurrent]
    · simp [hrange, hcurrent]

theorem OrderKept.originlessDecision_eq {entry : Option CachedObjectMeta} {m : CachedObjectMeta}
    {call : HitCall} (hkept : OrderKept cfg (readRequest lib q auth) m)
    (h : cachedGet cfg read lib q auth entry = some (m, call))
    (hmatch : q.header.get (ascii "If-Match") = [])
    (hunmodified : q.header.get (ascii "If-Unmodified-Since") = []) :
    originlessDecision cfg ⟨.get, q, auth⟩ m = some call.decision := by
  have horiginless := @originlessDecision_of_fourHeaders cfg ⟨.get, q, auth⟩ m hmatch hunmodified
  rw [horiginless, cachedGet_decision h]
  by_cases hcurrent : writeNotModifiedFromCache cfg ⟨.get, q, auth⟩ m = true
  · -- the helper only finds copies that are current
    have hstandard : Precedence.copyIsCurrent cfg m (readRequest lib q auth).header = true :=
      ((writeNotModifiedFromCache_iff _ m).mp hcurrent).1
    rw [OrderKept, if_pos hstandard] at hkept
    have hrange : q.header.get (ascii "Range") = [] := hkept.1
    simp [hcurrent, hrange, hkept.2.1]
  · simp only [hcurrent, Bool.false_eq_true, if_false, and_false]
    rfl

/-- A proxied GET that is served from the cache is decided as the standard orders it, and
as the handler without an origin decides it, exactly when the order is kept. -/
theorem conditional_precedence_iff (cfg : TieredConfig) (read : ReadConfig) (lib : Stdlib)
    (q : Request) (auth : AuthResult) (entry : Option CachedObjectMeta) (m : CachedObjectMeta)
    (call : HitCall) (hhit : cachedGet cfg read lib q auth entry = some (m, call))
    (hmatch : q.header.get (ascii "If-Match") = [])
    (hunmodified : q.header.get (ascii "If-Unmodified-Since") = []) :
    (call.decision = Precedence.decision cfg m q.header ∧
        originlessDecision cfg ⟨.get, q, auth⟩ m = some call.decision) ↔
      OrderKept cfg (readRequest lib q auth) m := by
  rw [hit_decides_as_ordered hhit]
  constructor
  · intro h
    exact h.1
  · intro hkept
    exact ⟨hkept, hkept.originlessDecision_eq hhit hmatch hunmodified⟩

/-- A client that has a version of the object, and asks for a part if that is not the
current one. -/
def rangeUnlessCurrent (etag : String) : Request :=
  clientRequest "GET" "/bucket/key" ""
    ((Header.empty.set (ascii "If-None-Match") (ascii etag)).set (ascii "Range")
      (ascii "bytes=0-3"))

def taggedEntry (etag : String) : CachedObjectMeta where
  bucket := ascii "bucket"
  key := ascii "key"
  etag := ascii etag
  contentLength := 10
  statusCode := 200

theorem conditional_precedence_iff_outdated :
    HitCall.serveRangeFromCache.decision =
        Precedence.decision sampleTiered (taggedEntry "v2") (rangeUnlessCurrent "v1").header ∧
      originlessDecision sampleTiered ⟨.get, rangeUnlessCurrent "v1", .validated⟩
        (taggedEntry "v2") = some HitCall.serveRangeFromCache.decision := by
  apply (conditional_precedence_iff sampleTiered ⟨true, 8⟩ plainLib (rangeUnlessCurrent "v1")
    .validated (some (taggedEntry "v2")) (taggedEntry "v2") .serveRangeFromCache (by decide +kernel)
    (by decide +kernel) (by decide +kernel)).mpr
  rw [OrderKept, if_neg (by decide +kernel)]
  right
  decide +kernel

/-- The client's copy is current, and it gets a part of it all the same. Without an
origin it gets `304`, as the standard has it. -/
theorem range_served_over_current_copy :
    cachedGet sampleTiered ⟨true, 8⟩ plainLib (rangeUnlessCurrent "v1") .validated
        (some (taggedEntry "v1")) = some (taggedEntry "v1", .serveRangeFromCache) ∧
      HitCall.serveRangeFromCache.decision = .range ∧
      Precedence.decision sampleTiered (taggedEntry "v1") (rangeUnlessCurrent "v1").header =
        .notModified ∧
      originlessDecision sampleTiered ⟨.get, rangeUnlessCurrent "v1", .validated⟩
        (taggedEntry "v1") = some .notModified := by
  decide +kernel

end Kept
end TagGateway.Proxy
