import TagGateway.Proxy.TieredReads

/-!
# The bytes of a cached body

What a response holds when a whole object is served from its cached body. A large body goes
straight to the client through two writers: one commits the response with its first byte,
the one before it refuses bytes beyond the recorded length and keeps the last byte of that
length back until the stream has ended cleanly.
-/
namespace TagGateway.Proxy.CachedBody

open Foundation Cache

/-- The response, and the byte that is held back. -/
structure Response where
  body : Bytes := []
  committed : Bool := false
  held : Option UInt8 := none
deriving DecidableEq

def seen (r : Response) : ℕ := r.body.length + r.held.toList.length

/-- What a call leaves: the error it returns, the response, and the removal it asks for. -/
structure Served where
  err : Option ServeError
  body : Bytes := []
  committed : Bool := false
  removal : Option Removal := none
deriving DecidableEq

section

variable (cfg : TieredConfig) (m : CachedObjectMeta) (write : ℕ → ClientWrite) (taken : ℕ → ℕ)

/-- The committing writer. A write that fails has passed on some bytes, too. -/
def lazyCommitWrite (n : ℕ) (p : Bytes) (r : Response) : Option ServeError × Response :=
  if p = [] then (none, r)
  else
    match (write n).error with
    | none => (none, { r with body := r.body ++ p, committed := true })
    | some err => (some err, { r with body := r.body ++ p.take (taken n), committed := true })

def writeEnd : Option ServeError × Response → WriteEnd × Response
  | (none, r) => (.drained, r)
  | (some err, r) => (.broken err, r)

def boundedWrite (n : ℕ) (p : Bytes) (r : Response) : WriteEnd × Response :=
  let next := seen r + p.length
  if p = [] then (.drained, r)
  else if m.contentLength < 0 then writeEnd (lazyCommitWrite write taken n p r)
  else if m.contentLength < (next : ℤ) then (.refused, r)
  else if (next : ℤ) = m.contentLength then
    writeEnd (lazyCommitWrite write taken n p.dropLast { r with held := p.getLast? })
  else writeEnd (lazyCommitWrite write taken n p r)

def copyChunks : List Bytes → Response → WriteEnd × Response
  | [], r => (.drained, r)
  | chunk :: rest, r =>
    match boundedWrite m write taken (rest.length + 1) chunk r with
    | (.drained, r) => copyChunks rest r
    | (stop, r) => (stop, r)

def getBodyStream (s : BodyStream) : Option ServeError × Response :=
  match copyChunks m write taken s.chunks {} with
  | (.refused, r) => (some (refusedError cfg), r)
  | (.broken err, r) => (some err, r)
  | (.drained, r) => (s.ending.map bodyError, r)

def release (r : Response) : Option ServeError × Response :=
  match r.held with
  | none => (none, r)
  | some b => lazyCommitWrite write taken 0 [b] { r with held := none }

/-- The held byte goes out once the stream has ended with exactly the recorded bytes. -/
def finishStream : Option ServeError × Response → Option ServeError × Response
  | (some err, r) => (some err, r)
  | (none, r) =>
    if checkCachedBodyLength m (seen r) then release write taken r else (some .lengthMismatch, r)

/-- Once the response is committed, nothing but the missing bytes can tell of an error. -/
def concludeStream : Option ServeError × Response → Served
  | (err, r) =>
    if r.committed then
      { err := none, body := r.body, committed := true
        removal := if err = some .lengthMismatch then some (.etag m.etag) else none }
    else { err := some (err.getD .empty), body := r.body }

def serveStreamed (s : BodyStream) : Served :=
  concludeStream m (finishStream m write taken (getBodyStream cfg m write taken s))

def serveBuffered (s : BodyStream) : Served :=
  match s.ending with
  | some e => { err := some (bodyError e) }
  | none =>
    if s.data = [] then { err := some .empty }
    else if checkCachedBodyLength m s.data.length then
      { err := none, committed := true
        body := if (write 0).error = none then s.data else s.data.take (taken 0) }
    else { err := some .lengthMismatch }

def serveFromCache (s : BodyStream) : Served :=
  if m.contentLength = 0 then { err := none, committed := true }
  else if m.contentLength ≤ smallObjectThreshold then serveBuffered m write taken s
  else serveStreamed cfg m write taken s

end

/-! ## The writers -/

section

variable {cfg : TieredConfig} {m : CachedObjectMeta} {write : ℕ → ClientWrite} {taken : ℕ → ℕ}
  {limit : ℕ} {r : Response} {all : Bytes}

/-- `all` came from the stream: it is forwarded but for the byte at the limit. -/
structure Sound (limit : ℕ) (all : Bytes) (r : Response) : Prop where
  bytes : r.body ++ r.held.toList = all
  fits : all.length ≤ limit
  holds : r.held.isSome = true ↔ all.length = limit
  commits : r.committed = true ↔ r.body ≠ []

theorem Sound.seen (h : Sound limit all r) : seen r = all.length := by
  rw [← h.bytes, List.length_append]
  rfl

theorem Sound.body_lt (h : Sound limit all r) : r.body.length < limit := by
  have hbytes := congrArg List.length h.bytes
  have hfits := h.fits
  have hholds := h.holds
  rw [List.length_append] at hbytes
  cases hheld : r.held with
  | none =>
    rw [hheld] at hbytes hholds
    simp only [Option.isSome_none, Bool.false_eq_true, false_iff, Option.toList_none,
      List.length_nil] at hbytes hholds
    omega
  | some b =>
    rw [hheld] at hbytes
    simp only [Option.toList_some, List.length_singleton] at hbytes
    omega

theorem lazyCommitWrite_ok (hwrite : ∀ n, write n = .ok) (n : ℕ) (p : Bytes) (r : Response) :
    lazyCommitWrite write taken n p r =
      (none, { r with body := r.body ++ p, committed := r.committed || decide (p ≠ []) }) := by
  unfold lazyCommitWrite
  rw [hwrite n]
  split_ifs with hp
  · simp [hp]
  · simp [hp, ClientWrite.error]

theorem Sound.boundedWrite (h : Sound limit all r) (hwrite : ∀ n, write n = .ok)
    (hlimit : m.contentLength = limit) (taken : ℕ → ℕ) (n : ℕ) (p : Bytes) :
    (∃ r', boundedWrite m write taken n p r = (.drained, r') ∧ Sound limit (all ++ p) r') ∨
      boundedWrite m write taken n p r = (.refused, r) ∧ limit < (all ++ p).length := by
  have hseen := h.seen
  have hfits := h.fits
  unfold CachedBody.boundedWrite
  rw [hseen, hlimit]
  by_cases hp : p = []
  · rw [if_pos hp, hp, List.append_nil]
    exact .inl ⟨r, rfl, h⟩
  · have hpos := List.length_pos_of_ne_nil hp
    rw [if_neg hp, if_neg (by omega)]
    by_cases hover : (limit : ℤ) < ((all.length + p.length : ℕ) : ℤ)
    · rw [if_pos hover, List.length_append]
      exact .inr ⟨rfl, by omega⟩
    · -- there was room for the chunk, so no byte is held yet
      have hnone : r.held = none := by
        have hholds := h.holds
        rw [← Option.not_isSome_iff_eq_none, hholds]
        omega
      have hbody : r.body = all := by
        have hbytes := h.bytes
        rwa [hnone, Option.toList_none, List.append_nil] at hbytes
      rw [if_neg hover]
      left
      by_cases hlast : ((all.length + p.length : ℕ) : ℤ) = limit
      · rw [if_pos hlast, lazyCommitWrite_ok hwrite]
        refine ⟨_, rfl, ?_, ?_, ?_, ?_⟩
        · dsimp only
          rw [hbody, List.append_assoc, List.getLast?_eq_some_getLast hp, Option.toList_some,
            List.dropLast_append_getLast]
        · rw [List.length_append]
          omega
        · rw [List.getLast?_eq_some_getLast hp, List.length_append]
          simp only [Option.isSome_some, true_iff]
          omega
        · have hcommits := h.commits
          simp only [Bool.or_eq_true, decide_eq_true_eq, hcommits, ne_eq, List.append_eq_nil_iff]
          tauto
      · rw [if_neg hlast, lazyCommitWrite_ok hwrite]
        refine ⟨_, rfl, ?_, ?_, ?_, ?_⟩
        · dsimp only
          rw [hbody, hnone, Option.toList_none, List.append_nil]
        · rw [List.length_append]
          omega
        · rw [hnone, List.length_append]
          simp only [Option.isSome_none, Bool.false_eq_true, false_iff]
          omega
        · have hcommits := h.commits
          simp only [Bool.or_eq_true, decide_eq_true_eq, hcommits, ne_eq, List.append_eq_nil_iff]
          tauto

theorem Sound.copyChunks (h : Sound limit all r) (hwrite : ∀ n, write n = .ok)
    (hlimit : m.contentLength = limit) (taken : ℕ → ℕ) (chunks : List Bytes) :
    (∃ r', copyChunks m write taken chunks r = (.drained, r') ∧
        Sound limit (all ++ chunks.flatten) r') ∨
      ∃ r' part, copyChunks m write taken chunks r = (.refused, r') ∧ Sound limit part r' ∧
        limit < (all ++ chunks.flatten).length := by
  induction chunks generalizing r all with
  | nil => exact .inl ⟨r, rfl, by simpa using h⟩
  | cons chunk rest ih =>
    rw [CachedBody.copyChunks, List.flatten_cons, ← List.append_assoc]
    rcases h.boundedWrite hwrite hlimit taken (rest.length + 1) chunk with
      ⟨r', hwritten, hsound⟩ | ⟨hrefused, hover⟩
    · rw [hwritten]
      exact ih hsound
    · rw [hrefused]
      refine .inr ⟨r, all, rfl, h, ?_⟩
      rw [List.length_append]
      omega

theorem Sound.finishStream_whole (h : Sound limit all r) (hwrite : ∀ n, write n = .ok)
    (hlimit : m.contentLength = limit) (hlength : all.length = limit) :
    finishStream m write taken (none, r) = (none, { body := all, committed := true }) := by
  have hbytes := h.bytes
  obtain ⟨last, hlast⟩ := Option.isSome_iff_exists.mp (h.holds.mpr hlength)
  have hcheck : checkCachedBodyLength m (CachedBody.seen r) = true := by
    simp [checkCachedBodyLength, h.seen, hlength, hlimit]
  rw [hlast, Option.toList_some] at hbytes
  simp [finishStream, hcheck, release, hlast, lazyCommitWrite_ok hwrite, hbytes]

theorem Sound.finishStream_short (h : Sound limit all r) (hlimit : m.contentLength = limit)
    (hlength : all.length ≠ limit) :
    finishStream m write taken (none, r) = (some .lengthMismatch, r) := by
  have hcheck : ¬checkCachedBodyLength m (CachedBody.seen r) = true := by
    simp only [checkCachedBodyLength, h.seen, hlimit, Bool.or_eq_true, decide_eq_true_eq,
      beq_iff_eq]
    omega
  rw [finishStream, if_neg hcheck]

/-! ## The whole body -/

def Whole (m : CachedObjectMeta) (s : BodyStream) : Prop :=
  s.ending = none ∧ (s.data.length : ℤ) = m.contentLength

/-- The stream shows that the recorded length is wrong. -/
def Mismatched (m : CachedObjectMeta) (s : BodyStream) : Prop :=
  m.contentLength < s.data.length ∨ s.ending = none ∧ (s.data.length : ℤ) ≠ m.contentLength

/-- What a client and the cache are told about a body of the recorded length. -/
structure Truthful (m : CachedObjectMeta) (s : BodyStream) (res : Served) : Prop where
  complete : (res.body.length : ℤ) = m.contentLength ↔ Whole m s
  bytes : (res.body.length : ℤ) = m.contentLength → res.body = s.data ∧ res.err = none
  incomplete : (res.body.length : ℤ) ≠ m.contentLength →
    res.body = [] ∧ res.committed = false ∧ res.err ≠ none ∨
      (res.body.length : ℤ) < m.contentLength ∧ res.err = none
  invalidates : res.committed = true → Mismatched m s → res.removal = some (.etag m.etag)

theorem Truthful.of_whole {s : BodyStream} {res : Served} (hwhole : Whole m s)
    (hbody : res.body = s.data) (herr : res.err = none) : Truthful m s res where
  complete := by
    rw [hbody]
    exact ⟨fun _ => hwhole, fun h => h.2⟩
  bytes _ := ⟨hbody, herr⟩
  incomplete h := absurd (by rw [hbody, hwhole.2]) h
  invalidates _ h := by
    have hlen := hwhole.2
    rcases h with hover | ⟨_, hne⟩
    · omega
    · exact absurd hlen hne

theorem Truthful.of_failed {s : BodyStream} (hpos : 0 < m.contentLength) (hpart : ¬Whole m s)
    (err : ServeError) : Truthful m s { err := some err } where
  complete := by
    refine ⟨fun h => ?_, fun h => absurd h hpart⟩
    rw [List.length_nil] at h
    omega
  bytes h := by
    rw [List.length_nil] at h
    omega
  incomplete _ := .inl ⟨rfl, rfl, by simp⟩
  invalidates h := by simp at h

theorem Truthful.of_short {s : BodyStream} {body : Bytes} {removal : Option Removal}
    (hbody : (body.length : ℤ) < m.contentLength) (hpart : ¬Whole m s)
    (hremoval : Mismatched m s → removal = some (.etag m.etag)) :
    Truthful m s ⟨none, body, true, removal⟩ where
  complete := ⟨fun h => absurd h hbody.ne, fun h => absurd h hpart⟩
  bytes h := absurd h hbody.ne
  incomplete _ := .inr ⟨hbody, rfl⟩
  invalidates _ := hremoval

theorem serveBuffered_truthful (hwrite : ∀ n, write n = .ok) (hpos : 0 < m.contentLength)
    (s : BodyStream) : Truthful m s (serveBuffered m write taken s) := by
  unfold serveBuffered
  cases hending : s.ending with
  | some e => exact .of_failed hpos (by simp [Whole, hending]) _
  | none =>
    dsimp only
    split_ifs with hempty hlength hwritten
    · refine .of_failed hpos (fun hwhole => ?_) _
      have hlen := hwhole.2
      rw [hempty, List.length_nil] at hlen
      omega
    · refine .of_whole ⟨hending, ?_⟩ rfl rfl
      simp only [checkCachedBodyLength, Bool.or_eq_true, decide_eq_true_eq, beq_iff_eq] at hlength
      omega
    · rw [hwrite 0] at hwritten
      exact absurd rfl hwritten
    · refine .of_failed hpos (fun hwhole => ?_) _
      simp [checkCachedBodyLength, hwhole.2] at hlength

theorem Sound.truthful {s : BodyStream} (h : Sound limit all r) (hlimit : m.contentLength = limit)
    (hpart : ¬Whole m s) {err : ServeError} (herr : Mismatched m s → err = .lengthMismatch) :
    Truthful m s (concludeStream m (some err, r)) := by
  have hlt := h.body_lt
  rw [concludeStream]
  by_cases hcommitted : r.committed = true
  · rw [if_pos hcommitted]
    refine .of_short (by omega) hpart fun hseen => ?_
    rw [herr hseen, if_pos rfl]
  · have hbody : r.body = [] := by
      have hcommits := h.commits
      tauto
    rw [if_neg hcommitted, hbody]
    exact .of_failed (by omega) hpart err

theorem serveStreamed_truthful (hwrite : ∀ n, write n = .ok) (hlimit : m.contentLength = limit)
    (hpos : 0 < limit) (hreturns : refusedError cfg = .lengthMismatch) (s : BodyStream) :
    Truthful m s (serveStreamed cfg m write taken s) := by
  have hstart : Sound limit [] {} := ⟨rfl, Nat.zero_le _, by simp; omega, by simp⟩
  unfold serveStreamed getBodyStream
  rcases hstart.copyChunks hwrite hlimit taken s.chunks with
    ⟨r, hcopied, hsound⟩ | ⟨r, part, hcopied, hsound, hover⟩
  · rw [hcopied, List.nil_append] at *
    have hfits : s.data.length ≤ limit := hsound.fits
    cases hending : s.ending with
    | some e =>
      refine hsound.truthful hlimit (by simp [Whole, hending]) fun hseen => ?_
      rcases hseen with hlong | ⟨hclean, _⟩
      · omega
      · rw [hending] at hclean
        simp at hclean
    | none =>
      rw [Option.map_none]
      by_cases hlength : s.data.length = limit
      · rw [hsound.finishStream_whole hwrite hlimit hlength]
        exact .of_whole ⟨hending, by omega⟩ rfl rfl
      · rw [hsound.finishStream_short hlimit hlength]
        refine hsound.truthful hlimit (fun hwhole => ?_) fun _ => rfl
        have hlen := hwhole.2
        omega
  · rw [hcopied]
    have hlong : limit < s.data.length := hover
    refine hsound.truthful hlimit (fun hwhole => ?_) fun _ => hreturns
    have hlen := hwhole.2
    omega

/-- A body is passed off as complete only when it is: for every recorded length, every
chunking and every ending of the stream, a client that takes what is written has the
recorded number of bytes just when the stream ended with them; else it has an untouched
response and an error, or visibly fewer bytes. `hreturns` is that the stream returns the
error of the writer it was given. -/
theorem served_body_truthful (hpos : 0 < m.contentLength) (hwrite : ∀ n, write n = .ok)
    (hreturns : refusedError cfg = .lengthMismatch) (s : BodyStream) :
    Truthful m s (serveFromCache cfg m write taken s) := by
  unfold serveFromCache
  rw [if_neg hpos.ne']
  split_ifs
  · exact serveBuffered_truthful hwrite hpos s
  · have hlimit : m.contentLength = (m.contentLength.toNat : ℕ) := by omega
    exact serveStreamed_truthful hwrite hlimit (by omega) hreturns s

def cutEntry : CachedObjectMeta where
  key := ascii "key"
  bucket := ascii "bucket"
  etag := ascii "\"v1\""
  contentLength := 70000

def cutStream : BodyStream where
  chunks := [ascii "ab", ascii "c"]

theorem served_body_truthful_cutStream :
    (serveFromCache sampleTiered cutEntry (fun _ => .ok) (fun _ => 0) cutStream).body =
      ascii "abc" ∧
    Truthful cutEntry cutStream
      (serveFromCache sampleTiered cutEntry (fun _ => .ok) (fun _ => 0) cutStream) :=
  ⟨by decide +kernel,
    served_body_truthful (by decide) (fun _ => rfl) (by decide +kernel) cutStream⟩

end

end TagGateway.Proxy.CachedBody
