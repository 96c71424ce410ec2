import TagGateway.Proxy.UnconfirmedMutations
import TagGateway.Proxy.ChunkedBody

/-!
# Multi-object delete in the proxy modes

The handler reads the keys off the request body as the client sent it, invalidates
each, and forwards the request. When there are keys, the answer is held back until
the keys that were deleted have been invalidated again; the range over the map of
keys comes in any order, and it stops to start new ones when the shared deadline is
over. In signing mode the forwarder strips the framing of a streamed body, so that
upstream may see another document than the handler.
-/
namespace TagGateway.Proxy

open Foundation Auth Cache

inductive BulkStep where
  | invalidate (key : Bytes)
  | forward
  | writeHeader (status : ℕ) (header : Header)
  | write (body : Bytes)

def BulkStep.responds : BulkStep → Bool
  | .writeHeader _ _ | .write _ => true
  | .invalidate _ | .forward => false

def BulkStep.ofKey (key : Bytes) : HandlerStep → BulkStep
  | .invalidate => .invalidate key
  | .forward => .forward

structure DeleteObjectsResponseStager where
  header : Header
  statusCode : ℕ

namespace DeleteObjectsResponseStager

def newDeleteObjectsResponseStager : DeleteObjectsResponseStager := ⟨Header.empty, 0⟩

def writeHeader (w : DeleteObjectsResponseStager) (statusCode : ℕ) : DeleteObjectsResponseStager :=
  if w.statusCode = 0 then { w with statusCode := statusCode } else w

/-- The body is not kept: the capture has it. -/
def write (w : DeleteObjectsResponseStager) (_body : Bytes) : DeleteObjectsResponseStager :=
  if w.statusCode = 0 then { w with statusCode := 200 } else w

/-- What `executeAndCapture` leaves in the stager. -/
def receive (w : DeleteObjectsResponseStager) : ForwardResult → DeleteObjectsResponseStager
  | .lost => w
  | .received a =>
    ({ w with header := a.header }.writeHeader a.status).write (a.body.take a.copied)

def commit (w : DeleteObjectsResponseStager) (capture : Option ResponseCapture) : List BulkStep :=
  let headers := if w.header.names = [] then (capture.map (·.headers)).getD w.header else w.header
  let statusCode :=
    if w.statusCode = 0 then (capture.map (·.statusCode)).getD 0 else w.statusCode
  let body := (capture.map (·.body)).getD []
  (if statusCode ≠ 0 then [.writeHeader statusCode headers] else []) ++
    if body ≠ [] then [.write body] else []

theorem commit_responds {w : DeleteObjectsResponseStager} {capture : Option ResponseCapture}
    {step : BulkStep} (h : step ∈ w.commit capture) : step.responds = true := by
  simp only [commit, List.mem_append, List.mem_ite_nil_right, List.mem_singleton] at h
  rcases h with ⟨-, rfl⟩ | ⟨-, rfl⟩
  · rfl
  · rfl

end DeleteObjectsResponseStager

/-- What the handler does not decide: the order of the range over the requested keys,
whether the deadline is over when a key has its turn, and whether the first attempt to
invalidate a key again succeeds. -/
structure BulkEnv where
  order : List Bytes
  expired : Bytes → Bool
  deleted : Bytes → Bool

/-- The order is one of a range over a map with these keys. -/
def BulkEnv.Ranges (env : BulkEnv) (keys : List Bytes) : Prop :=
  env.order.Nodup ∧ ∀ key, key ∈ env.order ↔ key ∈ keys

variable (xml : XmlLib)

/-- The entries whose keys are invalidated before the forward. Without a cache, or if
the body cannot be parsed, there are none. -/
def requestedKeys (cacheEnabled : Bool) (body : Bytes) : List Bytes :=
  if cacheEnabled then (xml.deleteKeys body).getD [] else []

/-- The second invalidations, of the keys with an entry that upstream did not refuse. -/
def bulkDeleteFence (env : BulkEnv) (keys : List Bytes) (result : ForwardResult) : List BulkStep :=
  env.order.flatMap fun key =>
    if Alone.deletedSome xml keys key result && !env.expired key then
      (convergeInvalidation (env.deleted key)).map (BulkStep.ofKey key)
    else []

def streamResponse : ForwardResult → List BulkStep
  | .lost => []
  | .received a => [.writeHeader a.status a.header, .write (a.body.take a.copied)]

/-- What comes of the forward: the response is held back if there are keys. -/
def answerDeleteObjects (env : BulkEnv) (keys : List Bytes) (result : ForwardResult) :
    List BulkStep :=
  if keys = [] then streamResponse result
  else bulkDeleteFence xml env keys result ++
    (DeleteObjectsResponseStager.newDeleteObjectsResponseStager.receive result).commit
      (executeAndCapture result)

def handleDeleteObjects (cacheEnabled : Bool) (env : BulkEnv) (body : Bytes)
    (result : ForwardResult) : List BulkStep :=
  (requestedKeys xml cacheEnabled body).map .invalidate ++
    .forward :: answerDeleteObjects xml env (requestedKeys xml cacheEnabled body) result

/-- A document is read up to the end of its root; what follows does not matter. -/
def XmlLib.StopsAtRoot (xml : XmlLib) : Prop :=
  ∀ body rest errors, xml.errorKeys body = some errors →
    xml.errorKeys (body ++ rest) = some errors

variable {xml} {env : BulkEnv} {body key : Bytes} {keys : List Bytes} {result : ForwardResult}

theorem convergeInvalidation_eq_cons (deleted : Bool) :
    ∃ rest, convergeInvalidation deleted = .invalidate :: rest := by
  cases deleted
  · exact ⟨_, rfl⟩
  · exact ⟨_, rfl⟩

theorem mem_bulkDeleteFence {step : BulkStep} (h : step ∈ bulkDeleteFence xml env keys result) :
    ∃ key ∈ env.order, step = .invalidate key ∧ Alone.deletedSome xml keys key result = true := by
  obtain ⟨key, hkey, hstep⟩ := List.mem_flatMap.mp h
  split_ifs at hstep with hfence
  · obtain ⟨s, hs, rfl⟩ := List.mem_map.mp hstep
    have hinvalidate : s = .invalidate := by
      cases hdeleted : env.deleted key <;> simpa [convergeInvalidation, hdeleted] using hs
    rw [Bool.and_eq_true] at hfence
    exact ⟨key, hkey, by rw [hinvalidate]; rfl, hfence.1⟩
  · exact absurd hstep List.not_mem_nil

theorem mem_answerDeleteObjects {step : BulkStep} (h : step ∈ answerDeleteObjects xml env keys result) :
    (∃ key ∈ env.order, step = .invalidate key ∧ Alone.deletedSome xml keys key result = true) ∨
      step.responds = true := by
  unfold answerDeleteObjects at h
  split_ifs at h
  · right
    cases result with
    | lost => exact absurd h List.not_mem_nil
    | received a =>
      rcases List.mem_pair.mp h with rfl | rfl
      · rfl
      · rfl
  · rcases List.mem_append.mp h with hfence | hcommit
    · exact .inl (mem_bulkDeleteFence hfence)
    · exact .inr (DeleteObjectsResponseStager.commit_responds hcommit)

theorem forward_not_mem_answer : .forward ∉ answerDeleteObjects xml env keys result := by
  intro hmem
  rcases mem_answerDeleteObjects hmem with ⟨k, -, heq, -⟩ | hresponds
  · cases heq
  · exact absurd hresponds (by simp [BulkStep.responds])

theorem invalidate_mem_bulkDeleteFence (hkey : key ∈ env.order)
    (hdeleted : Alone.deletedSome xml keys key result = true) (htime : env.expired key = false) :
    .invalidate key ∈ bulkDeleteFence xml env keys result := by
  apply List.mem_flatMap.mpr
  refine ⟨key, hkey, ?_⟩
  rw [hdeleted, htime]
  obtain ⟨rest, hrest⟩ := convergeInvalidation_eq_cons (env.deleted key)
  simp [hrest, BulkStep.ofKey]

/-- How many of a key's entries upstream refused, against how many there are. -/
theorem count_refused_lt_iff (outcomes : List (Bytes × Bool)) (key : Bytes) :
    outcomes.count (key, true) < (outcomes.map Prod.fst).count key ↔ (key, false) ∈ outcomes := by
  have hsplit : (outcomes.map Prod.fst).count key =
      outcomes.count (key, true) + outcomes.count (key, false) := by
    induction outcomes with
    | nil => rfl
    | cons o outcomes ih =>
      obtain ⟨k, refused⟩ := o
      rw [List.map_cons, List.count_cons, List.count_cons, List.count_cons, ih]
      by_cases hk : k = key
      · subst hk
        cases refused <;> simp <;> omega
      · have hne : ∀ b : Bool, ((k, refused) == (key, b)) = false := by
          intro b
          simp [hk]
        simp [hne, hk]
  rw [hsplit, ← List.count_pos_iff]
  omega

/-- A multi-object delete that upstream answered with success invalidates again, before
it sends a byte to the client, each key with an entry that was not refused, unless the
deadline is over at its turn; and if the answer can be read, no other key. `outcomes`
are the requested entries, with whether upstream refused them. -/
theorem bulk_delete_fences_before_answer (hxml : xml.StopsAtRoot)
    {outcomes : List (Bytes × Bool)} (hkeys : xml.deleteKeys body = some (outcomes.map Prod.fst))
    {a : UpstreamAnswer} (hstatus : isSuccess a.status = true)
    (hlisted : ∀ errors, xml.errorKeys a.body = some errors →
      ∀ key, errors.count key = outcomes.count (key, true))
    (hrange : env.Ranges (outcomes.map Prod.fst)) (key : Bytes) :
    ((key, false) ∈ outcomes → env.expired key = false →
      ∃ before after,
        handleDeleteObjects xml true env body (.received a) =
          before ++ .invalidate key :: after ∧
        .forward ∈ before ∧ ∀ step ∈ before, step.responds = false) ∧
    ((xml.errorKeys (a.body.take a.copied)).isSome = true →
      (∀ o ∈ outcomes, o.1 = key → o.2 = true) →
      ∀ before after,
        handleDeleteObjects xml true env body (.received a) = before ++ .forward :: after →
        .invalidate key ∉ after) := by
  have hrequested : requestedKeys xml true body = outcomes.map Prod.fst := by
    simp [requestedKeys, hkeys]
  have hdecided : ∀ errors, xml.errorKeys (a.body.take a.copied) = some errors →
      (Alone.deletedSome xml (outcomes.map Prod.fst) key (.received a) = true ↔
        (key, false) ∈ outcomes) := by
    intro errors herrors
    have hwhole := hxml _ (a.body.drop a.copied) _ herrors
    rw [List.take_append_drop] at hwhole
    rw [Alone.deletedSome, executeAndCapture]
    simp only [hstatus, herrors, Bool.true_and, decide_eq_true_eq]
    rw [hlisted errors hwhole key, count_refused_lt_iff]
  constructor
  · intro hmem htime
    have hkey : key ∈ outcomes.map Prod.fst := List.mem_map.mpr ⟨_, hmem, rfl⟩
    have hdeleted : Alone.deletedSome xml (outcomes.map Prod.fst) key (.received a) = true := by
      cases herrors : xml.errorKeys (a.body.take a.copied) with
      | none => simp [Alone.deletedSome, executeAndCapture, hstatus, herrors]
      | some errors => exact (hdecided errors herrors).mpr hmem
    have hfence := invalidate_mem_bulkDeleteFence ((hrange.2 key).mpr hkey) hdeleted htime
    obtain ⟨pre, post, hsplit⟩ := List.append_of_mem hfence
    rw [handleDeleteObjects, hrequested, answerDeleteObjects, if_neg (List.ne_nil_of_mem hkey),
      hsplit]
    generalize DeleteObjectsResponseStager.commit _ _ = committed
    refine ⟨(outcomes.map Prod.fst).map .invalidate ++ .forward :: pre, post ++ committed, ?_, ?_, ?_⟩
    · simp only [List.append_assoc, List.cons_append]
    · simp
    · intro step hstep
      rw [List.mem_append, List.mem_cons] at hstep
      rcases hstep with hstep | rfl | hstep
      · obtain ⟨k, -, rfl⟩ := List.mem_map.mp hstep
        rfl
      · rfl
      · have hin : step ∈ bulkDeleteFence xml env (outcomes.map Prod.fst) (.received a) := by
          rw [hsplit]
          exact List.mem_append_left _ hstep
        obtain ⟨k, -, rfl, -⟩ := mem_bulkDeleteFence hin
        rfl
  · intro hparsed hrefused before after hsteps hagain
    obtain ⟨errors, herrors⟩ := Option.isSome_iff_exists.mp hparsed
    have hnot : (key, false) ∉ outcomes := by
      intro hmem
      exact absurd (hrefused _ hmem rfl) (by simp)
    rw [handleDeleteObjects, hrequested] at hsteps
    obtain ⟨-, -, rfl⟩ := (List.append_cons_inj_of_notMem (by simp) forward_not_mem_answer).mp hsteps
    rcases mem_answerDeleteObjects hagain with ⟨k, hk, heq, hdeleted⟩ | hresponds
    · cases heq
      exact hnot ((hdecided errors herrors).mp hdeleted)
    · exact absurd hresponds (by simp [BulkStep.responds])

/-- A decoder that knows one request, of which upstream refuses the second entry. -/
def oneRefusedXml : XmlLib :=
  { sampleXml with
    deleteKeys := fun body => if body = ascii "<Delete>a,b</Delete>" then some [ascii "a", ascii "b"] else none
    errorKeys := fun body =>
      if hasPrefix body (ascii "<DeleteResult>b</DeleteResult>") then some [ascii "b"] else none }

theorem oneRefusedXml_stopsAtRoot : oneRefusedXml.StopsAtRoot := by
  intro body rest errors herrors
  simp only [oneRefusedXml] at herrors ⊢
  split_ifs at herrors with hpre
  rw [if_pos, herrors]
  rw [hasPrefix, List.isPrefixOf_iff_prefix] at hpre ⊢
  exact hpre.trans (List.prefix_append body rest)

theorem bulk_delete_fences_one_refused :
    (∃ before after,
      handleDeleteObjects oneRefusedXml true ⟨[ascii "b", ascii "a"], fun _ => false, fun _ => true⟩
          (ascii "<Delete>a,b</Delete>")
          (.received ⟨200, Header.empty, ascii "<DeleteResult>b</DeleteResult>", 30⟩) =
        before ++ .invalidate (ascii "a") :: after ∧
      .forward ∈ before ∧ ∀ step ∈ before, step.responds = false) :=
  have hkeys : oneRefusedXml.deleteKeys (ascii "<Delete>a,b</Delete>") =
      some ([(ascii "a", false), (ascii "b", true)].map Prod.fst) := by decide +kernel
  (bulk_delete_fences_before_answer oneRefusedXml_stopsAtRoot hkeys (by decide)
    (by
      intro errors herrors key
      have hb : errors = [ascii "b"] := by
        rw [show oneRefusedXml.errorKeys (ascii "<DeleteResult>b</DeleteResult>") =
          some [ascii "b"] by decide +kernel] at herrors
        exact (Option.some.inj herrors).symm
      rw [hb]
      simp [List.count_cons])
    ⟨by decide, by intro key; simp [or_comm]⟩ (ascii "a")).1 (by decide) rfl

/-! ## The document that upstream sees in signing mode -/

def streamChunkVerifier (vr : ValidatedRequest) (bodyHash : Bytes) : Option ChunkVerifier :=
  if bodyHash = ascii "STREAMING-AWS4-HMAC-SHA256-PAYLOAD" then some vr.chunkVerifier else none

def decodedContentLength (h : Header) : ℤ :=
  match parseInt (h.get (ascii "X-Amz-Decoded-Content-Length")) with
  | (n, none) => n
  | (_, some _) => -1

/-- The body that the signing forwarder sends for a validated request, if it does not
fail: a streamed body is decoded up to its end, by any sequence of reads, and has to
have the declared length. A body that is declared empty and not verified is not read. -/
def forwardedBody (lib : Stdlib) (vr : ValidatedRequest) (r : Request) (raw : Bytes)
    (calls : List AwsChunkedReader.ReadCall) : Option Bytes :=
  let bodyHash := r.header.get (ascii "X-Amz-Content-Sha256")
  if isStreamingPayload bodyHash then
    let contentLength := decodedContentLength r.header
    let verifier := streamChunkVerifier vr bodyHash
    if contentLength = 0 ∧ verifier.isNone then some []
    else
      match (newVerifyingAWSChunkedReader ⟨raw, .eof⟩ verifier contentLength).readAll lib calls with
      | (data, some .eof, _) =>
        if contentLength < 0 ∨ (data.length : ℤ) = contentLength then some data else none
      | _ => none
  else some raw

/-- The bytes a document can begin with: white space, and then markup or the mark of
its encoding. -/
def OpensDocument (text : Bytes) : Prop :=
  ∃ space first rest, text = space ++ first :: rest ∧
    (∀ b ∈ space, b ∈ [0x20, 0x09, 0x0D, 0x0A]) ∧ (first = byte '<' ∨ first = 0xEF)

/-- The library reads every well-formed `Delete` document as what it says, which is
`documentKeys`; of other texts nothing is known. -/
def XmlLib.Faithful (xml : XmlLib) (documentKeys : Bytes → Option (List Bytes)) : Prop :=
  ∀ doc keys, documentKeys doc = some keys → xml.deleteKeys doc = some keys

theorem scanLine_eq_line {line input text rest : Bytes}
    (h : scanLine line input = (.line text, rest)) :
    ∃ pre, input = pre ++ newline :: rest ∧ text = trimRight (byte '\r') (line ++ pre) := by
  induction input generalizing line with
  | nil => cases h
  | cons b bs ih =>
    rw [scanLine] at h
    split_ifs at h with hb hlong
    · cases h
      exact ⟨[], by rw [hb]; rfl, by rw [List.append_nil]⟩
    · cases h
    · obtain ⟨pre, hbs, htext⟩ := ih h
      exact ⟨b :: pre, by rw [hbs]; rfl, by rw [htext, List.append_assoc]; rfl⟩

theorem mem_of_mem_trimRight {b c : UInt8} {s : Bytes} (h : c ∈ trimRight b s) : c ∈ s := by
  rw [trimRight, List.mem_reverse] at h
  exact List.mem_reverse.mp ((List.dropWhile_suffix _).mem h)

theorem trimRight_append_cons {b c : UInt8} (hne : c ≠ b) (s t : Bytes) :
    ∃ t', trimRight b (s ++ c :: t) = s ++ c :: t' := by
  have hdrop : ∀ u : Bytes, ∃ u', (u ++ c :: s.reverse).dropWhile (· = b) = u' ++ c :: s.reverse := by
    intro u
    induction u with
    | nil => exact ⟨[], by simp [hne]⟩
    | cons d u ih =>
      rw [List.cons_append, List.dropWhile_cons]
      split_ifs
      · exact ih
      · exact ⟨d :: u, rfl⟩
  obtain ⟨u', hu'⟩ := hdrop t.reverse
  refine ⟨u'.reverse, ?_⟩
  rw [trimRight, List.reverse_append, List.reverse_cons, List.append_assoc, List.singleton_append, hu',
    List.reverse_append, List.reverse_cons, List.reverse_reverse, List.append_assoc]
  rfl

theorem mem_before {c d : UInt8} {space rest x y : Bytes}
    (h : space ++ c :: rest = x ++ d :: y) (hd : d ∉ space) (hne : c ≠ d) : c ∈ x := by
  rcases List.append_eq_append_iff.mp h with ⟨z, rfl, hz⟩ | ⟨z, rfl, hz⟩
  · cases z with
    | nil => exact absurd (List.cons.inj hz).1 hne
    | cons e z =>
      rw [(List.cons.inj hz).1]
      simp
  · cases z with
    | nil => exact absurd (List.cons.inj hz).1.symm hne
    | cons e z =>
      rw [(List.cons.inj hz).1] at hd
      exact absurd hd (by simp)

theorem cutAt_eq_some {sep : UInt8} {s : Bytes} {p : Bytes × Bytes} (h : cutAt sep s = some p) :
    s = p.1 ++ sep :: p.2 := by
  induction s generalizing p with
  | nil => cases h
  | cons b bs ih =>
    rw [cutAt] at h
    split_ifs at h with hb
    · rw [← Option.some.inj h, hb]
      rfl
    · obtain ⟨q, hq, rfl⟩ := Option.map_eq_some_iff.mp h
      rw [ih hq]
      rfl

/-- The text of a frame's header is no beginning of a document. -/
theorem not_opensDocument_of_header {input text rest ext : Bytes} {size : ℤ}
    (hscan : scanLine [] input = (.line text, rest))
    (hparse : parseChunkLine text = (.ok size, ext)) : ¬ OpensDocument input := by
  rintro ⟨space, first, tail, hinput, hspace, hfirst⟩
  obtain ⟨pre, hpre, htext⟩ := scanLine_eq_line hscan
  rw [List.nil_append] at htext
  obtain ⟨sizeStr, hsub, hcut, hsize⟩ : ∃ sizeStr : Bytes, (∀ b ∈ sizeStr, b ∈ text) ∧
      (sizeStr = text ∨ ∃ y, text = sizeStr ++ byte ';' :: y) ∧
      parseHexInt (trimSpace sizeStr) = .ok size := by
    rw [parseChunkLine] at hparse
    cases hcut : cutAt (byte ';') text with
    | none =>
      rw [hcut] at hparse
      exact ⟨text, fun _ => id, .inl rfl, congrArg Prod.fst hparse⟩
    | some p =>
      rw [hcut] at hparse
      have hsplit := cutAt_eq_some hcut
      refine ⟨p.1, fun b hb => ?_, .inr ⟨p.2, hsplit⟩, congrArg Prod.fst hparse⟩
      rw [hsplit]
      exact List.mem_append_left _ hb
  obtain ⟨hne, hchars⟩ := parseHexInt_ok hsize
  rcases List.append_eq_append_iff.mp (hpre.symm.trans hinput) with ⟨z, hz, -⟩ | ⟨z, hz, htail⟩
  · -- the whole line is white space
    obtain ⟨b, hb⟩ := List.exists_mem_of_ne_nil _ hne
    have hin : b ∈ space := by
      rw [hz]
      apply List.mem_append_left
      exact mem_of_mem_trimRight (htext ▸ hsub b (mem_of_mem_trimSpace hb))
    have hno : ∀ b : UInt8, b ∈ [0x20, 0x09, 0x0D, 0x0A] →
        ¬ (b = byte '+' ∨ b = byte '-' ∨ (hexValue b).isSome = true) := by
      intro b hb
      simp only [List.mem_cons, List.not_mem_nil, or_false] at hb
      rcases hb with rfl | rfl | rfl | rfl <;> decide
    exact hno b (hspace b hin) (hchars b hb)
  · -- the line has the first byte of the document
    have hno : ∀ b : UInt8, b = byte '<' ∨ b = 0xEF →
        ¬ (b = byte '+' ∨ b = byte '-' ∨ (hexValue b).isSome = true) ∧
        b ≠ newline ∧ b ≠ byte '\r' ∧ b ≠ byte ';' ∧ ∀ w ∈ spaceEncodings, b ∉ w := by
      rintro b (rfl | rfl) <;> decide
    obtain ⟨hbad, hnewline, hreturn, hsemi, hwords⟩ := hno first hfirst
    obtain ⟨u, rfl⟩ : ∃ u, z = first :: u := by
      cases z with
      | nil => exact absurd (List.cons.inj htail).1 hnewline
      | cons e u => exact ⟨u, by rw [(List.cons.inj htail).1]⟩
    obtain ⟨u', hu'⟩ := trimRight_append_cons hreturn space u
    rw [hz, hu'] at htext
    have hmem : first ∈ sizeStr := by
      rcases hcut with rfl | ⟨y, hy⟩
      · rw [htext]
        simp
      · apply mem_before (htext.symm.trans hy) _ hsemi
        intro hin
        exact absurd (hspace _ hin) (by decide)
    exact hbad (hchars first (mem_trimSpace hwords hmem))

theorem readChunkHeader_line {lib : Stdlib} {r r' : AwsChunkedReader}
    (h : r.readChunkHeader lib = (.ok (), r')) :
    ∃ text left size ext, scanLine [] r.reader.rest = (.line text, left) ∧
      parseChunkLine text = (.ok size, ext) := by
  unfold AwsChunkedReader.readChunkHeader at h
  cases hscan : scanLine [] r.reader.rest with
  | mk scan left =>
    rw [hscan] at h
    cases scan with
    | exhausted | tooLong => cases h
    | line text =>
      dsimp only at h
      cases hparse : parseChunkLine text with
      | mk parsed ext =>
        rw [hparse] at h
        cases parsed with
        | error e => cases h
        | ok size => exact ⟨text, left, size, ext, rfl, hparse⟩

theorem not_opensDocument_of_readAll {lib : Stdlib} {raw data : Bytes}
    {verifier : Option ChunkVerifier} {declared : ℤ} {calls : List AwsChunkedReader.ReadCall}
    {r : AwsChunkedReader}
    (hread : (newVerifyingAWSChunkedReader ⟨raw, .eof⟩ verifier declared).readAll lib calls =
      (data, some .eof, r)) : ¬ OpensDocument raw := by
  generalize hreader : newVerifyingAWSChunkedReader ⟨raw, .eof⟩ verifier declared = start at hread
  have hstart : start.err = none ∧ start.done = false ∧ start.remaining = 0 ∧
      start.reader.rest = raw := by
    rw [← hreader]
    cases verifier
    · exact ⟨rfl, rfl, rfl, rfl⟩
    · exact ⟨rfl, rfl, rfl, rfl⟩
  obtain ⟨herr, hdone, hremaining, hrest⟩ := hstart
  cases calls with
  | nil => cases hread
  | cons call calls =>
    cases hheader : start.readChunkHeader lib with
    | mk result next =>
      cases result with
      | ok _ =>
        obtain ⟨text, left, size, ext, hscan, hparse⟩ := readChunkHeader_line hheader
        rw [hrest] at hscan
        exact not_opensDocument_of_header hscan hparse
      | error e =>
        have hfirst : start.read lib call = ([], some e, next) := by
          rw [AwsChunkedReader.read, herr, hdone, hremaining, hheader]
          rfl
        rw [AwsChunkedReader.readAll, hfirst] at hread
        obtain ⟨-, heof⟩ := Prod.mk.inj hread
        have := (Prod.mk.inj heof).1
        exact absurd (Option.some.inj this) (AwsChunkedReader.readChunkHeader_ne_eof hheader)

def sampleDocument : Bytes := ascii "<Delete><Object><Key>ab</Key></Object></Delete>"

def sampleDocumentKeys (doc : Bytes) : Option (List Bytes) :=
  if doc = sampleDocument then some [ascii "ab"] else none

/-- A decoder for documents without attributes, entities and comments: the text from a
start tag `Key` to the next tag is a key, with its line ends made plain, and text
elsewhere is skipped. -/
def tagXml : XmlLib :=
  { sampleXml with
    deleteKeys := fun text => some ((text.splitOn (byte '<')).filterMap fun piece =>
      if hasPrefix piece (ascii "Key>") then some ((piece.drop 4).filter (· ≠ byte '\r')) else none) }

theorem tagXml_faithful : tagXml.Faithful sampleDocumentKeys := by
  intro doc keys hkeys
  unfold sampleDocumentKeys at hkeys
  split_ifs at hkeys with hdoc
  rw [← Option.some.inj hkeys, hdoc]
  decide +kernel

theorem sampleDocument_opens (doc : Bytes) (keys : List Bytes)
    (h : sampleDocumentKeys doc = some keys) : OpensDocument doc := by
  unfold sampleDocumentKeys at h
  split_ifs at h with hdoc
  exact ⟨[], byte '<', sampleDocument.tail, by rw [hdoc]; decide, by simp, .inl rfl⟩

def deleteRequest (payloadHash : String) : Request :=
  clientRequest "POST" "/b" "delete"
    (Header.empty.set (ascii "X-Amz-Content-Sha256") (ascii payloadHash))

def splitKeyBody : Bytes :=
  ascii "16\r\n<Delete><Object><Key>a\r\n19\r\nb</Key></Object></Delete>\r\n0\r\n\r\n"

end TagGateway.Proxy
