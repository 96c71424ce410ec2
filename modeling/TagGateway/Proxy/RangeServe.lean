import TagGateway.Cache.RangeStream
import TagGateway.Proxy.BlockServeExact
import TagGateway.Proxy.RangeGrammar
import TagGateway.Proxy.StreamPut

/-!
# Serving a range from a whole cached body

The range is cut to the length the row has. The response is committed by the first byte
that the cache writes, so that a body that is gone leaves it alone. A row whose length is
unknown has no range.
-/
namespace TagGateway.Proxy.RangeServe

open Foundation Cache

inductive ClientWriteError where
  | failed
  | shortWrite
deriving DecidableEq

inductive RangeServeError where
  | stream (e : RangeError ClientWriteError)
  | emptyBody

structure ServedRange where
  served : Bool
  err : Option RangeServeError
  response : ClientResponse

section

variable (env : ServeEnv) (m : CachedObjectMeta)

/-- The writer that commits the response with the first byte; `clock` is the number of the
next write to the client. -/
def lazyCommitWriter (clock : ℕ) : Writer ClientWriteError where
  reply k data :=
    if data = [] then (0, none)
    else
      let reply := env.clientWrite (clock + k)
      let n := min reply.count data.length
      (n, if reply.fails then some .failed else if n ≠ data.length then some .shortWrite else none)
  le k data := by
    by_cases hempty : data = []
    · simp [hempty]
    · simp [hempty]
  full k data := by
    dsimp only
    split_ifs with hempty <;> simp_all

/-- The response once this was written to it. -/
def commitDelivery (rng : ByteRange) (resp : ClientResponse) (d : Delivery) : ClientResponse :=
  if d.sent = [] then resp
  else
    let resp := resp.commitRange env m rng
    { resp with stream := { resp.stream with
        clock := resp.stream.clock + d.calls, written := resp.stream.written ++ d.received } }

def serveRangeFromCache (client : RangeClient ClientWriteError) (range : Bytes)
    (resp : ClientResponse) : ServedRange :=
  match parseRangeHeader range m.contentLength with
  | some [rng] =>
    let (err, d) := Cache.getRangeStreamByKey client (lazyCommitWriter env resp.stream.clock) rng.start
      rng.stop
    let committed := decide (d.sent ≠ [])
    let resp := commitDelivery env m rng resp d
    match err with
    | some e => ⟨committed, some (.stream e), resp⟩
    | none => if committed then ⟨true, none, resp⟩ else ⟨false, some .emptyBody, resp⟩
  | _ => ⟨true, none, writeRangeNotSatisfiable env m resp⟩

end

/-- What the cache writes for a range is of this body. -/
def IntactReads (client : RangeClient ClientWriteError) (body : Bytes) : Prop :=
  ∀ start stop w, ((client start stop).run w {}).2.sent <+: slice body start stop

/-- The answers to a range of a body: none of it is there, the response is left alone, or
the bytes are delivered under the headers that describe them, all of them if no error is
reported. -/
inductive AnswersRange (body : Bytes) (spec : RangeSpec) (resp : ClientResponse) : ServedRange → Prop
  | unsatisfiable {err : Option RangeServeError} {out : ClientResponse} {h : Header}
      (hnone : spec.resolve body.length = none)
      (hstatus : out.committed = resp.committed ++ [(416, h)]) :
      AnswersRange body spec resp ⟨true, err, out⟩
  | unserved {err : Option RangeServeError} : AnswersRange body spec resp ⟨false, err, resp⟩
  | partialContent {err : Option RangeServeError} {out : ClientResponse} {rng : ByteRange} {h : Header}
      {taken : Bytes} (hrange : spec.resolve body.length = some rng)
      (hstatus : out.committed = resp.committed ++ [(206, h)])
      (hcontentRange : h.get (ascii "Content-Range") = ascii "bytes " ++ formatInt rng.start ++
        ascii "-" ++ formatInt rng.stop ++ ascii "/" ++ formatInt body.length)
      (hcontentLength : h.get (ascii "Content-Length") = formatInt (rng.stop - rng.start + 1))
      (hwritten : out.stream.written = resp.stream.written ++ taken)
      (hbytes : taken.Sublist (slice body rng.start rng.stop))
      (hall : err = none → taken = slice body rng.start rng.stop) :
      AnswersRange body spec resp ⟨true, err, out⟩

section

variable {env : ServeEnv} {m : CachedObjectMeta} {body : Bytes} {resp : ClientResponse}
  {client : RangeClient ClientWriteError} {rng : ByteRange}

theorem getRangeStreamByKey_received (hclient : IntactReads client body) (rng : ByteRange)
    (w : Writer ClientWriteError) :
    (Cache.getRangeStreamByKey client w rng.start rng.stop).2.received.Sublist
      (slice body rng.start rng.stop) := by
  unfold Cache.getRangeStreamByKey
  split_ifs with hbyte
  · have hsound := WriteScript.run_sound (Writer.accepting ClientWriteError) (client 0 1) .empty
    have haccepted := WriteScript.run_accepting (client 0 1) (d := {}) rfl
    have hread := hclient 0 1 (.accepting _)
    generalize (client 0 1).run (.accepting ClientWriteError) {} = run at hsound haccepted hread
    obtain ⟨err, buf⟩ := run
    cases err with
    | some e => exact List.nil_sublist _
    | none =>
      dsimp only
      split_ifs
      · exact List.nil_sublist _
      · have hone : slice body 0 0 = (slice body 0 1).take 1 := by
          simp [slice, List.take_take]
        have hwhole : buf.received = buf.sent := hsound.whole haccepted
        rw [hbyte.1, hbyte.2, hone, hwhole]
        exact (List.take_sublist _ _).trans (hread.take 1).sublist
  · have hsound := WriteScript.run_sound w (client rng.start rng.stop) .empty
    have hread := hclient rng.start rng.stop w
    generalize (client rng.start rng.stop).run w {} = run at hsound hread
    obtain ⟨err, d⟩ := run
    cases err with
    | some e => exact hsound.sublist.trans hread.sublist
    | none => exact hsound.sublist.trans hread.sublist

theorem writeRangeNotSatisfiable_committed (env : ServeEnv) (m : CachedObjectMeta)
    (resp : ClientResponse) :
    ∃ h, (writeRangeNotSatisfiable env m resp).committed = resp.committed ++ [(416, h)] :=
  ⟨_, rfl⟩

/-- A range that is read from the header is served as it was read. -/
theorem serveRangeFromCache_range {range : Bytes} {spec : RangeSpec} (hclient : IntactReads client body)
    (hlength : m.contentLength = body.length) (hfits : m.contentLength < int64Bound)
    (hparse : parseRangeHeader range m.contentLength = some [rng])
    (hspec : spec.resolve body.length = some rng) :
    AnswersRange body spec resp (serveRangeFromCache env m client range resp) := by
  obtain ⟨hstart, hle, hstop⟩ := parseRangeHeader_bounds hparse
  have hreceived := getRangeStreamByKey_received hclient rng
    (lazyCommitWriter env resp.stream.clock)
  have hnone : (Cache.getRangeStreamByKey client (lazyCommitWriter env resp.stream.clock)
      rng.start rng.stop).1 = none → _ :=
    getRangeStreamByKey_none hstart hle (by omega) (by omega)
  simp only [serveRangeFromCache, hparse]
  generalize Cache.getRangeStreamByKey client (lazyCommitWriter env resp.stream.clock) rng.start rng.stop =
    result at hreceived hnone ⊢
  obtain ⟨err, d⟩ := result
  by_cases hsent : d.sent = []
  · have hout : commitDelivery env m rng resp d = resp := if_pos hsent
    cases err with
    | some e => simpa [hsent, hout] using AnswersRange.unserved
    | none => simpa [hsent, hout] using AnswersRange.unserved
  · have hout : commitDelivery env m rng resp d =
        { resp.commitRange env m rng with stream := { resp.stream with
            clock := resp.stream.clock + d.calls, written := resp.stream.written ++ d.received } } :=
      if_neg hsent
    have hpartial : ∀ err, (err = none → d.received = slice body rng.start rng.stop) →
        AnswersRange body spec resp ⟨true, err, commitDelivery env m rng resp d⟩ := by
      intro err hall
      refine .partialContent hspec (by rw [hout]; rfl) ?_
        (rangeHeader_contentLength env m rng resp.header) (by rw [hout]) hreceived hall
      rw [rangeHeader_contentRange, hlength]
    cases err with
    | some e => simpa [hsent] using hpartial _ (by simp)
    | none =>
      have hwhole := (hnone rfl).2.1
      have hall := hreceived.eq_of_length (by
        have hslice := length_slice (s := body) hstart (by omega) (hlength ▸ hstop)
        omega)
      simpa [hsent] using hpartial none fun _ => hall

theorem comma_not_mem_text (spec : RangeSpec) : byte ',' ∉ spec.text := by
  have hdigits : ∀ n : Numeral, byte ',' ∉ n.text := fun n hmem =>
    absurd ((RangeSpec.numeral_spec n).2 _ hmem) (by decide)
  have hdash : byte ',' ≠ byte '-' := by decide
  cases spec with
  | firstLast first last => simp [RangeSpec.text, hdigits, hdash]
  | firstOn first => simp [RangeSpec.text, hdigits, hdash]
  | suffix length => simp [RangeSpec.text, hdigits, hdash]

theorem not_suffixWraps {text : Bytes} {total : ℤ} (hfits : total < int64Bound)
    (hplain : PlainRange text) : ¬ SuffixWraps text total := by
  rintro ⟨last, length, hcut, hlength, hwraps⟩
  have hdigits : last.all isDigit = true := hplain.2 last (by simp [numbersOf, hcut])
  have hread := (parsedInt_eq_some.mp hlength).1
  rw [readNumber_digits hdigits] at hread
  split_ifs at hread
  rw [Option.some.injEq] at hread
  omega

/-- The header of one of the three forms is read if its numbers fit. -/
theorem parseRangeHeader_text (spec : RangeSpec) {total : ℤ} (htotal : 0 ≤ total)
    (hfits : total < int64Bound) {r : ByteRange} :
    parseRangeHeader (ascii "bytes=" ++ spec.text) total = some [r] ↔
      spec.resolve total = some r ∧ NumbersFit spec.text := by
  have hplain := spec.plainRange_text
  have hform : ascii "bytes=" ++ spec.text = ascii "bytes" ++ byte '=' :: spec.text := rfl
  have hheader := parseRangeHeader_single (show (ascii "bytes").map lowerByte = _ by decide)
    (comma_not_mem_text spec) total r
  rw [parseRangePart_iff htotal hfits, hplain.1, spec.looseRange_text htotal] at hheader
  simpa [hform, not_suffixWraps hfits hplain] using hheader

/-- A range of a cached body is answered as it should be exactly if the body has no byte of
it, or the length of the row is known and the numbers of the range fit a word. -/
theorem serveRangeFromCache_answers_iff (env : ServeEnv) (store : StoreEnv) {m m' : CachedObjectMeta}
    {src : Source UInt8} {body : Bytes}
    (hput : (store.putWithMetaStreamIfVersion m src).published = some ⟨m', .whole body⟩)
    (hfits : m'.contentLength < int64Bound) {client : RangeClient ClientWriteError}
    (hclient : IntactReads client body) (resp : ClientResponse) (spec : RangeSpec) :
    AnswersRange body spec resp
        (serveRangeFromCache env m' client (ascii "bytes=" ++ spec.text) resp) ↔
      spec.resolve body.length = none ∨ 0 ≤ m'.contentLength ∧ NumbersFit spec.text := by
  obtain ⟨hentry, -, hknown⟩ := StoreEnv.putWithMetaStreamIfVersion_published hput
  obtain ⟨rfl, rfl⟩ : m' = m ∧ body = src.rest := by
    simpa using hentry
  have hrefused : (∀ r, parseRangeHeader (ascii "bytes=" ++ spec.text) m'.contentLength ≠ some [r]) →
      serveRangeFromCache env m' client (ascii "bytes=" ++ spec.text) resp =
        ⟨true, none, writeRangeNotSatisfiable env m' resp⟩ := by
    intro hnone
    unfold serveRangeFromCache
    split
    · exact absurd ‹_› (hnone _)
    · rfl
  obtain ⟨h, hstatus⟩ := writeRangeNotSatisfiable_committed env m' resp
  have hread : ∀ r, parseRangeHeader (ascii "bytes=" ++ spec.text) m'.contentLength = some [r] ↔
      0 ≤ m'.contentLength ∧ spec.resolve src.rest.length = some r ∧ NumbersFit spec.text := by
    intro r
    by_cases hlength : 0 ≤ m'.contentLength
    · rw [parseRangeHeader_text spec hlength hfits, hknown hlength]
      simp [hlength]
    · refine ⟨fun hparse => ?_, fun h => absurd h.1 hlength⟩
      have hbounds := parseRangeHeader_bounds hparse
      omega
  cases hspec : spec.resolve src.rest.length with
  | none =>
    rw [hrefused fun r hparse => by simp [hspec] at hread; exact hread r hparse]
    simpa using AnswersRange.unsatisfiable hspec hstatus
  | some rng =>
    simp only [reduceCtorEq, false_or]
    constructor
    · intro hanswers
      by_contra hcondition
      rw [hrefused fun r hparse => hcondition
        ⟨((hread r).mp hparse).1, ((hread r).mp hparse).2.2⟩] at hanswers
      cases hanswers with
      | unsatisfiable hnone _ => rw [hspec] at hnone; cases hnone
      | partialContent _ hpartial =>
        rw [hstatus] at hpartial
        simp at hpartial
    · rintro ⟨hlength, hnumbers⟩
      exact serveRangeFromCache_range hclient (hknown hlength).symm hfits
        ((hread rng).mpr ⟨hlength, hspec, hnumbers⟩) hspec

end

/-- A cache that has the body. -/
def bodyClient (body : Bytes) : RangeClient ClientWriteError := fun start stop =>
  .write (slice body start stop) fun _ => .done none

theorem intactReads_bodyClient (body : Bytes) : IntactReads (bodyClient body) body := by
  intro start stop w
  simp [bodyClient, WriteScript.run, Writer.write]

def firstTwo : RangeSpec := .firstLast ⟨ascii "0", by decide⟩ ⟨ascii "1", by decide⟩

def threeBytes (contentLength : ℤ) : CachedObjectMeta :=
  { key := ascii "k", bucket := ascii "b", etag := ascii "e", contentLength := contentLength }

/-- The first two of three bytes, of an entry whose length is known. -/
theorem serveRangeFromCache_answers_iff_known :
    AnswersRange [1, 2, 3] firstTwo {} (serveRangeFromCache lostBlockServe (threeBytes 3)
      (bodyClient [1, 2, 3]) (ascii "bytes=0-1") {}) := by
  have hput : (StoreEnv.willing.putWithMetaStreamIfVersion (threeBytes 3)
      ⟨[1, 2, 3], .eof⟩).published = some ⟨threeBytes 3, .whole [1, 2, 3]⟩ := by decide
  refine (serveRangeFromCache_answers_iff lostBlockServe StoreEnv.willing hput (by decide)
    (intactReads_bodyClient _) {} firstTwo).mpr (.inr ⟨by decide, ?_⟩)
  intro t ht v hv
  have hnumber : (numbersOf firstTwo.text).all fun t => (readNumber t).all fun v =>
      decide (-(int64Bound : ℤ) ≤ v) && decide (v < int64Bound) := by decide
  simpa [hv, FitsInt64] using List.all_eq_true.mp hnumber t ht

/-- An entry that was stored without a length has its first bytes refused. -/
theorem unknown_length_refused :
    (StoreEnv.willing.putWithMetaStreamIfVersion (threeBytes (-1)) ⟨[1, 2, 3], .eof⟩).published =
      some ⟨threeBytes (-1), .whole [1, 2, 3]⟩ ∧
    IntactReads (bodyClient [1, 2, 3]) [1, 2, 3] ∧
    firstTwo.text = ascii "0-1" ∧ firstTwo.resolve 3 = some ⟨0, 1⟩ ∧
    ∃ h, (serveRangeFromCache lostBlockServe (threeBytes (-1)) (bodyClient [1, 2, 3])
      (ascii "bytes=0-1") {}).response.committed = [(416, h)] := by
  have hparse : parseRangeHeader (ascii "bytes=0-1") (threeBytes (-1)).contentLength = none := by
    decide
  refine ⟨by decide, intactReads_bodyClient _, by decide, by decide, ?_⟩
  rw [serveRangeFromCache, hparse]
  exact writeRangeNotSatisfiable_committed lostBlockServe (threeBytes (-1)) {}

end TagGateway.Proxy.RangeServe
