import TagGateway.Proxy.DecodedBody

/-!
# Chunked uploads on the wire

The framing as a client writes it: a header line, the data and a line end for each chunk,
and a terminal header line. The reader gives back the data and then the end, with a
verifier or without one, however the reads are cut. On input that stops before the end of
the terminal line no call reports a clean end.
-/
namespace TagGateway.Proxy

open Foundation Auth

/-- A header line: the size in hexadecimal, and the extensions. -/
structure FrameLine where
  digits : Bytes
  extension : Bytes
  digits_ne : digits ≠ []
  hex : ∀ b ∈ digits, (hexValue b).isSome = true
  opened : extension = [] ∨ extension.head? = some (byte ';')
  oneLine : byte '\r' ∉ extension ∧ newline ∉ extension
  short : (digits ++ extension).length ≤ 255

namespace FrameLine

def text (line : FrameLine) : Bytes := line.digits ++ line.extension

def size (line : FrameLine) : ℕ := hexNumber line.digits

def Signed (line : FrameLine) (signature : Bytes) : Prop :=
  line.extension = ascii ";chunk-signature=" ++ signature

instance (line : FrameLine) (signature : Bytes) : Decidable (line.Signed signature) :=
  inferInstanceAs (Decidable (_ = _))

end FrameLine

/-- A chunk and its header line. Lengths are 64-bit integers. -/
structure Chunk where
  line : FrameLine
  data : Bytes
  nonempty : data ≠ []
  sized : line.size = data.length
  fits : data.length < int64Bound

def Chunk.wire (c : Chunk) : Bytes := c.line.text ++ crlf ++ (c.data ++ crlf)

def wireOf (terminal : FrameLine) (chunks : List Chunk) : Bytes :=
  chunks.flatMap Chunk.wire ++ (terminal.text ++ crlf)

def bodyOf (chunks : List Chunk) : Bytes := chunks.flatMap Chunk.data

structure ChunkedUpload where
  chunks : List Chunk
  terminal : FrameLine
  empty : terminal.size = 0

namespace ChunkedUpload

def wire (up : ChunkedUpload) : Bytes := wireOf up.terminal up.chunks

def body (up : ChunkedUpload) : Bytes := bodyOf up.chunks

end ChunkedUpload

/-- With a verifier, every line carries the signature that continues its chain. -/
def Chained (lib : Stdlib) (terminal : FrameLine) : Option ChunkVerifier → List Chunk → Prop
  | none, _ => True
  | some v, [] => terminal.Signed (v.expected lib (lib.sha256 []))
  | some v, c :: cs => c.line.Signed (v.expected lib (lib.sha256 c.data)) ∧
      Chained lib terminal (some { v with previous := v.expected lib (lib.sha256 c.data) }) cs

instance decidableChained (lib : Stdlib) (terminal : FrameLine) :
    ∀ verifier chunks, Decidable (Chained lib terminal verifier chunks)
  | none, _ => .isTrue (by simp [Chained])
  | some v, [] => inferInstanceAs (Decidable (terminal.Signed (v.expected lib (lib.sha256 []))))
  | some v, c :: cs =>
    have := decidableChained lib terminal
      (some { v with previous := v.expected lib (lib.sha256 c.data) }) cs
    inferInstanceAs (Decidable (c.line.Signed (v.expected lib (lib.sha256 c.data)) ∧
      Chained lib terminal (some { v with previous := v.expected lib (lib.sha256 c.data) }) cs))

@[simp] theorem wireOf_nil (terminal : FrameLine) :
    wireOf terminal [] = terminal.text ++ crlf := rfl

theorem wireOf_cons (terminal : FrameLine) (c : Chunk) (chunks : List Chunk) :
    wireOf terminal (c :: chunks) =
      c.line.text ++ crlf ++ (c.data ++ crlf ++ wireOf terminal chunks) := by
  simp [wireOf, Chunk.wire]

@[simp] theorem bodyOf_nil : bodyOf [] = [] := rfl

@[simp] theorem bodyOf_cons (c : Chunk) (chunks : List Chunk) :
    bodyOf (c :: chunks) = c.data ++ bodyOf chunks := rfl

/-! ## Reading one line -/

theorem isGraphic_of_hexValue {b : UInt8} (h : (hexValue b).isSome = true) :
    isGraphic b = true ∧ b ≠ byte ';' := by
  have hall : ∀ n : Fin 256, (hexValue (UInt8.ofFin n)).isSome = true →
      isGraphic (UInt8.ofFin n) = true ∧ UInt8.ofFin n ≠ byte ';' := by
    decide +kernel
  exact hall b.toFin h

theorem trimRight_concat {b : UInt8} {s : Bytes} (h : b ∉ s) : trimRight b (s ++ [b]) = s := by
  have hkept : s.reverse.dropWhile (· = b) = s.reverse := by
    cases hs : s.reverse with
    | nil => rfl
    | cons c t =>
      have hne : c ≠ b := by
        rintro rfl
        exact h (List.mem_reverse.mp (hs ▸ List.mem_cons_self))
      simp [hne]
  rw [trimRight, List.reverse_append, List.reverse_singleton, List.singleton_append,
    List.dropWhile_cons_of_pos (by simp), hkept, List.reverse_reverse]

theorem scanLine_append {line text : Bytes} (htext : newline ∉ text)
    (hshort : (line ++ text).length ≤ maxChunkHeaderLen) (rest : Bytes) :
    scanLine line (text ++ newline :: rest) =
      (.line (trimRight (byte '\r') (line ++ text)), rest) := by
  induction text generalizing line with
  | nil => simp [scanLine]
  | cons b bs ih =>
    have hb : b ≠ newline := fun h => htext (h ▸ List.mem_cons_self)
    simp only [List.length_append, List.length_cons] at hshort
    rw [List.cons_append, scanLine, if_neg hb, if_neg (by simp; omega),
      ih (fun h => htext (List.mem_cons_of_mem b h)) (by simp; omega)]
    simp

theorem scanLine_exhausted {line text : Bytes} (htext : newline ∉ text)
    (hshort : (line ++ text).length ≤ maxChunkHeaderLen) :
    scanLine line text = (.exhausted, []) := by
  induction text generalizing line with
  | nil => rfl
  | cons b bs ih =>
    have hb : b ≠ newline := fun h => htext (h ▸ List.mem_cons_self)
    simp only [List.length_append, List.length_cons] at hshort
    rw [scanLine, if_neg hb, if_neg (by simp; omega)]
    exact ih (fun h => htext (List.mem_cons_of_mem b h)) (by simp; omega)

theorem chunkSignatureExtension_signature {sig : Bytes}
    (hsig : ∀ b ∈ sig, isGraphic b = true ∧ b ≠ byte ';') :
    chunkSignatureExtension (ascii "chunk-signature=" ++ sig) = some sig := by
  have hname : ∀ b ∈ ascii "chunk-signature=", isGraphic b = true ∧ b ≠ byte ';' := by
    decide +kernel
  have hall : ∀ b ∈ ascii "chunk-signature=" ++ sig, isGraphic b = true ∧ b ≠ byte ';' :=
    fun b hb => (List.mem_append.mp hb).elim (hname b) (hsig b)
  have hsplit : (ascii "chunk-signature=" ++ sig).splitOn (byte ';') =
      [ascii "chunk-signature=" ++ sig] :=
    List.splitOnP_eq_singleton fun b hb => by simpa using (hall b hb).2
  rw [chunkSignatureExtension, hsplit]
  simp [trimSpace_of_graphic fun b hb => (hall b hb).1, hasPrefix]

theorem isGraphic_of_mem_hexEncode {b : UInt8} {s : Bytes} (h : b ∈ hexEncode s) :
    isGraphic b = true ∧ b ≠ byte ';' := by
  have hall : ∀ n : Fin 256, (isDigit (UInt8.ofFin n) ||
      (byte 'a' ≤ UInt8.ofFin n && UInt8.ofFin n ≤ byte 'f')) = true →
      (hexValue (UInt8.ofFin n)).isSome = true := by
    decide +kernel
  exact isGraphic_of_hexValue (hall b.toFin (mem_hexEncode h))

namespace FrameLine

variable (line : FrameLine)

theorem not_mem_text : byte '\r' ∉ line.text ∧ newline ∉ line.text := by
  have hdigits : ∀ b, isGraphic b = false → b ∉ line.digits := by
    intro b hb hmem
    have hgraphic := (isGraphic_of_hexValue (line.hex b hmem)).1
    rw [hb] at hgraphic
    cases hgraphic
  simp only [text, List.mem_append, not_or]
  exact ⟨⟨hdigits _ (by decide), line.oneLine.1⟩, hdigits _ (by decide), line.oneLine.2⟩

theorem scanLine_text (rest : Bytes) :
    scanLine [] (line.text ++ crlf ++ rest) = (.line line.text, rest) := by
  have hsplit : line.text ++ crlf ++ rest = line.text ++ [byte '\r'] ++ newline :: rest := by
    simp [crlf]
  have hline : newline ∉ line.text ++ [byte '\r'] := by
    simp only [List.mem_append, not_or]
    exact ⟨line.not_mem_text.2, by decide⟩
  have hshort : ([] ++ (line.text ++ [byte '\r'])).length ≤ maxChunkHeaderLen := by
    have hmost := line.short
    simp only [text, maxChunkHeaderLen, List.length_append, List.length_nil,
      List.length_singleton] at hmost ⊢
    omega
  rw [hsplit, scanLine_append hline hshort, List.nil_append, trimRight_concat line.not_mem_text.1]

theorem parseChunkLine_text (hfits : line.size < int64Bound) :
    parseChunkLine line.text = (.ok (line.size : ℤ), line.extension.drop 1) := by
  have htrim : trimSpace line.digits = line.digits :=
    trimSpace_of_graphic fun b hb => (isGraphic_of_hexValue (line.hex b hb)).1
  have hsemi : byte ';' ∉ line.digits := fun hmem => (isGraphic_of_hexValue (line.hex _ hmem)).2 rfl
  have hparse := parseHexInt_digits line.digits_ne line.hex hfits
  have hcut : (cutAt (byte ';') line.text).getD (line.text, []) =
      (line.digits, line.extension.drop 1) := by
    rcases line.opened with hnone | hsome
    · rw [text, hnone, List.append_nil, cutAt_of_not_mem hsemi]
      rfl
    · obtain ⟨ext, hext⟩ : ∃ ext, line.extension = byte ';' :: ext := by
        cases hline : line.extension with
        | nil =>
          rw [hline] at hsome
          cases hsome
        | cons b ext =>
          rw [hline] at hsome
          exact ⟨ext, by rw [Option.some.inj hsome]⟩
      rw [text, hext, cutAt_append hsemi]
      rfl
  rw [parseChunkLine, hcut]
  dsimp only
  rw [htrim, hparse]
  rfl

theorem Signed.signature {line : FrameLine} {lib : Stdlib} {v : ChunkVerifier} {sum : Bytes}
    (h : line.Signed (v.expected lib sum)) :
    chunkSignatureExtension (line.extension.drop 1) = some (v.expected lib sum) := by
  have hdrop : line.extension.drop 1 = ascii "chunk-signature=" ++ v.expected lib sum := by
    rw [h]
    rfl
  rw [hdrop]
  exact chunkSignatureExtension_signature fun b hb => isGraphic_of_mem_hexEncode hb

end FrameLine

/-! ## Reading a whole upload -/

namespace AwsChunkedReader

section

variable (lib : Stdlib) (terminal : FrameLine) (after : Bytes)

/-- The reader is before a header line, and these chunks follow. -/
structure AtHeader (chunks : List Chunk) (r : AwsChunkedReader) : Prop where
  rest : r.reader.rest = wireOf terminal chunks ++ after
  chain : Chained lib terminal r.verifier chunks
  declared : r.verifier.isSome = true → r.undeclared = (bodyOf chunks).length
  remaining : r.remaining = 0
  done : r.done = false
  err : r.err = none

/-- The reader is inside a chunk of which `data` is left. -/
structure Inside (data : Bytes) (chunks : List Chunk) (r : AwsChunkedReader) : Prop where
  rest : r.reader.rest = data ++ (crlf ++ (wireOf terminal chunks ++ after))
  chain : ∀ v, r.verifier = some v →
    r.chunkSig = v.expected lib (lib.sha256 (r.chunkData ++ data)) ∧
    Chained lib terminal (some { v with previous := r.chunkSig }) chunks
  declared : r.verifier.isSome = true → r.undeclared = (bodyOf chunks).length
  remaining : r.remaining = data.length
  nonempty : data ≠ []
  done : r.done = false
  err : r.err = none

/-- What is still to be delivered. -/
inductive Position : Bytes → AwsChunkedReader → Prop where
  | header {chunks : List Chunk} {r : AwsChunkedReader} (h : r.AtHeader lib terminal after chunks) :
      Position (bodyOf chunks) r
  | inside {data : Bytes} {chunks : List Chunk} {r : AwsChunkedReader}
      (h : r.Inside lib terminal after data chunks) : Position (data ++ bodyOf chunks) r
  | ended {r : AwsChunkedReader} (done : r.done = true) (err : r.err = none) : Position [] r

/-- The call delivers the next bytes, at least one if there is room and the source has it. -/
def Advances (body : Bytes) (call : ReadCall)
    (answer : Bytes × Option ChunkError × AwsChunkedReader) : Prop :=
  ∃ data rest r', answer = (data, none, r') ∧ body = data ++ rest ∧
    Position lib terminal after rest r' ∧ (0 < call.buffer → 0 < call.reply.count → data ≠ [])

end

variable {lib : Stdlib} {terminal : FrameLine} {after : Bytes} {r : AwsChunkedReader}
  {chunks : List Chunk} {data : Bytes}

theorem readChunkHeader_text {line : FrameLine} {rest : Bytes}
    (hrest : r.reader.rest = line.text ++ crlf ++ rest) (hfits : line.size < int64Bound) :
    r.readChunkHeader lib =
      match r.verifier with
      | none => (.ok (), { r with reader := { r.reader with rest := rest } }.enter line.size)
      | some v => { r with reader := { r.reader with rest := rest } }.admitFrame lib v line.size
          (line.extension.drop 1) := by
  rw [readChunkHeader, hrest, line.scanLine_text]
  dsimp only
  rewrite [line.parseChunkLine_text hfits]
  rfl

theorem AtHeader.enters {c : Chunk} (h : r.AtHeader lib terminal after (c :: chunks)) :
    ∃ r', r.readChunkHeader lib = (.ok (), r') ∧ r'.Inside lib terminal after c.data chunks := by
  have hrest := h.rest
  rw [wireOf_cons, List.append_assoc] at hrest
  have hfits : c.line.size < int64Bound := c.sized ▸ c.fits
  have hpos := List.length_pos_of_ne_nil c.nonempty
  have hsize : ¬ ((c.line.size : ℤ) ≤ 0) := by
    rw [c.sized]
    omega
  have hchain := h.chain
  rw [readChunkHeader_text hrest hfits]
  cases hv : r.verifier with
  | none =>
    refine ⟨_, rfl, ?_⟩
    dsimp only
    rw [enter, if_neg hsize]
    exact
      { rest := by simp
        chain := fun v h' => by simp at h'
        declared := by simp
        remaining := by simp [c.sized]
        nonempty := c.nonempty
        done := h.done
        err := h.err }
  | some v =>
    rw [hv] at hchain
    have hdeclared := h.declared (by simp [hv])
    rw [bodyOf_cons, List.length_append] at hdeclared
    dsimp only
    rw [admitFrame, hchain.1.signature]
    dsimp only
    rw [if_neg hsize, if_neg (by rw [c.sized]; omega)]
    refine ⟨_, rfl, ?_⟩
    rw [enter, if_neg hsize]
    refine
      { rest := by simp
        chain := fun v' h' => ?_
        declared := fun _ => ?_
        remaining := by simp [c.sized]
        nonempty := c.nonempty
        done := h.done
        err := h.err }
    · obtain rfl : v = v' := Option.some.inj h'
      exact ⟨rfl, hchain.2⟩
    · dsimp only
      rw [if_pos (by omega), c.sized]
      omega

theorem AtHeader.ends (h : r.AtHeader lib terminal after []) (hempty : terminal.size = 0) :
    ∃ r', r.readChunkHeader lib = (.ok (), r') ∧ r'.done = true ∧ r'.err = none := by
  have hsize : ((terminal.size : ℕ) : ℤ) ≤ 0 := by omega
  have hchain := h.chain
  rw [readChunkHeader_text h.rest (by rw [hempty]; decide)]
  cases hv : r.verifier with
  | none =>
    refine ⟨_, rfl, ?_⟩
    rw [enter, if_pos hsize]
    exact ⟨rfl, h.err⟩
  | some v =>
    rw [hv] at hchain
    have hdeclared := h.declared (by simp [hv])
    have hverify : v.verifyChunk lib (v.expected lib (lib.sha256 [])) (lib.sha256 []) =
        some { v with previous := v.expected lib (lib.sha256 []) } := if_pos rfl
    dsimp only
    rw [admitFrame, hchain.signature]
    dsimp only
    rw [if_pos hsize, hverify]
    dsimp only
    rw [if_neg (by rw [hdeclared]; simp)]
    refine ⟨_, rfl, ?_⟩
    rw [enter, if_pos hsize]
    exact ⟨rfl, h.err⟩

theorem AtHeader.readChunkHeader (h : r.AtHeader lib terminal after chunks)
    (hempty : terminal.size = 0) :
    ∃ r', r.readChunkHeader lib = (.ok (), r') ∧
      (bodyOf chunks = [] ∧ r'.done = true ∧ r'.err = none ∨
        ∃ data more, bodyOf chunks = data ++ bodyOf more ∧
          r'.Inside lib terminal after data more) := by
  cases chunks with
  | nil =>
    obtain ⟨r', hread, hended⟩ := h.ends hempty
    exact ⟨r', hread, .inl ⟨rfl, hended⟩⟩
  | cons c chunks =>
    obtain ⟨r', hread, hinside⟩ := h.enters
    exact ⟨r', hread, .inr ⟨c.data, chunks, rfl, hinside⟩⟩

theorem readTrailingCRLF_append {rest : Bytes} (hrest : r.reader.rest = crlf ++ rest) :
    r.readTrailingCRLF = (.ok (), { r with reader := { r.reader with rest := rest } }) := by
  have hlength : 2 ≤ (crlf ++ rest).length := by simp [crlf]
  rw [readTrailingCRLF, Source.readFull, hrest, if_pos hlength]
  rfl

theorem Inside.readData (h : r.Inside lib terminal after data chunks)
    (hkept : r.verifier.isSome = true → r.remaining ≠ 1) (call : ReadCall) :
    Advances lib terminal after (data ++ bodyOf chunks) call (r.readData call) := by
  have hpos := List.length_pos_of_ne_nil h.nonempty
  have hlimit : r.toRead call.buffer ≤ data.length ∧
      (r.verifier.isSome = true → r.toRead call.buffer < data.length) ∧
      (0 < call.buffer → 0 < r.toRead call.buffer) := by
    unfold toRead
    rw [h.remaining] at hkept ⊢
    cases hv : r.verifier.isSome with
    | false =>
      simp only [Bool.false_and, Bool.false_eq_true, if_false, false_implies, true_and]
      omega
    | true =>
      have hmore := hkept hv
      simp only [Bool.true_and, beq_iff_eq]
      split_ifs <;> omega
  obtain ⟨hmost, hless, hsome⟩ := hlimit
  obtain ⟨n, hn⟩ : ∃ n, n = min (r.toRead call.buffer) call.reply.count := ⟨_, rfl⟩
  have hnle : n ≤ data.length := by omega
  have hleft : r.reader.rest.drop n =
      data.drop n ++ (crlf ++ (wireOf terminal chunks ++ after)) := by
    rw [h.rest, List.drop_append_of_le_length hnle]
  have hread : r.reader.read (r.toRead call.buffer) call.reply =
      (data.take n, none, { r.reader with
        rest := data.drop n ++ (crlf ++ (wireOf terminal chunks ++ after)) }) := by
    rw [Source.read, ← hn, hleft, h.rest, List.take_append_of_le_length hnle]
    simp [crlf]
  have hnonempty : 0 < call.buffer → 0 < call.reply.count → data.take n ≠ [] := by
    intro hbuffer hcount
    apply List.ne_nil_of_length_pos
    have hroom := hsome hbuffer
    rw [List.length_take]
    omega
  rw [AwsChunkedReader.readData, hread]
  dsimp only
  rw [List.length_take_of_le hnle, h.remaining]
  by_cases hall : data.length - n = 0
  · -- without a verifier the line end is read in the same call
    have hnone : r.verifier = none := by
      cases hv : r.verifier with
      | none => rfl
      | some v =>
        have hlt := hless (by simp [hv])
        omega
    have htake : data.take n = data := List.take_of_length_le (by omega)
    have hdrop : data.drop n = [] := List.drop_of_length_le (by omega)
    rw [if_pos hall, hdrop, htake, readTrailingCRLF_append (List.nil_append _)]
    refine ⟨data, bodyOf chunks, _, rfl, rfl, .header ?_, fun _ _ => h.nonempty⟩
    exact
      { rest := rfl
        chain := by simp only [hnone, Chained]
        declared := by simp [hnone]
        remaining := hall
        done := h.done
        err := h.err }
  · rw [if_neg hall]
    refine ⟨data.take n, data.drop n ++ bodyOf chunks, _, rfl, ?_, .inside ?_, hnonempty⟩
    · rw [← List.append_assoc, List.take_append_drop]
    · exact
        { rest := rfl
          chain := fun v hv => by
            have hchain := h.chain v hv
            have hdata : r.chunkData ++ data.take n ++ data.drop n = r.chunkData ++ data := by
              rw [List.append_assoc, List.take_append_drop]
            dsimp only at hv ⊢
            rw [hv, Option.isSome_some, if_pos rfl, hdata]
            exact hchain
          declared := h.declared
          remaining := by simp
          nonempty := List.ne_nil_of_length_pos (by rw [List.length_drop]; omega)
          done := h.done
          err := h.err }

theorem Inside.readVerifiedLastByte (h : r.Inside lib terminal after data chunks)
    (hempty : terminal.size = 0) {v : ChunkVerifier} (hv : r.verifier = some v)
    (hlast : r.remaining = 1) (call : ReadCall) :
    Advances lib terminal after (data ++ bodyOf chunks) call
      (r.readVerifiedLastByte lib v call.buffer) := by
  obtain ⟨last, rfl⟩ := List.length_eq_one_iff.mp (h.remaining.symm.trans hlast)
  obtain ⟨hsig, hchain⟩ := h.chain v hv
  rw [AwsChunkedReader.readVerifiedLastByte]
  split_ifs with hbuffer
  · refine ⟨[], [last] ++ bodyOf chunks, r, rfl, rfl, .inside h, fun hpos => ?_⟩
    omega
  · have hfull : r.reader.readFull 1 = (.ok [last], { r.reader with
        rest := crlf ++ (wireOf terminal chunks ++ after) }) := by
      rw [Source.readFull, h.rest, if_pos (by simp)]
      rfl
    rw [hfull]
    dsimp only
    rw [readTrailingCRLF_append rfl]
    dsimp only
    have hverify : v.verifyChunk lib r.chunkSig (lib.sha256 (r.chunkData ++ [last])) =
        some { v with previous := r.chunkSig } := by
      rw [ChunkVerifier.verifyChunk, ← hsig, if_pos rfl]
    rw [hverify]
    dsimp only
    have hheader : AtHeader lib terminal after chunks
        { r with
          reader := { r.reader with rest := wireOf terminal chunks ++ after }
          verifier := some { v with previous := r.chunkSig }
          remaining := 0
          chunkData := r.chunkData ++ [last] } :=
      { rest := rfl
        chain := hchain
        declared := fun _ => h.declared (by simp [hv])
        remaining := rfl
        done := h.done
        err := h.err }
    obtain ⟨r', hread, hnext⟩ := hheader.readChunkHeader hempty
    rw [hread]
    refine ⟨[last], bodyOf chunks, r', rfl, rfl, ?_, fun _ _ => by simp⟩
    rcases hnext with ⟨hbody, hdone, herr⟩ | ⟨data, more, hbody, hinside⟩
    · rw [hbody]
      exact .ended hdone herr
    · rw [hbody]
      exact .inside hinside

theorem Inside.readChunk (h : r.Inside lib terminal after data chunks)
    (hempty : terminal.size = 0) (call : ReadCall) :
    Advances lib terminal after (data ++ bodyOf chunks) call (r.readChunk lib call) := by
  rw [AwsChunkedReader.readChunk]
  cases hv : r.verifier with
  | none => exact h.readData (by simp [hv]) call
  | some v =>
    dsimp only
    split_ifs with hlast
    · exact h.readVerifiedLastByte hempty hv hlast call
    · exact h.readData (fun _ => hlast) call

/-- One call delivers what comes next, or reports the end when nothing is left. -/
theorem Position.read {body : Bytes} (h : Position lib terminal after body r)
    (hempty : terminal.size = 0) (call : ReadCall) :
    Advances lib terminal after body call (r.read lib call) ∨
      body = [] ∧ ∃ r', r.read lib call = ([], some .eof, r') ∧ r'.done = true ∧ r'.err = none := by
  cases h with
  | @header chunks _ h =>
    obtain ⟨r', hread, hnext⟩ := h.readChunkHeader hempty
    rw [AwsChunkedReader.read, h.err]
    dsimp only
    rw [if_neg (by simp [h.done]), if_pos h.remaining, hread]
    dsimp only
    rcases hnext with ⟨hbody, hdone, herr⟩ | ⟨data, more, hbody, hinside⟩
    · rw [if_pos hdone]
      exact .inr ⟨hbody, r', rfl, hdone, herr⟩
    · rw [if_neg (by simp [hinside.done]), hbody]
      exact .inl (hinside.readChunk hempty call)
  | @inside data chunks _ h =>
    have hpos := List.length_pos_of_ne_nil h.nonempty
    rw [AwsChunkedReader.read, h.err]
    dsimp only
    rw [if_neg (by simp [h.done]), if_neg (by rw [h.remaining]; omega)]
    exact .inl (h.readChunk hempty call)
  | ended hdone herr =>
    rw [AwsChunkedReader.read, herr]
    dsimp only
    rw [if_pos hdone]
    exact .inr ⟨rfl, r, rfl, hdone, herr⟩

/-- All the answers to a sequence of calls, also those after an error. -/
def answers (lib : Stdlib) (r : AwsChunkedReader) : List ReadCall → List (Bytes × Option ChunkError)
  | [] => []
  | call :: calls =>
    match r.read lib call with
    | (data, err, r) => (data, err) :: answers lib r calls

/-- The answers hand out `body` piece by piece and then report the end. -/
def DeliversBody (body : Bytes) (calls : List ReadCall)
    (answers : List (Bytes × Option ChunkError)) : Prop :=
  ∃ (parts : List Bytes) (ends : ℕ), answers =
      parts.map (fun part => (part, none)) ++ List.replicate ends ([], some .eof) ∧
    parts.flatten <+: body ∧ (0 < ends → parts.flatten = body) ∧
    ((∀ call ∈ calls, 0 < call.buffer ∧ 0 < call.reply.count) → body.length < calls.length →
      0 < ends)

theorem answers_of_done (hdone : r.done = true) (herr : r.err = none) (calls : List ReadCall) :
    r.answers lib calls = List.replicate calls.length ([], some .eof) := by
  induction calls with
  | nil => rfl
  | cons call calls ih =>
    have hread : r.read lib call = ([], some .eof, r) := by
      rw [AwsChunkedReader.read, herr]
      exact if_pos hdone
    rw [answers, hread, List.length_cons, List.replicate_succ, ← ih]

theorem Position.answers {body : Bytes} (h : Position lib terminal after body r)
    (hempty : terminal.size = 0) (calls : List ReadCall) :
    DeliversBody body calls (r.answers lib calls) := by
  induction calls generalizing r body with
  | nil => exact ⟨[], 0, rfl, List.nil_prefix, by simp, by simp⟩
  | cons call calls ih =>
    rw [AwsChunkedReader.answers]
    rcases h.read hempty call with ⟨data, rest, r', hread, rfl, hrest, hsome⟩ |
      ⟨rfl, r', hread, hdone, herr⟩
    · obtain ⟨parts, ends, hanswers, hpre, hall, hend⟩ := ih hrest
      rw [hread]
      dsimp only
      refine ⟨data :: parts, ends, by rw [hanswers]; rfl, ?_, ?_, ?_⟩
      · rw [List.flatten_cons]
        exact (List.prefix_append_right_inj data).mpr hpre
      · intro hpos
        rw [List.flatten_cons, hall hpos]
      · intro hcalls hlength
        obtain ⟨hbuffer, hcount⟩ := hcalls call List.mem_cons_self
        have hdata := List.length_pos_of_ne_nil (hsome hbuffer hcount)
        rw [List.length_append, List.length_cons] at hlength
        exact hend (fun c hc => hcalls c (List.mem_cons_of_mem call hc)) (by omega)
    · rw [hread]
      dsimp only
      rw [answers_of_done hdone herr]
      exact ⟨[], calls.length + 1, rfl, List.nil_prefix, fun _ => rfl, fun _ _ => by omega⟩

theorem Position.start (up : ChunkedUpload) (ending : ReadError) {verifier : Option ChunkVerifier}
    (hchain : Chained lib up.terminal verifier up.chunks) :
    Position lib up.terminal after up.body
      (newVerifyingAWSChunkedReader ⟨up.wire ++ after, ending⟩ verifier up.body.length) := by
  apply Position.header
  cases verifier with
  | none =>
    refine ⟨rfl, hchain, fun h => ?_, rfl, rfl, rfl⟩
    cases h
  | some v =>
    refine ⟨rfl, hchain, fun _ => ?_, rfl, rfl, rfl⟩
    simp [newVerifyingAWSChunkedReader, ChunkedUpload.body]

end AwsChunkedReader

/-! ## Input that stops early -/

/-- `input` stops somewhere before the end of `whole`. -/
def Short (input whole : Bytes) : Prop := ∃ lost, lost ≠ [] ∧ input ++ lost = whole

namespace Short

variable {input first second : Bytes}

theorem of_append (h : Short input (first ++ second)) :
    Short input first ∨ ∃ more, input = first ++ more ∧ Short more second := by
  obtain ⟨lost, hne, heq⟩ := h
  rcases List.append_eq_append_iff.mp heq with ⟨gap, hfirst, hlost⟩ | ⟨more, hinput, hsecond⟩
  · rcases eq_or_ne gap [] with rfl | hgap
    · rw [List.append_nil] at hfirst
      exact .inr ⟨[], by simp [hfirst], lost, hne, by simpa using hlost⟩
    · exact .inl ⟨gap, hgap, hfirst.symm⟩
  · exact .inr ⟨more, hinput, lost, hne, hsecond.symm⟩

theorem empty (h : first ≠ []) : Short [] first := ⟨first, h, rfl⟩

theorem length_lt (h : Short input first) : input.length < first.length := by
  obtain ⟨lost, hne, rfl⟩ := h
  have hpos := List.length_pos_of_ne_nil hne
  rw [List.length_append]
  omega

theorem of_append_left (h : Short (first ++ input) (first ++ second)) : Short input second := by
  obtain ⟨lost, hne, heq⟩ := h
  rw [List.append_assoc] at heq
  exact ⟨lost, hne, List.append_cancel_left heq⟩

theorem isPrefix (h : Short input first) : input <+: first := by
  obtain ⟨lost, -, rfl⟩ := h
  exact List.prefix_append input lost

end Short

/-- A line that was not sent to its end is not found. -/
theorem FrameLine.scanLine_short (line : FrameLine) {input : Bytes}
    (h : Short input (line.text ++ crlf)) : scanLine [] input = (.exhausted, []) := by
  have hsplit : line.text ++ crlf = line.text ++ [byte '\r'] ++ [newline] := by simp [crlf]
  have hpre : input <+: line.text ++ [byte '\r'] := by
    have hlength := h.length_lt
    rw [hsplit] at h hlength
    rw [List.length_append, List.length_singleton] at hlength
    exact List.prefix_of_prefix_length_le h.isPrefix (List.prefix_append _ _) (by omega)
  have hmost := line.short
  have hlength := hpre.length_le
  apply scanLine_exhausted
  · intro hmem
    have htext := hpre.subset hmem
    rw [List.mem_append, List.mem_singleton] at htext
    exact htext.elim line.not_mem_text.2 (by decide)
  · simp only [text, maxChunkHeaderLen, List.length_append, List.length_nil,
      List.length_singleton] at hmost hlength ⊢
    omega

namespace AwsChunkedReader

/-- What an unbroken input still has for a reader with `data` left in its chunk. -/
def ahead (terminal : FrameLine) (data : Bytes) (chunks : List Chunk) : Bytes :=
  (if data = [] then [] else data ++ crlf) ++ wireOf terminal chunks

/-- The input stops before the end of the terminal line, or the reader has failed. -/
def Cut (terminal : FrameLine) (r : AwsChunkedReader) : Prop :=
  match r.err with
  | some e => e ≠ .eof
  | none => r.done = false ∧ ∃ data chunks, r.remaining = data.length ∧
      Short r.reader.rest (ahead terminal data chunks)

variable {lib : Stdlib} {terminal : FrameLine} {r r' : AwsChunkedReader} {data : Bytes}
  {chunks : List Chunk}

theorem wireOf_ne_nil (terminal : FrameLine) (chunks : List Chunk) :
    wireOf terminal chunks ≠ [] := by
  simp [wireOf, crlf]

theorem ahead_ne_nil (terminal : FrameLine) (data : Bytes) (chunks : List Chunk) :
    ahead terminal data chunks ≠ [] := by
  simp [ahead, wireOf_ne_nil]

theorem Cut.of_empty (herr : r.err = none) (hdone : r.done = false) (hrest : r.reader.rest = []) :
    r.Cut terminal := by
  rw [Cut, herr]
  refine ⟨hdone, List.replicate r.remaining 0, [], by simp, ?_⟩
  rw [hrest]
  exact .empty (ahead_ne_nil _ _ _)

theorem admitFrame_error {v : ChunkVerifier} {size : ℤ} {ext : Bytes} {e : ChunkError}
    (h : r.admitFrame lib v size ext = (.error e, r')) : r'.err = some e := by
  unfold admitFrame fail at h
  repeat' split at h
  all_goals
    cases h
    try rfl

/-- The reader is inside a chunk that may not be there to its end. -/
structure InsideShort (terminal : FrameLine) (data : Bytes) (chunks : List Chunk)
    (r : AwsChunkedReader) : Prop where
  rest : Short r.reader.rest (data ++ (crlf ++ wireOf terminal chunks))
  remaining : r.remaining = data.length
  nonempty : data ≠ []
  done : r.done = false
  err : r.err = none

theorem InsideShort.cut (h : r.InsideShort terminal data chunks) : r.Cut terminal := by
  rw [Cut, h.err]
  refine ⟨h.done, data, chunks, h.remaining, ?_⟩
  rw [ahead, if_neg h.nonempty, List.append_assoc]
  exact h.rest

/-- A header on such an input is missing, refused, or begins a chunk. -/
theorem readChunkHeader_short {result : Except ChunkError Unit}
    (hread : r.readChunkHeader lib = (result, r'))
    (h : Short r.reader.rest (wireOf terminal chunks)) (hdone : r.done = false)
    (herr : r.err = none) :
    r'.Cut terminal ∧ (result = .ok () → ∃ data chunks, r'.InsideShort terminal data chunks) := by
  have hlost : ∀ line : FrameLine, Short r.reader.rest (line.text ++ crlf) →
      r'.Cut terminal ∧ (result = .ok () → ∃ data chunks, r'.InsideShort terminal data chunks) := by
    intro line hshort
    rw [AwsChunkedReader.readChunkHeader, line.scanLine_short hshort] at hread
    cases hread
    exact ⟨.of_empty herr hdone rfl, fun h => by cases h⟩
  cases chunks with
  | nil => exact hlost terminal h
  | cons c chunks =>
    rw [wireOf_cons, List.append_assoc c.data] at h
    rcases h.of_append with hline | ⟨more, hrest, hmore⟩
    · exact hlost c.line hline
    · have hpos := List.length_pos_of_ne_nil c.nonempty
      have hsize : ¬ ((c.line.size : ℤ) ≤ 0) := by
        rw [c.sized]
        omega
      rw [readChunkHeader_text hrest (c.sized ▸ c.fits)] at hread
      cases hv : r.verifier with
      | none =>
        rw [hv] at hread
        dsimp only at hread
        rw [enter, if_neg hsize, Prod.mk.injEq] at hread
        have hinside : r'.InsideShort terminal c.data chunks := by
          rw [← hread.2]
          exact ⟨hmore, by simp [c.sized], c.nonempty, hdone, herr⟩
        exact ⟨hinside.cut, fun _ => ⟨c.data, chunks, hinside⟩⟩
      | some v =>
        rw [hv] at hread
        dsimp only at hread
        cases result with
        | error e =>
          refine ⟨?_, fun h => by cases h⟩
          rw [Cut, admitFrame_error hread]
          exact admitFrame_ne_eof hread
        | ok u =>
          obtain ⟨sig, -, ⟨hzero, -⟩ | ⟨-, -, hr'⟩⟩ := admitFrame_ok hread
          · exact absurd hzero hsize
          · have hinside : r'.InsideShort terminal c.data chunks := by
              rw [hr']
              exact ⟨hmore, by simp [c.sized], c.nonempty, hdone, herr⟩
            exact ⟨hinside.cut, fun _ => ⟨c.data, chunks, hinside⟩⟩

theorem readTrailingCRLF_error {whole : Bytes} {e : ChunkError}
    (hread : r.readTrailingCRLF = (.error e, r')) (h : Short r.reader.rest (crlf ++ whole))
    (hdone : r.done = false) (herr : r.err = none) : r'.Cut terminal := by
  rcases h.of_append with hline | ⟨more, hrest, -⟩
  · have hlength : ¬ 2 ≤ r.reader.rest.length := not_le.mpr hline.length_lt
    rw [readTrailingCRLF, Source.readFull, if_neg hlength] at hread
    cases hread
    exact .of_empty herr hdone rfl
  · rw [readTrailingCRLF_append hrest] at hread
    cases hread

theorem InsideShort.readData (h : r.InsideShort terminal data chunks) (call : ReadCall) :
    (r.readData call).2.2.Cut terminal := by
  have hmost : r.toRead call.buffer ≤ data.length := by
    rw [← h.remaining, toRead]
    split_ifs <;> omega
  rw [AwsChunkedReader.readData]
  generalize hread : r.reader.read (r.toRead call.buffer) call.reply = answer
  obtain ⟨got, serr, s⟩ := answer
  have happend := Source.read_append hread
  have hlength := Source.read_length hread
  -- what was read is the beginning of the chunk's data
  obtain ⟨left, rfl, hshort⟩ : ∃ left, data = got ++ left ∧
      Short s.rest (left ++ (crlf ++ wireOf terminal chunks)) := by
    obtain ⟨lost, hne, heq⟩ := h.rest
    rw [← happend, List.append_assoc] at heq
    have hpre : got <+: data := List.prefix_of_prefix_length_le ⟨s.rest ++ lost, heq⟩
      (List.prefix_append _ _) (hlength.trans hmost)
    obtain ⟨left, rfl⟩ := hpre
    rw [List.append_assoc] at heq
    exact ⟨left, rfl, lost, hne, List.append_cancel_left heq⟩
  dsimp only
  cases serr with
  | some e =>
    obtain ⟨hall, -⟩ := Source.read_error hread
    rw [← hall] at happend
    exact .of_empty h.err h.done (List.append_right_eq_self.mp happend)
  | none =>
    have hremaining : r.remaining - got.length = left.length := by
      rw [h.remaining, List.length_append]
      omega
    dsimp only
    rw [hremaining]
    by_cases hzero : left.length = 0
    · rw [if_pos hzero]
      obtain rfl := List.length_eq_zero_iff.mp hzero
      split
      · rename_i e q htrail
        exact readTrailingCRLF_error htrail hshort h.done h.err
      · rename_i q htrail
        obtain ⟨s', hcrlf, rfl⟩ := readTrailingCRLF_ok htrail
        dsimp only at hcrlf
        rw [hcrlf] at hshort
        rw [Cut]
        dsimp only
        rw [h.err]
        exact ⟨h.done, [], chunks, rfl, hshort.of_append_left⟩
    · rw [if_neg hzero]
      exact InsideShort.cut ⟨hshort, rfl, List.ne_nil_of_length_pos (by omega), h.done, h.err⟩

theorem InsideShort.readVerifiedLastByte (h : r.InsideShort terminal data chunks)
    (hlast : r.remaining = 1) (v : ChunkVerifier) (buffer : ℕ) :
    (r.readVerifiedLastByte lib v buffer).2.2.Cut terminal := by
  obtain ⟨last, rfl⟩ := List.length_eq_one_iff.mp (h.remaining.symm.trans hlast)
  rw [AwsChunkedReader.readVerifiedLastByte]
  split_ifs
  · exact h.cut
  · split
    · rename_i e s hbyte
      have hempty : s.rest = [] := by
        rw [Source.readFull] at hbyte
        split at hbyte
        · cases hbyte
        · obtain ⟨-, rfl⟩ := Prod.mk.inj hbyte
          rfl
      exact .of_empty h.err h.done hempty
    · rename_i byte s hbyte
      have hshort : Short s.rest (crlf ++ wireOf terminal chunks) := by
        obtain ⟨hrest, hone⟩ := Source.readFull_ok hbyte
        obtain ⟨lost, hne, heq⟩ := h.rest
        rw [hrest, List.append_assoc] at heq
        exact ⟨lost, hne, (List.append_inj heq hone).2⟩
      dsimp only
      split
      · rename_i e q htrail
        exact readTrailingCRLF_error htrail hshort h.done h.err
      · rename_i q htrail
        obtain ⟨s', hcrlf, rfl⟩ := readTrailingCRLF_ok htrail
        dsimp only at hcrlf
        rw [hcrlf] at hshort
        split
        · rw [Cut]
          simp
        · split
          · rename_i e q hheader
            exact (readChunkHeader_short hheader hshort.of_append_left h.done h.err).1
          · rename_i q hheader
            exact (readChunkHeader_short hheader hshort.of_append_left h.done h.err).1

theorem InsideShort.readChunk (h : r.InsideShort terminal data chunks) (call : ReadCall) :
    (r.readChunk lib call).2.2.Cut terminal := by
  rw [AwsChunkedReader.readChunk]
  split
  · rename_i v hv
    split_ifs with hlast
    · exact h.readVerifiedLastByte hlast v call.buffer
    · exact h.readData call
  · exact h.readData call

/-- One call on such an input reports no clean end, and the next one finds the same. -/
theorem Cut.read (lib : Stdlib) (h : r.Cut terminal) (call : ReadCall) :
    (r.read lib call).2.1 ≠ some .eof ∧ (r.read lib call).2.2.Cut terminal := by
  have hcut := h
  rw [Cut] at h
  rw [AwsChunkedReader.read]
  cases herr : r.err with
  | some e =>
    rw [herr] at h
    exact ⟨by simpa using h, hcut⟩
  | none =>
    rw [herr] at h
    obtain ⟨hdone, data, chunks, hremaining, hshort⟩ := h
    dsimp only
    rw [if_neg (by simp [hdone])]
    rw [ahead] at hshort
    by_cases hdata : data = []
    · rw [if_pos hdata, List.nil_append] at hshort
      rw [if_pos (by rw [hremaining, hdata]; rfl)]
      split
      · rename_i e q hheader
        have hnext := readChunkHeader_short hheader hshort hdone herr
        exact ⟨by simpa using readChunkHeader_ne_eof hheader, hnext.1⟩
      · rename_i q hheader
        obtain ⟨data, chunks, hinside⟩ := (readChunkHeader_short hheader hshort hdone herr).2 rfl
        rw [if_neg (by simp [hinside.done])]
        exact ⟨readChunk_ne_eof, hinside.readChunk call⟩
    · have hpos := List.length_pos_of_ne_nil hdata
      rw [if_neg hdata, List.append_assoc] at hshort
      rw [if_neg (by omega)]
      have hinside : r.InsideShort terminal data chunks := ⟨hshort, hremaining, hdata, hdone, herr⟩
      exact ⟨readChunk_ne_eof, hinside.readChunk call⟩

theorem Cut.answers (h : r.Cut terminal) (calls : List ReadCall) :
    ∀ answer ∈ r.answers lib calls, answer.2 ≠ some .eof := by
  induction calls generalizing r with
  | nil => exact fun answer hmem => absurd hmem List.not_mem_nil
  | cons call calls ih =>
    rw [AwsChunkedReader.answers]
    have hread := h.read lib call
    generalize r.read lib call = result at hread
    obtain ⟨data, err, r'⟩ := result
    dsimp only at hread ⊢
    rw [List.forall_mem_cons]
    exact ⟨hread.1, ih hread.2⟩

end AwsChunkedReader

/-- Reading inverts the framing, and takes no other input for a complete one. -/
theorem chunked_reader_inverts_wire (lib : Stdlib) (up : ChunkedUpload)
    {verifier : Option ChunkVerifier} (hchain : Chained lib up.terminal verifier up.chunks)
    (after : Bytes) (ending : ReadError) (calls : List AwsChunkedReader.ReadCall) :
    AwsChunkedReader.DeliversBody up.body calls
      ((newVerifyingAWSChunkedReader ⟨up.wire ++ after, ending⟩ verifier up.body.length).answers lib
        calls) ∧
    ∀ input, Short input up.wire → ∀ (other : Option ChunkVerifier) (declared : ℤ),
      ∀ answer ∈ (newVerifyingAWSChunkedReader ⟨input, ending⟩ other declared).answers lib calls,
        answer.2 ≠ some .eof := by
  refine ⟨(AwsChunkedReader.Position.start up ending hchain).answers up.empty calls, ?_⟩
  intro input hshort other declared
  have hcut : (newVerifyingAWSChunkedReader ⟨input, ending⟩ other declared).Cut up.terminal := by
    cases other with
    | none => exact ⟨rfl, [], up.chunks, rfl, hshort⟩
    | some v => exact ⟨rfl, [], up.chunks, rfl, hshort⟩
  exact hcut.answers calls

def signedFrames : ChunkedUpload where
  chunks := [
    { line := ⟨ascii "2", ascii ";chunk-signature=c4", by decide, by decide +kernel,
        by decide +kernel, by decide +kernel, by decide +kernel⟩
      data := ascii "hi", nonempty := by decide, sized := by decide, fits := by decide },
    { line := ⟨ascii "1", ascii ";chunk-signature=88", by decide, by decide +kernel,
        by decide +kernel, by decide +kernel, by decide +kernel⟩
      data := ascii "!", nonempty := by decide, sized := by decide, fits := by decide }]
  terminal := ⟨ascii "0", ascii ";chunk-signature=5e", by decide, by decide +kernel,
    by decide +kernel, by decide +kernel, by decide +kernel⟩
  empty := by decide

theorem chunked_reader_inverts_signedFrames :
    signedFrames.wire ++ crlf = signedUpload.rest ∧
    AwsChunkedReader.DeliversBody (ascii "hi!") byteReads
      ((newVerifyingAWSChunkedReader signedUpload (some seededVerifier) (3 : ℕ)).answers checksumLib
        byteReads) := by
  have hchain : Chained checksumLib signedFrames.terminal (some seededVerifier)
      signedFrames.chunks := by decide +kernel
  have hwire : signedFrames.wire ++ crlf = signedUpload.rest := by decide +kernel
  have hread := (chunked_reader_inverts_wire checksumLib signedFrames hchain crlf .eof byteReads).1
  rw [hwire] at hread
  exact ⟨hwire, hread⟩

end TagGateway.Proxy
