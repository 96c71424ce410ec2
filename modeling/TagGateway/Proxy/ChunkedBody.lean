import Mathlib
import TagGateway.Proxy.ChunkedReader
import TagGateway.Proxy.SigningForward

/-!
# What a verified upload delivers

Whatever the client sends and however the reads are cut: bytes that make up the
declared length, or that are followed by a clean end, are the data of a chain of
frames that verified up to its terminal frame.
-/
namespace TagGateway.Proxy

open Foundation Auth

/-- The header `input` begins with: the size and the signature of the frame, and
what follows the line. -/
def frameHeader (input : Bytes) : Option (ℤ × Bytes × Bytes) :=
  match scanLine [] input with
  | (.line text, rest) =>
    match parseChunkLine text with
    | (.ok size, ext) => (chunkSignatureExtension ext).map fun sig => (size, sig, rest)
    | (.error _, _) => none
  | (.exhausted, _) | (.tooLong, _) => none

def crlf : Bytes := [byte '\r', newline]

/-- `input` begins with these frames, each complete, and `rest` follows them. -/
inductive Framed : Bytes → List Frame → Bytes → Prop where
  | nil (input : Bytes) : Framed input [] input
  | cons {input sig data next rest : Bytes} {frames : List Frame}
      (header : frameHeader input = some ((data.length : ℤ), sig, data ++ crlf ++ next))
      (tail : Framed next frames rest) : Framed input (⟨sig, data⟩ :: frames) rest

def payload (frames : List Frame) : Bytes := frames.flatMap Frame.data

@[simp] theorem payload_append (fs gs : List Frame) : payload (fs ++ gs) = payload fs ++ payload gs :=
  List.flatMap_append

@[simp] theorem payload_singleton (f : Frame) : payload [f] = f.data := by simp [payload]

namespace Framed

variable {input mid mid' rest : Bytes} {fs gs : List Frame}

theorem append (h : Framed input fs mid) (h' : Framed mid gs rest) :
    Framed input (fs ++ gs) rest := by
  induction h with
  | nil => exact h'
  | cons header _ ih => exact .cons header (ih h')

theorem snoc (h : Framed input fs mid) {sig data : Bytes}
    (header : frameHeader mid = some ((data.length : ℤ), sig, data ++ crlf ++ rest)) :
    Framed input (fs ++ [⟨sig, data⟩]) rest :=
  h.append (.cons header (.nil rest))

/-- Of two ways to cut the same input, one goes on where the other stops. -/
theorem compare (h : Framed input fs mid) (h' : Framed input gs mid') :
    (∃ es, gs = fs ++ es ∧ Framed mid es mid') ∨ ∃ es, fs = gs ++ es ∧ Framed mid' es mid := by
  induction h generalizing gs with
  | nil => exact .inl ⟨gs, rfl, h'⟩
  | @cons input sig data next rest frames header tail ih =>
    cases h' with
    | nil => exact .inr ⟨⟨sig, data⟩ :: frames, rfl, .cons header tail⟩
    | @cons _ sig' data' next' _ frames' header' tail' =>
      rw [header, Option.some.injEq, Prod.mk.injEq, Prod.mk.injEq, Int.natCast_inj] at header'
      obtain ⟨hlen, rfl, hbytes⟩ := header'
      rw [List.append_assoc, List.append_assoc] at hbytes
      obtain ⟨rfl, hnext⟩ := List.append_inj hbytes hlen
      obtain rfl := List.append_cancel_left hnext
      rcases ih tail' with ⟨es, rfl, hes⟩ | ⟨es, rfl, hes⟩
      · exact .inl ⟨es, rfl, hes⟩
      · exact .inr ⟨es, rfl, hes⟩

end Framed

/-- A body that verified end to end: frames and a terminal frame, in one chain
from the request's signature, over exactly the declared number of bytes. `left`
was not read. -/
def Authenticated (lib : Stdlib) (v : ChunkVerifier) (input : Bytes) (declared : ℕ)
    (delivered left : Bytes) : Prop :=
  ∃ frames mid size sig, Framed input frames mid ∧ frameHeader mid = some (size, sig, left) ∧
    size ≤ 0 ∧ (v.verifyFrames lib (frames ++ [⟨sig, []⟩])).isSome = true ∧
    (frames.map fun f => f.data.length).sum = declared ∧ delivered = payload frames

namespace AwsChunkedReader

section

variable (lib : Stdlib) (v₀ : ChunkVerifier) (input : Bytes) (declared : ℕ)

/-- The reader is at a header, behind these frames. -/
structure Before (frames : List Frame) (r : AwsChunkedReader) : Prop where
  framed : Framed input frames r.reader.rest
  undeclared : r.undeclared = declared - (payload frames).length
  bound : (payload frames).length ≤ declared
  chain : ∃ v, v₀.verifyFrames lib frames = some v ∧ r.verifier = some v
  remaining : r.remaining = 0
  done : r.done = false
  err : r.err = none

/-- The reader is inside the frame after these, of which it delivered `got`. -/
structure Within (frames : List Frame) (got : Bytes) (r : AwsChunkedReader) : Prop where
  at_frame : ∃ mid, Framed input frames mid ∧
    frameHeader mid = some ((got.length + r.remaining : ℤ), r.chunkSig, got ++ r.reader.rest)
  undeclared : r.undeclared = declared - (payload frames).length - (got.length + r.remaining)
  bound : (payload frames).length + (got.length + r.remaining) ≤ declared
  chain : ∃ v, v₀.verifyFrames lib frames = some v ∧ r.verifier = some v
  remaining : 0 < r.remaining
  data : r.chunkData = got
  done : r.done = false
  err : r.err = none

/-- The terminal frame after these was accepted. -/
structure Ended (frames : List Frame) (r : AwsChunkedReader) : Prop where
  at_frame : ∃ mid size sig, Framed input frames mid ∧
    frameHeader mid = some (size, sig, r.reader.rest) ∧ size ≤ 0 ∧
    (v₀.verifyFrames lib (frames ++ [⟨sig, []⟩])).isSome = true
  total : (payload frames).length = declared
  done : r.done = true
  err : r.err = none

/-- Where the reader can be between two calls. A header is only left for the
next call at the very beginning. -/
inductive Progress : Bytes → AwsChunkedReader → Prop where
  | before {r : AwsChunkedReader} (h : r.Before lib v₀ input declared []) : Progress [] r
  | within {frames : List Frame} {got : Bytes} {r : AwsChunkedReader}
      (h : r.Within lib v₀ input declared frames got) : Progress (payload frames ++ got) r
  | ended {frames : List Frame} {r : AwsChunkedReader}
      (h : r.Ended lib v₀ input declared frames) : Progress (payload frames) r

/-- What was delivered stands in frames that fit the declared length. -/
def Reached (delivered : Bytes) : Prop :=
  ∃ frames got mid, Framed input frames mid ∧ delivered = payload frames ++ got ∧
    (payload frames).length ≤ declared ∧
    (got = [] ∨ ∃ size sig body, frameHeader mid = some (size, sig, body) ∧
      (payload frames).length + size ≤ declared ∧ got <+: body ∧ (got.length : ℤ) ≤ size)

/-- What holds after a call. -/
def Outcome (delivered : Bytes) (err : Option ChunkError) (r : AwsChunkedReader) : Prop :=
  match err with
  | none => Progress lib v₀ input declared delivered r
  | some .eof => Progress lib v₀ input declared delivered r ∧ r.done = true
  | some _ => Reached input declared delivered ∧ (1 ≤ declared → delivered.length < declared)

end

variable {lib : Stdlib} {v₀ : ChunkVerifier} {input : Bytes} {declared : ℕ}
  {r r' : AwsChunkedReader} {frames : List Frame} {got delivered : Bytes}

theorem Progress.reached (h : Progress lib v₀ input declared delivered r) :
    Reached input declared delivered := by
  cases h with
  | before h => exact ⟨[], [], input, .nil input, rfl, Nat.zero_le _, .inl rfl⟩
  | @within frames got _ h =>
    obtain ⟨mid, hframed, hheader⟩ := h.at_frame
    refine ⟨frames, got, mid, hframed, rfl, by have := h.bound; omega, .inr ⟨_, _, _, hheader, ?_⟩⟩
    have hfits := h.bound
    exact ⟨by omega, List.prefix_append _ _, by omega⟩
  | @ended frames _ h =>
    obtain ⟨mid, size, sig, hframed, -⟩ := h.at_frame
    exact ⟨frames, [], mid, hframed, (List.append_nil _).symm, h.total.le, .inl rfl⟩

theorem Within.lt (h : r.Within lib v₀ input declared frames got) :
    (payload frames ++ got).length < declared := by
  have hfits := h.bound
  have hmore := h.remaining
  rw [List.length_append]
  omega

theorem admitFrame_ok {v : ChunkVerifier} {size : ℤ} {ext : Bytes}
    (h : r.admitFrame lib v size ext = (.ok (), r')) :
    ∃ sig, chunkSignatureExtension ext = some sig ∧
      (size ≤ 0 ∧ r.undeclared ≤ 0 ∧ (∃ v', v.verifyChunk lib sig (lib.sha256 []) = some v' ∧
          r' = { r with verifier := some v', chunkSig := sig, chunkData := [], done := true }) ∨
        0 < size ∧ ¬ (0 ≤ r.undeclared ∧ r.undeclared < size) ∧
          r' = { r with
            undeclared := if 0 ≤ r.undeclared then r.undeclared - size else r.undeclared
            chunkSig := sig
            chunkData := []
            remaining := size.toNat }) := by
  unfold admitFrame fail at h
  split at h
  · cases h
  · rename_i sig hsig
    refine ⟨sig, hsig, ?_⟩
    split at h
    · rename_i hsize
      split at h
      · cases h
      · rename_i v' hv'
        split at h
        · cases h
        · rename_i hdeclared
          cases h
          exact .inl ⟨hsize, not_lt.mp hdeclared, v', hv', if_pos hsize⟩
    · rename_i hsize
      split at h
      · cases h
      · rename_i hfits
        cases h
        exact .inr ⟨not_le.mp hsize, hfits, if_neg hsize⟩

theorem admitFrame_ne_eof {v : ChunkVerifier} {size : ℤ} {ext : Bytes} {e : ChunkError}
    (h : r.admitFrame lib v size ext = (.error e, r')) : e ≠ .eof := by
  unfold admitFrame fail at h
  repeat' split at h
  all_goals
    cases h
    try simp

theorem readChunkHeader_ok {v : ChunkVerifier} (hv : r.verifier = some v)
    (h : r.readChunkHeader lib = (.ok (), r')) :
    ∃ size ext left, { r with reader := { r.reader with rest := left } }.admitFrame lib v size ext =
        (.ok (), r') ∧
      ∀ sig, chunkSignatureExtension ext = some sig →
        frameHeader r.reader.rest = some (size, sig, left) := by
  unfold readChunkHeader at h
  unfold frameHeader
  generalize scanLine [] r.reader.rest = scanned at h
  obtain ⟨scan, left⟩ := scanned
  cases scan with
  | exhausted | tooLong => cases h
  | line text =>
    dsimp only at h
    generalize hparse : parseChunkLine text = parsed at h
    obtain ⟨size | size, ext⟩ := parsed
    · cases h
    · dsimp only at h
      split at h
      · rename_i hnone
        cases hv.symm.trans hnone
      · rename_i v' hv'
        obtain rfl : v = v' := Option.some.inj (hv.symm.trans hv')
        refine ⟨size, ext, left, h, fun sig hsig => ?_⟩
        simp only [hparse, hsig, Option.map_some]

theorem readChunkHeader_ne_eof {e : ChunkError}
    (h : r.readChunkHeader lib = (.error e, r')) : e ≠ .eof := by
  unfold readChunkHeader at h
  generalize scanLine [] r.reader.rest = scanned at h
  obtain ⟨scan, left⟩ := scanned
  cases scan with
  | exhausted | tooLong =>
    cases h
    simp
  | line text =>
    dsimp only at h
    generalize parseChunkLine text = parsed at h
    obtain ⟨size | size, ext⟩ := parsed
    · cases h
      simp
    · dsimp only at h
      split at h
      · cases h
      · exact admitFrame_ne_eof h

/-- A header that is accepted begins a frame that fits, or ends the body. -/
theorem Before.readChunkHeader (hb : r.Before lib v₀ input declared frames)
    (h : r.readChunkHeader lib = (.ok (), r')) :
    r'.Within lib v₀ input declared frames [] ∨ r'.Ended lib v₀ input declared frames := by
  obtain ⟨v, hchain, hv⟩ := hb.chain
  have hdeclared := hb.undeclared
  have hbound := hb.bound
  obtain ⟨size, ext, left, hadmit, hheader⟩ := readChunkHeader_ok hv h
  obtain ⟨sig, hsig, hterminal | hframe⟩ := admitFrame_ok hadmit
  · obtain ⟨hsize, hnone, v', hv', rfl⟩ := hterminal
    right
    constructor
    · refine ⟨_, size, sig, hb.framed, hheader sig hsig, hsize, ?_⟩
      rw [ChunkVerifier.verifyFrames_snoc lib hchain, hv']
      rfl
    · dsimp only at hnone
      omega
    · rfl
    · exact hb.err
  · obtain ⟨hsize, hfits, rfl⟩ := hframe
    dsimp only at hfits
    have hcast : ((size.toNat : ℕ) : ℤ) = size := Int.toNat_of_nonneg hsize.le
    left
    constructor
    · refine ⟨_, hb.framed, ?_⟩
      rw [hheader sig hsig]
      simp [hcast]
    · dsimp only
      rw [if_pos (by omega), List.length_nil]
      omega
    · simp only [List.length_nil]
      omega
    · exact ⟨v, hchain, hv⟩
    · dsimp only
      omega
    · rfl
    · exact hb.done
    · exact hb.err

theorem readTrailingCRLF_ok (h : r.readTrailingCRLF = (.ok (), r')) :
    ∃ s, r.reader.rest = crlf ++ s.rest ∧ r' = { r with reader := s } := by
  unfold readTrailingCRLF at h
  split at h
  · cases h
  · rename_i buf s hread
    split at h
    · rename_i hbuf
      cases h
      obtain ⟨hrest, -⟩ := Source.readFull_ok hread
      rw [hbuf] at hrest
      exact ⟨s, hrest, rfl⟩
    · cases h

theorem readTrailingCRLF_ne_eof {e : ChunkError}
    (h : r.readTrailingCRLF = (.error e, r')) : e ≠ .eof := by
  unfold readTrailingCRLF at h
  split at h
  · cases h
    simp
  · split at h
    · cases h
    · cases h
      simp

theorem truncatedOr_ne_eof (e : ReadError) : truncatedOr e ≠ .eof := by
  unfold truncatedOr
  split_ifs <;> simp

theorem Within.stopped (h : r.Within lib v₀ input declared frames got) {e : ChunkError}
    (he : e ≠ .eof) : Outcome lib v₀ input declared (payload frames ++ got) (some e) r' := by
  have hstop : Reached input declared (payload frames ++ got) ∧
      (1 ≤ declared → (payload frames ++ got).length < declared) :=
    ⟨(Progress.within h).reached, fun _ => h.lt⟩
  cases e <;> first | exact absurd rfl he | exact hstop

theorem Within.complete (h : r.Within lib v₀ input declared frames got) {v v' : ChunkVerifier}
    (hv : r.verifier = some v) (hlast : r.remaining = 1) {last left : Bytes}
    (hone : last.length = 1) (hrest : r.reader.rest = last ++ crlf ++ left)
    (hverify : v.verifyChunk lib r.chunkSig (lib.sha256 (got ++ last)) = some v')
    (hreader : r'.reader.rest = left) (hverifier : r'.verifier = some v')
    (hremaining : r'.remaining = 0) (hundeclared : r'.undeclared = r.undeclared)
    (hdone : r'.done = false) (herr : r'.err = none) :
    r'.Before lib v₀ input declared (frames ++ [⟨r.chunkSig, got ++ last⟩]) := by
  obtain ⟨mid, hframed, hheader⟩ := h.at_frame
  obtain ⟨w, hchain, hw⟩ := h.chain
  obtain rfl : v = w := Option.some.inj (hv.symm.trans hw)
  have hdeclared := h.undeclared
  have hbound := h.bound
  constructor
  · apply hframed.snoc
    rw [hheader, hrest, hreader, hlast, List.length_append, hone]
    simp
  · rw [hundeclared, hdeclared, hlast, payload_append, payload_singleton, List.length_append,
      List.length_append, hone]
    omega
  · rw [payload_append, payload_singleton, List.length_append, List.length_append, hone]
    omega
  · refine ⟨v', ?_, hverifier⟩
    rw [ChunkVerifier.verifyFrames_snoc lib hchain, hverify]
  · exact hremaining
  · exact hdone
  · exact herr

theorem Within.readVerifiedLastByte (h : r.Within lib v₀ input declared frames got)
    {v : ChunkVerifier} (hv : r.verifier = some v) (hlast : r.remaining = 1) {buffer : ℕ}
    {data : Bytes} {err : Option ChunkError}
    (hread : r.readVerifiedLastByte lib v buffer = (data, err, r')) :
    Outcome lib v₀ input declared (payload frames ++ got ++ data) err r' := by
  unfold AwsChunkedReader.readVerifiedLastByte at hread
  split at hread
  · cases hread
    rw [List.append_nil]
    exact Progress.within h
  · split at hread
    · cases hread
      simpa using h.stopped (truncatedOr_ne_eof _)
    · rename_i last s hbyte
      obtain ⟨hrest, hone⟩ := Source.readFull_ok hbyte
      dsimp only at hread
      split at hread
      · rename_i e r₁ htrail
        cases hread
        simpa using h.stopped (readTrailingCRLF_ne_eof htrail)
      · rename_i r₁ htrail
        obtain ⟨s', hcrlf, rfl⟩ := readTrailingCRLF_ok htrail
        split at hread
        · cases hread
          simpa using h.stopped (e := .chunkMismatch) (by simp)
        · rename_i v' hverify
          split at hread
          · rename_i e r₂ hheader
            cases hread
            simpa using h.stopped (readChunkHeader_ne_eof hheader)
          · rename_i r₂ hheader
            cases hread
            dsimp only at hcrlf hverify
            rw [hcrlf, ← List.append_assoc] at hrest
            rw [h.data] at hverify
            have hbefore : Before lib v₀ input declared (frames ++ [⟨r.chunkSig, got ++ data⟩])
                { r with
                  reader := s'
                  verifier := some v'
                  remaining := 0
                  chunkData := r.chunkData ++ data } :=
              h.complete hv hlast hone hrest hverify rfl rfl rfl rfl h.done h.err
            have hpayload : payload (frames ++ [⟨r.chunkSig, got ++ data⟩]) =
                payload frames ++ got ++ data := by
              rw [payload_append, payload_singleton, List.append_assoc]
            rw [← hpayload]
            rcases hbefore.readChunkHeader hheader with hwithin | hended
            · have hprogress := Progress.within hwithin
              rwa [List.append_nil] at hprogress
            · exact Progress.ended hended

theorem toRead_lt {v : ChunkVerifier} (hv : r.verifier = some v) (hpos : 0 < r.remaining)
    (buffer : ℕ) : r.toRead buffer < r.remaining := by
  unfold toRead
  rw [hv, Option.isSome_some, Bool.true_and]
  split_ifs with hall
  · omega
  · simp only [beq_iff_eq] at hall
    omega

theorem Within.readData (h : r.Within lib v₀ input declared frames got)
    {call : ReadCall} {data : Bytes} {err : Option ChunkError}
    (hread : r.readData call = (data, err, r')) :
    Outcome lib v₀ input declared (payload frames ++ got ++ data) err r' := by
  obtain ⟨v, hchain, hv⟩ := h.chain
  obtain ⟨mid, hframed, hheader⟩ := h.at_frame
  have hless := toRead_lt hv h.remaining call.buffer
  unfold AwsChunkedReader.readData at hread
  generalize hsource : r.reader.read (r.toRead call.buffer) call.reply = answer at hread
  obtain ⟨bytes, serr, s⟩ := answer
  have happend := Source.read_append hsource
  have hlength := Source.read_length hsource
  have hwithin : Within lib v₀ input declared frames (got ++ bytes)
      { r with
        reader := s
        remaining := r.remaining - bytes.length
        chunkData := if r.verifier.isSome then r.chunkData ++ bytes else r.chunkData } := by
    have hdeclared := h.undeclared
    have hbound := h.bound
    constructor
    · refine ⟨mid, hframed, hheader.trans ?_⟩
      rw [List.append_assoc, happend, List.length_append]
      congr 2
      push_cast
      omega
    · rw [List.length_append]
      dsimp only
      omega
    · rw [List.length_append]
      dsimp only
      omega
    · exact ⟨v, hchain, hv⟩
    · dsimp only
      omega
    · dsimp only
      rw [hv, h.data]
      rfl
    · exact h.done
    · exact h.err
  rw [List.append_assoc]
  dsimp only at hread
  split at hread
  · cases hread
    exact hwithin.stopped (truncatedOr_ne_eof _)
  · split at hread
    · omega
    · cases hread
      exact Progress.within hwithin

theorem Within.readChunk (h : r.Within lib v₀ input declared frames got)
    {call : ReadCall} {data : Bytes} {err : Option ChunkError}
    (hread : r.readChunk lib call = (data, err, r')) :
    Outcome lib v₀ input declared (payload frames ++ got ++ data) err r' := by
  unfold AwsChunkedReader.readChunk at hread
  split at hread
  · rename_i v hv
    split at hread
    · rename_i hlast
      exact h.readVerifiedLastByte hv hlast hread
    · exact h.readData hread
  · exact h.readData hread

theorem Progress.read (h : Progress lib v₀ input declared delivered r)
    {call : ReadCall} {data : Bytes} {err : Option ChunkError}
    (hread : r.read lib call = (data, err, r')) :
    Outcome lib v₀ input declared (delivered ++ data) err r' := by
  unfold AwsChunkedReader.read at hread
  cases h with
  | before h =>
    simp only [h.err, h.done, h.remaining, if_true, Bool.false_eq_true, if_false] at hread
    split at hread
    · rename_i e r₁ hheader
      cases hread
      have hstop : Reached input declared [] ∧ (1 ≤ declared → ([] : Bytes).length < declared) :=
        ⟨(Progress.before h).reached, id⟩
      have hne := readChunkHeader_ne_eof hheader
      cases e <;> first | exact absurd rfl hne | exact hstop
    · rename_i r₁ hheader
      rcases h.readChunkHeader hheader with hwithin | hended
      · simp only [hwithin.done, Bool.false_eq_true, if_false] at hread
        exact hwithin.readChunk hread
      · simp only [hended.done, if_true] at hread
        cases hread
        exact ⟨Progress.ended hended, hended.done⟩
  | within h =>
    have hpos : r.remaining ≠ 0 := h.remaining.ne'
    simp only [h.err, h.done, hpos, Bool.false_eq_true, if_false] at hread
    exact h.readChunk hread
  | ended h =>
    simp only [h.err, h.done, if_true] at hread
    cases hread
    rw [List.append_nil]
    exact ⟨Progress.ended h, h.done⟩

theorem Progress.readAll (h : Progress lib v₀ input declared delivered r) (calls : List ReadCall) :
    Outcome lib v₀ input declared (delivered ++ (r.readAll lib calls).1)
      (r.readAll lib calls).2.1 (r.readAll lib calls).2.2 := by
  induction calls generalizing r delivered with
  | nil =>
    rw [AwsChunkedReader.readAll, List.append_nil]
    exact h
  | cons call calls ih =>
    rw [AwsChunkedReader.readAll]
    generalize hread : r.read lib call = answer
    obtain ⟨data, err, r₁⟩ := answer
    have houtcome := h.read hread
    cases err with
    | some e => exact houtcome
    | none =>
      have hrest := ih houtcome
      rw [List.append_assoc] at hrest
      exact hrest

theorem Outcome.reached {err : Option ChunkError}
    (h : Outcome lib v₀ input declared delivered err r) : Reached input declared delivered := by
  unfold Outcome at h
  split at h
  · exact h.reached
  · exact h.1.reached
  · exact h.1

/-- A reader that has delivered the declared length, or reported the end, is past
the terminal frame. -/
theorem Outcome.authenticated {err : Option ChunkError}
    (h : Outcome lib v₀ input declared delivered err r)
    (hall : 1 ≤ declared ∧ delivered.length = declared ∨ err = some .eof) :
    Authenticated lib v₀ input declared delivered r.reader.rest := by
  have hended : ∀ frames, r.Ended lib v₀ input declared frames →
      Authenticated lib v₀ input declared (payload frames) r.reader.rest := by
    intro frames hr
    obtain ⟨mid, size, sig, hframed, hheader, hsize, hchain⟩ := hr.at_frame
    refine ⟨frames, mid, size, sig, hframed, hheader, hsize, hchain, ?_, rfl⟩
    rw [← hr.total, payload, List.length_flatMap]
  unfold Outcome at h
  split at h
  · have hlength : 1 ≤ declared ∧ delivered.length = declared := by simpa using hall
    cases h with
    | before h => exact absurd hlength.2 (by rw [List.length_nil]; omega)
    | within h => exact absurd hlength.2 h.lt.ne
    | @ended frames _ h => exact hended frames h
  · obtain ⟨hprogress, hdone⟩ := h
    cases hprogress with
    | before h => exact absurd hdone (by simp [h.done])
    | within h => exact absurd hdone (by simp [h.done])
    | @ended frames _ h => exact hended frames h
  · rename_i e hne
    rcases hall with hlength | heof
    · exact absurd hlength.2 (h.2 hlength.1).ne
    · exact absurd (Option.some.inj heof) hne

end AwsChunkedReader

theorem AwsChunkedReader.Progress.start (lib : Stdlib) (v : ChunkVerifier) (source : Source UInt8)
    (declared : ℕ) : AwsChunkedReader.Progress lib v source.rest declared []
      (newVerifyingAWSChunkedReader source (some v) declared) := by
  apply AwsChunkedReader.Progress.before
  constructor
  · exact .nil _
  · simp [newVerifyingAWSChunkedReader, payload]
  · exact Nat.zero_le _
  · exact ⟨v, rfl, rfl⟩
  · rfl
  · rfl
  · rfl

/-- What was delivered ends before a frame that does not fit. -/
theorem AwsChunkedReader.Reached.isPrefix {input delivered : Bytes} {declared : ℕ}
    (h : AwsChunkedReader.Reached input declared delivered) {frames : List Frame} {mid sig body : Bytes}
    {size : ℤ} (hframed : Framed input frames mid) (hheader : frameHeader mid = some (size, sig, body))
    (hover : declared - (payload frames).length < size) : delivered <+: payload frames := by
  obtain ⟨fs, got, mid', hfs, rfl, hbound, hgot⟩ := h
  rcases hfs.compare hframed with ⟨es, rfl, hes⟩ | ⟨es, rfl, hes⟩
  · rw [payload_append, List.prefix_append_right_inj]
    rcases hgot with rfl | ⟨size', sig', body', hheader', hfits, hpre, hlen⟩
    · exact List.nil_prefix
    · cases hes with
      | nil =>
        -- the frame that was read from is the one that does not fit
        obtain ⟨rfl, -⟩ := Prod.mk.inj (Option.some.inj (hheader'.symm.trans hheader))
        simp only [List.append_nil] at hover
        omega
      | @cons _ sig data next _ frames' header tail =>
        obtain ⟨rfl, hrest⟩ := Prod.mk.inj (Option.some.inj (hheader'.symm.trans header))
        obtain ⟨-, rfl⟩ := Prod.mk.inj hrest
        rw [List.append_assoc] at hpre
        have hdata : got <+: data := List.prefix_of_prefix_length_le hpre
          (List.prefix_append _ _) (by omega)
        exact hdata.trans (List.prefix_append _ _)
  · cases hes with
    | nil =>
      rcases hgot with rfl | ⟨size', sig', body', hheader', hfits, hpre, hlen⟩
      · simp
      · obtain ⟨rfl, -⟩ := Prod.mk.inj (Option.some.inj (hheader'.symm.trans hheader))
        simp only [List.append_nil] at hfits
        omega
    | @cons _ sig data next _ frames' header tail =>
      obtain ⟨rfl, -⟩ := Prod.mk.inj (Option.some.inj (header.symm.trans hheader))
      simp only [payload_append, List.length_append] at hbound
      simp only [payload, List.flatMap_cons, List.length_append] at hbound hover
      omega

theorem verified_body_authenticated (lib : Stdlib) (v : ChunkVerifier) (source : Source UInt8)
    (declared : ℕ) {calls : List AwsChunkedReader.ReadCall} {delivered : Bytes}
    {err : Option ChunkError} {r : AwsChunkedReader}
    (hread : (newVerifyingAWSChunkedReader source (some v) declared).readAll lib calls =
      (delivered, err, r)) :
    (1 ≤ declared ∧ delivered.length = declared ∨ err = some .eof →
      Authenticated lib v source.rest declared delivered r.reader.rest) ∧
    ∀ frames mid size sig body, Framed source.rest frames mid →
      frameHeader mid = some (size, sig, body) → declared - (payload frames).length < size →
      delivered <+: payload frames := by
  have houtcome := (AwsChunkedReader.Progress.start lib v source declared).readAll calls
  rw [hread, List.nil_append] at houtcome
  refine ⟨houtcome.authenticated, ?_⟩
  intro frames mid size sig body hframed hheader hover
  exact houtcome.reached.isPrefix hframed hheader hover

/-- A platform whose hashes fit a header line. -/
def checksumLib : Stdlib :=
  { plainLib with hmacSHA256 := fun key data => [(key ++ data).sum], sha256 := fun data => [data.sum] }

def seededVerifier : ChunkVerifier := ⟨ascii "key", ascii "scope", ascii "seed"⟩

/-- Two chunks and the terminal frame, with what the client still sends after it. -/
def signedUpload : Source UInt8 where
  rest := ascii "2;chunk-signature=c4\r\nhi\r\n1;chunk-signature=88\r\n!\r\n0;chunk-signature=5e\r\n\r\n"
  ending := .eof

/-- Buffers of one byte: the third call delivers the last declared byte. -/
def byteReads : List AwsChunkedReader.ReadCall := List.replicate 3 ⟨1, ⟨1, false⟩⟩

theorem verified_body_authenticated_signedUpload :
    ∃ r, (newVerifyingAWSChunkedReader signedUpload (some seededVerifier) (3 : ℕ)).readAll checksumLib
        byteReads = (ascii "hi!", none, r) ∧
      Authenticated checksumLib seededVerifier signedUpload.rest 3 (ascii "hi!") r.reader.rest := by
  obtain ⟨out, hout⟩ : ∃ out, (newVerifyingAWSChunkedReader signedUpload (some seededVerifier)
      (3 : ℕ)).readAll checksumLib byteReads = out := ⟨_, rfl⟩
  have hread : out.1 = ascii "hi!" ∧ out.2.1 = none := by
    rw [← hout]
    decide +kernel
  obtain ⟨delivered, err, r⟩ := out
  dsimp only at hread
  rw [hread.1, hread.2] at hout
  exact ⟨r, hout, (verified_body_authenticated checksumLib seededVerifier signedUpload 3 hout).1
    (.inl ⟨by decide, by decide +kernel⟩)⟩

end TagGateway.Proxy
