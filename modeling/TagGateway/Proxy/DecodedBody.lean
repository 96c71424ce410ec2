import TagGateway.Proxy.ChunkedBody
import TagGateway.Proxy.LocalStore

/-!
# The object in the body of an upload

What a request body carries, stated without a reader: the bytes themselves, or the data
of its chunks up to the empty one. A reader that reports a clean end before its limit
has delivered exactly that, however the reads were cut. With a verifier, the chain of
the chunks was verified up to the terminal frame.
-/
namespace TagGateway.Proxy

open Foundation Auth

/-- The size in the chunk header that `input` begins with, and what follows the line. -/
def chunkHeader (input : Bytes) : Option (ℤ × Bytes) :=
  match scanLine [] input with
  | (.line text, rest) =>
    match (parseChunkLine text).1 with
    | .ok size => some (size, rest)
    | .error _ => none
  | (.exhausted, _) | (.tooLong, _) => none

/-- `input` carries `body` in chunks, each complete, up to an empty one. -/
inductive Carries : Bytes → Bytes → Prop where
  | terminal {input rest : Bytes} {size : ℤ} (header : chunkHeader input = some (size, rest))
      (empty : size ≤ 0) : Carries input []
  | chunk {input data next body : Bytes}
      (header : chunkHeader input = some ((data.length : ℤ), data ++ crlf ++ next))
      (nonempty : data ≠ []) (tail : Carries next body) : Carries input (data ++ body)

/-- The object that a PUT carries: the data of its chunks when it is streamed, and
otherwise its bytes up to a clean end. -/
def PutRequest.CarriesObject (r : PutRequest) (object : Bytes) : Prop :=
  if r.streaming then Carries r.body.rest object
  else r.body.ending = .eof ∧ object = r.body.rest

namespace AwsChunkedReader

variable {lib : Stdlib} {r r' : AwsChunkedReader} {body data : Bytes} {err : Option ChunkError}

/-- What the reader still has to deliver. -/
def Pending (r : AwsChunkedReader) (body : Bytes) : Prop :=
  if r.done then body = []
  else if r.remaining = 0 then Carries r.reader.rest body
  else ∃ data more next, body = data ++ more ∧ data.length = r.remaining ∧
    r.reader.rest = data ++ crlf ++ next ∧ Carries next more

theorem pending_of_done (hdone : r.done = true) : r.Pending [] := by
  rw [Pending, if_pos hdone]

theorem enter_spec (r : AwsChunkedReader) (size : ℤ) :
    (r.enter size).err = r.err ∧ ∃ n, some (size, r.reader.rest) = some (n, (r.enter size).reader.rest) ∧
      (n ≤ 0 ∧ (r.enter size).done = true ∨
        0 < n ∧ (r.enter size).done = r.done ∧ ((r.enter size).remaining : ℤ) = n) := by
  unfold enter
  split_ifs with hsize
  · exact ⟨rfl, size, rfl, .inl ⟨hsize, rfl⟩⟩
  · have hpos := not_le.mp hsize
    exact ⟨rfl, size, rfl, .inr ⟨hpos, rfl, Int.toNat_of_nonneg hpos.le⟩⟩

theorem readChunkHeader_enters (h : r.readChunkHeader lib = (.ok (), r')) :
    r'.err = r.err ∧ ∃ size, chunkHeader r.reader.rest = some (size, r'.reader.rest) ∧
      (size ≤ 0 ∧ r'.done = true ∨
        0 < size ∧ r'.done = r.done ∧ (r'.remaining : ℤ) = size) := by
  unfold readChunkHeader at h
  unfold chunkHeader
  generalize scanLine [] r.reader.rest = scanned at h
  obtain ⟨scan, left⟩ := scanned
  cases scan with
  | exhausted | tooLong => cases h
  | line text =>
    dsimp only at h ⊢
    generalize parseChunkLine text = parsed at h
    obtain ⟨size | size, ext⟩ := parsed
    · cases h
    · dsimp only at h ⊢
      split at h
      · cases h
        exact enter_spec _ size
      · rename_i v hv
        obtain ⟨sig, -, ⟨hsize, -, v', -, rfl⟩ | ⟨hsize, -, rfl⟩⟩ := admitFrame_ok h
        · exact ⟨rfl, size, rfl, .inl ⟨hsize, rfl⟩⟩
        · exact ⟨rfl, size, rfl, .inr ⟨hsize, rfl, Int.toNat_of_nonneg hsize.le⟩⟩

theorem Pending.carries (hp : r'.Pending body) (h : r.readChunkHeader lib = (.ok (), r'))
    (hdone : r.done = false) : Carries r.reader.rest body := by
  obtain ⟨-, size, hheader, ⟨hsize, hended⟩ | ⟨hsize, hkept, hremaining⟩⟩ :=
    readChunkHeader_enters h
  · rw [Pending, if_pos hended] at hp
    rw [hp]
    exact .terminal hheader hsize
  · rw [Pending, hkept, hdone, if_neg Bool.false_ne_true, if_neg (by omega)] at hp
    obtain ⟨data, more, next, rfl, hlength, hrest, htail⟩ := hp
    apply Carries.chunk _ (List.ne_nil_of_length_pos (by omega)) htail
    rw [hheader, hrest, hlength, hremaining]

/-- From `r` to `r'` a call delivered `data`, and no error. -/
structure Delivers (r : AwsChunkedReader) (data : Bytes) (r' : AwsChunkedReader) : Prop where
  err : r'.err = r.err
  pending : ∀ body, r'.Pending body → r.Pending (data ++ body)

theorem readData_delivers (hdone : r.done = false) (hremaining : r.remaining ≠ 0)
    {call : ReadCall} (h : r.readData call = (data, none, r')) : r.Delivers data r' := by
  unfold readData at h
  generalize hsource : r.reader.read (r.toRead call.buffer) call.reply = answer at h
  obtain ⟨bytes, serr, s⟩ := answer
  have happend := Source.read_append hsource
  have hlength := Source.read_length hsource
  have hless : r.toRead call.buffer ≤ r.remaining := by
    unfold toRead
    split_ifs <;> omega
  dsimp only at h
  split at h
  · cases h
  · split at h
    · rename_i hall
      split at h
      · cases h
      · rename_i r₁ htrail
        obtain ⟨s', hcrlf, rfl⟩ := readTrailingCRLF_ok htrail
        cases h
        refine ⟨rfl, fun body hp => ?_⟩
        -- the chunk is complete, and the next header follows its line end
        rw [Pending, hdone, if_neg Bool.false_ne_true, if_pos hall] at hp
        rw [Pending, hdone, if_neg Bool.false_ne_true, if_neg hremaining]
        dsimp only at hall hcrlf
        refine ⟨data, body, s'.rest, rfl, by omega, ?_, hp⟩
        rw [← happend, hcrlf, List.append_assoc]
    · rename_i hsome
      cases h
      refine ⟨rfl, fun body hp => ?_⟩
      rw [Pending, hdone, if_neg Bool.false_ne_true, if_neg hsome] at hp
      rw [Pending, hdone, if_neg Bool.false_ne_true, if_neg hremaining]
      obtain ⟨part, more, next, rfl, hpart, hrest, htail⟩ := hp
      dsimp only at hpart hrest
      refine ⟨data ++ part, more, next, by rw [List.append_assoc], ?_, ?_, htail⟩
      · rw [List.length_append]
        omega
      · rw [← happend, hrest, List.append_assoc, List.append_assoc, List.append_assoc]

theorem readVerifiedLastByte_delivers (hdone : r.done = false) (hremaining : r.remaining = 1)
    {v : ChunkVerifier} {buffer : ℕ} (h : r.readVerifiedLastByte lib v buffer = (data, none, r')) :
    r.Delivers data r' := by
  unfold readVerifiedLastByte at h
  split at h
  · cases h
    exact ⟨rfl, fun body hp => hp⟩
  · split at h
    · cases h
    · rename_i last s hbyte
      obtain ⟨hrest, hone⟩ := Source.readFull_ok hbyte
      dsimp only at h
      split at h
      · cases h
      · rename_i r₁ htrail
        obtain ⟨s', hcrlf, rfl⟩ := readTrailingCRLF_ok htrail
        split at h
        · cases h
        · split at h
          · cases h
          · rename_i r₂ hheader
            cases h
            refine ⟨(readChunkHeader_enters hheader).1, fun body hp => ?_⟩
            have hnext : Carries s'.rest body := hp.carries hheader hdone
            dsimp only at hcrlf
            rw [hcrlf, ← List.append_assoc] at hrest
            rw [Pending, hdone, if_neg Bool.false_ne_true, if_neg (by omega)]
            exact ⟨data, body, s'.rest, rfl, by omega, hrest, hnext⟩

theorem readChunk_delivers (hdone : r.done = false) (hremaining : r.remaining ≠ 0)
    {call : ReadCall} (h : r.readChunk lib call = (data, none, r')) : r.Delivers data r' := by
  unfold readChunk at h
  split at h
  · split at h
    · rename_i hone
      exact readVerifiedLastByte_delivers hdone hone h
    · exact readData_delivers hdone hremaining h
  · exact readData_delivers hdone hremaining h

theorem read_delivers (herr : r.err = none) {call : ReadCall}
    (h : r.read lib call = (data, none, r')) : r.Delivers data r' := by
  unfold read at h
  rw [herr] at h
  dsimp only at h
  by_cases hdone : r.done = true
  · rw [if_pos hdone] at h
    cases h
  · rw [if_neg hdone] at h
    rw [Bool.not_eq_true] at hdone
    split at h
    · rename_i hzero
      split at h
      · cases h
      · rename_i r₁ hheader
        obtain ⟨herr₁, size, -, ⟨-, hended⟩ | ⟨hsize, hkept, hremaining⟩⟩ :=
          readChunkHeader_enters hheader
        · rw [if_pos hended] at h
          cases h
        · rw [hkept, hdone, if_neg Bool.false_ne_true] at h
          have hchunk := readChunk_delivers (hkept.trans hdone) (by omega) h
          refine ⟨hchunk.err.trans herr₁, fun body hp => ?_⟩
          rw [Pending, hdone, if_neg Bool.false_ne_true, if_pos hzero]
          exact (hchunk.pending body hp).carries hheader hdone
    · rename_i hremaining
      exact readChunk_delivers hdone hremaining h

theorem readData_ne_eof {call : ReadCall} : (r.readData call).2.1 ≠ some .eof := by
  unfold readData
  dsimp only
  split
  · simpa using truncatedOr_ne_eof _
  · split
    · split
      · rename_i htrail
        simpa using readTrailingCRLF_ne_eof htrail
      · simp
    · simp

theorem readVerifiedLastByte_ne_eof {v : ChunkVerifier} {buffer : ℕ} :
    (r.readVerifiedLastByte lib v buffer).2.1 ≠ some .eof := by
  unfold readVerifiedLastByte
  split
  · simp
  · split
    · simpa using truncatedOr_ne_eof _
    · dsimp only
      split
      · rename_i htrail
        simpa using readTrailingCRLF_ne_eof htrail
      · split
        · simp
        · split
          · rename_i hheader
            simpa using readChunkHeader_ne_eof hheader
          · simp

theorem readChunk_ne_eof {call : ReadCall} : (r.readChunk lib call).2.1 ≠ some .eof := by
  unfold readChunk
  split
  · split
    · exact readVerifiedLastByte_ne_eof
    · exact readData_ne_eof
  · exact readData_ne_eof

theorem pending_of_eof (herr : r.err = none) {call : ReadCall}
    (h : r.read lib call = (data, some .eof, r')) : r.Pending data := by
  have hchunk : ∀ q : AwsChunkedReader, q.readChunk lib call ≠ (data, some .eof, r') := by
    intro q hq
    exact readChunk_ne_eof (congrArg (·.2.1) hq)
  unfold read at h
  rw [herr] at h
  dsimp only at h
  by_cases hdone : r.done = true
  · rw [if_pos hdone] at h
    cases h
    exact pending_of_done hdone
  · rw [if_neg hdone] at h
    rw [Bool.not_eq_true] at hdone
    split at h
    · rename_i hzero
      split at h
      · rename_i e r₁ hheader
        cases h
        exact absurd rfl (readChunkHeader_ne_eof hheader)
      · rename_i r₁ hheader
        split at h
        · rename_i hended
          cases h
          rw [Pending, hdone, if_neg Bool.false_ne_true, if_pos hzero]
          exact (pending_of_done hended).carries hheader hdone
        · exact absurd h (hchunk r₁)
    · exact absurd h (hchunk r)

end AwsChunkedReader

namespace BodyReader

variable {lib : Stdlib} {limit : ℕ} {r : BodyReader} {calls : List AwsChunkedReader.ReadCall}
  {data : Bytes}

/-- A rule for what a reader delivers up to a clean end of its own: `P` holds of the call
that reports the end, and each earlier call adds its bytes in front. -/
theorem readLimited_eof {P : BodyReader → Bytes → Prop}
    (hend : ∀ r call data r', read lib call r = (data, some .eof, r') → P r data)
    (hmore : ∀ r call data r' rest, read lib call r = (data, none, r') → P r' rest →
      P r (data ++ rest))
    (h : r.readLimited lib limit calls = (data, some .eof)) (hlimit : data.length < limit) :
    P r data := by
  induction calls generalizing r limit data with
  | nil => cases h
  | cons call calls ih =>
    rw [readLimited, if_neg (Nat.ne_zero_of_lt hlimit)] at h
    split at h
    · rename_i bytes e r' hread
      cases h
      exact hend r _ _ r' hread
    · rename_i bytes r' hread
      cases hrest : readLimited lib (limit - bytes.length) r' calls with
      | mk more err =>
        rw [hrest] at h
        cases h
        rw [List.length_append] at hlimit
        exact hmore r _ bytes r' more hread (ih hrest (by omega))

theorem read_plain {s : Source UInt8} {call : AwsChunkedReader.ReadCall} {r' : BodyReader}
    {err : Option ChunkError} (h : read lib call (.plain s) = (data, err, r')) :
    ∃ e s', s.read call.buffer call.reply = (data, e, s') ∧ r' = .plain s' ∧
      err = e.map fun e => if e = .eof then .eof else .source e := by
  simp only [read, Prod.mk.injEq] at h
  obtain ⟨rfl, herr, rfl⟩ := h
  exact ⟨_, _, rfl, rfl, herr.symm⟩

theorem read_chunked {q : AwsChunkedReader} {call : AwsChunkedReader.ReadCall} {r' : BodyReader}
    {err : Option ChunkError} (h : read lib call (.chunked q) = (data, err, r')) :
    ∃ q', q.read lib call = (data, err, q') ∧ r' = .chunked q' := by
  simp only [read, Prod.mk.injEq] at h
  obtain ⟨rfl, rfl, rfl⟩ := h
  exact ⟨_, rfl, rfl⟩

/-- What the reader still has to deliver, if it comes to a clean end. -/
def Pending : BodyReader → Bytes → Prop
  | .plain s, body => s.ending = .eof ∧ body = s.rest
  | .chunked r, body => r.err = none → r.Pending body

/-- A clean end below the limit comes after everything that was pending. -/
theorem pending_of_readLimited (h : r.readLimited lib limit calls = (data, some .eof))
    (hlimit : data.length < limit) : r.Pending data := by
  apply readLimited_eof (P := Pending) _ _ h hlimit
  · intro r call data r' hread
    cases r with
    | plain s =>
      obtain ⟨err, s', hsource, rfl, hmap⟩ := read_plain hread
      obtain ⟨e, rfl, he⟩ := Option.map_eq_some_iff.mp hmap.symm
      obtain ⟨hall, hending⟩ := Source.read_error hsource
      have heof : e = .eof := by
        by_contra hne
        simp [hne] at he
      exact ⟨by rw [← hending, heof], hall⟩
    | chunked q =>
      obtain ⟨q', hq, rfl⟩ := read_chunked hread
      exact fun herr => AwsChunkedReader.pending_of_eof herr hq
  · intro r call data r' rest hread hrest
    cases r with
    | plain s =>
      obtain ⟨err, s', hsource, rfl, -⟩ := read_plain hread
      obtain ⟨hending, rfl⟩ := hrest
      exact ⟨by rw [← Source.read_ending hsource, hending], Source.read_append hsource⟩
    | chunked q =>
      obtain ⟨q', hq, rfl⟩ := read_chunked hread
      intro herr
      have hdelivers := AwsChunkedReader.read_delivers herr hq
      exact hdelivers.pending rest (hrest (hdelivers.err.trans herr))

/-- With a verifier, the chain is verified up to the terminal frame by then. -/
theorem authenticated_of_readLimited {v : ChunkVerifier} {input : Bytes} {declared : ℕ}
    {q : AwsChunkedReader} (hq : AwsChunkedReader.Progress lib v input declared [] q)
    (h : (BodyReader.chunked q).readLimited lib limit calls = (data, some .eof))
    (hlimit : data.length < limit) : ∃ left, Authenticated lib v input declared data left := by
  have hrule : ∀ q' delivered, BodyReader.chunked q = .chunked q' →
      AwsChunkedReader.Progress lib v input declared delivered q' →
      ∃ left, Authenticated lib v input declared (delivered ++ data) left := by
    apply readLimited_eof (P := fun r data => ∀ q' delivered, r = .chunked q' →
      AwsChunkedReader.Progress lib v input declared delivered q' →
      ∃ left, Authenticated lib v input declared (delivered ++ data) left) _ _ h hlimit
    · rintro r call data r' hread q delivered rfl hq
      obtain ⟨q', hcall, rfl⟩ := read_chunked hread
      exact ⟨_, (hq.read hcall).authenticated (.inr rfl)⟩
    · rintro r call data r' rest hread hrest q delivered rfl hq
      obtain ⟨q', hcall, rfl⟩ := read_chunked hread
      rw [← List.append_assoc]
      exact hrest q' _ rfl (hq.read hcall)
  exact hrule q [] rfl hq

end BodyReader

section Upload

variable {lib : Stdlib} {p : TieredPut} {size : ℤ} {limit : ℕ}
  {calls : List AwsChunkedReader.ReadCall} {data : Bytes}

/-- What a PUT has read when its reader reports a clean end below the limit. -/
theorem TieredPut.reader_carries
    (h : (p.reader size).readLimited lib limit calls = (data, some .eof))
    (hlimit : data.length < limit) : p.request.CarriesObject data := by
  have hpending := BodyReader.pending_of_readLimited h hlimit
  unfold reader at hpending
  unfold PutRequest.CarriesObject
  by_cases hstream : p.request.streaming = true
  · rw [if_pos hstream] at hpending ⊢
    cases hverifier : p.chunkVerifier with
    | none =>
      rw [hverifier] at hpending
      exact hpending rfl
    | some v =>
      rw [hverifier] at hpending
      exact hpending rfl
  · rw [if_neg hstream] at hpending ⊢
    exact hpending

theorem TieredPut.reader_authenticated {v : ChunkVerifier} {declared : ℕ}
    (hstream : p.request.streaming = true) (hverifier : p.chunkVerifier = some v)
    (hsize : size = declared) (h : (p.reader size).readLimited lib limit calls = (data, some .eof))
    (hlimit : data.length < limit) :
    ∃ left, Authenticated lib v p.request.body.rest declared data left := by
  subst hsize
  rw [reader, if_pos hstream, hverifier] at h
  exact BodyReader.authenticated_of_readLimited
    (AwsChunkedReader.Progress.start lib v p.request.body declared) h hlimit

end Upload
end TagGateway.Proxy
