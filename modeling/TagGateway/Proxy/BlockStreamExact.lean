import TagGateway.Proxy.BlockStream

/-!
# Streams are exact

Whatever the cache, the client and upstream do, what a stream delivers is the
beginning of the requested range, and all of it when no error is returned. The
assumption is that they are faithful: stored blocks are slices of the entry's
version, and so are ranged responses that carry its tag and the bounds asked for.
-/
namespace TagGateway.Proxy

open Foundation Cache

def blockBytes (m : CachedObjectMeta) (object : Bytes) (idx : ℤ) : Bytes :=
  slice object (blockBounds idx m.blockSize m.contentLength).1
    (blockBounds idx m.blockSize m.contentLength).2

/-- A response to a ranged request that says it is this version. -/
def RangeResponse.OfVersion (m : CachedObjectMeta) (start stop : ℤ) (resp : RangeResponse) : Prop :=
  resp.status = 206 ∧ resp.header.get (ascii "ETag") = m.etag ∧
    (parseContentRange (resp.header.get (ascii "Content-Range"))).bounds = some (start, stop)

/-- The entry describes this version, the cache hands out no more than it is
asked for and only bytes of the block it is asked for, and upstream's responses
of the version carry its bytes. -/
structure Faithful (env : BlockEnv) (m : CachedObjectMeta) (object : Bytes) : Prop where
  blockSize : 0 < m.blockSize
  contentLength : m.contentLength = object.length
  cacheRead : ∀ t idx localStart localEnd,
    (env.cacheRead t (makeBlockKey m idx) localStart localEnd).data <+:
      slice (blockBytes m object idx) localStart localEnd
  fetch : ∀ t idx resp remote put, env.fetch t idx = .answered resp remote put →
    resp.OfVersion m (blockBounds idx m.blockSize m.contentLength).1
      (blockBounds idx m.blockSize m.contentLength).2 →
    resp.body.rest <+: blockBytes m object idx
  rangeGet : ∀ t start stop resp, env.rangeGet t start stop = .ok resp →
    resp.OfVersion m start stop → resp.body.rest <+: slice object start stop

/-- The object's offset at which block `i` takes over; the end of the range is
where the block after the last one would. -/
def takeover (start stop blockSize i : ℤ) : ℤ := min (max start (i * blockSize)) (stop + 1)

theorem takeover_mono (start stop : ℤ) {blockSize i j : ℤ} (hbs : 0 < blockSize) (hij : i ≤ j) :
    takeover start stop blockSize i ≤ takeover start stop blockSize j := by
  have hmul : i * blockSize ≤ j * blockSize := Int.mul_le_mul_of_nonneg_right hij hbs.le
  unfold takeover
  omega

/-- The part `a` to `b` of block `i` that lies in the range, against the object's
offsets. -/
structure BlockOffsets (m : CachedObjectMeta) (start stop i a b : ℤ) : Prop where
  base : 0 ≤ i * m.blockSize
  first : i * m.blockSize + a = takeover start stop m.blockSize i
  last : i * m.blockSize + b + 1 = takeover start stop m.blockSize (i + 1)
  nonneg : 0 ≤ a
  le : a ≤ b
  inside : b ≤ (blockBounds i m.blockSize m.contentLength).2 - i * m.blockSize
  bound : i * m.blockSize + b < m.contentLength

theorem BlockOffsets.of_covering {m : CachedObjectMeta} {start stop i a b : ℤ} (hstart : 0 ≤ start)
    (hle : start ≤ stop) (hstop : stop < m.contentLength) (hbs : 0 < m.blockSize)
    (hfirst : start.tdiv m.blockSize ≤ i) (hlast : i ≤ stop.tdiv m.blockSize)
    (hlocal : blockLocalRange i start stop m.blockSize m.contentLength = (a, b)) :
    BlockOffsets m start stop i a b := by
  rw [Int.tdiv_eq_ediv_of_nonneg hstart] at hfirst
  rw [Int.tdiv_eq_ediv_of_nonneg (hstart.trans hle)] at hlast
  have hnonneg : 0 ≤ i := (Int.ediv_nonneg hstart hbs.le).trans hfirst
  have hpos : 0 ≤ i * m.blockSize := Int.mul_nonneg hnonneg hbs.le
  have hfrom : i * m.blockSize ≤ stop := (Int.le_ediv_iff_mul_le hbs).mp hlast
  have hmul : (i + 1) * m.blockSize = i * m.blockSize + m.blockSize := by
    rw [Int.add_mul, Int.one_mul]
  have hto : start < i * m.blockSize + m.blockSize := by
    rw [← hmul]
    exact Int.lt_mul_of_ediv_lt hbs (by omega)
  simp only [blockLocalRange, blockBounds, Prod.mk.injEq] at hlocal
  obtain ⟨ha, hb⟩ := hlocal
  constructor
  all_goals
    try simp only [blockBounds, takeover, hmul]
    omega

def blockPart (m : CachedObjectMeta) (object : Bytes) (start stop i : ℤ) : Bytes :=
  slice object (takeover start stop m.blockSize i) (takeover start stop m.blockSize (i + 1) - 1)

section Reads

variable {env : BlockEnv} {m : CachedObjectMeta} {object : Bytes} {start stop i a b : ℤ}

theorem slice_blockBytes (object : Bytes) (ho : BlockOffsets m start stop i a b) :
    slice (blockBytes m object i) a b = blockPart m object start stop i := by
  have hpart : blockPart m object start stop i =
      slice object (i * m.blockSize + a) (i * m.blockSize + b) := by
    rw [blockPart, ← ho.first, ← ho.last, Int.add_sub_cancel]
  rw [hpart, ← slice_slice ho.base ho.nonneg ho.inside]
  rfl

theorem length_blockPart (hf : Faithful env m object) (ho : BlockOffsets m start stop i a b) :
    ((blockPart m object start stop i).length : ℤ) = b - a + 1 := by
  have hfirst := ho.first
  have hlast := ho.last
  have hbase := ho.base
  have hnonneg := ho.nonneg
  have hle := ho.le
  have hbound := ho.bound
  have hcontent := hf.contentLength
  rw [blockPart, length_slice (by omega) (by omega) (by omega)]
  omega

theorem eq_blockPart (hf : Faithful env m object) (ho : BlockOffsets m start stop i a b)
    {w : Bytes} (hw : w <+: blockPart m object start stop i) (hlen : (w.length : ℤ) = b - a + 1) :
    w = blockPart m object start stop i := by
  have hall := length_blockPart hf ho
  exact hw.eq_of_length (by omega)

theorem cacheRead_part (hf : Faithful env m object) (ho : BlockOffsets m start stop i a b)
    (t : ℕ) : (env.cacheRead t (makeBlockKey m i) a b).data <+: blockPart m object start stop i :=
  slice_blockBytes object ho ▸ hf.cacheRead t i a b

theorem rangeResult_none {taken : ℕ} {err : Option CacheFailure}
    (h : rangeResult a b taken err = none) (ha : 0 ≤ a) (hab : a ≤ b) :
    (taken : ℤ) = b - a + 1 := by
  unfold rangeResult at h
  split at h
  · cases h
  · split_ifs at h with hzero hall
    omega

theorem firstByte_part (hf : Faithful env m object) (ho : BlockOffsets m start stop i 0 0)
    {t : ℕ} {x : UInt8} {xs : Bytes}
    (hdata : (env.cacheRead t (makeBlockKey m i) 0 1).data = x :: xs) :
    [x] <+: blockPart m object start stop i := by
  have htwo : x :: xs <+: slice (blockBytes m object i) 0 1 := hdata ▸ hf.cacheRead t i 0 1
  have hone : slice (blockBytes m object i) 0 0 = (slice (blockBytes m object i) 0 1).take 1 := by
    simp [slice, List.take_take]
  rw [← slice_blockBytes object ho, hone]
  exact htwo.take 1

theorem readBlockInto_none (hf : Faithful env m object) (ho : BlockOffsets m start stop i a b)
    {t : ℕ} {landed : Bytes} (h : readBlockInto env m t i a b = (landed, none)) :
    landed = blockPart m object start stop i := by
  unfold readBlockInto at h
  split at h
  · rename_i hzero
    obtain ⟨rfl, rfl⟩ := hzero
    dsimp only at h
    split at h
    · cases h
    · cases h
    · rename_i x xs _ hdata
      cases h
      exact eq_blockPart hf ho (firstByte_part hf ho hdata) rfl
  · obtain ⟨hlanded, hresult⟩ := Prod.mk.inj h
    have hpre : landed <+: blockPart m object start stop i :=
      hlanded ▸ (List.take_prefix _ _).trans (cacheRead_part hf ho t)
    rw [hlanded] at hresult
    exact eq_blockPart hf ho hpre (rangeResult_none hresult ho.nonneg ho.le)

theorem readCachedBlockSlice_ok (hf : Faithful env m object) (ho : BlockOffsets m start stop i a b)
    {t : ℕ} {data : Bytes} (h : readCachedBlockSlice env m t i a b = .ok data) :
    data = blockPart m object start stop i := by
  unfold readCachedBlockSlice at h
  split at h
  · cases h
  · rename_i hread
    cases h
    exact readBlockInto_none hf ho hread

theorem send_eq {st st' : Stream} {data taken : Bytes} {failed : Bool}
    (h : st.send env data = (taken, failed, st')) :
    taken <+: data ∧ st'.written = st.written ++ taken ∧ (failed = false → taken = data) := by
  unfold Stream.send at h
  split at h
  · rename_i hnil
    cases h
    simp [hnil]
  · cases h
    refine ⟨List.take_prefix _ _, rfl, fun hok => ?_⟩
    rw [Bool.or_eq_false_iff, decide_eq_false_iff_not, not_lt] at hok
    exact (List.take_prefix _ _).eq_of_length_le hok.2

theorem getBlockRangeStream_part (hf : Faithful env m object)
    (ho : BlockOffsets m start stop i a b) {st st' : Stream} {err : Option BlockError}
    {failed : Bool} (h : getBlockRangeStream env m st i a b = (err, failed, st')) :
    ∃ taken, st'.written = st.written ++ taken ∧ taken <+: blockPart m object start stop i ∧
      (err = none → taken = blockPart m object start stop i) := by
  unfold getBlockRangeStream at h
  split at h
  · rename_i hzero
    obtain ⟨rfl, rfl⟩ := hzero
    dsimp only at h
    split at h
    iterate 2
      cases h
      exact ⟨[], (List.append_nil _).symm, List.nil_prefix, by simp⟩
    rename_i x xs _ hdata
    generalize hsend : st.send env [x] = sent at h
    obtain ⟨taken, refused, st₁⟩ := sent
    obtain ⟨hpre, hwritten, hall⟩ := send_eq hsend
    cases h
    refine ⟨taken, hwritten, hpre.trans (firstByte_part hf ho hdata), fun hnone => ?_⟩
    have hfine : refused = false := by simpa using hnone
    rw [hall hfine]
    exact eq_blockPart hf ho (firstByte_part hf ho hdata) rfl
  · dsimp only at h
    generalize hsend : st.send env (env.cacheRead st.clock (makeBlockKey m i) a b).data = sent at h
    obtain ⟨taken, refused, st₁⟩ := sent
    obtain ⟨hpre, hwritten, -⟩ := send_eq hsend
    have hpart := hpre.trans (cacheRead_part hf ho st.clock)
    cases h
    refine ⟨taken, hwritten, hpart, fun hnone => ?_⟩
    exact eq_blockPart hf ho hpart (rangeResult_none hnone ho.nonneg ho.le)

end Reads

structure Range (env : BlockEnv) (m : CachedObjectMeta) (object : Bytes) (start stop : ℤ) : Prop
    extends Faithful env m object where
  start_nonneg : 0 ≤ start
  start_le : start ≤ stop
  stop_lt : stop < m.contentLength

/-- The client has all that comes before block `i`, and nothing else. -/
structure FilledTo (m : CachedObjectMeta) (object : Bytes) (start stop i : ℤ) (w : Bytes) : Prop where
  part : w <+: slice object start stop
  offset : start + w.length = takeover start stop m.blockSize i

section Loops

variable {env : BlockEnv} {m : CachedObjectMeta} {object w taken : Bytes} {start stop i a b : ℤ}

theorem Range.offsets (hr : Range env m object start stop) (hfirst : start.tdiv m.blockSize ≤ i)
    (hlast : i ≤ stop.tdiv m.blockSize)
    (hlocal : blockLocalRange i start stop m.blockSize m.contentLength = (a, b)) :
    BlockOffsets m start stop i a b :=
  .of_covering hr.start_nonneg hr.start_le hr.stop_lt hr.blockSize hfirst hlast hlocal

namespace FilledTo

theorem append (hr : Range env m object start stop) (ho : BlockOffsets m start stop i a b)
    (h : FilledTo m object start stop i w) (htaken : taken <+: blockPart m object start stop i) :
    w ++ taken <+: slice object start stop := by
  apply prefix_slice_append hr.start_nonneg h.part
  rw [h.offset]
  refine htaken.trans (slice_prefix_slice ?_ ?_)
  · have hfirst := ho.first
    have hlast := ho.last
    have hle := ho.le
    omega
  · have hstop : takeover start stop m.blockSize (i + 1) ≤ stop + 1 := min_le_right _ _
    omega

theorem advance (hr : Range env m object start stop) (ho : BlockOffsets m start stop i a b)
    (h : FilledTo m object start stop i w) :
    FilledTo m object start stop (i + 1) (w ++ blockPart m object start stop i) := by
  refine ⟨h.append hr ho (List.prefix_refl _), ?_⟩
  have hlen := length_blockPart hr.toFaithful ho
  have hoffset := h.offset
  have hfirst := ho.first
  have hlast := ho.last
  rw [List.length_append]
  push_cast
  omega

theorem first (hr : Range env m object start stop) :
    FilledTo m object start stop (start.tdiv m.blockSize) [] := by
  refine ⟨List.nil_prefix, ?_⟩
  have hmul : start.tdiv m.blockSize * m.blockSize ≤ start := by
    rw [Int.tdiv_eq_ediv_of_nonneg hr.start_nonneg]
    exact Int.ediv_mul_le start hr.blockSize.ne'
  have hle := hr.start_le
  simp only [takeover, List.length_nil]
  omega

theorem complete (hr : Range env m object start stop)
    (h : FilledTo m object start stop (stop.tdiv m.blockSize + 1) w) :
    w = slice object start stop := by
  have hstop : stop < (stop.tdiv m.blockSize + 1) * m.blockSize := by
    rw [Int.tdiv_eq_ediv_of_nonneg (hr.start_nonneg.trans hr.start_le)]
    exact Int.lt_mul_of_ediv_lt hr.blockSize (Int.lt_succ _)
  have hoffset := h.offset
  have hlt := hr.stop_lt
  have hle := hr.start_le
  have hcontent := hr.contentLength
  simp only [takeover] at hoffset
  apply eq_slice_of_length hr.start_nonneg (by omega) (by omega) h.part
  omega

end FilledTo

/-- What a stream is worth: part of the range, and all of it without an error. -/
def Exact (object : Bytes) (start stop : ℤ) (err : Option BlockError) (w : Bytes) : Prop :=
  w <+: slice object start stop ∧ (err = none → w = slice object start stop)

theorem Exact.append {err : Option BlockError} {w w' : Bytes} (hstart : 0 ≤ start)
    (hw : w <+: slice object start stop) (h : Exact object (start + w.length) stop err w') :
    Exact object start stop err (w ++ w') := by
  refine ⟨prefix_slice_append hstart hw h.1, fun hnone => ?_⟩
  rw [h.2 hnone, ← slice_eq_append hstart hw]

theorem sequentialBlock_part (hf : Faithful env m object)
    (hlocal : blockLocalRange i start stop m.blockSize m.contentLength = (a, b))
    (ho : BlockOffsets m start stop i a b) (fetchesLeft : ℕ) (writeErr : Bool) (st : Stream) :
    ∃ taken,
      (sequentialBlock env m start stop i fetchesLeft writeErr st).stream.written =
        st.written ++ taken ∧ taken <+: blockPart m object start stop i ∧
      ((sequentialBlock env m start stop i fetchesLeft writeErr st).err = none →
        taken = blockPart m object start stop i) := by
  unfold sequentialBlock
  rw [hlocal]
  dsimp only
  generalize hread : getBlockRangeStream env m st i a b = read
  obtain ⟨berr, failed, st₁⟩ := read
  obtain ⟨taken, hwritten, hpart, hall⟩ := getBlockRangeStream_part hf ho hread
  dsimp only
  split
  · rename_i hmissing
    -- the failed read delivered nothing
    have hsame : st₁.written = st.written := by
      have hlen := hmissing.2
      rw [hwritten, List.length_append] at hlen
      rw [hwritten, List.eq_nil_of_length_eq_zero (l := taken) (by omega), List.append_nil]
    split
    · exact ⟨[], by simp [hsame], List.nil_prefix, by simp⟩
    · split
      · refine ⟨[], ?_, List.nil_prefix, by simp⟩
        simp [Stream.afterFetch, Stream.tick, hsame]
      · generalize hagain : getBlockRangeStream env m (st₁.afterFetch none) i a b = again
        obtain ⟨berr', failed', st₂⟩ := again
        obtain ⟨taken', hwritten', hpart', hall'⟩ := getBlockRangeStream_part hf ho hagain
        refine ⟨taken', ?_, hpart', ?_⟩
        · rw [hwritten', Stream.afterFetch, Stream.tick, hsame]
        · intro hnone
          exact hall' (Option.map_eq_none_iff.mp hnone)
  · refine ⟨taken, hwritten, hpart, ?_⟩
    intro hnone
    exact hall (Option.map_eq_none_iff.mp hnone)

theorem streamSequentialLoop_exact (hr : Range env m object start stop) (count : ℕ) :
    ∀ {i fetchesLeft writeErr out st}, start.tdiv m.blockSize ≤ i →
      i + count = stop.tdiv m.blockSize + 1 → FilledTo m object start stop i st.written →
      Exact object start stop
        (streamSequentialLoop env m start stop (blocksFrom i count) fetchesLeft writeErr out st).2.1
        (streamSequentialLoop env m start stop (blocksFrom i count) fetchesLeft writeErr out
          st).2.2.written := by
  induction count with
  | zero =>
    intro i fetchesLeft writeErr out st hi hcount hfilled
    have hlast : i = stop.tdiv m.blockSize + 1 := by omega
    rw [hlast] at hfilled
    exact ⟨hfilled.part, fun _ => hfilled.complete hr⟩
  | succ count ih =>
    intro i fetchesLeft writeErr out st hi hcount hfilled
    obtain ⟨⟨a, b⟩, hlocal⟩ : ∃ p, blockLocalRange i start stop m.blockSize m.contentLength = p :=
      ⟨_, rfl⟩
    have ho := hr.offsets hi (by omega) hlocal
    obtain ⟨taken, hwritten, hpart, hall⟩ :=
      sequentialBlock_part hr.toFaithful hlocal ho fetchesLeft writeErr st
    rw [blocksFrom, streamSequentialLoop]
    dsimp only
    split
    · rename_i e he
      refine ⟨?_, by simp⟩
      rw [hwritten]
      exact hfilled.append hr ho hpart
    · rename_i he
      apply ih (by omega) (by omega)
      rw [hwritten, hall he]
      exact hfilled.advance hr ho

@[simp] theorem tick_written (st : Stream) : st.tick.written = st.written := rfl

theorem recoverMissingBlockSlice_part (hf : Faithful env m object)
    (ho : BlockOffsets m start stop i a b) (fetchesLeft : Option ℕ) (st : Stream) :
    (recoverMissingBlockSlice env m i a b fetchesLeft st).stream.written = st.written ∧
    ∀ data, (recoverMissingBlockSlice env m i a b fetchesLeft st).result = .ok data →
      data = blockPart m object start stop i := by
  unfold recoverMissingBlockSlice
  split
  · rename_i data hread
    refine ⟨rfl, fun data' hdata => ?_⟩
    cases hdata
    exact readCachedBlockSlice_ok hf ho hread
  · split
    · exact ⟨rfl, by simp⟩
    · dsimp only
      split
      · exact ⟨rfl, by simp⟩
      · split
        · rename_i data hread
          refine ⟨rfl, fun data' hdata => ?_⟩
          cases hdata
          exact readCachedBlockSlice_ok hf ho hread
        · exact ⟨rfl, by simp⟩
  · exact ⟨rfl, by simp⟩

theorem readBlockSlice_part (hf : Faithful env m object)
    (ho : BlockOffsets m start stop i a b) (fetchesLeft : Option ℕ) (st : Stream) :
    (readBlockSlice env m i a b fetchesLeft st).stream.written = st.written ∧
    ∀ data, (readBlockSlice env m i a b fetchesLeft st).result = .ok data →
      data = blockPart m object start stop i := by
  unfold readBlockSlice
  split
  · rename_i data hread
    refine ⟨rfl, fun data' hdata => ?_⟩
    cases hdata
    exact readCachedBlockSlice_ok hf ho hread
  · exact recoverMissingBlockSlice_part hf ho fetchesLeft st.tick
  · exact ⟨rfl, by simp⟩

theorem settleRead_part (hf : Faithful env m object) (ho : BlockOffsets m start stop i a b)
    (fetchesLeft : ℕ) (st : Stream) {read : Except BlockError Bytes}
    (hread : ∀ data, read = .ok data → data = blockPart m object start stop i) :
    (settleRead env m i a b fetchesLeft st read).stream.written = st.written ∧
    ∀ data, (settleRead env m i a b fetchesLeft st read).result = .ok data →
      data = blockPart m object start stop i := by
  unfold settleRead
  split
  · refine ⟨rfl, fun data hdata => ?_⟩
    cases hdata
    exact hread _ rfl
  · exact recoverMissingBlockSlice_part hf ho (some fetchesLeft) st
  · exact ⟨rfl, by simp⟩

/-- The reads under way: of blocks `i` to `next`, and each that succeeded holds
its block's bytes. -/
structure Window (m : CachedObjectMeta) (object : Bytes) (start stop i next : ℤ)
    (pending : Pending) : Prop where
  started : ∀ j, i ≤ j → j < next → (pending j).isSome = true
  bytes : ∀ j data, pending j = some (.ok data) → data = blockPart m object start stop j

namespace Window

variable {next : ℤ} {pending : Pending}

theorem empty (i : ℤ) : Window m object start stop i i fun _ => none := by
  constructor
  · intro j hj hlt
    omega
  · rintro j data ⟨⟩

theorem startRead (hr : Range env m object start stop) (hfirst : start.tdiv m.blockSize ≤ next)
    (hlast : next ≤ stop.tdiv m.blockSize) (h : Window m object start stop i next pending)
    (clock : ℕ) :
    Window m object start stop i (next + 1)
      (startRead env m start stop next clock pending) := by
  unfold Proxy.startRead
  obtain ⟨⟨a, b⟩, hlocal⟩ : ∃ p, blockLocalRange next start stop m.blockSize m.contentLength = p :=
    ⟨_, rfl⟩
  have ho := hr.offsets hfirst hlast hlocal
  rw [hlocal]
  dsimp only
  constructor
  · intro j hj hlt
    by_cases hnew : j = next
    · rw [hnew, Function.update_self]
      rfl
    · rw [Function.update_of_ne hnew]
      exact h.started j hj (by omega)
  · intro j data hdata
    by_cases hnew : j = next
    · subst hnew
      rw [Function.update_self, Option.some.injEq] at hdata
      exact readCachedBlockSlice_ok hr.toFaithful ho hdata
    · rw [Function.update_of_ne hnew] at hdata
      exact h.bytes j data hdata

theorem consume (h : Window m object start stop i next pending) :
    Window m object start stop (i + 1) next (Function.update pending i none) := by
  constructor
  · intro j hj hlt
    rw [Function.update_of_ne (by omega)]
    exact h.started j (by omega) hlt
  · intro j data hdata
    by_cases hold : j = i
    · rw [hold, Function.update_self] at hdata
      cases hdata
    · rw [Function.update_of_ne hold] at hdata
      exact h.bytes j data hdata

theorem fill (hr : Range env m object start stop) (count : ℕ) :
    ∀ {next pending} clock, start.tdiv m.blockSize ≤ next →
      next + count ≤ stop.tdiv m.blockSize + 1 → Window m object start stop i next pending →
      Window m object start stop i (next + count)
        (fillWindow env m start stop (blocksFrom next count) clock pending) := by
  induction count with
  | zero =>
    intro next pending clock hfirst hlast h
    simpa [blocksFrom, fillWindow] using h
  | succ count ih =>
    intro next pending clock hfirst hlast h
    rw [blocksFrom, fillWindow]
    have hrest := ih (clock + 1) (by omega) (by omega)
      (h.startRead hr hfirst (by omega) clock)
    have hsum : next + 1 + (count : ℤ) = next + (count + 1 : ℕ) := by push_cast; omega
    rwa [hsum] at hrest

end Window

theorem streamPipelinedLoop_exact (hr : Range env m object start stop) (count : ℕ) :
    ∀ {i next pending fetchesLeft out st}, start.tdiv m.blockSize ≤ i →
      i + count = stop.tdiv m.blockSize + 1 → (count ≠ 0 → i < next) →
      next ≤ stop.tdiv m.blockSize + 1 → Window m object start stop i next pending →
      FilledTo m object start stop i st.written →
      Exact object start stop
        (streamPipelinedLoop env m start stop (stop.tdiv m.blockSize) (blocksFrom i count) next
          pending fetchesLeft out st).2.1
        (streamPipelinedLoop env m start stop (stop.tdiv m.blockSize) (blocksFrom i count) next
          pending fetchesLeft out st).2.2.written := by
  induction count with
  | zero =>
    intro i next pending fetchesLeft out st hi hcount hahead hnext hwindow hfilled
    have hlast : i = stop.tdiv m.blockSize + 1 := by omega
    rw [hlast] at hfilled
    exact ⟨hfilled.part, fun _ => hfilled.complete hr⟩
  | succ count ih =>
    intro i next pending fetchesLeft out st hi hcount hahead hnext hwindow hfilled
    obtain ⟨⟨a, b⟩, hlocal⟩ : ∃ p, blockLocalRange i start stop m.blockSize m.contentLength = p :=
      ⟨_, rfl⟩
    have ho := hr.offsets hi (by omega) hlocal
    obtain ⟨read, hread⟩ := Option.isSome_iff_exists.mp
      (hwindow.started i le_rfl (hahead (Nat.succ_ne_zero _)))
    obtain ⟨hkept, hbytes⟩ := settleRead_part hr.toFaithful ho fetchesLeft st
      (fun data hdata => hwindow.bytes i data (hdata ▸ hread))
    rw [blocksFrom, streamPipelinedLoop, hlocal]
    simp only [hread]
    split
    · refine ⟨?_, by simp⟩
      rw [hkept]
      exact hfilled.part
    · rename_i data hdata
      obtain rfl := hbytes data hdata
      generalize hsend : (settleRead env m i a b fetchesLeft st read).stream.send env
        (blockPart m object start stop i) = sent
      obtain ⟨taken, failed, st₁⟩ := sent
      obtain ⟨hpart, hwritten, hall⟩ := send_eq hsend
      rw [hkept] at hwritten
      dsimp only
      split
      · refine ⟨?_, by simp⟩
        rw [tick_written, hwritten]
        exact hfilled.append hr ho hpart
      · rename_i hfine
        have hnow : FilledTo m object start stop (i + 1) st₁.tick.written := by
          rw [tick_written, hwritten, hall (by simpa using hfine)]
          exact hfilled.advance hr ho
        have hconsumed := hwindow.consume
        split
        · rename_i hmore
          exact ih (by omega) (by omega) (by omega) (by omega)
            (hconsumed.startRead hr (by omega) hmore _) hnow
        · rename_i hmore
          exact ih (by omega) (by omega) (by omega) hnext hconsumed hnow

theorem blocksFrom_take (i : ℤ) (count window : ℕ) :
    (blocksFrom i count).take window = blocksFrom i (min window count) := by
  induction count generalizing i window with
  | zero => simp [blocksFrom]
  | succ count ih =>
    cases window with
    | zero => simp [blocksFrom]
    | succ window => rw [blocksFrom, List.take_succ_cons, ih, Nat.succ_min_succ, blocksFrom]

theorem length_blocksFrom (i : ℤ) (count : ℕ) : (blocksFrom i count).length = count := by
  induction count generalizing i with
  | zero => rfl
  | succ count ih => rw [blocksFrom, List.length_cons, ih]

theorem reserveWindow_some {clock clock' n window : ℕ}
    (h : reserveWindow env clock n = (some window, clock')) : 1 ≤ window := by
  induction n generalizing clock with
  | zero => cases h
  | succ n ih =>
    cases n with
    | zero => cases h
    | succ n =>
      rw [reserveWindow] at h
      split at h
      · cases h
        omega
      · exact ih h

theorem Range.covering_le (hr : Range env m object start stop) :
    start.tdiv m.blockSize ≤ stop.tdiv m.blockSize := by
  rw [Int.tdiv_eq_ediv_of_nonneg hr.start_nonneg,
    Int.tdiv_eq_ediv_of_nonneg (hr.start_nonneg.trans hr.start_le)]
  exact Int.ediv_le_ediv hr.blockSize hr.start_le

theorem streamBlockRangeSequential_exact (hr : Range env m object start stop) {st : Stream}
    (hst : st.written = []) :
    Exact object start stop (streamBlockRangeSequential env m start stop st).2.1
      (streamBlockRangeSequential env m start stop st).2.2.written := by
  have hle := hr.covering_le
  apply streamSequentialLoop_exact hr _ le_rfl
  · omega
  · rw [hst]
    exact .first hr

theorem streamBlockRangePipelined_exact (hr : Range env m object start stop) {window : ℕ}
    (hwindow : 1 ≤ window) {st : Stream} (hst : st.written = []) :
    Exact object start stop (streamBlockRangePipelined env m start stop window st).2.1
      (streamBlockRangePipelined env m start stop window st).2.2.written := by
  have hle := hr.covering_le
  unfold streamBlockRangePipelined
  simp only [coveringBlocks, blockIndices, blocksFrom_take, length_blocksFrom]
  apply streamPipelinedLoop_exact hr _ le_rfl
  · omega
  · omega
  · omega
  · exact (Window.empty _).fill hr _ _ le_rfl (by omega)
  · dsimp only
    rw [hst]
    exact .first hr

theorem streamBlocks_exact (hr : Range env m object start stop) (st : Stream)
    (hst : st.written = []) :
    Exact object start stop (streamBlocks env m start stop st).2.1
      (streamBlocks env m start stop st).2.2.written := by
  unfold streamBlocks
  dsimp only [coveringBlocks]
  split
  · exact streamBlockRangeSequential_exact hr hst
  · split
    · rename_i window clock hreserve
      exact streamBlockRangePipelined_exact hr (reserveWindow_some hreserve) hst
    · exact streamBlockRangeSequential_exact hr hst

theorem copyBody_part {want : ℤ} {body : Source UInt8} {st st' : Stream} {err : Option BlockError}
    (h : copyBody env want body st = (err, st')) :
    ∃ taken, st'.written = st.written ++ taken ∧ taken <+: body.rest ∧
      (err = none → (taken.length : ℤ) = want) := by
  unfold copyBody at h
  generalize hsend : st.send env body.rest = sent at h
  obtain ⟨taken, failed, st₁⟩ := sent
  obtain ⟨hpre, hwritten, -⟩ := send_eq hsend
  dsimp only at h
  split at h
  · cases h
    exact ⟨taken, hwritten, hpre, by simp⟩
  · split at h
    · cases h
      exact ⟨taken, hwritten, hpre, by simp⟩
    · split at h
      · cases h
        exact ⟨taken, hwritten, hpre, by simp⟩
      · rename_i hlength
        cases h
        exact ⟨taken, hwritten, hpre, fun _ => not_not.mp hlength⟩

theorem streamRemainderFromUpstream_exact (hr : Range env m object a b) {st st' : Stream}
    {err : Option BlockError} (h : streamRemainderFromUpstream env m a b st = (err, st')) :
    ∃ taken, st'.written = st.written ++ taken ∧ Exact object a b err taken := by
  have hnothing : ∀ e : BlockError, ∃ taken,
      st.written = st.written ++ taken ∧ Exact object a b (some e) taken :=
    fun e => ⟨[], (List.append_nil _).symm, List.nil_prefix, by simp⟩
  unfold streamRemainderFromUpstream at h
  split at h
  · cases h
    exact hnothing _
  · rename_i resp hget
    split_ifs at h with hgone hstatus hempty hetag hbounds
    iterate 5
      cases h
      exact hnothing _
    have hversion : resp.OfVersion m a b :=
      ⟨not_not.mp hstatus, not_not.mp hetag, not_not.mp hbounds⟩
    obtain ⟨taken, hwritten, hpre, hall⟩ := copyBody_part h
    have hpart := hpre.trans (hr.rangeGet _ a b resp hget hversion)
    have hle := hr.start_le
    have hlt := hr.stop_lt
    have hcontent := hr.contentLength
    refine ⟨taken, hwritten, hpart, fun hnone => ?_⟩
    exact eq_slice_of_length hr.start_nonneg (by omega) (by omega) hpart (hall hnone)

end Loops

/-- Every stream of a range, sequential or pipelined, with its recoveries and the
switch to upstream: the client gets a part of the range of this version, and all
of it when no error is returned. -/
theorem streamBlockRange_byteExact {env : BlockEnv} {m : CachedObjectMeta} {object : Bytes}
    {start stop : ℤ} (hr : Range env m object start stop) (clock : ℕ) :
    Exact object start stop (streamBlockRangeWithFooterRange env m start stop clock).2.1
      (streamBlockRangeWithFooterRange env m start stop clock).2.2.written := by
  have hblocks := streamBlocks_exact hr { clock := clock } rfl
  unfold streamBlockRangeWithFooterRange
  split
  · rename_i out st heq
    rw [heq] at hblocks
    exact hblocks
  · rename_i out e st heq
    rw [heq] at hblocks
    split
    · rename_i hsalvage
      simp only [Bool.and_eq_true, decide_eq_true_eq] at hsalvage
      have hstart := hr.start_nonneg
      have hrest : Range env m object (start + st.written.length) stop :=
        { hr.toFaithful with
          start_nonneg := by omega
          start_le := hsalvage.2
          stop_lt := hr.stop_lt }
      split
      all_goals
        rename_i hremainder
        obtain ⟨taken, hwritten, hexact⟩ := streamRemainderFromUpstream_exact hrest hremainder
        dsimp only
        rw [hwritten]
        exact hexact.append hr.start_nonneg hblocks.1
    · exact ⟨hblocks.1, by simp⟩

def threeBlocks : CachedObjectMeta where
  bucket := ascii "b"
  key := ascii "k"
  etag := ascii "v1"
  contentLength := 10
  blockSize := 4
  blocksComplete := true

def tenBytes : Bytes := ascii "0123456789"

/-- Block 1 cannot be read and a fetch does not bring it back; the client takes
everything. -/
def lostBlock : BlockEnv where
  cacheRead _ key localStart localEnd :=
    if key.2.2 = 1 then ⟨[], some .notFound, none⟩
    else ⟨slice (blockBytes threeBlocks tenBytes key.2.2) localStart localEnd, none, none⟩
  clientWrite _ := ⟨tenBytes.length, false⟩
  fetch _ _ := .present
  rangeGet _ start stop := .ok
    { status := 206
      header := (Header.empty.set (ascii "ETag") (ascii "v1")).set (ascii "Content-Range")
        (ascii "bytes " ++ formatInt start ++ ascii "-" ++ formatInt stop ++ ascii "/10")
      contentLength := stop - start + 1
      body := ⟨slice tenBytes start stop, .eof⟩ }
  acquireStaging _ := true
  canceled _ := false

theorem lostBlock_range : Range lostBlock threeBlocks tenBytes 2 9 where
  blockSize := by decide
  contentLength := by decide
  cacheRead t idx localStart localEnd := by
    unfold lostBlock makeBlockKey
    dsimp only
    split_ifs
    · exact List.nil_prefix
    · exact List.prefix_refl _
  fetch := by simp [lostBlock]
  rangeGet t start stop resp hget _ := by
    cases hget
    exact List.prefix_refl _
  start_nonneg := by decide
  start_le := by decide
  stop_lt := by decide

theorem streamBlockRange_byteExact_lostBlock :
    (streamBlockRangeWithFooterRange lostBlock threeBlocks 2 9 0).1 = ⟨1, 1, true⟩ ∧
      (streamBlockRangeWithFooterRange lostBlock threeBlocks 2 9 0).2.2.written =
        slice tenBytes 2 9 := by
  have hdone : (streamBlockRangeWithFooterRange lostBlock threeBlocks 2 9 0).2.1 = none := by
    decide +kernel
  exact ⟨by decide +kernel, (streamBlockRange_byteExact lostBlock_range 0).2 hdone⟩

end TagGateway.Proxy
