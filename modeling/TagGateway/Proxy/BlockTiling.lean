import TagGateway.Proxy.BlockServe
import TagGateway.Proxy.BlockStreamExact

/-!
# Blocks tile a range

A range is served from the slices of the blocks it touches. Each slice begins where the
one before it ends, so that together they are the range, and nothing that is computed on
the way leaves the range of a 64-bit word.
-/
namespace TagGateway.Proxy

open Foundation Cache

variable (m : CachedObjectMeta) (start stop : ℤ)

def sliceBounds (i : ℤ) : ℤ × ℤ :=
  let (localStart, localEnd) := blockLocalRange i start stop m.blockSize m.contentLength
  (i * m.blockSize + localStart, i * m.blockSize + localEnd)

def Fits64 (x : ℤ) : Prop := -9223372036854775808 ≤ x ∧ x < 9223372036854775808

/-- What is computed for the slice of block `i`, in order; `off` is the length of the
slices before it. -/
def sliceResults (b₀ i off : ℤ) : List ℤ :=
  let (bStart, bEnd) := blockBounds i m.blockSize m.contentLength
  let (localStart, localEnd) := blockLocalRange i start stop m.blockSize m.contentLength
  [bStart, bStart + m.blockSize, bStart + m.blockSize - 1, m.contentLength - 1, bEnd,
    localStart, localEnd, localEnd - localStart, localEnd - localStart + 1, i - b₀,
    off + (localEnd - localStart + 1), i + 1]

def slicesResults (b₀ : ℤ) : List ℤ → ℤ → List ℤ
  | [], _ => []
  | i :: is, off =>
    sliceResults m start stop b₀ i off ++ slicesResults b₀ is (off + slicesLength m start stop [i])

def tilingResults : List ℤ :=
  let (b₀, bK) := coveringBlocks start stop m.blockSize
  [b₀, bK, stop - start, stop - start + 1, bK - b₀, bK - b₀ + 1] ++
    slicesResults m start stop b₀ (blockIndices b₀ bK) 0

/-- The slices of these blocks make up the range. -/
structure Tiles (is : List ℤ) : Prop where
  inside : ∀ i ∈ is,
    let (bStart, bEnd) := blockBounds i m.blockSize m.contentLength
    let (localStart, localEnd) := blockLocalRange i start stop m.blockSize m.contentLength
    0 ≤ localStart ∧ localStart ≤ localEnd ∧ localEnd < bEnd - bStart + 1
  first : is.head?.map (fun i => (sliceBounds m start stop i).1) = some start
  consecutive : is.IsChain fun i j =>
    (sliceBounds m start stop j).1 = (sliceBounds m start stop i).2 + 1
  last : is.getLast?.map (fun i => (sliceBounds m start stop i).2) = some stop
  disjoint : is.Pairwise fun i j => (sliceBounds m start stop i).2 < (sliceBounds m start stop j).1
  union : ∀ x, start ≤ x ∧ x ≤ stop ↔
    ∃ i ∈ is, (sliceBounds m start stop i).1 ≤ x ∧ x ≤ (sliceBounds m start stop i).2
  length : slicesLength m start stop is = stop - start + 1

variable {m start stop}

section Covering

variable (hstart : 0 ≤ start) (hle : start ≤ stop) (hstop : stop < m.contentLength)
  (hbs : 0 < m.blockSize)

include hstart hle hstop hbs

theorem blockOffsets {i : ℤ} (hi : start.tdiv m.blockSize ≤ i ∧ i ≤ stop.tdiv m.blockSize) :
    BlockOffsets m start stop i (blockLocalRange i start stop m.blockSize m.contentLength).1
      (blockLocalRange i start stop m.blockSize m.contentLength).2 :=
  .of_covering hstart hle hstop hbs hi.1 hi.2 rfl

theorem sliceBounds_eq {i : ℤ} (hi : start.tdiv m.blockSize ≤ i ∧ i ≤ stop.tdiv m.blockSize) :
    sliceBounds m start stop i = (takeover start stop m.blockSize i,
      takeover start stop m.blockSize (i + 1) - 1) := by
  have ho := blockOffsets hstart hle hstop hbs hi
  exact Prod.ext ho.first (by rw [← ho.last, Int.add_sub_cancel]; rfl)

theorem slicesLength_singleton {i : ℤ}
    (hi : start.tdiv m.blockSize ≤ i ∧ i ≤ stop.tdiv m.blockSize) :
    slicesLength m start stop [i] =
      takeover start stop m.blockSize (i + 1) - takeover start stop m.blockSize i := by
  have ho := blockOffsets hstart hle hstop hbs hi
  have hfirst := ho.first
  have hlast := ho.last
  simp only [slicesLength, List.map_cons, List.map_nil, List.sum_cons, List.sum_nil]
  omega

theorem slicesLength_blocksFrom {i : ℤ} {count : ℕ} (hi : start.tdiv m.blockSize ≤ i)
    (hcount : i + count ≤ stop.tdiv m.blockSize + 1) :
    slicesLength m start stop (blocksFrom i count) =
      takeover start stop m.blockSize (i + count) - takeover start stop m.blockSize i := by
  induction count generalizing i with
  | zero => simp [slicesLength, blocksFrom]
  | succ count ih =>
    have hone := slicesLength_singleton hstart hle hstop hbs ⟨hi, by omega⟩
    have hrest := ih (i := i + 1) (by omega) (by omega)
    have hcons : slicesLength m start stop (blocksFrom i (count + 1)) =
        slicesLength m start stop [i] + slicesLength m start stop (blocksFrom (i + 1) count) := by
      simp [slicesLength, blocksFrom]
    have hnext : i + 1 + (count : ℤ) = i + (count + 1 : ℕ) := by omega
    rw [hcons, hone, hrest, hnext]
    omega

/-- Each operation on a block is exact when the ones before it were. -/
theorem sliceResults_fits (hfits : m.contentLength + m.blockSize < 9223372036854775808) {i : ℤ}
    (hi : start.tdiv m.blockSize ≤ i ∧ i ≤ stop.tdiv m.blockSize) :
    ∀ x ∈ sliceResults m start stop (start.tdiv m.blockSize) i
      (takeover start stop m.blockSize i - start), Fits64 x := by
  have ho := blockOffsets hstart hle hstop hbs hi
  have hfirst := ho.first
  have hlast := ho.last
  have hbase := ho.base
  have hbound := ho.bound
  have hnonneg := ho.nonneg
  have hlocal := ho.le
  have hinside := ho.inside
  have hb₀ := Int.tdiv_nonneg hstart hbs.le
  have hindex : i ≤ stop :=
    hi.2.trans (Int.tdiv_eq_ediv_of_nonneg (hstart.trans hle) ▸ Int.ediv_le_self _ (by omega))
  have htake : takeover start stop m.blockSize (i + 1) ≤ stop + 1 := min_le_right _ _
  have hend : (blockBounds i m.blockSize m.contentLength).2 ≤ m.contentLength - 1 := by
    simp only [blockBounds]
    split_ifs <;> omega
  have hbStart : (blockBounds i m.blockSize m.contentLength).1 = i * m.blockSize := rfl
  simp only [sliceResults, List.forall_mem_cons, Fits64, hbStart]
  refine ⟨?_, ?_, ?_, ?_, ?_, ?_, ?_, ?_, ?_, ?_, ?_, ?_, by simp⟩
  all_goals omega

theorem slicesResults_fits (hfits : m.contentLength + m.blockSize < 9223372036854775808) {i : ℤ}
    {count : ℕ} (hi : start.tdiv m.blockSize ≤ i) (hcount : i + count ≤ stop.tdiv m.blockSize + 1) :
    ∀ x ∈ slicesResults m start stop (start.tdiv m.blockSize) (blocksFrom i count)
      (takeover start stop m.blockSize i - start), Fits64 x := by
  induction count generalizing i with
  | zero => simp [slicesResults, blocksFrom]
  | succ count ih =>
    have hone := slicesLength_singleton hstart hle hstop hbs ⟨hi, by omega⟩
    have hoff : takeover start stop m.blockSize i - start + slicesLength m start stop [i] =
        takeover start stop m.blockSize (i + 1) - start := by
      omega
    intro x hx
    rw [blocksFrom, slicesResults, hoff, List.mem_append] at hx
    rcases hx with hx | hx
    · exact sliceResults_fits hstart hle hstop hbs hfits ⟨hi, by omega⟩ x hx
    · exact ih (by omega) (by omega) x hx

end Covering

theorem isChain_blocksFrom {R : ℤ → ℤ → Prop} {i : ℤ} {count : ℕ}
    (h : ∀ j, i ≤ j → j + 1 < i + count → R j (j + 1)) : (blocksFrom i count).IsChain R := by
  induction count generalizing i with
  | zero => exact .nil
  | succ count ih =>
    cases count with
    | zero => exact .singleton i
    | succ count =>
      exact .cons_cons (h i le_rfl (by omega))
        (ih fun j hj hlt => h j (by omega) (by omega))

theorem pairwise_blocksFrom (i : ℤ) (count : ℕ) : (blocksFrom i count).Pairwise (· < ·) := by
  induction count generalizing i with
  | zero => exact List.Pairwise.nil
  | succ count ih =>
    refine List.Pairwise.cons (fun j hj => ?_) (ih (i + 1))
    have hbounds := mem_blocksFrom.mp hj
    omega

theorem getLast?_blocksFrom (i : ℤ) (count : ℕ) :
    (blocksFrom i (count + 1)).getLast? = some (i + count) := by
  induction count generalizing i with
  | zero => simp [blocksFrom]
  | succ count ih =>
    rw [blocksFrom, blocksFrom, List.getLast?_cons_cons, ← blocksFrom, ih]
    congr 1
    omega

/-- The slices of the covering blocks tile the range, and every operation is exact. -/
theorem blockLocalRange_tiles (m : CachedObjectMeta) {start stop : ℤ} (hbs : 0 < m.blockSize)
    (hfits : m.contentLength + m.blockSize < 9223372036854775808) (hstart : 0 ≤ start)
    (hle : start ≤ stop) (hstop : stop < m.contentLength) :
    Tiles m start stop (blockIndices (coveringBlocks start stop m.blockSize).1
      (coveringBlocks start stop m.blockSize).2) ∧
    ∀ x ∈ tilingResults m start stop, Fits64 x := by
  have hstart' := Int.tdiv_eq_ediv_of_nonneg (b := m.blockSize) hstart
  have hstop' := Int.tdiv_eq_ediv_of_nonneg (b := m.blockSize) (hstart.trans hle)
  have hspan : start.tdiv m.blockSize ≤ stop.tdiv m.blockSize := by
    rw [hstart', hstop']
    exact Int.ediv_le_ediv hbs hle
  obtain ⟨count, hcount⟩ : ∃ n : ℕ, stop.tdiv m.blockSize = start.tdiv m.blockSize + n :=
    ⟨(stop.tdiv m.blockSize - start.tdiv m.blockSize).toNat, by omega⟩
  have hindices : blockIndices (coveringBlocks start stop m.blockSize).1
      (coveringBlocks start stop m.blockSize).2 =
      blocksFrom (start.tdiv m.blockSize) (count + 1) := by
    simp only [blockIndices, coveringBlocks]
    congr 1
    omega
  have hmem : ∀ i ∈ blocksFrom (start.tdiv m.blockSize) (count + 1),
      start.tdiv m.blockSize ≤ i ∧ i ≤ stop.tdiv m.blockSize := by
    intro i hi
    have hbounds := mem_blocksFrom.mp hi
    omega
  have hbounds : ∀ i ∈ blocksFrom (start.tdiv m.blockSize) (count + 1), _ :=
    fun i hi => sliceBounds_eq hstart hle hstop hbs (hmem i hi)
  -- the first block begins no later than the range, and the one after the last later
  have hlow : takeover start stop m.blockSize (start.tdiv m.blockSize) = start := by
    have hmul := Int.ediv_mul_le start hbs.ne'
    rw [takeover, hstart']
    omega
  have hhigh : takeover start stop m.blockSize (stop.tdiv m.blockSize + 1) = stop + 1 := by
    have hmul := Int.lt_ediv_add_one_mul_self stop hbs
    rw [takeover, hstop']
    omega
  rw [hindices]
  constructor
  · constructor
    case inside =>
      intro i hi
      have ho := blockOffsets hstart hle hstop hbs (hmem i hi)
      exact ⟨ho.nonneg, ho.le, Int.lt_add_one_of_le ho.inside⟩
    case first =>
      rw [blocksFrom, List.head?_cons, Option.map_some, hbounds _ (by simp [blocksFrom]), hlow]
    case consecutive =>
      refine isChain_blocksFrom fun i hi hnext => ?_
      rw [hbounds i (mem_blocksFrom.mpr ⟨hi, by omega⟩),
        hbounds (i + 1) (mem_blocksFrom.mpr ⟨by omega, hnext⟩)]
      exact (Int.sub_add_cancel _ _).symm
    case last =>
      have hlastMem : stop.tdiv m.blockSize ∈ blocksFrom (start.tdiv m.blockSize) (count + 1) :=
        mem_blocksFrom.mpr ⟨hspan, by omega⟩
      rw [getLast?_blocksFrom, ← hcount, Option.map_some, hbounds _ hlastMem, hhigh,
        Int.add_sub_cancel]
    case disjoint =>
      refine (pairwise_blocksFrom _ _).imp_of_mem fun {i j} hi hj hij => ?_
      have hmono := takeover_mono start stop hbs (Int.add_one_le_of_lt hij)
      rw [hbounds i hi, hbounds j hj]
      exact Int.sub_one_lt_of_le hmono
    case union =>
      intro x
      constructor
      · rintro ⟨hx₁, hx₂⟩
        have hx := Int.tdiv_eq_ediv_of_nonneg (b := m.blockSize) (hstart.trans hx₁)
        have hi : x / m.blockSize ∈ blocksFrom (start.tdiv m.blockSize) (count + 1) := by
          have hfrom := Int.ediv_le_ediv hbs hx₁
          have hto := Int.ediv_le_ediv hbs hx₂
          exact mem_blocksFrom.mpr ⟨by omega, by omega⟩
        have hfrom := Int.ediv_mul_le x hbs.ne'
        have hto := Int.lt_ediv_add_one_mul_self x hbs
        refine ⟨_, hi, ?_⟩
        rw [hbounds _ hi]
        simp only [takeover]
        omega
      · rintro ⟨i, hi, hx⟩
        rw [hbounds i hi] at hx
        simp only [takeover] at hx
        omega
    case length =>
      rw [slicesLength_blocksFrom hstart hle hstop hbs le_rfl (by omega), hlow]
      have hpast : start.tdiv m.blockSize + ((count + 1 : ℕ) : ℤ) = stop.tdiv m.blockSize + 1 := by
        omega
      rw [hpast, hhigh]
      omega
  · have hb₀ := Int.tdiv_nonneg hstart hbs.le
    have hbK : stop.tdiv m.blockSize ≤ stop := hstop' ▸ Int.ediv_le_self _ (by omega)
    have hslices := slicesResults_fits hstart hle hstop hbs hfits le_rfl
      (show start.tdiv m.blockSize + ((count + 1 : ℕ) : ℤ) ≤ _ by omega)
    rw [hlow, Int.sub_self, ← hindices] at hslices
    intro x hx
    rcases List.mem_append.mp hx with hx | hx
    · simp only [List.mem_cons, List.not_mem_nil, or_false] at hx
      unfold Fits64
      omega
    · exact hslices x hx

/-- Bytes 10 to 25 of an object of 26 bytes, in blocks of 8 bytes. -/
theorem blockLocalRange_tiles_last :
    ∃ m : CachedObjectMeta, m.blockSize = 8 ∧ m.contentLength = 26 ∧
      blockIndices (coveringBlocks 10 25 8).1 (coveringBlocks 10 25 8).2 = [1, 2, 3] ∧
      Tiles m 10 25 [1, 2, 3] ∧ ∀ x ∈ tilingResults m 10 25, Fits64 x :=
  ⟨{ key := [], bucket := [], blockSize := 8, contentLength := 26 }, rfl, rfl, by decide,
    blockLocalRange_tiles { key := [], bucket := [], blockSize := 8, contentLength := 26 }
      (by decide) (by decide) (by decide) (by decide) (by decide)⟩

end TagGateway.Proxy
