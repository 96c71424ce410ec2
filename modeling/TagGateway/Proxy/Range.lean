import TagGateway.Foundation.Word

/-!
# Byte ranges and blocks

The two range headers as the gateway reads them, and the fixed-size blocks an
inclusive byte range touches. Lengths and offsets are 64-bit; the one
subtraction that can leave that range wraps.
-/
namespace TagGateway.Proxy

open Foundation

/-- A parsed `Content-Range`: `bounds` is there only for the satisfied form,
`total` is `0` when it is unknown or unreadable. -/
structure ContentRange where
  bounds : Option (ℤ × ℤ)
  total : ℤ
deriving DecidableEq, Repr

def parsedInt (s : Bytes) : Option ℤ :=
  match parseInt s with
  | (n, none) => some n
  | (_, some _) => none

def parseContentRange (value : Bytes) : ContentRange :=
  match cutAtLast (byte '/') value with
  | none => ⟨none, 0⟩
  | some (range, totalText) =>
    let total := if totalText = ascii "*" then 0 else (parsedInt totalText).getD 0
    if hasPrefix value (ascii "bytes ") then
      match cutAt (byte '-') (range.drop 6) with
      | none => ⟨none, total⟩
      | some (first, last) =>
        match parsedInt first, parsedInt last with
        | some s, some e => ⟨some (s, e), total⟩
        | _, _ => ⟨none, total⟩
    else ⟨none, total⟩

structure ByteRange where
  start : ℤ
  stop : ℤ
deriving DecidableEq, Repr

/-- One element of the range list; `none` refuses the whole header. -/
def parseRangePart (part : Bytes) (totalSize : ℤ) : Option ByteRange := do
  let (startText, endText) ← cutAt (byte '-') part
  let (start, stop) ←
    if startText = [] then do
      let suffixLen ← parsedInt endText
      let start := wrap64 (totalSize - suffixLen)
      pure (if start < 0 then 0 else start, totalSize - 1)
    else do
      let start ← parsedInt startText
      if endText = [] then pure (start, totalSize - 1)
      else do
        let stop ← parsedInt endText
        pure (start, stop)
  if start < 0 ∨ totalSize ≤ start then none
  else
    let stop := if totalSize ≤ stop then totalSize - 1 else stop
    if stop < start then none else some ⟨start, stop⟩

/-- The ranges a `Range` header asks for, clamped to the object. -/
def parseRangeHeader (value : Bytes) (totalSize : ℤ) : Option (List ByteRange) :=
  if hasPrefix value (ascii "bytes=") then
    let parts := ((value.drop 6).splitOn (byte ',')).map trimSpace
    (parts.filter (· ≠ [])).mapM fun part => parseRangePart part totalSize
  else none

theorem parseRangePart_bounds {part : Bytes} {totalSize : ℤ} {rng : ByteRange}
    (h : parseRangePart part totalSize = some rng) :
    0 ≤ rng.start ∧ rng.start ≤ rng.stop ∧ rng.stop < totalSize := by
  have hclamp : ∀ start stop : ℤ, (if start < 0 ∨ totalSize ≤ start then none
      else if (if totalSize ≤ stop then totalSize - 1 else stop) < start then none
      else some (ByteRange.mk start (if totalSize ≤ stop then totalSize - 1 else stop))) =
        some rng → 0 ≤ rng.start ∧ rng.start ≤ rng.stop ∧ rng.stop < totalSize := by
    intro start stop hclamped
    split_ifs at hclamped <;> cases hclamped <;> dsimp only <;> omega
  -- the forms of a range differ only in the bounds that are clamped
  simp only [parseRangePart, Option.bind_eq_bind, Option.pure_def, Option.bind_eq_some_iff] at h
  obtain ⟨texts, -, h⟩ := h
  split at h
  · obtain ⟨suffixLen, -, h⟩ := Option.bind_eq_some_iff.mp h
    exact hclamp _ _ h
  · obtain ⟨start, -, h⟩ := Option.bind_eq_some_iff.mp h
    split at h
    · exact hclamp _ _ h
    · obtain ⟨stop, -, h⟩ := Option.bind_eq_some_iff.mp h
      exact hclamp _ _ h

theorem parseRangeHeader_mem_bounds {value : Bytes} {totalSize : ℤ} {ranges : List ByteRange}
    (h : parseRangeHeader value totalSize = some ranges) {rng : ByteRange} (hrng : rng ∈ ranges) :
    0 ≤ rng.start ∧ rng.start ≤ rng.stop ∧ rng.stop < totalSize := by
  unfold parseRangeHeader at h
  dsimp only at h
  split at h
  · generalize List.filter _ _ = parts at h
    induction parts generalizing ranges with
    | nil =>
      cases h
      cases hrng
    | cons part rest ih =>
      simp only [List.mapM_cons, Option.pure_def, Option.bind_eq_bind, Option.bind_eq_some_iff,
        Option.some.injEq] at h
      obtain ⟨first, hpart, others, hothers, rfl⟩ := h
      rcases List.mem_cons.mp hrng with rfl | hrng
      · exact parseRangePart_bounds hpart
      · exact ih hrng hothers
  · cases h

theorem parseRangeHeader_bounds {value : Bytes} {totalSize : ℤ} {rng : ByteRange}
    (h : parseRangeHeader value totalSize = some [rng]) :
    0 ≤ rng.start ∧ rng.start ≤ rng.stop ∧ rng.stop < totalSize :=
  parseRangeHeader_mem_bounds h List.mem_cons_self

def coveringBlocks (start stop blockSize : ℤ) : ℤ × ℤ :=
  (start.tdiv blockSize, stop.tdiv blockSize)

def blockBounds (i blockSize contentLength : ℤ) : ℤ × ℤ :=
  let start := i * blockSize
  let stop := start + blockSize - 1
  (start, if contentLength - 1 < stop then contentLength - 1 else stop)

/-- The part of an inclusive byte range that falls into one block, counted from
the block's start. -/
def blockLocalRange (i start stop blockSize contentLength : ℤ) : ℤ × ℤ :=
  let (bStart, bEnd) := blockBounds i blockSize contentLength
  (max start bStart - bStart, min stop bEnd - bStart)

/-- The blocks a single-range request covers; any other request touches none. -/
def touchedBlocks (rangeHeader : Bytes) (totalSize blockSize : ℤ) : List ℤ :=
  match parseRangeHeader rangeHeader totalSize with
  | some [r] =>
    let (b₀, bK) := coveringBlocks r.start r.stop blockSize
    (List.range (bK - b₀ + 1).toNat).map fun i => b₀ + (i : ℤ)
  | _ => []

/-- A request that touches more blocks than this is not populated. -/
def maxRangeBlockFanout : ℕ := 32

example : touchedBlocks (ascii "bytes=10-25") 100 8 = [1, 2, 3] := by decide

end TagGateway.Proxy
