import TagGateway.Foundation.Decimal
import TagGateway.Proxy.Range

/-!
# The grammar of `Range`

RFC 7233 has three forms of a byte range, with numbers of any length. The gateway reads
the numbers as signed 64-bit words, which may have a sign, and drops white space around
the range. It knows the unit in lower case only.
-/
namespace TagGateway.Proxy

open Foundation

structure Numeral where
  text : Bytes
  legal : isNumeral text = true

def Numeral.value (n : Numeral) : ℤ := decimal n.text

inductive RangeSpec where
  | firstLast (first last : Numeral)
  | firstOn (first : Numeral)
  | suffix (length : Numeral)

namespace RangeSpec

def text : RangeSpec → Bytes
  | firstLast first last => first.text ++ byte '-' :: last.text
  | firstOn first => first.text ++ [byte '-']
  | suffix length => byte '-' :: length.text

/-- The bytes that are meant, if the range is valid and any of them exists. -/
def resolve (total : ℤ) : RangeSpec → Option ByteRange
  | firstLast first last =>
    if first.value ≤ last.value ∧ first.value < total then
      some ⟨first.value, min last.value (total - 1)⟩
    else none
  | firstOn first => if first.value < total then some ⟨first.value, total - 1⟩ else none
  | suffix length =>
    if 0 < length.value ∧ 0 < total then some ⟨max 0 (total - length.value), total - 1⟩ else none

end RangeSpec

/-! ## Ranges -/

theorem parsedInt_eq_some {text : Bytes} {v : ℤ} :
    parsedInt text = some v ↔ readNumber text = some v ∧ FitsInt64 v := by
  rw [← parseInt_ok_iff, parsedInt]
  cases parseInt text with
  | mk n err =>
    cases err with
    | none => simp
    | some e => simp

def numbersOf (part : Bytes) : List Bytes :=
  match cutAt (byte '-') part with
  | none => []
  | some (first, last) =>
    if first = [] then [last] else if last = [] then [first] else [first, last]

def clampRange (total start stop : ℤ) : Option ByteRange :=
  if start < 0 ∨ total ≤ start then none
  else
    let stop := if total ≤ stop then total - 1 else stop
    if stop < start then none else some ⟨start, stop⟩

/-- The range with numbers of any size, which may have signs. -/
def looseRange (part : Bytes) (total : ℤ) : Option ByteRange := do
  let (first, last) ← cutAt (byte '-') part
  if first = [] then do
    let length ← readNumber last
    clampRange total (if total - length < 0 then 0 else total - length) (total - 1)
  else do
    let start ← readNumber first
    if last = [] then clampRange total start (total - 1)
    else do
      let stop ← readNumber last
      clampRange total start stop

/-- The length of a suffix is negative, and the first byte is found beyond the last word. -/
def SuffixWraps (part : Bytes) (total : ℤ) : Prop :=
  ∃ last length, cutAt (byte '-') part = some ([], last) ∧ parsedInt last = some length ∧
    (int64Bound : ℤ) ≤ total - length

def NumbersFit (part : Bytes) : Prop := ∀ t ∈ numbersOf part, ∀ v, readNumber t = some v → FitsInt64 v

section Parts

variable {part : Bytes} {total : ℤ} {r : ByteRange}

theorem parseRangePart_eq_clamp (first last : Bytes) (hcut : cutAt (byte '-') part = some (first, last)) :
    parseRangePart part total =
      if first = [] then (parsedInt last).bind fun length =>
        clampRange total (if wrap64 (total - length) < 0 then 0 else wrap64 (total - length)) (total - 1)
      else (parsedInt first).bind fun start =>
        if last = [] then clampRange total start (total - 1)
        else (parsedInt last).bind fun stop => clampRange total start stop := by
  unfold parseRangePart clampRange
  simp only [hcut, Option.bind_eq_bind, Option.bind_some, Option.pure_def]

theorem parsedInt_of_fits {text : Bytes} {v : ℤ} (hread : readNumber text = some v)
    (hfits : FitsInt64 v) : parsedInt text = some v :=
  parsedInt_eq_some.mpr ⟨hread, hfits⟩

theorem parsedInt_of_not_fits {text : Bytes}
    (h : ∀ v, readNumber text = some v → ¬ FitsInt64 v) : parsedInt text = none := by
  rw [Option.eq_none_iff_forall_ne_some]
  intro v hv
  obtain ⟨hread, hfits⟩ := parsedInt_eq_some.mp hv
  exact h v hread hfits

theorem clampRange_suffix (htotal : 0 ≤ total) (hfits : total < int64Bound) {length : ℤ}
    (hlength : FitsInt64 length) :
    clampRange total (if wrap64 (total - length) < 0 then 0 else wrap64 (total - length))
        (total - 1) = some r ↔
      clampRange total (if total - length < 0 then 0 else total - length) (total - 1) = some r ∨
        (int64Bound : ℤ) ≤ total - length ∧ 0 < total ∧ r = ⟨0, total - 1⟩ := by
  have hbound : (int64Bound : ℤ) = 9223372036854775808 := rfl
  unfold FitsInt64 at hlength
  by_cases hwraps : (int64Bound : ℤ) ≤ total - length
  · have hnegative : wrap64 (total - length) < 0 := by
      unfold wrap64
      rw [Int.bmod_def]
      split_ifs <;> omega
    rw [if_pos hnegative, if_neg (by omega)]
    unfold clampRange
    rw [if_pos (show total - length < 0 ∨ total ≤ total - length by omega)]
    by_cases hpos : 0 < total
    · rw [if_neg (by omega), if_neg (by omega), if_neg (by omega)]
      simp [hwraps, hpos, eq_comm]
    · rw [if_pos (by omega)]
      simp [hpos]
  · rw [wrap64_of_fits (by omega) (by omega)]
    simp [hwraps]

/-- What the gateway reads: the range with signs and numbers of any size, if the numbers fit;
and the whole object where the length of a suffix wraps. -/
theorem parseRangePart_iff (htotal : 0 ≤ total) (hfits : total < int64Bound) :
    parseRangePart part total = some r ↔
      looseRange part total = some r ∧ NumbersFit part ∨
        SuffixWraps part total ∧ 0 < total ∧ r = ⟨0, total - 1⟩ := by
  cases hcut : cutAt (byte '-') part with
  | none => simp [parseRangePart, looseRange, SuffixWraps, hcut]
  | some texts =>
    obtain ⟨first, last⟩ := texts
    rw [parseRangePart_eq_clamp first last hcut]
    simp only [looseRange, hcut, Option.bind_eq_bind, Option.bind_some, NumbersFit, numbersOf,
      SuffixWraps, Option.some.injEq, Prod.mk.injEq]
    by_cases hfirst : first = []
    · simp only [hfirst, if_true, List.mem_singleton, forall_eq, true_and, parsedInt_eq_some]
      cases hread : readNumber last with
      | none => simp [parsedInt_of_not_fits, hread]
      | some length =>
        by_cases hlength : FitsInt64 length
        · simp [parsedInt_of_fits hread hlength, clampRange_suffix htotal hfits hlength, hlength, hread]
        · rw [parsedInt_of_not_fits fun v hv => Option.some.inj (hread.symm.trans hv) ▸ hlength]
          simp [hlength, hread]
    · simp only [hfirst, if_false, false_and, exists_false, or_false]
      cases hread : readNumber first with
      | none => simp [parsedInt_of_not_fits, hread]
      | some start =>
        by_cases hlast : last = []
        · simp only [hlast, if_true, List.mem_singleton, forall_eq, hread, Option.some.injEq,
            forall_eq', Option.bind_some]
          by_cases hstart : FitsInt64 start
          · simp [parsedInt_of_fits hread hstart, hstart]
          · rw [parsedInt_of_not_fits fun v hv => Option.some.inj (hread.symm.trans hv) ▸ hstart]
            simp [hstart]
        · simp only [hlast, if_false, List.mem_cons, List.not_mem_nil, or_false, forall_eq_or_imp,
            forall_eq, hread, Option.some.injEq, forall_eq', Option.bind_some]
          by_cases hstart : FitsInt64 start
          · rw [parsedInt_of_fits hread hstart]
            cases hstop : readNumber last with
            | none => simp [parsedInt_of_not_fits, hstop]
            | some stop =>
              by_cases hfit : FitsInt64 stop
              · simp [parsedInt_of_fits hstop hfit, hstart, hfit]
              · rw [parsedInt_of_not_fits fun v hv => Option.some.inj (hstop.symm.trans hv) ▸ hfit]
                simp [hfit]
          · rw [parsedInt_of_not_fits fun v hv => Option.some.inj (hread.symm.trans hv) ▸ hstart]
            simp [hstart]

theorem looseRange_of_wraps (hfits : total < int64Bound) (h : SuffixWraps part total) :
    looseRange part total = none := by
  obtain ⟨last, length, hcut, hlength, hwraps⟩ := h
  have hbound : (int64Bound : ℤ) = 9223372036854775808 := rfl
  simp only [looseRange, hcut, Option.bind_eq_bind, Option.bind_some, if_true,
    (parsedInt_eq_some.mp hlength).1, clampRange]
  rw [if_neg (show ¬ total - length < 0 by omega), if_pos (by omega)]

end Parts

/-! ## The grammar -/

/-- The range stands without white space around it, and its numbers without signs. -/
def PlainRange (text : Bytes) : Prop :=
  trimSpace text = text ∧ ∀ t ∈ numbersOf text, t.all isDigit = true

namespace RangeSpec

variable {total : ℤ}

theorem numeral_spec (n : Numeral) : n.text ≠ [] ∧ ∀ b ∈ n.text, isDigit b = true := by
  have hlegal := n.legal
  simpa [isNumeral] using hlegal

theorem dash_not_mem (n : Numeral) : byte '-' ∉ n.text := by
  intro hmem
  exact (digit_ne ((numeral_spec n).2 _ hmem)).2.1 rfl

theorem readNumber_text (n : Numeral) : readNumber n.text = some n.value := by
  rw [readNumber_digits (List.all_eq_true.mpr (numeral_spec n).2), if_neg (numeral_spec n).1]
  rfl

theorem cutAt_text (spec : RangeSpec) : cutAt (byte '-') spec.text = some (match spec with
    | firstLast first last => (first.text, last.text)
    | firstOn first => (first.text, [])
    | suffix length => ([], length.text)) := by
  cases spec with
  | firstLast first last => exact cutAt_append (dash_not_mem first) _
  | firstOn first => exact cutAt_append (dash_not_mem first) _
  | suffix length => rfl

theorem plainRange_text (spec : RangeSpec) : PlainRange spec.text := by
  constructor
  · apply trimSpace_of_graphic
    have hdigits : ∀ n : Numeral, ∀ b ∈ n.text, isGraphic b = true := fun n b hb =>
      (digit_ne ((numeral_spec n).2 b hb)).1
    intro b hb
    cases spec with
    | firstLast first last =>
      rcases List.mem_append.mp hb with hb | hb
      · exact hdigits first b hb
      · rcases List.mem_cons.mp hb with rfl | hb
        · rfl
        · exact hdigits last b hb
    | firstOn first =>
      rcases List.mem_append.mp hb with hb | hb
      · exact hdigits first b hb
      · rw [List.mem_singleton.mp hb]
        rfl
    | suffix length =>
      rcases List.mem_cons.mp hb with rfl | hb
      · rfl
      · exact hdigits length b hb
  · rw [numbersOf, cutAt_text]
    cases spec with
    | firstLast first last =>
      simpa [numeral_spec] using And.intro (numeral_spec first).2 (numeral_spec last).2
    | firstOn first => simpa [numeral_spec] using (numeral_spec first).2
    | suffix length => simpa using (numeral_spec length).2

theorem value_nonneg (n : Numeral) : 0 ≤ n.value := Int.natCast_nonneg _

/-- The three forms mean what the gateway makes of them with numbers of any size. -/
theorem looseRange_text (htotal : 0 ≤ total) (spec : RangeSpec) :
    looseRange spec.text total = spec.resolve total := by
  simp only [looseRange, cutAt_text, Option.bind_eq_bind, Option.bind_some]
  cases spec with
  | firstLast first last =>
    have hfirst := value_nonneg first
    have hlast := value_nonneg last
    simp only [(numeral_spec first).1, (numeral_spec last).1, if_false, readNumber_text,
      Option.bind_some, clampRange, resolve]
    split_ifs
    all_goals first
      | rfl
      | omega
      | simp only [Option.some.injEq, ByteRange.mk.injEq, true_and]
        omega
  | firstOn first =>
    have hfirst := value_nonneg first
    simp only [(numeral_spec first).1, if_false, if_true, readNumber_text, Option.bind_some,
      clampRange, resolve]
    split_ifs
    all_goals first
      | rfl
      | omega
  | suffix length =>
    have hlength := value_nonneg length
    simp only [if_true, readNumber_text, Option.bind_some, clampRange, resolve]
    split_ifs
    all_goals first
      | rfl
      | omega
      | simp only [Option.some.injEq, ByteRange.mk.injEq, and_true]
        omega

/-- A range without signs that can be read is one of the three forms. -/
theorem exists_of_plain {text : Bytes} {r : ByteRange} (hplain : PlainRange text)
    (hread : looseRange text total = some r) : ∃ spec : RangeSpec, text = spec.text := by
  have hnumbers := hplain.2
  unfold looseRange at hread
  unfold numbersOf at hnumbers
  cases hcut : cutAt (byte '-') text with
  | none => simp [hcut] at hread
  | some texts =>
    obtain ⟨first, last⟩ := texts
    have htext := eq_of_cutAt hcut
    have hnumeral : ∀ t : Bytes, t.all isDigit = true → t ≠ [] → isNumeral t = true := by
      intro t hdigits hne
      simp [isNumeral, hne, hdigits]
    simp only [hcut, Option.bind_eq_bind, Option.bind_some] at hread hnumbers
    split_ifs at hread hnumbers with hfirst hlast
    · have hdigits := hnumbers last (by simp)
      obtain ⟨n, hn, -⟩ := Option.bind_eq_some_iff.mp hread
      rw [readNumber_digits hdigits] at hn
      split_ifs at hn with hne
      exact ⟨.suffix ⟨last, hnumeral last hdigits hne⟩, by rw [htext, hfirst]; rfl⟩
    · exact ⟨.firstOn ⟨first, hnumeral first (hnumbers first (by simp)) hfirst⟩,
        by rw [htext, hlast]; rfl⟩
    · exact ⟨.firstLast ⟨first, hnumeral first (hnumbers first (by simp)) hfirst⟩
        ⟨last, hnumeral last (hnumbers last (by simp)) hlast⟩, htext⟩

theorem exists_resolve_iff (htotal : 0 ≤ total) {text : Bytes} {r : ByteRange} :
    (∃ spec : RangeSpec, text = spec.text ∧ spec.resolve total = some r) ↔
      PlainRange text ∧ looseRange (trimSpace text) total = some r := by
  constructor
  · rintro ⟨spec, rfl, hresolve⟩
    have hplain := spec.plainRange_text
    exact ⟨hplain, by rw [hplain.1, looseRange_text htotal, hresolve]⟩
  · rintro ⟨hplain, hread⟩
    rw [hplain.1] at hread
    obtain ⟨spec, rfl⟩ := exists_of_plain hplain hread
    exact ⟨spec, rfl, by rw [← looseRange_text htotal, hread]⟩

end RangeSpec

/-! ## The header -/

theorem parseRangeHeader_single {unit text : Bytes} (hunit : unit.map lowerByte = ascii "bytes")
    (htext : byte ',' ∉ text) (total : ℤ) (r : ByteRange) :
    parseRangeHeader (unit ++ byte '=' :: text) total = some [r] ↔
      unit = ascii "bytes" ∧ parseRangePart (trimSpace text) total = some r := by
  by_cases hlower : unit = ascii "bytes"
  · subst hlower
    have hpre : hasPrefix (ascii "bytes" ++ byte '=' :: text) (ascii "bytes=") = true := rfl
    have hdrop : (ascii "bytes" ++ byte '=' :: text).drop 6 = text := rfl
    simp only [parseRangeHeader, hpre, if_true, hdrop, List.splitOn_eq_singleton htext,
      List.map_cons, List.map_nil, true_and]
    by_cases hempty : trimSpace text = []
    · simp [hempty, parseRangePart, cutAt]
    · simp [hempty, Option.bind_eq_some_iff]
  · have hlength : unit.length = 5 := by
      have h := congrArg List.length hunit
      rwa [List.length_map] at h
    have hpre : hasPrefix (unit ++ byte '=' :: text) (ascii "bytes=") = false := by
      rw [← Bool.not_eq_true, hasPrefix, List.isPrefixOf_iff_prefix]
      rintro ⟨rest, hrest⟩
      have hsame : unit ++ byte '=' :: text = ascii "bytes" ++ byte '=' :: rest := hrest.symm
      exact hlower (List.append_inj_left hsame hlength)
    simp [parseRangeHeader, hpre, hlower]

end TagGateway.Proxy
