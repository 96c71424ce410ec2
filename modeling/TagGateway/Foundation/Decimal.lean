import TagGateway.Foundation.ByteString
import Mathlib.Data.Int.Basic

/-!
# Decimal numbers

What the number parser makes of a text: digits, perhaps with a sign, whose value fits a
signed 64-bit word.
-/
namespace TagGateway.Foundation

def decimal (digits : Bytes) : ℕ := digits.foldl (fun n b => n * 10 + (b - byte '0').toNat) 0

def isNumeral (text : Bytes) : Bool := text != [] && text.all isDigit

def readNumber (text : Bytes) : Option ℤ :=
  let negative := text.head? = some (byte '-')
  let digits := if negative ∨ text.head? = some (byte '+') then text.tail else text
  if isNumeral digits then some (if negative then -(decimal digits : ℤ) else decimal digits) else none

def FitsInt64 (n : ℤ) : Prop := -(int64Bound : ℤ) ≤ n ∧ n < int64Bound

theorem le_foldl_decimal (digits : Bytes) (acc : ℕ) :
    acc ≤ digits.foldl (fun n b => n * 10 + (b - byte '0').toNat) acc := by
  induction digits generalizing acc with
  | nil => exact le_rfl
  | cons b digits ih =>
    have hrest := ih (acc * 10 + (b - byte '0').toNat)
    rw [List.foldl_cons]
    omega

inductive UintRead (acc : ℕ) (digits : Bytes) : ℕ × Option NumError → Prop
  | number (hdigits : digits.all isDigit = true)
      (hfits : digits.foldl (fun n b => n * 10 + (b - byte '0').toNat) acc < 2 ^ 64) :
      UintRead acc digits (digits.foldl (fun n b => n * 10 + (b - byte '0').toNat) acc, none)
  | noNumber (hdigits : digits.all isDigit = false) : UintRead acc digits (0, some .badSyntax)
  | large (hlarge : 2 ^ 64 ≤ digits.foldl (fun n b => n * 10 + (b - byte '0').toNat) acc) :
      UintRead acc digits (2 ^ 64 - 1, some .outOfRange)

theorem parseUintLoop_read (digits : Bytes) {acc : ℕ} (hacc : acc < 2 ^ 64) :
    UintRead acc digits (parseUintLoop acc digits) := by
  induction digits generalizing acc with
  | nil => exact .number rfl hacc
  | cons b digits ih =>
    rw [parseUintLoop]
    dsimp only
    split_ifs with hdigit hnext
    · have hrest := ih hnext
      generalize parseUintLoop _ digits = read at hrest ⊢
      cases hrest with
      | number hdigits hfits => exact .number (by simp [hdigit, hdigits]) hfits
      | noNumber hdigits => exact .noNumber (by simp [hdigits])
      | large hlarge => exact .large hlarge
    · have hgrows := le_foldl_decimal digits (acc * 10 + (b - byte '0').toNat)
      exact .large (by rw [List.foldl_cons]; omega)
    · exact .noNumber (by simp [hdigit])

/-- The numbers with or without sign that fit a word are read. -/
theorem parseInt_ok_iff {text : Bytes} {v : ℤ} :
    parseInt text = (v, none) ↔ readNumber text = some v ∧ FitsInt64 v := by
  have hbound : int64Bound = 9223372036854775808 := rfl
  unfold parseInt readNumber FitsInt64
  dsimp only
  generalize (if text.head? = some (byte '-') ∨ text.head? = some (byte '+') then text.tail
    else text) = digits
  unfold parseUint isNumeral decimal
  by_cases hempty : digits = []
  · simp [hempty]
  · rw [if_neg hempty, bne_iff_ne.mpr hempty, Bool.true_and]
    have hread := parseUintLoop_read digits (show 0 < 2 ^ 64 by decide)
    generalize parseUintLoop 0 digits = read at hread ⊢
    cases hread with
    | number hdigits hfits =>
      rw [if_pos hdigits]
      dsimp only
      split_ifs <;> simp <;> omega
    | noNumber hdigits => simp [hdigits]
    | large hlarge =>
      dsimp only
      split_ifs <;> simp <;> omega

theorem digit_ne {b : UInt8} (h : isDigit b = true) :
    isGraphic b = true ∧ b ≠ byte '-' ∧ b ≠ byte '+' := by
  refine ⟨?_, ?_, ?_⟩
  · simp only [isDigit, Bool.and_eq_true, decide_eq_true_eq, UInt8.le_iff_toNat_le] at h
    have hlow : (byte '0').toNat = 48 := rfl
    have hhigh : (byte '9').toNat = 57 := rfl
    have hfirst : (33 : UInt8).toNat = 33 := rfl
    have hlast : (126 : UInt8).toNat = 126 := rfl
    simp only [isGraphic, Bool.and_eq_true, decide_eq_true_eq, UInt8.le_iff_toNat_le]
    omega
  · rintro rfl
    exact absurd h (by decide)
  · rintro rfl
    exact absurd h (by decide)

theorem head_ne_sign {text : Bytes} (h : text.all isDigit = true) :
    text.head? ≠ some (byte '-') ∧ text.head? ≠ some (byte '+') := by
  rw [List.all_eq_true] at h
  have hsign : ∀ c, (∀ b, isDigit b = true → b ≠ c) → text.head? ≠ some c :=
    fun c hc hhead => hc c (h c (List.mem_of_head? hhead)) rfl
  exact ⟨hsign _ fun b hb => (digit_ne hb).2.1, hsign _ fun b hb => (digit_ne hb).2.2⟩

theorem readNumber_digits {text : Bytes} (h : text.all isDigit = true) :
    readNumber text = if text = [] then none else some (decimal text : ℤ) := by
  obtain ⟨hminus, hplus⟩ := head_ne_sign h
  simp only [readNumber, hminus, hplus, or_self, if_false, isNumeral, h, Bool.and_true, bne_iff_ne,
    ne_eq, ite_not]

end TagGateway.Foundation
