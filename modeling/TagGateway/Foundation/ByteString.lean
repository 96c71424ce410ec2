import Mathlib.Algebra.Group.Nat.Defs
import Mathlib.Data.List.Infix

/-!
# Byte strings

Strings are sequences of bytes with no encoding attached. The operations are
the ones of a systems language's string library, on every sequence and not
only on well-formed text.
-/
namespace TagGateway.Foundation

abbrev Bytes := List UInt8

/-- The bytes of a literal whose characters are all below 256. -/
def ascii (s : String) : Bytes :=
  s.toList.map fun c => c.toNat.toUInt8

def byte (c : Char) : UInt8 := c.toNat.toUInt8

def hasPrefix (s pre : Bytes) : Bool := pre.isPrefixOf s

def contains (s sub : Bytes) : Bool := decide (sub <:+: s)

def isUpper (b : UInt8) : Bool := byte 'A' ≤ b && b ≤ byte 'Z'

def isLower (b : UInt8) : Bool := byte 'a' ≤ b && b ≤ byte 'z'

def isDigit (b : UInt8) : Bool := byte '0' ≤ b && b ≤ byte '9'

def lowerByte (b : UInt8) : UInt8 := if isUpper b then b + 32 else b

def upperByte (b : UInt8) : UInt8 := if isLower b then b - 32 else b

/-- Lower case of a byte string. Outside ASCII only the two letters whose lower
case is an ASCII letter are mapped, the dotted capital I and the Kelvin sign;
every other byte stays, so that the result holds the same ASCII text as the
lower case of the whole alphabet does. -/
def toLower : Bytes → Bytes
  | [] => []
  | 0xC4 :: 0xB0 :: bs => byte 'i' :: toLower bs
  | 0xE2 :: 0x84 :: 0xAA :: bs => byte 'k' :: toLower bs
  | b :: bs => lowerByte b :: toLower bs

/-- The form in which two texts are compared without regard to case, when one of
them is ASCII: outside ASCII only the long s and the Kelvin sign fold to a
letter. -/
def foldCase : Bytes → Bytes
  | [] => []
  | 0xC5 :: 0xBF :: bs => byte 's' :: foldCase bs
  | 0xE2 :: 0x84 :: 0xAA :: bs => byte 'k' :: foldCase bs
  | b :: bs => lowerByte b :: foldCase bs

def cutAt (sep : UInt8) : Bytes → Option (Bytes × Bytes)
  | [] => none
  | b :: bs => if b = sep then some ([], bs) else (cutAt sep bs).map fun p => (b :: p.1, p.2)

theorem cutAt_of_not_mem {sep : UInt8} {s : Bytes} (h : sep ∉ s) : cutAt sep s = none := by
  induction s with
  | nil => rfl
  | cons b bs ih =>
    simp only [List.mem_cons, not_or] at h
    rw [cutAt, if_neg (Ne.symm h.1), ih h.2, Option.map_none]

theorem cutAt_append {sep : UInt8} {s : Bytes} (h : sep ∉ s) (t : Bytes) :
    cutAt sep (s ++ sep :: t) = some (s, t) := by
  induction s with
  | nil => simp [cutAt]
  | cons b bs ih =>
    simp only [List.mem_cons, not_or] at h
    rw [List.cons_append, cutAt, if_neg (Ne.symm h.1), ih h.2, Option.map_some]

theorem not_mem_of_cutAt {sep : UInt8} {s : Bytes} {p : Bytes × Bytes}
    (h : cutAt sep s = some p) : sep ∉ p.1 := by
  induction s generalizing p with
  | nil => simp [cutAt] at h
  | cons b bs ih =>
    rw [cutAt] at h
    split_ifs at h with hb
    · rw [← Option.some.inj h]
      exact List.not_mem_nil
    · obtain ⟨q, hq, rfl⟩ := Option.map_eq_some_iff.mp h
      simp only [List.mem_cons, not_or]
      exact ⟨Ne.symm hb, ih hq⟩

theorem eq_of_cutAt {sep : UInt8} {s : Bytes} {p : Bytes × Bytes} (h : cutAt sep s = some p) :
    s = p.1 ++ sep :: p.2 := by
  induction s generalizing p with
  | nil => cases h
  | cons b bs ih =>
    rw [cutAt] at h
    split_ifs at h with hb
    · rw [← Option.some.inj h, hb]
      rfl
    · obtain ⟨q, hq, rfl⟩ := Option.map_eq_some_iff.mp h
      exact congrArg (b :: ·) (ih hq)

theorem eq_of_append_cons {sep : UInt8} {a a' rest rest' : Bytes} (ha : sep ∉ a) (ha' : sep ∉ a')
    (h : a ++ sep :: rest = a' ++ sep :: rest') : a = a' ∧ rest = rest' := by
  have hcut := congrArg (cutAt sep) h
  rw [cutAt_append ha, cutAt_append ha'] at hcut
  exact Prod.mk.inj (Option.some.inj hcut)

/-- Two texts with a separator in them, read at the separators they name: either both name
the same one, or one text goes on where the other's separator stands. -/
theorem append_cons_eq_iff {sep : UInt8} {a a' rest rest' : Bytes} :
    a ++ sep :: rest = a' ++ sep :: rest' ↔ (a = a' ∧ rest = rest') ∨
      (∃ m, a' = a ++ sep :: m ∧ rest = m ++ sep :: rest') ∨
      (∃ m, a = a' ++ sep :: m ∧ rest' = m ++ sep :: rest) := by
  rw [List.append_eq_append_iff]
  constructor
  · rintro (⟨m, rfl, hm⟩ | ⟨m, rfl, hm⟩)
    · cases m with
      | nil => exact .inl ⟨by simp, (List.cons.inj hm).2⟩
      | cons b m =>
        obtain ⟨rfl, hrest⟩ := List.cons.inj hm
        exact .inr (.inl ⟨m, rfl, hrest⟩)
    · cases m with
      | nil => exact .inl ⟨by simp, (List.cons.inj hm).2.symm⟩
      | cons b m =>
        obtain ⟨rfl, hrest⟩ := List.cons.inj hm
        exact .inr (.inr ⟨m, rfl, hrest⟩)
  · rintro (⟨rfl, rfl⟩ | ⟨m, rfl, rfl⟩ | ⟨m, rfl, rfl⟩)
    · exact .inl ⟨[], by simp, rfl⟩
    · exact .inl ⟨sep :: m, rfl, rfl⟩
    · exact .inr ⟨sep :: m, rfl, rfl⟩

theorem eq_of_append_cons_last {sep : UInt8} {a a' rest rest' : Bytes} (hrest : sep ∉ rest)
    (hrest' : sep ∉ rest') (h : a ++ sep :: rest = a' ++ sep :: rest') : a = a' ∧ rest = rest' := by
  rcases append_cons_eq_iff.mp h with h | ⟨m, -, rfl⟩ | ⟨m, -, rfl⟩
  · exact h
  · exact absurd (by simp) hrest
  · exact absurd (by simp) hrest'

def cutAtLast (sep : UInt8) (s : Bytes) : Option (Bytes × Bytes) :=
  (cutAt sep s.reverse).map fun p => (p.2.reverse, p.1.reverse)

/-- The encodings of the characters that count as white space. -/
def spaceEncodings : List Bytes :=
  [[0x20], [0x09], [0x0A], [0x0B], [0x0C], [0x0D], [0xC2, 0x85], [0xC2, 0xA0],
    [0xE1, 0x9A, 0x80], [0xE2, 0x80, 0xA8], [0xE2, 0x80, 0xA9], [0xE2, 0x80, 0xAF],
    [0xE2, 0x81, 0x9F], [0xE3, 0x80, 0x80]] ++
  (List.range 11).map fun i => [0xE2, 0x80, 0x80 + i.toUInt8]

/-- Drop leading words of a list of words, at most `fuel` of them. -/
def dropWords (words : List Bytes) : ℕ → Bytes → Bytes
  | 0, s => s
  | fuel + 1, s =>
    match words.find? fun w => w.isPrefixOf s with
    | none => s
    | some w => dropWords words fuel (s.drop w.length)

def trimSpace (s : Bytes) : Bytes :=
  let left := dropWords spaceEncodings s.length s
  (dropWords (spaceEncodings.map List.reverse) left.length left.reverse).reverse

inductive NumError where
  | badSyntax
  | outOfRange
deriving DecidableEq, Repr

/-- Read an unsigned 64-bit decimal: the first byte that is no digit, or the
first digit that leaves the range, ends the scan. -/
def parseUintLoop (acc : ℕ) : Bytes → ℕ × Option NumError
  | [] => (acc, none)
  | b :: bs =>
    if isDigit b then
      let next := acc * 10 + (b - byte '0').toNat
      if next < 2 ^ 64 then parseUintLoop next bs else (2 ^ 64 - 1, some .outOfRange)
    else (0, some .badSyntax)

def parseUint (s : Bytes) : ℕ × Option NumError :=
  if s = [] then (0, some .badSyntax) else parseUintLoop 0 s

/-- The number of values of either sign that 64 bits hold. -/
def int64Bound : ℕ := 9223372036854775808

/-- Read a signed 64-bit decimal. A syntax error yields `0`, a value out of
range the nearest bound. -/
def parseInt (s : Bytes) : ℤ × Option NumError :=
  let negative := s.head? = some (byte '-')
  let digits := if negative ∨ s.head? = some (byte '+') then s.tail else s
  match parseUint digits with
  | (_, some .badSyntax) => (0, some .badSyntax)
  | (n, _) =>
    if negative then
      if int64Bound < n then (-(int64Bound : ℤ), some .outOfRange) else (-(n : ℤ), none)
    else if int64Bound ≤ n then ((int64Bound : ℤ) - 1, some .outOfRange) else (n, none)

def formatInt : ℤ → Bytes
  | .ofNat n => (Nat.toDigits 10 n).map byte
  | .negSucc n => byte '-' :: (Nat.toDigits 10 (n + 1)).map byte

theorem toNat_byte {c : Char} (hc : c.isDigit = true) :
    (byte c).toNat = c.toNat ∧ 48 ≤ c.toNat ∧ c.toNat ≤ 57 := by
  obtain ⟨hlow, hhigh⟩ := Char.isDigit_iff_toNat.mp hc
  have hsmall : c.toNat ≤ 57 := hhigh
  refine ⟨?_, hlow, hsmall⟩
  change (UInt8.ofNat c.toNat).toNat = c.toNat
  rw [UInt8.toNat_ofNat']
  omega

theorem toDigits_byte_inj {m n : ℕ}
    (h : (Nat.toDigits 10 m).map byte = (Nat.toDigits 10 n).map byte) : m = n := by
  have hback : ∀ k, ((Nat.toDigits 10 k).map byte).map (fun b => Char.ofNat b.toNat) =
      Nat.toDigits 10 k := by
    intro k
    rw [List.map_map]
    conv_rhs => rw [← List.map_id (Nat.toDigits 10 k)]
    apply List.map_congr_left
    intro c hc
    have hdigit := Nat.isDigit_of_mem_toDigits (by decide) (by decide) hc
    simp [(toNat_byte hdigit).1]
  have hdigits := congrArg (List.map fun b : UInt8 => Char.ofNat b.toNat) h
  rw [hback, hback] at hdigits
  rw [← Nat.ofDigitChars_ten_toDigits (n := m), hdigits, Nat.ofDigitChars_ten_toDigits]

theorem digit_of_mem_toDigits {b : UInt8} {n : ℕ} (hb : b ∈ (Nat.toDigits 10 n).map byte) :
    48 ≤ b.toNat ∧ b.toNat ≤ 57 := by
  obtain ⟨c, hc, rfl⟩ := List.mem_map.mp hb
  have hdigit := Nat.isDigit_of_mem_toDigits (by decide) (by decide) hc
  obtain ⟨hbyte, hlow, hhigh⟩ := toNat_byte hdigit
  omega

theorem formatInt_injective {m n : ℤ} (h : formatInt m = formatInt n) : m = n := by
  have hminus : ∀ k, byte '-' ∉ (Nat.toDigits 10 k).map byte := by
    intro k hmem
    have hdigit := digit_of_mem_toDigits hmem
    exact absurd hdigit.1 (by decide)
  cases m with
  | ofNat m =>
    cases n with
    | ofNat n => exact congrArg Int.ofNat (toDigits_byte_inj h)
    | negSucc n =>
      have hm : byte '-' ∈ formatInt (.ofNat m) := h ▸ List.mem_cons_self
      exact absurd hm (hminus m)
  | negSucc m =>
    cases n with
    | ofNat n =>
      have hn : byte '-' ∈ formatInt (.ofNat n) := h ▸ List.mem_cons_self
      exact absurd hn (hminus n)
    | negSucc n =>
      have hdigits := toDigits_byte_inj (List.cons.inj h).2
      exact congrArg Int.negSucc (Nat.succ.inj hdigits)

theorem mem_formatInt {b : UInt8} {n : ℤ} (hb : b ∈ formatInt n) :
    b = byte '-' ∨ 48 ≤ b.toNat ∧ b.toNat ≤ 57 := by
  cases n with
  | ofNat n => exact .inr (digit_of_mem_toDigits hb)
  | negSucc n => exact (List.mem_cons.mp hb).imp id digit_of_mem_toDigits

def hexValue (b : UInt8) : Option ℕ :=
  if isDigit b then some (b - byte '0').toNat
  else if byte 'a' ≤ lowerByte b && lowerByte b ≤ byte 'f' then
    some ((lowerByte b - byte 'a').toNat + 10)
  else none

def parseHexUintLoop (acc : ℕ) : Bytes → Except NumError ℕ
  | [] => .ok acc
  | b :: bs =>
    match hexValue b with
    | none => .error .badSyntax
    | some d =>
      if acc * 16 + d < 18446744073709551616 then parseHexUintLoop (acc * 16 + d) bs
      else .error .outOfRange

def parseHexInt (s : Bytes) : Except NumError ℤ :=
  let negative := s.head? = some (byte '-')
  let digits := if negative ∨ s.head? = some (byte '+') then s.tail else s
  match if digits = [] then .error .badSyntax else parseHexUintLoop 0 digits with
  | .error e => .error e
  | .ok n =>
    if negative then
      if int64Bound < n then .error .outOfRange else .ok (-(n : ℤ))
    else if int64Bound ≤ n then .error .outOfRange else .ok n

theorem dropWords_suffix (words : List Bytes) (fuel : ℕ) (s : Bytes) :
    dropWords words fuel s <:+ s := by
  induction fuel generalizing s with
  | zero => exact List.suffix_refl s
  | succ fuel ih =>
    rw [dropWords]
    split
    · exact List.suffix_refl s
    · rename_i w _
      exact (ih _).trans (List.drop_suffix w.length s)

theorem mem_dropWords {words : List Bytes} {b : UInt8} (hb : ∀ w ∈ words, b ∉ w) (fuel : ℕ)
    {s : Bytes} (hs : b ∈ s) : b ∈ dropWords words fuel s := by
  induction fuel generalizing s with
  | zero => exact hs
  | succ fuel ih =>
    rw [dropWords]
    split
    · exact hs
    · rename_i w hw
      apply ih
      have hpre := List.find?_some (p := fun w : Bytes => w.isPrefixOf s) hw
      obtain ⟨t, rfl⟩ := List.isPrefixOf_iff_prefix.mp hpre
      rw [List.drop_left]
      exact (List.mem_append.mp hs).resolve_left (hb w (List.mem_of_find?_eq_some hw))

theorem mem_of_mem_trimSpace {b : UInt8} {s : Bytes} (h : b ∈ trimSpace s) : b ∈ s := by
  rw [trimSpace, List.mem_reverse] at h
  have hleft := (dropWords_suffix _ _ _).mem h
  rw [List.mem_reverse] at hleft
  exact (dropWords_suffix _ _ _).mem hleft

theorem mem_trimSpace {b : UInt8} {s : Bytes} (hb : ∀ w ∈ spaceEncodings, b ∉ w) (h : b ∈ s) :
    b ∈ trimSpace s := by
  rw [trimSpace, List.mem_reverse]
  apply mem_dropWords
  · intro w hw
    obtain ⟨v, hv, rfl⟩ := List.mem_map.mp hw
    rw [List.mem_reverse]
    exact hb v hv
  · rw [List.mem_reverse]
    exact mem_dropWords hb _ h

theorem hexValue_of_parseHexUintLoop {acc n : ℕ} {s : Bytes} (h : parseHexUintLoop acc s = .ok n) :
    ∀ b ∈ s, (hexValue b).isSome = true := by
  induction s generalizing acc with
  | nil => simp
  | cons b bs ih =>
    rw [parseHexUintLoop] at h
    split at h
    · cases h
    · rename_i d hd
      split_ifs at h
      intro c hc
      rcases List.mem_cons.mp hc with rfl | hc
      · rw [hd]
        rfl
      · exact ih h c hc

theorem parseHexInt_ok {s : Bytes} {n : ℤ} (h : parseHexInt s = .ok n) :
    s ≠ [] ∧ ∀ b ∈ s, b = byte '+' ∨ b = byte '-' ∨ (hexValue b).isSome = true := by
  cases s with
  | nil => exact absurd h (by simp [parseHexInt])
  | cons b bs =>
    apply And.intro (List.cons_ne_nil b bs)
    unfold parseHexInt at h
    dsimp only at h
    split at h
    · cases h
    · rename_i m hm
      generalize hdigits : (if (b :: bs).head? = some (byte '-') ∨
        (b :: bs).head? = some (byte '+') then (b :: bs).tail else b :: bs) = digits at hm
      split_ifs at hm
      have hhex := hexValue_of_parseHexUintLoop hm
      intro c hc
      split_ifs at hdigits with hsign
      · subst hdigits
        rcases List.mem_cons.mp hc with rfl | hc
        · exact hsign.elim (fun h => .inr (.inl (Option.some.inj h))) fun h => .inl (Option.some.inj h)
        · exact .inr (.inr (hhex c hc))
      · subst hdigits
        exact .inr (.inr (hhex c hc))

def hexNumber (digits : Bytes) : ℕ := digits.foldl (fun n b => n * 16 + (hexValue b).getD 0) 0

theorem parseHexUintLoop_digits {digits : Bytes} (hdigits : ∀ b ∈ digits, (hexValue b).isSome = true)
    (acc : ℕ) (hfits : digits.foldl (fun n b => n * 16 + (hexValue b).getD 0) acc <
      18446744073709551616) :
    parseHexUintLoop acc digits =
      .ok (digits.foldl (fun n b => n * 16 + (hexValue b).getD 0) acc) := by
  have hgrows : ∀ (digits : Bytes) (acc : ℕ),
      acc ≤ digits.foldl (fun n b => n * 16 + (hexValue b).getD 0) acc := by
    intro digits
    induction digits with
    | nil => exact fun acc => le_rfl
    | cons b bs ih =>
      intro acc
      have hrest := ih (acc * 16 + (hexValue b).getD 0)
      rw [List.foldl_cons]
      omega
  induction digits generalizing acc with
  | nil => rfl
  | cons b bs ih =>
    obtain ⟨d, hd⟩ := Option.isSome_iff_exists.mp (hdigits b (by simp))
    have hrest := ih (fun c hc => hdigits c (by simp [hc])) (acc * 16 + d)
    have hnext := hgrows bs (acc * 16 + d)
    simp only [List.foldl_cons, hd, Option.getD_some] at hfits ⊢
    rw [parseHexUintLoop, hd]
    dsimp only
    rw [if_pos (by omega), hrest hfits]

theorem parseHexInt_digits {digits : Bytes} (hne : digits ≠ [])
    (hdigits : ∀ b ∈ digits, (hexValue b).isSome = true) (hfits : hexNumber digits < int64Bound) :
    parseHexInt digits = .ok (hexNumber digits) := by
  have hsign : ∀ c, hexValue c = none → digits.head? ≠ some c := by
    intro c hc hhead
    have hsome := hdigits c (List.mem_of_head? hhead)
    rw [hc] at hsome
    cases hsome
  have hminus := hsign (byte '-') (by decide)
  have hplus := hsign (byte '+') (by decide)
  have hbound : int64Bound = 9223372036854775808 := rfl
  have hloop : parseHexUintLoop 0 digits = .ok (hexNumber digits) :=
    parseHexUintLoop_digits hdigits 0 (by unfold hexNumber at hfits; omega)
  simp only [parseHexInt, hminus, hplus, or_self, if_false, hne, hloop]
  rw [if_neg (by omega)]

/-- A printable byte is in the encoding of no white space. -/
def isGraphic (b : UInt8) : Bool := 33 ≤ b && b ≤ 126

/-- What the grammar of HTTP allows around the elements of a list. -/
def isBlank (b : UInt8) : Bool := b == byte ' ' || b == byte '\t'

theorem dropWords_blanks {words : List Bytes} {blanks core : Bytes}
    (hblanks : ∀ b ∈ blanks, [b] ∈ words ∧ ∀ w ∈ words, w.head? = some b → w = [b])
    (hcore : ∀ w ∈ words, w.isPrefixOf core = false) {fuel : ℕ} (hfuel : blanks.length ≤ fuel) :
    dropWords words fuel (blanks ++ core) = core := by
  induction blanks generalizing fuel with
  | nil =>
    cases fuel with
    | zero => rfl
    | succ fuel =>
      rw [List.nil_append, dropWords, List.find?_eq_none.mpr]
      intro w hw
      rw [hcore w hw]
      exact Bool.false_ne_true
  | cons b blanks ih =>
    obtain ⟨fuel, rfl⟩ : ∃ n, fuel = n + 1 := Nat.exists_eq_succ_of_ne_zero (by
      rw [List.length_cons] at hfuel
      omega)
    obtain ⟨hmem, honly⟩ := hblanks b List.mem_cons_self
    have hfound : words.find? (fun w => w.isPrefixOf (b :: blanks ++ core)) = some [b] := by
      cases hfind : words.find? fun w => w.isPrefixOf (b :: blanks ++ core) with
      | none => exact absurd (List.find?_eq_none.mp hfind [b] hmem) (by simp)
      | some w =>
        have hw := List.mem_of_find?_eq_some hfind
        have hpre := List.find?_some (p := fun w : Bytes => w.isPrefixOf (b :: blanks ++ core)) hfind
        cases w with
        | nil => exact absurd (hcore [] hw) (by simp)
        | cons c cs =>
          have hc : c = b := by simp [List.isPrefixOf] at hpre; exact hpre.1
          rw [honly (c :: cs) hw (by rw [hc]; rfl)]
    rw [dropWords, hfound]
    exact ih (fun c hc => hblanks c (List.mem_cons_of_mem b hc))
      (by rw [List.length_cons] at hfuel; omega)

/-- Blanks around a text go as far as its first and its last byte that is printable. -/
theorem trimSpace_padded {before core after : Bytes} (hblank : (before ++ after).all isBlank = true)
    (hfirst : core.head?.all isGraphic = true) (hlast : core.getLast?.all isGraphic = true) :
    trimSpace (before ++ (core ++ after)) = core := by
  have hwords : ∀ words ∈ [spaceEncodings, spaceEncodings.map List.reverse],
      (∀ b ∈ [byte ' ', byte '\t'], [b] ∈ words ∧ ∀ w ∈ words, w.head? = some b → w = [b]) ∧
      ∀ w ∈ words, (w.head?.any fun b => !isGraphic b) = true := by
    decide +kernel
  have hdrop : ∀ words ∈ [spaceEncodings, spaceEncodings.map List.reverse],
      ∀ blanks : Bytes, blanks.all isBlank = true → ∀ t : Bytes, t.head?.all isGraphic = true →
      ∀ fuel, blanks.length ≤ fuel → dropWords words fuel (blanks ++ t) = t := by
    intro words hmem blanks hall t ht fuel hfuel
    apply dropWords_blanks _ _ hfuel
    · intro b hb
      have hb := List.all_eq_true.mp hall b hb
      exact (hwords words hmem).1 b (by simpa [isBlank] using hb)
    · intro w hw
      have hhead := (hwords words hmem).2 w hw
      cases w with
      | nil => cases hhead
      | cons c cs =>
        cases t with
        | nil => rfl
        | cons d ds =>
          have hne : c ≠ d := by
            rintro rfl
            simp_all
          simp [List.isPrefixOf, hne]
  rw [List.all_append, Bool.and_eq_true] at hblank
  have hright : dropWords (spaceEncodings.map List.reverse) (core ++ after).length
      (core ++ after).reverse = core.reverse := by
    rw [List.reverse_append]
    exact hdrop _ (by simp) after.reverse (by rw [List.all_reverse]; exact hblank.2) core.reverse
      (by rw [List.head?_reverse]; exact hlast) _ (by simp)
  have hleft : dropWords spaceEncodings (before ++ (core ++ after)).length
      (before ++ (core ++ after)) = if core = [] then [] else core ++ after := by
    split_ifs with hnil
    · subst hnil
      have hgone := hdrop spaceEncodings (by simp) (before ++ after)
        (by rw [List.all_append, hblank.1, hblank.2]; rfl) [] rfl (before ++ after).length le_rfl
      rwa [List.append_nil] at hgone
    · apply hdrop spaceEncodings (by simp) before hblank.1 (core ++ after) ?_ _ (by simp)
      rw [List.head?_append_of_ne_nil core hnil]
      exact hfirst
  rw [trimSpace, hleft]
  split_ifs with hnil
  · rw [hnil]
    rfl
  · rw [hright, List.reverse_reverse]

theorem trimSpace_of_graphic {s : Bytes} (hs : ∀ b ∈ s, isGraphic b = true) : trimSpace s = s := by
  have htrim := @trimSpace_padded [] s [] rfl ?_ ?_
  · rwa [List.append_nil] at htrim
  · cases hhead : s.head? with
    | none => rfl
    | some b => exact hs b (List.mem_of_head? hhead)
  · cases hlast : s.getLast? with
    | none => rfl
    | some b => exact hs b (List.mem_of_getLast? hlast)

example : trimSpace (ascii " a b \t") = ascii "a b" := by decide

end TagGateway.Foundation
