import TagGateway.Foundation.ByteString
import Mathlib.Data.List.Dedup

/-!
# Header maps

A header map sends field names to lists of values. It is a finite map, kept as
an association list without repeated names, whose order means nothing. The
accessors canonicalise the name they are given, the map itself may hold any
name.
-/
namespace TagGateway.Foundation

def isTokenByte (b : UInt8) : Bool :=
  isUpper b || isLower b || isDigit b || (ascii "!#$%&'*+-.^_|~").contains b || b == 0x60

def capitalise (upper : Bool) : Bytes → Bytes
  | [] => []
  | b :: bs => (if upper then upperByte b else lowerByte b) :: capitalise (b == byte '-') bs

/-- The canonical form of a field name; a name that is no token stays as it
is. -/
def canonicalHeaderKey (name : Bytes) : Bytes :=
  if name.all isTokenByte then capitalise true name else name

/-- A field name: a token in its canonical form. -/
def IsFieldName (name : Bytes) : Prop :=
  name.all isTokenByte = true ∧ canonicalHeaderKey name = name

instance (name : Bytes) : Decidable (IsFieldName name) :=
  inferInstanceAs (Decidable (_ ∧ _))

theorem tokenByte_cases {b : UInt8} (h : isTokenByte b = true) :
    isTokenByte (lowerByte b) = true ∧ b ≠ 0xC4 ∧ b ≠ 0xE2 ∧
      upperByte (lowerByte b) = upperByte b ∧ lowerByte (lowerByte b) = lowerByte b ∧
      (lowerByte b == byte '-') = (b == byte '-') := by
  have hall : ∀ n : Fin 256, isTokenByte (UInt8.ofFin n) = true →
      isTokenByte (lowerByte (UInt8.ofFin n)) = true ∧ UInt8.ofFin n ≠ 0xC4 ∧
      UInt8.ofFin n ≠ 0xE2 ∧ upperByte (lowerByte (UInt8.ofFin n)) = upperByte (UInt8.ofFin n) ∧
      lowerByte (lowerByte (UInt8.ofFin n)) = lowerByte (UInt8.ofFin n) ∧
      (lowerByte (UInt8.ofFin n) == byte '-') = (UInt8.ofFin n == byte '-') := by
    decide +kernel
  exact hall b.toFin h

theorem toLower_cons {b : UInt8} (h : isTokenByte b = true) (bs : Bytes) :
    toLower (b :: bs) = lowerByte b :: toLower bs := by
  obtain ⟨-, hC4, hE2, -⟩ := tokenByte_cases h
  rw [toLower]
  · exact fun _ h _ => hC4 h
  · exact fun _ h _ => hE2 h

/-- Lower case and then the canonical form: the name again. -/
theorem canonicalHeaderKey_toLower {name : Bytes} (h : IsFieldName name) :
    canonicalHeaderKey (toLower name) = name ∧ (toLower name).all isTokenByte = true := by
  have hlower : ∀ (upper : Bool) (s : Bytes), s.all isTokenByte = true →
      (toLower s).all isTokenByte = true ∧ capitalise upper (toLower s) = capitalise upper s := by
    intro upper s hs
    induction s generalizing upper with
    | nil => exact ⟨rfl, rfl⟩
    | cons b bs ih =>
      rw [List.all_cons, Bool.and_eq_true] at hs
      obtain ⟨htoken, -, -, hupper, hlow, hhyphen⟩ := tokenByte_cases hs.1
      obtain ⟨hall, hcap⟩ := ih (b == byte '-') hs.2
      rw [toLower_cons hs.1]
      refine ⟨by rw [List.all_cons, htoken, hall]; rfl, ?_⟩
      rw [capitalise, capitalise, hhyphen, hcap, hupper, hlow]
  obtain ⟨htoken, hcanonical⟩ := h
  obtain ⟨hall, hcap⟩ := hlower true name htoken
  refine ⟨?_, hall⟩
  rw [canonicalHeaderKey, if_pos hall, hcap]
  rwa [canonicalHeaderKey, if_pos htoken] at hcanonical

structure Header where
  entries : List (Bytes × List Bytes)
  nodup : (entries.map Prod.fst).Nodup
deriving DecidableEq

namespace Header

def empty : Header := ⟨[], List.nodup_nil⟩

def values (h : Header) (name : Bytes) : Option (List Bytes) := h.entries.lookup name

def get (h : Header) (name : Bytes) : Bytes :=
  ((h.values (canonicalHeaderKey name)).bind List.head?).getD []

def names (h : Header) : List Bytes := h.entries.map Prod.fst

theorem nodup_filter (h : Header) (p : Bytes × List Bytes → Bool) :
    ((h.entries.filter p).map Prod.fst).Nodup :=
  h.nodup.sublist (List.Sublist.map _ List.filter_sublist)

def erase (h : Header) (name : Bytes) : Header :=
  ⟨h.entries.filter fun e => e.1 != name, h.nodup_filter _⟩

def del (h : Header) (name : Bytes) : Header := h.erase (canonicalHeaderKey name)

theorem not_mem_erase (h : Header) (name : Bytes) :
    name ∉ (h.erase name).entries.map Prod.fst := by
  simp [erase]

def put (h : Header) (name : Bytes) (vs : List Bytes) : Header :=
  ⟨(name, vs) :: (h.erase name).entries,
    List.nodup_cons.mpr ⟨h.not_mem_erase name, (h.erase name).nodup⟩⟩

def set (h : Header) (name value : Bytes) : Header := h.put (canonicalHeaderKey name) [value]

@[simp] theorem values_put_self (h : Header) (name : Bytes) (vs : List Bytes) :
    (h.put name vs).values name = some vs := by
  simp [values, put]

/-- Dropping other names leaves the values of a name alone. -/
theorem values_filter (h : Header) (p : Bytes → Bool) {name : Bytes} (hp : p name = true) :
    values ⟨h.entries.filter fun e => p e.1, h.nodup_filter _⟩ name = h.values name := by
  simp only [values]
  induction h.entries with
  | nil => rfl
  | cons e es ih =>
    obtain ⟨k, vs⟩ := e
    by_cases hk : p k = true
    · simp only [List.filter_cons, hk, if_true, List.lookup_cons, ih]
    · have hne : (name == k) = false := beq_false_of_ne fun heq => hk (heq ▸ hp)
      simp only [List.filter_cons, hk, List.lookup_cons, hne]
      exact ih

theorem mem_names_filter (h : Header) (p : Bytes → Bool) (k : Bytes) :
    k ∈ names ⟨h.entries.filter fun e => p e.1, h.nodup_filter _⟩ ↔ k ∈ h.names ∧ p k = true := by
  simp only [names, List.mem_map, List.mem_filter]
  grind

@[simp] theorem values_erase_ne (h : Header) {name other : Bytes} (hne : other ≠ name) :
    (h.erase name).values other = h.values other :=
  h.values_filter (fun k => k != name) (bne_iff_ne.mpr hne)

@[simp] theorem mem_names_put (h : Header) (name : Bytes) (vs : List Bytes) (k : Bytes) :
    k ∈ (h.put name vs).names ↔ k = name ∨ k ∈ h.names := by
  by_cases hk : k = name
  · simp [names, put, hk]
  · simp [names, put, erase, hk]

theorem mem_names_of_isSome {h : Header} {name : Bytes} (hsome : (h.values name).isSome) :
    name ∈ h.names := by
  obtain ⟨e, he, hname⟩ := List.lookup_isSome_iff.mp hsome
  exact List.mem_map.mpr ⟨e, he, (eq_of_beq hname).symm⟩

@[simp] theorem values_put_ne (h : Header) {name other : Bytes} (vs : List Bytes)
    (hne : other ≠ name) : (h.put name vs).values other = h.values other := by
  have ho : (other == name) = false := by simpa using hne
  calc (h.put name vs).values other = (h.erase name).values other := by
        simp [values, put, List.lookup_cons, ho]
    _ = h.values other := h.values_erase_ne hne

section Lower

variable (p : Bytes → Bool)

/-- Store the fields whose lower-case names are asked for, under these names. -/
def putLower (es : List (Bytes × List Bytes)) (h : Header) : Header :=
  es.foldl (fun h e => if p (toLower e.1) then h.put (toLower e.1) e.2 else h) h

theorem mem_names_putLower (name : Bytes) (es : List (Bytes × List Bytes)) (h : Header) :
    name ∈ (putLower p es h).names ↔
      name ∈ h.names ∨ p name ∧ ∃ k ∈ es.map Prod.fst, toLower k = name := by
  unfold putLower
  induction es generalizing h with
  | nil => simp
  | cons e es ih =>
    rw [List.foldl_cons, ih]
    by_cases hsigned : p (toLower e.1) = true
    · rw [if_pos hsigned, mem_names_put]
      grind
    · rw [if_neg hsigned]
      grind

/-- The values under a name are the ones the fields have for it. -/
theorem values_putLower {es : List (Bytes × List Bytes)} (hfield : ∀ e ∈ es, IsFieldName e.1)
    (hnodup : (es.map Prod.fst).Nodup) (h : Header) {key : Bytes} (hkey : IsFieldName key)
    (hp : p (toLower key) = true) :
    (putLower p es h).values (toLower key) = (es.lookup key).or (h.values (toLower key)) := by
  unfold putLower
  induction es generalizing h with
  | nil => rfl
  | cons e es ih =>
    obtain ⟨k, vs⟩ := e
    simp only [List.forall_mem_cons, List.map_cons, List.nodup_cons] at hfield hnodup
    rw [List.foldl_cons, ih hfield.2 hnodup.2, List.lookup_cons]
    by_cases hk : key = k
    · subst hk
      have hnone : es.lookup key = none := by
        rw [List.lookup_eq_none_iff]
        intro p hp
        simpa using fun h => hnodup.1 (List.mem_map.mpr ⟨p, hp, h.symm⟩)
      rw [hnone, if_pos hp, values_put_self, beq_self_eq_true]
      rfl
    · have hlower : toLower key ≠ toLower k := by
        intro h
        apply hk
        rw [← (canonicalHeaderKey_toLower hkey).1, h, (canonicalHeaderKey_toLower hfield.1).1]
      rw [beq_false_of_ne hk]
      split_ifs
      · rw [values_put_ne _ _ hlower]
      · rfl

end Lower

theorem get_set_self (h : Header) (name value : Bytes) : (h.set name value).get name = value := by
  simp [get, set]

theorem get_set_ne (h : Header) {name other : Bytes} (value : Bytes)
    (hne : canonicalHeaderKey other ≠ canonicalHeaderKey name) :
    (h.set name value).get other = h.get other := by
  simp [get, set, hne]

end Header
end TagGateway.Foundation
