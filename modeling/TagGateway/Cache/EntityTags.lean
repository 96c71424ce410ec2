import TagGateway.Cache.Keys
import TagGateway.Foundation.CommaList

/-!
# Lists of entity-tags

An `If-Match` or `If-None-Match` header lists entity-tags. The gateway cuts the header at
every comma, but a comma is one of the characters a tag may have. Such a tag falls apart,
and each of its pieces is compared with the stored tag as if it were one.
-/
namespace TagGateway.Cache

open Foundation ListSlot

namespace EntityTag

/-- The two comparisons of RFC 7232. -/
def Equals (strong : Bool) (t s : EntityTag) : Prop :=
  t.text = s.text ∧ (strong = true → t.weak = false ∧ s.weak = false)

theorem hasPrefix_value (t : EntityTag) : hasPrefix t.value (ascii "W/") = t.weak := by
  unfold value marker
  cases t.weak with
  | false => simp [hasPrefix, ascii, byte, List.isPrefixOf]
  | true => simp [hasPrefix]

theorem normalizeETag_value (t : EntityTag) : normalizeETag t.value = t.text := by
  have htrim := trimQuotes_quoted t.quote_not_mem_text
  rw [normalizeETag, hasPrefix_value]
  unfold value marker
  cases t.weak with
  | false => exact htrim
  | true => exact htrim

theorem value_graphic (t : EntityTag) :
    t.value.head?.all isGraphic = true ∧ t.value.getLast?.all isGraphic = true := by
  constructor
  · unfold value marker
    cases t.weak with
    | false => rfl
    | true => rfl
  · have hclosed : t.value = (t.marker ++ byte '"' :: t.text) ++ [byte '"'] := by simp [value]
    rw [hclosed, List.getLast?_concat]
    rfl

theorem comma_mem_value {t : EntityTag} : byte ',' ∈ t.value ↔ byte ',' ∈ t.text := by
  unfold value marker
  cases t.weak with
  | false => simp [byte]
  | true => simp [byte, ascii]

theorem value_ne_star (t : EntityTag) : t.value ≠ ascii "*" := by
  unfold value marker
  cases t.weak with
  | false => simp [byte, ascii]
  | true => simp [byte, ascii]

end EntityTag

/-- How a piece between two commas is compared with the stored tag. -/
def pieceMatches (strong : Bool) (etag piece : Bytes) : Bool :=
  let candidate := trimSpace piece
  candidate == ascii "*" || (candidate != [] &&
    !(strong && (hasPrefix candidate (ascii "W/") || hasPrefix etag (ascii "W/"))) &&
    normalizeETag candidate == normalizeETag etag)

theorem etagListed_eq_any {etag : Bytes} (hetag : etag ≠ []) (header : Bytes) (strong : Bool) :
    etagListed header etag strong =
      (header.splitOn (byte ',')).any (pieceMatches strong etag) := by
  unfold etagListed
  split_ifs with hempty hstar
  · obtain rfl := hempty.resolve_right hetag
    rfl
  · subst hstar
    rfl
  · rfl

section Lists

variable {strong : Bool} {stored : EntityTag} {slots : List (ListSlot EntityTag)}

/-- A place that is cut nowhere is compared as the grammar reads it. -/
theorem pieceMatches_text {s : ListSlot EntityTag} :
    pieceMatches strong stored.value (s.text EntityTag.value) = true ↔
      ∃ t, s.item = some t ∧ t.Equals strong stored := by
  cases hitem : s.item with
  | none =>
    have htext : s.itemText EntityTag.value = [] := by simp [itemText, hitem]
    have htrim := @trimSpace_text _ EntityTag.value s (by rw [htext]; rfl) (by rw [htext]; rfl)
    simp [pieceMatches, htrim, htext, ascii]
  | some t =>
    have htext : s.itemText EntityTag.value = t.value := by simp [itemText, hitem]
    have htrim := @trimSpace_text _ EntityTag.value s (by rw [htext]; exact t.value_graphic.1)
      (by rw [htext]; exact t.value_graphic.2)
    rw [htext] at htrim
    simp only [pieceMatches, htrim, EntityTag.hasPrefix_value, EntityTag.normalizeETag_value,
      Option.some.injEq, exists_eq_left', EntityTag.Equals, beq_eq_false_iff_ne.mpr t.value_ne_star,
      bne_iff_ne.mpr t.value_ne_nil]
    cases strong <;> simp [and_comm]

/-- The pieces that a comma of its tag cuts off a place are taken for the stored tag. -/
def CutMatches (strong : Bool) (stored : EntityTag) (s : ListSlot EntityTag) : Prop :=
  (∃ t, s.item = some t ∧ byte ',' ∈ t.text) ∧
    ∃ piece ∈ (s.text EntityTag.value).splitOn (byte ','),
      pieceMatches strong stored.value piece = true

theorem any_pieces_text {s : ListSlot EntityTag} :
    ((s.text EntityTag.value).splitOn (byte ',')).any (pieceMatches strong stored.value) = true ↔
      (∃ t, s.item = some t ∧ byte ',' ∉ t.text ∧ t.Equals strong stored) ∨
        CutMatches strong stored s := by
  rw [List.any_eq_true]
  by_cases hcut : ∃ t, s.item = some t ∧ byte ',' ∈ t.text
  · obtain ⟨t, hitem, hcomma⟩ := hcut
    simp [CutMatches, hitem, hcomma]
  · have hwhole : byte ',' ∉ s.itemText EntityTag.value := by
      cases hitem : s.item with
      | none => simp [itemText, hitem]
      | some t =>
        rw [itemText, hitem]
        exact fun hmem => hcut ⟨t, hitem, EntityTag.comma_mem_value.mp hmem⟩
    rw [List.splitOn_eq_singleton (comma_not_mem_text hwhole)]
    simp only [List.mem_singleton, exists_eq_left, pieceMatches_text, CutMatches, hcut, false_and,
      or_false]
    constructor
    · rintro ⟨t, hitem, heq⟩
      exact ⟨t, hitem, fun hcomma => hcut ⟨t, hitem, hcomma⟩, heq⟩
    · rintro ⟨t, hitem, -, heq⟩
      exact ⟨t, hitem, heq⟩

/-- What the gateway finds in a list: a tag without a comma, or a piece of one that has some. -/
theorem etagListed_listText :
    etagListed (listText EntityTag.value slots) stored.value strong = true ↔
      (∃ t ∈ listItems slots, byte ',' ∉ t.text ∧ t.Equals strong stored) ∨
        ∃ s ∈ slots, CutMatches strong stored s := by
  rw [etagListed_eq_any stored.value_ne_nil]
  by_cases hne : slots = []
  · subst hne
    simp [listText, listItems, pieceMatches, trimSpace, dropWords, ascii]
  · simp only [splitOn_listText hne, List.any_flatMap, List.any_eq_true (l := slots),
      any_pieces_text, mem_listItems]
    constructor
    · rintro ⟨s, hs, ⟨t, hitem, hmatch⟩ | hcut⟩
      · exact .inl ⟨t, ⟨s, hs, hitem⟩, hmatch⟩
      · exact .inr ⟨s, hs, hcut⟩
    · rintro (⟨t, ⟨s, hs, hitem⟩, hmatch⟩ | ⟨s, hs, hcut⟩)
      · exact ⟨s, hs, .inl ⟨t, hitem, hmatch⟩⟩
      · exact ⟨s, hs, .inr hcut⟩

end Lists

end TagGateway.Cache
