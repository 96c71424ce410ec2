import TagGateway.Foundation.ByteString

/-!
# Comma-separated lists

A list of a header: its elements stand between commas with blanks around them, and the
place of an element may be empty. The element may itself have commas in its text.
-/
namespace TagGateway.Foundation

/-- A place of a list and the blanks around what it holds. -/
structure ListSlot (α : Type*) where
  before : Bytes
  item : Option α
  after : Bytes
  blank : (before ++ after).all isBlank = true

namespace ListSlot

variable {α : Type*} (render : α → Bytes)

def bare (a : α) : ListSlot α := ⟨[], some a, [], rfl⟩

def itemText (s : ListSlot α) : Bytes := s.item.elim [] render

def text (s : ListSlot α) : Bytes := s.before ++ (s.itemText render ++ s.after)

def listText : List (ListSlot α) → Bytes
  | [] => []
  | [s] => s.text render
  | s :: t :: rest => s.text render ++ byte ',' :: listText (t :: rest)

def listItems (slots : List (ListSlot α)) : List α := slots.filterMap item

theorem mem_listItems {slots : List (ListSlot α)} {a : α} :
    a ∈ listItems slots ↔ ∃ s ∈ slots, s.item = some a :=
  List.mem_filterMap

variable {render}

theorem comma_not_mem_text {s : ListSlot α} (h : byte ',' ∉ s.itemText render) :
    byte ',' ∉ s.text render := by
  have hblank : byte ',' ∉ s.before ++ s.after := by
    intro hmem
    have hcomma : isBlank (byte ',') = true := List.all_eq_true.mp s.blank _ hmem
    cases hcomma
  simp only [List.mem_append, not_or, text] at hblank ⊢
  exact ⟨hblank.1, h, hblank.2⟩

theorem trimSpace_text {s : ListSlot α} (hfirst : (s.itemText render).head?.all isGraphic = true)
    (hlast : (s.itemText render).getLast?.all isGraphic = true) :
    trimSpace (s.text render) = s.itemText render :=
  trimSpace_padded s.blank hfirst hlast

/-- Cutting a list at its commas cuts each of its places. -/
theorem splitOn_listText {slots : List (ListSlot α)} (hne : slots ≠ []) :
    (listText render slots).splitOn (byte ',') =
      slots.flatMap fun s => (s.text render).splitOn (byte ',') := by
  induction slots with
  | nil => exact absurd rfl hne
  | cons s rest ih =>
    cases rest with
    | nil => simp [listText]
    | cons t rest =>
      rw [listText, List.splitOn_append_cons_self, ih (List.cons_ne_nil t rest)]
      rfl

end ListSlot

end TagGateway.Foundation
