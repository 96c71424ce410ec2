import Mathlib.Data.List.Infix
import Mathlib.Data.Int.Basic

/-!
# Slices

The elements of a list between two positions, both included. Positions are
integers as they come out of offset arithmetic; a slice that ends before it
starts is empty.
-/
namespace TagGateway.Foundation

universe u

variable {α : Type u}

def slice (s : List α) (start stop : ℤ) : List α :=
  (s.drop start.toNat).take ((stop + 1).toNat - start.toNat)

variable {s w w' : List α} {a b c d : ℤ}

theorem length_slice (ha : 0 ≤ a) (hab : a ≤ b + 1) (hb : b < s.length) :
    ((slice s a b).length : ℤ) = b - a + 1 := by
  simp only [slice, List.length_drop, List.length_take]
  omega

theorem slice_append (hab : a ≤ b + 1) (hbc : b ≤ c) :
    slice s a b ++ slice s (b + 1) c = slice s a c := by
  have hsplit : (c + 1).toNat - a.toNat =
      ((b + 1).toNat - a.toNat) + ((c + 1).toNat - (b + 1).toNat) := by omega
  have hstart : a.toNat + ((b + 1).toNat - a.toNat) = (b + 1).toNat := by omega
  rw [slice, slice, slice, hsplit, List.take_add, List.drop_drop, hstart]

theorem slice_prefix_slice (hab : a ≤ b + 1) (hbc : b ≤ c) : slice s a b <+: slice s a c :=
  ⟨_, slice_append hab hbc⟩

theorem slice_slice (ha : 0 ≤ a) (hc : 0 ≤ c) (hd : d ≤ b - a) :
    slice (slice s a b) c d = slice s (a + c) (a + d) := by
  have hstart : a.toNat + c.toNat = (a + c).toNat := by omega
  have hlen : min ((d + 1).toNat - c.toNat) ((b + 1).toNat - a.toNat - c.toNat) =
      (a + d + 1).toNat - (a + c).toNat := by omega
  rw [slice, slice, slice, List.drop_take, List.drop_drop, List.take_take, hstart, hlen]

theorem slice_eq_append (ha : 0 ≤ a) (h : w <+: slice s a b) :
    slice s a b = w ++ slice s (a + w.length) b := by
  obtain ⟨t, ht⟩ := h
  have hstart : (a + w.length).toNat = a.toNat + w.length := by omega
  have hlen : (b + 1).toNat - (a.toNat + w.length) =
      (b + 1).toNat - a.toNat - w.length := by omega
  have hrest : slice s (a + w.length) b = t := by
    rw [slice, hstart, hlen, ← List.drop_drop, ← List.drop_take]
    change (slice s a b).drop w.length = t
    rw [← ht, List.drop_left]
  rw [hrest, ht]

theorem prefix_slice_append (ha : 0 ≤ a) (h : w <+: slice s a b)
    (h' : w' <+: slice s (a + w.length) b) : w ++ w' <+: slice s a b := by
  rw [slice_eq_append ha h, List.prefix_append_right_inj]
  exact h'

/-- A part of a slice that is as long as the slice is all of it. -/
theorem eq_slice_of_length (ha : 0 ≤ a) (hab : a ≤ b + 1) (hb : b < s.length)
    (h : w <+: slice s a b) (hlen : (w.length : ℤ) = b - a + 1) : w = slice s a b := by
  have hslice := length_slice ha hab hb
  exact h.eq_of_length (by omega)

theorem getElem?_slice (ha : 0 ≤ a) (k : ℕ) :
    (slice s a b)[k]? = if a + k ≤ b then s[a.toNat + k]? else none := by
  unfold slice
  split_ifs with hk
  · rw [List.getElem?_take_of_lt (by omega), List.getElem?_drop]
  · rw [List.getElem?_eq_none]
    simp only [List.length_take, List.length_drop]
    omega

theorem slice_full (h : (s.length : ℤ) = b + 1) : slice s 0 b = s := by
  unfold slice
  rw [Int.toNat_zero, List.drop_zero, List.take_of_length_le (by omega)]

/-! A buffer of fixed length, written at an offset. -/

def splice (buf : List α) (offset : ℕ) (data : List α) : List α :=
  buf.take offset ++ data ++ buf.drop (offset + data.length)

theorem length_splice {buf data : List α} {offset : ℕ} (h : offset + data.length ≤ buf.length) :
    (splice buf offset data).length = buf.length := by
  simp only [splice, List.length_append, List.length_take, List.length_drop]
  omega

theorem getElem?_splice_inside {buf data : List α} {offset k : ℕ}
    (h : offset + data.length ≤ buf.length) (hk : k < data.length) :
    (splice buf offset data)[offset + k]? = data[k]? := by
  have htake : (buf.take offset).length = offset := by
    rw [List.length_take]
    omega
  rw [splice, List.append_assoc, List.getElem?_append_right (by omega), htake,
    Nat.add_sub_cancel_left, List.getElem?_append_left hk]

theorem getElem?_splice_outside {buf data : List α} {offset k : ℕ}
    (h : offset + data.length ≤ buf.length) (hk : k < offset ∨ offset + data.length ≤ k) :
    (splice buf offset data)[k]? = buf[k]? := by
  have htake : (buf.take offset).length = offset := by
    rw [List.length_take]
    omega
  rcases hk with hk | hk
  · rw [splice, List.append_assoc, List.getElem?_append_left (by omega),
      List.getElem?_take_of_lt hk]
  · rw [splice, List.getElem?_append_right (by rw [List.length_append]; omega),
      List.getElem?_drop, List.length_append, htake]
    congr 1
    omega

theorem slice_splice_self {buf data : List α} {offset : ℕ}
    (h : offset + data.length ≤ buf.length) :
    slice (splice buf offset data) offset (offset + data.length - 1) = data := by
  apply List.ext_getElem?
  intro k
  rw [getElem?_slice (by omega), Int.toNat_natCast]
  by_cases hk : k < data.length
  · rw [if_pos (by omega), getElem?_splice_inside h hk]
  · rw [if_neg (by omega), List.getElem?_eq_none (by omega)]

theorem slice_splice_of_disjoint {buf data : List α} {offset : ℕ} (ha : 0 ≤ a)
    (h : offset + data.length ≤ buf.length) (hd : b < offset ∨ (offset + data.length : ℤ) ≤ a) :
    slice (splice buf offset data) a b = slice buf a b := by
  apply List.ext_getElem?
  intro k
  rw [getElem?_slice ha, getElem?_slice ha]
  split_ifs with hk
  · exact getElem?_splice_outside h (by omega)
  · rfl

end TagGateway.Foundation
