import TagGateway.Foundation.ByteString
import Mathlib.Data.Int.Basic

/-!
# The wire format of messages

A field of a message is a tag and a value. Numbers have seven bits to the byte, texts
their length before them, and a field with the default value is left out.
-/
namespace TagGateway.Foundation

/-- A number, its low bits first; all bytes but the last are marked. -/
def varint (n : ℕ) : Bytes :=
  if n < 0x80 then [n.toUInt8] else (n % 0x80 + 0x80).toUInt8 :: varint (n / 0x80)
termination_by n
decreasing_by omega

def wireTag (field wireType : ℕ) : Bytes := varint (field * 8 + wireType)

def uint64Of (n : ℤ) : ℕ := (n % 18446744073709551616).toNat

def int64Field (field : ℕ) (n : ℤ) : Bytes :=
  if n = 0 then [] else wireTag field 0 ++ varint (uint64Of n)

def boolField (field : ℕ) (b : Bool) : Bytes := if b then wireTag field 0 ++ varint 1 else []

def bytesField (field : ℕ) (data : Bytes) : Bytes :=
  if data = [] then [] else wireTag field 2 ++ (varint data.length ++ data)

theorem length_varint_small {n : ℕ} (h : n < 0x80) : (varint n).length = 1 := by
  rw [varint, if_pos h]
  rfl

theorem length_varint_large {n : ℕ} (h : ¬ n < 0x80) :
    (varint n).length = (varint (n / 0x80)).length + 1 := by
  rw [varint, if_neg h, List.length_cons]

theorem length_varint_pos (n : ℕ) : 0 < (varint n).length := by
  rw [varint]
  split_ifs
  · exact Nat.one_pos
  · exact Nat.succ_pos _

theorem length_wireTag {field wireType : ℕ} (hfield : field ≤ 15) (htype : wireType ≤ 7) :
    (wireTag field wireType).length = 1 :=
  length_varint_small (by omega)

end TagGateway.Foundation
