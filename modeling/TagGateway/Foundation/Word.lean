import TagGateway.Foundation.ByteString
import Mathlib.Tactic.NormNum

/-!
# Sixty-four bit words

Signed words as integers that wrap, and the eight big-endian bytes of an
unsigned one.
-/
namespace TagGateway.Foundation

def wrap64 (x : ℤ) : ℤ := Int.bmod x (2 ^ 64)

theorem wrap64_eq_self {n : ℕ} (h : n < 2 ^ 63) : wrap64 n = n := by
  unfold wrap64
  rw [Int.bmod_def]
  split_ifs <;> omega

theorem wrap64_of_fits {x : ℤ} (hlow : -9223372036854775808 ≤ x) (hhigh : x < 9223372036854775808) :
    wrap64 x = x := by
  unfold wrap64
  rw [Int.bmod_def]
  split_ifs <;> omega

theorem wrap64_le (n : ℕ) : wrap64 n ≤ n := by
  unfold wrap64
  rw [Int.bmod_def]
  split_ifs <;> omega

def putUint64 (n : ℕ) : Bytes :=
  [7, 6, 5, 4, 3, 2, 1, 0].map fun i => UInt8.ofNat (n / 256 ^ i)

def uint64 (data : Bytes) : ℕ := data.foldl (fun acc b => acc * 256 + b.toNat) 0

theorem length_putUint64 (n : ℕ) : (putUint64 n).length = 8 := rfl

theorem uint64_putUint64 {n : ℕ} (h : n < 2 ^ 64) : uint64 (putUint64 n) = n := by
  simp only [uint64, putUint64, List.map_cons, List.map_nil, List.foldl_cons, List.foldl_nil,
    UInt8.toNat_ofNat']
  norm_num
  omega

end TagGateway.Foundation
