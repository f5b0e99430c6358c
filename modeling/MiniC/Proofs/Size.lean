/-
# MiniC.Proofs.Size — sizes are exact, and cut off once

The size of an array is a product of words that stops at the largest word, taken anew at every
dimension. `exactSize` is the size without that limit. Cutting off the size of the elements makes no
difference to the product once it is cut off itself: a count of zero gives zero either way, and any
other count keeps what is too large too large.

`toNat_size`: the size is the exact size, cut off at the largest word.
-/
import MiniC.Ty

namespace MiniC

set_option autoImplicit false

/-- A factor that is cut off does not show in a product that is cut off. -/
theorem min_mul_min (limit factor n : Nat) :
    min (factor * min n limit) limit = min (factor * n) limit := by
  rcases Nat.eq_zero_or_pos factor with rfl | pos
  · rw [Nat.zero_mul, Nat.zero_mul]
  rcases Nat.le_total n limit with fits | exceeds
  · rw [Nat.min_eq_left fits]
  · have cut : limit ≤ factor * limit := Nat.le_mul_of_pos_left limit pos
    have whole : limit ≤ factor * n := Nat.le_trans cut (Nat.mul_le_mul_left factor exceeds)
    rw [Nat.min_eq_right exceeds, Nat.min_eq_right cut, Nat.min_eq_right whole]

namespace Ty

/-- The size in bytes as a number, whatever it comes to. -/
def exactSize : Ty → Nat
  | scalar _ .void => 0
  | scalar _ .bool => 8
  | scalar _ (.integer bits _) => bits.toNat / 8
  | pointer .. => 8
  | array _ element count => count.toNat * element.exactSize
  | function .. => 8

theorem size_eq_clampWord (ty : Ty) : ty.size = clampWord ty.exactSize := by
  induction ty using induct with
  | scalar tag kind =>
    cases kind with
    | void => rfl
    | bool => rfl
    | integer bits signed =>
      have word : bits.toNat < UInt64.size := Nat.lt_trans bits.toNat_lt (by decide)
      have share : bits.toNat / 8 < UInt64.size := Nat.lt_of_le_of_lt (Nat.div_le_self _ _) word
      rw [size, exactSize, clampWord, if_pos share]
      apply UInt64.toNat.inj
      rw [UInt32.toNat_toUInt64, UInt32.toNat_div]
      exact (UInt64.toNat_ofNat_of_lt' share).symm
  | pointer => rfl
  | function => rfl
  | array tag element count ih =>
    apply UInt64.toNat.inj
    calc (clampWord (count.toNat * element.size.toNat)).toNat
        = min (count.toNat * min element.exactSize (UInt64.size - 1)) (UInt64.size - 1) := by
          rw [ih, toNat_clampWord, toNat_clampWord]
      _ = min (count.toNat * element.exactSize) (UInt64.size - 1) := min_mul_min ..
      _ = (clampWord (exactSize (.array tag element count))).toNat := (toNat_clampWord _).symm

/-- The size of a type is its exact size or the largest word, whichever is less. -/
theorem toNat_size (ty : Ty) : ty.size.toNat = min (Nat.pow 2 64 - 1) ty.exactSize := by
  rw [size_eq_clampWord, toNat_clampWord, Nat.min_comm]

/-- An array without elements has no size, though the size of its elements is cut off. -/
example :
    let row := array ⟨.builtin, none⟩ bool 9223372036854775807
    row.size = 18446744073709551615 ∧ (array ⟨.builtin, none⟩ row 0).size = 0 := by
  decide +kernel

end Ty

end MiniC
