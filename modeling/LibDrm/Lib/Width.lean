/-
# `LibDrm.Lib.Width` — unsigned arithmetic of a width

A program that computes with unsigned words is written over a `Width`: what is left of a
number when it is stored in 32 or in 64 bits, and which shifts are defined.  On the
`machine` a number is cut off, and a 32-bit value is shifted by less than 32.
-/
import Mathlib.Data.Nat.Bitwise
import Mathlib.Data.Nat.Prime.Basic
import Mathlib.Algebra.Order.Ring.Nat
import Mathlib.Tactic.Ring

/-- The arithmetic that a program runs in. -/
structure Width where
  u32 : Nat → Nat
  u64 : Nat → Nat
  /-- A 32-bit value can be shifted that far. -/
  shiftable : Nat → Bool

namespace Width

def machine : Width where
  u32 x := x % 2 ^ 32
  u64 x := x % 2 ^ 64
  shiftable n := n < 32

theorem machine_u32 {x : Nat} (h : x < 2 ^ 32) : machine.u32 x = x := Nat.mod_eq_of_lt h

theorem machine_shiftable {n : Nat} (h : n < 32) : machine.shiftable n = true := by
  simpa [machine] using h

theorem machine_u32_lt (x : Nat) : machine.u32 x < 2 ^ 32 := Nat.mod_lt _ (by decide)

/-! ## Alignment -/

/-- `x & ~m`. -/
def clear (x m : Nat) : Nat := x - (x &&& m)

variable (A : Width)

/-- `ALIGN` of a 32-bit value.  For `a = 0` the mask is 0. -/
def align32 (v a : Nat) : Nat := if a = 0 then 0 else clear (A.u32 (v + a - 1)) (a - 1)

/-- `ALIGN` of a 64-bit value to a 64-bit alignment. -/
def align64 (v a : Nat) : Nat := if a = 0 then 0 else clear (A.u64 (v + a - 1)) (a - 1)

/-- `ALIGN` of a 64-bit value to a 32-bit alignment: the mask has 32 bits, and the upper half of the value is lost. -/
def alignMixed (v a : Nat) : Nat := if a = 0 then 0 else clear (A.u32 (A.u64 (v + a - 1))) (a - 1)

/-! ## Powers of two -/

theorem isPowerOfTwo_pow (k : Nat) : (2 ^ k).isPowerOfTwo := ⟨k, rfl⟩

/-- The least power of two that is at least `x`. -/
def pow2Above (x : Nat) : Nat := if x ≤ 1 then 1 else 2 ^ (Nat.log2 (x - 1) + 1)

theorem isPowerOfTwo_pow2Above (x : Nat) : (pow2Above x).isPowerOfTwo := by
  unfold pow2Above
  split
  · exact isPowerOfTwo_pow 0
  · exact isPowerOfTwo_pow _

theorem pow2Above_pos (x : Nat) : 0 < pow2Above x := Nat.pos_of_isPowerOfTwo (isPowerOfTwo_pow2Above x)

/-- The power of two above `x` is less than twice `x`. -/
theorem pow2Above_lt {x : Nat} (hx : 1 < x) : pow2Above x + 1 < 2 * x := by
  have hle : 2 ^ Nat.log2 (x - 1) ≤ x - 1 := Nat.log2_self_le (by omega)
  unfold pow2Above
  rw [if_neg (by omega), Nat.pow_succ]
  omega

theorem log2_lt_of_le {x k : Nat} (hx : 1 < x) (hk : x ≤ 2 ^ k) : Nat.log2 (x - 1) + 1 ≤ k :=
  (Nat.log2_lt (by omega)).mpr (by omega)

theorem pow2Above_le {x k : Nat} (hk : x ≤ 2 ^ k) : pow2Above x ≤ 2 ^ k := by
  unfold pow2Above
  split
  · exact Nat.two_pow_pos k
  · exact Nat.pow_le_pow_right (by decide) (log2_lt_of_le (by omega) hk)

end Width
