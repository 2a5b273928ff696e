/-
# `LibDrm.Lib.Lehmer` — multiplicative generators

A Lehmer generator goes from `x` to `a x mod m`.  To compute this without the
product, which may be too large, Schrage splits `m = a q + r` and takes

    a (x mod q) - r (x / q)

which differs from `a x` by a multiple of `m` (`schrage_eq`).  Where `r ≤ q`
both products are less than `m` (`schrage_left_lt`, `schrage_right_lt`), and one
addition of `m` at most gives the remainder (`schrage_fixup`).

The `n`-th value is `a ^ n s mod m`.  Where `m` is a prime the values repeat after
as many steps as the order of `a`, and no sooner (`power_period`).
-/
import Mathlib.GroupTheory.OrderOfElement
import Mathlib.Data.ZMod.Basic
import Mathlib.FieldTheory.Finite.Basic

namespace Lehmer

/-! ## Schrage's method -/

section Schrage

variable {a m q r x : Nat}

theorem schrage_eq (hm : m = a * q + r) :
    ((a * (x % q) : Nat) : Int) - (r * (x / q) : Nat) = a * x - m * (x / q : Nat) := by
  have hx : (x : Int) = q * (x / q : Nat) + (x % q : Nat) := by exact_mod_cast (Nat.div_add_mod x q).symm
  have hm' : (m : Int) = a * q + r := by exact_mod_cast hm
  push_cast at hx ⊢
  rw [hm']
  linear_combination (-(a : Int)) * hx

theorem schrage_left_lt (hm : m = a * q + r) (ha : 0 < a) (hq : 0 < q) : a * (x % q) < m := by
  have hlt : a * (x % q) < a * q := Nat.mul_lt_mul_of_pos_left (Nat.mod_lt x hq) ha
  omega

theorem schrage_right_lt (hr : r ≤ q) (hx : x < m) : r * (x / q) < m := by
  have hle : r * (x / q) ≤ q * (x / q) := Nat.mul_le_mul_right _ hr
  have := Nat.mul_div_le x q
  omega

/-- The difference, or the difference and `m` where it is not positive, is the remainder. -/
theorem schrage_fixup (hm : m = a * q + r) (ha : 0 < a) (hq : 0 < q) (hr : r ≤ q) (hx : x < m) (hdvd : ¬ m ∣ a * x)
    {y : Int} (hy : y = ((a * (x % q) : Nat) : Int) - (r * (x / q) : Nat)) :
    (if y ≤ 0 then y + m else y) = ((a * x % m : Nat) : Int) := by
  have hleft := schrage_left_lt (x := x) hm ha hq
  have hright := schrage_right_lt hr hx
  have hmod : y % m = ((a * x % m : Nat) : Int) := by
    rw [hy, schrage_eq hm, Int.sub_mul_emod_self_left]
    push_cast
    rfl
  have hne : y % m ≠ 0 := by
    rw [hmod]
    exact_mod_cast fun h => hdvd (Nat.dvd_of_mod_eq_zero h)
  rw [← hmod]
  split
  · next hle =>
    have hlt : y ≠ 0 := fun h => hne (by rw [h, Int.zero_emod])
    rw [← Int.add_emod_right, Int.emod_eq_of_lt (by omega) (by omega)]
  · next hle => rw [Int.emod_eq_of_lt (by omega) (by omega)]

end Schrage

/-! ## Periods -/

section Period

variable {p : Nat} [Fact p.Prime] {a s : Nat}

theorem power_eq_iff (ha : (a : ZMod p) ≠ 0) (hs : (s : ZMod p) ≠ 0) (n t : Nat) :
    a ^ (n + t) * s % p = a ^ n * s % p ↔ orderOf (a : ZMod p) ∣ t := by
  rw [← ZMod.natCast_eq_natCast_iff', orderOf_dvd_iff_pow_eq_one]
  push_cast
  rw [mul_left_inj' hs, pow_add, mul_eq_left₀ (pow_ne_zero n ha)]

/-- The powers repeat after as many steps as the order of the base, from the first on. -/
theorem power_period (ha : (a : ZMod p) ≠ 0) (hs : (s : ZMod p) ≠ 0) :
    IsLeast {t | 0 < t ∧ ∀ n, a ^ (n + t) * s % p = a ^ n * s % p} (orderOf (a : ZMod p)) := by
  have hone : (a : ZMod p) ^ (p - 1) = 1 := ZMod.pow_card_sub_one_eq_one ha
  have hp : 0 < p - 1 := Nat.sub_pos_of_lt (Fact.out : p.Prime).one_lt
  refine ⟨⟨Nat.pos_of_dvd_of_pos (orderOf_dvd_of_pow_eq_one hone) hp, fun n => ?_⟩, ?_⟩
  · exact (power_eq_iff ha hs n _).mpr dvd_rfl
  · rintro t ⟨ht, hrep⟩
    exact Nat.le_of_dvd ht ((power_eq_iff ha hs 0 t).mp (hrep 0))

end Period

end Lehmer
