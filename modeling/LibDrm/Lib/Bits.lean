/-
# `LibDrm.Lib.Bits` — machine words as sets of bits

Sets of small numbers are often kept in a word, and their members added and removed
with `+` and `-`.  That is union as long as the sets are disjoint (`getLsbD_add`), and
difference as long as one contains the other (`getLsbD_sub`); in every other case a
carry or a borrow reaches bits that belong to neither.
-/
import Mathlib.Data.BitVec

namespace Bits

variable {w : Nat} {x y : BitVec w}

theorem and_eq_zero_iff : x &&& y = 0 ↔ ∀ i, x.getLsbD i → y.getLsbD i → False := by
  constructor
  · intro h i hx hy
    have hi : (x &&& y).getLsbD i = (0 : BitVec w).getLsbD i := by rw [h]
    simp [hx, hy] at hi
  · intro h
    refine BitVec.eq_of_getLsbD_eq fun i _ => ?_
    have := h i
    cases hx : x.getLsbD i <;> cases hy : y.getLsbD i <;> simp_all

theorem and_eq_right_iff : x &&& y = y ↔ ∀ i, y.getLsbD i → x.getLsbD i := by
  constructor
  · intro h i hy
    rw [← h, BitVec.getLsbD_and] at hy
    exact (Bool.and_eq_true_iff.mp hy).1
  · intro h
    refine BitVec.eq_of_getLsbD_eq fun i _ => ?_
    have := h i
    cases hx : x.getLsbD i <;> cases hy : y.getLsbD i <;> simp_all

theorem exists_getLsbD (h : x ≠ 0) : ∃ i, x.getLsbD i = true := by
  by_contra hno
  refine h (BitVec.eq_of_getLsbD_eq fun i _ => ?_)
  simpa using fun hi => hno ⟨i, hi⟩

/-- Adding a disjoint set is union. -/
theorem getLsbD_add (h : ∀ i, x.getLsbD i → y.getLsbD i → False) (i : Nat) :
    (x + y).getLsbD i = (x.getLsbD i || y.getLsbD i) := by
  rw [BitVec.add_eq_or_of_and_eq_zero x y (and_eq_zero_iff.mpr h), BitVec.getLsbD_or]

/-- Subtracting a subset is difference. -/
theorem getLsbD_sub (h : ∀ i, y.getLsbD i → x.getLsbD i) (i : Nat) :
    (x - y).getLsbD i = (x.getLsbD i && !y.getLsbD i) := by
  have hxy : x &&& y = y := (and_eq_right_iff).mpr h
  have hdisjoint : (x &&& ~~~y) &&& y = 0#w := by
    ext i hi
    simp
  have hjoin : (x &&& ~~~y) ||| (x &&& y) = x := by
    ext i hi
    simp only [BitVec.getElem_or, BitVec.getElem_and, BitVec.getElem_not]
    cases x[i] <;> cases y[i] <;> rfl
  rw [hxy, ← BitVec.add_eq_or_of_and_eq_zero _ _ hdisjoint] at hjoin
  rw [← eq_sub_of_add_eq hjoin, BitVec.getLsbD_and, BitVec.getLsbD_not]
  cases hx : x.getLsbD i with
  | false => simp
  | true => simp [BitVec.lt_of_getLsbD hx]

end Bits
