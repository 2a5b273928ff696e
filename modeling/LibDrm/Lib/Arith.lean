/-
# `LibDrm.Lib.Arith` — C integers, counts over a table, and runs

Three small things that the models share.

* `int32` and `uint32` are the values that a 32-bit signed or unsigned C
  integer takes when an unbounded integer is stored in it.
* A count over the entries `0 … n-1` of a table changes, when one entry is
  updated, by the difference at that entry (`sum_update`).
* `Runs init step s`: the state `s` is reached from an initial state by steps;
  `Runs.induct` is the invariant rule.
-/
import Mathlib.Algebra.BigOperators.Group.Finset.Piecewise
import Mathlib.Algebra.BigOperators.Ring.Finset
import Mathlib.Algebra.Order.BigOperators.Group.Finset
import Mathlib.Algebra.Order.Ring.Int
import Mathlib.Tactic.Ring

/-! ## C integers -/

namespace CInt

/-- The value of an `int` after `x` is stored in it. -/
def int32 (x : Int) : Int := x.bmod (2 ^ 32)

/-- The value of an `unsigned int` after `x` is stored in it. -/
def uint32 (x : Int) : Int := x % 2 ^ 32

/-- An `unsigned long` after `x` is stored in it. -/
def uint64 (x : Int) : Int := x % 2 ^ 64

theorem int32_add_int32 (x y : Int) : int32 (x + int32 y) = int32 (x + y) := by
  simp [int32]

theorem int32_int32_add (x y : Int) : int32 (int32 x + y) = int32 (x + y) := by
  simp [int32]

theorem int32_int32 (x : Int) : int32 (int32 x) = int32 x := by
  simp [int32]

theorem uint32_add_int32 (x y : Int) : uint32 (x + int32 y) = uint32 (x + y) := by
  simp only [uint32, int32]
  rw [Int.add_emod, show ((2 : Int) ^ 32) = ((2 ^ 32 : Nat) : Int) from rfl, Int.bmod_emod,
    ← Int.add_emod]

theorem uint32_uint32_add (x y : Int) : uint32 (uint32 x + y) = uint32 (x + y) := by
  simp [uint32]

theorem int32_uint32 (x : Int) : int32 (uint32 x) = int32 x := by
  simp only [int32, uint32]
  rw [show ((2 : Int) ^ 32) = ((2 ^ 32 : Nat) : Int) from rfl, Int.emod_bmod]

/-- A value in the range of an `int` is stored unchanged. -/
theorem int32_of_range {x : Int} (h₀ : -(2 ^ 31) ≤ x) (h₁ : x < 2 ^ 31) : int32 x = x := by
  unfold int32
  exact Int.bmod_eq_of_le (by omega) (by omega)

/-- A value of the upper half of an `unsigned int` is negative in an `int`. -/
theorem int32_of_upper {x : Int} (h₀ : 2 ^ 31 ≤ x) (h₁ : x < 2 ^ 32) : int32 x = x - 2 ^ 32 := by
  have hwrap : int32 x = int32 (x - 2 ^ 32) := by
    unfold int32
    rw [← Int.add_mul_bmod_self_left (x - 2 ^ 32) (2 ^ 32) 1]
    congr 1
    push_cast
    ring
  rw [hwrap, int32_of_range (by omega) (by omega)]

theorem int32_lt (x : Int) : int32 x < 2 ^ 31 := Int.bmod_lt (m := 2 ^ 32) (by decide)

/-- An `int` is the same again after `d` was added if `d` is 0 in an `int`. -/
theorem int32_add_eq_iff {x d : Int} (hx : int32 x = x) : int32 (x + d) = x ↔ (2 ^ 32 : Int) ∣ d := by
  unfold int32 at hx ⊢
  constructor
  · intro h
    have hdvd := Int.dvd_self_sub_bmod (x := x + d) (m := 2 ^ 32)
    rw [h] at hdvd
    simpa using hdvd
  · rintro ⟨k, rfl⟩
    rw [show ((2 : Int) ^ 32) = ((2 ^ 32 : Nat) : Int) from rfl, Int.add_mul_bmod_self_left]
    exact hx

theorem uint32_of_range {x : Int} (h₀ : 0 ≤ x) (h₁ : x < 2 ^ 32) : uint32 x = x :=
  Int.emod_eq_of_lt h₀ h₁

end CInt

/-- Where an updated table has an entry. -/
theorem update_cases {α β : Type} [DecidableEq α] {f : α → β} {a c : α} {b v : β} (h : Function.update f a b c = v) :
    c = a ∧ b = v ∨ c ≠ a ∧ f c = v := by
  by_cases hc : c = a
  · subst hc
    exact .inl ⟨rfl, (Function.update_self ..).symm.trans h⟩
  · exact .inr ⟨hc, (Function.update_of_ne hc _ _).symm.trans h⟩

/-! ## Counts over a table -/

namespace Count

/-- One updated entry changes a sum over the table by the weight of the new entry less the old. -/
theorem sum_update_add {α M : Type} [AddCommMonoid M] {n b : Nat} (hb : b < n) (f : Nat → α) (v : α)
    (w : Nat → α → M) :
    ∑ c ∈ Finset.range n, w c (Function.update f b v c) + w b (f b)
      = ∑ c ∈ Finset.range n, w c (f c) + w b v := by
  have hmem := Finset.mem_range.mpr hb
  rw [← Finset.sum_erase_add _ _ hmem, ← Finset.sum_erase_add (Finset.range n) (fun c => w c (f c)) hmem,
    Function.update_self]
  have herase : ∑ c ∈ (Finset.range n).erase b, w c (Function.update f b v c)
      = ∑ c ∈ (Finset.range n).erase b, w c (f c) :=
    Finset.sum_congr rfl fun c hc => by rw [Function.update_of_ne (Finset.ne_of_mem_erase hc)]
  rw [herase, add_right_comm]

/-- The same where there is subtraction. -/
theorem sum_update {α : Type} {n b : Nat} (hb : b < n) (f : Nat → α) (v : α) (w : Nat → α → Int) :
    ∑ c ∈ Finset.range n, w c (Function.update f b v c)
      = ∑ c ∈ Finset.range n, w c (f c) - w b (f b) + w b v := by
  have := sum_update_add hb f v w
  omega

end Count

/-! ## Runs -/

/-- The states that steps lead to from an initial state. -/
inductive Runs {σ : Type} (init : σ → Prop) (step : σ → σ → Prop) : σ → Prop
  | init {s : σ} : init s → Runs init step s
  | step {s s' : σ} : Runs init step s → step s s' → Runs init step s'

/-- An invariant holds at the start and every step keeps it. -/
theorem Runs.induct {σ : Type} {init : σ → Prop} {step : σ → σ → Prop} {I : σ → Prop}
    (h₀ : ∀ s, init s → I s) (h₁ : ∀ s s', I s → step s s' → I s') {s : σ}
    (h : Runs init step s) : I s := by
  induction h with
  | init h => exact h₀ _ h
  | step _ h ih => exact h₁ _ _ ih h

/-- Fewer steps are allowed, fewer states are reached. -/
theorem Runs.mono {σ : Type} {init : σ → Prop} {step step' : σ → σ → Prop}
    (hs : ∀ s s', step s s' → step' s s') {s : σ} (h : Runs init step s) : Runs init step' s := by
  induction h with
  | init h => exact .init h
  | step _ h ih => exact .step ih (hs _ _ h)

/-- Steps that can be computed, one after the other. -/
theorem Runs.foldlM {σ ι : Type} {init : σ → Prop} {step : σ → σ → Prop} {f : σ → ι → Option σ}
    (hf : ∀ s i s', Runs init step s → f s i = some s' → step s s') {l : List ι} {s s' : σ} (hs : Runs init step s)
    (h : l.foldlM f s = some s') : Runs init step s' := by
  induction l generalizing s with
  | nil =>
      cases h
      exact hs
  | cons i l ih =>
      rw [List.foldlM_cons] at h
      obtain ⟨s₁, hs₁, h⟩ := Option.bind_eq_some_iff.mp h
      exact ih (hs.step (hf s i s₁ hs hs₁)) h
