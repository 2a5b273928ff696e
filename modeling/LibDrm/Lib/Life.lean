/-
# `LibDrm.Lib.Life` — the life of an object with a reference count

An object is made with one reference and put on a list, where it can be looked up.  Who takes the
count to zero takes the object off the list, and frees it:

    stage     count   listed   refs   waiting   leaving   frees
    unborn    —       no       0      0         0         0
    live      n       yes      n      0         0         0      0 < n
    dying     0       yes      0      1         0         0
    leaving   0       no       0      0         1         0
    gone      —       no       0      0         0         1

A call is `waiting` between the decrement and the list, and `leaving` after that.
-/
import Mathlib.Logic.Basic

/-- All there is to an object: its memory, its place on the list, and who has to do with it. -/
structure Life where
  count : Option Int
  listed : Bool
  refs : Nat
  waiting : Nat
  leaving : Nat
  frees : Nat

namespace Life

inductive Stage : Life → Prop
  | unborn : Stage ⟨none, false, 0, 0, 0, 0⟩
  | live {n : Nat} (hpos : 0 < n) : Stage ⟨some n, true, n, 0, 0, 0⟩
  | dying : Stage ⟨some 0, true, 0, 1, 0, 0⟩
  | leaving : Stage ⟨some 0, false, 0, 0, 1, 0⟩
  | gone : Stage ⟨none, false, 0, 0, 0, 1⟩

variable {v : Life}

namespace Stage

/-! ## What stage it is -/

/-- Who has a reference knows everything. -/
theorem of_refs (h : Stage v) (hpos : 0 < v.refs) :
    v.count = some (v.refs : Int) ∧ v.listed = true ∧ v.waiting = 0 ∧ v.leaving = 0 ∧ v.frees = 0 := by
  cases h with
  | live => exact ⟨rfl, rfl, rfl, rfl, rfl⟩
  | unborn => exact absurd hpos (Nat.not_lt_zero 0)
  | dying => exact absurd hpos (Nat.not_lt_zero 0)
  | leaving => exact absurd hpos (Nat.not_lt_zero 0)
  | gone => exact absurd hpos (Nat.not_lt_zero 0)

theorem of_waiting (h : Stage v) (hpos : 0 < v.waiting) :
    v.count = some 0 ∧ v.listed = true ∧ v.refs = 0 ∧ v.waiting = 1 ∧ v.leaving = 0 ∧ v.frees = 0 := by
  cases h with
  | dying => exact ⟨rfl, rfl, rfl, rfl, rfl, rfl⟩
  | unborn => exact absurd hpos (Nat.not_lt_zero 0)
  | live => exact absurd hpos (Nat.not_lt_zero 0)
  | leaving => exact absurd hpos (Nat.not_lt_zero 0)
  | gone => exact absurd hpos (Nat.not_lt_zero 0)

theorem of_leaving (h : Stage v) (hpos : 0 < v.leaving) :
    v.count = some 0 ∧ v.listed = false ∧ v.refs = 0 ∧ v.waiting = 0 ∧ v.leaving = 1 ∧ v.frees = 0 := by
  cases h with
  | leaving => exact ⟨rfl, rfl, rfl, rfl, rfl, rfl⟩
  | unborn => exact absurd hpos (Nat.not_lt_zero 0)
  | live => exact absurd hpos (Nat.not_lt_zero 0)
  | dying => exact absurd hpos (Nat.not_lt_zero 0)
  | gone => exact absurd hpos (Nat.not_lt_zero 0)

/-- What is looked up is alive, unless a call waits to take it off the list. -/
theorem of_listed (h : Stage v) (hlisted : v.listed = true) (hwaiting : v.waiting = 0) : 0 < v.refs := by
  cases h with
  | live hpos => exact hpos
  | unborn => cases hlisted
  | dying => cases hwaiting
  | leaving => cases hlisted
  | gone => cases hlisted

theorem of_none (h : Stage v) (hcount : v.count = none) :
    v.listed = false ∧ v.refs = 0 ∧ v.waiting = 0 ∧ v.leaving = 0 := by
  cases h with
  | unborn => exact ⟨rfl, rfl, rfl, rfl⟩
  | gone => exact ⟨rfl, rfl, rfl, rfl⟩
  | live => cases hcount
  | dying => cases hcount
  | leaving => cases hcount

/-- The count is right. -/
theorem count_eq (h : Stage v) {n : Int} (hcount : v.count = some n) : n = v.refs := by
  cases h with
  | live => exact (Option.some.inj hcount).symm
  | dying => exact (Option.some.inj hcount).symm
  | leaving => exact (Option.some.inj hcount).symm
  | unborn => cases hcount
  | gone => cases hcount

theorem frees_le (h : Stage v) : v.frees ≤ 1 := by
  cases h with
  | gone => exact Nat.le_refl 1
  | unborn => exact Nat.zero_le 1
  | live => exact Nat.zero_le 1
  | dying => exact Nat.zero_le 1
  | leaving => exact Nat.zero_le 1

/-- Nobody has to do with the object any more. -/
theorem count_none (h : Stage v) (hrefs : v.refs = 0) (hwaiting : v.waiting = 0) (hleaving : v.leaving = 0) :
    v.count = none := by
  cases h with
  | unborn => rfl
  | gone => rfl
  | live hpos => exact absurd hrefs (Nat.ne_of_gt hpos)
  | dying => cases hwaiting
  | leaving => cases hleaving

/-! ## Stages by their fields -/

theorem mk_live (hcount : v.count = some (v.refs : Int)) (hpos : 0 < v.refs) (hlisted : v.listed = true)
    (hwaiting : v.waiting = 0) (hleaving : v.leaving = 0) (hfrees : v.frees = 0) : Stage v := by
  obtain ⟨count, listed, refs, waiting, leaving, frees⟩ := v
  dsimp only at hcount
  subst hcount hlisted hwaiting hleaving hfrees
  exact .live hpos

theorem mk_dying (hcount : v.count = some 0) (hlisted : v.listed = true) (hrefs : v.refs = 0) (hwaiting : v.waiting = 1)
    (hleaving : v.leaving = 0) (hfrees : v.frees = 0) : Stage v := by
  obtain ⟨count, listed, refs, waiting, leaving, frees⟩ := v
  subst hcount hlisted hrefs hwaiting hleaving hfrees
  exact .dying

theorem mk_leaving (hcount : v.count = some 0) (hlisted : v.listed = false) (hrefs : v.refs = 0) (hwaiting : v.waiting = 0)
    (hleaving : v.leaving = 1) (hfrees : v.frees = 0) : Stage v := by
  obtain ⟨count, listed, refs, waiting, leaving, frees⟩ := v
  subst hcount hlisted hrefs hwaiting hleaving hfrees
  exact .leaving

theorem mk_gone (hcount : v.count = none) (hlisted : v.listed = false) (hrefs : v.refs = 0) (hwaiting : v.waiting = 0)
    (hleaving : v.leaving = 0) (hfrees : v.frees = 1) : Stage v := by
  obtain ⟨count, listed, refs, waiting, leaving, frees⟩ := v
  subst hcount hlisted hrefs hwaiting hleaving hfrees
  exact .gone

/-! ## From one stage to the next -/

variable {w : Life}

/-- The object is made. -/
theorem born (h : Stage v) (hnone : v.count = none) (hnofrees : v.frees = 0) (hcount : w.count = some 1)
    (hlisted : w.listed = true) (hrefs : w.refs = v.refs + 1) (hwaiting : w.waiting = v.waiting)
    (hleaving : w.leaving = v.leaving) (hfrees : w.frees = v.frees) : Stage w := by
  obtain ⟨-, hr, hw, hl⟩ := h.of_none hnone
  have hone : w.refs = 1 := by rw [hrefs, hr]
  refine mk_live ?_ ?_ hlisted (hwaiting.trans hw) (hleaving.trans hl) (hfrees.trans hnofrees)
  · rw [hcount, hone]
    rfl
  · rw [hone]
    exact Nat.one_pos

/-- The call that waits takes the object off the list. -/
theorem leave (h : Stage v) (hpos : 0 < v.waiting) (hcount : w.count = v.count) (hlisted : w.listed = false)
    (hrefs : w.refs = v.refs) (hwaiting : w.waiting + 1 = v.waiting) (hleaving : w.leaving = v.leaving + 1)
    (hfrees : w.frees = v.frees) : Stage w := by
  obtain ⟨hc, -, hr, hw, hl, hf⟩ := h.of_waiting hpos
  exact mk_leaving (hcount.trans hc) hlisted (hrefs.trans hr) (by omega) (by omega) (hfrees.trans hf)

/-- The call that leaves frees the object. -/
theorem free (h : Stage v) (hpos : 0 < v.leaving) (hcount : w.count = none) (hlisted : w.listed = false)
    (hrefs : w.refs = v.refs) (hwaiting : w.waiting = v.waiting) (hleaving : w.leaving + 1 = v.leaving)
    (hfrees : w.frees = v.frees + 1) : Stage w := by
  obtain ⟨-, -, hr, hw, hl, hf⟩ := h.of_leaving hpos
  exact mk_gone hcount hlisted (hrefs.trans hr) (hwaiting.trans hw) (by omega) (by omega)

end Stage

end Life
