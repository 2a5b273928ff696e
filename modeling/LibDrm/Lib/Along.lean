/-
# `LibDrm.Lib.Along` — what holds at every step of a run

`Along step P s l`: the operations `l` are run from `s`, and `P` holds of each of them in the state
that it is run in.  A run ends where a step is not defined.

A contract that holds of a step exactly under a condition holds along a run exactly if the condition
does, as long as the condition keeps the invariant that this needs (`along_iff`).
-/
import Mathlib.Tactic.Common

variable {σ ι : Type} {step : σ → ι → Option σ} {P Q : σ → ι → Prop} {I : σ → Prop}

def Along (step : σ → ι → Option σ) (P : σ → ι → Prop) : σ → List ι → Prop
  | _, [] => True
  | s, i :: l => P s i ∧ ∀ s', step s i = some s' → Along step P s' l

theorem along_iff (h : ∀ s i, I s → (P s i ↔ Q s i)) (hstep : ∀ s i s', I s → Q s i → step s i = some s' → I s')
    {l : List ι} {s : σ} (hs : I s) : Along step P s l ↔ Along step Q s l := by
  induction l generalizing s with
  | nil => exact Iff.rfl
  | cons i l ih =>
      constructor
      · rintro ⟨hP, hl⟩
        have hQ := (h s i hs).mp hP
        exact ⟨hQ, fun s' hs' => (ih (hstep s i s' hs hQ hs')).mp (hl s' hs')⟩
      · rintro ⟨hQ, hl⟩
        exact ⟨(h s i hs).mpr hQ, fun s' hs' => (ih (hstep s i s' hs hQ hs')).mpr (hl s' hs')⟩
