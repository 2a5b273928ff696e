/-
# `LibDrm.Lib.SList` — singly linked lists

The nodes of a list are linked by a function `nxt`, where `none` is NULL.

    Seg nxt p l q      from the pointer p the nodes l lead to the pointer q
    Chain nxt p l      the same, to NULL

A chain is determined by where it starts, so no node stands on it twice
(`Chain.nodup`).  A node is linked in after another one and taken out by
writing the pointer of the node before it (`Chain.insert`, `Chain.remove`).
-/
import Mathlib.Data.List.Nodup
import Mathlib.Logic.Function.Basic

namespace SList

variable {ν : Type} {nxt nxt' : ν → Option ν}

/-- From the pointer `p` the nodes `l` lead to the pointer `q`. -/
def Seg (nxt : ν → Option ν) : Option ν → List ν → Option ν → Prop
  | p, [], q => p = q
  | p, x :: l, q => p = some x ∧ Seg nxt (nxt x) l q

/-- The nodes that stand on the list that starts at `p`. -/
abbrev Chain (nxt : ν → Option ν) (p : Option ν) (l : List ν) : Prop := Seg nxt p l none

theorem seg_append {l₁ l₂ : List ν} {p q : Option ν} :
    Seg nxt p (l₁ ++ l₂) q ↔ ∃ r, Seg nxt p l₁ r ∧ Seg nxt r l₂ q := by
  induction l₁ generalizing p with
  | nil =>
      constructor
      · exact fun h => ⟨p, rfl, h⟩
      · rintro ⟨r, rfl, h⟩
        exact h
  | cons x l₁ ih =>
      constructor
      · rintro ⟨hp, h⟩
        obtain ⟨r, h₁, h₂⟩ := ih.mp h
        exact ⟨r, ⟨hp, h₁⟩, h₂⟩
      · rintro ⟨r, ⟨hp, h₁⟩, h₂⟩
        exact ⟨hp, ih.mpr ⟨r, h₁, h₂⟩⟩

/-- A segment reads the pointers of its own nodes only. -/
theorem Seg.congr {l : List ν} (hn : ∀ x ∈ l, nxt' x = nxt x) :
    ∀ {p q : Option ν}, Seg nxt p l q → Seg nxt' p l q := by
  induction l with
  | nil => exact fun h => h
  | cons x l ih =>
      rintro p q ⟨hp, h⟩
      refine ⟨hp, ?_⟩
      rw [hn x (List.mem_cons_self ..)]
      exact ih (fun y hy => hn y (List.mem_cons_of_mem _ hy)) h

theorem Chain.unique {l l' : List ν} :
    ∀ {p : Option ν}, Chain nxt p l → Chain nxt p l' → l = l' := by
  induction l generalizing l' with
  | nil =>
      rintro p h h'
      cases l' with
      | nil => rfl
      | cons y l' => exact absurd (h.symm.trans h'.1) (by simp)
  | cons x l ih =>
      rintro p ⟨hp, h⟩ h'
      cases l' with
      | nil => exact absurd (hp.symm.trans h') (by simp)
      | cons y l' =>
          obtain ⟨hp', h'⟩ := h'
          obtain rfl : x = y := Option.some.inj (hp.symm.trans hp')
          rw [ih h h']

/-- A node that stood on a chain twice would be followed by two chains of different length. -/
theorem Chain.nodup {l : List ν} : ∀ {p : Option ν}, Chain nxt p l → l.Nodup := by
  induction l with
  | nil => exact fun _ => List.nodup_nil
  | cons x l ih =>
      rintro p ⟨hp, h⟩
      refine List.nodup_cons.mpr ⟨fun hmem => ?_, ih h⟩
      obtain ⟨l₁, l₂, rfl⟩ := List.append_of_mem hmem
      obtain ⟨r, -, -, h₂⟩ := (seg_append).mp h
      have hlen := congrArg List.length (Chain.unique h h₂)
      simp only [List.length_append, List.length_cons] at hlen
      omega

theorem Chain.start {p : Option ν} {l : List ν} (h : Chain nxt p l) : p = l.head? := by
  cases l with
  | nil => exact h
  | cons x l => exact h.1

section Ops

variable [DecidableEq ν]

/-- The node `x` is linked in after the last of the nodes `a :: l₁`. -/
theorem Chain.insert {x : ν} {l₂ : List ν} :
    ∀ {l₁ : List ν} {a u : ν}, Chain nxt (nxt a) (l₁ ++ l₂) → u ∈ (a :: l₁).getLast? → x ∉ a :: (l₁ ++ l₂) →
      (a :: (l₁ ++ l₂)).Nodup →
      Chain (Function.update (Function.update nxt x (nxt u)) u (some x))
        (Function.update (Function.update nxt x (nxt u)) u (some x) a) (l₁ ++ x :: l₂) := by
  intro l₁
  induction l₁ with
  | nil =>
      intro a u h hu hx hnd
      obtain rfl : a = u := by simpa using hu
      have hxa : x ≠ a := fun e => hx (by simp [e])
      refine ⟨Function.update_self .., ?_⟩
      rw [Function.update_of_ne hxa, Function.update_self]
      refine Seg.congr (fun y hy => ?_) h
      have hya : y ≠ a := fun e => (List.nodup_cons.mp hnd).1 (e ▸ hy)
      have hyx : y ≠ x := fun e => hx (List.mem_cons_of_mem _ (e ▸ hy))
      rw [Function.update_of_ne hya, Function.update_of_ne hyx]
  | cons y l₁ ih =>
      intro a u h hu hx hnd
      obtain ⟨hay, hnd'⟩ := List.nodup_cons.mp hnd
      have hu' : u ∈ (y :: l₁).getLast? := by simpa using hu
      have hmem : u ∈ y :: l₁ := List.mem_of_getLast? hu'
      have hau : a ≠ u := fun e => hay (List.mem_append_left _ (e ▸ hmem))
      have hax : a ≠ x := fun e => hx (by simp [e])
      refine ⟨?_, ih h.2 hu' (fun hm => hx (List.mem_cons_of_mem _ hm)) hnd'⟩
      rw [Function.update_of_ne hau, Function.update_of_ne hax]
      exact h.1

/-- The node `x` after the last of the nodes `a :: l₁` is taken out. -/
theorem Chain.remove {x : ν} {l₂ : List ν} :
    ∀ {l₁ : List ν} {a u : ν}, Chain nxt (nxt a) (l₁ ++ x :: l₂) → u ∈ (a :: l₁).getLast? →
      (a :: (l₁ ++ x :: l₂)).Nodup →
      Chain (Function.update nxt u (nxt x)) (Function.update nxt u (nxt x) a) (l₁ ++ l₂) := by
  intro l₁
  induction l₁ with
  | nil =>
      intro a u h hu hnd
      obtain rfl : a = u := by simpa using hu
      rw [Function.update_self]
      refine Seg.congr (fun y hy => ?_) h.2
      have hya : y ≠ a := fun e => (List.nodup_cons.mp hnd).1 (e ▸ List.mem_cons_of_mem x hy)
      rw [Function.update_of_ne hya]
  | cons y l₁ ih =>
      intro a u h hu hnd
      obtain ⟨hay, hnd'⟩ := List.nodup_cons.mp hnd
      have hu' : u ∈ (y :: l₁).getLast? := by simpa using hu
      have hmem : u ∈ y :: l₁ := List.mem_of_getLast? hu'
      have hau : a ≠ u := fun e => hay (List.mem_append_left _ (e ▸ hmem))
      refine ⟨?_, ih h.2 hu' hnd'⟩
      rw [Function.update_of_ne hau]
      exact h.1

end Ops

end SList
