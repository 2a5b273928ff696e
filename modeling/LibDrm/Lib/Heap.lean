/-
# `LibDrm.Lib.Heap` — blocks that are allocated and freed

A heap has blocks at addresses; 0 is NULL, and no address is handed out twice.

    alloc h b     a new block, at an address that was never in use
    free h a      the block at `a` is gone; fails if there is none
    store h a b   the contents of a block change

`Owned h₀ h ptrs` is the ledger of a program: since `h₀`, it has allocated the blocks at `ptrs` and has
not freed them, each once, and nothing else has changed.  Each operation changes the ledger in one
place (`alloc`, `free`, `store`), the ledger does not depend on the order (`perm`), and with an empty
ledger the heap is the old one (`nil`): nothing has leaked, and nothing was freed twice.
-/
import Mathlib.Data.List.Basic
import Mathlib.Logic.Function.Basic

/-- Blocks with contents of a type `β`. -/
structure Heap (β : Type) where
  block : Nat → Option β
  fresh : Nat
  fresh_pos : 0 < fresh
  unused : ∀ a, fresh ≤ a → block a = none

namespace Heap

variable {β : Type} {h h₀ h' : Heap β} {a p : Nat} {b : β} {ptrs ptrs' : List Nat}

def empty : Heap β where
  block _ := none
  fresh := 1
  fresh_pos := Nat.one_pos
  unused _ _ := rfl

def alloc (h : Heap β) (b : β) : Nat × Heap β :=
  (h.fresh,
    { block := Function.update h.block h.fresh (some b)
      fresh := h.fresh + 1
      fresh_pos := Nat.succ_pos _
      unused := fun a ha => by
        rw [Function.update_of_ne (by omega)]
        exact h.unused a (by omega) })

/-- `free` of an address that is not NULL. -/
def free (h : Heap β) (a : Nat) : Option (Heap β) :=
  if (h.block a).isSome then
    some
      { h with
        block := Function.update h.block a none
        unused := fun c hc => by
          by_cases hca : c = a
          · rw [hca, Function.update_self]
          · rw [Function.update_of_ne hca]
            exact h.unused c hc }
  else none

/-- New contents for a block. -/
def store (h : Heap β) (a : Nat) (b : β) : Heap β :=
  if hlive : (h.block a).isSome then
    { h with
      block := Function.update h.block a (some b)
      unused := fun c hc => by
        by_cases hca : c = a
        · rw [h.unused a (hca ▸ hc)] at hlive
          cases hlive
        · rw [Function.update_of_ne hca]
          exact h.unused c hc }
  else h

/-- Since `h₀` the blocks at `ptrs` were allocated, those that are not NULL, and nothing else has changed. -/
structure Owned (h₀ h : Heap β) (ptrs : List Nat) : Prop where
  older : h₀.fresh ≤ h.fresh
  same : ∀ a, a < h₀.fresh → h.block a = h₀.block a
  live : ∀ a, h₀.fresh ≤ a → ((h.block a).isSome ↔ a ∈ ptrs)
  new : ∀ p ∈ ptrs, p ≠ 0 → h₀.fresh ≤ p
  once : ptrs.Pairwise fun p q => p = q → p = 0

@[simp] theorem alloc_fst : (h.alloc b).1 = h.fresh := rfl

@[simp] theorem alloc_block_self : (h.alloc b).2.block h.fresh = some b := Function.update_self ..

theorem alloc_block (ha : (h.block a).isSome) : (h.alloc b).2.block a = h.block a := by
  refine Function.update_of_ne ?_ _ _
  rintro rfl
  rw [h.unused _ (Nat.le_refl _)] at ha
  cases ha

theorem free_block (hfree : h.free p = some h') (ha : a ≠ p) : h'.block a = h.block a := by
  unfold free at hfree
  split at hfree
  · cases hfree
    exact Function.update_of_ne ha _ _
  · cases hfree

theorem store_block_self (ha : (h.block a).isSome) : (h.store a b).block a = some b := by
  unfold store
  rw [dif_pos ha]
  exact Function.update_self ..

theorem store_block (ha : a ≠ p) : (h.store p b).block a = h.block a := by
  unfold store
  split
  · exact Function.update_of_ne ha _ _
  · rfl

namespace Owned

theorem refl : Owned h h [] where
  older := Nat.le_refl _
  same _ _ := rfl
  live a ha := by simp [h.unused a ha]
  new _ hp := nomatch hp
  once := .nil

/-- Nothing is left of what was allocated: the heap is as before. -/
theorem nil (ho : Owned h₀ h []) (a : Nat) : h.block a = h₀.block a := by
  by_cases ha : a < h₀.fresh
  · exact ho.same a ha
  · have hnone : h.block a = none := by
      rw [← Option.not_isSome_iff_eq_none, ho.live a (by omega)]
      exact List.not_mem_nil
    rw [hnone, h₀.unused a (by omega)]

theorem perm (ho : Owned h₀ h ptrs) (hp : ptrs.Perm ptrs') : Owned h₀ h ptrs' where
  older := ho.older
  same := ho.same
  live a ha := (ho.live a ha).trans hp.mem_iff
  new p hmem := ho.new p (hp.mem_iff.mpr hmem)
  once := hp.pairwise ho.once fun hpq hqp => hqp.trans (hpq hqp.symm)

/-- NULL is not a block. -/
theorem null (ho : Owned h₀ h ptrs) : Owned h₀ h (0 :: ptrs) where
  older := ho.older
  same := ho.same
  live a ha := by
    have hne : a ≠ 0 := by
      have := h₀.fresh_pos
      omega
    rw [ho.live a ha, List.mem_cons]
    exact ⟨.inr, fun hmem => hmem.resolve_left hne⟩
  new p hmem hne := ho.new p ((List.mem_cons.mp hmem).resolve_left hne) hne
  once := .cons (fun _ _ _ => rfl) ho.once

theorem of_null (ho : Owned h₀ h (0 :: ptrs)) : Owned h₀ h ptrs where
  older := ho.older
  same := ho.same
  live a ha := by
    have hne : a ≠ 0 := by
      have := h₀.fresh_pos
      omega
    rw [ho.live a ha, List.mem_cons]
    exact ⟨fun hmem => hmem.resolve_left hne, .inr⟩
  new p hmem := ho.new p (List.mem_cons_of_mem _ hmem)
  once := ho.once.of_cons

theorem alloc (ho : Owned h₀ h ptrs) : Owned h₀ (h.alloc b).2 (h.fresh :: ptrs) where
  older := Nat.le_succ_of_le ho.older
  same a ha := by
    refine (Function.update_of_ne ?_ _ _).trans (ho.same a ha)
    have := ho.older
    omega
  live a ha := by
    by_cases haf : a = h.fresh
    · subst haf
      simp
    · have hblock : (h.alloc b).2.block a = h.block a := Function.update_of_ne haf _ _
      rw [hblock, ho.live a ha, List.mem_cons]
      exact ⟨.inr, fun hmem => hmem.resolve_left haf⟩
  new p hmem hne := by
    rcases List.mem_cons.mp hmem with rfl | hmem
    · exact ho.older
    · exact ho.new p hmem hne
  once := by
    refine .cons (fun q hq heq => ?_) ho.once
    by_contra hne
    have hlive := (ho.live q (ho.new q hq (heq ▸ hne))).mpr hq
    rw [← heq, h.unused _ (Nat.le_refl _)] at hlive
    cases hlive

/-- A block is owned once. -/
theorem not_mem (ho : Owned h₀ h (p :: ptrs)) (hp : p ≠ 0) : p ∉ ptrs :=
  fun hmem => hp (List.rel_of_pairwise_cons ho.once hmem rfl)

/-- What is owned can be freed, once. -/
theorem free (ho : Owned h₀ h (p :: ptrs)) (hp : p ≠ 0) : ∃ h', h.free p = some h' ∧ Owned h₀ h' ptrs := by
  have hnew := ho.new p List.mem_cons_self hp
  have hlive : (h.block p).isSome := (ho.live p hnew).mpr List.mem_cons_self
  have hnot : p ∉ ptrs := ho.not_mem hp
  unfold Heap.free
  rw [if_pos hlive]
  refine ⟨_, rfl, ho.older, fun a ha => ?_, fun a ha => ?_, fun q hq => ho.new q (List.mem_cons_of_mem _ hq),
    ho.once.of_cons⟩
  · exact (Function.update_of_ne (by omega) _ _).trans (ho.same a ha)
  · by_cases hap : a = p
    · subst hap
      simp [hnot]
    · dsimp only
      rw [Function.update_of_ne hap, ho.live a ha, List.mem_cons]
      exact ⟨fun hmem => hmem.resolve_left hap, .inr⟩

theorem store (ho : Owned h₀ h ptrs) (hp : p ∈ ptrs) (hne : p ≠ 0) : Owned h₀ (h.store p b) ptrs := by
  have hnew := ho.new p hp hne
  have hlive : (h.block p).isSome := (ho.live p hnew).mpr hp
  have hfresh : (h.store p b).fresh = h.fresh := by
    unfold Heap.store
    rw [dif_pos hlive]
  refine ⟨hfresh ▸ ho.older, fun a ha => ?_, fun a ha => ?_, ho.new, ho.once⟩
  · exact (store_block (by omega)).trans (ho.same a ha)
  · by_cases hap : a = p
    · subst hap
      rw [store_block_self hlive]
      simp [hp]
    · rw [store_block hap]
      exact ho.live a ha

/-- An owned block is there. -/
theorem isSome (ho : Owned h₀ h ptrs) (hp : p ∈ ptrs) (hne : p ≠ 0) : (h.block p).isSome :=
  (ho.live p (ho.new p hp hne)).mpr hp

end Owned

end Heap
