/-
# `LibDrm.Gem.Retiling` — the size of a tree after a change of tiling

`reloc_tree_size` is meant to be the size of an object and its relocation
descendants.  `drm_intel_gem_bo_set_tiling` computes it again with the function
that an allocation uses, and that function knows the object alone:

| | the size after the call | kept for the descendants |
| :-- | :-- | :-- |
| generation 4 and later, or linear | `size` | nothing |
| tiled, without relaxed fencing | `2 size` | `size` |
| tiled, with relaxed fencing | twice a power of two | what the rounding leaves |

all of it in an `int`.  So a change of tiling keeps the size sound exactly if the
descendants happen to fit in the room of the alignment (`retiled_sound_iff`).
-/
import LibDrm.Gem.Budget
import Mathlib.Data.Nat.Log

namespace LibDrm.Gem

open Walk CInt

/-! ## What the call makes of one object -/

/-- The object after `drm_intel_gem_bo_set_tiling_internal`. -/
def Bo.retiled (mode stride : Nat) (setTiling : Reply Tiling) (bo : Bo) : Bo :=
  if bo.globalName = 0 ∧ mode = bo.tilingMode ∧ stride = bo.stride then bo
  else match setTiling with
    | .error _ => bo
    | .ok t => bo.setTiling t

/-- Linear objects have no stride. -/
def linearStride (mode stride : Nat) : Nat := if mode = I915_TILING_NONE then 0 else stride

/-- The object needs a fence, which on the older chips makes it a power of two or aligned to its size. -/
def Bo.aligned (cfg : Config) (bo : Bo) : Bool := decide (cfg.gen < 4) && decide (bo.tilingMode ≠ I915_TILING_NONE)

/-- The smallest fence, as a power of two. -/
def Config.minFence (cfg : Config) : Nat := if cfg.gen = 3 then 20 else 19

/-- The room that is set aside for the object in the aperture. -/
def Bo.apertureRoom (cfg : Config) (bo : Bo) : Nat :=
  if bo.aligned cfg then
    if cfg.hasRelaxedFencing then 2 * 2 ^ max cfg.minFence (Nat.clog 2 bo.size) else 2 * bo.size
  else bo.size

/-- The loop for the power of two does not end: the next one is not an `int`. -/
def Bo.endless (cfg : Config) (bo : Bo) : Bool :=
  bo.aligned cfg && cfg.hasRelaxedFencing && decide (2 ^ 30 < int32 bo.size)

/-! ## The loop -/

/-- The loop from a power of two on, for a size up to 2^30. -/
theorem minSizeLoop_eq {size : Int} (hsize : size ≤ 2 ^ 30) :
    ∀ (k j : Nat), j ≤ 30 → 31 ≤ k + j →
      minSizeLoop size k (2 ^ j) = .ok (2 ^ max j (Nat.clog 2 size.toNat)) := by
  intro k
  induction k with
  | zero => intro j hj hk; omega
  | succ k ih =>
      intro j hj hk
      have hpos : (0 : Int) < 2 ^ j := pow_pos (by decide) j
      have hcast : ((2 ^ j : Nat) : Int) = 2 ^ j := by push_cast; rfl
      unfold minSizeLoop
      split
      · rename_i hlt
        have hj' : j < 30 := by
          by_contra hge
          obtain rfl : j = 30 := by omega
          omega
        have hpow : (2 : Int) ^ j * 2 ≤ 2 ^ 30 := by
          rw [← pow_succ]
          exact pow_le_pow_right₀ (by decide) hj'
        have hclog : j < Nat.clog 2 size.toNat := by
          rw [Nat.lt_clog_iff_pow_lt (by decide)]
          omega
        rw [int32_of_range (by omega) (by omega), ← pow_succ, ih (j + 1) hj' (by omega),
          max_eq_right hclog, max_eq_right hclog.le]
      · rename_i hge
        have hclog : Nat.clog 2 size.toNat ≤ j := by
          rw [Nat.clog_le_iff_le_pow (by decide)]
          omega
        rw [max_eq_left hclog]

/-- The values that the loop goes through: a power of two, then an overflow, then 0. -/
def Doubling (minSize : Int) : Prop := minSize = 0 ∨ minSize = -2 ^ 31 ∨ ∃ j ≤ 30, minSize = 2 ^ j

theorem Doubling.le {minSize : Int} (h : Doubling minSize) : minSize ≤ 2 ^ 30 := by
  rcases h with rfl | rfl | ⟨j, hj, rfl⟩
  · decide
  · decide
  · exact pow_le_pow_right₀ (by decide) hj

theorem Doubling.step {minSize : Int} (h : Doubling minSize) : Doubling (int32 (minSize * 2)) := by
  rcases h with rfl | rfl | ⟨j, hj, rfl⟩
  · exact .inl (by decide)
  · exact .inl (by decide)
  · rcases Nat.lt_or_eq_of_le hj with hlt | rfl
    · have hpow : (2 : Int) ^ (j + 1) ≤ 2 ^ 30 := pow_le_pow_right₀ (by decide) hlt
      have hpos : (0 : Int) < 2 ^ (j + 1) := pow_pos (by decide) _
      exact .inr (.inr ⟨j + 1, hlt, by rw [← pow_succ, int32_of_range (by omega) (by omega)]⟩)
    · exact .inr (.inl (by decide))

/-- For a larger size the loop does not end. -/
theorem minSizeLoop_endless {size : Int} (hsize : 2 ^ 30 < size) :
    ∀ (k : Nat) {minSize : Int}, Doubling minSize → ∀ r, minSizeLoop size k minSize ≠ .ok r
  | 0, _, _, _ => nofun
  | k + 1, minSize, h, r => by
      have hlt : minSize < size := lt_of_le_of_lt h.le hsize
      rw [minSizeLoop, if_pos hlt]
      exact minSizeLoop_endless hsize k h.step r

theorem minFence_pow (cfg : Config) :
    (if cfg.gen = 3 then 1024 * 1024 else 512 * 1024 : Int) = 2 ^ cfg.minFence := by
  unfold Config.minFence
  split <;> rfl

/-! ## The size that is computed -/

/-- With relaxed fencing the size is twice the power of two, unless this is 2^30. -/
theorem relaxedSize_eq {size : Int} (hsize : size ≤ 2 ^ 30) (cfg : Config) :
    (minSizeLoop size 32 (if cfg.gen = 3 then 1024 * 1024 else 512 * 1024) >>= fun minSize =>
      (pure (int32 (2 * minSize)) : Except Fault Int))
      = .ok (int32 (2 * 2 ^ max cfg.minFence (Nat.clog 2 size.toNat))) := by
  have hfence : cfg.minFence ≤ 30 ∧ 19 ≤ cfg.minFence := by
    unfold Config.minFence
    split <;> decide
  rw [minFence_pow, minSizeLoop_eq hsize 32 cfg.minFence hfence.1 (by omega)]
  rfl

/-- Twice the power of two is an `int` for a size up to 2^29, and negative for a larger one. -/
theorem relaxedRoom_iff {size total : Nat} (htotal : size ≤ total) (cfg : Config) (hsize : int32 size ≤ 2 ^ 30) :
    (total : Int) ≤ int32 (2 * 2 ^ max cfg.minFence (Nat.clog 2 (int32 size).toNat))
      ↔ size ≤ 2 ^ 29 ∧ total ≤ 2 * 2 ^ max cfg.minFence (Nat.clog 2 size) := by
  have hsame : size < 2 ^ 31 → int32 size = size := fun h => int32_of_range (by omega) (by omega)
  have hfence : cfg.minFence ≤ 29 := by
    unfold Config.minFence
    split <;> decide
  constructor
  · intro h
    have hlt : size < 2 ^ 31 := by
      have := int32_lt (2 * 2 ^ max cfg.minFence (Nat.clog 2 (int32 size).toNat))
      omega
    rw [hsame hlt] at h hsize
    rw [Int.toNat_natCast] at h
    have hclog : Nat.clog 2 size ≤ 30 := (Nat.clog_le_iff_le_pow (by decide)).mpr (by omega)
    rcases Nat.lt_or_eq_of_le hclog with hsmall | hlarge
    · have hle : size ≤ 2 ^ 29 := (Nat.clog_le_iff_le_pow (by decide)).mp (Nat.le_of_lt_succ hsmall)
      have hpow : (2 : Int) ^ max cfg.minFence (Nat.clog 2 size) ≤ 2 ^ 29 :=
        pow_le_pow_right₀ (by decide) (max_le hfence (Nat.le_of_lt_succ hsmall))
      have hpos : (0 : Int) < 2 ^ max cfg.minFence (Nat.clog 2 size) := pow_pos (by decide) _
      rw [int32_of_range (by omega) (by omega)] at h
      exact ⟨hle, by exact_mod_cast h⟩
    · -- the power of two is 2^30
      rw [hlarge, max_eq_right (by omega)] at h
      exact absurd h (by have : int32 (2 * 2 ^ 30) = -2 ^ 31 := by decide
                         omega)
  · rintro ⟨hle, hroom⟩
    have hclog : Nat.clog 2 size ≤ 29 := (Nat.clog_le_iff_le_pow (by decide)).mpr hle
    have hpow : (2 : Int) ^ max cfg.minFence (Nat.clog 2 size) ≤ 2 ^ 29 :=
      pow_le_pow_right₀ (by decide) (max_le hfence hclog)
    have hpos : (0 : Int) < 2 ^ max cfg.minFence (Nat.clog 2 size) := pow_pos (by decide) _
    rw [hsame (by omega), Int.toNat_natCast, int32_of_range (by omega) (by omega)]
    exact_mod_cast hroom

/-- A total, the object included, is below the size that is computed exactly if it fits in the
room of the object, unless nothing is computed. -/
theorem inApertureSize_room {cfg : Config} {bo : Bo} {total : Nat} (htotal : bo.size ≤ total) :
    (∀ size, inApertureSize cfg bo = .ok size → (total : Int) ≤ size)
      ↔ bo.endless cfg = true ∨ (bo.apertureFits cfg = true ∧ total ≤ bo.apertureRoom cfg) := by
  have hone : ∀ {x : Except Fault Int} {v : Int}, x = .ok v → ((∀ size, x = .ok size → (total : Int) ≤ size) ↔ (total : Int) ≤ v) := by
    rintro x v rfl
    exact ⟨fun h => h v rfl, fun h size hs => Except.ok.inj hs ▸ h⟩
  have hsame : bo.size < 2 ^ 31 → int32 bo.size = bo.size := fun h => int32_of_range (by omega) (by omega)
  have hbelow := int32_lt bo.size
  cases haligned : bo.aligned cfg with
  | false =>
      have hno : ¬ (cfg.gen < 4 ∧ bo.tilingMode ≠ I915_TILING_NONE) := by simpa [Bo.aligned] using haligned
      have hsize : inApertureSize cfg bo = .ok (int32 bo.size) := by rw [inApertureSize, if_neg hno]
      rw [hone hsize, Bo.endless, Bo.apertureFits, Bo.apertureRoom, haligned, if_neg hno]
      simp only [Bool.false_and, Bool.false_eq_true, false_or, if_false, decide_eq_true_eq]
      constructor
      · intro h
        have hlt : bo.size < 2 ^ 31 := by omega
        rw [hsame hlt] at h
        omega
      · rintro ⟨hlt, hle⟩
        rw [hsame hlt]
        omega
  | true =>
      have hyes : cfg.gen < 4 ∧ bo.tilingMode ≠ I915_TILING_NONE := by simpa [Bo.aligned] using haligned
      rw [Bo.endless, Bo.apertureFits, Bo.apertureRoom, haligned, if_pos hyes]
      cases hrelaxed : cfg.hasRelaxedFencing with
      | false =>
          have hsize : inApertureSize cfg bo = .ok (int32 (2 * int32 bo.size)) := by
            simp only [inApertureSize, if_pos hyes, hrelaxed, Bool.false_eq_true, if_false]
          rw [hone hsize]
          simp only [Bool.and_false, Bool.false_and, Bool.false_eq_true, false_or, if_false, if_true, decide_eq_true_eq]
          constructor
          · intro h
            have hlt : bo.size < 2 ^ 31 := by
              have := int32_lt (2 * int32 bo.size)
              omega
            rw [hsame hlt] at h
            by_cases hsmall : bo.size < 2 ^ 30
            · rw [int32_of_range (by omega) (by omega)] at h
              omega
            · rw [int32_of_upper (by omega) (by omega)] at h
              omega
          · rintro ⟨hlt, hle⟩
            rw [hsame (by omega), int32_of_range (by omega) (by omega)]
            omega
      | true =>
          have hloop : inApertureSize cfg bo
              = minSizeLoop (int32 bo.size) 32 (if cfg.gen = 3 then 1024 * 1024 else 512 * 1024)
                >>= fun minSize => pure (int32 (2 * minSize)) := by
            simp only [inApertureSize, if_pos hyes, hrelaxed, if_true]
          simp only [Bool.true_and, if_true, decide_eq_true_eq]
          rcases lt_or_ge (2 ^ 30) (int32 bo.size) with hend | hend
          · refine ⟨fun _ => .inl hend, fun _ size hsize => ?_⟩
            rw [hloop, minFence_pow] at hsize
            obtain ⟨minSize, hmin, -⟩ := exists_of_bind_ok hsize
            have hfence : cfg.minFence ≤ 30 := by
              unfold Config.minFence
              split <;> decide
            exact absurd hmin (minSizeLoop_endless hend 32 (.inr (.inr ⟨_, hfence, rfl⟩)) minSize)
          · rw [hone (hloop.trans (relaxedSize_eq hend cfg)), or_iff_right (not_lt.mpr hend)]
            exact relaxedRoom_iff htotal cfg hend

/-! ## The call -/

section

variable {s : Bufmgr} {b : BoId}

theorem Bo.retiled_size (mode stride : Nat) (r : Reply Tiling) (bo : Bo) : (bo.retiled mode stride r).size = bo.size := by
  unfold Bo.retiled
  split
  · rfl
  · cases r <;> rfl

theorem Bo.retiled_key (mode stride : Nat) (r : Reply Tiling) (bo : Bo) : (bo.retiled mode stride r).key = bo.key := by
  unfold Bo.retiled
  split
  · rfl
  · cases r <;> rfl

theorem boSetTilingInternal_retiled (b : BoId) (mode stride : Nat) (r : Reply Tiling) (s : Bufmgr)
    (haccepts : (s.bos b).refuses mode stride r = false) :
    boSetTilingInternal b mode stride r s = (0, s.modify b (Bo.retiled mode stride r)) := by
  unfold boSetTilingInternal
  unfold Bo.refuses at haccepts
  split
  · rename_i hsame
    have hbo : (s.bos b).retiled mode stride r = s.bos b := if_pos hsame
    simp [Bufmgr.modify, hbo]
  · rename_i hnew
    cases r with
    | error e => simp [hnew] at haccepts
    | ok t => exact congrArg (Prod.mk 0) (modify_congr s (if_neg hnew).symm)

/-- A call that succeeds leaves the object with its new tiling and the size computed for it. -/
theorem boSetTiling_succeeds (hu : (s.bos b).usedAsRelocTarget = false) {mode stride : Nat} {r : Reply Tiling}
    {Q : Bufmgr → Prop} :
    (∀ m s', boSetTiling b mode stride r s = .ok ((0, m), s') → Q s')
      ↔ (s.bos b).isUserptr = true ∨ (s.bos b).refuses mode (linearStride mode stride) r = true
        ∨ ∀ size, inApertureSize s.cfg ((s.bos b).retiled mode (linearStride mode stride) r) = .ok size →
          Q (s.modify b (Bo.setTreeSize size ∘ Bo.retiled mode (linearStride mode stride) r)) := by
  cases huser : (s.bos b).isUserptr with
  | true =>
      have hcall : boSetTiling b mode stride r s = .ok ((-EINVAL, mode), s) := by rw [boSetTiling, if_pos huser]
      refine ⟨fun _ => .inl rfl, fun _ m s' hs' => ?_⟩
      rw [hcall] at hs'
      exact absurd (Prod.mk.inj (Prod.mk.inj (Except.ok.inj hs')).1).1 (by decide)
  | false =>
      have hstride : (if mode = I915_TILING_NONE then 0 else stride) = linearStride mode stride := rfl
      cases haccepts : (s.bos b).refuses mode (linearStride mode stride) r with
      | true =>
          obtain ⟨ret, t, hset, hret⟩ := boSetTilingInternal_eq b mode (linearStride mode stride) r s
          have hne : ret ≠ 0 := fun h0 => by
            rw [hret.mp h0] at haccepts
            cases haccepts
          refine ⟨fun _ => .inr (.inl rfl), fun _ m s' hs' => ?_⟩
          unfold boSetTiling at hs'
          simp only [huser, Bool.false_eq_true, if_false, hstride, hset, if_neg hne] at hs'
          exact absurd (Prod.mk.inj (Prod.mk.inj (Except.ok.inj hs')).1).1 hne
      | false =>
          have hset := boSetTilingInternal_retiled b mode (linearStride mode stride) r s haccepts
          have hcall : boSetTiling b mode stride r s
              = (inApertureSize s.cfg ((s.bos b).retiled mode (linearStride mode stride) r) >>= fun size => do
                let s' := s.modify b (Bo.setTreeSize size ∘ Bo.retiled mode (linearStride mode stride) r)
                return ((0, (s'.bos b).tilingMode), s')) := by
            simp only [boSetTiling, huser, Bool.false_eq_true, if_false, hstride, hset, if_true, setInApertureSize,
              modify_self, modify_cfg, modify_modify]
            rw [show ((s.bos b).retiled mode (linearStride mode stride) r).usedAsRelocTarget = false from
              (congrArg Bo.usedAsRelocTarget ((s.bos b).retiled_key mode (linearStride mode stride) r) :).trans hu]
            cases inApertureSize s.cfg ((s.bos b).retiled mode (linearStride mode stride) r) with
            | error e => rfl
            | ok size =>
                simp only [Bool.not_false, assert_true, ok_bind, pure_bind, modify_self]
          rw [hcall]
          constructor
          · intro hQ
            refine .inr (.inr fun size hsize => hQ _ _ (by rw [hsize]; rfl))
          · intro hcase m s' hs'
            obtain ⟨size, hsize, hrest⟩ := exists_of_bind_ok hs'
            have hleft : s.modify b (Bo.setTreeSize size ∘ Bo.retiled mode (linearStride mode stride) r) = s' :=
              (Prod.mk.inj (Except.ok.inj hrest)).2
            rcases hcase with hno | hno | hQ
            · cases hno
            · cases hno
            · exact hleft ▸ hQ size hsize

end

/-- After a call that succeeds the size is that of the tree or more, exactly if the total fits in the
room of the object. -/
theorem retiled_sound_iff {σ : Sys} (h : Reachable Clean σ) {b : BoId} (hb : σ.mgr.Live b)
    (hu : (σ.mgr.bos b).usedAsRelocTarget = false) (mode stride : Nat) (r : Reply Tiling) :
    (∀ m s', boSetTiling b mode stride r σ.mgr = .ok ((0, m), s') →
        (exactTotal s' [some b] : Int) ≤ (s'.bos b).relocTreeSize)
      ↔ (σ.mgr.bos b).isUserptr = true ∨ (σ.mgr.bos b).refuses mode (linearStride mode stride) r = true
        ∨ ((σ.mgr.bos b).retiled mode (linearStride mode stride) r).endless σ.mgr.cfg = true
        ∨ ((σ.mgr.bos b).retiled mode (linearStride mode stride) r).apertureFits σ.mgr.cfg = true
          ∧ exactTotal σ.mgr [some b]
            ≤ ((σ.mgr.bos b).retiled mode (linearStride mode stride) r).apertureRoom σ.mgr.cfg := by
  have hkept : ∀ f : Bo → Bo, (f (σ.mgr.bos b)).key = (σ.mgr.bos b).key →
      exactTotal (σ.mgr.modify b f) [some b] = exactTotal σ.mgr [some b] := fun f hf => by
    have hfield : ∀ {α : Type} (F : Bo → α), (∀ bo, F bo = F bo.key) → ∀ c, F ((σ.mgr.modify b f).bos c) = F (σ.mgr.bos c) :=
      fun F hF c => modify_field F σ.mgr b c (by rw [hF, hf, ← hF])
    have hnext : (σ.mgr.modify b f).nextBo = σ.mgr.nextBo := rfl
    exact exactTotal_congr hnext (hfield Bo.targets fun _ => rfl) (hfield Bo.size fun _ => rfl) _
  have hown : (σ.mgr.bos b).size ≤ exactTotal σ.mgr [some b] :=
    size_le_exactTotal (List.mem_singleton.mpr rfl) (h.rest.settled.lt_nextBo hb.2)
  rw [boSetTiling_succeeds hu, ← inApertureSize_room (by rw [Bo.retiled_size]; exact hown)]
  refine or_congr_right (or_congr_right (forall_congr' fun size => forall_congr' fun _ => ?_))
  rw [hkept _ (show ((Bo.setTreeSize size ∘ Bo.retiled mode (linearStride mode stride) r) (σ.mgr.bos b)).key = _ from
    Bo.retiled_key ..), modify_self]
  rfl

/-- A batch of two pages with a relocation to an object of one. -/
def roomyBatch : List Call :=
  [.alloc 8192 false (.simple 1 1), .alloc 4096 false (.simple 2 2), .emitReloc 0 ⟨0, 1, 0, 0, 0, false, true⟩]

/-- On generation 3 a tiled batch has room for its alignment, and the target fits in it. -/
theorem retiled_sound_roomyBatch : ∃ σ, playAll Call.clean { gen := 3 } .empty roomyBatch = some σ
    ∧ (σ.mgr.bos 0).targets = [1]
    ∧ ∀ m s', boSetTiling 0 I915_TILING_X 512 (.ok ⟨I915_TILING_X, 0, 512⟩) σ.mgr = .ok ((0, m), s') →
      (exactTotal s' [some 0] : Int) ≤ (s'.bos 0).relocTreeSize := by
  have hrun : (playAll Call.clean { gen := 3 } .empty roomyBatch).any (fun σ => decide (σ.mgr.Live 0
      ∧ (σ.mgr.bos 0).targets = [1] ∧ (σ.mgr.bos 0).usedAsRelocTarget = false
      ∧ ((σ.mgr.bos 0).retiled I915_TILING_X 512 (.ok ⟨I915_TILING_X, 0, 512⟩)).apertureFits σ.mgr.cfg = true
      ∧ ∑ c ∈ Finset.range σ.mgr.nextBo, (σ.mgr.bos c).size
        ≤ ((σ.mgr.bos 0).retiled I915_TILING_X 512 (.ok ⟨I915_TILING_X, 0, 512⟩)).apertureRoom σ.mgr.cfg)) = true := by
    decide +kernel
  obtain ⟨σ, hplay, h, hend⟩ := playAll_any KernelOk.empty hrun
  obtain ⟨hlive, htargets, hu, hfits, hroom⟩ := of_decide_eq_true hend
  exact ⟨σ, hplay, htargets, (retiled_sound_iff h hlive hu I915_TILING_X 512 _).mpr
    (.inr (.inr (.inr ⟨hfits, (exactTotal_le_all σ.mgr [some 0]).trans hroom⟩)))⟩

/-- A batch of one page with a relocation to an object of two. -/
def smallBatch : List Call :=
  [.alloc 4096 false (.simple 1 1), .alloc 8192 false (.simple 2 2), .emitReloc 0 ⟨0, 1, 0, 0, 0, false, true⟩]

/-- After its tiling has changed, the batch counts for one page. -/
theorem retiled_unsound_smallBatch : ∃ σ, playAll Call.clean {} .empty smallBatch = some σ ∧ σ.mgr.Live 0
    ∧ (σ.mgr.bos 0).usedAsRelocTarget = false
    ∧ ¬ ∀ m s', boSetTiling 0 I915_TILING_X 512 (.ok ⟨I915_TILING_X, 0, 512⟩) σ.mgr = .ok ((0, m), s') →
      (exactTotal s' [some 0] : Int) ≤ (s'.bos 0).relocTreeSize := by
  have hrun : (playAll Call.clean {} .empty smallBatch).any (fun σ => decide (σ.mgr.Live 0
      ∧ (σ.mgr.bos 0).usedAsRelocTarget = false)
      && returns (fun r => decide (r.1.1 = 0 ∧ (r.2.bos 0).relocTreeSize = 4096 ∧ (r.2.bos 0).targets = [1]
          ∧ (r.2.bos 1).size = 8192 ∧ r.2.nextBo = 2))
        (boSetTiling 0 I915_TILING_X 512 (.ok ⟨I915_TILING_X, 0, 512⟩) σ.mgr)) = true := by
    decide +kernel
  obtain ⟨σ, hplay, -, hend⟩ := playAll_any KernelOk.empty hrun
  obtain ⟨hstate, hafter⟩ := Bool.and_eq_true_iff.mp hend
  obtain ⟨hlive, hu⟩ := of_decide_eq_true hstate
  obtain ⟨⟨⟨ret, m⟩, s'⟩, hcall, hleft⟩ := returns_true hafter
  obtain ⟨hret, htree, htargets, hsize, hnext⟩ := of_decide_eq_true hleft
  obtain rfl : ret = 0 := hret
  refine ⟨σ, hplay, hlive, hu, fun hsound => ?_⟩
  have hbelow := hsound m s' hcall
  have hreach : Reached s' [some 0] 1 := by
    refine ⟨0, List.mem_singleton.mpr rfl, .single ⟨?_, by decide⟩⟩
    show 1 ∈ (s'.bos 0).targets
    rw [htargets]
    decide
  have hlarge := size_le_of_reached hreach (show 1 < s'.nextBo by rw [show s'.nextBo = 2 from hnext]; decide)
  rw [show (s'.bos 1).size = 8192 from hsize] at hlarge
  rw [show (s'.bos 0).relocTreeSize = 4096 from htree] at hbelow
  omega

end LibDrm.Gem
