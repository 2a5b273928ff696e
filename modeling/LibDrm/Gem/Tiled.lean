/-
# `LibDrm.Gem.Tiled` — the layout of a tiled allocation

`drm_intel_gem_bo_alloc_tiled` asks two functions for the pitch and for the size,
and each of them may give the tiling up; the height, the pitch and the size are
then computed again for the linear layout.

| | gives up | else |
| :-- | :-- | :-- |
| `tile_pitch` | before generation 4, above 8192 bytes | whole tiles, before generation 4 a power of two |
| `tile_size` | before generation 4, above the largest fence | whole pages, or a power of two |

A linear layout is never given up, so that the loop has two rounds at most, and
all three numbers belong to the tiling that is left (`tiled_layout_sound`).
-/
import LibDrm.Gem.Retiling

namespace LibDrm.Gem

open Walk CInt

/-! ## Rounding -/

/-- The least multiple, where the sum does not wrap. -/
theorem roundUpTo_spec {x y : Nat} (hy : 0 < y) (hfit : x + y ≤ 2 ^ 64) :
    x ≤ roundUpTo x y ∧ y ∣ roundUpTo x y ∧ roundUpTo x y < x + y := by
  unfold roundUpTo
  rw [Nat.mod_eq_of_lt (by omega)]
  have hdiv := Nat.div_add_mod (x + y - 1) y
  have hmod := Nat.mod_lt (x + y - 1) hy
  rw [Nat.mul_comm] at hdiv
  exact ⟨by omega, Nat.dvd_mul_left .., by omega⟩

/-- The least doubling that reaches the bound, where the rounds are enough for one. -/
theorem doubleUntil_spec (bound : Nat) : ∀ (k : Nat) {i : Nat}, bound ≤ i * 2 ^ k →
    ∃ j, doubleUntil bound k i = i * 2 ^ j ∧ bound ≤ i * 2 ^ j ∧ ∀ n, bound ≤ i * 2 ^ n → j ≤ n
  | 0, i, h => ⟨0, (Nat.mul_one i).symm, h, fun _ _ => Nat.zero_le _⟩
  | k + 1, i, h => by
      unfold doubleUntil
      split
      · rename_i hlt
        have hshift : ∀ n, i * 2 * 2 ^ n = i * 2 ^ (n + 1) := fun n => by
          rw [Nat.mul_assoc, pow_succ, Nat.mul_comm 2]
        obtain ⟨j, hj, hreach, hleast⟩ := doubleUntil_spec bound k ((hshift k).symm ▸ h)
        refine ⟨j + 1, by rw [hj, hshift], by rwa [← hshift], fun n hn => ?_⟩
        cases n with
        | zero => omega
        | succ n => exact Nat.succ_le_succ (hleast n (by rwa [hshift]))
      · rename_i hge
        exact ⟨0, (Nat.mul_one i).symm, by omega, fun _ _ => Nat.zero_le _⟩

/-! ## The two helpers -/

/-- `height_alignment`. -/
def heightAlignment (cfg : Config) (tiling : Nat) : Nat :=
  if cfg.gen = 2 ∧ tiling ≠ I915_TILING_NONE then 16
  else if tiling = I915_TILING_X ∨ (cfg.is915 ∧ tiling = I915_TILING_Y) then 8
  else if tiling = I915_TILING_Y then 32 else 2

/-- `tile_width`. -/
def tileWidth (cfg : Config) (tiling : Nat) : Nat :=
  if tiling = I915_TILING_X ∨ (cfg.is915 ∧ tiling = I915_TILING_Y) then 512 else 128

theorem heightAlignment_bounds (cfg : Config) (tiling : Nat) :
    0 < heightAlignment cfg tiling ∧ heightAlignment cfg tiling ≤ 32 := by
  unfold heightAlignment
  split
  · decide
  split
  · decide
  split <;> decide

/-- A tile is 128 or 512 bytes wide. -/
theorem tileWidth_pow (cfg : Config) (tiling : Nat) :
    ∃ w, tileWidth cfg tiling = 2 ^ w ∧ 7 ≤ w ∧ w ≤ 9 := by
  unfold tileWidth
  split
  · exact ⟨9, rfl, by decide, le_rfl⟩
  · exact ⟨7, rfl, le_rfl, by decide⟩

/-- What holds of a pitch for the tiling `tiling`. -/
structure PitchOk (cfg : Config) (tiling pitch : Nat) : Prop where
  untiled : tiling = I915_TILING_NONE → 64 ∣ pitch
  tiled : tiling ≠ I915_TILING_NONE → tileWidth cfg tiling ∣ pitch
  old : tiling ≠ I915_TILING_NONE → cfg.gen < 4 → (∃ k, pitch = 2 ^ k) ∧ pitch ≤ 8192

/-- What holds of a size for the tiling `tiling`: without relaxed fencing the older chips have a
fence cover all of it. -/
def SizeOk (cfg : Config) (tiling size : Nat) : Prop :=
  tiling ≠ I915_TILING_NONE → cfg.gen < 4 → cfg.hasRelaxedFencing = false →
    (∃ k, size = 2 ^ k) ∧ 2 ^ cfg.minFence ≤ size

/-- `drm_intel_gem_bo_tile_pitch`. -/
theorem boTilePitch_spec (cfg : Config) {pitch : Nat} (hfit : pitch < 2 ^ 31) (mode : Nat) :
    pitch ≤ (boTilePitch cfg pitch mode).1 ∧ (boTilePitch cfg pitch mode).1 < 2 ^ 31 + 8192
      ∧ ((boTilePitch cfg pitch mode).2 = mode ∨ (boTilePitch cfg pitch mode).2 = I915_TILING_NONE)
      ∧ PitchOk cfg (boTilePitch cfg pitch mode).2 (boTilePitch cfg pitch mode).1 := by
  obtain ⟨hge₆₄, hdvd₆₄, hlt₆₄⟩ := roundUpTo_spec (x := pitch) (y := 64) (by decide) (by omega)
  have huntiled : PitchOk cfg I915_TILING_NONE (roundUpTo pitch 64) :=
    ⟨fun _ => hdvd₆₄, fun h => absurd rfl h, fun h => absurd rfl h⟩
  obtain ⟨w, hw, hw7, hw9⟩ := tileWidth_pow cfg mode
  have hwidth : 0 < tileWidth cfg mode ∧ tileWidth cfg mode ≤ 2 ^ 9 := by
    rw [hw]
    exact ⟨Nat.two_pow_pos w, Nat.pow_le_pow_right (by decide) hw9⟩
  have hunfold : boTilePitch cfg pitch mode = if mode = I915_TILING_NONE then (roundUpTo pitch 64, mode)
      else if 4 ≤ cfg.gen then (roundUpTo pitch (tileWidth cfg mode), mode)
      else if 8192 < pitch then (roundUpTo pitch 64, I915_TILING_NONE)
      else (doubleUntil pitch 64 (tileWidth cfg mode), mode) := rfl
  rw [hunfold]
  split
  · rename_i hnone
    rw [hnone]
    exact ⟨hge₆₄, by omega, .inl rfl, huntiled⟩
  rename_i htiled
  split
  · rename_i hgen
    obtain ⟨hge, hdvd, hlt⟩ := roundUpTo_spec (x := pitch) hwidth.1 (by omega)
    exact ⟨hge, by dsimp only; omega, .inl rfl, fun h => absurd h htiled, fun _ => hdvd, fun _ h => absurd h (by omega)⟩
  split
  · exact ⟨hge₆₄, by omega, .inr rfl, huntiled⟩
  · -- the pitch is at most 8192, which is a power of two itself
    rename_i hsmall
    have h8192 : tileWidth cfg mode * 2 ^ (13 - w) = 8192 := by
      rw [hw, ← pow_add, Nat.add_sub_cancel' (by omega)]
      rfl
    have hrounds : pitch ≤ tileWidth cfg mode * 2 ^ 64 := by
      have := Nat.le_mul_of_pos_left (2 ^ 64) hwidth.1
      omega
    obtain ⟨j, hj, hreach, hleast⟩ := doubleUntil_spec _ 64 hrounds
    have hle : tileWidth cfg mode * 2 ^ j ≤ 8192 := by
      rw [← h8192]
      exact Nat.mul_le_mul_left _ (Nat.pow_le_pow_right (by decide) (hleast _ (by omega)))
    dsimp only
    rw [hj]
    refine ⟨hreach, by omega, .inl rfl, fun h => absurd h htiled, fun _ => Nat.dvd_mul_right .., fun _ _ => ⟨?_, hle⟩⟩
    exact ⟨w + j, by rw [hw, pow_add]⟩

/-- `drm_intel_gem_bo_tile_size`. -/
theorem boTileSize_spec (cfg : Config) {size : Nat} (hfit : size < 2 ^ 63) (mode : Nat) :
    size ≤ (boTileSize cfg size mode).1
      ∧ ((boTileSize cfg size mode).2 = mode ∨ (boTileSize cfg size mode).2 = I915_TILING_NONE)
      ∧ SizeOk cfg (boTileSize cfg size mode).2 (boTileSize cfg size mode).1 := by
  obtain ⟨hpage, -, -⟩ := roundUpTo_spec (x := size) (y := 4096) (by decide) (by omega)
  have hmin : (if cfg.gen = 3 then 1024 * 1024 else 512 * 1024) = 2 ^ cfg.minFence := by
    unfold Config.minFence
    split <;> rfl
  obtain ⟨maxSize, hunfold⟩ : ∃ maxSize, boTileSize cfg size mode = if mode = I915_TILING_NONE then (size, mode)
      else if 4 ≤ cfg.gen then (roundUpTo size 4096, mode)
      else if maxSize < size then (size, I915_TILING_NONE)
      else if cfg.hasRelaxedFencing then (roundUpTo size 4096, mode)
      else (doubleUntil size 64 (2 ^ cfg.minFence), mode) := by
    rw [← hmin]
    exact ⟨_, rfl⟩
  rw [hunfold]
  split
  · rename_i hnone
    exact ⟨le_rfl, .inl rfl, fun h => absurd hnone h⟩
  split
  · rename_i hgen
    exact ⟨hpage, .inl rfl, fun _ h => absurd h (by omega)⟩
  split
  · exact ⟨le_rfl, .inr rfl, fun h => absurd rfl h⟩
  split
  · rename_i hrelaxed
    exact ⟨hpage, .inl rfl, fun _ _ h => absurd hrelaxed (by simp [h])⟩
  · have hrounds : size ≤ 2 ^ cfg.minFence * 2 ^ 64 := by
      have := Nat.le_mul_of_pos_left (2 ^ 64) (Nat.two_pow_pos cfg.minFence)
      omega
    obtain ⟨j, hj, hreach, -⟩ := doubleUntil_spec _ 64 hrounds
    dsimp only
    rw [hj]
    exact ⟨hreach, .inl rfl, fun _ _ _ => ⟨⟨cfg.minFence + j, (pow_add ..).symm⟩, Nat.le_mul_of_pos_right _ (Nat.two_pow_pos j)⟩⟩

/-! ## The loop -/

/-- What is asked of a layout: the size, the pitch and the tiling. -/
structure TiledOk (cfg : Config) (x y cpp : Int) (l : Nat × Nat × Nat) : Prop where
  pitch : x * cpp ≤ l.2.1
  size : ∃ rows, heightAlignment cfg l.2.2 ∣ rows ∧ y ≤ rows ∧ rows < y + heightAlignment cfg l.2.2 ∧ l.2.1 * rows ≤ l.1
  pitchOk : PitchOk cfg l.2.2 l.2.1
  sizeOk : SizeOk cfg l.2.2 l.1

section Layout

variable {cfg : Config} {x y cpp : Int}

variable (cfg) in
/-- One round: the tiling stays or is given up, and the layout is right if it stays. -/
theorem tiledRound_spec (hx : 0 < x) (hy : 0 < y) (hcpp : 0 < cpp) (hint : y < 2 ^ 31) (hfit : x * cpp < 2 ^ 31)
    (tiling : Nat) : ∃ size stride mode, tiledRound cfg x y cpp tiling = (size, stride, mode)
      ∧ (mode = tiling ∨ mode = I915_TILING_NONE) ∧ (mode = tiling → TiledOk cfg x y cpp (size, stride, tiling)) := by
  have hpos : 0 < x * cpp := Int.mul_pos hx hcpp
  have hrow : (uint64 (int32 (x * cpp))).toNat = (x * cpp).toNat := by
    rw [int32_of_range (by omega) hfit, uint64, Int.emod_eq_of_lt hpos.le (by omega)]
  have hrows : (uint64 y).toNat = y.toNat := by rw [uint64, Int.emod_eq_of_lt hy.le (by omega)]
  obtain ⟨hh0, hh32⟩ := heightAlignment_bounds cfg tiling
  obtain ⟨hyle, hydvd, hylt⟩ := roundUpTo_spec (x := y.toNat) hh0 (by omega)
  obtain ⟨hple, hplt, hpmode, hpitch⟩ := @boTilePitch_spec cfg (x * cpp).toNat (by omega) tiling
  have hunfold : tiledRound cfg x y cpp tiling =
      ((boTileSize cfg ((boTilePitch cfg (x * cpp).toNat tiling).1 * roundUpTo y.toNat (heightAlignment cfg tiling) % 2 ^ 64)
          (boTilePitch cfg (x * cpp).toNat tiling).2).1, (boTilePitch cfg (x * cpp).toNat tiling).1,
        (boTileSize cfg ((boTilePitch cfg (x * cpp).toNat tiling).1 * roundUpTo y.toNat (heightAlignment cfg tiling) % 2 ^ 64)
          (boTilePitch cfg (x * cpp).toNat tiling).2).2) := by
    rw [← hrow, ← hrows]
    rfl
  rw [hunfold]
  generalize roundUpTo y.toNat (heightAlignment cfg tiling) = rows at *
  generalize boTilePitch cfg (x * cpp).toNat tiling = p at *
  obtain ⟨stride, mode₁⟩ := p
  dsimp only at *
  -- neither the pitch nor the size of the whole gets near the width of an `unsigned long`
  have hprod : stride * rows < 2 ^ 63 := by
    calc stride * rows ≤ (2 ^ 31 + 8192) * (2 ^ 31 + 32) := Nat.mul_le_mul (by omega) (by omega)
      _ < 2 ^ 63 := by decide
  rw [Nat.mod_eq_of_lt (by omega)]
  obtain ⟨hsize, hsmode, hsok⟩ := boTileSize_spec cfg hprod mode₁
  generalize boTileSize cfg (stride * rows) mode₁ = q at *
  obtain ⟨size, mode⟩ := q
  dsimp only at *
  refine ⟨size, stride, mode, rfl, ?_, fun hstay => ?_⟩
  · rcases hsmode with rfl | rfl
    · exact hpmode
    · exact .inr rfl
  · -- the pitch was computed for the tiling that the size left
    have hmode₁ : mode₁ = tiling := by
      rcases hsmode with rfl | rfl
      · exact hstay
      · exact hpmode.elim id fun h => h.trans hstay
    subst hstay
    subst hmode₁
    exact ⟨by dsimp only; omega, ⟨rows, hydvd, by omega, by dsimp only; omega, hsize⟩, hpitch, hsok⟩

variable (cfg) in
/-- The loop ends after two rounds at most. -/
theorem tiledLayout_spec (hx : 0 < x) (hy : 0 < y) (hcpp : 0 < cpp) (hint : y < 2 ^ 31) (hfit : x * cpp < 2 ^ 31)
    (mode : Nat) : Returns (tiledLayout cfg x y cpp 2 mode) (TiledOk cfg x y cpp) := by
  obtain ⟨size, stride, mode₁, hround, hmode, hok⟩ := tiledRound_spec cfg hx hy hcpp hint hfit mode
  unfold tiledLayout
  rw [hround]
  dsimp only
  split
  · rename_i hstay
    exact .ok (hok hstay)
  · rename_i hchanged
    obtain rfl : mode₁ = I915_TILING_NONE := hmode.resolve_left hchanged
    obtain ⟨size₂, stride₂, mode₂, hround₂, hmode₂, hok₂⟩ :=
      tiledRound_spec cfg hx hy hcpp hint hfit I915_TILING_NONE
    have hstay₂ : mode₂ = I915_TILING_NONE := hmode₂.elim id id
    unfold tiledLayout
    rw [hround₂]
    dsimp only
    rw [if_pos hstay₂]
    exact .ok (hok₂ hstay₂)

/-- A tiled allocation is laid out for the tiling that it ends with, and gets an object that holds it. -/
theorem tiled_layout_sound (hx : 0 < x) (hy : 0 < y) (hcpp : 0 < cpp) (hint : y < 2 ^ 31) (hfit : x * cpp < 2 ^ 31)
    (mode : Nat) : ∃ l, tiledLayout cfg x y cpp 2 mode = .ok l ∧ TiledOk cfg x y cpp l
      ∧ ∀ σ, Reachable Clean σ → σ.mgr.cfg = cfg → ∀ forRender r b s',
        boAllocTiled x y cpp mode forRender r σ.mgr = .ok (some b, s') → l.1 ≤ (s'.bos b).size := by
  obtain ⟨l, hl, hok⟩ := tiledLayout_spec cfg hx hy hcpp hint hfit mode
  refine ⟨l, hl, hok, fun σ h hcfg forRender r b s' hr => ?_⟩
  obtain ⟨hset, hlock, -⟩ := h.rest
  unfold boAllocTiled at hr
  rw [hcfg, hl, ok_bind] at hr
  obtain ⟨-, -, hh, hsize, -⟩ := boAllocInternal_spec hset (fun _ e => e) hlock l.1 forRender l.2.2 _ r _ hr
  exact hsize

end Layout

/-- A surface of 1024 by 768 pixels of four bytes, X-tiled. -/
theorem tiled_layout_sound_xga : ∃ l, tiledLayout { gen := 3 } 1024 768 4 2 I915_TILING_X = .ok l
    ∧ l = (4194304, 4096, I915_TILING_X) ∧ TiledOk { gen := 3 } 1024 768 4 l := by
  obtain ⟨l, hl, hok, -⟩ := @tiled_layout_sound { gen := 3 } 1024 768 4 (by decide) (by decide) (by decide) (by decide) (by decide)
    I915_TILING_X
  have hcomputed : tiledLayout { gen := 3 } 1024 768 4 2 I915_TILING_X = .ok (4194304, 4096, I915_TILING_X) := by decide
  exact ⟨l, hl, Except.ok.inj (hl.symm.trans hcomputed), hok⟩

end LibDrm.Gem
