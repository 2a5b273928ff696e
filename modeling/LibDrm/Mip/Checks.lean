/-
# `LibDrm.Mip.Checks` — what the checks of a surface establish

A surface that is laid out has passed `radeon_surface_sanity` and the check of its
family.  The checks change it in three places only:

    radeon_surface_sanity   the size of the array
    the mode                the mode in the flags (`Remoded`)
    SI, CIK                 the tile parameters (`Retiled`)

and each of them either forces the mode to 1D or leaves it (`force1d_cases`).
-/
import LibDrm.Mip.Islands
import Mathlib.Tactic.IntervalCases

namespace LibDrm.Mip

variable {A : Width} {hw : HwInfo}

/-! ## Flags -/

/-- Only the mode in the flags changes. -/
structure Remoded (s s' : Surface) : Prop where
  eq : s' = { s with flags := s'.flags }
  bits : ∀ mask, mask &&& 0xFF00#32 = 0 → s'.flags &&& mask = s.flags &&& mask

namespace Remoded

variable {s s₁ s' : Surface}

theorem refl : Remoded s s := ⟨rfl, fun _ _ => rfl⟩

theorem trans (h₁ : Remoded s s₁) (h₂ : Remoded s₁ s') : Remoded s s' where
  eq := by
    rw [h₂.eq, h₁.eq]
  bits mask hmask := (h₂.bits mask hmask).trans (h₁.bits mask hmask)

theorem has (h : Remoded s s') {mask : BitVec 32} (hmask : mask &&& 0xFF00#32 = 0) : s'.has mask = s.has mask := by
  unfold Params.has
  rw [h.bits mask hmask]

theorem nsamples (h : Remoded s s') : s'.nsamples = s.nsamples := by rw [h.eq]

end Remoded

theorem flags_of_mode (x m : BitVec 32) :
    (((x &&& ~~~(0xFF#32 <<< 8)) ||| ((m &&& 0xFF#32) <<< 8)) >>> 8) &&& 0xFF#32 = m &&& 0xFF#32 := by
  refine BitVec.eq_of_getLsbD_eq fun i hi => ?_
  interval_cases i <;> simp

theorem flags_of_mask (x m mask : BitVec 32) (hmask : mask &&& 0xFF00#32 = 0) :
    ((x &&& ~~~(0xFF#32 <<< 8)) ||| ((m &&& 0xFF#32) <<< 8)) &&& mask = x &&& mask := by
  refine BitVec.eq_of_getLsbD_eq fun i hi => ?_
  have hbit : (mask &&& 0xFF00#32).getLsbD i = false := by rw [hmask]; simp
  rw [BitVec.getLsbD_and] at hbit
  interval_cases i <;> simp_all

theorem setMode_getMode {surf : Surface} {mode : Nat} (hmode : mode < 256) : (surf.setMode mode).getMode = mode := by
  have hand : (BitVec.ofNat 32 mode &&& 0xFF#32).toNat = mode := by
    rw [BitVec.toNat_and, BitVec.toNat_ofNat, show (0xFF#32).toNat = 2 ^ 8 - 1 from rfl, Nat.and_two_pow_sub_one_eq_mod]
    omega
  have hflags := congrArg BitVec.toNat (flags_of_mode surf.flags (BitVec.ofNat 32 mode))
  exact hflags.trans hand

theorem setMode_remoded {surf : Surface} {mode : Nat} : Remoded surf (surf.setMode mode) where
  eq := rfl
  bits mask hmask := flags_of_mask surf.flags _ mask hmask

theorem msaaMode_remoded {surf : Surface} : Remoded surf (msaaMode surf) := by
  unfold msaaMode
  split
  · exact setMode_remoded
  · exact Remoded.refl

theorem depthMode_remoded {surf : Surface} : Remoded surf (depthMode surf).2 := by
  unfold depthMode
  split
  · split
    · exact Remoded.refl
    · exact setMode_remoded
  · exact Remoded.refl

theorem tilingMode_remoded {surf : Surface} : Remoded surf (tilingMode surf).2 :=
  (msaaMode_remoded).trans depthMode_remoded

/-- The mode that is asked for is the one in the flags. -/
theorem depthMode_getMode {surf : Surface} : (depthMode surf).2.getMode = (depthMode surf).1 := by
  unfold depthMode
  split
  · split
    · rfl
    · exact setMode_getMode (by decide)
  · rfl

/-- The mode of the caller stands if it is 2D, and no other becomes 2D. -/
theorem depthMode_eq_2d {surf : Surface} :
    (depthMode surf).1 = RADEON_SURF_MODE_2D ↔ surf.getMode = RADEON_SURF_MODE_2D := by
  unfold depthMode
  split
  · split
    · rfl
    · rename_i hmode
      rw [not_or] at hmode
      refine iff_of_false ?_ hmode.2
      show RADEON_SURF_MODE_1D ≠ RADEON_SURF_MODE_2D
      decide
  · rfl

theorem tilingMode_eq_2d {surf : Surface} (h : ¬ 1 < surf.nsamples) :
    (tilingMode surf).1 = RADEON_SURF_MODE_2D ↔ surf.getMode = RADEON_SURF_MODE_2D := by
  unfold tilingMode
  rw [show msaaMode surf = surf from if_neg h]
  exact depthMode_eq_2d

theorem force1d_remoded {allowed : Bool} {mode : Nat} {surf : Surface} : Remoded surf (force1d allowed mode surf).2.2 := by
  unfold force1d
  split
  · split
    · exact Remoded.refl
    · exact setMode_remoded
  · exact Remoded.refl

/-- The mode is forced, or it stays; a surface with several samples cannot be forced. -/
theorem force1d_cases {allowed : Bool} {mode : Nat} {surf : Surface} (h : (force1d allowed mode surf).1 = 0) :
    (allowed = false ∧ RADEON_SURF_MODE_1D < mode ∧ ¬ 1 < surf.nsamples ∧
      force1d allowed mode surf = (0, RADEON_SURF_MODE_1D, surf.setMode RADEON_SURF_MODE_1D)) ∨
    ((allowed = true ∨ mode ≤ RADEON_SURF_MODE_1D) ∧ force1d allowed mode surf = (0, mode, surf)) := by
  by_cases hforce : ¬ allowed ∧ RADEON_SURF_MODE_1D < mode
  · by_cases hmsaa : 1 < surf.nsamples
    · simp [force1d, hforce, hmsaa, EFAULT] at h
    · refine .inl ⟨by simpa using hforce.1, hforce.2, hmsaa, ?_⟩
      simp [force1d, hforce, hmsaa]
  · refine .inr ⟨?_, ?_⟩
    · simp only [not_and, Bool.not_eq_true, Nat.not_lt] at hforce
      cases allowed with
      | true => exact .inl rfl
      | false => exact .inr (hforce rfl)
    · rw [force1d, if_neg hforce]

/-! ## Divisions -/

theorem div_ok {a b c : Nat} (h : div a b = .ok c) : b ≠ 0 ∧ c = a / b := by
  unfold div at h
  by_cases hb : b = 0
  · rw [if_pos hb] at h
    cases h
  · rw [if_neg hb] at h
    cases h
    exact ⟨hb, rfl⟩

theorem macroTile_ok {surf : Params} {numPipes numBanks tileb w h b : Nat}
    (hm : macroTile A surf numPipes numBanks tileb = .ok (w, h, b)) :
    surf.mtilea ≠ 0 ∧ w = A.u32 (8 * surf.bankw * numPipes * surf.mtilea) ∧
      h = A.u32 (8 * surf.bankh * numBanks) / surf.mtilea ∧ b = A.u32 (w / 8 * (h / 8) * tileb) := by
  obtain ⟨h', hdiv, hm⟩ := exists_of_bind_ok hm
  obtain ⟨hne, rfl⟩ := div_ok hdiv
  cases hm
  exact ⟨hne, rfl, rfl, rfl⟩

/-! ## The check of every surface -/

/-- What `radeon_surface_sanity` checks. -/
structure Checked1 (surf : Params) : Prop where
  npixX : 0 < surf.npixX
  npixY : 0 < surf.npixY
  npixZ : 0 < surf.npixZ
  blkW : 0 < surf.blkW
  blkH : 0 < surf.blkH
  blkD : 0 < surf.blkD
  nsamples : surf.nsamples ∈ [1, 2, 4, 8]

theorem radeonSurfaceSanity_ok {man : SurfaceManager} {surf surf' : Surface} {type : Nat}
    (h : radeonSurfaceSanity A man surf type = .ok (0, surf')) :
    Checked1 surf.toParams ∧ 0 < surf.arraySize ∧ ∃ n arraySize, nextPowerOfTwo A surf.arraySize = .ok n ∧
      typeArraySize man.family type { surf.toParams with arraySize := n } = some arraySize ∧
      surf' = { surf with arraySize := arraySize } := by
  unfold radeonSurfaceSanity at h
  split at h
  · cases h
  rename_i hnpix
  split at h
  · cases h
  rename_i hblk
  split at h
  · cases h
  rename_i harray
  obtain ⟨n, hn, h⟩ := exists_of_bind_ok h
  dsimp only at h
  split at h
  · cases h
  rename_i hns
  split at h
  · cases h
  rename_i arraySize hsize
  cases h
  simp only [not_or] at hnpix hblk
  refine ⟨⟨?_, ?_, ?_, ?_, ?_, ?_, not_not.mp hns⟩, ?_, n, arraySize, hn, hsize, rfl⟩
  all_goals omega

/-- A surface that was laid out has passed the first check. -/
theorem radeonSurfaceInit_ok {man : SurfaceManager} {surf surf' : Surface}
    (h : radeonSurfaceInit A man surf = .ok (0, surf')) :
    ∃ s₁, radeonSurfaceSanity A man surf surf.getType = .ok (0, s₁) ∧ surfaceInit A man s₁ = .ok (0, surf') := by
  obtain ⟨⟨r, s₁⟩, hs₁, h⟩ := exists_of_bind_ok h
  dsimp only at h
  by_cases hr : r = 0
  · subst hr
    exact ⟨s₁, hs₁, h⟩
  · rw [if_pos hr] at h
    cases h
    exact absurd rfl hr

/-! ## The checks of the families -/

/-- The bounds on the pixels and the levels. -/
def InBounds (maxPix maxLevel : Nat) (surf : Params) : Prop :=
  surf.npixX ≤ maxPix ∧ surf.npixY ≤ maxPix ∧ surf.npixZ ≤ maxPix ∧ surf.lastLevel ≤ maxLevel

/-- The tile parameters that evergreen accepts for 2D tiles. -/
structure EgTiles (A : Width) (hw : HwInfo) (surf : Params) : Prop where
  tileSplit : surf.tileSplit ∈ [64, 128, 256, 512, 1024, 2048, 4096]
  mtilea : surf.mtilea ∈ [1, 2, 4, 8]
  aspect : surf.mtilea ≤ hw.numBanks
  bankw : surf.bankw ∈ [1, 2, 4, 8]
  bankh : surf.bankh ∈ [1, 2, 4, 8]
  group : hw.groupBytes ≤ A.u32 (min surf.tileSplit (A.u32 (64 * surf.bpe * surf.nsamples)) * surf.bankh * surf.bankw)

/-- The mode was forced to 1D in the flags `s'`, or nothing changed. -/
def Forced (allowed : Bool) (mode : Nat) (s s' : Surface) : Prop :=
  (allowed = false ∧ RADEON_SURF_MODE_1D < mode ∧ ¬ 1 < s.nsamples ∧ s' = s.setMode RADEON_SURF_MODE_1D) ∨
  ((allowed = true ∨ mode ≤ RADEON_SURF_MODE_1D) ∧ s' = s)

/-- The check of evergreen: where the mode is forced, the tile parameters are not looked at. -/
theorem egSurfaceSanity_ok {surf : Surface} {mode : Nat} (h : (egSurfaceSanity A hw surf mode).1 = 0) :
    InBounds 16384 15 surf.toParams ∧ Forced hw.allow2d mode surf (egSurfaceSanity A hw surf mode).2 ∧
      (hw.allow2d = true → mode = RADEON_SURF_MODE_2D → EgTiles A hw surf.toParams) := by
  unfold egSurfaceSanity at h ⊢
  split at h
  · cases h
  rename_i hpix
  rw [if_neg hpix]
  split at h
  · cases h
  rename_i hlevel
  rw [if_neg hlevel]
  simp only [not_or, Nat.not_lt] at hpix hlevel
  have hbounds : InBounds 16384 15 surf.toParams := ⟨hpix.1, hpix.2.1, hpix.2.2, hlevel⟩
  refine ⟨hbounds, ?_⟩
  dsimp only at h ⊢
  by_cases hr : (force1d hw.allow2d mode surf).1 = 0
  swap
  · rw [if_pos hr] at h
    exact absurd h hr
  rw [if_neg (not_not.mpr hr)] at h ⊢
  rcases force1d_cases hr with ⟨hallow, hmode, hns, heq⟩ | ⟨hallow, heq⟩
  · -- forced: the copy of the mode is 1D and the rest of the check is not reached
    rw [heq] at h ⊢
    refine ⟨.inl ⟨hallow, hmode, hns, ?_⟩, fun hyes => ?_⟩
    · rfl
    · rw [hallow] at hyes
      cases hyes
  · rw [heq] at h ⊢
    dsimp only at h ⊢
    by_cases h2d : mode = RADEON_SURF_MODE_2D
    · rw [if_pos h2d] at h ⊢
      split at h
      · cases h
      rename_i hsplit
      split at h
      · cases h
      rename_i hmtilea
      split at h
      · cases h
      rename_i haspect
      split at h
      · cases h
      rename_i hbankw
      split at h
      · cases h
      rename_i hbankh
      split at h
      · cases h
      rename_i hgroup
      rw [if_neg hsplit, if_neg hmtilea, if_neg haspect, if_neg hbankw, if_neg hbankh, if_neg hgroup]
      refine ⟨.inr ⟨hallow, rfl⟩, fun _ _ => ?_⟩
      exact ⟨not_not.mp hsplit, not_not.mp hmtilea, Nat.not_lt.mp haspect, not_not.mp hbankw, not_not.mp hbankh,
        Nat.not_lt.mp hgroup⟩
    · rw [if_neg h2d]
      exact ⟨.inr ⟨hallow, rfl⟩, fun _ h => absurd h h2d⟩

/-- What the check of SI or CIK comes to, in terms of the choice of the tile modes. -/
theorem islandsSanity_ok {depthStencil : Nat} {modes2d : Surface → Checked} {surf : Surface} {mode : Nat}
    (h : (islandsSanity hw depthStencil modes2d surf mode).1 = 0) :
    InBounds 16384 15 surf.toParams ∧
      (((hw.allow2d && surf.has RADEON_SURF_HAS_TILE_MODE_INDEX) = false ∧ RADEON_SURF_MODE_1D < mode ∧
          ¬ 1 < surf.nsamples ∧ islandsSanity hw depthStencil modes2d surf mode
            = tileModes1d depthStencil (defaultTiles (surf.setMode RADEON_SURF_MODE_1D))) ∨
        (((hw.allow2d && surf.has RADEON_SURF_HAS_TILE_MODE_INDEX) = true ∨ mode ≤ RADEON_SURF_MODE_1D) ∧
          (1 < surf.nsamples → mode = RADEON_SURF_MODE_2D) ∧
          islandsSanity hw depthStencil modes2d surf mode = tileModes depthStencil modes2d mode (defaultTiles surf))) := by
  unfold islandsSanity at h ⊢
  split at h
  · cases h
  rename_i hpix
  rw [if_neg hpix]
  split at h
  · cases h
  rename_i hlevel
  rw [if_neg hlevel]
  simp only [not_or, Nat.not_lt] at hpix hlevel
  have hbounds : InBounds 16384 15 surf.toParams := ⟨hpix.1, hpix.2.1, hpix.2.2, hlevel⟩
  refine ⟨hbounds, ?_⟩
  dsimp only at h ⊢
  by_cases hr : (force1d (hw.allow2d && surf.has RADEON_SURF_HAS_TILE_MODE_INDEX) mode surf).1 = 0
  swap
  · rw [if_pos hr] at h
    exact absurd h hr
  rw [if_neg (not_not.mpr hr)] at h ⊢
  rcases force1d_cases hr with ⟨hallow, hmode, hns, heq⟩ | ⟨hallow, heq⟩
  · rw [heq]
    refine .inl ⟨hallow, hmode, hns, ?_⟩
    rw [if_neg fun hbad => hns hbad.1]
    rfl
  · rw [heq] at h ⊢
    dsimp only at h ⊢
    by_cases hbad : 1 < surf.nsamples ∧ mode ≠ RADEON_SURF_MODE_2D
    · rw [if_pos hbad] at h
      cases h
    · rw [if_neg hbad]
      exact .inr ⟨hallow, fun hns => not_not.mp fun h => hbad ⟨hns, h⟩, rfl⟩

/-- Only the tile parameters change. -/
structure Retiled (s s' : Surface) : Prop where
  eq : s' = { s with mtilea := s'.mtilea, bankw := s'.bankw, bankh := s'.bankh, tileSplit := s'.tileSplit,
                     stencilTileSplit := s'.stencilTileSplit }

namespace Retiled

variable {s s₁ s' : Surface}

theorem refl : Retiled s s := ⟨rfl⟩

theorem trans (h₁ : Retiled s s₁) (h₂ : Retiled s₁ s') : Retiled s s' := ⟨by rw [h₂.eq, h₁.eq]⟩

theorem flags (h : Retiled s s') : s'.flags = s.flags := by rw [h.eq]

theorem nsamples (h : Retiled s s') : s'.nsamples = s.nsamples := by rw [h.eq]

end Retiled

theorem defaultTiles_retiled {surf : Surface} : Retiled surf (defaultTiles surf) := by
  unfold defaultTiles
  split
  · exact ⟨rfl⟩
  · exact Retiled.refl

theorem siTileModes2d_retiled {surf : Surface} : Retiled surf (siTileModes2d hw surf).2.1 := by
  unfold siTileModes2d
  split
  · exact Retiled.refl
  · dsimp only
    split
    · split
      · exact ⟨rfl⟩
      · exact Retiled.refl
    · split
      · exact ⟨rfl⟩
      · exact ⟨rfl⟩

theorem cikTileModes2d_retiled {surf : Surface} : Retiled surf (cikTileModes2d A hw surf).2.1 := by
  unfold cikTileModes2d
  split
  · exact Retiled.refl
  · dsimp only
    split
    · exact ⟨rfl⟩
    · exact ⟨rfl⟩

theorem tileModes_retiled {depthStencil mode : Nat} {modes2d : Surface → Checked} {surf : Surface}
    (h2d : Retiled surf (modes2d surf).2.1) : Retiled surf (tileModes depthStencil modes2d mode surf).2.1 := by
  unfold tileModes
  split
  · exact h2d
  · split
    · exact Retiled.refl
    · exact Retiled.refl

end LibDrm.Mip
