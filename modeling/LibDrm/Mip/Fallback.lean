/-
# `LibDrm.Mip.Fallback` — tiling modes and the forced 1D mode

Where the kernel cannot do 2D tiles, the mode of a surface is set to 1D in its flags.
The r600 function then lays the surface out in that mode.  The others make the check in a
function that has the mode by value, and lay the surface out in the mode from before:

    family        the check changes        the layout uses
    r600, r700    flags and mode           the mode
    evergreen     flags and its own copy   the mode from before
    SI, CIK       flags and its own copy   the mode from before

So a surface that asks for 2D tiles, and fills a macro tile, gets levels in 2D tiles while
its flags say 1D (`tiling_consistent`).  On SI and CIK a level that came out small does
not help: the tile mode that goes with 1D has no fallback, and the call fails.
-/
import LibDrm.Mip.Checks
import LibDrm.Mip.Trees

namespace LibDrm.Mip

variable {A : Width} {hw : HwInfo}

/-! ## Trees in 2D tiles -/

theorem mipMinify_zero {size n : Nat} (hpos : 0 < size) (h : mipMinify A size 0 = .ok n) : n = size := by
  obtain ⟨-, -, h⟩ := exists_of_bind_ok h
  rw [if_neg (Nat.lt_irrefl 0)] at h
  cases h
  rw [Nat.pow_zero, Nat.div_one]
  omega

/-- The blocks of the first level on r600 and evergreen. -/
theorem levelDims_zero {surf : Params} {lv lv' : Level} (hx : 0 < surf.npixX) (hy : 0 < surf.npixY)
    (h : levelDims A surf 0 lv = .ok lv') :
    lv'.nblkX = A.u32 (surf.npixX + surf.blkW - 1) / surf.blkW ∧
      lv'.nblkY = A.u32 (surf.npixY + surf.blkH - 1) / surf.blkH := by
  obtain ⟨npixX, hnx, h⟩ := exists_of_bind_ok h
  obtain ⟨npixY, hny, h⟩ := exists_of_bind_ok h
  obtain ⟨npixZ, -, h⟩ := exists_of_bind_ok h
  obtain ⟨nblkX, hbx, h⟩ := exists_of_bind_ok h
  obtain ⟨nblkY, hby, h⟩ := exists_of_bind_ok h
  obtain ⟨nblkZ, -, h⟩ := exists_of_bind_ok h
  cases h
  rw [mipMinify_zero hx hnx] at hbx
  rw [mipMinify_zero hy hny] at hby
  exact ⟨(div_ok hbx).2, (div_ok hby).2⟩

/-- On evergreen, the first level is smaller than the macro tile. -/
def egSmall (A : Width) (hw : HwInfo) (surf : Params) : Prop :=
  surf.nsamples = 1 ∧ surf.has RADEON_SURF_FMASK = false ∧
    (A.u32 (surf.npixX + surf.blkW - 1) / surf.blkW < A.u32 (8 * surf.bankw * hw.numPipes * surf.mtilea) ∨
      A.u32 (surf.npixY + surf.blkH - 1) / surf.blkH < A.u32 (8 * surf.bankh * hw.numBanks) / surf.mtilea)

theorem egSurfMinify_first {surf surf' : Surface} {lv lv' : Level} {bpe slicePt mtilew mtileh mtileb offset : Nat}
    (hlv : lv.mode = RADEON_SURF_MODE_2D)
    (h : egSurfMinify A surf lv bpe 0 slicePt mtilew mtileh mtileb offset = .ok (lv', surf')) :
    ∃ dims, levelDims A surf.toParams 0 lv = .ok dims ∧
      (lv'.mode = RADEON_SURF_MODE_1D ↔ dims.isSmall surf.toParams mtilew mtileh = true) := by
  obtain ⟨dims, hdims, h⟩ := exists_of_bind_ok h
  refine ⟨dims, hdims, ?_⟩
  unfold minify2d at h
  by_cases hsmall : dims.isSmall surf.toParams mtilew mtileh = true
  · rw [if_pos hsmall] at h
    cases h
    exact iff_of_true rfl hsmall
  · rw [if_neg hsmall] at h
    obtain ⟨mtilePr, -, h⟩ := exists_of_bind_ok h
    obtain ⟨mtilePs, -, h⟩ := exists_of_bind_ok h
    cases h
    refine iff_of_false ?_ hsmall
    show dims.mode ≠ RADEON_SURF_MODE_1D
    rw [levelDims_mode hdims, hlv]
    decide

theorem r6SurfaceInit2d_tiled {surf surf' : Surface} {offset : Nat}
    (h : r6SurfaceInit2d A hw surf offset 0 = .ok (0, surf')) : Tiled .level surf surf' := by
  obtain ⟨n, -, h⟩ := exists_of_bind_ok h
  obtain ⟨htiled, -⟩ := buildFrom_tiled ⟨surfMinify_minified, record_same, fun h => by cases h⟩ rfl rfl
    (fun h => (r6SurfaceInit1d_inMode h).2) h
  exact htiled.after realign_frame

theorem egSurfaceInit2d_tiled {t : Tree} {bpe tileSplit offset : Nat} {surf surf' : Surface} (hx : 0 < surf.npixX)
    (hy : 0 < surf.npixY) (h : egSurfaceInit2d A hw t bpe tileSplit surf offset 0 = .ok (0, surf')) :
    Tiled t surf surf' ∧ FirstLevel (egSmall A hw surf.toParams) surf.lastLevel (surf'.levels t) := by
  obtain ⟨⟨tileb, slicePt⟩, -, h⟩ := exists_of_bind_ok h
  obtain ⟨⟨mtilew, mtileh, mtileb⟩, hmt, h⟩ := exists_of_bind_ok h
  obtain ⟨-, hw', hh', -⟩ := macroTile_ok hmt
  obtain ⟨htiled, lv, s₁, hmin, hfirst⟩ := buildFrom_tiled ⟨egSurfMinify_minified, record_same, fun h => by cases h⟩ rfl rfl
    (fun h => (egSurfaceInit1d_inMode h).2) h
  obtain ⟨dims, hdims, hsmall⟩ := egSurfMinify_first rfl hmin
  obtain ⟨hbx, hby⟩ := levelDims_zero hx hy hdims
  have hframe : Frame t 0 surf
      (if (0 : Nat) = 0 then alignTree A (max 256 mtileb) surf offset else (surf, offset)).1 := alignTree_frame
  refine ⟨htiled.after hframe, ?_⟩
  have heq : (lv.mode = RADEON_SURF_MODE_1D) = egSmall A hw surf.toParams := by
    refine propext (hsmall.trans ?_)
    have hmode : dims.mode = RADEON_SURF_MODE_2D := levelDims_mode hdims
    rw [Level.isSmall_iff]
    unfold egSmall
    rw [hbx, hby, hw', hh']
    exact ⟨fun h => ⟨h.1, h.2.2.1, h.2.2.2⟩, fun h => ⟨h.1, hmode, h.2.1, h.2.2⟩⟩
  rw [heq] at hfirst
  exact hfirst

/-- On SI and CIK a tile mode that has no 1D mode to fall back to keeps the first level in 2D tiles. -/
theorem islandsTree2d_tiled {t : Tree} {bpe tileMode slicePt mtilew mtileh mtileb offset : Nat}
    {to1d : Nat → Option Nat} {surf surf' : Surface}
    (h : islandsTree2d A hw t bpe tileMode to1d slicePt mtilew mtileh mtileb surf offset 0 = .ok (0, surf')) :
    Tiled t surf surf' ∧ (to1d tileMode = none → (surf'.levels t 0).mode = RADEON_SURF_MODE_2D) := by
  have hframe : Frame t 0 surf
      (if (0 : Nat) ≤ 1 then alignTree A (max 256 mtileb) surf offset else (surf, offset)).1 := alignTree_frame
  cases hto : to1d tileMode with
  | none =>
      obtain ⟨htiled, hlevel⟩ := buildFrom_no_fallback
        ⟨siSurfMinify2d_minified, recordIndex_same, fun h => by cases h⟩ rfl rfl
        (fun h => by
          rw [hto] at h
          cases h) h
      exact ⟨htiled.after hframe, fun _ => hlevel⟩
  | some tileMode' =>
      obtain ⟨htiled, -⟩ := buildFrom_tiled ⟨siSurfMinify2d_minified, recordIndex_same, fun h => by cases h⟩ rfl rfl
        (fun h => by
          rw [hto] at h
          exact (siSurfaceInit1d_inMode h).2) h
      exact ⟨htiled.after hframe, nofun⟩

theorem siSurfaceInit2d_tiled {t : Tree} {bpe tileMode numPipes numBanks tileSplit offset : Nat} {surf surf' : Surface}
    (h : siSurfaceInit2d A hw t bpe tileMode numPipes numBanks tileSplit surf offset 0 = .ok (0, surf')) :
    Tiled t surf surf' ∧ (siTo1d tileMode = none → (surf'.levels t 0).mode = RADEON_SURF_MODE_2D) := by
  obtain ⟨⟨tileb, slicePt⟩, -, h⟩ := exists_of_bind_ok h
  obtain ⟨⟨mtilew, mtileh, mtileb⟩, -, h⟩ := exists_of_bind_ok h
  exact islandsTree2d_tiled h

theorem cikSurfaceInit2d_tiled {t : Tree} {bpe tileMode tileSplit numPipes numBanks offset : Nat} {surf surf' : Surface}
    (h : cikSurfaceInit2d A hw t bpe tileMode tileSplit numPipes numBanks surf offset 0 = .ok (0, surf')) :
    Tiled t surf surf' ∧ (cikTo1d tileMode = none → (surf'.levels t 0).mode = RADEON_SURF_MODE_2D) := by
  obtain ⟨⟨tileb, slicePt⟩, -, h⟩ := exists_of_bind_ok h
  obtain ⟨⟨mtilew, mtileh, mtileb⟩, -, h⟩ := exists_of_bind_ok h
  exact islandsTree2d_tiled h

/-! ## The modes of a laid out surface -/

/-- A level in a surface of `mode`: the mode, or for 2D its 1D fallback. -/
def Allowed (mode m : Nat) : Prop := m = mode ∨ (mode = RADEON_SURF_MODE_2D ∧ m = RADEON_SURF_MODE_1D)

/-- Where the stencil tree goes, if there is one. -/
def stencilTree (engine : Engine) (surf : Params) : Option Tree :=
  match engine with
  | .r6 => none
  | .eg => if isDepthStencil surf then some (egStencilTree surf) else none
  | .si | .cik => if surf.has RADEON_SURF_SBUFFER then some .stencilLevel else none

/-- The levels of both trees go with `mode`. -/
structure Modes (second : Option Tree) (mode : Nat) (s s' : Surface) : Prop where
  params : s'.toParams = s.toParams
  main : ∀ j, j ≤ s.lastLevel → Allowed mode (s'.levels .level j).mode
  stencil : ∀ t, second = some t → ∀ j, j ≤ s.lastLevel → Allowed mode (s'.levels t j).mode

theorem InMode.levels {t : Tree} {mode : Nat} {s s' : Surface} (h : InMode t 0 mode s s') :
    Frame t 0 s s' ∧ ∀ j, j ≤ s.lastLevel → Allowed mode (s'.levels t j).mode :=
  ⟨h.frame, fun j hj => .inl (h.modes j (Nat.zero_le j) hj)⟩

theorem Tiled.levels {t : Tree} {s s' : Surface} (h : Tiled t s s') :
    Frame t 0 s s' ∧ ∀ j, j ≤ s.lastLevel → Allowed RADEON_SURF_MODE_2D (s'.levels t j).mode :=
  ⟨h.frame, fun j hj => (h.modes j hj).imp id fun h => ⟨rfl, h⟩⟩

/-- A surface with one tree. -/
theorem Modes.of_inMode {mode : Nat} {second : Option Tree} {s s' : Surface} (h : InMode .level 0 mode s s')
    (hsecond : second = none) : Modes second mode s s' where
  params := h.frame.params
  main := h.levels.2
  stencil t ht := by rw [hsecond] at ht; cases ht

/-- A surface with two trees. -/
theorem Modes.of_miptrees {mode : Nat} {second : Bool} {t : Tree} {s s' : Surface}
    (h : s'.toParams = s.toParams ∧ (∀ j, j ≤ s.lastLevel → Allowed mode (s'.levels .level j).mode) ∧
      (second = true → ∀ j, j ≤ s.lastLevel → Allowed mode (s'.levels t j).mode)) :
    Modes (if second then some t else none) mode s s' where
  params := h.1
  main := h.2.1
  stencil t' ht' := by
    cases second with
    | false => cases ht'
    | true =>
        cases ht'
        exact h.2.2 rfl

/-- Without depth and stencil there is no second tree. -/
theorem stencilTree_none {engine : Engine} {surf : Params} (h : surf.has RADEON_SURF_Z_OR_SBUFFER = false) :
    stencilTree engine surf = none := by
  have hzs : surf.flags &&& RADEON_SURF_Z_OR_SBUFFER = 0 := by simpa [Params.has] using h
  have hs : surf.has RADEON_SURF_SBUFFER = false := by
    have hand : surf.flags &&& RADEON_SURF_SBUFFER
        = (surf.flags &&& RADEON_SURF_Z_OR_SBUFFER) &&& RADEON_SURF_SBUFFER := by
      rw [BitVec.and_assoc, show RADEON_SURF_Z_OR_SBUFFER &&& RADEON_SURF_SBUFFER = RADEON_SURF_SBUFFER by decide]
    simp [Params.has, hand, hzs]
  have hds : isDepthStencil surf = false := by
    unfold isDepthStencil
    rw [hzs]
    decide
  cases engine <;> simp [stencilTree, hs, hds]

/-- In a mode that is neither 1D nor 2D there is neither depth nor stencil. -/
theorem depthMode_linear {surf : Surface} (h₁ : (depthMode surf).1 ≠ RADEON_SURF_MODE_1D)
    (h₂ : (depthMode surf).1 ≠ RADEON_SURF_MODE_2D) : surf.has RADEON_SURF_Z_OR_SBUFFER = false := by
  unfold depthMode at h₁ h₂
  by_contra hzs
  rw [Bool.not_eq_false] at hzs
  rw [if_pos hzs] at h₁ h₂
  split at h₁
  · rename_i hmode
    rw [if_pos hmode] at h₂
    exact hmode.elim h₁ h₂
  · exact h₁ rfl

theorem tilingMode_linear {surf : Surface} (h₁ : (tilingMode surf).1 ≠ RADEON_SURF_MODE_1D)
    (h₂ : (tilingMode surf).1 ≠ RADEON_SURF_MODE_2D) : surf.has RADEON_SURF_Z_OR_SBUFFER = false := by
  rw [← (msaaMode_remoded).has (by decide)]
  exact depthMode_linear h₁ h₂

/-- The stencil tree depends on the flags only, and not on the mode in them. -/
theorem stencilTree_remoded {engine : Engine} {s s' : Surface} (h : Remoded s s') :
    stencilTree engine s'.toParams = stencilTree engine s.toParams := by
  have hzs := h.bits RADEON_SURF_Z_OR_SBUFFER (by decide)
  unfold stencilTree isDepthStencil egStencilTree
  rw [hzs, h.has (show RADEON_SURF_SBUFFER &&& 0xFF00#32 = 0 by decide),
    h.has (show RADEON_SURF_HAS_SBUFFER_MIPTREE &&& 0xFF00#32 = 0 by decide)]

/-- A `switch` over the four modes. -/
theorem mode_cases {mode : Nat} {α : Type} {a b c d e x : α}
    (h : (if mode = RADEON_SURF_MODE_LINEAR then a else if mode = RADEON_SURF_MODE_LINEAR_ALIGNED then b
      else if mode = RADEON_SURF_MODE_1D then c else if mode = RADEON_SURF_MODE_2D then d else e) = x) :
    (mode = RADEON_SURF_MODE_LINEAR ∧ a = x) ∨ (mode = RADEON_SURF_MODE_LINEAR_ALIGNED ∧ b = x) ∨
      (mode = RADEON_SURF_MODE_1D ∧ c = x) ∨ (mode = RADEON_SURF_MODE_2D ∧ d = x) ∨ e = x := by
  split at h
  · exact .inl ⟨‹_›, h⟩
  split at h
  · exact .inr (.inl ⟨‹_›, h⟩)
  split at h
  · exact .inr (.inr (.inl ⟨‹_›, h⟩))
  split at h
  · exact .inr (.inr (.inr (.inl ⟨‹_›, h⟩)))
  · exact .inr (.inr (.inr (.inr h)))

theorem ok_zero {r : Int} {surf surf' : Surface} (h : (.ok (r, surf) : Except Trap (Int × Surface)) = .ok (0, surf')) :
    r = 0 :=
  (Prod.mk.inj (Except.ok.inj h)).1

/-- On r600 and r700 the mode in the flags is the mode of the layout. -/
theorem r6SurfaceInit_modes {surf surf' : Surface} (h : r6SurfaceInit A hw surf = .ok (0, surf')) :
    ∃ mode s₁, Remoded surf s₁ ∧ s₁.getMode = mode ∧ (hw.allow2d = false → mode ≠ RADEON_SURF_MODE_2D) ∧
      Modes none mode s₁ surf' := by
  unfold r6SurfaceInit at h
  dsimp only at h
  have hrm : Remoded surf (tilingMode surf).2 := tilingMode_remoded
  generalize hmode : (tilingMode surf).1 = mode at h
  generalize hs₁ : (tilingMode surf).2 = s₁ at h hrm
  have hget : s₁.getMode = mode := by rw [← hs₁, ← hmode]; exact depthMode_getMode
  by_cases hr : (force1d hw.allow2d mode s₁).1 = 0
  swap
  · rw [if_pos hr] at h
    exact absurd (ok_zero h) hr
  rw [if_neg (not_not.mpr hr)] at h
  split at h
  · exact absurd (ok_zero h) (by decide)
  split at h
  · exact absurd (ok_zero h) (by decide)
  have hrm' : Remoded surf (force1d hw.allow2d mode s₁).2.2 := hrm.trans force1d_remoded
  have hget' : (force1d hw.allow2d mode s₁).2.2.getMode = (force1d hw.allow2d mode s₁).2.1 := by
    rcases force1d_cases hr with ⟨-, -, -, heq⟩ | ⟨-, heq⟩
    · rw [heq]
      exact setMode_getMode (by decide)
    · rw [heq]
      exact hget
  have hno : hw.allow2d = false → (force1d hw.allow2d mode s₁).2.1 ≠ RADEON_SURF_MODE_2D := by
    intro hallow
    rcases force1d_cases hr with ⟨-, -, -, heq⟩ | ⟨hor, heq⟩
    · rw [heq]
      show RADEON_SURF_MODE_1D ≠ RADEON_SURF_MODE_2D
      decide
    · rw [heq]
      show mode ≠ RADEON_SURF_MODE_2D
      rcases hor with hyes | hle
      · rw [hallow] at hyes
        cases hyes
      · intro h2d
        rw [h2d] at hle
        exact absurd hle (by decide)
  refine ⟨_, _, hrm', hget', hno, ?_⟩
  rcases mode_cases h with ⟨hm, h⟩ | ⟨hm, h⟩ | ⟨hm, h⟩ | ⟨hm, h⟩ | h
  · rw [hm]
    exact .of_inMode (r6SurfaceInitLinear_inMode h).2 rfl
  · rw [hm]
    exact .of_inMode (r6SurfaceInitLinearAligned_inMode h).2 rfl
  · rw [hm]
    exact .of_inMode (r6SurfaceInit1d_inMode h).2 rfl
  · rw [hm]
    have htiled := (r6SurfaceInit2d_tiled h).levels
    exact ⟨htiled.1.params, htiled.2, nofun⟩
  · exact absurd (ok_zero h) (by decide)

/-- The mode in the flags is the mode of the layout, or the mode was forced in the flags only. -/
def ModeOutcome (allowed : Bool) (mode : Nat) (s : Surface) : Prop :=
  (s.getMode = mode ∧ (allowed = true ∨ mode ≤ RADEON_SURF_MODE_1D)) ∨
  (allowed = false ∧ RADEON_SURF_MODE_1D < mode ∧ ¬ 1 < s.nsamples ∧ s.getMode = RADEON_SURF_MODE_1D)

theorem Forced.outcome {allowed : Bool} {mode : Nat} {s s' : Surface} (h : Forced allowed mode s s')
    (hget : s.getMode = mode) : ModeOutcome allowed mode s' ∧ Remoded s s' := by
  rcases h with ⟨hallow, hmode, hns, rfl⟩ | ⟨hallow, rfl⟩
  · exact ⟨.inr ⟨hallow, hmode, hns, setMode_getMode (by decide)⟩, setMode_remoded⟩
  · exact ⟨.inl ⟨hget, hallow⟩, Remoded.refl⟩

theorem egStencilTree_ne {surf : Params} : egStencilTree surf ≠ .level := by
  unfold egStencilTree
  split <;> decide

theorem egSurfaceInit1dMiptrees_modes {s s' : Surface} (h : egSurfaceInit1dMiptrees A hw s = .ok (0, s')) :
    Modes (stencilTree .eg s.toParams) RADEON_SURF_MODE_1D s s' := by
  unfold egSurfaceInit1dMiptrees at h
  have hlevels := miptrees_levels (P := fun l => ∀ j, j ≤ s.lastLevel → Allowed RADEON_SURF_MODE_1D (l j).mode) h
    egStencilTree_ne (fun h => (egSurfaceInit1d_inMode h).2.levels)
    (fun hp h => by
      have hin := (egSurfaceInit1d_inMode h).2.levels
      rw [hp] at hin
      exact hin)
  exact .of_miptrees hlevels

theorem egSurfaceInit2dMiptrees_modes {s s' : Surface} (hx : 0 < s.npixX) (hy : 0 < s.npixY)
    (h : egSurfaceInit2dMiptrees A hw s = .ok (0, s')) :
    Modes (stencilTree .eg s.toParams) RADEON_SURF_MODE_2D s s' ∧
      FirstLevel (egSmall A hw s.toParams) s.lastLevel (s'.levels .level) ∧
      ∀ t, stencilTree .eg s.toParams = some t →
        FirstLevel (egSmall A hw s.toParams) s.lastLevel (s'.levels t) := by
  unfold egSurfaceInit2dMiptrees at h
  obtain ⟨hp, ⟨hmain, hfirst⟩, hstencil⟩ := miptrees_levels
    (P := fun l => (∀ j, j ≤ s.lastLevel → Allowed RADEON_SURF_MODE_2D (l j).mode) ∧
      FirstLevel (egSmall A hw s.toParams) s.lastLevel l)
    h egStencilTree_ne
    (fun h => by
      obtain ⟨htiled, hfirst⟩ := egSurfaceInit2d_tiled hx hy h
      exact ⟨htiled.levels.1, htiled.levels.2, hfirst⟩)
    (fun hp h => by
      obtain ⟨htiled, hfirst⟩ := egSurfaceInit2d_tiled (by rw [hp]; exact hx) (by rw [hp]; exact hy) h
      have hlevels := htiled.levels
      rw [hp] at hlevels hfirst
      exact ⟨hlevels.1, hlevels.2, hfirst⟩)
  refine ⟨.of_miptrees ⟨hp, hmain, fun h => (hstencil h).1⟩, hfirst, fun t ht => ?_⟩
  unfold stencilTree at ht
  dsimp only at ht
  split at ht
  · rename_i hds
    cases ht
    exact (hstencil hds).2
  · cases ht

/-- On evergreen the layout is in the mode from before the check. -/
theorem egSurfaceInit_modes {surf surf' : Surface} (hx : 0 < surf.npixX) (hy : 0 < surf.npixY)
    (h : egSurfaceInit A hw surf = .ok (0, surf')) :
    ∃ s₁, Remoded surf s₁ ∧ (tilingMode surf).1 ≤ RADEON_SURF_MODE_2D ∧ ModeOutcome hw.allow2d (tilingMode surf).1 s₁ ∧
      Modes (stencilTree .eg s₁.toParams) (tilingMode surf).1 s₁ surf' ∧
      ((tilingMode surf).1 = RADEON_SURF_MODE_2D →
        FirstLevel (egSmall A hw s₁.toParams) s₁.lastLevel (surf'.levels .level) ∧
        ∀ t, stencilTree .eg s₁.toParams = some t →
          FirstLevel (egSmall A hw s₁.toParams) s₁.lastLevel (surf'.levels t)) := by
  unfold egSurfaceInit at h
  dsimp only at h
  have hlinear : (tilingMode surf).1 ≠ RADEON_SURF_MODE_1D → (tilingMode surf).1 ≠ RADEON_SURF_MODE_2D →
      surf.has RADEON_SURF_Z_OR_SBUFFER = false := tilingMode_linear
  have hrm : Remoded surf (tilingMode surf).2 := tilingMode_remoded
  have hget : (tilingMode surf).2.getMode = (tilingMode surf).1 := depthMode_getMode
  generalize (tilingMode surf).1 = mode at h hget hlinear ⊢
  generalize (tilingMode surf).2 = s₀ at h hget hrm
  by_cases hr : (egSurfaceSanity A hw s₀ mode).1 = 0
  swap
  · rw [if_pos hr] at h
    exact absurd (ok_zero h) hr
  rw [if_neg (not_not.mpr hr)] at h
  obtain ⟨hout, hrm₁⟩ := (egSurfaceSanity_ok hr).2.1.outcome hget
  generalize (egSurfaceSanity A hw s₀ mode).2 = s₁ at h hout hrm₁
  have hrm' := hrm.trans hrm₁
  refine ⟨s₁, hrm', ?_⟩
  have hx₁ : 0 < s₁.npixX := by rw [hrm'.eq]; exact hx
  have hy₁ : 0 < s₁.npixY := by rw [hrm'.eq]; exact hy
  have hnone (h₁ : mode ≠ RADEON_SURF_MODE_1D) (h₂ : mode ≠ RADEON_SURF_MODE_2D) :
      stencilTree .eg s₁.toParams = none := by
    rw [stencilTree_remoded hrm']
    exact stencilTree_none (hlinear h₁ h₂)
  have hle : mode ≤ RADEON_SURF_MODE_2D := by
    rcases mode_cases h with ⟨hm, -⟩ | ⟨hm, -⟩ | ⟨hm, -⟩ | ⟨hm, -⟩ | h
    · exact hm.le.trans (by decide)
    · exact hm.le.trans (by decide)
    · exact hm.le.trans (by decide)
    · exact hm.le
    · exact absurd (ok_zero h) (by decide)
  refine ⟨hle, hout, ?_⟩
  rcases mode_cases h with ⟨hm, h⟩ | ⟨hm, h⟩ | ⟨hm, h⟩ | ⟨hm, h⟩ | h
  · rw [hm] at hnone ⊢
    have hin := (r6SurfaceInitLinear_inMode h).2.levels
    exact ⟨⟨hin.1.params, hin.2, fun t ht => by rw [hnone (by decide) (by decide)] at ht; cases ht⟩,
      fun h => absurd h (by decide)⟩
  · rw [hm] at hnone ⊢
    have hin := (r6SurfaceInitLinearAligned_inMode h).2.levels
    exact ⟨⟨hin.1.params, hin.2, fun t ht => by rw [hnone (by decide) (by decide)] at ht; cases ht⟩,
      fun h => absurd h (by decide)⟩
  · rw [hm]
    have hmodes := egSurfaceInit1dMiptrees_modes h
    exact ⟨⟨hmodes.params, hmodes.main, hmodes.stencil⟩, fun h => absurd h (by decide)⟩
  · rw [hm]
    obtain ⟨hmodes, hfirst, hstencil⟩ := egSurfaceInit2dMiptrees_modes (by exact hx₁) (by exact hy₁) h
    exact ⟨⟨hmodes.params, hmodes.main, hmodes.stencil⟩, fun _ => ⟨hfirst, hstencil⟩⟩
  · exact absurd (ok_zero h) (by decide)

theorem siSurfaceInit1dMiptrees_modes {tileMode stencilTileMode : Nat} {s s' : Surface}
    (h : siSurfaceInit1dMiptrees A hw tileMode stencilTileMode s = .ok (0, s')) :
    Modes (stencilTree .si s.toParams) RADEON_SURF_MODE_1D s s' := by
  unfold siSurfaceInit1dMiptrees at h
  have hlevels := miptrees_levels (P := fun l => ∀ j, j ≤ s.lastLevel → Allowed RADEON_SURF_MODE_1D (l j).mode) h
    nofun (fun h => (siSurfaceInit1d_inMode h).2.levels)
    (fun hp h => by
      have hin := (siSurfaceInit1d_inMode h).2.levels
      rw [hp] at hin
      exact hin)
  exact .of_miptrees hlevels

/-- Two trees in 2D tiles, where a tile mode without a fallback keeps the first level in 2D tiles. -/
theorem islandsMiptrees2d_modes {s s' : Surface} {none1d : Prop} {build₁ : Surface → Except Trap (Int × Surface)}
    {build₂ : Surface → Nat → Except Trap (Int × Surface)}
    (h : miptrees (s.has RADEON_SURF_SBUFFER) .stencilLevel build₁ build₂ s = .ok (0, s'))
    (h₁ : ∀ {s₁}, build₁ s = .ok (0, s₁) → Tiled .level s s₁ ∧
      (none1d → (s₁.levels .level 0).mode = RADEON_SURF_MODE_2D))
    (h₂ : ∀ {s₁ s₂ o}, build₂ s₁ o = .ok (0, s₂) → Tiled .stencilLevel s₁ s₂) :
    Modes (stencilTree .si s.toParams) RADEON_SURF_MODE_2D s s' ∧
      (none1d → (s'.levels .level 0).mode = RADEON_SURF_MODE_2D) := by
  have hlevels := miptrees_levels (P := fun l => ∀ j, j ≤ s.lastLevel → Allowed RADEON_SURF_MODE_2D (l j).mode) h
    nofun (fun h => (h₁ h).1.levels)
    (fun hp h => by
      have htiled := (h₂ h).levels
      rw [hp] at htiled
      exact htiled)
  refine ⟨.of_miptrees hlevels, fun hnone => ?_⟩
  obtain ⟨s₁, hb₁, hrest⟩ := miptrees_ok h
  have hlevel := (h₁ hb₁).2 hnone
  rcases hrest with ⟨-, rfl⟩ | ⟨-, s₂, hb₂, rfl⟩
  · exact hlevel
  · show (s₂.levels .level 0).mode = RADEON_SURF_MODE_2D
    rw [(h₂ hb₂).frame.levels .level 0 (.inl nofun)]
    exact hlevel

theorem siSurfaceInit2dMiptrees_modes {tileMode stencilTileMode : Nat} {s s' : Surface}
    (h : siSurfaceInit2dMiptrees A hw tileMode stencilTileMode s = .ok (0, s')) :
    Modes (stencilTree .si s.toParams) RADEON_SURF_MODE_2D s s' ∧
      (siTo1d tileMode = none → (s'.levels .level 0).mode = RADEON_SURF_MODE_2D) := by
  unfold siSurfaceInit2dMiptrees at h
  exact islandsMiptrees2d_modes h siSurfaceInit2d_tiled fun h => (siSurfaceInit2d_tiled h).1

theorem cikSurfaceInit2dMiptrees_modes {tileMode stencilTileMode : Nat} {s s' : Surface}
    (h : cikSurfaceInit2dMiptrees A hw tileMode stencilTileMode s = .ok (0, s')) :
    Modes (stencilTree .si s.toParams) RADEON_SURF_MODE_2D s s' ∧
      (cikTo1d tileMode = none → (s'.levels .level 0).mode = RADEON_SURF_MODE_2D) := by
  unfold cikSurfaceInit2dMiptrees at h
  exact islandsMiptrees2d_modes h cikSurfaceInit2d_tiled fun h => (cikSurfaceInit2d_tiled h).1

/-- The tile modes that go with 1D tiles have no fallback. -/
theorem tileModes1d_no_fallback {depthStencil : Nat} {to1d : Nat → Option Nat} {surf : Surface}
    (hds : to1d depthStencil = none) (hscanout : to1d SI_TILE_MODE_COLOR_1D_SCANOUT = none)
    (hcolor : to1d SI_TILE_MODE_COLOR_1D = none) : to1d (tileModes1d depthStencil surf).2.2.1 = none := by
  unfold tileModes1d
  dsimp only
  split
  · exact hds
  · split
    · exact hscanout
    · exact hcolor

/-- On SI and CIK the layout is in the mode from before the check, and where that was forced the tile mode has no
    fallback. -/
theorem islandsInit_modes {depthStencil : Nat} {modes2d : Surface → Checked} (to1d : Nat → Option Nat)
    {miptrees2d : Nat → Nat → Surface → Except Trap (Int × Surface)} {surf surf' : Surface}
    (h : islandsInit A hw (islandsSanity hw depthStencil modes2d) miptrees2d surf = .ok (0, surf'))
    (hretiled : ∀ s, Retiled s (modes2d s).2.1)
    (hds : to1d depthStencil = none) (hscanout : to1d SI_TILE_MODE_COLOR_1D_SCANOUT = none)
    (hcolor : to1d SI_TILE_MODE_COLOR_1D = none)
    (hmip : ∀ {tm stm s s'}, miptrees2d tm stm s = .ok (0, s') →
      Modes (stencilTree .si s.toParams) RADEON_SURF_MODE_2D s s' ∧
        (to1d tm = none → (s'.levels .level 0).mode = RADEON_SURF_MODE_2D)) :
    ∃ s₀ s₁, Remoded surf s₀ ∧ Retiled s₀ s₁ ∧ (tilingMode surf).1 ≤ RADEON_SURF_MODE_2D ∧
      ModeOutcome (hw.allow2d && surf.has RADEON_SURF_HAS_TILE_MODE_INDEX) (tilingMode surf).1 s₁ ∧
      Modes (stencilTree .si s₁.toParams) (tilingMode surf).1 s₁ surf' ∧
      ((hw.allow2d && surf.has RADEON_SURF_HAS_TILE_MODE_INDEX) = false →
        (tilingMode surf).1 = RADEON_SURF_MODE_2D → (surf'.levels .level 0).mode = RADEON_SURF_MODE_2D) := by
  unfold islandsInit at h
  dsimp only at h
  have hlinear : (tilingMode surf).1 ≠ RADEON_SURF_MODE_1D → (tilingMode surf).1 ≠ RADEON_SURF_MODE_2D →
      surf.has RADEON_SURF_Z_OR_SBUFFER = false := tilingMode_linear
  have hrm : Remoded surf (tilingMode surf).2 := tilingMode_remoded
  have hget : (tilingMode surf).2.getMode = (tilingMode surf).1 := depthMode_getMode
  generalize (tilingMode surf).1 = mode at h hget hlinear ⊢
  generalize (tilingMode surf).2 = s at h hget hrm
  rw [← hrm.has (show RADEON_SURF_HAS_TILE_MODE_INDEX &&& 0xFF00#32 = 0 by decide)]
  by_cases hr : (islandsSanity hw depthStencil modes2d s mode).1 = 0
  swap
  · rw [if_pos hr] at h
    exact absurd (ok_zero h) hr
  rw [if_neg (not_not.mpr hr)] at h
  obtain ⟨-, hcases⟩ := islandsSanity_ok hr
  -- the surface after the check, and what is known of its mode and tile mode
  obtain ⟨s₀, hrm₀, hret, hout, hforced⟩ : ∃ s₀, Remoded s s₀ ∧
      Retiled s₀ (islandsSanity hw depthStencil modes2d s mode).2.1 ∧
      ModeOutcome (hw.allow2d && s.has RADEON_SURF_HAS_TILE_MODE_INDEX) mode
        (islandsSanity hw depthStencil modes2d s mode).2.1 ∧
      ((hw.allow2d && s.has RADEON_SURF_HAS_TILE_MODE_INDEX) = false → mode = RADEON_SURF_MODE_2D →
        to1d (islandsSanity hw depthStencil modes2d s mode).2.2.1 = none) := by
    rcases hcases with ⟨hno, hlt, hns, heq⟩ | ⟨hor, -, heq⟩
    · rw [heq]
      have hret : Retiled (s.setMode RADEON_SURF_MODE_1D) (defaultTiles (s.setMode RADEON_SURF_MODE_1D)) :=
        defaultTiles_retiled
      refine ⟨s.setMode RADEON_SURF_MODE_1D, setMode_remoded, hret, .inr ⟨hno, hlt, ?_, ?_⟩, fun _ _ => ?_⟩
      · show ¬ 1 < (defaultTiles (s.setMode RADEON_SURF_MODE_1D)).nsamples
        rw [hret.nsamples]
        exact hns
      · show (defaultTiles (s.setMode RADEON_SURF_MODE_1D)).getMode = RADEON_SURF_MODE_1D
        unfold Params.getMode
        rw [hret.flags]
        exact setMode_getMode (by decide)
      · exact tileModes1d_no_fallback hds hscanout hcolor
    · rw [heq]
      have hret : Retiled s (tileModes depthStencil modes2d mode (defaultTiles s)).2.1 :=
        (defaultTiles_retiled).trans (tileModes_retiled (hretiled _))
      refine ⟨s, Remoded.refl, hret, .inl ⟨?_, hor⟩, fun hno h2d => ?_⟩
      · unfold Params.getMode
        rw [hret.flags]
        exact hget
      · rcases hor with hyes | hle
        · rw [hno] at hyes
          cases hyes
        · rw [h2d] at hle
          exact absurd hle (by decide)
  generalize (islandsSanity hw depthStencil modes2d s mode).2.2.1 = tileMode at h hforced
  generalize (islandsSanity hw depthStencil modes2d s mode).2.2.2 = stencilTileMode at h
  generalize (islandsSanity hw depthStencil modes2d s mode).2.1 = s₁ at h hret hout
  refine ⟨s₀, s₁, hrm.trans hrm₀, hret, ?_⟩
  have hnone (h₁ : mode ≠ RADEON_SURF_MODE_1D) (h₂ : mode ≠ RADEON_SURF_MODE_2D) :
      stencilTree .si s₁.toParams = none := by
    refine stencilTree_none ?_
    unfold Params.has
    rw [hret.flags]
    exact ((hrm.trans hrm₀).has (by decide)).trans (hlinear h₁ h₂)
  have hle : mode ≤ RADEON_SURF_MODE_2D := by
    rcases mode_cases h with ⟨hm, -⟩ | ⟨hm, -⟩ | ⟨hm, -⟩ | ⟨hm, -⟩ | h
    · exact hm.le.trans (by decide)
    · exact hm.le.trans (by decide)
    · exact hm.le.trans (by decide)
    · exact hm.le
    · exact absurd (ok_zero h) (by decide)
  refine ⟨hle, hout, ?_⟩
  rcases mode_cases h with ⟨hm, h⟩ | ⟨hm, h⟩ | ⟨hm, h⟩ | ⟨hm, h⟩ | h
  · rw [hm] at hnone ⊢
    have hin := (r6SurfaceInitLinear_inMode h).2.levels
    exact ⟨⟨hin.1.params, hin.2, fun t ht => by rw [hnone (by decide) (by decide)] at ht; cases ht⟩,
      fun _ h => absurd h (by decide)⟩
  · rw [hm] at hnone ⊢
    have hin := (siSurfaceInitLinearAligned_inMode h).2.levels
    exact ⟨⟨hin.1.params, hin.2, fun t ht => by rw [hnone (by decide) (by decide)] at ht; cases ht⟩,
      fun _ h => absurd h (by decide)⟩
  · rw [hm]
    have hmodes := siSurfaceInit1dMiptrees_modes h
    exact ⟨⟨hmodes.params, hmodes.main, hmodes.stencil⟩, fun _ h => absurd h (by decide)⟩
  · rw [hm] at hforced ⊢
    obtain ⟨hmodes, hlevel⟩ := hmip h
    exact ⟨⟨hmodes.params, hmodes.main, hmodes.stencil⟩, fun hno _ => hlevel (hforced hno rfl)⟩
  · exact absurd (ok_zero h) (by decide)

/-! ## Tiling is consistent unless the mode is forced -/

/-- 2D tiles can be used. -/
def allows2d (man : SurfaceManager) (surf : Params) : Bool :=
  match man.family.engine with
  | .r6 | .eg => man.hwInfo.allow2d
  | .si | .cik => man.hwInfo.allow2d && surf.has RADEON_SURF_HAS_TILE_MODE_INDEX

/-- No level is in 2D tiles where they cannot be used, and the first level is in the mode of the flags or its
    fallback. -/
structure TilingConsistent (man : SurfaceManager) (surf surf' : Surface) : Prop where
  no2d : allows2d man surf.toParams = false → ∀ j, j ≤ surf'.lastLevel →
    (surf'.levels .level j).mode ≠ RADEON_SURF_MODE_2D ∧
      ∀ t, stencilTree man.family.engine surf.toParams = some t → (surf'.levels t j).mode ≠ RADEON_SURF_MODE_2D
  first : Allowed surf'.getMode (surf'.levels .level 0).mode

/-- 2D tiles are asked for on a later family and cannot be used; on evergreen, the first level fills a macro tile. -/
def ForcedIn2d (man : SurfaceManager) (surf : Params) : Prop :=
  man.family.engine ≠ .r6 ∧ allows2d man surf = false ∧ surf.getMode = RADEON_SURF_MODE_2D ∧
    (man.family.engine = .eg → ¬ egSmall .machine man.hwInfo surf)

theorem Modes.consistent {man : SurfaceManager} {mode : Nat} {surf s₁ surf' : Surface}
    (h : Modes (stencilTree man.family.engine surf.toParams) mode s₁ surf') (hget : s₁.getMode = mode)
    (hno : allows2d man surf.toParams = false → mode ≠ RADEON_SURF_MODE_2D) : TilingConsistent man surf surf' where
  no2d hallow j hj := by
    rw [h.params] at hj
    have hne {m : Nat} (hm : Allowed mode m) : m ≠ RADEON_SURF_MODE_2D := by
      rcases hm with rfl | ⟨h2d, -⟩
      · exact hno hallow
      · exact absurd h2d (hno hallow)
    exact ⟨hne (h.main j hj), fun t ht => hne (h.stencil t ht j hj)⟩
  first := by
    rw [h.params, hget]
    exact h.main 0 (Nat.zero_le _)

/-- A first level in 2D tiles does not go with flags that say 1D. -/
theorem not_consistent {man : SurfaceManager} {surf surf' : Surface} (hget : surf'.getMode = RADEON_SURF_MODE_1D)
    (hlevel : (surf'.levels .level 0).mode = RADEON_SURF_MODE_2D) : ¬ TilingConsistent man surf surf' := by
  intro h
  have hfirst := h.first
  rw [hget, hlevel] at hfirst
  rcases hfirst with h | ⟨h, -⟩ <;> exact absurd h (by decide)

theorem egSmall_remoded {s s' : Surface} (h : Remoded s s') : egSmall A hw s'.toParams ↔ egSmall A hw s.toParams := by
  unfold egSmall
  rw [h.has (show RADEON_SURF_FMASK &&& 0xFF00#32 = 0 by decide), h.eq]

theorem FirstLevel.all_1d {small : Prop} {last : Nat} {levels : Nat → Level} (h : FirstLevel small last levels)
    (hs : small) : ∀ j, j ≤ last → (levels j).mode = RADEON_SURF_MODE_1D := by
  rcases h with ⟨-, h⟩ | ⟨hn, -⟩
  · exact h
  · exact absurd hs hn

/-- The mode of the layout is the one in the flags, or 2D was asked for with one sample and forced. -/
theorem ModeOutcome.cases {allowed : Bool} {surf s : Surface}
    (h : ModeOutcome allowed (tilingMode surf).1 s) (hns : s.nsamples = surf.nsamples)
    (hle : (tilingMode surf).1 ≤ RADEON_SURF_MODE_2D) :
    (s.getMode = (tilingMode surf).1 ∧ (allowed = false → (tilingMode surf).1 ≠ RADEON_SURF_MODE_2D) ∧
        (allowed = false → surf.getMode ≠ RADEON_SURF_MODE_2D)) ∨
      (allowed = false ∧ (tilingMode surf).1 = RADEON_SURF_MODE_2D ∧ surf.getMode = RADEON_SURF_MODE_2D ∧
        s.getMode = RADEON_SURF_MODE_1D) := by
  rcases h with ⟨hget, hor⟩ | ⟨hno, hlt, hone, hget⟩
  · have hne : allowed = false → (tilingMode surf).1 ≠ RADEON_SURF_MODE_2D := by
      rintro hno h2d
      rcases hor with hyes | hle'
      · rw [hno] at hyes
        cases hyes
      · rw [h2d] at hle'
        exact absurd hle' (by decide)
    refine .inl ⟨hget, hne, fun hno h2d => hne hno ?_⟩
    -- the caller's mode is 2D only if the mode that is asked for is
    by_cases hsamples : 1 < surf.nsamples
    · unfold tilingMode
      rw [depthMode_eq_2d]
      unfold msaaMode
      rw [if_pos hsamples]
      exact setMode_getMode (by decide)
    · exact (tilingMode_eq_2d hsamples).mpr h2d
  · have h2d : (tilingMode surf).1 = RADEON_SURF_MODE_2D := Nat.le_antisymm hle hlt
    rw [hns] at hone
    exact .inr ⟨hno, h2d, (tilingMode_eq_2d hone).mp h2d, hget⟩

theorem r6_consistent {man : SurfaceManager} {surf surf' : Surface} (hengine : man.family.engine = .r6)
    (h : r6SurfaceInit .machine man.hwInfo surf = .ok (0, surf')) : TilingConsistent man surf surf' := by
  obtain ⟨mode, s₁, -, hget, hno, hmodes⟩ := r6SurfaceInit_modes h
  have hmodes' : Modes (stencilTree man.family.engine surf.toParams) mode s₁ surf' := by
    rw [hengine]
    exact hmodes
  refine hmodes'.consistent hget ?_
  unfold allows2d
  rw [hengine]
  exact hno

theorem eg_consistent {man : SurfaceManager} {surf surf' : Surface} (hengine : man.family.engine = .eg)
    (hx : 0 < surf.npixX) (hy : 0 < surf.npixY) (h : egSurfaceInit .machine man.hwInfo surf = .ok (0, surf')) :
    TilingConsistent man surf surf' ↔ ¬ ForcedIn2d man surf.toParams := by
  obtain ⟨s₁, hrm, hle, hout, hmodes, hfirst⟩ := egSurfaceInit_modes hx hy h
  rw [stencilTree_remoded hrm] at hmodes hfirst
  rw [egSmall_remoded hrm] at hfirst
  have hallows : allows2d man surf.toParams = man.hwInfo.allow2d := by
    unfold allows2d
    rw [hengine]
  rw [← hengine] at hmodes hfirst
  rcases hout.cases hrm.nsamples hle with ⟨hget, hno, hno'⟩ | ⟨hno, h2d, hsurf, hget⟩
  · refine iff_of_true (hmodes.consistent hget (by rw [hallows]; exact hno)) ?_
    rintro ⟨-, hforced, hmode, -⟩
    rw [hallows] at hforced
    exact hno' hforced hmode
  · obtain ⟨hmain, hstencil⟩ := hfirst h2d
    by_cases hsmall : egSmall .machine man.hwInfo surf.toParams
    · refine iff_of_true ?_ fun hforced => hforced.2.2.2 hengine hsmall
      have hmodes' : Modes (stencilTree man.family.engine surf.toParams) RADEON_SURF_MODE_1D s₁ surf' :=
        ⟨hmodes.params, fun j hj => .inl (hmain.all_1d hsmall j hj),
          fun t ht j hj => .inl ((hstencil t ht).all_1d hsmall j hj)⟩
      exact hmodes'.consistent hget fun _ => by decide
    · refine iff_of_false ?_ (not_not.mpr ⟨by rw [hengine]; decide, hallows.trans hno, hsurf, fun _ => hsmall⟩)
      rcases hmain with ⟨hyes, -⟩ | ⟨-, hlevel⟩
      · exact absurd hyes hsmall
      · exact not_consistent (by rw [hmodes.params]; exact hget) hlevel

/-- SI and CIK, from what `islandsInit_modes` says of them. -/
theorem islands_consistent {man : SurfaceManager} {surf surf' s₀ s₁ : Surface}
    (hengine : man.family.engine = .si ∨ man.family.engine = .cik) (hrm : Remoded surf s₀) (hret : Retiled s₀ s₁)
    (hle : (tilingMode surf).1 ≤ RADEON_SURF_MODE_2D)
    (hout : ModeOutcome (man.hwInfo.allow2d && surf.has RADEON_SURF_HAS_TILE_MODE_INDEX) (tilingMode surf).1 s₁)
    (hmodes : Modes (stencilTree .si s₁.toParams) (tilingMode surf).1 s₁ surf')
    (hlevel : (man.hwInfo.allow2d && surf.has RADEON_SURF_HAS_TILE_MODE_INDEX) = false →
      (tilingMode surf).1 = RADEON_SURF_MODE_2D → (surf'.levels .level 0).mode = RADEON_SURF_MODE_2D) :
    TilingConsistent man surf surf' ↔ ¬ ForcedIn2d man surf.toParams := by
  have hallows : allows2d man surf.toParams = (man.hwInfo.allow2d && surf.has RADEON_SURF_HAS_TILE_MODE_INDEX) := by
    unfold allows2d
    rcases hengine with h | h <;> rw [h]
  have htree : stencilTree .si s₁.toParams = stencilTree man.family.engine surf.toParams := by
    have hflags : stencilTree .si s₁.toParams = stencilTree .si s₀.toParams := by
      unfold stencilTree Params.has
      rw [hret.flags]
    rw [hflags, stencilTree_remoded hrm]
    rcases hengine with h | h
    · rw [h]
    · rw [h]
      rfl
  have hne : man.family.engine ≠ .r6 ∧ man.family.engine ≠ .eg := by
    rcases hengine with h | h
    · rw [h]
      decide
    · rw [h]
      decide
  rw [htree] at hmodes
  rcases hout.cases (hret.nsamples.trans hrm.nsamples) hle with ⟨hget, hno, hno'⟩ | ⟨hno, h2d, hsurf, hget⟩
  · refine iff_of_true (hmodes.consistent hget (by rw [hallows]; exact hno)) ?_
    rintro ⟨-, hforced, hmode, -⟩
    rw [hallows] at hforced
    exact hno' hforced hmode
  · refine iff_of_false ?_ (not_not.mpr ⟨hne.1, hallows.trans hno, hsurf, fun h => absurd h hne.2⟩)
    exact not_consistent (by rw [hmodes.params]; exact hget) (hlevel hno h2d)

theorem si_consistent {man : SurfaceManager} {surf surf' : Surface} (hengine : man.family.engine = .si)
    (h : siSurfaceInit .machine man.hwInfo surf = .ok (0, surf')) :
    TilingConsistent man surf surf' ↔ ¬ ForcedIn2d man surf.toParams := by
  unfold siSurfaceInit siSurfaceSanity at h
  obtain ⟨s₀, s₁, hrm, hret, hle, hout, hmodes, hlevel⟩ := islandsInit_modes siTo1d h
    (fun _ => siTileModes2d_retiled) (by decide) (by decide) (by decide) siSurfaceInit2dMiptrees_modes
  exact islands_consistent (.inl hengine) hrm hret hle hout hmodes hlevel

theorem cik_consistent {man : SurfaceManager} {surf surf' : Surface} (hengine : man.family.engine = .cik)
    (h : cikSurfaceInit .machine man.hwInfo surf = .ok (0, surf')) :
    TilingConsistent man surf surf' ↔ ¬ ForcedIn2d man surf.toParams := by
  unfold cikSurfaceInit cikSurfaceSanity at h
  obtain ⟨s₀, s₁, hrm, hret, hle, hout, hmodes, hlevel⟩ := islandsInit_modes cikTo1d h
    (fun _ => cikTileModes2d_retiled) (by decide) (by decide) (by decide) cikSurfaceInit2dMiptrees_modes
  exact islands_consistent (.inr hengine) hrm hret hle hout hmodes hlevel

/-- Whenever a surface is laid out, its levels go with its flags and with what the kernel can do, unless 2D tiles are
    asked for on a later family that cannot use them. -/
theorem tiling_consistent {man : SurfaceManager} {surf surf' : Surface}
    (h : radeonSurfaceInit .machine man surf = .ok (0, surf')) :
    TilingConsistent man surf surf' ↔ ¬ ForcedIn2d man surf.toParams := by
  obtain ⟨s₁, hs₁, h⟩ := radeonSurfaceInit_ok h
  obtain ⟨hchecked, -, n, arraySize, -, -, rfl⟩ := radeonSurfaceSanity_ok hs₁
  -- the size of the array is in neither side
  suffices hiff : TilingConsistent man { surf with arraySize := arraySize } surf' ↔
      ¬ ForcedIn2d man { surf.toParams with arraySize := arraySize } from
    ⟨fun h => hiff.mp ⟨h.no2d, h.first⟩, fun h => ⟨(hiff.mpr h).no2d, (hiff.mpr h).first⟩⟩
  unfold surfaceInit at h
  cases hengine : man.family.engine with
  | r6 =>
      rw [hengine] at h
      exact iff_of_true (r6_consistent hengine h) fun hforced => hforced.1 hengine
  | eg =>
      rw [hengine] at h
      exact eg_consistent hengine hchecked.npixX hchecked.npixY h
  | si =>
      rw [hengine] at h
      exact si_consistent hengine h
  | cik =>
      rw [hengine] at h
      exact cik_consistent hengine h

/-- What a laid out surface says of its modes: the flags, and the first level. -/
def shownModes : Except Trap (Int × Surface) → Option (Int × Nat × Nat)
  | .ok (r, surf) => some (r, surf.getMode, (surf.levels .level 0).mode)
  | .error _ => none

theorem shownModes_ok {x : Except Trap (Int × Surface)} {r : Int} {m₁ m₂ : Nat} (h : shownModes x = some (r, m₁, m₂)) :
    ∃ surf, x = .ok (r, surf) ∧ surf.getMode = m₁ ∧ (surf.levels .level 0).mode = m₂ := by
  cases x with
  | error e => cases h
  | ok p =>
      obtain ⟨r', surf⟩ := p
      cases h
      exact ⟨surf, rfl, rfl, rfl⟩

/-- A kernel before 2D tiles, and a card of the evergreen family. -/
def oldEvergreen : Kernel :=
  { family := some .cedar, tilingConfig := some 0x1112, versionMinor := some 10, tileModes := none,
    macrotileModes := none }

/-- 300 by 300 pixels of 4 bytes in 2D tiles: the flags say 1D afterwards, and the level is in 2D tiles. -/
theorem tiling_consistent_evergreen : ∃ man surf', radeonSurfaceManagerNew oldEvergreen = some man ∧
    radeonSurfaceInit .machine man (Surface.plain 300 300 4 0x301) = .ok (0, surf') ∧
    ¬ TilingConsistent man (Surface.plain 300 300 4 0x301) surf' := by
  obtain ⟨man, hman⟩ : ∃ man, radeonSurfaceManagerNew oldEvergreen = some man := ⟨_, rfl⟩
  have hshown : (radeonSurfaceManagerNew oldEvergreen).map
      (fun man => shownModes (radeonSurfaceInit .machine man (Surface.plain 300 300 4 0x301)))
        = some (some (0, RADEON_SURF_MODE_1D, RADEON_SURF_MODE_2D)) := by
    decide +kernel
  rw [hman] at hshown
  obtain ⟨surf', hinit, hget, hlevel⟩ := shownModes_ok (Option.some.inj hshown)
  exact ⟨man, surf', hman, hinit, not_consistent hget hlevel⟩

/-- On r600 the same surface is in 1D tiles. -/
theorem tiling_consistent_r600 : ∃ man surf',
    radeonSurfaceManagerNew { oldEvergreen with family := some .r600 } = some man ∧
    radeonSurfaceInit .machine man (Surface.plain 300 300 4 0x301) = .ok (0, surf') ∧
    TilingConsistent man (Surface.plain 300 300 4 0x301) surf' := by
  obtain ⟨man, hman⟩ : ∃ man, radeonSurfaceManagerNew { oldEvergreen with family := some .r600 } = some man := ⟨_, rfl⟩
  have hshown : (radeonSurfaceManagerNew { oldEvergreen with family := some .r600 }).map
      (fun man => (man.family.engine, shownModes (radeonSurfaceInit .machine man (Surface.plain 300 300 4 0x301))))
        = some (.r6, some (0, RADEON_SURF_MODE_1D, RADEON_SURF_MODE_1D)) := by
    decide +kernel
  rw [hman] at hshown
  obtain ⟨hengine, hshown⟩ := Prod.mk.inj (Option.some.inj hshown)
  obtain ⟨surf', hinit, -, -⟩ := shownModes_ok hshown
  exact ⟨man, surf', hman, hinit, (tiling_consistent hinit).mpr fun hforced => hforced.1 hengine⟩

end LibDrm.Mip
