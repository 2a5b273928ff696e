/-
# `LibDrm.Mip.Widths` — the pixels of a level

`mip_minify` halves the size of the surface and rounds it up to a power of two.  For the
sizes that the checks let through nothing of it wraps, and no level has more pixels than
the surface.
-/
import LibDrm.Mip.Checks
import LibDrm.Mip.Trees

namespace LibDrm.Mip

open Width

/-- The pixels of a level in one direction. -/
def mipPix (size level : Nat) : Nat :=
  if 0 < level then pow2Above (max 1 (size / 2 ^ level)) else max 1 (size / 2 ^ level)

theorem nextPowerOfTwo_machine {x : Nat} (hx : x ≤ 2 ^ 31) : nextPowerOfTwo .machine x = .ok (pow2Above x) := by
  unfold nextPowerOfTwo pow2Above
  by_cases hone : x ≤ 1
  · rw [if_pos hone, if_pos hone]
  · have hlog := log2_lt_of_le (by omega) hx
    rw [if_neg hone, if_neg hone]
    unfold shift
    rw [machine_shiftable (by omega)]
    rfl

theorem mipPix_le {size level : Nat} (hpos : 0 < size) : mipPix size level ≤ size := by
  have hdiv : size / 2 ^ level ≤ size := Nat.div_le_self _ _
  unfold mipPix
  split
  · rename_i hlevel
    by_cases hone : size / 2 ^ level ≤ 1
    · have hmax : max 1 (size / 2 ^ level) = 1 := by omega
      rw [hmax]
      exact hpos
    · have hmax : max 1 (size / 2 ^ level) = size / 2 ^ level := by omega
      have hlt := pow2Above_lt (x := size / 2 ^ level) (by omega)
      have htwo : 2 * (size / 2 ^ level) ≤ size := by
        have hpow : 2 ^ 1 ≤ 2 ^ level := Nat.pow_le_pow_right (by decide) hlevel
        calc 2 * (size / 2 ^ level) ≤ 2 ^ level * (size / 2 ^ level) := Nat.mul_le_mul_right _ hpow
          _ ≤ size := Nat.mul_div_le _ _
      rw [hmax]
      omega
  · omega

theorem mipMinify_machine {size level : Nat} (hsize : size ≤ 2 ^ 31) (hlevel : level < 32) :
    mipMinify .machine size level = .ok (mipPix size level) := by
  have hdiv : size / 2 ^ level ≤ size := Nat.div_le_self _ _
  unfold mipMinify mipPix shift
  rw [machine_shiftable hlevel]
  show (if 0 < level then nextPowerOfTwo .machine (max 1 (size / 2 ^ level)) else .ok (max 1 (size / 2 ^ level))) = _
  split
  · exact nextPowerOfTwo_machine (by omega)
  · rfl

/-- The pixels that the blocks of a level cover. -/
def covered (surf : Params) (level npix : Nat) : Nat := if level = 0 ∧ 0 < surf.lastLevel then pow2Above npix else npix

theorem one_ne_two : RADEON_SURF_MODE_1D ≠ RADEON_SURF_MODE_2D := by decide

end LibDrm.Mip
