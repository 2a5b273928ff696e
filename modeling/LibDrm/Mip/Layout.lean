/-
# `LibDrm.Mip.Layout` — mipmap trees of the r600 and evergreen families

A surface is laid out level by level.  For each level the number of pixels and of blocks
is worked out, the blocks are rounded up to the alignment of the tiling mode, and the
level is put at the next free offset:

    surf_minify       linear and 1D tiles on r600 and evergreen, 2D tiles on r600
    eg_surf_minify    2D tiles on evergreen
    si_surf_minify, si_surf_minify_2d   the same on the later families

A level of a 2D tree that is smaller than a macro tile ends the tree: the rest is laid
out in 1D tiles, from the offset that was reached.

Every function takes the arithmetic that it runs in.  `Width.machine` is the code as it
runs.
-/
import LibDrm.Lib.Width
import LibDrm.Lib.Returns
import Mathlib.Data.BitVec

namespace LibDrm.Mip

/-- What stops the program. -/
inductive Trap
  | divisionByZero
  /-- A shift by the width of the value or more. -/
  | shiftTooFar
  deriving DecidableEq, Repr

def EFAULT : Int := 14
def EINVAL : Int := 22

def RADEON_SURF_TYPE_1D : Nat := 0
def RADEON_SURF_TYPE_2D : Nat := 1
def RADEON_SURF_TYPE_3D : Nat := 2
def RADEON_SURF_TYPE_CUBEMAP : Nat := 3
def RADEON_SURF_TYPE_1D_ARRAY : Nat := 4
def RADEON_SURF_TYPE_2D_ARRAY : Nat := 5

def RADEON_SURF_MODE_LINEAR : Nat := 0
def RADEON_SURF_MODE_LINEAR_ALIGNED : Nat := 1
def RADEON_SURF_MODE_1D : Nat := 2
def RADEON_SURF_MODE_2D : Nat := 3

def RADEON_SURF_SCANOUT : BitVec 32 := 1 <<< 16
def RADEON_SURF_ZBUFFER : BitVec 32 := 1 <<< 17
def RADEON_SURF_SBUFFER : BitVec 32 := 1 <<< 18
def RADEON_SURF_Z_OR_SBUFFER : BitVec 32 := RADEON_SURF_ZBUFFER ||| RADEON_SURF_SBUFFER
def RADEON_SURF_HAS_SBUFFER_MIPTREE : BitVec 32 := 1 <<< 19
def RADEON_SURF_HAS_TILE_MODE_INDEX : BitVec 32 := 1 <<< 20
def RADEON_SURF_FMASK : BitVec 32 := 1 <<< 21

/-- `struct radeon_hw_info`. -/
structure HwInfo where
  groupBytes : Nat
  numBanks : Nat
  numPipes : Nat
  rowSize : Nat
  allow2d : Bool
  tileModeArray : Nat → BitVec 32
  macrotileModeArray : Nat → BitVec 32

/-- `struct radeon_surface_level`. -/
structure Level where
  offset : Nat
  sliceSize : Nat
  npixX : Nat
  npixY : Nat
  npixZ : Nat
  nblkX : Nat
  nblkY : Nat
  nblkZ : Nat
  pitchBytes : Nat
  mode : Nat
  deriving DecidableEq, Repr

/-- The arrays of levels: two in the surface, and one that evergreen uses in place of the second for callers that
    were built before it was there. -/
inductive Tree
  | level
  | stencilLevel
  | tmp
  deriving DecidableEq, Repr

/-- The part of `struct radeon_surface` that the loops over the levels only read. -/
structure Params where
  npixX : Nat
  npixY : Nat
  npixZ : Nat
  blkW : Nat
  blkH : Nat
  blkD : Nat
  arraySize : Nat
  lastLevel : Nat
  bpe : Nat
  nsamples : Nat
  flags : BitVec 32
  bankw : Nat
  bankh : Nat
  mtilea : Nat
  tileSplit : Nat
  stencilTileSplit : Nat
  deriving DecidableEq, Repr

/-- `struct radeon_surface`. -/
structure Surface extends Params where
  boSize : Nat
  boAlignment : Nat
  stencilOffset : Nat
  levels : Tree → Nat → Level
  tilingIndex : Nat → Nat
  stencilTilingIndex : Nat → Nat

namespace Params

/-- `surf->flags & mask`. -/
def has (mask : BitVec 32) (surf : Params) : Bool := surf.flags &&& mask != 0

def getType (surf : Params) : Nat := (surf.flags &&& 0xFF#32).toNat

def getMode (surf : Params) : Nat := ((surf.flags >>> 8) &&& 0xFF#32).toNat

end Params

namespace Surface

/-- `RADEON_SURF_CLR` and `RADEON_SURF_SET` of the mode. -/
def setMode (mode : Nat) (surf : Surface) : Surface :=
  { surf with flags := (surf.flags &&& ~~~(0xFF#32 <<< 8)) ||| ((BitVec.ofNat 32 mode &&& 0xFF#32) <<< 8) }

def setLevel (t : Tree) (i : Nat) (lv : Level) (surf : Surface) : Surface :=
  { surf with levels := Function.update surf.levels t (Function.update (surf.levels t) i lv) }

end Surface

/-! ## Arithmetic -/

def div (a b : Nat) : Except Trap Nat := if b = 0 then .error .divisionByZero else .ok (a / b)

def shift (A : Width) (n : Nat) : Except Trap Unit := if A.shiftable n then .ok () else .error .shiftTooFar

/-- The shift is by 32 less the leading zeros of `x - 1`. -/
def nextPowerOfTwo (A : Width) (x : Nat) : Except Trap Nat :=
  if x ≤ 1 then .ok 1
  else do
    shift A (Nat.log2 (x - 1) + 1)
    .ok (2 ^ (Nat.log2 (x - 1) + 1))

def mipMinify (A : Width) (size level : Nat) : Except Trap Nat := do
  shift A level
  if 0 < level then nextPowerOfTwo A (max 1 (size / 2 ^ level)) else .ok (max 1 (size / 2 ^ level))

/-- The blocks that cover `npix` pixels. -/
def blocks (A : Width) (npix blk : Nat) : Except Trap Nat := div (A.u32 (npix + blk - 1)) blk

/-! ## One level -/

/-- The pixels of a level, and its blocks before they are aligned. -/
def levelDims (A : Width) (surf : Params) (level : Nat) (lv : Level) : Except Trap Level := do
  let npixX ← mipMinify A surf.npixX level
  let npixY ← mipMinify A surf.npixY level
  let npixZ ← mipMinify A surf.npixZ level
  let nblkX ← blocks A npixX surf.blkW
  let nblkY ← blocks A npixY surf.blkH
  let nblkZ ← blocks A npixZ surf.blkD
  .ok { lv with npixX := npixX, npixY := npixY, npixZ := npixZ, nblkX := nblkX, nblkY := nblkY, nblkZ := nblkZ }

/-- On the later families all levels but the first have a power of two of pixels in a row, from the start. -/
def siNpixX (A : Width) (surf : Params) (level : Nat) : Except Trap Nat :=
  if level = 0 then .ok surf.npixX
  else do
    let n ← nextPowerOfTwo A surf.npixX
    mipMinify A n level

/-- The blocks of a level there: those of the first of several levels cover a power of two of pixels. -/
def siBlocks (A : Width) (surf : Params) (level npix blk : Nat) : Except Trap Nat :=
  if level = 0 ∧ 0 < surf.lastLevel then do
    let n ← nextPowerOfTwo A npix
    blocks A n blk
  else blocks A npix blk

def siLevelDims (A : Width) (surf : Params) (level : Nat) (lv : Level) : Except Trap Level := do
  let npixX ← siNpixX A surf level
  let npixY ← mipMinify A surf.npixY level
  let npixZ ← mipMinify A surf.npixZ level
  let nblkX ← siBlocks A surf level npixX surf.blkW
  let nblkY ← siBlocks A surf level npixY surf.blkH
  let nblkZ ← siBlocks A surf level npixZ surf.blkD
  .ok { lv with npixX := npixX, npixY := npixY, npixZ := npixZ, nblkX := nblkX, nblkY := nblkY, nblkZ := nblkZ }

/-- A level of a 2D tree that does not fill a macro tile of `w` by `h` blocks. -/
def Level.isSmall (surf : Params) (w h : Nat) (lv : Level) : Bool :=
  surf.nsamples = 1 ∧ lv.mode = RADEON_SURF_MODE_2D ∧ ¬ surf.has RADEON_SURF_FMASK ∧ (lv.nblkX < w ∨ lv.nblkY < h)

/-- The level is put at an offset, and the buffer ends with it. -/
def place (A : Width) (surf : Surface) (lv : Level) (offset : Nat) : Level × Surface :=
  ({ lv with offset := A.u32 offset },
    { surf with boSize := A.u64 (A.u32 offset + lv.sliceSize * lv.nblkZ * surf.arraySize) })

def surfMinify (A : Width) (surf : Surface) (lv : Level) (bpe level xalign yalign zalign offset : Nat) :
    Except Trap (Level × Surface) := do
  let lv ← levelDims A surf.toParams level lv
  if lv.isSmall surf.toParams xalign yalign then .ok ({ lv with mode := RADEON_SURF_MODE_1D }, surf)
  else
    let nblkX := A.align32 lv.nblkX xalign
    let nblkY := A.align32 lv.nblkY yalign
    let nblkZ := A.align32 lv.nblkZ zalign
    let pitchBytes := A.u32 (nblkX * bpe * surf.nsamples)
    let sliceSize := A.u32 (pitchBytes * nblkY)
    .ok (place A surf { lv with nblkX := nblkX, nblkY := nblkY, nblkZ := nblkZ, pitchBytes := pitchBytes,
                                sliceSize := sliceSize } offset)

/-- What the two functions for 2D tiles on the later families do after the pixels and blocks are known. -/
def minify2d (A : Width) (surf : Surface) (lv : Level) (bpe slicePt mtilew mtileh zalign mtileb offset : Nat) :
    Except Trap (Level × Surface) :=
  if lv.isSmall surf.toParams mtilew mtileh then .ok ({ lv with mode := RADEON_SURF_MODE_1D }, surf)
  else do
    let nblkX := A.align32 lv.nblkX mtilew
    let nblkY := A.align32 lv.nblkY mtileh
    let nblkZ := A.align32 lv.nblkZ zalign
    -- macro tiles per row, and per slice
    let mtilePr ← div nblkX mtilew
    let mtilePs ← div (A.u32 (mtilePr * nblkY)) mtileh
    let pitchBytes := A.u32 (nblkX * bpe * slicePt)
    let sliceSize := A.u32 (mtilePs * mtileb * slicePt)
    .ok (place A surf { lv with nblkX := nblkX, nblkY := nblkY, nblkZ := nblkZ, pitchBytes := pitchBytes,
                                sliceSize := sliceSize } offset)

def egSurfMinify (A : Width) (surf : Surface) (lv : Level) (bpe level slicePt mtilew mtileh mtileb offset : Nat) :
    Except Trap (Level × Surface) := do
  let lv ← levelDims A surf.toParams level lv
  minify2d A surf lv bpe slicePt mtilew mtileh 1 mtileb offset

def siSurfMinify2d (A : Width) (surf : Surface) (lv : Level)
    (bpe level slicePt xalign yalign zalign mtileb offset : Nat) : Except Trap (Level × Surface) := do
  let lv ← siLevelDims A surf.toParams level lv
  minify2d A surf lv bpe slicePt xalign yalign zalign mtileb offset

/-- Rows are padded to the alignment of a slice, and in linear trees so that all rows together are. -/
def siXalign (surf : Params) (lv : Level) (bpe level xalign sliceAlign nblkY : Nat) : Except Trap Nat :=
  if level = 0 ∧ surf.lastLevel = 0 then do
    let n ← div sliceAlign surf.bpe
    .ok (max xalign n)
  else if lv.mode = RADEON_SURF_MODE_LINEAR_ALIGNED then do
    let n ← div sliceAlign bpe
    let n ← div n nblkY
    .ok (max xalign n)
  else .ok xalign

def siSurfMinify (A : Width) (surf : Surface) (lv : Level)
    (bpe level xalign yalign zalign sliceAlign offset : Nat) : Except Trap (Level × Surface) := do
  let lv ← siLevelDims A surf.toParams level lv
  let nblkY := A.align32 lv.nblkY yalign
  let xalign ← siXalign surf.toParams lv bpe level xalign sliceAlign nblkY
  let nblkX := A.align32 lv.nblkX xalign
  let nblkZ := A.align32 lv.nblkZ zalign
  let pitchBytes := A.u32 (nblkX * bpe * surf.nsamples)
  let sliceSize := A.align32 (A.u32 (pitchBytes * nblkY)) sliceAlign
  .ok (place A surf { lv with nblkX := nblkX, nblkY := nblkY, nblkZ := nblkZ, pitchBytes := pitchBytes,
                              sliceSize := sliceSize } offset)

/-! ## One tree -/

/-- What the loops that build a mipmap tree differ in. -/
structure Pass where
  tree : Tree
  mode : Nat
  /-- Works out the level with this number, at this offset. -/
  minify : Surface → Level → Nat → Nat → Except Trap (Level × Surface)
  /-- The offset that was reached with this level, and where the next level goes. -/
  next : Surface → Nat → Nat × Nat
  /-- Notes the tile mode of the level. -/
  record : Nat → Surface → Surface := fun _ surf => surf
  /-- Goes on from this offset and level where a 2D level came out small. -/
  fallback : Option (Surface → Nat → Nat → Except Trap (Int × Surface)) := none

/-- `for (i = start_level; i <= last_level; i++)`, for the `n` levels from `i` on. -/
def buildTree (p : Pass) : Nat → Nat → Nat × Nat → Surface → Except Trap (Int × Surface)
  | 0, _, _, surf => .ok (0, surf)
  | n + 1, i, (reached, offset), surf => do
      let (lv, surf) ← p.minify surf { surf.levels p.tree i with mode := p.mode } i offset
      let surf := surf.setLevel p.tree i lv
      match p.fallback with
      | some fallback =>
          if lv.mode = RADEON_SURF_MODE_1D then fallback surf reached i
          else buildTree p n (i + 1) (p.next surf i) (p.record i surf)
      | none => buildTree p n (i + 1) (p.next surf i) (p.record i surf)

/-- The next level starts where this one ends; after level 0 the offset is aligned. -/
def nextOffset (A : Width) (surf : Surface) (i : Nat) : Nat × Nat :=
  let offset := if i = 0 then A.align64 surf.boSize surf.boAlignment else surf.boSize
  (offset, offset)

/-- The loop over the levels from `start` on. -/
def buildFrom (p : Pass) (surf : Surface) (reached offset start : Nat) : Except Trap (Int × Surface) :=
  buildTree p (surf.lastLevel + 1 - start) start (reached, offset) surf

/-! ## r600 and r700 -/

def scanoutAlign (surf : Params) (bpe xalign : Nat) : Nat :=
  if surf.has RADEON_SURF_SCANOUT then max (if bpe = 1 then 64 else 32) xalign else xalign

/-- The loops around `surf_minify`. -/
def surfPass (A : Width) (t : Tree) (mode bpe xalign yalign : Nat) : Pass where
  tree := t
  mode := mode
  minify := fun surf lv i offset => surfMinify A surf lv bpe i xalign yalign 1 offset
  next := nextOffset A

def xalignLinear (hw : HwInfo) (surf : Params) : Except Trap Nat := do
  let n ← div hw.groupBytes surf.bpe
  .ok (scanoutAlign surf surf.bpe (max 1 n))

def r6SurfaceInitLinear (A : Width) (hw : HwInfo) (surf : Surface) (offset start : Nat) :
    Except Trap (Int × Surface) := do
  let surf := if start = 0 then { surf with boAlignment := max 256 hw.groupBytes } else surf
  let xalign ← xalignLinear hw surf.toParams
  buildFrom (surfPass A .level RADEON_SURF_MODE_LINEAR surf.bpe xalign 1) surf offset offset start

def xalignLinearAligned (hw : HwInfo) (surf : Params) : Except Trap Nat := do
  let n ← div hw.groupBytes surf.bpe
  .ok (max 64 n)

def r6SurfaceInitLinearAligned (A : Width) (hw : HwInfo) (surf : Surface) (offset start : Nat) :
    Except Trap (Int × Surface) := do
  let surf := if start = 0 then { surf with boAlignment := max 256 hw.groupBytes } else surf
  let xalign ← xalignLinearAligned hw surf.toParams
  buildFrom (surfPass A .level RADEON_SURF_MODE_LINEAR_ALIGNED surf.bpe xalign 1) surf offset offset start

/-- The width of a 1D tile, on r600 and on evergreen. -/
def xalign1d (A : Width) (hw : HwInfo) (surf : Params) (bpe : Nat) : Except Trap Nat := do
  let n ← div hw.groupBytes (A.u32 (8 * bpe * surf.nsamples))
  .ok (scanoutAlign surf bpe (max 8 n))

def r6SurfaceInit1d (A : Width) (hw : HwInfo) (surf : Surface) (offset start : Nat) :
    Except Trap (Int × Surface) := do
  let xalign ← xalign1d A hw surf.toParams surf.bpe
  let surf := if start = 0 then { surf with boAlignment := max 256 hw.groupBytes } else surf
  buildFrom (surfPass A .level RADEON_SURF_MODE_1D surf.bpe xalign 8) surf offset offset start

/-- The width of a macro tile on r600. -/
def r6Xalign2d (A : Width) (hw : HwInfo) (surf : Params) : Except Trap Nat := do
  let n ← div (A.u32 (hw.groupBytes * hw.numBanks)) (A.u32 (8 * surf.bpe * surf.nsamples))
  .ok (scanoutAlign surf surf.bpe (max (A.u32 (8 * hw.numBanks)) n))

def r6Alignment2d (A : Width) (hw : HwInfo) (surf : Params) (xalign yalign : Nat) : Nat :=
  max (A.u32 (hw.numPipes * hw.numBanks * surf.nsamples * surf.bpe * 64))
    (A.u32 (xalign * yalign * surf.nsamples * surf.bpe))

def r6SurfaceInit2d (A : Width) (hw : HwInfo) (surf : Surface) (offset start : Nat) :
    Except Trap (Int × Surface) := do
  let xalign ← r6Xalign2d A hw surf.toParams
  let yalign := A.u32 (8 * hw.numPipes)
  let surf :=
    if start = 0 then { surf with boAlignment := r6Alignment2d A hw surf.toParams xalign yalign } else surf
  buildFrom { surfPass A .level RADEON_SURF_MODE_2D surf.bpe xalign yalign with
              fallback := some (r6SurfaceInit1d A hw) }
    surf offset offset start

/-- Surfaces with several samples have the 2D mode only. -/
def msaaMode (surf : Surface) : Surface := if 1 < surf.nsamples then surf.setMode RADEON_SURF_MODE_2D else surf

/-- The mode in the flags, where depth and stencil buffers have 1D or 2D tiles. -/
def depthMode (surf : Surface) : Nat × Surface :=
  if surf.has RADEON_SURF_Z_OR_SBUFFER then
    if surf.getMode = RADEON_SURF_MODE_1D ∨ surf.getMode = RADEON_SURF_MODE_2D then (surf.getMode, surf)
    else (RADEON_SURF_MODE_1D, surf.setMode RADEON_SURF_MODE_1D)
  else (surf.getMode, surf)

/-- The tiling mode that is asked for. -/
def tilingMode (surf : Surface) : Nat × Surface := depthMode (msaaMode surf)

/-- Forces 1D where 2D cannot be done: the result, the mode and the surface. -/
def force1d (allowed : Bool) (mode : Nat) (surf : Surface) : Int × Nat × Surface :=
  if ¬ allowed ∧ RADEON_SURF_MODE_1D < mode then
    if 1 < surf.nsamples then (-EFAULT, mode, surf)
    else (0, RADEON_SURF_MODE_1D, surf.setMode RADEON_SURF_MODE_1D)
  else (0, mode, surf)

def r6SurfaceInit (A : Width) (hw : HwInfo) (surf : Surface) : Except Trap (Int × Surface) :=
  let (mode, surf) := tilingMode surf
  let (r, mode, surf) := force1d hw.allow2d mode surf
  if r ≠ 0 then .ok (r, surf)
  else if 8192 < surf.npixX ∨ 8192 < surf.npixY ∨ 8192 < surf.npixZ then .ok (-EINVAL, surf)
  else if 14 < surf.lastLevel then .ok (-EINVAL, surf)
  else if mode = RADEON_SURF_MODE_LINEAR then r6SurfaceInitLinear A hw surf 0 0
  else if mode = RADEON_SURF_MODE_LINEAR_ALIGNED then r6SurfaceInitLinearAligned A hw surf 0 0
  else if mode = RADEON_SURF_MODE_1D then r6SurfaceInit1d A hw surf 0 0
  else if mode = RADEON_SURF_MODE_2D then r6SurfaceInit2d A hw surf 0 0
  else .ok (-EINVAL, surf)

/-! ## Evergreen -/

/-- The alignment of a whole tree: the buffer has it, and a tree that is not the first starts with it. -/
def alignTree (A : Width) (alignment : Nat) (surf : Surface) (offset : Nat) : Surface × Nat :=
  ({ surf with boAlignment := max surf.boAlignment alignment },
    if offset = 0 then offset else A.alignMixed offset alignment)

def egSurfaceInit1d (A : Width) (hw : HwInfo) (t : Tree) (bpe : Nat) (surf : Surface) (offset start : Nat) :
    Except Trap (Int × Surface) := do
  let xalign ← xalign1d A hw surf.toParams bpe
  let (surf, offset) := if start = 0 then alignTree A (max 256 hw.groupBytes) surf offset else (surf, offset)
  buildFrom (surfPass A t RADEON_SURF_MODE_1D bpe xalign 8) surf offset offset start

/-- The bytes of a tile and how many slices it is split into. -/
def splitTile (tileb tileSplit : Nat) : Except Trap (Nat × Nat) :=
  if tileSplit < tileb ∧ tileSplit ≠ 0 then do
    let slicePt ← div tileb tileSplit
    let tileb ← div tileb slicePt
    .ok (tileb, slicePt)
  else .ok (tileb, 1)

/-- The macro tile of `bankw`, `bankh` and `mtilea`: its width and height in blocks, and its bytes. -/
def macroTile (A : Width) (surf : Params) (numPipes numBanks tileb : Nat) : Except Trap (Nat × Nat × Nat) := do
  let mtilew := A.u32 (8 * surf.bankw * numPipes * surf.mtilea)
  let mtileh ← div (A.u32 (8 * surf.bankh * numBanks)) surf.mtilea
  .ok (mtilew, mtileh, A.u32 (mtilew / 8 * (mtileh / 8) * tileb))

def egSurfaceInit2d (A : Width) (hw : HwInfo) (t : Tree) (bpe tileSplit : Nat) (surf : Surface)
    (offset start : Nat) : Except Trap (Int × Surface) := do
  let (tileb, slicePt) ← splitTile (A.u32 (64 * bpe * surf.nsamples)) tileSplit
  let (mtilew, mtileh, mtileb) ← macroTile A surf.toParams hw.numPipes hw.numBanks tileb
  let (surf, offset) := if start = 0 then alignTree A (max 256 mtileb) surf offset else (surf, offset)
  buildFrom { tree := t, mode := RADEON_SURF_MODE_2D, next := nextOffset A,
              minify := fun surf lv i offset => egSurfMinify A surf lv bpe i slicePt mtilew mtileh mtileb offset,
              fallback := some (egSurfaceInit1d A hw t bpe) }
    surf offset offset start

def egSurfaceSanity (A : Width) (hw : HwInfo) (surf : Surface) (mode : Nat) : Int × Surface :=
  if 16384 < surf.npixX ∨ 16384 < surf.npixY ∨ 16384 < surf.npixZ then (-EINVAL, surf)
  else if 15 < surf.lastLevel then (-EINVAL, surf)
  else
    let (r, mode, surf) := force1d hw.allow2d mode surf
    if r ≠ 0 then (r, surf)
    else if mode = RADEON_SURF_MODE_2D then
      if surf.tileSplit ∉ [64, 128, 256, 512, 1024, 2048, 4096] then (-EINVAL, surf)
      else if surf.mtilea ∉ [1, 2, 4, 8] then (-EINVAL, surf)
      else if hw.numBanks < surf.mtilea then (-EINVAL, surf)
      else if surf.bankw ∉ [1, 2, 4, 8] then (-EINVAL, surf)
      else if surf.bankh ∉ [1, 2, 4, 8] then (-EINVAL, surf)
      else
        let tileb := min surf.tileSplit (A.u32 (64 * surf.bpe * surf.nsamples))
        if A.u32 (tileb * surf.bankh * surf.bankw) < hw.groupBytes then (-EINVAL, surf) else (0, surf)
    else (0, surf)

/-- The second tree goes to the surface only if the caller knows of it. -/
def egStencilTree (surf : Params) : Tree :=
  if surf.has RADEON_SURF_HAS_SBUFFER_MIPTREE then .stencilLevel else .tmp

/-- Both depth and stencil. -/
def isDepthStencil (surf : Params) : Bool := surf.flags &&& RADEON_SURF_Z_OR_SBUFFER == RADEON_SURF_Z_OR_SBUFFER

/-- A first tree, and a second one from where the first one ends. -/
def miptrees (second : Bool) (t : Tree) (build₁ : Surface → Except Trap (Int × Surface))
    (build₂ : Surface → Nat → Except Trap (Int × Surface)) (surf : Surface) : Except Trap (Int × Surface) := do
  let (r, surf) ← build₁ surf
  if r ≠ 0 then .ok (r, surf)
  else if second then do
    let (r, surf) ← build₂ surf surf.boSize
    .ok (r, { surf with stencilOffset := (surf.levels t 0).offset })
  else .ok (r, surf)

def egSurfaceInit1dMiptrees (A : Width) (hw : HwInfo) (surf : Surface) : Except Trap (Int × Surface) :=
  let t := egStencilTree surf.toParams
  miptrees (isDepthStencil surf.toParams) t
    (fun surf => egSurfaceInit1d A hw .level surf.bpe surf 0 0)
    (fun surf offset => egSurfaceInit1d A hw t 1 surf offset 0) surf

def egSurfaceInit2dMiptrees (A : Width) (hw : HwInfo) (surf : Surface) : Except Trap (Int × Surface) :=
  let t := egStencilTree surf.toParams
  miptrees (isDepthStencil surf.toParams) t
    (fun surf => egSurfaceInit2d A hw .level surf.bpe surf.tileSplit surf 0 0)
    (fun surf offset => egSurfaceInit2d A hw t 1 surf.stencilTileSplit surf offset 0) surf

/-- The mode that the surface is laid out in is the one from before the check. -/
def egSurfaceInit (A : Width) (hw : HwInfo) (surf : Surface) : Except Trap (Int × Surface) :=
  let (mode, surf) := tilingMode surf
  let (r, surf) := egSurfaceSanity A hw surf mode
  if r ≠ 0 then .ok (r, surf)
  else
    let surf := { surf with stencilOffset := 0, boAlignment := 0 }
    if mode = RADEON_SURF_MODE_LINEAR then r6SurfaceInitLinear A hw surf 0 0
    else if mode = RADEON_SURF_MODE_LINEAR_ALIGNED then r6SurfaceInitLinearAligned A hw surf 0 0
    else if mode = RADEON_SURF_MODE_1D then egSurfaceInit1dMiptrees A hw surf
    else if mode = RADEON_SURF_MODE_2D then egSurfaceInit2dMiptrees A hw surf
    else .ok (-EINVAL, surf)

end LibDrm.Mip
