/-
# `LibDrm.Mip.Islands` — the Southern and Sea Islands families, and the interface

On these families the tile parameters of a surface come from tables that the kernel
gives: a tile mode names an entry, and the entry holds the pipes, the banks, the bank
size, the aspect of the macro tile and the tile split.  On Sea Islands all but the pipes
and the split are in a second table, found by the bytes of a tile.

    radeon_surface_manager_new   asks the kernel, and chooses the family's functions
    radeon_surface_init          checks a surface and lays it out

`Kernel` is what the kernel answers; an answer that failed is `none`.
-/
import LibDrm.Mip.Layout

namespace LibDrm.Mip

def SI_TILE_MODE_COLOR_LINEAR_ALIGNED : Nat := 8
def SI_TILE_MODE_COLOR_1D : Nat := 13
def SI_TILE_MODE_COLOR_1D_SCANOUT : Nat := 9
def SI_TILE_MODE_COLOR_2D_8BPP : Nat := 14
def SI_TILE_MODE_COLOR_2D_16BPP : Nat := 15
def SI_TILE_MODE_COLOR_2D_32BPP : Nat := 16
def SI_TILE_MODE_COLOR_2D_64BPP : Nat := 17
def SI_TILE_MODE_COLOR_2D_SCANOUT_16BPP : Nat := 11
def SI_TILE_MODE_COLOR_2D_SCANOUT_32BPP : Nat := 12
def SI_TILE_MODE_DEPTH_STENCIL_1D : Nat := 4
def SI_TILE_MODE_DEPTH_STENCIL_2D : Nat := 0
def SI_TILE_MODE_DEPTH_STENCIL_2D_2AA : Nat := 3
def SI_TILE_MODE_DEPTH_STENCIL_2D_4AA : Nat := 3
def SI_TILE_MODE_DEPTH_STENCIL_2D_8AA : Nat := 2

def CIK_TILE_MODE_COLOR_2D : Nat := 14
def CIK_TILE_MODE_COLOR_2D_SCANOUT : Nat := 10
def CIK_TILE_MODE_DEPTH_STENCIL_2D_TILESPLIT_64 : Nat := 0
def CIK_TILE_MODE_DEPTH_STENCIL_2D_TILESPLIT_128 : Nat := 1
def CIK_TILE_MODE_DEPTH_STENCIL_2D_TILESPLIT_256 : Nat := 2
def CIK_TILE_MODE_DEPTH_STENCIL_2D_TILESPLIT_512 : Nat := 3
def CIK_TILE_MODE_DEPTH_STENCIL_2D_TILESPLIT_ROW_SIZE : Nat := 4
def CIK_TILE_MODE_DEPTH_STENCIL_1D : Nat := 5

/-! ## The tables -/

/-- `((x) >> lo) & mask`. -/
def bitField (x : BitVec 32) (lo : Nat) (mask : BitVec 32) : Nat := ((x >>> lo) &&& mask).toNat

/-- The codes of a bank width, a bank height, an aspect or a sample split. -/
def small2 : Nat → Nat
  | 1 => 2
  | 2 => 4
  | 3 => 8
  | _ => 1

def numBanksOf : Nat → Nat
  | 1 => 4
  | 2 => 8
  | 3 => 16
  | _ => 2

def tileSplitOf : Nat → Nat
  | 1 => 128
  | 2 => 256
  | 3 => 512
  | 4 => 1024
  | 5 => 2048
  | 6 => 4096
  | _ => 64

/-- `SI__PIPE_CONFIG__ADDR_SURF_P4_8x16` and so on. -/
def siPipesOf (config : Nat) : Nat :=
  if 4 ≤ config ∧ config ≤ 7 then 4
  else if 8 ≤ config ∧ config ≤ 14 then 8
  else 2

def cikPipesOf (config : Nat) : Nat := if config = 16 ∨ config = 17 then 16 else siPipesOf config

/-- What `si_gb_tile_mode` reads from an entry. -/
structure TileMode where
  numPipes : Nat
  numBanks : Nat
  macroTileAspect : Nat
  bankW : Nat
  bankH : Nat
  tileSplit : Nat
  deriving DecidableEq, Repr

def siGbTileMode (gbTileMode : BitVec 32) : TileMode where
  numPipes := siPipesOf (bitField gbTileMode 6 0x1f)
  numBanks := numBanksOf (bitField gbTileMode 20 0x3)
  macroTileAspect := small2 (bitField gbTileMode 18 0x3)
  bankW := small2 (bitField gbTileMode 14 0x3)
  bankH := small2 (bitField gbTileMode 16 0x3)
  tileSplit := tileSplitOf (bitField gbTileMode 11 0x7)

/-- `for (macrotile_index = 0; tileb > 64; macrotile_index++) tileb >>= 1`: a 32-bit number is down at 64 after 26
    rounds. -/
def macrotileIndex : Nat → Nat → Nat
  | 0, _ => 0
  | n + 1, tileb => if 64 < tileb then macrotileIndex n (tileb / 2) + 1 else 0

def cikGet2dParams (A : Width) (hw : HwInfo) (bpe nsamples : Nat) (isColor : Bool) (tileMode : Nat) : TileMode :=
  let gbTileMode := hw.tileModeArray tileMode
  let tileb1x := A.u32 (8 * 8 * bpe)
  let sampleSplit := small2 (bitField gbTileMode 25 0x3)
  let tileSplit := if isColor then max 256 (A.u32 (sampleSplit * tileb1x)) else tileSplitOf (bitField gbTileMode 11 0x7)
  let tileSplit := min hw.rowSize tileSplit
  let tileb := min tileSplit (A.u32 (nsamples * tileb1x))
  let gbMacrotileMode := hw.macrotileModeArray (macrotileIndex 32 tileb)
  { numPipes := cikPipesOf (bitField gbTileMode 6 0x1f)
    numBanks := numBanksOf (bitField gbMacrotileMode 6 0x3)
    macroTileAspect := small2 (bitField gbMacrotileMode 4 0x3)
    bankW := small2 (bitField gbMacrotileMode 0 0x3)
    bankH := small2 (bitField gbMacrotileMode 2 0x3)
    tileSplit := tileSplit }

/-! ## Trees in linear, 1D and 2D tiles -/

/-- Notes the tile mode of a level.  The stencil tree is built last, and has its own. -/
def recordIndex (t : Tree) (tileMode i : Nat) (surf : Surface) : Surface :=
  if surf.has RADEON_SURF_HAS_TILE_MODE_INDEX then
    if t = .level then
      { surf with tilingIndex := Function.update surf.tilingIndex i tileMode,
                  stencilTilingIndex := Function.update surf.stencilTilingIndex i tileMode }
    else { surf with stencilTilingIndex := Function.update surf.stencilTilingIndex i tileMode }
  else surf

/-- In a linear tree only the first of the two is there. -/
def recordLinearIndex (tileMode i : Nat) (surf : Surface) : Surface :=
  if surf.has RADEON_SURF_HAS_TILE_MODE_INDEX then
    { surf with tilingIndex := Function.update surf.tilingIndex i tileMode }
  else surf

def siSurfaceInitLinearAligned (A : Width) (hw : HwInfo) (tileMode : Nat) (surf : Surface) (offset start : Nat) :
    Except Trap (Int × Surface) := do
  let surf := if start = 0 then { surf with boAlignment := max 256 hw.groupBytes } else surf
  let n ← div 64 surf.bpe
  let xalign := max 8 n
  let sliceAlign := max (A.u32 (64 * surf.bpe)) hw.groupBytes
  buildFrom { tree := .level, mode := RADEON_SURF_MODE_LINEAR_ALIGNED, next := nextOffset A,
              minify := fun surf lv i offset => siSurfMinify A surf lv surf.bpe i xalign 1 1 sliceAlign offset,
              record := recordLinearIndex tileMode }
    surf offset offset start

/-- After level 0 the offset is aligned to a 32-bit value. -/
def nextOffset32 (A : Width) (alignment : Nat) (surf : Surface) (i : Nat) : Nat × Nat :=
  let offset := if i = 0 then A.alignMixed surf.boSize alignment else surf.boSize
  (offset, offset)

def siSurfaceInit1d (A : Width) (hw : HwInfo) (t : Tree) (bpe tileMode : Nat) (surf : Surface)
    (offset start : Nat) : Except Trap (Int × Surface) :=
  let alignment := max 256 hw.groupBytes
  let xalign := scanoutAlign surf.toParams bpe 8
  let (surf, offset) := if start ≤ 1 then alignTree A alignment surf offset else (surf, offset)
  buildFrom { tree := t, mode := RADEON_SURF_MODE_1D, next := nextOffset32 A alignment,
              minify := fun surf lv i offset => siSurfMinify A surf lv bpe i xalign 8 1 hw.groupBytes offset,
              record := recordIndex t tileMode }
    surf offset offset start

def siSurfaceInit1dMiptrees (A : Width) (hw : HwInfo) (tileMode stencilTileMode : Nat) (surf : Surface) :
    Except Trap (Int × Surface) :=
  miptrees (surf.has RADEON_SURF_SBUFFER) .stencilLevel
    (fun surf => siSurfaceInit1d A hw .level surf.bpe tileMode surf 0 0)
    (fun surf offset => siSurfaceInit1d A hw .stencilLevel 1 stencilTileMode surf offset 0) surf

/-- Where the next level of a 2D tree goes; should it come out small, its 1D tiles start from the offset as it was
    reached. -/
def nextOffset2d (A : Width) (surf : Surface) (i : Nat) : Nat × Nat :=
  (surf.boSize, if i = 0 then A.align64 surf.boSize surf.boAlignment else surf.boSize)

/-- The loop of `si_surface_init_2d` and `cik_surface_init_2d`; `to1d` gives the tile mode that a tree falls back to. -/
def islandsTree2d (A : Width) (hw : HwInfo) (t : Tree) (bpe tileMode : Nat) (to1d : Nat → Option Nat)
    (slicePt mtilew mtileh mtileb : Nat) (surf : Surface) (offset start : Nat) : Except Trap (Int × Surface) :=
  let (surf, aligned) := if start ≤ 1 then alignTree A (max 256 mtileb) surf offset else (surf, offset)
  buildFrom { tree := t, mode := RADEON_SURF_MODE_2D, next := nextOffset2d A,
              minify := fun surf lv i offset => siSurfMinify2d A surf lv bpe i slicePt mtilew mtileh 1 mtileb offset,
              record := recordIndex t tileMode,
              fallback := some fun surf offset i =>
                match to1d tileMode with
                | some tileMode => siSurfaceInit1d A hw t bpe tileMode surf offset i
                | none => .ok (-EINVAL, surf) }
    surf offset aligned start

def siTo1d (tileMode : Nat) : Option Nat :=
  if tileMode ∈ [SI_TILE_MODE_COLOR_2D_8BPP, SI_TILE_MODE_COLOR_2D_16BPP, SI_TILE_MODE_COLOR_2D_32BPP,
      SI_TILE_MODE_COLOR_2D_64BPP] then some SI_TILE_MODE_COLOR_1D
  else if tileMode ∈ [SI_TILE_MODE_COLOR_2D_SCANOUT_16BPP, SI_TILE_MODE_COLOR_2D_SCANOUT_32BPP] then
    some SI_TILE_MODE_COLOR_1D_SCANOUT
  else if tileMode = SI_TILE_MODE_DEPTH_STENCIL_2D then some SI_TILE_MODE_DEPTH_STENCIL_1D
  else none

def siSurfaceInit2d (A : Width) (hw : HwInfo) (t : Tree) (bpe tileMode numPipes numBanks tileSplit : Nat)
    (surf : Surface) (offset start : Nat) : Except Trap (Int × Surface) := do
  let (tileb, slicePt) ← splitTile (A.u32 (64 * bpe * surf.nsamples)) tileSplit
  let (mtilew, mtileh, mtileb) ← macroTile A surf.toParams numPipes numBanks tileb
  islandsTree2d A hw t bpe tileMode siTo1d slicePt mtilew mtileh mtileb surf offset start

def siSurfaceInit2dMiptrees (A : Width) (hw : HwInfo) (tileMode stencilTileMode : Nat) (surf : Surface) :
    Except Trap (Int × Surface) :=
  let mode := siGbTileMode (hw.tileModeArray tileMode)
  miptrees (surf.has RADEON_SURF_SBUFFER) .stencilLevel
    (fun surf => siSurfaceInit2d A hw .level surf.bpe tileMode mode.numPipes mode.numBanks surf.tileSplit surf 0 0)
    (fun surf offset => siSurfaceInit2d A hw .stencilLevel 1 stencilTileMode mode.numPipes mode.numBanks
      surf.stencilTileSplit surf offset 0) surf

def cikTo1d (tileMode : Nat) : Option Nat :=
  if tileMode = CIK_TILE_MODE_COLOR_2D then some SI_TILE_MODE_COLOR_1D
  else if tileMode = CIK_TILE_MODE_COLOR_2D_SCANOUT then some SI_TILE_MODE_COLOR_1D_SCANOUT
  else if tileMode ∈ [CIK_TILE_MODE_DEPTH_STENCIL_2D_TILESPLIT_64, CIK_TILE_MODE_DEPTH_STENCIL_2D_TILESPLIT_128,
      CIK_TILE_MODE_DEPTH_STENCIL_2D_TILESPLIT_256, CIK_TILE_MODE_DEPTH_STENCIL_2D_TILESPLIT_512,
      CIK_TILE_MODE_DEPTH_STENCIL_2D_TILESPLIT_ROW_SIZE] then some CIK_TILE_MODE_DEPTH_STENCIL_1D
  else none

def cikSurfaceInit2d (A : Width) (hw : HwInfo) (t : Tree) (bpe tileMode tileSplit numPipes numBanks : Nat)
    (surf : Surface) (offset start : Nat) : Except Trap (Int × Surface) := do
  let (tileb, slicePt) ← splitTile (A.u32 (surf.nsamples * (64 * bpe))) (min hw.rowSize tileSplit)
  let (mtilew, mtileh, mtileb) ← macroTile A surf.toParams numPipes numBanks tileb
  islandsTree2d A hw t bpe tileMode cikTo1d slicePt mtilew mtileh mtileb surf offset start

def cikSurfaceInit2dMiptrees (A : Width) (hw : HwInfo) (tileMode stencilTileMode : Nat) (surf : Surface) :
    Except Trap (Int × Surface) :=
  let mode := cikGet2dParams A hw surf.bpe surf.nsamples (!surf.has RADEON_SURF_Z_OR_SBUFFER) tileMode
  miptrees (surf.has RADEON_SURF_SBUFFER) .stencilLevel
    (fun surf => cikSurfaceInit2d A hw .level surf.bpe tileMode surf.tileSplit mode.numPipes mode.numBanks surf 0 0)
    (fun surf offset => cikSurfaceInit2d A hw .stencilLevel 1 stencilTileMode surf.stencilTileSplit mode.numPipes
      mode.numBanks surf offset 0) surf

/-! ## The checks -/

/-- A check's result, the surface, and the tile modes of the two trees.  A mode that the check does not set is 0 here:
    nothing reads it. -/
abbrev Checked := Int × Surface × Nat × Nat

/-- The default tile parameters, for a surface without any. -/
def defaultTiles (surf : Surface) : Surface :=
  if surf.tileSplit = 0 then
    { surf with mtilea := 1, bankw := 1, bankh := 1, tileSplit := 64, stencilTileSplit := 64 }
  else surf

/-- The tile modes in 1D tiles; the families number the one for depth and stencil differently. -/
def tileModes1d (depthStencil : Nat) (surf : Surface) : Checked :=
  (0, surf,
    if surf.has RADEON_SURF_ZBUFFER then depthStencil
    else if surf.has RADEON_SURF_SCANOUT then SI_TILE_MODE_COLOR_1D_SCANOUT
    else SI_TILE_MODE_COLOR_1D,
    if surf.has RADEON_SURF_SBUFFER then depthStencil else 0)

def siDepthMode : Nat → Option Nat
  | 1 => some SI_TILE_MODE_DEPTH_STENCIL_2D
  | 2 => some SI_TILE_MODE_DEPTH_STENCIL_2D_2AA
  | 4 => some SI_TILE_MODE_DEPTH_STENCIL_2D_4AA
  | 8 => some SI_TILE_MODE_DEPTH_STENCIL_2D_8AA
  | _ => none

def siScanoutMode : Nat → Option Nat
  | 2 => some SI_TILE_MODE_COLOR_2D_SCANOUT_16BPP
  | 4 => some SI_TILE_MODE_COLOR_2D_SCANOUT_32BPP
  | _ => none

def siColorMode : Nat → Option Nat
  | 1 => some SI_TILE_MODE_COLOR_2D_8BPP
  | 2 => some SI_TILE_MODE_COLOR_2D_16BPP
  | 4 => some SI_TILE_MODE_COLOR_2D_32BPP
  | 8 => some SI_TILE_MODE_COLOR_2D_64BPP
  | 16 => some SI_TILE_MODE_COLOR_2D_64BPP
  | _ => none

/-- The tile mode of the first tree in 2D tiles. -/
def siMode2d (surf : Params) : Option Nat :=
  if surf.has RADEON_SURF_ZBUFFER then siDepthMode surf.nsamples
  else if surf.has RADEON_SURF_SCANOUT then siScanoutMode surf.bpe
  else siColorMode surf.bpe

/-- The tile modes in 2D tiles, and the tile parameters of the entry. -/
def siTileModes2d (hw : HwInfo) (surf : Surface) : Checked :=
  match (if surf.has RADEON_SURF_SBUFFER then siDepthMode surf.nsamples else some 0) with
  | none => (-EINVAL, surf, 0, 0)
  | some stencilTileMode =>
      let surf :=
        if surf.has RADEON_SURF_SBUFFER then
          { surf with stencilTileSplit := (siGbTileMode (hw.tileModeArray stencilTileMode)).tileSplit }
        else surf
      match siMode2d surf.toParams with
      | none => (-EINVAL, surf, 0, stencilTileMode)
      | some tileMode =>
          let mode := siGbTileMode (hw.tileModeArray tileMode)
          (0, { surf with mtilea := mode.macroTileAspect, bankw := mode.bankW, bankh := mode.bankH,
                          tileSplit := mode.tileSplit }, tileMode, stencilTileMode)

/-- The tile modes of the two trees: `depthStencil` is the 1D mode for depth and stencil, `modes2d` the choice in 2D
    tiles. -/
def tileModes (depthStencil : Nat) (modes2d : Surface → Checked) (mode : Nat) (surf : Surface) : Checked :=
  if mode = RADEON_SURF_MODE_2D then modes2d surf
  else if mode = RADEON_SURF_MODE_1D then tileModes1d depthStencil surf
  else (0, surf, SI_TILE_MODE_COLOR_LINEAR_ALIGNED, 0)

/-- What the checks of the two families share. -/
def islandsSanity (hw : HwInfo) (depthStencil : Nat) (modes2d : Surface → Checked) (surf : Surface) (mode : Nat) :
    Checked :=
  if 16384 < surf.npixX ∨ 16384 < surf.npixY ∨ 16384 < surf.npixZ then (-EINVAL, surf, 0, 0)
  else if 15 < surf.lastLevel then (-EINVAL, surf, 0, 0)
  else
    let (r, mode, surf) := force1d (hw.allow2d && surf.has RADEON_SURF_HAS_TILE_MODE_INDEX) mode surf
    if r ≠ 0 then (r, surf, 0, 0)
    else if 1 < surf.nsamples ∧ mode ≠ RADEON_SURF_MODE_2D then (-EINVAL, surf, 0, 0)
    else tileModes depthStencil modes2d mode (defaultTiles surf)

def siSurfaceSanity (hw : HwInfo) (surf : Surface) (mode : Nat) : Checked :=
  islandsSanity hw SI_TILE_MODE_DEPTH_STENCIL_1D (siTileModes2d hw) surf mode

def cikDepthMode : Nat → Option Nat
  | 1 => some CIK_TILE_MODE_DEPTH_STENCIL_2D_TILESPLIT_64
  | 2 => some CIK_TILE_MODE_DEPTH_STENCIL_2D_TILESPLIT_128
  | 4 => some CIK_TILE_MODE_DEPTH_STENCIL_2D_TILESPLIT_128
  | 8 => some CIK_TILE_MODE_DEPTH_STENCIL_2D_TILESPLIT_256
  | _ => none

def cikMode2d (surf : Params) : Option Nat :=
  if surf.has RADEON_SURF_Z_OR_SBUFFER then cikDepthMode surf.nsamples
  else if surf.has RADEON_SURF_SCANOUT then some CIK_TILE_MODE_COLOR_2D_SCANOUT
  else some CIK_TILE_MODE_COLOR_2D

def cikTileModes2d (A : Width) (hw : HwInfo) (surf : Surface) : Checked :=
  match cikMode2d surf.toParams with
  | none => (-EINVAL, surf, 0, 0)
  | some tileMode =>
      let stencilTileMode := if surf.has RADEON_SURF_SBUFFER then tileMode else 0
      let surf :=
        if surf.has RADEON_SURF_SBUFFER then
          { surf with stencilTileSplit := (cikGet2dParams A hw 1 surf.nsamples false stencilTileMode).tileSplit }
        else surf
      let mode := cikGet2dParams A hw surf.bpe surf.nsamples (!surf.has RADEON_SURF_Z_OR_SBUFFER) tileMode
      (0, { surf with mtilea := mode.macroTileAspect, bankw := mode.bankW, bankh := mode.bankH,
                      tileSplit := mode.tileSplit }, tileMode, stencilTileMode)

def cikSurfaceSanity (A : Width) (hw : HwInfo) (surf : Surface) (mode : Nat) : Checked :=
  islandsSanity hw CIK_TILE_MODE_DEPTH_STENCIL_1D (cikTileModes2d A hw) surf mode

/-- What follows the check in the two families.  The mode that the surface is laid out in is the one from before the
    check. -/
def islandsInit (A : Width) (hw : HwInfo) (sanity : Surface → Nat → Checked)
    (miptrees2d : Nat → Nat → Surface → Except Trap (Int × Surface)) (surf : Surface) : Except Trap (Int × Surface) :=
  let (mode, surf) := tilingMode surf
  let (r, surf, tileMode, stencilTileMode) := sanity surf mode
  if r ≠ 0 then .ok (r, surf)
  else
    let surf := { surf with stencilOffset := 0, boAlignment := 0 }
    if mode = RADEON_SURF_MODE_LINEAR then r6SurfaceInitLinear A hw surf 0 0
    else if mode = RADEON_SURF_MODE_LINEAR_ALIGNED then siSurfaceInitLinearAligned A hw tileMode surf 0 0
    else if mode = RADEON_SURF_MODE_1D then siSurfaceInit1dMiptrees A hw tileMode stencilTileMode surf
    else if mode = RADEON_SURF_MODE_2D then miptrees2d tileMode stencilTileMode surf
    else .ok (-EINVAL, surf)

def siSurfaceInit (A : Width) (hw : HwInfo) (surf : Surface) : Except Trap (Int × Surface) :=
  islandsInit A hw (siSurfaceSanity hw) (siSurfaceInit2dMiptrees A hw) surf

def cikSurfaceInit (A : Width) (hw : HwInfo) (surf : Surface) : Except Trap (Int × Surface) :=
  islandsInit A hw (cikSurfaceSanity A hw) (cikSurfaceInit2dMiptrees A hw) surf

/-! ## The interface -/

/-- `enum radeon_family`. -/
inductive Chip
  | unknown | r600 | rv610 | rv630 | rv670 | rv620 | rv635 | rs780 | rs880 | rv770 | rv730 | rv710 | rv740
  | cedar | redwood | juniper | cypress | hemlock | palm | sumo | sumo2 | barts | turks | caicos | cayman | aruba
  | tahiti | pitcairn | verde | oland | hainan | bonaire | kaveri | kabini | hawaii | mullins | last
  deriving DecidableEq, Repr

/-- The families that have their own functions. -/
inductive Engine
  | r6
  | eg
  | si
  | cik
  deriving DecidableEq, Repr

def Chip.engine (chip : Chip) : Engine :=
  if chip.ctorIdx ≤ Chip.rv740.ctorIdx then .r6
  else if chip.ctorIdx ≤ Chip.aruba.ctorIdx then .eg
  else if chip.ctorIdx < Chip.bonaire.ctorIdx then .si
  else .cik

/-- `struct radeon_surface_manager`. -/
structure SurfaceManager where
  hwInfo : HwInfo
  family : Chip

/-- What the kernel answers: the family of the device, the tiling configuration, the minor version of the driver, and
    the two tables. -/
structure Kernel where
  family : Option Chip
  tilingConfig : Option (BitVec 32)
  versionMinor : Option Nat
  tileModes : Option (Nat → BitVec 32)
  macrotileModes : Option (Nat → BitVec 32)

/-- A code of the tiling configuration: what it stands for, and whether it is known. -/
def pick (table : List Nat) (unknown code : Nat) : Nat × Bool :=
  match table[code]? with
  | some value => (value, true)
  | none => (unknown, false)

/-- The driver is at least of this minor version. -/
def Kernel.atLeast (k : Kernel) (minor : Nat) : Bool := k.versionMinor.any (minor ≤ ·)

def r6InitHwInfo (k : Kernel) (tilingConfig : BitVec 32) : HwInfo :=
  let pipes := pick [1, 2, 4, 8] 8 (bitField tilingConfig 1 0x7)
  let banks := pick [4, 8] 8 (bitField tilingConfig 4 0x3)
  let group := pick [256, 512] 256 (bitField tilingConfig 6 0x3)
  { numPipes := pipes.1, numBanks := banks.1, groupBytes := group.1, rowSize := 0
    allow2d := k.atLeast 14 && pipes.2 && banks.2 && group.2
    tileModeArray := fun _ => 0, macrotileModeArray := fun _ => 0 }

/-- The later families, which differ in what makes 2D tiles possible and in the tables. -/
def laterInitHwInfo (possible : Bool) (tileModes macrotileModes : Nat → BitVec 32) (tilingConfig : BitVec 32) :
    HwInfo :=
  let pipes := pick [1, 2, 4, 8] 8 (bitField tilingConfig 0 0xf)
  let banks := pick [4, 8, 16] 8 (bitField tilingConfig 4 0xf)
  let group := pick [256, 512] 256 (bitField tilingConfig 8 0xf)
  let row := pick [1024, 2048, 4096] 4096 (bitField tilingConfig 12 0xf)
  { numPipes := pipes.1, numBanks := banks.1, groupBytes := group.1, rowSize := row.1
    allow2d := possible && pipes.2 && banks.2 && group.2 && row.2
    tileModeArray := tileModes, macrotileModeArray := macrotileModes }

def egInitHwInfo (k : Kernel) (tilingConfig : BitVec 32) : HwInfo :=
  laterInitHwInfo (k.atLeast 16) (fun _ => 0) (fun _ => 0) tilingConfig

def siInitHwInfo (k : Kernel) (tilingConfig : BitVec 32) : HwInfo :=
  let tileModes := if k.atLeast 33 then k.tileModes else none
  laterInitHwInfo tileModes.isSome (tileModes.getD fun _ => 0) (fun _ => 0) tilingConfig

def cikInitHwInfo (k : Kernel) (tilingConfig : BitVec 32) : HwInfo :=
  let tileModes := if k.atLeast 35 then k.tileModes else none
  let macrotileModes := if tileModes.isSome then k.macrotileModes else none
  laterInitHwInfo macrotileModes.isSome (tileModes.getD fun _ => 0) (macrotileModes.getD fun _ => 0) tilingConfig

def radeonSurfaceManagerNew (k : Kernel) : Option SurfaceManager := do
  let family ← k.family
  let tilingConfig ← k.tilingConfig
  let hwInfo := match family.engine with
    | .r6 => r6InitHwInfo k tilingConfig
    | .eg => egInitHwInfo k tilingConfig
    | .si => siInitHwInfo k tilingConfig
    | .cik => cikInitHwInfo k tilingConfig
  some { hwInfo := hwInfo, family := family }

/-- The check of the type: `none` if it fails, and otherwise the size of the array. -/
def typeArraySize (family : Chip) (type : Nat) (surf : Params) : Option Nat :=
  if type = RADEON_SURF_TYPE_1D then
    if 1 < surf.npixY ∨ 1 < surf.npixZ then none else some surf.arraySize
  else if type = RADEON_SURF_TYPE_2D then if 1 < surf.npixZ then none else some surf.arraySize
  else if type = RADEON_SURF_TYPE_CUBEMAP then
    if 1 < surf.npixZ then none else some (if Chip.rv770.ctorIdx ≤ family.ctorIdx then 8 else 6)
  else if type = RADEON_SURF_TYPE_3D then some surf.arraySize
  else if type = RADEON_SURF_TYPE_1D_ARRAY then if 1 < surf.npixY then none else some surf.arraySize
  else if type = RADEON_SURF_TYPE_2D_ARRAY then some surf.arraySize
  else none

def radeonSurfaceSanity (A : Width) (man : SurfaceManager) (surf : Surface) (type : Nat) :
    Except Trap (Int × Surface) :=
  if surf.npixX = 0 ∨ surf.npixY = 0 ∨ surf.npixZ = 0 then .ok (-EINVAL, surf)
  else if surf.blkW = 0 ∨ surf.blkH = 0 ∨ surf.blkD = 0 then .ok (-EINVAL, surf)
  else if surf.arraySize = 0 then .ok (-EINVAL, surf)
  else do
    let arraySize ← nextPowerOfTwo A surf.arraySize
    let surf := { surf with arraySize := arraySize }
    if surf.nsamples ∉ [1, 2, 4, 8] then .ok (-EINVAL, surf)
    else
      match typeArraySize man.family type surf.toParams with
      | none => .ok (-EINVAL, surf)
      | some arraySize => .ok (0, { surf with arraySize := arraySize })

/-- The function of the family. -/
def surfaceInit (A : Width) (man : SurfaceManager) (surf : Surface) : Except Trap (Int × Surface) :=
  match man.family.engine with
  | .r6 => r6SurfaceInit A man.hwInfo surf
  | .eg => egSurfaceInit A man.hwInfo surf
  | .si => siSurfaceInit A man.hwInfo surf
  | .cik => cikSurfaceInit A man.hwInfo surf

def radeonSurfaceInit (A : Width) (man : SurfaceManager) (surf : Surface) : Except Trap (Int × Surface) := do
  let (r, surf) ← radeonSurfaceSanity A man surf surf.getType
  if r ≠ 0 then .ok (r, surf) else surfaceInit A man surf

/-- A surface of one level and one sample, without tile parameters. -/
def Surface.plain (npixX npixY bpe : Nat) (flags : BitVec 32) : Surface where
  npixX := npixX
  npixY := npixY
  npixZ := 1
  blkW := 1
  blkH := 1
  blkD := 1
  arraySize := 1
  lastLevel := 0
  bpe := bpe
  nsamples := 1
  flags := flags
  bankw := 1
  bankh := 1
  mtilea := 1
  tileSplit := 0
  stencilTileSplit := 0
  boSize := 0
  boAlignment := 0
  stencilOffset := 0
  levels := fun _ _ => ⟨0, 0, 0, 0, 0, 0, 0, 0, 0, 0⟩
  tilingIndex := fun _ => 0
  stencilTilingIndex := fun _ => 0

end LibDrm.Mip
