/-
# `LibDrm.Exynos.Fimg2d` — the commands of the 2D engine

Each operation hands commands to `g2d_add_cmd`, which are collected until `g2d_flush` passes them to
the kernel.  A rectangle is programmed by two of them, for its left top and its right bottom corner; a
corner has 16 bits for each coordinate, and the right bottom corner is the first that is outside.

    function               rectangles             the sizes are
    g2d_solid_fill         destination            clipped at the image
    g2d_copy               source, destination    the smaller of the two
    g2d_copy_with_scale    source, destination    clipped at each image
    g2d_blend              source, destination    the smaller of the two, each clipped at its image

No result of `g2d_add_cmd` or `g2d_flush` is looked at.  All that was handed to `g2d_add_cmd` is kept
beside the state (`asked`: no data of the source), also what there was no room for.
-/
import Mathlib.Tactic.Common

namespace LibDrm.Exynos

abbrev Word := BitVec 32

def G2D_MAX_CMD_NR : Nat := 64
def G2D_MAX_GEM_CMD_NR : Nat := 64
def G2D_MAX_CMD_LIST_NR : Nat := 64

def EINVAL : Int := 22

/-! ## Registers -/

def SOFT_RESET_REG : Word := 0x0000
def BITBLT_COMMAND_REG : Word := 0x0104
def BLEND_FUNCTION_REG : Word := 0x0108
def SRC_SELECT_REG : Word := 0x0300
def SRC_BASE_ADDR_REG : Word := 0x0304
def SRC_STRIDE_REG : Word := 0x0308
def SRC_COLOR_MODE_REG : Word := 0x030c
def SRC_LEFT_TOP_REG : Word := 0x0310
def SRC_RIGHT_BOTTOM_REG : Word := 0x0314
def SRC_PLANE2_BASE_ADDR_REG : Word := 0x0318
def SRC_SCALE_CTRL_REG : Word := 0x0328
def SRC_XSCALE_REG : Word := 0x032C
def SRC_YSCALE_REG : Word := 0x0330
def DST_SELECT_REG : Word := 0x0400
def DST_BASE_ADDR_REG : Word := 0x0404
def DST_STRIDE_REG : Word := 0x0408
def DST_COLOR_MODE_REG : Word := 0x040C
def DST_LEFT_TOP_REG : Word := 0x0410
def DST_RIGHT_BOTTOM_REG : Word := 0x0414
def DST_PLANE2_BASE_ADDR_REG : Word := 0x0418
def PAT_BASE_ADDR_REG : Word := 0x0500
def MASK_BASE_ADDR_REG : Word := 0x0520
def ROP4_REG : Word := 0x0614
def FG_COLOR_REG : Word := 0x0700
def BG_COLOR_REG : Word := 0x0704
def SF_COLOR_REG : Word := 0x070C

def G2D_BUF_USERPTR : Word := 0x80000000

def G2D_SELECT_MODE_NORMAL : Word := 0
def G2D_SELECT_MODE_FGCOLOR : Word := 1
def G2D_SELECT_MODE_BGCOLOR : Word := 2

def G2D_SCALE_MODE_BILINEAR : Word := 2

def G2D_ROP3_DST : Word := 0xAA
def G2D_ROP3_SRC : Word := 0xCC

inductive BufType where
  | color
  | gem
  | userptr
  deriving DecidableEq, Repr

/-- `enum e_g2d_op`. -/
inductive Op where
  | clear
  | src
  | dst
  | over
  | disjointClear
  | disjointSrc
  | disjointDst
  | conjointClear
  | conjointSrc
  | conjointDst
  | other
  deriving DecidableEq, Repr

/-- `struct g2d_image`; `userPtr` is the lower half of the address of its first user pointer. -/
structure Image where
  selectMode : Word := G2D_SELECT_MODE_NORMAL
  colorMode : Word := 0
  width : Word
  height : Word
  stride : Word := 0
  color : Word := 0
  bufType : BufType := .gem
  bo : Word := 0
  userPtr : Word := 0
  deriving DecidableEq, Repr

/-- `struct drm_exynos_g2d_cmd`. -/
structure Cmd where
  offset : Word
  data : Word
  deriving DecidableEq, Repr

/-- `struct g2d_context`, and the kernel's replies to the coming submissions. -/
structure Context where
  cmd : List Cmd := []
  cmdBuf : List Cmd := []
  cmdlistNr : Nat := 0
  submitted : List (List Cmd × List Cmd) := []
  replies : List Int := []
  asked : List Cmd := []
  deriving DecidableEq, Repr

/-! ## Collecting commands -/

/-- The registers that take the address of a buffer. -/
def isBaseAddr (cmd : Word) : Bool :=
  cmd &&& ~~~G2D_BUF_USERPTR ∈
    [SRC_BASE_ADDR_REG, SRC_PLANE2_BASE_ADDR_REG, DST_BASE_ADDR_REG, DST_PLANE2_BASE_ADDR_REG, PAT_BASE_ADDR_REG,
      MASK_BASE_ADDR_REG]

/-- What there is no room for is dropped, and -EINVAL returned, which no caller looks at. -/
def g2d_add_cmd (ctx : Context) (cmd value : Word) : Context :=
  let ctx := { ctx with asked := ctx.asked ++ [⟨cmd, value⟩] }
  if isBaseAddr cmd then
    if ctx.cmdBuf.length ≥ G2D_MAX_GEM_CMD_NR then ctx
    else { ctx with cmdBuf := ctx.cmdBuf ++ [⟨cmd, value⟩] }
  else
    if ctx.cmd.length ≥ G2D_MAX_CMD_NR then ctx
    else { ctx with cmd := ctx.cmd ++ [⟨cmd, value⟩] }

def g2d_reset (ctx : Context) : Context :=
  g2d_add_cmd { ctx with cmd := [], cmdBuf := [] } SOFT_RESET_REG 0x01

def g2d_flush (ctx : Context) : Int × Context :=
  if ctx.cmd = [] ∧ ctx.cmdBuf = [] then (-1, ctx)
  else if ctx.cmdlistNr ≥ G2D_MAX_CMD_LIST_NR then (-EINVAL, ctx)
  else
    let ret := ctx.replies.headD 0
    let ctx := { ctx with
      submitted := ctx.submitted ++ [(ctx.cmd, ctx.cmdBuf)]
      replies := ctx.replies.tail
      cmd := []
      cmdBuf := [] }
    if ret < 0 then (ret, ctx) else (ret, { ctx with cmdlistNr := ctx.cmdlistNr + 1 })

/-- `union g2d_point_val`: two fields of 16 bits. -/
def point (x y : Word) : Word := y.setWidth 16 ++ x.setWidth 16

/-- `union g2d_rop4_val` with only `unmasked_rop3` set. -/
def rop4 (rop3 : Word) : Word := rop3 &&& 0xFF

/-- The bits of `union g2d_bitblt_cmd_val` that are set below. -/
def fastSolidColorFillEn : Word := 1 <<< 28

def alphaBlendModeEnable : Word := 1 <<< 20

/-- `SET_BF`. -/
def SET_BF (sc si scsa scda dc di dcsa dcda : Word) : Word :=
  sc ||| scsa <<< 4 ||| scda <<< 6 ||| dc <<< 8 ||| dcsa <<< 12 ||| dcda <<< 14 ||| si <<< 16 ||| di <<< 18

def G2D_COEFF_MODE_ONE : Word := 0
def G2D_COEFF_MODE_ZERO : Word := 1
def G2D_COEFF_MODE_SRC_ALPHA : Word := 2

def g2d_get_blend_op : Op → Word
  | .clear | .disjointClear | .conjointClear => SET_BF G2D_COEFF_MODE_ZERO 0 0 0 G2D_COEFF_MODE_ZERO 0 0 0
  | .src | .disjointSrc | .conjointSrc => SET_BF G2D_COEFF_MODE_ONE 0 0 0 G2D_COEFF_MODE_ZERO 0 0 0
  | .dst | .disjointDst | .conjointDst => SET_BF G2D_COEFF_MODE_ZERO 0 0 0 G2D_COEFF_MODE_ONE 0 0 0
  | .over => SET_BF G2D_COEFF_MODE_ONE 0 0 0 G2D_COEFF_MODE_SRC_ALPHA 1 0 0
  | .other => SET_BF G2D_COEFF_MODE_ONE 0 0 0 G2D_COEFF_MODE_ZERO 0 0 0

/-! ## The operations -/

/-- The commands for the buffer of an image, as they are repeated in every operation. -/
def addBase (ctx : Context) (reg : Word) (img : Image) : Context :=
  if img.bufType = .userptr then g2d_add_cmd ctx (reg ||| G2D_BUF_USERPTR) img.userPtr
  else g2d_add_cmd ctx reg img.bo

/-- `if (x + w > width) w = width - x;`, in 32 bits. -/
def clip (x w width : Word) : Word := if x + w > width then width - x else w

/-- `MIN`. -/
def MIN (a b : Word) : Word := if a < b then a else b

def g2d_solid_fill (ctx : Context) (img : Image) (x y w h : Word) : Int × Context :=
  let ctx := g2d_add_cmd ctx DST_SELECT_REG G2D_SELECT_MODE_NORMAL
  let ctx := g2d_add_cmd ctx DST_COLOR_MODE_REG img.colorMode
  let ctx := addBase ctx DST_BASE_ADDR_REG img
  let ctx := g2d_add_cmd ctx DST_STRIDE_REG img.stride
  let w := clip x w img.width
  let h := clip y h img.height
  let ctx := g2d_add_cmd ctx DST_LEFT_TOP_REG (point x y)
  let ctx := g2d_add_cmd ctx DST_RIGHT_BOTTOM_REG (point (x + w) (y + h))
  let ctx := g2d_add_cmd ctx SF_COLOR_REG img.color
  let ctx := g2d_add_cmd ctx BITBLT_COMMAND_REG fastSolidColorFillEn
  (0, (g2d_flush ctx).2)

def g2d_copy (ctx : Context) (src dst : Image) (src_x src_y dst_x dst_y w h : Word) : Int × Context :=
  let ctx := g2d_add_cmd ctx DST_SELECT_REG G2D_SELECT_MODE_BGCOLOR
  let ctx := g2d_add_cmd ctx DST_COLOR_MODE_REG dst.colorMode
  let ctx := addBase ctx DST_BASE_ADDR_REG dst
  let ctx := g2d_add_cmd ctx DST_STRIDE_REG dst.stride
  let ctx := g2d_add_cmd ctx SRC_SELECT_REG G2D_SELECT_MODE_NORMAL
  let ctx := g2d_add_cmd ctx SRC_COLOR_MODE_REG src.colorMode
  let ctx := addBase ctx SRC_BASE_ADDR_REG src
  let ctx := g2d_add_cmd ctx SRC_STRIDE_REG src.stride
  let src_w := if src_x + src.width > w then src.width - src_x else w
  let src_h := if src_y + src.height > h then src.height - src_y else h
  let dst_w := if dst_x + dst.width > w then dst.width - dst_x else w
  -- the height of the destination starts from `w`
  let dst_h := if dst_y + dst.height > h then dst.height - dst_y else w
  let w := MIN src_w dst_w
  let h := MIN src_h dst_h
  if w = 0 ∨ h = 0 then (-EINVAL, g2d_reset ctx)
  else
    let ctx := g2d_add_cmd ctx SRC_LEFT_TOP_REG (point src_x src_y)
    let ctx := g2d_add_cmd ctx SRC_RIGHT_BOTTOM_REG (point (src_x + w) (src_y + h))
    let ctx := g2d_add_cmd ctx DST_LEFT_TOP_REG (point dst_x dst_y)
    let ctx := g2d_add_cmd ctx DST_RIGHT_BOTTOM_REG (point (dst_x + w) (dst_y + h))
    let ctx := g2d_add_cmd ctx ROP4_REG (rop4 G2D_ROP3_SRC)
    (0, (g2d_flush ctx).2)

/-- `fixed a b` is the quotient of two sizes, computed in floating point and then turned into fixed point. -/
def g2d_copy_with_scale (fixed : Word → Word → Word) (ctx : Context) (src dst : Image)
    (src_x src_y src_w src_h dst_x dst_y dst_w dst_h negative : Word) : Int × Context :=
  let ctx := g2d_add_cmd ctx DST_SELECT_REG G2D_SELECT_MODE_BGCOLOR
  let ctx := g2d_add_cmd ctx DST_COLOR_MODE_REG dst.colorMode
  let ctx := addBase ctx DST_BASE_ADDR_REG dst
  let ctx := g2d_add_cmd ctx DST_STRIDE_REG dst.stride
  let ctx := g2d_add_cmd ctx SRC_SELECT_REG G2D_SELECT_MODE_NORMAL
  let ctx := g2d_add_cmd ctx SRC_COLOR_MODE_REG src.colorMode
  let ctx := addBase ctx SRC_BASE_ADDR_REG src
  let ctx := g2d_add_cmd ctx SRC_STRIDE_REG src.stride
  let scale := ¬ (src_w = dst_w ∧ src_h = dst_h)
  let scale_x := fixed src_w dst_w
  let scale_y := fixed src_h dst_h
  let src_w := clip src_x src_w src.width
  let src_h := clip src_y src_h src.height
  let dst_w := clip dst_x dst_w dst.width
  let dst_h := clip dst_y dst_h dst.height
  if src_w = 0 ∨ src_h = 0 ∨ dst_w = 0 ∨ dst_h = 0 then (-EINVAL, g2d_reset ctx)
  else
    let ctx :=
      if negative ≠ 0 then
        g2d_add_cmd (g2d_add_cmd ctx BG_COLOR_REG 0x00FFFFFF) ROP4_REG (rop4 (G2D_ROP3_SRC ^^^ G2D_ROP3_DST))
      else g2d_add_cmd ctx ROP4_REG (rop4 G2D_ROP3_SRC)
    let ctx :=
      if scale then
        let ctx := g2d_add_cmd ctx SRC_SCALE_CTRL_REG G2D_SCALE_MODE_BILINEAR
        let ctx := g2d_add_cmd ctx SRC_XSCALE_REG scale_x
        g2d_add_cmd ctx SRC_YSCALE_REG scale_y
      else ctx
    let ctx := g2d_add_cmd ctx SRC_LEFT_TOP_REG (point src_x src_y)
    let ctx := g2d_add_cmd ctx SRC_RIGHT_BOTTOM_REG (point (src_x + src_w) (src_y + src_h))
    let ctx := g2d_add_cmd ctx DST_LEFT_TOP_REG (point dst_x dst_y)
    let ctx := g2d_add_cmd ctx DST_RIGHT_BOTTOM_REG (point (dst_x + dst_w) (dst_y + dst_h))
    (0, (g2d_flush ctx).2)

/-- The commands for the source of a blend, for the modes that there are. -/
def selectSource (ctx : Context) (src : Image) : Option Context :=
  if src.selectMode = G2D_SELECT_MODE_NORMAL then
    some (g2d_add_cmd (addBase ctx SRC_BASE_ADDR_REG src) SRC_STRIDE_REG src.stride)
  else if src.selectMode = G2D_SELECT_MODE_FGCOLOR then some (g2d_add_cmd ctx FG_COLOR_REG src.color)
  else if src.selectMode = G2D_SELECT_MODE_BGCOLOR then some (g2d_add_cmd ctx BG_COLOR_REG src.color)
  else none

def g2d_blend (ctx : Context) (src dst : Image) (src_x src_y dst_x dst_y w h : Word) (op : Op) : Int × Context :=
  let ctx :=
    if op = .src ∨ op = .clear then g2d_add_cmd ctx DST_SELECT_REG G2D_SELECT_MODE_BGCOLOR
    else g2d_add_cmd ctx DST_SELECT_REG G2D_SELECT_MODE_NORMAL
  let ctx := g2d_add_cmd ctx DST_COLOR_MODE_REG dst.colorMode
  let ctx := addBase ctx DST_BASE_ADDR_REG dst
  let ctx := g2d_add_cmd ctx DST_STRIDE_REG dst.stride
  let ctx := g2d_add_cmd ctx SRC_SELECT_REG src.selectMode
  let ctx := g2d_add_cmd ctx SRC_COLOR_MODE_REG src.colorMode
  match selectSource ctx src with
  | none => (-EINVAL, ctx)
  | some ctx =>
      let w' := MIN (clip src_x w src.width) (clip dst_x w dst.width)
      let h' := MIN (clip src_y h src.height) (clip dst_y h dst.height)
      if w' = 0 ∨ h' = 0 then (-EINVAL, g2d_reset ctx)
      else
        let ctx := g2d_add_cmd ctx BITBLT_COMMAND_REG alphaBlendModeEnable
        let ctx := g2d_add_cmd ctx BLEND_FUNCTION_REG (g2d_get_blend_op op)
        let ctx := g2d_add_cmd ctx SRC_LEFT_TOP_REG (point src_x src_y)
        let ctx := g2d_add_cmd ctx SRC_RIGHT_BOTTOM_REG (point (src_x + w') (src_y + h'))
        let ctx := g2d_add_cmd ctx DST_LEFT_TOP_REG (point dst_x dst_y)
        let ctx := g2d_add_cmd ctx DST_RIGHT_BOTTOM_REG (point (dst_x + w') (dst_y + h'))
        (0, (g2d_flush ctx).2)

end LibDrm.Exynos
