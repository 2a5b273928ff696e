/-
# `LibDrm.Exynos.Clip` — which rectangles the 2D engine gets

A rectangle should lie in its image, start at the corner that was asked for, not be empty, and not be
larger than was asked for.  Each operation achieves that under a condition of its own, which is about
one axis at a time; the sums are those of unbounded numbers:

    g2d_solid_fill         pos + asked < 2^32,  pos < min(pos + asked, size) mod 2^16         (`Cut`)
    g2d_copy_with_scale    the same for source and destination, or it is rejected
    g2d_blend              the smallest of `asked` and what is left of each image fits        (`BlendRight`)
    g2d_copy               what is left of the images fits, although `asked` is not looked at (`CopyRight`)

`g2d_copy` compares `pos + size` with `asked`, where the others compare `pos + asked` with `size`: it
takes all that is left of an image that is larger than what was asked for.
-/
import LibDrm.Exynos.Fimg2d
import Mathlib.Data.Nat.ModEq

namespace LibDrm.Exynos

/-! ## What is programmed -/

/-- The value that a register was given last. -/
def Context.register (ctx : Context) (reg : Word) : Option Word :=
  (ctx.asked.reverse.find? fun c => c.offset = reg).map Cmd.data

structure Rect where
  left : Nat
  top : Nat
  right : Nat
  bottom : Nat
  deriving DecidableEq, Repr

/-- The fields of `union g2d_point_val`. -/
def pointX (v : Word) : Nat := (v.setWidth 16).toNat

def pointY (v : Word) : Nat := (v >>> 16).toNat

def Context.rect (ctx : Context) (leftTop rightBottom : Word) : Option Rect := do
  let lt ← ctx.register leftTop
  let rb ← ctx.register rightBottom
  return ⟨pointX lt, pointY lt, pointX rb, pointY rb⟩

def Context.source (ctx : Context) : Option Rect := ctx.rect SRC_LEFT_TOP_REG SRC_RIGHT_BOTTOM_REG

def Context.destination (ctx : Context) : Option Rect := ctx.rect DST_LEFT_TOP_REG DST_RIGHT_BOTTOM_REG

/-- The rectangle is a part of the image that was asked for. -/
structure Rect.Clipped (r : Rect) (img : Image) (x y w h : Word) : Prop where
  left : r.left = x.toNat
  top : r.top = y.toNat
  wide : r.left < r.right
  high : r.top < r.bottom
  right : r.right ≤ img.width.toNat
  bottom : r.bottom ≤ img.height.toNat
  width : r.right - r.left ≤ w.toNat
  height : r.bottom - r.top ≤ h.toNat

structure Rect.SameSize (r s : Rect) : Prop where
  width : r.right - r.left = s.right - s.left
  height : r.bottom - r.top = s.bottom - s.top

/-- The corners of a rectangle, as far as they have room. -/
def rectAt (x y w h : Word) : Rect :=
  ⟨x.toNat % 2 ^ 16, y.toNat % 2 ^ 16, (x + w).toNat % 2 ^ 16, (y + h).toNat % 2 ^ 16⟩

section Registers

variable {ctx : Context} {reg cmd value : Word} {img : Image} {x y w h : Word}

theorem register_add_cmd :
    (g2d_add_cmd ctx cmd value).register reg = if cmd = reg then some value else ctx.register reg := by
  have hasked : (g2d_add_cmd ctx cmd value).asked = ctx.asked ++ [⟨cmd, value⟩] := by
    unfold g2d_add_cmd
    dsimp only
    split <;> split <;> rfl
  unfold Context.register
  rw [hasked, List.reverse_append, List.reverse_singleton, List.singleton_append, List.find?_cons]
  by_cases h : cmd = reg <;> simp [h]

@[simp] theorem register_same : (g2d_add_cmd ctx cmd value).register cmd = some value := by
  rw [register_add_cmd, if_pos rfl]

@[simp] theorem register_flush : (g2d_flush ctx).2.register reg = ctx.register reg := by
  unfold g2d_flush
  split
  · rfl
  · split
    · rfl
    · dsimp only
      split <;> rfl

theorem toNat_point : (point x y).toNat = y.toNat % 2 ^ 16 * 2 ^ 16 + x.toNat % 2 ^ 16 := by
  have hlt : x.toNat % 2 ^ 16 < 2 ^ 16 := Nat.mod_lt _ (by decide)
  unfold point
  rw [BitVec.toNat_append, BitVec.toNat_setWidth, BitVec.toNat_setWidth, ← Nat.shiftLeft_add_eq_or_of_lt hlt,
    Nat.shiftLeft_eq]

theorem pointX_point : pointX (point x y) = x.toNat % 2 ^ 16 := by
  unfold pointX
  rw [BitVec.toNat_setWidth, toNat_point]
  omega

theorem pointY_point : pointY (point x y) = y.toNat % 2 ^ 16 := by
  unfold pointY
  rw [BitVec.toNat_ushiftRight, toNat_point, Nat.shiftRight_eq_div_pow]
  omega

/-- Two corners that are given one after the other. -/
theorem rect_corners {leftTop rightBottom : Word} (hlt : ctx.register leftTop = some (point x y))
    (hrb : ctx.register rightBottom = some (point (x + w) (y + h))) :
    ctx.rect leftTop rightBottom = some (rectAt x y w h) := by
  simp only [Context.rect, hlt, hrb, Option.bind_eq_bind, Option.bind_some, Option.pure_def, pointX_point, pointY_point]
  rfl

end Registers

/-! ## What each operation programs -/

section Operations

variable {ctx : Context} {img src dst : Image} {x y w h src_x src_y dst_x dst_y src_w src_h dst_w dst_h negative : Word}

/-- The source and the destination of one operation. -/
structure Context.Programs (ctx : Context) (s d : Rect) : Prop where
  source : ctx.source = some s
  destination : ctx.destination = some d

/-- A source and a destination are programmed, unless the operation is rejected. -/
def Outcome (result : Int × Context) (rejected : Prop) (s d : Rect) : Prop :=
  rejected ∧ result.1 ≠ 0 ∨ ¬ rejected ∧ result.1 = 0 ∧ result.2.Programs s d

theorem neg_EINVAL : -EINVAL ≠ 0 := by decide

theorem g2d_solid_fill_spec (ctx : Context) (img : Image) (x y w h : Word) : (g2d_solid_fill ctx img x y w h).1 = 0 ∧
    (g2d_solid_fill ctx img x y w h).2.destination = some (rectAt x y (clip x w img.width) (clip y h img.height)) := by
  refine ⟨rfl, rect_corners ?_ ?_⟩ <;>
    simp [g2d_solid_fill, register_add_cmd, BITBLT_COMMAND_REG, SF_COLOR_REG, DST_RIGHT_BOTTOM_REG, DST_LEFT_TOP_REG]

/-- The width and the height that a copy takes. -/
def copyWidth (src dst : Image) (src_x dst_x w : Word) : Word :=
  MIN (if src_x + src.width > w then src.width - src_x else w) (if dst_x + dst.width > w then dst.width - dst_x else w)

def copyHeight (src dst : Image) (src_y dst_y w h : Word) : Word :=
  MIN (if src_y + src.height > h then src.height - src_y else h)
    (if dst_y + dst.height > h then dst.height - dst_y else w)

/-- The width and the height that a blend takes. -/
def blendWidth (src dst : Image) (src_x dst_x w : Word) : Word := MIN (clip src_x w src.width) (clip dst_x w dst.width)

def blendHeight (src dst : Image) (src_y dst_y h : Word) : Word :=
  MIN (clip src_y h src.height) (clip dst_y h dst.height)

theorem g2d_copy_spec {W H : Word} (hW : copyWidth src dst src_x dst_x w = W)
    (hH : copyHeight src dst src_y dst_y w h = H) :
    Outcome (g2d_copy ctx src dst src_x src_y dst_x dst_y w h) (W = 0 ∨ H = 0) (rectAt src_x src_y W H)
      (rectAt dst_x dst_y W H) := by
  unfold copyWidth at hW
  unfold copyHeight at hH
  unfold g2d_copy
  simp only [hW, hH]
  split
  · next hnone => exact .inl ⟨hnone, neg_EINVAL⟩
  · next hsome =>
    refine .inr ⟨hsome, rfl, rect_corners ?_ ?_, rect_corners ?_ ?_⟩ <;>
      simp [register_add_cmd, ROP4_REG, DST_RIGHT_BOTTOM_REG, DST_LEFT_TOP_REG, SRC_RIGHT_BOTTOM_REG, SRC_LEFT_TOP_REG]

theorem g2d_copy_with_scale_spec {fixed : Word → Word → Word} {sW sH dW dH : Word} (hsW : clip src_x src_w src.width = sW)
    (hsH : clip src_y src_h src.height = sH) (hdW : clip dst_x dst_w dst.width = dW)
    (hdH : clip dst_y dst_h dst.height = dH) :
    Outcome (g2d_copy_with_scale fixed ctx src dst src_x src_y src_w src_h dst_x dst_y dst_w dst_h negative)
      (sW = 0 ∨ sH = 0 ∨ dW = 0 ∨ dH = 0) (rectAt src_x src_y sW sH) (rectAt dst_x dst_y dW dH) := by
  unfold g2d_copy_with_scale
  simp only [hsW, hsH, hdW, hdH]
  split
  · next hnone => exact .inl ⟨hnone, neg_EINVAL⟩
  · next hsome =>
    refine .inr ⟨hsome, rfl, rect_corners ?_ ?_, rect_corners ?_ ?_⟩ <;>
      simp [register_add_cmd, DST_RIGHT_BOTTOM_REG, DST_LEFT_TOP_REG, SRC_RIGHT_BOTTOM_REG, SRC_LEFT_TOP_REG]

/-- The modes of a source that a blend knows. -/
def Image.Selectable (src : Image) : Prop :=
  src.selectMode ∈ [G2D_SELECT_MODE_NORMAL, G2D_SELECT_MODE_FGCOLOR, G2D_SELECT_MODE_BGCOLOR]

theorem selectSource_spec (ctx : Context) (src : Image) :
    ¬ src.Selectable ∧ selectSource ctx src = none ∨ src.Selectable ∧ ∃ ctx', selectSource ctx src = some ctx' := by
  unfold selectSource Image.Selectable
  split_ifs <;> simp_all

theorem g2d_blend_spec {op : Op} {W H : Word} (hW : blendWidth src dst src_x dst_x w = W)
    (hH : blendHeight src dst src_y dst_y h = H) :
    Outcome (g2d_blend ctx src dst src_x src_y dst_x dst_y w h op) (¬ src.Selectable ∨ W = 0 ∨ H = 0)
      (rectAt src_x src_y W H) (rectAt dst_x dst_y W H) := by
  unfold blendWidth at hW
  unfold blendHeight at hH
  unfold g2d_blend
  simp only [hW, hH]
  generalize g2d_add_cmd _ SRC_COLOR_MODE_REG _ = ctx₁
  rcases selectSource_spec ctx₁ src with ⟨hnot, hnone⟩ | ⟨hsel, ctx₂, hsome⟩
  · rw [hnone]
    exact .inl ⟨.inl hnot, neg_EINVAL⟩
  · rw [hsome]
    dsimp only
    split
    · next hnone => exact .inl ⟨.inr hnone, neg_EINVAL⟩
    · next hsize =>
      refine .inr ⟨fun h => h.elim (· hsel) hsize, rfl, rect_corners ?_ ?_, rect_corners ?_ ?_⟩ <;>
        simp [register_add_cmd, DST_RIGHT_BOTTOM_REG, DST_LEFT_TOP_REG, SRC_RIGHT_BOTTOM_REG, SRC_LEFT_TOP_REG]

end Operations

/-! ## One axis -/

/-- The part of `Rect.Clipped` that is about one axis. -/
structure Fits (pos length size asked : Word) : Prop where
  start : pos.toNat % 2 ^ 16 = pos.toNat
  some : pos.toNat % 2 ^ 16 < (pos + length).toNat % 2 ^ 16
  inside : (pos + length).toNat % 2 ^ 16 ≤ size.toNat
  length : (pos + length).toNat % 2 ^ 16 - pos.toNat % 2 ^ 16 ≤ asked.toNat

theorem clipped_rectAt {img : Image} {x y w h W H : Word} :
    (rectAt x y W H).Clipped img x y w h ↔ Fits x W img.width w ∧ Fits y H img.height h :=
  ⟨fun c => ⟨⟨c.left, c.wide, c.right, c.width⟩, ⟨c.top, c.high, c.bottom, c.height⟩⟩,
    fun ⟨a, b⟩ => ⟨a.start, b.start, a.some, b.some, a.inside, b.inside, a.length, b.length⟩⟩

/-- Clipping an axis is right: the sum does not wrap, and the far edge, as far as there is room for it, is beyond
    the corner. -/
def Cut (pos asked size : Nat) : Prop := pos + asked < 2 ^ 32 ∧ pos < min (pos + asked) size % 2 ^ 16

/-- Clipping an axis leaves nothing. -/
def Nothing (pos asked size : Nat) : Prop := asked = 0 ∧ pos ≤ size ∨ pos = size ∧ pos + asked < 2 ^ 32

/-- A rectangle of the given length, as far as there is room for its far edge. -/
def Held (pos length size asked : Nat) : Prop :=
  pos < (pos + length) % 2 ^ 16 ∧ (pos + length) % 2 ^ 16 ≤ min size (pos + asked)

/-- The far edges of two rectangles of the given length lose the same. -/
def Alike (pos₁ pos₂ length : Nat) : Prop := (pos₁ + length) / 2 ^ 16 = (pos₂ + length) / 2 ^ 16

/-- A rectangle of the given length in each of two images. -/
def Both (length asked sPos sSize dPos dSize : Nat) : Prop :=
  Held sPos length sSize asked ∧ Held dPos length dSize asked ∧ Alike sPos dPos length

/-- What is left of an image, and at most what was asked for: unless the sum wraps. -/
def left (pos asked size : Nat) : Nat := if pos + asked < 2 ^ 32 then min asked (size - pos) else asked

/-- A blend is right along one axis: what was asked for, or what is left of one of the images if that is less. -/
def BlendRight (asked sPos sSize dPos dSize : Nat) : Prop :=
  sPos < sSize ∧ dPos < dSize ∧ Both (min (left sPos asked sSize) (left dPos asked dSize)) asked sPos sSize dPos dSize

/-- What is left of an image that reaches beyond `asked`; for another one it is `start`. -/
def rest (pos asked size start : Nat) : Nat := if asked < (pos + size) % 2 ^ 32 then size - pos else start

/-- A copy is right along one axis: `start` is what the length in the destination starts from. -/
def CopyRight (start asked sPos sSize dPos dSize : Nat) : Prop :=
  sPos < sSize ∧ dPos < dSize ∧
    Both (min (rest sPos asked sSize asked) (rest dPos asked dSize start)) asked sPos sSize dPos dSize

/-- Nothing is left of an image that reaches beyond `asked`; for another one `start` is nothing. -/
def NoRest (pos asked size start : Nat) : Prop := if asked < (pos + size) % 2 ^ 32 then pos = size else start = 0

section Axis

variable {pos asked size start length sPos sSize dPos dSize : Word}

/-- The far edge of a length that was clipped. -/
theorem add_clip : (pos + clip pos asked size).toNat =
    if size.toNat < (pos.toNat + asked.toNat) % 2 ^ 32 then size.toNat else (pos.toNat + asked.toNat) % 2 ^ 32 := by
  have hcond : pos + asked > size ↔ size.toNat < (pos.toNat + asked.toNat) % 2 ^ 32 := by
    rw [gt_iff_lt, BitVec.lt_def, BitVec.toNat_add]
  unfold clip
  by_cases h : pos + asked > size
  · rw [if_pos h, if_pos (hcond.mp h), BitVec.add_comm, BitVec.sub_add_cancel]
  · rw [if_neg h, if_neg (hcond.not.mp h), BitVec.toNat_add]

theorem fits_clip : Fits pos (clip pos asked size) size asked ↔ Cut pos.toNat asked.toNat size.toNat := by
  have hpos := pos.isLt
  have hasked := asked.isLt
  have hsize := size.isLt
  unfold Cut
  constructor
  · rintro ⟨hstart, hsome, hinside, hlength⟩
    rw [add_clip] at *
    split at hsome <;> omega
  · rintro ⟨hwrap, hlt⟩
    constructor <;> (try rw [add_clip]) <;> (try split) <;> omega

theorem fits_iff : Fits pos length size asked ↔ Held pos.toNat length.toNat size.toNat asked.toNat := by
  have hadd : (pos + length).toNat % 2 ^ 16 = (pos.toNat + length.toNat) % 2 ^ 16 := by
    rw [BitVec.toNat_add]
    omega
  unfold Held
  constructor
  · rintro ⟨hstart, hsome, hinside, hlength⟩
    rw [hadd] at *
    omega
  · intro h
    constructor <;> (try rw [hadd]) <;> omega

theorem word_eq_zero : pos = 0 ↔ pos.toNat = 0 := BitVec.toNat_eq

theorem clip_eq_zero : clip pos asked size = 0 ↔ Nothing pos.toNat asked.toNat size.toNat := by
  have hpos := pos.isLt
  have hasked := asked.isLt
  have hsize := size.isLt
  unfold clip Nothing
  split <;> next h =>
    rw [gt_iff_lt, BitVec.lt_def, BitVec.toNat_add] at h
    rw [word_eq_zero]
    try rw [BitVec.toNat_sub]
    omega

theorem toNat_MIN : (MIN pos size).toNat = min pos.toNat size.toNat := by
  unfold MIN
  split <;> next h =>
    rw [BitVec.lt_def] at h
    omega

theorem MIN_eq_zero : MIN pos size = 0 ↔ pos = 0 ∨ size = 0 := by
  rw [word_eq_zero, toNat_MIN, word_eq_zero, word_eq_zero]
  omega

/-- In an image, the clipped length is what is left. -/
theorem toNat_clip (h : pos.toNat < size.toNat) :
    (clip pos asked size).toNat = left pos.toNat asked.toNat size.toNat := by
  have hasked := asked.isLt
  unfold clip left
  split <;> next hlt =>
    rw [gt_iff_lt, BitVec.lt_def, BitVec.toNat_add] at hlt
    try rw [BitVec.toNat_sub]
    split <;> omega

theorem toNat_rest (h : pos.toNat < size.toNat) : (if pos + size > asked then size - pos else start).toNat =
    rest pos.toNat asked.toNat size.toNat start.toNat := by
  unfold rest
  split <;> next hlt =>
    rw [gt_iff_lt, BitVec.lt_def, BitVec.toNat_add] at hlt
    try rw [BitVec.toNat_sub]
    split <;> omega

theorem rest_eq_zero : (if pos + size > asked then size - pos else start) = 0 ↔
    NoRest pos.toNat asked.toNat size.toNat start.toNat := by
  have hpos := pos.isLt
  have hsize := size.isLt
  unfold NoRest
  split <;> next hlt =>
    rw [gt_iff_lt, BitVec.lt_def, BitVec.toNat_add] at hlt
    rw [word_eq_zero]
    try rw [BitVec.toNat_sub]
    split <;> omega

theorem Held.pos_lt {pos length size asked : Nat} (h : Held pos length size asked) : pos < size := by
  unfold Held at h
  omega

/-- Two rectangles of one length have the same length also as far as there is room for them. -/
theorem both_iff : Both length.toNat asked.toNat sPos.toNat sSize.toNat dPos.toNat dSize.toNat ↔
    Fits sPos length sSize asked ∧ Fits dPos length dSize asked ∧
      (sPos + length).toNat % 2 ^ 16 - sPos.toNat % 2 ^ 16 = (dPos + length).toNat % 2 ^ 16 - dPos.toNat % 2 ^ 16 := by
  unfold Both
  rw [fits_iff, fits_iff, BitVec.toNat_add, BitVec.toNat_add]
  refine and_congr_right fun hs => and_congr_right fun hd => ?_
  unfold Held at hs hd
  unfold Alike
  omega

theorem blendRight_iff : BlendRight asked.toNat sPos.toNat sSize.toNat dPos.toNat dSize.toNat ↔
    Both (MIN (clip sPos asked sSize) (clip dPos asked dSize)).toNat asked.toNat sPos.toNat sSize.toNat dPos.toNat
      dSize.toNat := by
  unfold BlendRight
  constructor
  · rintro ⟨hs, hd, h⟩
    rwa [toNat_MIN, toNat_clip hs, toNat_clip hd]
  · intro h
    have hs := h.1.pos_lt
    have hd := h.2.1.pos_lt
    rw [toNat_MIN, toNat_clip hs, toNat_clip hd] at h
    exact ⟨hs, hd, h⟩

theorem copyRight_iff : CopyRight start.toNat asked.toNat sPos.toNat sSize.toNat dPos.toNat dSize.toNat ↔
    Both (MIN (if sPos + sSize > asked then sSize - sPos else asked)
      (if dPos + dSize > asked then dSize - dPos else start)).toNat asked.toNat sPos.toNat sSize.toNat dPos.toNat
        dSize.toNat := by
  unfold CopyRight
  constructor
  · rintro ⟨hs, hd, h⟩
    rwa [toNat_MIN, toNat_rest hs, toNat_rest hd]
  · intro h
    have hs := h.1.pos_lt
    have hd := h.2.1.pos_lt
    rw [toNat_MIN, toNat_rest hs, toNat_rest hd] at h
    exact ⟨hs, hd, h⟩

end Axis

/-! ## The operations -/

/-- If the fill returns 0, its rectangle is right. -/
def FillRight (result : Int × Context) (img : Image) (x y w h : Word) : Prop :=
  result.1 = 0 → ∃ d, result.2.destination = some d ∧ d.Clipped img x y w h

/-- If the operation returns 0, both rectangles are right; with `same`, and of the same size. -/
def PairRight (same : Prop) (result : Int × Context) (src dst : Image)
    (src_x src_y src_w src_h dst_x dst_y dst_w dst_h : Word) : Prop :=
  result.1 = 0 → ∃ s d, result.2.Programs s d ∧ s.Clipped src src_x src_y src_w src_h ∧
    d.Clipped dst dst_x dst_y dst_w dst_h ∧ (same → s.SameSize d)

section Right

variable {ctx : Context} {result : Int × Context} {img src dst : Image} {same : Prop}
  {x y w h W H src_x src_y dst_x dst_y src_w src_h dst_w dst_h sW sH dW dH : Word}

theorem Context.Programs.unique {s d s' d' : Rect} (h : ctx.Programs s d) (h' : ctx.Programs s' d') : s' = s ∧ d' = d :=
  ⟨Option.some.inj (h'.source.symm.trans h.source), Option.some.inj (h'.destination.symm.trans h.destination)⟩

/-- A pair is right if it is rejected, or its rectangles are right. -/
theorem Outcome.right {rejected : Prop} {s d : Rect} (h : Outcome result rejected s d) :
    PairRight same result src dst src_x src_y src_w src_h dst_x dst_y dst_w dst_h ↔
      rejected ∨ s.Clipped src src_x src_y src_w src_h ∧ d.Clipped dst dst_x dst_y dst_w dst_h ∧ (same → s.SameSize d) := by
  rcases h with ⟨hrejected, hret⟩ | ⟨haccepted, hret, hprog⟩
  · exact ⟨fun _ => .inl hrejected, fun _ hzero => absurd hzero hret⟩
  · constructor
    · intro hright
      obtain ⟨s', d', hprog', hrest⟩ := hright hret
      obtain ⟨rfl, rfl⟩ := hprog.unique hprog'
      exact .inr hrest
    · rintro (hrejected | hrest) _
      · exact absurd hrejected haccepted
      · exact ⟨s, d, hprog, hrest⟩

/-- Two rectangles of one size are right if their axes are. -/
theorem pair_both : (rectAt src_x src_y W H).Clipped src src_x src_y w h ∧ (rectAt dst_x dst_y W H).Clipped dst dst_x dst_y w h ∧
      (True → (rectAt src_x src_y W H).SameSize (rectAt dst_x dst_y W H)) ↔
    Both W.toNat w.toNat src_x.toNat src.width.toNat dst_x.toNat dst.width.toNat ∧
      Both H.toNat h.toNat src_y.toNat src.height.toNat dst_y.toNat dst.height.toNat := by
  rw [clipped_rectAt, clipped_rectAt, both_iff, both_iff]
  constructor
  · rintro ⟨⟨hsx, hsy⟩, ⟨hdx, hdy⟩, hsame⟩
    exact ⟨⟨hsx, hdx, (hsame trivial).width⟩, ⟨hsy, hdy, (hsame trivial).height⟩⟩
  · rintro ⟨⟨hsx, hdx, hw⟩, hsy, hdy, hh⟩
    exact ⟨⟨hsx, hsy⟩, ⟨hdx, hdy⟩, fun _ => ⟨hw, hh⟩⟩

end Right

section Theorems

variable (fixed : Word → Word → Word) (ctx : Context) (src dst : Image)
  (src_x src_y src_w src_h dst_x dst_y dst_w dst_h negative : Word) (op : Op)

/-- A copy is rejected, or right along both axes. -/
def CopyCondition (src dst : Image) (src_x src_y dst_x dst_y w h : Word) : Prop :=
  (NoRest src_x.toNat w.toNat src.width.toNat w.toNat ∨ NoRest dst_x.toNat w.toNat dst.width.toNat w.toNat ∨
    NoRest src_y.toNat h.toNat src.height.toNat h.toNat ∨ NoRest dst_y.toNat h.toNat dst.height.toNat w.toNat) ∨
  CopyRight w.toNat w.toNat src_x.toNat src.width.toNat dst_x.toNat dst.width.toNat ∧
    CopyRight w.toNat h.toNat src_y.toNat src.height.toNat dst_y.toNat dst.height.toNat

/-- A scaled copy is rejected, or both rectangles are cut right along both axes. -/
def ScaleCondition (src dst : Image) (src_x src_y src_w src_h dst_x dst_y dst_w dst_h : Word) : Prop :=
  (Nothing src_x.toNat src_w.toNat src.width.toNat ∨ Nothing src_y.toNat src_h.toNat src.height.toNat ∨
    Nothing dst_x.toNat dst_w.toNat dst.width.toNat ∨ Nothing dst_y.toNat dst_h.toNat dst.height.toNat) ∨
  (Cut src_x.toNat src_w.toNat src.width.toNat ∧ Cut src_y.toNat src_h.toNat src.height.toNat) ∧
    Cut dst_x.toNat dst_w.toNat dst.width.toNat ∧ Cut dst_y.toNat dst_h.toNat dst.height.toNat

/-- A blend is rejected, or right along both axes. -/
def BlendCondition (src dst : Image) (src_x src_y dst_x dst_y w h : Word) : Prop :=
  (¬ src.Selectable ∨ Nothing src_x.toNat w.toNat src.width.toNat ∨ Nothing dst_x.toNat w.toNat dst.width.toNat ∨
    Nothing src_y.toNat h.toNat src.height.toNat ∨ Nothing dst_y.toNat h.toNat dst.height.toNat) ∨
  BlendRight w.toNat src_x.toNat src.width.toNat dst_x.toNat dst.width.toNat ∧
    BlendRight h.toNat src_y.toNat src.height.toNat dst_y.toNat dst.height.toNat

theorem fill_clips {img : Image} {x y w h : Word} : FillRight (g2d_solid_fill ctx img x y w h) img x y w h ↔
    Cut x.toNat w.toNat img.width.toNat ∧ Cut y.toNat h.toNat img.height.toNat := by
  obtain ⟨hret, hdest⟩ := g2d_solid_fill_spec ctx img x y w h
  rw [← fits_clip, ← fits_clip, ← clipped_rectAt]
  constructor
  · intro hright
    obtain ⟨d, hd, hclipped⟩ := hright hret
    rwa [Option.some.inj (hdest.symm.trans hd)]
  · exact fun hclipped _ => ⟨_, hdest, hclipped⟩

theorem copy_clips {w h : Word} : PairRight True (g2d_copy ctx src dst src_x src_y dst_x dst_y w h) src dst src_x src_y w h
    dst_x dst_y w h ↔ CopyCondition src dst src_x src_y dst_x dst_y w h := by
  refine (g2d_copy_spec rfl rfl).right.trans ?_
  unfold CopyCondition copyWidth copyHeight
  rw [pair_both, copyRight_iff, copyRight_iff, MIN_eq_zero, MIN_eq_zero, rest_eq_zero, rest_eq_zero, rest_eq_zero,
    rest_eq_zero]
  simp only [or_assoc]

theorem scale_clips : PairRight False
    (g2d_copy_with_scale fixed ctx src dst src_x src_y src_w src_h dst_x dst_y dst_w dst_h negative) src dst src_x src_y
    src_w src_h dst_x dst_y dst_w dst_h ↔ ScaleCondition src dst src_x src_y src_w src_h dst_x dst_y dst_w dst_h := by
  refine (g2d_copy_with_scale_spec rfl rfl rfl rfl).right.trans ?_
  unfold ScaleCondition
  rw [clipped_rectAt, clipped_rectAt, fits_clip, fits_clip, fits_clip, fits_clip, clip_eq_zero, clip_eq_zero, clip_eq_zero,
    clip_eq_zero, false_imp_iff, and_true]

theorem blend_clips {w h : Word} : PairRight True (g2d_blend ctx src dst src_x src_y dst_x dst_y w h op) src dst src_x src_y
    w h dst_x dst_y w h ↔ BlendCondition src dst src_x src_y dst_x dst_y w h := by
  refine (g2d_blend_spec rfl rfl).right.trans ?_
  unfold BlendCondition blendWidth blendHeight
  rw [pair_both, blendRight_iff, blendRight_iff, MIN_eq_zero, MIN_eq_zero, clip_eq_zero, clip_eq_zero, clip_eq_zero,
    clip_eq_zero]
  simp only [or_assoc]

/-- When the rectangles of each operation are right, for all sizes and positions. -/
theorem clipping :
    (FillRight (g2d_solid_fill ctx dst dst_x dst_y dst_w dst_h) dst dst_x dst_y dst_w dst_h ↔
      Cut dst_x.toNat dst_w.toNat dst.width.toNat ∧ Cut dst_y.toNat dst_h.toNat dst.height.toNat) ∧
    (PairRight True (g2d_copy ctx src dst src_x src_y dst_x dst_y dst_w dst_h) src dst src_x src_y dst_w dst_h dst_x dst_y
      dst_w dst_h ↔ CopyCondition src dst src_x src_y dst_x dst_y dst_w dst_h) ∧
    (PairRight False (g2d_copy_with_scale fixed ctx src dst src_x src_y src_w src_h dst_x dst_y dst_w dst_h negative) src
      dst src_x src_y src_w src_h dst_x dst_y dst_w dst_h ↔
        ScaleCondition src dst src_x src_y src_w src_h dst_x dst_y dst_w dst_h) ∧
    (PairRight True (g2d_blend ctx src dst src_x src_y dst_x dst_y dst_w dst_h op) src dst src_x src_y dst_w dst_h dst_x
      dst_y dst_w dst_h ↔ BlendCondition src dst src_x src_y dst_x dst_y dst_w dst_h) :=
  ⟨fill_clips ctx, copy_clips ctx .., scale_clips fixed ctx .., blend_clips ctx ..⟩

/-- A copy of 100 by 100 between two images of 640 by 480 takes all of them. -/
theorem clipping_fails : ¬ PairRight True (g2d_copy {} ⟨0, 0, 640, 480, 2560, 0, .gem, 1, 0⟩ ⟨0, 0, 640, 480, 2560, 0, .gem, 2, 0⟩
    0 0 0 0 100 100) ⟨0, 0, 640, 480, 2560, 0, .gem, 1, 0⟩ ⟨0, 0, 640, 480, 2560, 0, .gem, 2, 0⟩
      0 0 100 100 0 0 100 100 := by
  intro hright
  obtain ⟨s, d, hprog, hs, -⟩ := hright rfl
  have hsource : s = ⟨0, 0, 640, 480⟩ := Option.some.inj (hprog.source.symm.trans (by decide))
  have hwidth := hs.width
  rw [hsource] at hwidth
  exact absurd hwidth (by decide)

end Theorems

end LibDrm.Exynos
