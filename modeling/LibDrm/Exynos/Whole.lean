/-
# `LibDrm.Exynos.Whole` — whether an operation is submitted as a whole

An operation should submit the commands that are its own and no others, or submit nothing and leave
nothing behind.  What stands in the way of that:

    g2d_flush fails     the list is full, or the kernel rejects it; the operation returns 0
    the sizes are bad   `g2d_reset` leaves a command in the context, for the next operation to submit
    the mode is bad     a blend leaves all of its commands in the context

The first of them is enough for what follows to go wrong, so the operations of a run are whole as long
as none of these happens (`all_or_nothing`).
-/
import LibDrm.Exynos.Clip
import LibDrm.Lib.Along

namespace LibDrm.Exynos

def g2d_exec (ctx : Context) : Int × Context :=
  if ctx.cmdlistNr = 0 then (-EINVAL, ctx)
  else
    let ret := ctx.replies.headD 0
    let ctx := { ctx with replies := ctx.replies.tail }
    if ret < 0 then (ret, ctx) else (ret, { ctx with cmdlistNr := 0 })

/-- An operation, with its arguments. -/
inductive Request
  | solidFill (img : Image) (x y w h : Word)
  | copy (src dst : Image) (src_x src_y dst_x dst_y w h : Word)
  | copyWithScale (src dst : Image) (src_x src_y src_w src_h dst_x dst_y dst_w dst_h negative : Word)
  | blend (src dst : Image) (src_x src_y dst_x dst_y w h : Word) (op : Op)

inductive Call
  | request (r : Request)
  | exec

-- how the quotient of two sizes is turned into fixed point
variable (fixed : Word → Word → Word)

def Request.run (ctx : Context) : Request → Int × Context
  | .solidFill img x y w h => g2d_solid_fill ctx img x y w h
  | .copy src dst src_x src_y dst_x dst_y w h => g2d_copy ctx src dst src_x src_y dst_x dst_y w h
  | .copyWithScale src dst src_x src_y src_w src_h dst_x dst_y dst_w dst_h negative =>
      g2d_copy_with_scale fixed ctx src dst src_x src_y src_w src_h dst_x dst_y dst_w dst_h negative
  | .blend src dst src_x src_y dst_x dst_y w h op => g2d_blend ctx src dst src_x src_y dst_x dst_y w h op

/-- Nothing is left of one of the sizes, or the mode of the source is unknown. -/
def Request.Rejected : Request → Prop
  | .solidFill _ _ _ _ _ => False
  | .copy src dst src_x src_y dst_x dst_y w h =>
      copyWidth src dst src_x dst_x w = 0 ∨ copyHeight src dst src_y dst_y w h = 0
  | .copyWithScale src dst src_x src_y src_w src_h dst_x dst_y dst_w dst_h _ =>
      clip src_x src_w src.width = 0 ∨ clip src_y src_h src.height = 0 ∨ clip dst_x dst_w dst.width = 0 ∨
        clip dst_y dst_h dst.height = 0
  | .blend src dst src_x src_y dst_x dst_y w h _ =>
      ¬ src.Selectable ∨ blendWidth src dst src_x dst_x w = 0 ∨ blendHeight src dst src_y dst_y h = 0

def step (ctx : Context) : Call → Option Context
  | .request r => some (r.run fixed ctx).2
  | .exec => some (g2d_exec ctx).2

/-! ## The contract -/

/-- The commands of an operation: what it hands over in an empty context. -/
def Request.own (r : Request) : List Cmd := (r.run fixed {}).2.asked

/-- Some commands, as the two arrays of a command list. -/
def commandList (l : List Cmd) : List Cmd × List Cmd :=
  (l.filter fun c => !isBaseAddr c.offset, l.filter fun c => isBaseAddr c.offset)

/-- What is promised of an operation.  The kernel has taken a list when `cmdlist_nr` counts it. -/
structure Whole (ctx : Context) (r : Request) : Prop where
  done : (r.run fixed ctx).1 = 0 →
    (r.run fixed ctx).2.submitted = ctx.submitted ++ [commandList (r.own fixed)] ∧
      (r.run fixed ctx).2.cmdlistNr = ctx.cmdlistNr + 1
  failed : (r.run fixed ctx).1 ≠ 0 →
    (r.run fixed ctx).2.submitted = ctx.submitted ∧ (r.run fixed ctx).2.cmd = ctx.cmd ∧
      (r.run fixed ctx).2.cmdBuf = ctx.cmdBuf

def Call.Whole (ctx : Context) : Call → Prop
  | .request r => LibDrm.Exynos.Whole fixed ctx r
  | .exec => True

/-- The operation is not rejected, there is room for its list, and the kernel takes it. -/
def Call.Taken (ctx : Context) : Call → Prop
  | .request r => ¬ r.Rejected ∧ ctx.cmdlistNr < G2D_MAX_CMD_LIST_NR ∧ 0 ≤ ctx.replies.headD 0
  | .exec => True

/-- No commands are waiting. -/
def Context.Empty (ctx : Context) : Prop := ctx.cmd = [] ∧ ctx.cmdBuf = []

/-! ## Commands that are added one after the other -/

def addAll (l : List Cmd) (ctx : Context) : Context := l.foldl (fun ctx c => g2d_add_cmd ctx c.offset c.data) ctx

section AddAll

variable {ctx : Context} {cmd value : Word} {l k : List Cmd} {img src dst : Image}
  {x y w h src_x src_y dst_x dst_y src_w src_h dst_w dst_h negative : Word}

theorem addAll_append : addAll (l ++ k) ctx = addAll k (addAll l ctx) := List.foldl_append

theorem asked_add_cmd : (g2d_add_cmd ctx cmd value).asked = ctx.asked ++ [⟨cmd, value⟩] := by
  unfold g2d_add_cmd
  dsimp only
  split
  · split
    · rfl
    · rfl
  · split
    · rfl
    · rfl

theorem asked_addAll : (addAll l ctx).asked = ctx.asked ++ l := by
  induction l generalizing ctx with
  | nil => exact (List.append_nil _).symm
  | cons c l ih =>
      show (addAll l (g2d_add_cmd ctx c.offset c.data)).asked = _
      rw [ih, asked_add_cmd, List.append_assoc]
      rfl

/-- The parts of a context that no command changes. -/
theorem addAll_keeps : (addAll l ctx).submitted = ctx.submitted ∧ (addAll l ctx).cmdlistNr = ctx.cmdlistNr ∧
    (addAll l ctx).replies = ctx.replies := by
  induction l generalizing ctx with
  | nil => exact ⟨rfl, rfl, rfl⟩
  | cons c l ih =>
      obtain ⟨hsubmitted, hnr, hreplies⟩ := @ih (g2d_add_cmd ctx c.offset c.data)
      refine ⟨hsubmitted.trans ?_, hnr.trans ?_, hreplies.trans ?_⟩
      all_goals
        unfold g2d_add_cmd
        dsimp only
        split_ifs <;> rfl

/-- Where there is room for them, the commands go to the two arrays. -/
theorem addAll_room (hcmd : ctx.cmd.length + l.length ≤ G2D_MAX_CMD_NR)
    (hbuf : ctx.cmdBuf.length + l.length ≤ G2D_MAX_GEM_CMD_NR) :
    (addAll l ctx).cmd = ctx.cmd ++ (commandList l).1 ∧ (addAll l ctx).cmdBuf = ctx.cmdBuf ++ (commandList l).2 := by
  induction l generalizing ctx with
  | nil => exact ⟨(List.append_nil _).symm, (List.append_nil _).symm⟩
  | cons c l ih =>
      rw [List.length_cons] at hcmd hbuf
      show (addAll l (g2d_add_cmd ctx c.offset c.data)).cmd = _ ∧ (addAll l (g2d_add_cmd ctx c.offset c.data)).cmdBuf = _
      by_cases hbase : isBaseAddr c.offset = true
      · have hadd : g2d_add_cmd ctx c.offset c.data = { ctx with asked := ctx.asked ++ [c], cmdBuf := ctx.cmdBuf ++ [c] } := by
          unfold g2d_add_cmd
          rw [if_pos hbase, if_neg (by show ¬ _ ≤ ctx.cmdBuf.length; omega)]
        have hnext : (ctx.cmdBuf ++ [c]).length + l.length ≤ G2D_MAX_GEM_CMD_NR := by simp; omega
        obtain ⟨hc, hb⟩ := @ih { ctx with asked := ctx.asked ++ [c], cmdBuf := ctx.cmdBuf ++ [c] }
          (show ctx.cmd.length + _ ≤ _ by omega) hnext
        rw [hadd, hc, hb]
        simp [commandList, hbase]
      · have hadd : g2d_add_cmd ctx c.offset c.data = { ctx with asked := ctx.asked ++ [c], cmd := ctx.cmd ++ [c] } := by
          unfold g2d_add_cmd
          rw [if_neg hbase, if_neg (by show ¬ _ ≤ ctx.cmd.length; omega)]
        have hnext : (ctx.cmd ++ [c]).length + l.length ≤ G2D_MAX_CMD_NR := by simp; omega
        obtain ⟨hc, hb⟩ := @ih { ctx with asked := ctx.asked ++ [c], cmd := ctx.cmd ++ [c] } hnext
          (show ctx.cmdBuf.length + _ ≤ _ by omega)
        rw [hadd, hc, hb]
        simp [commandList, hbase]

/-- No commands are lost in an empty context, and there are some. -/
theorem Context.Empty.addAll (hempty : ctx.Empty) (hl : l ≠ []) (hlen : l.length ≤ 64) :
    (addAll l ctx).cmd = (commandList l).1 ∧ (addAll l ctx).cmdBuf = (commandList l).2 ∧
      ¬ ((addAll l ctx).cmd = [] ∧ (addAll l ctx).cmdBuf = []) := by
  obtain ⟨hcmd, hbuf⟩ := hempty
  obtain ⟨hc, hb⟩ := @addAll_room ctx l (by rw [hcmd, List.length_nil, Nat.zero_add]; exact hlen)
    (by rw [hbuf, List.length_nil, Nat.zero_add]; exact hlen)
  rw [hcmd, List.nil_append] at hc
  rw [hbuf, List.nil_append] at hb
  refine ⟨hc, hb, ?_⟩
  rw [hc, hb]
  rintro ⟨hnone, hnone'⟩
  obtain ⟨c, l', rfl⟩ := List.exists_cons_of_ne_nil hl
  have hout := List.filter_eq_nil_iff.mp hnone c List.mem_cons_self
  have hin := List.filter_eq_nil_iff.mp hnone' c List.mem_cons_self
  simp only [Bool.not_eq_true] at hin
  simp [hin] at hout

/-! ## The shape of the operations -/

/-- It adds commands that do not depend on the context, at most `n` of them. -/
def Adds (n : Nat) (f : Context → Context) : Prop := ∃ l : List Cmd, l.length ≤ n ∧ ∀ ctx, f ctx = addAll l ctx

theorem Adds.none : Adds 0 fun ctx => ctx := ⟨[], Nat.le_refl _, fun _ => rfl⟩

theorem Adds.append {n : Nat} {f : Context → Context} (hf : Adds n f) (k : List Cmd) :
    Adds (n + k.length) fun ctx => addAll k (f ctx) := by
  obtain ⟨l, hl, hf⟩ := hf
  refine ⟨l ++ k, ?_, fun ctx => ?_⟩
  · rw [List.length_append]
    omega
  · dsimp only
    rw [hf, addAll_append]

theorem Adds.add {n : Nat} {f : Context → Context} (hf : Adds n f) : Adds (n + 1) fun ctx => g2d_add_cmd (f ctx) cmd value :=
  hf.append [⟨cmd, value⟩]

theorem Adds.base {n : Nat} {f : Context → Context} {reg : Word} (hf : Adds n f) :
    Adds (n + 1) fun ctx => addBase (f ctx) reg img := by
  unfold addBase
  split
  · exact hf.add
  · exact hf.add

theorem Adds.ite {n : Nat} {f g : Context → Context} {p : Prop} [Decidable p] (hf : Adds n f) (hg : Adds n g) :
    Adds n fun ctx => if p then f ctx else g ctx := by
  split
  · exact hf
  · exact hg

theorem Adds.mono {n m : Nat} {f : Context → Context} (hf : Adds n f) (h : n ≤ m) : Adds m f := by
  obtain ⟨l, hl, hf⟩ := hf
  exact ⟨l, hl.trans h, hf⟩

end AddAll

/-- An operation that hands over commands and flushes. -/
def Submits (f : Context → Int × Context) : Prop :=
  ∃ l : List Cmd, l ≠ [] ∧ l.length ≤ 64 ∧ ∀ ctx, f ctx = (0, (g2d_flush (addAll l ctx)).2)

/-- An operation that gives up, and leaves commands whatever the context is. -/
def GivesUp (f : Context → Int × Context) : Prop := ∀ ctx, ctx.Empty → (f ctx).1 ≠ 0 ∧ ¬ (f ctx).2.Empty

theorem Adds.submits {n : Nat} {f : Context → Context} {cmd value : Word} (hf : Adds n f) (hn : n < 64) :
    Submits fun ctx => (0, (g2d_flush (g2d_add_cmd (f ctx) cmd value)).2) := by
  obtain ⟨l, hl, hf⟩ := hf
  refine ⟨l ++ [⟨cmd, value⟩], List.append_ne_nil_of_right_ne_nil _ (List.cons_ne_nil _ _), ?_, fun ctx => ?_⟩
  · rw [List.length_append, List.length_singleton]
    omega
  · dsimp only
    rw [hf, addAll_append]
    rfl

theorem reset_givesUp (f : Context → Context) : GivesUp fun ctx => (-EINVAL, g2d_reset (f ctx)) := by
  refine fun ctx _ => ⟨neg_EINVAL, fun hempty => ?_⟩
  have hcmd : (g2d_reset (f ctx)).cmd = [⟨SOFT_RESET_REG, 0x01⟩] := rfl
  rw [hempty.1] at hcmd
  cases hcmd

theorem Adds.givesUp {n : Nat} {f : Context → Context} {cmd value : Word} (hf : Adds n f) (hn : n < 64) :
    GivesUp fun ctx => (-EINVAL, g2d_add_cmd (f ctx) cmd value) := by
  obtain ⟨l, hl, hf⟩ := hf
  refine fun ctx hempty => ⟨neg_EINVAL, ?_⟩
  show ¬ (g2d_add_cmd (f ctx) cmd value).Empty
  have hall : g2d_add_cmd (f ctx) cmd value = addAll (l ++ [⟨cmd, value⟩]) ctx := by
    rw [hf, addAll_append]
    rfl
  rw [hall]
  refine (hempty.addAll (List.append_ne_nil_of_right_ne_nil _ (List.cons_ne_nil _ _)) ?_).2.2
  rw [List.length_append, List.length_singleton]
  omega

section Operations

variable {img src dst : Image} {x y w h src_x src_y dst_x dst_y src_w src_h dst_w dst_h negative : Word}

theorem g2d_solid_fill_submits : Submits fun ctx => g2d_solid_fill ctx img x y w h :=
  Adds.none.add.add.base.add.add.add.add.submits (by decide)

theorem g2d_copy_submits (h₀ : ¬ (copyWidth src dst src_x dst_x w = 0 ∨ copyHeight src dst src_y dst_y w h = 0)) :
    Submits fun ctx => g2d_copy ctx src dst src_x src_y dst_x dst_y w h := by
  unfold copyWidth copyHeight at h₀
  unfold g2d_copy
  simp only [if_neg h₀]
  exact Adds.none.add.add.base.add.add.add.base.add.add.add.add.add.submits (by decide)

theorem g2d_copy_givesUp (h₀ : copyWidth src dst src_x dst_x w = 0 ∨ copyHeight src dst src_y dst_y w h = 0) :
    GivesUp fun ctx => g2d_copy ctx src dst src_x src_y dst_x dst_y w h := by
  unfold copyWidth copyHeight at h₀
  unfold g2d_copy
  simp only [if_pos h₀]
  exact reset_givesUp _

theorem g2d_copy_with_scale_submits {fixed : Word → Word → Word} (h₀ : ¬ (clip src_x src_w src.width = 0 ∨
    clip src_y src_h src.height = 0 ∨ clip dst_x dst_w dst.width = 0 ∨ clip dst_y dst_h dst.height = 0)) :
    Submits fun ctx =>
      g2d_copy_with_scale fixed ctx src dst src_x src_y src_w src_h dst_x dst_y dst_w dst_h negative := by
  unfold g2d_copy_with_scale
  simp only [if_neg h₀]
  by_cases hnegative : negative ≠ 0
  · by_cases hscale : ¬ (src_w = dst_w ∧ src_h = dst_h)
    · simp only [if_pos hnegative, if_pos hscale]
      exact Adds.none.add.add.base.add.add.add.base.add.add.add.add.add.add.add.add.add.submits (by decide)
    · simp only [if_pos hnegative, if_neg hscale]
      exact Adds.none.add.add.base.add.add.add.base.add.add.add.add.add.add.submits (by decide)
  · by_cases hscale : ¬ (src_w = dst_w ∧ src_h = dst_h)
    · simp only [if_neg hnegative, if_pos hscale]
      exact Adds.none.add.add.base.add.add.add.base.add.add.add.add.add.add.add.add.submits (by decide)
    · simp only [if_neg hnegative, if_neg hscale]
      exact Adds.none.add.add.base.add.add.add.base.add.add.add.add.add.submits (by decide)

theorem g2d_copy_with_scale_givesUp {fixed : Word → Word → Word} (h₀ : clip src_x src_w src.width = 0 ∨
    clip src_y src_h src.height = 0 ∨ clip dst_x dst_w dst.width = 0 ∨ clip dst_y dst_h dst.height = 0) :
    GivesUp fun ctx =>
      g2d_copy_with_scale fixed ctx src dst src_x src_y src_w src_h dst_x dst_y dst_w dst_h negative := by
  unfold g2d_copy_with_scale
  simp only [if_pos h₀]
  exact reset_givesUp _

/-- The commands for the source, if its mode is known. -/
theorem selectSource_adds (hsel : src.Selectable) :
    ∃ g, Adds 2 g ∧ ∀ ctx, selectSource ctx src = some (g ctx) := by
  unfold selectSource
  by_cases hnormal : src.selectMode = G2D_SELECT_MODE_NORMAL
  · exact ⟨_, Adds.none.base.add, fun ctx => if_pos hnormal⟩
  · by_cases hfg : src.selectMode = G2D_SELECT_MODE_FGCOLOR
    · exact ⟨_, Adds.none.add.mono (by decide), fun ctx => (if_neg hnormal).trans (if_pos hfg)⟩
    · by_cases hbg : src.selectMode = G2D_SELECT_MODE_BGCOLOR
      · exact ⟨_, Adds.none.add.mono (by decide), fun ctx => (if_neg hnormal).trans ((if_neg hfg).trans (if_pos hbg))⟩
      · simp [Image.Selectable, hnormal, hfg, hbg] at hsel

theorem selectSource_none (hsel : ¬ src.Selectable) (ctx : Context) : selectSource ctx src = none := by
  rcases selectSource_spec ctx src with ⟨-, hnone⟩ | ⟨hyes, -⟩
  · exact hnone
  · exact absurd hyes hsel

theorem Adds.comp {n m : Nat} {f g : Context → Context} (hf : Adds n f) (hg : Adds m g) :
    Adds (n + m) fun ctx => g (f ctx) := by
  obtain ⟨l, hl, hg⟩ := hg
  simp only [hg]
  exact (hf.append l).mono (Nat.add_le_add_left hl n)

theorem g2d_blend_submits {op : Op} (h₀ : ¬ (¬ src.Selectable ∨ blendWidth src dst src_x dst_x w = 0 ∨
    blendHeight src dst src_y dst_y h = 0)) :
    Submits fun ctx => g2d_blend ctx src dst src_x src_y dst_x dst_y w h op := by
  obtain ⟨hsel, hsize⟩ := not_or.mp h₀
  obtain ⟨g, hg, hsource⟩ := selectSource_adds (not_not.mp hsel)
  unfold blendWidth blendHeight at hsize
  unfold g2d_blend
  simp only [hsource, if_neg hsize]
  exact (((Adds.ite Adds.none.add Adds.none.add).add.base.add.add.add).comp hg).add.add.add.add.add.submits (by decide)

theorem g2d_blend_givesUp {op : Op} (h₀ : ¬ src.Selectable ∨ blendWidth src dst src_x dst_x w = 0 ∨
    blendHeight src dst src_y dst_y h = 0) :
    GivesUp fun ctx => g2d_blend ctx src dst src_x src_y dst_x dst_y w h op := by
  unfold blendWidth blendHeight at h₀
  unfold g2d_blend
  by_cases hsel : src.Selectable
  · obtain ⟨g, hg, hsource⟩ := selectSource_adds hsel
    simp only [hsource, if_pos (h₀.resolve_left (not_not.mpr hsel))]
    exact reset_givesUp _
  · simp only [selectSource_none hsel]
    exact (Adds.ite Adds.none.add Adds.none.add).add.base.add.add.givesUp (by decide)

end Operations

theorem Request.submits (r : Request) (h : ¬ r.Rejected) : Submits fun ctx => r.run fixed ctx := by
  cases r with
  | solidFill => exact g2d_solid_fill_submits
  | copy => exact g2d_copy_submits h
  | copyWithScale => exact g2d_copy_with_scale_submits h
  | blend => exact g2d_blend_submits h

theorem Request.givesUp (r : Request) (h : r.Rejected) : GivesUp fun ctx => r.run fixed ctx := by
  cases r with
  | solidFill => exact absurd h not_false
  | copy => exact g2d_copy_givesUp h
  | copyWithScale => exact g2d_copy_with_scale_givesUp h
  | blend => exact g2d_blend_givesUp h

/-! ## Runs -/

variable {ctx ctx' : Context} {l : List Cmd}

theorem flush_asked : (g2d_flush ctx).2.asked = ctx.asked := by
  unfold g2d_flush
  split
  · rfl
  · split
    · rfl
    · dsimp only
      split
      · rfl
      · rfl

/-- A flush in a context where commands are waiting. -/
theorem flush_cases (h : ¬ (ctx.cmd = [] ∧ ctx.cmdBuf = [])) :
    (ctx.cmdlistNr < G2D_MAX_CMD_LIST_NR ∧ 0 ≤ ctx.replies.headD 0 ∧ (g2d_flush ctx).2.Empty ∧
        (g2d_flush ctx).2.submitted = ctx.submitted ++ [(ctx.cmd, ctx.cmdBuf)] ∧
        (g2d_flush ctx).2.cmdlistNr = ctx.cmdlistNr + 1) ∨
      (¬ (ctx.cmdlistNr < G2D_MAX_CMD_LIST_NR ∧ 0 ≤ ctx.replies.headD 0) ∧
        (g2d_flush ctx).2.cmdlistNr = ctx.cmdlistNr) := by
  unfold g2d_flush
  rw [if_neg h]
  by_cases hfull : ctx.cmdlistNr ≥ G2D_MAX_CMD_LIST_NR
  · rw [if_pos hfull]
    exact .inr ⟨fun hroom => absurd hroom.1 (Nat.not_lt.mpr hfull), rfl⟩
  · rw [if_neg hfull]
    dsimp only
    split
    · next hret => exact .inr ⟨fun hroom => absurd hroom.2 (Int.not_le.mpr hret), rfl⟩
    · next hret => exact .inl ⟨Nat.lt_of_not_le hfull, Int.not_lt.mp hret, ⟨rfl, rfl⟩, rfl, rfl⟩

/-- In an empty context an operation is whole exactly if it is taken, and then leaves the context empty. -/
theorem request_whole (hempty : ctx.Empty) (r : Request) :
    (Whole fixed ctx r ↔ (Call.request r).Taken ctx) ∧ ((Call.request r).Taken ctx → (r.run fixed ctx).2.Empty) := by
  by_cases hrejected : r.Rejected
  · obtain ⟨hret, hleft⟩ := r.givesUp fixed hrejected ctx hempty
    refine ⟨⟨fun hwhole => ?_, fun htaken => absurd hrejected htaken.1⟩, fun htaken => absurd hrejected htaken.1⟩
    obtain ⟨-, hcmd, hbuf⟩ := hwhole.failed hret
    exact absurd ⟨hcmd.trans hempty.1, hbuf.trans hempty.2⟩ hleft
  · obtain ⟨l, hne, hlen, hrun⟩ := r.submits fixed hrejected
    obtain ⟨hcmd, hbuf, hsome⟩ := hempty.addAll hne hlen
    obtain ⟨hsubmitted, hnr, hreplies⟩ := @addAll_keeps ctx l
    have hown : r.own fixed = l := by
      have hstart : r.run fixed {} = (0, (g2d_flush (addAll l {})).2) := hrun {}
      rw [Request.own, hstart, flush_asked, asked_addAll]
      rfl
    have hresult : r.run fixed ctx = (0, (g2d_flush (addAll l ctx)).2) := hrun ctx
    have hret : (r.run fixed ctx).1 = 0 := by rw [hresult]
    have hctx : (r.run fixed ctx).2 = (g2d_flush (addAll l ctx)).2 := by rw [hresult]
    rcases flush_cases hsome with ⟨hroom, hreply, hend, hsub, hcount⟩ | ⟨hnot, hcount⟩
    · rw [hnr] at hroom hcount
      rw [hreplies] at hreply
      rw [hsubmitted, hcmd, hbuf] at hsub
      rw [hctx]
      refine ⟨⟨fun _ => ⟨hrejected, hroom, hreply⟩, fun _ => ⟨fun _ => ?_, fun hne => absurd hret hne⟩⟩, fun _ => hend⟩
      rw [hctx, hown]
      exact ⟨hsub, hcount⟩
    · rw [hnr, hreplies] at hnot
      rw [hnr] at hcount
      refine ⟨⟨fun hwhole => ?_, fun htaken => absurd htaken.2 hnot⟩, fun htaken => absurd htaken.2 hnot⟩
      have hone := (hwhole.done hret).2
      rw [hctx, hcount] at hone
      exact absurd hone (Nat.ne_of_lt (Nat.lt_succ_self _))

theorem call_whole (hempty : ctx.Empty) (call : Call) : call.Whole fixed ctx ↔ call.Taken ctx := by
  cases call with
  | request r => exact (request_whole fixed hempty r).1
  | exec => exact Iff.rfl

theorem empty_step (hempty : ctx.Empty) (call : Call) (htaken : call.Taken ctx) (hs : step fixed ctx call = some ctx') :
    ctx'.Empty := by
  cases call with
  | request r =>
      cases hs
      exact (request_whole fixed hempty r).2 htaken
  | exec =>
      cases hs
      unfold g2d_exec
      split
      · exact hempty
      · dsimp only
        split
        · exact hempty
        · exact hempty

/-- In a run the operations are submitted as a whole or not at all as long as each of them is taken. -/
theorem all_or_nothing (replies : List Int) (calls : List Call) :
    Along (step fixed) (fun ctx call => call.Whole fixed ctx) { replies } calls ↔
      Along (step fixed) (fun ctx call => call.Taken ctx) { replies } calls :=
  along_iff (I := Context.Empty) (fun _ call h => call_whole fixed h call) (fun _ call _ h htaken hs => empty_step fixed h call htaken hs)
    ⟨rfl, rfl⟩

/-- A rectangle of an image of 8 by 8. -/
def fillRequest : Request := .solidFill { width := 8, height := 8 } 0 0 4 4

/-- The kernel rejects a list, and the operation returns 0. -/
theorem all_or_nothing_rejected : ¬ ∀ (replies : List Int) (calls : List Call),
    Along (step fun _ _ => 0) (fun ctx call => call.Whole (fun _ _ => 0) ctx) { replies } calls := by
  intro h
  have hwhole := (h [-1] [.request fillRequest]).1
  have hone := (hwhole.done rfl).2
  exact absurd hone (by decide)

end LibDrm.Exynos
