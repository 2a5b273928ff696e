/-
# `LibDrm.Decode.Shader` — the instructions of a pixel shader program

An instruction is three dwords.  The operands are put together from the fields of all three, and a
register number that does not exist is complained about while that is done, so before the line of
the instruction is printed.
-/
import LibDrm.Decode.Blit

namespace LibDrm.Decode

/-- "Sets the string dstname to describe the destination of the PS instruction" -/
def i915_get_instruction_dst (i : Nat) (do_mask : Bool) : Decoder String := do
  let a0 ← data i
  let dst_nr := field a0 14 0xf
  let dstmask :=
    if do_mask ∧ field a0 10 0xf ≠ 0xf then
      "." ++ flag (bit a0 10) "x" ++ flag (bit a0 11) "y" ++ flag (bit a0 12) "z" ++ flag (bit a0 13) "w"
    else ""
  let sat := flag (do_mask && bit a0 22) ".sat"
  match field a0 19 0x7 with
  | 0 => do
      whenever (dst_nr > 15) <| fprintf "bad destination reg R%d\n" [dst_nr]
      pure ("R" ++ toString dst_nr ++ dstmask ++ sat)
  | 4 => do
      whenever (dst_nr > 0) <| fprintf "bad destination reg oC%d\n" [dst_nr]
      pure ("oC" ++ dstmask ++ sat)
  | 5 => do
      whenever (dst_nr > 0) <| fprintf "bad destination reg oD%d\n" [dst_nr]
      pure ("oD" ++ dstmask ++ sat)
  | 6 => do
      whenever (dst_nr > 3) <| fprintf "bad destination reg U%d\n" [dst_nr]
      pure ("U" ++ toString dst_nr ++ dstmask ++ sat)
  | _ => pure "RESERVED"

/-- `i915_get_channel_swizzle((d >> n) & 0xf)` -/
def i915_get_channel_swizzle (d : BitVec 32) (n : Nat) : String :=
  flag (bit d (n + 3)) "-" ++
    match field d n 0x7 with
    | 0 => "x"
    | 1 => "y"
    | 2 => "z"
    | 3 => "w"
    | 4 => "0"
    | 5 => "1"
    | _ => "bad"

/-- A texture coordinate or one of the interpolated colours. -/
def i915_t_name (src_nr : Nat) : Decoder String :=
  if src_nr < 8 then pure ("T" ++ toString src_nr)
  else if src_nr = 8 then pure "DIFFUSE"
  else if src_nr = 9 then pure "SPECULAR"
  else if src_nr = 10 then pure "FOG"
  else do
    fprintf "bad src reg T%d\n" [src_nr]
    pure "RESERVED"

/-- A register of a file that has `limit` of them and one more. -/
def i915_numbered (file : String) (limit src_nr : Nat) : Decoder String := do
  let name := file ++ toString src_nr
  whenever (src_nr > limit) <| fprintf "bad src reg %s\n" [name]
  pure name

/-- `oC` or `oD`, of which there is one. -/
def i915_output (name : String) (src_nr : Nat) : Decoder String := do
  whenever (src_nr > 0) <| fprintf ("bad src reg " ++ name ++ "%d\n") [src_nr]
  pure name

def i915_bad_type (src_type : Nat) : Decoder String := do
  fprintf "bad src reg type %d\n" [src_type]
  pure "RESERVED"

def i915_get_instruction_src_name (src_type src_nr : Nat) : Decoder String :=
  match src_type with
  | 0 => i915_numbered "R" 15 src_nr
  | 1 => i915_t_name src_nr
  | 2 => i915_numbered "C" 31 src_nr
  | 4 => i915_output "oC" src_nr
  | 5 => i915_output "oD" src_nr
  | 6 => i915_numbered "U" 3 src_nr
  | _ => i915_bad_type src_type

/-- The swizzle is left out where it changes nothing. -/
def i915_swizzled (name x y z w : String) : String :=
  let swizzle := "." ++ x ++ y ++ z ++ w
  if swizzle = ".xyzw" then name else name ++ swizzle

def i915_get_instruction_src0 (i : Nat) : Decoder String := do
  let a0 ← data i
  let a1 ← data (i + 1)
  let srcname ← i915_get_instruction_src_name (field a0 7 0x7) (field a0 2 0x1f)
  pure (i915_swizzled srcname (i915_get_channel_swizzle a1 28) (i915_get_channel_swizzle a1 24)
    (i915_get_channel_swizzle a1 20) (i915_get_channel_swizzle a1 16))

def i915_get_instruction_src1 (i : Nat) : Decoder String := do
  let a1 ← data (i + 1)
  let a2 ← data (i + 2)
  let srcname ← i915_get_instruction_src_name (field a1 13 0x7) (field a1 8 0x1f)
  pure (i915_swizzled srcname (i915_get_channel_swizzle a1 4) (i915_get_channel_swizzle a1 0)
    (i915_get_channel_swizzle a2 28) (i915_get_channel_swizzle a2 24))

def i915_get_instruction_src2 (i : Nat) : Decoder String := do
  let a2 ← data (i + 2)
  let srcname ← i915_get_instruction_src_name (field a2 21 0x7) (field a2 16 0x1f)
  pure (i915_swizzled srcname (i915_get_channel_swizzle a2 12) (i915_get_channel_swizzle a2 8)
    (i915_get_channel_swizzle a2 4) (i915_get_channel_swizzle a2 0))

def i915_get_instruction_addr (src_type src_nr : Nat) : Decoder String :=
  match src_type with
  | 0 => i915_numbered "R" 15 src_nr
  | 1 => i915_t_name src_nr
  | 4 => i915_output "oC" src_nr
  | 5 => i915_output "oD" src_nr
  | _ => i915_bad_type src_type

/-- The second and the third dword of an instruction. -/
def i915_rest (i : Nat) (instrPrefix : String) : Decoder Unit := do
  instr_out (i + 1) "%s\n" [instrPrefix]
  instr_out (i + 2) "%s\n" [instrPrefix]

def i915_decode_alu1 (i : Nat) (instrPrefix op_name : String) : Decoder Unit := do
  let dst ← i915_get_instruction_dst i true
  let src0 ← i915_get_instruction_src0 i
  instr_out i "%s: %s %s, %s\n" [instrPrefix, op_name, dst, src0]
  i915_rest i instrPrefix

def i915_decode_alu2 (i : Nat) (instrPrefix op_name : String) : Decoder Unit := do
  let dst ← i915_get_instruction_dst i true
  let src0 ← i915_get_instruction_src0 i
  let src1 ← i915_get_instruction_src1 i
  instr_out i "%s: %s %s, %s, %s\n" [instrPrefix, op_name, dst, src0, src1]
  i915_rest i instrPrefix

def i915_decode_alu3 (i : Nat) (instrPrefix op_name : String) : Decoder Unit := do
  let dst ← i915_get_instruction_dst i true
  let src0 ← i915_get_instruction_src0 i
  let src1 ← i915_get_instruction_src1 i
  let src2 ← i915_get_instruction_src2 i
  instr_out i "%s: %s %s, %s, %s, %s\n" [instrPrefix, op_name, dst, src0, src1, src2]
  i915_rest i instrPrefix

def i915_decode_tex (i : Nat) (instrPrefix tex_name : String) : Decoder Unit := do
  let t0 ← data i
  let t1 ← data (i + 1)
  let dst_name ← i915_get_instruction_dst i false
  let addr_name ← i915_get_instruction_addr (field t1 24 0x7) (field t1 17 0xf)
  instr_out i "%s: %s %s, S%d, %s\n" [instrPrefix, tex_name, dst_name, bits t0 0 0xf, addr_name]
  i915_rest i instrPrefix

/-- The masks a texture coordinate may be declared with. -/
def dcl_masks : List String := [".x", ".xy", ".xz", ".w", ".xyzw"]

def dcl_sampletype : Nat → String
  | 0 => "2D"
  | 1 => "CUBE"
  | 2 => "3D"
  | _ => "RESERVED"

/-- A texture coordinate, a colour or the fog; a number past them has no line. -/
def i915_dcl_t (i : Nat) (instrPrefix : String) (dcl_nr : Nat) (dcl_mask : String) : Decoder Unit := do
  whenever (dcl_mask = ".") <| fprintf "bad (empty) dcl mask\n" []
  whenever (dcl_nr > 10) <| fprintf "bad T%d dcl register number\n" [dcl_nr]
  if dcl_nr < 8 then do
    whenever (dcl_mask ∉ dcl_masks) <| fprintf "bad T%d.%s dcl mask\n" [dcl_nr, dcl_mask]
    instr_out i "%s: DCL T%d%s\n" [instrPrefix, dcl_nr, dcl_mask]
    i915_rest i instrPrefix
  else do
    whenever (dcl_mask = ".xz" ∨ dcl_mask = ".xw" ∨ dcl_mask = ".xzw") <|
      fprintf "errataed bad dcl mask %s\n" [dcl_mask]
    if dcl_nr = 8 then do
      instr_out i "%s: DCL DIFFUSE%s\n" [instrPrefix, dcl_mask]
      i915_rest i instrPrefix
    else if dcl_nr = 9 then do
      instr_out i "%s: DCL SPECULAR%s\n" [instrPrefix, dcl_mask]
      i915_rest i instrPrefix
    else if dcl_nr = 10 then do
      instr_out i "%s: DCL FOG%s\n" [instrPrefix, dcl_mask]
      i915_rest i instrPrefix
    else do
      -- `i++` was not reached, so the two lines are of the first dwords
      instr_out i "%s\n" [instrPrefix]
      instr_out (i + 1) "%s\n" [instrPrefix]

def i915_decode_dcl (i : Nat) (instrPrefix : String) : Decoder Unit := do
  let d0 ← data i
  let dcl_nr := field d0 14 0xf
  match field d0 19 0x3 with
  | 1 =>
      i915_dcl_t i instrPrefix dcl_nr
        ("." ++ flag (bit d0 10) "x" ++ flag (bit d0 11) "y" ++ flag (bit d0 12) "z" ++ flag (bit d0 13) "w")
  | 3 => do
      whenever (dcl_nr > 15) <| fprintf "bad S%d dcl register number\n" [dcl_nr]
      instr_out i "%s: DCL S%d %s\n" [instrPrefix, dcl_nr, dcl_sampletype (field d0 22 0x3)]
      i915_rest i instrPrefix
  | _ => do
      instr_out i "%s: DCL RESERVED%d\n" [instrPrefix, dcl_nr]
      i915_rest i instrPrefix

def i915_decode_instruction (i : Nat) (instrPrefix : String) : Decoder Unit := do
  let d ← data i
  match field d 24 0x1f with
  | 0x00 => do
      instr_out i "%s: NOP\n" [instrPrefix]
      i915_rest i instrPrefix
  | 0x01 => i915_decode_alu2 i instrPrefix "ADD"
  | 0x02 => i915_decode_alu1 i instrPrefix "MOV"
  | 0x03 => i915_decode_alu2 i instrPrefix "MUL"
  | 0x04 => i915_decode_alu3 i instrPrefix "MAD"
  | 0x05 => i915_decode_alu3 i instrPrefix "DP2ADD"
  | 0x06 => i915_decode_alu2 i instrPrefix "DP3"
  | 0x07 => i915_decode_alu2 i instrPrefix "DP4"
  | 0x08 => i915_decode_alu1 i instrPrefix "FRC"
  | 0x09 => i915_decode_alu1 i instrPrefix "RCP"
  | 0x0a => i915_decode_alu1 i instrPrefix "RSQ"
  | 0x0b => i915_decode_alu1 i instrPrefix "EXP"
  | 0x0c => i915_decode_alu1 i instrPrefix "LOG"
  | 0x0d => i915_decode_alu2 i instrPrefix "CMP"
  | 0x0e => i915_decode_alu2 i instrPrefix "MIN"
  | 0x0f => i915_decode_alu2 i instrPrefix "MAX"
  | 0x10 => i915_decode_alu1 i instrPrefix "FLR"
  | 0x11 => i915_decode_alu1 i instrPrefix "MOD"
  | 0x12 => i915_decode_alu1 i instrPrefix "TRC"
  | 0x13 => i915_decode_alu2 i instrPrefix "SGE"
  | 0x14 => i915_decode_alu2 i instrPrefix "SLT"
  | 0x15 => i915_decode_tex i instrPrefix "TEXLD"
  | 0x16 => i915_decode_tex i instrPrefix "TEXLDP"
  | 0x17 => i915_decode_tex i instrPrefix "TEXLDB"
  | 0x19 => i915_decode_dcl i instrPrefix
  | _ => do
      instr_out i "%s: unknown\n" [instrPrefix]
      i915_rest i instrPrefix

/-! ## An instruction is read within its three dwords -/

section Specs

variable {W : Window} {i : Nat}

theorem i915_get_instruction_dst_any (h₀ : W.Readable i) (do_mask : Bool) :
    Prints W (i915_get_instruction_dst i do_mask) fun _ _ => True := by
  unfold i915_get_instruction_dst
  refine Prints.bind_iff.mpr (data_iff.mpr ⟨h₀, ?_⟩)
  dsimp only
  split <;> simp only [Prints.bind_iff, whenever_iff, fprintf_iff, Prints.pure_iff, implies_true, and_self]

theorem i915_get_instruction_addr_any (src_type src_nr : Nat) :
    Prints W (i915_get_instruction_addr src_type src_nr) fun _ _ => True := by
  unfold i915_get_instruction_addr
  split <;> simp only [i915_numbered, i915_t_name, i915_output, i915_bad_type, Prints.bind_iff, whenever_iff,
    Prints.ite_iff, fprintf_iff, Prints.pure_iff, implies_true, and_self]

theorem i915_get_instruction_src_name_any (src_type src_nr : Nat) :
    Prints W (i915_get_instruction_src_name src_type src_nr) fun _ _ => True := by
  unfold i915_get_instruction_src_name
  split <;> simp only [i915_numbered, i915_t_name, i915_output, i915_bad_type, Prints.bind_iff, whenever_iff,
    Prints.ite_iff, fprintf_iff, Prints.pure_iff, implies_true, and_self]

theorem i915_get_instruction_src0_any (h₀ : W.Readable i) (h₁ : W.Readable (i + 1)) :
    Prints W (i915_get_instruction_src0 i) fun _ _ => True := by
  refine Prints.bind_iff.mpr (data_iff.mpr ⟨h₀, Prints.bind_iff.mpr (data_iff.mpr ⟨h₁, ?_⟩)⟩)
  exact (i915_get_instruction_src_name_any _ _).bind fun _ _ _ => Prints.pure_iff.mpr trivial

theorem i915_get_instruction_src1_any (h₁ : W.Readable (i + 1)) (h₂ : W.Readable (i + 2)) :
    Prints W (i915_get_instruction_src1 i) fun _ _ => True := by
  refine Prints.bind_iff.mpr (data_iff.mpr ⟨h₁, Prints.bind_iff.mpr (data_iff.mpr ⟨h₂, ?_⟩)⟩)
  exact (i915_get_instruction_src_name_any _ _).bind fun _ _ _ => Prints.pure_iff.mpr trivial

theorem i915_get_instruction_src2_any (h₂ : W.Readable (i + 2)) :
    Prints W (i915_get_instruction_src2 i) fun _ _ => True := by
  refine Prints.bind_iff.mpr (data_iff.mpr ⟨h₂, ?_⟩)
  exact (i915_get_instruction_src_name_any _ _).bind fun _ _ _ => Prints.pure_iff.mpr trivial

/-- The line of the instruction, and the two behind it. -/
theorem i915_lines_any (fmt instrPrefix : String) (args : List Arg) :
    Prints W (do instr_out i fmt args; i915_rest i instrPrefix) fun _ _ => True := by
  simp only [i915_rest, Prints.bind_iff, instr_out_iff]

theorem i915_decode_alu1_any (h₀ : W.Readable i) (h₁ : W.Readable (i + 1)) (instrPrefix op_name : String) :
    Prints W (i915_decode_alu1 i instrPrefix op_name) fun _ _ => True :=
  (i915_get_instruction_dst_any h₀ true).bind fun _ _ _ =>
    (i915_get_instruction_src0_any h₀ h₁).bind fun _ _ _ => i915_lines_any _ _ _

theorem i915_decode_alu2_any (h₀ : W.Readable i) (h₁ : W.Readable (i + 1)) (h₂ : W.Readable (i + 2))
    (instrPrefix op_name : String) : Prints W (i915_decode_alu2 i instrPrefix op_name) fun _ _ => True :=
  (i915_get_instruction_dst_any h₀ true).bind fun _ _ _ =>
    (i915_get_instruction_src0_any h₀ h₁).bind fun _ _ _ =>
      (i915_get_instruction_src1_any h₁ h₂).bind fun _ _ _ => i915_lines_any _ _ _

theorem i915_decode_alu3_any (h₀ : W.Readable i) (h₁ : W.Readable (i + 1)) (h₂ : W.Readable (i + 2))
    (instrPrefix op_name : String) : Prints W (i915_decode_alu3 i instrPrefix op_name) fun _ _ => True :=
  (i915_get_instruction_dst_any h₀ true).bind fun _ _ _ =>
    (i915_get_instruction_src0_any h₀ h₁).bind fun _ _ _ =>
      (i915_get_instruction_src1_any h₁ h₂).bind fun _ _ _ =>
        (i915_get_instruction_src2_any h₂).bind fun _ _ _ => i915_lines_any _ _ _

theorem i915_decode_tex_any (h₀ : W.Readable i) (h₁ : W.Readable (i + 1)) (instrPrefix tex_name : String) :
    Prints W (i915_decode_tex i instrPrefix tex_name) fun _ _ => True := by
  refine Prints.bind_iff.mpr (data_iff.mpr ⟨h₀, Prints.bind_iff.mpr (data_iff.mpr ⟨h₁, ?_⟩)⟩)
  refine (i915_get_instruction_dst_any h₀ false).bind fun _ _ _ => ?_
  exact (i915_get_instruction_addr_any _ _).bind fun _ _ _ => i915_lines_any _ _ _

theorem i915_decode_dcl_any (h₀ : W.Readable i) (instrPrefix : String) :
    Prints W (i915_decode_dcl i instrPrefix) fun _ _ => True := by
  refine Prints.bind_iff.mpr (data_iff.mpr ⟨h₀, ?_⟩)
  dsimp only
  split <;> simp only [i915_dcl_t, i915_rest, Prints.bind_iff, whenever_iff, Prints.ite_iff, instr_out_iff, fprintf_iff,
    implies_true, and_self]

theorem i915_decode_instruction_any (h₀ : W.Readable i) (h₁ : W.Readable (i + 1)) (h₂ : W.Readable (i + 2))
    (instrPrefix : String) : Prints W (i915_decode_instruction i instrPrefix) fun _ _ => True := by
  refine Prints.bind_iff.mpr (data_iff.mpr ⟨h₀, ?_⟩)
  split
  · exact i915_lines_any _ _ _
  · exact i915_decode_alu2_any h₀ h₁ h₂ _ _
  · exact i915_decode_alu1_any h₀ h₁ _ _
  · exact i915_decode_alu2_any h₀ h₁ h₂ _ _
  · exact i915_decode_alu3_any h₀ h₁ h₂ _ _
  · exact i915_decode_alu3_any h₀ h₁ h₂ _ _
  · exact i915_decode_alu2_any h₀ h₁ h₂ _ _
  · exact i915_decode_alu2_any h₀ h₁ h₂ _ _
  · exact i915_decode_alu1_any h₀ h₁ _ _
  · exact i915_decode_alu1_any h₀ h₁ _ _
  · exact i915_decode_alu1_any h₀ h₁ _ _
  · exact i915_decode_alu1_any h₀ h₁ _ _
  · exact i915_decode_alu1_any h₀ h₁ _ _
  · exact i915_decode_alu2_any h₀ h₁ h₂ _ _
  · exact i915_decode_alu2_any h₀ h₁ h₂ _ _
  · exact i915_decode_alu2_any h₀ h₁ h₂ _ _
  · exact i915_decode_alu1_any h₀ h₁ _ _
  · exact i915_decode_alu1_any h₀ h₁ _ _
  · exact i915_decode_alu1_any h₀ h₁ _ _
  · exact i915_decode_alu2_any h₀ h₁ h₂ _ _
  · exact i915_decode_alu2_any h₀ h₁ h₂ _ _
  · exact i915_decode_tex_any h₀ h₁ _ _
  · exact i915_decode_tex_any h₀ h₁ _ _
  · exact i915_decode_tex_any h₀ h₁ _ _
  · exact i915_decode_dcl_any h₀ _
  · exact i915_lines_any _ _ _

end Specs

end LibDrm.Decode
