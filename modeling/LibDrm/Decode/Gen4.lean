/-
# `LibDrm.Decode.Gen4` — the decoder of 3D packets from i965 on

A table gives the length of a packet, and for some packets of one generation a decoder of their own;
a `switch` comes first.  The two loops over dwords that are looked at, of vertex buffers and of vertex
elements, are for packets whose length is a field of eight bits.
-/
import LibDrm.Decode.State

namespace LibDrm.Decode

def get_965_surfacetype : Nat → String
  | 0 => "1D"
  | 1 => "2D"
  | 2 => "3D"
  | 3 => "CUBE"
  | 4 => "BUFFER"
  | 7 => "NULL"
  | _ => "unknown"

def get_965_depthformat : Nat → String
  | 0 => "s8_z24float"
  | 1 => "z32float"
  | 2 => "z24s8"
  | 5 => "z16"
  | _ => "unknown"

def get_965_element_component (d : BitVec 32) (component : Nat) : String :=
  match field d (16 + (3 - component) * 4) 0x7 with
  | 0 => "nostore"
  | 1 => ["X", "Y", "Z", "W"].getD component "fail"
  | 2 => "0.0"
  | 3 => "1.0"
  | 4 => "0x1"
  | 5 => "VID"
  | _ => "fail"

def get_965_prim_type : Nat → String
  | 0x01 => "point list"
  | 0x02 => "line list"
  | 0x03 => "line strip"
  | 0x04 => "tri list"
  | 0x05 => "tri strip"
  | 0x06 => "tri fan"
  | 0x07 => "quad list"
  | 0x08 => "quad strip"
  | 0x09 => "line list adj"
  | 0x0a => "line strip adj"
  | 0x0b => "tri list adj"
  | 0x0c => "tri strip adj"
  | 0x0d => "tri strip reverse"
  | 0x0e => "polygon"
  | 0x0f => "rect list"
  | 0x10 => "line loop"
  | 0x11 => "point list bf"
  | 0x12 => "line strip cont"
  | 0x13 => "line strip bf"
  | 0x14 => "line strip cont bf"
  | 0x15 => "tri fan no stipple"
  | _ => "fail"

/-- The texts of the dwords from `i` on. -/
def lines : Nat → List String → Decoder Unit
  | _, [] => pure ()
  | i, fmt :: fmts => do
      instr_out i fmt []
      lines (i + 1) fmts

def i965_decode_urb_fence (len : Nat) : Decoder Nat := do
  bad_count len 3 "URB_FENCE"
  let d₀ ← data 0
  let d₁ ← data 1
  let d₂ ← data 2
  let vs_fence := field d₁ 0 0x3ff
  let gs_fence := field d₁ 10 0x3ff
  let clip_fence := field d₁ 20 0x3ff
  let sf_fence := field d₂ 0 0x3ff
  let vfe_fence := field d₂ 10 0x3ff
  let cs_fence := field d₂ 20 0x7ff
  instr_out 0 "URB_FENCE: %s%s%s%s%s%s\n"
    [flag (bit d₀ 13) "cs ", flag (bit d₀ 12) "vfe ", flag (bit d₀ 11) "sf ", flag (bit d₀ 10) "clip ",
     flag (bit d₀ 9) "gs ", flag (bit d₀ 8) "vs "]
  instr_out 1 "vs fence: %d, clip_fence: %d, gs_fence: %d\n" [vs_fence, clip_fence, gs_fence]
  instr_out 2 "sf fence: %d, vfe_fence: %d, cs_fence: %d\n" [sf_fence, vfe_fence, cs_fence]
  whenever (gs_fence < vs_fence) <| fprintf "gs fence < vs fence!\n" []
  whenever (clip_fence < gs_fence) <| fprintf "clip fence < gs fence!\n" []
  whenever (sf_fence < clip_fence) <| fprintf "sf fence < clip fence!\n" []
  whenever (cs_fence < sf_fence) <| fprintf "cs fence < sf fence!\n" []
  pure len

def state_base_out (index : Nat) (name : String) : Decoder Unit := do
  let d ← data index
  if bit d 0 then instr_out index "%s state base address 0x%08x\n" [name, bits d 0 (~~~1)]
  else instr_out index "%s state base not updated\n" [name]

def state_max_out (index : Nat) (name : String) : Decoder Unit := do
  let d ← data index
  if bit d 0 then
    if d = 1 then instr_out index "%s state upper bound disabled\n" [name]
    else instr_out index "%s state upper bound 0x%08x\n" [name, bits d 0 (~~~1)]
  else instr_out index "%s state upper bound not updated\n" [name]

/-! ## Packets of one generation -/

def gen7_3DSTATE_VIEWPORT_STATE_POINTERS_CC : Decoder Nat := do
  lines 0 ["3DSTATE_VIEWPORT_STATE_POINTERS_CC\n", "pointer to CC viewport\n"]
  pure 2

def gen7_3DSTATE_VIEWPORT_STATE_POINTERS_SF_CLIP : Decoder Nat := do
  lines 0 ["3DSTATE_VIEWPORT_STATE_POINTERS_SF_CLIP\n", "pointer to SF_CLIP viewport\n"]
  pure 2

/-- A pointer to a state, with its changed bit. -/
def state_pointer (packet fmt : String) : Decoder Nat := do
  instr_out 0 packet []
  let d ← data 1
  instr_out 1 fmt [bits d 0 (~~~1), if bit d 0 then "changed" else "unchanged"]
  pure 2

def gen7_3DSTATE_BLEND_STATE_POINTERS : Decoder Nat :=
  state_pointer "3DSTATE_BLEND_STATE_POINTERS\n" "pointer to BLEND_STATE at 0x%08x (%s)\n"

def gen7_3DSTATE_DEPTH_STENCIL_STATE_POINTERS : Decoder Nat :=
  state_pointer "3DSTATE_DEPTH_STENCIL_STATE_POINTERS\n" "pointer to DEPTH_STENCIL_STATE at 0x%08x (%s)\n"

def gen7_3DSTATE_CC_STATE_POINTERS : Decoder Nat :=
  state_pointer "3DSTATE_CC_STATE_POINTERS\n" "pointer to COLOR_CALC_STATE at 0x%08x (%s)\n"

def gen7_3DSTATE_HIER_DEPTH_BUFFER : Decoder Nat := do
  instr_out 0 "3DSTATE_HIER_DEPTH_BUFFER\n" []
  let d ← data 1
  instr_out 1 "pitch %db\n" [.word (bits d 0 0x1ffff + 1)]
  instr_out 2 "pointer to HiZ buffer\n" []
  pure 3

def gen6_3DSTATE_CC_STATE_POINTERS : Decoder Nat := do
  instr_out 0 "3DSTATE_CC_STATE_POINTERS\n" []
  let d₁ ← data 1
  instr_out 1 "blend change %d\n" [bits d₁ 0 1]
  let d₂ ← data 2
  instr_out 2 "depth stencil change %d\n" [bits d₂ 0 1]
  let d₃ ← data 3
  instr_out 3 "cc change %d\n" [bits d₃ 0 1]
  pure 4

def gen7_3DSTATE_URB_unit (unit : String) : Decoder Nat := do
  let d ← data 1
  let start_kb := bits d 25 0x3f * 8
  let entry_size := bits d 16 0x1ff + 1
  let nr_entries := bits d 0 0xffff
  instr_out 0 "3DSTATE_URB_%s\n" [unit]
  instr_out 1 "%dKB start, size=%d 64B rows, nr_entries=%d, total size %dB\n"
    [start_kb, entry_size, nr_entries, .word (nr_entries * 64 * entry_size)]
  pure 2

def gen7_3DSTATE_URB_VS : Decoder Nat := gen7_3DSTATE_URB_unit "VS"

def gen7_3DSTATE_URB_HS : Decoder Nat := gen7_3DSTATE_URB_unit "HS"

def gen7_3DSTATE_URB_DS : Decoder Nat := gen7_3DSTATE_URB_unit "DS"

def gen7_3DSTATE_URB_GS : Decoder Nat := gen7_3DSTATE_URB_unit "GS"

def gen7_3DSTATE_CONSTANT (unit : String) : Decoder Nat := do
  let d₁ ← data 1
  let d₂ ← data 2
  instr_out 0 "3DSTATE_CONSTANT_%s\n" [unit]
  instr_out 1 "len 0 = %d, len 1 = %d\n" [bits d₁ 0 0xffff, bits d₁ 16 0xffff]
  instr_out 2 "len 2 = %d, len 3 = %d\n" [bits d₂ 0 0xffff, bits d₂ 16 0xffff]
  lines 3 ["pointer to constbuf 0\n", "pointer to constbuf 1\n", "pointer to constbuf 2\n", "pointer to constbuf 3\n"]
  pure 7

def gen7_3DSTATE_CONSTANT_VS : Decoder Nat := gen7_3DSTATE_CONSTANT "VS"

def gen7_3DSTATE_CONSTANT_GS : Decoder Nat := gen7_3DSTATE_CONSTANT "GS"

def gen7_3DSTATE_CONSTANT_PS : Decoder Nat := gen7_3DSTATE_CONSTANT "PS"

def gen7_3DSTATE_CONSTANT_DS : Decoder Nat := gen7_3DSTATE_CONSTANT "DS"

def gen7_3DSTATE_CONSTANT_HS : Decoder Nat := gen7_3DSTATE_CONSTANT "HS"

/-- The dword of a kernel's sampler and binding table counts. -/
def kernel_counts (index : Nat) : Decoder Unit := do
  let d ← data index
  instr_out index ("SPF=%d, VME=%d, Sampler Count %d, " ++ "Binding table count %d\n")
    [bits d 31 1, bits d 30 1, bits d 27 7, bits d 18 0xff]

def gen6_3DSTATE_WM : Decoder Nat := do
  lines 0 ["3DSTATE_WM\n", "kernel start pointer 0\n"]
  kernel_counts 2
  instr_out 3 "scratch offset\n" []
  let d₄ ← data 4
  instr_out 4 ("Depth Clear %d, Depth Resolve %d, HiZ Resolve %d, " ++
      "Dispatch GRF start[0] %d, start[1] %d, start[2] %d\n")
    [bit d₄ 30, bit d₄ 28, bit d₄ 27, bits d₄ 16 0x7f, bits d₄ 8 0x7f, bits d₄ 0 0x7f]
  let d₅ ← data 5
  instr_out 5 ("MaxThreads %d, PS KillPixel %d, PS computed Z %d, " ++
      "PS use sourceZ %d, Thread Dispatch %d, PS use sourceW %d, " ++ "Dispatch32 %d, Dispatch16 %d, Dispatch8 %d\n")
    [.word (bits d₅ 25 0x7f + 1), bit d₅ 22, bit d₅ 21, bit d₅ 20, bit d₅ 19, bit d₅ 8, bit d₅ 2, bit d₅ 1, bit d₅ 0]
  let d₆ ← data 6
  instr_out 6 ("Num SF output %d, Pos XY offset %d, ZW interp mode %d , " ++
      "Barycentric interp mode 0x%x, Point raster rule %d, " ++ "Multisample mode %d, " ++ "Multisample Dispatch mode %d\n")
    [bits d₆ 20 0x3f, bits d₆ 18 3, bits d₆ 16 3, bits d₆ 10 0x3f, bit d₆ 9, bits d₆ 1 3, bits d₆ 0 1]
  lines 7 ["kernel start pointer 1\n", "kernel start pointer 2\n"]
  pure 9

def computed_depth : Nat → String
  | 0 => ""
  | 1 => "computed depth"
  | 2 => "computed depth >="
  | _ => "computed depth <="

/-- What the third `switch` puts in the place of the second. -/
def early_depth : Nat → String
  | 0 => ""
  | 1 => ", BAD ZW interp"
  | 2 => ", ZW centroid"
  | _ => ", ZW sample"

/-- `zw_interp` stays empty. -/
def gen7_3DSTATE_WM : Decoder Nat := do
  let d ← data 1
  instr_out 0 "3DSTATE_WM\n" []
  instr_out 1 "(%s%s%s%s%s%s)%s%s%s%s%s%s%s%s%s%s%s%s%s%s\n"
    [flag (bit d 11) "PP ", flag (bit d 12) "PC ", flag (bit d 13) "PS ", flag (bit d 14) "NPP ", flag (bit d 15) "NPC ",
     flag (bit d 16) "NPS ", flag (bit d 30) ", depth clear", flag (!bit d 29) ", disabled",
     flag (bit d 28) ", depth resolve", flag (bit d 27) ", hiz resolve", flag (bit d 25) ", kill",
     computed_depth (field d 23 0x3), early_depth (field d 17 0x3), "", flag (bit d 20) ", source depth",
     flag (bit d 19) ", source W", flag (bit d 10) ", coverage", flag (bit d 4) ", poly stipple",
     flag (bit d 3) ", line stipple", if bit d 2 then ", point UL" else ", point UR"]
  instr_out 2 "MS\n" []
  pure 3

def gen4_3DPRIMITIVE : Decoder Nat := do
  let d ← data 0
  instr_out 0 "3DPRIMITIVE: %s %s\n" [get_965_prim_type (field d 10 0x1f), if bit d 15 then "random" else "sequential"]
  lines 1 ["vertex count\n", "start vertex\n", "instance count\n", "start instance\n", "index bias\n"]
  pure 6

def gen7_3DPRIMITIVE : Decoder Nat := do
  let d₀ ← data 0
  let indirect := bit d₀ 10
  instr_out 0 "3DPRIMITIVE: %s%s\n" [flag indirect " indirect", flag (bit d₀ 8) " predicated"]
  let d₁ ← data 1
  instr_out 1 "%s %s\n" [get_965_prim_type (field d₁ 0 0x3f), if bit d₁ 8 then "random" else "sequential"]
  lines 2 (["vertex count\n", "start vertex\n", "instance count\n", "start instance\n", "index bias\n"].map fun fmt =>
    if indirect then "ignored" else fmt)
  pure 7

/-! ## The table -/

/-- A row of `opcodes_3d`; generation 0 is for all, and `name` is `NULL` where `func` prints it. -/
structure Opcode965 where
  opcode : Nat
  len_mask : BitVec 32
  min_len : Nat
  max_len : Nat
  name : Option String
  gen : Nat
  func : Option (Decoder Nat)

def opcodes_965 : List Opcode965 :=
  [⟨0x6000, 0x00ff, 3, 3, "URB_FENCE", 0, none⟩,
   ⟨0x6001, 0xffff, 2, 2, "CS_URB_STATE", 0, none⟩,
   ⟨0x6002, 0x00ff, 2, 2, "CONSTANT_BUFFER", 0, none⟩,
   ⟨0x6101, 0xffff, 6, 10, "STATE_BASE_ADDRESS", 0, none⟩,
   ⟨0x6102, 0xffff, 2, 2, "STATE_SIP", 0, none⟩,
   ⟨0x6104, 0xffff, 1, 1, "3DSTATE_PIPELINE_SELECT", 0, none⟩,
   ⟨0x680b, 0xffff, 1, 1, "3DSTATE_VF_STATISTICS", 0, none⟩,
   ⟨0x6904, 0xffff, 1, 1, "3DSTATE_PIPELINE_SELECT", 0, none⟩,
   ⟨0x7800, 0xffff, 7, 7, "3DSTATE_PIPELINED_POINTERS", 0, none⟩,
   ⟨0x7801, 0x00ff, 4, 6, "3DSTATE_BINDING_TABLE_POINTERS", 0, none⟩,
   ⟨0x7802, 0x00ff, 4, 4, "3DSTATE_SAMPLER_STATE_POINTERS", 0, none⟩,
   ⟨0x7805, 0x00ff, 7, 7, "3DSTATE_DEPTH_BUFFER", 7, none⟩,
   ⟨0x7805, 0x00ff, 3, 3, "3DSTATE_URB", 0, none⟩,
   ⟨0x7804, 0x00ff, 3, 3, "3DSTATE_CLEAR_PARAMS", 0, none⟩,
   ⟨0x7806, 0x00ff, 3, 3, "3DSTATE_STENCIL_BUFFER", 0, none⟩,
   ⟨0x790f, 0x00ff, 3, 3, "3DSTATE_HIER_DEPTH_BUFFER", 6, none⟩,
   ⟨0x7807, 0x00ff, 3, 3, "3DSTATE_HIER_DEPTH_BUFFER", 7, some gen7_3DSTATE_HIER_DEPTH_BUFFER⟩,
   ⟨0x7808, 0x00ff, 5, 257, "3DSTATE_VERTEX_BUFFERS", 0, none⟩,
   ⟨0x7809, 0x00ff, 3, 256, "3DSTATE_VERTEX_ELEMENTS", 0, none⟩,
   ⟨0x780a, 0x00ff, 3, 3, "3DSTATE_INDEX_BUFFER", 0, none⟩,
   ⟨0x780b, 0xffff, 1, 1, "3DSTATE_VF_STATISTICS", 0, none⟩,
   ⟨0x780d, 0x00ff, 4, 4, "3DSTATE_VIEWPORT_STATE_POINTERS", 0, none⟩,
   ⟨0x780e, 0xffff, 4, 4, none, 6, some gen6_3DSTATE_CC_STATE_POINTERS⟩,
   ⟨0x780e, 0x00ff, 2, 2, none, 7, some gen7_3DSTATE_CC_STATE_POINTERS⟩,
   ⟨0x780f, 0x00ff, 2, 2, "3DSTATE_SCISSOR_POINTERS", 0, none⟩,
   ⟨0x7810, 0x00ff, 6, 6, "3DSTATE_VS", 0, none⟩,
   ⟨0x7811, 0x00ff, 7, 7, "3DSTATE_GS", 0, none⟩,
   ⟨0x7812, 0x00ff, 4, 4, "3DSTATE_CLIP", 0, none⟩,
   ⟨0x7813, 0x00ff, 20, 20, "3DSTATE_SF", 6, none⟩,
   ⟨0x7813, 0x00ff, 7, 7, "3DSTATE_SF", 7, none⟩,
   ⟨0x7814, 0x00ff, 3, 3, "3DSTATE_WM", 7, some gen7_3DSTATE_WM⟩,
   ⟨0x7814, 0x00ff, 9, 9, "3DSTATE_WM", 6, some gen6_3DSTATE_WM⟩,
   ⟨0x7815, 0x00ff, 5, 5, "3DSTATE_CONSTANT_VS_STATE", 6, none⟩,
   ⟨0x7815, 0x00ff, 7, 7, "3DSTATE_CONSTANT_VS", 7, some gen7_3DSTATE_CONSTANT_VS⟩,
   ⟨0x7816, 0x00ff, 5, 5, "3DSTATE_CONSTANT_GS_STATE", 6, none⟩,
   ⟨0x7816, 0x00ff, 7, 7, "3DSTATE_CONSTANT_GS", 7, some gen7_3DSTATE_CONSTANT_GS⟩,
   ⟨0x7817, 0x00ff, 5, 5, "3DSTATE_CONSTANT_PS_STATE", 6, none⟩,
   ⟨0x7817, 0x00ff, 7, 7, "3DSTATE_CONSTANT_PS", 7, some gen7_3DSTATE_CONSTANT_PS⟩,
   ⟨0x7818, 0xffff, 2, 2, "3DSTATE_SAMPLE_MASK", 0, none⟩,
   ⟨0x7819, 0x00ff, 7, 7, "3DSTATE_CONSTANT_HS", 7, some gen7_3DSTATE_CONSTANT_HS⟩,
   ⟨0x781a, 0x00ff, 7, 7, "3DSTATE_CONSTANT_DS", 7, some gen7_3DSTATE_CONSTANT_DS⟩,
   ⟨0x781b, 0x00ff, 7, 7, "3DSTATE_HS", 0, none⟩,
   ⟨0x781c, 0x00ff, 4, 4, "3DSTATE_TE", 0, none⟩,
   ⟨0x781d, 0x00ff, 6, 6, "3DSTATE_DS", 0, none⟩,
   ⟨0x781e, 0x00ff, 3, 3, "3DSTATE_STREAMOUT", 0, none⟩,
   ⟨0x781f, 0x00ff, 14, 14, "3DSTATE_SBE", 0, none⟩,
   ⟨0x7820, 0x00ff, 8, 8, "3DSTATE_PS", 0, none⟩,
   ⟨0x7821, 0x00ff, 2, 2, none, 7, some gen7_3DSTATE_VIEWPORT_STATE_POINTERS_SF_CLIP⟩,
   ⟨0x7823, 0x00ff, 2, 2, none, 7, some gen7_3DSTATE_VIEWPORT_STATE_POINTERS_CC⟩,
   ⟨0x7824, 0x00ff, 2, 2, none, 7, some gen7_3DSTATE_BLEND_STATE_POINTERS⟩,
   ⟨0x7825, 0x00ff, 2, 2, none, 7, some gen7_3DSTATE_DEPTH_STENCIL_STATE_POINTERS⟩,
   ⟨0x7826, 0x00ff, 2, 2, "3DSTATE_BINDING_TABLE_POINTERS_VS", 0, none⟩,
   ⟨0x7827, 0x00ff, 2, 2, "3DSTATE_BINDING_TABLE_POINTERS_HS", 0, none⟩,
   ⟨0x7828, 0x00ff, 2, 2, "3DSTATE_BINDING_TABLE_POINTERS_DS", 0, none⟩,
   ⟨0x7829, 0x00ff, 2, 2, "3DSTATE_BINDING_TABLE_POINTERS_GS", 0, none⟩,
   ⟨0x782a, 0x00ff, 2, 2, "3DSTATE_BINDING_TABLE_POINTERS_PS", 0, none⟩,
   ⟨0x782b, 0x00ff, 2, 2, "3DSTATE_SAMPLER_STATE_POINTERS_VS", 0, none⟩,
   ⟨0x782c, 0x00ff, 2, 2, "3DSTATE_SAMPLER_STATE_POINTERS_HS", 0, none⟩,
   ⟨0x782d, 0x00ff, 2, 2, "3DSTATE_SAMPLER_STATE_POINTERS_DS", 0, none⟩,
   ⟨0x782e, 0x00ff, 2, 2, "3DSTATE_SAMPLER_STATE_POINTERS_GS", 0, none⟩,
   ⟨0x782f, 0x00ff, 2, 2, "3DSTATE_SAMPLER_STATE_POINTERS_PS", 0, none⟩,
   ⟨0x7830, 0x00ff, 2, 2, none, 7, some gen7_3DSTATE_URB_VS⟩,
   ⟨0x7831, 0x00ff, 2, 2, none, 7, some gen7_3DSTATE_URB_HS⟩,
   ⟨0x7832, 0x00ff, 2, 2, none, 7, some gen7_3DSTATE_URB_DS⟩,
   ⟨0x7833, 0x00ff, 2, 2, none, 7, some gen7_3DSTATE_URB_GS⟩,
   ⟨0x7900, 0xffff, 4, 4, "3DSTATE_DRAWING_RECTANGLE", 0, none⟩,
   ⟨0x7901, 0xffff, 5, 5, "3DSTATE_CONSTANT_COLOR", 0, none⟩,
   ⟨0x7905, 0xffff, 5, 7, "3DSTATE_DEPTH_BUFFER", 0, none⟩,
   ⟨0x7906, 0xffff, 2, 2, "3DSTATE_POLY_STIPPLE_OFFSET", 0, none⟩,
   ⟨0x7907, 0xffff, 33, 33, "3DSTATE_POLY_STIPPLE_PATTERN", 0, none⟩,
   ⟨0x7908, 0xffff, 3, 3, "3DSTATE_LINE_STIPPLE", 0, none⟩,
   ⟨0x7909, 0xffff, 2, 2, "3DSTATE_GLOBAL_DEPTH_OFFSET_CLAMP", 0, none⟩,
   ⟨0x7909, 0xffff, 2, 2, "3DSTATE_CLEAR_PARAMS", 0, none⟩,
   ⟨0x790a, 0xffff, 3, 3, "3DSTATE_AA_LINE_PARAMETERS", 0, none⟩,
   ⟨0x790b, 0xffff, 4, 4, "3DSTATE_GS_SVB_INDEX", 0, none⟩,
   ⟨0x790d, 0xffff, 3, 3, "3DSTATE_MULTISAMPLE", 6, none⟩,
   ⟨0x790d, 0xffff, 4, 4, "3DSTATE_MULTISAMPLE", 7, none⟩,
   ⟨0x7910, 0x00ff, 2, 2, "3DSTATE_CLEAR_PARAMS", 0, none⟩,
   ⟨0x7912, 0x00ff, 2, 2, "3DSTATE_PUSH_CONSTANT_ALLOC_VS", 0, none⟩,
   ⟨0x7913, 0x00ff, 2, 2, "3DSTATE_PUSH_CONSTANT_ALLOC_HS", 0, none⟩,
   ⟨0x7914, 0x00ff, 2, 2, "3DSTATE_PUSH_CONSTANT_ALLOC_DS", 0, none⟩,
   ⟨0x7915, 0x00ff, 2, 2, "3DSTATE_PUSH_CONSTANT_ALLOC_GS", 0, none⟩,
   ⟨0x7916, 0x00ff, 2, 2, "3DSTATE_PUSH_CONSTANT_ALLOC_PS", 0, none⟩,
   ⟨0x7917, 0x00ff, 2, 2 + 128 * 2, "3DSTATE_SO_DECL_LIST", 0, none⟩,
   ⟨0x7918, 0x00ff, 4, 4, "3DSTATE_SO_BUFFER", 0, none⟩,
   ⟨0x7a00, 0x00ff, 4, 6, "PIPE_CONTROL", 0, none⟩,
   ⟨0x7b00, 0x00ff, 7, 7, none, 7, some gen7_3DPRIMITIVE⟩,
   ⟨0x7b00, 0x00ff, 6, 6, none, 0, some gen4_3DPRIMITIVE⟩]

/-- "If it's marked as not our gen, skip." -/
def row_965 (gen opcode : Nat) : Option Opcode965 :=
  opcodes_965.find? fun row => opcode == row.opcode && (row.gen == 0 || row.gen == gen)

/-- What `%s` prints of the name. -/
def Opcode965.label (row : Opcode965) : String := row.name.getD "(null)"

def length_965 (row : Option Opcode965) (d : BitVec 32) : Decoder Nat :=
  match row with
  | none => pure (field d 0 0xffff + 2)
  | some row => do
      let len := if row.max_len = 1 then 1 else field d 0 row.len_mask + 2
      whenever (len < row.min_len ∨ len > row.max_len) <|
        fprintf "Bad length %d in %s, expected %d-%d\n" [len, row.label, row.min_len, row.max_len]
      pure len

/-! ## The packets of the `switch` -/

def cs_urb_state : Decoder Unit := do
  instr_out 0 "CS_URB_STATE\n" []
  let d ← data 1
  instr_out 1 "entry_size: %d [%d bytes], n_entries: %d\n" [bits d 4 0x1f, .word ((bits d 4 0x1f + 1) * 64), bits d 0 0x7]

def constant_buffer : Decoder Unit := do
  let d₀ ← data 0
  instr_out 0 "CONSTANT_BUFFER: %s\n" [if bit d₀ 8 then "valid" else "invalid"]
  let d₁ ← data 1
  instr_out 1 "offset: 0x%08x, length: %d bytes\n" [bits d₁ 0 (~~~0x3f), .word ((bits d₁ 0 0x3f + 1) * 64)]

/-- The names of the base addresses, and of the bounds behind them. -/
def sba_names (devid : Chipset) : List String × List String :=
  let six := devid.IS_GEN6 || devid.IS_GEN7
  let five := devid.IS_GEN5 || devid.IS_GEN6 || devid.IS_GEN7
  (["general", "surface"] ++ (if six then ["dynamic"] else []) ++ ["indirect"] ++ (if five then ["instruction"] else []),
    ["general"] ++ (if six then ["dynamic"] else []) ++ ["indirect"] ++ (if five then ["instruction"] else []))

/-- One after the other, from dword `i` on. -/
def each_name (out : Nat → String → Decoder Unit) (i : Nat) (names : List String) : Decoder Nat :=
  names.foldlM (fun i name => do
    out i name
    pure (i + 1)) i

def state_base_address (devid : Chipset) (len : Nat) : Decoder Unit := do
  instr_out 0 "STATE_BASE_ADDRESS\n" []
  let sba_len := if devid.IS_GEN6 || devid.IS_GEN7 then 10 else if devid.IS_GEN5 then 8 else 6
  bad_count len sba_len "STATE_BASE_ADDRESS"
  let i ← each_name state_base_out 1 (sba_names devid).1
  let _ ← each_name state_max_out i (sba_names devid).2

def pipelined_pointers : Decoder Unit :=
  lines 0 ["3DSTATE_PIPELINED_POINTERS\n", "VS state\n", "GS state\n", "Clip state\n", "SF state\n", "WM state\n",
    "CC state\n"]

/-- Which of three units are modified. -/
def modified (fmt : String) : Decoder Unit := do
  let d ← data 0
  instr_out 0 (fmt ++ "GS mod %d, PS mod %d\n") [bit d 8, bit d 9, bit d 12]

def binding_table_pointers (len : Nat) : Decoder Unit := do
  whenever (len ≠ 6 ∧ len ≠ 4) <| fprintf "Bad count in 3DSTATE_BINDING_TABLE_POINTERS\n" []
  if len = 6 then
    lines 0 ["3DSTATE_BINDING_TABLE_POINTERS\n", "VS binding table\n", "GS binding table\n", "Clip binding table\n",
      "SF binding table\n", "WM binding table\n"]
  else do
    modified "3DSTATE_BINDING_TABLE_POINTERS: VS mod %d, "
    lines 1 ["VS binding table\n", "GS binding table\n", "WM binding table\n"]

def sampler_state_pointers : Decoder Unit := do
  modified "3DSTATE_SAMPLER_STATE_POINTERS: VS mod %d, "
  lines 1 ["VS sampler state\n", "GS sampler state\n", "WM sampler state\n"]

def urb : Decoder Unit := do
  instr_out 0 "3DSTATE_URB\n" []
  let d₁ ← data 1
  instr_out 1 "VS entries %d, alloc size %d (1024bit row)\n" [bits d₁ 0 0xffff, .word (bits d₁ 16 0x7f + 1)]
  let d₂ ← data 2
  instr_out 2 "GS entries %d, alloc size %d (1024bit row)\n" [bits d₂ 8 0x3ff, .word (bits d₂ 0 7 + 1)]

/-- `i` runs over 1, 5, .. below the length. -/
def vertex_buffers (devid : Chipset) (len : Nat) : Decoder Unit := do
  whenever ((len - 1) % 4 ≠ 0) <| fprintf "Bad count in 3DSTATE_VERTEX_BUFFERS\n" []
  instr_out 0 "3DSTATE_VERTEX_BUFFERS\n" []
  (List.range' 1 ((len + 2) / 4) 4).forM fun i => do
    let idx := if devid.IS_GEN6 then 26 else 27
    let access := if devid.IS_GEN6 then 20 else 26
    let d ← data i
    instr_out i "buffer %d: %s, pitch %db\n" [d >>> idx, if bit d access then "random" else "sequential", bits d 0 0x07ff]
    lines (i + 1) ["buffer address\n", "max index\n", "mbz\n"]

/-- `i` runs over 1, 3, .. below the length. -/
def vertex_elements (devid : Chipset) (len : Nat) : Decoder Unit := do
  whenever ((len + 1) % 2 ≠ 0) <| fprintf "Bad count in 3DSTATE_VERTEX_ELEMENTS\n" []
  instr_out 0 "3DSTATE_VERTEX_ELEMENTS\n" []
  (List.range' 1 (len / 2) 2).forM fun i => do
    let six := devid.IS_GEN6 || devid.IS_GEN7
    let d ← data i
    instr_out i ("buffer %d: %svalid, type 0x%04x, " ++ "src offset 0x%04x bytes\n")
      [d >>> (if six then 26 else 27), flag (!bit d (if six then 25 else 26)) "in", bits d 16 0x1ff, bits d 0 0x07ff]
    let d ← data (i + 1)
    instr_out (i + 1) ("(%s, %s, %s, %s), " ++ "dst offset 0x%02x bytes\n")
      [get_965_element_component d 0, get_965_element_component d 1, get_965_element_component d 2,
       get_965_element_component d 3, .word (bits d 0 0xff * 4)]

/-- "en" or "dis", of what is `able`. -/
def able (c : Bool) : String := enabled c

def vs : Decoder Unit := do
  lines 0 ["3DSTATE_VS\n", "kernel pointer\n"]
  kernel_counts 2
  instr_out 3 "scratch offset\n" []
  let d₄ ← data 4
  instr_out 4 ("Dispatch GRF start %d, VUE read length %d, " ++ "VUE read offset %d\n")
    [bits d₄ 20 0x1f, bits d₄ 11 0x3f, bits d₄ 4 0x3f]
  let d₅ ← data 5
  instr_out 5 ("Max Threads %d, Vertex Cache %sable, " ++ "VS func %sable\n")
    [.word (bits d₅ 25 0x7f + 1), able (!bit d₅ 1), able (bit d₅ 0)]

def gs : Decoder Unit := do
  lines 0 ["3DSTATE_GS\n", "kernel pointer\n"]
  kernel_counts 2
  instr_out 3 "scratch offset\n" []
  let d₄ ← data 4
  instr_out 4 ("Dispatch GRF start %d, VUE read length %d, " ++ "VUE read offset %d\n")
    [bits d₄ 0 0xf, bits d₄ 11 0x3f, bits d₄ 4 0x3f]
  let d₅ ← data 5
  instr_out 5 "Max Threads %d, Rendering %sable\n" [.word (bits d₅ 25 0x7f + 1), able (bit d₅ 8)]
  let d₆ ← data 6
  instr_out 6 ("Reorder %sable, Discard Adjaceny %sable, " ++ "GS %sable\n")
    [able (bit d₆ 30), able (bit d₆ 29), able (bit d₆ 15)]

def clip : Decoder Unit := do
  instr_out 0 "3DSTATE_CLIP\n" []
  let d₁ ← data 1
  instr_out 1 "UserClip distance cull test mask 0x%x\n" [bits d₁ 0 0xff]
  let d₂ ← data 2
  instr_out 2 ("Clip %sable, API mode %s, Viewport XY test %sable, " ++
      "Viewport Z test %sable, Guardband test %sable, Clip mode %d, " ++
      "Perspective Divide %sable, Non-Perspective Barycentric %sable, " ++
      "Tri Provoking %d, Line Provoking %d, Trifan Provoking %d\n")
    [able (bit d₂ 31), if bit d₂ 30 then "D3D" else "OGL", able (bit d₂ 28), able (bit d₂ 27), able (bit d₂ 26),
     bits d₂ 13 7, able (!bit d₂ 9), able (bit d₂ 8), bits d₂ 4 3, bits d₂ 2 3, bits d₂ 0 3]
  let d₃ ← data 3
  instr_out 3 ("Min PointWidth %d, Max PointWidth %d, " ++ "Force Zero RTAIndex %sable, Max VPIndex %d\n")
    [bits d₃ 17 0x7ff, bits d₃ 6 0x7ff, able (bit d₃ 5), bits d₃ 0 0xf]

/-- Two attributes in a dword. -/
def sf_attrib (i : Nat) : Decoder Unit := do
  let d ← data (8 + i)
  instr_out (i + 8) ("Attrib %d (Override %s%s%s%s, Const Source %d, Swizzle Select %d, " ++
      "Source %d); Attrib %d (Override %s%s%s%s, Const Source %d, Swizzle Select %d, Source %d)\n")
    [.word (BitVec.ofNat 32 (2 * i + 1)), flag (bit d 31) "W", flag (bit d 30) "Z", flag (bit d 29) "Y", flag (bit d 28) "X",
     bits d 25 3, bits d 22 3, bits d 16 0x1f, .word (BitVec.ofNat 32 (2 * i)), flag (bit d 15) "W", flag (bit d 14) "Z",
     flag (bit d 13) "Y", flag (bit d 12) "X", bits d 9 3, bits d 6 3, bits d 0 0x1f]

def sf : Decoder Unit := do
  instr_out 0 "3DSTATE_SF\n" []
  let d₁ ← data 1
  instr_out 1 ("Attrib Out %d, Attrib Swizzle %sable, VUE read length %d, " ++ "VUE read offset %d\n")
    [bits d₁ 22 0x3f, able (bit d₁ 21), bits d₁ 11 0x1f, bits d₁ 4 0x3f]
  let d₂ ← data 2
  instr_out 2 ("Legacy Global DepthBias %sable, FrontFace fill %d, BF fill %d, " ++
      "VP transform %sable, FrontWinding_%s\n")
    [able (bit d₂ 11), bits d₂ 5 3, bits d₂ 3 3, able (bit d₂ 1), if bit d₂ 0 then "CCW" else "CW"]
  let d₃ ← data 3
  instr_out 3 "AA %sable, CullMode %d, Scissor %sable, Multisample m ode %d\n"
    [able (bit d₃ 31), bits d₃ 29 3, able (bit d₃ 11), bits d₃ 8 3]
  let d₄ ← data 4
  instr_out 4 "Last Pixel %sable, SubPixel Precision %d, Use PixelWidth %d\n"
    [able (bit d₄ 31), .word (if bit d₄ 12 then 4 else 8), bit d₄ 11]
  let d₅ ← data 5
  instr_out 5 "Global Depth Offset Constant %f\n" [.float d₅]
  let d₆ ← data 6
  instr_out 6 "Global Depth Offset Scale %f\n" [.float d₆]
  let d₇ ← data 7
  instr_out 7 "Global Depth Offset Clamp %f\n" [.float d₇]
  (List.range 8).forM sf_attrib
  lines 16 ["Point Sprite TexCoord Enable\n", "Const Interp Enable\n", "Attrib 7-0 WrapShortest Enable\n",
    "Attrib 15-8 WrapShortest Enable\n"]

def drawing_rectangle_965 : Decoder Unit := do
  instr_out 0 "3DSTATE_DRAWING_RECTANGLE\n" []
  point 1 "top left: %d,%d\n"
  point 2 "bottom right: %d,%d\n"
  point 3 "origin: %d,%d\n"

def depth_buffer (devid : Chipset) (len : Nat) : Decoder Unit := do
  instr_out 0 "3DSTATE_DEPTH_BUFFER\n" []
  let d₁ ← data 1
  let surface : List Arg := [get_965_surfacetype (d₁ >>> 29).toNat, get_965_depthformat (field d₁ 18 0x7),
    .word (bits d₁ 0 0x1ffff + 1), flag (!bit d₁ 27) "not "]
  if devid.IS_GEN5 || devid.IS_GEN6 then
    instr_out 1 "%s, %s, pitch = %d bytes, %stiled, HiZ %d, Seperate Stencil %d\n" (surface ++ [(bit d₁ 22 : Arg), (bit d₁ 21 : Arg)])
  else instr_out 1 "%s, %s, pitch = %d bytes, %stiled\n" surface
  instr_out 2 "depth offset\n" []
  let d₃ ← data 3
  instr_out 3 "%dx%d\n" [.word (bits d₃ 6 0x1fff + 1), .word ((d₃ >>> 19) + 1)]
  instr_out 4 "volume depth\n" []
  whenever (len ≥ 6) <| instr_out 5 "\n" []
  whenever (len ≥ 7) <| instr_out 6 (if devid.IS_GEN6 then "\n" else "render target view extent\n") []

def pipe_control_write : Nat → String
  | 0 => "no write"
  | 1 => "qword write"
  | 2 => "PS_DEPTH_COUNT write"
  | _ => "TIMESTAMP write"

def pipe_control_gen6 (len : Nat) : Decoder Unit := do
  whenever (len ≠ 4 ∧ len ≠ 5) <| fprintf "Bad count in PIPE_CONTROL\n" []
  let d ← data 1
  instr_out 0 "PIPE_CONTROL\n" []
  instr_out 1 "%s, %s%s%s%s%s%s%s%s%s%s%s%s%s%s%s%s%s%s%s\n"
    [pipe_control_write (field d 14 0x3), flag (bit d 20) "cs stall, ", flag (bit d 19) "global snapshot count reset, ",
     flag (bit d 18) "tlb invalidate, ", flag (bit d 17) "gfdt flush, ", flag (bit d 17) "media state clear, ",
     flag (bit d 13) "depth stall, ", flag (bit d 12) "render target cache flush, ",
     flag (bit d 11) "instruction cache invalidate, ", flag (bit d 10) "texture cache invalidate, ",
     flag (bit d 9) "indirect state invalidate, ", flag (bit d 8) "notify irq, ", flag (bit d 7) "PIPE_CONTROL flush, ",
     flag (bit d 6) "protect mem app_id, ", flag (bit d 5) "DC flush, ", flag (bit d 4) "vf fetch invalidate, ",
     flag (bit d 3) "constant cache invalidate, ", flag (bit d 2) "state cache invalidate, ",
     flag (bit d 1) "stall at scoreboard, ", flag (bit d 0) "depth cache flush, "]
  if len = 5 then lines 2 ["destination address\n", "immediate dword low\n", "immediate dword high\n"]
  else (List.range' 2 (len - 2)).forM fun i => instr_out i "\n" []

def pipe_control_gen4 (len : Nat) : Decoder Unit := do
  bad_count len 4 "PIPE_CONTROL"
  let d ← data 0
  instr_out 0 ("PIPE_CONTROL: %s, %sdepth stall, %sRC write flush, " ++ "%sinst flush\n")
    [pipe_control_write (field d 14 0x3), flag (!bit d 13) "no ", flag (!bit d 12) "no ", flag (!bit d 11) "no "]
  lines 1 ["destination address\n", "immediate dword low\n", "immediate dword high\n"]

/-- What the `switch` prints of a packet, where it does not leave the packet to the table. -/
def switch_965 (devid : Chipset) (opcode len : Nat) : Option (Decoder Unit) :=
  match opcode with
  | 0x6001 => some cs_urb_state
  | 0x6002 => some constant_buffer
  | 0x6101 => some (state_base_address devid len)
  | 0x7800 => some pipelined_pointers
  | 0x7801 => some (binding_table_pointers len)
  | 0x7802 => some sampler_state_pointers
  -- "Actually 3DSTATE_DEPTH_BUFFER on gen7."
  | 0x7805 => if devid.gen = 7 then none else some urb
  | 0x7808 => some (vertex_buffers devid len)
  | 0x7809 => some (vertex_elements devid len)
  | 0x780d => some (lines 0 ["3DSTATE_VIEWPORT_STATE_POINTERS\n", "clip\n", "sf\n", "cc\n"])
  | 0x780a => some (lines 0 ["3DSTATE_INDEX_BUFFER\n", "beginning buffer address\n", "ending buffer address\n"])
  | 0x780f => some (lines 0 ["3DSTATE_SCISSOR_POINTERS\n", "scissor rect offset\n"])
  | 0x7810 => some vs
  | 0x7811 => some gs
  | 0x7812 => some clip
  | 0x7813 => if devid.gen = 7 then none else some sf
  | 0x7900 => some drawing_rectangle_965
  | 0x7905 => some (depth_buffer devid len)
  | 0x7a00 => some (if devid.IS_GEN6 || devid.IS_GEN7 then pipe_control_gen6 len else pipe_control_gen4 len)
  | _ => none

/-- Behind the `switch`. -/
def table_965 (row : Option Opcode965) (opcode len : Nat) : Decoder Nat :=
  match row with
  | some row =>
      match row.func with
      | some func => func
      | none => do
          instr_out 0 "%s\n" [row.label]
          dwords len
          pure len
  | none => do
      instr_out 0 "3D UNKNOWN: 3d_965 opcode = 0x%x\n" [opcode]
      pure 1

def decode_3d_965 : Decoder Nat := do
  let W ← ctx
  let d ← data 0
  let opcode := field d 16 0xffff
  let row := row_965 W.devid.gen opcode
  let len ← length_965 row d
  if opcode = 0x6000 then i965_decode_urb_fence len
  else
    match switch_965 W.devid opcode len with
    | some packet => do
        packet
        pure len
    | none => table_965 row opcode len

/-! ## Every packet is read within the page, and has a dword at least -/

section Specs

variable {W : Window}

theorem lines_any (i : Nat) (fmts : List String) : Prints W (lines i fmts) fun _ _ => True := by
  induction fmts generalizing i with
  | nil => exact Prints.pure_iff.mpr trivial
  | cons fmt fmts ih => exact Prints.andThen (instr_out_iff.mpr trivial) (ih (i + 1))

theorem i965_decode_urb_fence_spec (h : W.Paged) {len : Nat} (hlen : 1 ≤ len) :
    Prints W (i965_decode_urb_fence len) fun ret _ => 1 ≤ ret := by
  simp only [i965_decode_urb_fence, bad_count, Prints.bind_iff, data_iff, instr_out_iff, whenever_iff, fprintf_iff,
    Prints.pure_iff, hlen, h.readable (show 0 < W.count + 1024 by omega), h.readable (show 1 < W.count + 1024 by omega),
    h.readable (show 2 < W.count + 1024 by omega), implies_true, and_self]

/-- The texts of further dwords ask nothing. -/
theorem lines_iff {c : Prop} (i : Nat) (fmts : List String) : Prints W (lines i fmts) (fun _ _ => c) ↔ c :=
  (lines_any i fmts).iff_of fun _ _ _ => Iff.rfl

/-- The decoders that the table has for packets of one generation. -/
theorem funcs_965 : opcodes_965.filterMap Opcode965.func =
    [gen7_3DSTATE_HIER_DEPTH_BUFFER, gen6_3DSTATE_CC_STATE_POINTERS, gen7_3DSTATE_CC_STATE_POINTERS, gen7_3DSTATE_WM,
     gen6_3DSTATE_WM, gen7_3DSTATE_CONSTANT_VS, gen7_3DSTATE_CONSTANT_GS, gen7_3DSTATE_CONSTANT_PS,
     gen7_3DSTATE_CONSTANT_HS, gen7_3DSTATE_CONSTANT_DS, gen7_3DSTATE_VIEWPORT_STATE_POINTERS_SF_CLIP,
     gen7_3DSTATE_VIEWPORT_STATE_POINTERS_CC, gen7_3DSTATE_BLEND_STATE_POINTERS,
     gen7_3DSTATE_DEPTH_STENCIL_STATE_POINTERS, gen7_3DSTATE_URB_VS, gen7_3DSTATE_URB_HS, gen7_3DSTATE_URB_DS,
     gen7_3DSTATE_URB_GS, gen7_3DPRIMITIVE, gen4_3DPRIMITIVE] := rfl

theorem state_pointer_spec (h : W.Paged) (packet fmt : String) :
    Prints W (state_pointer packet fmt) fun ret _ => 1 ≤ ret := by
  refine Prints.bind_iff.mpr (instr_out_iff.mpr (Prints.bind_iff.mpr (data_iff.mpr ⟨h.readable (by omega), ?_⟩)))
  exact Prints.bind_iff.mpr (instr_out_iff.mpr (Prints.pure_iff.mpr (by omega)))

theorem gen7_3DSTATE_URB_unit_spec (h : W.Paged) (unit : String) :
    Prints W (gen7_3DSTATE_URB_unit unit) fun ret _ => 1 ≤ ret := by
  refine Prints.bind_iff.mpr (data_iff.mpr ⟨h.readable (by omega), ?_⟩)
  exact Prints.bind_iff.mpr (instr_out_iff.mpr (Prints.bind_iff.mpr (instr_out_iff.mpr (Prints.pure_iff.mpr (by omega)))))

theorem gen7_3DSTATE_CONSTANT_spec (h : W.Paged) (unit : String) :
    Prints W (gen7_3DSTATE_CONSTANT unit) fun ret _ => 1 ≤ ret := by
  simp only [gen7_3DSTATE_CONSTANT, Prints.bind_iff, data_iff, instr_out_iff, lines_iff, Prints.pure_iff]
  exact ⟨h.readable (by omega), h.readable (by omega), by omega⟩

/-- The decoders that read their dwords one by one. -/
theorem fixed_965_spec (h : W.Paged) {func : Decoder Nat}
    (hfunc : func ∈ [gen7_3DSTATE_HIER_DEPTH_BUFFER, gen6_3DSTATE_CC_STATE_POINTERS, gen7_3DSTATE_WM, gen6_3DSTATE_WM,
      gen7_3DSTATE_VIEWPORT_STATE_POINTERS_SF_CLIP, gen7_3DSTATE_VIEWPORT_STATE_POINTERS_CC, gen7_3DPRIMITIVE,
      gen4_3DPRIMITIVE]) : Prints W func fun ret _ => 1 ≤ ret := by
  have hread : ∀ i ≤ 6, W.Readable i := fun i hi => h.readable (by omega)
  simp only [List.mem_cons, List.not_mem_nil, or_false] at hfunc
  rcases hfunc with rfl | rfl | rfl | rfl | rfl | rfl | rfl | rfl <;>
    simp only [gen7_3DSTATE_HIER_DEPTH_BUFFER, gen6_3DSTATE_CC_STATE_POINTERS, gen7_3DSTATE_WM, gen6_3DSTATE_WM,
      gen7_3DSTATE_VIEWPORT_STATE_POINTERS_SF_CLIP, gen7_3DSTATE_VIEWPORT_STATE_POINTERS_CC, gen7_3DPRIMITIVE,
      gen4_3DPRIMITIVE, kernel_counts, Prints.bind_iff, data_iff, instr_out_iff, lines_iff, Prints.pure_iff, hread,
      Nat.reduceLeDiff, and_self]

theorem func_965_spec (h : W.Paged) {row : Opcode965} (hrow : row ∈ opcodes_965) {func : Decoder Nat}
    (hfunc : row.func = some func) : Prints W func fun ret _ => 1 ≤ ret := by
  have hmem : func ∈ opcodes_965.filterMap Opcode965.func := List.mem_filterMap.mpr ⟨row, hrow, hfunc⟩
  rw [funcs_965] at hmem
  simp only [List.mem_cons, List.not_mem_nil, or_false] at hmem
  rcases hmem with rfl | rfl | rfl | rfl | rfl | rfl | rfl | rfl | rfl | rfl | rfl | rfl | rfl | rfl | rfl | rfl | rfl |
    rfl | rfl | rfl
  · exact fixed_965_spec h (by simp)
  · exact fixed_965_spec h (by simp)
  · exact state_pointer_spec h _ _
  · exact fixed_965_spec h (by simp)
  · exact fixed_965_spec h (by simp)
  · exact gen7_3DSTATE_CONSTANT_spec h _
  · exact gen7_3DSTATE_CONSTANT_spec h _
  · exact gen7_3DSTATE_CONSTANT_spec h _
  · exact gen7_3DSTATE_CONSTANT_spec h _
  · exact gen7_3DSTATE_CONSTANT_spec h _
  · exact fixed_965_spec h (by simp)
  · exact fixed_965_spec h (by simp)
  · exact state_pointer_spec h _ _
  · exact state_pointer_spec h _ _
  · exact gen7_3DSTATE_URB_unit_spec h _
  · exact gen7_3DSTATE_URB_unit_spec h _
  · exact gen7_3DSTATE_URB_unit_spec h _
  · exact gen7_3DSTATE_URB_unit_spec h _
  · exact fixed_965_spec h (by simp)
  · exact fixed_965_spec h (by simp)

theorem length_965_spec (row : Option Opcode965) (d : BitVec 32) : Prints W (length_965 row d) fun len _ =>
    1 ≤ len ∧ ∀ r, row = some r → r.len_mask = 0x00ff → len ≤ 0x101 := by
  cases row with
  | none => exact Prints.pure_iff.mpr ⟨by omega, nofun⟩
  | some row =>
      have hmask := field_le d 0 row.len_mask
      refine Prints.andThen (whenever_iff.mpr ⟨fun _ => (fprintf_iff).mpr trivial, fun _ => trivial⟩) ?_
      refine Prints.pure_iff.mpr ⟨?_, ?_⟩
      · split <;> omega
      · rintro r ⟨⟩ hff
        rw [hff] at hmask ⊢
        have hff' : (0x00ff : BitVec 32).toNat = 0xff := rfl
        split <;> omega

theorem each_name_any {out : Nat → String → Decoder Unit} {i k : Nat} {names : List String} (hk : i + names.length ≤ k)
    (hout : ∀ j name, j < k → Prints W (out j name) fun _ _ => True) :
    Prints W (each_name out i names) fun j _ => j = i + names.length := by
  refine Prints.foldlM (I := fun done j => j = i + done.length) rfl ?_
  intro done name rest j hnames hj
  have hlen := congrArg List.length hnames
  simp only [List.length_append, List.length_cons] at hlen
  refine (hout j name (by omega)).bind fun _ _ _ => Prints.pure_iff.mpr ?_
  rw [List.length_append, List.length_singleton]
  omega

theorem state_base_out_any (h : W.Paged) {i : Nat} (hi : i < 1024) (name : String) :
    Prints W (state_base_out i name) fun _ _ => True := by
  refine Prints.bind_iff.mpr (data_iff.mpr ⟨h.readable (by omega), Prints.ite_iff.mpr ?_⟩)
  exact ⟨fun _ => (instr_out_iff).mpr trivial, fun _ => (instr_out_iff).mpr trivial⟩

theorem state_max_out_any (h : W.Paged) {i : Nat} (hi : i < 1024) (name : String) :
    Prints W (state_max_out i name) fun _ _ => True := by
  simp only [state_max_out, Prints.bind_iff, data_iff, Prints.ite_iff, instr_out_iff, implies_true, and_true]
  exact h.readable (by omega)

theorem state_base_address_any (h : W.Paged) (devid : Chipset) (len : Nat) :
    Prints W (state_base_address devid len) fun _ _ => True := by
  have hnames : (sba_names devid).1.length ≤ 5 ∧ (sba_names devid).2.length ≤ 4 := by
    rcases devid with ⟨_, _, _, five, six, seven, _⟩
    cases five <;> cases six <;> cases seven <;>
      exact ⟨Nat.le_of_ble_eq_true rfl, Nat.le_of_ble_eq_true rfl⟩
  refine Prints.bind_iff.mpr (instr_out_iff.mpr ?_)
  refine Prints.andThen (whenever_iff.mpr ⟨fun _ => (fprintf_iff).mpr trivial, fun _ => trivial⟩) ?_
  refine (each_name_any (k := 16) (by omega) fun j name hj => state_base_out_any h (by omega) name).bind fun i _ hi => ?_
  refine (each_name_any (k := 16) (by omega) fun j name hj => state_max_out_any h (by omega) name).bind fun _ _ _ => ?_
  exact Prints.pure_iff.mpr trivial

theorem vertex_buffers_any (h : W.Paged) (devid : Chipset) {len : Nat} (hlen : len ≤ 0x101) :
    Prints W (vertex_buffers devid len) fun _ _ => True := by
  refine Prints.andThen (whenever_iff.mpr ⟨fun _ => (fprintf_iff).mpr trivial, fun _ => trivial⟩) ?_
  refine Prints.bind_iff.mpr (instr_out_iff.mpr (Prints.forM fun i hi => ?_))
  obtain ⟨n, hn, rfl⟩ := List.mem_range'.mp hi
  exact Prints.bind_iff.mpr (data_iff.mpr ⟨h.readable (by omega), Prints.bind_iff.mpr (instr_out_iff.mpr (lines_any _ _))⟩)

theorem vertex_elements_any (h : W.Paged) (devid : Chipset) {len : Nat} (hlen : len ≤ 0x101) :
    Prints W (vertex_elements devid len) fun _ _ => True := by
  refine Prints.andThen (whenever_iff.mpr ⟨fun _ => (fprintf_iff).mpr trivial, fun _ => trivial⟩) ?_
  refine Prints.bind_iff.mpr (instr_out_iff.mpr (Prints.forM fun i hi => ?_))
  obtain ⟨n, hn, rfl⟩ := List.mem_range'.mp hi
  refine Prints.bind_iff.mpr (data_iff.mpr ⟨h.readable (by omega), Prints.bind_iff.mpr (instr_out_iff.mpr ?_)⟩)
  exact Prints.bind_iff.mpr (data_iff.mpr ⟨h.readable (by omega), (instr_out_iff).mpr trivial⟩)

theorem sf_attrib_any (h : W.Paged) {i : Nat} (hi : i < 8) : Prints W (sf_attrib i) fun _ _ => True :=
  Prints.bind_iff.mpr (data_iff.mpr ⟨h.readable (by omega), (instr_out_iff).mpr trivial⟩)

theorem sf_any (h : W.Paged) : Prints W sf fun _ _ => True := by
  have hread : ∀ i ≤ 7, W.Readable i := fun i hi => h.readable (by omega)
  simp only [sf, Prints.bind_iff, data_iff, instr_out_iff, hread, Nat.reduceLeDiff, true_and]
  exact (Prints.forM fun i hi => sf_attrib_any h (List.mem_range.mp hi)).mono fun _ _ _ => lines_any _ _

theorem pipe_control_any (h : W.Paged) (six : Bool) (len : Nat) :
    Prints W (if six then pipe_control_gen6 len else pipe_control_gen4 len) fun _ _ => True := by
  refine Prints.ite_iff.mpr ⟨fun _ => ?_, fun _ => ?_⟩
  · refine Prints.andThen (whenever_iff.mpr ⟨fun _ => (fprintf_iff).mpr trivial, fun _ => trivial⟩) ?_
    refine Prints.bind_iff.mpr (data_iff.mpr ⟨h.readable (by omega), ?_⟩)
    refine Prints.bind_iff.mpr (instr_out_iff.mpr (Prints.bind_iff.mpr (instr_out_iff.mpr ?_)))
    exact Prints.ite_iff.mpr ⟨fun _ => lines_any _ _, fun _ => Prints.forM fun _ _ => (instr_out_iff).mpr trivial⟩
  · refine Prints.andThen (whenever_iff.mpr ⟨fun _ => (fprintf_iff).mpr trivial, fun _ => trivial⟩) ?_
    refine Prints.bind_iff.mpr (data_iff.mpr ⟨h.readable (by omega), ?_⟩)
    exact Prints.bind_iff.mpr (instr_out_iff.mpr (lines_any _ _))

/-- The packets of the `switch` that read their dwords one by one. -/
theorem packets_965_any (h : W.Paged) (devid : Chipset) (len : Nat) {packet : Decoder Unit}
    (hpacket : packet ∈ [cs_urb_state, constant_buffer, binding_table_pointers len, sampler_state_pointers, urb, vs, gs,
      clip, drawing_rectangle_965, depth_buffer devid len]) : Prints W packet fun _ _ => True := by
  have hread : ∀ i ≤ 6, W.Readable i := fun i hi => h.readable (by omega)
  simp only [List.mem_cons, List.not_mem_nil, or_false] at hpacket
  rcases hpacket with rfl | rfl | rfl | rfl | rfl | rfl | rfl | rfl | rfl | rfl <;>
    simp only [cs_urb_state, constant_buffer, binding_table_pointers, sampler_state_pointers, modified, urb, vs, gs, clip,
      drawing_rectangle_965, depth_buffer, kernel_counts, point, Prints.bind_iff, data_iff, instr_out_iff, fprintf_iff,
      whenever_iff, Prints.ite_iff, lines_iff, hread, Nat.reduceLeDiff, implies_true, and_self]

/-- A packet of vertex buffers or of vertex elements has a length of eight bits. -/
theorem mask_of_row_965 {gen opcode : Nat} (hopcode : opcode = 0x7808 ∨ opcode = 0x7809) :
    ∃ row, row_965 gen opcode = some row ∧ row.len_mask = 0x00ff := by
  rcases hopcode with rfl | rfl
  · exact ⟨_, rfl, rfl⟩
  · exact ⟨_, rfl, rfl⟩

theorem switch_965_any (h : W.Paged) {devid : Chipset} {opcode len : Nat}
    (hlen : opcode = 0x7808 ∨ opcode = 0x7809 → len ≤ 0x101) {packet : Decoder Unit}
    (hpacket : switch_965 devid opcode len = some packet) : Prints W packet fun _ _ => True := by
  unfold switch_965 at hpacket
  split at hpacket
  · cases hpacket; exact packets_965_any h devid len (by simp)
  · cases hpacket; exact packets_965_any h devid len (by simp)
  · cases hpacket; exact state_base_address_any h devid len
  · cases hpacket; exact lines_any _ _
  · cases hpacket; exact packets_965_any h devid len (by simp)
  · cases hpacket; exact packets_965_any h devid len (by simp)
  · split at hpacket <;> cases hpacket
    exact packets_965_any h devid len (by simp)
  · cases hpacket; exact vertex_buffers_any h devid (hlen (.inl rfl))
  · cases hpacket; exact vertex_elements_any h devid (hlen (.inr rfl))
  · cases hpacket; exact lines_any _ _
  · cases hpacket; exact lines_any _ _
  · cases hpacket; exact lines_any _ _
  · cases hpacket; exact packets_965_any h devid len (by simp)
  · cases hpacket; exact packets_965_any h devid len (by simp)
  · cases hpacket; exact packets_965_any h devid len (by simp)
  · split at hpacket <;> cases hpacket
    exact sf_any h
  · cases hpacket; exact packets_965_any h devid len (by simp)
  · cases hpacket; exact packets_965_any h devid len (by simp)
  · cases hpacket; exact pipe_control_any h _ len
  · cases hpacket

theorem table_965_spec (h : W.Paged) {gen opcode len : Nat} (hlen : 1 ≤ len) :
    Prints W (table_965 (row_965 gen opcode) opcode len) fun ret _ => 1 ≤ ret := by
  cases hrow : row_965 gen opcode with
  | none => exact Prints.bind_iff.mpr (instr_out_iff.mpr (Prints.pure_iff.mpr (Nat.le_refl 1)))
  | some row =>
      cases hfunc : row.func with
      | none =>
          unfold table_965
          dsimp only
          rw [hfunc]
          refine Prints.bind_iff.mpr (instr_out_iff.mpr ?_)
          exact (dwords_any len).bind fun _ _ _ => Prints.pure_iff.mpr hlen
      | some func =>
          unfold table_965
          dsimp only
          rw [hfunc]
          exact func_965_spec h (List.mem_of_find?_eq_some hrow) hfunc

theorem decode_3d_965_spec (h : W.Paged) : Prints W decode_3d_965 fun ret _ => 1 ≤ ret := by
  refine Prints.bind_iff.mpr (ctx_iff.mpr (Prints.bind_iff.mpr (data_iff.mpr ⟨h.readable (by omega), ?_⟩)))
  refine (length_965_spec (row_965 W.devid.gen (field (W.word 0) 16 0xffff)) (W.word 0)).bind fun len _ hlen => ?_
  refine Prints.ite_iff.mpr ⟨fun _ => i965_decode_urb_fence_spec h hlen.1, fun _ => ?_⟩
  cases hpacket : switch_965 W.devid (field (W.word 0) 16 0xffff) len with
  | none => exact table_965_spec h hlen.1
  | some packet =>
      refine (switch_965_any h (fun hopcode => ?_) hpacket).bind fun _ _ _ => Prints.pure_iff.mpr hlen.1
      obtain ⟨row, hrow, hmask⟩ := @mask_of_row_965 W.devid.gen _ hopcode
      exact hlen.2 row hrow hmask

end Specs

end LibDrm.Decode
