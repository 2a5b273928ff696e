/-
# `LibDrm.Decode.State` — the decoders of the 3D state packets of i915

`3DSTATE_LOAD_STATE_IMMEDIATE_1` is the packet whose words S2 and S4 say how vertices look, and the
decoder keeps the two for the primitives to come; no other packet here touches them.  How many
dwords a packet has behind the first is mostly a count of bits, in the first dword or in the second,
and the length in the packet is only compared with it.

    3DSTATE_LOAD_STATE_IMMEDIATE_1       a dword for each of nine bits
    3DSTATE_LOAD_STATE_IMMEDIATE_2       up to five for each of nine
    3DSTATE_MAP_STATE                    three for each of sixteen
    3DSTATE_SAMPLER_STATE                three for each of sixteen
    3DSTATE_PIXEL_SHADER_CONSTANTS       four for each of thirty-two
-/
import LibDrm.Decode.Shader

namespace LibDrm.Decode

/-- `saved_s2`, `saved_s4` and whether they are set. -/
structure Saved where
  s2 : BitVec 32
  s4 : BitVec 32
  s2_set : Bool
  s4_set : Bool
  deriving DecidableEq, Repr

def decode_3d_1c : Decoder Nat := do
  let d ← data 0
  match field d 19 0x1f with
  | 0x11 => instr_out 0 "3DSTATE_DEPTH_SUBRECTANGLE_DISABLE\n" []
  | 0x10 => instr_out 0 "3DSTATE_SCISSOR_ENABLE %s\n" [if bit d 0 then "enabled" else "disabled"]
  | 0x01 => instr_out 0 "3DSTATE_MAP_COORD_SET_I830\n" []
  | 0x0a => instr_out 0 "3DSTATE_MAP_CUBE_I830\n" []
  | 0x05 => instr_out 0 "3DSTATE_MAP_TEX_STREAM_I830\n" []
  | opcode => instr_out 0 "3D UNKNOWN: 3d_1c opcode = 0x%x\n" [opcode]
  pure 1

/-! ## The names of the fields; `n` is where the field is -/

def decode_compare_func (d : BitVec 32) (n : Nat) : String :=
  match field d n 0x7 with
  | 0 => "always"
  | 1 => "never"
  | 2 => "less"
  | 3 => "equal"
  | 4 => "lequal"
  | 5 => "greater"
  | 6 => "notequal"
  | _ => "gequal"

def decode_stencil_op (d : BitVec 32) (n : Nat) : String :=
  match field d n 0x7 with
  | 0 => "keep"
  | 1 => "zero"
  | 2 => "replace"
  | 3 => "incr_sat"
  | 4 => "decr_sat"
  | 5 => "greater"
  | 6 => "incr"
  | _ => "decr"

def decode_blend_fact (d : BitVec 32) (n : Nat) : String :=
  match field d n 0xf with
  | 1 => "zero"
  | 2 => "one"
  | 3 => "src_colr"
  | 4 => "inv_src_colr"
  | 5 => "src_alpha"
  | 6 => "inv_src_alpha"
  | 7 => "dst_alpha"
  | 8 => "inv_dst_alpha"
  | 9 => "dst_colr"
  | 10 => "inv_dst_colr"
  | 11 => "src_alpha_sat"
  | 12 => "cnst_colr"
  | 13 => "inv_cnst_colr"
  | 14 => "cnst_alpha"
  | 15 => "inv_const_alpha"
  | _ => ""

def decode_tex_coord_mode (d : BitVec 32) (n : Nat) : String :=
  match field d n 0x7 with
  | 0 => "wrap"
  | 1 => "mirror"
  | 2 => "clamp_edge"
  | 3 => "cube"
  | 4 => "clamp_border"
  | 5 => "mirror_once"
  | _ => ""

def decode_sample_filter (d : BitVec 32) (n : Nat) : String :=
  match field d n 0x7 with
  | 0 => "nearest"
  | 1 => "linear"
  | 2 => "anisotropic"
  | 3 => "4x4_1"
  | 4 => "4x4_2"
  | 5 => "4x4_flat"
  | 6 => "6x5_mono"
  | _ => ""

/-! ## Loops over the set bits of a mask -/

/-- `i` runs over the dwords; a word has some where its bit is set. -/
def each_set (mask : BitVec 32) (shift : Nat) (words : List Nat) (i : Nat) (f : Nat → Nat → Decoder Nat) : Decoder Nat :=
  words.foldlM (fun i word => if bit mask (shift + word) then f i word else pure i) i

/-- The dwords counted are to be as many as the length says. -/
def check_count (len i : Nat) (name : String) : Decoder Nat := do
  bad_count len i name
  pure len

/-- "A 0 length means just 1 DWORD instead of 2." -/
def load_indirect (d : BitVec 32) : Decoder Nat := do
  instr_out 0 "3DSTATE_LOAD_INDIRECT\n" []
  let pair := fun (name : String) (i : Nat) => do
    instr_out i (name ++ ".0\n") []
    instr_out (i + 1) (name ++ ".1\n") []
    pure (i + 2)
  let i ← each_set d 8 (List.range 6) 1 fun i word =>
    match word with
    | 0 => pair "SIS" i
    | 1 => do
        instr_out i "DIS.0\n" []
        pure (i + 1)
    | 2 => pair "SSB" i
    | 3 => pair "MSB" i
    | 4 => pair "PSP" i
    | _ => pair "PSC" i
  check_count (field d 0 0xff + 1) i "3DSTATE_LOAD_INDIRECT"

/-! ## Vertex state -/

def s2_format (d : BitVec 32) (tex_num : Nat) : Decoder Unit :=
  match field d (tex_num * 4) 0xf with
  | 0x0 => fprintf "%i=2D " [tex_num]
  | 0x1 => fprintf "%i=3D " [tex_num]
  | 0x2 => fprintf "%i=4D " [tex_num]
  | 0x3 => fprintf "%i=1D " [tex_num]
  | 0x4 => fprintf "%i=2D_16 " [tex_num]
  | 0x5 => fprintf "%i=4D_16 " [tex_num]
  | 0xf => fprintf "%i=NP " [tex_num]
  | _ => pure ()

def s4_cullmode (d : BitVec 32) : String :=
  match field d 13 0x3 with
  | 0 => "both"
  | 1 => "none"
  | 2 => "cw"
  | _ => "ccw"

/-- Bits 6 to 8 say which coordinates there are, bit 2 whether there is a fog parameter. -/
def s4_vfmt (d : BitVec 32) : String :=
  match field d 6 0x7, bit d 2 with
  | 1, false => "XYZ,"
  | 2, false => "XYZW,"
  | 3, false => "XY,"
  | 4, false => "XYW,"
  | 1, true => "XYZF,"
  | 2, true => "XYZWF,"
  | 3, true => "XYF,"
  | 4, true => "XYWF,"
  | _, _ => ""

def state_s4 (i : Nat) (d : BitVec 32) : Decoder Unit :=
  instr_out i ("S4: point_width=%i, line_width=%.1f," ++ "%s%s%s%s%s cullmode=%s, vfmt=%s%s%s%s%s%s " ++ "%s%s%s%s%s\n")
    [bits d 23 0x1ff, .quotient (bits d 19 0xf) 2, flag (field d 15 0xf ≠ 0) " flatshade=", flag (bit d 18) "Alpha,",
     flag (bit d 17) "Fog,", flag (bit d 16) "Specular,", flag (bit d 15) "Color,", s4_cullmode d,
     flag (bit d 12) "PointWidth,", flag (bit d 11) "SpecFog,", flag (bit d 10) "Color,", flag (bit d 9) "DepthOfs,",
     s4_vfmt d, flag (bit d 9) "FogParam,", flag (bit d 5) "force default diffuse, ",
     flag (bit d 4) "force default specular, ", flag (bit d 3) "local depth ofs enable, ",
     flag (bit d 1) "point sprite enable, ", flag (bit d 0) "line AA enable, "]

def state_s5 (i : Nat) (d : BitVec 32) : Decoder Unit :=
  instr_out i ("S5:%s%s%s%s%s" ++ "%s%s%s%s stencil_ref=0x%x, stencil_test=%s, " ++
      "stencil_fail=%s, stencil_pass_z_fail=%s, " ++ "stencil_pass_z_pass=%s, %s%s%s%s\n")
    [flag (field d 28 0xf ≠ 0) " write_disable=", flag (bit d 31) "Alpha,", flag (bit d 30) "Red,",
     flag (bit d 29) "Green,", flag (bit d 28) "Blue,", flag (bit d 27) " force default point size,",
     flag (bit d 26) " last pixel enable,", flag (bit d 25) " global depth ofs enable,", flag (bit d 24) " fog enable,",
     bits d 16 0xff, decode_compare_func d 13, decode_stencil_op d 10, decode_stencil_op d 7, decode_stencil_op d 4,
     flag (bit d 3) "stencil write enable, ", flag (bit d 2) "stencil test enable, ",
     flag (bit d 1) "color dither enable, ", flag (bit d 0) "logicop enable, "]

def state_s6 (i : Nat) (d : BitVec 32) : Decoder Unit :=
  instr_out i ("S6: %salpha_test=%s, alpha_ref=0x%x, " ++ "depth_test=%s, %ssrc_blnd_fct=%s, dst_blnd_fct=%s, " ++
      "%s%stristrip_provoking_vertex=%i\n")
    [flag (bit d 31) "alpha test enable, ", decode_compare_func d 28, bits d 0 0x0ff00000, decode_compare_func d 16,
     flag (bit d 15) "cbuf blend enable, ", decode_blend_fact d 8, decode_blend_fact d 4,
     flag (bit d 3) "depth write enable, ", flag (bit d 2) "cbuf write enable, ", bits d 0 0x3]

/-- The line of a word; the ninth has none. -/
def state_word (i word : Nat) (d : BitVec 32) : Decoder Unit :=
  match word with
  | 0 => instr_out i "S0: vbo offset: 0x%08x%s\n"
      [bits d 0 (~~~1), flag (bit d 0) ", auto cache invalidate disabled"]
  | 1 => instr_out i "S1: vertex width: %i, vertex pitch: %i\n" [bits d 24 0x3f, bits d 16 0x3f]
  | 2 => do
      instr_out i "S2: texcoord formats: " []
      (List.range 8).forM (s2_format d)
      fprintf "\n" []
  | 3 => instr_out i "S3: not documented\n" []
  | 4 => state_s4 i d
  | 5 => state_s5 i d
  | 6 => state_s6 i d
  | 7 => instr_out i "S7: depth offset constant: 0x%08x\n" [d]
  | _ => pure ()

/-- "save vertex state for decode" -/
def Saved.save (saved : Saved) (word : Nat) (d : BitVec 32) : Saved :=
  match word with
  | 2 => { saved with s2_set := true, s2 := d }
  | 4 => { saved with s4_set := true, s4 := d }
  | _ => saved

def load_state_word (devid : Chipset) (saved : Saved) (i word : Nat) : Decoder Saved := do
  let d ← data i
  if devid.IS_GEN2 then do
    instr_out i "S%d: 0x%08x\n" [word, d]
    pure saved
  else do
    state_word i word d
    pure (saved.save word d)

def load_state_immediate_1 (saved : Saved) (d : BitVec 32) : Decoder (Nat × Saved) := do
  let W ← ctx
  instr_out 0 "3DSTATE_LOAD_STATE_IMMEDIATE_1\n" []
  let (i, saved) ← (List.range 9).foldlM (fun (i, saved) word =>
    if bit d (4 + word) then do
      let saved ← load_state_word W.devid saved i word
      pure (i + 1, saved)
    else pure (i, saved)) (1, saved)
  let len ← check_count (field d 0 0xf + 2) i "3DSTATE_LOAD_STATE_IMMEDIATE_1"
  pure (len, saved)

/-! ## Texture state -/

def texture_blend (i n : Nat) : Decoder Nat := do
  instr_out i "TB%dC\n" [n]
  instr_out (i + 1) "TB%dA\n" [n]
  pure (i + 2)

def texture_map (i n : Nat) : Decoder Nat := do
  let d ← data i
  instr_out i "TM%dS0: offset=0x%08x, %s\n" [n, bits d 0 0xfffffffe, flag (bit d 0) "use fence"]
  let d ← data (i + 1)
  instr_out (i + 1) "TM%dS1: height=%i, width=%i, %s\n"
    [n, d >>> 21, bits d 10 0x3ff, flag (bit d 1) (if bit d 0 then "y-tiled" else "x-tiled")]
  let d ← data (i + 2)
  instr_out (i + 2) "TM%dS2: pitch=%i, \n" [n, .word (((d >>> 21) + 1) * 4)]
  instr_out (i + 3) "TM%dS3\n" [n]
  instr_out (i + 4) "TM%dS4: dflt color\n" [n]
  pure (i + 5)

def load_state_immediate_2 (d : BitVec 32) : Decoder Nat := do
  instr_out 0 "3DSTATE_LOAD_STATE_IMMEDIATE_2\n" []
  let i ← each_set d 0 (List.range' 6 9) 1 fun i word =>
    if word = 6 then do
      instr_out i "TBCF\n" []
      pure (i + 1)
    else if word ≤ 10 then texture_blend i (word - 7)
    else texture_map i (word - 11)
  check_count (field d 0 0xf + 2) i "3DSTATE_LOAD_STATE_IMMEDIATE_2"

/-- The type of a map, and its format. -/
def map_format (type format : Nat) : String × String :=
  match type with
  | 1 => ("8b", ["I", "L", "BAD", "BAD", "A", " mono"].getD format "BAD")
  | 2 => ("16b", [" rgb565", " argb1555", " argb4444", "BAD", "BAD", " ay88", " bump655", "I", "L", "A"].getD format "BAD")
  | 3 => ("32b", [" argb8888", " abgr8888", " xrgb8888", " xbgr8888", " qwvu8888", " axvu8888", " lxvu8888", " xlvu8888",
      " argb2101010", " abgr2101010", " awvu2101010", " gr1616", " vu1616", " xI824", " xA824", " xL824"].getD format "BAD")
  | 5 => ("422", [" yuv_swapy", " yuv", " yuv_swapuv", " yuv_swapuvy"].getD format "BAD")
  -- three bits of the field are looked at
  | 6 => ("compressed", [" dxt1", " dxt2_3", " dxt4_5", " fxt1", " dxt1_rb"].getD (format % 8) "BAD")
  | 7 => ("4b indexed", if format = 7 then " argb8888" else "BAD")
  | _ => (" BAD", "BAD")

/-- "fenced", or the way a surface is tiled by itself. -/
def tiling (fenced tiled walk : Bool) : String :=
  if fenced then "fenced" else if tiled then (if walk then "Y" else "X") else "none"

def map_state_map (i map : Nat) : Decoder Nat := do
  let d ← data i
  instr_out i "map %d MS2 %s%s%s\n"
    [map, flag (bit d 31) "untrusted surface, ", flag (bit d 1) "vertical line stride enable, ",
     flag (bit d 0) "vertical ofs enable, "]
  let d ← data (i + 1)
  let (type, format) := map_format (field d 7 0x7) (field d 3 0xf)
  instr_out (i + 1) "map %d MS3 [width=%d, height=%d, format=%s%s, tiling=%s%s]\n"
    [map, .word (bits d 10 0x7ff + 1), .word (bits d 21 0x7ff + 1), type, format, tiling (bit d 2) (bit d 1) (bit d 0),
     flag (bit d 9) " palette select"]
  let d ← data (i + 2)
  instr_out (i + 2) "map %d MS4 [pitch=%d, max_lod=%i, vol_depth=%i, cube_face_ena=%x, %s]\n"
    [map, .word (4 * (bits d 21 0x7ff + 1)), bits d 9 0x3f, bits d 0 0xff, bits d 15 0x3f,
     if bit d 8 then "miplayout legacy" else "miplayout right"]
  pure (i + 3)

def map_state (d : BitVec 32) : Decoder Nat := do
  instr_out 0 "3DSTATE_MAP_STATE\n" []
  instr_out 1 "mask\n" []
  let mask ← data 1
  let i ← each_set mask 0 (List.range 16) 2 map_state_map
  check_count (field d 0 0x3f + 2) i "3DSTATE_MAP_STATE"

/-! ## Pixel shaders -/

def shader_constant (i c : Nat) : Decoder Nat := do
  let x ← data i
  instr_out i "C%d.X = %f\n" [c, .float x]
  let y ← data (i + 1)
  instr_out (i + 1) "C%d.Y = %f\n" [c, .float y]
  let z ← data (i + 2)
  instr_out (i + 2) "C%d.Z = %f\n" [c, .float z]
  let w ← data (i + 3)
  instr_out (i + 3) "C%d.W = %f\n" [c, .float w]
  pure (i + 4)

/-- The second dword is the mask, and has no line. -/
def pixel_shader_constants (d : BitVec 32) : Decoder Nat := do
  instr_out 0 "3DSTATE_PIXEL_SHADER_CONSTANTS\n" []
  let mask ← data 1
  let i ← each_set mask 0 (List.range 32) 2 shader_constant
  check_count (field d 0 0xff + 2) i "3DSTATE_PIXEL_SHADER_CONSTANTS"

/-- `"PS%03d"` -/
def instrPrefix (instr : Nat) : String :=
  "PS" ++ (if instr < 10 then "00" else if instr < 100 then "0" else "") ++ toString instr

def pixel_shader_program (d : BitVec 32) : Decoder Nat := do
  instr_out 0 "3DSTATE_PIXEL_SHADER_PROGRAM\n" []
  let len := field d 0 0xff + 2
  whenever ((len - 1) % 3 ≠ 0 ∨ len > 370) <| fprintf "Bad count in 3DSTATE_PIXEL_SHADER_PROGRAM\n" []
  (List.range ((len - 1) / 3)).forM fun instr => i915_decode_instruction (1 + 3 * instr) (instrPrefix instr)
  pure len

def mip_filter : Nat → String
  | 0 => "none"
  | 1 => "nearest"
  | 3 => "linear"
  | _ => ""

def sampler (i sampler : Nat) : Decoder Nat := do
  let d ← data i
  instr_out i ("sampler %d SS2:%s%s%s " ++ "base_mip_level=%i, mip_filter=%s, mag_filter=%s, min_filter=%s " ++
      "lod_bias=%.2f,%s max_aniso=%i, shadow_func=%s\n")
    [sampler, flag (bit d 31) " reverse gamma,", flag (bit d 30) " packed2planar,",
     flag (bit d 29) " colorspace conversion,", bits d 22 0x1f, mip_filter (field d 20 0x3), decode_sample_filter d 17,
     decode_sample_filter d 14, .quotient (bits d 5 0x1ff) 0x10, flag (bit d 4) " shadow,", .word (if bit d 3 then 4 else 2),
     decode_compare_func d 0]
  let d ← data (i + 1)
  instr_out (i + 1) ("sampler %d SS3: min_lod=%.2f,%s " ++
      "tcmode_x=%s, tcmode_y=%s, tcmode_z=%s,%s texmap_idx=%i,%s\n")
    [sampler, .quotient (bits d 24 0xff) 0x10, flag (bit d 17) " kill pixel enable,", decode_tex_coord_mode d 12,
     decode_tex_coord_mode d 9, decode_tex_coord_mode d 6, flag (bit d 5) " normalized coords,", bits d 1 0xf,
     flag (bit d 0) " deinterlacer,"]
  -- read, though nothing of it is printed but in the line itself
  let _ ← data (i + 2)
  instr_out (i + 2) "sampler %d SS4: border color\n" [sampler]
  pure (i + 3)

def sampler_state (d : BitVec 32) : Decoder Nat := do
  instr_out 0 "3DSTATE_SAMPLER_STATE\n" []
  instr_out 1 "mask\n" []
  let mask ← data 1
  let i ← each_set mask 0 (List.range 16) 2 sampler
  check_count (field d 0 0x3f + 2) i "3DSTATE_SAMPLER_STATE"

/-! ## Buffers -/

def dest_format : Nat → String
  | 0x0 => "g8"
  | 0x1 => "x1r5g5b5"
  | 0x2 => "r5g6b5"
  | 0x3 => "a8r8g8b8"
  | 0x4 => "ycrcb_swapy"
  | 0x5 => "ycrcb_normal"
  | 0x6 => "ycrcb_swapuv"
  | 0x7 => "ycrcb_swapuvy"
  | 0x8 => "a4r4g4b4"
  | 0x9 => "a1r5g5b5"
  | 0xa => "a2r10g10b10"
  | _ => "BAD"

def depth_format : Nat → String
  | 0x0 => "u16"
  | 0x1 => "f16"
  | 0x2 => "u24x8"
  | _ => "BAD"

def dest_buffer_variables (d : BitVec 32) : Decoder Nat := do
  let len := field d 0 0xf + 2
  bad_count len 2 "3DSTATE_DEST_BUFFER_VARIABLES"
  instr_out 0 "3DSTATE_DEST_BUFFER_VARIABLES\n" []
  let d₁ ← data 1
  instr_out 1 "%s format, %s depth format, early Z %sabled\n"
    [dest_format (field d₁ 8 0xf), depth_format (field d₁ 2 0x3), enabled (bit d₁ 31)]
  pure len

def buffer_name : Nat → String
  | 0x3 => "color"
  | 0x7 => "depth"
  | _ => "unknown"

def buffer_info (d : BitVec 32) : Decoder Nat := do
  let len := field d 0 0xf + 2
  bad_count len 3 "3DSTATE_BUFFER_INFO"
  let d₁ ← data 1
  instr_out 0 "3DSTATE_BUFFER_INFO\n" []
  instr_out 1 "%s, tiling = %s, pitch=%d\n"
    [buffer_name (field d₁ 24 0x7), tiling (bit d₁ 23) (bit d₁ 22) (bit d₁ 21), bits d₁ 0 0xffff]
  instr_out 2 "address\n" []
  pure len

def scissor_rectangle (d : BitVec 32) : Decoder Nat := do
  let len := field d 0 0xf + 2
  bad_count len 3 "3DSTATE_SCISSOR_RECTANGLE"
  instr_out 0 "3DSTATE_SCISSOR_RECTANGLE\n" []
  point 1 "(%d,%d)\n"
  point 2 "(%d,%d)\n"
  pure len

def drawing_rectangle (d : BitVec 32) : Decoder Nat := do
  let len := field d 0 0xf + 2
  bad_count len 5 "3DSTATE_DRAWING_RECTANGLE"
  instr_out 0 "3DSTATE_DRAWING_RECTANGLE\n" []
  let d₁ ← data 1
  instr_out 1 "%s\n" [flag (bit d₁ 30) "depth ofs disabled "]
  point 2 "(%d,%d)\n"
  point 3 "(%d,%d)\n"
  point 4 "(%d,%d)\n"
  pure len

def clear_parameters (d : BitVec 32) : Decoder Nat := do
  let len := field d 0 0xf + 2
  bad_count len 7 "3DSTATE_CLEAR_PARAMETERS"
  instr_out 0 "3DSTATE_CLEAR_PARAMETERS\n" []
  let d₁ ← data 1
  instr_out 1 "prim_type=%s, clear=%s%s%s\n"
    [if bit d₁ 16 then "CLEAR_RECT" else "ZONE_INIT", flag (bit d₁ 2) "color,", flag (bit d₁ 1) "depth,",
     flag (bit d₁ 0) "stencil,"]
  instr_out 2 "clear color\n" []
  instr_out 3 "clear depth/stencil\n" []
  instr_out 4 "color value (rgba8888)\n" []
  let d₅ ← data 5
  instr_out 5 "depth value %f\n" [.float d₅]
  instr_out 6 "clear stencil\n" []
  pure len

/-! ## The packets of one opcode -/

/-- The rows that only an i830 has, and those that all have. -/
def opcodes_3d_1d (devid : Chipset) : List Opcode :=
  [⟨0x86, 4, 4, "3DSTATE_CHROMA_KEY"⟩,
   ⟨0x88, 2, 2, "3DSTATE_CONSTANT_BLEND_COLOR"⟩,
   ⟨0x99, 2, 2, "3DSTATE_DEFAULT_DIFFUSE"⟩,
   ⟨0x9a, 2, 2, "3DSTATE_DEFAULT_SPECULAR"⟩,
   ⟨0x98, 2, 2, "3DSTATE_DEFAULT_Z"⟩,
   ⟨0x97, 2, 2, "3DSTATE_DEPTH_OFFSET_SCALE"⟩,
   ⟨0x9d, 65, 65, "3DSTATE_FILTER_COEFFICIENTS_4X4"⟩,
   ⟨0x9e, 4, 4, "3DSTATE_MONO_FILTER"⟩,
   ⟨0x89, 4, 4, "3DSTATE_FOG_MODE"⟩,
   ⟨0x8f, 2, 16, "3DSTATE_MAP_PALLETE_LOAD_32"⟩,
   ⟨0x83, 2, 2, "3DSTATE_SPAN_STIPPLE"⟩] ++
  (if devid.IS_GEN2 then
    [⟨0x8c, 2, 2, "3DSTATE_MAP_COORD_TRANSFORM_I830"⟩,
     ⟨0x8b, 2, 2, "3DSTATE_MAP_VERTEX_TRANSFORM_I830"⟩,
     ⟨0x8d, 3, 3, "3DSTATE_W_STATE_I830"⟩,
     ⟨0x01, 2, 2, "3DSTATE_COLOR_FACTOR_I830"⟩,
     ⟨0x02, 2, 2, "3DSTATE_MAP_COORD_SETBIND_I830"⟩]
  else [])

/-- What the `switch` leaves to the table. -/
def decode_3d_1d_row (devid : Chipset) (opcode : Nat) (d : BitVec 32) : Decoder Nat :=
  match (opcodes_3d_1d devid).find? fun row => row.opcode == opcode with
  | some row => decode_row row 0xffff d
  | none => do
      instr_out 0 "3D UNKNOWN: 3d_1d opcode = 0x%x\n" [opcode]
      pure 1

/-- The packets that leave the vertex state alone. -/
def decode_3d_1d_state (devid : Chipset) (opcode : Nat) (d : BitVec 32) : Decoder Nat :=
  match opcode with
  | 0x07 => load_indirect d
  | 0x03 => load_state_immediate_2 d
  | 0x00 => map_state d
  | 0x06 => pixel_shader_constants d
  | 0x05 => pixel_shader_program d
  | 0x01 => if devid.IS_GEN2 then decode_3d_1d_row devid opcode d else sampler_state d
  | 0x85 => dest_buffer_variables d
  | 0x8e => buffer_info d
  | 0x81 => scissor_rectangle d
  | 0x80 => drawing_rectangle d
  | 0x9c => clear_parameters d
  | _ => decode_3d_1d_row devid opcode d

def decode_3d_1d (saved : Saved) : Decoder (Nat × Saved) := do
  let d ← data 0
  let W ← ctx
  let opcode := field d 16 0xff
  if opcode = 0x04 then load_state_immediate_1 saved d
  else do
    let len ← decode_3d_1d_state W.devid opcode d
    pure (len, saved)

/-! ## Every packet is read within the page, and has a dword at least -/

section Specs

variable {W : Window}

theorem decode_3d_1c_spec (h : W.Paged) : Prints W decode_3d_1c fun ret _ => 1 ≤ ret := by
  unfold decode_3d_1c
  refine Prints.bind_iff.mpr (data_iff.mpr ⟨h.readable (by omega), ?_⟩)
  dsimp only
  split <;> exact Prints.bind_iff.mpr (instr_out_iff.mpr (Prints.pure_iff.mpr (Nat.le_refl 1)))

/-- Where no word has more than `k` dwords, the loop stays within `k` for each word. -/
theorem each_set_any {mask : BitVec 32} {shift i₀ k : Nat} {words : List Nat} {f : Nat → Nat → Decoder Nat}
    (hf : ∀ i word, i + k ≤ i₀ + k * words.length → Prints W (f i word) fun j _ => j ≤ i + k) :
    Prints W (each_set mask shift words i₀ f) fun _ _ => True := by
  have hloop : Prints W (each_set mask shift words i₀ f) fun i _ => i ≤ i₀ + k * words.length := by
    refine Prints.foldlM (I := fun done i => i ≤ i₀ + k * done.length) (Nat.le_add_right _ _) ?_
    intro done word rest i hwords hi
    have hlen : k * (done ++ [word]).length = k * done.length + k := by
      rw [List.length_append, List.length_singleton, Nat.mul_add, Nat.mul_one]
    have hle : k * (done ++ [word]).length ≤ k * words.length := by
      refine Nat.mul_le_mul_left k ?_
      simp only [hwords, List.length_append, List.length_cons, List.length_nil]
      omega
    refine Prints.ite_iff.mpr ⟨fun _ => (hf i word (by omega)).mono fun j _ hj => ?_, fun _ => Prints.pure_iff.mpr ?_⟩
    · omega
    · omega
  exact hloop.mono fun _ _ _ => trivial

theorem check_count_spec (len i : Nat) (name : String) : Prints W (check_count len i name) fun ret _ => ret = len := by
  unfold check_count
  simp only [bad_count, Prints.bind_iff, whenever_iff, fprintf_iff, Prints.pure_iff, implies_true, and_self]

/-- A packet that counts its dwords. -/
theorem counted_spec {p : Decoder Nat} (hp : Prints W p fun _ _ => True) (len : Nat) (hlen : 1 ≤ len) (name : String) :
    Prints W (p >>= fun i => check_count len i name) fun ret _ => 1 ≤ ret :=
  hp.bind fun i _ _ => (check_count_spec len i name).mono fun _ _ hret => hret ▸ hlen

theorem load_indirect_spec (d : BitVec 32) : Prints W (load_indirect d) fun ret _ => 1 ≤ ret := by
  refine Prints.bind_iff.mpr (instr_out_iff.mpr (counted_spec (each_set_any (k := 2) fun i word _ => ?_) _ (by omega) _))
  split <;> simp only [Prints.bind_iff, instr_out_iff, Prints.pure_iff] <;> omega

theorem state_word_any (i word : Nat) (d : BitVec 32) : Prints W (state_word i word d) fun _ _ => True := by
  unfold state_word
  split
  case h_3 =>
    refine Prints.bind_iff.mpr (instr_out_iff.mpr ?_)
    refine Prints.andThen (Prints.forM fun tex_num _ => ?_) (fprintf_iff.mpr trivial)
    unfold s2_format
    split <;> first | exact (fprintf_iff).mpr trivial | exact Prints.pure_iff.mpr trivial
  all_goals first | exact (instr_out_iff).mpr trivial | exact Prints.pure_iff.mpr trivial

theorem load_state_word_any (devid : Chipset) (saved : Saved) {i : Nat} (word : Nat) (hi : W.Readable i) :
    Prints W (load_state_word devid saved i word) fun _ _ => True := by
  refine Prints.bind_iff.mpr (data_iff.mpr ⟨hi, Prints.ite_iff.mpr ⟨fun _ => ?_, fun _ => ?_⟩⟩)
  · exact Prints.bind_iff.mpr (instr_out_iff.mpr (Prints.pure_iff.mpr trivial))
  · exact (state_word_any i word _).bind fun _ _ _ => Prints.pure_iff.mpr trivial

theorem load_state_immediate_1_spec (h : W.Paged) (saved : Saved) (d : BitVec 32) :
    Prints W (load_state_immediate_1 saved d) fun ret _ => 1 ≤ ret.1 := by
  refine Prints.bind_iff.mpr (ctx_iff.mpr (Prints.bind_iff.mpr (instr_out_iff.mpr ?_)))
  -- the dwords counted are one more than the words done, at most
  refine Prints.bind (P := fun _ _ => True) ?_ fun x _ _ => ?_
  · refine (Prints.foldlM (I := fun (done : List Nat) (x : Nat × Saved) => x.1 ≤ 1 + done.length) (Nat.le_refl 1) ?_).mono
      fun _ _ _ => trivial
    intro done word rest x hwords hx
    have hlen : (done ++ [word]).length = done.length + 1 := List.length_append
    have hdone : done.length < 9 := by
      have := congrArg List.length hwords
      simp only [List.length_range, List.length_append, List.length_cons] at this
      omega
    refine Prints.ite_iff.mpr ⟨fun _ => ?_, fun _ => Prints.pure_iff.mpr (by omega)⟩
    refine (load_state_word_any _ _ word (h.readable (by omega))).bind fun _ _ _ => Prints.pure_iff.mpr ?_
    show x.1 + 1 ≤ _
    omega
  · refine (check_count_spec _ _ _).bind fun len _ hlen => Prints.pure_iff.mpr ?_
    show 1 ≤ len
    omega

theorem load_state_immediate_2_spec (h : W.Paged) (d : BitVec 32) :
    Prints W (load_state_immediate_2 d) fun ret _ => 1 ≤ ret := by
  refine Prints.bind_iff.mpr (instr_out_iff.mpr (counted_spec (each_set_any (k := 5) fun i word hi => ?_) _ (by omega) _))
  have hread : ∀ j ≤ i + 5, W.Readable j := fun j hj => h.readable (by simp only [List.length_range'] at hi; omega)
  simp only [texture_blend, texture_map, Prints.ite_iff, Prints.bind_iff, data_iff, instr_out_iff, Prints.pure_iff]
  refine ⟨fun _ => by omega, fun _ => ⟨fun _ => by omega, fun _ => ⟨?_, ?_, ?_, by omega⟩⟩⟩ <;>
    exact hread _ (by omega)

theorem map_state_map_spec {i : Nat} (map : Nat) (hread : ∀ j ≤ i + 3, W.Readable j) :
    Prints W (map_state_map i map) fun j _ => j ≤ i + 3 := by
  unfold map_state_map
  simp only [Prints.bind_iff, data_iff, instr_out_iff, Prints.pure_iff]
  exact ⟨hread _ (by omega), hread _ (by omega), hread _ (by omega), Nat.le_refl _⟩

theorem sampler_spec {i : Nat} (nr : Nat) (hread : ∀ j ≤ i + 3, W.Readable j) :
    Prints W (sampler i nr) fun j _ => j ≤ i + 3 := by
  unfold sampler
  simp only [Prints.bind_iff, data_iff, instr_out_iff, Prints.pure_iff]
  exact ⟨hread _ (by omega), hread _ (by omega), hread _ (by omega), Nat.le_refl _⟩

theorem shader_constant_spec {i : Nat} (c : Nat) (hread : ∀ j ≤ i + 4, W.Readable j) :
    Prints W (shader_constant i c) fun j _ => j ≤ i + 4 := by
  unfold shader_constant
  simp only [Prints.bind_iff, data_iff, instr_out_iff, Prints.pure_iff]
  exact ⟨hread _ (by omega), hread _ (by omega), hread _ (by omega), hread _ (by omega), Nat.le_refl _⟩

theorem map_state_spec (h : W.Paged) (d : BitVec 32) : Prints W (map_state d) fun ret _ => 1 ≤ ret := by
  refine Prints.bind_iff.mpr (instr_out_iff.mpr (Prints.bind_iff.mpr (instr_out_iff.mpr ?_)))
  refine Prints.bind_iff.mpr (data_iff.mpr ⟨h.readable (by omega), ?_⟩)
  refine counted_spec (each_set_any (k := 3) fun i map hi => map_state_map_spec map fun j hj => h.readable ?_) _ (by omega) _
  rw [List.length_range] at hi
  omega

theorem sampler_state_spec (h : W.Paged) (d : BitVec 32) : Prints W (sampler_state d) fun ret _ => 1 ≤ ret := by
  refine Prints.bind_iff.mpr (instr_out_iff.mpr (Prints.bind_iff.mpr (instr_out_iff.mpr ?_)))
  refine Prints.bind_iff.mpr (data_iff.mpr ⟨h.readable (by omega), ?_⟩)
  refine counted_spec (each_set_any (k := 3) fun i nr hi => sampler_spec nr fun j hj => h.readable ?_) _ (by omega) _
  rw [List.length_range] at hi
  omega

theorem pixel_shader_constants_spec (h : W.Paged) (d : BitVec 32) :
    Prints W (pixel_shader_constants d) fun ret _ => 1 ≤ ret := by
  refine Prints.bind_iff.mpr (instr_out_iff.mpr (Prints.bind_iff.mpr (data_iff.mpr ⟨h.readable (by omega), ?_⟩)))
  refine counted_spec (each_set_any (k := 4) fun i c hi => shader_constant_spec c fun j hj => h.readable ?_) _ (by omega) _
  rw [List.length_range] at hi
  omega

theorem field_le (d : BitVec 32) (n : Nat) (mask : BitVec 32) : field d n mask ≤ mask.toNat := by
  unfold field bits
  rw [BitVec.toNat_and]
  exact Nat.and_le_right

theorem pixel_shader_program_spec (h : W.Paged) (d : BitVec 32) :
    Prints W (pixel_shader_program d) fun ret _ => 1 ≤ ret := by
  have hlen : field d 0 0xff ≤ 0xff := field_le d 0 0xff
  refine Prints.bind_iff.mpr (instr_out_iff.mpr ?_)
  refine Prints.andThen (whenever_iff.mpr ⟨fun _ => (fprintf_iff).mpr trivial, fun _ => trivial⟩) ?_
  refine Prints.andThen (Prints.forM fun instr hinstr => ?_) (Prints.pure_iff.mpr (by omega))
  have hlt := List.mem_range.mp hinstr
  exact i915_decode_instruction_any (h.readable (by omega)) (h.readable (by omega)) (h.readable (by omega)) _

theorem decode_3d_1d_row_spec (devid : Chipset) (opcode : Nat) (d : BitVec 32) :
    Prints W (decode_3d_1d_row devid opcode d) fun ret _ => 1 ≤ ret := by
  unfold decode_3d_1d_row
  split
  · exact decode_row_spec _ _ _
  · exact Prints.bind_iff.mpr (instr_out_iff.mpr (Prints.pure_iff.mpr (Nat.le_refl 1)))

/-- The packets of a fixed number of dwords. -/
theorem buffer_packets_spec (h : W.Paged) (d : BitVec 32) {p : Decoder Nat}
    (hp : p ∈ [dest_buffer_variables d, buffer_info d, scissor_rectangle d, drawing_rectangle d, clear_parameters d]) :
    Prints W p fun ret _ => 1 ≤ ret := by
  have hread : ∀ i ≤ 5, W.Readable i := fun i hi => h.readable (by omega)
  simp only [List.mem_cons, List.not_mem_nil, or_false] at hp
  rcases hp with rfl | rfl | rfl | rfl | rfl <;>
    simp only [dest_buffer_variables, buffer_info, scissor_rectangle, drawing_rectangle, clear_parameters, bad_count, point,
      Prints.bind_iff, data_iff, instr_out_iff, whenever_iff, fprintf_iff, Prints.pure_iff, hread, Nat.reduceLeDiff,
      Nat.le_add_left, implies_true, and_self]

theorem decode_3d_1d_state_spec (h : W.Paged) (devid : Chipset) (opcode : Nat) (d : BitVec 32) :
    Prints W (decode_3d_1d_state devid opcode d) fun ret _ => 1 ≤ ret := by
  unfold decode_3d_1d_state
  split
  · exact load_indirect_spec d
  · exact load_state_immediate_2_spec h d
  · exact map_state_spec h d
  · exact pixel_shader_constants_spec h d
  · exact pixel_shader_program_spec h d
  · exact Prints.ite_iff.mpr ⟨fun _ => decode_3d_1d_row_spec _ _ _, fun _ => sampler_state_spec h d⟩
  · exact buffer_packets_spec h d (by simp)
  · exact buffer_packets_spec h d (by simp)
  · exact buffer_packets_spec h d (by simp)
  · exact buffer_packets_spec h d (by simp)
  · exact buffer_packets_spec h d (by simp)
  · exact decode_3d_1d_row_spec _ _ _

theorem decode_3d_1d_spec (h : W.Paged) (saved : Saved) : Prints W (decode_3d_1d saved) fun ret _ => 1 ≤ ret.1 := by
  refine Prints.bind_iff.mpr (data_iff.mpr ⟨h.readable (by omega), Prints.bind_iff.mpr (ctx_iff.mpr ?_)⟩)
  refine Prints.ite_iff.mpr ⟨fun _ => load_state_immediate_1_spec h saved _, fun _ => ?_⟩
  exact (decode_3d_1d_state_spec h _ _ _).bind fun _ _ hlen => Prints.pure_iff.mpr hlen

end Specs

end LibDrm.Decode
