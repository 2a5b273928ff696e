/-
# `LibDrm.Decode.Blit` — the decoder of 2D packets

Six packets are spelled out, and read up to eight dwords behind the first whatever their length
says; the others are printed dword by dword.
-/
import LibDrm.Decode.Context

namespace LibDrm.Decode

/-- "en" or "dis". -/
def enabled (c : Bool) : String := if c then "en" else "dis"

def decode_2d_br00 (cmd : String) : Decoder Unit := do
  let d ← data 0
  instr_out 0 "%s (rgb %sabled, alpha %sabled, src tile %d, dst tile %d)\n"
    [cmd, enabled (bit d 20), enabled (bit d 21), bits d 15 1, bits d 11 1]

def br01_format : Nat → String
  | 0 => "8"
  | 1 => "565"
  | 2 => "1555"
  | _ => "8888"

/-- `(short)(d & 0xffff)` -/
def short (d : BitVec 32) : BitVec 32 := (d.setWidth 16).signExtend 32

def decode_2d_br01 : Decoder Unit := do
  let d ← data 1
  instr_out 1 "format %s, pitch %d, rop 0x%02x, clipping %sabled, %s%s \n"
    [br01_format (field d 24 0x3), short d, bits d 16 0xff, enabled (bit d 30),
     flag (bit d 31) "solid pattern enabled, ", flag (bit d 31) "mono pattern transparency enabled, "]

/-- A dword as a pair of coordinates. -/
def point (index : Nat) (fmt : String) : Decoder Unit := do
  let d ← data index
  instr_out index fmt [bits d 0 0xffff, d >>> 16]

/-- A dword printed once more in its text. -/
def value (index : Nat) (fmt : String) : Decoder Unit := do
  let d ← data index
  instr_out index fmt [d]

/-- A row of a table of packets. -/
structure Opcode where
  opcode : Nat
  min_len : Nat
  max_len : Nat
  name : String

def opcodes_2d : List Opcode :=
  [⟨0x40, 5, 5, "COLOR_BLT"⟩,
   ⟨0x43, 6, 6, "SRC_COPY_BLT"⟩,
   ⟨0x01, 8, 8, "XY_SETUP_BLT"⟩,
   ⟨0x11, 9, 9, "XY_SETUP_MONO_PATTERN_SL_BLT"⟩,
   ⟨0x03, 3, 3, "XY_SETUP_CLIP_BLT"⟩,
   ⟨0x24, 2, 2, "XY_PIXEL_BLT"⟩,
   ⟨0x25, 3, 3, "XY_SCANLINES_BLT"⟩,
   ⟨0x26, 4, 4, "Y_TEXT_BLT"⟩,
   ⟨0x31, 5, 134, "XY_TEXT_IMMEDIATE_BLT"⟩,
   ⟨0x50, 6, 6, "XY_COLOR_BLT"⟩,
   ⟨0x51, 6, 6, "XY_PAT_BLT"⟩,
   ⟨0x76, 8, 8, "XY_PAT_CHROMA_BLT"⟩,
   ⟨0x72, 7, 135, "XY_PAT_BLT_IMMEDIATE"⟩,
   ⟨0x77, 9, 137, "XY_PAT_CHROMA_BLT_IMMEDIATE"⟩,
   ⟨0x52, 9, 9, "XY_MONO_PAT_BLT"⟩,
   ⟨0x59, 7, 7, "XY_MONO_PAT_FIXED_BLT"⟩,
   ⟨0x53, 8, 8, "XY_SRC_COPY_BLT"⟩,
   ⟨0x54, 8, 8, "XY_MONO_SRC_COPY_BLT"⟩,
   ⟨0x71, 9, 137, "XY_MONO_SRC_COPY_IMMEDIATE_BLT"⟩,
   ⟨0x55, 9, 9, "XY_FULL_BLT"⟩,
   ⟨0x55, 9, 137, "XY_FULL_IMMEDIATE_PATTERN_BLT"⟩,
   ⟨0x56, 9, 9, "XY_FULL_MONO_SRC_BLT"⟩,
   ⟨0x75, 10, 138, "XY_FULL_MONO_SRC_IMMEDIATE_PATTERN_BLT"⟩,
   ⟨0x57, 12, 12, "XY_FULL_MONO_PATTERN_BLT"⟩,
   ⟨0x58, 12, 12, "XY_FULL_MONO_PATTERN_MONO_SRC_BLT"⟩]

/-- The name of the packet, its length under a mask, and its dwords. -/
def decode_row (row : Opcode) (mask : BitVec 32) (d : BitVec 32) : Decoder Nat := do
  instr_out 0 "%s\n" [row.name]
  let len := if row.max_len > 1 then field d 0 mask + 2 else 1
  whenever (row.max_len > 1 ∧ (len < row.min_len ∨ len > row.max_len)) <| fprintf "Bad count in %s\n" [row.name]
  dwords len
  pure len

/-- The packet has a length of its own. -/
def bad_count (len expected : Nat) (name : String) : Decoder Unit :=
  whenever (len ≠ expected) <| fprintf ("Bad count in " ++ name ++ "\n") []

/-- The packets that `decode_2d` spells out. -/
def decode_2d_blt (opcode : Nat) (len : Nat) (d : BitVec 32) : Option (Decoder Unit) :=
  match opcode with
  | 0x25 => some do
      instr_out 0 "XY_SCANLINES_BLT (pattern seed (%d, %d), dst tile %d)\n" [bits d 12 0x8, bits d 8 0x8, bits d 11 1]
      bad_count len 3 "XY_SCANLINES_BLT"
      point 1 "dest (%d,%d)\n"
      point 2 "dest (%d,%d)\n"
  | 0x01 => some do
      decode_2d_br00 "XY_SETUP_BLT"
      bad_count len 8 "XY_SETUP_BLT"
      decode_2d_br01
      point 2 "cliprect (%d,%d)\n"
      point 3 "cliprect (%d,%d)\n"
      value 4 "setup dst offset 0x%08x\n"
      instr_out 5 "setup background color\n" []
      instr_out 6 "setup foreground color\n" []
      instr_out 7 "color pattern offset\n" []
  | 0x03 => some do
      decode_2d_br00 "XY_SETUP_CLIP_BLT"
      bad_count len 3 "XY_SETUP_CLIP_BLT"
      -- the second coordinate is taken from the dword behind
      let d₁ ← data 1
      let d₂ ← data 2
      instr_out 1 "cliprect (%d,%d)\n" [bits d₁ 0 0xffff, d₂ >>> 16]
      let d₃ ← data 3
      instr_out 2 "cliprect (%d,%d)\n" [bits d₂ 0 0xffff, d₃ >>> 16]
  | 0x11 => some do
      decode_2d_br00 "XY_SETUP_MONO_PATTERN_SL_BLT"
      bad_count len 9 "XY_SETUP_MONO_PATTERN_SL_BLT"
      decode_2d_br01
      point 2 "cliprect (%d,%d)\n"
      point 3 "cliprect (%d,%d)\n"
      value 4 "setup dst offset 0x%08x\n"
      instr_out 5 "setup background color\n" []
      instr_out 6 "setup foreground color\n" []
      instr_out 7 "mono pattern dw0\n" []
      instr_out 8 "mono pattern dw1\n" []
  | 0x50 => some do
      decode_2d_br00 "XY_COLOR_BLT"
      bad_count len 6 "XY_COLOR_BLT"
      decode_2d_br01
      point 2 "(%d,%d)\n"
      point 3 "(%d,%d)\n"
      value 4 "offset 0x%08x\n"
      instr_out 5 "color\n" []
  | 0x53 => some do
      decode_2d_br00 "XY_SRC_COPY_BLT"
      bad_count len 8 "XY_SRC_COPY_BLT"
      decode_2d_br01
      point 2 "dst (%d,%d)\n"
      point 3 "dst (%d,%d)\n"
      value 4 "dst offset 0x%08x\n"
      point 5 "src (%d,%d)\n"
      let d₆ ← data 6
      instr_out 6 "src pitch %d\n" [short d₆]
      value 7 "src offset 0x%08x\n"
  | _ => none

def decode_2d : Decoder Nat := do
  let d ← data 0
  let opcode := field d 22 0x7f
  let len := field d 0 0xff + 2
  match decode_2d_blt opcode len d with
  | some blt => do
      blt
      pure len
  | none =>
      match opcodes_2d.find? fun row => row.opcode == opcode with
      | some row => decode_row row 0xff d
      | none => do
          instr_out 0 "2D UNKNOWN\n" []
          pure 1

/-! ## Every 2D packet is read within the page, and has a dword at least -/

section Specs

variable {W : Window}

theorem decode_row_spec (row : Opcode) (mask d : BitVec 32) : Prints W (decode_row row mask d) fun ret _ => 1 ≤ ret := by
  unfold decode_row
  refine Prints.bind_iff.mpr (instr_out_iff.mpr ?_)
  refine Prints.andThen (whenever_iff.mpr ⟨fun _ => (fprintf_iff).mpr trivial, fun _ => trivial⟩) ?_
  refine Prints.andThen (dwords_any _) (Prints.pure_iff.mpr ?_)
  split <;> omega

theorem decode_2d_blt_any (h : W.Paged) {opcode len : Nat} {d : BitVec 32} {blt : Decoder Unit}
    (hblt : decode_2d_blt opcode len d = some blt) : Prints W blt fun _ _ => True := by
  have hread : ∀ i ≤ 8, W.Readable i := fun i hi => h.readable (by omega)
  unfold decode_2d_blt at hblt
  split at hblt <;> cases hblt <;>
    simp only [decode_2d_br00, decode_2d_br01, bad_count, point, value, Prints.bind_iff, data_iff, instr_out_iff,
      fprintf_iff, whenever_iff] <;>
    simp only [hread, Nat.reduceLeDiff, implies_true, and_self]

theorem decode_2d_spec (h : W.Paged) : Prints W decode_2d fun ret _ => 1 ≤ ret := by
  unfold decode_2d
  refine Prints.bind_iff.mpr (data_iff.mpr ⟨h.readable (by omega), ?_⟩)
  dsimp only
  split
  · rename_i blt hblt
    exact Prints.andThen (decode_2d_blt_any h hblt) (Prints.pure_iff.mpr (by omega))
  · split
    · exact decode_row_spec _ _ _
    · exact Prints.bind_iff.mpr (instr_out_iff.mpr (Prints.pure_iff.mpr (Nat.le_refl 1)))

end Specs

end LibDrm.Decode
