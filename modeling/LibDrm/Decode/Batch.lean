/-
# `LibDrm.Decode.Batch` — `drm_intel_decode`, from packet to packet

    drm_intel_decode     copies the batch, puts the scratch page behind it, and decodes packets
                         while there are dwords left
    decode_packet        the decoder of a packet, and how far it goes
    instr_out, fprintf   what the decoder asked for, printed in that order

What the decoders ask of `instr_out` does not depend on what it prints, so a packet is decoded first
and printed then.  From one call to the next the file keeps the vertex state, and the context
whether it has overflowed.
-/
import LibDrm.Decode.Mi
import LibDrm.Decode.Primitive
import LibDrm.Decode.Gen4
import LibDrm.Lib.Arith

namespace LibDrm.Decode

/-! ## The packets by generation -/

/-- The decoders of primitives and of state, and a table for the rest. -/
def decode_3d_table (rows : List Opcode) (unknown : String) (saved : Saved) : Decoder (Nat × Saved) := do
  let d ← data 0
  let opcode := field d 24 0x1f
  match opcode with
  | 0x1f => decode_3d_primitive saved
  | 0x1d => decode_3d_1d saved
  | 0x1c => do
      let len ← decode_3d_1c
      pure (len, saved)
  | _ =>
      match rows.find? fun row => row.opcode == opcode with
      | some row => do
          let len ← decode_row row 0xff d
          pure (len, saved)
      | none => do
          instr_out 0 unknown [opcode]
          pure (1, saved)

def decode_3d : Saved → Decoder (Nat × Saved) :=
  decode_3d_table
    [⟨0x06, 1, 1, "3DSTATE_ANTI_ALIASING"⟩,
     ⟨0x08, 1, 1, "3DSTATE_BACKFACE_STENCIL_OPS"⟩,
     ⟨0x09, 1, 1, "3DSTATE_BACKFACE_STENCIL_MASKS"⟩,
     ⟨0x16, 1, 1, "3DSTATE_COORD_SET_BINDINGS"⟩,
     ⟨0x15, 1, 1, "3DSTATE_FOG_COLOR"⟩,
     ⟨0x0b, 1, 1, "3DSTATE_INDEPENDENT_ALPHA_BLEND"⟩,
     ⟨0x0d, 1, 1, "3DSTATE_MODES_4"⟩,
     ⟨0x0c, 1, 1, "3DSTATE_MODES_5"⟩,
     ⟨0x07, 1, 1, "3DSTATE_RASTERIZATION_RULES"⟩]
    "3D UNKNOWN: 3d opcode = 0x%x\n"

def decode_3d_i830 : Saved → Decoder (Nat × Saved) :=
  decode_3d_table
    [⟨0x02, 1, 1, "3DSTATE_MODES_3"⟩,
     ⟨0x03, 1, 1, "3DSTATE_ENABLES_1"⟩,
     ⟨0x04, 1, 1, "3DSTATE_ENABLES_2"⟩,
     ⟨0x05, 1, 1, "3DSTATE_VFT0"⟩,
     ⟨0x06, 1, 1, "3DSTATE_AA"⟩,
     ⟨0x07, 1, 1, "3DSTATE_RASTERIZATION_RULES"⟩,
     ⟨0x08, 1, 1, "3DSTATE_MODES_1"⟩,
     ⟨0x09, 1, 1, "3DSTATE_STENCIL_TEST"⟩,
     ⟨0x0a, 1, 1, "3DSTATE_VFT1"⟩,
     ⟨0x0b, 1, 1, "3DSTATE_INDPT_ALPHA_BLEND"⟩,
     ⟨0x0c, 1, 1, "3DSTATE_MODES_5"⟩,
     ⟨0x0d, 1, 1, "3DSTATE_MAP_BLEND_OP"⟩,
     ⟨0x0e, 1, 1, "3DSTATE_MAP_BLEND_ARG"⟩,
     ⟨0x0f, 1, 1, "3DSTATE_MODES_2"⟩,
     ⟨0x15, 1, 1, "3DSTATE_FOG_COLOR"⟩,
     ⟨0x16, 1, 1, "3DSTATE_MODES_4"⟩]
    "3D UNKNOWN: 3d_i830 opcode = 0x%x\n"

/-- The `index` a command of MI comes to: after the end of the batch the rest is dumped, or decoded too. -/
def mi_index (dump_past_end : Bool) (count : Nat) (ret : Int) : Decoder Nat :=
  if ret = -1 then
    if dump_past_end then pure 1
    else do
      (List.range' 1 (count - 1)).forM fun i => instr_out i "\n" []
      pure (max 1 count)
  else pure ret.toNat

def decode_packet (dump_past_end : Bool) (saved : Saved) : Decoder (Nat × Saved) := do
  let W ← ctx
  let d ← data 0
  match field d 29 0x7 with
  | 0x0 => do
      let ret ← decode_mi
      let index ← mi_index dump_past_end W.count ret
      pure (index, saved)
  | 0x2 => do
      let index ← decode_2d
      pure (index, saved)
  | 0x3 =>
      if W.devid.IS_9XX && !W.devid.IS_GEN3 then do
        let index ← decode_3d_965
        pure (index, saved)
      else if W.devid.IS_GEN3 then decode_3d saved
      else decode_3d_i830 saved
  | _ => do
      instr_out 0 "UNKNOWN\n" []
      pure (1, saved)

/-! ## The context -/

/-- `struct drm_intel_decode`, and the settings of a call: `base_count` is the length of the batch. -/
structure Context where
  devid : Chipset
  base_data : List (BitVec 32)
  base_hw_offset : BitVec 32
  head : BitVec 32
  tail : BitVec 32
  dump_past_end : Bool

def Context.base_count (c : Context) : Nat := c.base_data.length

/-- The batch and, behind it, 4096 bytes 0xd0. -/
def Context.copy (c : Context) : List (BitVec 32) := c.base_data ++ List.replicate 1024 0xd0d0d0d0

inductive Mark
  | HEAD
  | TAIL
  | blank
  deriving DecidableEq, Repr

/-- What is written to `out`. -/
inductive Line
  /-- A dword, with its address, and without an indent if it is the first of its packet. -/
  | dword (offset : BitVec 32) (parseinfo : Mark) (value : BitVec 32) (first : Bool) (text : Text)
  /-- "ERROR: Decode attempted to continue beyond end of batchbuffer" -/
  | beyond
  | text (text : Text)
  deriving DecidableEq, Repr

/-- Where the decoding stands at the head of the loop. -/
structure Cursor where
  hw_offset : BitVec 32
  data : Nat
  count : Nat
  saved : Saved
  overflowed : Bool
  out : List Line

def Cursor.window (c : Context) (w : Cursor) : Window := ⟨c.devid, c.copy, w.data, w.count⟩

def Context.parseinfo (c : Context) (offset : BitVec 32) : Mark :=
  if offset = c.head then .HEAD else if offset = c.tail then .TAIL else .blank

def Cursor.print (w : Cursor) (line : Line) : Cursor := { w with out := w.out ++ [line] }

/-- The error is printed when the context overflows for the first time. -/
def Cursor.beyond (w : Cursor) : Cursor := if w.overflowed then w else { w.print .beyond with overflowed := true }

/-- The line of dword `index` of the packet. -/
def Cursor.line (c : Context) (w : Cursor) (index : Nat) (text : Text) : Line :=
  .dword (w.hw_offset + BitVec.ofNat 32 (4 * index)) (c.parseinfo (w.hw_offset + BitVec.ofNat 32 (4 * index)))
    ((w.window c).word index) (index == 0) text

/-- `instr_out` and `fprintf` themselves. -/
def perform (c : Context) (w : Cursor) : Action → Except Fault Cursor
  | .print text => .ok (w.print (.text text))
  | .instr index text =>
      if index > w.count then .ok w.beyond
      else if (w.window c).Readable index then .ok (w.print (w.line c index text))
      else .error .outOfBounds

def Cursor.move (w : Cursor) (index : Nat) : Cursor :=
  { w with
    count := w.count - index, data := w.data + index, hw_offset := w.hw_offset + BitVec.ofNat 32 (4 * index) }

/-- The packet is printed, and `data`, `count` and `hw_offset` are moved behind it; or the loop is left. -/
def advance (c : Context) (w : Cursor) (index : Nat) (saved : Saved) (acts : List Action) : Except Fault (Bool × Cursor) := do
  let w' ← acts.foldlM (perform c) { w with saved := saved }
  if w'.count < index then pure (false, w') else pure (true, w'.move index)

/-- The body of the loop. -/
def round (c : Context) (w : Cursor) : Except Fault (Bool × Cursor) := do
  let ((index, saved), acts) ← decode_packet c.dump_past_end w.saved (w.window c)
  advance c w index saved acts

/-- The loop; it is bounded by the dwords there are, and to be cut off by the bound is a fault. -/
def decode_loop (c : Context) : Nat → Cursor → Except Fault Cursor
  | 0, w => if w.count > 0 then .error .outOfFuel else .ok w
  | fuel + 1, w =>
      if w.count > 0 then do
        let (more, w') ← round c w
        if more then decode_loop c fuel w' else pure w'
      else pure w

/-- At the first packet: `saved_s2_set = 0; saved_s4_set = 1;`.  The size of the copy is an `int`. -/
def start (c : Context) (saved : Saved) (overflowed : Bool) : Except Fault Cursor :=
  if 4 * c.base_count + 4096 < 2 ^ 31 then
    .ok ⟨c.base_hw_offset, 0, c.base_count, { saved with s2_set := false, s4_set := true }, overflowed, []⟩
  else .error .outOfBounds

def drm_intel_decode (c : Context) (saved : Saved) (overflowed : Bool) : Except Fault Cursor := do
  let w ← start c saved overflowed
  decode_loop c w.count w

/-! ## The heads of the loop -/

/-- The decoder of the packet at the head of the loop returns this. -/
def Decodes (c : Context) (w : Cursor) (index : Nat) (saved : Saved) (acts : List Action) : Prop :=
  0 < w.count ∧ decode_packet c.dump_past_end w.saved (w.window c) = .ok ((index, saved), acts)

/-- One round that goes back to the head. -/
def Round (c : Context) (w w' : Cursor) : Prop := 0 < w.count ∧ round c w = .ok (true, w')

/-- The states at the head of the loop. -/
def Head (c : Context) (saved : Saved) (overflowed : Bool) : Cursor → Prop :=
  Runs (fun w => start c saved overflowed = .ok w) (Round c)

end LibDrm.Decode
