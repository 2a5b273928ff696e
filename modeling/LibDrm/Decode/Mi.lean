/-
# `LibDrm.Decode.Mi` — the decoder of MI packets

The packets are in one table.  Two of them have a decoder of their own, five are told apart in a
`switch`, and the others are printed dword by dword.  Only `MI_BATCH_BUFFER_END` returns −1.
-/
import LibDrm.Decode.Context

namespace LibDrm.Decode

def decode_MI_SET_CONTEXT : Decoder Nat := do
  let d ← data 1
  let W ← ctx
  if W.devid.gen > 7 then pure 1
  else do
    instr_out 0 "MI_SET_CONTEXT\n" []
    instr_out 1 "gtt offset = 0x%x%s%s\n"
      [bits d 0 (~~~0xfff), flag (bit d 1) ", Force Restore", flag (bit d 0) ", Restore Inhibit"]
    pure 2

def cc_wait : Nat → String
  | 1 => ", cc wait 1"
  | 2 => ", cc wait 2"
  | 3 => ", cc wait 3"
  | 4 => ", cc wait 4"
  | 5 => ", cc wait 4"
  | _ => ""

def decode_MI_WAIT_FOR_EVENT : Decoder Nat := do
  let d ← data 0
  let W ← ctx
  if W.devid.gen ≤ 5 then
    instr_out 0 "MI_WAIT_FOR_EVENT%s%s%s%s%s%s%s%s%s%s%s%s%s%s\n"
      [flag (bit d 18) ", pipe B start vblank wait", flag (bit d 17) ", pipe A start vblank wait",
       flag (bit d 16) ", overlay flip pending wait", flag (bit d 14) ", pipe B hblank wait",
       flag (bit d 13) ", pipe A hblank wait", cc_wait (field d 9 0x1f),
       flag (bit d 8) ", plane C pending flip wait", flag (bit d 7) ", pipe B vblank wait",
       flag (bit d 6) ", plane B pending flip wait", flag (bit d 5) ", pipe B scan line wait",
       flag (bit d 4) ", fbc idle wait", flag (bit d 3) ", pipe A vblank wait",
       flag (bit d 2) ", plane A pending flip wait", flag (bit d 1) ", plane A scan line wait"]
  else
    instr_out 0 "MI_WAIT_FOR_EVENT%s%s%s%s%s%s%s%s%s%s%s%s\n"
      [flag (bit d 20) ", sprite C pending flip wait", cc_wait (field d 16 0x1f),
       flag (bit d 13) ", pipe B hblank wait", flag (bit d 11) ", pipe B vblank wait",
       flag (bit d 10) ", sprite B pending flip wait", flag (bit d 9) ", plane B pending flip wait",
       flag (bit d 8) ", plane B scan line wait", flag (bit d 5) ", pipe A hblank wait",
       flag (bit d 3) ", pipe A vblank wait", flag (bit d 2) ", sprite A pending flip wait",
       flag (bit d 1) ", plane A pending flip wait", flag (bit d 0) ", plane A scan line wait"]
  pure 1

/-- A row of `opcodes_mi`. -/
structure MiOpcode where
  opcode : Nat
  len_mask : BitVec 32
  min_len : Nat
  max_len : Nat
  name : String
  func : Option (Decoder Nat)

def opcodes_mi : List MiOpcode :=
  [⟨0x08, 0, 1, 1, "MI_ARB_ON_OFF", none⟩,
   ⟨0x0a, 0, 1, 1, "MI_BATCH_BUFFER_END", none⟩,
   ⟨0x30, 0x3f, 3, 3, "MI_BATCH_BUFFER", none⟩,
   ⟨0x31, 0x3f, 2, 2, "MI_BATCH_BUFFER_START", none⟩,
   ⟨0x14, 0x3f, 3, 3, "MI_DISPLAY_BUFFER_INFO", none⟩,
   ⟨0x04, 0, 1, 1, "MI_FLUSH", none⟩,
   ⟨0x22, 0x1f, 3, 3, "MI_LOAD_REGISTER_IMM", none⟩,
   ⟨0x13, 0x3f, 2, 2, "MI_LOAD_SCAN_LINES_EXCL", none⟩,
   ⟨0x12, 0x3f, 2, 2, "MI_LOAD_SCAN_LINES_INCL", none⟩,
   ⟨0x00, 0, 1, 1, "MI_NOOP", none⟩,
   ⟨0x11, 0x3f, 2, 2, "MI_OVERLAY_FLIP", none⟩,
   ⟨0x07, 0, 1, 1, "MI_REPORT_HEAD", none⟩,
   ⟨0x18, 0x3f, 2, 2, "MI_SET_CONTEXT", some decode_MI_SET_CONTEXT⟩,
   ⟨0x20, 0x3f, 3, 4, "MI_STORE_DATA_IMM", none⟩,
   ⟨0x21, 0x3f, 3, 4, "MI_STORE_DATA_INDEX", none⟩,
   ⟨0x24, 0x3f, 3, 3, "MI_STORE_REGISTER_MEM", none⟩,
   ⟨0x02, 0, 1, 1, "MI_USER_INTERRUPT", none⟩,
   ⟨0x03, 0, 1, 1, "MI_WAIT_FOR_EVENT", some decode_MI_WAIT_FOR_EVENT⟩,
   ⟨0x16, 0x7f, 3, 3, "MI_SEMAPHORE_MBOX", none⟩,
   ⟨0x26, 0x1f, 3, 4, "MI_FLUSH_DW", none⟩,
   ⟨0x28, 0x3f, 3, 3, "MI_REPORT_PERF_COUNT", none⟩,
   ⟨0x29, 0xff, 3, 3, "MI_LOAD_REGISTER_MEM", none⟩,
   ⟨0x0b, 0, 1, 1, "MI_SUSPEND_FLUSH", none⟩]

/-- The first row with the opcode. -/
def mi_row (opcode : Nat) : Option MiOpcode := opcodes_mi.find? fun row => row.opcode == opcode

/-- "check instruction length": `len` starts as −1. -/
def mi_length (row : Option MiOpcode) (d : BitVec 32) : Decoder Int :=
  match row with
  | none => pure (-1)
  | some row =>
      if row.max_len > 1 then do
        let len := field d 0 row.len_mask + 2
        whenever (len < row.min_len ∨ len > row.max_len) <| fprintf "Bad length (%d) in %s, [%d, %d]\n"
          [len, row.name, row.min_len, row.max_len]
        pure len
      else pure 1

def post_sync_op : Nat → String
  | 0 => "no write"
  | 1 => "write data"
  | 2 => "reserved"
  | _ => "write TIMESTAMP"

/-- The `switch`, and the dwords of the packets that are not in it. -/
def mi_switch (row : Option MiOpcode) (opcode : Nat) (d : BitVec 32) (len : Int) : Decoder Int :=
  match opcode with
  | 0x0a => do
      instr_out 0 "MI_BATCH_BUFFER_END\n" []
      pure (-1)
  | 0x16 => do
      instr_out 0 "MI_SEMAPHORE_MBOX%s%s%s%s %u\n"
        [flag (bit d 22) " global gtt,", flag (bit d 21) " update semaphore,", flag (bit d 20) " compare semaphore,",
         flag (bit d 18) " use compare reg", bits d 16 0x3]
      instr_out 1 "value\n" []
      instr_out 2 "address\n" []
      pure len
  | 0x21 => do
      instr_out 0 "MI_STORE_DATA_INDEX%s\n" [flag (bit d 21) " use per-process HWS,"]
      instr_out 1 "index\n" []
      instr_out 2 "dword\n" []
      whenever (len = 4) <| instr_out 3 "upper dword\n" []
      pure len
  | 0x00 => do
      if bit d 22 then instr_out 0 "MI_NOOP write NOPID reg, val=0x%x\n" [bits d 0 0x3fffff]
      else instr_out 0 "MI_NOOP\n" []
      pure len
  | 0x26 => do
      instr_out 0 "MI_FLUSH_DW%s%s%s%s post_sync_op='%s' %s%s\n"
        [flag (bit d 22) " enable protected mem (BCS-only),", flag (bit d 21) " store in hws,",
         flag (bit d 18) " invalidate tlb,", flag (bit d 17) " flush gfdt,", post_sync_op (field d 14 0x3),
         flag (bit d 8) " enable notify interrupt,", flag (bit d 7) " invalidate video state (BCS-only),"]
      if bit d 21 then instr_out 1 "hws index\n" [] else instr_out 1 "address\n" []
      instr_out 2 "dword\n" []
      whenever (len = 4) <| instr_out 3 "upper dword\n" []
      pure len
  | _ =>
      match row with
      | some row => do
          instr_out 0 "%s\n" [row.name]
          dwords len.toNat
          pure len
      | none => do
          instr_out 0 "MI UNKNOWN\n" []
          pure 1

/-- `(data[0] & 0x1f800000) >> 23` -/
def mi_opcode (d : BitVec 32) : Nat := field d 23 0x3f

def decode_mi : Decoder Int := do
  let d ← data 0
  let row := mi_row (mi_opcode d)
  let len ← mi_length row d
  match row.bind MiOpcode.func with
  | some func => do
      let ret ← func
      pure ret
  | none => mi_switch row (mi_opcode d) d len

/-! ## Every MI packet is read within the page, and has a dword at least -/

section Specs

variable {W : Window}

theorem decode_MI_SET_CONTEXT_spec (h : W.Paged) : Prints W decode_MI_SET_CONTEXT fun ret _ => 1 ≤ ret := by
  unfold decode_MI_SET_CONTEXT
  simp only [Prints.bind_iff, data_iff, ctx_iff, Prints.ite_iff, instr_out_iff, Prints.pure_iff]
  exact ⟨h.readable (by omega), fun _ => Nat.le_refl 1, fun _ => Nat.le_succ 1⟩

theorem decode_MI_WAIT_FOR_EVENT_spec (h : W.Paged) :
    Prints W decode_MI_WAIT_FOR_EVENT fun ret _ => 1 ≤ ret := by
  unfold decode_MI_WAIT_FOR_EVENT
  simp only [Prints.bind_iff, data_iff, ctx_iff, Prints.ite_iff, instr_out_iff, Prints.pure_iff]
  exact ⟨h.readable (by omega), fun _ => Nat.le_refl 1, fun _ => Nat.le_refl 1⟩

theorem funcs_mi : opcodes_mi.filterMap MiOpcode.func = [decode_MI_SET_CONTEXT, decode_MI_WAIT_FOR_EVENT] := rfl

theorem mi_func_spec (h : W.Paged) {opcode : Nat} {func : Decoder Nat}
    (hfunc : (mi_row opcode).bind MiOpcode.func = some func) : Prints W func fun ret _ => 1 ≤ ret := by
  obtain ⟨row, hrow, hf⟩ := Option.bind_eq_some_iff.mp hfunc
  have hmem : func ∈ opcodes_mi.filterMap MiOpcode.func :=
    List.mem_filterMap.mpr ⟨row, List.mem_of_find?_eq_some hrow, hf⟩
  rw [funcs_mi, List.mem_cons, List.mem_singleton] at hmem
  rcases hmem with rfl | rfl
  · exact decode_MI_SET_CONTEXT_spec h
  · exact decode_MI_WAIT_FOR_EVENT_spec h

theorem mi_length_spec (row : Option MiOpcode) (d : BitVec 32) :
    Prints W (mi_length row d) fun len _ => row.isSome → 1 ≤ len := by
  cases row with
  | none => exact Prints.pure_iff.mpr nofun
  | some row =>
      simp only [mi_length, Prints.bind_iff, Prints.ite_iff, whenever_iff, fprintf_iff, Prints.pure_iff]
      omega

theorem mi_switch_spec {opcode : Nat} (d : BitVec 32) {len : Int} (hlen : (mi_row opcode).isSome → 1 ≤ len) :
    Prints W (mi_switch (mi_row opcode) opcode d len) fun ret _ => 1 ≤ ret ∨ ret = -1 ∧ opcode = 0x0a := by
  unfold mi_switch
  split
  · exact Prints.bind_iff.mpr (instr_out_iff.mpr (Prints.pure_iff.mpr (.inr ⟨rfl, rfl⟩)))
  -- the packets of the `switch` are in the table
  · simp only [Prints.bind_iff, instr_out_iff, Prints.pure_iff]
    exact .inl (hlen rfl)
  · simp only [Prints.bind_iff, whenever_iff, instr_out_iff, Prints.pure_iff]
    exact ⟨fun _ => .inl (hlen rfl), fun _ => .inl (hlen rfl)⟩
  · simp only [Prints.bind_iff, Prints.ite_iff, instr_out_iff, Prints.pure_iff]
    exact ⟨fun _ => .inl (hlen rfl), fun _ => .inl (hlen rfl)⟩
  · simp only [Prints.bind_iff, Prints.ite_iff, whenever_iff, instr_out_iff, Prints.pure_iff]
    exact ⟨fun _ => ⟨fun _ => .inl (hlen rfl), fun _ => .inl (hlen rfl)⟩,
      fun _ => ⟨fun _ => .inl (hlen rfl), fun _ => .inl (hlen rfl)⟩⟩
  · cases hrow : mi_row opcode with
    | none =>
        simp only [Prints.bind_iff, instr_out_iff, Prints.pure_iff]
        exact .inl (Int.le_refl 1)
    | some row =>
        refine Prints.bind_iff.mpr (instr_out_iff.mpr ?_)
        refine Prints.bind (dwords_any len.toNat) fun _ _ _ => Prints.pure_iff.mpr (.inl (hlen ?_))
        rw [hrow]
        rfl

theorem decode_mi_spec (h : W.Paged) :
    Prints W decode_mi fun ret _ => 1 ≤ ret ∨ ret = -1 ∧ mi_opcode (W.word 0) = 0x0a := by
  unfold decode_mi
  refine Prints.bind_iff.mpr (data_iff.mpr ⟨h.readable (by omega), ?_⟩)
  refine Prints.bind (mi_length_spec (mi_row (mi_opcode (W.word 0))) (W.word 0)) fun len _ hlen => ?_
  cases hfunc : (mi_row (mi_opcode (W.word 0))).bind MiOpcode.func with
  | none => exact mi_switch_spec (W.word 0) hlen
  | some func =>
      refine Prints.bind (mi_func_spec h hfunc) fun ret _ hret => Prints.pure_iff.mpr (.inl ?_)
      exact Int.ofNat_le.mpr hret

end Specs

end LibDrm.Decode
