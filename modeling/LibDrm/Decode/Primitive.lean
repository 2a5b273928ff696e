/-
# `LibDrm.Decode.Primitive` — the decoder of 3DPRIMITIVE

    inline              the vertices are in the packet; the length is a field
    sequential          two dwords
    random, counted     the indices are in the packet, two in a dword
    random, open        the same, up to an index 0xffff

A clear rectangle has vertices of its own kind, so the saved vertex state is overridden for it, and
put back at `out:`.  `BUFFER_FAIL` returns without going there.
-/
import LibDrm.Decode.State

namespace LibDrm.Decode

def primtype : Nat → String
  | 0x0 => "TRILIST"
  | 0x1 => "TRISTRIP"
  | 0x2 => "TRISTRIP_REVERSE"
  | 0x3 => "TRIFAN"
  | 0x4 => "POLYGON"
  | 0x5 => "LINELIST"
  | 0x6 => "LINESTRIP"
  | 0x7 => "RECTLIST"
  | 0x8 => "POINTLIST"
  | 0x9 => "DIB"
  | 0xa => "CLEAR_RECT"
  | _ => "unknown"

def BUFFER_FAIL (count len : Nat) (name : String) : Decoder Nat := do
  fprintf "Buffer size too small in %s (%d < %d)\n" [name, count, len]
  pure count

/-! ## Inline vertices -/

/-- `VERTEX_OUT` -/
def VERTEX_OUT (len vertex : Nat) (fmt : String) (args : BitVec 32 → List Arg) (i : Nat) : Decoder Nat := do
  if i < len then do
    let d ← data i
    instr_out i (" V%d." ++ fmt ++ "\n") (.word (BitVec.ofNat 32 vertex) :: args d)
    pure (i + 1)
  else do
    fprintf " missing data in V%d\n" [vertex]
    pure (i + 1)

def float_arg (d : BitVec 32) : List Arg := [.float d]

def color_args (d : BitVec 32) : List Arg := [d >>> 24, bits d 16 0xff, bits d 8 0xff, bits d 0 0xff]

/-- The coordinates that S4 says a position has beside X and Y. -/
def vertex_position (s4 : BitVec 32) (len vertex i : Nat) : Decoder Nat :=
  match field s4 6 0x7 with
  | 0x1 => VERTEX_OUT len vertex "Z = %f" float_arg i
  | 0x2 => do
      let i ← VERTEX_OUT len vertex "Z = %f" float_arg i
      VERTEX_OUT len vertex "W = %f" float_arg i
  | 0x3 => pure i
  | 0x4 => VERTEX_OUT len vertex "W = %f" float_arg i
  | _ => do
      fprintf "bad S4 position mask\n" []
      pure i

/-- A component of texture coordinate `tc`. -/
def texcoord_out (len vertex tc : Nat) (name : String) (i : Nat) : Decoder Nat :=
  VERTEX_OUT len vertex ("T%d." ++ name ++ " = %f") (fun d => [.word (BitVec.ofNat 32 tc), .float d]) i

/-- Two half-floats in one dword. -/
def texcoord_half (len vertex tc : Nat) (names : String) (i : Nat) : Decoder Nat :=
  VERTEX_OUT len vertex ("T%d." ++ names ++ " = 0x%08x half-float") (fun d => [.word (BitVec.ofNat 32 tc), d]) i

/-- Texture coordinate `tc`, in the format of S2. -/
def vertex_texcoord (s2 : BitVec 32) (len vertex i tc : Nat) : Decoder Nat :=
  match field s2 (tc * 4) 0xf with
  | 0x0 => ["X", "Y"].foldlM (fun i name => texcoord_out len vertex tc name i) i
  | 0x1 => ["X", "Y", "Z"].foldlM (fun i name => texcoord_out len vertex tc name i) i
  | 0x2 => ["X", "Y", "Z", "W"].foldlM (fun i name => texcoord_out len vertex tc name i) i
  | 0x3 => texcoord_out len vertex tc "X" i
  | 0x4 => texcoord_half len vertex tc "XY" i
  | 0x5 => do
      let i ← texcoord_half len vertex tc "XY" i
      texcoord_half len vertex tc "ZW" i
  | 0xf => pure i
  | _ => do
      fprintf "bad S2.T%d format\n" [tc]
      pure i

/-- A part that may not be there. -/
def optional (c : Bool) (p : Nat → Decoder Nat) (i : Nat) : Decoder Nat := if c then p i else pure i

def vertex_color (s4 : BitVec 32) (len vertex i : Nat) : Decoder Nat := do
  let i ← optional (bit s4 10) (VERTEX_OUT len vertex "color = (A=0x%02x, R=0x%02x, G=0x%02x, B=0x%02x)" color_args) i
  let i ← optional (bit s4 11) (VERTEX_OUT len vertex "spec = (A=0x%02x, R=0x%02x, G=0x%02x, B=0x%02x)" color_args) i
  optional (bit s4 12) (VERTEX_OUT len vertex "width = 0x%08x)" fun d => [d]) i

/-- One vertex, from dword `i` on. -/
def vertex_out (saved : Saved) (len vertex i : Nat) : Decoder Nat := do
  let i ← VERTEX_OUT len vertex "X = %f" float_arg i
  let i ← VERTEX_OUT len vertex "Y = %f" float_arg i
  let i ← vertex_position saved.s4 len vertex i
  let i ← vertex_color saved.s4 len vertex i
  (List.range 8).foldlM (vertex_texcoord saved.s2 len vertex) i

/-- Vertex after vertex; `len` rounds are more than enough. -/
def vertices (saved : Saved) (len : Nat) : Nat → Nat → Nat → Decoder Unit
  | 0, i, _ => if i < len then .fail .outOfFuel else pure ()
  | fuel + 1, i, vertex =>
      if i < len then do
        let i ← vertex_out saved len vertex i
        vertices saved len fuel i (vertex + 1)
      else pure ()

def vertex_data (len : Nat) : Decoder Unit := do
  fprintf "unknown vertex format\n" []
  (List.range' 1 (len - 1)).forM fun i => do
    let d ← data i
    instr_out i "           vertex data (%f float)\n" [.float d]

def inline_vertices (saved : Saved) (len : Nat) : Decoder Unit :=
  if !saved.s2_set || !saved.s4_set then vertex_data len else vertices saved len len 1 0

/-! ## Indices -/

/-- "vertex indices continue until 0xffff is found" -/
def open_indices (count : Nat) : List Nat → Decoder Nat
  | [] => do
      fprintf "3DPRIMITIVE: no terminator found in index buffer\n" []
      pure count
  | i :: rest => do
      let d ← data i
      if bits d 0 0xffff = 0xffff then do
        instr_out i "    indices: (terminator)\n" []
        pure i
      else if d >>> 16 = 0xffff then do
        instr_out i "    indices: 0x%04x, (terminator)\n" [bits d 0 0xffff]
        pure i
      else do
        instr_out i "    indices: 0x%04x, 0x%04x\n" [bits d 0 0xffff, d >>> 16]
        open_indices count rest

/-- "fixed size vertex index buffer": in round `n`, `i` is `2 * n` and `j` is `n + 1`. -/
def counted_indices (len : Nat) : Decoder Unit :=
  (List.range ((len + 1) / 2)).forM fun n => do
    let d ← data (n + 1)
    if 2 * n * 2 = len - 1 then instr_out (n + 1) "    indices: 0x%04x\n" [bits d 0 0xffff]
    else instr_out (n + 1) "    indices: 0x%04x, 0x%04x\n" [bits d 0 0xffff, d >>> 16]

/-! ## The packet -/

/-- `case 0xa` -/
def Saved.override (saved : Saved) (type : Nat) : Saved :=
  if type = 0xa then { saved with s4 := 3 <<< 6, s2 := ~~~0 } else saved

/-- `out:` -/
def Saved.restore (saved original : Saved) : Saved := { saved with s2 := original.s2, s4 := original.s4 }

def primitive_inline (W : Window) (type : Nat) (d : BitVec 32) (original saved : Saved) : Decoder (Nat × Saved) := do
  let len := field d 0 0x3ffff + 2
  instr_out 0 "3DPRIMITIVE inline %s\n" [primtype type]
  if W.count < len then do
    let ret ← BUFFER_FAIL W.count len "3DPRIMITIVE inline"
    pure (ret, saved)
  else do
    inline_vertices saved len
    pure (len, saved.restore original)

def primitive_random (W : Window) (type : Nat) (d : BitVec 32) (original saved : Saved) : Decoder (Nat × Saved) := do
  let len := field d 0 0xffff
  if W.count < (len + 1) / 2 + 1 then do
    let ret ← BUFFER_FAIL W.count ((len + 1) / 2 + 1) "3DPRIMITIVE random indirect"
    pure (ret, saved)
  else do
    instr_out 0 "3DPRIMITIVE random indirect %s (%d)\n" [primtype type, len]
    if len = 0 then do
      let ret ← open_indices W.count (List.range' 1 (W.count - 1))
      pure (ret, saved.restore original)
    else do
      counted_indices len
      pure ((len + 1) / 2 + 1, saved.restore original)

def primitive_sequential (type : Nat) (d : BitVec 32) (original saved : Saved) : Decoder (Nat × Saved) := do
  let d₁ ← data 1
  instr_out 0 "3DPRIMITIVE sequential indirect %s, %d starting from %d\n"
    [primtype type, field d 0 0xffff, bits d₁ 0 0xffff]
  instr_out 1 "           start\n" []
  pure (2, saved.restore original)

def decode_3d_primitive (original : Saved) : Decoder (Nat × Saved) := do
  let W ← ctx
  let d ← data 0
  let type := field d 18 0xf
  let saved := original.override type
  if !bit d 23 then primitive_inline W type d original saved
  else if bit d 17 then primitive_random W type d original saved
  else primitive_sequential type d original saved

/-! ## A primitive is read within what is there, and has a dword at least -/

section Specs

variable {W : Window} {len : Nat}

theorem VERTEX_OUT_spec (hread : ∀ i < len, W.Readable i) (vertex : Nat) (fmt : String) (args : BitVec 32 → List Arg)
    (i : Nat) : Prints W (VERTEX_OUT len vertex fmt args i) fun j _ => j = i + 1 := by
  refine Prints.ite_iff.mpr ⟨fun h => Prints.bind_iff.mpr (data_iff.mpr ⟨hread i h, ?_⟩), fun _ => ?_⟩
  · exact Prints.bind_iff.mpr (instr_out_iff.mpr (Prints.pure_iff.mpr rfl))
  · exact Prints.bind_iff.mpr (fprintf_iff.mpr (Prints.pure_iff.mpr rfl))

/-- What only goes on. -/
theorem VERTEX_OUT_le (hread : ∀ i < len, W.Readable i) (vertex : Nat) (fmt : String) (args : BitVec 32 → List Arg)
    (i : Nat) : Prints W (VERTEX_OUT len vertex fmt args i) fun j _ => i ≤ j :=
  (VERTEX_OUT_spec hread vertex fmt args i).mono fun j _ hj => by omega

theorem vertex_position_le (hread : ∀ i < len, W.Readable i) (s4 : BitVec 32) (vertex i : Nat) :
    Prints W (vertex_position s4 len vertex i) fun j _ => i ≤ j := by
  unfold vertex_position
  split
  · exact VERTEX_OUT_le hread _ _ _ _
  · exact (VERTEX_OUT_le hread _ _ _ _).bind fun j _ hj =>
      (VERTEX_OUT_le hread _ _ _ _).mono fun k _ hk => Nat.le_trans hj hk
  · exact Prints.pure_iff.mpr (Nat.le_refl i)
  · exact VERTEX_OUT_le hread _ _ _ _
  · exact Prints.bind_iff.mpr (fprintf_iff.mpr (Prints.pure_iff.mpr (Nat.le_refl i)))

/-- A loop whose rounds only go on. -/
theorem foldlM_le {β : Type} {f : Nat → β → Decoder Nat} {xs : List β} {i : Nat}
    (hf : ∀ i x, Prints W (f i x) fun j _ => i ≤ j) : Prints W (xs.foldlM f i) fun j _ => i ≤ j :=
  Prints.foldlM (I := fun _ j => i ≤ j) (Nat.le_refl i) fun _ x _ j _ hj =>
    (hf j x).mono fun _ _ hk => Nat.le_trans hj hk

theorem vertex_texcoord_le (hread : ∀ i < len, W.Readable i) (s2 : BitVec 32) (vertex i tc : Nat) :
    Prints W (vertex_texcoord s2 len vertex i tc) fun j _ => i ≤ j := by
  unfold vertex_texcoord
  split
  · exact foldlM_le fun i name => VERTEX_OUT_le hread _ _ _ _
  · exact foldlM_le fun i name => VERTEX_OUT_le hread _ _ _ _
  · exact foldlM_le fun i name => VERTEX_OUT_le hread _ _ _ _
  · exact VERTEX_OUT_le hread _ _ _ _
  · exact VERTEX_OUT_le hread _ _ _ _
  · exact (VERTEX_OUT_le hread _ _ _ _).bind fun j _ hj =>
      (VERTEX_OUT_le hread _ _ _ _).mono fun k _ hk => Nat.le_trans hj hk
  · exact Prints.pure_iff.mpr (Nat.le_refl i)
  · exact Prints.bind_iff.mpr (fprintf_iff.mpr (Prints.pure_iff.mpr (Nat.le_refl i)))

theorem optional_le {c : Bool} {p : Nat → Decoder Nat} (hp : ∀ i, Prints W (p i) fun j _ => i ≤ j) (i : Nat) :
    Prints W (optional c p i) fun j _ => i ≤ j :=
  Prints.ite_iff.mpr ⟨fun _ => hp i, fun _ => Prints.pure_iff.mpr (Nat.le_refl i)⟩

theorem vertex_color_le (hread : ∀ i < len, W.Readable i) (s4 : BitVec 32) (vertex i : Nat) :
    Prints W (vertex_color s4 len vertex i) fun j _ => i ≤ j := by
  refine (optional_le (VERTEX_OUT_le hread _ _ _) i).bind fun j _ hj => ?_
  refine (optional_le (VERTEX_OUT_le hread _ _ _) j).bind fun k _ hk => ?_
  exact (optional_le (VERTEX_OUT_le hread _ _ _) k).mono fun m _ hm => Nat.le_trans hj (Nat.le_trans hk hm)

/-- X and Y are always there. -/
theorem vertex_out_lt (hread : ∀ i < len, W.Readable i) (saved : Saved) (vertex i : Nat) :
    Prints W (vertex_out saved len vertex i) fun j _ => i < j := by
  refine (VERTEX_OUT_spec hread _ _ _ i).bind fun j _ hj => ?_
  refine (VERTEX_OUT_spec hread _ _ _ j).bind fun k _ hk => ?_
  refine (vertex_position_le hread _ _ k).bind fun l _ hl => ?_
  refine (vertex_color_le hread _ _ l).bind fun m _ hm => ?_
  refine (foldlM_le fun i tc => vertex_texcoord_le hread _ _ i tc).mono fun n _ hn => ?_
  omega

/-- The rounds that are left are enough for the dwords that are left. -/
theorem vertices_any (hread : ∀ i < len, W.Readable i) (saved : Saved) {fuel i : Nat} (vertex : Nat)
    (hfuel : len ≤ i + fuel) : Prints W (vertices saved len fuel i vertex) fun _ _ => True := by
  induction fuel generalizing i vertex with
  | zero => exact Prints.ite_iff.mpr ⟨fun h => absurd h (by omega), fun _ => Prints.pure_iff.mpr trivial⟩
  | succ fuel ih =>
      refine Prints.ite_iff.mpr ⟨fun _ => ?_, fun _ => Prints.pure_iff.mpr trivial⟩
      exact (vertex_out_lt hread saved vertex i).bind fun j _ hj => ih (vertex + 1) (by omega)

theorem vertex_data_any (hread : ∀ i < len, W.Readable i) : Prints W (vertex_data len) fun _ _ => True := by
  refine Prints.bind_iff.mpr (fprintf_iff.mpr (Prints.forM fun i hi => ?_))
  rw [List.mem_range'_1] at hi
  exact Prints.bind_iff.mpr (data_iff.mpr ⟨hread i (by omega), (instr_out_iff).mpr trivial⟩)

end Specs

end LibDrm.Decode
