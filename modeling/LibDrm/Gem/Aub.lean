/-
# `LibDrm.Gem.Aub` — trace blocks of a dump

A dump of a batch writes every object into a trace file, as blocks of a header
and the bytes that follow it; the header says how many.

    aub_write_bo                  one stretch for each annotation, one for the rest
    aub_write_large_trace_block   a stretch in blocks of 32 KiB at most
    aub_write_trace_block         the header
    aub_write_bo_data             the bytes

The last one writes the bytes as they are if the object has no relocations, and
dword by dword if it has: then what is beyond the last whole dword is not
written, and a relocation off a dword is not seen.  Also, the arithmetic is in
32 bits, and the memory for the bytes of a `userptr` object is never filled.
`dump_framed_iff` says when none of this matters.
-/
import LibDrm.Gem.Safety
import LibDrm.Lib.Bytes
import LibDrm.Lib.Tiling

namespace LibDrm.Gem

/-! ## The functions -/

def CMD_AUB_TRACE_HEADER_BLOCK : UInt32 := (7 : UInt32) <<< 29 ||| (1 : UInt32) <<< 23 ||| (0x41 : UInt32) <<< 16
def AUB_TRACE_OP_DATA_WRITE : UInt32 := 1
def AUB_TRACE_MEMTYPE_GTT : UInt32 := (0 : UInt32) <<< 16
def AUB_TRACE_TYPE_NOTYPE : UInt32 := (0 : UInt32) <<< 8

/-- `drm_intel_aub_annotation`. -/
structure Annotation where
  type : UInt32
  subtype : UInt32
  endingOffset : UInt32

/-- The fields `aub_offset` of the manager and of its objects. -/
structure Aub where
  offset : UInt32
  address : BoId → UInt32

/-- What `PREAD` reads at a byte of the object, and what `malloc` leaves in the memory for it. -/
structure Memory where
  contents : Nat → UInt8
  fresh : Nat → UInt8

/-- What one call of `aub_write_trace_block` adds to the file. -/
structure TraceBlock where
  header : List UInt32
  payload : List UInt8
  deriving DecidableEq, Repr

def TraceBlock.bytes (blk : TraceBlock) : List UInt8 := blk.header.flatMap bytes32 ++ blk.payload

section Functions

variable (s : Bufmgr) (a : Aub) (b : BoId) (m : Memory)

/-- `drm_intel_gem_bo_get_subdata` into new memory. -/
def getSubdata (offset size : Nat) : List UInt8 :=
  (List.range' offset size).map fun p => if (s.bos b).isUserptr then m.fresh p else m.contents p

/-- The loop over the relocations: the value of the first one at the position. -/
def relocValue (pos : Nat) : Option UInt32 :=
  ((s.bos b).relocs.find? fun r => r.offset == pos).map fun r => UInt32.ofNat r.delta + a.address r.target

/-- `aub_write_bo_data`. -/
def aubWriteBoData (offset size : Nat) : List UInt8 :=
  let data := getSubdata s b m offset size
  if (s.bos b).relocs.length = 0 then data
  else (List.range (size / 4)).flatMap fun i =>
    match relocValue s a b ((offset + i * 4) % 2 ^ 32) with
    | some val => bytes32 val
    | none => (data.drop (4 * i)).take 4

/-- `aub_write_trace_block`. -/
def aubWriteTraceBlock (type subtype : UInt32) (offset size : Nat) : TraceBlock where
  header := [CMD_AUB_TRACE_HEADER_BLOCK ||| ((if 8 ≤ s.cfg.gen then 6 else 5) - 2),
      AUB_TRACE_MEMTYPE_GTT ||| type ||| AUB_TRACE_OP_DATA_WRITE, subtype, a.address b + UInt32.ofNat offset,
      UInt32.ofNat size] ++ if 8 ≤ s.cfg.gen then [0] else []
  payload := aubWriteBoData s a b m offset size

/-- The loop of `aub_write_large_trace_block`. -/
def largeLoop (write : Nat → Nat → TraceBlock) (offset size : Nat) : Nat → Nat → List TraceBlock
  | 0, _ => []
  | k + 1, subOffset =>
      if subOffset < size then
        let blockSize := min (size - subOffset) (8 * 4096)
        write ((offset + subOffset) % 2 ^ 32) blockSize :: largeLoop write offset size k (subOffset + blockSize)
      else []

/-- `aub_write_large_trace_block`. -/
def aubWriteLargeTraceBlock (type subtype : UInt32) (offset size : Nat) : List TraceBlock :=
  largeLoop (aubWriteTraceBlock s a b m type subtype) offset size (size / (8 * 4096) + 1) 0

/-- The loop over the annotations: the blocks, and `offset` behind it. -/
def aubWriteAnnotated : List Annotation → Nat → List TraceBlock × Nat
  | [], offset => ([], offset)
  | n :: ns, offset =>
      let endingOffset := min n.endingOffset.toNat (s.bos b).size
      if offset < endingOffset then
        let (blocks, offset') := aubWriteAnnotated ns endingOffset
        (aubWriteLargeTraceBlock s a b m n.type n.subtype offset (endingOffset - offset) ++ blocks, offset')
      else aubWriteAnnotated ns offset

/-- The object gets the next address of the dump. -/
def Aub.place : Aub where
  offset := a.offset + UInt32.ofNat (s.bos b).size
  address := Function.update a.address b a.offset

/-- `aub_bo_get_address`. -/
def aubBoGetAddress : Except Fault Aub := do
  assert ((a.place s b).offset.toNat < 256 * 1024 * 1024)
  return a.place s b

/-- `aub_write_bo`. -/
def aubWriteBo (annotations : List Annotation) : Except Fault (List TraceBlock × Aub) := do
  let a ← aubBoGetAddress s a b
  let (blocks, offset) := aubWriteAnnotated s a b m annotations 0
  let rest := if offset < (s.bos b).size then
      aubWriteLargeTraceBlock s a b m AUB_TRACE_TYPE_NOTYPE 0 offset (((s.bos b).size - offset) % 2 ^ 32)
    else []
  return (blocks ++ rest, a)

end Functions

/-! ## What is asked of a dump -/

/-- The relocation patches the byte at `p`. -/
def Reloc.covers (r : Reloc) (p : Nat) : Bool := decide (r.offset ≤ p) && decide (p < r.offset + 4)

/-- The byte at `p` of `base` with the relocations applied; of several, the first one counts. -/
def patched (address : BoId → UInt32) (relocs : List Reloc) (base : Nat → UInt8) (p : Nat) : UInt8 :=
  match relocs.find? fun r => r.covers p with
  | some r => (bytes32 (UInt32.ofNat r.delta + address r.target)).getD (p - r.offset) 0
  | none => base p

/-- Where a block of the object at `address` begins, by its header. -/
def TraceBlock.offset (address : UInt32) (blk : TraceBlock) : Nat := (blk.header.getD 3 0 - address).toNat

/-- The size of the block, by its header. -/
def TraceBlock.size (blk : TraceBlock) : Nat := (blk.header.getD 4 0).toNat

/-- The blocks cut the object up, each has the bytes that its header says, and all of them are the
object with its relocations applied. -/
structure Framed (s : Bufmgr) (b : BoId) (contents : Nat → UInt8) (a : Aub) (blocks : List TraceBlock) : Prop where
  partition : Tiling.Tiles (fun blk => (blk.offset (a.address b) : Int)) (fun blk => (blk.size : Int)) 0 blocks (s.bos b).size
  limit : ∀ blk ∈ blocks, blk.size ≤ 32768
  framing : ∀ blk ∈ blocks, blk.payload.length = blk.size
  payload : blocks.flatMap TraceBlock.payload
    = (List.range' 0 (s.bos b).size).map (patched a.address (s.bos b).relocs contents)

/-! ## The pieces -/

/-- A block before it is written: `start` is where it begins, before that is cut down to 32 bits. -/
structure Piece where
  type : UInt32
  subtype : UInt32
  start : Nat
  size : Nat

/-- The pieces of a stretch from `lo` on, with `n` bytes left. -/
def pieces (type subtype : UInt32) : Nat → Nat → Nat → List Piece
  | 0, _, _ => []
  | k + 1, lo, n =>
      if n = 0 then []
      else ⟨type, subtype, lo, min n 32768⟩ :: pieces type subtype k (lo + min n 32768) (n - min n 32768)

/-- Where the pieces of a stretch begin. -/
theorem pieces_starts (type subtype : UInt32) (x : Nat) : ∀ (k lo n : Nat), n ≤ 32768 * k →
    ((∃ p ∈ pieces type subtype k lo n, p.start = x) ↔ ∃ j, 32768 * j < n ∧ x = lo + 32768 * j) := by
  intro k
  induction k with
  | zero =>
      intro lo n hn
      constructor
      · rintro ⟨p, hp, -⟩
        cases hp
      · rintro ⟨j, hj, -⟩
        omega
  | succ k ih =>
      intro lo n hn
      unfold pieces
      split
      · rename_i h0
        constructor
        · rintro ⟨p, hp, -⟩
          cases hp
        · rintro ⟨j, hj, -⟩
          omega
      · rename_i h0
        have hrest := ih (lo + min n 32768) (n - min n 32768) (by omega)
        simp only [List.mem_cons, exists_eq_or_imp, hrest]
        constructor
        · rintro (hx | ⟨j, hj, hx⟩)
          · exact ⟨0, by omega, by omega⟩
          · exact ⟨j + 1, by omega, by omega⟩
        · rintro ⟨j, hj, hx⟩
          cases j with
          | zero => exact .inl (by omega)
          | succ j => exact .inr ⟨j, by omega, by omega⟩

theorem pieces_limit (type subtype : UInt32) : ∀ (k lo n : Nat), ∀ p ∈ pieces type subtype k lo n, p.size ≤ 32768 := by
  intro k
  induction k with
  | zero => exact fun _ _ p hp => absurd hp List.not_mem_nil
  | succ k ih =>
      intro lo n p hp
      unfold pieces at hp
      split at hp
      · cases hp
      · rcases List.mem_cons.mp hp with rfl | hp
        · exact Nat.min_le_right ..
        · exact ih _ _ p hp

/-- They have whole dwords exactly if the stretch has. -/
theorem pieces_dwords (type subtype : UInt32) : ∀ (k lo n : Nat), n ≤ 32768 * k →
    ((∀ p ∈ pieces type subtype k lo n, 4 ∣ p.size) ↔ 4 ∣ n) := by
  intro k
  induction k with
  | zero =>
      intro lo n hn
      obtain rfl : n = 0 := by omega
      exact iff_of_true nofun (Nat.dvd_zero 4)
  | succ k ih =>
      intro lo n hn
      unfold pieces
      split
      · rename_i h0
        exact iff_of_true nofun (h0 ▸ Nat.dvd_zero 4)
      · rw [List.forall_mem_cons, ih _ _ (by omega)]
        show 4 ∣ min n 32768 ∧ 4 ∣ n - min n 32768 ↔ 4 ∣ n
        omega

abbrev PieceTiles (lo : Nat) (l : List Piece) (hi : Nat) : Prop :=
  Tiling.Tiles (fun p : Piece => (p.start : Int)) (fun p => (p.size : Int)) lo l hi

theorem pieces_tiles (type subtype : UInt32) : ∀ (k lo n : Nat), n ≤ 32768 * k →
    PieceTiles lo (pieces type subtype k lo n) (lo + n : Nat) := by
  intro k
  induction k with
  | zero =>
      intro lo n hn
      obtain rfl : n = 0 := by omega
      rfl
  | succ k ih =>
      intro lo n hn
      unfold pieces
      split
      · rename_i h0
        rw [h0]
        rfl
      · have h := ih (lo + min n 32768) (n - min n 32768) (by omega)
        rw [show lo + min n 32768 + (n - min n 32768) = lo + n by omega, PieceTiles, Nat.cast_add] at h
        exact ⟨rfl, show (0 : Int) < (min n 32768 : Nat) by omega, h⟩

section Write

variable (s : Bufmgr) (a : Aub) (b : BoId) (m : Memory)

/-- The piece as it is written, at a position of 32 bits. -/
def Piece.write (p : Piece) : TraceBlock := aubWriteTraceBlock s a b m p.type p.subtype (p.start % 2 ^ 32) p.size

theorem largeLoop_eq (type subtype : UInt32) (offset size : Nat) : ∀ (k subOffset : Nat),
    largeLoop (aubWriteTraceBlock s a b m type subtype) offset size k subOffset
      = (pieces type subtype k (offset + subOffset) (size - subOffset)).map (Piece.write s a b m) := by
  intro k
  induction k with
  | zero => exact fun _ => rfl
  | succ k ih =>
      intro subOffset
      unfold largeLoop pieces
      split
      · rename_i hlt
        rw [if_neg (by omega), List.map_cons]
        dsimp only
        rw [ih, ← Nat.add_assoc, Nat.sub_sub]
        rfl
      · rename_i hge
        rw [if_pos (by omega), List.map_nil]

/-- The pieces of a stretch. -/
def stretch (type subtype : UInt32) (lo n : Nat) : List Piece := pieces type subtype (n / 32768 + 1) lo n

theorem aubWriteLargeTraceBlock_eq (type subtype : UInt32) (offset size : Nat) :
    aubWriteLargeTraceBlock s a b m type subtype offset size
      = (stretch type subtype offset size).map (Piece.write s a b m) := largeLoop_eq s a b m type subtype offset size _ 0

end Write

theorem rounds_suffice (n : Nat) : n ≤ 32768 * (n / 32768 + 1) := by omega

/-! ## The stretches -/

/-- The stretches that the annotations make of an object: where each one ends. -/
def sectionEnds (size : Nat) : List Annotation → Nat → List Nat
  | [], _ => []
  | n :: ns, lo =>
      if lo < min n.endingOffset.toNat size then
        min n.endingOffset.toNat size :: sectionEnds size ns (min n.endingOffset.toNat size)
      else sectionEnds size ns lo

/-- How much of the object is annotated. -/
def annotatedEnd (size : Nat) (ns : List Annotation) (lo : Nat) : Nat :=
  ns.foldl (fun o n => max o (min n.endingOffset.toNat size)) lo

theorem annotatedEnd_le (size : Nat) : ∀ (ns : List Annotation) {lo : Nat}, lo ≤ size → annotatedEnd size ns lo ≤ size := by
  intro ns
  induction ns with
  | nil => exact fun h => h
  | cons n ns ih => exact fun h => ih (Nat.max_le.mpr ⟨h, Nat.min_le_right ..⟩)

theorem annotatedEnd_lt (size : Nat) : ∀ (ns : List Annotation) {lo : Nat}, lo < 2 ^ 32 →
    annotatedEnd size ns lo < 2 ^ 32 := by
  intro ns
  induction ns with
  | nil => exact fun h => h
  | cons n ns ih =>
      exact fun h => ih (Nat.max_lt.mpr ⟨h, lt_of_le_of_lt (Nat.min_le_left ..) n.endingOffset.toNat_lt⟩)

theorem annotatedEnd_dvd (size : Nat) : ∀ (ns : List Annotation) {lo : Nat}, 4 ∣ lo →
    (∀ e ∈ sectionEnds size ns lo, 4 ∣ e) → 4 ∣ annotatedEnd size ns lo := by
  intro ns
  induction ns with
  | nil => exact fun h _ => h
  | cons n ns ih =>
      intro lo hlo hends
      unfold sectionEnds at hends
      show 4 ∣ annotatedEnd size ns (max lo (min n.endingOffset.toNat size))
      split at hends
      · rename_i hlt
        rw [Nat.max_eq_right hlt.le]
        rw [List.forall_mem_cons] at hends
        exact ih hends.1 hends.2
      · rename_i hge
        rw [Nat.max_eq_left (by omega)]
        exact ih hlo hends

/-- What the loop over the annotations writes, as pieces. -/
structure Annotates (size : Nat) (ns : List Annotation) (lo : Nat) (ps : List Piece) : Prop where
  tiles : PieceTiles lo ps (annotatedEnd size ns lo)
  limit : ∀ p ∈ ps, p.size ≤ 32768
  starts : ∀ p ∈ ps, p.start < 2 ^ 32
  dwords : 4 ∣ lo → ((∀ p ∈ ps, 4 ∣ p.size) ↔ ∀ e ∈ sectionEnds size ns lo, 4 ∣ e)

theorem aubWriteAnnotated_eq (s : Bufmgr) (b : BoId) : ∀ (ns : List Annotation) (lo : Nat),
    ∃ ps, Annotates (s.bos b).size ns lo ps
      ∧ ∀ a m, aubWriteAnnotated s a b m ns lo = (ps.map (Piece.write s a b m), annotatedEnd (s.bos b).size ns lo) := by
  intro ns
  induction ns with
  | nil => exact fun lo => ⟨[], ⟨rfl, nofun, nofun, fun _ => iff_of_true nofun nofun⟩, fun _ _ => rfl⟩
  | cons n ns ih =>
      intro lo
      unfold aubWriteAnnotated
      have hend : annotatedEnd (s.bos b).size (n :: ns) lo
          = annotatedEnd (s.bos b).size ns (max lo (min n.endingOffset.toNat (s.bos b).size)) := rfl
      have hint : min n.endingOffset.toNat (s.bos b).size < 2 ^ 32 :=
        lt_of_le_of_lt (Nat.min_le_left ..) n.endingOffset.toNat_lt
      have hsections : sectionEnds (s.bos b).size (n :: ns) lo
          = if lo < min n.endingOffset.toNat (s.bos b).size then
              min n.endingOffset.toNat (s.bos b).size ::
                sectionEnds (s.bos b).size ns (min n.endingOffset.toNat (s.bos b).size)
            else sectionEnds (s.bos b).size ns lo := rfl
      generalize min n.endingOffset.toNat (s.bos b).size = e at *
      by_cases hlt : lo < e
      · obtain ⟨ps, hps, hwrite⟩ := ih e
        rw [Nat.max_eq_right hlt.le] at hend
        rw [if_pos hlt] at hsections
        have hstretch := pieces_tiles n.type n.subtype _ lo (e - lo) (rounds_suffice (e - lo))
        rw [Nat.add_sub_cancel' hlt.le] at hstretch
        refine ⟨stretch n.type n.subtype lo (e - lo) ++ ps, ⟨?_, fun p hp => ?_, fun p hp => ?_, fun hlo => ?_⟩, fun a m => ?_⟩
        · rw [hend]
          exact (Tiling.tiles_append).mpr ⟨_, hstretch, hps.tiles⟩
        · rcases List.mem_append.mp hp with hp | hp
          · exact pieces_limit _ _ _ _ _ p hp
          · exact hps.limit p hp
        · rcases List.mem_append.mp hp with hp | hp
          · have := (hstretch.mem hp).2
            have := (hstretch.mem hp).1
            omega
          · exact hps.starts p hp
        · have hdwords := pieces_dwords n.type n.subtype _ lo (e - lo) (rounds_suffice (e - lo))
          rw [hsections, List.forall_mem_cons, List.forall_mem_append, stretch, hdwords]
          constructor
          · rintro ⟨h₁, h₂⟩
            have he : 4 ∣ e := by omega
            exact ⟨he, (hps.dwords he).mp h₂⟩
          · rintro ⟨he, h₂⟩
            exact ⟨by omega, (hps.dwords he).mpr h₂⟩
        · dsimp only
          rw [if_pos hlt, hwrite, aubWriteLargeTraceBlock_eq, List.map_append, hend]
      · obtain ⟨ps, hps, hwrite⟩ := ih lo
        rw [Nat.max_eq_left (by omega)] at hend
        rw [if_neg hlt] at hsections
        refine ⟨ps, ⟨hend ▸ hps.tiles, hps.limit, hps.starts, hsections ▸ hps.dwords⟩, fun a m => ?_⟩
        dsimp only
        rw [if_neg hlt, hwrite, hend]

/-! ## The bytes -/

section Bytes

variable (s : Bufmgr) (a : Aub) (b : BoId) (m : Memory)

/-- What reading leaves in memory for the byte at `p`. -/
def readByte (p : Nat) : UInt8 := if (s.bos b).isUserptr then m.fresh p else m.contents p

/-- The byte that is written for the one at `p`, in a block of whole dwords. -/
def dumpedByte (p : Nat) : UInt8 :=
  match relocValue s a b (p / 4 * 4 % 2 ^ 32) with
  | some val => (bytes32 val).getD (p % 4) 0
  | none => readByte s b m p

theorem range'_four (p : Nat) : List.range' p 4 = [p, p + 1, p + 2, p + 3] := rfl

theorem bytes32_eq (val : UInt32) {p : Nat} (hp : 4 ∣ p) :
    bytes32 val = (List.range' p 4).map fun q => (bytes32 val).getD (q % 4) 0 := by
  obtain ⟨k, rfl⟩ := hp
  have h0 : (4 * k) % 4 = 0 := by omega
  have h1 : (4 * k + 1) % 4 = 1 := by omega
  have h2 : (4 * k + 2) % 4 = 2 := by omega
  have h3 : (4 * k + 3) % 4 = 3 := by omega
  rw [range'_four, List.map_cons, List.map_cons, List.map_cons, List.map_cons, List.map_nil, h0, h1, h2, h3]
  rfl

theorem flatMap_dwords {α : Type} (f : Nat → α) (lo : Nat) : ∀ n,
    (List.range n).flatMap (fun i => (List.range' (lo + 4 * i) 4).map f) = (List.range' lo (4 * n)).map f := by
  intro n
  induction n with
  | zero => rfl
  | succ n ih =>
      rw [List.range_succ, List.flatMap_append, ih, List.flatMap_singleton, ← List.map_append, Nat.mul_succ,
        List.range'_append_1]

/-- Four bytes out of the middle of what was read. -/
theorem getSubdata_dword (offset : Nat) {size i : Nat} (hi : 4 * i + 4 ≤ size) :
    ((getSubdata s b m offset size).drop (4 * i)).take 4 = (List.range' (offset + 4 * i) 4).map (readByte s b m) := by
  have hslice : ((List.range' offset size).drop (4 * i)).take 4 = List.range' (offset + 4 * i) 4 := by
    rw [show size = 4 * i + (4 + (size - 4 * i - 4)) by omega, ← List.range'_append_1,
      List.drop_left' List.length_range', ← List.range'_append_1, List.take_left' List.length_range']
  rw [getSubdata, ← List.map_drop, ← List.map_take, hslice]
  rfl

theorem aubWriteBoData_length (offset size : Nat) : (aubWriteBoData s a b m offset size).length
    = if (s.bos b).relocs = [] then size else size / 4 * 4 := by
  unfold aubWriteBoData
  simp only [List.length_eq_zero_iff]
  split
  · rw [getSubdata, List.length_map, List.length_range']
  · rw [List.length_flatMap, List.map_congr_left (g := fun _ => 4), List.map_const', List.sum_replicate_nat,
      List.length_range]
    intro i hi
    have := List.mem_range.mp hi
    split
    · rfl
    · rw [getSubdata_dword s b m offset (by omega)]
      rfl

/-- Without relocations, or in whole dwords, the payload is byte by byte. -/
theorem aubWriteBoData_eq {offset size : Nat} (h : (s.bos b).relocs = [] ∨ (4 ∣ offset ∧ 4 ∣ size)) :
    aubWriteBoData s a b m offset size = (List.range' offset size).map (dumpedByte s a b m) := by
  unfold aubWriteBoData
  simp only [List.length_eq_zero_iff]
  split
  · rename_i hnil
    refine List.map_congr_left fun p _ => ?_
    rw [dumpedByte, relocValue, hnil]
    rfl
  · rename_i hsome
    obtain ⟨hoffset, k, rfl⟩ := h.resolve_left hsome
    rw [Nat.mul_div_cancel_left k (by decide), ← flatMap_dwords]
    refine List.flatMap_congr fun i hi => ?_
    have hi := List.mem_range.mp hi
    -- all four bytes look for a relocation at the same place
    have hplace : ∀ q ∈ List.range' (offset + 4 * i) 4, q / 4 * 4 = offset + i * 4 := fun q hq => by
      have := List.mem_range'_1.mp hq
      omega
    split
    · rename_i val hval
      rw [bytes32_eq val (p := offset + 4 * i) (by omega)]
      refine List.map_congr_left fun q hq => ?_
      rw [dumpedByte, hplace q hq, hval]
    · rename_i hval
      rw [getSubdata_dword s b m offset (by omega)]
      refine List.map_congr_left fun q hq => ?_
      rw [dumpedByte, hplace q hq, hval]

/-- The first of those of a list that are on, and of these moved on. -/
theorem find?_filter_append_map {α : Type} (l : List α) (on q : α → Bool) (f : α → α) :
    (l.filter on ++ (l.filter on).map f).find? q
      = (l.find? fun x => on x && q x).or ((l.find? fun x => on x && q (f x)).map f) := by
  rw [List.find?_append, List.find?_map, List.find?_filter, List.find?_filter]
  simp only [Bool.decide_and, Bool.decide_eq_true, Function.comp_apply]

/-- The relocation is on a dword whose position has 32 bits. -/
def Reloc.onDword (r : Reloc) : Bool := decide (4 ∣ r.offset ∧ r.offset < 2 ^ 32)

/-- The relocation 4 GiB further up. -/
def Reloc.further (r : Reloc) : Reloc := { r with offset := r.offset + 2 ^ 32 }

/-- The relocations as the dump applies them: on dwords only, by the low 32 bits of the position. -/
def dumpedRelocs (relocs : List Reloc) : List Reloc :=
  relocs.filter Reloc.onDword ++ (relocs.filter Reloc.onDword).map Reloc.further

theorem Reloc.covers_iff {r : Reloc} {p : Nat} : r.covers p = true ↔ r.offset ≤ p ∧ p < r.offset + 4 := by
  simp [Reloc.covers]

theorem Reloc.onDword_iff {r : Reloc} : r.onDword = true ↔ 4 ∣ r.offset ∧ r.offset < 2 ^ 32 := decide_eq_true_iff

theorem Reloc.further_offset (r : Reloc) : r.further.offset = r.offset + 2 ^ 32 := rfl

theorem find_low (relocs : List Reloc) {p : Nat} (hp : p < 2 ^ 32) :
    (dumpedRelocs relocs).find? (fun r => r.covers p) = relocs.find? fun r => r.offset == p / 4 * 4 := by
  have hnear : (fun r : Reloc => r.onDword && r.covers p) = fun r => r.offset == p / 4 * 4 := by
    funext r
    rw [Bool.eq_iff_iff, Bool.and_eq_true, Reloc.onDword_iff, Reloc.covers_iff, beq_iff_eq]
    omega
  have hfar : (relocs.find? fun r => r.onDword && r.further.covers p) = none := by
    refine List.find?_eq_none.mpr fun r _ => ?_
    rw [Bool.and_eq_true, Reloc.onDword_iff, Reloc.covers_iff, Reloc.further_offset]
    omega
  rw [dumpedRelocs, find?_filter_append_map, hnear, hfar, Option.map_none, Option.or_none]

theorem find_high (relocs : List Reloc) {p : Nat} (hge : 2 ^ 32 ≤ p) (hp : p < 2 ^ 33) :
    (dumpedRelocs relocs).find? (fun r => r.covers p)
      = (relocs.find? fun r => r.offset == p / 4 * 4 - 2 ^ 32).map Reloc.further := by
  have hnear : (relocs.find? fun r => r.onDword && r.covers p) = none := by
    refine List.find?_eq_none.mpr fun r _ => ?_
    rw [Bool.and_eq_true, Reloc.onDword_iff, Reloc.covers_iff]
    omega
  have hfar : (fun r : Reloc => r.onDword && r.further.covers p) = fun r => r.offset == p / 4 * 4 - 2 ^ 32 := by
    funext r
    rw [Bool.eq_iff_iff, Bool.and_eq_true, Reloc.onDword_iff, Reloc.covers_iff, Reloc.further_offset, beq_iff_eq]
    omega
  rw [dumpedRelocs, find?_filter_append_map, hnear, hfar, Option.none_or]

/-- The dword-wise dump applies `dumpedRelocs`. -/
theorem dumpedByte_eq {p : Nat} (hp : p < 2 ^ 33) :
    dumpedByte s a b m p = patched a.address (dumpedRelocs (s.bos b).relocs) (readByte s b m) p := by
  rw [dumpedByte, relocValue, patched]
  rcases Nat.lt_or_ge p (2 ^ 32) with hlow | hhigh
  · rw [find_low _ hlow, Nat.mod_eq_of_lt (show p / 4 * 4 < 2 ^ 32 by omega)]
    cases hfind : (s.bos b).relocs.find? fun r => r.offset == p / 4 * 4 with
    | none => rfl
    | some r =>
        have hr : r.offset = p / 4 * 4 := by simpa using List.find?_some hfind
        simp only [Option.map_some]
        rw [show p % 4 = p - r.offset by omega]
  · rw [find_high _ hhigh hp, show p / 4 * 4 % 2 ^ 32 = p / 4 * 4 - 2 ^ 32 by omega]
    cases hfind : (s.bos b).relocs.find? fun r => r.offset == p / 4 * 4 - 2 ^ 32 with
    | none => rfl
    | some r =>
        have hr : r.offset = p / 4 * 4 - 2 ^ 32 := by simpa using List.find?_some hfind
        simp only [Option.map_some, Reloc.further_offset]
        rw [show p % 4 = p - (r.offset + 2 ^ 32) by omega]
        rfl

end Bytes

/-! ## The dump of an object -/

/-- The pieces of an object: `annotatedEnd` is where the annotated part ends, and what is left is cut
down to 32 bits. -/
structure Cut (size : Nat) (ns : List Annotation) (ps : List Piece) : Prop where
  tiles : PieceTiles 0 ps (annotatedEnd size ns 0 + (size - annotatedEnd size ns 0) % 2 ^ 32 : Nat)
  limit : ∀ p ∈ ps, p.size ≤ 32768
  starts : (∀ p ∈ ps, p.start < 2 ^ 32) ↔
    ∀ j, 32768 * j < (size - annotatedEnd size ns 0) % 2 ^ 32 → annotatedEnd size ns 0 + 32768 * j < 2 ^ 32
  dwords : (∀ p ∈ ps, 4 ∣ p.size) ↔ (∀ e ∈ sectionEnds size ns 0, 4 ∣ e) ∧ 4 ∣ size

theorem Annotates.cut {size : Nat} {ns : List Annotation} {ps : List Piece} (h : Annotates size ns 0 ps) :
    Cut size ns (ps ++ stretch AUB_TRACE_TYPE_NOTYPE 0 (annotatedEnd size ns 0)
      ((size - annotatedEnd size ns 0) % 2 ^ 32)) := by
  have hle := annotatedEnd_le size ns (Nat.zero_le size)
  have hdvd := annotatedEnd_dvd size ns (Nat.dvd_zero 4)
  have hrounds := rounds_suffice ((size - annotatedEnd size ns 0) % 2 ^ 32)
  refine ⟨(Tiling.tiles_append).mpr ⟨_, h.tiles, pieces_tiles _ _ _ _ _ hrounds⟩, fun p hp => ?_, ?_, ?_⟩
  · rcases List.mem_append.mp hp with hp | hp
    · exact h.limit p hp
    · exact pieces_limit _ _ _ _ _ p hp
  · rw [List.forall_mem_append, and_iff_right h.starts]
    constructor
    · intro hall j hj
      obtain ⟨p, hp, hstart⟩ := (pieces_starts _ _ _ _ _ _ hrounds).mpr ⟨j, hj, rfl⟩
      exact hstart ▸ hall p hp
    · intro hall p hp
      obtain ⟨j, hj, hstart⟩ := (pieces_starts _ _ _ _ _ _ hrounds).mp ⟨p, hp, rfl⟩
      exact hstart ▸ hall j hj
  · rw [List.forall_mem_append, h.dwords (Nat.dvd_zero 4), stretch, pieces_dwords _ _ _ _ _ hrounds]
    refine and_congr_right fun hends => ?_
    have := hdvd hends
    omega

theorem aubWriteBo_eq (s : Bufmgr) (b : BoId) (ns : List Annotation) : ∃ ps, Cut (s.bos b).size ns ps
    ∧ ∀ a m, aubWriteBo s a b m ns = (assert ((a.place s b).offset.toNat < 256 * 1024 * 1024) >>= fun _ =>
        .ok (ps.map (Piece.write s (a.place s b) b m), a.place s b)) := by
  obtain ⟨ps, hps, hwrite⟩ := aubWriteAnnotated_eq s b ns 0
  refine ⟨_, hps.cut, fun a m => ?_⟩
  unfold aubWriteBo aubBoGetAddress
  rw [bind_assoc]
  refine bind_congr fun _ => ?_
  simp only [pure_bind, hwrite, List.map_append]
  have hle := annotatedEnd_le (s.bos b).size ns (Nat.zero_le _)
  split
  · rw [aubWriteLargeTraceBlock_eq]
    rfl
  · rename_i hall
    rw [show ((s.bos b).size - annotatedEnd (s.bos b).size ns 0) % 2 ^ 32 = 0 by omega]
    rfl

section Framing

variable {s : Bufmgr} {b : BoId} {ns : List Annotation} {ps : List Piece} {a : Aub} {m : Memory}

theorem write_offset (a : Aub) (m : Memory) (p : Piece) :
    ((p.write s a b m).offset (a.address b)) = p.start % 2 ^ 32 := by
  show (a.address b + UInt32.ofNat (p.start % 2 ^ 32) - a.address b).toNat = _
  rw [UInt32.add_comm, UInt32.add_sub_cancel, UInt32.toNat_ofNat', Nat.mod_mod]

theorem write_size (a : Aub) (m : Memory) {p : Piece} (hp : p.size ≤ 32768) : (p.write s a b m).size = p.size := by
  show (UInt32.ofNat p.size).toNat = _
  rw [UInt32.toNat_ofNat', Nat.mod_eq_of_lt (by omega)]

/-- The blocks cut the object up exactly if nothing is cut down to 32 bits. -/
theorem Cut.partition_iff (h : Cut (s.bos b).size ns ps) (a : Aub) (m : Memory) :
    Tiling.Tiles (fun blk => (blk.offset (a.address b) : Int)) (fun blk => (blk.size : Int)) 0
        (ps.map (Piece.write s a b m)) (s.bos b).size
      ↔ (s.bos b).size - annotatedEnd (s.bos b).size ns 0 < 2 ^ 32
        ∧ ∀ j, 32768 * j < (s.bos b).size - annotatedEnd (s.bos b).size ns 0 →
          annotatedEnd (s.bos b).size ns 0 + 32768 * j < 2 ^ 32 := by
  have hle := annotatedEnd_le (s.bos b).size ns (Nat.zero_le _)
  have hsize : ∀ p ∈ ps, ((p.write s a b m).size : Int) = p.size := fun p hp => by rw [write_size a m (h.limit p hp)]
  rw [Tiling.tiles_map]
  constructor
  · intro ht
    have ht' : Tiling.Tiles (fun p : Piece => ((p.start % 2 ^ 32 : Nat) : Int)) (fun p => (p.size : Int)) 0 ps (s.bos b).size :=
      ht.congr (fun p _ => by rw [write_offset]) fun p hp => (hsize p hp).symm
    obtain ⟨hhi, hofs⟩ := h.tiles.unique ht'
    have hhi := Int.ofNat_inj.mp hhi
    have hwhole : (s.bos b).size - annotatedEnd (s.bos b).size ns 0 < 2 ^ 32 := by omega
    refine ⟨hwhole, fun j hj => h.starts.mp (fun p hp => ?_) j (by rwa [Nat.mod_eq_of_lt hwhole])⟩
    have := Int.ofNat_inj.mp (hofs p hp)
    omega
  · rintro ⟨hwhole, hreach⟩
    have ht := h.tiles
    rw [Nat.mod_eq_of_lt hwhole, Nat.add_sub_cancel' hle] at ht
    have hstarts := h.starts.mpr fun j hj => hreach j (by rwa [Nat.mod_eq_of_lt hwhole] at hj)
    refine ht.congr (fun p hp => ?_) hsize
    rw [write_offset, Nat.mod_eq_of_lt (hstarts p hp)]

theorem Cut.framing_iff (h : Cut (s.bos b).size ns ps) (a : Aub) (m : Memory) :
    (∀ blk ∈ ps.map (Piece.write s a b m), blk.payload.length = blk.size)
      ↔ (s.bos b).relocs = [] ∨ ((∀ e ∈ sectionEnds (s.bos b).size ns 0, 4 ∣ e) ∧ 4 ∣ (s.bos b).size) := by
  have hlength : ∀ p : Piece, (p.write s a b m).payload.length = if (s.bos b).relocs = [] then p.size else p.size / 4 * 4 :=
    fun _ => aubWriteBoData_length s a b m _ _
  rw [List.forall_mem_map, ← h.dwords]
  by_cases hnil : (s.bos b).relocs = []
  · refine iff_of_true (fun p hp => ?_) (.inl hnil)
    rw [hlength, write_size a m (h.limit p hp), if_pos hnil]
  · rw [or_iff_right hnil]
    refine forall₂_congr fun p hp => ?_
    rw [hlength, write_size a m (h.limit p hp), if_neg hnil]
    omega

/-- Where the blocks are cut right, the payload is the object as the dump sees it. -/
theorem Cut.payload_eq (h : Cut (s.bos b).size ns ps) (hp : (s.bos b).size - annotatedEnd (s.bos b).size ns 0 < 2 ^ 32)
    (hstarts : ∀ p ∈ ps, p.start < 2 ^ 32) (hdwords : (s.bos b).relocs = [] ∨ ∀ p ∈ ps, 4 ∣ p.size) (a : Aub) (m : Memory) :
    (ps.map (Piece.write s a b m)).flatMap TraceBlock.payload
      = (List.range' 0 (s.bos b).size).map (dumpedByte s a b m) := by
  have ht := h.tiles
  rw [Nat.mod_eq_of_lt hp, Nat.add_sub_cancel' (annotatedEnd_le (s.bos b).size ns (Nat.zero_le _))] at ht
  have hall := Tiling.Tiles.flatMap_range' (o := Piece.start) (s := Piece.size) ht
  rw [Nat.sub_zero] at hall
  rw [← hall, List.map_flatMap, List.flatMap_map]
  refine List.flatMap_congr fun p hp => ?_
  have hstart : p.start % 2 ^ 32 = p.start := Nat.mod_eq_of_lt (hstarts p hp)
  show aubWriteBoData s a b m (p.start % 2 ^ 32) p.size = _
  rw [hstart]
  refine aubWriteBoData_eq s a b m (hdwords.imp_right fun hdwords => ⟨?_, hdwords p hp⟩)
  exact Int.natCast_dvd_natCast.mp
    (Tiling.Tiles.dvd (d := 4) (fun q hq => Int.natCast_dvd_natCast.mpr (hdwords q hq)) (Int.dvd_zero 4) ht p hp)

end Framing

/-! ## When the dump is right -/

/-- What a dump relies on. -/
structure Dumpable (s : Bufmgr) (b : BoId) (contents : Nat → UInt8) (a : Aub) (ns : List Annotation) : Prop where
  /-- the object gets an address below 256 MiB, in 32 bits -/
  aperture : (a.place s b).offset.toNat < 256 * 1024 * 1024
  /-- what is not annotated is less than 4 GiB -/
  whole : (s.bos b).size - annotatedEnd (s.bos b).size ns 0 < 2 ^ 32
  /-- and its last block begins below 4 GiB -/
  reach : ∀ j, 32768 * j < (s.bos b).size - annotatedEnd (s.bos b).size ns 0 →
    annotatedEnd (s.bos b).size ns 0 + 32768 * j < 2 ^ 32
  /-- with relocations, every stretch ends on a dword -/
  dwords : (s.bos b).relocs = [] ∨ ((∀ e ∈ sectionEnds (s.bos b).size ns 0, 4 ∣ e) ∧ 4 ∣ (s.bos b).size)
  /-- a `userptr` object is all relocations -/
  readable : (s.bos b).isUserptr = true →
    ∀ p < (s.bos b).size, ∃ r ∈ dumpedRelocs (s.bos b).relocs, r.covers p = true
  /-- the relocations that are not on a dword change nothing -/
  applied : ∀ p < (s.bos b).size, patched (a.place s b).address (dumpedRelocs (s.bos b).relocs) contents p
    = patched (a.place s b).address (s.bos b).relocs contents p

/-- The base is not looked at under a relocation. -/
theorem patched_of_covers {address : BoId → UInt32} {relocs : List Reloc} {p : Nat}
    (h : ∃ r ∈ relocs, r.covers p = true) (base base' : Nat → UInt8) :
    patched address relocs base p = patched address relocs base' p := by
  obtain ⟨r, hr⟩ := Option.isSome_iff_exists.mp (List.find?_isSome.mpr h)
  rw [patched, patched, hr]

theorem patched_of_not_covers {address : BoId → UInt32} {relocs : List Reloc} {p : Nat}
    (h : ¬ ∃ r ∈ relocs, r.covers p = true) (base : Nat → UInt8) : patched address relocs base p = base p := by
  have hnone : relocs.find? (fun r => r.covers p) = none := by
    refine List.find?_eq_none.mpr fun r hr hc => h ⟨r, hr, hc⟩
  rw [patched, hnone]

section

variable {s : Bufmgr} {b : BoId} {ns : List Annotation} {ps : List Piece} {a : Aub} {contents : Nat → UInt8}

/-- What the blocks of a dump say of the object, whatever is in the memory that they are read into. -/
theorem Cut.framed (h : Cut (s.bos b).size ns ps) (hd : Dumpable s b contents a ns) (fresh : Nat → UInt8) :
    Framed s b contents (a.place s b) (ps.map (Piece.write s (a.place s b) b ⟨contents, fresh⟩)) := by
  have hwhole := hd.whole
  have hpart := (h.partition_iff (a.place s b) ⟨contents, fresh⟩).mpr ⟨hd.whole, hd.reach⟩
  have hstarts := h.starts.mpr fun j hj => hd.reach j (by rwa [Nat.mod_eq_of_lt hwhole] at hj)
  have hend := annotatedEnd_lt (s.bos b).size ns (show 0 < 2 ^ 32 by decide)
  refine ⟨hpart, ?_, (h.framing_iff _ _).mpr hd.dwords, ?_⟩
  · rw [List.forall_mem_map]
    intro p hp
    rw [write_size _ _ (h.limit p hp)]
    exact h.limit p hp
  · rw [h.payload_eq hwhole hstarts (hd.dwords.imp_right h.dwords.mpr)]
    refine List.map_congr_left fun p hp => ?_
    have hp : p < (s.bos b).size := by have := List.mem_range'_1.mp hp; omega
    rw [dumpedByte_eq _ _ _ _ (by omega), ← hd.applied p hp]
    cases huser : (s.bos b).isUserptr with
    | false =>
        have hread : readByte s b ⟨contents, fresh⟩ = contents := funext fun q => by simp [readByte, huser]
        rw [hread]
    | true => exact patched_of_covers (hd.readable huser p hp) _ _

/-- The other direction: the blocks are right for everything that may be in that memory. -/
theorem Cut.dumpable (h : Cut (s.bos b).size ns ps) (hap : (a.place s b).offset.toNat < 256 * 1024 * 1024)
    (hf : ∀ fresh, Framed s b contents (a.place s b) (ps.map (Piece.write s (a.place s b) b ⟨contents, fresh⟩))) :
    Dumpable s b contents a ns := by
  obtain ⟨hwhole, hreach⟩ := (h.partition_iff _ _).mp (hf contents).partition
  have hdwords := (h.framing_iff _ _).mp (hf contents).framing
  have hstarts := h.starts.mpr fun j hj => hreach j (by rwa [Nat.mod_eq_of_lt hwhole] at hj)
  have hend := annotatedEnd_lt (s.bos b).size ns (show 0 < 2 ^ 32 by decide)
  have hbyte : ∀ fresh, ∀ p < (s.bos b).size,
      patched (a.place s b).address (dumpedRelocs (s.bos b).relocs) (readByte s b ⟨contents, fresh⟩) p
        = patched (a.place s b).address (s.bos b).relocs contents p := by
    intro fresh p hp
    have hpayload := (hf fresh).payload
    rw [h.payload_eq hwhole hstarts (hdwords.imp_right h.dwords.mpr)] at hpayload
    rw [← dumpedByte_eq _ _ _ _ (by omega)]
    exact List.map_inj_left.mp hpayload p (List.mem_range'_1.mpr (by omega))
  -- what is read of a `userptr` object may be anything
  have hreadable : (s.bos b).isUserptr = true →
      ∀ p < (s.bos b).size, ∃ r ∈ dumpedRelocs (s.bos b).relocs, r.covers p = true := by
    intro huser p hp
    by_contra hnot
    have hbad := hbyte (fun q => patched (a.place s b).address (s.bos b).relocs contents q + 1) p hp
    rw [patched_of_not_covers hnot, readByte, if_pos huser] at hbad
    exact absurd hbad (by simp)
  refine ⟨hap, hwhole, hreach, hdwords, hreadable, fun p hp => ?_⟩
  rw [← hbyte contents p hp]
  refine congrArg (fun base => patched _ _ base p) (funext fun q => ?_)
  simp [readByte]

end

/-- For every object, every list of annotations and every list of relocations: the blocks that
`aub_write_bo` writes are framed right, whatever `malloc` leaves in its memory, exactly if the object
is `Dumpable`. -/
theorem dump_framed_iff (s : Bufmgr) (b : BoId) (contents : Nat → UInt8) (a : Aub) (ns : List Annotation) :
    (∀ fresh, Returns (aubWriteBo s a b ⟨contents, fresh⟩ ns) fun r => Framed s b contents r.2 r.1)
      ↔ Dumpable s b contents a ns := by
  obtain ⟨ps, hcut, hwrite⟩ := aubWriteBo_eq s b ns
  simp only [hwrite]
  constructor
  · intro h
    have hap : (a.place s b).offset.toNat < 256 * 1024 * 1024 := by
      by_contra hnot
      obtain ⟨r, hr, -⟩ := h contents
      rw [decide_eq_false hnot, assert_false, error_bind] at hr
      cases hr
    refine hcut.dumpable hap fun fresh => ?_
    have hfresh := h fresh
    rw [decide_eq_true hap, assert_true, ok_bind] at hfresh
    obtain ⟨r, hr, hframed⟩ := hfresh
    obtain rfl := Except.ok.inj hr
    exact hframed
  · intro hd fresh
    rw [decide_eq_true hd.aperture, assert_true, ok_bind]
    exact .ok (hcut.framed hd fresh)

/-- A page with a relocation of its ninth byte, of which the first six bytes are annotated. -/
def selfRelocAtEight : List Call := [.alloc 4096 false (.simple 1 1), .emitReloc 0 ⟨8, 0, 0, 0, 0, false, true⟩]

/-- The first block has four bytes, and its header says six. -/
theorem dump_misframed_sixBytes : ∃ σ, playAll Call.clean {} .empty selfRelocAtEight = some σ ∧ σ.mgr.Live 0
    ∧ ¬ ∀ fresh, Returns (aubWriteBo σ.mgr ⟨0x10000, fun _ => 0⟩ 0 ⟨fun _ => 0, fresh⟩ [⟨0, 0, 6⟩])
        fun r => Framed σ.mgr 0 (fun _ => 0) r.2 r.1 := by
  have hrun : (playAll Call.clean {} .empty selfRelocAtEight).any (fun σ => decide (σ.mgr.Live 0)
      && returns (fun r => r.1.any fun blk => blk.payload.length != blk.size)
        (aubWriteBo σ.mgr ⟨0x10000, fun _ => 0⟩ 0 ⟨fun _ => 0, fun _ => 0⟩ [⟨0, 0, 6⟩])) = true := by
    decide +kernel
  obtain ⟨σ, hplay, -, hend⟩ := playAll_any KernelOk.empty hrun
  obtain ⟨hlive, hblocks⟩ := Bool.and_eq_true_iff.mp hend
  obtain ⟨r, hr, hany⟩ := returns_true hblocks
  obtain ⟨blk, hblk, hne⟩ := List.any_eq_true.mp hany
  refine ⟨σ, hplay, of_decide_eq_true hlive, fun hall => ?_⟩
  obtain ⟨r', hr', hframed⟩ := hall fun _ => 0
  obtain rfl := Except.ok.inj (hr.symm.trans hr')
  exact absurd (hframed.framing blk hblk) (by simpa using hne)

end LibDrm.Gem
