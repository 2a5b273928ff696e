/-
# `LibDrm.Bof.RoundTrip` — what is dumped is loaded again

The writer and the reader are two different recursions: one counts children, the
other stops at offsets.  They meet at the encoding and at the outline:

    build   →   Sized node   →   encode   →   outline = the node's record   →   load

**Proved here.**  A tree built bottom-up is dumped and loaded as a tree with the
same fields, payloads and children (`bof_round_trip`).
-/
import LibDrm.Bof.Safety

namespace LibDrm.Bof

mutual

/-- The bytes of a node: the header, then the payload or the children. -/
def encode : BofT → List UInt8
  | ⟨type, size, arraySize, _, value, array⟩ =>
      bytes32 type ++ bytes32 size ++ bytes32 arraySize ++ value ++ encodeAll array

def encodeAll : List BofT → List UInt8
  | [] => []
  | bof :: bofs => encode bof ++ encodeAll bofs

end

mutual

/-- What a node holds, without the room in its child array. -/
def BofT.record : BofT → Record
  | ⟨type, size, arraySize, _, value, array⟩ =>
      ⟨type, size, arraySize, value, array.length, records array⟩

def records : List BofT → List Record
  | [] => []
  | bof :: bofs => bof.record :: records bofs

end

theorem records_eq_map (l : List BofT) : records l = l.map BofT.record := by
  induction l with
  | nil => rfl
  | cons bof l ih => rw [records, ih, List.map_cons]

/-! ## The writer -/

theorem fwrite_sound {bytes : List UInt8} (h : bytes ≠ []) (out : Output) :
    fwrite .sound bytes out = (1, ⟨out.bytes ++ bytes, out.calls + 1⟩) := by
  simp [fwrite, Disk.sound, h]

theorem writeHeader_sound (type size arraySize : UInt32) (out : Output) :
    writeHeader .sound type size arraySize out =
      (1, ⟨out.bytes ++ (bytes32 type ++ bytes32 size ++ bytes32 arraySize), out.calls + 1 + 1 + 1⟩) := by
  have hne : ∀ x : UInt32, bytes32 x ≠ [] := fun _ => nofun
  simp [writeHeader, fwrite_sound (hne _)]

/-- The loop writes the children one behind the other. -/
theorem writeEntries_sound (r : Int) : ∀ (l : List BofT),
    (∀ child ∈ l, ∀ out, ∃ calls, bofFileWrite .sound child out = .ok (0, ⟨out.bytes ++ encode child, calls⟩)) →
    ∀ out, ∃ calls, writeEntries .sound r l.length l out =
      .ok (if l = [] then r else 0, ⟨out.bytes ++ encodeAll l, calls⟩)
  | [], _, out => ⟨out.calls, by simp [writeEntries, encodeAll]⟩
  | child :: l, h, out => by
      obtain ⟨calls, hchild⟩ := h child List.mem_cons_self out
      obtain ⟨calls', hrest⟩ := writeEntries_sound 0 l (fun c hc => h c (List.mem_cons_of_mem _ hc))
        ⟨out.bytes ++ encode child, calls⟩
      refine ⟨calls', ?_⟩
      rw [List.length_cons, writeEntries, hchild]
      simp only [bind, Except.bind, ne_eq, not_true_eq_false, if_false, hrest]
      simp [encodeAll]

theorem bofFileWrite_sound {bof : BofT} (h : Sized bof) (out : Output) :
    ∃ calls, bofFileWrite .sound bof out = .ok (0, ⟨out.bytes ++ encode bof, calls⟩) := by
  induction h generalizing out with
  | @leaf bof hkind hvalue hsize hcount harray =>
      obtain ⟨type, size, arraySize, nentry, value, array⟩ := bof
      simp only at hkind hvalue hsize hcount harray
      have hlen : (size - 12).toNat = value.length := by
        rw [UInt32.toNat_sub_of_le _ _ (UInt32.le_iff_toNat_le.mpr (by simp only [UInt32.reduceToNat]; omega)), hsize]
        simp only [UInt32.reduceToNat]
        omega
      refine ⟨out.calls + 1 + 1 + 1 + 1, ?_⟩
      rw [bofFileWrite, writeHeader_sound]
      simp only [ne_eq, not_true_eq_false, if_false, hkind, hlen, Nat.lt_irrefl, List.take_length, fwrite_sound hvalue]
      simp [encode, harray, encodeAll]
  | @container bof hkind hvalue hsize hcount hchildren ih =>
      obtain ⟨type, size, arraySize, nentry, value, array⟩ := bof
      simp only at hkind hvalue hsize hcount hchildren ih
      obtain ⟨calls, hwrite⟩ := writeEntries_sound 0 array ih
        ⟨out.bytes ++ (bytes32 type ++ bytes32 size ++ bytes32 arraySize), out.calls + 1 + 1 + 1⟩
      refine ⟨calls, ?_⟩
      rw [bofFileWrite, writeHeader_sound]
      simp only [ne_eq, not_true_eq_false, if_false, hkind, hcount, hwrite]
      simp [encode, hvalue]

/-- A dump of an object or array is its encoding. -/
theorem bofDumpFile_sound {bof : BofT} (h : Sized bof) (hkind : kind bof.type = .container) :
    ∃ dumped, bofDumpFile .sound bof = .ok dumped ∧ dumped.bytes = encode bof := by
  cases h with
  | leaf hleaf _ _ _ _ => cases hleaf.symm.trans hkind
  | container _ hvalue hsize hcount hchildren =>
      obtain ⟨type, size, arraySize, nentry, value, array⟩ := bof
      simp only at hvalue hcount hchildren
      obtain ⟨calls, hwrite⟩ := writeEntries_sound 1 array (fun child hc => bofFileWrite_sound (hchildren child hc))
        ⟨[] ++ (bytes32 type ++ bytes32 size ++ bytes32 arraySize), 0 + 1 + 1 + 1⟩
      have hbytes : ([] : List UInt8) ++ (bytes32 type ++ bytes32 size ++ bytes32 arraySize) ++ encodeAll array =
          encode ⟨type, size, arraySize, nentry, value, array⟩ := by
        simp [encode, hvalue]
      unfold bofDumpFile
      rw [writeHeader_sound, if_neg (by simp [Disk.sound]), if_neg (by simp [Disk.sound])]
      simp only [ne_eq, not_true_eq_false, if_false, hcount, hwrite, bind, Except.bind]
      generalize (if array = [] then (1 : Int) else 0) = r
      split
      · refine ⟨_, rfl, ?_⟩
        exact hbytes
      · refine ⟨_, rfl, ?_⟩
        exact hbytes

/-! ## The outline of an encoding -/

theorem readHeader_encoded (junk type size arraySize : UInt32) (pos : Nat) (rest : List UInt8) :
    readHeader junk ⟨pos, bytes32 type ++ bytes32 size ++ bytes32 arraySize ++ rest⟩ =
      .full type size arraySize ⟨pos + 12, rest⟩ := by
  have hread : ∀ (p : Nat) (x : UInt32) (r : List UInt8), fread 4 ⟨p, bytes32 x ++ r⟩ = some (bytes32 x, ⟨p + 4, r⟩) :=
    fun p x r => fread_append p (by decide) (bytes32_length x)
  simp only [readHeader, List.append_assoc, hread, word32_bytes32]

/-- The records of encoded nodes are what the nodes hold. -/
theorem outline_encodeAll (junk : UInt32) : ∀ (fuel pos : Nat) (l : List BofT) (tail : List UInt8),
    (∀ bof ∈ l, Sized bof) → (encodeAll l).length < fuel →
    outline junk fuel ⟨pos, encodeAll l ++ tail⟩ (pos + (l.map (·.size.toNat)).sum) =
      ⟨records l, l.length, .complete ⟨pos + (l.map (·.size.toNat)).sum, tail⟩⟩ := by
  intro fuel
  induction fuel with
  | zero => exact fun _ _ _ _ h => absurd h (Nat.not_lt_zero _)
  | succ fuel ih =>
      intro pos l tail hl hfuel
      cases l with
      | nil => simp [outline, outlineBody, encodeAll, records]
      | cons bof l =>
          have hrest : ∀ bof ∈ l, Sized bof := fun b hb => hl b (List.mem_cons_of_mem _ hb)
          have hbof := hl bof List.mem_cons_self
          have htwelve := hbof.twelve_le
          rw [outline, outlineBody, if_neg (by simp only [List.map_cons, List.sum_cons]; omega)]
          obtain ⟨type, size, arraySize, nentry, value, array⟩ := bof
          simp only [encodeAll, encode, List.append_assoc, List.length_append, bytes32_length] at hfuel
          have hheader := readHeader_encoded junk type size arraySize pos (value ++ (encodeAll array ++ (encodeAll l ++ tail)))
          simp only [encodeAll, encode, List.append_assoc] at hheader ⊢
          rw [hheader]
          simp only at htwelve
          cases hbof with
          | leaf hkind hvalue hsize hcount harray =>
              simp only at hkind hvalue hsize hcount harray
              subst harray
              have hpos : 0 < value.length := List.length_pos_iff.mpr hvalue
              have hread : fread (size.toNat - 12) ⟨pos + 12, value ++ (encodeAll [] ++ (encodeAll l ++ tail))⟩ =
                  some (value, ⟨pos + 12 + (size.toNat - 12), encodeAll l ++ tail⟩) :=
                fread_append (pos + 12) (by omega) (by omega)
              have hnext := ih (pos + size.toNat) l tail hrest (by omega)
              have hoff : pos + 12 + (size.toNat - 12) = pos + size.toNat := by omega
              have hnot : ¬ size < 12 := fun h => by
                have := UInt32.lt_iff_toNat_lt.mp h
                simp only [UInt32.reduceToNat] at this
                omega
              simp only [hkind, if_neg hnot, hread, hoff, List.map_cons, List.sum_cons, ← Nat.add_assoc, hnext]
              rfl
          | container hkind hvalue hsize hcount hchildren =>
              simp only at hkind hvalue hsize hcount hchildren
              subst hvalue
              have hinner := ih (pos + 12) array (encodeAll l ++ tail) hchildren (by omega)
              have hnext := ih (pos + size.toNat) l tail hrest (by omega)
              have hoff : pos + 12 + (array.map (·.size.toNat)).sum = pos + size.toNat := by omega
              rw [hoff] at hinner
              simp only [hkind, List.nil_append, hinner, List.map_cons, List.sum_cons, ← Nat.add_assoc, hnext]
              rfl

/-! ## Dump and load -/

/-- There is room for everything that a node of at most 2^32 bytes holds. -/
theorem Sized.all_hasRoom {bof : BofT} (h : Sized bof) : bof.record.All Record.HasRoom := by
  induction h with
  | @leaf bof hkind hvalue hsize hcount harray =>
      obtain ⟨type, size, arraySize, nentry, value, array⟩ := bof
      simp only at harray
      subst harray
      exact Record.all_hasRoom_of_empty _ _ _ _
  | @container bof hkind hvalue hsize hcount hchildren ih =>
      have hlen := (Sized.container hkind hvalue hsize hcount hchildren).length_le
      have hbound : bof.size.toNat < 2 ^ 32 := bof.size.toNat_lt
      obtain ⟨type, size, arraySize, nentry, value, array⟩ := bof
      simp only at hcount hlen hbound ih
      refine .intro ⟨?_, .inl ?_⟩ ?_
      · show (records array).length ≤ 16 * (arraySize.toNat / 16 + 1)
        rw [records_eq_map, List.length_map]
        omega
      · show arraySize.toNat / 16 + 1 < 2 ^ 28
        omega
      · intro item hitem
        replace hitem : item ∈ records array := hitem
        rw [records_eq_map] at hitem
        obtain ⟨child, hchild, rfl⟩ := List.mem_map.mp hitem
        exact ih child hchild

mutual

theorem record_bof : ∀ bof : BofT, bof.record.bof.record = bof.record
  | ⟨type, size, arraySize, nentry, value, array⟩ => by
      have hlen : (bofs (records array)).length = array.length := by
        rw [bofs_eq_map, records_eq_map, List.length_map, List.length_map]
      rw [BofT.record, Record.bof, BofT.record, hlen, records_bofs array]

theorem records_bofs : ∀ l : List BofT, records (bofs (records l)) = records l
  | [] => by rw [records, bofs, records]
  | bof :: l => by rw [records, bofs, records, record_bof bof, records_bofs l]

end

/-- The outline of an encoded object or array. -/
theorem fileOutline_encode (junk : UInt32) {bof : BofT} (h : Sized bof) (hkind : kind bof.type = .container) :
    ∃ file, fileOutline junk (encode bof) = .records bof.record (.complete file) := by
  cases h with
  | leaf hleaf _ _ _ _ => cases hleaf.symm.trans hkind
  | container _ hvalue hsize hcount hchildren =>
      obtain ⟨type, size, arraySize, nentry, value, array⟩ := bof
      simp only at hvalue hsize hchildren
      subst hvalue
      have hheader := readHeader_encoded junk type size arraySize 0 (encodeAll array)
      have hrecords := outline_encodeAll junk ((encode ⟨type, size, arraySize, nentry, [], array⟩).length + 1) 12 array []
        hchildren (by simp only [encode, List.length_append]; omega)
      refine ⟨⟨size.toNat, []⟩, ?_⟩
      rw [List.append_nil, ← hsize] at hrecords
      rw [fileOutline]
      simp only [encode, List.append_nil] at hheader hrecords ⊢
      rw [hheader]
      simp only [Nat.zero_add, hrecords]
      rfl

/-- What is built is dumped and loaded as a tree that holds the same; sizes are right, and no child array
    is written past its end. -/
theorem bof_round_trip (junk : UInt32) {shape : Shape} (tree : Tree shape) (hroot : shape ≠ .leaf)
    (hsize : tree.bytes < 2 ^ 31) :
    ∃ bof dumped loaded, tree.build = .ok bof ∧ Sized bof ∧ bof.size.toNat = tree.bytes ∧
      bofDumpFile .sound bof = .ok dumped ∧ bofLoadFile junk dumped.bytes = .ok (some loaded) ∧
      loaded.record = bof.record := by
  obtain ⟨bof, hbuild, hmade, hbytes⟩ := tree.build_made hsize
  obtain ⟨hkind, _⟩ := hmade.container hroot
  obtain ⟨dumped, hdump, hencode⟩ := bofDumpFile_sound hmade.sized hkind
  obtain ⟨file, houtline⟩ := fileOutline_encode junk hmade.sized hkind
  have hload := (load_records_exactly houtline).1 ⟨hmade.sized.all_hasRoom, trivial, .inl ⟨file, rfl⟩⟩
  refine ⟨bof, dumped, bof.record.bof, hbuild, hmade.sized, hbytes, hdump, ?_, record_bof bof⟩
  rw [hencode]
  exact hload

/-- A dump as `cs_gem_dump_bof` makes it: an object with an integer and an array of blobs. -/
def sampleTree : Tree .object :=
  .set (.set .object ⟨[114, 101, 103], by decide⟩ (.int32 7)) ⟨[98, 111], by decide⟩
    (.append .array (.blob ⟨[1, 2, 3, 4], nofun⟩))

theorem bof_round_trip_sampleTree : sampleTree.bytes < 2 ^ 31 ∧
    ∃ bof dumped loaded, sampleTree.build = .ok bof ∧ Sized bof ∧ bof.size.toNat = sampleTree.bytes ∧
      bofDumpFile .sound bof = .ok dumped ∧ bofLoadFile 0 dumped.bytes = .ok (some loaded) ∧
      loaded.record = bof.record :=
  ⟨by decide, bof_round_trip 0 sampleTree nofun (by decide)⟩

end LibDrm.Bof
