/-
# `LibDrm.Bof.Dump` — what a dump says about its file

`bof_dump_file` keeps two things in the variable `r`: what `fwrite` returned,
which is 1 when all went well, and the error codes of `bof_file_write`, where 0
is success.  The dump should return 0 exactly if all bytes of the encoding are in
the file, and leave no file open (`ReportsTruth`).

| what happens | the dump |
| :-- | :-- |
| the file cannot be opened | `fclose` gets NULL |
| a write of the header fails | returns 0 |
| the root has no children | returns 1, also if the header is all there is |
| a write below the root fails | returns an error, with the file open |
| all goes well | returns 0 |

So it tells the truth if nothing fails and the root has children, if `fseek`
fails, and of a root with a payload, which it never writes
(`dump_truthful_iff`).
-/
import LibDrm.Bof.RoundTrip

namespace LibDrm.Bof

/-! ## Trees and their writes -/

/-- A tree as the calls build it: the counts are those of the children, and the size of a leaf is that
of its payload, which may be empty. -/
inductive Formed : BofT → Prop
  | leaf {bof : BofT} : kind bof.type = .leaf → bof.value.length < 2 ^ 32 →
      bof.size = UInt32.ofNat bof.value.length + 12 → bof.arraySize = 0 → bof.array = [] → Formed bof
  | container {bof : BofT} : kind bof.type = .container → bof.value = [] → bof.arraySize.toNat = bof.array.length →
      (∀ child ∈ bof.array, Formed child) → Formed bof

mutual

/-- How often `fwrite` is called for a node. -/
def BofT.calls : BofT → Nat
  | ⟨type, _, _, _, _, array⟩ => 3 + if kind type = .leaf then 1 else callsAll array

def callsAll : List BofT → Nat
  | [] => 0
  | bof :: bofs => bof.calls + callsAll bofs

end

mutual

/-- No payload is empty. -/
def BofT.Filled : BofT → Prop
  | ⟨type, _, _, _, value, array⟩ => (kind type = .leaf → value ≠ []) ∧ FilledAll array

def FilledAll : List BofT → Prop
  | [] => True
  | bof :: bofs => bof.Filled ∧ FilledAll bofs

end

/-- The calls from `k` on do not fail, `n` of them. -/
def Disk.Sound (disk : Disk) (k n : Nat) : Prop := ∀ i < n, disk.writes (k + i) = none

/-- The dump returns 0 exactly if the whole encoding is in the file, and it closes the file. -/
def ReportsTruth (disk : Disk) (bof : BofT) : Prop :=
  Returns (bofDumpFile disk bof) fun d => (d.r = 0 ↔ d.bytes = encode bof) ∧ d.isOpen = false

/-- Every sized tree is formed. -/
theorem Sized.formed {bof : BofT} (h : Sized bof) : Formed bof := by
  induction h with
  | @leaf bof hkind hvalue hsize hcount harray =>
      have hlt : bof.value.length < 2 ^ 32 := by
        have := bof.size.toNat_lt
        omega
      refine .leaf hkind hlt (UInt32.toNat_inj.mp ?_) hcount harray
      rw [hsize, UInt32.toNat_add, UInt32.toNat_ofNat']
      simp only [UInt32.reduceToNat]
      have := bof.size.toNat_lt
      omega
  | container hkind hvalue _ hcount _ ih => exact .container hkind hvalue hcount ih

/-! ## The writes -/

variable {disk : Disk}

theorem Disk.sound_add {k n m : Nat} : disk.Sound k (n + m) ↔ disk.Sound k n ∧ disk.Sound (k + n) m := by
  constructor
  · intro h
    exact ⟨fun i hi => h i (by omega), fun i hi => by rw [Nat.add_assoc]; exact h (n + i) (by omega)⟩
  · rintro ⟨h₁, h₂⟩ i hi
    by_cases hin : i < n
    · exact h₁ i hin
    · have := h₂ (i - n) (by omega)
      rwa [Nat.add_assoc, Nat.add_sub_cancel' (Nat.le_of_not_lt hin)] at this

theorem Disk.sound_one {k : Nat} : disk.Sound k 1 ↔ disk.writes k = none := by
  constructor
  · exact fun h => h 0 Nat.one_pos
  · intro h i hi
    obtain rfl : i = 0 := by omega
    exact h

/-- A write puts all its bytes into the file and returns 1, or not all of them and returns 0. -/
theorem fwrite_cases (disk : Disk) (bytes : List UInt8) (out : Output) :
    (disk.writes out.calls = none ∧ bytes ≠ [] ∧ fwrite disk bytes out = (1, ⟨out.bytes ++ bytes, out.calls + 1⟩))
    ∨ (¬ (disk.writes out.calls = none ∧ bytes ≠ []) ∧ ∃ out', fwrite disk bytes out = (0, out')
      ∧ out'.bytes.length ≤ out.bytes.length + (bytes.length - 1)) := by
  unfold fwrite
  cases hw : disk.writes out.calls with
  | none =>
      by_cases hb : bytes = []
      · refine .inr ⟨fun h => h.2 hb, _, by rw [if_pos hb], ?_⟩
        simp [hb]
      · exact .inl ⟨rfl, hb, by rw [if_neg hb]⟩
  | some n =>
      refine .inr ⟨nofun, _, rfl, ?_⟩
      simp only [List.length_append, List.length_take]
      omega

theorem writeHeader_cases (disk : Disk) (type size arraySize : UInt32) (out : Output) :
    (disk.Sound out.calls 3 ∧ writeHeader disk type size arraySize out
      = (1, ⟨out.bytes ++ (bytes32 type ++ bytes32 size ++ bytes32 arraySize), out.calls + 3⟩))
    ∨ (¬ disk.Sound out.calls 3 ∧ ∃ out', writeHeader disk type size arraySize out = (0, out')
      ∧ out'.bytes.length < out.bytes.length + 12) := by
  have hne : ∀ x : UInt32, bytes32 x ≠ [] := fun _ => nofun
  have hlen : ∀ x : UInt32, (bytes32 x).length = 4 := bytes32_length
  have hsound : disk.Sound out.calls 3 ↔ disk.writes out.calls = none ∧ disk.writes (out.calls + 1) = none
      ∧ disk.writes (out.calls + 1 + 1) = none := by
    rw [show 3 = 1 + (1 + 1) from rfl, Disk.sound_add, Disk.sound_add, Disk.sound_one, Disk.sound_one, Disk.sound_one]
  unfold writeHeader
  rcases fwrite_cases disk (bytes32 type) out with ⟨h₁, -, hrun₁⟩ | ⟨h₁, out₁, hrun₁, hlen₁⟩
  · rw [hrun₁]
    dsimp only
    rw [if_neg (by decide)]
    rcases fwrite_cases disk (bytes32 size) ⟨out.bytes ++ bytes32 type, out.calls + 1⟩ with
      ⟨h₂, -, hrun₂⟩ | ⟨h₂, out₂, hrun₂, hlen₂⟩
    · rw [hrun₂]
      dsimp only
      rw [if_neg (by decide)]
      rcases fwrite_cases disk (bytes32 arraySize) ⟨out.bytes ++ bytes32 type ++ bytes32 size, out.calls + 1 + 1⟩ with
        ⟨h₃, -, hrun₃⟩ | ⟨h₃, out₃, hrun₃, hlen₃⟩
      · rw [hrun₃]
        refine .inl ⟨hsound.mpr ⟨h₁, h₂, h₃⟩, ?_⟩
        simp
      · refine .inr ⟨fun h => h₃ ⟨(hsound.mp h).2.2, hne _⟩, out₃, hrun₃, ?_⟩
        simp only [List.length_append, hlen] at hlen₃
        omega
    · rw [hrun₂]
      refine .inr ⟨fun h => h₂ ⟨(hsound.mp h).2.1, hne _⟩, out₂, rfl, ?_⟩
      simp only [List.length_append, hlen] at hlen₂
      omega
  · rw [hrun₁]
    refine .inr ⟨fun h => h₁ ⟨(hsound.mp h).1, hne _⟩, out₁, rfl, ?_⟩
    rw [hlen] at hlen₁
    omega

/-- A node, or what is behind it, can be written from the call `k` on. -/
def BofT.Goes (disk : Disk) (k : Nat) (bof : BofT) : Prop := bof.Filled ∧ disk.Sound k bof.calls

def GoesAll (disk : Disk) (k : Nat) (bofs : List BofT) : Prop := FilledAll bofs ∧ disk.Sound k (callsAll bofs)

theorem goesAll_cons {k : Nat} {bof : BofT} {bofs : List BofT} :
    GoesAll disk k (bof :: bofs) ↔ bof.Goes disk k ∧ GoesAll disk (k + bof.calls) bofs := by
  simp only [GoesAll, BofT.Goes, FilledAll, callsAll, Disk.sound_add]
  tauto

/-- The bytes and the calls of a node that was written. -/
def Output.wrote (out : Output) (bof : BofT) : Output := ⟨out.bytes ++ encode bof, out.calls + bof.calls⟩

def Output.wroteAll (out : Output) (bofs : List BofT) : Output := ⟨out.bytes ++ encodeAll bofs, out.calls + callsAll bofs⟩

/-- The node is written and 0 is returned, or an error is returned and a write failed. -/
def Reports (disk : Disk) (bof : BofT) (out : Output) : Prop :=
  (bof.Goes disk out.calls ∧ bofFileWrite disk bof out = .ok (0, out.wrote bof))
  ∨ (¬ bof.Goes disk out.calls ∧ ∃ r out', r ≠ 0 ∧ bofFileWrite disk bof out = .ok (r, out'))

/-- The loop over the children: with none, what was in `r` before is returned. -/
theorem writeEntries_cases : ∀ (l : List BofT) (r : Int) (out : Output),
    (∀ child ∈ l, ∀ out, Reports disk child out) →
    (GoesAll disk out.calls l ∧ writeEntries disk r l.length l out = .ok (if l = [] then r else 0, out.wroteAll l))
    ∨ (l ≠ [] ∧ ¬ GoesAll disk out.calls l ∧ ∃ r' out', r' ≠ 0 ∧ writeEntries disk r l.length l out = .ok (r', out'))
  | [], r, out, _ => by
      refine .inl ⟨⟨trivial, fun i hi => absurd hi (Nat.not_lt_zero i)⟩, ?_⟩
      simp [writeEntries, Output.wroteAll, encodeAll, callsAll]
  | child :: l, r, out, h => by
      rw [goesAll_cons, List.length_cons, writeEntries]
      rcases h child List.mem_cons_self out with ⟨hgoes, hrun⟩ | ⟨hgoes, r', out', hr', hrun⟩
      · rw [hrun]
        simp only [bind, Except.bind, ne_eq, not_true_eq_false, if_false]
        rcases writeEntries_cases l 0 (out.wrote child) (fun c hc => h c (List.mem_cons_of_mem _ hc)) with
          ⟨hrest, hrun'⟩ | ⟨-, hrest, r', out', hr', hrun'⟩
        · refine .inl ⟨⟨hgoes, hrest⟩, ?_⟩
          rw [hrun']
          simp [Output.wroteAll, Output.wrote, encodeAll, callsAll, Nat.add_assoc]
        · exact .inr ⟨List.cons_ne_nil child l, fun hg => hrest hg.2, r', out', hr', hrun'⟩
      · refine .inr ⟨List.cons_ne_nil child l, fun hg => hgoes hg.1, r', out', hr', ?_⟩
        rw [hrun]
        simp only [bind, Except.bind, ne_eq, hr', not_false_eq_true, if_true]
        rfl

theorem bofFileWrite_reports {bof : BofT} (h : Formed bof) (out : Output) : Reports disk bof out := by
  induction h generalizing out with
  | @leaf bof hkind hlt hsize hcount harray =>
      obtain ⟨type, size, arraySize, nentry, value, array⟩ := bof
      simp only at hkind hlt hsize hcount harray
      have hlen : (size - 12).toNat = value.length := by
        rw [hsize, UInt32.add_sub_cancel, UInt32.toNat_ofNat', Nat.mod_eq_of_lt hlt]
      have hgoes : BofT.Goes disk out.calls ⟨type, size, arraySize, nentry, value, array⟩ ↔
          value ≠ [] ∧ disk.Sound out.calls 3 ∧ disk.writes (out.calls + 3) = none := by
        simp only [BofT.Goes, BofT.Filled, BofT.calls, harray, FilledAll, hkind, true_implies, and_true, if_true,
          Disk.sound_add, Disk.sound_one]
      unfold Reports
      rw [hgoes, bofFileWrite]
      rcases writeHeader_cases disk type size arraySize out with ⟨hs, hrun⟩ | ⟨hs, out', hrun, -⟩
      · rw [hrun]
        simp only [ne_eq, not_true_eq_false, if_false, hkind, hlen, Nat.lt_irrefl, List.take_length]
        rcases fwrite_cases disk value
          ⟨out.bytes ++ (bytes32 type ++ bytes32 size ++ bytes32 arraySize), out.calls + 3⟩ with
          ⟨hw, hvalue, hrun'⟩ | ⟨hw, out', hrun', -⟩
        · refine .inl ⟨⟨hvalue, hs, hw⟩, ?_⟩
          rw [hrun']
          simp [Output.wrote, encode, BofT.calls, harray, encodeAll, hkind]
        · refine .inr ⟨fun hg => hw ⟨hg.2.2, hg.1⟩, -EINVAL, out', by decide, ?_⟩
          rw [hrun']
          rfl
      · exact .inr ⟨fun hg => hs hg.2.1, -EINVAL, out', by decide, by rw [hrun]; rfl⟩
  | @container bof hkind hvalue hcount hchildren ih =>
      obtain ⟨type, size, arraySize, nentry, value, array⟩ := bof
      simp only at hkind hvalue hcount ih
      have hne : ¬ kind type = .leaf := by
        rw [hkind]
        rintro ⟨⟩
      have hgoes : BofT.Goes disk out.calls ⟨type, size, arraySize, nentry, value, array⟩ ↔
          disk.Sound out.calls 3 ∧ GoesAll disk (out.calls + 3) array := by
        simp only [BofT.Goes, GoesAll, BofT.Filled, BofT.calls, hne, false_implies, true_and, if_false, Disk.sound_add]
        tauto
      unfold Reports
      rw [hgoes, bofFileWrite]
      rcases writeHeader_cases disk type size arraySize out with ⟨hs, hrun⟩ | ⟨hs, out', hrun, -⟩
      · rw [hrun]
        simp only [ne_eq, not_true_eq_false, if_false, hkind, hcount]
        rcases writeEntries_cases array 0
          ⟨out.bytes ++ (bytes32 type ++ bytes32 size ++ bytes32 arraySize), out.calls + 3⟩ ih with
          ⟨hg, hrun'⟩ | ⟨-, hg, r', out', hr', hrun'⟩
        · refine .inl ⟨⟨hs, hg⟩, ?_⟩
          rw [hrun']
          simp [Output.wrote, Output.wroteAll, encode, BofT.calls, hvalue, hne, Nat.add_assoc]
        · exact .inr ⟨fun h => hg h.2, r', out', hr', hrun'⟩
      · exact .inr ⟨fun hg => hs hg.1, -EINVAL, out', by decide, by rw [hrun]; rfl⟩

/-! ## The dump -/

theorem returns_ok_iff {ε α : Type} {a : α} {Q : α → Prop} : Returns (.ok a : Except ε α) Q ↔ Q a :=
  ⟨fun ⟨_, h, hq⟩ => Except.ok.inj h ▸ hq, .ok⟩

/-- The header of a node. -/
def BofT.header (bof : BofT) : List UInt8 := bytes32 bof.type ++ bytes32 bof.size ++ bytes32 bof.arraySize

theorem BofT.header_length (bof : BofT) : bof.header.length = 12 := by simp [header, bytes32_length]

theorem encode_eq (bof : BofT) : encode bof = bof.header ++ (bof.value ++ encodeAll bof.array) := by
  obtain ⟨type, size, arraySize, nentry, value, array⟩ := bof
  simp [encode, BofT.header]

/-- What is shorter than a header is no encoding. -/
theorem ne_encode {bytes : List UInt8} (bof : BofT) (h : bytes.length < 12) : bytes ≠ encode bof := by
  rintro rfl
  rw [encode_eq, List.length_append, bof.header_length] at h
  omega

/-- The dump tells the truth exactly if the file can be opened and, unless `fseek` fails, its header is
written, and the root has either a payload or children that can all be written. -/
theorem dump_truthful_iff (disk : Disk) {bof : BofT} (h : Formed bof) :
    ReportsTruth disk bof ↔ disk.opens = true ∧ (disk.seeks = true → disk.Sound 0 3 ∧
      if bof.array = [] then bof.value ≠ [] else GoesAll disk 3 bof.array) := by
  have hcount : bof.arraySize.toNat = bof.array.length := by
    cases h with
    | leaf _ _ _ hcount harray => rw [hcount, harray]; rfl
    | container _ _ hcount _ => exact hcount
  have hvalue : bof.array ≠ [] → bof.value = [] := by
    cases h with
    | leaf _ _ _ _ harray => exact fun hne => absurd harray hne
    | container _ hvalue _ _ => exact fun _ => hvalue
  have hchildren : ∀ child ∈ bof.array, Formed child := by
    cases h with
    | leaf _ _ _ _ harray => rw [harray]; nofun
    | container _ _ _ hchildren => exact hchildren
  have hzero : bof.arraySize = 0 ↔ bof.array = [] := by
    rw [← UInt32.toNat_inj, hcount]
    exact List.length_eq_zero_iff
  unfold ReportsTruth bofDumpFile
  cases hopens : disk.opens with
  | false =>
      simp only [Bool.not_false, if_true, Bool.false_eq_true, false_and, iff_false]
      rintro ⟨d, hd, -⟩
      cases hd
  | true =>
      simp only [Bool.not_true, Bool.false_eq_true, if_false, true_and]
      cases hseeks : disk.seeks with
      | false =>
          simp only [Bool.not_false, if_true, Bool.false_eq_true, false_implies, iff_true]
          exact .ok ⟨⟨fun hr => absurd hr (by decide), fun hb => absurd hb (ne_encode bof (by decide))⟩, rfl⟩
      | true =>
          simp only [Bool.not_true, Bool.false_eq_true, if_false, true_implies]
          rcases writeHeader_cases disk bof.type bof.size bof.arraySize ⟨[], 0⟩ with ⟨hs, hrun⟩ | ⟨hs, out', hrun, hlt⟩
          · replace hs : disk.Sound 0 3 := hs
            rw [hrun]
            simp only [ne_eq, not_true_eq_false, if_false, hs, true_and, hcount, hzero]
            rcases writeEntries_cases bof.array 1 ⟨[] ++ bof.header, 0 + 3⟩
              (fun c hc => bofFileWrite_reports (hchildren c hc)) with ⟨hg, hrun'⟩ | ⟨hne, hg, r', out', hr', hrun'⟩
            · -- everything is written that the dump writes
              rw [BofT.header] at hrun'
              rw [hrun']
              by_cases harray : bof.array = []
              · simp only [bind, Except.bind, harray, not_true_eq_false, false_and, if_false, if_true]
                have henc : encode bof = bof.header ++ bof.value := by
                  rw [encode_eq, harray, encodeAll, List.append_nil]
                refine Iff.trans returns_ok_iff ?_
                have hbytes : ([] ++ bof.header) ++ encodeAll [] = encode bof ↔ bof.value = [] := by
                  rw [henc, encodeAll, List.append_nil, List.nil_append, List.self_eq_append_right]
                constructor
                · rintro ⟨hr, -⟩ hempty
                  exact absurd (hr.mpr (hbytes.mpr hempty)) (show (1 : Int) ≠ 0 by decide)
                · intro hvalue
                  exact ⟨⟨fun hr => absurd hr (show (1 : Int) ≠ 0 by decide), fun hb => absurd (hbytes.mp hb) hvalue⟩, rfl⟩
              · simp only [bind, Except.bind, harray, not_false_eq_true, true_and, if_false, not_true_eq_false]
                refine Iff.trans returns_ok_iff ?_
                have hbytes : ([] ++ bof.header) ++ encodeAll bof.array = encode bof := by
                  rw [encode_eq, hvalue harray, List.nil_append, List.nil_append]
                exact iff_of_true ⟨iff_of_true rfl hbytes, rfl⟩ hg
            · rw [BofT.header] at hrun'
              rw [hrun']
              simp only [bind, Except.bind, hne, hr', not_false_eq_true, and_self, if_true, if_false]
              -- the file is left open
              exact Iff.trans returns_ok_iff (iff_of_false (fun h => absurd (show true = false from h.2) (by decide)) hg)
          · -- the header is cut short, and 0 is returned
            rw [hrun]
            simp only [ne_eq, Int.reduceEq, not_false_eq_true, if_true]
            exact Iff.trans returns_ok_iff (iff_of_false (fun h => ne_encode bof hlt (h.1.mp rfl)) fun h => hs h.1)

/-- An object with one integer, the file of which can be opened and not written. -/
theorem dump_untruthful_fullDisk : ∃ bof, (Tree.set .object ⟨[114], by decide⟩ (.int32 7)).build = .ok bof
    ∧ bofDumpFile ⟨true, true, fun _ => some 0⟩ bof = .ok ⟨0, [], false⟩
    ∧ ¬ ReportsTruth ⟨true, true, fun _ => some 0⟩ bof := by
  refine ⟨_, rfl, rfl, ?_⟩
  rintro ⟨d, hd, h, -⟩
  cases hd
  exact absurd (h.mp rfl) (by decide)

/-- The same object when nothing fails. -/
theorem dump_truthful_sound : ∃ bof, Formed bof ∧ (ReportsTruth .sound bof ↔ Disk.sound.opens = true ∧
    (Disk.sound.seeks = true → Disk.sound.Sound 0 3 ∧
      if bof.array = [] then bof.value ≠ [] else GoesAll .sound 3 bof.array)) := by
  obtain ⟨bof, -, hmade, -⟩ := (Tree.set .object ⟨[114], by decide⟩ (.int32 7)).build_made (by decide)
  have h : Formed bof := hmade.sized.formed
  exact ⟨bof, h, dump_truthful_iff .sound h⟩

end LibDrm.Bof
