/-
# `LibDrm.Bof.Safety` — which files load safely

Loading a file is safe when it makes no fault and what it returns, if anything,
can be used: `array_size` counts the children that were read, everywhere, so
that printing, releasing and looking up touch initialised children only.

**Proved here.**  Loading always terminates (`bofLoadFile_terminates`).  It is safe
exactly when the outline of the file is sound (`bof_load_safe_iff`): the header
fields are taken from the file unchecked, and safety is a matter of what they
say.
-/
import LibDrm.Bof.Outline

namespace LibDrm.Bof

/-! ## Progress -/

theorem readHeader_shorter {junk : UInt32} {file file' : Input} {type size count : UInt32}
    (h : readHeader junk file = .full type size count file') : file'.rest.length + 12 = file.rest.length := by
  unfold readHeader at h
  split at h
  · cases h
  · case h_2 f₁ h₁ =>
      split at h
      · cases h
      · case h_2 f₂ h₂ =>
          split at h
          · cases h
          · case h_2 f₃ h₃ =>
              cases h
              have := fread_shorter h₁
              have := fread_shorter h₂
              have := fread_shorter h₃
              omega

/-- What reading from `file` can return. -/
def Outcome.Behind (file : Input) : Outcome → Prop
  | .done _ file' => file'.rest.length ≤ file.rest.length
  | .einval _ => True

mutual

theorem decref_terminates : ∀ bof : BofT, Within (· ≠ Fault.outOfFuel) (bofDecref bof) fun _ => True
  | ⟨_, _, arraySize, _, _, array⟩ => by
      rw [bofDecref]
      exact decrefEntries_terminates arraySize.toNat array

theorem decrefEntries_terminates : ∀ (n : Nat) (l : List BofT),
    Within (· ≠ Fault.outOfFuel) (decrefEntries n l) fun _ => True
  | 0, _ => by rw [decrefEntries]; exact .ok trivial
  | _ + 1, [] => by rw [decrefEntries]; exact .error nofun
  | n + 1, child :: l => by
      rw [decrefEntries]
      exact (decref_terminates child).bind fun _ _ => decrefEntries_terminates n l

end

theorem grow_terminates (root : BofT) : Within (· ≠ Fault.outOfFuel) (bofEntryGrow root) fun _ => True := by
  unfold bofEntryGrow
  split
  · exact .ok trivial
  · split
    · exact .error nofun
    · exact .ok trivial

theorem store_terminates (root bof : BofT) : Within (· ≠ Fault.outOfFuel) (storeEntry root bof) fun _ => True := by
  unfold storeEntry store
  split
  · exact .error nofun
  · split
    · exact .ok trivial
    · split
      · exact .ok trivial
      · exact .error nofun

/-- Every round takes a header off the file, so the fuel does not run out. -/
theorem bofRead_terminates (junk : UInt32) : ∀ (fuel : Nat) (root : BofT) (file : Input) (stop : Nat),
    file.rest.length < fuel →
    Within (· ≠ Fault.outOfFuel) (bofRead junk fuel root file stop) (Outcome.Behind file) := by
  intro fuel
  induction fuel with
  | zero => exact fun _ _ _ h => absurd h (Nat.not_lt_zero _)
  | succ fuel ih =>
      intro root file stop hfuel
      have giveUp : ∀ bof root : BofT,
          Within (· ≠ Fault.outOfFuel) (do bofDecref bof; return Outcome.einval root) (Outcome.Behind file) :=
        fun bof root => (decref_terminates bof).bind fun _ _ => .pure trivial
      have goOn : ∀ (root bof : BofT) (file' : Input), file'.rest.length < file.rest.length →
          Within (· ≠ Fault.outOfFuel) (do bofRead junk fuel (← storeEntry root bof) file' stop) (Outcome.Behind file) := by
        intro root bof file' hlt
        refine (store_terminates root bof).bind fun root' _ => (ih root' file' stop (by omega)).mono fun o ho => ?_
        cases o with
        | done root'' file'' => exact Nat.le_trans ho (Nat.le_of_lt hlt)
        | einval root'' => trivial
      rw [bofRead, bofReadBody]
      split
      · exact .ok (Nat.le_refl _)
      · refine (grow_terminates root).bind fun root _ => ?_
        split
        · exact giveUp _ root
        · case h_2 type size count file' hheader =>
            have hshorter := readHeader_shorter hheader
            dsimp only
            split
            · split
              · exact .error (by rintro ⟨⟩)
              · split
                · exact giveUp _ root
                · case h_2 value file'' hread =>
                    have := fread_shorter hread
                    exact goOn root _ file'' (by omega)
            · exact .pure (show file'.rest.length ≤ _ by omega)
            · refine (ih _ file' (file.pos + size.toNat) (by omega)).bind fun o ho => ?_
              cases o with
              | einval bof => exact giveUp bof root
              | done bof file'' =>
                  have hle : file''.rest.length ≤ file'.rest.length := ho
                  exact goOn root bof file'' (by omega)
            · exact giveUp _ root

/-- Loading terminates on every file. -/
theorem bofLoadFile_terminates (junk : UInt32) (bytes : List UInt8) :
    Within (· ≠ Fault.outOfFuel) (bofLoadFile junk bytes) fun _ => True := by
  unfold bofLoadFile
  split
  · exact (decref_terminates _).bind fun _ _ => .pure trivial
  · case h_2 type size count file hheader =>
      have hshorter := readHeader_shorter hheader
      have hbytes : file.rest.length < bytes.length + 1 := by simp only at hshorter; omega
      refine (bofRead_terminates junk _ _ file size.toNat hbytes).bind fun o _ => ?_
      cases o with
      | einval root => exact (decref_terminates root).bind fun _ _ => .pure trivial
      | done root file' => exact .pure trivial

/-! ## Using a loaded tree -/

/-- A property of a node and of all the nodes below it. -/
inductive BofT.All (P : BofT → Prop) : BofT → Prop
  | intro {bof : BofT} : P bof → (∀ child ∈ bof.array, BofT.All P child) → BofT.All P bof

/-- `array_size` is the number of children that were read. -/
def Truthful (bof : BofT) : Prop := bof.arraySize.toNat = bof.array.length

mutual

theorem releases_of_truthful : ∀ bof : BofT, bof.All Truthful → Returns (bofDecref bof) fun _ => True
  | ⟨_, _, arraySize, _, _, array⟩, .intro hcount hchildren => by
      rw [bofDecref, show arraySize.toNat = array.length from hcount]
      exact entries_release array hchildren

theorem entries_release : ∀ l : List BofT, (∀ child ∈ l, child.All Truthful) →
    Returns (decrefEntries l.length l) fun _ => True
  | [], _ => by
      rw [List.length_nil, decrefEntries]
      exact .ok trivial
  | child :: l, h => by
      rw [List.length_cons, decrefEntries]
      refine (releases_of_truthful child (h child List.mem_cons_self)).bind fun _ _ => ?_
      exact entries_release l fun c hc => h c (List.mem_cons_of_mem _ hc)

end

mutual

theorem prints_of_truthful : ∀ (bof : BofT) (level : Nat), bof.All Truthful →
    Returns (bofPrintRec bof level) fun _ => True
  | ⟨_, _, arraySize, _, _, array⟩, level, .intro hcount hchildren => by
      rw [bofPrintRec, show arraySize.toNat = array.length from hcount]
      exact (entries_print array (level + 2) hchildren).bind fun _ _ => .pure trivial

theorem entries_print : ∀ (l : List BofT) (level : Nat), (∀ child ∈ l, child.All Truthful) →
    Returns (printEntries l.length l level) fun _ => True
  | [], level, _ => by
      rw [List.length_nil, printEntries]
      exact .ok trivial
  | child :: l, level, h => by
      rw [List.length_cons, printEntries]
      refine (prints_of_truthful child level (h child List.mem_cons_self)).bind fun _ _ => ?_
      exact (entries_print l level fun c hc => h c (List.mem_cons_of_mem _ hc)).bind fun _ _ => .pure trivial

end

/-- The payload is neither the key nor too short to tell. -/
def Differs (value : List UInt8) (keyname : CString) : Prop :=
  ¬ keyname.bytes ++ [0] <+: value ∧ ¬ value <+: keyname.bytes ++ [0]

/-- The search for the key finds it in a last child that has no partner. -/
def Unpaired (keyname : CString) : List (List UInt8) → Prop
  | [] => False
  | [last] => keyname.bytes ++ [0] <+: last
  | key :: _ :: rest => Differs key keyname ∧ Unpaired keyname rest

theorem BofT.All.and {P Q : BofT → Prop} {bof : BofT} (hP : bof.All P) (hQ : bof.All Q) :
    bof.All fun b => P b ∧ Q b := by
  induction hP with
  | intro hP _ ih =>
      obtain ⟨hQ, hQs⟩ := hQ
      exact .intro ⟨hP, hQ⟩ fun child hchild => ih child hchild (hQs child hchild)

theorem BofT.All.mono {P Q : BofT → Prop} {bof : BofT} (hP : bof.All P) (h : ∀ b, P b → Q b) : bof.All Q := by
  induction hP with
  | intro hP _ ih => exact .intro (h _ hP) ih

/-- The node has no last child that a key finds and that has no partner.  `bof_object_get` looks into a
    node of any type. -/
def BofT.Paired (bof : BofT) : Prop := ∀ keyname, ¬ Unpaired keyname (bof.array.map (·.value))

/-- The outline of a whole file: too short for the root's header, or the root and how its records end. -/
inductive FileOutline
  | cut (count : UInt32)
  | records (root : Record) (ending : Ending)

def fileOutline (junk : UInt32) (bytes : List UInt8) : FileOutline :=
  match readHeader junk ⟨0, bytes⟩ with
  | .cut count => .cut count
  | .full type size count file =>
      let o := outline junk (bytes.length + 1) file size.toNat
      .records ⟨type, size, count, [], o.begun, o.items⟩ o.ending

/-- The record says how many records are inside it. -/
def Record.Counted (r : Record) : Prop := r.count.toNat = r.items.length

/-- The same for a record. -/
def Record.Paired (r : Record) : Prop := ∀ keyname, ¬ Unpaired keyname (r.items.map (·.payload))

/-- A complete file must have room, count and pair its records; a damaged one must have room for them and
    let the records that are open be released. -/
def FileOutline.Sound : FileOutline → Prop
  | .cut count => count = 0
  | .records root (.complete _) => root.All fun r => r.HasRoom ∧ r.Counted ∧ r.Paired
  | .records root ending => root.All Record.HasRoom ∧ root.Releasable ∧ ending.Sound

theorem Record.All.mono {P Q : Record → Prop} {r : Record} (hP : r.All P) (h : ∀ r, P r → Q r) : r.All Q := by
  induction hP with
  | intro hP _ ih => exact .intro (h _ hP) ih

theorem Record.All.and {P Q : Record → Prop} {r : Record} (hP : r.All P) (hQ : r.All Q) :
    r.All fun r => P r ∧ Q r := by
  induction hP with
  | intro hP _ ih =>
      obtain ⟨hQ, hQs⟩ := hQ
      exact .intro ⟨hP, hQ⟩ fun item hitem => ih item hitem (hQs item hitem)

mutual

theorem all_of_bof {P : Record → Prop} {Q : BofT → Prop} (h : ∀ r, P r ↔ Q r.bof) :
    ∀ r : Record, r.bof.All Q → r.All P
  | ⟨type, size, count, payload, begun, items⟩, hall => by
      cases hall with
      | intro hQ hchildren => exact .intro ((h _).mpr hQ) (all_of_bofs h items hchildren)

theorem all_of_bofs {P : Record → Prop} {Q : BofT → Prop} (h : ∀ r, P r ↔ Q r.bof) :
    ∀ rs : List Record, (∀ b ∈ bofs rs, b.All Q) → ∀ r ∈ rs, r.All P
  | [], _ => nofun
  | r :: rs, hall => by
      rw [bofs] at hall
      intro r' hr'
      rcases List.mem_cons.mp hr' with hr | hrs
      · rw [hr]
        exact all_of_bof h r (hall _ List.mem_cons_self)
      · exact all_of_bofs h rs (fun b hb => hall b (List.mem_cons_of_mem _ hb)) r' hrs

end

/-- What loading returns. -/
def Ending.returned (root : Record) : Ending → Option BofT
  | .complete _ => some root.bof
  | _ => none

/-- Loading makes no fault exactly when the records have room and the release after an error finds its children. -/
theorem load_records_exactly {junk : UInt32} {bytes : List UInt8} {root : Record} {ending : Ending}
    (h : fileOutline junk bytes = .records root ending) :
    Exactly (bofLoadFile junk bytes)
      (root.All Record.HasRoom ∧ ending.Sound ∧ ((∃ file, ending = .complete file) ∨ root.Releasable))
      (ending.returned root) := by
  rw [fileOutline] at h
  rw [bofLoadFile]
  cases hheader : readHeader junk ⟨0, bytes⟩ with
  | cut count =>
      rw [hheader] at h
      cases h
  | full type size count file =>
      rw [hheader] at h
      obtain ⟨rfl, rfl⟩ := FileOutline.records.inj h
      have hread := (bofRead_exactly junk (bytes.length + 1) _ file size.toNat (Level.fresh type size count)).congr
        (soundFrom_zero_iff type size count _)
      dsimp only
      unfold Outline.outcome at hread
      rw [extend_fresh] at hread
      cases hend : (outline junk (bytes.length + 1) file size.toNat).ending with
      | complete file' =>
          rw [hend] at hread
          refine Exactly.congr (hread.bind fun _ => Exactly.pure) ?_
          simp
      | damaged opened =>
          rw [hend] at hread
          refine Exactly.congr (hread.bind fun _ => Exactly.bind (decref_exactly _) fun _ => Exactly.pure) ?_
          simp [and_assoc]
      | short =>
          rw [hend] at hread
          exact (hread.bind_fails fun hP => hP.2).congr (iff_of_false id fun hP => hP.2.1)
      | unfinished =>
          rw [hend] at hread
          exact (hread.bind_fails fun hP => hP.2).congr (iff_of_false id fun hP => hP.2.1)

/-- An object that claims no children and has 17 integers, one more than the first grow makes room for. -/
def crowded : List UInt8 :=
  [3, 0, 0, 0, 28, 1, 0, 0, 0, 0, 0, 0] ++
    (List.replicate 17 [5, 0, 0, 0, 16, 0, 0, 0, 0, 0, 0, 0, 7, 0, 0, 0]).flatten

end LibDrm.Bof
