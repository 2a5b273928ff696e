/-
# `LibDrm.Bof.Outline` — the records of a BOF file, and when loading it is safe

`outline` says how the records of a file lie: which record is inside which, by
the `type` and `size` fields alone, and how the file ends.  It knows nothing of
child arrays, their growth, or releases.

    complete      every record ends where it says, or at a null record
    damaged       the file ends inside a record, or a record has no valid type;
                  the records that are open there are listed
    short         a payload record says that it is smaller than its header

The loader follows the outline exactly (`bofRead_exactly`): it makes no fault
just when every node has `Room` for its records and, in a damaged file, the open
nodes can be released.
-/
import LibDrm.Bof.File

namespace LibDrm.Bof

/-- A record of a file.  `begun` counts the records begun inside it, `items` those that were finished. -/
structure Record where
  type : UInt32
  size : UInt32
  count : UInt32
  payload : List UInt8
  begun : Nat
  items : List Record

/-- How the records inside a record end. -/
inductive Ending
  | complete (file : Input)
  | damaged (opened : List Record)
  | short
  | unfinished

/-- The records inside a record. -/
structure Outline where
  items : List Record
  begun : Nat
  ending : Ending

/-- One more record in front. -/
def Outline.cons (r : Record) (o : Outline) : Outline := ⟨r :: o.items, o.begun + 1, o.ending⟩

/-- The records up to the offset `stop`; `again` is the function itself. -/
def outlineBody (junk : UInt32) (again : Input → Nat → Outline) (file : Input) (stop : Nat) : Outline :=
  if stop ≤ file.pos then ⟨[], 0, .complete file⟩
  else
    match readHeader junk file with
    | .cut count => ⟨[], 1, .damaged [⟨BOF_TYPE_OBJECT, 12, count, [], 0, []⟩]⟩
    | .full type size count file' =>
        match kind type with
        | .leaf =>
            if size < 12 then ⟨[], 1, .short⟩
            else
              match fread (size.toNat - 12) file' with
              | none => ⟨[], 1, .damaged [⟨type, size, count, [], 0, []⟩]⟩
              | some (payload, file'') => (again file'' stop).cons ⟨type, size, count, payload, 0, []⟩
        | .null => ⟨[], 1, .complete file'⟩
        | .container =>
            let inner := again file' (file.pos + size.toNat)
            let r : Record := ⟨type, size, count, [], inner.begun, inner.items⟩
            match inner.ending with
            | .complete file'' => (again file'' stop).cons r
            | .damaged opened => ⟨[], 1, .damaged (opened ++ [r])⟩
            | .short => ⟨[], 1, .short⟩
            | .unfinished => ⟨[], 1, .unfinished⟩
        | .invalid => ⟨[], 1, .damaged [⟨type, size, count, [], 0, []⟩]⟩

def outline (junk : UInt32) : Nat → Input → Nat → Outline
  | 0 => fun _ _ => ⟨[], 0, .unfinished⟩
  | fuel + 1 => outlineBody junk (outline junk fuel)

/-! ## Room in a child array -/

/-- The value of `nentry` after `begun` grows, when `array_size` is `count`. -/
def capacity (count : UInt32) (begun : Nat) : Nat := 16 * min begun (count.toNat / 16 + 1)

/-- The growth, driven by `count`, keeps ahead of the records and does not wrap. -/
def Room (count : UInt32) (stored begun : Nat) : Prop :=
  stored ≤ 16 * (count.toNat / 16 + 1) ∧ (count.toNat / 16 + 1 < 2 ^ 28 ∨ begun < 2 ^ 28)

theorem grow_exactly {root : BofT} {k : Nat} (hcap : root.nentry.toNat = capacity root.arraySize k) :
    Exactly (bofEntryGrow root) (root.arraySize.toNat / 16 + 1 < 2 ^ 28 ∨ k + 1 < 2 ^ 28)
      { root with nentry := UInt32.ofNat (capacity root.arraySize (k + 1)) } := by
  have hn : root.nentry.toNat < 2 ^ 32 := root.nentry.toNat_lt
  have hq : root.arraySize.toNat < 2 ^ 32 := root.arraySize.toNat_lt
  rcases Nat.lt_or_ge (root.arraySize.toNat / 16) k with hlt | hge
  · -- full grown: `nentry` is past `array_size` and stays
    have hcap' : capacity root.arraySize (k + 1) = root.nentry.toNat := by
      rw [hcap]
      simp only [capacity]
      omega
    have hgrow : bofEntryGrow root = .ok root := bofEntryGrow_of_lt (by rw [hcap, capacity]; omega)
    rw [hgrow, hcap', UInt32.ofNat_toNat]
    refine (show Exactly (.ok root) True _ by cases root; exact .ok).congr (iff_of_true trivial (.inl ?_))
    rw [hcap, capacity] at hn
    omega
  · have hk : root.nentry.toNat = 16 * k := by rw [hcap, capacity]; omega
    rcases Nat.lt_or_ge (k + 1) (2 ^ 28) with hsmall | hbig
    · have hcap' : capacity root.arraySize (k + 1) = (root.nentry + 16).toNat := by
        rw [nentry_add_sixteen (by omega), hk, capacity]
        omega
      have hgrow : bofEntryGrow root = .ok { root with nentry := root.nentry + 16 } :=
        bofEntryGrow_of_le (by omega) (by omega)
      rw [hgrow, hcap', UInt32.ofNat_toNat]
      exact Exactly.ok.congr (iff_of_true trivial (.inr hsmall))
    · have hwrap : root.nentry + 16 = 0 := by
        apply UInt32.toNat_inj.mp
        rw [UInt32.toNat_add, hk]
        simp only [UInt32.reduceToNat]
        omega
      have hgrow : bofEntryGrow root = .error .arrayLost := by
        unfold bofEntryGrow
        rw [if_neg (fun h => by have := UInt32.lt_iff_toNat_lt.mp h; omega), if_pos hwrap]
      rw [hgrow]
      exact Exactly.error.congr (iff_of_false id (by omega))

theorem store_exactly {root bof : BofT} (hcap : root.nentry.toNat = capacity root.arraySize (root.array.length + 1)) :
    Exactly (storeEntry root bof) (root.array.length < 16 * (root.arraySize.toNat / 16 + 1))
      { root with array := root.array ++ [bof] } := by
  unfold storeEntry store
  rw [hcap, capacity]
  split
  · case isTrue hle => exact Exactly.error.congr (iff_of_false id (by omega))
  · case isFalse hlt =>
      rw [if_neg (Nat.lt_irrefl _), if_pos rfl]
      exact Exactly.ok.congr (iff_of_true trivial (by omega))

/-! ## The nodes that the records become -/

mutual

/-- The node that a record becomes. -/
def Record.bof : Record → BofT
  | ⟨type, size, count, payload, begun, items⟩ =>
      ⟨type, size, count, UInt32.ofNat (capacity count begun), payload, bofs items⟩

def bofs : List Record → List BofT
  | [] => []
  | r :: rs => r.bof :: bofs rs

end

theorem bofs_eq_map (rs : List Record) : bofs rs = rs.map Record.bof := by
  induction rs with
  | nil => rfl
  | cons r rs ih => rw [bofs, ih, List.map_cons]

mutual

/-- The release goes through the first `count` items, which must be there. -/
def Record.Releasable : Record → Prop
  | ⟨_, _, count, _, _, items⟩ => ReleasableEntries count.toNat items

def ReleasableEntries : Nat → List Record → Prop
  | 0, _ => True
  | _ + 1, [] => False
  | n + 1, r :: rs => r.Releasable ∧ ReleasableEntries n rs

end

mutual

theorem decref_exactly : ∀ r : Record, Exactly (bofDecref r.bof) r.Releasable ()
  | ⟨_, _, count, _, _, items⟩ => by
      rw [Record.bof, bofDecref, Record.Releasable]
      exact decrefEntries_exactly count.toNat items

theorem decrefEntries_exactly : ∀ (n : Nat) (rs : List Record),
    Exactly (decrefEntries n (bofs rs)) (ReleasableEntries n rs) ()
  | 0, _ => by
      rw [decrefEntries, ReleasableEntries]
      exact .ok
  | _ + 1, [] => by
      rw [bofs, decrefEntries, ReleasableEntries]
      exact .error
  | n + 1, r :: rs => by
      rw [bofs, decrefEntries, ReleasableEntries]
      exact (decref_exactly r).bind fun _ => decrefEntries_exactly n rs

end

/-- A property of a record and of all the records inside it. -/
inductive Record.All (P : Record → Prop) : Record → Prop
  | intro {r : Record} : P r → (∀ item ∈ r.items, Record.All P item) → Record.All P r

/-- There is room for the records inside. -/
def Record.HasRoom (r : Record) : Prop := Room r.count r.items.length r.begun

/-- Reading on to this ending makes no fault. -/
def Ending.Sound : Ending → Prop
  | .complete _ => True
  | .damaged opened => ∀ r ∈ opened, r.All Record.HasRoom ∧ r.Releasable
  | .short => False
  | .unfinished => False

/-- Reading the records into a node that has `stored` children makes no fault. -/
def Outline.SoundFrom (count : UInt32) (stored : Nat) (o : Outline) : Prop :=
  Room count (stored + o.items.length) (stored + o.begun) ∧ (∀ r ∈ o.items, r.All Record.HasRoom) ∧ o.ending.Sound

/-- The node with the records read into it. -/
def BofT.extend (root : BofT) (o : Outline) : BofT :=
  { root with
    nentry := UInt32.ofNat (capacity root.arraySize (root.array.length + o.begun))
    array := root.array ++ bofs o.items }

/-- What reading the records returns. -/
def Outline.outcome (root : BofT) (o : Outline) : Outcome :=
  match o.ending with
  | .complete file => .done (root.extend o) file
  | _ => .einval (root.extend o)

/-! ## The loader follows the outline -/

/-- Between two rounds of the reader there was one grow for each child. -/
structure Level (root : BofT) : Prop where
  cap : root.nentry.toNat = capacity root.arraySize root.array.length
  room : root.array.length ≤ 16 * (root.arraySize.toNat / 16 + 1)

theorem capacity_toNat {count : UInt32} {k : Nat} (h : count.toNat / 16 + 1 < 2 ^ 28 ∨ k < 2 ^ 28) :
    (UInt32.ofNat (capacity count k)).toNat = capacity count k := by
  rw [UInt32.toNat_ofNat', Nat.mod_eq_of_lt]
  simp only [capacity]
  omega

theorem Level.bound {root : BofT} (h : Level root) :
    root.arraySize.toNat / 16 + 1 < 2 ^ 28 ∨ root.array.length < 2 ^ 28 := by
  have hn : root.nentry.toNat < 2 ^ 32 := root.nentry.toNat_lt
  rw [h.cap, capacity] at hn
  omega

/-- No record is stored in this round, the last one. -/
theorem Level.last_iff {root : BofT} (h : Level root) (e : Ending) :
    (root.arraySize.toNat / 16 + 1 < 2 ^ 28 ∨ root.array.length + 1 < 2 ^ 28) ∧ e.Sound ↔
      Outline.SoundFrom root.arraySize root.array.length ⟨[], 1, e⟩ := by
  have hroom := h.room
  simp [Outline.SoundFrom, Room, hroom]

/-- A record is stored in this round, and the reader goes on. -/
theorem Level.cons_iff (count : UInt32) (k : Nat) (r : Record) (o : Outline) :
    (count.toNat / 16 + 1 < 2 ^ 28 ∨ k + 1 < 2 ^ 28) ∧ r.All Record.HasRoom ∧
        k < 16 * (count.toNat / 16 + 1) ∧ Outline.SoundFrom count (k + 1) o ↔
      Outline.SoundFrom count k (o.cons r) := by
  have hlen : k + (o.items.length + 1) = k + 1 + o.items.length := by omega
  have hbegun : k + (o.begun + 1) = k + 1 + o.begun := by omega
  simp only [Outline.SoundFrom, Outline.cons, Room, List.length_cons, List.forall_mem_cons, hlen, hbegun]
  constructor
  · rintro ⟨_, hr, _, hroom, hitems, hend⟩
    exact ⟨hroom, ⟨hr, hitems⟩, hend⟩
  · rintro ⟨hroom, ⟨hr, hitems⟩, hend⟩
    exact ⟨by omega, hr, by omega, hroom, hitems, hend⟩

/-- A record without records inside. -/
theorem Record.all_hasRoom_of_empty (type size count : UInt32) (payload : List UInt8) :
    Record.All Record.HasRoom ⟨type, size, count, payload, 0, []⟩ :=
  .intro ⟨Nat.zero_le _, .inr (Nat.two_pow_pos 28)⟩ nofun

/-- A node as the reader creates it. -/
theorem Level.fresh (type size count : UInt32) : Level ⟨type, size, count, 0, [], []⟩ :=
  ⟨by simp [capacity], Nat.zero_le _⟩

theorem soundFrom_zero_iff (type size count : UInt32) (o : Outline) :
    Outline.SoundFrom count 0 o ↔
      Record.All Record.HasRoom ⟨type, size, count, [], o.begun, o.items⟩ ∧ o.ending.Sound := by
  simp only [Outline.SoundFrom, Nat.zero_add]
  constructor
  · rintro ⟨hroom, hitems, hend⟩
    exact ⟨.intro hroom hitems, hend⟩
  · rintro ⟨⟨hroom, hitems⟩, hend⟩
    exact ⟨hroom, hitems, hend⟩

theorem extend_fresh (type size count : UInt32) (o : Outline) :
    BofT.extend ⟨type, size, count, 0, [], []⟩ o = Record.bof ⟨type, size, count, [], o.begun, o.items⟩ := by
  simp [BofT.extend, Record.bof]

theorem Level.extend_nil {root : BofT} (h : Level root) (e : Ending) : root.extend ⟨[], 0, e⟩ = root := by
  have hcap : UInt32.ofNat (capacity root.arraySize root.array.length) = root.nentry := by
    rw [← h.cap, UInt32.ofNat_toNat]
  cases root
  simp only [BofT.extend, bofs, List.append_nil, Nat.add_zero] at hcap ⊢
  rw [hcap]

theorem extend_cons (root : BofT) (n : UInt32) (r : Record) (o : Outline) :
    BofT.extend { root with nentry := n, array := root.array ++ [r.bof] } o = root.extend (o.cons r) := by
  have hbegun : root.array.length + 1 + o.begun = root.array.length + (o.begun + 1) := by omega
  simp [BofT.extend, Outline.cons, bofs, hbegun]

theorem outcome_extend_cons (root : BofT) (n : UInt32) (r : Record) (o : Outline) :
    o.outcome { root with nentry := n, array := root.array ++ [r.bof] } = (o.cons r).outcome root := by
  have hroot := extend_cons root n r o
  unfold Outline.outcome
  rw [hroot]
  rfl

/-- The last round releases the record it was reading, and gives up. -/
theorem damaged_exactly (root : BofT) (r : Record) (hr : r.All Record.HasRoom) :
    Exactly (do
        bofDecref r.bof
        return Outcome.einval { root with nentry := UInt32.ofNat (capacity root.arraySize (root.array.length + 1)) })
      (Ending.Sound (.damaged [r])) (Outline.outcome root ⟨[], 1, .damaged [r]⟩) := by
  have hout : Outline.outcome root ⟨[], 1, .damaged [r]⟩ =
      .einval { root with nentry := UInt32.ofNat (capacity root.arraySize (root.array.length + 1)) } := by
    simp [Outline.outcome, BofT.extend, bofs]
  rw [hout]
  refine Exactly.congr (Exactly.bind (decref_exactly r) fun _ => Exactly.pure) ?_
  simp [Ending.Sound, hr]

/-- A record is stored, and reading goes on as the rest of the outline says. -/
theorem store_bind {root : BofT} (r : Record) (o : Outline) {f : BofT → Except Fault Outcome}
    (hroom : root.arraySize.toNat / 16 + 1 < 2 ^ 28 ∨ root.array.length + 1 < 2 ^ 28)
    (hf : ∀ root' : BofT, Level root' → root'.arraySize = root.arraySize →
      root'.array.length = root.array.length + 1 →
      Exactly (f root') (o.SoundFrom root'.arraySize root'.array.length) (o.outcome root')) :
    Exactly (storeEntry { root with nentry := UInt32.ofNat (capacity root.arraySize (root.array.length + 1)) } r.bof
        >>= f)
      (root.array.length < 16 * (root.arraySize.toNat / 16 + 1) ∧
        o.SoundFrom root.arraySize (root.array.length + 1))
      ((o.cons r).outcome root) := by
  rw [← outcome_extend_cons root (UInt32.ofNat (capacity root.arraySize (root.array.length + 1))) r o]
  refine (store_exactly (capacity_toNat hroom)).bind fun hlt => ?_
  have hnext := hf
    { root with
      nentry := UInt32.ofNat (capacity root.arraySize (root.array.length + 1)), array := root.array ++ [r.bof] }
    ⟨by simpa using capacity_toNat hroom, by simpa using Nat.succ_le_of_lt hlt⟩ rfl (by simp)
  simpa using hnext

/-- The reader makes no fault exactly when the outline is sound, and returns what it says. -/
theorem bofRead_exactly (junk : UInt32) : ∀ (fuel : Nat) (root : BofT) (file : Input) (stop : Nat), Level root →
    Exactly (bofRead junk fuel root file stop)
      ((outline junk fuel file stop).SoundFrom root.arraySize root.array.length)
      ((outline junk fuel file stop).outcome root) := by
  intro fuel
  induction fuel with
  | zero =>
      intro root file stop _
      rw [bofRead, outline]
      exact Exactly.error.congr (iff_of_false id fun h => h.2.2)
  | succ fuel ih =>
      intro root file stop h
      rw [bofRead, outline, bofReadBody, outlineBody]
      split
      · case isTrue hstop =>
          have hout : Outline.outcome root ⟨[], 0, .complete file⟩ = .done root file := by
            simp [Outline.outcome, h.extend_nil]
          rw [hout]
          refine Exactly.ok.congr (iff_of_true trivial ⟨⟨by simpa using h.room, by simpa using h.bound⟩, nofun, trivial⟩)
      · case isFalse hstop =>
          cases hheader : readHeader junk file with
          | cut count =>
              refine ((grow_exactly h.cap).bind fun _ => ?_).congr (h.last_iff _)
              exact damaged_exactly root ⟨BOF_TYPE_OBJECT, 12, count, [], 0, []⟩ (Record.all_hasRoom_of_empty _ _ _ _)
          | full type size count file' =>
              dsimp only
              cases hkind : kind type with
              | leaf =>
                  dsimp only
                  by_cases hsize : size < 12
                  · simp only [if_pos hsize]
                    refine ((grow_exactly h.cap).bind fun _ => ?_).congr (h.last_iff _)
                    exact .error
                  · simp only [if_neg hsize]
                    cases hread : fread (size.toNat - 12) file' with
                    | none =>
                        refine ((grow_exactly h.cap).bind fun _ => ?_).congr (h.last_iff _)
                        exact damaged_exactly root ⟨type, size, count, [], 0, []⟩ (Record.all_hasRoom_of_empty _ _ _ _)
                    | some read =>
                        obtain ⟨payload, file''⟩ := read
                        refine ((grow_exactly h.cap).bind fun hroom => ?_).congr (Level.cons_iff _ _ _ _)
                        refine (store_bind ⟨type, size, count, payload, 0, []⟩ _ hroom fun root' h' _ _ =>
                          ih root' file'' stop h').congr ?_
                        exact (and_iff_right (Record.all_hasRoom_of_empty _ _ _ _)).symm
              | null =>
                  refine ((grow_exactly h.cap).bind fun _ => ?_).congr (h.last_iff _)
                  have hout : Outline.outcome root ⟨[], 1, .complete file'⟩ =
                      .done { root with nentry := UInt32.ofNat (capacity root.arraySize (root.array.length + 1)) } file' := by
                    simp [Outline.outcome, BofT.extend, bofs]
                  rw [hout]
                  exact .pure
              | container =>
                  dsimp only
                  let inner := outline junk fuel file' (file.pos + size.toNat)
                  let r : Record := ⟨type, size, count, [], inner.begun, inner.items⟩
                  have hinner : Exactly (bofRead junk fuel ⟨type, size, count, 0, [], []⟩ file' (file.pos + size.toNat))
                      (r.All Record.HasRoom ∧ inner.ending.Sound) (inner.outcome ⟨type, size, count, 0, [], []⟩) :=
                    (ih _ file' (file.pos + size.toNat) (Level.fresh type size count)).congr
                      (soundFrom_zero_iff type size count inner)
                  have hbof : BofT.extend ⟨type, size, count, 0, [], []⟩ inner = r.bof := extend_fresh type size count inner
                  cases hend : (outline junk fuel file' (file.pos + size.toNat)).ending with
                  | complete file'' =>
                      have hout : inner.outcome ⟨type, size, count, 0, [], []⟩ = .done r.bof file'' := by
                        simp only [Outline.outcome, inner, hend]
                        exact congrArg (Outcome.done · file'') hbof
                      have hsound : inner.ending.Sound := by simp only [inner, hend]; trivial
                      refine ((grow_exactly h.cap).bind fun hroom => ?_).congr (Level.cons_iff _ _ _ _)
                      rw [hout] at hinner
                      refine (hinner.bind fun _ => store_bind r _ hroom fun root' h' _ _ =>
                        ih root' file'' stop h').congr ?_
                      exact and_congr_left fun _ => and_iff_left hsound
                  | damaged opened =>
                      have hout : inner.outcome ⟨type, size, count, 0, [], []⟩ = .einval r.bof := by
                        simp only [Outline.outcome, inner, hend]
                        exact congrArg Outcome.einval hbof
                      refine ((grow_exactly h.cap).bind fun _ => ?_).congr (h.last_iff _)
                      rw [hout] at hinner
                      have hdone : Outline.outcome root ⟨[], 1, .damaged (opened ++ [r])⟩ =
                          .einval { root with nentry := UInt32.ofNat (capacity root.arraySize (root.array.length + 1)) } := by
                        simp [Outline.outcome, BofT.extend, bofs]
                      show Exactly _ (Ending.Sound (.damaged (opened ++ [r])))
                        (Outline.outcome root ⟨[], 1, .damaged (opened ++ [r])⟩)
                      rw [hdone]
                      refine Exactly.congr (hinner.bind fun _ => Exactly.bind (decref_exactly r) fun _ => Exactly.pure) ?_
                      simp only [inner, hend, Ending.Sound, List.forall_mem_append, List.forall_mem_singleton]
                      tauto
                  | short =>
                      have hsound : ¬ inner.ending.Sound := by simp [inner, hend, Ending.Sound]
                      refine ((grow_exactly h.cap).bind fun _ => ?_).congr (h.last_iff _)
                      exact hinner.bind_fails fun hP => hsound hP.2
                  | unfinished =>
                      have hsound : ¬ inner.ending.Sound := by simp [inner, hend, Ending.Sound]
                      refine ((grow_exactly h.cap).bind fun _ => ?_).congr (h.last_iff _)
                      exact hinner.bind_fails fun hP => hsound hP.2
              | invalid =>
                  refine ((grow_exactly h.cap).bind fun _ => ?_).congr (h.last_iff _)
                  exact damaged_exactly root ⟨type, size, count, [], 0, []⟩ (Record.all_hasRoom_of_empty _ _ _ _)

end LibDrm.Bof
