/-
# `LibDrm.Freedreno.Slices` — the relocations of a command

A command has a range of its target ring, and at the flush it gets a slice of the
relocations of that ring: from the first one that is not before the range to the first
one that is not before the end of it.  Such a slice is a filter if the table is sorted.

The table is sorted because its entries are behind the write cursor, which only `reset`
moves back:

    emit           moves the cursor on
    emit_reloc     adds an entry at the cursor, and moves the cursor on
    reset          moves the cursor back, and empties the table
    flush          empties tables

Offsets are `uint32_t`, and so is the end of a range.
-/
import LibDrm.Freedreno.Submit

namespace LibDrm.Freedreno

variable {s s' : State} {r : RingId} {ring : MsmRing}

/-! ## Slices of a sorted list -/

section

variable {α : Type} {key : α → Nat}

theorem drop_findIdx {l : List α} (bound : Nat) (h : l.Pairwise fun a b => key a ≤ key b) :
    l.drop (l.findIdx fun a => key a ≥ bound) = l.filter fun a => bound ≤ key a := by
  induction l with
  | nil => rfl
  | cons a l ih =>
      obtain ⟨hle, htail⟩ := List.pairwise_cons.mp h
      rw [List.findIdx_cons]
      rcases Nat.lt_or_ge (key a) bound with hlt | hge
      · have hnot : ¬bound ≤ key a := Nat.not_le_of_lt hlt
        simp only [ge_iff_le, hnot, decide_false, cond_false, List.drop_succ_cons]
        rw [List.filter_cons_of_neg (by simpa using hnot)]
        exact ih htail
      · simp only [ge_iff_le, hge, decide_true, cond_true, List.drop_zero]
        refine (List.filter_eq_self.mpr fun b hb => ?_).symm
        rcases List.mem_cons.mp hb with rfl | hb
        · exact decide_eq_true hge
        · exact decide_eq_true (Nat.le_trans hge (hle b hb))

theorem take_findIdx {l : List α} (bound : Nat) (h : l.Pairwise fun a b => key a ≤ key b) :
    l.take (l.findIdx fun a => key a ≥ bound) = l.filter fun a => key a < bound := by
  induction l with
  | nil => rfl
  | cons a l ih =>
      obtain ⟨hle, htail⟩ := List.pairwise_cons.mp h
      rw [List.findIdx_cons]
      rcases Nat.lt_or_ge (key a) bound with hlt | hge
      · simp only [ge_iff_le, Nat.not_le_of_lt hlt, decide_false, cond_false, List.take_succ_cons]
        rw [List.filter_cons_of_pos (by simpa using hlt)]
        exact congrArg _ (ih htail)
      · simp only [ge_iff_le, hge, decide_true, cond_true, List.take_zero]
        refine (List.filter_eq_nil_iff.mpr fun b hb => ?_).symm
        rcases List.mem_cons.mp hb with rfl | hb
        · simpa using hge
        · simpa using Nat.le_trans hge (hle b hb)

end

/-- The table of a ring is sorted by `submit_offset`. -/
def Sorted (relocs : List SubmitReloc) : Prop := relocs.Pairwise fun a b => a.submitOffset ≤ b.submitOffset

/-- The relocations in `[submit_offset, submit_offset + size)`. -/
def SubmitCmd.inRange (cmd : SubmitCmd) (reloc : SubmitReloc) : Bool :=
  cmd.submitOffset ≤ reloc.submitOffset ∧ reloc.submitOffset < (cmd.submitOffset + cmd.size) % 2 ^ 32

theorem cmdRelocs_eq {cmd : SubmitCmd} {relocs : List SubmitReloc} (h : Sorted relocs) :
    cmdRelocs cmd relocs = relocs.filter cmd.inRange := by
  have hfirst : relocs.drop (findNextRelocIdx 0 cmd.submitOffset relocs) =
      relocs.filter fun reloc => cmd.submitOffset ≤ reloc.submitOffset := by
    rw [findNextRelocIdx, Nat.zero_add, List.drop_zero]
    exact drop_findIdx _ h
  have hsorted := List.Pairwise.filter (fun reloc : SubmitReloc => decide (cmd.submitOffset ≤ reloc.submitOffset)) h
  rw [cmdRelocs]
  generalize findNextRelocIdx 0 cmd.submitOffset relocs = a at hfirst ⊢
  rw [findNextRelocIdx, Nat.add_sub_cancel_left, hfirst, take_findIdx _ hsorted, List.filter_filter]
  refine List.filter_congr fun reloc _ => ?_
  simp only [SubmitCmd.inRange, Bool.decide_and, Bool.and_comm]

/-! ## One ring -/

/-- The cursor is at an offset that a `uint32_t` can hold. -/
structure Ringbuffer.Fits (base : Ringbuffer) : Prop where
  size : base.size < 2 ^ 32
  cur : 4 * base.cur < 2 ^ 32

/-- The relocations of a ring are behind its cursor, in the order of their offsets, and every command has a target. -/
structure Sliced (ring : MsmRing) : Prop where
  fits : ring.base.Fits
  sorted : Sorted ring.relocs.rows
  behind : ∀ reloc ∈ ring.relocs.rows, reloc.submitOffset < 4 * ring.base.cur
  targets : ring.cmds.rows.length = ring.rings.length

/-- `flush_reset` of a ring with `ring` as a target. -/
def MsmRing.clear (ring : MsmRing) : MsmRing := { ring with relocs := ring.relocs.clear }

theorem Sliced.clear (h : Sliced ring) : Sliced ring.clear :=
  ⟨h.fits, .nil, fun _ hmem => absurd hmem List.not_mem_nil, h.targets⟩

theorem offsetBytes_start {base : Ringbuffer} (h : base.Fits) : offsetBytes base.cur 0 = 4 * base.cur := by
  have hcur := h.cur
  unfold offsetBytes
  omega

theorem emit_moves {data : Word} {base : Ringbuffer} (h : base.Fits) :
    Ensures (base.emit data) fun base' => base'.Fits ∧ base'.cur = base.cur + 1 := by
  unfold Ringbuffer.emit
  split
  · next hlt =>
    refine .ok ⟨⟨h.size, ?_⟩, rfl⟩
    have hsize := h.size
    show 4 * (base.cur + 1) < 2 ^ 32
    omega
  · exact .error

theorem Sliced.emit {base : Ringbuffer} (h : Sliced ring) (hfits : base.Fits) (hcur : base.cur = ring.base.cur + 1) :
    Sliced { ring with base } := by
  refine ⟨hfits, h.sorted, fun reloc hmem => ?_, h.targets⟩
  have hlt := h.behind reloc hmem
  show reloc.submitOffset < 4 * base.cur
  omega

/-- A relocation at the cursor, which is moved on. -/
theorem Sliced.reloc {base : Ringbuffer} {entry : SubmitReloc} (h : Sliced ring) (hfits : base.Fits)
    (hcur : base.cur = ring.base.cur + 1) (hentry : entry.submitOffset = offsetBytes ring.base.cur 0) :
    Sliced { ring with base, relocs := ring.relocs.append entry } := by
  rw [offsetBytes_start h.fits] at hentry
  refine ⟨hfits, List.pairwise_append.mpr ⟨h.sorted, List.pairwise_singleton _ _, ?_⟩, ?_, h.targets⟩
  · intro a ha b hb
    obtain rfl := List.mem_singleton.mp hb
    rw [hentry]
    exact Nat.le_of_lt (h.behind a ha)
  · intro a ha
    show a.submitOffset < 4 * base.cur
    rcases List.mem_append.mp ha with ha | ha
    · have hlt := h.behind a ha
      omega
    · obtain rfl := List.mem_singleton.mp ha
      omega

theorem rewind_fits {is2d : Bool} {base : Ringbuffer} (h : base.Fits) : (base.rewind is2d).Fits := by
  refine ⟨h.size, ?_⟩
  cases is2d with
  | false => exact show 4 * 0 < 2 ^ 32 by decide
  | true => exact show 4 * 0x140 < 2 ^ 32 by decide

/-! ## All rings -/

def AllSliced (s : State) : Prop := ∀ r ring, s.ring r = some ring → Sliced ring

theorem AllSliced.setRing (h : AllSliced s) (hring : Sliced ring) : AllSliced (s.setRing r ring) := by
  intro t x ht
  rcases setRing_ring ht with ⟨-, rfl⟩ | ⟨-, ht⟩
  · exact hring
  · exact h t x ht

theorem AllSliced.ringNew {size : Nat} {handle : Word} {junk : Nat → SubmitBo} (h : AllSliced s) (hsize : size < 2 ^ 32) :
    AllSliced (ringNew size handle junk s) := by
  refine @AllSliced.setRing (boNew handle 0 s) s.freshRing
    { base := { size }, ringBo := s.freshBo, bos := { behind := junk } } h ?_
  refine ⟨⟨hsize, ?_⟩, .nil, fun _ hmem => absurd hmem List.not_mem_nil, rfl⟩
  exact show 4 * 0 < 2 ^ 32 by decide

theorem bo2idx_sliced {b : MsmBoId} {flags : Word} (h : AllSliced s) :
    Ensures (bo2idx r b flags s) fun p => AllSliced p.2 ∧ p.2.submits = s.submits := by
  refine (bo2idx_cases).mono ?_
  rintro ⟨idx, s'⟩ ⟨ring, bo, bos, hr, -, ⟨-, -, -, -, hs⟩ | ⟨-, -, -, hs⟩⟩
  all_goals
    dsimp only at hs ⊢
    subst hs
    have hring := h r ring hr
    refine ⟨?_, rfl⟩
  · refine @AllSliced.setRing (s.setBo b _) r { ring with bos, submitList := ring.submitList ++ [b] } h ?_
    exact ⟨hring.fits, hring.sorted, hring.behind, hring.targets⟩
  · refine @AllSliced.setRing s r { ring with bos } h ?_
    exact ⟨hring.fits, hring.sorted, hring.behind, hring.targets⟩

theorem getCmd_sliced {target : RingId} {b : MsmBoId} {submitOffset size : Nat} {type : CmdType} (h : AllSliced s) :
    Ensures (getCmd r target b submitOffset size type s) fun s' => AllSliced s' ∧ s'.submits = s.submits := by
  refine (getRing_spec).bind fun ring hr => (getBo_spec).bind fun bo _ => ?_
  split
  · exact .pure ⟨h, rfl⟩
  · refine (bo2idx_sliced h).bind ?_
    rintro ⟨idx, s₁⟩ ⟨h₁, hsub⟩
    refine (getRing_spec).bind fun ring₁ hr₁ => .pure ⟨AllSliced.setRing h₁ ?_, hsub⟩
    have hring := h₁ r ring₁ hr₁
    refine ⟨hring.fits, hring.sorted, hring.behind, ?_⟩
    show (ring₁.cmds.rows ++ [_]).length = (ring₁.rings ++ [target]).length
    rw [List.length_append, List.length_append, hring.targets]
    rfl

theorem setParent_sliced {parent : Option RingId} (h : AllSliced s) : Ensures (setParent r parent s) AllSliced := by
  refine (getRing_spec).bind fun ring hr => .pure (h.setRing ?_)
  have hring := h r ring hr
  exact ⟨⟨hring.fits.size, hring.fits.cur⟩, hring.sorted, hring.behind, hring.targets⟩

theorem ringEmit_sliced {data : Word} (h : AllSliced s) : Ensures (ringEmit r data s) AllSliced := by
  refine (getRing_spec).bind fun ring hr => ?_
  have hring := h r ring hr
  exact (emit_moves hring.fits).bind fun base hbase => .pure (h.setRing (hring.emit hbase.1 hbase.2))

theorem emitReloc_sliced {x : Reloc} (h : AllSliced s) : Ensures (msmRingbufferEmitReloc r x s) AllSliced := by
  refine (getRing_spec).bind fun ring _ => (bo2idx_sliced h).bind ?_
  rintro ⟨idx, s₁⟩ ⟨h₁, -⟩
  refine (getRing_spec).bind fun ring₁ hr₁ => (getBo_spec).bind fun bo _ => ?_
  have hring := h₁ r ring₁ hr₁
  exact (emit_moves hring.fits).bind fun base hbase => .pure (AllSliced.setRing h₁ (hring.reloc hbase.1 hbase.2 rfl))

theorem emitRelocRing_sliced {target : RingId} {start stop : Nat} (h : AllSliced s) :
    Ensures (msmRingbufferEmitRelocRing r target start stop s) AllSliced := by
  refine (getRing_spec).bind fun targetRing _ => (getCmd_sliced h).bind fun s₁ h₁ => ?_
  exact emitReloc_sliced h₁.1

/-- The targets lose their relocations, and the other rings are as they were. -/
theorem clearRelocs_cases {l : List RingId} : Ensures (l.foldlM clearRelocs s) fun s' =>
    ∀ {t x'}, s'.ring t = some x' → ∃ x, s.ring t = some x ∧ (x' = x ∨ x' = x.clear) := by
  refine Ensures.foldlM (fun ht => ⟨_, ht, .inl rfl⟩) ?_
  intro s₁ t hs₁
  refine (getRing_spec).bind fun ring hr => .pure fun {u x'} hu => ?_
  rcases setRing_ring hu with ⟨rfl, rfl⟩ | ⟨-, hu⟩
  · obtain ⟨x, hx, heq⟩ := hs₁ hr
    refine ⟨x, hx, .inr ?_⟩
    rcases heq with rfl | rfl
    · rfl
    · rfl
  · exact hs₁ hu

/-- The cursor of the ring may have been moved back: its relocations go, too. -/
theorem flushReset_sliced (hother : ∀ t x, t ≠ r → s.ring t = some x → Sliced x)
    (hself : ∀ x, s.ring r = some x → x.base.Fits) : Ensures (flushReset r s) AllSliced := by
  refine (getRing_spec).bind fun ring hr => (clearRelocs_cases).bind fun s₁ hs₁ => ?_
  refine (getRing_spec).bind fun ring₁ hr₁ => .pure fun t x' ht => ?_
  rcases setRing_ring ht with ⟨-, rfl⟩ | ⟨hne, ht⟩
  · obtain ⟨x, hx, heq⟩ := hs₁ hr₁
    refine ⟨?_, .nil, fun _ hmem => absurd hmem List.not_mem_nil, rfl⟩
    show ring₁.base.Fits
    rcases heq with rfl | rfl
    · exact hself ring₁ hx
    · exact hself x hx
  · obtain ⟨x, hx, rfl | rfl⟩ := hs₁ ht
    · exact hother t x' hne hx
    · exact (hother t x hne hx).clear

theorem ringReset_sliced (h : AllSliced s) : Ensures (ringReset r s) AllSliced := by
  refine (getRing_spec).bind fun ring hr => flushReset_sliced ?_ ?_
  · intro t x hne ht
    rcases setRing_ring ht with ⟨rfl, -⟩ | ⟨-, ht⟩
    · exact absurd rfl hne
    · exact h t x ht
  · rintro x hx
    rw [setRing_self] at hx
    cases hx
    exact rewind_fits (h r ring hr).fits

theorem stampAll_sliced {ret : Int} {fence : Word} {l : List RingId} (h : AllSliced s) :
    Ensures (stampAll ret fence l s) fun s' => AllSliced s' ∧ s'.submits = s.submits := by
  unfold stampAll
  split
  · exact .ok ⟨h, rfl⟩
  refine Ensures.foldlM (I := fun s' => AllSliced s' ∧ s'.submits = s.submits) ⟨h, rfl⟩ ?_
  rintro s₁ t ⟨h₁, hsub⟩
  refine (getRing_spec).bind fun x hx => .pure ⟨AllSliced.setRing h₁ ?_, hsub⟩
  have hring := h₁ t x hx
  exact ⟨⟨hring.fits.size, hring.fits.cur⟩, hring.sorted, hring.behind, hring.targets⟩

/-! ## Flush -/

/-- What the kernel gets for a command, whose target ring is `c.2`. -/
def Denoted (s : State) (c : SubmitCmd × RingId) (y : SubmitCmd × List SubmitReloc × List Word) : Prop :=
  ∃ target, s.ring c.2 = some target ∧ y.1 = c.1 ∧ y.2.1 = target.relocs.rows.filter c.1.inRange

/-- A submit of the commands that `ring` has in the state `s`: each with the relocations in its range, all of these
    and no others. -/
structure Submitted (s : State) (ring : MsmRing) (sub : Submit) : Prop where
  targets : ring.cmds.rows.length = ring.rings.length
  cmds : List.Forall₂ (Denoted s) (ring.cmds.rows.zip ring.rings) sub.cmds

theorem fixUp_denoted {c : SubmitCmd × RingId} (h : AllSliced s) : Ensures (fixUp s c) (Denoted s c) :=
  (getRing_spec).bind fun target ht => .pure ⟨target, ht, rfl, cmdRelocs_eq (h _ target ht).sorted⟩

/-- What a flush submits; `s₁` is the state with the command of the ring itself. -/
def Flushed (r : RingId) (lastStart : Nat) (s s' : State) : Prop := ∃ ring s₁ ring₁ sub, s.ring r = some ring ∧
  getCmd r r ring.ringBo (offsetBytes lastStart 0) (offsetBytes ring.base.cur lastStart) .buf s = .ok s₁ ∧
  s₁.ring r = some ring₁ ∧ s'.submits = s.submits ++ [sub] ∧ Submitted s₁ ring₁ sub

theorem flush_sliced {lastStart : Nat} {ret : Int} {fence : Word} (h : AllSliced s) :
    Ensures (msmRingbufferFlush r lastStart ret fence s) fun p => AllSliced p.2 ∧ Flushed r lastStart s p.2 := by
  intro p hp
  obtain ⟨ring, hring, hp⟩ := exists_of_bind_ok hp
  have hr := getRing_spec ring hring
  obtain ⟨s₁, hs₁, hp⟩ := exists_of_bind_ok hp
  obtain ⟨h₁, hsub₁⟩ := getCmd_sliced h s₁ hs₁
  obtain ⟨ring₁, hring₁, hp⟩ := exists_of_bind_ok hp
  have hr₁ := getRing_spec ring₁ hring₁
  obtain ⟨cmds, hcmds, hp⟩ := exists_of_bind_ok hp
  have hden : List.Forall₂ (Denoted s₁) _ cmds := Ensures.mapM_forall₂ (fun _ _ => fixUp_denoted h₁) cmds hcmds
  obtain ⟨s₃, hs₃, hp⟩ := exists_of_bind_ok hp
  obtain ⟨h₃, hsub₃⟩ := stampAll_sliced (s := { s₁ with submits := s₁.submits ++ [⟨ring₁.bos.rows, cmds⟩] }) h₁ s₃ hs₃
  obtain ⟨s₄, hs₄, hp⟩ := exists_of_bind_ok hp
  have hun := unlist_spec s₄ hs₄
  have h₄ : AllSliced s₄ := by
    rw [hun.rest]
    exact h₃
  obtain ⟨ring₄, hring₄, hp⟩ := exists_of_bind_ok hp
  have hring₄ := h₄ r ring₄ (getRing_spec ring₄ hring₄)
  obtain ⟨s₅, hs₅, hp⟩ := exists_of_bind_ok hp
  cases hp
  have h₄' : AllSliced (s₄.setRing r { ring₄ with submitList := [] }) :=
    h₄.setRing ⟨hring₄.fits, hring₄.sorted, hring₄.behind, hring₄.targets⟩
  refine ⟨flushReset_sliced (fun t x _ ht => h₄' t x ht) (fun x ht => (h₄' r x ht).fits) s₅ hs₅, ring, s₁, ring₁,
    ⟨ring₁.bos.rows, cmds⟩, hr, hs₁, hr₁, ?_, (h₁ r ring₁ hr₁).targets, hden⟩
  exact (flushReset_emptied { ring₄ with submitList := [] } hun rfl rfl s₅ hs₅).submits.trans
    (hsub₃.trans (congrArg (· ++ _) hsub₁))

theorem ringFlush_sliced {ret : Int} {fence : Word} (h : AllSliced s) :
    Ensures (ringFlush r ret fence s) fun p => AllSliced p.2 := by
  refine (getRing_spec).bind fun ring _ => ?_
  exact (flush_sliced h).mono fun p hp => hp.1

/-! ## Runs -/

/-- The size of a ring is a `uint32_t`. -/
def Op.Sized : Op → Prop
  | .ringNew size _ _ => size < 2 ^ 32
  | _ => True

/-- A call, or a flush from a marker on. -/
inductive State.Call (s s' : State) : Prop
  | op (op : Op) (hrun : op.run s = .ok s') (hsized : op.Sized)
  | markerFlush (r : RingId) (lastStart : Nat) (ret : Int) (fence : Word)
      (hrun : msmRingbufferFlush r lastStart ret fence s = .ok (ret, s'))

theorem Op.run_sliced {op : Op} (h : AllSliced s) (hsized : op.Sized) : Ensures (op.run s) AllSliced := by
  cases op with
  | boNew handle presumed => exact .ok h
  | ringNew size handle junk => exact .ok (h.ringNew hsized)
  | setParent r parent => exact setParent_sliced h
  | emit r data => exact ringEmit_sliced h
  | reloc r x => exact emitReloc_sliced h
  | getCmd r target targetBo submitOffset size type => exact (getCmd_sliced h).mono fun _ hs => hs.1
  | relocRing r target start stop => exact emitRelocRing_sliced h
  | reset r => exact ringReset_sliced h
  | flush r ret fence => exact (ringFlush_sliced h).bind fun p hp => .pure hp

theorem allSliced_of_runs (h : Runs State.Init State.Call s) : AllSliced s := by
  refine Runs.induct (fun s hs => ?_) ?_ h
  · obtain ⟨is2d, rfl⟩ := hs
    rintro r ring ⟨⟩
  · intro s s' hs hcall
    cases hcall with
    | op op hrun hsized => exact Op.run_sliced hs hsized s' hrun
    | markerFlush r lastStart ret fence hrun => exact (flush_sliced hs _ hrun).1

/-- In every run the relocations of a ring are sorted, and a flush hands over with every command the relocations of
    its target ring that are in its range, all of these and no others. -/
theorem reloc_slices (h : Runs State.Init State.Call s) :
    (∀ r ring, s.ring r = some ring → Sorted ring.relocs.rows) ∧
    ∀ r lastStart ret fence, Ensures (msmRingbufferFlush r lastStart ret fence s) fun p => Flushed r lastStart s p.2 := by
  have hall := allSliced_of_runs h
  exact ⟨fun r ring hr => (hall r ring hr).sorted, fun r lastStart ret fence => (flush_sliced hall).mono fun _ hp => hp.2⟩

/-- Two relocations in a target ring, of which the command has the second one. -/
theorem reloc_slices_target : ∃ s p, Runs State.Init State.Call s ∧ msmRingbufferFlush 0 0 0 5 s = .ok p ∧
    (p.2.submits.map fun sub => sub.cmds.map fun cmd => cmd.2.1.length) = [[1, 1]] ∧ Flushed 0 0 s p.2 := by
  have h₀ : Runs State.Init State.Call (initState false) := .init ⟨false, rfl⟩
  have h₁ := h₀.step (.op (.boNew 7 0) rfl trivial)
  have h₂ := h₁.step (.op (.ringNew 64 8 noEntries) rfl (by show 64 < 2 ^ 32; decide))
  have h₃ := h₂.step (.op (.ringNew 64 9 noEntries) rfl (by show 64 < 2 ^ 32; decide))
  have h₄ := h₃.step (.op (.setParent 1 (some 0)) rfl trivial)
  have h₅ := h₄.step (.op (.reloc 1 { bo := 0 }) rfl trivial)
  have h₆ := h₅.step (.op (.reloc 1 { bo := 0 }) rfl trivial)
  have h₇ := h₆.step (.op (.relocRing 0 1 1 2) rfl trivial)
  exact ⟨_, _, h₇, rfl, rfl, (reloc_slices h₇).2 0 0 0 5 _ rfl⟩

end LibDrm.Freedreno
