/-
# `LibDrm.Radeon.Submit` — what a stream hands to the kernel

The kernel gets two chunks, each an address and a length in dwords.  The addresses are
those of the packets and of the table at the time the chunks were filled in, and both can
be moved by a `realloc`:

    write_reloc   fills in the address of the table again
    begin         leaves the address of the packets as it was

Beside the state, `Stream` records what a caller knows of a stream: the dwords that were
written since the last `erase`, and how many of its declared dwords the open section has
still to write.
-/
import LibDrm.Radeon.Domains

namespace LibDrm.Radeon

variable {s s' s'' : State} {b : BoId} {c : CsId} {bo bo' : Bo} {cs cs' : Cs}

/-- What `cs_gem_emit` does before the ioctl. -/
def csSubmission (c : CsId) (s : State) : Except Fault Cs := do
  let cs ← s.getCs c
  let cs ← padPackets cs
  return { cs with ib := { cs.ib with lengthDw := cs.packets.length } }

theorem csEmit_submission {result : Int} : csEmit c result s = csSubmission c s >>= fun cs => do
    let s ← cs.relocsBo.foldlM (emitBo cs.id) s
    let s := s.setCs c { cs with relocsBo := cs.relocsBo.map fun _ => none }
    return (result, { s with csm := { s.csm with readUsed := 0, vramWriteUsed := 0, gartWriteUsed := 0 } }) := by
  unfold csEmit csSubmission
  cases s.getCs c with
  | error e => rfl
  | ok cs =>
      show (padPackets cs >>= _) = ((padPackets cs >>= _) >>= _)
      cases padPackets cs with
      | error e => rfl
      | ok cs => rfl

/-! ## Writing dwords -/

/-- The stream with more dwords. -/
def Cs.wrote (l : List (BitVec 32)) (cs : Cs) : Cs :=
  { cs with
    packets := cs.packets ++ l
    sectionCdw := if cs.sectionNdw ≠ 0 then cs.sectionCdw + l.length else cs.sectionCdw }

theorem wrote_nil : cs.wrote [] = cs := by simp [Cs.wrote]

theorem wrote_wrote {l l' : List (BitVec 32)} : (cs.wrote l).wrote l' = cs.wrote (l ++ l') := by
  simp only [Cs.wrote, List.append_assoc, List.length_append]
  split
  · simp only [Nat.add_assoc]
  · rfl

theorem writeDword_room {dword : BitVec 32} (h : cs.packets.length < cs.packetsSize) :
    writeDword dword cs = .ok (cs.wrote [dword]) := if_pos h

theorem writeWords_room {words : List (BitVec 32)} (h : cs.packets.length + words.length ≤ cs.packetsSize) :
    words.foldlM (fun cs dword => writeDword dword cs) cs = .ok (cs.wrote words) := by
  induction words generalizing cs with
  | nil => exact congrArg Except.ok (wrote_nil).symm
  | cons dword words ih =>
      rw [List.length_cons] at h
      rw [List.foldlM_cons, writeDword_room (by omega)]
      have hroom : (cs.wrote [dword]).packets.length + words.length ≤ (cs.wrote [dword]).packetsSize := by
        simp only [Cs.wrote, List.length_append, List.length_singleton]
        omega
      refine (ih hroom).trans ?_
      rw [wrote_wrote, List.singleton_append]

theorem writeRelocPacket_wrote {i : Nat} :
    Ensures (writeRelocPacket (i * RELOC_SIZE) cs) (· = cs.wrote (relocPacket i)) := by
  have hword : ∀ {cs : Cs} {dword : BitVec 32}, Ensures (writeDword dword cs) (· = cs.wrote [dword]) := by
    intro cs dword
    unfold writeDword
    split
    · exact .ok rfl
    · exact .error
  refine hword.bind ?_
  rintro _ rfl
  exact hword.mono fun _ h => h.trans wrote_wrote

/-- Type 2 packets up to a multiple of 8 dwords. -/
def padding (l : List (BitVec 32)) : List (BitVec 32) := List.replicate ((8 - l.length % 8) % 8) 0x80000000

theorem padded_length (l : List (BitVec 32)) :
    8 ∣ (l ++ padding l).length ∧ l.length ≤ (l ++ padding l).length ∧ (l ++ padding l).length < l.length + 8 := by
  simp only [padding, List.length_append, List.length_replicate]
  omega

theorem padPackets_room (h : (cs.packets ++ padding cs.packets).length ≤ cs.packetsSize) :
    padPackets cs = .ok (cs.wrote (padding cs.packets)) := by
  rw [List.length_append] at h
  have hwords := writeWords_room h
  have hpadding : padding cs.packets = (List.range ((8 - cs.packets.length % 8) % 8)).map fun _ => 0x80000000 := by
    rw [List.map_const', List.length_range, padding]
  rw [hpadding, List.foldlM_map, ← hpadding] at hwords
  exact hwords

/-! ## Runs of sections -/

structure Stream where
  /-- Since the last `erase`; the padding of an `emit` belongs to it. -/
  written : List (BitVec 32) := []
  /-- The dwords that the open section has still to write. -/
  left : Option Nat := none

structure Session where
  state : State
  streams : CsId → Stream

/-- A call, or the count of a space check; the `emit` and the `erase` of its flush callback are calls of their own. -/
inductive Move
  | call (op : Op)
  | count (c : CsId) (newTmp : Option SpaceCheck)

def Move.run : Move → State → Except Fault (Int × State)
  | .call op, s => op.run s
  | .count c newTmp, s => doSpaceCheck c newTmp s

/-- The entry that a relocation refers to. -/
def relocIndex (c : CsId) (b : BoId) (s : State) : Nat :=
  match s.cs c, s.bo b with
  | some cs, some bo => (cs.lookup bo).getD cs.relocs.length
  | _, _ => 0

/-- What is known of the streams after a call that returned `ret`. -/
def Move.note (ret : Int) (s : State) (n : CsId → Stream) : Move → CsId → Stream
  | .call (.create ndw mem) =>
      match (csCreate ndw mem s).1 with
      | some c => Function.update n c {}
      | none => n
  | .call (.csBegin c ndw _) => if ret = 0 then Function.update n c { n c with left := some ndw.toNat } else n
  | .call (.writeDword c dword) =>
      Function.update n c { written := (n c).written ++ [dword], left := (n c).left.map (· - 1) }
  | .call (.writeReloc c b _ _ _ _) =>
      if ret = 0 then
        Function.update n c
          { written := (n c).written ++ relocPacket (relocIndex c b s), left := (n c).left.map (· - 2) }
      else n
  | .call (.csEnd c) => Function.update n c { n c with left := none }
  | .call (.emit c _) => Function.update n c { n c with written := (n c).written ++ padding (n c).written }
  | .call (.erase c) => Function.update n c {}
  | _ => n

/-- Every section writes the dwords that it declared, and streams are emitted and erased between sections. -/
def Move.InSections (n : CsId → Stream) : Move → Prop
  | .call (.writeDword c _) => ∃ k, (n c).left = some (k + 1)
  | .call (.writeReloc c _ _ _ _ _) => ∃ k, (n c).left = some (k + 2)
  | .call (.csEnd c) => (n c).left = none ∨ (n c).left = some 0
  | .call (.emit c _) => (n c).left = none
  | .call (.erase c) => (n c).left = none
  | .call (.spaceCheck _ _) => False
  | .call (.spaceCheckWithBo _ _ _ _ _) => False
  | _ => True

/-- Packets that have to grow stay where they are, and their size in bytes fits in 32 bits. -/
def Cs.GrowsInPlace (ndw : BitVec 32) (mem : Nat → Option Nat) (cs : Cs) : Prop :=
  cs.ndw < cs.packets.length + ndw.toNat →
    mem 0 = some cs.packetsAt ∧ cs.packets.length + ndw.toNat ≤ 2 ^ 30 - 0x400

/-- No section that begins moves the packets. -/
def Move.Steady (s : State) : Move → Prop
  | .call (.csBegin c ndw mem) => ∀ cs, s.cs c = some cs → cs.sectionNdw = 0 → cs.GrowsInPlace ndw mem
  | _ => True

namespace Session

def Init (t : Session) : Prop := t.state.Init ∧ ∀ c, t.streams c = {}

def Step (t t' : Session) : Prop := ∃ (move : Move) (ret : Int), move.run t.state = .ok (ret, t'.state) ∧
  move.InSections t.streams ∧ t'.streams = move.note ret t.state t.streams

def SteadyStep (t t' : Session) : Prop := ∃ (move : Move) (ret : Int), move.run t.state = .ok (ret, t'.state) ∧
  move.InSections t.streams ∧ t'.streams = move.note ret t.state t.streams ∧ move.Steady t.state

end Session

/-- The chunks describe the packets, which are `l`, and the table, and both are inside their memory. -/
structure Cs.Describes (l : List (BitVec 32)) (cs : Cs) : Prop where
  packets : cs.packets = l
  whole : 8 ∣ cs.packets.length
  inside : cs.packets.length ≤ cs.packetsSize
  ib : cs.ib = ⟨cs.packetsAt, cs.packets.length⟩
  table : cs.relocs.length ≤ cs.nrelocs
  relocChunk : cs.relocChunk = ⟨cs.relocsAt, cs.relocs.length * RELOC_SIZE⟩

/-! ## What holds in a run -/

/-- The chunk of the table is up to date. -/
structure Cs.Tabled (cs : Cs) : Prop where
  table : cs.relocs.length ≤ cs.nrelocs
  relocChunk : cs.relocChunk = ⟨cs.relocsAt, cs.relocs.length * RELOC_SIZE⟩

/-- There is room for what the section has to write, and for padding since the size is a multiple of 8. -/
structure StreamOk (n : Stream) (cs : Cs) : Prop extends Cs.Tabled cs where
  packets : cs.packets = n.written
  room : cs.packets.length + n.left.getD 0 ≤ cs.ndw
  size : cs.packetsSize = cs.ndw
  whole : 8 ∣ cs.ndw
  ib : cs.ib.data = cs.packetsAt

def StreamsOk (n : CsId → Stream) (s : State) : Prop := ∀ c cs, s.cs c = some cs → StreamOk (n c) cs

/-- The streams are the same, but for the buffers of the next space check. -/
def SameStreams (s s' : State) : Prop := ∀ c cs', s'.cs c = some cs' → ∃ cs bos, s.cs c = some cs ∧ cs' = cs.withBos bos

theorem SameStreams.of_eq (h : s'.cs = s.cs) : SameStreams s s' := fun _ cs hc => ⟨cs, cs.bos, h ▸ hc, rfl⟩

theorem SameStreams.setCs {bos : List SpaceCheck} (hc : s.cs c = some cs)
    (h : s'.cs = Function.update s.cs c (some (cs.withBos bos))) : SameStreams s s' := by
  intro d cs' hd
  rw [h] at hd
  rcases setCs_cs (s := s) hd with ⟨rfl, rfl⟩ | ⟨-, hd⟩
  · exact ⟨cs, bos, hc, rfl⟩
  · exact ⟨cs', cs'.bos, hd, rfl⟩

theorem Recounted.sameStreams {f : BoId → BitVec 32 → BitVec 32} (h : Recounted f s s') : SameStreams s s' := by
  intro c cs' hc
  obtain ⟨bos, hcs, -⟩ := h.cs c
  rw [hc] at hcs
  obtain ⟨cs, hc₀, rfl⟩ := Option.map_eq_some_iff.mp hcs.symm
  exact ⟨cs, bos, hc₀, rfl⟩

theorem StreamsOk.same {n : CsId → Stream} (h : StreamsOk n s) (hs : SameStreams s s') : StreamsOk n s' := by
  intro c cs' hc
  obtain ⟨cs, bos, hc₀, rfl⟩ := hs c cs' hc
  have hok := h c cs hc₀
  exact ⟨⟨hok.table, hok.relocChunk⟩, hok.packets, hok.room, hok.size, hok.whole, hok.ib⟩

/-- One stream changes, and what is known of it. -/
theorem StreamsOk.update {n : CsId → Stream} {m : Stream} (h : StreamsOk n s)
    (hs : s'.cs = Function.update s.cs c (some cs')) (hok : StreamOk m cs') :
    StreamsOk (Function.update n c m) s' := by
  intro d cs₁ hd
  rw [hs] at hd
  rcases setCs_cs (s := s) hd with ⟨rfl, rfl⟩ | ⟨hdc, hd⟩
  · rwa [Function.update_self]
  · rw [Function.update_of_ne hdc]
    exact h d cs₁ hd

theorem StreamOk.padded {n : Stream} (h : StreamOk n cs) : (cs.packets ++ padding cs.packets).length ≤ cs.packetsSize := by
  obtain ⟨hwhole, -, hless⟩ := padded_length cs.packets
  have hroom := h.room
  have hsize := h.size
  have hndw := h.whole
  omega

/-- What is handed to the kernel. -/
theorem StreamOk.submission {n : Stream} (h : StreamOk n cs) (hc : s.cs c = some cs) : csSubmission c s =
    .ok { cs.wrote (padding cs.packets) with ib := ⟨cs.packetsAt, (cs.packets ++ padding cs.packets).length⟩ } := by
  unfold csSubmission
  rw [show s.getCs c = .ok cs by simp [State.getCs, hc]]
  show (padPackets cs >>= _) = _
  rw [padPackets_room h.padded, ← h.ib]
  rfl

theorem StreamOk.describes {n : Stream} (h : StreamOk n cs) : Cs.Describes (n.written ++ padding n.written)
    { cs.wrote (padding cs.packets) with ib := ⟨cs.packetsAt, (cs.packets ++ padding cs.packets).length⟩ } where
  packets := by rw [← h.packets]; rfl
  whole := (padded_length cs.packets).1
  inside := h.padded
  ib := rfl
  table := h.table
  relocChunk := h.relocChunk

/-! ## The calls -/

theorem csBegin_streams {n : CsId → Stream} {ndw : BitVec 32} {mem : Nat → Option Nat} (h : StreamsOk n s)
    (hsteady : (Move.call (.csBegin c ndw mem)).Steady s) : Ensures (csBegin c ndw mem s) fun r =>
      StreamsOk ((Move.call (.csBegin c ndw mem)).note r.1 s n) r.2 ∧ r.1 ≠ -ENOMEM := by
  refine (getCs_spec).bind fun cs hc => ?_
  have hok := h c cs hc
  have hroom := hok.room
  split
  · exact .pure ⟨h, show -EPIPE ≠ -ENOMEM by decide⟩
  · next hsection =>
    have hgrows := hsteady cs hc (not_not.mp hsection)
    dsimp only
    split
    · next hgrow =>
      obtain ⟨hmem, hfits⟩ := hgrows (lt_of_lt_of_le hgrow (Nat.mod_le _ _))
      have hbytes : cs.packets.length + ndw.toNat + 0x3ff < 2 ^ 32 := by omega
      rw [hmem, Nat.mod_eq_of_lt hbytes]
      refine .pure ⟨h.update rfl ⟨⟨hok.table, hok.relocChunk⟩, hok.packets, ?_, ?_, ?_, hok.ib⟩,
        show (0 : Int) ≠ -ENOMEM by decide⟩
      · show cs.packets.length + ndw.toNat ≤ (cs.packets.length + ndw.toNat + 0x3ff) / 0x400 * 0x400
        omega
      · show 4 * ((cs.packets.length + ndw.toNat + 0x3ff) / 0x400 * 0x400) % 2 ^ 32 / 4 =
          (cs.packets.length + ndw.toNat + 0x3ff) / 0x400 * 0x400
        omega
      · exact Dvd.dvd.mul_left (by decide) _
    · next hgrow =>
      have hfits : cs.packets.length + ndw.toNat ≤ cs.ndw := by
        by_contra hlt
        obtain ⟨-, hfits⟩ := hgrows (Nat.lt_of_not_le hlt)
        rw [Nat.mod_eq_of_lt (by omega)] at hgrow
        exact hgrow (Nat.lt_of_not_le hlt)
      exact .pure ⟨h.update rfl ⟨⟨hok.table, hok.relocChunk⟩, hok.packets, hfits, hok.size, hok.whole, hok.ib⟩,
        show (0 : Int) ≠ -ENOMEM by decide⟩

/-- A section that cannot begin for want of memory counts as open. -/
theorem csBegin_noMemory {ndw : BitVec 32} {mem : Nat → Option Nat} {n : Nat} (hc : s.cs c = some cs)
    (hroom : cs.packets.length + n ≤ cs.ndw) (h : csBegin c ndw mem s = .ok (-ENOMEM, s')) :
    ¬ cs.GrowsInPlace ndw mem ∧ ∀ ndw' mem', csBegin c ndw' mem' s' = .ok (-EPIPE, s') := by
  unfold csBegin at h
  rw [show s.getCs c = .ok cs by simp [State.getCs, hc]] at h
  obtain ⟨cs₀, hcs₀, h⟩ := exists_of_bind_ok h
  cases hcs₀
  split at h
  · cases h
  dsimp only at h
  split at h
  · next hgrow =>
    have hlt : cs.ndw < cs.packets.length + ndw.toNat := lt_of_lt_of_le hgrow (Nat.mod_le _ _)
    split at h
    · next hmem =>
      cases h
      refine ⟨fun hgrows => ?_, fun ndw' mem' => ?_⟩
      · rw [(hgrows hlt).1] at hmem
        cases hmem
      · unfold csBegin
        rw [State.getCs, setCs_cs_self]
        exact if_pos (show ndw.toNat ≠ 0 by omega)
    · cases h
  · cases h

theorem csEnd_streams {n : CsId → Stream} (h : StreamsOk n s) : Ensures (csEnd c s) fun r =>
    StreamsOk (Function.update n c { n c with left := none }) r.2 := by
  refine (getCs_spec).bind fun cs hc => ?_
  have hok := h c cs hc
  have hended : ∀ ndw, StreamOk { n c with left := none } { cs with sectionNdw := ndw } := fun ndw =>
    ⟨⟨hok.table, hok.relocChunk⟩, hok.packets, (Nat.le_add_right _ _).trans hok.room, hok.size, hok.whole, hok.ib⟩
  split
  · exact .pure (h.update (Function.update_eq_self_iff.mpr hc.symm).symm (hended cs.sectionNdw))
  · split
    · exact .pure (h.update rfl (hended 0))
    · exact .pure (h.update rfl (hended 0))

/-- Dwords that the section has declared. -/
theorem StreamOk.wrote {n : Stream} {l : List (BitVec 32)} {k : Nat} (h : StreamOk n cs)
    (hleft : n.left = some (k + l.length)) :
    StreamOk { written := n.written ++ l, left := n.left.map (· - l.length) } (cs.wrote l) where
  table := h.table
  relocChunk := h.relocChunk
  packets := by rw [← h.packets]; rfl
  room := by
    have hroom := h.room
    rw [hleft] at hroom ⊢
    simp only [Cs.wrote, List.length_append, Option.map_some, Option.getD_some] at hroom ⊢
    omega
  size := h.size
  whole := h.whole
  ib := h.ib

theorem StreamOk.has_room {n : Stream} {k m : Nat} (h : StreamOk n cs) (hleft : n.left = some (k + m)) :
    cs.packets.length + m ≤ cs.packetsSize := by
  have hroom := h.room
  rw [hleft, Option.getD_some] at hroom
  have hsize := h.size
  omega

theorem writeDword_streams {n : CsId → Stream} {dword : BitVec 32} {k : Nat} (h : StreamsOk n s)
    (hleft : (n c).left = some (k + 1)) : Ensures ((Op.writeDword c dword).run s) fun r =>
      StreamsOk ((Move.call (.writeDword c dword)).note r.1 s n) r.2 := by
  refine (getCs_spec).bind fun cs hc => ?_
  have hok := h c cs hc
  rw [writeDword_room (hok.has_room hleft)]
  exact .ok (h.update rfl (hok.wrote (l := [dword]) hleft))

/-- Neither the packets nor their memory change. -/
structure SamePackets (cs cs' : Cs) : Prop where
  packets : cs'.packets = cs.packets
  packetsAt : cs'.packetsAt = cs.packetsAt
  size : cs'.packetsSize = cs.packetsSize
  ndw : cs'.ndw = cs.ndw
  ib : cs'.ib = cs.ib

theorem StreamOk.retabled {n : Stream} (h : StreamOk n cs) (hs : SamePackets cs cs') (ht : cs'.Tabled) : StreamOk n cs' where
  toTabled := ht
  packets := hs.packets.trans h.packets
  room := by
    rw [hs.packets, hs.ndw]
    exact h.room
  size := by rw [hs.size, hs.ndw, h.size]
  whole := by
    rw [hs.ndw]
    exact h.whole
  ib := by rw [hs.ib, hs.packetsAt, h.ib]

theorem growRelocs_tabled {mem : Nat → Option Nat} (ht : cs.Tabled) (h : growRelocs mem cs = some cs') :
    SamePackets cs cs' ∧ cs'.relocs = cs.relocs ∧ cs'.relocs.length < cs'.nrelocs ∧
      cs'.relocChunk = ⟨cs'.relocsAt, cs'.relocs.length * RELOC_SIZE⟩ := by
  unfold growRelocs at h
  split at h
  · split at h
    · cases h
      refine ⟨⟨rfl, rfl, rfl, rfl, rfl⟩, rfl, Nat.lt_succ_of_le ht.table, ?_⟩
      rw [ht.relocChunk]
    · cases h
  · next hlt =>
    cases h
    exact ⟨⟨rfl, rfl, rfl, rfl, rfl⟩, rfl, Nat.lt_of_not_le hlt, ht.relocChunk⟩

/-- What a relocation does to its stream: the table changes, and then the packet is written. -/
def Relocates (c : CsId) (i : Nat) (cs : Cs) (s s' : State) : Prop :=
  ∃ cs', SamePackets cs cs' ∧ cs'.Tabled ∧ s'.cs = Function.update s.cs c (some (cs'.wrote (relocPacket i)))

theorem newReloc_relocates {readDomain writeDomain flags : BitVec 32} {mem : Nat → Option Nat} (hc : s.cs c = some cs)
    (ht : cs.Tabled) : Ensures (newReloc c b readDomain writeDomain flags mem s) fun r => r.1 ≠ 0 ∧ r.2 = s ∨
      r.1 = 0 ∧ Relocates c cs.relocs.length cs s r.2 := by
  unfold newReloc
  rw [show s.getCs c = .ok cs by simp [State.getCs, hc]]
  refine (show Ensures (s.getBo b >>= _) _ from (getBo_spec).bind fun bo _ => ?_)
  split
  · exact .pure (.inl ⟨neg_ENOMEM_ne_zero, rfl⟩)
  · next cs₁ hgrow =>
    obtain ⟨hsame, hrelocs, hlt, hchunk⟩ := growRelocs_tabled ht hgrow
    split
    · exact .error
    · refine (boRef_spec).bind ?_
      rintro _ ⟨bo₁, -, rfl⟩
      rw [getBo_setBo]
      refine (show Ensures (Except.ok _ >>= _) _ from ?_)
      refine (writeRelocPacket_wrote).bind ?_
      rintro _ rfl
      rw [← hrelocs]
      refine .pure (.inr ⟨rfl, _, ⟨?_, ?_, ?_, ?_, ?_⟩, ⟨?_, ?_⟩, rfl⟩)
      · exact hsame.packets
      · exact hsame.packetsAt
      · exact hsame.size
      · exact hsame.ndw
      · exact hsame.ib
      · show (cs₁.relocs ++ [_]).length ≤ cs₁.nrelocs
        rw [List.length_append, List.length_singleton]
        exact hlt
      · show Chunk.mk cs₁.relocChunk.data (cs₁.relocChunk.lengthDw + RELOC_SIZE) =
          ⟨cs₁.relocsAt, (cs₁.relocs ++ [_]).length * RELOC_SIZE⟩
        rw [hchunk, List.length_append, List.length_singleton, Nat.succ_mul]

theorem relocIndex_eq (hc : s.cs c = some cs) (hb : s.bo b = some bo) :
    relocIndex c b s = (cs.lookup bo).getD cs.relocs.length := by
  simp only [relocIndex, hc, hb]

theorem writeReloc_relocates {readDomain writeDomain flags : BitVec 32} {mem : Nat → Option Nat} (hc : s.cs c = some cs)
    (ht : cs.Tabled) : Ensures (writeReloc c b readDomain writeDomain flags mem s) fun r => r.1 ≠ 0 ∧ r.2 = s ∨
      r.1 = 0 ∧ Relocates c (relocIndex c b s) cs s r.2 := by
  unfold writeReloc
  rw [show s.getCs c = .ok cs by simp [State.getCs, hc]]
  refine (show Ensures (s.getBo b >>= _) _ from (getBo_spec).bind fun bo hb => (assert_spec).bind fun _ _ => ?_)
  split
  · exact .pure (.inl ⟨neg_EINVAL_ne_zero, rfl⟩)
  split
  · exact .pure (.inl ⟨neg_EINVAL_ne_zero, rfl⟩)
  split
  · exact .pure (.inl ⟨neg_EINVAL_ne_zero, rfl⟩)
  rw [relocIndex_eq hc hb]
  split
  · next i hfind =>
    refine (deref_spec).bind fun reloc hi => ?_
    split
    · exact .pure (.inl ⟨neg_EINVAL_ne_zero, rfl⟩)
    · next reloc' hreloc =>
      refine (writeRelocPacket_wrote).bind ?_
      rintro _ rfl
      rw [show cs.lookup bo = some i from hfind]
      refine .pure (.inr ⟨rfl, { cs with relocs := cs.relocs.set i (updateFlags flags reloc') },
        ⟨rfl, rfl, rfl, rfl, rfl⟩, ⟨?_, ?_⟩, rfl⟩)
      · rw [List.length_set]
        exact ht.table
      · rw [List.length_set]
        exact ht.relocChunk
  · next hfind =>
    rw [show cs.lookup bo = none from hfind]
    exact newReloc_relocates hc ht

theorem writeReloc_streams {n : CsId → Stream} {readDomain writeDomain flags : BitVec 32} {mem : Nat → Option Nat}
    {k : Nat} (h : StreamsOk n s) (hleft : (n c).left = some (k + 2)) :
    Ensures (writeReloc c b readDomain writeDomain flags mem s) fun r =>
      StreamsOk ((Move.call (.writeReloc c b readDomain writeDomain flags mem)).note r.1 s n) r.2 := by
  cases hc : s.cs c with
  | none =>
      unfold writeReloc
      rw [show s.getCs c = .error .badPointer by simp [State.getCs, hc]]
      exact .error
  | some cs =>
      have hok := h c cs hc
      refine (writeReloc_relocates hc hok.toTabled).mono ?_
      rintro ⟨ret, s'⟩ (⟨hret, hs⟩ | ⟨hret, cs', hsame, htable, hs⟩)
      · cases hs
        simpa only [Move.note, if_neg hret] using h
      · simp only [Move.note, if_pos hret]
        exact h.update hs ((hok.retabled hsame htable).wrote (l := relocPacket _) hleft)

theorem csEmit_streams {n : CsId → Stream} {result : Int} (h : StreamsOk n s) (hleft : (n c).left = none) :
    Ensures (csEmit c result s) fun r => StreamsOk ((Move.call (.emit c result)).note r.1 s n) r.2 := by
  rw [csEmit_submission]
  cases hc : s.cs c with
  | none =>
      unfold csSubmission
      rw [show s.getCs c = .error .badPointer by simp [State.getCs, hc]]
      exact .error
  | some cs =>
      have hok := h c cs hc
      have hd := hok.describes
      rw [hok.submission hc]
      refine (emitBos_spec retireAll_cs).bind ?_
      rintro s₁ ⟨hs₁, -⟩
      refine .pure (h.update (congrArg (Function.update · c _) hs₁) ⟨⟨hd.table, hd.relocChunk⟩, hd.packets, ?_, hok.size,
        hok.whole, rfl⟩)
      show (cs.packets ++ padding cs.packets).length + (n c).left.getD 0 ≤ cs.ndw
      rw [hleft, ← hok.size]
      exact hok.padded

theorem csErase_streams {n : CsId → Stream} (h : StreamsOk n s) :
    Ensures (csErase c s) (StreamsOk (Function.update n c {})) := by
  refine (getCs_spec).bind fun cs hc => ?_
  have hok := h c cs hc
  rw [eraseBos_eq]
  refine (retireAll_cs).bind fun s₁ hs₁ => ?_
  refine .pure (h.update (congrArg (Function.update · c _) hs₁)
    ⟨⟨Nat.zero_le _, ?_⟩, rfl, Nat.zero_le _, hok.size, hok.whole, hok.ib⟩)
  show Chunk.mk cs.relocChunk.data 0 = ⟨cs.relocsAt, 0 * RELOC_SIZE⟩
  rw [hok.relocChunk, Nat.zero_mul]

theorem csCreate_cases (ndw : Nat) (mem : Nat → Option Nat) (s : State) : ∃ o s', csCreate ndw mem s = (o, s') ∧
    (o = none ∧ s'.cs = s.cs ∨ ∃ c cs, o = some c ∧ s'.cs = Function.update s.cs c (some cs) ∧ StreamOk {} cs) := by
  unfold csCreate
  split
  · exact ⟨_, _, rfl, .inl ⟨rfl, rfl⟩⟩
  split
  · dsimp only
    split
    · exact ⟨_, _, rfl, .inr ⟨_, _, rfl, rfl, ⟨⟨Nat.zero_le _, rfl⟩, rfl, Nat.zero_le _, rfl,
        show 8 ∣ 64 * 1024 / 4 by decide, rfl⟩⟩⟩
    · exact ⟨_, _, rfl, .inl ⟨rfl, rfl⟩⟩
  · exact ⟨_, _, rfl, .inl ⟨rfl, rfl⟩⟩

theorem csCreate_streams {n : CsId → Stream} {ndw : Nat} {mem : Nat → Option Nat} (h : StreamsOk n s) :
    StreamsOk ((Move.call (.create ndw mem)).note 0 s n) (csCreate ndw mem s).2 := by
  obtain ⟨o, s', hcreate, ⟨rfl, hs⟩ | ⟨c, cs, rfl, hs, hok⟩⟩ := csCreate_cases ndw mem s
  · simp only [Move.note, hcreate]
    exact h.same (.of_eq hs)
  · simp only [Move.note, hcreate]
    exact h.update hs hok

theorem csDestroy_streams {n : CsId → Stream} (h : StreamsOk n s) : Ensures (csDestroy c s) (StreamsOk n) := by
  refine (getCs_spec).bind fun cs hc => .pure fun d cs₁ hd => ?_
  rcases eq_or_ne d c with rfl | hdc
  · simp at hd
  · exact h d cs₁ (by simpa [hdc] using hd)

theorem doSpaceCheck_streams {newTmp : Option SpaceCheck} :
    Ensures (doSpaceCheck c newTmp s) fun r => SameStreams s r.2 := by
  refine (doSpaceCheck_spec).mono ?_
  rintro r ⟨cs, -, ⟨-, h, -⟩ | ⟨-, -, -, h⟩ | ⟨-, l, z, -, -, h, -⟩⟩
  · exact h.sameStreams
  · rw [h]
    exact .of_eq rfl
  · exact h.sameStreams

theorem spaceAddPersistentBo_streams {readDomains writeDomain : BitVec 32} :
    Ensures (spaceAddPersistentBo c b readDomains writeDomain s) (SameStreams s) := by
  refine (getCs_spec).bind fun cs hc => ?_
  split
  · exact .pure (.of_eq rfl)
  · refine (boRef_spec).bind ?_
    rintro _ ⟨bo, hb, rfl⟩
    exact (assert_spec).bind fun _ _ => .pure (.setCs hc rfl)

theorem spaceResetBos_streams : Ensures (spaceResetBos c s) (SameStreams s) := by
  refine (getCs_spec).bind fun cs hc => ?_
  have hloop : Ensures (cs.bos.foldlM (fun s sc => boUnref sc.bo s) s) fun s₁ => s₁.cs = s.cs :=
    Ensures.foldlM rfl fun s₁ sc hs₁ => (boUnref_still).mono fun s₂ hs₂ => hs₂.2.trans hs₁
  exact hloop.bind fun s₁ hs₁ => .pure (.setCs hc (congrArg (Function.update · c _) hs₁))

theorem Move.run_streams {n : CsId → Stream} {move : Move} (h : StreamsOk n s) (hin : move.InSections n)
    (hsteady : move.Steady s) : Ensures (move.run s) fun r => StreamsOk (move.note r.1 s n) r.2 := by
  have hsame : ∀ {x : Except Fault State}, Ensures x (SameStreams s) →
      Ensures (x >>= fun s' => pure ((0 : Int), s')) fun r => StreamsOk n r.2 :=
    fun hx => hx.bind fun _ hs => .pure (h.same hs)
  cases move with
  | count c newTmp => exact (doSpaceCheck_streams).mono fun _ hs => h.same hs
  | call op =>
      cases op with
      | boOpen handle size isStatic => exact .ok (h.same (.of_eq rfl))
      | boRef b =>
          refine hsame (boRef_spec.mono ?_)
          rintro _ ⟨bo, -, rfl⟩
          exact .of_eq rfl
      | boUnref b => exact hsame (boUnref_still.mono fun _ hs => .of_eq hs.2)
      | create ndw mem => exact .ok (csCreate_streams h)
      | csBegin c ndw mem => exact (csBegin_streams h hsteady).mono fun _ hr => hr.1
      | writeDword c dword =>
          obtain ⟨k, hleft⟩ := hin
          exact writeDword_streams h hleft
      | csEnd c => exact csEnd_streams h
      | writeReloc c b readDomain writeDomain flags mem =>
          obtain ⟨k, hleft⟩ := hin
          exact writeReloc_streams h hleft
      | emit c result => exact csEmit_streams h hin
      | erase c => exact (csErase_streams h).bind fun _ hs => .pure hs
      | destroy c => exact (csDestroy_streams h).bind fun _ hs => .pure hs
      | addPersistentBo c b readDomains writeDomain => exact hsame spaceAddPersistentBo_streams
      | resetBos c => exact hsame spaceResetBos_streams
      | spaceCheck c result => exact hin.elim
      | spaceCheckWithBo c b readDomains writeDomain result => exact hin.elim

theorem streamsOk_of_runs {t : Session} (h : Runs Session.Init Session.SteadyStep t) : StreamsOk t.streams t.state := by
  induction h with
  | init h =>
      obtain ⟨⟨vramLimit, gartLimit, hs⟩, -⟩ := h
      intro c cs hc
      rw [hs] at hc
      cases hc
  | @step t t' _ hstep ih =>
      obtain ⟨move, ret, hrun, hin, hnote, hsteady⟩ := hstep
      rw [hnote]
      exact Move.run_streams ih hin hsteady (ret, t'.state) hrun

/-- While sections only grow the packets in place: between sections the chunks describe what was written and the
    padding, inside a section there is room for the dwords that it declared, and no section fails to begin for want
    of memory.  One that does leaves the stream unable to begin another. -/
theorem submission_describes {t : Session} (h : Runs Session.Init Session.SteadyStep t) {c : CsId} {cs : Cs}
    (hc : t.state.cs c = some cs) :
    ((t.streams c).left = none → Returns (csSubmission c t.state) fun cs' =>
      cs'.Describes ((t.streams c).written ++ padding (t.streams c).written)) ∧
    (∀ k m, (t.streams c).left = some (k + m) → ∀ words : List (BitVec 32), words.length = m →
      words.foldlM (fun cs dword => writeDword dword cs) cs = .ok (cs.wrote words)) ∧
    ∀ ndw mem s', csBegin c ndw mem t.state = .ok (-ENOMEM, s') →
      ¬ cs.GrowsInPlace ndw mem ∧ ∀ ndw' mem', csBegin c ndw' mem' s' = .ok (-EPIPE, s') := by
  have hok := streamsOk_of_runs h c cs hc
  refine ⟨fun _ => ⟨_, hok.submission hc, hok.describes⟩, ?_, ?_⟩
  · rintro k m hleft words rfl
    exact writeWords_room (hok.has_room hleft)
  · intro ndw mem s' hbegin
    exact csBegin_noMemory hc hok.room hbegin

/-! ## Two runs -/

/-- The session after a call. -/
def Session.after (move : Move) (ret : Int) (s' : State) (t : Session) : Session := ⟨s', move.note ret t.state t.streams⟩

def Session.start : Session := ⟨initState 0x10000 0x10000, fun _ => {}⟩

theorem Session.start_init : Session.start.Init := ⟨⟨_, _, rfl⟩, fun _ => rfl⟩

theorem Session.steadySteps {t : Session} (move : Move) {ret : Int} (h : Runs Session.Init Session.SteadyStep t)
    (hrun : move.run t.state = .ok (ret, s')) (hin : move.InSections t.streams) (hsteady : move.Steady t.state) :
    Runs Session.Init Session.SteadyStep (t.after move ret s') := h.step ⟨move, ret, hrun, hin, rfl, hsteady⟩

theorem Session.steps {t : Session} (move : Move) {ret : Int} (h : Runs Session.Init Session.Step t)
    (hrun : move.run t.state = .ok (ret, s')) (hin : move.InSections t.streams) :
    Runs Session.Init Session.Step (t.after move ret s') := h.step ⟨move, ret, hrun, hin, rfl⟩

theorem Session.SteadyStep.step {t t' : Session} (h : Session.SteadyStep t t') : Session.Step t t' := by
  obtain ⟨move, ret, hrun, hin, hnote, -⟩ := h
  exact ⟨move, ret, hrun, hin, hnote⟩

/-- A section that writes what it declared. -/
theorem Session.writes {R : Session → Session → Prop} (hR : ∀ t t', Session.SteadyStep t t' → R t t') {t : Session}
    (words : List (BitVec 32)) (k : Nat) (h : Runs Session.Init R t) (hc : t.state.cs c = some cs)
    (hroom : cs.packets.length + words.length ≤ cs.packetsSize)
    (hleft : (t.streams c).left = some (k + words.length)) : ∃ t', Runs Session.Init R t' ∧
      t'.state.cs c = some (cs.wrote words) ∧ (t'.streams c).left = some k ∧
      (t'.streams c).written = (t.streams c).written ++ words := by
  induction words generalizing t cs with
  | nil => exact ⟨t, h, by rw [wrote_nil]; exact hc, hleft, (List.append_nil _).symm⟩
  | cons dword words ih =>
      rw [List.length_cons] at hroom
      have hrun : (Move.call (.writeDword c dword)).run t.state = .ok (0, t.state.setCs c (cs.wrote [dword])) := by
        show (t.state.getCs c >>= fun cs => writeDword dword cs >>= fun cs => pure ((0 : Int), t.state.setCs c cs)) = _
        rw [show t.state.getCs c = .ok cs by simp [State.getCs, hc]]
        show (writeDword dword cs >>= _) = _
        rw [writeDword_room (by omega)]
        rfl
      have hstep : Session.SteadyStep t (t.after (.call (.writeDword c dword)) 0 (t.state.setCs c (cs.wrote [dword]))) :=
        ⟨_, _, hrun, ⟨k + words.length, hleft⟩, rfl, trivial⟩
      obtain ⟨t', h', hc', hleft', hwritten'⟩ := ih (h.step (hR _ _ hstep)) setCs_cs_self
        (by
          simp only [Cs.wrote, List.length_append, List.length_singleton]
          omega)
        (by
          simp only [Session.after, Move.note, Function.update_self, hleft]
          rfl)
      refine ⟨t', h', by rw [hc', wrote_wrote, List.singleton_append], hleft', ?_⟩
      rw [hwritten']
      simp only [Session.after, Move.note, Function.update_self, List.append_assoc, List.singleton_append]

theorem csEnd_packets (hc : s.cs c = some cs) : ∃ ret s', csEnd c s = .ok (ret, s') ∧
    ∃ cs', s'.cs c = some cs' ∧ cs'.ib.data = cs.ib.data ∧ cs'.packetsAt = cs.packetsAt ∧
      cs'.packetsSize = cs.packetsSize := by
  unfold csEnd
  rw [show s.getCs c = .ok cs by simp [State.getCs, hc]]
  simp only [bind, Except.bind]
  split
  · exact ⟨_, _, rfl, cs, hc, rfl, rfl, rfl⟩
  · split
    · exact ⟨_, _, rfl, _, setCs_cs_self, rfl, rfl, rfl⟩
    · exact ⟨_, _, rfl, _, setCs_cs_self, rfl, rfl, rfl⟩

/-- A relocation, and then a section for which the packets grow where they are. -/
theorem submission_describes_grown : ∃ t cs, Runs Session.Init Session.SteadyStep t ∧ t.state.cs 0 = some cs ∧
    cs.packetsSize = 17408 ∧ (t.streams 0).written = relocPacket 0 ++ List.replicate 16385 0 ∧
    Returns (csSubmission 0 t.state) fun cs' =>
      cs'.Describes ((t.streams 0).written ++ padding (t.streams 0).written) := by
  have h₁ := Session.steadySteps (.call (.boOpen 7 4096 false)) (.init Session.start_init) rfl trivial trivial
  have h₂ := Session.steadySteps (.call (.create 16 plenty)) h₁ rfl trivial trivial
  have h₃ := Session.steadySteps (.count 0 (some ⟨0, 4, 0, 0⟩)) h₂ rfl trivial trivial
  have h₄ := Session.steadySteps (.call (.csBegin 0 2 plenty)) h₃ rfl trivial (by
    rintro cs ⟨⟩ -
    exact fun h => absurd h (by decide))
  have h₅ := Session.steadySteps (.call (.writeReloc 0 0 4 0 0 plenty)) h₄ rfl ⟨0, rfl⟩ trivial
  have h₆ := Session.steadySteps (.call (.csEnd 0)) h₅ rfl (.inr rfl) trivial
  have h₇ := Session.steadySteps (.call (.csBegin 0 16385 fun _ => some 1)) h₆ rfl trivial (by
    rintro cs ⟨⟩ - -
    exact ⟨rfl, by decide⟩)
  have hbegun : ∃ t cs, Runs Session.Init Session.SteadyStep t ∧ t.state.cs 0 = some cs ∧ cs.packets.length = 2 ∧
      cs.packetsSize = 17408 ∧ (t.streams 0).left = some 16385 ∧ (t.streams 0).written = relocPacket 0 :=
    ⟨_, _, h₇, rfl, rfl, by decide, by decide, rfl⟩
  obtain ⟨t₇, cs, h₇, hc₇, hpackets, hsize, hleft₇, hwritten₇⟩ := hbegun
  obtain ⟨t₈, h₈, hc₈, hleft₈, hwritten₈⟩ := Session.writes (fun _ _ => id) (List.replicate 16385 0) 0
    h₇ hc₇ (by rw [hpackets, hsize, List.length_replicate]; decide) (by rw [hleft₇, List.length_replicate])
  obtain ⟨ret, s₉, hend, cs₉, hc₉, -, -, hsize₉⟩ := csEnd_packets hc₈
  have h₉ := Session.steadySteps (.call (.csEnd 0)) h₈ hend (.inr hleft₈) trivial
  refine ⟨_, cs₉, h₉, hc₉, hsize₉.trans hsize, ?_, (submission_describes h₉ hc₉).1 ?_⟩
  · simp only [Session.after, Move.note, Function.update_self]
    rw [hwritten₈, hwritten₇]
  · simp only [Session.after, Move.note, Function.update_self]

theorem csSubmission_addresses (hc : s.cs c = some cs) :
    Ensures (csSubmission c s) fun cs' => cs'.ib.data = cs.ib.data ∧ cs'.packetsAt = cs.packetsAt := by
  refine (getCs_spec).bind fun cs₀ hc₀ => (padPackets_spec).bind ?_
  cases hc.symm.trans hc₀
  rintro _ ⟨packets, n, rfl⟩
  exact .pure ⟨rfl, rfl⟩

/-- Packets that grow elsewhere: the chunk keeps the address that they had.  And without memory to grow, no other
    section can begin. -/
theorem submission_describes_moved :
    (∃ t, Runs Session.Init Session.Step t ∧ (t.streams 0).left = none ∧
      ¬ Returns (csSubmission 0 t.state) fun cs' =>
        cs'.Describes ((t.streams 0).written ++ padding (t.streams 0).written)) ∧
    ∃ t s', Runs Session.Init Session.Step t ∧ csBegin 0 16385 (fun _ => none) t.state = .ok (-ENOMEM, s') ∧
      csBegin 0 1 plenty s' = .ok (-EPIPE, s') := by
  have h₁ := Session.steps (.call (.create 16 plenty)) (.init Session.start_init) rfl trivial
  refine ⟨?_, _, _, h₁, rfl, rfl⟩
  have h₂ := Session.steps (.call (.csBegin 0 16385 fun _ => some 7)) h₁ rfl trivial
  have hbegun : ∃ t cs, Runs Session.Init Session.Step t ∧ t.state.cs 0 = some cs ∧ cs.packets = [] ∧
      cs.packetsSize = 17408 ∧ cs.ib.data = 1 ∧ cs.packetsAt = 7 ∧ (t.streams 0).left = some 16385 :=
    ⟨_, _, h₂, rfl, rfl, by decide, rfl, rfl, by decide⟩
  obtain ⟨t₂, cs, h₂, hc₂, hpackets, hsize, hdata, hat, hleft₂⟩ := hbegun
  obtain ⟨t₃, h₃, hc₃, hleft₃, -⟩ := Session.writes (fun _ _ => Session.SteadyStep.step) (List.replicate 16385 0) 0
    h₂ hc₂ (by rw [hpackets, hsize, List.length_replicate]; decide) (by rw [hleft₂, List.length_replicate])
  obtain ⟨ret, s₄, hend, cs₄, hc₄, hdata₄, hat₄, -⟩ := csEnd_packets hc₃
  refine ⟨_, Session.steps (.call (.csEnd 0)) h₃ hend (.inr hleft₃), ?_, ?_⟩
  · simp only [Session.after, Move.note, Function.update_self]
  · rintro ⟨cs', hsub, hdescribes⟩
    obtain ⟨hdata', hat'⟩ := csSubmission_addresses hc₄ cs' hsub
    have hib : cs'.ib.data = cs'.packetsAt := by rw [hdescribes.ib]
    rw [hdata', hat', hdata₄, hat₄] at hib
    change cs.ib.data = cs.packetsAt at hib
    rw [hdata, hat] at hib
    exact absurd hib (by decide)

end LibDrm.Radeon
