/-
# `LibDrm.Freedreno.Flush` — what successive flushes submit

A flush submits the dwords from `last_start` to `cur`.  Only one of the two backends
moves `last_start`:

    kgsl   ring->last_start = ring->cur, after the submit
    msm    nobody does

So with msm every flush submits the ring from its start.
-/
import Mathlib.Data.List.DropRight
import LibDrm.Freedreno.Submit

namespace LibDrm.Freedreno

variable {s s' : State} {r : RingId} {b : MsmBoId} {ring ring' : MsmRing} {bo bo' : MsmBo} {base base' : Ringbuffer}

/-! ## Calls on a ring -/

/-- Dwords are written, and from time to time the ring is flushed; `timestamp` comes from the kernel. -/
inductive RingCall
  | emit (data : Word)
  | flush (timestamp : Word)
  deriving DecidableEq, Repr

def RingCall.data? : RingCall → Option Word
  | .emit data => some data
  | .flush _ => none

def written (calls : List RingCall) : List Word := calls.filterMap RingCall.data?

/-- What was written before the last flush. -/
def flushed (calls : List RingCall) : List Word := written (calls.rdropWhile fun call => call.data?.isSome)

/-- Once something is flushed, no other flush follows. -/
def FlushedLast (calls : List RingCall) : Prop :=
  ∀ before timestamp after, calls = before ++ .flush timestamp :: after →
    written before = [] ∨ ∀ call ∈ after, call.data?.isSome

section Calls

variable {calls before after : List RingCall} {data timestamp : Word}

theorem written_emit : written (calls ++ [.emit data]) = written calls ++ [data] := by
  simp [written, RingCall.data?]

theorem written_flush : written (calls ++ [.flush timestamp]) = written calls := by
  simp [written, RingCall.data?]

theorem flushed_emit : flushed (calls ++ [.emit data]) = flushed calls := by
  unfold flushed
  rw [List.rdropWhile_concat_pos _ _ _ rfl]

theorem flushed_flush : flushed (calls ++ [.flush timestamp]) = written calls := by
  unfold flushed
  rw [List.rdropWhile_concat_neg _ _ _ (by simp [RingCall.data?]), written_flush]

theorem flushed_prefix : flushed calls <+: written calls := by
  obtain ⟨after, hafter⟩ := List.rdropWhile_prefix (fun call : RingCall => call.data?.isSome) calls
  exact ⟨written after, by rw [flushed, written, written, ← List.filterMap_append, hafter, written]⟩

/-- What is written before a flush is flushed. -/
theorem written_prefix_flushed (before : List RingCall) (timestamp : Word) (after : List RingCall) :
    written before <+: flushed (before ++ .flush timestamp :: after) := by
  induction after using List.reverseRecOn with
  | nil =>
      rw [flushed_flush]
  | append_singleton after call ih =>
      rw [← List.cons_append, ← List.append_assoc]
      cases call with
      | emit data =>
          rw [flushed_emit]
          exact ih
      | flush timestamp' =>
          rw [flushed_flush]
          exact ih.trans flushed_prefix

theorem flushedLast_of_nil (h : flushed calls = []) : FlushedLast calls := by
  rintro before timestamp after rfl
  have hprefix := written_prefix_flushed before timestamp after
  rw [h, List.prefix_nil] at hprefix
  exact .inl hprefix

theorem flushedLast_emit : FlushedLast (calls ++ [.emit data]) ↔ FlushedLast calls := by
  constructor
  · rintro h before timestamp after rfl
    refine (h before timestamp (after ++ [.emit data]) (by simp)).imp_right fun hall call hcall => ?_
    exact hall call (List.mem_append_left _ hcall)
  · intro h before timestamp after heq
    rcases List.eq_nil_or_concat after with rfl | ⟨after, call, rfl⟩
    · exact .inr (by simp)
    · rw [List.concat_eq_append, ← List.cons_append, ← List.append_assoc] at heq
      obtain ⟨hcalls, hcall⟩ := List.append_inj' heq rfl
      cases hcall
      refine (h before timestamp after hcalls).imp_right fun hall call hmem => ?_
      rw [List.concat_eq_append, List.mem_append, List.mem_singleton] at hmem
      rcases hmem with hmem | rfl
      · exact hall call hmem
      · rfl

theorem flushedLast_flush : FlushedLast (calls ++ [.flush timestamp]) ↔ flushed calls = [] := by
  constructor
  · intro h
    obtain ⟨after, hafter⟩ := List.rdropWhile_prefix (fun call : RingCall => call.data?.isSome) calls
    rcases List.eq_nil_or_concat (calls.rdropWhile fun call => call.data?.isSome) with hnil | ⟨before, call, hcall⟩
    · simp [flushed, hnil, written]
    · have hlast := List.rdropWhile_last_not (fun call : RingCall => call.data?.isSome) calls (by simp [hcall])
      simp only [hcall, List.concat_eq_append, List.getLast_append_singleton] at hlast
      cases call with
      | emit data => exact absurd rfl hlast
      | flush timestamp' =>
          rw [List.concat_eq_append] at hcall
          rw [flushed, hcall, written_flush]
          refine (h before timestamp' (after ++ [.flush timestamp]) ?_).resolve_right fun hall => ?_
          · rw [← hafter, hcall]
            simp
          · exact absurd (hall (.flush timestamp) (by simp)) (by simp [RingCall.data?])
  · intro h before timestamp' after heq
    rcases List.eq_nil_or_concat after with rfl | ⟨after, call, rfl⟩
    · exact .inr (by simp)
    · rw [List.concat_eq_append, ← List.cons_append, ← List.append_assoc] at heq
      obtain ⟨rfl, -⟩ := List.append_inj' heq rfl
      have hprefix := written_prefix_flushed before timestamp' after
      rw [h, List.prefix_nil] at hprefix
      exact .inl hprefix

end Calls

/-! ## The ranges of the two backends -/

/-- A backend; for msm the state of the device before the ring is made, and the handle of its buffer. -/
inductive Backend
  | kgsl
  | msm (s : State) (handle : Word) (junk : Nat → SubmitBo)

/-- The buffer that the ring gets is on no list yet. -/
def Backend.New : Backend → Prop
  | .kgsl => True
  | .msm s _ _ => ∀ t ring, s.ring t = some ring → s.freshBo ∉ ring.submitList

/-- A call on a ring of the 3D pipe of kgsl, with the ranges that were submitted. -/
def kgslCall (s : Ringbuffer × List (List Word)) : RingCall → Except Fault (Ringbuffer × List (List Word))
  | .emit data => do
      let base ← s.1.emit data
      return (base, s.2)
  | .flush timestamp =>
      let (range, base) := kgslRingbufferFlush s.1.lastStart timestamp s.1
      .ok (base, s.2 ++ [range])

def msmCall (r : RingId) (s : State) : RingCall → Except Fault State
  | .emit data => ringEmit r data s
  | .flush fence => do
      let (_, s) ← ringFlush r 0 fence s
      return s

/-- The ranges of the commands that were submitted after the first `n` submits. -/
def rangesFrom (n : Nat) (s : State) : List (List Word) :=
  (s.submits.drop n).flatMap fun sub => sub.cmds.map fun cmd => cmd.2.2

/-- The ranges that the flushes of a new ring submit. -/
def submittedRanges (size : Word) (calls : List RingCall) : Backend → Except Fault (List (List Word))
  | .kgsl => do
      let (_, ranges) ← calls.foldlM kgslCall ({ size := size.toNat }, [])
      return ranges
  | .msm s handle junk => do
      let s' ← calls.foldlM (msmCall s.freshRing) (ringNew size.toNat handle junk s)
      return rangesFrom s.submits.length s'

/-! ## The memory of a ring -/

@[simp] theorem words_length {start n : Nat} : (base.words start n).length = n := by simp [Ringbuffer.words]

theorem words_drop {start n : Nat} : base.words start (n - start) = (base.words 0 n).drop start := by
  refine List.ext_getElem (by simp) fun i h₁ h₂ => ?_
  simp [Ringbuffer.words]

theorem emit_words {data : Word} (h : base.cur < base.size / 4) : base.emit data =
    .ok { base with mem := Function.update base.mem base.cur data, cur := base.cur + 1 } := if_pos h

/-- The ring holds what was written, and there is room for more of it. -/
structure Holds (size : Nat) (ws : List Word) (base : Ringbuffer) : Prop where
  size : base.size = size
  words : base.words 0 base.cur = ws

theorem Holds.cur {size : Nat} {ws : List Word} (h : Holds size ws base) : base.cur = ws.length := by
  rw [← h.words, words_length]

theorem Holds.emit {size : Nat} {ws : List Word} {data : Word} (h : Holds size ws base)
    (hroom : ws.length < size / 4) : Returns (base.emit data) fun base' => Holds size (ws ++ [data]) base' ∧
      base' = { base with mem := base'.mem, cur := base'.cur } := by
  rw [emit_words (by rw [h.size, h.cur]; exact hroom)]
  refine .ok ⟨⟨h.size, ?_⟩, rfl⟩
  have hbelow : ∀ i ∈ List.range base.cur, Function.update base.mem base.cur data (0 + i) = base.mem (0 + i) := by
    intro i hi
    rw [Function.update_of_ne]
    have := List.mem_range.mp hi
    omega
  rw [← h.words, Ringbuffer.words, List.range_succ, List.map_append, List.map_congr_left hbelow]
  simp [Ringbuffer.words]

theorem offsetDwords_eq {stop start : Nat} (h : start ≤ stop) (hlt : stop < 2 ^ 32) :
    offsetDwords stop start = stop - start := by
  unfold offsetDwords
  omega

theorem offsetBytes_eq {stop : Nat} (hlt : stop < 2 ^ 30) : offsetBytes stop 0 = 4 * stop := by
  unfold offsetBytes
  omega

/-- There is room for what a part of the calls writes. -/
theorem written_lt {calls done rest : List RingCall} {data : Word} (h : calls = done ++ .emit data :: rest) :
    (written done).length < (written calls).length := by
  rw [h]
  simp [written, RingCall.data?]

theorem written_le {calls done rest : List RingCall} (h : calls = done ++ rest) :
    (written done).length ≤ (written calls).length := by
  rw [h]
  simp [written]

/-! ## kgsl -/

/-- After the calls of `done`, what was flushed is in the ranges, and the next flush begins behind it. -/
structure KgslInv (size : Nat) (done : List RingCall) (s : Ringbuffer × List (List Word)) : Prop where
  holds : Holds size (written done) s.1
  lastStart : s.1.lastStart = (flushed done).length
  ranges : s.2.flatten = flushed done

theorem kgsl_ranges {size : Word} {calls : List RingCall} (hroom : (written calls).length ≤ size.toNat / 4) :
    Returns (submittedRanges size calls .kgsl) fun ranges => ranges.flatten = flushed calls := by
  have hloop : Returns (calls.foldlM kgslCall ({ size := size.toNat }, [])) (KgslInv size.toNat calls) := by
    refine .foldlM ⟨⟨rfl, rfl⟩, rfl, rfl⟩ fun done call rest s hcalls hs => ?_
    cases call with
    | emit data =>
        have hlt := written_lt hcalls
        refine (hs.holds.emit (by omega)).bind fun base hbase => .pure ⟨?_, ?_, ?_⟩
        · rw [written_emit]
          exact hbase.1
        · rw [flushed_emit, hbase.2]
          exact hs.lastStart
        · rw [flushed_emit]
          exact hs.ranges
    | flush timestamp =>
        have hle := written_le hcalls
        have hprefix : flushed done <+: written done := flushed_prefix
        have hsize := size.isLt
        refine .ok ⟨?_, ?_, ?_⟩
        · rw [written_flush]
          exact ⟨hs.holds.size, hs.holds.words⟩
        · rw [flushed_flush]
          exact hs.holds.cur
        · have hcur := hs.holds.cur
          have hrange : s.1.words s.1.lastStart (offsetDwords s.1.cur s.1.lastStart) =
              (written done).drop (flushed done).length := by
            rw [offsetDwords_eq (by rw [hcur, hs.lastStart]; exact hprefix.length_le) (by omega), words_drop,
              hs.holds.words, hs.lastStart]
          simp only [List.flatten_append, hs.ranges, hrange, List.flatten_singleton, flushed_flush]
          exact (List.prefix_append_drop hprefix).symm
  exact hloop.bind fun s hs => .pure hs.ranges

/-! ## msm -/

/-- The state of the ring between the calls: nothing is in its tables, and its buffer has no index. -/
structure Idle (r : RingId) (b : MsmBoId) (size : Nat) (ws : List Word) (s : State) : Prop where
  ring : ∃ ring, s.ring r = some ring ∧ ring.ringBo = b ∧ ring.base.lastStart = 0 ∧ Holds size ws ring.base ∧
    ring.bos.rows = [] ∧ ring.cmds.rows = [] ∧ ring.rings = [] ∧ ring.submitList = []
  bo : ∃ bo, s.bo b = some bo ∧ bo.indexp1 = 0
  unlisted : ∀ t x, s.ring t = some x → b ∉ x.submitList

theorem Idle.ringNew {size : Nat} {handle : Word} {junk : Nat → SubmitBo} (hnew : (Backend.msm s handle junk).New) :
    Idle s.freshRing s.freshBo size [] (ringNew size handle junk s) := by
  constructor
  case ring => exact ⟨_, setRing_self, rfl, rfl, ⟨rfl, rfl⟩, rfl, rfl, rfl, rfl⟩
  case bo => exact ⟨_, setBo_self, rfl⟩
  case unlisted =>
    intro t x ht
    rcases setRing_ring ht with ⟨-, rfl⟩ | ⟨-, ht⟩
    · exact List.not_mem_nil
    · exact hnew t x ht

theorem Idle.emit {size : Nat} {ws : List Word} {data : Word} (h : Idle r b size ws s) (hroom : ws.length < size / 4) :
    Returns (ringEmit r data s) fun s' => Idle r b size (ws ++ [data]) s' ∧ s'.submits = s.submits := by
  obtain ⟨ring, hr, hbo, hstart, hholds, hbos, hcmds, hrings, hlist⟩ := h.ring
  unfold ringEmit
  rw [show s.getRing r = .ok ring by simp [State.getRing, hr, deref]]
  refine (hholds.emit hroom).bind fun base hbase => .pure ⟨⟨?_, h.bo, ?_⟩, rfl⟩
  · refine ⟨_, setRing_self, hbo, ?_, hbase.1, hbos, hcmds, hrings, hlist⟩
    rw [hbase.2]
    exact hstart
  · intro t x ht
    rcases setRing_ring ht with ⟨-, rfl⟩ | ⟨-, ht⟩
    · exact h.unlisted r ring hr
    · exact h.unlisted t x ht

theorem onSubmitList_eq_false (h : ∀ t x, s.ring t = some x → b ∉ x.submitList) : onSubmitList b s = false := by
  simp only [onSubmitList, List.any_eq_false, Option.any_eq_true]
  rintro t - ⟨x, ht, hmem⟩
  exact h t x ht (by simpa using hmem)

theorem append_max {α : Type} {a : α} {t : Table α} : t.rows.length < (t.append a).max := by
  unfold Table.append Table.grow
  split
  · dsimp only
    split
    · omega
    · omega
  · dsimp only
    omega

theorem getRing_eq (hr : s.ring r = some ring) : s.getRing r = .ok ring := by simp [State.getRing, hr, deref]

theorem getBo_eq (hb : s.bo b = some bo) : s.getBo b = .ok bo := by simp [State.getBo, hb, deref]

/-- The first buffer in the table of a ring. -/
theorem bo2idx_first (flags : Word) (hr : s.ring r = some ring) (hb : s.bo b = some bo) (hindex : bo.indexp1 = 0)
    (hbos : ring.bos.rows = []) (hlist : onSubmitList b s = false) : Returns (bo2idx r b flags s) fun p => p.1 = 0 ∧
      ∃ bos, p.2 = (s.setBo b { bo with indexp1 := 1 }).setRing r
        { ring with bos, submitList := ring.submitList ++ [b] } := by
  have hmax : ring.bos.rows.length < (ring.bos.append { handle := bo.handle, presumed := bo.presumed }).max := append_max
  have hmark : Returns (markBo ring.bos.rows.length flags (ring.bos.append { handle := bo.handle, presumed := bo.presumed }))
      fun _ => True := by
    unfold markBo BoTable.modify
    split
    · exact .ok trivial
    · exact .ok trivial
  unfold bo2idx
  rw [getRing_eq hr, getBo_eq hb]
  simp only [bind, Except.bind, hindex, if_true, hlist, check, Bool.not_false]
  obtain ⟨bos, hbos', -⟩ := hmark
  rw [hbos']
  exact .pure ⟨by rw [hbos]; rfl, _, by rw [hbos]; rfl⟩

theorem setRing_setRing : (s.setRing r ring).setRing r ring' = s.setRing r ring' := by
  simp only [State.setRing, Function.update_idem]

/-- The command of a flush, in a ring whose tables are empty. -/
theorem getCmd_first (target : RingId) (submitOffset size : Nat) (type : CmdType) (hr : s.ring r = some ring)
    (hb : s.bo b = some bo) (hindex : bo.indexp1 = 0) (hbos : ring.bos.rows = []) (hcmds : ring.cmds.rows = [])
    (hlist : onSubmitList b s = false) : Returns (getCmd r target b submitOffset size type s) fun s' => ∃ ring',
      s' = (s.setBo b { bo with indexp1 := 1 }).setRing r ring' ∧ ring'.base = ring.base ∧ ring'.ringBo = ring.ringBo ∧
      ring'.submitList = ring.submitList ++ [b] ∧ ring'.rings = ring.rings ++ [target] ∧
      ring'.cmds.rows = [{ type, submitIdx := 0, submitOffset, size }] := by
  unfold getCmd
  rw [getRing_eq hr, getBo_eq hb]
  simp only [bind, Except.bind, hcmds, List.any_nil, Bool.false_eq_true, if_false]
  obtain ⟨⟨idx, s₁⟩, hidx, rfl, bos, hs₁⟩ := bo2idx_first FD_RELOC_READ hr hb hindex hbos hlist
  obtain rfl : s₁ = _ := hs₁
  simp only [hidx, getRing_eq setRing_self]
  refine .pure ⟨_, setRing_setRing, rfl, rfl, rfl, rfl, ?_⟩
  simp [hcmds]

/-- What is left of the ring after a flush. -/
def MsmRing.afterFlush (fence : Word) (ring : MsmRing) : MsmRing :=
  { base := { ring.base with lastTimestamp := fence }, ringBo := ring.ringBo,
    bos := ring.bos.clear, cmds := ring.cmds.clear, relocs := ring.relocs.clear }

/-- A flush after its command is in the tables, if there is no other. -/
theorem flush_first {lastStart : Nat} {fence : Word} {s₁ : State} {cmd : SubmitCmd} (hr : s.ring r = some ring')
    (hcmd : getCmd r r ring'.ringBo (offsetBytes lastStart 0) (offsetBytes ring'.base.cur lastStart) .buf s = .ok s₁)
    (hr₁ : s₁.ring r = some ring) (hb₁ : s₁.bo b = some bo) (hlist : ring.submitList = [b]) (hrings : ring.rings = [r])
    (hcmds : ring.cmds.rows = [cmd]) : msmRingbufferFlush r lastStart 0 fence s =
      .ok (0, { (s₁.setBo b { bo with indexp1 := 0 }).setRing r (ring.afterFlush fence) with
        submits := s₁.submits ++ [⟨ring.bos.rows, [(cmd, cmdRelocs cmd ring.relocs.rows,
          ring.base.words (cmd.submitOffset / 4) (cmd.size / 4))]⟩] }) := by
  simp [msmRingbufferFlush, hr, hcmd, hr₁, hb₁, hcmds, hrings, hlist, fixUp, stampAll, stamp, unlist, flushReset,
    clearRelocs, bind, Except.bind, pure, Except.pure, State.getRing, State.getBo, State.setRing, State.setBo, deref,
    MsmRing.afterFlush, Table.clear, BoTable.clear]

/-- A flush submits the ring from its start, and nothing else changes. -/
theorem Idle.flush {size : Nat} {ws : List Word} {fence : Word} (h : Idle r b size ws s) (hroom : ws.length < 2 ^ 30) :
    Returns (ringFlush r 0 fence s) fun p => Idle r b size ws p.2 ∧
      ∃ sub, p.2.submits = s.submits ++ [sub] ∧ (sub.cmds.map fun cmd => cmd.2.2) = [ws] := by
  obtain ⟨ring, hr, rfl, hstart, hholds, hbos, hcmds, hrings, hlist⟩ := h.ring
  obtain ⟨bo, hb, hindex⟩ := h.bo
  obtain ⟨s₁, hs₁, ring₁, rfl, hbase₁, hbo₁, hlist₁, hrings₁, hcmds₁⟩ :=
    getCmd_first r (offsetBytes 0 0) (offsetBytes ring.base.cur 0) .buf hr hb hindex hbos hcmds (onSubmitList_eq_false h.unlisted)
  rw [hlist, List.nil_append] at hlist₁
  rw [hrings, List.nil_append] at hrings₁
  unfold ringFlush
  rw [getRing_eq hr]
  show Returns (msmRingbufferFlush r ring.base.lastStart 0 fence s) _
  rw [hstart, flush_first hr hs₁ setRing_self setBo_self hlist₁ hrings₁ hcmds₁]
  refine .ok ⟨⟨⟨_, setRing_self, hbo₁, ?_, ?_, rfl, rfl, rfl, rfl⟩, ⟨_, setBo_self, rfl⟩, ?_⟩, _, rfl, ?_⟩
  · show ring₁.base.lastStart = 0
    rw [hbase₁, hstart]
  · have hsame : Holds size ws ring₁.base := by rwa [hbase₁]
    exact ⟨hsame.size, hsame.words⟩
  · intro t x ht
    rcases setRing_ring ht with ⟨-, rfl⟩ | ⟨htr, ht⟩
    · exact List.not_mem_nil
    · rcases setRing_ring ht with ⟨htr', -⟩ | ⟨-, ht⟩
      · exact absurd htr' htr
      · exact h.unlisted t x ht
  · have hcur := hholds.cur
    simp only [List.map_cons, List.map_nil, hbase₁, offsetBytes_eq (show 0 < 2 ^ 30 by decide),
      offsetBytes_eq (show ring.base.cur < 2 ^ 30 by omega)]
    rw [Nat.mul_div_cancel_left _ (by decide), Nat.mul_div_cancel_left _ (by decide), hholds.words]

/-- Either no flush came after one that had something to submit, or something was submitted again. -/
def Repeats (done : List RingCall) (ranges : List (List Word)) : Prop :=
  FlushedLast done ∧ ranges.flatten = flushed done ∨
    ¬ FlushedLast done ∧ (flushed done).length < ranges.flatten.length

theorem Repeats.emit {done : List RingCall} {ranges : List (List Word)} {data : Word} (h : Repeats done ranges) :
    Repeats (done ++ [.emit data]) ranges := by
  unfold Repeats
  rw [flushedLast_emit, flushed_emit]
  exact h

theorem Repeats.flush {done : List RingCall} {ranges : List (List Word)} {timestamp : Word} (h : Repeats done ranges) :
    Repeats (done ++ [.flush timestamp]) (ranges ++ [written done]) := by
  unfold Repeats
  rw [flushedLast_flush, flushed_flush, List.flatten_append, List.flatten_singleton]
  by_cases hnil : flushed done = []
  · rcases h with ⟨-, hranges⟩ | ⟨hlast, -⟩
    · exact .inl ⟨hnil, by rw [hranges, hnil, List.nil_append]⟩
    · exact absurd (flushedLast_of_nil hnil) hlast
  · have hpos := List.length_pos_iff.mpr hnil
    have hle : (flushed done).length ≤ ranges.flatten.length := by
      rcases h with ⟨-, hranges⟩ | ⟨-, hlt⟩
      · rw [hranges]
      · exact hlt.le
    refine .inr ⟨hnil, ?_⟩
    rw [List.length_append]
    omega

theorem Repeats.iff {done : List RingCall} {ranges : List (List Word)} (h : Repeats done ranges) :
    ranges.flatten = flushed done ↔ FlushedLast done := by
  rcases h with ⟨hlast, hranges⟩ | ⟨hlast, hlt⟩
  · exact iff_of_true hranges hlast
  · refine iff_of_false (fun hranges => ?_) hlast
    rw [hranges] at hlt
    exact Nat.lt_irrefl _ hlt

/-- After the calls of `done`, on a ring that was made when there were `n` submits. -/
structure MsmInv (r : RingId) (b : MsmBoId) (size n : Nat) (done : List RingCall) (s : State) : Prop where
  idle : Idle r b size (written done) s
  older : n ≤ s.submits.length
  repeats : Repeats done (rangesFrom n s)

theorem msm_ranges {size handle : Word} {junk : Nat → SubmitBo} {calls : List RingCall}
    (hnew : (Backend.msm s handle junk).New)
    (hroom : (written calls).length ≤ size.toNat / 4) :
    Returns (submittedRanges size calls (.msm s handle junk)) fun ranges =>
      (ranges.flatten = flushed calls ↔ FlushedLast calls) := by
  have hsize := size.isLt
  have hstart : MsmInv s.freshRing s.freshBo size.toNat s.submits.length [] (ringNew size.toNat handle junk s) := by
    refine ⟨.ringNew hnew, le_rfl, .inl ⟨flushedLast_of_nil rfl, ?_⟩⟩
    show (rangesFrom s.submits.length s).flatten = []
    rw [rangesFrom, List.drop_length]
    rfl
  have hloop : Returns (calls.foldlM (msmCall s.freshRing) (ringNew size.toNat handle junk s))
      (MsmInv s.freshRing s.freshBo size.toNat s.submits.length calls) := by
    refine .foldlM hstart fun done call rest s₁ hcalls hs₁ => ?_
    cases call with
    | emit data =>
        have hlt := written_lt hcalls
        refine (hs₁.idle.emit (by omega)).mono fun s₂ hs₂ => ⟨?_, ?_, ?_⟩
        · rw [written_emit]
          exact hs₂.1
        · rw [hs₂.2]
          exact hs₁.older
        · rw [rangesFrom, hs₂.2]
          exact hs₁.repeats.emit
    | flush fence =>
        have hle := written_le hcalls
        refine (hs₁.idle.flush (by omega)).bind ?_
        rintro ⟨ret, s₂⟩ ⟨hidle, sub, hsub, hcmds⟩
        refine .pure ⟨?_, ?_, ?_⟩
        · rw [written_flush]
          exact hidle
        · rw [hsub, List.length_append]
          exact hs₁.older.trans (Nat.le_add_right _ _)
        · have hranges : rangesFrom s.submits.length s₂ = rangesFrom s.submits.length s₁ ++ [written done] := by
            rw [rangesFrom, hsub, List.drop_append_of_le_length hs₁.older, List.flatMap_append, List.flatMap_singleton,
              hcmds, rangesFrom]
          rw [hranges]
          exact hs₁.repeats.flush
  exact hloop.bind fun s₁ hs₁ => .pure hs₁.repeats.iff

/-! ## Both -/

/-- What the flushes of a ring submit is what was written before the last of them, once, exactly when the backend is
    kgsl or no flush follows one that had something to submit. -/
theorem flush_once (size : Word) (calls : List RingCall) (backend : Backend) (hnew : backend.New)
    (hroom : (written calls).length ≤ size.toNat / 4) :
    Returns (submittedRanges size calls backend) fun ranges =>
      (ranges.flatten = flushed calls ↔ backend = .kgsl ∨ FlushedLast calls) := by
  cases backend with
  | kgsl => exact (kgsl_ranges hroom).mono fun _ h => iff_of_true h (.inl rfl)
  | msm s handle junk => exact (msm_ranges hnew hroom).mono fun _ h => by simpa using h

/-- On kgsl the second flush submits what was written after the first one. -/
theorem flush_once_between : Returns (submittedRanges 64 [.emit 1, .flush 0, .emit 2, .emit 3, .flush 1] .kgsl)
    fun ranges => ranges.flatten = [1, 2, 3] :=
  (flush_once 64 _ .kgsl trivial (by decide)).mono fun _ h => h.mpr (.inl rfl)

/-- A dword, a flush, another dword and a flush: the first dword is submitted twice. -/
theorem flush_once_twice : ∃ ranges,
    submittedRanges 64 [.emit 1, .flush 0, .emit 2, .flush 1] (.msm (initState false) 7 noEntries) = .ok ranges ∧
      ranges.flatten = [1, 1, 2] ∧ ranges.flatten ≠ flushed [.emit 1, .flush 0, .emit 2, .flush 1] :=
  ⟨_, rfl, by decide, by decide⟩

end LibDrm.Freedreno
