/-
# `LibDrm.Freedreno.Ring` — ring buffers of freedreno

A ring buffer is written dword by dword, and flushed to the kernel from `last_start` on.
There are two backends:

    kgsl   hands over the range of the ring, and moves `last_start`
    msm    builds tables of buffers, commands and relocations, and hands these over

The tables of msm belong to a ring.  The index of a buffer in the table is kept in the
buffer, one for each pipe; all rings here are rings of one pipe.  A ring that is the
target of an indirect call has a parent, and its relocations use the table of the parent.

Offsets in a ring are in dwords, sizes of it in bytes.
-/
import LibDrm.Lib.Arith
import LibDrm.Lib.Returns

namespace LibDrm.Freedreno

abbrev Word := BitVec 32

abbrev MsmBoId := Nat

abbrev RingId := Nat

/-- What ends a run. -/
inductive Fault
  | badPointer
  /-- An access outside of an array or of the memory of a ring. -/
  | badAccess
  | assertion
  deriving DecidableEq, Repr

def deref {α : Type} : Option α → Except Fault α
  | some a => .ok a
  | none => .error .badPointer

def check (p : Bool) (fault : Fault) : Except Fault Unit := if p then .ok () else .error fault

/-! ## The common part -/

/-- `struct fd_ringbuffer`, with the memory between `start` and `end`. -/
structure Ringbuffer where
  size : Nat
  mem : Nat → Word := fun _ => 0
  cur : Nat := 0
  lastStart : Nat := 0
  lastTimestamp : Word := 0
  parent : Option RingId := none

namespace Ringbuffer

/-- `fd_ringbuffer_emit`. -/
def emit (data : Word) (ring : Ringbuffer) : Except Fault Ringbuffer :=
  if ring.cur < ring.size / 4 then .ok { ring with mem := Function.update ring.mem ring.cur data, cur := ring.cur + 1 }
  else .error .badAccess

/-- The dwords from `start` on, `n` of them. -/
def words (start n : Nat) (ring : Ringbuffer) : List Word := (List.range n).map fun i => ring.mem (start + i)

/-- The common part of `fd_ringbuffer_reset`; `is2d` says that the pipe is `FD_PIPE_2D`. -/
def rewind (is2d : Bool) (ring : Ringbuffer) : Ringbuffer :=
  let start := if is2d then 0x140 else 0
  { ring with cur := start, lastStart := start }

end Ringbuffer

/-- The difference of two offsets in dwords, as a `uint32_t`. -/
def offsetDwords (stop start : Nat) : Nat := (((stop : Int) - start) % 2 ^ 32).toNat

/-- `offset_bytes`. -/
def offsetBytes (stop start : Nat) : Nat := ((4 * (stop : Int) - 4 * start) % 2 ^ 32).toNat

/-! ## kgsl -/

/-- `kgsl_ringbuffer_flush` of a ring of the 3D pipe: the dwords that the kernel is given, and the ring. -/
def kgslRingbufferFlush (lastStart : Nat) (timestamp : Word) (ring : Ringbuffer) : List Word × Ringbuffer :=
  (ring.words lastStart (offsetDwords ring.cur lastStart),
    { ring with lastTimestamp := timestamp, lastStart := ring.cur })

/-! ## msm -/

def FD_RELOC_READ : Word := 0x0001
def FD_RELOC_WRITE : Word := 0x0002
def MSM_SUBMIT_BO_READ : Word := 0x0001
def MSM_SUBMIT_BO_WRITE : Word := 0x0002

/-- The types of commands: `MSM_SUBMIT_CMD_BUF` and `MSM_SUBMIT_CMD_IB_TARGET_BUF`. -/
inductive CmdType
  | buf
  | ibTargetBuf
  deriving DecidableEq, Repr

/-- `struct drm_msm_gem_submit_bo`. -/
structure SubmitBo where
  flags : Word := 0
  handle : Word
  presumed : BitVec 64
  deriving DecidableEq, Repr

/-- `struct drm_msm_gem_submit_cmd`; its relocations are found at the flush. -/
structure SubmitCmd where
  type : CmdType
  submitIdx : Nat
  submitOffset : Nat
  size : Nat
  deriving DecidableEq, Repr

/-- `struct drm_msm_gem_submit_reloc`. -/
structure SubmitReloc where
  relocIdx : Nat
  relocOffset : Word
  or : Word
  shift : Int
  submitOffset : Nat
  deriving DecidableEq, Repr

/-- An array that grows: its entries, and for how many there is memory. -/
structure Table (α : Type) where
  rows : List α := []
  max : Nat := 0

namespace Table

variable {α : Type}

/-- `grow`. -/
def grow (t : Table α) : Table α :=
  if t.rows.length + 1 > t.max then
    { t with max := if t.max * 2 < t.rows.length + 1 then t.rows.length + 5 else t.max * 2 }
  else t

/-- `APPEND`, and the entry that is filled in after it. -/
def append (a : α) (t : Table α) : Table α := { t.grow with rows := t.rows ++ [a] }

def clear (t : Table α) : Table α := { t with rows := [] }

end Table

/-- The table of the buffers, with the memory behind its last entry: there are the entries that it had before it was
    emptied, and what was in the memory when it was allocated. -/
structure BoTable extends Table SubmitBo where
  behind : Nat → SubmitBo

namespace BoTable

/-- `bos[i]`. -/
def entry (i : Nat) (t : BoTable) : SubmitBo := t.rows[i]?.getD (t.behind i)

def append (e : SubmitBo) (t : BoTable) : BoTable := { t with toTable := t.toTable.append e }

/-- Writing to an entry, which may be behind the last one. -/
def modify (i : Nat) (f : SubmitBo → SubmitBo) (t : BoTable) : Except Fault BoTable :=
  if i < t.max then
    .ok { t with rows := t.rows.modify i f, behind := Function.update t.behind i (f (t.behind i)) }
  else .error .badAccess

def clear (t : BoTable) : BoTable := { toTable := t.toTable.clear, behind := fun i => t.entry i }

end BoTable

/-- `struct msm_bo`, for the pipe of the rings. -/
structure MsmBo where
  handle : Word
  presumed : BitVec 64 := 0
  indexp1 : Nat := 0
  deriving DecidableEq, Repr

/-- `struct msm_ringbuffer`; `rings` has the target of every command. -/
structure MsmRing where
  base : Ringbuffer
  ringBo : MsmBoId
  submitList : List MsmBoId := []
  bos : BoTable
  cmds : Table SubmitCmd := {}
  rings : List RingId := []
  relocs : Table SubmitReloc := {}

/-- `struct drm_msm_gem_submit`: a command comes with its relocations, and with the dwords of its range. -/
structure Submit where
  bos : List SubmitBo
  cmds : List (SubmitCmd × List SubmitReloc × List Word)
  deriving Repr

structure State where
  bo : MsmBoId → Option MsmBo
  freshBo : MsmBoId
  ring : RingId → Option MsmRing
  freshRing : RingId
  is2d : Bool
  /-- What the kernel was given. -/
  submits : List Submit := []

namespace State

def getBo (b : MsmBoId) (s : State) : Except Fault MsmBo := deref (s.bo b)

def getRing (r : RingId) (s : State) : Except Fault MsmRing := deref (s.ring r)

def setBo (b : MsmBoId) (bo : MsmBo) (s : State) : State := { s with bo := Function.update s.bo b (some bo) }

def setRing (r : RingId) (ring : MsmRing) (s : State) : State := { s with ring := Function.update s.ring r (some ring) }

end State

/-- The list that a buffer of the pipe is on is the submit list of a ring. -/
def onSubmitList (b : MsmBoId) (s : State) : Bool :=
  (List.range s.freshRing).any fun r => (s.ring r).any fun ring => ring.submitList.contains b

/-- The flags that `bo2idx` sets in the entry. -/
def SubmitBo.mark (flags : Word) (e : SubmitBo) : SubmitBo :=
  let e := if flags &&& FD_RELOC_READ ≠ 0 then { e with flags := e.flags ||| MSM_SUBMIT_BO_READ } else e
  if flags &&& FD_RELOC_WRITE ≠ 0 then { e with flags := e.flags ||| MSM_SUBMIT_BO_WRITE } else e

/-- The entry is touched for the flags only: the index may be that of another table. -/
def markBo (idx : Nat) (flags : Word) (bos : BoTable) : Except Fault BoTable :=
  if flags &&& FD_RELOC_READ = 0 ∧ flags &&& FD_RELOC_WRITE = 0 then .ok bos else bos.modify idx (SubmitBo.mark flags)

/-- The index of a buffer, which is added to the table of the ring if it has no index yet. -/
def bo2idx (r : RingId) (b : MsmBoId) (flags : Word) (s : State) : Except Fault (Nat × State) := do
  let ring ← s.getRing r
  let bo ← s.getBo b
  if bo.indexp1 = 0 then do
    let idx := ring.bos.rows.length
    check (!onSubmitList b s) .assertion
    let bos ← markBo idx flags (ring.bos.append { handle := bo.handle, presumed := bo.presumed })
    let s := s.setBo b { bo with indexp1 := idx + 1 }
    return (idx, s.setRing r { ring with bos, submitList := ring.submitList ++ [b] })
  else do
    let idx := bo.indexp1 - 1
    let bos ← markBo idx flags ring.bos
    return (idx, s.setRing r { ring with bos })

/-- `check_cmd_bo`.  The entry was written to when the command was made, so there is memory for it.  It is behind the
    last one where a reset has emptied the table and left the buffer its index. -/
def checkCmdBo (handle : Word) (cmd : SubmitCmd) (ring : MsmRing) : Bool := (ring.bos.entry cmd.submitIdx).handle = handle

/-- A command for the range, if there is none yet. -/
def getCmd (r target : RingId) (targetBo : MsmBoId) (submitOffset size : Nat) (type : CmdType) (s : State) :
    Except Fault State := do
  let ring ← s.getRing r
  let bo ← s.getBo targetBo
  if ring.cmds.rows.any fun cmd => cmd.submitOffset = submitOffset ∧ cmd.size = size ∧ cmd.type = type ∧
      checkCmdBo bo.handle cmd ring then return s
  else do
    let (submitIdx, s) ← bo2idx r targetBo FD_RELOC_READ s
    let ring ← s.getRing r
    return s.setRing r { ring with
      cmds := ring.cmds.append { type, submitIdx, submitOffset, size }, rings := ring.rings ++ [target] }

def findNextRelocIdx (start offset : Nat) (relocs : List SubmitReloc) : Nat :=
  start + (relocs.drop start).findIdx fun reloc => reloc.submitOffset ≥ offset

/-- The relocations in the range of a command. -/
def cmdRelocs (cmd : SubmitCmd) (relocs : List SubmitReloc) : List SubmitReloc :=
  let a := findNextRelocIdx 0 cmd.submitOffset relocs
  let b := findNextRelocIdx a ((cmd.submitOffset + cmd.size) % 2 ^ 32) relocs
  (relocs.drop a).take (b - a)

/-- A command as the kernel gets it; its target is a ring. -/
def fixUp (s : State) (cmd : SubmitCmd × RingId) : Except Fault (SubmitCmd × List SubmitReloc × List Word) := do
  let target ← s.getRing cmd.2
  return (cmd.1, cmdRelocs cmd.1 target.relocs.rows, target.base.words (cmd.1.submitOffset / 4) (cmd.1.size / 4))

def clearRelocs (s : State) (r : RingId) : Except Fault State := do
  let ring ← s.getRing r
  return s.setRing r { ring with relocs := ring.relocs.clear }

def flushReset (r : RingId) (s : State) : Except Fault State := do
  let ring ← s.getRing r
  let s ← ring.rings.foldlM clearRelocs s
  let ring ← s.getRing r
  return s.setRing r { ring with
    relocs := ring.relocs.clear, cmds := ring.cmds.clear, rings := [], bos := ring.bos.clear }

/-- `target_ring->last_timestamp = req.fence`. -/
def stamp (fence : Word) (s : State) (r : RingId) : Except Fault State := do
  let ring ← s.getRing r
  return s.setRing r { ring with base := { ring.base with lastTimestamp := fence } }

/-- All rings of a submit that went well. -/
def stampAll (ret : Int) (fence : Word) (rings : List RingId) (s : State) : Except Fault State :=
  if ret ≠ 0 then .ok s else rings.foldlM (stamp fence) s

/-- A buffer leaves the list, and loses its index. -/
def unlist (s : State) (b : MsmBoId) : Except Fault State := do
  let bo ← s.getBo b
  return s.setBo b { bo with indexp1 := 0 }

/-- `msm_ringbuffer_flush`; `ret` and `fence` are the kernel's. -/
def msmRingbufferFlush (r : RingId) (lastStart : Nat) (ret : Int) (fence : Word) (s : State) :
    Except Fault (Int × State) := do
  let ring ← s.getRing r
  let s ← getCmd r r ring.ringBo (offsetBytes lastStart 0) (offsetBytes ring.base.cur lastStart) .buf s
  let ring ← s.getRing r
  let cmds ← (ring.cmds.rows.zip ring.rings).mapM (fixUp s)
  let s := { s with submits := s.submits ++ [⟨ring.bos.rows, cmds⟩] }
  let s ← stampAll ret fence ring.rings s
  let s ← ring.submitList.foldlM unlist s
  let ring ← s.getRing r
  let s := s.setRing r { ring with submitList := [] }
  let s ← flushReset r s
  return (ret, s)

/-- The ring that the relocations of a ring belong to. -/
def parentOf (r : RingId) (ring : MsmRing) : RingId := ring.base.parent.getD r

/-- `struct fd_reloc`. -/
structure Reloc where
  bo : MsmBoId
  flags : Word := 0
  offset : Word := 0
  or : Word := 0
  shift : Int := 0

/-- The dword that a relocation writes. -/
def relocWord (presumed : BitVec 64) (reloc : Reloc) : Word :=
  let addr := presumed.setWidth 32
  (if reloc.shift < 0 then addr >>> (-reloc.shift).toNat else addr <<< reloc.shift.toNat) ||| reloc.or

def msmRingbufferEmitReloc (r : RingId) (reloc : Reloc) (s : State) : Except Fault State := do
  let ring ← s.getRing r
  let (relocIdx, s) ← bo2idx (parentOf r ring) reloc.bo reloc.flags s
  let ring ← s.getRing r
  let bo ← s.getBo reloc.bo
  let entry : SubmitReloc :=
    { relocIdx, relocOffset := reloc.offset, or := reloc.or, shift := reloc.shift
      submitOffset := offsetBytes ring.base.cur 0 }
  let base ← ring.base.emit (relocWord bo.presumed reloc)
  return s.setRing r { ring with base, relocs := ring.relocs.append entry }

/-- `msm_ringbuffer_emit_reloc_ring`: the range of `target` from `start` to `stop`. -/
def msmRingbufferEmitRelocRing (r target : RingId) (start stop : Nat) (s : State) : Except Fault State := do
  let targetRing ← s.getRing target
  let s ← getCmd r target targetRing.ringBo (offsetBytes start 0) (offsetBytes stop start) .ibTargetBuf s
  msmRingbufferEmitReloc r
    { bo := targetRing.ringBo, flags := FD_RELOC_READ, offset := BitVec.ofNat 32 (offsetBytes start 0) } s

/-! ## Calls -/

/-- Objects that the kernel gives a handle for. -/
def boNew (handle : Word) (presumed : BitVec 64) (s : State) : State :=
  { s.setBo s.freshBo { handle, presumed } with freshBo := s.freshBo + 1 }

/-- `fd_ringbuffer_new`, with the buffer of the ring; `junk` will be in the memory of its table of buffers. -/
def ringNew (size : Nat) (handle : Word) (junk : Nat → SubmitBo) (s : State) : State :=
  let ringBo := s.freshBo
  let s := boNew handle 0 s
  { s.setRing s.freshRing { base := { size }, ringBo, bos := { behind := junk } } with freshRing := s.freshRing + 1 }

def setParent (r : RingId) (parent : Option RingId) (s : State) : Except Fault State := do
  let ring ← s.getRing r
  return s.setRing r { ring with base := { ring.base with parent } }

def ringEmit (r : RingId) (data : Word) (s : State) : Except Fault State := do
  let ring ← s.getRing r
  let base ← ring.base.emit data
  return s.setRing r { ring with base }

def ringReset (r : RingId) (s : State) : Except Fault State := do
  let ring ← s.getRing r
  flushReset r (s.setRing r { ring with base := ring.base.rewind s.is2d })

/-- `fd_ringbuffer_flush`. -/
def ringFlush (r : RingId) (ret : Int) (fence : Word) (s : State) : Except Fault (Int × State) := do
  let ring ← s.getRing r
  msmRingbufferFlush r ring.base.lastStart ret fence s

end LibDrm.Freedreno
