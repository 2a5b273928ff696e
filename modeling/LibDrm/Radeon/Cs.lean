/-
# `LibDrm.Radeon.Cs` — command streams of the radeon GEM driver

A command stream collects packets, and a table of the buffers that its packets refer
to by index.  Whether a buffer is in the table of a stream is looked up in a bit mask
of the buffer first: every stream has an id of one bit, taken from a pool of 32 that
all streams share.

    write_reloc   adds a buffer to the table, or finds it there, and writes a packet
    emit          submits the stream; the buffers leave it, the table stays
    erase         empties the stream
    space_check   counts the memory that the buffers of an operation need

The packets and the table are lists, of `cdw` and `crelocs` elements.  Every allocation
takes its outcome from the environment: the address of the memory, or none.
-/
import LibDrm.Lib.Arith
import LibDrm.Lib.Returns

namespace LibDrm.Radeon

abbrev BoId := Nat

abbrev CsId := Nat

/-- What ends a run. -/
inductive Fault
  /-- A pointer that is NULL or leads to freed memory. -/
  | badPointer
  | assertion
  /-- A write behind the end of the packets. -/
  | badAccess
  deriving DecidableEq, Repr

def RADEON_GEM_DOMAIN_CPU : BitVec 32 := 0x1
def RADEON_GEM_DOMAIN_GTT : BitVec 32 := 0x2
def RADEON_GEM_DOMAIN_VRAM : BitVec 32 := 0x4

def EINVAL : Int := 22
def ENOMEM : Int := 12
def EPIPE : Int := 32

/-- `struct radeon_bo_gem` with the `radeon_bo_int` that it starts with. -/
structure Bo where
  handle : BitVec 32
  size : BitVec 32
  cref : Nat := 1
  spaceAccounted : BitVec 32 := 0
  relocInCs : BitVec 32 := 0
  /-- What `radeon_bo_is_static` answers. -/
  isStatic : Bool := false
  deriving DecidableEq, Repr

/-- `struct cs_reloc_gem`. -/
structure Reloc where
  handle : BitVec 32
  readDomain : BitVec 32
  writeDomain : BitVec 32
  flags : BitVec 32
  deriving DecidableEq, Repr

def RELOC_SIZE : Nat := 4

/-- `struct radeon_cs_space_check`. -/
structure SpaceCheck where
  bo : BoId
  readDomains : BitVec 32
  writeDomain : BitVec 32
  newAccounted : BitVec 32 := 0
  deriving DecidableEq, Repr

/-- `struct drm_radeon_cs_chunk`. -/
structure Chunk where
  data : Nat
  lengthDw : Nat
  deriving DecidableEq, Repr

/-- `struct cs_gem`: `packets` and `relocs` are what was written, `packetsAt` and `relocsAt` where it is.  The memory
    of the packets has `packetsSize` dwords. -/
structure Cs where
  packets : List (BitVec 32) := []
  packetsAt : Nat
  packetsSize : Nat
  ndw : Nat
  sectionNdw : Nat := 0
  sectionCdw : Nat := 0
  relocs : List Reloc := []
  relocsAt : Nat
  relocsBo : List (Option BoId) := []
  nrelocs : Nat
  relocsTotalSize : BitVec 32 := 0
  ib : Chunk
  relocChunk : Chunk
  bos : List SpaceCheck := []
  id : BitVec 32
  deriving DecidableEq, Repr

/-- `struct radeon_cs_manager`: the limits, and what is counted so far. -/
structure Manager where
  vramLimit : Int
  gartLimit : Int
  vramWriteUsed : Int := 0
  gartWriteUsed : Int := 0
  readUsed : Int := 0
  deriving DecidableEq, Repr

structure State where
  bo : BoId → Option Bo
  freshBo : BoId
  cs : CsId → Option Cs
  freshCs : CsId
  /-- `cs_id_source`. -/
  csIdSource : BitVec 32
  csm : Manager

namespace State

def getBo (b : BoId) (s : State) : Except Fault Bo :=
  match s.bo b with
  | some bo => .ok bo
  | none => .error .badPointer

def getCs (c : CsId) (s : State) : Except Fault Cs :=
  match s.cs c with
  | some cs => .ok cs
  | none => .error .badPointer

def setBo (b : BoId) (bo : Bo) (s : State) : State := { s with bo := Function.update s.bo b (some bo) }

def setCs (c : CsId) (cs : Cs) (s : State) : State := { s with cs := Function.update s.cs c (some cs) }

end State

def deref {α : Type} : Option α → Except Fault α
  | some a => .ok a
  | none => .error .badPointer

def assert (p : Bool) : Except Fault Unit := if p then .ok () else .error .assertion

/-! ## Buffers -/

/-- `bo_open` of a new object, for which the kernel gives the handle. -/
def boOpen (handle size : BitVec 32) (isStatic : Bool) (s : State) : BoId × State :=
  (s.freshBo, { s.setBo s.freshBo { handle, size, isStatic } with freshBo := s.freshBo + 1 })

def boRef (b : BoId) (s : State) : Except Fault State := do
  let bo ← s.getBo b
  return s.setBo b { bo with cref := bo.cref + 1 }

def boUnref (b : BoId) (s : State) : Except Fault State := do
  let bo ← s.getBo b
  if bo.cref - 1 ≠ 0 then return s.setBo b { bo with cref := bo.cref - 1 }
  else return { s with bo := Function.update s.bo b none }

/-! ## Ids -/

/-- `__builtin_ctz`. -/
def ctz (x : BitVec 32) : Nat := ((List.range 32).find? fun i => x.getLsbD i).getD 32

def getFirstZero (n : BitVec 32) : BitVec 32 := 1#32 <<< ctz (~~~n)

/-- The id, 0 if there is none left, and the pool after it. -/
def generateId (source : BitVec 32) : BitVec 32 × BitVec 32 :=
  if source ≠ ~~~0#32 then (getFirstZero source, source ||| getFirstZero source) else (0, source)

def freeId (id source : BitVec 32) : BitVec 32 := source &&& ~~~id

/-! ## Streams -/

/-- `cs_gem_create`; the id stays taken when one of the last two allocations fails. -/
def csCreate (ndw : Nat) (mem : Nat → Option Nat) (s : State) : Option CsId × State :=
  if 64 * 1024 / 4 < ndw then (none, s)
  else
    match mem 0, mem 1 with
    | some _, some packetsAt =>
        let (id, source) := generateId s.csIdSource
        let s := { s with csIdSource := source }
        match mem 2, mem 3 with
        | some _, some relocsAt =>
            let cs : Cs :=
              { packetsAt, relocsAt, id, packetsSize := 64 * 1024 / 4, ndw := 64 * 1024 / 4
                nrelocs := 4096 / (4 * 4), ib := ⟨packetsAt, 0⟩, relocChunk := ⟨relocsAt, 0⟩ }
            (some s.freshCs, { s.setCs s.freshCs cs with freshCs := s.freshCs + 1 })
        | _, _ => (none, s)
    | _, _ => (none, s)

def writeDword (dword : BitVec 32) (cs : Cs) : Except Fault Cs :=
  if cs.packets.length < cs.packetsSize then
    .ok { cs with
      packets := cs.packets ++ [dword]
      sectionCdw := if cs.sectionNdw ≠ 0 then cs.sectionCdw + 1 else cs.sectionCdw }
  else .error .badAccess

/-- The packet that refers to an entry of the table, by its index in dwords. -/
def writeRelocPacket (idx : Nat) (cs : Cs) : Except Fault Cs := do
  let cs ← writeDword 0xc0001000 cs
  writeDword (BitVec.ofNat 32 idx) cs

/-- The search goes from the end of the table to its start. -/
def findReloc (handle : BitVec 32) (relocs : List Reloc) : Option Nat :=
  (List.range relocs.length).reverse.find? fun i => relocs[i]?.any fun r => r.handle = handle

/-- The domains of an entry when the buffer is referred to again, if the request is accepted. -/
def updateDomains (readDomain writeDomain : BitVec 32) (reloc : Reloc) : Option Reloc :=
  let update := fun (reloc : Reloc) => { reloc with
    readDomain := reloc.readDomain ||| readDomain
    writeDomain := reloc.writeDomain ||| writeDomain }
  if writeDomain ≠ 0 ∧ reloc.readDomain &&& writeDomain ≠ 0 then
    some (update { reloc with readDomain := 0, writeDomain })
  else if readDomain &&& reloc.writeDomain ≠ 0 then some (update { reloc with readDomain := 0 })
  else if writeDomain ≠ reloc.writeDomain then none
  else if readDomain ≠ reloc.readDomain then none
  else some (update reloc)

/-- `reloc->flags |= (flags & reloc->flags)`. -/
def updateFlags (flags : BitVec 32) (reloc : Reloc) : Reloc := { reloc with flags := reloc.flags ||| (flags &&& reloc.flags) }

/-- Room for one more entry.  The size in bytes is a `uint32_t`, see `newReloc`. -/
def growRelocs (mem : Nat → Option Nat) (cs : Cs) : Option Cs :=
  if cs.relocs.length ≥ cs.nrelocs then
    match mem 0, mem 1 with
    | some _, some relocsAt =>
        some { cs with relocsAt, nrelocs := cs.nrelocs + 1, relocChunk := { cs.relocChunk with data := relocsAt } }
    | _, _ => none
  else some cs

/-- The end of `cs_gem_write_reloc`: a buffer that is not in the table. -/
def newReloc (c : CsId) (b : BoId) (readDomain writeDomain flags : BitVec 32) (mem : Nat → Option Nat) (s : State) :
    Except Fault (Int × State) := do
  let cs ← s.getCs c
  let bo ← s.getBo b
  match growRelocs mem cs with
  | none => return (-ENOMEM, s)
  | some cs =>
    -- from here on the size in bytes has wrapped, and the entry is behind the end of the table
    if 2 ^ 28 ≤ cs.relocs.length + 1 then .error .badAccess
    else do
      let idx := cs.relocs.length * RELOC_SIZE
      let cs := { cs with
        relocs := cs.relocs ++ [⟨bo.handle, readDomain, writeDomain, flags⟩]
        relocsBo := cs.relocsBo ++ [some b]
        relocChunk := { cs.relocChunk with lengthDw := cs.relocChunk.lengthDw + RELOC_SIZE }
        relocsTotalSize := cs.relocsTotalSize + bo.size }
      let s ← boRef b s
      let bo ← s.getBo b
      let s := s.setBo b { bo with relocInCs := bo.relocInCs + cs.id }
      let cs ← writeRelocPacket idx cs
      return (0, s.setCs c cs)

/-- `cs_gem_write_reloc`. -/
def writeReloc (c : CsId) (b : BoId) (readDomain writeDomain flags : BitVec 32) (mem : Nat → Option Nat) (s : State) :
    Except Fault (Int × State) := do
  let cs ← s.getCs c
  let bo ← s.getBo b
  assert (bo.spaceAccounted ≠ 0)
  if (readDomain ≠ 0 ∧ writeDomain ≠ 0) ∨ (readDomain = 0 ∧ writeDomain = 0) then return (-EINVAL, s)
  else if readDomain = RADEON_GEM_DOMAIN_CPU then return (-EINVAL, s)
  else if writeDomain = RADEON_GEM_DOMAIN_CPU then return (-EINVAL, s)
  else
    -- the bit says that the buffer may be in the table
    match if bo.relocInCs &&& cs.id ≠ 0 then findReloc bo.handle cs.relocs else none with
    | some i => do
        let reloc ← deref cs.relocs[i]?
        match updateDomains readDomain writeDomain reloc with
        | none => return (-EINVAL, s)
        | some reloc => do
            let cs := { cs with relocs := cs.relocs.set i (updateFlags flags reloc) }
            let cs ← writeRelocPacket (i * RELOC_SIZE) cs
            return (0, s.setCs c cs)
    | none => newReloc c b readDomain writeDomain flags mem s

/-- `cs_gem_begin`; the sizes are `unsigned`, the one in bytes too. -/
def csBegin (c : CsId) (ndw : BitVec 32) (mem : Nat → Option Nat) (s : State) : Except Fault (Int × State) := do
  let cs ← s.getCs c
  if cs.sectionNdw ≠ 0 then return (-EPIPE, s)
  else
    let cs := { cs with sectionNdw := ndw.toNat, sectionCdw := 0 }
    if (cs.packets.length + ndw.toNat) % 2 ^ 32 > cs.ndw then
      match mem 0 with
      | none => return (-ENOMEM, s.setCs c cs)
      | some packetsAt =>
          let tmp := (cs.packets.length + ndw.toNat + 0x3ff) % 2 ^ 32 / 0x400 * 0x400
          return (0, s.setCs c { cs with packetsAt, packetsSize := 4 * tmp % 2 ^ 32 / 4, ndw := tmp })
    else return (0, s.setCs c cs)

def csEnd (c : CsId) (s : State) : Except Fault (Int × State) := do
  let cs ← s.getCs c
  if cs.sectionNdw = 0 then return (-EPIPE, s)
  else if cs.sectionNdw ≠ cs.sectionCdw then return (-EPIPE, s.setCs c { cs with sectionNdw := 0 })
  else return (0, s.setCs c { cs with sectionNdw := 0 })

/-- `while (cs->cdw & 7)` a type 2 packet is written. -/
def padPackets (cs : Cs) : Except Fault Cs :=
  (List.range ((8 - cs.packets.length % 8) % 8)).foldlM (fun cs _ => writeDword 0x80000000 cs) cs

/-- A buffer leaves the stream with this id. -/
def releaseBo (id : BitVec 32) (b : BoId) (s : State) : Except Fault State := do
  let bo ← s.getBo b
  boUnref b (s.setBo b { bo with relocInCs := bo.relocInCs - id })

/-- One entry of the loop of `cs_gem_emit`. -/
def emitBo (id : BitVec 32) (s : State) (entry : Option BoId) : Except Fault State := do
  let b ← deref entry
  let bo ← s.getBo b
  releaseBo id b (s.setBo b { bo with spaceAccounted := 0 })

/-- `cs_gem_emit`; `result` is what the ioctl returns. -/
def csEmit (c : CsId) (result : Int) (s : State) : Except Fault (Int × State) := do
  let cs ← s.getCs c
  let cs ← padPackets cs
  let cs := { cs with ib := { cs.ib with lengthDw := cs.packets.length } }
  let s ← cs.relocsBo.foldlM (emitBo cs.id) s
  let s := s.setCs c { cs with relocsBo := cs.relocsBo.map fun _ => none }
  return (result, { s with csm := { s.csm with readUsed := 0, vramWriteUsed := 0, gartWriteUsed := 0 } })

def csDestroy (c : CsId) (s : State) : Except Fault State := do
  let cs ← s.getCs c
  return { s with csIdSource := freeId cs.id s.csIdSource, cs := Function.update s.cs c none }

/-- One entry of the loop of `cs_gem_erase`. -/
def eraseBo (id : BitVec 32) (s : State) (entry : Option BoId) : Except Fault State :=
  match entry with
  | none => .ok s
  | some b => releaseBo id b s

def csErase (c : CsId) (s : State) : Except Fault State := do
  let cs ← s.getCs c
  let s ← cs.relocsBo.foldlM (eraseBo cs.id) s
  return s.setCs c { cs with
    relocs := [], relocsBo := [], relocsTotalSize := 0, packets := [], sectionNdw := 0
    ib := { cs.ib with lengthDw := 0 }, relocChunk := { cs.relocChunk with lengthDw := 0 } }

end LibDrm.Radeon
