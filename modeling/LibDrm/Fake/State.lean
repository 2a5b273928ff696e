/-
# `LibDrm.Fake.State` — the fake buffer manager: buffers, blocks and fences

The fake manager keeps the contents of a buffer in two places: in its backing
store, which the CPU maps, and in a block of card memory, which the GPU uses.

    dirty        the backing store holds writes that the card has not seen
    card_dirty   the card may have written to the block
    block        the block of card memory, if there is one

Blocks stand on one of three lists: `on_hardware` (part of the batch that is
being put together), `fenced` (the GPU may still use them) and `lru` (free to be
evicted).  Card memory is handed out by the range heap of `mm.c`.

`content` is an auxiliary variable that the code does not have: the last write to
each byte of a buffer, by either side.  No function reads it.
-/
import LibDrm.Mm.Invariant
import LibDrm.Lib.Bytes

namespace LibDrm.Fake

abbrev BoId := Nat

abbrev BlockId := Nat

/-- What ends a run. -/
inductive Fault
  /-- A pointer that is NULL or leads to freed memory. -/
  | badPointer
  | assertion
  | abort
  /-- An access outside a buffer. -/
  | badAccess
  /-- A loop or recursion that goes on for longer than was granted. -/
  | endless
  | heap (e : Mm.Fault)
  deriving DecidableEq, Repr

/-- `struct fake_buffer_reloc`. -/
structure Reloc where
  target : BoId
  offset : UInt32
  lastTargetOffset : UInt32
  delta : UInt32
  readDomains : UInt32
  writeDomain : UInt32
  deriving DecidableEq, Repr

/-- `struct block`; the address of its memory is that of `mem` in the heap. -/
structure Block where
  mem : Mm.BlockId
  onHardware : Bool := false
  fenced : Bool := false
  fence : UInt32 := 0
  bo : Option BoId
  deriving DecidableEq, Repr

/-- `BM_NO_BACKING_STORE`, `BM_NO_FENCE_SUBDATA` and `BM_PINNED`. -/
structure Flags where
  noBackingStore : Bool := false
  noFenceSubdata : Bool := false
  pinned : Bool := false
  deriving DecidableEq, Repr

/-- Where `bo->virtual` points: into the backing store, or to an address of the card. -/
inductive Place
  | backing
  | card (address : Int)
  deriving DecidableEq, Repr

/-- `drm_intel_bo_fake`, with the fields of `drm_intel_bo` that it starts with. -/
structure Bo where
  size : Nat
  offset : Int := -1
  virtual : Option Place := none
  dirty : Bool := false
  cardDirty : Bool := false
  refcount : Nat := 1
  flags : Flags := {}
  readDomains : UInt32 := 0
  writeDomain : UInt32 := 0
  alignment : Nat
  isStatic : Bool := false
  validated : Bool := false
  mapCount : Nat := 0
  relocs : List Reloc := []
  childSize : UInt32 := 0
  block : Option BlockId := none
  backingStore : Option (Nat → UInt8) := none

/-- The manager and the memory of the card. -/
structure State where
  bo : BoId → Option Bo
  freshBo : BoId
  block : BlockId → Option Block
  freshBlock : BlockId
  onHardware : List BlockId
  fenced : List BlockId
  lru : List BlockId
  heap : Mm.Heap
  lastFence : UInt32
  fail : Bool
  needFence : Bool
  thrashing : Nat
  performedRendering : Bool
  /-- The number of fences that were emitted, and of waits that were made. -/
  emitted : Nat
  waits : Nat
  card : Int → UInt8
  content : BoId → Nat → Option UInt8

/-- One round of the wait for a fence: the counter of the hardware before the call, the result of `IRQ_WAIT`,
    and the counter at the three tests after it. -/
structure Round where
  hwSeq : Int
  ret : Int
  lied : Int
  wrapped : Int
  progress : Int

/-- What the manager meets: the contents of fresh memory, the cookies of the fences, whether the driver waits for a
    fence by its own callback, the answers to the waits otherwise, and how long a loop or recursion may go on. -/
structure Env where
  garbage : BoId → Nat → UInt8
  cookie : Nat → UInt32
  fenceCallback : Bool
  rounds : Nat → List Round
  fuel : Nat

namespace State

def getBo (b : BoId) (s : State) : Except Fault Bo :=
  match s.bo b with
  | some bo => .ok bo
  | none => .error .badPointer

def getBlock (k : BlockId) (s : State) : Except Fault Block :=
  match s.block k with
  | some block => .ok block
  | none => .error .badPointer

def setBo (b : BoId) (bo : Bo) (s : State) : State := { s with bo := Function.update s.bo b (some bo) }

def setBlock (k : BlockId) (block : Block) (s : State) : State :=
  { s with block := Function.update s.block k (some block) }

def modifyBo (b : BoId) (f : Bo → Bo) (s : State) : Except Fault State := do
  let bo ← s.getBo b
  return s.setBo b (f bo)

/-- `DRMLISTDEL`: the block leaves the list it is on. -/
def unlink (k : BlockId) (s : State) : State :=
  { s with
    onHardware := s.onHardware.filter (· ≠ k)
    fenced := s.fenced.filter (· ≠ k)
    lru := s.lru.filter (· ≠ k) }

/-- `block->mem->ofs`. -/
def ofs (block : Block) (s : State) : Int := s.heap.mem.ofs block.mem

end State

/-- A pointer that the code follows. -/
def deref {α : Type} : Option α → Except Fault α
  | some a => .ok a
  | none => .error .badPointer

def assert (p : Bool) : Except Fault Unit := if p then .ok () else .error .assertion

/-- A call of the heap. -/
def onHeap {α : Type} : Except Mm.Fault α → Except Fault α
  | .ok a => .ok a
  | .error e => .error (.heap e)

/-- Bytes written over others from an offset on. -/
def overwrite (f : Nat → UInt8) (offset : Nat) (bytes : List UInt8) : Nat → UInt8 := fun i =>
  if offset ≤ i ∧ i < offset + bytes.length then bytes.getD (i - offset) 0 else f i

/-- The same for the record of the last writes. -/
def record (c : Nat → Option UInt8) (offset : Nat) (bytes : List UInt8) : Nat → Option UInt8 := fun i =>
  if offset ≤ i ∧ i < offset + bytes.length then some (bytes.getD (i - offset) 0) else c i

/-! ## Fences -/

def MAXFENCE : UInt32 := 0x7fffffff

def fenceLte (a b : UInt32) : Bool :=
  if a = b then true
  else if a < b ∧ b - a < 0x1000000 then true
  else if a > b ∧ MAXFENCE - a + b < 0x1000000 then true
  else false

def fenceTest (fence : UInt32) (s : State) : Bool := fence = 0 || fenceLte fence s.lastFence

/-- The block is taken off its list and its memory given back. -/
def releaseBlock (k : BlockId) (block : Block) (s : State) : Except Fault State := do
  let (_, mem) ← onHeap (Mm.mmFreeMem (some block.mem) s.heap.mem)
  return { s.unlink k with
    heap := { s.heap with mem := mem, out := s.heap.out.filter fun c => some block.mem ≠ some c }
    block := Function.update s.block k none }

/-- One block of the loop of `clear_fenced`: true if its fence has passed. -/
def clearBlock (k : BlockId) (s : State) : Except Fault (Bool × State) := do
  let block ← s.getBlock k
  assert block.fenced
  if fenceTest block.fence s then
    match block.bo with
    | none => do
        let s ← releaseBlock k block s
        return (true, s)
    | some _ =>
        let s := (s.setBlock k { block with fenced := false }).unlink k
        return (true, { s with lru := s.lru ++ [k] })
  else return (false, s)

/-- The loop stops at the first block whose fence has not passed. -/
def clearBlocks : List BlockId → State → Except Fault State
  | [], s => .ok s
  | k :: ks, s => do
      let (passed, s) ← clearBlock k s
      if passed then clearBlocks ks s else return s

def clearFenced (fenceCookie : UInt32) (s : State) : Except Fault State :=
  clearBlocks s.fenced { s with lastFence := fenceCookie }

def fenceEmitInternal (env : Env) (s : State) : UInt32 × State := (env.cookie s.emitted, { s with emitted := s.emitted + 1 })

def EBUSY : Int := 16
def EAGAIN : Int := 11
def EINTR : Int := 4

/-- How a wait ends. -/
inductive WaitExit
  | waiting
  | returned
  | failed
  | done
  deriving DecidableEq, Repr

/-- The loop of `_fence_wait_internal`. -/
def waitRounds (seq : Int) : List Round → Nat → WaitExit
  | [], _ => .waiting
  | r :: rs, busyCount =>
      -- case C
      if seq - r.hwSeq > 0x40000000 then .returned
      else
        -- case D
        let kernelLied := decide (r.ret = 0) && decide (seq - r.lied < -0x40000000)
        -- case E
        let ret := if r.ret = -EBUSY ∧ seq - r.wrapped > 0x40000000 then 0 else r.ret
        -- case F
        let busyCount := if ret = -EBUSY ∧ r.hwSeq ≠ r.progress then 0 else busyCount + 1
        if kernelLied || ret = -EAGAIN || ret = -EINTR || (ret = -EBUSY && busyCount < 5) then
          waitRounds seq rs busyCount
        else if ret ≠ 0 then .failed
        else .done

def fenceWaitInternal (env : Env) (fence : UInt32) (s : State) : Except Fault State :=
  if env.fenceCallback then clearFenced fence s
  else
    let s' := { s with waits := s.waits + 1 }
    match waitRounds (CInt.int32 fence.toNat) (env.rounds s.waits) 0 with
    | .waiting => .error .endless
    | .returned => .ok s'
    | .failed => .error .abort
    | .done => clearFenced fence s'

def waitIdle (env : Env) (s : State) : Except Fault State :=
  let (cookie, s) := fenceEmitInternal env s
  fenceWaitInternal env cookie s

def waitRenderingLocked (env : Env) (b : BoId) (s : State) : Except Fault State := do
  let bo ← s.getBo b
  match bo.block with
  | none => return s
  | some k => do
      let block ← s.getBlock k
      if !block.fenced then return s else fenceWaitInternal env block.fence s

/-! ## Blocks -/

/-- The size of the block for a buffer: an `unsigned int`, rounded up to the alignment, a power of two. -/
def blockSize (size alignment : Nat) : Nat := (size + alignment - 1) % 2 ^ 32 / alignment * alignment

/-- True if there is memory for a block; it comes to the end of `lru`.  The `calloc` calls, of the block and of the
    heap, are taken to succeed. -/
def allocBlock (b : BoId) (s : State) : Except Fault (Bool × State) := do
  let bo ← s.getBo b
  let (mem, heapMem) ← onHeap (Mm.mmAllocMem {} (some s.heap.heap)
    (CInt.int32 (blockSize bo.size bo.alignment)) (Nat.log2 bo.alignment) 0 s.heap.mem)
  match mem with
  | none => return (false, { s with heap := { s.heap with mem := heapMem } })
  | some mem =>
      let k := s.freshBlock
      let s := { s with
        heap := { s.heap with mem := heapMem, out := mem :: s.heap.out }
        block := Function.update s.block k (some { mem, bo := some b })
        freshBlock := k + 1
        lru := s.lru ++ [k] }
      return (true, s.setBo b { bo with block := some k })

/-- What the card holds for a buffer of the given size in the block, over what was there. -/
def copyOut (block : Block) (size : Nat) (old : Nat → UInt8) (s : State) : Nat → UInt8 := fun i =>
  if i < size then s.card (s.ofs block + i) else old i

/-- The card memory after the bytes were copied to the block. -/
def copyIn (block : Block) (size : Nat) (bytes : Nat → UInt8) (s : State) : Int → UInt8 := fun a =>
  if s.ofs block ≤ a ∧ a < s.ofs block + size then bytes (a - s.ofs block).toNat else s.card a

/-- `memcpy(bo_fake->backing_store, block->virtual, size)`; the backing store is current again. -/
def saveBlock (b : BoId) (block : Block) (s : State) : Except Fault State := do
  let bo ← s.getBo b
  let old ← deref bo.backingStore
  return s.setBo b { bo with backingStore := some (copyOut block bo.size old s), cardDirty := false }

/-- The end of `free_block`: a block that the hardware may use is left without buffer. -/
def dropBlock (k : BlockId) (block : Block) (s : State) : Except Fault State :=
  if block.onHardware then .ok (s.setBlock k { block with bo := none })
  else if block.fenced then .ok (s.setBlock k { block with bo := none })
  else releaseBlock k block s

def freeBlock (k : BlockId) (skipDirtyCopy : Bool) (s : State) : Except Fault State := do
  let block ← s.getBlock k
  let b ← deref block.bo
  let bo ← s.getBo b
  let skip := skipDirtyCopy || bo.flags.pinned || bo.flags.noBackingStore
  let s ←
    if !skip && bo.cardDirty then do
      let s ← saveBlock b block s
      s.modifyBo b fun bo => { bo with dirty := true }
    else pure s
  dropBlock k block s

def allocBackingStore (env : Env) (b : BoId) (s : State) : Except Fault State := do
  let bo ← s.getBo b
  assert bo.backingStore.isNone
  assert !(bo.flags.pinned || bo.flags.noBackingStore)
  return s.setBo b { bo with backingStore := some (env.garbage b) }

/-- The callback of a buffer without backing store makes no calls of the manager. -/
def setDirty (b : BoId) (s : State) : Except Fault State := do
  let bo ← s.getBo b
  assert !bo.flags.pinned
  return s.setBo b { bo with dirty := true }

/-- The common end of `evict_lru` and `evict_mru`. -/
def evictBlock (k : BlockId) (b : BoId) (s : State) : Except Fault State := do
  let s ← setDirty b s
  let s ← s.modifyBo b fun bo => { bo with block := none }
  freeBlock k false s

/-- The first block of the list that is not passed over; `stop` says that the search ends at the block. -/
def evictFirst (stop : Block → Bool) : List BlockId → State → Except Fault (Bool × State)
  | [], s => .ok (false, s)
  | k :: ks, s => do
      let block ← s.getBlock k
      match block.bo with
      | none => if stop block then return (false, s) else .error .badPointer
      | some b => do
          let bo ← s.getBo b
          if bo.flags.noFenceSubdata then evictFirst stop ks s
          else if stop block then return (false, s)
          else do
            let s ← evictBlock k b s
            return (true, s)

def evictLru (maxFence : UInt32) (s : State) : Except Fault (Bool × State) :=
  evictFirst (fun block => block.fence ≠ 0 && maxFence ≠ 0 && !fenceLte block.fence maxFence) s.lru s

def evictMru (s : State) : Except Fault (Bool × State) := evictFirst (fun _ => false) s.lru.reverse s

/-- `while (evict()) if (alloc_block(bo)) return 1`. -/
def evictLoop (evict : State → Except Fault (Bool × State)) (b : BoId) : Nat → State → Except Fault (Bool × State)
  | 0, _ => .error .endless
  | n + 1, s => do
      let (evicted, s) ← evict s
      if !evicted then return (false, s)
      else do
        let (done, s) ← allocBlock b s
        if done then return (true, s) else evictLoop evict b n s

/-- `while (!DRMLISTEMPTY(&bufmgr_fake->fenced))` the first fence is waited for; then `next`, true to stop. -/
def waitLoop (env : Env) (next : State → Except Fault (Bool × State)) : Nat → State → Except Fault (Bool × State)
  | 0, _ => .error .endless
  | n + 1, s =>
      match s.fenced with
      | [] => .ok (false, s)
      | k :: _ => do
          let block ← s.getBlock k
          let s ← fenceWaitInternal env block.fence s
          let (done, s) ← next s
          if done then return (true, s) else waitLoop env next n s

/-- The part of `evict_and_alloc_block` for buffers on the hardware. -/
def allocBehindHardware (env : Env) (b : BoId) (s : State) : Except Fault (Bool × State) :=
  if s.onHardware = [] then .ok (false, s)
  else do
    let (_, s) ← waitLoop env (fun s => .ok (false, s)) env.fuel s
    allocBlock b { s with thrashing := 20 }

/-- The next way to get memory is tried when this one gave none. -/
def orElse (first next : State → Except Fault (Bool × State)) (s : State) : Except Fault (Bool × State) := do
  let (done, s) ← first s
  if done then return (true, s) else next s

def evictAndAllocBlock (env : Env) (b : BoId) (s : State) : Except Fault (Bool × State) := do
  let bo ← s.getBo b
  assert bo.block.isNone
  orElse (allocBlock b) (orElse
    (fun s => if s.thrashing = 0 then evictLoop (evictLru 0) b env.fuel s else .ok (false, s)) (orElse
    (fun s => waitLoop env (allocBlock b) env.fuel (if s.thrashing ≠ 0 then { s with thrashing := 20 } else s)) (orElse
    (allocBehindHardware env b)
    (evictLoop evictMru b env.fuel)))) s

end LibDrm.Fake
