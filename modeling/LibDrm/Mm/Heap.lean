/-
# `LibDrm.Mm.Heap` — the range heap of `mm.c`

A heap manages a range of offsets.  Its blocks stand on two circular lists
that share the heap as their head: the list of all blocks in the order of their
offsets (`next`, `prev`) and the list of the free ones (`next_free`,
`prev_free`), whose order says nothing about offsets.

    mmInit       one free block
    mmAllocMem   first fit on the free list, then `SliceBlock` cuts the block
                 out of the free block, with up to two splits
    mmFreeMem    puts the block on the free list and joins it with the next
                 block and with the one before, where these are free

Arithmetic on `int` fails on an overflow, `assert` fails when it does not
hold, and a pointer that is NULL or leads to freed memory cannot be followed.
-/
import LibDrm.Lib.DList
import Mathlib.Algebra.Group.Int.Defs

namespace LibDrm.Mm

open DList (Mem)

abbrev BlockId := Nat

/-- `struct mem_block` without its list pointers. -/
structure MemBlock where
  heap : Option BlockId := none
  ofs : Int := 0
  size : Int := 0
  free : Bool := false
  reserved : Bool := false
  deriving DecidableEq, Repr

/-- What can go wrong in a call. -/
inductive Fault
  | badPointer
  | assertion
  | overflow
  | outOfFuel
  deriving DecidableEq, Repr

/-- The blocks in memory: `next` and `prev`, `next_free` and `prev_free`, the
other fields, and the address that `calloc` returns next. -/
structure Memory where
  list : Mem BlockId
  freeList : Mem BlockId
  block : BlockId → MemBlock
  fresh : BlockId

def deref {α : Type} (o : Option α) : Except Fault α := o.elim (.error .badPointer) .ok

/-- The result of an operation on `int`. -/
def int (x : Int) : Except Fault Int :=
  if -2 ^ 31 ≤ x ∧ x < 2 ^ 31 then .ok x else .error .overflow

namespace Memory

def empty : Memory := ⟨fun _ => none, fun _ => none, fun _ => {}, 0⟩

def ofs (m : Memory) (b : BlockId) : Int := (m.block b).ofs

def size (m : Memory) (b : BlockId) : Int := (m.block b).size

def free (m : Memory) (b : BlockId) : Bool := (m.block b).free

/-- The fields of the block that a pointer leads to. -/
def get (b : BlockId) (m : Memory) : Except Fault MemBlock :=
  if (m.list b).isSome then .ok (m.block b) else .error .badPointer

def modify (b : BlockId) (f : MemBlock → MemBlock) (m : Memory) : Memory :=
  { m with block := Function.update m.block b (f (m.block b)) }

/-- A new block at the address `fresh`. -/
def calloc (new : MemBlock) (m : Memory) : Memory where
  list := DList.calloc m.list m.fresh
  freeList := DList.calloc m.freeList m.fresh
  block := Function.update m.block m.fresh new
  fresh := m.fresh + 1

def release (b : BlockId) (m : Memory) : Memory :=
  { m with list := DList.free m.list b, freeList := DList.free m.freeList b }

end Memory

/-- `mmInit`; `heapOk` and `blockOk` say whether the two callocs succeed. -/
def mmInit (heapOk blockOk : Bool) (ofs size : Int) : Option BlockId × Memory :=
  if size ≤ 0 then (none, .empty)
  else if !heapOk then (none, .empty)
  else
    let heap := Memory.empty.fresh
    let m := Memory.empty.calloc {}
    if !blockOk then (none, m.release heap)
    else
      let block := m.fresh
      let m := m.calloc { heap := some heap, ofs := ofs, size := size, free := true }
      let ring : Mem BlockId := Function.update (Function.update m.list heap (some ⟨some block, some block⟩)) block
        (some ⟨some heap, some heap⟩)
      (some heap, { m with list := ring, freeList := ring })

/-- The common part of the two splits in `SliceBlock`: the end of `p` becomes a free block of its
own, which stands after `p` on both lists, and `p` keeps `rest`. -/
def breakBlock (p : BlockId) (ofs size rest : Int) (m : Memory) : Except Fault (BlockId × Memory) := do
  let b ← m.get p
  let newblock := m.fresh
  let m := m.calloc { heap := b.heap, ofs := ofs, size := size, free := true }
  let list ← deref (DList.insertAfter m.list newblock p)
  let freeList ← deref (DList.insertAfter m.freeList newblock p)
  let m := { m with list := list, freeList := freeList }
  return (newblock, m.modify p fun b => { b with size := rest })

/-- `SliceBlock`, "break left": the block that is left to cut from, or NULL. -/
def breakLeft (callocOk : Bool) (p : BlockId) (startofs : Int) (m : Memory) :
    Except Fault (Option BlockId × Memory) := do
  let b ← m.get p
  if startofs > b.ofs then
    if callocOk then do
      let before ← int (startofs - b.ofs)
      let size ← int (b.size - before)
      let rest ← int (b.size - size)
      let (newblock, m) ← breakBlock p startofs size rest m
      return (some newblock, m)
    else return (none, m)
  else return (some p, m)

/-- `SliceBlock`, "break right"; false where there is no memory. -/
def breakRight (callocOk : Bool) (p : BlockId) (startofs size : Int) (m : Memory) :
    Except Fault (Bool × Memory) := do
  let b ← m.get p
  if size < b.size then
    if callocOk then do
      let ofs ← int (startofs + size)
      let after ← int (b.size - size)
      let (_, m) ← breakBlock p ofs after size m
      return (true, m)
    else return (false, m)
  else return (true, m)

/-- `SliceBlock`, the end: the block is in use and off the free list. -/
def takeBlock (p : BlockId) (reserved : Bool) (m : Memory) : Except Fault Memory := do
  let freeList ← deref (DList.unlink m.freeList p)
  let freeList ← deref (DList.setNext freeList p none)
  let freeList ← deref (DList.setPrev freeList p none)
  let m := { m with freeList := freeList }
  return m.modify p fun b => { b with free := false, reserved := reserved }

/-- Whether the calloc of the left and of the right split of a call succeeds. -/
structure CallocReply where
  left : Bool := true
  right : Bool := true

def sliceBlock (r : CallocReply) (p : BlockId) (startofs size : Int) (reserved : Bool) (m : Memory) :
    Except Fault (Option BlockId × Memory) := do
  let (left, m) ← breakLeft r.left p startofs m
  match left with
  | none => return (none, m)
  | some p => do
      let (done, m) ← breakRight r.right p startofs size m
      if done then do
        let m ← takeBlock p reserved m
        return (some p, m)
      else return (none, m)

/-- Where a block of the free block `b` would start: `(p->ofs + mask) & ~mask`, which clears the
low `align2` bits, but not before `startSearch`. -/
def startOfs (b : MemBlock) (align2 : Nat) (startSearch : Int) : Except Fault Int := do
  let x ← int (b.ofs + (2 ^ align2 - 1))
  let startofs := x - x % 2 ^ align2
  return if startofs < startSearch then startSearch else startofs

/-- The loop of `mmAllocMem` over the free list: the first block that is large enough and where
the new block starts in it. -/
def searchFree (heap : BlockId) (size : Int) (align2 : Nat) (startSearch : Int) (m : Memory) :
    Nat → BlockId → Except Fault (Option (BlockId × Int))
  | 0, _ => .error .outOfFuel
  | k + 1, p =>
      if p = heap then .ok none
      else do
        let b ← m.get p
        if !b.free then .error .assertion
        else do
          let startofs ← startOfs b align2 startSearch
          let endofs ← int (startofs + size)
          let top ← int (b.ofs + b.size)
          if endofs ≤ top then return some (p, startofs)
          else do
            let next ← deref (DList.nxt m.freeList p)
            searchFree heap size align2 startSearch m k next

/-- `mmAllocMem`.  There are never more blocks than addresses handed out so far, so the loop
over the free list has fuel for all of them. -/
def mmAllocMem (r : CallocReply) (heap : Option BlockId) (size align2 startSearch : Int) (m : Memory) :
    Except Fault (Option BlockId × Memory) :=
  match heap with
  | none => .ok (none, m)
  | some heap =>
      if align2 < 0 ∨ size ≤ 0 then .ok (none, m)
      -- `1 << align2` does not fit
      else if 31 ≤ align2 then .error .overflow
      else do
        let first ← deref (DList.nxt m.freeList heap)
        let found ← searchFree heap size align2.toNat startSearch m (m.fresh + 1) first
        match found with
        | none => return (none, m)
        | some (p, startofs) => do
            let b ← m.get p
            if !b.free then .error .assertion
            else sliceBlock r p startofs size false m

/-- `Join2Blocks`: true if `p` was joined with the block after it. -/
def join2Blocks (p : BlockId) (m : Memory) : Except Fault (Bool × Memory) := do
  let b ← m.get p
  if !b.free then return (false, m)
  else do
    let q ← deref (DList.nxt m.list p)
    let c ← m.get q
    if !c.free then return (false, m)
    else do
      let top ← int (b.ofs + b.size)
      if top ≠ c.ofs then .error .assertion
      else do
        let size ← int (b.size + c.size)
        let next := DList.nxt m.list q
        let list ← deref (DList.setNext m.list p next)
        let next ← deref next
        let list ← deref (DList.setPrev list next (some p))
        let freeList ← deref (DList.unlink m.freeList q)
        let m := { m with list := list, freeList := freeList }
        return (true, (m.modify p fun b => { b with size := size }).release q)

/-- `mmFreeMem`. -/
def mmFreeMem (b : Option BlockId) (m : Memory) : Except Fault (Int × Memory) :=
  match b with
  | none => .ok (0, m)
  | some b => do
      let blk ← m.get b
      if blk.free then return (-1, m)
      else if blk.reserved then return (-1, m)
      else do
        let heap ← deref blk.heap
        let m := m.modify b fun b => { b with free := true }
        let freeList ← deref (DList.insertAfter m.freeList b heap)
        let m := { m with freeList := freeList }
        let (_, m) ← join2Blocks b m
        let blk ← m.get b
        let before := DList.prv m.list b
        if before ≠ blk.heap then do
          let before ← deref before
          let (_, m) ← join2Blocks before m
          return (0, m)
        else return (0, m)

end LibDrm.Mm
