/-
# `LibDrm.SL.List` — the skip lists of `xf86drmSL.c`

An entry of a skip list has an array of forward pointers, one for each level it
stands on; the head has all 17.  `SLLocate` goes along each level, from the
highest in use down, to the last entry whose key is smaller, and notes these
entries in the local array `update` of its caller; insertion and deletion
relink them.

An access to a forward pointer that the entry does not have, and a read of
a slot of `update` that was not written, are faults of their own.
-/
import LibDrm.Lib.Arith
import Mathlib.Logic.Function.Basic

namespace LibDrm.SL

open CInt (int32)

def SL_LIST_MAGIC : UInt64 := 0xfacade00

def SL_ENTRY_MAGIC : UInt64 := 0x00fab1ed

def SL_FREED_MAGIC : UInt64 := 0xdecea5ed

abbrev SL_MAX_LEVEL : Nat := 16

abbrev Addr := Nat

/-- `SLEntry`; `forward` has `levels` slots. -/
structure SLEntry where
  magic : UInt64
  key : UInt64
  value : Option Addr
  levels : Nat
  forward : Nat → Option Addr

/-- `SkipList`, with the memory that its entries are in and the address of the next one.
`p0` is the position of an iteration. -/
structure SkipList where
  magic : UInt64
  level : Nat
  count : Int
  head : Addr
  p0 : Option Addr
  mem : Addr → Option SLEntry
  fresh : Addr

inductive Fault
  | badPointer
  | outOfBounds
  | uninitialised
  | outOfFuel
  deriving DecidableEq, Repr

/-- The local array `update`; the slots that were not written yet are `none`. -/
abbrev Update := Nat → Option Addr

def deref {α : Type} (o : Option α) : Except Fault α := o.elim (.error .badPointer) .ok

/-- A slot of `update` is read. -/
def Update.get (u : Update) (i : Nat) : Except Fault Addr := (u i).elim (.error .uninitialised) .ok

namespace SkipList

/-- `x->forward[i]`. -/
def fwd (x : Addr) (i : Nat) (l : SkipList) : Except Fault (Option Addr) := do
  let e ← deref (l.mem x)
  if i < e.levels then return e.forward i else .error .outOfBounds

/-- `x->forward[i] = p`. -/
def setFwd (x : Addr) (i : Nat) (p : Option Addr) (l : SkipList) : Except Fault SkipList := do
  let e ← deref (l.mem x)
  if i < e.levels then
    return { l with mem := Function.update l.mem x (some { e with forward := Function.update e.forward i p }) }
  else .error .outOfBounds

end SkipList

/-! ## Making lists and entries -/

/-- `SLCreateEntry`; the memory is zeroed. -/
def slCreateEntry (maxLevel : Int) (key : UInt64) (value : Option Addr) : SLEntry :=
  let maxLevel := if maxLevel < 0 ∨ maxLevel > SL_MAX_LEVEL then SL_MAX_LEVEL else maxLevel.toNat
  { magic := SL_ENTRY_MAGIC, key := key, value := value, levels := maxLevel + 1, forward := fun _ => none }

/-- The loop of `SLRandomLevel`; `random` are the numbers of the generator. -/
def randomLevelFrom (random : Nat → UInt64) : Nat → Nat → Nat
  | 0, level => level
  | k + 1, level => if random level % 2 = 1 then randomLevelFrom random k (level + 1) else level

/-- `SLRandomLevel`. -/
def slRandomLevel (random : Nat → UInt64) : Nat := randomLevelFrom random (SL_MAX_LEVEL - 1) 1

/-- `drmSLCreate`; the position of an iteration is not initialised. -/
def drmSLCreate (p0 : Option Addr) : SkipList where
  magic := SL_LIST_MAGIC
  level := 0
  count := 0
  head := 0
  p0 := p0
  mem := Function.update (fun _ => none) 0 (some (slCreateEntry SL_MAX_LEVEL 0 none))
  fresh := 1

/-! ## Searching -/

/-- The inner loop of `SLLocate`, along the level `i`. -/
def walkLevel (l : SkipList) (key : UInt64) (i : Nat) : Nat → Addr → Except Fault Addr
  | 0, _ => .error .outOfFuel
  | k + 1, entry => do
      let next ← l.fwd entry i
      match next with
      | none => return entry
      | some n => do
          let e ← deref (l.mem n)
          if e.key < key then walkLevel l key i k n else return entry

/-- The outer loop of `SLLocate`, from the level `i` down. -/
def locateFrom (l : SkipList) (key : UInt64) : Nat → Addr → Update → Except Fault (Addr × Update)
  | 0, entry, update => do
      let entry ← walkLevel l key 0 (l.fresh + 1) entry
      return (entry, Function.update update 0 (some entry))
  | i + 1, entry, update => do
      let entry ← walkLevel l key (i + 1) (l.fresh + 1) entry
      locateFrom l key i entry (Function.update update (i + 1) (some entry))

/-- `SLLocate`: the first entry whose key is not smaller, and `update`. -/
def slLocate (l : SkipList) (key : UInt64) (update : Update) : Except Fault (Option Addr × Update) :=
  if l.magic ≠ SL_LIST_MAGIC then .ok (none, update)
  else do
    let (entry, update) ← locateFrom l key l.level l.head update
    let next ← l.fwd entry 0
    return (next, update)

/-- The test that follows `SLLocate`: the entry is there and has the key. -/
def hasKey (l : SkipList) (key : UInt64) : Option Addr → Except Fault Bool
  | none => .ok false
  | some x => do
      let e ← deref (l.mem x)
      return e.key == key

/-! ## The operations -/

/-- One round of the loop in `drmSLInsert`: `entry` is linked in on the level `i`. -/
def linkLevel (entry : Addr) (update : Update) (l : SkipList) (i : Nat) : Except Fault SkipList := do
  let u ← update.get i
  let next ← l.fwd u i
  let l ← l.setFwd entry i next
  l.setFwd u i (some entry)

/-- `drmSLInsert`; the allocation succeeds. -/
def drmSLInsert (random : Nat → UInt64) (key : UInt64) (value : Option Addr) (l : SkipList) :
    Except Fault (Int × SkipList) :=
  if l.magic ≠ SL_LIST_MAGIC then .ok (-1, l)
  else do
    let (entry, update) ← slLocate l key fun _ => none
    let found ← hasKey l key entry
    if found then return (1, l)
    else do
      let level := slRandomLevel random
      let grow := level > l.level
      let level := if grow then l.level + 1 else level
      let update := if grow then Function.update update level (some l.head) else update
      let entry := l.fresh
      let l := { l with
        level := if grow then l.level + 1 else l.level
        mem := Function.update l.mem entry (some (slCreateEntry level key value))
        fresh := l.fresh + 1 }
      let l ← (List.range (level + 1)).foldlM (linkLevel entry update) l
      return (0, { l with count := int32 (l.count + 1) })

/-- One round of the loop in `drmSLDelete`: `entry` is taken off the level `i` if it is on it. -/
def unlinkLevel (entry : Addr) (update : Update) (l : SkipList) (i : Nat) : Except Fault SkipList := do
  let u ← update.get i
  let next ← l.fwd u i
  if next = some entry then do
    let after ← l.fwd entry i
    l.setFwd u i after
  else return l

/-- The last loop of `drmSLDelete`: the levels that have become empty are given up. -/
def lowerLevel (l : SkipList) : Nat → Except Fault Nat
  | 0 => .ok 0
  | i + 1 => do
      let next ← l.fwd l.head (i + 1)
      if next = none then lowerLevel l i else return i + 1

/-- `drmSLDelete`. -/
def drmSLDelete (key : UInt64) (l : SkipList) : Except Fault (Int × SkipList) :=
  if l.magic ≠ SL_LIST_MAGIC then .ok (-1, l)
  else do
    let (entry, update) ← slLocate l key fun _ => none
    match entry with
    | none => return (1, l)
    | some x => do
        let found ← hasKey l key (some x)
        if !found then return (1, l)
        else do
          let l ← (List.range (l.level + 1)).foldlM (unlinkLevel x update) l
          let l := { l with mem := Function.update l.mem x none }
          let level ← lowerLevel l l.level
          return (0, { l with level := level, count := int32 (l.count - 1) })

/-- `drmSLLookup`: the return code, and what is stored through the pointer. -/
def drmSLLookup (key : UInt64) (l : SkipList) : Except Fault (Int × Option Addr) := do
  let (entry, _) ← slLocate l key fun _ => none
  let found ← hasKey l key entry
  -- the entry itself is stored, not its value
  if found then return (0, entry) else return (-1, none)

/-- What `drmSLLookupNeighbors` returns and stores. -/
structure Neighbors where
  retcode : Int
  prevKey : UInt64
  prevValue : Option Addr
  nextKey : UInt64
  nextValue : Option Addr
  deriving DecidableEq, Repr

/-- `drmSLLookupNeighbors`.  Nothing is written to the local array `update` before it is read:
what is in it is the second argument. -/
def drmSLLookupNeighbors (key : UInt64) (update : Nat → Option Addr) (l : SkipList) : Except Fault Neighbors :=
  match update 0 with
  | none => .ok ⟨0, key, none, key, none⟩
  | some u => do
      let e ← deref (l.mem u)
      let next ← l.fwd u 0
      match next with
      | none => return ⟨1, e.key, e.value, key, none⟩
      | some n => do
          let f ← deref (l.mem n)
          return ⟨2, e.key, e.value, f.key, f.value⟩

end LibDrm.SL
