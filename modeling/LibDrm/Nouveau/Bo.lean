/-
# `LibDrm.Nouveau.Bo` — buffer objects of nouveau, and the calls that share them

Any number of threads take and drop references to the buffers of one device.  The calls are cut
where another thread can come in between: a step is an atomic operation on a reference count, a
section that holds the lock of the device, or what a call does by itself after that.

    nouveau_bo_ref               atomic_inc of the one, then atomic_dec_and_test of the other
    nouveau_bo_del               reads the handle; locked section; munmap and free
    nouveau_bo_name_ref          locked section
    nouveau_bo_prime_handle_ref  nouveau_bo_ref(NULL, bo); locked section

The memory of a buffer is there until it is freed; a step that reads it after that is an error.
-/
import LibDrm.Lib.Arith
import LibDrm.Lib.Returns

namespace LibDrm.Nouveau

abbrev Handle := Nat

abbrev BoId := Nat

/-- The name `~0`, of a buffer that is shared by prime only. -/
def primeName : Nat := 2 ^ 32 - 1

/-- `struct nouveau_bo_priv`. -/
structure Bo where
  handle : Handle
  name : Nat := 0
  refcnt : Int := 1
  deriving DecidableEq, Repr

inductive Fault
  /-- The step is not to be taken here. -/
  | disabled
  /-- The memory of the buffer was freed. -/
  | freed (b : BoId)
  | badPointer
  deriving DecidableEq, Repr

/-- Where a call stands between two steps. -/
inductive Pc
  | dropping (b : BoId)                   -- `atomic_dec_and_test` comes next
  | deleting (b : BoId)                   -- the count was 1
  | locking (b : BoId) (handle : Handle)  -- `nouveau_bo_del` waits for the lock
  | closing (b : BoId) (handle : Handle)  -- the buffer had no name, and is off the list
  | freeing (b : BoId)
  deriving DecidableEq, Repr

/-- The buffer of the call. -/
def Pc.bo : Pc → BoId
  | .dropping b => b
  | .deleting b => b
  | .locking b _ => b
  | .closing b _ => b
  | .freeing b => b

/-- The call has a reference. -/
def Pc.owns : Pc → Bool
  | .dropping _ => true
  | _ => false

/-- The call is in `nouveau_bo_del`, and has not had the lock. -/
def Pc.pending : Pc → Bool
  | .deleting _ => true
  | .locking _ _ => true
  | _ => false

/-- The buffer of the call is off the list. -/
def Pc.leaving : Pc → Bool
  | .closing _ _ => true
  | .freeing _ => true
  | _ => false

/-- A device, the references that its callers hold, and the calls under way.  What was closed and freed for a buffer is
    counted. -/
structure Threads where
  bo : BoId → Option Bo
  fresh : BoId
  boList : List BoId
  opened : Handle → Bool
  /-- A call has returned without giving back the lock. -/
  lock : Bool := false
  callers : BoId → Nat
  calls : List Pc := []
  closes : BoId → Nat := fun _ => 0
  frees : BoId → Nat := fun _ => 0

namespace Threads

/-- Reading the memory of a buffer. -/
def touch (b : BoId) (σ : Threads) : Except Fault Bo :=
  match σ.bo b with
  | some bo => .ok bo
  | none => .error (.freed b)

def setBo (b : BoId) (bo : Bo) (σ : Threads) : Threads := { σ with bo := Function.update σ.bo b (some bo) }

/-- A caller has one more reference. -/
def take (b : BoId) (σ : Threads) : Threads := { σ with callers := Function.update σ.callers b (σ.callers b + 1) }

def giveUp (b : BoId) (σ : Threads) : Threads := { σ with callers := Function.update σ.callers b (σ.callers b - 1) }

def close (b : BoId) (handle : Handle) (σ : Threads) : Threads :=
  { σ with opened := Function.update σ.opened handle false, closes := Function.update σ.closes b (σ.closes b + 1) }

/-- The call at the place `i`, and the others. -/
def pick (i : Nat) (σ : Threads) : Except Fault (Pc × List Pc) :=
  match σ.calls[i]? with
  | some pc => .ok (pc, σ.calls.eraseIdx i)
  | none => .error .disabled

end Threads

def enabled (p : Bool) : Except Fault Unit := if p then .ok () else .error .disabled

/-! ## Sections -/

/-- The first buffer on the list with a property. -/
def findBo (p : Bo → Bool) (σ : Threads) : List BoId → Except Fault (Option BoId)
  | [] => .ok none
  | b :: l => do
      let bo ← σ.touch b
      if p bo then return some b else findBo p σ l

def atomicInc (b : BoId) (σ : Threads) : Except Fault Threads := do
  let bo ← σ.touch b
  return σ.setBo b { bo with refcnt := bo.refcnt + 1 }

/-- `nouveau_bo_wrap_locked`; `info` and `alloc` say whether `GEM_INFO` and `calloc` succeed. -/
def wrapLocked (handle : Handle) (info alloc : Bool) (σ : Threads) : Except Fault (Option BoId × Threads) := do
  let found ← findBo (fun bo => bo.handle = handle) σ σ.boList
  match found with
  | some b => do
      let σ ← atomicInc b σ
      return (some b, σ)
  | none =>
      if info && alloc then
        return (some σ.fresh,
          { σ.setBo σ.fresh { handle } with fresh := σ.fresh + 1, boList := σ.fresh :: σ.boList })
      else return (none, σ)

/-- `nouveau_bo_name_ref` into a pointer that is null; `reply` is the handle of `GEM_OPEN`.  Without it the lock is
    kept, and without a buffer the name is written to the null pointer. -/
def nameRef (name : Nat) (reply : Option Handle) (info alloc : Bool) (σ : Threads) : Except Fault Threads := do
  enabled (!σ.lock)
  let found ← findBo (fun bo => bo.name = name) σ σ.boList
  match found with
  | some b => do
      let σ ← atomicInc b σ
      return σ.take b
  | none =>
      match reply with
      | none => return { σ with lock := true }
      | some handle => do
          let σ := { σ with opened := Function.update σ.opened handle true }
          let (b, σ) ← wrapLocked handle info alloc σ
          match b with
          | none => .error .badPointer
          | some b => do
              let bo ← σ.touch b
              return (σ.setBo b { bo with name }).take b

/-- The locked section of `nouveau_bo_prime_handle_ref`. -/
def primeHandleRef (reply : Option Handle) (info alloc : Bool) (σ : Threads) : Except Fault Threads := do
  enabled (!σ.lock)
  match reply with
  | none => return σ
  | some handle => do
      let σ := { σ with opened := Function.update σ.opened handle true }
      let (b, σ) ← wrapLocked handle info alloc σ
      match b with
      | none => return σ
      | some b => do
          let bo ← σ.touch b
          return (σ.setBo b { bo with name := if bo.name = 0 then primeName else bo.name }).take b

/-- The locked section of `nouveau_bo_del`, and what the call has to do after it. -/
def boDelLocked (b : BoId) (handle : Handle) (rest : List Pc) (σ : Threads) : Except Fault Threads := do
  enabled (!σ.lock)
  let bo ← σ.touch b
  if bo.name ≠ 0 then
    -- revived, or closed with the lock held
    if bo.refcnt ≠ 0 then return { σ with calls := rest }
    else return { (σ.close b handle) with boList := σ.boList.erase b, calls := .freeing b :: rest }
  else return { σ with boList := σ.boList.erase b, calls := .closing b handle :: rest }

/-! ## Steps -/

/-- `atomic_inc` of the buffer that is referred to, for the caller. -/
def refInc (bo : Option BoId) (σ : Threads) : Except Fault Threads :=
  match bo with
  | none => .ok σ
  | some b => do
      let σ ← atomicInc b σ
      return σ.take b

/-- The begin of `nouveau_bo_ref(bo, &ref)`: the reference of `ref` goes to the call. -/
def refStart (bo ref : Option BoId) (σ : Threads) : Except Fault Threads := do
  enabled (bo.all (fun b => 0 < σ.callers b) && ref.all fun b => 0 < σ.callers b)
  let σ ← refInc bo σ
  match ref with
  | none => return σ
  | some b => return { σ.giveUp b with calls := .dropping b :: σ.calls }

/-- `atomic_dec_and_test`. -/
def atomicDecAndTest (b : BoId) (rest : List Pc) (σ : Threads) : Except Fault Threads := do
  let bo ← σ.touch b
  let σ := σ.setBo b { bo with refcnt := bo.refcnt - 1 }
  return { σ with calls := if bo.refcnt = 1 then .deleting b :: rest else rest }

/-- The next step of a call. -/
def advance (i : Nat) (σ : Threads) : Except Fault Threads := do
  let (pc, rest) ← σ.pick i
  match pc with
  | .dropping b => atomicDecAndTest b rest σ
  | .deleting b => do
      let bo ← σ.touch b
      return { σ with calls := .locking b bo.handle :: rest }
  | .locking b handle => boDelLocked b handle rest σ
  | .closing b handle => return { σ.close b handle with calls := .freeing b :: rest }
  | .freeing b => do
      let _ ← σ.touch b
      return { σ with
        bo := Function.update σ.bo b none, frees := Function.update σ.frees b (σ.frees b + 1), calls := rest }

inductive Move
  | ref (bo ref : Option BoId)
  | nameRef (name : Nat) (reply : Option Handle) (info alloc : Bool)
  | primeHandleRef (reply : Option Handle) (info alloc : Bool)
  | advance (i : Nat)

def Move.run : Move → Threads → Except Fault Threads
  | .ref b d, σ => refStart b d σ
  | .nameRef name reply info alloc, σ => LibDrm.Nouveau.nameRef name reply info alloc σ
  | .primeHandleRef reply info alloc, σ => LibDrm.Nouveau.primeHandleRef reply info alloc σ
  | .advance i, σ => LibDrm.Nouveau.advance i σ

end LibDrm.Nouveau
