/-
# `LibDrm.Omap.Bo` — devices and buffers of omap, and the calls that share them

A device is found by its file descriptor in `dev_table`, and a buffer by its handle in the
`handle_table` of its device.  The tables are guarded by `table_lock`; the counts are atomic, and
guarded by nothing.  The calls are cut where another thread can come in between: a step is an
atomic operation on a count, a section that holds the lock, or what a call does by itself.

    omap_device_new        locked section
    omap_device_del        atomic_dec_and_test; locked section; free
    omap_bo_new            GEM_NEW; locked section
    omap_bo_from_name      locked section
    omap_bo_from_dmabuf    locked section
    omap_bo_del            atomic_dec_and_test; locked section; omap_device_del; free

The memory of an object is there until it is freed, and so is a handle table until it is
destroyed; a step that reads them after that is an error.
-/
import LibDrm.Lib.Arith
import LibDrm.Lib.Returns

namespace LibDrm.Omap

abbrev Fd := Nat

abbrev Handle := Nat

abbrev DevId := Nat

abbrev BoId := Nat

/-- `struct omap_device`; its count and its table are apart. -/
structure Device where
  fd : Fd
  deriving DecidableEq, Repr

/-- `struct omap_bo`; its count is apart. -/
structure Bo where
  dev : DevId
  handle : Handle
  deriving DecidableEq, Repr

inductive Fault
  /-- The step is not to be taken here. -/
  | disabled
  | nullPointer
  /-- The memory of a device, of its handle table, or of a buffer was freed. -/
  | freedDev (d : DevId)
  | freedTable (d : DevId)
  | freedBo (b : BoId)
  deriving DecidableEq, Repr

/-- Where a call stands between two steps. -/
inductive Pc
  | boNew (d : DevId) (handle : Handle)         -- `omap_bo_new` has a handle, and waits for the lock
  | boDec (b : BoId)                            -- `omap_bo_del`, before `atomic_dec_and_test`
  | boUnlist (b : BoId)                         -- the count was 1
  | boRelease (b : BoId)                        -- before `omap_device_del` of its device
  | boFree (b : BoId)
  | devDec (d : DevId)                          -- `omap_device_del`, before `atomic_dec_and_test`
  | devUnlist (d : DevId) (next : Option BoId)  -- the count was 1; `next` is freed after the device
  | devFree (d : DevId) (next : Option BoId)
  deriving DecidableEq, Repr

abbrev HandleTable := Handle → Option BoId

/-- The memory, the tables, the handles that are open, the references that callers hold, and the calls under way.  What
    was freed is counted. -/
structure Threads where
  dev : DevId → Option Device := fun _ => none
  bo : BoId → Option Bo := fun _ => none
  devRefcnt : DevId → Int := fun _ => 0
  boRefcnt : BoId → Int := fun _ => 0
  /-- The table of a device, until it is destroyed. -/
  handleTable : DevId → Option HandleTable := fun _ => none
  /-- An entry is null when there was no memory for the device. -/
  devTable : Fd → Option (Option DevId) := fun _ => none
  freshDev : DevId := 0
  freshBo : BoId := 0
  opened : Fd → Handle → Bool
  devCallers : DevId → Nat := fun _ => 0
  boCallers : BoId → Nat := fun _ => 0
  calls : List Pc := []
  devFrees : DevId → Nat := fun _ => 0
  boFrees : BoId → Nat := fun _ => 0

namespace Threads

/-! ## Memory -/

def touchDev (d : DevId) (σ : Threads) : Except Fault Device :=
  match σ.dev d with
  | some dev => .ok dev
  | none => .error (.freedDev d)

def touchTable (d : DevId) (σ : Threads) : Except Fault HandleTable :=
  match σ.handleTable d with
  | some table => .ok table
  | none => .error (.freedTable d)

def touchBo (b : BoId) (σ : Threads) : Except Fault Bo :=
  match σ.bo b with
  | some bo => .ok bo
  | none => .error (.freedBo b)

def incDev (d : DevId) (σ : Threads) : Threads := { σ with devRefcnt := Function.update σ.devRefcnt d (σ.devRefcnt d + 1) }

def decDev (d : DevId) (σ : Threads) : Threads := { σ with devRefcnt := Function.update σ.devRefcnt d (σ.devRefcnt d - 1) }

def incBo (b : BoId) (σ : Threads) : Threads := { σ with boRefcnt := Function.update σ.boRefcnt b (σ.boRefcnt b + 1) }

def decBo (b : BoId) (σ : Threads) : Threads := { σ with boRefcnt := Function.update σ.boRefcnt b (σ.boRefcnt b - 1) }

def setTable (d : DevId) (table : Option HandleTable) (σ : Threads) : Threads :=
  { σ with handleTable := Function.update σ.handleTable d table }

def setOpened (fd : Fd) (handle : Handle) (open_ : Bool) (σ : Threads) : Threads :=
  { σ with opened := Function.update σ.opened fd (Function.update (σ.opened fd) handle open_) }

/-! ## References of the callers -/

def takeDev (d : DevId) (σ : Threads) : Threads :=
  { σ with devCallers := Function.update σ.devCallers d (σ.devCallers d + 1) }

def giveDev (d : DevId) (σ : Threads) : Threads :=
  { σ with devCallers := Function.update σ.devCallers d (σ.devCallers d - 1) }

def takeBo (b : BoId) (σ : Threads) : Threads := { σ with boCallers := Function.update σ.boCallers b (σ.boCallers b + 1) }

def giveBo (b : BoId) (σ : Threads) : Threads := { σ with boCallers := Function.update σ.boCallers b (σ.boCallers b - 1) }

/-- The call at the place `i`, and the others. -/
def pick (i : Nat) (σ : Threads) : Except Fault (Pc × List Pc) :=
  match σ.calls[i]? with
  | some pc => .ok (pc, σ.calls.eraseIdx i)
  | none => .error .disabled

end Threads

def enabled (p : Bool) : Except Fault Unit := if p then .ok () else .error .disabled

/-! ## Devices -/

def omap_device_ref (d : DevId) (σ : Threads) : Except Fault Threads := do
  let _ ← σ.touchDev d
  return σ.incDev d

/-- `alloc` says whether there is memory for a device. -/
def omap_device_new (fd : Fd) (alloc : Bool) (σ : Threads) : Except Fault (Option DevId × Threads) :=
  match σ.devTable fd with
  | none =>
      if alloc then
        let d := σ.freshDev
        .ok (some d, { σ with
          dev := Function.update σ.dev d (some { fd }), devRefcnt := Function.update σ.devRefcnt d 1
          handleTable := Function.update σ.handleTable d (some fun _ => none)
          devTable := Function.update σ.devTable fd (some (some d)), freshDev := d + 1 })
      else .ok (none, { σ with devTable := Function.update σ.devTable fd (some none) })
  | some none => .error .nullPointer
  | some (some d) => return (some d, ← omap_device_ref d σ)

/-- `atomic_dec_and_test` of `omap_device_del`, and what the call does next. -/
def devDecAndTest (d : DevId) (next : Option BoId) (rest : List Pc) (σ : Threads) : Except Fault Threads := do
  let _ ← σ.touchDev d
  return { σ.decDev d with
    calls := if σ.devRefcnt d = 1 then .devUnlist d next :: rest else (next.map Pc.boFree).toList ++ rest }

/-- The locked section of `omap_device_del`. -/
def devUnlist (d : DevId) (σ : Threads) : Except Fault Threads := do
  let dev ← σ.touchDev d
  let _ ← σ.touchTable d
  return { σ.setTable d none with devTable := Function.update σ.devTable dev.fd none }

def devFree (d : DevId) (σ : Threads) : Except Fault Threads := do
  let _ ← σ.touchDev d
  return { σ with dev := Function.update σ.dev d none, devFrees := Function.update σ.devFrees d (σ.devFrees d + 1) }

/-! ## Buffers -/

def omap_bo_ref (b : BoId) (σ : Threads) : Except Fault Threads := do
  let _ ← σ.touchBo b
  return σ.incBo b

def lookup_bo (d : DevId) (handle : Handle) (σ : Threads) : Except Fault (Option BoId × Threads) := do
  let _ ← σ.touchDev d
  let table ← σ.touchTable d
  match table handle with
  | some b => return (some b, ← omap_bo_ref b σ)
  | none => return (none, σ)

/-- A key that is in the table keeps its value. -/
def drmHashInsert (table : HandleTable) (handle : Handle) (b : BoId) : HandleTable :=
  if (table handle).isSome then table else Function.update table handle (some b)

/-- `alloc` says whether there is memory for a buffer. -/
def bo_from_handle (d : DevId) (handle : Handle) (alloc : Bool) (σ : Threads) :
    Except Fault (Option BoId × Threads) := do
  let dev ← σ.touchDev d
  if alloc then do
    let b := σ.freshBo
    let σ ← omap_device_ref d σ
    let table ← σ.touchTable d
    return (some b, { σ.setTable d (some (drmHashInsert table handle b)) with
      bo := Function.update σ.bo b (some { dev := d, handle }), boRefcnt := Function.update σ.boRefcnt b 1
      freshBo := b + 1 })
  else return (none, σ.setOpened dev.fd handle false)

/-- The locked section of `omap_bo_from_name` and of `omap_bo_from_dmabuf`, with the handle that the kernel gives. -/
def boImport (d : DevId) (handle : Handle) (alloc : Bool) (σ : Threads) : Except Fault (Option BoId × Threads) := do
  let dev ← σ.touchDev d
  let (b, σ) ← lookup_bo d handle (σ.setOpened dev.fd handle true)
  match b with
  | some b => return (some b, σ)
  | none => bo_from_handle d handle alloc σ

/-- Without memory for the buffer the name is written to a null pointer. -/
def omap_bo_from_name (d : DevId) (reply : Option Handle) (alloc : Bool) (σ : Threads) : Except Fault Threads :=
  match reply with
  | none => .ok σ
  | some handle => do
      let (b, σ) ← boImport d handle alloc σ
      match b with
      | some b => return σ.takeBo b
      | none => .error .nullPointer

def omap_bo_from_dmabuf (d : DevId) (reply : Option Handle) (alloc : Bool) (σ : Threads) : Except Fault Threads :=
  match reply with
  | none => .ok σ
  | some handle => do
      let (b, σ) ← boImport d handle alloc σ
      match b with
      | some b => return σ.takeBo b
      | none => return σ

/-- The begin of `omap_bo_new`: `GEM_NEW`, with the handle that the kernel gives.  The call has the reference that its
    caller has to the device. -/
def boNewStart (d : DevId) (reply : Option Handle) (σ : Threads) : Except Fault Threads :=
  match reply with
  | none => .ok σ
  | some handle => do
      let dev ← σ.touchDev d
      return { (σ.setOpened dev.fd handle true).giveDev d with calls := .boNew d handle :: σ.calls }

/-- The locked section of `omap_bo_new`; without memory for the buffer its size is written to a null pointer. -/
def boNewLocked (d : DevId) (handle : Handle) (alloc : Bool) (σ : Threads) : Except Fault Threads := do
  let (b, σ) ← bo_from_handle d handle alloc σ
  match b with
  | some b => return σ.takeBo b
  | none => .error .nullPointer

/-- `atomic_dec_and_test` of `omap_bo_del`, and what the call does next. -/
def boDecAndTest (b : BoId) (rest : List Pc) (σ : Threads) : Except Fault Threads := do
  let bo ← σ.touchBo b
  return { σ.decBo b with
    calls := if σ.boRefcnt b = 1 then (if bo.handle ≠ 0 then .boUnlist b else .boRelease b) :: rest else rest }

/-- The locked section of `omap_bo_del`. -/
def boUnlist (b : BoId) (σ : Threads) : Except Fault Threads := do
  let bo ← σ.touchBo b
  let dev ← σ.touchDev bo.dev
  let table ← σ.touchTable bo.dev
  return (σ.setTable bo.dev (some (Function.update table bo.handle none))).setOpened dev.fd bo.handle false

def boFree (b : BoId) (σ : Threads) : Except Fault Threads := do
  let _ ← σ.touchBo b
  return { σ with bo := Function.update σ.bo b none, boFrees := Function.update σ.boFrees b (σ.boFrees b + 1) }

/-! ## Steps -/

/-- The next step of a call. -/
def advance (i : Nat) (alloc : Bool) (σ : Threads) : Except Fault Threads := do
  let (pc, rest) ← σ.pick i
  match pc with
  | .boNew d handle => boNewLocked d handle alloc (Threads.takeDev d { σ with calls := rest })
  | .boDec b => boDecAndTest b rest σ
  | .boUnlist b => boUnlist b { σ with calls := .boRelease b :: rest }
  | .boRelease b => do
      let bo ← σ.touchBo b
      devDecAndTest bo.dev (some b) rest σ
  | .boFree b => boFree b { σ with calls := rest }
  | .devDec d => devDecAndTest d none rest σ
  | .devUnlist d next => devUnlist d { σ with calls := .devFree d next :: rest }
  | .devFree d next => devFree d { σ with calls := (next.map Pc.boFree).toList ++ rest }

inductive Move
  | deviceNew (fd : Fd) (alloc : Bool)
  | deviceRef (d : DevId)
  | deviceDel (d : DevId)
  | boNew (d : DevId) (reply : Option Handle)
  | fromName (d : DevId) (reply : Option Handle) (alloc : Bool)
  | fromDmabuf (d : DevId) (reply : Option Handle) (alloc : Bool)
  | boRef (b : BoId)
  | boDel (b : BoId)
  | advance (i : Nat) (alloc : Bool)

/-- A call on an object is made by who has a reference to it. -/
def Move.run : Move → Threads → Except Fault Threads
  | .deviceNew fd alloc, σ => do
      let (d, σ) ← omap_device_new fd alloc σ
      return d.elim σ σ.takeDev
  | .deviceRef d, σ => do
      enabled (0 < σ.devCallers d)
      return (← omap_device_ref d σ).takeDev d
  | .deviceDel d, σ => do
      enabled (0 < σ.devCallers d)
      return { σ.giveDev d with calls := .devDec d :: σ.calls }
  | .boNew d reply, σ => do
      enabled (0 < σ.devCallers d)
      boNewStart d reply σ
  | .fromName d reply alloc, σ => do
      enabled (0 < σ.devCallers d)
      omap_bo_from_name d reply alloc σ
  | .fromDmabuf d reply alloc, σ => do
      enabled (0 < σ.devCallers d)
      omap_bo_from_dmabuf d reply alloc σ
  | .boRef b, σ => do
      enabled (0 < σ.boCallers b)
      return (← omap_bo_ref b σ).takeBo b
  | .boDel b, σ => do
      enabled (0 < σ.boCallers b)
      return { σ.giveBo b with calls := .boDec b :: σ.calls }
  | .advance i alloc, σ => LibDrm.Omap.advance i alloc σ

end LibDrm.Omap
