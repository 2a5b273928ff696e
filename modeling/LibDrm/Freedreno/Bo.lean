/-
# `LibDrm.Freedreno.Bo` — buffer objects of freedreno

A device has two tables of its buffers, and a cache of those that nobody holds:

    handle_table    GEM handle ↦ fd_bo
    name_table      flink name ↦ fd_bo
    cache_bucket    lists of released buffers, a list for every size

The answers of the kernel, of `malloc` and of the clock are arguments of the calls.  What the
kernel keeps about the file is a part of the state: the handles that are open, and the
dmabufs, each with the object that it stands for.
-/
import LibDrm.Freedreno.Ring

namespace LibDrm.Freedreno

abbrev BoId := Nat

abbrev Object := Nat

/-- `struct fd_bo`. -/
structure FdBo where
  size : Nat
  handle : Word
  name : Word := 0
  fd : Int := 0
  refcnt : Int := 1
  boReuse : Bool := false
  freeTime : Int := 0
  deriving DecidableEq, Repr

/-- The handles that the library was given and has not closed, and the dmabufs of the process. -/
structure Kernel where
  handles : Word → Option Object := fun _ => none
  fds : Int → Option Object := fun _ => none

/-- `struct fd_device`. -/
structure Device where
  bo : BoId → Option FdBo := fun _ => none
  fresh : BoId := 0
  handleTable : Word → Option BoId := fun _ => none
  nameTable : Word → Option BoId := fun _ => none
  cacheBucket : Nat → List BoId := fun _ => []
  time : Int := 0
  kernel : Kernel := {}

namespace Device

def getBo (b : BoId) (dev : Device) : Except Fault FdBo := deref (dev.bo b)

def setBo (b : BoId) (bo : FdBo) (dev : Device) : Device := { dev with bo := Function.update dev.bo b (some bo) }

def setBucket (i : Nat) (l : List BoId) (dev : Device) : Device :=
  { dev with cacheBucket := Function.update dev.cacheBucket i l }

def openHandle (handle : Word) (obj : Object) (dev : Device) : Device :=
  { dev with kernel.handles := Function.update dev.kernel.handles handle (some obj) }

/-- `DRM_IOCTL_GEM_CLOSE`. -/
def closeHandle (handle : Word) (dev : Device) : Device :=
  { dev with kernel.handles := Function.update dev.kernel.handles handle none }

def openFd (fd : Int) (obj : Option Object) (dev : Device) : Device :=
  { dev with kernel.fds := Function.update dev.kernel.fds fd obj }

end Device

/-- `drmHashInsert`: a key that is there keeps its value. -/
def hashInsert {κ : Type} [DecidableEq κ] (key : κ) (b : BoId) (table : κ → Option BoId) : κ → Option BoId :=
  if (table key).isSome then table else Function.update table key (some b)

/-- `drmHashDelete`. -/
def hashDelete {κ : Type} [DecidableEq κ] (key : κ) (table : κ → Option BoId) : κ → Option BoId :=
  Function.update table key none

/-! ## The cache -/

/-- The sizes of `init_cache_buckets`, up to 64 MiB in the last round. -/
def bucketSizes : List Nat :=
  [4096, 4096 * 2, 4096 * 3] ++ (List.range 13).flatMap fun k =>
    let size := 4 * 4096 * 2 ^ k
    [size, size + size * 1 / 4, size + size * 2 / 4, size + size * 3 / 4]

def getBucket (size : Nat) : Option Nat := bucketSizes.findIdx? fun s => decide (s ≥ size)

/-- `ALIGN(size, 4096)` of a `uint32_t`. -/
def alignPage (size : Nat) : Nat := (size + 4095) % 2 ^ 32 / 4096 * 4096

def boDel (b : BoId) (dev : Device) : Except Fault Device := do
  let bo ← dev.getBo b
  let dev := { dev with bo := Function.update dev.bo b none }
  if bo.handle ≠ 0 then
    return { dev.closeHandle bo.handle with
      handleTable := hashDelete bo.handle dev.handleTable
      nameTable := if bo.name ≠ 0 then hashDelete bo.name dev.nameTable else dev.nameTable }
  else return dev

/-- A bucket gives up what has been in it for more than a second; `l` is the list of the bucket. -/
def cleanupBucket (time : Int) (i : Nat) : List BoId → Device → Except Fault Device
  | [], dev => .ok dev
  | b :: l, dev => do
      let bo ← dev.getBo b
      if time ≠ 0 ∧ time - bo.freeTime ≤ 1 then return dev
      else do
        let dev ← boDel b (dev.setBucket i l)
        cleanupBucket time i l dev

/-- `fd_cleanup_bo_cache`. -/
def cleanupBoCache (time : Int) (dev : Device) : Except Fault Device :=
  if dev.time = time then .ok dev
  else do
    let dev ← (List.range bucketSizes.length).foldlM (fun dev i => cleanupBucket time i (dev.cacheBucket i) dev) dev
    return { dev with time }

/-- `find_in_bucket`: the oldest buffer, if it is idle. -/
def findInBucket (i : Nat) (idle : Bool) (dev : Device) : Option BoId × Device :=
  match dev.cacheBucket i with
  | [] => (none, dev)
  | b :: l => if idle then (some b, dev.setBucket i l) else (none, dev)

/-! ## New buffers -/

def fdBoRef (b : BoId) (dev : Device) : Except Fault Device := do
  let bo ← dev.getBo b
  return dev.setBo b { bo with refcnt := bo.refcnt + 1 }

def lookupBo (b : Option BoId) (dev : Device) : Except Fault (Option BoId × Device) :=
  match b with
  | none => .ok (none, dev)
  | some b => do
      let dev ← fdBoRef b dev
      return (some b, dev)

/-- `bo_from_handle`; without memory the handle is closed. -/
def boFromHandle (size : Nat) (handle : Word) (alloc : Bool) (dev : Device) : Option BoId × Device :=
  if alloc then (some dev.fresh,
    { dev.setBo dev.fresh { size, handle } with
      fresh := dev.fresh + 1, handleTable := hashInsert handle dev.fresh dev.handleTable })
  else (none, dev.closeHandle handle)

def setName (b : BoId) (name : Word) (dev : Device) : Except Fault Device := do
  let bo ← dev.getBo b
  return { dev.setBo b { bo with name } with nameTable := hashInsert name b dev.nameTable }

/-- `bo->bo_reuse = 1`. -/
def setReuse (b : Option BoId) (dev : Device) : Except Fault (Option BoId × Device) := do
  let b ← deref b
  let bo ← dev.getBo b
  return (some b, dev.setBo b { bo with boReuse := true })

/-- A buffer that the kernel makes. -/
def boNewHandle (size : Nat) (ret : Int) (handle : Word) (obj : Object) (alloc : Bool) (dev : Device) :
    Except Fault (Option BoId × Device) :=
  if ret ≠ 0 then .ok (none, dev)
  else do
    let (b, dev) := boFromHandle size handle alloc (dev.openHandle handle obj)
    setReuse b dev

/-- A buffer of the cache gets its first reference. -/
def recycle (b : BoId) (dev : Device) : Except Fault (Option BoId × Device) := do
  let bo ← dev.getBo b
  return (some b, dev.setBo b { bo with refcnt := 1 })

/-- `fd_bo_new`. -/
def fdBoNew (size : Nat) (idle : Bool) (ret : Int) (handle : Word) (obj : Object) (alloc : Bool) (dev : Device) :
    Except Fault (Option BoId × Device) :=
  let size := alignPage size
  match getBucket size with
  | none => boNewHandle size ret handle obj alloc dev
  | some i =>
      let size := bucketSizes[i]?.getD 0
      match findInBucket i idle dev with
      | (some b, dev) => recycle b dev
      | (none, dev) => boNewHandle size ret handle obj alloc dev

/-- `fd_bo_from_handle`; `obj` is the object behind a handle that the library did not know. -/
def fdBoFromHandle (handle : Word) (size : Nat) (obj : Object) (alloc : Bool) (dev : Device) : Option BoId × Device :=
  let dev := if (dev.kernel.handles handle).isSome then dev else dev.openHandle handle obj
  boFromHandle size handle alloc dev

/-- `fd_bo_from_dmabuf`. -/
def fdBoFromDmabuf (fd : Int) (ret : Int) (handle : Word) (alloc : Bool) (dev : Device) : Option BoId × Device :=
  if ret ≠ 0 then (none, dev)
  else fdBoFromHandle handle 0 ((dev.kernel.fds fd).getD 0) alloc dev

/-- `fd_bo_from_name`. -/
def fdBoFromName (name : Word) (ret : Int) (handle : Word) (size : Nat) (obj : Object) (alloc : Bool) (dev : Device) :
    Except Fault (Option BoId × Device) := do
  let (b, dev) ← lookupBo (dev.nameTable name) dev
  if b.isSome then return (b, dev)
  else if ret ≠ 0 then return (none, dev)
  else do
    let dev := dev.openHandle handle obj
    let (b, dev) ← lookupBo (dev.handleTable handle) dev
    if b.isSome then return (b, dev)
    else match boFromHandle size handle alloc dev with
      | (none, dev) => return (none, dev)
      | (some b, dev) => do
          let dev ← setName b name dev
          return (some b, dev)

/-! ## References -/

/-- The last reference is gone. -/
def release (b : BoId) (time : Int) (dev : Device) : Except Fault Device := do
  let bo ← dev.getBo b
  let dev := if bo.fd ≠ 0 then (dev.openFd bo.fd none).setBo b { bo with fd := 0 } else dev
  let bo ← dev.getBo b
  match if bo.boReuse then getBucket bo.size else none with
  | some i =>
      cleanupBoCache time ((dev.setBo b { bo with freeTime := time }).setBucket i (dev.cacheBucket i ++ [b]))
  | none => boDel b dev

/-- `fd_bo_del`. -/
def fdBoDel (b : BoId) (time : Int) (dev : Device) : Except Fault Device := do
  let bo ← dev.getBo b
  let dev := dev.setBo b { bo with refcnt := bo.refcnt - 1 }
  if bo.refcnt ≠ 1 then return dev
  else release b time dev

/-- `fd_bo_get_name`. -/
def fdBoGetName (b : BoId) (ret : Int) (name : Word) (dev : Device) : Except Fault Device := do
  let bo ← dev.getBo b
  if bo.name ≠ 0 then return dev
  else if ret ≠ 0 then return dev
  else setName b name dev

/-- `fd_bo_dmabuf`; the buffer keeps `fd`, and the caller gets `copy`. -/
def fdBoDmabuf (b : BoId) (ret : Int) (fd copy : Int) (dev : Device) : Except Fault Device := do
  let bo ← dev.getBo b
  if bo.fd ≠ 0 then return dev.openFd copy (dev.kernel.fds bo.fd)
  else if ret ≠ 0 then return dev
  else do
    let obj := dev.kernel.handles bo.handle
    return ((dev.openFd fd obj).setBo b { bo with fd }).openFd copy obj

end LibDrm.Freedreno
