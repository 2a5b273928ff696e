/-
# `LibDrm.Gem.State` — the data of the GEM buffer manager

`intel/intel_bufmgr_gem.c` keeps a heap of buffer objects (`drm_intel_bo_gem`,
here `Bo`) and one manager (`drm_intel_bufmgr_gem`, here `Bufmgr`).  A buffer
object is linked into up to three lists at once: the named list, the VMA cache
and a bucket of the reuse cache.  The first two are modelled at the level of
the list nodes (`DList.Mem`), because the source unlinks nodes without
re-initialising them; a bucket is a Lean list, since a node enters and leaves
a bucket only by `DRMLISTADDTAIL` and `DRMLISTDEL` in turn.

Pointers to buffer objects are allocation numbers: `bos b` is the memory of
the `b`-th object that `calloc` returned, and a freed object keeps its number
(`allocated = false`).  The kernel is a handle table with the objects behind
the handles, and every answer of an ioctl is an argument of the function that
issues it.

A call ends in a `Fault` where the source fails an assertion, follows a bad
pointer, takes its non-recursive lock twice or does not terminate.  Debug
output, AUB dumping and Valgrind annotations are left out.
-/
import LibDrm.Lib.DList
import LibDrm.Lib.Arith
import LibDrm.Lib.Returns

namespace LibDrm.Gem

open CInt

abbrev BoId := Nat
abbrev Handle := Nat
abbrev Obj := Nat

/-- A list node: `none` is the list head in the manager, `some b` the node in `bos b`. -/
abbrev Node := Option BoId

/-- How a call can fail to return. -/
inductive Fault where
  | outOfFuel      -- the model's recursion bound was reached
  | assertFailed
  | badPointer     -- NULL or freed memory was dereferenced
  | deadlock       -- the lock was taken by the thread that holds it
  | endlessLoop
  deriving DecidableEq, Repr

/-- Reading through a pointer that may be bad. -/
def deref {α : Type} : Option α → Except Fault α
  | none => .error .badPointer
  | some a => .ok a

def assert (p : Bool) : Except Fault Unit :=
  if p then .ok () else .error .assertFailed

@[simp] theorem ok_bind {α β : Type} (a : α) (f : α → Except Fault β) :
    (Except.ok a >>= f) = f a := rfl

@[simp] theorem error_bind {α β : Type} (e : Fault) (f : α → Except Fault β) :
    (Except.error e >>= f) = .error e := rfl

@[simp] theorem deref_some {α : Type} (a : α) : deref (some a) = .ok a := rfl

@[simp] theorem deref_none {α : Type} : deref (none : Option α) = .error .badPointer := rfl

@[simp] theorem assert_true : assert true = .ok () := rfl

@[simp] theorem assert_false : assert false = .error .assertFailed := rfl

/-- The value of `errno` after a call that failed. -/
abbrev Errno := {e : Int // 0 < e}

/-- What an ioctl or another call of the system answers. -/
abbrev Reply (α : Type) := Except Errno α

/-! ## Constants of the interface -/

def I915_TILING_NONE : Nat := 0
def I915_TILING_X : Nat := 1
def I915_TILING_Y : Nat := 2

def EINVAL : Int := 22

theorem EINVAL_pos : 0 < EINVAL := by decide
def ENOMEM : Int := 12
def ENOSPC : Int := 28

/-! ## Buffer objects -/

/-- An entry of `relocs` with the entry of `reloc_target_info` beside it. -/
structure Reloc where
  offset : Nat
  delta : Nat
  targetHandle : Handle
  readDomains : Nat
  writeDomain : Nat
  presumedOffset : Nat
  /-- `reloc_target_info[i].bo` -/
  target : BoId
  /-- `reloc_target_info[i].flags & DRM_INTEL_RELOC_FENCE`, the only flag there is -/
  fence : Bool
  deriving DecidableEq, Repr

/-- `drm_intel_bo_gem`, as `calloc` returns it where no value is given. -/
structure Bo where
  /-- not a field of the source: the memory has not been given back to the allocator -/
  allocated : Bool := false
  size : Nat := 0
  offset64 : Nat := 0
  virt : Nat := 0
  refcount : Nat := 0
  gemHandle : Handle := 0
  globalName : Nat := 0
  validateIndex : Int := 0
  tilingMode : Nat := I915_TILING_NONE
  swizzleMode : Nat := 0
  stride : Nat := 0
  freeTime : Int := 0
  /-- `relocs` and `reloc_target_info`: NULL, or the number of entries that were allocated
  and the first `reloc_count` of them -/
  relocArray : Option (Nat × List Reloc) := none
  memVirtual : Nat := 0
  gttVirtual : Nat := 0
  userVirtual : Nat := 0
  mapCount : Int := 0
  includedInCheckAperture : Bool := false
  usedAsRelocTarget : Bool := false
  hasError : Bool := false
  reusable : Bool := false
  idle : Bool := false
  isUserptr : Bool := false
  relocTreeSize : Int := 0
  relocTreeFences : Int := 0
  mappedCpuWrite : Bool := false
  deriving DecidableEq, Repr

instance : Inhabited Bo := ⟨{}⟩

/-- The stored relocations. -/
def Bo.relocs (bo : Bo) : List Reloc :=
  match bo.relocArray with
  | none => []
  | some (_, entries) => entries

/-- The targets of the stored relocations, self relocations included. -/
def Bo.targets (bo : Bo) : List BoId := bo.relocs.map Reloc.target

/-- The number of mappings the object holds. -/
def Bo.maps (bo : Bo) : Int :=
  (if bo.memVirtual ≠ 0 then 1 else 0) + (if bo.gttVirtual ≠ 0 then 1 else 0)

theorem Bo.maps_nonneg (bo : Bo) : 0 ≤ bo.maps := by
  unfold Bo.maps
  split <;> split <;> decide

/-- `atomic_inc` and `atomic_dec` of the reference count. -/
def Bo.incRef (bo : Bo) : Bo := { bo with refcount := bo.refcount + 1 }

def Bo.decRef (bo : Bo) : Bo := { bo with refcount := bo.refcount - 1 }

/-! ## The kernel -/

/-- What other holders of the device can know of an object. -/
inductive ObjStatus where
  | unborn
  | priv       -- created by this process and known to nobody else
  | shared     -- it has a global name or a prime fd
  deriving DecidableEq, Repr

/-- The handle table of the open device, and the objects. -/
structure Kernel where
  objOf : Handle → Option Obj
  status : Obj → ObjStatus

namespace Kernel

/-- `GEM_CREATE` or `GEM_USERPTR` made the object `o` and answers the handle `h`. -/
def create (k : Kernel) (h : Handle) (o : Obj) : Kernel :=
  ⟨Function.update k.objOf h (some o), Function.update k.status o .priv⟩

/-- `GEM_OPEN` or `PRIME_FD_TO_HANDLE` answers the handle `h` for the object `o`. -/
def openAs (k : Kernel) (h : Handle) (o : Obj) : Kernel :=
  { k with objOf := Function.update k.objOf h (some o) }

/-- `GEM_CLOSE`. -/
def close (k : Kernel) (h : Handle) : Kernel :=
  { k with objOf := Function.update k.objOf h none }

/-- `GEM_FLINK` or `PRIME_HANDLE_TO_FD` succeeded: the object can be opened by others. -/
def share (k : Kernel) (h : Handle) : Kernel :=
  match k.objOf h with
  | none => k
  | some o => { k with status := Function.update k.status o .shared }

/-- Another process made an object and shared it. -/
def foreign (k : Kernel) (o : Obj) : Kernel :=
  { k with status := Function.update k.status o .shared }

/-- A new object gets a handle that is not in use. -/
def CreateOk (k : Kernel) (h : Handle) (o : Obj) : Prop :=
  k.objOf h = none ∧ k.status o = .unborn

/-- A shared object is answered with the handle it has, or with one that is not in use. -/
def OpenOk (k : Kernel) (h : Handle) (o : Obj) : Prop :=
  k.status o = .shared ∧ (k.objOf h = some o ∨ (k.objOf h = none ∧ ∀ h', k.objOf h' ≠ some o))

end Kernel

/-- A `GEM_CREATE` or `GEM_USERPTR` ioctl, with its answer for any state of the kernel. -/
structure CreateCall where
  answer : Kernel → Reply (Handle × Obj)
  valid : ∀ k h o, answer k = .ok (h, o) → k.CreateOk h o

/-- A `GEM_OPEN` or `PRIME_FD_TO_HANDLE` ioctl. -/
structure OpenCall where
  answer : Kernel → Reply (Handle × Obj)
  valid : ∀ k h o, answer k = .ok (h, o) → k.OpenOk h o

/-! ## The manager -/

/-- What `drm_intel_bufmgr_gem_init` learns from the device, and the page size. -/
structure Config where
  gen : Nat := 4
  maxRelocs : Int := 4094
  gttSize : Nat := 128 * 1024 * 1024
  availableFences : Int := 0
  hasBsd : Bool := false
  hasBlt : Bool := false
  hasVebox : Bool := false
  is915 : Bool := false
  hasRelaxedFencing : Bool := false
  hasLlc : Bool := false
  noExec : Bool := false
  debug : Bool := false
  /-- `bo_exec` is `drm_intel_gem_bo_exec2` -/
  exec2 : Bool := true
  pageSize : Nat := 4096
  deriving DecidableEq, Repr

/-- `drm_i915_gem_exec_object2`; the older `drm_i915_gem_exec_object` has no flags. -/
structure ExecObject where
  handle : Handle
  relocationCount : Nat
  relocs : List Reloc
  alignment : Nat
  offset : Nat
  /-- `flags & EXEC_OBJECT_NEEDS_FENCE`, the only flag that is set -/
  needsFence : Bool
  deriving DecidableEq, Repr

/-- The array of a submission: `exec_objects` for `drm_intel_gem_bo_exec`, `exec2_objects` for `do_exec2`. -/
inductive ExecArray where
  | objects
  | objects2
  deriving DecidableEq, Repr

/-- The two arrays.  `exec_size` is the size of the one that was extended last. -/
structure ExecObjects where
  size : Nat
  /-- the entries that are allocated; 0 for the pointer NULL -/
  room : ExecArray → Nat
  /-- the entries that were written for the validation list in use -/
  entries : ExecArray → List ExecObject

/-- `drm_intel_bufmgr_gem`, the heap of its objects, and the kernel behind it. -/
structure Bufmgr where
  cfg : Config
  boReuse : Bool
  fencedRelocs : Bool
  lock : Bool
  bos : BoId → Bo
  /-- the objects allocated so far are numbered below `nextBo` -/
  nextBo : BoId
  nameList : DList.Mem Node
  vmaList : DList.Mem Node
  /-- the buckets of the reuse cache, in the order of `cacheBucketSizes` -/
  bucketHead : Nat → List BoId
  time : Int
  vmaCount : Int
  vmaOpen : Int
  vmaMax : Int
  execObjects : ExecObjects
  /-- the first `exec_count` entries of `exec_bos`, which has room for `exec_size` -/
  execBos : List BoId
  kernel : Kernel

/-- The entries of the validation list in use. -/
def Bufmgr.execCount (s : Bufmgr) : Nat := s.execBos.length

/-- The object has references and may be passed to the interface. -/
def Bufmgr.Live (s : Bufmgr) (b : BoId) : Prop := (s.bos b).allocated = true ∧ 0 < (s.bos b).refcount

instance (s : Bufmgr) (b : BoId) : Decidable (s.Live b) :=
  inferInstanceAs (Decidable (_ ∧ _))

/-- Write to the memory of one object. -/
def Bufmgr.modify (s : Bufmgr) (b : BoId) (f : Bo → Bo) : Bufmgr :=
  { s with bos := Function.update s.bos b (f (s.bos b)) }

def Bufmgr.setBucket (s : Bufmgr) (i : Nat) (l : List BoId) : Bufmgr :=
  { s with bucketHead := Function.update s.bucketHead i l }

@[simp] theorem modify_self (s : Bufmgr) (b : BoId) (f : Bo → Bo) :
    (s.modify b f).bos b = f (s.bos b) := by
  simp [Bufmgr.modify]

theorem modify_of_ne (s : Bufmgr) {b c : BoId} (h : c ≠ b) (f : Bo → Bo) :
    (s.modify b f).bos c = s.bos c := by
  simp [Bufmgr.modify, h]

theorem modify_bos (s : Bufmgr) (b c : BoId) (f : Bo → Bo) :
    (s.modify b f).bos c = if c = b then f (s.bos b) else s.bos c := by
  by_cases h : c = b
  · subst h; simp
  · simp [modify_of_ne s h, h]

/-- Only what is written at the object matters. -/
theorem modify_congr (s : Bufmgr) {b : BoId} {f g : Bo → Bo} (h : f (s.bos b) = g (s.bos b)) :
    s.modify b f = s.modify b g := by
  simp [Bufmgr.modify, h]

/-- A field that is not written to, at any object. -/
theorem modify_field {α : Type} (F : Bo → α) (s : Bufmgr) (b c : BoId) {f : Bo → Bo}
    (h : F (f (s.bos b)) = F (s.bos b)) : F ((s.modify b f).bos c) = F (s.bos c) := by
  by_cases hcb : c = b
  · subst hcb; rw [modify_self, h]
  · rw [modify_of_ne s hcb]

section
variable (s : Bufmgr) (b : BoId) (f : Bo → Bo)

@[simp] theorem modify_cfg : (s.modify b f).cfg = s.cfg := rfl
@[simp] theorem modify_boReuse : (s.modify b f).boReuse = s.boReuse := rfl
@[simp] theorem modify_fencedRelocs : (s.modify b f).fencedRelocs = s.fencedRelocs := rfl
@[simp] theorem modify_lock : (s.modify b f).lock = s.lock := rfl
@[simp] theorem modify_nextBo : (s.modify b f).nextBo = s.nextBo := rfl
@[simp] theorem modify_nameList : (s.modify b f).nameList = s.nameList := rfl
@[simp] theorem modify_vmaList : (s.modify b f).vmaList = s.vmaList := rfl
@[simp] theorem modify_bucketHead : (s.modify b f).bucketHead = s.bucketHead := rfl
@[simp] theorem modify_time : (s.modify b f).time = s.time := rfl
@[simp] theorem modify_vmaCount : (s.modify b f).vmaCount = s.vmaCount := rfl
@[simp] theorem modify_vmaOpen : (s.modify b f).vmaOpen = s.vmaOpen := rfl
@[simp] theorem modify_vmaMax : (s.modify b f).vmaMax = s.vmaMax := rfl
@[simp] theorem modify_execBos : (s.modify b f).execBos = s.execBos := rfl
@[simp] theorem modify_execObjects : (s.modify b f).execObjects = s.execObjects := rfl
@[simp] theorem modify_kernel : (s.modify b f).kernel = s.kernel := rfl

end

@[simp] theorem modify_modify (s : Bufmgr) (b : BoId) (f g : Bo → Bo) :
    (s.modify b f).modify b g = s.modify b (g ∘ f) := by
  simp [Bufmgr.modify]

/-- `pthread_mutex_lock`, the work, `pthread_mutex_unlock`. -/
def Bufmgr.locked (s : Bufmgr) (f : Bufmgr → Except Fault Bufmgr) : Except Fault Bufmgr :=
  if s.lock then .error .deadlock
  else do
    let s ← f { s with lock := true }
    return { s with lock := false }

/-- The same for work that has a result. -/
def Bufmgr.withLock {α : Type} (s : Bufmgr) (f : Bufmgr → Except Fault (α × Bufmgr)) : Except Fault (α × Bufmgr) :=
  if s.lock then .error .deadlock
  else do
    let (a, s) ← f { s with lock := true }
    return (a, { s with lock := false })

/-- Where the lock is free the work runs, and the lock is free afterwards. -/
theorem Bufmgr.locked_returns {s : Bufmgr} {f : Bufmgr → Except Fault Bufmgr} {Q : Bufmgr → Prop}
    (hlock : s.lock = false)
    (hf : Returns (f { s with lock := true }) fun s' => Q { s' with lock := false }) :
    Returns (s.locked f) Q := by
  unfold Bufmgr.locked
  rw [if_neg (by simp [hlock])]
  exact hf.bind fun s' hs' => .pure hs'

theorem Bufmgr.withLock_returns {α : Type} {s : Bufmgr} {f : Bufmgr → Except Fault (α × Bufmgr)}
    {Q : α × Bufmgr → Prop} (hlock : s.lock = false)
    (hf : Returns (f { s with lock := true }) fun r => Q (r.1, { r.2 with lock := false })) :
    Returns (s.withLock f) Q := by
  unfold Bufmgr.withLock
  rw [if_neg (by simp [hlock])]
  exact hf.bind fun r hr => .pure hr

/-- What the release of objects leaves alone. -/
def Bufmgr.shell (s : Bufmgr) : Bufmgr :=
  { s with
    bos := fun _ => {}
    nameList := fun _ => none
    vmaList := fun _ => none
    bucketHead := fun _ => []
    time := 0
    vmaCount := 0
    vmaOpen := 0
    kernel := ⟨fun _ => none, fun _ => .unborn⟩ }

section
variable {s s' : Bufmgr} (h : s'.shell = s.shell)
include h

theorem shell_nextBo : s'.nextBo = s.nextBo := (congrArg Bufmgr.nextBo h :)

theorem shell_lock : s'.lock = s.lock := (congrArg Bufmgr.lock h :)

theorem shell_cfg : s'.cfg = s.cfg := (congrArg Bufmgr.cfg h :)

end

/-! ## Lists of buffer objects -/

/-- The list whose head is in the manager holds the objects `l`. -/
def OnList (m : DList.Mem Node) (l : List BoId) : Prop := DList.IsList m none (l.map some)

/-- The node of the object is on no list. -/
abbrev Detached (m : DList.Mem Node) (b : BoId) : Prop := DList.SelfLinked m (some b)

namespace OnList

variable {m : DList.Mem Node} {l : List BoId} {b : BoId}

theorem nodup (h : OnList m l) : l.Nodup := List.Nodup.of_map _ (DList.IsList.nodup h)

theorem unique {l' : List BoId} (h : OnList m l) (h' : OnList m l') : l = l' :=
  List.map_injective_iff.mpr (Option.some_injective _) (DList.IsList.unique h h')

theorem node_notMem (hb : b ∉ l) : some b ∉ (none : Node) :: l.map some := by
  simpa using hb

theorem erase_some (l : List BoId) (b : BoId) :
    @List.erase Node instBEqOfDecidableEq (l.map some) (some b) = (l.erase b).map some := by
  induction l with
  | nil => rfl
  | cons c l ih =>
      by_cases hc : c = b
      · simp [hc, List.erase]
      · have hcb : (c == b) = false := by simpa using hc
        simp [List.erase, hc, hcb, ih]

/-- A list reads the nodes of its own objects and its head. -/
theorem frame {m' : DList.Mem Node} (h : OnList m l) (hn : m' none = m none)
    (hm : ∀ c ∈ l, m' (some c) = m (some c)) : OnList m' l := by
  refine DList.IsList.congr h ?_
  intro y hy
  rcases List.mem_cons.mp hy with rfl | hy
  · exact hn
  · obtain ⟨c, hc, rfl⟩ := List.mem_map.mp hy
    exact hm c hc

/-- `DRMLISTDEL` on a node that is on the list, or on none. -/
theorem del (h : OnList m l) (hb : b ∈ l ∨ Detached m b) :
    ∃ m', DList.del m (some b) = some m' ∧ OnList m' (l.erase b)
      ∧ (∀ y, (m' y).isSome = (m y).isSome) ∧ ∀ c, c ∉ l → m' (some c) = m (some c) := by
  by_cases hmem : b ∈ l
  · obtain ⟨m', hm', hl', ha, hf⟩ := DList.IsList.del h (List.mem_map_of_mem hmem)
    exact ⟨m', hm', by rwa [erase_some] at hl', ha, fun c hc => hf _ (node_notMem hc)⟩
  · have hself := hb.resolve_left hmem
    exact ⟨m, hself.del, by rwa [List.erase_of_not_mem hmem], fun _ => rfl, fun _ _ => rfl⟩

/-- `DRMLISTDELINIT` on a node of the list. -/
theorem delInit (h : OnList m l) (hb : b ∈ l) :
    ∃ m', DList.delInit m (some b) = some m' ∧ OnList m' (l.erase b) ∧ Detached m' b
      ∧ (∀ y, (m' y).isSome = (m y).isSome) ∧ ∀ c, c ∉ l → m' (some c) = m (some c) := by
  obtain ⟨m', hm', hl', hs, ha, hf⟩ := DList.IsList.delInit h (List.mem_map_of_mem hb)
  exact ⟨m', hm', by rwa [erase_some] at hl', hs, ha, fun c hc => hf _ (node_notMem hc)⟩

/-- `DRMLISTADDTAIL` of a node that is on no list, whatever its pointers are. -/
theorem addTail (h : OnList m l) (hb : b ∉ l) (ha : (m (some b)).isSome) :
    ∃ m', DList.addTail m (some b) none = some m' ∧ OnList m' (l ++ [b])
      ∧ (∀ y, (m' y).isSome = (m y).isSome) ∧ ∀ c, c ∉ l ++ [b] → m' (some c) = m (some c) := by
  obtain ⟨m', hm', hl', ha', hf⟩ := DList.IsList.addTail h (node_notMem hb) ha
  refine ⟨m', hm', by simpa [OnList] using hl', ha', fun c hc => hf _ ?_⟩
  simpa using hc

theorem free (h : OnList m l) (hb : b ∉ l) : OnList (DList.free m (some b)) l := by
  refine h.frame (by simp [DList.free]) (fun c hc => ?_)
  have hcb : c ≠ b := fun e => hb (e ▸ hc)
  simp [DList.free, hcb]

theorem calloc (h : OnList m l) (hb : b ∉ l) : OnList (DList.calloc m (some b)) l := by
  refine h.frame (by simp [DList.calloc]) (fun c hc => ?_)
  have hcb : c ≠ b := fun e => hb (e ▸ hc)
  simp [DList.calloc, hcb]

/-- `DRMINITLISTHEAD` on the node of an object that is not on the list. -/
theorem init (h : OnList m l) (hb : b ∉ l) (ha : (m (some b)).isSome) :
    ∃ m', DList.init m (some b) = some m' ∧ OnList m' l ∧ Detached m' b
      ∧ (∀ y, (m' y).isSome = (m y).isSome) ∧ ∀ c, c ≠ b → m' (some c) = m (some c) := by
  obtain ⟨m', hm', hs, ha', hf⟩ := DList.init_ok ha
  refine ⟨m', hm', h.frame (hf _ (by simp)) ?_, hs, ha', fun c hc => hf _ (by simpa using hc)⟩
  intro c hc
  exact hf _ (by rintro ⟨⟩; exact hb hc)

end OnList

/-- The front of a list is cut off by the tests of its own elements. -/
theorem takeWhile_congr {α : Type} {p q : α → Bool} :
    ∀ {l : List α}, (∀ a ∈ l, p a = q a) → l.takeWhile p = l.takeWhile q ∧ l.dropWhile p = l.dropWhile q
  | [], _ => ⟨rfl, rfl⟩
  | a :: l, h => by
      obtain ⟨ht, hd⟩ := takeWhile_congr (l := l) fun b hb => h b (List.mem_cons_of_mem a hb)
      simp only [List.takeWhile_cons, List.dropWhile_cons, h a (List.mem_cons_self ..), ht, hd, and_self]

/-! ## The buckets of the reuse cache -/

def cacheMaxSize : Nat := 64 * 1024 * 1024

/-- The loop of `init_cache_buckets`: four sizes for each power of two. -/
def addBuckets : Nat → Nat → List Nat → List Nat
  | 0, _, acc => acc
  | k + 1, size, acc =>
      if size ≤ cacheMaxSize then
        addBuckets k (size * 2)
          (acc ++ [size, size + size * 1 / 4, size + size * 2 / 4, size + size * 3 / 4])
      else acc

/-- `init_cache_buckets`: the sizes of the buckets. -/
def cacheBucketSizes : List Nat :=
  addBuckets 64 (4 * 4096) [4096, 4096 * 2, 4096 * 3]

theorem cacheBucketSizes_sorted : cacheBucketSizes.Pairwise (· < ·) := by decide +kernel

/-- `drm_intel_gem_bo_bucket_for_size`: the first bucket whose objects are large enough. -/
def boBucketForSize (size : Nat) : Option Nat :=
  cacheBucketSizes.findIdx? (fun bucketSize => decide (size ≤ bucketSize))

/-- The size of a bucket finds that bucket again. -/
theorem boBucketForSize_eq {size i : Nat} (h : boBucketForSize size = some i) :
    ∃ z, cacheBucketSizes[i]? = some z ∧ size ≤ z ∧ boBucketForSize z = some i := by
  obtain ⟨hi, hle, hlt⟩ := List.findIdx?_eq_some_iff_getElem.mp h
  refine ⟨cacheBucketSizes[i], List.getElem?_eq_getElem hi, by simpa using hle, ?_⟩
  refine List.findIdx?_eq_some_iff_getElem.mpr ⟨hi, by simp, ?_⟩
  intro j hj
  have hpair := List.pairwise_iff_getElem.mp cacheBucketSizes_sorted j i (hj.trans hi) hi hj
  simpa using hpair

/-- An object that is too large for every bucket finds none, whatever it is rounded up to. -/
theorem boBucketForSize_none {size z : Nat} (h : boBucketForSize size = none) (hz : size ≤ z) :
    boBucketForSize z = none := by
  unfold boBucketForSize at h ⊢
  rw [List.findIdx?_eq_none_iff] at h ⊢
  intro x hx
  have := h x hx
  simp only [decide_eq_false_iff_not, not_le] at this ⊢
  omega

/-- Two buckets have different sizes. -/
theorem cacheBucketSizes_inj {i j z : Nat} (hi : cacheBucketSizes[i]? = some z)
    (hj : cacheBucketSizes[j]? = some z) : i = j := by
  obtain ⟨hi', ei⟩ := List.getElem?_eq_some_iff.mp hi
  obtain ⟨hj', ej⟩ := List.getElem?_eq_some_iff.mp hj
  have hpair := List.pairwise_iff_getElem.mp cacheBucketSizes_sorted
  rcases Nat.lt_trichotomy i j with h | h | h
  · have := hpair i j hi' hj' h; omega
  · exact h
  · have := hpair j i hj' hi' h; omega

/-! ## The manager as `drm_intel_bufmgr_gem_init` leaves it -/

/-- An initialised list head, and nothing allocated beside it. -/
def emptyList : DList.Mem Node := fun x => if x = none then some ⟨some none, some none⟩ else none

/-- The manager after `drm_intel_bufmgr_gem_init`, on a device whose kernel is `k`. -/
def bufmgrGemInit (cfg : Config) (k : Kernel) : Bufmgr where
  cfg := cfg
  boReuse := false
  fencedRelocs := false
  lock := false
  bos := fun _ => {}
  nextBo := 0
  nameList := emptyList
  vmaList := emptyList
  bucketHead := fun _ => []
  time := 0
  vmaCount := 0
  vmaOpen := 0
  vmaMax := -1
  execObjects := ⟨0, fun _ => 0, fun _ => []⟩
  execBos := []
  kernel := k

/-- `drm_intel_bufmgr_gem_enable_reuse`. -/
def enableReuse (s : Bufmgr) : Bufmgr := { s with boReuse := true }

/-- `drm_intel_bufmgr_gem_enable_fenced_relocs`. -/
def enableFencedRelocs (s : Bufmgr) : Bufmgr :=
  if s.cfg.exec2 then { s with fencedRelocs := true } else s

end LibDrm.Gem
