/-
# `LibDrm.Gem.Alloc` — buffer objects out of the cache, and new ones

`alloc_internal` looks for an object in the bucket of the requested size.  It
may find the object busy (then it allocates a new one), purged by the kernel
(then it drops it, and the purged ones behind it, and tries again), or with a
tiling that cannot be changed (then it drops it and tries again).  Each retry
leaves a shorter bucket, so the search ends (`searchCache_spec`).

An object is handed out with one reference, no relocations, and the size of
its bucket (`boAllocInternal_spec`).
-/
import LibDrm.Gem.Release

namespace LibDrm.Gem

open CInt

/-! ## The functions -/

/-- What the `SET_TILING` and `GET_TILING` ioctls answer. -/
structure Tiling where
  mode : Nat
  swizzle : Nat
  stride : Nat
  deriving DecidableEq, Repr

/-- The answers in one round of the search through the cache. -/
structure SearchReply where
  busy : Reply Bool
  /-- `MADVISE(WILLNEED)`: the pages are still there -/
  willneed : Bool
  /-- `MADVISE(DONTNEED)`, asked for the objects at the front of the bucket -/
  dontneed : Madvise
  setTiling : Reply Tiling

/-- `drm_intel_gem_bo_busy`. -/
def boBusy (b : BoId) (busy : Reply Bool) (s : Bufmgr) : Bool × Bufmgr :=
  if (s.bos b).reusable && (s.bos b).idle then (false, s)
  else match busy with
    | .ok isBusy => (isBusy, s.modify b fun bo => { bo with idle := !isBusy })
    | .error _ => (false, s)

/-- `drm_intel_gem_bo_set_tiling_internal`. -/
def boSetTilingInternal (b : BoId) (mode stride : Nat) (setTiling : Reply Tiling) (s : Bufmgr) :
    Int × Bufmgr :=
  if (s.bos b).globalName = 0 ∧ mode = (s.bos b).tilingMode ∧ stride = (s.bos b).stride then (0, s)
  else match setTiling with
    | .error e => (-e, s)
    | .ok t => (0, s.modify b fun bo =>
        { bo with tilingMode := t.mode, swizzleMode := t.swizzle, stride := t.stride })

/-- `while (min_size < size) min_size *= 2`.  Once the product has overflowed it is 0
and stays 0, so what has not ended after a few rounds does not end. -/
def minSizeLoop (size : Int) : Nat → Int → Except Fault Int
  | 0, _ => .error .endlessLoop
  | k + 1, minSize => if minSize < size then minSizeLoop size k (int32 (minSize * 2)) else .ok minSize

/-- The size that `drm_intel_bo_gem_set_in_aperture_size` computes. -/
def inApertureSize (cfg : Config) (bo : Bo) : Except Fault Int :=
  let size := int32 bo.size
  if cfg.gen < 4 ∧ bo.tilingMode ≠ I915_TILING_NONE then
    -- the worst case for an object that has to be aligned to its size
    if cfg.hasRelaxedFencing then do
      let minSize ← minSizeLoop size 32 (if cfg.gen = 3 then 1024 * 1024 else 512 * 1024)
      return int32 (2 * minSize)
    else .ok (int32 (2 * size))
  else .ok size

def Bo.setTreeSize (size : Int) (bo : Bo) : Bo := { bo with relocTreeSize := size }

@[simp] theorem Bo.setTreeSize_relocTreeSize (size : Int) (bo : Bo) :
    (bo.setTreeSize size).relocTreeSize = size := rfl

/-- `drm_intel_bo_gem_set_in_aperture_size`. -/
def setInApertureSize (b : BoId) (s : Bufmgr) : Except Fault Bufmgr := do
  assert (!(s.bos b).usedAsRelocTarget)
  let size ← inApertureSize s.cfg (s.bos b)
  return s.modify b (Bo.setTreeSize size)

/-- `drm_intel_gem_bo_set_tiling`; it returns the tiling mode beside the error code. -/
def boSetTiling (b : BoId) (mode stride : Nat) (setTiling : Reply Tiling) (s : Bufmgr) :
    Except Fault ((Int × Nat) × Bufmgr) :=
  if (s.bos b).isUserptr then .ok ((-EINVAL, mode), s)
  else
    let stride := if mode = I915_TILING_NONE then 0 else stride
    let (ret, s) := boSetTilingInternal b mode stride setTiling s
    if ret = 0 then do
      let s ← setInApertureSize b s
      return ((0, (s.bos b).tilingMode), s)
    else .ok ((ret, (s.bos b).tilingMode), s)

/-- `drm_intel_gem_bo_cache_purge_bucket` on the bucket `i`. -/
def boCachePurgeBucket (dontneed : Madvise) (i : Nat) (s : Bufmgr) : Except Fault Bufmgr :=
  dropStale (fun b _ => !dontneed b) i (s.bucketHead i) s

/-- The object that the search looks at, and the bucket without it if it is to be used: the
last one for rendering, else the first one unless it is busy. -/
def pickCached (i : Nat) (forRender : Bool) (busy : Reply Bool) (s : Bufmgr) : Option BoId × Bufmgr :=
  match s.bucketHead i with
  | [] => (none, s)
  | b :: l =>
      if forRender then
        (some ((b :: l).getLast (List.cons_ne_nil b l)), s.setBucket i (b :: l).dropLast)
      else
        match boBusy b busy s with
        | (true, s) => (none, s)
        | (false, s) => (some b, s.setBucket i l)

/-- The code between `retry` and the end of the locked section. -/
def searchCache (i : Nat) (forRender : Bool) (mode stride : Nat) (replies : Nat → SearchReply) :
    Nat → Bufmgr → Except Fault (Option BoId × Bufmgr)
  | 0, _ => .error .outOfFuel
  | k + 1, s =>
      match pickCached i forRender (replies k).busy s with
      | (none, s) => .ok (none, s)
      | (some b, s) =>
          if (replies k).willneed then
            match boSetTilingInternal b mode stride (replies k).setTiling s with
            | (ret, s) =>
                if ret = 0 then .ok (some b, s)
                else do
                  let s ← boFree b s
                  searchCache i forRender mode stride replies k s
          else do
            let s ← boFree b s
            let s ← boCachePurgeBucket (replies k).dontneed i s
            searchCache i forRender mode stride replies k s

/-- The locked section of `drm_intel_gem_bo_alloc_internal`. -/
def allocCached (bucket : Option Nat) (forRender : Bool) (mode stride : Nat)
    (replies : Nat → SearchReply) (s : Bufmgr) : Except Fault (Option BoId × Bufmgr) :=
  s.withLock fun s =>
    match bucket with
    | none => .ok (none, s)
    | some i => searchCache i forRender mode stride replies ((s.bucketHead i).length + 1) s

/-- The answers on the way to a new object. -/
structure FreshReply where
  callocOk : Bool
  create : CreateCall
  setTiling : Reply Tiling

/-- `calloc` of an object, with the fields that are set before its list nodes are. -/
def Bufmgr.calloc (s : Bufmgr) (bo : Bo) : Bufmgr :=
  { s with
    bos := Function.update s.bos s.nextBo bo
    nextBo := s.nextBo + 1
    nameList := DList.calloc s.nameList (some s.nextBo)
    vmaList := DList.calloc s.vmaList (some s.nextBo) }

/-- `DRMINITLISTHEAD` of both list nodes. -/
def initNodes (b : BoId) (s : Bufmgr) : Except Fault Bufmgr := do
  let nameList ← deref (DList.init s.nameList (some b))
  let vmaList ← deref (DList.init s.vmaList (some b))
  return { s with nameList, vmaList }

/-- `drm_intel_gem_bo_alloc_internal` where nothing was found in the cache.  An object for
which the kernel has no memory is freed before anything points to it, and takes no number. -/
def allocFresh (size mode stride : Nat) (r : FreshReply) (s : Bufmgr) :
    Except Fault (Option BoId × Bufmgr) :=
  if !r.callocOk then .ok (none, s)
  else match r.create.answer s.kernel with
    | .error _ => .ok (none, s)
    | .ok (h, o) =>
        let b := s.nextBo
        let s := { s.calloc { allocated := true, size, gemHandle := h } with
          kernel := s.kernel.create h o }
        match boSetTilingInternal b mode stride r.setTiling s with
        | (ret, s) =>
            if ret = 0 then do
              let s ← initNodes b s
              return (some b, s)
            else do
              let s ← boFree b s
              return (none, s)

/-- The fields that are set in an object that is handed out. -/
def Bo.handOut (reusable : Bool) (bo : Bo) : Bo :=
  { bo with
    refcount := 1, validateIndex := -1, relocTreeFences := 0, usedAsRelocTarget := false
    hasError := false, reusable }

/-- The end of `drm_intel_gem_bo_alloc_internal`. -/
def allocFinish (reusable : Bool) (found : Option BoId) (s : Bufmgr) :
    Except Fault (Option BoId × Bufmgr) :=
  match found with
  | none => .ok (none, s)
  | some b => do
      let s ← setInApertureSize b (s.modify b (Bo.handOut reusable))
      return (some b, s)

/-- The answers that an allocation may ask for. -/
structure AllocReply where
  search : Nat → SearchReply
  fresh : FreshReply

/-- `bo_size`: what the cache rounds the requested size up to. -/
def allocSize (cfg : Config) (size : Nat) : Nat :=
  match boBucketForSize size with
  | none => max size cfg.pageSize
  | some i => cacheBucketSizes.getD i 0

/-- `drm_intel_gem_bo_alloc_internal`. -/
def boAllocInternal (size : Nat) (forRender : Bool) (mode stride : Nat) (r : AllocReply) (s : Bufmgr) :
    Except Fault (Option BoId × Bufmgr) := do
  let stride := stride % 2 ^ 32
  let (found, s) ← allocCached (boBucketForSize size) forRender mode stride r.search s
  match found with
  | some b => allocFinish true (some b) s
  | none => do
      let (found, s) ← allocFresh (allocSize s.cfg size) mode stride r.fresh s
      allocFinish true found s

/-- `drm_intel_gem_bo_alloc` and `drm_intel_gem_bo_alloc_for_render`. -/
def boAlloc (size : Nat) (forRender : Bool) (r : AllocReply) (s : Bufmgr) :
    Except Fault (Option BoId × Bufmgr) :=
  boAllocInternal size forRender I915_TILING_NONE 0 r s

/-- `ROUND_UP_TO` and, for a power of two, `ALIGN`, on an `unsigned long`. -/
def roundUpTo (x y : Nat) : Nat := (x + y - 1) % 2 ^ 64 / y * y

/-- `for (i = start; i < bound; i <<= 1)`. -/
def doubleUntil (bound : Nat) : Nat → Nat → Nat
  | 0, i => i
  | k + 1, i => if i < bound then doubleUntil bound k (i * 2) else i

/-- `drm_intel_gem_bo_tile_size`: the size, and the tiling mode that is left. -/
def boTileSize (cfg : Config) (size mode : Nat) : Nat × Nat :=
  let minSize := if cfg.gen = 3 then 1024 * 1024 else 512 * 1024
  let maxSize := if cfg.gen = 3 then 128 * 1024 * 1024 else 64 * 1024 * 1024
  if mode = I915_TILING_NONE then (size, mode)
  else if 4 ≤ cfg.gen then (roundUpTo size 4096, mode)
  else if maxSize < size then (size, I915_TILING_NONE)
  else if cfg.hasRelaxedFencing then (roundUpTo size 4096, mode)
  else (doubleUntil size 64 minSize, mode)

/-- `drm_intel_gem_bo_tile_pitch`. -/
def boTilePitch (cfg : Config) (pitch mode : Nat) : Nat × Nat :=
  let tileWidth := if mode = I915_TILING_X ∨ (cfg.is915 ∧ mode = I915_TILING_Y) then 512 else 128
  if mode = I915_TILING_NONE then (roundUpTo pitch 64, mode)
  else if 4 ≤ cfg.gen then (roundUpTo pitch tileWidth, mode)
  else if 8192 < pitch then (roundUpTo pitch 64, I915_TILING_NONE)
  else (doubleUntil pitch 64 tileWidth, mode)

/-- One round of the loop of `drm_intel_gem_bo_alloc_tiled`. -/
def tiledRound (cfg : Config) (x y cpp : Int) (tiling : Nat) : Nat × Nat × Nat :=
  let height := if cfg.gen = 2 ∧ tiling ≠ I915_TILING_NONE then 16
    else if tiling = I915_TILING_X ∨ (cfg.is915 ∧ tiling = I915_TILING_Y) then 8
    else if tiling = I915_TILING_Y then 32 else 2
  let alignedY := roundUpTo (uint64 y).toNat height
  let (stride, mode) := boTilePitch cfg (uint64 (int32 (x * cpp))).toNat tiling
  let (size, mode) := boTileSize cfg (stride * alignedY % 2 ^ 64) mode
  (size, stride, mode)

/-- The loop of `drm_intel_gem_bo_alloc_tiled`: the size, the stride and the tiling. -/
def tiledLayout (cfg : Config) (x y cpp : Int) : Nat → Nat → Except Fault (Nat × Nat × Nat)
  | 0, _ => .error .outOfFuel
  | k + 1, tiling =>
      match tiledRound cfg x y cpp tiling with
      | (size, stride, mode) =>
          if mode = tiling then .ok (size, stride, tiling) else tiledLayout cfg x y cpp k mode

/-- `drm_intel_gem_bo_alloc_tiled`. -/
def boAllocTiled (x y cpp : Int) (mode : Nat) (forRender : Bool) (r : AllocReply) (s : Bufmgr) :
    Except Fault (Option BoId × Bufmgr) := do
  let (size, stride, tiling) ← tiledLayout s.cfg x y cpp 2 mode
  boAllocInternal size forRender tiling (if tiling = I915_TILING_NONE then 0 else stride) r s

/-- `drm_intel_gem_bo_alloc_userptr`. -/
def boAllocUserptr (addr mode size : Nat) (r : FreshReply) (s : Bufmgr) :
    Except Fault (Option BoId × Bufmgr) :=
  if mode ≠ I915_TILING_NONE then .ok (none, s)
  else if !r.callocOk then .ok (none, s)
  else match r.create.answer s.kernel with
    | .error _ => .ok (none, s)
    | .ok (h, o) => do
        let b := s.nextBo
        let bo : Bo := { allocated := true, size, gemHandle := h, isUserptr := true, virt := addr
                         userVirtual := addr }
        let s ← initNodes b { s.calloc bo with kernel := s.kernel.create h o }
        allocFinish false (some b) s

/-! ## The search through the cache -/

/-- What `bo_busy` returns. -/
def Bo.isBusy (busy : Reply Bool) (bo : Bo) : Bool :=
  if bo.reusable && bo.idle then false
  else match busy with
    | .ok isBusy => isBusy
    | .error _ => false

def Bo.setIdle (idle : Bool) (bo : Bo) : Bo := { bo with idle }

/-- The kernel is asked for a change of tiling, and refuses it. -/
def Bo.refuses (mode stride : Nat) (setTiling : Reply Tiling) (bo : Bo) : Bool :=
  !decide (bo.globalName = 0 ∧ mode = bo.tilingMode ∧ stride = bo.stride)
    && (match setTiling with | .error _ => true | .ok _ => false)

/-- The object that the search takes from a bucket, and what is left of the bucket. -/
def picked (forRender : Bool) (busy : Reply Bool) (bos : BoId → Bo) : List BoId → Option (BoId × List BoId)
  | [] => none
  | b :: l =>
      if forRender then some ((b :: l).getLast (List.cons_ne_nil b l), (b :: l).dropLast)
      else if (bos b).isBusy busy then none else some (b, l)

/-- The objects that the search frees, when the bucket holds those given. -/
def evicted (forRender : Bool) (mode stride : Nat) (replies : Nat → SearchReply) (bos : BoId → Bo) :
    Nat → List BoId → List BoId
  | 0, _ => []
  | k + 1, l =>
      match picked forRender (replies k).busy bos l with
      | none => []
      | some (b, l) =>
          if (replies k).willneed then
            if (bos b).refuses mode stride (replies k).setTiling then
              b :: evicted forRender mode stride replies bos k l
            else []
          else b :: (l.takeWhile (fun c => !(replies k).dontneed c)
            ++ evicted forRender mode stride replies bos k (l.dropWhile fun c => !(replies k).dontneed c))

/-- The object that the search ends with. -/
def hit (forRender : Bool) (mode stride : Nat) (replies : Nat → SearchReply) (bos : BoId → Bo) :
    Nat → List BoId → Option BoId
  | 0, _ => none
  | k + 1, l =>
      match picked forRender (replies k).busy bos l with
      | none => none
      | some (b, l) =>
          if (replies k).willneed then
            if (bos b).refuses mode stride (replies k).setTiling then hit forRender mode stride replies bos k l
            else some b
          else hit forRender mode stride replies bos k (l.dropWhile fun c => !(replies k).dontneed c)

theorem boBusy_eq (b : BoId) (busy : Reply Bool) (s : Bufmgr) :
    ∃ idle, boBusy b busy s = ((s.bos b).isBusy busy, s.modify b (Bo.setIdle idle)) := by
  have hsame : s.modify b (Bo.setIdle (s.bos b).idle) = s := by simp [Bufmgr.modify, Bo.setIdle]
  unfold boBusy Bo.isBusy
  split
  · exact ⟨_, by rw [hsame]⟩
  · cases busy with
    | ok isBusy => exact ⟨!isBusy, rfl⟩
    | error e => exact ⟨_, by rw [hsame]⟩

def Bo.setTiling (t : Tiling) (bo : Bo) : Bo :=
  { bo with tilingMode := t.mode, swizzleMode := t.swizzle, stride := t.stride }

/-- A refused change of tiling is an error, and the only one. -/
theorem boSetTilingInternal_eq (b : BoId) (mode stride : Nat) (setTiling : Reply Tiling) (s : Bufmgr) :
    ∃ ret t, boSetTilingInternal b mode stride setTiling s = (ret, s.modify b (Bo.setTiling t))
      ∧ (ret = 0 ↔ (s.bos b).refuses mode stride setTiling = false) := by
  have hsame : s.modify b (Bo.setTiling ⟨(s.bos b).tilingMode, (s.bos b).swizzleMode, (s.bos b).stride⟩) = s := by
    simp [Bufmgr.modify, Bo.setTiling]
  unfold boSetTilingInternal Bo.refuses
  split
  · rename_i hsk
    exact ⟨0, _, by rw [hsame], by simp [hsk]⟩
  · rename_i hsk
    cases setTiling with
    | error e => exact ⟨-e, _, by rw [hsame], by simp [hsk, e.2.ne']⟩
    | ok t => exact ⟨0, t, rfl, by simp⟩

theorem picked_mem {forRender : Bool} {busy : Reply Bool} {bos : BoId → Bo} {l l' : List BoId} {b : BoId}
    (hp : picked forRender busy bos l = some (b, l')) (hl : l.Nodup) :
    b ∈ l ∧ b ∉ l' ∧ l'.Sublist l ∧ l'.length < l.length := by
  cases l with
  | nil => cases hp
  | cons a l =>
      simp only [picked] at hp
      split at hp
      · cases hp
        have hsplit := List.dropLast_append_getLast (List.cons_ne_nil a l)
        rw [← hsplit] at hl
        refine ⟨List.getLast_mem _, fun hin => ?_, List.dropLast_sublist _, by simp⟩
        exact (List.nodup_append.mp hl).2.2 _ hin _ (by simp) rfl
      · split at hp
        · cases hp
        · cases hp
          exact ⟨by simp, (List.nodup_cons.mp hl).1, List.sublist_cons_self _ _, by simp⟩

/-- An object that is neither in the cache nor referenced. -/
structure Loose (z : Nat) (b : BoId) (s : Bufmgr) : Prop where
  allocated : (s.bos b).allocated = true
  unreferenced : (s.bos b).refcount = 0
  unmapped : (s.bos b).mapCount = 0
  size : (s.bos b).size = z
  outside : ∀ i, b ∉ s.bucketHead i

/-- A write to an object without references that the invariants do not read. -/
theorem Inv.touch {g : Ghost} {s : Bufmgr} (h : Inv g s) {b : BoId} {f : Bo → Bo}
    (h0 : (s.bos b).refcount = 0) (hk : (f (s.bos b)).key = (s.bos b).key)
    (hm : (f (s.bos b)).mapCount = (s.bos b).mapCount) (hp : (f (s.bos b)).maps = (s.bos b).maps) :
    Inv g (s.modify b f) ∧ Swept [] s (s.modify b f) :=
  ⟨h.inert (Inert.modify s hk (Or.inl hm)) (h.vma.modify (congrArg Bo.allocated hk :) hm hp),
    Swept.modify s h0 hk⟩

section Search

variable {g : Ghost} {s : Bufmgr} {i z : Nat} {forRender : Bool} {busy : Reply Bool}

/-- Nothing is taken: the bucket is empty, or its first object is busy. -/
theorem pickCached_none (h : Inv g s) (hp : picked forRender busy s.bos (s.bucketHead i) = none) :
    ∃ s', pickCached i forRender busy s = (none, s') ∧ Inv g s' ∧ Swept [] s s' := by
  unfold pickCached
  cases hl : s.bucketHead i with
  | nil => exact ⟨s, rfl, h, Swept.refl s⟩
  | cons b l =>
      rw [hl] at hp
      simp only [picked] at hp
      split at hp
      · cases hp
      · rename_i hfr
        split at hp
        · rename_i hbusy
          obtain ⟨idle, he⟩ := boBusy_eq b busy s
          have h0 := (h.cache.member i b (by simp [hl])).1.unreferenced
          simp only [hfr, Bool.false_eq_true, if_false, he, hbusy]
          exact ⟨_, rfl, h.touch (f := Bo.setIdle idle) h0 rfl rfl rfl⟩
        · cases hp

/-- An object is taken off its bucket. -/
theorem pickCached_some (h : Inv g s) (hz : cacheBucketSizes[i]? = some z) {b : BoId} {l : List BoId}
    (hp : picked forRender busy s.bos (s.bucketHead i) = some (b, l)) :
    ∃ s' idle, pickCached i forRender busy s = (some b, s') ∧ Inv g s' ∧ Swept [] s s' ∧ Loose z b s'
      ∧ b ∉ g.dying ∧ s'.bucketHead = Function.update s.bucketHead i l
      ∧ s'.bos = (s.modify b (Bo.setIdle idle)).bos := by
  obtain ⟨hb, hbl, hsub, -⟩ := picked_mem hp (h.cache.nodup i)
  obtain ⟨hc, hbd⟩ := h.cache.member i b hb
  have hsame : s.modify b (Bo.setIdle (s.bos b).idle) = s := by simp [Bufmgr.modify, Bo.setIdle]
  have hout : ∀ j, b ∉ (s.setBucket i l).bucketHead j := h.cache.notMem_of_take hb hbl
  have hsize : (s.bos b).size = z := Option.some.inj (hc.size.symm.trans hz)
  have key : ∀ idle, ∃ s' idle', (s.modify b (Bo.setIdle idle)).setBucket i l = s' ∧ Inv g s' ∧ Swept [] s s'
      ∧ Loose z b s' ∧ b ∉ g.dying ∧ s'.bucketHead = Function.update s.bucketHead i l
      ∧ s'.bos = (s.modify b (Bo.setIdle idle')).bos := by
    intro idle
    obtain ⟨h₁, hsw₁⟩ := h.touch (f := Bo.setIdle idle) hc.unreferenced rfl rfl rfl
    refine ⟨_, idle, rfl, h₁.setBucket hsub, hsw₁.trans (Swept.setBucket _ i l), ?_, hbd, rfl, rfl⟩
    have hself : ((s.modify b (Bo.setIdle idle)).setBucket i l).bos b = (s.bos b).setIdle idle :=
      modify_self ..
    constructor
    · rw [hself]; exact hc.allocated
    · rw [hself]; exact hc.unreferenced
    · rw [hself]; exact hc.unmapped
    · rw [hself]; exact hsize
    · exact hout
  unfold pickCached
  cases hl : s.bucketHead i with
  | nil => rw [hl] at hp; cases hp
  | cons a l' =>
      rw [hl] at hp
      simp only [picked] at hp
      split at hp
      · rename_i hfr
        cases hp
        obtain ⟨s', idle, he, hs'⟩ := key (s.bos ((a :: l').getLast (List.cons_ne_nil a l'))).idle
        rw [hsame] at he
        exact ⟨s', idle, by simp only [hfr, if_true, he], hs'⟩
      · rename_i hfr
        split at hp
        · cases hp
        · rename_i hbusy
          cases hp
          obtain ⟨idle, hbe⟩ := boBusy_eq b busy s
          obtain ⟨s', idle', he, hs'⟩ := key idle
          exact ⟨s', idle', by simp only [hfr, Bool.false_eq_true, if_false, hbe, hbusy, he], hs'⟩

end Search

/-- The answers of the search depend on the objects of the bucket only. -/
theorem search_congr (forRender : Bool) (mode stride : Nat) (replies : Nat → SearchReply)
    {bos bos' : BoId → Bo} : ∀ (k : Nat) {l : List BoId}, (∀ c ∈ l, bos' c = bos c) → l.Nodup →
      evicted forRender mode stride replies bos' k l = evicted forRender mode stride replies bos k l
        ∧ hit forRender mode stride replies bos' k l = hit forRender mode stride replies bos k l
  | 0, _, _, _ => ⟨rfl, rfl⟩
  | k + 1, l, h, hnd => by
      have hpick : picked forRender (replies k).busy bos' l = picked forRender (replies k).busy bos l := by
        cases l with
        | nil => rfl
        | cons b l => simp only [picked, h b (List.mem_cons_self ..)]
      unfold evicted hit
      rw [hpick]
      cases hp : picked forRender (replies k).busy bos l with
      | none => exact ⟨rfl, rfl⟩
      | some bl =>
          obtain ⟨b, l'⟩ := bl
          obtain ⟨hb, -, hsub, -⟩ := picked_mem hp hnd
          have hl' : ∀ c ∈ l', bos' c = bos c := fun c hc => h c (hsub.subset hc)
          have hdrop := List.dropWhile_sublist (l := l') fun c => !(replies k).dontneed c
          obtain ⟨he, hh⟩ := search_congr forRender mode stride replies k hl' (hnd.sublist hsub)
          obtain ⟨he', hh'⟩ := search_congr forRender mode stride replies k
            (fun c hc => hl' c (hdrop.subset hc)) ((hnd.sublist hsub).sublist hdrop)
          simp only [h b hb, he, hh, he', hh', and_self]

/-- The search returns `hit`, keeps the invariant, and frees `evicted` and nothing else. -/
theorem searchCache_spec {g : Ghost} {i z : Nat} (hz : cacheBucketSizes[i]? = some z) (forRender : Bool)
    (mode stride : Nat) (replies : Nat → SearchReply) :
    ∀ (k : Nat) (s : Bufmgr), Inv g s → (s.bucketHead i).length < k →
      Returns (searchCache i forRender mode stride replies k s) fun r => Inv g r.2
        ∧ Swept (evicted forRender mode stride replies s.bos k (s.bucketHead i)) s r.2
        ∧ r.1 = hit forRender mode stride replies s.bos k (s.bucketHead i)
        ∧ ∀ b, r.1 = some b → Loose z b r.2 ∧ b ∉ g.dying
  | 0, _, _, hk => absurd hk (Nat.not_lt_zero _)
  | k + 1, s, h, hk => by
      unfold searchCache evicted hit
      cases hp : picked forRender (replies k).busy s.bos (s.bucketHead i) with
      | none =>
          obtain ⟨s', he, h', hsw⟩ := pickCached_none h hp
          simp only [he]
          exact .ok ⟨h', hsw, rfl, nofun⟩
      | some bl =>
          obtain ⟨b, l⟩ := bl
          have hnd := h.cache.nodup i
          obtain ⟨hb, hbl, hsub, hlen⟩ := picked_mem hp hnd
          obtain ⟨s₁, idle, he, h₁, hsw₁, hloose, hbd, hbk₁, hbos₁⟩ := pickCached_some h hz hp
          have hl₁ : s₁.bucketHead i = l := by rw [hbk₁, Function.update_self]
          have hne : ∀ c, c ≠ b → s₁.bos c = s.bos c := fun c hc => by rw [hbos₁, modify_of_ne s hc]
          have hself : s₁.bos b = (s.bos b).setIdle idle := by rw [hbos₁, modify_self]
          simp only [he]
          split
          · obtain ⟨ret, t, hset, href⟩ := boSetTilingInternal_eq b mode stride (replies k).setTiling s₁
            have href : ret = 0 ↔ (s.bos b).refuses mode stride (replies k).setTiling = false := by
              rw [href, hself]; rfl
            obtain ⟨h₂, hsw₂⟩ := h₁.touch (f := Bo.setTiling t) hloose.unreferenced rfl rfl rfl
            have hself₂ : (s₁.modify b (Bo.setTiling t)).bos b = (s₁.bos b).setTiling t := modify_self ..
            have hloose₂ : Loose z b (s₁.modify b (Bo.setTiling t)) := by
              constructor
              · rw [hself₂]; exact hloose.allocated
              · rw [hself₂]; exact hloose.unreferenced
              · rw [hself₂]; exact hloose.unmapped
              · rw [hself₂]; exact hloose.size
              · exact hloose.outside
            simp only [hset]
            by_cases hret : ret = 0
            · have hre := href.mp hret
              simp only [if_pos hret, hre, Bool.false_eq_true, if_false]
              refine .ok ⟨h₂, hsw₁.trans hsw₂, rfl, ?_⟩
              rintro c ⟨⟩
              exact ⟨hloose₂, hbd⟩
            · have hre : (s.bos b).refuses mode stride (replies k).setTiling = true := by
                simpa using fun e => hret (href.mpr e)
              simp only [if_neg hret, hre, if_true]
              refine (h₂.freeCached hloose₂.allocated hloose₂.unreferenced hloose₂.unmapped hbd
                hloose₂.outside).bind ?_
              rintro s₃ ⟨h₃, hsw₃, hbk₃, hbos₃⟩
              have hl₃ : s₃.bucketHead i = l := by rw [hbk₃]; exact hl₁
              have hsame : ∀ c ∈ l, s₃.bos c = s.bos c := fun c hc => by
                have hcb : c ≠ b := fun e => hbl (e ▸ hc)
                rw [hbos₃ c hcb, modify_of_ne s₁ hcb, hne c hcb]
              refine (searchCache_spec hz forRender mode stride replies k s₃ h₃ (by rw [hl₃]; omega)).mono ?_
              rintro r ⟨h', hsw, hhit, hfound⟩
              obtain ⟨he, hh⟩ := search_congr forRender mode stride replies k hsame (hnd.sublist hsub)
              rw [hl₃, he] at hsw
              rw [hl₃, hh] at hhit
              exact ⟨h', ((hsw₁.trans hsw₂).trans hsw₃).trans hsw, hhit, hfound⟩
          · refine (h₁.freeCached hloose.allocated hloose.unreferenced hloose.unmapped hbd
              hloose.outside).bind ?_
            rintro s₂ ⟨h₂, hsw₂, hbk₂, hbos₂⟩
            have hl₂ : s₂.bucketHead i = l := by rw [hbk₂]; exact hl₁
            refine (dropStale_spec (fun b _ => !(replies k).dontneed b) i _ s₂ rfl h₂).bind ?_
            rintro s₃ ⟨h₃, hsw₃, hbk₃, hbos₃⟩
            rw [hl₂] at hsw₃ hbk₃ hbos₃
            have hl₃ : s₃.bucketHead i = l.dropWhile fun c => !(replies k).dontneed c := by
              rw [hbk₃, Function.update_self]
            have hdrop := List.dropWhile_sublist (l := l) fun c => !(replies k).dontneed c
            have hndl := hnd.sublist hsub
            have hsame : ∀ c ∈ l.dropWhile (fun c => !(replies k).dontneed c), s₃.bos c = s.bos c := by
              intro c hc
              have hcb : c ≠ b := fun e => hbl (hdrop.subset (e ▸ hc))
              have hct : c ∉ l.takeWhile fun c => !(replies k).dontneed c := fun hin => by
                rw [← List.takeWhile_append_dropWhile (p := fun c => !(replies k).dontneed c) (l := l)] at hndl
                exact (List.nodup_append.mp hndl).2.2 c hin c hc rfl
              rw [hbos₃ c hct, hbos₂ c hcb, hne c hcb]
            refine (searchCache_spec hz forRender mode stride replies k s₃ h₃ ?_).mono ?_
            · rw [hl₃]
              have := hdrop.length_le
              omega
            rintro r ⟨h', hsw, hhit, hfound⟩
            obtain ⟨he, hh⟩ := search_congr forRender mode stride replies k hsame (hndl.sublist hdrop)
            rw [hl₃, he] at hsw
            rw [hl₃, hh] at hhit
            refine ⟨h', ?_, hhit, hfound⟩
            have hall := ((hsw₁.trans hsw₂).trans hsw₃).trans hsw
            simpa [List.append_assoc] using hall

/-! ## New objects -/

theorem GraphOk.nextBo_notMem {g : Ghost} {s : Bufmgr} (h : GraphOk g s) {nl : List BoId}
    (hn : NameOk g.exporting g.dying nl s) : s.nextBo ∉ nl := fun hin =>
  absurd (hn.lt_of_mem h.fresh hin) (lt_irrefl _)

/-- A list `l` keeps its objects, and the node of the new object `b` is linked to itself. -/
def NewNode (b : BoId) (m m' : DList.Mem Node) : Prop :=
  ∀ l, OnList m l → b ∉ l →
    OnList m' l ∧ Detached m' b ∧ ∀ c, c ≠ b → m' (some c) = m (some c)

/-- `calloc` and `DRMINITLISTHEAD` of a list node. -/
theorem NewNode.of_calloc {b : BoId} {m : DList.Mem Node} {l : List BoId} (h : OnList m l) (hb : b ∉ l) :
    ∃ m', DList.init (DList.calloc m (some b)) (some b) = some m' ∧ NewNode b m m' := by
  have hself : ∀ x, x ≠ some b → DList.calloc m (some b) x = m x := fun x hx => by
    simp [DList.calloc, hx]
  have hal : (DList.calloc m (some b) (some b)).isSome := by simp [DList.calloc]
  obtain ⟨m', hm', -, hd, -, hf⟩ := (h.calloc hb).init hb hal
  have hframe : ∀ c, c ≠ b → m' (some c) = m (some c) := fun c hc =>
    (hf c hc).trans (hself _ (by simpa using hc))
  refine ⟨m', hm', fun l' hl' hb' => ⟨?_, hd, hframe⟩⟩
  obtain ⟨m'', hm'', hl'', -, -, -⟩ := (hl'.calloc hb').init hb' hal
  rw [Option.some.inj (hm'.symm.trans hm'')]
  exact hl''

/-- What is said of a new object before it is handed out. -/
structure NewBo (bo : Bo) : Prop where
  allocated : bo.allocated = true
  unreferenced : bo.refcount = 0
  relocs : bo.relocs = []
  unmapped : bo.mapCount = 0
  maps : bo.maps = 0
  notReusable : bo.reusable = false

/-- The manager with the new object `bo`, for which the kernel created `o`. -/
structure Created (bo : Bo) (o : Obj) (s s' : Bufmgr) : Prop where
  rest : { s'.shell with nextBo := s.nextBo } = s.shell
  nextBo : s'.nextBo = s.nextBo + 1
  bos : s'.bos = Function.update s.bos s.nextBo bo
  buckets : s'.bucketHead = s.bucketHead
  vmaOpen : s'.vmaOpen = s.vmaOpen
  vmaCount : s'.vmaCount = s.vmaCount
  kernel : s'.kernel = s.kernel.create bo.gemHandle o
  name : NewNode s.nextBo s.nameList s'.nameList
  vma : NewNode s.nextBo s.vmaList s'.vmaList

/-- A handle that the kernel did not use before belongs to no object. -/
theorem NameOk.created {E : BoId → Prop} {X nl : List BoId} {s s' : Bufmgr} {bo : Bo} {o : Obj}
    (h : NameOk E X nl s) (hbo : NewBo bo) (hc : Created bo o s s') (hnb : s.nextBo ∉ nl)
    (hok : s.kernel.CreateOk bo.gemHandle o) : NameOk E X nl s' := by
  obtain ⟨hl, hd, hf⟩ := hc.name nl h.list hnb
  have hnew : ∀ c, (s.bos c).allocated = true → (s.bos c).gemHandle ≠ bo.gemHandle := by
    intro c hca e
    obtain ⟨o', ho'⟩ := h.opened c hca
    rw [e, hok.1] at ho'
    cases ho'
  refine h.insert hc.bos hbo.allocated (fun hin => absurd hin hnb) hl (fun _ _ => Iff.rfl)
    (fun c hcb _ => hf c hcb) (Or.inr hd) (fun hin => absurd hin hnb) (Or.inr hbo.unreferenced) hnew
    ⟨o, ?_, ?_⟩ ?_ ?_ ?_
  · rw [hc.kernel, Kernel.create_self]
  · rw [hc.kernel, Kernel.create_status, if_pos rfl]; exact nofun
  · intro c hca
    rw [hc.kernel, Kernel.create_of_ne (hnew c hca)]
  · intro c o' _ _ hs
    rw [hc.kernel, Kernel.create_status] at hs
    split at hs
    · cases hs
    · exact hs
  · rw [hc.kernel]; exact h.kernel.create hok

theorem Inv.created {g : Ghost} {s s' : Bufmgr} {bo : Bo} {o : Obj} (h : Inv g s) (hbo : NewBo bo)
    (hc : Created bo o s s') (hok : s.kernel.CreateOk bo.gemHandle o) :
    Inv g s' ∧ Loose bo.size s.nextBo s' ∧ s.nextBo ∉ g.dying := by
  have hun := h.graph.fresh s.nextBo (Nat.le_refl _)
  have hcache := h.cache.notMem_of_unallocated hun
  have hself : s'.bos s.nextBo = bo := by rw [hc.bos, Function.update_self]
  refine ⟨⟨?_, ?_, ?_, ?_, ?_⟩, ⟨?_, ?_, ?_, ?_, ?_⟩, fun hin => ?_⟩
  · have hg := h.graph.alloc (k := 0) hc.nextBo hc.bos hbo.allocated hbo.unreferenced hbo.relocs
    rwa [Nat.add_zero, Function.update_eq_self] at hg
  · exact h.cache.update hcache hc.buckets hc.bos fun hre => by rw [hbo.notReusable] at hre; cases hre
  · obtain ⟨nl, hn⟩ := h.names
    exact ⟨nl, hn.created hbo hc (h.graph.nextBo_notMem hn) hok⟩
  · obtain ⟨vl, hvl⟩ := h.vma.ok
    have hnv : s.nextBo ∉ vl := fun hin => by
      have := ((hvl.obj _).member hin).1
      rw [hun] at this
      cases this
    obtain ⟨hl, hd, hf⟩ := hc.vma vl hvl.list hnv
    exact ⟨vl, hvl.grow hc.nextBo hc.bos hbo.allocated hbo.unmapped hbo.maps hl hd hf hc.vmaOpen hc.vmaCount⟩
  · have hm : s'.vmaMax = s.vmaMax := (congrArg Bufmgr.vmaMax hc.rest :)
    rw [VmaLimit, hm, hc.vmaOpen, hc.vmaCount]
    exact h.vma.limit
  · rw [hself]; exact hbo.allocated
  · rw [hself]; exact hbo.unreferenced
  · rw [hself]; exact hbo.unmapped
  · rw [hself]
  · rw [hc.buckets]; exact hcache
  · rw [(h.graph.dying _ hin).1] at hun
    cases hun

/-- The list nodes of a new object are initialised. -/
theorem initNodes_spec {g : Ghost} {s : Bufmgr} (h : Inv g s) (bo : Bo) (o : Obj) :
    Returns (initNodes s.nextBo { s.calloc bo with kernel := s.kernel.create bo.gemHandle o })
      (Created bo o s) := by
  obtain ⟨nl, hn⟩ := h.names
  obtain ⟨vl, hvl⟩ := h.vma.ok
  have hnv : s.nextBo ∉ vl := fun hin => by
    have := ((hvl.obj _).member hin).1
    rw [h.graph.fresh _ (Nat.le_refl _)] at this
    cases this
  obtain ⟨m, hm, hname⟩ := NewNode.of_calloc hn.list (h.graph.nextBo_notMem hn)
  obtain ⟨v, hv, hvma⟩ := NewNode.of_calloc hvl.list hnv
  simp only [initNodes, Bufmgr.calloc, hm, hv, deref_some, ok_bind]
  exact .pure ⟨rfl, rfl, rfl, rfl, rfl, rfl, rfl, hname, hvma⟩

/-- A new object has no tiling, and one is asked for that the kernel refuses. -/
def FreshReply.refused (mode stride : Nat) (r : FreshReply) : Bool :=
  Bo.refuses mode stride r.setTiling {}

/-- All that can happen to a new object.  Where the tiling is refused, `bo_free` unlinks a
list node whose pointers are still NULL. -/
theorem allocFresh_cases {g : Ghost} {s : Bufmgr} (h : Inv g s) (size mode stride : Nat) (r : FreshReply) :
    ((r.callocOk = false ∨ ∃ e, r.create.answer s.kernel = .error e)
      ∧ allocFresh size mode stride r s = .ok (none, s))
    ∨ (r.callocOk = true ∧ (∃ ho, r.create.answer s.kernel = .ok ho)
      ∧ ((r.refused mode stride = true ∧ allocFresh size mode stride r s = .error .badPointer)
        ∨ (r.refused mode stride = false ∧ ∃ bo o s', allocFresh size mode stride r s = .ok (some s.nextBo, s')
          ∧ NewBo bo ∧ bo.size = size ∧ s.kernel.CreateOk bo.gemHandle o ∧ Created bo o s s'))) := by
  unfold allocFresh
  cases hcall : r.callocOk with
  | false => exact Or.inl ⟨Or.inl rfl, rfl⟩
  | true =>
      cases hcr : r.create.answer s.kernel with
      | error e => exact Or.inl ⟨Or.inr ⟨e, rfl⟩, rfl⟩
      | ok ho =>
          obtain ⟨hd, o⟩ := ho
          refine Or.inr ⟨rfl, ⟨_, rfl⟩, ?_⟩
          let bo : Bo := { allocated := true, size := size, gemHandle := hd }
          let s₁ : Bufmgr := { s.calloc bo with kernel := s.kernel.create hd o }
          obtain ⟨ret, t, hset, href⟩ := boSetTilingInternal_eq s.nextBo mode stride r.setTiling s₁
          have hself : s₁.bos s.nextBo = bo := by simp [s₁, Bufmgr.calloc]
          have href : ret = 0 ↔ r.refused mode stride = false := by
            rw [href, hself]; rfl
          have hmod : s₁.modify s.nextBo (Bo.setTiling t)
              = { s.calloc (bo.setTiling t) with kernel := s.kernel.create hd o } := by
            simp [s₁, Bufmgr.modify, Bufmgr.calloc]
          rw [hmod] at hset
          simp only [Bool.not_true, Bool.false_eq_true, if_false]
          show _ ∨ _
          cases hre : r.refused mode stride with
          | true =>
              have hret : ret ≠ 0 := fun e => by rw [href.mp e] at hre; cases hre
              refine Or.inl ⟨rfl, ?_⟩
              simp only [s₁, bo] at hset
              simp only [hset, if_neg hret]
              simp [boFree, Bufmgr.calloc, DList.del, DList.calloc]
          | false =>
              obtain ⟨s', hinit, hcre⟩ := initNodes_spec h (bo.setTiling t) o
              refine Or.inr ⟨rfl, bo.setTiling t, o, s', ?_, ⟨rfl, rfl, rfl, rfl, rfl, rfl⟩, rfl,
                r.create.valid _ _ _ hcr, hcre⟩
              simp only [s₁, bo] at hset hinit
              simp only [hset, if_pos (href.mpr hre)]
              exact congrArg (fun x => x >>= fun s => Except.ok (some _, s)) hinit

/-! ## Handing out an object -/

/-- The object `b` was handed out: it is new to the callers, and the live objects are as before. -/
structure Handed (b : BoId) (s s' : Bufmgr) : Prop where
  rest : { s'.shell with nextBo := s.nextBo } = s.shell
  nextBo : s.nextBo ≤ s'.nextBo
  was : (s.bos b).refcount = 0
  live : ∀ c, 0 < (s.bos c).refcount → s'.bos c = s.bos c
  dead : ∀ c, c ≠ b → (s.bos c).refcount = 0 → (s'.bos c).refcount = 0
  refcount : (s'.bos b).refcount = 1
  relocs : (s'.bos b).relocs = []
  unused : (s'.bos b).usedAsRelocTarget = false
  treeSize : inApertureSize s'.cfg (s'.bos b) = .ok (s'.bos b).relocTreeSize

/-- An object that may be reused has the size of a bucket, or is too large for all of them. -/
def Rounded (z : Nat) : Prop := ∀ i, boBucketForSize z = some i → cacheBucketSizes[i]? = some z

theorem allocSize_spec (cfg : Config) (size : Nat) :
    Rounded (allocSize cfg size) ∧ size ≤ allocSize cfg size
      ∧ ∀ i, boBucketForSize size = some i → cacheBucketSizes[i]? = some (allocSize cfg size) := by
  unfold allocSize
  cases hb : boBucketForSize size with
  | none =>
      refine ⟨fun i hi => ?_, le_max_left _ _, nofun⟩
      rw [boBucketForSize_none hb (le_max_left _ _)] at hi
      cases hi
  | some i =>
      obtain ⟨z, hz, hle, hb'⟩ := boBucketForSize_eq hb
      have hget : cacheBucketSizes.getD i 0 = z := by rw [List.getD_eq_getElem?_getD, hz]; rfl
      simp only [hget]
      refine ⟨fun j hj => ?_, hle, ?_⟩
      · rw [← Option.some.inj (hb'.symm.trans hj)]; exact hz
      · rintro j ⟨⟩
        exact hz

/-- A loose object gets its first reference. -/
theorem Inv.handOut {g : Ghost} {s : Bufmgr} (h : Inv g s) {z : Nat} {b : BoId} (hb : Loose z b s)
    (hbd : b ∉ g.dying) (hE : ¬ g.exporting b) (reusable : Bool) (hz : reusable = true → Rounded z) :
    Inv { g with callers := take g.callers b } (s.modify b (Bo.handOut reusable)) := by
  obtain ⟨nl, hn⟩ := h.names
  have hnb := hn.notMem_of_unreferenced hb.unreferenced hbd
  refine ⟨h.graph.ref hb.allocated hbd hb.allocated rfl (Or.inr hb.unreferenced) ?_, ?_, ⟨nl, ?_⟩,
    h.vma.modify rfl rfl rfl⟩
  · rw [hb.unreferenced]; rfl
  · refine h.cache.modify hb.outside ?_ (fun c hc => Or.inl hc)
    intro hre i hi
    have hsize : (s.bos b).size = z := hb.size
    show cacheBucketSizes[i]? = some (s.bos b).size
    rw [hsize]
    exact hz hre i (hsize ▸ hi)
  · exact hn.modify_off hnb hE rfl rfl

theorem Loose.relocs {g : Ghost} {s : Bufmgr} (h : Inv g s) {z : Nat} {b : BoId} (hb : Loose z b s)
    (hbd : b ∉ g.dying) : (s.bos b).relocs = [] := (h.graph.dead b hb.unreferenced hbd).2

/-- The end of an allocation. -/
theorem allocFinish_spec {E : BoId → Prop} {callers : BoId → Nat} {s : Bufmgr} (h : Settled E callers s)
    (hE : ∀ c, ¬ E c) {z : Nat} {b : BoId} (hb : Loose z b s) {reusable : Bool}
    (hz : reusable = true → Rounded z) :
    Ensures (allocFinish reusable (some b) s) fun r => r.1 = some b ∧ Settled E (take callers b) r.2
      ∧ Handed b s r.2 ∧ (r.2.bos b).size = z ∧ r.2.nameList = s.nameList ∧ r.2.lock = s.lock := by
  obtain ⟨rk, hi⟩ := h
  have hrel := hb.relocs hi (by simp [idle])
  have h₁ := hi.handOut hb (by simp [idle]) (hE b) reusable hz
  let s₁ := s.modify b (Bo.handOut reusable)
  have hself₁ : s₁.bos b = (s.bos b).handOut reusable := modify_self ..
  simp only [allocFinish, setInApertureSize]
  rw [show (s.modify b (Bo.handOut reusable)).bos b = (s.bos b).handOut reusable from hself₁]
  show Ensures ((Except.ok () >>= fun _ => _) >>= _) _
  cases hsz : inApertureSize s.cfg ((s.bos b).handOut reusable) with
  | error e =>
      simp only [modify_cfg, hsz, ok_bind, error_bind]
      exact .error
  | ok size =>
      simp only [modify_cfg, hsz, ok_bind]
      refine .pure ?_
      let s₂ := s₁.modify b (Bo.setTreeSize size)
      have hself₂ : s₂.bos b = ((s.bos b).handOut reusable).setTreeSize size := by
        rw [← hself₁]; exact modify_self ..
      have hne : ∀ c, c ≠ b → s₂.bos c = s.bos c := fun c hc => by
        rw [show s₂.bos c = s₁.bos c from modify_of_ne s₁ hc _, show s₁.bos c = s.bos c from modify_of_ne s hc _]
      have h₂ : Inv { idle E callers rk s with callers := take callers b } s₂ :=
        h₁.inert (Inert.modify s₁ rfl (Or.inl rfl)) (h₁.vma.modify rfl rfl rfl)
      refine ⟨rfl, .of_inv h₂ rfl fun c => ?_, ⟨rfl, le_rfl, hb.unreferenced, fun c hc => hne c ?_,
        fun c hcb hc => ?_, ?_, ?_, ?_, ?_⟩, ?_, rfl, rfl⟩
      · show (s.bos c).targets = (s₂.bos c).targets
        by_cases hcb : c = b
        · rw [hcb, hself₂]; rfl
        · rw [hne c hcb]
      · rintro rfl
        have := hb.unreferenced
        omega
      · exact (congrArg Bo.refcount (hne c hcb)).trans hc
      · exact (congrArg Bo.refcount hself₂ :)
      · exact (congrArg Bo.relocs hself₂ :).trans hrel
      · exact (congrArg Bo.usedAsRelocTarget hself₂ :)
      · show inApertureSize s.cfg (s₂.bos b) = .ok (s₂.bos b).relocTreeSize
        rw [hself₂]
        exact hsz
      · exact (congrArg Bo.size hself₂ :).trans hb.size

/-- The objects that `alloc_internal` frees on its way through the bucket. -/
def searchEvicts (bucket : Option Nat) (forRender : Bool) (mode stride : Nat)
    (replies : Nat → SearchReply) (s : Bufmgr) : List BoId :=
  match bucket with
  | none => []
  | some i => evicted forRender mode stride replies s.bos ((s.bucketHead i).length + 1) (s.bucketHead i)

/-- The object of the bucket that it decides for. -/
def searchHit (bucket : Option Nat) (forRender : Bool) (mode stride : Nat)
    (replies : Nat → SearchReply) (s : Bufmgr) : Option BoId :=
  match bucket with
  | none => none
  | some i => hit forRender mode stride replies s.bos ((s.bucketHead i).length + 1) (s.bucketHead i)

/-- What was done under the lock, seen from outside. -/
theorem Swept.unlock {D : List BoId} {s s' : Bufmgr} (h : Swept D { s with lock := true } s')
    (hlock : s.lock = false) : Swept D s { s' with lock := false } := by
  refine ⟨?_, h.freed, h.kernel, h.live, ⟨h.closes.old, h.closes.dead, h.closes.status, h.closes.handles⟩, h.names, h.vmas⟩
  have hs : { s.shell with lock := false } = s.shell := by
    show { s.shell with lock := false } = { s.shell with lock := s.lock }
    rw [hlock]
  exact (congrArg (fun t : Bufmgr => { t with lock := false }) h.rest :).trans hs

theorem Swept.lock {D : List BoId} {s s' : Bufmgr} (h : Swept D s s') : s'.lock = s.lock :=
  shell_lock h.rest

section Internal

variable {E : BoId → Prop} {callers : BoId → Nat} {s : Bufmgr}

/-- The locked section finds an object of the bucket's size, or none. -/
theorem allocCached_spec (h : Settled E callers s) (hlock : s.lock = false) (size : Nat) (forRender : Bool)
    (mode stride : Nat) (replies : Nat → SearchReply) :
    Returns (allocCached (boBucketForSize size) forRender mode stride replies s) fun r =>
      Settled E callers r.2
      ∧ Swept (searchEvicts (boBucketForSize size) forRender mode stride replies s) s r.2
      ∧ r.1 = searchHit (boBucketForSize size) forRender mode stride replies s
      ∧ ∀ b, r.1 = some b → Loose (allocSize s.cfg size) b r.2 := by
  obtain ⟨rk, hi⟩ := h.setLock true
  refine Bufmgr.withLock_returns hlock ?_
  cases hb : boBucketForSize size with
  | none =>
      refine .ok ⟨⟨rk, hi.inert ⟨fun _ => rfl, fun _ _ _ => rfl, rfl, rfl, rfl, rfl⟩ (hi.vma.setLock false)⟩,
        ?_, rfl, nofun⟩
      exact (Swept.refl _).unlock hlock
  | some i =>
      have hz := (allocSize_spec s.cfg size).2.2 i hb
      refine (searchCache_spec hz forRender mode stride replies _ _ hi (Nat.lt_succ_self _)).mono ?_
      rintro ⟨found, s'⟩ ⟨h', hsw, hhit, hfound⟩
      refine ⟨(Settled.swept hi h' hsw).setLock false, hsw.unlock hlock, hhit, fun b hb => ?_⟩
      have hl := (hfound b hb).1
      exact ⟨hl.allocated, hl.unreferenced, hl.unmapped, hl.size, hl.outside⟩

theorem Handed.of_swept {D : List BoId} {b : BoId} {s₁ s' : Bufmgr} (hsw : Swept D s s₁)
    (h : Handed b s₁ s') : Handed b s s' := by
  have hnext := shell_nextBo hsw.rest
  refine ⟨?_, hnext ▸ h.nextBo, ?_, fun c hc => ?_, fun c hcb hc => h.dead c hcb (hsw.dead c hc), h.refcount,
    h.relocs, h.unused, h.treeSize⟩
  · rw [← hnext, h.rest, hsw.rest]
  · by_contra hne
    have := h.was
    rw [hsw.live b (Nat.pos_of_ne_zero hne)] at this
    exact hne this
  · have e := hsw.live c hc
    rw [h.live c (by rw [e]; exact hc), e]

theorem Handed.of_created {g : Ghost} {bo : Bo} {o : Obj} {s₁ s' : Bufmgr} (hi : Inv g s)
    (hc : Created bo o s s₁) (h : Handed s.nextBo s₁ s') : Handed s.nextBo s s' := by
  have h0 := hi.graph.unalloc _ (hi.graph.fresh _ (Nat.le_refl _))
  have hne : ∀ c, c ≠ s.nextBo → s₁.bos c = s.bos c := fun c hcb => by
    rw [hc.bos, Function.update_of_ne hcb]
  refine ⟨?_, ?_, h0, fun c hpos => ?_, fun c hcb hz => h.dead c hcb (by rw [hne c hcb]; exact hz), h.refcount,
    h.relocs, h.unused, h.treeSize⟩
  · exact (congrArg (fun t : Bufmgr => { t with nextBo := s.nextBo }) h.rest :).trans hc.rest
  · have := h.nextBo
    rw [hc.nextBo] at this
    exact Nat.le_of_succ_le this
  · have hcb : c ≠ s.nextBo := by
      rintro rfl
      rw [h0] at hpos
      exact absurd hpos (lt_irrefl 0)
    have e := hne c hcb
    rw [h.live c (by rw [e]; exact hpos), e]

/-- The list node of a loose object is linked to itself. -/
theorem Settled.detached (h : Settled E callers s) (hE : ∀ c, ¬ E c) {z : Nat} {b : BoId} (hb : Loose z b s) :
    Detached s.nameList b := by
  obtain ⟨rk, hi⟩ := h
  obtain ⟨nl, hn⟩ := hi.names
  have hoff := hn.notMem_of_unreferenced hb.unreferenced (by simp [idle])
  exact ((hn.node b hb.allocated).resolve_left hoff).resolve_right fun hd => hE b hd.1

theorem Settled.created (h : Settled E callers s) {bo : Bo} {o : Obj} {s' : Bufmgr} (hbo : NewBo bo)
    (hc : Created bo o s s') (hok : s.kernel.CreateOk bo.gemHandle o) :
    Settled E callers s' ∧ Loose bo.size s.nextBo s' := by
  obtain ⟨rk, hi⟩ := h
  obtain ⟨h', hl, -⟩ := hi.created hbo hc hok
  refine ⟨.of_inv h' rfl fun c => ?_, hl⟩
  show (s.bos c).targets = (s'.bos c).targets
  by_cases hcb : c = s.nextBo
  · have h0 := hi.graph.unalloc _ (hi.graph.fresh _ (Nat.le_refl _))
    rw [hcb, hc.bos, Function.update_self, Bo.targets, Bo.targets, hbo.relocs,
      (hi.graph.dead _ h0 (by simp [idle])).2]
  · rw [hc.bos, Function.update_of_ne hcb]

/-- What an allocation leaves, whatever the answers were: nothing, or an object as asked for. -/
def AllocPost (E : BoId → Prop) (callers : BoId → Nat) (size : Nat) (s : Bufmgr)
    (r : Option BoId × Bufmgr) : Prop :=
  r.2.lock = false ∧
    match r.1 with
    | none => Settled E callers r.2 ∧ ∃ D, Swept D s r.2
    | some b => Settled E (take callers b) r.2 ∧ Handed b s r.2 ∧ size ≤ (r.2.bos b).size
        ∧ Detached r.2.nameList b

theorem allocFinish_post {D : List BoId} {s₁ s₂ : Bufmgr} (h : Settled E callers s₂) (hE : ∀ c, ¬ E c) (hlock : s₂.lock = false)
    {z size : Nat} {b : BoId} (hb : Loose z b s₂) (hz : Rounded z) (hle : size ≤ z) (hsw : Swept D s s₁)
    (hh : ∀ s', Handed b s₂ s' → Handed b s₁ s') :
    Ensures (allocFinish true (some b) s₂) (AllocPost E callers size s) := by
  refine (allocFinish_spec h hE hb fun _ => hz).mono ?_
  rintro ⟨found, s'⟩ ⟨hf, h', hhand, hsize, hnames, hl⟩
  cases hf
  refine ⟨hl.trans hlock, h', .of_swept hsw (hh s' hhand), hsize.symm ▸ hle, ?_⟩
  rw [hnames]
  exact h.detached hE hb

/-- `alloc_internal` hands out an object that is large enough and has one reference. -/
theorem boAllocInternal_spec (h : Settled E callers s) (hE : ∀ c, ¬ E c) (hlock : s.lock = false) (size : Nat) (forRender : Bool)
    (mode stride : Nat) (r : AllocReply) :
    Ensures (boAllocInternal size forRender mode stride r s) (AllocPost E callers size s) := by
  unfold boAllocInternal
  obtain ⟨⟨found, s₁⟩, he, h₁, hsw, -, hfound⟩ :=
    allocCached_spec h hlock size forRender mode (stride % 2 ^ 32) r.search
  have hlock₁ : s₁.lock = false := hsw.lock.trans hlock
  obtain ⟨hround, hle, -⟩ := allocSize_spec s.cfg size
  simp only [he, ok_bind]
  cases found with
  | some b => exact allocFinish_post h₁ hE hlock₁ (hfound b rfl) hround hle hsw fun _ h => h
  | none =>
      obtain ⟨rk, hi⟩ := h₁
      have hcfg : s₁.cfg = s.cfg := shell_cfg hsw.rest
      rcases allocFresh_cases hi (allocSize s₁.cfg size) mode (stride % 2 ^ 32) r.fresh with
        ⟨-, he⟩ | ⟨-, -, ⟨-, he⟩ | ⟨-, bo, o, s₂, he, hbo, hsz, hok, hc⟩⟩
      · simp only [he, ok_bind]
        exact .ok ⟨hlock₁, ⟨rk, hi⟩, _, hsw⟩
      · simp only [he, error_bind]
        exact .error
      · simp only [he, ok_bind]
        obtain ⟨h₂, hloose⟩ := Settled.created ⟨rk, hi⟩ hbo hc hok
        rw [hsz, hcfg] at hloose
        have hlock₂ : s₂.lock = false := (congrArg Bufmgr.lock hc.rest :).trans hlock₁
        exact allocFinish_post h₂ hE hlock₂ hloose hround hle hsw fun s' hh => hh.of_created hi hc

/-- A tiling mode is given up at most once, so two rounds are enough. -/
theorem tiledLayout_returns (cfg : Config) (x y cpp : Int) (mode : Nat) :
    Returns (tiledLayout cfg x y cpp 2 mode) fun _ => True := by
  have hpitch : ∀ pitch, (boTilePitch cfg pitch mode).2 = mode
      ∨ (boTilePitch cfg pitch mode).2 = I915_TILING_NONE := by
    intro pitch
    simp only [boTilePitch]
    repeat' split
    all_goals first | exact Or.inl rfl | exact Or.inr rfl
  have hsize : ∀ size m, (boTileSize cfg size m).2 = m ∨ (boTileSize cfg size m).2 = I915_TILING_NONE := by
    intro size m
    simp only [boTileSize]
    repeat' split
    all_goals first | exact Or.inl rfl | exact Or.inr rfl
  have hround : (tiledRound cfg x y cpp mode).2.2 = mode
      ∨ (tiledRound cfg x y cpp mode).2.2 = I915_TILING_NONE := by
    simp only [tiledRound]
    rcases hsize _ (boTilePitch cfg (uint64 (int32 (x * cpp))).toNat mode).2 with e | e
    · rw [e]; exact hpitch _
    · exact Or.inr e
  have hnone : (tiledRound cfg x y cpp I915_TILING_NONE).2.2 = I915_TILING_NONE := by
    simp [tiledRound, boTilePitch, boTileSize]
  unfold tiledLayout
  split
  rename_i size stride mode' he
  rw [he] at hround
  split
  · exact .ok trivial
  · rename_i hne
    rw [show mode' = I915_TILING_NONE from hround.resolve_left hne]
    unfold tiledLayout
    split
    rename_i size' stride' mode'' he'
    rw [he'] at hnone
    rw [if_pos hnone]
    exact .ok trivial

theorem boAllocTiled_spec (h : Settled E callers s) (hE : ∀ c, ¬ E c) (hlock : s.lock = false) (x y cpp : Int) (mode : Nat)
    (forRender : Bool) (r : AllocReply) :
    Ensures (boAllocTiled x y cpp mode forRender r s) (AllocPost E callers 0 s) := by
  unfold boAllocTiled
  obtain ⟨⟨size, stride, tiling⟩, he, -⟩ := tiledLayout_returns s.cfg x y cpp mode
  simp only [he, ok_bind]
  refine (boAllocInternal_spec h hE hlock size forRender tiling _ r).mono ?_
  rintro ⟨found, s'⟩ ⟨hl, hpost⟩
  refine ⟨hl, ?_⟩
  cases found with
  | none => exact hpost
  | some b => exact ⟨hpost.1, hpost.2.1, Nat.zero_le _, hpost.2.2.2⟩

/-- An object in the memory of a caller is never reused. -/
theorem boAllocUserptr_spec (h : Settled E callers s) (hE : ∀ c, ¬ E c) (hlock : s.lock = false) (addr mode size : Nat)
    (r : FreshReply) :
    Ensures (boAllocUserptr addr mode size r s) (AllocPost E callers size s) := by
  have hnone : Ensures (.ok (none, s) : Except Fault (Option BoId × Bufmgr)) (AllocPost E callers size s) :=
    .ok ⟨hlock, h, [], Swept.refl s⟩
  unfold boAllocUserptr
  split
  · exact hnone
  split
  · exact hnone
  cases hcr : r.create.answer s.kernel with
  | error e => exact hnone
  | ok ho =>
      obtain ⟨hd, o⟩ := ho
      obtain ⟨rk, hi⟩ := h
      let bo : Bo := { allocated := true, size := size, gemHandle := hd, isUserptr := true, virt := addr
                       userVirtual := addr }
      have hbo : NewBo bo := ⟨rfl, rfl, rfl, rfl, rfl, rfl⟩
      obtain ⟨s₁, hinit, hc⟩ := initNodes_spec hi bo o
      obtain ⟨h₁, hloose⟩ := Settled.created ⟨rk, hi⟩ hbo hc (r.create.valid _ _ _ hcr)
      have hlock₁ : s₁.lock = false := (congrArg Bufmgr.lock hc.rest :).trans hlock
      simp only [bo] at hinit
      simp only [hinit, ok_bind]
      refine (allocFinish_spec h₁ hE hloose fun e : false = true => nomatch e).mono ?_
      rintro ⟨found, s'⟩ ⟨hf, h', hhand, hsize, hnames, hl⟩
      cases hf
      refine ⟨hl.trans hlock₁, h', hhand.of_created hi hc, hsize.symm ▸ le_rfl, ?_⟩
      rw [hnames]
      exact h₁.detached hE hloose

/-- A change of tiling is seen by none of the invariants. -/
theorem boSetTiling_spec (h : Settled E callers s) (b : BoId) (mode stride : Nat) (setTiling : Reply Tiling) :
    Ensures (boSetTiling b mode stride setTiling s) fun r => Settled E callers r.2 ∧ r.2.lock = s.lock := by
  unfold boSetTiling
  split
  · exact .ok ⟨h, rfl⟩
  obtain ⟨ret, t, hset, -⟩ :=
    boSetTilingInternal_eq b mode (if mode = I915_TILING_NONE then 0 else stride) setTiling s
  have h₁ : Settled E callers (s.modify b (Bo.setTiling t)) :=
    h.inert (Inert.modify s rfl (Or.inl rfl)) (h.vma.modify rfl rfl rfl)
  simp only [hset]
  split
  · unfold setInApertureSize
    refine Ensures.bind (P := fun s' => Settled E callers s' ∧ s'.lock = s.lock) ?_ fun s' hs' => .pure hs'
    refine Ensures.bind (P := fun _ => True) (fun _ _ => trivial) fun _ _ => ?_
    refine Ensures.bind (P := fun _ => True) (fun _ _ => trivial) fun size _ => ?_
    exact .pure ⟨h₁.inert (Inert.modify _ rfl (Or.inl rfl)) (h₁.vma.modify rfl rfl rfl), rfl⟩
  · exact .ok ⟨h₁, rfl⟩

/-- `drm_intel_gem_bo_reference`. -/
theorem Settled.reference (h : Settled E callers s) {b : BoId} (hb : 0 < (s.bos b).refcount) :
    Settled E (take callers b) (s.modify b Bo.incRef) := by
  obtain ⟨rk, hi⟩ := h
  refine .of_inv (hi.ref hb) rfl fun c => ?_
  show (s.bos c).targets = _
  rw [modify_bos]
  split
  · rename_i hcb; rw [hcb]; rfl
  · rfl

end Internal

end LibDrm.Gem
