/-
# `LibDrm.Gem.Share` — objects that other processes can open

An object gets a global name by `flink` or a prime fd by `export_to_prime`, and
another process opens it with `create_from_name` or `create_from_prime`.  Both
look through the named list first, since the kernel answers a shared object
with the handle it already has, and two buffer objects must not share one.

`create_from_prime` and `export_to_prime` are cut at the places where they hold
no lock, so that the calls of several threads can be interleaved.
-/
import LibDrm.Gem.Alloc

namespace LibDrm.Gem

open CInt

/-! ## The functions -/

/-- `drm_intel_gem_bo_reference`. -/
def boReference (b : BoId) (s : Bufmgr) : Bufmgr := s.modify b Bo.incRef

/-- The loop along the named list. -/
def findNamed (p : Bo → Bool) (s : Bufmgr) : Except Fault (Option BoId) := do
  let found ← deref (DList.find s.nameList none (fun x => x.any fun b => p (s.bos b)) (s.nextBo + 1))
  return found.join

/-- `DRMINITLISTHEAD` of the VMA node and `DRMLISTADDTAIL` to the named list. -/
def linkNamed (b : BoId) (s : Bufmgr) : Except Fault Bufmgr := do
  let vmaList ← deref (DList.init s.vmaList (some b))
  let nameList ← deref (DList.addTail s.nameList (some b) none)
  return { s with vmaList, nameList }

/-- The tiling that `GET_TILING` answers; the stride is unknown. -/
def Bo.gotTiling (t : Tiling) (bo : Bo) : Bo := { bo with tilingMode := t.mode, swizzleMode := t.swizzle }

/-- The answers on the way of `create_from_name`. -/
structure NameReply where
  gemOpen : OpenCall
  /-- `open_arg.size` -/
  size : Nat
  callocOk : Bool
  getTiling : Reply Tiling

/-- The new object of `create_from_name`. -/
def namedBo (name : Nat) (h : Handle) (size : Nat) : Bo :=
  { allocated := true, size, refcount := 1, validateIndex := -1, gemHandle := h, globalName := name
    reusable := false }

/-- `drm_intel_bo_gem_create_from_name` once the handle is known to be new. -/
def nameNew (madv : Madvise) (time : Int) (name : Nat) (h : Handle) (r : NameReply) (s : Bufmgr) :
    Except Fault (Option BoId × Bufmgr) :=
  if !r.callocOk then .ok (none, s)
  else
    let b := s.nextBo
    let s := s.calloc (namedBo name h r.size)
    match r.getTiling with
    | .error _ => do
        let s ← boUnreference madv time b s
        return (none, s)
    | .ok t => do
        let s ← setInApertureSize b (s.modify b (Bo.gotTiling t))
        let s ← linkNamed b s
        return (some b, s)

/-- ... once the object is open. -/
def nameOpened (madv : Madvise) (time : Int) (name : Nat) (h : Handle) (r : NameReply) (s : Bufmgr) :
    Except Fault (Option BoId × Bufmgr) := do
  match ← findNamed (fun bo => bo.gemHandle == h) s with
  | some b => return (some b, boReference b s)
  | none => nameNew madv time name h r s

/-- `drm_intel_bo_gem_create_from_name`. -/
def boGemCreateFromName (madv : Madvise) (time : Int) (name : Nat) (r : NameReply) (s : Bufmgr) :
    Except Fault (Option BoId × Bufmgr) :=
  s.withLock fun s => do
    match ← findNamed (fun bo => bo.globalName == name) s with
    | some b => return (some b, boReference b s)
    | none =>
        match r.gemOpen.answer s.kernel with
        | .error _ => return (none, s)
        | .ok (h, o) => nameOpened madv time name h r { s with kernel := s.kernel.openAs h o }

/-- The answers on the way of `create_from_prime`. -/
structure PrimeReply where
  fdToHandle : OpenCall
  /-- what is in the variable `handle`, which a failed `FD_TO_HANDLE` leaves unset -/
  garbage : Handle
  callocOk : Bool
  /-- the answer of `lseek` -/
  lseek : Int
  getTiling : Reply Tiling

/-- `FD_TO_HANDLE`: whether it succeeded, and the variable `handle`. -/
def primeFdToHandle (r : PrimeReply) (s : Bufmgr) : (Bool × Handle) × Bufmgr :=
  match r.fdToHandle.answer s.kernel with
  | .error _ => ((false, r.garbage), s)
  | .ok (h, o) => ((true, h), { s with kernel := s.kernel.openAs h o })

/-- How the locked section of `create_from_prime` ends. -/
inductive Import where
  | found (b : BoId)     -- the handle belongs to an object of this process
  | created (b : BoId)
  | failed
  deriving DecidableEq, Repr

/-- The size of an imported object, from `lseek` if the kernel can tell. -/
def primeSize (size lseek : Int) : Nat :=
  (uint64 (if int32 lseek ≠ -1 then int32 lseek else size)).toNat

/-- The locked section of `drm_intel_bo_gem_create_from_prime` where the handle is new. -/
def primeNew (h : Handle) (size : Int) (r : PrimeReply) (s : Bufmgr) : Except Fault (Import × Bufmgr) :=
  if !r.callocOk then .ok (.failed, s)
  else do
    let b := s.nextBo
    let s ← linkNamed b (s.calloc { allocated := true, size := primeSize size r.lseek, gemHandle := h
                                    refcount := 1, validateIndex := -1, reusable := false })
    return (.created b, s)

/-- The locked section of `drm_intel_bo_gem_create_from_prime`. -/
def primeImport (opened : Bool) (h : Handle) (size : Int) (r : PrimeReply) (s : Bufmgr) :
    Except Fault (Import × Bufmgr) :=
  s.withLock fun s => do
    match ← findNamed (fun bo => bo.gemHandle == h) s with
    | some b => return (.found b, boReference b s)
    | none => if opened then primeNew h size r s else return (.failed, s)

/-- The rest of `drm_intel_bo_gem_create_from_prime`. -/
def primeFinish (madv : Madvise) (time : Int) (getTiling : Reply Tiling) (i : Import) (s : Bufmgr) :
    Except Fault (Option BoId × Bufmgr) :=
  match i with
  | .failed => .ok (none, s)
  | .found b => .ok (some b, s)
  | .created b =>
      match getTiling with
      | .error _ => do
          let s ← boUnreference madv time b s
          return (none, s)
      | .ok t => do
          let s ← setInApertureSize b (s.modify b (Bo.gotTiling t))
          return (some b, s)

/-- `drm_intel_bo_gem_create_from_prime`. -/
def boGemCreateFromPrime (madv : Madvise) (time : Int) (size : Int) (r : PrimeReply) (s : Bufmgr) :
    Except Fault (Option BoId × Bufmgr) := do
  let ((opened, h), s) := primeFdToHandle r s
  let (i, s) ← primeImport opened h size r s
  primeFinish madv time r.getTiling i s

/-- `if (DRMLISTEMPTY(&bo_gem->name_list)) DRMLISTADDTAIL(...)`. -/
def putOnNamed (b : BoId) (s : Bufmgr) : Except Fault Bufmgr :=
  if DList.isEmpty s.nameList (some b) then do
    let nameList ← deref (DList.addTail s.nameList (some b) none)
    return { s with nameList }
  else .ok s

/-- The locked section of `drm_intel_bo_gem_export_to_prime`. -/
def exportBegin (b : BoId) (s : Bufmgr) : Except Fault Bufmgr := s.locked (putOnNamed b)

def Bo.keep (bo : Bo) : Bo := { bo with reusable := false }

/-- The rest of it, with the answer of `HANDLE_TO_FD`. -/
def exportEnd (b : BoId) (handleToFd : Reply Unit) (s : Bufmgr) : Int × Bufmgr :=
  match handleToFd with
  | .error e => (-e, s)
  | .ok _ =>
      (0, { s.modify b Bo.keep with kernel := s.kernel.share (s.bos b).gemHandle })

/-- `drm_intel_bo_gem_export_to_prime`. -/
def boGemExportToPrime (b : BoId) (handleToFd : Reply Unit) (s : Bufmgr) : Except Fault (Int × Bufmgr) := do
  let s ← exportBegin b s
  return exportEnd b handleToFd s

/-- The locked section of `drm_intel_gem_bo_flink`; it returns the name beside the error code. -/
def flinkLocked (b : BoId) (flink : Reply Nat) (s : Bufmgr) : Except Fault ((Int × Nat) × Bufmgr) :=
  s.withLock fun s =>
    match flink with
    | .error e => .ok ((-e, 0), s)
    | .ok name => do
        let s := { s with kernel := s.kernel.share (s.bos b).gemHandle }
        let s ← putOnNamed b (s.modify b fun bo => { bo.keep with globalName := name })
        return ((0, name), s)

/-- `drm_intel_gem_bo_flink`. -/
def boFlink (b : BoId) (flink : Reply Nat) (s : Bufmgr) : Except Fault ((Int × Nat) × Bufmgr) :=
  if (s.bos b).globalName ≠ 0 then .ok ((0, (s.bos b).globalName), s)
  else flinkLocked b flink s

/-- `drm_intel_gem_bo_disable_reuse`. -/
def boDisableReuse (b : BoId) (s : Bufmgr) : Int × Bufmgr := (0, s.modify b Bo.keep)

/-! ## The named list -/

/-- The object is on the named list. -/
def Named (s : Bufmgr) (b : BoId) : Prop := ∃ nl, OnList s.nameList nl ∧ b ∈ nl

/-- The search finds the first object of the named list that satisfies `p`. -/
theorem findNamed_eq {g : Ghost} {s : Bufmgr} {nl : List BoId} (h : GraphOk g s)
    (hn : NameOk g.exporting g.dying nl s) (p : Bo → Bool) :
    findNamed p s = .ok (nl.find? fun b => p (s.bos b)) := by
  have hlen := hn.length_le h.fresh
  have hfind := DList.IsList.find hn.list (fun x => x.any fun b => p (s.bos b)) (k := s.nextBo + 1)
    (by rw [List.length_map]; omega)
  rw [findNamed, hfind, List.find?_map, deref_some, ok_bind]
  refine congrArg Except.ok ?_
  show ((nl.find? fun b => p (s.bos b)).map some).join = _
  cases nl.find? fun b => p (s.bos b) with
  | none => rfl
  | some b => rfl

/-- What a new object is like that is put on the named list. -/
structure ImportedBo (bo : Bo) : Prop where
  allocated : bo.allocated = true
  refcount : bo.refcount = 1
  relocs : bo.relocs = []
  unmapped : bo.mapCount = 0
  maps : bo.maps = 0
  notReusable : bo.reusable = false

/-- The manager with the new object `bo` at the end of the named list `nl`. -/
structure Imported (bo : Bo) (nl : List BoId) (s s' : Bufmgr) : Prop where
  rest : { s'.shell with nextBo := s.nextBo } = s.shell
  nextBo : s'.nextBo = s.nextBo + 1
  bos : s'.bos = Function.update s.bos s.nextBo bo
  buckets : s'.bucketHead = s.bucketHead
  vmaOpen : s'.vmaOpen = s.vmaOpen
  vmaCount : s'.vmaCount = s.vmaCount
  time : s'.time = s.time
  kernel : s'.kernel = s.kernel
  named : OnList s'.nameList (nl ++ [s.nextBo])
  names : ∀ c, c ∉ nl ++ [s.nextBo] → s'.nameList (some c) = s.nameList (some c)
  vma : NewNode s.nextBo s.vmaList s'.vmaList

theorem VmaOk.nextBo_notMem {vl : List BoId} {s : Bufmgr} (h : VmaOk vl s) : s.nextBo ∉ vl := fun hin => by
  have := ((h.obj _).member hin).1
  rw [h.fresh _ (Nat.le_refl _)] at this
  cases this

theorem linkNamed_spec {g : Ghost} {s : Bufmgr} {nl : List BoId} (h : Inv g s)
    (hn : NameOk g.exporting g.dying nl s) (bo : Bo) :
    Returns (linkNamed s.nextBo (s.calloc bo)) (Imported bo nl s) := by
  obtain ⟨vl, hvl⟩ := h.vma.ok
  have hnn := h.graph.nextBo_notMem hn
  obtain ⟨v, hv, hvma⟩ := NewNode.of_calloc hvl.list hvl.nextBo_notMem
  have hal : (DList.calloc s.nameList (some s.nextBo) (some s.nextBo)).isSome := by simp [DList.calloc]
  obtain ⟨m, hm, hl, -, hf⟩ := (hn.list.calloc hnn).addTail hnn hal
  simp only [linkNamed, Bufmgr.calloc, hv, hm, deref_some, ok_bind]
  refine .pure ⟨rfl, rfl, rfl, rfl, rfl, rfl, rfl, rfl, hl, fun c hc => ?_, hvma⟩
  have hcb : c ≠ s.nextBo := fun e => hc (by simp [e])
  show m (some c) = _
  rw [hf c hc]
  simp [DList.calloc, hcb]

theorem calloc_modify (s : Bufmgr) (bo : Bo) (f : Bo → Bo) :
    (s.calloc bo).modify s.nextBo f = s.calloc (f bo) := by
  simp [Bufmgr.modify, Bufmgr.calloc]

/-- An open handle that no object on the named list has belongs to no object at all. -/
theorem NameOk.handle_unused {E : BoId → Prop} {X nl : List BoId} {s : Bufmgr} (h : NameOk E X nl s)
    {hd : Handle} {o : Obj} (ho : s.kernel.objOf hd = some o) (hs : s.kernel.status o = .shared)
    (hno : ∀ b ∈ nl, (s.bos b).gemHandle ≠ hd) (c : BoId) (hc : (s.bos c).allocated = true) :
    (s.bos c).gemHandle ≠ hd := fun e =>
  hno c (h.shared c o hc (by rw [e]; exact ho) hs) e

theorem Inv.imported {g : Ghost} {s s' : Bufmgr} {nl : List BoId} {bo : Bo} {o : Obj} (h : Inv g s)
    (hn : NameOk g.exporting g.dying nl s) (hbo : ImportedBo bo) (hi : Imported bo nl s s')
    (ho : s.kernel.objOf bo.gemHandle = some o) (hs : s.kernel.status o = .shared)
    (hno : ∀ b ∈ nl, (s.bos b).gemHandle ≠ bo.gemHandle) :
    Inv { g with callers := take g.callers s.nextBo } s' := by
  have hun := h.graph.fresh s.nextBo (Nat.le_refl _)
  have hnn := h.graph.nextBo_notMem hn
  refine ⟨h.graph.alloc hi.nextBo hi.bos hbo.allocated hbo.refcount hbo.relocs, ?_,
    ⟨nl ++ [s.nextBo], ?_⟩, ?_, ?_⟩
  · exact h.cache.update (h.cache.notMem_of_unallocated hun) hi.buckets hi.bos fun hre => by
      rw [hbo.notReusable] at hre; cases hre
  · refine hn.insert hi.bos hbo.allocated (fun _ => by rw [hbo.refcount]; exact Nat.one_pos) hi.named
      (fun c hcb => by simp [hcb]) (fun c hcb hcn => hi.names c (by simp [hcb, hcn])) (Or.inl (by simp))
      (fun _ => hbo.notReusable) (Or.inl (by simp)) (hn.handle_unused ho hs hno)
      ⟨o, by rw [hi.kernel]; exact ho, fun _ => by simp⟩ (fun c _ => by rw [hi.kernel])
      (fun c o' _ _ hsh => by rw [hi.kernel] at hsh; exact hsh) (by rw [hi.kernel]; exact hn.kernel)
  · obtain ⟨vl, hvl⟩ := h.vma.ok
    obtain ⟨hl, hd, hf⟩ := hi.vma vl hvl.list hvl.nextBo_notMem
    exact ⟨vl, hvl.grow hi.nextBo hi.bos hbo.allocated hbo.unmapped hbo.maps hl hd hf hi.vmaOpen hi.vmaCount⟩
  · have hm : s'.vmaMax = s.vmaMax := (congrArg Bufmgr.vmaMax hi.rest :)
    rw [VmaLimit, hm, hi.vmaOpen, hi.vmaCount]
    exact h.vma.limit

/-- The handle is open and belongs to a shared object. -/
def Kernel.Shared (k : Kernel) (h : Handle) : Prop := ∃ o, k.objOf h = some o ∧ k.status o = .shared

/-- The handles of shared objects are still that. -/
def Kernel.Grows (k k' : Kernel) : Prop := ∀ h, k.Shared h → k'.Shared h

namespace Kernel.Grows

variable {k k' : Kernel}

theorem of_eq (h : k' = k) : k.Grows k' := fun _ hs => h ▸ hs

theorem openAs {h : Handle} {o : Obj} (hok : k.OpenOk h o) : k.Grows (k.openAs h o) := by
  rintro h' ⟨o', ho', hs'⟩
  by_cases hh : h' = h
  · exact ⟨o, by rw [hh, Kernel.openAs_self], hok.1⟩
  · exact ⟨o', by rw [Kernel.openAs_of_ne hh, ho'], hs'⟩

theorem share (k : Kernel) (h : Handle) : k.Grows (k.share h) := by
  rintro h' ⟨o', ho', hs'⟩
  refine ⟨o', by rw [Kernel.share_objOf, ho'], ?_⟩
  unfold Kernel.share
  split
  · exact hs'
  · simp only [Function.update_apply]
    split
    · rfl
    · exact hs'

theorem foreign (k : Kernel) (o : Obj) : k.Grows (k.foreign o) := by
  rintro h' ⟨o', ho', hs'⟩
  refine ⟨o', ho', ?_⟩
  simp only [Kernel.foreign, Function.update_apply]
  split
  · rfl
  · exact hs'

end Kernel.Grows

section Settle

variable {E E' : BoId → Prop} {callers : BoId → Nat} {s : Bufmgr} {b : BoId}

theorem Settled.imported {s' : Bufmgr} {nl : List BoId} {bo : Bo} {o : Obj} {r : BoId → Nat}
    (h : Inv (idle E callers r s) s) (hn : NameOk E [] nl s) (hbo : ImportedBo bo)
    (hi : Imported bo nl s s') (ho : s.kernel.objOf bo.gemHandle = some o) (hs : s.kernel.status o = .shared)
    (hno : ∀ b ∈ nl, (s.bos b).gemHandle ≠ bo.gemHandle) : Settled E (take callers s.nextBo) s' := by
  refine .of_inv (h.imported hn hbo hi ho hs hno) rfl fun c => ?_
  show (s.bos c).targets = (s'.bos c).targets
  by_cases hcb : c = s.nextBo
  · have h0 := h.graph.unalloc _ (h.graph.fresh _ (Nat.le_refl _))
    rw [hcb, hi.bos, Function.update_self, Bo.targets, Bo.targets, hbo.relocs,
      (h.graph.dead _ h0 (by simp [idle])).2]
  · rw [hi.bos, Function.update_of_ne hcb]

/-- An export begins, or it has ended with an object that is not reused any more. -/
theorem Settled.reexport (h : Settled E' callers s)
    (hE : ∀ c, E' c → E c ∨ ((s.bos c).reusable = false ∧ 0 < (s.bos c).refcount))
    (hl : ∀ c, E c → 0 < (s.bos c).refcount → E' c ∨ Named s c) : Settled E callers s := by
  obtain ⟨r, hi⟩ := h
  obtain ⟨nl, hn⟩ := hi.names
  refine ⟨r, ⟨hi.graph.fresh, hi.graph.unalloc, hi.graph.ranked, hi.graph.used, hi.graph.count,
    hi.graph.dead, hi.graph.dying⟩, hi.cache, ⟨nl, hn.reexport hE fun c hc hpos => ?_⟩, hi.vma⟩
  refine (hl c hc hpos).imp_right ?_
  rintro ⟨nl', hl', hin⟩
  exact hl'.unique hn.list ▸ hin

/-- `reusable = false`. -/
theorem Settled.keep (h : Settled E callers s) (b : BoId) (hb : 0 < (s.bos b).refcount) {f : Bo → Bo}
    (hf : ∀ bo, (f bo).key = bo.keep.key) (hv : VmaInv (s.modify b f)) :
    Settled E callers (s.modify b f) := by
  obtain ⟨r, hi⟩ := h
  obtain ⟨nl, hn⟩ := hi.names
  have hfield : ∀ {α : Type} (F : Bo → α), (∀ bo, F bo = F bo.key) → (∀ bo, F bo.keep = F bo) →
      ∀ c, F ((s.modify b f).bos c) = F (s.bos c) := by
    intro α F hF hk c
    rw [modify_bos]
    split
    · rename_i hcb
      rw [hF, hf, ← hF, hk, hcb]
    · rfl
  have hre : ((s.modify b f).bos b).reusable = false := by
    rw [modify_self]; exact (congrArg Bo.reusable (hf _) :)
  have hne : ∀ c, c ≠ b → (s.modify b f).bos c = s.bos c := fun c hc => modify_of_ne s hc f
  have ha := hfield Bo.allocated (fun _ => rfl) fun _ => rfl
  have hr := hfield Bo.refcount (fun _ => rfl) fun _ => rfl
  have hl := hfield Bo.relocs (fun _ => rfl) fun _ => rfl
  refine .of_inv (g := idle E callers r s) ⟨?_, ?_, ⟨nl, ?_⟩, hv⟩ rfl fun c => ?_
  · exact hi.graph.congr rfl ha hr (hfield Bo.usedAsRelocTarget (fun _ => rfl) fun _ => rfl) hl
  · refine hi.cache.congr rfl (fun i c hc => ?_) (fun c => ?_)
    · rw [hne c fun e => hi.cache.notMem_of_pos hb i (e ▸ hc)]
      exact hi.cache.member i c hc
    · by_cases hcb : c = b
      · intro h1; rw [hcb, hre] at h1; cases h1
      · rw [hne c hcb]; exact hi.cache.sized c
  · refine hn.congr rfl rfl ha (hfield Bo.gemHandle (fun _ => rfl) fun _ => rfl) (fun c => by rw [hr])
      (fun c h1 => ?_)
    by_cases hcb : c = b
    · rw [hcb, hre] at h1; cases h1
    · rw [hne c hcb] at h1; exact h1
  · show (s.bos c).targets = _
    rw [Bo.targets, Bo.targets, hl]

/-! ## Importing -/

/-- What an import leaves: nothing new, or a reference for the caller. -/
def ImportPost (E : BoId → Prop) (callers : BoId → Nat) (r : Option BoId × Bufmgr) : Prop :=
  r.2.lock = false ∧
    match r.1 with
    | none => Settled E callers r.2
    | some b => Settled E (take callers b) r.2

/-- The kernel opens a handle. -/
theorem Settled.openAs (h : Settled E callers s) {hd : Handle} {o : Obj} (hok : s.kernel.OpenOk hd o) :
    Settled E callers { s with kernel := s.kernel.openAs hd o } := by
  obtain ⟨r, hi⟩ := h
  obtain ⟨nl, hn⟩ := hi.names
  refine ⟨r, hi.graph.congr rfl (fun _ => rfl) (fun _ => rfl) (fun _ => rfl) (fun _ => rfl), ?_,
    ⟨nl, hn.openAs hok rfl rfl rfl⟩, hi.vma.same rfl rfl rfl rfl rfl rfl⟩
  exact hi.cache.congr rfl hi.cache.member hi.cache.sized

/-- Another process creates and shares an object. -/
theorem Settled.foreign (h : Settled E callers s) {o : Obj} (ho : s.kernel.status o = .unborn) :
    Settled E callers { s with kernel := s.kernel.foreign o } := by
  obtain ⟨r, hi⟩ := h
  obtain ⟨nl, hn⟩ := hi.names
  refine ⟨r, hi.graph.congr rfl (fun _ => rfl) (fun _ => rfl) (fun _ => rfl) (fun _ => rfl), ?_,
    ⟨nl, hn.foreign ho rfl rfl rfl⟩, hi.vma.same rfl rfl rfl rfl rfl rfl⟩
  exact hi.cache.congr rfl hi.cache.member hi.cache.sized

/-- An object found on the named list is live. -/
theorem Settled.reference_named {r : BoId → Nat} {nl : List BoId} (h : Inv (idle E callers r s) s)
    (hn : NameOk E [] nl s) (hb : b ∈ nl) : Settled E (take callers b) (boReference b s) := by
  refine Settled.reference ⟨r, h⟩ ?_
  exact (hn.member b hb).2.resolve_right (by simp)

theorem setInApertureSize_calloc (s : Bufmgr) (bo : Bo) (hu : bo.usedAsRelocTarget = false) :
    setInApertureSize s.nextBo (s.calloc bo)
      = (inApertureSize s.cfg bo >>= fun size => .ok (s.calloc (bo.setTreeSize size))) := by
  have hself : (s.calloc bo).bos s.nextBo = bo := by simp [Bufmgr.calloc]
  simp only [setInApertureSize, hself, hu, Bool.not_false, assert_true, ok_bind, calloc_modify]
  rfl

/-- A handle that is new to the named list gets an object of its own. -/
theorem nameNew_spec {r : BoId → Nat} {nl : List BoId} (h : Inv (idle E callers r s) s)
    (hn : NameOk E [] nl s) (hlock : s.lock = true) {hd : Handle} {o : Obj}
    (ho : s.kernel.objOf hd = some o) (hs : s.kernel.status o = .shared)
    (hno : ∀ b ∈ nl, (s.bos b).gemHandle ≠ hd) (madv : Madvise) (time : Int) (name : Nat) (rep : NameReply) :
    Ensures (nameNew madv time name hd rep s) fun res =>
      (res.1 = none ∧ res.2 = s) ∨ (res.1 = some s.nextBo ∧ Settled E (take callers s.nextBo) res.2
        ∧ res.2.kernel = s.kernel) := by
  unfold nameNew
  split
  · exact .ok (Or.inl ⟨rfl, rfl⟩)
  cases rep.getTiling with
  | error e =>
      -- the object has its first reference, and the lock is held
      intro res hres
      simp [boUnreference, boUnreferenceSlow, Bufmgr.locked, Bufmgr.calloc, namedBo, hlock] at hres
  | ok t =>
      simp only
      rw [calloc_modify, setInApertureSize_calloc _ _ rfl]
      refine Ensures.bind (P := fun s' => ∃ size,
        s' = s.calloc (((namedBo name hd rep.size).gotTiling t).setTreeSize size)) ?_ ?_
      · exact Ensures.bind (P := fun _ => True) (fun _ _ => trivial) fun size _ => .ok ⟨size, rfl⟩
      rintro s₁ ⟨size, rfl⟩
      refine Ensures.bind (linkNamed_spec h hn _).ensures fun s' hi => .pure (Or.inr ⟨rfl, ?_, hi.kernel⟩)
      exact Settled.imported h hn ⟨rfl, rfl, rfl, rfl, rfl, rfl⟩ hi ho hs hno

theorem Settled.withLock {α : Type} {f : Bufmgr → Except Fault (α × Bufmgr)} {Q : α × Bufmgr → Prop}
    (h : Settled E callers s) (hf : ∀ s₁, Settled E callers s₁ → s₁.lock = true →
      s₁ = { s with lock := true } → Ensures (f s₁) fun r => Q (r.1, { r.2 with lock := false })) :
    Ensures (s.withLock f) Q := by
  unfold Bufmgr.withLock
  split
  · exact .error
  · exact (hf _ (h.setLock true) rfl rfl).bind fun r hr => .pure hr

theorem boGemCreateFromName_spec (h : Settled E callers s) (madv : Madvise) (time : Int) (name : Nat)
    (rep : NameReply) : Ensures (boGemCreateFromName madv time name rep s) fun res =>
      ImportPost E callers res ∧ s.kernel.Grows res.2.kernel := by
  refine h.withLock fun s₁ h₁ hlock hs₁ => ?_
  have hk : s₁.kernel = s.kernel := by rw [hs₁]
  obtain ⟨r, hi⟩ := h₁
  obtain ⟨nl, hn⟩ := hi.names
  rw [findNamed_eq hi.graph hn, ok_bind]
  cases hfind : nl.find? fun b => (s₁.bos b).globalName == name with
  | some b =>
      exact .pure ⟨⟨rfl, (Settled.reference_named hi hn (List.mem_of_find?_eq_some hfind)).setLock false⟩,
        .of_eq hk⟩
  | none =>
      simp only
      cases hopen : rep.gemOpen.answer s₁.kernel with
      | error e => exact .pure ⟨⟨rfl, Settled.setLock ⟨r, hi⟩ false⟩, .of_eq hk⟩
      | ok ho =>
          obtain ⟨hd, o⟩ := ho
          have hok := rep.gemOpen.valid _ _ _ hopen
          obtain ⟨r₂, hi₂⟩ := Settled.openAs ⟨r, hi⟩ hok
          have hn₂ : NameOk E [] nl { s₁ with kernel := s₁.kernel.openAs hd o } := hn.openAs hok rfl rfl rfl
          have hgrow : s.kernel.Grows (s₁.kernel.openAs hd o) := hk ▸ .openAs hok
          simp only [nameOpened]
          rw [findNamed_eq hi₂.graph hn₂, ok_bind]
          cases hfind₂ : nl.find? fun b => (s₁.bos b).gemHandle == hd with
          | some b =>
              exact .pure
                ⟨⟨rfl, (Settled.reference_named hi₂ hn₂ (List.mem_of_find?_eq_some hfind₂)).setLock false⟩, hgrow⟩
          | none =>
              simp only
              have hno : ∀ b ∈ nl, (s₁.bos b).gemHandle ≠ hd := fun b hb => by
                have := List.find?_eq_none.mp hfind₂ b hb
                simpa using this
              refine (nameNew_spec hi₂ hn₂ hlock (o := o) ?_ hok.1 hno madv time name rep).mono ?_
              · exact Kernel.openAs_self
              · rintro ⟨found, s'⟩ (⟨hf, rfl⟩ | ⟨hf, h', hk'⟩)
                · cases hf
                  exact ⟨⟨rfl, Settled.setLock ⟨r₂, hi₂⟩ false⟩, hgrow⟩
                · cases hf
                  refine ⟨⟨rfl, h'.setLock false⟩, ?_⟩
                  show s.kernel.Grows s'.kernel
                  rw [hk']
                  exact hgrow

/-- What the locked section of an import leaves. -/
def PrimePost (E : BoId → Prop) (callers : BoId → Nat) (s : Bufmgr) (r : Import × Bufmgr) : Prop :=
  r.2.lock = false ∧
    match r.1 with
    | .failed => Settled E callers r.2
    | .found b => Settled E (take callers b) r.2
    | .created b => Settled E (take callers b) r.2 ∧ b = s.nextBo ∧ (r.2.bos b).usedAsRelocTarget = false

theorem primeImport_spec (h : Settled E callers s) (hlock : s.lock = false) (opened : Bool) {hd : Handle}
    (hopen : opened = true → s.kernel.Shared hd) (size : Int) (rep : PrimeReply) :
    Returns (primeImport opened hd size rep s) (PrimePost E callers s) := by
  refine Bufmgr.withLock_returns hlock ?_
  obtain ⟨r, hi⟩ := h.setLock true
  obtain ⟨nl, hn⟩ := hi.names
  rw [findNamed_eq hi.graph hn, ok_bind]
  cases hfind : nl.find? fun b => (s.bos b).gemHandle == hd with
  | some b =>
      exact .pure ⟨rfl, (Settled.reference_named hi hn (List.mem_of_find?_eq_some hfind)).setLock false⟩
  | none =>
      have hno : ∀ b ∈ nl, (s.bos b).gemHandle ≠ hd := fun b hb => by
        have := List.find?_eq_none.mp hfind b hb
        simpa using this
      have hfail : Settled E callers { { s with lock := true } with lock := false } :=
        Settled.setLock ⟨r, hi⟩ false
      simp only
      split
      · rename_i hop
        unfold primeNew
        split
        · exact .ok ⟨rfl, hfail⟩
        obtain ⟨o, ho, hs⟩ := hopen hop
        refine (linkNamed_spec hi hn _).bind fun s' him => .pure ⟨rfl, ?_, rfl, ?_⟩
        · exact (Settled.imported hi hn ⟨rfl, rfl, rfl, rfl, rfl, rfl⟩ him ho hs hno).setLock false
        · show (s'.bos s.nextBo).usedAsRelocTarget = false
          rw [him.bos]
          exact (congrArg Bo.usedAsRelocTarget (Function.update_self s.nextBo _ s.bos) :)
      · exact .pure ⟨rfl, hfail⟩

theorem giveUp_take (callers : BoId → Nat) (b : BoId) : giveUp (take callers b) b = callers := by
  simp [giveUp, take]

/-- A failed `GET_TILING` gives the new object up again. -/
theorem primeFinish_spec {s₀ : Bufmgr} {i : Import} (h : PrimePost E callers s₀ (i, s)) (madv : Madvise) (time : Int) (getTiling : Reply Tiling) :
    Ensures (primeFinish madv time getTiling i s) (ImportPost E callers) := by
  obtain ⟨hlock, h⟩ := h
  cases i with
  | failed => exact .ok ⟨hlock, h⟩
  | found b => exact .ok ⟨hlock, h⟩
  | created b =>
      obtain ⟨h, -, hu⟩ := h
      cases getTiling with
      | error e =>
          have hgive := giveUp_take callers b
          refine Ensures.bind (boUnreference_spec h hlock (b := b) ?_ madv time).ensures ?_
          · simp [take]
          · rintro s' ⟨h', hd⟩
            rw [hgive] at h'
            exact .pure ⟨(shell_lock hd.rest).trans hlock, h'⟩
      | ok t =>
          simp only [primeFinish, setInApertureSize]
          refine Ensures.bind (P := fun s' => Settled E (take callers b) s' ∧ s'.lock = false) ?_
            fun s' hs' => .pure ⟨hs'.2, hs'.1⟩
          refine Ensures.bind (P := fun _ => True) (fun _ _ => trivial) fun _ _ => ?_
          refine Ensures.bind (P := fun _ => True) (fun _ _ => trivial) fun size _ => ?_
          rw [modify_modify]
          exact .pure ⟨h.inert (Inert.modify s rfl (Or.inl rfl)) (h.vma.modify rfl rfl rfl), hlock⟩

/-- The handle that `FD_TO_HANDLE` answers is that of a shared object. -/
theorem primeFdToHandle_spec (h : Settled E callers s) (rep : PrimeReply) :
    Settled E callers (primeFdToHandle rep s).2 ∧ (primeFdToHandle rep s).2.lock = s.lock
      ∧ ((primeFdToHandle rep s).1.1 = true →
        (primeFdToHandle rep s).2.kernel.Shared (primeFdToHandle rep s).1.2) := by
  unfold primeFdToHandle
  cases hopen : rep.fdToHandle.answer s.kernel with
  | error e => exact ⟨h, rfl, nofun⟩
  | ok ho =>
      obtain ⟨hd, o⟩ := ho
      have hok := rep.fdToHandle.valid _ _ _ hopen
      exact ⟨h.openAs hok, rfl, fun _ => ⟨o, Kernel.openAs_self, hok.1⟩⟩

theorem boGemCreateFromPrime_spec (h : Settled E callers s) (hlock : s.lock = false)
    (madv : Madvise) (time size : Int) (rep : PrimeReply) :
    Ensures (boGemCreateFromPrime madv time size rep s) (ImportPost E callers) := by
  obtain ⟨h₁, hl₁, hsh⟩ := primeFdToHandle_spec h rep
  unfold boGemCreateFromPrime
  refine Ensures.bind (primeImport_spec h₁ (hl₁.trans hlock) _ hsh size rep).ensures ?_
  rintro ⟨i, s₂⟩ hpost
  exact primeFinish_spec hpost madv time rep.getTiling

/-! ## Exporting -/

/-- The object is on the named list afterwards, and has to be kept out of the cache. -/
theorem putOnNamed_spec (h : Settled E callers s) (hb : 0 < (s.bos b).refcount) :
    Returns (putOnNamed b s) fun s' =>
      Settled (fun c => E c ∨ c = b) callers s' ∧ Named s' b ∧ s'.lock = s.lock ∧ s'.bos = s.bos
        ∧ s'.kernel = s.kernel := by
  obtain ⟨r, hi⟩ := h
  obtain ⟨nl, hn⟩ := hi.names
  have halloc := hi.graph.alloc_of_pos hb
  unfold putOnNamed
  by_cases hin : b ∈ nl
  · rw [DList.IsList.isEmpty_of_mem hn.list (List.mem_map_of_mem hin)]
    have hnamed : Named s b := ⟨nl, hn.list, hin⟩
    refine .ok ⟨Settled.reexport ⟨r, hi⟩ (fun c hc => Or.inl (Or.inl hc)) ?_, hnamed, rfl, rfl, rfl⟩
    rintro c (hc | rfl) -
    · exact Or.inl hc
    · exact Or.inr hnamed
  · have hd : Detached s.nameList b := ((hn.node b halloc).resolve_left hin).resolve_right fun hd => by
      have := hd.2.2.1
      omega
    rw [hd.isEmpty, if_pos rfl]
    obtain ⟨m, hm, hl, -, hf⟩ := hn.list.addTail hin (hn.node_isSome halloc)
    simp only [hm, deref_some, ok_bind]
    refine .pure ⟨⟨r, ?_⟩, ⟨nl ++ [b], hl, by simp⟩, rfl, rfl, rfl⟩
    have hnames : NameOk (fun c => E c ∨ c = b) [] (nl ++ [b]) { s with nameList := m } :=
      hn.addTail halloc hb hin hl hf rfl rfl rfl
    refine ⟨?_, ?_, ⟨nl ++ [b], hnames⟩, hi.vma.same rfl rfl rfl rfl rfl rfl⟩
    · exact ⟨hi.graph.fresh, hi.graph.unalloc, hi.graph.ranked, hi.graph.used, hi.graph.count, hi.graph.dead,
        hi.graph.dying⟩
    · exact hi.cache.congr rfl hi.cache.member hi.cache.sized

theorem exportBegin_spec (h : Settled E callers s) (hlock : s.lock = false) (hb : 0 < (s.bos b).refcount) :
    Returns (exportBegin b s) fun s' =>
      Settled (fun c => E c ∨ c = b) callers s' ∧ Named s' b ∧ s'.lock = false ∧ s'.bos = s.bos
        ∧ s'.kernel = s.kernel := by
  refine Bufmgr.locked_returns hlock ((putOnNamed_spec (h.setLock true) hb).mono ?_)
  rintro s' ⟨h', hn, -, hbos, hk⟩
  exact ⟨h'.setLock false, hn, rfl, hbos, hk⟩

/-- Other processes learn of an object that is on the named list. -/
theorem Settled.share (h : Settled E callers s) (hb : (s.bos b).allocated = true)
    (hre : (s.bos b).reusable = false) (hn : Named s b) :
    Settled E callers { s with kernel := s.kernel.share (s.bos b).gemHandle } := by
  obtain ⟨r, hi⟩ := h
  obtain ⟨nl, hnm⟩ := hi.names
  obtain ⟨nl', hl', hin⟩ := hn
  refine ⟨r, hi.graph.congr rfl (fun _ => rfl) (fun _ => rfl) (fun _ => rfl) (fun _ => rfl), ?_,
    ⟨nl, hnm.share hb (hnm.list.unique hl' ▸ hin) hre rfl rfl rfl⟩, hi.vma.same rfl rfl rfl rfl rfl rfl⟩
  exact hi.cache.congr rfl hi.cache.member hi.cache.sized

theorem exportEnd_refcount (b : BoId) (handleToFd : Reply Unit) (s : Bufmgr) (c : BoId) :
    ((exportEnd b handleToFd s).2.bos c).refcount = (s.bos c).refcount := by
  cases handleToFd with
  | error e => rfl
  | ok u => exact modify_field Bo.refcount s b c rfl

/-- The end of an export: a shared object is not reused. -/
theorem exportEnd_spec (h : Settled E callers s) (hb : 0 < (s.bos b).refcount) (hn : Named s b)
    (handleToFd : Reply Unit) :
    Settled E callers (exportEnd b handleToFd s).2 ∧ (exportEnd b handleToFd s).2.lock = s.lock
      ∧ (∀ c, ((exportEnd b handleToFd s).2.bos c).reusable = true → (s.bos c).reusable = true)
      ∧ (((exportEnd b handleToFd s).2.bos b).reusable = true → ∃ e, handleToFd = .error e) := by
  cases handleToFd with
  | error e => exact ⟨h, rfl, fun _ hc => hc, fun _ => ⟨e, rfl⟩⟩
  | ok u =>
      have hk := h.keep b hb (fun _ => rfl) (h.vma.modify (f := Bo.keep) rfl rfl rfl)
      have halloc : ((s.modify b Bo.keep).bos b).allocated = true := by
        obtain ⟨r, hi⟩ := h
        rw [modify_self]
        exact hi.graph.alloc_of_pos hb
      have hk := hk.share halloc (by rw [modify_self]; rfl) hn
      rw [modify_self] at hk
      have hself : ((exportEnd b (.ok u) s).2.bos b).reusable = false :=
        (congrArg Bo.reusable (modify_self s b Bo.keep) :)
      refine ⟨hk, rfl, fun c hc => ?_, fun hre => by rw [hself] at hre; cases hre⟩
      by_cases hcb : c = b
      · rw [hcb, hself] at hc; cases hc
      · have he : (exportEnd b (.ok u) s).2.bos c = s.bos c := modify_of_ne s hcb _
        rwa [he] at hc

/-- An export that succeeds, or one of an object that was not going to be reused. -/
theorem boGemExportToPrime_spec (h : Settled E callers s) (hlock : s.lock = false)
    (hb : 0 < (s.bos b).refcount) (handleToFd : Reply Unit)
    (hclean : (s.bos b).reusable = true → ∃ u, handleToFd = .ok u) :
    Returns (boGemExportToPrime b handleToFd s) fun r =>
      Settled E callers r.2 ∧ r.2.lock = false := by
  unfold boGemExportToPrime
  refine (exportBegin_spec h hlock hb).bind ?_
  rintro s₁ ⟨h₁, hn, hl₁, hbos, -⟩
  obtain ⟨h', hl', hre, hself⟩ := exportEnd_spec h₁ (by rw [hbos]; exact hb) hn handleToFd
  refine .pure ⟨h'.reexport (fun c hc => ?_) fun c hc _ => Or.inl (Or.inl hc), hl'.trans hl₁⟩
  rcases hc with hc | rfl
  · exact Or.inl hc
  · refine Or.inr ⟨Bool.eq_false_iff.mpr fun hrc => ?_, ?_⟩
    · obtain ⟨e, he⟩ := hself hrc
      obtain ⟨u, hu⟩ := hclean (by rw [← hbos]; exact hre c hrc)
      rw [he] at hu
      cases hu
    · rw [exportEnd_refcount, hbos]; exact hb

/-- Whatever the kernel answers, the object is on the named list afterwards. -/
theorem boGemExportToPrime_named (h : Settled E callers s) (hlock : s.lock = false)
    (hb : 0 < (s.bos b).refcount) (handleToFd : Reply Unit) :
    Returns (boGemExportToPrime b handleToFd s) fun r => Named r.2 b := by
  refine (exportBegin_spec h hlock hb).bind fun s₁ hs₁ => .pure ?_
  unfold exportEnd
  cases handleToFd with
  | error e => exact hs₁.2.1
  | ok u => exact hs₁.2.1

theorem putOnNamed_kernel (b : BoId) (k : Kernel) (s : Bufmgr) :
    putOnNamed b { s with kernel := k } = (putOnNamed b s >>= fun s => .ok { s with kernel := k }) := by
  simp only [putOnNamed]
  cases DList.isEmpty s.nameList (some b) with
  | false => rfl
  | true =>
      cases DList.addTail s.nameList (some b) none with
      | none => rfl
      | some m => rfl

theorem flinkLocked_spec (h : Settled E callers s) (hlock : s.lock = false) (hb : 0 < (s.bos b).refcount)
    (flink : Reply Nat) :
    Returns (flinkLocked b flink s) fun r => (Settled E callers r.2 ∧ r.2.lock = false)
      ∧ (r.1.1 = 0 → Named r.2 b) := by
  refine Bufmgr.withLock_returns hlock ?_
  cases flink with
  | error e =>
      refine .ok ⟨⟨(h.setLock true).setLock false, rfl⟩, fun hret => ?_⟩
      have := e.2
      simp only at hret
      omega
  | ok name =>
      -- the list does not depend on the kernel, so the object may be shared after it was linked
      let f : Bo → Bo := fun bo => { bo.keep with globalName := name }
      have h₀ := h.setLock true
      have h₁ : Settled E callers (({ s with lock := true } : Bufmgr).modify b f) :=
        h₀.keep b hb (fun _ => rfl) (h₀.vma.modify rfl rfl rfl)
      obtain ⟨s₂, he, h₂, hn, -, hbos, hk⟩ := putOnNamed_spec h₁ (b := b) (by rw [modify_self]; exact hb)
      have hcomm := putOnNamed_kernel b (s.kernel.share (s.bos b).gemHandle)
        (({ s with lock := true } : Bufmgr).modify b f)
      rw [he, ok_bind] at hcomm
      have hself : s₂.bos b = f (s.bos b) := by rw [hbos, modify_self]
      have hre : (s₂.bos b).reusable = false := (congrArg Bo.reusable hself :)
      obtain ⟨r₂, hi₂⟩ := h₂
      have hpos : 0 < (s₂.bos b).refcount := by rw [hself]; exact hb
      have h₃ := Settled.share ⟨r₂, hi₂⟩ (hi₂.graph.alloc_of_pos hpos) hre hn
      rw [hk, hself] at h₃
      refine Returns.bind ⟨_, hcomm, rfl⟩ ?_
      rintro s₃ rfl
      refine .pure ⟨⟨(h₃.reexport (fun c hc => ?_) fun c hc _ => Or.inl (Or.inl hc)).setLock false, rfl⟩,
        fun _ => hn⟩
      rcases hc with hc | rfl
      · exact Or.inl hc
      · exact Or.inr ⟨hre, hpos⟩

theorem boFlink_spec (h : Settled E callers s) (hlock : s.lock = false) (hb : 0 < (s.bos b).refcount)
    (flink : Reply Nat) :
    Returns (boFlink b flink s) fun r => (Settled E callers r.2 ∧ r.2.lock = false)
      ∧ ((s.bos b).globalName = 0 → r.1.1 = 0 → Named r.2 b) := by
  unfold boFlink
  split
  · rename_i hname
    exact .ok ⟨⟨h, hlock⟩, fun h0 => absurd h0 hname⟩
  · exact (flinkLocked_spec h hlock hb flink).mono fun r hr => ⟨hr.1, fun _ => hr.2⟩

end Settle

end LibDrm.Gem
