/-
# `LibDrm.Gem.Names` — the reuse cache, the named list and the kernel's handles

Two further invariants of the manager.

`CacheOk`: an object on a bucket of the reuse cache has no references and no
mapping in use, and its size is that of the bucket; a live object that may be
reused has the size of the bucket it will go to.

`NameOk`: the objects on the named list are live; an object that other
processes can open is on it; the list node of every other object is linked to
itself; and every object has an open kernel handle of its own.  An object on
the list is not reused, unless `export_to_prime` has put it there and the kernel
did not or did not yet share it (`exporting`).
-/
import LibDrm.Gem.State

namespace LibDrm.Gem

/-! ## The reuse cache -/

/-- What holds of an object on bucket `i`. -/
structure Cached (i : Nat) (bo : Bo) : Prop where
  allocated : bo.allocated = true
  unreferenced : bo.refcount = 0
  unmapped : bo.mapCount = 0
  reusable : bo.reusable = true
  size : cacheBucketSizes[i]? = some bo.size

/-- An object that may be reused was rounded up to the size of its bucket. -/
def Sized (bo : Bo) : Prop :=
  bo.reusable = true → ∀ i, boBucketForSize bo.size = some i → cacheBucketSizes[i]? = some bo.size

/-- The buckets hold released objects, each on the bucket of its size. -/
structure CacheOk (X : List BoId) (s : Bufmgr) : Prop where
  member : ∀ i, ∀ b ∈ s.bucketHead i, Cached i (s.bos b) ∧ b ∉ X
  nodup : ∀ i, (s.bucketHead i).Nodup
  sized : ∀ b, Sized (s.bos b)

namespace CacheOk

variable {X : List BoId} {s : Bufmgr}

theorem notMem_of_pos (h : CacheOk X s) {b : BoId} (hb : 0 < (s.bos b).refcount) (i : Nat) :
    b ∉ s.bucketHead i := fun hin => by
  have := (h.member i b hin).1.unreferenced
  omega

theorem notMem_of_dying (h : CacheOk X s) {b : BoId} (hb : b ∈ X) (i : Nat) : b ∉ s.bucketHead i :=
  fun hin => (h.member i b hin).2 hb

theorem notMem_of_unallocated (h : CacheOk X s) {b : BoId} (hb : (s.bos b).allocated = false) (i : Nat) :
    b ∉ s.bucketHead i := fun hin => by
  rw [(h.member i b hin).1.allocated] at hb
  cases hb

/-- An object is on one bucket only. -/
theorem unique (h : CacheOk X s) {b : BoId} {i j : Nat} (hi : b ∈ s.bucketHead i)
    (hj : b ∈ s.bucketHead j) : i = j :=
  cacheBucketSizes_inj (h.member i b hi).1.size (h.member j b hj).1.size

/-- Objects outside of the cache change. -/
theorem congr {X' : List BoId} {s' : Bufmgr} (h : CacheOk X s) (hc : s'.bucketHead = s.bucketHead)
    (hbos : ∀ i, ∀ b ∈ s.bucketHead i, Cached i (s'.bos b) ∧ b ∉ X') (hs : ∀ b, Sized (s'.bos b)) :
    CacheOk X' s' :=
  ⟨fun i b hb => hbos i b (hc ▸ hb), fun i => by rw [hc]; exact h.nodup i, hs⟩

/-- An object outside of the cache is written to. -/
theorem modify {X' : List BoId} (h : CacheOk X s) {b : BoId} {f : Bo → Bo} (hb : ∀ i, b ∉ s.bucketHead i)
    (hs : Sized (f (s.bos b))) (hX : ∀ c ∈ X', c ∈ X ∨ c = b) : CacheOk X' (s.modify b f) := by
  refine h.congr rfl (fun i c hc => ?_) (fun c => ?_)
  · have hcb : c ≠ b := fun e => hb i (e ▸ hc)
    rw [modify_of_ne s hcb]
    obtain ⟨hcached, hcX⟩ := h.member i c hc
    exact ⟨hcached, fun hin => (hX c hin).elim hcX hcb⟩
  · rw [modify_bos]
    split
    · exact hs
    · exact h.sized c

/-- A new or a freed object. -/
theorem update {s' : Bufmgr} (h : CacheOk X s) {b : BoId} {bo : Bo} (hb : ∀ i, b ∉ s.bucketHead i)
    (hc : s'.bucketHead = s.bucketHead) (hbos : s'.bos = Function.update s.bos b bo) (hs : Sized bo) :
    CacheOk X s' := by
  have hmod : CacheOk X (s.modify b fun _ => bo) := h.modify hb hs (fun c hin => Or.inl hin)
  refine hmod.congr hc (fun i c hin => ?_) (fun c => ?_)
  · rw [hbos]; exact hmod.member i c hin
  · rw [hbos]; exact hmod.sized c

/-- An object leaves its bucket. -/
theorem take (h : CacheOk X s) {i : Nat} {l : List BoId} (hl : l.Sublist (s.bucketHead i)) :
    CacheOk X (s.setBucket i l) := by
  have hb : ∀ j, (s.setBucket i l).bucketHead j = if j = i then l else s.bucketHead j := fun j => by
    simp only [Bufmgr.setBucket, Function.update_apply]
  refine ⟨fun j b hin => ?_, fun j => ?_, h.sized⟩
  · rw [hb] at hin
    split at hin
    · rename_i hji; subst hji; exact h.member j b (hl.subset hin)
    · exact h.member j b hin
  · rw [hb]
    split
    · exact (h.nodup i).sublist hl
    · exact h.nodup j

/-- A released object goes to the bucket of its size. -/
theorem put {X' : List BoId} (h : CacheOk X s) {b : BoId} {i : Nat} (hX : X = b :: X') (hbX : b ∉ X')
    (hb : Cached i (s.bos b)) : CacheOk X' (s.setBucket i (s.bucketHead i ++ [b])) := by
  have hnb := h.notMem_of_dying (b := b) (by simp [hX])
  have hbk : ∀ j, (s.setBucket i (s.bucketHead i ++ [b])).bucketHead j
      = if j = i then s.bucketHead i ++ [b] else s.bucketHead j := fun j => by
    simp only [Bufmgr.setBucket, Function.update_apply]
  have hold : ∀ j, ∀ c ∈ s.bucketHead j, Cached j (s.bos c) ∧ c ∉ X' := fun j c hin =>
    ⟨(h.member j c hin).1, fun hc => (h.member j c hin).2 (by simp [hX, hc])⟩
  refine ⟨fun j c hin => ?_, fun j => ?_, h.sized⟩
  · rw [hbk] at hin
    split at hin
    · rename_i hji
      subst hji
      rcases List.mem_append.mp hin with hin | hin
      · exact hold j c hin
      · rw [List.mem_singleton.mp hin]
        exact ⟨hb, hbX⟩
    · exact hold j c hin
  · rw [hbk]
    split
    · rw [List.nodup_append]
      refine ⟨h.nodup i, by simp, ?_⟩
      intro a ha c hc
      rw [List.mem_singleton.mp hc]
      rintro rfl
      exact hnb i ha
    · exact h.nodup j

end CacheOk

/-! ## The kernel -/

/-- Every object has at most one handle, and only objects that exist have one. -/
structure KernelOk (k : Kernel) : Prop where
  inj : ∀ h h' o, k.objOf h = some o → k.objOf h' = some o → h = h'
  born : ∀ h o, k.objOf h = some o → k.status o ≠ .unborn

namespace Kernel

variable {k : Kernel} {h h' : Handle} {o o' : Obj}

@[simp] theorem close_self (k : Kernel) (h : Handle) : (k.close h).objOf h = none := by
  simp [close]

theorem close_of_ne (hne : h' ≠ h) : (k.close h).objOf h' = k.objOf h' := by
  simp [close, hne]

@[simp] theorem close_status (k : Kernel) (h : Handle) : (k.close h).status = k.status := rfl

@[simp] theorem create_self : (k.create h o).objOf h = some o := by simp [create]

theorem create_of_ne (hne : h' ≠ h) : (k.create h o).objOf h' = k.objOf h' := by
  simp [create, hne]

theorem create_status (k : Kernel) (h : Handle) (o o' : Obj) :
    (k.create h o).status o' = if o' = o then .priv else k.status o' := by
  simp only [create, Function.update_apply]

@[simp] theorem openAs_self : (k.openAs h o).objOf h = some o := by simp [openAs]

theorem openAs_of_ne (hne : h' ≠ h) : (k.openAs h o).objOf h' = k.objOf h' := by
  simp [openAs, hne]

@[simp] theorem openAs_status (k : Kernel) (h : Handle) (o : Obj) : (k.openAs h o).status = k.status := rfl

@[simp] theorem share_objOf (k : Kernel) (h : Handle) : (k.share h).objOf = k.objOf := by
  unfold share
  split <;> rfl

theorem share_status (ho : k.objOf h = some o) (o' : Obj) :
    (k.share h).status o' = if o' = o then .shared else k.status o' := by
  simp only [share, ho, Function.update_apply]

end Kernel

theorem KernelOk.close {k : Kernel} (hk : KernelOk k) (h : Handle) : KernelOk (k.close h) := by
  have hsub : ∀ h' o, (k.close h).objOf h' = some o → k.objOf h' = some o := by
    intro h' o ho
    by_cases hh : h' = h
    · rw [hh, Kernel.close_self] at ho
      cases ho
    · rwa [Kernel.close_of_ne hh] at ho
  exact ⟨fun h₁ h₂ o h1 h2 => hk.inj h₁ h₂ o (hsub _ _ h1) (hsub _ _ h2),
    fun h' o ho => hk.born h' o (hsub _ _ ho)⟩

theorem KernelOk.create {k : Kernel} (hk : KernelOk k) {h : Handle} {o : Obj} (hc : k.CreateOk h o) :
    KernelOk (k.create h o) := by
  have hborn : ∀ h', k.objOf h' ≠ some o := fun h' ho => hk.born h' o ho hc.2
  refine ⟨fun h₁ h₂ o' h1 h2 => ?_, fun h' o' ho => ?_⟩
  · by_cases e1 : h₁ = h <;> by_cases e2 : h₂ = h
    · rw [e1, e2]
    · rw [e1, Kernel.create_self] at h1
      rw [Kernel.create_of_ne e2, ← h1] at h2
      exact absurd h2 (hborn h₂)
    · rw [e2, Kernel.create_self] at h2
      rw [Kernel.create_of_ne e1, ← h2] at h1
      exact absurd h1 (hborn h₁)
    · rw [Kernel.create_of_ne e1] at h1
      rw [Kernel.create_of_ne e2] at h2
      exact hk.inj h₁ h₂ o' h1 h2
  · rw [Kernel.create_status]
    split
    · simp
    · rename_i hne
      have hh : h' ≠ h := by
        rintro rfl
        rw [Kernel.create_self] at ho
        exact hne (Option.some.inj ho).symm
      rw [Kernel.create_of_ne hh] at ho
      exact hk.born h' o' ho

theorem KernelOk.openAs {k : Kernel} (hk : KernelOk k) {h : Handle} {o : Obj} (hc : k.OpenOk h o) :
    KernelOk (k.openAs h o) := by
  have hold : ∀ h' o', (k.openAs h o).objOf h' = some o' → h' ≠ h → k.objOf h' = some o' :=
    fun h' o' ho hne => by rwa [Kernel.openAs_of_ne hne] at ho
  have hkey : ∀ h', h' ≠ h → k.objOf h' ≠ some o := by
    intro h' hne ho
    rcases hc.2 with hsame | ⟨-, hnone⟩
    · exact hne (hk.inj h' h o ho hsame)
    · exact hnone h' ho
  refine ⟨fun h₁ h₂ o' h1 h2 => ?_, fun h' o' ho => ?_⟩
  · by_cases e1 : h₁ = h <;> by_cases e2 : h₂ = h
    · rw [e1, e2]
    · rw [e1, Kernel.openAs_self] at h1
      exact absurd (h1 ▸ hold h₂ o' h2 e2) (hkey h₂ e2)
    · rw [e2, Kernel.openAs_self] at h2
      exact absurd (h2 ▸ hold h₁ o' h1 e1) (hkey h₁ e1)
    · exact hk.inj h₁ h₂ o' (hold _ _ h1 e1) (hold _ _ h2 e2)
  · rw [Kernel.openAs_status]
    by_cases hh : h' = h
    · rw [hh, Kernel.openAs_self] at ho
      rw [← Option.some.inj ho, hc.1]
      simp
    · exact hk.born h' o' (hold _ _ ho hh)

theorem KernelOk.of_status {k k' : Kernel} (hk : KernelOk k) (ho : k'.objOf = k.objOf)
    (hs : ∀ o, k.status o ≠ .unborn → k'.status o ≠ .unborn) : KernelOk k' :=
  ⟨fun h h' o => by rw [ho]; exact hk.inj h h' o,
    fun h o => by rw [ho]; exact fun hh => hs o (hk.born h o hh)⟩

theorem KernelOk.share {k : Kernel} (hk : KernelOk k) (h : Handle) : KernelOk (k.share h) := by
  refine hk.of_status (Kernel.share_objOf k h) (fun o ho => ?_)
  unfold Kernel.share
  split
  · exact ho
  · simp only [Function.update_apply]
    split
    · simp
    · exact ho

theorem KernelOk.foreign {k : Kernel} (hk : KernelOk k) (o : Obj) : KernelOk (k.foreign o) := by
  refine hk.of_status rfl (fun o' ho => ?_)
  simp only [Kernel.foreign, Function.update_apply]
  split
  · simp
  · exact ho

/-! ## The named list -/

/-- Nobody else can open the object. -/
def Secret (s : Bufmgr) (b : BoId) : Prop :=
  ∀ o, s.kernel.objOf (s.bos b).gemHandle = some o → s.kernel.status o ≠ .shared

/-- A released object whose node was unlinked and not initialised again. -/
def Dangling (E : BoId → Prop) (X : List BoId) (s : Bufmgr) (b : BoId) : Prop :=
  E b ∧ b ∉ X ∧ (s.bos b).refcount = 0 ∧ (s.nameList (some b)).isSome = true

/-- The named list `nl`, the list nodes of the objects and their handles agree; `E` are the
objects that an export has put on the list. -/
structure NameOk (E : BoId → Prop) (X nl : List BoId) (s : Bufmgr) : Prop where
  list : OnList s.nameList nl
  member : ∀ b ∈ nl, (s.bos b).allocated = true ∧ (0 < (s.bos b).refcount ∨ b ∈ X)
  node : ∀ b, (s.bos b).allocated = true → b ∈ nl ∨ Detached s.nameList b ∨ Dangling E X s b
  kept : ∀ b ∈ nl, (s.bos b).reusable = true → E b ∧ Secret s b
  listed : ∀ b, E b → 0 < (s.bos b).refcount → b ∈ nl
  handle : ∀ a b, (s.bos a).allocated = true → (s.bos b).allocated = true →
    (s.bos a).gemHandle = (s.bos b).gemHandle → a = b
  opened : ∀ b, (s.bos b).allocated = true → ∃ o, s.kernel.objOf (s.bos b).gemHandle = some o
  shared : ∀ b o, (s.bos b).allocated = true → s.kernel.objOf (s.bos b).gemHandle = some o →
    s.kernel.status o = .shared → b ∈ nl
  kernel : KernelOk s.kernel

namespace NameOk

variable {E E' : BoId → Prop} {X X' nl : List BoId} {s s' : Bufmgr}

/-- The object has a list node. -/
theorem node_isSome (h : NameOk E X nl s) {b : BoId} (hb : (s.bos b).allocated = true) :
    (s.nameList (some b)).isSome := by
  rcases h.node b hb with hin | hd | hd
  · exact DList.IsList.alloc h.list (List.mem_cons_of_mem _ (List.mem_map_of_mem hin))
  · rw [show s.nameList (some b) = _ from hd]
    rfl
  · exact hd.2.2.2

/-- A node off the list is not written to, and neither is its state. -/
theorem node_frame (h : NameOk E X nl s) {b : BoId} (hb : (s.bos b).allocated = true) (hnb : b ∉ nl)
    (hf : s'.nameList (some b) = s.nameList (some b)) (hd : Dangling E X s b → Dangling E' X' s' b) :
    Detached s'.nameList b ∨ Dangling E' X' s' b := by
  rcases (h.node b hb).resolve_left hnb with hself | hdang
  · left
    rw [Detached, DList.SelfLinked, hf]
    exact hself
  · exact Or.inr (hd hdang)

/-- The nodes and the objects are the same. -/
theorem node_same (h : NameOk E X nl s) (hbos : s'.bos = s.bos) (hl : s'.nameList = s.nameList) {b : BoId}
    (hb : (s.bos b).allocated = true) : b ∈ nl ∨ Detached s.nameList b ∨ Dangling E X s' b := by
  refine (h.node b hb).imp_right fun hd => hd.imp_right fun hd => ?_
  rw [Dangling, hbos, hl]
  exact hd

/-- No object on the list is in the cache. -/
theorem notMem_of_unreferenced (h : NameOk E X nl s) {b : BoId} (hb : (s.bos b).refcount = 0)
    (hX : b ∉ X) : b ∉ nl := fun hin => by
  rcases (h.member b hin).2 with hpos | hin'
  · omega
  · exact hX hin'

theorem lt_of_mem (h : NameOk E X nl s) {n : Nat} (hn : ∀ b, n ≤ b → (s.bos b).allocated = false)
    {b : BoId} (hb : b ∈ nl) : b < n := by
  by_contra hlt
  have halloc := (h.member b hb).1
  rw [hn b (Nat.le_of_not_lt hlt)] at halloc
  cases halloc

theorem length_le (h : NameOk E X nl s) {n : Nat} (hn : ∀ b, n ≤ b → (s.bos b).allocated = false) :
    nl.length ≤ n := by
  have hsub : nl.toFinset ⊆ Finset.range n := fun b hb =>
    Finset.mem_range.mpr (h.lt_of_mem hn (List.mem_toFinset.mp hb))
  have hcard := Finset.card_le_card hsub
  rwa [List.toFinset_card_of_nodup h.list.nodup, Finset.card_range] at hcard

/-- The objects keep their memory and their handles, and none is released. -/
theorem congr (h : NameOk E X nl s) (hl : s'.nameList = s.nameList) (hk : s'.kernel = s.kernel)
    (ha : ∀ b, (s'.bos b).allocated = (s.bos b).allocated)
    (hh : ∀ b, (s'.bos b).gemHandle = (s.bos b).gemHandle)
    (hc : ∀ b, 0 < (s'.bos b).refcount ↔ 0 < (s.bos b).refcount)
    (hr : ∀ b, (s'.bos b).reusable = true → (s.bos b).reusable = true) : NameOk E X nl s' := by
  constructor
  · rw [hl]; exact h.list
  · intro b; rw [ha, hc]; exact h.member b
  · intro b hb
    rw [ha] at hb
    by_cases hnb : b ∈ nl
    · exact Or.inl hnb
    · refine Or.inr (h.node_frame hb hnb (by rw [hl]) fun ⟨he, hX, h0, hs⟩ => ⟨he, hX, ?_, by rw [hl]; exact hs⟩)
      have := hc b
      omega
  · intro b hb hre
    rw [Secret, hh, hk]
    exact h.kept b hb (hr b hre)
  · intro b; rw [hc]; exact h.listed b
  · intro a b; rw [ha, ha, hh, hh]; exact h.handle a b
  · intro b; rw [ha, hh, hk]; exact h.opened b
  · intro b o; rw [ha, hh, hk]; exact h.shared b o
  · rw [hk]; exact h.kernel

/-- A reference of a live object is taken or dropped; with the last one its release begins. -/
theorem modify (h : NameOk E X nl s) {b : BoId} {f : Bo → Bo} (hb : 0 < (s.bos b).refcount)
    (ha : (f (s.bos b)).allocated = (s.bos b).allocated)
    (hh : (f (s.bos b)).gemHandle = (s.bos b).gemHandle)
    (hr : (f (s.bos b)).reusable = (s.bos b).reusable)
    (hm : 0 < (f (s.bos b)).refcount ∨ b ∈ X') (hX : ∀ c, c ≠ b → (c ∈ X' ↔ c ∈ X)) :
    NameOk E X' nl (s.modify b f) := by
  have hne : ∀ c, c ≠ b → (s.modify b f).bos c = s.bos c := fun c hc => modify_of_ne s hc f
  have ha' := fun c => modify_field Bo.allocated s b c ha
  have hh' := fun c => modify_field Bo.gemHandle s b c hh
  constructor
  · exact h.list
  · intro c hc
    rw [ha']
    refine ⟨(h.member c hc).1, ?_⟩
    by_cases hcb : c = b
    · rw [hcb, modify_self]; exact hm
    · rw [hne c hcb, hX c hcb]; exact (h.member c hc).2
  · intro c hc
    rw [ha'] at hc
    refine (h.node c hc).imp_right fun hd => hd.imp_right fun ⟨he, hcX, h0, hs⟩ => ?_
    have hcb : c ≠ b := by
      rintro rfl
      omega
    exact ⟨he, fun hin => hcX ((hX c hcb).mp hin), by rw [hne c hcb]; exact h0, hs⟩
  · intro c hc hre
    rw [modify_field Bo.reusable s b c hr] at hre
    rw [Secret, hh']
    exact h.kept c hc hre
  · intro c he hpos
    by_cases hcb : c = b
    · exact h.listed c he (by rw [hcb]; exact hb)
    · rw [hne c hcb] at hpos
      exact h.listed c he hpos
  · intro a c; rw [ha', ha', hh', hh']; exact h.handle a c
  · intro c; rw [ha', hh']; exact h.opened c
  · intro c o; rw [ha', hh']; exact h.shared c o
  · exact h.kernel

/-- An object that is not on the list is written to. -/
theorem modify_off (h : NameOk E X nl s) {b : BoId} {f : Bo → Bo} (hb : b ∉ nl) (hE : ¬ E b)
    (ha : (f (s.bos b)).allocated = (s.bos b).allocated)
    (hh : (f (s.bos b)).gemHandle = (s.bos b).gemHandle) : NameOk E X nl (s.modify b f) := by
  have hne : ∀ c, c ≠ b → (s.modify b f).bos c = s.bos c := fun c hc => modify_of_ne s hc f
  have hmem : ∀ c ∈ nl, c ≠ b := fun c hc e => hb (e ▸ hc)
  have ha' := fun c => modify_field Bo.allocated s b c ha
  have hh' := fun c => modify_field Bo.gemHandle s b c hh
  refine ⟨h.list, fun c hc => ?_, fun c hc => ?_, fun c hc hre => ?_, fun c he hpos => ?_, fun a c => ?_,
    fun c => ?_, fun c o => ?_, h.kernel⟩
  · rw [hne c (hmem c hc)]; exact h.member c hc
  · rw [ha'] at hc
    refine (h.node c hc).imp_right fun hd => hd.imp_right fun hd => ?_
    rw [Dangling, hne c fun e => hE (e ▸ hd.1)]
    exact hd
  · rw [hne c (hmem c hc)] at hre
    rw [Secret, hh']
    exact h.kept c hc hre
  · rw [hne c fun e => hE (e ▸ he)] at hpos
    exact h.listed c he hpos
  · rw [ha', ha', hh', hh']; exact h.handle a c
  · rw [ha', hh']; exact h.opened c
  · rw [ha', hh']; exact h.shared c o

/-- A released object may go to the cache once its node is off the list.  The node of an
object that an export had put there is left as it is. -/
theorem unlist (h : NameOk E X nl s) {b : BoId} {m : DList.Mem Node} (hX : X = b :: X') (hbX : b ∉ X')
    (h0 : (s.bos b).refcount = 0) (hre : (s.bos b).reusable = true) (hm : OnList m (nl.erase b)) (hs : ∀ x, (m x).isSome = (s.nameList x).isSome)
    (hf : ∀ c, c ∉ nl → m (some c) = s.nameList (some c)) :
    NameOk E X' (nl.erase b) { s with nameList := m } := by
  have hin : ∀ c, c ≠ b → (c ∈ nl.erase b ↔ c ∈ nl) := fun c hc => List.mem_erase_of_ne hc
  have hnb : b ∉ nl.erase b := h.list.nodup.not_mem_erase
  have hXc : ∀ c, c ≠ b → (c ∈ X' ↔ c ∈ X) := fun c hc => by rw [hX, List.mem_cons, or_iff_right hc]
  constructor
  · exact hm
  · intro c hc
    have hcb : c ≠ b := fun e => hnb (e ▸ hc)
    rw [hXc c hcb]
    exact h.member c ((hin c hcb).mp hc)
  · intro c hc
    by_cases hcb : c = b
    · subst hcb
      by_cases hcn : c ∈ nl
      · refine Or.inr (Or.inr ⟨(h.kept c hcn hre).1, hbX, h0, ?_⟩)
        show (m (some c)).isSome = true
        rw [hs]
        exact h.node_isSome hc
      · refine Or.inr (h.node_frame hc hcn (hf c hcn) fun hd => absurd ?_ hd.2.1)
        rw [hX]
        exact List.mem_cons_self ..
    · rw [hin c hcb]
      by_cases hcn : c ∈ nl
      · exact Or.inl hcn
      · refine Or.inr (h.node_frame hc hcn (hf c hcn) fun ⟨he, hcX, hc0, hcs⟩ => ?_)
        refine ⟨he, fun hin => hcX ((hXc c hcb).mp hin), hc0, ?_⟩
        show (m (some c)).isSome = true
        rw [hs]
        exact hcs
  · intro c hc
    have hcb : c ≠ b := fun e => hnb (e ▸ hc)
    exact h.kept c ((hin c hcb).mp hc)
  · intro c he hpos
    have hcb : c ≠ b := by
      rintro rfl
      have hpos : 0 < (s.bos c).refcount := hpos
      omega
    exact (hin c hcb).mpr (h.listed c he hpos)
  · exact h.handle
  · exact h.opened
  · intro c o hc ho hsh
    have hcn := h.shared c o hc ho hsh
    have hcb : c ≠ b := by
      rintro rfl
      exact (h.kept c hcn hre).2 o ho hsh
    exact (hin c hcb).mpr hcn
  · exact h.kernel

/-- An export begins, or the object is not reused any more. -/
theorem reexport (h : NameOk E X nl s) (hE : ∀ b, E b → E' b ∨ ((s.bos b).reusable = false ∧ 0 < (s.bos b).refcount))
    (hl : ∀ b, E' b → 0 < (s.bos b).refcount → E b ∨ b ∈ nl) : NameOk E' X nl s := by
  refine ⟨h.list, h.member, fun b hb => ?_, fun b hb hre => ?_, fun b he hpos => ?_, h.handle, h.opened, h.shared,
    h.kernel⟩
  · refine (h.node b hb).imp_right fun hd => hd.imp_right fun ⟨he, hX, h0, hs⟩ => ⟨?_, hX, h0, hs⟩
    exact (hE b he).resolve_right fun h1 => by omega
  · obtain ⟨he, hsec⟩ := h.kept b hb hre
    refine ⟨(hE b he).resolve_right fun h1 => ?_, hsec⟩
    rw [hre] at h1
    cases h1.1
  · exact (hl b he hpos).elim (fun he => h.listed b he hpos) id

/-- An object is freed once its node is off the list: its handle is closed. -/
theorem remove (h : NameOk E X nl s) {b : BoId} {m : DList.Mem Node} (hb : (s.bos b).allocated = true)
    (hm : OnList m (nl.erase b)) (hf : ∀ c, c ∉ nl → m (some c) = s.nameList (some c))
    (hX : ∀ c, c ≠ b → (c ∈ X' ↔ c ∈ X))
    (hl : s'.nameList = DList.free m (some b)) (hbos : s'.bos = Function.update s.bos b {})
    (hk : s'.kernel = s.kernel.close (s.bos b).gemHandle) : NameOk E X' (nl.erase b) s' := by
  have hnb : b ∉ nl.erase b := h.list.nodup.not_mem_erase
  have hself : (s'.bos b).allocated = false := by rw [hbos, Function.update_self]
  have hother : ∀ c, c ≠ b → s'.bos c = s.bos c := fun c hc => by rw [hbos, Function.update_of_ne hc]
  have hne : ∀ c, (s'.bos c).allocated = true → c ≠ b := by
    rintro c hc rfl
    rw [hself] at hc
    cases hc
  have hin : ∀ c, c ≠ b → (c ∈ nl.erase b ↔ c ∈ nl) := fun c hc => List.mem_erase_of_ne hc
  have hobj : ∀ c, c ≠ b → (s.bos c).allocated = true →
      s'.kernel.objOf (s.bos c).gemHandle = s.kernel.objOf (s.bos c).gemHandle := by
    intro c hc hca
    rw [hk, Kernel.close_of_ne fun e => hc (h.handle c b hca hb e)]
  constructor
  · rw [hl]; exact hm.free hnb
  · intro c hc
    have hcb : c ≠ b := fun e => hnb (e ▸ hc)
    rw [hother c hcb]
    rw [hX c hcb]
    exact h.member c ((hin c hcb).mp hc)
  · intro c hc
    have hcb := hne c hc
    rw [hother c hcb] at hc
    rw [hin c hcb, hl]
    by_cases hcn : c ∈ nl
    · exact Or.inl hcn
    · have hsame : s'.nameList (some c) = s.nameList (some c) := by
        rw [hl, DList.free, Function.update_of_ne (by simpa using hcb), hf c hcn]
      rw [← hl]
      refine Or.inr (h.node_frame hc hcn hsame ?_)
      rintro ⟨he, hcX, hc0, hs⟩
      exact ⟨he, fun hin => hcX ((hX c hcb).mp hin), by rw [hother c hcb]; exact hc0, by rw [hsame]; exact hs⟩
  · intro c hc hre
    have hcb : c ≠ b := fun e => hnb (e ▸ hc)
    have hcn := (hin c hcb).mp hc
    rw [hother c hcb] at hre
    obtain ⟨he, hsec⟩ := h.kept c hcn hre
    refine ⟨he, fun o => ?_⟩
    rw [hother c hcb, hobj c hcb (h.member c hcn).1, hk, Kernel.close_status]
    exact hsec o
  · intro c he hpos
    have hcb : c ≠ b := by
      rintro rfl
      rw [hbos, Function.update_self] at hpos
      exact absurd hpos (lt_irrefl 0)
    rw [hother c hcb] at hpos
    exact (hin c hcb).mpr (h.listed c he hpos)
  · intro a c hac hcc
    have ha := hne a hac
    have hc := hne c hcc
    rw [hother a ha] at hac ⊢
    rw [hother c hc] at hcc ⊢
    exact h.handle a c hac hcc
  · intro c hc
    have hcb := hne c hc
    rw [hother c hcb] at hc ⊢
    rw [hobj c hcb hc]
    exact h.opened c hc
  · intro c o hc ho hs
    have hcb := hne c hc
    rw [hother c hcb] at hc ho
    rw [hobj c hcb hc] at ho
    rw [hk] at hs
    exact (hin c hcb).mpr (h.shared c o hc ho hs)
  · rw [hk]; exact h.kernel.close _

/-- A new object, with a handle that no other object has. -/
theorem insert (h : NameOk E X nl s) {b : BoId} {bo : Bo} {nl' : List BoId}
    (hbos : s'.bos = Function.update s.bos b bo) (hbo : bo.allocated = true)
    (hr : b ∈ nl' → 0 < bo.refcount) (hl : OnList s'.nameList nl') (hin : ∀ c, c ≠ b → (c ∈ nl' ↔ c ∈ nl))
    (hf : ∀ c, c ≠ b → c ∉ nl → s'.nameList (some c) = s.nameList (some c))
    (hnode : b ∈ nl' ∨ Detached s'.nameList b) (hkept : b ∈ nl' → bo.reusable = false)
    (hlisted : b ∈ nl' ∨ bo.refcount = 0)
    (hnew : ∀ c, (s.bos c).allocated = true → (s.bos c).gemHandle ≠ bo.gemHandle)
    (hobj : ∃ o, s'.kernel.objOf bo.gemHandle = some o ∧ (s'.kernel.status o = .shared → b ∈ nl'))
    (hk : ∀ c, (s.bos c).allocated = true →
      s'.kernel.objOf (s.bos c).gemHandle = s.kernel.objOf (s.bos c).gemHandle)
    (hs : ∀ c o, (s.bos c).allocated = true → s.kernel.objOf (s.bos c).gemHandle = some o →
      s'.kernel.status o = .shared → s.kernel.status o = .shared)
    (hok : KernelOk s'.kernel) : NameOk E X nl' s' := by
  have hself : s'.bos b = bo := by rw [hbos, Function.update_self]
  have hother : ∀ c, c ≠ b → s'.bos c = s.bos c := fun c hc => by rw [hbos, Function.update_of_ne hc]
  constructor
  · exact hl
  · intro c hc
    by_cases hcb : c = b
    · rw [hcb, hself]; exact ⟨hbo, Or.inl (hr (hcb ▸ hc))⟩
    · rw [hother c hcb]; exact h.member c ((hin c hcb).mp hc)
  · intro c hc
    by_cases hcb : c = b
    · rw [hcb]; exact hnode.imp_right Or.inl
    · rw [hother c hcb] at hc
      rw [hin c hcb]
      by_cases hcn : c ∈ nl
      · exact Or.inl hcn
      · have hsame := hf c hcb hcn
        refine Or.inr (h.node_frame hc hcn hsame fun ⟨he, hcX, hc0, hcs⟩ => ?_)
        exact ⟨he, hcX, by rw [hother c hcb]; exact hc0, by rw [hsame]; exact hcs⟩
  · intro c hc hre
    by_cases hcb : c = b
    · rw [hcb, hself, hkept (hcb ▸ hc)] at hre
      cases hre
    · rw [hother c hcb] at hre
      have hcn := (hin c hcb).mp hc
      obtain ⟨he, hsec⟩ := h.kept c hcn hre
      have hca := (h.member c hcn).1
      refine ⟨he, fun o ho hsh => ?_⟩
      rw [hother c hcb, hk c hca] at ho
      exact hsec o ho (hs c o hca ho hsh)
  · intro c he hpos
    by_cases hcb : c = b
    · rw [hcb, hself] at hpos
      rw [hcb]
      exact hlisted.resolve_right (by omega)
    · rw [hother c hcb] at hpos
      exact (hin c hcb).mpr (h.listed c he hpos)
  · intro a c ha hc hac
    by_cases hab : a = b <;> by_cases hcb : c = b
    · rw [hab, hcb]
    · rw [hab, hself, hother c hcb] at hac
      rw [hother c hcb] at hc
      exact absurd hac.symm (hnew c hc)
    · rw [hcb, hself, hother a hab] at hac
      rw [hother a hab] at ha
      exact absurd hac (hnew a ha)
    · rw [hother a hab] at ha hac
      rw [hother c hcb] at hc hac
      exact h.handle a c ha hc hac
  · intro c hc
    by_cases hcb : c = b
    · rw [hcb, hself]
      obtain ⟨o, ho, -⟩ := hobj
      exact ⟨o, ho⟩
    · rw [hother c hcb] at hc ⊢
      rw [hk c hc]
      exact h.opened c hc
  · intro c o hc ho hsh
    by_cases hcb : c = b
    · rw [hcb, hself] at ho
      obtain ⟨o', ho', hsh'⟩ := hobj
      rw [ho'] at ho
      rw [hcb]
      exact hsh' (Option.some.inj ho ▸ hsh)
    · rw [hother c hcb] at hc ho
      rw [hk c hc] at ho
      exact (hin c hcb).mpr (h.shared c o hc ho (hs c o hc ho hsh))
  · exact hok

/-- The kernel opens a handle. -/
theorem openAs (h : NameOk E X nl s) {hd : Handle} {o : Obj} (hc : s.kernel.OpenOk hd o)
    (hl : s'.nameList = s.nameList) (hbos : s'.bos = s.bos) (hk : s'.kernel = s.kernel.openAs hd o) :
    NameOk E X nl s' := by
  have hobj : ∀ b, (s.bos b).allocated = true →
      s'.kernel.objOf (s.bos b).gemHandle = s.kernel.objOf (s.bos b).gemHandle := by
    intro b hb
    rw [hk]
    by_cases hh : (s.bos b).gemHandle = hd
    · rw [hh, Kernel.openAs_self]
      obtain ⟨o', ho'⟩ := h.opened b hb
      rw [hh] at ho'
      rcases hc.2 with hsame | ⟨hnone, -⟩
      · exact hsame.symm
      · rw [hnone] at ho'
        cases ho'
    · exact Kernel.openAs_of_ne hh
  have hst : s'.kernel.status = s.kernel.status := by rw [hk, Kernel.openAs_status]
  constructor
  · rw [hl]; exact h.list
  · rw [hbos]; exact h.member
  · rw [hbos, hl]; exact fun b hb => h.node_same hbos hl hb
  · intro b hb hre
    rw [hbos] at hre
    rw [Secret, hbos, hobj b (h.member b hb).1, hst]
    exact h.kept b hb hre
  · rw [hbos]; exact h.listed
  · rw [hbos]; exact h.handle
  · intro b; rw [hbos]; intro hb; rw [hobj b hb]; exact h.opened b hb
  · intro b o'; rw [hbos]; intro hb; rw [hobj b hb, hst]; exact h.shared b o' hb
  · rw [hk]; exact h.kernel.openAs hc

/-- An object that is on the list may be opened by others. -/
theorem share (h : NameOk E X nl s) {b : BoId} (hb : (s.bos b).allocated = true) (hin : b ∈ nl)
    (hre : (s.bos b).reusable = false) (hl : s'.nameList = s.nameList) (hbos : s'.bos = s.bos)
    (hk : s'.kernel = s.kernel.share (s.bos b).gemHandle) : NameOk E X nl s' := by
  obtain ⟨o, ho⟩ := h.opened b hb
  have hobj : s'.kernel.objOf = s.kernel.objOf := by rw [hk, Kernel.share_objOf]
  constructor
  · rw [hl]; exact h.list
  · rw [hbos]; exact h.member
  · rw [hbos, hl]; exact fun c hc => h.node_same hbos hl hc
  · intro c hc hcre
    rw [hbos] at hcre
    obtain ⟨he, hsec⟩ := h.kept c hc hcre
    refine ⟨he, fun o' ho' hs => ?_⟩
    rw [hbos, hobj] at ho'
    rw [hk, Kernel.share_status ho] at hs
    split at hs
    · rename_i hoo
      rw [hoo] at ho'
      rw [h.handle c b (h.member c hc).1 hb (h.kernel.inj _ _ o ho' ho), hre] at hcre
      cases hcre
    · exact hsec o' ho' hs
  · rw [hbos]; exact h.listed
  · rw [hbos]; exact h.handle
  · rw [hbos, hobj]; exact h.opened
  · intro c o' hc ho' hs
    rw [hbos] at hc ho'
    rw [hobj] at ho'
    rw [hk, Kernel.share_status ho] at hs
    split at hs
    · rename_i hoo
      rw [hoo] at ho'
      rw [h.handle c b hc hb (h.kernel.inj _ _ o ho' ho)]
      exact hin
    · exact h.shared c o' hc ho' hs
  · rw [hk]; exact h.kernel.share _

/-- Another process creates and shares an object of its own. -/
theorem foreign (h : NameOk E X nl s) {o : Obj} (ho : s.kernel.status o = .unborn)
    (hl : s'.nameList = s.nameList) (hbos : s'.bos = s.bos) (hk : s'.kernel = s.kernel.foreign o) :
    NameOk E X nl s' := by
  have hobj : s'.kernel.objOf = s.kernel.objOf := by rw [hk]; rfl
  have hst : ∀ hd o', s.kernel.objOf hd = some o' → s'.kernel.status o' = s.kernel.status o' := by
    intro hd o' ho'
    have hne : o' ≠ o := fun e => h.kernel.born _ o' ho' (e ▸ ho)
    rw [hk, Kernel.foreign]
    exact Function.update_of_ne hne ..
  constructor
  · rw [hl]; exact h.list
  · rw [hbos]; exact h.member
  · rw [hbos, hl]; exact fun c hc => h.node_same hbos hl hc
  · intro c hc hre
    rw [hbos] at hre
    obtain ⟨he, hsec⟩ := h.kept c hc hre
    refine ⟨he, fun o' ho' => ?_⟩
    rw [hbos, hobj] at ho'
    rw [hst _ o' ho']
    exact hsec o' ho'
  · rw [hbos]; exact h.listed
  · rw [hbos]; exact h.handle
  · rw [hbos, hobj]; exact h.opened
  · intro c o' hc ho' hs
    rw [hbos] at hc ho'
    rw [hobj] at ho'
    rw [hst _ o' ho'] at hs
    exact h.shared c o' hc ho' hs
  · rw [hk]; exact h.kernel.foreign o

/-- The node of an object is put on the list. -/
theorem addTail (h : NameOk E X nl s) {b : BoId} {m : DList.Mem Node} (hb : (s.bos b).allocated = true)
    (hpos : 0 < (s.bos b).refcount) (hnb : b ∉ nl) (hm : OnList m (nl ++ [b]))
    (hf : ∀ c, c ∉ nl ++ [b] → m (some c) = s.nameList (some c)) (hl : s'.nameList = m)
    (hbos : s'.bos = s.bos) (hk : s'.kernel = s.kernel) :
    NameOk (fun c => E c ∨ c = b) X (nl ++ [b]) s' := by
  constructor
  · rw [hl]; exact hm
  · intro c hc
    rw [hbos]
    rcases List.mem_append.mp hc with hc | hc
    · exact h.member c hc
    · rw [List.mem_singleton.mp hc]; exact ⟨hb, Or.inl hpos⟩
  · intro c hc
    rw [hbos] at hc
    by_cases hcn : c ∈ nl ++ [b]
    · exact Or.inl hcn
    · have hsame : s'.nameList (some c) = s.nameList (some c) := by rw [hl]; exact hf c hcn
      refine Or.inr (h.node_frame hc (fun hin => hcn (List.mem_append_left _ hin)) hsame
        fun ⟨he, hcX, h0, hs⟩ => ?_)
      exact ⟨Or.inl he, hcX, by rw [hbos]; exact h0, by rw [hsame]; exact hs⟩
  · intro c hc hre
    rw [hbos] at hre
    rw [Secret, hbos, hk]
    rcases List.mem_append.mp hc with hc | hc
    · obtain ⟨he, hsec⟩ := h.kept c hc hre
      exact ⟨Or.inl he, hsec⟩
    · obtain rfl := List.mem_singleton.mp hc
      exact ⟨Or.inr rfl, fun o ho hsh => hnb (h.shared c o hb ho hsh)⟩
  · intro c he hc
    rw [hbos] at hc
    rcases he with he | rfl
    · exact List.mem_append_left _ (h.listed c he hc)
    · simp
  · rw [hbos]; exact h.handle
  · rw [hbos, hk]; exact h.opened
  · intro c o; rw [hbos, hk]
    exact fun hc ho hs => List.mem_append_left _ (h.shared c o hc ho hs)
  · rw [hk]; exact h.kernel

end NameOk

end LibDrm.Gem
