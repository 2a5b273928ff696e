/-
# `LibDrm.Gem.Release` — dropping references

`unreference_final` drops the references of the object's relocations, which
may release their targets in turn, and then puts the object into the reuse
cache or frees it.  The recursion has no bound in the source; here it has fuel,
and the fuel `nextBo + 1` always suffices, because every edge goes down in rank
(`boUnreferenceLockedTimed_spec`).

`Inv` is the invariant of the whole manager.  The cascade keeps it, and it
touches nothing but what it releases (`Released`).
-/
import LibDrm.Gem.Graph
import LibDrm.Gem.Names
import LibDrm.Gem.Vma

namespace LibDrm.Gem

open Walk

/-! ## The functions -/

/-- The answers to the `MADVISE` ioctl: the kernel has retained the pages of the object. -/
abbrev Madvise := BoId → Bool

/-- `reloc_count = 0`, `used_as_reloc_target = false`, and the two arrays are freed. -/
def Bo.clearRelocs (bo : Bo) : Bo :=
  { bo with relocArray := none, usedAsRelocTarget := false }

def Bo.toCache (time : Int) (bo : Bo) : Bo := { bo with freeTime := time, validateIndex := -1 }

/-- The end of `drm_intel_gem_bo_unreference_final`: into the cache if possible. -/
def boCacheOrFree (madv : Madvise) (time : Int) (b : BoId) (s : Bufmgr) : Except Fault Bufmgr :=
  match boBucketForSize (s.bos b).size with
  | some i =>
      if s.boReuse && (s.bos b).reusable && madv b then
        .ok ((s.modify b (Bo.toCache time)).setBucket i (s.bucketHead i ++ [b]))
      else boFree b s
  | none => boFree b s

/-- The relocations are forgotten, and left-over mappings cleared. -/
def boUnlink (b : BoId) (s : Bufmgr) : Except Fault Bufmgr :=
  let s := s.modify b Bo.clearRelocs
  if (s.bos b).mapCount ≠ 0 then boCloseVma b (s.modify b Bo.clearMap) else .ok s

/-- `drm_intel_gem_bo_unreference_final` after its loop. -/
def boRetire (madv : Madvise) (time : Int) (b : BoId) (s : Bufmgr) : Except Fault Bufmgr := do
  let s ← boUnlink b s
  let nameList ← deref (DList.del s.nameList (some b))
  boCacheOrFree madv time b { s with nameList }

/-- `drm_intel_gem_bo_unreference_final`; `unref` is the call that drops a target.
The loop reads `reloc_target_info` as it goes, but nothing it calls writes to it:
only this function does for this object, and the object's count is 0. -/
def boUnreferenceFinal (unref : BoId → Bufmgr → Except Fault Bufmgr) (madv : Madvise) (time : Int)
    (b : BoId) (s : Bufmgr) : Except Fault Bufmgr := do
  let s ← (s.bos b).targets.foldlM (fun s t => if t = b then .ok s else unref t s) s
  boRetire madv time b s

/-- `drm_intel_gem_bo_unreference_locked_timed`. -/
def boUnreferenceLockedTimed (madv : Madvise) (time : Int) :
    Nat → BoId → Bufmgr → Except Fault Bufmgr
  | 0, _, _ => .error .outOfFuel
  | k + 1, b, s => do
      assert (0 < (s.bos b).refcount)
      if (s.bos b).refcount = 1 then
        boUnreferenceFinal (boUnreferenceLockedTimed madv time k) madv time b (s.modify b Bo.decRef)
      else .ok (s.modify b Bo.decRef)

/-- The objects at the front of the bucket `i`, which holds those given, are freed as long as
they are stale. -/
def dropStale (stale : BoId → Bo → Bool) (i : Nat) : List BoId → Bufmgr → Except Fault Bufmgr
  | [], s => .ok s
  | b :: l, s =>
      if stale b (s.bos b) then do
        let s ← boFree b (s.setBucket i l)
        dropStale stale i l s
      else .ok s

/-- The object has been in the cache for more than a second. -/
def expired (time : Int) (_ : BoId) (bo : Bo) : Bool := !decide (time - bo.freeTime ≤ 1)

/-- The loop of `drm_intel_gem_cleanup_bo_cache` over the bucket `i`. -/
def cleanupBucket (time : Int) (i : Nat) (s : Bufmgr) : Except Fault Bufmgr :=
  dropStale (expired time) i (s.bucketHead i) s

/-- `drm_intel_gem_cleanup_bo_cache`. -/
def cleanupBoCache (time : Int) (s : Bufmgr) : Except Fault Bufmgr :=
  if s.time = time then .ok s
  else do
    let s ← (List.range cacheBucketSizes.length).foldlM
      (fun s i => cleanupBucket time i s) s
    return { s with time }

/-- The locked part of `drm_intel_gem_bo_unreference`. -/
def boUnreferenceSlow (madv : Madvise) (time : Int) (b : BoId) (s : Bufmgr) : Except Fault Bufmgr :=
  s.locked fun s =>
    if (s.bos b).refcount = 1 then do
      let s ← boUnreferenceFinal (boUnreferenceLockedTimed madv time (s.nextBo + 1)) madv time b
        (s.modify b Bo.decRef)
      cleanupBoCache time s
    else .ok (s.modify b Bo.decRef)

/-- `drm_intel_gem_bo_unreference`: the lock is taken for the last reference only. -/
def boUnreference (madv : Madvise) (time : Int) (b : BoId) (s : Bufmgr) : Except Fault Bufmgr := do
  assert (0 < (s.bos b).refcount)
  if (s.bos b).refcount ≠ 1 then .ok (s.modify b Bo.decRef)
  else boUnreferenceSlow madv time b s

/-! ## The invariant of the manager -/

structure Inv (g : Ghost) (s : Bufmgr) : Prop where
  graph : GraphOk g s
  cache : CacheOk g.dying s
  names : ∃ nl, NameOk g.exporting g.dying nl s
  vma : VmaInv s

/-- The fields that the graph, the cache and the named list read, the map count apart. -/
def Bo.key (bo : Bo) : Bo :=
  { allocated := bo.allocated, size := bo.size, refcount := bo.refcount, gemHandle := bo.gemHandle
    relocArray := some (0, bo.relocs), usedAsRelocTarget := bo.usedAsRelocTarget, reusable := bo.reusable }

/-- A step that touches neither the graph nor the cache nor the named list. -/
structure Inert (s s' : Bufmgr) : Prop where
  key : ∀ c, (s'.bos c).key = (s.bos c).key
  map : ∀ i, ∀ c ∈ s.bucketHead i, (s'.bos c).mapCount = (s.bos c).mapCount
  nextBo : s'.nextBo = s.nextBo
  bucketHead : s'.bucketHead = s.bucketHead
  nameList : s'.nameList = s.nameList
  kernel : s'.kernel = s.kernel

namespace Inert

variable {s s' s'' : Bufmgr}

theorem trans (h₁ : Inert s s') (h₂ : Inert s' s'') : Inert s s'' where
  key c := (h₂.key c).trans (h₁.key c)
  map i c hc := (h₂.map i c (h₁.bucketHead ▸ hc)).trans (h₁.map i c hc)
  nextBo := h₂.nextBo.trans h₁.nextBo
  bucketHead := h₂.bucketHead.trans h₁.bucketHead
  nameList := h₂.nameList.trans h₁.nameList
  kernel := h₂.kernel.trans h₁.kernel

theorem of_vmaFrame (h : VmaFrame s s') : Inert s s' where
  key c := (congrArg Bo.key (h.bos c) :)
  map _ c _ := (congrArg Bo.mapCount (h.bos c) :)
  nextBo := h.nextBo
  bucketHead := (congrArg Bufmgr.bucketHead h.rest :)
  nameList := (congrArg Bufmgr.nameList h.rest :)
  kernel := (congrArg Bufmgr.kernel h.rest :)

theorem of_mapFrame {b : BoId} (h : MapFrame b s s') (hb : ∀ i, b ∉ s.bucketHead i) : Inert s s' where
  key c := (congrArg Bo.key (h.bos c) :)
  map i c hc := h.mapCount c fun e => hb i (e ▸ hc)
  nextBo := (congrArg Bufmgr.nextBo h.rest :)
  bucketHead := (congrArg Bufmgr.bucketHead h.rest :)
  nameList := (congrArg Bufmgr.nameList h.rest :)
  kernel := (congrArg Bufmgr.kernel h.rest :)

theorem modify (s : Bufmgr) {b : BoId} {f : Bo → Bo} (hk : (f (s.bos b)).key = (s.bos b).key)
    (hm : (f (s.bos b)).mapCount = (s.bos b).mapCount ∨ ∀ i, b ∉ s.bucketHead i) :
    Inert s (s.modify b f) where
  key c := by
    rw [modify_bos]
    split
    · rename_i hcb; rw [hcb]; exact hk
    · rfl
  map i c hc := by
    rw [modify_bos]
    split
    · rename_i hcb
      subst hcb
      exact hm.resolve_right fun h => h i hc
    · rfl
  nextBo := rfl
  bucketHead := rfl
  nameList := rfl
  kernel := rfl

variable (h : Inert s s') (c : BoId)
include h

theorem allocated : (s'.bos c).allocated = (s.bos c).allocated := (congrArg Bo.allocated (h.key c) :)
theorem refcount : (s'.bos c).refcount = (s.bos c).refcount := (congrArg Bo.refcount (h.key c) :)
theorem size : (s'.bos c).size = (s.bos c).size := (congrArg Bo.size (h.key c) :)
theorem relocs : (s'.bos c).relocs = (s.bos c).relocs := (congrArg Bo.relocs (h.key c) :)
theorem gemHandle : (s'.bos c).gemHandle = (s.bos c).gemHandle := (congrArg Bo.gemHandle (h.key c) :)
theorem reusable : (s'.bos c).reusable = (s.bos c).reusable := (congrArg Bo.reusable (h.key c) :)
theorem usedAsRelocTarget : (s'.bos c).usedAsRelocTarget = (s.bos c).usedAsRelocTarget :=
  (congrArg Bo.usedAsRelocTarget (h.key c) :)

end Inert

theorem Inv.inert {g : Ghost} {s s' : Bufmgr} (h : Inv g s) (hi : Inert s s') (hv : VmaInv s') :
    Inv g s' where
  graph := h.graph.congr hi.nextBo hi.allocated hi.refcount hi.usedAsRelocTarget hi.relocs
  cache := by
    refine h.cache.congr hi.bucketHead (fun i b hb => ?_) (fun b => ?_)
    · obtain ⟨hc, hX⟩ := h.cache.member i b hb
      refine ⟨⟨?_, ?_, ?_, ?_, ?_⟩, hX⟩
      · rw [hi.allocated]; exact hc.allocated
      · rw [hi.refcount]; exact hc.unreferenced
      · rw [hi.map i b hb]; exact hc.unmapped
      · rw [hi.reusable]; exact hc.reusable
      · rw [hi.size]; exact hc.size
    · rw [Sized, hi.reusable, hi.size]; exact h.cache.sized b
  names := by
    obtain ⟨nl, hn⟩ := h.names
    refine ⟨nl, hn.congr hi.nameList hi.kernel hi.allocated hi.gemHandle (fun b => ?_) (fun b => ?_)⟩
    · rw [hi.refcount]
    · rw [hi.reusable]; exact id
  vma := hv

/-- The object without what a release elsewhere can change.  The fence count is left
out too, because `clear_relocs` adjusts it between the releases. -/
def Bo.frozen (bo : Bo) : Bo :=
  { bo with refcount := 0, memVirtual := 0, gttVirtual := 0, relocTreeFences := 0 }

def Bo.setFences (n : Int) (bo : Bo) : Bo := { bo with relocTreeFences := n }

/-- Only handles of objects without references are closed, and only such objects are freed. -/
structure Closes (s s' : Bufmgr) : Prop where
  old : ∀ c, (s'.bos c).allocated = true → (s.bos c).allocated = true
    ∧ (s'.bos c).gemHandle = (s.bos c).gemHandle
  dead : ∀ c, (s.bos c).refcount = 0 → (s'.bos c).refcount = 0
  status : s'.kernel.status = s.kernel.status
  handles : ∀ h, s'.kernel.objOf h = s.kernel.objOf h ∨ (s'.kernel.objOf h = none
    ∧ ∃ c, (s.bos c).allocated = true ∧ (s.bos c).gemHandle = h ∧ (s'.bos c).refcount = 0)

namespace Closes

variable {s s' s'' : Bufmgr}

/-- Nothing is freed. -/
theorem of_fields (hk : s'.kernel = s.kernel) (ha : ∀ c, (s'.bos c).allocated = (s.bos c).allocated)
    (hh : ∀ c, (s'.bos c).gemHandle = (s.bos c).gemHandle)
    (hd : ∀ c, (s.bos c).refcount = 0 → (s'.bos c).refcount = 0) : Closes s s' :=
  ⟨fun c hc => ⟨ha c ▸ hc, hh c⟩, hd, by rw [hk], fun _ => Or.inl (by rw [hk])⟩

theorem refl (s : Bufmgr) : Closes s s := of_fields rfl (fun _ => rfl) (fun _ => rfl) fun _ h => h

theorem trans (h₁ : Closes s s') (h₂ : Closes s' s'') : Closes s s'' := by
  refine ⟨fun c hc => ?_, fun c hc => h₂.dead c (h₁.dead c hc), h₂.status.trans h₁.status, fun h => ?_⟩
  · obtain ⟨ha, hh⟩ := h₂.old c hc
    exact ⟨(h₁.old c ha).1, hh.trans (h₁.old c ha).2⟩
  · rcases h₂.handles h with e | ⟨e, c, hc, hh, h0⟩
    · rcases h₁.handles h with e₁ | ⟨e₁, c, hc, hh, h0⟩
      · exact Or.inl (e.trans e₁)
      · exact Or.inr ⟨e.trans e₁, c, hc, hh, h₂.dead c h0⟩
    · obtain ⟨ha, hg⟩ := h₁.old c hc
      exact Or.inr ⟨e, c, ha, hg.symm.trans hh, h0⟩

theorem decRef (s : Bufmgr) (b : BoId) : Closes s (s.modify b Bo.decRef) := by
  refine .of_fields rfl (fun c => modify_field Bo.allocated s b c rfl)
    (fun c => modify_field Bo.gemHandle s b c rfl) fun c hc => ?_
  rw [modify_bos]
  split
  · rename_i hcb
    subst hcb
    show (s.bos c).refcount - 1 = 0
    omega
  · exact hc

end Closes

/-- What a dropped reference on `b` leaves: the objects that stay live keep their
fields and edges, and those above `b` are not touched at all. -/
structure Released (r : BoId → Nat) (b : BoId) (out out' : BoId → List BoId) (s s' : Bufmgr) : Prop where
  rest : s'.shell = s.shell
  mono : ∀ c, (s'.bos c).refcount ≤ (s.bos c).refcount
  live : ∀ c, 0 < (s'.bos c).refcount → out' c = out c ∧ (s'.bos c).frozen = (s.bos c).frozen
  high : ∀ c, r b < r c → out' c = out c ∧ (s'.bos c).unmapAll = (s.bos c).unmapAll
  closes : Closes s s'

namespace Released

variable {r : BoId → Nat} {b : BoId} {out out' out'' : BoId → List BoId} {s s' s'' : Bufmgr}

theorem trans (h₁ : Released r b out out' s s') (h₂ : Released r b out' out'' s' s'') :
    Released r b out out'' s s'' where
  rest := h₂.rest.trans h₁.rest
  mono c := (h₂.mono c).trans (h₁.mono c)
  live c hc := by
    obtain ⟨ho, hf⟩ := h₂.live c hc
    obtain ⟨ho', hf'⟩ := h₁.live c (lt_of_lt_of_le hc (h₂.mono c))
    exact ⟨ho.trans ho', hf.trans hf'⟩
  high c hc := by
    obtain ⟨ho, hf⟩ := h₂.high c hc
    obtain ⟨ho', hf'⟩ := h₁.high c hc
    exact ⟨ho.trans ho', hf.trans hf'⟩
  closes := h₁.closes.trans h₂.closes

/-- A reference dropped further down. -/
theorem lower {t : BoId} (h : Released r t out out' s s') (ht : r t ≤ r b) : Released r b out out' s s' :=
  ⟨h.rest, h.mono, h.live, fun c hc => h.high c (lt_of_le_of_lt ht hc), h.closes⟩

end Released

/-! ## One reference -/

namespace Inv

variable {g : Ghost} {s : Bufmgr}

theorem drop (h : Inv g s) {b : BoId} {P : List BoId} (hp : g.pend = b :: P)
    (hne : (s.bos b).refcount ≠ 1) : Inv { g with pend := P } (s.modify b Bo.decRef) := by
  have hpos := h.graph.pos_of_pend (b := b) (by simp [hp])
  obtain ⟨nl, hn⟩ := h.names
  refine ⟨h.graph.drop hp hne, ?_, ⟨nl, ?_⟩, h.vma.modify rfl rfl rfl⟩
  · exact h.cache.modify (h.cache.notMem_of_pos hpos) (h.cache.sized b) (fun c hc => Or.inl hc)
  · refine hn.modify hpos rfl rfl rfl (Or.inl ?_) fun _ _ => Iff.rfl
    show 0 < (s.bos b).refcount - 1
    omega

theorem die (h : Inv g s) {b : BoId} {P : List BoId} (hp : g.pend = b :: P)
    (h1 : (s.bos b).refcount = 1) :
    Inv { g with pend := P, dying := b :: g.dying } (s.modify b Bo.decRef) := by
  obtain ⟨nl, hn⟩ := h.names
  refine ⟨h.graph.die hp h1, ?_, ⟨nl, ?_⟩, h.vma.modify rfl rfl rfl⟩
  · refine h.cache.modify (h.cache.notMem_of_pos (by omega)) (h.cache.sized b) (fun c hc => ?_)
    exact (List.mem_cons.mp hc).symm
  · refine hn.modify (by omega) rfl rfl rfl (Or.inr (List.mem_cons_self ..)) fun c hcb => ?_
    rw [List.mem_cons, or_iff_right hcb]

theorem shift (h : Inv g s) {d t : BoId} {l₁ l₂ : List BoId} (hd : g.out d = l₁ ++ t :: l₂) :
    Inv { g with
      out := Function.update g.out d (l₁ ++ l₂)
      pend := if t = d then g.pend else t :: g.pend } s :=
  ⟨h.graph.shift hd, h.cache, h.names, h.vma⟩

theorem handOver (h : Inv g s) {b : BoId} (hb : 0 < g.callers b) :
    Inv { g with callers := Function.update g.callers b (g.callers b - 1), pend := b :: g.pend } s :=
  ⟨h.graph.handOver hb, h.cache, h.names, h.vma⟩

/-- A caller takes a further reference on a live object. -/
theorem ref (h : Inv g s) {b : BoId} (hb : 0 < (s.bos b).refcount) :
    Inv { g with callers := Function.update g.callers b (g.callers b + 1) } (s.modify b Bo.incRef) := by
  obtain ⟨nl, hn⟩ := h.names
  have halloc := h.graph.alloc_of_pos hb
  refine ⟨h.graph.ref halloc (h.graph.notMem_dying hb) halloc rfl (Or.inl rfl) rfl, ?_, ⟨nl, ?_⟩,
    h.vma.modify rfl rfl rfl⟩
  · exact h.cache.modify (h.cache.notMem_of_pos hb) (h.cache.sized b) (fun c hc => Or.inl hc)
  · exact hn.modify hb rfl rfl rfl (Or.inl (Nat.succ_pos _)) fun _ _ => Iff.rfl

/-! ## The end of a release -/

/-- A cached or released object is freed; `m` is the named list without its node. -/
theorem free (h : Inv g s) {b : BoId} {X : List BoId} {m : DList.Mem Node} {nl : List BoId}
    (hn : NameOk g.exporting g.dying nl s) (hb : (s.bos b).allocated = true)
    (h0 : (s.bos b).refcount = 0) (hmap : (s.bos b).mapCount = 0) (hc : ∀ i, b ∉ s.bucketHead i)
    (hX : ∀ c, c ∈ X ↔ c ∈ g.dying ∧ c ≠ b) (hout : g.out b = []) (hrel : (s.bos b).relocs = [])
    (hm : OnList m (nl.erase b)) (hf : ∀ c, c ∉ nl → m (some c) = s.nameList (some c)) :
    Returns (boFree b { s with nameList := m }) fun s' =>
      Inv { g with dying := X } s' ∧ s' = Bufmgr.freed { s with nameList := m } b s'.vmaList
        ∧ ∀ vl, OnList s.vmaList vl → OnList s'.vmaList (vl.erase b) := by
  have hv : VmaInv { s with nameList := m } := h.vma.same rfl rfl rfl rfl rfl rfl
  refine (boFree_spec hv hb hmap).mono ?_
  rintro s' ⟨hv', hs', hvl'⟩
  have hbX : b ∉ X := fun hin => ((hX b).mp hin).2 rfl
  have hgraph : GraphOk { g with dying := X } s := by
    refine ⟨h.graph.fresh, h.graph.unalloc, h.graph.ranked, h.graph.used, h.graph.count, ?_, ?_⟩
    · intro c hc0 hnd
      by_cases hcb : c = b
      · rw [hcb]; exact ⟨hout, hrel⟩
      · exact h.graph.dead c hc0 fun hin => hnd ((hX c).mpr ⟨hin, hcb⟩)
    · exact fun c hin => h.graph.dying c ((hX c).mp hin).1
  have hcache : CacheOk X s :=
    h.cache.congr rfl (fun i c hin => ⟨(h.cache.member i c hin).1,
      fun hcX => (h.cache.member i c hin).2 ((hX c).mp hcX).1⟩) h.cache.sized
  refine ⟨⟨?_, ?_, ⟨nl.erase b, ?_⟩, hv'⟩, hs', hvl'⟩
  · exact hgraph.free h0 hbX (by rw [hs']; rfl) (by rw [hs']; rfl)
  · exact hcache.update hc (by rw [hs']; rfl) (by rw [hs']; rfl) (fun h => by cases h)
  · exact hn.remove hb hm hf (fun c hcb => by rw [hX c, and_iff_left hcb]) (by rw [hs']; rfl)
      (by rw [hs']; rfl) (by rw [hs']; rfl)

/-- A released object that may be reused goes to the cache; `m` is the named list without its node. -/
theorem toCache (h : Inv g s) {b : BoId} {X : List BoId} {i : Nat} {m : DList.Mem Node} {nl : List BoId} (time : Int)
    (hn : NameOk g.exporting g.dying nl s) (hX : g.dying = b :: X) (hbX : b ∉ X) (hb : Cached i (s.bos b))
    (hout : g.out b = []) (hrel : (s.bos b).relocs = []) (hm : OnList m (nl.erase b))
    (hs : ∀ x, (m x).isSome = (s.nameList x).isSome) (hf : ∀ c, c ∉ nl → m (some c) = s.nameList (some c)) :
    Inv { g with dying := X } ((({ s with nameList := m } : Bufmgr).modify b (Bo.toCache time)).setBucket i
      (s.bucketHead i ++ [b])) := by
  have h' : Inv g (s.modify b (Bo.toCache time)) :=
    h.inert (Inert.modify s rfl (Or.inl rfl)) (h.vma.modify rfl rfl rfl)
  have hself : Cached i ((s.modify b (Bo.toCache time)).bos b) := by
    rw [modify_self]
    exact ⟨hb.allocated, hb.unreferenced, hb.unmapped, hb.reusable, hb.size⟩
  have hput := h'.cache.put hX hbX hself
  refine ⟨?_, hput.congr rfl hput.member hput.sized, ⟨nl.erase b, ?_⟩, h'.vma.same rfl rfl rfl rfl rfl rfl⟩
  · have hleft := h'.graph.leave hX hout (by rw [modify_self]; exact hrel)
    exact hleft.congr rfl (fun _ => rfl) (fun _ => rfl) (fun _ => rfl) (fun _ => rfl)
  · refine (hn.unlist hX hbX hb.unreferenced hb.reusable hm hs hf).congr rfl rfl (fun c => ?_) (fun c => ?_)
      (fun c => ?_) (fun c => ?_)
    · exact modify_field Bo.allocated s b c rfl
    · exact modify_field Bo.gemHandle s b c rfl
    · exact iff_of_eq (congrArg (0 < ·) (modify_field Bo.refcount s b c rfl))
    · exact fun hre => (modify_field Bo.reusable s b c rfl).symm.trans hre

/-- The object forgets its relocations, and its mappings are closed. -/
theorem unlink (h : Inv g s) {b : BoId} (hb : b ∈ g.dying) :
    Returns (boUnlink b s) fun s' =>
      Inv g s' ∧ (s'.bos b).relocs = [] ∧ (s'.bos b).mapCount = 0
        ∧ VmaFrame (s.modify b fun bo => bo.clearRelocs.clearMap) s' := by
  obtain ⟨halloc, -⟩ := h.graph.dying b hb
  have hnc := h.cache.notMem_of_dying hb
  obtain ⟨nl, hn⟩ := h.names
  have h₁ : Inv g (s.modify b Bo.clearRelocs) := by
    refine ⟨h.graph.clear hb rfl rfl, ?_, ⟨nl, ?_⟩, h.vma.modify rfl rfl rfl⟩
    · exact h.cache.modify hnc (h.cache.sized b) (fun c hc => Or.inl hc)
    · exact hn.congr rfl rfl (fun c => modify_field Bo.allocated s b c rfl)
        (fun c => modify_field Bo.gemHandle s b c rfl)
        (fun c => iff_of_eq (congrArg (0 < ·) (modify_field Bo.refcount s b c rfl)))
        (fun c hre => (modify_field Bo.reusable s b c rfl).symm.trans hre)
  have halloc₁ : ((s.modify b Bo.clearRelocs).bos b).allocated = true := by
    rw [modify_self]; exact halloc
  unfold boUnlink
  simp only
  split
  · rename_i hm
    obtain ⟨vl, hvl⟩ := h₁.vma.ok
    have hpos : 0 < ((s.modify b Bo.clearRelocs).bos b).mapCount := by
      have := (hvl.obj b).nonneg
      omega
    refine (boCloseVma_spec hvl halloc₁ hpos).mono ?_
    rintro s' ⟨hv', hfr⟩
    have hi₁ : Inert (s.modify b Bo.clearRelocs) ((s.modify b Bo.clearRelocs).modify b Bo.clearMap) :=
      Inert.modify _ rfl (Or.inr hnc)
    have hi := hi₁.trans (Inert.of_vmaFrame hfr)
    have hself := hfr.bos b
    rw [modify_modify, modify_self] at hself
    rw [modify_modify] at hfr
    exact ⟨h₁.inert hi hv', (congrArg Bo.relocs hself :), (congrArg Bo.mapCount hself :), hfr⟩
  · rename_i hm
    have hm : (s.bos b).mapCount = 0 := by
      rw [modify_self] at hm
      exact not_not.mp hm
    have hsame : s.modify b Bo.clearRelocs = s.modify b fun bo => bo.clearRelocs.clearMap :=
      modify_congr s (by simp [Bo.clearMap, Bo.clearRelocs, hm])
    refine .ok ⟨h₁, by rw [modify_self]; rfl, by rw [modify_self]; exact hm, ?_⟩
    rw [hsame]
    exact VmaFrame.refl _

end Inv

/-- What the end of the release of `b` leaves. -/
structure Retired (b : BoId) (s s' : Bufmgr) : Prop where
  rest : s'.shell = s.shell
  gone : (s'.bos b).refcount = 0
  others : ∀ c, c ≠ b → (s'.bos c).unmapAll = (s.bos c).unmapAll
  closes : Closes s s'

theorem Bufmgr.freed_closes (s : Bufmgr) {b : BoId} (hb : (s.bos b).allocated = true) (m : DList.Mem Node) :
    Closes s (s.freed b m) := by
  have hself : ((s.freed b m).bos b) = {} := by simp [Bufmgr.freed]
  have hne : ∀ c, c ≠ b → (s.freed b m).bos c = s.bos c := fun c hc => by simp [Bufmgr.freed, hc]
  refine ⟨fun c hc => ?_, fun c hc => ?_, rfl, fun h => ?_⟩
  · have hcb : c ≠ b := by
      rintro rfl
      rw [hself] at hc
      cases hc
    rw [hne c hcb] at hc ⊢
    exact ⟨hc, rfl⟩
  · by_cases hcb : c = b
    · rw [hcb, hself]
    · rw [hne c hcb]; exact hc
  · by_cases hh : (s.bos b).gemHandle = h
    · refine Or.inr ⟨?_, b, hb, hh, by rw [hself]⟩
      show (s.kernel.close _).objOf h = none
      rw [hh, Kernel.close_self]
    · exact Or.inl (Kernel.close_of_ne (Ne.symm hh))

theorem VmaFrame.shell {s s' : Bufmgr} (h : VmaFrame s s') : s'.shell = s.shell :=
  (congrArg Bufmgr.shell h.rest :)

/-- The release of an object ends in the cache or with its memory freed. -/
theorem boRetire_spec {g : Ghost} {s : Bufmgr} (h : Inv g s) {b : BoId} {X : List BoId}
    (hX : g.dying = b :: X) (hbX : b ∉ X) (hout : g.out b = [])
    (madv : Madvise) (time : Int) :
    Returns (boRetire madv time b s) fun s' => Inv { g with dying := X } s' ∧ Retired b s s' := by
  have hb : b ∈ g.dying := by simp [hX]
  unfold boRetire
  refine (h.unlink hb).bind ?_
  rintro s₁ ⟨h₁, hrel, hmap, hfr⟩
  obtain ⟨halloc, h0⟩ := h₁.graph.dying b hb
  have hnc := h₁.cache.notMem_of_dying hb
  obtain ⟨nl, hn⟩ := h₁.names
  obtain ⟨m, hdel, hm, hs, hf⟩ := hn.list.del
    ((hn.node b halloc).imp_right fun hd => hd.resolve_right fun hdang => hdang.2.1 hb)
  have hothers : ∀ c, c ≠ b → (s₁.bos c).unmapAll = (s.bos c).unmapAll := fun c hc => by
    rw [hfr.bos c, modify_of_ne s hc]
  have hcloses : Closes s s₁ := by
    have hb : ∀ c, (s₁.bos c).unmapAll = ((s.modify b fun bo => bo.clearRelocs.clearMap).bos c).unmapAll := hfr.bos
    refine .of_fields (congrArg Bufmgr.kernel hfr.rest :) (fun c => ?_) (fun c => ?_) (fun c hc => ?_)
    · exact (congrArg Bo.allocated (hb c) :).trans (modify_field Bo.allocated s b c rfl)
    · exact (congrArg Bo.gemHandle (hb c) :).trans (modify_field Bo.gemHandle s b c rfl)
    · exact ((congrArg Bo.refcount (hb c) :).trans (modify_field Bo.refcount s b c rfl)).trans hc
  have hfree : Returns (boFree b { s₁ with nameList := m }) fun s' =>
      Inv { g with dying := X } s' ∧ Retired b s s' := by
    have hXb : ∀ c, c ∈ X ↔ c ∈ g.dying ∧ c ≠ b := by
      intro c
      rw [hX, List.mem_cons]
      constructor
      · exact fun hc => ⟨Or.inr hc, fun e => hbX (e ▸ hc)⟩
      · exact fun ⟨hc, hne⟩ => hc.resolve_left hne
    refine (h₁.free hn halloc h0 hmap hnc hXb hout hrel hm hf).mono ?_
    rintro s' ⟨h', hs', -⟩
    refine ⟨h', ?_, ?_, fun c hc => ?_, ?_⟩
    · rw [hs']; exact hfr.shell
    · rw [hs']; simp [Bufmgr.freed]
    · rw [hs', ← hothers c hc]; simp [Bufmgr.freed, hc]
    · have hname : Closes s₁ { s₁ with nameList := m } := .of_fields rfl (fun _ => rfl) (fun _ => rfl) fun _ h => h
      rw [hs']
      exact (hcloses.trans hname).trans (Bufmgr.freed_closes { s₁ with nameList := m } halloc _)
  simp only [hdel, deref_some, ok_bind]
  unfold boCacheOrFree
  split
  · rename_i i hi
    split
    · rename_i hre
      have hre : (s₁.bos b).reusable = true := by
        simp only [Bool.and_eq_true] at hre
        exact hre.1.2
      have hcached : Cached i (s₁.bos b) := ⟨halloc, h0, hmap, hre, h₁.cache.sized b hre i hi⟩
      refine .ok ⟨h₁.toCache time hn hX hbX hcached hout hrel hm hs hf, ?_, ?_, fun c hc => ?_, ?_⟩
      · exact hfr.shell
      · show ((s₁.modify b _).bos b).refcount = 0
        rw [modify_self]; exact h0
      · show ((s₁.modify b _).bos c).unmapAll = _
        rw [modify_of_ne s₁ hc]; exact hothers c hc
      · refine hcloses.trans (.of_fields rfl (fun c => ?_) (fun c => ?_) (fun c hc => ?_))
        · exact modify_field Bo.allocated s₁ b c rfl
        · exact modify_field Bo.gemHandle s₁ b c rfl
        · exact (modify_field Bo.refcount s₁ b c rfl).trans hc
    · exact hfree
  · exact hfree

/-! ## The cascade -/

namespace Released

variable {r : BoId → Nat} {b : BoId} {out out' : BoId → List BoId} {s s' : Bufmgr}

/-- The edges of one object are left out of the comparison. -/
theorem mask (h : Released r b out out' s s') (d : BoId) :
    Released r b (Function.update out d []) (Function.update out' d []) s s' := by
  have key : ∀ c, out' c = out c → Function.update out' d [] c = Function.update out d [] c := by
    intro c hc
    by_cases hcd : c = d
    · rw [hcd, Function.update_self, Function.update_self]
    · rw [Function.update_of_ne hcd, Function.update_of_ne hcd, hc]
  exact ⟨h.rest, h.mono, fun c hc => ⟨key c (h.live c hc).1, (h.live c hc).2⟩,
    fun c hc => ⟨key c (h.high c hc).1, (h.high c hc).2⟩, h.closes⟩

theorem refl (r : BoId → Nat) (b : BoId) (out : BoId → List BoId) (s : Bufmgr) : Released r b out out s s :=
  ⟨rfl, fun _ => le_rfl, fun _ _ => ⟨rfl, rfl⟩, fun _ _ => ⟨rfl, rfl⟩, Closes.refl s⟩

end Released

/-- A reference on `b` that is in flight may be dropped. -/
structure CanDrop (g : Ghost) (b : BoId) (s : Bufmgr) : Prop where
  inv : Inv g s
  /-- whatever is being released stands above `b` -/
  above : ∀ c ∈ g.dying, g.rank b < g.rank c
  /-- the edges below `b` are those in memory -/
  agree : ∀ c, g.rank c ≤ g.rank b → g.out c = (s.bos c).targets

/-- The edges of the objects below `b` are those in memory, also after some of them were released. -/
theorem agree_of_released {g g' : Ghost} {b : BoId} {s s' : Bufmgr} (hagree : ∀ c, g.rank c < g.rank b →
      g.out c = (s.bos c).targets) (h' : Inv g' s') (hX : ∀ c ∈ g'.dying, g.rank b ≤ g.rank c)
    (hrel : Released g.rank b (Function.update g.out b []) (Function.update g'.out b []) s s') :
    ∀ c, g.rank c < g.rank b → g'.out c = (s'.bos c).targets := by
  intro c hc
  have hcb : c ≠ b := by
    rintro rfl
    exact absurd hc (lt_irrefl _)
  by_cases hpos : 0 < (s'.bos c).refcount
  · obtain ⟨ho, hf⟩ := hrel.live c hpos
    rw [Function.update_of_ne hcb, Function.update_of_ne hcb] at ho
    rw [ho, hagree c hc]
    exact congrArg (List.map Reloc.target) (congrArg Bo.relocs hf.symm :)
  · have hnd : c ∉ g'.dying := fun hin => absurd (hX c hin) (not_le.mpr hc)
    obtain ⟨ho, hl⟩ := h'.graph.dead c (by omega) hnd
    rw [ho, Bo.targets, hl]
    rfl

/-- What dropping a reference on `b` does, for a ghost state with `b` in flight. -/
def DropSpec (f : BoId → Bufmgr → Except Fault Bufmgr) (k : Nat) : Prop :=
  ∀ (g : Ghost) (b : BoId) (P : List BoId) (s : Bufmgr), CanDrop g b s → g.pend = b :: P → g.rank b < k →
    Returns (f b s) fun s' =>
      ∃ out', Inv { g with pend := P, out := out' } s' ∧ Released g.rank b g.out out' s s'

section Final

variable {g : Ghost} {b : BoId} {P X : List BoId} {s : Bufmgr}
variable {unref : BoId → Bufmgr → Except Fault Bufmgr} {k : Nat}

/-- The loop over the relocations `todo` of `b`: when it ends, only the edges `keep`
count.  Between the releases the fence count of `b` may be written to. -/
theorem dropTargets_spec (keep : List BoId) (adj : BoId → Bufmgr → Bufmgr) {todo : List BoId}
    (hunref : DropSpec unref k) (h : Inv g s) (hk : g.rank b ≤ k) (habove : ∀ c ∈ g.dying, g.rank b ≤ g.rank c)
    (hself : g.out b = keep ++ todo) (hagree : ∀ c, g.rank c < g.rank b → g.out c = (s.bos c).targets)
    (hadj : ∀ t s, ∃ n, adj t s = s.modify b (Bo.setFences n)) :
    Returns (todo.foldlM (fun s t => if t = b then .ok s else unref t (adj t s)) s) fun s' =>
      ∃ out', out' b = keep ∧ Inv { g with out := out' } s'
        ∧ Released g.rank b (Function.update g.out b []) (Function.update out' b []) s s' := by
  -- `rest` are the targets that are still to be dropped
  have hloop := Returns.foldlM (ε := Fault) (l := todo) (s := s)
    (f := fun s t => if t = b then .ok s else unref t (adj t s))
    (I := fun done s' => ∃ out' rest, todo = done ++ rest ∧ out' b = keep ++ rest
      ∧ Inv { g with out := out' } s'
      ∧ Released g.rank b (Function.update g.out b []) (Function.update out' b []) s s')
    ⟨g.out, todo, rfl, hself, h, Released.refl ..⟩ ?_
  · refine hloop.mono ?_
    rintro s' ⟨out', rest, hrest, hb', h', hrel⟩
    have hnil : rest = [] := by simpa using hrest
    exact ⟨out', by rw [hb', hnil, List.append_nil], h', hrel⟩
  · rintro done t rest s₁ hts ⟨out₁, rest₁, hrest₁, hb₁, h₁, hrel₁⟩
    have hb₁ : out₁ b = keep ++ t :: rest := by
      rw [hb₁, List.append_cancel_left (hrest₁.symm.trans hts)]
    have hshift := h₁.shift (d := b) hb₁
    have hmask : Function.update (Function.update out₁ b (keep ++ rest)) b [] = Function.update out₁ b [] :=
      Function.update_idem ..
    by_cases htb : t = b
    · -- a self relocation holds no reference
      simp only [if_pos htb] at hshift ⊢
      refine .ok ⟨Function.update out₁ b (keep ++ rest), rest, by simp [hts], by simp, hshift, ?_⟩
      rw [hmask]
      exact hrel₁
    · simp only [if_neg htb] at hshift ⊢
      have hlt : g.rank t < g.rank b :=
        h.graph.ranked b t ⟨by rw [hself, hts]; simp, htb⟩
      obtain ⟨n, hn⟩ := hadj t s₁
      have hset : ∀ c, ((s₁.modify b (Bo.setFences n)).bos c).frozen = (s₁.bos c).frozen
          ∧ ((s₁.modify b (Bo.setFences n)).bos c).refcount = (s₁.bos c).refcount := by
        intro c
        rw [modify_bos]
        split
        · rename_i hcb; rw [hcb]; exact ⟨rfl, rfl⟩
        · exact ⟨rfl, rfl⟩
      have hcan : CanDrop { g with out := Function.update out₁ b (keep ++ rest), pend := t :: g.pend } t
          (s₁.modify b (Bo.setFences n)) := by
        refine ⟨hshift.inert (Inert.modify s₁ rfl (Or.inl rfl)) (h₁.vma.modify rfl rfl rfl),
          fun c hc => lt_of_lt_of_le hlt (habove c hc), fun c hc => ?_⟩
        have hcb : c ≠ b := by
          rintro rfl
          exact absurd hc (not_le.mpr hlt)
        show Function.update out₁ b (keep ++ rest) c = _
        rw [Function.update_of_ne hcb, modify_of_ne s₁ hcb]
        exact agree_of_released hagree h₁ habove hrel₁ c (lt_of_le_of_lt hc hlt)
      rw [hn]
      refine (hunref _ t g.pend _ hcan rfl (lt_of_lt_of_le hlt hk)).mono ?_
      rintro s₂ ⟨out₂, h₂, hrel₂⟩
      have hb₂ : out₂ b = keep ++ rest := by
        rw [(hrel₂.high b hlt).1]
        simp
      have hmasked := (hrel₂.lower hlt.le).mask b
      simp only [hmask] at hmasked
      have hfences : Released g.rank b (Function.update out₁ b []) (Function.update out₁ b []) s₁
          (s₁.modify b (Bo.setFences n)) := by
        refine ⟨rfl, fun c => (hset c).2.le, fun c _ => ⟨rfl, (hset c).1⟩, fun c hc => ⟨rfl, ?_⟩, ?_⟩
        · rw [modify_of_ne]
          rintro rfl
          exact absurd hc (lt_irrefl _)
        · exact .of_fields rfl (fun c => (congrArg Bo.allocated (hset c).1 :))
            (fun c => (congrArg Bo.gemHandle (hset c).1 :)) fun c hc => (hset c).2.trans hc
      exact ⟨out₂, rest, by simp [hts], hb₂, h₂, (hrel₁.trans hfences).trans hmasked⟩

/-- The release of an object whose last reference was dropped. -/
theorem boUnreferenceFinal_spec (hunref : DropSpec unref k) (hcan : CanDrop g b s)
    (hp : g.pend = b :: P) (h1 : (s.bos b).refcount = 1) (hk : g.rank b ≤ k) (madv : Madvise) (time : Int) :
    Returns (boUnreferenceFinal unref madv time b (s.modify b Bo.decRef)) fun s' =>
      ∃ out', Inv { g with pend := P, out := out' } s' ∧ Released g.rank b g.out out' s s' := by
  have hdie := hcan.inv.die hp h1
  have hbd : b ∉ g.dying := hcan.inv.graph.notMem_dying (by omega)
  have hmod : ∀ c, c ≠ b → (s.modify b Bo.decRef).bos c = s.bos c := fun c hc => modify_of_ne s hc _
  have htargets : ∀ c, ((s.modify b Bo.decRef).bos c).targets = (s.bos c).targets := by
    intro c
    rw [modify_bos]
    split
    · rename_i hcb; rw [hcb]; rfl
    · rfl
  unfold boUnreferenceFinal
  refine (dropTargets_spec [] (fun _ s => s) hunref hdie hk ?_ ?_ ?_ ?_).bind ?_
  · intro c hc
    rcases List.mem_cons.mp hc with rfl | hc
    · exact le_rfl
    · exact (hcan.above c hc).le
  · rw [htargets, List.nil_append]
    exact hcan.agree b le_rfl
  · intro c hc
    rw [htargets]
    exact hcan.agree c hc.le
  · exact fun _ s => ⟨(s.bos b).relocTreeFences, by simp [Bufmgr.modify, Bo.setFences]⟩
  rintro s₁ ⟨out₁, hb₁, h₁, hrel₁⟩
  refine (boRetire_spec h₁ rfl hbd hb₁ madv time).mono ?_
  rintro s' ⟨h', hret⟩
  have hout : ∀ c, c ≠ b → Function.update out₁ b [] c = Function.update g.out b [] c → out₁ c = g.out c :=
    fun c hc he => by rwa [Function.update_of_ne hc, Function.update_of_ne hc] at he
  have href : ∀ c, c ≠ b → (s'.bos c).refcount = (s₁.bos c).refcount := fun c hc =>
    (congrArg Bo.refcount (hret.others c hc) :)
  refine ⟨out₁, h', ⟨hret.rest.trans hrel₁.rest, fun c => ?_, fun c hc => ?_, fun c hc => ?_, ?_⟩⟩
  · by_cases hcb : c = b
    · rw [hcb, hret.gone]; exact Nat.zero_le _
    · rw [href c hcb, ← hmod c hcb]; exact hrel₁.mono c
  · have hcb : c ≠ b := by
      rintro rfl
      rw [hret.gone] at hc
      exact absurd hc (lt_irrefl 0)
    rw [href c hcb] at hc
    obtain ⟨ho, hf⟩ := hrel₁.live c hc
    rw [hmod c hcb] at hf
    exact ⟨hout c hcb ho, (congrArg Bo.frozen (hret.others c hcb) :).trans hf⟩
  · have hcb : c ≠ b := by
      rintro rfl
      exact absurd hc (lt_irrefl _)
    obtain ⟨ho, hf⟩ := hrel₁.high c hc
    rw [hmod c hcb] at hf
    exact ⟨hout c hcb ho, (hret.others c hcb).trans hf⟩
  · exact ((Closes.decRef s b).trans hrel₁.closes).trans hret.closes

end Final

/-- With fuel for the rank of the object the recursion returns. -/
theorem boUnreferenceLockedTimed_spec (madv : Madvise) (time : Int) :
    ∀ k, DropSpec (boUnreferenceLockedTimed madv time k) k := by
  intro k
  induction k with
  | zero => intro g b P s _ _ hk; exact absurd hk (Nat.not_lt_zero _)
  | succ k ih =>
      intro g b P s hcan hp hk
      have hpos := hcan.inv.graph.pos_of_pend (b := b) (by simp [hp])
      simp only [boUnreferenceLockedTimed, hpos, decide_true, assert_true, ok_bind]
      split
      · rename_i h1
        exact boUnreferenceFinal_spec ih hcan hp h1 (Nat.le_of_lt_succ hk) madv time
      · rename_i hne
        refine .ok ⟨g.out, hcan.inv.drop hp hne, rfl, fun c => ?_, fun c _ => ⟨rfl, ?_⟩, fun c hc => ⟨rfl, ?_⟩,
          Closes.decRef s b⟩
        · rw [modify_bos]
          split
          · rename_i hcb; rw [hcb]; exact Nat.sub_le _ _
          · exact le_rfl
        · rw [modify_bos]
          split
          · rename_i hcb; rw [hcb]; rfl
          · rfl
        · rw [modify_of_ne]
          rintro rfl
          exact absurd hc (lt_irrefl _)

/-! ## Freeing cached objects -/

/-- The handles of the list are closed, in any order. -/
def Kernel.closeAll (k : Kernel) (l : List Handle) : Kernel :=
  { k with objOf := fun h => if h ∈ l then none else k.objOf h }

@[simp] theorem Kernel.closeAll_nil (k : Kernel) : k.closeAll [] = k := by simp [Kernel.closeAll]

theorem Kernel.closeAll_append (k : Kernel) (l l' : List Handle) :
    (k.closeAll l).closeAll l' = k.closeAll (l ++ l') := by
  simp only [Kernel.closeAll, List.mem_append, Kernel.mk.injEq, and_true]
  funext h
  by_cases hl : h ∈ l <;> by_cases hl' : h ∈ l' <;> simp [hl, hl']

theorem Kernel.close_eq_closeAll (k : Kernel) (h : Handle) : k.close h = k.closeAll [h] := by
  simp only [Kernel.close, Kernel.closeAll, List.mem_singleton, Kernel.mk.injEq, and_true]
  funext h'
  rw [Function.update_apply]

/-- What freeing the objects `D`, which are in the cache, leaves: all that is referenced. -/
structure Swept (D : List BoId) (s s' : Bufmgr) : Prop where
  rest : s'.shell = s.shell
  freed : ∀ c ∈ D, (s.bos c).allocated = true
  kernel : s'.kernel = s.kernel.closeAll (D.map fun c => (s.bos c).gemHandle)
  live : ∀ c, 0 < (s.bos c).refcount → s'.bos c = s.bos c
  closes : Closes s s'
  names : ∀ nl, OnList s.nameList nl → OnList s'.nameList nl
  vmas : ∀ vl, OnList s.vmaList vl → OnList s'.vmaList (vl.filter fun c => decide (c ∉ D))

namespace Swept

variable {D D' : List BoId} {s s' s'' : Bufmgr}

theorem dead (h : Swept D s s') (c : BoId) (hc : (s.bos c).refcount = 0) : (s'.bos c).refcount = 0 :=
  h.closes.dead c hc

/-- Objects without references may be written to, and moved between buckets. -/
theorem of_same (hr : s'.shell = s.shell) (hk : s'.kernel = s.kernel)
    (hl : ∀ c, 0 < (s.bos c).refcount → s'.bos c = s.bos c)
    (hc : Closes s s') (hn : s'.nameList = s.nameList) (hv : s'.vmaList = s.vmaList) : Swept [] s s' := by
  refine ⟨hr, fun c hin => absurd hin List.not_mem_nil, by rw [List.map_nil, Kernel.closeAll_nil, hk], hl, hc,
    fun nl h => hn ▸ h, fun vl h => ?_⟩
  rw [hv]
  simpa using h

theorem refl (s : Bufmgr) : Swept [] s s := of_same rfl rfl (fun _ _ => rfl) (Closes.refl s) rfl rfl

theorem trans (h₁ : Swept D s s') (h₂ : Swept D' s' s'') : Swept (D ++ D') s s'' := by
  refine ⟨h₂.rest.trans h₁.rest, fun c hc => ?_, ?_, fun c hc => ?_, h₁.closes.trans h₂.closes,
    fun nl hnl => h₂.names nl (h₁.names nl hnl), fun vl hvl => ?_⟩
  · exact (List.mem_append.mp hc).elim (h₁.freed c) fun hc => (h₁.closes.old c (h₂.freed c hc)).1
  · have hsame : D'.map (fun c => (s'.bos c).gemHandle) = D'.map fun c => (s.bos c).gemHandle :=
      List.map_congr_left fun c hc => (h₁.closes.old c (h₂.freed c hc)).2
    rw [h₂.kernel, h₁.kernel, hsame, Kernel.closeAll_append, List.map_append]
  · have h := h₁.live c hc
    rw [h₂.live c (by rw [h]; exact hc), h]
  · have h := h₂.vmas _ (h₁.vmas vl hvl)
    rw [List.filter_filter] at h
    rwa [List.filter_congr fun c _ => show decide (c ∉ D ++ D') = (decide (c ∉ D') && decide (c ∉ D)) by
      simp [List.mem_append, not_or, Bool.and_comm]]

theorem setBucket (s : Bufmgr) (i : Nat) (l : List BoId) : Swept [] s (s.setBucket i l) :=
  of_same rfl rfl (fun _ _ => rfl) (.of_fields rfl (fun _ => rfl) (fun _ => rfl) fun _ h => h) rfl rfl

/-- An object without references is written to. -/
theorem modify (s : Bufmgr) {b : BoId} {f : Bo → Bo} (hb : (s.bos b).refcount = 0)
    (hk : (f (s.bos b)).key = (s.bos b).key) : Swept [] s (s.modify b f) := by
  refine of_same rfl rfl (fun c hc => modify_of_ne s (fun e => ?_) f) (.of_fields rfl (fun c => ?_) (fun c => ?_) ?_)
    rfl rfl
  · rw [e] at hc; omega
  · exact modify_field Bo.allocated s b c (congrArg Bo.allocated hk :)
  · exact modify_field Bo.gemHandle s b c (congrArg Bo.gemHandle hk :)
  · intro c hc
    exact (modify_field Bo.refcount s b c (congrArg Bo.refcount hk :)).trans hc

end Swept

theorem Inv.setBucket {g : Ghost} {s : Bufmgr} (h : Inv g s) {i : Nat} {l : List BoId}
    (hl : l.Sublist (s.bucketHead i)) : Inv g (s.setBucket i l) := by
  obtain ⟨nl, hn⟩ := h.names
  exact ⟨h.graph.congr rfl (fun _ => rfl) (fun _ => rfl) (fun _ => rfl) (fun _ => rfl), h.cache.take hl,
    ⟨nl, hn.congr rfl rfl (fun _ => rfl) (fun _ => rfl) (fun _ => Iff.rfl) fun _ hre => hre⟩,
    h.vma.same rfl rfl rfl rfl rfl rfl⟩

/-- An object that was taken off its bucket is freed. -/
theorem Inv.freeCached {g : Ghost} {s : Bufmgr} (h : Inv g s) {b : BoId}
    (hb : (s.bos b).allocated = true) (h0 : (s.bos b).refcount = 0) (hmap : (s.bos b).mapCount = 0)
    (hbd : b ∉ g.dying) (hc : ∀ i, b ∉ s.bucketHead i) :
    Returns (boFree b s) fun s' => Inv g s' ∧ Swept [b] s s' ∧ s'.bucketHead = s.bucketHead
      ∧ ∀ c, c ≠ b → s'.bos c = s.bos c := by
  obtain ⟨nl, hn⟩ := h.names
  have hnb := hn.notMem_of_unreferenced h0 hbd
  obtain ⟨hout, hrel⟩ := h.graph.dead b h0 hbd
  refine (h.free (X := g.dying) (m := s.nameList) hn hb h0 hmap hc (fun c => ?_) hout hrel ?_
    (fun c _ => rfl)).mono ?_
  · exact ⟨fun hin => ⟨hin, fun e => hbd (e ▸ hin)⟩, And.left⟩
  · rw [List.erase_of_not_mem hnb]
    exact hn.list
  rintro s' ⟨h', hs', hvl⟩
  have hother : ∀ c, c ≠ b → s'.bos c = s.bos c := fun c hc => by rw [hs']; simp [Bufmgr.freed, hc]
  refine ⟨h', ⟨by rw [hs']; rfl, fun c hc => List.mem_singleton.mp hc ▸ hb, ?_, fun c hc => hother c ?_, ?_,
    fun l hl => ?_, fun l hl => ?_⟩, by rw [hs']; rfl, hother⟩
  · rw [hs']
    exact Kernel.close_eq_closeAll ..
  · rintro rfl
    omega
  · rw [hs']; exact s.freed_closes hb _
  · rw [hs', hl.unique hn.list]; exact hn.list.free hnb
  · have h := hvl l hl
    rw [hl.nodup.erase_eq_filter] at h
    rwa [List.filter_congr fun c _ => show decide (c ∉ [b]) = (c != b) by
      by_cases hcb : c = b <;> simp [hcb]]

/-- The head of a bucket, or its tail, is taken off. -/
theorem CacheOk.notMem_of_take {X : List BoId} {s : Bufmgr} (h : CacheOk X s) {i : Nat} {b : BoId}
    {l : List BoId} (hb : b ∈ s.bucketHead i) (hl : b ∉ l) (j : Nat) :
    b ∉ (s.setBucket i l).bucketHead j := by
  simp only [Bufmgr.setBucket, Function.update_apply]
  split
  · exact hl
  · rename_i hji
    exact fun hin => hji (h.unique hin hb)

/-- The first object of a bucket is freed. -/
theorem Inv.freeHead {g : Ghost} {s : Bufmgr} (h : Inv g s) {i : Nat} {b : BoId} {l : List BoId}
    (hl : s.bucketHead i = b :: l) :
    Returns (boFree b (s.setBucket i l)) fun s' => Inv g s' ∧ Swept [b] s s'
      ∧ s'.bucketHead = Function.update s.bucketHead i l ∧ ∀ c, c ≠ b → s'.bos c = s.bos c := by
  have hb : b ∈ s.bucketHead i := by simp [hl]
  have hbl : b ∉ l := (List.nodup_cons.mp (hl ▸ h.cache.nodup i)).1
  obtain ⟨hc, hbd⟩ := h.cache.member i b hb
  have h' := h.setBucket (i := i) (l := l) (hl ▸ List.sublist_cons_self b l)
  refine (h'.freeCached hc.allocated hc.unreferenced hc.unmapped hbd
    (h.cache.notMem_of_take hb hbl)).mono ?_
  rintro s' ⟨hs', hsw, hbk, hbos⟩
  exact ⟨hs', (Swept.setBucket s i l).trans hsw, hbk, hbos⟩

/-- The stale objects at the front of a bucket are freed, and nothing else. -/
theorem dropStale_spec {g : Ghost} (stale : BoId → Bo → Bool) (i : Nat) :
    ∀ (l : List BoId) (s : Bufmgr), s.bucketHead i = l → Inv g s →
      Returns (dropStale stale i l s) fun s' => Inv g s'
        ∧ Swept (l.takeWhile fun b => stale b (s.bos b)) s s'
        ∧ s'.bucketHead = Function.update s.bucketHead i (l.dropWhile fun b => stale b (s.bos b))
        ∧ ∀ c, c ∉ l.takeWhile (fun b => stale b (s.bos b)) → s'.bos c = s.bos c
  | [], s, hl, h => by
      refine .ok ⟨h, Swept.refl s, ?_, fun _ _ => rfl⟩
      rw [List.dropWhile_nil, ← hl, Function.update_eq_self]
  | b :: l, s, hl, h => by
      unfold dropStale
      split
      · rename_i hst
        refine (h.freeHead hl).bind ?_
        rintro s₁ ⟨h₁, hsw₁, hbk₁, hbos₁⟩
        have hl₁ : s₁.bucketHead i = l := by rw [hbk₁, Function.update_self]
        have hbl : b ∉ l := (List.nodup_cons.mp (hl ▸ h.cache.nodup i)).1
        have hstale : ∀ c ∈ l, stale c (s₁.bos c) = stale c (s.bos c) := fun c hc => by
          rw [hbos₁ c fun e => hbl (e ▸ hc)]
        obtain ⟨htake, hdrop⟩ := takeWhile_congr hstale
        refine (dropStale_spec stale i l s₁ hl₁ h₁).mono ?_
        rintro s' ⟨h', hsw, hbk, hbos⟩
        rw [htake] at hsw hbos
        rw [hdrop] at hbk
        simp only [List.takeWhile_cons, List.dropWhile_cons, hst, if_true]
        refine ⟨h', hsw₁.trans hsw, by rw [hbk, hbk₁, Function.update_idem], fun c hc => ?_⟩
        rw [List.mem_cons, not_or] at hc
        rw [hbos c hc.2, hbos₁ c hc.1]
      · rename_i hst
        simp only [List.takeWhile_cons, List.dropWhile_cons, hst, if_false, Bool.false_eq_true]
        exact .ok ⟨h, Swept.refl s, by rw [← hl, Function.update_eq_self], fun _ _ => rfl⟩

/-- The objects of a bucket that `cleanup_bo_cache` frees. -/
def expiredIn (time : Int) (s : Bufmgr) (i : Nat) : List BoId :=
  (s.bucketHead i).takeWhile fun b => expired time b (s.bos b)

/-- All the objects that it frees. -/
def expiredBos (time : Int) (s : Bufmgr) : List BoId :=
  if s.time = time then [] else (List.range cacheBucketSizes.length).flatMap (expiredIn time s)

theorem cleanupBoCache_spec {g : Ghost} {s : Bufmgr} (h : Inv g s) (time : Int) :
    Returns (cleanupBoCache time s) fun s' => Inv g s' ∧ Swept (expiredBos time s) s s' := by
  unfold cleanupBoCache expiredBos
  split
  · exact .ok ⟨h, Swept.refl s⟩
  -- the buckets that are still to be visited, and their objects, are as before
  refine (Returns.foldlM (I := fun done s' => Inv g s' ∧ Swept (done.flatMap (expiredIn time s)) s s'
    ∧ (∀ j, j ∉ done → s'.bucketHead j = s.bucketHead j)
    ∧ ∀ c, c ∉ done.flatMap (expiredIn time s) → s'.bos c = s.bos c)
    ⟨h, Swept.refl s, fun _ _ => rfl, fun _ _ => rfl⟩ ?_).bind ?_
  · rintro done i rest s₁ hl ⟨h₁, hsw₁, hbk₁, hbos₁⟩
    have hnd : (done ++ i :: rest).Nodup := hl ▸ List.nodup_range
    have hi : i ∉ done := fun hin => (List.nodup_append.mp hnd).2.2 i hin i (by simp) rfl
    have hsame : ∀ c ∈ s.bucketHead i, s₁.bos c = s.bos c := fun c hc => hbos₁ c fun hin => by
      obtain ⟨j, hj, hcj⟩ := List.mem_flatMap.mp hin
      exact hi (h.cache.unique hc ((List.takeWhile_prefix _).subset hcj) ▸ hj)
    have hlist : s₁.bucketHead i = s.bucketHead i := hbk₁ i hi
    have hexp : (s₁.bucketHead i).takeWhile (fun b => expired time b (s₁.bos b)) = expiredIn time s i := by
      rw [hlist, expiredIn]
      exact (takeWhile_congr fun c hc => by rw [hsame c hc]).1
    refine (dropStale_spec (expired time) i _ s₁ rfl h₁).mono ?_
    rintro s₂ ⟨h₂, hsw₂, hbk₂, hbos₂⟩
    rw [hexp] at hsw₂ hbos₂
    rw [List.flatMap_append, List.flatMap_singleton]
    refine ⟨h₂, hsw₁.trans hsw₂, fun j hj => ?_, fun c hc => ?_⟩
    · rw [List.mem_append, not_or, List.mem_singleton] at hj
      rw [hbk₂, Function.update_of_ne hj.2, hbk₁ j hj.1]
    · rw [List.mem_append, not_or] at hc
      rw [hbos₂ c hc.2, hbos₁ c hc.1]
  · rintro s₁ ⟨h₁, hsw₁, -, -⟩
    have hi : Inert s₁ { s₁ with time := time } := ⟨fun _ => rfl, fun _ _ _ => rfl, rfl, rfl, rfl, rfl⟩
    exact .pure ⟨h₁.inert hi (h₁.vma.same rfl rfl rfl rfl rfl rfl),
      ⟨hsw₁.rest, hsw₁.freed, hsw₁.kernel, hsw₁.live, hsw₁.closes.trans (.of_fields rfl (fun _ => rfl) (fun _ => rfl) fun _ h => h),
        hsw₁.names, hsw₁.vmas⟩⟩

/-! ## Between calls -/

/-- The ghost state when no call is under way. -/
def idle (E : BoId → Prop) (callers : BoId → Nat) (r : BoId → Nat) (s : Bufmgr) : Ghost :=
  ⟨callers, [], fun b => (s.bos b).targets, r, [], E⟩

/-- The invariant of the manager between calls; `callers` counts the references of the callers. -/
def Settled (E : BoId → Prop) (callers : BoId → Nat) (s : Bufmgr) : Prop :=
  ∃ r, Inv (idle E callers r s) s

/-- A rank never needs to exceed the number of objects. -/
theorem Inv.bounded {g : Ghost} {s : Bufmgr} (h : Inv g s) :
    ∃ r, Inv { g with rank := r } s ∧ ∀ b, r b ≤ s.nextBo := by
  obtain ⟨r, hr, hle⟩ := h.graph.ranked.bounded (S := Finset.range s.nextBo) fun a b he =>
    Finset.mem_range.mpr (h.graph.lt_nextBo (h.graph.alloc_of_pos (h.graph.target_pos he)))
  refine ⟨r, ⟨?_, h.cache, h.names, h.vma⟩, fun b => by simpa using hle b⟩
  exact ⟨h.graph.fresh, h.graph.unalloc, hr, h.graph.used, h.graph.count, h.graph.dead, h.graph.dying⟩

/-- A step that changes no edge keeps the manager settled. -/
theorem Settled.of_inv {E : BoId → Prop} {callers r : BoId → Nat} {s : Bufmgr} {g : Ghost} (h : Inv g s)
    (hg : g = ⟨callers, [], g.out, r, [], E⟩) (hout : ∀ c, g.out c = (s.bos c).targets) :
    Settled E callers s := by
  refine ⟨r, ?_⟩
  have : g = idle E callers r s := by
    rw [hg]
    simp only [idle, Ghost.mk.injEq, true_and, and_true]
    exact funext hout
  exact this ▸ h

theorem Settled.inert {E : BoId → Prop} {callers : BoId → Nat} {s s' : Bufmgr} (h : Settled E callers s)
    (hi : Inert s s') (hv : VmaInv s') : Settled E callers s' := by
  obtain ⟨r, h⟩ := h
  refine .of_inv (h.inert hi hv) rfl fun c => ?_
  show (s.bos c).targets = _
  rw [Bo.targets, Bo.targets, hi.relocs]

theorem Settled.vma {E : BoId → Prop} {callers : BoId → Nat} {s : Bufmgr} (h : Settled E callers s) :
    VmaInv s := h.elim fun _ hr => hr.vma

theorem Settled.swept {E : BoId → Prop} {callers r : BoId → Nat} {D : List BoId} {s s' : Bufmgr}
    (h : Inv (idle E callers r s) s) (h' : Inv (idle E callers r s) s') (hsw : Swept D s s') :
    Settled E callers s' := by
  refine .of_inv h' rfl fun c => ?_
  by_cases hc : (s.bos c).refcount = 0
  · have hd := h.graph.dead c hc (by simp [idle])
    have hd' := h'.graph.dead c (hsw.dead c hc) (by simp [idle])
    rw [hd.1, Bo.targets, hd'.2]
    rfl
  · show (s.bos c).targets = _
    rw [hsw.live c (Nat.pos_of_ne_zero hc)]

/-- What dropping a reference leaves to the live objects. -/
structure Dropped (s s' : Bufmgr) : Prop where
  rest : s'.shell = s.shell
  mono : ∀ c, (s'.bos c).refcount ≤ (s.bos c).refcount
  live : ∀ c, 0 < (s'.bos c).refcount → (s'.bos c).frozen = (s.bos c).frozen
  closes : Closes s s'

theorem Released.dropped {r : BoId → Nat} {b : BoId} {out out' : BoId → List BoId} {s s' : Bufmgr}
    (h : Released r b out out' s s') : Dropped s s' :=
  ⟨h.rest, h.mono, fun c hc => (h.live c hc).2, h.closes⟩

theorem Dropped.swept {D : List BoId} {s s' s'' : Bufmgr} (h : Dropped s s') (hsw : Swept D s' s'') :
    Dropped s s'' := by
  have hpos : ∀ c, 0 < (s''.bos c).refcount → s''.bos c = s'.bos c := fun c hc =>
    hsw.live c (Nat.pos_of_ne_zero fun h0 => by have := hsw.dead c h0; omega)
  refine ⟨hsw.rest.trans h.rest, fun c => ?_, fun c hc => ?_, h.closes.trans hsw.closes⟩
  · by_cases hc : 0 < (s''.bos c).refcount
    · rw [hpos c hc]; exact h.mono c
    · omega
  · have e := hpos c hc
    rw [e] at hc ⊢
    exact h.live c hc

/-- The edges that count after a release are those in memory. -/
theorem Settled.of_released {E : BoId → Prop} {callers r : BoId → Nat} {b : BoId}
    {out' : BoId → List BoId} {s s' : Bufmgr} (h' : Inv ⟨callers, [], out', r, [], E⟩ s')
    (hrel : Released r b (fun c => (s.bos c).targets) out' s s') : Settled E callers s' := by
  refine .of_inv h' rfl fun c => ?_
  show out' c = _
  by_cases hpos : 0 < (s'.bos c).refcount
  · obtain ⟨ho, hf⟩ := hrel.live c hpos
    rw [ho]
    exact congrArg (List.map Reloc.target) (congrArg Bo.relocs hf.symm :)
  · obtain ⟨ho, hl⟩ := h'.graph.dead c (by omega) (by simp)
    rw [show out' c = [] from ho, Bo.targets, show (s'.bos c).relocs = [] from hl]
    rfl

/-- The references of the callers after one of them, on `b`, was given up. -/
def giveUp (callers : BoId → Nat) (b : BoId) : BoId → Nat := Function.update callers b (callers b - 1)

/-- ... and after a caller got one. -/
def take (callers : BoId → Nat) (b : BoId) : BoId → Nat := Function.update callers b (callers b + 1)

/-- A caller gives up a reference, at rest in the cascade's fuel `nextBo + 1`. -/
theorem Settled.canDrop {E : BoId → Prop} {callers : BoId → Nat} {s : Bufmgr} (h : Settled E callers s)
    {b : BoId} (hb : 0 < callers b) :
    ∃ r, CanDrop { idle E callers r s with callers := giveUp callers b, pend := [b] } b s
      ∧ r b ≤ s.nextBo := by
  obtain ⟨r₀, h₀⟩ := h
  obtain ⟨r, h, hle⟩ := h₀.bounded
  refine ⟨r, ⟨h.handOver hb, ?_, fun _ _ => rfl⟩, hle b⟩
  intro c hc
  simp [idle] at hc

/-- The lock is no part of the invariant. -/
theorem Settled.setLock {E : BoId → Prop} {callers : BoId → Nat} {s : Bufmgr} (h : Settled E callers s)
    (l : Bool) : Settled E callers { s with lock := l } := by
  obtain ⟨r, hr⟩ := h
  have hi : Inert s { s with lock := l } := ⟨fun _ => rfl, fun _ _ _ => rfl, rfl, rfl, rfl, rfl⟩
  exact ⟨r, hr.inert hi (hr.vma.setLock l)⟩

/-- What was done under the lock, seen from outside. -/
theorem Dropped.unlock {s s' : Bufmgr} (h : Dropped { s with lock := true } s') (hlock : s.lock = false) :
    Dropped s { s' with lock := false } := by
  refine ⟨?_, h.mono, h.live, ⟨h.closes.old, h.closes.dead, h.closes.status, h.closes.handles⟩⟩
  have hs : { s.shell with lock := false } = s.shell := by
    show { s.shell with lock := false } = { s.shell with lock := s.lock }
    rw [hlock]
  exact (congrArg (fun t : Bufmgr => { t with lock := false }) h.rest :).trans hs

/-- A reference that is not the last one. -/
theorem Dropped.decRef (s : Bufmgr) (b : BoId) : Dropped s (s.modify b Bo.decRef) := by
  refine ⟨rfl, fun c => ?_, fun c _ => ?_, Closes.decRef s b⟩
  · rw [modify_bos]
    split
    · rename_i hcb; rw [hcb]; exact Nat.sub_le _ _
    · exact le_rfl
  · rw [modify_bos]
    split
    · rename_i hcb; rw [hcb]; rfl
    · rfl

section Unreference

variable {E : BoId → Prop} {callers : BoId → Nat} {s : Bufmgr} {b : BoId}

theorem Settled.decRef (h : Settled E callers s) (hb : 0 < callers b)
    (hne : (s.bos b).refcount ≠ 1) : Settled E (giveUp callers b) (s.modify b Bo.decRef) := by
  obtain ⟨r, hcan, -⟩ := h.canDrop hb
  refine .of_inv (hcan.inv.drop rfl hne) rfl fun c => ?_
  show (s.bos c).targets = _
  rw [modify_bos]
  split
  · rename_i hcb; rw [hcb]; rfl
  · rfl

theorem boUnreferenceSlow_spec (h : Settled E callers s) (hlock : s.lock = false) (hb : 0 < callers b)
    (madv : Madvise) (time : Int) :
    Returns (boUnreferenceSlow madv time b s) fun s' =>
      Settled E (giveUp callers b) s' ∧ Dropped s s' := by
  unfold boUnreferenceSlow
  refine Bufmgr.locked_returns hlock ?_
  obtain ⟨r, hcan, hle⟩ := (h.setLock true).canDrop hb
  split
  · rename_i h1
    refine (boUnreferenceFinal_spec (boUnreferenceLockedTimed_spec madv time (s.nextBo + 1)) hcan rfl h1
      (Nat.le_succ_of_le hle) madv time).bind ?_
    rintro s₁ ⟨out₁, h₁, hrel⟩
    obtain ⟨r₁, hset₁⟩ := Settled.of_released h₁ hrel
    refine (cleanupBoCache_spec hset₁ time).mono ?_
    rintro s₂ ⟨h₂, hsw⟩
    exact ⟨(Settled.swept hset₁ h₂ hsw).setLock false, (hrel.dropped.swept hsw).unlock hlock⟩
  · rename_i hne
    exact .ok ⟨((h.setLock true).decRef hb hne).setLock false, (Dropped.decRef _ b).unlock hlock⟩

/-- A caller's reference is given up. -/
theorem boUnreference_spec (h : Settled E callers s) (hlock : s.lock = false) (hb : 0 < callers b)
    (madv : Madvise) (time : Int) :
    Returns (boUnreference madv time b s) fun s' => Settled E (giveUp callers b) s' ∧ Dropped s s' := by
  obtain ⟨r, hcan, -⟩ := h.canDrop hb
  have hpos := hcan.inv.graph.pos_of_pend (List.mem_singleton_self b)
  simp only [boUnreference, hpos, decide_true, assert_true, ok_bind]
  split
  · rename_i hne
    exact .ok ⟨h.decRef hb hne, Dropped.decRef s b⟩
  · exact boUnreferenceSlow_spec h hlock hb madv time

end Unreference

end LibDrm.Gem
