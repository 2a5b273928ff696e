/-
# `LibDrm.Gem.Safety` — what holds in every run of the buffer manager

The results read the invariant `Rest` of a reachable state, one for each part
of the manager:

    the graph of relocations and the reference counts   (`relocation_graph_acyclic`)
    the validation list of a batch                      (`validation_list_iff`)
    the reuse cache                                     (`reuse_cache_sound`)
    shared objects and the named list                   (`shared_bos_never_cached`)
    the accounts of the mappings                        (`vma_accounts_exact`)

The runs are those of `Clean` calls, in any order and with any answers.
-/
import LibDrm.Gem.Machine

namespace LibDrm.Gem

open Walk CInt

/-- The graph of the stored relocations; `Walk.Edge` leaves the self relocations out. -/
abbrev Bufmgr.relocGraph (s : Bufmgr) : BoId → List BoId := fun b => (s.bos b).targets

/-! ## The graph of relocations -/

section Graph

variable {E : BoId → Prop} {callers : BoId → Nat} {s : Bufmgr} {b : BoId}

theorem Settled.acyclic (h : Settled E callers s) : Acyclic s.relocGraph := by
  obtain ⟨r, hi⟩ := h
  exact hi.graph.ranked.acyclic

theorem Settled.used (h : Settled E callers s) {a : BoId} (he : Edge s.relocGraph a b) :
    (s.bos b).usedAsRelocTarget = true := by
  obtain ⟨r, hi⟩ := h
  exact hi.graph.used a b he

theorem Settled.count (h : Settled E callers s) (b : BoId) :
    (s.bos b).refcount = callers b + incoming s.relocGraph s.nextBo b := by
  obtain ⟨r, hi⟩ := h
  exact hi.graph.count b

/-- Both walks that build a validation list end, and return if there is room for it. -/
theorem Settled.processWith_ends (h : Settled E callers s) (hu : Unlisted s)
    (hb : (s.bos b).allocated = true) (a : ExecArray) (fence : Reloc → Bool) :
    Within (fun e => e = .badPointer ∧ ¬ ArrayFits a s b)
      (processWith (fun r => addValidate a r.target (fence r)) (s.nextBo + 1) b s) fun _ => True := by
  cases hp : processWith (fun r => addValidate a r.target (fence r)) (s.nextBo + 1) b s with
  | ok s₁ => exact .ok trivial
  | error e =>
      have hcases := buildList_cases h hu hb a fence
      rw [hp] at hcases
      rcases hcases with ⟨-, s', hs'⟩ | ⟨hnot, he⟩
      · cases hs'
      · cases he
        exact .error ⟨rfl, hnot⟩

theorem Settled.references_returns (h : Settled E callers s) (b target : BoId) :
    Returns (boReferencesWalk target (s.nextBo + 1) b s) fun _ => True := by
  obtain ⟨r₀, hi₀⟩ := h
  obtain ⟨r, hi, hle⟩ := hi₀.bounded
  exact (boReferencesWalk_spec hi.graph.ranked target _ b (Nat.lt_succ_of_le (hle b))).mono fun _ _ => trivial

end Graph

/-- The relocations of a reachable state: no cycle but self relocations, every target is
marked as one, references are counted exactly, and the recursions along the relocations
end before the fuel of the model does.  (The two that build a list end at once when they write
beyond its array.) -/
theorem relocation_graph_acyclic {σ : Sys} (h : Reachable Clean σ) :
    Acyclic σ.mgr.relocGraph
    ∧ (∀ a b, Edge σ.mgr.relocGraph a b → (σ.mgr.bos b).usedAsRelocTarget = true)
    ∧ (∀ b, σ.mgr.Live b →
        (σ.mgr.bos b).refcount = σ.callers b + incoming σ.mgr.relocGraph σ.mgr.nextBo b)
    ∧ (∀ b, σ.mgr.Live b →
        Within (fun e => e = .badPointer ∧ ¬ ArrayFits .objects σ.mgr b)
          (boProcessReloc (σ.mgr.nextBo + 1) b σ.mgr) (fun _ => True)
        ∧ Within (fun e => e = .badPointer ∧ ¬ ArrayFits .objects2 σ.mgr b)
          (boProcessReloc2 (σ.mgr.nextBo + 1) b σ.mgr) (fun _ => True)
        ∧ ∀ target, Returns (boReferencesWalk target (σ.mgr.nextBo + 1) b σ.mgr) fun _ => True)
    ∧ (∀ madv time b, 0 < σ.callers b → Returns (boUnreference madv time b σ.mgr) fun _ => True)
    ∧ ∀ madv time b start, start ≤ (σ.mgr.bos b).relocs.length →
        Returns (boClearRelocs madv time b start σ.mgr) fun _ => True := by
  obtain ⟨hset, hlock, hcalm⟩ := h.rest
  refine ⟨hset.acyclic, fun a b he => hset.used he, fun b _ => hset.count b, fun b hb => ⟨?_, ?_, ?_⟩, ?_, ?_⟩
  · exact hset.processWith_ends hcalm.unlisted hb.1 .objects fun _ => false
  · exact hset.processWith_ends hcalm.unlisted hb.1 .objects2 Reloc.fence
  · exact hset.references_returns b
  · intro madv time b hb
    exact (boUnreference_spec hset hlock hb madv time).mono fun _ _ => trivial
  · intro madv time b start hstart
    exact (boClearRelocs_spec hset hlock hstart madv time).mono fun _ _ => trivial

/-- Two objects, the second with a relocation to the first and one to itself. -/
def twoBos : List Call :=
  [.alloc 4096 false (.simple 1 1), .alloc 8192 false (.simple 2 2), .emitReloc 1 ⟨0, 0, 0, 0, 0, false, true⟩,
    .emitReloc 1 ⟨4, 1, 0, 0, 0, true, true⟩]

theorem relocation_graph_acyclic_twoBos : ∃ σ, playAll Call.clean {} .empty twoBos = some σ
    ∧ (σ.mgr.bos 1).targets = [0, 1] ∧ Acyclic σ.mgr.relocGraph ∧ (σ.mgr.bos 0).usedAsRelocTarget = true := by
  have hrun : (playAll Call.clean {} .empty twoBos).any (fun σ => decide ((σ.mgr.bos 1).targets = [0, 1])) = true := by
    decide +kernel
  obtain ⟨σ, hplay, h, ht⟩ := playAll_any KernelOk.empty hrun
  have ht : (σ.mgr.bos 1).targets = [0, 1] := of_decide_eq_true ht
  obtain ⟨hac, hused, -⟩ := relocation_graph_acyclic h
  refine ⟨σ, hplay, ht, hac, hused 1 0 ⟨?_, by decide⟩⟩
  show 0 ∈ (σ.mgr.bos 1).targets
  rw [ht]
  decide

/-! ## The validation list -/

/-- In `s'` the validation list of the batch `b` is complete, for the relocations of `s`. -/
structure ValidationList (s : Bufmgr) (b : BoId) (s' : Bufmgr) : Prop where
  mem : ∀ x, x ∈ s'.execBos ↔ Reach s.relocGraph b x
  nodup : s'.execBos.Nodup
  before : ∀ l₁ a l₂, s'.execBos = l₁ ++ a :: l₂ → ∀ t, Edge s.relocGraph a t → t ∈ l₁
  last : s'.execBos.getLast? = some b
  index : ∀ (i : Nat) c, s'.execBos[i]? = some c → (s'.bos c).validateIndex = i
  entry : ∀ (i : Nat) c, s'.execBos[i]? = some c → ∃ e, (s'.execObjects.entries .objects2)[i]? = some e
    ∧ e.handle = (s.bos c).gemHandle
    ∧ (e.needsFence = true ↔
      ∃ a, Reach s.relocGraph b a ∧ c ≠ a ∧ ∃ r ∈ (s.bos a).relocs, r.target = c ∧ r.fence = true)

theorem labelled_iff (s : Bufmgr) (b c : BoId) : Labelled (relocEdges Reloc.fence s) b c ↔
    ∃ a, Reach s.relocGraph b a ∧ c ≠ a ∧ ∃ r ∈ (s.bos a).relocs, r.target = c ∧ r.fence = true := by
  unfold Labelled
  rw [ends_relocEdges]
  refine exists_congr fun a => and_congr_right fun _ => ?_
  rw [and_comm]
  refine and_congr_right fun _ => ?_
  simp [relocEdges]

/-- What is on the list, read off the positions. -/
theorem Lists.validationList {s s' : Bufmgr} {b : BoId} {l : List BoId} {f : BoId → Bool}
    (h : Lists .objects2 s (l ++ [b], f) s') (hlisted : Listed s.relocGraph (l ++ [b]))
    (hmem : ∀ x, x ∈ l ++ [b] ↔ Reach s.relocGraph b x)
    (hlab : ∀ x, f x = true ↔ Labelled (relocEdges Reloc.fence s) b x) : ValidationList s b s' := by
  have hexec : s'.execBos = l ++ [b] := h.execBos
  refine ⟨?_, ?_, ?_, ?_, fun i c hic => ?_, fun i c hic => ?_⟩
  · rw [hexec]; exact hmem
  · rw [hexec]; exact hlisted.nodup
  · rw [hexec]; exact hlisted.before
  · rw [hexec]; simp
  · rw [hexec] at hic
    obtain ⟨hi, rfl⟩ := List.getElem?_eq_some_iff.mp hic
    rw [h.bos, if_pos (List.getElem_mem hi)]
    exact congrArg Nat.cast (h.nodup.idxOf_getElem i hi)
  · rw [hexec] at hic
    refine ⟨(s.bos c).execObject (f c), ?_, rfl, ?_⟩
    · rw [h.objects, List.getElem?_map, hic]
      rfl
    · rw [← labelled_iff]
      exact hlab c

/-- The list is empty, and no object has an index. -/
def Bufmgr.Emptied (s : Bufmgr) : Prop :=
  s.execCount = 0 ∧ ∀ c, (s.bos c).allocated = true → (s.bos c).validateIndex = -1

theorem Unlisted.emptied {s : Bufmgr} (h : Unlisted s) : s.Emptied :=
  ⟨by rw [Bufmgr.execCount, h.execBos]; rfl, h.index⟩

/-- The list of a batch is complete and in order exactly if the array of the path has room for it, and
so are both executions, which leave no trace of the list whatever the ioctl answers. -/
theorem validation_list_iff {σ : Sys} (h : Reachable Clean σ) {batch : BoId} (hb : σ.mgr.Live batch) :
    σ.mgr.Emptied
    ∧ (Returns (boProcessReloc2 (σ.mgr.nextBo + 1) batch σ.mgr >>= addValidateBuffer2 batch false)
        (ValidationList σ.mgr batch) ↔ ArrayFits .objects2 σ.mgr batch)
    ∧ (∀ flags r, Returns (doExec2 batch flags r σ.mgr) (fun res => res.2.Emptied)
        ↔ ringOk σ.mgr.cfg flags = false ∨ ArrayFits .objects2 σ.mgr batch)
    ∧ ∀ r, Returns (boExec batch r σ.mgr) (fun res => res.2.Emptied)
        ↔ (σ.mgr.bos batch).hasError = true ∨ ArrayFits .objects σ.mgr batch := by
  obtain ⟨hset, hlock, hf, hu⟩ := h.rest
  refine ⟨hu.emptied, ⟨?_, fun hfits => ?_⟩, fun flags r => ⟨?_, fun hfits => ?_⟩, fun r => ⟨?_, fun hfits => ?_⟩⟩
  · rintro ⟨s', hs', -⟩
    rcases buildList_cases hset hu hb.1 .objects2 Reloc.fence with ⟨hfits, -⟩ | ⟨-, hstuck⟩
    · exact hfits
    · cases hstuck.symm.trans hs'
  · rcases buildList_cases hset hu hb.1 .objects2 Reloc.fence with ⟨-, s', hs'⟩ | ⟨hnot, -⟩
    · obtain ⟨l, f, hl, hlisted, hmem, hlab⟩ := buildList_ok hset hu hb.1 hs'
      exact ⟨s', hs', hl.validationList hlisted hmem hlab⟩
    · exact absurd hfits hnot
  · rintro ⟨res, hres, -⟩
    by_contra hnot
    obtain ⟨hring, hfits⟩ := not_or.mp hnot
    cases (doExec2_stuck hset hlock hu hb.1 flags r (by simpa using hring) hfits).symm.trans hres
  · exact (doExec2_spec hset hlock hu hf hb.1 flags r hfits).mono fun _ hr => hr.unlisted.emptied
  · rintro ⟨res, hres, -⟩
    by_contra hnot
    obtain ⟨herror, hfits⟩ := not_or.mp hnot
    cases (boExec_stuck hset hlock hu hb.1 r (by simpa using herror) hfits).symm.trans hres
  · exact (boExec_spec hset hlock hu hf hb.1 r hfits).mono fun _ hr => hr.unlisted.emptied

theorem validation_list_iff_twoBos : ∃ σ, playAll Call.clean {} .empty twoBos = some σ ∧ σ.mgr.Live 1
    ∧ Returns (boProcessReloc2 (σ.mgr.nextBo + 1) 1 σ.mgr >>= addValidateBuffer2 1 false)
        (ValidationList σ.mgr 1) := by
  have hrun : (playAll Call.clean {} .empty twoBos).any (fun σ => decide (σ.mgr.Live 1
      ∧ σ.mgr.execObjects.size = 0)) = true := by
    decide +kernel
  obtain ⟨σ, hplay, h, hend⟩ := playAll_any KernelOk.empty hrun
  obtain ⟨hlive, hsize⟩ := of_decide_eq_true hend
  exact ⟨σ, hplay, hlive, (validation_list_iff h hlive).2.1.mpr (.inl (by rw [hsize]; exact Nat.zero_le _))⟩

/-- A batch is executed by `drm_intel_gem_bo_exec`, and there is no `exec2_objects` yet. -/
theorem validation_list_other_array : ∃ σ, Reachable Clean σ ∧ σ.mgr.Live 0
    ∧ (boProcessReloc2 (σ.mgr.nextBo + 1) 0 σ.mgr >>= addValidateBuffer2 0 false) = .error .badPointer
    ∧ doExec2 0 I915_EXEC_RENDER ⟨.ok (), fun _ => 0⟩ σ.mgr = .error .badPointer := by
  have hrun : (playAll Call.clean { exec2 := false } .empty [.alloc 4096 false (.simple 1 1),
      .exec 0 ⟨.ok (), fun _ => 0⟩]).any (fun σ => decide (σ.mgr.Live 0)
        && FailsWith .badPointer (boProcessReloc2 (σ.mgr.nextBo + 1) 0 σ.mgr >>= addValidateBuffer2 0 false)
        && FailsWith .badPointer (doExec2 0 I915_EXEC_RENDER ⟨.ok (), fun _ => 0⟩ σ.mgr)) = true := by
    decide +kernel
  obtain ⟨σ, -, h, hend⟩ := playAll_any KernelOk.empty hrun
  obtain ⟨hbefore, hexec⟩ := Bool.and_eq_true_iff.mp hend
  obtain ⟨hlive, hbuild⟩ := Bool.and_eq_true_iff.mp hbefore
  exact ⟨σ, h, of_decide_eq_true hlive, failsWith_iff.mp hbuild, failsWith_iff.mp hexec⟩

/-! ## The reuse cache -/

/-- What holds of the buckets of the reuse cache. -/
structure CacheSound (s : Bufmgr) : Prop where
  unreferenced : ∀ i, ∀ b ∈ s.bucketHead i, (s.bos b).refcount = 0
  relocs : ∀ i, ∀ b ∈ s.bucketHead i, (s.bos b).relocs = []
  unmapped : ∀ i, ∀ b ∈ s.bucketHead i, (s.bos b).mapCount = 0
  size : ∀ i, ∀ b ∈ s.bucketHead i, cacheBucketSizes[i]? = some (s.bos b).size
  once : ∀ i, ∀ b ∈ s.bucketHead i, (s.bucketHead i).count b = 1 ∧ ∀ j, b ∈ s.bucketHead j → j = i

theorem Settled.cacheSound {E : BoId → Prop} {callers : BoId → Nat} {s : Bufmgr} (h : Settled E callers s) :
    CacheSound s := by
  obtain ⟨r, hi⟩ := h
  refine ⟨fun i b hb => ?_, fun i b hb => ?_, fun i b hb => ?_, fun i b hb => ?_, fun i b hb => ⟨?_, ?_⟩⟩
  · exact (hi.cache.member i b hb).1.unreferenced
  · exact (hi.graph.dead b (hi.cache.member i b hb).1.unreferenced (by simp [idle])).2
  · exact (hi.cache.member i b hb).1.unmapped
  · exact (hi.cache.member i b hb).1.size
  · exact List.count_eq_one_of_mem (hi.cache.nodup i) hb
  · exact fun j hj => hi.cache.unique hj hb

/-- The cache holds released objects of the right size, so that an allocation hands out an
object as it was asked for. -/
theorem reuse_cache_sound {σ : Sys} (h : Reachable Clean σ) :
    CacheSound σ.mgr
    ∧ ∀ size forRender mode stride r b s',
        boAllocInternal size forRender mode stride r σ.mgr = .ok (some b, s') →
        size ≤ (s'.bos b).size ∧ (s'.bos b).refcount = 1 ∧ (s'.bos b).relocs = []
          ∧ (s'.bos b).usedAsRelocTarget = false := by
  obtain ⟨hset, hlock, -⟩ := h.rest
  refine ⟨hset.cacheSound, fun size forRender mode stride r b s' hr => ?_⟩
  obtain ⟨-, -, hh, hsize, -⟩ := boAllocInternal_spec hset (fun _ e => e) hlock size forRender mode stride r _ hr
  exact ⟨hsize, hh.refcount, hh.relocs, hh.unused⟩

/-- An object goes through the cache. -/
def recycled : List Call :=
  [.enableReuse, .alloc 5000 false (.simple 1 1), .unreference (fun _ => true) 7 0]

theorem reuse_cache_sound_recycled : ∃ σ, playAll Call.clean {} .empty recycled = some σ
    ∧ σ.mgr.bucketHead 1 = [0] ∧ CacheSound σ.mgr := by
  have hrun : (playAll Call.clean {} .empty recycled).any (fun σ => decide (σ.mgr.bucketHead 1 = [0])) = true := by
    decide +kernel
  obtain ⟨σ, hplay, h, hbucket⟩ := playAll_any KernelOk.empty hrun
  exact ⟨σ, hplay, of_decide_eq_true hbucket, (reuse_cache_sound h).1⟩

/-! ## The accounts of the mappings -/

/-- The counters of the VMA cache and its list, against the objects. -/
structure VmaExact (s : Bufmgr) : Prop where
  vmaOpen : s.vmaOpen = ((Finset.range s.nextBo).filter fun b =>
    (s.bos b).allocated = true ∧ 0 < (s.bos b).mapCount).card
  vmaCount : s.vmaCount = ∑ b ∈ Finset.range s.nextBo with
    (s.bos b).allocated = true ∧ (s.bos b).mapCount = 0, (s.bos b).maps
  cached : ∃ vl, OnList s.vmaList vl
    ∧ ∀ b, (s.bos b).allocated = true → (s.bos b).mapCount = 0 → (s.bos b).maps ≠ 0 → b ∈ vl
  limit : 0 ≤ s.vmaMax → s.vmaCount ≤ max 0 (s.vmaMax - 2 * s.vmaOpen)

theorem VmaInv.exact {s : Bufmgr} (h : VmaInv s) : VmaExact s := by
  obtain ⟨⟨vl, hvl⟩, hlim⟩ := h
  refine ⟨?_, ?_, ⟨vl, hvl.list, fun b ha hm hp => ?_⟩, hlim⟩
  · rw [hvl.opened, Finset.card_filter, Nat.cast_sum]
    refine Finset.sum_congr rfl fun b _ => ?_
    unfold Bo.opens
    by_cases ha : (s.bos b).allocated = true
    · simp [ha]
    · have := (hvl.obj b).dead (by simpa using ha)
      simp [ha, this.1]
  · rw [hvl.count, Finset.sum_filter]
    refine Finset.sum_congr rfl fun b _ => ?_
    unfold Bo.idleMaps
    by_cases ha : (s.bos b).allocated = true
    · simp [ha]
    · have := (hvl.obj b).dead (by simpa using ha)
      simp [ha, this.2]
  · rcases (hvl.obj b).idle ha hm with hin | ⟨-, h0⟩
    · exact hin
    · exact absurd h0 hp

/-- Objects that others can know of are kept apart from the reuse cache. -/
structure SharedApart (s : Bufmgr) : Prop where
  unnamed : ∀ i, ∀ b ∈ s.bucketHead i, ¬ Named s b
  unshared : ∀ i, ∀ b ∈ s.bucketHead i, ∀ o,
    s.kernel.objOf (s.bos b).gemHandle = some o → s.kernel.status o ≠ .shared
  node : ∀ size forRender mode stride r b s',
    boAllocInternal size forRender mode stride r s = .ok (some b, s') →
    Detached s'.nameList b ∨ Named s' b
  exported : ∀ b, s.Live b → ∀ handleToFd, Returns (boGemExportToPrime b handleToFd s) fun r => Named r.2 b
  flinked : ∀ b, s.Live b → (s.bos b).globalName = 0 → ∀ name,
    Returns (boFlink b (.ok name) s) fun r => r.1.1 = 0 → Named r.2 b

/-- In a run where no export fails of an object that may be reused, no shared object is in
the cache, and a recycled one can be put on the named list. -/
theorem shared_bos_never_cached {σ : Sys} (h : Reachable Clean σ) : SharedApart σ.mgr := by
  obtain ⟨hset, hlock, -⟩ := h.rest
  obtain ⟨r, hi⟩ := hset
  obtain ⟨nl, hn⟩ := hi.names
  have hnot : ∀ i, ∀ b ∈ σ.mgr.bucketHead i, b ∉ nl := fun i b hb =>
    hn.notMem_of_unreferenced (hi.cache.member i b hb).1.unreferenced (by simp [idle])
  refine ⟨fun i b hb hnamed => ?_, fun i b hb o ho hs => ?_, ?_, fun b hb handleToFd => ?_, fun b hb h0 name => ?_⟩
  · obtain ⟨nl', hl', hin⟩ := hnamed
    exact hnot i b hb (hn.list.unique hl' ▸ hin)
  · exact hnot i b hb (hn.shared b o (hi.cache.member i b hb).1.allocated ho hs)
  · intro size forRender mode stride rep b s' hr
    exact Or.inl (boAllocInternal_spec ⟨r, hi⟩ (fun _ e => e) hlock size forRender mode stride rep _ hr).2.2.2.2
  · exact boGemExportToPrime_named ⟨r, hi⟩ hlock hb.2 handleToFd
  · exact (boFlink_spec ⟨r, hi⟩ hlock hb.2 (.ok name)).mono fun _ hr => hr.2 h0

theorem shared_bos_never_cached_recycled : ∃ σ, playAll Call.clean {} .empty recycled = some σ
    ∧ σ.mgr.bucketHead 1 = [0] ∧ SharedApart σ.mgr := by
  have hrun : (playAll Call.clean {} .empty recycled).any (fun σ => decide (σ.mgr.bucketHead 1 = [0])) = true := by
    decide +kernel
  obtain ⟨σ, hplay, h, hbucket⟩ := playAll_any KernelOk.empty hrun
  exact ⟨σ, hplay, of_decide_eq_true hbucket, shared_bos_never_cached h⟩

/-- The export of an object fails, and the object goes to the cache with a stale list node. -/
def failedExport : List Call :=
  [.enableReuse, .alloc 4096 false (.simple 1 1), .exportToPrime 0 (.error ⟨EINVAL, EINVAL_pos⟩),
    .unreference (fun _ => true) 7 0]

/-- The next allocation hands the object out; its node points to the list head, and the list is empty. -/
theorem failedExport_not_apart : ∃ σ, Reachable (fun _ _ _ => True) σ ∧ ¬ SharedApart σ.mgr := by
  have hrun : (playAll (fun _ _ _ => true) {} .empty failedExport).any (fun σ =>
      returns (fun r => decide (r.1 = some 0) && (decide (r.2.nameList none = some ⟨some none, some none⟩)
          && decide (r.2.nameList (some 0) = some ⟨some none, some none⟩)))
        (boAllocInternal 4096 false 0 0 (.simple 2 2) σ.mgr)) = true := by decide +kernel
  obtain ⟨σ, -, hσ, hret⟩ := playAll_any KernelOk.empty hrun
  refine ⟨σ, Runs.mono (fun _ _ hs => ?_) hσ, fun h => ?_⟩
  · obtain ⟨c, got, hv, -, hrest⟩ := hs
    exact ⟨c, got, hv, trivial, hrest⟩
  obtain ⟨⟨found, s'⟩, hr, hp⟩ := returns_true hret
  simp only [Bool.and_eq_true, decide_eq_true_eq] at hp
  obtain ⟨rfl, hhead, hnode⟩ := hp
  rcases h.node _ _ _ _ _ _ _ hr with hd | ⟨nl, hl, hin⟩
  · have hself : s'.nameList (some 0) = some ⟨some (some 0), some (some 0)⟩ := hd
    rw [hnode] at hself
    cases hself
  · have hempty : OnList s'.nameList [] := DList.IsList.nil_of_selfLinked hhead
    rw [hl.unique hempty] at hin
    cases hin

end LibDrm.Gem
