/-
# `LibDrm.Gem.Vma` — the cache of mappings

A buffer object keeps its CPU and GTT mappings after the last unmap; such an
object stands on the list `vma_cache`, and the manager evicts mappings from
the front of that list when there are more than

    max 0 (vma_max - 2 * vma_open)

of them.  Two counters and the list are adjusted by the seven functions below,
and the loop of `purge_vma_cache` trusts them: it takes the first object of the
list without testing whether there is one.

`VmaOk` says that the counters are right.  Every function here is shown to
return and to keep it, and that is where the loop's safety comes from.
-/
import LibDrm.Gem.State

namespace LibDrm.Gem

/-! ## The functions -/

/-- Drop both mappings. -/
def Bo.unmapAll (bo : Bo) : Bo := { bo with memVirtual := 0, gttVirtual := 0 }

def Bo.addMap (d : Int) (bo : Bo) : Bo := { bo with mapCount := bo.mapCount + d }

def Bo.clearMap (bo : Bo) : Bo := { bo with mapCount := 0 }

/-- The loop of `drm_intel_gem_bo_purge_vma_cache`. -/
def purgeLoop (limit : Int) : Nat → Bufmgr → Except Fault Bufmgr
  | 0, _ => .error .outOfFuel
  | k + 1, s =>
      if s.vmaCount > limit then
        match DList.nxt s.vmaList none with
        | some (some b) => do
            assert ((s.bos b).mapCount == 0)
            let vmaList ← deref (DList.delInit s.vmaList (some b))
            purgeLoop limit k
              { s.modify b Bo.unmapAll with vmaList, vmaCount := s.vmaCount - (s.bos b).maps }
        -- the list is empty, and the head would be taken for the node of an object
        | _ => .error .badPointer
      else .ok s

/-- `drm_intel_gem_bo_purge_vma_cache`. -/
def boPurgeVmaCache (s : Bufmgr) : Except Fault Bufmgr :=
  if s.vmaMax < 0 then .ok s
  else purgeLoop (max 0 (s.vmaMax - 2 * s.vmaOpen)) (s.nextBo + 1) s

/-- `drm_intel_gem_bo_close_vma`. -/
def boCloseVma (b : BoId) (s : Bufmgr) : Except Fault Bufmgr := do
  let vmaList ← deref (DList.addTail s.vmaList (some b) none)
  boPurgeVmaCache
    { s with vmaOpen := s.vmaOpen - 1, vmaList, vmaCount := s.vmaCount + (s.bos b).maps }

/-- `drm_intel_gem_bo_open_vma`. -/
def boOpenVma (b : BoId) (s : Bufmgr) : Except Fault Bufmgr := do
  let vmaList ← deref (DList.del s.vmaList (some b))
  boPurgeVmaCache
    { s with vmaOpen := s.vmaOpen + 1, vmaList, vmaCount := s.vmaCount - (s.bos b).maps }

/-- `drm_intel_gem_bo_free`: the memory of the object, its list nodes included, is gone. -/
def boFree (b : BoId) (s : Bufmgr) : Except Fault Bufmgr := do
  let vmaList ← deref (DList.del s.vmaList (some b))
  return { s with
    bos := Function.update s.bos b {}
    vmaList := DList.free vmaList (some b)
    nameList := DList.free s.nameList (some b)
    vmaCount := s.vmaCount - (s.bos b).maps
    kernel := s.kernel.close (s.bos b).gemHandle }

/-- `if (map_count++ == 0) open_vma`, the start of a mapping. -/
def mapBegin (b : BoId) (s : Bufmgr) : Except Fault Bufmgr :=
  let s' := s.modify b (Bo.addMap 1)
  if (s.bos b).mapCount = 0 then boOpenVma b s' else .ok s'

/-- `if (--map_count == 0) close_vma`, the end of one. -/
def mapEnd (b : BoId) (s : Bufmgr) : Except Fault Bufmgr :=
  let s' := s.modify b (Bo.addMap (-1))
  if (s'.bos b).mapCount = 0 then boCloseVma b s' else .ok s'

/-- `drm_intel_gem_bo_map`; `mmap` is the answer of the `MMAP` ioctl, should it be issued. -/
def boMap (b : BoId) (writeEnable : Bool) (mmap : Reply Nat) (s : Bufmgr) :
    Except Fault (Int × Bufmgr) :=
  if (s.bos b).isUserptr then
    .ok (0, s.modify b fun bo => { bo with virt := bo.userVirtual })
  else s.withLock fun s => do
    let s ← mapBegin b s
    if (s.bos b).memVirtual = 0 then
      match mmap with
      | .error e => do
          let s ← mapEnd b s
          return (-e, s)
      | .ok addr =>
          return (0, s.modify b fun bo => { bo with
            memVirtual := addr, virt := addr, mappedCpuWrite := bo.mappedCpuWrite || writeEnable })
    else
      return (0, s.modify b fun bo => { bo with
        virt := bo.memVirtual, mappedCpuWrite := bo.mappedCpuWrite || writeEnable })

/-- `map_gtt`; `mmap` is the answer of the `MMAP_GTT` ioctl and the `mmap` after it. -/
def mapGtt (b : BoId) (mmap : Reply Nat) (s : Bufmgr) : Except Fault (Int × Bufmgr) :=
  if (s.bos b).isUserptr then .ok (-EINVAL, s)
  else do
    let s ← mapBegin b s
    if (s.bos b).gttVirtual = 0 then
      match mmap with
      | .error e => do
          let s ← mapEnd b s
          return (-e, s)
      | .ok addr => return (0, s.modify b fun bo => { bo with gttVirtual := addr, virt := addr })
    else
      return (0, s.modify b fun bo => { bo with virt := bo.gttVirtual })

/-- `drm_intel_gem_bo_map_gtt`. -/
def boMapGtt (b : BoId) (mmap : Reply Nat) (s : Bufmgr) : Except Fault (Int × Bufmgr) :=
  s.withLock (mapGtt b mmap)

/-- `drm_intel_gem_bo_map_unsynchronized`; it differs from `boMapGtt` in the domain
change, which touches nothing of the manager. -/
def boMapUnsynchronized (b : BoId) (mmap : Reply Nat) (s : Bufmgr) : Except Fault (Int × Bufmgr) :=
  if s.cfg.hasLlc then s.withLock (mapGtt b mmap) else boMapGtt b mmap s

/-- `drm_intel_gem_bo_unmap`; `swFinish` is the answer of the `SW_FINISH` ioctl. -/
def boUnmap (b : BoId) (swFinish : Reply Unit) (s : Bufmgr) : Except Fault (Int × Bufmgr) :=
  if (s.bos b).isUserptr then .ok (0, s)
  else s.withLock fun s =>
    if (s.bos b).mapCount ≤ 0 then .ok (0, s)
    else do
      let ret : Int :=
        if (s.bos b).mappedCpuWrite then (match swFinish with | .error e => -e | .ok _ => 0) else 0
      let s := s.modify b fun bo => { bo with mappedCpuWrite := false }
      let s ← mapEnd b s
      -- `bo->virtual = NULL`, if that was the last unmap
      return (ret, s.modify b fun bo => { bo with virt := if bo.mapCount = 0 then 0 else bo.virt })

/-- `drm_intel_bufmgr_gem_set_vma_cache_size`. -/
def setVmaCacheSize (limit : Int) (s : Bufmgr) : Except Fault Bufmgr :=
  boPurgeVmaCache { s with vmaMax := limit }

/-! ## The invariant -/

/-- 1 for an object that is mapped. -/
def Bo.opens (bo : Bo) : Int := if 0 < bo.mapCount then 1 else 0

/-- The mappings that an object holds while it is not mapped. -/
def Bo.idleMaps (bo : Bo) : Int := if bo.mapCount = 0 then bo.maps else 0

/-- What holds of the object `b` when the list `vl` stands in the memory `m`. -/
structure VmaAt (vl : List BoId) (m : DList.Mem Node) (b : BoId) (bo : Bo) : Prop where
  nonneg : 0 ≤ bo.mapCount
  member : b ∈ vl → bo.allocated = true ∧ bo.mapCount = 0
  node : bo.allocated = true → (m (some b)).isSome
  idle : bo.allocated = true → bo.mapCount = 0 → b ∈ vl ∨ (Detached m b ∧ bo.maps = 0)
  dead : bo.allocated = false → bo.mapCount = 0 ∧ bo.maps = 0

/-- The counters and the list of the VMA cache agree with the objects. -/
structure VmaOk (vl : List BoId) (s : Bufmgr) : Prop where
  list : OnList s.vmaList vl
  obj : ∀ b, VmaAt vl s.vmaList b (s.bos b)
  fresh : ∀ b, s.nextBo ≤ b → (s.bos b).allocated = false
  opened : s.vmaOpen = ∑ b ∈ Finset.range s.nextBo, (s.bos b).opens
  count : s.vmaCount = ∑ b ∈ Finset.range s.nextBo, (s.bos b).idleMaps

/-- There are no more cached mappings than the limit allows. -/
def VmaLimit (s : Bufmgr) : Prop := 0 ≤ s.vmaMax → s.vmaCount ≤ max 0 (s.vmaMax - 2 * s.vmaOpen)

theorem VmaAt.frame {vl vl' : List BoId} {m m' : DList.Mem Node} {b : BoId} {bo : Bo}
    (h : VmaAt vl m b bo) (hvl : b ∈ vl' ↔ b ∈ vl) (ha : (m' (some b)).isSome = (m (some b)).isSome)
    (hf : b ∉ vl → m' (some b) = m (some b)) : VmaAt vl' m' b bo := by
  refine ⟨h.nonneg, fun hb => h.member (hvl.mp hb), fun hb => ha ▸ h.node hb, ?_, h.dead⟩
  intro hb hm
  by_cases hin : b ∈ vl
  · exact Or.inl (hvl.mpr hin)
  · obtain ⟨hd, hmaps⟩ := (h.idle hb hm).resolve_left hin
    exact Or.inr ⟨by rw [Detached, DList.SelfLinked, hf hin]; exact hd, hmaps⟩

namespace VmaOk

variable {vl : List BoId} {s : Bufmgr}

theorem lt_nextBo (h : VmaOk vl s) {b : BoId} (hb : (s.bos b).allocated = true) : b < s.nextBo := by
  by_contra hlt
  rw [h.fresh b (Nat.le_of_not_lt hlt)] at hb
  cases hb

theorem length_le (h : VmaOk vl s) : vl.length ≤ s.nextBo := by
  have hsub : vl.toFinset ⊆ Finset.range s.nextBo := by
    intro b hb
    exact Finset.mem_range.mpr (h.lt_nextBo ((h.obj b).member (List.mem_toFinset.mp hb)).1)
  have hcard := Finset.card_le_card hsub
  rwa [List.toFinset_card_of_nodup h.list.nodup, Finset.card_range] at hcard

/-- One object, its node and the counters change; the rest of the list stays. -/
theorem change {vl' : List BoId} {s' : Bufmgr} (h : VmaOk vl s) {b : BoId} {bo : Bo}
    (hb : (s.bos b).allocated = true) (hbos : s'.bos = Function.update s.bos b bo)
    (hnext : s'.nextBo = s.nextBo) (hl : OnList s'.vmaList vl') (hat : VmaAt vl' s'.vmaList b bo)
    (hvl : ∀ c, c ≠ b → (c ∈ vl' ↔ c ∈ vl))
    (ha : ∀ c, c ≠ b → (s'.vmaList (some c)).isSome = (s.vmaList (some c)).isSome)
    (hf : ∀ c, c ≠ b → c ∉ vl → s'.vmaList (some c) = s.vmaList (some c))
    (hopen : s'.vmaOpen = s.vmaOpen - (s.bos b).opens + bo.opens)
    (hcount : s'.vmaCount = s.vmaCount - (s.bos b).idleMaps + bo.idleMaps) : VmaOk vl' s' := by
  have hlt := h.lt_nextBo hb
  refine ⟨hl, fun c => ?_, fun c hc => ?_, ?_, ?_⟩
  · by_cases hcb : c = b
    · subst hcb
      rw [hbos, Function.update_self]
      exact hat
    · rw [hbos, Function.update_of_ne hcb]
      exact (h.obj c).frame (hvl c hcb) (ha c hcb) (hf c hcb)
  · rw [hnext] at hc
    rw [hbos, Function.update_of_ne (Nat.ne_of_gt (Nat.lt_of_lt_of_le hlt hc))]
    exact h.fresh c hc
  · rw [hopen, h.opened, hnext, hbos, Count.sum_update hlt s.bos bo fun _ bo => bo.opens]
  · rw [hcount, h.count, hnext, hbos, Count.sum_update hlt s.bos bo fun _ bo => bo.idleMaps]

/-- A new object, whose node is linked to itself. -/
theorem grow {s' : Bufmgr} (h : VmaOk vl s) {bo : Bo} (hn : s'.nextBo = s.nextBo + 1)
    (hbos : s'.bos = Function.update s.bos s.nextBo bo) (ha : bo.allocated = true)
    (hm : bo.mapCount = 0) (hp : bo.maps = 0) (hl : OnList s'.vmaList vl)
    (hd : Detached s'.vmaList s.nextBo)
    (hf : ∀ c, c ≠ s.nextBo → s'.vmaList (some c) = s.vmaList (some c))
    (ho : s'.vmaOpen = s.vmaOpen) (hc : s'.vmaCount = s.vmaCount) : VmaOk vl s' := by
  have hself : s'.bos s.nextBo = bo := by rw [hbos, Function.update_self]
  have hother : ∀ c, c ≠ s.nextBo → s'.bos c = s.bos c := fun c hc => by
    rw [hbos, Function.update_of_ne hc]
  have hnew : s.nextBo ∉ vl := fun hin => by
    have := ((h.obj _).member hin).1
    rw [h.fresh _ (Nat.le_refl _)] at this
    cases this
  have hsum : ∀ (F : Bo → Int), F bo = 0 → ∑ b ∈ Finset.range s'.nextBo, F (s'.bos b)
      = ∑ b ∈ Finset.range s.nextBo, F (s.bos b) := by
    intro F hF
    rw [hn, Finset.sum_range_succ, hself, hF, add_zero]
    exact Finset.sum_congr rfl fun b hb => by rw [hother b (Nat.ne_of_lt (Finset.mem_range.mp hb))]
  refine ⟨hl, fun c => ?_, fun c hc => ?_, ?_, ?_⟩
  · by_cases hcb : c = s.nextBo
    · rw [hcb, hself]
      exact ⟨hm.ge, fun hin => absurd hin hnew, fun _ => by rw [show s'.vmaList _ = _ from hd]; rfl,
        fun _ _ => Or.inr ⟨hd, hp⟩, fun h0 => by rw [ha] at h0; cases h0⟩
    · rw [hother c hcb]
      exact (h.obj c).frame Iff.rfl (by rw [hf c hcb]) (fun _ => hf c hcb)
  · rw [hn] at hc
    rw [hother c (Nat.ne_of_gt (Nat.lt_of_succ_le hc))]
    exact h.fresh c (Nat.le_of_succ_le hc)
  · rw [ho, h.opened, hsum Bo.opens (by simp [Bo.opens, hm])]
  · rw [hc, h.count, hsum Bo.idleMaps (by simp [Bo.idleMaps, hm, hp])]

/-- Nothing that the invariant reads has changed. -/
theorem congr {s' : Bufmgr} (h : VmaOk vl s) (hl : s'.vmaList = s.vmaList)
    (hn : s'.nextBo = s.nextBo) (ho : s'.vmaOpen = s.vmaOpen) (hc : s'.vmaCount = s.vmaCount)
    (ha : ∀ b, (s'.bos b).allocated = (s.bos b).allocated)
    (hm : ∀ b, (s'.bos b).mapCount = (s.bos b).mapCount)
    (hp : ∀ b, (s'.bos b).maps = (s.bos b).maps) : VmaOk vl s' := by
  have hopens : ∀ b, (s'.bos b).opens = (s.bos b).opens := fun b => by simp only [Bo.opens, hm]
  have hidle : ∀ b, (s'.bos b).idleMaps = (s.bos b).idleMaps := fun b => by
    simp only [Bo.idleMaps, hm, hp]
  refine ⟨hl ▸ h.list, fun b => ?_, fun b hb => ?_, ?_, ?_⟩
  · have hb := h.obj b
    rw [hl]
    constructor
    · rw [hm]; exact hb.nonneg
    · rw [ha, hm]; exact hb.member
    · rw [ha]; exact hb.node
    · rw [ha, hm, hp]; exact hb.idle
    · rw [ha, hm, hp]; exact hb.dead
  · rw [ha]; exact h.fresh b (hn ▸ hb)
  · rw [ho, hn, h.opened]; exact Finset.sum_congr rfl fun b _ => (hopens b).symm
  · rw [hc, hn, h.count]; exact Finset.sum_congr rfl fun b _ => (hidle b).symm

/-- While mappings are counted there is an object on the list. -/
theorem ne_nil (h : VmaOk vl s) (hc : 0 < s.vmaCount) : vl ≠ [] := by
  rintro rfl
  have hzero : ∀ b, (s.bos b).idleMaps = 0 := by
    intro b
    unfold Bo.idleMaps
    split
    · rename_i hm
      by_cases ha : (s.bos b).allocated = true
      · rcases (h.obj b).idle ha hm with hb | hb
        · simp at hb
        · exact hb.2
      · exact ((h.obj b).dead (by simpa using ha)).2
    · rfl
  rw [h.count, Finset.sum_congr rfl fun b _ => hzero b] at hc
  simp at hc

end VmaOk

/-! ## The purge loop -/

/-- Everything but the VMA cache is as before, and an object has at most lost its mappings. -/
structure VmaFrame (s s' : Bufmgr) : Prop where
  rest : { s' with vmaList := s.vmaList, vmaCount := s.vmaCount, vmaOpen := s.vmaOpen, bos := s.bos } = s
  bos : ∀ c, (s'.bos c).unmapAll = (s.bos c).unmapAll

section
variable {s s' : Bufmgr} (h : VmaFrame s s')
include h

theorem VmaFrame.nextBo : s'.nextBo = s.nextBo := (congrArg Bufmgr.nextBo h.rest :)

theorem VmaFrame.vmaMax : s'.vmaMax = s.vmaMax := (congrArg Bufmgr.vmaMax h.rest :)

end

theorem VmaFrame.refl (s : Bufmgr) : VmaFrame s s := ⟨rfl, fun _ => rfl⟩

theorem VmaFrame.trans {s₁ s₂ s₃ : Bufmgr} (h₁ : VmaFrame s₁ s₂) (h₂ : VmaFrame s₂ s₃) :
    VmaFrame s₁ s₃ := by
  refine ⟨?_, fun c => (h₂.bos c).trans (h₁.bos c)⟩
  have e₁ := h₁.rest
  have e₂ := h₂.rest
  rw [← e₂] at e₁
  exact e₁

/-- With an object on the list for every counted mapping, the loop evicts down to the limit. -/
theorem purgeLoop_spec {limit : Int} (hlim : 0 ≤ limit) :
    ∀ (k : Nat) (vl : List BoId) (s : Bufmgr), vl.length < k → VmaOk vl s →
      Returns (purgeLoop limit k s) fun s' => (∃ vl', VmaOk vl' s') ∧ s'.vmaCount ≤ limit
        ∧ s'.vmaOpen = s.vmaOpen ∧ VmaFrame s s'
  | 0, _, _, hk, _ => absurd hk (by omega)
  | k + 1, vl, s, hk, h => by
      by_cases hc : s.vmaCount > limit
      · cases vl with
        | nil => exact absurd rfl (h.ne_nil (by omega))
        | cons b vl =>
            have hb : b ∈ b :: vl := List.mem_cons_self ..
            have hnxt : DList.nxt s.vmaList none = some (some b) := DList.IsList.nxt_head h.list
            obtain ⟨m, hm, hl, hself, ha, hf⟩ := h.list.delInit hb
            rw [List.erase_cons_head] at hl
            obtain ⟨halloc, hmap⟩ := (h.obj b).member hb
            have hnb : b ∉ vl := (List.nodup_cons.mp h.list.nodup).1
            let s₁ : Bufmgr := { s.modify b Bo.unmapAll with
              vmaList := m, vmaCount := s.vmaCount - (s.bos b).maps }
            have hunmap : (s.bos b).unmapAll.maps = 0 := rfl
            have h₁ : VmaOk vl s₁ := by
              refine h.change halloc rfl rfl hl ?_ ?_ (fun c _ => ha _) ?_ ?_ ?_
              · exact ⟨(h.obj b).nonneg, fun hin => absurd hin hnb,
                  fun hin => by rw [ha]; exact (h.obj b).node hin,
                  fun _ _ => Or.inr ⟨hself, hunmap⟩, fun hin => absurd (halloc.symm.trans hin) (by simp)⟩
              · intro c hcb
                simp [hcb]
              · exact fun c _ hcn => hf c hcn
              · show s.vmaOpen = s.vmaOpen - (s.bos b).opens + (s.bos b).opens
                omega
              · show s.vmaCount - (s.bos b).maps
                  = s.vmaCount - (s.bos b).idleMaps + (s.bos b).unmapAll.idleMaps
                have hi : (s.bos b).idleMaps = (s.bos b).maps := by simp [Bo.idleMaps, hmap]
                have hu : (s.bos b).unmapAll.idleMaps = 0 := by
                  unfold Bo.idleMaps; split <;> simp [hunmap]
                omega
            have hfr₁ : VmaFrame s s₁ := by
              refine ⟨rfl, fun c => ?_⟩
              show ((s.modify b Bo.unmapAll).bos c).unmapAll = _
              rw [modify_bos]
              split
              · rename_i hcb; subst hcb; rfl
              · rfl
            simp only [purgeLoop, if_pos hc, hnxt, hm, hmap, beq_self_eq_true, assert_true,
              deref_some, ok_bind]
            refine (purgeLoop_spec hlim k vl s₁ (by simpa using hk) h₁).mono ?_
            rintro s' ⟨h', hle, hopen, hfr⟩
            exact ⟨h', hle, hopen, hfr₁.trans hfr⟩
      · rw [purgeLoop, if_neg hc]
        exact .ok ⟨⟨vl, h⟩, by omega, rfl, VmaFrame.refl s⟩

/-- The accounts are right and the limit is kept. -/
structure VmaInv (s : Bufmgr) : Prop where
  ok : ∃ vl, VmaOk vl s
  limit : VmaLimit s

/-- `purge_vma_cache` returns, and the limit holds afterwards. -/
theorem boPurgeVmaCache_spec {vl : List BoId} {s : Bufmgr} (h : VmaOk vl s) :
    Returns (boPurgeVmaCache s) fun s' => VmaInv s' ∧ VmaFrame s s' := by
  by_cases hmax : s.vmaMax < 0
  · rw [boPurgeVmaCache, if_pos hmax]
    exact .ok ⟨⟨⟨vl, h⟩, fun h0 => by omega⟩, VmaFrame.refl s⟩
  · rw [boPurgeVmaCache, if_neg hmax]
    have hlen := h.length_le
    refine (purgeLoop_spec (le_max_left _ _) (s.nextBo + 1) vl s (by omega) h).mono ?_
    rintro s' ⟨h', hle, hopen, hfr⟩
    exact ⟨⟨h', fun _ => by rw [hfr.vmaMax, hopen]; exact hle⟩, hfr⟩

/-! ## Opening, closing and freeing -/

/-- Writing to a mapped object that stays mapped. -/
theorem VmaOk.modify_mapped {vl : List BoId} {s : Bufmgr} (h : VmaOk vl s) {b : BoId} {f : Bo → Bo}
    (hb : (s.bos b).allocated = true) (hm : 0 < (s.bos b).mapCount)
    (hfb : (f (s.bos b)).allocated = true) (hfm : 0 < (f (s.bos b)).mapCount) :
    VmaOk vl (s.modify b f) := by
  have hnb : b ∉ vl := fun hin => by have := ((h.obj b).member hin).2; omega
  refine h.change hb rfl rfl h.list ?_ (fun _ _ => Iff.rfl) (fun _ _ => rfl) (fun _ _ _ => rfl) ?_ ?_
  · exact ⟨hfm.le, fun hin => absurd hin hnb, fun _ => (h.obj b).node hb,
      fun _ h0 => by omega, fun h0 => by rw [hfb] at h0; cases h0⟩
  · show s.vmaOpen = s.vmaOpen - (s.bos b).opens + (f (s.bos b)).opens
    simp [Bo.opens, hm, hfm]
  · show s.vmaCount = s.vmaCount - (s.bos b).idleMaps + (f (s.bos b)).idleMaps
    simp [Bo.idleMaps, hm.ne', hfm.ne']

/-- `close_vma` after the map count of a mapped object was set to 0. -/
theorem boCloseVma_spec {vl : List BoId} {s : Bufmgr} (h : VmaOk vl s) {b : BoId}
    (hb : (s.bos b).allocated = true) (hm : 0 < (s.bos b).mapCount) :
    Returns (boCloseVma b (s.modify b Bo.clearMap)) fun s' =>
      VmaInv s' ∧ VmaFrame (s.modify b Bo.clearMap) s' := by
  have hnb : b ∉ vl := fun hin => by have := ((h.obj b).member hin).2; omega
  obtain ⟨m, hadd, hl, ha, hf⟩ := h.list.addTail hnb ((h.obj b).node hb)
  let s₁ : Bufmgr := { s.modify b Bo.clearMap with
    vmaOpen := s.vmaOpen - 1, vmaList := m, vmaCount := s.vmaCount + (s.bos b).maps }
  have h₁ : VmaOk (vl ++ [b]) s₁ := by
    refine h.change hb rfl rfl hl ?_ ?_ (fun c _ => ha _) ?_ ?_ ?_
    · exact ⟨le_rfl, fun _ => ⟨hb, rfl⟩, fun _ => by rw [ha]; exact (h.obj b).node hb,
        fun _ _ => Or.inl (by simp), fun h0 => absurd (hb.symm.trans h0) (by simp)⟩
    · intro c hcb
      simp [hcb]
    · exact fun c hcb hcn => hf c (by simp [hcn, hcb])
    · show s.vmaOpen - 1 = s.vmaOpen - (s.bos b).opens + 0
      simp [Bo.opens, hm]
    · show s.vmaCount + (s.bos b).maps = s.vmaCount - (s.bos b).idleMaps + (s.bos b).maps
      simp [Bo.idleMaps, hm.ne']
  have hfr₁ : VmaFrame (s.modify b Bo.clearMap) s₁ := ⟨rfl, fun _ => rfl⟩
  simp only [boCloseVma, modify_vmaList, hadd, deref_some, ok_bind, modify_self]
  exact (boPurgeVmaCache_spec h₁).mono fun s' hs' => ⟨hs'.1, hfr₁.trans hs'.2⟩

/-- `open_vma` after the map count of an object that was not mapped was raised. -/
theorem boOpenVma_spec {vl : List BoId} {s : Bufmgr} (h : VmaOk vl s) {b : BoId}
    (hb : (s.bos b).allocated = true) (hm : (s.bos b).mapCount = 0) :
    Returns (boOpenVma b (s.modify b (Bo.addMap 1))) fun s' =>
      VmaInv s' ∧ VmaFrame (s.modify b (Bo.addMap 1)) s' := by
  obtain ⟨m, hdel, hl, ha, hf⟩ := h.list.del (((h.obj b).idle hb hm).imp_right And.left)
  let s₁ : Bufmgr := { s.modify b (Bo.addMap 1) with
    vmaOpen := s.vmaOpen + 1, vmaList := m, vmaCount := s.vmaCount - (s.bos b).maps }
  have hnb : b ∉ vl.erase b := h.list.nodup.not_mem_erase
  have hm₁ : ((s.bos b).addMap 1).mapCount = 1 := by simp [Bo.addMap, hm]
  have h₁ : VmaOk (vl.erase b) s₁ := by
    refine h.change hb rfl rfl hl ?_ ?_ (fun c _ => ha _) (fun c _ hcn => hf c hcn) ?_ ?_
    · exact ⟨by omega, fun hin => absurd hin hnb, fun _ => by rw [ha]; exact (h.obj b).node hb,
        fun _ h0 => by omega, fun h0 => absurd (hb.symm.trans h0) (by simp)⟩
    · exact fun c hcb => List.mem_erase_of_ne hcb
    · show s.vmaOpen + 1 = s.vmaOpen - (s.bos b).opens + ((s.bos b).addMap 1).opens
      simp [Bo.opens, hm, hm₁]
    · show s.vmaCount - (s.bos b).maps = s.vmaCount - (s.bos b).idleMaps + ((s.bos b).addMap 1).idleMaps
      simp [Bo.idleMaps, hm, hm₁]
  have hfr₁ : VmaFrame (s.modify b (Bo.addMap 1)) s₁ := ⟨rfl, fun _ => rfl⟩
  simp only [boOpenVma, modify_vmaList, hdel, deref_some, ok_bind, modify_self]
  exact (boPurgeVmaCache_spec h₁).mono fun s' hs' => ⟨hs'.1, hfr₁.trans hs'.2⟩

/-- The manager without the object `b`; `m` is the memory of the VMA list afterwards. -/
def Bufmgr.freed (s : Bufmgr) (b : BoId) (m : DList.Mem Node) : Bufmgr :=
  { s with
    bos := Function.update s.bos b {}
    vmaList := m
    nameList := DList.free s.nameList (some b)
    vmaCount := s.vmaCount - (s.bos b).maps
    kernel := s.kernel.close (s.bos b).gemHandle }

/-- `bo_free` of an object that is not mapped. -/
theorem boFree_spec {s : Bufmgr} (h : VmaInv s) {b : BoId} (hb : (s.bos b).allocated = true)
    (hm : (s.bos b).mapCount = 0) :
    Returns (boFree b s) fun s' => VmaInv s' ∧ s' = s.freed b s'.vmaList
      ∧ ∀ vl, OnList s.vmaList vl → OnList s'.vmaList (vl.erase b) := by
  obtain ⟨⟨vl, hvl⟩, hlim⟩ := h
  obtain ⟨m, hdel, hl, ha, hf⟩ := hvl.list.del (((hvl.obj b).idle hb hm).imp_right And.left)
  have hnb : b ∉ vl.erase b := hvl.list.nodup.not_mem_erase
  have hfree : ∀ c, c ≠ b → DList.free m (some b) (some c) = m (some c) := fun c hc => by
    simp [DList.free, hc]
  have hok : VmaOk (vl.erase b) (s.freed b (DList.free m (some b))) := by
    refine hvl.change hb rfl rfl (hl.free hnb) ?_ ?_ ?_ ?_ ?_ ?_
    · exact ⟨le_rfl, fun hin => absurd hin hnb, fun h => (by cases h), fun h => (by cases h), fun _ => ⟨rfl, rfl⟩⟩
    · exact fun c hcb => List.mem_erase_of_ne hcb
    · exact fun c hcb => (congrArg Option.isSome (hfree c hcb)).trans (ha _)
    · exact fun c hcb hcn => (hfree c hcb).trans (hf c hcn)
    · show s.vmaOpen = s.vmaOpen - (s.bos b).opens + 0
      simp [Bo.opens, hm]
    · show s.vmaCount - (s.bos b).maps = s.vmaCount - (s.bos b).idleMaps + 0
      simp [Bo.idleMaps, hm]
  have hmaps := (s.bos b).maps_nonneg
  refine ⟨s.freed b (DList.free m (some b)), by simp [boFree, hdel]; rfl, ⟨⟨_, hok⟩, ?_⟩, rfl,
    fun vl' hvl' => ?_⟩
  case refine_2 => rw [← hvl.list.unique hvl']; exact hok.list
  intro hmax
  have hle : s.vmaCount ≤ max 0 (s.vmaMax - 2 * s.vmaOpen) := hlim hmax
  show s.vmaCount - (s.bos b).maps ≤ max 0 (s.vmaMax - 2 * s.vmaOpen)
  omega

/-! ## The mapping functions -/

/-- The object without what the mapping functions write to it. -/
def Bo.mapless (bo : Bo) : Bo :=
  { bo with memVirtual := 0, gttVirtual := 0, mapCount := 0, virt := 0, mappedCpuWrite := false }

/-- Only mappings have changed, and the map count of no object but `b`. -/
structure MapFrame (b : BoId) (s s' : Bufmgr) : Prop where
  rest : { s' with vmaList := s.vmaList, vmaCount := s.vmaCount, vmaOpen := s.vmaOpen, bos := s.bos } = s
  bos : ∀ c, (s'.bos c).mapless = (s.bos c).mapless
  mapCount : ∀ c, c ≠ b → (s'.bos c).mapCount = (s.bos c).mapCount

theorem MapFrame.trans {b : BoId} {s₁ s₂ s₃ : Bufmgr} (h₁ : MapFrame b s₁ s₂)
    (h₂ : MapFrame b s₂ s₃) : MapFrame b s₁ s₃ := by
  refine ⟨?_, fun c => (h₂.bos c).trans (h₁.bos c),
    fun c hc => (h₂.mapCount c hc).trans (h₁.mapCount c hc)⟩
  have e₁ := h₁.rest
  rw [← h₂.rest] at e₁
  exact e₁

theorem VmaFrame.mapFrame {s s' : Bufmgr} (h : VmaFrame s s') (b : BoId) : MapFrame b s s' :=
  ⟨h.rest, fun c => (congrArg Bo.mapless (h.bos c) :), fun c _ => (congrArg Bo.mapCount (h.bos c) :)⟩

theorem MapFrame.modify {b : BoId} (s : Bufmgr) {f : Bo → Bo}
    (hf : (f (s.bos b)).mapless = (s.bos b).mapless) : MapFrame b s (s.modify b f) := by
  refine ⟨rfl, fun c => ?_, fun c hc => by rw [modify_of_ne s hc]⟩
  rw [modify_bos]
  split
  · rename_i hcb; subst hcb; exact hf
  · rfl

theorem MapFrame.allocated {b : BoId} {s s' : Bufmgr} (h : MapFrame b s s') (c : BoId) :
    (s'.bos c).allocated = (s.bos c).allocated := (congrArg Bo.allocated (h.bos c) :)

/-- Writing to fields that the accounts do not read. -/
theorem VmaInv.modify {s : Bufmgr} (h : VmaInv s) {b : BoId} {f : Bo → Bo}
    (ha : (f (s.bos b)).allocated = (s.bos b).allocated)
    (hm : (f (s.bos b)).mapCount = (s.bos b).mapCount)
    (hp : (f (s.bos b)).maps = (s.bos b).maps) : VmaInv (s.modify b f) := by
  obtain ⟨⟨vl, hvl⟩, hlim⟩ := h
  refine ⟨⟨vl, hvl.congr rfl rfl rfl rfl ?_ ?_ ?_⟩, hlim⟩ <;> intro c <;> rw [modify_bos] <;> split
  all_goals first | rfl | (rename_i hcb; subst hcb; assumption)

/-- Writing to a mapped object that stays mapped. -/
theorem VmaInv.modify_mapped {s : Bufmgr} (h : VmaInv s) {b : BoId} {f : Bo → Bo}
    (hb : (s.bos b).allocated = true) (hm : 0 < (s.bos b).mapCount)
    (hfb : (f (s.bos b)).allocated = true) (hfm : 0 < (f (s.bos b)).mapCount) :
    VmaInv (s.modify b f) := by
  obtain ⟨⟨vl, hvl⟩, hlim⟩ := h
  exact ⟨⟨vl, hvl.modify_mapped hb hm hfb hfm⟩, hlim⟩

/-- Other fields of the manager change. -/
theorem VmaInv.same {s s' : Bufmgr} (h : VmaInv s) (hb : s'.bos = s.bos) (hl : s'.vmaList = s.vmaList)
    (hn : s'.nextBo = s.nextBo) (ho : s'.vmaOpen = s.vmaOpen) (hc : s'.vmaCount = s.vmaCount)
    (hm : s'.vmaMax = s.vmaMax) : VmaInv s' := by
  obtain ⟨⟨vl, hvl⟩, hlim⟩ := h
  refine ⟨⟨vl, hvl.congr hl hn ho hc ?_ ?_ ?_⟩, ?_⟩
  · exact fun b => by rw [hb]
  · exact fun b => by rw [hb]
  · exact fun b => by rw [hb]
  · rw [VmaLimit, hm, hc, ho]; exact hlim

theorem VmaInv.setLock {s : Bufmgr} (h : VmaInv s) (l : Bool) : VmaInv { s with lock := l } :=
  h.same rfl rfl rfl rfl rfl rfl

theorem mapBegin_spec {s : Bufmgr} (h : VmaInv s) {b : BoId} (hb : (s.bos b).allocated = true) :
    Returns (mapBegin b s) fun s' => VmaInv s' ∧ 0 < (s'.bos b).mapCount ∧ MapFrame b s s' := by
  obtain ⟨⟨vl, hvl⟩, hlim⟩ := h
  have hfr₀ : MapFrame b s (s.modify b (Bo.addMap 1)) := MapFrame.modify s rfl
  unfold mapBegin
  split
  · rename_i hm
    refine (boOpenVma_spec hvl hb hm).mono ?_
    rintro s' ⟨h', hfr⟩
    have hcount : (s'.bos b).mapCount = (s.bos b).mapCount + 1 := by
      have := congrArg Bo.mapCount (hfr.bos b)
      rwa [modify_self] at this
    exact ⟨h', by omega, hfr₀.trans (hfr.mapFrame b)⟩
  · have hpos : 0 < (s.bos b).mapCount := by have := (hvl.obj b).nonneg; omega
    have hpos' : 0 < ((s.bos b).addMap 1).mapCount := by simp only [Bo.addMap]; omega
    exact .ok ⟨⟨⟨vl, hvl.modify_mapped hb hpos hb hpos'⟩, hlim⟩, by rwa [modify_self], hfr₀⟩

theorem mapEnd_spec {s : Bufmgr} (h : VmaInv s) {b : BoId} (hb : (s.bos b).allocated = true)
    (hm : 0 < (s.bos b).mapCount) :
    Returns (mapEnd b s) fun s' => VmaInv s' ∧ MapFrame b s s' := by
  obtain ⟨⟨vl, hvl⟩, hlim⟩ := h
  have hfr₀ : MapFrame b s (s.modify b (Bo.addMap (-1))) := MapFrame.modify s rfl
  unfold mapEnd
  simp only [modify_self]
  split
  · rename_i hm1
    have hclear : s.modify b (Bo.addMap (-1)) = s.modify b Bo.clearMap :=
      modify_congr s (by rw [Bo.addMap, Bo.clearMap, show (s.bos b).mapCount + -1 = 0 from hm1])
    rw [hclear] at hfr₀ ⊢
    exact (boCloseVma_spec hvl hb hm).mono fun s' hs' => ⟨hs'.1, hfr₀.trans (hs'.2.mapFrame b)⟩
  · rename_i hm1
    have hpos' : 0 < ((s.bos b).addMap (-1)).mapCount := by simp only [Bo.addMap] at hm1 ⊢; omega
    exact .ok ⟨⟨⟨vl, hvl.modify_mapped hb hm hb hpos'⟩, hlim⟩, hfr₀⟩

/-- What every function of the mapping interface keeps. -/
def MapPost (b : BoId) (s : Bufmgr) (r : Int × Bufmgr) : Prop := VmaInv r.2 ∧ MapFrame b s r.2

theorem MapPost.intro {b : BoId} {s s' : Bufmgr} {ret : Int} (h : VmaInv s') (hfr : MapFrame b s s') :
    MapPost b s (ret, s') := ⟨h, hfr⟩

theorem MapPost.refl {b : BoId} {s : Bufmgr} {ret : Int} (h : VmaInv s) : MapPost b s (ret, s) :=
  ⟨h, rfl, fun _ => rfl, fun _ _ => rfl⟩

/-- The lock around one of these functions. -/
theorem withLock_map {b : BoId} {s : Bufmgr} {f : Bufmgr → Except Fault (Int × Bufmgr)}
    (hlock : s.lock = false) (hf : Returns (f { s with lock := true }) (MapPost b { s with lock := true })) :
    Returns (s.withLock f) (MapPost b s) := by
  refine Bufmgr.withLock_returns hlock (hf.mono ?_)
  rintro ⟨ret, s'⟩ ⟨h', hfr⟩
  refine ⟨h'.setLock false, ?_, hfr.bos, hfr.mapCount⟩
  have hs : { s with lock := false } = s := by rw [← hlock]
  exact (congrArg (fun t : Bufmgr => { t with lock := false }) hfr.rest).trans hs

section
variable {s : Bufmgr} {b : BoId} (h : VmaInv s) (hb : (s.bos b).allocated = true)
include h hb

theorem mapGtt_spec (mmap : Reply Nat) : Returns (mapGtt b mmap s) (MapPost b s) := by
  unfold mapGtt
  split
  · exact .ok (.refl h)
  refine (mapBegin_spec h hb).bind ?_
  rintro s₁ ⟨h₁, hm₁, hfr₁⟩
  have hb₁ : (s₁.bos b).allocated = true := (hfr₁.allocated b).trans hb
  split
  · cases mmap with
    | error e =>
        exact (mapEnd_spec h₁ hb₁ hm₁).bind fun s₂ hs₂ => .pure (.intro hs₂.1 (hfr₁.trans hs₂.2))
    | ok addr =>
        exact .pure (.intro (h₁.modify_mapped hb₁ hm₁ hb₁ hm₁) (hfr₁.trans (MapFrame.modify s₁ rfl)))
  · exact .pure (.intro (h₁.modify_mapped hb₁ hm₁ hb₁ hm₁) (hfr₁.trans (MapFrame.modify s₁ rfl)))

theorem boMap_spec (hlock : s.lock = false) (writeEnable : Bool) (mmap : Reply Nat) :
    Returns (boMap b writeEnable mmap s) (MapPost b s) := by
  unfold boMap
  split
  · exact .ok (.intro (h.modify rfl rfl rfl) (MapFrame.modify s rfl))
  refine withLock_map hlock ((mapBegin_spec (h.setLock true) hb).bind ?_)
  rintro s₁ ⟨h₁, hm₁, hfr₁⟩
  have hb₁ : (s₁.bos b).allocated = true := (hfr₁.allocated b).trans hb
  split
  · cases mmap with
    | error e =>
        exact (mapEnd_spec h₁ hb₁ hm₁).bind fun s₂ hs₂ => .pure (.intro hs₂.1 (hfr₁.trans hs₂.2))
    | ok addr =>
        exact .pure (.intro (h₁.modify_mapped hb₁ hm₁ hb₁ hm₁) (hfr₁.trans (MapFrame.modify s₁ rfl)))
  · exact .pure (.intro (h₁.modify_mapped hb₁ hm₁ hb₁ hm₁) (hfr₁.trans (MapFrame.modify s₁ rfl)))

theorem boMapGtt_spec (hlock : s.lock = false) (mmap : Reply Nat) :
    Returns (boMapGtt b mmap s) (MapPost b s) :=
  withLock_map hlock (mapGtt_spec (h.setLock true) hb mmap)

theorem boMapUnsynchronized_spec (hlock : s.lock = false) (mmap : Reply Nat) :
    Returns (boMapUnsynchronized b mmap s) (MapPost b s) := by
  unfold boMapUnsynchronized
  split
  · exact withLock_map hlock (mapGtt_spec (h.setLock true) hb mmap)
  · exact boMapGtt_spec h hb hlock mmap

theorem boUnmap_spec (hlock : s.lock = false) (swFinish : Reply Unit) :
    Returns (boUnmap b swFinish s) (MapPost b s) := by
  unfold boUnmap
  split
  · exact .ok (.refl h)
  refine withLock_map hlock ?_
  split
  · exact .ok (.refl (h.setLock true))
  · rename_i hm
    let s₀ : Bufmgr := { s with lock := true }
    let f : Bo → Bo := fun bo => { bo with mappedCpuWrite := false }
    have h₀ : VmaInv (s₀.modify b f) := (h.setLock true).modify rfl rfl rfl
    have hb₀ : ((s₀.modify b f).bos b).allocated = true := by rw [modify_self]; exact hb
    have hm₀ : 0 < ((s₀.modify b f).bos b).mapCount := by rw [modify_self]; exact not_le.mp hm
    have hfr₀ : MapFrame b s₀ (s₀.modify b f) := MapFrame.modify s₀ rfl
    refine (mapEnd_spec h₀ hb₀ hm₀).bind ?_
    rintro s₁ ⟨h₁, hfr₁⟩
    exact .pure (.intro (h₁.modify rfl rfl rfl) ((hfr₀.trans hfr₁).trans (MapFrame.modify s₁ rfl)))

end

theorem setVmaCacheSize_spec {s : Bufmgr} (h : VmaInv s) (limit : Int) :
    Returns (setVmaCacheSize limit s) fun s' => VmaInv s' ∧ VmaFrame { s with vmaMax := limit } s' := by
  obtain ⟨vl, hvl⟩ := h.ok
  have hvl' : VmaOk vl { s with vmaMax := limit } :=
    hvl.congr rfl rfl rfl rfl (fun _ => rfl) (fun _ => rfl) (fun _ => rfl)
  exact boPurgeVmaCache_spec hvl'

end LibDrm.Gem
