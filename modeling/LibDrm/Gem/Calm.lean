/-
# `LibDrm.Gem.Calm` — the scratch fields of the objects

Two fields of a buffer object are scratch space of a walk: `validate_index`,
which says where the object stands in the validation list, and
`included_in_check_aperture`.  A walk relies on finding them unset in every
object, also in one that comes out of the reuse cache, because an allocation
resets only the first of the two.

`Tame s s'` says of a function that it leaves them unset, and that what it
writes to `reloc_tree_fences` is an `int`.  It needs no other invariant, so it
is shown function by function, along the code.
-/
import LibDrm.Gem.Exec
import LibDrm.Gem.Reloc
import LibDrm.Gem.Share

namespace LibDrm.Gem

open CInt

/-- The object is not counted and not on the validation list, and its fence count is an `int`. -/
def Bo.Calm (bo : Bo) : Prop :=
  bo.includedInCheckAperture = false ∧ (bo.allocated = true → bo.validateIndex = -1)
    ∧ int32 bo.relocTreeFences = bo.relocTreeFences

/-- No object is counted, none is on the validation list, and the list is empty. -/
structure Calm (s : Bufmgr) : Prop where
  unflagged : Unflagged s
  unlisted : Unlisted s
  fences : ∀ c, int32 (s.bos c).relocTreeFences = (s.bos c).relocTreeFences

/-- What was at rest still is. -/
structure Tame (s s' : Bufmgr) : Prop where
  execBos : s'.execBos = s.execBos
  execObjects : s'.execObjects = s.execObjects
  bos : ∀ c, (s.bos c).Calm → (s'.bos c).Calm

theorem Calm.bo {s : Bufmgr} (h : Calm s) (c : BoId) : (s.bos c).Calm :=
  ⟨h.unflagged c, h.unlisted.index c, h.fences c⟩

theorem Calm.tame {s s' : Bufmgr} (h : Calm s) (ht : Tame s s') : Calm s' where
  unflagged c := (ht.bos c (h.bo c)).1
  unlisted := ⟨ht.execBos.trans h.unlisted.execBos, fun a => by rw [ht.execObjects]; exact h.unlisted.execObjects a,
    fun c => (ht.bos c (h.bo c)).2.1⟩
  fences c := (ht.bos c (h.bo c)).2.2

/-- What a walk leaves. -/
theorem Calm.quiet {s s' : Bufmgr} (h : Calm s) (hq : Quiet s s') (hf : Unflagged s') (hu : Unlisted s') :
    Calm s' where
  unflagged := hf
  unlisted := hu
  fences c := by
    rw [show (s'.bos c).relocTreeFences = (s.bos c).relocTreeFences from
      (congrArg Bo.relocTreeFences (hq.bos c) :)]
    exact h.fences c

namespace Tame

variable {s s' s'' : Bufmgr}

theorem refl (s : Bufmgr) : Tame s s := ⟨rfl, rfl, fun _ h => h⟩

theorem trans (h₁ : Tame s s') (h₂ : Tame s' s'') : Tame s s'' :=
  ⟨h₂.execBos.trans h₁.execBos, h₂.execObjects.trans h₁.execObjects, fun c h => h₂.bos c (h₁.bos c h)⟩

theorem modify (s : Bufmgr) {b : BoId} {f : Bo → Bo} (hf : (s.bos b).Calm → (f (s.bos b)).Calm) :
    Tame s (s.modify b f) := by
  refine ⟨rfl, rfl, fun c hc => ?_⟩
  by_cases hcb : c = b
  · subst hcb; rw [modify_self]; exact hf hc
  · rw [modify_of_ne s hcb]; exact hc

/-- The fields are kept. -/
theorem of_fields (he : s'.execBos = s.execBos) (ho : s'.execObjects = s.execObjects)
    (hi : ∀ c, (s'.bos c).includedInCheckAperture = (s.bos c).includedInCheckAperture)
    (ha : ∀ c, (s'.bos c).allocated = (s.bos c).allocated)
    (hv : ∀ c, (s'.bos c).validateIndex = (s.bos c).validateIndex)
    (hn : ∀ c, (s'.bos c).relocTreeFences = (s.bos c).relocTreeFences) : Tame s s' := by
  refine ⟨he, ho, fun c hc => ?_⟩
  rw [Bo.Calm, hi, ha, hv, hn]
  exact hc

theorem of_mapFrame {b : BoId} (h : MapFrame b s s') : Tame s s' :=
  of_fields (congrArg Bufmgr.execBos h.rest :) (congrArg Bufmgr.execObjects h.rest :)
    (fun c => (congrArg Bo.includedInCheckAperture (h.bos c) :)) h.allocated
    (fun c => (congrArg Bo.validateIndex (h.bos c) :)) (fun c => (congrArg Bo.relocTreeFences (h.bos c) :))

theorem locked {f : Bufmgr → Except Fault Bufmgr} (hf : ∀ s, Ensures (f s) (Tame s)) (s : Bufmgr) :
    Ensures (s.locked f) (Tame s) := by
  unfold Bufmgr.locked
  split
  · exact .error
  · exact (hf _).bind fun s' h' => .pure ⟨h'.execBos, h'.execObjects, h'.bos⟩

theorem withLock {α : Type} {f : Bufmgr → Except Fault (α × Bufmgr)}
    (hf : ∀ s, Ensures (f s) fun r => Tame s r.2) (s : Bufmgr) :
    Ensures (s.withLock f) fun r => Tame s r.2 := by
  unfold Bufmgr.withLock
  split
  · exact .error
  · exact (hf _).bind fun r h' => .pure ⟨h'.execBos, h'.execObjects, h'.bos⟩

end Tame

/-! ## Mappings and releases -/

theorem purgeLoop_tame (limit : Int) : ∀ (k : Nat) (s : Bufmgr), Ensures (purgeLoop limit k s) (Tame s)
  | 0, _ => .error
  | k + 1, s => by
      unfold purgeLoop
      split
      · split
        · rename_i b _
          refine .bind_any fun _ => .bind_any fun m => ?_
          have h₁ : Tame s { s.modify b Bo.unmapAll with
              vmaList := m, vmaCount := s.vmaCount - (s.bos b).maps } :=
            (Tame.modify s (b := b) (f := Bo.unmapAll) id).trans ⟨rfl, rfl, fun _ h => h⟩
          exact (purgeLoop_tame limit k _).mono fun _ h => h₁.trans h
        · exact .error
      · exact .ok (Tame.refl s)

theorem boPurgeVmaCache_tame (s : Bufmgr) : Ensures (boPurgeVmaCache s) (Tame s) := by
  unfold boPurgeVmaCache
  split
  · exact .ok (Tame.refl s)
  · exact purgeLoop_tame _ _ s

theorem boCloseVma_tame (b : BoId) (s : Bufmgr) : Ensures (boCloseVma b s) (Tame s) :=
  .bind_any fun _ => (boPurgeVmaCache_tame _).mono fun _ h => ⟨h.execBos, h.execObjects, h.bos⟩

theorem boFree_tame (b : BoId) (s : Bufmgr) : Ensures (boFree b s) (Tame s) := by
  refine .bind_any fun m => .pure ⟨rfl, rfl, fun c hc => ?_⟩
  show (Function.update s.bos b {} c).Calm
  by_cases hcb : c = b
  · subst hcb; rw [Function.update_self]; exact ⟨rfl, nofun, rfl⟩
  · rw [Function.update_of_ne hcb]; exact hc

theorem boCacheOrFree_tame (madv : Madvise) (time : Int) (b : BoId) (s : Bufmgr) :
    Ensures (boCacheOrFree madv time b s) (Tame s) := by
  unfold boCacheOrFree
  split
  · split
    · exact .ok ((Tame.modify s (b := b) (f := Bo.toCache time) fun h => ⟨h.1, fun _ => rfl, h.2.2⟩).trans
        ⟨rfl, rfl, fun _ h => h⟩)
    · exact boFree_tame b s
  · exact boFree_tame b s

theorem boRetire_tame (madv : Madvise) (time : Int) (b : BoId) (s : Bufmgr) :
    Ensures (boRetire madv time b s) (Tame s) := by
  have h₁ : Tame s (s.modify b Bo.clearRelocs) := Tame.modify s id
  refine Ensures.bind (P := Tame s) ?_ fun s₁ hs₁ => .bind_any fun m =>
    (boCacheOrFree_tame madv time b _).mono fun s₂ h => hs₁.trans ⟨h.execBos, h.execObjects, h.bos⟩
  simp only [boUnlink]
  split
  · exact (boCloseVma_tame b _).mono fun s₂ h => (h₁.trans (Tame.modify _ (f := Bo.clearMap) id)).trans h
  · exact .ok h₁

theorem boUnreferenceFinal_tame {unref : BoId → Bufmgr → Except Fault Bufmgr}
    (hu : ∀ b s, Ensures (unref b s) (Tame s)) (madv : Madvise) (time : Int) (b : BoId) (s : Bufmgr) :
    Ensures (boUnreferenceFinal unref madv time b s) (Tame s) := by
  refine Ensures.bind (P := Tame s) (.foldlM (Tame.refl s) fun s₁ t h₁ => ?_) fun s₁ h₁ =>
    (boRetire_tame madv time b s₁).mono fun s₂ h₂ => h₁.trans h₂
  split
  · exact .ok h₁
  · exact (hu t s₁).mono fun s₂ h₂ => h₁.trans h₂

theorem boUnreferenceLockedTimed_tame (madv : Madvise) (time : Int) : ∀ (k : Nat) (b : BoId) (s : Bufmgr),
    Ensures (boUnreferenceLockedTimed madv time k b s) (Tame s)
  | 0, _, _ => .error
  | k + 1, b, s => by
      have h₁ : Tame s (s.modify b Bo.decRef) := Tame.modify s id
      refine .bind_any fun _ => ?_
      split
      · exact (boUnreferenceFinal_tame (boUnreferenceLockedTimed_tame madv time k) madv time b _).mono
          fun s₂ h₂ => h₁.trans h₂
      · exact .ok h₁

theorem dropStale_tame (stale : BoId → Bo → Bool) (i : Nat) : ∀ (l : List BoId) (s : Bufmgr),
    Ensures (dropStale stale i l s) (Tame s)
  | [], s => .ok (Tame.refl s)
  | b :: l, s => by
      unfold dropStale
      split
      · refine (boFree_tame b _).bind fun s₁ h₁ => (dropStale_tame stale i l s₁).mono fun s₂ h₂ => ?_
        exact Tame.trans ⟨h₁.execBos, h₁.execObjects, h₁.bos⟩ h₂
      · exact .ok (Tame.refl s)

theorem cleanupBoCache_tame (time : Int) (s : Bufmgr) : Ensures (cleanupBoCache time s) (Tame s) := by
  unfold cleanupBoCache
  split
  · exact .ok (Tame.refl s)
  · refine Ensures.bind (P := Tame s) (.foldlM (Tame.refl s) fun s₁ i h₁ => ?_) fun s₁ h₁ =>
      .pure ⟨h₁.execBos, h₁.execObjects, h₁.bos⟩
    exact (dropStale_tame _ i _ s₁).mono fun s₂ h₂ => h₁.trans h₂

theorem boUnreference_tame (madv : Madvise) (time : Int) (b : BoId) (s : Bufmgr) :
    Ensures (boUnreference madv time b s) (Tame s) := by
  refine .bind_any fun _ => ?_
  split
  · exact .ok (Tame.modify s id)
  refine Tame.locked (fun s => ?_) s
  have h₁ : Tame s (s.modify b Bo.decRef) := Tame.modify s id
  split
  · refine (boUnreferenceFinal_tame (boUnreferenceLockedTimed_tame madv time _) madv time b _).bind
      fun s₂ h₂ => (cleanupBoCache_tame time s₂).mono fun s₃ h₃ => (h₁.trans h₂).trans h₃
  · exact .ok h₁

/-! ## Relocations -/

theorem fencesOf_int {nf : Bool} {t : BoId} {s : Bufmgr}
    (h : int32 (s.bos t).relocTreeFences = (s.bos t).relocTreeFences) :
    int32 (fencesOf nf t s) = fencesOf nf t s := by
  cases nf with
  | true => rfl
  | false => exact h

theorem boEmitReloc_tame (b : BoId) (a : EmitArgs) (s : Bufmgr) :
    Ensures (boEmitReloc b a s) fun r => Tame s r.2 := by
  rintro ⟨ret, s'⟩ hr
  rcases boEmitReloc_cases hr with ⟨-, rfl⟩ | ⟨-, -, room, rfl⟩
  · exact Tame.modify s id
  · have hsetup : Tame s (s.modify b (Bo.setup room)) := Tame.modify s id
    refine hsetup.trans ?_
    have hrest := storedReloc_rest b a (a.needFence s) (a.fencedCommand s) room (s.modify b (Bo.setup room))
    refine ⟨(congrArg Bufmgr.execBos hrest :), (congrArg Bufmgr.execObjects hrest :), fun c hc => ?_⟩
    by_cases ht : a.target = b
    · rw [storedReloc_self_bos ht]
      split
      · rename_i hcb; subst hcb; exact ⟨hc.1, hc.2.1, int32_int32 _⟩
      · exact hc
    · rw [storedReloc_bos ht]
      split
      · rename_i hcb; subst hcb; exact ⟨hc.1, hc.2.1, int32_int32 _⟩
      · split
        · rename_i hct; subst hct; exact ⟨hc.1, hc.2.1, fencesOf_int hc.2.2⟩
        · exact hc

theorem boClearRelocs_tame (madv : Madvise) (time : Int) (b : BoId) (start : Nat) (s : Bufmgr) :
    Ensures (boClearRelocs madv time b start s) (Tame s) := by
  refine .bind_any fun _ => Tame.locked (fun s => ?_) s
  refine Ensures.bind (P := Tame s) (.foldlM (Tame.refl s) fun s₁ t h₁ => ?_) fun s₁ h₁ =>
    .pure (h₁.trans (Tame.modify s₁ id))
  unfold dropReloc
  split
  · exact .ok h₁
  · refine (boUnreferenceLockedTimed_tame madv time _ t _).mono fun s₂ h₂ => (h₁.trans ?_).trans h₂
    exact Tame.modify s₁ fun hc => ⟨hc.1, hc.2.1, int32_int32 _⟩

/-! ## Allocations -/

theorem boSetTilingInternal_tame (b : BoId) (mode stride : Nat) (setTiling : Reply Tiling) (s : Bufmgr) :
    Tame s (boSetTilingInternal b mode stride setTiling s).2 := by
  obtain ⟨ret, t, he, -⟩ := boSetTilingInternal_eq b mode stride setTiling s
  rw [he]
  exact Tame.modify s id

theorem setInApertureSize_tame (b : BoId) (s : Bufmgr) : Ensures (setInApertureSize b s) (Tame s) :=
  .bind_any fun _ => .bind_any fun _ => .pure (Tame.modify s id)

theorem pickCached_tame (i : Nat) (forRender : Bool) (busy : Reply Bool) (s : Bufmgr) :
    Tame s (pickCached i forRender busy s).2 := by
  unfold pickCached
  split
  · exact Tame.refl s
  · rename_i b l _
    split
    · exact ⟨rfl, rfl, fun _ h => h⟩
    · obtain ⟨idle, he⟩ := boBusy_eq b busy s
      have h₁ : Tame s (s.modify b (Bo.setIdle idle)) := Tame.modify s id
      rw [he]
      cases (s.bos b).isBusy busy with
      | true => exact h₁
      | false => exact ⟨h₁.execBos, h₁.execObjects, h₁.bos⟩

theorem searchCache_tame (i : Nat) (forRender : Bool) (mode stride : Nat) (replies : Nat → SearchReply) :
    ∀ (k : Nat) (s : Bufmgr), Ensures (searchCache i forRender mode stride replies k s) fun r => Tame s r.2
  | 0, _ => .error
  | k + 1, s => by
      unfold searchCache
      have hpick := pickCached_tame i forRender (replies k).busy s
      split
      · rename_i s₁ he; rw [he] at hpick; exact .ok hpick
      rename_i b s₁ he
      rw [he] at hpick
      split
      · have hset := boSetTilingInternal_tame b mode stride (replies k).setTiling s₁
        split
        rename_i ret s₂ he₂
        rw [he₂] at hset
        split
        · exact .ok (hpick.trans hset)
        · refine (boFree_tame b s₂).bind fun s₃ h₃ => ?_
          exact (searchCache_tame i forRender mode stride replies k s₃).mono fun r h =>
            ((hpick.trans hset).trans h₃).trans h
      · refine (boFree_tame b s₁).bind fun s₂ h₂ => (dropStale_tame _ i _ s₂).bind fun s₃ h₃ => ?_
        exact (searchCache_tame i forRender mode stride replies k s₃).mono fun r h =>
          ((hpick.trans h₂).trans h₃).trans h

/-- The answer of a search for an object: it is at rest but for its index. -/
def Found (s : Bufmgr) (r : Option BoId × Bufmgr) : Prop :=
  match r.1 with
  | none => Tame s r.2
  | some b => Tame s (r.2.modify b (Bo.setIndex (-1)))

theorem Tame.found {s : Bufmgr} {r : Option BoId × Bufmgr} (h : Tame s r.2) : Found s r := by
  obtain ⟨found, s₁⟩ := r
  cases found with
  | none => exact h
  | some b => exact h.trans (Tame.modify s₁ fun hc => ⟨hc.1, fun _ => rfl, hc.2.2⟩)

theorem allocFinish_tame {reusable : Bool} {s : Bufmgr} {r : Option BoId × Bufmgr} (h : Found s r) :
    Ensures (allocFinish reusable r.1 r.2) fun r' => Tame s r'.2 := by
  obtain ⟨found, s₁⟩ := r
  cases found with
  | none => exact .ok h
  | some b =>
      refine (setInApertureSize_tame b _).bind fun s₂ h₂ => .pure (Tame.trans (Tame.trans h ?_) h₂)
      refine ⟨rfl, rfl, fun c hc => ?_⟩
      rw [modify_bos] at hc ⊢
      split
      · rename_i hcb
        rw [if_pos hcb] at hc
        exact ⟨hc.1, fun _ => rfl, rfl⟩
      · rename_i hcb
        rw [if_neg hcb] at hc
        exact hc

/-- A new object at the number `nextBo`. -/
theorem Tame.calloc (s : Bufmgr) {bo : Bo} (hb : bo.Calm) : Tame s (s.calloc bo) := by
  refine ⟨rfl, rfl, fun c hc => ?_⟩
  show (Function.update s.bos s.nextBo bo c).Calm
  by_cases hcb : c = s.nextBo
  · rw [hcb, Function.update_self]; exact hb
  · rw [Function.update_of_ne hcb]; exact hc

theorem calloc_found (s : Bufmgr) (bo : Bo) (hb : bo.includedInCheckAperture = false)
    (hn : int32 bo.relocTreeFences = bo.relocTreeFences) {s' : Bufmgr}
    (hbos : s'.bos = (s.calloc bo).bos) (he : s'.execBos = s.execBos) (ho : s'.execObjects = s.execObjects) :
    Found s (some s.nextBo, s') := by
  have h : Tame s (s.calloc (bo.setIndex (-1))) := Tame.calloc s ⟨hb, fun _ => rfl, hn⟩
  refine ⟨he, ho, fun c hc => ?_⟩
  have := h.bos c hc
  rw [← calloc_modify, Bufmgr.modify] at this
  rw [Bufmgr.modify, hbos]
  exact this

theorem initNodes_bos (b : BoId) (s : Bufmgr) : Ensures (initNodes b s) fun s' =>
    s'.bos = s.bos ∧ s'.execBos = s.execBos ∧ s'.execObjects = s.execObjects :=
  .bind_any fun _ => .bind_any fun _ => .pure ⟨rfl, rfl, rfl⟩

theorem allocCached_found (bucket : Option Nat) (forRender : Bool) (mode stride : Nat)
    (replies : Nat → SearchReply) (s : Bufmgr) :
    Ensures (allocCached bucket forRender mode stride replies s) fun r => Tame s r.2 := by
  refine Tame.withLock (fun s => ?_) s
  split
  · exact .ok (Tame.refl s)
  · exact searchCache_tame _ forRender mode stride replies _ s

theorem allocFresh_found (size mode stride : Nat) (r : FreshReply) (s : Bufmgr) :
    Ensures (allocFresh size mode stride r s) (Found s) := by
  unfold allocFresh
  split
  · exact .ok (Tame.refl s)
  split
  · exact .ok (Tame.refl s)
  rename_i h o _
  let s₁ : Bufmgr := { s.calloc { allocated := true, size := size, gemHandle := h } with
    kernel := s.kernel.create h o }
  obtain ⟨ret, t, hset, -⟩ := boSetTilingInternal_eq s.nextBo mode stride r.setTiling s₁
  simp only [s₁] at hset
  simp only [hset]
  split
  · refine (initNodes_bos s.nextBo _).bind fun s₂ hs₂ => .pure ?_
    refine calloc_found s (({ allocated := true, size := size, gemHandle := h } : Bo).setTiling t) rfl rfl ?_
      hs₂.2.1 hs₂.2.2
    rw [hs₂.1, ← calloc_modify]
    rfl
  · refine Ensures.bind (P := Tame s) ?_ fun s₂ hs₂ => .pure hs₂
    refine .bind_any fun m => .pure ⟨rfl, rfl, fun c hc => ?_⟩
    -- the new object is gone again, and the others were not touched
    show Bo.Calm (Function.update (Bufmgr.modify _ s.nextBo _).bos s.nextBo {} c)
    by_cases hcb : c = s.nextBo
    · rw [hcb, Function.update_self]; exact ⟨rfl, nofun, rfl⟩
    · rw [Function.update_of_ne hcb, modify_of_ne _ hcb]
      show Bo.Calm (Function.update s.bos s.nextBo _ c)
      rw [Function.update_of_ne hcb]
      exact hc

theorem boAllocInternal_tame (size : Nat) (forRender : Bool) (mode stride : Nat) (r : AllocReply) (s : Bufmgr) :
    Ensures (boAllocInternal size forRender mode stride r s) fun r' => Tame s r'.2 := by
  refine (allocCached_found (boBucketForSize size) forRender mode (stride % 2 ^ 32) r.search s).bind ?_
  rintro ⟨found, s₁⟩ h₁
  cases found with
  | some b => exact allocFinish_tame (r := (some b, s₁)) h₁.found
  | none =>
      refine (allocFresh_found _ mode (stride % 2 ^ 32) r.fresh s₁).bind fun r' h' => ?_
      exact (allocFinish_tame h').mono fun _ h₂ => Tame.trans h₁ h₂

theorem boAllocTiled_tame (x y cpp : Int) (mode : Nat) (forRender : Bool) (r : AllocReply) (s : Bufmgr) :
    Ensures (boAllocTiled x y cpp mode forRender r s) fun r' => Tame s r'.2 :=
  .bind_any fun l => boAllocInternal_tame l.1 forRender l.2.2 _ r s

theorem boAllocUserptr_tame (addr mode size : Nat) (r : FreshReply) (s : Bufmgr) :
    Ensures (boAllocUserptr addr mode size r s) fun r' => Tame s r'.2 := by
  unfold boAllocUserptr
  split
  · exact .ok (Tame.refl s)
  split
  · exact .ok (Tame.refl s)
  split
  · exact .ok (Tame.refl s)
  · rename_i h o _
    refine (initNodes_bos s.nextBo _).bind fun s₁ hs₁ => allocFinish_tame (r := (some s.nextBo, s₁)) ?_
    refine calloc_found s { allocated := true, size := size, gemHandle := h, isUserptr := true, virt := addr,
                             userVirtual := addr } rfl rfl hs₁.1 hs₁.2.1 hs₁.2.2

theorem boSetTiling_tame (b : BoId) (mode stride : Nat) (setTiling : Reply Tiling) (s : Bufmgr) :
    Ensures (boSetTiling b mode stride setTiling s) fun r => Tame s r.2 := by
  unfold boSetTiling
  split
  · exact .ok (Tame.refl s)
  obtain ⟨ret, t, hset, -⟩ :=
    boSetTilingInternal_eq b mode (if mode = I915_TILING_NONE then 0 else stride) setTiling s
  have h₁ : Tame s (s.modify b (Bo.setTiling t)) := Tame.modify s id
  simp only [hset]
  by_cases hret : ret = 0
  · rw [if_pos hret]
    exact (setInApertureSize_tame b _).bind fun s₂ h₂ => .pure (h₁.trans h₂)
  · rw [if_neg hret]
    exact .ok h₁

/-! ## Aperture checks -/

/-- A check writes at most the recounted size to the first object. -/
theorem checkApertureSpace_quiet {E : BoId → Prop} {callers : BoId → Nat} {s : Bufmgr}
    (h : Settled E callers s) (hf : Unflagged s) {bos : List (Option BoId)}
    (hbos : ∀ c, some c ∈ bos → (s.bos c).allocated = true) :
    Ensures (checkApertureSpace bos s) fun r => Quiet s r.2 ∧ Tame s r.2
      ∧ ∀ c, (r.2.bos c).relocTreeSize = (s.bos c).relocTreeSize
        ∨ (r.2.bos c).relocTreeSize = CInt.int32 (exactTotal s [some c]) := by
  cases bos with
  | nil => exact .error
  | cons b bos =>
      cases b with
      | none => exact .error
      | some b =>
          have hset : ∀ v, Quiet s (s.modify b (Bo.setTreeSize v)) ∧ Tame s (s.modify b (Bo.setTreeSize v)) :=
            fun v => ⟨Quiet.modify s rfl, Tame.modify s id⟩
          rw [checkApertureSpace_eq h hf hbos]
          refine .ok ?_
          split
          · exact ⟨Quiet.refl s, Tame.refl s, fun c => Or.inl rfl⟩
          split
          · exact ⟨Quiet.refl s, Tame.refl s, fun c => Or.inl rfl⟩
          · refine ⟨(hset _).1, (hset _).2, fun c => ?_⟩
            by_cases hcb : c = b
            · right
              rw [hcb, modify_self, Bo.setTreeSize_relocTreeSize]
            · exact Or.inl (by rw [modify_of_ne s hcb])

/-! ## Shared objects -/

theorem linkNamed_tame (b : BoId) (s : Bufmgr) : Ensures (linkNamed b s) (Tame s) :=
  .bind_any fun _ => .bind_any fun _ => .pure ⟨rfl, rfl, fun _ h => h⟩

theorem nameNew_tame (madv : Madvise) (time : Int) (name : Nat) (h : Handle) (r : NameReply) (s : Bufmgr) :
    Ensures (nameNew madv time name h r s) fun r' => Tame s r'.2 := by
  unfold nameNew
  split
  · exact .ok (Tame.refl s)
  have h₁ : Tame s (s.calloc (namedBo name h r.size)) := Tame.calloc s ⟨rfl, fun _ => rfl, rfl⟩
  dsimp only
  split
  · exact (boUnreference_tame madv time _ _).bind fun s₂ h₂ => .pure (h₁.trans h₂)
  · refine (setInApertureSize_tame _ _).bind fun s₂ h₂ => (linkNamed_tame _ s₂).bind fun s₃ h₃ => .pure ?_
    exact ((h₁.trans (Tame.modify _ id)).trans h₂).trans h₃

theorem boReference_tame (b : BoId) (s : Bufmgr) : Tame s (boReference b s) := Tame.modify s id

theorem boGemCreateFromName_tame (madv : Madvise) (time : Int) (name : Nat) (r : NameReply) (s : Bufmgr) :
    Ensures (boGemCreateFromName madv time name r s) fun r' => Tame s r'.2 := by
  refine Tame.withLock (fun s => .bind_any fun found => ?_) s
  split
  · exact .pure (boReference_tame _ s)
  split
  · exact .pure (Tame.refl s)
  refine .bind_any fun found => ?_
  split
  · rename_i b
    have h := boReference_tame b s
    exact .pure ⟨h.execBos, h.execObjects, h.bos⟩
  · exact (nameNew_tame madv time name _ r _).mono fun r' h => ⟨h.execBos, h.execObjects, h.bos⟩

theorem primeImport_tame (opened : Bool) (h : Handle) (size : Int) (r : PrimeReply) (s : Bufmgr) :
    Ensures (primeImport opened h size r s) fun r' => Tame s r'.2 := by
  refine Tame.withLock (fun s => .bind_any fun found => ?_) s
  split
  · exact .pure (boReference_tame _ s)
  split
  · unfold primeNew
    split
    · exact .ok (Tame.refl s)
    · refine (linkNamed_tame _ _).bind fun s₁ h₁ => .pure (Tame.trans (Tame.calloc s ?_) h₁)
      exact ⟨rfl, fun _ => rfl, rfl⟩
  · exact .pure (Tame.refl s)

theorem primeFinish_tame (madv : Madvise) (time : Int) (getTiling : Reply Tiling) (i : Import) (s : Bufmgr) :
    Ensures (primeFinish madv time getTiling i s) fun r' => Tame s r'.2 := by
  unfold primeFinish
  split
  · exact .ok (Tame.refl s)
  · exact .ok (Tame.refl s)
  · split
    · exact (boUnreference_tame madv time _ s).bind fun s₁ h₁ => .pure h₁
    · exact (setInApertureSize_tame _ _).bind fun s₁ h₁ => .pure ((Tame.modify s id).trans h₁)

theorem boGemCreateFromPrime_tame (madv : Madvise) (time : Int) (size : Int) (r : PrimeReply) (s : Bufmgr) :
    Ensures (boGemCreateFromPrime madv time size r s) fun r' => Tame s r'.2 := by
  have h₀ : Tame s (primeFdToHandle r s).2 := by
    unfold primeFdToHandle
    split <;> exact ⟨rfl, rfl, fun _ h => h⟩
  unfold boGemCreateFromPrime
  split
  rename_i opened h s₁ he
  rw [he] at h₀
  refine (primeImport_tame opened h size r s₁).bind fun i h₁ => ?_
  exact (primeFinish_tame madv time r.getTiling i.1 i.2).mono fun r' h₂ => (h₀.trans h₁).trans h₂

theorem putOnNamed_tame (b : BoId) (s : Bufmgr) : Ensures (putOnNamed b s) (Tame s) := by
  unfold putOnNamed
  split
  · exact .bind_any fun _ => .pure ⟨rfl, rfl, fun _ h => h⟩
  · exact .ok (Tame.refl s)

theorem boGemExportToPrime_tame (b : BoId) (handleToFd : Reply Unit) (s : Bufmgr) :
    Ensures (boGemExportToPrime b handleToFd s) fun r => Tame s r.2 := by
  refine (Tame.locked (putOnNamed_tame b) s).bind fun s₁ h₁ => .pure ?_
  unfold exportEnd
  split
  · exact h₁
  · have h₂ : Tame s₁ (s₁.modify b Bo.keep) := Tame.modify s₁ id
    exact h₁.trans ⟨h₂.execBos, h₂.execObjects, h₂.bos⟩

theorem boFlink_tame (b : BoId) (flink : Reply Nat) (s : Bufmgr) :
    Ensures (boFlink b flink s) fun r => Tame s r.2 := by
  unfold boFlink
  split
  · exact .ok (Tame.refl s)
  refine Tame.withLock (fun s => ?_) s
  split
  · exact .ok (Tame.refl s)
  · rename_i name
    refine (putOnNamed_tame b _).bind fun s₁ h₁ => .pure (Tame.trans ?_ h₁)
    have h₂ : Tame s (s.modify b fun bo => { bo.keep with globalName := name }) := Tame.modify s id
    exact ⟨h₂.execBos, h₂.execObjects, h₂.bos⟩

end LibDrm.Gem
