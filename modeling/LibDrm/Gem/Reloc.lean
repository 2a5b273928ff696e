/-
# `LibDrm.Gem.Reloc` — emitting and clearing relocations

`do_bo_emit_reloc` stores a relocation, takes a reference on its target, and
adds the target's size and fence count to those of the object.  The graph stays
acyclic because a target may gain no relocation of its own any more: an object
whose flag `used_as_reloc_target` is not set has no incoming edge, and a new
edge out of such an object closes no cycle (`Settled.emit`).

`clear_relocs` drops the relocations past a saved count.
-/
import LibDrm.Gem.Release

namespace LibDrm.Gem

open Walk CInt

/-! ## The functions -/

/-- The arguments of `emit_reloc` and `emit_reloc_fence`, and whether the allocations succeed. -/
structure EmitArgs where
  offset : Nat
  target : BoId
  targetOffset : Nat
  readDomains : Nat
  writeDomain : Nat
  /-- the call is `emit_reloc_fence` -/
  fence : Bool
  mallocOk : Bool
  deriving DecidableEq, Repr

/-- `drm_intel_setup_reloc_list`; it returns whether it failed. -/
def setupRelocList (b : BoId) (mallocOk : Bool) (s : Bufmgr) : Bool × Bufmgr :=
  let maxRelocs := (uint32 s.cfg.maxRelocs).toNat
  let maxRelocs := if (s.bos b).size / 4 < maxRelocs then (s.bos b).size / 4 else maxRelocs
  if mallocOk then (false, s.modify b fun bo => { bo with relocArray := some (maxRelocs, []) })
  else (true, s.modify b fun bo => { bo with hasError := true, relocArray := none })

/-- The relocation entry that `do_bo_emit_reloc` stores. -/
def EmitArgs.entry (a : EmitArgs) (fencedCommand : Bool) (s : Bufmgr) : Reloc :=
  { offset := a.offset
    delta := a.targetOffset
    targetHandle := (s.bos a.target).gemHandle
    readDomains := a.readDomains
    writeDomain := a.writeDomain
    presumedOffset := (s.bos a.target).offset64
    target := a.target
    fence := fencedCommand }

/-- An entry is written behind those in use, to an array of `room` entries. -/
def Bo.pushReloc (room : Nat) (e : Reloc) (bo : Bo) : Bo :=
  { bo with relocArray := some (room, bo.relocs ++ [e]) }

/-- The writes of `do_bo_emit_reloc` once its checks have passed. -/
def storedReloc (b : BoId) (a : EmitArgs) (needFence fencedCommand : Bool) (room : Nat) (s : Bufmgr) : Bufmgr :=
  let t := a.target
  let s := if t = b then s
    else (s.modify t fun bo => { bo with usedAsRelocTarget := true }).modify b fun bo =>
      { bo with relocTreeSize := int32 (bo.relocTreeSize + (s.bos t).relocTreeSize) }
  let s := if needFence then s.modify t (Bo.setFences 1) else s
  let s := s.modify b (Bo.setFences (int32 ((s.bos b).relocTreeFences + (s.bos t).relocTreeFences)))
  let s := s.modify b (Bo.pushReloc room (a.entry fencedCommand s))
  if t = b then s else s.modify t Bo.incRef

/-- An entry past the end of the array is a write out of bounds. -/
def storeReloc (b : BoId) (a : EmitArgs) (needFence fencedCommand : Bool) (s : Bufmgr) :
    Except Fault (Int × Bufmgr) := do
  let (room, entries) ← deref (s.bos b).relocArray
  if entries.length < room then return (0, storedReloc b a needFence fencedCommand room s)
  else .error .badPointer

/-- `do_bo_emit_reloc`. -/
def doBoEmitReloc (b : BoId) (a : EmitArgs) (needFence : Bool) (s : Bufmgr) :
    Except Fault (Int × Bufmgr) :=
  if (s.bos b).hasError then .ok (-ENOMEM, s)
  else if (s.bos a.target).hasError then
    .ok (-ENOMEM, s.modify b fun bo => { bo with hasError := true })
  else do
    -- we never use HW fences for rendering on 965+
    let fencedCommand := needFence && decide (s.cfg.gen < 4)
    let needFence := fencedCommand && decide ((s.bos a.target).tilingMode ≠ I915_TILING_NONE)
    let (failed, s) := if (s.bos b).relocArray = none then setupRelocList b a.mallocOk s else (false, s)
    if failed then return (-ENOMEM, s)
    else do
      assert ((s.bos b).relocs.length < s.cfg.maxRelocs)
      assert (a.offset ≤ uint64 ((s.bos b).size - 4))
      assert (a.writeDomain &&& (a.writeDomain - 1) == 0)
      assert (!(s.bos b).usedAsRelocTarget)
      storeReloc b a needFence fencedCommand s

/-- `drm_intel_gem_bo_emit_reloc` and `drm_intel_gem_bo_emit_reloc_fence`. -/
def boEmitReloc (b : BoId) (a : EmitArgs) (s : Bufmgr) : Except Fault (Int × Bufmgr) :=
  doBoEmitReloc b a (a.fence || !s.fencedRelocs) s

/-- `drm_intel_gem_bo_get_reloc_count`. -/
def boGetRelocCount (b : BoId) (s : Bufmgr) : Nat := (s.bos b).relocs.length

/-- The body of the loop of `drm_intel_gem_bo_clear_relocs`; `unref` is the call that drops a target. -/
def dropReloc (unref : BoId → Bufmgr → Except Fault Bufmgr) (b t : BoId) (s : Bufmgr) :
    Except Fault Bufmgr :=
  if t = b then .ok s
  else unref t
    (s.modify b (Bo.setFences (int32 ((s.bos b).relocTreeFences - (s.bos t).relocTreeFences))))

/-- `reloc_count = start`. -/
def Bo.truncate (start : Nat) (bo : Bo) : Bo :=
  { bo with relocArray := bo.relocArray.map fun a => (a.1, a.2.take start) }

theorem Bo.truncate_relocs (start : Nat) (bo : Bo) : (bo.truncate start).relocs = bo.relocs.take start := by
  unfold Bo.truncate Bo.relocs
  cases bo.relocArray <;> simp

/-- `drm_intel_gem_bo_clear_relocs`. -/
def boClearRelocs (madv : Madvise) (time : Int) (b : BoId) (start : Nat) (s : Bufmgr) :
    Except Fault Bufmgr := do
  assert (start ≤ (s.bos b).relocs.length)
  s.locked fun s => do
    let unref := boUnreferenceLockedTimed madv time (s.nextBo + 1)
    let s ← ((s.bos b).targets.drop start).foldlM (fun s t => dropReloc unref b t s) s
    return s.modify b (Bo.truncate start)

/-! ## A stored relocation -/

/-- The fence count of the target when it is added to that of the object. -/
def fencesOf (needFence : Bool) (t : BoId) (s : Bufmgr) : Int :=
  if needFence then 1 else (s.bos t).relocTreeFences

/-- The object after a relocation to another one was stored. -/
def Bo.gains (bo : Bo) (size fences : Int) (room : Nat) (e : Reloc) : Bo :=
  { bo with
    relocTreeSize := int32 (bo.relocTreeSize + size)
    relocTreeFences := int32 (bo.relocTreeFences + fences)
    relocArray := some (room, bo.relocs ++ [e]) }

/-- The target afterwards. -/
def Bo.targeted (bo : Bo) (fences : Int) : Bo :=
  { bo with usedAsRelocTarget := true, relocTreeFences := fences, refcount := bo.refcount + 1 }

/-- The object after a relocation to itself was stored. -/
def Bo.gainsSelf (bo : Bo) (fences : Int) (room : Nat) (e : Reloc) : Bo :=
  { bo with relocTreeFences := int32 (fences + fences), relocArray := some (room, bo.relocs ++ [e]) }

@[simp] theorem Bo.gains_relocs (bo : Bo) (size fences : Int) (room : Nat) (e : Reloc) :
    (bo.gains size fences room e).relocs = bo.relocs ++ [e] := rfl

@[simp] theorem Bo.gainsSelf_relocs (bo : Bo) (fences : Int) (room : Nat) (e : Reloc) :
    (bo.gainsSelf fences room e).relocs = bo.relocs ++ [e] := rfl

@[simp] theorem Bo.targeted_relocs (bo : Bo) (fences : Int) : (bo.targeted fences).relocs = bo.relocs := rfl

section Stored

variable {b : BoId} {a : EmitArgs} {nf fc : Bool} {room : Nat} {s : Bufmgr}

/-- Only the object and the target are written to. -/
theorem storedReloc_rest (b : BoId) (a : EmitArgs) (nf fc : Bool) (room : Nat) (s : Bufmgr) :
    { storedReloc b a nf fc room s with bos := s.bos } = s := by
  unfold storedReloc
  by_cases ht : a.target = b <;> cases nf <;> simp [ht, Bufmgr.modify]

theorem storedReloc_bos (ht : a.target ≠ b) (c : BoId) :
    (storedReloc b a nf fc room s).bos c =
      if c = b then (s.bos b).gains (s.bos a.target).relocTreeSize (fencesOf nf a.target s) room (a.entry fc s)
      else if c = a.target then (s.bos a.target).targeted (fencesOf nf a.target s)
      else s.bos c := by
  have hentry : ∀ s' : Bufmgr, (s'.bos a.target).gemHandle = (s.bos a.target).gemHandle →
      (s'.bos a.target).offset64 = (s.bos a.target).offset64 → a.entry fc s' = a.entry fc s := by
    intro s' h₁ h₂
    simp only [EmitArgs.entry, h₁, h₂]
  unfold storedReloc
  cases nf <;>
    simp only [ht, if_false, if_true, Bool.false_eq_true, modify_bos, Ne.symm ht, fencesOf, Bo.setFences] <;>
    by_cases hcb : c = b <;> by_cases hct : c = a.target
  all_goals first
    | exact absurd (hct.symm.trans hcb) ht
    | simp only [hcb, hct, if_true, if_false, Bo.gains, Bo.targeted, Bo.incRef, Ne.symm ht, ht]
  all_goals first
    | rfl
    | (rw [hentry _ (by simp [modify_bos, ht, Bo.setFences]) (by simp [modify_bos, ht, Bo.setFences])]; rfl)

theorem storedReloc_self_bos (ht : a.target = b) (c : BoId) :
    (storedReloc b a nf fc room s).bos c =
      if c = b then (s.bos b).gainsSelf (fencesOf nf b s) room (a.entry fc s) else s.bos c := by
  unfold storedReloc
  cases nf <;> by_cases hcb : c = b <;>
    simp [ht, hcb, modify_bos, fencesOf, Bo.setFences, Bo.gainsSelf, Bo.pushReloc, Bo.relocs, EmitArgs.entry]

end Stored

/-! ## The graph with a further edge -/

section Emit

variable {E : BoId → Prop} {callers : BoId → Nat} {s : Bufmgr} {b : BoId} {a : EmitArgs} {nf fc : Bool} {room : Nat}

/-- The objects that a stored relocation leaves alone. -/
theorem storedReloc_other {c : BoId} (hcb : c ≠ b) (hct : c ≠ a.target) :
    (storedReloc b a nf fc room s).bos c = s.bos c := by
  by_cases ht : a.target = b
  · rw [storedReloc_self_bos ht, if_neg hcb]
  · rw [storedReloc_bos ht, if_neg hcb, if_neg hct]

/-- What a stored relocation does to the fields that the invariants read. -/
theorem storedReloc_fields (b : BoId) (a : EmitArgs) (nf fc : Bool) (room : Nat) (s : Bufmgr) (c : BoId) :
    ((storedReloc b a nf fc room s).bos c).allocated = (s.bos c).allocated
    ∧ ((storedReloc b a nf fc room s).bos c).refcount
        = (s.bos c).refcount + (if a.target ≠ b ∧ a.target = c then 1 else 0)
    ∧ ((storedReloc b a nf fc room s).bos c).relocs
        = (s.bos c).relocs ++ (if c = b then [a.entry fc s] else [])
    ∧ ((storedReloc b a nf fc room s).bos c).usedAsRelocTarget
        = ((s.bos c).usedAsRelocTarget || decide (a.target ≠ b ∧ a.target = c)) := by
  by_cases ht : a.target = b
  · rw [storedReloc_self_bos ht]
    by_cases hcb : c = b
    · subst hcb; refine ⟨?_, ?_, by simp, ?_⟩ <;> simp [Bo.gainsSelf, ht]
    · simp [hcb, ht]
  · rw [storedReloc_bos ht]
    by_cases hcb : c = b
    · subst hcb; refine ⟨?_, ?_, by simp, ?_⟩ <;> simp [Bo.gains, ht]
    · by_cases hct : c = a.target
      · subst hct; refine ⟨?_, ?_, by simp [ht], ?_⟩ <;> simp [Bo.targeted, ht]
      · simp [hcb, hct, Ne.symm hct]

/-- The other fields that the invariants read. -/
theorem storedReloc_kept (b : BoId) (a : EmitArgs) (nf fc : Bool) (room : Nat) (s : Bufmgr) (c : BoId) :
    ((storedReloc b a nf fc room s).bos c).size = (s.bos c).size
    ∧ ((storedReloc b a nf fc room s).bos c).reusable = (s.bos c).reusable
    ∧ ((storedReloc b a nf fc room s).bos c).gemHandle = (s.bos c).gemHandle
    ∧ ((storedReloc b a nf fc room s).bos c).mapCount = (s.bos c).mapCount
    ∧ ((storedReloc b a nf fc room s).bos c).maps = (s.bos c).maps := by
  by_cases ht : a.target = b
  · rw [storedReloc_self_bos ht]
    split
    · rename_i hcb; subst hcb; exact ⟨rfl, rfl, rfl, rfl, rfl⟩
    · exact ⟨rfl, rfl, rfl, rfl, rfl⟩
  · rw [storedReloc_bos ht]
    split
    · rename_i hcb; subst hcb; exact ⟨rfl, rfl, rfl, rfl, rfl⟩
    · split
      · rename_i hct; rw [hct]; exact ⟨rfl, rfl, rfl, rfl, rfl⟩
      · exact ⟨rfl, rfl, rfl, rfl, rfl⟩

theorem storedReloc_targets :
    (fun c => ((storedReloc b a nf fc room s).bos c).targets)
      = Function.update (fun c => (s.bos c).targets) b ((s.bos b).targets ++ [a.target]) := by
  funext c
  by_cases hcb : c = b
  · subst hcb
    rw [Function.update_self, Bo.targets, (storedReloc_fields ..).2.2.1]
    simp [Bo.targets, EmitArgs.entry]
  · rw [Function.update_of_ne hcb, Bo.targets, (storedReloc_fields ..).2.2.1]
    simp [Bo.targets, hcb]

/-- A relocation is stored in an object that no relocation points to. -/
theorem Settled.emit (h : Settled E callers s) (hb : 0 < (s.bos b).refcount)
    (ht : 0 < (s.bos a.target).refcount) (hu : (s.bos b).usedAsRelocTarget = false) :
    Settled E callers (storedReloc b a nf fc room s) := by
  obtain ⟨r, h⟩ := h
  have hrest := storedReloc_rest b a nf fc room s
  have hnext : (storedReloc b a nf fc room s).nextBo = s.nextBo := (congrArg Bufmgr.nextBo hrest :)
  have hf := storedReloc_fields b a nf fc room s
  have hk := storedReloc_kept b a nf fc room s
  have hlt : b < s.nextBo := h.graph.lt_nextBo (h.graph.alloc_of_pos hb)
  have hsource : ∀ c, ¬ Edge (fun c => (s.bos c).targets) c b := fun c he => by
    have := h.graph.used c b he
    rw [hu] at this
    cases this
  -- an edge of the new graph is an old one or the new one
  have hedge : ∀ c d, Edge (fun c => ((storedReloc b a nf fc room s).bos c).targets) c d →
      Edge (fun c => (s.bos c).targets) c d ∨ (c = b ∧ d = a.target ∧ d ≠ b) := by
    intro c d he
    rw [storedReloc_targets] at he
    by_cases hcb : c = b
    · subst hcb
      rw [Edge, Function.update_self] at he
      rcases List.mem_append.mp he.1 with hin | hin
      · exact Or.inl ⟨hin, he.2⟩
      · exact Or.inr ⟨rfl, List.mem_singleton.mp hin, he.2⟩
    · rw [Edge, Function.update_of_ne hcb] at he
      exact Or.inl he
  have hsource' : ∀ c, ¬ Edge (fun c => ((storedReloc b a nf fc room s).bos c).targets) c b := by
    intro c he
    rcases hedge c b he with he | ⟨-, -, hne⟩
    · exact hsource c he
    · exact hne rfl
  obtain ⟨r', hr'⟩ := h.graph.ranked.of_source hsource' (fun c hc d he => by
    rcases hedge c d he with he | ⟨rfl, -, -⟩
    · exact he
    · exact absurd rfl hc)
  have hpos : ∀ c, (s.bos c).refcount ≤ ((storedReloc b a nf fc room s).bos c).refcount := fun c => by
    rw [(hf c).2.1]
    exact Nat.le_add_right ..
  have hgraph : GraphOk (idle E callers r' (storedReloc b a nf fc room s)) (storedReloc b a nf fc room s) := by
    constructor
    · intro c; rw [hnext, (hf c).1]; exact h.graph.fresh c
    · intro c hc
      rw [(hf c).1] at hc
      have h0 := h.graph.unalloc c hc
      rw [(hf c).2.1, h0, if_neg]
      rintro ⟨-, rfl⟩
      omega
    · exact hr'
    · intro c d he
      rw [(hf d).2.2.2]
      rcases hedge c d he with he | ⟨rfl, rfl, hne⟩
      · rw [h.graph.used c d he]; rfl
      · simp [hne]
    · intro c
      have hcount := h.graph.count c
      have hin := incoming_update hlt (fun c => (s.bos c).targets) ((s.bos b).targets ++ [a.target]) c
      rw [edgeRefs_append, edgeRefs_cons, edgeRefs_nil] at hin
      show _ = callers c + List.count c []
        + incoming (fun c => ((storedReloc b a nf fc room s).bos c).targets) (storedReloc b a nf fc room s).nextBo c
      rw [(hf c).2.1, storedReloc_targets, hnext]
      simp only [idle] at hcount
      omega
    · intro c hc _
      have hc0 : (s.bos c).refcount = 0 := Nat.le_zero.mp (hc ▸ hpos c)
      have hcb : c ≠ b := by
        rintro rfl
        omega
      have hdead := h.graph.dead c hc0 (by simp [idle])
      refine ⟨?_, by rw [(hf c).2.2.1, if_neg hcb, List.append_nil]; exact hdead.2⟩
      show ((storedReloc b a nf fc room s).bos c).targets = []
      rw [Bo.targets, (hf c).2.2.1, if_neg hcb, List.append_nil, hdead.2]
      rfl
    · intro c hc
      simp [idle] at hc
  obtain ⟨nl, hn⟩ := h.names
  obtain ⟨⟨vl, hvl⟩, hlim⟩ := h.vma
  refine ⟨r', hgraph, ?_, ⟨nl, ?_⟩, ⟨vl, ?_⟩, ?_⟩
  · refine h.cache.congr (congrArg Bufmgr.bucketHead hrest :) (fun i c hc => ?_) (fun c => ?_)
    · have hcb : c ≠ b := fun e => h.cache.notMem_of_pos hb i (e ▸ hc)
      have hct : c ≠ a.target := fun e => h.cache.notMem_of_pos ht i (e ▸ hc)
      rw [storedReloc_other hcb hct]
      exact h.cache.member i c hc
    · rw [Sized, (hk c).1, (hk c).2.1]
      exact h.cache.sized c
  · refine hn.congr (congrArg Bufmgr.nameList hrest :) (congrArg Bufmgr.kernel hrest :)
      (fun c => (hf c).1) (fun c => (hk c).2.2.1) (fun c => ⟨fun hc => ?_, fun hc => lt_of_lt_of_le hc (hpos c)⟩)
      (fun c hre => (hk c).2.1 ▸ hre)
    rw [(hf c).2.1] at hc
    split at hc
    · rename_i hct; exact hct.2 ▸ ht
    · exact hc
  · exact hvl.congr (congrArg Bufmgr.vmaList hrest :) hnext (congrArg Bufmgr.vmaOpen hrest :)
      (congrArg Bufmgr.vmaCount hrest :) (fun c => (hf c).1) (fun c => (hk c).2.2.2.1)
      (fun c => (hk c).2.2.2.2)
  · have hc : (storedReloc b a nf fc room s).vmaCount = s.vmaCount := (congrArg Bufmgr.vmaCount hrest :)
    have ho : (storedReloc b a nf fc room s).vmaOpen = s.vmaOpen := (congrArg Bufmgr.vmaOpen hrest :)
    have hm : (storedReloc b a nf fc room s).vmaMax = s.vmaMax := (congrArg Bufmgr.vmaMax hrest :)
    rw [VmaLimit, hc, ho, hm]
    exact hlim

end Emit

/-- The command needs its target fenced. -/
def EmitArgs.fencedCommand (a : EmitArgs) (s : Bufmgr) : Bool :=
  (a.fence || !s.fencedRelocs) && decide (s.cfg.gen < 4)

/-- ... and the target is tiled, so that a fence register will be used. -/
def EmitArgs.needFence (a : EmitArgs) (s : Bufmgr) : Bool :=
  a.fencedCommand s && decide ((s.bos a.target).tilingMode ≠ I915_TILING_NONE)

def Bo.setError (err : Bool) (bo : Bo) : Bo := { bo with hasError := err }

/-- The array of relocations is there. -/
def Bo.setup (room : Nat) (bo : Bo) : Bo := { bo with relocArray := some (room, bo.relocs) }

/-- All that `emit_reloc` can do: it refuses, or it stores a relocation. -/
theorem boEmitReloc_cases {b : BoId} {a : EmitArgs} {s s' : Bufmgr} {ret : Int}
    (h : boEmitReloc b a s = .ok (ret, s')) :
    (ret = -ENOMEM ∧ s' = s.modify b (Bo.setError true))
    ∨ (ret = 0 ∧ (s.bos b).usedAsRelocTarget = false
      ∧ ∃ room, s' = storedReloc b a (a.needFence s) (a.fencedCommand s) room
          (s.modify b (Bo.setup room))) := by
  have hstore : ∀ (s₁ : Bufmgr) (nf fc : Bool), storeReloc b a nf fc s₁ = .ok (ret, s') →
      ∃ room entries, (s₁.bos b).relocArray = some (room, entries) ∧ ret = 0
        ∧ s' = storedReloc b a nf fc room s₁ := by
    intro s₁ nf fc h
    unfold storeReloc at h
    cases harr : (s₁.bos b).relocArray with
    | none => simp [harr] at h
    | some re =>
        obtain ⟨room, entries⟩ := re
        rw [harr, deref_some, ok_bind] at h
        simp only at h
        split at h
        · cases h; exact ⟨room, entries, rfl, rfl, rfl⟩
        · cases h
  have hassert : ∀ {p : Bool} {x : Except Fault (Int × Bufmgr)},
      (assert p >>= fun _ => x) = .ok (ret, s') → p = true ∧ x = .ok (ret, s') := by
    intro p x h
    cases p with
    | false => cases h
    | true => exact ⟨rfl, h⟩
  unfold boEmitReloc doBoEmitReloc at h
  split at h
  · rename_i herr
    cases h
    have hsame : (s.bos b).setError true = s.bos b := by rw [← herr]; rfl
    exact Or.inl ⟨rfl, by simp [Bufmgr.modify, hsame]⟩
  split at h
  · cases h; exact Or.inl ⟨rfl, rfl⟩
  by_cases hnone : (s.bos b).relocArray = none
  · have hempty : (s.bos b).relocs = [] := by simp [Bo.relocs, hnone]
    simp only [hnone, if_true, setupRelocList] at h
    cases hok : a.mallocOk with
    | false =>
        simp only [hok, Bool.false_eq_true, if_false, if_true] at h
        cases h
        exact Or.inl ⟨rfl, modify_congr s (by simp [Bo.setError, hnone])⟩
    | true =>
        simp only [hok, if_true, Bool.false_eq_true, if_false] at h
        obtain ⟨-, h⟩ := hassert h
        obtain ⟨-, h⟩ := hassert h
        obtain ⟨-, h⟩ := hassert h
        obtain ⟨hu, h⟩ := hassert h
        obtain ⟨room, entries, harr, hret, hs'⟩ := hstore _ _ _ h
        rw [modify_self] at harr
        obtain ⟨hroom, -⟩ := Prod.mk.inj (Option.some.inj harr)
        refine Or.inr ⟨hret, by simpa using hu, room, ?_⟩
        rw [hs']
        exact congrArg (storedReloc b a (a.needFence s) (a.fencedCommand s) room)
          (modify_congr s (by simp [Bo.setup, hempty, ← hroom]))
  · simp only [hnone, if_false, Bool.false_eq_true] at h
    obtain ⟨-, h⟩ := hassert h
    obtain ⟨-, h⟩ := hassert h
    obtain ⟨-, h⟩ := hassert h
    obtain ⟨hu, h⟩ := hassert h
    obtain ⟨room, entries, harr, hret, hs'⟩ := hstore _ _ _ h
    refine Or.inr ⟨hret, by simpa using hu, room, ?_⟩
    have hsame : s.modify b (Bo.setup room) = s := by
      have hself : some (room, (s.bos b).relocs) = (s.bos b).relocArray := by
        rw [Bo.relocs, harr]
      have : (s.bos b).setup room = s.bos b := by rw [Bo.setup, hself]
      simp [Bufmgr.modify, this]
    rw [hs', hsame]
    rfl

theorem boEmitReloc_spec {E : BoId → Prop} {callers : BoId → Nat} {s : Bufmgr} {b : BoId} {a : EmitArgs}
    (h : Settled E callers s) (hb : 0 < (s.bos b).refcount) (ht : 0 < (s.bos a.target).refcount) :
    Ensures (boEmitReloc b a s) fun r => Settled E callers r.2 ∧ r.2.lock = s.lock := by
  rintro ⟨ret, s'⟩ hr
  rcases boEmitReloc_cases hr with ⟨-, rfl⟩ | ⟨-, hu, room, rfl⟩
  · exact ⟨h.inert (Inert.modify s rfl (Or.inl rfl)) (h.vma.modify rfl rfl rfl), rfl⟩
  · have hsetup : Settled E callers (s.modify b (Bo.setup room)) :=
      h.inert (Inert.modify s rfl (Or.inl rfl)) (h.vma.modify rfl rfl rfl)
    refine ⟨hsetup.emit ?_ ?_ ?_, (congrArg Bufmgr.lock (storedReloc_rest ..) :)⟩
    · rw [modify_self]; exact hb
    · rw [modify_bos]
      split
      · exact hb
      · exact ht
    · rw [modify_self]; exact hu

/-! ## Clearing relocations -/

/-- Relocations are written to an object that has none if it is not referenced. -/
theorem Inv.setRelocs {g : Ghost} {s : Bufmgr} (h : Inv g s) (b : BoId) (start : Nat) :
    Inv g (s.modify b (Bo.truncate start)) := by
  have hkeep : ∀ {α : Type} (F : Bo → α), (∀ bo, F (Bo.truncate start bo) = F bo) →
      ∀ c, F ((s.modify b (Bo.truncate start)).bos c) = F (s.bos c) := by
    intro α F hF c
    rw [modify_bos]
    split
    · rename_i hcb; rw [hcb]; exact hF _
    · rfl
  have ha := hkeep Bo.allocated fun _ => rfl
  have hr := hkeep Bo.refcount fun _ => rfl
  have hu := hkeep Bo.reusable fun _ => rfl
  obtain ⟨nl, hn⟩ := h.names
  refine ⟨⟨fun c => ?_, fun c => ?_, h.graph.ranked, fun c d he => ?_, fun c => ?_, fun c hc hnd => ?_,
    fun c hc => ?_⟩, ?_, ⟨nl, ?_⟩, h.vma.modify rfl rfl rfl⟩
  · rw [ha]; exact h.graph.fresh c
  · rw [ha, hr]; exact h.graph.unalloc c
  · rw [hkeep Bo.usedAsRelocTarget fun _ => rfl]; exact h.graph.used c d he
  · rw [hr]; exact h.graph.count c
  · rw [hr] at hc
    obtain ⟨ho, hl⟩ := h.graph.dead c hc hnd
    refine ⟨ho, ?_⟩
    rw [modify_bos]
    split
    · rename_i hcb
      rw [Bo.truncate_relocs, ← hcb, hl, List.take_nil]
    · exact hl
  · rw [ha, hr]; exact h.graph.dying c hc
  · refine h.cache.congr rfl (fun i c hc => ?_) (fun c => ?_)
    · obtain ⟨hcd, hX⟩ := h.cache.member i c hc
      refine ⟨⟨?_, ?_, ?_, ?_, ?_⟩, hX⟩
      · rw [ha]; exact hcd.allocated
      · rw [hr]; exact hcd.unreferenced
      · rw [hkeep Bo.mapCount fun _ => rfl]; exact hcd.unmapped
      · rw [hu]; exact hcd.reusable
      · rw [hkeep Bo.size fun _ => rfl]; exact hcd.size
    · rw [Sized, hu, hkeep Bo.size fun _ => rfl]; exact h.cache.sized c
  · refine hn.congr rfl rfl ha (hkeep Bo.gemHandle fun _ => rfl) (fun c => ?_) (fun c hre => hu c ▸ hre)
    rw [hr]

section Clear

variable {E : BoId → Prop} {callers : BoId → Nat} {s : Bufmgr} {b : BoId} {start : Nat}

/-- The relocations past `start` are dropped; their targets may be released. -/
theorem boClearRelocs_spec (h : Settled E callers s) (hlock : s.lock = false)
    (hstart : start ≤ (s.bos b).relocs.length) (madv : Madvise) (time : Int) :
    Returns (boClearRelocs madv time b start s) fun s' =>
      Settled E callers s' ∧ Dropped (s.modify b (Bo.truncate start)) s' := by
  simp only [boClearRelocs, hstart, decide_true, assert_true, ok_bind]
  refine Bufmgr.locked_returns hlock ?_
  obtain ⟨r₀, h₀⟩ := h.setLock true
  obtain ⟨r, h₁, hle⟩ := h₀.bounded
  have hsplit : (s.bos b).targets = (s.bos b).targets.take start ++ (s.bos b).targets.drop start :=
    (List.take_append_drop ..).symm
  refine (dropTargets_spec ((s.bos b).targets.take start) _
    (boUnreferenceLockedTimed_spec madv time (s.nextBo + 1)) h₁ (Nat.le_succ_of_le (hle b)) (fun c hc => ?_)
    hsplit (fun _ _ => rfl) (fun t s => ⟨_, rfl⟩)).bind ?_
  · simp [idle] at hc
  rintro s₁ ⟨out₁, hout₁, h₁, hrel⟩
  have hfrozen : ∀ c, 0 < (s₁.bos c).refcount → (s₁.bos c).relocs = (s.bos c).relocs := fun c hc =>
    (congrArg Bo.relocs (hrel.live c hc).2 :)
  have hset : Settled E callers (s₁.modify b (Bo.truncate start)) := by
    refine .of_inv (h₁.setRelocs b start) rfl fun c => ?_
    show out₁ c = _
    by_cases hpos : 0 < (s₁.bos c).refcount
    · rw [modify_bos]
      split
      · rename_i hcb
        subst hcb
        rw [hout₁, Bo.targets, Bo.targets, ← List.map_take, Bo.truncate_relocs, hfrozen c hpos]
      · rename_i hcb
        have ho := (hrel.live c hpos).1
        rw [Function.update_of_ne hcb, Function.update_of_ne hcb] at ho
        rw [ho, Bo.targets, hfrozen c hpos]
        rfl
    · obtain ⟨ho, hl⟩ := (h₁.setRelocs b start).graph.dead c (by
        rw [modify_bos]
        split
        · rename_i hcb; subst hcb; exact Nat.le_zero.mp (not_lt.mp hpos)
        · exact Nat.le_zero.mp (not_lt.mp hpos)) (by simp [idle])
      rw [show out₁ c = [] from ho, Bo.targets, hl]
      rfl
  refine .pure ⟨hset.setLock false, ?_⟩
  have hshell : { s.shell with lock := false } = s.shell := by
    show { s.shell with lock := false } = { s.shell with lock := s.lock }
    rw [hlock]
  refine ⟨(congrArg (fun t : Bufmgr => { t with lock := false }) hrel.rest :).trans hshell,
    fun c => ?_, fun c hc => ?_, ?_⟩
  · show ((s₁.modify b (Bo.truncate start)).bos c).refcount ≤ _
    rw [modify_bos, modify_bos]
    split
    · rename_i hcb; subst hcb; exact hrel.mono c
    · exact hrel.mono c
  · change 0 < ((s₁.modify b (Bo.truncate start)).bos c).refcount at hc
    show ((s₁.modify b (Bo.truncate start)).bos c).frozen = _
    rw [modify_bos] at hc ⊢
    rw [modify_bos]
    split at hc
    · rename_i hcb
      subst hcb
      rw [if_pos rfl, if_pos rfl]
      exact (congrArg (Bo.truncate start) (hrel.live c hc).2 :)
    · rename_i hcb
      rw [if_neg hcb, if_neg hcb]
      exact (hrel.live c hc).2
  · have hfields : ∀ t : Bufmgr, Closes (t.modify b (Bo.truncate start)) t ∧ Closes t (t.modify b (Bo.truncate start)) :=
      fun t => ⟨.of_fields rfl (fun c => (modify_field Bo.allocated t b c rfl).symm)
          (fun c => (modify_field Bo.gemHandle t b c rfl).symm)
          (fun c hc => (modify_field Bo.refcount t b c rfl).symm.trans hc),
        .of_fields rfl (fun c => modify_field Bo.allocated t b c rfl) (fun c => modify_field Bo.gemHandle t b c rfl)
          (fun c hc => (modify_field Bo.refcount t b c rfl).trans hc)⟩
    have hall := ((hfields { s with lock := true }).1.trans hrel.closes).trans (hfields s₁).2
    exact ⟨hall.old, hall.dead, hall.status, hall.handles⟩

end Clear

end LibDrm.Gem
