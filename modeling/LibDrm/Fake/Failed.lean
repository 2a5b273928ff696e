/-
# `LibDrm.Fake.Failed` — what is left of a submission that failed

`bo_exec` prepares the batch before it is submitted, and a submission that fails
returns at once: neither are the blocks fenced nor are the marks taken back.

    read_domains    of the batch, as `bo_exec` has set it
    validated       of the batch, unless it is static
    on_hardware     the blocks of the batch

So nothing of what the caller may count on (`Clean`) holds after any failure
(`failed_exec`): the prepared batch stands as it was, and `evict_all` finds its
blocks on the hardware and fails its assertion.
-/
import LibDrm.Fake.Mapping
import LibDrm.Fake.Ownership

open Relation

namespace LibDrm.Fake

variable {s s' s₁ s'' : State} {b c : BoId} {bo : Bo} {k : BlockId} {blk : Block} {env : Env}

/-! ## The domains -/

def Bo.domains (bo : Bo) : UInt32 × UInt32 := (bo.readDomains, bo.writeDomain)

/-- The buffers have the domains that they had. -/
def SameDomains (s s' : State) : Prop := ∀ c, (s'.bo c).map Bo.domains = (s.bo c).map Bo.domains

theorem SameDomains.refl (s : State) : SameDomains s s := fun _ => rfl

theorem SameDomains.trans (h : SameDomains s s') (h' : SameDomains s' s'') : SameDomains s s'' :=
  fun c => (h' c).trans (h c)

theorem Tidies.sameDomains (h : Tidies s s') : SameDomains s s' := fun c => h.field (fun _ => rfl) c

theorem modifyBo_sameDomains (b : BoId) (f : Bo → Bo) (hf : ∀ bo : Bo, (f bo).domains = bo.domains) :
    Ensures (s.modifyBo b f) (SameDomains s) := by
  refine (modifyBo_ensures b f s).mono ?_
  rintro s' ⟨bo, hb, rfl⟩
  exact map_setBo hb (hf bo)

theorem Points.sameDomains (h : Points b s s') : SameDomains s s' := by
  obtain ⟨s₁, bo, p, h₁, hb, rfl⟩ := h
  exact h₁.sameDomains.trans (map_setBo hb rfl)

theorem boMapLocked_sameDomains (env : Env) (b : BoId) (writeEnable : Bool) (s : State) :
    Ensures (boMapLocked env b writeEnable s) fun r => SameDomains s r.2 := by
  intro r hr
  cases hb : s.bo b with
  | none =>
      rw [boMapLocked, State.getBo, hb] at hr
      cases hr
  | some bo =>
      have hset : ∀ n, SameDomains s (s.setBo b { bo with mapCount := n }) := fun n => map_setBo hb rfl
      cases boMapLocked_maps hb env writeEnable r hr with
      | static _ htidies => exact htidies.sameDomains
      | again _ _ => exact hset _
      | first _ _ _ hpoints => exact (hset 1).trans hpoints.sameDomains
      | refused _ _ _ htidies => exact (hset 1).trans htidies.sameDomains

theorem unmapIfMapped_sameDomains (b : BoId) (s : State) : Ensures (unmapIfMapped b s) (SameDomains s) := by
  unfold unmapIfMapped boUnmapLocked
  refine (getBo_ensures b s).bind fun bo hb => ?_
  split
  · refine Ensures.bind (P := fun r => SameDomains s r.2) ?_ fun r hr => .pure hr
    refine (getBo_ensures b s).bind fun bo hb => ?_
    split
    · exact .pure (.refl s)
    · refine Ensures.bind_any fun _ => ?_
      dsimp only
      split
      · exact .pure (map_setBo hb rfl)
      · exact .pure (map_setBo hb rfl)
  · exact .pure (.refl s)

theorem writeVirtual_sameDomains (b : BoId) (offset : Nat) (bytes : List UInt8) (s : State) :
    Ensures (writeVirtual b offset bytes s) (SameDomains s) := by
  unfold writeVirtual
  refine (getBo_ensures b s).bind fun bo hb => ?_
  split
  · exact .error
  · dsimp only
    split
    · exact .error
    · exact Ensures.bind_any fun old => .pure (map_setBo hb rfl)
    · exact .pure fun _ => rfl

theorem applyReloc_sameDomains (env : Env) (b : BoId) (i : Nat) (s : State) :
    Ensures (applyReloc env b i s) (SameDomains s) := by
  unfold applyReloc
  refine Ensures.bind_any fun bo => Ensures.bind_any fun r => Ensures.bind_any fun tbo => ?_
  split
  · exact .pure (.refl s)
  · have hrest : ∀ s₁, Ensures (do
        let s ← writeVirtual b r.offset.toNat (bytes32 (UInt32.ofNat ((tbo.offset + r.delta.toNat) % 2 ^ 32).toNat)) s₁
        s.modifyBo b fun bo => { bo with
          relocs := bo.relocs.set i { r with lastTargetOffset := UInt32.ofNat (tbo.offset % 2 ^ 32).toNat } })
        (SameDomains s₁) := fun s₁ =>
      Ensures.chain (p := id) (writeVirtual_sameDomains b _ _ s₁) .trans fun s₂ => modifyBo_sameDomains b _ fun _ => rfl
    dsimp only
    split
    · exact Ensures.chain (boMapLocked_sameDomains env b true s) .trans fun r => hrest r.2
    · exact hrest s

theorem markCardDirty_sameDomains (env : Env) (b : BoId) (s : State) : Ensures (markCardDirty env b s) (SameDomains s) := by
  unfold markCardDirty
  refine Ensures.bind_any fun bo => ?_
  have hrest : ∀ s₁, Ensures (do
      let s ← s₁.modifyBo b fun bo => { bo with cardDirty := true }
      return { s with performedRendering := true }) (SameDomains s₁) := fun s₁ =>
    (modifyBo_sameDomains b _ (by exact fun _ => rfl)).bind fun s₂ h₂ => .pure h₂
  split
  · split
    · exact (allocBackingStore_tidies env b s).bind fun s₁ h₁ =>
        (hrest s₁).mono fun s₂ h₂ => h₁.sameDomains.trans h₂
    · exact hrest s
  · exact .pure (.refl s)

theorem upload_sameDomains (env : Env) (b : BoId) (blk : Block) (s : State) :
    Ensures (upload env b blk s) (SameDomains s) := by
  unfold upload
  refine Ensures.bind_any fun _ => Ensures.bind_any fun _ => (waitIdle_tidies env s).bind fun s₁ h₁ => ?_
  exact (getBo_ensures b s₁).bind fun bo hb => .pure (h₁.sameDomains.trans (map_setBo hb rfl))

theorem placeBo_sameDomains (env : Env) (b : BoId) (s : State) : Ensures (placeBo env b s) fun r => SameDomains s r.2 := by
  unfold placeBo
  refine (getBo_ensures b s).bind fun bo hb => Ensures.bind_any fun k => Ensures.bind_any fun blk =>
    Ensures.bind_any fun _ => ?_
  have hset : SameDomains s (s.setBo b { bo with offset := s.ofs blk }) := map_setBo hb rfl
  have hrest : ∀ s₁, Ensures (do
      let s ← moveToHardware k s₁
      let s ← s.modifyBo b fun bo => { bo with validated := true }
      return ((0 : Int), { s with needFence := true })) fun r => SameDomains s₁ r.2 := by
    intro s₁
    unfold moveToHardware
    refine Ensures.bind (P := SameDomains s₁) (Ensures.bind_any fun _ => .pure fun _ => rfl) fun s₂ h₂ => ?_
    exact (modifyBo_sameDomains b _ (by exact fun _ => rfl)).bind fun s₃ h₃ => .pure (h₂.trans h₃)
  dsimp only
  split
  · exact (upload_sameDomains env b blk _).bind fun s₁ h₁ => (hrest s₁).mono fun r h => (hset.trans h₁).trans h
  · exact (hrest _).mono fun r h => hset.trans h

theorem boValidate_sameDomains (env : Env) (b : BoId) (s : State) :
    Ensures (boValidate env b s) fun r => SameDomains s r.2 := by
  unfold boValidate
  refine Ensures.bind_any fun bo => Ensures.bind_any fun _ => ?_
  split
  · exact .pure (.refl s)
  · split
    · refine (evictAndAllocBlock_tidies env b s).bind ?_
      rintro ⟨done, s₁⟩ h₁
      cases done with
      | false => exact .pure h₁.sameDomains
      | true => exact (placeBo_sameDomains env b s₁).mono fun r h => h₁.sameDomains.trans h
    · exact placeBo_sameDomains env b s

theorem kickAllLocked_sameDomains (s : State) : Ensures (kickAllLocked s) (SameDomains s) := by
  refine Ensures.foldlM (I := SameDomains s) (fun _ => rfl) fun s₁ k h₁ => ?_
  unfold kickBlock
  refine (getBlock_ensures k s₁).bind fun blk hblk => Ensures.bind_any fun b => ?_
  have hset : Tidies s₁ (s₁.setBlock k { blk with onHardware := false }) := tidies_setBlock hblk (by rfl)
  refine (freeBlock_tidies k false _).bind fun s₂ h₂ => ?_
  exact (modifyBo_sameDomains b _ (by exact fun _ => rfl)).mono fun s₃ h₃ =>
    SameDomains.trans (SameDomains.trans h₁ (hset.trans h₂).sameDomains) h₃

theorem stepwise_sameDomains (env : Env) : Stepwise env SameDomains where
  refl := .refl
  trans := .trans
  apply := applyReloc_sameDomains env
  unmap := unmapIfMapped_sameDomains
  mark := markCardDirty_sameDomains env
  validate := boValidate_sameDomains env
  kick := kickAllLocked_sameDomains
  fail _ := fun _ => rfl

/-! ## What the batch has become -/

/-- The block stands on `on_hardware`, and no fence takes it off. -/
structure Stuck (k : BlockId) (s : State) : Prop where
  hardware : k ∈ s.onHardware
  unfenced : ∃ blk, s.block k = some blk ∧ blk.fenced = false

/-- The buffer is part of a batch. -/
def Committed (b : BoId) (s : State) : Prop :=
  ∃ bo, s.bo b = some bo ∧ (bo.isStatic = false → bo.validated = true ∧ ∃ k, Stuck k s)

theorem moveToHardware_stuck (k : BlockId) (s : State) : Ensures (moveToHardware k s) (Stuck k) := by
  unfold moveToHardware
  refine (getBlock_ensures k s).bind fun blk _ => .pure ⟨List.mem_append_right _ (List.mem_singleton_self k), ?_⟩
  exact ⟨{ blk with fenced := false, onHardware := true }, Function.update_self .., rfl⟩

theorem placeBo_committed (env : Env) (b : BoId) (s : State) : Ensures (placeBo env b s) fun r => Committed b r.2 := by
  unfold placeBo
  refine Ensures.bind_any fun bo => Ensures.bind_any fun k => Ensures.bind_any fun blk => Ensures.bind_any fun _ => ?_
  have hrest : ∀ s₁, Ensures (do
      let s ← moveToHardware k s₁
      let s ← s.modifyBo b fun bo => { bo with validated := true }
      return ((0 : Int), { s with needFence := true })) fun r => Committed b r.2 := by
    intro s₁
    refine (moveToHardware_stuck k s₁).bind fun s₂ hstuck => (modifyBo_ensures b _ s₂).bind ?_
    rintro s₃ ⟨bo₂, _, rfl⟩
    exact .pure ⟨_, setBo_self .., fun _ => ⟨rfl, k, hstuck.hardware, hstuck.unfenced⟩⟩
  dsimp only
  split
  · exact Ensures.bind_any fun s₁ => hrest s₁
  · exact hrest _

theorem boValidate_committed (env : Env) (b : BoId) (s : State) :
    Ensures (boValidate env b s) fun r => r.1 = 0 → Committed b r.2 := by
  unfold boValidate
  refine (getBo_ensures b s).bind fun bo hb => Ensures.bind_any fun _ => ?_
  split
  · case isTrue hstatic => exact .pure fun _ => ⟨bo, hb, fun hno => absurd (hno.symm.trans hstatic) nofun⟩
  · split
    · refine Ensures.bind_any ?_
      rintro ⟨done, s₁⟩
      cases done with
      | false => exact .pure fun hret => absurd hret (show (-1 : Int) ≠ 0 by decide)
      | true => exact (placeBo_committed env b s₁).mono fun r h _ => h
    · exact (placeBo_committed env b s).mono fun r h _ => h

/-- The buffer itself comes last in its validation. -/
theorem relocAndValidateBuffer_committed (env : Env) (fuel : Nat) (b : BoId) (s : State) :
    Ensures (relocAndValidateBuffer env fuel b s) fun r => r.1 = 0 → Committed b r.2 := by
  cases fuel with
  | zero => exact .error
  | succ fuel =>
      unfold relocAndValidateBuffer
      refine Ensures.bind_any fun bo => Ensures.bind_any fun _ => Ensures.bind_any fun q => ?_
      dsimp only
      split
      · case isTrue hfailed => exact .pure fun hret => absurd hret hfailed
      · exact Ensures.bind_any fun s₁ => Ensures.bind_any fun s₂ => boValidate_committed env b s₂

theorem validateBatch_committed (env : Env) (b : BoId) (s : State) : Ensures (validateBatch env b s) (Committed b) := by
  have hend : ∀ q : Int × State, (q.1 = 0 → Committed b q.2) → Ensures (do
      assert (q.1 = 0)
      return q.2) (Committed b) := fun q hq =>
    (assert_ensures _).bind fun _ hret => .pure (hq (of_decide_eq_true hret))
  unfold validateBatch
  refine (relocAndValidateBuffer_committed env env.fuel b s).bind fun r hr => ?_
  dsimp only
  split
  · refine Ensures.bind_any fun s₁ => ?_
    exact (relocAndValidateBuffer_committed env env.fuel b _).bind fun q hq => hend q hq
  · exact hend r hr

/-- What the batch is when it goes to the hardware. -/
theorem prepareExec_committed (env : Env) (b : BoId) (s : State) : Ensures (prepareExec env b s) fun s' =>
    Committed b s' ∧ ∃ bo, s'.bo b = some bo ∧ bo.readDomains = I915_GEM_DOMAIN_COMMAND := by
  rw [prepareExec_eq]
  refine Ensures.bind_any fun s₁ => (modifyBo_ensures b _ s₁).bind ?_
  rintro s₂ ⟨bo, _, rfl⟩
  refine ((validateBatch_committed env b _).and ((stepwise_sameDomains env).batch b _)).mono ?_
  rintro s' ⟨hcommitted, hsame⟩
  have hmap := hsame b
  rw [setBo_self, Option.map_some] at hmap
  obtain ⟨bo', hb', hdomains⟩ := Option.map_eq_some_iff.mp hmap
  exact ⟨hcommitted, bo', hb', congrArg Prod.fst hdomains⟩

/-! ## Evicting everything -/

theorem Stuck.update {j : BlockId} (h : Stuck k s) (hkj : k ≠ j) {o : Option Block} (hmem : k ∈ s'.onHardware)
    (hblock : s'.block = Function.update s.block j o) : Stuck k s' := by
  refine ⟨hmem, ?_⟩
  rw [hblock, Function.update_of_ne hkj]
  exact h.unfenced

theorem Stuck.unlink {j : BlockId} (h : Stuck k s) (hkj : k ≠ j) : k ∈ (s.unlink j).onHardware :=
  List.mem_filter.mpr ⟨h.hardware, decide_eq_true hkj⟩

theorem releaseBlock_stuck {j : BlockId} (h : Stuck k s) (hkj : k ≠ j) (blk : Block) :
    Ensures (releaseBlock j blk s) (Stuck k) := by
  unfold releaseBlock
  exact Ensures.bind_any fun _ => .pure (h.update hkj (h.unlink hkj) rfl)

/-- The loop of `clear_fenced` expects fenced blocks, so it does not go on to this one. -/
theorem clearBlock_stuck (h : Stuck k s) (j : BlockId) : Ensures (clearBlock j s) fun r => Stuck k r.2 := by
  unfold clearBlock
  refine (getBlock_ensures j s).bind fun blk hblk => (assert_ensures _).bind fun _ hfenced => ?_
  have hkj : k ≠ j := by
    rintro rfl
    obtain ⟨blk', hblk', hunfenced⟩ := h.unfenced
    obtain rfl := Option.some.inj (hblk'.symm.trans hblk)
    exact absurd (hfenced.symm.trans hunfenced) (by decide)
  split
  · split
    · exact (releaseBlock_stuck h hkj blk).bind fun s₁ h₁ => .pure h₁
    · exact .pure (h.update hkj (h.unlink hkj) rfl)
  · exact .pure h

theorem waitIdle_stuck (h : Stuck k s) (env : Env) : Ensures (waitIdle env s) (Stuck k) := by
  have hblocks : ∀ ks s, Stuck k s → Ensures (clearBlocks ks s) (Stuck k) := by
    intro ks
    induction ks with
    | nil => exact fun _ h => .ok h
    | cons j ks ih =>
        intro s h
        refine (clearBlock_stuck h j).bind fun r hr => ?_
        dsimp only
        split
        · exact ih r.2 hr
        · exact .pure hr
  unfold waitIdle fenceEmitInternal fenceWaitInternal clearFenced
  dsimp only
  split
  · exact hblocks _ _ ⟨h.hardware, h.unfenced⟩
  · split
    · exact .error
    · exact .ok ⟨h.hardware, h.unfenced⟩
    · exact .error
    · exact hblocks _ _ ⟨h.hardware, h.unfenced⟩

theorem evictAll_stuck (h : Stuck k s) (env : Env) : Ensures (evictAll env s) fun _ => False := by
  have hstart : Stuck k { s with needFence := true, fail := false } := ⟨h.hardware, h.unfenced⟩
  unfold evictAll
  refine (waitIdle_stuck hstart env).bind fun s₁ h₁ => Ensures.bind_any fun _ => ?_
  refine (assert_ensures _).bind fun _ hempty => ?_
  have hnone : s₁.onHardware = [] := of_decide_eq_true hempty
  exact absurd h₁.hardware (hnone ▸ List.not_mem_nil)

/-! ## The failure -/

/-- What the caller of an execution that failed may count on: the buffers of the batch are as before, nothing is on the
    hardware, and everything can be evicted. -/
structure Clean (b : BoId) (s : State) : Prop where
  validated : ∀ d bo, ReflTransGen (Targets s) b d → s.bo d = some bo → bo.validated = false
  domains : ∀ d bo, ReflTransGen (Targets s) b d → s.bo d = some bo → bo.readDomains = 0 ∧ bo.writeDomain = 0
  onHardware : s.onHardware = []
  evictAll : ∀ env, evictAll env s ≠ .error .assertion

theorem boExec_failed {result ret : Int} {writes : List GpuWrite} (h : boExec env b result writes s = .ok (ret, s'))
    (hret : ret ≠ 0) : prepareExec env b s = .ok s' := by
  obtain ⟨s₁, hprepare, hrest⟩ := exists_of_bind_ok h
  split at hrest
  · cases hrest
    exact hprepare
  · obtain ⟨s₂, -, hrest⟩ := exists_of_bind_ok hrest
    obtain ⟨s₃, -, hrest⟩ := exists_of_bind_ok hrest
    obtain ⟨s₄, -, hrest⟩ := exists_of_bind_ok hrest
    cases hrest
    exact absurd rfl hret

/-- An execution whose submission fails is never clean: the batch keeps its domains, and if it is not static it stays
    marked and on the hardware, so that `evict_all` never comes to its end. -/
theorem failed_exec {result ret : Int} {writes : List GpuWrite} (h : boExec env b result writes s = .ok (ret, s'))
    (hret : ret ≠ 0) : ¬ Clean b s' ∧ ∃ bo, s'.bo b = some bo ∧ bo.readDomains = I915_GEM_DOMAIN_COMMAND ∧
      (bo.isStatic = false → bo.validated = true ∧ s'.onHardware ≠ [] ∧ ∀ env, Ensures (evictAll env s') fun _ => False) := by
  obtain ⟨⟨bo, hb, hcommitted⟩, bo', hb', hdomains⟩ := prepareExec_committed env b s s' (boExec_failed h hret)
  obtain rfl : bo' = bo := Option.some.inj (hb'.symm.trans hb)
  refine ⟨fun hclean => ?_, bo', hb, hdomains, fun hstatic => ?_⟩
  · have hclear := (hclean.domains b bo' .refl hb).1
    exact absurd (hclear.symm.trans hdomains) (by decide)
  · obtain ⟨hvalidated, k, hstuck⟩ := hcommitted hstatic
    refine ⟨hvalidated, fun hempty => ?_, evictAll_stuck hstuck⟩
    exact absurd hstuck.hardware (hempty ▸ List.not_mem_nil)

/-- A batch with one relocation, before it is executed. -/
def readyOps : List Op := [.alloc 16 4, .alloc 8 4, .subdata 1 0 [1, 2, 3, 4, 5, 6, 7, 8], .emitReloc 0 4 1 0 2 0]

theorem readyOps_runs (h : playAll readyOps = some s) : Runs State.Init State.Step s := by
  refine playAll_runs (fun op s s' hop hrun => ⟨plainEnv, op, hop, hrun⟩) (P := Op.Succeeds) ?_ h
  simp [readyOps, Op.Succeeds]

theorem failed_exec_ready : ∃ s s', Runs State.Init State.Step s ∧ boExec plainEnv 0 (-5) [] s = .ok (-5, s') ∧
    ¬ Clean 0 s' := by
  have hrun : ((playAll readyOps).bind fun s => (boExec plainEnv 0 (-5) [] s).toOption).map Prod.fst = some (-5) := by
    decide +kernel
  obtain ⟨⟨ret, s'⟩, hexec, rfl⟩ := Option.map_eq_some_iff.mp hrun
  obtain ⟨s, hs, hexec⟩ := Option.bind_eq_some_iff.mp hexec
  exact ⟨s, s', readyOps_runs hs, toOption_eq_some hexec, (failed_exec (toOption_eq_some hexec) (by decide)).1⟩

/-- How a program has failed. -/
def failure {α : Type} : Except Fault α → Option Fault
  | .error e => some e
  | .ok _ => none

theorem failure_eq_some {α : Type} {x : Except Fault α} {e : Fault} (h : failure x = some e) : x = .error e := by
  cases x with
  | error e' =>
      cases h
      rfl
  | ok a => cases h

/-- After the failure `evict_all` fails its assertion; and if the batch is released, its block stays on the hardware
    without a buffer, and kicking it out follows a null pointer. -/
theorem failed_exec_unclean : ∃ s s' s'', Runs State.Init State.Step s ∧ boExec plainEnv 0 (-5) [] s = .ok (-5, s') ∧
    ¬ Clean 0 s' ∧ evictAll plainEnv s' = .error .assertion ∧
    unreferenceLocked plainEnv.fuel 0 s' = .ok s'' ∧ kickAllLocked s'' = .error .badPointer := by
  have hrun : ((playAll readyOps).bind fun s => (boExec plainEnv 0 (-5) [] s).toOption.bind fun r =>
      (unreferenceLocked plainEnv.fuel 0 r.2).toOption.map fun s'' =>
        (r.1, failure (evictAll plainEnv r.2), failure (kickAllLocked s''))) =
        some (-5, some .assertion, some .badPointer) := by
    decide +kernel
  obtain ⟨s, hs, hrun⟩ := Option.bind_eq_some_iff.mp hrun
  obtain ⟨⟨ret, s'⟩, hexec, hrun⟩ := Option.bind_eq_some_iff.mp hrun
  obtain ⟨s'', hunref, hfields⟩ := Option.map_eq_some_iff.mp hrun
  obtain ⟨rfl, hevict, hkick⟩ : ret = -5 ∧ failure (evictAll plainEnv s') = some .assertion ∧
      failure (kickAllLocked s'') = some .badPointer := by simpa using hfields
  have hassert := failure_eq_some hevict
  exact ⟨s, s', s'', readyOps_runs hs, toOption_eq_some hexec, fun hclean => hclean.evictAll plainEnv hassert, hassert,
    toOption_eq_some hunref, failure_eq_some hkick⟩

end LibDrm.Fake
