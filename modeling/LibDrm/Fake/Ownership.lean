/-
# `LibDrm.Fake.Ownership` — who owns which block

The invariant with every buffer exempt (`Links`) says nothing about bytes: blocks
are on the list that their flags name, a buffer and its block point to each other,
and the heap has handed out exactly the memory of the blocks.  Every call keeps it.

A block without buffer may be left on `on_hardware`, but only by a buffer that is
freed while it is there.  After an execution that succeeds nothing is there.
-/
import LibDrm.Fake.Graph
import LibDrm.Fake.Run

namespace LibDrm.Fake

variable {s s' : State} {b : BoId} {bo bo' : Bo} {k : BlockId} {blk : Block}

/-- Every buffer. -/
abbrev Everybody : BoId → Prop := fun _ => True

abbrev Links (s : State) : Prop := Inv Nobody Everybody s

theorem Links.setBo (hs : Links s) (hb : s.bo b = some bo) (hlike : bo.Like bo') : Links (s.setBo b bo') :=
  ⟨hs.toMemOk.setBo b bo', hs.toBosOk.setBo hb hlike (fun h => absurd trivial h) (fun ⟨_, h, _⟩ => h.elim) fun h => h.elim⟩

/-- Bytes change. -/
theorem Links.bytes (hs : Links s) (card : Int → UInt8) {content : BoId → Nat → Option UInt8}
    (hcontent : ∀ c, s.freshBo ≤ c → content c = s.content c) : Links { s with card := card, content := content } := by
  refine ⟨⟨hs.heap, hs.held, hs.full, hs.apart, hs.freshBlock, hs.nodup, hs.known, hs.listed, hs.orphan⟩,
    ⟨hs.ordinary, hs.owned, hs.owner, hs.room, fun c hc => ?_, fun _ _ h => absurd trivial h, fun _ _ h => h.elim⟩⟩
  show s.bo c = none ∧ ∀ i, content c i = none
  rw [hcontent c hc]
  exact hs.freshBo c hc

theorem Links.paint (hs : Links s) (hb : s.bo b = some bo) (card : Int → UInt8) (c' : Nat → Option UInt8) :
    Links { s with card := card, content := Function.update s.content b c' } := by
  refine hs.bytes card fun c hc => Function.update_of_ne ?_ ..
  rintro rfl
  cases hb.symm.trans (hs.freshBo c hc).1

/-- The links are kept, and nothing new is on the hardware. -/
def Steady (s s' : State) : Prop := Links s' ∧ ∀ j, j ∈ s'.onHardware → j ∈ s.onHardware

theorem Steady.trans {s'' : State} (h : Steady s s') (h' : Steady s' s'') : Steady s s'' :=
  ⟨h'.1, fun j hj => h.2 j (h'.2 j hj)⟩

theorem Links.steady (hs : Links s) : Steady s s := ⟨hs, fun _ h => h⟩

theorem Links.steady_setBo (hs : Links s) (hb : s.bo b = some bo) (hlike : bo.Like bo') : Steady s (s.setBo b bo') :=
  ⟨hs.setBo hb hlike, fun _ h => h⟩

theorem modifyBo_steady (hs : Links s) (b : BoId) (f : Bo → Bo) (hf : ∀ bo : Bo, bo.Like (f bo)) :
    Ensures (s.modifyBo b f) (Steady s) := by
  refine (modifyBo_ensures b f s).mono ?_
  rintro s' ⟨bo, hb, rfl⟩
  exact hs.steady_setBo hb (hf bo)

theorem Links.counters (hs : Links s) (h : Relisted s s') (hblock : s'.block = s.block)
    (hlists : s'.onHardware = s.onHardware ∧ s'.fenced = s.fenced ∧ s'.lru = s.lru) : Steady s s' :=
  ⟨Inv.counters hs h hblock hlists, by rw [hlists.1]; exact fun _ h => h⟩

/-! ## Mapping and writing -/

theorem boAlloc_steady (hs : Links s) (size alignment : Nat) :
    Ensures (boAlloc size alignment s) fun r => Steady s r.2 := by
  unfold boAlloc
  refine Ensures.bind_any fun _ => Ensures.bind_any fun _ => .pure ⟨?_, fun _ h => h⟩
  exact hs.alloc rfl ⟨rfl, rfl⟩ rfl rfl fun h => absurd trivial h

theorem mapBacking_steady (hs : Links s) (hb : s.bo b = some bo) (env : Env) (writeEnable : Bool) :
    Ensures (mapBacking env b writeEnable s) fun r => Steady s r.2 := by
  unfold mapBacking
  refine (setDirtyIf_ensures writeEnable hb).bind fun s₁ hs₁ => ?_
  refine (needBackingStore_ensures env (by rw [hs₁]; exact setBo_self ..)).bind fun s₂ hs₂ => ?_
  obtain ⟨f, hs₂, _⟩ := hs₂
  rw [hs₁, setBo_setBo] at hs₂
  have hsteady : Steady s s₂ := by
    rw [hs₂]
    exact hs.steady_setBo hb ⟨rfl, rfl, rfl, rfl, rfl⟩
  refine (fetchCard_ensures hsteady.1 trivial (by rw [hs₂]; exact setBo_self ..) (fun h => h.elim) env).bind ?_
  rintro s₃ ⟨hs₃, hfetch⟩
  refine (modifyBo_steady hs₃ b _ (by exact fun _ => ⟨rfl, rfl, rfl, rfl, rfl⟩)).bind fun s₄ hs₄ => .pure ?_
  exact (hsteady.trans ⟨hs₃, hfetch.touched.hardware⟩).trans hs₄

theorem boMapLocked_steady (hs : Links s) (env : Env) (b : BoId) (writeEnable : Bool) :
    Ensures (boMapLocked env b writeEnable s) fun r => Steady s r.2 := by
  unfold boMapLocked
  refine (getBo_ensures b s).bind fun bo hb => ?_
  obtain ⟨hflags, hstatic⟩ := hs.ordinary b bo hb
  rw [if_neg (by rw [hstatic]; nofun)]
  have h₁ : Steady s (s.setBo b { bo with mapCount := bo.mapCount + 1 }) := hs.steady_setBo hb ⟨rfl, rfl, rfl, rfl, rfl⟩
  dsimp only
  split
  · exact .pure h₁
  · split
    · exact .error
    · rw [if_neg (by rw [hflags]; nofun)]
      exact (mapBacking_steady h₁.1 (setBo_self ..) env writeEnable).mono fun r hr => h₁.trans hr

theorem boUnmapLocked_steady (hs : Links s) (b : BoId) : Ensures (boUnmapLocked b s) fun r => Steady s r.2 := by
  unfold boUnmapLocked
  refine (getBo_ensures b s).bind fun bo hb => ?_
  split
  · exact .pure hs.steady
  · refine Ensures.bind_any fun _ => ?_
    dsimp only
    split
    · exact .pure (hs.steady_setBo hb ⟨rfl, rfl, rfl, rfl, rfl⟩)
    · exact .pure (hs.steady_setBo hb ⟨rfl, rfl, rfl, rfl, rfl⟩)

theorem writeVirtual_steady (hs : Links s) (b : BoId) (offset : Nat) (bytes : List UInt8) :
    Ensures (writeVirtual b offset bytes s) (Steady s) := by
  unfold writeVirtual
  refine (getBo_ensures b s).bind fun bo hb => ?_
  split
  · exact .error
  · dsimp only
    cases hvirtual : bo.virtual with
    | none => exact .error
    | some place =>
        cases place with
        | backing =>
            refine Ensures.bind_any fun old => .pure ⟨?_, fun _ h => h⟩
            exact (hs.paint hb s.card _).setBo hb ⟨rfl, rfl, rfl, rfl, rfl⟩
        | card address => exact .pure ⟨hs.paint hb _ _, fun _ h => h⟩

theorem boSubdata_steady (hs : Links s) (env : Env) (b : BoId) (offset : Nat) (data : List UInt8) :
    Ensures (boSubdata env b offset data s) fun r => Steady s r.2 := by
  unfold boSubdata
  split
  · exact .ok hs.steady
  · refine (boMapLocked_steady hs env b true).bind fun r h₁ => ?_
    dsimp only
    split
    · exact .pure h₁
    · refine (writeVirtual_steady h₁.1 b offset data).bind fun s₂ h₂ => ?_
      exact (boUnmapLocked_steady h₂.1 b).bind fun r₃ h₃ => .pure ((h₁.trans h₂).trans h₃)

theorem emitReloc_steady (hs : Links s) (b : BoId) (offset : UInt32) (target : BoId)
    (targetOffset readDomains writeDomain : UInt32) :
    Ensures (emitReloc b offset target targetOffset readDomains writeDomain s) fun r => Steady s r.2 := by
  unfold emitReloc boReference
  refine Ensures.bind_any fun _ => Ensures.bind_any fun _ => ?_
  refine (modifyBo_steady hs target _ (by exact fun _ => ⟨rfl, rfl, rfl, rfl, rfl⟩)).bind fun s₁ h₁ => ?_
  refine Ensures.bind_any fun tbo => (getBo_ensures b s₁).bind fun bo hb => .pure ?_
  exact h₁.trans (h₁.1.steady_setBo hb ⟨rfl, rfl, rfl, rfl, rfl⟩)

/-! ## Validating and executing -/

theorem upload_links (hs : Links s) (env : Env) (b : BoId) (blk : Block) : Ensures (upload env b blk s) Links := by
  unfold upload
  refine Ensures.bind_any fun _ => Ensures.bind_any fun _ => (waitIdle_ensures hs env).bind fun s₁ hs₁ => ?_
  refine (getBo_ensures b s₁).bind fun bo hb => .pure ?_
  have hs₂ : Links (s₁.setBo b { bo with dirty := false }) := Links.setBo hs₁.1 hb ⟨rfl, rfl, rfl, rfl, rfl⟩
  exact hs₂.bytes _ fun _ _ => rfl

theorem moveToHardware_links (hs : Links s) (k : BlockId) : Ensures (moveToHardware k s) Links := by
  unfold moveToHardware
  refine (getBlock_ensures k s).bind fun blk hblk => .pure ?_
  have hm : Moved k { blk with fenced := false, onHardware := true } s _ := moved_hardware hblk rfl rfl rfl rfl
  refine hs.moved hblk hm (fun _ hlru => ?_) (.inl fun _ h => h)
  simp [State.unlink, State.setBlock] at hlru

theorem placeBo_links (hs : Links s) (env : Env) (b : BoId) : Ensures (placeBo env b s) fun r => Links r.2 := by
  unfold placeBo
  refine (getBo_ensures b s).bind fun bo hb => Ensures.bind_any fun k => Ensures.bind_any fun blk =>
    Ensures.bind_any fun _ => ?_
  have hrest : ∀ s₁, Links s₁ → Ensures (do
      let s ← moveToHardware k s₁
      let s ← s.modifyBo b fun bo => { bo with validated := true }
      return ((0 : Int), { s with needFence := true })) fun r => Links r.2 := by
    intro s₁ hs₁
    refine (moveToHardware_links hs₁ k).bind fun s₂ hs₂ => ?_
    refine (modifyBo_steady hs₂ b _ (by exact fun _ => ⟨rfl, rfl, rfl, rfl, rfl⟩)).bind fun s₃ hs₃ => .pure ?_
    have hrel : Relisted s₃ { s₃ with needFence := true } := ⟨rfl, rfl, rfl, rfl, rfl, rfl, fun _ => rfl⟩
    exact (hs₃.1.counters hrel rfl ⟨rfl, rfl, rfl⟩).1
  have hs₁ : Links (s.setBo b { bo with offset := s.ofs blk }) := hs.setBo hb ⟨rfl, rfl, rfl, rfl, rfl⟩
  dsimp only
  split
  · exact (upload_links hs₁ env b blk).bind hrest
  · exact hrest _ hs₁

theorem boValidate_links (hs : Links s) (env : Env) (b : BoId) : Ensures (boValidate env b s) fun r => Links r.2 := by
  unfold boValidate
  refine (getBo_ensures b s).bind fun bo hb => Ensures.bind_any fun _ => ?_
  rw [if_neg (by rw [(hs.ordinary b bo hb).2]; nofun)]
  split
  · refine (evictAndAllocBlock_ensures hs env b).bind fun r hr => ?_
    obtain ⟨done, s₁⟩ := r
    obtain ⟨_, _, _, hgets⟩ := hr
    cases done with
    | false => exact .pure ((hgets.1 rfl).1.counters ⟨rfl, rfl, rfl, rfl, rfl, rfl, fun _ => rfl⟩ rfl ⟨rfl, rfl, rfl⟩)
    | true => exact placeBo_links ((hgets.2 rfl).1.exempt fun _ _ => trivial) env b
  · exact placeBo_links hs env b

theorem applyReloc_links (hs : Links s) (env : Env) (b : BoId) (i : Nat) : Ensures (applyReloc env b i s) Links := by
  unfold applyReloc
  refine Ensures.bind_any fun bo => Ensures.bind_any fun r => Ensures.bind_any fun tbo => ?_
  split
  · exact .pure hs
  · have hrest : ∀ s₁, Links s₁ → Ensures (do
        let s ← writeVirtual b r.offset.toNat (bytes32 (UInt32.ofNat ((tbo.offset + r.delta.toNat) % 2 ^ 32).toNat)) s₁
        s.modifyBo b fun bo => { bo with
          relocs := bo.relocs.set i { r with lastTargetOffset := UInt32.ofNat (tbo.offset % 2 ^ 32).toNat } }) Links := by
      intro s₁ hs₁
      refine (writeVirtual_steady hs₁ b _ _).bind fun s₂ hs₂ => ?_
      exact (modifyBo_steady hs₂.1 b _ (by exact fun _ => ⟨rfl, rfl, rfl, rfl, rfl⟩)).mono fun s₃ hs₃ => hs₃.1
    dsimp only
    split
    · exact (boMapLocked_steady hs env b true).bind fun r hr => hrest r.2 hr.1
    · exact hrest s hs

theorem unmapIfMapped_links (hs : Links s) (b : BoId) : Ensures (unmapIfMapped b s) Links := by
  unfold unmapIfMapped
  refine Ensures.bind_any fun bo => ?_
  split
  · exact (boUnmapLocked_steady hs b).bind fun r hr => .pure hr.1
  · exact .pure hs

theorem relocLoop_links (env : Env) {again : BoId → State → Except Fault (Int × State)}
    (hagain : ∀ c s, Links s → Ensures (again c s) fun r => Links r.2) (b : BoId) (n : Nat) :
    ∀ i s, Links s → Ensures (relocLoop env again b n i s) fun r => Links r.2 := by
  induction n with
  | zero => exact fun _ _ hs => .ok hs
  | succ n ih =>
      intro i s hs
      unfold relocLoop
      refine Ensures.bind_any fun bo => Ensures.bind_any fun r => Ensures.bind_any fun tbo => ?_
      have hrest : ∀ q : Int × State, Links q.2 → Ensures (
          if q.1 ≠ 0 then do
            let s ← unmapIfMapped b q.2
            return (q.1, s)
          else do
            let s ← applyReloc env b i q.2
            relocLoop env again b n (i + 1) s) fun r => Links r.2 := by
        intro q hq
        split
        · exact (unmapIfMapped_links hq b).bind fun s' hs' => .pure hs'
        · exact (applyReloc_links hq env b i).bind fun s' hs' => ih (i + 1) s' hs'
      split
      · exact hrest (0, s) hs
      · exact (hagain r.target s hs).bind fun q hq => hrest q hq

theorem markCardDirty_links (hs : Links s) (env : Env) (b : BoId) : Ensures (markCardDirty env b s) Links := by
  unfold markCardDirty
  refine Ensures.bind_any fun bo => ?_
  split
  · have hrest : ∀ s₁, Links s₁ → Ensures (do
        let s ← s₁.modifyBo b fun bo => { bo with cardDirty := true }
        return { s with performedRendering := true }) Links := by
      intro s₁ hs₁
      refine (modifyBo_steady hs₁ b _ (by exact fun _ => ⟨rfl, rfl, rfl, rfl, rfl⟩)).bind fun s₂ hs₂ => .pure ?_
      exact (hs₂.1.counters (Relisted.rendering s₂ true) rfl ⟨rfl, rfl, rfl⟩).1
    split
    · refine (allocBackingStore_ensures env b s).bind ?_
      rintro s₁ ⟨bo₁, hb₁, _, rfl⟩
      exact hrest _ (hs.setBo hb₁ ⟨rfl, rfl, rfl, rfl, rfl⟩)
    · exact hrest s hs
  · exact .pure hs

theorem relocAndValidateBuffer_links (env : Env) (fuel : Nat) : ∀ b s, Links s →
    Ensures (relocAndValidateBuffer env fuel b s) fun r => Links r.2 := by
  induction fuel with
  | zero => exact fun _ _ _ => .error
  | succ fuel ih =>
      intro b s hs
      unfold relocAndValidateBuffer
      refine Ensures.bind_any fun bo => Ensures.bind_any fun _ => ?_
      refine (relocLoop_links env ih b bo.relocs.length 0 s hs).bind fun r hr => ?_
      dsimp only
      split
      · exact .pure hr
      · refine (unmapIfMapped_links hr b).bind fun s₁ hs₁ => (markCardDirty_links hs₁ env b).bind fun s₂ hs₂ => ?_
        exact boValidate_links hs₂ env b

theorem prepareExec_links (hs : Links s) (env : Env) (b : BoId) : Ensures (prepareExec env b s) Links := by
  unfold prepareExec
  have hs₀ := (hs.counters (Relisted.rendering s false) rfl ⟨rfl, rfl, rfl⟩).1
  refine (calculateDomains_ensures env.fuel b _ hs₀).bind fun s₁ hs₁ => ?_
  refine (modifyBo_steady hs₁.1 b _ (by exact fun _ => ⟨rfl, rfl, rfl, rfl, rfl⟩)).bind fun s₂ hs₂ => ?_
  refine (relocAndValidateBuffer_links env env.fuel b s₂ hs₂.1).bind fun r hr => ?_
  dsimp only
  split
  · refine (kickAllLocked_ensures hr).bind fun s₃ hs₃ => ?_
    have hs₃' : Links { s₃ with fail := false } :=
      (hs₃.1.counters ⟨rfl, rfl, rfl, rfl, rfl, rfl, fun _ => rfl⟩ rfl ⟨rfl, rfl, rfl⟩)
    refine (relocAndValidateBuffer_links env env.fuel b _ hs₃').bind fun r' hr' => ?_
    exact Ensures.bind_any fun _ => .pure hr'
  · exact Ensures.bind (P := fun q => Links q.2) (.pure hr) fun q hq => Ensures.bind_any fun _ => .pure hq

theorem gpuWrite_links (hs : Links s) (w : GpuWrite) : Ensures (gpuWrite s w) Links := by
  unfold gpuWrite
  exact (getBo_ensures w.bo s).bind fun bo hb => .pure (hs.paint hb _ _)

/-- After an execution that succeeds there is nothing on the hardware list. -/
theorem boExec_links (hs : Links s) (env : Env) (b : BoId) (result : Int) (writes : List GpuWrite) :
    Ensures (boExec env b result writes s) fun r => Links r.2 ∧ (result = 0 → r.2.onHardware = []) := by
  unfold boExec
  refine (prepareExec_links hs env b).bind fun s₁ hs₁ => ?_
  split
  · case isTrue hfail => exact .pure ⟨hs₁, fun h => absurd h hfail⟩
  · refine (Ensures.foldlM hs₁ fun s w hs => gpuWrite_links hs w).bind fun s₂ hs₂ => ?_
    refine (fenceValidated_ensures hs₂ env).bind fun s₃ hs₃ => ?_
    refine (postSubmit_ensures env.fuel b s₃ hs₃.1).bind fun s₄ hs₄ => .pure ⟨hs₄.1, fun _ => ?_⟩
    rw [hs₄.2.2.1, hs₃.2.2]

/-! ## Runs -/

/-- The calls, with executions that succeed. -/
def Op.Succeeds : Op → Prop
  | .exec _ result _ => result = 0
  | _ => True

def State.Step (s s' : State) : Prop := ∃ (env : Env) (op : Op), op.Succeeds ∧ op.run env s = .ok s'

/-- Between calls nothing is on the hardware list. -/
def Between (s : State) : Prop := Links s ∧ s.onHardware = []

theorem Steady.between (h : Steady s s') (hempty : s.onHardware = []) : Between s' := by
  refine ⟨h.1, List.eq_nil_iff_forall_not_mem.mpr fun j hj => ?_⟩
  have := h.2 j hj
  rw [hempty] at this
  cases this

theorem Op.run_between (hs : Between s) (env : Env) (op : Op) (hop : op.Succeeds) : Ensures (op.run env s) Between := by
  obtain ⟨hs, hempty⟩ := hs
  have hfst : ∀ {α : Type} {x : Except Fault (α × State)}, Ensures x (fun r => Steady s r.2) →
      Ensures (do let r ← x; return r.2) Between := fun h => h.bind fun r hr => .pure (hr.between hempty)
  cases op with
  | alloc size alignment => exact hfst (boAlloc_steady hs size alignment)
  | reference b =>
      refine (modifyBo_steady hs b _ fun _ => ?_).mono fun s' h => h.between hempty
      exact ⟨rfl, rfl, rfl, rfl, rfl⟩
  | unreference b =>
      refine (unreference_ensures hs env.fuel b).mono fun s' hs' => ?_
      exact Steady.between ⟨hs'.1, hs'.2.hardware⟩ hempty
  | map b writeEnable => exact hfst (boMapLocked_steady hs env b writeEnable)
  | write b offset bytes => exact (writeVirtual_steady hs b offset bytes).mono fun s' h => h.between hempty
  | unmap b => exact hfst (boUnmapLocked_steady hs b)
  | subdata b offset data => exact hfst (boSubdata_steady hs env b offset data)
  | emitReloc b offset target targetOffset readDomains writeDomain =>
      exact hfst (emitReloc_steady hs b offset target targetOffset readDomains writeDomain)
  | exec b result writes =>
      exact (boExec_links hs env b result writes).bind fun r hr => .pure ⟨hr.1, hr.2 hop⟩
  | wait b =>
      refine (waitRenderingLocked_ensures hs env b).mono fun s' hs' => ?_
      exact Steady.between ⟨hs'.1, hs'.2.hardware⟩ hempty
  | evictAll =>
      refine (evictAll_ensures hs (fun _ _ h => absurd trivial h) env).mono fun s' hs' => ?_
      exact ⟨hs'.1, hs'.2.1⟩

theorem State.Init.empty (h : s.Init) : (∃ lo hi, s.heap.Ok lo hi) ∧ s.heap.out = [] ∧ s.lists = [] ∧
    (∀ b, s.bo b = none) ∧ (∀ k, s.block k = none) ∧ ∀ b i, s.content b i = none := by
  obtain ⟨ofs, size, card, h⟩ := h
  unfold initState at h
  split at h
  · cases h
  · case h_2 heap mem hinit =>
      cases h
      exact ⟨⟨_, _, Mm.Heap.Init.ok ⟨hinit, rfl⟩⟩, rfl, rfl, fun _ => rfl, fun _ => rfl, fun _ _ => rfl⟩

theorem State.Init.inv (h : s.Init) (X : BoId → Prop) : Inv Nobody X s := by
  obtain ⟨hheap, hout, hlists, hbo, hblock, hcontent⟩ := h.empty
  have hnobo : ∀ b bo, s.bo b ≠ some bo := fun b bo hb => by
    rw [hbo b] at hb
    cases hb
  have hnoblock : ∀ k blk, s.block k ≠ some blk := fun k blk hk => by
    rw [hblock k] at hk
    cases hk
  refine ⟨⟨hheap, ?_, ?_, ?_, fun k _ => hblock k, ?_, ?_, ?_, ?_⟩, ⟨?_, ?_, ?_, ?_, ?_, ?_, fun _ _ h => h.elim⟩⟩
  · exact fun k blk hk => absurd hk (hnoblock k blk)
  · rw [hout]
    exact fun q hq => absurd hq List.not_mem_nil
  · exact fun k k' blk blk' hk => absurd hk (hnoblock k blk)
  · rw [hlists]
    exact List.nodup_nil
  · rw [hlists]
    exact fun k hk => absurd hk List.not_mem_nil
  · exact fun k blk hk => absurd hk (hnoblock k blk)
  · exact fun k blk hk => absurd hk (hnoblock k blk)
  · exact fun b bo hb => absurd hb (hnobo b bo)
  · exact fun b bo k hb => absurd hb (hnobo b bo)
  · exact fun k blk b hk => absurd hk (hnoblock k blk)
  · exact fun b bo k blk hb => absurd hb (hnobo b bo)
  · exact fun b _ => ⟨hbo b, hcontent b⟩
  · exact fun b bo _ hb => absurd hb (hnobo b bo)

theorem between_of_runs (h : Runs State.Init State.Step s) : Between s := by
  refine Runs.induct (I := Between) (fun s hs => ⟨hs.inv _, ?_⟩) (fun s s' hs hstep => ?_) h
  · have hlists := hs.empty.2.2.1
    rw [State.lists, List.append_assoc] at hlists
    exact (List.append_eq_nil_iff.mp hlists).1
  · obtain ⟨env, op, hop, hrun⟩ := hstep
    exact op.run_between hs env hop s' hrun

/-- In every state between calls: every block is on exactly one list, which is the one that its flags name; a buffer and
    its block point to each other; blocks of `lru` have a buffer, and those without are on `fenced`; and the memory of
    the blocks is exactly what the heap has handed out, each range of its own. -/
theorem block_ownership (h : Runs State.Init State.Step s) :
    (s.lists.Nodup ∧ ∀ k, k ∈ s.lists ↔ ∃ blk, s.block k = some blk) ∧
    (∀ k blk, s.block k = some blk →
      (blk.onHardware = true ↔ k ∈ s.onHardware) ∧ (blk.fenced = true ↔ k ∈ s.fenced)) ∧
    (∀ b k, (∃ bo, s.bo b = some bo ∧ bo.block = some k) ↔ ∃ blk, s.block k = some blk ∧ blk.bo = some b) ∧
    (∀ k ∈ s.lru, ∃ blk b, s.block k = some blk ∧ blk.bo = some b) ∧
    (∀ k blk, s.block k = some blk → blk.bo = none → k ∈ s.fenced ∧ k ∉ s.onHardware ∧ k ∉ s.lru) ∧
    (∃ bs, DList.IsList s.heap.mem.list s.heap.heap bs ∧
      ∀ q, (q ∈ bs ∧ s.heap.mem.free q = false) ↔ ∃ k blk, s.block k = some blk ∧ blk.mem = q) ∧
    (∀ j k blkj blkk, j ≠ k → s.block j = some blkj → s.block k = some blkk →
      Tiling.Apart s.heap.mem.ofs s.heap.mem.size blkj.mem blkk.mem) := by
  obtain ⟨hs, hempty⟩ := between_of_runs h
  have hexists : ∀ k, k ∈ s.lists ↔ ∃ blk, s.block k = some blk :=
    fun k => ⟨hs.known k, fun ⟨blk, hblk⟩ => (hs.listed k blk hblk).1⟩
  refine ⟨⟨hs.nodup, hexists⟩, fun k blk hk => (hs.listed k blk hk).2, fun b k => ⟨?_, ?_⟩, ?_, ?_, ?_, ?_⟩
  · rintro ⟨bo, hb, hbk⟩
    exact hs.owned b bo k hb hbk
  · rintro ⟨blk, hk, hbo⟩
    exact hs.owner k blk b hk hbo
  · intro k hk
    obtain ⟨blk, hblk⟩ := hs.known k (List.mem_append_right _ hk)
    cases hbo : blk.bo with
    | none => exact absurd hk (hs.orphan k blk hblk hbo)
    | some b => exact ⟨blk, b, hblk, hbo⟩
  · intro k blk hk hbo
    have hlru := hs.orphan k blk hk hbo
    have hhw : k ∉ s.onHardware := by
      rw [hempty]
      exact List.not_mem_nil
    have hmem := (hs.listed k blk hk).1
    simp only [State.lists, List.mem_append] at hmem
    exact ⟨by tauto, hhw, hlru⟩
  · obtain ⟨lo, hi, bs, hinv, _, _, hout⟩ := hs.heap
    refine ⟨bs, hinv.list, fun q => ⟨fun hq => hs.full q ((hout q).mpr hq), ?_⟩⟩
    rintro ⟨k, blk, hk, rfl⟩
    exact (hout _).mp (hs.held k blk hk)
  · intro j k blkj blkk hjk hj hk
    obtain ⟨lo, hi, hheap⟩ := hs.heap
    refine hheap.apart (hs.held j blkj hj) (hs.held k blkk hk) fun heq => ?_
    exact hjk (hs.apart j k blkj blkk hj hk heq)

theorem play_runs {step : State → State → Prop} {env : Env} {P : Op → Prop}
    (hstep : ∀ op s s', P op → op.run env s = .ok s' → step s s') {ops : List Op} (hops : ∀ op ∈ ops, P op)
    (hs : Runs State.Init step s) : Ensures (play env ops s) (Runs State.Init step) := by
  unfold play
  induction ops generalizing s with
  | nil => exact .ok hs
  | cons op ops ih =>
      rw [List.foldlM_cons]
      intro s' hs'
      cases hop : op.run env s with
      | error e =>
          rw [hop] at hs'
          cases hs'
      | ok s₁ =>
          rw [hop] at hs'
          have h₁ := hs.step (hstep op s s₁ (hops op (List.mem_cons_self ..)) hop)
          exact ih (fun op' h => hops op' (List.mem_cons_of_mem _ h)) h₁ s' hs'

theorem playAll_runs {step : State → State → Prop} {P : Op → Prop}
    (hstep : ∀ op s s', P op → op.run plainEnv s = .ok s' → step s s') {ops : List Op} (hops : ∀ op ∈ ops, P op)
    (h : playAll ops = some s) : Runs State.Init step s := by
  obtain ⟨s₀, hs₀, h⟩ := Option.bind_eq_some_iff.mp h
  refine play_runs hstep hops (.init ⟨_, _, _, hs₀⟩) s ?_
  cases hplay : play plainEnv ops s₀ with
  | error e =>
      rw [hplay] at h
      cases h
  | ok s₁ =>
      rw [hplay] at h
      cases h
      rfl

/-- The batch is freed while the GPU may still use it, and its block stays on `fenced` without a buffer. -/
theorem block_ownership_freedBatch : ∃ s, Runs State.Init State.Step s ∧ s.fenced = [0, 1] ∧
    (∀ k blk, s.block k = some blk → blk.bo = none → k ∈ s.fenced ∧ k ∉ s.onHardware ∧ k ∉ s.lru) ∧
    (s.block 1).map Block.bo = some none := by
  have hrun : (playAll (drawOps ++ [.unreference 0])).map (fun s => (s.fenced, (s.block 1).map Block.bo)) =
      some ([0, 1], some none) := by
    decide +kernel
  obtain ⟨s, hs, hfields⟩ := Option.map_eq_some_iff.mp hrun
  have hruns : Runs State.Init State.Step s := by
    refine playAll_runs (fun op s s' hop h => ⟨plainEnv, op, hop, h⟩) (P := Op.Succeeds) ?_ hs
    simp [drawOps, Op.Succeeds]
  exact ⟨s, hruns, congrArg Prod.fst hfields, (block_ownership hruns).2.2.2.2.1, congrArg Prod.snd hfields⟩

end LibDrm.Fake
