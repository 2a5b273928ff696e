/-
# `LibDrm.Fake.Coherence` — both sides see the last write

`prepareExec` brings everything that the batch reaches to the card, so that the GPU
sees the bytes of the last write; a mapped buffer shows them to the CPU.  The
invariant holds in every run whose calls are `Careful`, which leaves out four ways
to lose a write:

    alloc        a size that `alloc_block` rounds up beyond 32 bits
    map, subdata a nested mapping for writing of a buffer that is not dirty
    exec         a target that a failed execution has left marked
    evict_all    a block whose buffer is not dirty and that the card has not written
-/
import LibDrm.Fake.Validate
import LibDrm.Fake.Ownership

open Relation

namespace LibDrm.Fake

variable {T X : BoId → Prop} {s s' s₁ : State} {b c d : BoId} {bo bo' : Bo}

/-! ## Preparing an execution -/

theorem Inv.validating (hs : Inv Nobody X s) (h : ∀ c co, T c → s.bo c = some co → co.validated = false) : Inv T X s := by
  refine ⟨hs.toMemOk, hs.ordinary, hs.owned, hs.owner, hs.room, hs.freshBo, hs.bos, fun c co hT hc hv => ?_⟩
  rw [h c co hT hc] at hv
  cases hv

theorem Inv.forget (hs : Inv T X s) : Inv Nobody X s :=
  ⟨hs.toMemOk, hs.ordinary, hs.owned, hs.owner, hs.room, hs.freshBo, hs.bos, fun _ _ h => h.elim⟩

/-- Everything that `b` reaches is on the hardware and current there, and the relocations are right. -/
def Submitted (b : BoId) (s : State) : Prop := ∀ d, ReflTransGen (Targets s) b d →
  ∃ bo, s.bo d = some bo ∧ bo.validated = true ∧ Placed s bo ∧ ∀ r ∈ bo.relocs, Aimed s r

/-- A write that is lost to the GPU, or a relocation to a place that is not the target's, would need a target that a
    failed execution has left marked. -/
def Unmarked (b : BoId) (s : State) : Prop := ∀ d bo, TransGen (Targets s) b d → s.bo d = some bo → bo.validated = false

/-- A second or later pass of the validation. -/
structure Prepared (b : BoId) (s s' : State) : Prop where
  core : CoreSame s s'
  submitted : Submitted b s'
  dirty : ∀ d co, ¬ ReflTransGen (Targets s) b d → s.bo d = some co → co.dirty = true →
    ∃ co', s'.bo d = some co' ∧ co'.dirty = true

theorem submitted_of_validated (hs : Inv (TransGen (Targets s) b) Nobody s) (hb : s.bo b = some bo)
    (hv : bo.validated = true) (hplaced : Placed s bo) (haimed : ∀ r ∈ bo.relocs, Aimed s r) : Submitted b s := by
  intro d hd
  induction hd with
  | refl => exact ⟨bo, hb, hv, hplaced, haimed⟩
  | tail hc hcd ih =>
      obtain ⟨co, hco, _, _, haimed'⟩ := ih
      obtain ⟨co', hco', r, hr, rfl⟩ := hcd
      cases hco.symm.trans hco'
      obtain ⟨tbo, htbo, htv, _⟩ := haimed' r hr
      obtain ⟨hp, ha⟩ := hs.placed r.target tbo (TransGen.tail' hc ⟨co, hco, r, hr, rfl⟩) htbo htv
      exact ⟨tbo, htbo, htv, hp, ha⟩

theorem CoreSame.acyclic (h : CoreSame s s') (ha : Acyclic s b) : Acyclic s' b := by
  unfold Acyclic
  rw [h.targets_eq]
  exact ha

/-- One pass of the validation. -/
theorem validate_pass (hs : Inv (TransGen (Targets s) b) Nobody s) (hacyclic : Acyclic s b) (env : Env) :
    Ensures (relocAndValidateBuffer env env.fuel b s) fun r => Inv (TransGen (Targets r.2) b) Nobody r.2 ∧
      Visited (TransGen (Targets s) b) b s r.2 ∧ (r.1 = 0 → Submitted b r.2) := by
  refine (relocAndValidateBuffer_validates env env.fuel b s hs (fun _ _ hc hcd => hc.tail hcd) (fun _ hd => .single hd)
    hacyclic ?_).mono ?_
  · intro bo _ hT
    obtain ⟨c, hbc, hcb⟩ := TransGen.head'_iff.mp hT
    exact absurd hcb (hacyclic.not_reaches_self c hbc)
  · rintro r ⟨hinv, hvisited, hplaced⟩
    have hinv' : Inv (TransGen (Targets r.2) b) Nobody r.2 := by
      rw [hvisited.core.targets_eq]
      exact hinv
    refine ⟨hinv', hvisited, fun hret => ?_⟩
    obtain ⟨bo, hb, hv, hp, ha⟩ := hplaced hret
    exact submitted_of_validated hinv' hb hv hp ha

theorem Visited.dirty (h : Visited T b s s') (hd : ¬ ReflTransGen (Targets s) b d) {co : Bo} (hc : s.bo d = some co)
    (hdirty : co.dirty = true) : ∃ co', s'.bo d = some co' ∧ co'.dirty = true := by
  obtain ⟨co', hc', _, hdirty'⟩ := (h.outside d hd).some hc
  exact ⟨co', hc', hdirty' hdirty⟩

/-- After everything was kicked out, nothing that the batch reaches is marked. -/
theorem kicked_validating (hs : Inv T Nobody s) (hkick : KickedAll s.onHardware s s') (hs' : Inv Nobody Nobody s') :
    Inv T Nobody s' := by
  refine hs'.validating fun c co' hT hc => ?_
  by_contra hv
  obtain ⟨co, hco, hcov, hcok⟩ := hkick.marks c co' hc (by simpa using hv)
  obtain ⟨⟨⟨k, blk, hk, _, hhw, _⟩, _⟩, _⟩ := hs.placed c co hT hco hcov
  exact hcok k hhw hk

theorem prepareExec_ensures (hs : Inv Nobody Nobody s) (hun : Unmarked b s) (env : Env) :
    Ensures (prepareExec env b s) fun s' => Inv Nobody Nobody s' ∧ Prepared b s s' := by
  unfold prepareExec
  have hs₀ := hs.counters (Relisted.rendering s false) rfl ⟨rfl, rfl, rfl⟩
  refine (calculateDomains_ensures env.fuel b _ hs₀).bind fun s₁ hs₁ => ?_
  obtain ⟨hs₁, hdom₁, hacyclic⟩ := hs₁
  refine (modifyBo_ensures b _ s₁).bind fun s₂ hs₂ => ?_
  obtain ⟨bo₁, hb₁, rfl⟩ := hs₂
  have hs₂ : Inv Nobody Nobody (s₁.setBo b { bo₁ with readDomains := I915_GEM_DOMAIN_COMMAND }) :=
    hs₁.remark hb₁ (by rfl)
  have hset : Domained s₁ (s₁.setBo b { bo₁ with readDomains := I915_GEM_DOMAIN_COMMAND }) := .setBo hb₁ (by rfl)
  have hdom₂ : Domained s (s₁.setBo b { bo₁ with readDomains := I915_GEM_DOMAIN_COMMAND }) :=
    ⟨fun c => (hset.bo c).trans (hdom₁.bo c), hdom₁.content, hdom₁.onHardware⟩
  generalize s₁.setBo b { bo₁ with readDomains := I915_GEM_DOMAIN_COMMAND } = s₂ at hs₂ hdom₂
  -- the marks are still those before the call
  have hinv₂ : Inv (TransGen (Targets s₂) b) Nobody s₂ := by
    refine hs₂.validating fun c co hT hc => ?_
    obtain ⟨co₀, hc₀, heq⟩ := hdom₂.some hc
    rw [hdom₂.core.targets_eq] at hT
    have hv : co₀.undomained.validated = co.undomained.validated := by rw [heq]
    exact hv.symm.trans (hun c co₀ hT hc₀)
  have hdirty₂ : ∀ d co, s.bo d = some co → co.dirty = true → ∃ co', s₂.bo d = some co' ∧ co'.dirty = true := by
    intro d co hd hdirty
    have hmap := hdom₂.bo d
    rw [hd] at hmap
    obtain ⟨co', hc', heq⟩ := Option.map_eq_some_iff.mp hmap
    have hd' : co'.undomained.dirty = co.undomained.dirty := by rw [heq]
    exact ⟨co', hc', hd'.trans hdirty⟩
  have hacyclic₂ : Acyclic s₂ b := hdom₂.core.acyclic hacyclic
  refine (validate_pass hinv₂ hacyclic₂ env).bind fun q hq => ?_
  obtain ⟨ret, s₃⟩ := q
  obtain ⟨hinv₃, hvisited₃, hsub₃⟩ := hq
  replace hinv₃ : Inv (TransGen (Targets s₃) b) Nobody s₃ := hinv₃
  replace hvisited₃ : Visited (TransGen (Targets s₂) b) b s₂ s₃ := hvisited₃
  have hcore₃ : CoreSame s s₃ := hdom₂.core.trans hvisited₃.core
  have hdirty₃ : ∀ d co, ¬ ReflTransGen (Targets s) b d → s.bo d = some co → co.dirty = true →
      ∃ co', s₃.bo d = some co' ∧ co'.dirty = true := by
    intro d co hd hco hdirty
    obtain ⟨co₂, hco₂, hdirty₂'⟩ := hdirty₂ d co hco hdirty
    exact hvisited₃.dirty (by rw [hdom₂.core.targets_eq]; exact hd) hco₂ hdirty₂'
  dsimp only
  split
  · refine (kickAllLocked_ensures hinv₃.forget).bind fun s₄ hs₄ => ?_
    obtain ⟨hs₄, hkick⟩ := hs₄
    have hinv₄ : Inv (TransGen (Targets s₄) b) Nobody s₄ := by
      rw [hkick.core.targets_eq]
      exact kicked_validating hinv₃ hkick hs₄
    have hrel : Relisted s₄ { s₄ with fail := false } := ⟨rfl, rfl, rfl, rfl, rfl, rfl, fun _ => rfl⟩
    have hinv₅ := hinv₄.counters hrel rfl ⟨rfl, rfl, rfl⟩
    have hcore₄ : CoreSame s { s₄ with fail := false } := hcore₃.trans hkick.core
    refine (validate_pass hinv₅ (hcore₄.acyclic hacyclic) env).bind fun q hq => ?_
    obtain ⟨ret', s₅⟩ := q
    obtain ⟨hinv₅', hvisited₅, hsub₅⟩ := hq
    refine (assert_ensures _).bind fun _ hret => .pure ⟨hinv₅'.forget, hcore₄.trans hvisited₅.core, hsub₅ (by simpa using hret), ?_⟩
    intro d co hd hco hdirty
    obtain ⟨co₃, hco₃, hd₃⟩ := hdirty₃ d co hd hco hdirty
    obtain ⟨co₄, hco₄, _⟩ := hkick.core.some hco₃
    obtain ⟨co₃', hco₃', hd₄⟩ := hkick.dirty d co₄ hco₄
    cases hco₃.symm.trans hco₃'
    exact hvisited₅.dirty (by rw [hcore₄.targets_eq]; exact hd) hco₄ (hd₄ hd₃)
  · refine Ensures.bind (P := fun q => q = (ret, s₃)) (.pure rfl) fun q hq => ?_
    subst hq
    refine (assert_ensures _).bind fun _ hret => .pure ?_
    exact ⟨hinv₃.forget, hcore₃, hsub₃ (by simpa using hret), hdirty₃⟩

/-! ## Executing -/

/-- What the CPU reads through a mapping. -/
def State.cpuRead (s : State) (b : BoId) (i : Nat) : Option UInt8 := do
  let bo ← s.bo b
  match ← bo.virtual with
  | .backing => (← bo.backingStore) i
  | .card address => s.card (address + i)

/-- What the GPU reads, where the batch says the buffer is. -/
def State.gpuRead (s : State) (b : BoId) (i : Nat) : Option UInt8 := do
  let bo ← s.bo b
  return s.card (bo.offset + i)

/-- The GPU writes to buffers of the batch that have a write domain. -/
def GpuWrite.Allowed (b : BoId) (s : State) (w : GpuWrite) : Prop :=
  ReflTransGen (Targets s) b w.bo ∧ ∃ bo, s.bo w.bo = some bo ∧ bo.writeDomain ≠ 0 ∧ w.index < bo.size

/-- A buffer of the batch that the GPU may write to, at a byte that it has. -/
def Writable (s : State) (w : GpuWrite) : Prop :=
  ∃ bo, s.bo w.bo = some bo ∧ Placed s bo ∧ bo.writeDomain ≠ 0 ∧ w.index < bo.size

theorem gpuWrite_ensures {w : GpuWrite} (hs : Inv Nobody Nobody s) (hw : Writable s w) : Ensures (gpuWrite s w) fun s' =>
    Inv Nobody Nobody s' ∧ s'.bo = s.bo ∧ ∀ w', Writable s w' → Writable s' w' := by
  obtain ⟨bo, hb, ⟨⟨k, blk, hk, hblk, _, hofs⟩, hclean, hwritten, hidle⟩, hdomain, hi⟩ := hw
  have hok := hs.bos w.bo bo id hb
  unfold gpuWrite
  refine (getBo_ensures w.bo s).bind fun bo₀ hb₀ => .pure ?_
  cases hb.symm.trans hb₀
  refine ⟨?_, rfl, fun _ hw' => hw'⟩
  have hs' : Inv Nobody (Only w.bo) { s with
      card := Function.update s.card (bo.offset + w.index) w.value
      content := Function.update s.content w.bo (Function.update (s.content w.bo) w.index (some w.value)) } := by
    refine (hs.only w.bo).paint (.inr rfl) hb hok.fits (fun c hc => Function.update_of_ne hc ..) fun a ha => ?_
    refine Function.update_of_ne ?_ ..
    rintro rfl
    refine ha k blk hk hblk ?_
    rw [hofs]
    omega
  refine hs'.settle hb fun _ => ?_
  have hcontent : ∀ i v, Function.update s.content w.bo (Function.update (s.content w.bo) w.index (some w.value)) w.bo i
      = some v → (i = w.index ∧ v = w.value) ∨ (i ≠ w.index ∧ s.content w.bo i = some v) := by
    intro i v hv
    rw [Function.update_self] at hv
    by_cases hiw : i = w.index
    · rw [hiw, Function.update_self] at hv
      exact .inl ⟨hiw, (Option.some.inj hv).symm⟩
    · rw [Function.update_of_ne hiw] at hv
      exact .inr ⟨hiw, hv⟩
  refine ⟨hok.fits, fun i v hv => ?_, fun h => ?_, fun _ i v hv => ?_, hok.exclusive, hok.mapped, hok.virtual⟩
  · rcases hcontent i v hv with ⟨rfl, _⟩ | ⟨_, hv⟩
    · exact hi
    · exact hok.bounded i v hv
  · rw [hclean, hwritten hdomain] at h
    simp at h
  · rcases hcontent i v hv with ⟨rfl, rfl⟩ | ⟨hne, hv⟩
    · refine ⟨k, blk, hk, hblk, ?_⟩
      show Function.update s.card (bo.offset + w.index) w.value (s.ofs blk + w.index) = w.value
      rw [hofs, Function.update_self]
    · obtain ⟨j, blkj, hj, hblkj, hvj⟩ := hok.card hclean i v hv
      cases hk.symm.trans hj
      cases hblk.symm.trans hblkj
      refine ⟨k, blk, hk, hblk, ?_⟩
      show Function.update s.card (bo.offset + w.index) w.value (s.ofs blk + i) = v
      rw [Function.update_of_ne (by rw [hofs]; omega)]
      exact hvj

theorem gpuWrites_ensures {writes : List GpuWrite} (hs : Inv Nobody Nobody s) (hw : ∀ w ∈ writes, Writable s w) :
    Ensures (writes.foldlM gpuWrite s) fun s' => Inv Nobody Nobody s' ∧ s'.bo = s.bo := by
  induction writes generalizing s with
  | nil => exact .ok ⟨hs, rfl⟩
  | cons w writes ih =>
      rw [List.foldlM_cons]
      refine (gpuWrite_ensures hs (hw w (List.mem_cons_self ..))).bind fun s₁ hs₁ => ?_
      obtain ⟨hs₁, hbo₁, hkeep⟩ := hs₁
      refine (ih hs₁ fun w' hw' => hkeep w' (hw w' (List.mem_cons_of_mem _ hw'))).mono ?_
      exact fun s' hs' => ⟨hs'.1, hs'.2.trans hbo₁⟩

/-- What an execution leaves alone: a buffer that is mapped stays dirty. -/
structure Executed (s s' : State) : Prop where
  core : CoreSame s s'
  dirty : ∀ d co, co.mapCount ≠ 0 → s.bo d = some co → co.dirty = true → ∃ co', s'.bo d = some co' ∧ co'.dirty = true

theorem Prepared.executed (h : Prepared b s s') : Executed s s' := by
  refine ⟨h.core, fun d co hcount hco hdirty => h.dirty d co (fun hreach => ?_) hco hdirty⟩
  -- what the batch reaches is not mapped
  obtain ⟨co', hco', _, ⟨_, _, _, hidle⟩, _⟩ := h.submitted d (by rw [h.core.targets_eq]; exact hreach)
  obtain ⟨co'', hco'', hcore⟩ := h.core.some hco
  cases hco'.symm.trans hco''
  have hmap : co'.core.mapCount = co.core.mapCount := by rw [hcore]
  exact hcount (hmap.symm.trans hidle)

theorem boExec_ensures (hs : Inv Nobody Nobody s) (hun : Unmarked b s) (env : Env) (result : Int) {writes : List GpuWrite}
    (hw : ∀ s', prepareExec env b s = .ok s' → ∀ w ∈ writes, w.Allowed b s') :
    Ensures (boExec env b result writes s) fun r => Inv Nobody Nobody r.2 ∧ Executed s r.2 := by
  have hprepare : Ensures (prepareExec env b s) fun s' =>
      (Inv Nobody Nobody s' ∧ Prepared b s s') ∧ ∀ w ∈ writes, w.Allowed b s' :=
    fun s' hs' => ⟨prepareExec_ensures hs hun env s' hs', hw s' hs'⟩
  unfold boExec
  refine hprepare.bind fun s₁ hs₁ => ?_
  obtain ⟨⟨hs₁, hprep⟩, hallowed⟩ := hs₁
  have hex := hprep.executed
  split
  · exact .pure ⟨hs₁, hex⟩
  · have hwritable : ∀ w ∈ writes, Writable s₁ w := by
      intro w hmem
      obtain ⟨hreach, bo, hb, hdomain, hi⟩ := hallowed w hmem
      obtain ⟨bo', hb', _, hplaced, _⟩ := hprep.submitted w.bo hreach
      cases hb.symm.trans hb'
      exact ⟨bo, hb, hplaced, hdomain, hi⟩
    refine (gpuWrites_ensures hs₁ hwritable).bind fun s₂ hs₂ => ?_
    refine (fenceValidated_ensures hs₂.1 env).bind fun s₃ hs₃ => ?_
    refine (postSubmit_ensures env.fuel b s₃ hs₃.1).bind fun s₄ hs₄ => .pure ⟨hs₄.1, ?_⟩
    have hbo : ∀ c, (s₄.bo c).map Bo.unmarked = (s₁.bo c).map Bo.unmarked := by
      intro c
      rw [hs₄.2.2.2 c, hs₃.2.1.bo, hs₂.2]
    have hcore : CoreSame s₁ s₄ := by
      intro c
      have := congrArg (Option.map Bo.core) (hbo c)
      rw [Option.map_map, Option.map_map] at this
      exact this
    refine ⟨hex.core.trans hcore, fun d co hcount hco hdirty => ?_⟩
    obtain ⟨co₁, hco₁, hdirty₁⟩ := hex.dirty d co hcount hco hdirty
    have hmap := hbo d
    rw [hco₁] at hmap
    obtain ⟨co', hco', heq⟩ := Option.map_eq_some_iff.mp hmap
    have hd : co'.unmarked.dirty = co₁.unmarked.dirty := by rw [heq]
    exact ⟨co', hco', hd.trans hdirty₁⟩

/-! ## Runs

The caller holds mappings, nested ones too, and writes only through one that was
made for writing.  `held` lists them, the last one first. -/

structure Machine where
  state : State
  held : BoId → List Bool

def Machine.Init (m : Machine) : Prop := m.state.Init

/-- The mappings that are held after a call. -/
def Op.hold (op : Op) (m : Machine) : BoId → List Bool :=
  match op with
  | .alloc _ _ => Function.update m.held m.state.freshBo []
  | .map b writeEnable => Function.update m.held b (writeEnable :: m.held b)
  | .unmap b => Function.update m.held b (m.held b).tail
  | _ => m.held

/-- What the caller and the GPU keep to. -/
def Op.Allowed (env : Env) (m : Machine) : Op → Prop
  | .write b _ _ => true ∈ m.held b
  | .exec b _ writes => ∀ s', prepareExec env b m.state = .ok s' → ∀ w ∈ writes, w.Allowed b s'
  | _ => True

def Machine.Step (m m' : Machine) : Prop :=
  ∃ (env : Env) (op : Op), op.Allowed env m ∧ op.run env m.state = .ok m'.state ∧ m'.held = op.hold m

/-- The calls that do not run into the ways to lose a write. -/
def Op.Careful (s : State) : Op → Prop
  | .alloc size alignment => size + max alignment 1 ≤ 2 ^ 32
  | .map b writeEnable => writeEnable = true → ∀ bo, s.bo b = some bo → WriteReady bo
  | .subdata b _ _ => ∀ bo, s.bo b = some bo → WriteReady bo
  | .exec b _ _ => Unmarked b s
  | .evictAll => Savable Nobody s
  | _ => True

def Machine.CarefulStep (m m' : Machine) : Prop :=
  ∃ (env : Env) (op : Op), op.Careful m.state ∧ op.Allowed env m ∧ op.run env m.state = .ok m'.state ∧ m'.held = op.hold m

/-- The mappings of a buffer are counted, and it is dirty while it is mapped for writing. -/
structure MachineOk (m : Machine) : Prop where
  inv : Inv Nobody Nobody m.state
  count : ∀ b bo, m.state.bo b = some bo → bo.mapCount = (m.held b).length
  dirty : ∀ b bo, m.state.bo b = some bo → true ∈ m.held b → bo.dirty = true

/-- Mappings stay as they are. -/
def MapsKept (s s' : State) : Prop := ∀ c co', s'.bo c = some co' → ∃ co, s.bo c = some co ∧ co'.mapCount = co.mapCount ∧
  (co.mapCount ≠ 0 → co.dirty = true → co'.dirty = true)

theorem mapsKept_of_lasts (h : ∀ c, Lasts (s.bo c) (s'.bo c)) : MapsKept s s' := by
  intro c co' hc'
  cases hc : s.bo c with
  | none => cases hc'.symm.trans ((h c).none hc)
  | some co =>
      obtain ⟨co'', hc'', hstill, hdirty⟩ := (h c).some hc
      cases hc'.symm.trans hc''
      exact ⟨co, rfl, (Bo.still_fields hstill).2.2.2.2.2.2.2.2.1, fun _ => hdirty⟩

theorem Executed.mapsKept (h : Executed s s') : MapsKept s s' := by
  intro c co' hc'
  obtain ⟨co, hc, hcore⟩ := h.core.symm.some hc'
  have hmap : co.core.mapCount = co'.core.mapCount := by rw [hcore]
  refine ⟨co, hc, hmap.symm, fun hcount hdirty => ?_⟩
  obtain ⟨co'', hc'', hdirty''⟩ := h.dirty c co hcount hc hdirty
  cases hc'.symm.trans hc''
  exact hdirty''

theorem Unreferenced.mapsKept (h : Unreferenced s s') : MapsKept s s' := by
  intro c co' hc'
  obtain ⟨co, hc, heq⟩ := h.bo c co' hc'
  refine ⟨co, hc, ?_, fun _ hd => ?_⟩
  · rw [heq]
  · rw [heq]
    exact hd

theorem mapsKept_setBo (hb : s.bo b = some bo) (hcount : bo'.mapCount = bo.mapCount)
    (hdirty : bo.dirty = true → bo'.dirty = true) : MapsKept s (s.setBo b bo') := by
  intro c co' hc'
  by_cases hcb : c = b
  · subst hcb
    rw [setBo_self] at hc'
    cases hc'
    exact ⟨bo, hb, hcount, fun _ => hdirty⟩
  · rw [setBo_of_ne hcb] at hc'
    exact ⟨co', hc', rfl, fun _ => id⟩

theorem MapsKept.trans {s'' : State} (h : MapsKept s s') (h' : MapsKept s' s'') : MapsKept s s'' := by
  intro c co'' hc''
  obtain ⟨co', hc', hcount', hdirty'⟩ := h' c co'' hc''
  obtain ⟨co, hc, hcount, hdirty⟩ := h c co' hc'
  exact ⟨co, hc, hcount'.trans hcount, fun hne hd => hdirty' (by rw [hcount]; exact hne) (hdirty hne hd)⟩

theorem MachineOk.kept {m m' : Machine} (h : MachineOk m) (hinv : Inv Nobody Nobody m'.state)
    (hkept : MapsKept m.state m'.state) (hheld : m'.held = m.held) : MachineOk m' := by
  refine ⟨hinv, fun b bo' hb' => ?_, fun b bo' hb' hmem => ?_⟩
  · obtain ⟨bo, hb, hcount, _⟩ := hkept b bo' hb'
    rw [hcount, hheld]
    exact h.count b bo hb
  · obtain ⟨bo, hb, _, hdirty⟩ := hkept b bo' hb'
    rw [hheld] at hmem
    refine hdirty ?_ (h.dirty b bo hb hmem)
    rw [h.count b bo hb]
    exact Nat.ne_of_gt (List.length_pos_of_mem hmem)

/-- A change that does not touch the copies of a buffer. -/
theorem Inv.setStill (hs : Inv Nobody Nobody s) (hb : s.bo b = some bo) (hlike : bo.Like bo')
    (hcopies : bo'.dirty = bo.dirty ∧ bo'.cardDirty = bo.cardDirty ∧ bo'.backingStore = bo.backingStore)
    (hmap : bo'.mapCount = bo.mapCount ∧ bo'.virtual = bo.virtual) : Inv Nobody Nobody (s.setBo b bo') := by
  have hok := hs.bos b bo id hb
  obtain ⟨hd, hcd, hbs⟩ := hcopies
  obtain ⟨hm, hv⟩ := hmap
  refine ⟨hs.toMemOk.setBo b bo', hs.toBosOk.setBo hb hlike (fun _ => ?_) (fun ⟨_, h, _⟩ => h.elim) fun h => h.elim⟩
  constructor
  · unfold Bo.Fits
    rw [hlike.size, hlike.alignment]
    exact hok.fits
  · rw [hlike.size]
    exact hok.bounded
  · unfold Bo.BackingHolds
    rw [hd, hcd, hbs]
    exact hok.backing
  · unfold State.CardHolds
    rw [hd, hlike.block]
    exact hok.card
  · rw [hd, hcd, hlike.block]
    exact hok.exclusive
  · rw [hm, hcd, hlike.block]
    exact hok.mapped
  · rw [hv, hm]
    exact hok.virtual

theorem boReference_ensures (hs : Inv Nobody Nobody s) (b : BoId) :
    Ensures (boReference b s) fun s' => Inv Nobody Nobody s' ∧ MapsKept s s' := by
  refine (modifyBo_ensures b _ s).mono ?_
  rintro s' ⟨bo, hb, rfl⟩
  exact ⟨hs.setStill hb ⟨rfl, rfl, rfl, rfl, rfl⟩ ⟨rfl, rfl, rfl⟩ ⟨rfl, rfl⟩, mapsKept_setBo hb rfl id⟩

theorem emitReloc_ensures (hs : Inv Nobody Nobody s) (b : BoId) (offset : UInt32) (target : BoId)
    (targetOffset readDomains writeDomain : UInt32) :
    Ensures (emitReloc b offset target targetOffset readDomains writeDomain s) fun r =>
      Inv Nobody Nobody r.2 ∧ MapsKept s r.2 := by
  unfold emitReloc
  refine Ensures.bind_any fun _ => Ensures.bind_any fun _ => (boReference_ensures hs target).bind fun s₁ hs₁ => ?_
  refine Ensures.bind_any fun tbo => (getBo_ensures b s₁).bind fun bo hb => .pure ?_
  exact ⟨hs₁.1.setStill hb ⟨rfl, rfl, rfl, rfl, rfl⟩ ⟨rfl, rfl, rfl⟩ ⟨rfl, rfl⟩, hs₁.2.trans (mapsKept_setBo hb rfl id)⟩

theorem boAlloc_ensures (hs : Inv Nobody Nobody s) {size alignment : Nat} (h : size + max alignment 1 ≤ 2 ^ 32) :
    Ensures (boAlloc size alignment s) fun r => Inv Nobody Nobody r.2 ∧
      ∃ bo, bo.mapCount = 0 ∧ r.2.bo = (s.setBo s.freshBo bo).bo := by
  unfold boAlloc
  refine Ensures.bind_any fun _ => Ensures.bind_any fun _ => .pure ⟨?_, _, rfl, rfl⟩
  refine hs.alloc rfl ⟨rfl, rfl⟩ rfl rfl fun _ => ?_
  unfold Bo.Fits
  dsimp only
  split
  · omega
  · omega

theorem MachineOk.init {m : Machine} (h : m.Init) : MachineOk m := by
  obtain ⟨_, _, _, hbo, _⟩ := State.Init.empty h
  have hnone : ∀ b bo, m.state.bo b ≠ some bo := fun b bo hb => by
    rw [hbo b] at hb
    cases hb
  exact ⟨State.Init.inv h Nobody, fun b bo hb => absurd hb (hnone b bo), fun b bo hb => absurd hb (hnone b bo)⟩

/-- The mappings of one buffer change. -/
theorem MachineOk.remap {m m' : Machine} {held : List Bool} (h : MachineOk m) (hinv : Inv Nobody Nobody m'.state)
    (hbo : ∀ c, c ≠ b → m'.state.bo c = m.state.bo c) (hb : m'.state.bo b = some bo')
    (hheld : m'.held = Function.update m.held b held) (hcount : bo'.mapCount = held.length)
    (hdirty : true ∈ held → bo'.dirty = true) : MachineOk m' := by
  refine ⟨hinv, fun c co hc => ?_, fun c co hc hmem => ?_⟩
  · rw [hheld]
    by_cases hcb : c = b
    · subst hcb
      cases hb.symm.trans hc
      rw [Function.update_self]
      exact hcount
    · rw [Function.update_of_ne hcb]
      exact h.count c co (hbo c hcb ▸ hc)
  · rw [hheld] at hmem
    by_cases hcb : c = b
    · subst hcb
      cases hb.symm.trans hc
      rw [Function.update_self] at hmem
      exact hdirty hmem
    · rw [Function.update_of_ne hcb] at hmem
      exact h.dirty c co (hbo c hcb ▸ hc) hmem

/-- A call that begins with a look at the buffer. -/
theorem ensures_found {α : Type} {x : Except Fault α} {f : Bo → Except Fault α} {Q : α → Prop}
    (hx : x = s.getBo b >>= f) (h : ∀ bo, s.bo b = some bo → Ensures x Q) : Ensures x Q := by
  cases hb : s.bo b with
  | none =>
      rw [hx]
      refine (getBo_ensures b s).bind fun bo hbo => ?_
      cases hb.symm.trans hbo
  | some bo => exact h bo hb

variable {m : Machine}

theorem MachineOk.map (h : MachineOk m) (env : Env) (writeEnable : Bool)
    (hready : writeEnable = true → ∀ bo, m.state.bo b = some bo → WriteReady bo) :
    Ensures (boMapLocked env b writeEnable m.state) fun r =>
      MachineOk ⟨r.2, Function.update m.held b (writeEnable :: m.held b)⟩ := by
  refine ensures_found (b := b) rfl fun bo hb => ?_
  refine (boMapLocked_ensures h.inv hb (fun h => h.elim) env writeEnable (fun hw => hready hw bo hb)).mono ?_
  rintro r ⟨_, hinv, htouched, bo', hb', hdirty, hstill⟩
  have hcount : bo'.mapCount = bo.mapCount + 1 := congrArg Bo.mapCount hstill
  refine h.remap hinv htouched.bo hb' rfl ?_ fun hmem => hdirty ?_
  · rw [hcount, h.count b bo hb, List.length_cons]
  · rcases List.mem_cons.mp hmem with hw | hmem
    · rw [← hw, Bool.or_true]
    · rw [h.dirty b bo hb hmem, Bool.true_or]

theorem MachineOk.unmap (h : MachineOk m) (b : BoId) : Ensures (boUnmapLocked b m.state) fun r =>
    MachineOk ⟨r.2, Function.update m.held b (m.held b).tail⟩ := by
  refine ensures_found (b := b) rfl fun bo hb => (boUnmapLocked_ensures h.inv hb fun h => h.elim).mono ?_
  rintro ⟨_, s'⟩ ⟨hinv, _, rfl⟩
  refine h.remap hinv (fun c hcb => setBo_of_ne hcb ..) (setBo_self ..) rfl ?_ fun hmem => ?_
  · show bo.mapCount - 1 = _
    rw [h.count b bo hb, List.length_tail]
  · exact h.dirty b bo hb (List.mem_of_mem_tail hmem)

theorem MachineOk.write (h : MachineOk m) (hw : true ∈ m.held b) (offset : Nat) (bytes : List UInt8) :
    Ensures (writeVirtual b offset bytes m.state) fun s' => MachineOk ⟨s', m.held⟩ := by
  refine ensures_found (b := b) rfl fun bo hb => ?_
  have hdirty := h.dirty b bo hb hw
  refine (writeVirtual_ensures h.inv hb (fun h => h.elim) hdirty offset bytes).mono ?_
  rintro s' ⟨hinv, _, f, rfl⟩
  have hkept : MapsKept m.state (m.state.setBo b { bo with backingStore := some f }) := mapsKept_setBo hb rfl id
  exact h.kept hinv hkept rfl

theorem MachineOk.subdata (h : MachineOk m) (env : Env) (offset : Nat) (data : List UInt8)
    (hready : ∀ bo, m.state.bo b = some bo → WriteReady bo) :
    Ensures (boSubdata env b offset data m.state) fun r => MachineOk ⟨r.2, m.held⟩ := by
  cases hb : m.state.bo b with
  | none =>
      unfold boSubdata
      split
      · exact .ok h
      · refine Ensures.bind (P := fun _ => False) (ensures_found (b := b) rfl fun bo hbo => ?_) fun _ h => h.elim
        cases hb.symm.trans hbo
  | some bo =>
      refine (boSubdata_ensures h.inv hb (fun h => h.elim) env offset data (hready bo hb)).mono ?_
      exact fun r hr => h.kept hr.1 (mapsKept_of_lasts hr.2) rfl

/-- The step lemma. -/
theorem MachineOk.step (h : MachineOk m) (env : Env) (op : Op) (hcareful : op.Careful m.state)
    (hallowed : op.Allowed env m) : Ensures (op.run env m.state) fun s' => MachineOk ⟨s', op.hold m⟩ := by
  cases op with
  | alloc size alignment =>
      refine (boAlloc_ensures h.inv hcareful).bind fun r hr => .pure ?_
      obtain ⟨hinv, bo, hcount, hbo⟩ := hr
      have hfresh : r.2.bo m.state.freshBo = some bo := by rw [hbo, setBo_self]
      refine h.remap hinv (fun c hc => ?_) hfresh rfl hcount nofun
      rw [hbo, setBo_of_ne hc]
  | reference b => exact (boReference_ensures h.inv b).mono fun s' hs' => h.kept hs'.1 hs'.2 rfl
  | unreference b =>
      exact (unreference_ensures h.inv env.fuel b).mono fun s' hs' => h.kept hs'.1 hs'.2.mapsKept rfl
  | map b writeEnable => exact (h.map env writeEnable hcareful).bind fun r hr => .pure hr
  | write b offset bytes => exact h.write hallowed offset bytes
  | unmap b => exact (h.unmap b).bind fun r hr => .pure hr
  | subdata b offset data => exact (h.subdata env offset data hcareful).bind fun r hr => .pure hr
  | emitReloc b offset target targetOffset readDomains writeDomain =>
      refine (emitReloc_ensures h.inv b offset target targetOffset readDomains writeDomain).bind fun r hr => .pure ?_
      exact h.kept hr.1 hr.2 rfl
  | exec b result writes =>
      refine (boExec_ensures h.inv hcareful env result hallowed).bind fun r hr => .pure ?_
      exact h.kept hr.1 hr.2.mapsKept rfl
  | wait b =>
      refine (waitRenderingLocked_ensures h.inv env b).mono fun s' hs' => h.kept hs'.1 ?_ rfl
      exact mapsKept_of_lasts fun c => .of_eq (by rw [hs'.2.bo])
  | evictAll =>
      refine (evictAll_ensures h.inv hcareful env).mono fun s' hs' => ?_
      exact h.kept hs'.1 (mapsKept_of_lasts hs'.2.2.2) rfl

theorem machineOk_of_runs (h : Runs Machine.Init Machine.CarefulStep m) : MachineOk m := by
  refine Runs.induct (I := MachineOk) (fun _ => .init) (fun m m' hm hstep => ?_) h
  obtain ⟨env, op, hcareful, hallowed, hrun, hheld⟩ := hstep
  have hok := hm.step env op hcareful hallowed m'.state hrun
  rw [← hheld] at hok
  exact hok

/-! ## What is read -/

theorem MachineOk.cpuRead (h : MachineOk m) (hb : m.state.bo b = some bo) (hmapped : bo.mapCount ≠ 0) {i : Nat} {v : UInt8}
    (hv : m.state.content b i = some v) : m.state.cpuRead b i = some v := by
  have hok := h.inv.bos b bo id hb
  have hbacking : bo.BackingHolds i v := by
    by_cases hcurrent : bo.dirty = true ∨ bo.cardDirty = false
    · exact hok.backing hcurrent i v hv
    · -- the card is ahead, but then there is a block, which a mapped buffer of this kind has not
      simp only [not_or, Bool.not_eq_true, Bool.not_eq_false] at hcurrent
      obtain ⟨k, blk, hk, _⟩ := hok.card hcurrent.1 i v hv
      cases hk.symm.trans (hok.mapped hmapped hcurrent.2)
  obtain ⟨f, hf, hfi⟩ := hbacking
  have hvirtual := hok.virtual
  rw [if_neg hmapped] at hvirtual
  simp only [State.cpuRead, hb, hvirtual, hf, Option.bind_eq_bind, Option.bind_some, hfi]

theorem Submitted.gpuRead (h : Submitted b s) (hs : Inv Nobody Nobody s) (hd : ReflTransGen (Targets s) b d) {i : Nat}
    {v : UInt8} (hv : s.content d i = some v) : s.gpuRead d i = some v := by
  obtain ⟨bo, hb, _, ⟨⟨k, blk, hk, hblk, _, hofs⟩, hclean, _⟩, _⟩ := h d hd
  obtain ⟨j, blkj, hj, hblkj, hvj⟩ := (hs.bos d bo id hb).card hclean i v hv
  cases hk.symm.trans hj
  cases hblk.symm.trans hblkj
  show (do let bo ← s.bo d; return s.card (bo.offset + i)) = some v
  rw [hb]
  show some (s.card (bo.offset + i)) = some v
  rw [hofs, hvj]

/-- In every run of careful calls the CPU sees, through a mapping, the bytes of the last writes, and so does the GPU in
    every buffer of a batch that is submitted. -/
theorem fake_coherence (h : Runs Machine.Init Machine.CarefulStep m) :
    (∀ b bo i v, m.state.bo b = some bo → bo.mapCount ≠ 0 → m.state.content b i = some v → m.state.cpuRead b i = some v) ∧
    (∀ env b s', Unmarked b m.state → prepareExec env b m.state = .ok s' →
      ∀ d, ReflTransGen (Targets s') b d → ∀ i v, s'.content d i = some v → s'.gpuRead d i = some v) := by
  have hm := machineOk_of_runs h
  refine ⟨fun b bo i v hb hmapped hv => hm.cpuRead hb hmapped hv, fun env b s' hun hs' d hd i v hv => ?_⟩
  obtain ⟨hinv, hprep⟩ := prepareExec_ensures hm.inv hun env s' hs'
  exact hprep.submitted.gpuRead hinv hd hv

/-! ## Two runs -/

/-- A call that is made if it passes the check. -/
def Machine.call (check : Machine → Op → Bool) (m : Machine) (op : Op) : Option Machine :=
  if check m op then (op.run plainEnv m.state).toOption.map fun s => ⟨s, op.hold m⟩ else none

theorem Machine.call_eq_some {check : Machine → Op → Bool} {op : Op} {m' : Machine} (h : Machine.call check m op = some m') :
    check m op = true ∧ op.run plainEnv m.state = .ok m'.state ∧ m'.held = op.hold m := by
  unfold Machine.call at h
  split at h
  · case isTrue hcheck =>
      obtain ⟨s, hs, rfl⟩ := Option.map_eq_some_iff.mp h
      exact ⟨hcheck, toOption_eq_some hs, rfl⟩
  · cases h

/-- A manager of 64 bytes on which the calls were made. -/
def Machine.playAll (check : Machine → Op → Bool) (ops : List Op) : Option Machine :=
  (initState 0 64 fun _ => 0xcc).bind fun s => ops.foldlM (Machine.call check) ⟨s, fun _ => []⟩

theorem Machine.playAll_runs {step : Machine → Machine → Prop} {check : Machine → Op → Bool} {ops : List Op}
    (hstep : ∀ m op m', Runs Machine.Init step m → Machine.call check m op = some m' → step m m')
    (h : Machine.playAll check ops = some m) : Runs Machine.Init step m := by
  obtain ⟨s₀, hs₀, h⟩ := Option.bind_eq_some_iff.mp h
  exact Runs.foldlM hstep (.init ⟨_, _, _, hs₀⟩) h

/-- Writes go through a mapping for writing, and the GPU writes nothing. -/
def Op.checkAllowed (m : Machine) : Op → Bool
  | .write b _ _ => true ∈ m.held b
  | .exec _ _ writes => writes = []
  | _ => true

theorem Op.allowed_of_check {op : Op} (h : op.checkAllowed m = true) (env : Env) : op.Allowed env m := by
  cases op with
  | write b offset bytes =>
      have hmem : true ∈ m.held b := of_decide_eq_true h
      exact hmem
  | exec b result writes =>
      cases of_decide_eq_true h
      exact fun _ _ w hw => absurd hw List.not_mem_nil
  | _ => trivial

/-- No buffer is marked. -/
def State.clear (s : State) : Bool := (List.range s.freshBo).all fun c => (s.bo c).all fun bo => !bo.validated

theorem unmarked_of_clear (hs : Inv Nobody Nobody s) (h : s.clear = true) : Unmarked b s := by
  intro d bo _ hd
  have hlt : d < s.freshBo := by
    by_contra hge
    cases hd.symm.trans (hs.freshBo d (Nat.le_of_not_lt hge)).1
  have hall := List.all_eq_true.mp h d (List.mem_range.mpr hlt)
  rw [hd] at hall
  exact (Bool.not_eq_true' _).mp hall

/-- The same, for small buffers that are not mapped more than once, as long as no execution fails. -/
def Op.checkCareful (m : Machine) (op : Op) : Bool :=
  op.checkAllowed m && match op with
    | .alloc size alignment => size + max alignment 1 ≤ 2 ^ 32
    | .map b _ => (m.state.bo b).all fun bo => bo.mapCount = 0
    | .subdata b _ _ => (m.state.bo b).all fun bo => bo.mapCount = 0
    | .exec _ _ _ => m.state.clear
    | .evictAll => false
    | _ => true

theorem writeReady_of_all (h : (s.bo b).all (fun bo => decide (bo.mapCount = 0)) = true) (hb : s.bo b = some bo) :
    WriteReady bo := by
  rw [hb] at h
  exact fun hne => absurd (of_decide_eq_true h) hne

theorem Op.careful_of_check {op : Op} (hs : Inv Nobody Nobody m.state) (h : op.checkCareful m = true) :
    op.Careful m.state := by
  obtain ⟨_, h⟩ := Bool.and_eq_true_iff.mp h
  cases op with
  | alloc size alignment =>
      have hfits : size + max alignment 1 ≤ 2 ^ 32 := of_decide_eq_true h
      exact hfits
  | map b writeEnable => exact fun _ bo hb => writeReady_of_all h hb
  | subdata b offset data => exact fun bo hb => writeReady_of_all h hb
  | exec b result writes => exact unmarked_of_clear hs h
  | evictAll => cases h
  | _ => trivial

/-- A buffer is filled through a mapping, and a batch that refers to it is executed. A large batch takes their place
    on the card, and another buffer is mapped. -/
def carefulOps : List Op :=
  [.alloc 16 4, .alloc 8 4, .alloc 4 4, .alloc 60 4, .map 1 true, .write 1 0 [1, 2, 3, 4], .unmap 1,
    .emitReloc 0 4 1 0 2 0, .exec 0 0 [], .exec 3 0 [], .map 2 true, .write 2 0 [9]]

theorem fake_coherence_carefulOps : ∃ m s', Runs Machine.Init Machine.CarefulStep m ∧ Unmarked 0 m.state ∧
    (m.state.bo 1).any (fun bo => bo.block.isNone) = true ∧ prepareExec plainEnv 0 m.state = .ok s' ∧
    m.state.cpuRead 2 0 = some 9 ∧ s'.gpuRead 1 2 = some 3 := by
  have hplay : (Machine.playAll (fun m op => op.checkCareful m) carefulOps).map (fun m =>
      (m.state.clear, (m.state.bo 1).any (fun bo => bo.block.isNone), m.state.content 2 0,
        (m.state.bo 2).map Bo.mapCount)) = some (true, true, some 9, some 1) := by
    decide +kernel
  obtain ⟨m, hm, hfields⟩ := Option.map_eq_some_iff.mp hplay
  have hprepare : ((Machine.playAll (fun m op => op.checkCareful m) carefulOps).bind fun m =>
      (prepareExec plainEnv 0 m.state).toOption).map (fun s' =>
        (s'.content 1 2, (s'.bo 0).map fun bo => bo.relocs.map Reloc.target)) = some (some 3, some [1]) := by
    decide +kernel
  obtain ⟨s', hs', hfields'⟩ := Option.map_eq_some_iff.mp hprepare
  rw [hm, Option.bind_some] at hs'
  replace hs' : prepareExec plainEnv 0 m.state = .ok s' := toOption_eq_some hs'
  simp only [Prod.mk.injEq] at hfields hfields'
  obtain ⟨hclear, hevicted, hcontent, hmapped⟩ := hfields
  obtain ⟨hcontent', htargets⟩ := hfields'
  obtain ⟨bo, hb, hcount⟩ := Option.map_eq_some_iff.mp hmapped
  obtain ⟨bo₀, hb₀, htargets⟩ := Option.map_eq_some_iff.mp htargets
  have hruns : Runs Machine.Init Machine.CarefulStep m := by
    refine Machine.playAll_runs (fun m op m' hruns hcall => ?_) hm
    obtain ⟨hcheck, hrun, hheld⟩ := Machine.call_eq_some hcall
    exact ⟨plainEnv, op, Op.careful_of_check (machineOk_of_runs hruns).inv hcheck,
      Op.allowed_of_check (Bool.and_eq_true_iff.mp hcheck).1 plainEnv, hrun, hheld⟩
  have hun : Unmarked 0 m.state := unmarked_of_clear (machineOk_of_runs hruns).inv hclear
  obtain ⟨hcpu, hgpu⟩ := fake_coherence hruns
  refine ⟨m, s', hruns, hun, hevicted, hs', hcpu 2 bo 0 9 hb (by rw [hcount]; exact one_ne_zero) hcontent, ?_⟩
  refine hgpu plainEnv 0 s' hun hs' 1 (.single ⟨bo₀, hb₀, ?_⟩) 2 3 hcontent'
  have hmem : 1 ∈ bo₀.relocs.map Reloc.target := by
    rw [htargets]
    exact List.mem_singleton_self 1
  exact List.mem_map.mp hmem

/-- A buffer is mapped for reading and, on top of that, for writing. -/
def nestedOps : List Op := [.alloc 4 4, .map 0 false, .map 0 true, .write 0 0 [1], .unmap 0, .unmap 0]

/-- The second mapping returns before the buffer is made dirty, so that the write is not uploaded: the GPU sees what
    the card held before. -/
theorem fake_coherence_nestedWrite : ∃ m s', Runs Machine.Init Machine.Step m ∧
    prepareExec plainEnv 0 m.state = .ok s' ∧ s'.content 0 0 = some 1 ∧ s'.gpuRead 0 0 = some 0xcc := by
  have hprepare : ((Machine.playAll (fun m op => op.checkAllowed m) nestedOps).bind fun m =>
      (prepareExec plainEnv 0 m.state).toOption).map (fun s' => (s'.content 0 0, s'.gpuRead 0 0)) =
        some (some 1, some 0xcc) := by
    decide +kernel
  obtain ⟨s', hs', hfields⟩ := Option.map_eq_some_iff.mp hprepare
  obtain ⟨m, hm, hs'⟩ := Option.bind_eq_some_iff.mp hs'
  refine ⟨m, s', ?_, toOption_eq_some hs', congrArg Prod.fst hfields, congrArg Prod.snd hfields⟩
  refine Machine.playAll_runs (fun m op m' _ hcall => ?_) hm
  obtain ⟨hcheck, hrun, hheld⟩ := Machine.call_eq_some hcall
  exact ⟨plainEnv, op, Op.allowed_of_check hcheck plainEnv, hrun, hheld⟩

end LibDrm.Fake
