/-
# `LibDrm.Fake.Release` — blocks and buffers that are given up

    kick_all_locked      every block of `on_hardware` is taken from its buffer
    fence_blocks         the blocks of `on_hardware` wait for the GPU
    evict_all            every block of `lru` is taken from its buffer
    bo_unreference       a buffer goes, and with it the references it holds

None of them looks at the bytes of a buffer, so the lemmas hold for any set of
exempt buffers; no buffer is being validated (`Nobody`).
-/
import LibDrm.Fake.Map

namespace LibDrm.Fake

variable {T X : BoId → Prop} {s s' s₁ : State} {b : BoId} {bo bo' : Bo} {k : BlockId} {blk : Block}

/-! ## What an execution leaves alone -/

/-- A buffer without what an execution changes: its copies, its marks and where its targets were last. -/
def Bo.core (bo : Bo) : Bo :=
  { bo.still with
    validated := false, offset := -1, readDomains := 0, writeDomain := 0
    relocs := bo.relocs.map fun r => { r with lastTargetOffset := 0 } }

def CoreSame (s s' : State) : Prop := ∀ c, (s'.bo c).map Bo.core = (s.bo c).map Bo.core

theorem CoreSame.refl (s : State) : CoreSame s s := fun _ => rfl

theorem CoreSame.trans {s'' : State} (h : CoreSame s s') (h' : CoreSame s' s'') : CoreSame s s'' :=
  fun c => (h' c).trans (h c)

theorem CoreSame.of_bo (h : s'.bo = s.bo) : CoreSame s s' := fun c => by rw [h]

theorem CoreSame.of_one (hb : s.bo b = some bo) (hb' : s'.bo b = some bo') (hcore : bo'.core = bo.core)
    (hother : ∀ c, c ≠ b → s'.bo c = s.bo c) : CoreSame s s' := by
  intro c
  by_cases hcb : c = b
  · rw [hcb, hb, hb']
    exact congrArg some hcore
  · rw [hother c hcb]

theorem CoreSame.setBo (hb : s.bo b = some bo) (hcore : bo'.core = bo.core) : CoreSame s (s.setBo b bo') :=
  .of_one hb (setBo_self ..) hcore fun _ hc => setBo_of_ne hc ..

theorem Bo.core_of_still (h : bo'.still = bo.still) : bo'.core = bo.core := by
  have hrelocs : bo'.still.relocs = bo.still.relocs := by rw [h]
  unfold Bo.core
  rw [h, show bo'.relocs = bo.relocs from hrelocs]

theorem Lasts.core {o o' : Option Bo} (h : Lasts o o') : o'.map Bo.core = o.map Bo.core := by
  cases ho : o with
  | none => rw [h.none ho]
  | some bo =>
      obtain ⟨bo', ho', hstill, _⟩ := h.some ho
      rw [ho', Option.map_some, Option.map_some, Bo.core_of_still hstill]

/-! ## Kicking blocks out -/

theorem Dropped.setBo (h : Dropped k (s.setBo b bo) s') (bo' : Bo) : Dropped k (s.setBo b bo') (s'.setBo b bo') where
  bo := by
    show Function.update s'.bo b (some bo') = Function.update s.bo b (some bo')
    rw [h.bo]
    exact Function.update_idem ..
  content := h.content
  card := h.card
  freshBo := h.freshBo
  block := h.block
  orphan := h.orphan
  hardware := h.hardware
  shrinks := h.shrinks
  fenced := h.fenced
  place := h.place

/-- A buffer that was saved loses its block and is dirty. -/
theorem Inv.discard (hs : Inv Nobody X s) (hk : s.block k = some blk) (hb : s.bo b = some bo) (hbk : bo.block = some k)
    (hsaved : Saved s blk bo bo') (hmem : MemOk s₁) (hd : Dropped k (s.setBo b bo') s₁) {bo'' : Bo}
    (hstill : bo''.still = bo'.still ∨ bo''.still = { bo'.still with validated := false })
    (hback : bo''.backingStore = bo'.backingStore) (hblock : bo''.block = none)
    (hdirty : ¬ X b → bo''.dirty = true) : Inv Nobody X (s₁.setBo b bo'') := by
  have hstill' : bo'.still = bo.still := by
    rcases hsaved with ⟨_, rfl⟩ | ⟨old, _, _, rfl⟩
    · rfl
    · rfl
  rw [hstill'] at hstill
  have hflags : bo''.flags = bo.flags ∧ bo''.isStatic = bo.isStatic := by
    show bo''.still.flags = bo.flags ∧ bo''.still.isStatic = bo.isStatic
    rcases hstill with h | h
    · rw [h]
      exact ⟨rfl, rfl⟩
    · rw [h]
      exact ⟨rfl, rfl⟩
  refine ⟨hmem.setBo b bo'', hs.toBosOk.detach hb hbk (hd.setBo bo'') ?_ (.inl fun _ h => h)⟩
  rintro _ ⟨⟩
  refine ⟨hblock, hflags, fun hX => ?_⟩
  refine (hs.bos b bo hX hb).detached hbk hk hstill ?_ (hdirty hX) hblock (by rw [hd.setBo bo'' |>.content]; rfl)
  rcases hsaved with ⟨hclean, rfl⟩ | ⟨old, hwritten, _, rfl⟩
  · exact .inl ⟨hclean, hback⟩
  · exact .inr ⟨hwritten, old, s, hback, rfl, rfl⟩

/-- The flags of a block do not matter when it is released. -/
theorem releaseBlock_setBlock (k : BlockId) (blk : Block) (s : State) (blk' blk'' : Block) (hmem : blk'.mem = blk.mem) :
    releaseBlock k blk' (s.setBlock k blk'') = releaseBlock k blk s := by
  simp [releaseBlock, State.setBlock, State.unlink, hmem]

/-- The block of `b` has been kicked out, and `b` is not marked any more. -/
structure Kicked (k : BlockId) (s s' : State) : Prop where
  bo : ∃ b bo bo', s.bo b = some bo ∧ bo.block = some k ∧ s'.bo b = some bo' ∧ bo'.validated = false ∧
    bo'.core = bo.core ∧ ∀ c, c ≠ b → s'.bo c = s.bo c
  hardware : ∀ j, j ≠ k → j ∈ s.onHardware → j ∈ s'.onHardware
  content : s'.content = s.content
  relocs : ∀ c co', s'.bo c = some co' → ∃ co, s.bo c = some co ∧ co'.relocs = co.relocs
  dirty : ∀ c co', s'.bo c = some co' → ∃ co, s.bo c = some co ∧ (co.dirty = true → co'.dirty = true)

theorem kickBlock_ensures (hs : Inv Nobody X s) (hk : k ∈ s.onHardware) :
    Ensures (kickBlock s k) fun s' => Inv Nobody X s' ∧ Kicked k s s' := by
  unfold kickBlock
  refine (getBlock_ensures k s).bind fun blk hblk => (deref_ensures _).bind fun b hbo => ?_
  obtain ⟨bo, hb, hbk⟩ := hs.owner k blk b hblk hbo
  have hfenced : blk.fenced = false := by
    by_contra h
    exact (hs.disjoint.1 hk).1 ((hs.listed k blk hblk).2.2.mp (by simpa using h))
  have hfree := freeBlock_drops (s := s.setBlock k { blk with onHardware := false }) (setBlock_self ..) hbo hb
    (hs.ordinary b bo hb).1 false fun bo' => (?_ : Ensures _ fun s' => MemOk s' ∧ Dropped k (s.setBo b bo') s')
  · refine hfree.bind fun s₁ hs₁ => ?_
    obtain ⟨bo', hsaved, _, hmem, hd⟩ := hs₁
    refine (modifyBo_ensures b _ s₁).mono ?_
    rintro s₂ ⟨bo₁, hb₁, rfl⟩
    rw [hd.bo, setBo_self] at hb₁
    cases hb₁
    have hsaved' : Saved s blk bo bo' := hsaved rfl
    have hflags : bo'.flags.noBackingStore = false := by
      have hord := (hs.ordinary b bo hb).1
      rcases hsaved' with ⟨_, rfl⟩ | ⟨_, _, _, rfl⟩
      · rw [hord]
      · exact (congrArg Flags.noBackingStore hord).trans rfl
    refine ⟨hs.discard hblk hb hbk hsaved' hmem hd (.inr rfl) rfl rfl (fun _ => by simp [hflags]), ?_, ?_, ?_, ?_, ?_⟩
    · refine ⟨b, bo, _, hb, hbk, setBo_self .., rfl, ?_, fun c hc => ?_⟩
      · rcases hsaved' with ⟨_, rfl⟩ | ⟨_, _, _, rfl⟩
        · rfl
        · rfl
      · rw [setBo_of_ne hc, hd.bo, setBo_of_ne hc]
    · exact hd.hardware
    · exact hd.content
    · intro c co' hc
      by_cases hcb : c = b
      · subst hcb
        rw [setBo_self] at hc
        cases hc
        rcases hsaved' with ⟨_, rfl⟩ | ⟨_, _, _, rfl⟩
        · exact ⟨_, hb, rfl⟩
        · exact ⟨_, hb, rfl⟩
      · rw [setBo_of_ne hcb, hd.bo, setBo_of_ne hcb] at hc
        exact ⟨co', hc, rfl⟩
    · intro c co' hc
      by_cases hcb : c = b
      · subst hcb
        rw [setBo_self] at hc
        cases hc
        exact ⟨bo, hb, fun _ => by simp [hflags]⟩
      · rw [setBo_of_ne hcb, hd.bo, setBo_of_ne hcb] at hc
        exact ⟨co', hc, id⟩
  · unfold dropBlock
    rw [if_neg nofun, if_neg (by rw [hfenced]; nofun)]
    rw [show ((s.setBlock k { blk with onHardware := false }).setBo b bo') =
      (s.setBo b bo').setBlock k { blk with onHardware := false } from rfl,
      releaseBlock_setBlock k blk _ { blk with onHardware := false } _ rfl]
    exact releaseBlock_dropped (hs.toMemOk.setBo b bo') hblk

/-- After `kick_all_locked` no buffer that was on the hardware is marked. -/
structure KickedAll (ks : List BlockId) (s s' : State) : Prop where
  core : CoreSame s s'
  content : s'.content = s.content
  relocs : ∀ c co', s'.bo c = some co' → ∃ co, s.bo c = some co ∧ co'.relocs = co.relocs
  marks : ∀ c co', s'.bo c = some co' → co'.validated = true →
    ∃ co, s.bo c = some co ∧ co.validated = true ∧ ∀ k ∈ ks, co.block ≠ some k
  dirty : ∀ c co', s'.bo c = some co' → ∃ co, s.bo c = some co ∧ (co.dirty = true → co'.dirty = true)

theorem kickBlocks_ensures {ks : List BlockId} (hs : Inv Nobody X s) (hks : ∀ k ∈ ks, k ∈ s.onHardware) (hnodup : ks.Nodup) :
    Ensures (ks.foldlM kickBlock s) fun s' => Inv Nobody X s' ∧ KickedAll ks s s' := by
  induction ks generalizing s with
  | nil => exact .ok ⟨hs, .refl s, rfl, fun c co' hc => ⟨co', hc, rfl⟩, fun c co' hc hv => ⟨co', hc, hv, nofun⟩,
      fun c co' hc => ⟨co', hc, id⟩⟩
  | cons k ks ih =>
      obtain ⟨hk, hnodup⟩ := List.nodup_cons.mp hnodup
      rw [List.foldlM_cons]
      refine (kickBlock_ensures hs (hks k (List.mem_cons_self ..))).bind fun s₁ hs₁ => ?_
      obtain ⟨hs₁, ⟨b, bo, bo', hb, hbk, hb', hvalid, hcore, hother⟩, hhw, hcontent, hrelocs, hdirty⟩ := hs₁
      have hrest : ∀ j ∈ ks, j ∈ s₁.onHardware := by
        intro j hj
        refine hhw j ?_ (hks j (List.mem_cons_of_mem _ hj))
        rintro rfl
        exact hk hj
      refine (ih hs₁ hrest hnodup).mono ?_
      rintro s' ⟨hs', h⟩
      refine ⟨hs', (CoreSame.of_one hb hb' hcore hother).trans h.core, h.content.trans hcontent, ?_, ?_, ?_⟩
      · intro c co' hc
        obtain ⟨co₁, hco₁, hr₁⟩ := h.relocs c co' hc
        obtain ⟨co, hco, hr⟩ := hrelocs c co₁ hco₁
        exact ⟨co, hco, hr₁.trans hr⟩
      · intro c co' hc hv
        obtain ⟨co, hco, hcov, hcok⟩ := h.marks c co' hc hv
        have hcb : c ≠ b := by
          rintro rfl
          cases hb'.symm.trans hco
          rw [hvalid] at hcov
          cases hcov
        rw [hother c hcb] at hco
        refine ⟨co, hco, hcov, fun j hj => ?_⟩
        rcases List.mem_cons.mp hj with rfl | hj
        · -- the block was that of `b`
          intro hcj
          obtain ⟨blk₁, hblk₁, hown₁⟩ := hs.owned b bo j hb hbk
          obtain ⟨blk₂, hblk₂, hown₂⟩ := hs.owned c co j hco hcj
          cases hblk₁.symm.trans hblk₂
          exact hcb (Option.some.inj (hown₂.symm.trans hown₁))
        · exact hcok j hj
      · intro c co' hc
        obtain ⟨co₁, hco₁, hd₁⟩ := h.dirty c co' hc
        obtain ⟨co, hco, hd⟩ := hdirty c co₁ hco₁
        exact ⟨co, hco, fun h => hd₁ (hd h)⟩

theorem Relisted.rendering (s : State) (p : Bool) : Relisted s { s with performedRendering := p } :=
  ⟨rfl, rfl, rfl, rfl, rfl, rfl, fun _ => rfl⟩

theorem kickAllLocked_ensures (hs : Inv Nobody X s) :
    Ensures (kickAllLocked s) fun s' => Inv Nobody X s' ∧ KickedAll s.onHardware s s' := by
  have hrel := Relisted.rendering s false
  have hnodup : s.onHardware.Nodup := hs.nodup.of_append_left.of_append_left
  refine (kickBlocks_ensures (hs.counters hrel rfl ⟨rfl, rfl, rfl⟩) (fun _ h => h) hnodup).mono ?_
  rintro s' ⟨hs', h⟩
  exact ⟨hs', h.core, h.content, h.relocs, h.marks, h.dirty⟩

/-! ## Fencing the batch -/

theorem moved_hardware (hk : s.block k = some blk) {blk' : Block} (hmem : blk'.mem = blk.mem) (hbo : blk'.bo = blk.bo)
    (hhw : blk'.onHardware = true) (hfenced : blk'.fenced = false) : Moved k blk' s
      { (s.setBlock k blk').unlink k with onHardware := ((s.setBlock k blk').unlink k).onHardware ++ [k] } := by
  refine ⟨relisted_setBlock hk hmem hbo ⟨rfl, rfl, rfl, rfl, rfl, rfl⟩ rfl, rfl, ?_, fun j => ?_, fun j => ?_, fun j hjk => ?_⟩
  · simp only [State.lists, State.unlink, State.setBlock, List.filter_append]
    rw [List.append_assoc, List.append_assoc, List.append_assoc, List.append_assoc]
    exact List.Perm.append_left _ (List.perm_append_comm.trans (by simp))
  · by_cases hjk : j = k <;> simp [State.unlink, State.setBlock, hjk, hhw]
  · by_cases hjk : j = k <;> simp [State.unlink, State.setBlock, hjk, hfenced]
  · simp [State.unlink, State.setBlock, hjk]

theorem moved_fenced (hk : s.block k = some blk) {blk' : Block} (hmem : blk'.mem = blk.mem) (hbo : blk'.bo = blk.bo)
    (hhw : blk'.onHardware = false) (hfenced : blk'.fenced = true) : Moved k blk' s
      { (s.setBlock k blk').unlink k with fenced := ((s.setBlock k blk').unlink k).fenced ++ [k] } := by
  refine ⟨relisted_setBlock hk hmem hbo ⟨rfl, rfl, rfl, rfl, rfl, rfl⟩ rfl, rfl, ?_, fun j => ?_, fun j => ?_, fun j hjk => ?_⟩
  · simp only [State.lists, State.unlink, State.setBlock, List.filter_append]
    rw [List.append_assoc, List.append_assoc, List.append_assoc, List.append_assoc]
    exact List.Perm.append_left _ (List.Perm.append_left _ List.perm_append_comm)
  · by_cases hjk : j = k <;> simp [State.unlink, State.setBlock, hjk, hhw]
  · by_cases hjk : j = k <;> simp [State.unlink, State.setBlock, hjk, hfenced]
  · simp [State.unlink, State.setBlock, hjk]

theorem fenceBlock_ensures (hs : Inv Nobody X s) (fence : UInt32) (k : BlockId) :
    Ensures (fenceBlock fence s k) fun s' => Inv Nobody X s' ∧ Cleared s s' := by
  unfold fenceBlock
  refine (getBlock_ensures k s).bind fun blk hblk => .pure ?_
  have hm : Moved k { blk with fence, onHardware := false, fenced := true } s _ := moved_fenced hblk rfl rfl rfl rfl
  refine ⟨hs.moved hblk hm (fun _ hlru => ?_) (.inl fun _ h => h), hm.cleared nofun⟩
  simp [State.unlink, State.setBlock] at hlru

theorem fenceValidated_ensures (hs : Inv Nobody X s) (env : Env) :
    Ensures (fenceValidated env s) fun s' => Inv Nobody X s' ∧ Cleared s s' ∧ s'.onHardware = [] := by
  have hrel : Relisted s { s with emitted := s.emitted + 1 } := ⟨rfl, rfl, rfl, rfl, rfl, rfl, fun _ => rfl⟩
  unfold fenceValidated fenceBlocks
  have hloop := Ensures.foldlM (f := fenceBlock (fenceEmitInternal env s).1) (l := s.onHardware)
    (I := fun s' => Inv Nobody X s' ∧ Cleared s s') (s := (fenceEmitInternal env s).2)
    ⟨hs.counters hrel rfl ⟨rfl, rfl, rfl⟩, hrel.cleared fun _ h => h⟩ fun s₁ k hs₁ =>
      (fenceBlock_ensures hs₁.1 _ k).mono fun s₂ hs₂ => ⟨hs₂.1, hs₁.2.trans hs₂.2⟩
  refine hloop.bind fun s' hs' => (assert_ensures _).bind fun _ hempty => .pure ⟨hs'.1, hs'.2, ?_⟩
  simpa using hempty

/-! ## Evicting everything -/

/-- A buffer that loses its block is dirty then: it is dirty before, or its block will be saved.  `evict_all` does not
    mark the others. -/
def Savable (X : BoId → Prop) (s : State) : Prop :=
  ∀ b bo, ¬ X b → s.bo b = some bo → bo.block ≠ none → bo.dirty = true ∨ bo.cardDirty = true

/-- What `evict_all` leaves alone. -/
structure EvictedOut (s s' : State) : Prop where
  lasts : ∀ c, Lasts (s.bo c) (s'.bo c)
  content : s'.content = s.content
  hardware : ∀ j, j ∈ s'.onHardware → j ∈ s.onHardware

theorem evictOut_ensures (hs : Inv Nobody X s) (hready : Savable X s) (k : BlockId) :
    Ensures (evictOut s k) fun s' => Inv Nobody X s' ∧ Savable X s' ∧ EvictedOut s s' := by
  unfold evictOut
  refine (getBlock_ensures k s).bind fun blk hblk => (deref_ensures _).bind fun b hbo => ?_
  obtain ⟨bo, hb, hbk⟩ := hs.owner k blk b hblk hbo
  refine (freeBlock_ensures hs.toMemOk hblk hbo hb (hs.ordinary b bo hb).1 false).bind fun s₁ hs₁ => ?_
  obtain ⟨bo', hsaved, _, hmem, hd⟩ := hs₁
  refine (modifyBo_ensures b _ s₁).mono ?_
  rintro s₂ ⟨bo₁, hb₁, rfl⟩
  rw [hd.bo, setBo_self] at hb₁
  cases hb₁
  have hsaved' : Saved s blk bo bo' := hsaved rfl
  have hdirty : ¬ X b → bo'.dirty = true := by
    intro hX
    have hmarked := hready b bo hX hb (by rw [hbk]; nofun)
    rcases hsaved' with ⟨hclean, rfl⟩ | ⟨_, _, _, rfl⟩
    · rw [hclean] at hmarked
      simpa using hmarked
    · rfl
  refine ⟨hs.discard hblk hb hbk hsaved' hmem hd (.inl rfl) rfl rfl hdirty, ?_, fun c => ?_, hd.content,
    hd.shrinks⟩
  · intro c co hX hc hck
    by_cases hcb : c = b
    · subst hcb
      rw [setBo_self] at hc
      cases hc
      exact absurd rfl hck
    · rw [setBo_of_ne hcb, hd.bo, setBo_of_ne hcb] at hc
      exact hready c co hX hc hck
  · by_cases hcb : c = b
    · subst hcb
      rw [setBo_self, hb]
      rcases hsaved' with ⟨_, rfl⟩ | ⟨_, _, _, rfl⟩
      · exact ⟨rfl, id⟩
      · exact ⟨rfl, fun _ => rfl⟩
    · rw [setBo_of_ne hcb, hd.bo, setBo_of_ne hcb]
      exact .refl _

theorem evictAll_ensures (hs : Inv Nobody X s) (hready : Savable X s) (env : Env) : Ensures (evictAll env s) fun s' =>
    Inv Nobody X s' ∧ s'.onHardware = [] ∧ s'.content = s.content ∧ ∀ c, Lasts (s.bo c) (s'.bo c) := by
  have hrel : Relisted s { s with needFence := true, fail := false } := ⟨rfl, rfl, rfl, rfl, rfl, rfl, fun _ => rfl⟩
  unfold evictAll
  refine (waitIdle_ensures (hs.counters hrel rfl ⟨rfl, rfl, rfl⟩) env).bind fun s₁ hs₁ => ?_
  obtain ⟨hs₁, hcl⟩ := hs₁
  have hbo : s₁.bo = s.bo := hcl.bo
  refine Ensures.bind_any fun _ => (assert_ensures _).bind fun _ hempty => ?_
  replace hempty : s₁.onHardware = [] := by simpa using hempty
  have hready₁ : Savable X s₁ := by
    unfold Savable
    rw [hbo]
    exact hready
  have hloop := Ensures.foldlM (f := evictOut) (l := s₁.lru)
    (I := fun s' => Inv Nobody X s' ∧ Savable X s' ∧ EvictedOut s₁ s') (s := s₁)
    ⟨hs₁, hready₁, fun _ => .refl _, rfl, fun _ h => h⟩ fun s₂ k ⟨hs₂, hready₂, h₂⟩ =>
      (evictOut_ensures hs₂ hready₂ k).mono fun s₃ ⟨hs₃, hready₃, h₃⟩ => ⟨hs₃, hready₃,
        fun c => (h₂.lasts c).trans (h₃.lasts c), h₃.content.trans h₂.content, fun j hj => h₂.hardware j (h₃.hardware j hj)⟩
  refine hloop.mono ?_
  rintro s' ⟨hs', _, h⟩
  refine ⟨hs', List.eq_nil_iff_forall_not_mem.mpr fun j hj => ?_, h.content.trans hcl.content, fun c => ?_⟩
  · have := h.hardware j hj
    rw [hempty] at this
    cases this
  · rw [← hbo]
    exact h.lasts c

/-! ## Dropping references

A buffer whose last reference goes gives its block back, then drops the references
that its relocations hold, and is freed at last.  In between it is there with no
reference left; the invariant is that of the state without such buffers. -/

/-- The state without the buffers of a list. -/
def State.without (D : List BoId) (s : State) : State := { s with bo := fun c => if c ∈ D then none else s.bo c }

/-- The buffers of the list are about to be freed. -/
def Dying (D : List BoId) (s : State) : Prop := ∀ c ∈ D, ∃ co, s.bo c = some co ∧ co.refcount = 0

/-- Buffers may be gone, and others have fewer references. -/
structure Unreferenced (s s' : State) : Prop where
  bo : ∀ c co', s'.bo c = some co' → ∃ co, s.bo c = some co ∧ co' = { co with refcount := co'.refcount }
  content : s'.content = s.content
  hardware : ∀ j, j ∈ s'.onHardware → j ∈ s.onHardware

theorem Unreferenced.refl (s : State) : Unreferenced s s := ⟨fun _ co hc => ⟨co, hc, rfl⟩, rfl, fun _ h => h⟩

theorem Unreferenced.trans {s'' : State} (h : Unreferenced s s') (h' : Unreferenced s' s'') : Unreferenced s s'' := by
  refine ⟨fun c co'' hc => ?_, h'.content.trans h.content, fun j hj => h.hardware j (h'.hardware j hj)⟩
  obtain ⟨co', hco', heq'⟩ := h'.bo c co'' hc
  obtain ⟨co, hco, heq⟩ := h.bo c co' hco'
  refine ⟨co, hco, ?_⟩
  rw [heq', heq]

theorem MemOk.without_iff {D : List BoId} : MemOk (s.without D) ↔ MemOk s :=
  ⟨fun h => ⟨h.heap, h.held, h.full, h.apart, h.freshBlock, h.nodup, h.known, h.listed, h.orphan⟩,
    fun h => ⟨h.heap, h.held, h.full, h.apart, h.freshBlock, h.nodup, h.known, h.listed, h.orphan⟩⟩

theorem without_bo {D : List BoId} (hD : b ∉ D) : (s.without D).bo b = s.bo b := if_neg hD

/-- A buffer without block is gone. -/
theorem BosOk.erase (hs : BosOk Nobody X s) (hb : s.bo b = some bo) (hnone : bo.block = none)
    (hs' : s' = { s with bo := Function.update s.bo b none }) : BosOk Nobody X s' := by
  have hcases : ∀ c co, s'.bo c = some co → c ≠ b ∧ s.bo c = some co := by
    intro c co hc
    rw [hs'] at hc
    replace hc : Function.update s.bo b none c = some co := hc
    by_cases hcb : c = b
    · subst hcb
      rw [Function.update_self] at hc
      cases hc
    · rw [Function.update_of_ne hcb] at hc
      exact ⟨hcb, hc⟩
  have hother : ∀ c, c ≠ b → s'.bo c = s.bo c := fun c hc => by
    rw [hs']
    exact Function.update_of_ne hc ..
  constructor
  · exact fun c co hc => hs.ordinary c co (hcases c co hc).2
  · intro c co k hc hk
    rw [hs']
    exact hs.owned c co k (hcases c co hc).2 hk
  · intro k blk c hk hc
    rw [hs'] at hk
    obtain ⟨co, hco, hcok⟩ := hs.owner k blk c hk hc
    have hcb : c ≠ b := by
      rintro rfl
      cases hb.symm.trans hco
      cases hnone.symm.trans hcok
    exact ⟨co, (hother c hcb).trans hco, hcok⟩
  · intro c co k blk hc hfits hk hblk
    rw [hs'] at hblk ⊢
    exact hs.room c co k blk (hcases c co hc).2 hfits hk hblk
  · intro c hc
    rw [hs'] at hc ⊢
    obtain ⟨hnone, hcontent⟩ := hs.freshBo c hc
    refine ⟨?_, hcontent⟩
    show Function.update s.bo b none c = none
    by_cases hcb : c = b
    · subst hcb
      exact Function.update_self ..
    · rw [Function.update_of_ne hcb]
      exact hnone
  · intro c co hX hc
    rw [hs']
    exact (hs.bos c co hX (hcases c co hc).2).mono rfl fun _ _ _ h => h
  · exact fun _ _ h => h.elim

/-- The last reference of `b` is dropped: its block is given back. -/
theorem freeBoBlock_ensures {D : List BoId} (hs : Inv Nobody X (s.without D)) (hb : s.bo b = some bo) (hD : b ∉ D)
    (hlike : bo.Like bo') : Ensures (freeBoBlock bo (s.setBo b bo')) fun s' =>
      Inv Nobody X (s'.without (b :: D)) ∧ s'.bo = (s.setBo b bo').bo ∧ s'.content = s.content ∧
        ∀ j, j ∈ s'.onHardware → j ∈ s.onHardware := by
  have hb' : (s.without D).bo b = some bo := (without_bo hD).trans hb
  have hwithout : ∀ s₁ : State, s₁.bo = (s.setBo b bo').bo →
      (s₁.without (b :: D)).bo = Function.update (s.without D).bo b none := by
    intro s₁ hs₁
    funext c
    by_cases hcb : c = b
    · subst hcb
      rw [Function.update_self]
      exact if_pos (List.mem_cons_self ..)
    · rw [Function.update_of_ne hcb]
      show (if c ∈ b :: D then none else s₁.bo c) = if c ∈ D then none else s.bo c
      rw [hs₁, setBo_of_ne hcb]
      simp [hcb]
  have hmem := MemOk.setBo (MemOk.without_iff.mp hs.toMemOk) b bo'
  unfold freeBoBlock
  cases hk : bo.block with
  | none =>
      refine .ok ⟨⟨MemOk.without_iff.mpr hmem, hs.toBosOk.erase hb' hk ?_⟩, rfl, rfl, fun _ h => h⟩
      rw [← hwithout _ rfl]
      rfl
  | some k =>
      obtain ⟨blk, hblk, hown⟩ := hs.owned b bo k hb' hk
      have hflags : bo'.flags = {} := hlike.flags.trans (hs.ordinary b bo hb').1
      refine (freeBlock_ensures hmem hblk hown (setBo_self ..) hflags true).mono ?_
      rintro s' ⟨bo₁, _, hsame, hmem', hd⟩
      rw [hsame rfl, setBo_setBo] at hd
      refine ⟨⟨MemOk.without_iff.mpr hmem', ?_⟩, hd.bo, hd.content, hd.shrinks⟩
      have hd' : Dropped k { s.without D with bo := Function.update (s.without D).bo b none } (s'.without (b :: D)) :=
        ⟨hwithout s' hd.bo, hd.content, hd.card, hd.freshBo, hd.block, hd.orphan, hd.hardware, hd.shrinks, hd.fenced,
          hd.place⟩
      exact hs.toBosOk.detach hb' hk hd' (fun _ h => absurd h (Option.some_ne_none _).symm) (.inl fun _ h => h)

theorem without_setBo_of_mem {D : List BoId} (hD : b ∈ D) (bo : Bo) : (s.setBo b bo).without D = s.without D := by
  have hbo : (fun c => if c ∈ D then none else (s.setBo b bo).bo c) = fun c => if c ∈ D then none else s.bo c := by
    funext c
    by_cases hcb : c = b
    · simp [hcb, hD]
    · rw [setBo_of_ne hcb]
  unfold State.without
  rw [hbo]
  rfl

theorem without_setBo {D : List BoId} (hD : b ∉ D) (bo : Bo) : (s.setBo b bo).without D = (s.without D).setBo b bo := by
  have hbo : (fun c => if c ∈ D then none else (s.setBo b bo).bo c) = ((s.without D).setBo b bo).bo := by
    funext c
    by_cases hcb : c = b
    · subst hcb
      rw [setBo_self, if_neg hD, setBo_self]
    · rw [setBo_of_ne hcb, setBo_of_ne hcb]
      rfl
  unfold State.without
  rw [hbo]
  rfl

/-- The buffer that was about to be freed is freed. -/
theorem without_free {D : List BoId} (hD : b ∉ D) :
    ({ s with bo := Function.update s.bo b none } : State).without D = s.without (b :: D) := by
  have hbo : (fun c => if c ∈ D then none else Function.update s.bo b none c) = (s.without (b :: D)).bo := by
    funext c
    show _ = if c ∈ b :: D then none else s.bo c
    by_cases hcb : c = b
    · subst hcb
      simp
    · simp [hcb]
  unfold State.without
  dsimp only
  rw [hbo]
  rfl

theorem Dying.setBo {D : List BoId} (h : Dying D s) (hb : b ∈ D → bo.refcount = 0) : Dying D (s.setBo b bo) := by
  intro c hc
  by_cases hcb : c = b
  · subst hcb
    exact ⟨bo, setBo_self .., hb hc⟩
  · rw [setBo_of_ne hcb]
    exact h c hc

theorem unreferenced_setBo (hb : s.bo b = some bo) (n : Nat) : Unreferenced s (s.setBo b { bo with refcount := n }) := by
  refine ⟨fun c co' hc => ?_, rfl, fun _ h => h⟩
  by_cases hcb : c = b
  · subst hcb
    rw [setBo_self] at hc
    cases hc
    exact ⟨bo, hb, rfl⟩
  · rw [setBo_of_ne hcb] at hc
    exact ⟨co', hc, rfl⟩

theorem unreferenceLocked_ensures (fuel : Nat) : ∀ (D : List BoId) (b : BoId) (s : State), Dying D s →
    Inv Nobody X (s.without D) → Ensures (unreferenceLocked fuel b s) fun s' =>
      Dying D s' ∧ Inv Nobody X (s'.without D) ∧ Unreferenced s s' := by
  induction fuel with
  | zero => exact fun _ _ _ _ _ => .error
  | succ fuel ih =>
      intro D b s hdying hs
      unfold unreferenceLocked
      refine (getBo_ensures b s).bind fun bo hb => ?_
      have hone := unreferenced_setBo hb (bo.refcount - 1)
      dsimp only
      by_cases hD : b ∈ D
      · -- `b` has no reference left, and is freed elsewhere
        have hzero : bo.refcount = 0 := by
          obtain ⟨bo₁, hb₁, hzero⟩ := hdying b hD
          cases hb.symm.trans hb₁
          exact hzero
        rw [if_pos (by rw [hzero]; nofun)]
        refine .pure ⟨hdying.setBo fun _ => by rw [hzero], ?_, hone⟩
        rw [without_setBo_of_mem hD]
        exact hs
      · have hb' : (s.without D).bo b = some bo := (without_bo hD).trans hb
        split
        · refine .pure ⟨hdying.setBo fun h => absurd h hD, ?_, hone⟩
          rw [without_setBo hD]
          refine hs.setBo hb' ⟨rfl, rfl, rfl, rfl, rfl⟩ (fun hX => ?_) rfl rfl (fun h => h.elim)
          have hok := hs.bos b bo hX hb'
          exact ⟨hok.fits, hok.bounded, hok.backing, hok.card, hok.exclusive, hok.mapped, hok.virtual⟩
        · case isFalse hlast =>
            have hlast : bo.refcount = 1 := by simpa using hlast
            refine Ensures.bind_any fun _ => ?_
            refine (freeBoBlock_ensures hs hb hD (by exact ⟨rfl, rfl, rfl, rfl, rfl⟩)).bind fun s₁ hs₁ => ?_
            obtain ⟨hs₁, hbo₁, hcontent₁, hhw₁⟩ := hs₁
            have hdying₁ : Dying (b :: D) s₁ := by
              intro c hc
              rw [hbo₁]
              rcases List.mem_cons.mp hc with rfl | hc
              · exact ⟨_, setBo_self .., by rw [hlast]⟩
              · exact hdying.setBo (fun h => absurd h hD) c hc
            have hone₁ : Unreferenced s s₁ := ⟨by rw [hbo₁]; exact hone.bo, hcontent₁, hhw₁⟩
            have hloop := Ensures.foldlM (f := fun s (r : Reloc) => unreferenceLocked fuel r.target s) (l := bo.relocs)
              (I := fun s' => Dying (b :: D) s' ∧ Inv Nobody X (s'.without (b :: D)) ∧ Unreferenced s s') (s := s₁)
              ⟨hdying₁, hs₁, hone₁⟩ fun s₂ r ⟨hdying₂, hs₂, h₂⟩ =>
                (ih (b :: D) r.target s₂ hdying₂ hs₂).mono fun s₃ ⟨hdying₃, hs₃, h₃⟩ => ⟨hdying₃, hs₃, h₂.trans h₃⟩
            refine hloop.bind fun s₂ hs₂ => .pure ?_
            obtain ⟨hdying₂, hs₂, h₂⟩ := hs₂
            refine ⟨fun c hc => ?_, ?_, ?_⟩
            · have hcb : c ≠ b := by
                rintro rfl
                exact hD hc
              obtain ⟨co, hco, hzero⟩ := hdying₂ c (List.mem_cons_of_mem _ hc)
              exact ⟨co, (Function.update_of_ne hcb ..).trans hco, hzero⟩
            · rw [without_free hD]
              exact hs₂
            · refine ⟨fun c co' hc => ?_, h₂.content, h₂.hardware⟩
              have hcb : c ≠ b := by
                rintro rfl
                replace hc : Function.update s₂.bo c none c = some co' := hc
                rw [Function.update_self] at hc
                cases hc
              replace hc : Function.update s₂.bo b none c = some co' := hc
              rw [Function.update_of_ne hcb] at hc
              exact h₂.bo c co' hc

/-- `drm_intel_fake_bo_unreference`. -/
theorem unreference_ensures (hs : Inv Nobody X s) (fuel : Nat) (b : BoId) :
    Ensures (unreferenceLocked fuel b s) fun s' => Inv Nobody X s' ∧ Unreferenced s s' := by
  have hnil : ∀ s : State, s.without [] = s := fun s => by simp [State.without]
  refine (unreferenceLocked_ensures fuel [] b s nofun (by rw [hnil]; exact hs)).mono ?_
  rintro s' ⟨_, hs', h⟩
  rw [hnil] at hs'
  exact ⟨hs', h⟩

end LibDrm.Fake
