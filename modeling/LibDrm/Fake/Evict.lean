/-
# `LibDrm.Fake.Evict` — fences, evictions and new blocks keep the copies

    clear_fenced            blocks whose fence has passed go to `lru`, or away if they have no buffer
    evict_lru, evict_mru    a block of `lru` is taken from its buffer, which becomes dirty
    alloc_block             a buffer without block gets one

Waiting changes no buffer (`Cleared`); an eviction changes only buffers that lose
their block (`Evicted`); a buffer that gets a block (`Allocated`) may have to be
uploaded before the invariant holds for it again.
-/
import LibDrm.Fake.Invariant

namespace LibDrm.Fake

variable {T X : BoId → Prop} {s s' : State} {b : BoId} {bo : Bo} {k : BlockId} {blk : Block}

/-! ## Waiting for fences -/

/-- Nothing has happened to buffers and to the blocks that they have. -/
structure Cleared (s s' : State) : Prop where
  bo : s'.bo = s.bo
  content : s'.content = s.content
  card : s'.card = s.card
  freshBo : s'.freshBo = s.freshBo
  hardware : ∀ j, j ∈ s'.onHardware → j ∈ s.onHardware
  block : ∀ j blk, s.block j = some blk → blk.bo ≠ none →
    ∃ blk', s'.block j = some blk' ∧ blk'.mem = blk.mem ∧ blk'.bo = blk.bo ∧ s'.ofs blk' = s.ofs blk

theorem Cleared.refl (s : State) : Cleared s s := ⟨rfl, rfl, rfl, rfl, fun _ h => h, fun _ blk h _ => ⟨blk, h, rfl, rfl, rfl⟩⟩

theorem Cleared.trans {s'' : State} (h : Cleared s s') (h' : Cleared s' s'') : Cleared s s'' where
  bo := h'.bo.trans h.bo
  content := h'.content.trans h.content
  card := h'.card.trans h.card
  freshBo := h'.freshBo.trans h.freshBo
  hardware j hj := h.hardware j (h'.hardware j hj)
  block j blk hj hbo := by
    obtain ⟨blk₁, hblk₁, hmem₁, hbo₁, hofs₁⟩ := h.block j blk hj hbo
    obtain ⟨blk₂, hblk₂, hmem₂, hbo₂, hofs₂⟩ := h'.block j blk₁ hblk₁ (by rw [hbo₁]; exact hbo)
    exact ⟨blk₂, hblk₂, hmem₂.trans hmem₁, hbo₂.trans hbo₁, hofs₂.trans hofs₁⟩

theorem Relisted.cleared (h : Relisted s s') (hhw : ∀ j, j ∈ s'.onHardware → j ∈ s.onHardware) : Cleared s s' where
  bo := h.bo
  content := h.content
  card := h.card
  freshBo := h.freshBo
  hardware := hhw
  block j blk hj _ := by
    obtain ⟨blk', hblk', hmem, hbo⟩ := h.same hj
    exact ⟨blk', hblk', hmem, hbo, by rw [State.ofs, h.heap, hmem, State.ofs]⟩

theorem Cleared.evicted (h : Cleared s s') : Evicted s s' :=
  ⟨fun b => .of_eq (by rw [h.bo]), fun b bo hb _ => by rw [h.bo]; exact hb, h.content, h.freshBo⟩

/-- A block without buffer is given up. -/
theorem BosOk.dropped (hs : BosOk T X s) (hk : s.block k = some blk) (hbo : blk.bo = none) (hd : Dropped k s s') :
    BosOk T X s' := by
  have hother : ∀ c co j, s.bo c = some co → co.block = some j → j ≠ k := by
    rintro c co j hc hj rfl
    obtain ⟨blk', hblk', hc'⟩ := hs.owned c co j hc hj
    cases hk.symm.trans hblk'
    rw [hbo] at hc'
    cases hc'
  constructor
  · intro c co hc
    rw [hd.bo] at hc
    exact hs.ordinary c co hc
  · intro c co j hc hj
    rw [hd.bo] at hc
    obtain ⟨blkj, hblkj, hcj⟩ := hs.owned c co j hc hj
    exact ⟨blkj, (hd.block j (hother c co j hc hj)).trans hblkj, hcj⟩
  · intro j blkj c hj hc
    have hjk : j ≠ k := by
      rintro rfl
      rw [hd.orphan blkj hj] at hc
      cases hc
    rw [hd.block j hjk] at hj
    rw [hd.bo]
    exact hs.owner j blkj c hj hc
  · intro c co j blkj hc hfits hj hblkj
    rw [hd.bo] at hc
    have hjk := hother c co j hc hj
    rw [hd.block j hjk] at hblkj
    rw [(hd.place j blkj hjk hblkj).2]
    exact hs.room c co j blkj hc hfits hj hblkj
  · intro c hc
    rw [hd.freshBo] at hc
    rw [hd.bo, hd.content]
    exact hs.freshBo c hc
  · intro c co hX hc
    rw [hd.bo] at hc
    refine (hs.bos c co hX hc).mono (by rw [hd.content]) ?_
    rintro i v _ ⟨j, blkj, hj, hblkj, hv⟩
    have hjk := hother c co j hc hj
    refine ⟨j, blkj, hj, (hd.block j hjk).trans hblkj, ?_⟩
    rw [hd.card, State.ofs, (hd.place j blkj hjk hblkj).1]
    exact hv
  · intro c co hTc hc hvalid
    rw [hd.bo] at hc
    obtain ⟨⟨⟨j, blkj, hj, hblkj, hhw, hofs⟩, hrest⟩, htargets⟩ := hs.placed c co hTc hc hvalid
    have hjk := hother c co j hc hj
    refine ⟨⟨⟨j, blkj, hj, (hd.block j hjk).trans hblkj, hd.hardware j hjk hhw, ?_⟩, hrest⟩, fun r hr => ?_⟩
    · rw [State.ofs, (hd.place j blkj hjk hblkj).1]
      exact hofs
    · unfold Aimed
      rw [hd.bo]
      exact htargets r hr

theorem Dropped.cleared (hk : s.block k = some blk) (hbo : blk.bo = none) (hd : Dropped k s s') : Cleared s s' where
  bo := hd.bo
  content := hd.content
  card := hd.card
  freshBo := hd.freshBo
  hardware := hd.shrinks
  block j blkj hj hne := by
    have hjk : j ≠ k := by
      rintro rfl
      cases hk.symm.trans hj
      exact hne hbo
    exact ⟨blkj, (hd.block j hjk).trans hj, rfl, rfl, (hd.place j blkj hjk hj).1⟩

/-- The flags of a block change and it moves to another place. -/
theorem relisted_setBlock (hk : s.block k = some blk) {blk' : Block} (hmem : blk'.mem = blk.mem) (hbo : blk'.bo = blk.bo)
    (hs' : s'.bo = s.bo ∧ s'.content = s.content ∧ s'.card = s.card ∧ s'.heap = s.heap ∧ s'.freshBo = s.freshBo ∧
      s'.freshBlock = s.freshBlock) (hblock : s'.block = (s.setBlock k blk').block) : Relisted s s' := by
  obtain ⟨h₁, h₂, h₃, h₄, h₅, h₆⟩ := hs'
  refine ⟨h₁, h₂, h₃, h₄, h₅, h₆, fun j => ?_⟩
  rw [hblock]
  by_cases hjk : j = k
  · subst hjk
    rw [setBlock_self, hk]
    simp [Block.key, hmem, hbo]
  · rw [setBlock_of_ne hjk]

/-- A block moves to the end of the list that its new flags say. -/
structure Moved (k : BlockId) (blk' : Block) (s s' : State) : Prop where
  relisted : Relisted s s'
  block : s'.block = (s.setBlock k blk').block
  lists : s'.lists.Perm (s.lists.filter (· ≠ k) ++ [k])
  onHardware : ∀ j, j ∈ s'.onHardware ↔ if j = k then blk'.onHardware = true else j ∈ s.onHardware
  fenced : ∀ j, j ∈ s'.fenced ↔ if j = k then blk'.fenced = true else j ∈ s.fenced
  lru : ∀ j, j ≠ k → j ∈ s'.lru → j ∈ s.lru

theorem MemOk.moved (hs : MemOk s) (hk : s.block k = some blk) {blk' : Block} (hm : Moved k blk' s s')
    (horphan : blk'.bo = none → k ∉ s'.lru) : MemOk s' := by
  have hmem : k ∈ s.lists := (hs.listed k blk hk).1
  have hlists : ∀ j, j ∈ s'.lists ↔ j ∈ s.lists := by
    intro j
    rw [hm.lists.mem_iff, List.mem_append, List.mem_filter, List.mem_singleton]
    by_cases hjk : j = k
    · rw [hjk]
      exact ⟨fun _ => hmem, fun _ => .inr rfl⟩
    · simp [hjk]
  refine hs.relisted hm.relisted hlists ?_ ?_ ?_
  · refine hm.lists.nodup_iff.mpr (List.nodup_append.mpr ⟨hs.nodup.filter _, List.nodup_singleton k, ?_⟩)
    intro a ha c hc heq
    rw [heq, List.mem_singleton.mp hc] at ha
    simpa using (List.mem_filter.mp ha).2
  · intro j blkj hj
    rw [hm.onHardware, hm.fenced]
    rw [hm.block] at hj
    by_cases hjk : j = k
    · subst hjk
      rw [setBlock_self] at hj
      cases hj
      simp
    · rw [setBlock_of_ne hjk] at hj
      simp only [hjk, if_false]
      exact (hs.listed j blkj hj).2
  · intro j blkj hj hbo hlru
    rw [hm.block] at hj
    by_cases hjk : j = k
    · subst hjk
      rw [setBlock_self] at hj
      cases hj
      exact horphan hbo hlru
    · rw [setBlock_of_ne hjk] at hj
      exact hs.orphan j blkj hj hbo (hm.lru j hjk hlru)

theorem Moved.cleared {blk' : Block} (hm : Moved k blk' s s') (hhw : blk'.onHardware ≠ true) : Cleared s s' := by
  refine hm.relisted.cleared fun j hj => ?_
  rw [hm.onHardware] at hj
  split at hj
  · exact absurd hj hhw
  · exact hj

theorem Inv.moved (hs : Inv T X s) (hk : s.block k = some blk) {blk' : Block} (hm : Moved k blk' s s')
    (horphan : blk'.bo = none → k ∉ s'.lru)
    (hT : (∀ c, ¬ T c) ∨ (k ∈ s.onHardware → blk'.onHardware = true)) : Inv T X s' := by
  refine ⟨hs.toMemOk.moved hk hm horphan, hs.toBosOk.relisted hm.relisted fun b bo j hTb _ _ _ hj => ?_⟩
  rcases hT with hT | hT
  · exact absurd hTb (hT b)
  · rw [hm.onHardware]
    split
    · case isTrue hjk => exact hT (hjk ▸ hj)
    · exact hj

/-- The block goes to the end of `lru`. -/
theorem moved_lru (hk : s.block k = some blk) {blk' : Block} (hmem : blk'.mem = blk.mem) (hbo : blk'.bo = blk.bo)
    (hhw : blk'.onHardware = false) (hfenced : blk'.fenced = false) :
    Moved k blk' s { (s.setBlock k blk').unlink k with lru := ((s.setBlock k blk').unlink k).lru ++ [k] } := by
  refine ⟨relisted_setBlock hk hmem hbo ⟨rfl, rfl, rfl, rfl, rfl, rfl⟩ rfl, rfl, ?_, fun j => ?_, fun j => ?_, fun j hjk => ?_⟩
  · simp [State.lists, State.unlink, State.setBlock]
  · by_cases hjk : j = k <;> simp [State.unlink, State.setBlock, hjk, hhw]
  · by_cases hjk : j = k <;> simp [State.unlink, State.setBlock, hjk, hfenced]
  · simp [State.unlink, State.setBlock, hjk]

theorem clearBlock_ensures (hs : Inv T X s) (hk : k ∈ s.fenced) : Ensures (clearBlock k s) fun r =>
    Inv T X r.2 ∧ Cleared s r.2 ∧ ∀ j, j ≠ k → j ∈ s.fenced → j ∈ r.2.fenced := by
  unfold clearBlock
  refine (getBlock_ensures k s).bind fun blk hblk => Ensures.bind_any fun _ => ?_
  split
  · cases hbo : blk.bo with
    | none =>
        refine (releaseBlock_dropped hs.toMemOk hblk).bind fun s' hs' => .pure ?_
        obtain ⟨hmem, hd⟩ := hs'
        exact ⟨⟨hmem, hs.toBosOk.dropped hblk hbo hd⟩, hd.cleared hblk hbo, hd.fenced⟩
    | some b =>
        have hhw : blk.onHardware = false := by
          by_contra hhw
          exact (hs.disjoint.1 ((hs.listed k blk hblk).2.1.mp (by simpa using hhw))).1 hk
        have hm : Moved k { blk with fenced := false, bo := some b } s _ := moved_lru hblk rfl hbo.symm hhw rfl
        refine .pure ⟨hs.moved hblk hm nofun (.inr fun h => ?_), hm.cleared fun h => ?_, fun j hjk hj => ?_⟩
        · exact absurd hk (hs.disjoint.1 h).1
        · cases hhw.symm.trans h
        · rw [hm.fenced, if_neg hjk]
          exact hj
  · exact .pure ⟨hs, .refl s, fun _ _ h => h⟩

theorem clearBlocks_ensures {ks : List BlockId} (hs : Inv T X s) (hks : ∀ k ∈ ks, k ∈ s.fenced) (hnodup : ks.Nodup) :
    Ensures (clearBlocks ks s) fun s' => Inv T X s' ∧ Cleared s s' := by
  induction ks generalizing s with
  | nil => exact .ok ⟨hs, .refl s⟩
  | cons k ks ih =>
      obtain ⟨hk, hnodup⟩ := List.nodup_cons.mp hnodup
      unfold clearBlocks
      refine (clearBlock_ensures hs (hks k (List.mem_cons_self ..))).bind fun r hr => ?_
      obtain ⟨passed, s₁⟩ := r
      obtain ⟨hs₁, hcleared, hfenced⟩ := hr
      dsimp only
      split
      · refine (ih hs₁ (fun j hj => hfenced j ?_ (hks j (List.mem_cons_of_mem _ hj))) hnodup).mono ?_
        · rintro rfl
          exact hk hj
        · exact fun s' hs' => ⟨hs'.1, hcleared.trans hs'.2⟩
      · exact .pure ⟨hs₁, hcleared⟩

/-- Counters and flags of the manager that no buffer depends on. -/
theorem Inv.counters (hs : Inv T X s) (h : Relisted s s') (hblock : s'.block = s.block)
    (hlists : s'.onHardware = s.onHardware ∧ s'.fenced = s.fenced ∧ s'.lru = s.lru) : Inv T X s' := by
  obtain ⟨h₁, h₂, h₃⟩ := hlists
  have hall : s'.lists = s.lists := by rw [State.lists, h₁, h₂, h₃]
  refine ⟨hs.toMemOk.relisted h (fun _ => by rw [hall]) (hall ▸ hs.nodup) ?_ ?_, hs.toBosOk.relisted h ?_⟩
  · rw [hblock, h₁, h₂]
    exact fun k blk hk => (hs.listed k blk hk).2
  · rw [hblock, h₃]
    exact hs.orphan
  · rw [h₁]
    exact fun _ _ _ _ _ _ _ hj => hj

theorem clearFenced_ensures (hs : Inv T X s) (cookie : UInt32) :
    Ensures (clearFenced cookie s) fun s' => Inv T X s' ∧ Cleared s s' := by
  unfold clearFenced
  have hrel : Relisted s { s with lastFence := cookie } := ⟨rfl, rfl, rfl, rfl, rfl, rfl, fun _ => rfl⟩
  refine (clearBlocks_ensures (hs.counters hrel rfl ⟨rfl, rfl, rfl⟩) (fun _ h => h) ?_).mono ?_
  · exact (List.Nodup.of_append_left hs.nodup).of_append_right
  · exact fun s' hs' => ⟨hs'.1, (hrel.cleared fun _ h => h).trans hs'.2⟩

theorem fenceWaitInternal_ensures (hs : Inv T X s) (env : Env) (fence : UInt32) :
    Ensures (fenceWaitInternal env fence s) fun s' => Inv T X s' ∧ Cleared s s' := by
  have hrel : Relisted s { s with waits := s.waits + 1 } := ⟨rfl, rfl, rfl, rfl, rfl, rfl, fun _ => rfl⟩
  have hwaits := hs.counters hrel rfl ⟨rfl, rfl, rfl⟩
  unfold fenceWaitInternal
  split
  · exact clearFenced_ensures hs fence
  · dsimp only
    split
    · exact .error
    · exact .ok ⟨hwaits, (hrel.cleared fun _ h => h)⟩
    · exact .error
    · exact (clearFenced_ensures hwaits fence).mono fun s' hs' => ⟨hs'.1, (hrel.cleared fun _ h => h).trans hs'.2⟩

theorem waitIdle_ensures (hs : Inv T X s) (env : Env) :
    Ensures (waitIdle env s) fun s' => Inv T X s' ∧ Cleared s s' := by
  have hrel : Relisted s { s with emitted := s.emitted + 1 } := ⟨rfl, rfl, rfl, rfl, rfl, rfl, fun _ => rfl⟩
  refine (fenceWaitInternal_ensures (hs.counters hrel rfl ⟨rfl, rfl, rfl⟩) env _).mono ?_
  exact fun s' hs' => ⟨hs'.1, (hrel.cleared fun _ h => h).trans hs'.2⟩

theorem waitRenderingLocked_ensures (hs : Inv T X s) (env : Env) (b : BoId) :
    Ensures (waitRenderingLocked env b s) fun s' => Inv T X s' ∧ Cleared s s' := by
  unfold waitRenderingLocked
  refine Ensures.bind_any fun bo => ?_
  split
  · exact .pure ⟨hs, .refl s⟩
  · refine Ensures.bind_any fun blk => ?_
    split
    · exact .pure ⟨hs, .refl s⟩
    · exact fenceWaitInternal_ensures hs env blk.fence

/-! ## Taking blocks -/

/-- The search of `evict_lru` and `evict_mru`, over blocks of `lru`. -/
theorem evictFirst_ensures (hs : Inv T X s) (stop : Block → Bool) {ks : List BlockId} (hks : ∀ k ∈ ks, k ∈ s.lru) :
    Ensures (evictFirst stop ks s) fun r => Inv T X r.2 ∧ Evicted s r.2 := by
  induction ks with
  | nil => exact .ok ⟨hs, .refl s⟩
  | cons k ks ih =>
      unfold evictFirst
      refine (getBlock_ensures k s).bind fun blk hblk => ?_
      cases hbo : blk.bo with
      | none =>
          dsimp only
          split
          · exact .pure ⟨hs, .refl s⟩
          · exact .error
      | some b =>
          refine Ensures.bind_any fun bo => ?_
          split
          · exact ih fun j hj => hks j (List.mem_cons_of_mem _ hj)
          · split
            · exact .pure ⟨hs, .refl s⟩
            · exact (evictBlock_ensures hs hblk hbo (hks k (List.mem_cons_self ..))).bind fun s' hs' => .pure hs'

theorem evictLru_ensures (hs : Inv T X s) (maxFence : UInt32) :
    Ensures (evictLru maxFence s) fun r => Inv T X r.2 ∧ Evicted s r.2 :=
  evictFirst_ensures hs _ fun _ h => h

theorem evictMru_ensures (hs : Inv T X s) : Ensures (evictMru s) fun r => Inv T X r.2 ∧ Evicted s r.2 :=
  evictFirst_ensures hs _ fun _ h => List.mem_reverse.mp h

/-! ## New blocks -/

/-- The heap changes, but not the memory that blocks have. -/
theorem BosOk.reheap (hs : BosOk T X s) {heap : Mm.Heap}
    (hplace : ∀ k blk, s.block k = some blk →
      heap.mem.ofs blk.mem = s.heap.mem.ofs blk.mem ∧ heap.mem.size blk.mem = s.heap.mem.size blk.mem) :
    BosOk T X { s with heap := heap } := by
  refine ⟨hs.ordinary, hs.owned, hs.owner, ?_, hs.freshBo, ?_, ?_⟩
  · intro c co j blkj hc hfits hj hblkj
    show _ ≤ heap.mem.size _
    rw [(hplace j blkj hblkj).2]
    exact hs.room c co j blkj hc hfits hj hblkj
  · intro c co hX hc
    refine (hs.bos c co hX hc).mono rfl ?_
    rintro i v _ ⟨j, blkj, hj, hblkj, hv⟩
    refine ⟨j, blkj, hj, hblkj, ?_⟩
    show s.card (heap.mem.ofs _ + _) = v
    rw [(hplace j blkj hblkj).1]
    exact hv
  · intro c co hT hc hvalid
    obtain ⟨⟨⟨j, blkj, hj, hblkj, hhw, hofsj⟩, hrest⟩, htargets⟩ := hs.placed c co hT hc hvalid
    exact ⟨⟨⟨j, blkj, hj, hblkj, hhw, hofsj.trans (hplace j blkj hblkj).1.symm⟩, hrest⟩, htargets⟩

/-- More buffers may be exempt. -/
theorem Inv.exempt (hs : Inv T X s) {Y : BoId → Prop} (h : ∀ c, X c → Y c) : Inv T Y s :=
  ⟨hs.toMemOk, hs.ordinary, hs.owned, hs.owner, hs.room, hs.freshBo, fun b bo hY => hs.bos b bo fun hX => hY (h b hX),
    hs.placed⟩

/-- A buffer that was exempt is in order again. -/
theorem Inv.settle (hs : Inv T (fun c => X c ∨ c = b) s) (hb : s.bo b = some bo) (hok : ¬ X b → BoOk s b bo) : Inv T X s := by
  refine ⟨hs.toMemOk, hs.ordinary, hs.owned, hs.owner, hs.room, hs.freshBo, fun c co hX hc => ?_, hs.placed⟩
  by_cases hcb : c = b
  · subst hcb
    cases hb.symm.trans hc
    exact hok hX
  · exact hs.bos c co (fun h => h.elim hX hcb) hc

/-- A buffer that was exempt changes, and is in order again. -/
theorem Inv.setBo_settle (hs : Inv T (fun c => X c ∨ c = b) s) (hb : s.bo b = some bo) {bo' : Bo} (hlike : bo.Like bo')
    (hvalid : bo'.validated = bo.validated) (hoffset : bo'.offset = bo.offset) (hT : T b → bo.validated = false)
    (hok : ¬ X b → BoOk s b bo') : Inv T X (s.setBo b bo') :=
  (hs.setBo hb hlike (fun h => absurd (.inr rfl) h) hvalid hoffset hT).settle (setBo_self ..)
    fun hX => (hok hX).mono rfl fun _ _ _ h => h

/-- The new block `k` with the memory `mem` at the end of `lru`, for the buffer `b`. -/
def State.attach (k : BlockId) (mem : Mm.BlockId) (b : BoId) (bo : Bo) (s : State) : State :=
  ({ s with
    block := Function.update s.block k (some { mem, bo := some b })
    freshBlock := k + 1
    lru := s.lru ++ [k] } : State).setBo b { bo with block := some k }

/-- The heap hands out the memory `mem`, and the new block gets it. -/
theorem MemOk.attach (hs : MemOk s) {heap : Mm.Heap} (hok : ∃ lo hi, heap.Ok lo hi) {mem : Mm.BlockId}
    (hout : heap.out = mem :: s.heap.out) (hnew : mem ∉ s.heap.out) :
    MemOk (({ s with heap := heap } : State).attach s.freshBlock mem b bo) := by
  have hblock : ∀ j blkj, (({ s with heap := heap } : State).attach s.freshBlock mem b bo).block j = some blkj →
      (j = s.freshBlock ∧ blkj = { mem, bo := some b }) ∨ (j ≠ s.freshBlock ∧ s.block j = some blkj) := by
    intro j blkj hj
    replace hj : Function.update s.block s.freshBlock (some { mem, bo := some b }) j = some blkj := hj
    by_cases hjk : j = s.freshBlock
    · subst hjk
      rw [Function.update_self] at hj
      exact .inl ⟨rfl, (Option.some.inj hj).symm⟩
    · rw [Function.update_of_ne hjk] at hj
      exact .inr ⟨hjk, hj⟩
  have hsome : ∀ j blkj, s.block j = some blkj →
      j ≠ s.freshBlock ∧ Function.update s.block s.freshBlock (some { mem, bo := some b }) j = some blkj := by
    intro j blkj hj
    have hjk : j ≠ s.freshBlock := by
      rintro rfl
      rw [hs.freshBlock _ (Nat.le_refl _)] at hj
      cases hj
    exact ⟨hjk, (Function.update_of_ne hjk ..).trans hj⟩
  have hmem : ∀ j blkj, s.block j = some blkj → blkj.mem ≠ mem := by
    rintro j blkj hj rfl
    exact hnew (hs.held j blkj hj)
  have hfresh : ∀ l : List BlockId, (∀ j ∈ l, j ∈ s.lists) → s.freshBlock ∉ l := by
    intro l hl hk
    obtain ⟨blkj, hblkj⟩ := hs.known _ (hl _ hk)
    exact (hsome _ blkj hblkj).1 rfl
  have hlists : (({ s with heap := heap } : State).attach s.freshBlock mem b bo).lists = s.lists ++ [s.freshBlock] := by
    simp [State.lists, State.attach, State.setBo]
  refine ⟨hok, ?_, ?_, ?_, ?_, ?_, ?_, ?_, ?_⟩
  · intro j blkj hj
    show blkj.mem ∈ heap.out
    rw [hout]
    rcases hblock j blkj hj with ⟨_, rfl⟩ | ⟨_, hj⟩
    · exact List.mem_cons_self ..
    · exact List.mem_cons_of_mem _ (hs.held j blkj hj)
  · intro q hq
    replace hq : q ∈ heap.out := hq
    rw [hout] at hq
    rcases List.mem_cons.mp hq with rfl | hq
    · exact ⟨s.freshBlock, _, Function.update_self .., rfl⟩
    · obtain ⟨j, blkj, hj, hmemj⟩ := hs.full q hq
      exact ⟨j, blkj, (hsome j blkj hj).2, hmemj⟩
  · intro i j blki blkj hi hj heq
    rcases hblock i blki hi with ⟨hik, rfl⟩ | ⟨_, hi⟩
    · rcases hblock j blkj hj with ⟨hjk, _⟩ | ⟨_, hj⟩
      · rw [hik, hjk]
      · exact absurd heq.symm (hmem j blkj hj)
    · rcases hblock j blkj hj with ⟨_, rfl⟩ | ⟨_, hj⟩
      · exact absurd heq (hmem i blki hi)
      · exact hs.apart i j blki blkj hi hj heq
  · intro j hj
    replace hj : s.freshBlock + 1 ≤ j := hj
    show Function.update s.block s.freshBlock _ j = none
    rw [Function.update_of_ne (Nat.ne_of_gt hj)]
    exact hs.freshBlock j (Nat.le_of_succ_le hj)
  · rw [hlists]
    refine List.nodup_append.mpr ⟨hs.nodup, List.nodup_singleton _, ?_⟩
    intro j hj j' hj' heq
    rw [heq, List.mem_singleton.mp hj'] at hj
    exact hfresh s.lists (fun _ h => h) hj
  · intro j hj
    rw [hlists] at hj
    rcases List.mem_append.mp hj with hj | hj
    · obtain ⟨blkj, hblkj⟩ := hs.known j hj
      exact ⟨blkj, (hsome j blkj hblkj).2⟩
    · rw [List.mem_singleton.mp hj]
      exact ⟨_, Function.update_self ..⟩
  · intro j blkj hj
    rw [hlists]
    rcases hblock j blkj hj with ⟨rfl, rfl⟩ | ⟨_, hj⟩
    · refine ⟨List.mem_append_right _ (List.mem_singleton.mpr rfl), ⟨(absurd · Bool.false_ne_true), fun h => ?_⟩, ⟨(absurd · Bool.false_ne_true), fun h => ?_⟩⟩
      · exact absurd h (hfresh s.onHardware fun _ h => List.mem_append_left _ (List.mem_append_left _ h))
      · exact absurd h (hfresh s.fenced fun _ h => List.mem_append_left _ (List.mem_append_right _ h))
    · exact ⟨List.mem_append_left _ (hs.listed j blkj hj).1, (hs.listed j blkj hj).2⟩
  · intro j blkj hj hbo hlru
    rcases hblock j blkj hj with ⟨_, rfl⟩ | ⟨hjk, hj⟩
    · cases hbo
    · rcases List.mem_append.mp hlru with hlru | hlru
      · exact hs.orphan j blkj hj hbo hlru
      · exact hjk (List.mem_singleton.mp hlru)

/-- A buffer without block gets the block `k`, which is new. -/
theorem BosOk.attach (hs : BosOk T X s) (hb : s.bo b = some bo) (hnone : bo.block = none) (hX : X b)
    (hk : s.block k = none) {mem : Mm.BlockId} (hroom : bo.Fits → (bo.size : Int) ≤ s.heap.mem.size mem) :
    BosOk T X (s.attach k mem b bo) := by
  have hbo : ∀ c, c ≠ b → (s.attach k mem b bo).bo c = s.bo c := fun c hc => Function.update_of_ne hc ..
  have hbob : (s.attach k mem b bo).bo b = some { bo with block := some k } := Function.update_self ..
  have hblk : ∀ j, j ≠ k → (s.attach k mem b bo).block j = s.block j := fun j hj => Function.update_of_ne hj ..
  have hblkk : (s.attach k mem b bo).block k = some { mem, bo := some b } := Function.update_self ..
  have hne : ∀ j blkj, s.block j = some blkj → j ≠ k := by
    rintro j blkj hj rfl
    cases hk.symm.trans hj
  constructor
  · intro c co hc
    by_cases hcb : c = b
    · subst hcb
      cases hbob.symm.trans hc
      exact hs.ordinary c bo hb
    · rw [hbo c hcb] at hc
      exact hs.ordinary c co hc
  · intro c co j hc hj
    by_cases hcb : c = b
    · subst hcb
      cases hbob.symm.trans hc
      cases hj
      exact ⟨_, hblkk, rfl⟩
    · rw [hbo c hcb] at hc
      obtain ⟨blkj, hblkj, hown⟩ := hs.owned c co j hc hj
      exact ⟨blkj, (hblk j (hne j blkj hblkj)).trans hblkj, hown⟩
  · intro j blkj c hj hc
    by_cases hjk : j = k
    · subst hjk
      cases hblkk.symm.trans hj
      cases hc
      exact ⟨_, hbob, rfl⟩
    · rw [hblk j hjk] at hj
      obtain ⟨co, hco, hcoj⟩ := hs.owner j blkj c hj hc
      have hcb : c ≠ b := by
        rintro rfl
        cases hb.symm.trans hco
        cases hnone.symm.trans hcoj
      exact ⟨co, (hbo c hcb).trans hco, hcoj⟩
  · intro c co j blkj hc hfits hj hblkj
    by_cases hcb : c = b
    · subst hcb
      cases hbob.symm.trans hc
      cases hj
      cases hblkk.symm.trans hblkj
      exact hroom hfits
    · rw [hbo c hcb] at hc
      obtain ⟨blk', hblk', _⟩ := hs.owned c co j hc hj
      rw [hblk j (hne j blk' hblk')] at hblkj
      exact hs.room c co j blkj hc hfits hj hblkj
  · intro c hc
    obtain ⟨hcnone, hcontent⟩ := hs.freshBo c hc
    have hcb : c ≠ b := by
      rintro rfl
      cases hb.symm.trans hcnone
    exact ⟨(hbo c hcb).trans hcnone, hcontent⟩
  · intro c co hXc hc
    have hcb : c ≠ b := by
      rintro rfl
      exact hXc hX
    rw [hbo c hcb] at hc
    refine (hs.bos c co hXc hc).mono rfl ?_
    rintro i v _ ⟨j, blkj, hj, hblkj, hv⟩
    exact ⟨j, blkj, hj, (hblk j (hne j blkj hblkj)).trans hblkj, hv⟩
  · intro c co hT hc hvalid
    -- a buffer without block is not marked
    have hunmarked : T b → bo.validated = false := by
      intro hTb
      by_contra hbv
      obtain ⟨⟨⟨j, blkj, hj, _⟩, _⟩, _⟩ := hs.placed b bo hTb hb (by simpa using hbv)
      cases hnone.symm.trans hj
    by_cases hcb : c = b
    · subst hcb
      cases hbob.symm.trans hc
      rw [hunmarked hT] at hvalid
      cases hvalid
    · rw [hbo c hcb] at hc
      obtain ⟨⟨⟨j, blkj, hj, hblkj, hhw, hofs⟩, hrest⟩, htargets⟩ := hs.placed c co hT hc hvalid
      refine ⟨⟨⟨j, blkj, hj, (hblk j (hne j blkj hblkj)).trans hblkj, hhw, hofs⟩, hrest⟩, fun r hr => ?_⟩
      obtain ⟨tbo, htbo, htv, hrofs⟩ := htargets r hr
      by_cases htb : r.target = b
      · rw [htb] at htbo
        cases hb.symm.trans htbo
        exact ⟨{ bo with block := some k }, by rw [htb]; exact hbob, htv, hrofs⟩
      · exact ⟨tbo, (hbo _ htb).trans htbo, htv, hrofs⟩

/-- Blocks may have been taken from buffers, and the buffer `b`, which is `bo` and had no block, has got one. -/
structure Obtained (b : BoId) (bo : Bo) (s s' : State) : Prop where
  bo : ∃ k, s'.bo b = some { bo with block := some k }
  lasts : ∀ c, Lasts (s.bo c) (s'.bo c)
  content : s'.content = s.content
  freshBo : s'.freshBo = s.freshBo

theorem le_blockSize {size alignment : Nat} (hpos : 0 < alignment) (hsum : size + alignment ≤ 2 ^ 32) :
    size ≤ blockSize size alignment ∧ blockSize size alignment < 2 ^ 32 := by
  unfold blockSize
  rw [Nat.mod_eq_of_lt (by omega)]
  have hdiv := Nat.div_add_mod (size + alignment - 1) alignment
  have hmod := Nat.mod_lt (size + alignment - 1) hpos
  rw [Nat.mul_comm] at hdiv
  omega

/-- A positive `int` has not overflowed. -/
theorem int32_pos {n : Nat} (hn : n < 2 ^ 32) (hpos : 0 < CInt.int32 n) : CInt.int32 n = n := by
  by_cases hsmall : n < 2 ^ 31
  · exact CInt.int32_of_range (by omega) (by omega)
  · exfalso
    have hbmod : CInt.int32 n = n - 2 ^ 32 := by
      unfold CInt.int32
      rw [← Int.sub_bmod_right]
      exact Int.bmod_eq_of_le (by omega) (by omega)
    omega

/-- The result of an attempt to get a block: false, and blocks may have been taken, or true and `b` has one. -/
def Gets (T X : BoId → Prop) (b : BoId) (bo : Bo) (s : State) (r : Bool × State) : Prop :=
  (r.1 = false → Inv T X r.2 ∧ Evicted s r.2) ∧
    (r.1 = true → Inv T (fun c => X c ∨ c = b) r.2 ∧ Obtained b bo s r.2)

theorem Gets.after {s₁ : State} {r : Bool × State} (h : Evicted s s₁) (hr : Gets T X b bo s₁ r) : Gets T X b bo s r := by
  refine ⟨fun hf => ⟨(hr.1 hf).1, h.trans (hr.1 hf).2⟩, fun ht => ?_⟩
  obtain ⟨hinv, ho⟩ := hr.2 ht
  exact ⟨hinv, ho.bo, fun c => (h.lasts c).trans (ho.lasts c), ho.content.trans h.content, ho.freshBo.trans h.freshBo⟩

/-- A way to get a block for the buffer `b`, which is `bo`. -/
def Getter (T X : BoId → Prop) (b : BoId) (bo : Bo) (f : State → Except Fault (Bool × State)) : Prop :=
  ∀ s, Inv T X s → s.bo b = some bo → Ensures (f s) (Gets T X b bo s)

theorem allocBlock_getter (hnone : bo.block = none) : Getter T X b bo (allocBlock b) := by
  intro s hs hb
  obtain ⟨lo, hi, hheap⟩ := hs.heap
  unfold allocBlock
  refine (getBo_ensures b s).bind fun bo' hbo' => ?_
  cases hb.symm.trans hbo'
  refine (onHeap_ensures (hheap.allocMem _ _ 0)).bind fun r hr => ?_
  obtain ⟨q, m⟩ := r
  obtain ⟨hheap', hnew, hplace⟩ := hr
  have hplace' := fun k blk hk => hplace blk.mem (hs.held k blk hk)
  cases q with
  | none =>
      refine .pure ⟨fun _ => ⟨⟨⟨⟨lo, hi, hheap'⟩, ?_, ?_, hs.apart, hs.freshBlock, hs.nodup, hs.known, hs.listed,
        hs.orphan⟩, hs.toBosOk.reheap hplace'⟩, ?_⟩, nofun⟩
      · exact hs.held
      · exact hs.full
      · exact ⟨fun _ => .refl _, fun _ _ h _ => h, rfl, rfl⟩
  | some mem =>
      obtain ⟨hfresh, hsize⟩ := hnew mem rfl
      have hpos := hheap'.size_pos (b := mem) (List.mem_cons_self ..)
      replace hsize : m.size mem = CInt.int32 (blockSize bo.size bo.alignment) := hsize
      replace hpos : 0 < m.size mem := hpos
      have hroom : bo.Fits → (bo.size : Int) ≤ m.size mem := by
        intro hfits
        obtain ⟨hle, hlt⟩ := le_blockSize hfits.1 hfits.2
        rw [hsize] at hpos ⊢
        rw [int32_pos hlt hpos]
        exact_mod_cast hle
      have hex : Inv T (fun c => X c ∨ c = b) s := hs.exempt fun _ h => .inl h
      refine .pure ⟨nofun, fun _ => ⟨⟨hs.toMemOk.attach ⟨lo, hi, hheap'⟩ rfl hfresh, ?_⟩, ?_⟩⟩
      · have hbos : BosOk T _ { s with heap := { s.heap with mem := m, out := mem :: s.heap.out } } :=
          hex.toBosOk.reheap hplace'
        exact hbos.attach hb hnone (.inr rfl) (hs.freshBlock _ (Nat.le_refl _)) hroom
      · refine ⟨⟨s.freshBlock, setBo_self ..⟩, fun c => ?_, rfl, rfl⟩
        by_cases hcb : c = b
        · subst hcb
          rw [setBo_self, hb]
          exact ⟨rfl, id⟩
        · rw [setBo_of_ne hcb]
          exact .refl _

theorem never_getter : Getter T X b bo fun s => .ok (false, s) := by
  intro s hs _
  exact .ok ⟨fun _ => ⟨hs, .refl s⟩, nofun⟩

theorem orElse_getter {first next : State → Except Fault (Bool × State)} (hnone : bo.block = none)
    (hfirst : Getter T X b bo first) (hnext : Getter T X b bo next) : Getter T X b bo (orElse first next) := by
  intro s hs hb
  unfold orElse
  refine (hfirst s hs hb).bind fun r hr => ?_
  obtain ⟨done, s₁⟩ := r
  cases done with
  | true => exact .pure hr
  | false =>
      obtain ⟨hs₁, hev⟩ := hr.1 rfl
      exact (hnext s₁ hs₁ (hev.unblocked b bo hb hnone)).mono fun r' hr' => hr'.after hev

theorem evictLoop_getter {evict : State → Except Fault (Bool × State)} (hnone : bo.block = none)
    (hevict : ∀ s, Inv T X s → Ensures (evict s) fun r => Inv T X r.2 ∧ Evicted s r.2) (n : Nat) :
    Getter T X b bo (evictLoop evict b n) := by
  induction n with
  | zero => exact fun _ _ _ => .error
  | succ n ih =>
      intro s hs hb
      unfold evictLoop
      refine (hevict s hs).bind fun r hr => ?_
      obtain ⟨evicted, s₁⟩ := r
      obtain ⟨hs₁, hev⟩ := hr
      cases evicted with
      | false => exact .pure ⟨fun _ => ⟨hs₁, hev⟩, nofun⟩
      | true =>
          have hb₁ := hev.unblocked b bo hb hnone
          refine (allocBlock_getter hnone s₁ hs₁ hb₁).bind fun r' hr' => ?_
          obtain ⟨done, s₂⟩ := r'
          cases done with
          | true => exact .pure (hr'.after hev)
          | false =>
              obtain ⟨hs₂, hev₂⟩ := hr'.1 rfl
              refine (ih s₂ hs₂ (hev₂.unblocked b bo hb₁ hnone)).mono fun r'' hr'' => ?_
              exact hr''.after (hev.trans hev₂)

theorem waitLoop_getter {next : State → Except Fault (Bool × State)} (env : Env) (hnone : bo.block = none)
    (hnext : Getter T X b bo next) (n : Nat) : Getter T X b bo (waitLoop env next n) := by
  induction n with
  | zero => exact fun _ _ _ => .error
  | succ n ih =>
      intro s hs hb
      unfold waitLoop
      split
      · exact .ok ⟨fun _ => ⟨hs, .refl s⟩, nofun⟩
      · refine Ensures.bind_any fun blk => (fenceWaitInternal_ensures hs env blk.fence).bind fun s₁ hs₁ => ?_
        obtain ⟨hs₁, hcleared⟩ := hs₁
        have hb₁ := hcleared.evicted.unblocked b bo hb hnone
        refine (hnext s₁ hs₁ hb₁).bind fun r hr => ?_
        obtain ⟨done, s₂⟩ := r
        cases done with
        | true => exact .pure (hr.after hcleared.evicted)
        | false =>
            obtain ⟨hs₂, hev₂⟩ := hr.1 rfl
            refine (ih s₂ hs₂ (hev₂.unblocked b bo hb₁ hnone)).mono fun r' hr' => ?_
            exact hr'.after (hcleared.evicted.trans hev₂)

/-- Waiting alone gives no block. -/
theorem waitLoop_never (env : Env) (n : Nat) (s : State) :
    Ensures (waitLoop env (fun s => .ok (false, s)) n s) fun r => r.1 = false := by
  induction n generalizing s with
  | zero => exact .error
  | succ n ih =>
      unfold waitLoop
      split
      · exact .ok rfl
      · exact Ensures.bind_any fun blk => Ensures.bind_any fun s₁ => ih s₁

theorem Relisted.thrashing (s : State) (n : Nat) : Relisted s { s with thrashing := n } :=
  ⟨rfl, rfl, rfl, rfl, rfl, rfl, fun _ => rfl⟩

theorem allocBehindHardware_getter (env : Env) (hnone : bo.block = none) :
    Getter T X b bo (allocBehindHardware env b) := by
  intro s hs hb
  unfold allocBehindHardware
  split
  · exact .ok ⟨fun _ => ⟨hs, .refl s⟩, nofun⟩
  · have hwait : Ensures (waitLoop env (fun s => .ok (false, s)) env.fuel s) fun r => Inv T X r.2 ∧ Evicted s r.2 :=
      fun r hr => (waitLoop_getter env hnone never_getter env.fuel s hs hb r hr).1 (waitLoop_never env env.fuel s r hr)
    refine hwait.bind fun r hr => ?_
    obtain ⟨_, s₁⟩ := r
    obtain ⟨hs₁, hev⟩ := hr
    have hrel := Relisted.thrashing s₁ 20
    refine (allocBlock_getter hnone _ (hs₁.counters hrel rfl ⟨rfl, rfl, rfl⟩) (hev.unblocked b bo hb hnone)).mono ?_
    exact fun r hr => hr.after (hev.trans hrel.evicted)

theorem evictAndAllocBlock_ensures (hs : Inv T X s) (env : Env) (b : BoId) :
    Ensures (evictAndAllocBlock env b s) fun r => ∃ bo, s.bo b = some bo ∧ bo.block = none ∧ Gets T X b bo s r := by
  unfold evictAndAllocBlock
  refine (getBo_ensures b s).bind fun bo hb => (assert_ensures _).bind fun _ hnone => ?_
  replace hnone : bo.block = none := by simpa using hnone
  have hfirst : Getter T X b bo fun s => if s.thrashing = 0 then evictLoop (evictLru 0) b env.fuel s else .ok (false, s) := by
    intro s hs hb
    dsimp only
    split
    · exact evictLoop_getter hnone (fun s hs => evictLru_ensures hs 0) env.fuel s hs hb
    · exact never_getter s hs hb
  have hwait : Getter T X b bo fun s =>
      waitLoop env (allocBlock b) env.fuel (if s.thrashing ≠ 0 then { s with thrashing := 20 } else s) := by
    intro s hs hb
    dsimp only
    split
    · have hrel := Relisted.thrashing s 20
      refine (waitLoop_getter env hnone (allocBlock_getter hnone) env.fuel _ (hs.counters hrel rfl ⟨rfl, rfl, rfl⟩) hb).mono ?_
      exact fun r hr => hr.after hrel.evicted
    · exact waitLoop_getter env hnone (allocBlock_getter hnone) env.fuel s hs hb
  have hall := orElse_getter hnone (allocBlock_getter hnone) (orElse_getter hnone hfirst (orElse_getter hnone hwait
    (orElse_getter hnone (allocBehindHardware_getter env hnone)
      (evictLoop_getter hnone (fun s hs => evictMru_ensures hs) env.fuel))))
  exact (hall s hs hb).mono fun r hr => ⟨bo, hb, hnone, hr⟩

end LibDrm.Fake
