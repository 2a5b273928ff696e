/-
# `LibDrm.Fake.Quiet` — what the calls leave alone

Only `fence_validated` gives fences to blocks and puts them on `fenced`; whatever
else a call does, it at most takes blocks off the list (`Onward`).

Only a few functions write to buffers or touch their relocations.  The others are
`Quiet`: the record of the last writes and the relocations are what they were.

Fewer still do more to a buffer than give it a block or take its block away: what
the manager does on its own to find memory `Tidies`, and a buffer keeps its
mapping, its flags and its count.

All hold of every function from any state whose fenced blocks are known to the
allocator, so they need no other invariant.
-/
import LibDrm.Fake.Graph
import LibDrm.Fake.Run

namespace LibDrm.Fake

variable {s s' s'' : State} {b : BoId} {bo bo' : Bo} {k : BlockId} {blk blk' : Block}

/-- The blocks on `fenced` were allocated. -/
def Fresh (s : State) : Prop := ∀ k ∈ s.fenced, k < s.freshBlock

/-- Blocks leave `fenced`; the others keep their place and their fence. -/
structure Onward (s s' : State) : Prop where
  fenced : s'.fenced.Sublist s.fenced
  fence : ∀ k ∈ s'.fenced, (s'.block k).map Block.fence = (s.block k).map Block.fence
  emitted : s.emitted ≤ s'.emitted
  freshBlock : s.freshBlock ≤ s'.freshBlock

theorem Onward.refl (s : State) : Onward s s := ⟨.refl _, fun _ _ => rfl, Nat.le_refl _, Nat.le_refl _⟩

theorem Onward.trans (h : Onward s s') (h' : Onward s' s'') : Onward s s'' :=
  ⟨h'.fenced.trans h.fenced, fun k hk => (h'.fence k hk).trans (h.fence k (h'.fenced.subset hk)),
    h.emitted.trans h'.emitted, h.freshBlock.trans h'.freshBlock⟩

theorem Onward.fresh (h : Onward s s') (hs : Fresh s) : Fresh s' :=
  fun k hk => Nat.lt_of_lt_of_le (hs k (h.fenced.subset hk)) h.freshBlock

/-- The same from a state in which the fenced blocks were allocated. -/
def Moves (s s' : State) : Prop := Fresh s → Onward s s'

theorem Moves.refl (s : State) : Moves s s := fun _ => .refl s

theorem Moves.trans (h : Moves s s') (h' : Moves s' s'') : Moves s s'' :=
  fun hs => (h hs).trans (h' ((h hs).fresh hs))

/-- Nothing is written and the relocations stay. -/
structure Quiet (s s' : State) : Prop where
  moves : Moves s s'
  content : s'.content = s.content
  relocs : ∀ c, (s'.bo c).map Bo.relocs = (s.bo c).map Bo.relocs

theorem Quiet.refl (s : State) : Quiet s s := ⟨.refl s, rfl, fun _ => rfl⟩

theorem Quiet.trans (h : Quiet s s') (h' : Quiet s' s'') : Quiet s s'' :=
  ⟨h.moves.trans h'.moves, h'.content.trans h.content, fun c => (h'.relocs c).trans (h.relocs c)⟩

theorem Quiet.after (h' : Quiet s' s'') (h : Quiet s s') : Quiet s s'' := h.trans h'

/-- The buffer without the block and the marks that go with it. -/
def Bo.outside (bo : Bo) : Bo := { bo with dirty := false, cardDirty := false, block := none, backingStore := none }

/-- Of the buffers nothing but their blocks, the marks of these and the backing store changes. -/
structure Tidies (s s' : State) : Prop where
  moves : Moves s s'
  content : s'.content = s.content
  outside : ∀ c, (s'.bo c).map Bo.outside = (s.bo c).map Bo.outside

theorem Tidies.refl (s : State) : Tidies s s := ⟨.refl s, rfl, fun _ => rfl⟩

theorem Tidies.trans (h : Tidies s s') (h' : Tidies s' s'') : Tidies s s'' :=
  ⟨h.moves.trans h'.moves, h'.content.trans h.content, fun c => (h'.outside c).trans (h.outside c)⟩

theorem Tidies.after (h' : Tidies s' s'') (h : Tidies s s') : Tidies s s'' := h.trans h'

/-- What does not depend on the block stays. -/
theorem Tidies.field {α : Type} (h : Tidies s s') {f : Bo → α} (hf : ∀ bo : Bo, f bo.outside = f bo) (c : BoId) :
    (s'.bo c).map f = (s.bo c).map f := by
  have houtside := congrArg (Option.map f) (h.outside c)
  rwa [Option.map_map, Option.map_map, funext (f := f ∘ Bo.outside) (g := f) hf] at houtside

theorem Tidies.quiet (h : Tidies s s') : Quiet s s' := ⟨h.moves, h.content, fun c => h.field (fun _ => rfl) c⟩

theorem Ensures.quiet {α : Type} {x : Except Fault α} {p : α → State} (hx : Ensures x fun a => Tidies s (p a)) :
    Ensures x fun a => Quiet s (p a) := hx.mono fun _ h => h.quiet

/-- Two parts of a program, one after the other. -/
theorem Ensures.quiet_bind {α β : Type} {x : Except Fault α} {f : α → Except Fault β} {p : α → State} {q : β → State}
    (hx : Ensures x fun a => Quiet s (p a)) (hf : ∀ a, Ensures (f a) fun r => Quiet (p a) (q r)) :
    Ensures (x >>= f) fun r => Quiet s (q r) := hx.chain Quiet.trans hf

theorem Ensures.tidies_bind {α β : Type} {x : Except Fault α} {f : α → Except Fault β} {p : α → State} {q : β → State}
    (hx : Ensures x fun a => Tidies s (p a)) (hf : ∀ a, Ensures (f a) fun r => Tidies (p a) (q r)) :
    Ensures (x >>= f) fun r => Tidies s (q r) := hx.chain Tidies.trans hf

theorem Ensures.moves_bind {α β : Type} {x : Except Fault α} {f : α → Except Fault β} {p : α → State} {q : β → State}
    (hx : Ensures x fun a => Moves s (p a)) (hf : ∀ a, Ensures (f a) fun r => Moves (p a) (q r)) :
    Ensures (x >>= f) fun r => Moves s (q r) := hx.chain Moves.trans hf

/-! ## Updates -/

/-- Neither the lists nor the blocks are touched. -/
theorem moves_of_eq (hfenced : s'.fenced = s.fenced) (hblock : s'.block = s.block) (hemitted : s.emitted ≤ s'.emitted)
    (hfresh : s'.freshBlock = s.freshBlock) : Moves s s' := by
  refine fun _ => ⟨?_, fun k _ => ?_, hemitted, Nat.le_of_eq hfresh.symm⟩
  · rw [hfenced]
  · rw [hblock]

theorem tidies_of_eq (hmoves : Moves s s') (hcontent : s'.content = s.content) (hbo : s'.bo = s.bo) : Tidies s s' :=
  ⟨hmoves, hcontent, fun c => by rw [hbo]⟩

/-- Counters and bytes of the card change. -/
theorem tidies_counters (hmem : s'.fenced = s.fenced ∧ s'.block = s.block ∧ s'.freshBlock = s.freshBlock)
    (hemitted : s.emitted ≤ s'.emitted) (hbo : s'.content = s.content ∧ s'.bo = s.bo) : Tidies s s' :=
  tidies_of_eq (moves_of_eq hmem.1 hmem.2.1 hemitted hmem.2.2) hbo.1 hbo.2

theorem quiet_counters (hmem : s'.fenced = s.fenced ∧ s'.block = s.block ∧ s'.freshBlock = s.freshBlock)
    (hemitted : s.emitted ≤ s'.emitted) (hbo : s'.content = s.content ∧ s'.bo = s.bo) : Quiet s s' :=
  (tidies_counters hmem hemitted hbo).quiet

theorem moves_setBo (b : BoId) (bo' : Bo) : Moves s (s.setBo b bo') := moves_of_eq rfl rfl (Nat.le_refl _) rfl

/-- A part of the buffers that is the same in the new buffer. -/
theorem map_setBo {α : Type} {f : Bo → α} (hb : s.bo b = some bo) (h : f bo' = f bo) (c : BoId) :
    ((s.setBo b bo').bo c).map f = (s.bo c).map f := by
  by_cases hc : c = b
  · subst hc
    rw [setBo_self, hb, Option.map_some, Option.map_some, h]
  · rw [setBo_of_ne hc]

theorem quiet_setBo (hb : s.bo b = some bo) (h : bo'.relocs = bo.relocs) : Quiet s (s.setBo b bo') :=
  ⟨moves_setBo b bo', rfl, map_setBo hb h⟩

theorem tidies_setBo (hb : s.bo b = some bo) (h : bo'.outside = bo.outside) : Tidies s (s.setBo b bo') :=
  ⟨moves_setBo b bo', rfl, map_setBo hb h⟩

theorem modifyBo_quiet (b : BoId) (f : Bo → Bo) (hf : ∀ bo : Bo, (f bo).relocs = bo.relocs) :
    Ensures (s.modifyBo b f) (Quiet s) := by
  refine (modifyBo_ensures b f s).mono ?_
  rintro s' ⟨bo, hb, rfl⟩
  exact quiet_setBo hb (hf bo)

theorem modifyBo_tidies (b : BoId) (f : Bo → Bo) (hf : ∀ bo : Bo, (f bo).outside = bo.outside) :
    Ensures (s.modifyBo b f) (Tidies s) := by
  refine (modifyBo_ensures b f s).mono ?_
  rintro s' ⟨bo, hb, rfl⟩
  exact tidies_setBo hb (hf bo)

/-- A block changes, but not its fence. -/
theorem tidies_setBlock (hblk : s.block k = some blk) (h : blk'.fence = blk.fence) : Tidies s (s.setBlock k blk') := by
  refine tidies_of_eq (fun _ => ⟨.refl _, fun j _ => ?_, Nat.le_refl _, Nat.le_refl _⟩) rfl rfl
  show (Function.update s.block k (some blk') j).map Block.fence = _
  by_cases hj : j = k
  · rw [hj, Function.update_self, hblk, Option.map_some, Option.map_some, h]
  · rw [Function.update_of_ne hj]

/-- A block is taken off its list and may be put on another one. -/
theorem tidies_relist (k : BlockId) (onHardware lru : List BlockId) :
    Tidies s { s.unlink k with onHardware := onHardware, lru := lru } :=
  tidies_of_eq (fun _ => ⟨List.filter_sublist, fun _ _ => rfl, Nat.le_refl _, Nat.le_refl _⟩) rfl rfl

/-! ## Fences and blocks -/

theorem releaseBlock_tidies (k : BlockId) (blk : Block) (s : State) : Ensures (releaseBlock k blk s) (Tidies s) := by
  unfold releaseBlock
  refine Ensures.bind_any fun r => .pure (tidies_of_eq (fun _ => ?_) rfl rfl)
  refine ⟨List.filter_sublist, fun j hj => ?_, Nat.le_refl _, Nat.le_refl _⟩
  have hjk : j ≠ k := of_decide_eq_true (List.mem_filter.mp hj).2
  show (Function.update s.block k none j).map Block.fence = _
  rw [Function.update_of_ne hjk]

theorem clearBlock_tidies (k : BlockId) (s : State) : Ensures (clearBlock k s) fun r => Tidies s r.2 := by
  unfold clearBlock
  refine (getBlock_ensures k s).bind fun blk hblk => Ensures.bind_any fun _ => ?_
  split
  · split
    · exact (releaseBlock_tidies k blk s).bind fun s₁ h₁ => .pure h₁
    · exact .pure ((tidies_relist k _ _).after (tidies_setBlock hblk (by rfl)))
  · exact .pure (.refl s)

theorem clearBlocks_tidies (ks : List BlockId) (s : State) : Ensures (clearBlocks ks s) (Tidies s) := by
  induction ks generalizing s with
  | nil => exact .ok (.refl s)
  | cons k ks ih =>
      refine Ensures.tidies_bind (clearBlock_tidies k s) fun r => ?_
      dsimp only
      split
      · exact ih r.2
      · exact .pure (.refl r.2)

theorem clearFenced_tidies (cookie : UInt32) (s : State) : Ensures (clearFenced cookie s) (Tidies s) := by
  refine (clearBlocks_tidies s.fenced { s with lastFence := cookie }).mono fun s' h => ?_
  exact h.after (tidies_counters ⟨rfl, rfl, rfl⟩ (Nat.le_refl _) ⟨rfl, rfl⟩)

theorem fenceWaitInternal_tidies (env : Env) (fence : UInt32) (s : State) :
    Ensures (fenceWaitInternal env fence s) (Tidies s) := by
  have hwaits : Tidies s { s with waits := s.waits + 1 } := tidies_counters ⟨rfl, rfl, rfl⟩ (Nat.le_refl _) ⟨rfl, rfl⟩
  unfold fenceWaitInternal
  split
  · exact clearFenced_tidies fence s
  · dsimp only
    split
    · exact .error
    · exact .ok hwaits
    · exact .error
    · exact (clearFenced_tidies fence _).mono fun s' h => hwaits.trans h

theorem waitIdle_tidies (env : Env) (s : State) : Ensures (waitIdle env s) (Tidies s) := by
  refine (fenceWaitInternal_tidies env _ { s with emitted := s.emitted + 1 }).mono fun s' h => ?_
  exact h.after (tidies_counters ⟨rfl, rfl, rfl⟩ (Nat.le_succ _) ⟨rfl, rfl⟩)

theorem waitRenderingLocked_tidies (env : Env) (b : BoId) (s : State) : Ensures (waitRenderingLocked env b s) (Tidies s) := by
  unfold waitRenderingLocked
  refine Ensures.bind_any fun bo => ?_
  split
  · exact .pure (.refl s)
  · refine Ensures.bind_any fun blk => ?_
    split
    · exact .pure (.refl s)
    · exact fenceWaitInternal_tidies env blk.fence s

/-- The new block has a name that no fenced block has. -/
theorem allocBlock_tidies (b : BoId) (s : State) : Ensures (allocBlock b s) fun r => Tidies s r.2 := by
  unfold allocBlock
  refine (getBo_ensures b s).bind fun bo hb => Ensures.bind_any fun r => ?_
  obtain ⟨mem, heapMem⟩ := r
  cases mem with
  | none => exact .pure (tidies_counters ⟨rfl, rfl, rfl⟩ (Nat.le_refl _) ⟨rfl, rfl⟩)
  | some mem =>
      have halloc : Tidies s { s with
          heap := { s.heap with mem := heapMem, out := mem :: s.heap.out }
          block := Function.update s.block s.freshBlock (some { mem, bo := some b })
          freshBlock := s.freshBlock + 1
          lru := s.lru ++ [s.freshBlock] } := by
        refine tidies_of_eq (fun hs => ⟨.refl _, fun j hj => ?_, Nat.le_refl _, Nat.le_succ _⟩) rfl rfl
        show (Function.update s.block s.freshBlock _ j).map Block.fence = _
        rw [Function.update_of_ne (Nat.ne_of_lt (hs j hj))]
      exact .pure (halloc.trans (tidies_setBo hb rfl))

theorem saveBlock_tidies (b : BoId) (blk : Block) (s : State) : Ensures (saveBlock b blk s) (Tidies s) := by
  unfold saveBlock
  exact (getBo_ensures b s).bind fun bo hb => Ensures.bind_any fun old => .pure (tidies_setBo hb rfl)

theorem dropBlock_tidies (hblk : s.block k = some blk) : Ensures (dropBlock k blk s) (Tidies s) := by
  unfold dropBlock
  split
  · exact .ok (tidies_setBlock hblk rfl)
  · split
    · exact .ok (tidies_setBlock hblk rfl)
    · exact releaseBlock_tidies k blk s

theorem freeBlock_tidies (k : BlockId) (skipDirtyCopy : Bool) (s : State) :
    Ensures (freeBlock k skipDirtyCopy s) (Tidies s) := by
  unfold freeBlock
  refine (getBlock_ensures k s).bind fun blk hblk => Ensures.bind_any fun b => Ensures.bind_any fun bo => ?_
  dsimp only
  split
  · have hsave : Ensures (saveBlock b blk s) fun s₁ => Tidies s s₁ ∧ s₁.block = s.block := by
      unfold saveBlock
      exact (getBo_ensures b s).bind fun bo hb => Ensures.bind_any fun old => .pure ⟨tidies_setBo hb rfl, rfl⟩
    refine hsave.bind fun s₁ h₁ => (modifyBo_ensures b _ s₁).bind ?_
    rintro s₂ ⟨bo₁, hb₁, rfl⟩
    have hblk₁ : (s₁.setBo b { bo₁ with dirty := true }).block k = some blk := by
      rw [← hblk, ← h₁.2]
      rfl
    exact (dropBlock_tidies hblk₁).mono fun s' h => h₁.1.trans (h.after (tidies_setBo hb₁ (by rfl)))
  · exact dropBlock_tidies hblk

theorem setDirty_tidies (b : BoId) (s : State) : Ensures (setDirty b s) (Tidies s) := by
  unfold setDirty
  exact (getBo_ensures b s).bind fun bo hb => Ensures.bind_any fun _ => .pure (tidies_setBo hb rfl)

theorem evictBlock_tidies (k : BlockId) (b : BoId) (s : State) : Ensures (evictBlock k b s) (Tidies s) := by
  unfold evictBlock
  refine Ensures.tidies_bind (p := id) (setDirty_tidies b s) fun s₁ => ?_
  exact Ensures.tidies_bind (p := id) (modifyBo_tidies b _ (by exact fun _ => rfl)) fun s₂ => freeBlock_tidies k false s₂

theorem evictFirst_tidies (stop : Block → Bool) (ks : List BlockId) (s : State) :
    Ensures (evictFirst stop ks s) fun r => Tidies s r.2 := by
  induction ks with
  | nil => exact .ok (.refl s)
  | cons k ks ih =>
      refine Ensures.bind_any fun blk => ?_
      cases hbo : blk.bo with
      | none =>
          dsimp only
          split
          · exact .pure (.refl s)
          · exact .error
      | some b =>
          refine Ensures.bind_any fun bo => ?_
          split
          · exact ih
          · split
            · exact .pure (.refl s)
            · exact (evictBlock_tidies k b s).bind fun s₁ h₁ => .pure h₁

theorem evictLoop_tidies {evict : State → Except Fault (Bool × State)} (hevict : ∀ s, Ensures (evict s) fun r => Tidies s r.2)
    (b : BoId) (n : Nat) (s : State) : Ensures (evictLoop evict b n s) fun r => Tidies s r.2 := by
  induction n generalizing s with
  | zero => exact .error
  | succ n ih =>
      refine Ensures.tidies_bind (hevict s) fun r => ?_
      obtain ⟨evicted, s₁⟩ := r
      cases evicted with
      | false => exact .pure (.refl s₁)
      | true =>
          refine Ensures.tidies_bind (allocBlock_tidies b s₁) fun r' => ?_
          dsimp only
          split
          · exact .pure (.refl r'.2)
          · exact ih r'.2

theorem waitLoop_tidies (env : Env) {next : State → Except Fault (Bool × State)}
    (hnext : ∀ s, Ensures (next s) fun r => Tidies s r.2) (n : Nat) (s : State) :
    Ensures (waitLoop env next n s) fun r => Tidies s r.2 := by
  induction n generalizing s with
  | zero => exact .error
  | succ n ih =>
      unfold waitLoop
      split
      · exact .ok (.refl s)
      · refine Ensures.bind_any fun blk => ?_
        refine Ensures.tidies_bind (p := id) (fenceWaitInternal_tidies env blk.fence s) fun s₁ => ?_
        refine Ensures.tidies_bind (hnext s₁) fun r => ?_
        dsimp only
        split
        · exact .pure (.refl r.2)
        · exact ih r.2

theorem orElse_tidies {first next : State → Except Fault (Bool × State)} (hfirst : ∀ s, Ensures (first s) fun r => Tidies s r.2)
    (hnext : ∀ s, Ensures (next s) fun r => Tidies s r.2) (s : State) :
    Ensures (orElse first next s) fun r => Tidies s r.2 := by
  refine Ensures.tidies_bind (hfirst s) fun r => ?_
  dsimp only
  split
  · exact .pure (.refl r.2)
  · exact hnext r.2

theorem allocBehindHardware_tidies (env : Env) (b : BoId) (s : State) :
    Ensures (allocBehindHardware env b s) fun r => Tidies s r.2 := by
  unfold allocBehindHardware
  split
  · exact .ok (.refl s)
  · refine Ensures.tidies_bind (waitLoop_tidies env (fun s => .ok (.refl s)) env.fuel s) fun r => ?_
    refine (allocBlock_tidies b _).mono fun r' h => h.after ?_
    exact tidies_counters ⟨rfl, rfl, rfl⟩ (Nat.le_refl _) ⟨rfl, rfl⟩

theorem evictAndAllocBlock_tidies (env : Env) (b : BoId) (s : State) :
    Ensures (evictAndAllocBlock env b s) fun r => Tidies s r.2 := by
  unfold evictAndAllocBlock
  refine Ensures.bind_any fun bo => Ensures.bind_any fun _ => ?_
  refine orElse_tidies (allocBlock_tidies b) (orElse_tidies (fun s => ?_) (orElse_tidies (fun s => ?_)
    (orElse_tidies (allocBehindHardware_tidies env b)
      (evictLoop_tidies (fun s => evictFirst_tidies _ _ s) b env.fuel)))) s
  · split
    · exact evictLoop_tidies (fun s => evictFirst_tidies _ _ s) b env.fuel s
    · exact .ok (.refl s)
  · split
    · refine (waitLoop_tidies env (allocBlock_tidies b) env.fuel _).mono fun r h => h.after ?_
      exact tidies_counters ⟨rfl, rfl, rfl⟩ (Nat.le_refl _) ⟨rfl, rfl⟩
    · exact waitLoop_tidies env (allocBlock_tidies b) env.fuel s

theorem fetchCard_tidies (env : Env) (b : BoId) (s : State) : Ensures (fetchCard env b s) (Tidies s) := by
  unfold fetchCard
  refine Ensures.bind_any fun bo => ?_
  split
  · exact .pure (.refl s)
  · split
    · refine Ensures.bind_any fun blk => ?_
      split
      · exact Ensures.tidies_bind (p := id) (waitRenderingLocked_tidies env b s) fun s₁ => saveBlock_tidies b blk s₁
      · exact saveBlock_tidies b blk s
    · exact .pure (.refl s)

theorem allocBackingStore_tidies (env : Env) (b : BoId) (s : State) : Ensures (allocBackingStore env b s) (Tidies s) := by
  refine (allocBackingStore_ensures env b s).mono ?_
  rintro s' ⟨bo, hb, _, rfl⟩
  exact tidies_setBo hb rfl

theorem setDirtyIf_tidies (writeEnable : Bool) (b : BoId) (s : State) :
    Ensures (setDirtyIf writeEnable b s) (Tidies s) := by
  cases writeEnable with
  | false => exact .ok (.refl s)
  | true => exact setDirty_tidies b s

theorem needBackingStore_tidies (env : Env) (b : BoId) (s : State) : Ensures (needBackingStore env b s) (Tidies s) := by
  refine Ensures.bind_any fun bo => ?_
  split
  · exact allocBackingStore_tidies env b s
  · exact .pure (.refl s)

/-! ## Mapping -/

theorem mapCard_quiet (env : Env) (b : BoId) (s : State) : Ensures (mapCard env b s) fun r => Quiet s r.2 := by
  unfold mapCard
  refine Ensures.bind_any fun bo => ?_
  have hplace : ∀ s₁ blk, Ensures (do
      let s ← s₁.modifyBo b fun bo => { bo with virtual := some (.card (s₁.ofs blk)) }
      return ((0 : Int), s)) fun r => Quiet s₁ r.2 := by
    intro s₁ blk
    exact (modifyBo_quiet b _ (by exact fun _ => rfl)).bind fun s₂ h₂ => .pure h₂
  have hrest : ∀ q : Bool × State, Ensures (
      if !q.1 then return ((1 : Int), { q.2 with fail := true })
      else do
        let bo ← q.2.getBo b
        let k ← deref bo.block
        let block ← q.2.getBlock k
        let s := q.2.setBo b { bo with dirty := false }
        let s ← if !bo.flags.noFenceSubdata && block.fenced then waitRenderingLocked env b s else pure s
        let s ← s.modifyBo b fun bo => { bo with virtual := some (.card (s.ofs block)) }
        return ((0 : Int), s)) fun r => Quiet q.2 r.2 := by
    intro q
    split
    · exact .pure (quiet_counters ⟨rfl, rfl, rfl⟩ (Nat.le_refl _) ⟨rfl, rfl⟩)
    · refine (getBo_ensures b q.2).bind fun bo hb => Ensures.bind_any fun k => Ensures.bind_any fun blk => ?_
      have hset : Quiet q.2 (q.2.setBo b { bo with dirty := false }) := quiet_setBo hb rfl
      dsimp only
      split
      · refine ((Ensures.quiet (waitRenderingLocked_tidies env b _)).mono fun s₁ h₁ => hset.trans h₁).bind fun s₁ h₁ => ?_
        exact (hplace s₁ blk).mono fun r h => h₁.trans h
      · exact (hplace _ blk).mono fun r h => hset.trans h
  split
  · exact Ensures.quiet_bind (Ensures.quiet (evictAndAllocBlock_tidies env b s)) hrest
  · exact hrest (true, s)

theorem mapBacking_quiet (env : Env) (b : BoId) (writeEnable : Bool) (s : State) :
    Ensures (mapBacking env b writeEnable s) fun r => Quiet s r.2 := by
  unfold mapBacking
  refine Ensures.quiet_bind (p := id) (Ensures.quiet (setDirtyIf_tidies writeEnable b s)) fun s₁ => ?_
  refine Ensures.quiet_bind (p := id) (Ensures.quiet (needBackingStore_tidies env b s₁)) fun s₂ => ?_
  refine Ensures.quiet_bind (p := id) (Ensures.quiet (fetchCard_tidies env b s₂)) fun s₃ => ?_
  exact (modifyBo_quiet b _ (by exact fun _ => rfl)).bind fun s₄ h₄ => .pure h₄

theorem boMapLocked_quiet (env : Env) (b : BoId) (writeEnable : Bool) (s : State) :
    Ensures (boMapLocked env b writeEnable s) fun r => Quiet s r.2 := by
  unfold boMapLocked
  refine (getBo_ensures b s).bind fun bo hb => ?_
  have hcount : Quiet s (s.setBo b { bo with mapCount := bo.mapCount + 1 }) := quiet_setBo hb rfl
  split
  · split
    · refine Ensures.quiet_bind (p := id) (Ensures.quiet (waitIdle_tidies env s)) fun s₁ => ?_
      exact (modifyBo_quiet b _ (by exact fun _ => rfl)).bind fun s₂ h₂ => .pure h₂
    · exact .pure (.refl s)
  · dsimp only
    split
    · exact .pure hcount
    · split
      · exact .error
      · split
        · exact (mapCard_quiet env b _).mono fun r h => hcount.trans h
        · exact (mapBacking_quiet env b writeEnable _).mono fun r h => hcount.trans h

theorem boUnmapLocked_quiet (b : BoId) (s : State) : Ensures (boUnmapLocked b s) fun r => Quiet s r.2 := by
  unfold boUnmapLocked
  refine (getBo_ensures b s).bind fun bo hb => ?_
  split
  · exact .pure (.refl s)
  · refine Ensures.bind_any fun _ => ?_
    dsimp only
    split
    · exact .pure (quiet_setBo hb rfl)
    · exact .pure (quiet_setBo hb rfl)

theorem unmapIfMapped_quiet (b : BoId) (s : State) : Ensures (unmapIfMapped b s) (Quiet s) := by
  unfold unmapIfMapped
  refine Ensures.bind_any fun bo => ?_
  split
  · exact (boUnmapLocked_quiet b s).bind fun r hr => .pure hr
  · exact .pure (.refl s)

theorem writeVirtual_moves (b : BoId) (offset : Nat) (bytes : List UInt8) (s : State) :
    Ensures (writeVirtual b offset bytes s) (Moves s) := by
  unfold writeVirtual
  refine Ensures.bind_any fun bo => ?_
  split
  · exact .error
  · dsimp only
    cases bo.virtual with
    | none => exact .error
    | some place =>
        cases place with
        | backing => exact Ensures.bind_any fun old => .pure (moves_of_eq rfl rfl (Nat.le_refl _) rfl)
        | card address => exact .pure (moves_of_eq rfl rfl (Nat.le_refl _) rfl)

theorem boSubdata_moves (env : Env) (b : BoId) (offset : Nat) (data : List UInt8) (s : State) :
    Ensures (boSubdata env b offset data s) fun r => Moves s r.2 := by
  unfold boSubdata
  split
  · exact .ok (.refl s)
  · refine Ensures.moves_bind ((boMapLocked_quiet env b true s).mono fun r h => h.moves) fun r => ?_
    dsimp only
    split
    · exact .pure (.refl r.2)
    · refine Ensures.moves_bind (p := id) (writeVirtual_moves b offset data r.2) fun s₁ => ?_
      exact (boUnmapLocked_quiet b s₁).bind fun r' h => .pure h.moves

/-! ## Validating -/

theorem kickBlock_quiet (s : State) (k : BlockId) : Ensures (kickBlock s k) (Quiet s) := by
  unfold kickBlock
  refine (getBlock_ensures k s).bind fun blk hblk => Ensures.bind_any fun b => ?_
  have hset : Quiet s (s.setBlock k { blk with onHardware := false }) := (tidies_setBlock hblk (by rfl)).quiet
  refine ((Ensures.quiet (freeBlock_tidies k false _)).mono fun s₁ h₁ => hset.trans h₁).bind fun s₁ h₁ => ?_
  exact (modifyBo_quiet b _ (by exact fun _ => rfl)).mono fun s₂ h₂ => h₁.trans h₂

theorem kickAllLocked_quiet (s : State) : Ensures (kickAllLocked s) (Quiet s) := by
  refine (Ensures.foldlM (I := fun s' => Quiet { s with performedRendering := false } s') (.refl _) fun s' k hs' => ?_).mono ?_
  · exact (kickBlock_quiet s' k).mono fun s'' h => hs'.trans h
  · exact fun s' h => h.after (quiet_counters ⟨rfl, rfl, rfl⟩ (Nat.le_refl _) ⟨rfl, rfl⟩)

theorem upload_quiet (env : Env) (b : BoId) (blk : Block) (s : State) : Ensures (upload env b blk s) (Quiet s) := by
  unfold upload
  refine Ensures.bind_any fun _ => Ensures.bind_any fun _ => ?_
  refine Ensures.quiet_bind (p := id) (Ensures.quiet (waitIdle_tidies env s)) fun s₁ => ?_
  refine (getBo_ensures b s₁).bind fun bo hb => .pure ?_
  have hset : Quiet s₁ (s₁.setBo b { bo with dirty := false }) := quiet_setBo hb rfl
  exact hset.trans (quiet_counters ⟨rfl, rfl, rfl⟩ (Nat.le_refl _) ⟨rfl, rfl⟩)

theorem moveToHardware_quiet (k : BlockId) (s : State) : Ensures (moveToHardware k s) (Quiet s) := by
  unfold moveToHardware
  refine (getBlock_ensures k s).bind fun blk hblk => .pure ?_
  exact ((tidies_relist k _ _).after (tidies_setBlock hblk (by rfl))).quiet

theorem placeBo_quiet (env : Env) (b : BoId) (s : State) : Ensures (placeBo env b s) fun r => Quiet s r.2 := by
  unfold placeBo
  refine (getBo_ensures b s).bind fun bo hb => Ensures.bind_any fun k => Ensures.bind_any fun blk =>
    Ensures.bind_any fun _ => ?_
  have hset : Quiet s (s.setBo b { bo with offset := s.ofs blk }) := quiet_setBo hb rfl
  have hrest : ∀ s₁, Ensures (do
      let s ← moveToHardware k s₁
      let s ← s.modifyBo b fun bo => { bo with validated := true }
      return ((0 : Int), { s with needFence := true })) fun r => Quiet s₁ r.2 := by
    intro s₁
    refine Ensures.quiet_bind (p := id) (moveToHardware_quiet k s₁) fun s₂ => ?_
    refine (modifyBo_quiet b _ (by exact fun _ => rfl)).bind fun s₃ h₃ => .pure (h₃.trans ?_)
    exact quiet_counters ⟨rfl, rfl, rfl⟩ (Nat.le_refl _) ⟨rfl, rfl⟩
  dsimp only
  split
  · exact ((upload_quiet env b blk _).mono fun s₁ h₁ => hset.trans h₁).bind fun s₁ h₁ =>
      (hrest s₁).mono fun r h => h₁.trans h
  · exact (hrest _).mono fun r h => hset.trans h

theorem boValidate_quiet (env : Env) (b : BoId) (s : State) : Ensures (boValidate env b s) fun r => Quiet s r.2 := by
  unfold boValidate
  refine Ensures.bind_any fun bo => Ensures.bind_any fun _ => ?_
  split
  · exact .pure (quiet_counters ⟨rfl, rfl, rfl⟩ (Nat.le_refl _) ⟨rfl, rfl⟩)
  · split
    · refine Ensures.quiet_bind (Ensures.quiet (evictAndAllocBlock_tidies env b s)) fun r => ?_
      obtain ⟨done, s₁⟩ := r
      cases done with
      | false => exact .pure (quiet_counters ⟨rfl, rfl, rfl⟩ (Nat.le_refl _) ⟨rfl, rfl⟩)
      | true => exact placeBo_quiet env b s₁
    · exact placeBo_quiet env b s

theorem markCardDirty_quiet (env : Env) (b : BoId) (s : State) : Ensures (markCardDirty env b s) (Quiet s) := by
  unfold markCardDirty
  refine Ensures.bind_any fun bo => ?_
  have hrest : ∀ s₁, Ensures (do
      let s ← s₁.modifyBo b fun bo => { bo with cardDirty := true }
      return { s with performedRendering := true }) (Quiet s₁) := by
    intro s₁
    refine (modifyBo_quiet b _ (by exact fun _ => rfl)).bind fun s₂ h₂ => .pure (h₂.trans ?_)
    exact quiet_counters ⟨rfl, rfl, rfl⟩ (Nat.le_refl _) ⟨rfl, rfl⟩
  split
  · split
    · exact Ensures.quiet_bind (p := id) (Ensures.quiet (allocBackingStore_tidies env b s)) hrest
    · exact hrest s
  · exact .pure (.refl s)

theorem calculateDomains_quiet (fuel : Nat) (b : BoId) (s : State) : Ensures (calculateDomains fuel b s) (Quiet s) := by
  induction fuel generalizing b s with
  | zero => exact .error
  | succ fuel ih =>
      unfold calculateDomains
      refine Ensures.bind_any fun bo => Ensures.foldlM (.refl s) fun s' r hs' => ?_
      refine (ih r.target s').bind fun s₁ h₁ => ?_
      exact (modifyBo_quiet r.target _ (by exact fun _ => rfl)).mono fun s₂ h₂ => (hs'.trans h₁).trans h₂

theorem postSubmit_quiet (fuel : Nat) (b : BoId) (s : State) : Ensures (postSubmit fuel b s) (Quiet s) := by
  induction fuel generalizing b s with
  | zero => exact .error
  | succ fuel ih =>
      unfold postSubmit
      refine Ensures.bind_any fun bo => ?_
      have hloop : Ensures (bo.relocs.foldlM (postSubmitOf (postSubmit fuel)) s) (Quiet s) := by
        refine Ensures.foldlM (.refl s) fun s' r hs' => Ensures.bind_any fun tbo => ?_
        split
        · exact (ih r.target s').mono fun s₁ h₁ => hs'.trans h₁
        · exact .pure hs'
      refine Ensures.quiet_bind (p := id) hloop fun s₁ => ?_
      exact (getBo_ensures b s₁).bind fun bo hb => Ensures.bind_any fun _ => .pure (quiet_setBo hb rfl)

/-- The relocations are patched, which is not quiet. -/
theorem applyReloc_moves (env : Env) (b : BoId) (i : Nat) (s : State) : Ensures (applyReloc env b i s) (Moves s) := by
  unfold applyReloc
  refine Ensures.bind_any fun bo => Ensures.bind_any fun r => Ensures.bind_any fun tbo => ?_
  split
  · exact .pure (.refl s)
  · have hrest : ∀ s₁, Ensures (do
        let s ← writeVirtual b r.offset.toNat (bytes32 (UInt32.ofNat ((tbo.offset + r.delta.toNat) % 2 ^ 32).toNat)) s₁
        s.modifyBo b fun bo => { bo with
          relocs := bo.relocs.set i { r with lastTargetOffset := UInt32.ofNat (tbo.offset % 2 ^ 32).toNat } }) (Moves s₁) := by
      intro s₁
      refine Ensures.moves_bind (p := id) (writeVirtual_moves b _ _ s₁) fun s₂ => ?_
      refine (modifyBo_ensures b _ s₂).mono ?_
      rintro s' ⟨bo₂, _, rfl⟩
      exact moves_setBo b _
    dsimp only
    split
    · exact Ensures.moves_bind ((boMapLocked_quiet env b true s).mono fun r h => h.moves) fun r => hrest r.2
    · exact hrest s

/-- What the parts of a validation do to a buffer at most. -/
structure Stepwise (env : Env) (R : State → State → Prop) : Prop where
  refl : ∀ s, R s s
  trans : ∀ {s s' s''}, R s s' → R s' s'' → R s s''
  apply : ∀ b i s, Ensures (applyReloc env b i s) (R s)
  unmap : ∀ b s, Ensures (unmapIfMapped b s) (R s)
  mark : ∀ b s, Ensures (markCardDirty env b s) (R s)
  validate : ∀ b s, Ensures (boValidate env b s) fun r => R s r.2
  kick : ∀ s, Ensures (kickAllLocked s) (R s)
  fail : ∀ s, R s { s with fail := false }

section Stepwise

variable {env : Env} {R : State → State → Prop}

theorem Stepwise.loop (h : Stepwise env R) {again : BoId → State → Except Fault (Int × State)}
    (hagain : ∀ c s, Ensures (again c s) fun r => R s r.2) (b : BoId) (n : Nat) :
    ∀ i s, Ensures (relocLoop env again b n i s) fun r => R s r.2 := by
  induction n with
  | zero => exact fun _ s => .ok (h.refl s)
  | succ n ih =>
      intro i s
      unfold relocLoop
      refine Ensures.bind_any fun bo => Ensures.bind_any fun r => Ensures.bind_any fun tbo => ?_
      have hrest : ∀ q : Int × State, Ensures (
          if q.1 ≠ 0 then do
            let s ← unmapIfMapped b q.2
            return (q.1, s)
          else do
            let s ← applyReloc env b i q.2
            relocLoop env again b n (i + 1) s) fun r => R q.2 r.2 := by
        intro q
        split
        · exact (h.unmap b q.2).bind fun s' h => .pure h
        · exact Ensures.chain (p := id) (h.apply b i q.2) h.trans fun s' => ih (i + 1) s'
      split
      · exact hrest (0, s)
      · exact Ensures.chain (hagain r.target s) h.trans hrest

/-- The walk over the whole batch does no more than its parts. -/
theorem Stepwise.walk (h : Stepwise env R) (fuel : Nat) (b : BoId) (s : State) :
    Ensures (relocAndValidateBuffer env fuel b s) fun r => R s r.2 := by
  induction fuel generalizing b s with
  | zero => exact .error
  | succ fuel ih =>
      unfold relocAndValidateBuffer
      refine Ensures.bind_any fun bo => Ensures.bind_any fun _ => ?_
      refine Ensures.chain (h.loop ih b bo.relocs.length 0 s) h.trans fun r => ?_
      dsimp only
      split
      · exact .pure (h.refl r.2)
      · refine Ensures.chain (p := id) (h.unmap b r.2) h.trans fun s₁ => ?_
        exact Ensures.chain (p := id) (h.mark b s₁) h.trans fun s₂ => h.validate b s₂

end Stepwise

/-- `bo_exec` from the label `restart` to the submission. -/
def validateBatch (env : Env) (b : BoId) (s : State) : Except Fault State := do
  let (ret, s) ← relocAndValidateBuffer env env.fuel b s
  let (ret, s) ←
    if s.fail then do
      let s ← kickAllLocked s
      relocAndValidateBuffer env env.fuel b { s with fail := false }
    else pure (ret, s)
  assert (ret = 0)
  return s

theorem prepareExec_eq (env : Env) (b : BoId) (s : State) : prepareExec env b s =
    (calculateDomains env.fuel b { s with performedRendering := false } >>= fun s =>
      s.modifyBo b (fun bo => { bo with readDomains := I915_GEM_DOMAIN_COMMAND }) >>= validateBatch env b) := rfl

theorem Stepwise.batch {env : Env} {R : State → State → Prop} (h : Stepwise env R) (b : BoId) (s : State) :
    Ensures (validateBatch env b s) (R s) := by
  refine Ensures.chain (h.walk env.fuel b s) h.trans fun r => ?_
  dsimp only
  split
  · refine Ensures.chain (p := id) (h.kick r.2) h.trans fun s₁ => ?_
    refine ((h.walk env.fuel b _).mono fun r' h' => h.trans (h.fail s₁) h').bind fun r' h' => ?_
    exact Ensures.bind_any fun _ => .pure h'
  · exact Ensures.bind (P := fun q => R r.2 q.2) (.pure (h.refl r.2)) fun q hq => Ensures.bind_any fun _ => .pure hq

theorem stepwise_moves (env : Env) : Stepwise env Moves where
  refl := .refl
  trans := .trans
  apply := applyReloc_moves env
  unmap b s := (unmapIfMapped_quiet b s).mono fun _ h => h.moves
  mark b s := (markCardDirty_quiet env b s).mono fun _ h => h.moves
  validate b s := (boValidate_quiet env b s).mono fun _ h => h.moves
  kick s := (kickAllLocked_quiet s).mono fun _ h => h.moves
  fail _ := moves_of_eq rfl rfl (Nat.le_refl _) rfl

theorem prepareExec_moves (env : Env) (b : BoId) (s : State) : Ensures (prepareExec env b s) (Moves s) := by
  rw [prepareExec_eq]
  have hstart : Quiet s { s with performedRendering := false } :=
    quiet_counters ⟨rfl, rfl, rfl⟩ (Nat.le_refl _) ⟨rfl, rfl⟩
  refine Ensures.moves_bind (p := id) ((calculateDomains_quiet env.fuel b _).mono fun s₁ h => (hstart.trans h).moves) ?_
  intro s₁
  refine Ensures.moves_bind (p := id)
    ((modifyBo_quiet b _ (by exact fun _ => rfl)).mono fun s₂ h => h.moves) fun s₂ => ?_
  exact (stepwise_moves env).batch b s₂

theorem emitReloc_moves (b : BoId) (offset : UInt32) (target : BoId) (targetOffset readDomains writeDomain : UInt32)
    (s : State) : Ensures (emitReloc b offset target targetOffset readDomains writeDomain s) fun r => Moves s r.2 := by
  unfold emitReloc boReference
  refine Ensures.bind_any fun _ => Ensures.bind_any fun _ => ?_
  refine Ensures.moves_bind (p := id)
    ((modifyBo_quiet target _ (by exact fun _ => rfl)).mono fun s₁ h => h.moves) fun s₁ => ?_
  exact Ensures.bind_any fun tbo => Ensures.bind_any fun bo => .pure (moves_setBo b _)

/-! ## Releasing -/

theorem freeBoBlock_quiet (bo : Bo) (s : State) : Ensures (freeBoBlock bo s) (Quiet s) := by
  unfold freeBoBlock
  split
  · case h_1 k _ => exact Ensures.quiet (freeBlock_tidies k true s)
  · exact .ok (.refl s)

theorem unreferenceLocked_moves (fuel : Nat) (b : BoId) (s : State) : Ensures (unreferenceLocked fuel b s) (Moves s) := by
  induction fuel generalizing b s with
  | zero => exact .error
  | succ fuel ih =>
      unfold unreferenceLocked
      refine Ensures.bind_any fun bo => ?_
      have hset : Moves s (s.setBo b { bo with refcount := bo.refcount - 1 }) := moves_setBo b _
      have hrest : ∀ s₁, Ensures (do
          let s ← bo.relocs.foldlM (fun s r => unreferenceLocked fuel r.target s) s₁
          return { s with bo := Function.update s.bo b none }) (Moves s₁) := by
        intro s₁
        have hloop : Ensures (bo.relocs.foldlM (fun s r => unreferenceLocked fuel r.target s) s₁) (Moves s₁) :=
          Ensures.foldlM (.refl s₁) fun s' r hs' => (ih r.target s').mono fun s'' h => hs'.trans h
        exact hloop.bind fun s₂ h₂ => .pure (h₂.trans (moves_of_eq rfl rfl (Nat.le_refl _) rfl))
      dsimp only
      split
      · exact .pure hset
      · refine Ensures.bind_any fun _ => ?_
        refine ((freeBoBlock_quiet bo _).mono fun s₁ h => hset.trans h.moves).bind fun s₁ h₁ => ?_
        exact (hrest s₁).mono fun s' h => h₁.trans h

theorem evictAll_quiet (env : Env) (s : State) : Ensures (evictAll env s) (Quiet s) := by
  unfold evictAll
  have hstart : Quiet s { s with needFence := true, fail := false } :=
    quiet_counters ⟨rfl, rfl, rfl⟩ (Nat.le_refl _) ⟨rfl, rfl⟩
  refine Ensures.quiet_bind (p := id) ((Ensures.quiet (waitIdle_tidies env _)).mono fun s₁ h => hstart.trans h) fun s₁ => ?_
  refine Ensures.bind_any fun _ => Ensures.bind_any fun _ => Ensures.foldlM (.refl s₁) fun s' k hs' => ?_
  unfold evictOut
  refine Ensures.bind_any fun blk => Ensures.bind_any fun b => ?_
  refine (Ensures.quiet (freeBlock_tidies k false s')).bind fun s₂ h₂ => ?_
  exact (modifyBo_quiet b _ (by exact fun _ => rfl)).mono fun s₃ h₃ => (hs'.trans h₂).trans h₃

end LibDrm.Fake
