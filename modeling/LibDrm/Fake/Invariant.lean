/-
# `LibDrm.Fake.Invariant` — where the current copy of a buffer is

For every byte that has been written (`content`), by either side:

    dirty, or not card_dirty     the backing store holds it
    not dirty                    the block holds it

so that a buffer that is neither dirty nor has a block was never written.  What
the block and the backing store have to do with each other rests on who owns
which memory: a buffer and its block point to each other, blocks have memory of
their own, and the memory is as large as the buffer.

`T` is a set of buffers that are being validated: those of them that are marked
are `Placed`, on the hardware and up to date.  `X` is the set of buffers that a
call is working on, for which the invariant of the copies may not hold just now.
-/
import LibDrm.Fake.Calls

namespace LibDrm.Fake

/-! ## The invariant -/

/-- Byte `i` of the backing store is `v`. -/
def Bo.BackingHolds (bo : Bo) (i : Nat) (v : UInt8) : Prop := ∃ f, bo.backingStore = some f ∧ f i = v

/-- Byte `i` of the block is `v`. -/
def State.CardHolds (s : State) (bo : Bo) (i : Nat) (v : UInt8) : Prop :=
  ∃ k block, bo.block = some k ∧ s.block k = some block ∧ s.card (s.ofs block + i) = v

/-- The block that `alloc_block` asks for is as large as the buffer. -/
def Bo.Fits (bo : Bo) : Prop := 0 < bo.alignment ∧ bo.size + bo.alignment ≤ 2 ^ 32

/-- The invariant of one buffer. -/
structure BoOk (s : State) (b : BoId) (bo : Bo) : Prop where
  fits : bo.Fits
  bounded : ∀ i v, s.content b i = some v → i < bo.size
  backing : bo.dirty = true ∨ bo.cardDirty = false → ∀ i v, s.content b i = some v → bo.BackingHolds i v
  card : bo.dirty = false → ∀ i v, s.content b i = some v → s.CardHolds bo i v
  /-- Only one of the two copies is ahead of the other. -/
  exclusive : bo.dirty = true → bo.cardDirty = true → bo.block = none
  mapped : bo.mapCount ≠ 0 → bo.cardDirty = true → bo.block = none
  virtual : bo.virtual = if bo.mapCount = 0 then none else some .backing

/-- A 32-bit address of the card. -/
def address (offset : Int) : UInt32 := UInt32.ofNat (offset % 2 ^ 32).toNat

/-- A buffer of the batch that is ready for the hardware. -/
def Placed (s : State) (bo : Bo) : Prop :=
  (∃ k block, bo.block = some k ∧ s.block k = some block ∧ k ∈ s.onHardware ∧ bo.offset = s.ofs block) ∧
    bo.dirty = false ∧ (bo.writeDomain ≠ 0 → bo.cardDirty = true) ∧ bo.mapCount = 0

/-- The target of a relocation is marked, and is where the relocation says. -/
def Aimed (s : State) (r : Reloc) : Prop :=
  ∃ tbo, s.bo r.target = some tbo ∧ tbo.validated = true ∧ r.lastTargetOffset = address tbo.offset

/-- A relocation of `c` points to `d`. -/
def Targets (s : State) (c d : BoId) : Prop := ∃ bo, s.bo c = some bo ∧ ∃ r ∈ bo.relocs, r.target = d

/-- All blocks that are on a list. -/
abbrev State.lists (s : State) : List BlockId := s.onHardware ++ s.fenced ++ s.lru

/-- Blocks, their lists and their memory. -/
structure MemOk (s : State) : Prop where
  heap : ∃ lo hi, Mm.Heap.Ok lo hi s.heap
  held : ∀ k block, s.block k = some block → block.mem ∈ s.heap.out
  full : ∀ q ∈ s.heap.out, ∃ k block, s.block k = some block ∧ block.mem = q
  apart : ∀ k k' block block', s.block k = some block → s.block k' = some block' → block.mem = block'.mem → k = k'
  freshBlock : ∀ k, s.freshBlock ≤ k → s.block k = none
  nodup : s.lists.Nodup
  known : ∀ k ∈ s.lists, ∃ block, s.block k = some block
  listed : ∀ k block, s.block k = some block →
    k ∈ s.lists ∧ (block.onHardware = true ↔ k ∈ s.onHardware) ∧ (block.fenced = true ↔ k ∈ s.fenced)
  /-- A block without buffer waits for the hardware. -/
  orphan : ∀ k block, s.block k = some block → block.bo = none → k ∉ s.lru

/-- Buffers and what they own. -/
structure BosOk (T X : BoId → Prop) (s : State) : Prop where
  ordinary : ∀ b bo, s.bo b = some bo → bo.flags = {} ∧ bo.isStatic = false
  owned : ∀ b bo k, s.bo b = some bo → bo.block = some k → ∃ block, s.block k = some block ∧ block.bo = some b
  owner : ∀ k block b, s.block k = some block → block.bo = some b → ∃ bo, s.bo b = some bo ∧ bo.block = some k
  room : ∀ b bo k block, s.bo b = some bo → bo.Fits → bo.block = some k → s.block k = some block →
    (bo.size : Int) ≤ s.heap.mem.size block.mem
  freshBo : ∀ b, s.freshBo ≤ b → s.bo b = none ∧ ∀ i, s.content b i = none
  bos : ∀ b bo, ¬ X b → s.bo b = some bo → BoOk s b bo
  placed : ∀ b bo, T b → s.bo b = some bo → bo.validated = true → Placed s bo ∧ ∀ r ∈ bo.relocs, Aimed s r

/-- The invariant of a state. -/
structure Inv (T X : BoId → Prop) (s : State) : Prop extends MemOk s, BosOk T X s

/-- No buffer. -/
abbrev Nobody : BoId → Prop := fun _ => False

variable {T X : BoId → Prop} {s s' : State} {b : BoId} {bo : Bo} {k : BlockId} {blk : Block}

theorem BoOk.mono (h : BoOk s b bo) (hcontent : s'.content b = s.content b)
    (hcard : ∀ i v, i < bo.size → s.CardHolds bo i v → s'.CardHolds bo i v) : BoOk s' b bo where
  fits := h.fits
  bounded := by rw [hcontent]; exact h.bounded
  backing := by rw [hcontent]; exact h.backing
  card := by
    rw [hcontent]
    exact fun hdirty i v hv => hcard i v (h.bounded i v hv) (h.card hdirty i v hv)
  exclusive := h.exclusive
  mapped := h.mapped
  virtual := h.virtual

/-! ## Simple steps -/

theorem getBo_ensures (b : BoId) (s : State) : Ensures (s.getBo b) fun bo => s.bo b = some bo := by
  unfold State.getBo
  split
  · case h_1 bo hbo => exact .ok hbo
  · exact .error

theorem getBlock_ensures (k : BlockId) (s : State) : Ensures (s.getBlock k) fun block => s.block k = some block := by
  unfold State.getBlock
  split
  · case h_1 block hblock => exact .ok hblock
  · exact .error

theorem deref_ensures {α : Type} (o : Option α) : Ensures (deref o) fun a => o = some a := by
  cases o with
  | none => exact .error
  | some a => exact .ok rfl

theorem assert_ensures (p : Bool) : Ensures (assert p) fun _ => p = true := by
  unfold assert
  split
  · case isTrue h => exact .ok h
  · exact .error

theorem modifyBo_ensures (b : BoId) (f : Bo → Bo) (s : State) :
    Ensures (s.modifyBo b f) fun s' => ∃ bo, s.bo b = some bo ∧ s' = s.setBo b (f bo) := by
  unfold State.modifyBo
  exact (getBo_ensures b s).bind fun bo hbo => .pure ⟨bo, hbo, rfl⟩

theorem onHeap_ensures {α : Type} {x : Except Mm.Fault α} {Q : α → Prop} (h : Ensures x Q) : Ensures (onHeap x) Q := by
  cases x with
  | error e => exact .error
  | ok a => exact .ok (h a rfl)

/-! ## Changes to lists and flags -/

/-- What a block is, apart from its flags. -/
def Block.key (block : Block) : Mm.BlockId × Option BoId := (block.mem, block.bo)

/-- Two states that differ in lists, in flags of blocks and in what the fences need. -/
structure Relisted (s s' : State) : Prop where
  bo : s'.bo = s.bo
  content : s'.content = s.content
  card : s'.card = s.card
  heap : s'.heap = s.heap
  freshBo : s'.freshBo = s.freshBo
  freshBlock : s'.freshBlock = s.freshBlock
  key : ∀ k, (s'.block k).map Block.key = (s.block k).map Block.key

theorem Relisted.same (h : Relisted s s') (hk : s.block k = some blk) :
    ∃ blk', s'.block k = some blk' ∧ blk'.mem = blk.mem ∧ blk'.bo = blk.bo := by
  have hkey := h.key k
  rw [hk] at hkey
  obtain ⟨block', hblock', hk'⟩ := Option.map_eq_some_iff.mp hkey
  exact ⟨block', hblock', congrArg Prod.fst hk', congrArg Prod.snd hk'⟩

theorem Relisted.symm (h : Relisted s s') : Relisted s' s :=
  ⟨h.bo.symm, h.content.symm, h.card.symm, h.heap.symm, h.freshBo.symm, h.freshBlock.symm, fun k => (h.key k).symm⟩

theorem Relisted.cardHolds (h : Relisted s s') {i : Nat} {v : UInt8} (hv : s.CardHolds bo i v) : s'.CardHolds bo i v := by
  obtain ⟨k, block, hk, hblock, hcard⟩ := hv
  obtain ⟨block', hblock', hmem, _⟩ := h.same hblock
  refine ⟨k, block', hk, hblock', ?_⟩
  rw [h.card, State.ofs, h.heap, hmem]
  exact hcard

theorem MemOk.relisted (hs : MemOk s) (h : Relisted s s') (hlists : ∀ k, k ∈ s'.lists ↔ k ∈ s.lists)
    (hnodup : s'.lists.Nodup)
    (hflags : ∀ k block, s'.block k = some block →
      (block.onHardware = true ↔ k ∈ s'.onHardware) ∧ (block.fenced = true ↔ k ∈ s'.fenced))
    (horphan : ∀ k block, s'.block k = some block → block.bo = none → k ∉ s'.lru) : MemOk s' where
  heap := by rw [h.heap]; exact hs.heap
  held k block hk := by
    obtain ⟨block', hk', hmem, _⟩ := h.symm.same hk
    rw [h.heap, ← hmem]
    exact hs.held k block' hk'
  full q hq := by
    obtain ⟨k, block, hk, hmem⟩ := hs.full q (h.heap ▸ hq)
    obtain ⟨block', hk', hmem', _⟩ := h.same hk
    exact ⟨k, block', hk', hmem'.trans hmem⟩
  apart j k blockj blockk hj hk hmem := by
    obtain ⟨blockj', hj', hmemj, _⟩ := h.symm.same hj
    obtain ⟨blockk', hk', hmemk, _⟩ := h.symm.same hk
    exact hs.apart j k blockj' blockk' hj' hk' (by rw [hmemj, hmemk, hmem])
  freshBlock k hk := by
    have hkey := h.key k
    rw [hs.freshBlock k (h.freshBlock ▸ hk)] at hkey
    exact Option.map_eq_none_iff.mp hkey
  nodup := hnodup
  known k hk := by
    obtain ⟨block, hblock⟩ := hs.known k ((hlists k).mp hk)
    obtain ⟨block', hblock', _⟩ := h.same hblock
    exact ⟨block', hblock'⟩
  listed k block hk := by
    obtain ⟨block', hk', _⟩ := h.symm.same hk
    exact ⟨(hlists k).mpr (hs.listed k block' hk').1, hflags k block hk⟩
  orphan := horphan

theorem BosOk.relisted (hs : BosOk T X s) (h : Relisted s s')
    (hhw : ∀ b bo k, T b → s.bo b = some bo → bo.validated = true → bo.block = some k → k ∈ s.onHardware →
      k ∈ s'.onHardware) : BosOk T X s' where
  ordinary b bo hb := by
    rw [h.bo] at hb
    exact hs.ordinary b bo hb
  owned b bo k hb hk := by
    rw [h.bo] at hb
    obtain ⟨block, hblock, howner⟩ := hs.owned b bo k hb hk
    obtain ⟨block', hblock', _, hbo⟩ := h.same hblock
    exact ⟨block', hblock', hbo.trans howner⟩
  owner k block b hk hb := by
    rw [h.bo]
    obtain ⟨block', hk', _, hbo⟩ := h.symm.same hk
    exact hs.owner k block' b hk' (hbo.trans hb)
  room b bo k block hb hfits hk hblock := by
    rw [h.bo] at hb
    rw [h.heap]
    obtain ⟨block', hk', hmem, _⟩ := h.symm.same hblock
    rw [← hmem]
    exact hs.room b bo k block' hb hfits hk hk'
  freshBo b hb := by
    rw [h.bo, h.content]
    exact hs.freshBo b (h.freshBo ▸ hb)
  bos b bo hX hb := by
    rw [h.bo] at hb
    exact (hs.bos b bo hX hb).mono (by rw [h.content]) fun i v _ => h.cardHolds
  placed b bo hT hb hvalid := by
    rw [h.bo] at hb
    obtain ⟨⟨⟨k, block, hk, hblock, hmem, hofs⟩, hrest⟩, htargets⟩ := hs.placed b bo hT hb hvalid
    obtain ⟨block', hblock', hmem', _⟩ := h.same hblock
    refine ⟨⟨⟨k, block', hk, hblock', hhw b bo k hT hb hvalid hk hmem, ?_⟩, hrest⟩, fun r hr => ?_⟩
    · rw [State.ofs, h.heap, hmem']
      exact hofs
    · unfold Aimed
      rw [h.bo]
      exact htargets r hr

/-! ## Changes to a buffer -/

theorem MemOk.setBo (hs : MemOk s) (b : BoId) (bo : Bo) : MemOk (s.setBo b bo) :=
  ⟨hs.heap, hs.held, hs.full, hs.apart, hs.freshBlock, hs.nodup, hs.known, hs.listed, hs.orphan⟩

theorem setBo_self (b : BoId) (bo : Bo) (s : State) : (s.setBo b bo).bo b = some bo := Function.update_self ..

theorem setBo_of_ne {c : BoId} (h : c ≠ b) (bo : Bo) (s : State) : (s.setBo b bo).bo c = s.bo c :=
  Function.update_of_ne h ..

/-- What no call changes, and the block. -/
structure Bo.Like (bo bo' : Bo) : Prop where
  block : bo'.block = bo.block
  size : bo'.size = bo.size
  alignment : bo'.alignment = bo.alignment
  flags : bo'.flags = bo.flags
  isStatic : bo'.isStatic = bo.isStatic

theorem Aimed.setBo {r : Reloc} (h : Aimed s r) (hb : s.bo b = some bo) {bo' : Bo}
    (hvalid : r.target = b → bo.validated = true → bo'.validated = true ∧ bo'.offset = bo.offset) :
    Aimed (s.setBo b bo') r := by
  obtain ⟨co, hc, hco, hofs⟩ := h
  by_cases hcb : r.target = b
  · rw [hcb] at hc
    cases hb.symm.trans hc
    exact ⟨bo', hcb ▸ setBo_self .., (hvalid hcb hco).1, by rw [(hvalid hcb hco).2]; exact hofs⟩
  · exact ⟨co, (setBo_of_ne hcb ..).trans hc, hco, hofs⟩

/-- A buffer changes and keeps its block. -/
theorem BosOk.setBo (hs : BosOk T X s) (hb : s.bo b = some bo) {bo' : Bo} (hlike : bo.Like bo') (hok : ¬ X b → BoOk s b bo')
    (hvalid : (∃ c, T c ∧ Targets s c b) → bo.validated = true → bo'.validated = true ∧ bo'.offset = bo.offset)
    (hplaced : T b → bo'.validated = true → Placed s bo' ∧ ∀ r ∈ bo'.relocs, Aimed (s.setBo b bo') r) :
    BosOk T X (s.setBo b bo') := by
  have hcases : ∀ c co, (s.setBo b bo').bo c = some co → (c = b ∧ co = bo') ∨ (c ≠ b ∧ s.bo c = some co) := by
    intro c co hc
    by_cases hcb : c = b
    · subst hcb
      rw [setBo_self] at hc
      exact .inl ⟨rfl, (Option.some.inj hc).symm⟩
    · rw [setBo_of_ne hcb] at hc
      exact .inr ⟨hcb, hc⟩
  constructor
  · intro c co hc
    rcases hcases c co hc with ⟨rfl, rfl⟩ | ⟨_, hc⟩
    · rw [hlike.flags, hlike.isStatic]
      exact hs.ordinary c bo hb
    · exact hs.ordinary c co hc
  · intro c co k hc hk
    rcases hcases c co hc with ⟨rfl, rfl⟩ | ⟨_, hc⟩
    · exact hs.owned c bo k hb (hlike.block ▸ hk)
    · exact hs.owned c co k hc hk
  · intro k blk c hk hc
    obtain ⟨co, hco, hcok⟩ := hs.owner k blk c hk hc
    by_cases hcb : c = b
    · subst hcb
      cases hb.symm.trans hco
      exact ⟨bo', setBo_self .., hlike.block.trans hcok⟩
    · exact ⟨co, (setBo_of_ne hcb ..).trans hco, hcok⟩
  · intro c co k blk hc hfits hk hblk
    rcases hcases c co hc with ⟨rfl, rfl⟩ | ⟨_, hc⟩
    · unfold Bo.Fits at hfits
      rw [hlike.size, hlike.alignment] at hfits
      rw [hlike.size]
      exact hs.room c bo k blk hb hfits (hlike.block ▸ hk) hblk
    · exact hs.room c co k blk hc hfits hk hblk
  · intro c hc
    obtain ⟨hnone, hcontent⟩ := hs.freshBo c hc
    have hcb : c ≠ b := by
      rintro rfl
      cases hb.symm.trans hnone
    exact ⟨(setBo_of_ne hcb ..).trans hnone, hcontent⟩
  · intro c co hX hc
    rcases hcases c co hc with ⟨rfl, rfl⟩ | ⟨_, hc⟩
    · exact (hok hX).mono rfl fun i v _ hv => hv
    · exact (hs.bos c co hX hc).mono rfl fun i v _ hv => hv
  · intro c co hT hc hco
    rcases hcases c co hc with ⟨rfl, rfl⟩ | ⟨_, hc⟩
    · exact hplaced hT hco
    · obtain ⟨hp, ht⟩ := hs.placed c co hT hc hco
      refine ⟨hp, fun r hr => (ht r hr).setBo hb fun hrb hv => ?_⟩
      exact hvalid ⟨c, hT, co, hc, r, hr, hrb⟩ hv

/-- A buffer that is not placed changes, but not its mark. -/
theorem Inv.setBo (hs : Inv T X s) (hb : s.bo b = some bo) {bo' : Bo} (hlike : bo.Like bo') (hok : ¬ X b → BoOk s b bo')
    (hvalid : bo'.validated = bo.validated) (hoffset : bo'.offset = bo.offset) (hT : T b → bo.validated = false) :
    Inv T X (s.setBo b bo') := by
  refine ⟨hs.toMemOk.setBo b bo', hs.toBosOk.setBo hb hlike hok (fun _ h => ⟨hvalid.trans h, hoffset⟩) fun hTb h => ?_⟩
  rw [hvalid, hT hTb] at h
  cases h

/-! ## Blocks that are given up -/

/-- The block `k` is gone, or has no buffer any more; everything else is where it was. -/
structure Dropped (k : BlockId) (s s' : State) : Prop where
  bo : s'.bo = s.bo
  content : s'.content = s.content
  card : s'.card = s.card
  freshBo : s'.freshBo = s.freshBo
  block : ∀ j, j ≠ k → s'.block j = s.block j
  orphan : ∀ blk, s'.block k = some blk → blk.bo = none
  hardware : ∀ j, j ≠ k → j ∈ s.onHardware → j ∈ s'.onHardware
  shrinks : ∀ j, j ∈ s'.onHardware → j ∈ s.onHardware
  fenced : ∀ j, j ≠ k → j ∈ s.fenced → j ∈ s'.fenced
  place : ∀ j blk, j ≠ k → s.block j = some blk →
    s'.heap.mem.ofs blk.mem = s.heap.mem.ofs blk.mem ∧ s'.heap.mem.size blk.mem = s.heap.mem.size blk.mem

theorem unlink_lists (k : BlockId) (s : State) : (s.unlink k).lists = s.lists.filter (· ≠ k) := by
  simp [State.lists, State.unlink]

theorem releaseBlock_dropped (hs : MemOk s) (hk : s.block k = some blk) :
    Ensures (releaseBlock k blk s) fun s' => MemOk s' ∧ Dropped k s s' := by
  obtain ⟨lo, hi, hheap⟩ := hs.heap
  have hmem := hs.held k blk hk
  unfold releaseBlock
  refine (onHeap_ensures (hheap.freeMem hmem)).bind fun r hr => .pure ?_
  obtain ⟨hheap', hplace⟩ := hr
  have hother : ∀ j blkj, j ≠ k → s.block j = some blkj → blkj.mem ≠ blk.mem :=
    fun j blkj hne hj heq => hne (hs.apart j k blkj blk hj hk heq)
  have hblock : ∀ j blkj, Function.update s.block k none j = some blkj → j ≠ k ∧ s.block j = some blkj := by
    intro j blkj hj
    by_cases hjk : j = k
    · subst hjk
      rw [Function.update_self] at hj
      cases hj
    · rw [Function.update_of_ne hjk] at hj
      exact ⟨hjk, hj⟩
  have hfilter : ∀ (l : List BlockId) j, j ∈ l.filter (· ≠ k) ↔ j ∈ l ∧ j ≠ k := fun l j => by simp
  refine ⟨⟨⟨lo, hi, hheap'⟩, ?_, ?_, ?_, ?_, ?_, ?_, ?_, ?_⟩, ⟨rfl, rfl, rfl, rfl, ?_, ?_, ?_, ?_, ?_, ?_⟩⟩
  · intro j blkj hj
    obtain ⟨hjk, hj⟩ := hblock j blkj hj
    refine List.mem_filter.mpr ⟨hs.held j blkj hj, ?_⟩
    simpa using (hother j blkj hjk hj).symm
  · intro q hq
    obtain ⟨hq, hne⟩ := List.mem_filter.mp hq
    obtain ⟨j, blkj, hj, hmemj⟩ := hs.full q hq
    have hjk : j ≠ k := by
      rintro rfl
      cases hk.symm.trans hj
      simp [hmemj] at hne
    exact ⟨j, blkj, (Function.update_of_ne hjk ..).trans hj, hmemj⟩
  · intro i j blki blkj hi' hj heq
    exact hs.apart i j blki blkj (hblock i blki hi').2 (hblock j blkj hj).2 heq
  · intro j hj
    show Function.update s.block k none j = none
    by_cases hjk : j = k
    · subst hjk
      exact Function.update_self ..
    · rw [Function.update_of_ne hjk]
      exact hs.freshBlock j hj
  · show (s.unlink k).lists.Nodup
    rw [unlink_lists]
    exact hs.nodup.filter _
  · intro j hj
    replace hj : j ∈ (s.unlink k).lists := hj
    rw [unlink_lists, hfilter] at hj
    obtain ⟨blkj, hblkj⟩ := hs.known j hj.1
    exact ⟨blkj, (Function.update_of_ne hj.2 ..).trans hblkj⟩
  · intro j blkj hj
    obtain ⟨hjk, hj⟩ := hblock j blkj hj
    obtain ⟨hlist, hhw, hfenced⟩ := hs.listed j blkj hj
    refine ⟨?_, ?_, ?_⟩
    · show j ∈ (s.unlink k).lists
      rw [unlink_lists, hfilter]
      exact ⟨hlist, hjk⟩
    · exact hhw.trans ⟨fun h => (hfilter _ j).mpr ⟨h, hjk⟩, fun h => ((hfilter _ j).mp h).1⟩
    · exact hfenced.trans ⟨fun h => (hfilter _ j).mpr ⟨h, hjk⟩, fun h => ((hfilter _ j).mp h).1⟩
  · intro j blkj hj hbo hlru
    exact hs.orphan j blkj (hblock j blkj hj).2 hbo ((hfilter _ j).mp hlru).1
  · exact fun j hj => Function.update_of_ne hj ..
  · intro blk' hblk'
    exact absurd rfl (hblock k blk' hblk').1
  · exact fun j hj hmem => (hfilter _ j).mpr ⟨hmem, hj⟩
  · exact fun j hmem => ((hfilter _ j).mp hmem).1
  · exact fun j hj hmem => (hfilter _ j).mpr ⟨hmem, hj⟩
  · exact fun j blkj hj hblkj => hplace blkj.mem (hs.held j blkj hblkj) (hother j blkj hj hblkj)

theorem setBlock_self (k : BlockId) (blk : Block) (s : State) : (s.setBlock k blk).block k = some blk :=
  Function.update_self ..

theorem setBlock_of_ne {j : BlockId} (h : j ≠ k) (blk : Block) (s : State) : (s.setBlock k blk).block j = s.block j :=
  Function.update_of_ne h ..

theorem orphan_dropped (hs : MemOk s) (hk : s.block k = some blk) (hlru : k ∉ s.lru) :
    MemOk (s.setBlock k { blk with bo := none }) ∧ Dropped k s (s.setBlock k { blk with bo := none }) := by
  have hblock : ∀ j blkj, (s.setBlock k { blk with bo := none }).block j = some blkj →
      ∃ old, s.block j = some old ∧ old.mem = blkj.mem ∧ old.onHardware = blkj.onHardware ∧ old.fenced = blkj.fenced ∧
        (j ≠ k → old = blkj) := by
    intro j blkj hj
    by_cases hjk : j = k
    · subst hjk
      rw [setBlock_self] at hj
      cases hj
      exact ⟨blk, hk, rfl, rfl, rfl, absurd rfl⟩
    · rw [setBlock_of_ne hjk] at hj
      exact ⟨blkj, hj, rfl, rfl, rfl, fun _ => rfl⟩
  have hsome : ∀ j blkj, s.block j = some blkj →
      ∃ new, (s.setBlock k { blk with bo := none }).block j = some new ∧ new.mem = blkj.mem := by
    intro j blkj hj
    by_cases hjk : j = k
    · subst hjk
      cases hk.symm.trans hj
      exact ⟨_, setBlock_self .., rfl⟩
    · exact ⟨blkj, (setBlock_of_ne hjk ..).trans hj, rfl⟩
  refine ⟨⟨hs.heap, ?_, ?_, ?_, ?_, hs.nodup, ?_, ?_, ?_⟩,
    ⟨rfl, rfl, rfl, rfl, ?_, ?_, fun _ _ h => h, fun _ h => h, fun _ _ h => h, fun _ _ _ _ => ⟨rfl, rfl⟩⟩⟩
  · intro j blkj hj
    obtain ⟨old, hold, hmem, _⟩ := hblock j blkj hj
    exact hmem ▸ hs.held j old hold
  · intro q hq
    obtain ⟨j, blkj, hj, hmem⟩ := hs.full q hq
    obtain ⟨new, hnew, hmem'⟩ := hsome j blkj hj
    exact ⟨j, new, hnew, hmem'.trans hmem⟩
  · intro i j blki blkj hi hj heq
    obtain ⟨oldi, holdi, hmemi, _⟩ := hblock i blki hi
    obtain ⟨oldj, holdj, hmemj, _⟩ := hblock j blkj hj
    exact hs.apart i j oldi oldj holdi holdj (by rw [hmemi, hmemj, heq])
  · intro j hj
    have hnone := hs.freshBlock j hj
    have hjk : j ≠ k := by
      rintro rfl
      cases hk.symm.trans hnone
    exact (setBlock_of_ne hjk ..).trans hnone
  · intro j hj
    obtain ⟨blkj, hblkj⟩ := hs.known j hj
    obtain ⟨new, hnew, _⟩ := hsome j blkj hblkj
    exact ⟨new, hnew⟩
  · intro j blkj hj
    obtain ⟨old, hold, _, hhw, hfenced, _⟩ := hblock j blkj hj
    rw [← hhw, ← hfenced]
    exact hs.listed j old hold
  · intro j blkj hj hbo
    obtain ⟨old, hold, _, _, _, hsame⟩ := hblock j blkj hj
    by_cases hjk : j = k
    · exact hjk ▸ hlru
    · exact hs.orphan j old hold (by rw [hsame hjk]; exact hbo)
  · exact fun j hj => setBlock_of_ne hj ..
  · intro blk' hblk'
    rw [setBlock_self] at hblk'
    exact Option.some.inj hblk' ▸ rfl

/-- The three lists have no block in common. -/
theorem MemOk.disjoint (hs : MemOk s) : (k ∈ s.onHardware → k ∉ s.fenced ∧ k ∉ s.lru) ∧ (k ∈ s.fenced → k ∉ s.lru) := by
  have hnodup := hs.nodup
  unfold State.lists at hnodup
  have hlast := List.disjoint_of_nodup_append hnodup
  have hfirst := List.disjoint_of_nodup_append hnodup.of_append_left
  refine ⟨fun h => ⟨fun h' => hfirst h h', fun h' => hlast (List.mem_append_left _ h) h'⟩, fun h h' => ?_⟩
  exact hlast (List.mem_append_right _ h) h'

theorem dropBlock_ensures (hs : MemOk s) (hk : s.block k = some blk) :
    Ensures (dropBlock k blk s) fun s' => MemOk s' ∧ Dropped k s s' := by
  obtain ⟨_, hhw, hfenced⟩ := hs.listed k blk hk
  unfold dropBlock
  split
  · case isTrue h => exact .ok (orphan_dropped hs hk (hs.disjoint.1 (hhw.mp h)).2)
  · split
    · case isTrue h => exact .ok (orphan_dropped hs hk (hs.disjoint.2 (hfenced.mp h)))
    · exact releaseBlock_dropped hs hk

/-- The buffer after its block was saved, if the card has written to it. -/
def Saved (s : State) (blk : Block) (bo bo' : Bo) : Prop :=
  (bo.cardDirty = false ∧ bo' = bo) ∨ ∃ old, bo.cardDirty = true ∧ bo.backingStore = some old ∧
    bo' = { bo with backingStore := some (copyOut blk bo.size old s), cardDirty := false, dirty := true }

theorem saveBlock_ensures (b : BoId) (blk : Block) (s : State) : Ensures (saveBlock b blk s) fun s' =>
    ∃ bo old, s.bo b = some bo ∧ bo.backingStore = some old ∧
      s' = s.setBo b { bo with backingStore := some (copyOut blk bo.size old s), cardDirty := false } := by
  unfold saveBlock
  refine (getBo_ensures b s).bind fun bo hbo => (deref_ensures _).bind fun old hold => .pure ?_
  exact ⟨bo, old, hbo, hold, rfl⟩

theorem setBo_setBo (b : BoId) (bo bo' : Bo) (s : State) : (s.setBo b bo).setBo b bo' = s.setBo b bo' := by
  simp [State.setBo]

theorem setBo_eq_self (hb : s.bo b = some bo) : s.setBo b bo = s := by
  have hupdate : Function.update s.bo b (some bo) = s.bo := by
    rw [← hb]
    exact Function.update_eq_self ..
  rw [State.setBo, hupdate]

/-- `free_block` on the block of an ordinary buffer, in terms of how the block is dropped. -/
theorem freeBlock_drops (hk : s.block k = some blk) (hbo : blk.bo = some b) (hb : s.bo b = some bo) (hflags : bo.flags = {})
    (skip : Bool) {Q : Bo → State → Prop} (hdrop : ∀ bo', Ensures (dropBlock k blk (s.setBo b bo')) (Q bo')) :
    Ensures (freeBlock k skip s) fun s' =>
      ∃ bo', (skip = false → Saved s blk bo bo') ∧ (skip = true → bo' = bo) ∧ Q bo' s' := by
  unfold freeBlock
  refine (getBlock_ensures k s).bind fun blk' hblk' => ?_
  cases hk.symm.trans hblk'
  refine (deref_ensures _).bind fun b' hb' => ?_
  cases hbo.symm.trans hb'
  refine (getBo_ensures b s).bind fun bo₁ hbo₁ => ?_
  cases hb.symm.trans hbo₁
  have hflag : bo.flags.pinned = false ∧ bo.flags.noBackingStore = false := by simp [hflags]
  simp only [hflag.1, hflag.2, Bool.or_false]
  split
  · case isTrue hsave =>
      have hsave : skip = false ∧ bo.cardDirty = true := by simpa using hsave
      refine (saveBlock_ensures b blk s).bind fun s₁ hs₁ => ?_
      obtain ⟨bo₁, old, hbo₁, hold, rfl⟩ := hs₁
      cases hb.symm.trans hbo₁
      refine (modifyBo_ensures b _ _).bind fun s₂ hs₂ => ?_
      obtain ⟨bo₂, hbo₂, rfl⟩ := hs₂
      rw [setBo_self] at hbo₂
      cases hbo₂
      rw [setBo_setBo]
      refine (hdrop _).mono fun s' hs' => ⟨_, fun _ => ?_, ?_, hs'⟩
      · exact .inr ⟨old, hsave.2, hold, rfl⟩
      · intro hskip
        rw [hsave.1] at hskip
        cases hskip
  · case isFalse hsave =>
      have hself := hdrop bo
      rw [setBo_eq_self hb] at hself
      refine hself.mono fun s' hs' => ⟨bo, fun hskip => .inl ⟨?_, rfl⟩, fun _ => rfl, hs'⟩
      simpa [hskip] using hsave

theorem freeBlock_ensures (hs : MemOk s) (hk : s.block k = some blk) (hbo : blk.bo = some b) (hb : s.bo b = some bo)
    (hflags : bo.flags = {}) (skip : Bool) : Ensures (freeBlock k skip s) fun s' =>
    ∃ bo', (skip = false → Saved s blk bo bo') ∧ (skip = true → bo' = bo) ∧
      MemOk s' ∧ Dropped k (s.setBo b bo') s' :=
  freeBlock_drops hk hbo hb hflags skip fun bo' => dropBlock_ensures (hs.setBo b bo') hk

/-- A buffer and its block part. -/
theorem BosOk.detach (hs : BosOk T X s) (hb : s.bo b = some bo) (hk : bo.block = some k) {e : Option Bo}
    (hd : Dropped k { s with bo := Function.update s.bo b e } s')
    (he : ∀ bo', e = some bo' → bo'.block = none ∧ (bo'.flags = bo.flags ∧ bo'.isStatic = bo.isStatic) ∧
      (¬ X b → BoOk s' b bo'))
    (hT : (∀ c, ¬ T c) ∨ (T b → bo.validated = false) ∧
      ∃ bo', e = some bo' ∧ bo'.validated = bo.validated ∧ bo'.offset = bo.offset) : BosOk T X s' := by
  obtain ⟨blk, hblk, howner⟩ := hs.owned b bo k hb hk
  have hbo : ∀ c, c ≠ b → s'.bo c = s.bo c := fun c hc => by
    rw [hd.bo]
    exact Function.update_of_ne hc ..
  have hbob : s'.bo b = e := by
    rw [hd.bo]
    exact Function.update_self ..
  have hother : ∀ c co j, c ≠ b → s.bo c = some co → co.block = some j → j ≠ k := by
    rintro c co j hcb hc hj rfl
    obtain ⟨blk', hblk', hc'⟩ := hs.owned c co j hc hj
    cases hblk.symm.trans hblk'
    exact hcb (Option.some.inj (hc'.symm.trans howner))
  have hholds : ∀ c co, c ≠ b → s.bo c = some co → ∀ i v, s.CardHolds co i v → s'.CardHolds co i v := by
    rintro c co hcb hc i v ⟨j, blkj, hj, hblkj, hv⟩
    have hjk := hother c co j hcb hc hj
    refine ⟨j, blkj, hj, (hd.block j hjk).trans hblkj, ?_⟩
    rw [hd.card, State.ofs, (hd.place j blkj hjk hblkj).1]
    exact hv
  constructor
  · intro c co hc
    by_cases hcb : c = b
    · subst hcb
      rw [hbob] at hc
      rw [(he co hc).2.1.1, (he co hc).2.1.2]
      exact hs.ordinary c bo hb
    · rw [hbo c hcb] at hc
      exact hs.ordinary c co hc
  · intro c co j hc hj
    by_cases hcb : c = b
    · subst hcb
      rw [hbob] at hc
      rw [(he co hc).1] at hj
      cases hj
    · rw [hbo c hcb] at hc
      obtain ⟨blkj, hblkj, hcj⟩ := hs.owned c co j hc hj
      exact ⟨blkj, (hd.block j (hother c co j hcb hc hj)).trans hblkj, hcj⟩
  · intro j blkj c hj hc
    have hjk : j ≠ k := by
      rintro rfl
      rw [hd.orphan blkj hj] at hc
      cases hc
    rw [hd.block j hjk] at hj
    obtain ⟨co, hco, hcoj⟩ := hs.owner j blkj c hj hc
    have hcb : c ≠ b := by
      rintro rfl
      cases hb.symm.trans hco
      exact hjk (Option.some.inj (hcoj.symm.trans hk))
    exact ⟨co, (hbo c hcb).trans hco, hcoj⟩
  · intro c co j blkj hc hfits hj hblkj
    by_cases hcb : c = b
    · subst hcb
      rw [hbob] at hc
      rw [(he co hc).1] at hj
      cases hj
    · rw [hbo c hcb] at hc
      have hjk := hother c co j hcb hc hj
      rw [hd.block j hjk] at hblkj
      rw [(hd.place j blkj hjk hblkj).2]
      exact hs.room c co j blkj hc hfits hj hblkj
  · intro c hc
    rw [hd.freshBo] at hc
    obtain ⟨hnone, hcontent⟩ := hs.freshBo c hc
    have hcb : c ≠ b := by
      rintro rfl
      cases hb.symm.trans hnone
    exact ⟨(hbo c hcb).trans hnone, by rw [hd.content]; exact hcontent⟩
  · intro c co hX hc
    by_cases hcb : c = b
    · subst hcb
      rw [hbob] at hc
      exact (he co hc).2.2 hX
    · rw [hbo c hcb] at hc
      exact (hs.bos c co hX hc).mono (by rw [hd.content]) fun i v _ => hholds c co hcb hc i v
  · intro c co hTc hc hvalid
    rcases hT with hT | ⟨hTb, bo', rfl, hsame, hsameofs⟩
    · exact absurd hTc (hT c)
    by_cases hcb : c = b
    · subst hcb
      rw [hbob] at hc
      cases hc
      rw [hsame, hTb hTc] at hvalid
      cases hvalid
    · rw [hbo c hcb] at hc
      obtain ⟨⟨⟨j, blkj, hj, hblkj, hhw, hofs⟩, hrest⟩, htargets⟩ := hs.placed c co hTc hc hvalid
      have hjk := hother c co j hcb hc hj
      refine ⟨⟨⟨j, blkj, hj, (hd.block j hjk).trans hblkj, hd.hardware j hjk hhw, ?_⟩, hrest⟩, fun r hr => ?_⟩
      · rw [State.ofs, (hd.place j blkj hjk hblkj).1]
        exact hofs
      · obtain ⟨tbo, htbo, htv, hrofs⟩ := htargets r hr
        by_cases htb : r.target = b
        · rw [htb] at htbo
          cases hb.symm.trans htbo
          exact ⟨bo', by rw [htb]; exact hbob, hsame.trans htv, by rw [hsameofs]; exact hrofs⟩
        · exact ⟨tbo, (hbo _ htb).trans htbo, htv, hrofs⟩

/-! ## Eviction -/

/-- A buffer without what an eviction changes. -/
def Bo.still (bo : Bo) : Bo := { bo with dirty := false, cardDirty := false, block := none, backingStore := none }

/-- A buffer is what it was, apart from its copies, and stays dirty if it is. -/
def Lasts : Option Bo → Option Bo → Prop
  | none, none => True
  | some bo, some bo' => bo'.still = bo.still ∧ (bo.dirty = true → bo'.dirty = true)
  | _, _ => False

theorem Lasts.refl (o : Option Bo) : Lasts o o := by
  cases o with
  | none => trivial
  | some bo => exact ⟨rfl, id⟩

theorem Lasts.of_eq {o o' : Option Bo} (h : o' = o) : Lasts o o' := h ▸ .refl o

theorem Lasts.some {o o' : Option Bo} (h : Lasts o o') (hbo : o = .some bo) :
    ∃ bo', o' = .some bo' ∧ bo'.still = bo.still ∧ (bo.dirty = true → bo'.dirty = true) := by
  subst hbo
  cases o' with
  | none => exact h.elim
  | some bo' => exact ⟨bo', rfl, h⟩

theorem Lasts.none {o o' : Option Bo} (h : Lasts o o') (hbo : o = .none) : o' = .none := by
  subst hbo
  cases o' with
  | none => rfl
  | some bo' => exact h.elim

theorem Lasts.trans {o o' o'' : Option Bo} (h : Lasts o o') (h' : Lasts o' o'') : Lasts o o'' := by
  cases ho : o with
  | none => rw [h'.none (h.none ho)]; trivial
  | some bo =>
      obtain ⟨bo', ho', hstill, hdirty⟩ := h.some ho
      obtain ⟨bo'', ho'', hstill', hdirty'⟩ := h'.some ho'
      rw [ho'']
      exact ⟨hstill'.trans hstill, fun hd => hdirty' (hdirty hd)⟩

/-- Blocks may have been taken from buffers, and fences passed. -/
structure Evicted (s s' : State) : Prop where
  lasts : ∀ b, Lasts (s.bo b) (s'.bo b)
  unblocked : ∀ b bo, s.bo b = some bo → bo.block = none → s'.bo b = some bo
  content : s'.content = s.content
  freshBo : s'.freshBo = s.freshBo

theorem Evicted.refl (s : State) : Evicted s s := ⟨fun _ => .refl _, fun _ _ h _ => h, rfl, rfl⟩

theorem Evicted.trans {s'' : State} (h : Evicted s s') (h' : Evicted s' s'') : Evicted s s'' where
  lasts b := (h.lasts b).trans (h'.lasts b)
  unblocked b bo hb hk := h'.unblocked b bo (h.unblocked b bo hb hk) hk
  content := h'.content.trans h.content
  freshBo := h'.freshBo.trans h.freshBo

theorem Relisted.evicted (h : Relisted s s') : Evicted s s' :=
  ⟨fun b => .of_eq (by rw [h.bo]), fun b bo hb _ => by rw [h.bo]; exact hb, h.content, h.freshBo⟩

/-- A buffer that lost its block and is dirty: its backing store is current, by itself or because the block was
    saved. -/
theorem BoOk.detached (h : BoOk s b bo) (hk : bo.block = some k) (hblk : s.block k = some blk) {bo' : Bo}
    (hstill : bo'.still = bo.still ∨ bo'.still = { bo.still with validated := false })
    (hsaved : (bo.cardDirty = false ∧ bo'.backingStore = bo.backingStore) ∨
      bo.cardDirty = true ∧ ∃ old s₁, bo'.backingStore = some (copyOut blk bo.size old s₁) ∧ s₁.card = s.card ∧
        s₁.heap = s.heap)
    (hdirty : bo'.dirty = true) (hblock : bo'.block = none) (hcontent : s'.content b = s.content b) :
    BoOk s' b bo' := by
  have hfields : bo'.alignment = bo.alignment ∧ bo'.size = bo.size ∧ bo'.mapCount = bo.mapCount ∧
      bo'.virtual = bo.virtual := by
    rcases hstill with hstill | hstill
    all_goals
      simp only [Bo.still, Bo.mk.injEq] at hstill
      tauto
  obtain ⟨halign, hsize, hmap, hvirtual⟩ := hfields
  have hbacking : ∀ i v, s.content b i = some v → bo'.BackingHolds i v := by
    intro i v hv
    rcases hsaved with ⟨hclean, hsame⟩ | ⟨hwritten, old, s₁, hcopy, hcard, hheap⟩
    · obtain ⟨f, hf, hfi⟩ := h.backing (.inr hclean) i v hv
      exact ⟨f, hsame.trans hf, hfi⟩
    · have hcurrent : bo.dirty = false := by
        by_contra hd
        have := h.exclusive (by simpa using hd) hwritten
        rw [hk] at this
        cases this
      obtain ⟨k', blk', hk', hblk', hcv⟩ := h.card hcurrent i v hv
      cases hk.symm.trans hk'
      cases hblk.symm.trans hblk'
      refine ⟨_, hcopy, ?_⟩
      rw [copyOut, if_pos (h.bounded i v hv), hcard, State.ofs, hheap]
      exact hcv
  constructor
  · unfold Bo.Fits
    rw [halign, hsize]
    exact h.fits
  · rw [hcontent, hsize]
    exact h.bounded
  · rw [hcontent]
    exact fun _ => hbacking
  · intro hclean
    rw [hdirty] at hclean
    cases hclean
  · exact fun _ _ => hblock
  · exact fun _ _ => hblock
  · rw [hvirtual, hmap]
    exact h.virtual

theorem setDirty_ensures (b : BoId) (s : State) : Ensures (setDirty b s) fun s' =>
    ∃ bo, s.bo b = some bo ∧ s' = s.setBo b { bo with dirty := true } := by
  unfold setDirty
  refine (getBo_ensures b s).bind fun bo hbo => Ensures.bind_any fun _ => .pure ?_
  exact ⟨bo, hbo, rfl⟩

theorem setBo_eq (b : BoId) (bo : Bo) (s : State) : s.setBo b bo = { s with bo := Function.update s.bo b (some bo) } := rfl

/-- A block that is not on the hardware is taken from its buffer. -/
theorem evictBlock_ensures (hs : Inv T X s) (hk : s.block k = some blk) (hbo : blk.bo = some b)
    (hlru : k ∈ s.lru) : Ensures (evictBlock k b s) fun s' => Inv T X s' ∧ Evicted s s' := by
  obtain ⟨bo, hb, hbk⟩ := hs.owner k blk b hk hbo
  have hT : T b → bo.validated = false := by
    intro hTb
    by_contra hvalid
    obtain ⟨⟨⟨j, blkj, hj, _, hhw, _⟩, _⟩, _⟩ := hs.placed b bo hTb hb (by simpa using hvalid)
    cases hbk.symm.trans hj
    exact (hs.disjoint.1 hhw).2 hlru
  unfold evictBlock
  refine (setDirty_ensures b s).bind fun s₁ hs₁ => ?_
  obtain ⟨bo₁, hbo₁, rfl⟩ := hs₁
  cases hb.symm.trans hbo₁
  refine (modifyBo_ensures b _ _).bind fun s₂ hs₂ => ?_
  obtain ⟨bo₂, hbo₂, rfl⟩ := hs₂
  rw [setBo_self] at hbo₂
  cases hbo₂
  rw [setBo_setBo]
  refine (freeBlock_ensures (hs.toMemOk.setBo b _) hk hbo (setBo_self ..) (by exact (hs.ordinary b bo hb).1) false).mono ?_
  rintro s' ⟨bo', hsaved, _, hmem, hdrop⟩
  rw [setBo_setBo] at hdrop
  have hcontent : s'.content = s.content := hdrop.content
  have hbo' : bo'.still = bo.still ∧ bo'.dirty = true ∧ bo'.block = none ∧ bo'.validated = bo.validated ∧
      bo'.offset = bo.offset ∧ (bo'.flags = bo.flags ∧ bo'.isStatic = bo.isStatic) ∧ ((bo.cardDirty = false ∧ bo'.backingStore = bo.backingStore) ∨
        bo.cardDirty = true ∧ ∃ old s₁, bo'.backingStore = some (copyOut blk bo.size old s₁) ∧ s₁.card = s.card ∧
          s₁.heap = s.heap) := by
    rcases hsaved rfl with ⟨hclean, rfl⟩ | ⟨old, hwritten, _, rfl⟩
    · exact ⟨rfl, rfl, rfl, rfl, rfl, ⟨rfl, rfl⟩, .inl ⟨hclean, rfl⟩⟩
    · exact ⟨rfl, rfl, rfl, rfl, rfl, ⟨rfl, rfl⟩, .inr ⟨hwritten, old, _, rfl, rfl, rfl⟩⟩
  obtain ⟨hstill, hdirty, hblock, hvalid, hofs, hsame, hback⟩ := hbo'
  refine ⟨⟨hmem, hs.toBosOk.detach hb hbk hdrop ?_ (.inr ⟨hT, bo', rfl, hvalid, hofs⟩)⟩, ?_⟩
  · rintro _ ⟨⟩
    refine ⟨hblock, hsame, fun hX => ?_⟩
    exact (hs.bos b bo hX hb).detached hbk hk (.inl hstill) hback hdirty hblock (by rw [hcontent])
  · refine ⟨fun c => ?_, fun c co hc hco => ?_, hcontent, hdrop.freshBo⟩
    · rw [hdrop.bo]
      by_cases hcb : c = b
      · subst hcb
        rw [setBo_self, hb]
        exact ⟨hstill, fun _ => hdirty⟩
      · rw [setBo_of_ne hcb]
        exact .refl _
    · have hcb : c ≠ b := by
        rintro rfl
        cases hb.symm.trans hc
        rw [hbk] at hco
        cases hco
      rw [hdrop.bo, setBo_of_ne hcb]
      exact hc

end LibDrm.Fake
