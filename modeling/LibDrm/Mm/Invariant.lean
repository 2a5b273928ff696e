/-
# `LibDrm.Mm.Invariant` — the blocks tile the range of the heap

`Inv heap lo hi bs m` says that the blocks `bs` stand on the list of the heap
in this order and tile `[lo, hi)`, and that the free ones are on the free list,
each once.  Splitting a block and joining two keep it (`breakBlock_spec`,
`join2Blocks_spec`); in between two neighbours may both be free, so that no two
are (`Spaced`) is a property of its own, which a whole call restores
(`mmAllocMem_spec`, `mmFreeMem_spec`).

A call can only fail by an overflow: no assertion fails, no bad pointer is
followed and the search ends (`heap_invariant`).
-/
import LibDrm.Mm.Heap
import LibDrm.Lib.Tiling
import LibDrm.Lib.Returns
import LibDrm.Lib.Arith
import Mathlib.Data.List.Chain
import Mathlib.Data.List.Range

namespace LibDrm.Mm

open DList (IsList)
open Tiling

/-! ## Overflow is the only fault -/

/-- The call ends as `Q` says, or in an overflow. -/
abbrev Safe {α : Type} (x : Except Fault α) (Q : α → Prop) : Prop := Within (· = Fault.overflow) x Q

theorem int_safe (x : Int) : Safe (int x) (· = x) := by
  unfold int
  split
  · exact .ok rfl
  · exact .error rfl

/-- What the operation returns is an `int`. -/
theorem int_lt (x : Int) : Safe (int x) fun y => y = x ∧ x < 2 ^ 31 := by
  unfold int
  split
  · next h => exact .ok ⟨rfl, h.2⟩
  · exact .error rfl

/-- The ends of the range and the differences in it are `int`s. -/
def Narrow (lo hi : Int) : Prop := -2 ^ 31 ≤ lo ∧ hi < 2 ^ 31 ∧ hi - lo < 2 ^ 31

/-- The call ends as `Q` says, or in an overflow, but not in a range that is narrow. -/
abbrev SafeIn (lo hi : Int) {α : Type} (x : Except Fault α) (Q : α → Prop) : Prop :=
  Within (fun e => e = Fault.overflow ∧ ¬ Narrow lo hi) x Q

theorem int_in {lo hi x : Int} (h : Narrow lo hi → -2 ^ 31 ≤ x ∧ x < 2 ^ 31) : SafeIn lo hi (int x) (· = x) := by
  unfold int
  split
  · exact .ok rfl
  · next hx => exact .error ⟨rfl, fun hn => hx (h hn)⟩

@[simp] theorem deref_some {α : Type} (a : α) : deref (some a) = .ok a := rfl

@[simp] theorem ok_bind {α β : Type} (a : α) (f : α → Except Fault β) : (Except.ok a >>= f) = f a := rfl

/-! ## The invariant -/

/-- The heap with the blocks `bs` in order. -/
structure Inv (heap : BlockId) (lo hi : Int) (bs : List BlockId) (m : Memory) : Prop where
  list : IsList m.list heap bs
  freeList : ∃ fs, IsList m.freeList heap fs ∧ ∀ b, b ∈ fs ↔ b ∈ bs ∧ m.free b = true
  tiles : Tiles m.ofs m.size lo bs hi
  heapUsed : m.free heap = false
  owner : ∀ b ∈ bs, (m.block b).heap = some heap
  unreserved : ∀ b ∈ bs, (m.block b).reserved = false
  sameNodes : ∀ b, (m.freeList b).isSome = (m.list b).isSome
  known : ∀ b, (m.list b).isSome → b < m.fresh

/-- Of two blocks that follow one another, one is in use; a block in use is a `false`. -/
def Spaced (l : List Bool) : Prop := l.IsChain fun a b => ¬ (a = true ∧ b = true)

variable {heap p : BlockId} {lo hi : Int} {bs l₁ l₂ : List BlockId} {m : Memory}

namespace Inv

theorem get (h : Inv heap lo hi bs m) {b : BlockId} (hb : b ∈ heap :: bs) : m.get b = .ok (m.block b) := by
  simp [Memory.get, h.list.alloc hb]

theorem fresh_notMem (h : Inv heap lo hi bs m) : m.fresh ∉ heap :: bs := fun hmem =>
  absurd (h.known _ (h.list.alloc hmem)) (lt_irrefl _)

theorem length_le (h : Inv heap lo hi bs m) {fs : List BlockId} (hfs : IsList m.freeList heap fs) :
    fs.length ≤ m.fresh := by
  have hsub : fs ⊆ List.range m.fresh := fun b hb => by
    refine List.mem_range.mpr (h.known b ?_)
    rw [← h.sameNodes b]
    exact hfs.alloc (List.mem_cons_of_mem _ hb)
  have hle := (List.subperm_of_subset hfs.nodup hsub).length_le
  rwa [List.length_range] at hle

/-- The blocks are in use or on the free list, and never both. -/
theorem mem_freeList (h : Inv heap lo hi bs m) {fs : List BlockId} (hfs : IsList m.freeList heap fs) {b : BlockId} :
    b ∈ fs ↔ b ∈ bs ∧ m.free b = true := by
  obtain ⟨fs', hfs', hmem⟩ := h.freeList
  rw [hfs.unique hfs']
  exact hmem b

end Inv

/-! ## Splitting a block -/

/-- The end of the free block `p` becomes a block of its own. -/
theorem breakBlock_spec (h : Inv heap lo hi (l₁ ++ p :: l₂) m) (hfree : m.free p = true) {ofs size rest : Int}
    (hofs : ofs = m.ofs p + rest) (hsum : rest + size = m.size p) (hrest : 0 < rest) (hsize : 0 < size) :
    Returns (breakBlock p ofs size rest m) fun r =>
      Inv heap lo hi (l₁ ++ p :: r.1 :: l₂) r.2 ∧ r.1 ∉ l₁ ++ p :: l₂
      ∧ r.2.block r.1 = { heap := some heap, ofs := ofs, size := size, free := true }
      ∧ r.2.block p = { m.block p with size := rest }
      ∧ ∀ b ∈ heap :: (l₁ ++ p :: l₂), b ≠ p → r.2.block b = m.block b := by
  have hmem : p ∈ l₁ ++ p :: l₂ := by simp
  have hfresh := h.fresh_notMem
  have hnew : m.fresh ∉ l₁ ++ p :: l₂ := fun hb => hfresh (List.mem_cons_of_mem _ hb)
  have hpn : m.fresh ≠ p := fun e => hnew (e ▸ hmem)
  have hown := h.owner p hmem
  obtain ⟨fs, hfs, hfmem⟩ := h.freeList
  obtain ⟨f₁, f₂, rfl⟩ := List.append_of_mem ((hfmem p).mpr ⟨hmem, hfree⟩)
  have hnewf : m.fresh ∉ heap :: (f₁ ++ p :: f₂) := by
    intro hb
    rcases List.mem_cons.mp hb with hb | hb
    · exact hfresh (by simp [hb])
    · exact hnew ((hfmem _).mp hb).1
  -- the new block is allocated before it is linked in
  have hlist : IsList (DList.calloc m.list m.fresh) heap (l₁ ++ p :: l₂) := h.list.congr fun y hy => by
    simp [DList.calloc, ne_of_mem_of_not_mem hy hfresh]
  have hflist : IsList (DList.calloc m.freeList m.fresh) heap (f₁ ++ p :: f₂) := hfs.congr fun y hy => by
    simp [DList.calloc, ne_of_mem_of_not_mem hy hnewf]
  obtain ⟨list, hrun, hlist', halloc, -⟩ := hlist.insertAfter hfresh (by simp [DList.calloc])
  obtain ⟨freeList, hrunf, hflist', hallocf, -⟩ := hflist.insertAfter hnewf (by simp [DList.calloc])
  let m' : Memory := Memory.modify p (fun b => { b with size := rest })
    ⟨list, freeList, Function.update m.block m.fresh { heap := some heap, ofs := ofs, size := size, free := true },
      m.fresh + 1⟩
  have hres : breakBlock p ofs size rest m = .ok (m.fresh, m') := by
    simp only [breakBlock, h.get (List.mem_cons_of_mem _ hmem), ok_bind, Memory.calloc, hrun, hrunf, deref_some, hown]
    rfl
  have hblock_new : m'.block m.fresh = { heap := some heap, ofs := ofs, size := size, free := true } := by
    simp [m', Memory.modify, hpn]
  have hblock_p : m'.block p = { m.block p with size := rest } := by
    simp [m', Memory.modify, hpn.symm]
  have hblock : ∀ b ∈ heap :: (l₁ ++ p :: l₂), b ≠ p → m'.block b = m.block b := by
    intro b hb hbp
    have hbn : b ≠ m.fresh := fun e => hfresh (e ▸ hb)
    simp [m', Memory.modify, hbp, hbn]
  have hfields : ∀ b ∈ l₁ ++ p :: l₂, m'.free b = m.free b ∧ m'.ofs b = m.ofs b
      ∧ (m'.block b).heap = (m.block b).heap ∧ (m'.block b).reserved = (m.block b).reserved := by
    intro b hb
    by_cases hbp : b = p
    · subst hbp
      simp [Memory.free, Memory.ofs, hblock_p]
    · simp [Memory.free, Memory.ofs, hblock b (List.mem_cons_of_mem _ hb) hbp]
  have hsplit : ∀ b, b ∈ l₁ ++ p :: m.fresh :: l₂ ↔ b = m.fresh ∨ b ∈ l₁ ++ p :: l₂ := by
    intro b
    simp only [List.mem_append, List.mem_cons]
    tauto
  refine ⟨_, hres, ⟨hlist', ⟨_, hflist', ?_⟩, ?_, ?_, ?_, ?_, ?_, ?_⟩, hnew, hblock_new, hblock_p, hblock⟩
  · intro b
    rw [hsplit, show b ∈ f₁ ++ p :: m.fresh :: f₂ ↔ b = m.fresh ∨ b ∈ f₁ ++ p :: f₂ by
      simp only [List.mem_append, List.mem_cons]; tauto]
    by_cases hb : b = m.fresh
    · simp [hb, Memory.free, hblock_new]
    · simp only [hb, false_or, hfmem]
      exact and_congr_right fun hmem => by rw [(hfields b hmem).1]
  · have hne : ∀ b ∈ l₁ ++ l₂, b ≠ p := by
      have hnd := List.nodup_middle.mp h.list.nodup
      exact fun b hb => ne_of_mem_of_not_mem hb (List.nodup_cons.mp hnd).1
    have hin : ∀ b ∈ l₁ ++ l₂, b ∈ l₁ ++ p :: l₂ := fun b hb => by
      rcases List.mem_append.mp hb with hb | hb <;> simp [hb]
    show Tiles m'.ofs m'.size lo (l₁ ++ ([p, m.fresh] ++ l₂)) hi
    refine h.tiles.replace (k := [p]) ?_ ?_ ?_
    · exact fun b hb => (hfields b (hin b hb)).2.1
    · exact fun b hb => by simp [Memory.size, hblock b (List.mem_cons_of_mem _ (hin b hb)) (hne b hb)]
    · rintro a c ⟨ha, -, hc⟩
      simp only [Tiles, Memory.ofs, Memory.size, hblock_p, hblock_new] at ha hc hsum hofs ⊢
      omega
  · have hhp : heap ≠ p := fun e => h.list.head_notMem (e ▸ hmem)
    simpa [Memory.free, hblock heap (List.mem_cons_self ..) hhp] using h.heapUsed
  · intro b hb
    rcases (hsplit b).mp hb with rfl | hb
    · rw [hblock_new]
    · rw [(hfields b hb).2.2.1]; exact h.owner b hb
  · intro b hb
    rcases (hsplit b).mp hb with rfl | hb
    · rw [hblock_new]
    · rw [(hfields b hb).2.2.2]; exact h.unreserved b hb
  · intro b
    show (freeList b).isSome = (list b).isSome
    rw [halloc, hallocf]
    by_cases hb : b = m.fresh
    · simp [DList.calloc, hb]
    · simpa [DList.calloc, hb] using h.sameNodes b
  · intro b hb
    show b < m.fresh + 1
    replace hb : (list b).isSome := hb
    rw [halloc] at hb
    by_cases hbn : b = m.fresh
    · exact hbn ▸ Nat.lt_succ_self _
    · exact Nat.lt_succ_of_lt (h.known b (by simpa [DList.calloc, hbn] using hb))

/-! ## Cutting a block out of a free one -/

/-- The free blocks `k` stand where a free block stood; which of the others are free is as before. -/
structure Cut (heap : BlockId) (lo hi : Int) (l₁ k l₂ : List BlockId) (m m' : Memory) : Prop where
  inv : Inv heap lo hi (l₁ ++ (k ++ l₂)) m'
  free : ∀ b ∈ k, m'.free b = true
  others : ∀ b ∈ l₁ ++ l₂, m'.free b = m.free b

theorem Cut.refl (h : Inv heap lo hi (l₁ ++ p :: l₂) m) (hfree : m.free p = true) :
    Cut heap lo hi l₁ [p] l₂ m m :=
  ⟨h, fun _ hb => List.mem_singleton.mp hb ▸ hfree, fun _ _ => rfl⟩

theorem mem_of_sides {b : BlockId} (hb : b ∈ l₁ ++ l₂) : b ∈ l₁ ++ p :: l₂ := by
  rcases List.mem_append.mp hb with hb | hb <;> simp [hb]

theorem breakBlock_cut (h : Inv heap lo hi (l₁ ++ p :: l₂) m) (hfree : m.free p = true) {ofs size rest : Int}
    (hofs : ofs = m.ofs p + rest) (hsum : rest + size = m.size p) (hrest : 0 < rest) (hsize : 0 < size) :
    Returns (breakBlock p ofs size rest m) fun r => Cut heap lo hi l₁ [p, r.1] l₂ m r.2
      ∧ r.2.ofs p = m.ofs p ∧ r.2.size p = rest ∧ r.2.ofs r.1 = ofs ∧ r.2.size r.1 = size := by
  refine (breakBlock_spec h hfree hofs hsum hrest hsize).mono ?_
  rintro r ⟨hinv, -, hq, hp, hblock⟩
  have hne : ∀ b ∈ l₁ ++ l₂, b ≠ p := fun b hb =>
    ne_of_mem_of_not_mem hb (List.nodup_cons.mp (List.nodup_middle.mp h.list.nodup)).1
  refine ⟨⟨hinv, ?_, fun b hb => ?_⟩, ?_⟩
  · have hpfree : (m.block p).free = true := hfree
    simp [Memory.free, hq, hp, hpfree]
  · simp only [Memory.free, hblock b (List.mem_cons_of_mem _ (mem_of_sides hb)) (hne b hb)]
  · simp [Memory.ofs, Memory.size, hq, hp]

/-- The left split: there is no memory for it, or the block `q` is left to cut from, `p` itself or a new one. -/
theorem breakLeft_spec (h : Inv heap lo hi (l₁ ++ p :: l₂) m) (hfree : m.free p = true) (callocOk : Bool)
    {startofs : Int} (h₁ : m.ofs p ≤ startofs) (h₂ : startofs < m.ofs p + m.size p) :
    Safe (breakLeft callocOk p startofs m) fun r =>
      (callocOk = false ∧ m.ofs p < startofs ∧ r = (none, m))
      ∨ ∃ q L, r.1 = some q
        ∧ (L = [] ∧ q = p ∧ r.2 = m ∧ m.ofs p = startofs ∨ L = [p] ∧ callocOk = true ∧ m.ofs p < startofs)
        ∧ Cut heap lo hi l₁ (L ++ [q]) l₂ m r.2
        ∧ r.2.ofs q = startofs ∧ startofs + r.2.size q = m.ofs p + m.size p := by
  have hmem : p ∈ l₁ ++ p :: l₂ := by simp
  simp only [breakLeft, h.get (List.mem_cons_of_mem _ hmem), ok_bind]
  split
  case isTrue hlt =>
    cases callocOk with
    | false => exact .pure (.inl ⟨rfl, hlt, rfl⟩)
    | true =>
        refine (int_safe _).bind fun before hb => (int_safe _).bind fun size hs => (int_safe _).bind fun rest hr => ?_
        simp only [Memory.ofs, Memory.size] at h₁ h₂
        have hofs : startofs = m.ofs p + rest := by simp only [Memory.ofs]; omega
        have hsum : rest + size = m.size p := by simp only [Memory.size]; omega
        refine (Within.of_returns (breakBlock_cut h hfree hofs hsum (by omega) (by omega))).bind ?_
        rintro ⟨q, m'⟩ ⟨hcut, -, -, hofs', hsize'⟩
        refine .pure (.inr ⟨q, [p], rfl, .inr ⟨rfl, rfl, hlt⟩, hcut, hofs', ?_⟩)
        simp only at hsize' ⊢
        omega
  case isFalse hge =>
    have hofs : m.ofs p = startofs := by simp only [Memory.ofs] at h₁ ⊢; omega
    exact .pure (.inr ⟨p, [], rfl, .inl ⟨rfl, rfl, rfl, hofs⟩, .refl h hfree, hofs, by rw [hofs]⟩)

/-- The right split: there is no memory for it, or the rest is cut off. -/
theorem breakRight_spec (h : Inv heap lo hi (l₁ ++ p :: l₂) m) (hfree : m.free p = true) (callocOk : Bool)
    {startofs size : Int} (hofs : m.ofs p = startofs) (h₀ : 0 < size) (h₁ : size ≤ m.size p) :
    Safe (breakRight callocOk p startofs size m) fun r =>
      (callocOk = false ∧ size < m.size p ∧ r = (false, m))
      ∨ ∃ R, r.1 = true ∧ R.length ≤ 1
        ∧ Cut heap lo hi l₁ (p :: R) l₂ m r.2 ∧ r.2.ofs p = startofs ∧ r.2.size p = size := by
  have hmem : p ∈ l₁ ++ p :: l₂ := by simp
  simp only [breakRight, h.get (List.mem_cons_of_mem _ hmem), ok_bind]
  split
  case isTrue hlt =>
    cases callocOk with
    | false => exact .pure (.inl ⟨rfl, hlt, rfl⟩)
    | true =>
        refine (int_safe _).bind fun ofs ho => (int_safe _).bind fun after ha => ?_
        have hsum : size + after = m.size p := by simp only [Memory.size]; omega
        refine (Within.of_returns (breakBlock_cut h hfree (by omega) hsum h₀ (by omega))).bind ?_
        rintro ⟨q, m'⟩ ⟨hcut, hofs', hsize', -, -⟩
        exact .pure (.inr ⟨[q], rfl, le_refl _, hcut, hofs'.trans hofs, hsize'⟩)
  case isFalse hge =>
    refine .pure (.inr ⟨[], rfl, by simp, .refl h hfree, hofs, ?_⟩)
    simp only [Memory.size] at h₁ ⊢
    omega

/-- The block `p` leaves the free list. -/
theorem takeBlock_spec (h : Inv heap lo hi (l₁ ++ p :: l₂) m) (hfree : m.free p = true) :
    Returns (takeBlock p false m) fun m' => Inv heap lo hi (l₁ ++ p :: l₂) m'
      ∧ m'.free = Function.update m.free p false ∧ m'.ofs = m.ofs ∧ m'.size = m.size := by
  have hmem : p ∈ l₁ ++ p :: l₂ := by simp
  obtain ⟨fs, hfs, hfmem⟩ := h.freeList
  obtain ⟨f₁, f₂, rfl⟩ := List.append_of_mem ((hfmem p).mpr ⟨hmem, hfree⟩)
  have hpf : p ∉ f₁ ++ f₂ := (List.nodup_cons.mp (List.nodup_middle.mp hfs.nodup)).1
  obtain ⟨g₁, hrun₁, hg₁, ha₁, -⟩ := hfs.unlink
  have hp₁ : (g₁ p).isSome := by rw [ha₁]; exact hfs.alloc (by simp)
  obtain ⟨g₂, hrun₂, -, -, ha₂, hf₂⟩ := DList.setNext_ok hp₁ none
  obtain ⟨g₃, hrun₃, -, -, ha₃, hf₃⟩ := DList.setPrev_ok (m := g₂) (x := p) (by rw [ha₂]; exact hp₁) none
  let m' : Memory := Memory.modify p (fun b => { b with free := false, reserved := false }) { m with freeList := g₃ }
  have hres : takeBlock p false m = .ok m' := by
    simp only [takeBlock, hrun₁, hrun₂, hrun₃, deref_some, ok_bind]
    rfl
  have hfree' : m'.free = Function.update m.free p false := by
    funext b
    by_cases hb : b = p
    · simp [m', Memory.free, Memory.modify, hb]
    · simp [m', Memory.free, Memory.modify, hb]
  have hofs' : m'.ofs = m.ofs := by
    funext b
    by_cases hb : b = p <;> simp [m', Memory.ofs, Memory.modify, hb]
  have hsize' : m'.size = m.size := by
    funext b
    by_cases hb : b = p <;> simp [m', Memory.size, Memory.modify, hb]
  refine ⟨m', hres, ⟨h.list, ⟨f₁ ++ f₂, ?_, ?_⟩, ?_, ?_, ?_, ?_, ?_, h.known⟩, hfree', hofs', hsize'⟩
  · refine hg₁.congr fun y hy => ?_
    have hyp : y ≠ p := by
      rcases List.mem_cons.mp hy with rfl | hy
      · exact fun e => h.list.head_notMem (e ▸ hmem)
      · exact ne_of_mem_of_not_mem hy hpf
    exact (hf₃ y hyp).trans (hf₂ y hyp)
  · intro b
    rw [hfree']
    by_cases hb : b = p
    · simp [hb, hpf]
    · have := hfmem b
      simp only [List.mem_append, List.mem_cons, hb, false_or] at this
      simp [hb, this]
  · rw [hofs', hsize']; exact h.tiles
  · have hhp : heap ≠ p := fun e => h.list.head_notMem (e ▸ hmem)
    rw [hfree', Function.update_of_ne hhp]
    exact h.heapUsed
  · intro b hb
    have := h.owner b hb
    by_cases hbp : b = p
    · subst hbp; simpa [m', Memory.modify] using this
    · simpa [m', Memory.modify, hbp] using this
  · intro b hb
    have := h.unreserved b hb
    by_cases hbp : b = p
    · simp [m', Memory.modify, hbp]
    · simpa [m', Memory.modify, hbp] using this
  · intro b
    show (g₃ b).isSome = _
    rw [ha₃, ha₂, ha₁]
    exact h.sameNodes b

/-- A block of the list that is in use. -/
def InUse (bs : List BlockId) (m : Memory) (b : BlockId) : Prop := b ∈ bs ∧ m.free b = false

theorem spaced_used_left {A B : List Bool} {x : Bool} (h : Spaced (A ++ x :: B)) : Spaced (A ++ [false]) := by
  refine List.IsChain.append (List.IsChain.left_of_append h) (List.IsChain.singleton _) ?_
  intro a _ b hb
  simp at hb
  simp [← hb]

/-- A free piece is cut in up to three, the one in the middle is taken. -/
theorem spaced_cut {A B L R : List Bool} (h : Spaced (A ++ true :: B)) (hL : L = [] ∨ L = [true])
    (hR : R = [] ∨ R = [true]) : Spaced (A ++ (L ++ false :: (R ++ B))) := by
  obtain ⟨hA, hB⟩ := List.isChain_split.mp h
  have hright : Spaced (false :: (R ++ B)) := by
    rcases hR with rfl | rfl
    · exact List.isChain_cons.mpr ⟨by simp, (List.isChain_cons.mp hB).2⟩
    · exact List.isChain_cons.mpr ⟨by simp, hB⟩
  rcases hL with rfl | rfl
  · exact List.isChain_split.mpr ⟨spaced_used_left h, hright⟩
  · exact List.isChain_split.mpr ⟨hA, List.isChain_cons.mpr ⟨by simp, hright⟩⟩

theorem map_of_length_le {k : List BlockId} {f : BlockId → Bool} (hk : k.length ≤ 1) (hf : ∀ b ∈ k, f b = true) :
    k.map f = [] ∨ k.map f = [true] := by
  match k with
  | [] => exact .inl rfl
  | [b] => exact .inr (by simp [hf b (by simp)])
  | _ :: _ :: _ => simp at hk

/-- The ends of `SliceBlock`, which cuts `[startofs, startofs + size)` out of the free block `p`. -/
inductive Sliced (heap : BlockId) (lo hi : Int) (l₁ : List BlockId) (p : BlockId) (l₂ : List BlockId) (m : Memory)
    (r : CallocReply) (startofs size : Int) : Option BlockId × Memory → Prop
  /-- there is no memory for the first split -/
  | noMemory : r.left = false ∨ r.right = false → ¬ (r.left = true ∧ m.ofs p < startofs) →
      Sliced heap lo hi l₁ p l₂ m r startofs size (none, m)
  /-- the left split is made when there is no memory for the right one -/
  | torn {q : BlockId} {m' : Memory} : r.left = true → r.right = false → m.ofs p < startofs →
      startofs + size < m.ofs p + m.size p → Inv heap lo hi (l₁ ++ p :: q :: l₂) m' →
      (∀ b, InUse (l₁ ++ p :: q :: l₂) m' b ↔ InUse (l₁ ++ p :: l₂) m b) →
      Sliced heap lo hi l₁ p l₂ m r startofs size (none, m')
  | block {q : BlockId} {bs : List BlockId} {m' : Memory} : Inv heap lo hi bs m' →
      (Spaced ((l₁ ++ p :: l₂).map m.free) → Spaced (bs.map m'.free)) → m'.ofs q = startofs → m'.size q = size →
      ¬ InUse (l₁ ++ p :: l₂) m q → (∀ b, InUse bs m' b ↔ b = q ∨ InUse (l₁ ++ p :: l₂) m b) →
      Sliced heap lo hi l₁ p l₂ m r startofs size (some q, m')

/-- Free blocks that stand where a free block stood leave the blocks in use as they were. -/
theorem Cut.inUse {k : List BlockId} {m' : Memory} (h : Cut heap lo hi l₁ k l₂ m m') (hfree : m.free p = true)
    (b : BlockId) : InUse (l₁ ++ (k ++ l₂)) m' b ↔ InUse (l₁ ++ p :: l₂) m b := by
  constructor
  · rintro ⟨hb, hused⟩
    have hbk : b ∉ k := fun hbk => by rw [h.free b hbk] at hused; cases hused
    have hside : b ∈ l₁ ++ l₂ := by
      simp only [List.mem_append, hbk, false_or] at hb ⊢
      exact hb
    exact ⟨mem_of_sides hside, h.others b hside ▸ hused⟩
  · rintro ⟨hb, hused⟩
    have hbp : b ≠ p := by
      rintro rfl
      rw [hfree] at hused
      cases hused
    have hside : b ∈ l₁ ++ l₂ := by
      simp only [List.mem_append, List.mem_cons, hbp, false_or] at hb ⊢
      exact hb
    refine ⟨?_, (h.others b hside).trans hused⟩
    simp only [List.mem_append] at hside ⊢
    tauto

theorem sliceBlock_spec (h : Inv heap lo hi (l₁ ++ p :: l₂) m) (hfree : m.free p = true) (r : CallocReply)
    {startofs size : Int} (h₀ : 0 < size) (h₁ : m.ofs p ≤ startofs) (h₂ : startofs + size ≤ m.ofs p + m.size p) :
    Safe (sliceBlock r p startofs size false m) (Sliced heap lo hi l₁ p l₂ m r startofs size) := by
  refine (breakLeft_spec h hfree r.left h₁ (by omega)).bind ?_
  rintro ⟨left, m₁⟩ (⟨hleft, -, hres⟩ | ⟨q, L, hq, hL, hcut₁, hofs₁, hend₁⟩)
  · cases hres
    exact .pure (.noMemory (.inl hleft) fun ht => by rw [hleft] at ht; exact absurd ht.1 (by decide))
  replace hq : left = some q := hq
  subst hq
  replace hend₁ : startofs + m₁.size q = m.ofs p + m.size p := hend₁
  have hq₁ : m₁.free q = true := hcut₁.free q (by simp)
  have hinv₁ : Inv heap lo hi ((l₁ ++ L) ++ q :: l₂) m₁ := by simpa using hcut₁.inv
  refine (breakRight_spec hinv₁ hq₁ r.right hofs₁ h₀ (by omega)).bind ?_
  rintro ⟨done, m₂⟩ (⟨hright, hlt, hres⟩ | ⟨R, hdone, hR, hcut₂, hofs₂, hsize₂⟩)
  · cases hres
    rcases hL with ⟨rfl, rfl, hm, hofs⟩ | ⟨rfl, hleft, hofs⟩
    · cases hm
      exact .pure (.noMemory (.inr hright) fun ht => absurd ht.2 (by omega))
    · have hinv : Inv heap lo hi (l₁ ++ p :: q :: l₂) m₁ := by simpa using hinv₁
      refine .pure (.torn hleft hright hofs (by omega) hinv fun b => ?_)
      exact hcut₁.inUse hfree b
  replace hdone : done = true := hdone
  subst hdone
  have hq₂ : m₂.free q = true := hcut₂.free q (by simp)
  have hinv₂ : Inv heap lo hi ((l₁ ++ L) ++ q :: (R ++ l₂)) m₂ := by simpa using hcut₂.inv
  refine (Within.of_returns (takeBlock_spec hinv₂ hq₂)).bind ?_
  rintro m₃ ⟨hinv₃, hfree₃, hofs₃, hsize₃⟩
  have hqnd : q ∉ (l₁ ++ L) ++ (R ++ l₂) := (List.nodup_cons.mp (List.nodup_middle.mp hinv₃.list.nodup)).1
  -- what is free at the end
  have hold : ∀ b ∈ l₁ ++ l₂, m₃.free b = m.free b := by
    intro b hb
    have hbq : b ≠ q := by
      refine ne_of_mem_of_not_mem ?_ hqnd
      rcases List.mem_append.mp hb with hb | hb <;> simp [hb]
    rw [hfree₃, Function.update_of_ne hbq, hcut₂.others b, hcut₁.others b hb]
    rcases List.mem_append.mp hb with hb | hb <;> simp [hb]
  have hfreeL : ∀ b ∈ L, m₃.free b = true := by
    intro b hb
    rw [hfree₃, Function.update_of_ne (ne_of_mem_of_not_mem (by simp [hb]) hqnd), hcut₂.others b (by simp [hb])]
    exact hcut₁.free b (by simp [hb])
  have hfreeR : ∀ b ∈ R, m₃.free b = true := by
    intro b hb
    rw [hfree₃, Function.update_of_ne (ne_of_mem_of_not_mem (by simp [hb]) hqnd)]
    exact hcut₂.free b (by simp [hb])
  have hqfree : m₃.free q = false := by rw [hfree₃]; exact Function.update_self ..
  have hLlen : L.length ≤ 1 := by rcases hL with ⟨rfl, -⟩ | ⟨rfl, -⟩ <;> simp
  refine .pure (.block hinv₃ (fun hsp => ?_) (by rw [hofs₃]; exact hofs₂) (by rw [hsize₃]; exact hsize₂) ?_ ?_)
  · have hmap₁ : l₁.map m₃.free = l₁.map m.free := List.map_congr_left fun b hb => hold b (by simp [hb])
    have hmap₂ : l₂.map m₃.free = l₂.map m.free := List.map_congr_left fun b hb => hold b (by simp [hb])
    have hcut := spaced_cut (A := l₁.map m.free) (B := l₂.map m.free) (by simpa [hfree] using hsp)
      (map_of_length_le hLlen hfreeL) (map_of_length_le hR hfreeR)
    simpa [hmap₁, hmap₂, hqfree] using hcut
  · rintro ⟨hmem, hused⟩
    rcases List.mem_append.mp hmem with hmem | hmem
    · exact hqnd (by simp [hmem])
    · rcases List.mem_cons.mp hmem with rfl | hmem
      · rw [hfree] at hused; cases hused
      · exact hqnd (by simp [hmem])
  · intro b
    constructor
    · rintro ⟨hb, hused⟩
      simp only [List.mem_append, List.mem_cons] at hb
      rcases hb with (hb | hb) | rfl | hb | hb
      · exact .inr ⟨by simp [hb], by rw [← hold b (by simp [hb])]; exact hused⟩
      · rw [hfreeL b hb] at hused; cases hused
      · exact .inl rfl
      · rw [hfreeR b hb] at hused; cases hused
      · exact .inr ⟨by simp [hb], by rw [← hold b (by simp [hb])]; exact hused⟩
    · rintro (rfl | ⟨hb, hused⟩)
      · exact ⟨by simp, hqfree⟩
      · simp only [List.mem_append, List.mem_cons] at hb
        rcases hb with hb | rfl | hb
        · exact ⟨by simp [hb], by rw [hold b (by simp [hb])]; exact hused⟩
        · rw [hfree] at hused; cases hused
        · exact ⟨by simp [hb], by rw [hold b (by simp [hb])]; exact hused⟩

/-! ## The search -/

/-- `(x + mask) & ~mask`: the next multiple of `2 ^ align2`. -/
def roundUp (x : Int) (align2 : Nat) : Int := x + (2 ^ align2 - 1) - (x + (2 ^ align2 - 1)) % 2 ^ align2

/-- Where a block of the free block `b` would start. -/
def place (b : MemBlock) (align2 : Nat) (startSearch : Int) : Int := max (roundUp b.ofs align2) startSearch

/-- There is room for a block behind this place. -/
def Memory.fits (m : Memory) (size : Int) (align2 : Nat) (startSearch : Int) (p : BlockId) : Bool :=
  decide (place (m.block p) align2 startSearch + size ≤ m.ofs p + m.size p)

theorem roundUp_dvd (x : Int) (align2 : Nat) : (2 ^ align2 : Int) ∣ roundUp x align2 :=
  Int.dvd_self_sub_emod

theorem le_roundUp (x : Int) (align2 : Nat) : x ≤ roundUp x align2 := by
  have hlt := Int.emod_lt_of_pos (x + (2 ^ align2 - 1)) (pow_pos (by decide) align2 : (0 : Int) < 2 ^ align2)
  unfold roundUp
  omega

theorem roundUp_le {x s : Int} {align2 : Nat} (hs : (2 ^ align2 : Int) ∣ s) (hx : x ≤ s) : roundUp x align2 ≤ s := by
  have hpos : (0 : Int) < 2 ^ align2 := pow_pos (by decide) align2
  by_contra hlt
  -- both are multiples, so that they differ by `2 ^ align2` at least
  have hle := Int.le_of_dvd (by omega) (Int.dvd_sub (roundUp_dvd x align2) hs)
  have hnonneg := Int.emod_nonneg (x + (2 ^ align2 - 1)) (Int.ne_of_gt hpos)
  unfold roundUp at hle
  omega

theorem ofs_le_place (b : MemBlock) (align2 : Nat) (startSearch : Int) : b.ofs ≤ place b align2 startSearch :=
  (le_roundUp b.ofs align2).trans (le_max_left ..)

theorem startOfs_spec (b : MemBlock) (align2 : Nat) (startSearch : Int) :
    Safe (startOfs b align2 startSearch) (· = place b align2 startSearch) := by
  refine (int_safe _).bind fun x hx => .pure ?_
  subst hx
  show (if roundUp b.ofs align2 < startSearch then startSearch else roundUp b.ofs align2) = _
  unfold place
  split <;> omega

/-- The search finds the first block of the free list in which there is room, or none. -/
theorem searchFree_spec (h : Inv heap lo hi bs m) {fs : List BlockId} (hfs : IsList m.freeList heap fs) (size : Int)
    (align2 : Nat) (startSearch : Int) {k : Nat} (hk : fs.length < k) :
    Safe (deref (DList.nxt m.freeList heap) >>= searchFree heap size align2 startSearch m k) fun r =>
      r = (fs.find? (m.fits size align2 startSearch)).map (fun p => (p, place (m.block p) align2 startSearch))
      ∧ ∀ p ∈ fs.find? (m.fits size align2 startSearch), m.ofs p + m.size p < 2 ^ 31 := by
  -- the rest `l` of the free list behind the node `a`
  have loop : ∀ (l : List BlockId) (a : BlockId) (k : Nat), DList.Seg m.freeList a l heap → l ⊆ fs → l.length < k →
      Safe (deref (DList.nxt m.freeList a) >>= searchFree heap size align2 startSearch m k) fun r =>
        r = (l.find? (m.fits size align2 startSearch)).map (fun p => (p, place (m.block p) align2 startSearch))
        ∧ ∀ p ∈ l.find? (m.fits size align2 startSearch), m.ofs p + m.size p < 2 ^ 31 := by
    intro l
    induction l with
    | nil =>
        intro a k hs _ hk
        obtain ⟨k, rfl⟩ := Nat.exists_eq_succ_of_ne_zero (Nat.ne_of_gt hk)
        rw [hs.1]
        simp only [deref_some, ok_bind, searchFree, if_true]
        exact .ok ⟨rfl, nofun⟩
    | cons x l ih =>
        intro a k hs hsub hk
        obtain ⟨k, rfl⟩ := Nat.exists_eq_succ_of_ne_zero (Nat.ne_of_gt (Nat.zero_lt_of_lt hk))
        have hx : x ∈ fs := hsub (List.mem_cons_self ..)
        obtain ⟨hxb, hxf⟩ := (h.mem_freeList hfs).mp hx
        have hxh : x ≠ heap := fun e => h.list.head_notMem (e ▸ hxb)
        have hxf' : (m.block x).free = true := hxf
        rw [hs.1]
        simp only [deref_some, ok_bind, searchFree, hxh, if_false, h.get (List.mem_cons_of_mem _ hxb), hxf',
          Bool.not_true, Bool.false_eq_true]
        refine (startOfs_spec _ _ _).bind fun startofs hstart => (int_safe _).bind fun endofs hend =>
          (int_lt _).bind fun top htop => ?_
        obtain ⟨rfl, htop⟩ := htop
        subst hstart hend
        split
        · rename_i hle
          have hfit : m.fits size align2 startSearch x = true := decide_eq_true hle
          rw [List.find?_cons_of_pos hfit]
          refine .pure ⟨rfl, fun p hp => ?_⟩
          obtain rfl := Option.some.inj hp
          exact htop
        · rename_i hle
          have hfit : ¬ m.fits size align2 startSearch x = true := fun he => hle (of_decide_eq_true he)
          rw [List.find?_cons_of_neg hfit]
          exact ih x k hs.2.2 (fun y hy => hsub (List.mem_cons_of_mem _ hy)) (by simpa using hk)
  exact loop fs heap k hfs.1 (fun _ hb => hb) hk

/-- There is memory only for the first of the two splits that cut the block out of the middle of a free one. -/
def Torn (heap : BlockId) (r : CallocReply) (size align2 startSearch : Int) (m : Memory) : Prop :=
  0 ≤ align2 ∧ 0 < size ∧ r.left = true ∧ r.right = false
  ∧ ∃ fs p, IsList m.freeList heap fs ∧ fs.find? (m.fits size align2.toNat startSearch) = some p
    ∧ m.ofs p < place (m.block p) align2.toNat startSearch
    ∧ place (m.block p) align2.toNat startSearch + size < m.ofs p + m.size p

/-- The ends of `mmAllocMem`. -/
inductive Allocated (heap : BlockId) (lo hi : Int) (bs : List BlockId) (m : Memory) (r : CallocReply)
    (size align2 startSearch : Int) : Option BlockId × Memory → Prop
  /-- the arguments are bad, no free block is large enough, or there is no memory for the first split -/
  | null : (align2 < 0 ∨ size ≤ 0 ∨ (r.left = false ∨ r.right = false)
        ∨ ∀ b ∈ bs, m.free b = true → m.fits size align2.toNat startSearch b = false) →
      ¬ Torn heap r size align2 startSearch m → Allocated heap lo hi bs m r size align2 startSearch (none, m)
  | torn {l₁ l₂ : List BlockId} {p q : BlockId} {m' : Memory} : Torn heap r size align2 startSearch m →
      bs = l₁ ++ p :: l₂ → Inv heap lo hi (l₁ ++ p :: q :: l₂) m' →
      (∀ b, InUse (l₁ ++ p :: q :: l₂) m' b ↔ InUse bs m b) →
      Allocated heap lo hi bs m r size align2 startSearch (none, m')
  | block {p q : BlockId} {bs' : List BlockId} {m' : Memory} : p ∈ bs → m.free p = true →
      m.ofs p + m.size p < 2 ^ 31 → m'.ofs q = place (m.block p) align2.toNat startSearch →
      place (m.block p) align2.toNat startSearch + size ≤ m.ofs p + m.size p → m'.size q = size →
      Inv heap lo hi bs' m' → (Spaced (bs.map m.free) → Spaced (bs'.map m'.free)) →
      ¬ InUse bs m q → (∀ b, InUse bs' m' b ↔ b = q ∨ InUse bs m b) →
      Allocated heap lo hi bs m r size align2 startSearch (some q, m')

theorem mmAllocMem_cases (h : Inv heap lo hi bs m) (r : CallocReply) (size align2 startSearch : Int) :
    Safe (mmAllocMem r (some heap) size align2 startSearch m) (Allocated heap lo hi bs m r size align2 startSearch) := by
  simp only [mmAllocMem]
  split
  · rename_i hargs
    refine .ok (.null (by tauto) fun ht => ?_)
    obtain ⟨ha, hs, -⟩ := ht
    omega
  rename_i hargs
  split
  · exact .error rfl
  obtain ⟨fs, hfs, hfmem⟩ := h.freeList
  rw [← bind_assoc]
  refine (searchFree_spec h hfs size align2.toNat startSearch (Nat.lt_succ_of_le (h.length_le hfs))).bind ?_
  rintro found ⟨rfl, htop⟩
  cases hfind : fs.find? (m.fits size align2.toNat startSearch) with
  | none =>
      refine .pure (.null (.inr (.inr (.inr fun b hb hfree => ?_))) ?_)
      · exact Bool.eq_false_iff.mpr (List.find?_eq_none.mp hfind b ((hfmem b).mpr ⟨hb, hfree⟩))
      · rintro ⟨-, -, -, -, fs', p, hfs', hp, -⟩
        rw [hfs'.unique hfs, hfind] at hp
        cases hp
  | some p =>
      have hp := List.mem_of_find?_eq_some hfind
      have hfit : m.fits size align2.toNat startSearch p = true := List.find?_some hfind
      have hend := of_decide_eq_true hfit
      obtain ⟨hpb, hpf⟩ := (hfmem p).mp hp
      have hpf' : (m.block p).free = true := hpf
      obtain ⟨l₁, l₂, rfl⟩ := List.append_of_mem hpb
      simp only [Option.map_some, h.get (List.mem_cons_of_mem _ hpb), ok_bind, hpf', Bool.not_true,
        Bool.false_eq_true, if_false]
      refine (sliceBlock_spec h hpf r (by omega) (ofs_le_place ..) hend).mono ?_
      rintro res hres
      cases hres with
      | noMemory hcalloc hleft =>
          refine .null (.inr (.inr (.inl hcalloc))) ?_
          rintro ⟨-, -, hl, -, fs', p', hfs', hp', hlt, -⟩
          rw [hfs'.unique hfs, hfind] at hp'
          cases hp'
          exact hleft ⟨hl, hlt⟩
      | torn hl hr hlt hgt hinv huse =>
          refine .torn ⟨by omega, by omega, hl, hr, fs, p, hfs, hfind, hlt, hgt⟩ rfl hinv huse
      | block hinv hsp hofs hsize hnew huse => exact .block hpb hpf (htop p hfind) hofs hend hsize hinv hsp hnew huse

theorem mmAllocMem_spec (h : Inv heap lo hi bs m) (hsp : Spaced (bs.map m.free)) (size align2 startSearch : Int) :
    Safe (mmAllocMem {} (some heap) size align2 startSearch m) fun r => ∃ bs', Inv heap lo hi bs' r.2
      ∧ Spaced (bs'.map r.2.free) ∧ (∀ q, r.1 = some q → ¬ InUse bs m q ∧ r.2.size q = size)
      ∧ ∀ b, InUse bs' r.2 b ↔ r.1 = some b ∨ InUse bs m b := by
  refine (mmAllocMem_cases h {} size align2 startSearch).mono ?_
  intro res hres
  cases hres with
  | null => exact ⟨bs, h, hsp, nofun, fun b => by simp⟩
  | torn ht => exact absurd ht.2.2.2.1 (by decide)
  | @block p q bs' m' hpb hpf htop hofs hend hsize hinv hsp' hnew huse =>
      refine ⟨bs', hinv, hsp' hsp, ?_, fun b => ?_⟩
      · rintro _ ⟨⟩
        exact ⟨hnew, hsize⟩
      · rw [huse, Option.some_inj, eq_comm]

/-! ## Joining two blocks -/

/-- `Join2Blocks` on a block of the list: it is joined with the block after it if both are free,
and otherwise nothing happens. -/
theorem join2Blocks_spec (h : Inv heap lo hi (l₁ ++ p :: l₂) m) :
    SafeIn lo hi (join2Blocks p m) fun r =>
      (∃ q k, l₂ = q :: k ∧ m.free p = true ∧ m.free q = true ∧ Inv heap lo hi (l₁ ++ p :: k) r.2
        ∧ r.2.free = m.free)
      ∨ (r.2 = m ∧ (m.free p = true → ∀ q ∈ l₂.head?, m.free q = false)) := by
  have hmem : p ∈ l₁ ++ p :: l₂ := by simp
  simp only [join2Blocks, h.get (List.mem_cons_of_mem _ hmem), ok_bind]
  cases hpf : (m.block p).free with
  | false => exact .pure (.inr ⟨rfl, fun e => absurd (hpf.symm.trans e) (by decide)⟩)
  | true =>
  simp only [Bool.not_true, Bool.false_eq_true, if_false]
  have hseg := (DList.Seg.append.mp h.list.1).2
  cases l₂ with
  | nil =>
      -- the block after the last one is the heap, which is never free
      have hheap : (m.block heap).free = false := h.heapUsed
      simp only [hseg.1, deref_some, ok_bind, h.get (List.mem_cons_self ..), hheap, Bool.not_false, if_true]
      exact .pure (.inr ⟨rfl, by simp⟩)
  | cons q k =>
      have hqmem : q ∈ l₁ ++ p :: q :: k := by simp
      simp only [hseg.1, deref_some, ok_bind, h.get (List.mem_cons_of_mem _ hqmem)]
      cases hqf : (m.block q).free with
      | false => exact .pure (.inr ⟨rfl, fun _ b hb => Option.some.inj hb ▸ hqf⟩)
      | true =>
      simp only [Bool.not_true, Bool.false_eq_true, if_false]
      have hpin := h.tiles.mem hmem
      have hqin := h.tiles.mem hqmem
      obtain ⟨a, -, hp, -, hq, -⟩ := (tiles_append).mp h.tiles
      simp only [Memory.ofs, Memory.size] at hp hq hpin hqin
      refine (int_in fun hn => by unfold Narrow at hn; omega).bind fun top htop => ?_
      rw [if_neg (by simp; omega)]
      refine (int_in fun hn => by unfold Narrow at hn; omega).bind fun size hsize => ?_
      obtain ⟨n, list₁, list, hn, hrun₁, hrun₂, hlist, halloc⟩ := h.list.cutNext
      obtain ⟨fs, hfs, hfmem⟩ := h.freeList
      obtain ⟨f₁, f₂, rfl⟩ := List.append_of_mem ((hfmem q).mpr ⟨hqmem, hqf⟩)
      obtain ⟨freeList, hrunf, hflist, hallocf, -⟩ := hfs.unlink
      simp only [hn, hrun₁, hrun₂, hrunf, deref_some, ok_bind]
      refine .pure (.inl ⟨q, k, rfl, hpf, hqf, ?_⟩)
      set m' : Memory := Memory.release q (Memory.modify p (fun b => { b with size := size })
        { m with list := list, freeList := freeList }) with hm'
      have hfields : ∀ b, m'.free b = m.free b ∧ m'.ofs b = m.ofs b ∧ (m'.block b).heap = (m.block b).heap
          ∧ (m'.block b).reserved = (m.block b).reserved := by
        intro b
        by_cases hb : b = p
        · subst hb; simp [hm', Memory.release, Memory.modify, Memory.free, Memory.ofs]
        · simp [hm', Memory.release, Memory.modify, Memory.free, Memory.ofs, hb]
      have hsize_p : m'.size p = size := by simp [hm', Memory.release, Memory.modify, Memory.size]
      have hsize_ne : ∀ b, b ≠ p → m'.size b = m.size b := fun b hb => by
        simp [hm', Memory.release, Memory.modify, Memory.size, hb]
      have hnd : (l₁ ++ [p] ++ q :: k).Nodup := by simpa using h.list.nodup
      have hqk : q ∉ l₁ ++ p :: k := by simpa using (List.nodup_cons.mp (List.nodup_middle.mp hnd)).1
      have hqh : q ≠ heap := fun e => h.list.head_notMem (e ▸ hqmem)
      have hqf' : q ∉ f₁ ++ f₂ := (List.nodup_cons.mp (List.nodup_middle.mp hfs.nodup)).1
      have hmem' : ∀ b ∈ l₁ ++ p :: k, b ∈ l₁ ++ p :: q :: k := fun b hb => by
        simp only [List.mem_append, List.mem_cons] at hb ⊢
        tauto
      refine ⟨⟨?_, ⟨f₁ ++ f₂, ?_, ?_⟩, ?_, ?_, ?_, ?_, ?_, ?_⟩, funext fun b => (hfields b).1⟩
      · refine hlist.congr fun y hy => Function.update_of_ne ?_ _ _
        rcases List.mem_cons.mp hy with rfl | hy
        · exact hqh.symm
        · exact ne_of_mem_of_not_mem hy hqk
      · refine hflist.congr fun y hy => Function.update_of_ne ?_ _ _
        rcases List.mem_cons.mp hy with rfl | hy
        · exact hqh.symm
        · exact ne_of_mem_of_not_mem hy hqf'
      · intro b
        rw [(hfields b).1]
        by_cases hb : b = q
        · simp only [hb, hqf', hqk, false_and]
        · have := hfmem b
          simp only [List.mem_append, List.mem_cons, hb, false_or] at this ⊢
          exact this
      · have hp' : p ∉ l₁ ++ k := fun hb => by
          have := (List.nodup_cons.mp (List.nodup_middle.mp h.list.nodup)).1
          rcases List.mem_append.mp hb with hb | hb <;> simp [hb] at this
        have htiles : Tiles m.ofs m.size lo (l₁ ++ ([p, q] ++ k)) hi := h.tiles
        show Tiles m'.ofs m'.size lo (l₁ ++ ([p] ++ k)) hi
        refine htiles.replace ?_ ?_ ?_
        · exact fun b _ => (hfields b).2.1
        · exact fun b hb => hsize_ne b (ne_of_mem_of_not_mem hb hp')
        · rintro a c ⟨ha, hpos, -, hpos', hc⟩
          simp only [Tiles, (hfields p).2.1, hsize_p] at ha hc ⊢
          simp only [Memory.size] at hpos hpos' hc
          omega
      · exact (hfields heap).1.trans h.heapUsed
      · exact fun b hb => (hfields b).2.2.1.trans (h.owner b (hmem' b hb))
      · exact fun b hb => (hfields b).2.2.2.trans (h.unreserved b (hmem' b hb))
      · intro b
        show (DList.free freeList q b).isSome = (DList.free list q b).isSome
        by_cases hb : b = q
        · simp [DList.free, hb]
        · simp only [DList.free, Function.update_of_ne hb]
          rw [halloc, hallocf]
          exact h.sameNodes b
      · intro b hb
        refine h.known b ?_
        rw [← halloc]
        by_cases hbq : b = q
        · simp [hm', Memory.release, DList.free, hbq] at hb
        · simpa [hm', Memory.release, Memory.modify, DList.free, hbq] using hb

/-- What follows for the blocks in use, and that `p` and the blocks after it are spaced if these
were before. -/
theorem join2Blocks_keep (h : Inv heap lo hi (l₁ ++ p :: l₂) m) :
    SafeIn lo hi (join2Blocks p m) fun r => ∃ k, Inv heap lo hi (l₁ ++ p :: k) r.2 ∧ r.2.free = m.free
      ∧ (∀ b, InUse (l₁ ++ p :: k) r.2 b ↔ InUse (l₁ ++ p :: l₂) m b)
      ∧ (Spaced (l₂.map m.free) → Spaced ((p :: k).map m.free)) := by
  refine (join2Blocks_spec h).mono ?_
  rintro r (⟨q, k, rfl, hp, hq, hinv, hfree⟩ | ⟨hr, hhead⟩)
  · refine ⟨k, hinv, hfree, fun b => ?_, fun hsp => ?_⟩
    · have hqb : m.free b = false → b ≠ q := by
        rintro hb rfl
        rw [hq] at hb; cases hb
      simp only [InUse, hfree, List.mem_append, List.mem_cons]
      tauto
    · rw [List.map_cons, hq] at hsp
      rw [List.map_cons, hp]
      exact hsp
  · refine ⟨l₂, hr ▸ h, by rw [hr], fun b => by rw [hr], fun hsp => ?_⟩
    refine List.isChain_cons.mpr ⟨?_, hsp⟩
    rintro x hx ⟨hpf, rfl⟩
    rw [List.head?_map] at hx
    obtain ⟨q, hq, hx⟩ := Option.map_eq_some_iff.mp hx
    exact absurd (hx.symm.trans (hhead hpf q hq)) (by decide)

/-! ## Freeing a block -/

/-- The freed block stands at the front of the free list, before it is joined with its neighbours. -/
theorem freeList_spec (h : Inv heap lo hi bs m) {b : BlockId} (hb : InUse bs m b) :
    ∃ freeList, DList.insertAfter m.freeList b heap = some freeList
      ∧ Inv heap lo hi bs { m.modify b (fun c => { c with free := true }) with freeList := freeList }
      ∧ ({ m.modify b (fun c => { c with free := true }) with freeList := freeList } : Memory).free
        = Function.update m.free b true := by
  obtain ⟨hmem, hused⟩ := hb
  obtain ⟨fs, hfs, hfmem⟩ := h.freeList
  have hbh : b ≠ heap := fun e => h.list.head_notMem (e ▸ hmem)
  have hbf : b ∉ heap :: fs := by
    intro hbf
    rcases List.mem_cons.mp hbf with e | hbf
    · exact hbh e
    · rw [((hfmem b).mp hbf).2] at hused; cases hused
  have halloc : (m.freeList b).isSome := by rw [h.sameNodes]; exact h.list.alloc (List.mem_cons_of_mem _ hmem)
  obtain ⟨freeList, hrun, hlist, ha, -⟩ := hfs.insertFront hbf halloc
  refine ⟨freeList, hrun, ?_⟩
  set m' : Memory := { m.modify b (fun c => { c with free := true }) with freeList := freeList } with hm'
  have hfree : m'.free = Function.update m.free b true := by
    funext c
    by_cases hc : c = b <;> simp [hm', Memory.free, Memory.modify, hc]
  have hfields : ∀ c, m'.ofs c = m.ofs c ∧ m'.size c = m.size c ∧ (m'.block c).heap = (m.block c).heap
      ∧ (m'.block c).reserved = (m.block c).reserved := by
    intro c
    by_cases hc : c = b
    · subst hc; simp [hm', Memory.modify, Memory.ofs, Memory.size]
    · simp [hm', Memory.modify, Memory.ofs, Memory.size, hc]
  refine ⟨⟨h.list, ⟨b :: fs, hlist, ?_⟩, ?_, ?_, ?_, ?_, ?_, h.known⟩, hfree⟩
  · intro c
    rw [hfree]
    by_cases hc : c = b
    · simp [hc, hmem]
    · simp [hc, hfmem]
  · exact h.tiles.congr (fun c _ => (hfields c).1) (fun c _ => (hfields c).2.1)
  · rw [hfree, Function.update_of_ne hbh.symm]; exact h.heapUsed
  · exact fun c hc => (hfields c).2.2.1.trans (h.owner c hc)
  · exact fun c hc => (hfields c).2.2.2.trans (h.unreserved c hc)
  · exact fun c => (ha c).trans (h.sameNodes c)

theorem mmFreeMem_cases (h : Inv heap lo hi bs m) {b : BlockId} (hb : InUse bs m b) :
    SafeIn lo hi (mmFreeMem (some b) m) fun r => r.1 = 0 ∧ ∃ bs', Inv heap lo hi bs' r.2
      ∧ (Spaced (bs.map m.free) → Spaced (bs'.map r.2.free)) ∧ ∀ c, InUse bs' r.2 c ↔ InUse bs m c ∧ c ≠ b := by
  have hused : (m.block b).free = false := hb.2
  obtain ⟨freeList, hrun, hinv₁, hfree₁⟩ := freeList_spec h hb
  simp only [mmFreeMem, h.get (List.mem_cons_of_mem _ hb.1), ok_bind, hused, h.unreserved b hb.1, h.owner b hb.1,
    Bool.false_eq_true, if_false, deref_some]
  rw [show (Memory.modify b (fun c => { c with free := true }) m).freeList = m.freeList from rfl, hrun]
  simp only [deref_some, ok_bind]
  generalize ({ Memory.modify b (fun c => { c with free := true }) m with freeList := freeList } : Memory) = m₁
    at hinv₁ hfree₁
  obtain ⟨l₁, l₂, rfl⟩ := List.append_of_mem hb.1
  have hnd := (List.nodup_cons.mp (List.nodup_middle.mp h.list.nodup)).1
  have hother : ∀ c ∈ l₁ ++ l₂, m₁.free c = m.free c := fun c hc => by
    rw [hfree₁, Function.update_of_ne (ne_of_mem_of_not_mem hc hnd)]
  have hmap₁ : l₁.map m₁.free = l₁.map m.free := List.map_congr_left fun c hc => hother c (by simp [hc])
  have hmap₂ : l₂.map m₁.free = l₂.map m.free := List.map_congr_left fun c hc => hother c (by simp [hc])
  have huse₁ : ∀ c, InUse (l₁ ++ b :: l₂) m₁ c ↔ InUse (l₁ ++ b :: l₂) m c ∧ c ≠ b := by
    intro c
    by_cases hc : c = b
    · simp [InUse, hfree₁, hc]
    · simp [InUse, hfree₁, hc]
  refine (join2Blocks_keep hinv₁).bind ?_
  rintro ⟨_, m₂⟩ ⟨k, hinv₂, hfree₂, huse₂, hsp₂⟩
  replace hsp₂ : Spaced ((l₁ ++ b :: l₂).map m.free) → Spaced ((b :: k).map m₁.free) := by
    intro hsp
    rw [List.map_append, List.map_cons] at hsp
    exact hsp₂ (by rw [hmap₂]; exact (List.isChain_cons.mp (List.isChain_split.mp hsp).2).2)
  have hbk : b ∈ l₁ ++ b :: k := by simp
  have hown : (m₂.block b).heap = some heap := hinv₂.owner b hbk
  simp only [hinv₂.get (List.mem_cons_of_mem _ hbk), ok_bind]
  rcases List.eq_nil_or_concat l₁ with rfl | ⟨l₁, a, rfl⟩
  · -- the block is the first one
    have hprev : DList.prv m₂.list b = some heap := hinv₂.list.1.2.1
    rw [if_neg (by simp [hprev, hown])]
    refine .pure ⟨rfl, b :: k, hinv₂, fun hsp => ?_, fun c => (huse₂ c).trans (huse₁ c)⟩
    show Spaced ((b :: k).map m₂.free)
    rw [hfree₂]
    exact hsp₂ hsp
  · have hinv₂' : Inv heap lo hi (l₁ ++ a :: (b :: k)) m₂ := by simpa using hinv₂
    have hprev : DList.prv m₂.list b = some a := (DList.Seg.append.mp hinv₂'.list.1).2.2.1
    have hah : a ≠ heap := fun e => hinv₂'.list.head_notMem (by simp [← e])
    rw [if_pos (by simp [hprev, hown, hah])]
    simp only [hprev, deref_some, ok_bind]
    refine (join2Blocks_keep hinv₂').bind ?_
    rintro ⟨_, m₃⟩ ⟨k', hinv₃, hfree₃, huse₃, hsp₃⟩
    refine .pure ⟨rfl, _, hinv₃, fun hsp => ?_, fun c => ?_⟩
    · show Spaced ((l₁ ++ a :: k').map m₃.free)
      rw [hfree₃, List.map_append, List.map_cons]
      refine List.isChain_split.mpr ⟨?_, hsp₃ (by rw [hfree₂]; exact hsp₂ hsp)⟩
      rw [List.map_append, List.map_cons] at hsp
      have hleft := List.IsChain.left_of_append hsp
      rw [← hmap₁, ← hfree₂] at hleft
      simpa using hleft
    · rw [huse₃ c, ← huse₁ c, ← huse₂ c]
      simp

theorem mmFreeMem_spec (h : Inv heap lo hi bs m) (hsp : Spaced (bs.map m.free)) {b : BlockId} (hb : InUse bs m b) :
    Safe (mmFreeMem (some b) m) fun r => r.1 = 0 ∧ ∃ bs', Inv heap lo hi bs' r.2 ∧ Spaced (bs'.map r.2.free)
      ∧ ∀ c, InUse bs' r.2 c ↔ InUse bs m c ∧ c ≠ b :=
  ((mmFreeMem_cases h hb).mono fun _ ⟨hret, bs', hinv, hsp', huse⟩ => ⟨hret, bs', hinv, hsp' hsp, huse⟩).allow
    fun _ he => he.1

/-! ## Runs -/

/-- A heap together with the blocks that its user holds: those that were handed out and
not freed yet. -/
structure Heap where
  mem : Memory
  heap : BlockId
  out : List BlockId

inductive Call
  | allocMem (size align2 startSearch : Int)
  | freeMem (b : Option BlockId)

/-- The user frees what it holds, or NULL. -/
def Call.Allowed (σ : Heap) : Call → Prop
  | .allocMem .. => True
  | .freeMem b => ∀ c, b = some c → c ∈ σ.out

/-- One call; the allocations of new blocks succeed. -/
def Call.run (σ : Heap) : Call → Except Fault Heap
  | .allocMem size align2 startSearch => do
      let (b, mem) ← mmAllocMem {} (some σ.heap) size align2 startSearch σ.mem
      return { σ with mem := mem, out := b.toList ++ σ.out }
  | .freeMem b => do
      let (_, mem) ← mmFreeMem b σ.mem
      return { σ with mem := mem, out := σ.out.filter fun c => b ≠ some c }

/-- `mmInit` has made the heap. -/
def Heap.Init (ofs size : Int) (σ : Heap) : Prop :=
  mmInit true true ofs size = (some σ.heap, σ.mem) ∧ σ.out = []

def Heap.Step (σ σ' : Heap) : Prop := ∃ c : Call, c.Allowed σ ∧ c.run σ = .ok σ'

abbrev Heap.Reachable (ofs size : Int) : Heap → Prop := Runs (Heap.Init ofs size) Heap.Step

/-- The invariant of runs. -/
def Heap.Ok (lo hi : Int) (σ : Heap) : Prop :=
  ∃ bs, Inv σ.heap lo hi bs σ.mem ∧ Spaced (bs.map σ.mem.free) ∧ σ.out.Nodup
    ∧ ∀ b, b ∈ σ.out ↔ InUse bs σ.mem b

theorem Heap.Init.ok {ofs size : Int} {σ : Heap} (h : σ.Init ofs size) : σ.Ok ofs (ofs + size) := by
  obtain ⟨hinit, hout⟩ := h
  by_cases hsize : size ≤ 0
  · simp [mmInit, hsize] at hinit
  simp only [mmInit, hsize, if_false, Bool.not_true, Bool.false_eq_true, Prod.mk.injEq, Option.some_inj] at hinit
  obtain ⟨hheap, hmem⟩ := hinit
  obtain ⟨mem, heap, out⟩ := σ
  subst hheap hmem hout
  refine ⟨[1], ⟨?_, ⟨[1], ?_, ?_⟩, ?_, ?_, ?_, ?_, ?_, ?_⟩, ?_, List.nodup_nil, ?_⟩
  · refine ⟨⟨?_, ?_, ?_, ?_⟩, by simp [Memory.empty]⟩ <;>
      simp [Memory.empty, Memory.calloc, DList.nxt, DList.prv]
  · refine ⟨⟨?_, ?_, ?_, ?_⟩, by simp [Memory.empty]⟩ <;>
      simp [Memory.empty, Memory.calloc, DList.nxt, DList.prv]
  · intro b
    by_cases hb : b = 1 <;> simp [hb, Memory.free, Memory.empty, Memory.calloc]
  · refine ⟨?_, ?_, ?_⟩ <;> simp [Tiles, Memory.ofs, Memory.size, Memory.empty, Memory.calloc]
    omega
  · simp [Memory.free, Memory.empty, Memory.calloc]
  · simp [Memory.empty, Memory.calloc]
  · simp [Memory.empty, Memory.calloc]
  · exact fun _ => rfl
  · intro b hb
    by_contra hge
    have hge : 2 ≤ b := Nat.not_lt.mp hge
    have h₀ : b ≠ 0 := Nat.ne_of_gt (Nat.lt_of_lt_of_le Nat.two_pos hge)
    have h₁ : b ≠ 1 := Nat.ne_of_gt hge
    simp [Memory.empty, Memory.calloc, DList.calloc, h₀, h₁] at hb
  · exact List.IsChain.singleton _
  · intro b
    by_cases hb : b = 1 <;> simp [InUse, hb, Memory.free, Memory.empty, Memory.calloc]

theorem Call.run_safe {σ : Heap} (h : σ.Ok lo hi) {c : Call} (hc : c.Allowed σ) : Safe (c.run σ) (Heap.Ok lo hi) := by
  obtain ⟨bs, hinv, hsp, hnd, hout⟩ := h
  cases c with
  | allocMem size align2 startSearch =>
      refine (mmAllocMem_spec hinv hsp size align2 startSearch).bind ?_
      rintro ⟨r, m'⟩ ⟨bs', hinv', hsp', hnew, huse⟩
      refine .pure ⟨bs', hinv', hsp', ?_, fun b => ?_⟩
      · cases r with
        | none => exact hnd
        | some q => exact List.nodup_cons.mpr ⟨fun hq => (hnew q rfl).1 ((hout q).mp hq), hnd⟩
      · rw [huse b, List.mem_append, hout b, Option.mem_toList]
  | freeMem b =>
      cases b with
      | none =>
          refine .ok ⟨bs, hinv, hsp, hnd.filter _, fun b => ?_⟩
          simpa using hout b
      | some b =>
          have hb := (hout b).mp (hc b rfl)
          refine (mmFreeMem_spec hinv hsp hb).bind ?_
          rintro ⟨r, m'⟩ ⟨-, bs', hinv', hsp', huse⟩
          refine .pure ⟨bs', hinv', hsp', hnd.filter _, fun c => ?_⟩
          rw [huse c, ← hout c, List.mem_filter]
          refine and_congr_right fun _ => ?_
          simp only [ne_eq, Option.some_inj, decide_eq_true_eq]
          exact ne_comm

theorem Heap.Reachable.ok {ofs size : Int} {σ : Heap} (h : σ.Reachable ofs size) : σ.Ok ofs (ofs + size) := by
  refine Runs.induct (fun σ hσ => hσ.ok) ?_ h
  rintro σ σ' hok ⟨c, hc, hrun⟩
  exact (Call.run_safe hok hc).1 σ' hrun

/-- In every run the blocks tile the range of the heap, the free list holds the free ones, no two
neighbours are free, and the blocks that were handed out lie in the range and apart from each other.
A call that the user may make can only fail by an overflow. -/
theorem heap_invariant {ofs size : Int} {σ : Heap} (h : σ.Reachable ofs size) :
    (∃ bs fs, IsList σ.mem.list σ.heap bs ∧ IsList σ.mem.freeList σ.heap fs
      ∧ Tiles σ.mem.ofs σ.mem.size ofs bs (ofs + size)
      ∧ (∀ b, b ∈ fs ↔ b ∈ bs ∧ σ.mem.free b = true)
      ∧ (bs.IsChain fun a b => ¬ (σ.mem.free a = true ∧ σ.mem.free b = true))
      ∧ ∀ b, b ∈ σ.out ↔ b ∈ bs ∧ σ.mem.free b = false)
    ∧ (∀ b ∈ σ.out, ofs ≤ σ.mem.ofs b ∧ 0 < σ.mem.size b ∧ σ.mem.ofs b + σ.mem.size b ≤ ofs + size)
    ∧ σ.out.Pairwise (Apart σ.mem.ofs σ.mem.size)
    ∧ ∀ c : Call, c.Allowed σ → ∀ e, c.run σ = .error e → e = .overflow := by
  obtain ⟨bs, hinv, hsp, hnd, hout⟩ := h.ok
  obtain ⟨fs, hfs, hfmem⟩ := hinv.freeList
  refine ⟨⟨bs, fs, hinv.list, hfs, hinv.tiles, hfmem, (List.isChain_map _).mp hsp, hout⟩, ?_, ?_, ?_⟩
  · exact fun b hb => hinv.tiles.mem ((hout b).mp hb).1
  · refine hnd.imp_of_mem fun ha hb hab => ?_
    exact hinv.tiles.apart ((hout _).mp ha).1 ((hout _).mp hb).1 hab
  · exact fun c hc e he => (Call.run_safe h.ok hc).2 e he

/-! ## What the user of a heap can rely on -/

/-- The blocks in use are left as they are. -/
def Kept (m m' : Memory) : Prop :=
  m.fresh ≤ m'.fresh ∧ ∀ c < m.fresh, m.free c = false → m'.block c = m.block c

theorem Kept.refl (m : Memory) : Kept m m := ⟨Nat.le_refl _, fun _ _ _ => rfl⟩

theorem Kept.trans {m m' m'' : Memory} (h : Kept m m') (h' : Kept m' m'') : Kept m m'' := by
  refine ⟨Nat.le_trans h.1 h'.1, fun c hc hfree => ?_⟩
  have hblock := h.2 c hc hfree
  rw [h'.2 c (Nat.lt_of_lt_of_le hc h.1) (by rw [Memory.free, hblock]; exact hfree), hblock]

/-- Only a block that is free or new changes. -/
theorem Kept.of_other {m m' : Memory} {p : BlockId} (hp : m.free p = true ∨ m.fresh ≤ p) (hfresh : m.fresh ≤ m'.fresh)
    (hblock : ∀ c, c ≠ p → m'.block c = m.block c) : Kept m m' := by
  refine ⟨hfresh, fun c hc hfree => hblock c ?_⟩
  rintro rfl
  rcases hp with hp | hp
  · rw [hp] at hfree
    cases hfree
  · exact absurd hc (Nat.not_lt.mpr hp)

theorem breakBlock_kept {p : BlockId} {m : Memory} (hp : p < m.fresh) (hfree : m.free p = true) (ofs size rest : Int) :
    Ensures (breakBlock p ofs size rest m) fun r => Kept m r.2 ∧ r.1 < r.2.fresh ∧ r.2.free r.1 = true
      ∧ r.2.free p = true := by
  unfold breakBlock
  refine Ensures.bind_any fun b => Ensures.bind_any fun list => Ensures.bind_any fun freeList => .pure ?_
  have hne : m.fresh ≠ p := (Nat.ne_of_lt hp).symm
  have hpfree : (m.block p).free = true := hfree
  refine ⟨?_, Nat.lt_succ_self _, ?_, ?_⟩
  · refine ⟨Nat.le_succ _, fun c hc hused => ?_⟩
    have hcp : c ≠ p := by
      rintro rfl
      rw [hfree] at hused
      cases hused
    simp [Memory.modify, Memory.calloc, hcp, Nat.ne_of_lt hc]
  · simp [Memory.free, Memory.modify, Memory.calloc, hne]
  · simp [Memory.free, Memory.modify, Memory.calloc, hne.symm, hpfree]

theorem sliceBlock_kept {p : BlockId} {m : Memory} (hp : p < m.fresh) (hfree : m.free p = true) (r : CallocReply)
    (startofs size : Int) (reserved : Bool) :
    Ensures (sliceBlock r p startofs size reserved m) fun res => Kept m res.2 := by
  have hleft : Ensures (breakLeft r.left p startofs m) fun res => Kept m res.2
      ∧ ∀ q, res.1 = some q → q < res.2.fresh ∧ res.2.free q = true := by
    unfold breakLeft
    refine Ensures.bind_any fun b => ?_
    split
    · split
      · refine Ensures.bind_any fun before => Ensures.bind_any fun sz => Ensures.bind_any fun rest => ?_
        refine (breakBlock_kept hp hfree startofs sz rest).bind fun res hres => .pure ⟨hres.1, ?_⟩
        rintro q ⟨⟩
        exact ⟨hres.2.1, hres.2.2.1⟩
      · exact .pure ⟨.refl m, nofun⟩
    · refine .pure ⟨.refl m, ?_⟩
      rintro q ⟨⟩
      exact ⟨hp, hfree⟩
  unfold sliceBlock
  refine hleft.bind fun res hres => ?_
  obtain ⟨left, m₁⟩ := res
  obtain ⟨hkept₁, hq⟩ := hres
  cases left with
  | none => exact .pure hkept₁
  | some q =>
      obtain ⟨hq, hqfree⟩ := hq q rfl
      replace hq : q < m₁.fresh := hq
      replace hqfree : m₁.free q = true := hqfree
      have hright : Ensures (breakRight r.right q startofs size m₁) fun res => Kept m₁ res.2
          ∧ res.2.free q = true := by
        unfold breakRight
        refine Ensures.bind_any fun b => ?_
        split
        · split
          · refine Ensures.bind_any fun ofs => Ensures.bind_any fun after => ?_
            exact (breakBlock_kept hq hqfree ofs after size).bind fun res hres => .pure ⟨hres.1, hres.2.2.2⟩
          · exact .pure ⟨.refl m₁, hqfree⟩
        · exact .pure ⟨.refl m₁, hqfree⟩
      refine hright.bind fun res hres => ?_
      obtain ⟨done, m₂⟩ := res
      obtain ⟨hkept₂, hqfree₂⟩ := hres
      replace hkept₂ : Kept m₁ m₂ := hkept₂
      replace hqfree₂ : m₂.free q = true := hqfree₂
      dsimp only
      split
      · have htake : Ensures (takeBlock q reserved m₂) fun m₃ => Kept m₂ m₃ := by
          unfold takeBlock
          refine Ensures.bind_any fun l₁ => Ensures.bind_any fun l₂ => Ensures.bind_any fun l₃ => .pure ?_
          exact Kept.of_other (.inl hqfree₂) (Nat.le_refl _) fun c hc => by simp [Memory.modify, hc]
        exact htake.bind fun m₃ hm₃ => .pure ((hkept₁.trans hkept₂).trans hm₃)
      · exact .pure (hkept₁.trans hkept₂)

theorem get_ensures (b : BlockId) (m : Memory) :
    Ensures (m.get b) fun blk => blk = m.block b ∧ (m.list b).isSome := by
  unfold Memory.get
  split
  · case isTrue h => exact .ok ⟨rfl, h⟩
  · exact .error

theorem mmAllocMem_kept {m : Memory} (hknown : ∀ b, (m.list b).isSome → b < m.fresh) (r : CallocReply)
    (heap : Option BlockId) (size align2 startSearch : Int) :
    Ensures (mmAllocMem r heap size align2 startSearch m) fun res => Kept m res.2 := by
  unfold mmAllocMem
  cases heap with
  | none => exact .ok (.refl m)
  | some heap =>
      dsimp only
      split
      · exact .ok (.refl m)
      · split
        · exact .error
        · refine Ensures.bind_any fun first => Ensures.bind_any fun found => ?_
          cases found with
          | none => exact .pure (.refl m)
          | some found =>
              obtain ⟨p, startofs⟩ := found
              refine (get_ensures p m).bind fun b hb => ?_
              obtain ⟨rfl, hp⟩ := hb
              split
              · exact .error
              · case isFalse hfree =>
                  have hp' : m.free p = true := by simpa [Memory.free] using hfree
                  exact sliceBlock_kept (hknown p hp) hp' r startofs size false

theorem join2Blocks_kept (p : BlockId) (m : Memory) : Ensures (join2Blocks p m) fun res => Kept m res.2 := by
  unfold join2Blocks
  refine (get_ensures p m).bind fun b hb => ?_
  obtain ⟨rfl, _⟩ := hb
  split
  · exact .pure (.refl m)
  · case isFalse hfree =>
      refine Ensures.bind_any fun q => Ensures.bind_any fun c => ?_
      split
      · exact .pure (.refl m)
      · refine Ensures.bind_any fun top => ?_
        split
        · exact .error
        · refine Ensures.bind_any fun size => Ensures.bind_any fun l₁ => Ensures.bind_any fun next =>
            Ensures.bind_any fun l₂ => Ensures.bind_any fun l₃ => .pure ?_
          have hp : m.free p = true := by simpa [Memory.free] using hfree
          exact Kept.of_other (.inl hp) (Nat.le_refl _) fun c hc => by simp [Memory.modify, Memory.release, hc]

/-- Freeing a block leaves the other blocks in use as they are. -/
theorem mmFreeMem_kept (b : BlockId) (m : Memory) : Ensures (mmFreeMem (some b) m) fun res =>
    ∀ c < m.fresh, c ≠ b → m.free c = false → res.2.block c = m.block c := by
  unfold mmFreeMem
  dsimp only
  refine Ensures.bind_any fun blk => ?_
  split
  · exact .pure fun _ _ _ _ => rfl
  · split
    · exact .pure fun _ _ _ _ => rfl
    · refine Ensures.bind_any fun heap => Ensures.bind_any fun freeList => ?_
      let m₁ : Memory := { m.modify b (fun c => { c with free := true }) with freeList := freeList }
      have hblock : ∀ c, c ≠ b → m₁.block c = m.block c := fun c hc => by simp [m₁, Memory.modify, hc]
      have hkeep : ∀ m', Kept m₁ m' → ∀ c < m.fresh, c ≠ b → m.free c = false → m'.block c = m.block c := by
        intro m' hm' c hc hne hfree
        rw [hm'.2 c hc (by rw [Memory.free, hblock c hne]; exact hfree), hblock c hne]
      refine (join2Blocks_kept b m₁).bind fun res hres => ?_
      obtain ⟨_, m₂⟩ := res
      replace hres : Kept m₁ m₂ := hres
      refine Ensures.bind_any fun blk => ?_
      dsimp only
      split
      · refine Ensures.bind_any fun before => ?_
        exact (join2Blocks_kept before m₂).bind fun res hres' => .pure (hkeep res.2 (hres.trans hres'))
      · exact .pure (hkeep m₂ hres)

variable {σ : Heap}

/-- A block that is held is in use. -/
theorem Heap.Ok.held (h : σ.Ok lo hi) {b : BlockId} (hb : b ∈ σ.out) : σ.mem.free b = false ∧ b < σ.mem.fresh := by
  obtain ⟨bs, hinv, _, _, hout⟩ := h
  obtain ⟨hmem, hfree⟩ := (hout b).mp hb
  exact ⟨hfree, hinv.known b (hinv.list.alloc (List.mem_cons_of_mem _ hmem))⟩

theorem Heap.Ok.size_pos (h : σ.Ok lo hi) {b : BlockId} (hb : b ∈ σ.out) : 0 < σ.mem.size b := by
  obtain ⟨bs, hinv, _, _, hout⟩ := h
  exact (hinv.tiles.mem ((hout b).mp hb).1).2.1

/-- The blocks that are held lie apart from each other. -/
theorem Heap.Ok.apart (h : σ.Ok lo hi) {a b : BlockId} (ha : a ∈ σ.out) (hb : b ∈ σ.out) (hab : a ≠ b) :
    Apart σ.mem.ofs σ.mem.size a b := by
  obtain ⟨bs, hinv, _, _, hout⟩ := h
  exact hinv.tiles.apart ((hout a).mp ha).1 ((hout b).mp hb).1 hab

/-- An allocation hands out a new block of the given size and leaves the others where they are. -/
theorem Heap.Ok.allocMem (h : σ.Ok lo hi) (size align2 startSearch : Int) :
    Ensures (mmAllocMem {} (some σ.heap) size align2 startSearch σ.mem) fun r =>
      Heap.Ok lo hi { σ with mem := r.2, out := r.1.toList ++ σ.out }
      ∧ (∀ q, r.1 = some q → q ∉ σ.out ∧ r.2.size q = size)
      ∧ ∀ c ∈ σ.out, r.2.ofs c = σ.mem.ofs c ∧ r.2.size c = σ.mem.size c := by
  have hheld := fun c => h.held (b := c)
  obtain ⟨bs, hinv, hsp, hnd, hout⟩ := h
  intro r hr
  obtain ⟨bs', hinv', hsp', hnew, huse⟩ := (mmAllocMem_spec hinv hsp size align2 startSearch).1 r hr
  refine ⟨⟨bs', hinv', hsp', ?_, fun b => ?_⟩, fun q hq => ?_, fun c hc => ?_⟩
  · cases hq : r.1 with
    | none => exact hnd
    | some q => exact List.nodup_cons.mpr ⟨fun hmem => (hnew q hq).1 ((hout q).mp hmem), hnd⟩
  · rw [huse b, List.mem_append, hout b, Option.mem_toList]
  · exact ⟨fun hmem => (hnew q hq).1 ((hout q).mp hmem), (hnew q hq).2⟩
  · have hblock := (mmAllocMem_kept hinv.known {} _ size align2 startSearch r hr).2 c (hheld c hc).2 (hheld c hc).1
    simp only [Memory.ofs, Memory.size, hblock, and_self]

/-- A held block is given back, and the others stay where they are. -/
theorem Heap.Ok.freeMem (h : σ.Ok lo hi) {b : BlockId} (hb : b ∈ σ.out) :
    Ensures (mmFreeMem (some b) σ.mem) fun r =>
      Heap.Ok lo hi { σ with mem := r.2, out := σ.out.filter fun c => some b ≠ some c }
      ∧ ∀ c ∈ σ.out, c ≠ b → r.2.ofs c = σ.mem.ofs c ∧ r.2.size c = σ.mem.size c := by
  intro r hr
  refine ⟨?_, fun c hc hne => ?_⟩
  · refine (Call.run_safe h (c := .freeMem (some b)) ?_).1 _ ?_
    · rintro c ⟨⟩
      exact hb
    · simp only [Call.run, hr]
      rfl
  · have hblock := mmFreeMem_kept b σ.mem r hr c (h.held hc).2 hne (h.held hc).1
    simp only [Memory.ofs, Memory.size, hblock, and_self]

/-! ## A run that can be computed -/

instance (σ : Heap) : (c : Call) → Decidable (c.Allowed σ)
  | .allocMem .. => isTrue trivial
  | .freeMem none => isTrue nofun
  | .freeMem (some b) => decidable_of_iff (b ∈ σ.out) (by simp [Call.Allowed])

def Heap.play (σ : Heap) (c : Call) : Option Heap :=
  if c.Allowed σ then (c.run σ).toOption else none

/-- A heap is made and the calls are carried out on it. -/
def playAll (ofs size : Int) (cs : List Call) : Option Heap :=
  match mmInit true true ofs size with
  | (none, _) => none
  | (some heap, mem) => cs.foldlM Heap.play ⟨mem, heap, []⟩

theorem Heap.play_step {σ σ' : Heap} {c : Call} (h : σ.play c = some σ') : σ.Step σ' := by
  unfold Heap.play at h
  split at h
  · rename_i hc
    cases hrun : c.run σ with
    | error e => rw [hrun] at h; cases h
    | ok σ₁ => rw [hrun] at h; cases h; exact ⟨c, hc, hrun⟩
  · cases h

theorem playAll_reachable {ofs size : Int} {cs : List Call} {σ : Heap} (h : playAll ofs size cs = some σ) :
    σ.Reachable ofs size := by
  have loop : ∀ (cs : List Call) (σ₀ : Heap), σ₀.Reachable ofs size → cs.foldlM Heap.play σ₀ = some σ →
      σ.Reachable ofs size := by
    intro cs
    induction cs with
    | nil => intro σ₀ h₀ h; cases h; exact h₀
    | cons c cs ih =>
        intro σ₀ h₀ h
        rw [List.foldlM_cons] at h
        obtain ⟨σ₁, h₁, h⟩ := Option.bind_eq_some_iff.mp h
        exact ih σ₁ (.step h₀ (Heap.play_step h₁)) h
  unfold playAll at h
  split at h
  · cases h
  · rename_i heap mem hinit
    exact loop cs _ (.init ⟨hinit, rfl⟩) h

/-- Two blocks are cut out of a heap of 64 bytes, and the first is freed again. -/
theorem heap_invariant_twoBlocks : ∃ σ : Heap, σ.Reachable 0 64 ∧ σ.out = [3]
    ∧ ∀ b ∈ σ.out, 0 ≤ σ.mem.ofs b ∧ 0 < σ.mem.size b ∧ σ.mem.ofs b + σ.mem.size b ≤ 0 + 64 := by
  have hrun : (playAll 0 64 [.allocMem 16 4 0, .allocMem 8 3 24, .freeMem (some 1)]).map Heap.out = some [3] := by
    decide +kernel
  obtain ⟨σ, hσ, hout⟩ := Option.map_eq_some_iff.mp hrun
  have h := playAll_reachable hσ
  exact ⟨σ, h, hout, (heap_invariant h).2.1⟩

end LibDrm.Mm
