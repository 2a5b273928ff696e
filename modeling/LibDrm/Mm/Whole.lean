/-
# `LibDrm.Mm.Whole` — heaps in which no allocation was torn

In these heaps no two neighbouring blocks are free.  Two things follow that a
user of the heap relies on.

| | |
| :-- | :-- |
| `alloc_complete` | an allocation fails only for want of memory, or where no aligned place of its size is free |
| `free_order` | freed blocks leave no trace, in whatever order they are freed |

The first rests on `Tiles.free_piece`, a free interval is part of one block, and
on rounding up being monotone, so that the lowest place of a block is the only
one to try.  The second rests on `Tiles.determined`: the blocks in use are those
that were in use before, and there is one way only to put free blocks between.
-/
import LibDrm.Mm.Replies

namespace LibDrm.Mm

open DList (IsList)
open Tiling

variable {σ σ' : Heap} {lo hi ofs size₀ : Int} {bs : List BlockId} {heap : BlockId} {m m' : Memory} {r : CallocReply}
  {size : Int}

/-! ## An allocation finds what there is -/

/-- The interval is apart from all blocks that the user holds. -/
def Heap.Clear (σ : Heap) (s size : Int) : Prop :=
  ∀ c ∈ σ.out, s + size ≤ σ.mem.ofs c ∨ σ.mem.ofs c + σ.mem.size c ≤ s

/-- Where an aligned interval is free, there is room in a free block. -/
theorem Heap.Ok.fits_of_clear (hlo : 0 ≤ lo) (hinv : Inv σ.heap lo hi bs σ.mem) (hsp : Spaced (bs.map σ.mem.free))
    (hout : ∀ b, b ∈ σ.out ↔ InUse bs σ.mem b) {align2 : Nat} {s : Int} (hsize : 0 < size)
    (halign : (2 ^ align2 : Int) ∣ s) (hs : lo ≤ s) (hend : s + size ≤ hi) (hclear : σ.Clear s size) :
    ∃ b ∈ bs, σ.mem.free b = true ∧ σ.mem.fits size align2 0 b = true := by
  obtain ⟨b, hb, hfree, hle, htop⟩ := hinv.tiles.free_piece (by omega) hsp hs hend fun x hx hused =>
    hclear x ((hout x).mpr ⟨hx, hused⟩)
  refine ⟨b, hb, hfree, decide_eq_true ?_⟩
  have hplace : place (σ.mem.block b) align2 0 ≤ s := max_le (roundUp_le halign hle) (hlo.trans hs)
  omega

/-- In a heap in which no allocation was torn, an allocation fails only if there is no memory for a block or
no aligned interval of the size is free; and the block that it returns is such an interval. -/
theorem alloc_complete (hofs : 0 ≤ ofs) (h : σ.Whole ofs size₀) (hsize : 0 < size) (align2 : Nat)
    {b : Option BlockId} (hrun : mmAllocMem r (some σ.heap) size align2 0 σ.mem = .ok (b, m')) :
    (b = none → r.left = false ∨ r.right = false ∨
      ∀ s, (2 ^ align2 : Int) ∣ s → ofs ≤ s → s + size ≤ ofs + size₀ → ¬ σ.Clear s size)
    ∧ ∀ q, b = some q → m'.size q = size ∧ (2 ^ align2 : Int) ∣ m'.ofs q ∧ ofs ≤ m'.ofs q
      ∧ m'.ofs q + size ≤ ofs + size₀ ∧ q ∉ σ.out ∧ σ.Clear (m'.ofs q) size := by
  obtain ⟨bs, hinv, hsp, hnd, hout⟩ := h.ok
  cases (mmAllocMem_cases hinv r size align2 0).1 _ hrun with
  | null hwhy hn =>
      refine ⟨fun _ => ?_, fun q h => (by cases h)⟩
      rcases hwhy with hneg | hneg | (hl | hr) | hnone
      · omega
      · omega
      · exact .inl hl
      · exact .inr (.inl hr)
      · refine .inr (.inr fun s halign hs hend hclear => ?_)
        obtain ⟨b, hb, hfree, hfit⟩ := Heap.Ok.fits_of_clear hofs hinv hsp hout hsize halign hs hend hclear
        rw [Int.toNat_natCast] at hnone
        rw [hnone b hb hfree] at hfit
        cases hfit
  | torn ht =>
      obtain ⟨-, -, hl, hr, -⟩ := ht
      exact ⟨fun _ => .inr (.inl hr), fun q h => (by cases h)⟩
  | @block p q bs' m' hp hfree htop hq hend hqsize hinv' _ hnew _ =>
      refine ⟨fun h => (by cases h), ?_⟩
      rintro q ⟨⟩
      rw [Int.toNat_natCast] at hq hend
      have hpin := hinv.tiles.mem hp
      have hplace : place (σ.mem.block p) align2 0 = roundUp (σ.mem.ofs p) align2 :=
        max_eq_left ((hofs.trans hpin.1).trans (le_roundUp _ align2))
      have hle := le_roundUp (σ.mem.ofs p) align2
      rw [hplace] at hq hend
      refine ⟨hqsize, hq ▸ roundUp_dvd .., by omega, by omega, fun hmem => hnew ((hout q).mp hmem), fun c hc => ?_⟩
      obtain ⟨hcb, hused⟩ := (hout c).mp hc
      have hcp : c ≠ p := by
        rintro rfl
        rw [hfree] at hused
        cases hused
      rcases hinv.tiles.apart hcb hp hcp with hac | hac <;> omega

/-- An allocation for which there is memory is not torn. -/
theorem Heap.Whole.alloc {size : Int} (h : σ.Whole ofs size₀) {align2 startSearch : Int} {σ' : Heap}
    (hrun : (Request.allocMem {} size align2 startSearch).run σ = .ok σ') : σ'.Whole ofs size₀ :=
  h.step ⟨.allocMem {} size align2 startSearch, trivial, fun ht => absurd ht.2.2.2.1 (by decide), hrun⟩

/-- Of two blocks of 16 bytes the first is freed; 32 bytes are found behind the second. -/
theorem alloc_complete_behind : ∃ (σ : Heap) (m' : Memory), σ.Whole 0 64 ∧ σ.out = [2]
    ∧ mmAllocMem {} (some σ.heap) 32 4 0 σ.mem = .ok (some 3, m')
    ∧ m'.size 3 = 32 ∧ (2 ^ 4 : Int) ∣ m'.ofs 3 ∧ σ.Clear (m'.ofs 3) 32 := by
  obtain ⟨σ₁, h₁, σ₂, h₂, hout₂, σ₃, h₃, hout₃, m', hrun⟩ : ∃ σ₁, (Request.allocMem {} 16 4 0).run fresh64 = .ok σ₁ ∧
      ∃ σ₂, (Request.allocMem {} 16 4 0).run σ₁ = .ok σ₂ ∧ σ₂.out = [2, 1] ∧
      ∃ σ₃, (Request.freeMem (some 1)).run σ₂ = .ok σ₃ ∧ σ₃.out = [2] ∧
      ∃ m', mmAllocMem {} (some σ₃.heap) 32 4 0 σ₃.mem = .ok (some 3, m') :=
    ⟨_, rfl, _, rfl, rfl, _, rfl, rfl, _, rfl⟩
  have hwhole₂ : σ₂.Whole 0 64 := (Heap.Whole.alloc (.init fresh64_init) h₁).alloc h₂
  have hheld : (Request.freeMem (some 1)).Allowed σ₂ := by
    rintro c ⟨⟩
    rw [hout₂]
    decide
  have hwhole₃ : σ₃.Whole 0 64 := hwhole₂.step ⟨.freeMem (some 1), hheld, id, h₃⟩
  obtain ⟨-, hblock⟩ := alloc_complete (le_refl 0) hwhole₃ (by decide) 4 hrun
  obtain ⟨hsize, halign, -, -, -, hclear⟩ := hblock 3 rfl
  exact ⟨σ₃, m', hwhole₃, hout₃, hrun, hsize, halign, hclear⟩

/-- Where there is no memory for a split, none is found, though the heap is free. -/
theorem alloc_noMemory_fresh64 : fresh64.Served 0 64
    ∧ mmAllocMem ⟨true, false⟩ (some fresh64.heap) 16 4 0 fresh64.mem = .ok (none, fresh64.mem)
    ∧ (2 ^ 4 : Int) ∣ 0 ∧ fresh64.Clear 0 16 :=
  ⟨.init fresh64_init, rfl, dvd_zero _, nofun⟩

/-! ## Freeing -/

/-- The blocks in the order of their addresses, as offsets, sizes and whether they are free. -/
def Layout (heap : BlockId) (m : Memory) (L : List (Int × Int × Bool)) : Prop :=
  ∃ bs, IsList m.list heap bs ∧ L = bs.map fun b => (m.ofs b, m.size b, m.free b)

theorem Layout.unique {L L' : List (Int × Int × Bool)} (h : Layout heap m L) (h' : Layout heap m L') : L = L' := by
  obtain ⟨bs, hbs, rfl⟩ := h
  obtain ⟨bs', hbs', rfl⟩ := h'
  rw [hbs.unique hbs']

/-- `mmFreeMem` on one block after the other. -/
def freeAll : List BlockId → Memory → Except Fault Memory
  | [], m => .ok m
  | b :: order, m => do
      let (_, m) ← mmFreeMem (some b) m
      freeAll order m

/-- The heap after blocks were freed, the others where they were. -/
structure Freed (lo hi : Int) (σ : Heap) (order : List BlockId) (m : Memory) : Prop where
  ok : Heap.Ok lo hi { σ with mem := m, out := σ.out.filter fun c => c ∉ order }
  kept : ∀ c ∈ σ.out, c ∉ order → m.ofs c = σ.mem.ofs c ∧ m.size c = σ.mem.size c

/-- In a narrow range all blocks that are held can be freed, in any order. -/
theorem freeAll_spec (hn : Narrow lo hi) {order : List BlockId} (h : σ.Ok lo hi) (hnd : order.Nodup)
    (hsub : order ⊆ σ.out) : Returns (freeAll order σ.mem) (Freed lo hi σ order) := by
  induction order generalizing σ with
  | nil => exact .ok ⟨by simpa using h, fun _ _ _ => ⟨rfl, rfl⟩⟩
  | cons b order ih =>
      obtain ⟨hb, hnd⟩ := List.nodup_cons.mp hnd
      have hbout : b ∈ σ.out := hsub List.mem_cons_self
      have hret : ∃ res, mmFreeMem (some b) σ.mem = .ok res := by
        obtain ⟨bs, hinv, -, -, hout⟩ := h
        obtain ⟨res, hres, -⟩ := (mmFreeMem_cases hinv ((hout b).mp hbout)).returns fun _ he => he.2 hn
        exact ⟨res, hres⟩
      obtain ⟨⟨ret, m₁⟩, hres⟩ := hret
      obtain ⟨hok, hkept⟩ := (h.freeMem hbout) _ hres
      have hout₁ : ∀ c, c ∈ σ.out.filter (fun c => some b ≠ some c) ↔ c ∈ σ.out ∧ c ≠ b := by
        intro c
        rw [List.mem_filter]
        simp only [ne_eq, Option.some_inj, decide_eq_true_eq]
        exact and_congr_right fun _ => ne_comm
      rw [freeAll, hres]
      refine (ih hok hnd fun c hc => (hout₁ c).mpr ⟨hsub (List.mem_cons_of_mem _ hc), ?_⟩).mono fun m hm => ?_
      · exact ne_of_mem_of_not_mem hc hb
      obtain ⟨hok', hkept'⟩ := hm
      refine ⟨?_, fun c hc hcn => ?_⟩
      · have hfilter : (σ.out.filter (fun c => some b ≠ some c)).filter (fun c => c ∉ order)
            = σ.out.filter fun c => c ∉ b :: order := by
          rw [List.filter_filter]
          refine List.filter_congr fun c _ => ?_
          simp only [ne_eq, Option.some_inj, List.mem_cons, not_or, Bool.decide_and, decide_not, Bool.and_comm,
            eq_comm (a := b)]
        rw [← hfilter]
        exact hok'
      · obtain ⟨hcb, hco⟩ := not_or.mp (mt List.mem_cons.mpr hcn)
        have hk := hkept c hc hcb
        have hk' := hkept' c ((hout₁ c).mpr ⟨hc, hcb⟩) hco
        exact ⟨hk'.1.trans hk.1, hk'.2.trans hk.2⟩

/-! ## The order of the blocks does not matter -/

/-- The pieces in use are the blocks that are held. -/
theorem used_iff (hout : ∀ b, b ∈ σ.out ↔ InUse bs σ.mem b) (o s : Int) :
    Used σ.mem.ofs σ.mem.size σ.mem.free bs o s ↔ ∃ c ∈ σ.out, σ.mem.ofs c = o ∧ σ.mem.size c = s := by
  simp only [Used, hout, InUse, and_assoc]

/-- Two heaps of one range in which the same blocks are held, at the same places, look the same. -/
theorem Heap.Ok.layout_iff (h : σ.Ok lo hi) (h' : σ'.Ok lo hi) (hmem : ∀ c, c ∈ σ'.out ↔ c ∈ σ.out)
    (hkept : ∀ c ∈ σ.out, σ'.mem.ofs c = σ.mem.ofs c ∧ σ'.mem.size c = σ.mem.size c) (L : List (Int × Int × Bool)) :
    Layout σ'.heap σ'.mem L ↔ Layout σ.heap σ.mem L := by
  obtain ⟨bs, hinv, hsp, -, hout⟩ := h
  obtain ⟨bs', hinv', hsp', -, hout'⟩ := h'
  have hused : ∀ o s, Used σ.mem.ofs σ.mem.size σ.mem.free bs o s
      ↔ Used σ'.mem.ofs σ'.mem.size σ'.mem.free bs' o s := by
    intro o s
    rw [used_iff hout, used_iff hout']
    refine exists_congr fun c => ?_
    rw [hmem]
    exact and_congr_right fun hc => by rw [(hkept c hc).1, (hkept c hc).2]
  have hsame := hinv.tiles.determined hinv'.tiles hsp hsp' hused
  constructor
  · intro hL
    exact ⟨bs, hinv.list, (hL.unique ⟨bs', hinv'.list, rfl⟩).trans hsame.symm⟩
  · intro hL
    exact ⟨bs', hinv'.list, (hL.unique ⟨bs, hinv.list, rfl⟩).trans hsame⟩

/-- A heap of which nothing is held is one free block. -/
theorem Heap.Ok.layout_empty (h : σ.Ok lo hi) (hlt : lo < hi) (hempty : σ.out = []) :
    Layout σ.heap σ.mem [(lo, hi - lo, true)] := by
  obtain ⟨bs, hinv, hsp, -, hout⟩ := h
  have hfree : ∀ b ∈ bs, σ.mem.free b = true := by
    intro b hb
    by_contra hused
    have hmem := (hout b).mpr ⟨hb, Bool.eq_false_iff.mpr hused⟩
    rw [hempty] at hmem
    cases hmem
  match bs, hinv, hsp, hfree with
  | [], hinv, _, _ => exact absurd hinv.tiles (ne_of_lt hlt)
  | [b], hinv, _, hfree =>
      obtain ⟨hofs, -, hend⟩ := hinv.tiles
      have hend : lo + σ.mem.size b = hi := hend
      have hsize : hi - lo = σ.mem.size b := by omega
      refine ⟨[b], hinv.list, ?_⟩
      rw [List.map_singleton, hofs, hsize, hfree b List.mem_cons_self]
  | b :: c :: bs, _, hsp, hfree =>
      have hbc := (List.isChain_cons.mp hsp).1 (σ.mem.free c) rfl
      exact absurd ⟨hfree b (by simp), hfree c (by simp)⟩ hbc

/-! ## Allocations in a row -/

/-- The heap after some allocations, none of them torn: `got` is what they returned. -/
structure Grown (ofs size₀ : Int) (σ σ' : Heap) (got : List BlockId) : Prop where
  whole : σ'.Whole ofs size₀
  out : σ'.out = got ++ σ.out
  kept : ∀ c ∈ σ.out, σ'.mem.ofs c = σ.mem.ofs c ∧ σ'.mem.size c = σ.mem.size c
  heap : σ'.heap = σ.heap

/-- The request is an allocation, and is not torn. -/
def Allocates (σ : Heap) (q : Request) : Prop := (∃ r size align2 startSearch,
  q = .allocMem r size align2 startSearch) ∧ ¬ q.Torn σ

/-- An allocation puts what it returns before the blocks that are held, which stay where they are. -/
theorem allocates_grown {got : List BlockId} (h : Grown ofs size₀ σ σ' got) {σ'' : Heap}
    (hstep : Heap.StepIf Allocates σ' σ'') : ∃ got', Grown ofs size₀ σ σ'' got' := by
  obtain ⟨q, hq, ⟨⟨r, size, align2, startSearch, rfl⟩, hn⟩, hrun⟩ := hstep
  obtain ⟨⟨b, m⟩, hres, hpure⟩ := exists_of_bind_ok hrun
  cases hpure
  have hheld := fun c => h.whole.ok.held (b := c)
  obtain ⟨bs, hinv, -⟩ := h.whole.served.holds
  have hkept := mmAllocMem_kept hinv.known r _ size align2 startSearch _ hres
  refine ⟨b.toList ++ got, .step h.whole ⟨_, hq, hn, hrun⟩, ?_, fun c hc => ?_, h.heap⟩
  · rw [h.out, List.append_assoc]
  · have hc' : c ∈ σ'.out := h.out ▸ List.mem_append_right _ hc
    have hblock := hkept.2 c (hheld c hc').2 (hheld c hc').1
    have hk := h.kept c hc
    simp only [Memory.ofs, Memory.size] at hk ⊢
    rw [hblock]
    exact hk

/-- A block is handed out only if the end of the range is an `int`. -/
theorem Heap.Whole.lt (h : σ.Whole ofs size₀) (hpos : 0 < size₀) (hout : σ.out ≠ []) : ofs + size₀ < 2 ^ 31 := by
  induction h with
  | init hinit => exact absurd hinit.2 hout
  | @step σ σ' hreach hstep ih =>
      by_cases hempty : σ.out = []
      · -- the heap is one free block, which was found to be large enough
        obtain ⟨q, hq, hn, hrun⟩ := hstep
        have hok := Heap.Whole.ok hreach
        obtain ⟨bs, hbs, hL⟩ := hok.layout_empty (Int.lt_add_of_pos_right _ hpos) hempty
        obtain ⟨bs', hinv, -⟩ := hok
        obtain rfl := hbs.unique hinv.list
        cases q with
        | allocMem r size align2 startSearch =>
            obtain ⟨⟨b, m⟩, hres, hpure⟩ := exists_of_bind_ok hrun
            cases hpure
            cases (mmAllocMem_cases hinv r size align2 startSearch).1 _ hres with
            | null => exact absurd hempty hout
            | torn ht => exact absurd ht hn
            | @block p _ _ _ hp _ htop =>
                have hmem := List.mem_map_of_mem (f := fun b => (σ.mem.ofs b, σ.mem.size b, σ.mem.free b)) hp
                rw [← hL, List.mem_singleton] at hmem
                obtain ⟨hofs, hsize⟩ := Prod.mk.inj hmem
                have hsize := (Prod.mk.inj hsize).1
                omega
        | freeMem b =>
            obtain ⟨⟨ret, m⟩, -, hpure⟩ := exists_of_bind_ok hrun
            cases hpure
            exact absurd (by rw [hempty]; rfl) hout
      · exact ih hempty

/-- Blocks that are held can be freed in any order, and what is left is held as before. -/
theorem Heap.Whole.freeAll (hofs : -2 ^ 31 ≤ ofs) (hsize : size₀ < 2 ^ 31) (h : σ.Whole ofs size₀)
    {order : List BlockId} (hnd : order.Nodup) (hsub : order ⊆ σ.out) :
    Returns (Mm.freeAll order σ.mem) (Freed ofs (ofs + size₀) σ order) := by
  cases order with
  | nil => exact .ok ⟨by simpa using h.ok, fun _ _ _ => ⟨rfl, rfl⟩⟩
  | cons b order =>
      have hne : σ.out ≠ [] := List.ne_nil_of_mem (hsub List.mem_cons_self)
      have hlt := h.lt h.served.pos hne
      exact freeAll_spec ⟨hofs, hlt, by omega⟩ h.ok hnd hsub

/-- In every heap in which no allocation was torn, the blocks that are held can be freed in any order, and one
free block is left; and after any allocations, none of them torn, what they returned can be freed in any order,
and the blocks of the heap are what they were. -/
theorem free_order (hofs : -2 ^ 31 ≤ ofs) (hsize : size₀ < 2 ^ 31) (h : σ.Whole ofs size₀) :
    (∀ order : List BlockId, order.Perm σ.out →
      Returns (freeAll order σ.mem) fun m => Layout σ.heap m [(ofs, size₀, true)])
    ∧ ∀ σ', Runs (· = σ) (Heap.StepIf Allocates) σ' → ∃ got, σ'.out = got ++ σ.out
      ∧ ∀ order : List BlockId, order.Perm got →
        Returns (freeAll order σ'.mem) fun m => ∀ L, Layout σ.heap m L ↔ Layout σ.heap σ.mem L := by
  have hnodup : ∀ {σ : Heap}, σ.Whole ofs size₀ → σ.out.Nodup := fun h => by
    obtain ⟨bs, -, -, hnd, -⟩ := h.ok
    exact hnd
  constructor
  · intro order hperm
    refine (h.freeAll hofs hsize (hperm.nodup_iff.mpr (hnodup h)) hperm.subset).mono fun m hm => ?_
    have hempty : σ.out.filter (fun c => c ∉ order) = [] :=
      List.filter_eq_nil_iff.mpr fun c hc => by simpa using hperm.mem_iff.mpr hc
    have hlayout := hm.ok.layout_empty (Int.lt_add_of_pos_right _ h.served.pos) hempty
    have hwhole : ofs + size₀ - ofs = size₀ := by omega
    rwa [hwhole] at hlayout
  · intro σ' hreach
    obtain ⟨got, hgrown⟩ : ∃ got, Grown ofs size₀ σ σ' got := by
      refine Runs.induct (I := fun σ' => ∃ got, Grown ofs size₀ σ σ' got) ?_ ?_ hreach
      · rintro _ rfl
        exact ⟨[], h, rfl, fun _ _ => ⟨rfl, rfl⟩, rfl⟩
      · rintro σ₁ σ₂ ⟨got, hgot⟩ hstep
        exact allocates_grown hgot hstep
    refine ⟨got, hgrown.out, fun order hperm => ?_⟩
    have hnd := hnodup hgrown.whole
    rw [hgrown.out] at hnd
    obtain ⟨hndgot, -, hdisj⟩ := List.nodup_append.mp hnd
    refine (hgrown.whole.freeAll hofs hsize (hperm.nodup_iff.mpr hndgot) fun c hc => ?_).mono fun m hm L => ?_
    · rw [hgrown.out]
      exact List.mem_append_left _ (hperm.subset hc)
    · have hkeep : ∀ c ∈ σ.out, c ∉ order := fun c hc hco => hdisj c (hperm.subset hco) c hc rfl
      have hsame := h.ok.layout_iff hm.ok (fun c => ?_) (fun c hc => ?_) L
      · rw [← hgrown.heap]
        exact hgrown.heap ▸ hsame
      · rw [List.mem_filter, hgrown.out, List.mem_append]
        constructor
        · rintro ⟨hc | hc, hco⟩
          · exact absurd (hperm.mem_iff.mpr hc) (of_decide_eq_true hco)
          · exact hc
        · exact fun hc => ⟨.inr hc, decide_eq_true (hkeep c hc)⟩
      · have hk := hm.kept c (hgrown.out ▸ List.mem_append_right _ hc) (hkeep c hc)
        have hk' := hgrown.kept c hc
        exact ⟨hk.1.trans hk'.1, hk.2.trans hk'.2⟩

/-- A block out of the middle of a heap and one before it, which are freed in the order in which they were given. -/
theorem free_order_twoBlocks : ∃ σ : Heap, σ.Whole 0 64 ∧ σ.out = [1, 2]
    ∧ Returns (freeAll [2, 1] σ.mem) fun m => Layout σ.heap m [(0, 64, true)] := by
  obtain ⟨σ₁, h₁, σ₂, h₂, hout⟩ : ∃ σ₁, (Request.allocMem {} 16 4 16).run fresh64 = .ok σ₁ ∧
      ∃ σ₂, (Request.allocMem {} 16 4 0).run σ₁ = .ok σ₂ ∧ σ₂.out = [1, 2] := ⟨_, rfl, _, rfl, rfl⟩
  have h : σ₂.Whole 0 64 := (Heap.Whole.alloc (.init fresh64_init) h₁).alloc h₂
  refine ⟨σ₂, h, hout, (free_order (by decide) (by decide) h).1 [2, 1] ?_⟩
  rw [hout]
  exact .swap ..

/-- After a torn allocation nothing is held, and there are two blocks. -/
theorem torn_leaves_two : ∃ σ : Heap, σ.Served 0 64 ∧ σ.out = []
    ∧ ¬ Returns (freeAll [] σ.mem) fun m => Layout σ.heap m [(0, 64, true)] := by
  obtain ⟨m', hrun⟩ : ∃ m', mmAllocMem ⟨true, false⟩ (some fresh64.heap) 16 0 16 fresh64.mem = .ok (none, m') := ⟨_, rfl⟩
  have hreq : (Request.allocMem ⟨true, false⟩ 16 0 16).run fresh64 = .ok { fresh64 with mem := m' } := by
    rw [Request.run, hrun]
    rfl
  have h : fresh64.Served 0 64 := .init fresh64_init
  refine ⟨_, h.step ⟨.allocMem ⟨true, false⟩ 16 0 16, trivial, trivial, hreq⟩, rfl, ?_⟩
  rintro ⟨m, hfree, bs, hbs, hL⟩
  obtain rfl : m' = m := Except.ok.inj hfree
  obtain ⟨bs₀, hinv, -⟩ := h.holds
  cases (mmAllocMem_cases hinv _ _ _ _).1 _ hrun with
  | null _ hn => exact hn fresh64_torn
  | torn _ _ hinv' _ =>
      have hlen := congrArg List.length hL
      rw [hbs.unique hinv'.list, List.length_map, List.length_append] at hlen
      simp only [List.length_cons, List.length_nil] at hlen
      omega

end LibDrm.Mm
