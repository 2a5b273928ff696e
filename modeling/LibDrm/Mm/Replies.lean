/-
# `LibDrm.Mm.Replies` — allocations for which there may be no memory

In the runs of `LibDrm.Mm.Invariant` every `calloc` succeeds.  Here each request
says which of the two in `SliceBlock` do.

    left split    right split    what `mmAllocMem` leaves behind
    -----------   ------------   ------------------------------------------
    made          made           the block, and a free one on each side
    no memory     --             NULL, nothing is changed
    not needed    no memory      NULL, nothing is changed
    made          no memory      NULL, and a free block cut in two  (`Torn`)

**Proved here.**  In every heap that can be reached, however many allocations
failed before, an allocation that returns NULL leaves the two lists as they were
exactly if it was not torn (`failed_alloc_unchanged_iff`).  The blocks tile the
range in all these heaps (`Heap.Served.held`); that no two neighbours are free
is kept where no request is torn (`Heap.Whole.ok`).
-/
import LibDrm.Mm.Invariant

namespace LibDrm.Mm

open DList (IsList)
open Tiling

/-! ## Requests -/

/-- A call of the user, with the answers of the allocations that it asks for. -/
inductive Request
  | allocMem (r : CallocReply) (size align2 startSearch : Int)
  | freeMem (b : Option BlockId)

/-- The user frees what it holds, or NULL. -/
def Request.Allowed (σ : Heap) : Request → Prop
  | .allocMem .. => True
  | .freeMem b => ∀ c, b = some c → c ∈ σ.out

def Request.run (σ : Heap) : Request → Except Fault Heap
  | .allocMem r size align2 startSearch => do
      let (b, mem) ← mmAllocMem r (some σ.heap) size align2 startSearch σ.mem
      return { σ with mem := mem, out := b.toList ++ σ.out }
  | .freeMem b => do
      let (_, mem) ← mmFreeMem b σ.mem
      return { σ with mem := mem, out := σ.out.filter fun c => b ≠ some c }

/-- The request is an allocation that makes one split of two. -/
def Request.Torn (σ : Heap) : Request → Prop
  | .allocMem r size align2 startSearch => Mm.Torn σ.heap r size align2 startSearch σ.mem
  | .freeMem _ => False

/-- A request that `ok` admits is carried out. -/
def Heap.StepIf (ok : Heap → Request → Prop) (σ σ' : Heap) : Prop :=
  ∃ q : Request, q.Allowed σ ∧ ok σ q ∧ q.run σ = .ok σ'

/-- The heaps that any requests lead to. -/
abbrev Heap.Served (ofs size : Int) : Heap → Prop := Runs (Heap.Init ofs size) (Heap.StepIf fun _ _ => True)

/-- The heaps that requests lead to of which none is torn. -/
abbrev Heap.Whole (ofs size : Int) : Heap → Prop := Runs (Heap.Init ofs size) (Heap.StepIf fun σ q => ¬ q.Torn σ)

variable {σ σ' : Heap} {lo hi : Int} {bs : List BlockId} {heap : BlockId} {m m' : Memory} {r : CallocReply}
  {size align2 startSearch : Int}

theorem Heap.Whole.served {ofs : Int} (h : σ.Whole ofs size) : σ.Served ofs size :=
  Runs.mono (fun _ _ ⟨q, hq, _, hrun⟩ => ⟨q, hq, trivial, hrun⟩) h

theorem Heap.Served.pos {ofs size₀ : Int} (h : σ.Served ofs size₀) : 0 < size₀ := by
  have hinit : ∃ σ : Heap, σ.Init ofs size₀ := by
    induction h with
    | init h => exact ⟨_, h⟩
    | step _ _ ih => exact ih
  obtain ⟨σ, hinit, -⟩ := hinit
  by_contra hle
  rw [mmInit, if_pos (Int.not_lt.mp hle)] at hinit
  cases hinit

/-! ## What all heaps have in common -/

/-- The blocks tile the range, and those in use are with the user. -/
def Heap.Holds (lo hi : Int) (σ : Heap) (bs : List BlockId) : Prop :=
  Inv σ.heap lo hi bs σ.mem ∧ σ.out.Nodup ∧ ∀ b, b ∈ σ.out ↔ InUse bs σ.mem b

/-- A request keeps the tiling; if it is not torn, no two neighbours are free after it if none were. -/
theorem Request.run_holds (h : σ.Holds lo hi bs) {q : Request} (hq : q.Allowed σ) :
    Safe (q.run σ) fun σ' => ∃ bs', σ'.Holds lo hi bs'
      ∧ (¬ q.Torn σ → Spaced (bs.map σ.mem.free) → Spaced (bs'.map σ'.mem.free)) := by
  obtain ⟨hinv, hnd, hout⟩ := h
  cases q with
  | allocMem r size align2 startSearch =>
      refine (mmAllocMem_cases hinv r size align2 startSearch).bind fun res hres => ?_
      cases hres with
      | null => exact .pure ⟨bs, ⟨hinv, hnd, hout⟩, fun _ hsp => hsp⟩
      | torn ht hbs hinv' huse =>
          refine .pure ⟨_, ⟨hinv', hnd, fun b => (hout b).trans (huse b).symm⟩, fun hn => absurd ht hn⟩
      | block _ _ _ _ _ _ hinv' hsp hnew huse =>
          refine .pure ⟨_, ⟨hinv', List.nodup_cons.mpr ⟨fun hq => hnew ((hout _).mp hq), hnd⟩, fun b => ?_⟩,
            fun _ => hsp⟩
          rw [huse b, ← hout b]
          exact List.mem_cons
  | freeMem b =>
      cases b with
      | none => exact .ok ⟨bs, ⟨hinv, hnd.filter _, fun b => by simpa using hout b⟩, fun _ hsp => hsp⟩
      | some b =>
          have hb := (hout b).mp (hq b rfl)
          refine ((mmFreeMem_cases hinv hb).allow fun _ he => he.1).bind ?_
          rintro ⟨ret, m'⟩ ⟨-, bs', hinv', hsp', huse⟩
          refine .pure ⟨bs', ⟨hinv', hnd.filter _, fun c => ?_⟩, fun _ => hsp'⟩
          rw [huse c, ← hout c, List.mem_filter]
          refine and_congr_right fun _ => ?_
          simp only [ne_eq, Option.some_inj, decide_eq_true_eq]
          exact ne_comm

theorem Heap.Init.holds {ofs : Int} (h : σ.Init ofs size) : ∃ bs, σ.Holds ofs (ofs + size) bs := by
  obtain ⟨bs, hinv, -, hnd, hout⟩ := h.ok
  exact ⟨bs, hinv, hnd, hout⟩

theorem Heap.Served.holds {ofs : Int} (h : σ.Served ofs size) : ∃ bs, σ.Holds ofs (ofs + size) bs := by
  refine Runs.induct (I := fun σ => ∃ bs, σ.Holds ofs (ofs + size) bs) (fun σ hσ => Heap.Init.holds hσ) ?_ h
  rintro σ σ' ⟨bs, hσ⟩ ⟨q, hq, -, hrun⟩
  obtain ⟨bs', hσ', -⟩ := (Request.run_holds hσ hq).1 σ' hrun
  exact ⟨bs', hσ'⟩

/-- Where no request is torn, no two neighbours are free. -/
theorem Heap.Whole.ok {ofs : Int} (h : σ.Whole ofs size) : σ.Ok ofs (ofs + size) := by
  refine Runs.induct (fun σ hσ => hσ.ok) ?_ h
  rintro σ σ' ⟨bs, hinv, hsp, hnd, hout⟩ ⟨q, hq, hn, hrun⟩
  obtain ⟨bs', ⟨hinv', hnd', hout'⟩, hsp'⟩ := (Request.run_holds ⟨hinv, hnd, hout⟩ hq).1 σ' hrun
  exact ⟨bs', hinv', hsp' hn hsp, hnd', hout'⟩

/-! ## An allocation that returns NULL -/

/-- The list of blocks and the list of free ones are the same, and so is each block. -/
structure SameLists (heap : BlockId) (m m' : Memory) : Prop where
  list : ∀ bs, IsList m.list heap bs ↔ IsList m'.list heap bs
  freeList : ∀ fs, IsList m.freeList heap fs ↔ IsList m'.freeList heap fs
  block : ∀ bs, IsList m.list heap bs → ∀ b ∈ bs, m'.block b = m.block b

theorem SameLists.refl (heap : BlockId) (m : Memory) : SameLists heap m m :=
  ⟨fun _ => .rfl, fun _ => .rfl, fun _ _ _ _ => rfl⟩

/-- A torn allocation leaves one block more on the list. -/
theorem Torn.changes (ht : Torn heap r size align2 startSearch m) (h : Inv heap lo hi bs m)
    (hrun : mmAllocMem r (some heap) size align2 startSearch m = .ok (none, m')) : ¬ SameLists heap m m' := by
  intro hsame
  cases (mmAllocMem_cases h r size align2 startSearch).1 _ hrun with
  | null _ hn => exact hn ht
  | torn _ hbs hinv _ =>
      have hlen := congrArg List.length (((hsame.list bs).mp h.list).unique hinv.list)
      rw [hbs] at hlen
      simp at hlen

/-- In every heap that any requests lead to, an allocation that returns NULL leaves the lists as they were
exactly if it was not torn. -/
theorem failed_alloc_unchanged_iff {ofs size₀ : Int} (h : σ.Served ofs size₀)
    (hrun : mmAllocMem r (some σ.heap) size align2 startSearch σ.mem = .ok (none, m')) :
    SameLists σ.heap σ.mem m' ↔ ¬ Torn σ.heap r size align2 startSearch σ.mem := by
  obtain ⟨bs, hinv, -⟩ := h.holds
  refine ⟨fun hsame ht => ht.changes hinv hrun hsame, fun hn => ?_⟩
  cases (mmAllocMem_cases hinv r size align2 startSearch).1 _ hrun with
  | null => exact .refl ..
  | torn ht => exact absurd ht hn

/-- A heap of 64 bytes that was just made. -/
def fresh64 : Heap := ⟨(mmInit true true 0 64).2, 0, []⟩

theorem fresh64_init : fresh64.Init 0 64 := ⟨rfl, rfl⟩

/-- Its one block is free. -/
theorem fresh64_freeList : IsList fresh64.mem.freeList 0 [1] := by
  refine ⟨⟨?_, ?_, ?_, ?_⟩, by decide⟩ <;> rfl

/-- At the start of the block there is only a right split, and it is not made. -/
theorem failed_alloc_unchanged_start : ∃ m', mmAllocMem ⟨true, false⟩ (some 0) 16 0 0 fresh64.mem = .ok (none, m')
    ∧ (SameLists 0 fresh64.mem m' ↔ ¬ Torn 0 ⟨true, false⟩ 16 0 0 fresh64.mem) := by
  obtain ⟨m', hrun⟩ : ∃ m', mmAllocMem ⟨true, false⟩ (some 0) 16 0 0 fresh64.mem = .ok (none, m') := ⟨_, rfl⟩
  exact ⟨m', hrun, failed_alloc_unchanged_iff (.init fresh64_init) hrun⟩

theorem fresh64_torn : Torn 0 ⟨true, false⟩ 16 0 16 fresh64.mem :=
  ⟨by decide, by decide, rfl, rfl, [1], 1, fresh64_freeList, rfl, by decide, by decide⟩

/-- In its middle the left split is made, and then there is no memory for the right one. -/
theorem failed_alloc_changes_middle : ∃ m', fresh64.Served 0 64
    ∧ mmAllocMem ⟨true, false⟩ (some fresh64.heap) 16 0 16 fresh64.mem = .ok (none, m')
    ∧ ¬ SameLists fresh64.heap fresh64.mem m' := by
  obtain ⟨m', hrun⟩ : ∃ m', mmAllocMem ⟨true, false⟩ (some 0) 16 0 16 fresh64.mem = .ok (none, m') := ⟨_, rfl⟩
  have h : fresh64.Served 0 64 := .init fresh64_init
  obtain ⟨bs, hinv, -⟩ := h.holds
  exact ⟨m', h, hrun, fresh64_torn.changes hinv hrun⟩

end LibDrm.Mm
