/-
# `LibDrm.Mm.Wrap` — the heap with arithmetic that wraps around

`LibDrm.Mm.Heap` stops at an overflow.  Here the sums and differences of
`mmAllocMem`, `SliceBlock` and `Join2Blocks` are stored in an `int` as they are,
so that the functions go on with a wrong value; where nothing overflows they do
what they do there (`mmAllocMem_wraps`, `mmFreeMem_wraps`).

**Proved here.**  For any run of such calls, and a block that an allocation in
the heap reached returns: it has the alignment, the start and the size that were
asked for and lies in the free block it was cut from exactly if

    p->ofs + mask                       does not overflow,
    startSearch                         is not past the aligned offset, or is aligned,
    the start, and size behind it       is no later than the end of p,

where `p` is the block at which the search stopped (`alloc_honours_iff`).
-/
import LibDrm.Mm.Replies

namespace LibDrm.Mm.Wrap

open CInt

/-! ## The functions -/

def startOfs (b : MemBlock) (align2 : Nat) (startSearch : Int) : Int :=
  let x := int32 (b.ofs + (2 ^ align2 - 1))
  let startofs := x - x % 2 ^ align2
  if startofs < startSearch then startSearch else startofs

def searchFree (heap : BlockId) (size : Int) (align2 : Nat) (startSearch : Int) (m : Memory) :
    Nat → BlockId → Except Fault (Option (BlockId × Int))
  | 0, _ => .error .outOfFuel
  | k + 1, p =>
      if p = heap then .ok none
      else do
        let b ← m.get p
        if !b.free then .error .assertion
        else if int32 (startOfs b align2 startSearch + size) ≤ int32 (b.ofs + b.size) then
          return some (p, startOfs b align2 startSearch)
        else do
          let next ← deref (DList.nxt m.freeList p)
          searchFree heap size align2 startSearch m k next

/-- The loop of `mmAllocMem`: where it stops, and the start of the block there. -/
def findFree (heap : BlockId) (size align2 startSearch : Int) (m : Memory) : Except Fault (Option (BlockId × Int)) := do
  let first ← deref (DList.nxt m.freeList heap)
  searchFree heap size align2.toNat startSearch m (m.fresh + 1) first

def breakLeft (callocOk : Bool) (p : BlockId) (startofs : Int) (m : Memory) :
    Except Fault (Option BlockId × Memory) := do
  let b ← m.get p
  if startofs > b.ofs then
    if callocOk then do
      let size := int32 (b.size - int32 (startofs - b.ofs))
      let (newblock, m) ← breakBlock p startofs size (int32 (b.size - size)) m
      return (some newblock, m)
    else return (none, m)
  else return (some p, m)

def breakRight (callocOk : Bool) (p : BlockId) (startofs size : Int) (m : Memory) :
    Except Fault (Bool × Memory) := do
  let b ← m.get p
  if size < b.size then
    if callocOk then do
      let (_, m) ← breakBlock p (int32 (startofs + size)) (int32 (b.size - size)) size m
      return (true, m)
    else return (false, m)
  else return (true, m)

def sliceBlock (r : CallocReply) (p : BlockId) (startofs size : Int) (reserved : Bool) (m : Memory) :
    Except Fault (Option BlockId × Memory) := do
  let (left, m) ← breakLeft r.left p startofs m
  match left with
  | none => return (none, m)
  | some p => do
      let (done, m) ← breakRight r.right p startofs size m
      if done then do
        let m ← takeBlock p reserved m
        return (some p, m)
      else return (none, m)

/-- `mmAllocMem`. -/
def mmAllocMem (r : CallocReply) (heap : Option BlockId) (size align2 startSearch : Int) (m : Memory) :
    Except Fault (Option BlockId × Memory) :=
  match heap with
  | none => .ok (none, m)
  | some heap =>
      if align2 < 0 ∨ size ≤ 0 then .ok (none, m)
      -- the behaviour of `1 << align2` is not defined
      else if 31 ≤ align2 then .error .overflow
      else do
        let found ← findFree heap size align2 startSearch m
        match found with
        | none => return (none, m)
        | some (p, startofs) => do
            let b ← m.get p
            if !b.free then .error .assertion
            else sliceBlock r p startofs size false m

def join2Blocks (p : BlockId) (m : Memory) : Except Fault (Bool × Memory) := do
  let b ← m.get p
  if !b.free then return (false, m)
  else do
    let q ← deref (DList.nxt m.list p)
    let c ← m.get q
    if !c.free then return (false, m)
    else if int32 (b.ofs + b.size) ≠ c.ofs then .error .assertion
    else do
      let next := DList.nxt m.list q
      let list ← deref (DList.setNext m.list p next)
      let next ← deref next
      let list ← deref (DList.setPrev list next (some p))
      let freeList ← deref (DList.unlink m.freeList q)
      let m := { m with list := list, freeList := freeList }
      return (true, (m.modify p fun b' => { b' with size := int32 (b.size + c.size) }).release q)

/-- `mmFreeMem`. -/
def mmFreeMem (b : Option BlockId) (m : Memory) : Except Fault (Int × Memory) :=
  match b with
  | none => .ok (0, m)
  | some b => do
      let blk ← m.get b
      if blk.free then return (-1, m)
      else if blk.reserved then return (-1, m)
      else do
        let heap ← deref blk.heap
        let m := m.modify b fun b => { b with free := true }
        let freeList ← deref (DList.insertAfter m.freeList b heap)
        let m := { m with freeList := freeList }
        let (_, m) ← join2Blocks b m
        let blk ← m.get b
        let before := DList.prv m.list b
        if before ≠ blk.heap then do
          let before ← deref before
          let (_, m) ← join2Blocks before m
          return (0, m)
        else return (0, m)

/-! ## Runs -/

def IsInt (x : Int) : Prop := -2 ^ 31 ≤ x ∧ x < 2 ^ 31

/-- The arguments of the request are of type `int`. -/
def Ints : Request → Prop
  | .allocMem _ size align2 startSearch => IsInt size ∧ IsInt align2 ∧ IsInt startSearch
  | .freeMem _ => True

def run (σ : Heap) : Request → Except Fault Heap
  | .allocMem r size align2 startSearch => do
      let (b, mem) ← mmAllocMem r (some σ.heap) size align2 startSearch σ.mem
      return { σ with mem := mem, out := b.toList ++ σ.out }
  | .freeMem b => do
      let (_, mem) ← mmFreeMem b σ.mem
      return { σ with mem := mem, out := σ.out.filter fun c => b ≠ some c }

def Step (σ σ' : Heap) : Prop := ∃ q : Request, q.Allowed σ ∧ Ints q ∧ run σ q = .ok σ'

/-- The heaps that any calls lead to. -/
abbrev Reached (ofs size : Int) : Heap → Prop := Runs (Heap.Init ofs size) Step

/-! ## Where nothing overflows -/

section Extends

variable {α β : Type}

/-- What `x` returns, `y` returns too. -/
def Extends (x y : Except Fault α) : Prop := ∀ a, x = .ok a → y = .ok a

theorem Extends.refl (x : Except Fault α) : Extends x x := fun _ h => h

theorem Extends.error {e : Fault} (y : Except Fault α) : Extends (.error e) y := nofun

theorem Extends.bind {x y : Except Fault α} {f g : α → Except Fault β} (hx : Extends x y)
    (hf : ∀ a, x = .ok a → Extends (f a) (g a)) : Extends (x >>= f) (y >>= g) := by
  intro b hb
  obtain ⟨a, ha, hfa⟩ := exists_of_bind_ok hb
  rw [hx a ha]
  exact hf a ha b hfa

/-- The first part can return nothing but `a`. -/
theorem Extends.step {x : Except Fault α} {a : α} {f : α → Except Fault β} {y : Except Fault β}
    (hx : Extends x (.ok a)) (hf : Extends (f a) y) : Extends (x >>= f) y := by
  intro b hb
  obtain ⟨a', ha', hfa⟩ := exists_of_bind_ok hb
  obtain rfl := Except.ok.inj (hx a' ha')
  exact hf b hfa

/-- The same first part. -/
theorem Extends.after (x : Except Fault α) {f g : α → Except Fault β} (hf : ∀ a, Extends (f a) (g a)) :
    Extends (x >>= f) (x >>= g) := (Extends.refl x).bind fun a _ => hf a

/-- An operation that does not overflow stores its result. -/
theorem Extends.int (x : Int) {f : Int → Except Fault β} {y : Except Fault β} (hf : int32 x = x → Extends (f x) y) :
    Extends (Mm.int x >>= f) y := by
  unfold Mm.int
  split
  · next h => exact hf (int32_of_range h.1 h.2)
  · exact .error y

end Extends

theorem startOfs_wraps (b : MemBlock) (align2 : Nat) (startSearch : Int) :
    Extends (Mm.startOfs b align2 startSearch) (.ok (startOfs b align2 startSearch)) := by
  refine .int _ fun h => ?_
  unfold startOfs
  rw [h]
  exact .refl _

theorem searchFree_wraps (heap : BlockId) (size : Int) (align2 : Nat) (startSearch : Int) (m : Memory) (k : Nat)
    (p : BlockId) : Extends (Mm.searchFree heap size align2 startSearch m k p)
      (searchFree heap size align2 startSearch m k p) := by
  induction k generalizing p with
  | zero => exact .error _
  | succ k ih =>
      unfold Mm.searchFree searchFree
      split
      · exact .refl _
      · refine .after _ fun b => ?_
        split
        · exact .error _
        · refine .step (startOfs_wraps b align2 startSearch) (.int _ fun hend => .int _ fun htop => ?_)
          rw [hend, htop]
          split
          · exact .refl _
          · exact .after _ fun next => ih next

theorem breakLeft_wraps (callocOk : Bool) (p : BlockId) (startofs : Int) (m : Memory) :
    Extends (Mm.breakLeft callocOk p startofs m) (breakLeft callocOk p startofs m) := by
  unfold Mm.breakLeft breakLeft
  refine .after _ fun b => ?_
  split
  · split
    · refine .int _ fun hbefore => .int _ fun hsize => .int _ fun hrest => ?_
      dsimp only
      rw [hbefore, hsize, hrest]
      exact .refl _
    · exact .refl _
  · exact .refl _

theorem breakRight_wraps (callocOk : Bool) (p : BlockId) (startofs size : Int) (m : Memory) :
    Extends (Mm.breakRight callocOk p startofs size m) (breakRight callocOk p startofs size m) := by
  unfold Mm.breakRight breakRight
  refine .after _ fun b => ?_
  split
  · split
    · refine .int _ fun hofs => .int _ fun hafter => ?_
      rw [hofs, hafter]
      exact .refl _
    · exact .refl _
  · exact .refl _

theorem sliceBlock_wraps (r : CallocReply) (p : BlockId) (startofs size : Int) (reserved : Bool) (m : Memory) :
    Extends (Mm.sliceBlock r p startofs size reserved m) (sliceBlock r p startofs size reserved m) := by
  unfold Mm.sliceBlock sliceBlock
  refine (breakLeft_wraps r.left p startofs m).bind fun res _ => ?_
  obtain ⟨left, m₁⟩ := res
  cases left with
  | none => exact .refl _
  | some q => exact (breakRight_wraps r.right q startofs size m₁).bind fun res _ => .refl _

/-- An allocation in which nothing overflows. -/
theorem mmAllocMem_wraps (r : CallocReply) (heap : Option BlockId) (size align2 startSearch : Int) (m : Memory) :
    Extends (Mm.mmAllocMem r heap size align2 startSearch m) (mmAllocMem r heap size align2 startSearch m) := by
  unfold Mm.mmAllocMem mmAllocMem findFree
  cases heap with
  | none => exact .refl _
  | some heap =>
      dsimp only
      split
      · exact .refl _
      · split
        · exact .error _
        · rw [bind_assoc]
          refine .after _ fun first => (searchFree_wraps heap size align2.toNat startSearch m _ first).bind fun found _ => ?_
          cases found with
          | none => exact .refl _
          | some found =>
              obtain ⟨p, s⟩ := found
              refine .after _ fun b => ?_
              split
              · exact .error _
              · exact sliceBlock_wraps r p s size false m

theorem join2Blocks_wraps (p : BlockId) (m : Memory) : Extends (Mm.join2Blocks p m) (join2Blocks p m) := by
  unfold Mm.join2Blocks join2Blocks
  refine .after _ fun b => ?_
  split
  · exact .refl _
  · refine .after _ fun q => .after _ fun c => ?_
    split
    · exact .refl _
    · refine .int _ fun htop => ?_
      rw [htop]
      split
      · exact .error _
      · refine .int _ fun hsize => ?_
        rw [hsize]
        exact .refl _

theorem mmFreeMem_wraps (b : Option BlockId) (m : Memory) : Extends (Mm.mmFreeMem b m) (mmFreeMem b m) := by
  unfold Mm.mmFreeMem mmFreeMem
  cases b with
  | none => exact .refl _
  | some b =>
      dsimp only
      refine .after _ fun blk => ?_
      split
      · exact .refl _
      · split
        · exact .refl _
        · refine .after _ fun heap => .after _ fun freeList => (join2Blocks_wraps b _).bind fun res _ => .after _ fun blk => ?_
          obtain ⟨_, m₂⟩ := res
          dsimp only
          split
          · exact .after _ fun before => (join2Blocks_wraps before m₂).bind fun res _ => .refl _
          · exact .refl _

/-! ## The fields of the blocks stay `int`s -/

theorem int32_isInt (x : Int) : IsInt (int32 x) := by
  have h₁ := Int.le_bmod (x := x) (m := 2 ^ 32) (by decide)
  have h₂ := Int.bmod_lt (x := x) (m := 2 ^ 32) (by decide)
  unfold IsInt int32
  omega

theorem int32_of_isInt {x : Int} (h : IsInt x) : int32 x = x := int32_of_range h.1 h.2

/-- Every block has fields of type `int`, and addresses are handed out in order. -/
structure Plain (m : Memory) : Prop where
  known : ∀ b, (m.list b).isSome → b < m.fresh
  ofs : ∀ b, IsInt (m.ofs b)
  size : ∀ b, IsInt (m.size b)

variable {m m' : Memory} {p q : BlockId} {σ : Heap}

theorem Plain.of_alloc (h : Plain m) {list freeList : DList.Mem BlockId} (halloc : ∀ b, (list b).isSome = (m.list b).isSome) :
    Plain { m with list := list, freeList := freeList } :=
  ⟨fun b hb => h.known b (by rw [← halloc]; exact hb), h.ofs, h.size⟩

theorem Plain.modify (h : Plain m) {f : MemBlock → MemBlock} (hofs : IsInt (f (m.block p)).ofs)
    (hsize : IsInt (f (m.block p)).size) : Plain (m.modify p f) := by
  refine ⟨h.known, fun b => ?_, fun b => ?_⟩
  · by_cases hb : b = p
    · subst hb
      simpa [Memory.ofs, Memory.modify] using hofs
    · simpa [Memory.ofs, Memory.modify, hb] using h.ofs b
  · by_cases hb : b = p
    · subst hb
      simpa [Memory.size, Memory.modify] using hsize
    · simpa [Memory.size, Memory.modify, hb] using h.size b

theorem Plain.calloc (h : Plain m) {new : MemBlock} (hofs : IsInt new.ofs) (hsize : IsInt new.size) :
    Plain (m.calloc new) := by
  refine ⟨fun b hb => ?_, fun b => ?_, fun b => ?_⟩
  · by_cases hbf : b = m.fresh
    · exact hbf ▸ Nat.lt_succ_self _
    · exact Nat.lt_succ_of_lt (h.known b (by simpa [Memory.calloc, DList.calloc, hbf] using hb))
  · by_cases hb : b = m.fresh
    · simpa [Memory.ofs, Memory.calloc, hb] using hofs
    · simpa [Memory.ofs, Memory.calloc, hb] using h.ofs b
  · by_cases hb : b = m.fresh
    · simpa [Memory.size, Memory.calloc, hb] using hsize
    · simpa [Memory.size, Memory.calloc, hb] using h.size b

theorem Plain.release (h : Plain m) (b : BlockId) : Plain (m.release b) := by
  refine ⟨fun c hc => h.known c ?_, h.ofs, h.size⟩
  by_cases hcb : c = b
  · simp [Memory.release, DList.free, hcb] at hc
  · simpa [Memory.release, DList.free, hcb] using hc

theorem deref_ensures {α : Type} (o : Option α) : Ensures (deref o) fun a => o = some a := by
  cases o with
  | none => exact .error
  | some a => exact .ok rfl

/-- The new block has the fields that it is given, and `p` keeps its offset. -/
theorem breakBlock_plain (h : Plain m) (hp : p < m.fresh) {ofs size rest : Int} (hofs : IsInt ofs) (hsize : IsInt size)
    (hrest : IsInt rest) : Ensures (breakBlock p ofs size rest m) fun res => Plain res.2 ∧ res.1 < res.2.fresh
      ∧ res.2.ofs res.1 = ofs ∧ res.2.size res.1 = size ∧ p < res.2.fresh ∧ res.2.ofs p = m.ofs p
      ∧ res.2.size p = rest := by
  unfold breakBlock
  refine Ensures.bind_any fun b => ?_
  have hne : m.fresh ≠ p := Nat.ne_of_gt hp
  have hc : Plain (m.calloc { heap := b.heap, ofs := ofs, size := size, free := true }) := h.calloc hofs hsize
  refine (deref_ensures _).bind fun list hlist => Ensures.bind_any fun freeList => .pure ?_
  have hlinked : Plain { m.calloc { heap := b.heap, ofs := ofs, size := size, free := true } with
      list := list, freeList := freeList } := hc.of_alloc fun b => DList.insertAfter_alloc hlist b
  have hpofs := h.ofs p
  refine ⟨hlinked.modify (f := fun b => { b with size := rest }) (hlinked.ofs p) hrest, Nat.lt_succ_self _, ?_, ?_,
    Nat.lt_succ_of_lt hp, ?_, ?_⟩
  all_goals simp [Memory.ofs, Memory.size, Memory.modify, Memory.calloc, hne, hne.symm]

/-- The size of the block that the left split leaves to cut from. -/
def leftSize (b : MemBlock) (startofs : Int) : Int :=
  if startofs > b.ofs then int32 (b.size - int32 (startofs - b.ofs)) else b.size

theorem breakLeft_plain (h : Plain m) (hp : p < m.fresh) (callocOk : Bool) {startofs : Int} (hs : IsInt startofs) :
    Ensures (breakLeft callocOk p startofs m) fun res => Plain res.2 ∧ ∀ q, res.1 = some q → q < res.2.fresh
      ∧ res.2.ofs q = max startofs (m.ofs p) ∧ res.2.size q = leftSize (m.block p) startofs := by
  unfold breakLeft
  refine (get_ensures p m).bind fun b hb => ?_
  obtain ⟨rfl, -⟩ := hb
  unfold leftSize
  split
  · next hlt =>
    split
    · refine (breakBlock_plain h hp hs (int32_isInt _) (int32_isInt _)).bind fun res hres => .pure ?_
      obtain ⟨hplain, hlt', hofs, hsize, -⟩ := hres
      refine ⟨hplain, ?_⟩
      rintro q ⟨⟩
      exact ⟨hlt', hofs.trans (max_eq_left (le_of_lt hlt)).symm, hsize⟩
    · exact .pure ⟨h, nofun⟩
  · next hge =>
    refine .pure ⟨h, ?_⟩
    rintro q ⟨⟩
    exact ⟨hp, (max_eq_right (not_lt.mp hge)).symm, rfl⟩

theorem breakRight_plain (h : Plain m) (hp : p < m.fresh) (callocOk : Bool) (startofs : Int) {size : Int}
    (hs : IsInt size) : Ensures (breakRight callocOk p startofs size m) fun res => Plain res.2
      ∧ (res.1 = true → res.2.ofs p = m.ofs p ∧ res.2.size p = min size (m.size p)) := by
  unfold breakRight
  refine (get_ensures p m).bind fun b hb => ?_
  obtain ⟨rfl, -⟩ := hb
  split
  · next hlt =>
    split
    · refine (breakBlock_plain h hp (int32_isInt _) (int32_isInt _) hs).bind fun res hres => .pure ?_
      obtain ⟨hplain, -, -, -, -, hofs, hsize⟩ := hres
      exact ⟨hplain, fun _ => ⟨hofs, hsize.trans (min_eq_left (le_of_lt hlt)).symm⟩⟩
    · exact .pure ⟨h, nofun⟩
  · next hge => exact .pure ⟨h, fun _ => ⟨rfl, (min_eq_right (not_lt.mp hge)).symm⟩⟩

theorem takeBlock_plain (h : Plain m) (reserved : Bool) : Ensures (takeBlock p reserved m) fun m' =>
    Plain m' ∧ m'.ofs p = m.ofs p ∧ m'.size p = m.size p := by
  unfold takeBlock
  refine Ensures.bind_any fun l₁ => Ensures.bind_any fun l₂ => Ensures.bind_any fun l₃ => .pure ?_
  refine ⟨(h.of_alloc fun _ => rfl).modify (f := fun b => { b with free := false, reserved := reserved })
    (h.ofs p) (h.size p), ?_, ?_⟩
  all_goals simp [Memory.ofs, Memory.size, Memory.modify]

/-- What is cut out of the block `p`, where the start and the sizes are what the arithmetic gives. -/
theorem sliceBlock_plain (h : Plain m) (hp : p < m.fresh) (r : CallocReply) {startofs size : Int} (hofs : IsInt startofs)
    (hsize : IsInt size) (reserved : Bool) : Ensures (sliceBlock r p startofs size reserved m) fun res => Plain res.2
      ∧ ∀ q, res.1 = some q → res.2.ofs q = max startofs (m.ofs p)
        ∧ res.2.size q = min size (leftSize (m.block p) startofs) := by
  unfold sliceBlock
  refine (breakLeft_plain h hp r.left hofs).bind fun res hres => ?_
  obtain ⟨left, m₁⟩ := res
  obtain ⟨h₁, hq⟩ := hres
  cases left with
  | none => exact .pure ⟨h₁, nofun⟩
  | some q =>
      obtain ⟨hlt, hqofs, hqsize⟩ := hq q rfl
      refine (breakRight_plain h₁ hlt r.right startofs hsize).bind fun res hres => ?_
      obtain ⟨done, m₂⟩ := res
      obtain ⟨h₂, hdone⟩ := hres
      cases done with
      | false => exact .pure ⟨h₂, nofun⟩
      | true =>
          obtain ⟨hqofs₂, hqsize₂⟩ := hdone rfl
          refine (takeBlock_plain (p := q) h₂ reserved).bind fun m₃ hm₃ => .pure ⟨hm₃.1, ?_⟩
          rintro _ ⟨⟩
          refine ⟨hm₃.2.1.trans (hqofs₂.trans hqofs), hm₃.2.2.trans (hqsize₂.trans ?_)⟩
          exact congrArg (min size) hqsize

theorem join2Blocks_plain (h : Plain m) : Ensures (join2Blocks p m) fun res => Plain res.2 := by
  unfold join2Blocks
  refine (get_ensures p m).bind fun b hb => ?_
  obtain ⟨rfl, -⟩ := hb
  split
  · exact .pure h
  · refine Ensures.bind_any fun q => Ensures.bind_any fun c => ?_
    split
    · exact .pure h
    · split
      · exact .error
      · refine (deref_ensures _).bind fun l₁ h₁ => Ensures.bind_any fun next => (deref_ensures _).bind fun l₂ h₂ =>
          Ensures.bind_any fun l₃ => .pure ?_
        have halloc : ∀ b, (l₂ b).isSome = (m.list b).isSome := fun b =>
          (DList.setPrev_alloc h₂ b).trans (DList.setNext_alloc h₁ b)
        have hlinked : Plain { m with list := l₂, freeList := l₃ } := h.of_alloc halloc
        exact (hlinked.modify (p := p) (h.ofs p) (int32_isInt _)).release q

theorem mmFreeMem_plain (h : Plain m) (b : Option BlockId) : Ensures (mmFreeMem b m) fun res => Plain res.2 := by
  unfold mmFreeMem
  cases b with
  | none => exact .ok h
  | some b =>
      dsimp only
      refine Ensures.bind_any fun blk => ?_
      split
      · exact .pure h
      · split
        · exact .pure h
        · refine Ensures.bind_any fun heap => Ensures.bind_any fun freeList => ?_
          have hfreed : Plain (m.modify b fun b => { b with free := true }) := h.modify (h.ofs b) (h.size b)
          have hlinked : Plain { m.modify b (fun b => { b with free := true }) with freeList := freeList } :=
            hfreed.of_alloc fun _ => rfl
          refine (join2Blocks_plain hlinked).bind fun res h₂ => Ensures.bind_any fun blk => ?_
          obtain ⟨_, m₂⟩ := res
          dsimp only
          split
          · refine Ensures.bind_any fun before => ?_
            exact (join2Blocks_plain h₂).bind fun res h₃ => .pure h₃
          · exact .pure h₂

/-! ## The search -/

variable {heap : BlockId} {size startSearch : Int} {align2 : Nat} {b : MemBlock}

/-- `2 ^ 31` is a multiple of every alignment. -/
theorem pow_dvd (ha : align2 ≤ 30) : (2 ^ align2 : Int) ∣ 2 ^ 31 := pow_dvd_pow 2 (Nat.le_succ_of_le ha)

theorem startOfs_isInt (ha : align2 ≤ 30) (hs : IsInt startSearch) : IsInt (startOfs b align2 startSearch) := by
  obtain ⟨hlo, hhi⟩ := int32_isInt (b.ofs + (2 ^ align2 - 1))
  obtain ⟨hs₁, hs₂⟩ := hs
  have hpos : (0 : Int) < 2 ^ align2 := pow_pos (by decide) align2
  unfold startOfs
  set x := int32 (b.ofs + (2 ^ align2 - 1))
  have hnonneg := Int.emod_nonneg x (Int.ne_of_gt hpos)
  -- the multiple below `x` is not below `-2 ^ 31`, which is a multiple too
  have hge : -2 ^ 31 ≤ x - x % 2 ^ align2 := by
    by_contra hlt
    have hdvd : (2 ^ align2 : Int) ∣ -2 ^ 31 - (x - x % 2 ^ align2) :=
      Int.dvd_sub (Int.dvd_neg.mpr (pow_dvd ha)) Int.dvd_self_sub_emod
    have hle := Int.le_of_dvd (by omega) hdvd
    have hmod := Int.emod_lt_of_pos x hpos
    omega
  show IsInt (if x - x % 2 ^ align2 < startSearch then startSearch else x - x % 2 ^ align2)
  unfold IsInt
  split <;> omega

/-- The search stops at a block, with the start that it computes there. -/
theorem searchFree_plain (k : Nat) (x : BlockId) : Ensures (searchFree heap size align2 startSearch m k x) fun r =>
    ∀ p s, r = some (p, s) → (m.list p).isSome ∧ s = startOfs (m.block p) align2 startSearch := by
  induction k generalizing x with
  | zero => exact .error
  | succ k ih =>
      unfold searchFree
      split
      · exact .ok nofun
      · refine (get_ensures x m).bind fun b hb => ?_
        obtain ⟨rfl, hx⟩ := hb
        split
        · exact .error
        · split
          · refine .pure ?_
            rintro p s ⟨⟩
            exact ⟨hx, rfl⟩
          · exact Ensures.bind_any fun next => ih next

/-- What an allocation that returns a block was asked for, and where it found room. -/
theorem mmAllocMem_plain (h : Plain m) {r : CallocReply} {align2 : Int} (hsize : IsInt size) (hs : IsInt startSearch) :
    Ensures (mmAllocMem r (some heap) size align2 startSearch m) fun res => Plain res.2 ∧ ∀ q, res.1 = some q →
      0 < size ∧ align2.toNat ≤ 30 ∧ ∃ p s, findFree heap size align2 startSearch m = .ok (some (p, s))
        ∧ s = startOfs (m.block p) align2.toNat startSearch ∧ res.2.ofs q = max s (m.ofs p)
        ∧ res.2.size q = min size (leftSize (m.block p) s) := by
  unfold mmAllocMem
  dsimp only
  split
  · exact .ok ⟨h, nofun⟩
  next hargs =>
  split
  · exact .error
  next ha =>
  intro res hres
  obtain ⟨found, hfound, hres⟩ := exists_of_bind_ok hres
  cases found with
  | none =>
      cases hres
      exact ⟨h, nofun⟩
  | some found =>
      obtain ⟨p, s⟩ := found
      have hsearch : Ensures (findFree heap size align2 startSearch m) fun r =>
          ∀ p s, r = some (p, s) → (m.list p).isSome ∧ s = startOfs (m.block p) align2.toNat startSearch := by
        unfold findFree
        exact Ensures.bind_any fun first => searchFree_plain _ first
      obtain ⟨hp, hstart⟩ := hsearch _ hfound p s rfl
      have hint : IsInt s := hstart ▸ startOfs_isInt (by omega) hs
      have hslice : Ensures (do
          let b ← m.get p
          if !b.free then .error .assertion
          else sliceBlock r p s size false m) fun res => Plain res.2 ∧ ∀ q, res.1 = some q →
            res.2.ofs q = max s (m.ofs p) ∧ res.2.size q = min size (leftSize (m.block p) s) := by
        refine Ensures.bind_any fun b => ?_
        split
        · exact .error
        · exact sliceBlock_plain h (h.known p hp) r hint hsize false
      obtain ⟨hplain, hq⟩ := hslice _ hres
      exact ⟨hplain, fun q hq' => ⟨by omega, by omega, p, s, hfound, hstart, hq q hq'⟩⟩

theorem Reached.plain {ofs size₀ : Int} (hofs : IsInt ofs) (hsize₀ : IsInt size₀) (h : Reached ofs size₀ σ) :
    Plain σ.mem := by
  refine Runs.induct (I := fun σ => Plain σ.mem) ?_ ?_ h
  · intro σ hinit
    have hzero : IsInt 0 := by unfold IsInt; omega
    have hserved : σ.Served ofs size₀ := .init hinit
    have hpos := hserved.pos
    obtain ⟨bs, hinv, -⟩ := Heap.Init.holds hinit
    obtain ⟨hmem, -⟩ := hinit
    simp only [mmInit, not_le.mpr hpos, if_false, Bool.not_true, Bool.false_eq_true, Prod.mk.injEq] at hmem
    refine ⟨hinv.known, fun b => ?_, fun b => ?_⟩
    · rw [← hmem.2]
      by_cases hb : b = 1 <;> simp [Memory.ofs, Memory.calloc, Memory.empty, hb, hofs, hzero]
    · rw [← hmem.2]
      by_cases hb : b = 1 <;> simp [Memory.size, Memory.calloc, Memory.empty, hb, hsize₀, hzero]
  · rintro σ σ' hplain ⟨q, -, hints, hrun⟩
    cases q with
    | allocMem r size align2 startSearch =>
        obtain ⟨res, hres, hpure⟩ := exists_of_bind_ok hrun
        cases hpure
        exact (mmAllocMem_plain hplain hints.1 hints.2.2 _ hres).1
    | freeMem b =>
        obtain ⟨res, hres, hpure⟩ := exists_of_bind_ok hrun
        cases hpure
        exact mmFreeMem_plain hplain b _ hres

/-! ## What the block is -/

/-- The block `q` is what was asked for, and was cut out of the free block `p`. -/
structure Honours (m m' : Memory) (size : Int) (align2 : Nat) (startSearch : Int) (p q : BlockId) : Prop where
  align : (2 ^ align2 : Int) ∣ m'.ofs q
  start : startSearch ≤ m'.ofs q
  size : m'.size q = size
  inside : m.ofs p ≤ m'.ofs q ∧ m'.ofs q + m'.size q ≤ m.ofs p + m.size p

/-- Rounding the offset up does not overflow, the start of the search does not undo it, and the block ends
in the free one. -/
structure Proper (b : MemBlock) (size : Int) (align2 : Nat) (startSearch : Int) : Prop where
  round : b.ofs + (2 ^ align2 - 1) < 2 ^ 31
  clamp : startSearch ≤ roundUp b.ofs align2 ∨ (2 ^ align2 : Int) ∣ startSearch
  room : place b align2 startSearch + size ≤ b.ofs + b.size

/-- Where rounding up does not overflow, the start is the place of the exact arithmetic. -/
theorem startOfs_eq_place (hb : IsInt b.ofs) (hround : b.ofs + (2 ^ align2 - 1) < 2 ^ 31) :
    startOfs b align2 startSearch = place b align2 startSearch := by
  have hpos : (0 : Int) < 2 ^ align2 := pow_pos (by decide) align2
  have hx : int32 (b.ofs + (2 ^ align2 - 1)) = b.ofs + (2 ^ align2 - 1) :=
    int32_of_range (by have := hb.1; omega) hround
  unfold startOfs
  rw [hx]
  show (if roundUp b.ofs align2 < startSearch then startSearch else roundUp b.ofs align2) = _
  unfold place
  split <;> omega

/-- Where it overflows, no multiple of the alignment that is an `int` is left behind the offset. -/
theorem not_dvd_of_round (ha : align2 ≤ 30) (hround : 2 ^ 31 ≤ b.ofs + (2 ^ align2 - 1)) {t : Int} (hle : b.ofs ≤ t)
    (hlt : t < 2 ^ 31) : ¬ (2 ^ align2 : Int) ∣ t := by
  intro hdvd
  have := Int.le_of_dvd (by omega) (Int.dvd_sub (pow_dvd ha) hdvd)
  omega

/-- With the start and the size that the arithmetic gives. -/
theorem proper_iff (ha : align2 ≤ 30) (hpos : 0 < size) (hsize : IsInt size) (hs : IsInt startSearch)
    (hbofs : IsInt b.ofs) (hbsize : IsInt b.size) {o z : Int}
    (ho : o = max (startOfs b align2 startSearch) b.ofs)
    (hz : z = min size (leftSize b (startOfs b align2 startSearch))) :
    ((2 ^ align2 : Int) ∣ o ∧ startSearch ≤ o ∧ z = size ∧ b.ofs ≤ o ∧ o + z ≤ b.ofs + b.size)
      ↔ Proper b size align2 startSearch := by
  by_cases hround : b.ofs + (2 ^ align2 - 1) < 2 ^ 31
  · rw [startOfs_eq_place hbofs hround] at ho hz
    have hle := ofs_le_place b align2 startSearch
    have hstart : startSearch ≤ place b align2 startSearch := le_max_right ..
    rw [max_eq_left hle] at ho
    subst ho
    constructor
    · rintro ⟨halign, -, rfl, -, hend⟩
      refine ⟨hround, ?_, hend⟩
      rcases le_total startSearch (roundUp b.ofs align2) with hle | hle
      · exact .inl hle
      · rw [place, max_eq_right hle] at halign
        exact .inr halign
    · rintro ⟨-, hclamp, hroom⟩
      have halign : (2 ^ align2 : Int) ∣ place b align2 startSearch := by
        unfold place
        rcases le_total startSearch (roundUp b.ofs align2) with hle | hle
        · rw [max_eq_left hle]
          exact roundUp_dvd ..
        · rw [max_eq_right hle]
          rcases hclamp with heq | hdvd
          · rw [le_antisymm heq hle]
            exact roundUp_dvd ..
          · exact hdvd
      have hleft : size ≤ leftSize b (place b align2 startSearch) := by
        unfold IsInt at hbofs hbsize hsize
        unfold leftSize
        split
        · rw [int32_of_range (x := place b align2 startSearch - b.ofs) (by omega) (by omega),
            int32_of_range (by omega) (by omega)]
          omega
        · omega
      rw [min_eq_left hleft] at hz
      subst hz
      exact ⟨halign, hstart, rfl, hle, hroom⟩
  · refine iff_of_false ?_ fun h => hround h.round
    rintro ⟨halign, -, -, hle, -⟩
    have hint := (startOfs_isInt (b := b) ha hs).2
    exact not_dvd_of_round ha (not_lt.mp hround) hle (by rw [ho]; exact max_lt hint hbofs.2) halign

/-- In every heap that any calls lead to, and for all arguments: a block that `mmAllocMem` returns is what
was asked for, and lies in the free block `p` at which the search stopped, exactly if `p` is proper. -/
theorem alloc_honours_iff {ofs size₀ : Int} (hofs : IsInt ofs) (hsize₀ : IsInt size₀) (h : Reached ofs size₀ σ)
    {r : CallocReply} {align2 : Int} (hsize : IsInt size) (hs : IsInt startSearch)
    (hrun : mmAllocMem r (some σ.heap) size align2 startSearch σ.mem = .ok (some q, m')) :
    ∃ p s, findFree σ.heap size align2 startSearch σ.mem = .ok (some (p, s))
      ∧ (Honours σ.mem m' size align2.toNat startSearch p q
        ↔ Proper (σ.mem.block p) size align2.toNat startSearch) := by
  have hplain := Reached.plain hofs hsize₀ h
  obtain ⟨-, hq⟩ := mmAllocMem_plain hplain hsize hs _ hrun
  obtain ⟨hpos, ha, p, s, hfound, rfl, ho, hz⟩ := hq q rfl
  refine ⟨p, _, hfound, Iff.trans ?_ (proper_iff ha hpos hsize hs (hplain.ofs p) (hplain.size p) ho hz)⟩
  constructor
  · exact fun hh => ⟨hh.align, hh.start, hh.size, hh.inside.1, hh.inside.2⟩
  · rintro ⟨halign, hstart, hsz, hle, hend⟩
    exact ⟨halign, hstart, hsz, hle, hend⟩

/-- A block of 16 bytes at a multiple of 16. -/
theorem alloc_honours_aligned : ∃ m', mmAllocMem {} (some fresh64.heap) 16 4 16 fresh64.mem = .ok (some 2, m')
    ∧ ∃ p s, findFree fresh64.heap 16 4 16 fresh64.mem = .ok (some (p, s))
      ∧ (Honours fresh64.mem m' 16 4 16 p 2 ↔ Proper (fresh64.mem.block p) 16 4 16) := by
  obtain ⟨m', hrun⟩ : ∃ m', mmAllocMem {} (some fresh64.heap) 16 4 16 fresh64.mem = .ok (some 2, m') := ⟨_, rfl⟩
  refine ⟨m', hrun, ?_⟩
  exact alloc_honours_iff (by unfold IsInt; decide) (by unfold IsInt; decide) (.init fresh64_init)
    (by unfold IsInt; decide) (by unfold IsInt; decide) hrun

/-- The search may start at 5, and then the block does, whatever alignment was asked for. -/
theorem alloc_not_aligned : ∃ σ q m', Reached 0 64 σ
    ∧ mmAllocMem {} (some σ.heap) 16 2 5 σ.mem = .ok (some q, m') ∧ m'.ofs q = 5 ∧ ¬ (2 ^ 2 : Int) ∣ m'.ofs q := by
  obtain ⟨m', hrun, hofs⟩ : ∃ m', mmAllocMem {} (some fresh64.heap) 16 2 5 fresh64.mem = .ok (some 2, m')
    ∧ m'.ofs 2 = 5 := ⟨_, rfl, rfl⟩
  exact ⟨fresh64, 2, m', .init fresh64_init, hrun, hofs, by rw [hofs]; decide⟩

end LibDrm.Mm.Wrap
