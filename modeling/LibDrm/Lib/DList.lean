/-
# `LibDrm.Lib.DList` — intrusive circular doubly linked lists

A list node lives inside the object it links, so a program that uses such
lists can unlink a node twice, unlink a node that was never initialised, or
follow a node whose object was freed.  The memory here is therefore explicit:

    Mem ν = ν → Option (Link ν)        `none`: the node is not allocated
    Link ν = ⟨prev, next⟩              `none`: the NULL pointer

and every operation is an `Option`: `none` is a dereference of NULL or of a
node that is not allocated.

`Seg m a l b` says that `a`, the nodes `l` and `b` follow one another in `m`,
linked both ways; `IsList m h l` closes the segment on the list head `h`.
The specifications of the operations say what list stands at the head
afterwards and that no other node's links changed.
-/
import Mathlib.Data.List.Nodup
import Mathlib.Logic.Function.Basic

namespace DList

/-- The two pointers of a list node. -/
structure Link (ν : Type) where
  prev : Option ν
  next : Option ν
  deriving DecidableEq, Repr

/-- The memory of the list nodes; an unallocated node is `none`. -/
abbrev Mem (ν : Type) := ν → Option (Link ν)

variable {ν : Type}

/-- The pointers of a node, NULL where it is not allocated. -/
def nxt (m : Mem ν) (x : ν) : Option ν := (m x).bind Link.next

def prv (m : Mem ν) (x : ν) : Option ν := (m x).bind Link.prev

theorem alloc_of_nxt {m : Mem ν} {x y : ν} (h : nxt m x = some y) : (m x).isSome := by
  cases hx : m x with
  | none => simp [nxt, hx] at h
  | some _ => rfl

theorem alloc_of_prv {m : Mem ν} {x y : ν} (h : prv m x = some y) : (m x).isSome := by
  cases hx : m x with
  | none => simp [prv, hx] at h
  | some _ => rfl

/-- A node's links are its two pointers. -/
theorem link_eq {m m' : Mem ν} {x : ν} (ha : (m' x).isSome = (m x).isSome)
    (hn : nxt m' x = nxt m x) (hp : prv m' x = prv m x) : m' x = m x := by
  cases h : m x with
  | none => rw [h] at ha; simpa using ha
  | some l =>
      cases h' : m' x with
      | none => rw [h, h'] at ha; simp at ha
      | some l' =>
          obtain ⟨p, n⟩ := l
          obtain ⟨p', n'⟩ := l'
          simp only [nxt, prv, h, h', Option.bind_some] at hn hp
          simp [hn, hp]

/-! ## Segments -/

/-- `a`, the nodes of `l` and `b` follow one another, linked both ways. -/
def Seg (m : Mem ν) : ν → List ν → ν → Prop
  | a, [], b => nxt m a = some b ∧ prv m b = some a
  | a, x :: l, b => nxt m a = some x ∧ prv m x = some a ∧ Seg m x l b

/-- A segment reads the next pointers of its nodes but the last and the prev
pointers of its nodes but the first. -/
theorem Seg.congr {m m' : Mem ν} :
    ∀ {l : List ν} {a b : ν}, Seg m a l b → (∀ y ∈ a :: l, nxt m' y = nxt m y) →
      (∀ y ∈ l ++ [b], prv m' y = prv m y) → Seg m' a l b
  | [], a, b, h, hn, hp => by
      exact ⟨(hn a (by simp)).trans h.1, (hp b (by simp)).trans h.2⟩
  | x :: l, a, b, h, hn, hp => by
      obtain ⟨h₁, h₂, h₃⟩ := h
      refine ⟨(hn a (by simp)).trans h₁, (hp x (by simp)).trans h₂, h₃.congr ?_ ?_⟩
      · exact fun y hy => hn y (List.mem_cons_of_mem _ hy)
      · exact fun y hy => hp y (List.mem_cons_of_mem _ hy)

theorem Seg.append {m : Mem ν} {x b : ν} {l₂ : List ν} :
    ∀ {l₁ : List ν} {a : ν}, Seg m a (l₁ ++ x :: l₂) b ↔ Seg m a l₁ x ∧ Seg m x l₂ b
  | [], a => by simp [Seg, and_assoc]
  | y :: l₁, a => by
      simp only [List.cons_append, Seg, @Seg.append m x b l₂ l₁ y, and_assoc]

/-- The node before the end of a segment. -/
theorem Seg.prv_end {m : Mem ν} :
    ∀ {l : List ν} {a b : ν}, Seg m a l b → prv m b = some ((a :: l).getLast (by simp))
  | [], _, _, h => h.2
  | x :: l, a, b, h => by
      rw [List.getLast_cons (by simp)]
      exact h.2.2.prv_end

/-- The node after the start of a segment. -/
theorem Seg.nxt_start {m : Mem ν} {l : List ν} {a b : ν} (h : Seg m a l b) :
    nxt m a = some ((l ++ [b]).head (by simp)) := by
  cases l with
  | nil => exact h.1
  | cons x l => exact h.1

/-- Every node of a segment is allocated. -/
theorem Seg.alloc {m : Mem ν} :
    ∀ {l : List ν} {a b : ν}, Seg m a l b → ∀ y ∈ a :: (l ++ [b]), (m y).isSome
  | [], a, b, h, y, hy => by
      rcases List.mem_cons.mp hy with rfl | hy
      · exact alloc_of_nxt h.1
      · rw [List.mem_singleton.mp hy]; exact alloc_of_prv h.2
  | x :: l, a, b, h, y, hy => by
      rcases List.mem_cons.mp hy with rfl | hy
      · exact alloc_of_nxt h.1
      · exact h.2.2.alloc y hy

/-- A segment between other ends. -/
theorem Seg.between {m m' : Mem ν} {b k c : ν} : ∀ {l : List ν} {x : ν}, Seg m x l b →
    nxt m' k = some x → prv m' x = some k →
    nxt m' ((x :: l).getLast (List.cons_ne_nil x l)) = some c → prv m' c = some ((x :: l).getLast (List.cons_ne_nil x l)) →
    (∀ y ∈ (x :: l).dropLast, nxt m' y = nxt m y) → (∀ y ∈ l, prv m' y = prv m y) → Seg m' k (x :: l) c := by
  intro l
  induction l generalizing k with
  | nil =>
      intro x _ hk hx hlast hc _ _
      exact ⟨hk, hx, hlast, hc⟩
  | cons y l ih =>
      intro x hseg hk hx hlast hc hn hp
      obtain ⟨hxy, hyx, hrest⟩ := hseg
      rw [List.getLast_cons (List.cons_ne_nil y l)] at hlast hc
      refine ⟨hk, hx, ih hrest ?_ ?_ hlast hc (fun z hz => hn z ?_) fun z hz => hp z (List.mem_cons_of_mem y hz)⟩
      · rw [hn x (by simp), hxy]
      · rw [hp y List.mem_cons_self, hyx]
      · rw [List.dropLast_cons_of_ne_nil (List.cons_ne_nil y l)]
        exact List.mem_cons_of_mem x hz

/-! ## Lists -/

/-- The list with head `h` holds the nodes `l`, in order, each once. -/
def IsList (m : Mem ν) (h : ν) (l : List ν) : Prop := Seg m h l h ∧ (h :: l).Nodup

/-- The node is linked to itself. -/
def SelfLinked (m : Mem ν) (x : ν) : Prop := m x = some ⟨some x, some x⟩

theorem IsList.nodup {m : Mem ν} {h : ν} {l : List ν} (hl : IsList m h l) : l.Nodup :=
  (List.nodup_cons.mp hl.2).2

theorem IsList.head_notMem {m : Mem ν} {h : ν} {l : List ν} (hl : IsList m h l) : h ∉ l :=
  (List.nodup_cons.mp hl.2).1

theorem IsList.alloc {m : Mem ν} {h x : ν} {l : List ν} (hl : IsList m h l) (hx : x ∈ h :: l) :
    (m x).isSome :=
  hl.1.alloc x (by rcases List.mem_cons.mp hx with rfl | hx <;> simp [*])

theorem SelfLinked.nxt {m : Mem ν} {x : ν} (hs : SelfLinked m x) : nxt m x = some x := by
  simp [DList.nxt, show m x = _ from hs]

theorem SelfLinked.prv {m : Mem ν} {x : ν} (hs : SelfLinked m x) : prv m x = some x := by
  simp [DList.prv, show m x = _ from hs]

theorem IsList.nil_of_selfLinked {m : Mem ν} {h : ν} (hs : SelfLinked m h) : IsList m h [] :=
  ⟨⟨hs.nxt, hs.prv⟩, by simp⟩

/-- A list reads the links of its own nodes only. -/
theorem IsList.congr {m m' : Mem ν} {h : ν} {l : List ν} (hl : IsList m h l)
    (hm : ∀ y ∈ h :: l, m' y = m y) : IsList m' h l := by
  refine ⟨hl.1.congr ?_ ?_, hl.2⟩
  · intro y hy
    simp [nxt, hm y hy]
  · intro y hy
    have hy' : y ∈ h :: l := by
      rcases List.mem_append.mp hy with hy | hy
      · exact List.mem_cons_of_mem _ hy
      · simp [List.mem_singleton.mp hy]
    simp [prv, hm y hy']

theorem IsList.nodup_end {m : Mem ν} {h : ν} {l : List ν} (hl : IsList m h l) :
    (l ++ [h]).Nodup := by
  rw [List.nodup_append]
  refine ⟨hl.nodup, by simp, ?_⟩
  intro a ha b hb
  rw [List.mem_singleton.mp hb]
  rintro rfl
  exact hl.head_notMem ha

/-- The first node, or the head itself. -/
theorem IsList.nxt_head {m : Mem ν} {h : ν} {l : List ν} (hl : IsList m h l) :
    nxt m h = some (l.headD h) := by
  rw [hl.1.nxt_start]
  cases l <;> rfl

/-- A list is determined by its head. -/
theorem IsList.unique {m : Mem ν} {h : ν} {l l' : List ν} (hl : IsList m h l)
    (hl' : IsList m h l') : l = l' := by
  have key : ∀ (k k' : List ν) (a : ν), Seg m a k h → Seg m a k' h → h ∉ k → h ∉ k' → k = k' := by
    intro k
    induction k with
    | nil =>
        intro k' a hs hs' _ hk'
        cases k' with
        | nil => rfl
        | cons x k' =>
            have hx : h = x := Option.some.inj (hs.1.symm.trans hs'.1)
            exact absurd (by simp [hx]) hk'
    | cons x k ih =>
        intro k' a hs hs' hk hk'
        cases k' with
        | nil =>
            have hx : x = h := Option.some.inj (hs.1.symm.trans hs'.1)
            exact absurd (by simp [hx]) hk
        | cons y k' =>
            have hxy : x = y := Option.some.inj (hs.1.symm.trans hs'.1)
            subst hxy
            rw [ih k' x hs.2.2 hs'.2.2 (fun hm => hk (List.mem_cons_of_mem _ hm))
              (fun hm => hk' (List.mem_cons_of_mem _ hm))]
  exact key l l' h hl.1 hl'.1 hl.head_notMem hl'.head_notMem

/-- The neighbours of a node of the list. -/
theorem IsList.neighbours {m : Mem ν} {h x : ν} {l₁ l₂ : List ν} (hl : IsList m h (l₁ ++ x :: l₂)) :
    ∃ p n, prv m x = some p ∧ nxt m x = some n ∧ p ∈ h :: l₁ ∧ n ∈ l₂ ++ [h] := by
  obtain ⟨hs₁, hs₂⟩ := Seg.append.mp hl.1
  exact ⟨_, _, hs₁.prv_end, hs₂.nxt_start, List.getLast_mem _, List.head_mem _⟩

theorem IsList.mem_of_end {h n x : ν} {l₁ l₂ : List ν} (hn : n ∈ l₂ ++ [h]) :
    n ∈ h :: (l₁ ++ x :: l₂) := by
  rcases List.mem_append.mp hn with hn | hn
  · exact List.mem_cons_of_mem _ (List.mem_append_right _ (List.mem_cons_of_mem _ hn))
  · rw [List.mem_singleton.mp hn]; exact List.mem_cons_self ..

/-! ## Going round -/

/-- The nodes that a walk from the head on comes to. -/
inductive Visits (m : Mem ν) (h : ν) : ν → Prop
  | first {x : ν} (hx : nxt m h = some x) (hxh : x ≠ h) : Visits m h x
  | next {x y : ν} (hx : Visits m h x) (hy : nxt m x = some y) (hyh : y ≠ h) : Visits m h y

theorem Seg.visits {m : Mem ν} {h x : ν} : ∀ {l : List ν} {a : ν}, Seg m a l h → a = h ∨ Visits m h a → h ∉ l → x ∈ l →
    Visits m h x := by
  intro l
  induction l with
  | nil => exact fun _ _ _ hx => absurd hx List.not_mem_nil
  | cons y l ih =>
      intro a hseg ha hh hx
      have hyh : y ≠ h := fun e => hh (e ▸ List.mem_cons_self)
      have hy : Visits m h y := by
        rcases ha with rfl | ha
        · exact .first hseg.1 hyh
        · exact ha.next hseg.1 hyh
      rcases List.mem_cons.mp hx with rfl | hx
      · exact hy
      · exact ih hseg.2.2 (.inr hy) (fun hmem => hh (List.mem_cons_of_mem y hmem)) hx

theorem IsList.visits_iff {m : Mem ν} {h x : ν} {l : List ν} (hl : IsList m h l) : Visits m h x ↔ x ∈ l := by
  constructor
  · intro hx
    have hmem : ∀ {l' : List ν} {y : ν}, nxt m y = some ((l' ++ [h]).head (by simp)) → ∀ {z}, nxt m y = some z → z ≠ h → z ∈ l' := by
      intro l' y hy z hz hzh
      have hzmem : z ∈ l' ++ [h] := Option.some.inj (hz.symm.trans hy) ▸ List.head_mem _
      exact (List.mem_append.mp hzmem).resolve_right fun hmem => hzh (List.mem_singleton.mp hmem)
    induction hx with
    | first hx hxh => exact hmem hl.1.nxt_start hx hxh
    | next _ hy hyh ih =>
        obtain ⟨l₁, l₂, rfl⟩ := List.append_of_mem ih
        have hlater := hmem (Seg.append.mp hl.1).2.nxt_start hy hyh
        exact List.mem_append_right l₁ (List.mem_cons_of_mem _ hlater)
  · exact fun hx => hl.1.visits (.inl rfl) hl.head_notMem hx

/-- Where the memory differs at one node only, the walk comes to that node or to where it came before. -/
theorem Visits.until {m m' : Mem ν} {h x y : ν} (hm : ∀ z, z ≠ x → m' z = m z) (hxh : h ≠ x) (hy : Visits m h y) :
    Visits m' h y ∨ Visits m' h x := by
  have hnxt : ∀ z, z ≠ x → nxt m' z = nxt m z := fun z hz => by rw [nxt, hm z hz, nxt]
  induction hy with
  | first hy hyh => exact .inl (.first ((hnxt h hxh).trans hy) hyh)
  | @next z y _ hy hyh ih =>
      rcases ih with ih | ih
      · by_cases hzx : z = x
        · exact .inr (hzx ▸ ih)
        · exact .inl (ih.next ((hnxt z hzx).trans hy) hyh)
      · exact .inr ih

/-! ## The operations -/

section Ops

variable [DecidableEq ν]

/-- A zeroed node: both pointers are NULL. -/
def calloc (m : Mem ν) (x : ν) : Mem ν :=
  Function.update m x (some ⟨none, none⟩)

/-- The node goes back to the allocator. -/
def free (m : Mem ν) (x : ν) : Mem ν :=
  Function.update m x none

def setNext (m : Mem ν) (x : ν) (n : Option ν) : Option (Mem ν) :=
  (m x).map fun l => Function.update m x (some { l with next := n })

def setPrev (m : Mem ν) (x : ν) (p : Option ν) : Option (Mem ν) :=
  (m x).map fun l => Function.update m x (some { l with prev := p })

/-- The node becomes the list that holds nothing but itself. -/
def init (m : Mem ν) (x : ν) : Option (Mem ν) := do
  let m ← setPrev m x (some x)
  setNext m x (some x)

/-- `item` is linked in before the head `list`. -/
def addTail (m : Mem ν) (item list : ν) : Option (Mem ν) := do
  let m ← setNext m item (some list)
  let l ← m list
  let m ← setPrev m item l.prev
  let l ← m list
  let p ← l.prev
  let m ← setNext m p (some item)
  setPrev m list (some item)

/-- The neighbours of `item` are linked to each other; `item` keeps its pointers. -/
def del (m : Mem ν) (item : ν) : Option (Mem ν) := do
  let i ← m item
  let p ← i.prev
  let m ← setNext m p i.next
  let i ← m item
  let n ← i.next
  setPrev m n i.prev

/-- The same with the two writes the other way round. -/
def unlink (m : Mem ν) (item : ν) : Option (Mem ν) := do
  let i ← m item
  let n ← i.next
  let m ← setPrev m n i.prev
  let i ← m item
  let p ← i.prev
  setNext m p i.next

/-- `item` is linked in after the node `p`. -/
def insertAfter (m : Mem ν) (item p : ν) : Option (Mem ν) := do
  let l ← m p
  let m ← setNext m item l.next
  let m ← setPrev m item (some p)
  let l ← m p
  let n ← l.next
  let m ← setPrev m n (some item)
  setNext m p (some item)

/-- `item` is linked in after the head `list`. -/
def add (m : Mem ν) (item list : ν) : Option (Mem ν) := do
  let m ← setPrev m item (some list)
  let l ← m list
  let m ← setNext m item l.next
  let l ← m list
  let n ← l.next
  let m ← setPrev m n (some item)
  setNext m list (some item)

def delInit (m : Mem ν) (item : ν) : Option (Mem ν) := do
  let m ← del m item
  let m ← setNext m item (some item)
  setPrev m item (some item)

/-- The test that a list, or a node that is on no list, is made with. -/
def isEmpty (m : Mem ν) (x : ν) : Bool := nxt m x == some x

/-- The nodes of `list` are linked in after the head `onto`; the head `list` keeps its pointers. -/
def join (m : Mem ν) (list onto : ν) : Option (Mem ν) :=
  if isEmpty m list then some m
  else do
    let first ← nxt m list
    let m ← setPrev m first (some onto)
    let last ← prv m list
    let m ← setNext m last (nxt m onto)
    let n ← nxt m onto
    let m ← setPrev m n (prv m list)
    setNext m onto (nxt m list)

/-- The search from the node `x` round to the head `h` for the first node
that satisfies `p`.  `none`: a bad pointer on the way, or no fuel left. -/
def findFrom (m : Mem ν) (h : ν) (p : ν → Bool) : Nat → ν → Option (Option ν)
  | 0, _ => none
  | k + 1, x =>
      if x = h then some none
      else if (m x).isNone then none
      else if p x then some (some x)
      else (nxt m x).bind (findFrom m h p k)

def find (m : Mem ν) (h : ν) (p : ν → Bool) (k : Nat) : Option (Option ν) :=
  (nxt m h).bind (findFrom m h p k)

/-! ## What one write does to the two pointer functions -/

/-- The memory a write of `x`'s next pointer leaves. -/
theorem setNext_ok {m : Mem ν} {x : ν} (hx : (m x).isSome) (n : Option ν) :
    ∃ m', setNext m x n = some m' ∧ nxt m' = Function.update (nxt m) x n ∧ prv m' = prv m
      ∧ (∀ y, (m' y).isSome = (m y).isSome) ∧ ∀ y, y ≠ x → m' y = m y := by
  obtain ⟨l, hl⟩ := Option.isSome_iff_exists.mp hx
  refine ⟨Function.update m x (some { l with next := n }), by simp [setNext, hl], ?_, ?_, ?_, ?_⟩
  · funext y
    by_cases hy : y = x
    · subst hy; simp [nxt]
    · simp [nxt, Function.update_of_ne hy]
  · funext y
    by_cases hy : y = x
    · subst hy; simp [prv, hl]
    · simp [prv, Function.update_of_ne hy]
  · intro y
    by_cases hy : y = x
    · subst hy; simp [hl]
    · simp [Function.update_of_ne hy]
  · intro y hy
    exact Function.update_of_ne hy _ _

theorem setPrev_ok {m : Mem ν} {x : ν} (hx : (m x).isSome) (p : Option ν) :
    ∃ m', setPrev m x p = some m' ∧ nxt m' = nxt m ∧ prv m' = Function.update (prv m) x p
      ∧ (∀ y, (m' y).isSome = (m y).isSome) ∧ ∀ y, y ≠ x → m' y = m y := by
  obtain ⟨l, hl⟩ := Option.isSome_iff_exists.mp hx
  refine ⟨Function.update m x (some { l with prev := p }), by simp [setPrev, hl], ?_, ?_, ?_, ?_⟩
  · funext y
    by_cases hy : y = x
    · subst hy; simp [nxt, hl]
    · simp [nxt, Function.update_of_ne hy]
  · funext y
    by_cases hy : y = x
    · subst hy; simp [prv]
    · simp [prv, Function.update_of_ne hy]
  · intro y
    by_cases hy : y = x
    · subst hy; simp [hl]
    · simp [Function.update_of_ne hy]
  · intro y hy
    exact Function.update_of_ne hy _ _

theorem setNext_alloc {m m' : Mem ν} {x : ν} {n : Option ν} (h : setNext m x n = some m') (y : ν) :
    (m' y).isSome = (m y).isSome := by
  obtain ⟨l, hl, -⟩ := Option.map_eq_some_iff.mp h
  obtain ⟨m₁, h₁, -, -, ha, -⟩ := setNext_ok (Option.isSome_of_mem hl) n
  obtain rfl := Option.some.inj (h₁.symm.trans h)
  exact ha y

theorem setPrev_alloc {m m' : Mem ν} {x : ν} {p : Option ν} (h : setPrev m x p = some m') (y : ν) :
    (m' y).isSome = (m y).isSome := by
  obtain ⟨l, hl, -⟩ := Option.map_eq_some_iff.mp h
  obtain ⟨m₁, h₁, -, -, ha, -⟩ := setPrev_ok (Option.isSome_of_mem hl) p
  obtain rfl := Option.some.inj (h₁.symm.trans h)
  exact ha y

/-- Whatever the pointers are, `insertAfter` allocates nothing and frees nothing. -/
theorem insertAfter_alloc {m m' : Mem ν} {x p : ν} (h : insertAfter m x p = some m') (y : ν) :
    (m' y).isSome = (m y).isSome := by
  obtain ⟨l, -, h⟩ := Option.bind_eq_some_iff.mp h
  obtain ⟨m₁, h₁, h⟩ := Option.bind_eq_some_iff.mp h
  obtain ⟨m₂, h₂, h⟩ := Option.bind_eq_some_iff.mp h
  obtain ⟨l', -, h⟩ := Option.bind_eq_some_iff.mp h
  obtain ⟨n, -, h⟩ := Option.bind_eq_some_iff.mp h
  obtain ⟨m₃, h₃, h₄⟩ := Option.bind_eq_some_iff.mp h
  rw [setNext_alloc h₄, setPrev_alloc h₃, setPrev_alloc h₂, setNext_alloc h₁]

/-- `del` links the neighbours of the node and writes nothing else. -/
theorem del_ok {m : Mem ν} {x p n : ν} (hp : prv m x = some p) (hn : nxt m x = some n)
    (hpa : (m p).isSome) (hna : (m n).isSome) :
    ∃ m', del m x = some m' ∧ nxt m' = Function.update (nxt m) p (some n)
      ∧ prv m' = Function.update (prv m) n (some p) ∧ ∀ y, (m' y).isSome = (m y).isSome := by
  obtain ⟨i, hi⟩ := Option.isSome_iff_exists.mp (alloc_of_prv hp)
  have hip : i.prev = some p := by simpa [prv, hi] using hp
  have hin : i.next = some n := by simpa [nxt, hi] using hn
  obtain ⟨m₁, h₁, hn₁, hp₁, ha₁, -⟩ := setNext_ok hpa (some n)
  obtain ⟨j, hj⟩ := Option.isSome_iff_exists.mp (show (m₁ x).isSome by rw [ha₁, hi]; rfl)
  have hjn : j.next = some n := by
    have h : nxt m₁ x = some n := by
      rw [hn₁]
      by_cases hx : x = p
      · rw [hx]; exact Function.update_self ..
      · rw [Function.update_of_ne hx]; exact hn
    simpa [nxt, hj] using h
  have hjp : j.prev = some p := by
    have h : prv m₁ x = some p := by rw [hp₁]; exact hp
    simpa [prv, hj] using h
  obtain ⟨m₂, h₂, hn₂, hp₂, ha₂, -⟩ := setPrev_ok (m := m₁) (x := n) (by rw [ha₁]; exact hna) (some p)
  refine ⟨m₂, ?_, by rw [hn₂, hn₁], by rw [hp₂, hp₁], fun y => by rw [ha₂, ha₁]⟩
  simp [del, hi, hip, hin, h₁, hj, hjn, hjp, h₂]

/-- `unlink` does the same. -/
theorem unlink_ok {m : Mem ν} {x p n : ν} (hp : prv m x = some p) (hn : nxt m x = some n)
    (hpa : (m p).isSome) (hna : (m n).isSome) :
    ∃ m', unlink m x = some m' ∧ nxt m' = Function.update (nxt m) p (some n)
      ∧ prv m' = Function.update (prv m) n (some p) ∧ ∀ y, (m' y).isSome = (m y).isSome := by
  obtain ⟨i, hi⟩ := Option.isSome_iff_exists.mp (alloc_of_prv hp)
  have hip : i.prev = some p := by simpa [prv, hi] using hp
  have hin : i.next = some n := by simpa [nxt, hi] using hn
  obtain ⟨m₁, h₁, hn₁, hp₁, ha₁, -⟩ := setPrev_ok hna (some p)
  obtain ⟨j, hj⟩ := Option.isSome_iff_exists.mp (show (m₁ x).isSome by rw [ha₁, hi]; rfl)
  have hjn : j.next = some n := by
    have h : nxt m₁ x = some n := by rw [hn₁]; exact hn
    simpa [nxt, hj] using h
  have hjp : j.prev = some p := by
    have h : prv m₁ x = some p := by
      rw [hp₁]
      by_cases hx : x = n
      · rw [hx]; exact Function.update_self ..
      · rw [Function.update_of_ne hx]; exact hp
    simpa [prv, hj] using h
  obtain ⟨m₂, h₂, hn₂, hp₂, ha₂, -⟩ := setNext_ok (m := m₁) (x := p) (by rw [ha₁]; exact hpa) (some n)
  refine ⟨m₂, ?_, by rw [hn₂, hn₁], by rw [hp₂, hp₁], fun y => by rw [ha₂, ha₁]⟩
  simp [unlink, hi, hip, hin, h₁, hj, hjn, hjp, h₂]

/-- `insertAfter` writes the pointers of the item, of `p` and of the node after it. -/
theorem insertAfter_ok {m : Mem ν} {x p n : ν} (hxa : (m x).isSome) (hn : nxt m p = some n)
    (hna : (m n).isSome) (hxp : x ≠ p) :
    ∃ m', insertAfter m x p = some m'
      ∧ nxt m' = Function.update (Function.update (nxt m) x (some n)) p (some x)
      ∧ prv m' = Function.update (Function.update (prv m) x (some p)) n (some x)
      ∧ ∀ y, (m' y).isSome = (m y).isSome := by
  obtain ⟨l, hl⟩ := Option.isSome_iff_exists.mp (alloc_of_nxt hn)
  have hln : l.next = some n := by simpa [nxt, hl] using hn
  obtain ⟨m₁, h₁, hn₁, hp₁, ha₁, hf₁⟩ := setNext_ok hxa (some n)
  obtain ⟨m₂, h₂, hn₂, hp₂, ha₂, hf₂⟩ :=
    setPrev_ok (m := m₁) (x := x) (by rw [ha₁]; exact hxa) (some p)
  have hl₂ : m₂ p = some l := by rw [hf₂ p hxp.symm, hf₁ p hxp.symm, hl]
  obtain ⟨m₃, h₃, hn₃, hp₃, ha₃, -⟩ :=
    setPrev_ok (m := m₂) (x := n) (by rw [ha₂, ha₁]; exact hna) (some x)
  obtain ⟨m₄, h₄, hn₄, hp₄, ha₄, -⟩ :=
    setNext_ok (m := m₃) (x := p) (by rw [ha₃, hl₂]; rfl) (some x)
  refine ⟨m₄, ?_, by rw [hn₄, hn₃, hn₂, hn₁], by rw [hp₄, hp₃, hp₂, hp₁],
    fun y => by rw [ha₄, ha₃, ha₂, ha₁]⟩
  simp [insertAfter, hl, hln, h₁, h₂, hl₂, h₃, h₄]

/-- `addTail` writes the pointers of the item, of the head and of the last node. -/
theorem addTail_ok {m : Mem ν} {x h p : ν} (hxa : (m x).isSome) (hp : prv m h = some p)
    (hpa : (m p).isSome) (hxh : x ≠ h) :
    ∃ m', addTail m x h = some m'
      ∧ nxt m' = Function.update (Function.update (nxt m) x (some h)) p (some x)
      ∧ prv m' = Function.update (Function.update (prv m) x (some p)) h (some x)
      ∧ ∀ y, (m' y).isSome = (m y).isSome := by
  obtain ⟨l, hl⟩ := Option.isSome_iff_exists.mp (alloc_of_prv hp)
  have hlp : l.prev = some p := by simpa [prv, hl] using hp
  obtain ⟨m₁, h₁, hn₁, hp₁, ha₁, hf₁⟩ := setNext_ok hxa (some h)
  obtain ⟨m₂, h₂, hn₂, hp₂, ha₂, hf₂⟩ :=
    setPrev_ok (m := m₁) (x := x) (by rw [ha₁]; exact hxa) (some p)
  have hl₁ : m₁ h = some l := by rw [hf₁ h hxh.symm, hl]
  have hl₂ : m₂ h = some l := by rw [hf₂ h hxh.symm, hl₁]
  obtain ⟨m₃, h₃, hn₃, hp₃, ha₃, -⟩ :=
    setNext_ok (m := m₂) (x := p) (by rw [ha₂, ha₁]; exact hpa) (some x)
  obtain ⟨m₄, h₄, hn₄, hp₄, ha₄, -⟩ :=
    setPrev_ok (m := m₃) (x := h) (by rw [ha₃, ha₂, ha₁, hl]; rfl) (some x)
  refine ⟨m₄, ?_, by rw [hn₄, hn₃, hn₂, hn₁], by rw [hp₄, hp₃, hp₂, hp₁],
    fun y => by rw [ha₄, ha₃, ha₂, ha₁]⟩
  simp [addTail, h₁, hl₁, hlp, h₂, hl₂, h₃, h₄]

/-! ## Cutting a node out of a segment, and adding one at its end -/

/-- Linking the two neighbours of `x` to each other takes `x` out of the segment. -/
theorem Seg.erase {m m' : Mem ν} {x p n b : ν} {l₂ : List ν}
    (hn : nxt m' = Function.update (nxt m) p (some n))
    (hp : prv m' = Function.update (prv m) n (some p))
    (hxp : prv m x = some p) (hxn : nxt m x = some n) :
    ∀ {l₁ : List ν} {a : ν}, Seg m a (l₁ ++ x :: l₂) b → (a :: (l₁ ++ x :: l₂)).Nodup →
      ((l₁ ++ x :: l₂) ++ [b]).Nodup → Seg m' a (l₁ ++ l₂) b
  | [], a, h, hnd, hnd' => by
      obtain ⟨h₁, h₂, h₃⟩ := h
      have ha : a = p := by rw [h₂] at hxp; exact Option.some.inj hxp
      subst ha
      cases l₂ with
      | nil =>
          have hb : b = n := by rw [h₃.1] at hxn; exact Option.some.inj hxn
          subst hb
          exact ⟨by rw [hn]; exact Function.update_self .., by rw [hp]; exact Function.update_self ..⟩
      | cons y l₂ =>
          obtain ⟨h₄, -, h₅⟩ := h₃
          have hy : y = n := by rw [h₄] at hxn; exact Option.some.inj hxn
          subst hy
          refine ⟨by rw [hn]; exact Function.update_self .., by rw [hp]; exact Function.update_self ..,
            h₅.congr ?_ ?_⟩
          · intro z hz
            rw [hn]
            refine Function.update_of_ne ?_ _ _
            rintro rfl
            simp only [List.nil_append, List.nodup_cons, List.mem_cons, not_or] at hnd hz
            tauto
          · intro z hz
            rw [hp]
            refine Function.update_of_ne ?_ _ _
            rintro rfl
            simp only [List.nil_append, List.cons_append, List.nodup_cons] at hnd'
            exact hnd'.2.1 hz
  | z :: l₁, a, h, hnd, hnd' => by
      obtain ⟨h₁, h₂, h₃⟩ := h
      obtain ⟨haz, hnd⟩ := List.nodup_cons.mp hnd
      obtain ⟨hzb, hnd'⟩ := List.nodup_cons.mp hnd'
      have hpmem : p ∈ z :: l₁ := by
        have hsplit := (Seg.append.mp h₃).1.prv_end
        rw [hsplit] at hxp
        rw [← Option.some.inj hxp]
        exact List.getLast_mem _
      have hnmem : n ∈ l₂ ++ [b] := by
        have hsplit := (Seg.append.mp h₃).2.nxt_start
        rw [hsplit] at hxn
        rw [← Option.some.inj hxn]
        exact List.head_mem _
      refine ⟨?_, ?_, Seg.erase hn hp hxp hxn h₃ hnd hnd'⟩
      · rw [hn, Function.update_of_ne, h₁]
        rintro rfl
        exact haz (List.mem_append_left _ hpmem)
      · rw [hp, Function.update_of_ne, h₂]
        rintro rfl
        refine hzb (?_ : z ∈ l₁ ++ x :: l₂ ++ [b])
        rw [List.append_assoc]
        exact List.mem_append_right _ (List.mem_cons_of_mem _ hnmem)

/-- Linking `x` between the last node and the head puts it at the end of the segment. -/
theorem Seg.snoc {m m' : Mem ν} {x p h : ν}
    (hn : nxt m' = Function.update (Function.update (nxt m) x (some h)) p (some x))
    (hp : prv m' = Function.update (Function.update (prv m) x (some p)) h (some x))
    (hph : prv m h = some p) (hxh : x ≠ h) :
    ∀ {l : List ν} {a : ν}, Seg m a l h → x ∉ a :: l → (a :: l).Nodup → h ∉ l →
      Seg m' a (l ++ [x]) h
  | [], a, hs, hx, _, _ => by
      have ha : a = p := by rw [hs.2] at hph; exact Option.some.inj hph
      subst ha
      have hxa : x ≠ a := fun e => hx (by simp [e])
      refine ⟨by rw [hn]; exact Function.update_self .., ?_, ?_, by rw [hp]; exact Function.update_self ..⟩
      · rw [hp, Function.update_of_ne hxh]; exact Function.update_self ..
      · rw [hn, Function.update_of_ne hxa]; exact Function.update_self ..
  | y :: l, a, hs, hx, hnd, hh => by
      obtain ⟨h₁, h₂, h₃⟩ := hs
      obtain ⟨hay, hnd⟩ := List.nodup_cons.mp hnd
      have hpmem : p ∈ y :: l := by
        rw [h₃.prv_end] at hph
        rw [← Option.some.inj hph]
        exact List.getLast_mem _
      have hap : a ≠ p := fun e => hay (e ▸ hpmem)
      have hax : a ≠ x := fun e => hx (by simp [e])
      have hyx : y ≠ x := fun e => hx (by simp [e])
      have hyh : y ≠ h := fun e => hh (by simp [e])
      refine ⟨?_, ?_, Seg.snoc hn hp hph hxh h₃ ?_ hnd ?_⟩
      · rw [hn, Function.update_of_ne hap, Function.update_of_ne hax, h₁]
      · rw [hp, Function.update_of_ne hyh, Function.update_of_ne hyx, h₂]
      · exact fun hmem => hx (List.mem_cons_of_mem _ hmem)
      · exact fun hmem => hh (List.mem_cons_of_mem _ hmem)

/-- Linking `x` after the first node of a segment. -/
theorem Seg.insert {m m' : Mem ν} {x p n b : ν} {l : List ν}
    (hn : nxt m' = Function.update (Function.update (nxt m) x (some n)) p (some x))
    (hp : prv m' = Function.update (Function.update (prv m) x (some p)) n (some x))
    (hs : Seg m p l b) (hpn : nxt m p = some n) (hx : x ∉ l ++ [b]) (hxp : x ≠ p) (hpl : p ∉ l)
    (hnd : (l ++ [b]).Nodup) : Seg m' p (x :: l) b := by
  have hnext : nxt m' p = some x := by rw [hn]; exact Function.update_self ..
  have hxn : n ≠ x := by
    rintro rfl
    have hstart := hs.nxt_start
    rw [hpn] at hstart
    exact hx (Option.some.inj hstart ▸ List.head_mem _)
  have hprev : prv m' x = some p := by
    rw [hp, Function.update_of_ne hxn.symm]
    exact Function.update_self ..
  have hxnext : nxt m' x = some n := by
    rw [hn, Function.update_of_ne hxp]
    exact Function.update_self ..
  have hnprev : prv m' n = some x := by rw [hp]; exact Function.update_self ..
  refine ⟨hnext, hprev, ?_⟩
  cases l with
  | nil =>
      obtain rfl : b = n := Option.some.inj (hs.1.symm.trans hpn)
      exact ⟨hxnext, hnprev⟩
  | cons y l =>
      obtain ⟨h₁, -, h₃⟩ := hs
      obtain rfl : y = n := Option.some.inj (h₁.symm.trans hpn)
      refine ⟨hxnext, hnprev, h₃.congr ?_ ?_⟩
      · intro z hz
        have hzp : z ≠ p := fun e => hpl (e ▸ hz)
        have hzx : z ≠ x := fun e => hx (List.mem_append_left _ (e ▸ hz))
        rw [hn, Function.update_of_ne hzp, Function.update_of_ne hzx]
      · intro z hz
        have hzy : z ≠ y := fun e => (List.nodup_cons.mp hnd).1 (e ▸ hz)
        have hzx : z ≠ x := fun e => hx (List.mem_cons_of_mem _ (e ▸ hz))
        rw [hp, Function.update_of_ne hzy, Function.update_of_ne hzx]

/-! ## The specifications -/

/-- Adding a node that is allocated and not on the list. -/
theorem IsList.addTail {m : Mem ν} {h x : ν} {l : List ν} (hl : IsList m h l)
    (hx : x ∉ h :: l) (hxa : (m x).isSome) :
    ∃ m', addTail m x h = some m' ∧ IsList m' h (l ++ [x])
      ∧ (∀ y, (m' y).isSome = (m y).isSome) ∧ ∀ y, y ∉ h :: l ++ [x] → m' y = m y := by
  have hph := hl.1.prv_end
  have hlast : (h :: l).getLast (by simp) ∈ h :: l := List.getLast_mem _
  have hxh : x ≠ h := fun e => hx (by simp [e])
  obtain ⟨m', hm', hn', hp', ha'⟩ := addTail_ok hxa hph (hl.alloc hlast) hxh
  refine ⟨m', hm', ⟨Seg.snoc hn' hp' hph hxh hl.1 hx hl.2 hl.head_notMem, ?_⟩, ha', ?_⟩
  · rw [← List.cons_append, List.nodup_append]
    refine ⟨hl.2, by simp, ?_⟩
    intro a ha b hb
    rw [List.mem_singleton.mp hb]
    rintro rfl
    exact hx ha
  · intro y hy
    have hyx : y ≠ x := fun e => hy (by simp [e])
    have hyh : y ≠ h := fun e => hy (by simp [e])
    have hyp : y ≠ (h :: l).getLast (by simp) := fun e =>
      hy (List.mem_append_left _ (e ▸ hlast))
    refine link_eq (ha' y) ?_ ?_
    · rw [hn', Function.update_of_ne hyp, Function.update_of_ne hyx]
    · rw [hp', Function.update_of_ne hyh, Function.update_of_ne hyx]

/-- Linking the neighbours of a node to each other takes it off the list. -/
theorem IsList.cut {m m' : Mem ν} {h x p n : ν} {l₁ l₂ : List ν} (hl : IsList m h (l₁ ++ x :: l₂))
    (hpx : prv m x = some p) (hnx : nxt m x = some n)
    (hn : nxt m' = Function.update (nxt m) p (some n)) (hp : prv m' = Function.update (prv m) n (some p))
    (ha : ∀ y, (m' y).isSome = (m y).isSome) :
    IsList m' h (l₁ ++ l₂) ∧ ∀ y, y ∉ h :: (l₁ ++ x :: l₂) → m' y = m y := by
  obtain ⟨p', n', hpx', hnx', hpmem, hnmem⟩ := hl.neighbours
  obtain rfl : p' = p := Option.some.inj (hpx'.symm.trans hpx)
  obtain rfl : n' = n := Option.some.inj (hnx'.symm.trans hnx)
  refine ⟨⟨Seg.erase hn hp hpx hnx hl.1 hl.2 hl.nodup_end, ?_⟩, ?_⟩
  · refine hl.2.sublist (List.Sublist.cons_cons _ ?_)
    exact List.Sublist.append_left (List.sublist_cons_self x l₂) l₁
  · intro y hy
    refine link_eq (ha y) ?_ ?_
    · rw [hn, Function.update_of_ne]
      rintro rfl
      exact hy (List.mem_append_left (x :: l₂) hpmem)
    · rw [hp, Function.update_of_ne]
      rintro rfl
      exact hy (mem_of_end hnmem)

/-- Unlinking a node of the list. -/
theorem IsList.del {m : Mem ν} {h x : ν} {l : List ν} (hl : IsList m h l) (hx : x ∈ l) :
    ∃ m', del m x = some m' ∧ IsList m' h (l.erase x)
      ∧ (∀ y, (m' y).isSome = (m y).isSome) ∧ ∀ y, y ∉ h :: l → m' y = m y := by
  obtain ⟨l₁, l₂, hx₁, rfl, herase⟩ := List.exists_erase_eq hx
  obtain ⟨p, n, hpx, hnx, hpmem, hnmem⟩ := hl.neighbours
  obtain ⟨m', hm', hn', hp', ha'⟩ :=
    del_ok hpx hnx (hl.alloc (List.mem_append_left (x :: l₂) hpmem)) (hl.alloc (mem_of_end hnmem))
  obtain ⟨hl', hframe⟩ := hl.cut hpx hnx hn' hp' ha'
  exact ⟨m', hm', herase ▸ hl', ha', hframe⟩

theorem IsList.unlink {m : Mem ν} {h x : ν} {l₁ l₂ : List ν} (hl : IsList m h (l₁ ++ x :: l₂)) :
    ∃ m', unlink m x = some m' ∧ IsList m' h (l₁ ++ l₂)
      ∧ (∀ y, (m' y).isSome = (m y).isSome) ∧ ∀ y, y ∉ h :: (l₁ ++ x :: l₂) → m' y = m y := by
  obtain ⟨p, n, hpx, hnx, hpmem, hnmem⟩ := hl.neighbours
  obtain ⟨m', hm', hn', hp', ha'⟩ :=
    unlink_ok hpx hnx (hl.alloc (List.mem_append_left (x :: l₂) hpmem)) (hl.alloc (mem_of_end hnmem))
  obtain ⟨hl', hframe⟩ := hl.cut hpx hnx hn' hp' ha'
  exact ⟨m', hm', hl', ha', hframe⟩

/-- The node after `p` is taken off by two writes that are made from `p`. -/
theorem IsList.cutNext {m : Mem ν} {h p x : ν} {l₁ l₂ : List ν} (hl : IsList m h (l₁ ++ p :: x :: l₂)) :
    ∃ n m₁ m₂, nxt m x = some n ∧ setNext m p (some n) = some m₁ ∧ setPrev m₁ n (some p) = some m₂
      ∧ IsList m₂ h (l₁ ++ p :: l₂) ∧ ∀ y, (m₂ y).isSome = (m y).isSome := by
  have hl' : IsList m h ((l₁ ++ [p]) ++ x :: l₂) := by simpa using hl
  have hpx : prv m x = some p := (Seg.append.mp hl.1).2.2.1
  obtain ⟨-, n, -, hnx, -, hnmem⟩ := hl'.neighbours
  obtain ⟨m₁, h₁, hn₁, hp₁, ha₁, -⟩ := setNext_ok (hl.alloc (x := p) (by simp)) (some n)
  obtain ⟨m₂, h₂, hn₂, hp₂, ha₂, -⟩ :=
    setPrev_ok (m := m₁) (x := n) (by rw [ha₁]; exact hl'.alloc (mem_of_end hnmem)) (some p)
  have halloc : ∀ y, (m₂ y).isSome = (m y).isSome := fun y => by rw [ha₂, ha₁]
  have hcut := (hl'.cut hpx hnx (by rw [hn₂, hn₁]) (by rw [hp₂, hp₁]) halloc).1
  exact ⟨n, m₁, m₂, hnx, h₁, h₂, by simpa using hcut, halloc⟩

/-- Linking a new node after a node of the list. -/
theorem IsList.insertAfter {m : Mem ν} {h p x : ν} {l₁ l₂ : List ν} (hl : IsList m h (l₁ ++ p :: l₂))
    (hx : x ∉ h :: (l₁ ++ p :: l₂)) (hxa : (m x).isSome) :
    ∃ m', insertAfter m x p = some m' ∧ IsList m' h (l₁ ++ p :: x :: l₂)
      ∧ (∀ y, (m' y).isSome = (m y).isSome) ∧ ∀ y, y ∉ h :: (l₁ ++ p :: l₂) → y ≠ x → m' y = m y := by
  obtain ⟨-, n, -, hnp, -, hnmem⟩ := hl.neighbours
  have hxp : x ≠ p := fun e => hx (by simp [e])
  obtain ⟨m', hm', hn', hp', ha'⟩ := insertAfter_ok hxa hnp (hl.alloc (mem_of_end hnmem)) hxp
  obtain ⟨hs₁, hs₂⟩ := Seg.append.mp hl.1
  have hend := hl.nodup_end
  rw [List.append_assoc, List.nodup_append] at hend
  obtain ⟨hnd₁, hnd₂, hdisj⟩ := hend
  obtain ⟨hpl, hnd₂⟩ := List.nodup_cons.mp hnd₂
  have hpl₁ : p ∉ h :: l₁ := by
    have hnd := hl.2
    rw [← List.cons_append, List.nodup_append] at hnd
    exact fun hmem => hnd.2.2 p hmem p (List.mem_cons_self ..) rfl
  refine ⟨m', hm', ⟨Seg.append.mpr ⟨hs₁.congr ?_ ?_, ?_⟩, ?_⟩, ha', ?_⟩
  · intro y hy
    have hyp : y ≠ p := fun e => hpl₁ (e ▸ hy)
    have hyx : y ≠ x := fun e => hx (List.mem_append_left (p :: l₂) (e ▸ hy))
    rw [hn', Function.update_of_ne hyp, Function.update_of_ne hyx]
  · intro y hy
    have hyn : y ≠ n := by
      rintro rfl
      rcases List.mem_append.mp hy with hy | hy
      · exact hdisj y hy y (List.mem_cons_of_mem _ hnmem) rfl
      · exact hpl (List.mem_singleton.mp hy ▸ hnmem)
    have hyx : y ≠ x := by
      rintro rfl
      refine hx (List.mem_cons_of_mem _ ?_)
      rcases List.mem_append.mp hy with hy | hy
      · exact List.mem_append_left _ hy
      · rw [List.mem_singleton.mp hy]; simp
    rw [hp', Function.update_of_ne hyn, Function.update_of_ne hyx]
  · refine Seg.insert hn' hp' hs₂ hnp (fun hmem => hx (mem_of_end hmem)) hxp ?_ hnd₂
    exact fun hmem => hpl (List.mem_append_left _ hmem)
  · have hperm : (h :: (l₁ ++ p :: x :: l₂)).Perm (x :: h :: (l₁ ++ p :: l₂)) := by
      have hmid : (l₁ ++ p :: x :: l₂).Perm (x :: (l₁ ++ p :: l₂)) := by
        have hmid : ((l₁ ++ [p]) ++ x :: l₂).Perm (x :: ((l₁ ++ [p]) ++ l₂)) := List.perm_middle
        simpa using hmid
      exact (hmid.cons h).trans (List.Perm.swap x h _)
    exact hperm.nodup_iff.mpr (List.nodup_cons.mpr ⟨hx, hl.2⟩)
  · intro y hy hyx
    have hyp : y ≠ p := fun e => hy (by simp [e])
    have hyn : y ≠ n := fun e => hy (e ▸ mem_of_end hnmem)
    refine link_eq (ha' y) ?_ ?_
    · rw [hn', Function.update_of_ne hyp, Function.update_of_ne hyx]
    · rw [hp', Function.update_of_ne hyn, Function.update_of_ne hyx]

/-- Linking a new node in at the front. -/
theorem IsList.insertFront {m : Mem ν} {h x : ν} {l : List ν} (hl : IsList m h l) (hx : x ∉ h :: l)
    (hxa : (m x).isSome) :
    ∃ m', DList.insertAfter m x h = some m' ∧ IsList m' h (x :: l)
      ∧ (∀ y, (m' y).isSome = (m y).isSome) ∧ ∀ y, y ∉ h :: l → y ≠ x → m' y = m y := by
  have hnp := hl.1.nxt_start
  have hnmem : (l ++ [h]).head (by simp) ∈ h :: l := by
    have hmem : (l ++ [h]).head (by simp) ∈ l ++ [h] := List.head_mem _
    rcases List.mem_append.mp hmem with hmem | hmem
    · exact List.mem_cons_of_mem _ hmem
    · rw [List.mem_singleton.mp hmem]; exact List.mem_cons_self ..
  have hxh : x ≠ h := fun e => hx (by simp [e])
  obtain ⟨m', hm', hn', hp', ha'⟩ := insertAfter_ok hxa hnp (hl.alloc hnmem) hxh
  refine ⟨m', hm', ⟨Seg.insert hn' hp' hl.1 hnp ?_ hxh hl.head_notMem hl.nodup_end, ?_⟩, ha', ?_⟩
  · intro hmem
    rcases List.mem_append.mp hmem with hmem | hmem
    · exact hx (List.mem_cons_of_mem _ hmem)
    · exact hxh (List.mem_singleton.mp hmem)
  · exact ((List.Perm.swap x h l).nodup_iff).mpr (List.nodup_cons.mpr ⟨hx, hl.2⟩)
  · intro y hy hyx
    have hyh : y ≠ h := fun e => hy (by simp [e])
    have hyn : y ≠ (l ++ [h]).head (by simp) := fun e => hy (e ▸ hnmem)
    refine link_eq (ha' y) ?_ ?_
    · rw [hn', Function.update_of_ne hyh, Function.update_of_ne hyx]
    · rw [hp', Function.update_of_ne hyn, Function.update_of_ne hyx]

/-- The item between the head and the first node. -/
theorem add_eq_insertAfter {m : Mem ν} {x h : ν} (hxh : x ≠ h) : add m x h = insertAfter m x h := by
  have hhx : h ≠ x := hxh.symm
  cases hx : m x with
  | none => cases hh : m h <;> simp [add, insertAfter, setPrev, setNext, hx, hh]
  | some l =>
      cases hh : m h with
      | none => simp [add, insertAfter, setPrev, setNext, hx, hh, hhx]
      | some j => simp [add, insertAfter, setPrev, setNext, hx, hh, hhx]

theorem IsList.add {m : Mem ν} {h x : ν} {l : List ν} (hl : IsList m h l) (hx : x ∉ h :: l) (hxa : (m x).isSome) :
    ∃ m', DList.add m x h = some m' ∧ IsList m' h (x :: l)
      ∧ (∀ y, (m' y).isSome = (m y).isSome) ∧ ∀ y, y ∉ h :: l → y ≠ x → m' y = m y := by
  have hxh : x ≠ h := fun e => hx (by simp [e])
  rw [add_eq_insertAfter hxh]
  exact hl.insertFront hx hxa

/-- The nodes of one list go to the front of another. -/
theorem IsList.join {m : Mem ν} {h k : ν} {l l' : List ν} (hl : IsList m h l) (hl' : IsList m k l')
    (hdisj : (h :: l).Disjoint (k :: l')) :
    ∃ m', join m h k = some m' ∧ IsList m' k (l ++ l') ∧ (∀ y, (m' y).isSome = (m y).isSome) ∧
      ∀ y, y ∉ l → y ∉ k :: l' → m' y = m y := by
  cases l with
  | nil =>
      refine ⟨m, ?_, hl', fun _ => rfl, fun _ _ _ => rfl⟩
      have hempty : isEmpty m h = true := by simp [isEmpty, hl.1.1]
      rw [DList.join, if_pos hempty]
  | cons x l =>
      have hxh : x ≠ h := fun e => hl.head_notMem (e ▸ List.mem_cons_self)
      have hempty : ¬ isEmpty m h = true := by
        rw [isEmpty, hl.1.1, beq_iff_eq]
        exact fun e => hxh (Option.some.inj e)
      -- the last node, and the node after the new head
      obtain ⟨last, hlastdef⟩ : ∃ last, last = (x :: l).getLast (List.cons_ne_nil x l) := ⟨_, rfl⟩
      obtain ⟨n, hndef⟩ : ∃ n, n = (l' ++ [k]).head (by simp) := ⟨_, rfl⟩
      have hlastmem : last ∈ x :: l := hlastdef ▸ List.getLast_mem _
      have hnmem : n ∈ k :: l' := by
        have hmem : n ∈ l' ++ [k] := hndef ▸ List.head_mem _
        simpa [or_comm] using hmem
      have hprvh : prv m h = some last := by
        rw [hl.1.prv_end, hlastdef, List.getLast_cons (List.cons_ne_nil x l)]
      have hnxtk : nxt m k = some n := hndef ▸ hl'.1.nxt_start
      have hne : ∀ {y z}, y ∈ h :: x :: l → z ∈ k :: l' → y ≠ z := fun hy hz e => hdisj hy (e ▸ hz)
      have hlasth : last ≠ h := fun e => hl.head_notMem (e ▸ hlastmem)
      have hmemx : x ∈ h :: x :: l := by simp
      have hmemlast : last ∈ h :: x :: l := List.mem_cons_of_mem h hlastmem
      have hmemh : h ∈ h :: x :: l := List.mem_cons_self
      have hmemk : k ∈ k :: l' := List.mem_cons_self
      obtain ⟨m₁, h₁, hn₁, hp₁, ha₁, -⟩ := setPrev_ok (hl.alloc hmemx) (some k)
      obtain ⟨m₂, h₂, hn₂, hp₂, ha₂, -⟩ := setNext_ok (m := m₁) (x := last) (by rw [ha₁]; exact hl.alloc hmemlast) (some n)
      obtain ⟨m₃, h₃, hn₃, hp₃, ha₃, -⟩ :=
        setPrev_ok (m := m₂) (x := n) (by rw [ha₂, ha₁]; exact hl'.alloc hnmem) (some last)
      obtain ⟨m₄, h₄, hn₄, hp₄, ha₄, -⟩ :=
        setNext_ok (m := m₃) (x := k) (by rw [ha₃, ha₂, ha₁]; exact hl'.alloc hmemk) (some x)
      have hnxt : nxt m₄ = Function.update (Function.update (nxt m) last (some n)) k (some x) := by
        rw [hn₄, hn₃, hn₂, hn₁]
      have hprv : prv m₄ = Function.update (Function.update (prv m) x (some k)) n (some last) := by
        rw [hp₄, hp₃, hp₂, hp₁]
      refine ⟨m₄, ?_, ⟨?_, ?_⟩, fun y => by rw [ha₄, ha₃, ha₂, ha₁], fun y hy hy' => ?_⟩
      · have e₁ : prv m₁ h = some last := by rw [hp₁, Function.update_of_ne hxh.symm, hprvh]
        have e₂ : nxt m₁ k = some n := by rw [hn₁, hnxtk]
        have e₃ : nxt m₂ k = some n := by
          rw [hn₂, Function.update_of_ne (hne hmemlast hmemk).symm, e₂]
        have e₄ : prv m₂ h = some last := by rw [hp₂, e₁]
        have e₅ : nxt m₃ h = some x := by
          rw [hn₃, hn₂, Function.update_of_ne hlasth.symm, hn₁, hl.1.1]
        rw [DList.join, if_neg hempty]
        simp only [hl.1.1, Option.bind_eq_bind, Option.bind_some, h₁, e₁, e₂, h₂, e₃, e₄, h₃, e₅, h₄]
      · have hfront : Seg m₄ k (x :: l) n := by
          refine hl.1.2.2.between ?_ ?_ ?_ ?_ (fun y hy => ?_) fun y hy => ?_
          · rw [hnxt, Function.update_self]
          · rw [hprv, Function.update_of_ne (hne hmemx hnmem), Function.update_self]
          · rw [← hlastdef, hnxt, Function.update_of_ne (hne hmemlast hmemk), Function.update_self]
          · rw [← hlastdef, hprv, Function.update_self]
          · have hy' : y ∈ h :: x :: l := List.mem_cons_of_mem h (List.dropLast_subset _ hy)
            have hylast : y ≠ last := by
              have hnodup := hl.nodup
              rw [← List.dropLast_append_getLast (List.cons_ne_nil x l), ← hlastdef] at hnodup
              exact fun e => (List.nodup_append.mp hnodup).2.2 y hy last (by simp) e
            rw [hnxt, Function.update_of_ne (hne hy' hmemk), Function.update_of_ne hylast]
          · have hy' : y ∈ h :: x :: l := by simp [hy]
            have hyx : y ≠ x := fun e => (List.nodup_cons.mp hl.nodup).1 (e ▸ hy)
            rw [hprv, Function.update_of_ne (hne hy' hnmem), Function.update_of_ne hyx]
        cases l' with
        | nil =>
            have hnk : n = k := hndef
            rw [hnk] at hfront
            rwa [List.append_nil]
        | cons y l' =>
            have hny : n = y := hndef
            subst hny
            refine Seg.append.mpr ⟨hfront, hl'.1.2.2.congr (fun z hz => ?_) fun z hz => ?_⟩
            · have hzk : z ≠ k := fun e => hl'.head_notMem (e ▸ hz)
              rw [hnxt, Function.update_of_ne hzk,
                Function.update_of_ne (hne hmemlast (List.mem_cons_of_mem k hz)).symm]
            · have hz' : z ∈ k :: n :: l' := by
                rcases List.mem_append.mp hz with hz | hz
                · simp [hz]
                · simp [List.mem_singleton.mp hz]
              have hzn : z ≠ n := by
                rintro rfl
                rcases List.mem_append.mp hz with hz | hz
                · exact (List.nodup_cons.mp hl'.nodup).1 hz
                · exact hl'.head_notMem (List.mem_singleton.mp hz ▸ List.mem_cons_self)
              rw [hprv, Function.update_of_ne hzn, Function.update_of_ne (hne hmemx hz').symm]
      · have hperm : (k :: (x :: l ++ l')).Perm (x :: l ++ k :: l') := List.perm_middle.symm
        refine hperm.nodup_iff.mpr (hl.nodup.append hl'.2 fun y hy hy' => ?_)
        exact hdisj (List.mem_cons_of_mem h hy) hy'
      · have hyk : y ≠ k := fun e => hy' (e ▸ hmemk)
        have hyn : y ≠ n := fun e => hy' (e ▸ hnmem)
        have hylast : y ≠ last := fun e => hy (e ▸ hlastmem)
        have hyx : y ≠ x := fun e => hy (e ▸ List.mem_cons_self)
        refine link_eq (by rw [ha₄, ha₃, ha₂, ha₁]) ?_ ?_
        · rw [hnxt, Function.update_of_ne hyk, Function.update_of_ne hylast]
        · rw [hprv, Function.update_of_ne hyn, Function.update_of_ne hyx]

/-- Unlinking a node that is linked to itself changes nothing. -/
theorem SelfLinked.del {m : Mem ν} {x : ν} (hs : SelfLinked m x) : del m x = some m := by
  have hn := hs.nxt
  have hp := hs.prv
  obtain ⟨m', hm', hn', hp', ha'⟩ := del_ok hp hn (alloc_of_nxt hn) (alloc_of_nxt hn)
  rw [hm']
  congr 1
  funext y
  refine link_eq (ha' y) ?_ ?_
  · rw [hn', ← hn, Function.update_eq_self]
  · rw [hp', ← hp, Function.update_eq_self]

theorem init_ok {m : Mem ν} {x : ν} (hx : (m x).isSome) :
    ∃ m', init m x = some m' ∧ SelfLinked m' x ∧ (∀ y, (m' y).isSome = (m y).isSome)
      ∧ ∀ y, y ≠ x → m' y = m y := by
  obtain ⟨m₁, h₁, hn₁, hp₁, ha₁, hf₁⟩ := setPrev_ok hx (some x)
  obtain ⟨m₂, h₂, hn₂, hp₂, ha₂, hf₂⟩ := setNext_ok (m := m₁) (x := x) (by rw [ha₁]; exact hx) (some x)
  refine ⟨m₂, by simp [init, h₁, h₂], ?_, fun y => by rw [ha₂, ha₁],
    fun y hy => by rw [hf₂ y hy, hf₁ y hy]⟩
  obtain ⟨l, hl⟩ := Option.isSome_iff_exists.mp (show (m₂ x).isSome by rw [ha₂, ha₁]; exact hx)
  have hln : nxt m₂ x = some x := by rw [hn₂]; exact Function.update_self ..
  have hlp : prv m₂ x = some x := by rw [hp₂, hp₁]; exact Function.update_self ..
  obtain ⟨p, n⟩ := l
  simp only [nxt, prv, hl, Option.bind_some] at hln hlp
  simp [SelfLinked, hl, hln, hlp]

/-- `delInit` is `del`, and then the node is linked to itself. -/
theorem IsList.delInit {m : Mem ν} {h x : ν} {l : List ν} (hl : IsList m h l) (hx : x ∈ l) :
    ∃ m', delInit m x = some m' ∧ IsList m' h (l.erase x) ∧ SelfLinked m' x
      ∧ (∀ y, (m' y).isSome = (m y).isSome) ∧ ∀ y, y ∉ h :: l → m' y = m y := by
  obtain ⟨m₁, h₁, hl₁, ha₁, hf₁⟩ := hl.del hx
  have hxa : (m₁ x).isSome := by rw [ha₁]; exact hl.alloc (List.mem_cons_of_mem _ hx)
  obtain ⟨m₂, h₂, hn₂, hp₂, ha₂, hf₂⟩ := setNext_ok hxa (some x)
  obtain ⟨m₃, h₃, hn₃, hp₃, ha₃, hf₃⟩ := setPrev_ok (m := m₂) (x := x) (by rw [ha₂]; exact hxa) (some x)
  have hframe : ∀ y, y ≠ x → m₃ y = m₁ y := fun y hy => by rw [hf₃ y hy, hf₂ y hy]
  refine ⟨m₃, by simp [DList.delInit, h₁, h₂, h₃], hl₁.congr ?_, ?_,
    fun y => by rw [ha₃, ha₂, ha₁], ?_⟩
  · intro y hy
    refine hframe y ?_
    rintro rfl
    rcases List.mem_cons.mp hy with rfl | hy
    · exact hl.head_notMem hx
    · exact hl.nodup.not_mem_erase hy
  · obtain ⟨l', hl'⟩ := Option.isSome_iff_exists.mp (show (m₃ x).isSome by rw [ha₃, ha₂]; exact hxa)
    have hln : nxt m₃ x = some x := by rw [hn₃, hn₂]; exact Function.update_self ..
    have hlp : prv m₃ x = some x := by rw [hp₃]; exact Function.update_self ..
    obtain ⟨p, n⟩ := l'
    simp only [nxt, prv, hl', Option.bind_some] at hln hlp
    simp [SelfLinked, hl', hln, hlp]
  · intro y hy
    rw [hframe y ?_, hf₁ y hy]
    rintro rfl
    exact hy (List.mem_cons_of_mem _ hx)

/-- The head that the nodes have left is made an empty list. -/
theorem IsList.splice {m : Mem ν} {h k : ν} {l l' : List ν} (hl : IsList m h l) (hl' : IsList m k l')
    (hdisj : (h :: l).Disjoint (k :: l')) :
    ∃ m₁ m', DList.join m h k = some m₁ ∧ init m₁ h = some m' ∧ IsList m' h [] ∧ IsList m' k (l ++ l') ∧
      ∀ y, y ∉ h :: l → y ∉ k :: l' → m' y = m y := by
  obtain ⟨m₁, h₁, hlist, halloc, hframe⟩ := hl.join hl' hdisj
  obtain ⟨m', h', hself, -, hframe'⟩ := init_ok (m := m₁) (x := h) (by rw [halloc]; exact hl.alloc List.mem_cons_self)
  refine ⟨m₁, m', h₁, h', nil_of_selfLinked hself, hlist.congr fun y hy => hframe' y ?_, fun y hy hy' => ?_⟩
  · rintro rfl
    rcases List.mem_cons.mp hy with rfl | hy
    · exact hdisj List.mem_cons_self List.mem_cons_self
    · rcases List.mem_append.mp hy with hy | hy
      · exact hl.head_notMem hy
      · exact hdisj List.mem_cons_self (List.mem_cons_of_mem k hy)
  · have hyh : y ≠ h := fun e => hy (by simp [e])
    rw [hframe' y hyh]
    exact hframe y (fun hmem => hy (List.mem_cons_of_mem h hmem)) hy'

/-- The search round a list finds what a search of its nodes finds. -/
theorem IsList.find {m : Mem ν} {h : ν} {l : List ν} (hl : IsList m h l) (p : ν → Bool) {k : Nat}
    (hk : l.length < k) : find m h p k = some (l.find? p) := by
  have key : ∀ (l' : List ν) (a : ν) (k : Nat), Seg m a l' h → h ∉ l' → l'.length < k →
      (nxt m a).bind (findFrom m h p k) = some (l'.find? p) := by
    intro l'
    induction l' with
    | nil =>
        intro a k hs _ hk
        obtain ⟨k, rfl⟩ : ∃ j, k = j + 1 := ⟨k - 1, by simp at hk; omega⟩
        simp [hs.1, findFrom]
    | cons x l' ih =>
        intro a k hs hh hk
        obtain ⟨k, rfl⟩ : ∃ j, k = j + 1 := ⟨k - 1, by simp at hk; omega⟩
        have hxh : x ≠ h := fun e => hh (by simp [e])
        have hxa : m x ≠ none :=
          Option.isSome_iff_ne_none.mp (hs.2.2.alloc x (List.mem_cons_self ..))
        have hrec := ih x k hs.2.2 (fun hm => hh (List.mem_cons_of_mem _ hm)) (by simpa using hk)
        by_cases hpx : p x = true
        · simp [hs.1, findFrom, hxh, hxa, hpx]
        · simp [hs.1, findFrom, hxh, hxa, hpx, hrec]
  exact key l h k hl.1 hl.head_notMem hk

theorem SelfLinked.isEmpty {m : Mem ν} {x : ν} (hs : SelfLinked m x) : isEmpty m x = true := by
  simp [DList.isEmpty, hs.nxt]

/-- A node of a list is not linked to itself. -/
theorem IsList.isEmpty_of_mem {m : Mem ν} {h x : ν} {l : List ν} (hl : IsList m h l) (hx : x ∈ l) :
    isEmpty m x = false := by
  obtain ⟨l₁, l₂, rfl⟩ := List.append_of_mem hx
  have hnx := (Seg.append.mp hl.1).2.nxt_start
  have hne : (l₂ ++ [h]).head (by simp) ≠ x := by
    intro e
    have hmem : (l₂ ++ [h]).head (by simp) ∈ l₂ ++ [h] := List.head_mem _
    rw [e] at hmem
    have hnd := hl.nodup_end
    rw [List.append_assoc, List.nodup_append] at hnd
    exact (List.nodup_cons.mp hnd.2.1).1 hmem
  simp [DList.isEmpty, hnx, hne]

end Ops

end DList
