/-
# `LibDrm.SL.Invariant` — the chains of a skip list

`Inv l xs` says that `xs` are the entries of the list in the order of their
keys and that the chain of each level consists of the entries that have this
level.  Every chain is thus sorted and a sublist of the one below it.

A search for a key splits the entries into those before and those from the key
on, `P ++ Q`; on each level it ends at the last entry of `P` that has the level
(`pred`, the head if there is none), and these are the slots of `update`
(`slLocate_spec`).  Insertion and deletion are put together from the five
changes that each keep `Inv`: `create`, `link`, `unlink`, `release`, `lower`.
-/
import LibDrm.SL.List
import LibDrm.Lib.SList
import LibDrm.Lib.Returns
import Mathlib.Data.List.Range

namespace LibDrm.SL

open SList CInt

@[simp] theorem deref_some {α : Type} (a : α) : deref (some a) = .ok a := rfl

@[simp] theorem ok_bind {α β : Type} (a : α) (f : α → Except Fault β) : (Except.ok a >>= f) = f a := rfl

namespace SkipList

/-- The forward pointers of a level, the keys, the values and the levels, as functions of the entry. -/
def nxt (l : SkipList) (i : Nat) (x : Addr) : Option Addr := (l.mem x).bind fun e => e.forward i

def key (l : SkipList) (x : Addr) : UInt64 := (l.mem x).elim 0 SLEntry.key

def value (l : SkipList) (x : Addr) : Option Addr := (l.mem x).bind SLEntry.value

def levels (l : SkipList) (x : Addr) : Nat := (l.mem x).elim 0 SLEntry.levels

/-- The entries that stand on the level `i`. -/
def onLevel (l : SkipList) (i : Nat) (xs : List Addr) : List Addr := xs.filter fun x => decide (i < l.levels x)

theorem onLevel_append (l : SkipList) (i : Nat) (xs ys : List Addr) :
    l.onLevel i (xs ++ ys) = l.onLevel i xs ++ l.onLevel i ys := List.filter_append ..

theorem mem_onLevel {l : SkipList} {i : Nat} {xs : List Addr} {x : Addr} :
    x ∈ l.onLevel i xs ↔ x ∈ xs ∧ i < l.levels x := by simp [onLevel]

theorem onLevel_congr {l l' : SkipList} {i : Nat} {xs : List Addr} (h : ∀ x ∈ xs, l'.levels x = l.levels x) :
    l'.onLevel i xs = l.onLevel i xs :=
  List.filter_congr fun x hx => by rw [h x hx]

/-- Where a search along the level `i` ends: at the last of the entries `P` that have the level. -/
def pred (l : SkipList) (i : Nat) (P : List Addr) : Addr := (l.head :: l.onLevel i P).getLast (by simp)

theorem pred_mem (l : SkipList) (i : Nat) (P : List Addr) : l.pred i P ∈ l.head :: l.onLevel i P :=
  List.getLast_mem _

theorem getLast?_pred (l : SkipList) (i : Nat) (P : List Addr) :
    l.pred i P ∈ (l.head :: l.onLevel i P).getLast? := by
  rw [List.getLast?_eq_some_getLast (List.cons_ne_nil _ _)]
  rfl

end SkipList

open SkipList

/-- The entries `xs` stand on the list, in the order of their keys. -/
structure Inv (l : SkipList) (xs : List Addr) : Prop where
  magic : l.magic = SL_LIST_MAGIC
  headLevels : l.levels l.head = SL_MAX_LEVEL + 1
  headOff : l.head ∉ xs
  entryLevels : ∀ x ∈ xs, 0 < l.levels x ∧ l.levels x ≤ l.level + 1
  level_le : l.level ≤ SL_MAX_LEVEL
  sorted : xs.Pairwise fun x y => l.key x < l.key y
  chain : ∀ i ≤ SL_MAX_LEVEL, Chain (l.nxt i) (l.nxt i l.head) (l.onLevel i xs)
  known : ∀ x, (l.mem x).isSome → x < l.fresh

/-! ## Accesses -/

variable {l : SkipList} {xs P Q : List Addr} {x : Addr} {i : Nat}

theorem alloc_of_levels (h : i < l.levels x) : ∃ e, l.mem x = some e ∧ i < e.levels := by
  cases hx : l.mem x with
  | none => simp [levels, hx] at h
  | some e => exact ⟨e, rfl, by simpa [levels, hx] using h⟩

theorem fwd_ok (h : i < l.levels x) : l.fwd x i = .ok (l.nxt i x) := by
  obtain ⟨e, he, hi⟩ := alloc_of_levels h
  simp only [fwd, he, deref_some, ok_bind, hi, if_true, nxt, Option.bind_some]
  rfl

/-- The list differs from `l` in forward pointers only. -/
structure SameBut (l l' : SkipList) : Prop where
  key : l'.key = l.key
  value : l'.value = l.value
  levels : l'.levels = l.levels
  alloc : ∀ x, (l'.mem x).isSome = (l.mem x).isSome
  rest : l' = { l with mem := l'.mem }

theorem SameBut.refl (l : SkipList) : SameBut l l := ⟨rfl, rfl, rfl, fun _ => rfl, rfl⟩

theorem SameBut.trans {l₁ l₂ l₃ : SkipList} (h : SameBut l₁ l₂) (h' : SameBut l₂ l₃) : SameBut l₁ l₃ :=
  ⟨h'.key.trans h.key, h'.value.trans h.value, h'.levels.trans h.levels, fun x => (h'.alloc x).trans (h.alloc x),
    by rw [h'.rest, h.rest]⟩

theorem setFwd_ok (h : i < l.levels x) (p : Option Addr) :
    ∃ l', l.setFwd x i p = .ok l' ∧ SameBut l l'
      ∧ l'.nxt = Function.update l.nxt i (Function.update (l.nxt i) x p) := by
  obtain ⟨e, he, hi⟩ := alloc_of_levels h
  refine ⟨_, by simp only [setFwd, he, deref_some, ok_bind, hi, if_true]; rfl, ⟨?_, ?_, ?_, fun y => ?_, rfl⟩, ?_⟩
  · funext y
    by_cases hy : y = x <;> simp [key, hy, he]
  · funext y
    by_cases hy : y = x <;> simp [value, hy, he]
  · funext y
    by_cases hy : y = x <;> simp [levels, hy, he]
  · by_cases hy : y = x <;> simp [hy, he]
  · funext j y
    by_cases hy : y = x
    · subst hy
      by_cases hj : j = i
      · subst hj; simp [nxt]
      · simp [nxt, hj, he]
    · by_cases hj : j = i
      · subst hj; simp [nxt, hy]
      · simp [nxt, hy, hj]

/-- A loop over the levels that rewrites each level by itself. -/
theorem levels_foldlM {f : SkipList → Nat → Except Fault SkipList} {G : Nat → Addr → Option Addr} {n : Nat}
    (step : ∀ i < n, ∀ s, SameBut l s → s.nxt i = l.nxt i →
      Returns (f s i) fun s' => SameBut s s' ∧ s'.nxt = Function.update s.nxt i (G i)) :
    Returns ((List.range n).foldlM f l) fun s => SameBut l s ∧ ∀ i, s.nxt i = if i < n then G i else l.nxt i := by
  have hloop : Returns ((List.range n).foldlM f l) fun s => SameBut l s
      ∧ ∀ i, s.nxt i = if i ∈ List.range n then G i else l.nxt i := by
    refine Returns.foldlM (I := fun done s => SameBut l s ∧ ∀ i, s.nxt i = if i ∈ done then G i else l.nxt i)
      ⟨.refl l, fun i => by simp⟩ ?_
    rintro done i rest s hsplit ⟨hsame, hnxt⟩
    have hi : i < n := List.mem_range.mp (by rw [hsplit]; simp)
    have hnew : i ∉ done := by
      have hnd : (done ++ i :: rest).Nodup := hsplit ▸ List.nodup_range
      exact fun hmem => (List.nodup_cons.mp (List.nodup_middle.mp hnd)).1 (by simp [hmem])
    refine (step i hi s hsame (by rw [hnxt i, if_neg hnew])).mono ?_
    rintro s' ⟨hsame', hnxt'⟩
    refine ⟨hsame.trans hsame', fun j => ?_⟩
    rw [hnxt']
    by_cases hj : j = i
    · subst hj; simp
    · rw [Function.update_of_ne hj, hnxt j]; simp [hj]
  refine hloop.mono ?_
  rintro s ⟨hsame, hnxt⟩
  exact ⟨hsame, fun i => by rw [hnxt i]; simp⟩

/-! ## Searching -/

namespace Inv

theorem fwd_head (h : Inv l xs) (hi : i ≤ SL_MAX_LEVEL) : i < l.levels l.head := by
  rw [h.headLevels]
  exact Nat.lt_succ_of_le hi

theorem alloc (h : Inv l xs) (hx : x ∈ xs) : ∃ e, l.mem x = some e := by
  obtain ⟨e, he, -⟩ := alloc_of_levels (h.entryLevels x hx).1
  exact ⟨e, he⟩

theorem length_le (h : Inv l xs) : xs.length ≤ l.fresh := by
  have hnd : xs.Nodup := h.sorted.imp fun hlt e => absurd (e ▸ hlt) (UInt64.lt_irrefl _)
  have hsub : xs ⊆ List.range l.fresh := fun x hx => by
    obtain ⟨e, he⟩ := h.alloc hx
    exact List.mem_range.mpr (h.known x (by simp [he]))
  have hle := (List.subperm_of_subset hnd hsub).length_le
  rwa [List.length_range] at hle

theorem onLevel_zero (h : Inv l xs) (hsub : Q ⊆ xs) : l.onLevel 0 Q = Q :=
  List.filter_eq_self.mpr fun x hx => by simpa using (h.entryLevels x (hsub hx)).1

/-- The entries before a key and those from it on. -/
theorem split (h : Inv l xs) (k : UInt64) :
    ∃ P Q, xs = P ++ Q ∧ (∀ x ∈ P, l.key x < k) ∧ ∀ x ∈ Q, ¬ l.key x < k := by
  have hsorted := h.sorted
  clear h
  induction xs with
  | nil => exact ⟨[], [], rfl, nofun, nofun⟩
  | cons x xs ih =>
      obtain ⟨hx, hxs⟩ := List.pairwise_cons.mp hsorted
      by_cases hk : l.key x < k
      · obtain ⟨P, Q, rfl, hP, hQ⟩ := ih hxs
        refine ⟨x :: P, Q, rfl, ?_, hQ⟩
        rintro y hy
        rcases List.mem_cons.mp hy with rfl | hy
        · exact hk
        · exact hP y hy
      · refine ⟨[], x :: xs, rfl, nofun, ?_⟩
        rintro y hy
        rcases List.mem_cons.mp hy with rfl | hy
        · exact hk
        · exact fun hlt => hk (UInt64.lt_trans (hx y hy) hlt)

end Inv

/-- A chain read from one of its nodes on. -/
theorem Chain.from_node {nxt : Addr → Option Addr} {a e : Addr} {l A B : List Addr} (h : Chain nxt (nxt a) l)
    (hl : a :: l = A ++ e :: B) : Chain nxt (nxt e) B := by
  cases A with
  | nil =>
      obtain ⟨rfl, rfl⟩ := List.cons.inj hl
      exact h
  | cons b A =>
      obtain ⟨rfl, rfl⟩ := List.cons.inj hl
      obtain ⟨r, -, -, h⟩ := (seg_append).mp h
      exact h

/-- The inner loop, with the smaller entries `B` and then the entries `R` ahead. -/
theorem walkLevel_spec {k : UInt64} {R : List Addr} (hR : ∀ x ∈ R, i < l.levels x ∧ ¬ l.key x < k) (B : List Addr) :
    ∀ {e : Addr} {fuel : Nat}, i < l.levels e → (∀ x ∈ B, i < l.levels x ∧ l.key x < k) →
      Chain (l.nxt i) (l.nxt i e) (B ++ R) → B.length < fuel →
      walkLevel l k i fuel e = .ok ((e :: B).getLast (List.cons_ne_nil e B)) := by
  induction B with
  | nil =>
      intro e fuel he _ hchain hfuel
      obtain ⟨fuel, rfl⟩ := Nat.exists_eq_succ_of_ne_zero (Nat.ne_of_gt hfuel)
      rw [List.nil_append] at hchain
      simp only [walkLevel, fwd_ok he, ok_bind]
      cases R with
      | nil =>
          have hnext : l.nxt i e = none := hchain
          rw [hnext]
          rfl
      | cons r R =>
          obtain ⟨hr, hrk⟩ := hR r (List.mem_cons_self ..)
          obtain ⟨er, her, -⟩ := alloc_of_levels hr
          rw [hchain.1]
          simp only [her, deref_some, ok_bind]
          rw [if_neg (by simpa [key, her] using hrk)]
          rfl
  | cons b B ih =>
      intro e fuel he hB hchain hfuel
      obtain ⟨fuel, rfl⟩ := Nat.exists_eq_succ_of_ne_zero (Nat.ne_of_gt (Nat.zero_lt_of_lt hfuel))
      obtain ⟨hb, hbk⟩ := hB b (List.mem_cons_self ..)
      obtain ⟨eb, heb, -⟩ := alloc_of_levels hb
      simp only [walkLevel, fwd_ok he, ok_bind]
      rw [hchain.1]
      simp only [heb, deref_some, ok_bind]
      rw [if_pos (by simpa [key, heb] using hbk), ih hb (fun x hx => hB x (List.mem_cons_of_mem _ hx)) hchain.2
        (by simpa using hfuel), List.getLast_cons (List.cons_ne_nil b B)]

/-- The entry after the place where the search on a level ends. -/
theorem Inv.nxt_pred (h : Inv l (P ++ Q)) (hi : i ≤ SL_MAX_LEVEL) : l.nxt i (l.pred i P) = (l.onLevel i Q).head? := by
  have hchain := h.chain i hi
  rw [onLevel_append] at hchain
  have hsplit : l.head :: l.onLevel i P = (l.head :: l.onLevel i P).dropLast ++ [l.pred i P] :=
    (List.dropLast_append_getLast (List.cons_ne_nil _ _)).symm
  have hfrom : Chain (l.nxt i) (l.nxt i (l.pred i P)) (l.onLevel i Q) := by
    refine Chain.from_node (A := (l.head :: l.onLevel i P).dropLast) hchain ?_
    rw [← List.cons_append, hsplit]
    simp
  exact Chain.start hfrom

section Locate

variable {k : UInt64} (h : Inv l (P ++ Q)) (hP : ∀ x ∈ P, l.key x < k) (hQ : ∀ x ∈ Q, ¬ l.key x < k)

include h hP hQ

/-- The search along a level from one of the smaller entries that have the level. -/
theorem walkLevel_pred (hi : i ≤ SL_MAX_LEVEL) {e : Addr} (he : e ∈ l.head :: l.onLevel i P) :
    walkLevel l k i (l.fresh + 1) e = .ok (l.pred i P) := by
  obtain ⟨A, B, hAB⟩ := List.append_of_mem he
  have hchain := h.chain i hi
  rw [onLevel_append] at hchain
  have hfrom : Chain (l.nxt i) (l.nxt i e) (B ++ l.onLevel i Q) :=
    Chain.from_node hchain (by rw [← List.cons_append, hAB, List.append_assoc]; rfl)
  have hlevel : ∀ x ∈ l.head :: l.onLevel i P, i < l.levels x := by
    intro x hx
    rcases List.mem_cons.mp hx with rfl | hx
    · exact h.fwd_head hi
    · exact (mem_onLevel.mp hx).2
  have hBsub : ∀ x ∈ B, x ∈ l.onLevel i P := by
    intro x hx
    cases A with
    | nil => exact (List.cons.inj hAB).2 ▸ hx
    | cons a A => rw [(List.cons.inj hAB).2]; simp [hx]
  have hlen : B.length < l.fresh + 1 := by
    have h₁ : (l.head :: l.onLevel i P).length = (A ++ e :: B).length := by rw [hAB]
    have h₂ : (l.onLevel i P).length ≤ P.length := List.length_filter_le ..
    have h₃ := h.length_le
    simp only [List.length_cons, List.length_append] at h₁ h₃
    omega
  have hR : ∀ x ∈ l.onLevel i Q, i < l.levels x ∧ ¬ l.key x < k := fun x hx =>
    ⟨(mem_onLevel.mp hx).2, hQ x (mem_onLevel.mp hx).1⟩
  have hB : ∀ x ∈ B, i < l.levels x ∧ l.key x < k := fun x hx =>
    ⟨(mem_onLevel.mp (hBsub x hx)).2, hP x (mem_onLevel.mp (hBsub x hx)).1⟩
  rw [walkLevel_spec hR B (hlevel e he) hB hfrom hlen]
  have hlast : (l.head :: l.onLevel i P).getLast (List.cons_ne_nil _ _) = (e :: B).getLast (List.cons_ne_nil e B) := by
    rw [List.getLast_congr _ (by simp) hAB, List.getLast_append_of_ne_nil]
  exact congrArg Except.ok hlast.symm

/-- The search from the level `i` down notes where it ended on each level. -/
theorem locateFrom_spec (i : Nat) :
    ∀ {e : Addr} {u : Update}, i ≤ SL_MAX_LEVEL → e ∈ l.head :: l.onLevel i P →
      locateFrom l k i e u = .ok (l.pred 0 P, fun j => if j ≤ i then some (l.pred j P) else u j) := by
  induction i with
  | zero =>
      intro e u hi he
      simp only [locateFrom, walkLevel_pred h hP hQ hi he, ok_bind]
      congr 2
      funext j
      by_cases hj : j = 0
      · subst hj; simp
      · simp [hj]
  | succ i ih =>
      intro e u hi he
      have hnext : l.pred (i + 1) P ∈ l.head :: l.onLevel i P := by
        rcases List.mem_cons.mp (l.pred_mem (i + 1) P) with hmem | hmem
        · rw [hmem]; exact List.mem_cons_self ..
        · obtain ⟨hmem, hlt⟩ := (mem_onLevel).mp hmem
          exact List.mem_cons_of_mem _ (mem_onLevel.mpr ⟨hmem, Nat.lt_of_succ_lt hlt⟩)
      simp only [locateFrom, walkLevel_pred h hP hQ hi he, ok_bind, ih (Nat.le_of_succ_le hi) hnext]
      congr 2
      funext j
      by_cases hj : j ≤ i
      · simp [hj, Nat.le_succ_of_le hj]
      · by_cases hj' : j = i + 1
        · subst hj'; simp
        · simp [hj, hj', show ¬ j ≤ i + 1 by omega]

theorem slLocate_spec :
    slLocate l k (fun _ => none) = .ok (Q.head?, fun j => if j ≤ l.level then some (l.pred j P) else none) := by
  have hzero : 0 < l.levels (l.pred 0 P) := by
    rcases List.mem_cons.mp (l.pred_mem 0 P) with hmem | hmem
    · rw [hmem]; exact h.fwd_head (Nat.zero_le _)
    · exact (mem_onLevel.mp hmem).2
  simp only [slLocate]
  rw [if_neg (not_not.mpr h.magic), locateFrom_spec h hP hQ l.level h.level_le (List.mem_cons_self ..)]
  simp only [ok_bind, fwd_ok hzero]
  rw [h.nxt_pred (Nat.zero_le _), h.onLevel_zero (List.subset_append_right P Q)]
  rfl

end Locate

/-! ## The changes -/

namespace Inv

/-- A new entry is allocated, and the level may be raised by one. -/
theorem create (h : Inv l xs) {e : SLEntry} {level : Nat} (h₁ : l.level ≤ level) (h₂ : level ≤ SL_MAX_LEVEL) :
    Inv { l with level := level, mem := Function.update l.mem l.fresh (some e), fresh := l.fresh + 1 } xs := by
  have hne : ∀ x ∈ l.head :: xs, x ≠ l.fresh := by
    rintro x hx rfl
    have hlt : 0 < l.levels l.fresh := by
      rcases List.mem_cons.mp hx with e | hx
      · rw [e, h.headLevels]; exact Nat.succ_pos _
      · exact (h.entryLevels _ hx).1
    obtain ⟨e, he, -⟩ := alloc_of_levels hlt
    exact absurd (h.known l.fresh (by simp [he])) (lt_irrefl _)
  set l' : SkipList := { l with
    level := level, mem := Function.update l.mem l.fresh (some e), fresh := l.fresh + 1 } with hl'
  have hmem : ∀ x ∈ l.head :: xs, l'.mem x = l.mem x := fun x hx => Function.update_of_ne (hne x hx) _ _
  have hlevels : ∀ x ∈ l.head :: xs, l'.levels x = l.levels x := fun x hx => by simp [levels, hmem x hx]
  have hkey : ∀ x ∈ xs, l'.key x = l.key x := fun x hx => by simp [key, hmem x (List.mem_cons_of_mem _ hx)]
  have hon : ∀ i, l'.onLevel i xs = l.onLevel i xs := fun i =>
    onLevel_congr fun x hx => hlevels x (List.mem_cons_of_mem _ hx)
  refine ⟨h.magic, (hlevels _ (List.mem_cons_self ..)).trans h.headLevels, h.headOff, fun x hx => ?_, h₂, ?_,
    fun i hi => ?_, fun x hx => ?_⟩
  · rw [hlevels x (List.mem_cons_of_mem _ hx)]
    exact ⟨(h.entryLevels x hx).1, (h.entryLevels x hx).2.trans (Nat.succ_le_succ h₁)⟩
  · refine h.sorted.imp_of_mem fun hx hy hlt => ?_
    rwa [hkey _ hx, hkey _ hy]
  · have hnxt : ∀ x ∈ l.head :: xs, l'.nxt i x = l.nxt i x := fun x hx => by simp [nxt, hmem x hx]
    rw [hon, hnxt l'.head (List.mem_cons_self ..)]
    refine Seg.congr (fun x hx => ?_) (h.chain i hi)
    exact hnxt x (List.mem_cons_of_mem _ (mem_onLevel.mp hx).1)
  · show x < l.fresh + 1
    by_cases hxf : x = l.fresh
    · exact hxf ▸ Nat.lt_succ_self _
    · exact Nat.lt_succ_of_lt (h.known x (by simpa [hl', hxf] using hx))

/-- An entry that is on no chain is linked in after the smaller ones, on each of its levels. -/
theorem link (h : Inv l (P ++ Q)) (hP : ∀ y ∈ P, l.key y < l.key x) (hQ : ∀ y ∈ Q, l.key x < l.key y)
    (hx : x ∉ l.head :: (P ++ Q)) {level : Nat} (hlevels : l.levels x = level + 1) (hle : level ≤ l.level)
    {u : Update} (hu : ∀ i ≤ level, u i = some (l.pred i P)) :
    Returns ((List.range (level + 1)).foldlM (linkLevel x u) l) fun l' => SameBut l l' ∧ Inv l' (P ++ x :: Q) := by
  have hpredLevel : ∀ i ≤ level, i < l.levels (l.pred i P) := by
    intro i hi
    rcases List.mem_cons.mp (l.pred_mem i P) with hmem | hmem
    · rw [hmem]; exact h.fwd_head (hi.trans (hle.trans h.level_le))
    · exact (mem_onLevel.mp hmem).2
  refine (levels_foldlM (G := fun i => Function.update (Function.update (l.nxt i) x (l.nxt i (l.pred i P)))
    (l.pred i P) (some x)) ?_).mono ?_
  · intro i hi s hsame hnxt
    have hi : i ≤ level := Nat.le_of_lt_succ hi
    have hp : i < s.levels (l.pred i P) := by rw [hsame.levels]; exact hpredLevel i hi
    have hxs : i < s.levels x := by rw [hsame.levels, hlevels]; exact Nat.lt_succ_of_le hi
    obtain ⟨s₁, hrun₁, hsame₁, hnxt₁⟩ := setFwd_ok hxs (s.nxt i (l.pred i P))
    obtain ⟨s₂, hrun₂, hsame₂, hnxt₂⟩ := setFwd_ok (l := s₁) (x := l.pred i P) (i := i)
      (by rw [hsame₁.levels]; exact hp) (some x)
    refine ⟨s₂, ?_, hsame₁.trans hsame₂, ?_⟩
    · simp only [linkLevel, Update.get, hu i hi, Option.elim_some, ok_bind, fwd_ok hp, hrun₁, hrun₂]
    · rw [hnxt₂, hnxt₁, Function.update_self, Function.update_idem, hnxt]
  · rintro l' ⟨hsame, hnxt⟩
    have hhead : l'.head = l.head := by rw [hsame.rest]
    have hon : ∀ i ys, l'.onLevel i ys = l.onLevel i ys := fun i ys => onLevel_congr fun y _ => by rw [hsame.levels]
    refine ⟨hsame, ⟨?_, ?_, ?_, fun y hy => ?_, ?_, ?_, fun i hi => ?_, fun y hy => ?_⟩⟩
    · rw [hsame.rest]; exact h.magic
    · rw [hsame.levels, hhead]; exact h.headLevels
    · rw [hhead]
      intro hmem
      simp only [List.mem_append, List.mem_cons, not_or] at hmem hx
      rcases hmem with hmem | hmem | hmem
      · exact h.headOff (by simp [hmem])
      · exact hx.1 hmem.symm
      · exact h.headOff (by simp [hmem])
    · have hlevel : l'.level = l.level := by rw [hsame.rest]
      rw [hsame.levels, hlevel]
      simp only [List.mem_append, List.mem_cons] at hy
      rcases hy with hy | rfl | hy
      · exact h.entryLevels y (by simp [hy])
      · rw [hlevels]; exact ⟨Nat.succ_pos _, Nat.succ_le_succ hle⟩
      · exact h.entryLevels y (by simp [hy])
    · rw [hsame.rest]; exact h.level_le
    · rw [hsame.key]
      obtain ⟨hsP, hsQ, hPQ⟩ := List.pairwise_append.mp h.sorted
      refine List.pairwise_append.mpr ⟨hsP, List.pairwise_cons.mpr ⟨hQ, hsQ⟩, fun a ha b hb => ?_⟩
      rcases List.mem_cons.mp hb with rfl | hb
      · exact hP a ha
      · exact hPQ a ha b hb
    · have hchain := h.chain i hi
      rw [onLevel_append] at hchain
      rw [hhead, hnxt i, hon]
      by_cases hil : i ≤ level
      · -- the entry has this level
        have hmid : l.onLevel i (P ++ x :: Q) = l.onLevel i P ++ x :: l.onLevel i Q := by
          rw [onLevel_append]
          simp [onLevel, hlevels, Nat.lt_succ_of_le hil]
        rw [hmid, if_pos (Nat.lt_succ_of_le hil)]
        have hoff : ∀ y ∈ l.onLevel i P ++ l.onLevel i Q, y ∈ P ++ Q := fun y hy => by
          rw [← onLevel_append] at hy
          exact (mem_onLevel.mp hy).1
        refine Chain.insert hchain (l.getLast?_pred i P) ?_ ?_
        · intro hmem
          rcases List.mem_cons.mp hmem with e | hmem
          · exact hx (by simp [e])
          · exact hx (List.mem_cons_of_mem _ (hoff x hmem))
        · exact List.nodup_cons.mpr ⟨fun hmem => h.headOff (hoff _ hmem), hchain.nodup⟩
      · have hmid : l.onLevel i (P ++ x :: Q) = l.onLevel i P ++ l.onLevel i Q := by
          rw [onLevel_append]
          simp [onLevel, hlevels, show ¬ i < level + 1 by omega]
        rw [hmid, if_neg (by omega)]
        exact hchain
    · rw [hsame.alloc] at hy
      rw [hsame.rest]
      exact h.known y hy

/-- An entry is taken off each of its levels. -/
theorem unlink (h : Inv l (P ++ x :: Q)) {u : Update} (hu : ∀ i ≤ l.level, u i = some (l.pred i P)) :
    Returns ((List.range (l.level + 1)).foldlM (unlinkLevel x u) l) fun l' => SameBut l l' ∧ Inv l' (P ++ Q) := by
  have hnd : (P ++ x :: Q).Nodup := h.sorted.imp fun hlt e => absurd (e ▸ hlt) (UInt64.lt_irrefl _)
  have hxQ : x ∉ P ++ Q := (List.nodup_cons.mp (List.nodup_middle.mp hnd)).1
  have hsub : ∀ y ∈ P ++ Q, y ∈ P ++ x :: Q := fun y hy => by
    rcases List.mem_append.mp hy with hy | hy <;> simp [hy]
  have hle : ∀ i ≤ l.level, i ≤ SL_MAX_LEVEL := fun i hi => hi.trans h.level_le
  have hpredLevel : ∀ i ≤ l.level, i < l.levels (l.pred i P) := by
    intro i hi
    rcases List.mem_cons.mp (l.pred_mem i P) with hmem | hmem
    · rw [hmem]; exact h.fwd_head (hle i hi)
    · exact (mem_onLevel.mp hmem).2
  refine (levels_foldlM (G := fun i => if i < l.levels x then
    Function.update (l.nxt i) (l.pred i P) (l.nxt i x) else l.nxt i) ?_).mono ?_
  · intro i hi s hsame hnxt
    have hi : i ≤ l.level := Nat.le_of_lt_succ hi
    have hp : i < s.levels (l.pred i P) := by rw [hsame.levels]; exact hpredLevel i hi
    have hnext : s.nxt i (l.pred i P) = (l.onLevel i (x :: Q)).head? := by
      rw [hnxt]; exact h.nxt_pred (hle i hi)
    by_cases hx : i < l.levels x
    · -- the entry stands on this level, right behind where the search ended
      have hxs : i < s.levels x := by rw [hsame.levels]; exact hx
      have hfirst : s.nxt i (l.pred i P) = some x := by rw [hnext]; simp [onLevel, hx]
      obtain ⟨s₁, hrun₁, hsame₁, hnxt₁⟩ := setFwd_ok hp (s.nxt i x)
      refine ⟨s₁, ?_, hsame₁, ?_⟩
      · simp only [unlinkLevel, Update.get, hu i hi, Option.elim_some, ok_bind, fwd_ok hp, hfirst, if_true,
          fwd_ok hxs, hrun₁]
      · simp only [hnxt₁, hnxt, if_pos hx]
    · have hother : s.nxt i (l.pred i P) ≠ some x := by
        rw [hnext]
        intro he
        have hmem : x ∈ l.onLevel i (x :: Q) := List.mem_of_head? he
        exact hx (mem_onLevel.mp hmem).2
      refine ⟨s, ?_, .refl s, ?_⟩
      · simp only [unlinkLevel, Update.get, hu i hi, Option.elim_some, ok_bind, fwd_ok hp, hother, if_false]
        rfl
      · simp only [if_neg hx, ← hnxt, Function.update_eq_self]
  · rintro l' ⟨hsame, hnxt⟩
    have hhead : l'.head = l.head := by rw [hsame.rest]
    have hlevel : l'.level = l.level := by rw [hsame.rest]
    have hon : ∀ i ys, l'.onLevel i ys = l.onLevel i ys := fun i ys => onLevel_congr fun y _ => by rw [hsame.levels]
    refine ⟨hsame, ⟨?_, ?_, ?_, fun y hy => ?_, ?_, ?_, fun i hi => ?_, fun y hy => ?_⟩⟩
    · rw [hsame.rest]; exact h.magic
    · rw [hsame.levels, hhead]; exact h.headLevels
    · rw [hhead]; exact fun hmem => h.headOff (hsub _ hmem)
    · rw [hsame.levels, hlevel]; exact h.entryLevels y (hsub y hy)
    · rw [hlevel]; exact h.level_le
    · rw [hsame.key]
      exact h.sorted.sublist (List.Sublist.append_left (List.sublist_cons_self x Q) P)
    · have hchain := h.chain i hi
      rw [onLevel_append] at hchain
      rw [hhead, hnxt i, hon, onLevel_append]
      by_cases hx : i < l.levels x
      · have hil : i < l.level + 1 := Nat.lt_of_lt_of_le hx (h.entryLevels x (by simp)).2
        have hmid : l.onLevel i (x :: Q) = x :: l.onLevel i Q := by simp [onLevel, hx]
        rw [hmid] at hchain
        rw [if_pos hil, if_pos hx]
        refine Chain.remove hchain (l.getLast?_pred i P) (List.nodup_cons.mpr ⟨fun hmem => ?_, hchain.nodup⟩)
        rw [← hmid, ← onLevel_append] at hmem
        exact h.headOff (mem_onLevel.mp hmem).1
      · have hmid : l.onLevel i (x :: Q) = l.onLevel i Q := by simp [onLevel, hx]
        rw [hmid] at hchain
        simp only [if_neg hx, ite_self]
        exact hchain
    · rw [hsame.alloc] at hy
      rw [hsame.rest]
      exact h.known y hy

/-- An entry that is on no chain is freed. -/
theorem release (h : Inv l xs) (hx : x ∉ l.head :: xs) :
    Inv { l with mem := Function.update l.mem x none } xs := by
  set l' : SkipList := { l with mem := Function.update l.mem x none } with hl'
  have hmem : ∀ y ∈ l.head :: xs, l'.mem y = l.mem y := fun y hy => by
    simp [hl', ne_of_mem_of_not_mem hy hx]
  have hlevels : ∀ y ∈ l.head :: xs, l'.levels y = l.levels y := fun y hy => by simp [levels, hmem y hy]
  have hon : ∀ i, l'.onLevel i xs = l.onLevel i xs := fun i =>
    onLevel_congr fun y hy => hlevels y (List.mem_cons_of_mem _ hy)
  refine ⟨h.magic, (hlevels _ (List.mem_cons_self ..)).trans h.headLevels, h.headOff, fun y hy => ?_, h.level_le, ?_,
    fun i hi => ?_, fun y hy => ?_⟩
  · rw [hlevels y (List.mem_cons_of_mem _ hy)]; exact h.entryLevels y hy
  · refine h.sorted.imp_of_mem fun ha hb hlt => ?_
    simpa [key, hmem _ (List.mem_cons_of_mem _ ha), hmem _ (List.mem_cons_of_mem _ hb)] using hlt
  · have hnxt : ∀ y ∈ l.head :: xs, l'.nxt i y = l.nxt i y := fun y hy => by simp [nxt, hmem y hy]
    rw [hon, hnxt l'.head (List.mem_cons_self ..)]
    refine Seg.congr (fun y hy => ?_) (h.chain i hi)
    exact hnxt y (List.mem_cons_of_mem _ (mem_onLevel.mp hy).1)
  · refine h.known y ?_
    by_cases hyx : y = x
    · simp [hl', hyx] at hy
    · simpa [hl', hyx] using hy

/-- No entry stands on a level where the head points to NULL, and none above the level of the list. -/
theorem head_null (h : Inv l xs) (hi : i ≤ SL_MAX_LEVEL) : l.nxt i l.head = none ↔ ∀ x ∈ xs, l.levels x ≤ i := by
  have hstart := Chain.start (h.chain i hi)
  rw [hstart, List.head?_eq_none_iff]
  simp [onLevel, List.filter_eq_nil_iff]

theorem null_above (h : Inv l xs) (hl : l.level < i) (hi : i ≤ SL_MAX_LEVEL) : l.nxt i l.head = none :=
  (h.head_null hi).mpr fun x hx => (h.entryLevels x hx).2.trans hl

/-- The levels that have become empty are given up. -/
theorem lower (h : Inv l xs) :
    Returns (lowerLevel l l.level) fun level => Inv { l with level := level } xs := by
  have loop : ∀ k ≤ l.level, (∀ x ∈ xs, l.levels x ≤ k + 1) →
      Returns (lowerLevel l k) fun level => level ≤ l.level ∧ ∀ x ∈ xs, l.levels x ≤ level + 1 := by
    intro k
    induction k with
    | zero => exact fun _ hx => .ok ⟨Nat.zero_le _, hx⟩
    | succ k ih =>
        intro hk hx
        have hmax := hk.trans h.level_le
        simp only [lowerLevel, fwd_ok (h.fwd_head hmax), ok_bind]
        split
        · rename_i hnull
          exact ih (Nat.le_of_succ_le hk) ((h.head_null hmax).mp hnull)
        · exact .ok ⟨hk, hx⟩
  refine (loop l.level (le_refl _) fun x hx => (h.entryLevels x hx).2).mono ?_
  rintro level ⟨hle, hx⟩
  exact ⟨h.magic, h.headLevels, h.headOff, fun y hy => ⟨(h.entryLevels y hy).1, hx y hy⟩, hle.trans h.level_le,
    h.sorted, h.chain, h.known⟩

end Inv

end LibDrm.SL
