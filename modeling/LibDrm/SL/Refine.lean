/-
# `LibDrm.SL.Refine` — a skip list is an ordered set

Every sequence of insertions and deletions, with any numbers from the random
generator, does what it does on a finite set of keys, and the chains of the
list are in order (`skip_list_refines_set`).

`drmSLLookup` finds every key, but returns the entry in place of the value
(`skip_list_lookup_iff`), and `drmSLLookupNeighbors` never searches at all: what
it returns depends on what its local array happens to hold
(`skip_list_neighbors_undetermined`).
-/
import LibDrm.SL.Invariant
import Mathlib.Data.Finset.Basic
import Mathlib.Data.Finset.Dedup

namespace LibDrm.SL

open SList CInt SkipList

variable {l : SkipList} {xs P Q : List Addr} {k : UInt64}

/-! ## What the list stands for -/

/-- The entries `xs` of the list are those of the map. -/
structure Rep (l : SkipList) (xs : List Addr) (m : UInt64 → Option (Option Addr)) : Prop where
  inv : Inv l xs
  count : l.count = int32 xs.length
  values : ∀ k v, m k = some v ↔ ∃ x ∈ xs, l.key x = k ∧ l.value x = v

theorem Inv.keys_nodup (h : Inv l xs) : (xs.map l.key).Nodup := by
  refine List.pairwise_map.mpr (h.sorted.imp ?_)
  intro x y hlt e
  rw [e] at hlt
  exact UInt64.lt_irrefl _ hlt

/-- The keys on the list. -/
def keys (l : SkipList) (xs : List Addr) : Finset UInt64 := (xs.map l.key).toFinset

theorem mem_keys : k ∈ keys l xs ↔ ∃ x ∈ xs, l.key x = k := by simp [keys]

theorem Rep.mem_keys_iff {m : UInt64 → Option (Option Addr)} (h : Rep l xs m) : k ∈ keys l xs ↔ m k ≠ none := by
  rw [mem_keys]
  constructor
  · rintro ⟨x, hx, hk⟩
    rw [(h.values k (l.value x)).mpr ⟨x, hx, hk, rfl⟩]
    nofun
  · intro hk
    obtain ⟨v, hv⟩ := Option.ne_none_iff_exists'.mp hk
    obtain ⟨x, hx, hkx, -⟩ := (h.values k v).mp hv
    exact ⟨x, hx, hkx⟩

theorem Rep.absent {m : UInt64 → Option (Option Addr)} (h : Rep l (P ++ Q) m) (hP : ∀ x ∈ P, l.key x < k)
    (hQ : ∀ x ∈ Q, k < l.key x) : m k = none := by
  by_contra hne
  obtain ⟨x, hx, hxk⟩ := (mem_keys).mp (h.mem_keys_iff.mpr hne)
  rcases List.mem_append.mp hx with hx | hx
  · exact UInt64.lt_irrefl _ (hxk ▸ hP x hx)
  · exact UInt64.lt_irrefl _ (hxk ▸ hQ x hx)

/-- What a search finds: the entry with the key, or none, and then the entries behind are larger. -/
theorem Inv.found_cases (h : Inv l xs) (k : UInt64) :
    ∃ P Q u, xs = P ++ Q ∧ slLocate l k (fun _ => none) = .ok (Q.head?, u)
      ∧ (∀ i ≤ l.level, u i = some (l.pred i P)) ∧ (∀ x ∈ P, l.key x < k)
      ∧ ((∃ x Q', Q = x :: Q' ∧ l.key x = k ∧ hasKey l k Q.head? = .ok true)
        ∨ ((∀ x ∈ Q, k < l.key x) ∧ hasKey l k Q.head? = .ok false)) := by
  obtain ⟨P, Q, rfl, hP, hQ⟩ := h.split k
  refine ⟨P, Q, _, rfl, slLocate_spec h hP hQ, fun i hi => if_pos hi, hP, ?_⟩
  cases Q with
  | nil => exact .inr ⟨nofun, rfl⟩
  | cons x Q =>
      obtain ⟨e, he⟩ := h.alloc (x := x) (by simp)
      have hkey : l.key x = e.key := by simp [key, he]
      have hrun : hasKey l k (x :: Q).head? = .ok (e.key == k) := by
        simp only [List.head?_cons, hasKey, he, deref_some, ok_bind]
        rfl
      rw [hrun]
      by_cases hk : l.key x = k
      · exact .inl ⟨x, Q, rfl, hk, by rw [← hkey, hk]; simp⟩
      · refine .inr ⟨?_, by rw [← hkey]; simp [hk]⟩
        have hlt : k < l.key x := by
          have hge := hQ x (List.mem_cons_self ..)
          have hne : (l.key x).toNat ≠ k.toNat := fun e => hk (UInt64.toNat_inj.mp e)
          rw [UInt64.lt_iff_toNat_lt] at hge ⊢
          omega
        rintro y hy
        rcases List.mem_cons.mp hy with rfl | hy
        · exact hlt
        · have hsorted := (List.pairwise_append.mp h.sorted).2.1
          exact UInt64.lt_trans hlt ((List.pairwise_cons.mp hsorted).1 y hy)

/-! ## Insertion -/

theorem randomLevelFrom_bounds (random : Nat → UInt64) (n : Nat) :
    ∀ level, level ≤ randomLevelFrom random n level ∧ randomLevelFrom random n level ≤ level + n := by
  induction n with
  | zero => exact fun level => ⟨le_refl _, le_refl _⟩
  | succ n ih =>
      intro level
      simp only [randomLevelFrom]
      split
      · have := ih (level + 1)
        omega
      · omega

theorem slRandomLevel_bounds (random : Nat → UInt64) : 1 ≤ slRandomLevel random ∧ slRandomLevel random ≤ SL_MAX_LEVEL := by
  have := randomLevelFrom_bounds random (SL_MAX_LEVEL - 1) 1
  unfold slRandomLevel
  omega

theorem int32_succ (n : Nat) : int32 (int32 n + 1) = int32 ((n + 1 : Nat) : Int) := by
  rw [int32_int32_add]
  rfl

theorem int32_pred (n : Nat) : int32 (int32 ((n + 1 : Nat) : Int) - 1) = int32 n := by
  rw [sub_eq_add_neg, int32_int32_add]
  congr 1
  omega

/-- A new entry for an absent key is made and linked in. -/
theorem linkNew_spec {m : UInt64 → Option (Option Addr)} (h : Rep l (P ++ Q) m) (hP : ∀ x ∈ P, l.key x < k)
    (hQ : ∀ x ∈ Q, k < l.key x) (hk : m k = none) (v : Option Addr) {lv level : Nat} (h₁ : l.level ≤ level)
    (h₂ : level ≤ SL_MAX_LEVEL) (hlv : lv ≤ level) {u : Update} (hu : ∀ i ≤ lv, u i = some (l.pred i P)) :
    Returns ((List.range (lv + 1)).foldlM (linkLevel l.fresh u) { l with
        level := level, mem := Function.update l.mem l.fresh (some (slCreateEntry lv k v)), fresh := l.fresh + 1 })
      fun l' => Rep { l' with count := int32 (l'.count + 1) } (P ++ l.fresh :: Q) (Function.update m k (some v))
        ∧ keys { l' with count := int32 (l'.count + 1) } (P ++ l.fresh :: Q) = insert k (keys l (P ++ Q)) := by
  have hinv := h.inv.create (e := slCreateEntry lv k v) h₁ h₂
  have hfresh : l.fresh ∉ l.head :: (P ++ Q) := by
    intro hmem
    have hlt : 0 < l.levels l.fresh := by
      rcases List.mem_cons.mp hmem with e | hmem
      · rw [e, h.inv.headLevels]; exact Nat.succ_pos _
      · exact (h.inv.entryLevels _ hmem).1
    obtain ⟨e, he, -⟩ := alloc_of_levels hlt
    exact absurd (h.inv.known l.fresh (by simp [he])) (lt_irrefl _)
  set l₁ : SkipList := { l with
    level := level, mem := Function.update l.mem l.fresh (some (slCreateEntry lv k v)), fresh := l.fresh + 1 } with hl₁
  have hnew : l₁.mem l.fresh = some (slCreateEntry lv k v) := Function.update_self ..
  have hmem : ∀ x ∈ l.head :: (P ++ Q), l₁.mem x = l.mem x := fun x hx =>
    Function.update_of_ne (ne_of_mem_of_not_mem hx hfresh) _ _
  have hkeyNew : l₁.key l.fresh = k := by simp [key, hnew, slCreateEntry]
  have hvalNew : l₁.value l.fresh = v := by simp [value, hnew, slCreateEntry]
  have hkeyOld : ∀ x ∈ P ++ Q, l₁.key x = l.key x := fun x hx => by simp [key, hmem x (List.mem_cons_of_mem _ hx)]
  have hvalOld : ∀ x ∈ P ++ Q, l₁.value x = l.value x := fun x hx => by
    simp [value, hmem x (List.mem_cons_of_mem _ hx)]
  have hlevels : l₁.levels l.fresh = lv + 1 := by
    have hmax : ¬ ((lv : Int) < 0 ∨ (lv : Int) > (SL_MAX_LEVEL : Nat)) := by
      have := hlv.trans h₂
      omega
    simp only [levels, hnew, Option.elim_some, slCreateEntry, if_neg hmax, Int.toNat_natCast]
  have hpred : ∀ i, l₁.pred i P = l.pred i P := by
    intro i
    have hon : l₁.onLevel i P = l.onLevel i P := onLevel_congr fun x hx => by
      simp [levels, hmem x (by simp [hx])]
    show (l.head :: l₁.onLevel i P).getLast _ = _
    simp only [hon]
    rfl
  have hmid : ∀ y, y ∈ P ++ l.fresh :: Q ↔ y = l.fresh ∨ y ∈ P ++ Q := fun y => by
    simp only [List.mem_append, List.mem_cons]; tauto
  refine (hinv.link (x := l.fresh) ?_ ?_ hfresh hlevels hlv fun i hi => by rw [hpred, hu i hi]).mono ?_
  · intro x hx
    rw [hkeyNew, hkeyOld x (by simp [hx])]; exact hP x hx
  · intro x hx
    rw [hkeyNew, hkeyOld x (by simp [hx])]; exact hQ x hx
  · rintro l₂ ⟨hsame, hinv₂⟩
    have hcount : l₂.count = l.count := by rw [hsame.rest]
    have hkey : ∀ x, ({ l₂ with count := int32 (l₂.count + 1) } : SkipList).key x = l₁.key x := fun x =>
      congrFun hsame.key x
    have hvalue : ∀ x, ({ l₂ with count := int32 (l₂.count + 1) } : SkipList).value x = l₁.value x := fun x =>
      congrFun hsame.value x
    refine ⟨⟨⟨hinv₂.magic, hinv₂.headLevels, hinv₂.headOff, hinv₂.entryLevels, hinv₂.level_le, hinv₂.sorted,
      hinv₂.chain, hinv₂.known⟩, ?_, fun k' v' => ?_⟩, ?_⟩
    · show int32 (l₂.count + 1) = _
      rw [hcount, h.count, int32_succ]
      simp [Nat.add_assoc]
    · simp only [hkey, hvalue, hmid]
      by_cases hk' : k' = k
      · subst hk'
        rw [Function.update_self]
        constructor
        · rintro ⟨⟩
          exact ⟨l.fresh, .inl rfl, hkeyNew, hvalNew⟩
        · rintro ⟨x, rfl | hx, hxk, hxv⟩
          · rw [← hxv, hvalNew]
          · rw [hkeyOld x hx] at hxk
            have := (h.values k' (l.value x)).mpr ⟨x, hx, hxk, rfl⟩
            rw [hk] at this
            cases this
      · rw [Function.update_of_ne hk', h.values k' v']
        constructor
        · rintro ⟨x, hx, hxk, hxv⟩
          exact ⟨x, .inr hx, by rw [hkeyOld x hx]; exact hxk, by rw [hvalOld x hx]; exact hxv⟩
        · rintro ⟨x, rfl | hx, hxk, hxv⟩
          · exact absurd (hxk.symm.trans hkeyNew) hk'
          · exact ⟨x, hx, by rw [← hkeyOld x hx]; exact hxk, by rw [← hvalOld x hx]; exact hxv⟩
    · ext k'
      simp only [mem_keys, Finset.mem_insert, hkey, hmid]
      constructor
      · rintro ⟨x, rfl | hx, hxk⟩
        · exact .inl (hxk.symm.trans hkeyNew)
        · exact .inr ⟨x, hx, by rw [← hkeyOld x hx]; exact hxk⟩
      · rintro (rfl | ⟨x, hx, hxk⟩)
        · exact ⟨l.fresh, .inl rfl, hkeyNew⟩
        · exact ⟨x, .inr hx, by rw [hkeyOld x hx]; exact hxk⟩

theorem drmSLInsert_spec {m : UInt64 → Option (Option Addr)} (h : Rep l xs m) (random : Nat → UInt64) (k : UInt64)
    (v : Option Addr) :
    Returns (drmSLInsert random k v l) fun r =>
      (m k ≠ none ∧ r = (1, l))
      ∨ (m k = none ∧ r.1 = 0 ∧ ∃ xs', Rep r.2 xs' (Function.update m k (some v))
        ∧ keys r.2 xs' = insert k (keys l xs)) := by
  obtain ⟨P, Q, u, rfl, hlocate, hu, hP, hcases⟩ := h.inv.found_cases k
  unfold drmSLInsert
  rw [if_neg (not_not.mpr h.inv.magic), hlocate]
  simp only [ok_bind]
  rcases hcases with ⟨x, Q', rfl, hk, hfound⟩ | ⟨hQ, hfound⟩
  · rw [hfound]
    refine .ok (.inl ⟨?_, rfl⟩)
    exact h.mem_keys_iff.mp (mem_keys.mpr ⟨x, by simp, hk⟩)
  · rw [hfound]
    simp only [ok_bind, Bool.false_eq_true, if_false]
    have hk := h.absent hP hQ
    obtain ⟨-, hmax⟩ := slRandomLevel_bounds random
    by_cases hgrow : slRandomLevel random > l.level
    · -- the list grows by one level, on which nothing stands yet
      simp only [hgrow, if_true]
      have hlv : l.level + 1 ≤ SL_MAX_LEVEL := by omega
      refine (linkNew_spec h hP hQ hk v (Nat.le_succ _) hlv (le_refl _) ?_).bind fun l' hl' =>
        .pure (.inr ⟨hk, rfl, _, hl'⟩)
      intro i hi
      by_cases hi' : i = l.level + 1
      · subst hi'
        have hnone : l.onLevel (l.level + 1) P = [] := by
          refine List.filter_eq_nil_iff.mpr fun x hx => ?_
          have := (h.inv.entryLevels x (by simp [hx])).2
          simpa using this
        simp [pred, hnone]
      · rw [Function.update_of_ne hi', hu i (by omega)]
    · simp only [hgrow, if_false]
      exact (linkNew_spec h hP hQ hk v (le_refl _) h.inv.level_le (Nat.not_lt.mp hgrow)
        fun i hi => hu i (hi.trans (Nat.not_lt.mp hgrow))).bind fun l' hl' => .pure (.inr ⟨hk, rfl, _, hl'⟩)

/-! ## Deletion -/

/-- The entry `x` between `P` and `Q` was taken off the list. -/
structure Removed (l : SkipList) (P Q : List Addr) (l' : SkipList) : Prop where
  inv : Inv l' (P ++ Q)
  count : l'.count = int32 (l.count - 1)
  p0 : l'.p0 = l.p0
  key : ∀ y ∈ P ++ Q, l'.key y = l.key y
  value : ∀ y ∈ P ++ Q, l'.value y = l.value y

/-- A deletion takes the entry of the key off, if there is one. -/
theorem drmSLDelete_removes (h : Inv l xs) (k : UInt64) :
    Returns (drmSLDelete k l) fun r =>
      (∃ P Q, xs = P ++ Q ∧ (∀ x ∈ P, l.key x < k) ∧ (∀ x ∈ Q, k < l.key x) ∧ r = (1, l))
      ∨ ∃ P x Q, xs = P ++ x :: Q ∧ l.key x = k ∧ r.1 = 0 ∧ Removed l P Q r.2 := by
  obtain ⟨P, Q, u, rfl, hlocate, hu, hP, hcases⟩ := h.found_cases k
  unfold drmSLDelete
  rw [if_neg (not_not.mpr h.magic), hlocate]
  simp only [ok_bind]
  rcases hcases with ⟨x, Q, rfl, hk, hfound⟩ | ⟨hQ, hfound⟩
  · rw [List.head?_cons] at hfound
    simp only [List.head?_cons, hfound, ok_bind, Bool.not_true, Bool.false_eq_true, if_false]
    have hnd : (P ++ x :: Q).Nodup := h.sorted.imp fun hlt e => absurd (e ▸ hlt) (UInt64.lt_irrefl _)
    have hxQ : x ∉ P ++ Q := (List.nodup_cons.mp (List.nodup_middle.mp hnd)).1
    refine (h.unlink hu).bind fun l₁ hl₁ => ?_
    obtain ⟨hsame, hinv₁⟩ := hl₁
    have hhead : l₁.head = l.head := by rw [hsame.rest]
    have hcount : l₁.count = l.count := by rw [hsame.rest]
    have hp0 : l₁.p0 = l.p0 := by rw [hsame.rest]
    have hinv₂ := hinv₁.release (x := x) (by
      rw [hhead]
      intro hmem
      rcases List.mem_cons.mp hmem with e | hmem
      · exact h.headOff (by simp [← e])
      · exact hxQ hmem)
    refine hinv₂.lower.bind fun level hinv₃ => ?_
    have hmem : ∀ y ∈ P ++ Q, Function.update l₁.mem x none y = l₁.mem y := fun y hy =>
      Function.update_of_ne (ne_of_mem_of_not_mem hy hxQ) _ _
    refine .pure (.inr ⟨P, x, Q, rfl, hk, rfl, ⟨hinv₃.magic, hinv₃.headLevels, hinv₃.headOff, hinv₃.entryLevels,
      hinv₃.level_le, hinv₃.sorted, hinv₃.chain, hinv₃.known⟩, congrArg (fun c => int32 (c - 1)) hcount, hp0,
      fun y hy => ?_, fun y hy => ?_⟩)
    · rw [← hsame.key]
      simp [key, hmem y hy]
    · rw [← hsame.value]
      simp [value, hmem y hy]
  · cases hfirst : Q.head? with
    | none => exact .ok (.inl ⟨P, Q, rfl, hP, hQ, rfl⟩)
    | some y =>
        rw [hfirst] at hfound
        simp only [hfound, ok_bind]
        exact .ok (.inl ⟨P, Q, rfl, hP, hQ, rfl⟩)

theorem drmSLDelete_spec {m : UInt64 → Option (Option Addr)} (h : Rep l xs m) (k : UInt64) :
    Returns (drmSLDelete k l) fun r =>
      (m k = none ∧ r = (1, l))
      ∨ (m k ≠ none ∧ r.1 = 0 ∧ ∃ xs', Rep r.2 xs' (Function.update m k none)
        ∧ keys r.2 xs' = (keys l xs).erase k) := by
  refine (drmSLDelete_removes h.inv k).mono ?_
  rintro ⟨ret, l'⟩ (⟨P, Q, rfl, hP, hQ, hr⟩ | ⟨P, x, Q, rfl, hk, hret, hrem⟩)
  · exact .inl ⟨h.absent hP hQ, hr⟩
  have hmid : ∀ y, y ∈ P ++ x :: Q ↔ y = x ∨ y ∈ P ++ Q := fun y => by
    simp only [List.mem_append, List.mem_cons]; tauto
  have hother : ∀ y ∈ P ++ Q, l.key y ≠ k := fun y hy e => by
    have hnd := h.inv.keys_nodup
    rw [List.map_append, List.map_cons] at hnd
    refine (List.nodup_cons.mp (List.nodup_middle.mp hnd)).1 ?_
    rw [hk, ← e, ← List.map_append]
    exact List.mem_map_of_mem hy
  refine .inr ⟨?_, hret, P ++ Q, ⟨hrem.inv, ?_, fun k' v' => ?_⟩, ?_⟩
  · exact h.mem_keys_iff.mp (mem_keys.mpr ⟨x, by simp, hk⟩)
  · rw [hrem.count, h.count]
    have hlen : (P ++ x :: Q).length = (P ++ Q).length + 1 := by simp [Nat.add_assoc]
    rw [hlen, int32_pred]
  · by_cases hk' : k' = k
    · subst hk'
      rw [Function.update_self]
      constructor
      · nofun
      · rintro ⟨y, hy, hyk, -⟩
        rw [hrem.key y hy] at hyk
        exact absurd hyk (hother y hy)
    · rw [Function.update_of_ne hk', h.values k' v']
      constructor
      · rintro ⟨y, hy, hyk, hyv⟩
        rcases (hmid y).mp hy with rfl | hy
        · exact absurd (hyk.symm.trans hk) hk'
        · exact ⟨y, hy, by rw [hrem.key y hy]; exact hyk, by rw [hrem.value y hy]; exact hyv⟩
      · rintro ⟨y, hy, hyk, hyv⟩
        exact ⟨y, (hmid y).mpr (.inr hy), by rw [← hrem.key y hy]; exact hyk, by rw [← hrem.value y hy]; exact hyv⟩
  · ext k'
    rw [Finset.mem_erase, mem_keys, mem_keys]
    constructor
    · rintro ⟨y, hy, hyk⟩
      rw [hrem.key y hy] at hyk
      exact ⟨fun e => hother y hy (hyk.trans e), y, (hmid y).mpr (.inr hy), hyk⟩
    · rintro ⟨hne, y, hy, hyk⟩
      rcases (hmid y).mp hy with rfl | hy
      · exact absurd (hyk.symm.trans hk) hne
      · exact ⟨y, hy, by rw [hrem.key y hy]; exact hyk⟩

/-! ## Runs -/

/-- An operation on the list; `random` are the numbers that the generator gives out. -/
inductive Op
  | insert (random : Nat → UInt64) (key : UInt64) (value : Option Addr)
  | delete (key : UInt64)

def Op.run (l : SkipList) : Op → Except Fault (Int × SkipList)
  | .insert random key value => drmSLInsert random key value l
  | .delete key => drmSLDelete key l

def runAll : List Op → SkipList → Except Fault (List Int × SkipList)
  | [], l => .ok ([], l)
  | op :: ops, l => do
      let (r, l) ← op.run l
      let (rs, l) ← runAll ops l
      return (r :: rs, l)

/-- The same operation on a set of keys. -/
def Op.specSet (s : Finset UInt64) : Op → Int × Finset UInt64
  | .insert _ key _ => if key ∈ s then (1, s) else (0, Insert.insert key s)
  | .delete key => if key ∈ s then (0, s.erase key) else (1, s)

def specSet : List Op → Finset UInt64 → List Int × Finset UInt64
  | [], s => ([], s)
  | op :: ops, s =>
      let (r, s) := op.specSet s
      let (rs, s) := specSet ops s
      (r :: rs, s)

/-- The value that the last successful insertion of each key has given to it. -/
def Op.specMap (m : UInt64 → Option (Option Addr)) : Op → UInt64 → Option (Option Addr)
  | .insert _ key value => if m key = none then Function.update m key (some value) else m
  | .delete key => Function.update m key none

def specMap (ops : List Op) : UInt64 → Option (Option Addr) := ops.foldl Op.specMap fun _ => none

theorem Op.run_spec {m : UInt64 → Option (Option Addr)} (h : Rep l xs m) (op : Op) :
    Returns (op.run l) fun r => r.1 = (op.specSet (keys l xs)).1
      ∧ ∃ xs', Rep r.2 xs' (op.specMap m) ∧ keys r.2 xs' = (op.specSet (keys l xs)).2 := by
  cases op with
  | insert random k v =>
      refine (drmSLInsert_spec h random k v).mono ?_
      rintro r (⟨hk, rfl⟩ | ⟨hk, hr, xs', hrep, hkeys⟩)
      · rw [Op.specSet, Op.specMap, if_pos (h.mem_keys_iff.mpr hk), if_neg hk]
        exact ⟨rfl, xs, h, rfl⟩
      · have hmem : k ∉ keys l xs := fun hmem => h.mem_keys_iff.mp hmem hk
        simp only [Op.specSet, Op.specMap, if_neg hmem, if_pos hk]
        exact ⟨hr, xs', hrep, hkeys⟩
  | delete k =>
      refine (drmSLDelete_spec h k).mono ?_
      rintro r (⟨hk, rfl⟩ | ⟨hk, hr, xs', hrep, hkeys⟩)
      · have hmem : k ∉ keys l xs := fun hmem => h.mem_keys_iff.mp hmem hk
        have hsame : Function.update m k none = m := by rw [← hk, Function.update_eq_self]
        rw [Op.specSet, Op.specMap, if_neg hmem, hsame]
        exact ⟨rfl, xs, h, rfl⟩
      · simp only [Op.specSet, Op.specMap, if_pos (h.mem_keys_iff.mpr hk)]
        exact ⟨hr, xs', hrep, hkeys⟩

theorem drmSLCreate_rep (p0 : Option Addr) : Rep (drmSLCreate p0) [] fun _ => none := by
  refine ⟨⟨rfl, rfl, List.not_mem_nil, nofun, Nat.zero_le _, List.Pairwise.nil, fun i _ => ?_, fun x hx => ?_⟩, rfl,
    fun k v => by simp⟩
  · rfl
  · show x < 1
    by_contra hne
    have hx0 : x ≠ 0 := fun e => hne (e ▸ Nat.zero_lt_one)
    simp [drmSLCreate, hx0] at hx

theorem runAll_spec (ops : List Op) :
    ∀ {l : SkipList} {xs : List Addr} {m : UInt64 → Option (Option Addr)}, Rep l xs m →
      Returns (runAll ops l) fun r => r.1 = (specSet ops (keys l xs)).1
        ∧ ∃ xs', Rep r.2 xs' (ops.foldl Op.specMap m) ∧ keys r.2 xs' = (specSet ops (keys l xs)).2 := by
  induction ops with
  | nil => exact fun h => .ok ⟨rfl, _, h, rfl⟩
  | cons op ops ih =>
      intro l xs m h
      refine (Op.run_spec h op).bind ?_
      rintro ⟨r, l₁⟩ ⟨hr, xs₁, h₁, hkeys₁⟩
      refine (ih h₁).bind ?_
      rintro ⟨rs, l₂⟩ ⟨hrs, xs₂, h₂, hkeys₂⟩
      rw [hkeys₁] at hrs hkeys₂
      refine .ok ⟨?_, xs₂, h₂, hkeys₂⟩
      show r :: rs = _
      simp only [specSet]
      rw [← hr, ← hrs]

/-- After every sequence of operations, and whatever the generator gave out, the return codes are
those of a set of keys, and the keys of the set stand on the list: the chain of each level is sorted
and a sublist of the one below, no level above that of the list is in use, and `count` is their number
(as an `int`).  No fault occurs: no forward pointer that an entry does not have is touched, and
no slot of `update` is read that was not written. -/
theorem skip_list_refines_set (p0 : Option Addr) (ops : List Op) :
    ∃ rs l, ∃ chains : Nat → List Addr, runAll ops (drmSLCreate p0) = .ok (rs, l)
      ∧ rs = (specSet ops ∅).1
      ∧ ((chains 0).map l.key).toFinset = (specSet ops ∅).2
      ∧ (∀ i ≤ SL_MAX_LEVEL, Chain (l.nxt i) (l.nxt i l.head) (chains i)
        ∧ (chains i).Pairwise (fun x y => l.key x < l.key y)
        ∧ (chains (i + 1)).Sublist (chains i)
        ∧ (l.level < i → l.nxt i l.head = none))
      ∧ l.level ≤ SL_MAX_LEVEL
      ∧ l.count = int32 (specSet ops ∅).2.card
      ∧ ((specSet ops ∅).2.card < 2 ^ 31 → l.count = (specSet ops ∅).2.card) := by
  obtain ⟨⟨rs, l⟩, hrun, hrs, xs, h, hkeys⟩ := runAll_spec ops (drmSLCreate_rep p0)
  have hcard : (specSet ops ∅).2.card = xs.length := by
    have hlen : (keys l xs).card = (xs.map l.key).length := List.toFinset_card_of_nodup h.inv.keys_nodup
    rw [List.length_map] at hlen
    rw [← hlen, hkeys]
    rfl
  refine ⟨rs, l, fun i => l.onLevel i xs, hrun, hrs, ?_, fun i hi => ⟨h.inv.chain i hi, ?_, ?_, ?_⟩, h.inv.level_le, ?_,
    fun hlt => ?_⟩
  · show ((l.onLevel 0 xs).map l.key).toFinset = _
    rw [h.inv.onLevel_zero (List.Subset.refl xs)]
    exact hkeys
  · exact h.inv.sorted.sublist List.filter_sublist
  · exact List.monotone_filter_right xs fun x hx => by
      simp only [decide_eq_true_eq] at hx ⊢
      omega
  · exact fun hlt => h.inv.null_above hlt hi
  · rw [hcard]; exact h.count
  · rw [hcard] at hlt ⊢
    rw [h.count]
    exact int32_of_range (by omega) (by exact_mod_cast hlt)

/-! ## Lookup -/

/-- What a lookup should return: 0 and the value that was stored, or -1 and NULL. -/
def storedValue (m : UInt64 → Option (Option Addr)) (k : UInt64) : Int × Option Addr :=
  match m k with
  | some v => (0, v)
  | none => (-1, none)

theorem drmSLLookup_spec {m : UInt64 → Option (Option Addr)} (h : Rep l xs m) (k : UInt64) :
    (m k = none ∧ drmSLLookup k l = .ok (-1, none))
    ∨ ∃ x ∈ xs, l.key x = k ∧ m k = some (l.value x) ∧ drmSLLookup k l = .ok (0, some x) := by
  obtain ⟨P, Q, u, rfl, hlocate, hu, hP, hcases⟩ := h.inv.found_cases k
  unfold drmSLLookup
  rw [hlocate]
  simp only [ok_bind]
  rcases hcases with ⟨x, Q, rfl, hk, hfound⟩ | ⟨hQ, hfound⟩
  · refine .inr ⟨x, by simp, hk, (h.values k _).mpr ⟨x, by simp, hk, rfl⟩, ?_⟩
    rw [hfound]
    rfl
  · refine .inl ⟨h.absent hP hQ, ?_⟩
    rw [hfound]
    rfl

/-- After every sequence of operations, a lookup returns what was stored exactly if the key is not
there, or the value that was stored with it happens to be the address of its own entry. -/
theorem skip_list_lookup_iff (p0 : Option Addr) (ops : List Op) (k : UInt64) :
    ∃ rs l chain, runAll ops (drmSLCreate p0) = .ok (rs, l) ∧ Chain (l.nxt 0) (l.nxt 0 l.head) chain
      ∧ (drmSLLookup k l = .ok (storedValue (specMap ops) k)
        ↔ specMap ops k = none ∨ ∃ x ∈ chain, l.key x = k ∧ specMap ops k = some (some x)) := by
  obtain ⟨⟨rs, l⟩, hrun, -, xs, h, -⟩ := runAll_spec ops (drmSLCreate_rep p0)
  have hchain := h.inv.chain 0 (Nat.zero_le _)
  rw [h.inv.onLevel_zero (List.Subset.refl xs)] at hchain
  refine ⟨rs, l, xs, hrun, hchain, ?_⟩
  show drmSLLookup k l = .ok (storedValue (ops.foldl Op.specMap fun _ => none) k) ↔ _
  change _ ↔ (ops.foldl Op.specMap fun _ => none) k = none ∨ ∃ x ∈ xs, l.key x = k
    ∧ (ops.foldl Op.specMap fun _ => none) k = some (some x)
  rcases drmSLLookup_spec h k with ⟨hk, hrun⟩ | ⟨x, hx, hxk, hk, hrun⟩
  · simp [hk, hrun, storedValue]
  · have hval : drmSLLookup k l = .ok (storedValue (ops.foldl Op.specMap fun _ => none) k) ↔ l.value x = some x := by
      simp only [hrun, storedValue, hk, Except.ok.injEq, Prod.mk.injEq, true_and]
      exact eq_comm
    rw [hval]
    constructor
    · intro hv
      exact .inr ⟨x, hx, hxk, by rw [hk, hv]⟩
    · rintro (hnone | ⟨y, hy, hyk, hv⟩)
      · rw [hk] at hnone; cases hnone
      · obtain rfl : x = y := List.inj_on_of_nodup_map h.inv.keys_nodup hx hy (hxk.trans hyk.symm)
        exact Option.some.inj (hk.symm.trans hv)

/-- The value 7 is stored with the key 1 and the address of the entry comes back. -/
theorem skip_list_lookup_seven : ∃ rs l, runAll [.insert (fun _ => 0) 1 (some 7)] (drmSLCreate none) = .ok (rs, l)
    ∧ drmSLLookup 1 l ≠ .ok (storedValue (specMap [.insert (fun _ => 0) 1 (some 7)]) 1) := by
  have hrun : (runAll [.insert (fun _ => 0) 1 (some 7)] (drmSLCreate none)).toOption.any
      (fun r => (drmSLLookup 1 r.2).toOption == some (0, some 1)) = true := by decide +kernel
  cases h : runAll [.insert (fun _ => 0) 1 (some 7)] (drmSLCreate none) with
  | error e => rw [h] at hrun; cases hrun
  | ok r =>
      rw [h] at hrun
      refine ⟨r.1, r.2, rfl, fun e => ?_⟩
      rw [show (Except.ok r : Except Fault _).toOption = some r from rfl, Option.any_some, e] at hrun
      exact absurd hrun (by decide)

/-! ## Neighbours -/

/-- What `drmSLLookupNeighbors` should report: the greatest key that is smaller and the least key that
is not, with their values, where there are such keys. -/
def ReportsNeighbors (m : UInt64 → Option (Option Addr)) (k : UInt64) (r : Neighbors) : Prop :=
  (∀ p v, m p = some v → p < k → (∀ q, m q ≠ none → q < k → q ≤ p) → r.prevKey = p ∧ r.prevValue = v)
  ∧ ∀ n v, m n = some v → k ≤ n → (∀ q, m q ≠ none → k ≤ q → n ≤ q) → r.nextKey = n ∧ r.nextValue = v

/-- Whatever is in the local array, the right neighbours are reported, and the result does not
depend on what is in it. -/
def NeighborsDetermined (m : UInt64 → Option (Option Addr)) (k : UInt64) (l : SkipList) : Prop :=
  (∀ update, ∃ r, drmSLLookupNeighbors k update l = .ok r ∧ ReportsNeighbors m k r)
  ∧ ∀ update update', drmSLLookupNeighbors k update l = drmSLLookupNeighbors k update' l

/-- With NULL in its slot nothing is reported, with the head in it something is. -/
theorem neighbors_undetermined (h : Inv l xs) (k : UInt64) :
    drmSLLookupNeighbors k (fun _ => none) l ≠ drmSLLookupNeighbors k (fun _ => some l.head) l := by
  obtain ⟨e, he, -⟩ := alloc_of_levels (h.fwd_head (Nat.zero_le _))
  have hnull : drmSLLookupNeighbors k (fun _ => none) l = .ok ⟨0, k, none, k, none⟩ := rfl
  rw [hnull]
  simp only [drmSLLookupNeighbors, he, deref_some, ok_bind, fwd_ok (h.fwd_head (Nat.zero_le _))]
  have hchain := h.chain 0 (Nat.zero_le _)
  rw [h.onLevel_zero (List.Subset.refl xs)] at hchain
  cases xs with
  | nil =>
      have hnext : l.nxt 0 l.head = none := hchain
      rw [hnext]
      intro heq
      have hcode : (0 : Int) = 1 := congrArg Neighbors.retcode (Except.ok.inj heq)
      exact absurd hcode (by decide)
  | cons x xs =>
      obtain ⟨f, hf⟩ := h.alloc (List.mem_cons_self ..)
      rw [hchain.1]
      simp only [hf, deref_some, ok_bind]
      intro heq
      have hcode : (0 : Int) = 2 := congrArg Neighbors.retcode (Except.ok.inj heq)
      exact absurd hcode (by decide)

/-- After no sequence of operations and for no key are the neighbours determined. -/
theorem skip_list_neighbors_undetermined (p0 : Option Addr) (ops : List Op) (k : UInt64) :
    ∃ rs l, runAll ops (drmSLCreate p0) = .ok (rs, l) ∧ ¬ NeighborsDetermined (specMap ops) k l := by
  obtain ⟨⟨rs, l⟩, hrun, -, xs, h, -⟩ := runAll_spec ops (drmSLCreate_rep p0)
  exact ⟨rs, l, hrun, fun hdet => neighbors_undetermined h.inv k (hdet.2 _ _)⟩

/-- With the keys 1 and 5 stored, no neighbour of 3 is reported if the slot holds NULL. -/
theorem skip_list_neighbors_three :
    ∃ rs l, runAll [.insert (fun _ => 0) 1 none, .insert (fun _ => 1) 5 none] (drmSLCreate none) = .ok (rs, l)
      ∧ drmSLLookupNeighbors 3 (fun _ => none) l = .ok ⟨0, 3, none, 3, none⟩
      ∧ ¬ NeighborsDetermined (specMap [.insert (fun _ => 0) 1 none, .insert (fun _ => 1) 5 none]) 3 l := by
  obtain ⟨⟨rs, l⟩, hrun, -, xs, h, -⟩ := runAll_spec
    [.insert (fun _ => 0) 1 none, .insert (fun _ => 1) 5 none] (drmSLCreate_rep none)
  refine ⟨rs, l, hrun, rfl, fun hdet => ?_⟩
  obtain ⟨r, hr, hprev, -⟩ := hdet.1 fun _ => none
  obtain rfl : (⟨0, 3, none, 3, none⟩ : Neighbors) = r := Except.ok.inj hr
  have hone : specMap [.insert (fun _ => 0) 1 none, .insert (fun _ => 1) 5 none] 1 = some none := by decide
  refine absurd (hprev 1 none hone (by decide) fun q hq hlt => ?_).1 (by decide)
  have hq' : q = 1 ∨ q = 5 := by
    by_contra hne
    simp only [not_or] at hne
    exact hq (by simp [specMap, Op.specMap, hne.1, hne.2])
  rcases hq' with rfl | rfl
  · exact UInt64.le_refl 1
  · exact absurd hlt (by decide)

end LibDrm.SL
