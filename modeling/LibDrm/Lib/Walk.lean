/-
# `LibDrm.Lib.Walk` — recursive walks over a graph of successor lists

The graph is a function `succ : V → List V`.  A node may list itself, and a
walk meets that self edge in its own way, so every notion here is about the
edges to *other* nodes (`Edge`).  Acyclicity is carried by a rank that every
edge decreases (`RankedBy`): a rank is what a recursion along the edges needs
for its fuel, and it survives the two changes a mutable graph makes,

    removing edges                                        (`RankedBy.of_edge`)
    adding edges out of a node that no edge enters        (`RankedBy.of_source`)

Two walks are specified at sufficient fuel.

    mark    marks the nodes met, stops at a marked one
            marked afterwards = marked before ∪ reachable           (`mark_spec`, `markList_spec`)
    visit   lists the nodes met after their successors, each once,
            and collects the labels of the edges it goes along      (`visit_spec`, `listing_spec`)
-/
import Mathlib.Logic.Relation
import Mathlib.Data.Finset.Card
import Mathlib.Data.Finset.Filter
import Mathlib.Data.List.Nodup
import Mathlib.Algebra.Order.BigOperators.Group.List
import Mathlib.Algebra.Order.Ring.Canonical
import Mathlib.Algebra.Order.Ring.Nat
import Mathlib.Tactic.Tauto

namespace Walk

open Relation

variable {V : Type}

/-- An edge to another node. -/
def Edge (succ : V → List V) (a b : V) : Prop := b ∈ succ a ∧ b ≠ a

/-- Reachable in any number of steps, none included. -/
def Reach (succ : V → List V) : V → V → Prop := ReflTransGen (Edge succ)

def Acyclic (succ : V → List V) : Prop := ∀ a, ¬ TransGen (Edge succ) a a

/-! ## Ranks -/

/-- Every edge goes down in rank. -/
def RankedBy (succ : V → List V) (r : V → Nat) : Prop := ∀ a b, Edge succ a b → r b < r a

theorem RankedBy.lt_of_transGen {succ : V → List V} {r : V → Nat} (hr : RankedBy succ r) {a b : V}
    (h : TransGen (Edge succ) a b) : r b < r a := by
  induction h with
  | single h => exact hr _ _ h
  | tail _ h ih => exact (hr _ _ h).trans ih

theorem RankedBy.le_of_reach {succ : V → List V} {r : V → Nat} (hr : RankedBy succ r) {a b : V}
    (h : Reach succ a b) : r b ≤ r a := by
  rcases reflTransGen_iff_eq_or_transGen.mp h with rfl | h
  · exact le_rfl
  · exact (hr.lt_of_transGen h).le

theorem RankedBy.acyclic {succ : V → List V} {r : V → Nat} (hr : RankedBy succ r) : Acyclic succ :=
  fun _ h => lt_irrefl _ (hr.lt_of_transGen h)

/-- A graph with fewer edges keeps the rank. -/
theorem RankedBy.of_edge {succ succ' : V → List V} {r : V → Nat} (hr : RankedBy succ r)
    (h : ∀ a b, Edge succ' a b → Edge succ a b) : RankedBy succ' r :=
  fun a b hab => hr a b (h a b hab)

/-- New edges out of `u` need a new rank for `u` only, if no edge enters it. -/
theorem RankedBy.of_source [DecidableEq V] {succ succ' : V → List V} {r : V → Nat} (hr : RankedBy succ r)
    {u : V} (hin : ∀ a, ¬ Edge succ' a u) (hne : ∀ a, a ≠ u → ∀ b, Edge succ' a b → Edge succ a b) :
    ∃ r', RankedBy succ' r' := by
  refine ⟨Function.update r u (((succ' u).map r).sum + 1), ?_⟩
  intro a b hab
  have hb : b ≠ u := fun e => hin a (e ▸ hab)
  rw [Function.update_of_ne hb]
  by_cases ha : a = u
  · subst ha
    rw [Function.update_self]
    exact Nat.lt_succ_of_le (List.le_sum_of_mem (List.mem_map_of_mem hab.1))
  · rw [Function.update_of_ne ha]
    exact hr a b (hne a ha b hab)

/-- On a finite set that holds every target, a rank can be bounded by the number of nodes. -/
theorem RankedBy.bounded {succ : V → List V} {r : V → Nat} (hr : RankedBy succ r) {S : Finset V}
    (hS : ∀ a b, Edge succ a b → b ∈ S) : ∃ r', RankedBy succ r' ∧ ∀ a, r' a ≤ S.card := by
  refine ⟨fun a => (S.filter fun x => r x < r a).card, ?_, fun a => Finset.card_filter_le _ _⟩
  intro a b hab
  have hlt := hr a b hab
  refine Finset.card_lt_card (Finset.ssubset_iff_of_subset ?_ |>.mpr ⟨b, ?_, ?_⟩)
  · intro x hx
    rw [Finset.mem_filter] at hx ⊢
    exact ⟨hx.1, hx.2.trans hlt⟩
  · exact Finset.mem_filter.mpr ⟨hS a b hab, hlt⟩
  · simp

/-- The first step of a path that is not empty. -/
theorem reach_iff_head {succ : V → List V} {v x : V} :
    Reach succ v x ↔ x = v ∨ ∃ w, Edge succ v w ∧ Reach succ w x := by
  constructor
  · intro h
    rcases ReflTransGen.cases_head h with rfl | ⟨w, hw, hx⟩
    · exact Or.inl rfl
    · exact Or.inr ⟨w, hw, hx⟩
  · rintro (rfl | ⟨w, hw, hx⟩)
    · exact ReflTransGen.refl
    · exact ReflTransGen.head hw hx

/-- Fewer edges, fewer reachable nodes. -/
theorem Reach.of_edge {succ succ' : V → List V} (h : ∀ a b, Edge succ' a b → Edge succ a b) {a b : V}
    (hab : Reach succ' a b) : Reach succ a b :=
  ReflTransGen.mono h _ _ hab

/-- The self edges lead nowhere else. -/
theorem reach_iff_members {succ : V → List V} {v x : V} :
    ReflTransGen (fun a b => b ∈ succ a) v x ↔ Reach succ v x := by
  constructor
  · intro h
    induction h with
    | refl => exact ReflTransGen.refl
    | @tail a b _ hab ih =>
        by_cases hba : b = a
        · rw [hba]
          exact ih
        · exact ih.tail ⟨hab, hba⟩
  · exact fun h => ReflTransGen.mono (fun _ _ he => he.1) _ _ h

/-- What is reached from `u` once `u` has a further successor that does not lead back to it. -/
theorem reach_cons {succ succ' : V → List V} {u t : V} (hu : succ' u = succ u ++ [t])
    (hne : ∀ a, a ≠ u → succ' a = succ a) (htu : ¬ Reach succ t u) {x : V} (h : Reach succ' u x) :
    Reach succ u x ∨ (t ≠ u ∧ Reach succ t x) := by
  have hedge : ∀ a b, Edge succ' a b → Edge succ a b ∨ (a = u ∧ b = t ∧ t ≠ u) := by
    intro a b hab
    by_cases ha : a = u
    · subst ha
      rcases List.mem_append.mp (hu ▸ hab.1) with h | h
      · exact Or.inl ⟨h, hab.2⟩
      · have hb := List.mem_singleton.mp h
        exact Or.inr ⟨rfl, hb, hb ▸ hab.2⟩
    · exact Or.inl ⟨hne a ha ▸ hab.1, hab.2⟩
  induction h with
  | refl => exact Or.inl ReflTransGen.refl
  | tail _ hbc ih =>
      rcases hedge _ _ hbc with hbc | ⟨rfl, rfl, htu'⟩
      · rcases ih with ih | ⟨h₁, ih⟩
        · exact Or.inl (ih.tail hbc)
        · exact Or.inr ⟨h₁, ih.tail hbc⟩
      · exact Or.inr ⟨htu', ReflTransGen.refl⟩

/-! ## The marking walk -/

section Mark

variable [DecidableEq V]

/-- Mark `v` and walk on from its successors, unless it is marked already. -/
def mark (succ : V → List V) : Nat → V → (V → Bool) → Option (V → Bool)
  | 0, _, _ => none
  | k + 1, v, f =>
      if f v then some f
      else (succ v).foldlM (fun f w => mark succ k w f) (Function.update f v true)

/-- A marked node that can be reached from `v` has everything behind it marked. -/
def Closed (succ : V → List V) (f : V → Bool) (v : V) : Prop :=
  ∀ x, Reach succ v x → f x = true → ∀ y, Reach succ x y → f y = true

/-- The loop over the successors `ws` of `v`, once `v` is marked; `f` are the marks before `v`. -/
theorem mark_loop {succ : V → List V} {r : V → Nat} (hr : RankedBy succ r) {k : Nat} {v : V}
    (ih : ∀ w g, r w + 1 < k → Closed succ g w →
      ∃ g', mark succ k w g = some g' ∧ ∀ x, g' x = true ↔ g x = true ∨ Reach succ w x)
    (hk : r v < k) {f : V → Bool} (hf : Closed succ f v) :
    ∀ (ws done : List V) (g : V → Bool), (∀ w ∈ ws, w ∈ succ v) →
      (∀ x, g x = true ↔ f x = true ∨ x = v ∨ ∃ w ∈ done, w ≠ v ∧ Reach succ w x) →
      ∃ g', ws.foldlM (fun f w => mark succ k w f) g = some g' ∧
        ∀ x, g' x = true ↔ f x = true ∨ x = v ∨ ∃ w ∈ done ++ ws, w ≠ v ∧ Reach succ w x
  | [], done, g, _, hg => ⟨g, rfl, by simpa using hg⟩
  | w :: ws, done, g, hws, hg => by
      have hmem := hws w (List.mem_cons_self ..)
      have hrest := fun x hx => hws x (List.mem_cons_of_mem w hx)
      by_cases hwv : w = v
      · -- a self edge: the node is marked, the call returns at once
        subst hwv
        have hgw : g w = true := (hg w).mpr (Or.inr (Or.inl rfl))
        obtain ⟨j, rfl⟩ : ∃ j, k = j + 1 := ⟨k - 1, by omega⟩
        obtain ⟨g', hg', hx'⟩ := mark_loop hr ih hk hf ws done g hrest hg
        refine ⟨g', by simpa [mark, hgw] using hg', fun x => ?_⟩
        rw [hx' x]
        simp only [List.mem_append, List.mem_cons]
        constructor
        · rintro (h | h | ⟨u, hu, h⟩)
          · exact Or.inl h
          · exact Or.inr (Or.inl h)
          · exact Or.inr (Or.inr ⟨u, by tauto, h⟩)
        · rintro (h | h | ⟨u, hu | hu | hu, h⟩)
          · exact Or.inl h
          · exact Or.inr (Or.inl h)
          · exact Or.inr (Or.inr ⟨u, Or.inl hu, h⟩)
          · exact absurd hu h.1
          · exact Or.inr (Or.inr ⟨u, Or.inr hu, h⟩)
      · have hedge : Edge succ v w := ⟨hmem, hwv⟩
        have hlt := hr v w hedge
        have hclosed : Closed succ g w := by
          intro x hwx hgx y hxy
          rw [hg] at hgx ⊢
          rcases hgx with h | h | ⟨u, hu, huv, hux⟩
          · exact Or.inl (hf x (ReflTransGen.head hedge hwx) h y hxy)
          · -- `v` itself is marked, but it cannot be reached from its successor
            subst h
            exact absurd (hr.le_of_reach hwx) (by omega)
          · exact Or.inr (Or.inr ⟨u, hu, huv, hux.trans hxy⟩)
        obtain ⟨g₁, hg₁, hx₁⟩ := ih w g (by omega) hclosed
        have hg₁' : ∀ x, g₁ x = true ↔
            f x = true ∨ x = v ∨ ∃ u ∈ done ++ [w], u ≠ v ∧ Reach succ u x := by
          intro x
          rw [hx₁, hg]
          simp only [List.mem_append, List.mem_singleton]
          constructor
          · rintro ((h | h | ⟨u, hu, h⟩) | h)
            · exact Or.inl h
            · exact Or.inr (Or.inl h)
            · exact Or.inr (Or.inr ⟨u, Or.inl hu, h⟩)
            · exact Or.inr (Or.inr ⟨w, Or.inr rfl, hwv, h⟩)
          · rintro (h | h | ⟨u, hu | rfl, h⟩)
            · exact Or.inl (Or.inl h)
            · exact Or.inl (Or.inr (Or.inl h))
            · exact Or.inl (Or.inr (Or.inr ⟨u, hu, h⟩))
            · exact Or.inr h.2
        obtain ⟨g', hg', hx'⟩ := mark_loop hr ih hk hf ws (done ++ [w]) g₁ hrest hg₁'
        exact ⟨g', by simp [hg₁, hg'], by simpa using hx'⟩

/-- With fuel for the rank of `v`, exactly the nodes that `v` reaches are marked in addition. -/
theorem mark_spec {succ : V → List V} {r : V → Nat} (hr : RankedBy succ r) :
    ∀ (k : Nat) (v : V) (f : V → Bool), r v + 1 < k → Closed succ f v →
      ∃ f', mark succ k v f = some f' ∧ ∀ x, f' x = true ↔ f x = true ∨ Reach succ v x := by
  intro k
  induction k with
  | zero => intro v f hk _; omega
  | succ k ih =>
      intro v f hk hf
      by_cases hv : f v = true
      · refine ⟨f, by simp [mark, hv], fun x => ⟨Or.inl, ?_⟩⟩
        rintro (h | h)
        · exact h
        · exact hf v ReflTransGen.refl hv x h
      · have hg : ∀ x, Function.update f v true x = true ↔
            f x = true ∨ x = v ∨ ∃ w ∈ ([] : List V), w ≠ v ∧ Reach succ w x := by
          intro x
          by_cases hx : x = v
          · subst hx; simp
          · simp [hx]
        obtain ⟨f', hf', hx'⟩ := mark_loop hr ih (by omega) hf (succ v) [] _ (fun _ h => h) hg
        refine ⟨f', by simp only [mark, hv]; exact hf', fun x => ?_⟩
        rw [hx', reach_iff_head]
        constructor
        · rintro (h | h | ⟨w, hw, hwv, hwx⟩)
          · exact Or.inl h
          · exact Or.inr (Or.inl h)
          · exact Or.inr (Or.inr ⟨w, ⟨by simpa using hw, hwv⟩, hwx⟩)
        · rintro (h | h | ⟨w, hw, hwx⟩)
          · exact Or.inl h
          · exact Or.inr (Or.inl h)
          · exact Or.inr (Or.inr ⟨w, by simpa using hw.1, hw.2, hwx⟩)

/-- The marking walk from each of several roots. -/
theorem markList_spec {succ : V → List V} {r : V → Nat} (hr : RankedBy succ r) {k : Nat} :
    ∀ (roots : List V) (f : V → Bool), (∀ v ∈ roots, r v + 1 < k) →
      (∀ v ∈ roots, Closed succ f v) →
      ∃ f', roots.foldlM (fun f v => mark succ k v f) f = some f' ∧
        ∀ x, f' x = true ↔ f x = true ∨ ∃ v ∈ roots, Reach succ v x
  | [], f, _, _ => ⟨f, rfl, by simp⟩
  | v :: roots, f, hk, hc => by
      obtain ⟨f₁, hf₁, hx₁⟩ := mark_spec hr k v f (hk v (by simp)) (hc v (by simp))
      have hc₁ : ∀ u ∈ roots, Closed succ f₁ u := by
        intro u hu x hux hx y hxy
        rw [hx₁] at hx ⊢
        rcases hx with hx | hx
        · exact Or.inl (hc u (List.mem_cons_of_mem _ hu) x hux hx y hxy)
        · exact Or.inr (hx.trans hxy)
      obtain ⟨f', hf', hx'⟩ :=
        markList_spec hr roots f₁ (fun u hu => hk u (List.mem_cons_of_mem _ hu)) hc₁
      refine ⟨f', by simp [hf₁, hf'], fun x => ?_⟩
      rw [hx', hx₁]
      simp only [List.mem_cons, exists_eq_or_imp]
      tauto

end Mark

/-! ## The post-order listing -/

/-- The successors, without the labels. -/
def ends (out : V → List (V × Bool)) (v : V) : List V := (out v).map Prod.fst

/-- `x` is the other end of an edge that carries a label and starts at a node `v` reaches. -/
def Labelled (out : V → List (V × Bool)) (v x : V) : Prop :=
  ∃ a, Reach (ends out) v a ∧ (x, true) ∈ out a ∧ x ≠ a

/-- No node twice, and every successor of a listed node stands before it. -/
structure Listed (succ : V → List V) (l : List V) : Prop where
  nodup : l.Nodup
  before : ∀ l₁ a l₂, l = l₁ ++ a :: l₂ → ∀ b, Edge succ a b → b ∈ l₁

theorem Listed.nil {succ : V → List V} : Listed succ [] :=
  ⟨List.nodup_nil, fun l₁ a l₂ h => by simp at h⟩

/-- A node whose successors are all listed may come next. -/
theorem Listed.snoc {succ : V → List V} {l : List V} (hl : Listed succ l) {v : V} (hv : v ∉ l)
    (hb : ∀ b, Edge succ v b → b ∈ l) : Listed succ (l ++ [v]) := by
  refine ⟨?_, ?_⟩
  · rw [List.nodup_append]
    refine ⟨hl.nodup, by simp, ?_⟩
    intro a ha b hb
    rw [List.mem_singleton.mp hb]
    rintro rfl
    exact hv ha
  · intro l₁ a l₂ h b hab
    rcases List.eq_nil_or_concat l₂ with rfl | ⟨l₂', z, rfl⟩
    · obtain ⟨h₁, h₂⟩ := List.append_inj' h rfl
      subst h₁
      obtain rfl : v = a := by simpa using h₂
      exact hb b hab
    · have h' : l ++ [v] = (l₁ ++ a :: l₂') ++ [z] := by simpa using h
      exact hl.before l₁ a l₂' (List.append_inj' h' rfl).1 b hab

/-- What a walk from below `v` adds: `l'` extends `l` by nodes reached from the
nodes of `ws`, and the labels are those of the edges behind `ws` or into it. -/
structure Visited (out : V → List (V × Bool)) (v : V) (done : List (V × Bool))
    (s s' : List V × (V → Bool)) : Prop where
  listed : Listed (ends out) s'.1
  sub : s.1 ⊆ s'.1
  new : ∀ x ∈ s'.1, x ∈ s.1 ∨ ∃ e ∈ done, e.1 ≠ v ∧ Reach (ends out) e.1 x
  all : ∀ e ∈ done, e.1 ≠ v → ∀ x, Reach (ends out) e.1 x → x ∈ s'.1
  label : ∀ x, s'.2 x = true ↔ s.2 x = true ∨
    ∃ e ∈ done, e.1 ≠ v ∧ (Labelled out e.1 x ∨ (x = e.1 ∧ e.2 = true))

theorem Visited.nil {out : V → List (V × Bool)} {v : V} {s : List V × (V → Bool)}
    (hs : Listed (ends out) s.1) : Visited out v [] s s :=
  ⟨hs, fun _ h => h, fun _ h => Or.inl h, by simp, by simp⟩

/-- One more edge of the loop: a self edge is passed over. -/
theorem Visited.self {out : V → List (V × Bool)} {v : V} {done : List (V × Bool)}
    {s s' : List V × (V → Bool)} (h : Visited out v done s s') {e : V × Bool} (he : e.1 = v) :
    Visited out v (done ++ [e]) s s' := by
  refine ⟨h.listed, h.sub, fun x hx => ?_, fun e' he' => ?_, fun x => ?_⟩
  · rcases h.new x hx with hx | ⟨e', he', hx⟩
    · exact Or.inl hx
    · exact Or.inr ⟨e', List.mem_append_left _ he', hx⟩
  · rcases List.mem_append.mp he' with he' | he'
    · exact h.all e' he'
    · rw [List.mem_singleton.mp he']
      exact fun hne => absurd he hne
  · rw [h.label]
    constructor
    · rintro (hx | ⟨e', he', hx⟩)
      · exact Or.inl hx
      · exact Or.inr ⟨e', List.mem_append_left _ he', hx⟩
    · rintro (hx | ⟨e', he', hne, hx⟩)
      · exact Or.inl hx
      · rcases List.mem_append.mp he' with he' | he'
        · exact Or.inr ⟨e', he', hne, hx⟩
        · rw [List.mem_singleton.mp he'] at hne
          exact absurd he hne

section Visit

variable [DecidableEq V]

/-- Append a node that is not listed yet; note the label of the edge that led to it. -/
def note (e : V × Bool) (s : List V × (V → Bool)) : List V × (V → Bool) :=
  (if e.1 ∈ s.1 then s.1 else s.1 ++ [e.1], if e.2 then Function.update s.2 e.1 true else s.2)

/-- Visit the other ends of the edges out of `v`, noting each after what lies behind it. -/
def visit (out : V → List (V × Bool)) :
    Nat → V → List V × (V → Bool) → Option (List V × (V → Bool))
  | 0, _, _ => none
  | k + 1, v, s =>
      (out v).foldlM (fun s e => if e.1 = v then some s else (visit out k e.1 s).map (note e)) s

/-- One more edge of the loop: the walk behind its end `e.1`, and then the note of `e`. -/
theorem Visited.step {out : V → List (V × Bool)} {v : V} {done : List (V × Bool)}
    {s s₁ s₂ : List V × (V → Bool)} (h : Visited out v done s s₁) {e : V × Bool} (he : e.1 ≠ v)
    (hw : Visited out e.1 (out e.1) s₁ s₂) :
    Visited out v (done ++ [e]) s (note e s₂) := by
  have hbehind : ∀ x, Reach (ends out) e.1 x → x = e.1 ∨ x ∈ s₂.1 := by
    intro x hx
    rcases (reach_iff_head).mp hx with hx | ⟨w, ⟨hmem, hne⟩, hx⟩
    · exact Or.inl hx
    · obtain ⟨e', he', rfl⟩ := List.mem_map.mp hmem
      exact Or.inr (hw.all e' he' hne x hx)
  have hmem : ∀ x, x ∈ (note e s₂).1 ↔ x ∈ s₂.1 ∨ x = e.1 := by
    intro x
    by_cases hin : e.1 ∈ s₂.1
    · simp only [note, hin, if_true]
      exact ⟨Or.inl, fun hx => hx.elim id (fun hx => hx ▸ hin)⟩
    · simp [note, hin]
  refine ⟨?_, ?_, ?_, ?_, ?_⟩
  · by_cases hin : e.1 ∈ s₂.1
    · simpa [note, hin] using hw.listed
    · simp only [note, hin, if_false]
      refine hw.listed.snoc hin (fun b hb => ?_)
      rcases hbehind b (ReflTransGen.single hb) with rfl | hb'
      · exact absurd rfl hb.2
      · exact hb'
  · exact fun x hx => (hmem x).mpr (Or.inl (hw.sub (h.sub hx)))
  · intro x hx
    rcases (hmem x).mp hx with hx | rfl
    · rcases hw.new x hx with hx | ⟨e', he', hne', hx⟩
      · rcases h.new x hx with hx | ⟨e', he', hx⟩
        · exact Or.inl hx
        · exact Or.inr ⟨e', List.mem_append_left _ he', hx⟩
      · refine Or.inr ⟨e, List.mem_append_right _ (by simp), he, ?_⟩
        exact ReflTransGen.head ⟨List.mem_map_of_mem he', hne'⟩ hx
    · exact Or.inr ⟨e, List.mem_append_right _ (by simp), he, ReflTransGen.refl⟩
  · intro e' he' hne' x hx
    rw [hmem]
    rcases List.mem_append.mp he' with he' | he'
    · exact Or.inl (hw.sub (h.all e' he' hne' x hx))
    · rw [List.mem_singleton.mp he'] at hx
      exact (hbehind x hx).symm
  · intro x
    have hx2 : (note e s₂).2 x = true ↔ s₂.2 x = true ∨ (x = e.1 ∧ e.2 = true) := by
      by_cases hl : e.2 = true
      · by_cases hxe : x = e.1
        · subst hxe; simp [note, hl]
        · simp [note, hl, hxe]
      · simp [note, hl]
    have hlab : (∃ e' ∈ out e.1, e'.1 ≠ e.1 ∧ (Labelled out e'.1 x ∨ (x = e'.1 ∧ e'.2 = true))) ↔
        Labelled out e.1 x := by
      constructor
      · rintro ⟨e', he', hne', ⟨a, ha, hxa⟩ | ⟨rfl, hl⟩⟩
        · exact ⟨a, ReflTransGen.head ⟨List.mem_map_of_mem he', hne'⟩ ha, hxa⟩
        · refine ⟨e.1, ReflTransGen.refl, ?_, hne'⟩
          rw [← hl]
          exact he'
      · rintro ⟨a, ha, hxa, hne⟩
        rcases (reach_iff_head).mp ha with rfl | ⟨w, ⟨hmem', hwe⟩, hwa⟩
        · exact ⟨(x, true), hxa, hne, Or.inr ⟨rfl, rfl⟩⟩
        · obtain ⟨e', he', rfl⟩ := List.mem_map.mp hmem'
          exact ⟨e', he', hwe, Or.inl ⟨a, hwa, hxa, hne⟩⟩
    rw [hx2, hw.label, hlab, h.label]
    constructor
    · rintro (((hx | ⟨e', he', hx⟩) | hx) | hx)
      · exact Or.inl hx
      · exact Or.inr ⟨e', List.mem_append_left _ he', hx⟩
      · exact Or.inr ⟨e, List.mem_append_right _ (by simp), he, Or.inl hx⟩
      · exact Or.inr ⟨e, List.mem_append_right _ (by simp), he, Or.inr hx⟩
    · rintro (hx | ⟨e', he', hne', hx⟩)
      · exact Or.inl (Or.inl (Or.inl hx))
      · rcases List.mem_append.mp he' with he' | he'
        · exact Or.inl (Or.inl (Or.inr ⟨e', he', hne', hx⟩))
        · rw [List.mem_singleton.mp he'] at hx
          rcases hx with hx | hx
          · exact Or.inl (Or.inr hx)
          · exact Or.inr hx

theorem note_length (e : V × Bool) (s : List V × (V → Bool)) : s.1.length ≤ (note e s).1.length := by
  unfold note
  split
  · exact le_rfl
  · simp

/-- A loop of the walk over the edges out of `v`. -/
theorem visitLoop_length {out : V → List (V × Bool)} {k : Nat} {v : V}
    (hk : ∀ v s s', visit out k v s = some s' → s.1.length ≤ s'.1.length) {es : List (V × Bool)}
    {s s' : List V × (V → Bool)} (h : es.foldlM (fun s e => if e.1 = v then some s
      else (visit out k e.1 s).map (note e)) s = some s') : s.1.length ≤ s'.1.length := by
  induction es generalizing s with
  | nil =>
      cases h
      exact le_rfl
  | cons e es ih =>
      rw [List.foldlM_cons] at h
      obtain ⟨s₁, hs₁, h⟩ := Option.bind_eq_some_iff.mp h
      refine le_trans ?_ (ih h)
      split at hs₁
      · cases hs₁
        exact le_rfl
      · obtain ⟨s₂, hs₂, rfl⟩ := Option.map_eq_some_iff.mp hs₁
        exact (hk _ _ _ hs₂).trans (note_length _ _)

/-- The list only becomes longer. -/
theorem visit_length {out : V → List (V × Bool)} : ∀ (k : Nat) (v : V) (s s' : List V × (V → Bool)),
    visit out k v s = some s' → s.1.length ≤ s'.1.length
  | 0, _, _, _, h => by cases h
  | k + 1, _, _, _, h => visitLoop_length (visit_length k) h

/-- With fuel for the rank of `v`, the walk visits every edge out of `v`. -/
theorem visit_spec {out : V → List (V × Bool)} {r : V → Nat} (hr : RankedBy (ends out) r) :
    ∀ (k : Nat) (v : V) (s : List V × (V → Bool)), r v < k → Listed (ends out) s.1 →
      ∃ s', visit out k v s = some s' ∧ Visited out v (out v) s s' := by
  intro k
  induction k with
  | zero => intro v s hk _; omega
  | succ k ih =>
      intro v s hk hs
      have loop : ∀ (es done : List (V × Bool)) (s₁ : List V × (V → Bool)),
          (∀ e ∈ es, e ∈ out v) → Visited out v done s s₁ →
          ∃ s', es.foldlM (fun s e => if e.1 = v then some s
              else (visit out k e.1 s).map (note e)) s₁ = some s' ∧ Visited out v (done ++ es) s s' := by
        intro es
        induction es with
        | nil => intro done s₁ _ h; exact ⟨s₁, rfl, by simpa using h⟩
        | cons e es ihes =>
            intro done s₁ hes h
            have hrest := fun x hx => hes x (List.mem_cons_of_mem e hx)
            by_cases hev : e.1 = v
            · obtain ⟨s', hs', h'⟩ := ihes (done ++ [e]) s₁ hrest (h.self hev)
              exact ⟨s', by simpa [hev] using hs', by simpa using h'⟩
            · have hedge : Edge (ends out) v e.1 :=
                ⟨List.mem_map_of_mem (hes e (List.mem_cons_self ..)), hev⟩
              have hlt := hr v e.1 hedge
              obtain ⟨s₂, hs₂, hw⟩ := ih e.1 s₁ (by omega) h.listed
              obtain ⟨s', hs', h'⟩ := ihes (done ++ [e]) (note e s₂) hrest (h.step hev hw)
              exact ⟨s', by simpa [hev, hs₂] using hs', by simpa using h'⟩
      obtain ⟨s', hs', h'⟩ := loop (out v) [] s (fun _ h => h) (Visited.nil hs)
      exact ⟨s', by simpa [visit] using hs', by simpa using h'⟩

/-- The whole listing from a root: the walk from empty lists, then the root itself. -/
def listing (out : V → List (V × Bool)) (k : Nat) (v : V) : Option (List V × (V → Bool)) :=
  (visit out k v ([], fun _ => false)).map (note (v, false))

/-- The listing from `v` holds what `v` reaches, each node once and after its
successors, `v` last, and the labels of all edges that start in it. -/
theorem listing_spec {out : V → List (V × Bool)} {r : V → Nat} (hr : RankedBy (ends out) r) {k : Nat}
    {v : V} (hk : r v < k) :
    ∃ l f, listing out k v = some (l ++ [v], f) ∧ Listed (ends out) (l ++ [v]) ∧
      (∀ x, x ∈ l ++ [v] ↔ Reach (ends out) v x) ∧ ∀ x, f x = true ↔ Labelled out v x := by
  obtain ⟨s, hs, h⟩ := visit_spec hr k v ([], fun _ => false) hk Listed.nil
  have hmem : ∀ x, x ∈ s.1 ↔ ∃ e ∈ out v, e.1 ≠ v ∧ Reach (ends out) e.1 x := by
    intro x
    constructor
    · intro hx
      rcases h.new x hx with hx | hx
      · simp at hx
      · exact hx
    · rintro ⟨e, he, hne, hx⟩
      exact h.all e he hne x hx
  have hv : v ∉ s.1 := by
    intro hv
    obtain ⟨e, he, hne, hx⟩ := (hmem v).mp hv
    have hlt := hr v e.1 ⟨List.mem_map_of_mem he, hne⟩
    have hle := hr.le_of_reach hx
    omega
  refine ⟨s.1, s.2, by simp [listing, hs, note, hv], ?_, ?_, ?_⟩
  · refine h.listed.snoc hv (fun b hb => ?_)
    obtain ⟨e, he, rfl⟩ := List.mem_map.mp hb.1
    exact h.all e he hb.2 _ ReflTransGen.refl
  · intro x
    rw [List.mem_append, List.mem_singleton, hmem, reach_iff_head]
    constructor
    · rintro (⟨e, he, hne, hx⟩ | hx)
      · exact Or.inr ⟨e.1, ⟨List.mem_map_of_mem he, hne⟩, hx⟩
      · exact Or.inl hx
    · rintro (hx | ⟨w, ⟨hw, hne⟩, hx⟩)
      · exact Or.inr hx
      · obtain ⟨e, he, rfl⟩ := List.mem_map.mp hw
        exact Or.inl ⟨e, he, hne, hx⟩
  · intro x
    rw [h.label]
    constructor
    · rintro (hx | ⟨e, he, hne, ⟨a, ha, hxa⟩ | ⟨rfl, hl⟩⟩)
      · simp at hx
      · exact ⟨a, ReflTransGen.head ⟨List.mem_map_of_mem he, hne⟩ ha, hxa⟩
      · refine ⟨v, ReflTransGen.refl, ?_, hne⟩
        rw [← hl]
        exact he
    · rintro ⟨a, ha, hxa, hne⟩
      rcases (reach_iff_head).mp ha with rfl | ⟨w, ⟨hw, hwv⟩, hwa⟩
      · exact Or.inr ⟨(x, true), hxa, hne, Or.inr ⟨rfl, rfl⟩⟩
      · obtain ⟨e, he, rfl⟩ := List.mem_map.mp hw
        exact Or.inr ⟨e, he, hwv, Or.inl ⟨a, hwa, hxa, hne⟩⟩

end Visit

end Walk
