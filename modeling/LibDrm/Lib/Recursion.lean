/-
# `LibDrm.Lib.Recursion` — whether a recursion comes to an end

A recursive function that may fail is the iteration of its body, and below the deepest call that is
granted there is an error.  The recursion ends if from some depth on neither the depth nor that error
matters: whatever they are, the result is the same (`Ends`).

    ends_of_rank   every call is made with an argument of smaller rank
    not_ends       the error comes up from every depth

The body has a state, of which an invariant may be needed to know where the calls go (`Keeps`).  A loop
over calls fails if one of them does (`foldlM_error`).

Where the calls go along a relation without cycle, with finitely many targets, the number of those that
an argument reaches is a rank (`reached_lt`); a new edge closes a cycle only if its end leads back to its
beginning (`cycle_of_edge`).
-/
import LibDrm.Lib.Returns
import Mathlib.Data.Set.Card
import Mathlib.Logic.Relation

open Relation

namespace Recursion

variable {α β σ ρ ε : Type}

/-- A function of an argument and a state. -/
abbrev Fn (α σ ρ ε : Type) := α → σ → Except ε ρ

/-- The function with the body `F`, at most `n` calls deep. -/
def iterate (F : Fn α σ ρ ε → Fn α σ ρ ε) (e : ε) : Nat → Fn α σ ρ ε
  | 0 => fun _ _ => .error e
  | n + 1 => F (iterate F e n)

/-- With enough calls granted there is one result. -/
def Ends (F : Fn α σ ρ ε → Fn α σ ρ ε) (a : α) (s : σ) : Prop :=
  ∃ n, ∀ m m' e e', n ≤ m → n ≤ m' → iterate F e m a s = iterate F e' m' a s

variable {I : σ → Prop} {state : ρ → σ} {F : Fn α σ ρ ε → Fn α σ ρ ε} {f f' : Fn α σ ρ ε} {rank : α → Nat} {a : α} {s : σ}

/-- A function keeps an invariant; `state` is the state in its result. -/
def Keeps (I : σ → Prop) (state : ρ → σ) (f : Fn α σ ρ ε) : Prop := ∀ a s, I s → Ensures (f a s) fun r => I (state r)

variable (state) in
theorem iterate_keeps (hF : ∀ f, Keeps I state f → Keeps I state (F f)) (e : ε) (n : Nat) :
    Keeps I state (iterate F e n) := by
  induction n with
  | zero => exact fun _ _ _ => .error
  | succ n ih => exact hF _ ih

/-- Two functions are the same on what has a smaller rank. -/
def AgreeBelow (I : σ → Prop) (rank : α → Nat) (k : Nat) (f f' : Fn α σ ρ ε) : Prop :=
  ∀ a s, rank a < k → I s → f a s = f' a s

variable (state rank) in
/-- The calls of the body have smaller ranks. -/
theorem ends_of_rank (hF : ∀ f, Keeps I state f → Keeps I state (F f))
    (hagree : ∀ a f f', Keeps I state f → AgreeBelow I rank (rank a) f f' → ∀ s, I s → F f a s = F f' a s) (hs : I s) :
    Ends F a s := by
  have hsame : ∀ n m m' e e', n ≤ m → n ≤ m' → AgreeBelow I rank n (iterate F e m) (iterate F e' m') := by
    intro n
    induction n with
    | zero => exact fun _ _ _ _ _ _ _ _ hlt => absurd hlt (Nat.not_lt_zero _)
    | succ n ih =>
        intro m m' e e' hm hm' a s hlt hs
        obtain ⟨m, rfl⟩ := Nat.exists_eq_succ_of_ne_zero (Nat.ne_zero_of_lt hm)
        obtain ⟨m', rfl⟩ := Nat.exists_eq_succ_of_ne_zero (Nat.ne_zero_of_lt hm')
        refine hagree a _ _ (iterate_keeps state hF e m) (fun c s' hc hs' => ?_) s hs
        exact ih m m' e e' (Nat.le_of_succ_le_succ hm) (Nat.le_of_succ_le_succ hm') c s'
          (Nat.lt_of_lt_of_le hc (Nat.le_of_lt_succ hlt)) hs'
  exact ⟨rank a + 1, fun m m' e e' hm hm' => hsame _ m m' e e' hm hm' a s (Nat.lt_succ_self _) hs⟩

theorem not_ends {e e' : ε} (hne : e ≠ e') (h : ∀ e n, iterate F e n a s = .error e) : ¬ Ends F a s := by
  rintro ⟨n, hn⟩
  have hsame := hn n n e e' (Nat.le_refl n) (Nat.le_refl n)
  rw [h, h] at hsame
  exact hne (Except.error.inj hsame)

/-! ## Bodies that agree -/

/-- After the same beginning. -/
theorem bind_agree {x : Except ε α} {g g' : α → Except ε β} {P : α → Prop} (hx : Ensures x P)
    (h : ∀ a, P a → g a = g' a) : x >>= g = x >>= g' := by
  cases x with
  | error e => rfl
  | ok a => exact h a (hx a rfl)

/-- A loop over the same list. -/
theorem foldlM_agree {g g' : σ → β → Except ε σ} {l : List β} (hkeeps : ∀ b ∈ l, ∀ s, I s → Ensures (g s b) I)
    (h : ∀ b ∈ l, ∀ s, I s → g s b = g' s b) (hs : I s) : l.foldlM g s = l.foldlM g' s := by
  induction l generalizing s with
  | nil => rfl
  | cons b l ih =>
      rw [List.foldlM_cons, List.foldlM_cons, ← h b List.mem_cons_self s hs]
      exact bind_agree (hkeeps b List.mem_cons_self s hs) fun s' hs' =>
        ih (fun c hc => hkeeps c (List.mem_cons_of_mem b hc)) (fun c hc => h c (List.mem_cons_of_mem b hc)) hs'

/-! ## The error comes up -/

/-- A loop whose steps fail with `e` at most. -/
theorem foldlM_within {e : ε} {g : σ → β → Except ε σ} {l : List β}
    (h : ∀ b ∈ l, ∀ s, I s → Within (· = e) (g s b) I) (hs : I s) : Within (· = e) (l.foldlM g s) I := by
  induction l generalizing s with
  | nil => exact .pure hs
  | cons b l ih =>
      rw [List.foldlM_cons]
      exact (h b List.mem_cons_self s hs).bind fun s' hs' => ih (fun c hc => h c (List.mem_cons_of_mem b hc)) hs'

/-- And one of them does. -/
theorem foldlM_error {e : ε} {g : σ → β → Except ε σ} {l : List β}
    (h : ∀ b ∈ l, ∀ s, I s → Within (· = e) (g s b) I) {b : β} (hb : b ∈ l) (herror : ∀ s, I s → g s b = .error e)
    (hs : I s) : l.foldlM g s = .error e := by
  induction l generalizing s with
  | nil => exact absurd hb List.not_mem_nil
  | cons c l ih =>
      rw [List.foldlM_cons]
      rcases List.mem_cons.mp hb with rfl | hb
      · rw [herror s hs]
        rfl
      · have hc := h c List.mem_cons_self s hs
        cases hx : g s c with
        | error e' => exact congrArg Except.error (hc.2 e' hx)
        | ok s' => exact ih (fun d hd => h d (List.mem_cons_of_mem c hd)) hb (hc.1 s' hx)

/-! ## Relations without a cycle -/

section Graph

variable {r r' : α → α → Prop} {b c d x : α}

/-- The number of those that are reached. -/
noncomputable def reached (r : α → α → Prop) (a : α) : Nat := {b | TransGen r a b}.ncard

theorem reached_lt (hfinite : {b | ∃ a, r a b}.Finite) (hacyclic : ∀ a, ¬ TransGen r a a) (hcd : r c d) :
    reached r d < reached r c := by
  refine Set.ncard_lt_ncard ⟨fun x hx => TransGen.head hcd hx, fun hsub => ?_⟩ (hfinite.subset fun x hx => ?_)
  · exact hacyclic d (hsub (TransGen.single hcd))
  · obtain ⟨y, -, hyx⟩ := TransGen.tail'_iff.mp hx
    exact ⟨y, hyx⟩

/-- A way in a graph with one more edge, from `a` to `b`. -/
theorem transGen_edge (h : ∀ c d, r' c d → r c d ∨ c = a ∧ d = b) (hcd : TransGen r' c d) :
    TransGen r c d ∨ ReflTransGen r c a ∧ ReflTransGen r b d := by
  induction hcd with
  | single hcd =>
      rcases h _ _ hcd with hcd | ⟨rfl, rfl⟩
      · exact .inl (.single hcd)
      · exact .inr ⟨.refl, .refl⟩
  | tail _ hxd ih =>
      rcases h _ _ hxd with hxd | ⟨rfl, rfl⟩
      · rcases ih with ih | ⟨hca, hbx⟩
        · exact .inl (ih.tail hxd)
        · exact .inr ⟨hca, hbx.tail hxd⟩
      · rcases ih with ih | ⟨hca, -⟩
        · exact .inr ⟨ih.to_reflTransGen, .refl⟩
        · exact .inr ⟨hca, .refl⟩

theorem cycle_of_edge (h : ∀ c d, r' c d → r c d ∨ c = a ∧ d = b) (hx : TransGen r' x x) (hacyclic : ¬ TransGen r x x) :
    ReflTransGen r b a := by
  rcases transGen_edge h hx with hx | ⟨hxa, hbx⟩
  · exact absurd hx hacyclic
  · exact hbx.trans hxa

end Graph

end Recursion
