/-
# `LibDrm.Lib.Returns` — pre- and postconditions for programs that can fail

A program is an `Except ε α`.

    Returns x Q     x returns, and the value satisfies Q      (total correctness)
    Ensures x Q     if x returns, the value satisfies Q       (partial correctness)
    Within E x Q    the same, and x fails only with an error that E allows
    Exactly x P a   x returns exactly when P holds, and then it returns a

The rules follow the shape of the program: `bind`, `ite`, and for a loop
`foldlM` an invariant that is told which part of the list is done.
-/
import Mathlib.Data.List.Basic

variable {ε α β : Type}

/-- The program returns a value that satisfies `Q`. -/
def Returns (x : Except ε α) (Q : α → Prop) : Prop := ∃ a, x = .ok a ∧ Q a

/-- The program fails, or returns a value that satisfies `Q`. -/
def Ensures (x : Except ε α) (Q : α → Prop) : Prop := ∀ a, x = .ok a → Q a

/-- The program returns a value that satisfies `Q`, or fails with an error that `E` allows. -/
def Within (E : ε → Prop) (x : Except ε α) (Q : α → Prop) : Prop :=
  Ensures x Q ∧ ∀ e, x = .error e → E e

/-- The program returns exactly when `P` holds, and then the value is `a`. -/
def Exactly (x : Except ε α) (P : Prop) (a : α) : Prop := (P → x = .ok a) ∧ Ensures x fun _ => P

theorem toOption_eq_some {x : Except ε α} {a : α} (h : x.toOption = some a) : x = .ok a := by
  cases x with
  | error e => cases h
  | ok b =>
      cases h
      rfl

/-- The program fails with this error; a run can be asked. -/
def FailsWith [DecidableEq ε] (e : ε) : Except ε α → Bool
  | .error e' => e' = e
  | .ok _ => false

theorem failsWith_iff [DecidableEq ε] {e : ε} {x : Except ε α} : FailsWith e x = true ↔ x = .error e := by
  cases x with
  | error e' =>
      rw [FailsWith, decide_eq_true_iff, Except.error.injEq]
  | ok a => exact ⟨fun h => (by cases h), fun h => (by cases h)⟩

/-- The parts of a program that returned. -/
theorem exists_of_bind_ok {x : Except ε α} {f : α → Except ε β} {b : β} (h : x >>= f = .ok b) :
    ∃ a, x = .ok a ∧ f a = .ok b := by
  cases x with
  | error e => cases h
  | ok a => exact ⟨a, rfl, h⟩

namespace Returns

instance (x : Except ε α) (Q : α → Prop) [DecidablePred Q] : Decidable (Returns x Q) :=
  match x with
  | .error _ => .isFalse nofun
  | .ok a => decidable_of_iff (Q a) ⟨fun h => ⟨a, rfl, h⟩, fun ⟨_, hb, h⟩ => Except.ok.inj hb ▸ h⟩

theorem ok {a : α} {Q : α → Prop} (h : Q a) : Returns (.ok a : Except ε α) Q := ⟨a, rfl, h⟩

theorem pure {a : α} {Q : α → Prop} (h : Q a) : Returns (Pure.pure a : Except ε α) Q := ⟨a, rfl, h⟩

theorem bind {x : Except ε α} {f : α → Except ε β} {P : α → Prop} {Q : β → Prop}
    (hx : Returns x P) (hf : ∀ a, P a → Returns (f a) Q) : Returns (x >>= f) Q := by
  obtain ⟨a, rfl, ha⟩ := hx
  exact hf a ha

theorem mono {x : Except ε α} {P Q : α → Prop} (hx : Returns x P) (h : ∀ a, P a → Q a) :
    Returns x Q := by
  obtain ⟨a, rfl, ha⟩ := hx
  exact ⟨a, rfl, h a ha⟩

theorem ensures {x : Except ε α} {Q : α → Prop} (hx : Returns x Q) : Ensures x Q := by
  obtain ⟨a, rfl, ha⟩ := hx
  rintro b ⟨⟩
  exact ha

theorem and {x : Except ε α} {P Q : α → Prop} (hP : Returns x P) (hQ : Ensures x Q) :
    Returns x fun a => P a ∧ Q a := by
  obtain ⟨a, rfl, ha⟩ := hP
  exact ⟨a, rfl, ha, hQ a rfl⟩

/-- A program that returns, and a property of its value that depends on nothing else. -/
theorem iff_of {x : Except ε α} {Q : α → Prop} {P : Prop} (hx : Returns x fun a => Q a ↔ P) : Returns x Q ↔ P := by
  obtain ⟨a, rfl, ha⟩ := hx
  constructor
  · rintro ⟨b, hb, hQ⟩
    obtain rfl := Except.ok.inj hb
    exact ha.mp hQ
  · exact fun hP => ok (ha.mpr hP)

/-- The loop rule: `I done s` holds when the elements `done` have been worked off. -/
theorem foldlM {f : α → β → Except ε α} {I : List β → α → Prop} {l : List β} {s : α} (h₀ : I [] s)
    (step : ∀ done x rest s, l = done ++ x :: rest → I done s → Returns (f s x) (I (done ++ [x]))) :
    Returns (l.foldlM f s) (I l) := by
  have loop : ∀ (rest done : List β) (s : α), l = done ++ rest → I done s →
      Returns (rest.foldlM f s) (I l) := by
    intro rest
    induction rest with
    | nil =>
        intro done s hl hs
        exact ok (by rw [hl, List.append_nil]; exact hs)
    | cons x rest ih =>
        intro done s hl hs
        rw [List.foldlM_cons]
        exact (step done x rest s hl hs).bind fun s' hs' => ih (done ++ [x]) s' (by simp [hl]) hs'
  exact loop l [] s rfl h₀

end Returns

namespace Ensures

theorem ok {a : α} {Q : α → Prop} (h : Q a) : Ensures (.ok a : Except ε α) Q := by
  rintro b ⟨⟩
  exact h

theorem pure {a : α} {Q : α → Prop} (h : Q a) : Ensures (Pure.pure a : Except ε α) Q := ok h

theorem error {e : ε} {Q : α → Prop} : Ensures (.error e : Except ε α) Q := nofun

theorem bind {x : Except ε α} {f : α → Except ε β} {P : α → Prop} {Q : β → Prop}
    (hx : Ensures x P) (hf : ∀ a, P a → Ensures (f a) Q) : Ensures (x >>= f) Q := by
  intro b hb
  cases x with
  | error e => cases hb
  | ok a => exact hf a (hx a rfl) b hb

/-- Whatever the first part returns. -/
theorem bind_any {x : Except ε α} {f : α → Except ε β} {Q : β → Prop} (hf : ∀ a, Ensures (f a) Q) :
    Ensures (x >>= f) Q :=
  bind (P := fun _ => True) (fun _ _ => trivial) fun a _ => hf a

theorem mono {x : Except ε α} {P Q : α → Prop} (hx : Ensures x P) (h : ∀ a, P a → Q a) :
    Ensures x Q := fun a ha => h a (hx a ha)

/-- Two parts of a program, each of which only makes the steps of a transitive relation. -/
theorem chain {σ : Type} {R : σ → σ → Prop} {x : Except ε α} {f : α → Except ε β} {s : σ} {p : α → σ} {q : β → σ}
    (hx : Ensures x fun a => R s (p a)) (htrans : ∀ {s₁ s₂ s₃}, R s₁ s₂ → R s₂ s₃ → R s₁ s₃)
    (hf : ∀ a, Ensures (f a) fun b => R (p a) (q b)) : Ensures (x >>= f) fun b => R s (q b) :=
  hx.bind fun a ha => (hf a).mono fun _ hb => htrans ha hb

theorem and {x : Except ε α} {P Q : α → Prop} (hP : Ensures x P) (hQ : Ensures x Q) :
    Ensures x fun a => P a ∧ Q a := fun a ha => ⟨hP a ha, hQ a ha⟩

/-- The loop rule, for an invariant of every round. -/
theorem foldlM {f : α → β → Except ε α} {I : α → Prop} {l : List β} {s : α} (h₀ : I s)
    (step : ∀ s x, I s → Ensures (f s x) I) : Ensures (l.foldlM f s) I := by
  induction l generalizing s with
  | nil => exact ok h₀
  | cons x l ih =>
      rw [List.foldlM_cons]
      exact (step s x h₀).bind fun s' hs' => ih hs'

/-- The loop rule with the part of the list that is done. -/
theorem foldlM_done {f : α → β → Except ε α} {I : List β → α → Prop} {l : List β} {s : α} (h₀ : I [] s)
    (step : ∀ done x rest s, l = done ++ x :: rest → I done s → Ensures (f s x) (I (done ++ [x]))) :
    Ensures (l.foldlM f s) (I l) := by
  have loop : ∀ (rest done : List β) (s : α), l = done ++ rest → I done s → Ensures (rest.foldlM f s) (I l) := by
    intro rest
    induction rest with
    | nil =>
        intro done s hl hs
        exact ok (by rw [hl, List.append_nil]; exact hs)
    | cons x rest ih =>
        intro done s hl hs
        rw [List.foldlM_cons]
        exact (step done x rest s hl hs).bind fun s' hs' => ih (done ++ [x]) s' (by simp [hl]) hs'
  exact loop l [] s rfl h₀

/-- Every value of a `mapM` comes from an element of the list. -/
theorem mapM {f : α → Except ε β} {Q : α → β → Prop} {l : List α} (h : ∀ x ∈ l, Ensures (f x) (Q x)) :
    Ensures (l.mapM f) fun ys => ∀ y ∈ ys, ∃ x ∈ l, Q x y := by
  induction l with
  | nil =>
      rw [List.mapM_nil]
      exact pure fun y hy => absurd hy List.not_mem_nil
  | cons x l ih =>
      rw [List.mapM_cons]
      refine (h x List.mem_cons_self).bind fun y hy => (ih fun x hx => h x (List.mem_cons_of_mem _ hx)).bind fun ys hys => ?_
      refine pure fun z hz => ?_
      rcases List.mem_cons.mp hz with rfl | hz
      · exact ⟨x, List.mem_cons_self, hy⟩
      · obtain ⟨x', hx', hq⟩ := hys z hz
        exact ⟨x', List.mem_cons_of_mem _ hx', hq⟩

/-- The values of a `mapM`, one for each element of the list. -/
theorem mapM_forall₂ {f : α → Except ε β} {Q : α → β → Prop} {l : List α} (h : ∀ x ∈ l, Ensures (f x) (Q x)) :
    Ensures (l.mapM f) (List.Forall₂ Q l) := by
  induction l with
  | nil =>
      rw [List.mapM_nil]
      exact pure .nil
  | cons x l ih =>
      rw [List.mapM_cons]
      refine (h x List.mem_cons_self).bind fun y hy => ?_
      exact (ih fun x hx => h x (List.mem_cons_of_mem _ hx)).bind fun ys hys => pure (.cons hy hys)

end Ensures

namespace Within

variable {E : ε → Prop}

theorem ok {a : α} {Q : α → Prop} (h : Q a) : Within E (.ok a) Q := ⟨.ok h, nofun⟩

theorem pure {a : α} {Q : α → Prop} (h : Q a) : Within E (Pure.pure a) Q := ok h

theorem error {e : ε} {Q : α → Prop} (h : E e) : Within E (.error e : Except ε α) Q :=
  ⟨.error, fun _ he => Except.error.inj he ▸ h⟩

theorem of_returns {x : Except ε α} {Q : α → Prop} (h : Returns x Q) : Within E x Q := by
  obtain ⟨a, rfl, ha⟩ := h
  exact ok ha

theorem bind {x : Except ε α} {f : α → Except ε β} {P : α → Prop} {Q : β → Prop}
    (hx : Within E x P) (hf : ∀ a, P a → Within E (f a) Q) : Within E (x >>= f) Q := by
  cases x with
  | error e => exact error (hx.2 e rfl)
  | ok a => exact hf a (hx.1 a rfl)

theorem mono {x : Except ε α} {P Q : α → Prop} (hx : Within E x P) (h : ∀ a, P a → Q a) :
    Within E x Q := ⟨hx.1.mono h, hx.2⟩

theorem allow {E' : ε → Prop} {x : Except ε α} {Q : α → Prop} (hx : Within E x Q) (h : ∀ e, E e → E' e) :
    Within E' x Q := ⟨hx.1, fun e he => h e (hx.2 e he)⟩

/-- Where no error is allowed, the program returns. -/
theorem returns {x : Except ε α} {Q : α → Prop} (hx : Within E x Q) (h : ∀ e, ¬ E e) : Returns x Q := by
  cases x with
  | error e => exact absurd (hx.2 e rfl) (h e)
  | ok a => exact ⟨a, rfl, hx.1 a rfl⟩

end Within

namespace Exactly

theorem ok {a : α} : Exactly (.ok a : Except ε α) True a := ⟨fun _ => rfl, .ok trivial⟩

theorem pure {a : α} : Exactly (Pure.pure a : Except ε α) True a := ok

theorem error {e : ε} {a : α} : Exactly (.error e : Except ε α) False a := ⟨nofun, .error⟩

theorem congr {x : Except ε α} {P Q : Prop} {a : α} (hx : Exactly x P a) (h : P ↔ Q) :
    Exactly x Q a := ⟨fun q => hx.1 (h.2 q), hx.2.mono fun _ => h.1⟩

/-- The second part is only reached when the first returns. -/
theorem bind {x : Except ε α} {f : α → Except ε β} {P Q : Prop} {a : α} {b : β}
    (hx : Exactly x P a) (hf : P → Exactly (f a) Q b) : Exactly (x >>= f) (P ∧ Q) b := by
  constructor
  · rintro ⟨hP, hQ⟩
    rw [hx.1 hP]
    exact (hf hP).1 hQ
  · intro y hy
    cases x with
    | error e => cases hy
    | ok c =>
        have hP : P := hx.2 c rfl
        cases hx.1 hP
        exact ⟨hP, (hf hP).2 y hy⟩

/-- The first part fails. -/
theorem bind_fails {x : Except ε α} {f : α → Except ε β} {P : Prop} {a : α} {b : β} (hx : Exactly x P a)
    (hP : ¬ P) : Exactly (x >>= f) False b :=
  (hx.bind fun h => absurd h hP).congr (iff_of_false (fun h : P ∧ False => h.2) id)

end Exactly
