/-
# `LibDrm.Lib.Printer` — programs that read, print, and can fail

    Printer ρ ε ω α    reads an environment ρ it cannot change, prints entries of ω one after
                       the other, and returns an α or fails with an ε

    Prints r p Q       in the environment r, p returns, and Q holds of the value and of what
                       was printed                                   (total correctness)

    Abreast r p q Q    where p and q both return in the environment r, Q holds of the values
                       and of what was printed                       (partial correctness)
    Avoids w r p       p does not print the entry w                  (partial correctness)

The rules for `Prints` are equivalences, one for each way to build a program, so that `simp only` computes
from `Prints r p Q` what the reads of `p` ask of the environment.
-/
import LibDrm.Lib.Returns

/-- Programs that read, print, and can fail. -/
def Printer (ρ ε ω α : Type) : Type := ρ → Except ε (α × List ω)

variable {ρ ε ω α β : Type}

namespace Printer

/-- First one program, then the next. -/
def andThen (p : Printer ρ ε ω α) (f : α → Printer ρ ε ω β) : Printer ρ ε ω β := fun r =>
  match p r with
  | .error e => .error e
  | .ok (a, l) =>
      match f a r with
      | .error e => .error e
      | .ok (b, l') => .ok (b, l ++ l')

instance : Monad (Printer ρ ε ω) where
  pure a := fun _ => .ok (a, [])
  bind := andThen

/-- Print one entry. -/
def put (w : ω) : Printer ρ ε ω Unit := fun _ => .ok ((), [w])

def fail (e : ε) : Printer ρ ε ω α := fun _ => .error e

variable {r : ρ} {p : Printer ρ ε ω α} {f : α → Printer ρ ε ω β}

theorem bind_ok {a : α} {b : β} {l l' : List ω} (hp : p r = .ok (a, l)) (hf : f a r = .ok (b, l')) :
    (p >>= f) r = .ok (b, l ++ l') := by
  show andThen p f r = _
  unfold andThen
  rw [hp]
  dsimp only
  rw [hf]

/-- The parts of a program that returned. -/
theorem exists_of_bind_ok {b : β} {k : List ω} (h : (p >>= f) r = .ok (b, k)) :
    ∃ a l l', p r = .ok (a, l) ∧ f a r = .ok (b, l') ∧ k = l ++ l' := by
  change andThen p f r = _ at h
  unfold andThen at h
  rcases hp : p r with e | ⟨a, l⟩ <;> rw [hp] at h
  · cases h
  · dsimp only at h
    rcases hf : f a r with e | ⟨b', l'⟩ <;> rw [hf] at h <;> cases h
    exact ⟨a, l, l', rfl, hf, rfl⟩

end Printer

/-- The program returns, and `Q` holds of its value and of what it printed. -/
def Prints (r : ρ) (p : Printer ρ ε ω α) (Q : α → List ω → Prop) : Prop := Returns (p r) fun x => Q x.1 x.2

namespace Prints

variable {r : ρ} {p : Printer ρ ε ω α} {f : α → Printer ρ ε ω β} {Q : α → List ω → Prop}

theorem of_eq {a : α} {l : List ω} (h : p r = .ok (a, l)) (hQ : Q a l) : Prints r p Q := ⟨(a, l), h, hQ⟩

theorem pure_iff {a : α} : Prints r (pure a : Printer ρ ε ω α) Q ↔ Q a [] :=
  ⟨fun ⟨_, hx, hQ⟩ => by cases hx; exact hQ, fun h => of_eq rfl h⟩

theorem put_iff {w : ω} {Q : Unit → List ω → Prop} : Prints r (.put w : Printer ρ ε ω Unit) Q ↔ Q () [w] :=
  ⟨fun ⟨_, hx, hQ⟩ => by cases hx; exact hQ, fun h => of_eq rfl h⟩

theorem bind_iff {Q : β → List ω → Prop} :
    Prints r (p >>= f) Q ↔ Prints r p fun a l => Prints r (f a) fun b l' => Q b (l ++ l') := by
  constructor
  · rintro ⟨⟨b, k⟩, hx, hQ⟩
    obtain ⟨a, l, l', hp, hf, rfl⟩ := Printer.exists_of_bind_ok hx
    exact of_eq hp (of_eq hf hQ)
  · rintro ⟨⟨a, l⟩, hp, ⟨b, l'⟩, hf, hQ⟩
    exact of_eq (Printer.bind_ok hp hf) hQ

theorem ite_iff {c : Prop} [Decidable c] {q : Printer ρ ε ω α} :
    Prints r (if c then p else q) Q ↔ (c → Prints r p Q) ∧ (¬ c → Prints r q Q) := by
  by_cases h : c
  · rw [if_pos h]
    exact ⟨fun hp => ⟨fun _ => hp, fun hn => absurd h hn⟩, fun hpq => hpq.1 h⟩
  · rw [if_neg h]
    exact ⟨fun hq => ⟨fun hc => absurd hc h, fun _ => hq⟩, fun hpq => hpq.2 h⟩

theorem mono {P : α → List ω → Prop} (hp : Prints r p P) (h : ∀ a l, P a l → Q a l) : Prints r p Q :=
  Returns.mono hp fun x => h x.1 x.2

theorem and {P : α → List ω → Prop} (hp : Prints r p P) (hq : Prints r p Q) :
    Prints r p fun a l => P a l ∧ Q a l := by
  obtain ⟨x, hx, hP⟩ := hp
  obtain ⟨y, hy, hQ⟩ := hq
  cases hx.symm.trans hy
  exact ⟨x, hx, hP, hQ⟩

/-- What is known of the one result decides what is asked of it. -/
theorem iff_of {P : α → List ω → Prop} {c : Prop} (hp : Prints r p P) (h : ∀ a l, P a l → (Q a l ↔ c)) :
    Prints r p Q ↔ c := by
  constructor
  · intro hq
    obtain ⟨x, -, hP, hQ⟩ := hp.and hq
    exact (h x.1 x.2 hP).mp hQ
  · exact fun hc => hp.mono fun a l hP => (h a l hP).mpr hc

/-- The sequence rule. -/
theorem bind {P : α → List ω → Prop} {Q : β → List ω → Prop} (hp : Prints r p P)
    (hf : ∀ a l, P a l → Prints r (f a) fun b l' => Q b (l ++ l')) : Prints r (p >>= f) Q :=
  (bind_iff).mpr (hp.mono hf)

/-- A program that only prints. -/
theorem andThen {p : Printer ρ ε ω Unit} {q : Printer ρ ε ω β} {Q : β → Prop} (hp : Prints r p fun _ _ => True)
    (hq : Prints r q fun b _ => Q b) : Prints r (p >>= fun _ => q) fun b _ => Q b :=
  hp.bind fun _ _ _ => hq

/-- A loop that only prints. -/
theorem forM {f : β → Printer ρ ε ω PUnit} {xs : List β} (h : ∀ x ∈ xs, Prints r (f x) fun _ _ => True) :
    Prints r (xs.forM f) fun _ _ => True := by
  induction xs with
  | nil => exact (pure_iff).mpr trivial
  | cons x xs ih =>
      refine bind (h x List.mem_cons_self) fun _ _ _ => ?_
      exact ih fun y hy => h y (List.mem_cons_of_mem x hy)

/-- What a loop prints, one round after the other. -/
theorem forM_log {f : β → Printer ρ ε ω PUnit} {g : β → List ω} {xs : List β}
    (h : ∀ x ∈ xs, Prints r (f x) fun _ l => l = g x) : Prints r (xs.forM f) fun _ l => l = xs.flatMap g := by
  induction xs with
  | nil => exact (pure_iff).mpr rfl
  | cons x xs ih =>
      refine bind (h x List.mem_cons_self) fun _ l hl => ?_
      refine (ih fun y hy => h y (List.mem_cons_of_mem x hy)).mono fun _ l' hl' => ?_
      rw [hl, hl', List.flatMap_cons]

/-- The loop rule: `I done s` holds when the elements `done` have been worked off. -/
theorem foldlM {f : α → β → Printer ρ ε ω α} {I : List β → α → Prop} {xs : List β} {s : α} (h₀ : I [] s)
    (step : ∀ done x rest s, xs = done ++ x :: rest → I done s →
      Prints r (f s x) fun s' _ => I (done ++ [x]) s') :
    Prints r (xs.foldlM f s) fun s' _ => I xs s' := by
  have loop : ∀ (rest done : List β) (s : α), xs = done ++ rest → I done s →
      Prints r (rest.foldlM f s) fun s' _ => I xs s' := by
    intro rest
    induction rest with
    | nil =>
        intro done s hl hs
        refine (pure_iff).mpr ?_
        rw [hl, List.append_nil]
        exact hs
    | cons x rest ih =>
        intro done s hl hs
        refine bind (step done x rest s hl hs) fun s' _ hs' => ?_
        exact ih (done ++ [x]) s' (by rw [hl, List.append_assoc, List.singleton_append]) hs'
  exact loop xs [] s rfl h₀

end Prints

/-- Two programs in one environment. -/
def Abreast (r : ρ) (p : Printer ρ ε ω α) (q : Printer ρ ε ω β) (Q : α → List ω → β → List ω → Prop) : Prop :=
  ∀ a l b k, p r = .ok (a, l) → q r = .ok (b, k) → Q a l b k

namespace Abreast

variable {γ δ σ : Type} {r : ρ} {p p' : Printer ρ ε ω α} {q q' : Printer ρ ε ω β} {f : α → Printer ρ ε ω γ}
  {g : β → Printer ρ ε ω δ}

theorem pure {a : α} {b : β} {Q : α → List ω → β → List ω → Prop} (h : Q a [] b []) :
    Abreast r (pure a : Printer ρ ε ω α) (Pure.pure b : Printer ρ ε ω β) Q := by
  intro a' l b' k hp hq
  cases hp
  cases hq
  exact h

theorem mono {P Q : α → List ω → β → List ω → Prop} (hpq : Abreast r p q P) (h : ∀ a l b k, P a l b k → Q a l b k) :
    Abreast r p q Q := fun a l b k hp hq => h a l b k (hpq a l b k hp hq)

/-- The sequence rule. -/
theorem bind {P : α → List ω → β → List ω → Prop} {Q : γ → List ω → δ → List ω → Prop} (hpq : Abreast r p q P)
    (hfg : ∀ a l b k, P a l b k → Abreast r (f a) (g b) fun c l' d k' => Q c (l ++ l') d (k ++ k')) :
    Abreast r (p >>= f) (q >>= g) Q := by
  intro c m d n hc hd
  obtain ⟨a, l, l', hp, hf, rfl⟩ := Printer.exists_of_bind_ok hc
  obtain ⟨b, k, k', hq, hg, rfl⟩ := Printer.exists_of_bind_ok hd
  exact hfg a l b k (hpq a l b k hp hq) c l' d k' hf hg

/-- Both begin with the same program. -/
theorem same {f' : α → Printer ρ ε ω δ} {Q : γ → List ω → δ → List ω → Prop}
    (hff : ∀ a l, p r = .ok (a, l) → Abreast r (f a) (f' a) fun c l' d k' => Q c (l ++ l') d (l ++ k')) :
    Abreast r (p >>= f) (p >>= f') Q := by
  intro c m d n hc hd
  obtain ⟨a, l, l', hp, hf, rfl⟩ := Printer.exists_of_bind_ok hc
  obtain ⟨b, k, k', hq, hg, rfl⟩ := Printer.exists_of_bind_ok hd
  cases hp.symm.trans hq
  exact hff a l hp c l' d k' hf hg

theorem ite {c : Prop} [Decidable c] {Q : α → List ω → β → List ω → Prop} (hyes : c → Abreast r p q Q)
    (hno : ¬ c → Abreast r p' q' Q) : Abreast r (if c then p else p') (if c then q else q') Q := by
  by_cases h : c
  · rw [if_pos h, if_pos h]
    exact hyes h
  · rw [if_neg h, if_neg h]
    exact hno h

/-- Two loops over one list that print the same: `I done s t` holds when the elements `done` have been worked off. -/
theorem foldlM {f : α → σ → Printer ρ ε ω α} {g : β → σ → Printer ρ ε ω β} {I : List σ → α → β → Prop} {xs : List σ}
    {s : α} {t : β} (h₀ : I [] s t)
    (step : ∀ done x rest s t, xs = done ++ x :: rest → I done s t →
      Abreast r (f s x) (g t x) fun s' l t' k => I (done ++ [x]) s' t' ∧ k = l) :
    Abreast r (xs.foldlM f s) (xs.foldlM g t) fun s' l t' k => I xs s' t' ∧ k = l := by
  have loop : ∀ (rest done : List σ) (s : α) (t : β), xs = done ++ rest → I done s t →
      Abreast r (rest.foldlM f s) (rest.foldlM g t) fun s' l t' k => I xs s' t' ∧ k = l := by
    intro rest
    induction rest with
    | nil =>
        intro done s t hl hst
        refine .pure ⟨?_, rfl⟩
        rw [hl, List.append_nil]
        exact hst
    | cons x rest ih =>
        intro done s t hl hst
        rw [List.foldlM_cons, List.foldlM_cons]
        refine (step done x rest s t hl hst).bind ?_
        rintro s' l t' k ⟨hst', rfl⟩
        refine (ih (done ++ [x]) s' t' (by rw [hl, List.append_assoc, List.singleton_append]) hst').mono ?_
        rintro s'' l' t'' k' ⟨hI, rfl⟩
        exact ⟨hI, rfl⟩
  exact loop xs [] s t rfl h₀

end Abreast

/-- The program does not print the entry. -/
def Avoids (w : ω) (r : ρ) (p : Printer ρ ε ω α) : Prop := ∀ a l, p r = .ok (a, l) → w ∉ l

namespace Avoids

variable {w : ω} {r : ρ} {p q : Printer ρ ε ω α} {f : α → Printer ρ ε ω β}

theorem pure {a : α} : Avoids w r (pure a : Printer ρ ε ω α) := by
  rintro b l ⟨⟩
  exact List.not_mem_nil

theorem put {w' : ω} (h : w ≠ w') : Avoids w r (.put w' : Printer ρ ε ω Unit) := by
  rintro b l ⟨⟩
  exact fun hmem => h (List.mem_singleton.mp hmem)

theorem fail {e : ε} : Avoids w r (.fail e : Printer ρ ε ω α) := nofun

theorem bind (hp : Avoids w r p) (hf : ∀ a, Avoids w r (f a)) : Avoids w r (p >>= f) := by
  intro b k h hmem
  obtain ⟨a, l, l', hpa, hfb, rfl⟩ := Printer.exists_of_bind_ok h
  rcases List.mem_append.mp hmem with hl | hl
  · exact hp a l hpa hl
  · exact hf a b l' hfb hl

theorem ite {c : Prop} [Decidable c] (hp : c → Avoids w r p) (hq : ¬ c → Avoids w r q) :
    Avoids w r (if c then p else q) := by
  by_cases h : c
  · rw [if_pos h]
    exact hp h
  · rw [if_neg h]
    exact hq h

theorem foldlM {f : α → β → Printer ρ ε ω α} (h : ∀ s x, Avoids w r (f s x)) (xs : List β) (s : α) :
    Avoids w r (xs.foldlM f s) := by
  induction xs generalizing s with
  | nil => exact .pure
  | cons x xs ih =>
      rw [List.foldlM_cons]
      exact (h s x).bind ih

end Avoids
