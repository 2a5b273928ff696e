/-
# `LibDrm.Lock.Spin` — the simple spin locks

Any number of clients change one word by `DRM_CAS`, each with a value of its own, in

    DRM_SPINLOCK         spins until the word was 0 and is its value
    DRM_SPINLOCK_COUNT   the same, but gives up
    DRM_SPINLOCK_TAKE    puts its value in whatever the word was: the server steals the lock
    DRM_SPINUNLOCK       does nothing if the lock was stolen, else spins until the word is 0 again

and every access to the word is a step of its own, in any order.

A client that the lock was not stolen from is alone with it (`spin_alone`).
`DRM_SPINUNLOCK` looks at the word before it spins, but not while it does: if the lock is
stolen in between, it never comes back (`unlock_returns_iff`).  `DRM_SPINLOCK_COUNT` always
comes back (`count_bounded`), unless its count is the largest `int`, which `__i++` may go beyond.
-/
import LibDrm.Lib.Arith
import Mathlib.Data.BitVec

namespace LibDrm.Lock

/-- The word of a lock. -/
abbrev Word := BitVec 32

/-- `DRM_CAS`: the word, and whether the exchange failed.  Where there is no such instruction it always fails. -/
def drmCas (fast : Bool) (lock old new : Word) : Word × Bool :=
  if fast = true ∧ lock = old then (new, false) else (lock, true)

theorem drmCas_cases (fast : Bool) (lock old new : Word) :
    (lock = old ∧ fast = true ∧ drmCas fast lock old new = (new, false)) ∨ drmCas fast lock old new = (lock, true) := by
  unfold drmCas
  split
  · rename_i h
    exact .inl ⟨h.2, h.1, rfl⟩
  · exact .inr rfl

/-- The clients of a spin lock. -/
structure Clients (ι : Type) where
  /-- `DRM_CAS` is there. -/
  fast : Bool
  val : ι → Word
  nonzero : ∀ i, val i ≠ 0
  distinct : ∀ i j, val i = val j → i = j

/-- Where a client stands: before which access of which macro. -/
inductive Pc where
  | outside
  | lockCas
  | lockWait                        -- `while ((spin)->lock)`
  | countCas (i count : Int)
  | countWait (i count : Int)
  | takeRead
  | takeCas (cur : Word)
  | unlockRead
  | unlockCas
  /-- `__i++` has gone beyond the largest `int`: anything may follow -/
  | overflow
  deriving DecidableEq

/-- The word and the clients.  `inside` is what a client believes, and `robbed` whose lock was stolen. -/
structure Spin (ι : Type) where
  lock : Word
  pc : ι → Pc
  inside : ι → Bool
  robbed : ι → Bool

inductive Call where
  | spinlock
  | spinlockCount (count : Int)
  | spinlockTake
  | spinunlock

inductive Move (ι : Type) where
  /-- a client comes to a macro -/
  | call (i : ι) (c : Call)
  /-- the next access of a client -/
  | access (i : ι)

def Move.client {ι : Type} : Move ι → ι
  | .call i _ | .access i => i

section

variable {ι : Type} [DecidableEq ι]

namespace Spin

def goto (s : Spin ι) (i : ι) (pc : Pc) : Spin ι := { s with pc := Function.update s.pc i pc }

/-- The exchange put the client's value into the word. -/
def enter (C : Clients ι) (s : Spin ι) (i : ι) : Spin ι where
  lock := C.val i
  pc := Function.update s.pc i .outside
  inside := Function.update s.inside i true
  robbed := Function.update (fun j => s.robbed j || decide (s.lock = C.val j)) i false

def INT_MAX : Int := 2147483647

/-- The rounds of `DRM_SPINLOCK_COUNT` go on while `__i < count`. -/
def countOn (i count : Int) (pc : Pc) : Pc := if i < count then pc else .outside

/-- A client comes to a macro. -/
def called (s : Spin ι) (i : ι) : Call → Spin ι
  | .spinlock => s.goto i .lockCas
  | .spinlockCount count => s.goto i (countOn 0 count (.countCas 0 count))
  | .spinlockTake => s.goto i .takeRead
  | .spinunlock => { s.goto i .unlockRead with inside := Function.update s.inside i false }

def call (s : Spin ι) (i : ι) (c : Call) : Option (Spin ι) := if s.pc i = .outside then some (s.called i c) else none

/-- One access of a client to the word. -/
def access (C : Clients ι) (s : Spin ι) (i : ι) : Option (Spin ι) :=
  match s.pc i with
  | .outside | .overflow => none
  | .lockCas => some (if (drmCas C.fast s.lock 0 (C.val i)).2 then s.goto i .lockWait else s.enter C i)
  | .lockWait => some (if s.lock ≠ 0 then s else s.goto i .lockCas)
  | .countCas n count =>
      some (if (drmCas C.fast s.lock 0 (C.val i)).2 then s.goto i (.countWait n count) else s.enter C i)
  | .countWait n count =>
      -- the inner loop counts on the same `__i`, and the outer one once more behind it
      some (s.goto i (if s.lock = 0 then countOn (n + 1) count (.countCas (n + 1) count)
        else if n + 1 < count then .countWait (n + 1) count
        else if n + 1 < INT_MAX then .outside else .overflow))
  | .takeRead => some (s.goto i (.takeCas s.lock))
  | .takeCas cur => some (if (drmCas C.fast s.lock cur (C.val i)).2 then s.goto i .takeRead else s.enter C i)
  | .unlockRead => some (s.goto i (if s.lock = C.val i then .unlockCas else .outside))
  | .unlockCas =>
      let (lock, ret) := drmCas C.fast s.lock (C.val i) 0
      some (if ret then s else { s.goto i .outside with lock := lock })

def step (C : Clients ι) (s : Spin ι) : Move ι → Option (Spin ι)
  | .call i c => s.call i c
  | .access i => s.access C i

/-- Nobody has come to a macro yet. -/
def start : Spin ι := ⟨0, fun _ => .outside, fun _ => false, fun _ => false⟩

/-- The states of any order of steps. -/
abbrev Reached (C : Clients ι) : Spin ι → Prop := Runs (· = start) fun s s' => ∃ m, s.step C m = some s'

/-! ## What a step does -/

variable {C : Clients ι} {s s' : Spin ι} {m : Move ι} {i j : ι}

/-- A step of the client `i`, by what it does to the word. -/
inductive Does (C : Clients ι) (s : Spin ι) (i : ι) : Spin ι → Prop
  | moves {pc : Pc} : pc ≠ .unlockRead → (pc = .unlockCas → s.pc i = .unlockRead ∧ s.lock = C.val i) →
      Does C s i (s.goto i pc)
  | stays : Does C s i s
  | leaves : Does C s i { s.goto i .unlockRead with inside := Function.update s.inside i false }
  | enters : C.fast = true → s.pc i ≠ .unlockCas → Does C s i (s.enter C i)
  | frees : s.pc i = .unlockCas → s.lock = C.val i → Does C s i { s.goto i .outside with lock := 0 }

theorem countOn_cases (n count : Int) (pc : Pc) : countOn n count pc = pc ∨ countOn n count pc = .outside := by
  unfold countOn
  split
  · exact .inl rfl
  · exact .inr rfl

/-- A spin on the word is a failed exchange. -/
theorem Does.spins {old : Word} {pc : Pc} (hread : pc ≠ .unlockRead) (hcas : pc ≠ .unlockCas) (hpc : s.pc i ≠ .unlockCas) :
    Does C s i (if (drmCas C.fast s.lock old (C.val i)).2 then s.goto i pc else s.enter C i) := by
  rcases drmCas_cases C.fast s.lock old (C.val i) with ⟨-, hfast, hcas'⟩ | hfail
  · rw [hcas', if_neg Bool.false_ne_true]
    exact .enters hfast hpc
  · rw [hfail, if_pos rfl]
    exact .moves hread fun h => absurd h hcas

theorem access_does (h : s.access C i = some s') : Does C s i s' := by
  unfold access at h
  split at h
  · cases h
  · cases h
  · next hpc =>
      cases h
      exact .spins (by decide) (by decide) (by rw [hpc]; decide)
  · cases h
    split
    · exact .stays
    · exact .moves (by decide) fun h => (by cases h)
  · next hpc =>
      cases h
      exact .spins (fun h => (by cases h)) (fun h => (by cases h)) (by rw [hpc]; exact fun h => (by cases h))
  · next n count hpc =>
      cases h
      split
      · rcases countOn_cases (n + 1) count (.countCas (n + 1) count) with hon | hoff
        · rw [hon]
          exact .moves (fun h => (by cases h)) fun h => (by cases h)
        · rw [hoff]
          exact .moves (by decide) fun h => (by cases h)
      · split
        · exact .moves (fun h => (by cases h)) fun h => (by cases h)
        · split
          · exact .moves (by decide) fun h => (by cases h)
          · exact .moves (by decide) fun h => (by cases h)
  · next hpc =>
      cases h
      exact .moves (fun h => (by cases h)) fun h => (by cases h)
  · next hpc =>
      cases h
      exact .spins (by decide) (by decide) (by rw [hpc]; exact fun h => (by cases h))
  · next hpc =>
      cases h
      split
      · next hval => exact .moves (by decide) fun _ => ⟨hpc, hval⟩
      · exact .moves (by decide) fun h => (by cases h)
  · next hpc =>
      rcases drmCas_cases C.fast s.lock (C.val i) 0 with ⟨hlock, -, hcas⟩ | hfail
      · rw [hcas] at h
        cases h
        exact .frees hpc hlock
      · rw [hfail] at h
        cases h
        exact .stays

theorem call_cases {c : Call} (h : s.call i c = some s') : s.pc i = .outside ∧ s.called i c = s' := by
  unfold call at h
  split at h
  · next hout => exact ⟨hout, Option.some.inj h⟩
  · cases h

theorem call_does {c : Call} (h : s.call i c = some s') : Does C s i s' := by
  obtain ⟨-, rfl⟩ := call_cases h
  cases c with
  | spinlock => exact .moves (by decide) fun h => (by cases h)
  | spinlockCount count =>
      show Does C s i (s.goto i (countOn 0 count (.countCas 0 count)))
      rcases countOn_cases 0 count (.countCas 0 count) with hon | hoff
      · rw [hon]
        exact .moves (fun h => (by cases h)) fun h => (by cases h)
      · rw [hoff]
        exact .moves (by decide) fun h => (by cases h)
  | spinlockTake => exact .moves (by decide) fun h => (by cases h)
  | spinunlock => exact .leaves

theorem step_does (h : s.step C m = some s') : Does C s m.client s' := by
  cases m with
  | call i c => exact call_does h
  | access i => exact access_does h

/-! ## Who has the lock -/

/-- The word is the value of a client that is inside and was not robbed. -/
structure FairTo (val lock : Word) (pc : Pc) (inside robbed : Bool) : Prop where
  own : lock = val → robbed = false
  kept : inside = true ∨ pc = .unlockCas → robbed = false → lock = val
  left : pc = .unlockRead ∨ pc = .unlockCas → inside = false

def Fair (C : Clients ι) (s : Spin ι) : Prop := ∀ i, FairTo (C.val i) s.lock (s.pc i) (s.inside i) (s.robbed i)

omit [DecidableEq ι] in
theorem fair_start : Fair C (start : Spin ι) := fun i =>
  ⟨fun h => absurd h.symm (C.nonzero i), fun h => (by rcases h with h | h <;> cases h),
    fun h => (by rcases h with h | h <;> cases h)⟩

theorem Fair.step (h : Fair C s) (hs : s.step C m = some s') : Fair C s' := by
  have hdoes := step_does hs
  generalize m.client = i at hdoes
  intro j
  obtain ⟨hown, hkept, hleft⟩ := h j
  by_cases hij : j = i
  · subst hij
    cases hdoes with
    | stays => exact h j
    | moves hread hcas =>
        simp only [goto, Function.update_self]
        exact ⟨hown, fun hj hrob => hj.elim (fun hin => hkept (.inl hin) hrob) fun hpc => (hcas hpc).2,
          fun hj => hleft (.inl (hcas (hj.resolve_left hread)).1)⟩
    | enters =>
        simp only [enter, Function.update_self]
        exact ⟨fun _ => rfl, fun _ _ => rfl, fun hj => (by rcases hj with hj | hj <;> cases hj)⟩
    | leaves =>
        simp only [goto, Function.update_self]
        exact ⟨hown, fun hj => (by rcases hj with hj | hj <;> cases hj), fun _ => rfl⟩
    | frees hpc hlock =>
        simp only [goto, Function.update_self]
        refine ⟨fun hval => absurd hval.symm (C.nonzero j), fun hj => ?_, fun hj => hleft (.inr hpc)⟩
        rw [hleft (.inr hpc)] at hj
        rcases hj with hj | hj <;> cases hj
  · cases hdoes with
    | stays => exact h j
    | moves | leaves =>
        simp only [goto, Function.update_of_ne hij]
        exact ⟨hown, hkept, hleft⟩
    | enters =>
        simp only [enter, Function.update_of_ne hij]
        refine ⟨fun hval => absurd (C.distinct _ _ hval.symm) hij, fun hj hrob => ?_, hleft⟩
        -- a client that had the lock until now is robbed
        obtain ⟨hold, hlock⟩ := Bool.or_eq_false_iff.mp hrob
        exact absurd (hkept hj hold) (of_decide_eq_false hlock)
    | frees hpc hlock =>
        simp only [goto, Function.update_of_ne hij]
        -- the word would have been the value of two clients
        exact ⟨fun hval => absurd hval.symm (C.nonzero j),
          fun hj hrob => absurd (C.distinct _ _ ((hkept hj hrob).symm.trans hlock)) hij, hleft⟩

theorem Reached.fair (h : Reached C s) : Fair C s :=
  h.induct (fun _ h => (by cases h; exact fair_start)) fun _ _ h ⟨_, hs⟩ => h.step hs

/-- The clients that are inside and were not robbed are one at most, and a client inside was robbed exactly if the
    word is not its value any more. -/
theorem spin_alone (h : Reached C s) :
    (∀ i j, s.inside i = true → s.inside j = true → s.robbed i = false → s.robbed j = false → i = j) ∧
      ∀ i, s.inside i = true → (s.robbed i = true ↔ s.lock ≠ C.val i) := by
  have hfair := h.fair
  refine ⟨fun i j hi hj hri hrj => ?_, fun i hi => ⟨fun hrob hval => ?_, fun hval => ?_⟩⟩
  · exact C.distinct i j (((hfair i).kept (.inl hi) hri).symm.trans ((hfair j).kept (.inl hj) hrj))
  · exact absurd hrob (by rw [(hfair i).own hval]; decide)
  · by_contra hrob
    exact hval ((hfair i).kept (.inl hi) (Bool.eq_false_iff.mpr hrob))

/-- Two clients, with the values 1 and 2. -/
def two : Clients Bool where
  fast := true
  val i := if i then 1 else 2
  nonzero := by decide
  distinct := by decide

def ran (C : Clients ι) (l : List (Move ι)) : Option (Spin ι) := l.foldlM (step C) start

theorem ran_reached {l : List (Move ι)} (h : ran C l = some s) : Reached C s :=
  Runs.foldlM (fun _ m _ _ hs => ⟨m, hs⟩) (.init rfl) h

theorem spin_alone_stolen : ∃ s, Reached two s ∧ s.inside true = true ∧ s.inside false = true ∧
    s.robbed true = true ∧ s.lock = two.val false := by
  have hran : ((ran two [.call true .spinlock, .access true, .call false .spinlockTake, .access false, .access false]).map
      fun s => (s.inside true, s.inside false, s.lock)) = some (true, true, two.val false) := by decide
  obtain ⟨s, hs, hshown⟩ := Option.map_eq_some_iff.mp hran
  obtain ⟨htrue, hshown⟩ := Prod.mk.inj hshown
  obtain ⟨hfalse, hlock⟩ := Prod.mk.inj hshown
  have hreached := ran_reached hs
  exact ⟨s, hreached, htrue, hfalse, ((spin_alone hreached).2 true htrue).mpr (by rw [hlock]; decide), hlock⟩

/-! ## Which macros come back -/

/-- Without the instruction the word stays 0. -/
theorem Reached.fast (h : Reached C s) : s.lock ≠ 0 → C.fast = true := by
  refine h.induct (I := fun s => s.lock ≠ 0 → C.fast = true) (fun _ hs hne => absurd (by rw [hs]; rfl) hne) ?_
  rintro s₁ s₂ ih ⟨m, hs⟩ hne
  cases step_does hs with
  | moves | stays | leaves => exact ih hne
  | enters hfast => exact hfast
  | frees => exact absurd rfl hne

/-- A client that waits for its value in `DRM_SPINUNLOCK` waits on, whatever the others do. -/
theorem unlock_spins (hpc : s.pc i = .unlockCas) (hlock : s.lock ≠ C.val i) (hs : s.step C m = some s') :
    s'.pc i = .unlockCas ∧ s'.lock ≠ C.val i := by
  by_cases hi : m.client = i
  · cases m with
    | call j c =>
        obtain rfl : j = i := hi
        cases hpc.symm.trans (call_cases hs).1
    | access j =>
        obtain rfl : j = i := hi
        simp only [step, access, hpc] at hs
        rcases drmCas_cases C.fast s.lock (C.val j) 0 with ⟨hval, -, -⟩ | hfail
        · exact absurd hval hlock
        · rw [hfail] at hs
          cases hs
          exact ⟨hpc, hlock⟩
  · have hother : ∀ pc, Function.update s.pc m.client pc i = .unlockCas := fun pc =>
      (Function.update_of_ne (Ne.symm hi) _ _).trans hpc
    cases step_does hs with
    | stays => exact ⟨hpc, hlock⟩
    | moves | leaves => exact ⟨hother _, hlock⟩
    | enters => exact ⟨hother _, fun hval => hi (C.distinct _ _ hval)⟩
    | frees => exact ⟨hother _, fun hval => C.nonzero i hval.symm⟩

/-- A client that spins in `DRM_SPINUNLOCK` comes back in some order of the steps exactly if its lock was not stolen. -/
theorem unlock_returns_iff (h : Reached C s) (hpc : s.pc i = .unlockCas) :
    (∃ (l : List (Move ι)) (s' : Spin ι), l.foldlM (step C) s = some s' ∧ s'.pc i ≠ .unlockCas) ↔ s.robbed i = false := by
  constructor
  · rintro ⟨l, s', hrun, hback⟩
    by_contra hrob
    have hlock : s.lock ≠ C.val i := fun hval => hrob ((h.fair i).own hval)
    clear h hrob
    induction l generalizing s with
    | nil =>
        cases hrun
        exact hback hpc
    | cons m l ih =>
        rw [List.foldlM_cons] at hrun
        obtain ⟨s₁, hs, hrun⟩ := Option.bind_eq_some_iff.mp hrun
        obtain ⟨hpc₁, hlock₁⟩ := unlock_spins hpc hlock hs
        exact ih hpc₁ hrun hlock₁
  · intro hrob
    have hval := (h.fair i).kept (.inr hpc) hrob
    have hfast := h.fast (by rw [hval]; exact C.nonzero i)
    have hstep : s.step C (.access i) = some { s.goto i .outside with lock := 0 } := by
      simp only [step, access, hpc, drmCas, hfast, hval]
      rfl
    refine ⟨[.access i], { s.goto i .outside with lock := 0 }, ?_, fun hback => ?_⟩
    · rw [List.foldlM_cons, hstep]
      rfl
    · cases (Function.update_self ..).symm.trans hback

/-- The lock is stolen between the look at the word and the exchange. -/
theorem unlock_returns_iff_stolen : ∃ s, Reached two s ∧ s.pc true = .unlockCas ∧
    ¬ ∃ (l : List (Move Bool)) (s' : Spin Bool), l.foldlM (step two) s = some s' ∧ s'.pc true ≠ .unlockCas := by
  have hran : ((ran two [.call true .spinlock, .access true, .call true .spinunlock, .access true,
      .call false .spinlockTake, .access false, .access false]).map fun s => (s.pc true, s.robbed true))
        = some (.unlockCas, true) := by decide
  obtain ⟨s, hs, hshown⟩ := Option.map_eq_some_iff.mp hran
  obtain ⟨hpc, hrob⟩ := Prod.mk.inj hshown
  refine ⟨s, ran_reached hs, hpc, fun hback => ?_⟩
  rw [(unlock_returns_iff (ran_reached hs) hpc).mp hback] at hrob
  cases hrob

/-- A client in `DRM_SPINLOCK_COUNT` makes `k` accesses at most until it comes back. -/
inductive Left (k : Nat) : Pc → Prop
  | cas {n count : Int} : n < count → count < INT_MAX → 2 * (count - n).toNat ≤ k → Left k (.countCas n count)
  | wait {n count : Int} : n < count → count < INT_MAX → 2 * (count - n).toNat ≤ k + 1 → Left k (.countWait n count)
  | outside : Left k .outside

theorem left_countOn {n count : Int} {pc : Pc} {k : Nat} (h : n < count → Left k pc) : Left k (countOn n count pc) := by
  unfold countOn
  split
  · next hlt => exact h hlt
  · exact .outside

theorem Left.access {k : Nat} (h : Left k (s.pc i)) (hs : s.access C i = some s') : ∃ k', k = k' + 1 ∧ Left k' (s'.pc i) := by
  generalize hpc : s.pc i = pc at h
  cases h with
  | outside =>
      simp only [Spin.access, hpc] at hs
      cases hs
  | cas hlt hmax hk =>
      simp only [Spin.access, hpc] at hs
      cases hs
      refine ⟨k - 1, by omega, ?_⟩
      split
      · simp only [goto, Function.update_self]
        exact .wait hlt hmax (by omega)
      · simp only [enter, Function.update_self]
        exact .outside
  | wait hlt hmax hk =>
      simp only [Spin.access, hpc] at hs
      cases hs
      refine ⟨k - 1, by omega, ?_⟩
      simp only [goto, Function.update_self]
      split
      · exact left_countOn fun hlt' => .cas hlt' hmax (by omega)
      · split
        · next hlt' => exact .wait hlt' hmax (by omega)
        · rw [if_pos (by omega)]
          exact .outside

theorem Left.other {k : Nat} (h : Left k (s.pc i)) (hi : i ≠ m.client) (hs : s.step C m = some s') : Left k (s'.pc i) := by
  cases step_does hs with
  | stays => exact h
  | moves | leaves | enters | frees =>
      have hsame : ∀ pc, Function.update s.pc m.client pc i = s.pc i := fun pc => Function.update_of_ne hi _ _
      simp only [goto, enter, hsame]
      exact h

/-- `DRM_SPINLOCK_COUNT` with a count below the largest `int` makes at most two accesses to the word for each of its
    tries, whatever the others do, and `__i` stays an `int`. -/
theorem count_bounded {count : Int} (hmax : count < INT_MAX) {l : List (Move ι)} {s₁ : Spin ι}
    (hcount : s.call i (.spinlockCount count) = some s₁)
    (hcall : ∀ m ∈ l, ∀ c, m ≠ .call i c) (hrun : l.foldlM (step C) s₁ = some s') :
    l.countP (fun m => decide (m.client = i)) ≤ 2 * count.toNat ∧ s'.pc i ≠ .overflow := by
  obtain ⟨-, rfl⟩ := call_cases hcount
  have hstart : Left (2 * count.toNat) ((s.called i (.spinlockCount count)).pc i) := by
    simp only [called, goto, Function.update_self]
    exact left_countOn fun hlt => .cas hlt hmax (by omega)
  generalize s.called i (.spinlockCount count) = s₁ at hstart hrun
  -- the bound after each step
  generalize 2 * count.toNat = k at hstart ⊢
  induction l generalizing s₁ k with
  | nil =>
      cases hrun
      exact ⟨Nat.zero_le k, fun h => (by rw [h] at hstart; cases hstart)⟩
  | cons m l ih =>
      rw [List.foldlM_cons] at hrun
      obtain ⟨s₂, hs, hrun⟩ := Option.bind_eq_some_iff.mp hrun
      have hrest := fun k' hleft => ih (fun m hm => hcall m (List.mem_cons_of_mem _ hm)) s₂ hrun k' hleft
      by_cases hi : m.client = i
      · rw [List.countP_cons_of_pos (by simpa using hi)]
        cases m with
        | call j c =>
            obtain rfl : j = i := hi
            exact absurd rfl (hcall _ List.mem_cons_self c)
        | access j =>
            obtain rfl : j = i := hi
            obtain ⟨k', rfl, hleft⟩ := hstart.access hs
            exact (hrest k' hleft).imp_left Nat.succ_le_succ
      · rw [List.countP_cons_of_neg (by simpa using hi)]
        exact hrest k (hstart.other (Ne.symm hi) hs)

/-- Three tries on a word that another client keeps. -/
theorem count_bounded_kept : ∃ s s₁ s' : Spin Bool, s.call true (.spinlockCount 3) = some s₁ ∧
    (List.replicate 4 (.access true)).foldlM (step two) s₁ = some s' ∧ s'.pc true = .outside ∧
    (List.replicate 4 (.access true)).countP (fun m : Move Bool => decide (m.client = true)) ≤ 6 := by
  have hran : ((ran two [.call false .spinlock, .access false]).bind fun s => (s.call true (.spinlockCount 3)).bind fun s₁ =>
      ((List.replicate 4 (.access true)).foldlM (step two) s₁).map fun s' => s'.pc true) = some .outside := by decide
  obtain ⟨s, -, hran⟩ := Option.bind_eq_some_iff.mp hran
  obtain ⟨s₁, hs₁, hran⟩ := Option.bind_eq_some_iff.mp hran
  obtain ⟨s', hs', hpc⟩ := Option.map_eq_some_iff.mp hran
  have hcall : ∀ m ∈ List.replicate 4 (.access true), ∀ c, m ≠ Move.call true c := fun m hm c h => by
    rw [List.eq_of_mem_replicate hm] at h
    cases h
  exact ⟨s, s₁, s', hs₁, hs', hpc, (count_bounded (by decide) hs₁ hcall hs').1⟩

end Spin

end

end LibDrm.Lock
