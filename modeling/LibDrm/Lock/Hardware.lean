/-
# `LibDrm.Lock.Hardware` — the hardware lock

The word of the hardware lock has the context that holds it, or held it last, a bit for held
and a bit for contended.  A client takes and frees it without the kernel if it can:

    DRM_LIGHT_LOCK    context          to  HELD | context     else drmGetLock
    DRM_UNLOCK        HELD | context   to  context            else drmUnlock

and the kernel changes the same word in the two calls, each exchange and each answer being a step.

The kernel is a parameter.  What the macros rely on is `Documented`: it gives a free lock only,
marks the word before it lets a caller wait, and frees it for its holder alone.
-/
import LibDrm.Lock.Spin

namespace LibDrm.Lock

/-! ## The word -/

def DRM_LOCK_HELD : Word := 0x80000000
def DRM_LOCK_CONT : Word := 0x40000000

abbrev IsHeld (lock : Word) : Prop := lock &&& DRM_LOCK_HELD ≠ 0
abbrev IsCont (lock : Word) : Prop := lock &&& DRM_LOCK_CONT ≠ 0

def lockingContext (lock : Word) : Word := lock &&& ~~~(DRM_LOCK_HELD ||| DRM_LOCK_CONT)

theorem context_and {context bit : Word} (h : lockingContext context = context)
    (hbit : ~~~(DRM_LOCK_HELD ||| DRM_LOCK_CONT) &&& bit = 0) : context &&& bit = 0 := by
  rw [← h, lockingContext, BitVec.and_assoc, hbit]
  exact BitVec.and_zero

theorem context_held {context : Word} (h : lockingContext context = context) : ¬ IsHeld context :=
  not_not.mpr (context_and h (by decide))

theorem lockingContext_or (lock bit : Word) (hbit : lockingContext bit = 0) :
    lockingContext (lock ||| bit) = lockingContext lock := by
  unfold lockingContext at hbit ⊢
  rw [BitVec.and_or_distrib_right, hbit]
  exact BitVec.or_zero

theorem held_or {lock bit : Word} (hbit : bit &&& DRM_LOCK_HELD = 0) : IsHeld (lock ||| bit) ↔ IsHeld lock := by
  unfold IsHeld
  rw [BitVec.and_or_distrib_right, hbit]
  exact not_congr (by rw [show (0 : Word) = 0#32 from rfl, BitVec.or_zero])

theorem cont_or (lock : Word) : IsCont (lock ||| DRM_LOCK_CONT) := by
  intro h
  rw [BitVec.and_or_distrib_right, BitVec.and_self] at h
  exact absurd (BitVec.or_eq_zero_iff.mp h).2 (by decide)

/-- What the fast lock writes. -/
theorem taken_word {context : Word} (h : lockingContext context = context) :
    IsHeld (DRM_LOCK_HELD ||| context) ∧ ¬ IsCont (DRM_LOCK_HELD ||| context) ∧
      lockingContext (DRM_LOCK_HELD ||| context) = context := by
  rw [BitVec.or_comm]
  refine ⟨?_, ?_, (lockingContext_or _ _ (by decide)).trans h⟩
  · unfold IsHeld
    rw [BitVec.and_or_distrib_right, context_and h (by decide)]
    decide
  · unfold IsCont
    rw [BitVec.and_or_distrib_right, context_and h (by decide)]
    decide

/-! ## The kernel and the contexts -/

/-- What `DRM_IOCTL_LOCK` answers: also that the caller was put to sleep. -/
inductive Answer where
  | granted | asleep | failed

structure Kernel where
  /-- The word after an answer, if this can be the answer. -/
  getLock : Word → Word → Answer → Option Word
  /-- The word after `DRM_IOCTL_UNLOCK`, if it does not fail. -/
  unlock : Word → Word → Option Word

structure Kernel.Documented (k : Kernel) : Prop where
  granted {lock context lock' : Word} : k.getLock lock context .granted = some lock' →
    ¬ IsHeld lock ∧ IsHeld lock' ∧ lockingContext lock' = context
  asleep {lock context lock' : Word} : k.getLock lock context .asleep = some lock' → IsHeld lock ∧ lock' = lock ||| DRM_LOCK_CONT
  failed {lock context lock' : Word} : k.getLock lock context .failed = some lock' →
    lock' = lock ∨ IsHeld lock ∧ lock' = lock ||| DRM_LOCK_CONT
  freed {lock context lock' : Word} : k.unlock lock context = some lock' →
    IsHeld lock ∧ lockingContext lock = context ∧ ¬ IsHeld lock' ∧ lockingContext lock' = context
  refused {lock context : Word} : k.unlock lock context = none → ¬ (IsHeld lock ∧ lockingContext lock = context)

structure Contexts (ι : Type) where
  fast : Bool
  context : ι → Word
  clean : ∀ i, lockingContext (context i) = context i
  distinct : ∀ i j, context i = context j → i = j

/-! ## The steps -/

/-- Where a context stands. -/
inductive Stage where
  | outside
  | lightLock      -- before the exchange of `DRM_LIGHT_LOCK`
  | getLock        -- in `drmGetLock`, which asks until it has the lock
  | asleep
  | holding
  | unlockCas      -- before the exchange of `DRM_UNLOCK`
  | unlock         -- in `drmUnlock`
  deriving DecidableEq

/-- The word, the contexts, and the context that got the lock last. -/
structure Hardware (ι : Type) where
  lock : Word
  stage : ι → Stage
  last : Option ι

inductive Event (ι : Type) where
  | drmLock (i : ι) (flags : Nat)
  /-- a context may also unlock what it does not hold -/
  | drmUnlock (i : ι)
  | cas (i : ι)
  | ioctlLock (i : ι) (a : Answer)
  | interrupt (i : ι)
  | ioctlUnlock (i : ι)

section

variable {ι : Type} [DecidableEq ι]

namespace Hardware

def goto (s : Hardware ι) (i : ι) (stage : Stage) : Hardware ι := { s with stage := Function.update s.stage i stage }

def take (s : Hardware ι) (i : ι) (lock : Word) : Hardware ι where
  lock := lock
  stage := Function.update s.stage i .holding
  last := some i

/-- The kernel wakes everybody, and who was asleep asks again. -/
def wake (s : Hardware ι) : Hardware ι :=
  { s with stage := fun i => if s.stage i = .asleep then .getLock else s.stage i }

def step (k : Kernel) (C : Contexts ι) (s : Hardware ι) : Event ι → Option (Hardware ι)
  | .drmLock i flags =>
      if s.stage i = .outside then some (s.goto i (if flags ≠ 0 then .getLock else .lightLock)) else none
  | .drmUnlock i =>
      if s.stage i = .holding ∨ s.stage i = .outside then some (s.goto i .unlockCas) else none
  | .cas i =>
      let context := C.context i
      if s.stage i = .lightLock then
        let (lock, ret) := drmCas C.fast s.lock context (DRM_LOCK_HELD ||| context)
        some (if ret then s.goto i .getLock else s.take i lock)
      else if s.stage i = .unlockCas then
        let (lock, ret) := drmCas C.fast s.lock (DRM_LOCK_HELD ||| context) context
        some (if ret then s.goto i .unlock else { s.goto i .outside with lock := lock })
      else none
  | .ioctlLock i a =>
      if s.stage i = .getLock then
        (k.getLock s.lock (C.context i) a).map fun lock =>
          match a with
          | .granted => s.take i lock
          | .asleep => { s.goto i .asleep with lock := lock }
          | .failed => { s with lock := lock }
      else none
  | .interrupt i => if s.stage i = .asleep then some (s.goto i .getLock) else none
  | .ioctlUnlock i =>
      if s.stage i = .unlock then
        -- the macro does not look at the result
        match k.unlock s.lock (C.context i) with
        | some lock => some { s.wake.goto i .outside with lock := lock }
        | none => some (s.goto i .outside)
      else none

/-- No context has had the lock yet. -/
structure Init (C : Contexts ι) (s : Hardware ι) : Prop where
  free : ¬ IsHeld s.lock
  fresh : ∀ i, lockingContext s.lock ≠ C.context i
  stage : ∀ i, s.stage i = .outside
  last : s.last = none

abbrev Reached (k : Kernel) (C : Contexts ι) : Hardware ι → Prop := Runs (Init C) fun s s' => ∃ e, s.step k C e = some s'

/-! ## What every step keeps -/

variable {k : Kernel} {C : Contexts ι} {s s' : Hardware ι} {e : Event ι} {i j : ι}

/-- The context has the lock. -/
abbrev Owns (C : Contexts ι) (s : Hardware ι) (i : ι) : Prop := IsHeld s.lock ∧ lockingContext s.lock = C.context i

/-- Where a context is that has the lock. -/
abbrev Stage.owning (stage : Stage) : Prop := stage = .holding ∨ stage = .unlockCas ∨ stage = .unlock

structure Sound (C : Contexts ι) (s : Hardware ι) : Prop where
  holding : ∀ i, s.stage i = .holding → Owns C s i
  owner : IsHeld s.lock → ∃ i, Owns C s i ∧ Stage.owning (s.stage i)
  asleep : ∀ i, s.stage i = .asleep → IsHeld s.lock ∧ IsCont s.lock
  last : ∀ i, lockingContext s.lock = C.context i ↔ s.last = some i

omit [DecidableEq ι] in
theorem Init.sound (h : Init C s) : Sound C s where
  holding i hi := (by rw [h.stage i] at hi; cases hi)
  owner hheld := absurd hheld h.free
  asleep i hi := (by rw [h.stage i] at hi; cases hi)
  last i := ⟨fun hi => absurd hi (h.fresh i), fun hi => (by rw [h.last] at hi; cases hi)⟩

/-- The context goes on, and the lock does not change hands.  It goes to sleep on a marked word only. -/
theorem Sound.goto (h : Sound C s) {stage : Stage} (hholding : stage ≠ .holding)
    (hasleep : stage ≠ .asleep ∨ IsHeld s.lock ∧ IsCont s.lock)
    (howner : Stage.owning (s.stage i) → Owns C s i → Stage.owning stage) : Sound C (s.goto i stage) where
  holding j hj := by
    rcases update_cases hj with ⟨-, hj⟩ | ⟨-, hj⟩
    · exact absurd hj hholding
    · exact h.holding j hj
  owner hheld := by
    obtain ⟨j, howns, hstage⟩ := h.owner hheld
    refine ⟨j, howns, ?_⟩
    by_cases hij : j = i
    · subst hij
      simp only [Hardware.goto, Function.update_self]
      exact howner hstage howns
    · simp only [Hardware.goto, Function.update_of_ne hij]
      exact hstage
  asleep j hj := by
    rcases update_cases hj with ⟨-, hj⟩ | ⟨-, hj⟩
    · exact hasleep.resolve_left (not_not.mpr hj)
    · exact h.asleep j hj
  last := h.last

omit [DecidableEq ι] in
/-- The kernel marks the word of a held lock. -/
theorem Sound.marked (h : Sound C s) : Sound C { s with lock := s.lock ||| DRM_LOCK_CONT } := by
  have hheld : IsHeld (s.lock ||| DRM_LOCK_CONT) ↔ IsHeld s.lock := held_or (by decide)
  have hcontext : lockingContext (s.lock ||| DRM_LOCK_CONT) = lockingContext s.lock := lockingContext_or _ _ (by decide)
  constructor
  · intro i hi
    obtain ⟨hh, hc⟩ := h.holding i hi
    exact ⟨hheld.mpr hh, hcontext.trans hc⟩
  · intro hh
    obtain ⟨i, ⟨hh', hc⟩, hstage⟩ := h.owner (hheld.mp hh)
    exact ⟨i, ⟨hh, hcontext.trans hc⟩, hstage⟩
  · exact fun i hi => ⟨hheld.mpr (h.asleep i hi).1, cont_or _⟩
  · intro i
    rw [hcontext]
    exact h.last i

/-- The lock was free, and a context gets it. -/
theorem Sound.take (h : Sound C s) {lock : Word} (hfree : ¬ IsHeld s.lock) (hheld : IsHeld lock)
    (hcontext : lockingContext lock = C.context i) : Sound C (s.take i lock) where
  holding j hj := by
    rcases update_cases hj with ⟨rfl, -⟩ | ⟨-, hj⟩
    · exact ⟨hheld, hcontext⟩
    · exact absurd (h.holding j hj).1 hfree
  owner _ := ⟨i, ⟨hheld, hcontext⟩, .inl (Function.update_self ..)⟩
  asleep j hj := by
    rcases update_cases hj with ⟨-, hj⟩ | ⟨-, hj⟩
    · cases hj
    · exact absurd (h.asleep j hj).1 hfree
  last j := by
    show lockingContext lock = C.context j ↔ some i = some j
    rw [hcontext]
    exact ⟨fun hj => congrArg some (C.distinct _ _ hj), fun hj => congrArg C.context (Option.some.inj hj)⟩

omit [DecidableEq ι] in
/-- A context frees its lock.  Nobody sleeps on it. -/
theorem Sound.free (h : Sound C s) {lock : Word} (howns : Owns C s i) (hfree : ¬ IsHeld lock)
    (hcontext : lockingContext lock = C.context i) (hnone : ∀ j, s.stage j ≠ .asleep) (hi : s.stage i ≠ .holding) :
    Sound C { s with lock := lock } where
  holding j hj := by
    have hij : i = j := C.distinct _ _ (howns.2.symm.trans (h.holding j hj).2)
    exact absurd (hij ▸ hj) hi
  owner hheld := absurd hheld hfree
  asleep j hj := absurd hj (hnone j)
  last j := by
    show lockingContext lock = C.context j ↔ s.last = some j
    rw [hcontext, ← howns.2]
    exact h.last j

omit [DecidableEq ι] in
theorem wake_stage (s : Hardware ι) (j : ι) : s.wake.stage j = .getLock ∧ s.stage j = .asleep ∨
    s.wake.stage j = s.stage j ∧ s.stage j ≠ .asleep := by
  unfold wake
  dsimp only
  split
  · next h => exact .inl ⟨rfl, h⟩
  · next h => exact .inr ⟨rfl, h⟩

omit [DecidableEq ι] in
theorem Sound.wake (h : Sound C s) : Sound C s.wake where
  holding i hi := by
    rcases wake_stage s i with ⟨hstage, -⟩ | ⟨hstage, -⟩
    · cases hstage.symm.trans hi
    · exact h.holding i (hstage.symm.trans hi)
  owner hheld := by
    obtain ⟨i, howns, hi⟩ := h.owner hheld
    refine ⟨i, howns, ?_⟩
    rcases wake_stage s i with ⟨-, hasleep⟩ | ⟨hstage, -⟩
    · rw [hasleep] at hi
      exact absurd hi (by decide)
    · rw [hstage]
      exact hi
  asleep i hi := by
    rcases wake_stage s i with ⟨hstage, -⟩ | ⟨hstage, hne⟩
    · cases hstage.symm.trans hi
    · exact absurd (hstage.symm.trans hi) hne
  last := h.last

/-- The word of a context is held by nobody, and contended for by nobody. -/
theorem lock_eq_iff (context lock : Word) (h : lockingContext context = context) :
    lock = context ↔ lockingContext lock = context ∧ ¬ IsHeld lock ∧ ¬ IsCont lock := by
  constructor
  · rintro rfl
    exact ⟨h, context_held h, not_not.mpr (context_and h (by decide))⟩
  · rintro ⟨hcontext, hheld, hcont⟩
    have hbits : lock &&& (DRM_LOCK_HELD ||| DRM_LOCK_CONT) = 0 := by
      rw [BitVec.and_or_distrib_left, not_not.mp hheld, not_not.mp hcont]
      exact BitVec.or_zero
    rw [← hcontext, lockingContext]
    ext n hn
    have hbit : (lock[n] && (DRM_LOCK_HELD ||| DRM_LOCK_CONT)[n]) = false := by
      rw [← BitVec.getElem_and, hbits]
      exact BitVec.getElem_zero hn
    rw [BitVec.getElem_and, BitVec.getElem_not]
    generalize (DRM_LOCK_HELD ||| DRM_LOCK_CONT)[n] = bit at hbit ⊢
    cases bit with
    | false => rw [Bool.not_false, Bool.and_true]
    | true =>
        rw [Bool.and_true] at hbit
        rw [hbit, Bool.false_and]

theorem Sound.step (hk : k.Documented) (h : Sound C s) (hs : s.step k C e = some s') : Sound C s' := by
  cases e with
  | drmLock i flags =>
      simp only [Hardware.step, Option.ite_none_right_eq_some, Option.some.injEq] at hs
      obtain ⟨hi, rfl⟩ := hs
      refine h.goto ?_ (.inl ?_) fun hstage => ?_
      · split <;> decide
      · split <;> decide
      · rw [hi] at hstage
        exact absurd hstage (by decide)
  | drmUnlock i =>
      simp only [Hardware.step, Option.ite_none_right_eq_some, Option.some.injEq] at hs
      obtain ⟨-, rfl⟩ := hs
      exact h.goto (by decide) (.inl (by decide)) fun _ _ => .inr (.inl rfl)
  | cas i =>
      simp only [Hardware.step] at hs
      split at hs
      · next hi =>
          have hnot : ¬ Stage.owning (s.stage i) := by rw [hi]; decide
          rcases drmCas_cases C.fast s.lock (C.context i) (DRM_LOCK_HELD ||| C.context i) with ⟨hlock, -, hcas⟩ | hfail
          · rw [hcas] at hs
            obtain rfl := Option.some.inj hs
            obtain ⟨hheld, -, hcontext⟩ := taken_word (C.clean i)
            exact h.take (by rw [hlock]; exact context_held (C.clean i)) hheld hcontext
          · rw [hfail] at hs
            obtain rfl := Option.some.inj hs
            exact h.goto (by decide) (.inl (by decide)) fun hstage => absurd hstage hnot
      · split at hs
        · next hi =>
            obtain ⟨hheld, hcont, hcontext⟩ := taken_word (C.clean i)
            rcases drmCas_cases C.fast s.lock (DRM_LOCK_HELD ||| C.context i) (C.context i) with ⟨hlock, -, hcas⟩ | hfail
            · rw [hcas] at hs
              obtain rfl := Option.some.inj hs
              -- a context that sleeps would have marked the word
              have hnone : ∀ j, s.stage j ≠ .asleep := fun j hj => hcont (hlock ▸ (h.asleep j hj).2)
              have howns : Owns C s i := by
                rw [Owns, hlock]
                exact ⟨hheld, hcontext⟩
              have hfree : ¬ IsHeld (C.context i) := context_held (C.clean i)
              exact (h.free howns hfree (C.clean i) hnone (by rw [hi]; decide)).goto (by decide) (.inl (by decide))
                fun _ howns => absurd howns.1 hfree
            · rw [hfail] at hs
              obtain rfl := Option.some.inj hs
              exact h.goto (by decide) (.inl (by decide)) fun _ _ => .inr (.inr rfl)
        · cases hs
  | ioctlLock i a =>
      simp only [Hardware.step, Option.ite_none_right_eq_some, Option.map_eq_some_iff] at hs
      obtain ⟨hi, lock, hlock, rfl⟩ := hs
      cases a with
      | granted =>
          obtain ⟨hfree, hheld, hcontext⟩ := hk.granted hlock
          exact h.take hfree hheld hcontext
      | asleep =>
          obtain ⟨hheld, rfl⟩ := hk.asleep hlock
          exact h.marked.goto (by decide) (.inr ⟨(held_or (by decide)).mpr hheld, cont_or _⟩) fun hstage _ =>
            absurd hstage (by show ¬ Stage.owning (s.stage i); rw [hi]; decide)
      | failed =>
          rcases hk.failed hlock with rfl | ⟨-, rfl⟩
          · exact h
          · exact h.marked
  | interrupt i =>
      simp only [Hardware.step, Option.ite_none_right_eq_some, Option.some.injEq] at hs
      obtain ⟨hi, rfl⟩ := hs
      refine h.goto (by decide) (.inl (by decide)) fun hstage => ?_
      rw [hi] at hstage
      exact absurd hstage (by decide)
  | ioctlUnlock i =>
      simp only [Hardware.step, Option.ite_none_right_eq_some] at hs
      obtain ⟨hi, hs⟩ := hs
      cases hlock : k.unlock s.lock (C.context i) with
      | none =>
          rw [hlock] at hs
          obtain rfl := Option.some.inj hs
          exact h.goto (by decide) (.inl (by decide)) fun _ howns => absurd howns (hk.refused hlock)
      | some lock =>
          rw [hlock] at hs
          obtain rfl := Option.some.inj hs
          obtain ⟨hheld, hcontext, hfree, hcontext'⟩ := hk.freed hlock
          have hnone : ∀ j, s.wake.stage j ≠ .asleep := fun j hj => by
            rcases wake_stage s j with ⟨hstage, -⟩ | ⟨hstage, hne⟩
            · cases hstage.symm.trans hj
            · exact hne (hstage.symm.trans hj)
          have hstage : s.wake.stage i ≠ .holding := fun hj => by
            rcases wake_stage s i with ⟨hstage, -⟩ | ⟨hstage, -⟩
            · cases hstage.symm.trans hj
            · cases hi.symm.trans (hstage.symm.trans hj)
          exact (h.wake.free ⟨hheld, hcontext⟩ hfree hcontext' hnone hstage).goto (by decide) (.inl (by decide))
            fun _ howns => absurd howns.1 hfree

theorem Reached.sound (hk : k.Documented) (h : Reached k C s) : Sound C s :=
  h.induct (fun _ h => h.sound) fun _ _ h ⟨_, hs⟩ => h.step hk hs

/-! ## A kernel -/

/-- A kernel that keeps to it, and marks the word only for a caller that waits. -/
def plainKernel : Kernel where
  getLock lock context
    | .granted => if ¬ IsHeld lock ∧ lockingContext context = context then some (DRM_LOCK_HELD ||| context) else none
    | .asleep => if IsHeld lock then some (lock ||| DRM_LOCK_CONT) else none
    | .failed => some lock
  unlock lock context := if IsHeld lock ∧ lockingContext lock = context then some context else none

theorem plainKernel_documented : plainKernel.Documented where
  granted h := by
    simp only [plainKernel, Option.ite_none_right_eq_some] at h
    obtain ⟨⟨hfree, hclean⟩, h⟩ := h
    obtain rfl := Option.some.inj h
    obtain ⟨hheld, -, hcontext⟩ := taken_word hclean
    exact ⟨hfree, hheld, hcontext⟩
  asleep h := by
    simp only [plainKernel, Option.ite_none_right_eq_some] at h
    exact ⟨h.1, (Option.some.inj h.2).symm⟩
  failed h := .inl (Option.some.inj h).symm
  freed {lock context _} h := by
    simp only [plainKernel, Option.ite_none_right_eq_some] at h
    obtain ⟨⟨hheld, hcontext⟩, h⟩ := h
    obtain rfl := Option.some.inj h
    have hclean : lockingContext context = context := by
      rw [← hcontext, lockingContext, lockingContext, BitVec.and_assoc, BitVec.and_self]
    exact ⟨hheld, hcontext, context_held hclean, hclean⟩
  refused h := by
    simpa only [plainKernel, ite_eq_right_iff, reduceCtorEq, imp_false] using h

/-- `lock1` and `lock2` of `tests/lock.c`. -/
def pair : Contexts Bool where
  fast := true
  context i := if i then 0x1111 else 0x2222
  clean := by decide
  distinct := by decide

def ran (l : List (Event Bool)) : Option (Hardware Bool) := l.foldlM (step plainKernel pair) ⟨0, fun _ => .outside, none⟩

theorem ran_reached {l : List (Event Bool)} {s : Hardware Bool} (h : ran l = some s) : Reached plainKernel pair s :=
  Runs.foldlM (fun _ e _ _ hs => ⟨e, hs⟩) (.init ⟨by decide, by decide, fun _ => rfl, rfl⟩) h

/-- The first context has the lock, and the second waits for it. -/
def contention : List (Event Bool) :=
  [.drmLock true 1, .ioctlLock true .granted, .drmLock false 0, .cas false, .ioctlLock false .asleep]

/-! ## Results -/

/-- A step of another context leaves a sleeper asleep. -/
theorem update_asleep {stage : Stage} (hi : s.stage i = .asleep) (hj : s.stage j ≠ .asleep) :
    Function.update s.stage j stage i = .asleep :=
  (Function.update_of_ne (fun hij => hj (by rw [← hij]; exact hi)) _ _).trans hi

/-- A sleeper sleeps on, or asks again. -/
theorem asleep_step (hi : s.stage i = .asleep) (hs : s.step k C e = some s') : s'.stage i = .asleep ∨ s'.stage i = .getLock := by
  cases e with
  | drmLock j =>
      simp only [Hardware.step, Option.ite_none_right_eq_some, Option.some.injEq] at hs
      obtain ⟨hj, rfl⟩ := hs
      exact .inl (update_asleep hi (by rw [hj]; decide))
  | drmUnlock j =>
      simp only [Hardware.step, Option.ite_none_right_eq_some, Option.some.injEq] at hs
      obtain ⟨hj, rfl⟩ := hs
      exact .inl (update_asleep hi (by rcases hj with hj | hj <;> rw [hj] <;> decide))
  | cas j =>
      simp only [Hardware.step] at hs
      split at hs
      · next hj =>
          obtain rfl := Option.some.inj hs
          split <;> exact .inl (update_asleep hi (by rw [hj]; decide))
      · split at hs
        · next hj =>
            obtain rfl := Option.some.inj hs
            split <;> exact .inl (update_asleep hi (by rw [hj]; decide))
        · cases hs
  | ioctlLock j a =>
      simp only [Hardware.step, Option.ite_none_right_eq_some, Option.map_eq_some_iff] at hs
      obtain ⟨hj, lock, -, rfl⟩ := hs
      cases a with
      | granted | asleep => exact .inl (update_asleep hi (by rw [hj]; decide))
      | failed => exact .inl hi
  | interrupt j =>
      simp only [Hardware.step, Option.ite_none_right_eq_some, Option.some.injEq] at hs
      obtain ⟨-, rfl⟩ := hs
      by_cases hij : i = j
      · rw [hij]
        exact .inr (Function.update_self ..)
      · exact .inl ((Function.update_of_ne hij _ _).trans hi)
  | ioctlUnlock j =>
      simp only [Hardware.step, Option.ite_none_right_eq_some] at hs
      obtain ⟨hj, hs⟩ := hs
      have hij : i ≠ j := fun hij => (by rw [hij, hj] at hi; cases hi)
      split at hs
      · obtain rfl := Option.some.inj hs
        simp only [goto, Function.update_of_ne hij]
        exact .inr (if_pos hi)
      · obtain rfl := Option.some.inj hs
        exact .inl ((Function.update_of_ne hij _ _).trans hi)

/-- One context at most is between `DRM_LOCK` and `DRM_UNLOCK`, and the lock is held exactly while there is a context
    to free it. -/
theorem hardware_exclusive (hk : k.Documented) (h : Reached k C s) :
    (∀ i j, s.stage i = .holding → s.stage j = .holding → i = j) ∧
      (IsHeld s.lock ↔ ∃ i, Owns C s i ∧ Stage.owning (s.stage i)) := by
  have hs := h.sound hk
  refine ⟨fun i j hi hj => ?_, hs.owner, fun ⟨_, howns, _⟩ => howns.1⟩
  exact C.distinct i j ((hs.holding i hi).2.symm.trans (hs.holding j hj).2)

theorem hardware_exclusive_contention : ∃ s, Reached plainKernel pair s ∧ s.stage true = .holding ∧
    ∀ i, s.stage i = .holding → i = true := by
  have hran : ((ran contention).map fun s => s.stage true) = some .holding := by decide
  obtain ⟨s, hs, htrue⟩ := Option.map_eq_some_iff.mp hran
  exact ⟨s, ran_reached hs, htrue, fun i hi =>
    (hardware_exclusive plainKernel_documented (ran_reached hs)).1 i true hi htrue⟩

/-- While a context sleeps for the lock, another has it, and whatever step frees the lock wakes the sleeper. -/
theorem no_lost_wakeup (hk : k.Documented) (h : Reached k C s) (hi : s.stage i = .asleep) :
    (∃ j, j ≠ i ∧ Owns C s j ∧ Stage.owning (s.stage j)) ∧
      ∀ e s', s.step k C e = some s' → ¬ IsHeld s'.lock → s'.stage i = .getLock := by
  have hs := h.sound hk
  obtain ⟨hheld, hcont⟩ := hs.asleep i hi
  obtain ⟨j, howns, hstage⟩ := hs.owner hheld
  refine ⟨⟨j, ?_, howns, hstage⟩, fun e s' hstep hfree => ?_⟩
  · rintro rfl
    rw [hi] at hstage
    exact absurd hstage (by decide)
  · have hs' : Sound C s' := hs.step hk hstep
    exact (asleep_step hi hstep).resolve_left fun hasleep => hfree (hs'.asleep i hasleep).1

theorem no_lost_wakeup_contention : ∃ s, Reached plainKernel pair s ∧ s.stage false = .asleep ∧
    ∀ e s', s.step plainKernel pair e = some s' → ¬ IsHeld s'.lock → s'.stage false = .getLock := by
  have hran : ((ran contention).map fun s => s.stage false) = some .asleep := by decide
  obtain ⟨s, hs, hasleep⟩ := Option.map_eq_some_iff.mp hran
  exact ⟨s, ran_reached hs, hasleep, (no_lost_wakeup plainKernel_documented (ran_reached hs) hasleep).2⟩

/-- The fast lock succeeds exactly if the lock is free and nobody but the context itself had it last. -/
theorem light_lock_iff (hk : k.Documented) (h : Reached k C s) (hi : s.stage i = .lightLock)
    (hs : s.step k C (.cas i) = some s') : s'.stage i = .holding ↔
      C.fast = true ∧ s.last = some i ∧ ¬ IsHeld s.lock ∧ ¬ IsCont s.lock := by
  rw [← (h.sound hk).last i, ← lock_eq_iff _ _ (C.clean i)]
  simp only [Hardware.step, if_pos hi] at hs
  unfold drmCas at hs
  split at hs
  · next hcas =>
      obtain rfl := Option.some.inj hs
      exact ⟨fun _ => hcas, fun _ => Function.update_self ..⟩
  · next hcas =>
      obtain rfl := Option.some.inj hs
      exact ⟨fun hgot => (by cases (Function.update_self ..).symm.trans hgot), fun hfree => absurd hfree hcas⟩

/-- The second lock of a context that had it last. -/
theorem light_lock_iff_again : ∃ s s', Reached plainKernel pair s ∧ s.step plainKernel pair (.cas true) = some s' ∧
    s'.stage true = .holding ∧ s.last = some true := by
  have hran : ((ran [.drmLock true 1, .ioctlLock true .granted, .drmUnlock true, .cas true, .drmLock true 0]).bind fun s =>
      (s.step plainKernel pair (.cas true)).map fun s' => (s.stage true, s'.stage true)) = some (.lightLock, .holding) := by
    decide
  obtain ⟨s, hs, hran⟩ := Option.bind_eq_some_iff.mp hran
  obtain ⟨s', hs', hshown⟩ := Option.map_eq_some_iff.mp hran
  obtain ⟨hi, hgot⟩ := Prod.mk.inj hshown
  have hlast := (light_lock_iff plainKernel_documented (ran_reached hs) hi hs').mp hgot
  exact ⟨s, s', ran_reached hs, hs', hgot, hlast.2.1⟩

end Hardware

end

end LibDrm.Lock
