/-
# `LibDrm.Nouveau.Records` — the chain of records of a deferred push buffer

A push buffer without a channel keeps its records until it is kicked or deleted:

    pushbuf_new      the first record comes from `calloc`: its `next` is NULL
    pushbuf_flush    the next one comes from `malloc`: its `next` is not written
    pushbuf_submit   follows `next` up to the first record without segments, or one that the kernel rejects
    pushbuf_del      follows `next` up to NULL

So the chain always leads from `list` to the current record, but what is behind that is garbage after a
flush.  `deferred_records` says along which runs no such pointer is read and a kick submits everything.

What is put into the current record between the calls is arbitrary.
-/
import LibDrm.Lib.Along
import LibDrm.Nouveau.Pushbuf

namespace LibDrm.Nouveau.Records

open Push (Krec PushId Client BoId Word)

abbrev RecId := Nat

/-- What the `next` of a record holds. -/
inductive Next
  | uninitialised
  | null
  | ptr (k : RecId)
  deriving DecidableEq, Repr

structure Rec where
  krec : Krec
  next : Next

/-- Of `struct nouveau_pushbuf_priv`, the records; `flushes` counts the flushes (no data of the source). -/
structure State where
  recs : RecId → Option Rec
  fresh : RecId
  list : RecId
  krec : RecId
  flushes : Nat := 0

inductive Fault
  | badPointer
  | uninitialised
  | fuel
  deriving DecidableEq, Repr

def State.setRec (k : RecId) (r : Rec) (s : State) : State := { s with recs := Function.update s.recs k (some r) }

/-- `nouveau_pushbuf_new`. -/
def new : State where
  recs := Function.update (fun _ => none) 0 (some { krec := {}, next := .null })
  fresh := 1
  list := 0
  krec := 0

/-- What is recorded goes to the current record. -/
def record (krec : Krec) (s : State) : Option State :=
  (s.recs s.krec).map fun r => s.setRec s.krec { r with krec }

/-- `pushbuf_flush`; `krec` is the record after `nouveau_pushbuf_data`.  The `malloc` of the next record is taken to
    succeed: the code does not ask. -/
def flush (krec : Krec) (s : State) : Option State := do
  let s ← record krec s
  let r ← s.recs s.krec
  let k := s.fresh
  let s := s.setRec s.krec { r with next := .ptr k }
  return { s.setRec k { krec := {}, next := .uninitialised } with fresh := k + 1, krec := k, flushes := s.flushes + 1 }

/-- The loop of `pushbuf_submit`: what the kernel is given, and how the loop fails.  `answers` is what the kernel returns. -/
def submitLoop (answers : Nat → Int) (s : State) : Nat → Next → Nat → List Krec × Option Fault
  | _, .uninitialised, _ => ([], some .uninitialised)
  | _, .null, _ => ([], none)
  | 0, .ptr _, _ => ([], some .fuel)
  | n + 1, .ptr k, i =>
      match s.recs k with
      | none => ([], some .badPointer)
      | some r =>
          if r.krec.push = [] then ([], none)
          else if answers i ≠ 0 then ([r.krec], none)
          else
            let (sent, fault) := submitLoop answers s n r.next (i + 1)
            (r.krec :: sent, fault)

/-- `pushbuf_submit`; there are no more rounds than records. -/
def submit (answers : Nat → Int) (s : State) : List Krec × Option Fault := submitLoop answers s s.fresh (.ptr s.list) 0

/-- The loop of `nouveau_pushbuf_del`: the records that it frees. -/
def delLoop : Nat → Next → State → List RecId × Option Fault
  | _, .uninitialised, _ => ([], some .uninitialised)
  | _, .null, _ => ([], none)
  | 0, .ptr _, _ => ([], some .fuel)
  | n + 1, .ptr k, s =>
      match s.recs k with
      | none => ([], some .badPointer)
      | some r =>
          let (freed, fault) := delLoop n r.next { s with recs := Function.update s.recs k none }
          (k :: freed, fault)

def del (s : State) : List RecId × Option Fault := delLoop s.fresh (.ptr s.list) s

/-! ## Runs -/

inductive Op
  | record (krec : Krec)
  | flush (krec : Krec)
  | kick (krec : Krec) (answers : Nat → Int)
  | del

/-- The state after a call that does not fail; there is none after the deletion. -/
def Op.step (s : State) : Op → Option State
  | .record krec => Records.record krec s
  | .flush krec => Records.flush krec s
  | .kick krec answers => (Records.record krec s).bind fun s => if (submit answers s).2 = none then some s else none
  | .del => none

/-! ## Chains -/

variable {s s' : State} {k k' : RecId} {ids : List RecId} {r : Rec} {krec : Krec} {l : List Krec} {answers : Nat → Int} {i n : Nat}

/-- From `k` the records `ids` lead to the record `last`, and hold `l`. -/
inductive Path (s : State) (last : RecId) : RecId → List RecId → List Krec → Prop
  | last {r : Rec} (hr : s.recs last = some r) : Path s last last [last] [r.krec]
  | next {k k' : RecId} {r : Rec} {ids : List RecId} {l : List Krec} (hr : s.recs k = some r) (hnext : r.next = .ptr k')
      (h : Path s last k' ids l) : Path s last k (k :: ids) (r.krec :: l)

/-- The chain from `list` leads to the current record, and nowhere else. -/
structure Chained (s : State) (ids : List RecId) (l : List Krec) : Prop where
  path : Path s s.krec s.list ids l
  nodup : ids.Nodup
  fresh : ∀ k, s.fresh ≤ k → s.recs k = none
  last : ∃ r, s.recs s.krec = some r ∧ r.next = if s.flushes = 0 then .null else .uninitialised

/-- There is something in the record for the kernel to do. -/
def queued (krec : Krec) : Bool := decide (krec.push ≠ [])

/-- What is given to the kernel of a list of records. -/
def sent (answers : Nat → Int) : Nat → List Krec → List Krec
  | _, [] => []
  | i, krec :: l =>
      if krec.push = [] then []
      else if answers i ≠ 0 then [krec]
      else krec :: sent answers (i + 1) l

/-- All of it has something queued, and is accepted. -/
def Through (answers : Nat → Int) (i : Nat) (l : List Krec) : Prop :=
  ∀ j, ∀ hj : j < l.length, l[j].push ≠ [] ∧ answers (i + j) = 0

theorem through_nil : Through answers i [] := nofun

theorem through_cons : Through answers i (krec :: l) ↔ (krec.push ≠ [] ∧ answers i = 0) ∧ Through answers (i + 1) l := by
  constructor
  · intro h
    refine ⟨h 0 (Nat.succ_pos _), fun j hj => ?_⟩
    have hj' := h (j + 1) (Nat.succ_lt_succ hj)
    rwa [List.getElem_cons_succ, Nat.add_comm j, ← Nat.add_assoc] at hj'
  · rintro ⟨h₀, h⟩ j hj
    cases j with
    | zero => exact h₀
    | succ j =>
        have hj' := h j (Nat.lt_of_succ_lt_succ hj)
        rwa [Nat.add_assoc, Nat.add_comm 1] at hj'

/-- Whatever has something queued comes only after what has, too, and is accepted. -/
def InTurn (answers : Nat → Int) (i : Nat) (l : List Krec) : Prop :=
  ∀ j, ∀ hj : j < l.length, l[j].push ≠ [] → Through answers i (l.take j)

theorem inTurn_cons : InTurn answers i (krec :: l) ↔
    ∀ j, ∀ hj : j < l.length, l[j].push ≠ [] → (krec.push ≠ [] ∧ answers i = 0) ∧ Through answers (i + 1) (l.take j) := by
  constructor
  · intro h j hj hqueued
    have hj' := h (j + 1) (Nat.succ_lt_succ hj) hqueued
    rwa [List.take_succ_cons, through_cons] at hj'
  · intro h j hj hqueued
    cases j with
    | zero => exact through_nil
    | succ j =>
        rw [List.take_succ_cons, through_cons]
        exact h j (Nat.lt_of_succ_lt_succ hj) hqueued

theorem filter_queued_nil : l.filter queued = [] ↔ ∀ j, ∀ hj : j < l.length, ¬ l[j].push ≠ [] := by
  rw [List.filter_eq_nil_iff]
  constructor
  · exact fun h j hj => by simpa [queued] using h l[j] (List.getElem_mem hj)
  · intro h krec hkrec
    obtain ⟨j, hj, rfl⟩ := List.getElem_of_mem hkrec
    simpa [queued] using h j hj

/-- Everything that is queued is sent exactly if it is in turn. -/
theorem sent_eq_filter (answers : Nat → Int) (l : List Krec) : ∀ i, sent answers i l = l.filter queued ↔ InTurn answers i l := by
  induction l with
  | nil => exact fun i => ⟨fun _ => nofun, fun _ => rfl⟩
  | cons krec l ih =>
      intro i
      rw [inTurn_cons, sent]
      by_cases hempty : krec.push = []
      · have hfilter : (krec :: l).filter queued = l.filter queued := List.filter_cons_of_neg (by simp [queued, hempty])
        rw [if_pos hempty, hfilter, eq_comm, filter_queued_nil]
        exact forall₂_congr fun j hj => ⟨fun h h' => absurd h' h, fun h h' => absurd hempty (h h').1.1⟩
      · have hfilter : (krec :: l).filter queued = krec :: l.filter queued := List.filter_cons_of_pos (by simp [queued, hempty])
        rw [if_neg hempty, hfilter]
        by_cases hanswer : answers i = 0
        · rw [if_neg (not_not.mpr hanswer), List.cons_inj_right, ih (i + 1)]
          exact forall₃_congr fun j hj _ => ⟨fun h => ⟨⟨hempty, hanswer⟩, h⟩, fun h => h.2⟩
        · rw [if_pos hanswer, List.cons_inj_right, eq_comm, filter_queued_nil]
          exact forall₂_congr fun j hj => ⟨fun h h' => absurd h' h, fun h h' => absurd (h h').1.2 hanswer⟩

/-! ## What the loops come to -/

namespace Path

variable {last : RecId}

theorem isSome (h : Path s last k ids l) : ∀ x ∈ ids, (s.recs x).isSome := by
  induction h with
  | last hr => simp [hr]
  | next hr _ _ ih => simpa [hr] using ih

theorem congr (h : Path s last k ids l) (hs : ∀ x ∈ ids, s'.recs x = s.recs x) : Path s' last k ids l := by
  induction h with
  | last hr => exact .last ((hs last List.mem_cons_self).trans hr)
  | next hr hnext _ ih =>
      exact .next ((hs _ List.mem_cons_self).trans hr) hnext (ih fun x hx => hs x (List.mem_cons_of_mem _ hx))

theorem mem_last (h : Path s last k ids l) : last ∈ ids := by
  induction h with
  | last => exact List.mem_cons_self
  | next _ _ _ ih => exact List.mem_cons_of_mem _ ih

/-- The last record leads nowhere, so the path is determined. -/
theorem unique {ids' : List RecId} {l' : List Krec} (h : Path s last k ids l) (h' : Path s last k ids' l')
    (hlast : ∀ r, s.recs last = some r → ∀ k, r.next ≠ .ptr k) : ids = ids' ∧ l = l' := by
  induction h generalizing ids' l' with
  | last hr =>
      cases h' with
      | last hr' =>
          cases hr.symm.trans hr'
          exact ⟨rfl, rfl⟩
      | next hr' hnext _ => exact absurd hnext (hlast _ hr' _)
  | next hr hnext _ ih =>
      cases h' with
      | last hr' => exact absurd hnext (hlast _ hr _)
      | next hr' hnext' h' =>
          cases hr.symm.trans hr'
          cases hnext.symm.trans hnext'
          obtain ⟨rfl, rfl⟩ := ih h'
          exact ⟨rfl, rfl⟩

/-- The last record is another. -/
theorem setLast (h : Path s last k ids l) (hnodup : ids.Nodup) {r : Rec} (hlast : s'.recs last = some r)
    (hothers : ∀ x ∈ ids, x ≠ last → s'.recs x = s.recs x) : Path s' last k ids (l.dropLast ++ [r.krec]) := by
  induction h with
  | last hr => exact .last hlast
  | @next k k' r' ids l hr hnext h ih =>
      obtain ⟨hk, hnodup⟩ := List.nodup_cons.mp hnodup
      have hne : k ≠ last := fun e => hk (e ▸ h.mem_last)
      have hl : l ≠ [] := by
        rintro rfl
        cases h
      rw [List.dropLast_cons_of_ne_nil hl, List.cons_append]
      exact .next ((hothers k List.mem_cons_self hne).trans hr) hnext
        (ih hnodup fun x hx => hothers x (List.mem_cons_of_mem k hx))

/-- Another record comes behind the last. -/
theorem snoc (h : Path s last k ids l) (hnodup : ids.Nodup) {r new : Rec} (hlast : s.recs last = some r) (hnext : r.next = .ptr k')
    (hk' : s.recs k' = some new) : Path s k' k (ids ++ [k']) (l ++ [new.krec]) := by
  induction h with
  | last hr =>
      cases hr.symm.trans hlast
      exact .next hr hnext (.last hk')
  | next hr hnext' _ ih => exact .next hr hnext' (ih (List.nodup_cons.mp hnodup).2)

theorem submit (h : Path s last k ids l) (hlast : s.recs last = some r) (hnext : ∀ k, r.next ≠ .ptr k) (hn : ids.length ≤ n) :
    (submitLoop answers s n (.ptr k) i).1 = sent answers i l ∧
      ((submitLoop answers s n (.ptr k) i).2 = none ↔ ¬ (Through answers i l ∧ r.next = .uninitialised)) := by
  induction h generalizing n i with
  | last hr =>
      cases hr.symm.trans hlast
      obtain ⟨n, rfl⟩ := Nat.exists_eq_succ_of_ne_zero (Nat.ne_zero_of_lt hn)
      simp only [submitLoop, hr, sent, through_cons]
      by_cases hempty : r.krec.push = []
      · simp [hempty]
      · by_cases hanswer : answers i = 0
        · cases hx : r.next with
          | uninitialised => simp [hempty, hanswer, submitLoop, through_nil]
          | null => simp [hempty, hanswer, submitLoop]
          | ptr k => exact absurd hx (hnext k)
        · simp [hempty, hanswer]
  | @next k k' r' ids l hr hnext' _ ih =>
      obtain ⟨n, rfl⟩ := Nat.exists_eq_succ_of_ne_zero (Nat.ne_zero_of_lt hn)
      obtain ⟨ih₁, ih₂⟩ := @ih (i + 1) n (Nat.le_of_succ_le_succ hn)
      simp only [submitLoop, hr, sent, through_cons]
      by_cases hempty : r'.krec.push = []
      · simp [hempty]
      · by_cases hanswer : answers i = 0
        · rw [if_neg hempty, if_neg (not_not.mpr hanswer), if_neg hempty, if_neg (not_not.mpr hanswer), hnext']
          refine ⟨congrArg (r'.krec :: ·) ih₁, ih₂.trans ?_⟩
          simp [hempty, hanswer]
        · simp [hempty, hanswer]

theorem del (h : Path s last k ids l) (hnodup : ids.Nodup) (hlast : s.recs last = some r) (hnext : ∀ k, r.next ≠ .ptr k)
    (hn : ids.length ≤ n) :
    (delLoop n (.ptr k) s).1 = ids ∧ ((delLoop n (.ptr k) s).2 = none ↔ r.next ≠ .uninitialised) := by
  induction ids generalizing s k l n with
  | nil => cases h
  | cons x ids ih =>
      obtain ⟨n, rfl⟩ := Nat.exists_eq_succ_of_ne_zero (Nat.ne_zero_of_lt hn)
      obtain ⟨hx, hnodup⟩ := List.nodup_cons.mp hnodup
      cases h with
      | last hr =>
          cases hr.symm.trans hlast
          cases hnx : r.next with
          | uninitialised => simp [delLoop, hr, hnx]
          | null => simp [delLoop, hr, hnx]
          | ptr k => exact absurd hnx (hnext k)
      | @next _ k' r' _ l hr hnext' h =>
          have hne : last ≠ x := fun e => hx (e ▸ h.mem_last)
          have h' : Path { s with recs := Function.update s.recs x none } last k' ids l :=
            h.congr fun y hy => Function.update_of_ne (ne_of_mem_of_not_mem hy hx) ..
          obtain ⟨ih₁, ih₂⟩ := ih h' hnodup ((Function.update_of_ne hne ..).trans hlast) (Nat.le_of_succ_le_succ hn)
          simp only [delLoop, hr, hnext']
          exact ⟨congrArg (x :: ·) ih₁, ih₂⟩

end Path

/-! ## What the calls do to the chain -/

theorem Chained.ends (h : Chained s ids l) {r : Rec} (hr : s.recs s.krec = some r) (k : RecId) : r.next ≠ .ptr k := by
  obtain ⟨r', hr', hnext⟩ := h.last
  cases hr.symm.trans hr'
  rw [hnext]
  split <;> nofun

theorem Chained.length (h : Chained s ids l) : ids.length ≤ s.fresh := by
  have hsub : ids ⊆ List.range s.fresh := by
    intro k hk
    rw [List.mem_range]
    refine Nat.lt_of_not_le fun hle => ?_
    have hsome := h.path.isSome k hk
    rw [h.fresh k hle] at hsome
    cases hsome
  have hle := (h.nodup.subperm hsub).length_le
  rwa [List.length_range] at hle

theorem Chained.unique {ids' : List RecId} {l' : List Krec} (h : Chained s ids l) (h' : Chained s ids' l') : ids = ids' ∧ l = l' :=
  h.path.unique h'.path fun _ hr => h.ends hr

theorem new_chained : Chained new [0] [{}] where
  path := @Path.last new 0 { krec := {}, next := .null } rfl
  nodup := List.nodup_singleton 0
  fresh k hk := by
    show Function.update (fun _ => none) 0 _ k = none
    exact Function.update_of_ne (Nat.ne_of_gt hk) ..
  last := ⟨{ krec := {}, next := .null }, rfl, rfl⟩

/-- The record that is written to. -/
theorem Chained.record (h : Chained s ids l) (krec : Krec) :
    ∃ s', record krec s = some s' ∧ Chained s' ids (l.dropLast ++ [krec]) ∧ s'.flushes = s.flushes := by
  obtain ⟨r, hr, hnext⟩ := h.last
  have hself : (s.setRec s.krec { r with krec }).recs s.krec = some { r with krec } := Function.update_self ..
  refine ⟨s.setRec s.krec { r with krec }, by simp [Records.record, hr],
    ⟨h.path.setLast h.nodup hself fun x _ hx => Function.update_of_ne hx .., h.nodup, fun k hk => ?_, ⟨_, hself, hnext⟩⟩, rfl⟩
  have hne : k ≠ s.krec := by
    rintro rfl
    cases hr.symm.trans (h.fresh _ hk)
  exact (Function.update_of_ne hne ..).trans (h.fresh k hk)

theorem Chained.flush (h : Chained s ids l) (krec : Krec) :
    ∃ s', flush krec s = some s' ∧ Chained s' (ids ++ [s.fresh]) (l.dropLast ++ [krec] ++ [({} : Krec)]) := by
  obtain ⟨r, hr, -⟩ := h.last
  obtain ⟨s', hs'⟩ : ∃ s' : State, s' = { s with
    recs := Function.update (Function.update s.recs s.krec (some { krec, next := .ptr s.fresh })) s.fresh
      (some { krec := {}, next := .uninitialised })
    fresh := s.fresh + 1, krec := s.fresh, flushes := s.flushes + 1 } := ⟨_, rfl⟩
  have hnone := h.fresh s.fresh (Nat.le_refl _)
  have hne : s.krec ≠ s.fresh := by
    intro e
    rw [← e, hr] at hnone
    cases hnone
  have hfresh : s.fresh ∉ ids := fun hmem => by
    have hsome := h.path.isSome _ hmem
    rw [hnone] at hsome
    cases hsome
  have hnew : s'.recs s.fresh = some { krec := {}, next := .uninitialised } := by
    rw [hs']
    exact Function.update_self ..
  have hold : s'.recs s.krec = some { krec, next := .ptr s.fresh } := by
    rw [hs']
    exact (Function.update_of_ne hne ..).trans (Function.update_self ..)
  have hothers : ∀ x ∈ ids, x ≠ s.krec → s'.recs x = s.recs x := by
    intro x hx hxk
    rw [hs']
    exact (Function.update_of_ne (ne_of_mem_of_not_mem hx hfresh) ..).trans (Function.update_of_ne hxk ..)
  have hpath := (h.path.setLast h.nodup hold hothers).snoc h.nodup hold rfl hnew
  refine ⟨s', ?_, ⟨?_, ?_, fun k hk => ?_, ⟨{ krec := {}, next := .uninitialised }, ?_, ?_⟩⟩⟩
  · rw [hs']
    simp [Records.flush, Records.record, State.setRec, hr]
  · have hkrec : s'.krec = s.fresh := by rw [hs']
    have hlist : s'.list = s.list := by rw [hs']
    rw [hkrec, hlist]
    exact hpath
  · rw [List.nodup_append']
    exact ⟨h.nodup, List.nodup_singleton _, by simpa using hfresh⟩
  · rw [hs'] at hk ⊢
    have hlt : s.fresh < k := hk
    have hks : k ≠ s.krec := by
      rintro rfl
      rw [h.fresh _ (Nat.le_of_lt hlt)] at hr
      cases hr
    exact (Function.update_of_ne (Nat.ne_of_gt hlt) ..).trans ((Function.update_of_ne hks ..).trans (h.fresh k (Nat.le_of_lt hlt)))
  · rw [hs'] at hnew ⊢
    exact hnew
  · rw [hs']
    rfl

theorem Chained.submit (h : Chained s ids l) (answers : Nat → Int) :
    (submit answers s).1 = sent answers 0 l ∧ ((submit answers s).2 = none ↔ (s.flushes ≠ 0 → ¬ Through answers 0 l)) := by
  obtain ⟨r, hr, hnext⟩ := h.last
  obtain ⟨hsent, hfault⟩ := @Path.submit _ _ _ _ _ answers 0 _ _ h.path hr (h.ends hr) h.length
  refine ⟨hsent, hfault.trans ?_⟩
  rw [hnext]
  by_cases hflushes : s.flushes = 0
  · simp [hflushes]
  · simp [hflushes]

theorem Chained.del (h : Chained s ids l) : (del s).1 = ids ∧ ((del s).2 = none ↔ s.flushes = 0) := by
  obtain ⟨r, hr, hnext⟩ := h.last
  obtain ⟨hfreed, hfault⟩ := h.path.del h.nodup hr (h.ends hr) h.length
  refine ⟨hfreed, hfault.trans ?_⟩
  rw [hnext]
  by_cases hflushes : s.flushes = 0
  · simp [hflushes]
  · simp [hflushes]

/-! ## Runs of a deferred push buffer -/

/-- What a call has to do: a record or a flush leaves a finite chain that ends in the current record; a kick gives the
    kernel all that is queued, in order; the deletion frees all records.  Neither reads a pointer that was not written. -/
def Contract (s : State) : Op → Prop
  | .record krec => ∃ s', Records.record krec s = some s' ∧ ∃ ids l, Chained s' ids l
  | .flush krec => ∃ s', Records.flush krec s = some s' ∧ ∃ ids l, Chained s' ids l
  | .kick krec answers =>
      ∃ s', Records.record krec s = some s' ∧ ∃ ids l, Chained s' ids l ∧ Records.submit answers s' = (l.filter queued, none)
  | .del => ∃ ids l, Chained s ids l ∧ Records.del s = (ids, none)

/-- A kick has the records in turn, and does not get behind the last one if that is garbage; a push buffer that is
    deleted was never flushed. -/
def Fit (s : State) : Op → Prop
  | .record _ => True
  | .flush _ => True
  | .kick krec answers =>
      ∀ ids l, Chained s ids l →
        InTurn answers 0 (l.dropLast ++ [krec]) ∧ (s.flushes ≠ 0 → ¬ Through answers 0 (l.dropLast ++ [krec]))
  | .del => s.flushes = 0

theorem contract_iff (s : State) (op : Op) (hs : ∃ ids l, Chained s ids l) : Contract s op ↔ Fit s op := by
  obtain ⟨ids, l, h⟩ := hs
  cases op with
  | record krec =>
      obtain ⟨s', hs', h', -⟩ := h.record krec
      exact ⟨fun _ => trivial, fun _ => ⟨s', hs', ids, _, h'⟩⟩
  | flush krec =>
      obtain ⟨s', hs', h'⟩ := h.flush krec
      exact ⟨fun _ => trivial, fun _ => ⟨s', hs', _, _, h'⟩⟩
  | kick krec answers =>
      obtain ⟨s', hs', h', hflushes⟩ := h.record krec
      obtain ⟨hsent, hfault⟩ := h'.submit answers
      rw [hflushes] at hfault
      constructor
      · rintro ⟨s'', hs'', ids', l', h'', hsubmit⟩ ids₁ l₁ h₁
        cases hs'.symm.trans hs''
        obtain ⟨rfl, rfl⟩ := h.unique h₁
        obtain ⟨rfl, rfl⟩ := h'.unique h''
        rw [hsubmit] at hsent hfault
        exact ⟨(sent_eq_filter answers _ 0).mp hsent.symm, hfault.mp rfl⟩
      · intro hfit
        obtain ⟨hturn, hend⟩ := hfit ids l h
        have hfilter := hsent.trans ((sent_eq_filter answers _ 0).mpr hturn)
        exact ⟨s', hs', ids, _, h', Prod.ext hfilter (hfault.mpr hend)⟩
  | del =>
      obtain ⟨hfreed, hfault⟩ := h.del
      constructor
      · rintro ⟨ids', l', -, hdel⟩
        exact hfault.mp (congrArg Prod.snd hdel)
      · exact fun hfit => ⟨ids, l, h, Prod.ext hfreed (hfault.mpr hfit)⟩

theorem step_chained (s : State) (op : Op) (s' : State) (hs : ∃ ids l, Chained s ids l) (hop : op.step s = some s') :
    ∃ ids l, Chained s' ids l := by
  obtain ⟨ids, l, h⟩ := hs
  cases op with
  | record krec =>
      obtain ⟨s'', hs'', h', -⟩ := h.record krec
      cases hs''.symm.trans hop
      exact ⟨ids, _, h'⟩
  | flush krec =>
      obtain ⟨s'', hs'', h'⟩ := h.flush krec
      cases hs''.symm.trans hop
      exact ⟨_, _, h'⟩
  | kick krec answers =>
      obtain ⟨s'', hs'', h', -⟩ := h.record krec
      simp only [Op.step, hs'', Option.bind_some] at hop
      split at hop
      · cases hop
        exact ⟨ids, _, h'⟩
      · cases hop
  | del => cases hop

/-- A deferred push buffer is good along a run exactly if its kicks find the records in turn and do not get behind the
    last one, and it is not deleted once it was flushed. -/
theorem deferred_records (ops : List Op) : Along Op.step Contract new ops ↔ Along Op.step Fit new ops :=
  along_iff contract_iff (fun s op s' hs _ => step_chained s op s' hs) ⟨[0], [{}], new_chained⟩

/-- What comes behind the record that a flush has begun was never written, and the deletion follows it. -/
theorem deferred_records_flush : ¬ Along Op.step Contract new [.flush { push := [⟨none, 0, 4⟩] }, .del] := by
  obtain ⟨s, hs, hfault⟩ : ∃ s, Op.step new (.flush { push := [⟨none, 0, 4⟩] }) = some s ∧ (del s).2 = some .uninitialised :=
    ⟨_, rfl, rfl⟩
  rintro ⟨-, h⟩
  obtain ⟨⟨ids, l, -, hdel⟩, -⟩ := h s hs
  rw [hdel] at hfault
  cases hfault

/-! ## The records of the client

There the chain is a list, and the answers come from the replies. -/

variable {p : PushId} {c : Client}

end LibDrm.Nouveau.Records
