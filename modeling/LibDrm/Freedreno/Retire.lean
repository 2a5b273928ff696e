/-
# `LibDrm.Freedreno.Retire` — the buffers that a kgsl pipe waits for

A buffer is on a list of a pipe from when it is referred to until the pipe is done with it:

    submit_list     referred to in the ring, not yet submitted
    pending_list    submitted, with the timestamp of the last submission

and it has one reference for the pipe all the while.  `kgsl_pipe_process_pending` releases buffers from
the front of `pending_list`, up to the first whose timestamp is later.

A timestamp has 32 bits.  Here every submission has a number that has no end, and its timestamp is what
is left of it; the numbers of the last submissions are kept beside the state (`last`: no data of the
source), as are the references that the callers hold (`held`).  `pending_list` is in the order of the
numbers whatever happens (`sorted`), so what is released is what should be exactly if the timestamps
tell the same of `m` and the buffers as the numbers do (`InOrder`).
-/
import LibDrm.Lib.Arith
import Mathlib.Data.List.Sort

namespace LibDrm.Freedreno.Kgsl

abbrev Word := BitVec 32

abbrev BoId := Nat

inductive PipeId where
  | p3d
  | p2d
  deriving DecidableEq, Repr

/-! ## The pipes -/

/-- `struct kgsl_pipe` for each pipe, and `struct kgsl_bo` for each buffer. -/
structure State where
  submit_list : PipeId → List BoId := fun _ => []
  pending_list : PipeId → List BoId := fun _ => []
  timestamp : PipeId → BoId → Word := fun _ _ => 0
  refcnt : BoId → Nat := fun _ => 0
  fresh : BoId := 0
  held : BoId → Nat := fun _ => 0
  last : PipeId → BoId → Nat := fun _ _ => 0
  number : PipeId → Nat := fun _ => 0

namespace State

/-- `LIST_IS_EMPTY` of the node of a buffer says that it is on neither list. -/
def listed (p : PipeId) (b : BoId) (s : State) : Bool := b ∈ s.submit_list p ∨ b ∈ s.pending_list p

/-- `list_del`, from the list that the node is on. -/
def list_del (p : PipeId) (b : BoId) (s : State) : State :=
  { s with
    submit_list := Function.update s.submit_list p ((s.submit_list p).erase b)
    pending_list := Function.update s.pending_list p ((s.pending_list p).erase b) }

def fd_bo_ref (b : BoId) (s : State) : State := { s with refcnt := Function.update s.refcnt b (s.refcnt b + 1) }

def fd_bo_del (b : BoId) (s : State) : State := { s with refcnt := Function.update s.refcnt b (s.refcnt b - 1) }

end State

def kgsl_pipe_add_submit (p : PipeId) (b : BoId) (s : State) : State :=
  let s := if s.listed p b then s.list_del p b else s.fd_bo_ref b
  { s with submit_list := Function.update s.submit_list p (s.submit_list p ++ [b]) }

/-- One buffer goes over to the pending ones; the number of the submission is `n`. -/
def submitOne (p : PipeId) (n : Nat) (s : State) (b : BoId) : State :=
  let s := s.list_del p b
  { s with
    timestamp := Function.update s.timestamp p (Function.update (s.timestamp p) b (.ofNat 32 n))
    pending_list := Function.update s.pending_list p (s.pending_list p ++ [b])
    last := Function.update s.last p (Function.update (s.last p) b n) }

def releaseOne (p : PipeId) (b : BoId) (s : State) : State :=
  let s := s.list_del p b
  { s with timestamp := Function.update s.timestamp p (Function.update (s.timestamp p) b 0) }.fd_bo_del b

/-- The loop over the pending list, which is that of the pipe at the start. -/
def processLoop (p : PipeId) (timestamp : Word) : List BoId → State → State
  | [], s => s
  | b :: bs, s => if s.timestamp p b > timestamp then s else processLoop p timestamp bs (releaseOne p b s)

def kgsl_pipe_process_pending (p : PipeId) (timestamp : Word) (s : State) : State :=
  processLoop p timestamp (s.pending_list p) s

/-- `retired` is the number that the kernel reports as retired afterwards, if it does. -/
def kgsl_pipe_post_submit (p : PipeId) (n : Nat) (retired : Option Nat) (s : State) : State :=
  let s := { s with number := Function.update s.number p n }
  let s := (s.submit_list p).foldl (submitOne p n) s
  match retired with
  | none => s
  | some m => kgsl_pipe_process_pending p (.ofNat 32 m) s

/-! ## Runs -/

inductive Op where
  | bo_new
  | bo_ref (b : BoId)
  | bo_del (b : BoId)
  | add_submit (p : PipeId) (b : BoId)
  | post_submit (p : PipeId) (n : Nat) (retired : Option Nat)
  /-- What `kgsl_pipe_wait` does when it has waited. -/
  | process_pending (p : PipeId) (m : Nat)
  deriving Repr

/-- References are passed on and given up by those who hold them, and the numbers of submissions increase. -/
def Op.Allowed (s : State) : Op → Prop
  | .bo_ref b | .bo_del b | .add_submit _ b => 0 < s.held b
  | .post_submit p n _ => s.number p < n
  | .bo_new | .process_pending _ _ => True

def Op.run : Op → State → State
  | .bo_new, s => { s with
      fresh := s.fresh + 1
      refcnt := Function.update s.refcnt s.fresh 1
      held := Function.update s.held s.fresh 1 }
  | .bo_ref b, s => { s.fd_bo_ref b with held := Function.update s.held b (s.held b + 1) }
  | .bo_del b, s => { s.fd_bo_del b with held := Function.update s.held b (s.held b - 1) }
  | .add_submit p b, s => kgsl_pipe_add_submit p b s
  | .post_submit p n retired, s => kgsl_pipe_post_submit p n retired s
  | .process_pending p m, s => kgsl_pipe_process_pending p (.ofNat 32 m) s

def State.Init (s : State) : Prop := ∃ number, s = { number := number }

def State.Step (s s' : State) : Prop := ∃ op : Op, op.Allowed s ∧ s' = op.run s

/-! ## Lists -/

section Lists

variable {α : Type} {P Q : α → Bool} {l l₁ l₂ : List α} {b : α}

/-- An element goes from one of two lists to a place between them. -/
theorem erase_both [DecidableEq α] (hb : b ∈ l₁ ++ l₂) (hnodup : (l₁ ++ l₂).Nodup) :
    (l₁.erase b ++ b :: l₂.erase b).Perm (l₁ ++ l₂) := by
  refine List.perm_middle.trans ?_
  rcases List.mem_append.mp hb with h₁ | h₂
  · have hnot : b ∉ l₂ := fun h => List.disjoint_of_nodup_append hnodup h₁ h
    rw [List.erase_of_not_mem hnot]
    exact (List.perm_cons_erase h₁).symm.append_right l₂
  · have hnot : b ∉ l₁ := fun h => List.disjoint_of_nodup_append hnodup h h₂
    rw [List.erase_of_not_mem hnot]
    exact List.perm_middle.symm.trans ((List.perm_cons_erase h₂).symm.append_left l₁)

/-- Dropping from the front what satisfies `P` leaves what does not satisfy `Q`, where `Q` holds of a part at the front:
    if `P` holds of all of that part, and not of what comes next. -/
theorem dropWhile_eq_filter_iff (hl : l.Pairwise fun a b => Q b → Q a) :
    l.dropWhile P = l.filter (fun b => !Q b) ↔
      (∀ b ∈ l, Q b → P b) ∧ ∀ b, l.find? (fun b => !Q b) = some b → P b = false := by
  induction l with
  | nil => simp
  | cons a l ih =>
      obtain ⟨ha, hl⟩ := List.pairwise_cons.mp hl
      have ih := ih hl
      cases hq : Q a with
      | true =>
          rw [List.filter_cons_of_neg (by simp [hq]), List.find?_cons_of_neg (by simp [hq]), List.forall_mem_cons]
          cases hp : P a with
          | true =>
              rw [List.dropWhile_cons_of_pos hp, ih]
              simp
          | false =>
              rw [List.dropWhile_cons_of_neg (by simp [hp])]
              refine ⟨fun h => ?_, fun h => by simp [hq] at h⟩
              have hmem : a ∈ l.filter fun b => !Q b := h ▸ List.mem_cons_self
              simp [hq] at hmem
      | false =>
          have hnone : ∀ b ∈ l, Q b = false := fun b hb => by
            by_contra hne
            simp [ha b hb (by simpa using hne)] at hq
          have hall : (a :: l).filter (fun b => !Q b) = a :: l := by
            refine List.filter_eq_self.mpr fun b hb => ?_
            rcases List.mem_cons.mp hb with rfl | hb
            · simp [hq]
            · simp [hnone b hb]
          rw [hall, List.find?_cons_of_pos (by simp [hq])]
          cases hp : P a with
          | true =>
              rw [List.dropWhile_cons_of_pos hp]
              refine ⟨fun h => ?_, fun h => by simp [hp] at h⟩
              have hlen := (List.dropWhile_suffix P (l := l)).length_le
              rw [h, List.length_cons] at hlen
              omega
          | false =>
              rw [List.dropWhile_cons_of_neg (by simp [hp])]
              refine ⟨fun _ => ⟨fun b hb hqb => ?_, ?_⟩, fun _ => rfl⟩
              · rcases List.mem_cons.mp hb with rfl | hb
                · simp [hq] at hqb
                · simp [hnone b hb] at hqb
              · rintro _ ⟨⟩
                exact hp

end Lists

/-! ## What a reachable state satisfies -/

namespace State

/-- The references to a buffer for a pipe. -/
def onPipe (p : PipeId) (b : BoId) (s : State) : Nat := (s.submit_list p ++ s.pending_list p).count b

def piped (b : BoId) (s : State) : Nat := s.onPipe .p3d b + s.onPipe .p2d b

end State

/-- The lists of a pipe. -/
structure PipeOk (submit pending : List BoId) (timestamp : BoId → Word) (last : BoId → Nat) (number fresh : Nat) : Prop where
  /-- A buffer is on one list, once. -/
  once : (submit ++ pending).Nodup
  /-- The pending buffers are in the order of their last submissions. -/
  sorted : pending.Pairwise fun a b => last a ≤ last b
  bounded : ∀ b ∈ pending, last b ≤ number
  stamped : ∀ b ∈ pending, timestamp b = .ofNat 32 (last b)
  known : ∀ b ∈ submit ++ pending, b < fresh

/-- The lists of every pipe, and the references to every buffer. -/
structure State.Ok (s : State) : Prop where
  pipe : ∀ p, PipeOk (s.submit_list p) (s.pending_list p) (s.timestamp p) (s.last p) (s.number p) s.fresh
  refcnt : ∀ b, s.refcnt b = s.held b + s.piped b
  unheld : ∀ b, s.fresh ≤ b → s.held b = 0

/-- Nothing has changed but for one pipe, whose lists, timestamps and numbers are these now. -/
structure Moved (p : PipeId) (submit pending : List BoId) (timestamp : BoId → Word) (last : BoId → Nat) (number : Nat)
    (s s' : State) : Prop where
  submit_list : s'.submit_list = Function.update s.submit_list p submit
  pending_list : s'.pending_list = Function.update s.pending_list p pending
  timestamp : s'.timestamp = Function.update s.timestamp p timestamp
  last : s'.last = Function.update s.last p last
  number : s'.number = Function.update s.number p number
  fresh : s'.fresh = s.fresh
  held : s'.held = s.held

section Steps

variable {p p' : PipeId} {b : BoId} {s s' : State} {submit pending : List BoId} {timestamp : BoId → Word} {last : BoId → Nat}
  {number n : Nat}

/-- What is to be shown of a step that moves buffers on one pipe. -/
theorem State.Ok.moved (h : s.Ok) (hm : Moved p submit pending timestamp last number s s')
    (hp : PipeOk submit pending timestamp last number s.fresh)
    (hrefcnt : ∀ b, s'.refcnt b + s.onPipe p b = s.refcnt b + (submit ++ pending).count b) : s'.Ok := by
  have hpipe : ∀ b, s'.onPipe p b = (submit ++ pending).count b := fun b => by
    rw [State.onPipe, hm.submit_list, hm.pending_list, Function.update_self, Function.update_self]
  have hother : ∀ {p'}, p' ≠ p → ∀ b, s'.onPipe p' b = s.onPipe p' b := fun hne b => by
    rw [State.onPipe, hm.submit_list, hm.pending_list, Function.update_of_ne hne, Function.update_of_ne hne, State.onPipe]
  refine ⟨fun p' => ?_, fun b => ?_, ?_⟩
  · rw [hm.submit_list, hm.pending_list, hm.timestamp, hm.last, hm.number, hm.fresh]
    by_cases hp' : p' = p
    · subst hp'
      simpa only [Function.update_self] using hp
    · simpa only [Function.update_of_ne hp'] using h.pipe p'
  · have hsame : s'.piped b + s.onPipe p b = s.piped b + (submit ++ pending).count b := by
      cases p
      · rw [State.piped, State.piped, hpipe, hother (show PipeId.p2d ≠ .p3d from nofun)]
        omega
      · rw [State.piped, State.piped, hpipe, hother (show PipeId.p3d ≠ .p2d from nofun)]
        omega
    have hold := h.refcnt b
    have hnew := hrefcnt b
    rw [hm.held]
    omega
  · rw [hm.fresh, hm.held]
    exact h.unheld

/-- The lists in another order. -/
theorem PipeOk.known_perm {submit' pending' : List BoId} {fresh : Nat} (h : PipeOk submit pending timestamp last number fresh)
    (hp : (submit' ++ pending').Perm (submit ++ pending)) :
    (submit' ++ pending').Nodup ∧ ∀ b ∈ submit' ++ pending', b < fresh :=
  ⟨hp.nodup_iff.mpr h.once, fun b hb => h.known b (hp.mem_iff.mp hb)⟩

theorem State.Ok.lt_fresh (h : s.Ok) (hheld : 0 < s.held b) : b < s.fresh := by
  by_contra hge
  rw [h.unheld b (Nat.le_of_not_lt hge)] at hheld
  cases hheld

/-- Another list of referred to and of pending buffers, and all else as it is. -/
theorem moved_lists (hs : s'.submit_list = Function.update s.submit_list p submit)
    (hl : s'.pending_list = Function.update s.pending_list p pending) (ht : s'.timestamp = s.timestamp)
    (hlast : s'.last = s.last) (hn : s'.number = s.number) (hf : s'.fresh = s.fresh) (hh : s'.held = s.held) :
    Moved p submit pending (s.timestamp p) (s.last p) (s.number p) s s' :=
  ⟨hs, hl, by rw [ht, Function.update_eq_self], by rw [hlast, Function.update_eq_self],
    by rw [hn, Function.update_eq_self], hf, hh⟩

theorem add_submit_ok (h : s.Ok) (hheld : 0 < s.held b) : (kgsl_pipe_add_submit p b s).Ok := by
  have hp := h.pipe p
  unfold kgsl_pipe_add_submit
  dsimp only
  by_cases hlisted : b ∈ s.submit_list p ++ s.pending_list p
  · have hl : s.listed p b = true := by simpa [State.listed] using hlisted
    have hperm : ((s.submit_list p).erase b ++ [b] ++ (s.pending_list p).erase b).Perm
        (s.submit_list p ++ s.pending_list p) := by
      rw [List.append_assoc, List.singleton_append]
      exact erase_both hlisted hp.once
    obtain ⟨honce, hknown⟩ := hp.known_perm hperm
    rw [if_pos hl]
    refine h.moved (moved_lists ?_ rfl rfl rfl rfl rfl rfl) ⟨honce, hp.sorted.sublist List.erase_sublist,
      fun c hc => hp.bounded c (List.mem_of_mem_erase hc), fun c hc => hp.stamped c (List.mem_of_mem_erase hc), hknown⟩
      fun c => ?_
    · simp [State.list_del]
    · rw [hperm.count_eq]
      rfl
  · have hl : s.listed p b = false := by simpa [State.listed] using hlisted
    have hperm : (s.submit_list p ++ [b] ++ s.pending_list p).Perm (b :: (s.submit_list p ++ s.pending_list p)) := by
      rw [List.append_assoc, List.singleton_append]
      exact List.perm_middle
    rw [if_neg (by simp [hl])]
    refine h.moved (moved_lists rfl (Function.update_eq_self ..).symm rfl rfl rfl rfl rfl)
      ⟨hperm.nodup_iff.mpr (List.nodup_cons.mpr ⟨hlisted, hp.once⟩), hp.sorted, hp.bounded, hp.stamped, fun c hc => ?_⟩
      fun c => ?_
    · rcases List.mem_cons.mp (hperm.mem_iff.mp hc) with rfl | hc
      · exact h.lt_fresh hheld
      · exact hp.known c hc
    · change Function.update s.refcnt b (s.refcnt b + 1) c + s.onPipe p c =
        s.refcnt c + (s.submit_list p ++ [b] ++ s.pending_list p).count c
      rw [hperm.count_eq, List.count_cons]
      by_cases hcb : c = b
      · subst hcb
        simp only [Function.update_self, State.onPipe, beq_self_eq_true, if_true]
        omega
      · simp only [Function.update_of_ne hcb, State.onPipe, beq_iff_eq, if_neg (Ne.symm hcb)]
        omega

/-- One buffer is submitted, the first of those that are not. -/
theorem submitOne_ok {rest : List BoId} (h : s.Ok) (hn : s.number p = n) (hl : s.submit_list p = b :: rest) :
    (submitOne p n s b).Ok ∧ (submitOne p n s b).number p = n ∧ (submitOne p n s b).submit_list p = rest := by
  have hp := h.pipe p
  have hnot : b ∉ s.pending_list p := by
    have honce := hp.once
    rw [hl] at honce
    exact fun hmem => (List.nodup_cons.mp honce).1 (List.mem_append_right _ hmem)
  have herase : (s.submit_list p).erase b = rest := by rw [hl, List.erase_cons_head]
  have hpending : (s.pending_list p).erase b = s.pending_list p := List.erase_of_not_mem hnot
  have hperm : (rest ++ (s.pending_list p ++ [b])).Perm (s.submit_list p ++ s.pending_list p) := by
    rw [hl, ← List.append_assoc]
    exact List.perm_append_singleton _ _
  obtain ⟨honce, hknown⟩ := hp.known_perm hperm
  have hmoved : Moved p rest (s.pending_list p ++ [b]) (Function.update (s.timestamp p) b (.ofNat 32 n))
      (Function.update (s.last p) b n) (s.number p) s (submitOne p n s b) := by
    refine ⟨?_, ?_, rfl, rfl, (Function.update_eq_self ..).symm, rfl, rfl⟩
    · simp only [submitOne, State.list_del, herase]
    · simp only [submitOne, State.list_del, hpending, Function.update_self, Function.update_idem]
  have hkeep : ∀ c ∈ s.pending_list p, c ≠ b := fun c hc hcb => hnot (hcb ▸ hc)
  refine ⟨h.moved hmoved ⟨honce, ?_, ?_, ?_, hknown⟩ fun c => ?_, ?_, ?_⟩
  · refine List.pairwise_append.mpr ⟨?_, List.pairwise_singleton .., fun c hc d hd => ?_⟩
    · refine hp.sorted.imp_of_mem fun {c d} hc hd hle => ?_
      rwa [Function.update_of_ne (hkeep c hc), Function.update_of_ne (hkeep d hd)]
    · rw [List.mem_singleton.mp hd, Function.update_self, Function.update_of_ne (hkeep c hc), ← hn]
      exact hp.bounded c hc
  · intro c hc
    rcases List.mem_append.mp hc with hc | hc
    · rw [Function.update_of_ne (hkeep c hc)]
      exact hp.bounded c hc
    · rw [List.mem_singleton.mp hc, Function.update_self, hn]
  · intro c hc
    rcases List.mem_append.mp hc with hc | hc
    · rw [Function.update_of_ne (hkeep c hc), Function.update_of_ne (hkeep c hc)]
      exact hp.stamped c hc
    · rw [List.mem_singleton.mp hc, Function.update_self, Function.update_self]
  · rw [hperm.count_eq]
    rfl
  · rw [hmoved.number, Function.update_self, hn]
  · rw [hmoved.submit_list, Function.update_self]

theorem submitAll_ok {l : List BoId} (h : s.Ok) (hn : s.number p = n) (hl : s.submit_list p = l) :
    (l.foldl (submitOne p n) s).Ok := by
  induction l generalizing s with
  | nil => exact h
  | cons b rest ih =>
      obtain ⟨h', hn', hl'⟩ := submitOne_ok h hn hl
      exact ih h' hn' hl'

/-- The number of the next submission. -/
theorem State.Ok.numbered (h : s.Ok) (hlt : s.number p < n) : ({ s with number := Function.update s.number p n } : State).Ok := by
  have hp := h.pipe p
  refine h.moved (p := p) ⟨(Function.update_eq_self ..).symm, (Function.update_eq_self ..).symm,
    (Function.update_eq_self ..).symm, (Function.update_eq_self ..).symm, rfl, rfl, rfl⟩
    ⟨hp.once, hp.sorted, fun b hb => ?_, hp.stamped, hp.known⟩ fun b => rfl
  exact (hp.bounded b hb).trans (Nat.le_of_lt hlt)

/-- A buffer on a list is referred to. -/
theorem State.Ok.refcnt_pos (h : s.Ok) (hb : b ∈ s.submit_list p ++ s.pending_list p) : 0 < s.refcnt b := by
  have hcount : 0 < s.onPipe p b := List.count_pos_iff.mpr hb
  have hle : s.onPipe p b ≤ s.piped b := by
    cases p
    · exact Nat.le_add_right ..
    · exact Nat.le_add_left ..
  rw [h.refcnt b]
  omega

/-- The first of the pending buffers is released. -/
theorem releaseOne_ok {rest : List BoId} (h : s.Ok) (hl : s.pending_list p = b :: rest) :
    (releaseOne p b s).Ok ∧ Moved p (s.submit_list p) rest (Function.update (s.timestamp p) b 0) (s.last p) (s.number p) s
      (releaseOne p b s) ∧ ∀ c, (releaseOne p b s).refcnt c + [b].count c = s.refcnt c := by
  have hp := h.pipe p
  have honce := hp.once
  rw [hl, List.nodup_middle, List.nodup_cons] at honce
  have hsubmit : (s.submit_list p).erase b = s.submit_list p :=
    List.erase_of_not_mem fun hmem => honce.1 (List.mem_append_left _ hmem)
  have hpending : (s.pending_list p).erase b = rest := by rw [hl, List.erase_cons_head]
  have hpositive : 0 < s.refcnt b := h.refcnt_pos (p := p) (hl ▸ List.mem_append_right _ List.mem_cons_self)
  have hmoved : Moved p (s.submit_list p) rest (Function.update (s.timestamp p) b 0) (s.last p) (s.number p) s
      (releaseOne p b s) := by
    refine ⟨?_, ?_, rfl, (Function.update_eq_self ..).symm, (Function.update_eq_self ..).symm, rfl, rfl⟩
    · simp only [releaseOne, State.list_del, State.fd_bo_del, hsubmit]
    · simp only [releaseOne, State.list_del, State.fd_bo_del, hpending]
  have hrefcnt : ∀ c, (releaseOne p b s).refcnt c + [b].count c = s.refcnt c := by
    intro c
    change Function.update s.refcnt b (s.refcnt b - 1) c + _ = _
    rw [List.count_singleton]
    by_cases hcb : c = b
    · subst hcb
      rw [Function.update_self, beq_self_eq_true, if_pos rfl]
      exact Nat.sub_add_cancel hpositive
    · rw [Function.update_of_ne hcb, if_neg (by simpa using Ne.symm hcb), Nat.add_zero]
  refine ⟨h.moved hmoved ⟨honce.2, ?_, ?_, ?_, ?_⟩ fun c => ?_, hmoved, hrefcnt⟩
  · exact (List.pairwise_cons.mp (hl ▸ hp.sorted)).2
  · exact fun c hc => hp.bounded c (hl ▸ List.mem_cons_of_mem _ hc)
  · intro c hc
    have hcb : c ≠ b := fun hcb => honce.1 (List.mem_append_right _ (hcb ▸ hc))
    rw [Function.update_of_ne hcb]
    exact hp.stamped c (hl ▸ List.mem_cons_of_mem _ hc)
  · intro c hc
    refine hp.known c ?_
    rw [hl, List.mem_append, List.mem_cons]
    exact (List.mem_append.mp hc).imp_right .inr
  · have hcount := hrefcnt c
    rw [State.onPipe, hl, List.perm_middle.count_eq, List.count_cons, ← List.count_singleton]
    omega

/-- The timestamp of the last submission is not later than `T`. -/
def State.passed (p : PipeId) (T : Word) (s : State) (b : BoId) : Bool := (.ofNat 32 (s.last p b) : Word) ≤ T

/-- The loop releases a part of the pending list from its front, and drops one reference to each. -/
theorem processLoop_spec {T : Word} {l : List BoId} (h : s.Ok) (hl : s.pending_list p = l) :
    (processLoop p T l s).Ok ∧ (processLoop p T l s).submit_list = s.submit_list ∧
      (processLoop p T l s).pending_list = Function.update s.pending_list p (l.dropWhile (s.passed p T)) ∧
      ∀ b, (processLoop p T l s).refcnt b + (l.takeWhile (s.passed p T)).count b = s.refcnt b := by
  induction l generalizing s with
  | nil =>
      refine ⟨h, rfl, ?_, fun _ => rfl⟩
      rw [List.dropWhile_nil, ← hl, Function.update_eq_self, hl]
      rfl
  | cons b l ih =>
      have hstamp : s.timestamp p b = .ofNat 32 (s.last p b) := (h.pipe p).stamped b (hl ▸ List.mem_cons_self)
      unfold processLoop
      rw [hstamp]
      split
      · next hgt =>
        have hpassed : ¬ s.passed p T b = true := by
          simpa [State.passed] using hgt
        refine ⟨h, rfl, ?_, fun c => ?_⟩
        · rw [List.dropWhile_cons_of_neg hpassed, ← hl, Function.update_eq_self]
        · rw [List.takeWhile_cons_of_neg hpassed]
          rfl
      · next hle =>
        have hpassed : s.passed p T b = true := by
          simpa [State.passed] using hle
        obtain ⟨h₁, hm, hrefcnt⟩ := releaseOne_ok h hl
        have hsame : (releaseOne p b s).passed p T = s.passed p T := by
          funext c
          rw [State.passed, hm.last, Function.update_self, State.passed]
        obtain ⟨h₂, hsubmit, hpending, hrest⟩ := ih h₁ (by rw [hm.pending_list, Function.update_self])
        rw [hsame] at hpending hrest
        refine ⟨h₂, ?_, ?_, fun c => ?_⟩
        · rw [hsubmit, hm.submit_list, Function.update_eq_self]
        · rw [hpending, hm.pending_list, Function.update_idem, List.dropWhile_cons_of_pos hpassed]
        · have hone := hrefcnt c
          have hothers := hrest c
          rw [List.count_singleton] at hone
          rw [List.takeWhile_cons_of_pos hpassed, List.count_cons]
          omega

theorem process_pending_ok {T : Word} (h : s.Ok) : (kgsl_pipe_process_pending p T s).Ok := (processLoop_spec h rfl).1

theorem post_submit_ok {retired : Option Nat} (h : s.Ok) (hlt : s.number p < n) : (kgsl_pipe_post_submit p n retired s).Ok := by
  have hsubmitted := submitAll_ok (h.numbered hlt) (p := p) (n := n) (Function.update_self ..) rfl
  unfold kgsl_pipe_post_submit
  cases retired with
  | none => exact hsubmitted
  | some m => exact process_pending_ok hsubmitted

/-- A buffer that is on no list. -/
theorem State.Ok.unlisted (h : s.Ok) (hb : s.fresh ≤ b) (p : PipeId) : b ∉ s.submit_list p ++ s.pending_list p :=
  fun hmem => Nat.not_lt.mpr hb ((h.pipe p).known b hmem)

theorem Op.run_ok {op : Op} (h : s.Ok) (hallowed : op.Allowed s) : (op.run s).Ok := by
  cases op with
  | bo_new =>
      refine ⟨fun p => ?_, fun b => ?_, fun b hb => ?_⟩
      · have hp := h.pipe p
        exact ⟨hp.once, hp.sorted, hp.bounded, hp.stamped, fun b hb => Nat.lt_succ_of_lt (hp.known b hb)⟩
      · change Function.update s.refcnt s.fresh 1 b = Function.update s.held s.fresh 1 b + s.piped b
        by_cases hb : b = s.fresh
        · have hnone : s.piped b = 0 := by
            unfold State.piped State.onPipe
            rw [List.count_eq_zero.mpr (h.unlisted (Nat.le_of_eq hb.symm) _),
              List.count_eq_zero.mpr (h.unlisted (Nat.le_of_eq hb.symm) _)]
          rw [hnone, hb, Function.update_self, Function.update_self]
        · rw [Function.update_of_ne hb, Function.update_of_ne hb]
          exact h.refcnt b
      · change Function.update s.held s.fresh 1 b = 0
        have hb : s.fresh + 1 ≤ b := hb
        rw [Function.update_of_ne (Nat.ne_of_gt hb)]
        exact h.unheld b (Nat.le_of_succ_le hb)
  | bo_ref b =>
      refine ⟨h.pipe, fun c => ?_, fun c hc => ?_⟩
      · change Function.update s.refcnt b (s.refcnt b + 1) c = Function.update s.held b (s.held b + 1) c + s.piped c
        have hc := h.refcnt c
        by_cases hcb : c = b
        · subst hcb
          rw [Function.update_self, Function.update_self]
          omega
        · rwa [Function.update_of_ne hcb, Function.update_of_ne hcb]
      · exact (Function.update_of_ne (Nat.ne_of_gt (Nat.lt_of_lt_of_le (h.lt_fresh hallowed) hc)) _ _).trans (h.unheld c hc)
  | bo_del b =>
      refine ⟨h.pipe, fun c => ?_, fun c hc => ?_⟩
      · change Function.update s.refcnt b (s.refcnt b - 1) c = Function.update s.held b (s.held b - 1) c + s.piped c
        have hc := h.refcnt c
        by_cases hcb : c = b
        · subst hcb
          have hheld : 0 < s.held c := hallowed
          rw [Function.update_self, Function.update_self]
          omega
        · rwa [Function.update_of_ne hcb, Function.update_of_ne hcb]
      · exact (Function.update_of_ne (Nat.ne_of_gt (Nat.lt_of_lt_of_le (h.lt_fresh hallowed) hc)) _ _).trans (h.unheld c hc)
  | add_submit p b => exact add_submit_ok h hallowed
  | post_submit p n retired => exact post_submit_ok h hallowed
  | process_pending p m => exact process_pending_ok h

end Steps

/-! ## Retirement -/

/-- Processing up to the submission `m` releases exactly the pending buffers whose last submission is not after it, each
    once, and touches no other list. -/
structure Retires (p : PipeId) (m : Nat) (s : State) : Prop where
  pending : (kgsl_pipe_process_pending p (.ofNat 32 m) s).pending_list =
    Function.update s.pending_list p ((s.pending_list p).filter fun b => m < s.last p b)
  submit : (kgsl_pipe_process_pending p (.ofNat 32 m) s).submit_list = s.submit_list
  once : ∀ b, (kgsl_pipe_process_pending p (.ofNat 32 m) s).refcnt b +
    (if b ∈ s.pending_list p ∧ s.last p b ≤ m then 1 else 0) = s.refcnt b

/-- The timestamps say the same as the numbers: of all pending buffers that should be released, and of the first that
    should not. -/
structure InOrder (p : PipeId) (m : Nat) (s : State) : Prop where
  before : ∀ b ∈ s.pending_list p, s.last p b ≤ m → (.ofNat 32 (s.last p b) : Word) ≤ .ofNat 32 m
  after : ∀ b, ((s.pending_list p).find? fun b => m < s.last p b) = some b →
    (.ofNat 32 m : Word) < .ofNat 32 (s.last p b)

/-- A buffer has one reference for each pipe that it is on a list of, beside those of its holders, and it is on one list
    of a pipe, once. -/
structure OneReference (s : State) : Prop where
  once : ∀ p, (s.submit_list p ++ s.pending_list p).Nodup
  refcnt : ∀ b, s.refcnt b = s.held b + (if s.listed .p3d b then 1 else 0) + if s.listed .p2d b then 1 else 0

section Theorems

variable {p : PipeId} {m : Nat} {s : State}

theorem State.Ok.oneReference (h : s.Ok) : OneReference s := by
  have hcount : ∀ p b, s.onPipe p b = if s.listed p b then 1 else 0 := by
    intro p b
    unfold State.onPipe State.listed
    rw [(h.pipe p).once.count]
    simp only [List.mem_append, decide_eq_true_eq]
  refine ⟨fun p => (h.pipe p).once, fun b => ?_⟩
  rw [h.refcnt b, State.piped, hcount, hcount]
  omega

/-- What has been released from the front, if what is left is what should be. -/
theorem count_takeWhile {P Q : BoId → Bool} {l : List BoId} (hl : l.Nodup) (h : l.dropWhile P = l.filter Q) (b : BoId) :
    (l.takeWhile P).count b = if b ∈ l ∧ Q b = false then 1 else 0 := by
  have hsum : (l.takeWhile P).count b + (l.filter Q).count b = l.count b := by
    rw [← h, ← List.count_append, List.takeWhile_append_dropWhile]
  rw [(hl.filter Q).count, hl.count] at hsum
  simp only [List.mem_filter] at hsum
  cases hq : Q b <;> simp only [hq] at hsum ⊢ <;> split_ifs at hsum ⊢ <;> simp_all

theorem State.Ok.retires_iff (h : s.Ok) : Retires p m s ↔ InOrder p m s := by
  obtain ⟨-, hsubmit, hpending, hrefcnt⟩ := processLoop_spec (p := p) (T := .ofNat 32 m) h rfl
  have hlist : (s.pending_list p).dropWhile (s.passed p (.ofNat 32 m)) =
      (s.pending_list p).filter (fun b => m < s.last p b) ↔ InOrder p m s := by
    have hnot : (fun b => decide (m < s.last p b)) = fun b => !decide (s.last p b ≤ m) := by
      funext b
      rw [← decide_not, decide_eq_decide, Nat.not_le]
    have hdown : (s.pending_list p).Pairwise fun a b => decide (s.last p b ≤ m) = true → decide (s.last p a ≤ m) = true :=
      (h.pipe p).sorted.imp fun {a b} hab hb => by
        rw [decide_eq_true_iff] at hb ⊢
        exact Nat.le_trans hab hb
    rw [hnot, dropWhile_eq_filter_iff hdown, ← hnot]
    simp only [State.passed, decide_eq_true_eq, decide_eq_false_iff_not, BitVec.not_le]
    exact ⟨fun ⟨h₁, h₂⟩ => ⟨h₁, h₂⟩, fun ⟨h₁, h₂⟩ => ⟨h₁, h₂⟩⟩
  rw [← hlist]
  constructor
  · intro hr
    have heq := hpending.symm.trans hr.pending
    simpa only [Function.update_self] using congrFun heq p
  · intro heq
    refine ⟨hpending.trans (by rw [heq]), hsubmit, fun b => ?_⟩
    rw [← hrefcnt b, count_takeWhile ((h.pipe p).once.of_append_right) heq b]
    simp only [decide_eq_false_iff_not, Nat.not_lt]
    rfl

theorem State.Init.ok (h : s.Init) : s.Ok := by
  obtain ⟨number, rfl⟩ := h
  exact ⟨fun p => ⟨.nil, .nil, nofun, nofun, nofun⟩, fun _ => rfl, fun _ _ => rfl⟩

theorem ok_of_runs (h : Runs State.Init State.Step s) : s.Ok :=
  h.induct (fun _ hs => hs.ok) fun _ _ hs ⟨_, hallowed, heq⟩ => heq ▸ Op.run_ok hs hallowed

/-- After any submissions, references and retirements, buffers have one reference for each pipe that waits for them;
    and processing releases what it should exactly if the timestamps are in the order of the submissions. -/
theorem retirement (h : Runs State.Init State.Step s) (p : PipeId) (m : Nat) :
    OneReference s ∧ (Retires p m s ↔ InOrder p m s) :=
  ⟨(ok_of_runs h).oneReference, (ok_of_runs h).retires_iff⟩

/-- Two buffers are submitted one after the other, and the first of them a second time while it is pending. -/
theorem retirement_again : ∃ s, Runs State.Init State.Step s ∧ s.pending_list .p3d = [1, 0] ∧ s.last .p3d 0 = 3 ∧
    (Retires .p3d 2 s ↔ InOrder .p3d 2 s) ∧ OneReference s := by
  have h₀ : Runs State.Init State.Step {} := .init ⟨_, rfl⟩
  have h₁ := h₀.step ⟨.bo_new, trivial, rfl⟩
  have h₂ := h₁.step ⟨.bo_new, trivial, rfl⟩
  have h₃ := h₂.step ⟨.add_submit .p3d 0, Nat.one_pos, rfl⟩
  have h₄ := h₃.step ⟨.post_submit .p3d 1 none, Nat.one_pos, rfl⟩
  have h₅ := h₄.step ⟨.add_submit .p3d 1, Nat.one_pos, rfl⟩
  have h₆ := h₅.step ⟨.post_submit .p3d 2 (some 0), show (1 : Nat) < 2 by decide, rfl⟩
  have h₇ := h₆.step ⟨.add_submit .p3d 0, Nat.one_pos, rfl⟩
  have h₈ := h₇.step ⟨.post_submit .p3d 3 (some 0), show (2 : Nat) < 3 by decide, rfl⟩
  exact ⟨_, h₈, rfl, rfl, (retirement h₈ .p3d 2).2, (retirement h₈ .p3d 2).1⟩

/-- The submissions 2^32 - 1 and 2^32: the timestamp of the second is 0, and its buffer is released with the first. -/
theorem retirement_wraps : ∃ s, Runs State.Init State.Step s ∧ s.last .p3d 0 = 2 ^ 32 - 1 ∧ s.last .p3d 1 = 2 ^ 32 ∧
    ¬ Retires .p3d (2 ^ 32 - 1) s := by
  have h₀ : Runs State.Init State.Step {} := .init ⟨_, rfl⟩
  have h₁ := h₀.step ⟨.bo_new, trivial, rfl⟩
  have h₂ := h₁.step ⟨.bo_new, trivial, rfl⟩
  have h₃ := h₂.step ⟨.add_submit .p3d 0, Nat.one_pos, rfl⟩
  have h₄ := h₃.step ⟨.post_submit .p3d (2 ^ 32 - 1) none, show 0 < 2 ^ 32 - 1 by decide, rfl⟩
  have h₅ := h₄.step ⟨.add_submit .p3d 1, Nat.one_pos, rfl⟩
  have h₆ := h₅.step ⟨.post_submit .p3d (2 ^ 32) none, show 2 ^ 32 - 1 < 2 ^ 32 by decide, rfl⟩
  refine ⟨_, h₆, rfl, rfl, fun h => ?_⟩
  exact absurd (congrFun h.pending .p3d) (by decide)

end Theorems

end LibDrm.Freedreno.Kgsl
