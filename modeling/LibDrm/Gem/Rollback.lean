/-
# `LibDrm.Gem.Rollback` — saving, emitting and clearing

A caller saves the number of relocations of a batch, emits some, and clears
down to the saved number when the batch has grown too large.  The relocations
and the references are then what they were.  The fence count need not be:
`do_bo_emit_reloc` adds the count that the target has at that time, and
`clear_relocs` subtracts the one it has later, and nothing for a relocation of
the batch to itself.  `fenceDrift` is the difference, and the batch is restored
exactly when the difference is 0 in an `int` (`clear_relocs_restores_iff`).
-/
import LibDrm.Gem.Machine

namespace LibDrm.Gem

open CInt

/-! ## Calls that all succeed -/

/-- Emit relocations in `b`, if every call returns 0. -/
def emitAll (b : BoId) (as : List EmitArgs) (s : Bufmgr) : Option Bufmgr :=
  as.foldlM (fun s a =>
    match boEmitReloc b a s with
    | .ok (ret, s') => if ret = 0 then some s' else none
    | .error _ => none) s

/-- The batch has the relocations and the fence count, and every object the references, that it had. -/
structure Restored (b : BoId) (s s' : Bufmgr) : Prop where
  relocs : (s'.bos b).relocs = (s.bos b).relocs
  refcount : ∀ c, (s'.bos c).refcount = (s.bos c).refcount
  fences : (s'.bos b).relocTreeFences = (s.bos b).relocTreeFences

/-! ## The fence counts -/

/-- The fence counts after a relocation from `b` to `x.1` was stored, which needs a fence if `x.2`. -/
def countFence (b : BoId) (φ : BoId → Int) (x : BoId × Bool) : BoId → Int :=
  let n := if x.2 then 1 else φ x.1
  if x.1 = b then Function.update φ b (n + n)
  else Function.update (Function.update φ x.1 n) b (φ b + n)

/-- The count of `b` is an `int`. -/
def wrap (b : BoId) (φ : BoId → Int) : BoId → Int := Function.update φ b (int32 (φ b))

/-- What the emitted relocations leave in the fence count of `b` after they were cleared:
the count is doubled by a relocation to itself, and of a target that needs a fence only later
the count at the time is added and 1 is subtracted. -/
def fenceDrift (b : BoId) : (BoId → Int) → List (BoId × Bool) → Int
  | _, [] => 0
  | φ, (t, fence) :: l =>
      (if t = b then (if fence then 2 - φ b else φ b)
        else if !fence && decide ((t, true) ∈ l) then φ t - 1 else 0)
      + fenceDrift b (countFence b φ (t, fence)) l

section Fences

variable {b : BoId}

theorem wrap_self (φ : BoId → Int) : wrap b φ b = int32 (φ b) := Function.update_self ..

theorem wrap_of_ne (φ : BoId → Int) {c : BoId} (hc : c ≠ b) : wrap b φ c = φ c := Function.update_of_ne hc ..

/-- A count that is an `int` at every step is the exact count, as an `int`. -/
theorem wrap_countFence (φ : BoId → Int) (x : BoId × Bool) :
    wrap b (countFence b (wrap b φ) x) = wrap b (countFence b φ x) := by
  obtain ⟨t, fence⟩ := x
  funext c
  by_cases hcb : c = b
  · subst hcb
    rw [wrap_self, wrap_self]
    by_cases htc : t = c
    · cases fence <;> simp [countFence, htc, wrap_self, int32_int32_add, int32_add_int32]
    · cases fence <;> simp [countFence, htc, wrap_self, wrap_of_ne, int32_int32_add]
  · rw [wrap_of_ne _ hcb, wrap_of_ne _ hcb]
    by_cases htb : t = b
    · simp [countFence, htb, hcb, wrap_of_ne]
    · by_cases hct : c = t
      · cases fence <;> simp [countFence, hct, htb, wrap_of_ne]
      · simp [countFence, htb, hcb, hct, wrap_of_ne]

theorem wrap_foldl (l : List (BoId × Bool)) (φ : BoId → Int) :
    wrap b (l.foldl (countFence b) φ) = wrap b (l.foldl (countFence b) (wrap b φ)) := by
  induction l generalizing φ with
  | nil => simp [wrap, int32_int32]
  | cons x l ih => rw [List.foldl_cons, List.foldl_cons, ih, ← wrap_countFence, ← ih]

/-- The later counts of another object: 1 as soon as it needs a fence. -/
theorem foldl_countFence_of_ne {t : BoId} (ht : t ≠ b) : ∀ (l : List (BoId × Bool)) (φ : BoId → Int),
    l.foldl (countFence b) φ t = if (t, true) ∈ l then 1 else φ t
  | [], _ => by simp
  | (u, fence) :: l, φ => by
      rw [List.foldl_cons, foldl_countFence_of_ne ht l]
      by_cases hin : (t, true) ∈ l
      · simp [hin]
      rw [if_neg hin]
      by_cases hub : u = b
      · simp [countFence, hub, ht, hin]
      · by_cases hut : u = t
        · subst hut
          cases fence <;> simp [countFence, hub, hin]
        · simp [countFence, hub, Ne.symm hut, ht, hin]

/-- What the clearing subtracts. -/
def dropSum (b : BoId) (φ : BoId → Int) (l : List BoId) : Int :=
  (l.map fun t => if t = b then 0 else φ t).sum

theorem dropSum_append (φ : BoId → Int) (l l' : List BoId) :
    dropSum b φ (l ++ l') = dropSum b φ l + dropSum b φ l' := by
  simp [dropSum]

theorem dropSum_wrap (φ : BoId → Int) (l : List BoId) : dropSum b (wrap b φ) l = dropSum b φ l := by
  refine congrArg List.sum (List.map_congr_left fun t _ => ?_)
  by_cases htb : t = b
  · rw [if_pos htb, if_pos htb]
  · rw [if_neg htb, if_neg htb, wrap_of_ne φ htb]

/-- The sum of what was added, less what is subtracted. -/
theorem foldl_countFence_sub (l : List (BoId × Bool)) (φ : BoId → Int) :
    l.foldl (countFence b) φ b - dropSum b (l.foldl (countFence b) φ) (l.map Prod.fst)
      = φ b + fenceDrift b φ l := by
  induction l generalizing φ with
  | nil => simp [dropSum, fenceDrift]
  | cons x l ih =>
      obtain ⟨t, fence⟩ := x
      have hrec := ih (countFence b φ (t, fence))
      have hsum : dropSum b (l.foldl (countFence b) (countFence b φ (t, fence))) ((t, fence) :: l |>.map Prod.fst)
          = (if t = b then 0 else l.foldl (countFence b) (countFence b φ (t, fence)) t)
            + dropSum b (l.foldl (countFence b) (countFence b φ (t, fence))) (l.map Prod.fst) := by
        simp [dropSum]
      rw [List.foldl_cons, hsum, fenceDrift]
      by_cases htb : t = b
      · have hb : countFence b φ (t, fence) b = (if fence then 2 - φ b else φ b) + φ b := by
          cases fence <;> simp [countFence, htb]
        rw [if_pos htb, if_pos htb]
        omega
      · have hb : countFence b φ (t, fence) b = φ b + if fence then 1 else φ t := by
          simp [countFence, htb]
        have ht : countFence b φ (t, fence) t = if fence then 1 else φ t := by
          simp [countFence, htb]
        rw [if_neg htb, if_neg htb, foldl_countFence_of_ne htb, ht]
        cases fence with
        | true =>
            simp only [Bool.not_true, Bool.false_and, Bool.false_eq_true, if_false, if_true, ite_self] at hb ⊢
            omega
        | false =>
            by_cases hin : (t, true) ∈ l
            · simp only [hin, decide_true, Bool.not_false, Bool.and_self, if_true, Bool.false_eq_true, if_false]
                at hb ⊢
              omega
            · simp only [hin, decide_false, Bool.and_false, Bool.false_eq_true, if_false] at hb ⊢
              omega

end Fences

/-! ## Emitting -/

section Emit

variable {b : BoId} {s s' : Bufmgr}

/-- The fence counts of all objects. -/
def Bufmgr.fences (s : Bufmgr) : BoId → Int := fun c => (s.bos c).relocTreeFences

/-- The relocations that calls ask for, as far as the fence counts go. -/
def fenceArgs (s : Bufmgr) (as : List EmitArgs) : List (BoId × Bool) :=
  as.map fun a => (a.target, a.needFence s)

/-- What the calls `as` have done. -/
structure EmitPost (b : BoId) (as : List EmitArgs) (s s' : Bufmgr) : Prop where
  lock : s'.lock = s.lock
  relocs : ∃ es, (s'.bos b).relocs = (s.bos b).relocs ++ es ∧ es.map Reloc.target = as.map EmitArgs.target
  refcount : ∀ c, (s'.bos c).refcount = (s.bos c).refcount + edgeRefs b c (as.map EmitArgs.target)
  fences : wrap b s'.fences = wrap b ((fenceArgs s as).foldl (countFence b) s.fences)
  int : int32 (s.fences b) = s.fences b → int32 (s'.fences b) = s'.fences b
  needFence : ∀ a : EmitArgs, a.needFence s' = a.needFence s

theorem storedReloc_fences (b : BoId) (a : EmitArgs) (nf fc : Bool) (room : Nat) (s : Bufmgr) :
    wrap b (storedReloc b a nf fc room s).fences = wrap b (countFence b s.fences (a.target, nf)) := by
  funext c
  by_cases ht : a.target = b
  · by_cases hcb : c = b
    · subst hcb
      rw [wrap_self, wrap_self, Bufmgr.fences, storedReloc_self_bos ht, if_pos rfl]
      cases nf <;> simp [Bo.gainsSelf, countFence, fencesOf, ht, Bufmgr.fences, int32_int32]
    · rw [wrap_of_ne _ hcb, wrap_of_ne _ hcb, Bufmgr.fences, storedReloc_self_bos ht, if_neg hcb]
      simp [countFence, ht, hcb, Bufmgr.fences]
  · by_cases hcb : c = b
    · subst hcb
      rw [wrap_self, wrap_self, Bufmgr.fences, storedReloc_bos ht, if_pos rfl]
      cases nf <;> simp [Bo.gains, countFence, fencesOf, ht, Bufmgr.fences, int32_int32]
    · rw [wrap_of_ne _ hcb, wrap_of_ne _ hcb, Bufmgr.fences, storedReloc_bos ht, if_neg hcb]
      by_cases hct : c = a.target
      · subst hct
        cases nf <;> simp [Bo.targeted, countFence, fencesOf, ht, Bufmgr.fences]
      · simp [countFence, ht, hcb, hct, Bufmgr.fences]

theorem storedReloc_int (b : BoId) (a : EmitArgs) (nf fc : Bool) (room : Nat) (s : Bufmgr) :
    int32 ((storedReloc b a nf fc room s).fences b) = (storedReloc b a nf fc room s).fences b := by
  unfold Bufmgr.fences
  by_cases ht : a.target = b
  · rw [storedReloc_self_bos ht, if_pos rfl]
    exact int32_int32 _
  · rw [storedReloc_bos ht, if_pos rfl]
    exact int32_int32 _

theorem storedReloc_tiling (b : BoId) (a : EmitArgs) (nf fc : Bool) (room : Nat) (s : Bufmgr) (c : BoId) :
    ((storedReloc b a nf fc room s).bos c).tilingMode = (s.bos c).tilingMode := by
  by_cases ht : a.target = b
  · rw [storedReloc_self_bos ht]
    split
    · rename_i hcb; subst hcb; rfl
    · rfl
  · rw [storedReloc_bos ht]
    split
    · rename_i hcb; subst hcb; rfl
    · split
      · rename_i hct; rw [hct]; rfl
      · rfl

theorem needFence_congr {a : EmitArgs} (hcfg : s'.cfg = s.cfg) (hf : s'.fencedRelocs = s.fencedRelocs)
    (ht : ∀ c, (s'.bos c).tilingMode = (s.bos c).tilingMode) : a.needFence s' = a.needFence s := by
  simp only [EmitArgs.needFence, EmitArgs.fencedCommand, hcfg, hf, ht]

theorem emit_post {a : EmitArgs} (h : boEmitReloc b a s = .ok (0, s')) : EmitPost b [a] s s' := by
  rcases boEmitReloc_cases h with ⟨hret, -⟩ | ⟨-, -, room, rfl⟩
  · exact absurd hret (by decide)
  have hrest := storedReloc_rest b a (a.needFence s) (a.fencedCommand s) room (s.modify b (Bo.setup room))
  have hset : ∀ {α : Type} (F : Bo → α), (∀ bo, F (Bo.setup room bo) = F bo) →
      ∀ c, F ((s.modify b (Bo.setup room)).bos c) = F (s.bos c) :=
    fun F hF c => modify_field F s b c (hF _)
  have hf := storedReloc_fields b a (a.needFence s) (a.fencedCommand s) room (s.modify b (Bo.setup room))
  refine ⟨(congrArg Bufmgr.lock hrest :),
    ⟨[a.entry (a.fencedCommand s) (s.modify b (Bo.setup room))], ?_, rfl⟩, fun c => ?_, ?_,
    fun _ => storedReloc_int .., fun a' => ?_⟩
  · rw [(hf b).2.2.1, if_pos rfl, modify_self]
    rfl
  · rw [(hf c).2.1, hset Bo.refcount fun _ => rfl]
    simp [edgeRefs_cons, edgeRefs_nil]
  · rw [storedReloc_fences]
    have hsame : (s.modify b (Bo.setup room)).fences = s.fences :=
      funext fun c => hset Bo.relocTreeFences (fun _ => rfl) c
    rw [hsame]
    rfl
  · refine needFence_congr (congrArg Bufmgr.cfg hrest :) (congrArg Bufmgr.fencedRelocs hrest :) fun c => ?_
    rw [storedReloc_tiling, hset Bo.tilingMode fun _ => rfl]

/-- What is done after the relocations that were emitted first. -/
theorem EmitPost.cons {a : EmitArgs} {as : List EmitArgs} {s₁ s₂ : Bufmgr} (h₁ : EmitPost b [a] s s₁)
    (h₂ : EmitPost b as s₁ s₂) : EmitPost b (a :: as) s s₂ := by
  obtain ⟨es₁, hes₁, ht₁⟩ := h₁.relocs
  obtain ⟨es₂, hes₂, ht₂⟩ := h₂.relocs
  refine ⟨h₂.lock.trans h₁.lock, ⟨es₁ ++ es₂, ?_, ?_⟩, fun c => ?_, ?_,
    fun h => h₂.int (h₁.int h), fun a' => ?_⟩
  · rw [hes₂, hes₁, List.append_assoc]
  · rw [List.map_append, ht₁, ht₂]
    rfl
  · rw [h₂.refcount, h₁.refcount, List.map_cons, edgeRefs_cons, List.map_cons, List.map_nil, edgeRefs_cons,
      edgeRefs_nil]
    omega
  · have hargs : fenceArgs s₁ as = fenceArgs s as :=
      List.map_congr_left fun a' _ => by rw [h₁.needFence]
    rw [h₂.fences, hargs, wrap_foldl, h₁.fences, ← wrap_foldl]
    rfl
  · rw [h₂.needFence, h₁.needFence]

theorem emitAll_post : ∀ {as : List EmitArgs} {s s' : Bufmgr}, emitAll b as s = some s' → EmitPost b as s s'
  | [], s, s', h => by
      obtain rfl : s = s' := Option.some.inj h
      exact ⟨rfl, ⟨[], by simp, rfl⟩, fun c => by simp [edgeRefs_nil], rfl, id, fun _ => rfl⟩
  | a :: as, s, s', h => by
      unfold emitAll at h
      rw [List.foldlM_cons] at h
      obtain ⟨s₁, h₁, h₂⟩ := Option.bind_eq_some_iff.mp h
      cases hemit : boEmitReloc b a s with
      | error e => rw [hemit] at h₁; cases h₁
      | ok r =>
          obtain ⟨ret, s₁'⟩ := r
          rw [hemit] at h₁
          simp only at h₁
          split at h₁
          · rename_i hret
            subst hret
            obtain rfl : s₁' = s₁ := Option.some.inj h₁
            exact (emit_post hemit).cons (emitAll_post h₂)
          · cases h₁

end Emit

/-! ## Clearing -/

section Clear

variable {b : BoId} {s : Bufmgr} (madv : Madvise) (time : Int)

/-- Of an object that keeps references only the count is written to. -/
theorem boUnreferenceLockedTimed_more {t : BoId} (ht : 1 < (s.bos t).refcount) (k : Nat) :
    boUnreferenceLockedTimed madv time (k + 1) t s = .ok (s.modify t Bo.decRef) := by
  have hpos : 0 < (s.bos t).refcount := by omega
  have hne : (s.bos t).refcount ≠ 1 := by omega
  simp only [boUnreferenceLockedTimed, hpos, decide_true, assert_true, ok_bind, if_neg hne]

/-- The loop of `clear_relocs` over targets that keep references. -/
theorem dropRelocs_spec {l : List BoId} (k : Nat) (hint : int32 (s.bos b).relocTreeFences = (s.bos b).relocTreeFences)
    (hmore : ∀ t ∈ l, t ≠ b → edgeRefs b t l < (s.bos t).refcount) :
    Returns (l.foldlM (fun s t => dropReloc (boUnreferenceLockedTimed madv time (k + 1)) b t s) s) fun s' =>
      (∀ c, (s'.bos c).refcount + edgeRefs b c l = (s.bos c).refcount)
      ∧ (s'.bos b).relocs = (s.bos b).relocs
      ∧ (s'.bos b).relocTreeFences = int32 (s.fences b - dropSum b s.fences l) := by
  refine (Returns.foldlM (I := fun done s' =>
      (∀ c, (s'.bos c).refcount + edgeRefs b c done = (s.bos c).refcount)
      ∧ (s'.bos b).relocs = (s.bos b).relocs
      ∧ s'.fences = Function.update s.fences b (int32 (s.fences b - dropSum b s.fences done))) ?_ ?_).mono ?_
  · refine ⟨fun c => by rw [edgeRefs_nil, add_zero], rfl, ?_⟩
    simp [dropSum, Bufmgr.fences, hint]
  · rintro done t rest s₁ hl ⟨href, hrel, hfen⟩
    unfold dropReloc
    by_cases htb : t = b
    · rw [if_pos htb]
      refine .ok ⟨fun c => ?_, hrel, ?_⟩
      · rw [edgeRefs_append, edgeRefs_cons, edgeRefs_nil, if_neg (fun h => h.1 htb)]
        exact href c
      · rw [hfen, dropSum_append]
        simp [dropSum, htb]
    rw [if_neg htb]
    -- the references of the target that are still to be dropped are not all it has
    have hcount : 1 < (s₁.bos t).refcount := by
      have hlt := hmore t (by simp [hl]) htb
      have hall := href t
      rw [hl, edgeRefs_append, edgeRefs_cons, if_pos ⟨htb, rfl⟩] at hlt
      omega
    rw [boUnreferenceLockedTimed_more madv time (by rw [modify_of_ne _ htb]; exact hcount)]
    refine .ok ⟨fun c => ?_, ?_, ?_⟩
    · have hall := href c
      rw [edgeRefs_append, edgeRefs_cons, edgeRefs_nil]
      by_cases hct : c = t
      · subst hct
        rw [modify_self, if_pos ⟨htb, rfl⟩, modify_of_ne _ htb]
        show (s₁.bos c).refcount - 1 + _ = _
        omega
      · rw [modify_of_ne _ hct, if_neg (fun h => hct h.2.symm),
          modify_field Bo.refcount s₁ b c rfl]
        exact hall
    · rw [modify_of_ne _ (Ne.symm htb), modify_self]
      exact hrel
    · have hb : s₁.fences b = int32 (s.fences b - dropSum b s.fences done) := by
        rw [hfen, Function.update_self]
      have ht : s₁.fences t = s.fences t := by rw [hfen, Function.update_of_ne htb]
      funext c
      show ((Bufmgr.modify _ t Bo.decRef).bos c).relocTreeFences = _
      rw [modify_field Bo.relocTreeFences _ t c rfl]
      by_cases hcb : c = b
      · subst hcb
        rw [modify_self, Function.update_self, dropSum_append]
        show int32 (s₁.fences c - s₁.fences t) = _
        rw [hb, ht, sub_eq_add_neg, int32_int32_add]
        simp [dropSum, htb]
        ring_nf
      · rw [modify_of_ne _ hcb, Function.update_of_ne hcb]
        exact (congrFun hfen c).trans (Function.update_of_ne hcb ..)
  · rintro s' ⟨href, hrel, hfen⟩
    exact ⟨href, hrel, (congrFun hfen b).trans (Function.update_self ..)⟩

end Clear

/-! ## The way back -/

/-- Emitted relocations are cleared again: the relocations and the references are what they
were, and the fence count is if and only if the emitted relocations leave nothing behind. -/
theorem clear_relocs_restores_iff {s s' : Bufmgr} {b : BoId} {as : List EmitArgs} (hlock : s.lock = false)
    (hint : int32 (s.bos b).relocTreeFences = (s.bos b).relocTreeFences)
    (hlive : ∀ a ∈ as, s.Live a.target) (hemit : emitAll b as s = some s') (madv : Madvise) (time : Int) :
    Returns (boClearRelocs madv time b (boGetRelocCount b s) s') (Restored b s)
      ↔ (2 ^ 32 : Int) ∣ fenceDrift b s.fences (fenceArgs s as) := by
  have hpost := emitAll_post hemit
  obtain ⟨es, hes, htargets⟩ := hpost.relocs
  have hdrop : (s'.bos b).targets.drop (boGetRelocCount b s) = as.map EmitArgs.target := by
    rw [Bo.targets, hes, boGetRelocCount, List.map_append, List.drop_left' (by simp), htargets]
  have hargs : (fenceArgs s as).map Prod.fst = as.map EmitArgs.target := by simp [fenceArgs]
  -- the count before the clearing, and what is taken off it
  let φ := (fenceArgs s as).foldl (countFence b) s.fences
  have hfences : ∀ c, wrap b s'.fences c = wrap b φ c := congrFun hpost.fences
  have hint' : int32 (s'.bos b).relocTreeFences = (s'.bos b).relocTreeFences := hpost.int hint
  have hb : s'.fences b = int32 (φ b) := by
    have := hfences b
    rw [wrap_self, wrap_self] at this
    exact hint'.symm.trans this
  have hsum : dropSum b s'.fences (as.map EmitArgs.target) = dropSum b φ (as.map EmitArgs.target) := by
    rw [← dropSum_wrap, hpost.fences, dropSum_wrap]
  have hend : int32 (s'.fences b - dropSum b s'.fences (as.map EmitArgs.target))
      = int32 (s.fences b + fenceDrift b s.fences (fenceArgs s as)) := by
    rw [hb, hsum, sub_eq_add_neg, int32_int32_add, ← sub_eq_add_neg, ← hargs, foldl_countFence_sub]
  have hclear : Returns (boClearRelocs madv time b (boGetRelocCount b s) s') fun s'' =>
      (s''.bos b).relocs = (s.bos b).relocs ∧ (∀ c, (s''.bos c).refcount = (s.bos c).refcount)
      ∧ (s''.bos b).relocTreeFences = int32 (s.fences b + fenceDrift b s.fences (fenceArgs s as)) := by
    have hlen : boGetRelocCount b s ≤ (s'.bos b).relocs.length := by
      rw [hes, List.length_append]
      exact Nat.le_add_right ..
    simp only [boClearRelocs, hlen, decide_true, assert_true, ok_bind]
    refine Bufmgr.locked_returns (hpost.lock.trans hlock) ?_
    simp only [hdrop]
    refine (dropRelocs_spec madv time (s := { s' with lock := true }) s'.nextBo hint' ?_).bind ?_
    · intro t ht htb
      obtain ⟨a, ha, rfl⟩ := List.mem_map.mp ht
      have hpos := (hlive a ha).2
      show _ < (s'.bos a.target).refcount
      rw [hpost.refcount]
      omega
    · rintro s₁ ⟨href, hrel, hfen⟩
      refine .pure ⟨?_, fun c => ?_, ?_⟩
      · show ((s₁.modify b (Bo.truncate (boGetRelocCount b s))).bos b).relocs = _
        rw [modify_self, Bo.truncate_relocs, hrel]
        show (s'.bos b).relocs.take _ = _
        rw [hes, boGetRelocCount, List.take_left' rfl]
      · have hall : (s₁.bos c).refcount + _ = (s'.bos c).refcount := href c
        have hrc := hpost.refcount c
        show ((s₁.modify b (Bo.truncate (boGetRelocCount b s))).bos c).refcount = _
        rw [modify_field Bo.refcount s₁ b c rfl]
        omega
      · show ((s₁.modify b (Bo.truncate (boGetRelocCount b s))).bos b).relocTreeFences = _
        rw [modify_self, ← hend]
        exact hfen
  obtain ⟨s'', hrun, hrelocs, href, hfen⟩ := hclear
  rw [← int32_add_eq_iff hint]
  constructor
  · rintro ⟨t, ht, hres⟩
    obtain rfl : s'' = t := Except.ok.inj (hrun.symm.trans ht)
    exact hfen.symm.trans hres.fences
  · intro hzero
    exact ⟨s'', hrun, hrelocs, href, hfen.trans hzero⟩

/-- A tiled object and a batch, before the 965, where commands say themselves whether they are fenced. -/
def tiledTarget : List Call :=
  [.enableFencedRelocs, .alloc 4096 false (.simple 1 1),
    .setTiling 0 I915_TILING_X 512 (.ok ⟨I915_TILING_X, 0, 512⟩), .alloc 8192 false (.simple 2 2)]

/-- A relocation of the batch to itself, a fenced one to the tiled object, and one that is not fenced. -/
def fencedFirst : List EmitArgs :=
  [⟨0, 1, 0, 0, 0, false, true⟩, ⟨4, 0, 0, 0, 0, true, true⟩, ⟨8, 0, 0, 0, 0, false, true⟩]

/-- The fenced relocation comes second. -/
def fencedLater : List EmitArgs := [⟨0, 0, 0, 0, 0, false, true⟩, ⟨4, 0, 0, 0, 0, true, true⟩]

theorem clear_relocs_restores_fencedFirst :
    ∃ σ s', playAll Call.clean { gen := 3 } .empty tiledTarget = some σ ∧ emitAll 1 fencedFirst σ.mgr = some s'
      ∧ Returns (boClearRelocs (fun _ => true) 0 1 (boGetRelocCount 1 σ.mgr) s') (Restored 1 σ.mgr) := by
  have hrun : (playAll Call.clean { gen := 3 } .empty tiledTarget).any (fun σ =>
      decide ((∀ a ∈ fencedFirst, σ.mgr.Live a.target)
        ∧ fenceDrift 1 σ.mgr.fences (fenceArgs σ.mgr fencedFirst) = 0)
      && (emitAll 1 fencedFirst σ.mgr).isSome) = true := by decide +kernel
  obtain ⟨σ, hplay, h, hp⟩ := playAll_any KernelOk.empty hrun
  obtain ⟨hp, hemit⟩ := Bool.and_eq_true_iff.mp hp
  obtain ⟨hlive, hdrift⟩ := of_decide_eq_true hp
  obtain ⟨s', hs'⟩ := Option.isSome_iff_exists.mp hemit
  have hrest := Reachable.rest h
  refine ⟨σ, s', hplay, hs', ?_⟩
  exact (clear_relocs_restores_iff hrest.lock (hrest.calm.fences 1) hlive hs' _ _).mpr (by rw [hdrift]; exact dvd_zero _)

/-- The count of the batch is then one too low. -/
theorem fencedLater_not_restored :
    ∃ σ s', Reachable Clean σ ∧ (∀ a ∈ fencedLater, σ.mgr.Live a.target)
      ∧ (σ.mgr.bos 1).usedAsRelocTarget = false ∧ emitAll 1 fencedLater σ.mgr = some s'
      ∧ ¬ Returns (boClearRelocs (fun _ => true) 0 1 (boGetRelocCount 1 σ.mgr) s') (Restored 1 σ.mgr) := by
  have hrun : (playAll Call.clean { gen := 3 } .empty tiledTarget).any (fun σ =>
      decide ((∀ a ∈ fencedLater, σ.mgr.Live a.target) ∧ (σ.mgr.bos 1).usedAsRelocTarget = false)
      && (emitAll 1 fencedLater σ.mgr).any fun s' =>
        returns (fun s'' => decide ((s''.bos 1).relocTreeFences = -1 ∧ (σ.mgr.bos 1).relocTreeFences = 0))
          (boClearRelocs (fun _ => true) 0 1 (boGetRelocCount 1 σ.mgr) s')) = true := by decide +kernel
  obtain ⟨σ, -, h, hp⟩ := playAll_any KernelOk.empty hrun
  obtain ⟨hp, hemit⟩ := Bool.and_eq_true_iff.mp hp
  obtain ⟨hlive, hused⟩ := of_decide_eq_true hp
  obtain ⟨s', hs', hret⟩ := (Option.any_eq_true _ _).mp hemit
  refine ⟨σ, s', h, hlive, hused, hs', fun hres => ?_⟩
  obtain ⟨s'', hclear, hcounts⟩ := returns_true hret
  obtain ⟨t, ht, hrestored⟩ := hres
  obtain rfl : s'' = t := Except.ok.inj (hclear.symm.trans ht)
  obtain ⟨hminus, hzero⟩ := of_decide_eq_true hcounts
  have := hrestored.fences
  rw [hminus, hzero] at this
  exact absurd this (by decide)

end LibDrm.Gem
