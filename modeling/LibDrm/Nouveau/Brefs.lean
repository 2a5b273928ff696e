/-
# `LibDrm.Nouveau.Brefs` — where the references of a buffer context are

A context has three lists of references, and every reference that it ever made is on one of them:

    pending    to be validated                    one bin each
    current    validated since the last flush     one bin each
    free       on no circular list

A bin counts the references that `nouveau_bufctx_mthd` put into it, and the context counts these of all
its bins.  Every operation keeps this, in whatever order they come (`Held`); it touches nothing of another
context (`Only`).
-/
import LibDrm.Nouveau.Bufctx
import Mathlib.Algebra.BigOperators.Group.Finset.Basic
import Mathlib.Data.List.Perm.Subperm

namespace LibDrm.Nouveau.Refs

open Push (Word Size PushId CtxId)
open DList (IsList SelfLinked)
open SList (Chain)

variable {s s' s'' : State} {c d : CtxId} {r x : BrefId} {b : Bufref} {ctx ctx' : Bufctx} {i j : Nat}

/-! ## Contexts -/

namespace State

/-- The pointer in a reference. -/
def nextOf (s : State) (r : BrefId) : Option BrefId := (s.bref r).bind Bufref.next

def isMthd (s : State) (r : BrefId) : Bool := ((s.bref r).map Bufref.byMthd).getD false

end State

/-- The references of a context. -/
structure Lists where
  pending : List BrefId
  current : List BrefId
  bin : Nat → List BrefId
  free : List BrefId

def Lists.all (v : Lists) : List BrefId := v.pending ++ v.current ++ v.free

variable {v v' : Lists}

/-- Every reference of the context is on exactly one of the three lists, and in one bin unless it is free. -/
structure Holds (s : State) (c : CtxId) (ctx : Bufctx) (v : Lists) : Prop where
  pending : IsList s.thead (.pending c) (v.pending.map .bref)
  current : IsList s.thead (.current c) (v.current.map .bref)
  idle : ∀ r ∈ v.free, SelfLinked s.thead (.bref r)
  bins : ∀ i < ctx.nrBins, Chain s.nextOf (ctx.bins i).list (v.bin i)
  free : Chain s.nextOf ctx.free v.free
  known : ∀ r, (∃ b, s.bref r = some b ∧ b.bufctx = c) ↔ r ∈ v.all
  once : v.all.Nodup
  binned : ∀ r, r ∈ v.pending ++ v.current ↔ ∃ i < ctx.nrBins, r ∈ v.bin i
  apart : ∀ r i j, i < ctx.nrBins → j < ctx.nrBins → r ∈ v.bin i → r ∈ v.bin j → i = j

/-- The numbers of relocations. -/
structure Counts (s : State) (ctx : Bufctx) (v : Lists) : Prop where
  bin : ∀ i < ctx.nrBins, (ctx.bins i).relocs = ((v.bin i).countP s.isMthd : Nat)
  all : ctx.relocs = ∑ i ∈ Finset.range ctx.nrBins, (ctx.bins i).relocs

/-- The context is there, and in order. -/
structure HeldAs (s : State) (c : CtxId) (ctx : Bufctx) (v : Lists) : Prop where
  present : s.ctx c = some ctx
  lists : Holds s c ctx v
  counts : Counts s ctx v

def Held (s : State) (c : CtxId) : Prop := ∃ ctx v, HeldAs s c ctx v

namespace Holds

theorem nodup (h : Holds s c ctx v) : v.pending.Nodup ∧ v.current.Nodup ∧ v.free.Nodup ∧
    v.pending.Disjoint v.current ∧ v.pending.Disjoint v.free ∧ v.current.Disjoint v.free := by
  have honce := h.once
  simp only [Lists.all, List.nodup_append', List.disjoint_append_left] at honce
  obtain ⟨⟨hp, hc, hpc⟩, hf, hpf, hcf⟩ := honce
  exact ⟨hp, hc, hf, hpc, hpf, hcf⟩

/-- The two circular lists have no node in common. -/
theorem disjoint (h : Holds s c ctx v) :
    (Thead.pending c :: v.pending.map .bref).Disjoint (Thead.current c :: v.current.map .bref) := by
  have hpc := h.nodup.2.2.2.1
  simp only [List.disjoint_cons_left, List.disjoint_cons_right, List.mem_cons, List.mem_map, reduceCtorEq, and_false,
    exists_false, or_false, not_false_eq_true, true_and]
  intro y hy hy'
  obtain ⟨r, hr, rfl⟩ := List.mem_map.mp hy
  obtain ⟨r', hr', heq⟩ := List.mem_map.mp hy'
  cases heq
  exact hpc hr hr'

theorem bref (h : Holds s c ctx v) (hr : r ∈ v.all) : ∃ b, s.bref r = some b ∧ b.bufctx = c := (h.known r).mpr hr

theorem notMem (h : Holds s c ctx v) (hr : s.bref r = some b) (hb : b.bufctx ≠ c) : r ∉ v.all := by
  intro hmem
  obtain ⟨b', hb', hc⟩ := h.bref hmem
  cases hr.symm.trans hb'
  exact hb hc

end Holds

/-! ## What belongs to other contexts -/

/-- The lists of contexts are as before, and nothing is new. -/
structure Settled (s s' : State) : Prop where
  head : s'.head = s.head
  freshBref : s'.freshBref = s.freshBref
  freshCtx : s'.freshCtx = s.freshCtx
  freshPush : s'.freshPush = s.freshPush

theorem Settled.refl (s : State) : Settled s s := ⟨rfl, rfl, rfl, rfl⟩

theorem Settled.trans (h : Settled s s') (h' : Settled s' s'') : Settled s s'' :=
  ⟨h'.head.trans h.head, h'.freshBref.trans h.freshBref, h'.freshCtx.trans h.freshCtx, h'.freshPush.trans h.freshPush⟩

/-- Only what belongs to the context changes. -/
structure Only (c : CtxId) (s s' : State) : Prop where
  ctx : ∀ d, d ≠ c → s'.ctx d = s.ctx d
  bref : ∀ r b, b.bufctx ≠ c → (s'.bref r = some b ↔ s.bref r = some b)
  heads : ∀ d, d ≠ c → s'.thead (.pending d) = s.thead (.pending d) ∧ s'.thead (.current d) = s.thead (.current d)
  threads : ∀ r b, s.bref r = some b → b.bufctx ≠ c → s'.thead (.bref r) = s.thead (.bref r)

theorem Only.refl (c : CtxId) (s : State) : Only c s s :=
  ⟨fun _ _ => rfl, fun _ _ _ => Iff.rfl, fun _ _ => ⟨rfl, rfl⟩, fun _ _ _ _ => rfl⟩

theorem Only.trans (h : Only c s s') (h' : Only c s' s'') : Only c s s'' where
  ctx d hd := (h'.ctx d hd).trans (h.ctx d hd)
  bref r b hb := (h'.bref r b hb).trans (h.bref r b hb)
  heads d hd := ⟨(h'.heads d hd).1.trans (h.heads d hd).1, (h'.heads d hd).2.trans (h.heads d hd).2⟩
  threads r b hr hb := (h'.threads r b ((h.bref r b hb).mpr hr) hb).trans (h.threads r b hr hb)

/-- The lists of a context are read from its own nodes only. -/
theorem Holds.congr (h : Holds s c ctx v) (hthead : ∀ r ∈ v.all, s'.thead (.bref r) = s.thead (.bref r))
    (hheads : s'.thead (.pending c) = s.thead (.pending c) ∧ s'.thead (.current c) = s.thead (.current c))
    (hbref : ∀ r b, b.bufctx = c → (s'.bref r = some b ↔ s.bref r = some b)) : Holds s' c ctx v := by
  have hsame : ∀ r ∈ v.all, s'.bref r = s.bref r := by
    intro r hr
    obtain ⟨b, hb, hbc⟩ := h.bref hr
    rw [hb]
    exact (hbref r b hbc).mpr hb
  have hnext : ∀ r ∈ v.all, s'.nextOf r = s.nextOf r := fun r hr => by rw [State.nextOf, hsame r hr, State.nextOf]
  have hbin : ∀ i < ctx.nrBins, ∀ r ∈ v.bin i, r ∈ v.all := fun i hi r hr =>
    List.mem_append_left _ ((h.binned r).mpr ⟨i, hi, hr⟩)
  refine ⟨h.pending.congr ?_, h.current.congr ?_, fun r hr => ?_, fun i hi => ?_, ?_, fun r => ?_, h.once, h.binned, h.apart⟩
  · intro y hy
    rcases List.mem_cons.mp hy with rfl | hy
    · exact hheads.1
    · obtain ⟨r, hr, rfl⟩ := List.mem_map.mp hy
      exact hthead r (by simp [Lists.all, hr])
  · intro y hy
    rcases List.mem_cons.mp hy with rfl | hy
    · exact hheads.2
    · obtain ⟨r, hr, rfl⟩ := List.mem_map.mp hy
      exact hthead r (by simp [Lists.all, hr])
  · exact (hthead r (by simp [Lists.all, hr])).trans (h.idle r hr)
  · exact (h.bins i hi).congr fun r hr => hnext r (hbin i hi r hr)
  · exact h.free.congr fun r hr => hnext r (by simp [Lists.all, hr])
  · rw [← h.known r]
    constructor
    · rintro ⟨b, hb, hbc⟩
      exact ⟨b, (hbref r b hbc).mp hb, hbc⟩
    · rintro ⟨b, hb, hbc⟩
      exact ⟨b, (hbref r b hbc).mpr hb, hbc⟩

theorem HeldAs.frame (h : HeldAs s d ctx v) (ho : Only c s s') (hd : d ≠ c) : HeldAs s' d ctx v := by
  obtain ⟨hctx, hv, hcounts⟩ := h
  have hbref : ∀ r b, b.bufctx = d → (s'.bref r = some b ↔ s.bref r = some b) :=
    fun r b hb => ho.bref r b (hb ▸ hd)
  have hsame : ∀ r ∈ v.all, s'.bref r = s.bref r := by
    intro r hr
    obtain ⟨b, hb, hbc⟩ := hv.bref hr
    rw [hb]
    exact (hbref r b hbc).mpr hb
  refine ⟨(ho.ctx d hd).trans hctx, hv.congr (fun r hr => ?_) (ho.heads d hd) hbref, ⟨fun i hi => ?_, hcounts.all⟩⟩
  · obtain ⟨b, hb, hbc⟩ := hv.bref hr
    exact ho.threads r b hb (hbc ▸ hd)
  · rw [hcounts.bin i hi]
    refine congrArg Nat.cast (List.countP_congr fun r hr => ?_)
    rw [State.isMthd, State.isMthd, hsame r (List.mem_append_left _ ((hv.binned r).mpr ⟨i, hi, hr⟩))]

theorem Held.frame (h : Held s d) (ho : Only c s s') (hd : d ≠ c) : Held s' d := by
  obtain ⟨ctx, v, hv⟩ := h
  exact ⟨ctx, v, hv.frame ho hd⟩

/-! ## Validating and flushing -/

/-- The two lists of a context change; its references do not. -/
theorem Holds.relist (h : Holds s c ctx v) {thead : DList.Mem Thead} {pending current : List BrefId} (head : DList.Mem Head)
    (hpending : IsList thead (.pending c) (pending.map .bref)) (hcurrent : IsList thead (.current c) (current.map .bref))
    (hperm : (pending ++ current).Perm (v.pending ++ v.current))
    (hframe : ∀ y, y ∉ Thead.pending c :: v.pending.map .bref → y ∉ Thead.current c :: v.current.map .bref →
      thead y = s.thead y) :
    Holds { s with thead, head } c ctx { v with pending, current } ∧ Only c s { s with thead, head } := by
  have hall : ∀ r, r ∈ Lists.all { v with pending, current } ↔ r ∈ v.all := by
    intro r
    simp only [Lists.all, List.mem_append (s := pending ++ current), List.mem_append (s := v.pending ++ v.current)]
    rw [hperm.mem_iff]
  refine ⟨⟨hpending, hcurrent, fun r hr => ?_, h.bins, h.free, fun r => (h.known r).trans (hall r).symm, ?_, fun r => ?_,
    h.apart⟩, ⟨fun _ _ => rfl, fun _ _ _ => Iff.rfl, fun d hd => ?_, fun r b hb hbc => ?_⟩⟩
  · refine (hframe (.bref r) ?_ ?_).trans (h.idle r hr)
    · simpa using fun hp => h.nodup.2.2.2.2.1 hp hr
    · simpa using fun hp => h.nodup.2.2.2.2.2 hp hr
  · exact ((hperm.append_right v.free).nodup_iff).mpr h.once
  · rw [← h.binned r]
    exact hperm.mem_iff
  · exact ⟨hframe _ (by simp [hd]) (by simp), hframe _ (by simp) (by simp [hd])⟩
  · have hmem := h.notMem hb hbc
    simp only [Lists.all, List.mem_append, not_or] at hmem
    exact hframe (.bref r) (by simpa using hmem.1.1) (by simpa using hmem.1.2)

def Lists.joined (v : Lists) : Lists := { v with pending := [], current := v.pending ++ v.current }

def Lists.requeued (v : Lists) : Lists := { v with pending := v.current ++ v.pending, current := [] }

theorem joinPending_held (h : HeldAs s c ctx v) : ∃ s', joinPending c s = some s' ∧ HeldAs s' c ctx v.joined ∧ Only c s s' ∧
    Settled s s' ∧ s'.bref = s.bref := by
  obtain ⟨hctx, hv, hcounts⟩ := h
  obtain ⟨t₁, t₂, h₁, h₂, hempty, hlist, hframe⟩ := hv.pending.splice hv.current hv.disjoint
  have hperm : ([] ++ (v.pending ++ v.current)).Perm (v.pending ++ v.current) := .refl _
  obtain ⟨hholds, honly⟩ := hv.relist s.head hempty (List.map_append ▸ hlist) hperm hframe
  refine ⟨{ s with thead := t₂ }, ?_, ⟨hctx, hholds, ⟨hcounts.bin, hcounts.all⟩⟩, honly, ⟨rfl, rfl, rfl, rfl⟩, rfl⟩
  simp [joinPending, hctx, h₁, h₂]

/-- Of a flush, what it does to the lists of a context. -/
theorem requeue_held (h : HeldAs s c ctx v) (head : DList.Mem Head) :
    ∃ t₁ t₂, DList.join s.thead (.current c) (.pending c) = some t₁ ∧ DList.init t₁ (.current c) = some t₂ ∧
      HeldAs { s with thead := t₂, head } c ctx v.requeued ∧ Only c s { s with thead := t₂, head } := by
  obtain ⟨hctx, hv, hcounts⟩ := h
  obtain ⟨t₁, t₂, h₁, h₂, hempty, hlist, hframe⟩ := hv.current.splice hv.pending hv.disjoint.symm
  have hperm : (v.current ++ v.pending ++ []).Perm (v.pending ++ v.current) := by
    rw [List.append_nil]
    exact List.perm_append_comm
  obtain ⟨hholds, honly⟩ := hv.relist head (List.map_append ▸ hlist) hempty hperm fun y hp hc => hframe y hc hp
  exact ⟨t₁, t₂, h₁, h₂, ⟨hctx, hholds, ⟨hcounts.bin, hcounts.all⟩⟩, honly⟩

/-! ## A reference goes to the free list -/

theorem Holds.fuel (h : Holds s c ctx v) (hfresh : ∀ r, s.freshBref ≤ r → s.bref r = none) {l : List BrefId}
    (hl : ∀ r ∈ l, r ∈ v.all) (hnodup : l.Nodup) : l.length < s.freshBref + 1 := by
  have hsub : l ⊆ List.range s.freshBref := by
    intro r hr
    obtain ⟨b, hb, -⟩ := h.bref (hl r hr)
    rw [List.mem_range]
    refine Nat.lt_of_not_le fun hle => ?_
    cases (hfresh r hle).symm.trans hb
  have hle := (hnodup.subperm hsub).length_le
  rw [List.length_range] at hle
  exact Nat.lt_succ_of_le hle

theorem map_erase_bref (l : List BrefId) (r : BrefId) : (l.map Thead.bref).erase (.bref r) = (l.erase r).map .bref := by
  refine (List.map_erase ?_ ..).symm
  intro x y h
  cases h
  rfl

/-- It leaves its circular list. -/
theorem Holds.delInit (h : Holds s c ctx v) (hr : r ∈ v.pending ++ v.current) :
    ∃ thead, DList.delInit s.thead (.bref r) = some thead ∧
      IsList thead (.pending c) ((v.pending.erase r).map .bref) ∧ IsList thead (.current c) ((v.current.erase r).map .bref) ∧
      SelfLinked thead (.bref r) ∧
      ∀ y, y ∉ Thead.pending c :: v.pending.map .bref → y ∉ Thead.current c :: v.current.map .bref → thead y = s.thead y := by
  have hpc := h.nodup.2.2.2.1
  rcases List.mem_append.mp hr with hr | hr
  · obtain ⟨thead, hrun, hlist, hself, -, hframe⟩ := h.pending.delInit (List.mem_map_of_mem hr)
    rw [map_erase_bref] at hlist
    have hcurrent := h.current.congr fun y hy => hframe y fun hy' => h.disjoint hy' hy
    rw [List.erase_of_not_mem fun hc => hpc hr hc]
    exact ⟨thead, hrun, hlist, hcurrent, hself, fun y hy _ => hframe y hy⟩
  · obtain ⟨thead, hrun, hlist, hself, -, hframe⟩ := h.current.delInit (List.mem_map_of_mem hr)
    rw [map_erase_bref] at hlist
    have hpending := h.pending.congr fun y hy => hframe y fun hy' => h.disjoint hy hy'
    rw [List.erase_of_not_mem fun hp => hpc hp hr]
    exact ⟨thead, hrun, hpending, hlist, hself, fun y _ hy => hframe y hy⟩

@[simp] theorem setBref_bref (r : BrefId) (b : Bufref) (s : State) : (s.setBref r b).bref = Function.update s.bref r (some b) := rfl

@[simp] theorem setCtx_bref (c : CtxId) (ctx : Bufctx) (s : State) : (s.setCtx c ctx).bref = s.bref := rfl

@[simp] theorem setCtx_ctx (c : CtxId) (ctx : Bufctx) (s : State) : (s.setCtx c ctx).ctx = Function.update s.ctx c (some ctx) := rfl

theorem nextOf_setBref (r : BrefId) (b : Bufref) (s : State) :
    (s.setBref r b).nextOf = Function.update s.nextOf r b.next := by
  funext x
  by_cases hx : x = r
  · subst hx
    simp [State.nextOf]
  · simp [State.nextOf, Function.update_of_ne hx]

theorem isMthd_setBref (r : BrefId) (b : Bufref) (s : State) :
    (s.setBref r b).isMthd = Function.update s.isMthd r b.byMthd := by
  funext x
  by_cases hx : x = r
  · subst hx
    simp [State.isMthd]
  · simp [State.isMthd, Function.update_of_ne hx]

/-- The state after a round of the loop in `nouveau_bufctx_reset`. -/
def retired (c : CtxId) (i : Nat) (r : BrefId) (ctx : Bufctx) (b : Bufref) (thead : DList.Mem Thead) (s : State) : State :=
  ({ s with thead }.setBref r { b with next := ctx.free }).setCtx c
    { ctx.setBin i { ctx.bins i with list := b.next } with free := some r }

def Lists.retire (i : Nat) (r : BrefId) (l : List BrefId) (v : Lists) : Lists where
  pending := v.pending.erase r
  current := v.current.erase r
  bin := Function.update v.bin i l
  free := r :: v.free

theorem Lists.retire_perm {l : List BrefId} (h : v.all.Nodup) (hr : r ∈ v.pending ++ v.current) :
    (v.retire i r l).all.Perm v.all := by
  have hmem : r ∈ v.all := List.mem_append_left _ hr
  have hnot : r ∉ v.free := fun hf => (List.disjoint_of_nodup_append h) hr hf
  have hpart : (v.pending.erase r ++ v.current.erase r).Perm ((v.pending ++ v.current).erase r) := by
    have hnodup := List.nodup_append'.mp (List.nodup_append'.mp h).1
    rcases List.mem_append.mp hr with hp | hc
    · rw [List.erase_append_left _ hp, List.erase_of_not_mem (hnodup.2.2 hp)]
    · rw [List.erase_append_right _ (hnodup.2.2.symm hc), List.erase_of_not_mem (hnodup.2.2.symm hc)]
  refine (hpart.append_right _).trans (List.perm_middle.trans ?_)
  exact (List.perm_cons_erase hr).symm.append_right v.free

theorem Holds.retire (h : Holds s c ctx v) (hi : i < ctx.nrBins) {l : List BrefId} (hbin : v.bin i = r :: l)
    (hb : s.bref r = some b) {thead : DList.Mem Thead}
    (hpending : IsList thead (.pending c) ((v.pending.erase r).map .bref))
    (hcurrent : IsList thead (.current c) ((v.current.erase r).map .bref)) (hself : SelfLinked thead (.bref r))
    (hframe : ∀ y, y ∉ Thead.pending c :: v.pending.map .bref → y ∉ Thead.current c :: v.current.map .bref →
      thead y = s.thead y) :
    Holds (retired c i r ctx b thead s) c { ctx.setBin i { ctx.bins i with list := b.next } with free := some r } (v.retire i r l) ∧
      Only c s (retired c i r ctx b thead s) := by
  have hr : r ∈ v.pending ++ v.current := (h.binned r).mpr ⟨i, hi, by simp [hbin]⟩
  have hrall : r ∈ v.all := List.mem_append_left _ hr
  obtain ⟨-, -, -, -, hpf, hcf⟩ := h.nodup
  have hperm := Lists.retire_perm (i := i) (l := l) h.once hr
  have hnext : (retired c i r ctx b thead s).nextOf = Function.update s.nextOf r ctx.free := nextOf_setBref ..
  have hown : b.bufctx = c := by
    obtain ⟨b', hb', hc⟩ := h.bref hrall
    cases hb.symm.trans hb'
    exact hc
  have hrl : r ∉ l := by
    have hnodup := (h.bins i hi).nodup
    rw [hbin] at hnodup
    exact (List.nodup_cons.mp hnodup).1
  have hrfree : r ∉ v.free := fun hf => by
    rcases List.mem_append.mp hr with hp | hc
    · exact hpf hp hf
    · exact hcf hc hf
  have hless : ∀ {x} j, x ∈ Function.update v.bin i l j → x ∈ v.bin j := by
    intro x j hx
    by_cases hji : j = i
    · subst hji
      rw [Function.update_self] at hx
      rw [hbin]
      exact List.mem_cons_of_mem r hx
    · rwa [Function.update_of_ne hji] at hx
  have hgone : ∀ j < ctx.nrBins, r ∉ Function.update v.bin i l j := by
    intro j hj hx
    by_cases hji : j = i
    · subst hji
      rw [Function.update_self] at hx
      exact hrl hx
    · rw [Function.update_of_ne hji] at hx
      exact hji (h.apart r j i hj hi hx (by simp [hbin]))
  have hbref : ∀ x, (retired c i r ctx b thead s).bref x = if x = r then some { b with next := ctx.free } else s.bref x :=
    fun x => Function.update_apply ..
  refine ⟨⟨hpending, hcurrent, fun x hx => ?_, fun j hj => ?_, ⟨rfl, ?_⟩, fun x => ?_, hperm.nodup_iff.mpr h.once, fun x => ?_,
    fun x j k hj hk hxj hxk => ?_⟩, ⟨fun d hd => Function.update_of_ne hd .., fun x b' hb' => ?_, fun d hd => ?_, fun x b' hx hb' => ?_⟩⟩
  · rcases List.mem_cons.mp hx with rfl | hx
    · exact hself
    · refine (hframe (.bref x) ?_ ?_).trans (h.idle x hx)
      · simpa using fun hp => hpf hp hx
      · simpa using fun hp => hcf hp hx
  · by_cases hji : j = i
    · subst hji
      have hchain := h.bins j hi
      rw [hbin] at hchain
      obtain ⟨-, hrest⟩ := hchain
      rw [State.nextOf, hb] at hrest
      simp only [Bufctx.setBin, Lists.retire, Function.update_self, hnext]
      exact hrest.congr fun x hx => Function.update_of_ne (ne_of_mem_of_not_mem hx hrl) _ _
    · simp only [Bufctx.setBin, Lists.retire, Function.update_of_ne hji, hnext]
      have hrj : r ∉ v.bin j := fun hx => hji (h.apart r j i hj hi hx (by simp [hbin]))
      exact (h.bins j hj).congr fun x hx => Function.update_of_ne (ne_of_mem_of_not_mem hx hrj) _ _
  · rw [hnext, Function.update_self]
    exact h.free.congr fun x hx => Function.update_of_ne (ne_of_mem_of_not_mem hx hrfree) _ _
  · rw [hperm.mem_iff, ← h.known x, hbref]
    by_cases hx : x = r
    · subst hx
      simp [hb, hown]
    · simp [hx]
  · have hnodup := h.nodup
    have hbins : (∃ j < ctx.nrBins, x ∈ Function.update v.bin i l j) ↔ x ≠ r ∧ ∃ j < ctx.nrBins, x ∈ v.bin j := by
      constructor
      · rintro ⟨j, hj, hx⟩
        exact ⟨fun e => hgone j hj (e ▸ hx), j, hj, hless j hx⟩
      · rintro ⟨hxr, j, hj, hx⟩
        refine ⟨j, hj, ?_⟩
        by_cases hji : j = i
        · subst hji
          rw [hbin] at hx
          rw [Function.update_self]
          exact (List.mem_cons.mp hx).resolve_left hxr
        · rwa [Function.update_of_ne hji]
    show x ∈ v.pending.erase r ++ v.current.erase r ↔ ∃ j < ctx.nrBins, x ∈ Function.update v.bin i l j
    rw [hbins, ← h.binned x, List.mem_append, List.mem_append, hnodup.1.mem_erase_iff, hnodup.2.1.mem_erase_iff, and_or_left]
  · exact h.apart x j k hj hk (hless j hxj) (hless k hxk)
  · rw [hbref]
    by_cases hx : x = r
    · subst hx
      rw [if_pos rfl, hb]
      constructor
      · rintro ⟨⟩
        exact absurd hown hb'
      · rintro ⟨⟩
        exact absurd hown hb'
    · rw [if_neg hx]
  · exact ⟨hframe _ (by simp [hd]) (by simp), hframe _ (by simp) (by simp [hd])⟩
  · have hmem := h.notMem hx hb'
    simp only [Lists.all, List.mem_append, not_or] at hmem
    exact hframe (.bref x) (by simpa using hmem.1.1) (by simpa using hmem.1.2)

/-- What the loop in `nouveau_bufctx_reset` does. -/
structure Emptied (c : CtxId) (i : Nat) (s : State) (ctx : Bufctx) (v : Lists) (s' : State) (ctx' : Bufctx) (v' : Lists) :
    Prop where
  present : s'.ctx c = some ctx'
  lists : Holds s' c ctx' v'
  nrBins : ctx'.nrBins = ctx.nrBins
  relocs : ctx'.relocs = ctx.relocs
  binRelocs : (ctx'.bins i).relocs = (ctx.bins i).relocs
  empty : v'.bin i = []
  others : ∀ j, j ≠ i → v'.bin j = v.bin j ∧ ctx'.bins j = ctx.bins j
  mthd : s'.isMthd = s.isMthd
  only : Only c s s'
  settled : Settled s s'
  brefs : ∀ x, s.bref x = none → s'.bref x = none

theorem resetLoop_ok {fuel : Nat} (hctx : s.ctx c = some ctx) (h : Holds s c ctx v) (hi : i < ctx.nrBins)
    (hfuel : (v.bin i).length < fuel) :
    ∃ s' ctx' v', resetLoop c i fuel s = some s' ∧ Emptied c i s ctx v s' ctx' v' := by
  induction fuel generalizing s ctx v with
  | zero => exact absurd hfuel (Nat.not_lt_zero _)
  | succ fuel ih =>
      have hchain := h.bins i hi
      cases hbin : v.bin i with
      | nil =>
          rw [hbin] at hchain
          have hlist : (ctx.bins i).list = none := hchain
          refine ⟨s, ctx, v, ?_, ⟨hctx, h, rfl, rfl, rfl, hbin, fun _ _ => ⟨rfl, rfl⟩, rfl, .refl c s, .refl s, fun _ h => h⟩⟩
          simp [resetLoop, hctx, Bufctx.bin, hi, hlist]
      | cons r l =>
          rw [hbin] at hchain
          have hlist : (ctx.bins i).list = some r := hchain.1
          have hr : r ∈ v.pending ++ v.current := (h.binned r).mpr ⟨i, hi, by simp [hbin]⟩
          obtain ⟨b, hb, -⟩ := h.bref (List.mem_append_left _ hr)
          obtain ⟨thead, hdel, hpending, hcurrent, hself, hframe⟩ := h.delInit hr
          obtain ⟨h₁, honly⟩ := h.retire hi hbin hb hpending hcurrent hself hframe
          have hctx₁ : (retired c i r ctx b thead s).ctx c =
              some { ctx.setBin i { ctx.bins i with list := b.next } with free := some r } := Function.update_self ..
          have hmthd : (retired c i r ctx b thead s).isMthd = s.isMthd := by
            refine (isMthd_setBref ..).trans (Function.update_eq_self_iff.mpr ?_)
            simp [State.isMthd, hb]
          have hlen : ((v.retire i r l).bin i).length < fuel := by
            simp only [Lists.retire, Function.update_self]
            rw [hbin, List.length_cons] at hfuel
            omega
          have hsettled : Settled s (retired c i r ctx b thead s) := ⟨rfl, rfl, rfl, rfl⟩
          obtain ⟨s', ctx', v', hrun, hE⟩ := ih hctx₁ h₁ hi hlen
          refine ⟨s', ctx', v', ?_, ⟨hE.present, hE.lists, hE.nrBins, hE.relocs, ?_, hE.empty, fun j hj => ?_, hE.mthd.trans hmthd,
            honly.trans hE.only, hsettled.trans hE.settled, fun x hx => hE.brefs x ?_⟩⟩
          · rw [← hrun]
            simp [resetLoop, hctx, Bufctx.bin, hi, hlist, hdel, hb, retired]
          · rw [hE.binRelocs]
            simp [Bufctx.setBin]
          · rw [(hE.others j hj).1, (hE.others j hj).2]
            simp [Lists.retire, Bufctx.setBin, Function.update_of_ne hj]
          · have hxr : x ≠ r := by
              rintro rfl
              cases hb.symm.trans hx
            exact (Function.update_of_ne hxr ..).trans hx

/-- The numbers of all bins, one of which is another. -/
theorem sum_setBin {f : Nat → Int} {n : Nat} (hi : i < n) (z : Int) :
    ∑ j ∈ Finset.range n, Function.update f i z j = ∑ j ∈ Finset.range n, f j - f i + z := by
  have hmem : i ∈ Finset.range n := Finset.mem_range.mpr hi
  rw [Finset.sum_update_of_mem hmem, Finset.sum_eq_add_sum_sdiff_singleton_of_mem hmem]
  omega

/-- The numbers of a context change. -/
theorem Holds.recount (h : Holds s c ctx v) (hn : ctx'.nrBins = ctx.nrBins) (hfree : ctx'.free = ctx.free)
    (hlist : ∀ i, (ctx'.bins i).list = (ctx.bins i).list) : Holds (s.setCtx c ctx') c ctx' v where
  pending := h.pending
  current := h.current
  idle := h.idle
  bins i hi := by
    rw [hlist]
    exact h.bins i (hn ▸ hi)
  free := by
    rw [hfree]
    exact h.free
  known := h.known
  once := h.once
  binned r := by
    rw [hn]
    exact h.binned r
  apart r i j hi hj := h.apart r i j (hn ▸ hi) (hn ▸ hj)

theorem Only.setCtx (h : Only c s s') (ctx : Bufctx) : Only c s (s'.setCtx c ctx) where
  ctx d hd := (Function.update_of_ne hd ..).trans (h.ctx d hd)
  bref := h.bref
  heads := h.heads
  threads := h.threads

theorem Settled.setCtx (h : Settled s s') (c : CtxId) (ctx : Bufctx) : Settled s (s'.setCtx c ctx) :=
  ⟨h.head, h.freshBref, h.freshCtx, h.freshPush⟩

theorem bufctxReset_held (h : HeldAs s c ctx v) (hfresh : ∀ r, s.freshBref ≤ r → s.bref r = none) (hi : i < ctx.nrBins) :
    ∃ s' ctx' v', bufctxReset c i s = some s' ∧ HeldAs s' c ctx' v' ∧ ctx'.nrBins = ctx.nrBins ∧ v'.bin i = [] ∧
      (∀ j, j ≠ i → v'.bin j = v.bin j) ∧ Only c s s' ∧ Settled s s' ∧ ∀ x, s.bref x = none → s'.bref x = none := by
  have hlen : (v.bin i).length < s.freshBref + 1 :=
    h.lists.fuel hfresh (fun r hr => List.mem_append_left _ ((h.lists.binned r).mpr ⟨i, hi, hr⟩)) (h.lists.bins i hi).nodup
  obtain ⟨s₁, ctx₁, v₁, hrun, hE⟩ := resetLoop_ok h.present h.lists hi hlen
  have hi₁ : i < ctx₁.nrBins := hE.nrBins ▸ hi
  have hbins : ∀ j, (ctx₁.bins j).relocs = (ctx.bins j).relocs := by
    intro j
    by_cases hji : j = i
    · rw [hji, hE.binRelocs]
    · rw [(hE.others j hji).2]
  obtain ⟨ctx₂, hctx₂⟩ : ∃ ctx₂, ctx₂ = { ctx₁.setBin i { ctx₁.bins i with relocs := 0 } with
    relocs := ctx₁.relocs - (ctx₁.bins i).relocs } := ⟨_, rfl⟩
  have hbins₂ : ∀ j, (ctx₂.bins j).relocs = Function.update (fun j => (ctx.bins j).relocs) i 0 j := by
    intro j
    by_cases hji : j = i
    · subst hji
      simp [hctx₂, Bufctx.setBin]
    · simp [hctx₂, Bufctx.setBin, Function.update_of_ne hji, hbins j]
  refine ⟨s₁.setCtx c ctx₂, ctx₂, v₁, ?_, ⟨Function.update_self .., ?_, ⟨fun j hj => ?_, ?_⟩⟩, ?_, hE.empty,
    fun j hj => (hE.others j hj).1, hE.only.setCtx ctx₂, hE.settled.setCtx c ctx₂,
    hE.brefs⟩
  · simp [bufctxReset, hrun, hE.present, Bufctx.bin, hi₁, hctx₂]
  · refine hE.lists.recount (by rw [hctx₂]; rfl) (by rw [hctx₂]; rfl) fun j => ?_
    by_cases hji : j = i
    · subst hji
      simp [hctx₂, Bufctx.setBin]
    · simp [hctx₂, Bufctx.setBin, Function.update_of_ne hji]
  · have hj' : j < ctx.nrBins := by
      rw [hctx₂] at hj
      exact hE.nrBins ▸ hj
    rw [hbins₂ j]
    by_cases hji : j = i
    · subst hji
      simp [hE.empty]
    · have hmthd : (s₁.setCtx c ctx₂).isMthd = s.isMthd := hE.mthd
      rw [Function.update_of_ne hji, h.counts.bin j hj', hmthd, (hE.others j hji).1]
  · have hn : ctx₂.nrBins = ctx.nrBins := by
      rw [hctx₂]
      exact hE.nrBins
    have hrelocs : ctx₂.relocs = ctx.relocs - (ctx.bins i).relocs := by
      rw [hctx₂, ← hbins i, ← hE.relocs]
    rw [hrelocs, hn, h.counts.all, ← Int.add_zero (_ - _), ← sum_setBin hi]
    exact Finset.sum_congr rfl fun j _ => (hbins₂ j).symm
  · rw [hctx₂]
    exact hE.nrBins

/-! ## The free list -/

/-- The first reference of the free list is taken off it. -/
def popped (c : CtxId) (r : BrefId) (ctx : Bufctx) (b : Bufref) (thead : DList.Mem Thead) (s : State) : State :=
  { s with bref := Function.update s.bref r none, thead }.setCtx c { ctx with free := b.next }

theorem Holds.pop (h : Holds s c ctx v) {f : List BrefId} (hfree : v.free = r :: f) (hb : s.bref r = some b)
    (thead : DList.Mem Thead) (hthead : ∀ y, y ≠ .bref r → thead y = s.thead y) :
    Holds (popped c r ctx b thead s) c { ctx with free := b.next } { v with free := f } ∧ Only c s (popped c r ctx b thead s) := by
  have hrall : r ∈ v.all := by simp [Lists.all, hfree]
  have hown : b.bufctx = c := by
    obtain ⟨b', hb', hc⟩ := h.bref hrall
    cases hb.symm.trans hb'
    exact hc
  obtain ⟨-, -, hfnodup, -, hpf, hcf⟩ := h.nodup
  rw [hfree] at hfnodup hpf hcf
  have hrf : r ∉ f := (List.nodup_cons.mp hfnodup).1
  have hrp : r ∉ v.pending := fun hp => hpf hp List.mem_cons_self
  have hrc : r ∉ v.current := fun hc => hcf hc List.mem_cons_self
  have hperm : v.all.Perm (r :: Lists.all { v with free := f }) := by
    rw [Lists.all, hfree]
    exact List.perm_middle
  have hnodup := hperm.nodup_iff.mp h.once
  have hbref : ∀ x, x ≠ r → (popped c r ctx b thead s).bref x = s.bref x := fun x hx => Function.update_of_ne hx ..
  have hnext : ∀ x, x ≠ r → (popped c r ctx b thead s).nextOf x = s.nextOf x := fun x hx => by
    rw [State.nextOf, hbref x hx, State.nextOf]
  have hself : (popped c r ctx b thead s).bref r = none := Function.update_self ..
  refine ⟨⟨h.pending.congr fun y hy => hthead y ?_, h.current.congr fun y hy => hthead y ?_, fun x hx => ?_, fun j hj => ?_, ?_,
    fun x => ?_, (List.nodup_cons.mp hnodup).2, h.binned, h.apart⟩, ⟨fun d hd => Function.update_of_ne hd .., fun x b' hb' => ?_,
    fun d hd => ⟨hthead _ (by simp), hthead _ (by simp)⟩, fun x b' hx hb' => hthead _ ?_⟩⟩
  · rintro rfl
    simp at hy
    exact hrp hy
  · rintro rfl
    simp at hy
    exact hrc hy
  · refine (hthead _ ?_).trans (h.idle x (by simp [hfree, show x ∈ f from hx]))
    rintro ⟨⟩
    exact hrf hx
  · refine (h.bins j hj).congr fun x hx => hnext x ?_
    rintro rfl
    have hmem := (h.binned x).mpr ⟨j, hj, hx⟩
    exact (List.mem_append.mp hmem).elim hrp hrc
  · have hchain := h.free
    rw [hfree] at hchain
    obtain ⟨-, hrest⟩ := hchain
    rw [State.nextOf, hb] at hrest
    exact hrest.congr fun x hx => hnext x (ne_of_mem_of_not_mem hx hrf)
  · by_cases hx : x = r
    · subst hx
      rw [hself]
      exact ⟨fun ⟨_, h, _⟩ => (nomatch h), fun hmem => absurd hmem (List.nodup_cons.mp hnodup).1⟩
    · rw [hbref x hx, h.known x, hperm.mem_iff, List.mem_cons]
      exact ⟨fun h => h.resolve_left hx, .inr⟩
  · by_cases hx : x = r
    · subst hx
      rw [hself, hb]
      constructor
      · nofun
      · rintro ⟨⟩
        exact absurd hown hb'
    · rw [hbref x hx]
  · rintro ⟨⟩
    cases hb.symm.trans hx
    exact hb' hown

/-- A reference that the context did not have becomes pending. -/
def pushed (c : CtxId) (i : Nat) (r : BrefId) (ctx : Bufctx) (b : Bufref) (thead : DList.Mem Thead) (s : State) : State :=
  ({ s with thead }.setBref r b).setCtx c (ctx.setBin i { ctx.bins i with list := some r })

def Lists.push (i : Nat) (r : BrefId) (v : Lists) : Lists :=
  { v with pending := v.pending ++ [r], bin := Function.update v.bin i (r :: v.bin i) }

theorem Holds.push (h : Holds s c ctx v) (hnone : s.bref r = none) (halloc : (s.thead (.bref r)).isSome) (hi : i < ctx.nrBins)
    (hown : b.bufctx = c) (hnext : b.next = (ctx.bins i).list) :
    ∃ thead, DList.addTail s.thead (.bref r) (.pending c) = some thead ∧
      Holds (pushed c i r ctx b thead s) c (ctx.setBin i { ctx.bins i with list := some r }) (v.push i r) ∧
      Only c s (pushed c i r ctx b thead s) := by
  have hr : r ∉ v.all := by
    intro hr
    obtain ⟨b', hb', -⟩ := h.bref hr
    cases hnone.symm.trans hb'
  simp only [Lists.all, List.mem_append, not_or] at hr
  obtain ⟨⟨hrp, hrc⟩, hrf⟩ := hr
  obtain ⟨thead, hrun, hpending, -, hframe⟩ := h.pending.addTail (x := .bref r) (by simpa using hrp) halloc
  rw [← List.map_singleton, ← List.map_append] at hpending
  have hsame : ∀ y, y ∉ Thead.pending c :: v.pending.map .bref → y ≠ .bref r → thead y = s.thead y := by
    intro y hy hyr
    refine hframe y ?_
    simp only [List.cons_append, List.mem_cons, List.mem_append, List.not_mem_nil, or_false] at hy ⊢
    tauto
  have hbref : ∀ x, x ≠ r → (pushed c i r ctx b thead s).bref x = s.bref x := fun x hx => Function.update_of_ne hx ..
  have hself : (pushed c i r ctx b thead s).bref r = some b := Function.update_self ..
  have hnextOf : ∀ x, x ≠ r → (pushed c i r ctx b thead s).nextOf x = s.nextOf x := fun x hx => by
    rw [State.nextOf, hbref x hx, State.nextOf]
  have hbins : ∀ j < ctx.nrBins, r ∉ v.bin j := fun j hj hx =>
    (List.mem_append.mp ((h.binned r).mpr ⟨j, hj, hx⟩)).elim hrp hrc
  have hperm : (v.push i r).all.Perm (r :: v.all) := by
    simp only [Lists.all, Lists.push, List.append_assoc, List.singleton_append]
    exact List.perm_middle
  have hbin : ∀ x j, x ∈ Function.update v.bin i (r :: v.bin i) j ↔ x ∈ v.bin j ∨ x = r ∧ j = i := by
    intro x j
    by_cases hji : j = i
    · subst hji
      simp [or_comm]
    · simp [hji]
  refine ⟨thead, hrun, ⟨hpending, h.current.congr fun y hy => hsame y ?_ ?_, fun x hx => ?_, fun j hj => ?_, ?_, fun x => ?_,
    hperm.nodup_iff.mpr ?_, fun x => ?_, fun x j k hj hk hxj hxk => ?_⟩, ⟨fun d hd => Function.update_of_ne hd .., fun x b' hb' => ?_,
    fun d hd => ⟨hsame _ (by simp [hd]) (by simp), hsame _ (by simp) (by simp)⟩, fun x b' hx hb' => hsame _ ?_ ?_⟩⟩
  · exact fun hy' => h.disjoint hy' hy
  · rintro rfl
    simp at hy
    exact hrc hy
  · refine (hsame _ ?_ ?_).trans (h.idle x hx)
    · simpa using fun hp => h.nodup.2.2.2.2.1 hp hx
    · rintro ⟨⟩
      exact hrf hx
  · by_cases hji : j = i
    · subst hji
      simp only [Bufctx.setBin, Lists.push, Function.update_self]
      refine ⟨rfl, ?_⟩
      rw [State.nextOf, hself, Option.bind_some, hnext]
      exact (h.bins j hj).congr fun x hx => hnextOf x (ne_of_mem_of_not_mem hx (hbins j hj))
    · simp only [Bufctx.setBin, Lists.push, Function.update_of_ne hji]
      exact (h.bins j hj).congr fun x hx => hnextOf x (ne_of_mem_of_not_mem hx (hbins j hj))
  · exact h.free.congr fun x hx => hnextOf x (ne_of_mem_of_not_mem hx hrf)
  · rw [hperm.mem_iff, List.mem_cons]
    by_cases hx : x = r
    · subst hx
      rw [hself]
      exact ⟨fun _ => .inl rfl, fun _ => ⟨b, rfl, hown⟩⟩
    · rw [hbref x hx, h.known x]
      exact ⟨.inr, fun h => h.resolve_left hx⟩
  · refine List.nodup_cons.mpr ⟨?_, h.once⟩
    simp only [Lists.all, List.mem_append, not_or]
    exact ⟨⟨hrp, hrc⟩, hrf⟩
  · show x ∈ v.pending ++ [r] ++ v.current ↔ ∃ j < ctx.nrBins, x ∈ Function.update v.bin i (r :: v.bin i) j
    have hbinned := h.binned x
    simp only [List.mem_append] at hbinned
    simp only [hbin, List.mem_append, List.mem_singleton, and_or_left, exists_or, ← hbinned]
    constructor
    · rintro ((hp | rfl) | hc)
      · exact .inl (.inl hp)
      · exact .inr ⟨i, hi, rfl, rfl⟩
      · exact .inl (.inr hc)
    · rintro ((hp | hc) | ⟨j, -, rfl, -⟩)
      · exact .inl (.inl hp)
      · exact .inr hc
      · exact .inl (.inr rfl)
  · rcases (hbin x j).mp hxj with hxj₁ | ⟨hxr, rfl⟩
    · rcases (hbin x k).mp hxk with hxk₁ | ⟨hxr, rfl⟩
      · exact h.apart x j k hj hk hxj₁ hxk₁
      · exact absurd (hxr ▸ hxj₁) (hbins j hj)
    · rcases (hbin x k).mp hxk with hxk₁ | ⟨-, rfl⟩
      · exact absurd (hxr ▸ hxk₁) (hbins k hk)
      · rfl
  · by_cases hx : x = r
    · subst hx
      rw [hself, hnone]
      constructor
      · rintro ⟨⟩
        exact absurd hown hb'
      · nofun
    · rw [hbref x hx]
  · have hmem := h.notMem hx hb'
    simp only [Lists.all, List.mem_append, not_or] at hmem
    simpa using hmem.1.1
  · rintro ⟨⟩
    cases hnone.symm.trans hx

/-- What `nouveau_bufctx_refn` does with the reference `r`. -/
structure Added (c : CtxId) (i : Nat) (r : BrefId) (s : State) (ctx : Bufctx) (v : Lists) (s' : State) (ctx' : Bufctx)
    (v' : Lists) : Prop where
  present : s'.ctx c = some ctx'
  lists : Holds s' c ctx' v'
  nrBins : ctx'.nrBins = ctx.nrBins
  relocs : ctx'.relocs = ctx.relocs
  binRelocs : ∀ j, (ctx'.bins j).relocs = (ctx.bins j).relocs
  bin : v'.bin = Function.update v.bin i (r :: v.bin i)
  new : ∀ j < ctx.nrBins, r ∉ v.bin j
  mthd : s'.isMthd = Function.update s.isMthd r false
  only : Only c s s'
  head : s'.head = s.head
  freshBref : ∀ x, s'.freshBref ≤ x → s'.bref x = none
  freshCtx : s'.freshCtx = s.freshCtx
  freshPush : s'.freshPush = s.freshPush

theorem setBin_relocs (ctx : Bufctx) (i j : Nat) (p : Option BrefId) :
    ((ctx.setBin i { ctx.bins i with list := p }).bins j).relocs = (ctx.bins j).relocs := by
  by_cases hji : j = i
  · subst hji
    simp [Bufctx.setBin]
  · simp [Bufctx.setBin, Function.update_of_ne hji]

/-- The memory comes from `malloc`. -/
theorem bufctxRefn_malloc (h : Holds s c ctx v) (hctx : s.ctx c = some ctx) (hfresh : ∀ x, s.freshBref ≤ x → s.bref x = none)
    (hi : i < ctx.nrBins) (hfree : v.free = []) (bo : Push.BoId) (flags : Word) :
    ∃ s' ctx' v', bufctxRefn c i bo flags true s = some (some s.freshBref, s') ∧ Added c i s.freshBref s ctx v s' ctx' v' := by
  obtain ⟨r, hr⟩ : ∃ r, r = s.freshBref := ⟨_, rfl⟩
  have hnone : s.bref r = none := hfresh r (Nat.le_of_eq hr.symm)
  have hrall : ∀ x ∈ v.all, x ≠ r := by
    rintro x hx rfl
    obtain ⟨b, hb, -⟩ := h.bref hx
    cases hnone.symm.trans hb
  obtain ⟨s₁, hs₁⟩ : ∃ s₁, s₁ = { s with freshBref := r + 1, thead := DList.calloc s.thead (.bref r) } := ⟨_, rfl⟩
  have hthead : ∀ y, y ≠ Thead.bref r → s₁.thead y = s.thead y := by
    rw [hs₁]
    exact fun y hy => Function.update_of_ne hy ..
  have h₁ : Holds s₁ c ctx v := by
    refine h.congr (fun x hx => hthead _ fun e => hrall x hx (Thead.bref.inj e)) ⟨hthead _ (by simp), hthead _ (by simp)⟩ ?_
    exact fun x b _ => by rw [hs₁]
  have honly : Only c s s₁ := by
    refine ⟨fun _ _ => by rw [hs₁], fun x b _ => by rw [hs₁], fun d _ => ⟨hthead _ (by simp), hthead _ (by simp)⟩,
      fun x b hx _ => hthead _ ?_⟩
    rintro ⟨⟩
    cases hnone.symm.trans hx
  have hnone₁ : s₁.bref r = none := by
    rw [hs₁]
    exact hnone
  have halloc : (s₁.thead (.bref r)).isSome := by
    rw [hs₁]
    simp [DList.calloc]
  obtain ⟨pref, hpref⟩ : ∃ pref : Bufref, pref = { bo, flags, next := (ctx.bins i).list, bufctx := c } := ⟨_, rfl⟩
  obtain ⟨thead, hadd, hholds, honly'⟩ := h₁.push (b := pref) hnone₁ halloc hi (by rw [hpref]) (by rw [hpref])
  have hlist : ctx.free = none := by
    have hchain := h.free
    rw [hfree] at hchain
    exact hchain
  refine ⟨pushed c i r ctx pref thead s₁, _, _, ?_, ⟨Function.update_self .., hholds, rfl, rfl, fun j => setBin_relocs ..,
    by rw [← hr]; rfl, fun j hj hx => ?_, ?_, honly.trans honly', ?_, fun x hx => ?_, ?_, ?_⟩⟩
  · rw [hs₁] at hadd
    rw [hs₁, ← hr]
    simp [bufctxRefn, takeBref, hctx, hlist, Bufctx.bin, hi, ← hr, hadd, pushed, hpref]
  · exact hrall r (List.mem_append_left _ ((h.binned r).mpr ⟨j, hj, hr ▸ hx⟩)) rfl
  · rw [← hr]
    refine (isMthd_setBref ..).trans ?_
    rw [hpref, hs₁]
    rfl
  · rw [hs₁]
    rfl
  · rw [hs₁] at hx
    have hle : r + 1 ≤ x := hx
    refine (Function.update_of_ne (Nat.ne_of_gt hle) ..).trans ?_
    rw [hs₁]
    exact hfresh x (hr ▸ Nat.le_of_succ_le hle)
  · rw [hs₁]
    rfl
  · rw [hs₁]
    rfl

/-- The memory comes from the free list. -/
theorem bufctxRefn_reuse (h : Holds s c ctx v) (hctx : s.ctx c = some ctx) (hfresh : ∀ x, s.freshBref ≤ x → s.bref x = none)
    (hi : i < ctx.nrBins) {f : List BrefId} (hfree : v.free = r :: f) (bo : Push.BoId) (flags : Word) (memory : Bool) :
    ∃ s' ctx' v', bufctxRefn c i bo flags memory s = some (some r, s') ∧ Added c i r s ctx v s' ctx' v' := by
  have hrall : r ∈ v.all := by simp [Lists.all, hfree]
  obtain ⟨b, hb, hown⟩ := h.bref hrall
  obtain ⟨h₁, honly⟩ := h.pop hfree hb s.thead fun _ _ => rfl
  obtain ⟨s₁, hs₁⟩ : ∃ s₁, s₁ = popped c r ctx b s.thead s := ⟨_, rfl⟩
  obtain ⟨ctx₁, hctx₁⟩ : ∃ ctx₁, ctx₁ = { ctx with free := b.next } := ⟨_, rfl⟩
  rw [← hs₁] at h₁ honly
  rw [← hctx₁] at h₁
  have hnone : s₁.bref r = none := by
    rw [hs₁]
    exact Function.update_self ..
  have halloc : (s₁.thead (.bref r)).isSome := by
    have hself := h.idle r (by simp [hfree])
    rw [hs₁]
    exact DList.alloc_of_nxt hself.nxt
  obtain ⟨pref, hpref⟩ : ∃ pref : Bufref,
      pref = { b with bo, flags, packet := 0, bufctx := c, next := (ctx₁.bins i).list, byMthd := false } := ⟨_, rfl⟩
  have hi₁ : i < ctx₁.nrBins := by rw [hctx₁]; exact hi
  obtain ⟨thead, hadd, hholds, honly'⟩ := h₁.push (b := pref) hnone halloc hi₁ (by rw [hpref]) (by rw [hpref])
  have hlist : ctx.free = some r := by
    have hchain := h.free
    rw [hfree] at hchain
    exact hchain.1
  have hrp : r ∉ v.pending ++ v.current := fun hmem =>
    List.disjoint_of_nodup_append h.once hmem (by simp [hfree])
  refine ⟨pushed c i r ctx₁ pref thead s₁, _, _, ?_, ⟨Function.update_self .., hholds, by rw [hctx₁]; rfl, by rw [hctx₁]; rfl,
    fun j => (setBin_relocs ..).trans (by rw [hctx₁]), rfl, fun j hj hx => hrp ((h.binned r).mpr ⟨j, hj, hx⟩), ?_,
    honly.trans honly', ?_, fun x hx => ?_, ?_, ?_⟩⟩
  · have hthead : s₁.thead = s.thead := by rw [hs₁]; rfl
    rw [hthead] at hadd
    rw [hctx₁] at hpref
    simp [bufctxRefn, takeBref, hctx, hlist, hb, Bufctx.bin, hi, hadd, pushed, hs₁, hctx₁, hpref, popped, State.setCtx,
      State.setBref]
  · refine (isMthd_setBref ..).trans ?_
    have hmthd : s₁.isMthd = Function.update s.isMthd r false := by
      funext x
      rw [hs₁, State.isMthd]
      by_cases hx : x = r
      · subst hx
        simp [popped]
      · simp [popped, Function.update_of_ne hx, State.isMthd]
    show Function.update s₁.isMthd r pref.byMthd = _
    rw [hmthd, Function.update_idem, hpref]
  · rw [hs₁]
    rfl
  · have hle : s.freshBref ≤ x := by
      rw [hs₁] at hx
      exact hx
    have hxr : x ≠ r := by
      rintro rfl
      cases hb.symm.trans (hfresh x hle)
    refine (Function.update_of_ne hxr ..).trans ?_
    rw [hs₁]
    exact (Function.update_of_ne hxr ..).trans (hfresh x hle)
  · rw [hs₁]
    rfl
  · rw [hs₁]
    rfl

theorem bufctxRefn_added (h : HeldAs s c ctx v) (hfresh : ∀ x, s.freshBref ≤ x → s.bref x = none) (hi : i < ctx.nrBins)
    (bo : Push.BoId) (flags : Word) (memory : Bool) : bufctxRefn c i bo flags memory s = some (none, s) ∨
      ∃ r s' ctx' v', bufctxRefn c i bo flags memory s = some (some r, s') ∧ Added c i r s ctx v s' ctx' v' := by
  cases hfree : v.free with
  | nil =>
      cases memory with
      | true => exact .inr ⟨_, bufctxRefn_malloc h.lists h.present hfresh hi hfree bo flags⟩
      | false =>
          refine .inl ?_
          have hchain := h.lists.free
          rw [hfree] at hchain
          have hlist : ctx.free = none := hchain
          simp [bufctxRefn, takeBref, h.present, hlist]
  | cons r f => exact .inr ⟨r, bufctxRefn_reuse h.lists h.present hfresh hi hfree bo flags memory⟩

theorem countP_update {l : List BrefId} {p : BrefId → Bool} {q : Bool} (hr : r ∉ l) :
    l.countP (Function.update p r q) = l.countP p :=
  List.countP_congr fun x hx => by rw [Function.update_of_ne (ne_of_mem_of_not_mem hx hr)]

/-- `nouveau_bufctx_refn` does not count. -/
theorem Added.held {s' : State} {ctx' : Bufctx} {v' : Lists} (h : HeldAs s c ctx v) (ha : Added c i r s ctx v s' ctx' v') :
    HeldAs s' c ctx' v' := by
  refine ⟨ha.present, ha.lists, ⟨fun j hj => ?_, ?_⟩⟩
  · have hj' : j < ctx.nrBins := ha.nrBins ▸ hj
    rw [ha.binRelocs j, h.counts.bin j hj', ha.mthd, ha.bin]
    by_cases hji : j = i
    · subst hji
      rw [Function.update_self, List.countP_cons_of_neg (by simp), countP_update (ha.new j hj')]
    · rw [Function.update_of_ne hji, countP_update (ha.new j hj')]
  · rw [ha.relocs, ha.nrBins, h.counts.all]
    exact Finset.sum_congr rfl fun j _ => (ha.binRelocs j).symm

/-- The data of a reference change. -/
theorem Holds.setBref (h : Holds s c ctx v) (b' : Bufref) (hb : s.bref r = some b) (hown : b.bufctx = c)
    (hnext : b'.next = b.next) (hown' : b'.bufctx = c) : Holds (s.setBref r b') c ctx v ∧ Only c s (s.setBref r b') := by
  have hnextOf : (s.setBref r b').nextOf = s.nextOf := by
    refine (nextOf_setBref ..).trans (Function.update_eq_self_iff.mpr ?_)
    rw [hnext, State.nextOf, hb]
    rfl
  have hbref : ∀ x, (s.setBref r b').bref x = if x = r then some b' else s.bref x := fun x => Function.update_apply ..
  refine ⟨⟨h.pending, h.current, h.idle, hnextOf ▸ h.bins, hnextOf ▸ h.free, fun x => ?_, h.once, h.binned, h.apart⟩,
    ⟨fun _ _ => rfl, fun x b'' hb'' => ?_, fun _ _ => ⟨rfl, rfl⟩, fun _ _ _ _ => rfl⟩⟩
  · rw [← h.known x, hbref]
    by_cases hx : x = r
    · subst hx
      simp [hb, hown, hown']
    · rw [if_neg hx]
  · rw [hbref]
    by_cases hx : x = r
    · subst hx
      rw [if_pos rfl, hb]
      constructor
      · rintro ⟨⟩
        exact absurd hown' hb''
      · rintro ⟨⟩
        exact absurd hown hb''
    · rw [if_neg hx]

theorem bufctxMthd_held (h : HeldAs s c ctx v) (hfresh : ∀ x, s.freshBref ≤ x → s.bref x = none) (hi : i < ctx.nrBins)
    (packet : Word) (bo : Push.BoId) (data : Size) (flags vor tor : Word) (memory : Bool) :
    bufctxMthd c i packet bo data flags vor tor memory s = some (none, s) ∨
      ∃ r s', bufctxMthd c i packet bo data flags vor tor memory s = some (some r, s') ∧ Held s' c ∧ Only c s s' ∧
        s'.head = s.head ∧ (∀ x, s'.freshBref ≤ x → s'.bref x = none) ∧ s'.freshCtx = s.freshCtx ∧
        s'.freshPush = s.freshPush := by
  rcases bufctxRefn_added h hfresh hi bo flags memory with hrun | ⟨r, s₁, ctx₁, v₁, hrun, ha⟩
  · exact .inl (by simp [bufctxMthd, hrun])
  · have hi₁ : i < ctx₁.nrBins := ha.nrBins ▸ hi
    have hrbin : r ∈ v₁.bin i := by simp [ha.bin]
    have hrall : r ∈ v₁.all := List.mem_append_left _ ((ha.lists.binned r).mpr ⟨i, hi₁, hrbin⟩)
    obtain ⟨b, hb, hown⟩ := ha.lists.bref hrall
    obtain ⟨b', hb'⟩ : ∃ b', b' = { b with packet, data, vor, tor, byMthd := true } := ⟨_, rfl⟩
    obtain ⟨ctx₂, hctx₂⟩ : ∃ ctx₂, ctx₂ = { ctx₁.setBin i { ctx₁.bins i with relocs := (ctx₁.bins i).relocs + 1 } with
      relocs := ctx₁.relocs + 1 } := ⟨_, rfl⟩
    obtain ⟨hholds, honly⟩ := ha.lists.setBref b' hb hown (by rw [hb']) (by rw [hb', hown])
    have hbins₂ : ∀ j, (ctx₂.bins j).relocs =
        Function.update (fun j => (ctx.bins j).relocs) i ((ctx.bins i).relocs + 1) j := by
      intro j
      by_cases hji : j = i
      · subst hji
        simp [hctx₂, Bufctx.setBin, ha.binRelocs j]
      · simp [hctx₂, Bufctx.setBin, Function.update_of_ne hji, ha.binRelocs j]
    have hmthd : ((s₁.setBref r b').setCtx c ctx₂).isMthd = Function.update s.isMthd r true := by
      refine (isMthd_setBref ..).trans ?_
      rw [ha.mthd, Function.update_idem, hb']
    refine .inr ⟨r, (s₁.setBref r b').setCtx c ctx₂, ?_, ⟨ctx₂, v₁, ⟨Function.update_self .., ?_, ⟨fun j hj => ?_, ?_⟩⟩⟩,
      (ha.only.trans honly).setCtx ctx₂, ha.head, fun x hx => ?_, ha.freshCtx, ha.freshPush⟩
    · simp [bufctxMthd, hrun, hb, ha.present, Bufctx.bin, hi₁, hb', hctx₂]
    · refine hholds.recount (by rw [hctx₂]; rfl) (by rw [hctx₂]; rfl) fun j => ?_
      by_cases hji : j = i
      · subst hji
        simp [hctx₂, Bufctx.setBin]
      · simp [hctx₂, Bufctx.setBin, Function.update_of_ne hji]
    · have hj' : j < ctx.nrBins := by
        rw [hctx₂] at hj
        exact ha.nrBins ▸ hj
      rw [hbins₂ j, hmthd, ha.bin]
      by_cases hji : j = i
      · subst hji
        rw [Function.update_self, Function.update_self, List.countP_cons_of_pos (by simp), countP_update (ha.new j hj'),
          h.counts.bin j hj']
        rfl
      · rw [Function.update_of_ne hji, Function.update_of_ne hji, countP_update (ha.new j hj'), h.counts.bin j hj']
    · have hn : ctx₂.nrBins = ctx.nrBins := by
        rw [hctx₂]
        exact ha.nrBins
      have hrelocs : ctx₂.relocs = ctx.relocs + 1 := by
        rw [hctx₂, ← ha.relocs]
      rw [hrelocs, hn, Finset.sum_congr rfl fun j _ => hbins₂ j, sum_setBin hi, h.counts.all]
      omega
    · have hxr : x ≠ r := by
        rintro rfl
        cases hb.symm.trans (ha.freshBref x hx)
      exact (Function.update_of_ne hxr ..).trans (ha.freshBref x hx)

/-! ## Making and deleting contexts -/

theorem resets_held {l : List Nat} (h : HeldAs s c ctx v) (hfresh : ∀ r, s.freshBref ≤ r → s.bref r = none)
    (hl : ∀ i ∈ l, i < ctx.nrBins) :
    ∃ s' ctx' v', l.foldlM (fun s i => bufctxReset c i s) s = some s' ∧ HeldAs s' c ctx' v' ∧ ctx'.nrBins = ctx.nrBins ∧
      (∀ i ∈ l, v'.bin i = []) ∧ (∀ i, v.bin i = [] → v'.bin i = []) ∧ Only c s s' ∧ Settled s s' ∧
      ∀ x, s.bref x = none → s'.bref x = none := by
  induction l generalizing s ctx v with
  | nil => exact ⟨s, ctx, v, rfl, h, rfl, nofun, fun _ h => h, .refl c s, .refl s, fun _ h => h⟩
  | cons i l ih =>
      obtain ⟨s₁, ctx₁, v₁, hrun, h₁, hn, hempty, hothers, honly, hsettled, hnone⟩ :=
        bufctxReset_held h hfresh (hl i List.mem_cons_self)
      have hfresh₁ : ∀ r, s₁.freshBref ≤ r → s₁.bref r = none := fun r hr => hnone r (hfresh r (hsettled.freshBref ▸ hr))
      obtain ⟨s', ctx', v', hrun', h', hn', hempty', hkept, honly', hsettled', hnone'⟩ :=
        ih h₁ hfresh₁ fun j hj => hn ▸ hl j (List.mem_cons_of_mem i hj)
      refine ⟨s', ctx', v', ?_, h', hn'.trans hn, fun j hj => ?_, fun j hj => hkept j ?_, honly.trans honly',
        hsettled.trans hsettled', fun x hx => hnone' x (hnone x hx)⟩
      · rw [List.foldlM_cons, hrun]
        exact hrun'
      · rcases List.mem_cons.mp hj with rfl | hj
        · exact hkept j hempty
        · exact hempty' j hj
      · by_cases hji : j = i
        · rw [hji, hempty]
        · rw [hothers j hji, hj]

theorem freeLoop_ok {fuel : Nat} (hctx : s.ctx c = some ctx) (h : Holds s c ctx v) (hfuel : v.free.length < fuel) :
    ∃ s' ctx', freeLoop c fuel s = some s' ∧ s'.ctx c = some ctx' ∧ Holds s' c ctx' { v with free := [] } ∧ Only c s s' ∧
      Settled s s' ∧ ∀ x, s.bref x = none → s'.bref x = none := by
  induction fuel generalizing s ctx v with
  | zero => exact absurd hfuel (Nat.not_lt_zero _)
  | succ fuel ih =>
      have hchain := h.free
      cases hfree : v.free with
      | nil =>
          rw [hfree] at hchain
          have hlist : ctx.free = none := hchain
          have hv : { v with free := [] } = v := by rw [← hfree]
          refine ⟨s, ctx, ?_, hctx, hv ▸ h, .refl c s, .refl s, fun _ h => h⟩
          simp [freeLoop, hctx, hlist]
      | cons r f =>
          rw [hfree] at hchain
          have hlist : ctx.free = some r := hchain.1
          obtain ⟨b, hb, -⟩ := h.bref (r := r) (by simp [Lists.all, hfree])
          obtain ⟨h₁, honly⟩ := h.pop hfree hb (DList.free s.thead (.bref r)) fun y hy => Function.update_of_ne hy ..
          obtain ⟨s₁, hs₁⟩ : ∃ s₁, s₁ = popped c r ctx b (DList.free s.thead (.bref r)) s := ⟨_, rfl⟩
          rw [← hs₁] at h₁ honly
          have hctx₁ : s₁.ctx c = some { ctx with free := b.next } := by
            rw [hs₁]
            exact Function.update_self ..
          have hlen : f.length < fuel := by
            rw [hfree, List.length_cons] at hfuel
            omega
          obtain ⟨s', ctx', hrun, hctx', h', honly', hsettled, hnone⟩ := ih hctx₁ h₁ hlen
          have hsettled₁ : Settled s s₁ := by
            rw [hs₁]
            exact ⟨rfl, rfl, rfl, rfl⟩
          refine ⟨s', ctx', ?_, hctx', h', honly.trans honly', hsettled₁.trans hsettled, fun x hx => hnone x ?_⟩
          · rw [← hrun, hs₁]
            simp [freeLoop, hctx, hlist, hb, popped]
          · rw [hs₁]
            by_cases hxr : x = r
            · subst hxr
              exact Function.update_self ..
            · exact (Function.update_of_ne hxr ..).trans hx

/-- The heads of its lists change. -/
theorem only_of_heads (hctx : ∀ d, d ≠ c → s'.ctx d = s.ctx d) (hbref : s'.bref = s.bref)
    (hthead : ∀ y, y ≠ Thead.pending c → y ≠ Thead.current c → s'.thead y = s.thead y) : Only c s s' where
  ctx := hctx
  bref _ _ _ := by rw [hbref]
  heads d hd := ⟨hthead (.pending d) (by simpa using hd) (by simp), hthead (.current d) (by simp) (by simpa using hd)⟩
  threads r _ _ _ := hthead (.bref r) (by simp) (by simp)

theorem bufctxDel_ok (h : HeldAs s c ctx v) (hfresh : ∀ r, s.freshBref ≤ r → s.bref r = none) :
    ∃ s', bufctxDel c s = some s' ∧ s'.ctx c = none ∧ (∀ r b, s'.bref r = some b → b.bufctx ≠ c) ∧ Only c s s' ∧
      s'.head = DList.free s.head (.ctx c) ∧ s'.freshBref = s.freshBref ∧ s'.freshCtx = s.freshCtx ∧
      s'.freshPush = s.freshPush ∧ ∀ x, s.bref x = none → s'.bref x = none := by
  obtain ⟨s₁, ctx₁, v₁, hrun₁, h₁, hn₁, hempty, -, honly₁, hsettled₁, hnone₁⟩ :=
    resets_held (l := (List.range ctx.nrBins).reverse) h hfresh fun i hi => by simpa using hi
  have hfresh₁ : ∀ r, s₁.freshBref ≤ r → s₁.bref r = none := fun r hr => hnone₁ r (hfresh r (hsettled₁.freshBref ▸ hr))
  have hlen : v₁.free.length < s₁.freshBref + 1 :=
    h₁.lists.fuel hfresh₁ (fun r hr => List.mem_append_right _ hr) h₁.lists.nodup.2.2.1
  obtain ⟨s₂, ctx₂, hrun₂, hctx₂, h₂, honly₂, hsettled₂, hnone₂⟩ := freeLoop_ok h₁.present h₁.lists hlen
  -- no bin has a reference, so the circular lists have none either
  have hlists : v₁.pending ++ v₁.current = [] := by
    refine List.eq_nil_iff_forall_not_mem.mpr fun r hr => ?_
    obtain ⟨i, hi, hri⟩ := (h₁.lists.binned r).mp hr
    rw [hempty i (by simpa using hn₁ ▸ hi)] at hri
    exact List.not_mem_nil hri
  have hgone : ∀ r b, s₂.bref r = some b → b.bufctx ≠ c := by
    intro r b hb hbc
    have hmem := (h₂.known r).mp ⟨b, hb, hbc⟩
    simp [Lists.all, hlists] at hmem
  refine ⟨{ s₂ with
      ctx := Function.update s₂.ctx c none
      head := DList.free s₂.head (.ctx c)
      thead := DList.free (DList.free s₂.thead (.pending c)) (.current c) }, ?_, Function.update_self .., hgone, ?_,
    congrArg (DList.free · _) (hsettled₂.head.trans hsettled₁.head), hsettled₂.freshBref.trans hsettled₁.freshBref,
    hsettled₂.freshCtx.trans hsettled₁.freshCtx, hsettled₂.freshPush.trans hsettled₁.freshPush,
    fun x hx => hnone₂ x (hnone₁ x hx)⟩
  · simp only [bufctxDel, h.present, hrun₁, hrun₂, Option.bind_eq_bind, Option.bind_some, Option.pure_def]
  · refine (honly₁.trans honly₂).trans (only_of_heads (fun d hd => Function.update_of_ne hd ..) rfl fun y hy hy' => ?_)
    exact (Function.update_of_ne hy' ..).trans (Function.update_of_ne hy ..)

/-- A context without references. -/
theorem bufctxNew_ok (hfresh : s.ctx s.freshCtx = none) (howned : ∀ r b, s.bref r = some b → (s.ctx b.bufctx).isSome)
    (bins : Nat) :
    ∃ s', bufctxNew bins s = some s' ∧ Held s' s.freshCtx ∧ Only s.freshCtx s s' ∧ s'.bref = s.bref ∧
      s'.freshBref = s.freshBref ∧ s'.freshCtx = s.freshCtx + 1 ∧ s'.freshPush = s.freshPush ∧
      SelfLinked s'.head (.ctx s.freshCtx) ∧ ∀ y, y ≠ .ctx s.freshCtx → s'.head y = s.head y := by
  obtain ⟨c, hc⟩ : ∃ c, c = s.freshCtx := ⟨_, rfl⟩
  rw [← hc] at hfresh ⊢
  obtain ⟨head, hhead, hself, -, hframe⟩ := DList.init_ok (m := DList.calloc s.head (.ctx c)) (x := .ctx c) (by simp [DList.calloc])
  obtain ⟨t₁, ht₁, hself₁, halloc₁, hframe₁⟩ :=
    DList.init_ok (m := DList.calloc (DList.calloc s.thead (.pending c)) (.current c)) (x := .pending c) (by simp [DList.calloc])
  obtain ⟨t₂, ht₂, hself₂, -, hframe₂⟩ := DList.init_ok (m := t₁) (x := .current c) (by rw [halloc₁]; simp [DList.calloc])
  have hself₁' : SelfLinked t₂ (.pending c) := (hframe₂ _ (by simp)).trans hself₁
  have hthead : ∀ y, y ≠ Thead.pending c → y ≠ Thead.current c → t₂ y = s.thead y := fun y hy hy' => by
    rw [hframe₂ y hy', hframe₁ y hy, DList.calloc, Function.update_of_ne hy', DList.calloc, Function.update_of_ne hy]
  have hnone : ∀ r, ¬ ∃ b, s.bref r = some b ∧ b.bufctx = c := by
    rintro r ⟨b, hb, rfl⟩
    have := howned r b hb
    rw [hfresh] at this
    cases this
  refine ⟨{ s.setCtx c { nrBins := bins } with freshCtx := c + 1, head, thead := t₂ }, ?_,
    ⟨{ nrBins := bins }, ⟨[], [], fun _ => [], []⟩, ⟨Function.update_self .., ?_, ⟨fun _ _ => rfl, by simp⟩⟩⟩, ?_, rfl, rfl, rfl,
    rfl, hself, fun y hy => (hframe y hy).trans (Function.update_of_ne hy ..)⟩
  · simp [bufctxNew, ← hc, hhead, ht₁, ht₂]
  · refine ⟨.nil_of_selfLinked hself₁', .nil_of_selfLinked hself₂, nofun, fun _ _ => rfl, rfl, fun r => ?_, List.nodup_nil,
      fun r => ?_, fun _ _ _ _ _ h => absurd h List.not_mem_nil⟩
    · exact ⟨fun h => absurd h (hnone r), fun h => absurd h List.not_mem_nil⟩
    · simp
  · exact only_of_heads (fun d hd => Function.update_of_ne hd ..) rfl hthead

/-! ## All contexts -/

structure Books (s : State) : Prop where
  held : ∀ c, (s.ctx c).isSome → Held s c
  owned : ∀ r b, s.bref r = some b → (s.ctx b.bufctx).isSome
  freshBref : ∀ r, s.freshBref ≤ r → s.bref r = none
  freshCtx : ∀ c, s.freshCtx ≤ c → s.ctx c = none

theorem Books.only (h : Books s) (ho : Only c s s') (hc : Held s' c) (hfresh : ∀ r, s'.freshBref ≤ r → s'.bref r = none)
    (hctx : ∀ c, s'.freshCtx ≤ c → s'.ctx c = none) : Books s' where
  held d hd := by
    by_cases hdc : d = c
    · exact hdc ▸ hc
    · exact (h.held d (ho.ctx d hdc ▸ hd)).frame ho hdc
  owned r b hb := by
    obtain ⟨ctx, v, hv⟩ := hc
    by_cases hbc : b.bufctx = c
    · rw [hbc, hv.present]
      rfl
    · rw [ho.ctx _ hbc]
      exact h.owned r b ((ho.bref r b hbc).mp hb)
  freshBref := hfresh
  freshCtx := hctx

/-- A context that was there before is changed. -/
theorem Books.change (h : Books s) (ho : Only c s s') (hc : Held s' c) (hthere : (s.ctx c).isSome)
    (hfresh : ∀ r, s'.freshBref ≤ r → s'.bref r = none) (hctx : s'.freshCtx = s.freshCtx) : Books s' := by
  refine h.only ho hc hfresh fun d hd => ?_
  have hnone := h.freshCtx d (hctx ▸ hd)
  have hdc : d ≠ c := by
    rintro rfl
    rw [hnone] at hthere
    cases hthere
  rw [ho.ctx d hdc, hnone]

end LibDrm.Nouveau.Refs
