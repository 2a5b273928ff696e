/-
# `LibDrm.Nouveau.Attached` — which contexts a flush visits

A context is on the list of the push buffer that it was validated on last, until that is flushed.
`nouveau_bufctx_del` does not take it off: the next flush comes to memory that is freed.

    Linked         each context is on one list at most, and those on a list are there
    flushCtxs_ok   a flush comes to the end of its list, and leaves it empty

As long as no context is deleted while it is on a list, both this and the books of the contexts hold in
every run (`no_dangling_bufctx`, `bufctx_bookkeeping`).
-/
import LibDrm.Lib.Along
import LibDrm.Nouveau.Brefs

namespace LibDrm.Nouveau.Refs

open Push (Word Size PushId CtxId)
open DList (IsList SelfLinked Visits)

variable {s s' s'' : State} {c d : CtxId} {p q : PushId} {l : PushId → List CtxId}

/-- The contexts that are on the lists of the push buffers. -/
structure Linked (s : State) (l : PushId → List CtxId) : Prop where
  list : ∀ p < s.freshPush, IsList s.head (.list p) ((l p).map .ctx)
  none : ∀ p, s.freshPush ≤ p → l p = []
  live : ∀ p, ∀ c ∈ l p, (s.ctx c).isSome
  apart : ∀ p q c, c ∈ l p → c ∈ l q → p = q
  off : ∀ c, (s.ctx c).isSome → (∀ p, c ∉ l p) → SelfLinked s.head (.ctx c)

namespace Linked

theorem nodup (h : Linked s l) (p : PushId) : (l p).Nodup := by
  by_cases hp : p < s.freshPush
  · exact List.Nodup.of_map _ (h.list p hp).nodup
  · rw [h.none p (Nat.le_of_not_lt hp)]
    exact .nil

theorem lt (h : Linked s l) (hc : c ∈ l p) : p < s.freshPush := by
  refine Nat.lt_of_not_le fun hp => ?_
  rw [h.none p hp] at hc
  exact List.not_mem_nil hc

/-- The lists are not touched. -/
theorem same (h : Linked s l) (hhead : s'.head = s.head) (hctx : ∀ c, (s'.ctx c).isSome = (s.ctx c).isSome)
    (hpush : s'.freshPush = s.freshPush) : Linked s' l where
  list p hp := hhead ▸ h.list p (hpush ▸ hp)
  none p hp := h.none p (hpush ▸ hp)
  live p c hc := hctx c ▸ h.live p c hc
  apart := h.apart
  off c hc hoff := hhead ▸ h.off c (hctx c ▸ hc) hoff

/-- A node that is on no list changes, and a context comes or goes with it. -/
theorem congr (h : Linked s l) {x : Head} (hx : ∀ p < s.freshPush, x ∉ Head.list p :: (l p).map .ctx)
    (hhead : ∀ y, y ≠ x → s'.head y = s.head y) (hpush : s'.freshPush = s.freshPush)
    (hctx : ∀ c, .ctx c ≠ x → (s'.ctx c).isSome = (s.ctx c).isSome)
    (hself : ∀ c, x = .ctx c → (s'.ctx c).isSome → SelfLinked s'.head (.ctx c)) : Linked s' l where
  list p hp := (h.list p (hpush ▸ hp)).congr fun y hy => hhead y fun e => hx p (hpush ▸ hp) (e ▸ hy)
  none p hp := h.none p (hpush ▸ hp)
  live p c hc := by
    rw [hctx c fun e => hx p (h.lt hc) (by simp [← e, hc])]
    exact h.live p c hc
  apart := h.apart
  off c hc hoff := by
    by_cases hcx : .ctx c = x
    · exact hself c hcx.symm hc
    · exact (hhead _ hcx).trans (h.off c (hctx c hcx ▸ hc) hoff)

end Linked

theorem map_erase_ctx (l : List CtxId) (c : CtxId) : (l.map Head.ctx).erase (.ctx c) = (l.erase c).map .ctx := by
  refine (List.map_erase ?_ ..).symm
  intro x y h
  cases h
  rfl

/-- The nodes of two lists. -/
theorem Linked.disjoint (h : Linked s l) (hpq : p ≠ q) {y : Head} (hp : y ∈ Head.list p :: (l p).map .ctx) :
    y ∉ Head.list q :: (l q).map .ctx := by
  intro hq
  rcases List.mem_cons.mp hp with rfl | hp
  · simp [hpq] at hq
  · obtain ⟨c, hc, rfl⟩ := List.mem_map.mp hp
    simp only [List.mem_cons, reduceCtorEq, List.mem_map, Head.ctx.injEq, exists_eq_right, false_or] at hq
    exact hpq (h.apart p q c hc hq)

/-! ## Linking and unlinking -/

/-- A context that leaves its list, if it is on one. -/
theorem Linked.del (h : Linked s l) (hc : (s.ctx c).isSome) : ∃ head, DList.del s.head (.ctx c) = some head ∧
    (∀ q < s.freshPush, IsList head (.list q) (((l q).erase c).map .ctx)) ∧ (head (.ctx c)).isSome ∧
    ∀ d, d ≠ c → (∀ q, d ∉ l q) → head (.ctx d) = s.head (.ctx d) := by
  by_cases hon : ∃ q, c ∈ l q
  · obtain ⟨q, hq⟩ := hon
    have hmem : Head.ctx c ∈ (l q).map .ctx := List.mem_map_of_mem hq
    obtain ⟨head, hrun, hlist, halloc, hframe⟩ := (h.list q (h.lt hq)).del hmem
    rw [map_erase_ctx] at hlist
    refine ⟨head, hrun, fun q' hq' => ?_, ?_, fun d _ hoff => hframe _ ?_⟩
    · by_cases hqq : q' = q
      · exact hqq ▸ hlist
      · rw [List.erase_of_not_mem fun hc' => hqq (h.apart q' q c hc' hq)]
        exact (h.list q' hq').congr fun y hy => hframe y (h.disjoint hqq hy)
    · rw [halloc]
      exact (h.list q (h.lt hq)).alloc (List.mem_cons_of_mem _ hmem)
    · simpa using hoff q
  · have hoff : ∀ q, c ∉ l q := fun q hq => hon ⟨q, hq⟩
    have hself := h.off c hc hoff
    refine ⟨s.head, hself.del, fun q hq => ?_, DList.alloc_of_nxt hself.nxt, fun _ _ _ => rfl⟩
    rw [List.erase_of_not_mem (hoff q)]
    exact h.list q hq

/-- The lists after a validation on `p`. -/
def relink (p : PushId) (c : CtxId) (l : PushId → List CtxId) : PushId → List CtxId := fun q =>
  if q = p then c :: (l q).erase c else (l q).erase c

theorem mem_relink (h : ∀ q, (l q).Nodup) : d ∈ relink p c l q ↔ d = c ∧ q = p ∨ d ≠ c ∧ d ∈ l q := by
  unfold relink
  by_cases hqp : q = p
  · rw [if_pos hqp, List.mem_cons, (h q).mem_erase_iff]
    tauto
  · rw [if_neg hqp, (h q).mem_erase_iff]
    tauto

theorem linkCtx_ok (h : Linked s l) (hp : p < s.freshPush) (hc : (s.ctx c).isSome) :
    ∃ head, linkCtx p c s = some { s with head } ∧ Linked { s with head } (relink p c l) := by
  obtain ⟨head₁, hdel, hlists, halloc, hframe₁⟩ := h.del hc
  have hcp : Head.ctx c ∉ Head.list p :: ((l p).erase c).map .ctx := by
    simpa using (h.nodup p).not_mem_erase
  obtain ⟨head, hadd, hlist, -, hframe⟩ := (hlists p hp).add hcp halloc
  have hsub : ∀ q, Head.list q :: ((l q).erase c).map .ctx ⊆ Head.list q :: (l q).map .ctx := fun q =>
    List.cons_subset_cons _ (List.map_subset _ List.erase_subset)
  refine ⟨head, ?_, ⟨fun q hq => ?_, fun q hq => ?_, fun q d hd => ?_, fun q q' d hd hd' => ?_, fun d hd hoff => ?_⟩⟩
  · obtain ⟨ctx, hctx⟩ := Option.isSome_iff_exists.mp hc
    simp [linkCtx, State.getPush, hp, hctx, hdel, hadd]
  · unfold relink
    by_cases hqp : q = p
    · rw [if_pos hqp, hqp]
      exact hlist
    · rw [if_neg hqp]
      refine (hlists q hq).congr fun y hy => hframe y (fun hy' => h.disjoint hqp (hsub q hy) (hsub p hy')) ?_
      rintro rfl
      exact (h.nodup q).not_mem_erase (by simpa using hy)
  · have hqp : q ≠ p := by
      rintro rfl
      exact absurd hp (Nat.not_lt.mpr hq)
    rw [relink, if_neg hqp, h.none q hq, List.erase_nil]
  · rcases (mem_relink h.nodup).mp hd with ⟨rfl, -⟩ | ⟨-, hd⟩
    · exact hc
    · exact h.live q d hd
  · rcases (mem_relink h.nodup).mp hd with ⟨rfl, rfl⟩ | ⟨hdc, hd⟩
    · rcases (mem_relink h.nodup).mp hd' with ⟨-, rfl⟩ | ⟨hdc, -⟩
      · rfl
      · exact absurd rfl hdc
    · rcases (mem_relink h.nodup).mp hd' with ⟨rfl, -⟩ | ⟨-, hd'⟩
      · exact absurd rfl hdc
      · exact h.apart q q' d hd hd'
  · have hdc : d ≠ c := fun e => hoff p ((mem_relink h.nodup).mpr (.inl ⟨e, rfl⟩))
    have hoff' : ∀ q, d ∉ l q := fun q hd' => hoff q ((mem_relink h.nodup).mpr (.inr ⟨hdc, hd'⟩))
    refine (hframe (.ctx d) (fun hmem => ?_) (by simpa using hdc)).trans ((hframe₁ d hdc hoff').trans (h.off d hd hoff'))
    exact hoff' p (by simpa using hsub p hmem)

/-- The lists without a context. -/
def unlink (c : CtxId) (l : PushId → List CtxId) : PushId → List CtxId := fun q => (l q).erase c

theorem mem_unlink (h : ∀ q, (l q).Nodup) : d ∈ unlink c l q ↔ d ≠ c ∧ d ∈ l q := (h q).mem_erase_iff

theorem unlinkCtx_ok (h : Linked s l) (hb : Books s) (hc : c ∈ l p) :
    ∃ s', unlinkCtx c s = some s' ∧ Linked s' (unlink c l) ∧ Books s' ∧ s'.freshPush = s.freshPush ∧ s'.bref = s.bref ∧
      (∀ ctx v, HeldAs s c ctx v → HeldAs s' c ctx v.requeued) ∧ Only c s s' := by
  have hp := h.lt hc
  have hmem : Head.ctx c ∈ (l p).map .ctx := List.mem_map_of_mem hc
  obtain ⟨head, hdel, hlist, hself, -, hframe⟩ := (h.list p hp).delInit hmem
  rw [map_erase_ctx] at hlist
  obtain ⟨ctx, v, hv⟩ := hb.held c (h.live p c hc)
  obtain ⟨t₁, t₂, hjoin, hinit, hheld, honly⟩ := requeue_held hv head
  have hrequeued : ∀ ctx v, HeldAs s c ctx v → HeldAs { s with thead := t₂, head } c ctx v.requeued := by
    intro ctx' v' hv'
    obtain ⟨t₁', t₂', hjoin', hinit', hheld', -⟩ := requeue_held hv' head
    cases hjoin.symm.trans hjoin'
    cases hinit.symm.trans hinit'
    exact hheld'
  have hothers : ∀ q, q ≠ p → c ∉ l q := fun q hqp hc' => hqp (h.apart q p c hc' hc)
  refine ⟨{ s with thead := t₂, head }, ?_, ⟨fun q hq => ?_, fun q hq => ?_, fun q d hd => ?_, fun q q' d hd hd' => ?_,
    fun d hd hoff => ?_⟩, hb.change honly ⟨ctx, _, hheld⟩ (h.live p c hc) hb.freshBref rfl, rfl, rfl, hrequeued, honly⟩
  · simp [unlinkCtx, hv.present, hjoin, hinit, hdel]
  · unfold unlink
    by_cases hqp : q = p
    · exact hqp ▸ hlist
    · rw [List.erase_of_not_mem (hothers q hqp)]
      exact (h.list q hq).congr fun y hy => hframe y (h.disjoint hqp hy)
  · rw [unlink, h.none q hq, List.erase_nil]
  · exact h.live q d ((mem_unlink h.nodup).mp hd).2
  · exact h.apart q q' d ((mem_unlink h.nodup).mp hd).2 ((mem_unlink h.nodup).mp hd').2
  · by_cases hdc : d = c
    · exact hdc ▸ hself
    · have hoff' : ∀ q, d ∉ l q := fun q hd' => hoff q ((mem_unlink h.nodup).mpr ⟨hdc, hd'⟩)
      exact (hframe (.ctx d) (by simpa using hoff' p)).trans (h.off d hd hoff')

/-! ## A flush -/

theorem Linked.first (h : Linked s l) (hp : p < s.freshPush) :
    DList.nxt s.head (.list p) = some ((l p).head?.elim (.list p) .ctx) := by
  have hnxt := (h.list p hp).nxt_head
  cases hl : l p <;> simpa [hl] using hnxt

/-- What a flush of `p` does. -/
structure Flushed (p : PushId) (s : State) (l : PushId → List CtxId) (s' : State) : Prop where
  linked : Linked s' (Function.update l p [])
  books : Books s'
  freshPush : s'.freshPush = s.freshPush
  bref : s'.bref = s.bref
  held : ∀ c ctx v, HeldAs s c ctx v → HeldAs s' c ctx (if c ∈ l p then v.requeued else v)

theorem flushLoop_ok {fuel : Nat} (h : Linked s l) (hb : Books s) (hp : p < s.freshPush) (hfuel : (l p).length < fuel) :
    ∃ s', flushLoop p fuel ((l p).head?.elim (.list p) .ctx) s = some s' ∧ Flushed p s l s' := by
  induction fuel generalizing s l with
  | zero => exact absurd hfuel (Nat.not_lt_zero _)
  | succ fuel ih =>
      cases hl : l p with
      | nil =>
          refine ⟨s, by simp [flushLoop], ⟨?_, hb, rfl, rfl, fun c ctx v hv => ?_⟩⟩
          · rw [← hl, Function.update_eq_self]
            exact h
          · rw [hl, if_neg List.not_mem_nil]
            exact hv
      | cons c rest =>
          have hc : c ∈ l p := by simp [hl]
          obtain ⟨s₁, hrun, h₁, hb₁, hpush, hbref, hrequeued, honly⟩ := unlinkCtx_ok h hb hc
          have hrest : unlink c l p = rest := by simp [unlink, hl]
          have hcrest : c ∉ rest := by
            have hnodup := h.nodup p
            rw [hl] at hnodup
            exact (List.nodup_cons.mp hnodup).1
          have hnext : DList.nxt s.head (.ctx c) = some (rest.head?.elim (.list p) .ctx) := by
            have hseg := (h.list p hp).1
            rw [hl] at hseg
            have hnxt := hseg.2.2.nxt_start
            cases hrest : rest <;> simpa [hrest] using hnxt
          have hlen : (unlink c l p).length < fuel := by
            rw [hl, List.length_cons] at hfuel
            rw [hrest]
            omega
          obtain ⟨s', hrun', hf⟩ := ih h₁ hb₁ (hpush ▸ hp) hlen
          rw [hrest] at hrun'
          have hlists : Function.update (unlink c l) p [] = Function.update l p [] := by
            funext q
            by_cases hqp : q = p
            · rw [hqp, Function.update_self, Function.update_self]
            · rw [Function.update_of_ne hqp, Function.update_of_ne hqp]
              exact List.erase_of_not_mem fun hq => hqp (h.apart q p c hq hc)
          refine ⟨s', ?_, ⟨hlists ▸ hf.linked, hf.books, hf.freshPush.trans hpush, hf.bref.trans hbref, fun d ctx v hv => ?_⟩⟩
          · rw [← hrun']
            simp [flushLoop, hnext, hrun]
          · have hd := hf.held d
            rw [hrest] at hd
            rw [hl]
            by_cases hdc : d = c
            · subst hdc
              rw [if_pos List.mem_cons_self]
              have hv' := hd ctx _ (hrequeued ctx v hv)
              rwa [if_neg hcrest] at hv'
            · have hv' := hd ctx v (hv.frame honly hdc)
              have hmem : d ∈ c :: rest ↔ d ∈ rest := by simp [hdc]
              rwa [if_congr hmem rfl rfl]

theorem flushCtxs_ok (h : Linked s l) (hb : Books s) (hp : p < s.freshPush) :
    ∃ s', flushCtxs p s = some s' ∧ Flushed p s l s' := by
  have hsub : l p ⊆ List.range s.freshCtx := by
    intro c hc
    rw [List.mem_range]
    refine Nat.lt_of_not_le fun hle => ?_
    have hlive := h.live p c hc
    rw [hb.freshCtx c hle] at hlive
    cases hlive
  have hlen := ((h.nodup p).subperm hsub).length_le
  rw [List.length_range] at hlen
  obtain ⟨s', hrun, hf⟩ := flushLoop_ok h hb hp (Nat.lt_succ_of_le hlen)
  refine ⟨s', ?_, hf⟩
  simp [flushCtxs, State.getPush, hp, h.first hp, hrun]

/-! ## Every step -/

def InOrder (s : State) : Prop := Books s ∧ ∃ l, Linked s l

/-- A context that is deleted is on no list. -/
def Op.Detached (s : State) (op : Op) : Prop :=
  ∀ c, op = .ctxDel c → ∀ p < s.freshPush, ¬ Visits s.head (.list p) (.ctx c)

theorem Linked.visits (h : Linked s l) (hp : p < s.freshPush) {x : Head} :
    Visits s.head (.list p) x ↔ ∃ c ∈ l p, .ctx c = x :=
  (h.list p hp).visits_iff.trans List.mem_map

theorem InOrder.start : InOrder {} := by
  refine ⟨⟨nofun, nofun, fun _ _ => rfl, fun _ _ => rfl⟩, fun _ => [], ⟨?_, fun _ _ => rfl, nofun, nofun, nofun⟩⟩
  exact fun p hp => absurd hp (Nat.not_lt_zero p)

/-- Only what belongs to one context changes. -/
theorem InOrder.only (h : InOrder s) (ho : Only c s s') (hc : Held s' c) (hthere : (s.ctx c).isSome)
    (hhead : s'.head = s.head) (hfresh : ∀ r, s'.freshBref ≤ r → s'.bref r = none) (hctx : s'.freshCtx = s.freshCtx)
    (hpush : s'.freshPush = s.freshPush) : InOrder s' := by
  obtain ⟨hb, l, hl⟩ := h
  refine ⟨hb.change ho hc hthere hfresh hctx, l, hl.same hhead (fun d => ?_) hpush⟩
  by_cases hdc : d = c
  · obtain ⟨ctx, v, hv⟩ := hc
    rw [hdc, hthere, hv.present]
    rfl
  · rw [ho.ctx d hdc]

theorem bufctxReset_inOrder (h : InOrder s) {i : Nat} (hrun : bufctxReset c i s = some s') : InOrder s' := by
  cases hctx : s.ctx c with
  | none => simp [bufctxReset, resetLoop, hctx] at hrun
  | some ctx =>
      have hthere : (s.ctx c).isSome := by rw [hctx]; rfl
      obtain ⟨ctx', v, hv⟩ := h.1.held c hthere
      by_cases hi : i < ctx'.nrBins
      · obtain ⟨s₁, ctx₁, v₁, hrun₁, h₁, -, -, -, honly, hsettled, hnone⟩ := bufctxReset_held hv h.1.freshBref hi
        cases hrun₁.symm.trans hrun
        exact h.only honly ⟨ctx₁, v₁, h₁⟩ hthere hsettled.head
          (fun r hr => hnone r (h.1.freshBref r (hsettled.freshBref ▸ hr))) hsettled.freshCtx hsettled.freshPush
      · simp [bufctxReset, resetLoop, hv.present, Bufctx.bin, hi] at hrun

/-- Without the context there is no reference. -/
theorem bufctxRefn_none (hctx : s.ctx c = none) (i : Nat) (bo : Push.BoId) (flags : Word) (memory : Bool) :
    bufctxRefn c i bo flags memory s = none := by
  simp [bufctxRefn, takeBref, hctx]

/-- Without the bin there is none either, or nothing happens. -/
theorem bufctxRefn_badBin {ctx : Bufctx} {i : Nat} (hctx : s.ctx c = some ctx) (hi : ¬ i < ctx.nrBins) (bo : Push.BoId)
    (flags : Word) (memory : Bool) :
    bufctxRefn c i bo flags memory s = none ∨ bufctxRefn c i bo flags memory s = some (none, s) := by
  cases hfree : ctx.free with
  | none => cases memory <;> simp [bufctxRefn, takeBref, hctx, hfree, Bufctx.bin, hi]
  | some r => cases hb : s.bref r <;> simp [bufctxRefn, takeBref, hctx, hfree, hb, Bufctx.bin, hi]

theorem bufctxRefn_inOrder (h : InOrder s) {i : Nat} {bo : Push.BoId} {flags : Word} {memory : Bool} {r : Option BrefId}
    (hrun : bufctxRefn c i bo flags memory s = some (r, s')) : InOrder s' := by
  cases hctx : s.ctx c with
  | none => cases (bufctxRefn_none hctx i bo flags memory).symm.trans hrun
  | some ctx =>
      have hthere : (s.ctx c).isSome := by rw [hctx]; rfl
      obtain ⟨ctx', v, hv⟩ := h.1.held c hthere
      by_cases hi : i < ctx'.nrBins
      · rcases bufctxRefn_added hv h.1.freshBref hi bo flags memory with hsame | ⟨r', s₁, ctx₁, v₁, hrun₁, ha⟩
        · cases hsame.symm.trans hrun
          exact h
        · cases hrun₁.symm.trans hrun
          exact h.only ha.only ⟨ctx₁, v₁, ha.held hv⟩ hthere ha.head ha.freshBref ha.freshCtx ha.freshPush
      · rcases bufctxRefn_badBin hv.present hi bo flags memory with hnone | hsame
        · cases hnone.symm.trans hrun
        · cases hsame.symm.trans hrun
          exact h

theorem bufctxMthd_inOrder (h : InOrder s) {i : Nat} {packet : Word} {bo : Push.BoId} {data : Size} {flags vor tor : Word}
    {memory : Bool} {r : Option BrefId} (hrun : bufctxMthd c i packet bo data flags vor tor memory s = some (r, s')) :
    InOrder s' := by
  cases hctx : s.ctx c with
  | none => simp [bufctxMthd, bufctxRefn_none hctx] at hrun
  | some ctx =>
      have hthere : (s.ctx c).isSome := by rw [hctx]; rfl
      obtain ⟨ctx', v, hv⟩ := h.1.held c hthere
      by_cases hi : i < ctx'.nrBins
      · rcases bufctxMthd_held hv h.1.freshBref hi packet bo data flags vor tor memory with
          hsame | ⟨r', s₁, hrun₁, hheld, honly, hhead, hfresh, hfreshCtx, hpush⟩
        · cases hsame.symm.trans hrun
          exact h
        · cases hrun₁.symm.trans hrun
          exact h.only honly hheld hthere hhead hfresh hfreshCtx hpush
      · rcases bufctxRefn_badBin hv.present hi bo flags memory with hnone | hsame
        · simp [bufctxMthd, hnone] at hrun
        · simp [bufctxMthd, hsame] at hrun
          exact hrun.2 ▸ h

/-- The books are not about the lists of contexts. -/
theorem Books.relink (h : Books s) (head : DList.Mem Head) (n : PushId) : Books { s with freshPush := n, head } where
  held c hc := by
    obtain ⟨ctx, v, hv⟩ := h.held c hc
    exact ⟨ctx, v, hv.present, hv.lists.congr (fun _ _ => rfl) ⟨rfl, rfl⟩ fun _ _ _ => Iff.rfl, ⟨hv.counts.bin, hv.counts.all⟩⟩
  owned := h.owned
  freshBref := h.freshBref
  freshCtx := h.freshCtx

theorem bufctxNew_inOrder (h : InOrder s) (bins : Nat) : ∃ s', bufctxNew bins s = some s' ∧ InOrder s' := by
  obtain ⟨hb, l, hl⟩ := h
  have hnone := hb.freshCtx s.freshCtx (Nat.le_refl _)
  obtain ⟨s', hrun, hheld, honly, hbref, hfresh, hctx, hpush, hself, hhead⟩ := bufctxNew_ok hnone hb.owned bins
  refine ⟨s', hrun, hb.only honly hheld (fun r hr => ?_) (fun d hd => ?_), l, hl.congr (x := .ctx s.freshCtx) (fun p hp => ?_) hhead
    hpush (fun d hd => ?_) fun d hd _ => ?_⟩
  · rw [hbref]
    exact hb.freshBref r (hfresh ▸ hr)
  · rw [hctx] at hd
    rw [honly.ctx d (Nat.ne_of_gt hd)]
    exact hb.freshCtx d (Nat.le_of_succ_le hd)
  · intro hmem
    have hlive := hl.live p s.freshCtx (by simpa using hmem)
    rw [hnone] at hlive
    cases hlive
  · rw [honly.ctx d (by simpa using hd)]
  · cases hd
    exact hself

theorem bufctxDel_inOrder (h : InOrder s) (hoff : ∀ p < s.freshPush, ¬ Visits s.head (.list p) (.ctx c))
    (hrun : bufctxDel c s = some s') : InOrder s' := by
  obtain ⟨hb, l, hl⟩ := h
  cases hctx : s.ctx c with
  | none => simp [bufctxDel, hctx] at hrun
  | some ctx =>
      obtain ⟨ctx', v, hv⟩ := hb.held c (by rw [hctx]; rfl)
      obtain ⟨s₁, hrun₁, hgone, hown, honly, hhead, hfresh, hfreshCtx, hpush, hnone⟩ := bufctxDel_ok hv hb.freshBref
      cases hrun₁.symm.trans hrun
      refine ⟨⟨fun d hd => ?_, fun r b hr => ?_, fun r hr => hnone r (hb.freshBref r (hfresh ▸ hr)), fun d hd => ?_⟩, l,
        hl.congr (x := .ctx c) (fun p hp => ?_) (fun y hy => ?_) hpush (fun d hd => ?_) fun d hd hd' => ?_⟩
      · have hdc : d ≠ c := by
          rintro rfl
          rw [hgone] at hd
          cases hd
        exact (hb.held d (honly.ctx d hdc ▸ hd)).frame honly hdc
      · have hbc := hown r b hr
        rw [honly.ctx _ hbc]
        exact hb.owned r b ((honly.bref r b hbc).mp hr)
      · by_cases hdc : d = c
        · rw [hdc, hgone]
        · rw [honly.ctx d hdc]
          exact hb.freshCtx d (hfreshCtx ▸ hd)
      · intro hmem
        exact hoff p hp ((hl.visits hp).mpr ⟨c, by simpa using hmem, rfl⟩)
      · rw [hhead]
        exact Function.update_of_ne hy ..
      · rw [honly.ctx d (by simpa using hd)]
      · cases hd
        rw [hgone] at hd'
        cases hd'

theorem pushbufNew_inOrder (h : InOrder s) : ∃ s', pushbufNew s = some s' ∧ InOrder s' := by
  obtain ⟨hb, l, hl⟩ := h
  obtain ⟨head, hrun, hself, -, hframe⟩ :=
    DList.init_ok (m := DList.calloc s.head (.list s.freshPush)) (x := .list s.freshPush) (by simp [DList.calloc])
  have hhead : ∀ y, y ≠ Head.list s.freshPush → head y = s.head y := fun y hy =>
    (hframe y hy).trans (Function.update_of_ne hy ..)
  refine ⟨{ s with freshPush := s.freshPush + 1, head }, ?_, hb.relink head _, l,
    ⟨fun p hp => ?_, fun p hp => hl.none p (Nat.le_of_succ_le hp), hl.live, hl.apart, fun c hc hoff => ?_⟩⟩
  · simp [pushbufNew, hrun]
  · by_cases hps : p = s.freshPush
    · rw [hps, hl.none s.freshPush (Nat.le_refl _)]
      exact .nil_of_selfLinked hself
    · have hlt : p < s.freshPush := Nat.lt_of_le_of_ne (Nat.le_of_lt_succ hp) hps
      refine (hl.list p hlt).congr fun y hy => hhead y ?_
      rintro rfl
      simp at hy
      exact hps hy.symm
  · exact (hhead _ (by simp)).trans (hl.off c hc hoff)

theorem linkCtx_inOrder (h : InOrder s) (hrun : linkCtx p c s = some s') : InOrder s' := by
  obtain ⟨hb, l, hl⟩ := h
  by_cases hp : p < s.freshPush
  · cases hctx : s.ctx c with
    | none => simp [linkCtx, hctx] at hrun
    | some ctx =>
        obtain ⟨head, hrun₁, hl'⟩ := linkCtx_ok hl hp (c := c) (by rw [hctx]; rfl)
        cases hrun₁.symm.trans hrun
        exact ⟨hb.relink head _, _, hl'⟩
  · simp [linkCtx, State.getPush, hp] at hrun

theorem joinPending_inOrder (h : InOrder s) (hrun : joinPending c s = some s') : InOrder s' := by
  cases hctx : s.ctx c with
  | none => simp [joinPending, hctx] at hrun
  | some ctx =>
      have hthere : (s.ctx c).isSome := by rw [hctx]; rfl
      obtain ⟨ctx', v, hv⟩ := h.1.held c hthere
      obtain ⟨s₁, hrun₁, hheld, honly, hsettled, hbref⟩ := joinPending_held hv
      cases hrun₁.symm.trans hrun
      refine h.only honly ⟨ctx', _, hheld⟩ hthere hsettled.head (fun r hr => ?_) hsettled.freshCtx hsettled.freshPush
      rw [hbref]
      exact h.1.freshBref r (hsettled.freshBref ▸ hr)

theorem flushCtxs_inOrder (h : InOrder s) (hrun : flushCtxs p s = some s') : InOrder s' := by
  obtain ⟨hb, l, hl⟩ := h
  by_cases hp : p < s.freshPush
  · obtain ⟨s₁, hrun₁, hf⟩ := flushCtxs_ok hl hb hp
    cases hrun₁.symm.trans hrun
    exact ⟨hf.books, _, hf.linked⟩
  · simp [flushCtxs, State.getPush, hp] at hrun

/-- The step lemma. -/
theorem Op.run_inOrder (h : InOrder s) {op : Op} (hop : op.Detached s) (hrun : op.run s = some s') : InOrder s' := by
  cases op with
  | ctxNew bins =>
      obtain ⟨s₁, hrun₁, h₁⟩ := bufctxNew_inOrder h bins
      cases hrun₁.symm.trans hrun
      exact h₁
  | ctxDel c => exact bufctxDel_inOrder h (hop c rfl) hrun
  | reset c bin => exact bufctxReset_inOrder h hrun
  | refn c bin bo flags memory =>
      obtain ⟨⟨r, s₁⟩, hrun₁, rfl⟩ := Option.map_eq_some_iff.mp hrun
      exact bufctxRefn_inOrder h hrun₁
  | mthd c bin packet bo data flags vor tor memory =>
      obtain ⟨⟨r, s₁⟩, hrun₁, rfl⟩ := Option.map_eq_some_iff.mp hrun
      exact bufctxMthd_inOrder h hrun₁
  | pushNew =>
      obtain ⟨s₁, hrun₁, h₁⟩ := pushbufNew_inOrder h
      cases hrun₁.symm.trans hrun
      exact h₁
  | link p c => exact linkCtx_inOrder h hrun
  | join c => exact joinPending_inOrder h hrun
  | flush p => exact flushCtxs_inOrder h hrun

/-! ## Whole runs -/

/-- What `pushbuf_flush` comes to on its list are contexts that are there, and none is on two lists. -/
structure Healthy (s : State) : Prop where
  live : ∀ p < s.freshPush, ∀ x, Visits s.head (.list p) x → ∃ c, x = .ctx c ∧ (s.ctx c).isSome
  once : ∀ p < s.freshPush, ∀ q < s.freshPush, ∀ x, Visits s.head (.list p) x → Visits s.head (.list q) x → p = q

theorem InOrder.healthy (h : InOrder s) : Healthy s := by
  obtain ⟨-, l, hl⟩ := h
  refine ⟨fun p hp x hx => ?_, fun p hp q hq x hx hx' => ?_⟩
  · obtain ⟨c, hc, rfl⟩ := (hl.visits hp).mp hx
    exact ⟨c, rfl, hl.live p c hc⟩
  · obtain ⟨c, hc, rfl⟩ := (hl.visits hp).mp hx
    obtain ⟨d, hd, heq⟩ := (hl.visits hq).mp hx'
    cases heq
    exact hl.apart p q c hc hd

/-- A context that is deleted while it is on a list stays on it. -/
theorem bufctxDel_unhealthy (h : InOrder s) (hp : p < s.freshPush) (hon : Visits s.head (.list p) (.ctx c)) :
    ∃ s', bufctxDel c s = some s' ∧ ¬ Healthy s' := by
  obtain ⟨hb, l, hl⟩ := h
  obtain ⟨d, hd, heq⟩ := (hl.visits hp).mp hon
  cases heq
  obtain ⟨ctx, v, hv⟩ := hb.held c (hl.live p c hd)
  obtain ⟨s', hrun, hgone, -, -, hhead, -, -, hpush, -⟩ := bufctxDel_ok hv hb.freshBref
  refine ⟨s', hrun, fun hhealthy => ?_⟩
  have hstill : Visits s'.head (.list p) (.ctx c) := by
    rw [hhead]
    have hm : ∀ z, z ≠ Head.ctx c → DList.free s.head (.ctx c) z = s.head z := fun z hz => Function.update_of_ne hz ..
    exact (hon.until hm (by simp)).elim id id
  obtain ⟨c', heq, hlive⟩ := hhealthy.live p (hpush ▸ hp) _ hstill
  cases heq
  rw [hgone] at hlive
  cases hlive

theorem Op.run_healthy_iff (h : InOrder s) (op : Op) : (∀ s', op.run s = some s' → Healthy s') ↔ op.Detached s := by
  constructor
  · rintro hrun c rfl p hp hon
    obtain ⟨s', hrun', hnot⟩ := bufctxDel_unhealthy h hp hon
    exact hnot (hrun s' hrun')
  · exact fun hop s' hrun => (op.run_inOrder h hop hrun).healthy

/-- Along a run the lists are healthy after every call exactly if every context that is deleted is on no list. -/
theorem no_dangling_bufctx (ops : List Op) :
    Along (fun s op => Op.run op s) (fun s op => ∀ s', op.run s = some s' → Healthy s') {} ops ↔
      Along (fun s op => Op.run op s) (fun s op => op.Detached s) {} ops :=
  along_iff (I := InOrder) (fun _ op h => op.run_healthy_iff h) (fun _ _ _ h hop hrun => Op.run_inOrder h hop hrun) .start

/-- The context is deleted after it was validated; the flush comes to it. -/
def danglingOps : List Op := [.ctxNew 1, .pushNew, .link 0 0, .ctxDel 0]

theorem no_dangling_bufctx_deleted :
    ¬ Along (fun s op => Op.run op s) (fun s op => ∀ s', op.run s = some s' → Healthy s') {} danglingOps ∧
      (danglingOps.foldlM (fun s op => Op.run op s) {}).bind (flushCtxs 0) = none := by
  refine ⟨fun h => ?_, rfl⟩
  obtain ⟨-, h⟩ := h
  obtain ⟨-, h⟩ := h _ rfl
  obtain ⟨-, h⟩ := h _ rfl
  obtain ⟨h, -⟩ := h _ rfl
  obtain ⟨c, heq, hlive⟩ := (h _ rfl).live 0 (by decide) (.ctx 0) (.first rfl (by decide))
  cases heq
  cases hlive

/-- The steps of a run in which no context is deleted while it is on a list. -/
def State.Step (s s' : State) : Prop := ∃ op : Op, op.Detached s ∧ op.run s = some s'

theorem inOrder_of_runs (h : Runs (· = {}) State.Step s) : InOrder s := by
  refine h.induct (I := InOrder) ?_ ?_
  · rintro s rfl
    exact .start
  · rintro s s' hs ⟨op, hop, hrun⟩
    exact op.run_inOrder hs hop hrun

end LibDrm.Nouveau.Refs
