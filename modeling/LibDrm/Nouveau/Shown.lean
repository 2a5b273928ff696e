/-
# `LibDrm.Nouveau.Shown` — validations and flushes are runs of the list operations

The model of the calls has the references of a context as two lists; in the memory they are linked
(`Shows`).  Whatever a call does to its contexts, validations that fail and flushes of other push buffers
included, is a sequence of three operations on the links:

    link     the context goes to the list of the push buffer
    join     what is pending becomes current
    flush    what is current on the contexts of a push buffer becomes pending

So what holds of the lists in every run of the operations (`bufctx_bookkeeping`) holds between the calls.
-/
import LibDrm.Nouveau.Attached
import LibDrm.Nouveau.Books

open Relation

namespace LibDrm.Nouveau.Refs

open Push (PushId CtxId Client)

variable {m m' : State} {l l' : PushId → List CtxId} {s s' : Client} {c d : CtxId} {p q : PushId} {v : Lists} {ctx : Bufctx}

/-! ## The two models of a context -/

/-- The reference `r` is the entry `b`. -/
def ShowsBref (m : State) (v : Lists) (r : BrefId) (b : Push.Bufref) : Prop :=
  ∃ b', m.bref r = some b' ∧ b'.bo = b.bo ∧ b'.flags = b.flags ∧ b'.packet = b.packet ∧ r ∈ v.bin b.bin

structure ShowsAs (m : State) (c : CtxId) (x : Push.Bufctx) (ctx : Bufctx) (v : Lists) : Prop where
  held : HeldAs m c ctx v
  pending : List.Forall₂ (ShowsBref m v) v.pending x.pending
  current : List.Forall₂ (ShowsBref m v) v.current x.current
  relocs : ctx.relocs = x.relocs

/-- The contexts of the client are those in the memory. -/
structure Shows (m : State) (l : PushId → List CtxId) (s : Client) : Prop where
  books : Books m
  linked : Linked m l
  push : ∀ p, (s.push p).isSome → p < m.freshPush
  ctx : ∀ c x, s.ctx c = some x → ∃ ctx v, ShowsAs m c x ctx v
  onList : ∀ c x p, s.ctx c = some x → (x.onList = some p ↔ c ∈ l p)

theorem ShowsBref.of_same {r : BrefId} {b : Push.Bufref} {v' : Lists} (h : ShowsBref m v r b) (hbref : m'.bref = m.bref)
    (hbin : v'.bin = v.bin) : ShowsBref m' v' r b := by
  unfold ShowsBref
  rw [hbref, hbin]
  exact h

theorem forall₂_same {v' : Lists} {rs : List BrefId} {bs : List Push.Bufref} (h : List.Forall₂ (ShowsBref m v) rs bs)
    (hbref : m'.bref = m.bref) (hbin : v'.bin = v.bin) : List.Forall₂ (ShowsBref m' v') rs bs :=
  h.imp fun _ _ h => h.of_same hbref hbin

/-- Nothing happens to the contexts. -/
theorem Shows.same (h : Shows m l s) (hctx : s'.ctx = s.ctx) (hpush : ∀ p, (s'.push p).isSome → (s.push p).isSome) :
    Shows m l s' where
  books := h.books
  linked := h.linked
  push p hp := h.push p (hpush p hp)
  ctx := hctx ▸ h.ctx
  onList := hctx ▸ h.onList

theorem HeldAs.relink (h : HeldAs m c ctx v) (head : DList.Mem Head) : HeldAs { m with head } c ctx v :=
  ⟨h.present, h.lists.congr (fun _ _ => rfl) ⟨rfl, rfl⟩ fun _ _ _ => Iff.rfl, ⟨h.counts.bin, h.counts.all⟩⟩

/-! ## One step -/

theorem Shows.flush (h : Shows m l s) (hp : p < m.freshPush) (hctx : s'.ctx = (s.books.flushed p).ctx)
    (hpush : ∀ q, (s'.push q).isSome → (s.push q).isSome) :
    ∃ m', (Op.flush p).run m = some m' ∧ Shows m' (Function.update l p []) s' := by
  obtain ⟨m', hrun, hf⟩ := flushCtxs_ok h.linked h.books hp
  have hflushed : ∀ c x', s'.ctx c = some x' → ∃ x, s.ctx c = some x ∧ (if x.onList = some p then x.flushed else x) = x' := by
    intro c x' hx'
    rw [hctx] at hx'
    exact Option.map_eq_some_iff.mp hx'
  refine ⟨m', hrun, ⟨hf.books, hf.linked, fun q hq => hf.freshPush ▸ h.push q (hpush q hq), fun c x' hx' => ?_,
    fun c x' q hx' => ?_⟩⟩
  · obtain ⟨x, hx, rfl⟩ := hflushed c x' hx'
    obtain ⟨ctx, v, hv⟩ := h.ctx c x hx
    have hheld := hf.held c ctx v hv.held
    by_cases hc : c ∈ l p
    · rw [if_pos hc] at hheld
      rw [if_pos ((h.onList c x p hx).mpr hc)]
      refine ⟨ctx, v.requeued, hheld, ?_, .nil, hv.relocs⟩
      exact List.rel_append (forall₂_same hv.current hf.bref rfl) (forall₂_same hv.pending hf.bref rfl)
    · rw [if_neg hc] at hheld
      rw [if_neg fun hon => hc ((h.onList c x p hx).mp hon)]
      exact ⟨ctx, v, hheld, forall₂_same hv.pending hf.bref rfl, forall₂_same hv.current hf.bref rfl, hv.relocs⟩
  · obtain ⟨x, hx, rfl⟩ := hflushed c x' hx'
    by_cases hqp : q = p
    · subst hqp
      rw [Function.update_self]
      by_cases hon : x.onList = some q
      · rw [if_pos hon]
        exact ⟨nofun, fun hc => absurd hc List.not_mem_nil⟩
      · rw [if_neg hon]
        exact ⟨fun hon' => absurd hon' hon, fun hc => absurd hc List.not_mem_nil⟩
    · rw [Function.update_of_ne hqp]
      by_cases hon : x.onList = some p
      · rw [if_pos hon]
        have hc := (h.onList c x p hx).mp hon
        exact ⟨nofun, fun hc' => absurd (h.linked.apart q p c hc' hc) hqp⟩
      · rw [if_neg hon]
        exact h.onList c x q hx

theorem Shows.link {x : Push.Bufctx} (h : Shows m l s) (hp : p < m.freshPush) (hx : s.ctx c = some x)
    (hctx : s'.ctx = Function.update s.ctx c (some (x.linked p)))
    (hpush : ∀ q, (s'.push q).isSome → (s.push q).isSome) :
    ∃ m', (Op.link p c).run m = some m' ∧ Shows m' (relink p c l) s' := by
  obtain ⟨ctx, v, hv⟩ := h.ctx c x hx
  obtain ⟨head, hrun, hlinked⟩ := linkCtx_ok h.linked hp (c := c) (by rw [hv.held.present]; rfl)
  refine ⟨{ m with head }, hrun, ⟨h.books.relink head _, hlinked, fun q hq => h.push q (hpush q hq), fun d y hy => ?_,
    fun d y q hy => ?_⟩⟩
  · rw [hctx] at hy
    by_cases hdc : d = c
    · subst hdc
      rw [Function.update_self] at hy
      cases hy
      exact ⟨ctx, v, hv.held.relink head, hv.pending, hv.current, hv.relocs⟩
    · rw [Function.update_of_ne hdc] at hy
      obtain ⟨ctx', v', hv'⟩ := h.ctx d y hy
      exact ⟨ctx', v', hv'.held.relink head, hv'.pending, hv'.current, hv'.relocs⟩
  · rw [mem_relink h.linked.nodup]
    rw [hctx] at hy
    by_cases hdc : d = c
    · subst hdc
      rw [Function.update_self] at hy
      cases hy
      simp [Push.Bufctx.linked, eq_comm]
    · rw [Function.update_of_ne hdc] at hy
      rw [h.onList d y q hy]
      simp [hdc]

theorem Shows.join {x : Push.Bufctx} (h : Shows m l s) (hx : s.ctx c = some x)
    (hctx : s'.ctx = Function.update s.ctx c (some { x with current := x.pending ++ x.current, pending := [] }))
    (hpush : ∀ q, (s'.push q).isSome → (s.push q).isSome) : ∃ m', (Op.join c).run m = some m' ∧ Shows m' l s' := by
  obtain ⟨ctx, v, hv⟩ := h.ctx c x hx
  obtain ⟨m', hrun, hheld, honly, hsettled, hbref⟩ := joinPending_held hv.held
  have hthere : (m.ctx c).isSome := by rw [hv.held.present]; rfl
  have hfresh : ∀ r, m'.freshBref ≤ r → m'.bref r = none := by
    intro r hr
    rw [hbref]
    exact h.books.freshBref r (hsettled.freshBref ▸ hr)
  have hctxs : ∀ d, (m'.ctx d).isSome = (m.ctx d).isSome := by
    intro d
    by_cases hdc : d = c
    · rw [hdc, hthere, hheld.present]
      rfl
    · rw [honly.ctx d hdc]
  refine ⟨m', hrun, ⟨h.books.change honly ⟨ctx, _, hheld⟩ hthere hfresh hsettled.freshCtx,
    h.linked.same hsettled.head hctxs hsettled.freshPush, fun q hq => hsettled.freshPush ▸ h.push q (hpush q hq), fun d y hy => ?_,
    fun d y q hy => ?_⟩⟩
  · rw [hctx] at hy
    by_cases hdc : d = c
    · subst hdc
      rw [Function.update_self] at hy
      cases hy
      refine ⟨ctx, v.joined, hheld, .nil, ?_, hv.relocs⟩
      exact List.rel_append (forall₂_same hv.pending hbref rfl) (forall₂_same hv.current hbref rfl)
    · rw [Function.update_of_ne hdc] at hy
      obtain ⟨ctx', v', hv'⟩ := h.ctx d y hy
      exact ⟨ctx', v', hv'.held.frame honly hdc, forall₂_same hv'.pending hbref rfl, forall₂_same hv'.current hbref rfl,
        hv'.relocs⟩
  · rw [hctx] at hy
    by_cases hdc : d = c
    · subst hdc
      rw [Function.update_self] at hy
      cases hy
      exact h.onList d x q hx
    · rw [Function.update_of_ne hdc] at hy
      exact h.onList d y q hy

/-! ## Whole calls -/

/-- What calls do to the lists. -/
def CallStep (m m' : State) : Prop :=
  ∃ op : Op, (match op with | .link _ _ | .join _ | .flush _ => True | _ => False) ∧ op.run m = some m'

theorem isSome_of_books {t : Push.Books} (hbooks : s'.books = t) (ht : ∀ p, (t.book p).isSome → (s.books.book p).isSome)
    (p : PushId) (hp : (s'.push p).isSome) : (s.push p).isSome := by
  have hp' : (s'.books.book p).isSome := by
    simpa [Push.Client.books] using hp
  rw [hbooks] at hp'
  simpa [Push.Client.books] using ht p hp'

theorem isSome_set {t : Push.Books} {k k' : Push.Book} (hk : t.book p = some k) (q : PushId)
    (hq : ((t.set p k').book q).isSome) : (t.book q).isSome := by
  by_cases hqp : q = p
  · rw [hqp, hk]
    rfl
  · have hsame : (t.set p k').book q = t.book q := Function.update_of_ne hqp ..
    rwa [hsame] at hq

/-- The step lemma. -/
theorem Shows.moved (h : Shows m l s) (hmove : Push.Client.Moved .all s s') :
    ∃ m' l', ReflTransGen CallStep m m' ∧ Shows m' l' s' := by
  rcases hmove.move with hbooks | hmove
  · have hctx : s'.ctx = s.ctx := congrArg Push.Books.ctx hbooks
    exact ⟨m, l, .refl, h.same hctx (isSome_of_books hbooks fun _ h => h)⟩
  · have hlt : ∀ {p k}, s.books.book p = some k → p < m.freshPush := fun {p k} hk => by
      obtain ⟨push, hpush, -⟩ := Option.map_eq_some_iff.mp hk
      exact h.push p (by rw [hpush]; rfl)
    generalize hbooks : s'.books = t' at hmove
    have hctx : s'.ctx = t'.ctx := congrArg Push.Books.ctx hbooks
    cases hmove with
    | moved hk _ => exact ⟨m, l, .refl, h.same hctx (isSome_of_books hbooks (isSome_set hk))⟩
    | enter hk _ _ _ => exact ⟨m, l, .refl, h.same hctx (isSome_of_books hbooks (isSome_set hk))⟩
    | crowd hk _ => exact ⟨m, l, .refl, h.same hctx (isSome_of_books hbooks (isSome_set hk))⟩
    | again hk _ _ _ => exact ⟨m, l, .refl, h.same hctx (isSome_of_books hbooks (isSome_set hk))⟩
    | drop _ hk _ => exact ⟨m, l, .refl, h.same hctx (isSome_of_books hbooks (isSome_set hk))⟩
    | giveUp _ hk => exact ⟨m, l, .refl, h.same hctx (isSome_of_books hbooks (isSome_set hk))⟩
    | reset _ hk =>
        obtain ⟨m', hrun, h'⟩ := h.flush (hlt hk) hctx (isSome_of_books hbooks (isSome_set hk))
        exact ⟨m', _, .single ⟨_, trivial, hrun⟩, h'⟩
    | link _ hk _ hx =>
        obtain ⟨m', hrun, h'⟩ := h.link (hlt hk) hx hctx (isSome_of_books hbooks fun _ h => h)
        exact ⟨m', _, .single ⟨_, trivial, hrun⟩, h'⟩
    | join _ hx =>
        obtain ⟨m', hrun, h'⟩ := h.join hx hctx (isSome_of_books hbooks fun _ h => h)
        exact ⟨m', l, .single ⟨_, trivial, hrun⟩, h'⟩

theorem Shows.moves (h : Shows m l s) (hmoves : s.Moves .all s') : ∃ m' l', ReflTransGen CallStep m m' ∧ Shows m' l' s' := by
  induction hmoves with
  | refl => exact ⟨m, l, .refl, h⟩
  | tail _ hmove ih =>
      obtain ⟨m₁, l₁, hsteps, h₁⟩ := ih
      obtain ⟨m', l', hsteps', h'⟩ := h₁.moved hmove
      exact ⟨m', l', hsteps.trans hsteps', h'⟩

theorem Shows.call {n : Nat} {op : Push.Op} (h : Shows m l s) (hop : op.calls = true) :
    Ensures (op.run n s) fun r => ∃ m' l', ReflTransGen CallStep m m' ∧ Shows m' l' r.2 := by
  cases op with
  | boMap b => exact (Push.Call.run_tame n _ _).mono fun _ hm => h.moves hm
  | space p dwords relocs pushes => exact (Push.Call.run_tame n _ _).mono fun _ hm => h.moves hm
  | refn p refs => exact Push.pushbufRefn_moves.mono fun _ hm => h.moves hm
  | validate p => exact (Push.Call.run_tame n _ _).mono fun _ hm => h.moves hm
  | kick p isFifo => exact Push.pushbufKick_moves.mono fun _ hm => h.moves hm
  | _ => cases hop

theorem CallStep.step (h : CallStep m m') : m.Step m' := by
  obtain ⟨op, hop, hrun⟩ := h
  refine ⟨op, ?_, hrun⟩
  rintro c rfl
  exact hop.elim

/-- Operations none of which deletes a context. -/
theorem runs_of_ops {ops : List Op} (hops : ∀ op ∈ ops, ∀ c, op ≠ .ctxDel c) (h : Runs (· = {}) State.Step m)
    (hrun : ops.foldlM (fun m op => Op.run op m) m = some m') : Runs (· = {}) State.Step m' := by
  induction ops generalizing m with
  | nil =>
      cases hrun
      exact h
  | cons op ops ih =>
      rw [List.foldlM_cons] at hrun
      obtain ⟨m₁, hm₁, hrun⟩ := Option.bind_eq_some_iff.mp hrun
      have hstep : m.Step m₁ := ⟨op, fun c hc => absurd hc (hops op List.mem_cons_self c), hm₁⟩
      exact ih (fun op' hop' => hops op' (List.mem_cons_of_mem op hop')) (h.step hstep) hrun

/-- In every run the lists of every context, and its numbers, are in order, and the loops over them come to their end;
    and what a call of a client does to its contexts is such a run. -/
theorem bufctx_bookkeeping (h : Runs (· = {}) State.Step m) :
    (∀ c ctx, m.ctx c = some ctx → (∃ v, Holds m c ctx v ∧ Counts m ctx v) ∧
      (∀ i < ctx.nrBins, (bufctxReset c i m).isSome) ∧ (joinPending c m).isSome) ∧
    (∀ p < m.freshPush, (flushCtxs p m).isSome) ∧
    ∀ l s n op r, Shows m l s → Push.Op.calls op = true → op.run n s = .ok r →
      ∃ m' l', Runs (· = {}) State.Step m' ∧ ReflTransGen CallStep m m' ∧ Shows m' l' r.2 := by
  obtain ⟨hbooks, l, hl⟩ := inOrder_of_runs h
  refine ⟨fun c ctx hctx => ?_, fun p hp => ?_, fun l s n op r hshows hop hrun => ?_⟩
  · obtain ⟨ctx', v, hv⟩ := hbooks.held c (by rw [hctx]; rfl)
    cases hctx.symm.trans hv.present
    refine ⟨⟨v, hv.lists, hv.counts⟩, fun i hi => ?_, ?_⟩
    · obtain ⟨s', _, _, hrun, -⟩ := bufctxReset_held hv hbooks.freshBref hi
      rw [hrun]
      rfl
    · obtain ⟨s', hrun, -⟩ := joinPending_held hv
      rw [hrun]
      rfl
  · obtain ⟨s', hrun, -⟩ := flushCtxs_ok hl hbooks hp
    rw [hrun]
    rfl
  · obtain ⟨m', l', hsteps, hshows'⟩ := hshows.call hop r hrun
    refine ⟨m', l', ?_, hsteps, hshows'⟩
    clear hshows'
    induction hsteps with
    | refl => exact h
    | tail _ hstep ih => exact ih.step hstep.step

/-- A reference and two methods; the bin of the reference is reset between a validation and a flush. -/
def sampleOps : List Op :=
  [.ctxNew 2, .pushNew, .refn 0 0 5 0 true, .mthd 0 1 0x20 6 0 0 0 0 true, .link 0 0, .join 0, .mthd 0 1 0x24 7 0 0 0 0 true,
    .reset 0 0, .flush 0]

theorem bufctx_bookkeeping_sample : ∃ m ctx, Runs (· = {}) State.Step m ∧ m.ctx 0 = some ctx ∧ ctx.relocs = 2 ∧
    ctx.free = some 0 ∧ ∃ v, Holds m 0 ctx v ∧ Counts m ctx v := by
  have hrun : ((sampleOps.foldlM (fun m op => Op.run op m) {}).bind fun m => m.ctx 0).map (fun ctx => (ctx.relocs, ctx.free)) =
      some (2, some 0) := by
    decide +kernel
  obtain ⟨ctx, hctx, hfields⟩ := Option.map_eq_some_iff.mp hrun
  obtain ⟨m, hm, hctx⟩ := Option.bind_eq_some_iff.mp hctx
  have hruns : Runs (· = {}) State.Step m := by
    refine runs_of_ops (fun op hop c => ?_) (.init rfl) hm
    rintro rfl
    simp [sampleOps] at hop
  exact ⟨m, ctx, hruns, hctx, congrArg Prod.fst hfields, congrArg Prod.snd hfields, ((bufctx_bookkeeping hruns).1 0 ctx hctx).1⟩

end LibDrm.Nouveau.Refs
