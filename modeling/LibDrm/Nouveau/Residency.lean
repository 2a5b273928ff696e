/-
# `LibDrm.Nouveau.Residency` — what is validated has its entries

A validation works off the pending references of a context and joins them to the current ones.
That the current ones need no work rests on this, for a context that is on the list of a push
buffer:

    covered    every current reference has an entry in the record, with the domains it may write and
               read, and in none but the domains it asks for

The entries keep that when more is asked of them: the domains in which a buffer may be are narrowed,
down to VRAM if need be, and what is written or read is widened.  A flush empties the record, and
makes all of the context pending again.

Two ways lead out of that.  A validation that fails without a flush leaves the references current
and takes their entries back (`gaveUp`).  And a context that goes from one list to another takes its
current references along (`strayed`).  A flush is the way back.
-/
import LibDrm.Nouveau.Accounts

namespace LibDrm.Nouveau.Push

open Client

/-! ## What an entry is for -/

def Domains.Sub (c d : Domains) : Prop := (c.vram → d.vram) ∧ (c.gart → d.gart)

/-- The entry is what the reference asks for. -/
structure Kref.Covers (bref : Bufref) (e : Kref) : Prop where
  bo : e.bo = bref.bo
  write : (Domains.ofAccess NOUVEAU_BO_WR bref.flags).Sub e.write
  read : (Domains.ofAccess NOUVEAU_BO_RD bref.flags).Sub e.read
  valid : e.valid.Sub (.ofFlags bref.flags)
  somewhere : Domains.ofFlags bref.flags ≠ .empty → e.valid ≠ .empty

/-- The same entry, after more was asked of it. -/
structure Kref.Refined (e e' : Kref) : Prop where
  bo : e'.bo = e.bo
  write : e.write.Sub e'.write
  read : e.read.Sub e'.read
  valid : e'.valid.Sub e.valid
  somewhere : e.valid ≠ .empty → e'.valid ≠ .empty

/-- The entries are refined, and there may be more of them. -/
def Follows (l l' : List Kref) : Prop := ∀ (i : Nat) (e : Kref), l[i]? = some e → ∃ e', l'[i]? = some e' ∧ e.Refined e'

section Entries

variable {c d d' : Domains} {e e' e₁ e₂ : Kref} {l l' l₁ l₂ : List Kref} {bref : Bufref} {flags : Word} {b : BoId}

theorem Domains.Sub.refl : d.Sub d := ⟨id, id⟩

theorem Domains.Sub.trans (h₁ : c.Sub d) (h₂ : d.Sub d') : c.Sub d' := ⟨h₂.1 ∘ h₁.1, h₂.2 ∘ h₁.2⟩

theorem sub_union : c.Sub (c.union d) := by
  constructor <;> intro h <;> simp [Domains.union, h]

theorem sub_union_right : d.Sub (c.union d) := by
  constructor <;> intro h <;> simp [Domains.union, h]

theorem inter_sub : (c.inter d).Sub c := by
  constructor <;> simp +contextual [Domains.inter]

theorem inter_sub_right : (c.inter d).Sub d := by
  constructor <;> simp +contextual [Domains.inter]

theorem Kref.Refined.refl : e.Refined e := ⟨rfl, .refl, .refl, .refl, id⟩

theorem Kref.Refined.trans (h₁ : e.Refined e₁) (h₂ : e₁.Refined e₂) : e.Refined e₂ :=
  ⟨h₂.bo.trans h₁.bo, h₁.write.trans h₂.write, h₁.read.trans h₂.read, h₂.valid.trans h₁.valid,
    h₂.somewhere ∘ h₁.somewhere⟩

theorem Kref.Covers.refined (h : e.Covers bref) (he : e.Refined e') : e'.Covers bref :=
  ⟨he.bo.trans h.bo, h.write.trans he.write, h.read.trans he.read, he.valid.trans h.valid, he.somewhere ∘ h.somewhere⟩

theorem refined_alike (h : e.Alike e') : e.Refined e' := by
  obtain ⟨hbo, hvalid, hwrite, hread⟩ := h
  exact ⟨hbo, hwrite ▸ .refl, hread ▸ .refl, hvalid ▸ .refl, fun hne => hvalid ▸ hne⟩

/-- Another reference, to some of the domains that are left. -/
theorem refined_again (hvalid : e.valid.inter (.ofFlags flags) ≠ .empty) : e.Refined (e.again flags) :=
  ⟨rfl, sub_union, sub_union, inter_sub, fun _ => hvalid⟩

theorem covers_again (hb : e.bo = bref.bo) (hvalid : e.valid.inter (.ofFlags bref.flags) ≠ .empty) :
    (e.again bref.flags).Covers bref :=
  ⟨hb, sub_union_right, sub_union_right, inter_sub_right, fun _ => hvalid⟩

theorem Follows.refl : Follows l l := fun _ e he => ⟨e, he, .refl⟩

theorem Follows.trans (h₁ : Follows l l₁) (h₂ : Follows l₁ l₂) : Follows l l₂ := by
  intro i e he
  obtain ⟨e₁, he₁, hr₁⟩ := h₁ i e he
  obtain ⟨e₂, he₂, hr₂⟩ := h₂ i e₁ he₁
  exact ⟨e₂, he₂, hr₁.trans hr₂⟩

theorem follows_append : Follows l (l ++ l₁) := fun i e he =>
  ⟨e, by rw [List.getElem?_append_left (List.getElem?_eq_some_iff.mp he).1]; exact he, .refl⟩

theorem follows_map {f : Kref → Kref} (hf : ∀ e : Kref, e.Alike (f e)) : Follows l (l.map f) := fun i e he =>
  ⟨f e, by rw [List.getElem?_map, he, Option.map_some], refined_alike (hf e)⟩

theorem follows_modify {i : Nat} (he : l[i]? = some e) {f : Kref → Kref} (hf : e.Refined (f e)) :
    Follows l (l.modify i f) := by
  intro j d hd
  rw [List.getElem?_modify, hd]
  by_cases hij : i = j
  · subst hij
    cases he.symm.trans hd
    exact ⟨f e, by simp, hf⟩
  · exact ⟨d, by simp [hij], .refl⟩

theorem Follows.cons (he : e.Refined e') (h : Follows l l') : Follows (e :: l) (e' :: l') := by
  intro i d hd
  cases i with
  | zero =>
      cases hd
      exact ⟨e', rfl, he⟩
  | succ i => exact h i d hd

theorem follows_scan {size : BoId → Size} {vramLimit gartLimit need vram gart : Size} :
    Follows l (Krec.scan size vramLimit gartLimit need l vram gart).2.1 := by
  induction l generalizing vram gart with
  | nil => exact .refl
  | cons k l ih =>
      simp only [Krec.scan]
      split
      · exact ih.cons .refl
      · next hboth =>
        simp only [not_or, not_not] at hboth
        have hk : k.Refined { k with valid := .vramOnly } :=
          ⟨rfl, .refl, .refl, ⟨fun _ => hboth.2.1, fun h => (by cases h)⟩, fun _ h => (by cases h)⟩
        split
        · exact Follows.refl.cons hk
        · exact ih.cons hk

/-- The record after a request, whether there was room for it or not, and where the buffer may be. -/
theorem follows_fits {size : BoId → Size} {vramLimit gartLimit need : Size} {krec krec' : Krec}
    {valid : Option Domains} (h : krec.krefFits size vramLimit gartLimit need d = (valid, krec')) :
    Follows krec.buffer krec'.buffer ∧ ∀ v, valid = some v → v.Sub d ∧ (d ≠ .empty → v ≠ .empty) := by
  unfold Krec.krefFits at h
  split_ifs at h with h₁ h₂ h₃ h₄
  · obtain ⟨rfl, rfl⟩ := Prod.mk.inj h
    exact ⟨.refl, nofun⟩
  · obtain ⟨rfl, rfl⟩ := Prod.mk.inj h
    exact ⟨.refl, fun v hv => Option.some.inj hv ▸ ⟨.refl, id⟩⟩
  · obtain ⟨rfl, rfl⟩ := Prod.mk.inj h
    exact ⟨.refl, fun v hv => Option.some.inj hv ▸ ⟨.refl, id⟩⟩
  · obtain ⟨rfl, rfl⟩ := Prod.mk.inj h
    exact ⟨.refl, fun v hv => Option.some.inj hv ▸ ⟨⟨fun _ => h₄.1, nofun⟩, fun _ => nofun⟩⟩
  · obtain ⟨rfl, rfl⟩ := Prod.mk.inj h
    refine ⟨follows_scan, fun v hv => ?_⟩
    split_ifs at hv
    exact Option.some.inj hv ▸ ⟨.refl, id⟩

end Entries

/-! ## What holds of the contexts -/

/-- What a context has as current is covered by the places that count in the record of the push buffer on whose list it
    is, unless it came there from another list; the push buffers of `ex` are exempt from that. -/
structure Books.Resident (places : PushId → Nat → Prop) (ex : PushId → Prop) (t : Books) : Prop where
  idle : ∀ {c ctx}, t.ctx c = some ctx → ctx.onList = none → ctx.current = []
  listed : ∀ {c ctx p}, t.ctx c = some ctx → ctx.onList = some p → p < t.freshPush
  covered : ∀ {p k c ctx}, t.book p = some k → t.ctx c = some ctx → ctx.onList = some p → ctx.strayed = false →
    k.gaveUp = false → ¬ ex p → ∀ bref ∈ ctx.current, ∃ i e, places p i ∧ k.krec.buffer[i]? = some e ∧ e.Covers bref

/-- All places count, and no push buffer is exempt. -/
abbrev Books.AllResident (t : Books) : Prop := t.Resident (fun _ _ => True) fun _ => False

section Contexts

variable {a : Allowed} {size : BoId → Size} {known : BoId → Prop} {t t' : Books} {p q : PushId} {k r : Book} {c : CtxId}
  {ctx ctx' : Bufctx} {places places' : PushId → Nat → Prop} {ex ex' : PushId → Prop} {n : Nat}

/-- More places count, and more push buffers are exempt. -/
theorem Books.Resident.mono (h : t.Resident places ex) (hplaces : ∀ q i, places q i → places' q i)
    (hex : ∀ q, ex q → ex' q) : t.Resident places' ex' := by
  refine ⟨h.idle, h.listed, fun hp hctx hlist hstay hgave hnot bref hbref => ?_⟩
  obtain ⟨i, e, hi, he⟩ := h.covered hp hctx hlist hstay hgave (hnot ∘ hex _) bref hbref
  exact ⟨i, e, hplaces _ i hi, he⟩

/-- The places that a record has now are enough. -/
theorem Books.Resident.limit (h : t.AllResident) (hk : t.book p = some k) :
    t.Resident (fun q i => q = p → i < k.krec.buffer.length) fun _ => False := by
  refine ⟨h.idle, h.listed, fun {q r c ctx} hq hctx hlist hstay hgave hnot bref hbref => ?_⟩
  obtain ⟨i, e, -, he, hcovers⟩ := h.covered hq hctx hlist hstay hgave hnot bref hbref
  refine ⟨i, e, ?_, he, hcovers⟩
  rintro rfl
  cases hk.symm.trans hq
  exact (List.getElem?_eq_some_iff.mp he).1

/-- A push buffer after a step: the one that changed, or as before. -/
theorem book_cases (hbook : t'.book = Function.update t.book p (some k)) (hr : t'.book q = some r) :
    q = p ∧ r = k ∨ q ≠ p ∧ t.book q = some r := by
  rw [hbook] at hr
  by_cases hq : q = p
  · subst hq
    rw [Function.update_self] at hr
    exact .inl ⟨rfl, (Option.some.inj hr).symm⟩
  · rw [Function.update_of_ne hq] at hr
    exact .inr ⟨hq, hr⟩

/-- The record of a push buffer changes: what it needs to cover, it covers. -/
theorem Books.Resident.set (h : t.Resident places ex) (hk : t.book p = some k)
    (hbook : t'.book = Function.update t.book p (some r)) (hctx : t'.ctx = t.ctx) (hfresh : t'.freshPush = t.freshPush)
    (hex : ∀ q, q ≠ p → ex q → ex' q)
    (hcovers : r.gaveUp = false → ¬ ex' p → k.gaveUp = false ∧ ¬ ex p ∧ ∀ bref : Bufref, ∀ i, places p i →
      ∀ e, k.krec.buffer[i]? = some e → e.Covers bref → ∃ e', r.krec.buffer[i]? = some e' ∧ e'.Covers bref) :
    t'.Resident places ex' := by
  constructor
  · intro c ctx hcx
    exact h.idle (hctx ▸ hcx)
  · intro c ctx q hcx hlist
    rw [hfresh]
    exact h.listed (hctx ▸ hcx) hlist
  · intro q r' c ctx hq hcx hlist hstay hgave hnot bref hbref
    rcases book_cases hbook hq with ⟨rfl, rfl⟩ | ⟨hne, hold⟩
    · obtain ⟨hgave', hnot', hfollow⟩ := hcovers hgave hnot
      obtain ⟨i, e, hi, he, hcov⟩ := h.covered hk (hctx ▸ hcx) hlist hstay hgave' hnot' bref hbref
      obtain ⟨e', he', hcov'⟩ := hfollow bref i hi e he hcov
      exact ⟨i, e', hi, he', hcov'⟩
    · exact h.covered hold (hctx ▸ hcx) hlist hstay hgave (hnot ∘ hex q hne) bref hbref

/-- The entries are refined. -/
theorem Books.Resident.follow (h : t.Resident places ex) (hk : t.book p = some k)
    (hbook : t'.book = Function.update t.book p (some r)) (hctx : t'.ctx = t.ctx) (hfresh : t'.freshPush = t.freshPush)
    (hgave : r.gaveUp = k.gaveUp) (hfollows : Follows k.krec.buffer r.krec.buffer) :
    t'.Resident places ex := by
  refine h.set hk hbook hctx hfresh (fun _ _ => id) fun hgave' hnot => ⟨hgave ▸ hgave', hnot, ?_⟩
  intro bref i _ e he hcov
  obtain ⟨e', he', href⟩ := hfollows i e he
  exact ⟨e', he', hcov.refined href⟩

theorem ctx_flushed {p : PushId} (h : (t.flushed p).ctx c = some ctx') :
    ∃ ctx, t.ctx c = some ctx ∧ (ctx.onList = some p ∧ ctx' = ctx.flushed ∨ ctx.onList ≠ some p ∧ ctx' = ctx) := by
  obtain ⟨ctx, hctx, hflushed⟩ := Option.map_eq_some_iff.mp h
  by_cases hlist : ctx.onList = some p
  · rw [if_pos hlist] at hflushed
    exact ⟨ctx, hctx, .inl ⟨hlist, hflushed.symm⟩⟩
  · rw [if_neg hlist] at hflushed
    exact ⟨ctx, hctx, .inr ⟨hlist, hflushed.symm⟩⟩

/-- A flush: nothing is left to cover for the push buffer, whatever it covered before. -/
theorem Books.Resident.reset {l : List Kref} (h : t.Resident places ex) (hk : t.book p = some k)
    (hoff : ∀ q, q ≠ p → (∀ i, places q i → places' q i) ∧ (ex q → ex' q)) :
    (((t.set p k.reset).clear l).flushed p).Resident places' ex' := by
  constructor
  · intro c ctx hcx hlist
    obtain ⟨ctx₀, hctx₀, ⟨-, rfl⟩ | ⟨-, rfl⟩⟩ := ctx_flushed hcx
    · rfl
    · exact h.idle hctx₀ hlist
  · intro c ctx q hcx hlist
    obtain ⟨ctx₀, hctx₀, ⟨-, rfl⟩ | ⟨-, rfl⟩⟩ := ctx_flushed hcx
    · cases hlist
    · exact h.listed hctx₀ hlist
  · intro q r' c ctx hq hcx hlist hstay hgave hnot bref hbref
    obtain ⟨ctx₀, hctx₀, ⟨-, rfl⟩ | ⟨hne, rfl⟩⟩ := ctx_flushed hcx
    · cases hlist
    · have hqp : q ≠ p := by
        rintro rfl
        exact hne hlist
      rcases book_cases (t := t) (k := k.reset) rfl hq with ⟨hqp', -⟩ | ⟨-, hold⟩
      · exact absurd hqp' hqp
      · obtain ⟨i, e, hi, he⟩ := h.covered hold hctx₀ hlist hstay hgave (hnot ∘ (hoff q hqp).2) bref hbref
        exact ⟨i, e, (hoff q hqp).1 i hi, he⟩

/-- What is not a validation keeps the contexts covered. -/
theorem Move.resident (h : Move a size known t t') (ha : ¬ a.takes) (ht : t.Resident places ex) :
    t'.Resident places ex := by
  cases h with
  | moved hk hf => exact ht.follow hk rfl rfl rfl rfl (follows_map hf)
  | enter hk _ _ hfits => exact ht.follow hk rfl rfl rfl rfl ((follows_fits hfits).1.trans follows_append)
  | crowd hk hfits => exact ht.follow hk rfl rfl rfl rfl (follows_fits hfits).1
  | again hk _ he hvalid => exact ht.follow hk rfl rfl rfl rfl (follows_modify he (refined_again hvalid))
  | drop hd _ _ => exact absurd hd ha
  | giveUp hd _ => exact absurd hd ha
  | reset _ hk => exact ht.reset hk fun q _ => ⟨fun i => id, id⟩
  | link hd _ _ _ => exact absurd hd ha
  | join hd _ => exact absurd hd ha

/-- Entries are taken back that no current reference needs, or that of an exempt push buffer. -/
theorem Books.Resident.drop {l : List Kref} {sref srel : Nat} (h : t.Resident places ex) (hk : t.book p = some k)
    (hplaces : ex p ∨ ∀ i, places p i → i < sref) :
    ((t.set p { k with krec := k.krec.drop size sref srel }).clear l).Resident places ex := by
  refine h.set hk (r := { k with krec := k.krec.drop size sref srel }) rfl rfl rfl (fun _ _ => id) ?_
  refine fun hgave hnot => ⟨hgave, hnot, ?_⟩
  intro bref i hi e he hcov
  have hlt : i < sref := hplaces.resolve_left hnot i hi
  exact ⟨e, (List.getElem?_take_of_lt hlt).trans he, hcov⟩

/-- A push buffer that gave up is exempt. -/
theorem Books.Resident.giveUp (h : t.Resident places fun q => q = p) (hk : t.book p = some k) :
    (t.set p { k with gaveUp := true }).Resident places fun _ => False := by
  exact h.set hk (r := { k with gaveUp := true }) rfl rfl rfl (fun _ hne he => absurd he hne) nofun

/-- One context changes. -/
theorem ctx_cases {c₁ : CtxId} (h : (t.setCtx c ctx).ctx c₁ = some ctx') :
    c₁ = c ∧ ctx' = ctx ∨ c₁ ≠ c ∧ t.ctx c₁ = some ctx' := by
  have hc₁ : Function.update t.ctx c (some ctx) c₁ = some ctx' := h
  by_cases hc : c₁ = c
  · subst hc
    rw [Function.update_self] at hc₁
    exact .inl ⟨rfl, (Option.some.inj hc₁).symm⟩
  · rw [Function.update_of_ne hc] at hc₁
    exact .inr ⟨hc, hc₁⟩

/-- A context goes to the list of a push buffer; it was there, on none, or strays. -/
theorem Books.Resident.link (h : t.Resident places ex) (hctx : t.ctx c = some ctx) (hp : p < t.freshPush) :
    (t.setCtx c (ctx.linked p)).Resident places ex := by
  constructor
  · intro c' ctx' hcx hlist
    rcases ctx_cases hcx with ⟨rfl, rfl⟩ | ⟨-, hold⟩
    · cases hlist
    · exact h.idle hold hlist
  · intro c' ctx' q hcx hlist
    rcases ctx_cases hcx with ⟨rfl, rfl⟩ | ⟨-, hold⟩
    · cases hlist
      exact hp
    · exact h.listed hold hlist
  · intro q r c' ctx' hq hcx hlist hstay hgave hnot bref hbref
    rcases ctx_cases hcx with ⟨rfl, rfl⟩ | ⟨-, hold⟩
    · cases hlist
      obtain ⟨hstayed, hhome⟩ := Bool.or_eq_false_iff.mp hstay
      cases hlist : ctx.onList with
      | none =>
          have hcurrent : bref ∈ ctx.current := hbref
          rw [h.idle hctx hlist] at hcurrent
          cases hcurrent
      | some o =>
          rw [hlist] at hhome
          obtain rfl : o = p := Decidable.not_not.mp (of_decide_eq_false hhome)
          exact h.covered hq hctx hlist hstayed hgave hnot bref hbref
    · exact h.covered hq hold hlist hstay hgave hnot bref hbref

/-- What was pending is current, and has its entries if the push buffer is not exempt. -/
theorem Books.Resident.join (h : t.Resident places ex) (hctx : t.ctx c = some ctx) (hlist : ctx.onList = some p)
    (hsub : ∀ q, ex q → ex' q)
    (hpending : ex' p ∨ ∀ k, t.book p = some k → ∀ bref ∈ ctx.pending,
      ∃ i e, places p i ∧ k.krec.buffer[i]? = some e ∧ e.Covers bref) :
    (t.setCtx c { ctx with current := ctx.pending ++ ctx.current, pending := [] }).Resident places ex' := by
  constructor
  · intro c' ctx' hcx hnone
    rcases ctx_cases hcx with ⟨rfl, rfl⟩ | ⟨-, hold⟩
    · cases hlist.symm.trans hnone
    · exact h.idle hold hnone
  · intro c' ctx' q hcx hq
    rcases ctx_cases hcx with ⟨rfl, rfl⟩ | ⟨-, hold⟩
    · exact h.listed hctx hq
    · exact h.listed hold hq
  · intro q r c' ctx' hq hcx hlist' hstay hgave hnot bref hbref
    rcases ctx_cases hcx with ⟨rfl, rfl⟩ | ⟨-, hold⟩
    · cases hlist.symm.trans hlist'
      rcases List.mem_append.mp hbref with hnew | hold
      · exact hpending.resolve_left hnot r hq bref hnew
      · exact h.covered hq hctx hlist hstay hgave (hnot ∘ hsub _) bref hold
    · exact h.covered hq hold hlist' hstay hgave (hnot ∘ hsub _) bref hbref

/-- The user takes references away from a context, or adds pending ones. -/
theorem Books.Resident.user (h : t.Resident places ex) (hctx : t.ctx c = some ctx) (hlist : ctx'.onList = ctx.onList)
    (hstrayed : ctx'.strayed = ctx.strayed) (hcurrent : ∀ bref ∈ ctx'.current, bref ∈ ctx.current) :
    (t.setCtx c ctx').Resident places ex := by
  constructor
  · intro c₁ ctx₁ hcx hnone
    rcases ctx_cases hcx with ⟨rfl, rfl⟩ | ⟨-, hold⟩
    · refine List.eq_nil_iff_forall_not_mem.mpr fun bref hbref => ?_
      have := hcurrent bref hbref
      rw [h.idle hctx (hlist.symm.trans hnone)] at this
      cases this
    · exact h.idle hold hnone
  · intro c₁ ctx₁ q hcx hq
    rcases ctx_cases hcx with ⟨rfl, rfl⟩ | ⟨-, hold⟩
    · exact h.listed hctx (hlist.symm.trans hq)
    · exact h.listed hold hq
  · intro q r c₁ ctx₁ hq hcx hlist₁ hstay hgave hnot bref hbref
    rcases ctx_cases hcx with ⟨rfl, rfl⟩ | ⟨-, hold⟩
    · exact h.covered hq hctx (hlist.symm.trans hlist₁) (hstrayed.symm.trans hstay) hgave hnot bref (hcurrent bref hbref)
    · exact h.covered hq hold hlist₁ hstay hgave hnot bref hbref

/-- Another context is attached. -/
theorem Books.Resident.attach {c : Option CtxId} (h : t.Resident places ex) (hk : t.book p = some k) :
    (t.set p { k with bufctx := c }).Resident places ex :=
  h.set hk (r := { k with bufctx := c }) rfl rfl rfl (fun _ _ => id) fun hgave hnot =>
    ⟨hgave, hnot, fun _ _ _ e he hcov => ⟨e, he, hcov⟩⟩

theorem Books.Resident.newPush {channel : Bool} (h : t.Resident places ex) :
    ({ t.set t.freshPush { channel := channel } with freshPush := t.freshPush + 1 } : Books).Resident places ex := by
  have hcases {q r} (hq : (t.set t.freshPush { channel := channel }).book q = some r) := book_cases rfl hq
  constructor
  · exact h.idle
  · intro c ctx q hcx hlist
    exact (h.listed hcx hlist).trans (Nat.lt_succ_self _)
  · intro q r c ctx hq hcx hlist hstay hgave hnot bref hbref
    rcases hcases hq with ⟨rfl, rfl⟩ | ⟨-, hold⟩
    · exact absurd (h.listed hcx hlist) (Nat.lt_irrefl _)
    · exact h.covered hold hcx hlist hstay hgave hnot bref hbref

theorem Books.Resident.newCtx (h : t.Resident places ex) :
    ({ t.setCtx t.freshCtx {} with freshCtx := t.freshCtx + 1 } : Books).Resident places ex := by
  constructor
  · intro c ctx hcx hnone
    rcases ctx_cases (t := t) hcx with ⟨-, rfl⟩ | ⟨-, hold⟩
    · rfl
    · exact h.idle hold hnone
  · intro c ctx q hcx hlist
    rcases ctx_cases (t := t) hcx with ⟨-, rfl⟩ | ⟨-, hold⟩
    · cases hlist
    · exact h.listed hold hlist
  · intro q r c ctx hq hcx hlist hstay hgave hnot bref hbref
    rcases ctx_cases (t := t) hcx with ⟨-, rfl⟩ | ⟨-, hold⟩
    · cases hbref
    · exact h.covered hq hold hlist hstay hgave hnot bref hbref

theorem Books.Resident.del {l : List Kref} (h : t.Resident places ex) : (t.del p l).Resident places ex := by
  have hold : ∀ {q r}, (t.del p l).book q = some r → t.book q = some r := by
    intro q r hq
    by_cases hqp : q = p
    · subst hqp
      cases (Function.update_self ..).symm.trans hq
    · exact (Function.update_of_ne hqp ..).symm.trans hq
  exact ⟨h.idle, h.listed, fun hq => h.covered (hold hq)⟩

end Contexts

/-! ## What the calls do -/

def Allowed.calm : Allowed := ⟨False, fun _ => True⟩

/-- The record of `p` is not flushed. -/
def Allowed.spare (p : PushId) : Allowed := ⟨False, fun q => q ≠ p⟩

/-- The entries of `p` are refined, and the contexts on its list stay as they are. -/
structure Books.Spared (p : PushId) (t t' : Books) : Prop where
  book : ∀ {k}, t.book p = some k → ∃ k', t'.book p = some k' ∧ Follows k.krec.buffer k'.krec.buffer
  ctx : ∀ {c ctx}, t.ctx c = some ctx → ctx.onList = some p → t'.ctx c = some ctx

/-- The reference has its entry in the record of `p`. -/
def Books.Covered (p : PushId) (bref : Bufref) (t : Books) : Prop :=
  ∃ (k : Book) (i : Nat) (e : Kref), t.book p = some k ∧ k.krec.buffer[i]? = some e ∧ e.Covers bref

structure Client.Resident (places : PushId → Nat → Prop) (ex : PushId → Prop) (s : Client) : Prop where
  pointed : s.books.Pointed
  books : s.books.Resident places ex

abbrev Client.AllResident (s : Client) : Prop := s.Resident (fun _ _ => True) fun _ => False

section Validation

variable {a : Allowed} {size : BoId → Size} {known : BoId → Prop} {t t' t₁ : Books} {p q : PushId} {k : Book} {c : CtxId}
  {ctx : Bufctx} {places : PushId → Nat → Prop} {ex : PushId → Prop} {s s' : Client} {bref : Bufref} {push : Pushbuf}
  {b : BoId} {flags : Word}

theorem Books.Spared.refl : t.Spared p t := ⟨fun {k} hk => ⟨k, hk, .refl⟩, fun h _ => h⟩

theorem Books.Spared.trans (h₁ : t.Spared p t₁) (h₂ : t₁.Spared p t') : t.Spared p t' := by
  refine ⟨fun {k} hk => ?_, fun hctx hlist => h₂.ctx (h₁.ctx hctx hlist) hlist⟩
  obtain ⟨k₁, hk₁, hf₁⟩ := h₁.book hk
  obtain ⟨k₂, hk₂, hf₂⟩ := h₂.book hk₁
  exact ⟨k₂, hk₂, hf₁.trans hf₂⟩

theorem Books.Covered.spared (h : t.Covered p bref) (ht : t.Spared p t') : t'.Covered p bref := by
  obtain ⟨k, i, e, hk, he, hcov⟩ := h
  obtain ⟨k', hk', hfollows⟩ := ht.book hk
  obtain ⟨e', he', href⟩ := hfollows i e he
  exact ⟨k', i, e', hk', he', hcov.refined href⟩

theorem spared_set {r : Book} (hk : t.book q = some k) (hbook : t'.book = Function.update t.book q (some r))
    (hctx : t'.ctx = t.ctx) (hfollows : q = p → Follows k.krec.buffer r.krec.buffer) : t.Spared p t' := by
  refine ⟨fun {k'} hk' => ?_, fun h _ => hctx ▸ h⟩
  by_cases hqp : q = p
  · subst hqp
    cases hk.symm.trans hk'
    exact ⟨r, hbook ▸ Function.update_self .., hfollows rfl⟩
  · refine ⟨k', ?_, .refl⟩
    rw [hbook, Function.update_of_ne (Ne.symm hqp)]
    exact hk'

theorem Move.spared (h : Move (.spare p) size known t t') : t.Spared p t' := by
  cases h with
  | moved hk hf => exact spared_set hk rfl rfl fun _ => follows_map hf
  | enter hk _ _ hfits => exact spared_set hk rfl rfl fun _ => (follows_fits hfits).1.trans follows_append
  | crowd hk hfits => exact spared_set hk rfl rfl fun _ => (follows_fits hfits).1
  | again hk _ he hvalid => exact spared_set hk rfl rfl fun _ => follows_modify he (refined_again hvalid)
  | drop hd _ _ => exact absurd hd id
  | giveUp hd _ => exact absurd hd id
  | @reset q k hne hk =>
      -- the contexts of another push buffer
      have hset : t.Spared p (t.set q k.reset) := spared_set hk rfl rfl fun hqp => absurd hqp hne
      refine ⟨hset.book, fun {c ctx} hctx hlist => ?_⟩
      show (t.ctx c).map _ = some ctx
      rw [hctx, Option.map_some, if_neg]
      intro hq
      exact hne (Option.some.inj (hq.symm.trans hlist))
  | link hd _ _ _ => exact absurd hd id
  | join hd _ => exact absurd hd id

theorem Client.Moves.spared (h : s.Moves (.spare p) s') : s.books.Spared p s'.books := by
  induction h with
  | refl => exact .refl
  | tail _ h ih =>
      rcases h.move with hsame | hmove
      · rw [hsame]
        exact ih
      · exact ih.trans hmove.spared

theorem Client.Moves.resident (h : s.Moves a s') (ha : ¬ a.takes) (hs : s.Resident places ex) : s'.Resident places ex :=
  ⟨h.keep (fun hmove ht => hmove.pointed ht) hs.pointed, h.keep (fun hmove ht => hmove.resident ha ht) hs.books⟩

/-- A call that is no validation. -/
theorem Client.Resident.calm (hs : s.Resident places ex) (h : s.Moves .calm s') : s'.Resident places ex :=
  h.resident id hs

/-- An entry of a buffer that was found or made. -/
theorem pushbufKref_covers (hs : s.books.Pointed) :
    Ensures (pushbufKref p bref.bo bref.flags s) fun r => r.1 = true → r.2.books.Covered p bref := by
  refine (check_spec).bind fun _ hknown => (flushOther_spec (a := .all) fun _ _ => trivial).bind fun s₁ ⟨h₁, hplace⟩ => ?_
  have hs₁ : s₁.books.Pointed := h₁.keep (fun hmove ht => hmove.pointed ht) hs
  split
  · next entry hentry =>
    refine (krefAgain_spec hentry (hplace entry hentry)).mono fun r hr htrue => ?_
    rcases hr with ⟨hfalse, -⟩ | ⟨-, -, -, k, slot, e, hk, hkref, he, hvalid, hbooks⟩
    · cases htrue.symm.trans hfalse
    · have hb : e.bo = bref.bo := by
        obtain ⟨l, hl, hget⟩ := hs₁.points hkref
        obtain ⟨-, rfl⟩ := Prod.mk.inj (Option.some.inj ((slots_of_book hk).symm.trans hl))
        rw [List.getElem?_map, he] at hget
        exact Option.some.inj hget
      rw [hbooks]
      refine ⟨_, slot, e.again bref.flags, Function.update_self .., ?_, covers_again hb hvalid⟩
      show (k.krec.buffer.modify slot _)[slot]? = _
      rw [List.getElem?_modify, he]
      simp
  · next hnone =>
    refine (krefNew_spec (a := .all) hnone ((of_decide_eq_true hknown).trans_le h₁.fresh)).mono fun r hr htrue => ?_
    obtain ⟨k, valid, krec, domain, offset, hk, hfits, hbooks⟩ := hr.2 htrue
    obtain ⟨hsub, hsome⟩ := (follows_fits hfits).2 valid rfl
    rw [hbooks]
    exact ⟨_, krec.buffer.length, .asked bref.bo bref.flags valid domain offset, Function.update_self ..,
      List.getElem?_concat_length .., rfl, .refl, .refl, hsub, hsome⟩

theorem Books.Pointed.moves (hs : s.books.Pointed) (h : s.Moves a s') : s'.books.Pointed :=
  h.keep (fun hmove ht => hmove.pointed ht) hs

theorem validateLoop_covers {l : List Bufref} (hs : s.books.Pointed) :
    Ensures (validateLoop p l s) fun r => s.Moves (.spare p) r.2 ∧
      (r.1 = true → ∀ bref ∈ l, r.2.books.Covered p bref) := by
  induction l generalizing s with
  | nil => exact .ok ⟨.refl, nofun⟩
  | cons bref l ih =>
      have hkref : Ensures (pushbufKref p bref.bo bref.flags s) fun r => s.Moves (.spare p) r.2 ∧
          (r.1 = true → r.2.books.Covered p bref) := fun r hr =>
        ⟨pushbufKref_moves (fun q hq => hq) r hr, pushbufKref_covers hs r hr⟩
      refine hkref.bind fun ⟨fits, s₁⟩ ⟨h₁, hcov⟩ => ?_
      dsimp only at hcov ⊢
      split
      · next hfits =>
        refine (emitBufref_quiet).bind fun s₂ h₂ => ?_
        have h₁₂ : s.Moves (.spare p) s₂ := h₁.trans h₂.moves
        refine (ih (hs.moves h₁₂)).mono fun r ⟨h₃, hrest⟩ => ⟨h₁₂.trans h₃, fun htrue bref' hmem => ?_⟩
        rcases List.mem_cons.mp hmem with rfl | hmem
        · exact ((h₂.books ▸ hcov hfits : s₂.books.Covered p bref')).spared h₃.spared
        · exact hrest htrue bref' hmem
      · exact .pure ⟨h₁, nofun⟩

/-- Nothing is pending in the context of `p`, and it is on its list. -/
def Books.Joined (p : PushId) (t : Books) : Prop :=
  ∀ {k c ctx}, t.book p = some k → k.bufctx = some c → t.ctx c = some ctx → ctx.pending = [] ∧ ctx.onList = some p

/-- A call that keeps the contexts covered, and leaves nothing pending if it is a validation that returns 0. -/
def Call.Steady (call : Call → Client → Except Fault (Int × Client)) : Prop :=
  ∀ x s, s.AllResident → Ensures (call x s) fun r => r.2.AllResident ∧
    ∀ p retry, x = .validate p retry → r.1 = 0 → r.2.books.Joined p

theorem linkCtx_spec : Ensures (linkCtx p c s) fun s' => ∃ ctx, s.ctx c = some ctx ∧
    s' = s.setCtx c (ctx.linked p) := by
  refine (getCtx_spec).bind fun ctx hctx => ?_
  split
  · exact .bind_any fun _ => .pure ⟨ctx, hctx, rfl⟩
  · exact .pure ⟨ctx, hctx, rfl⟩

theorem joinPending_spec : Ensures (joinPending c s) fun s' => ∃ ctx, s.ctx c = some ctx ∧
    s' = s.setCtx c { ctx with current := ctx.pending ++ ctx.current, pending := [] } :=
  (getCtx_spec).bind fun ctx hctx => .pure ⟨ctx, hctx, rfl⟩

theorem pointed_setCtx (h : t.Pointed) : (t.setCtx c ctx).Pointed := ⟨h.points, h.fresh⟩

theorem lt_of_book (hs : s.books.Pointed) (hk : s.books.book p = some k) : p < s.books.freshPush := by
  refine Nat.lt_of_not_le fun hle => ?_
  cases (hs.fresh hle).symm.trans hk

/-- A failed call takes its entries back. -/
theorem pushbufRefnFail_resident {sref srel : Nat} (hs : s.Resident places ex)
    (hplaces : ex p ∨ ∀ i, places p i → i < sref) :
    Ensures (pushbufRefnFail p sref srel s) fun s' => s'.Resident places ex := by
  have hboth : Ensures (pushbufRefnFail p sref srel s) fun s' => s'.books.Pointed ∧ s'.books.Resident places ex := by
    intro s' hs'
    refine ⟨hs.pointed.moves (pushbufRefnFail_moves (a := .all) trivial s' hs'), ?_⟩
    obtain ⟨k, hk, -, hbooks, -⟩ := pushbufRefnFail_spec s' hs'
    rw [hbooks]
    exact hs.books.drop hk hplaces
  exact hboth.mono fun s' h => ⟨h.1, h.2⟩

/-- A flush makes up for what its push buffer does not cover. -/
theorem pushbufFlush_resident (hs : s.Resident places ex) (hex : ∀ q, q ≠ p → ¬ ex q) :
    Ensures (pushbufFlush p s) fun r => r.2.AllResident := by
  intro r hr
  obtain ⟨s₁, k, h₁, -, hk, hbooks, -⟩ := pushbufFlush_reset (a := .calm) r hr
  refine ⟨hs.pointed.moves (pushbufFlush_moves (a := .all) trivial r hr), ?_⟩
  rw [hbooks]
  exact (hs.calm h₁).books.reset hk fun q hq => ⟨fun _ _ => trivial, fun h => hex q hq h⟩

section Calls

variable {call : Call → Client → Except Fault (Int × Client)}

theorem switchBo_resident (hcall : Call.Steady call) {d : Option BoId} (hs : s.AllResident) :
    Ensures (switchBo call p d s) fun r => r.2.AllResident := by
  unfold switchBo
  split
  · exact .ok hs
  · refine (hcall _ _ hs).bind fun ⟨ret, s₁⟩ ⟨h₁, _⟩ => ?_
    dsimp only
    split
    · exact .pure h₁
    · refine (pushbufData_quiet).bind fun s₂ h₂ => (getPush_spec).bind fun push hp => .pure ?_
      refine h₁.calm (h₂.moves.trans ?_)
      exact Client.Quiet.moves ⟨books_setPush_self hp rfl, rfl, rfl⟩

theorem pushbufSpace_resident (hcall : Call.Steady call) {dwords relocs pushes : Word} (hs : s.AllResident) :
    Ensures (pushbufSpace call p dwords relocs pushes s) fun r => r.2.AllResident := by
  refine (nextBo_moves (a := .calm)).bind fun ⟨⟨ret, d⟩, s₁⟩ h₁ => ?_
  dsimp only
  split
  · exact .pure (hs.calm h₁)
  · refine (needsFlush_moves (a := .calm) fun _ _ => trivial).bind fun ⟨flushed, s₂⟩ h₂ => ?_
    refine (flushIf_moves (a := .calm) trivial).bind fun s₃ h₃ => ?_
    refine (switchBo_resident hcall (hs.calm ((h₁.trans h₂).trans h₃))).bind fun ⟨ret, s₄⟩ h₄ => ?_
    dsimp only
    split
    · exact .pure h₄
    · refine (krefOwn_moves (a := .calm) fun _ _ => trivial).bind fun s₅ h₅ => ?_
      split
      · exact (hcall _ _ (h₄.calm h₅)).mono fun _ h => h.1
      · exact .pure (h₄.calm h₅)

theorem kickUser_resident (hcall : Call.Steady call) (hs : s.AllResident) :
    Ensures (kickUser call b s) Client.AllResident := by
  unfold kickUser
  split
  · exact .ok hs
  · refine .bind_any fun push => ?_
    split
    · exact (hcall _ _ hs).bind fun _ h => .pure h.1
    · exact .pure hs

theorem boWait_resident (hcall : Call.Steady call) (hs : s.AllResident) :
    Ensures (boWait call b s) fun r => r.2.AllResident :=
  (kickUser_resident hcall hs).bind fun _ h => .pure (h.calm (ask_quiet).moves)

theorem boMap_resident (hcall : Call.Steady call) (hs : s.AllResident) :
    Ensures (boMap call b s) fun r => r.2.AllResident := by
  unfold boMap
  split
  · exact boWait_resident hcall hs
  · dsimp only
    split
    · exact .ok (hs.calm (ask_quiet).moves)
    · refine boWait_resident hcall (hs.calm (ask_quiet.trans ?_).moves)
      exact ⟨rfl, rfl, size_update rfl⟩

theorem kickChannel_resident (hcall : Call.Steady call) (hs : s.AllResident) :
    Ensures (kickChannel call p s) fun r => r.2.AllResident :=
  (pushbufFlush_moves (a := .calm) trivial).bind fun _ h₁ => (hcall _ _ (hs.calm h₁)).mono fun _ h₂ => h₂.1

/-- A validation that failed is tried again after a flush, or is given up. -/
theorem validateFail_resident (hcall : Call.Steady call) {retry : Bool} {sref srel : Nat}
    (hs : s.Resident (fun _ _ => True) fun q => q = p) :
    Ensures (validateFail call p retry sref srel s) fun r => r.2.AllResident ∧ (r.1 = 0 → r.2.books.Joined p) := by
  refine (pushbufRefnFail_resident hs (.inl rfl)).bind fun s₁ h₁ => ?_
  split
  · refine (pushbufFlush_resident h₁ fun _ hq => hq).bind fun r h₂ => ?_
    exact (hcall _ _ h₂).mono fun _ h₃ => ⟨h₃.1, h₃.2 p false rfl⟩
  · refine (getPush_spec).bind fun push hp => .pure ⟨⟨?_, ?_⟩, nofun⟩
    · have hsame : s₁.books.Same (s₁.setPush p { push with gaveUp := true }).books := by
        rw [books_setPush]
        exact ⟨slots_set_self (books_book hp) rfl rfl rfl, rfl, rfl⟩
      exact hsame.pointed h₁.pointed
    · show (Client.setPush p _ s₁).books.AllResident
      rw [books_setPush]
      exact h₁.books.giveUp (books_book hp)

theorem pushbufValidate_resident (htame : Call.Tame call) (hcall : Call.Steady call) {retry : Bool}
    (hs : s.AllResident) :
    Ensures (pushbufValidate call p retry s) fun r => r.2.AllResident ∧ (r.1 = 0 → r.2.books.Joined p) := by
  refine (getPush_spec).bind fun push hp => ?_
  have hspace : ∀ d r n, Ensures (call (.space p d r n) s) fun r => s.Moves .all r.2 ∧ r.2.AllResident :=
    fun d r n x hx => ⟨htame _ _ x hx, (hcall _ _ hs x hx).1⟩
  split
  · next hnone =>
    refine (hspace _ _ _).mono fun r ⟨hmoves, hr⟩ => ⟨hr, fun _ => fun {k c ctx} hk hc _ => ?_⟩
    obtain ⟨k', hk', hbufctx, -⟩ := hmoves.kept (books_book hp)
    cases hk.symm.trans hk'
    cases hc.symm.trans (hbufctx.trans hnone)
  · next c hc =>
    refine .bind_any fun ctx => .bind_any fun _ => (hspace _ _ _).bind fun ⟨ret, s₁⟩ ⟨hmoves, h₁⟩ => ?_
    dsimp only
    split
    · next hret => exact .pure ⟨h₁, fun hzero => absurd hzero hret⟩
    · refine .bind_any fun ⟨sref, srel⟩ => ?_
      obtain ⟨k, hk, hbufctx, -⟩ := hmoves.kept (books_book hp)
      refine (linkCtx_spec).bind fun s₂ ⟨ctx₁, hctx₁, hs₂⟩ => ?_
      -- the context is on the list now
      have hbooks₂ : s₂.books = s₁.books.setCtx c (ctx₁.linked p) := by
        rw [hs₂]
        rfl
      have h₂ : s₂.AllResident := by
        refine ⟨?_, ?_⟩
        · rw [hbooks₂]
          exact pointed_setCtx h₁.pointed
        · rw [hbooks₂]
          exact h₁.books.link hctx₁ (lt_of_book h₁.pointed hk)
      have hctx₂ : s₂.books.ctx c = some (ctx₁.linked p) := by
        rw [hbooks₂]
        exact Function.update_self ..
      refine (getCtx_spec).bind fun ctx₂ hctx₂' => ?_
      cases (hctx₂.symm.trans hctx₂')
      refine (validateLoop_covers h₂.pointed).bind fun ⟨fits, s₃⟩ ⟨hloop, hcov⟩ => ?_
      have h₃ : s₃.AllResident := hloop.resident id h₂
      have hctx₃ : s₃.books.ctx c = some (ctx₁.linked p) := hloop.spared.ctx hctx₂ rfl
      refine (joinPending_spec).bind fun s₄ ⟨ctx₄, hctx₄, hs₄⟩ => ?_
      cases hctx₃.symm.trans hctx₄
      have hjoined : ∀ ex : PushId → Prop, (ex p ∨ ∀ bref ∈ ctx₁.pending, s₃.books.Covered p bref) →
          s₄.Resident (fun _ _ => True) ex := by
        intro ex hpending
        have hbooks₄ : s₄.books = s₃.books.setCtx c
            { ctx₁.linked p with current := ctx₁.pending ++ ctx₁.current, pending := [] } := by
          rw [hs₄]
          rfl
        refine ⟨?_, ?_⟩
        · rw [hbooks₄]
          exact pointed_setCtx h₃.pointed
        · rw [hbooks₄]
          refine h₃.books.join hctx₃ rfl (fun _ => False.elim) (hpending.imp id fun hall k hk bref hbref => ?_)
          obtain ⟨k', i, e, hk', he, hcovers⟩ := hall bref hbref
          cases hk.symm.trans hk'
          exact ⟨i, e, trivial, he, hcovers⟩
      split
      · next hfits =>
        refine .pure ⟨hjoined _ (.inr (hcov hfits)), fun _ => fun {k' c' ctx'} hk' hc' hctx' => ?_⟩
        have hk₂ : s₂.books.book p = some k := by
          rw [hbooks₂]
          exact hk
        obtain ⟨k₃, hk₃, hbufctx₃, -⟩ := hloop.kept hk₂
        have hk₄ : s₄.books.book p = some k₃ := by
          rw [hs₄]
          exact hk₃
        cases hk'.symm.trans hk₄
        cases hc'.symm.trans (hbufctx₃.trans (hbufctx.trans hc))
        rw [hs₄] at hctx'
        cases hctx'.symm.trans (Function.update_self ..)
        exact ⟨rfl, rfl⟩
      · exact validateFail_resident hcall (hjoined _ (.inl rfl))

end Calls

theorem Call.run_steady (n : Nat) : Call.Steady (Call.run n) := by
  induction n with
  | zero =>
      intro x s _
      exact .error
  | succ n ih =>
      intro x s hs
      cases x with
      | space p dwords relocs pushes => exact (pushbufSpace_resident ih hs).mono fun _ h => ⟨h, nofun⟩
      | validate p retry =>
          refine (pushbufValidate_resident (Call.run_tame n) ih hs).mono fun _ h => ⟨h.1, ?_⟩
          rintro p' retry' ⟨⟩
          exact h.2
      | kick p => exact (kickChannel_resident ih hs).mono fun _ h => ⟨h, nofun⟩
      | map b => exact (boMap_resident ih hs).mono fun _ h => ⟨h, nofun⟩

/-- A call takes back only entries that it has made itself. -/
theorem refnTry_resident {refs : List (BoId × Word)} (hs : s.AllResident) :
    Ensures (refnTry p refs s) fun r => r.2.AllResident := by
  refine (getPush_spec).bind fun push hp => ?_
  have hlimit : s.Resident (fun q i => q = p → i < push.krec.buffer.length) fun _ => False :=
    ⟨hs.pointed, hs.books.limit (books_book hp)⟩
  have hmono : ∀ {s : Client}, s.Resident (fun q i => q = p → i < push.krec.buffer.length) (fun _ => False) →
      s.AllResident := fun h => ⟨h.pointed, h.books.mono (fun _ _ _ => trivial) fun _ => id⟩
  refine (refnLoop_moves (a := .calm) fun _ _ => trivial).bind fun ⟨fits, s₁⟩ h₁ => ?_
  have hs₁ := hlimit.calm h₁
  dsimp only
  split
  · exact .pure (hmono hs₁)
  · refine .bind_any fun push' => (pushbufRefnFail_resident hs₁ (.inr fun i hi => hi rfl)).bind fun s₂ h₂ => ?_
    exact .pure (hmono h₂)

theorem pushbufRefn_resident {n : Nat} {refs : List (BoId × Word)} (hs : s.AllResident) :
    Ensures (pushbufRefn n p refs s) fun r => r.2.AllResident := by
  refine (refnTry_resident hs).bind fun ⟨fits, s₁⟩ h₁ => ?_
  dsimp only
  split
  · exact .pure h₁
  · refine (pushbufFlush_moves (a := .calm) trivial).bind fun _ h₂ => ?_
    refine (Call.run_steady n _ _ (h₁.calm h₂)).bind fun _ h₃ => ?_
    exact (refnTry_resident h₃.1).bind fun _ h₄ => .pure h₄

end Validation

/-! ## Runs -/

section Runs

variable {s s' : Client} {op : Op} {n : Nat} {p : PushId} {push : Pushbuf} {c : CtxId} {ctx : Bufctx}

theorem books_book_some {k : Book} (hk : s.books.book p = some k) : ∃ push, s.push p = some push ∧ push.book = k :=
  Option.map_eq_some_iff.mp hk

theorem Client.Did.resident (h : s.Did op s') (hs : s.AllResident) : s'.AllResident := by
  refine ⟨h.asked.pointed hs.pointed, ?_⟩
  have hasked := h.asked
  generalize s'.books = t' at hasked
  cases hasked with
  | attach hk => exact hs.books.attach hk
  | newPush => exact hs.books.newPush
  | newCtx => exact hs.books.newCtx
  | ctx hctx hlist hstrayed hcurrent => exact hs.books.user hctx hlist hstrayed hcurrent

theorem Client.Does.resident (h : s.Does .calm op s') (hs : s.AllResident) :
    s'.AllResident := by
  rcases h with hmoves | hdid | ⟨p, push, -, hp, -, -, hbooks⟩
  · exact hs.calm hmoves
  · exact hdid.resident hs
  · refine ⟨?_, ?_⟩
    · rw [hbooks]
      exact hs.pointed.del fun k hk => current_mem_records hp hk
    · rw [hbooks]
      exact hs.books.del

theorem pushbufKick_resident {isFifo : Bool} (hs : s.AllResident) :
    Ensures (pushbufKick n p isFifo s) fun r => r.2.AllResident := by
  refine .bind_any fun push => ?_
  split
  · exact (Call.run_steady n _ _ hs).mono fun _ h => h.1
  · split
    · exact (pushbufSubmit_spec (a := .calm)).mono fun _ h => hs.calm h.1
    · exact .pure hs

/-- Every call keeps the contexts covered. -/
theorem Op.run_resident (hs : s.AllResident) :
    Ensures (op.run n s) fun r => r.2.AllResident := by
  cases op with
  | boMap b => exact (Call.run_steady n _ _ hs).mono fun _ h => h.1
  | space p dwords relocs pushes => exact (Call.run_steady n _ _ hs).mono fun _ h => h.1
  | refn p refs => exact pushbufRefn_resident hs
  | validate p => exact (Call.run_steady n _ _ hs).mono fun _ h => h.1
  | kick p isFifo => exact pushbufKick_resident hs
  | _ => exact (Op.run_plain rfl).mono fun _ h => h.resident hs

theorem Client.Init.resident (h : s.Init) : s.AllResident := by
  have hbook : ∀ {q k}, s.books.book q ≠ some k := by
    intro q k hq
    obtain ⟨push, hp, -⟩ := books_book_some hq
    cases (h.push q).symm.trans hp
  have hctx : ∀ {c ctx}, s.books.ctx c ≠ some ctx := by
    intro c ctx hc
    cases (h.ctx c).symm.trans hc
  exact ⟨h.agreed.toPointed, fun hc => absurd hc hctx, fun hc => absurd hc hctx, fun hq => absurd hq hbook⟩

/-- When a validation returns 0, every reference of the context that is attached has an entry in the current record,
    whose domains to write and to read include those it asks for, and which may be in some of the domains it asks for
    and in no others: unless, since the last flush of the push buffer, a validation of it was given up, or the context
    came to its list from that of another one. -/
theorem residency {s : Client} (h : Runs Client.Init (Client.StepIn fun _ _ => True) s)
    (hrun : (Op.validate p).run n s = .ok (0, s')) (hp : s'.push p = some push) (hc : push.bufctx = some c)
    (hctx : s'.ctx c = some ctx) (hgave : push.gaveUp = false) (hstay : ctx.strayed = false) :
    ∀ bref ∈ ctx.pending ++ ctx.current, ∃ e ∈ push.krec.buffer, e.Covers bref := by
  have hs : s.AllResident := by
    refine Runs.induct (I := Client.AllResident) (fun s hs => hs.resident) ?_ h
    rintro s₁ s₂ hs ⟨op, m, ret, -, hstep⟩
    exact Op.run_resident hs _ hstep
  obtain ⟨hs', hjoined⟩ := Call.run_steady n _ _ hs _ hrun
  have hk := books_book hp
  obtain ⟨hpending, hlist⟩ := hjoined p true rfl rfl hk hc hctx
  intro bref hbref
  rw [hpending, List.nil_append] at hbref
  obtain ⟨i, e, -, he, hcov⟩ := hs'.books.covered hk hctx hlist hstay hgave id bref hbref
  exact ⟨e, List.mem_of_getElem? he, hcov⟩

/-- A context with two references to one buffer is attached to two push buffers, and validated on one of them. -/
theorem residency_narrowed : ∃ s s' push ctx, Runs Client.Init (Client.StepIn fun _ _ => True) s ∧
    (Op.validate 0).run 8 s = .ok (0, s') ∧ s'.push 0 = some push ∧ s'.ctx 0 = some ctx ∧ ctx.current.length = 2 ∧
      ∀ bref ∈ ctx.pending ++ ctx.current, ∃ e ∈ push.krec.buffer, e.Covers bref := by
  have h := Client.runs_calls (P := fun _ _ => True) (fun _ _ => trivial)
    [.pushNew 1 4096 ⟨false, true⟩ true true, .pushNew 1 4096 ⟨false, true⟩ true true, .ctxNew, .bufctx 0 (some 0),
      .bufctx 1 (some 0), .ctxRefn 0 0 0 (NOUVEAU_BO_VRAM ||| NOUVEAU_BO_GART ||| NOUVEAU_BO_RD),
      .ctxRefn 0 0 0 (NOUVEAU_BO_VRAM ||| NOUVEAU_BO_WR)]
    (.init (Client.opened_init 4 4096 65536 65536 {})) rfl
  exact ⟨_, _, _, _, h, rfl, rfl, rfl, rfl, residency h (n := 8) (p := 0) (c := 0) rfl rfl rfl rfl rfl rfl⟩

/-- The two domains of the first reference to a buffer are narrowed to the one of the second. -/
theorem residency_valid : ∃ s s' push ctx bref, Runs Client.Init (Client.StepIn fun _ _ => True) s ∧
    (Op.validate 0).run 8 s = .ok (0, s') ∧ s'.push 0 = some push ∧ push.bufctx = some 0 ∧ s'.ctx 0 = some ctx ∧
      bref ∈ ctx.pending ++ ctx.current ∧
        ∀ e ∈ push.krec.buffer, e.bo = bref.bo → ¬ (Domains.ofFlags bref.flags).Sub e.valid := by
  have h := Client.runs_calls (P := fun _ _ => True) (fun _ _ => trivial)
    [.pushNew 1 4096 ⟨false, true⟩ true true, .ctxNew, .bufctx 0 (some 0),
      .ctxRefn 0 0 0 (NOUVEAU_BO_VRAM ||| NOUVEAU_BO_GART ||| NOUVEAU_BO_RD),
      .ctxRefn 0 0 0 (NOUVEAU_BO_VRAM ||| NOUVEAU_BO_WR)]
    (.init (Client.opened_init 4 4096 65536 65536 {})) rfl
  refine ⟨_, _, _, _, { bin := 0, bo := 0, flags := NOUVEAU_BO_VRAM ||| NOUVEAU_BO_GART ||| NOUVEAU_BO_RD }, h, rfl,
    rfl, rfl, rfl, .head _, ?_⟩
  rintro e (_ | ⟨_, _ | ⟨_, ⟨⟩⟩⟩) hb hsub
  · cases hb
  · cases hsub.2 rfl

end Runs

end LibDrm.Nouveau.Push
