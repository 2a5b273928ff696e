/-
# `LibDrm.Nouveau.Accounts` — how much memory a record takes

Two counters of a record go along with its entries:

    vram_used   the sizes of the entries that can only be in VRAM
    gart_used   the sizes of the others

Every path keeps them, but for one: a call that fails takes its entries back, and does not count
them back.  If a flush follows, that does not matter.  If none does, the counters are too high by
what was taken back (`lostVram`, `lostGart`), until the next flush.

An entry without any domain counts as one in GART.
-/
import LibDrm.Nouveau.Table
import Mathlib.Data.BitVec

namespace LibDrm.Nouveau.Push

open Client

/-! ## Sums over entries -/

section Totals

variable {size size' : BoId → Size} {x : Domains → Bool} {e : Kref} {l r : List Kref} {f : Kref → Kref}

theorem isVram_eq (d : Domains) : Krec.isVram d = (d.vram && !d.gart) := by
  obtain ⟨vram, gart⟩ := d
  cases vram <;> cases gart <;> rfl

/-- What an entry adds. -/
def Kref.share (size : BoId → Size) (x : Domains → Bool) (e : Kref) : Size := if x e.valid then size e.bo else 0

theorem total_nil : Krec.total size x [] = 0 := rfl

theorem total_cons : Krec.total size x (e :: l) = e.share size x + Krec.total size x l := by
  unfold Krec.total Kref.share
  cases hx : x e.valid with
  | false => simp [hx]
  | true => simp [hx]

theorem total_append : Krec.total size x (l ++ r) = Krec.total size x l + Krec.total size x r := by
  induction l with
  | nil => rw [List.nil_append, total_nil, zero_add]
  | cons e l ih => rw [List.cons_append, total_cons, total_cons, ih, add_assoc]

theorem total_split (n : Nat) : Krec.total size x l = Krec.total size x (l.take n) + Krec.total size x (l.drop n) := by
  rw [← total_append, List.take_append_drop]

/-- Entries that count the same have the same sum. -/
theorem total_map (hf : ∀ e ∈ l, (f e).share size' x = e.share size x) :
    Krec.total size' x (l.map f) = Krec.total size x l := by
  induction l with
  | nil => rfl
  | cons e l ih =>
      rw [List.map_cons, total_cons, total_cons, hf e List.mem_cons_self, ih fun e he => hf e (List.mem_cons_of_mem _ he)]

theorem total_congr (hsize : ∀ e ∈ l, size' e.bo = size e.bo) : Krec.total size' x l = Krec.total size x l := by
  have : Krec.total size' x (l.map id) = Krec.total size x l := total_map fun e he => by
    unfold Kref.share
    rw [id, hsize e he]
  rwa [List.map_id] at this

/-- One entry changes. -/
theorem total_modify (size : BoId → Size) (x : Domains → Bool) (f : Kref → Kref) {i : Nat} (he : l[i]? = some e) :
    Krec.total size x (l.modify i f) + e.share size x = Krec.total size x l + (f e).share size x := by
  induction l generalizing i with
  | nil => cases he
  | cons d l ih =>
      cases i with
      | zero =>
          cases he
          rw [List.modify_zero_cons, total_cons, total_cons]
          grind
      | succ i =>
          have := ih he
          rw [List.modify_succ_cons, total_cons, total_cons]
          grind

/-- What cannot only be in VRAM is in GART, or named no domain. -/
theorem total_not_vram : Krec.total size (fun d => !Krec.isVram d) l
    = Krec.total size Domains.gart l + Krec.total size (fun d => d = .empty) l := by
  induction l with
  | nil => rfl
  | cons e l ih =>
      have hshare : e.share size (fun d => !Krec.isVram d)
          = e.share size Domains.gart + e.share size (fun d => d = .empty) := by
        unfold Kref.share
        obtain ⟨b, ⟨vram, gart⟩, _, _, _, _⟩ := e
        cases vram <;> cases gart <;> simp [isVram_eq, Domains.empty]
      rw [total_cons, total_cons, total_cons, ih, hshare]
      grind

end Totals

/-! ## The counters -/

/-- The counters are what the entries take, and what was lost. -/
structure Krec.Accounted (size : BoId → Size) (krec : Krec) : Prop where
  vram : krec.vramUsed = Krec.total size Krec.isVram krec.buffer + krec.lostVram
  gart : krec.gartUsed = Krec.total size (fun d => !Krec.isVram d) krec.buffer + krec.lostGart

section Counters

variable {size : BoId → Size} {vramLimit gartLimit need vram gart : Size} {domains valid : Domains} {krec krec' : Krec}
  {b : BoId} {flags : Word} {e : Kref} {slot : Nat} {l : List Kref}

/-- What the last resort moves from one counter to the other is what changes its domain. -/
theorem scan_spec (size : BoId → Size) (vramLimit gartLimit need : Size) (l : List Kref) (vram gart : Size) :
    (Krec.scan size vramLimit gartLimit need l vram gart).2.2.1 + Krec.total size Krec.isVram l
        = vram + Krec.total size Krec.isVram (Krec.scan size vramLimit gartLimit need l vram gart).2.1 ∧
      (Krec.scan size vramLimit gartLimit need l vram gart).2.2.2 + Krec.total size (fun d => !Krec.isVram d) l
        = gart + Krec.total size (fun d => !Krec.isVram d) (Krec.scan size vramLimit gartLimit need l vram gart).2.1
          + if (Krec.scan size vramLimit gartLimit need l vram gart).1 then need else 0 := by
  induction l generalizing vram gart with
  | nil => simp [Krec.scan, total_nil]
  | cons k l ih =>
      simp only [Krec.scan]
      split
      · obtain ⟨hvram, hgart⟩ := ih vram gart
        simp only [total_cons]
        constructor <;> grind
      · next hboth =>
        simp only [not_or, not_not] at hboth
        -- the entry counted to GART, and counts to VRAM now
        have hold : k.share size Krec.isVram = 0 ∧ k.share size (fun d => !Krec.isVram d) = size k.bo := by
          simp [Kref.share, isVram_eq, hboth.1]
        have hnew : ({ k with valid := .vramOnly } : Kref).share size Krec.isVram = size k.bo ∧
            ({ k with valid := .vramOnly } : Kref).share size (fun d => !Krec.isVram d) = 0 := by
          simp [Kref.share, isVram_eq, Domains.vramOnly]
        split
        · simp only [total_cons, hold, hnew, if_true]
          constructor <;> grind
        · obtain ⟨hvram, hgart⟩ := ih (vram + size k.bo) (gart - size k.bo)
          simp only [total_cons, hold, hnew]
          constructor <;> grind

theorem Krec.Accounted.fits (h : krec.Accounted size)
    (hfits : krec.krefFits size vramLimit gartLimit need domains = (some valid, krec')) (hvalid : e.valid = valid)
    (hneed : size e.bo = need) : ({ krec' with buffer := krec'.buffer ++ [e] } : Krec).Accounted size := by
  have hshare : ∀ x : Domains → Bool, e.share size x = if x valid then need else 0 := by
    intro x
    rw [Kref.share, hvalid, hneed]
  obtain ⟨hvram, hgart⟩ := h
  unfold Krec.krefFits at hfits
  split_ifs at hfits with h₁ h₂ h₃ h₄
  · cases (Prod.mk.inj hfits).1
  · obtain ⟨hv, rfl⟩ := Prod.mk.inj hfits
    cases hv
    have : Krec.isVram domains = true := by rw [h₁]; rfl
    constructor <;> simp only [total_append, total_cons, total_nil, hshare, this] <;> grind
  · obtain ⟨hv, rfl⟩ := Prod.mk.inj hfits
    cases hv
    have : Krec.isVram domains = false := decide_eq_false h₁
    constructor <;> simp only [total_append, total_cons, total_nil, hshare, this] <;> grind
  · obtain ⟨hv, rfl⟩ := Prod.mk.inj hfits
    cases hv
    have : Krec.isVram .vramOnly = true := rfl
    constructor <;> simp only [total_append, total_cons, total_nil, hshare, this] <;> grind
  · obtain ⟨hv, rfl⟩ := Prod.mk.inj hfits
    split_ifs at hv with hfound
    cases hv
    have : Krec.isVram domains = false := decide_eq_false h₁
    obtain ⟨hscan, hscan'⟩ := scan_spec size vramLimit gartLimit need krec.buffer krec.vramUsed krec.gartUsed
    rw [if_pos hfound] at hscan'
    constructor <;> simp only [total_append, total_cons, total_nil, hshare, this] <;> grind

theorem Krec.Accounted.crowded (h : krec.Accounted size)
    (hfits : krec.krefFits size vramLimit gartLimit need domains = (none, krec')) : krec'.Accounted size := by
  unfold Krec.krefFits at hfits
  obtain ⟨hvram, hgart⟩ := h
  split_ifs at hfits with h₁ h₂ h₃ h₄
  · obtain ⟨-, rfl⟩ := Prod.mk.inj hfits
    exact ⟨hvram, hgart⟩
  · cases (Prod.mk.inj hfits).1
  · cases (Prod.mk.inj hfits).1
  · cases (Prod.mk.inj hfits).1
  · obtain ⟨hv, rfl⟩ := Prod.mk.inj hfits
    split_ifs at hv with hfound
    obtain ⟨hscan, hscan'⟩ := scan_spec size vramLimit gartLimit need krec.buffer krec.vramUsed krec.gartUsed
    rw [if_neg hfound] at hscan'
    constructor
    · show _ = Krec.total size Krec.isVram _ + _
      grind
    · show _ = Krec.total size _ _ + _
      grind

/-- How an entry counts before and after another reference to it. -/
theorem share_again (size : BoId → Size) (hvalid : e.valid.inter (.ofFlags flags) ≠ .empty) :
    (e.valid.gart ∧ Domains.ofFlags flags = .vramOnly ∧
      e.share size Krec.isVram = 0 ∧ e.share size (fun d => !Krec.isVram d) = size e.bo ∧
      (e.again flags).share size Krec.isVram = size e.bo ∧ (e.again flags).share size (fun d => !Krec.isVram d) = 0) ∨
    ¬ (e.valid.gart ∧ Domains.ofFlags flags = .vramOnly) ∧
      ∀ x ∈ [Krec.isVram, fun d => !Krec.isVram d], (e.again flags).share size x = e.share size x := by
  unfold Kref.share Kref.again
  generalize Domains.ofFlags flags = d at *
  obtain ⟨b, ⟨vram, gart⟩, _, _, _, _⟩ := e
  obtain ⟨dvram, dgart⟩ := d
  cases vram <;> cases gart <;> cases dvram <;> cases dgart <;>
    simp_all [Domains.inter, isVram_eq, Domains.vramOnly, Domains.empty]

theorem Krec.Accounted.again (h : krec.Accounted size) (he : krec.buffer[slot]? = some e) (hb : e.bo = b)
    (hvalid : e.valid.inter (.ofFlags flags) ≠ .empty) : (krec.again size b flags e slot).Accounted size := by
  obtain ⟨hvram, hgart⟩ := h
  have hmodify := fun x => total_modify size x (Kref.again flags) he
  have hv := hmodify Krec.isVram
  have hg := hmodify fun d => !Krec.isVram d
  rcases share_again size hvalid with ⟨hgart', hd, h₁, h₂, h₃, h₄⟩ | ⟨hno, hsame⟩
  · have hcharged : krec.charged size b flags e
        = { krec with vramUsed := krec.vramUsed + size b, gartUsed := krec.gartUsed - size b } := if_pos ⟨hgart', hd⟩
    unfold Krec.again
    rw [hcharged]
    constructor
    · show krec.vramUsed + size b = Krec.total size Krec.isVram _ + krec.lostVram
      rw [hb] at *
      grind
    · show krec.gartUsed - size b = Krec.total size _ _ + krec.lostGart
      rw [hb] at *
      grind
  · have hcharged : krec.charged size b flags e = krec := if_neg hno
    unfold Krec.again
    rw [hcharged]
    have h₁ := hsame _ (.head _)
    have h₂ := hsame _ (.tail _ (.head _))
    constructor
    · show krec.vramUsed = Krec.total size Krec.isVram _ + krec.lostVram
      grind
    · show krec.gartUsed = Krec.total size _ _ + krec.lostGart
      grind

theorem Krec.Accounted.drop {sref srel : Nat} (h : krec.Accounted size) :
    (krec.drop size sref srel).Accounted size := by
  obtain ⟨hvram, hgart⟩ := h
  constructor
  · show krec.vramUsed = Krec.total size Krec.isVram (krec.buffer.take sref) + (krec.lostVram + _)
    rw [hvram, total_split sref]
    grind
  · show krec.gartUsed = Krec.total size _ (krec.buffer.take sref) + (krec.lostGart + _)
    rw [hgart, total_split sref]
    grind

end Counters

/-! ## Runs -/

/-- The records are accounted, and what is in them is there. -/
structure Books.Accounted (size : BoId → Size) (known : BoId → Prop) (t : Books) : Prop where
  krec : ∀ {p k}, t.book p = some k → k.krec.Accounted size
  known : ∀ {p k}, t.book p = some k → ∀ e ∈ k.krec.buffer, known e.bo

section Runs

variable {size size' : BoId → Size} {known known' : BoId → Prop} {t t' : Books} {p q : PushId} {k : Book} {s s' : Client}
  {push : Pushbuf} {krec : Krec}

theorem Krec.Accounted.congr {krec' : Krec} (h : krec.Accounted size) (hvram : krec'.vramUsed = krec.vramUsed)
    (hgart : krec'.gartUsed = krec.gartUsed) (hlost : krec'.lostVram = krec.lostVram)
    (hlost' : krec'.lostGart = krec.lostGart)
    (htotal : ∀ x, Krec.total size' x krec'.buffer = Krec.total size x krec.buffer) : krec'.Accounted size' := by
  constructor
  · rw [hvram, hlost, htotal, h.vram]
  · rw [hgart, hlost', htotal, h.gart]

/-- More buffers are there, and the sizes of the old ones are the same. -/
theorem Books.Accounted.grow (h : t.Accounted size known) (hknown : ∀ b, known b → known' b ∧ size' b = size b) :
    t.Accounted size' known' := by
  refine ⟨fun {p k} hk => ?_, fun {p k} hk e he => (hknown _ (h.known hk e he)).1⟩
  exact (h.krec hk).congr rfl rfl rfl rfl fun x => total_congr fun e he => (hknown _ (h.known hk e he)).2

theorem Books.Accounted.set (h : t.Accounted size known) (hbook : t'.book = Function.update t.book p (some k))
    (hkrec : k.krec.Accounted size) (hknown : ∀ e ∈ k.krec.buffer, known e.bo) : t'.Accounted size known := by
  have hcases : ∀ {q r}, t'.book q = some r → r = k ∨ t.book q = some r := by
    intro q r hq
    rw [hbook] at hq
    by_cases hqp : q = p
    · subst hqp
      rw [Function.update_self] at hq
      exact .inl (Option.some.inj hq).symm
    · rw [Function.update_of_ne hqp] at hq
      exact .inr hq
  refine ⟨fun {q r} hq => ?_, fun {q r} hq => ?_⟩
  · rcases hcases hq with rfl | hold
    · exact hkrec
    · exact h.krec hold
  · rcases hcases hq with rfl | hold
    · exact hknown
    · exact h.known hold

theorem known_of_bos {l r : List Kref} (hbos : l.map Kref.bo = r.map Kref.bo) (hr : ∀ e ∈ r, known e.bo) :
    ∀ e ∈ l, known e.bo := by
  intro e he
  have hmem : e.bo ∈ r.map Kref.bo := hbos ▸ List.mem_map_of_mem he
  obtain ⟨d, hd, hde⟩ := List.mem_map.mp hmem
  exact hde ▸ hr d hd

theorem Move.accounted {a : Allowed} (h : Move a size known t t') (hpointed : t.Pointed) (ht : t.Accounted size known) :
    t'.Accounted size known := by
  cases h with
  | @moved p k f hk hf =>
      have hshare : ∀ (x : Domains → Bool) (e : Kref), (f e).share size x = e.share size x := by
        intro x e
        rw [Kref.share, (hf e).1, (hf e).2.1, Kref.share]
      refine ht.set rfl ((ht.krec hk).congr rfl rfl rfl rfl fun x => ?_) (known_of_bos ?_ (ht.known hk))
      · exact total_map fun e _ => hshare x e
      · rw [List.map_map]
        exact List.map_congr_left fun e _ => (hf e).1
  | enter hk _ hknown hfits =>
      refine ht.set rfl ((ht.krec hk).fits hfits rfl rfl) fun e he => ?_
      rcases List.mem_append.mp he with he | he
      · exact known_of_bos (krefFits_bos hfits) (ht.known hk) e he
      · cases List.mem_singleton.mp he
        exact hknown
  | crowd hk hfits =>
      exact ht.set rfl ((ht.krec hk).crowded hfits) (known_of_bos (krefFits_bos hfits) (ht.known hk))
  | @again p k b flags slot e hk hentry he hvalid =>
      have hb : e.bo = b := by
        obtain ⟨l, hl, hget⟩ := hpointed.points hentry
        obtain ⟨-, rfl⟩ := Prod.mk.inj (Option.some.inj ((slots_of_book hk).symm.trans hl))
        rw [List.getElem?_map, he] at hget
        exact Option.some.inj hget
      refine ht.set rfl ((ht.krec hk).again he hb hvalid) ?_
      exact known_of_bos (map_modify (f := Kref.again flags) (fun _ => rfl) _ slot) (ht.known hk)
  | drop _ hk _ => exact ht.set rfl (ht.krec hk).drop fun e he => ht.known hk e (List.mem_of_mem_take he)
  | giveUp _ hk =>
      have hkrec := ht.krec hk
      exact ht.set rfl hkrec fun e he => ht.known hk e he
  | reset _ hk => exact ht.set rfl ⟨rfl, rfl⟩ fun e he => absurd he List.not_mem_nil
  | link _ _ _ _ => exact ⟨ht.krec, ht.known⟩
  | join _ _ => exact ⟨ht.krec, ht.known⟩

theorem Asked.accounted {op : Op} (h : Asked t op t') (ht : t.Accounted size known) : t'.Accounted size known := by
  cases h with
  | attach hk =>
      have hkrec := ht.krec hk
      exact ht.set rfl hkrec fun e he => ht.known hk e he
  | newPush => exact ht.set rfl ⟨rfl, rfl⟩ fun e he => absurd he List.not_mem_nil
  | newCtx => exact ⟨ht.krec, ht.known⟩
  | ctx _ _ _ => exact ⟨ht.krec, ht.known⟩

/-- The counters of all records, for the buffers that there are. -/
structure Client.Accounted (s : Client) : Prop where
  pointed : s.books.Pointed
  books : s.books.Accounted s.size (· < s.freshBo)

theorem Client.Moves.accounted (h : s.Moves .all s') (hs : s.Accounted) : s'.Accounted := by
  induction h with
  | refl => exact hs
  | @tail s₁ s₂ _ h ih =>
      have hgrow : ∀ b, b < s₁.freshBo → b < s₂.freshBo ∧ s₂.size b = s₁.size b :=
        fun b hb => ⟨hb.trans_le h.fresh, h.size b hb⟩
      rcases h.move with hsame | hmove
      · exact ⟨hsame ▸ ih.pointed, hsame ▸ ih.books.grow hgrow⟩
      · exact ⟨hmove.pointed ih.pointed, (hmove.accounted ih.pointed ih.books).grow hgrow⟩

theorem Client.Does.accounted {op : Op} (h : s.Does .all op s') (hs : s.Accounted) : s'.Accounted := by
  refine ⟨h.pointed hs.pointed, ?_⟩
  rcases h with h | h | ⟨p, push, -, -, hfresh, hsize, hbooks⟩
  · exact (h.accounted hs).books
  · exact (h.asked.accounted hs.books).grow fun b hb => ⟨hb.trans_le h.fresh, h.size b hb⟩
  · rw [hbooks, hfresh, hsize]
    have hbook : ∀ {q k}, (s.books.del p ((push.old ++ [push.krec]).flatMap Krec.buffer)).book q = some k →
        s.books.book q = some k := by
      intro q k hq
      by_cases hqp : q = p
      · subst hqp
        cases (Function.update_self ..).symm.trans hq
      · exact (Function.update_of_ne hqp ..).symm.trans hq
    exact ⟨fun hq => hs.books.krec (hbook hq), fun hq => hs.books.known (hbook hq)⟩

theorem Client.Init.accounted (h : s.Init) : s.Accounted := by
  have hnone : ∀ {q k}, s.books.book q ≠ some k := by
    intro q k hq
    have hq' : (s.push q).map Pushbuf.book = some k := hq
    rw [h.push] at hq'
    cases hq'
  exact ⟨h.agreed.toPointed, fun hq => absurd hq hnone, fun hq => absurd hq hnone⟩

theorem accounted_of_runs (h : Runs Client.Init (Client.StepIn fun _ _ => True) s) : s.Accounted := by
  refine Runs.induct (I := Client.Accounted) (fun s hs => hs.accounted) ?_ h
  rintro s s' hs ⟨op, n, ret, -, hrun⟩
  exact (Op.run_does _ hrun).accounted hs

/-- The counters are what the entries take exactly when failed calls have taken back nothing since the last flush, and
    no entry is without a domain, as far as sizes go. -/
theorem memory_accounts (h : Runs Client.Init (Client.StepIn fun _ _ => True) s) (hp : s.push p = some push) :
    (push.krec.vramUsed = Krec.total s.size Krec.isVram push.krec.buffer ∧
      push.krec.gartUsed = Krec.total s.size Domains.gart push.krec.buffer) ↔
    push.krec.lostVram = 0 ∧
      push.krec.lostGart + Krec.total s.size (fun d => d = .empty) push.krec.buffer = 0 := by
  obtain ⟨hvram, hgart⟩ := (accounted_of_runs h).books.krec (books_book hp)
  have hvram' : push.krec.vramUsed = Krec.total s.size Krec.isVram push.krec.buffer + push.krec.lostVram := hvram
  have hgart' : push.krec.gartUsed
      = Krec.total s.size (fun d => !Krec.isVram d) push.krec.buffer + push.krec.lostGart := hgart
  rw [total_not_vram] at hgart'
  constructor
  · rintro ⟨h₁, h₂⟩
    constructor <;> grind
  · rintro ⟨h₁, h₂⟩
    constructor <;> grind

/-- A buffer in VRAM and the push buffer's own in GART. -/
theorem memory_accounts_refn : ∃ s push, Runs Client.Init (Client.StepIn fun _ _ => True) s ∧ s.push 0 = some push ∧
    (push.krec.vramUsed = Krec.total s.size Krec.isVram push.krec.buffer ∧
      push.krec.gartUsed = Krec.total s.size Domains.gart push.krec.buffer) ∧
    push.krec.vramUsed = 4096 ∧ push.krec.gartUsed = 8192 := by
  have h := Client.runs_calls (P := fun _ _ => True) (fun _ _ => trivial)
    [.pushNew 1 8192 ⟨false, true⟩ true true, .space 0 16 0 0,
      .refn 0 [(0, NOUVEAU_BO_VRAM ||| NOUVEAU_BO_GART ||| NOUVEAU_BO_RD), (0, NOUVEAU_BO_VRAM ||| NOUVEAU_BO_WR)]]
    (.init (Client.opened_init 4 4096 65536 65536 {})) rfl
  exact ⟨_, _, h, rfl, (memory_accounts (p := 0) h rfl).mpr ⟨rfl, rfl⟩, rfl, rfl⟩

/-- Two buffers that do not fit into VRAM together: the call fails twice, and the first of them stays counted. -/
theorem memory_accounts_fails : ∃ s push, Runs Client.Init (Client.StepIn fun _ _ => True) s ∧ s.push 0 = some push ∧
    push.krec.vramUsed = 4096 ∧ Krec.total s.size Krec.isVram push.krec.buffer = 0 := by
  have h := Client.runs_calls (P := fun _ _ => True) (fun _ _ => trivial)
    [.pushNew 1 8192 ⟨false, true⟩ true true,
      .refn 0 [(0, NOUVEAU_BO_VRAM ||| NOUVEAU_BO_RD), (1, NOUVEAU_BO_VRAM ||| NOUVEAU_BO_RD)]]
    (.init (Client.opened_init 4 4096 4096 65536 {})) rfl
  exact ⟨_, _, h, rfl, rfl, rfl⟩

end Runs

end LibDrm.Nouveau.Push
