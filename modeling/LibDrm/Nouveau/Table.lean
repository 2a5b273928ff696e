/-
# `LibDrm.Nouveau.Table` — the table of a client and the records of its push buffers

An entry of the table is a push buffer, one of its records and a place in that.  `Holds b e` says
that the place `e` is in the current record of a push buffer that is there, and that `b` is what
it has in that place.

    Pointed    what has an entry is in its place
    Agreed     and what is in a place has that entry

A deferred push buffer keeps its old records.  When it is deleted, the entries of what they have
are cleared, even if another push buffer has made them in the meantime: the entries are lost then,
but those that are left are right.
-/
import LibDrm.Nouveau.Books

namespace LibDrm.Nouveau.Push

open Client

/-! ## Places -/

/-- For every push buffer how many records it had before, and the buffers of the current one. -/
def Books.slots (t : Books) (p : PushId) : Option (Nat × List BoId) :=
  (t.book p).map fun k => (k.records, k.krec.buffer.map Kref.bo)

/-- The entry is a place of a current record, and the buffer is there. -/
def Client.Holds (s : Client) (b : BoId) (e : KrefAt) : Prop :=
  ∃ push, s.push e.push = some push ∧ e.krec = push.old.length ∧
    ∃ k, push.krec.buffer[e.slot]? = some k ∧ k.bo = b

def Books.Holds (t : Books) (b : BoId) (e : KrefAt) : Prop :=
  ∃ l, t.slots e.push = some (e.krec, l) ∧ l[e.slot]? = some b

/-- What has an entry is in its place. -/
structure Books.Pointed (t : Books) : Prop where
  points : ∀ {b e}, t.kref b = some e → t.Holds b e
  fresh : ∀ {p}, t.freshPush ≤ p → t.book p = none

/-- And what is in a place has that entry. -/
structure Books.Agreed (t : Books) : Prop extends t.Pointed where
  entered : ∀ {b e}, t.Holds b e → t.kref b = some e

section Places

variable {s s' : Client} {t t' : Books} {p q : PushId} {k : Book} {b d : BoId} {e : KrefAt} {n m j : Nat}
  {l l' : List BoId} {push : Pushbuf}

theorem holds_books : s.books.Holds b e ↔ s.Holds b e := by
  unfold Books.Holds Client.Holds Books.slots
  simp only [Client.books]
  constructor
  · rintro ⟨l, hl, hb⟩
    cases hp : s.push e.push with
    | none =>
        rw [hp] at hl
        cases hl
    | some push =>
        rw [hp] at hl
        obtain ⟨hkrec, rfl⟩ := Prod.mk.inj (Option.some.inj hl)
        rw [List.getElem?_map] at hb
        obtain ⟨k, hk, hkb⟩ := Option.map_eq_some_iff.mp hb
        exact ⟨push, rfl, hkrec.symm, k, hk, hkb⟩
  · rintro ⟨push, hp, hkrec, k, hk, rfl⟩
    refine ⟨push.krec.buffer.map Kref.bo, ?_, ?_⟩
    · rw [hp, hkrec]
      rfl
    · rw [List.getElem?_map, hk]
      rfl

theorem slots_set : (t.set p k).slots = Function.update t.slots p (some (k.records, k.krec.buffer.map Kref.bo)) := by
  funext q
  by_cases hq : q = p
  · subst hq
    simp only [Books.slots, Books.set, Function.update_self, Option.map_some]
  · simp only [Books.slots, Books.set, Function.update_of_ne hq]

theorem slots_of_book (hk : t.book p = some k) : t.slots p = some (k.records, k.krec.buffer.map Kref.bo) := by
  rw [Books.slots, hk, Option.map_some]

theorem book_none_of_slots (h : t'.slots = t.slots) : t'.book p = none ↔ t.book p = none := by
  rw [← Option.map_eq_none_iff (f := fun k => (k.records, k.krec.buffer.map Kref.bo)), ← Books.slots, h, Books.slots,
    Option.map_eq_none_iff]

theorem book_ne_none_of_slots (h : t.slots p = some (n, l)) : t.book p ≠ none := by
  intro hnone
  rw [Books.slots, hnone] at h
  cases h

/-! ## What a move does to the places -/

/-- The places and the table before and after, and the push buffers that there are. -/
structure Books.Same (t t' : Books) : Prop where
  slots : t'.slots = t.slots
  kref : t'.kref = t.kref
  fresh : t'.freshPush = t.freshPush

/-- A buffer gets the place behind the last one. -/
structure Books.Added (p : PushId) (b : BoId) (t t' : Books) : Prop where
  place : ∃ n l, t.slots p = some (n, l) ∧ t'.slots = Function.update t.slots p (some (n, l ++ [b])) ∧
    t'.kref = Function.update t.kref b (some ⟨p, n, l.length⟩)
  none : t.kref b = none
  fresh : t'.freshPush = t.freshPush

/-- The places from `j` on go away, with their entries; the record is another one only if none is left. -/
structure Books.Cut (p : PushId) (j : Nat) (t t' : Books) : Prop where
  place : ∃ n m l, t.slots p = some (n, l) ∧ t'.slots = Function.update t.slots p (some (m, l.take j)) ∧
    (m = n ∨ j = 0) ∧ ∀ d, t'.kref d = if d ∈ l.drop j then none else t.kref d
  fresh : t'.freshPush = t.freshPush

theorem Books.Same.pointed (h : t.Same t') (ht : t.Pointed) : t'.Pointed := by
  constructor
  · intro b e hb
    rw [h.kref] at hb
    unfold Books.Holds
    rw [h.slots]
    exact ht.points hb
  · intro p hp
    rw [h.fresh] at hp
    exact (book_none_of_slots h.slots).mpr (ht.fresh hp)

theorem Books.Same.agreed (h : t.Same t') (ht : t.Agreed) : t'.Agreed := by
  refine ⟨h.pointed ht.toPointed, fun {b e} hb => ?_⟩
  unfold Books.Holds at hb
  rw [h.slots] at hb
  rw [h.kref]
  exact ht.entered hb

/-- A push buffer that is there stays the only one to change. -/
theorem fresh_of_update {x : Option (Nat × List BoId)} (ht : t.Pointed) (hp : t.slots p = some (n, l))
    (hslots : t'.slots = Function.update t.slots p x) (hfresh : t'.freshPush = t.freshPush) (hq : t'.freshPush ≤ q) :
    t'.book q = none := by
  rw [hfresh] at hq
  have hnone := ht.fresh hq
  have hqp : q ≠ p := by
    rintro rfl
    exact book_ne_none_of_slots hp hnone
  have : t'.slots q = none := by
    rw [hslots, Function.update_of_ne hqp, Books.slots, hnone, Option.map_none]
  exact Option.map_eq_none_iff.mp this

/-- Where a place is afterwards. -/
theorem holds_update (hslots : t'.slots = Function.update t.slots p (some (m, l'))) :
    t'.Holds b e ↔ if e.push = p then e.krec = m ∧ l'[e.slot]? = some b else t.Holds b e := by
  unfold Books.Holds
  by_cases hq : e.push = p
  · rw [if_pos hq, hslots, hq, Function.update_self]
    constructor
    · rintro ⟨r, hr, hb⟩
      obtain ⟨hm, rfl⟩ := Prod.mk.inj (Option.some.inj hr)
      exact ⟨hm.symm, hb⟩
    · rintro ⟨hm, hb⟩
      exact ⟨l', by rw [hm], hb⟩
  · rw [if_neg hq, hslots, Function.update_of_ne hq]

theorem holds_of_slots (hp : t.slots p = some (n, l)) (he : e.push = p) :
    t.Holds b e ↔ e.krec = n ∧ l[e.slot]? = some b := by
  have hself : t.slots = Function.update t.slots p (some (n, l)) := by rw [← hp, Function.update_eq_self]
  have := holds_update (b := b) (e := e) hself
  rwa [if_pos he] at this

theorem Books.Added.pointed (h : t.Added p b t') (ht : t.Pointed) : t'.Pointed := by
  obtain ⟨n, l, hp, hslots, hkref⟩ := h.place
  refine ⟨fun {d e} hd => ?_, fun {q} hq => fresh_of_update ht hp hslots h.fresh hq⟩
  rw [holds_update hslots]
  rw [hkref] at hd
  by_cases hdb : d = b
  · subst hdb
    rw [Function.update_self] at hd
    cases hd
    rw [if_pos rfl]
    exact ⟨rfl, List.getElem?_concat_length ..⟩
  · rw [Function.update_of_ne hdb] at hd
    have hold := ht.points hd
    split
    · next he =>
      obtain ⟨hn, hl⟩ := (holds_of_slots hp he).mp hold
      refine ⟨hn, ?_⟩
      rw [List.getElem?_append_left (List.getElem?_eq_some_iff.mp hl).1]
      exact hl
    · exact hold

theorem Books.Added.agreed (h : t.Added p b t') (ht : t.Agreed) : t'.Agreed := by
  refine ⟨h.pointed ht.toPointed, fun {d e} hd => ?_⟩
  obtain ⟨n, l, hp, hslots, hkref⟩ := h.place
  -- the buffer had no place before
  have hold : t.Holds d e → t'.kref d = some e := by
    intro hold
    have hdb : d ≠ b := by
      rintro rfl
      have := h.none.symm.trans (ht.entered hold)
      cases this
    rw [hkref, Function.update_of_ne hdb]
    exact ht.entered hold
  rw [holds_update hslots] at hd
  by_cases he : e.push = p
  · rw [if_pos he] at hd
    obtain ⟨hn, hl⟩ := hd
    rcases Nat.lt_or_ge e.slot l.length with hlt | hge
    · rw [List.getElem?_append_left hlt] at hl
      exact hold ((holds_of_slots hp he).mpr ⟨hn, hl⟩)
    · have hslot : e.slot = l.length := by
        have := (List.getElem?_eq_some_iff.mp hl).1
        rw [List.length_append] at this
        exact Nat.le_antisymm (Nat.le_of_lt_succ this) hge
      rw [hslot, List.getElem?_concat_length] at hl
      cases hl
      rw [hkref, Function.update_self, ← he, ← hn, ← hslot]
  · rw [if_neg he] at hd
    exact hold hd

theorem Books.Cut.pointed (h : t.Cut p j t') (ht : t.Pointed) : t'.Pointed := by
  obtain ⟨n, m, l, hp, hslots, hm, hkref⟩ := h.place
  refine ⟨fun {d e} hd => ?_, fun {q} hq => fresh_of_update ht hp hslots h.fresh hq⟩
  rw [holds_update hslots]
  rw [hkref] at hd
  by_cases hdrop : d ∈ l.drop j
  · rw [if_pos hdrop] at hd
    cases hd
  · rw [if_neg hdrop] at hd
    have hold := ht.points hd
    split
    · next he =>
      obtain ⟨hn, hl⟩ := (holds_of_slots hp he).mp hold
      have hlt : e.slot < j := by
        refine Nat.lt_of_not_le fun hge => hdrop ?_
        refine List.mem_of_getElem? (i := e.slot - j) ?_
        rw [List.getElem?_drop, Nat.add_sub_cancel' hge]
        exact hl
      refine ⟨?_, by rw [List.getElem?_take_of_lt hlt]; exact hl⟩
      rcases hm with rfl | rfl
      · exact hn
      · exact absurd hlt (Nat.not_lt_zero _)
    · exact hold

theorem Books.Cut.agreed (h : t.Cut p j t') (ht : t.Agreed) : t'.Agreed := by
  refine ⟨h.pointed ht.toPointed, fun {d e} hd => ?_⟩
  obtain ⟨n, m, l, hp, hslots, hm, hkref⟩ := h.place
  -- a buffer that goes away has its entry behind the cut
  have hdropped : d ∈ l.drop j → ∃ i, t.kref d = some ⟨p, n, j + i⟩ := by
    intro hmem
    obtain ⟨i, hi⟩ := List.mem_iff_getElem?.mp hmem
    rw [List.getElem?_drop] at hi
    exact ⟨i, ht.entered ((holds_of_slots hp rfl).mpr ⟨rfl, hi⟩)⟩
  rw [holds_update hslots] at hd
  rw [hkref]
  by_cases he : e.push = p
  · rw [if_pos he] at hd
    obtain ⟨hn, hl⟩ := hd
    have hlt : e.slot < j := (List.getElem?_eq_some_iff.mp hl).1.trans_le (List.length_take_le ..)
    rw [List.getElem?_take_of_lt hlt] at hl
    have hentered := ht.entered ((holds_of_slots hp he).mpr ⟨?_, hl⟩)
    · rw [if_neg, hentered]
      intro hmem
      obtain ⟨i, hi⟩ := hdropped hmem
      cases hentered.symm.trans hi
      exact absurd hlt (Nat.not_lt.mpr (Nat.le_add_right ..))
    · rcases hm with rfl | rfl
      · exact hn
      · exact absurd hlt (Nat.not_lt_zero _)
  · rw [if_neg he] at hd
    have hentered := ht.entered hd
    rw [if_neg, hentered]
    intro hmem
    obtain ⟨i, hi⟩ := hdropped hmem
    cases hentered.symm.trans hi
    exact he rfl

theorem scan_bos {size : BoId → Size} {vramLimit gartLimit need vram gart : Size} {l : List Kref} :
    (Krec.scan size vramLimit gartLimit need l vram gart).2.1.map Kref.bo = l.map Kref.bo := by
  induction l generalizing vram gart with
  | nil => rfl
  | cons k l ih =>
      simp only [Krec.scan]
      split
      · simp only [List.map_cons, ih]
      · split
        · rfl
        · simp only [List.map_cons, ih]

theorem krefFits_bos {size : BoId → Size} {vramLimit gartLimit need : Size} {domains : Domains} {krec krec' : Krec}
    {valid : Option Domains} (h : krec.krefFits size vramLimit gartLimit need domains = (valid, krec')) :
    krec'.buffer.map Kref.bo = krec.buffer.map Kref.bo := by
  have : krec' = (krec.krefFits size vramLimit gartLimit need domains).2 := (congrArg Prod.snd h).symm
  rw [this]
  unfold Krec.krefFits
  split_ifs
  · rfl
  · rfl
  · rfl
  · rfl
  · exact scan_bos

theorem slots_set_self {krec : Krec} (hk : t.book p = some k) (hbos : krec.buffer.map Kref.bo = k.krec.buffer.map Kref.bo)
    {r : Book} (hrecords : r.records = k.records) (hkrec : r.krec = krec) : (t.set p r).slots = t.slots := by
  rw [slots_set, hrecords, hkrec, hbos, ← slots_of_book hk, Function.update_eq_self]

theorem map_modify {f : Kref → Kref} (hf : ∀ k : Kref, (f k).bo = k.bo) (r : List Kref) (i : Nat) :
    (r.modify i f).map Kref.bo = r.map Kref.bo := by
  refine List.ext_getElem? fun j => ?_
  rw [List.getElem?_map, List.getElem?_map, List.getElem?_modify]
  show Option.map Kref.bo (Option.map _ r[j]?) = _
  rw [Option.map_map]
  refine congrArg (fun g => Option.map g r[j]?) (funext fun k => ?_)
  simp only [Function.comp]
  split
  · exact hf k
  · rfl

/-- A move changes no places, adds one, or cuts a record. -/
theorem Move.places {a : Allowed} {size : BoId → Size} {known : BoId → Prop} (h : Move a size known t t') :
    t.Same t' ∨ (∃ p b, t.Added p b t') ∨ ∃ p j, t.Cut p j t' := by
  cases h with
  | moved hk hf =>
      refine .inl ⟨slots_set_self hk ?_ rfl rfl, rfl, rfl⟩
      rw [List.map_map]
      exact List.map_congr_left fun e _ => (hf e).1
  | @enter p k b flags _ _ krec valid domain offset hk hnone _ hfits =>
      refine .inr (.inl ⟨p, b, ⟨_, _, slots_of_book hk, ?_, ?_⟩, hnone, rfl⟩)
      · show (t.set p _).slots = _
        rw [slots_set, List.map_append, krefFits_bos hfits]
        rfl
      · rw [← krefFits_bos hfits, List.length_map]
        rfl
  | crowd hk hfits => exact .inl ⟨slots_set_self hk (krefFits_bos hfits) rfl rfl, rfl, rfl⟩
  | @again p k b flags slot e hk _ _ _ =>
      exact .inl ⟨slots_set_self hk (map_modify (f := Kref.again flags) (fun _ => rfl) _ slot) rfl rfl, rfl, rfl⟩
  | @drop p k sref _ _ hk _ =>
      refine .inr (.inr ⟨p, sref, ⟨_, _, _, slots_of_book hk, ?_, .inl rfl, fun d => ?_⟩, rfl⟩)
      · show (t.set p _).slots = _
        rw [slots_set, List.map_take.symm]
        rfl
      · rw [← List.map_drop]
        rfl
  | giveUp _ hk => exact .inl ⟨slots_set_self hk rfl rfl rfl, rfl, rfl⟩
  | @reset p k _ hk =>
      refine .inr (.inr ⟨p, 0, ⟨_, k.reset.records, _, slots_of_book hk, ?_, .inr rfl, fun d => rfl⟩, rfl⟩)
      show (t.set p _).slots = _
      rw [slots_set]
      rfl
  | link _ _ _ _ => exact .inl ⟨rfl, rfl, rfl⟩
  | join _ _ => exact .inl ⟨rfl, rfl, rfl⟩

theorem Move.pointed {a : Allowed} {size : BoId → Size} {known : BoId → Prop} (h : Move a size known t t') (ht : t.Pointed) :
    t'.Pointed := by
  rcases h.places with h | ⟨p, b, h⟩ | ⟨p, j, h⟩
  · exact h.pointed ht
  · exact h.pointed ht
  · exact h.pointed ht

theorem Move.agreed {a : Allowed} {size : BoId → Size} {known : BoId → Prop} (h : Move a size known t t') (ht : t.Agreed) :
    t'.Agreed := by
  rcases h.places with h | ⟨p, b, h⟩ | ⟨p, j, h⟩
  · exact h.agreed ht
  · exact h.agreed ht
  · exact h.agreed ht

theorem Client.Moves.keep {a : Allowed} {I : Books → Prop}
    (hI : ∀ {size : BoId → Size} {known : BoId → Prop} {t t'}, Move a size known t t' → I t → I t')
    (h : s.Moves a s') (hs : I s.books) : I s'.books := by
  induction h with
  | refl => exact hs
  | tail _ h ih =>
      rcases h.move with hsame | hmove
      · rw [hsame]
        exact ih
      · exact hI hmove ih

/-! ## The user's part -/

/-- A push buffer that was not there has no places. -/
theorem slots_fresh (ht : t.Pointed) : t.slots t.freshPush = none := by
  rw [Books.slots, ht.fresh le_rfl, Option.map_none]

theorem holds_new {channel : Bool} (ht : t.Pointed) :
    ({ t.set t.freshPush { channel := channel } with freshPush := t.freshPush + 1 } : Books).Holds b e ↔ t.Holds b e := by
  refine (holds_update (slots_set (t := t))).trans ?_
  split
  · next he =>
    constructor
    · rintro ⟨-, hb⟩
      cases hb
    · rintro ⟨l, hl, -⟩
      rw [he, slots_fresh ht] at hl
      cases hl
  · exact Iff.rfl

theorem Asked.places {op : Op} (h : Asked t op t') : t.Same t' ∨
    ∃ channel, t' = { t.set t.freshPush { channel := channel } with freshPush := t.freshPush + 1 } := by
  cases h with
  | attach hk =>
      refine .inl ⟨?_, rfl, rfl⟩
      exact slots_set_self hk rfl rfl rfl
  | newPush => exact .inr ⟨_, rfl⟩
  | newCtx => exact .inl ⟨rfl, rfl, rfl⟩
  | ctx _ _ _ => exact .inl ⟨rfl, rfl, rfl⟩

theorem Asked.pointed {op : Op} (h : Asked t op t') (ht : t.Pointed) : t'.Pointed := by
  rcases h.places with h | ⟨channel, rfl⟩
  · exact h.pointed ht
  · refine ⟨fun {b e} hb => (holds_new ht).mpr (ht.points hb), fun {p} hp => ?_⟩
    have hlt : t.freshPush < p := hp
    exact (Function.update_of_ne (Nat.ne_of_gt hlt) ..).trans (ht.fresh hlt.le)

theorem Asked.agreed {op : Op} (h : Asked t op t') (ht : t.Agreed) : t'.Agreed := by
  rcases h.places with hsame | ⟨channel, rfl⟩
  · exact hsame.agreed ht
  · exact ⟨h.pointed ht.toPointed, fun {b e} hb => ht.entered ((holds_new ht.toPointed).mp hb)⟩

/-- The places of the push buffer that is deleted are gone. -/
theorem holds_del {r : List Kref} : (t.del p r).Holds b e ↔ e.push ≠ p ∧ t.Holds b e := by
  unfold Books.Holds Books.slots
  by_cases he : e.push = p
  · constructor
    · rintro ⟨l, hl, -⟩
      rw [he] at hl
      simp only [Books.del, Function.update_self] at hl
      cases hl
    · exact fun h => absurd he h.1
  · have hbook : (t.del p r).book e.push = t.book e.push := Function.update_of_ne he ..
    rw [hbook]
    exact ⟨fun h => ⟨he, h⟩, fun h => h.2⟩

/-- All that the record of the push buffer has is cleared. -/
theorem Books.Pointed.del {r : List Kref} (ht : t.Pointed)
    (hcurrent : ∀ k, t.book p = some k → ∀ e ∈ k.krec.buffer, e ∈ r) : (t.del p r).Pointed := by
  refine ⟨fun {b e} hb => ?_, fun {q} hq => ?_⟩
  · have hb' : (if b ∈ r.map Kref.bo then none else t.kref b) = some e := hb
    by_cases hmem : b ∈ r.map Kref.bo
    · rw [if_pos hmem] at hb'
      cases hb'
    · rw [if_neg hmem] at hb'
      have hold := ht.points hb'
      refine (holds_del).mpr ⟨fun he => hmem ?_, hold⟩
      obtain ⟨l, hl, hget⟩ := hold
      obtain ⟨k, hk, hkl⟩ := Option.map_eq_some_iff.mp hl
      obtain ⟨-, rfl⟩ := Prod.mk.inj hkl
      obtain ⟨x, hx, hxb⟩ := List.mem_map.mp (List.mem_of_getElem? hget)
      rw [he] at hk
      exact hxb ▸ List.mem_map_of_mem (hcurrent k hk x hx)
  · by_cases hqp : q = p
    · exact hqp ▸ Function.update_self ..
    · exact (Function.update_of_ne hqp ..).trans (ht.fresh hq)

theorem Books.Agreed.del {r : List Kref} (ht : t.Agreed)
    (hcurrent : ∀ k, t.book p = some k → ∀ e ∈ k.krec.buffer, e ∈ r)
    (hown : ∀ x ∈ r, ∀ e, t.kref x.bo = some e → e.push = p) : (t.del p r).Agreed := by
  refine ⟨ht.toPointed.del hcurrent, fun {b e} hb => ?_⟩
  obtain ⟨hne, hold⟩ := (holds_del).mp hb
  have hentered := ht.entered hold
  show (if b ∈ r.map Kref.bo then none else t.kref b) = some e
  rw [if_neg, hentered]
  intro hmem
  obtain ⟨x, hx, rfl⟩ := List.mem_map.mp hmem
  exact hne (hown x hx e hentered)

end Places

/-! ## Runs -/

/-- No buffer of an old record has an entry of another push buffer when a push buffer is deleted. -/
def Op.Keeps : Op → Client → Prop
  | .pushDel p, s => ∀ push, s.push p = some push → ∀ krec ∈ push.old, ∀ k ∈ krec.buffer,
      ∀ e, s.kref k.bo = some e → e.push = p
  | _, _ => True

section Runs

variable {s s' : Client} {b : BoId} {e : KrefAt}

theorem Client.Init.agreed (h : s.Init) : s.books.Agreed := by
  refine ⟨⟨fun {b e} hb => ?_, fun {p} _ => ?_⟩, fun {b e} hb => ?_⟩
  · cases (h.kref b).symm.trans hb
  · show (s.push p).map Pushbuf.book = none
    rw [h.push, Option.map_none]
  · obtain ⟨push, hp, -⟩ := (holds_books).mp hb
    cases (h.push _).symm.trans hp

theorem current_mem_records {push : Pushbuf} {p : PushId} (hp : s.push p = some push) {k : Book}
    (hk : s.books.book p = some k) : ∀ e ∈ k.krec.buffer, e ∈ (push.old ++ [push.krec]).flatMap Krec.buffer := by
  intro e he
  cases (books_book hp).symm.trans hk
  exact List.mem_flatMap.mpr ⟨push.krec, List.mem_append_right _ List.mem_cons_self, he⟩

/-- What has an entry is in its place, whatever is called. -/
theorem Client.Does.pointed {op : Op} (h : s.Does .all op s') (hs : s.books.Pointed) : s'.books.Pointed := by
  rcases h with h | h | ⟨p, push, -, hp, -, -, hbooks⟩
  · exact h.keep (fun hmove ht => hmove.pointed ht) hs
  · exact h.asked.pointed hs
  · rw [hbooks]
    exact hs.del fun k hk => current_mem_records hp hk

theorem Client.Does.agreed {op : Op} (h : s.Does .all op s') (hkeeps : op.Keeps s) (hs : s.books.Agreed) :
    s'.books.Agreed := by
  rcases h with h | h | ⟨p, push, rfl, hp, -, -, hbooks⟩
  · exact h.keep (fun hmove ht => hmove.agreed ht) hs
  · exact h.asked.agreed hs
  · rw [hbooks]
    refine hs.del (fun k hk => current_mem_records hp hk) fun x hx e he => ?_
    obtain ⟨krec, hkrec, hx⟩ := List.mem_flatMap.mp hx
    rcases List.mem_append.mp hkrec with hold | hcurrent
    · exact hkeeps push hp krec hold x hx e he
    · -- what is in the current record has an entry of this push buffer
      cases List.mem_singleton.mp hcurrent
      obtain ⟨i, hi⟩ := List.mem_iff_getElem?.mp hx
      have hplace : s.Holds x.bo ⟨p, push.old.length, i⟩ := ⟨push, hp, rfl, x, hi, rfl⟩
      cases (hs.entered (holds_books.mpr hplace)).symm.trans he
      rfl

/-- A buffer has an entry exactly when it is in a current record, and then the entry is its place: as long as no push
    buffer is deleted whose old records have what another one refers to now. -/
theorem kref_table (h : Runs Client.Init (Client.StepIn Op.Keeps) s) (b : BoId) (e : KrefAt) :
    s.kref b = some e ↔ s.Holds b e := by
  have hagreed : s.books.Agreed := by
    refine Runs.induct (I := fun s => s.books.Agreed) (fun s hs => hs.agreed) ?_ h
    rintro s s' hs ⟨op, n, ret, hkeeps, hrun⟩
    exact (Op.run_does _ hrun).agreed hkeeps hs
  exact ⟨fun hb => (holds_books).mp (hagreed.points hb), fun hb => hagreed.entered (holds_books.mpr hb)⟩

/-- A buffer is in the old and the current record of a push buffer that is deleted, and another one in the record of a
    second push buffer. -/
theorem kref_table_deleted : ∃ s s', Runs Client.Init (Client.StepIn Op.Keeps) s ∧
    Runs Client.Init (Client.StepIn Op.Keeps) s' ∧ (Op.pushDel 1).run 1 s = .ok (0, s') ∧
    s.kref 0 = some ⟨1, 1, 0⟩ ∧ s'.kref 0 = none ∧ ¬ s'.Holds 0 ⟨1, 1, 0⟩ ∧ s'.Holds 1 ⟨0, 0, 0⟩ := by
  have h₀ : Runs Client.Init (Client.StepIn Op.Keeps) (.opened 4 4096 65536 65536 {}) := .init (Client.opened_init ..)
  have h₁ := h₀.step ⟨.pushNew 1 4096 ⟨false, true⟩ true true, 1, _, trivial, rfl⟩
  have h₂ := h₁.step ⟨.pushNew 1 4096 ⟨false, true⟩ false true, 1, _, trivial, rfl⟩
  have h₃ := h₂.step ⟨.refn 1 [(0, NOUVEAU_BO_GART ||| NOUVEAU_BO_RD)], 1, _, trivial, rfl⟩
  have h₄ := h₃.step ⟨.refn 0 [(0, NOUVEAU_BO_GART ||| NOUVEAU_BO_RD)], 1, _, trivial, rfl⟩
  have h₅ := h₄.step ⟨.refn 1 [(0, NOUVEAU_BO_GART ||| NOUVEAU_BO_RD)], 1, _, trivial, rfl⟩
  have h₆ := h₅.step ⟨.refn 0 [(1, NOUVEAU_BO_GART ||| NOUVEAU_BO_RD)], 1, _, trivial, rfl⟩
  have h₇ := h₆.step ⟨.pushDel 1, 1, _, ?_, rfl⟩
  · refine ⟨_, _, h₆, h₇, rfl, rfl, rfl, fun hb => ?_, (kref_table h₇ 1 ⟨0, 0, 0⟩).mp rfl⟩
    cases (kref_table h₇ 0 ⟨1, 1, 0⟩).mpr hb
  · rintro push ⟨⟩ krec hkrec k hk e he
    obtain rfl := List.mem_singleton.mp hkrec
    obtain rfl := List.mem_singleton.mp hk
    cases he
    rfl

/-- A deferred push buffer refers to a buffer, then an immediate one does, and the deferred one is deleted: the buffer
    is in the record of the immediate one, and has no entry. -/
theorem kref_table_cleared : ∃ s push, Runs Client.Init (Client.StepIn fun _ _ => True) s ∧ s.push 0 = some push ∧
    push.krec.buffer.map Kref.bo = [0] ∧ s.kref 0 = none := by
  have h := Client.runs_calls (P := fun _ _ => True) (fun _ _ => trivial)
    [.pushNew 1 4096 ⟨false, true⟩ true true, .pushNew 1 4096 ⟨false, true⟩ false true,
      .refn 1 [(0, NOUVEAU_BO_GART ||| NOUVEAU_BO_RD)], .refn 0 [(0, NOUVEAU_BO_GART ||| NOUVEAU_BO_RD)],
      .pushDel 1] (.init (Client.opened_init 4 4096 65536 65536 {})) rfl
  exact ⟨_, _, h, rfl, rfl, rfl⟩

end Runs

end LibDrm.Nouveau.Push
