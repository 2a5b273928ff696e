/-
# `LibDrm.Hash.Delete` — deleting an entry while the table is iterated over

The caller may delete the key that `drmHashFirst` or `drmHashNext` has just
returned.  The deletion first moves the node to the front of its chain, but
the other nodes of the chain keep their order, and the cursor `p1` stands on
another node of some chain (`Ahead`).  So what is still to come is what was to
come, without the nodes of that key.

| step | the cursor |
| :-- | :-- |
| `drmHashFirst`, `drmHashNext` | moves behind the node that is returned |
| `drmHashLookup`, `drmHashInsert` | stays, its chain may be reordered |
| `drmHashDelete` of the key just returned | stays, on a node that is not freed |
-/
import LibDrm.Hash.Iterate
import Mathlib.Data.List.Flatten

namespace LibDrm.Hash

open SList

variable {V : Type} {hash : UInt64 → Fin HASH_SIZE}

/-! ## Points of an iteration -/

/-- The tables of all histories, each with the key that an iteration has just returned.  After a
deletion of another key the iteration is not continued. -/
inductive Reached (hash : UInt64 → Fin HASH_SIZE) : HashTable V → Option UInt64 → Prop
  | create (p0 : Nat) (p1 : Option Ptr) : Reached hash (drmHashCreate V p0 p1) none
  | lookup {t t' : HashTable V} {last : Option UInt64} {key : UInt64} {r : Int × Option V} :
      Reached hash t last → drmHashLookup hash key t = .ok (r, t') → Reached hash t' last
  | insert {t t' : HashTable V} {last : Option UInt64} {allocOk : Bool} {key : UInt64} {value : V} {r : Int} :
      Reached hash t last → drmHashInsert hash allocOk key value t = .ok (r, t') → Reached hash t' last
  | delete {t t' : HashTable V} {last : Option UInt64} {key : UInt64} {r : Int} :
      Reached hash t last → drmHashDelete hash key t = .ok (r, t') →
        Reached hash t' (if last = some key then last else none)
  | first {t t' : HashTable V} {last : Option UInt64} {r : Option (Option (UInt64 × V))} :
      Reached hash t last → drmHashFirst t = .ok (r, t') → Reached hash t' (r.join.map Prod.fst)
  | next {t t' : HashTable V} {key : UInt64} {r : Option (UInt64 × V)} :
      Reached hash t (some key) → drmHashNext t = .ok (r, t') → Reached hash t' (r.map Prod.fst)

/-- The cursor stands on a chain, on a node that has not the key `k`. -/
structure Ahead (t : HashTable V) (L : Fin HASH_SIZE → List Ptr) (k : UInt64) : Prop where
  inside : t.p0 < HASH_SIZE
  cursor : ∀ c, t.p1 = some c → t.key c ≠ some k ∧ ∃ i, c ∈ L i

/-- The chains of a table, and where the cursor is if a key was just returned. -/
structure Orderly (hash : UInt64 → Fin HASH_SIZE) (t : HashTable V) (last : Option UInt64)
    (L : Fin HASH_SIZE → List Ptr) : Prop where
  shape : Shape hash t L
  ahead : ∀ k, last = some k → Ahead t L k

variable {t t' : HashTable V} {L L' : Fin HASH_SIZE → List Ptr} {last : Option UInt64} {key k : UInt64}

/-! ## The cursor moves on -/

/-- The node behind `b` on its chain has another key. -/
theorem Shape.next_node (h : Shape hash t L) {i : Fin HASH_SIZE} {b c : Ptr} (hb : b ∈ L i) (hc : t.nxt b = some c) :
    c ∈ L i ∧ t.key c ≠ t.key b := by
  obtain ⟨A, B, hL⟩ := List.append_of_mem hb
  have hchain := h.chain i
  have hkeys := h.keys i
  rw [hL] at hchain hkeys
  obtain ⟨r, -, -, hB⟩ := (seg_append).mp hchain
  cases B with
  | nil => rw [hc] at hB; cases hB
  | cons d B =>
      obtain rfl : c = d := Option.some.inj (hc.symm.trans hB.1)
      refine ⟨by rw [hL]; simp, fun e => ?_⟩
      rw [List.map_append, List.map_cons, List.map_cons] at hkeys
      have hnd := (List.nodup_append.mp hkeys).2.1
      exact (List.nodup_cons.mp hnd).1 (by rw [← e]; exact List.mem_cons_self ..)

/-- What `drmHashNext` hands out is on a chain, and the cursor moves behind it. -/
theorem hashNextLoop_behind (h : Shape hash t L) : ∀ {n : Nat} {p0 : Nat} {p1 : Option Ptr},
    (∀ c, p1 = some c → ∃ i, c ∈ L i) → Ensures (hashNextLoop n { t with p0 := p0, p1 := p1 }) fun r =>
      (∃ p0 p1, r.2 = { t with p0 := p0, p1 := p1 }) ∧ ∀ e, r.1 = some e →
        r.2.p0 < HASH_SIZE ∧ ∃ i, ∃ b ∈ L i, t.entry b = some e ∧ r.2.p1 = t.nxt b := by
  intro n
  induction n with
  | zero => exact fun _ => .error
  | succ n ih =>
      intro p0 p1 hp
      unfold hashNextLoop
      dsimp only
      split
      · next hlt =>
        cases p1 with
        | some b =>
            obtain ⟨i, hb⟩ := hp b rfl
            obtain ⟨m, hm⟩ := h.alloc hb
            simp only [hm, deref_some, ok_bind]
            refine .ok ⟨⟨_, _, rfl⟩, ?_⟩
            rintro e ⟨⟩
            exact ⟨hlt, i, b, hb, by simp [HashTable.entry, hm], by simp [HashTable.nxt, hm]⟩
        | none =>
            refine ih fun c hc => ⟨⟨p0, hlt⟩, ?_⟩
            have hstart := Chain.start (h.chain ⟨p0, hlt⟩)
            exact List.mem_of_mem_head? (hstart.symm.trans hc)
      · exact .ok ⟨⟨_, _, rfl⟩, fun e h => (by cases h)⟩

theorem Shape.cursor (h : Shape hash t L) (p0 : Nat) (p1 : Option Ptr) : Shape hash { t with p0 := p0, p1 := p1 } L :=
  ⟨h.magic, h.chain, h.hashed, h.keys, h.known⟩

theorem drmHashNext_orderly (h : Shape hash t L) {p0 : Nat} {p1 : Option Ptr} (hp : ∀ c, p1 = some c → ∃ i, c ∈ L i) :
    Ensures (drmHashNext { t with p0 := p0, p1 := p1 }) fun r => Orderly hash r.2 (r.1.map Prod.fst) L := by
  refine (hashNextLoop_behind h hp).mono ?_
  rintro ⟨r, t'⟩ ⟨⟨p0', p1', ht'⟩, hr⟩
  dsimp only at ht' hr ⊢
  subst ht'
  refine ⟨h.cursor p0' p1', fun k hk => ?_⟩
  obtain ⟨e, rfl, rfl⟩ := Option.map_eq_some_iff.mp hk
  obtain ⟨hlt, i, b, hb, he, hnext⟩ := hr e rfl
  refine ⟨hlt, fun c hc => ?_⟩
  obtain ⟨hci, hne⟩ := h.next_node hb (hnext.symm.trans hc)
  refine ⟨fun hck => hne (hck.trans ?_), i, hci⟩
  obtain ⟨m, hm, rfl⟩ := Option.map_eq_some_iff.mp he
  rw [HashTable.key, hm]
  rfl

/-! ## The other operations -/

theorem Ahead.moved (ha : Ahead t L k) {found : Option Ptr} (hm : Moved hash key t L found t' L') : Ahead t' L' k where
  inside := hm.p0 ▸ ha.inside
  cursor c hc := by
    obtain ⟨hck, i, hi⟩ := ha.cursor c (hm.p1 ▸ hc)
    rw [hm.keys]
    exact ⟨hck, i, (hm.perm i).mem_iff.mpr hi⟩

theorem Orderly.moved (h : Orderly hash t last L) {found : Option Ptr} (hm : Moved hash key t L found t' L') :
    Orderly hash t' last L' :=
  ⟨hm.shape, fun k hk => (h.ahead k hk).moved hm⟩

theorem drmHashLookup_orderly (h : Orderly hash t last L) (key : UInt64) :
    Ensures (drmHashLookup hash key t) fun r => ∃ L', Orderly hash r.2 last L' := by
  unfold drmHashLookup
  split
  · exact .ok ⟨L, h⟩
  · refine (hashFind_moved h.shape key).ensures.bind ?_
    rintro ⟨found, t'⟩ ⟨L', hm⟩
    cases found with
    | none => exact .ok ⟨L', h.moved hm⟩
    | some b => exact .bind_any fun n => .pure ⟨L', h.moved hm⟩

/-- A new entry is not where the cursor is. -/
theorem Orderly.insert (h : Orderly hash t last L) (hkey : ∀ b ∈ L (hash key), t.key b ≠ some key) (value : V) :
    Orderly hash { t with
      mem := Function.update t.mem t.fresh (some ⟨key, value, t.buckets (hash key)⟩)
      buckets := Function.update t.buckets (hash key) (some t.fresh)
      fresh := t.fresh + 1 } last (Function.update L (hash key) (t.fresh :: L (hash key))) := by
  refine ⟨insert_shape h.shape hkey value, fun k hk => ⟨(h.ahead k hk).inside, fun c hc => ?_⟩⟩
  obtain ⟨hck, i, hi⟩ := (h.ahead k hk).cursor c hc
  refine ⟨?_, i, ?_⟩
  · show (Function.update t.mem t.fresh _ c).map HashBucket.key ≠ _
    rw [h.shape.insert_mem value hi]
    exact hck
  · by_cases hik : i = hash key
    · subst hik
      rw [Function.update_self]
      exact List.mem_cons_of_mem _ hi
    · rwa [Function.update_of_ne hik]

theorem drmHashInsert_orderly (h : Orderly hash t last L) (allocOk : Bool) (key : UInt64) (value : V) :
    Ensures (drmHashInsert hash allocOk key value t) fun r => ∃ L', Orderly hash r.2 last L' := by
  unfold drmHashInsert
  split
  · exact .ok ⟨L, h⟩
  · refine (hashFind_moved h.shape key).ensures.bind ?_
    rintro ⟨found, t'⟩ ⟨L', hm⟩
    cases found with
    | some b => exact .ok ⟨L', h.moved hm⟩
    | none =>
        dsimp only
        split
        · exact .ok ⟨L', h.moved hm⟩
        · refine .ok ⟨_, (h.moved hm).insert (fun b hb => ?_) value⟩
          rw [hm.keys]
          exact hm.absent rfl b ((hm.perm _).mem_iff.mp hb)

/-! ## Deletion -/

/-- The nodes that have not the key `key`. -/
def without (t : HashTable V) (key : UInt64) (l : List Ptr) : List Ptr := l.filter fun c => t.key c ≠ some key

theorem entry_congr {c : Ptr} (hk : t'.key c = t.key c) (hv : t'.value c = t.value c) : t'.entry c = t.entry c := by
  unfold HashTable.key at hk
  unfold HashTable.value at hv
  unfold HashTable.entry
  cases hm : t.mem c <;> cases hm' : t'.mem c <;> simp_all

/-- The key of a node is on no other node of its chain. -/
theorem Shape.erase_eq (h : Shape hash t L) {b : Ptr} (hb : b ∈ L (hash key)) (hbk : t.key b = some key) :
    (L (hash key)).erase b = without t key (L (hash key)) := by
  rw [without, (h.chain _).nodup.erase_eq_filter]
  refine List.filter_congr fun c hc => ?_
  have hinj := List.inj_on_of_nodup_map (h.keys (hash key)) hc hb
  by_cases hcb : c = b
  · simp [hcb, hbk]
  · have hck : t.key c ≠ some key := fun hck => hcb (hinj (hck.trans hbk.symm))
    simp [hcb, hck]

/-- No node of another chain has the key. -/
theorem Shape.without_eq (h : Shape hash t L) {i : Fin HASH_SIZE}
    (hi : i = hash key → ∀ b ∈ L (hash key), t.key b ≠ some key) : without t key (L i) = L i := by
  refine List.filter_eq_self.mpr fun c hc => decide_eq_true fun hck => ?_
  obtain ⟨k, hk, hki⟩ := h.hashed i c hc
  obtain rfl : k = key := Option.some.inj (hk.symm.trans hck)
  subst hki
  exact hi rfl c hc hck

/-- What a deletion leaves: the nodes of the key are gone, and nothing else. -/
structure Deleted (hash : UInt64 → Fin HASH_SIZE) (key : UInt64) (t : HashTable V) (L : Fin HASH_SIZE → List Ptr)
    (t' : HashTable V) : Prop where
  shape : Shape hash t' fun i => without t key (L i)
  p0 : t'.p0 = t.p0
  p1 : t'.p1 = t.p1
  entry : ∀ c, t.key c ≠ some key → t'.entry c = t.entry c

theorem Deleted.key_kept (h : Deleted hash key t L t') {c : Ptr} (hc : t.key c ≠ some key) : t'.key c = t.key c := by
  have hentry := congrArg (Option.map Prod.fst) (h.entry c hc)
  simp only [HashTable.entry, Option.map_map] at hentry
  exact hentry

theorem drmHashDelete_spec (h : Shape hash t L) (key : UInt64) :
    Returns (drmHashDelete hash key t) fun r => Deleted hash key t L r.2 := by
  simp only [drmHashDelete, h.magic, ne_eq, not_true_eq_false, if_false]
  refine (hashFind_moved h key).bind ?_
  rintro ⟨found, t'⟩ ⟨L', hm⟩
  have hentry : ∀ c, t'.entry c = t.entry c := fun c => entry_congr (congrFun hm.keys c) (congrFun hm.values c)
  cases found with
  | none =>
      refine .ok ⟨?_, hm.p0, hm.p1, fun c _ => hentry c⟩
      have hL : (fun i => without t key (L i)) = L := funext fun i => h.without_eq fun _ => hm.absent rfl
      rw [hL, ← show L' = L from hm.order]
      exact hm.shape
  | some b =>
      obtain ⟨hbk, l, hl⟩ := hm.first b rfl
      have hL' : L' = Function.update L (hash key) (b :: (L (hash key)).erase b) := hm.order
      have hb : b ∈ L (hash key) := (hm.perm _).mem_iff.mp (by rw [hl]; exact List.mem_cons_self ..)
      obtain ⟨n, hn⟩ := hm.shape.alloc (i := hash key) (b := b) (by rw [hl]; exact List.mem_cons_self ..)
      dsimp only
      rw [hn, deref_some, ok_bind]
      refine .ok ⟨?_, hm.p0, hm.p1, fun c hc => ?_⟩
      · have hshape := delete_shape hm.shape (by rw [hL', Function.update_self]) hn
        rw [hL', Function.update_idem] at hshape
        have hfun : Function.update L (hash key) ((L (hash key)).erase b) = fun i => without t key (L i) := by
          funext i
          by_cases hi : i = hash key
          · subst hi
            rw [Function.update_self, h.erase_eq hb hbk]
          · rw [Function.update_of_ne hi, h.without_eq fun e => absurd e hi]
        rwa [hfun] at hshape
      · have hcb : c ≠ b := by
          rintro rfl
          exact hc hbk
        refine Eq.trans ?_ (hentry c)
        show (Function.update t'.mem b none c).map _ = _
        rw [Function.update_of_ne hcb]
        rfl

/-- The cursor is on a node that is kept. -/
theorem Ahead.deleted (ha : Ahead t L key) (hd : Deleted hash key t L t') :
    Ahead t' (fun i => without t key (L i)) key where
  inside := hd.p0 ▸ ha.inside
  cursor c hc := by
    obtain ⟨hck, i, hi⟩ := ha.cursor c (hd.p1 ▸ hc)
    exact ⟨by rw [hd.key_kept hck]; exact hck, i, List.mem_filter.mpr ⟨hi, decide_eq_true hck⟩⟩

/-! ## Every history -/

/-- In every history the cursor stands where an iteration can go on. -/
theorem Reached.orderly (h : Reached hash t last) : ∃ L, Orderly hash t last L := by
  induction h with
  | create p0 p1 =>
      exact ⟨fun _ => [], ⟨rfl, fun _ => rfl, nofun, fun _ => List.nodup_nil, nofun⟩, nofun⟩
  | lookup _ hrun ih =>
      obtain ⟨L, h⟩ := ih
      exact drmHashLookup_orderly h _ _ hrun
  | insert _ hrun ih =>
      obtain ⟨L, h⟩ := ih
      exact drmHashInsert_orderly h _ _ _ _ hrun
  | @delete t t' last key r _ hrun ih =>
      obtain ⟨L, h⟩ := ih
      have hd := (drmHashDelete_spec h.shape key).ensures _ hrun
      refine ⟨_, hd.shape, fun k hk => ?_⟩
      split at hk
      · next hlast =>
        obtain rfl : key = k := Option.some.inj (hlast.symm.trans hk)
        exact (h.ahead key hk).deleted hd
      · cases hk
  | @first t t' last r _ hrun ih =>
      obtain ⟨L, h⟩ := ih
      unfold drmHashFirst at hrun
      rw [if_neg (not_not.mpr h.shape.magic)] at hrun
      obtain ⟨⟨r₁, t₁⟩, hnext, hret⟩ := exists_of_bind_ok hrun
      cases hret
      refine ⟨L, drmHashNext_orderly h.shape (fun c hc => ⟨0, ?_⟩) _ hnext⟩
      exact List.mem_of_mem_head? ((Chain.start (h.shape.chain 0)).symm.trans hc)
  | @next t t' key r _ hrun ih =>
      obtain ⟨L, h⟩ := ih
      have hcursor := (h.ahead key rfl).cursor
      exact ⟨L, drmHashNext_orderly (t := t) h.shape (fun c hc => (hcursor c hc).2) _ hrun⟩

/-! ## What is still to come -/

/-- At a point of an iteration there are nodes still to come, and after a deletion those that are
left of them. -/
theorem Ahead.pending (ha : Ahead t L key) (h : Shape hash t L) (hd : Deleted hash key t L t') :
    ∃ rest, (∀ c ∈ rest, ∃ i, c ∈ L i) ∧ Pending t L t.p0 t.p1 rest
      ∧ Pending t' (fun i => without t key (L i)) t.p0 t.p1 (without t key rest) := by
  have hchains : chainsFrom (fun i => without t key (L i)) t.p0 = without t key (chainsFrom L t.p0) := by
    unfold chainsFrom without
    rw [List.filter_flatMap]
    refine congrArg (List.flatMap · _) (funext fun j => ?_)
    split
    · rfl
    · rfl
  have hmem : ∀ c ∈ chainsFrom L t.p0, ∃ i, c ∈ L i := fun c hc => by
    obtain ⟨j, -, -, hj⟩ := (mem_chainsFrom).mp hc
    exact ⟨j, hj⟩
  cases hp1 : t.p1 with
  | none =>
      refine ⟨chainsFrom L t.p0, hmem, ⟨ha.inside, 0, [], List.nil_subset _, rfl, rfl⟩, ha.inside, 0, [],
        List.nil_subset _, rfl, ?_⟩
      rw [hchains]
      rfl
  | some c =>
      obtain ⟨hck, i, hi⟩ := ha.cursor c hp1
      obtain ⟨A, B, hL⟩ := List.append_of_mem hi
      -- the chain from the cursor on, before and after
      have hbefore := h.chain i
      rw [hL] at hbefore
      obtain ⟨r, -, hc⟩ := (seg_append).mp hbefore
      have hr := Chain.start hc
      subst hr
      have hkept : without t key (c :: B) = c :: without t key B := List.filter_cons_of_pos (decide_eq_true hck)
      have hafter := hd.shape.chain i
      rw [hL, without, List.filter_append] at hafter
      obtain ⟨r, -, hc'⟩ := (seg_append).mp hafter
      have hr := Chain.start hc'
      rw [← without, hkept] at hr hc'
      subst hr
      refine ⟨(c :: B) ++ chainsFrom L t.p0, fun d hd' => ?_, ⟨ha.inside, i, c :: B, ?_, hc, rfl⟩,
        ha.inside, i, c :: without t key B, ?_, hc', ?_⟩
      · rcases List.mem_append.mp hd' with hd' | hd'
        · exact ⟨i, by rw [hL]; exact List.mem_append_right _ hd'⟩
        · exact hmem d hd'
      · rw [hL]
        exact List.subset_append_right ..
      · rw [← hkept, hL, without, without, List.filter_append]
        exact List.subset_append_right ..
      · rw [hchains, ← hkept, without, without, without, List.filter_append]

/-- The entries of the nodes that are left. -/
theorem Deleted.entries (hd : Deleted hash key t L t') (h : Shape hash t L) {rest : List Ptr}
    (hrest : ∀ c ∈ rest, ∃ i, c ∈ L i) :
    (without t key rest).filterMap t'.entry = (rest.filterMap t.entry).filter fun e => e.1 ≠ key := by
  induction rest with
  | nil => rfl
  | cons c rest ih =>
      replace ih := ih fun d hd' => hrest d (List.mem_cons_of_mem _ hd')
      obtain ⟨i, hi⟩ := hrest c (List.mem_cons_self ..)
      obtain ⟨n, hn⟩ := h.alloc hi
      have hkey : t.key c = some n.key := by rw [HashTable.key, hn]; rfl
      have hentry : t.entry c = some (n.key, n.value) := by rw [HashTable.entry, hn]; rfl
      rw [List.filterMap_cons_some hentry]
      by_cases hck : n.key = key
      · rw [List.filter_cons_of_neg (by simp [hck]), ← ih, without,
          List.filter_cons_of_neg (by simp [hkey, hck])]
        rfl
      · have hne : t.key c ≠ some key := fun e => hck (Option.some.inj (hkey.symm.trans e))
        rw [List.filter_cons_of_pos (by simp [hck]), ← ih, without,
          List.filter_cons_of_pos (by simp [hkey, hck]), List.filterMap_cons_some ((hd.entry c hne).trans hentry)]
        rfl

/-- At every point of an iteration the key that was just returned can be deleted: the cursor is not
on a node that was freed, and the rest of the iteration is what it was, without that key. -/
theorem delete_while_iterating (h : Reached hash t (some key)) :
    (∀ c, t.p1 = some c → (t.mem c).isSome)
    ∧ ∃ r t', drmHashDelete hash key t = .ok (r, t')
      ∧ (∀ c, t'.p1 = some c → (t'.mem c).isSome)
      ∧ ∃ n l, ∀ k, n ≤ k → hashRest k t = .ok l ∧ hashRest k t' = .ok (l.filter fun e => e.1 ≠ key) := by
  obtain ⟨L, horder⟩ := h.orderly
  have hshape := horder.shape
  have ha := horder.ahead key rfl
  obtain ⟨⟨r, t'⟩, hrun, hd⟩ := drmHashDelete_spec hshape key
  obtain ⟨rest, hrest, hbefore, hafter⟩ := ha.pending hshape hd
  have hlive : ∀ {t : HashTable V} {L}, Shape hash t L → Ahead t L key → ∀ c, t.p1 = some c → (t.mem c).isSome := by
    intro t L hs ha c hc
    obtain ⟨-, i, hi⟩ := ha.cursor c hc
    obtain ⟨n, hn⟩ := hs.alloc hi
    rw [hn]
    rfl
  refine ⟨hlive hshape ha, r, t', hrun, hlive hd.shape (ha.deleted hd), rest.length + 1, rest.filterMap t.entry,
    fun k hk => ⟨hashRest_spec hshape rest hbefore hk, ?_⟩⟩
  have hlength : (without t key rest).length < k := lt_of_le_of_lt (List.length_filter_le ..) hk
  have hcome := hashRest_spec hd.shape _ hafter hlength
  rw [hd.entries hshape hrest, ← hd.p0, ← hd.p1] at hcome
  exact hcome

/-- Three keys on one chain.  The second that is returned is deleted, while the cursor is on the last of the chain. -/
theorem delete_while_iterating_chain : ∃ t : HashTable Nat, Reached (fun _ => 0) t (some 2) ∧ t.p1 = some 0
    ∧ ∃ r t', drmHashDelete (fun _ => 0) 2 t = .ok (r, t') ∧ (∀ c, t'.p1 = some c → (t'.mem c).isSome)
      ∧ ∃ n l, ∀ k, n ≤ k → hashRest k t = .ok l ∧ hashRest k t' = .ok (l.filter fun e => e.1 ≠ 2) := by
  obtain ⟨t, h, hcursor⟩ : ∃ t : HashTable Nat, Reached (fun _ => 0) t (some 2) ∧ t.p1 = some 0 := by
    have h₁ := Reached.insert (.create 0 none) (show drmHashInsert (fun _ => 0) true 1 7 (drmHashCreate Nat 0 none) = .ok _ from rfl)
    have h₂ := h₁.insert (show drmHashInsert (fun _ => 0) true 2 8 _ = .ok _ from rfl)
    have h₃ := h₂.insert (show drmHashInsert (fun _ => 0) true 3 9 _ = .ok _ from rfl)
    have hfirst : Reached (fun _ => 0) _ (some 3) := h₃.first rfl
    have hnext : Reached (fun _ => 0) _ (some 2) := hfirst.next rfl
    exact ⟨_, hnext, rfl⟩
  obtain ⟨-, r, t', hrun, hlive, hrest⟩ := delete_while_iterating h
  exact ⟨t, h, hcursor, r, t', hrun, hlive, hrest⟩

end LibDrm.Hash
