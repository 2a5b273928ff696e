/-
# `LibDrm.Hash.Iterate` — iterating over the hash table

`drmHashFirst` sets the position to bucket 0 with the chain of bucket 0 at
hand; `drmHashNext` works the chain off and takes the chain of the bucket at
the position before it moves the position on.  So the chain of bucket 0 is
taken twice, and when the position reaches the end of the table the chain of
bucket 511 is at hand and is never looked at: the nodes that are handed out
are (`pending`)

    L 0  followed by  L 0, L 1, …, L 510

and each entry is handed out once exactly if no key hashes to 0 or to 511
(`hash_iteration_exact_iff`).
-/
import LibDrm.Hash.Table
import Mathlib.Data.List.Range

namespace LibDrm.Hash

open SList

variable {V : Type}

/-! ## The iteration -/

/-- The loop of `drmHashNext`: the next entry, or none at the end. -/
def hashNextLoop : Nat → HashTable V → Except Fault (Option (UInt64 × V) × HashTable V)
  | 0, _ => .error .outOfFuel
  | k + 1, t =>
      if h : t.p0 < HASH_SIZE then
        match t.p1 with
        | some b => do
            let n ← deref (t.mem b)
            return (some (n.key, n.value), { t with p1 := n.next })
        | none => hashNextLoop k { t with p1 := t.buckets ⟨t.p0, h⟩, p0 := t.p0 + 1 }
      else .ok (none, t)

/-- `drmHashNext`; the position moves on in every round that does not return. -/
def drmHashNext (t : HashTable V) : Except Fault (Option (UInt64 × V) × HashTable V) :=
  hashNextLoop (HASH_SIZE + 1) t

/-- `drmHashFirst`: none where it returns -1. -/
def drmHashFirst (t : HashTable V) : Except Fault (Option (Option (UInt64 × V)) × HashTable V) :=
  if t.magic ≠ HASH_MAGIC then .ok (none, t)
  else do
    let (r, t) ← drmHashNext { t with p0 := 0, p1 := t.buckets 0 }
    return (some r, t)

/-- `drmHashNext` until it returns 0. -/
def hashRest : Nat → HashTable V → Except Fault (List (UInt64 × V))
  | 0, _ => .error .outOfFuel
  | k + 1, t => do
      let (r, t) ← drmHashNext t
      match r with
      | none => return []
      | some e => do
          let l ← hashRest k t
          return e :: l

/-- `drmHashFirst`, and then `drmHashNext` until it returns 0: the entries that are handed out,
where there are at most `k`. -/
def hashIterate (k : Nat) (t : HashTable V) : Except Fault (List (UInt64 × V)) := do
  let (r, t) ← drmHashFirst t
  match r with
  | none => return []
  | some none => return []
  | some (some e) => do
      let l ← hashRest k t
      return e :: l

/-! ## What is handed out -/

/-- The entry that a node holds. -/
def HashTable.entry (t : HashTable V) (b : Ptr) : Option (UInt64 × V) := (t.mem b).map fun n => (n.key, n.value)

/-- The nodes on the chains of the buckets from `i` on, without the last bucket. -/
def chainsFrom (L : Fin HASH_SIZE → List Ptr) (i : Nat) : List Ptr :=
  (List.range' i (HASH_SIZE - 1 - i)).flatMap fun j => if h : j < HASH_SIZE then L ⟨j, h⟩ else []

variable {hash : UInt64 → Fin HASH_SIZE} {t : HashTable V} {L : Fin HASH_SIZE → List Ptr}

theorem chainsFrom_last : chainsFrom L (HASH_SIZE - 1) = [] := by simp [chainsFrom]

theorem chainsFrom_step {i : Nat} (hi : i < HASH_SIZE - 1) :
    chainsFrom L i = L ⟨i, by omega⟩ ++ chainsFrom L (i + 1) := by
  have hlen : HASH_SIZE - 1 - i = (HASH_SIZE - 1 - (i + 1)) + 1 := by omega
  have hlt : i < HASH_SIZE := by omega
  simp only [chainsFrom]
  rw [hlen, List.range'_succ, List.flatMap_cons, dif_pos hlt]

/-- At the position `p0`, `p1` the nodes `rest` are still to come. -/
structure Pending (t : HashTable V) (L : Fin HASH_SIZE → List Ptr) (p0 : Nat) (p1 : Option Ptr) (rest : List Ptr) :
    Prop where
  inside : p0 < HASH_SIZE
  nodes : ∃ i l, l ⊆ L i ∧ Chain t.nxt p1 l ∧ rest = l ++ chainsFrom L p0

/-- One step: the first of the pending nodes is handed out, and nothing if there are none. -/
theorem hashNextLoop_spec (hs : Shape hash t L) (k : Nat) :
    ∀ {p0 : Nat} {p1 : Option Ptr} {rest : List Ptr}, Pending t L p0 p1 rest → HASH_SIZE + 1 ≤ k + p0 →
      (rest = [] → ∃ t', hashNextLoop k { t with p0 := p0, p1 := p1 } = .ok (none, t'))
      ∧ ∀ b rest', rest = b :: rest' → ∃ e p0' p1', t.entry b = some e
          ∧ hashNextLoop k { t with p0 := p0, p1 := p1 } = .ok (some e, { t with p0 := p0', p1 := p1' })
          ∧ Pending t L p0' p1' rest' := by
  induction k with
  | zero =>
      intro p0 p1 rest h hk
      have := h.inside
      omega
  | succ k ih =>
      intro p0 p1 rest h hk
      obtain ⟨hlt, i, l, hsub, hchain, hrest⟩ := h
      cases l with
      | cons b l =>
          -- the chain at hand is worked off
          obtain ⟨n, hn⟩ := hs.alloc (hsub (List.mem_cons_self ..))
          obtain ⟨rfl, htail⟩ := hchain
          have hnext : t.nxt b = n.next := by simp [HashTable.nxt, hn]
          rw [List.cons_append] at hrest
          subst hrest
          refine ⟨fun h => (by cases h), fun c rest' e => ?_⟩
          obtain ⟨rfl, rfl⟩ := List.cons.inj e
          refine ⟨(n.key, n.value), p0, n.next, by simp [HashTable.entry, hn], ?_, hlt, i, l,
            fun c hc => hsub (List.mem_cons_of_mem _ hc), hnext ▸ htail, rfl⟩
          simp only [hashNextLoop, dif_pos hlt, hn, deref_some, ok_bind]
          rfl
      | nil =>
          have hp1 : p1 = none := hchain
          subst hp1
          have hstep : hashNextLoop (k + 1) { t with p0 := p0, p1 := none }
              = hashNextLoop k { t with p0 := p0 + 1, p1 := t.buckets ⟨p0, hlt⟩ } := by
            simp only [hashNextLoop, dif_pos hlt]
          rw [hstep]
          rw [List.nil_append] at hrest
          by_cases hlast : p0 = HASH_SIZE - 1
          · -- the chain of the last bucket is at hand, and the loop ends
            have hnil : rest = [] := by rw [hrest, hlast, chainsFrom_last]
            obtain ⟨k, rfl⟩ : ∃ j, k = j + 1 := ⟨k - 1, by omega⟩
            refine ⟨fun _ => ⟨_, by simp only [hashNextLoop]; rw [dif_neg (by simp [hlast])]⟩, ?_⟩
            rintro b rest' e
            rw [hnil] at e
            cases e
          · refine ih ⟨by omega, ⟨p0, hlt⟩, L ⟨p0, hlt⟩, fun _ hb => hb, hs.chain _, ?_⟩ (by omega)
            rw [hrest, chainsFrom_step (by omega)]

theorem hashRest_spec (hs : Shape hash t L) (rest : List Ptr) :
    ∀ {p0 : Nat} {p1 : Option Ptr} {k : Nat}, Pending t L p0 p1 rest → rest.length < k →
      hashRest k { t with p0 := p0, p1 := p1 } = .ok (rest.filterMap t.entry) := by
  induction rest with
  | nil =>
      intro p0 p1 k h hk
      obtain ⟨k, rfl⟩ := Nat.exists_eq_succ_of_ne_zero (Nat.ne_of_gt hk)
      obtain ⟨t', hnext⟩ := (hashNextLoop_spec hs (HASH_SIZE + 1) h (by omega)).1 rfl
      simp only [hashRest, drmHashNext, hnext, ok_bind]
      rfl
  | cons b rest ih =>
      intro p0 p1 k h hk
      obtain ⟨k, rfl⟩ := Nat.exists_eq_succ_of_ne_zero (Nat.ne_of_gt (Nat.zero_lt_of_lt hk))
      obtain ⟨e, p0', p1', he, hnext, h'⟩ := (hashNextLoop_spec hs (HASH_SIZE + 1) h (by omega)).2 b rest rfl
      simp only [hashRest, drmHashNext, hnext, ok_bind, ih h' (by simpa using hk), List.filterMap_cons, he]
      rfl

/-- The entries that an iteration hands out. -/
theorem hashIterate_spec (hs : Shape hash t L) {k : Nat} (hk : (L 0 ++ chainsFrom L 0).length < k) :
    hashIterate k t = .ok ((L 0 ++ chainsFrom L 0).filterMap t.entry) := by
  have hpend : Pending t L 0 (t.buckets 0) (L 0 ++ chainsFrom L 0) :=
    ⟨by decide, 0, L 0, fun _ hb => hb, hs.chain 0, rfl⟩
  have hrest := hashRest_spec hs _ hpend (Nat.lt_succ_of_lt hk)
  simp only [hashRest] at hrest
  simp only [hashIterate, drmHashFirst]
  rw [if_neg (not_not.mpr hs.magic)]
  cases hnext : drmHashNext { t with p0 := 0, p1 := t.buckets 0 } with
  | error e => rw [hnext] at hrest; cases hrest
  | ok r =>
      obtain ⟨r, t'⟩ := r
      rw [hnext] at hrest
      cases r with
      | none => exact hrest
      | some e => exact hrest

/-! ## When it is complete -/

/-- The list has each entry of the map once, and nothing else. -/
def ExactlyOnce (m : UInt64 → Option V) (l : List (UInt64 × V)) : Prop :=
  l.Nodup ∧ ∀ k v, (k, v) ∈ l ↔ m k = some v

theorem mem_chainsFrom {i : Nat} {b : Ptr} :
    b ∈ chainsFrom L i ↔ ∃ j : Fin HASH_SIZE, i ≤ j ∧ (j : Nat) < HASH_SIZE - 1 ∧ b ∈ L j := by
  simp only [chainsFrom, List.mem_flatMap, List.mem_range'_1]
  constructor
  · rintro ⟨j, ⟨hij, hj⟩, hb⟩
    have hlt : j < HASH_SIZE := by omega
    rw [dif_pos hlt] at hb
    exact ⟨⟨j, hlt⟩, hij, by show j < _; omega, hb⟩
  · rintro ⟨j, hij, hj, hb⟩
    exact ⟨j, ⟨hij, by omega⟩, by rw [dif_pos j.isLt]; exact hb⟩

theorem mem_entries {l : List Ptr} {k : UInt64} {v : V} :
    (k, v) ∈ l.filterMap t.entry ↔ ∃ b ∈ l, t.key b = some k ∧ t.value b = some v := by
  simp only [List.mem_filterMap, HashTable.entry, HashTable.key, HashTable.value, Option.map_eq_some_iff,
    Prod.mk.injEq]
  constructor
  · rintro ⟨b, hb, n, hn, hk, hv⟩
    exact ⟨b, hb, ⟨n, hn, hk⟩, n, hn, hv⟩
  · rintro ⟨b, hb, ⟨n, hn, hk⟩, n', hn', hv⟩
    obtain rfl : n = n' := Option.some.inj (hn.symm.trans hn')
    exact ⟨b, hb, n, hn, hk, hv⟩

theorem Shape.chainsFrom_keys_nodup (hs : Shape hash t L) (i : Nat) : ((chainsFrom L i).map t.key).Nodup := by
  rw [chainsFrom, List.map_flatMap, List.nodup_flatMap]
  refine ⟨fun j _ => ?_, ?_⟩
  · split
    · exact hs.keys _
    · exact List.nodup_nil
  · refine (List.nodup_range').imp fun {j j'} hne k hk hk' => ?_
    dsimp only at hk hk'
    split at hk
    case isFalse => cases hk
    split at hk'
    case isFalse => cases hk'
    obtain ⟨b, hb, hbk⟩ := List.mem_map.mp hk
    obtain ⟨b', hb', hbk'⟩ := List.mem_map.mp hk'
    obtain ⟨x, hx, hxi⟩ := hs.hashed _ b hb
    obtain ⟨x', hx', hxi'⟩ := hs.hashed _ b' hb'
    rw [hbk] at hx
    rw [hbk', hx] at hx'
    rw [Option.some.inj hx', hxi'] at hxi
    exact hne (congrArg Fin.val hxi).symm

theorem entries_nodup {l : List Ptr} (h : (l.map t.key).Nodup) : (l.filterMap t.entry).Nodup := by
  induction l with
  | nil => exact List.nodup_nil
  | cons b l ih =>
      obtain ⟨hb, hl⟩ := List.nodup_cons.mp h
      rw [List.filterMap_cons]
      split
      · exact ih hl
      · rename_i e he
        refine List.nodup_cons.mpr ⟨fun hmem => hb ?_, ih hl⟩
        obtain ⟨k, v⟩ := e
        obtain ⟨n, hn, hkv⟩ := Option.map_eq_some_iff.mp he
        obtain ⟨c, hc, hck, -⟩ := (mem_entries).mp hmem
        have hbk : t.key b = some k := by simp [HashTable.key, hn, (Prod.mk.inj hkv).1]
        rw [hbk, ← hck]
        exact List.mem_map_of_mem hc

/-- The pending nodes at the start are each entry once exactly if no stored key hashes to the
first or to the last bucket. -/
theorem pending_exact_iff {m : UInt64 → Option V} (hs : Shape hash t L) (hm : Stands hash t L m) :
    ExactlyOnce m ((L 0 ++ chainsFrom L 0).filterMap t.entry) ↔ ∀ k, m k ≠ none → hash k ≠ 0 ∧ hash k ≠ 511 := by
  constructor
  · rintro ⟨hnd, hmem⟩ k hk
    obtain ⟨v, hv⟩ := Option.ne_none_iff_exists'.mp hk
    obtain ⟨b, hb, hbk, hbv⟩ := (hm k v).mp hv
    refine ⟨fun h0 => ?_, fun h511 => ?_⟩
    · -- a key in bucket 0 is handed out twice
      rw [h0] at hb
      have hin : (k, v) ∈ (L 0).filterMap t.entry := (mem_entries).mpr ⟨b, hb, hbk, hbv⟩
      have hin' : (k, v) ∈ (chainsFrom L 0).filterMap t.entry :=
        (mem_entries).mpr ⟨b, (mem_chainsFrom).mpr ⟨0, le_refl _, by decide, hb⟩, hbk, hbv⟩
      rw [List.filterMap_append, List.nodup_append] at hnd
      exact hnd.2.2 _ hin _ hin' rfl
    · -- a key in bucket 511 is not handed out
      obtain ⟨c, hc, hck, -⟩ := (mem_entries).mp ((hmem k v).mpr hv)
      obtain ⟨j, hj, hcj⟩ : ∃ j : Fin HASH_SIZE, (j : Nat) < HASH_SIZE - 1 ∧ c ∈ L j := by
        rcases List.mem_append.mp hc with hc | hc
        · exact ⟨0, by decide, hc⟩
        · obtain ⟨j, -, hj, hcj⟩ := (mem_chainsFrom).mp hc
          exact ⟨j, hj, hcj⟩
      obtain ⟨k', hk', hkj⟩ := hs.hashed j c hcj
      rw [hck] at hk'
      rw [← Option.some.inj hk', h511] at hkj
      rw [← hkj] at hj
      exact absurd hj (by decide)
  · intro hfree
    have hstored : ∀ i, ∀ b ∈ L i, i ≠ 0 ∧ i ≠ 511 := by
      intro i b hb
      obtain ⟨k, hk, rfl⟩ := hs.hashed i b hb
      obtain ⟨n, hn⟩ := hs.alloc hb
      refine hfree k ?_
      rw [(hm k n.value).mpr ⟨b, hb, hk, by simp [HashTable.value, hn]⟩]
      exact Option.some_ne_none _
    have hzero : L 0 = [] := List.eq_nil_iff_forall_not_mem.mpr fun b hb => (hstored 0 b hb).1 rfl
    rw [hzero, List.nil_append]
    refine ⟨entries_nodup (hs.chainsFrom_keys_nodup 0), fun k v => ?_⟩
    rw [mem_entries, hm k v]
    constructor
    · rintro ⟨b, hb, hbk, hbv⟩
      obtain ⟨j, -, -, hbj⟩ := (mem_chainsFrom).mp hb
      obtain ⟨k', hk', rfl⟩ := hs.hashed j b hbj
      rw [hbk] at hk'
      rw [Option.some.inj hk']
      exact ⟨b, hbj, Option.some.inj hk' ▸ hbk, hbv⟩
    · rintro ⟨b, hb, hbk, hbv⟩
      refine ⟨b, (mem_chainsFrom).mpr ⟨hash k, Nat.zero_le _, ?_, hb⟩, hbk, hbv⟩
      have hne : (hash k : Nat) ≠ 511 := fun e => (hstored _ b hb).2 (Fin.ext e)
      exact Nat.lt_of_le_of_ne (Nat.le_of_lt_succ (hash k).isLt) hne

/-- After every sequence of operations the iteration ends, and it hands out each entry once
exactly if no stored key hashes to the first or to the last bucket. -/
theorem hash_iteration_exact_iff (hash : UInt64 → Fin HASH_SIZE) (p0 : Nat) (p1 : Option Ptr) (ops : List (Op V)) :
    ∃ rs t n l, runAll hash ops (drmHashCreate V p0 p1) = .ok (rs, t)
      ∧ (∀ k, n ≤ k → hashIterate k t = .ok l)
      ∧ (ExactlyOnce (specAll ops fun _ => none).2 l
        ↔ ∀ k, (specAll ops fun _ => none).2 k ≠ none → hash k ≠ 0 ∧ hash k ≠ 511) := by
  obtain ⟨⟨rs, t⟩, hrun, -, ⟨L, hs, hm⟩, -⟩ := runAll_spec hash ops
    (drmHashCreate_represents hash p0 p1) (drmHashCreate_counted p0 p1)
  exact ⟨rs, t, _, _, hrun, fun k hk => hashIterate_spec hs hk, pending_exact_iff hs hm⟩

/-- The key 0 hashes to bucket 0 and is handed out twice. -/
theorem hash_iteration_zeroKey : ∃ rs t l, runAll hashHash [.insert 0 7] (drmHashCreate Nat 0 none) = .ok (rs, t)
    ∧ hashIterate 3 t = .ok l ∧ ¬ ExactlyOnce (specAll [.insert 0 7] fun _ => none).2 l := by
  refine ⟨_, _, [(0, 7), (0, 7)], rfl, by decide +kernel, ?_⟩
  rintro ⟨hnd, -⟩
  exact absurd hnd (by decide)

end LibDrm.Hash
