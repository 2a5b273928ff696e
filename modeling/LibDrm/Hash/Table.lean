/-
# `LibDrm.Hash.Table` — the hash table of `xf86drmHash.c`

A table of 512 buckets, each a singly linked chain of entries.  `HashFind`,
with which every operation starts, moves the entry that it finds to the front
of its chain; `drmHashDelete` relies on that.

`Shape hash t L` says which nodes stand on which chain.  `hashFind_spec` says
that a search only reorders one chain.  From it, and from what each of the
three operations does to the front of one chain, follows that the table is a
map (`hash_table_refines_map`), whatever the hash function.
-/
import LibDrm.Lib.SList
import LibDrm.Lib.Returns
import Mathlib.Data.List.Perm.Basic
import Mathlib.Algebra.Order.Ring.Nat

namespace LibDrm.Hash

open SList

def HASH_MAGIC : UInt64 := 0xdeadbeef

/-- `HASH_SIZE`. -/
abbrev HASH_SIZE : Nat := 512

abbrev Ptr := Nat

/-- `HashBucket`: an entry of the table. -/
structure HashBucket (V : Type) where
  key : UInt64
  value : V
  next : Option Ptr

/-- `HashTable`, with the memory that its entries are in.  `p0` and `p1` are the position of an
iteration. -/
structure HashTable (V : Type) where
  magic : UInt64
  hits : UInt64
  partials : UInt64
  misses : UInt64
  buckets : Fin HASH_SIZE → Option Ptr
  p0 : Nat
  p1 : Option Ptr
  mem : Ptr → Option (HashBucket V)
  fresh : Ptr

inductive Fault
  | badPointer
  | outOfFuel
  deriving DecidableEq, Repr

variable {V : Type}

def deref {α : Type} (o : Option α) : Except Fault α := o.elim (.error .badPointer) .ok

/-- `bucket->next = next`. -/
def HashTable.setNext (b : Ptr) (next : Option Ptr) (t : HashTable V) : Except Fault (HashTable V) := do
  let n ← deref (t.mem b)
  return { t with mem := Function.update t.mem b (some { n with next := next }) }

/-! ## The hash function -/

/-- `drmRandom`: the next value of the generator. -/
def drmRandom (seed : Int) : Int :=
  let hi := seed / 44488
  let lo := seed % 44488
  let seed := 48271 * lo - 3399 * hi
  if seed ≤ 0 then seed + 2147483647 else seed

/-- The table `scatter` of `HashHash`, filled from the seed 37. -/
def scatter (i : Nat) : UInt64 := UInt64.ofInt (drmRandom^[i + 1] 37)

/-- The loop of `HashHash` over the bytes of the key; a key has eight. -/
def hashBytes : Nat → UInt64 → UInt64 → UInt64
  | 0, _, hash => hash
  | k + 1, tmp, hash =>
      if tmp = 0 then hash
      else hashBytes k (tmp >>> 8) ((hash <<< 1) + scatter (tmp &&& 0xff).toNat)

/-- `HashHash`. -/
def hashHash (key : UInt64) : Fin HASH_SIZE :=
  ⟨(hashBytes 8 key 0).toNat % HASH_SIZE, Nat.mod_lt _ (by decide)⟩

/-! ## The operations -/

/-- `drmHashCreate`; the position of an iteration is not initialised. -/
def drmHashCreate (V : Type) (p0 : Nat) (p1 : Option Ptr) : HashTable V where
  magic := HASH_MAGIC
  hits := 0
  partials := 0
  misses := 0
  buckets := fun _ => none
  p0 := p0
  p1 := p1
  mem := fun _ => none
  fresh := 0

section Operations

variable (hash : UInt64 → Fin HASH_SIZE)

/-- The loop of `HashFind` along the chain `h`. -/
def hashFindLoop (h : Fin HASH_SIZE) (key : UInt64) (t : HashTable V) :
    Nat → Option Ptr → Option Ptr → Except Fault (Option Ptr × HashTable V)
  | 0, _, _ => .error .outOfFuel
  | _ + 1, _, none => .ok (none, { t with misses := t.misses + 1 })
  | k + 1, prev, some b => do
      let n ← deref (t.mem b)
      if n.key = key then
        match prev with
        | some p => do
            let t ← t.setNext p n.next
            let t ← t.setNext b (t.buckets h)
            return (some b, { t with
              buckets := Function.update t.buckets h (some b), partials := t.partials + 1 })
        | none => return (some b, { t with hits := t.hits + 1 })
      else hashFindLoop h key t k (some b) n.next

/-- `HashFind`. -/
def hashFind (key : UInt64) (t : HashTable V) : Except Fault (Option Ptr × HashTable V) :=
  hashFindLoop (hash key) key t (t.fresh + 1) none (t.buckets (hash key))

/-- `drmHashLookup`: the return code, and the value where one is stored through the pointer. -/
def drmHashLookup (key : UInt64) (t : HashTable V) : Except Fault ((Int × Option V) × HashTable V) :=
  if t.magic ≠ HASH_MAGIC then .ok ((-1, none), t)
  else do
    let (bucket, t) ← hashFind hash key t
    match bucket with
    | none => return ((1, none), t)
    | some b => do
        let n ← deref (t.mem b)
        return ((0, some n.value), t)

/-- `drmHashInsert`. -/
def drmHashInsert (allocOk : Bool) (key : UInt64) (value : V) (t : HashTable V) :
    Except Fault (Int × HashTable V) :=
  if t.magic ≠ HASH_MAGIC then .ok (-1, t)
  else do
    let (bucket, t) ← hashFind hash key t
    match bucket with
    | some _ => return (1, t)
    | none =>
        if !allocOk then return (-1, t)
        else
          let h := hash key
          return (0, { t with
            mem := Function.update t.mem t.fresh (some ⟨key, value, t.buckets h⟩)
            buckets := Function.update t.buckets h (some t.fresh)
            fresh := t.fresh + 1 })

/-- `drmHashDelete`. -/
def drmHashDelete (key : UInt64) (t : HashTable V) : Except Fault (Int × HashTable V) :=
  if t.magic ≠ HASH_MAGIC then .ok (-1, t)
  else do
    let (bucket, t) ← hashFind hash key t
    match bucket with
    | none => return (1, t)
    | some b => do
        let n ← deref (t.mem b)
        return (0, { t with
          buckets := Function.update t.buckets (hash key) n.next
          mem := Function.update t.mem b none })

end Operations

/-! ## The chains -/

namespace HashTable

/-- The pointers of the chains, the keys and the values, as functions of the node. -/
def nxt (t : HashTable V) (b : Ptr) : Option Ptr := (t.mem b).bind HashBucket.next

def key (t : HashTable V) (b : Ptr) : Option UInt64 := (t.mem b).map HashBucket.key

def value (t : HashTable V) (b : Ptr) : Option V := (t.mem b).map HashBucket.value

end HashTable

/-- The nodes `L i` stand on the chain of the bucket `i`: they are entries whose keys hash to `i`,
and no key is there twice. -/
structure Shape (hash : UInt64 → Fin HASH_SIZE) (t : HashTable V) (L : Fin HASH_SIZE → List Ptr) : Prop where
  magic : t.magic = HASH_MAGIC
  chain : ∀ i, Chain t.nxt (t.buckets i) (L i)
  hashed : ∀ i, ∀ b ∈ L i, ∃ k, t.key b = some k ∧ hash k = i
  keys : ∀ i, ((L i).map t.key).Nodup
  known : ∀ b, (t.mem b).isSome → b < t.fresh

/-- The entries on the chains `L` are those of the map `m`. -/
def Stands (hash : UInt64 → Fin HASH_SIZE) (t : HashTable V) (L : Fin HASH_SIZE → List Ptr)
    (m : UInt64 → Option V) : Prop :=
  ∀ k v, m k = some v ↔ ∃ b ∈ L (hash k), t.key b = some k ∧ t.value b = some v

/-- The table has chains and stands for the map. -/
def Represents (hash : UInt64 → Fin HASH_SIZE) (t : HashTable V) (m : UInt64 → Option V) : Prop :=
  ∃ L, Shape hash t L ∧ Stands hash t L m

variable {hash : UInt64 → Fin HASH_SIZE} {t : HashTable V} {L : Fin HASH_SIZE → List Ptr}

@[simp] theorem deref_some {α : Type} (a : α) : deref (some a) = .ok a := rfl

@[simp] theorem ok_bind {α β : Type} (a : α) (f : α → Except Fault β) : (Except.ok a >>= f) = f a := rfl

theorem Shape.alloc (h : Shape hash t L) {i : Fin HASH_SIZE} {b : Ptr} (hb : b ∈ L i) : ∃ n, t.mem b = some n := by
  obtain ⟨k, hk, -⟩ := h.hashed i b hb
  obtain ⟨n, hn, -⟩ := Option.map_eq_some_iff.mp hk
  exact ⟨n, hn⟩

theorem Shape.length_le (h : Shape hash t L) (i : Fin HASH_SIZE) : (L i).length ≤ t.fresh := by
  have hsub : L i ⊆ List.range t.fresh := fun b hb => by
    obtain ⟨n, hn⟩ := h.alloc hb
    exact List.mem_range.mpr (h.known b (by simp [hn]))
  have hle := (List.subperm_of_subset (h.chain i).nodup hsub).length_le
  rwa [List.length_range] at hle

/-- A node stands on one chain only. -/
theorem Shape.disjoint (h : Shape hash t L) {i j : Fin HASH_SIZE} {b : Ptr} (hi : b ∈ L i) (hj : b ∈ L j) : i = j := by
  obtain ⟨k, hk, rfl⟩ := h.hashed i b hi
  obtain ⟨k', hk', rfl⟩ := h.hashed j b hj
  rw [hk] at hk'
  rw [Option.some.inj hk']

/-! ## Move to front -/

/-- One write of a `next` pointer. -/
theorem setNext_ok {b : Ptr} {n : HashBucket V} (hb : t.mem b = some n) (p : Option Ptr) :
    ∃ t', t.setNext b p = .ok t' ∧ t'.nxt = Function.update t.nxt b p ∧ t'.key = t.key ∧ t'.value = t.value
      ∧ (∀ c, (t'.mem c).isSome = (t.mem c).isSome) ∧ t' = { t with mem := t'.mem } := by
  refine ⟨{ t with mem := Function.update t.mem b (some { n with next := p }) }, by simp [HashTable.setNext, hb],
    ?_, ?_, ?_, ?_, rfl⟩
  · funext c
    by_cases hc : c = b
    · simp [HashTable.nxt, hc]
    · simp [HashTable.nxt, hc]
  · funext c
    by_cases hc : c = b
    · simp [HashTable.key, hc, hb]
    · simp [HashTable.key, hc]
  · funext c
    by_cases hc : c = b
    · simp [HashTable.value, hc, hb]
    · simp [HashTable.value, hc]
  · intro c
    by_cases hc : c = b
    · simp [hc, hb]
    · simp [hc]

/-- The counters after `n` searches. -/
def Counted (t : HashTable V) (n : Nat) : Prop :=
  ∃ h p m, h + p + m = n ∧ t.hits = UInt64.ofNat h ∧ t.partials = UInt64.ofNat p ∧ t.misses = UInt64.ofNat m

/-- What a search for `key` does: one chain is reordered, the entry that was found is its first,
and the search is counted. -/
structure Found (hash : UInt64 → Fin HASH_SIZE) (key : UInt64) (t : HashTable V) (L : Fin HASH_SIZE → List Ptr)
    (found : Option Ptr) (t' : HashTable V) (L' : Fin HASH_SIZE → List Ptr) : Prop where
  shape : Shape hash t' L'
  perm : ∀ i, (L' i).Perm (L i)
  keys : t'.key = t.key
  values : t'.value = t.value
  counted : ∀ n, Counted t n → Counted t' (n + 1)
  absent : found = none → ∀ b ∈ L (hash key), t.key b ≠ some key
  first : ∀ b, found = some b → t.key b = some key ∧ ∃ l, L' (hash key) = b :: l

/-- Nothing else is reordered: the entry that was found goes to the front of the others, and the
position of an iteration stays. -/
structure Moved (hash : UInt64 → Fin HASH_SIZE) (key : UInt64) (t : HashTable V) (L : Fin HASH_SIZE → List Ptr)
    (found : Option Ptr) (t' : HashTable V) (L' : Fin HASH_SIZE → List Ptr) : Prop
    extends Found hash key t L found t' L' where
  order : L' = found.elim L fun b => Function.update L (hash key) (b :: (L (hash key)).erase b)
  p0 : t'.p0 = t.p0
  p1 : t'.p1 = t.p1

/-- The entry `b` behind the nodes `a :: A` of its chain is moved to the front. -/
theorem moveToFront_spec (h : Shape hash t L) {i : Fin HASH_SIZE} {a b p : Ptr} {A B : List Ptr}
    (hL : L i = a :: (A ++ b :: B)) (hp : p ∈ (a :: A).getLast?) {n : HashBucket V} (hn : t.mem b = some n) :
    ∃ t₁ t₂, t.setNext p n.next = .ok t₁ ∧ t₁.setNext b (t₁.buckets i) = .ok t₂
      ∧ t₂.key = t.key ∧ t₂.value = t.value ∧ t₂ = { t with mem := t₂.mem }
      ∧ ∀ x y z, Shape hash { t₂ with
          buckets := Function.update t₂.buckets i (some b), hits := x, partials := y, misses := z }
        (Function.update L i (b :: a :: (A ++ B))) := by
  have hchain := h.chain i
  rw [hL] at hchain
  have hnd := hchain.nodup
  have hpA : p ∈ a :: A := List.mem_of_getLast? hp
  have hpL : p ∈ L i := hL ▸ List.mem_append_left (b :: B) hpA
  have hbL : b ∈ L i := by rw [hL]; simp
  obtain ⟨np, hnp⟩ := h.alloc hpL
  obtain ⟨t₁, hrun₁, hnxt₁, hkey₁, hval₁, hall₁, heq₁⟩ := setNext_ok hnp n.next
  obtain ⟨n₁, hn₁⟩ := Option.isSome_iff_exists.mp (show (t₁.mem b).isSome by rw [hall₁, hn]; rfl)
  obtain ⟨t₂, hrun₂, hnxt₂, hkey₂, hval₂, hall₂, heq₂⟩ := setNext_ok hn₁ (t₁.buckets i)
  have hbuckets : t₁.buckets = t.buckets := by rw [heq₁]
  have heq : t₂ = { t with mem := t₂.mem } := by rw [heq₂, heq₁]
  have hnb : t.nxt b = n.next := by simp [HashTable.nxt, hn]
  have hb₀ : b ∉ a :: (A ++ B) := by
    have hnd' : ((a :: A) ++ b :: B).Nodup := hnd
    exact (List.nodup_cons.mp (List.nodup_middle.mp hnd')).1
  have hstart : t.buckets i = some a := hchain.1
  refine ⟨t₁, t₂, hrun₁, hrun₂, hkey₂.trans hkey₁, hval₂.trans hval₁, heq, fun x y z => ?_⟩
  have hkey : t₂.key = t.key := hkey₂.trans hkey₁
  have hnxt : t₂.nxt = Function.update (Function.update t.nxt p (t.nxt b)) b (some a) := by
    rw [hnxt₂, hnxt₁, hbuckets, hstart, hnb]
  refine ⟨by rw [heq]; exact h.magic, fun j => ?_, fun j c hc => ?_, fun j => ?_, fun c hc => ?_⟩
  · show Chain t₂.nxt (Function.update t₂.buckets i (some b) j) _
    rw [hnxt]
    by_cases hj : j = i
    · subst hj
      rw [Function.update_self, Function.update_self]
      have hcut := Chain.remove hchain.2 hp hnd
      refine ⟨rfl, Function.update_self .., ?_⟩
      have hab : a ≠ b := fun e => hb₀ (by simp [← e])
      rw [Function.update_of_ne hab]
      refine Seg.congr (fun c hc => ?_) hcut
      have hcb : c ≠ b := fun e => hb₀ (List.mem_cons_of_mem _ (e ▸ hc))
      rw [Function.update_of_ne hcb]
    · rw [Function.update_of_ne hj, Function.update_of_ne hj, heq]
      refine Seg.congr (fun c hc => ?_) (h.chain j)
      have hcb : c ≠ b := fun e => hj (h.disjoint hc (e ▸ hbL))
      have hcp : c ≠ p := fun e => hj (h.disjoint hc (e ▸ hpL))
      rw [Function.update_of_ne hcb, Function.update_of_ne hcp]
  · show ∃ k, t₂.key c = some k ∧ _
    rw [hkey]
    by_cases hj : j = i
    · subst hj
      rw [Function.update_self] at hc
      refine h.hashed j c ?_
      rw [hL]
      simp only [List.mem_cons, List.mem_append] at hc ⊢
      tauto
    · rw [Function.update_of_ne hj] at hc
      exact h.hashed j c hc
  · show ((Function.update L i (b :: a :: (A ++ B)) j).map t₂.key).Nodup
    rw [hkey]
    by_cases hj : j = i
    · subst hj
      rw [Function.update_self]
      have hperm : (b :: a :: (A ++ B)).Perm (L j) := by
        rw [hL]
        exact (List.perm_middle : ((a :: A) ++ b :: B).Perm _).symm
      exact (hperm.map _).nodup_iff.mpr (h.keys j)
    · rw [Function.update_of_ne hj]
      exact h.keys j
  · rw [heq]
    refine h.known c ?_
    replace hc : (t₂.mem c).isSome := hc
    rwa [hall₂, hall₁] at hc

/-- `HashFind` from the middle of the chain on: the nodes `A` were not it. -/
theorem hashFindLoop_spec (h : Shape hash t L) (key : UInt64) :
    ∀ (B A : List Ptr) (k : Nat), L (hash key) = A ++ B → (∀ b ∈ A, t.key b ≠ some key) → B.length < k →
      Returns (hashFindLoop (hash key) key t k A.getLast? B.head?) fun r => ∃ L', Moved hash key t L r.1 r.2 L' := by
  intro B
  induction B with
  | nil =>
      intro A k hL hA hk
      obtain ⟨k, rfl⟩ := Nat.exists_eq_succ_of_ne_zero (Nat.ne_of_gt hk)
      refine .ok ⟨L, ⟨⟨h.magic, h.chain, h.hashed, h.keys, h.known⟩, fun i => .refl _, rfl, rfl, ?_, ?_, nofun⟩,
        rfl, rfl, rfl⟩
      · rintro n ⟨x, y, z, rfl, hx, hy, hz⟩
        exact ⟨x, y, z + 1, rfl, hx, hy, by simp [hz, UInt64.ofNat_add]⟩
      · rintro - b hb
        rw [hL, List.append_nil] at hb
        exact hA b hb
  | cons b B ih =>
      intro A k hL hA hk
      obtain ⟨k, rfl⟩ := Nat.exists_eq_succ_of_ne_zero (Nat.ne_of_gt (Nat.zero_lt_of_lt hk))
      have hbL : b ∈ L (hash key) := by rw [hL]; simp
      obtain ⟨n, hn⟩ := h.alloc hbL
      have hnkey : t.key b = some n.key := by simp [HashTable.key, hn]
      simp only [List.head?_cons, hashFindLoop, hn, deref_some, ok_bind]
      split
      case isTrue hkey =>
        have hbkey : t.key b = some key := by rw [hnkey, hkey]
        cases A with
        | nil =>
            refine .ok ⟨L, ⟨⟨h.magic, h.chain, h.hashed, h.keys, h.known⟩, fun i => .refl _, rfl, rfl, ?_, nofun, ?_⟩,
              ?_, rfl, rfl⟩
            · rintro n ⟨x, y, z, rfl, hx, hy, hz⟩
              exact ⟨x + 1, y, z, by omega, by simp [hx, UInt64.ofNat_add], hy, hz⟩
            · rintro c ⟨⟩
              exact ⟨hbkey, B, hL⟩
            · have hself : b :: (L (hash key)).erase b = L (hash key) := by
                rw [hL, List.nil_append, List.erase_cons_head]
              rw [Option.elim_some, hself, Function.update_eq_self]
        | cons a A =>
            obtain ⟨p, hp⟩ : ∃ p, (a :: A).getLast? = some p :=
              ⟨_, List.getLast?_eq_some_getLast (List.cons_ne_nil a A)⟩
            obtain ⟨t₁, t₂, hrun₁, hrun₂, hk₂, hv₂, heq, hshape⟩ := moveToFront_spec h hL hp hn
            simp only [hp, hrun₁, hrun₂, ok_bind]
            refine .ok ⟨_, ⟨hshape _ _ _, fun i => ?_, hk₂, hv₂, ?_, nofun, ?_⟩, ?_, ?_, ?_⟩
            · by_cases hi : i = hash key
              · subst hi
                rw [Function.update_self, hL]
                exact (List.perm_middle : ((a :: A) ++ b :: B).Perm _).symm
              · rw [Function.update_of_ne hi]
            · rintro n ⟨x, y, z, rfl, hx, hy, hz⟩
              refine ⟨x, y + 1, z, by omega, ?_, ?_, ?_⟩
              · rw [heq]; exact hx
              · rw [heq]; simp [hy, UInt64.ofNat_add]
              · rw [heq]; exact hz
            · rintro c ⟨⟩
              exact ⟨hbkey, a :: (A ++ B), Function.update_self ..⟩
            · have hb₀ : b ∉ a :: A := fun hb => hA b hb hbkey
              rw [Option.elim_some, hL, List.erase_append_right _ hb₀, List.erase_cons_head]
              rfl
            · rw [heq]
            · rw [heq]
      case isFalse hkey =>
        have hnext : n.next = B.head? := by
          have hchain := h.chain (hash key)
          rw [hL] at hchain
          obtain ⟨r, -, -, htail⟩ := (seg_append).mp hchain
          have : t.nxt b = B.head? := Chain.start htail
          simpa [HashTable.nxt, hn] using this
        have := ih (A ++ [b]) k (by simp [hL]) ?_ (by simpa using hk)
        · simpa [hnext] using this
        · intro c hc
          rcases List.mem_append.mp hc with hc | hc
          · exact hA c hc
          · rw [List.mem_singleton.mp hc, hnkey]
            exact fun e => hkey (Option.some.inj e)

theorem hashFind_moved (h : Shape hash t L) (key : UInt64) :
    Returns (hashFind hash key t) fun r => ∃ L', Moved hash key t L r.1 r.2 L' := by
  have hstart : t.buckets (hash key) = (L (hash key)).head? := Chain.start (h.chain _)
  unfold hashFind
  rw [hstart]
  exact hashFindLoop_spec h key (L (hash key)) [] _ rfl nofun (Nat.lt_succ_of_le (h.length_le _))

theorem hashFind_spec (h : Shape hash t L) (key : UInt64) :
    Returns (hashFind hash key t) fun r => ∃ L', Found hash key t L r.1 r.2 L' :=
  (hashFind_moved h key).mono fun _ ⟨L', hm⟩ => ⟨L', hm.toFound⟩

/-! ## The table is a map -/

/-- An operation on the table. -/
inductive Op (V : Type)
  | insert (key : UInt64) (value : V)
  | lookup (key : UInt64)
  | delete (key : UInt64)

/-- What an operation returns: its code, and for a lookup the value. -/
abbrev Result (V : Type) := Int × Option V

/-- One operation on the table; allocations succeed. -/
def Op.run (hash : UInt64 → Fin HASH_SIZE) (t : HashTable V) : Op V → Except Fault (Result V × HashTable V)
  | .insert key value => do
      let (r, t) ← drmHashInsert hash true key value t
      return ((r, none), t)
  | .lookup key => drmHashLookup hash key t
  | .delete key => do
      let (r, t) ← drmHashDelete hash key t
      return ((r, none), t)

def runAll (hash : UInt64 → Fin HASH_SIZE) : List (Op V) → HashTable V → Except Fault (List (Result V) × HashTable V)
  | [], t => .ok ([], t)
  | op :: ops, t => do
      let (r, t) ← op.run hash t
      let (rs, t) ← runAll hash ops t
      return (r :: rs, t)

/-- The same operation on a map. -/
def Op.spec (m : UInt64 → Option V) : Op V → Result V × (UInt64 → Option V)
  | .insert key value =>
      match m key with
      | none => ((0, none), Function.update m key (some value))
      | some _ => ((1, none), m)
  | .lookup key =>
      match m key with
      | none => ((1, none), m)
      | some v => ((0, some v), m)
  | .delete key =>
      match m key with
      | none => ((1, none), m)
      | some _ => ((0, none), Function.update m key none)

def specAll : List (Op V) → (UInt64 → Option V) → List (Result V) × (UInt64 → Option V)
  | [], m => ([], m)
  | op :: ops, m =>
      let (r, m) := op.spec m
      let (rs, m) := specAll ops m
      (r :: rs, m)

variable {m : UInt64 → Option V}

/-- A search does not change the map. -/
theorem Found.stands {key : UInt64} {found : Option Ptr} {t' : HashTable V} {L' : Fin HASH_SIZE → List Ptr}
    (h : Found hash key t L found t' L') (hm : Stands hash t L m) : Stands hash t' L' m := by
  intro k v
  rw [hm k v, h.keys, h.values]
  simp only [(h.perm (hash k)).mem_iff]

/-- What was found is what the map has. -/
theorem Found.lookup {key : UInt64} {found : Option Ptr} {t' : HashTable V} {L' : Fin HASH_SIZE → List Ptr}
    (h : Found hash key t L found t' L') (hm : Stands hash t L m) :
    (found = none ∧ m key = none)
    ∨ ∃ b n l, found = some b ∧ t'.mem b = some n ∧ n.key = key ∧ m key = some n.value ∧ L' (hash key) = b :: l := by
  cases found with
  | none =>
      refine .inl ⟨rfl, ?_⟩
      cases hk : m key with
      | none => rfl
      | some v =>
          obtain ⟨b, hb, hbk, -⟩ := (hm key v).mp hk
          exact absurd hbk (h.absent rfl b hb)
  | some b =>
      obtain ⟨hbk, l, hl⟩ := h.first b rfl
      obtain ⟨n, hn⟩ := h.shape.alloc (i := hash key) (b := b) (by simp [hl])
      have hk' : t'.key b = some n.key := by simp [HashTable.key, hn]
      have hkey : n.key = key := by
        rw [h.keys, hbk] at hk'
        exact (Option.some.inj hk').symm
      refine .inr ⟨b, n, l, rfl, hn, hkey, ?_, hl⟩
      refine ((h.stands hm) key n.value).mpr ⟨b, by simp [hl], ?_, by simp [HashTable.value, hn]⟩
      rw [hk', hkey]

section Insert

variable {key : UInt64}

/-- A new entry is not on a chain yet. -/
theorem Shape.fresh_notMem (h : Shape hash t L) (i : Fin HASH_SIZE) : t.fresh ∉ L i := fun hmem => by
  obtain ⟨n, hn⟩ := h.alloc hmem
  exact absurd (h.known t.fresh (by simp [hn])) (lt_irrefl _)

/-- The entries on the chains are left alone. -/
theorem Shape.insert_mem (h : Shape hash t L) (value : V) {i : Fin HASH_SIZE} {b : Ptr} (hb : b ∈ L i) :
    Function.update t.mem t.fresh (some ⟨key, value, t.buckets (hash key)⟩) b = t.mem b :=
  Function.update_of_ne (ne_of_mem_of_not_mem hb (h.fresh_notMem i)) ..

/-- A new entry at the front of its chain. -/
theorem insert_shape (h : Shape hash t L) (hkey : ∀ b ∈ L (hash key), t.key b ≠ some key) (value : V) :
    Shape hash { t with
      mem := Function.update t.mem t.fresh (some ⟨key, value, t.buckets (hash key)⟩)
      buckets := Function.update t.buckets (hash key) (some t.fresh)
      fresh := t.fresh + 1 } (Function.update L (hash key) (t.fresh :: L (hash key))) := by
  set t' : HashTable V := { t with
    mem := Function.update t.mem t.fresh (some ⟨key, value, t.buckets (hash key)⟩)
    buckets := Function.update t.buckets (hash key) (some t.fresh)
    fresh := t.fresh + 1 } with ht'
  have hold : ∀ {i b}, b ∈ L i → t'.mem b = t.mem b := fun hb => h.insert_mem value hb
  have hnew : t'.mem t.fresh = some ⟨key, value, t.buckets (hash key)⟩ := by simp [ht']
  have hkeyOld : ∀ i, ∀ b ∈ L i, t'.key b = t.key b := fun i b hb => by simp [HashTable.key, hold hb]
  have hkeyNew : t'.key t.fresh = some key := by simp [HashTable.key, hnew]
  have hchainOld : ∀ i, Chain t'.nxt (t.buckets i) (L i) := fun i =>
    Seg.congr (fun b hb => by simp [HashTable.nxt, hold hb]) (h.chain i)
  refine ⟨h.magic, fun i => ?_, fun i b hb => ?_, fun i => ?_, fun b hb => ?_⟩
  · show Chain t'.nxt (Function.update t.buckets (hash key) (some t.fresh) i) _
    by_cases hi : i = hash key
    · subst hi
      rw [Function.update_self, Function.update_self]
      refine ⟨rfl, ?_⟩
      have hnext : t'.nxt t.fresh = t.buckets (hash key) := by simp [HashTable.nxt, hnew]
      rw [hnext]
      exact hchainOld _
    · rw [Function.update_of_ne hi, Function.update_of_ne hi]
      exact hchainOld i
  · by_cases hi : i = hash key
    · subst hi
      rw [Function.update_self] at hb
      rcases List.mem_cons.mp hb with rfl | hb
      · exact ⟨key, hkeyNew, rfl⟩
      · rw [hkeyOld _ b hb]; exact h.hashed _ b hb
    · rw [Function.update_of_ne hi] at hb
      rw [hkeyOld _ b hb]; exact h.hashed _ b hb
  · by_cases hi : i = hash key
    · subst hi
      rw [Function.update_self, List.map_cons, List.map_congr_left (hkeyOld _), hkeyNew]
      refine List.nodup_cons.mpr ⟨fun hmem => ?_, h.keys _⟩
      obtain ⟨b, hb, hbk⟩ := List.mem_map.mp hmem
      exact hkey b hb hbk
    · rw [Function.update_of_ne hi, List.map_congr_left (hkeyOld i)]
      exact h.keys i
  · show b < t.fresh + 1
    by_cases hbf : b = t.fresh
    · exact hbf ▸ Nat.lt_succ_self _
    · replace hb : (Function.update t.mem t.fresh _ b).isSome := hb
      rw [Function.update_of_ne hbf] at hb
      exact Nat.lt_succ_of_lt (h.known b hb)

theorem insert_represents (h : Shape hash t L) (hm : Stands hash t L m) (hkey : m key = none) (value : V) :
    Represents hash { t with
      mem := Function.update t.mem t.fresh (some ⟨key, value, t.buckets (hash key)⟩)
      buckets := Function.update t.buckets (hash key) (some t.fresh)
      fresh := t.fresh + 1 } (Function.update m key (some value)) := by
  have habsent : ∀ b ∈ L (hash key), t.key b ≠ some key := fun b hb hbk => by
    obtain ⟨n, hn⟩ := h.alloc hb
    have := (hm key n.value).mpr ⟨b, hb, hbk, by simp [HashTable.value, hn]⟩
    rw [hkey] at this
    cases this
  refine ⟨_, insert_shape h habsent value, fun k v => ?_⟩
  set t' : HashTable V := { t with
    mem := Function.update t.mem t.fresh (some ⟨key, value, t.buckets (hash key)⟩)
    buckets := Function.update t.buckets (hash key) (some t.fresh)
    fresh := t.fresh + 1 } with ht'
  have hnew : t'.mem t.fresh = some ⟨key, value, t.buckets (hash key)⟩ := by simp [ht']
  have hkeyNew : t'.key t.fresh = some key := by simp [HashTable.key, hnew]
  have hold : ∀ i, ∀ b ∈ L i, t'.key b = t.key b ∧ t'.value b = t.value b := fun i b hb => by
    have hmem : t'.mem b = t.mem b := h.insert_mem value hb
    rw [HashTable.key, HashTable.value, hmem]
    exact ⟨rfl, rfl⟩
  by_cases hk : k = key
  · subst hk
    rw [Function.update_self, Function.update_self]
    constructor
    · rintro ⟨⟩
      exact ⟨t.fresh, List.mem_cons_self .., hkeyNew, by simp [HashTable.value, hnew]⟩
    · rintro ⟨b, hb, hbk, hbv⟩
      rcases List.mem_cons.mp hb with rfl | hb
      · simpa [HashTable.value, hnew] using hbv
      · exact absurd ((hold _ b hb).1.symm.trans hbk) (habsent b hb)
  · rw [Function.update_of_ne hk, hm k v]
    constructor
    · rintro ⟨b, hb, hbk, hbv⟩
      refine ⟨b, ?_, (hold _ b hb).1.trans hbk, (hold _ b hb).2.trans hbv⟩
      by_cases hi : hash k = hash key
      · rw [hi, Function.update_self, ← hi]; exact List.mem_cons_of_mem _ hb
      · rwa [Function.update_of_ne hi]
    · rintro ⟨b, hb, hbk, hbv⟩
      have hb' : b ∈ L (hash k) := by
        by_cases hi : hash k = hash key
        · rw [hi, Function.update_self] at hb
          rcases List.mem_cons.mp hb with rfl | hb
          · rw [hkeyNew] at hbk
            exact absurd (Option.some.inj hbk).symm hk
          · rw [hi]; exact hb
        · rwa [Function.update_of_ne hi] at hb
      exact ⟨b, hb', (hold _ b hb').1.symm.trans hbk, (hold _ b hb').2.symm.trans hbv⟩

end Insert

section Delete

variable {key : UInt64} {b : Ptr} {n : HashBucket V} {l : List Ptr}

/-- The nodes that stay when the first entry of a chain is taken off. -/
theorem delete_stays (h : Shape hash t L) (hL : L (hash key) = b :: l) {i : Fin HASH_SIZE} {c : Ptr}
    (hc : c ∈ Function.update L (hash key) l i) : c ∈ L i ∧ c ≠ b := by
  by_cases hi : i = hash key
  · subst hi
    rw [Function.update_self] at hc
    have hnd := (h.chain (hash key)).nodup
    rw [hL] at hnd ⊢
    exact ⟨List.mem_cons_of_mem _ hc, ne_of_mem_of_not_mem hc (List.nodup_cons.mp hnd).1⟩
  · rw [Function.update_of_ne hi] at hc
    refine ⟨hc, fun e => hi ?_⟩
    exact h.disjoint (e ▸ hc) (by rw [hL]; exact List.mem_cons_self ..)

/-- The first entry of a chain is taken off and freed. -/
theorem delete_shape (h : Shape hash t L) (hL : L (hash key) = b :: l) (hn : t.mem b = some n) :
    Shape hash { t with
      buckets := Function.update t.buckets (hash key) n.next
      mem := Function.update t.mem b none } (Function.update L (hash key) l) := by
  have hold : ∀ i, ∀ c ∈ Function.update L (hash key) l i, Function.update t.mem b none c = t.mem c :=
    fun i c hc => Function.update_of_ne (delete_stays h hL hc).2 ..
  have hkey : ∀ i, ∀ c ∈ Function.update L (hash key) l i,
      (Function.update t.mem b none c).map HashBucket.key = t.key c := fun i c hc => by rw [hold i c hc]; rfl
  have hchain : ∀ i, Chain t.nxt (Function.update t.buckets (hash key) n.next i)
      (Function.update L (hash key) l i) := fun i => by
    by_cases hi : i = hash key
    · subst hi
      rw [Function.update_self, Function.update_self]
      have hnext : t.nxt b = n.next := by simp [HashTable.nxt, hn]
      have hc := h.chain (hash key)
      rw [hL] at hc
      rw [← hnext]
      exact hc.2
    · rw [Function.update_of_ne hi, Function.update_of_ne hi]
      exact h.chain i
  refine ⟨h.magic, fun i => ?_, fun i c hc => ?_, fun i => ?_, fun c hc => ?_⟩
  · refine Seg.congr (fun c hc => ?_) (hchain i)
    show (Function.update t.mem b none c).bind HashBucket.next = _
    rw [hold i c hc]
    rfl
  · obtain ⟨k, hk, hi⟩ := h.hashed i c (delete_stays h hL hc).1
    exact ⟨k, (hkey i c hc).trans hk, hi⟩
  · refine List.Nodup.sublist ?_ (h.keys i)
    show ((Function.update L (hash key) l i).map fun c => (Function.update t.mem b none c).map HashBucket.key).Sublist _
    rw [List.map_congr_left (hkey i)]
    refine List.Sublist.map _ ?_
    by_cases hi : i = hash key
    · subst hi
      rw [Function.update_self, hL]
      exact List.sublist_cons_self ..
    · rw [Function.update_of_ne hi]
  · refine h.known c ?_
    by_cases hcb : c = b
    · simp [hcb, hn]
    · simpa [hcb] using hc

theorem delete_represents (h : Shape hash t L) (hm : Stands hash t L m) (hL : L (hash key) = b :: l)
    (hn : t.mem b = some n) (hkey : n.key = key) :
    Represents hash { t with
      buckets := Function.update t.buckets (hash key) n.next
      mem := Function.update t.mem b none } (Function.update m key none) := by
  have hbk : t.key b = some key := by simp [HashTable.key, hn, hkey]
  refine ⟨_, delete_shape h hL hn, fun k v => ?_⟩
  -- the keys and values of the nodes that stay
  have hold : ∀ i, ∀ c ∈ Function.update L (hash key) l i,
      ((Function.update t.mem b none c).map HashBucket.key = t.key c)
      ∧ (Function.update t.mem b none c).map HashBucket.value = t.value c := fun i c hc => by
    rw [Function.update_of_ne (delete_stays h hL hc).2]
    exact ⟨rfl, rfl⟩
  by_cases hk : k = key
  · subst hk
    rw [Function.update_self]
    constructor
    · nofun
    · rintro ⟨c, hc, hck, -⟩
      replace hck := (hold _ c hc).1.symm.trans hck
      rw [Function.update_self] at hc
      have hnd := h.keys (hash k)
      rw [hL, List.map_cons, hbk, ← hck] at hnd
      exact absurd (List.mem_map_of_mem hc) (List.nodup_cons.mp hnd).1
  · rw [Function.update_of_ne hk, hm k v]
    constructor
    · rintro ⟨c, hc, hck, hcv⟩
      have hcb : c ≠ b := by
        rintro rfl
        rw [hbk] at hck
        exact hk (Option.some.inj hck).symm
      have hc' : c ∈ Function.update L (hash key) l (hash k) := by
        by_cases hi : hash k = hash key
        · rw [hi, hL] at hc
          rw [hi, Function.update_self]
          exact (List.mem_cons.mp hc).resolve_left hcb
        · rwa [Function.update_of_ne hi]
      exact ⟨c, hc', (hold _ c hc').1.trans hck, (hold _ c hc').2.trans hcv⟩
    · rintro ⟨c, hc, hck, hcv⟩
      exact ⟨c, (delete_stays h hL hc).1, (hold _ c hc).1.symm.trans hck, (hold _ c hc).2.symm.trans hcv⟩

end Delete

theorem Counted.congr {t' : HashTable V} {n : Nat} (h : Counted t n) (h₁ : t'.hits = t.hits)
    (h₂ : t'.partials = t.partials) (h₃ : t'.misses = t.misses) : Counted t' n := by
  obtain ⟨x, y, z, hn, hx, hy, hz⟩ := h
  exact ⟨x, y, z, hn, h₁.trans hx, h₂.trans hy, h₃.trans hz⟩

/-- One operation does what it does on the map, and searches once. -/
theorem Op.run_spec (hr : Represents hash t m) {n : Nat} (hc : Counted t n) (op : Op V) :
    Returns (op.run hash t) fun r => r.1 = (op.spec m).1 ∧ Represents hash r.2 (op.spec m).2 ∧ Counted r.2 (n + 1) := by
  obtain ⟨L, h, hm⟩ := hr
  have hmagic : ¬ t.magic ≠ HASH_MAGIC := not_not.mpr h.magic
  cases op with
  | insert key value =>
      simp only [Op.run, drmHashInsert, hmagic, if_false, bind_assoc]
      refine (hashFind_spec h key).bind ?_
      rintro ⟨found, t'⟩ ⟨L', (hf : Found hash key t L found t' L')⟩
      rcases hf.lookup hm with ⟨rfl, hk⟩ | ⟨b, n', l, rfl, -, -, hk, -⟩
      · refine .ok ⟨by simp [Op.spec, hk], ?_, (hf.counted n hc).congr rfl rfl rfl⟩
        simp only [Op.spec, hk]
        exact insert_represents hf.shape (hf.stands hm) hk value
      · refine .ok ⟨by simp [Op.spec, hk], ?_, hf.counted n hc⟩
        simp only [Op.spec, hk]
        exact ⟨L', hf.shape, hf.stands hm⟩
  | lookup key =>
      simp only [Op.run, drmHashLookup, hmagic, if_false]
      refine (hashFind_spec h key).bind ?_
      rintro ⟨found, t'⟩ ⟨L', (hf : Found hash key t L found t' L')⟩
      have hr' : Represents hash t' m := ⟨L', hf.shape, hf.stands hm⟩
      rcases hf.lookup hm with ⟨rfl, hk⟩ | ⟨b, n', l, rfl, hn', -, hk, -⟩
      · refine .ok ⟨by simp [Op.spec, hk], ?_, hf.counted n hc⟩
        simpa only [Op.spec, hk] using hr'
      · simp only [hn', deref_some, ok_bind]
        refine .ok ⟨by simp [Op.spec, hk], ?_, hf.counted n hc⟩
        simpa only [Op.spec, hk] using hr'
  | delete key =>
      simp only [Op.run, drmHashDelete, hmagic, if_false, bind_assoc]
      refine (hashFind_spec h key).bind ?_
      rintro ⟨found, t'⟩ ⟨L', (hf : Found hash key t L found t' L')⟩
      rcases hf.lookup hm with ⟨rfl, hk⟩ | ⟨b, n', l, rfl, hn', hkey, hk, hl⟩
      · refine .ok ⟨by simp [Op.spec, hk], ?_, hf.counted n hc⟩
        simp only [Op.spec, hk]
        exact ⟨L', hf.shape, hf.stands hm⟩
      · simp only [hn', deref_some, ok_bind]
        refine .ok ⟨by simp [Op.spec, hk], ?_, (hf.counted n hc).congr rfl rfl rfl⟩
        simp only [Op.spec, hk]
        exact delete_represents hf.shape (hf.stands hm) hl hn' hkey

theorem drmHashCreate_represents (hash : UInt64 → Fin HASH_SIZE) (p0 : Nat) (p1 : Option Ptr) :
    Represents hash (drmHashCreate V p0 p1) fun _ => none :=
  ⟨fun _ => [], ⟨rfl, fun _ => rfl, nofun, fun _ => List.nodup_nil, nofun⟩, fun k v => by simp⟩

theorem drmHashCreate_counted (p0 : Nat) (p1 : Option Ptr) : Counted (drmHashCreate V p0 p1) 0 :=
  ⟨0, 0, 0, rfl, rfl, rfl, rfl⟩

theorem runAll_spec (hash : UInt64 → Fin HASH_SIZE) (ops : List (Op V)) :
    ∀ {t : HashTable V} {m : UInt64 → Option V} {n : Nat}, Represents hash t m → Counted t n →
      Returns (runAll hash ops t) fun r => r.1 = (specAll ops m).1 ∧ Represents hash r.2 (specAll ops m).2
        ∧ Counted r.2 (n + ops.length) := by
  induction ops with
  | nil => exact fun hr hc => .ok ⟨rfl, hr, hc⟩
  | cons op ops ih =>
      intro t m n hr hc
      refine (Op.run_spec hr hc op).bind ?_
      rintro ⟨r, t₁⟩ ⟨hres, hr₁, hc₁⟩
      refine (ih hr₁ hc₁).bind ?_
      rintro ⟨rs, t₂⟩ ⟨hres₂, hr₂, hc₂⟩
      refine .ok ⟨?_, hr₂, ?_⟩
      · simp only [specAll, ← hres, ← hres₂]
      · rw [List.length_cons, Nat.add_comm ops.length 1, ← Nat.add_assoc]
        exact hc₂

theorem Counted.sum {n : Nat} (h : Counted t n) : t.hits + t.partials + t.misses = UInt64.ofNat n := by
  obtain ⟨x, y, z, rfl, hx, hy, hz⟩ := h
  rw [hx, hy, hz, UInt64.ofNat_add, UInt64.ofNat_add]

theorem Counted.sum_toNat {n : Nat} (h : Counted t n) (hn : n < 2 ^ 64) :
    t.hits.toNat + t.partials.toNat + t.misses.toNat = n := by
  obtain ⟨x, y, z, rfl, hx, hy, hz⟩ := h
  rw [hx, hy, hz, UInt64.toNat_ofNat', UInt64.toNat_ofNat', UInt64.toNat_ofNat',
    Nat.mod_eq_of_lt (by omega), Nat.mod_eq_of_lt (by omega), Nat.mod_eq_of_lt (by omega)]

/-- Every sequence of operations on a new table returns what it returns on a map, and leaves a
table that stands for the map that is left.  A search for any key changes nothing of that, and the
counters add up to the number of operations (in the arithmetic of `unsigned long`). -/
theorem hash_table_refines_map (hash : UInt64 → Fin HASH_SIZE) (p0 : Nat) (p1 : Option Ptr) (ops : List (Op V)) :
    ∃ rs t, runAll hash ops (drmHashCreate V p0 p1) = .ok (rs, t)
      ∧ rs = (specAll ops fun _ => none).1
      ∧ Represents hash t (specAll ops fun _ => none).2
      ∧ (∀ key, ∃ found t', hashFind hash key t = .ok (found, t')
        ∧ Represents hash t' (specAll ops fun _ => none).2)
      ∧ t.hits + t.partials + t.misses = UInt64.ofNat ops.length
      ∧ (ops.length < 2 ^ 64 → t.hits.toNat + t.partials.toNat + t.misses.toNat = ops.length) := by
  obtain ⟨⟨rs, t⟩, hrun, hres, hr, hc⟩ := runAll_spec hash ops
    (drmHashCreate_represents hash p0 p1) (drmHashCreate_counted p0 p1)
  rw [Nat.zero_add] at hc
  refine ⟨rs, t, hrun, hres, hr, fun key => ?_, hc.sum, hc.sum_toNat⟩
  obtain ⟨L, h, hm⟩ := hr
  obtain ⟨⟨found, t'⟩, hfind, L', hf⟩ := hashFind_spec h key
  exact ⟨found, t', hfind, L', hf.shape, hf.stands hm⟩

end LibDrm.Hash
