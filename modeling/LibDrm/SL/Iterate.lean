/-
# `LibDrm.SL.Iterate` — iterating over a skip list

`drmSLNext` moves the position `p0` on before it returns, so the caller may
delete the entry that it was just given: when `drmSLDelete` relinks the levels
around that entry, the position already stands behind it.

The loop of a caller, who deletes some of the keys right after each was
returned, is `slIterate`.  Whatever is deleted, it sees the entries of the list
in the order of their keys, each once (`skip_list_iteration`).
-/
import LibDrm.SL.Refine

namespace LibDrm.SL

open SList SkipList

/-! ## The functions -/

/-- `drmSLNext`: the return code, and the key and the value where they are stored. -/
def drmSLNext (l : SkipList) : Except Fault ((Int × Option (UInt64 × Option Addr)) × SkipList) :=
  if l.magic ≠ SL_LIST_MAGIC then .ok ((-1, none), l)
  else
    match l.p0 with
    | some entry => do
        let next ← l.fwd entry 0
        let e ← deref (l.mem entry)
        return ((1, some (e.key, e.value)), { l with p0 := next })
    | none => .ok ((0, none), { l with p0 := none })

/-- `drmSLFirst`. -/
def drmSLFirst (l : SkipList) : Except Fault ((Int × Option (UInt64 × Option Addr)) × SkipList) :=
  if l.magic ≠ SL_LIST_MAGIC then .ok ((-1, none), l)
  else do
    let p ← l.fwd l.head 0
    drmSLNext { l with p0 := p }

/-- One turn of a caller's loop: what was returned, the list at that time, and the list when the
caller asks for the next entry. -/
structure Visit where
  entry : UInt64 × Option Addr
  returned : SkipList
  left : SkipList

/-- The caller deletes the key if `del` says so. -/
def deleteIf (del : UInt64 → Bool) (key : UInt64) (l : SkipList) : Except Fault SkipList :=
  if del key then do
    let (_, l) ← drmSLDelete key l
    return l
  else .ok l

/-- A caller's loop from the result of a call on: a key is deleted right after it was returned
if `del` says so, and the loop ends when nothing was returned. -/
def slRest (del : UInt64 → Bool) :
    Nat → (Int × Option (UInt64 × Option Addr)) × SkipList → Except Fault (List Visit)
  | 0, _ => .error .outOfFuel
  | _ + 1, ((_, none), _) => .ok []
  | k + 1, ((_, some (key, value)), l) => do
      let l' ← deleteIf del key l
      let r ← drmSLNext l'
      let visits ← slRest del k r
      return ⟨(key, value), l, l'⟩ :: visits

/-- The loop from `drmSLFirst` on. -/
def slIterate (del : UInt64 → Bool) (k : Nat) (l : SkipList) : Except Fault (List Visit) := do
  let r ← drmSLFirst l
  slRest del k r

/-! ## The position -/

variable {l l' : SkipList} {xs P Q : List Addr} {x : Addr} {del : UInt64 → Bool}

/-- What an entry holds. -/
def SkipList.entry (l : SkipList) (x : Addr) : UInt64 × Option Addr := (l.key x, l.value x)

/-- The position is not on an entry that was freed. -/
def Live (l : SkipList) : Prop := ∀ x, l.p0 = some x → (l.mem x).isSome

/-- The entries `xs` stand on the list, and the position is on the first of `Q`. -/
structure At (l : SkipList) (P Q : List Addr) : Prop where
  inv : Inv l (P ++ Q)
  p0 : l.p0 = Q.head?

theorem Inv.move (h : Inv l xs) (p : Option Addr) : Inv { l with p0 := p } xs :=
  ⟨h.magic, h.headLevels, h.headOff, h.entryLevels, h.level_le, h.sorted, h.chain, h.known⟩

theorem At.live (h : At l P Q) : Live l := by
  intro x hx
  have hmem : x ∈ Q := List.mem_of_mem_head? (h.p0.symm.trans hx)
  obtain ⟨e, he⟩ := h.inv.alloc (List.mem_append_right P hmem)
  rw [he]
  rfl

/-- The chain of the lowest level has all entries. -/
theorem Inv.chain_zero (h : Inv l xs) : Chain (l.nxt 0) (l.nxt 0 l.head) xs := by
  have hchain := h.chain 0 (Nat.zero_le _)
  rwa [h.onLevel_zero (List.Subset.refl xs)] at hchain

theorem Inv.nxt_zero (h : Inv l (P ++ x :: Q)) : l.nxt 0 x = Q.head? := by
  obtain ⟨r, -, -, htail⟩ := (seg_append).mp h.chain_zero
  exact Chain.start htail

/-- Nothing is returned at the end of the list. -/
theorem At.next_nil (h : At l P []) : drmSLNext l = .ok ((0, none), { l with p0 := none }) := by
  have hp : l.p0 = none := h.p0
  unfold drmSLNext
  rw [if_neg (not_not.mpr h.inv.magic), hp]

/-- The first of the entries ahead is returned, and the position moves behind it. -/
theorem At.next_cons (h : At l P (x :: Q)) :
    drmSLNext l = .ok ((1, some (l.entry x)), { l with p0 := Q.head? }) := by
  have hx : x ∈ P ++ x :: Q := by simp
  obtain ⟨e, he⟩ := h.inv.alloc hx
  have hp : l.p0 = some x := h.p0
  unfold drmSLNext
  rw [if_neg (not_not.mpr h.inv.magic), hp]
  dsimp only
  rw [fwd_ok (h.inv.entryLevels x hx).1, ok_bind, he, deref_some, ok_bind, h.inv.nxt_zero]
  simp only [entry, key, value, he]
  rfl

theorem drmSLFirst_eq (h : Inv l xs) : drmSLFirst l = drmSLNext { l with p0 := xs.head? } := by
  unfold drmSLFirst
  rw [if_neg (not_not.mpr h.magic), fwd_ok (h.fwd_head (Nat.zero_le _)), ok_bind, Chain.start h.chain_zero]

/-! ## Deleting what was returned -/

/-- The keys before an entry are smaller, and those behind it greater. -/
theorem Inv.around (h : Inv l (P ++ x :: Q)) : (∀ y ∈ P, l.key y < l.key x) ∧ ∀ y ∈ Q, l.key x < l.key y := by
  obtain ⟨-, hxQ, hPQ⟩ := List.pairwise_append.mp h.sorted
  exact ⟨fun y hy => hPQ y hy x (List.mem_cons_self ..), (List.pairwise_cons.mp hxQ).1⟩

/-- The entry behind which the position stands is taken off, and nothing else. -/
theorem At.delete (h : Inv l (P ++ x :: Q)) (hp : l.p0 = Q.head?) :
    Returns (drmSLDelete (l.key x) l) fun r => At r.2 P Q ∧ ∀ y ∈ Q, r.2.entry y = l.entry y := by
  obtain ⟨hPx, hxQ⟩ := h.around
  refine (drmSLDelete_removes h (l.key x)).mono ?_
  rintro ⟨ret, l'⟩ (⟨P', Q', he, hP', hQ', -⟩ | ⟨P', x', Q', he, hk, -, hrem⟩)
  · exfalso
    rcases List.mem_append.mp (he ▸ (by simp : x ∈ P ++ x :: Q)) with hx | hx
    · exact UInt64.lt_irrefl _ (hP' x hx)
    · exact UInt64.lt_irrefl _ (hQ' x hx)
  · have hx' : x' ∈ P ++ x :: Q := by rw [he]; simp
    obtain rfl : x' = x := List.inj_on_of_nodup_map h.keys_nodup hx' (by simp) hk
    have hnd : (P ++ x' :: Q).Nodup := h.chain_zero.nodup
    have hnot : ∀ {A B : List Addr}, (A ++ x' :: B).Nodup → x' ∉ A ∧ x' ∉ B := fun hAB =>
      ⟨fun hA => (List.nodup_append.mp hAB).2.2 _ hA _ (List.mem_cons_self ..) rfl,
        (List.nodup_cons.mp (List.nodup_append.mp hAB).2.1).1⟩
    obtain ⟨rfl, -, rfl⟩ := (List.append_cons_inj_of_notMem (hnot hnd).1 (hnot hnd).2).mp he
    refine ⟨⟨hrem.inv, hrem.p0.trans hp⟩, fun y hy => ?_⟩
    simp only [entry]
    rw [hrem.key y (List.mem_append_right P hy), hrem.value y (List.mem_append_right P hy)]

/-- An entry was returned, and then it is deleted or not: the position is behind it. -/
theorem At.visit (h : Inv l (P ++ x :: Q)) (hp : l.p0 = Q.head?) (del : UInt64 → Bool) :
    Returns (deleteIf del (l.key x) l) fun l' => ∃ P', At l' P' Q ∧ ∀ y ∈ Q, l'.entry y = l.entry y := by
  unfold deleteIf
  split
  · exact (At.delete h hp).bind fun _ hr => .pure ⟨P, hr⟩
  · refine .ok ⟨P ++ [x], ⟨?_, hp⟩, fun _ _ => rfl⟩
    rwa [List.append_assoc]

/-- The loop sees the entries that are ahead, whatever it deletes. -/
theorem slRest_spec (del : UInt64 → Bool) (Q : List Addr) : ∀ {l : SkipList} {P : List Addr} {k : Nat}, At l P Q →
    Q.length < k → Returns (drmSLNext l >>= slRest del k) fun visits =>
      visits.map Visit.entry = Q.map l.entry ∧ ∀ v ∈ visits, Live v.returned ∧ Live v.left := by
  induction Q with
  | nil =>
      intro l P k h hk
      obtain ⟨k, rfl⟩ := Nat.exists_eq_succ_of_ne_zero (Nat.ne_of_gt hk)
      rw [h.next_nil, ok_bind]
      exact .ok ⟨rfl, nofun⟩
  | cons x Q ih =>
      intro l P k h hk
      obtain ⟨k, rfl⟩ := Nat.exists_eq_succ_of_ne_zero (Nat.ne_of_gt (Nat.zero_lt_of_lt hk))
      rw [h.next_cons, ok_bind]
      have hinv : Inv { l with p0 := Q.head? } (P ++ x :: Q) := h.inv.move _
      have hreturned : At { l with p0 := Q.head? } (P ++ [x]) Q := ⟨by rwa [List.append_assoc], rfl⟩
      refine (At.visit hinv rfl del).bind fun l' ⟨P', hat, hsame⟩ => ?_
      have hnext := ih hat (Nat.lt_of_succ_lt_succ hk)
      rw [← bind_assoc]
      refine hnext.bind fun visits ⟨hentries, hlive⟩ => .pure ⟨?_, ?_⟩
      · rw [List.map_cons, hentries, List.map_cons]
        exact congrArg _ (List.map_congr_left hsame)
      · intro v hv
        rcases List.mem_cons.mp hv with rfl | hv
        · exact ⟨hreturned.live, hat.live⟩
        · exact hlive v hv

/-- After every sequence of operations, and wherever the position was left, the loop of a caller that
deletes any of the keys it sees ends without a fault.  It sees every stored key once, in increasing order,
with the value that was stored, the same whatever is deleted, and at no time is the position on an
entry that was freed. -/
theorem skip_list_iteration (p0 : Option Addr) (ops : List Op) :
    ∃ rs l, ∃ entries : List (UInt64 × Option Addr), runAll ops (drmSLCreate p0) = .ok (rs, l)
      ∧ (entries.map Prod.fst).Pairwise (· < ·)
      ∧ (entries.map Prod.fst).toFinset = (specSet ops ∅).2
      ∧ (∀ k v, (k, v) ∈ entries ↔ specMap ops k = some v)
      ∧ ∀ (p : Option Addr) (del : UInt64 → Bool) (n : Nat), entries.length < n →
        ∃ visits, slIterate del n { l with p0 := p } = .ok visits ∧ visits.map Visit.entry = entries
          ∧ ∀ v ∈ visits, Live v.returned ∧ Live v.left := by
  obtain ⟨⟨rs, l⟩, hrun, -, xs, h, hkeys⟩ := runAll_spec ops (drmSLCreate_rep p0)
  have hfst : (xs.map l.entry).map Prod.fst = xs.map l.key := by rw [List.map_map]; rfl
  refine ⟨rs, l, xs.map l.entry, hrun, ?_, ?_, fun k v => ?_, fun p del n hn => ?_⟩
  · rw [hfst]
    exact List.pairwise_map.mpr h.inv.sorted
  · rw [hfst]
    exact hkeys
  · refine Iff.trans ?_ (h.values k v).symm
    rw [List.mem_map]
    simp only [SkipList.entry, Prod.mk.injEq]
  · rw [List.length_map] at hn
    have hat : At { l with p0 := xs.head? } [] xs := ⟨h.inv.move _, rfl⟩
    unfold slIterate
    rw [drmSLFirst_eq (h.inv.move p)]
    exact slRest_spec del xs hat hn

end LibDrm.SL
