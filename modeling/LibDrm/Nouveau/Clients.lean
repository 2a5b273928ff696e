/-
# `LibDrm.Nouveau.Clients` — the ids of the clients of a device

A device has a bit for each id of a client, in words of 32 bits; the words become more when there
is none with a bit to use.

    nouveau_client_new    takes the bit that `ffs` finds, and an id that says where it is
    nouveau_client_del    clears the bit of the id

`ffs` finds a bit that is set, so it is the id of another client that is taken
(`client_ids_twice`).  Where no bit is set the scan leaves -1 in `id`, and that is the bit that is
taken of the new word; what `1 << -1` is stays open (`undef`).
-/
import LibDrm.Lib.Along
import Mathlib.Logic.Function.Basic

namespace LibDrm.Nouveau.Clients

abbrev Word := BitVec 32

/-- The address of a client. -/
abbrev ClientPtr := Nat

def ENOMEM : Int := 12

/-- The number of the first bit that is set, counted from 1. -/
def ffs (w : Word) : Nat :=
  match (List.range 32).find? fun b => w.getLsbD b with
  | some b => b + 1
  | none => 0

/-- `struct nouveau_device_priv`: the words, of which there are `nr_client`, and the ids of the clients that are
    there. -/
structure Device where
  client : List Word := []
  id : ClientPtr → Option Int := fun _ => none
  fresh : ClientPtr := 0

namespace Device

/-- The bit of an id. -/
def bit (s : Device) (n : Nat) : Bool := (s.client.getD (n / 32) 0).getLsbD (n % 32)

end Device

/-- The loop over the words: what is in `i` and in `id` after it. -/
def scan : List Word → Nat → Int → Nat × Int
  | [], i, id => (i, id)
  | w :: l, i, _ => if 0 ≤ (ffs w : Int) - 1 then (i, (ffs w : Int) - 1) else scan l (i + 1) ((ffs w : Int) - 1)

/-- `1 << id`. -/
def shifted (undef : Word) (id : Int) : Word := if 0 ≤ id then 1 <<< id.toNat else undef

/-- `nouveau_client_new`; what it returns, and the client. -/
def nouveau_client_new (undef : Word) (realloc calloc : Bool) (s : Device) : (Int × Option ClientPtr) × Device :=
  let (i, id) := scan s.client 0 0
  if i = s.client.length ∧ !realloc then ((-ENOMEM, none), s)
  else
    let client := if i = s.client.length then s.client ++ [0] else s.client
    if calloc then
      ((0, some s.fresh),
        { client := client.modify i fun w => w ||| shifted undef id
          id := Function.update s.id s.fresh (some (i * 32 + id))
          fresh := s.fresh + 1 })
    else ((-ENOMEM, none), { s with client })

/-- `nouveau_client_del`; the client has to be there. -/
def nouveau_client_del (c : Option ClientPtr) (s : Device) : Option Device :=
  match c with
  | none => some s
  | some c => do
      let id ← s.id c
      return { s with
        client := s.client.modify (id / 32).toNat fun w => w &&& ~~~((1 : Word) <<< (id % 32).toNat)
        id := Function.update s.id c none }

inductive Op
  | new (realloc calloc : Bool)
  | del (c : Option ClientPtr)

def step (undef : Word) (s : Device) : Op → Option Device
  | .new realloc calloc => some (nouveau_client_new undef realloc calloc s).2
  | .del c => nouveau_client_del c s

/-! ## The scan -/

theorem ffs_eq_zero {w : Word} (h : ffs w = 0) : w = 0 := by
  unfold ffs at h
  split at h
  · cases h
  · next hnone =>
    apply BitVec.eq_of_getLsbD_eq
    intro b hb
    simpa using List.find?_eq_none.mp hnone b (List.mem_range.mpr hb)

theorem ffs_spec {w : Word} (h : ffs w ≠ 0) : ∃ b < 32, ffs w = b + 1 ∧ w.getLsbD b = true := by
  unfold ffs at h ⊢
  split at h
  · next b hb =>
    exact ⟨b, List.mem_range.mp (List.mem_of_find?_eq_some hb), rfl, List.find?_some hb⟩
  · exact absurd rfl h

/-- The scan stops at a word with a bit that is set, or comes to the end with all words zero. -/
theorem scan_spec {l : List Word} {i : Nat} {id : Int} :
    (∃ k b : Nat, k < l.length ∧ b < 32 ∧ scan l i id = (i + k, (b : Int)) ∧ (l.getD k 0).getLsbD b = true) ∨
      ((∀ w ∈ l, w = 0) ∧ scan l i id = (i + l.length, if l = [] then id else -1)) := by
  induction l generalizing i id with
  | nil => exact .inr ⟨fun w hw => absurd hw List.not_mem_nil, rfl⟩
  | cons w l ih =>
      by_cases hw : ffs w = 0
      · have hscan : scan (w :: l) i id = scan l (i + 1) (-1) := by simp [scan, hw]
        rw [hscan]
        rcases @ih (i + 1) (-1) with ⟨k, b, hk, hb, hs, hbit⟩ | ⟨hl, hs⟩
        · refine .inl ⟨k + 1, b, by simpa using hk, hb, ?_, by simpa using hbit⟩
          rw [hs, Nat.add_right_comm, Nat.add_assoc]
        · refine .inr ⟨List.forall_mem_cons.mpr ⟨ffs_eq_zero hw, hl⟩, ?_⟩
          rw [hs, List.length_cons, Nat.add_right_comm, Nat.add_assoc]
          simp
      · obtain ⟨b, hb, hffs, hbit⟩ := ffs_spec hw
        refine .inl ⟨0, b, by simp, hb, ?_, by simpa using hbit⟩
        simp [scan, hffs]

/-! ## Bits -/

theorem getD_modify {l : List Word} {i k : Nat} {f : Word → Word} (hi : i < l.length) :
    (l.modify i f).getD k 0 = if k = i then f (l.getD k 0) else l.getD k 0 := by
  rw [List.getD_eq_getElem?_getD, List.getElem?_modify, List.getD_eq_getElem?_getD]
  by_cases hk : k = i
  · subst hk
    simp [hi]
  · simp [hk, Ne.symm hk]

theorem getLsbD_one_shiftLeft {b m : Nat} (hm : m < 32) : ((1 : Word) <<< b).getLsbD m = decide (m = b) := by
  have hone : ∀ k, (1 : Word).getLsbD k = decide (k = 0) := fun k => by simp [BitVec.getLsbD_one]
  rw [BitVec.getLsbD_shiftLeft, hone]
  grind

theorem getD_snoc_zero {l : List Word} (k : Nat) : (l ++ [0]).getD k 0 = l.getD k 0 := by
  rw [List.getD_eq_getElem?_getD, List.getD_eq_getElem?_getD, List.getElem?_append]
  split
  · rfl
  · next hk =>
    rw [List.getElem?_eq_none (l := l) (by omega)]
    cases k - l.length with
    | zero => rfl
    | succ n => rfl

/-! ## The contract -/

/-- The ids of the clients are their own, and they are the bits that are set. -/
structure Good (s : Device) : Prop where
  distinct : ∀ {c d x}, s.id c = some x → s.id d = some x → c = d
  nonneg : ∀ {c x}, s.id c = some x → 0 ≤ x
  bits : ∀ n : Nat, s.bit n = true ↔ ∃ c, s.id c = some (n : Int)

/-- A client is made when there is no word yet, or not at all: its memory is not there, or that of the word it
    needs. -/
def First (s : Device) : Op → Prop
  | .new realloc calloc => s.client = [] ∨ calloc = false ∨ realloc = false ∧ ∀ w ∈ s.client, w = 0
  | .del _ => True

/-- The clients are good, and the next is new. -/
structure Inv (s : Device) : Prop where
  good : Good s
  fresh : ∀ {c}, s.fresh ≤ c → s.id c = none

variable {undef : Word} {s s' : Device}

theorem Good.congr (h : Good s) (hid : s'.id = s.id) (hbit : ∀ n, s'.bit n = s.bit n) : Good s' where
  distinct hc hd := h.distinct (by rwa [hid] at hc) (by rwa [hid] at hd)
  nonneg hc := h.nonneg (by rwa [hid] at hc)
  bits n := by rw [hbit, hid, h.bits]

/-- Without a word there is no client. -/
theorem Good.none_of_nil (h : Good s) (hnil : s.client = []) (c : ClientPtr) : s.id c = none := by
  cases hc : s.id c with
  | none => rfl
  | some x =>
      obtain ⟨n, rfl⟩ := Int.eq_ofNat_of_zero_le (h.nonneg hc)
      have hbit := (h.bits n).mpr ⟨c, hc⟩
      simp [Device.bit, hnil] at hbit

/-- The word that is added holds no client. -/
theorem Inv.grow (h : Inv s) (client : List Word) (hclient : client = s.client ∨ client = s.client ++ [0]) :
    Inv { s with client } where
  good := by
    refine h.good.congr rfl fun n => ?_
    rcases hclient with rfl | rfl
    · rfl
    · simp only [Device.bit, getD_snoc_zero]
  fresh := h.fresh

/-- The first client. -/
theorem Inv.first (h : Inv s) (hnil : s.client = []) :
    Inv { client := [1], id := Function.update s.id s.fresh (some 0), fresh := s.fresh + 1 } := by
  have hnone := h.good.none_of_nil hnil
  have hid : ∀ {c x}, Function.update s.id s.fresh (some 0) c = some x ↔ c = s.fresh ∧ x = 0 := by
    intro c x
    by_cases hc : c = s.fresh
    · subst hc
      simp [eq_comm]
    · simp [hc, hnone]
  refine ⟨⟨?_, ?_, ?_⟩, ?_⟩
  · intro c d x hc hd
    rw [(hid.mp hc).1, (hid.mp hd).1]
  · intro c x hc
    exact Int.le_of_eq (hid.mp hc).2.symm
  · intro n
    show ([(1 : Word)].getD (n / 32) 0).getLsbD (n % 32) = true ↔ ∃ c, Function.update s.id s.fresh (some 0) c = some (n : Int)
    simp only [hid, exists_eq_left]
    have hzero : (n : Int) = 0 ↔ n / 32 = 0 ∧ n % 32 = 0 := by omega
    rw [hzero]
    cases hk : n / 32 with
    | zero => simp [BitVec.getLsbD_one]
    | succ k => simp
  · intro c hc
    have hne : c ≠ s.fresh := by
      rintro rfl
      exact absurd hc (Nat.not_succ_le_self _)
    show Function.update s.id s.fresh (some 0) c = none
    rw [Function.update_of_ne hne, hnone]

theorem Inv.del (h : Inv s) {c : Option ClientPtr} (hs : nouveau_client_del c s = some s') : Inv s' := by
  cases c with
  | none =>
      cases hs
      exact h
  | some c =>
      obtain ⟨x, hx, hs⟩ := Option.bind_eq_some_iff.mp hs
      obtain ⟨n, rfl⟩ := Int.eq_ofNat_of_zero_le (h.good.nonneg hx)
      cases hs
      have hbitn := (h.good.bits n).mpr ⟨c, hx⟩
      have hid : ∀ {d y}, Function.update s.id c none d = some y ↔ d ≠ c ∧ s.id d = some y := by
        intro d y
        by_cases hd : d = c
        · subst hd
          simp
        · simp [hd]
      have hlt : n / 32 < s.client.length := by
        by_contra hge
        rw [Device.bit, List.getD_eq_getElem?_getD, List.getElem?_eq_none (by omega)] at hbitn
        simp at hbitn
      refine ⟨⟨?_, ?_, ?_⟩, ?_⟩
      · intro d e y hd he
        exact h.good.distinct (hid.mp hd).2 (hid.mp he).2
      · intro d y hd
        exact h.good.nonneg (hid.mp hd).2
      · intro m
        have hdiv : ((n : Int) / 32).toNat = n / 32 := by omega
        have hmod : ((n : Int) % 32).toNat = n % 32 := by omega
        have hbit : ((s.client.modify ((n : Int) / 32).toNat
            fun w => w &&& ~~~((1 : Word) <<< ((n : Int) % 32).toNat)).getD (m / 32) 0).getLsbD (m % 32) =
            (s.bit m && decide (m ≠ n)) := by
          rw [hdiv, hmod, getD_modify hlt]
          split
          · next hm =>
            rw [BitVec.getLsbD_and, BitVec.getLsbD_not, getLsbD_one_shiftLeft (Nat.mod_lt _ (by decide))]
            have : m % 32 = n % 32 ↔ m = n := by omega
            simp [this, Nat.mod_lt, Device.bit]
          · next hm =>
            have : m ≠ n := fun heq => hm (by rw [heq])
            simp [this, Device.bit]
        show _ = true ↔ ∃ d, Function.update s.id c none d = some (m : Int)
        rw [Device.bit, hbit, Bool.and_eq_true, h.good.bits, decide_eq_true_eq]
        simp only [hid]
        constructor
        · rintro ⟨⟨d, hd⟩, hmn⟩
          refine ⟨d, ?_, hd⟩
          rintro rfl
          exact hmn (Int.ofNat.inj (Option.some.inj (hd.symm.trans hx)))
        · rintro ⟨d, hdc, hd⟩
          refine ⟨⟨d, hd⟩, ?_⟩
          rintro rfl
          exact hdc (h.good.distinct hd hx)
      · intro d hd
        show Function.update s.id c none d = none
        by_cases hdc : d = c
        · rw [hdc, Function.update_self]
        · rw [Function.update_of_ne hdc]
          exact h.fresh hd

/-! ## Runs -/

/-- A client that is made when there are words takes an id that is not its own. -/
theorem not_good_of_new (h : Inv s) (hne : s.client ≠ []) {realloc : Bool}
    (hroom : realloc = true ∨ ∃ w ∈ s.client, w ≠ 0) :
    ¬ Good (nouveau_client_new undef realloc true s).2 := by
  intro hgood
  rcases @scan_spec s.client 0 0 with ⟨k, b, hk, hb, hscan, hbit⟩ | ⟨hzero, hscan⟩
  · -- the bit is that of another client
    obtain ⟨c, hc⟩ := (h.good.bits (k * 32 + b)).mp (by
      rw [Device.bit, show (k * 32 + b) / 32 = k by omega, show (k * 32 + b) % 32 = b by omega]
      exact hbit)
    have hlt : c < s.fresh := Nat.lt_of_not_le fun hle => by simp [h.fresh hle] at hc
    rw [Nat.zero_add] at hscan
    have hnew : (nouveau_client_new undef realloc true s).2.id =
        Function.update s.id s.fresh (some (k * 32 + b : Int)) := by
      simp [nouveau_client_new, hscan, Nat.ne_of_lt hk]
    have hold : (nouveau_client_new undef realloc true s).2.id c = some (k * 32 + b : Int) := by
      rw [hnew, Function.update_of_ne (Nat.ne_of_lt hlt), hc]
      simp
    refine Nat.ne_of_lt hlt (hgood.distinct hold ?_)
    rw [hnew, Function.update_self]
  · -- the last bit before the new word is that of no client
    have hrealloc : realloc = true := hroom.resolve_right fun ⟨w, hw, hne⟩ => hne (hzero w hw)
    subst hrealloc
    rw [Nat.zero_add, if_neg hne] at hscan
    have hnew : (nouveau_client_new undef true true s).2 =
        { client := (s.client ++ [0]).modify s.client.length fun w => w ||| shifted undef (-1)
          id := Function.update s.id s.fresh (some (s.client.length * 32 + -1))
          fresh := s.fresh + 1 } := by
      simp [nouveau_client_new, hscan]
    rw [hnew] at hgood
    have hpos := List.length_pos_iff.mpr hne
    have hset := (hgood.bits (s.client.length * 32 - 1)).mpr ⟨s.fresh, by
      show Function.update s.id s.fresh (some (s.client.length * 32 + -1 : Int)) s.fresh = _
      rw [Function.update_self]
      exact congrArg some (by omega)⟩
    have hindex : (s.client.length * 32 - 1) / 32 = s.client.length - 1 := by omega
    rw [Device.bit, getD_modify (by simp), if_neg (by omega), getD_snoc_zero, hindex,
      List.getD_eq_getElem?_getD, List.getElem?_eq_getElem (by omega), Option.getD_some,
      hzero _ (List.getElem_mem _)] at hset
    simp at hset

/-- A creation that is the first, or fails. -/
theorem Inv.new (h : Inv s) {realloc calloc : Bool} (hfirst : First s (.new realloc calloc)) :
    Inv (nouveau_client_new undef realloc calloc s).2 := by
  obtain ⟨i, id, hscan⟩ : ∃ i id, scan s.client 0 0 = (i, id) := ⟨_, _, rfl⟩
  simp only [nouveau_client_new, hscan]
  split
  · exact h
  · next hrealloc =>
    split
    · next hcalloc =>
      rcases hfirst with hnil | hcalloc' | ⟨hrealloc', hzero⟩
      · have hstart : scan s.client 0 0 = (0, 0) := by rw [hnil]; rfl
        obtain ⟨rfl, rfl⟩ := Prod.mk.inj (hscan.symm.trans hstart)
        simpa [hnil, shifted] using h.first hnil
      · rw [hcalloc] at hcalloc'
        cases hcalloc'
      · rcases @scan_spec s.client 0 0 with ⟨k, b, hk, hb, -, hbit⟩ | ⟨-, hend⟩
        · rw [List.getD_eq_getElem?_getD, List.getElem?_eq_getElem hk, Option.getD_some,
            hzero _ (List.getElem_mem _)] at hbit
          simp at hbit
        · have hi : i = s.client.length := by
            rw [Nat.zero_add] at hend
            exact congrArg Prod.fst (hscan.symm.trans hend)
          exact absurd ⟨hi, by simp [hrealloc']⟩ hrealloc
    · refine h.grow _ ?_
      split
      · exact .inr rfl
      · exact .inl rfl

theorem inv_step (h : Inv s) {op : Op} (hfirst : First s op) (hs : step undef s op = some s') : Inv s' := by
  cases op with
  | new realloc calloc =>
      cases hs
      exact h.new hfirst
  | del c => exact h.del hs

/-- A step leads to clients that are good if no client is made but the first. -/
theorem good_step_iff (h : Inv s) (op : Op) : (∀ s', step undef s op = some s' → Good s') ↔ First s op := by
  refine ⟨fun hgood => ?_, fun hfirst s' hs => (inv_step h hfirst hs).good⟩
  cases op with
  | del c => exact trivial
  | new realloc calloc =>
      by_contra hnot
      simp only [First, not_or, not_and, Bool.not_eq_false] at hnot
      obtain ⟨hne, rfl, hroom⟩ := hnot
      refine @not_good_of_new undef s h hne _ ?_ (hgood _ rfl)
      cases realloc with
      | true => exact .inl rfl
      | false =>
          refine .inr ?_
          by_contra hall
          exact hroom rfl fun w hw => by_contra fun hw0 => hall ⟨w, hw, hw0⟩

theorem inv_init : Inv {} := ⟨⟨nofun, nofun, fun n => by simp [Device.bit]⟩, fun _ => rfl⟩

/-- The clients have ids of their own, and their bits are set, as long as no client is made after the first. -/
theorem client_ids (undef : Word) (ops : List Op) :
    Along (step undef) (fun s op => ∀ s', step undef s op = some s' → Good s') {} ops ↔
      Along (step undef) First {} ops :=
  along_iff (I := Inv) (fun _ op h => good_step_iff h op) (fun _ _ _ h hfirst hs => inv_step h hfirst hs) inv_init

/-- The second client gets the id of the first. -/
theorem client_ids_twice : ¬ ∀ (undef : Word) (ops : List Op),
    Along (step undef) (fun s op => ∀ s', step undef s op = some s' → Good s') {} ops := by
  intro h
  have hfirst : (nouveau_client_new 0 true true {}).2 =
      { client := [1], id := Function.update (fun _ => none) 0 (some 0), fresh := 1 } := by
    simp [nouveau_client_new, scan, shifted]
  have hscan : scan [1#32] 0 0 = (0, 0) := by decide
  have hgood := ((h 0 [.new true true, .new true true]).2 _ rfl).1 _ rfl
  rw [hfirst] at hgood
  have hids : (nouveau_client_new 0 true true
      { client := [1], id := Function.update (fun _ => none) 0 (some 0), fresh := 1 }).2.id =
      Function.update (Function.update (fun _ => none) 0 (some 0)) 1 (some 0) := by
    simp [nouveau_client_new, hscan]
  have hsame : (0 : Nat) = 1 := hgood.distinct (x := 0) (by rw [hids]; rfl) (by rw [hids]; rfl)
  exact absurd hsame (by decide)

end LibDrm.Nouveau.Clients
