/-
# `LibDrm.Mode.Snapshot` — the answer to a query is one state of the kernel

Between the two calls of a query the kernel's lists may grow and shrink.  The ledger of the heap
carries the proof; its entries are

    temps     what the sizing call made room for, at most once for each array
    self      the result
    copies    the arrays of the result

and every way out of a query frees all of them, or all but `self` and the copies.  What was filled is
the state that the second call saw, since an array that has grown is asked for again.

That takes one thing of the kernel (`Roomy`): that an array which it fills has room in what `drmMalloc`
made of the count before.  From 2^32 bytes on it may have none.
-/
import LibDrm.Mode.Queries
import Mathlib.Algebra.Group.Nat.Defs

namespace LibDrm.Mode.Queries

variable {q : Query} {s s' : State} {h₀ : Heap Block} {p : Addr} {ptrs temps : List Addr} {size : Int}

/-! ## Memory -/

/-- The blocks that there are stay as they are. -/
def Keeps (s s' : State) : Prop := ∀ a b, s.heap.block a = some b → s'.heap.block a = some b

theorem Keeps.refl : Keeps s s := fun _ _ => id

theorem Keeps.trans {s₁ s₂ s₃ : State} (h₁ : Keeps s₁ s₂) (h₂ : Keeps s₂ s₃) : Keeps s₁ s₃ :=
  fun a b h => h₂ a b (h₁ a b h)

/-- What was allocated, if anything. -/
theorem drmMalloc_spec (ho : h₀.Owned s.heap ptrs) (hm : drmMalloc size s = (p, s')) :
    h₀.Owned s'.heap (p :: ptrs) ∧ Keeps s s' ∧ (p ≠ 0 → s.heap.block p = none ∧ 0 ≤ size ∧
      s'.heap.block p = some ⟨size.toNat, []⟩) := by
  unfold drmMalloc at hm
  dsimp only at hm
  split at hm
  · obtain ⟨rfl, rfl⟩ := Prod.mk.inj hm
    exact ⟨ho.null, fun _ _ => id, fun h => absurd rfl h⟩
  · next hok =>
    obtain ⟨rfl, rfl⟩ := Prod.mk.inj hm
    refine ⟨ho.alloc, fun a b hab => ?_, fun _ => ⟨s.heap.unused _ (Nat.le_refl _), by omega,
      Heap.alloc_block_self⟩⟩
    exact (Heap.alloc_block (by rw [hab]; rfl)).trans hab

/-- What is owned can be freed. -/
theorem drmFree_spec (ho : h₀.Owned s.heap (p :: ptrs)) :
    Returns (drmFree p s) fun s' => h₀.Owned s'.heap ptrs ∧ ∀ a, a ≠ p → s'.heap.block a = s.heap.block a := by
  unfold drmFree
  by_cases hp : p = 0
  · rw [if_pos hp]
    exact .ok ⟨(hp ▸ ho).of_null, fun _ _ => rfl⟩
  · obtain ⟨h', hfree, ho'⟩ := ho.free hp
    rw [if_neg hp, hfree]
    exact .ok ⟨ho', fun a ha => Heap.free_block hfree ha⟩

theorem freeAll_spec (ho : h₀.Owned s.heap (temps ++ ptrs)) :
    Returns (freeAll temps s) fun s' => h₀.Owned s'.heap ptrs ∧ ∀ a, a ∉ temps → s'.heap.block a = s.heap.block a := by
  induction temps generalizing s with
  | nil => exact .ok ⟨ho, fun _ _ => rfl⟩
  | cons p temps ih =>
      refine (drmFree_spec ho).bind fun s₁ ⟨ho₁, hsame₁⟩ => (ih ho₁).mono fun s₂ ⟨ho₂, hsame₂⟩ => ⟨ho₂, fun a ha => ?_⟩
      rw [List.mem_cons, not_or] at ha
      exact (hsame₂ a ha.2).trans (hsame₁ a ha.1)

/-- What holds of each pair may be changed with the knowledge of where the pointer comes from. -/
theorem forall₂_of_mem {α : Type} {R S : α → Addr → Prop} {fs : List α} {ps : List Addr}
    (h : List.Forall₂ R fs ps) (himp : ∀ f p, p ∈ ps → R f p → S f p) : List.Forall₂ S fs ps := by
  induction h with
  | nil => exact .nil
  | cons hr _ ih =>
      exact .cons (himp _ _ List.mem_cons_self hr) (ih fun f p hp => himp f p (List.mem_cons_of_mem _ hp))

/-! ## Making room -/

/-- Room for an array: none for an empty one, else as many bytes as `drmMalloc` made of them. -/
def Room (count : Counter → Word) (s : State) (f : Field) (p : Addr) : Prop :=
  count f.count ≠ 0 → p ≠ 0 ∧ 0 ≤ toInt ((count f.count).toNat * f.entry) ∧
    ∃ data, s.heap.block p = some ⟨(toInt ((count f.count).toNat * f.entry)).toNat, data⟩

theorem owned_nulls {fs : List Field} (ho : h₀.Owned s.heap ptrs) : h₀.Owned s.heap ((fs.map fun _ => 0) ++ ptrs) := by
  induction fs with
  | nil => exact ho
  | cons f fs ih => exact ih.null

theorem allocAll_spec (count : Counter → Word) {fs : List Field} {enough : Bool} (ho : h₀.Owned s.heap ptrs)
    (hm : allocAll count fs s = (temps, enough, s')) :
    h₀.Owned s'.heap (temps ++ ptrs) ∧ Keeps s s' ∧ (enough = true → List.Forall₂ (Room count s') fs temps) := by
  induction fs generalizing s temps enough s' ptrs with
  | nil =>
      cases hm
      exact ⟨ho, .refl, fun _ => .nil⟩
  | cons f fs ih =>
      unfold allocAll at hm
      split at hm
      · next hzero =>
        rcases hrest : allocAll count fs s with ⟨ps, enough', s₁⟩
        rw [hrest] at hm
        cases hm
        obtain ⟨ho', hk, hroom⟩ := ih ho hrest
        exact ⟨ho'.null, hk, fun he => .cons (fun hne => absurd hzero hne) (hroom he)⟩
      · rcases hmalloc : drmMalloc (toInt ((count f.count).toNat * f.entry)) s with ⟨p, s₁⟩
        obtain ⟨ho₁, hk₁, hp₁⟩ := drmMalloc_spec ho hmalloc
        rw [hmalloc] at hm
        dsimp only at hm
        split at hm
        · next hnull =>
          cases hm
          exact ⟨(owned_nulls (hnull ▸ ho₁).of_null).null, hk₁, nofun⟩
        · next hp =>
          rcases hrest : allocAll count fs s₁ with ⟨ps, enough', s₂⟩
          rw [hrest] at hm
          cases hm
          obtain ⟨ho₂, hk₂, hroom⟩ := ih ho₁ hrest
          refine ⟨ho₂.perm List.perm_middle, hk₁.trans hk₂, fun he => .cons (fun _ => ?_) (hroom he)⟩
          obtain ⟨-, hpos, hblock⟩ := hp₁ hp
          exact ⟨hp, hpos, [], hk₂ _ _ hblock⟩

/-! ## What the kernel fills -/

/-- An array that is filled has room. -/
def Fits (given count : Counter → Word) (f : Field) : Prop :=
  count f.count ≤ given f.count → 0 ≤ toInt ((given f.count).toNat * f.entry) →
    ((count f.count).toNat * f.entry : Int) ≤ toInt ((given f.count).toNat * f.entry)

instance (given count : Counter → Word) (f : Field) : Decidable (Fits given count f) :=
  inferInstanceAs (Decidable (_ → _ → _))

/-- An array is filled, if it is not too large for that. -/
def Filled (given : Counter → Word) (k : Kernel q) (s : State) (f : Field) (p : Addr) : Prop :=
  k.count f.count ≠ 0 → k.count f.count ≤ given f.count → p ≠ 0 ∧
    ∃ size, (k.count f.count).toNat * f.entry ≤ size ∧ size < 2 ^ 31 ∧ s.heap.block p = some ⟨size, k.content f.column⟩

theorem toInt_lt (n : Nat) : (toInt n).toNat < 2 ^ 31 := by
  have := BitVec.toInt_lt (x := BitVec.ofNat 32 n)
  unfold toInt
  omega

theorem toInt_eq {n : Nat} (h : n < 2 ^ 31) : toInt n = n := by
  unfold toInt
  rw [BitVec.toInt_eq_toNat_of_lt] <;> rw [BitVec.toNat_ofNat] <;> omega

theorem fill_spec {given : Counter → Word} {k : Kernel q} {f : Field} (ho : h₀.Owned s.heap (p :: ptrs))
    (hroom : Room given s f p) (hfits : Fits given k.count f) :
    Returns (fill given k f p s) fun s' => h₀.Owned s'.heap (p :: ptrs) ∧ Filled given k s' f p ∧
      ∀ a, a ≠ p ∨ a = 0 → s'.heap.block a = s.heap.block a := by
  unfold fill
  split
  · next hnone =>
    refine .ok ⟨ho, fun hne hle => ?_, fun _ _ => rfl⟩
    rcases hnone with hzero | hlt
    · exact absurd hzero hne
    · exact absurd hlt (BitVec.not_lt.mpr hle)
  · next hsome =>
    rw [not_or, BitVec.not_lt] at hsome
    obtain ⟨hne, hle⟩ := hsome
    have hgiven : given f.count ≠ 0 := by
      intro hzero
      rw [hzero] at hle
      exact hne (BitVec.le_zero_iff.mp hle)
    obtain ⟨hp, hpos, data, hblock⟩ := hroom hgiven
    have hsize := hfits hle hpos
    rw [hblock]
    dsimp only
    rw [if_neg (by omega)]
    refine .ok ⟨ho.store List.mem_cons_self hp,
      fun _ _ => ⟨hp, _, ?_, toInt_lt _, Heap.store_block_self (by rw [hblock]; rfl)⟩,
      fun a ha => Heap.store_block ?_⟩
    · omega
    · rintro rfl
      exact ha.elim (· rfl) hp

theorem fillAll_spec {given : Counter → Word} {k : Kernel q} {fs : List Field} (ho : h₀.Owned s.heap (temps ++ ptrs))
    (hroom : List.Forall₂ (Room given s) fs temps) (hfits : ∀ f ∈ fs, Fits given k.count f) :
    Returns (fillAll given k fs temps s) fun s' => h₀.Owned s'.heap (temps ++ ptrs) ∧
      List.Forall₂ (Filled given k s') fs temps ∧ ∀ a, a ∉ temps ∨ a = 0 → s'.heap.block a = s.heap.block a := by
  induction fs generalizing s temps ptrs with
  | nil =>
      cases hroom
      exact .ok ⟨ho, .nil, fun _ _ => rfl⟩
  | cons f fs ih =>
      cases hroom with
      | @cons _ p _ temps hp hroom =>
      refine (fill_spec ho hp (hfits f List.mem_cons_self)).bind fun s₁ ⟨ho₁, hfilled, hsame₁⟩ => ?_
      have hother : ∀ p' ∈ temps, p' ≠ p ∨ p' = 0 := by
        intro p' hmem
        by_cases hpp : p' = p
        · exact .inr (by_contra fun hne => ho.not_mem (hpp ▸ hne) (List.mem_append_left _ (hpp ▸ hmem)))
        · exact .inl hpp
      have hroom₁ : List.Forall₂ (Room given s₁) fs temps := forall₂_of_mem hroom fun f' p' hmem hr hne => by
        obtain ⟨hp', hpos, data, hblock⟩ := hr hne
        exact ⟨hp', hpos, data, (hsame₁ p' (hother p' hmem)).trans hblock⟩
      refine (ih (ho₁.perm List.perm_middle.symm) hroom₁ fun f hf => hfits f (List.mem_cons_of_mem _ hf)).mono
        fun s₂ ⟨ho₂, hrest, hsame₂⟩ => ⟨ho₂.perm List.perm_middle, .cons (fun hne hle => ?_) hrest, fun a ha => ?_⟩
      · obtain ⟨hp', size, hsize, hlt, hblock⟩ := hfilled hne hle
        have hnot : p ∉ temps := fun hmem => ho.not_mem hp' (List.mem_append_left _ hmem)
        exact ⟨hp', size, hsize, hlt, (hsame₂ p (.inl hnot)).trans hblock⟩
      · rw [List.mem_cons, not_or] at ha
        refine (hsame₂ a (ha.imp_left And.right)).trans (hsame₁ a (ha.imp_left And.left))

/-! ## Copying -/

/-- A copy: all entries of the array, or nothing if it is empty; it may be missing. -/
def Copied (k : Kernel q) (s : State) (f : Field) (c : Addr) : Prop :=
  (k.count f.count = 0 → c = 0) ∧
    (c ≠ 0 → s.heap.block c = some ⟨(k.count f.count).toNat * f.entry, k.content f.column⟩)

theorem map_getD_range {l : List Nat} {n : Nat} (h : l.length = n) : (List.range n).map (l.getD · 0) = l := by
  subst h
  refine List.ext_getElem (by simp) fun i h₁ h₂ => ?_
  rw [List.getElem_map, List.getElem_range, List.getD_eq_getElem?_getD, List.getElem?_eq_getElem h₂, Option.getD_some]

theorem copyEntries_spec {c : Addr} {k : Kernel q} {f : Field} {size : Nat} (ho : h₀.Owned s.heap (c :: ptrs)) (hc : c ≠ 0)
    (hf : f ∈ q.arrays) (hsize : (k.count f.count).toNat * f.entry ≤ size)
    (hp : s.heap.block p = some ⟨size, k.content f.column⟩)
    (hnew : s.heap.block c = some ⟨(k.count f.count).toNat * f.entry, []⟩) :
    Returns (copyEntries p c (k.count f.count).toNat f.entry s) fun s' => h₀.Owned s'.heap (c :: ptrs) ∧
      s'.heap.block c = some ⟨(k.count f.count).toNat * f.entry, k.content f.column⟩ ∧
        ∀ a, a ≠ c → s'.heap.block a = s.heap.block a := by
  unfold copyEntries
  rw [hp, hnew]
  dsimp only
  rw [if_neg (by omega), map_getD_range (k.full f hf)]
  exact .ok ⟨ho.store List.mem_cons_self hc, Heap.store_block_self (by rw [hnew]; rfl), fun a ha => Heap.store_block ha⟩

/-- What the second call has filled, all of it. -/
def Whole (k : Kernel q) (s : State) (f : Field) (p : Addr) : Prop :=
  k.count f.count ≠ 0 → p ≠ 0 ∧
    ∃ size, (k.count f.count).toNat * f.entry ≤ size ∧ size < 2 ^ 31 ∧ s.heap.block p = some ⟨size, k.content f.column⟩

theorem Whole.keeps {k : Kernel q} {f : Field} (h : Whole k s f p) (hk : Keeps s s') : Whole k s' f p := by
  intro hne
  obtain ⟨hp, size, hsize, hlt, hblock⟩ := h hne
  exact ⟨hp, size, hsize, hlt, hk _ _ hblock⟩

theorem Copied.keeps {k : Kernel q} {f : Field} (h : Copied k s f p) (hk : Keeps s s') : Copied k s' f p :=
  ⟨h.1, fun hp => hk _ _ (h.2 hp)⟩

theorem drmAllocCpy_spec {k : Kernel q} {f : Field} (ho : h₀.Owned s.heap ptrs) (hf : f ∈ q.arrays) (hp : Whole k s f p) :
    Returns (drmAllocCpy p (k.count f.count) f.entry s) fun r =>
      h₀.Owned r.2.heap (r.1 :: ptrs) ∧ Keeps s r.2 ∧ Copied k r.2 f r.1 := by
  unfold drmAllocCpy
  split
  · next hnone => exact .ok ⟨ho.null, .refl, fun _ => rfl, fun hne => absurd rfl hne⟩
  · next hsome =>
    rw [not_or, not_or] at hsome
    obtain ⟨hne, -, hentry⟩ := hsome
    obtain ⟨hp0, size, hsize, hlt, hblock⟩ := hp hne
    have hcount : (k.count f.count).toNat ≤ (k.count f.count).toNat * f.entry :=
      Nat.le_mul_of_pos_right _ (Nat.pos_of_ne_zero hentry)
    rcases hmalloc : drmMalloc (toInt ((k.count f.count).toNat * f.entry)) s with ⟨c, s₁⟩
    obtain ⟨ho₁, hk₁, hc₁⟩ := drmMalloc_spec ho hmalloc
    dsimp only
    split
    · next hnull =>
      subst hnull
      exact .ok ⟨ho₁, hk₁, fun _ => rfl, fun h => absurd rfl h⟩
    · next hc =>
      obtain ⟨hfresh, -, hnew⟩ := hc₁ hc
      rw [toInt_eq (by omega), Int.toNat_natCast] at hnew
      rw [BitVec.toInt_eq_toNat_of_lt (by omega), Int.toNat_natCast]
      refine (copyEntries_spec ho₁ hc hf hsize (hk₁ _ _ hblock) hnew).bind fun s₂ ⟨ho₂, hcopy, hsame⟩ => .pure ?_
      refine ⟨ho₂, fun a b hab => ?_, fun hz => absurd hz hne, fun _ => hcopy⟩
      by_cases hac : a = c
      · subst hac
        cases hfresh.symm.trans hab
      · exact (hsame a hac).trans (hk₁ _ _ hab)

theorem copyAll_spec {k : Kernel q} {fs : List Field} (ho : h₀.Owned s.heap ptrs) (hfs : ∀ f ∈ fs, f ∈ q.arrays)
    (hp : List.Forall₂ (Whole k s) fs temps) :
    Returns (copyAll k.count fs temps s) fun r => h₀.Owned r.2.heap (r.1 ++ ptrs) ∧ Keeps s r.2 ∧
      List.Forall₂ (Copied k r.2) fs r.1 := by
  induction fs generalizing s ptrs temps with
  | nil =>
      cases hp
      exact .ok ⟨ho, .refl, .nil⟩
  | cons f fs ih =>
      cases hp with
      | cons hp hrest =>
      refine (drmAllocCpy_spec ho (hfs f List.mem_cons_self) hp).bind fun ⟨c, s₁⟩ ⟨ho₁, hk₁, hc⟩ => ?_
      have hrest₁ := forall₂_of_mem hrest fun f p _ h => h.keeps hk₁
      refine (ih ho₁ (fun f hf => hfs f (List.mem_cons_of_mem _ hf)) hrest₁).bind fun ⟨cs, s₂⟩ ⟨ho₂, hk₂, hcs⟩ => ?_
      exact .pure ⟨ho₂.perm List.perm_middle, hk₁.trans hk₂, .cons (hc.keeps hk₂) hcs⟩

/-! ## The answer -/

/-- The result is what one state of the kernel says: every array is in a block of its own, of its size, and has all of
    its entries. -/
structure Answer.Of (a : Answer) (k : Kernel q) (s : State) : Prop where
  scalars : a.scalars = q.scalars k.scalars
  count : a.count = k.count
  arrays : List.Forall₂ (fun f c => (k.count f.count = 0 → c = 0) ∧ (k.count f.count ≠ 0 → c ≠ 0 ∧
    s.heap.block c = some ⟨(k.count f.count).toNat * f.entry, k.content f.column⟩ ∧
      (k.content f.column).length = (a.count f.count).toNat)) q.arrays a.arrays

/-- Nothing is left behind but the result, and all of that is new. -/
def Clean (h₀ : Heap Block) : Option Answer → State → Prop
  | none, s => ∀ p, s.heap.block p = h₀.block p
  | some a, s => a.self ≠ 0 ∧ h₀.Owned s.heap (a.self :: a.arrays)

theorem copies_of_not_missing {k : Kernel q} {fs : List Field} {copies : List Addr} (hfs : ∀ f ∈ fs, f ∈ q.arrays)
    (hm : missing k.count fs copies = false) (hc : List.Forall₂ (Copied k s) fs copies) :
    List.Forall₂ (fun f c => (k.count f.count = 0 → c = 0) ∧ (k.count f.count ≠ 0 → c ≠ 0 ∧
      s.heap.block c = some ⟨(k.count f.count).toNat * f.entry, k.content f.column⟩ ∧
        (k.content f.column).length = (k.count f.count).toNat)) fs copies := by
  induction hc with
  | nil => exact .nil
  | @cons f c fs copies hc _ ih =>
      unfold missing at hm
      rw [List.zip_cons_cons, List.any_cons, Bool.or_eq_false_iff] at hm
      refine .cons ⟨hc.1, fun hne => ?_⟩ (ih (fun f hf => hfs f (List.mem_cons_of_mem _ hf)) hm.2)
      have hc0 : c ≠ 0 := by
        rintro rfl
        simp only [ne_eq, hne, not_false_eq_true, decide_true, and_true] at hm
        cases hm.1
      exact ⟨hc0, hc.2 hc0, k.full f (hfs f List.mem_cons_self)⟩

theorem answer_spec {k : Kernel q} (ho : h₀.Owned s.heap temps) (hp : List.Forall₂ (Whole k s) q.arrays temps) :
    Returns (answer q k temps s) fun r => Clean h₀ r.1 r.2 ∧ ∀ a, r.1 = some a → a.Of k r.2 := by
  unfold answer
  rcases hmalloc : drmMalloc (toInt q.self) s with ⟨r, s₁⟩
  obtain ⟨ho₁, hk₁, hr⟩ := drmMalloc_spec ho hmalloc
  dsimp only
  split
  · next hnull =>
    have hfree : h₀.Owned s₁.heap (temps ++ []) := by
      rw [List.append_nil]
      exact (hnull ▸ ho₁).of_null
    exact (freeAll_spec hfree).bind fun s₂ ⟨ho₂, _⟩ => .pure ⟨ho₂.nil, nofun⟩
  · next hr0 =>
    refine (copyAll_spec ho₁ (fun f => id) (forall₂_of_mem hp fun f p _ h => h.keeps hk₁)).bind fun ⟨copies, s₂⟩ ⟨ho₂, hk₂, hc⟩ => ?_
    dsimp only at ho₂ hc ⊢
    split
    · refine (freeAll_spec ho₂).bind fun s₃ ⟨ho₃, _⟩ => (drmFree_spec ho₃).bind fun s₄ ⟨ho₄, _⟩ => ?_
      have hfree : h₀.Owned s₄.heap (temps ++ []) := by
        rw [List.append_nil]
        exact ho₄
      exact (freeAll_spec hfree).bind fun s₅ ⟨ho₅, _⟩ => .pure ⟨ho₅.nil, nofun⟩
    · next hm =>
      have hperm : (copies ++ r :: temps).Perm (temps ++ (r :: copies)) :=
        List.perm_append_comm.trans List.perm_middle.symm
      refine (freeAll_spec (ho₂.perm hperm)).bind fun s₃ ⟨ho₃, hsame⟩ => .pure ⟨⟨hr0, ho₃⟩, ?_⟩
      rintro a ⟨⟩
      refine ⟨rfl, rfl, ?_⟩
      have hcopies := copies_of_not_missing (fun f => id) (Bool.eq_false_iff.mpr hm) hc
      refine forall₂_of_mem hcopies fun f c hmem h => ⟨h.1, fun hne => ?_⟩
      obtain ⟨hc0, hblock, hlen⟩ := h.2 hne
      have hnot : c ∉ temps := fun htemp =>
        hc0 ((List.pairwise_append.mp ho₂.once).2.2 c hmem c (List.mem_cons_of_mem _ htemp) rfl)
      exact ⟨hc0, (hsame c hnot).trans hblock, hlen⟩

/-! ## A query -/

/-- Every array that the kernel fills in a second call has room in what was allocated after the first. -/
def Roomy : List (Reply q) → Prop
  | some counts :: some k :: rest => (∀ f ∈ q.arrays, Fits counts.count k.count f) ∧ Roomy rest
  | _ => True

/-- A query does not free twice, and writes nowhere else than into its blocks; when it returns, all that it has
    allocated is freed but the result, and that is one of the states that the kernel was in. -/
def Consistent (replies : List (Reply q)) (s : State) (run : Except Fault (Option Answer × State)) : Prop :=
  Within (· = .waiting) run fun r => Clean s.heap r.1 r.2 ∧ ∀ a, r.1 = some a → ∃ k, some k ∈ replies ∧ a.Of k r.2

/-- All temporaries are freed, and NULL is returned. -/
theorem give_up (ho : h₀.Owned s.heap (temps ++ [])) {P : Option Answer × State → Prop}
    (hP : ∀ s', (∀ p, s'.heap.block p = h₀.block p) → P (none, s')) :
    Returns (do let s ← freeAll temps s; return (none, s)) P :=
  (freeAll_spec ho).bind fun s' ⟨ho', _⟩ => .pure (hP s' ho'.nil)

theorem whole_of_filled {given : Counter → Word} {k : Kernel q} {fs : List Field}
    (hle : ∀ f ∈ fs, k.count f.count ≤ given f.count) (h : List.Forall₂ (Filled given k s) fs temps) :
    List.Forall₂ (Whole k s) fs temps := by
  induction h with
  | nil => exact .nil
  | @cons f p fs temps hp _ ih =>
      exact .cons (fun hne => hp hne (hle f List.mem_cons_self)) (ih fun f hf => hle f (List.mem_cons_of_mem _ hf))

theorem le_of_not_grown {given count : Counter → Word} (h : grown q given count = false) :
    ∀ f ∈ q.arrays, count f.count ≤ given f.count := by
  intro f hf
  have hnot := List.any_eq_false.mp h f hf
  rw [decide_eq_true_iff] at hnot
  exact BitVec.not_lt.mp hnot

theorem get_consistent : ∀ (replies : List (Reply q)) (s : State), Roomy replies → h₀.Owned s.heap [] →
    Within (· = .waiting) (get q replies s) fun r =>
      Clean h₀ r.1 r.2 ∧ ∀ a, r.1 = some a → ∃ k, some k ∈ replies ∧ a.Of k r.2
  | [], _, _, _ => .error rfl
  | none :: _, _, _, ho => .ok ⟨ho.nil, nofun⟩
  | some counts :: rest, s, hroomy, ho => by
      rcases hm : allocAll counts.count q.arrays s with ⟨temps, enough, s₁⟩
      obtain ⟨ho₁, -, hroom⟩ := allocAll_spec counts.count ho hm
      unfold get
      rw [hm]
      dsimp only
      split
      · exact .of_returns (give_up ho₁ fun s' hs' => ⟨hs', nofun⟩)
      · next henough =>
        have hroom := hroom (by simpa using henough)
        match rest, hroomy with
        | [], _ => exact .error rfl
        | none :: _, _ => exact .of_returns (give_up ho₁ fun s' hs' => ⟨hs', nofun⟩)
        | some k :: rest, hroomy =>
            refine (Within.of_returns (fillAll_spec ho₁ hroom hroomy.1)).bind fun s₂ ⟨ho₂, hfilled, _⟩ => ?_
            split
            · refine (Within.of_returns (freeAll_spec ho₂)).bind fun s₃ ⟨ho₃, _⟩ => ?_
              refine (get_consistent rest s₃ hroomy.2 ho₃).mono fun r ⟨hclean, hof⟩ => ⟨hclean, fun a ha => ?_⟩
              obtain ⟨k', hk', hak⟩ := hof a ha
              exact ⟨k', List.mem_cons_of_mem _ (List.mem_cons_of_mem _ hk'), hak⟩
            · next hgrown =>
              have hwhole := whole_of_filled (le_of_not_grown (Bool.eq_false_iff.mpr hgrown)) hfilled
              rw [List.append_nil] at ho₂
              refine .of_returns ((answer_spec ho₂ hwhole).mono fun r ⟨hclean, hof⟩ => ⟨hclean, fun a ha => ?_⟩)
              exact ⟨k, List.mem_cons_of_mem _ List.mem_cons_self, hof a ha⟩

/-- Whatever states the kernel goes through and whichever allocations fail, each of the five functions returns NULL or
    one state of the kernel, and frees all else once: as long as arrays have the room that they were given. -/
theorem mode_queries (s : State) :
    (∀ replies : List (Reply resources), Roomy replies → Consistent replies s (drmModeGetResources replies s)) ∧
    (∀ replies : List (Reply connector), Roomy replies → Consistent replies s (drmModeGetConnector replies s)) ∧
    (∀ replies : List (Reply plane), Roomy replies → Consistent replies s (drmModeGetPlane replies s)) ∧
    (∀ replies : List (Reply plane_resources), Roomy replies →
      Consistent replies s (drmModeGetPlaneResources replies s)) ∧
    (∀ replies : List (Reply object_properties), Roomy replies →
      Consistent replies s (drmModeObjectGetProperties replies s)) := by
  refine ⟨?_, ?_, ?_, ?_, ?_⟩ <;> exact fun replies hroomy => get_consistent replies s hroomy .refl

/-- A card with connectors, and with nothing else. -/
def connectors (n : Word) (ids : List Nat) (h : ids.length = n.toNat) : Kernel resources where
  scalars := [0, 4096, 0, 4096]
  count
    | .connectors => n
    | _ => 0
  content
    | .connectors => ids
    | _ => []
  full := by
    simp [resources, h]

/-- A connector appears between the two calls, and all is asked for again. -/
theorem mode_queries_hotplug : ∃ a s', drmModeGetResources [some (connectors 1 [5] rfl), some (connectors 2 [5, 6] rfl),
    some (connectors 2 [5, 6] rfl), some (connectors 2 [5, 6] rfl)] ⟨.empty, []⟩ = .ok (some a, s') ∧
      a.count .connectors = 2 ∧ Heap.empty.Owned s'.heap (a.self :: a.arrays) := by
  refine ⟨_, _, rfl, rfl, ?_⟩
  have h := (mode_queries ⟨.empty, []⟩).1 [some (connectors 1 [5] rfl), some (connectors 2 [5, 6] rfl),
    some (connectors 2 [5, 6] rfl), some (connectors 2 [5, 6] rfl)] ⟨by decide, by decide, trivial⟩
  exact (h.1 _ rfl).1.2

/-- A card with 2^30 connectors. -/
def crowd : Kernel resources := connectors 0x40000000 (List.replicate (2 ^ 30) 7) List.length_replicate

/-- The number of bytes for them becomes 0, and the kernel writes beyond the block. -/
theorem mode_queries_overflow : ¬ ∀ (replies : List (Reply resources)) (s : State),
    Consistent replies s (drmModeGetResources replies s) := by
  intro h
  have hwithin := (h [some crowd, some crowd] ⟨.empty, []⟩).2
  have hrun : FailsWith .overflow (drmModeGetResources [some crowd, some crowd] ⟨.empty, []⟩) = true := by decide +kernel
  cases hwithin _ (failsWith_iff.mp hrun)

end LibDrm.Mode.Queries
