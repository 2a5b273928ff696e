/-
# `LibDrm.Lib.Tiling` — intervals that tile a range

A list of pieces, each an interval `[ofs x, ofs x + size x)` that is not empty,
tiles `[lo, hi)` if the first starts at `lo`, each starts where the one before
it ends, and the last ends at `hi`.  A piece of a tiling can be cut in two and
two neighbours can be joined (`Tiles.replace`); the pieces of a tiling do not
overlap (`Tiles.pairwise`).

Where some pieces are free and no two neighbours are (`Merged`), a free interval
lies in one piece (`Tiles.free_piece`), and the pieces in use determine all the
others (`Tiles.determined`).
-/
import Mathlib.Data.List.Chain
import Mathlib.Data.List.Pairwise
import Mathlib.Algebra.Order.Ring.Int

namespace Tiling

variable {α : Type} {ofs size ofs' size' : α → Int}

/-- The pieces of `l`, in order, tile `[lo, hi)`. -/
def Tiles (ofs size : α → Int) : Int → List α → Int → Prop
  | lo, [], hi => lo = hi
  | lo, x :: l, hi => ofs x = lo ∧ 0 < size x ∧ Tiles ofs size (lo + size x) l hi

/-- A piece that lies apart from another. -/
def Apart (ofs size : α → Int) (x y : α) : Prop := ofs x + size x ≤ ofs y ∨ ofs y + size y ≤ ofs x

theorem Tiles.congr {l : List α} (hofs : ∀ x ∈ l, ofs' x = ofs x) (hsize : ∀ x ∈ l, size' x = size x) :
    ∀ {lo hi : Int}, Tiles ofs size lo l hi → Tiles ofs' size' lo l hi := by
  induction l with
  | nil => exact fun h => h
  | cons x l ih =>
      rintro lo hi ⟨h₁, h₂, h₃⟩
      have hx : size' x = size x := hsize x (List.mem_cons_self ..)
      refine ⟨(hofs x (List.mem_cons_self ..)).trans h₁, by rw [hx]; exact h₂, ?_⟩
      rw [hx]
      exact ih (fun y hy => hofs y (List.mem_cons_of_mem _ hy)) (fun y hy => hsize y (List.mem_cons_of_mem _ hy)) h₃

theorem tiles_append {l₁ l₂ : List α} {lo hi : Int} :
    Tiles ofs size lo (l₁ ++ l₂) hi ↔ ∃ mid, Tiles ofs size lo l₁ mid ∧ Tiles ofs size mid l₂ hi := by
  induction l₁ generalizing lo with
  | nil =>
      constructor
      · exact fun h => ⟨lo, rfl, h⟩
      · rintro ⟨mid, rfl, h⟩
        exact h
  | cons x l₁ ih =>
      constructor
      · rintro ⟨h₁, h₂, h₃⟩
        obtain ⟨mid, h₃, h₄⟩ := ih.mp h₃
        exact ⟨mid, ⟨h₁, h₂, h₃⟩, h₄⟩
      · rintro ⟨mid, ⟨h₁, h₂, h₃⟩, h₄⟩
        exact ⟨h₁, h₂, ih.mpr ⟨mid, h₃, h₄⟩⟩

/-- A part of a tiling is replaced by one that tiles the same range. -/
theorem Tiles.replace {l₁ k k' l₂ : List α} {lo hi : Int} (h : Tiles ofs size lo (l₁ ++ (k ++ l₂)) hi)
    (hofs : ∀ x ∈ l₁ ++ l₂, ofs' x = ofs x) (hsize : ∀ x ∈ l₁ ++ l₂, size' x = size x)
    (hk : ∀ a b, Tiles ofs size a k b → Tiles ofs' size' a k' b) :
    Tiles ofs' size' lo (l₁ ++ (k' ++ l₂)) hi := by
  obtain ⟨a, h₁, h⟩ := (tiles_append).mp h
  obtain ⟨b, h₂, h₃⟩ := (tiles_append).mp h
  refine (tiles_append).mpr ⟨a, h₁.congr ?_ ?_, (tiles_append).mpr ⟨b, hk a b h₂, h₃.congr ?_ ?_⟩⟩
  · exact fun x hx => hofs x (List.mem_append_left _ hx)
  · exact fun x hx => hsize x (List.mem_append_left _ hx)
  · exact fun x hx => hofs x (List.mem_append_right _ hx)
  · exact fun x hx => hsize x (List.mem_append_right _ hx)

theorem Tiles.le {l : List α} : ∀ {lo hi : Int}, Tiles ofs size lo l hi → lo ≤ hi := by
  induction l with
  | nil => exact fun h => le_of_eq h
  | cons x l ih =>
      rintro lo hi ⟨-, h₂, h₃⟩
      have := ih h₃
      omega

/-- Every piece is inside the range and not empty. -/
theorem Tiles.mem {l : List α} {x : α} (hx : x ∈ l) :
    ∀ {lo hi : Int}, Tiles ofs size lo l hi → lo ≤ ofs x ∧ 0 < size x ∧ ofs x + size x ≤ hi := by
  induction l with
  | nil => cases hx
  | cons y l ih =>
      rintro lo hi ⟨h₁, h₂, h₃⟩
      rcases List.mem_cons.mp hx with rfl | hx
      · have := h₃.le
        omega
      · have := ih hx h₃
        omega

/-- Every piece ends before the pieces after it start. -/
theorem Tiles.pairwise {l : List α} :
    ∀ {lo hi : Int}, Tiles ofs size lo l hi → l.Pairwise fun x y => ofs x + size x ≤ ofs y := by
  induction l with
  | nil => exact fun _ => List.Pairwise.nil
  | cons x l ih =>
      rintro lo hi ⟨h₁, h₂, h₃⟩
      refine List.pairwise_cons.mpr ⟨fun y hy => ?_, ih h₃⟩
      have := (h₃.mem hy).1
      omega

theorem tiles_map {β : Type} {f : β → α} {l : List β} {lo hi : Int} :
    Tiles ofs size lo (l.map f) hi ↔ Tiles (fun x => ofs (f x)) (fun x => size (f x)) lo l hi := by
  induction l generalizing lo with
  | nil => exact Iff.rfl
  | cons x l ih => exact and_congr_right' (and_congr_right' ih)

/-- The sizes and the start determine a tiling. -/
theorem Tiles.unique {l : List α} : ∀ {lo hi hi' : Int}, Tiles ofs size lo l hi → Tiles ofs' size lo l hi' →
    hi = hi' ∧ ∀ x ∈ l, ofs x = ofs' x := by
  induction l with
  | nil => exact fun h h' => ⟨h.symm.trans h', nofun⟩
  | cons x l ih =>
      rintro lo hi hi' ⟨h₁, -, h₃⟩ ⟨h₁', -, h₃'⟩
      obtain ⟨hhi, hrest⟩ := ih h₃ h₃'
      refine ⟨hhi, fun y hy => ?_⟩
      rcases List.mem_cons.mp hy with rfl | hy
      · exact h₁.trans h₁'.symm
      · exact hrest y hy

/-- Where the range starts on a multiple and all sizes are multiples, all pieces start on one. -/
theorem Tiles.dvd {d : Int} {l : List α} (hsize : ∀ x ∈ l, d ∣ size x) :
    ∀ {lo hi : Int}, d ∣ lo → Tiles ofs size lo l hi → ∀ x ∈ l, d ∣ ofs x := by
  induction l with
  | nil => exact fun _ _ => nofun
  | cons x l ih =>
      rintro lo hi hlo ⟨h₁, -, h₃⟩ y hy
      rcases List.mem_cons.mp hy with rfl | hy
      · exact h₁ ▸ hlo
      · exact ih (fun z hz => hsize z (List.mem_cons_of_mem _ hz)) (Int.dvd_add hlo (hsize x (List.mem_cons_self ..))) h₃ y hy

/-- The numbers in the pieces are the numbers in the range. -/
theorem Tiles.flatMap_range' {o s : α → Nat} {l : List α} : ∀ {lo hi : Nat},
    Tiles (fun x => (o x : Int)) (fun x => (s x : Int)) lo l hi →
      l.flatMap (fun x => List.range' (o x) (s x)) = List.range' lo (hi - lo) := by
  induction l with
  | nil =>
      intro lo hi h
      obtain rfl : lo = hi := Int.ofNat_inj.mp h
      rw [Nat.sub_self]
      rfl
  | cons x l ih =>
      rintro lo hi ⟨h₁, h₂, h₃⟩
      have h₃ : Tiles (fun x => (o x : Int)) (fun x => (s x : Int)) ((lo + s x : Nat) : Int) l hi := by
        rwa [Nat.cast_add]
      have hle : lo + s x ≤ hi := Int.ofNat_le.mp h₃.le
      obtain rfl : o x = lo := Int.ofNat_inj.mp h₁
      rw [List.flatMap_cons, ih h₃, List.range'_append_1, show s x + (hi - (o x + s x)) = hi - o x by omega]

instance : Std.Symm (Apart ofs size) := ⟨fun _ _ h => h.symm⟩

theorem Tiles.apart {l : List α} {lo hi : Int} (h : Tiles ofs size lo l hi) {x y : α} (hx : x ∈ l) (hy : y ∈ l)
    (hxy : x ≠ y) : Apart ofs size x y := by
  have hpw : l.Pairwise (Apart ofs size) := h.pairwise.imp fun h => Or.inl h
  exact hpw.forall hx hy hxy

/-! ## Free pieces -/

/-- Of two neighbours, at most one is free. -/
abbrev Merged (free : α → Bool) (l : List α) : Prop := (l.map free).IsChain fun a b => ¬ (a = true ∧ b = true)

/-- A piece in use of this offset and size. -/
def Used (ofs size : α → Int) (free : α → Bool) (l : List α) (o s : Int) : Prop :=
  ∃ x ∈ l, free x = false ∧ ofs x = o ∧ size x = s

variable {free free' : α → Bool} {l l' : List α} {x y : α} {lo hi o s : Int}

theorem merged_cons : Merged free (x :: l) ↔ (∀ y ∈ l.head?, ¬ (free x = true ∧ free y = true)) ∧ Merged free l := by
  rw [Merged, List.map_cons, List.isChain_cons, List.head?_map]
  exact and_congr_left fun _ => by simp

/-- An interval of the range that is apart from the pieces in use lies in a free piece. -/
theorem Tiles.free_piece {e : Int} (hse : s < e) : ∀ {lo : Int}, Tiles ofs size lo l hi → Merged free l → lo ≤ s →
    e ≤ hi → (∀ x ∈ l, free x = false → e ≤ ofs x ∨ ofs x + size x ≤ s) →
    ∃ x ∈ l, free x = true ∧ ofs x ≤ s ∧ e ≤ ofs x + size x := by
  induction l with
  | nil =>
      rintro lo rfl - hlo hhi -
      omega
  | cons x l ih =>
      rintro lo ⟨hx, hpos, hl⟩ hm hlo hhi hused
      obtain ⟨hhead, hm⟩ := (merged_cons).mp hm
      by_cases hs : lo + size x ≤ s
      · obtain ⟨y, hy, h⟩ := ih hl hm hs hhi fun y hy => hused y (List.mem_cons_of_mem _ hy)
        exact ⟨y, List.mem_cons_of_mem _ hy, h⟩
      · have hfree : free x = true := by
          by_contra hfree
          have := hused x List.mem_cons_self (Bool.eq_false_iff.mpr hfree)
          omega
        refine ⟨x, List.mem_cons_self, hfree, by omega, ?_⟩
        by_contra hlt
        cases l with
        | nil =>
            have : lo + size x = hi := hl
            omega
        | cons y l =>
            -- the piece after it is in use, and starts inside the interval
            obtain ⟨hy, hypos, -⟩ := hl
            have hyused : free y = false := Bool.eq_false_iff.mpr fun h => hhead y rfl ⟨hfree, h⟩
            have := hused y (List.mem_cons_of_mem _ List.mem_cons_self) hyused
            omega

theorem used_cons : Used ofs size free (x :: l) o s ↔
    free x = false ∧ ofs x = o ∧ size x = s ∨ Used ofs size free l o s := by
  simp [Used]

theorem Used.ge (hu : Used ofs size free l o s) (h : Tiles ofs size lo l hi) : lo ≤ o := by
  obtain ⟨x, hx, -, rfl, -⟩ := hu
  exact (h.mem hx).1

/-- A piece in use at the start is the first one. -/
theorem Used.first (h : Tiles ofs size lo (x :: l) hi) (hu : Used ofs size free (x :: l) lo s) :
    free x = false ∧ size x = s := by
  obtain ⟨hx, hpos, hl⟩ := h
  rcases (used_cons).mp hu with ⟨hfree, -, hs⟩ | hu
  · exact ⟨hfree, hs⟩
  · have := hu.ge hl
    omega

/-- A free first piece goes as far as the pieces in use let it. -/
theorem Tiles.first_le (h : Tiles ofs size lo (x :: l) hi) (h' : Tiles ofs' size' lo (y :: l') hi)
    (hm : Merged free (x :: l)) (hx : free x = true) (hy : free' y = true)
    (hused : ∀ o s, Used ofs size free (x :: l) o s → Used ofs' size' free' (y :: l') o s) : size' y ≤ size x := by
  obtain ⟨-, -, hl'⟩ := h'
  obtain ⟨-, hpos, hl⟩ := h
  cases l with
  | nil =>
      have hend : lo + size x = hi := hl
      have := hl'.le
      omega
  | cons z l =>
      have hz : free z = false := Bool.eq_false_iff.mpr fun h => ((merged_cons).mp hm).1 z rfl ⟨hx, h⟩
      rcases (used_cons).mp (hused _ _ ⟨z, by simp, hz, hl.1, rfl⟩) with ⟨hyused, -⟩ | hu
      · rw [hy] at hyused
        cases hyused
      · have := hu.ge hl'
        omega

theorem Used.tail (h : Tiles ofs size lo (x :: l) hi) (h' : Tiles ofs' size' lo (y :: l') hi)
    (hused : Used ofs size free (x :: l) o s → Used ofs' size' free' (y :: l') o s)
    (hu : Used ofs size free l o s) : Used ofs' size' free' l' o s := by
  rcases (used_cons).mp (hused ((used_cons).mpr (.inr hu))) with ⟨-, hy, -⟩ | hu'
  · -- the first piece starts where the pieces of `l` do not
    have := hu.ge h.2.2
    have := h.2.1
    have := h'.1
    omega
  · exact hu'

/-- Two tilings of a range with the same pieces in use are the same, free pieces included. -/
theorem Tiles.determined (h : Tiles ofs size lo l hi) (h' : Tiles ofs' size' lo l' hi) (hm : Merged free l)
    (hm' : Merged free' l') (hused : ∀ o s, Used ofs size free l o s ↔ Used ofs' size' free' l' o s) :
    l.map (fun x => (ofs x, size x, free x)) = l'.map fun x => (ofs' x, size' x, free' x) := by
  induction l generalizing lo l' with
  | nil =>
      cases l' with
      | nil => rfl
      | cons y l' =>
          have : lo = hi := h
          have := h'.2.2.le
          have := h'.2.1
          omega
  | cons x l ih =>
      cases l' with
      | nil =>
          have : lo = hi := h'
          have := h.2.2.le
          have := h.2.1
          omega
      | cons y l' =>
          have hfirst : free x = free' y ∧ size x = size' y := by
            cases hx : free x with
            | false =>
                have hu := (hused lo (size x)).mp ⟨x, List.mem_cons_self, hx, h.1, rfl⟩
                obtain ⟨hy, hsize⟩ := hu.first h'
                exact ⟨hy.symm, hsize.symm⟩
            | true =>
                cases hy : free' y with
                | false =>
                    have hu := (hused lo (size' y)).mpr ⟨y, List.mem_cons_self, hy, h'.1, rfl⟩
                    rw [(hu.first h).1] at hx
                    cases hx
                | true =>
                    refine ⟨rfl, le_antisymm ?_ ?_⟩
                    · exact h'.first_le h hm' hy hx fun o s => (hused o s).mpr
                    · exact h.first_le h' hm hx hy fun o s => (hused o s).mp
          have htail := ih h.2.2 (by rw [hfirst.2]; exact h'.2.2) ((merged_cons).mp hm).2 ((merged_cons).mp hm').2
            fun o s => ⟨Used.tail h h' (hused o s).mp, Used.tail h' h (hused o s).mpr⟩
          rw [List.map_cons, List.map_cons, htail, h.1, h'.1, hfirst.1, hfirst.2]

end Tiling
