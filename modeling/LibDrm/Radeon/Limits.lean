/-
# `LibDrm.Radeon.Limits` — the memory that is accounted for

The manager counts how much memory the buffers need that were recorded by space
checks: for reading, for writing to GTT and for writing to VRAM.  That the counters are
no less than what is recorded (`Bounded`) is what makes a check that fits an answer
about all of them.

Four things break it, and `Op.KeepsCount` excludes them:

* `emit` sets the counters to 0 and forgets the buffers of its stream, but no others;
* a buffer that goes over from reading to writing is subtracted once for each time it
  is listed, and may be recorded as read again in the end;
* the counters are 32 bits wide;
* a write domain that does not fit in its half of the word looks like a read domain.
-/
import LibDrm.Radeon.Table

namespace LibDrm.Radeon

variable {s s' : State} {b : BoId} {c : CsId} {bo : Bo} {cs cs' : Cs} {l l' : List SpaceCheck} {z z' : Sizes}

/-! ## What is counted -/

inductive Kind
  | read
  | gttWrite
  | vramWrite
  deriving DecidableEq

/-- What is recorded for a buffer says that it is counted here. -/
def Kind.Counts : Kind → BitVec 32 → Prop
  | .read, a => a >>> 16 ≠ 0
  | .gttWrite, a => a &&& 0xffff = RADEON_GEM_DOMAIN_GTT
  | .vramWrite, a => a &&& 0xffff = RADEON_GEM_DOMAIN_VRAM

instance : (k : Kind) → (a : BitVec 32) → Decidable (k.Counts a)
  | .read, a => inferInstanceAs (Decidable (a >>> 16 ≠ 0))
  | .gttWrite, a => inferInstanceAs (Decidable (a &&& 0xffff = RADEON_GEM_DOMAIN_GTT))
  | .vramWrite, a => inferInstanceAs (Decidable (a &&& 0xffff = RADEON_GEM_DOMAIN_VRAM))

def Sizes.of : Kind → Sizes → Int
  | .read, z => z.opRead
  | .gttWrite, z => z.opGartWrite
  | .vramWrite, z => z.opVramWrite

def Manager.used : Kind → Manager → Int
  | .read, csm => csm.readUsed
  | .gttWrite, csm => csm.gartWriteUsed
  | .vramWrite, csm => csm.vramWriteUsed

/-- What a buffer counts for when `a` is recorded for it. -/
def Bo.weight (k : Kind) (a : BitVec 32) (bo : Bo) : Int :=
  if bo.isStatic = false ∧ k.Counts a then bo.size.toNat else 0

/-- The memory of the buffers that are recorded. -/
def total (k : Kind) (s : State) : Int :=
  ∑ b ∈ Finset.range s.freshBo, (s.bo b).elim 0 fun bo => bo.weight k bo.spaceAccounted

/-- What is recorded is for reading or for writing. -/
def Halved (a : BitVec 32) : Prop := a >>> 16 = 0 ∨ a &&& 0xffff = 0

theorem halved_zero : Halved 0 := .inl (by decide)

theorem not_counts_zero (k : Kind) : ¬ k.Counts 0 := by
  cases k <;> decide

/-! ## The halves of a word -/

theorem lower_shiftLeft (a : BitVec 32) : a <<< 16 &&& 0xffff = 0 := by
  refine BitVec.eq_of_toNat_eq ?_
  rw [BitVec.toNat_and, BitVec.toNat_shiftLeft, Nat.shiftLeft_eq,
    show BitVec.toNat (0xffff : BitVec 32) = 2 ^ 16 - 1 from rfl, Nat.and_two_pow_sub_one_eq_mod, show BitVec.toNat (0 : BitVec 32) = 0 from rfl]
  omega

theorem upper_of_narrow {a : BitVec 32} (h : a.toNat < 2 ^ 16) : a >>> 16 = 0 := by
  refine BitVec.eq_of_toNat_eq ?_
  rw [BitVec.toNat_ushiftRight, Nat.shiftRight_eq_div_pow, Nat.div_eq_of_lt h]
  rfl

theorem lower_of_upper {a : BitVec 32} (h : a >>> 16 = 0) : a &&& 0xffff = a := by
  have hlt : a.toNat / 2 ^ 16 = 0 := by
    rw [← Nat.shiftRight_eq_div_pow, ← BitVec.toNat_ushiftRight, h]
    rfl
  refine BitVec.eq_of_toNat_eq ?_
  rw [BitVec.toNat_and, show BitVec.toNat (0xffff : BitVec 32) = 2 ^ 16 - 1 from rfl, Nat.and_two_pow_sub_one_eq_mod]
  omega

theorem gttWrite_counts {a : BitVec 32} (h : a.toNat < 2 ^ 16) : Kind.gttWrite.Counts a ↔ a = RADEON_GEM_DOMAIN_GTT := by
  rw [Kind.Counts, lower_of_upper (upper_of_narrow h)]

theorem vramWrite_counts {a : BitVec 32} (h : a.toNat < 2 ^ 16) : Kind.vramWrite.Counts a ↔ a = RADEON_GEM_DOMAIN_VRAM := by
  rw [Kind.Counts, lower_of_upper (upper_of_narrow h)]

/-! ## One buffer -/

/-- Sizes that were added up from `n` bytes. -/
structure Sizes.InRange (n : Int) (z : Sizes) : Prop where
  readLow : -n ≤ z.opRead
  readHigh : z.opRead ≤ n
  gart : 0 ≤ z.opGartWrite ∧ z.opGartWrite ≤ n
  vram : 0 ≤ z.opVramWrite ∧ z.opVramWrite ≤ n
  sum : z.opRead + z.opGartWrite + z.opVramWrite ≤ n

theorem Sizes.InRange.mono {n m : Int} (h : z.InRange n) (hnm : n ≤ m) : z.InRange m := by
  obtain ⟨h₁, h₂, h₃, h₄, h₅⟩ := h
  constructor <;> omega

/-- The request takes the buffer over from reading to writing. -/
def SpaceCheck.Moves (sc : SpaceCheck) (a : BitVec 32) : Prop :=
  sc.writeDomain ≠ 0 ∧ a >>> 16 &&& sc.writeDomain ≠ 0 ∧ ¬ (sc.readDomains ≠ 0 ∧ sc.readDomains <<< 16 = a)

/-- What is counted for a write domain that is recorded. -/
theorem addWrite_count {n m : Int} {writeDomain : BitVec 32} (hgart : 0 ≤ z.opGartWrite ∧ z.opGartWrite ≤ n)
    (hvram : 0 ≤ z.opVramWrite ∧ z.opVramWrite ≤ n) (hm : 0 ≤ m) (hn : n + m < 2 ^ 31)
    (hnarrow : writeDomain.toNat < 2 ^ 16) :
    (z.addWrite writeDomain m).opRead = z.opRead ∧
      (z.addWrite writeDomain m).opGartWrite = z.opGartWrite + (if Kind.gttWrite.Counts writeDomain then m else 0) ∧
      (z.addWrite writeDomain m).opVramWrite = z.opVramWrite + (if Kind.vramWrite.Counts writeDomain then m else 0) := by
  simp only [gttWrite_counts hnarrow, vramWrite_counts hnarrow]
  unfold Sizes.addWrite
  by_cases hv : writeDomain = RADEON_GEM_DOMAIN_VRAM
  · have hg : writeDomain ≠ RADEON_GEM_DOMAIN_GTT := by rw [hv]; decide
    rw [if_pos hv, if_pos hv, if_neg hg]
    exact ⟨rfl, (add_zero _).symm, CInt.int32_of_range (by omega) (by omega)⟩
  · rw [if_neg hv, if_neg hv]
    by_cases hg : writeDomain = RADEON_GEM_DOMAIN_GTT
    · rw [if_pos hg, if_pos hg]
      exact ⟨rfl, CInt.int32_of_range (by omega) (by omega), (add_zero _).symm⟩
    · rw [if_neg hg, if_neg hg]
      exact ⟨rfl, (add_zero _).symm, (add_zero _).symm⟩

theorem Bo.weight_eq {k : Kind} {a : BitVec 32} (hstatic : bo.isStatic = false) :
    bo.weight k a = if k.Counts a then (bo.size.toNat : Int) else 0 := by
  simp [Bo.weight, hstatic]

/-- What is found for one buffer: the sizes grow by no less than what it counts for more than before, and they only
    shrink when it is taken over from reading to writing. -/
theorem Accounted.count {n : Int} {readDomains writeDomain a : BitVec 32} (hstatic : bo.isStatic = false)
    (hhalved : Halved bo.spaceAccounted) (hnarrow : writeDomain.toNat < 2 ^ 16) (hz : z.InRange n)
    (hn : n + bo.size.toNat < 2 ^ 31) (h : Accounted readDomains writeDomain bo z a z') :
    Halved a ∧ z'.InRange (n + bo.size.toNat) ∧
      ∀ k, bo.weight k a + z.of k ≤ bo.weight k bo.spaceAccounted + z'.of k := by
  have hsize : (0 : Int) ≤ bo.size.toNat := Int.natCast_nonneg _
  have hmono := hz.mono (show n ≤ n + bo.size.toNat by omega)
  have hnew : Halved writeDomain := .inl (upper_of_narrow hnarrow)
  have hnotRead : ¬ Kind.read.Counts writeDomain := not_not.mpr (upper_of_narrow hnarrow)
  have honce : ¬ (Kind.gttWrite.Counts writeDomain ∧ Kind.vramWrite.Counts writeDomain) := by
    rw [gttWrite_counts hnarrow, vramWrite_counts hnarrow]
    rintro ⟨rfl, h⟩
    exact absurd h (by decide)
  have hpos : ∀ (k : Kind) (a : BitVec 32), 0 ≤ if k.Counts a then (bo.size.toNat : Int) else 0 := by
    intro k a
    split <;> omega
  obtain ⟨hreadLow, hreadHigh, hgart, hvram, hsum⟩ := hz
  simp only [Bo.weight_eq hstatic]
  cases h with
  | sameWrite _ => exact ⟨hhalved, hmono, fun _ => le_rfl⟩
  | sameRead _ => exact ⟨hhalved, hmono, fun _ => le_rfl⟩
  | readBack _ _ _ hback =>
      have hupper : bo.spaceAccounted >>> 16 = 0 := hhalved.resolve_right fun h => hback (by rw [h]; simp)
      rw [lower_of_upper hupper]
      exact ⟨hhalved, hmono, fun _ => le_rfl⟩
  | write hnone hw =>
      obtain ⟨hr, hg, hv⟩ := addWrite_count hgart hvram hsize hn hnarrow
      refine ⟨hnew, ⟨by omega, by omega, ?_, ?_, ?_⟩, fun k => ?_⟩
      · rw [hg]
        split <;> omega
      · rw [hv]
        split <;> omega
      · rw [hr, hg, hv]
        split
        · next hgtt => rw [if_neg (fun hvram => honce ⟨hgtt, hvram⟩)]; omega
        · split <;> omega
      · have := hpos k bo.spaceAccounted
        cases k with
        | read =>
            simp only [Sizes.of, hr, if_neg hnotRead]
            omega
        | gttWrite =>
            simp only [Sizes.of, hg]
            omega
        | vramWrite =>
            simp only [Sizes.of, hv]
            omega
  | read hnone hw =>
      have hr : (z.addRead bo.size.toNat).opRead = z.opRead + bo.size.toNat :=
        CInt.int32_of_range (by omega) (by omega)
      refine ⟨.inr (lower_shiftLeft _), ⟨by omega, by omega, ?_, ?_, ?_⟩, fun k => ?_⟩
      · exact ⟨hgart.1, hgart.2.trans (by omega)⟩
      · exact ⟨hvram.1, hvram.2.trans (by omega)⟩
      · rw [hr]
        change z.opRead + _ + z.opGartWrite + z.opVramWrite ≤ _
        omega
      · have := hpos k bo.spaceAccounted
        cases k with
        | read =>
            simp only [Sizes.of, hr]
            split <;> omega
        | gttWrite =>
            rw [if_neg (by rw [Kind.Counts, lower_shiftLeft]; decide)]
            change 0 + z.opGartWrite ≤ _ + z.opGartWrite
            omega
        | vramWrite =>
            rw [if_neg (by rw [Kind.Counts, lower_shiftLeft]; decide)]
            change 0 + z.opVramWrite ≤ _ + z.opVramWrite
            omega
  | move _ hmove hcounts =>
      have hr₁ : (z.addRead (-(bo.size.toNat : Int))).opRead = z.opRead - bo.size.toNat :=
        CInt.int32_of_range (by omega) (by omega)
      obtain ⟨hr, hg, hv⟩ := addWrite_count (z := z.addRead (-(bo.size.toNat : Int))) hgart hvram hsize hn hnarrow
      rw [hr₁] at hr
      have hread : Kind.read.Counts bo.spaceAccounted := fun h => hmove.2 (by rw [h]; simp)
      refine ⟨hnew, ⟨by omega, by omega, ?_, ?_, ?_⟩, fun k => ?_⟩
      · rw [hg]
        change 0 ≤ z.opGartWrite + _ ∧ z.opGartWrite + _ ≤ _
        split <;> omega
      · rw [hv]
        change 0 ≤ z.opVramWrite + _ ∧ z.opVramWrite + _ ≤ _
        split <;> omega
      · rw [hr, hg, hv]
        change _ + (z.opGartWrite + _) + (z.opVramWrite + _) ≤ _
        split
        · next hgtt => rw [if_neg (fun hvram => honce ⟨hgtt, hvram⟩)]; omega
        · split <;> omega
      · have := hpos k bo.spaceAccounted
        cases k with
        | read =>
            simp only [Sizes.of, hr, if_neg hnotRead, if_pos hread]
            omega
        | gttWrite =>
            simp only [Sizes.of, hg]
            change _ + z.opGartWrite ≤ _ + (z.opGartWrite + _)
            omega
        | vramWrite =>
            simp only [Sizes.of, hv]
            change _ + z.opVramWrite ≤ _ + (z.opVramWrite + _)
            omega
  | moveOther _ hmove hcounts =>
      refine ⟨hnew, hmono, fun k => ?_⟩
      have := hpos k bo.spaceAccounted
      have hnone : ¬ k.Counts writeDomain := by
        cases k with
        | read => exact hnotRead
        | gttWrite => exact fun h => hcounts (.inr ((gttWrite_counts hnarrow).mp h))
        | vramWrite => exact fun h => hcounts (.inl ((vramWrite_counts hnarrow).mp h))
      rw [if_neg hnone]
      omega

/-- A buffer that is not taken over counts at least where it did. -/
theorem Accounted.keeps {sc : SpaceCheck} {a : BitVec 32} (hhalved : Halved bo.spaceAccounted)
    (h : Accounted sc.readDomains sc.writeDomain bo z a z') (hmoves : ¬ sc.Moves bo.spaceAccounted) (k : Kind)
    (hk : k.Counts bo.spaceAccounted) : k.Counts a := by
  cases h with
  | sameWrite _ => exact hk
  | sameRead _ => exact hk
  | readBack _ _ _ hback =>
      have hupper : bo.spaceAccounted >>> 16 = 0 := hhalved.resolve_right fun h => hback (by rw [h]; simp)
      rwa [lower_of_upper hupper]
  | write h0 _ => exact absurd (h0 ▸ hk) (not_counts_zero k)
  | read h0 _ => exact absurd (h0 ▸ hk) (not_counts_zero k)
  | move hread hmove _ => exact absurd ⟨hmove.1, hmove.2, hread⟩ hmoves
  | moveOther hread hmove _ => exact absurd ⟨hmove.1, hmove.2, hread⟩ hmoves

/-! ## All buffers of an operation -/

/-- The memory that counts if `A` is recorded. -/
def totalWith (k : Kind) (s : State) (A : BoId → BitVec 32) : Int :=
  ∑ b ∈ Finset.range s.freshBo, (s.bo b).elim 0 (Bo.weight k (A b))

/-- The size of the buffer of a request. -/
def sizeOf (s : State) (sc : SpaceCheck) : Int := (s.bo sc.bo).elim 0 fun bo => bo.size.toNat

/-- A buffer that is taken over from reading to writing is not listed again after it. -/
def MovesOnce (s : State) (l : List SpaceCheck) : Prop :=
  l.Pairwise fun sc sc' => ∀ bo, s.bo sc.bo = some bo → bo.isStatic = false → sc.Moves bo.spaceAccounted → sc'.bo ≠ sc.bo

theorem totalWith_update {k : Kind} {A : BoId → BitVec 32} {a : BitVec 32} (hb : s.bo b = some bo) (hlt : b < s.freshBo) :
    totalWith k s (Function.update A b a) = totalWith k s A - bo.weight k (A b) + bo.weight k a := by
  have h := Count.sum_update hlt A a fun c x => (s.bo c).elim 0 (Bo.weight k x)
  simp only [hb, Option.elim_some] at h
  exact h

theorem lastRecorded_cons {sc : SpaceCheck} {A : BoId → BitVec 32} :
    lastRecorded (sc :: l) b (A b) = lastRecorded l b (Function.update A sc.bo sc.newAccounted b) := by
  rw [Function.update_apply]
  rfl

theorem Bo.weight_static {k : Kind} {a : BitVec 32} (h : bo.isStatic = true) : bo.weight k a = 0 := by
  simp [Bo.weight, h]

theorem Bo.weight_mono {k : Kind} {a a' : BitVec 32} (h : k.Counts a → k.Counts a') : bo.weight k a ≤ bo.weight k a' := by
  unfold Bo.weight
  split
  · next ha => rw [if_pos ⟨ha.1, h ha.2⟩]
  · split
    · exact Int.natCast_nonneg _
    · exact le_rfl

/-- The sizes of an operation make up for what is recorded after it. -/
theorem Setup.count {n : Int} (h : Setup s l z l' z') (hnew : ∀ b, s.freshBo ≤ b → s.bo b = none)
    (hhalved : ∀ b bo, s.bo b = some bo → bo.isStatic = false → Halved bo.spaceAccounted)
    (hnarrow : ∀ sc ∈ l, sc.writeDomain.toNat < 2 ^ 16) (hmoves : MovesOnce s l) (hz : z.InRange n)
    (hn : n + (l.map (sizeOf s)).sum < 2 ^ 31) {A : BoId → BitVec 32}
    (hA : ∀ sc ∈ l, ∀ bo, s.bo sc.bo = some bo → bo.isStatic = false →
      ∀ k : Kind, k.Counts bo.spaceAccounted → k.Counts (A sc.bo))
    (hAhalved : ∀ b bo, s.bo b = some bo → bo.isStatic = false → Halved (A b)) :
    z'.InRange (n + (l.map (sizeOf s)).sum) ∧
      (∀ k, totalWith k s (fun b => lastRecorded l' b (A b)) + z.of k ≤ totalWith k s A + z'.of k) ∧
      ∀ b bo, s.bo b = some bo → bo.isStatic = false → Halved (lastRecorded l' b (A b)) := by
  induction h generalizing n A with
  | nil => exact ⟨by simpa using hz, fun k => le_rfl, hAhalved⟩
  | @fixed sc l l' z z' bo a hb hstatic _ ih =>
      have hlt : sc.bo < s.freshBo := Nat.lt_of_not_le fun hle => by
        rw [hnew _ hle] at hb
        cases hb
      have hsize : sizeOf s sc = bo.size.toNat := by simp [sizeOf, hb]
      have hne : ∀ {d bo'}, s.bo d = some bo' → bo'.isStatic = false → d ≠ sc.bo := by
        rintro d bo' hd hnot rfl
        cases hb.symm.trans hd
        rw [hstatic] at hnot
        cases hnot
      rw [List.map_cons, List.sum_cons, ← add_assoc] at hn ⊢
      simp only [lastRecorded_cons]
      obtain ⟨hz', htotal, hhalved'⟩ := ih (A := Function.update A sc.bo a)
        (fun sc' h' => hnarrow sc' (List.mem_cons_of_mem _ h')) (List.pairwise_cons.mp hmoves).2
        (hz.mono (by omega)) hn (fun sc' h' bo' hb' hnot k hk => by
          rw [Function.update_of_ne (hne hb' hnot)]
          exact hA sc' (List.mem_cons_of_mem _ h') bo' hb' hnot k hk)
        (fun d bo' hd hnot => by
          rw [Function.update_of_ne (hne hd hnot)]
          exact hAhalved d bo' hd hnot)
      refine ⟨hz', fun k => ?_, hhalved'⟩
      have hupdate := totalWith_update (k := k) (A := A) (a := a) hb hlt
      rw [Bo.weight_static hstatic, Bo.weight_static hstatic] at hupdate
      have := htotal k
      omega
  | @counted sc l l' z z₁ z' bo a hb hstatic ha _ ih =>
      have hlt : sc.bo < s.freshBo := Nat.lt_of_not_le fun hle => by
        rw [hnew _ hle] at hb
        cases hb
      have hsize : sizeOf s sc = bo.size.toNat := by simp [sizeOf, hb]
      have haccounted := accountBo_cases ha
      obtain ⟨hmoved, hmoves⟩ := List.pairwise_cons.mp hmoves
      have hold := hhalved _ bo hb hstatic
      rw [List.map_cons, List.sum_cons, ← add_assoc] at hn ⊢
      have hrest : 0 ≤ (l.map (sizeOf s)).sum := List.sum_nonneg fun x hx => by
        obtain ⟨sc', -, rfl⟩ := List.mem_map.mp hx
        unfold sizeOf
        cases s.bo sc'.bo with
        | none => exact le_rfl
        | some bo' => exact Int.natCast_nonneg _
      obtain ⟨hnewHalved, hz₁, hweight⟩ := haccounted.count hstatic hold (hnarrow sc List.mem_cons_self) hz (by omega)
      rw [← hsize] at hz₁
      simp only [lastRecorded_cons]
      obtain ⟨hz', htotal, hhalved'⟩ := ih (A := Function.update A sc.bo a)
        (fun sc' h' => hnarrow sc' (List.mem_cons_of_mem _ h')) hmoves hz₁ hn (fun sc' h' bo' hb' hnot k hk => by
          rcases eq_or_ne sc'.bo sc.bo with hsame | hne
          · -- listed again, so it was not taken over
            rw [hsame] at hb' ⊢
            cases hb.symm.trans hb'
            rw [Function.update_self]
            exact haccounted.keeps hold (fun hm => hmoved sc' h' bo hb hstatic hm hsame) k hk
          · rw [Function.update_of_ne hne]
            exact hA sc' (List.mem_cons_of_mem _ h') bo' hb' hnot k hk)
        (fun d bo' hd hnot => by
          rcases eq_or_ne d sc.bo with rfl | hne
          · rwa [Function.update_self]
          · rw [Function.update_of_ne hne]
            exact hAhalved d bo' hd hnot)
      refine ⟨hz', fun k => ?_, hhalved'⟩
      have hupdate := totalWith_update (k := k) (A := A) (a := a) hb hlt
      have hmono : bo.weight k bo.spaceAccounted ≤ bo.weight k (A sc.bo) :=
        Bo.weight_mono (hA sc List.mem_cons_self bo hb hstatic k)
      have := htotal k
      have := hweight k
      omega

/-! ## Buffers that are left -/

/-- The buffers that are left have their sizes, and what is recorded changed by `g`. -/
structure Fewer (g : BoId → BitVec 32 → BitVec 32) (s s' : State) : Prop where
  freshBo : s'.freshBo = s.freshBo
  bo : ∀ b bo', s'.bo b = some bo' → ∃ bo, s.bo b = some bo ∧ bo'.size = bo.size ∧ bo'.isStatic = bo.isStatic ∧
    (bo.isStatic = false → bo'.spaceAccounted = g b bo.spaceAccounted)

theorem Fewer.refl : Fewer (fun _ a => a) s s := ⟨rfl, fun _ bo h => ⟨bo, h, rfl, rfl, fun _ => rfl⟩⟩

theorem Fewer.trans {s'' : State} {g g' : BoId → BitVec 32 → BitVec 32} (h : Fewer g s s') (h' : Fewer g' s' s'') :
    Fewer (fun b a => g' b (g b a)) s s'' := by
  refine ⟨h'.freshBo.trans h.freshBo, fun b bo'' hb => ?_⟩
  obtain ⟨bo', hb', hsize', hstatic', haccounted'⟩ := h'.bo b bo'' hb
  obtain ⟨bo, hb, hsize, hstatic, haccounted⟩ := h.bo b bo' hb'
  refine ⟨bo, hb, hsize'.trans hsize, hstatic'.trans hstatic, fun hnot => ?_⟩
  rw [haccounted' (hstatic.trans hnot), haccounted hnot]

theorem Still.fewer (h : Still s s') : Fewer (fun _ a => a) s s' := by
  refine ⟨h.freshBo, fun b bo' hb => ?_⟩
  obtain ⟨bo, n, hb₀, rfl⟩ := h.bo b bo' hb
  exact ⟨bo, hb₀, rfl, rfl, fun _ => rfl⟩

theorem Recounted.fewer {f : BoId → BitVec 32 → BitVec 32} (h : Recounted f s s') : Fewer f s s' := by
  refine ⟨h.freshBo, fun b bo' hb => ?_⟩
  obtain ⟨a, hbo, ha⟩ := h.bo b
  rw [hb] at hbo
  obtain ⟨bo, hb₀, rfl⟩ := Option.map_eq_some_iff.mp hbo.symm
  exact ⟨bo, hb₀, rfl, rfl, ha bo hb₀⟩

/-- What is recorded for a buffer. -/
def recordOf (s : State) (b : BoId) : BitVec 32 := (s.bo b).elim 0 (·.spaceAccounted)

theorem total_eq (k : Kind) : total k s = totalWith k s (recordOf s) := by
  refine Finset.sum_congr rfl fun b _ => ?_
  unfold recordOf
  cases s.bo b with
  | none => rfl
  | some bo => rfl

/-- The buffers that are left count for no more than what is recorded now. -/
theorem Fewer.total_le {g : BoId → BitVec 32 → BitVec 32} (h : Fewer g s s') (k : Kind) :
    total k s' ≤ totalWith k s fun b => g b (recordOf s b) := by
  unfold total totalWith
  rw [h.freshBo]
  refine Finset.sum_le_sum fun b _ => ?_
  have hpos : ∀ (bo : Bo) (a : BitVec 32), 0 ≤ bo.weight k a := by
    intro bo a
    unfold Bo.weight
    split
    · exact Int.natCast_nonneg _
    · exact le_rfl
  cases hb' : s'.bo b with
  | none =>
      cases s.bo b with
      | none => exact le_rfl
      | some bo => exact hpos bo _
  | some bo' =>
      obtain ⟨bo, hb, hsize, hstatic, haccounted⟩ := h.bo b bo' hb'
      simp only [recordOf, hb, Option.elim_some, Bo.weight, hsize, hstatic]
      cases hnot : bo.isStatic with
      | true => simp
      | false => rw [haccounted hnot]

/-! ## The invariant -/

/-- The counters are no less than what is recorded, and within the limits. -/
structure Bounded (s : State) : Prop where
  newBo : ∀ b, s.freshBo ≤ b → s.bo b = none
  halved : ∀ b bo, s.bo b = some bo → bo.isStatic = false → Halved bo.spaceAccounted
  counted : ∀ k, total k s ≤ s.csm.used k
  limits : s.csm.vramLimit < 2 ^ 31 ∧ s.csm.gartLimit < 2 ^ 31
  vram : s.csm.vramWriteUsed = 0 ∨ s.csm.vramWriteUsed ≤ s.csm.vramLimit
  gart : s.csm.readUsed + s.csm.gartWriteUsed = 0 ∨ s.csm.readUsed + s.csm.gartWriteUsed ≤ s.csm.gartLimit

theorem total_nonneg (k : Kind) : 0 ≤ total k s := by
  refine Finset.sum_nonneg fun b _ => ?_
  cases s.bo b with
  | none => exact le_rfl
  | some bo =>
      rw [Option.elim_some, Bo.weight]
      split
      · exact Int.natCast_nonneg _
      · exact le_rfl

theorem Bounded.used_nonneg (h : Bounded s) (k : Kind) : 0 ≤ s.csm.used k := (total_nonneg k).trans (h.counted k)

theorem Bounded.fewer (h : Bounded s) (hs : Fewer (fun _ a => a) s s') (hcsm : s'.csm = s.csm) : Bounded s' := by
  refine ⟨fun b hb => ?_, fun b bo' hb hnot => ?_, fun k => ?_, hcsm ▸ h.limits, hcsm ▸ h.vram, hcsm ▸ h.gart⟩
  · rw [hs.freshBo] at hb
    refine Option.eq_none_iff_forall_ne_some.mpr fun bo' hb' => ?_
    obtain ⟨bo, hb₀, -⟩ := hs.bo b bo' hb'
    rw [h.newBo b hb] at hb₀
    cases hb₀
  · obtain ⟨bo, hb₀, -, hstatic, haccounted⟩ := hs.bo b bo' hb
    rw [haccounted (hstatic ▸ hnot)]
    exact h.halved b bo hb₀ (hstatic ▸ hnot)
  · calc total k s' ≤ totalWith k s (recordOf s) := hs.total_le k
      _ = total k s := (total_eq k).symm
      _ ≤ s.csm.used k := h.counted k
      _ = s'.csm.used k := by rw [hcsm]

/-- Every buffer that is recorded is in the table of the stream. -/
def AllHeld (c : CsId) (s : State) : Prop := ∀ b bo, s.bo b = some bo → bo.isStatic = false →
  bo.spaceAccounted ≠ 0 → ∃ cs, s.cs c = some cs ∧ some b ∈ cs.relocsBo

/-- Nothing is recorded and nothing counted. -/
structure Cleared (s : State) : Prop where
  record : ∀ b bo, s.bo b = some bo → bo.isStatic = false → bo.spaceAccounted = 0
  used : ∀ k, s.csm.used k = 0

/-! ## Emit and erase -/

/-- Releasing buffers, some of them more than once. -/
theorem retireAll_fewer (f : Bo → Bo) (g : BitVec 32 → BitVec 32) (hsize : ∀ bo, (f bo).size = bo.size)
    (hstatic : ∀ bo, (f bo).isStatic = bo.isStatic) (hg : ∀ bo, (f bo).spaceAccounted = g bo.spaceAccounted)
    (hidem : ∀ a, g (g a) = g a) {l : List BoId} : Ensures (l.foldlM (retire f) s) fun s' =>
      Fewer (fun b a => if b ∈ l then g a else a) s s' ∧ s'.cs = s.cs ∧ s'.csm = s.csm := by
  refine Ensures.foldlM_done
    (I := fun done s' => Fewer (fun b a => if b ∈ done then g a else a) s s' ∧ s'.cs = s.cs ∧ s'.csm = s.csm) ?_ ?_
  · simpa using (Fewer.refl (s := s))
  · rintro done x rest s₁ - ⟨hs₁, hcs, hcsm⟩
    refine (retire_spec).mono fun s₂ hs₂ => ?_
    have hstep : Fewer (fun b a => if b = x then g a else a) s₁ s₂ := by
      refine ⟨by rw [hs₂.rest], fun b bo₂ hb => ?_⟩
      obtain ⟨bo₁, n, hb₁, rfl⟩ := hs₂.bo b bo₂ hb
      refine ⟨bo₁, hb₁, ?_⟩
      by_cases hbx : b = x
      · simp [hbx, Bo.counted, hsize, hstatic, hg]
      · simp [hbx, Bo.counted]
    refine ⟨?_, by rw [hs₂.rest]; exact hcs, by rw [hs₂.rest]; exact hcsm⟩
    have hboth := hs₁.trans hstep
    refine ⟨hboth.freshBo, fun b bo' hb => ?_⟩
    obtain ⟨bo, hb₀, hsize', hstatic', haccounted⟩ := hboth.bo b bo' hb
    refine ⟨bo, hb₀, hsize', hstatic', fun hnot => ?_⟩
    rw [haccounted hnot]
    rcases eq_or_ne b x with rfl | hbx
    · by_cases hmem : b ∈ done
      · simp [hmem, hidem]
      · simp [hmem]
    · simp [hbx]

/-- `emit` forgets what is recorded for the buffers of the stream, and all that is counted. -/
theorem csEmit_fewer {result : Int} : Ensures (csEmit c result s) fun r => ∃ cs cs', s.cs c = some cs ∧
    r.2.cs c = some cs' ∧ cs'.bos = cs.bos ∧ Fewer (fun b a => if some b ∈ cs.relocsBo then 0 else a) s r.2 ∧
    r.2.csm = { s.csm with readUsed := 0, vramWriteUsed := 0, gartWriteUsed := 0 } := by
  refine (getCs_spec).bind fun cs hc => (padPackets_spec).bind ?_
  rintro _ ⟨packets, n, rfl⟩
  dsimp only
  refine (emitBos_spec (retireAll_fewer (Bo.emitted cs.id) (fun _ => 0) (fun _ => rfl) (fun _ => rfl) (fun _ => rfl) fun _ => rfl)).bind ?_
  rintro s₁ ⟨⟨hs₁, -, hcsm⟩, -⟩
  refine .pure ⟨cs, _, hc, setCs_cs_self, by rfl, ⟨hs₁.freshBo, ?_⟩, by rw [← hcsm]; rfl⟩
  simp only [List.reduceOption_mem_iff] at hs₁
  exact hs₁.bo

theorem csErase_fewer : Ensures (csErase c s) fun s' => ∃ cs cs', s.cs c = some cs ∧
    s'.cs c = some cs' ∧ cs'.bos = cs.bos ∧ Fewer (fun _ a => a) s s' ∧ s'.csm = s.csm := by
  refine (getCs_spec).bind fun cs hc => ?_
  rw [eraseBos_eq]
  refine (retireAll_fewer (Bo.leave cs.id) (fun a => a) (fun _ => rfl) (fun _ => rfl) (fun _ => rfl) fun _ => rfl).bind ?_
  rintro s₁ ⟨hs₁, -, hcsm⟩
  simp only [ite_self] at hs₁
  exact .pure ⟨cs, _, hc, setCs_cs_self, by rfl, ⟨hs₁.freshBo, hs₁.bo⟩, hcsm⟩

/-- If everything that is recorded is in the table of the stream, nothing is left. -/
theorem csEmit_bounded {result : Int} (h : Bounded s) (hheld : AllHeld c s) : Ensures (csEmit c result s) fun r =>
    Bounded r.2 ∧ Cleared r.2 ∧ ∃ g cs cs', s.cs c = some cs ∧ r.2.cs c = some cs' ∧ cs'.bos = cs.bos ∧ Fewer g s r.2 := by
  refine (csEmit_fewer).mono ?_
  rintro r ⟨cs, cs', hc, hc', hbos, hs, hcsm⟩
  have hclear : ∀ b bo, r.2.bo b = some bo → bo.isStatic = false → bo.spaceAccounted = 0 := by
    intro b bo' hb hnot
    obtain ⟨bo, hb₀, -, hstatic, haccounted⟩ := hs.bo b bo' hb
    rw [haccounted (hstatic ▸ hnot)]
    split
    · rfl
    · next hmem =>
      by_contra hne
      obtain ⟨cs₁, hc₁, hmem₁⟩ := hheld b bo hb₀ (hstatic ▸ hnot) hne
      cases hc.symm.trans hc₁
      exact hmem hmem₁
  have hzero : ∀ k, r.2.csm.used k = 0 := by
    intro k
    rw [hcsm]
    cases k <;> rfl
  refine ⟨⟨?_, ?_, ?_, ?_, ?_, ?_⟩, ⟨hclear, hzero⟩, _, cs, cs', hc, hc', hbos, hs⟩
  · intro b hb
    rw [hs.freshBo] at hb
    refine Option.eq_none_iff_forall_ne_some.mpr fun bo' hb' => ?_
    obtain ⟨bo, hb₀, -⟩ := hs.bo b bo' hb'
    rw [h.newBo b hb] at hb₀
    cases hb₀
  · intro b bo hb hnot
    rw [hclear b bo hb hnot]
    exact halved_zero
  · intro k
    rw [hzero k]
    refine Finset.sum_nonpos fun b _ => ?_
    cases hb : r.2.bo b with
    | none => exact le_rfl
    | some bo =>
        rw [Option.elim_some, Bo.weight]
        split
        · next hcount =>
          rw [hclear b bo hb hcount.1] at hcount
          exact absurd hcount.2 (not_counts_zero k)
        · exact le_rfl
  · rw [hcsm]
    exact h.limits
  · exact .inl (hzero .vramWrite)
  · have hread := hzero .read
    have hgart := hzero .gttWrite
    simp only [Manager.used] at hread hgart
    exact .inl (by omega)

theorem flushCs_bounded {result : Int} (h : Bounded s) (hheld : AllHeld c s) : Ensures (flushCs c result s) fun s' =>
    Bounded s' ∧ Cleared s' ∧ ∃ g cs cs', s.cs c = some cs ∧ s'.cs c = some cs' ∧ cs'.bos = cs.bos ∧ Fewer g s s' := by
  refine (csEmit_bounded h hheld).bind ?_
  rintro r ⟨hr, hclear, g, cs, cs₁, hc, hc₁, hbos, hfewer⟩
  refine (csErase_fewer).mono ?_
  rintro s' ⟨cs₂, cs', hc₂, hc', hbos', hs', hcsm⟩
  cases hc₁.symm.trans hc₂
  refine ⟨hr.fewer hs' hcsm, ⟨?_, ?_⟩, _, cs, cs', hc, hc', hbos'.trans hbos, hfewer.trans hs'⟩
  · intro b bo' hb hnot
    obtain ⟨bo, hb₀, -, hstatic, haccounted⟩ := hs'.bo b bo' hb
    rw [haccounted (hstatic ▸ hnot)]
    exact hclear.record b bo hb₀ (hstatic ▸ hnot)
  · rw [hcsm]
    exact hclear.used

/-! ## Space checks -/

/-- Requests that are counted right: the write domains fit in their half, no buffer is taken over twice, and the
    counters do not overflow. -/
structure CountsRight (l : List SpaceCheck) (s : State) : Prop where
  narrow : ∀ sc ∈ l, sc.writeDomain.toNat < 2 ^ 16
  moves : MovesOnce s l
  fits : s.csm.vramWriteUsed + s.csm.gartWriteUsed + s.csm.readUsed + (l.map (sizeOf s)).sum < 2 ^ 31

/-- What fits beside what is counted already. -/
theorem judge_ok {csm : Manager} (h : judge z csm = RADEON_CS_SPACE_OK) :
    CInt.int32 (csm.vramWriteUsed + z.opVramWrite) ≤ csm.vramLimit ∧
      CInt.int32 (csm.readUsed + csm.gartWriteUsed + z.opGartWrite + if z.opRead < 0 then 0 else z.opRead)
        ≤ csm.gartLimit := by
  unfold judge at h
  dsimp only at h
  generalize (if z.opRead < 0 then 0 else z.opRead) = opRead at h ⊢
  split at h
  · exact absurd h (by decide)
  · split at h
    · exact absurd h (by decide)
    · next hfits =>
      rw [not_or, not_lt, not_lt] at hfits
      exact hfits

/-- A check that fits is counted. -/
theorem Setup.bounded (h : Bounded s) (hright : CountsRight l s) (hsetup : Setup s l {} l' z)
    (hjudge : judge z s.csm = RADEON_CS_SPACE_OK) (hs : Recounted (lastRecorded l') s s') (hcsm : s'.csm = use z s.csm) :
    Bounded s' := by
  have hrecord : ∀ {b bo}, s.bo b = some bo → recordOf s b = bo.spaceAccounted := by
    intro b bo hb
    simp [recordOf, hb]
  have hfits := hright.fits
  have hv := h.used_nonneg .vramWrite
  have hg := h.used_nonneg .gttWrite
  have hr := h.used_nonneg .read
  simp only [Manager.used] at hv hg hr
  obtain ⟨hz, htotal, hhalved⟩ := hsetup.count h.newBo h.halved hright.narrow hright.moves (n := 0)
    ⟨le_rfl, le_rfl, ⟨le_rfl, le_rfl⟩, ⟨le_rfl, le_rfl⟩, le_rfl⟩ (by omega) (A := recordOf s)
    (fun sc _ bo hb _ k hk => by rwa [hrecord hb]) (fun b bo hb hnot => by rw [hrecord hb]; exact h.halved b bo hb hnot)
  obtain ⟨-, hreadHigh, hgart, hvram, hsum⟩ := hz
  rw [zero_add] at hreadHigh hgart hvram hsum
  -- the counters do not overflow
  have hvram' : s'.csm.vramWriteUsed = s.csm.vramWriteUsed + z.opVramWrite := by
    rw [hcsm]
    exact CInt.int32_of_range (by omega) (by omega)
  have hgart' : s'.csm.gartWriteUsed = s.csm.gartWriteUsed + z.opGartWrite := by
    rw [hcsm]
    exact CInt.int32_of_range (by omega) (by omega)
  have hread' : s'.csm.readUsed = s.csm.readUsed + if z.opRead < 0 then 0 else z.opRead := by
    rw [hcsm]
    refine CInt.int32_of_range ?_ ?_ <;> split <;> omega
  have hlimits : s'.csm.vramLimit = s.csm.vramLimit ∧ s'.csm.gartLimit = s.csm.gartLimit := by
    rw [hcsm]
    exact ⟨rfl, rfl⟩
  obtain ⟨hvramFits, hgartFits⟩ := judge_ok hjudge
  have hbefore : ∀ k, totalWith k s (recordOf s) ≤ s.csm.used k := fun k => total_eq (s := s) k ▸ h.counted k
  refine ⟨?_, ?_, ?_, ?_, .inr ?_, .inr ?_⟩
  · intro b hb
    rw [hs.freshBo] at hb
    obtain ⟨a, hbo, -⟩ := hs.bo b
    rw [hbo, h.newBo b hb]
    rfl
  · intro b bo' hb hnot
    obtain ⟨bo, hb₀, -, hstatic, haccounted⟩ := hs.fewer.bo b bo' hb
    rw [haccounted (hstatic ▸ hnot), ← hrecord hb₀]
    exact hhalved b bo hb₀ (hstatic ▸ hnot)
  · intro k
    have hafter := hs.fewer.total_le k
    have hk := htotal k
    have hbefore := hbefore k
    cases k with
    | read =>
        simp only [Sizes.of, Manager.used, hread'] at *
        split <;> omega
    | gttWrite =>
        simp only [Sizes.of, Manager.used, hgart'] at *
        omega
    | vramWrite =>
        simp only [Sizes.of, Manager.used, hvram'] at *
        omega
  · rw [hlimits.1, hlimits.2]
    exact h.limits
  · rw [hvram', hlimits.1]
    rwa [CInt.int32_of_range (by omega) (by omega)] at hvramFits
  · rw [hread', hgart', hlimits.2]
    rw [CInt.int32_of_range] at hgartFits
    · omega
    · split <;> omega
    · split <;> omega

theorem flush_ne_ok : RADEON_CS_SPACE_FLUSH ≠ 0 := by decide

/-- One attempt. -/
theorem doSpaceCheck_bounded {tmpBo : Option SpaceCheck} (h : Bounded s) (hc : s.cs c = some cs)
    (hright : CountsRight (cs.bos ++ tmpBo.toList) s) : Ensures (doSpaceCheck c tmpBo s) fun r =>
      Bounded r.2 ∧ (r.1 ≠ 0 → Recounted (fun _ a => a) s r.2 ∧ r.2.csm = s.csm) := by
  refine (doSpaceCheck_spec).mono ?_
  rintro r ⟨cs₁, hc₁, ⟨-, hs, hcsm⟩ | ⟨hret, -, -, hs⟩ | ⟨hret, l, z, hsetup, hjudge, hs, hcsm⟩⟩
  · exact ⟨h.fewer hs.fewer hcsm, fun _ => ⟨hs, hcsm⟩⟩
  · exact ⟨hs ▸ h, fun hne => absurd hret hne⟩
  · cases hc.symm.trans hc₁
    exact ⟨hsetup.bounded h hright hjudge hs hcsm, fun hne => absurd hret hne⟩

/-- With nothing recorded every request is counted right that was before. -/
theorem CountsRight.cleared {g : BoId → BitVec 32 → BitVec 32} (h : Bounded s) (hright : CountsRight l s)
    (hclear : Cleared s') (hs : Fewer g s s') (hl : l'.map SpaceCheck.request = l.map SpaceCheck.request) :
    CountsRight l' s' := by
  have hv := h.used_nonneg .vramWrite
  have hg := h.used_nonneg .gttWrite
  have hr := h.used_nonneg .read
  have hv' := hclear.used .vramWrite
  have hg' := hclear.used .gttWrite
  have hr' := hclear.used .read
  simp only [Manager.used] at hv hg hr hv' hg' hr'
  refine ⟨?_, ?_, ?_⟩
  · intro sc hsc
    have hmem : sc.request ∈ l.map SpaceCheck.request := hl ▸ List.mem_map_of_mem hsc
    obtain ⟨sc₀, hsc₀, hrequest⟩ := List.mem_map.mp hmem
    have hwrite : sc₀.writeDomain = sc.writeDomain := congrArg (·.2.2) hrequest
    rw [← hwrite]
    exact hright.narrow sc₀ hsc₀
  · refine List.pairwise_of_forall fun sc sc' bo hb hnot hmoves => ?_
    rw [hclear.record _ bo hb hnot] at hmoves
    exact absurd hmoves.2.1 (by simp)
  · have hsizes : (l'.map (sizeOf s')).sum ≤ (l.map (sizeOf s)).sum := by
      have hmap : ∀ {l : List SpaceCheck} {s : State}, l.map (sizeOf s) =
          (l.map SpaceCheck.request).map fun r => (s.bo r.1).elim 0 fun bo => (bo.size.toNat : Int) := by
        intro l s
        rw [List.map_map]
        rfl
      rw [hmap, hl, hmap]
      refine List.sum_le_sum fun r _ => ?_
      cases hb : s'.bo r.1 with
      | none =>
          cases s.bo r.1 with
          | none => exact le_rfl
          | some bo => exact Int.natCast_nonneg _
      | some bo' =>
          obtain ⟨bo, hb₀, hsize, -⟩ := hs.bo r.1 bo' hb
          rw [hb₀, Option.elim_some, Option.elim_some, hsize]
    have := hright.fits
    omega

/-- The stream is flushed only when everything that is recorded is in its table. -/
def CheckKeepsCount (c : CsId) (tmpBo : Option SpaceCheck) (s : State) : Prop :=
  ∀ cs, s.cs c = some cs → CountsRight (cs.bos ++ tmpBo.toList) s ∧
    ((∃ s₁, doSpaceCheck c tmpBo s = .ok (RADEON_CS_SPACE_FLUSH, s₁)) → AllHeld c s)

theorem checkSpace_bounded {tmpBo : Option SpaceCheck} {result : Int} (h : Bounded s)
    (hkeeps : CheckKeepsCount c tmpBo s) :
    Ensures (checkSpaceInternal (flushCs c result) c tmpBo s) fun r => Bounded r.2 := by
  rintro ⟨ret, s'⟩ hr
  rcases checkSpaceInternal_cases hr with ⟨hdo, -⟩ | ⟨hdo, -⟩ | ⟨s₁, s₂, hdo, hflush, hagain⟩
  · obtain ⟨cs, hc, -⟩ := doSpaceCheck_spec _ hdo
    exact (doSpaceCheck_bounded h hc (hkeeps cs hc).1 _ hdo).1
  · obtain ⟨cs, hc, -⟩ := doSpaceCheck_spec _ hdo
    exact (doSpaceCheck_bounded h hc (hkeeps cs hc).1 _ hdo).1
  · obtain ⟨cs, hc, -⟩ := doSpaceCheck_spec _ hdo
    obtain ⟨hright, hheld⟩ := hkeeps cs hc
    obtain ⟨hs₁, hsame⟩ := doSpaceCheck_bounded h hc hright _ hdo
    obtain ⟨hrec, -⟩ := hsame flush_ne_ok
    obtain ⟨bos₁, hc₁, hbos₁⟩ := hrec.cs c
    rw [hc] at hc₁
    -- what was recorded before the attempt is what is recorded after it
    have hheld₁ : AllHeld c s₁ := by
      intro b bo' hb hnot hne
      obtain ⟨bo, hb₀, -, hstatic, haccounted⟩ := hrec.fewer.bo b bo' hb
      rw [haccounted (hstatic ▸ hnot)] at hne
      obtain ⟨cs₀, hc₀, hmem⟩ := hheld ⟨s₁, hdo⟩ b bo hb₀ (hstatic ▸ hnot) hne
      cases hc.symm.trans hc₀
      exact ⟨cs.withBos bos₁, hc₁, hmem⟩
    obtain ⟨hs₂, hclear, g, cs₁, cs₂, hc₁', hc₂, hbos₂, hfewer⟩ := flushCs_bounded hs₁ hheld₁ _ hflush
    cases hc₁.symm.trans hc₁'
    have hright₂ : CountsRight (cs₂.bos ++ tmpBo.toList) s₂ := by
      refine hright.cleared h hclear (hrec.fewer.trans hfewer) ?_
      rw [hbos₂, List.map_append, List.map_append]
      exact congrArg (· ++ _) (hbos₁ cs hc)
    rcases hagain with ⟨hdo₂, -⟩ | ⟨hdo₂, -⟩ | ⟨s₃, hdo₂, hflush₂, -⟩
    · exact (doSpaceCheck_bounded hs₂ hc₂ hright₂ _ hdo₂).1
    · exact (doSpaceCheck_bounded hs₂ hc₂ hright₂ _ hdo₂).1
    · obtain ⟨hs₃, hsame₃⟩ := doSpaceCheck_bounded hs₂ hc₂ hright₂ _ hdo₂
      obtain ⟨hrec₃, -⟩ := hsame₃ flush_ne_ok
      have hheld₃ : AllHeld c s₃ := by
        intro b bo' hb hnot hne
        obtain ⟨bo, hb₀, -, hstatic, haccounted⟩ := hrec₃.fewer.bo b bo' hb
        exact absurd ((haccounted (hstatic ▸ hnot)).trans (hclear.record b bo hb₀ (hstatic ▸ hnot))) hne
      exact (flushCs_bounded hs₃ hheld₃ _ hflush₂).1

/-! ## Runs -/

/-- Calls that keep the counters true: a stream is emitted when everything that is recorded is in its table, and the
    requests of a check are counted right. -/
def Op.KeepsCount : Op → State → Prop
  | .emit c _, s => AllHeld c s
  | .spaceCheck c _, s => CheckKeepsCount c none s
  | .spaceCheckWithBo c b readDomains writeDomain _, s => CheckKeepsCount c (some { bo := b, readDomains, writeDomain }) s
  | _, _ => True

def State.CountStep (s s' : State) : Prop := ∃ (op : Op) (ret : Int), op.run s = .ok (ret, s') ∧ op.KeepsCount s

theorem boOpen_bounded {handle size : BitVec 32} {isStatic : Bool} (h : Bounded s) :
    Bounded (boOpen handle size isStatic s).2 := by
  refine ⟨?_, ?_, fun k => ?_, h.limits, h.vram, h.gart⟩
  · intro b hb
    have hb : s.freshBo + 1 ≤ b := hb
    refine Option.eq_none_iff_forall_ne_some.mpr fun bo hbo => ?_
    rcases setBo_bo (s := s) hbo with ⟨rfl, -⟩ | ⟨-, hbo⟩
    · exact Nat.not_succ_le_self _ hb
    · rw [h.newBo b (Nat.le_of_succ_le hb)] at hbo
      cases hbo
  · intro b bo hb hnot
    rcases setBo_bo (s := s) hb with ⟨-, rfl⟩ | ⟨-, hb⟩
    · exact halved_zero
    · exact h.halved b bo hb hnot
  · refine le_trans (le_of_eq ?_) (h.counted k)
    have hlast : ((boOpen handle size isStatic s).2.bo s.freshBo).elim 0 (fun bo => bo.weight k bo.spaceAccounted) = 0 := by
      have hbo : (boOpen handle size isStatic s).2.bo s.freshBo = some { handle, size, isStatic } := setBo_bo_self
      rw [hbo, Option.elim_some, Bo.weight, if_neg]
      exact fun h => not_counts_zero k h.2
    refine (Finset.sum_range_succ _ s.freshBo).trans ?_
    rw [hlast, add_zero]
    refine Finset.sum_congr rfl fun b hb => ?_
    have hne : b ≠ s.freshBo := (Finset.mem_range.mp hb).ne
    have hbo : (boOpen handle size isStatic s).2.bo b = s.bo b := by simp [boOpen, State.setBo, hne]
    rw [hbo]

theorem Written.fewer {readDomain writeDomain flags : BitVec 32} (hb : s.bo b = some bo)
    (h : Written c b readDomain writeDomain flags s cs bo cs' s') : Fewer (fun _ a => a) s s' ∧ s'.csm = s.csm := by
  cases h with
  | again => exact ⟨⟨rfl, Fewer.refl.bo⟩, rfl⟩
  | new =>
      refine ⟨⟨rfl, fun d bo' hd => ?_⟩, rfl⟩
      rcases setBo_bo (s := s) hd with ⟨rfl, rfl⟩ | ⟨-, hd⟩
      · exact ⟨bo, hb, rfl, rfl, fun _ => rfl⟩
      · exact ⟨bo', hd, rfl, rfl, fun _ => rfl⟩

theorem Op.run_bounded {op : Op} (h : Bounded s) (hop : op.KeepsCount s) : Ensures (op.run s) fun r => Bounded r.2 := by
  have hstill : ∀ {x : Except Fault State}, Ensures x (Still s) →
      Ensures (x >>= fun s' => pure ((0 : Int), s')) fun r => Bounded r.2 :=
    fun hx => hx.bind fun _ hs => .pure (h.fewer hs.fewer hs.csm)
  cases op with
  | boOpen handle size isStatic => exact .ok (boOpen_bounded h)
  | boRef b => exact hstill boRef_still
  | boUnref b => exact hstill (boUnref_still.mono fun _ hs => hs.1)
  | create ndw mem =>
      refine .ok ?_
      rcases csCreate_spec ndw mem s with hs | hs | ⟨cs, hs, -⟩ <;> dsimp only <;> rw [hs]
      · exact h
      · exact h.fewer ⟨rfl, Fewer.refl.bo⟩ rfl
      · exact h.fewer ⟨rfl, Fewer.refl.bo⟩ rfl
  | csBegin c ndw mem => exact (csBegin_still).mono fun _ hs => h.fewer hs.fewer hs.csm
  | writeDword c dword => exact (opWriteDword_still).mono fun _ hs => h.fewer hs.fewer hs.csm
  | csEnd c => exact (csEnd_still).mono fun _ hs => h.fewer hs.fewer hs.csm
  | writeReloc c b readDomain writeDomain flags mem =>
      refine (writeReloc_spec).mono ?_
      rintro r (⟨-, hr⟩ | ⟨-, cs, bo, cs', hc, hb, -, -, hw⟩)
      · rwa [hr]
      · obtain ⟨hs, hcsm⟩ := hw.fewer hb
        exact h.fewer hs hcsm
  | emit c result => exact (csEmit_bounded h hop).mono fun _ hs => hs.1
  | erase c =>
      refine (csErase_fewer).bind ?_
      rintro s' ⟨-, -, -, -, -, hs, hcsm⟩
      exact .pure (h.fewer hs hcsm)
  | destroy c =>
      refine Ensures.bind (getCs_spec.bind fun cs hc => .pure ?_) fun _ hs => .pure hs
      exact h.fewer ⟨rfl, Fewer.refl.bo⟩ rfl
  | addPersistentBo c b readDomains writeDomain => exact hstill spaceAddPersistentBo_still
  | resetBos c => exact hstill spaceResetBos_still
  | spaceCheck c result => exact checkSpace_bounded h hop
  | spaceCheckWithBo c b readDomains writeDomain result => exact checkSpace_bounded h hop

theorem bounded_of_runs (h : Runs State.Init State.CountStep s) : Bounded s := by
  refine Runs.induct ?_ (fun s s' hs hstep => ?_) h
  · rintro _ ⟨vramLimit, gartLimit, rfl⟩
    refine ⟨fun _ _ => rfl, nofun, fun k => ?_, ⟨vramLimit.toInt_lt, gartLimit.toInt_lt⟩, .inl rfl, .inl rfl⟩
    cases k <;> exact le_rfl
  · obtain ⟨op, ret, hrun, hop⟩ := hstep
    exact Op.run_bounded hs hop _ hrun

/-- In every run whose calls keep the counters true, the buffers that are recorded for writing to VRAM fit in the limit
    for VRAM, and those that are recorded for reading or for writing to GTT fit in the other. -/
theorem space_accounting_sound (h : Runs State.Init State.CountStep s) :
    total .vramWrite s ≤ CInt.uint32 s.csm.vramLimit ∧
      total .read s + total .gttWrite s ≤ CInt.uint32 s.csm.gartLimit := by
  have hs := bounded_of_runs h
  have hnonneg : ∀ x, 0 ≤ CInt.uint32 x := fun x => Int.emod_nonneg x (by decide)
  have hv := hs.used_nonneg .vramWrite
  have hr := hs.used_nonneg .read
  have hg := hs.used_nonneg .gttWrite
  have hv' := hs.counted .vramWrite
  have hr' := hs.counted .read
  have hg' := hs.counted .gttWrite
  obtain ⟨hvramLimit, hgartLimit⟩ := hs.limits
  simp only [Manager.used] at hv hr hg hv' hr' hg'
  constructor
  · rcases hs.vram with h0 | hle
    · have := hnonneg s.csm.vramLimit
      omega
    · rw [CInt.uint32_of_range (by omega) (by omega)]
      omega
  · rcases hs.gart with h0 | hle
    · have := hnonneg s.csm.gartLimit
      omega
    · rw [CInt.uint32_of_range (by omega) (by omega)]
      omega

def checkHeld (c : CsId) (s : State) : Bool :=
  (List.range s.freshBo).all fun b => (s.bo b).all fun bo =>
    bo.isStatic || bo.spaceAccounted = 0 || (s.cs c).any fun cs => decide (some b ∈ cs.relocsBo)

theorem allHeld_of_check (hs : Bounded s) (h : checkHeld c s = true) : AllHeld c s := by
  intro b bo hb hnot hne
  have hlt : b < s.freshBo := Nat.lt_of_not_le fun hle => by
    rw [hs.newBo b hle] at hb
    cases hb
  have h := List.all_eq_true.mp h b (List.mem_range.mpr hlt)
  simp only [hb, Option.all_some, hnot, hne, Bool.false_or, decide_false] at h
  cases hc : s.cs c with
  | none => simp [hc] at h
  | some cs => exact ⟨cs, rfl, by simpa [hc] using h⟩

/-- Every buffer is listed once. -/
def checkRight (c : CsId) (tmpBo : Option SpaceCheck) (s : State) : Bool :=
  (s.cs c).all fun cs =>
    let l := cs.bos ++ tmpBo.toList
    l.all (fun sc => sc.writeDomain.toNat < 2 ^ 16) && decide (l.map (·.bo)).Nodup &&
      decide (s.csm.vramWriteUsed + s.csm.gartWriteUsed + s.csm.readUsed + (l.map (sizeOf s)).sum < 2 ^ 31) &&
      ((doSpaceCheck c tmpBo s).toOption.map (·.1) ≠ some RADEON_CS_SPACE_FLUSH || checkHeld c s)

theorem checkKeepsCount_of_check {tmpBo : Option SpaceCheck} (hs : Bounded s) (h : checkRight c tmpBo s = true) :
    CheckKeepsCount c tmpBo s := by
  intro cs hc
  simp only [checkRight, hc, Option.all_some, Bool.and_eq_true, Bool.or_eq_true, decide_eq_true_eq, List.all_eq_true] at h
  obtain ⟨⟨⟨hnarrow, hnodup⟩, hfits⟩, hflush⟩ := h
  refine ⟨⟨hnarrow, ?_, hfits⟩, ?_⟩
  · refine (List.pairwise_map.mp hnodup).imp fun hne _ _ _ _ => Ne.symm hne
  · rintro ⟨s₁, hdo⟩
    rcases hflush with hflush | hheld
    · exact absurd (by rw [hdo]; rfl) hflush
    · exact allHeld_of_check hs hheld

def Op.checkCount (s : State) : Op → Bool
  | .emit c _ => checkHeld c s
  | .spaceCheck c _ => checkRight c none s
  | .spaceCheckWithBo c b readDomains writeDomain _ => checkRight c (some { bo := b, readDomains, writeDomain }) s
  | _ => true

theorem Op.keepsCount_of_check {op : Op} (hs : Bounded s) (h : op.checkCount s = true) : op.KeepsCount s := by
  cases op with
  | emit c result => exact allHeld_of_check hs h
  | spaceCheck c result => exact checkKeepsCount_of_check hs h
  | spaceCheckWithBo c b readDomains writeDomain result => exact checkKeepsCount_of_check hs h
  | _ => trivial

/-- The second buffer fits after the stream with the first was flushed. -/
def flushedOps : List Op :=
  [.boOpen 7 8192 false, .boOpen 9 8192 false, .create 16 plenty, .spaceCheckWithBo 0 0 0 4 0, .writeReloc 0 0 0 4 0 plenty,
    .spaceCheckWithBo 0 1 0 4 0]

theorem space_accounting_sound_flushed : ∃ s, Runs State.Init State.CountStep s ∧ total .vramWrite s = 8192 ∧
    CInt.uint32 s.csm.vramLimit = 8192 ∧ total .vramWrite s ≤ CInt.uint32 s.csm.vramLimit := by
  have hplay : (playAll (fun s op => op.checkCount s) flushedOps (initState 8192 8192)).map (fun s =>
      (total .vramWrite s, CInt.uint32 s.csm.vramLimit)) = some (8192, 8192) := by
    decide +kernel
  obtain ⟨s, hs, hfields⟩ := Option.map_eq_some_iff.mp hplay
  simp only [Prod.mk.injEq] at hfields
  have hruns : Runs State.Init State.CountStep s :=
    playAll_runs (fun s op ret s' hruns hcheck hrun =>
      ⟨op, ret, hrun, Op.keepsCount_of_check (bounded_of_runs hruns) hcheck⟩) ⟨_, _, rfl⟩ hs
  exact ⟨s, hruns, hfields.1, hfields.2, (space_accounting_sound hruns).1⟩

/-- The first buffer is recorded and not in the table, and the stream is emitted. -/
def forgottenOps : List Op :=
  [.boOpen 7 8192 false, .boOpen 9 8192 false, .create 16 plenty, .spaceCheckWithBo 0 0 0 4 0, .emit 0 0, .erase 0]

/-- Then the second buffer fits too, and twice the limit is recorded. -/
theorem space_accounting_sound_forgotten : ∃ s s', Runs State.Init State.Step s ∧
    (Op.spaceCheckWithBo 0 1 0 4 0).run s = .ok (0, s') ∧
    ¬ total .vramWrite s' ≤ CInt.uint32 s'.csm.vramLimit := by
  have hplay : (playAll (fun _ _ => true) forgottenOps (initState 8192 8192)).bind (fun s =>
      ((Op.spaceCheckWithBo 0 1 0 4 0).run s).toOption.map fun r =>
        (r.1, total .vramWrite r.2, CInt.uint32 r.2.csm.vramLimit)) = some (0, 16384, 8192) := by
    decide +kernel
  obtain ⟨s, hs, hfields⟩ := Option.bind_eq_some_iff.mp hplay
  obtain ⟨⟨ret, s'⟩, hrun, hfields⟩ := Option.map_eq_some_iff.mp hfields
  simp only [Prod.mk.injEq] at hfields
  obtain ⟨rfl, htotal, hlimit⟩ := hfields
  refine ⟨s, s', playAll_runs (fun s op ret s' _ _ hrun => ⟨op, ret, hrun⟩) ⟨_, _, rfl⟩ hs, toOption_eq_some hrun, ?_⟩
  rw [htotal, hlimit]
  decide

end LibDrm.Radeon
