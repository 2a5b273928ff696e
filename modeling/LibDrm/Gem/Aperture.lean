/-
# `LibDrm.Gem.Aperture` — will the buffers fit into the aperture?

`check_aperture_space` first adds up the sizes `reloc_tree_size` that are kept
in the objects, which may count an object several times.  Only when that
estimate is too large does it walk the relocations and count every object
once; a flag in the object says that it has been counted, and a second walk
takes the flags away again.

Both walks are `Walk.mark` over the graph of relocations, the second one on the
flags that are not set (`getApertureSpace_mark`, `clearApertureSpaceFlag_mark`).
All sums are kept modulo 2^32; `exactTotal` is the sum that is meant.
-/
import LibDrm.Gem.Alloc
import Mathlib.Data.List.ReduceOption

namespace LibDrm.Gem

open Walk CInt

/-! ## The functions -/

def Bo.setIncluded (included : Bool) (bo : Bo) : Bo := { bo with includedInCheckAperture := included }

/-- `drm_intel_gem_bo_get_aperture_space`. -/
def getApertureSpace : Nat → Option BoId → Bufmgr → Except Fault (Int × Bufmgr)
  | 0, _, _ => .error .outOfFuel
  | _ + 1, none, s => .ok (0, s)
  | k + 1, some b, s =>
      if (s.bos b).includedInCheckAperture then .ok (0, s)
      else (s.bos b).targets.foldlM (fun acc t => do
        let (space, s) ← getApertureSpace k (some t) acc.2
        return (int32 (acc.1 + space), s)) (int32 (s.bos b).size, s.modify b (Bo.setIncluded true))

/-- `drm_intel_gem_bo_clear_aperture_space_flag`. -/
def clearApertureSpaceFlag : Nat → Option BoId → Bufmgr → Except Fault Bufmgr
  | 0, _, _ => .error .outOfFuel
  | _ + 1, none, s => .ok s
  | k + 1, some b, s =>
      if !(s.bos b).includedInCheckAperture then .ok s
      else (s.bos b).targets.foldlM (fun s t => clearApertureSpaceFlag k (some t) s)
        (s.modify b (Bo.setIncluded false))

/-- A sum of an `int` field over an array, in an `unsigned int`; NULL entries are passed over. -/
def totalOf (field : Bo → Int) (s : Bufmgr) (bos : List (Option BoId)) : Int :=
  bos.foldl (fun total b =>
    match b with
    | none => total
    | some b => uint32 (total + field (s.bos b))) 0

/-- `drm_intel_gem_total_fences`. -/
def totalFences (bos : List (Option BoId)) (s : Bufmgr) : Int := totalOf Bo.relocTreeFences s bos

/-- `drm_intel_gem_estimate_batch_space`. -/
def estimateBatchSpace (bos : List (Option BoId)) (s : Bufmgr) : Int := totalOf Bo.relocTreeSize s bos

/-- The recursions of the two walks end before this fuel does. -/
def Bufmgr.walkFuel (s : Bufmgr) : Nat := s.nextBo + 2

/-- One round of the first loop of `drm_intel_gem_compute_batch_space`. -/
def addApertureSpace (fuel : Nat) (acc : Int × Bufmgr) (b : Option BoId) : Except Fault (Int × Bufmgr) := do
  let (space, s) ← getApertureSpace fuel b acc.2
  return (uint32 (acc.1 + space), s)

/-- `drm_intel_gem_compute_batch_space`. -/
def computeBatchSpace (bos : List (Option BoId)) (s : Bufmgr) : Except Fault (Int × Bufmgr) :=
  match bos with
  | [] => .ok (0, s)
  | b :: rest => do
      let (total, s₁) ← addApertureSpace s.walkFuel (0, s) b
      -- nothing had been counted, so this total is accurate for the first object
      let first ← deref b
      let s₁ := s₁.modify first (Bo.setTreeSize (int32 total))
      let (total, s₁) ← rest.foldlM (addApertureSpace s.walkFuel) (total, s₁)
      let s₁ ← bos.foldlM (fun s₁ b => clearApertureSpaceFlag s.walkFuel b s₁) s₁
      return (total, s₁)

/-- `gtt_size * 3 / 4`, computed in an `unsigned long` and stored in an `unsigned int`. -/
def Config.threshold (cfg : Config) : Int := uint32 (uint64 (cfg.gttSize * 3) / 4)

/-- The limit on the fence registers is there, and exceeded. -/
def fencesExceeded (bos : List (Option BoId)) (s : Bufmgr) : Bool :=
  decide (s.cfg.availableFences ≠ 0) && decide (s.cfg.availableFences < int32 (totalFences bos s))

/-- `drm_intel_gem_check_aperture_space`. -/
def checkApertureSpace (bos : List (Option BoId)) (s : Bufmgr) : Except Fault (Int × Bufmgr) := do
  -- the manager is found through the first object
  let _ ← deref (bos.head?.join)
  if fencesExceeded bos s then return (-ENOSPC, s)
  else
    let total := estimateBatchSpace bos s
    if s.cfg.threshold < total then do
      let (total, s) ← computeBatchSpace bos s
      if s.cfg.threshold < total then return (-ENOSPC, s) else return (0, s)
    else return (0, s)

/-! ## The two walks mark the graph -/

/-- The manager with the flags `f`. -/
def Bufmgr.flag (s : Bufmgr) (f : BoId → Bool) : Bufmgr :=
  { s with bos := fun c => (s.bos c).setIncluded (f c) }

/-- The size of the objects that are flagged. -/
def weight (s : Bufmgr) (f : BoId → Bool) : Int :=
  ∑ c ∈ Finset.range s.nextBo, if f c then ((s.bos c).size : Int) else 0

section Mark

variable {s : Bufmgr}

theorem flag_targets (s : Bufmgr) (f : BoId → Bool) (b : BoId) :
    ((s.flag f).bos b).targets = (s.bos b).targets := rfl

theorem flag_modify (s : Bufmgr) (f : BoId → Bool) (b : BoId) (v : Bool) :
    (s.flag f).modify b (Bo.setIncluded v) = s.flag (Function.update f b v) := by
  unfold Bufmgr.flag Bufmgr.modify
  congr 1
  funext c
  by_cases hcb : c = b
  · subst hcb; simp [Bo.setIncluded]
  · simp [hcb]

theorem flag_setTreeSize (s : Bufmgr) (f : BoId → Bool) (b : BoId) (v : Int) :
    (s.flag f).modify b (Bo.setTreeSize v) = (s.modify b (Bo.setTreeSize v)).flag f := by
  unfold Bufmgr.flag Bufmgr.modify
  congr 1
  funext c
  by_cases hcb : c = b
  · subst hcb; simp [Bo.setIncluded, Bo.setTreeSize]
  · simp [hcb]

theorem weight_update {f : BoId → Bool} {b : BoId} (hb : b < s.nextBo) (hf : f b = false) :
    weight s (Function.update f b true) = weight s f + (s.bos b).size := by
  have := Count.sum_update hb f true fun c v => if v then ((s.bos c).size : Int) else 0
  unfold weight
  rw [this, hf]
  simp

/-- The walk that counts: it returns the size of what it has flagged. -/
theorem getApertureSpace_mark (hlt : ∀ a, ∀ t ∈ (s.bos a).targets, t < s.nextBo) :
    ∀ (k : Nat) (b : BoId) (f f' : BoId → Bool), b < s.nextBo →
      mark (fun c => (s.bos c).targets) k b f = some f' →
      getApertureSpace k (some b) (s.flag f) = .ok (int32 (weight s f' - weight s f), s.flag f') := by
  intro k
  induction k with
  | zero => intro b f f' _ hm; cases hm
  | succ k ih =>
      intro b f f' hb hm
      unfold mark at hm
      unfold getApertureSpace
      by_cases hfb : f b = true
      · rw [if_pos hfb] at hm
        cases hm
        have hflag : ((s.flag f).bos b).includedInCheckAperture = true := hfb
        rw [if_pos hflag, sub_self]
        rfl
      · have hfb : f b = false := by simpa using hfb
        have hflag : ((s.flag f).bos b).includedInCheckAperture = false := hfb
        rw [hfb, if_neg (by simp)] at hm
        rw [hflag, if_neg (by simp), flag_targets, flag_modify]
        -- the loop over the targets that are left
        have loop : ∀ (ts : List BoId) (total : Int) (g : BoId → Bool), (∀ t ∈ ts, t < s.nextBo) →
            total = int32 (weight s g - weight s f) →
            ts.foldlM (fun f t => mark (fun c => (s.bos c).targets) k t f) g = some f' →
            ts.foldlM (fun acc t => do
              let (space, s) ← getApertureSpace k (some t) acc.2
              return (int32 (acc.1 + space), s)) (total, s.flag g)
              = .ok (int32 (weight s f' - weight s f), s.flag f') := by
          intro ts
          induction ts with
          | nil => intro total g _ ht hm; cases hm; rw [ht]; rfl
          | cons t ts ihts =>
              intro total g hts ht hm
              rw [List.foldlM_cons] at hm ⊢
              obtain ⟨g₁, hg₁, hm⟩ := Option.bind_eq_some_iff.mp hm
              simp only [ih t g g₁ (hts t (List.mem_cons_self ..)) hg₁, ok_bind]
              refine ihts _ g₁ (fun x hx => hts x (List.mem_cons_of_mem t hx)) ?_ hm
              rw [ht, int32_int32_add, int32_add_int32]
              congr 1
              ring
        refine loop _ _ _ (hlt b) ?_ hm
        rw [weight_update hb hfb]
        congr 1
        show ((s.bos b).size : Int) = _
        ring

/-- The walk that clears: it takes away the flags that it finds. -/
theorem clearApertureSpaceFlag_mark :
    ∀ (k : Nat) (b : BoId) (f f' : BoId → Bool),
      mark (fun c => (s.bos c).targets) k b (fun c => !f c) = some (fun c => !f' c) →
      clearApertureSpaceFlag k (some b) (s.flag f) = .ok (s.flag f') := by
  intro k
  induction k with
  | zero => intro b f f' hm; cases hm
  | succ k ih =>
      intro b f f' hm
      unfold mark at hm
      unfold clearApertureSpaceFlag
      have hinj : ∀ {g g' : BoId → Bool}, (fun c => !g c) = (fun c => !g' c) → g = g' := fun e =>
        funext fun c => by simpa using congrFun e c
      have hflag : ((s.flag f).bos b).includedInCheckAperture = f b := rfl
      rw [hflag]
      by_cases hfb : f b = true
      · simp only [hfb, Bool.not_true, Bool.false_eq_true, if_false] at hm
        simp only [hfb, Bool.not_true, Bool.false_eq_true, if_false, flag_targets, flag_modify]
        -- the loop over the targets that are left
        have loop : ∀ (ts : List BoId) (g : BoId → Bool),
            ts.foldlM (fun f t => mark (fun c => (s.bos c).targets) k t f) (fun c => !g c)
              = some (fun c => !f' c) →
            ts.foldlM (fun s t => clearApertureSpaceFlag k (some t) s) (s.flag g) = .ok (s.flag f') := by
          intro ts
          induction ts with
          | nil => intro g hm; rw [hinj (Option.some.inj hm)]; rfl
          | cons t ts ihts =>
              intro g hm
              rw [List.foldlM_cons] at hm ⊢
              obtain ⟨g₁, hg₁, hm⟩ := Option.bind_eq_some_iff.mp hm
              have hnot : (fun c => !(fun c => !g₁ c) c) = g₁ := funext fun c => by simp
              rw [← hnot] at hg₁ hm
              rw [ih t g _ hg₁, ok_bind]
              exact ihts _ hm
        refine loop _ _ ?_
        rw [← hm]
        congr 1
        funext c
        by_cases hcb : c = b
        · subst hcb; simp
        · simp [hcb]
      · have hfb : f b = false := by simpa using hfb
        simp only [hfb, Bool.not_false, if_true] at hm ⊢
        rw [hinj (Option.some.inj hm)]

end Mark

/-- The first loop of `compute_batch_space`. -/
theorem addApertureSpace_mark {s : Bufmgr} (hlt : ∀ a, ∀ t ∈ (s.bos a).targets, t < s.nextBo) {k : Nat}
    {f' : BoId → Bool} : ∀ (bos : List (Option BoId)) (total : Int) (f : BoId → Bool),
      (∀ b, some b ∈ bos → b < s.nextBo) → total = uint32 (weight s f) →
      bos.reduceOption.foldlM (fun f b => mark (fun c => (s.bos c).targets) (k + 1) b f) f = some f' →
      bos.foldlM (addApertureSpace (k + 1)) (total, s.flag f) = .ok (uint32 (weight s f'), s.flag f')
  | [], total, f, _, ht, hm => by
      cases hm
      rw [ht]
      rfl
  | none :: bos, total, f, hb, ht, hm => by
      rw [List.reduceOption_cons_of_none] at hm
      have hsame : uint32 (total + 0) = total := by
        rw [ht, uint32_uint32_add, add_zero]
      rw [List.foldlM_cons]
      simp only [addApertureSpace, getApertureSpace, ok_bind]
      show bos.foldlM (addApertureSpace (k + 1)) (uint32 (total + 0), s.flag f) = _
      rw [hsame]
      exact addApertureSpace_mark hlt bos total f (fun b h => hb b (List.mem_cons_of_mem _ h)) ht hm
  | some b :: bos, total, f, hb, ht, hm => by
      rw [List.reduceOption_cons_of_some, List.foldlM_cons] at hm
      obtain ⟨f₁, hf₁, hm⟩ := Option.bind_eq_some_iff.mp hm
      have hspace := getApertureSpace_mark hlt (k + 1) b f f₁ (hb b (List.mem_cons_self ..)) hf₁
      rw [List.foldlM_cons]
      simp only [addApertureSpace, hspace, ok_bind]
      refine addApertureSpace_mark hlt bos _ f₁ (fun b h => hb b (List.mem_cons_of_mem _ h)) ?_ hm
      rw [ht, uint32_add_int32, uint32_uint32_add]
      congr 1
      ring

/-- Its second loop. -/
theorem clearFlags_mark {s : Bufmgr} {k : Nat} {f' : BoId → Bool} :
    ∀ (bos : List (Option BoId)) (f : BoId → Bool),
      bos.reduceOption.foldlM (fun f b => mark (fun c => (s.bos c).targets) (k + 1) b f) (fun c => !f c)
        = some (fun c => !f' c) →
      bos.foldlM (fun s b => clearApertureSpaceFlag (k + 1) b s) (s.flag f) = .ok (s.flag f')
  | [], f, hm => by
      have : f = f' := funext fun c => by simpa using congrFun (Option.some.inj hm) c
      rw [this]
      rfl
  | none :: bos, f, hm => by
      rw [List.reduceOption_cons_of_none] at hm
      rw [List.foldlM_cons]
      simp only [clearApertureSpaceFlag, ok_bind]
      exact clearFlags_mark bos f hm
  | some b :: bos, f, hm => by
      rw [List.reduceOption_cons_of_some, List.foldlM_cons] at hm
      obtain ⟨g, hg, hm⟩ := Option.bind_eq_some_iff.mp hm
      have hnot : (fun c => !(fun c => !g c) c) = g := funext fun c => by simp
      rw [← hnot] at hg hm
      rw [List.foldlM_cons]
      simp only [clearApertureSpaceFlag_mark (k + 1) b f _ hg, ok_bind]
      exact clearFlags_mark bos _ hm

/-! ## The sum that is meant -/

/-- `c` is in the array, or behind an object of it. -/
def Reached (s : Bufmgr) (bos : List (Option BoId)) (c : BoId) : Prop :=
  ∃ b, some b ∈ bos ∧ Reach (fun c => (s.bos c).targets) b c

open Classical in
/-- The size of the objects in the array and behind it, each counted once. -/
noncomputable def exactTotal (s : Bufmgr) (bos : List (Option BoId)) : Nat :=
  ∑ c ∈ Finset.range s.nextBo with Reached s bos c, (s.bos c).size

theorem weight_eq_exactTotal {s : Bufmgr} {bos : List (Option BoId)} {f : BoId → Bool}
    (hf : ∀ c, f c = true ↔ Reached s bos c) : weight s f = exactTotal s bos := by
  unfold weight exactTotal
  rw [Finset.sum_filter, Nat.cast_sum]
  refine Finset.sum_congr rfl fun c _ => ?_
  by_cases hc : f c = true
  · rw [if_pos hc, if_pos ((hf c).mp hc)]
  · rw [if_neg hc, if_neg fun h => hc ((hf c).mpr h)]
    rfl

theorem exactTotal_nil (s : Bufmgr) : exactTotal s [] = 0 := by simp [exactTotal, Reached]

theorem exactTotal_le {s s' : Bufmgr} {bos bos' : List (Option BoId)}
    (h : ∀ c, c < s'.nextBo → Reached s' bos' c →
      c < s.nextBo ∧ Reached s bos c ∧ (s'.bos c).size = (s.bos c).size) :
    exactTotal s' bos' ≤ exactTotal s bos := by
  classical
  unfold exactTotal
  calc ∑ c ∈ Finset.range s'.nextBo with Reached s' bos' c, (s'.bos c).size
      = ∑ c ∈ Finset.range s'.nextBo with Reached s' bos' c, (s.bos c).size :=
        Finset.sum_congr rfl fun c hc => by
          rw [Finset.mem_filter, Finset.mem_range] at hc
          exact (h c hc.1 hc.2).2.2
    _ ≤ ∑ c ∈ Finset.range s.nextBo with Reached s bos c, (s.bos c).size := by
        refine Finset.sum_le_sum_of_subset fun c hc => ?_
        rw [Finset.mem_filter, Finset.mem_range] at hc ⊢
        exact ⟨(h c hc.1 hc.2).1, (h c hc.1 hc.2).2.1⟩

/-- The total depends on the relocations and the sizes only. -/
theorem exactTotal_congr {s s' : Bufmgr} (hn : s'.nextBo = s.nextBo)
    (ht : ∀ c, (s'.bos c).targets = (s.bos c).targets) (hz : ∀ c, (s'.bos c).size = (s.bos c).size)
    (bos : List (Option BoId)) : exactTotal s' bos = exactTotal s bos := by
  have hr : ∀ c, Reached s' bos c ↔ Reached s bos c := fun c => by
    have : (fun c => (s'.bos c).targets) = fun c => (s.bos c).targets := funext ht
    rw [Reached, Reached, this]
  exact le_antisymm (exactTotal_le fun c hc h => ⟨hn ▸ hc, (hr c).mp h, hz c⟩)
    (exactTotal_le fun c hc h => ⟨hn ▸ hc, (hr c).mpr h, (hz c).symm⟩)

/-- What is reached from two arrays is counted at most twice. -/
theorem exactTotal_append_le (s : Bufmgr) (bos bos' : List (Option BoId)) :
    exactTotal s (bos ++ bos') ≤ exactTotal s bos + exactTotal s bos' := by
  classical
  unfold exactTotal
  have hsub : (Finset.range s.nextBo).filter (Reached s (bos ++ bos'))
      ⊆ (Finset.range s.nextBo).filter (Reached s bos) ∪ (Finset.range s.nextBo).filter (Reached s bos') := by
    intro c hc
    rw [Finset.mem_union, Finset.mem_filter, Finset.mem_filter]
    rw [Finset.mem_filter] at hc
    obtain ⟨hlt, b, hb, hr⟩ := hc
    rcases List.mem_append.mp hb with hb | hb
    · exact Or.inl ⟨hlt, b, hb, hr⟩
    · exact Or.inr ⟨hlt, b, hb, hr⟩
  refine (Finset.sum_le_sum_of_subset hsub).trans ?_
  exact le_trans (Nat.le_add_right _ _) (Finset.sum_union_inter ..).le

/-! ## The exact walk -/

/-- No object is flagged as counted. -/
def Unflagged (s : Bufmgr) : Prop := ∀ c, (s.bos c).includedInCheckAperture = false

theorem Unflagged.flag {s : Bufmgr} (h : Unflagged s) : s.flag (fun _ => false) = s := by
  unfold Bufmgr.flag Bo.setIncluded
  have : (fun c => { s.bos c with includedInCheckAperture := false }) = s.bos := funext fun c => by
    rw [← h c]
  rw [this]

section Exact

variable {E : BoId → Prop} {callers : BoId → Nat} {s : Bufmgr} {bos : List (Option BoId)}

theorem reached_iff (s : Bufmgr) (bos : List (Option BoId)) (c : BoId) :
    Reached s bos c ↔ ∃ b ∈ bos.reduceOption, Reach (fun c => (s.bos c).targets) b c := by
  simp [Reached, List.reduceOption_mem_iff]

/-- The exact walk returns the exact total, saves that of the first object, and leaves no flag. -/
theorem computeBatchSpace_spec (h : Settled E callers s) (hf : Unflagged s) {b : BoId}
    (hbos : ∀ c, some c ∈ some b :: bos → (s.bos c).allocated = true) :
    computeBatchSpace (some b :: bos) s = .ok (uint32 (exactTotal s (some b :: bos)),
      s.modify b (Bo.setTreeSize (int32 (exactTotal s [some b])))) := by
  obtain ⟨r₀, hi₀⟩ := h
  obtain ⟨r, hi, hle⟩ := hi₀.bounded
  have hr : RankedBy (fun c => (s.bos c).targets) r := hi.graph.ranked
  have hlt : ∀ a, ∀ t ∈ (s.bos a).targets, t < s.nextBo := fun a t ht => by
    by_cases hta : t = a
    · rw [hta]
      exact hi.graph.lt_nextBo (hi.graph.alloc_of_out (a := a) (List.ne_nil_of_mem ht))
    · exact hi.graph.lt_nextBo (hi.graph.alloc_of_pos (hi.graph.target_pos (a := a) ⟨ht, hta⟩))
  have hroots : ∀ c, some c ∈ some b :: bos → c < s.nextBo := fun c hc => hi.graph.lt_nextBo (hbos c hc)
  have hfuel : ∀ c, r c + 1 < s.walkFuel := fun c => by
    have := hle c
    unfold Bufmgr.walkFuel
    omega
  have hclosed : ∀ {g : BoId → Bool} {done : List (Option BoId)}, (∀ c, g c = true ↔ Reached s done c) →
      ∀ c, Closed (fun c => (s.bos c).targets) g c := by
    intro g done hg c x _ hx y hxy
    obtain ⟨d, hd, hdx⟩ := (hg x).mp hx
    exact (hg y).mpr ⟨d, hd, hdx.trans hxy⟩
  -- the walk from the first object
  have hnone : ∀ c, (fun _ => false : BoId → Bool) c = true ↔ Reached s [] c := by simp [Reached]
  obtain ⟨f₁, hm₁, hf₁⟩ := mark_spec hr s.walkFuel b _ (hfuel b) (hclosed hnone b)
  have hf₁ : ∀ c, f₁ c = true ↔ Reached s [some b] c := fun c => by rw [hf₁]; simp [Reached]
  have hfirst := getApertureSpace_mark hlt s.walkFuel b _ f₁ (hroots b (List.mem_cons_self ..)) hm₁
  rw [hf.flag, weight_eq_exactTotal hnone, weight_eq_exactTotal hf₁] at hfirst
  -- the manager with the saved total has the same graph
  obtain ⟨v, hv⟩ : ∃ v, v = int32 (exactTotal s [some b]) := ⟨_, rfl⟩
  have hgraph : (fun c => ((s.modify b (Bo.setTreeSize v)).bos c).targets) = fun c => (s.bos c).targets :=
    funext fun c => modify_field Bo.targets s b c rfl
  have hweight : ∀ g, weight (s.modify b (Bo.setTreeSize v)) g = weight s g := fun g =>
    Finset.sum_congr rfl fun c _ => by rw [modify_field Bo.size s b c rfl]
  -- the walks from the other objects
  obtain ⟨f₂, hm₂, hf₂⟩ := markList_spec hr (k := s.walkFuel) bos.reduceOption f₁ (fun c _ => hfuel c)
    fun c _ => hclosed hf₁ c
  have hf₂ : ∀ c, f₂ c = true ↔ Reached s (some b :: bos) c := fun c => by
    rw [hf₂, hf₁, reached_iff, reached_iff]
    simp
  have hrest := addApertureSpace_mark (s := s.modify b (Bo.setTreeSize v)) (k := s.nextBo + 1)
    (fun a t ht => hlt a t (congrFun hgraph a ▸ ht)) bos
    (uint32 (exactTotal s [some b])) f₁ (fun c hc => hroots c (List.mem_cons_of_mem _ hc))
    (by rw [hweight, weight_eq_exactTotal hf₁]) (by rw [hgraph]; exact hm₂)
  rw [hweight, weight_eq_exactTotal hf₂] at hrest
  -- the flags are taken away
  obtain ⟨f₃, hm₃, hf₃⟩ := markList_spec hr (k := s.walkFuel) (some b :: bos).reduceOption (fun c => !f₂ c)
    (fun c _ => hfuel c) (fun c hc x hcx hx y hxy => by
      have : f₂ x = true := (hf₂ x).mpr ((reached_iff ..).mpr ⟨c, hc, hcx⟩)
      simp [this] at hx)
  have hall : f₃ = fun c => !(fun _ => false : BoId → Bool) c := funext fun c => by
    show f₃ c = true
    rw [hf₃, ← reached_iff, ← hf₂]
    cases f₂ c <;> simp
  rw [hall] at hm₃
  have hclear := clearFlags_mark (s := s.modify b (Bo.setTreeSize v)) (k := s.nextBo + 1)
    (some b :: bos) f₂ (by rw [hgraph]; exact hm₃)
  rw [Unflagged.flag fun c => (modify_field Bo.includedInCheckAperture s b c rfl).trans (hf c)] at hclear
  have htotal : uint32 (0 + int32 ((exactTotal s [some b] : Int) - (exactTotal s [] : Int)))
      = uint32 (exactTotal s [some b]) := by
    rw [exactTotal_nil, uint32_add_int32]
    simp
  unfold computeBatchSpace
  simp only [addApertureSpace, hfirst, ok_bind, deref_some, htotal, pure_bind, int32_uint32, ← hv,
    flag_setTreeSize]
  rw [show s.walkFuel = s.nextBo + 1 + 1 from rfl, hrest, ok_bind, hclear]
  rfl

/-- The sum of the sizes that are kept in the objects, without a bound. -/
def storedTotal (s : Bufmgr) (bos : List (Option BoId)) : Int :=
  (bos.reduceOption.map fun b => (s.bos b).relocTreeSize).sum

theorem estimateBatchSpace_eq (s : Bufmgr) (bos : List (Option BoId)) :
    estimateBatchSpace bos s = uint32 (storedTotal s bos) := by
  have loop : ∀ (bos : List (Option BoId)) (x : Int),
      bos.foldl (fun total b =>
        match b with
        | none => total
        | some b => uint32 (total + (s.bos b).relocTreeSize)) (uint32 x) = uint32 (x + storedTotal s bos) := by
    intro bos
    induction bos with
    | nil => intro x; simp [storedTotal]
    | cons b bos ih =>
        intro x
        rw [List.foldl_cons]
        cases b with
        | none => exact ih x
        | some b =>
            simp only [uint32_uint32_add]
            rw [ih]
            congr 1
            simp only [storedTotal, List.reduceOption_cons_of_some, List.map_cons, List.sum_cons]
            ring
  have := loop bos 0
  rw [zero_add] at this
  exact this

/-- All that the check can do. -/
theorem checkApertureSpace_eq (h : Settled E callers s) (hf : Unflagged s) {b : BoId}
    (hbos : ∀ c, some c ∈ some b :: bos → (s.bos c).allocated = true) :
    checkApertureSpace (some b :: bos) s = .ok (
      if fencesExceeded (some b :: bos) s then (-ENOSPC, s)
      else if uint32 (storedTotal s (some b :: bos)) ≤ s.cfg.threshold then (0, s)
      else (if uint32 (exactTotal s (some b :: bos)) ≤ s.cfg.threshold then 0 else -ENOSPC,
        s.modify b (Bo.setTreeSize (int32 (exactTotal s [some b]))))) := by
  simp only [checkApertureSpace, List.head?_cons, Option.join_some, deref_some, ok_bind,
    estimateBatchSpace_eq, computeBatchSpace_spec h hf hbos]
  split
  · rfl
  by_cases hest : uint32 (storedTotal s (some b :: bos)) ≤ s.cfg.threshold
  · rw [if_pos hest, if_neg (not_lt.mpr hest)]
    rfl
  · rw [if_neg hest, if_pos (not_le.mp hest), modify_cfg]
    by_cases hex : uint32 (exactTotal s (some b :: bos)) ≤ s.cfg.threshold
    · rw [if_pos hex, if_neg (not_lt.mpr hex)]
      rfl
    · rw [if_neg hex, if_pos (not_le.mp hex)]
      rfl

end Exact

/-! ## The sizes that are kept in the objects -/

/-- The kept size of a live object is that of what lies behind it, or more. -/
def TreeOk (s : Bufmgr) : Prop :=
  ∀ b, 0 < (s.bos b).refcount → (exactTotal s [some b] : Int) ≤ (s.bos b).relocTreeSize
    ∧ (s.bos b).relocTreeSize < 2 ^ 31

/-- The estimate is not below the exact total. -/
theorem TreeOk.exactTotal_le_storedTotal {s : Bufmgr} (h : TreeOk s) :
    ∀ {bos : List (Option BoId)}, (∀ b, some b ∈ bos → 0 < (s.bos b).refcount) →
      (exactTotal s bos : Int) ≤ storedTotal s bos
  | [], _ => by simp [exactTotal_nil, storedTotal]
  | none :: bos, hb => by
      have hle : exactTotal s (none :: bos) ≤ exactTotal s bos := exactTotal_le fun c hlt hc => by
        obtain ⟨b, hb, hr⟩ := hc
        exact ⟨hlt, ⟨b, by simpa using hb, hr⟩, rfl⟩
      have := h.exactTotal_le_storedTotal fun b hin => hb b (List.mem_cons_of_mem _ hin)
      show _ ≤ storedTotal s bos
      omega
  | some b :: bos, hb => by
      have hsplit := exactTotal_append_le s [some b] bos
      rw [List.singleton_append] at hsplit
      have hfirst := (h b (hb b (List.mem_cons_self ..))).1
      have hrest := h.exactTotal_le_storedTotal fun b hin => hb b (List.mem_cons_of_mem _ hin)
      have hsum : storedTotal s (some b :: bos) = (s.bos b).relocTreeSize + storedTotal s bos := by
        simp [storedTotal, List.reduceOption_cons_of_some]
      omega

end LibDrm.Gem
