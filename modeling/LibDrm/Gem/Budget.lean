/-
# `LibDrm.Gem.Budget` — the aperture check over whole runs

`reloc_tree_size` is a cached sum: an emitted relocation adds to it, a cleared
one does not take anything away, an allocation resets it, and the exact walk
writes the exact total to it.  As long as no sum leaves the range of an `int`
it is never below the total of the objects that the buffer reaches (`TreeOk`),
and then the cheap estimate and the exact walk give the same verdict
(`aperture_fast_path_exact`).

Without that condition a sum can wrap around, and a batch that is far too large
passes the check; `check_aperture_honest_iff` says exactly when.
-/
import LibDrm.Gem.Safety

namespace LibDrm.Gem

open Walk CInt

/-! ## One object -/

theorem size_le_of_reached {s : Bufmgr} {bos : List (Option BoId)} {c : BoId} (hc : Reached s bos c)
    (hlt : c < s.nextBo) : (s.bos c).size ≤ exactTotal s bos := by
  classical
  refine Finset.single_le_sum (f := fun c => (s.bos c).size) (fun _ _ => Nat.zero_le _) ?_
  exact Finset.mem_filter.mpr ⟨Finset.mem_range.mpr hlt, hc⟩

theorem size_le_exactTotal {s : Bufmgr} {bos : List (Option BoId)} {b : BoId} (hb : some b ∈ bos)
    (hlt : b < s.nextBo) : (s.bos b).size ≤ exactTotal s bos :=
  size_le_of_reached ⟨b, hb, Relation.ReflTransGen.refl⟩ hlt

theorem exactTotal_leaf_le {s : Bufmgr} {b : BoId} (hb : ∀ t, ¬ Edge s.relocGraph b t) :
    exactTotal s [some b] ≤ (s.bos b).size := by
  classical
  have hsub : (Finset.range s.nextBo).filter (Reached s [some b]) ⊆ {b} := by
    intro c hc
    obtain ⟨-, d, hd, hr⟩ := Finset.mem_filter.mp hc
    obtain rfl : d = b := by simpa using hd
    rcases (reach_iff_head).mp hr with rfl | ⟨t, ht, -⟩
    · exact Finset.mem_singleton_self _
    · exact absurd ht (hb t)
  refine (Finset.sum_le_sum_of_subset hsub).trans ?_
  rw [Finset.sum_singleton]

/-- Behind a live object everything is live. -/
theorem Settled.reach_live {E : BoId → Prop} {callers : BoId → Nat} {s : Bufmgr} (h : Settled E callers s)
    {b c : BoId} (hb : 0 < (s.bos b).refcount) (hc : Reach s.relocGraph b c) : 0 < (s.bos c).refcount := by
  obtain ⟨r, hi⟩ := h
  induction hc with
  | refl => exact hb
  | tail _ he _ => exact hi.graph.target_pos he

theorem Settled.lt_nextBo {E : BoId → Prop} {callers : BoId → Nat} {s : Bufmgr} (h : Settled E callers s)
    {b : BoId} (hb : 0 < (s.bos b).refcount) : b < s.nextBo := by
  obtain ⟨r, hi⟩ := h
  exact hi.graph.lt_nextBo (hi.graph.alloc_of_pos hb)

/-! ## The size of an object in the aperture -/

/-- The sums of `set_in_aperture_size` stay below 2^31: twice the object, or twice the
power of two that holds it. -/
def Bo.apertureFits (cfg : Config) (bo : Bo) : Bool :=
  if cfg.gen < 4 ∧ bo.tilingMode ≠ I915_TILING_NONE then
    if cfg.hasRelaxedFencing then decide (bo.size ≤ 2 ^ 29) else decide (bo.size < 2 ^ 30)
  else decide (bo.size < 2 ^ 31)

/-- The loop ends at a size that is large enough, and has not overflowed. -/
theorem minSizeLoop_spec {size : Int} (hsize : size ≤ 2 ^ 29) :
    ∀ (k : Nat) (minSize r : Int), 0 < minSize → minSize < 2 ^ 30 →
      minSizeLoop size k minSize = .ok r → size ≤ r ∧ 0 < r ∧ r < 2 ^ 30
  | 0, _, _, _, _, h => by cases h
  | k + 1, minSize, r, h₀, h₁, h => by
      unfold minSizeLoop at h
      split at h
      · rename_i hlt
        rw [int32_of_range (by omega) (by omega)] at h
        exact minSizeLoop_spec hsize k _ r (by omega) (by omega) h
      · rename_i hge
        cases h
        exact ⟨not_lt.mp hge, h₀, h₁⟩

theorem inApertureSize_spec {cfg : Config} {bo : Bo} (hfit : bo.apertureFits cfg = true) {size : Int}
    (h : inApertureSize cfg bo = .ok size) : (bo.size : Int) ≤ size ∧ size < 2 ^ 31 := by
  have hbound : bo.size < 2 ^ 31 := by
    unfold Bo.apertureFits at hfit
    split at hfit
    · split at hfit
      · have := of_decide_eq_true hfit; omega
      · have := of_decide_eq_true hfit; omega
    · exact of_decide_eq_true hfit
  have hint : int32 bo.size = bo.size := int32_of_range (by omega) (by omega)
  unfold inApertureSize at h
  unfold Bo.apertureFits at hfit
  simp only [hint] at h
  split at h
  · rename_i htiled
    rw [if_pos htiled] at hfit
    split at h
    · rename_i hrelaxed
      rw [if_pos hrelaxed] at hfit
      have hfit := of_decide_eq_true hfit
      cases hloop : minSizeLoop bo.size 32 (if cfg.gen = 3 then 1024 * 1024 else 512 * 1024) with
      | error e => rw [hloop] at h; cases h
      | ok minSize =>
          rw [hloop] at h
          obtain ⟨hle, hpos, hlt⟩ := minSizeLoop_spec (by omega) 32 _ minSize (by split <;> omega)
            (by split <;> omega) hloop
          have hsize : int32 (2 * minSize) = size := Except.ok.inj h
          rw [int32_of_range (by omega) (by omega)] at hsize
          omega
    · rename_i hrelaxed
      rw [if_neg hrelaxed] at hfit
      have hfit := of_decide_eq_true hfit
      have hsize : int32 (2 * bo.size) = size := Except.ok.inj h
      rw [int32_of_range (by omega) (by omega)] at hsize
      omega
  · have hsize : (bo.size : Int) = size := Except.ok.inj h
    omega

/-! ## The invariant, step by step -/

/-- The object has kept its size and gained no relocation, and its tree size is as before
or recounted. -/
structure KeepsTree (s s' : Bufmgr) (b : BoId) : Prop where
  live : 0 < (s.bos b).refcount
  size : (s'.bos b).size = (s.bos b).size
  edges : ∀ t, Edge s'.relocGraph b t → Edge s.relocGraph b t
  tree : (s'.bos b).relocTreeSize = (s.bos b).relocTreeSize
    ∨ (s'.bos b).relocTreeSize = int32 (exactTotal s [some b])

/-- The object has no relocations, and its tree size was set to its own. -/
structure ResetsTree (s s' : Bufmgr) (b : BoId) : Prop where
  size : 0 < (s.bos b).refcount → (s'.bos b).size = (s.bos b).size
  leaf : ∀ t, ¬ Edge s'.relocGraph b t
  le : ((s'.bos b).size : Int) ≤ (s'.bos b).relocTreeSize
  lt : (s'.bos b).relocTreeSize < 2 ^ 31

section Trees

variable {E E' : BoId → Prop} {callers callers' : BoId → Nat} {s s' : Bufmgr}

theorem TreeOk.change (h : TreeOk s) (hs : Settled E callers s) (hs' : Settled E' callers' s')
    (hlive : ∀ b, 0 < (s'.bos b).refcount → KeepsTree s s' b ∨ ResetsTree s s' b) : TreeOk s' := by
  intro b hb
  rcases hlive b hb with hk | hr
  · -- what is reached now was reached before, and was live
    have hreach : ∀ c, Reach s'.relocGraph b c →
        Reach s.relocGraph b c ∧ (s'.bos c).size = (s.bos c).size := by
      intro c hc
      induction hc with
      | refl => exact ⟨Relation.ReflTransGen.refl, hk.size⟩
      | @tail d c hd he ih =>
          rcases hlive d (hs'.reach_live hb hd) with hkd | hrd
          · have hedge := hkd.edges c he
            have hc : Reach s.relocGraph b c := ih.1.tail hedge
            refine ⟨hc, ?_⟩
            rcases hlive c (hs'.reach_live hb (hd.tail he)) with hkc | hrc
            · exact hkc.size
            · exact hrc.size (hs.reach_live hk.live hc)
          · exact absurd he (hrd.leaf c)
    have hle : exactTotal s' [some b] ≤ exactTotal s [some b] := by
      refine exactTotal_le fun c _ hc => ?_
      obtain ⟨d, hd, hc⟩ := hc
      obtain rfl : d = b := by simpa using hd
      obtain ⟨hc, hz⟩ := hreach c hc
      exact ⟨hs.lt_nextBo (hs.reach_live hk.live hc), ⟨d, hd, hc⟩, hz⟩
    obtain ⟨hle₀, hlt₀⟩ := h b hk.live
    rcases hk.tree with e | e
    · rw [e]; omega
    · rw [e, int32_of_range (by omega) (by omega)]; omega
  · have := exactTotal_leaf_le hr.leaf
    have := hr.le
    exact ⟨by omega, hr.lt⟩

/-- Every live object is as before. -/
theorem TreeOk.of_live (h : TreeOk s) (hs : Settled E callers s) (hs' : Settled E' callers' s')
    (hlive : ∀ b, 0 < (s'.bos b).refcount → 0 < (s.bos b).refcount
      ∧ (s'.bos b).size = (s.bos b).size ∧ (s'.bos b).targets ⊆ (s.bos b).targets
      ∧ (s'.bos b).relocTreeSize = (s.bos b).relocTreeSize) : TreeOk s' :=
  h.change hs hs' fun b hb =>
    have ⟨hpos, hz, ht, hk⟩ := hlive b hb
    Or.inl ⟨hpos, hz, fun _ he => ⟨ht he.1, he.2⟩, Or.inl hk⟩

/-- One object was written to, and what counts of it is as before. -/
theorem TreeOk.modify (h : TreeOk s) (hs : Settled E callers s) {b : BoId} {f : Bo → Bo}
    (hs' : Settled E' callers' (s.modify b f)) (hpos : 0 < (s.bos b).refcount)
    (hsize : (f (s.bos b)).size = (s.bos b).size) (htargets : (f (s.bos b)).targets ⊆ (s.bos b).targets)
    (htree : (f (s.bos b)).relocTreeSize = (s.bos b).relocTreeSize) : TreeOk (s.modify b f) := by
  refine h.of_live hs hs' fun c hc => ?_
  rw [modify_bos] at hc ⊢
  split
  · rename_i hcb
    rw [hcb]
    exact ⟨hpos, hsize, htargets, htree⟩
  · rename_i hcb
    rw [if_neg hcb] at hc
    exact ⟨hc, rfl, List.Subset.refl _, rfl⟩

/-- Nothing was written but what executions and checks write. -/
theorem TreeOk.quiet (h : TreeOk s) (hs : Settled E callers s) (hq : Quiet s s')
    (htree : ∀ c, (s'.bos c).relocTreeSize = (s.bos c).relocTreeSize
      ∨ (s'.bos c).relocTreeSize = int32 (exactTotal s [some c])) : TreeOk s' := by
  refine h.change hs (hs.quiet hq) fun b hb => Or.inl ⟨?_, ?_, fun t he => ⟨?_, he.2⟩, htree b⟩
  · rw [← hq.inert.refcount]; exact hb
  · exact hq.inert.size b
  · have hrel := hq.inert.relocs b
    have htargets : s'.relocGraph b = s.relocGraph b := by
      show (s'.bos b).targets = (s.bos b).targets
      rw [Bo.targets, Bo.targets, hrel]
    rw [← htargets]
    exact he.1

/-- A relocation is stored in an object that no relocation points to. The two tree sizes are
added unless the object is its own target, and the sum fits. -/
theorem TreeOk.emit (h : TreeOk s) (hs : Settled E callers s) {b : BoId} {a : EmitArgs} {nf fc : Bool} {room : Nat}
    (hb : 0 < (s.bos b).refcount) (ht : 0 < (s.bos a.target).refcount)
    (hu : (s.bos b).usedAsRelocTarget = false)
    (hsum : a.target ≠ b → (s.bos b).relocTreeSize + (s.bos a.target).relocTreeSize < 2 ^ 31) :
    TreeOk (storedReloc b a nf fc room s) := by
  have hs' : Settled E callers (storedReloc b a nf fc room s) := hs.emit hb ht hu
  have hnext : (storedReloc b a nf fc room s).nextBo = s.nextBo :=
    (congrArg Bufmgr.nextBo (storedReloc_rest b a nf fc room s) :)
  have hsize : ∀ c, ((storedReloc b a nf fc room s).bos c).size = (s.bos c).size := fun c =>
    (storedReloc_kept b a nf fc room s c).1
  have hgraph : (storedReloc b a nf fc room s).relocGraph
      = Function.update s.relocGraph b (s.relocGraph b ++ [a.target]) := storedReloc_targets
  have hgb : (storedReloc b a nf fc room s).relocGraph b = s.relocGraph b ++ [a.target] := by
    rw [show (storedReloc b a nf fc room s).relocGraph = _ from hgraph, Function.update_self]
  have hgne : ∀ c, c ≠ b → (storedReloc b a nf fc room s).relocGraph c = s.relocGraph c := fun c hc => by
    rw [show (storedReloc b a nf fc room s).relocGraph = _ from hgraph, Function.update_of_ne hc]
  have hsource : ∀ c, ¬ Edge s.relocGraph c b := fun c he => by
    rw [hs.used he] at hu
    cases hu
  have hnotb : ∀ {c d}, c ≠ b → Reach s.relocGraph c d → d ≠ b := by
    intro c d hc hr
    induction hr with
    | refl => exact hc
    | tail _ he _ =>
        rintro rfl
        exact hsource _ he
  intro c hc
  by_cases hcb : c = b
  · subst hcb
    -- what the object reaches now, it or the target reached before
    have hreach : ∀ x, Reach (storedReloc c a nf fc room s).relocGraph c x →
        Reached s ([some c] ++ if a.target = c then [] else [some a.target]) x := by
      intro x hx
      by_cases hself : a.target = c
      · rw [if_pos hself]
        refine ⟨c, by simp, hx.of_edge fun u v he => ?_⟩
        by_cases huc : u = c
        · rw [huc] at he ⊢
          rw [Edge, hgb] at he
          rcases List.mem_append.mp he.1 with hin | hin
          · exact ⟨hin, he.2⟩
          · exact absurd ((List.mem_singleton.mp hin).trans hself) he.2
        · rw [Edge, hgne u huc] at he
          exact he
      · rw [if_neg hself]
        rcases reach_cons hgb hgne (fun hr => hnotb hself hr rfl) hx with hr | ⟨-, hr⟩
        · exact ⟨c, by simp, hr⟩
        · exact ⟨a.target, by simp, hr⟩
    have hle : exactTotal (storedReloc c a nf fc room s) [some c]
        ≤ exactTotal s ([some c] ++ if a.target = c then [] else [some a.target]) := by
      refine exactTotal_le fun x hx hr => ?_
      obtain ⟨d, hd, hr⟩ := hr
      obtain rfl : d = c := by simpa using hd
      exact ⟨hnext ▸ hx, hreach x hr, hsize x⟩
    have happ := exactTotal_append_le s [some c] (if a.target = c then [] else [some a.target])
    obtain ⟨hcle, hclt⟩ := h c hb
    obtain ⟨htle, htlt⟩ := h a.target ht
    by_cases hself : a.target = c
    · have htree : ((storedReloc c a nf fc room s).bos c).relocTreeSize = (s.bos c).relocTreeSize := by
        rw [storedReloc_self_bos hself, if_pos rfl]
        rfl
      rw [if_pos hself, exactTotal_nil] at happ
      rw [if_pos hself] at hle
      rw [htree]
      omega
    · have htree : ((storedReloc c a nf fc room s).bos c).relocTreeSize
          = int32 ((s.bos c).relocTreeSize + (s.bos a.target).relocTreeSize) := by
        rw [storedReloc_bos hself, if_pos rfl]
        rfl
      have := hsum hself
      rw [if_neg hself] at happ hle
      rw [htree, int32_of_range (by omega) (by omega)]
      omega
  · -- other objects do not reach the one that has changed
    have hpos : 0 < (s.bos c).refcount := by
      by_contra h0
      have hct : c ≠ a.target := fun e => h0 (e ▸ ht)
      rw [storedReloc_other hcb hct] at hc
      exact h0 hc
    have hreach : ∀ x, Reach (storedReloc b a nf fc room s).relocGraph c x → Reach s.relocGraph c x := by
      intro x hx
      induction hx with
      | refl => exact Relation.ReflTransGen.refl
      | @tail d x _ he ih =>
          rw [Edge, hgne d (hnotb hcb ih)] at he
          exact ih.tail he
    have hle : exactTotal (storedReloc b a nf fc room s) [some c] ≤ exactTotal s [some c] := by
      refine exactTotal_le fun x hx hr => ?_
      obtain ⟨d, hd, hr⟩ := hr
      obtain rfl : d = c := by simpa using hd
      exact ⟨hnext ▸ hx, ⟨d, hd, hreach x hr⟩, hsize x⟩
    have htree : ((storedReloc b a nf fc room s).bos c).relocTreeSize = (s.bos c).relocTreeSize := by
      by_cases hself : a.target = b
      · rw [storedReloc_self_bos hself, if_neg hcb]
      · rw [storedReloc_bos hself, if_neg hcb]
        split
        · rename_i hct; rw [hct]; rfl
        · rfl
    obtain ⟨hcle, hclt⟩ := h c hpos
    rw [htree]
    omega

/-- All that `set_tiling` can do. -/
theorem boSetTiling_cases {b : BoId} {mode stride : Nat} {r : Reply Tiling} {res : (Int × Nat) × Bufmgr}
    (h : boSetTiling b mode stride r s = .ok res) :
    ∃ f : Bo → Bo, res.2 = s.modify b f ∧ (f (s.bos b)).key = (s.bos b).key
      ∧ ((f (s.bos b)).relocTreeSize = (s.bos b).relocTreeSize
        ∨ inApertureSize s.cfg (f (s.bos b)) = .ok (f (s.bos b)).relocTreeSize) := by
  unfold boSetTiling at h
  split at h
  · cases h
    exact ⟨id, by simp [Bufmgr.modify], rfl, Or.inl rfl⟩
  obtain ⟨ret, t, hset, -⟩ := boSetTilingInternal_eq b mode (if mode = I915_TILING_NONE then 0 else stride) r s
  simp only [hset] at h
  by_cases hret : ret = 0
  · rw [if_pos hret, setInApertureSize] at h
    rw [modify_self] at h
    cases hu : ((s.bos b).setTiling t).usedAsRelocTarget with
    | true =>
        simp only [hu, Bool.not_true, assert_false, error_bind] at h
        cases h
    | false =>
        simp only [hu, Bool.not_false, assert_true, ok_bind, modify_cfg] at h
        cases hsz : inApertureSize s.cfg ((s.bos b).setTiling t) with
        | error e => rw [hsz] at h; cases h
        | ok size =>
            rw [hsz] at h
            cases h
            refine ⟨Bo.setTreeSize size ∘ Bo.setTiling t, modify_modify .., rfl, Or.inr ?_⟩
            exact hsz
  · rw [if_neg hret] at h
    cases h
    exact ⟨Bo.setTiling t, rfl, rfl, Or.inl rfl⟩

end Trees

/-- The sizes of the live objects are below 2^31 in the aperture. -/
def Bufmgr.sizesFit (s : Bufmgr) : Bool :=
  (List.range s.nextBo).all fun b => decide ((s.bos b).refcount = 0) || (s.bos b).apertureFits s.cfg

/-- An emission that `do_bo_emit_reloc` refuses: an object has an error, or there is no memory
for the array of relocations. -/
def EmitArgs.refused (b : BoId) (a : EmitArgs) (s : Bufmgr) : Bool :=
  (s.bos b).hasError || (s.bos a.target).hasError || ((s.bos b).relocArray.isNone && !a.mallocOk)

/-- The calls that build, clear, check and execute batches, as long as no sum reaches 2^31
and no object with relocations changes its tiling. An emission makes a sum unless it is refused
or points to the object itself. -/
def Call.budgeted : Call → Bufmgr → Bufmgr → Bool
  | .alloc .., _, s' | .allocTiled .., _, s' | .allocUserptr .., _, s' => s'.sizesFit
  | .setTiling b _ _ _, s, s' => (s.bos b).relocs.isEmpty && s'.sizesFit
  | .emitReloc b a, s, _ => a.refused b s || decide (a.target = b)
    || decide ((s.bos b).relocTreeSize + (s.bos a.target).relocTreeSize < 2 ^ 31)
  | .clearRelocs .., _, _ | .checkApertureSpace .., _, _ | .exec .., _, _ | .exec2 .., _, _
  | .reference .., _, _ | .unreference .., _, _ | .map .., _, _ | .mapGtt .., _, _
  | .mapUnsynchronized .., _, _ | .unmap .., _, _ | .enableReuse, _, _ | .enableFencedRelocs, _, _ => true
  | _, _, _ => false

/-- Runs of such calls. -/
def Budgeted (c : Call) (s s' : Bufmgr) : Prop := c.budgeted s s' = true

theorem Budgeted.clean {c : Call} {s s' : Bufmgr} (h : Budgeted c s s') : Clean c s s' := by
  cases c with
  | exportToPrime b r => cases h
  | _ => rfl

theorem Bufmgr.sizesFit_spec {s : Bufmgr} (h : s.sizesFit = true) {b : BoId} (hlt : b < s.nextBo)
    (hb : 0 < (s.bos b).refcount) : (s.bos b).apertureFits s.cfg = true := by
  have hall := List.all_eq_true.mp h b (List.mem_range.mpr hlt)
  rcases Bool.or_eq_true_iff.mp hall with h0 | hfit
  · have := of_decide_eq_true h0
    omega
  · exact hfit

section Steps

variable {σ : Sys}

/-- An allocation leaves the other live objects alone. -/
theorem TreeOk.allocated {s s' : Bufmgr} {E : BoId → Prop} {callers : BoId → Nat} {size : Nat} {found : Option BoId}
    (h : TreeOk s) (hs : Settled E callers s) (hp : AllocPost E callers size s (found, s'))
    (hfit : s'.sizesFit = true) : TreeOk s' := by
  cases found with
  | none =>
      obtain ⟨-, hs', D, hsw⟩ := hp
      have hlive : ∀ b, 0 < (s'.bos b).refcount → 0 < (s.bos b).refcount := fun b hb =>
        Nat.pos_of_ne_zero fun h0 => absurd (hsw.dead b h0) hb.ne'
      refine h.of_live hs hs' fun b hb => ⟨hlive b hb, ?_⟩
      rw [hsw.live b (hlive b hb)]
      exact ⟨rfl, List.Subset.refl _, rfl⟩
  | some b =>
      obtain ⟨-, hs', hh, -, -⟩ := hp
      refine h.change hs hs' fun c hc => ?_
      by_cases hcb : c = b
      · subst hcb
        obtain ⟨hle, hlt⟩ := inApertureSize_spec (Bufmgr.sizesFit_spec hfit (hs'.lt_nextBo hc) hc) hh.treeSize
        refine Or.inr ⟨fun hpos => ?_, fun t he => ?_, hle, hlt⟩
        · have := hh.was
          omega
        · have : (s'.bos c).targets = [] := by rw [Bo.targets, hh.relocs]; rfl
          have hin : t ∈ (s'.bos c).targets := he.1
          rw [this] at hin
          cases hin
      · have hpos : 0 < (s.bos c).refcount := Nat.pos_of_ne_zero fun h0 => absurd (hh.dead c hcb h0) hc.ne'
        have e := hh.live c hpos
        refine Or.inl ⟨hpos, by rw [e], fun t he => ?_, Or.inl (by rw [e])⟩
        rw [Edge, show s'.relocGraph c = s.relocGraph c by show (s'.bos c).targets = _; rw [e]] at he
        exact he

theorem TreeOk.dropped {s s' : Bufmgr} {E E' : BoId → Prop} {callers callers' : BoId → Nat} (h : TreeOk s)
    (hs : Settled E callers s) (hs' : Settled E' callers' s') (hd : Dropped s s') : TreeOk s' := by
  refine h.of_live hs hs' fun b hb => ⟨lt_of_lt_of_le hb (hd.mono b), ?_⟩
  have hf := hd.live b hb
  have hrel : (s'.bos b).relocs = (s.bos b).relocs := (congrArg Bo.relocs hf :)
  refine ⟨(congrArg Bo.size hf :), ?_, (congrArg Bo.relocTreeSize hf :)⟩
  rw [Bo.targets, Bo.targets, hrel]
  exact List.Subset.refl _

theorem TreeOk.mapped {s s' : Bufmgr} {E E' : BoId → Prop} {callers callers' : BoId → Nat} {b : BoId}
    (h : TreeOk s) (hs : Settled E callers s) (hs' : Settled E' callers' s') (hf : MapFrame b s s') :
    TreeOk s' := by
  refine h.of_live hs hs' fun c hc => ?_
  have e := hf.bos c
  have hr : (s'.bos c).refcount = (s.bos c).refcount := (congrArg Bo.refcount e :)
  have hrel : (s'.bos c).relocs = (s.bos c).relocs := (congrArg Bo.relocs e :)
  refine ⟨hr ▸ hc, (congrArg Bo.size e :), ?_, (congrArg Bo.relocTreeSize e :)⟩
  rw [Bo.targets, Bo.targets, hrel]
  exact List.Subset.refl _

/-- What was run without a result, or with one that is dropped. -/
theorem silent_ok {α : Type} {x : Except Fault (α × Bufmgr)} {got : Option BoId} {s' : Bufmgr}
    (h : silent x = .ok (got, s')) : ∃ a, x = .ok (a, s') := by
  cases x with
  | error e => cases h
  | ok r => cases h; exact ⟨r.1, rfl⟩

theorem plain_ok {x : Except Fault Bufmgr} {got : Option BoId} {s' : Bufmgr} (h : plain x = .ok (got, s')) :
    x = .ok s' := by
  cases x with
  | error e => cases h
  | ok r => cases h; rfl

theorem boEmitReloc_refused {b : BoId} {a : EmitArgs} {s s' : Bufmgr} {ret : Int} (hr : a.refused b s = true)
    (h : boEmitReloc b a s = .ok (ret, s')) : ret = -ENOMEM := by
  unfold boEmitReloc doBoEmitReloc at h
  split at h
  · cases h; rfl
  split at h
  · cases h; rfl
  rename_i hb ht
  obtain ⟨hnone, hok⟩ : (s.bos b).relocArray = none ∧ a.mallocOk = false := by
    simpa [EmitArgs.refused, hb, ht] using hr
  simp only [hnone, if_true, setupRelocList, hok, Bool.false_eq_true, if_false] at h
  cases h
  rfl

section Calls

variable {callers : BoId → Nat} {s s' : Bufmgr} {b : BoId}

/-- An emission is refused, or it stores a relocation in an object that has its array. -/
theorem TreeOk.emitReloc (h : TreeOk s) (hs : Settled (fun _ => False) callers s) {a : EmitArgs} {ret : Int}
    (hb : 0 < (s.bos b).refcount) (ht : 0 < (s.bos a.target).refcount)
    (hc : Call.budgeted (.emitReloc b a) s s' = true) (hrun : boEmitReloc b a s = .ok (ret, s')) : TreeOk s' := by
  rcases boEmitReloc_cases hrun with ⟨-, rfl⟩ | ⟨hret, hu, room, rfl⟩
  · have hs' : Settled (fun _ => False) callers (s.modify b (Bo.setError true)) :=
      hs.inert (Inert.modify _ rfl (Or.inl rfl)) (hs.vma.modify rfl rfl rfl)
    exact h.modify hs hs' hb rfl (List.Subset.refl _) rfl
  have hs₁ : Settled (fun _ => False) callers (s.modify b (Bo.setup room)) :=
    hs.inert (Inert.modify _ rfl (Or.inl rfl)) (hs.vma.modify rfl rfl rfl)
  have hkeep : ∀ {α : Type} (F : Bo → α), (∀ bo, F (Bo.setup room bo) = F bo) → ∀ c,
      F ((s.modify b (Bo.setup room)).bos c) = F (s.bos c) := fun F hF c => modify_field F s b c (hF _)
  have hsum : a.target ≠ b → (s.bos b).relocTreeSize + (s.bos a.target).relocTreeSize < 2 ^ 31 := by
    intro hne
    rcases Bool.or_eq_true_iff.mp hc with hc | hc
    · rcases Bool.or_eq_true_iff.mp hc with hc | hc
      · have := boEmitReloc_refused hc hrun
        rw [hret] at this
        cases this
      · exact absurd (of_decide_eq_true hc) hne
    · exact of_decide_eq_true hc
  refine (h.modify hs hs₁ hb rfl (List.Subset.refl _) rfl).emit hs₁ ?_ ?_ ?_ ?_
  · rw [hkeep Bo.refcount fun _ => rfl]; exact hb
  · rw [hkeep Bo.refcount fun _ => rfl]; exact ht
  · rw [hkeep Bo.usedAsRelocTarget fun _ => rfl]; exact hu
  · rw [hkeep Bo.relocTreeSize fun _ => rfl, hkeep Bo.relocTreeSize fun _ => rfl]
    exact hsum

/-- Relocations are cut off at the end, and targets may go. -/
theorem TreeOk.clearRelocs (h : TreeOk s) (hs : Settled (fun _ => False) callers s) (hl : s.lock = false)
    {E' : BoId → Prop} {callers' : BoId → Nat} (hs' : Settled E' callers' s') {start : Nat} {madv : Madvise} {time : Int}
    (hrun : boClearRelocs madv time b start s = .ok s') : TreeOk s' := by
  have hstart : start ≤ (s.bos b).relocs.length := by
    by_contra hno
    have : decide (start ≤ (s.bos b).relocs.length) = false := by simpa using hno
    simp only [boClearRelocs, this, assert_false, error_bind] at hrun
    cases hrun
  have hd := ((boClearRelocs_spec hs hl hstart madv time).ensures _ hrun).2
  refine h.of_live hs hs' fun c hcpos => ?_
  have hkeep : ∀ {α : Type} (F : Bo → α), (∀ bo, F (Bo.truncate start bo) = F bo) →
      F ((s.modify b (Bo.truncate start)).bos c) = F (s.bos c) := fun F hF => modify_field F s b c (hF _)
  have hf := hd.live c hcpos
  have hmono := hd.mono c
  rw [hkeep Bo.refcount fun _ => rfl] at hmono
  refine ⟨lt_of_lt_of_le hcpos hmono, (congrArg Bo.size hf :).trans (hkeep Bo.size fun _ => rfl), ?_,
    (congrArg Bo.relocTreeSize hf :).trans (hkeep Bo.relocTreeSize fun _ => rfl)⟩
  have hrel : (s'.bos c).relocs = ((s.modify b (Bo.truncate start)).bos c).relocs := (congrArg Bo.relocs hf :)
  rw [Bo.targets, Bo.targets, hrel, modify_bos]
  split
  · rename_i hcb
    rw [hcb, Bo.truncate_relocs]
    exact List.map_subset _ (List.take_subset _ _)
  · exact List.Subset.refl _

/-- An object without relocations changes its tiling, and its tree size with it. -/
theorem TreeOk.setTiling (h : TreeOk s) (hs : Settled (fun _ => False) callers s) {E' : BoId → Prop}
    {callers' : BoId → Nat} (hs' : Settled E' callers' s') (hrel : (s.bos b).relocs = []) (hfit : s'.sizesFit = true)
    {mode stride : Nat} {r : Reply Tiling} {res : Int × Nat} (hrun : boSetTiling b mode stride r s = .ok (res, s')) :
    TreeOk s' := by
  obtain ⟨f, rfl, hkey, htree⟩ := boSetTiling_cases hrun
  have hf : ∀ {α : Type} (F : Bo → α), (∀ bo, F bo = F bo.key) → F (f (s.bos b)) = F (s.bos b) := fun F hF => by
    rw [hF, hkey, ← hF]
  rcases htree with htree | hsize
  · by_cases hb : 0 < (s.bos b).refcount
    · refine h.modify hs hs' hb (hf Bo.size fun _ => rfl) ?_ htree
      rw [hf Bo.targets fun _ => rfl]
      exact List.Subset.refl _
    · refine h.of_live hs hs' fun c hc => ?_
      have hcb : c ≠ b := by
        rintro rfl
        rw [modify_self, hf Bo.refcount fun _ => rfl] at hc
        exact hb hc
      rw [modify_of_ne _ hcb] at hc ⊢
      exact ⟨hc, rfl, List.Subset.refl _, rfl⟩
  refine h.change hs hs' fun c hcpos => ?_
  by_cases hcb : c = b
  · subst hcb
    have hfits := Bufmgr.sizesFit_spec hfit (hs'.lt_nextBo hcpos) hcpos
    rw [modify_cfg, modify_self] at hfits
    obtain ⟨hle, hlt⟩ := inApertureSize_spec hfits hsize
    refine Or.inr ⟨fun _ => ?_, fun t he => ?_, ?_, ?_⟩
    · rw [modify_self, hf Bo.size fun _ => rfl]
    · have hin : t ∈ ((s.modify c f).bos c).targets := he.1
      rw [modify_self, hf Bo.targets fun _ => rfl, Bo.targets, hrel] at hin
      cases hin
    · rw [modify_self]; exact hle
    · rw [modify_self]; exact hlt
  · have e : (s.modify b f).bos c = s.bos c := modify_of_ne _ hcb f
    have hg : (s.modify b f).relocGraph c = s.relocGraph c := congrArg Bo.targets e
    refine Or.inl ⟨by rw [← e]; exact hcpos, by rw [e], fun t he => ?_, Or.inl (by rw [e])⟩
    rw [Edge, hg] at he
    exact he

end Calls

/-- Every budgeted call keeps the tree sizes. -/
theorem Call.run_trees (h : Rest σ) (ht : TreeOk σ.mgr) {c : Call} (hv : c.Valid σ) {got : Option BoId}
    {s' : Bufmgr} (hrun : c.run σ.mgr = .ok (got, s')) (hc : Budgeted c σ.mgr s')
    (h' : Rest ⟨s', c.account got σ.callers⟩) : TreeOk s' := by
  have hset := h.settled
  have hset' := h'.settled
  cases c with
  | enableReuse => cases hrun; exact ht.of_live hset hset' fun b hb => ⟨hb, rfl, List.Subset.refl _, rfl⟩
  | enableFencedRelocs =>
      cases hrun
      unfold Gem.enableFencedRelocs
      split
      · exact ht
      · exact ht
  | alloc size forRender r =>
      exact ht.allocated hset (boAllocInternal_spec hset (fun _ e => e) h.lock size forRender I915_TILING_NONE 0 r _ hrun) hc
  | allocTiled x y cpp mode forRender r =>
      exact ht.allocated hset (boAllocTiled_spec hset (fun _ e => e) h.lock x y cpp mode forRender r _ hrun) hc
  | allocUserptr addr mode size r =>
      exact ht.allocated hset (boAllocUserptr_spec hset (fun _ e => e) h.lock addr mode size r _ hrun) hc
  | reference b =>
      cases hrun
      exact ht.modify hset hset' (hv.1 b (List.mem_singleton.mpr rfl)).2 rfl (List.Subset.refl _) rfl
  | unreference madv time b =>
      have hb : 0 < σ.callers b := of_decide_eq_true hv.2
      have hspec := (boUnreference_spec hset h.lock hb madv time).ensures _ (plain_ok hrun)
      exact ht.dropped hset hset' hspec.2
  | emitReloc b a =>
      have hb := hv.1 b (by simp [Call.objects])
      have htl := hv.1 a.target (by simp [Call.objects])
      obtain ⟨ret, hret⟩ := silent_ok hrun
      exact ht.emitReloc hset hb.2 htl.2 hc hret
  | clearRelocs madv time b start => exact TreeOk.clearRelocs ht hset h.lock hset' (plain_ok hrun)
  | exec b r =>
      have hb := hv.1 b (List.mem_singleton.mpr rfl)
      obtain ⟨ret, hret⟩ := silent_ok hrun
      have hpost := boExec_ensures hset h.lock h.calm.unlisted h.calm.unflagged hb.1 r _ hret
      exact ht.quiet hset hpost.quiet hpost.trees
  | exec2 b flags r =>
      have hb := hv.1 b (List.mem_singleton.mpr rfl)
      obtain ⟨ret, hret⟩ := silent_ok hrun
      have hpost := doExec2_ensures hset h.lock h.calm.unlisted h.calm.unflagged hb.1 flags r _ hret
      exact ht.quiet hset hpost.quiet hpost.trees
  | checkApertureSpace bos =>
      obtain ⟨ret, hret⟩ := silent_ok hrun
      have hbos : ∀ c, some c ∈ bos → (σ.mgr.bos c).allocated = true := fun c hc =>
        (hv.1 c (by simpa [Call.objects, List.reduceOption_mem_iff] using hc)).1
      have hpost := checkApertureSpace_quiet hset h.calm.unflagged hbos _ hret
      exact ht.quiet hset hpost.1 hpost.2.2
  | map b writeEnable mmap =>
      have hb := hv.1 b (List.mem_singleton.mpr rfl)
      obtain ⟨ret, hret⟩ := silent_ok hrun
      exact ht.mapped hset hset' ((boMap_spec hset.vma hb.1 h.lock writeEnable mmap).ensures _ hret).2
  | mapGtt b mmap =>
      have hb := hv.1 b (List.mem_singleton.mpr rfl)
      obtain ⟨ret, hret⟩ := silent_ok hrun
      exact ht.mapped hset hset' ((boMapGtt_spec hset.vma hb.1 h.lock mmap).ensures _ hret).2
  | mapUnsynchronized b mmap =>
      have hb := hv.1 b (List.mem_singleton.mpr rfl)
      obtain ⟨ret, hret⟩ := silent_ok hrun
      exact ht.mapped hset hset' ((boMapUnsynchronized_spec hset.vma hb.1 h.lock mmap).ensures _ hret).2
  | unmap b swFinish =>
      have hb := hv.1 b (List.mem_singleton.mpr rfl)
      obtain ⟨ret, hret⟩ := silent_ok hrun
      exact ht.mapped hset hset' ((boUnmap_spec hset.vma hb.1 h.lock swFinish).ensures _ hret).2
  | setTiling b mode stride r =>
      obtain ⟨hrel, hfit⟩ := Bool.and_eq_true_iff.mp hc
      obtain ⟨res, hres⟩ := silent_ok hrun
      exact ht.setTiling hset hset' (List.isEmpty_iff.mp hrel) hfit hres
  | createFromName madv time name r => cases hc
  | createFromPrime madv time size r => cases hc
  | exportToPrime b r => cases hc
  | flink b r => cases hc
  | disableReuse b => cases hc
  | setVmaCacheSize limit => cases hc
  | busy b r => cases hc
  | «foreign» o => cases hc

end Steps

/-- The tree sizes are right in every state of a budgeted run. -/
theorem Reachable.trees {σ : Sys} (h : Reachable Budgeted σ) : Rest σ ∧ TreeOk σ.mgr := by
  refine Runs.induct (I := fun σ => Rest σ ∧ TreeOk σ.mgr) ?_ ?_ h
  · rintro σ ⟨cfg, k, hk, rfl⟩
    exact ⟨Rest.init cfg hk, fun b hb => absurd hb (lt_irrefl 0)⟩
  · rintro σ ⟨s', callers'⟩ ⟨hσ, ht⟩ ⟨c, got, hv, hc, hrun, rfl⟩
    have hσ' := Call.run_spec hσ hv hc.clean _ hrun
    exact ⟨hσ', Call.run_trees hσ ht hv hrun hc hσ'⟩

/-! ## The estimate and the exact walk agree -/

/-- The return code of a check that accepts or refuses a batch. -/
def verdict (fits : Bool) : Int := if fits then 0 else -ENOSPC

/-- In a run whose sums stay below 2^31 the tree sizes bound what the objects reach, and the
check accepts exactly the arrays whose total, each object counted once, is within the
threshold.  The exact walk returns that total, leaves no flag, and writes to the first object only. -/
theorem aperture_fast_path_exact {σ : Sys} (h : Reachable Budgeted σ) :
    (∀ b, σ.mgr.Live b → (exactTotal σ.mgr [some b] : Int) ≤ (σ.mgr.bos b).relocTreeSize)
    ∧ ∀ b bos, (∀ c, some c ∈ some b :: bos → σ.mgr.Live c) → storedTotal σ.mgr (some b :: bos) < 2 ^ 31 →
        (∃ total v, computeBatchSpace (some b :: bos) σ.mgr = .ok (total, σ.mgr.modify b (Bo.setTreeSize v))
          ∧ total = exactTotal σ.mgr (some b :: bos)
          ∧ total ≤ estimateBatchSpace (some b :: bos) σ.mgr
          ∧ Unflagged (σ.mgr.modify b (Bo.setTreeSize v)))
        ∧ Returns (checkApertureSpace (some b :: bos) σ.mgr) fun r => r.1 =
            if fencesExceeded (some b :: bos) σ.mgr then -ENOSPC
            else verdict (decide (exactTotal σ.mgr (some b :: bos) ≤ σ.mgr.cfg.threshold)) := by
  obtain ⟨⟨hset, hlock, hf, hu⟩, ht⟩ := h.trees
  refine ⟨fun b hb => (ht b hb.2).1, fun b bos hlive hsum => ?_⟩
  have hle := ht.exactTotal_le_storedTotal fun c hc => (hlive c hc).2
  have halloc : ∀ c, some c ∈ some b :: bos → (σ.mgr.bos c).allocated = true := fun c hc => (hlive c hc).1
  have hexact : uint32 (exactTotal σ.mgr (some b :: bos)) = exactTotal σ.mgr (some b :: bos) :=
    uint32_of_range (by omega) (by omega)
  have hstored : uint32 (storedTotal σ.mgr (some b :: bos)) = storedTotal σ.mgr (some b :: bos) :=
    uint32_of_range (by omega) (by omega)
  obtain ⟨v, hv⟩ : ∃ v, v = int32 (exactTotal σ.mgr [some b]) := ⟨_, rfl⟩
  have hwalk := computeBatchSpace_spec hset hf halloc
  rw [← hv] at hwalk
  refine ⟨⟨_, v, hwalk, hexact, ?_, fun c => ?_⟩, ?_⟩
  · rw [estimateBatchSpace_eq, hexact, hstored]
    exact hle
  · exact (modify_field Bo.includedInCheckAperture σ.mgr b c rfl).trans (hf c)
  · rw [checkApertureSpace_eq hset hf halloc, hexact, hstored]
    refine .ok ?_
    by_cases hfence : fencesExceeded (some b :: bos) σ.mgr = true
    · rw [if_pos hfence, if_pos hfence]
    rw [if_neg hfence, if_neg hfence]
    by_cases hest : storedTotal σ.mgr (some b :: bos) ≤ σ.mgr.cfg.threshold
    · rw [if_pos hest, decide_eq_true (hle.trans hest)]
      rfl
    · rw [if_neg hest]
      by_cases hex : (exactTotal σ.mgr (some b :: bos) : Int) ≤ σ.mgr.cfg.threshold
      · rw [if_pos hex, decide_eq_true hex]
        rfl
      · rw [if_neg hex, decide_eq_false hex]
        rfl

theorem aperture_fast_path_exact_twoBos : ∃ σ, playAll Call.budgeted {} .empty twoBos = some σ
    ∧ Returns (checkApertureSpace [some 1] σ.mgr) fun r => r.1 =
        if fencesExceeded [some 1] σ.mgr then -ENOSPC
        else verdict (decide (exactTotal σ.mgr [some 1] ≤ σ.mgr.cfg.threshold)) := by
  have hrun : (playAll Call.budgeted {} .empty twoBos).any
      (fun σ => decide (σ.mgr.Live 1 ∧ storedTotal σ.mgr [some 1] < 2 ^ 31)) = true := by decide +kernel
  obtain ⟨σ, hplay, h, hlive⟩ := playAll_any KernelOk.empty hrun
  obtain ⟨hlive, hsum⟩ := of_decide_eq_true hlive
  refine ⟨σ, hplay, ((aperture_fast_path_exact h).2 1 [] (fun c hc => ?_) hsum).2⟩
  obtain rfl : c = 1 := by simpa using hc
  exact hlive

/-! ## When a sum wraps around -/

/-- The array is too large, and a total that is too large has wrapped to one that is not. -/
def Overlooked (bos : List (Option BoId)) (s : Bufmgr) : Prop :=
  bos.head?.join.isSome = true ∧ fencesExceeded bos s = false ∧ 3 * s.cfg.gttSize < 4 * exactTotal s bos
    ∧ (uint32 (storedTotal s bos) ≤ s.cfg.threshold ∨ uint32 (exactTotal s bos) ≤ s.cfg.threshold)

/-- Without a first object the check does not return. -/
theorem checkApertureSpace_noFirst {bos : List (Option BoId)} (h : bos.head?.join = none) (s : Bufmgr)
    (r : Int × Bufmgr) : checkApertureSpace bos s ≠ .ok r := by
  unfold checkApertureSpace
  rw [h]
  exact nofun

/-- The check accepts only arrays within 3/4 of the aperture, unless it overlooks one. -/
theorem check_aperture_honest_iff {σ : Sys} (h : Reachable Clean σ) {bos : List (Option BoId)}
    (hlive : ∀ c, some c ∈ bos → σ.mgr.Live c) :
    (∀ s', checkApertureSpace bos σ.mgr = .ok (0, s') →
      4 * exactTotal σ.mgr bos ≤ 3 * σ.mgr.cfg.gttSize)
    ↔ ¬ Overlooked bos σ.mgr := by
  obtain ⟨hset, -, hf, -⟩ := h.rest
  rcases bos with _ | ⟨_ | b, bos⟩
  · exact ⟨fun _ hover => absurd hover.1 (by decide),
      fun _ s' hs' => absurd hs' (checkApertureSpace_noFirst rfl _ _)⟩
  · exact ⟨fun _ hover => absurd hover.1 (by simp),
      fun _ s' hs' => absurd hs' (checkApertureSpace_noFirst rfl _ _)⟩
  have hcheck := checkApertureSpace_eq hset hf fun c hc => (hlive c hc).1
  have hno : (0 : Int) ≠ -ENOSPC := by decide
  constructor
  · rintro hhonest ⟨-, hfence, hlarge, hwrap⟩
    have hret : ∃ s', checkApertureSpace (some b :: bos) σ.mgr = .ok (0, s') := by
      rw [hcheck, hfence, if_neg (by simp)]
      split
      · exact ⟨_, rfl⟩
      · rename_i hest
        rw [if_pos (hwrap.resolve_left hest)]
        exact ⟨_, rfl⟩
    obtain ⟨s', hs'⟩ := hret
    exact absurd (hhonest s' hs') (not_le.mpr hlarge)
  · intro hover s' hs'
    by_contra hlarge
    refine hover ⟨rfl, ?_, not_le.mp hlarge, ?_⟩
    · by_contra hfence
      rw [hcheck, if_pos (by simpa using hfence)] at hs'
      exact hno (Prod.mk.inj (Except.ok.inj hs')).1.symm
    · by_contra hwrap
      obtain ⟨hest, hex⟩ := not_or.mp hwrap
      rw [hcheck, if_neg hest, if_neg hex] at hs'
      split at hs'
      · exact hno (Prod.mk.inj (Except.ok.inj hs')).1.symm
      · exact hno (Prod.mk.inj (Except.ok.inj hs')).1.symm

theorem exactTotal_le_all (s : Bufmgr) (bos : List (Option BoId)) :
    exactTotal s bos ≤ ∑ c ∈ Finset.range s.nextBo, (s.bos c).size := by
  classical
  unfold exactTotal
  exact Finset.sum_le_sum_of_subset (Finset.filter_subset ..)

theorem check_aperture_honest_twoBos : ∃ σ, playAll Call.clean {} .empty twoBos = some σ
    ∧ ∀ s', checkApertureSpace [some 1] σ.mgr = .ok (0, s') →
      4 * exactTotal σ.mgr [some 1] ≤ 3 * σ.mgr.cfg.gttSize := by
  have hrun : (playAll Call.clean {} .empty twoBos).any (fun σ => decide (σ.mgr.Live 1
      ∧ 4 * ∑ c ∈ Finset.range σ.mgr.nextBo, (σ.mgr.bos c).size ≤ 3 * σ.mgr.cfg.gttSize)) = true := by
    decide +kernel
  obtain ⟨σ, hplay, h, hp⟩ := playAll_any KernelOk.empty hrun
  obtain ⟨hlive, hsmall⟩ := of_decide_eq_true hp
  refine ⟨σ, hplay, (check_aperture_honest_iff h (fun c hc => ?_)).mpr fun hover => ?_⟩
  · obtain rfl : c = 1 := by simpa using hc
    exact hlive
  · have hle := exactTotal_le_all σ.mgr [some 1]
    have hlarge := hover.2.2.1
    omega

/-- An object of 4 GiB, whose size is 0 in an `int`. -/
def hugeBo : List Call := [.alloc (2 ^ 32) false (.simple 1 1)]

theorem hugeBo_overlooked : ∃ σ s', Reachable Clean σ ∧ σ.mgr.Live 0
    ∧ checkApertureSpace [some 0] σ.mgr = .ok (0, s')
    ∧ ¬ 4 * exactTotal σ.mgr [some 0] ≤ 3 * σ.mgr.cfg.gttSize := by
  have hrun : (playAll Call.clean {} .empty hugeBo).any (fun σ =>
      decide (σ.mgr.Live 0 ∧ 0 < σ.mgr.nextBo ∧ 3 * σ.mgr.cfg.gttSize < 4 * (σ.mgr.bos 0).size)
      && returns (fun r => decide (r.1 = 0)) (checkApertureSpace [some 0] σ.mgr)) = true := by decide +kernel
  obtain ⟨σ, -, h, hp⟩ := playAll_any KernelOk.empty hrun
  obtain ⟨hp, hret⟩ := Bool.and_eq_true_iff.mp hp
  obtain ⟨hlive, hlt, hlarge⟩ := of_decide_eq_true hp
  obtain ⟨⟨ret, s'⟩, hr, h0⟩ := returns_true hret
  obtain rfl : ret = 0 := of_decide_eq_true h0
  have hle : (σ.mgr.bos 0).size ≤ exactTotal σ.mgr [some 0] := size_le_exactTotal (List.mem_singleton.mpr rfl) hlt
  exact ⟨σ, s', h, hlive, hr, by omega⟩

end LibDrm.Gem
