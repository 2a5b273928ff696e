/-
# `LibDrm.Gem.References` — is an object referenced by a tree of relocations?

`drm_intel_gem_bo_references(bo, target)` looks for a stored relocation to
`target` below `bo`, but only if `target` is marked as a target.  The emission of
a relocation marks the target only where this is another object, so the shortcut
is wrong in one case:

| `bo` | `target` | marked | the answer |
| :-- | :-- | :-- | :-- |
| reaches `target` from another object | | yes | true |
| is `target`, relocates to itself | another object has it as a target | yes | true |
| is `target`, relocates to itself | nothing else does | no | **false** |
| does not reach `target` | | either | false |

`references_iff` says that there is no other.
-/
import LibDrm.Gem.Safety

namespace LibDrm.Gem

open Walk CInt

/-- The stored relocations lead from `b` to `target`, in one step or more. -/
def Bufmgr.Relocates (s : Bufmgr) (b target : BoId) : Prop :=
  Relation.TransGen (fun a t => t ∈ s.relocGraph a) b target

theorem relocates_iff {s : Bufmgr} {b target : BoId} : s.Relocates b target ↔ RefersTo s b target := by
  unfold Bufmgr.Relocates RefersTo
  rw [Relation.TransGen.tail'_iff]
  simp only [reach_iff_members]

section

variable {E : BoId → Prop} {callers : BoId → Nat} {s : Bufmgr} {b target : BoId}

/-- A target that is not marked has no relocation but its own. -/
theorem Settled.unmarked (h : Settled E callers s) (hunmarked : (s.bos target).usedAsRelocTarget = false)
    (href : RefersTo s b target) : b = target ∧ target ∈ s.relocGraph target := by
  have hnone : ∀ a, ¬ Edge s.relocGraph a target := fun a he => by
    rw [h.used he] at hunmarked
    cases hunmarked
  obtain ⟨a, hreach, hmem⟩ := href
  have ha : a = target := by
    by_contra hne
    exact hnone a ⟨hmem, Ne.symm hne⟩
  subst ha
  rcases Relation.ReflTransGen.cases_tail hreach with heq | ⟨c, -, hedge⟩
  · exact ⟨heq.symm, hmem⟩
  · exact absurd hedge (hnone c)

/-- The answer is right for every pair but an unmarked object with a relocation to itself. -/
theorem Settled.path_iff (h : Settled E callers s) :
    Returns (boReferences b target s) (fun found => found = true ↔ s.Relocates b target)
      ↔ ¬ (b = target ∧ target ∈ s.relocGraph target ∧ (s.bos target).usedAsRelocTarget = false) := by
  obtain ⟨found, hrun, hfound⟩ := boReferences_spec h b target
  constructor
  · rintro ⟨found', hrun', hanswer⟩ ⟨rfl, hself, hunmarked⟩
    obtain rfl := Except.ok.inj (hrun.symm.trans hrun')
    have htrue : found = true := hanswer.mpr (.single hself)
    rw [hunmarked] at hfound
    exact absurd (hfound.mp htrue).1 (by decide)
  · intro hcase
    refine ⟨found, hrun, ?_⟩
    show found = true ↔ _
    rw [hfound, relocates_iff]
    refine ⟨And.right, fun href => ⟨?_, href⟩⟩
    by_contra hunmarked
    have hunmarked : (s.bos target).usedAsRelocTarget = false := by simpa using hunmarked
    obtain ⟨heq, hself⟩ := h.unmarked hunmarked href
    exact hcase ⟨heq, hself, hunmarked⟩

end

/-- In every state, `drm_intel_gem_bo_references` tells whether `target` can be reached from `b` by
stored relocations, except for an object whose only relocations to it are its own. -/
theorem references_iff {σ : Sys} (h : Reachable Clean σ) (b target : BoId) :
    Returns (boReferences b target σ.mgr) (fun found => found = true ↔ σ.mgr.Relocates b target)
      ↔ ¬ (b = target ∧ target ∈ (σ.mgr.bos target).targets ∧ (σ.mgr.bos target).usedAsRelocTarget = false) :=
  h.rest.settled.path_iff

/-- The second object of `twoBos` references the first. -/
theorem references_twoBos : ∃ σ, playAll Call.clean {} .empty twoBos = some σ ∧ σ.mgr.Relocates 1 0
    ∧ Returns (boReferences 1 0 σ.mgr) fun found => found = true := by
  have hrun : (playAll Call.clean {} .empty twoBos).any (fun σ => decide ((σ.mgr.bos 1).targets = [0, 1])) = true := by
    decide +kernel
  obtain ⟨σ, hplay, h, ht⟩ := playAll_any KernelOk.empty hrun
  have hmem : 0 ∈ (σ.mgr.bos 1).targets := by
    rw [of_decide_eq_true ht]
    decide
  have hpath : σ.mgr.Relocates 1 0 := .single hmem
  exact ⟨σ, hplay, hpath, ((references_iff h 1 0).mpr fun hcase => absurd hcase.1 (by decide)).mono
    fun _ hfound => hfound.mpr hpath⟩

/-- One object with a relocation to itself. -/
def selfReloc : List Call := [.alloc 4096 false (.simple 1 1), .emitReloc 0 ⟨0, 0, 0, 0, 0, false, true⟩]

theorem references_selfReloc : ∃ σ, playAll Call.clean {} .empty selfReloc = some σ ∧ σ.mgr.Live 0
    ∧ ¬ Returns (boReferences 0 0 σ.mgr) fun found => found = true ↔ σ.mgr.Relocates 0 0 := by
  have hrun : (playAll Call.clean {} .empty selfReloc).any (fun σ => decide (σ.mgr.Live 0
      ∧ (σ.mgr.bos 0).targets = [0]) && returns (fun found => !found) (boReferences 0 0 σ.mgr)) = true := by
    decide +kernel
  obtain ⟨σ, hplay, -, hend⟩ := playAll_any KernelOk.empty hrun
  obtain ⟨hstate, hanswer⟩ := Bool.and_eq_true_iff.mp hend
  obtain ⟨hlive, ht⟩ := of_decide_eq_true hstate
  obtain ⟨found, hfound, hnot⟩ := returns_true hanswer
  refine ⟨σ, hplay, hlive, ?_⟩
  rintro ⟨found', hrun', hiff⟩
  obtain rfl := Except.ok.inj (hfound.symm.trans hrun')
  have hself : σ.mgr.Relocates 0 0 := .single (by
    show 0 ∈ (σ.mgr.bos 0).targets
    rw [ht]
    decide)
  rw [hiff.mpr hself] at hnot
  exact absurd hnot (by decide)

end LibDrm.Gem
