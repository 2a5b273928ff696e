/-
# `LibDrm.Gem.Refusal` — a batch that the kernel turns down

The entry of an object on the validation list is made with `offset = 0`, the
kernel writes the offsets of a batch that it accepts, and both exec functions copy
the offsets back whatever the ioctl answered.  After a refusal, which leaves
the entries as they were made, this is what the fields of the objects hold:

| | objects on the list | the others |
| :-- | :-- | :-- |
| `offset64` (and `offset`, written beside it) | **0** | as before |
| relocations, references | as before | as before |

So a refused batch leaves everything as it was exactly if nothing it reaches had
an offset (`boExec_refused_iff`, `doExec2_refused_iff`).
-/
import LibDrm.Gem.Safety

namespace LibDrm.Gem

open Walk CInt

/-- The ioctl fails and leaves the entries alone. -/
def ExecReply.refusal (e : Errno) : ExecReply := ⟨.error e, fun _ => 0⟩

/-- What a call must not change in any object. -/
structure Untouched (s s' : Bufmgr) : Prop where
  offset : ∀ c, (s'.bos c).offset64 = (s.bos c).offset64
  relocs : ∀ c, (s'.bos c).relocArray = (s.bos c).relocArray
  refcount : ∀ c, (s'.bos c).refcount = (s.bos c).refcount

theorem Untouched.refl (s : Bufmgr) : Untouched s s := ⟨fun _ => rfl, fun _ => rfl, fun _ => rfl⟩

theorem Untouched.of_quiet {s s' : Bufmgr} (h : Quiet s s') (hoffset : ∀ c, (s'.bos c).offset64 = (s.bos c).offset64) :
    Untouched s s' :=
  ⟨hoffset, fun c => (congrArg Bo.relocArray (h.bos c) :), fun c => (congrArg Bo.refcount (h.bos c) :)⟩

/-- Below `b` the offsets are 0, and everything else is as it was. -/
structure Zeroed (b : BoId) (s s' : Bufmgr) : Prop where
  quiet : Quiet s s'
  behind : ∀ c, Reach s.relocGraph b c → (s'.bos c).offset64 = 0
  others : ∀ c, ¬ Reach s.relocGraph b c → (s'.bos c).offset64 = (s.bos c).offset64

/-- Writing 0 to the objects of the list. -/
theorem zeroOffsets_foldl (l : List (BoId × Nat)) (s : Bufmgr) (c : BoId) :
    ((l.foldl (fun s bi => s.modify bi.1 (Bo.setOffset 0)) s).bos c).offset64
      = if c ∈ l.map Prod.fst then 0 else (s.bos c).offset64 := by
  induction l generalizing s with
  | nil => rfl
  | cons bi l ih =>
      rw [List.foldl_cons, ih, modify_bos, List.map_cons]
      simp only [List.mem_cons]
      by_cases hcb : c = bi.1
      · simp [hcb, Bo.setOffset]
      · simp only [hcb, if_false, false_or]

theorem Lists.offset64 {a : ExecArray} {s₀ s : Bufmgr} {w : List BoId × (BoId → Bool)} (h : Lists a s₀ w s) (c : BoId) :
    (s.bos c).offset64 = (s₀.bos c).offset64 := by
  rw [h.bos]
  split <;> rfl

theorem setTreeSize_offset (bo : Bo) (v : Int) : (bo.setTreeSize v).offset64 = bo.offset64 := rfl

theorem disconnectAll_offset (s : Bufmgr) (c : BoId) :
    ((disconnectAll s).bos c).offset64 = (s.bos c).offset64 := by
  obtain ⟨-, hbos⟩ := disconnect_foldl s.execBos s
  show ((s.execBos.foldl (fun s b => s.modify b Bo.disconnect) s).bos c).offset64 = _
  rw [hbos]
  split <;> rfl

theorem updateBufferOffsets_refused (s : Bufmgr) (c : BoId) (e : Errno) :
    ((updateBufferOffsets (ExecReply.refusal e).offsets s).bos c).offset64
      = if c ∈ s.execBos then 0 else (s.bos c).offset64 := by
  have hfst : s.execBos.zipIdx.map Prod.fst = s.execBos := List.zipIdx_map_fst ..
  have hloop := zeroOffsets_foldl s.execBos.zipIdx s c
  rwa [hfst] at hloop

section

variable {E : BoId → Prop} {callers : BoId → Nat} {s : Bufmgr} {b : BoId}

namespace Zeroed

variable {s' : Bufmgr}

theorem unlock (h : Zeroed b { s with lock := true } s') (hlock : s.lock = false) :
    Zeroed b s { s' with lock := false } :=
  ⟨h.quiet.unlock hlock, h.behind, h.others⟩

theorem untouched_iff (h : Zeroed b s s') :
    Untouched s s' ↔ ∀ c, Reach s.relocGraph b c → (s.bos c).offset64 = 0 := by
  constructor
  · intro hsame c hc
    rw [← hsame.offset c]
    exact h.behind c hc
  · intro hzero
    refine .of_quiet h.quiet fun c => ?_
    by_cases hc : Reach s.relocGraph b c
    · rw [h.behind c hc, hzero c hc]
    · exact h.others c hc

end Zeroed

/-- Both functions from the list on, for a batch that is refused. -/
theorem execute_refused (h : Settled E callers s) (hu : Unlisted s) (hf : Unflagged s)
    (hb : (s.bos b).allocated = true) {a : ExecArray} (fence : Reloc → Bool) (e : Errno) {s₂ : Bufmgr}
    (hbuild : (processWith (fun r => addValidate a r.target (fence r)) (s.nextBo + 1) b s >>=
      addValidate a b false) = .ok s₂) :
    Returns (reportNoSpace (.error e) s₂ >>= fun s => pure (ioctlRet (.error e),
      disconnectAll (updateBufferOffsets (ExecReply.refusal e).offsets s))) fun r => Zeroed b s r.2 := by
  obtain ⟨l, f, hl, -, hmem, -⟩ := buildList_ok h hu hb hbuild
  have hal : ∀ c ∈ l ++ [b], (s.bos c).allocated = true := fun c hc => h.reach_alloc hb ((hmem c).mp hc)
  have hquiet := (execute_spec h hu hf hb fence (.refusal e) hbuild).2
  -- the offsets after the debug output, the update and the loop at the end
  have hoffsets : Ensures (reportNoSpace (.error e) s₂ >>= fun s => pure (ioctlRet (.error e),
      disconnectAll (updateBufferOffsets (ExecReply.refusal e).offsets s))) fun r =>
        ∀ c, (r.2.bos c).offset64 = if c ∈ l ++ [b] then 0 else (s.bos c).offset64 := by
    refine (reportNoSpace_spec h hf hl hal (.error e)).ensures.bind fun s₃ hs₃ => .pure fun c => ?_
    obtain ⟨hrest, hbos⟩ := hs₃
    have hexec : s₃.execBos = l ++ [b] := (congrArg Bufmgr.execBos hrest :).trans hl.execBos
    have hkept : (s₃.bos c).offset64 = (s.bos c).offset64 := by
      rcases hbos c with heq | heq
      · rw [heq, hl.offset64]
      · rw [heq, setTreeSize_offset, hl.offset64]
    show ((disconnectAll (updateBufferOffsets (ExecReply.refusal e).offsets s₃)).bos c).offset64 = _
    rw [disconnectAll_offset, updateBufferOffsets_refused, hexec, hkept]
  refine (hquiet.and hoffsets).mono fun r hr => ⟨hr.1.quiet, fun c hc => ?_, fun c hc => ?_⟩
  · rw [hr.2, if_pos ((hmem c).mpr hc)]
  · rw [hr.2, if_neg fun hin => hc ((hmem c).mp hin)]

end

section

variable {σ : Sys} {b : BoId}

/-- A batch that `drm_intel_gem_bo_exec` submits and the kernel refuses: nothing is changed
exactly if the list is built and no object had an offset. -/
theorem boExec_refused_iff (h : Rest σ) (hb : σ.mgr.Live b) (e : Errno) :
    Returns (boExec b (.refusal e) σ.mgr) (fun r => Untouched σ.mgr r.2)
      ↔ (σ.mgr.bos b).hasError = true ∨ (ArrayFits .objects σ.mgr b
        ∧ ∀ c, Reach σ.mgr.relocGraph b c → (σ.mgr.bos c).offset64 = 0) := by
  have hu := h.calm.unlisted
  by_cases hfits : (σ.mgr.bos b).hasError = true ∨ ArrayFits .objects σ.mgr b
  · refine Returns.iff_of (boExec_returns h.settled h.lock hu hb.1 (.refusal e) hfits ?_ ?_)
    · intro herror
      exact ⟨fun _ => .inl herror, fun _ => .refl _⟩
    · intro hnoerror s₂ hbuild
      refine (execute_refused (h.settled.setLock true) hu.locked h.calm.unflagged hb.1 (fun _ => false) e hbuild).mono
        fun r hr => ?_
      show Untouched σ.mgr { r.2 with lock := false } ↔ _
      rw [(hr.unlock h.lock).untouched_iff]
      simp [hnoerror, hfits.resolve_left (by simp [hnoerror])]
  · obtain ⟨herror, hnot⟩ := not_or.mp hfits
    rw [boExec_stuck h.settled h.lock hu hb.1 _ (by simpa using herror) hnot]
    exact ⟨fun hret => (by obtain ⟨_, hr, -⟩ := hret; cases hr), fun hor => absurd (hor.imp_right And.left) hfits⟩

/-- The same for `do_exec2`, which looks at the ring and at `no_exec`, and not for an error. -/
theorem doExec2_refused_iff (h : Rest σ) (hb : σ.mgr.Live b) (flags : Nat) (e : Errno) :
    Returns (doExec2 b flags (.refusal e) σ.mgr) (fun r => Untouched σ.mgr r.2)
      ↔ ringOk σ.mgr.cfg flags = false ∨ (ArrayFits .objects2 σ.mgr b
        ∧ (σ.mgr.cfg.noExec = true ∨ ∀ c, Reach σ.mgr.relocGraph b c → (σ.mgr.bos c).offset64 = 0)) := by
  have hu := h.calm.unlisted
  by_cases hfits : ringOk σ.mgr.cfg flags = false ∨ ArrayFits .objects2 σ.mgr b
  · refine Returns.iff_of (doExec2_returns h.settled h.lock hu hb.1 flags (.refusal e) hfits ?_ ?_)
    · intro hring
      exact ⟨fun _ => .inl hring, fun _ => .refl _⟩
    · intro hring s₂ hbuild
      have hroom := hfits.resolve_left (by simp [hring])
      obtain ⟨l, f, hl, -⟩ := buildList_ok (h.settled.setLock true) hu.locked hb.1 hbuild
      have hcfg : s₂.cfg = σ.mgr.cfg := (congrArg Bufmgr.cfg hl.rest :)
      rw [hcfg]
      split
      · rename_i hskip
        refine ⟨fun _ => .inr ⟨hroom, .inl hskip⟩, fun _ => ?_⟩
        -- nothing was submitted, and the list is taken apart
        have hpost := (execute_spec (h.settled.setLock true) hu.locked h.calm.unflagged hb.1 Reloc.fence (.refusal e)
          hbuild).1 0
        refine .of_quiet (hpost.unlock h.lock).quiet fun c => ?_
        exact (disconnectAll_offset s₂ c).trans (hl.offset64 c)
      · rename_i hsubmit
        refine (execute_refused (h.settled.setLock true) hu.locked h.calm.unflagged hb.1 Reloc.fence e hbuild).mono
          fun r hr => ?_
        show Untouched σ.mgr { r.2 with lock := false } ↔ _
        rw [(hr.unlock h.lock).untouched_iff]
        simp [hring, hsubmit, hroom]
  · obtain ⟨hring, hnot⟩ := not_or.mp hfits
    rw [doExec2_stuck h.settled h.lock hu hb.1 flags _ (by simpa using hring) hnot]
    exact ⟨fun hret => (by obtain ⟨_, hr, -⟩ := hret; cases hr), fun hor => absurd (hor.imp_right And.left) hfits⟩

end

/-- In every state, and for every batch: after a submission that the kernel refuses, every offset,
relocation and reference count is as before exactly if no object of the batch had an offset, or
nothing was submitted.  (Without room for the list neither function gets as far.) -/
theorem refused_untouched_iff {σ : Sys} (h : Reachable Clean σ) {b : BoId} (hb : σ.mgr.Live b) (e : Errno) :
    (Returns (boExec b (.refusal e) σ.mgr) (fun r => Untouched σ.mgr r.2)
      ↔ (σ.mgr.bos b).hasError = true ∨ (ArrayFits .objects σ.mgr b
        ∧ ∀ c, Reach σ.mgr.relocGraph b c → (σ.mgr.bos c).offset64 = 0))
    ∧ ∀ flags, Returns (doExec2 b flags (.refusal e) σ.mgr) (fun r => Untouched σ.mgr r.2)
      ↔ ringOk σ.mgr.cfg flags = false ∨ (ArrayFits .objects2 σ.mgr b
        ∧ (σ.mgr.cfg.noExec = true ∨ ∀ c, Reach σ.mgr.relocGraph b c → (σ.mgr.bos c).offset64 = 0)) :=
  ⟨boExec_refused_iff h.rest hb e, fun flags => doExec2_refused_iff h.rest hb flags e⟩

def noSpace : Errno := ⟨ENOSPC, by decide⟩

/-- A batch with a relocation, refused before anything has an offset. -/
theorem refused_untouched_twoBos : ∃ σ, playAll Call.clean {} .empty twoBos = some σ ∧ (σ.mgr.bos 1).targets = [0, 1]
    ∧ Returns (doExec2 1 I915_EXEC_RENDER (.refusal noSpace) σ.mgr) fun r => Untouched σ.mgr r.2 := by
  have hrun : (playAll Call.clean {} .empty twoBos).any (fun σ => decide (σ.mgr.Live 1 ∧ σ.mgr.execObjects.size = 0
      ∧ (σ.mgr.bos 0).targets = [] ∧ (σ.mgr.bos 1).targets = [0, 1] ∧ (σ.mgr.bos 0).offset64 = 0
      ∧ (σ.mgr.bos 1).offset64 = 0)) = true := by decide +kernel
  obtain ⟨σ, hplay, h, hend⟩ := playAll_any KernelOk.empty hrun
  obtain ⟨hlive, hsize, hleaf, htargets, hzero₀, hzero₁⟩ := of_decide_eq_true hend
  have hfits : ArrayFits .objects2 σ.mgr 1 := .inl (by rw [hsize]; exact Nat.zero_le _)
  refine ⟨σ, hplay, htargets, ((refused_untouched_iff h hlive noSpace).2 _).mpr (.inr ⟨hfits, .inr fun c hc => ?_⟩)⟩
  rcases reach_iff_head.mp hc with rfl | ⟨t, ⟨hmem, hne⟩, hc⟩
  · exact hzero₁
  obtain rfl : t = 0 := by
    have hmem : t ∈ (σ.mgr.bos 1).targets := hmem
    rw [htargets] at hmem
    simpa [hne] using hmem
  rcases reach_iff_head.mp hc with rfl | ⟨u, ⟨hmem, -⟩, -⟩
  · exact hzero₀
  · have hmem : u ∈ (σ.mgr.bos 0).targets := hmem
    rw [hleaf] at hmem
    cases hmem

/-- One object, executed once and placed at 64 KiB. -/
def placedOnce : List Call :=
  [.alloc 4096 false (.simple 1 1), .exec2 0 I915_EXEC_RENDER ⟨.ok (), fun _ => 65536⟩]

/-- The next batch is refused, and the object has lost its offset. -/
theorem refused_touched_placedOnce : ∃ σ, playAll Call.clean {} .empty placedOnce = some σ ∧ σ.mgr.Live 0
    ∧ ¬ Returns (doExec2 0 I915_EXEC_RENDER (.refusal noSpace) σ.mgr) fun r => Untouched σ.mgr r.2 := by
  have hrun : (playAll Call.clean {} .empty placedOnce).any (fun σ => decide (σ.mgr.Live 0
      ∧ (σ.mgr.bos 0).offset64 = 65536) && returns (fun r => decide ((r.2.bos 0).offset64 = 0))
        (doExec2 0 I915_EXEC_RENDER (.refusal noSpace) σ.mgr)) = true := by
    decide +kernel
  obtain ⟨σ, hplay, -, hend⟩ := playAll_any KernelOk.empty hrun
  obtain ⟨hstate, hafter⟩ := Bool.and_eq_true_iff.mp hend
  obtain ⟨hlive, hplaced⟩ := of_decide_eq_true hstate
  obtain ⟨r, hr, hlost⟩ := returns_true hafter
  have hlost : (r.2.bos 0).offset64 = 0 := of_decide_eq_true hlost
  refine ⟨σ, hplay, hlive, ?_⟩
  rintro ⟨r', hr', hsame⟩
  obtain rfl := Except.ok.inj (hr.symm.trans hr')
  have hkept := hsame.offset 0
  rw [hlost, hplaced] at hkept
  exact absurd hkept (by decide)

end LibDrm.Gem
