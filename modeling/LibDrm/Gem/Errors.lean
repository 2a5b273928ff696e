/-
# `LibDrm.Gem.Errors` — batches that must not be submitted

When there is no memory for the relocations of an object, `emit_reloc` marks it
with `has_error`, and the mark spreads to every object that refers to it later.
A marked object stays marked until it is released (`Watch.Reachable.marked`).

`drm_intel_gem_bo_exec` refuses a marked batch.  `do_exec2`, behind which the
other three ways to submit a batch stand, does not look at the mark: it turns
a batch down only for a ring that the device does not have
(`errored_batch_rejected_iff`).
-/
import LibDrm.Gem.Machine

namespace LibDrm.Gem

/-! ## Submissions -/

/-- `drm_intel_gem_bo_exec2`. -/
def boExec2 (b : BoId) (r : ExecReply) (s : Bufmgr) : Except Fault (Int × Bufmgr) :=
  doExec2 b I915_EXEC_RENDER r s

/-- `drm_intel_gem_bo_mrb_exec2`. -/
def boMrbExec2 (b : BoId) (flags : Nat) (r : ExecReply) (s : Bufmgr) : Except Fault (Int × Bufmgr) :=
  doExec2 b flags r s

/-- `drm_intel_gem_bo_context_exec`; the context is only passed on to the kernel. -/
def boContextExec (b : BoId) (flags : Nat) (r : ExecReply) (s : Bufmgr) : Except Fault (Int × Bufmgr) :=
  doExec2 b flags r s

/-- The batch is turned down: the call returns an error, the same whatever the kernel would
answer to the ioctl, and has done nothing. -/
def Rejected (s : Bufmgr) (exec : ExecReply → Except Fault (Int × Bufmgr)) : Prop :=
  ∃ e : Int, e < 0 ∧ ∀ r, exec r = .ok (e, s)

/-! ## Objects that stay marked -/

/-- An object that was live and still is has kept its mark. -/
def Sticks (s s' : Bufmgr) : Prop :=
  ∀ c, 0 < (s.bos c).refcount → 0 < (s'.bos c).refcount → (s.bos c).hasError = true → (s'.bos c).hasError = true

/-- No mark has changed. -/
def SameErrors (s s' : Bufmgr) : Prop := ∀ c, (s'.bos c).hasError = (s.bos c).hasError

namespace SameErrors

variable {s s' s'' : Bufmgr}

theorem refl (s : Bufmgr) : SameErrors s s := fun _ => rfl

theorem trans (h₁ : SameErrors s s') (h₂ : SameErrors s' s'') : SameErrors s s'' := fun c => (h₂ c).trans (h₁ c)

theorem modify (s : Bufmgr) (b : BoId) {f : Bo → Bo} (hf : (f (s.bos b)).hasError = (s.bos b).hasError) :
    SameErrors s (s.modify b f) := fun c => modify_field Bo.hasError s b c hf

theorem sticks (h : SameErrors s s') : Sticks s s' := fun c _ _ he => by rwa [h c]

end SameErrors

theorem Sticks.of_live {s s' : Bufmgr} (h : ∀ c, 0 < (s.bos c).refcount → s'.bos c = s.bos c) : Sticks s s' :=
  fun c hc _ he => by rwa [h c hc]

theorem Dropped.sticks {s s' : Bufmgr} (h : Dropped s s') : Sticks s s' := fun c _ hc he =>
  (congrArg Bo.hasError (h.live c hc) :).trans he

theorem AllocPost.sticks {E : BoId → Prop} {callers : BoId → Nat} {size : Nat} {s : Bufmgr}
    {r : Option BoId × Bufmgr} (h : AllocPost E callers size s r) : Sticks s r.2 := by
  obtain ⟨found, s'⟩ := r
  cases found with
  | none =>
      obtain ⟨-, -, D, hsw⟩ := h
      exact .of_live hsw.live
  | some b => exact .of_live h.2.2.1.live

section Imports

variable {E : BoId → Prop} {callers : BoId → Nat} {s : Bufmgr}

/-- The objects that were there before an import have kept their marks. -/
def OldErrors (s s' : Bufmgr) : Prop := ∀ c, c ≠ s.nextBo → (s'.bos c).hasError = (s.bos c).hasError

theorem OldErrors.sticks {s' : Bufmgr} (h : Settled E callers s) (ho : OldErrors s s') : Sticks s s' := by
  intro c hc _ he
  obtain ⟨r, hi⟩ := h
  have hne : c ≠ s.nextBo := fun e => (hi.graph.lt_nextBo (hi.graph.alloc_of_pos hc)).ne e
  rwa [ho c hne]

theorem linkNamed_bos (b : BoId) (s : Bufmgr) : Ensures (linkNamed b s) fun s' => s'.bos = s.bos :=
  .bind_any fun _ => .bind_any fun _ => .pure rfl

theorem calloc_old (s : Bufmgr) (bo : Bo) : OldErrors s (s.calloc bo) := fun c hc => by
  simp [Bufmgr.calloc, hc]

theorem nameNew_old (hlock : s.lock = true) (madv : Madvise) (time : Int) (name : Nat) (h : Handle) (r : NameReply) :
    Ensures (nameNew madv time name h r s) fun r' => OldErrors s r'.2 := by
  unfold nameNew
  split
  · exact .ok fun _ _ => rfl
  cases r.getTiling with
  | error e =>
      -- this ends in a deadlock
      intro res hres
      simp [boUnreference, boUnreferenceSlow, Bufmgr.locked, Bufmgr.calloc, namedBo, hlock] at hres
  | ok t =>
      simp only
      rw [calloc_modify, setInApertureSize_calloc _ _ rfl]
      refine .bind (P := fun s' => OldErrors s s') (.bind_any fun size => .ok (calloc_old s _)) fun s₁ h₁ => ?_
      exact (linkNamed_bos _ s₁).bind fun s₂ h₂ => .pure fun c hc => by rw [h₂]; exact h₁ c hc

theorem boGemCreateFromName_old (madv : Madvise) (time : Int) (name : Nat) (r : NameReply) (s : Bufmgr) :
    Ensures (boGemCreateFromName madv time name r s) fun r' => OldErrors s r'.2 := by
  unfold boGemCreateFromName Bufmgr.withLock
  split
  · exact .error
  refine Ensures.bind (P := fun r' => OldErrors s r'.2) (.bind_any fun found => ?_) fun _ h => .pure h
  have href : ∀ b, SameErrors s (boReference b s) := fun b => .modify s b rfl
  cases found with
  | some b => exact .pure fun c _ => href b c
  | none =>
      simp only
      split
      · exact .pure fun _ _ => rfl
      refine .bind_any fun found => ?_
      cases found with
      | some b => exact .pure fun c _ => href b c
      | none => exact nameNew_old rfl madv time name _ r

theorem primeImport_old (opened : Bool) (h : Handle) (size : Int) (r : PrimeReply) (s : Bufmgr) :
    Ensures (primeImport opened h size r s) fun r' => OldErrors s r'.2 := by
  unfold primeImport Bufmgr.withLock
  split
  · exact .error
  refine Ensures.bind (P := fun r' => OldErrors s r'.2) (.bind_any fun found => ?_) fun _ h => .pure h
  cases found with
  | some b => exact .pure fun c _ => SameErrors.modify s b rfl c
  | none =>
      simp only
      split
      · unfold primeNew
        split
        · exact .ok fun _ _ => rfl
        · refine (linkNamed_bos _ _).bind fun s₁ h₁ => .pure fun c hc => ?_
          show (s₁.bos c).hasError = _
          rw [h₁]
          exact calloc_old _ _ c hc
      · exact .pure fun _ _ => rfl

theorem boGemCreateFromPrime_sticks (h : Settled E callers s) (hlock : s.lock = false) (madv : Madvise)
    (time size : Int) (r : PrimeReply) :
    Ensures (boGemCreateFromPrime madv time size r s) fun r' => Sticks s r'.2 := by
  obtain ⟨h₁, hl₁, hsh⟩ := primeFdToHandle_spec h r
  have hbos : (primeFdToHandle r s).2.bos = s.bos ∧ (primeFdToHandle r s).2.nextBo = s.nextBo := by
    unfold primeFdToHandle
    split <;> exact ⟨rfl, rfl⟩
  unfold boGemCreateFromPrime
  generalize primeFdToHandle r s = res at h₁ hl₁ hsh hbos
  obtain ⟨⟨opened, hd⟩, s₁⟩ := res
  obtain ⟨⟨i, s₂⟩, hrun, hpost⟩ := primeImport_spec h₁ (hl₁.trans hlock) opened hsh size r
  have hold : OldErrors s s₂ := fun c hc => by
    have := primeImport_old opened hd size r s₁ _ hrun c (by rw [hbos.2]; exact hc)
    rw [this, hbos.1]
  simp only [hrun, ok_bind]
  cases i with
  | failed => exact .ok (hold.sticks h)
  | found b => exact .ok (hold.sticks h)
  | created b =>
      cases htile : r.getTiling with
      | error e =>
          refine (boUnreference_spec hpost.2.1 hpost.1 (b := b) (by simp [take]) madv time).ensures.bind ?_
          rintro s₃ ⟨-, hdrop⟩
          refine .pure fun c hc hc₃ he => ?_
          exact hdrop.sticks c (hc₃.trans_le (hdrop.mono c)) hc₃ (hold.sticks h c hc (hc₃.trans_le (hdrop.mono c)) he)
      | ok t =>
          refine Ensures.bind (P := SameErrors s₂) ?_ fun s₃ h₃ => .pure ?_
          · exact .bind_any fun _ => .bind_any fun _ => .pure
              ((SameErrors.modify s₂ b rfl).trans (SameErrors.modify _ b rfl))
          · exact OldErrors.sticks h fun c hc => (h₃ c).trans (hold c hc)

end Imports

theorem putOnNamed_bos (b : BoId) (s : Bufmgr) : Ensures (putOnNamed b s) fun s' => s'.bos = s.bos := by
  unfold putOnNamed
  split
  · exact .bind_any fun _ => .pure rfl
  · exact .ok rfl

theorem boGemExportToPrime_sameErrors (b : BoId) (handleToFd : Reply Unit) (s : Bufmgr) :
    Ensures (boGemExportToPrime b handleToFd s) fun r => SameErrors s r.2 := by
  have hbegin : Ensures (exportBegin b s) (SameErrors s) := by
    unfold exportBegin Bufmgr.locked
    split
    · exact .error
    · exact (putOnNamed_bos b _).bind fun s₁ h₁ => .pure fun c => by
        show (s₁.bos c).hasError = _
        rw [h₁]
  refine hbegin.bind fun s₁ h₁ => .pure ?_
  cases handleToFd with
  | error e => exact h₁
  | ok u => exact h₁.trans (SameErrors.modify s₁ b rfl)

theorem boFlink_sameErrors (b : BoId) (flink : Reply Nat) (s : Bufmgr) :
    Ensures (boFlink b flink s) fun r => SameErrors s r.2 := by
  unfold boFlink flinkLocked Bufmgr.withLock
  split
  · exact .ok (SameErrors.refl s)
  split
  · exact .error
  refine Ensures.bind (P := fun r => SameErrors s r.2) ?_ fun _ h => .pure h
  cases flink with
  | error e => exact .ok (SameErrors.refl s)
  | ok name =>
      refine (putOnNamed_bos b _).bind fun s₁ h₁ => .pure fun c => ?_
      show (s₁.bos c).hasError = _
      rw [h₁]
      exact modify_field Bo.hasError _ b c rfl

theorem boSetTiling_sameErrors (b : BoId) (mode stride : Nat) (setTiling : Reply Tiling) (s : Bufmgr) :
    Ensures (boSetTiling b mode stride setTiling s) fun r => SameErrors s r.2 := by
  unfold boSetTiling
  split
  · exact .ok (SameErrors.refl s)
  obtain ⟨ret, t, hset, -⟩ :=
    boSetTilingInternal_eq b mode (if mode = I915_TILING_NONE then 0 else stride) setTiling s
  have h₁ : SameErrors s (s.modify b (Bo.setTiling t)) := .modify s b rfl
  simp only [hset]
  split
  · refine Ensures.bind (P := SameErrors s) ?_ fun s₂ h₂ => .pure h₂
    exact .bind_any fun _ => .bind_any fun _ => .pure (h₁.trans (SameErrors.modify _ b rfl))
  · exact .ok h₁

/-- A relocation that is stored changes no mark. -/
theorem storedReloc_sameErrors (b : BoId) (a : EmitArgs) (nf fc : Bool) (room : Nat) (s : Bufmgr) :
    SameErrors s (storedReloc b a nf fc room s) := by
  intro c
  by_cases ht : a.target = b
  · rw [storedReloc_self_bos ht]
    split
    · rename_i hcb; rw [hcb]; rfl
    · rfl
  · rw [storedReloc_bos ht]
    split
    · rename_i hcb; rw [hcb]; rfl
    · split
      · rename_i hct; rw [hct]; rfl
      · rfl

theorem boEmitReloc_sticks {b : BoId} {a : EmitArgs} {s : Bufmgr} :
    Ensures (boEmitReloc b a s) fun r => Sticks s r.2 := by
  rintro ⟨ret, s'⟩ hr
  rcases boEmitReloc_cases hr with ⟨-, rfl⟩ | ⟨-, -, room, rfl⟩
  · intro c _ _ he
    by_cases hcb : c = b
    · rw [hcb, modify_self]; rfl
    · rwa [modify_of_ne s hcb]
  · exact ((SameErrors.modify s b rfl).trans (storedReloc_sameErrors b a _ _ room _)).sticks

/-- No call takes a mark from an object that stays live. -/
theorem Call.run_sticks {σ : Sys} (h : Rest σ) {c : Call} (hv : c.Valid σ) :
    Ensures (c.run σ.mgr) fun r => Sticks σ.mgr r.2 := by
  have hE : ∀ c : BoId, ¬ False := fun _ e => e
  have hset := h.settled
  have hsame : Sticks σ.mgr σ.mgr := (SameErrors.refl _).sticks
  cases c with
  | enableReuse => exact .ok hsame
  | enableFencedRelocs =>
      simp only [Call.run, Gem.enableFencedRelocs]
      split
      · exact .ok hsame
      · exact .ok hsame
  | alloc size forRender r =>
      exact (boAllocInternal_spec hset hE h.lock size forRender I915_TILING_NONE 0 r).mono fun _ hr => hr.sticks
  | allocTiled x y cpp mode forRender r =>
      exact (boAllocTiled_spec hset hE h.lock x y cpp mode forRender r).mono fun _ hr => hr.sticks
  | allocUserptr addr mode size r =>
      exact (boAllocUserptr_spec hset hE h.lock addr mode size r).mono fun _ hr => hr.sticks
  | createFromName madv time name r =>
      exact (boGemCreateFromName_old madv time name r σ.mgr).mono fun _ hr => hr.sticks hset
  | createFromPrime madv time size r => exact boGemCreateFromPrime_sticks hset h.lock madv time size r
  | exportToPrime b handleToFd =>
      exact silent_ensures ((boGemExportToPrime_sameErrors b handleToFd σ.mgr).mono fun _ hr => hr.sticks)
  | flink b r => exact silent_ensures ((boFlink_sameErrors b r σ.mgr).mono fun _ hr => hr.sticks)
  | disableReuse b => exact .ok (SameErrors.modify σ.mgr b rfl).sticks
  | reference b => exact .ok (SameErrors.modify σ.mgr b rfl).sticks
  | unreference madv time b =>
      have hb : 0 < σ.callers b := of_decide_eq_true hv.2
      exact plain_ensures ((boUnreference_spec hset h.lock hb madv time).ensures.mono fun _ hr => hr.2.sticks)
  | emitReloc b a => exact silent_ensures boEmitReloc_sticks
  | clearRelocs madv time b start =>
      refine plain_ensures ?_
      by_cases hstart : start ≤ (σ.mgr.bos b).relocs.length
      · refine (boClearRelocs_spec hset h.lock hstart madv time).ensures.mono fun s' hr c hc hc' he => ?_
        have herr : SameErrors σ.mgr (σ.mgr.modify b (Bo.truncate start)) := .modify σ.mgr b rfl
        have hcount : ((σ.mgr.modify b (Bo.truncate start)).bos c).refcount = (σ.mgr.bos c).refcount :=
          modify_field Bo.refcount σ.mgr b c rfl
        exact hr.2.sticks c (by rw [hcount]; exact hc) hc' (by rw [herr]; exact he)
      · have : decide (start ≤ (σ.mgr.bos b).relocs.length) = false := by simpa using hstart
        simp only [boClearRelocs, this, assert_false, error_bind]
        exact .error
  | exec b r =>
      have hb := hv.1 b (List.mem_singleton.mpr rfl)
      exact silent_ensures ((boExec_ensures hset h.lock h.calm.unlisted h.calm.unflagged hb.1 r).mono
        fun _ hr => SameErrors.sticks fun c => (congrArg Bo.hasError (hr.quiet.bos c) :))
  | exec2 b flags r =>
      have hb := hv.1 b (List.mem_singleton.mpr rfl)
      exact silent_ensures ((doExec2_ensures hset h.lock h.calm.unlisted h.calm.unflagged hb.1 flags r).mono
        fun _ hr => SameErrors.sticks fun c => (congrArg Bo.hasError (hr.quiet.bos c) :))
  | checkApertureSpace bos =>
      refine silent_ensures ((checkApertureSpace_quiet hset h.calm.unflagged ?_).mono fun _ hr =>
        SameErrors.sticks fun c => (congrArg Bo.hasError (hr.1.bos c) :))
      intro c hc
      exact (hv.1 c (by simpa [Call.objects, List.reduceOption_mem_iff] using hc)).1
  | map b writeEnable mmap =>
      have hb := hv.1 b (List.mem_singleton.mpr rfl)
      exact silent_ensures ((boMap_spec hset.vma hb.1 h.lock writeEnable mmap).ensures.mono
        fun _ hr => SameErrors.sticks fun c => (congrArg Bo.hasError (hr.2.bos c) :))
  | mapGtt b mmap =>
      have hb := hv.1 b (List.mem_singleton.mpr rfl)
      exact silent_ensures ((boMapGtt_spec hset.vma hb.1 h.lock mmap).ensures.mono
        fun _ hr => SameErrors.sticks fun c => (congrArg Bo.hasError (hr.2.bos c) :))
  | mapUnsynchronized b mmap =>
      have hb := hv.1 b (List.mem_singleton.mpr rfl)
      exact silent_ensures ((boMapUnsynchronized_spec hset.vma hb.1 h.lock mmap).ensures.mono
        fun _ hr => SameErrors.sticks fun c => (congrArg Bo.hasError (hr.2.bos c) :))
  | unmap b swFinish =>
      have hb := hv.1 b (List.mem_singleton.mpr rfl)
      exact silent_ensures ((boUnmap_spec hset.vma hb.1 h.lock swFinish).ensures.mono
        fun _ hr => SameErrors.sticks fun c => (congrArg Bo.hasError (hr.2.bos c) :))
  | setVmaCacheSize limit =>
      exact plain_ensures ((setVmaCacheSize_spec hset.vma limit).ensures.mono
        fun _ hr => SameErrors.sticks fun c => (congrArg Bo.hasError (hr.2.bos c) :))
  | setTiling b mode stride r =>
      exact silent_ensures ((boSetTiling_sameErrors b mode stride r σ.mgr).mono fun _ hr => hr.sticks)
  | busy b r =>
      obtain ⟨idle, he⟩ := boBusy_eq b r σ.mgr
      simp only [Call.run, he]
      exact .ok (SameErrors.modify σ.mgr b rfl).sticks
  | «foreign» o => exact .ok hsame

/-! ## Runs -/

/-- An emission to the object returned `-ENOMEM`. -/
def Call.failsOn (b : BoId) (s : Bufmgr) : Call → Bool
  | .emitReloc c a => c == b && (match boEmitReloc c a s with
      | .ok (ret, _) => ret == -ENOMEM
      | .error _ => false)
  | _ => false

/-- The manager, and the live objects on which an emission has failed since they were handed out. -/
structure Watch where
  sys : Sys
  failed : BoId → Bool

def Watch.Init (w : Watch) : Prop := Gem.Init w.sys ∧ w.failed = fun _ => false

/-- A clean call; an object that is released is forgotten. -/
def Watch.Step (w w' : Watch) : Prop :=
  ∃ c got, c.Valid w.sys ∧ Clean c w.sys.mgr w'.sys.mgr ∧ c.run w.sys.mgr = .ok (got, w'.sys.mgr)
    ∧ w'.sys.callers = c.account got w.sys.callers
    ∧ w'.failed = fun b => (w.failed b || c.failsOn b w.sys.mgr) && decide (w'.sys.mgr.Live b)

def Watch.Reachable : Watch → Prop := Runs Watch.Init Watch.Step

/-- A failed emission marks the object. -/
theorem Call.failsOn_marks {c : Call} {b : BoId} {s s' : Bufmgr} {got : Option BoId} (hf : c.failsOn b s = true)
    (hr : c.run s = .ok (got, s')) : (s'.bos b).hasError = true := by
  cases c with
  | emitReloc d a =>
      obtain ⟨hd, hret⟩ := Bool.and_eq_true_iff.mp hf
      obtain rfl : d = b := by simpa using hd
      simp only [Call.run, silent] at hr
      cases hem : boEmitReloc d a s with
      | error e => rw [hem] at hret; cases hret
      | ok r =>
          obtain ⟨ret, s₁⟩ := r
          rw [hem] at hret hr
          cases hr
          obtain rfl : ret = -ENOMEM := by simpa using hret
          rcases boEmitReloc_cases hem with ⟨-, rfl⟩ | ⟨h0, -⟩
          · rw [modify_self]; rfl
          · exact absurd h0 (by decide)
  | _ => cases hf

/-- In every run, an object on which an emission has failed is live and marked. -/
theorem Watch.Reachable.marked {w : Watch} (h : w.Reachable) :
    Rest w.sys ∧ ∀ b, w.failed b = true → w.sys.mgr.Live b ∧ (w.sys.mgr.bos b).hasError = true := by
  refine Runs.induct (I := fun w => Rest w.sys ∧
    ∀ b, w.failed b = true → w.sys.mgr.Live b ∧ (w.sys.mgr.bos b).hasError = true) ?_ ?_ h
  · rintro ⟨σ, failed⟩ ⟨⟨cfg, k, hk, rfl⟩, rfl⟩
    exact ⟨Rest.init cfg hk, nofun⟩
  · rintro ⟨σ, failed⟩ ⟨⟨s', callers'⟩, failed'⟩ ⟨hrest, hmark⟩ ⟨c, got, hv, hc, hrun, rfl, hfailed⟩
    refine ⟨Call.run_spec hrest hv hc _ hrun, fun b hb => ?_⟩
    rw [hfailed] at hb
    obtain ⟨hor, hlive⟩ := Bool.and_eq_true_iff.mp hb
    have hlive : s'.Live b := of_decide_eq_true hlive
    refine ⟨hlive, ?_⟩
    rcases Bool.or_eq_true_iff.mp hor with hold | hnew
    · obtain ⟨hl, he⟩ := hmark b hold
      exact Call.run_sticks hrest hv _ hrun b hl.2 hlive.2 he
    · exact Call.failsOn_marks hnew hrun

/-- Where the ring exists and the kernel accepts the batch, `do_exec2` returns 0. -/
theorem doExec2_accepted (b : BoId) {flags : Nat} {s : Bufmgr} (hring : ringOk s.cfg flags = true)
    (offsets : Nat → Nat) : Ensures (doExec2 b flags ⟨.ok (), offsets⟩ s) fun r => r.1 = 0 := by
  unfold doExec2 Bufmgr.withLock
  rw [if_neg (by simp [hring])]
  split
  · exact .error
  refine Ensures.bind (P := fun r => r.1 = 0) ?_ fun _ h => .pure h
  refine .bind_any fun _ => .bind_any fun s₂ => ?_
  split
  · exact .pure rfl
  · exact .bind_any fun _ => .pure rfl

theorem doExec2_rejected_iff (b : BoId) (flags : Nat) (s : Bufmgr) :
    Rejected s (fun r => doExec2 b flags r s) ↔ ringOk s.cfg flags = false := by
  constructor
  · rintro ⟨e, hneg, hall⟩
    by_contra hring
    have hring : ringOk s.cfg flags = true := by simpa using hring
    have h0 : e = 0 := doExec2_accepted b hring (fun _ => 0) _ (hall ⟨.ok (), fun _ => 0⟩)
    omega
  · intro hring
    refine ⟨-EINVAL, by decide, fun r => ?_⟩
    simp [doExec2, hring]

/-- Once an emission on a batch has failed, `drm_intel_gem_bo_exec` turns the batch down until
it is released.  The other ways to submit it do so only for want of a ring. -/
theorem errored_batch_rejected_iff {w : Watch} (h : w.Reachable) {b : BoId} (hb : w.failed b = true) :
    Rejected w.sys.mgr (fun r => boExec b r w.sys.mgr)
    ∧ ¬ Rejected w.sys.mgr (fun r => boExec2 b r w.sys.mgr)
    ∧ (∀ flags, Rejected w.sys.mgr (fun r => boMrbExec2 b flags r w.sys.mgr)
      ↔ ringOk w.sys.mgr.cfg flags = false)
    ∧ ∀ flags, Rejected w.sys.mgr (fun r => boContextExec b flags r w.sys.mgr)
      ↔ ringOk w.sys.mgr.cfg flags = false := by
  have herr := (h.marked.2 b hb).2
  refine ⟨⟨-ENOMEM, by decide, fun r => ?_⟩, fun hrej => ?_, fun flags => doExec2_rejected_iff b flags _,
    fun flags => doExec2_rejected_iff b flags _⟩
  · simp [boExec, herr]
  · have hring := (doExec2_rejected_iff b I915_EXEC_RENDER _).mp hrej
    simp [ringOk, I915_EXEC_RENDER, I915_EXEC_BLT, I915_EXEC_BSD, I915_EXEC_VEBOX] at hring

/-! ## A run that can be computed -/

/-- One call of a watched run. -/
def Watch.play (c : Call) (w : Watch) : Option Watch :=
  (Gem.play Call.clean c w.sys).map fun σ =>
    ⟨σ, fun b => (w.failed b || c.failsOn b w.sys.mgr) && decide (σ.mgr.Live b)⟩

def Watch.playAll (cfg : Config) (k : Kernel) (cs : List Call) : Option Watch :=
  cs.foldlM (fun w c => w.play c) ⟨⟨bufmgrGemInit cfg k, fun _ => 0⟩, fun _ => false⟩

theorem Watch.play_step {c : Call} {w w' : Watch} (h : w.play c = some w') : w.Step w' := by
  obtain ⟨σ, hσ, rfl⟩ := Option.map_eq_some_iff.mp h
  obtain ⟨got, hv, hok, hrun, hcallers⟩ := play_inv hσ
  exact ⟨c, got, hv, hok, hrun, hcallers, rfl⟩

theorem Watch.playAll_reachable {cfg : Config} {k : Kernel} (hk : KernelOk k) {cs : List Call} {w : Watch}
    (h : Watch.playAll cfg k cs = some w) : w.Reachable := by
  have loop : ∀ (cs : List Call) (w₀ : Watch), w₀.Reachable → cs.foldlM (fun w c => w.play c) w₀ = some w →
      w.Reachable := by
    intro cs
    induction cs with
    | nil => intro w₀ h₀ h; cases h; exact h₀
    | cons c cs ih =>
        intro w₀ h₀ h
        rw [List.foldlM_cons] at h
        obtain ⟨w₁, h₁, h⟩ := Option.bind_eq_some_iff.mp h
        exact ih w₁ (.step h₀ (Watch.play_step h₁)) h
  exact loop cs _ (.init ⟨⟨cfg, k, hk, rfl⟩, rfl⟩) h

/-- There is no memory for the relocations of a batch. -/
def noMemoryBatch : List Call :=
  [.alloc 4096 false (.simple 1 1), .alloc 4096 false (.simple 2 2), .emitReloc 0 ⟨0, 1, 0, 0, 0, false, false⟩]

theorem noMemoryBatch_failed : ∃ w : Watch, w.Reachable ∧ w.failed 0 = true := by
  have hrun : (Watch.playAll {} .empty noMemoryBatch).any (fun w => w.failed 0) = true := by decide +kernel
  cases hw : Watch.playAll {} .empty noMemoryBatch with
  | none => rw [hw] at hrun; cases hrun
  | some w => rw [hw] at hrun; exact ⟨w, Watch.playAll_reachable KernelOk.empty hw, hrun⟩

theorem errored_batch_rejected_noMemory : ∃ w : Watch, w.Reachable ∧ w.failed 0 = true
    ∧ Rejected w.sys.mgr (fun r => boExec 0 r w.sys.mgr) := by
  obtain ⟨w, h, hb⟩ := noMemoryBatch_failed
  exact ⟨w, h, hb, (errored_batch_rejected_iff h hb).1⟩

/-- The same batch is submitted by `drm_intel_gem_bo_exec2`. -/
theorem noMemoryBatch_submitted : ∃ w : Watch, w.Reachable ∧ w.failed 0 = true
    ∧ ¬ Rejected w.sys.mgr (fun r => boExec2 0 r w.sys.mgr) := by
  obtain ⟨w, h, hb⟩ := noMemoryBatch_failed
  refine ⟨w, h, hb, fun hrej => ?_⟩
  have hring := (doExec2_rejected_iff 0 I915_EXEC_RENDER _).mp hrej
  simp [ringOk, I915_EXEC_RENDER, I915_EXEC_BLT, I915_EXEC_BSD, I915_EXEC_VEBOX] at hring

end LibDrm.Gem
