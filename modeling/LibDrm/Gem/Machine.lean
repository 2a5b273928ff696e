/-
# `LibDrm.Gem.Machine` — runs of the GEM buffer manager

A `Call` is a call of the interface together with the answers that the kernel
and the allocator give during it, so that a step of the manager is a function
of the call.  A call that ends in a fault has no next state.  What the code
does not check is asked of the caller (`Call.Valid`): objects are live, and a
reference is given up by somebody who holds it.

`Sys` adds to the manager the references that the callers hold.  The invariant
`Rest` is kept by every call (`Call.run_spec`) with one exception, which
`Clean` names: an export that fails leaves a reusable object on the named list.
-/
import LibDrm.Gem.Calm

namespace LibDrm.Gem

open Walk CInt

/-! ## The calls -/

/-- A call of the interface, with the answers it gets from the system. -/
inductive Call where
  | enableReuse
  | enableFencedRelocs
  | alloc (size : Nat) (forRender : Bool) (r : AllocReply)
  | allocTiled (x y cpp : Int) (mode : Nat) (forRender : Bool) (r : AllocReply)
  | allocUserptr (addr mode size : Nat) (r : FreshReply)
  | createFromName (madv : Madvise) (time : Int) (name : Nat) (r : NameReply)
  | createFromPrime (madv : Madvise) (time size : Int) (r : PrimeReply)
  | exportToPrime (b : BoId) (handleToFd : Reply Unit)
  | flink (b : BoId) (r : Reply Nat)
  | disableReuse (b : BoId)
  | reference (b : BoId)
  | unreference (madv : Madvise) (time : Int) (b : BoId)
  | emitReloc (b : BoId) (a : EmitArgs)
  | clearRelocs (madv : Madvise) (time : Int) (b : BoId) (start : Nat)
  | exec (b : BoId) (r : ExecReply)
  | exec2 (b : BoId) (flags : Nat) (r : ExecReply)
  | checkApertureSpace (bos : List (Option BoId))
  | map (b : BoId) (writeEnable : Bool) (mmap : Reply Nat)
  | mapGtt (b : BoId) (mmap : Reply Nat)
  | mapUnsynchronized (b : BoId) (mmap : Reply Nat)
  | unmap (b : BoId) (swFinish : Reply Unit)
  | setVmaCacheSize (limit : Int)
  | setTiling (b : BoId) (mode stride : Nat) (r : Reply Tiling)
  | busy (b : BoId) (r : Reply Bool)
  /-- not a call of this process: another one creates and shares an object -/
  | foreign (o : Obj)

/-- The manager that a call leaves; the error code is not looked at. -/
def silent {α : Type} (x : Except Fault (α × Bufmgr)) : Except Fault (Option BoId × Bufmgr) :=
  x >>= fun r => .ok (none, r.2)

def plain (x : Except Fault Bufmgr) : Except Fault (Option BoId × Bufmgr) :=
  x >>= fun s => .ok (none, s)

/-- Run a call; the result is the object that the caller got a reference to, if any. -/
def Call.run : Call → Bufmgr → Except Fault (Option BoId × Bufmgr)
  | .enableReuse, s => .ok (none, Gem.enableReuse s)
  | .enableFencedRelocs, s => .ok (none, Gem.enableFencedRelocs s)
  | .alloc size forRender r, s => boAlloc size forRender r s
  | .allocTiled x y cpp mode forRender r, s => boAllocTiled x y cpp mode forRender r s
  | .allocUserptr addr mode size r, s => boAllocUserptr addr mode size r s
  | .createFromName madv time name r, s => boGemCreateFromName madv time name r s
  | .createFromPrime madv time size r, s => boGemCreateFromPrime madv time size r s
  | .exportToPrime b handleToFd, s => silent (boGemExportToPrime b handleToFd s)
  | .flink b r, s => silent (boFlink b r s)
  | .disableReuse b, s => .ok (none, (boDisableReuse b s).2)
  | .reference b, s => .ok (some b, boReference b s)
  | .unreference madv time b, s => plain (boUnreference madv time b s)
  | .emitReloc b a, s => silent (boEmitReloc b a s)
  | .clearRelocs madv time b start, s => plain (boClearRelocs madv time b start s)
  | .exec b r, s => silent (boExec b r s)
  | .exec2 b flags r, s => silent (doExec2 b flags r s)
  | .checkApertureSpace bos, s => silent (Gem.checkApertureSpace bos s)
  | .map b writeEnable mmap, s => silent (boMap b writeEnable mmap s)
  | .mapGtt b mmap, s => silent (boMapGtt b mmap s)
  | .mapUnsynchronized b mmap, s => silent (boMapUnsynchronized b mmap s)
  | .unmap b swFinish, s => silent (boUnmap b swFinish s)
  | .setVmaCacheSize limit, s => plain (Gem.setVmaCacheSize limit s)
  | .setTiling b mode stride r, s => silent (boSetTiling b mode stride r s)
  | .busy b r, s => .ok (none, (boBusy b r s).2)
  | .foreign o, s => .ok (none, { s with kernel := s.kernel.foreign o })

/-- The objects that a call is given, other than the one it gives up a reference to. -/
def Call.objects : Call → List BoId
  | .exportToPrime b _ | .flink b _ | .disableReuse b | .reference b | .clearRelocs _ _ b _ | .exec b _
  | .exec2 b _ _ | .map b _ _ | .mapGtt b _ | .mapUnsynchronized b _ | .unmap b _ | .setTiling b _ _ _
  | .busy b _ => [b]
  | .emitReloc b a => [b, a.target]
  | .checkApertureSpace bos => bos.reduceOption
  | _ => []

/-- The manager, and how many references the callers hold. -/
structure Sys where
  mgr : Bufmgr
  callers : BoId → Nat

/-- A reference is given up by a caller who has one, and another process makes new objects. -/
def Call.permitted : Call → Sys → Bool
  | .unreference _ _ b, σ => decide (0 < σ.callers b)
  | .foreign o, σ => decide (σ.mgr.kernel.status o = .unborn)
  | _, _ => true

/-- What the code takes for granted. -/
def Call.Valid (c : Call) (σ : Sys) : Prop := (∀ b ∈ c.objects, σ.mgr.Live b) ∧ c.permitted σ = true

instance (c : Call) (σ : Sys) : Decidable (c.Valid σ) := inferInstanceAs (Decidable (_ ∧ _))

/-- The references of the callers after the call, which handed out `got`. -/
def Call.account (c : Call) (got : Option BoId) (callers : BoId → Nat) : BoId → Nat :=
  match c with
  | .unreference _ _ b => giveUp callers b
  | _ => match got with
    | none => callers
    | some b => take callers b

/-- One call, of those that `ok` allows. -/
def Step (ok : Call → Bufmgr → Bufmgr → Prop) (σ σ' : Sys) : Prop :=
  ∃ c got, c.Valid σ ∧ ok c σ.mgr σ'.mgr ∧ c.run σ.mgr = .ok (got, σ'.mgr)
    ∧ σ'.callers = c.account got σ.callers

/-- A manager that was just opened on a device. -/
def Init (σ : Sys) : Prop := ∃ cfg k, KernelOk k ∧ σ = ⟨bufmgrGemInit cfg k, fun _ => 0⟩

/-- The states that allowed calls lead to. -/
def Reachable (ok : Call → Bufmgr → Bufmgr → Prop) : Sys → Prop := Runs Init (Step ok)

/-- The call is not an export that fails, of an object that may still be reused. -/
def Call.clean : Call → Bufmgr → Bufmgr → Bool
  | .exportToPrime b (.error _), s, _ => !(s.bos b).reusable
  | _, _, _ => true

/-- Runs of clean calls. -/
def Clean (c : Call) (s s' : Bufmgr) : Prop := c.clean s s' = true

/-! ## The invariant between calls -/

/-- The manager is in order, its lock is free, and its scratch fields are unset. -/
structure Rest (σ : Sys) : Prop where
  settled : Settled (fun _ => False) σ.callers σ.mgr
  lock : σ.mgr.lock = false
  calm : Calm σ.mgr

theorem OnList.empty : OnList emptyList [] := DList.IsList.nil_of_selfLinked rfl

theorem Rest.init (cfg : Config) {k : Kernel} (hk : KernelOk k) :
    Rest ⟨bufmgrGemInit cfg k, fun _ => 0⟩ := by
  let s := bufmgrGemInit cfg k
  have hunalloc : ∀ c, (s.bos c).allocated ≠ true := fun c h => nomatch h
  have hgraph : GraphOk (idle (fun _ => False) (fun _ => 0) (fun _ => 0) s) s := by
    refine ⟨fun b _ => rfl, fun b _ => rfl, fun a b he => ?_, fun a b he => ?_, fun b => ?_,
      fun b _ _ => ⟨rfl, rfl⟩, fun b hb => ?_⟩
    · exact absurd he.1 List.not_mem_nil
    · exact absurd he.1 List.not_mem_nil
    · rfl
    · exact absurd hb List.not_mem_nil
  have hcache : CacheOk [] s :=
    ⟨fun i b hb => absurd hb List.not_mem_nil, fun i => List.nodup_nil, fun b hre => nomatch hre⟩
  have hnames : NameOk (fun _ => False) [] [] s :=
    ⟨OnList.empty, fun b hb => absurd hb List.not_mem_nil, fun b hb => absurd hb (hunalloc b),
      fun b hb => absurd hb List.not_mem_nil, nofun, fun a b ha => absurd ha (hunalloc a),
      fun b hb => absurd hb (hunalloc b), fun b o hb => absurd hb (hunalloc b), hk⟩
  have hvma : VmaInv s := by
    refine ⟨⟨[], OnList.empty, fun b => ?_, fun b _ => rfl, rfl, rfl⟩, fun hmax => ?_⟩
    · exact ⟨le_rfl, fun hb => absurd hb List.not_mem_nil, fun hb => absurd hb (hunalloc b),
        fun hb => absurd hb (hunalloc b), fun _ => ⟨rfl, rfl⟩⟩
    · exact absurd (show (0 : Int) ≤ -1 from hmax) (by decide)
  exact ⟨⟨_, hgraph, hcache, ⟨_, hnames⟩, hvma⟩, rfl, fun c => rfl,
    ⟨rfl, fun _ => rfl, fun c hc => absurd hc (hunalloc c)⟩, fun c => rfl⟩

section Calls

variable {σ : Sys}

/-- A live object is on no bucket. -/
theorem Settled.notMem_bucket {E : BoId → Prop} {callers : BoId → Nat} {s : Bufmgr} (h : Settled E callers s)
    {b : BoId} (hb : 0 < (s.bos b).refcount) (i : Nat) : b ∉ s.bucketHead i := by
  obtain ⟨r, hi⟩ := h
  exact hi.cache.notMem_of_pos hb i

/-- What a function of the mapping interface leaves. -/
theorem Rest.mapped (h : Rest σ) {b : BoId} (hb : σ.mgr.Live b) {s' : Bufmgr} (hv : VmaInv s')
    (hf : MapFrame b σ.mgr s') : Rest ⟨s', σ.callers⟩ where
  settled := h.settled.inert (Inert.of_mapFrame hf (h.settled.notMem_bucket hb.2)) hv
  lock := (congrArg Bufmgr.lock hf.rest :).trans h.lock
  calm := h.calm.tame (Tame.of_mapFrame hf)

/-- What an allocation leaves. -/
theorem Rest.allocated (h : Rest σ) {size : Nat} {r : Option BoId × Bufmgr}
    (hp : AllocPost (fun _ => False) σ.callers size σ.mgr r) (ht : Tame σ.mgr r.2) :
    Rest ⟨r.2, match r.1 with | none => σ.callers | some b => take σ.callers b⟩ := by
  obtain ⟨found, s'⟩ := r
  cases found with
  | none => exact ⟨hp.2.1, hp.1, h.calm.tame ht⟩
  | some b => exact ⟨hp.2.1, hp.1, h.calm.tame ht⟩

/-- What an import leaves. -/
theorem Rest.imported (h : Rest σ) {r : Option BoId × Bufmgr}
    (hp : ImportPost (fun _ => False) σ.callers r) (ht : Tame σ.mgr r.2) :
    Rest ⟨r.2, match r.1 with | none => σ.callers | some b => take σ.callers b⟩ := by
  obtain ⟨found, s'⟩ := r
  cases found with
  | none => exact ⟨hp.2, hp.1, h.calm.tame ht⟩
  | some b => exact ⟨hp.2, hp.1, h.calm.tame ht⟩

/-- What a call leaves that changes nothing the invariants read. -/
theorem Rest.quiet (h : Rest σ) {s' : Bufmgr} (hq : Quiet σ.mgr s') (hc : Calm s') : Rest ⟨s', σ.callers⟩ :=
  ⟨h.settled.quiet hq, hq.lock.trans h.lock, hc⟩

theorem Ensures.and {α : Type} {x : Except Fault α} {P Q : α → Prop} (hp : Ensures x P) (hq : Ensures x Q) :
    Ensures x fun a => P a ∧ Q a := fun a ha => ⟨hp a ha, hq a ha⟩

theorem silent_ensures {α : Type} {x : Except Fault (α × Bufmgr)} {Q : Option BoId × Bufmgr → Prop}
    (h : Ensures x fun r => Q (none, r.2)) : Ensures (silent x) Q :=
  h.bind fun _ hr => .ok hr

theorem plain_ensures {x : Except Fault Bufmgr} {Q : Option BoId × Bufmgr → Prop}
    (h : Ensures x fun s => Q (none, s)) : Ensures (plain x) Q :=
  h.bind fun _ hr => .ok hr

/-- Every clean call keeps the manager in order. -/
theorem Call.run_spec (h : Rest σ) {c : Call} (hv : c.Valid σ) {s' : Bufmgr} (hc : Clean c σ.mgr s') :
    Ensures (c.run σ.mgr) fun r => Rest ⟨r.2, c.account r.1 σ.callers⟩ := by
  have hE : ∀ c : BoId, ¬ False := fun _ e => e
  have hset := h.settled
  cases c with
  | enableReuse =>
      refine .ok ⟨hset.inert ⟨fun _ => rfl, fun _ _ _ => rfl, rfl, rfl, rfl, rfl⟩ ?_, h.lock, ?_⟩
      · exact hset.vma.same rfl rfl rfl rfl rfl rfl
      · exact h.calm.tame ⟨rfl, rfl, fun _ h => h⟩
  | enableFencedRelocs =>
      simp only [Call.run, Gem.enableFencedRelocs]
      split
      · refine .ok ⟨hset.inert ⟨fun _ => rfl, fun _ _ _ => rfl, rfl, rfl, rfl, rfl⟩ ?_, h.lock, ?_⟩
        · exact hset.vma.same rfl rfl rfl rfl rfl rfl
        · exact h.calm.tame ⟨rfl, rfl, fun _ h => h⟩
      · exact .ok h
  | alloc size forRender r =>
      exact (Ensures.and (boAllocInternal_spec hset hE h.lock size forRender I915_TILING_NONE 0 r)
        (boAllocInternal_tame size forRender I915_TILING_NONE 0 r σ.mgr)).mono
        fun _ hr => h.allocated hr.1 hr.2
  | allocTiled x y cpp mode forRender r =>
      exact (Ensures.and (boAllocTiled_spec hset hE h.lock x y cpp mode forRender r)
        (boAllocTiled_tame x y cpp mode forRender r σ.mgr)).mono
        fun _ hr => h.allocated hr.1 hr.2
  | allocUserptr addr mode size r =>
      exact (Ensures.and (boAllocUserptr_spec hset hE h.lock addr mode size r)
        (boAllocUserptr_tame addr mode size r σ.mgr)).mono
        fun _ hr => h.allocated hr.1 hr.2
  | createFromName madv time name r =>
      exact (Ensures.and (boGemCreateFromName_spec hset madv time name r)
        (boGemCreateFromName_tame madv time name r σ.mgr)).mono
        fun _ hr => h.imported hr.1.1 hr.2
  | createFromPrime madv time size r =>
      exact (Ensures.and (boGemCreateFromPrime_spec hset h.lock madv time size r)
        (boGemCreateFromPrime_tame madv time size r σ.mgr)).mono
        fun _ hr => h.imported hr.1 hr.2
  | exportToPrime b handleToFd =>
      have hb := hv.1 b (List.mem_singleton.mpr rfl)
      refine silent_ensures ((Ensures.and (boGemExportToPrime_spec hset h.lock hb.2 handleToFd ?_).ensures
        (boGemExportToPrime_tame b handleToFd σ.mgr)).mono fun _ hr => ⟨hr.1.1, hr.1.2, h.calm.tame hr.2⟩)
      intro hre
      cases handleToFd with
      | ok u => exact ⟨u, rfl⟩
      | error e =>
          have hre' : (!(σ.mgr.bos b).reusable) = true := hc
          rw [hre] at hre'
          cases hre'
  | flink b r =>
      have hb := hv.1 b (List.mem_singleton.mpr rfl)
      exact silent_ensures ((Ensures.and (boFlink_spec hset h.lock hb.2 r).ensures
        (boFlink_tame b r σ.mgr)).mono fun _ hr => ⟨hr.1.1.1, hr.1.1.2, h.calm.tame hr.2⟩)
  | disableReuse b =>
      have hb := hv.1 b (List.mem_singleton.mpr rfl)
      exact .ok ⟨hset.keep b hb.2 (fun _ => rfl) (hset.vma.modify rfl rfl rfl), h.lock,
        h.calm.tame (Tame.modify _ id)⟩
  | reference b =>
      have hb := hv.1 b (List.mem_singleton.mpr rfl)
      exact .ok ⟨hset.reference hb.2, h.lock, h.calm.tame (boReference_tame ..)⟩
  | unreference madv time b =>
      have hb : 0 < σ.callers b := of_decide_eq_true hv.2
      refine plain_ensures ((Ensures.and (boUnreference_spec hset h.lock hb madv time).ensures
        (boUnreference_tame madv time b σ.mgr)).mono fun s' hr => ⟨hr.1.1, ?_, h.calm.tame hr.2⟩)
      exact (shell_lock hr.1.2.rest).trans h.lock
  | emitReloc b a =>
      have hb := hv.1 b (by simp [Call.objects])
      have ht := hv.1 a.target (by simp [Call.objects])
      exact silent_ensures ((Ensures.and (boEmitReloc_spec hset hb.2 ht.2) (boEmitReloc_tame b a σ.mgr)).mono
        fun _ hr => ⟨hr.1.1, hr.1.2.trans h.lock, h.calm.tame hr.2⟩)
  | clearRelocs madv time b start =>
      refine plain_ensures ?_
      by_cases hstart : start ≤ (σ.mgr.bos b).relocs.length
      · refine (Ensures.and (boClearRelocs_spec hset h.lock hstart madv time).ensures
          (boClearRelocs_tame madv time b start σ.mgr)).mono fun s' hr => ⟨hr.1.1, ?_, h.calm.tame hr.2⟩
        exact (shell_lock hr.1.2.rest).trans h.lock
      · have : decide (start ≤ (σ.mgr.bos b).relocs.length) = false := by simpa using hstart
        simp only [boClearRelocs, this, assert_false, error_bind]
        exact .error
  | exec b r =>
      have hb := hv.1 b (List.mem_singleton.mpr rfl)
      exact silent_ensures ((boExec_ensures hset h.lock h.calm.unlisted h.calm.unflagged hb.1 r).mono
        fun _ hr => h.quiet hr.quiet (h.calm.quiet hr.quiet hr.unflagged hr.unlisted))
  | exec2 b flags r =>
      have hb := hv.1 b (List.mem_singleton.mpr rfl)
      exact silent_ensures ((doExec2_ensures hset h.lock h.calm.unlisted h.calm.unflagged hb.1 flags r).mono
        fun _ hr => h.quiet hr.quiet (h.calm.quiet hr.quiet hr.unflagged hr.unlisted))
  | checkApertureSpace bos =>
      refine silent_ensures ((checkApertureSpace_quiet hset h.calm.unflagged ?_).mono fun _ hr => ?_)
      · intro c hc
        exact (hv.1 c (by simpa [Call.objects, List.reduceOption_mem_iff] using hc)).1
      · exact h.quiet hr.1 (h.calm.tame hr.2.1)
  | map b writeEnable mmap =>
      have hb := hv.1 b (List.mem_singleton.mpr rfl)
      exact silent_ensures ((boMap_spec hset.vma hb.1 h.lock writeEnable mmap).ensures.mono
        fun _ hr => h.mapped hb hr.1 hr.2)
  | mapGtt b mmap =>
      have hb := hv.1 b (List.mem_singleton.mpr rfl)
      exact silent_ensures ((boMapGtt_spec hset.vma hb.1 h.lock mmap).ensures.mono
        fun _ hr => h.mapped hb hr.1 hr.2)
  | mapUnsynchronized b mmap =>
      have hb := hv.1 b (List.mem_singleton.mpr rfl)
      exact silent_ensures ((boMapUnsynchronized_spec hset.vma hb.1 h.lock mmap).ensures.mono
        fun _ hr => h.mapped hb hr.1 hr.2)
  | unmap b swFinish =>
      have hb := hv.1 b (List.mem_singleton.mpr rfl)
      exact silent_ensures ((boUnmap_spec hset.vma hb.1 h.lock swFinish).ensures.mono
        fun _ hr => h.mapped hb hr.1 hr.2)
  | setVmaCacheSize limit =>
      refine plain_ensures ((setVmaCacheSize_spec hset.vma limit).ensures.mono fun s' hr => ?_)
      have hf := hr.2.mapFrame 0
      have hmax : Inert σ.mgr { σ.mgr with vmaMax := limit } :=
        ⟨fun _ => rfl, fun _ _ _ => rfl, rfl, rfl, rfl, rfl⟩
      have htame : Tame σ.mgr { σ.mgr with vmaMax := limit } := ⟨rfl, rfl, fun _ h => h⟩
      have hi : Inert σ.mgr s' := hmax.trans (Inert.of_vmaFrame hr.2)
      refine ⟨hset.inert hi hr.1, (congrArg Bufmgr.lock hr.2.rest :).trans h.lock, h.calm.tame ?_⟩
      exact htame.trans (Tame.of_mapFrame hf)
  | setTiling b mode stride r =>
      exact silent_ensures ((Ensures.and (boSetTiling_spec hset b mode stride r)
        (boSetTiling_tame b mode stride r σ.mgr)).mono
        fun _ hr => ⟨hr.1.1, hr.1.2.trans h.lock, h.calm.tame hr.2⟩)
  | busy b r =>
      obtain ⟨idle, he⟩ := boBusy_eq b r σ.mgr
      simp only [Call.run, he]
      exact .ok ⟨hset.inert (Inert.modify _ rfl (Or.inl rfl)) (hset.vma.modify rfl rfl rfl), h.lock,
        h.calm.tame (Tame.modify _ id)⟩
  | «foreign» o =>
      exact .ok ⟨hset.foreign (of_decide_eq_true hv.2), h.lock, h.calm.tame ⟨rfl, rfl, fun _ h => h⟩⟩

end Calls

/-- The invariant holds in every state of a clean run. -/
theorem Reachable.rest {σ : Sys} (h : Reachable Clean σ) : Rest σ := by
  refine Runs.induct ?_ ?_ h
  · rintro σ ⟨cfg, k, hk, rfl⟩
    exact Rest.init cfg hk
  · rintro σ ⟨s', callers'⟩ hσ ⟨c, got, hv, hc, hrun, rfl⟩
    exact Call.run_spec hσ hv hc _ hrun

/-! ## Runs that can be computed -/

/-- One call, if it is valid and allowed. -/
def play (ok : Call → Bufmgr → Bufmgr → Bool) (c : Call) (σ : Sys) : Option Sys :=
  if c.Valid σ then
    match c.run σ.mgr with
    | .ok (got, s) => if ok c σ.mgr s then some ⟨s, c.account got σ.callers⟩ else none
    | .error _ => none
  else none

/-- A list of calls, from a manager that was just opened. -/
def playAll (ok : Call → Bufmgr → Bufmgr → Bool) (cfg : Config) (k : Kernel) (cs : List Call) : Option Sys :=
  cs.foldlM (fun σ c => play ok c σ) ⟨bufmgrGemInit cfg k, fun _ => 0⟩

theorem play_inv {ok : Call → Bufmgr → Bufmgr → Bool} {c : Call} {σ σ' : Sys} (h : play ok c σ = some σ') :
    ∃ got, c.Valid σ ∧ ok c σ.mgr σ'.mgr = true ∧ c.run σ.mgr = .ok (got, σ'.mgr)
      ∧ σ'.callers = c.account got σ.callers := by
  unfold play at h
  split at h
  · rename_i hv
    cases hr : c.run σ.mgr with
    | error e => rw [hr] at h; cases h
    | ok r =>
        rw [hr] at h
        simp only at h
        split at h
        · rename_i hok
          cases h
          exact ⟨r.1, hv, hok, rfl, rfl⟩
        · cases h
  · cases h

theorem play_step {ok : Call → Bufmgr → Bufmgr → Bool} {c : Call} {σ σ' : Sys} (h : play ok c σ = some σ') :
    Step (fun c s s' => ok c s s' = true) σ σ' := by
  obtain ⟨got, hv, hok, hrun, hcallers⟩ := play_inv h
  exact ⟨c, got, hv, hok, hrun, hcallers⟩

theorem playAll_reachable {ok : Call → Bufmgr → Bufmgr → Bool} {cfg : Config} {k : Kernel} (hk : KernelOk k)
    {cs : List Call} {σ : Sys} (h : playAll ok cfg k cs = some σ) :
    Reachable (fun c s s' => ok c s s' = true) σ := by
  have loop : ∀ (cs : List Call) (σ₀ : Sys), Reachable (fun c s s' => ok c s s' = true) σ₀ →
      cs.foldlM (fun σ c => play ok c σ) σ₀ = some σ → Reachable (fun c s s' => ok c s s' = true) σ := by
    intro cs
    induction cs with
    | nil => intro σ₀ h₀ h; cases h; exact h₀
    | cons c cs ih =>
        intro σ₀ h₀ h
        rw [List.foldlM_cons] at h
        obtain ⟨σ₁, h₁, h⟩ := Option.bind_eq_some_iff.mp h
        exact ih σ₁ (.step h₀ (play_step h₁)) h
  exact loop cs _ (.init ⟨cfg, k, hk, rfl⟩) h

/-- A run that was computed, and what was seen at its end. -/
theorem playAll_any {ok : Call → Bufmgr → Bufmgr → Bool} {cfg : Config} {k : Kernel} (hk : KernelOk k) {cs : List Call}
    {p : Sys → Bool} (h : (playAll ok cfg k cs).any p = true) :
    ∃ σ, playAll ok cfg k cs = some σ ∧ Reachable (fun c s s' => ok c s s' = true) σ ∧ p σ = true := by
  cases hσ : playAll ok cfg k cs with
  | none => rw [hσ] at h; cases h
  | some σ => rw [hσ] at h; exact ⟨σ, rfl, playAll_reachable hk hσ, h⟩

/-- The call returns, and `p` holds of what it returns. -/
def returns {α : Type} (p : α → Bool) : Except Fault α → Bool
  | .ok a => p a
  | .error _ => false

theorem returns_true {α : Type} {p : α → Bool} {x : Except Fault α} (h : returns p x = true) :
    Returns x fun a => p a = true := by
  cases x with
  | error e => cases h
  | ok a => exact ⟨a, rfl, h⟩

/-- A device on which nothing is open. -/
def Kernel.empty : Kernel := ⟨fun _ => none, fun _ => .unborn⟩

theorem KernelOk.empty : KernelOk Kernel.empty := ⟨nofun, nofun⟩

/-- The kernel creates the object `o` under the handle `h`, if it can. -/
def CreateCall.given (h : Handle) (o : Obj) : CreateCall where
  answer k := if k.objOf h = none ∧ k.status o = .unborn then .ok (h, o) else .error ⟨ENOMEM, by decide⟩
  valid k h' o' he := by
    split at he
    · cases he; assumption
    · cases he

/-- The answers to an allocation that finds nothing in the cache to be dropped. -/
def AllocReply.simple (h : Handle) (o : Obj) : AllocReply where
  search _ := ⟨.ok false, true, fun _ => true, .error ⟨EINVAL, EINVAL_pos⟩⟩
  fresh := ⟨true, .given h o, .error ⟨EINVAL, EINVAL_pos⟩⟩

end LibDrm.Gem
