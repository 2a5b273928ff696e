/-
# `LibDrm.Gem.Failure` — constructors that return NULL

`alloc_internal`, `create_from_name` and `create_from_prime` can fail at several
stages.  What is asked of a failure (`AtomicFailure`): the lock is free and was
not taken twice, only initialised list nodes were unlinked, the named list and
the VMA list are as before, and no handle that the call opened is left open.

There are five ways to miss this.  A new object whose tiling is refused is
freed before its list nodes are initialised.  An import by name gives a new
object up while it holds the lock.  Both imports forget the handle when there
is no memory for the object.  And the cached objects that a failing call frees
on its way leave the VMA list.  `AllocSafe`, `NameSafe` and `PrimeSafe` say of
the state and the answers of the system when none of this happens.
-/
import LibDrm.Gem.Machine

namespace LibDrm.Gem

/-! ## The property -/

/-- What a constructor must leave if it does not return an object. -/
def AtomicFailure (s : Bufmgr) : Except Fault (Option BoId × Bufmgr) → Prop
  | .ok (some _, _) => True
  | .ok (none, s') => s'.lock = false ∧ (∀ l, OnList s.nameList l ↔ OnList s'.nameList l)
      ∧ (∀ l, OnList s.vmaList l ↔ OnList s'.vmaList l) ∧ ∀ h, s.kernel.objOf h = none → s'.kernel.objOf h = none
  | .error .deadlock => False
  | .error .badPointer => False
  | .error _ => True      -- the call does not return

/-- The object has a mapping that is kept for later. -/
def OnVma (s : Bufmgr) (b : BoId) : Prop := ∃ vl, OnList s.vmaList vl ∧ b ∈ vl

/-- Nothing goes wrong in `alloc_internal`: an object is found, or one is made and its tiling
accepted, or none is made and no object that was freed had a mapping. -/
def AllocSafe (size : Nat) (forRender : Bool) (mode stride : Nat) (r : AllocReply) (s : Bufmgr) : Prop :=
  let freed := searchEvicts (boBucketForSize size) forRender mode (stride % 2 ^ 32) r.search s
  let created := r.fresh.callocOk = true
    ∧ ∃ ho, r.fresh.create.answer (s.kernel.closeAll (freed.map fun c => (s.bos c).gemHandle)) = .ok ho
  searchHit (boBucketForSize size) forRender mode (stride % 2 ^ 32) r.search s = none →
    (created → r.fresh.refused mode (stride % 2 ^ 32) = false) ∧ (¬ created → ∀ c ∈ freed, ¬ OnVma s c)

/-- ... in `create_from_name`: an object that has to be made is made, and its tiling is known;
where there is no memory for it, its handle was open before. -/
def NameSafe (name : Nat) (r : NameReply) (s : Bufmgr) : Prop :=
  (∀ b, Named s b → (s.bos b).globalName ≠ name) →
    ∀ h o, r.gemOpen.answer s.kernel = .ok (h, o) → (∀ b, Named s b → (s.bos b).gemHandle ≠ h) →
      (r.callocOk = true → ∃ t, r.getTiling = .ok t) ∧ (r.callocOk = false → s.kernel.objOf h ≠ none)

/-- ... in `create_from_prime`, where an object whose tiling is not known can be given up. -/
def PrimeSafe (time : Int) (r : PrimeReply) (s : Bufmgr) : Prop :=
  ∀ h o, r.fdToHandle.answer s.kernel = .ok (h, o) → (∀ b, Named s b → (s.bos b).gemHandle ≠ h) →
    (r.callocOk = true → ∀ e, r.getTiling = .error e → ∀ c ∈ expiredBos time s, ¬ OnVma s c)
      ∧ (r.callocOk = false → s.kernel.objOf h ≠ none)

/-! ## Lists that are as before -/

/-- A list is still what it was exactly if nothing was taken off it. -/
theorem OnList.filter_iff {m m' : DList.Mem Node} {l D : List BoId} (h : OnList m l)
    (h' : OnList m' (l.filter fun c => decide (c ∉ D))) :
    (∀ l, OnList m l ↔ OnList m' l) ↔ ∀ c ∈ D, c ∉ l := by
  constructor
  · intro hsame c hc hin
    have heq := ((hsame l).mp h).unique h'
    rw [heq] at hin
    simp [hc] at hin
  · intro hD
    have hall : l.filter (fun c => decide (c ∉ D)) = l :=
      List.filter_eq_self.mpr fun c hc => by simpa using fun hin => hD c hin hc
    rw [hall] at h'
    exact fun l' => ⟨fun hl => hl.unique h ▸ h', fun hl => hl.unique h' ▸ h⟩

theorem OnList.same_iff {m m' : DList.Mem Node} {l : List BoId} (h : OnList m l) (h' : OnList m' l) (l' : List BoId) :
    OnList m l' ↔ OnList m' l' := ⟨fun hl => hl.unique h ▸ h', fun hl => hl.unique h' ▸ h⟩

theorem Kernel.closeAll_objOf_none {k : Kernel} {l : List Handle} {h : Handle} (hk : k.objOf h = none) :
    (k.closeAll l).objOf h = none := by
  simp only [Kernel.closeAll]
  split
  · rfl
  · exact hk

/-- A call that fails and has freed the objects `D` of the cache. -/
theorem AtomicFailure.swept_iff {s s' : Bufmgr} {D nl vl : List BoId} (hlock : s.lock = false)
    (hn : OnList s.nameList nl) (hv : OnList s.vmaList vl) (hsw : Swept D s s') :
    AtomicFailure s (.ok (none, s')) ↔ ∀ c ∈ D, ¬ OnVma s c := by
  have hvma : (∀ c ∈ D, ¬ OnVma s c) ↔ ∀ c ∈ D, c ∉ vl := by
    refine forall_congr' fun c => imp_congr_right fun _ => not_congr ⟨?_, fun hin => ⟨vl, hv, hin⟩⟩
    rintro ⟨vl', hv', hin⟩
    exact hv'.unique hv ▸ hin
  rw [hvma, ← hv.filter_iff (hsw.vmas vl hv)]
  refine ⟨fun h => h.2.2.1, fun h => ⟨hsw.lock.trans hlock, hn.same_iff (hsw.names nl hn), h, fun hd hk => ?_⟩⟩
  rw [hsw.kernel]
  exact Kernel.closeAll_objOf_none hk

/-- The computation of a size can only fail to end. -/
theorem minSizeLoop_error {size : Int} {e : Fault} : ∀ (k : Nat) (minSize : Int),
    minSizeLoop size k minSize = .error e → e = .endlessLoop
  | 0, _, h => by
      cases h
      rfl
  | k + 1, minSize, h => by
      unfold minSizeLoop at h
      split at h
      · exact minSizeLoop_error k _ h
      · cases h

theorem inApertureSize_error {cfg : Config} {bo : Bo} {e : Fault} (h : inApertureSize cfg bo = .error e) :
    e = .endlessLoop := by
  simp only [inApertureSize] at h
  split at h
  · split at h
    · cases hm : minSizeLoop (CInt.int32 bo.size) 32 (if cfg.gen = 3 then 1024 * 1024 else 512 * 1024) with
      | error e' =>
          rw [hm] at h
          cases h
          exact minSizeLoop_error _ _ hm
      | ok m => rw [hm] at h; cases h
    · cases h
  · cases h

/-- An object gets its size in the aperture and is returned, or the loop does not end. -/
theorem AtomicFailure.sized (s : Bufmgr) {s' : Bufmgr} {b : BoId} (hu : (s'.bos b).usedAsRelocTarget = false)
    {f : Bufmgr → Except Fault (Option BoId × Bufmgr)} (hf : ∀ s₁, ∃ s₂, f s₁ = .ok (some b, s₂)) :
    AtomicFailure s (setInApertureSize b s' >>= f) := by
  simp only [setInApertureSize, hu, Bool.not_false, assert_true, ok_bind]
  cases hsz : inApertureSize s'.cfg (s'.bos b) with
  | error e =>
      cases inApertureSize_error hsz
      exact trivial
  | ok size =>
      obtain ⟨s₂, hs₂⟩ := hf (s'.modify b (Bo.setTreeSize size))
      rw [ok_bind, show (pure (s'.modify b (Bo.setTreeSize size)) : Except Fault Bufmgr) = .ok _ from rfl, ok_bind, hs₂]
      exact trivial

section Constructors

variable {E : BoId → Prop} {callers : BoId → Nat} {s : Bufmgr}

theorem Named.iff {E : BoId → Prop} {X nl : List BoId} (hn : NameOk E X nl s) (b : BoId) : Named s b ↔ b ∈ nl :=
  ⟨fun ⟨_, hl, hin⟩ => hl.unique hn.list ▸ hin, fun hin => ⟨nl, hn.list, hin⟩⟩

/-- Nothing on the named list satisfies `p`. -/
theorem find_none_iff {nl : List BoId} (hn : NameOk E [] nl s) {p : BoId → Bool} :
    nl.find? p = none ↔ ∀ b, Named s b → p b = false := by
  rw [List.find?_eq_none]
  refine forall_congr' fun b => ?_
  rw [Named.iff hn, Bool.not_eq_true]

theorem boAllocInternal_atomic_iff (h : Settled E callers s) (hlock : s.lock = false) (size : Nat) (forRender : Bool)
    (mode stride : Nat) (r : AllocReply) :
    AtomicFailure s (boAllocInternal size forRender mode stride r s)
      ↔ AllocSafe size forRender mode stride r s := by
  obtain ⟨⟨found, s₁⟩, he, h₁, hsw, hhit, -⟩ :=
    allocCached_spec h hlock size forRender mode (stride % 2 ^ 32) r.search
  have hfinish : ∀ b s', AtomicFailure s (allocFinish true (some b) s') := fun b s' =>
    AtomicFailure.sized s (by rw [modify_self]; rfl) fun s₁ => ⟨s₁, rfl⟩
  simp only [boAllocInternal, AllocSafe, ← hhit, ← hsw.kernel, he, ok_bind]
  cases found with
  | some b => exact ⟨fun _ hno => (nomatch hno), fun _ => hfinish b s₁⟩
  | none =>
      obtain ⟨rk, hi⟩ := h
      obtain ⟨nl, hn⟩ := hi.names
      obtain ⟨vl, hv⟩ := hi.vma.ok
      obtain ⟨rk₁, hi₁⟩ := h₁
      rcases allocFresh_cases hi₁ (allocSize s₁.cfg size) mode (stride % 2 ^ 32) r.fresh with
        ⟨hfail, he⟩ | ⟨hcall, hcr, ⟨href, he⟩ | ⟨href, bo, o, s₂, he, -⟩⟩
      · have hnot : ¬ (r.fresh.callocOk = true ∧ ∃ ho, r.fresh.create.answer s₁.kernel = .ok ho) := by
          rintro ⟨hcall, ho, hok⟩
          rcases hfail with hfail | ⟨e, herr⟩
          · rw [hcall] at hfail; cases hfail
          · rw [herr] at hok; cases hok
        simp only [he, ok_bind]
        refine (AtomicFailure.swept_iff hlock hn.list hv.list hsw).trans
          ⟨fun hD _ => ⟨fun hc => absurd hc hnot, fun _ => hD⟩, fun hD => (hD trivial).2 hnot⟩
      · simp only [he, error_bind]
        refine ⟨False.elim, fun hD => ?_⟩
        have := (hD trivial).1 ⟨hcall, hcr⟩
        rw [href] at this
        cases this
      · simp only [he, ok_bind]
        exact ⟨fun _ _ => ⟨fun _ => href, fun hno => absurd ⟨hcall, hcr⟩ hno⟩, fun _ => hfinish _ _⟩

/-- The handle is left open exactly if the call has opened it. -/
theorem openAs_leak_iff {h : Handle} {o : Obj} :
    (∀ hd, s.kernel.objOf hd = none → (s.kernel.openAs h o).objOf hd = none) ↔ s.kernel.objOf h ≠ none := by
  constructor
  · intro hall hnone
    have := hall h hnone
    rw [Kernel.openAs_self] at this
    cases this
  · intro hopen hd hnone
    have hne : hd ≠ h := by
      rintro rfl
      exact hopen hnone
    rw [Kernel.openAs_of_ne hne]
    exact hnone

/-- A call that fails with one handle more. -/
theorem AtomicFailure.opened_iff {s' : Bufmgr} {h : Handle} {o : Obj} (hlock : s'.lock = false)
    (hn : s'.nameList = s.nameList) (hv : s'.vmaList = s.vmaList) (hk : s'.kernel = s.kernel.openAs h o) :
    AtomicFailure s (.ok (none, s')) ↔ s.kernel.objOf h ≠ none := by
  rw [← openAs_leak_iff (o := o), ← hk]
  refine ⟨fun hs => hs.2.2.2, fun hs => ⟨hlock, fun l => ?_, fun l => ?_, hs⟩⟩
  · rw [hn]
  · rw [hv]

theorem boGemCreateFromName_atomic_iff (h : Settled E callers s) (hlock : s.lock = false) (madv : Madvise)
    (time : Int) (name : Nat) (r : NameReply) :
    AtomicFailure s (boGemCreateFromName madv time name r s) ↔ NameSafe name r s := by
  obtain ⟨rk, hi⟩ := h.setLock true
  obtain ⟨nl, hn⟩ := hi.names
  have hnone : ∀ {p : BoId → Bool}, nl.find? p = none ↔ ∀ b, Named s b → p b = false := find_none_iff hn
  simp only [boGemCreateFromName, Bufmgr.withLock, hlock, Bool.false_eq_true, if_false]
  rw [findNamed_eq hi.graph hn, ok_bind]
  cases hfind : nl.find? fun b => (s.bos b).globalName == name with
  | some b =>
      refine ⟨fun _ hno => ?_, fun _ => trivial⟩
      rw [hnone.mpr fun c hc => by simpa using hno c hc] at hfind
      cases hfind
  | none =>
      have hname : ∀ b, Named s b → (s.bos b).globalName ≠ name := by simpa using hnone.mp hfind
      simp only
      cases hopen : r.gemOpen.answer s.kernel with
      | error e =>
          refine ⟨fun _ _ hd o hok => ?_, fun _ => ⟨rfl, fun _ => Iff.rfl, fun _ => Iff.rfl, fun _ h => h⟩⟩
          rw [hopen] at hok
          cases hok
      | ok ho =>
          obtain ⟨hd, o⟩ := ho
          have hok := r.gemOpen.valid _ _ _ hopen
          obtain ⟨rk₂, hi₂⟩ := Settled.openAs ⟨rk, hi⟩ hok
          have hn₂ : NameOk E [] nl { s with lock := true, kernel := s.kernel.openAs hd o } :=
            hn.openAs hok rfl rfl rfl
          simp only [nameOpened]
          rw [findNamed_eq hi₂.graph hn₂, ok_bind]
          cases hfind₂ : nl.find? fun b => (s.bos b).gemHandle == hd with
          | some b =>
              refine ⟨fun _ _ hd' o' hok' hno => ?_, fun _ => trivial⟩
              rw [hopen] at hok'
              cases hok'
              rw [hnone.mpr fun c hc => by simpa using hno c hc] at hfind₂
              cases hfind₂
          | none =>
              have hno : ∀ b, Named s b → (s.bos b).gemHandle ≠ hd := by simpa using hnone.mp hfind₂
              have hsafe : NameSafe name r s ↔ (r.callocOk = true → ∃ t, r.getTiling = .ok t)
                  ∧ (r.callocOk = false → s.kernel.objOf hd ≠ none) := by
                refine ⟨fun hs => hs hname hd o hopen hno, fun hs _ hd' o' hok' _ => ?_⟩
                rw [hopen] at hok'
                cases hok'
                exact hs
              rw [hsafe]
              simp only [nameNew]
              cases hcall : r.callocOk with
              | false =>
                  have hleak : AtomicFailure s (.ok (none, { s with lock := false, kernel := s.kernel.openAs hd o }))
                      ↔ s.kernel.objOf hd ≠ none := AtomicFailure.opened_iff (o := o) rfl rfl rfl rfl
                  exact hleak.trans ⟨fun hs => ⟨fun h => (by cases h), fun _ => hs⟩, fun hs => hs.2 rfl⟩
              | true =>
                  cases htile : r.getTiling with
                  | error e =>
                      -- the object has its first reference, and the lock is held
                      simp only [Bool.not_true, Bool.false_eq_true, if_false, boUnreference, boUnreferenceSlow,
                        Bufmgr.locked, Bufmgr.calloc, namedBo]
                      simp [AtomicFailure]
                  | ok t =>
                      let s₂ : Bufmgr := { s with lock := true, kernel := s.kernel.openAs hd o }
                      have hset := setInApertureSize_calloc s₂ ((namedBo name hd r.size).gotTiling t) rfl
                      have hmod := calloc_modify s₂ (namedBo name hd r.size) (Bo.gotTiling t)
                      simp only [s₂] at hset hmod
                      simp only [Bool.not_true, Bool.false_eq_true, if_false, hmod, hset]
                      refine ⟨fun _ => ⟨fun _ => ⟨t, rfl⟩, fun h => (by cases h)⟩, fun _ => ?_⟩
                      cases hsz : inApertureSize s.cfg ((namedBo name hd r.size).gotTiling t) with
                      | error e =>
                          cases inApertureSize_error hsz
                          exact trivial
                      | ok size =>
                          obtain ⟨s', hs', -⟩ := linkNamed_spec hi₂ hn₂ (((namedBo name hd r.size).gotTiling t).setTreeSize size)
                          simp only [ok_bind, hs']
                          exact trivial

theorem expiredBos_congr {s' : Bufmgr} (time : Int) (ht : s'.time = s.time) (hk : s'.bucketHead = s.bucketHead)
    (hb : ∀ i, ∀ c ∈ s.bucketHead i, s'.bos c = s.bos c) : expiredBos time s' = expiredBos time s := by
  have hin : expiredIn time s' = expiredIn time s := funext fun i => by
    rw [expiredIn, expiredIn, hk]
    exact (takeWhile_congr fun c hc => by rw [hb i c hc]).1
  rw [expiredBos, expiredBos, ht, hin]

/-- What becomes of an object that is not reused when its only reference is dropped: it leaves
the lists, its handle is closed, and the cache is cleaned up. -/
theorem boUnreference_new {b : BoId} {callers : BoId → Nat} (h : Settled E callers s) (hlock : s.lock = false)
    (hb : 0 < callers b) (h1 : (s.bos b).refcount = 1) (hrel : (s.bos b).relocs = []) (hmap : (s.bos b).mapCount = 0)
    (hre : (s.bos b).reusable = false) (madv : Madvise) (time : Int) :
    Returns (boUnreference madv time b s) fun s' => s'.lock = false
      ∧ (∀ nl, OnList s.nameList nl → OnList s'.nameList (nl.erase b))
      ∧ (∀ vl, OnList s.vmaList vl → OnList s'.vmaList ((vl.erase b).filter fun c => decide (c ∉ expiredBos time s)))
      ∧ ∀ hd, s.kernel.objOf hd = none ∨ hd = (s.bos b).gemHandle → s'.kernel.objOf hd = none := by
  obtain ⟨r, hcan, -⟩ := (h.setLock true).canDrop hb
  have hdie := hcan.inv.die rfl h1
  have htargets : (s.bos b).targets = [] := by rw [Bo.targets, hrel, List.map_nil]
  have hun : boUnlink b (({ s with lock := true } : Bufmgr).modify b Bo.decRef)
      = .ok ((({ s with lock := true } : Bufmgr).modify b Bo.decRef).modify b Bo.clearRelocs) := by
    simp [boUnlink, Bo.clearRelocs, Bo.decRef, hmap]
  obtain ⟨s₂, hs₂, h₂, hrel₂, hmap₂, -⟩ := hdie.unlink (List.mem_cons_self ..)
  obtain rfl := Except.ok.inj (hun.symm.trans hs₂)
  obtain ⟨halloc, h0⟩ := h₂.graph.dying b (List.mem_cons_self ..)
  obtain ⟨nl, hn⟩ := h₂.names
  obtain ⟨m, hdel, hm, -, hf⟩ := hn.list.del
    ((hn.node b halloc).imp_right fun hd => hd.resolve_right fun hdang => hdang.2.1 (List.mem_cons_self ..))
  have hnc := h₂.cache.notMem_of_dying (b := b) (List.mem_cons_self ..)
  have hX : ∀ c, c ∈ ([] : List BoId) ↔ c ∈ [b] ∧ c ≠ b := by simp
  have hout : (idle E callers r s).out b = [] := htargets
  obtain ⟨s₃, hfree, h₃, hs₃, hvl⟩ := h₂.free hn halloc h0 hmap₂ hnc hX hout hrel₂ hm hf
  obtain ⟨s₄, hclean, -, hsw⟩ := cleanupBoCache_spec h₃ time
  have hother : ∀ c, c ≠ b → s₃.bos c = s.bos c := fun c hc => by
    rw [hs₃]
    simp [Bufmgr.freed, Bufmgr.modify, hc]
  have hexp : expiredBos time s₃ = expiredBos time s := by
    refine expiredBos_congr time (by rw [hs₃]; rfl) (by rw [hs₃]; rfl) fun i c hc => hother c ?_
    rintro rfl
    exact hnc i hc
  have hrun : boUnreference madv time b s = .ok { s₄ with lock := false } := by
    have hretire : boUnreferenceFinal (boUnreferenceLockedTimed madv time (s.nextBo + 1)) madv time b
        (({ s with lock := true } : Bufmgr).modify b Bo.decRef) = .ok s₃ := by
      simp only [boUnreferenceFinal, modify_self]
      rw [show (s.bos b).decRef.targets = [] from htargets]
      have hsel : boCacheOrFree madv time b { (({ s with lock := true } : Bufmgr).modify b Bo.decRef).modify b
          Bo.clearRelocs with nameList := m } = .ok s₃ := by
        have hkeep : ((s.bos b).decRef.clearRelocs).reusable = false := hre
        simp only [boCacheOrFree, modify_self, hkeep, Bool.and_false, Bool.false_and, Bool.false_eq_true, if_false,
          hfree]
        split <;> rfl
      show (boRetire madv time b _ : Except Fault Bufmgr) = _
      simp only [boRetire, hun, ok_bind, hdel, deref_some]
      exact hsel
    simp only [boUnreference, h1, Nat.zero_lt_one, decide_true, assert_true, ok_bind, ne_eq, not_true, if_false,
      boUnreferenceSlow, Bufmgr.locked, hlock, Bool.false_eq_true, if_true, hretire, hclean]
    rfl
  refine ⟨_, hrun, rfl, fun nl' hl' => ?_, fun vl hl => ?_, fun hd hk => ?_⟩
  · have hnl : nl' = nl := hl'.unique hn.list
    have hnb : b ∉ nl.erase b := hn.list.nodup.not_mem_erase
    refine hsw.names _ ?_
    rw [hnl, hs₃]
    exact hm.free hnb
  · rw [← hexp]
    exact hsw.vmas _ (hvl vl hl)
  · show s₄.kernel.objOf hd = none
    rw [hsw.kernel]
    refine Kernel.closeAll_objOf_none ?_
    have hkern : s₃.kernel = s.kernel.close (s.bos b).gemHandle := by
      rw [hs₃]
      simp [Bufmgr.freed, Bo.clearRelocs, Bo.decRef]
    rw [hkern]
    by_cases hh : hd = (s.bos b).gemHandle
    · rw [hh, Kernel.close_self]
    · rw [Kernel.close_of_ne hh]
      exact hk.resolve_right hh

/-- The end of an import that has made the object `bo`. -/
theorem primeFinish_atomic_iff {s₁ : Bufmgr} {bo : Bo} {nl vl : List BoId} {o : Obj} (hbo : ImportedBo bo)
    (hu : bo.usedAsRelocTarget = false) (hn : OnList s.nameList nl) (hv : OnList s.vmaList vl) (hnb : s.nextBo ∉ nl)
    (hvb : s.nextBo ∉ vl) (hcache : ∀ i, s.nextBo ∉ s.bucketHead i)
    (him : Imported bo nl { s with lock := true, kernel := s.kernel.openAs bo.gemHandle o } s₁)
    (hset : Settled E (take callers s.nextBo) { s₁ with lock := false }) (madv : Madvise) (time : Int)
    (getTiling : Reply Tiling) :
    AtomicFailure s (primeFinish madv time getTiling (.created s.nextBo) { s₁ with lock := false })
      ↔ ∀ e, getTiling = .error e → ∀ c ∈ expiredBos time s, ¬ OnVma s c := by
  have hself : s₁.bos s.nextBo = bo := by rw [him.bos]; exact Function.update_self ..
  cases getTiling with
  | ok t =>
      refine ⟨fun _ e he => (nomatch he), fun _ => ?_⟩
      refine AtomicFailure.sized s ?_ fun s₂ => ⟨s₂, rfl⟩
      rw [modify_self]
      show (s₁.bos s.nextBo).usedAsRelocTarget = false
      rw [hself]
      exact hu
  | error e =>
      obtain ⟨s₂, hs₂, hlock, hnames, hvmas, hclosed⟩ := boUnreference_new hset rfl (b := s.nextBo) (by simp [take])
        ((congrArg Bo.refcount hself :).trans hbo.refcount) ((congrArg Bo.relocs hself :).trans hbo.relocs)
        ((congrArg Bo.mapCount hself :).trans hbo.unmapped) ((congrArg Bo.reusable hself :).trans hbo.notReusable)
        madv time
      have hexp : expiredBos time { s₁ with lock := false } = expiredBos time s := by
        refine expiredBos_congr time him.time him.buckets fun i c hc => ?_
        have hcb : c ≠ s.nextBo := fun e => hcache i (e ▸ hc)
        show s₁.bos c = s.bos c
        rw [him.bos]
        exact Function.update_of_ne hcb ..
      have hn₂ : OnList s₂.nameList nl := by
        have := hnames _ him.named
        rwa [List.erase_append_right _ hnb, List.erase_cons_head, List.append_nil] at this
      have hv₂ := hvmas vl (him.vma vl hv hvb).1
      rw [List.erase_of_not_mem hvb, hexp] at hv₂
      have hvma : (∀ c ∈ expiredBos time s, ¬ OnVma s c) ↔ ∀ c ∈ expiredBos time s, c ∉ vl := by
        refine forall_congr' fun c => imp_congr_right fun _ => not_congr ⟨?_, fun hin => ⟨vl, hv, hin⟩⟩
        rintro ⟨vl', hv', hin⟩
        exact hv'.unique hv ▸ hin
      simp only [primeFinish, hs₂, ok_bind]
      show AtomicFailure s (.ok (none, s₂)) ↔ _
      rw [show (∀ e', Except.error e = Except.error e' → ∀ c ∈ expiredBos time s, ¬ OnVma s c)
          ↔ ∀ c ∈ expiredBos time s, ¬ OnVma s c from ⟨fun hs => hs e rfl, fun hs _ _ => hs⟩,
        hvma, ← hv.filter_iff hv₂]
      refine ⟨fun hs => hs.2.2.1, fun hs => ⟨hlock, hn.same_iff hn₂, hs, fun hd hk => hclosed hd ?_⟩⟩
      by_cases hh : hd = bo.gemHandle
      · exact Or.inr (hh.trans (congrArg Bo.gemHandle hself).symm)
      · refine Or.inl ?_
        show s₁.kernel.objOf hd = none
        rw [him.kernel]
        exact (Kernel.openAs_of_ne hh).trans hk

theorem boGemCreateFromPrime_atomic_iff (h : Settled E callers s) (hlock : s.lock = false) (madv : Madvise)
    (time size : Int) (r : PrimeReply) :
    AtomicFailure s (boGemCreateFromPrime madv time size r s) ↔ PrimeSafe time r s := by
  unfold boGemCreateFromPrime primeFdToHandle PrimeSafe
  cases hopen : r.fdToHandle.answer s.kernel with
  | error e =>
      -- the named list is searched for a handle that is not one
      refine ⟨fun _ hd o hok => (nomatch hok), fun _ => ?_⟩
      obtain ⟨rk, hi⟩ := h.setLock true
      obtain ⟨nl, hn⟩ := hi.names
      simp only [primeImport, Bufmgr.withLock, hlock, Bool.false_eq_true, if_false]
      rw [findNamed_eq hi.graph hn, ok_bind]
      cases hfind : nl.find? fun b => (s.bos b).gemHandle == r.garbage with
      | some b => exact trivial
      | none => exact ⟨rfl, fun _ => Iff.rfl, fun _ => Iff.rfl, fun _ h => h⟩
  | ok ho =>
      obtain ⟨hd, o⟩ := ho
      have hok := r.fdToHandle.valid _ _ _ hopen
      obtain ⟨rk, hi⟩ := (h.openAs hok).setLock true
      obtain ⟨nl, hn⟩ := hi.names
      have hnone : ∀ {p : BoId → Bool}, nl.find? p = none ↔ ∀ b, Named s b → p b = false := find_none_iff hn
      simp only [primeImport, Bufmgr.withLock, hlock, Bool.false_eq_true, if_false]
      rw [findNamed_eq hi.graph hn, ok_bind]
      cases hfind : nl.find? fun b => (s.bos b).gemHandle == hd with
      | some b =>
          refine ⟨fun _ hd' o' hok' hno => ?_, fun _ => trivial⟩
          cases hok'
          rw [hnone.mpr fun c hc => by simpa using hno c hc] at hfind
          cases hfind
      | none =>
          have hno : ∀ b, Named s b → (s.bos b).gemHandle ≠ hd := by simpa using hnone.mp hfind
          have hno' : ∀ b ∈ nl, (s.bos b).gemHandle ≠ hd := fun b hb => hno b ((Named.iff hn b).mpr hb)
          refine Iff.trans ?_ (show (r.callocOk = true → ∀ e, r.getTiling = .error e →
              ∀ c ∈ expiredBos time s, ¬ OnVma s c) ∧ (r.callocOk = false → s.kernel.objOf hd ≠ none) ↔ _ from
            ⟨fun hs hd' o' hok' _ => by cases hok'; exact hs, fun hs => hs hd o rfl hno⟩)
          simp only [if_true, primeNew]
          cases hcall : r.callocOk with
          | false =>
              have hleak : AtomicFailure s (.ok (none, { s with lock := false, kernel := s.kernel.openAs hd o }))
                  ↔ s.kernel.objOf hd ≠ none := AtomicFailure.opened_iff (o := o) rfl rfl rfl rfl
              exact hleak.trans ⟨fun hs => ⟨nofun, fun _ => hs⟩, fun hs => hs.2 rfl⟩
          | true =>
              obtain ⟨s₁, hs₁, him⟩ := linkNamed_spec hi hn
                { allocated := true, size := primeSize size r.lseek, gemHandle := hd, refcount := 1
                  validateIndex := -1, reusable := false }
              have hset := (Settled.imported hi hn ⟨rfl, rfl, rfl, rfl, rfl, rfl⟩ him Kernel.openAs_self hok.1
                hno').setLock false
              simp only [Bool.not_true, Bool.false_eq_true, if_false, hs₁, ok_bind]
              obtain ⟨vl, hv⟩ := hi.vma.ok
              have hun := hi.graph.fresh s.nextBo (Nat.le_refl _)
              have hfin : AtomicFailure s (primeFinish madv time r.getTiling (.created s.nextBo) { s₁ with lock := false })
                  ↔ ∀ e, r.getTiling = .error e → ∀ c ∈ expiredBos time s, ¬ OnVma s c :=
                primeFinish_atomic_iff (s := s) (o := o) ⟨rfl, rfl, rfl, rfl, rfl, rfl⟩ rfl hn.list hv.list
                  (hi.graph.nextBo_notMem hn) hv.nextBo_notMem (hi.cache.notMem_of_unallocated hun) him hset madv time
                  r.getTiling
              exact hfin.trans ⟨fun hs => ⟨fun _ => hs, nofun⟩, fun hs => hs.1 trivial⟩

end Constructors

/-- The three constructors fail without a trace exactly when none of the defects is reached. -/
theorem failed_creation_atomic_iff {σ : Sys} (h : Reachable Clean σ) :
    (∀ size forRender mode stride r, AtomicFailure σ.mgr (boAllocInternal size forRender mode stride r σ.mgr)
      ↔ AllocSafe size forRender mode stride r σ.mgr)
    ∧ (∀ madv time name r, AtomicFailure σ.mgr (boGemCreateFromName madv time name r σ.mgr)
      ↔ NameSafe name r σ.mgr)
    ∧ ∀ madv time size r, AtomicFailure σ.mgr (boGemCreateFromPrime madv time size r σ.mgr)
      ↔ PrimeSafe time r σ.mgr := by
  obtain ⟨hset, hlock, -⟩ := h.rest
  exact ⟨boAllocInternal_atomic_iff hset hlock, boGemCreateFromName_atomic_iff hset hlock,
    boGemCreateFromPrime_atomic_iff hset hlock⟩

/-- An object was given to the cache, and there is no memory for another one. -/
def cachedOne : List Call := [.enableReuse, .alloc 4096 false (.simple 1 1), .unreference (fun _ => true) 7 0]

/-- The answers when the cached object is still busy and `calloc` fails. -/
def AllocReply.noMemory : AllocReply where
  search _ := ⟨.ok true, true, fun _ => true, .error ⟨EINVAL, EINVAL_pos⟩⟩
  fresh := ⟨false, .given 2 2, .error ⟨EINVAL, EINVAL_pos⟩⟩

theorem failed_creation_atomic_noMemory : ∃ σ, playAll Call.clean {} .empty cachedOne = some σ
    ∧ AllocSafe 4096 false 0 0 .noMemory σ.mgr
    ∧ AtomicFailure σ.mgr (boAllocInternal 4096 false 0 0 .noMemory σ.mgr) := by
  have hrun : (playAll Call.clean {} .empty cachedOne).any (fun σ =>
      decide (searchEvicts (boBucketForSize 4096) false 0 0 AllocReply.noMemory.search σ.mgr = [])) = true := by
    decide +kernel
  obtain ⟨σ, hplay, h, hfreed⟩ := playAll_any KernelOk.empty hrun
  have hfreed := of_decide_eq_true hfreed
  have hsafe : AllocSafe 4096 false 0 0 .noMemory σ.mgr := by
    refine fun _ => ⟨fun hc => (nomatch hc.1), fun _ c hc => ?_⟩
    rw [show searchEvicts (boBucketForSize 4096) false 0 (0 % 2 ^ 32) AllocReply.noMemory.search σ.mgr = [] from hfreed] at hc
    cases hc
  exact ⟨σ, hplay, hsafe, ((failed_creation_atomic_iff h).1 4096 false 0 0 .noMemory).mpr hsafe⟩

/-- A tiled object is made and the kernel refuses its tiling: a list node is unlinked whose
pointers are NULL. -/
theorem refusedTiling_not_atomic :
    ∃ σ, Reachable Clean σ ∧ ¬ AtomicFailure σ.mgr (boAllocInternal 4096 false I915_TILING_X 512 (.simple 1 1) σ.mgr) := by
  have hrun : (playAll Call.clean {} .empty []).any (fun σ => FailsWith .badPointer
      (boAllocInternal 4096 false I915_TILING_X 512 (.simple 1 1) σ.mgr)) = true := by decide +kernel
  obtain ⟨σ, -, h, hbad⟩ := playAll_any KernelOk.empty hrun
  refine ⟨σ, h, fun hat => ?_⟩
  rw [failsWith_iff.mp hbad] at hat
  exact hat

end LibDrm.Gem
