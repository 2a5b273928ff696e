/-
# `LibDrm.Gem.Exec` — the validation list and the execution of a batch

`process_reloc2` walks the relocations below a batch and appends every target
to the validation list after what lies behind it.  Whether an object is on the
list already is told by the index stored in the object.  The walk is shown to
be `Walk.visit` over the graph of relocations (`processWith_visit`), and the
properties of the list are those of `Walk.listing_spec`.

The entries of the list are written to an array of the path, `exec_objects` or
`exec2_objects`.  Both are extended when the count is `exec_size`, which they share:
where the other path has extended its array, there is no room for an entry although
the count is below `exec_size`.  A list is complete exactly if all its entries have
room (`Builds`, `ArrayFits`).

Afterwards the two `exec` functions take every object off the list again,
whatever the ioctl answered.
-/
import LibDrm.Gem.Aperture

namespace LibDrm.Gem

open Walk CInt

/-! ## The functions -/

/-- The entry for an object. -/
def Bo.execObject (needFence : Bool) (bo : Bo) : ExecObject :=
  { handle := bo.gemHandle, relocationCount := bo.relocs.length, relocs := bo.relocs, alignment := 0
    offset := 0, needsFence := needFence }

def ExecObject.setFence (e : ExecObject) : ExecObject := { e with needsFence := true }

def Bo.setIndex (i : Int) (bo : Bo) : Bo := { bo with validateIndex := i }

/-- The array of the path and `exec_bos` are extended as necessary; there is memory. -/
def ExecObjects.grow (a : ExecArray) (count : Nat) (x : ExecObjects) : ExecObjects :=
  if count = x.size then
    let newSize := if x.size * 2 = 0 then 5 else x.size * 2
    { x with size := newSize, room := Function.update x.room a newSize }
  else x

def ExecObjects.setEntries (a : ExecArray) (l : List ExecObject) (x : ExecObjects) : ExecObjects :=
  { x with entries := Function.update x.entries a l }

/-- The common part of the two functions below. -/
def addValidate (a : ExecArray) (b : BoId) (needFence : Bool) (s : Bufmgr) : Except Fault Bufmgr :=
  if (s.bos b).validateIndex ≠ -1 then
    if needFence then
      let i := (s.bos b).validateIndex.toNat
      if i < (s.execObjects.entries a).length then
        .ok { s with
          execObjects := s.execObjects.setEntries a ((s.execObjects.entries a).modify i ExecObject.setFence) }
      else .error .badPointer
    else .ok s
  else
    let x := s.execObjects.grow a s.execCount
    if s.execCount < x.room a then
      .ok { s.modify b (Bo.setIndex s.execCount) with
        execObjects := x.setEntries a (x.entries a ++ [(s.bos b).execObject needFence])
        execBos := s.execBos ++ [b] }
    else .error .badPointer

/-- `drm_intel_add_validate_buffer`: its entries have no flags. -/
def addValidateBuffer (b : BoId) (s : Bufmgr) : Except Fault Bufmgr := addValidate .objects b false s

/-- `drm_intel_add_validate_buffer2`. -/
def addValidateBuffer2 (b : BoId) (needFence : Bool) (s : Bufmgr) : Except Fault Bufmgr :=
  addValidate .objects2 b needFence s

/-- The common part of the two walks; `add` puts the target of a relocation on the list. -/
def processWith (add : Reloc → Bufmgr → Except Fault Bufmgr) : Nat → BoId → Bufmgr → Except Fault Bufmgr
  | 0, _, _ => .error .outOfFuel
  | k + 1, b, s =>
      if (s.bos b).relocArray = none then .ok s
      else (s.bos b).relocs.foldlM (fun s r =>
        if r.target = b then .ok s
        else do
          let s ← processWith add k r.target s
          add r s) s

/-- `drm_intel_gem_bo_process_reloc`. -/
def boProcessReloc : Nat → BoId → Bufmgr → Except Fault Bufmgr :=
  processWith fun r => addValidateBuffer r.target

/-- `drm_intel_gem_bo_process_reloc2`. -/
def boProcessReloc2 : Nat → BoId → Bufmgr → Except Fault Bufmgr :=
  processWith fun r => addValidateBuffer2 r.target r.fence

/-- The answer of the `EXECBUFFER` ioctl, and the offsets it has written to the entries. -/
structure ExecReply where
  ioctl : Reply Unit
  offsets : Nat → Nat

def Bo.setOffset (offset : Nat) (bo : Bo) : Bo := { bo with offset64 := offset }

/-- `drm_intel_update_buffer_offsets` and `drm_intel_update_buffer_offsets2`. -/
def updateBufferOffsets (offsets : Nat → Nat) (s : Bufmgr) : Bufmgr :=
  s.execBos.zipIdx.foldl (fun s bi => s.modify bi.1 (Bo.setOffset (offsets bi.2))) s

def Bo.disconnect (bo : Bo) : Bo := { bo with idle := false, validateIndex := -1 }

/-- The loop at the end of the two functions below, and `exec_count = 0`. -/
def disconnectAll (s : Bufmgr) : Bufmgr :=
  { s.execBos.foldl (fun s b => s.modify b Bo.disconnect) s with
    execBos := [], execObjects := { s.execObjects with entries := fun _ => [] } }

def ioctlRet : Reply Unit → Int
  | .ok _ => 0
  | .error e => -e

/-- The debug output of both functions when the batch could not be placed: it prints the
estimate and the exact total, and the exact walk writes to the first object. -/
def reportNoSpace (ioctl : Reply Unit) (s : Bufmgr) : Except Fault Bufmgr :=
  if ioctlRet ioctl = -ENOSPC ∧ s.cfg.debug = true then do
    let (_, s) ← computeBatchSpace (s.execBos.map some) s
    return s
  else .ok s

/-- `drm_intel_gem_bo_exec`. -/
def boExec (b : BoId) (r : ExecReply) (s : Bufmgr) : Except Fault (Int × Bufmgr) :=
  if (s.bos b).hasError then .ok (-ENOMEM, s)
  else s.withLock fun s => do
    let s ← boProcessReloc (s.nextBo + 1) b s
    let s ← addValidateBuffer b s
    let s ← reportNoSpace r.ioctl s
    return (ioctlRet r.ioctl, disconnectAll (updateBufferOffsets r.offsets s))

def I915_EXEC_DEFAULT : Nat := 0
def I915_EXEC_RENDER : Nat := 1
def I915_EXEC_BSD : Nat := 2
def I915_EXEC_BLT : Nat := 3
def I915_EXEC_VEBOX : Nat := 4

/-- The `switch` at the start of `do_exec2`: the ring exists. -/
def ringOk (cfg : Config) (flags : Nat) : Bool :=
  let ring := flags % 8
  if ring = I915_EXEC_BLT then cfg.hasBlt
  else if ring = I915_EXEC_BSD then cfg.hasBsd
  else if ring = I915_EXEC_VEBOX then cfg.hasVebox
  else ring == I915_EXEC_RENDER || ring == I915_EXEC_DEFAULT

/-- `do_exec2`, without the dump of the batch to an AUB file (`aub_exec`). -/
def doExec2 (b : BoId) (flags : Nat) (r : ExecReply) (s : Bufmgr) : Except Fault (Int × Bufmgr) :=
  if !ringOk s.cfg flags then .ok (-EINVAL, s)
  else s.withLock fun s => do
    let s ← boProcessReloc2 (s.nextBo + 1) b s
    let s ← addValidateBuffer2 b false s
    if s.cfg.noExec then return (0, disconnectAll s)
    else do
      let s ← reportNoSpace r.ioctl s
      return (ioctlRet r.ioctl, disconnectAll (updateBufferOffsets r.offsets s))

/-- `_drm_intel_gem_bo_references`. -/
def boReferencesWalk (target : BoId) : Nat → BoId → Bufmgr → Except Fault Bool
  | 0, _, _ => .error .outOfFuel
  | k + 1, b, s =>
      (s.bos b).targets.foldlM (fun found t =>
        if found then .ok true
        else if t = target then .ok true
        else if t = b then .ok false
        else boReferencesWalk target k t s) false

/-- `drm_intel_gem_bo_references`. -/
def boReferences (b target : BoId) (s : Bufmgr) : Except Fault Bool :=
  if (s.bos target).usedAsRelocTarget then boReferencesWalk target (s.nextBo + 1) b s else .ok false

/-! ## The list that is built -/

/-- The relocations out of an object, each with the flag that `fence` reads off it. -/
def relocEdges (fence : Reloc → Bool) (s : Bufmgr) (b : BoId) : List (BoId × Bool) :=
  (s.bos b).relocs.map fun r => (r.target, fence r)

theorem ends_relocEdges (fence : Reloc → Bool) (s : Bufmgr) :
    ends (relocEdges fence s) = fun b => (s.bos b).targets := by
  funext b
  simp [ends, relocEdges, Bo.targets]

/-- The arrays `x` have `n` entries in `a`, and had the sizes of `x₀` when they had none. -/
def ExecObjects.Filled (a : ExecArray) (x₀ : ExecObjects) (n : Nat) (x : ExecObjects) : Prop :=
  (n ≤ x₀.size ∧ n ≤ x₀.room a ∧ x.size = x₀.size ∧ x.room a = x₀.room a)
    ∨ (x₀.size < n ∧ x₀.size ≤ x₀.room a ∧ n ≤ x.size ∧ x.size ≤ x.room a)

/-- There is room for a list of `n` entries: those below `exec_size` are written without a look at the array. -/
def ExecObjects.Fits (a : ExecArray) (n : Nat) (x : ExecObjects) : Prop := min n x.size ≤ x.room a

theorem ExecObjects.Filled.fits {a : ExecArray} {x₀ x : ExecObjects} {n : Nat} (h : ExecObjects.Filled a x₀ n x) :
    x₀.Fits a n := by
  unfold Filled at h
  unfold Fits
  omega

/-- One more entry. -/
theorem ExecObjects.Filled.grow {a : ExecArray} {x₀ x : ExecObjects} {n : Nat} (h : ExecObjects.Filled a x₀ n x) :
    if n < (x.grow a n).room a then ExecObjects.Filled a x₀ (n + 1) (x.grow a n) else ¬ x₀.Fits a (n + 1) := by
  unfold Filled at h ⊢
  unfold ExecObjects.grow Fits
  by_cases hn : n = x.size
  · rw [if_pos hn]
    simp only [Function.update_self]
    have hnew : n < if x.size * 2 = 0 then 5 else x.size * 2 := by split <;> omega
    rw [if_pos hnew]
    exact .inr ⟨by omega, by omega, hnew, le_rfl⟩
  · rw [if_neg hn]
    split
    · omega
    · omega

/-- The manager `s` is `s₀` with the objects `w.1` on the validation list, fenced as `w.2` says. -/
structure Lists (a : ExecArray) (s₀ : Bufmgr) (w : List BoId × (BoId → Bool)) (s : Bufmgr) : Prop where
  rest : { s with bos := s₀.bos, execBos := s₀.execBos, execObjects := s₀.execObjects } = s₀
  nodup : w.1.Nodup
  flagged : ∀ c, w.2 c = true → c ∈ w.1
  bos : ∀ c, s.bos c = if c ∈ w.1 then (s₀.bos c).setIndex (w.1.idxOf c) else s₀.bos c
  execBos : s.execBos = w.1
  objects : s.execObjects.entries a = w.1.map fun c => (s₀.bos c).execObject (w.2 c)
  filled : ExecObjects.Filled a s₀.execObjects w.1.length s.execObjects

/-- The program puts the objects `w.1` on the list if there is room for them, and writes beyond the array else. -/
def Builds (a : ExecArray) (s₀ : Bufmgr) (w : List BoId × (BoId → Bool)) (x : Except Fault Bufmgr) : Prop :=
  (s₀.execObjects.Fits a w.1.length → Returns x (Lists a s₀ w)) ∧
    (¬ s₀.execObjects.Fits a w.1.length → x = .error .badPointer)

namespace Lists

variable {a : ExecArray} {s₀ s : Bufmgr} {w w' : List BoId × (BoId → Bool)}

theorem relocArray (h : Lists a s₀ w s) (c : BoId) : (s.bos c).relocArray = (s₀.bos c).relocArray := by
  rw [h.bos]
  split <;> rfl

theorem relocs (h : Lists a s₀ w s) (c : BoId) : (s.bos c).relocs = (s₀.bos c).relocs := by
  simp only [Bo.relocs, h.relocArray c]

theorem execObject (h : Lists a s₀ w s) (c : BoId) (f : Bool) :
    (s.bos c).execObject f = (s₀.bos c).execObject f := by
  rw [h.bos]
  split <;> rfl

/-- Setting the flag of one entry. -/
theorem modify_fence {l : List BoId} (hl : l.Nodup) (b : BoId) (f : BoId → Bool) (bos : BoId → Bo) :
    (l.map fun c => (bos c).execObject (f c)).modify (l.idxOf b) ExecObject.setFence
      = l.map fun c => (bos c).execObject (Function.update f b true c) := by
  refine List.ext_getElem (by simp) fun i hi hi' => ?_
  have hil : i < l.length := by simpa using hi'
  rw [List.getElem_modify, List.getElem_map, List.getElem_map]
  by_cases he : l.idxOf b = i
  · have hbi : l[i] = b := by subst he; exact List.getElem_idxOf _
    rw [if_pos he, hbi, Function.update_self]
    rfl
  · have hbi : l[i] ≠ b := fun e => he (by rw [← e]; exact hl.idxOf_getElem i hil)
    rw [if_neg he, Function.update_of_ne hbi]

theorem builds (h : Lists a s₀ w s) : Builds a s₀ w (.ok s) :=
  ⟨fun _ => .ok h, fun hfits => absurd h.filled.fits hfits⟩

/-- The next object is put on the list, or met again. -/
theorem add (h : Lists a s₀ w s) {b : BoId} (hb : (s₀.bos b).validateIndex = -1) (fence : Bool) :
    Builds a s₀ (note (b, fence) w) (addValidate a b fence s) := by
  unfold addValidate
  by_cases hin : b ∈ w.1
  · have hidx : (s.bos b).validateIndex = (w.1.idxOf b : Int) := by rw [h.bos, if_pos hin]; rfl
    have hlt : w.1.idxOf b < (s.execObjects.entries a).length := by
      rw [h.objects, List.length_map]
      exact List.idxOf_lt_length_of_mem hin
    rw [if_pos (by rw [hidx]; omega)]
    cases fence with
    | false => simpa [note, hin] using h.builds
    | true =>
        have hnat : (s.bos b).validateIndex.toNat = w.1.idxOf b := by rw [hidx]; rfl
        rw [if_pos rfl]
        simp only [hnat]
        rw [if_pos hlt]
        refine builds ?_
        simp only [note, hin, if_true]
        refine ⟨h.rest, h.nodup, fun c hc => ?_, h.bos, h.execBos, ?_, h.filled⟩
        · by_cases hcb : c = b
          · rw [hcb]; exact hin
          · exact h.flagged c (by simpa [hcb] using hc)
        show Function.update s.execObjects.entries a _ a = _
        rw [Function.update_self, h.objects]
        exact modify_fence h.nodup b w.2 s₀.bos
  · have hidx : (s.bos b).validateIndex = -1 := by rw [h.bos, if_neg hin]; exact hb
    rw [if_neg (by simp [hidx])]
    have hnote : note (b, fence) w = (w.1 ++ [b], if fence then Function.update w.2 b true else w.2) := by
      simp [note, hin]
    rw [hnote]
    have hcount : s.execCount = w.1.length := by rw [Bufmgr.execCount, h.execBos]
    have hflag : w.2 b = false := by simpa using fun e => hin (h.flagged b e)
    have hgrow := h.filled.grow
    rw [← hcount] at hgrow
    have hentries : (s.execObjects.grow a s.execCount).entries = s.execObjects.entries := by
      unfold ExecObjects.grow
      split
      · rfl
      · rfl
    simp only
    by_cases hroom : s.execCount < (s.execObjects.grow a s.execCount).room a
    · rw [if_pos hroom] at hgrow ⊢
      refine builds ⟨h.rest, ?_, fun c hc => ?_, fun c => ?_, ?_, ?_, ?_⟩
      · exact List.nodup_append.mpr ⟨h.nodup, by simp, fun a ha c hc => by
          rw [List.mem_singleton.mp hc]
          rintro rfl
          exact hin ha⟩
      · by_cases hcb : c = b
        · simp [hcb]
        · have hcw : w.2 c = true := by cases fence <;> simpa [hcb] using hc
          exact List.mem_append_left _ (h.flagged c hcw)
      · show (s.modify b (Bo.setIndex s.execCount)).bos c = _
        rw [modify_bos]
        by_cases hcb : c = b
        · subst hcb
          rw [if_pos rfl, if_pos (by simp), h.bos, if_neg hin, hcount, List.idxOf_append_of_notMem hin]
          simp
        · rw [if_neg hcb, h.bos]
          by_cases hcw : c ∈ w.1
          · rw [if_pos hcw, if_pos (by simp [hcw]), List.idxOf_append_of_mem hcw]
          · rw [if_neg hcw, if_neg (by simp [hcw, hcb])]
      · show s.execBos ++ [b] = _
        rw [h.execBos]
      · show Function.update _ a _ a = _
        rw [Function.update_self, hentries, h.objects, h.execObject, List.map_append]
        refine congrArg₂ (· ++ ·) (List.map_congr_left fun c hc => ?_) ?_
        · have hcb : c ≠ b := fun e => hin (e ▸ hc)
          cases fence
          · rfl
          · simp only [if_true, Function.update_of_ne hcb]
        · cases fence <;> simp [hflag]
      · rw [hcount] at hgrow
        rw [List.length_append, List.length_singleton, hcount]
        exact hgrow
    · rw [if_neg hroom] at hgrow ⊢
      rw [hcount] at hgrow
      have hlength : (w.1 ++ [b]).length = w.1.length + 1 := List.length_append
      exact ⟨fun hfits => absurd (hlength ▸ hfits) hgrow, fun _ => rfl⟩

/-- The list is empty. -/
theorem start (a : ExecArray) (s : Bufmgr) (hb : s.execBos = []) (ho : s.execObjects.entries a = []) :
    Lists a s ([], fun _ => false) s :=
  ⟨rfl, List.nodup_nil, nofun, fun _ => rfl, hb, ho, .inl ⟨Nat.zero_le _, Nat.zero_le _, rfl, rfl⟩⟩

end Lists

/-- Two parts of a program. -/
theorem Builds.bind {a : ExecArray} {s₀ : Bufmgr} {w w' : List BoId × (BoId → Bool)} {x : Except Fault Bufmgr}
    {f : Bufmgr → Except Fault Bufmgr} (hx : Builds a s₀ w x) (hf : ∀ s, Lists a s₀ w s → Builds a s₀ w' (f s))
    (hlength : w.1.length ≤ w'.1.length) : Builds a s₀ w' (x >>= f) := by
  by_cases hfits : s₀.execObjects.Fits a w.1.length
  · obtain ⟨s, rfl, hs⟩ := hx.1 hfits
    exact hf s hs
  · rw [hx.2 hfits]
    refine ⟨fun hfits' => absurd ?_ hfits, fun _ => rfl⟩
    unfold ExecObjects.Fits at hfits' ⊢
    omega

/-- The walk of the source is the walk over the graph: the validation list is what was visited, as far as
there is room for it. -/
theorem processWith_visit {a : ExecArray} {s₀ : Bufmgr} (fence : Reloc → Bool)
    (hidx : ∀ c, ∀ t ∈ (s₀.bos c).targets, (s₀.bos t).validateIndex = -1) :
    ∀ (k : Nat) (b : BoId) (w w' : List BoId × (BoId → Bool)) (s : Bufmgr),
      visit (relocEdges fence s₀) k b w = some w' → Lists a s₀ w s →
      Builds a s₀ w' (processWith (fun r => addValidate a r.target (fence r)) k b s) := by
  intro k
  induction k with
  | zero => intro b w w' s hv _; cases hv
  | succ k ih =>
      intro b w w' s hv h
      -- the loop over the relocations that are left
      have loop : ∀ (rs : List Reloc) (w w' : List BoId × (BoId → Bool)) (s : Bufmgr),
          (∀ r ∈ rs, r ∈ (s₀.bos b).relocs) →
          (rs.map fun r => (r.target, fence r)).foldlM (fun w e => if e.1 = b then some w
            else (visit (relocEdges fence s₀) k e.1 w).map (note e)) w = some w' → Lists a s₀ w s →
          Builds a s₀ w' (rs.foldlM (fun s r => if r.target = b then .ok s
            else do
              let s ← processWith (fun r => addValidate a r.target (fence r)) k r.target s
              addValidate a r.target (fence r) s) s) := by
        intro rs
        induction rs with
        | nil => intro w w' s _ hv h; cases hv; exact h.builds
        | cons r rs ihrs =>
            intro w w' s hsub hv h
            have hrest := fun x hx => hsub x (List.mem_cons_of_mem r hx)
            rw [List.map_cons, List.foldlM_cons] at hv
            rw [List.foldlM_cons]
            by_cases hr : r.target = b
            · simp only [hr, if_true, Option.bind_eq_bind, Option.bind_some] at hv
              simp only [hr, if_true, ok_bind]
              exact ihrs w w' s hrest hv h
            · simp only [hr, if_false, Option.bind_eq_bind] at hv
              obtain ⟨w₁, hw₁, hv⟩ := Option.bind_eq_some_iff.mp hv
              have hlength := visitLoop_length (visit_length k) hv
              obtain ⟨w₂, hw₂, rfl⟩ := Option.map_eq_some_iff.mp hw₁
              have htarget : (s₀.bos r.target).validateIndex = -1 :=
                hidx b _ (List.mem_map_of_mem (hsub r (List.mem_cons_self ..)))
              simp only [hr, if_false]
              refine Builds.bind (Builds.bind (ih r.target w w₂ s hw₂ h) (fun s₁ h₁ => h₁.add htarget (fence r)) ?_)
                (fun s₂ h₂ => ihrs _ w' s₂ hrest hv h₂) hlength
              exact note_length _ w₂
      unfold processWith
      rw [h.relocArray, h.relocs]
      split
      · rename_i hnone
        have hempty : relocEdges fence s₀ b = [] := by simp [relocEdges, Bo.relocs, hnone]
        rw [visit, hempty] at hv
        cases hv
        exact h.builds
      · exact loop _ w w' s (fun _ hr => hr) hv h

/-- No object is on the validation list. -/
structure Unlisted (s : Bufmgr) : Prop where
  execBos : s.execBos = []
  execObjects : ∀ a, s.execObjects.entries a = []
  index : ∀ b, (s.bos b).allocated = true → (s.bos b).validateIndex = -1

section Build

variable {E : BoId → Prop} {callers : BoId → Nat} {s : Bufmgr} {b : BoId}

/-- The targets of relocations are allocated. -/
theorem Settled.target_alloc (h : Settled E callers s) {a t : BoId} (ht : t ∈ (s.bos a).targets) :
    (s.bos t).allocated = true := by
  obtain ⟨r, hi⟩ := h
  by_cases hta : t = a
  · rw [hta]
    exact hi.graph.alloc_of_out (a := a) (List.ne_nil_of_mem ht)
  · exact hi.graph.alloc_of_pos (hi.graph.target_pos (a := a) ⟨ht, hta⟩)

/-- The array `a` has room for the list of `b`: it is the one that was extended last, or `b` reaches no more
objects than it has entries. -/
def ArrayFits (a : ExecArray) (s : Bufmgr) (b : BoId) : Prop :=
  s.execObjects.size ≤ s.execObjects.room a ∨ ∃ l : List BoId, l.length ≤ s.execObjects.room a
    ∧ ∀ x, Reach (fun c => (s.bos c).targets) b x → x ∈ l

theorem arrayFits_iff {a : ExecArray} {l : List BoId} (hl : l.Nodup)
    (hmem : ∀ x, x ∈ l ↔ Reach (fun c => (s.bos c).targets) b x) :
    ArrayFits a s b ↔ s.execObjects.Fits a l.length := by
  unfold ArrayFits ExecObjects.Fits
  constructor
  · rintro (hsize | ⟨l', hlength, hl'⟩)
    · omega
    · have := (hl.subperm fun x hx => hl' x ((hmem x).mp hx)).length_le
      omega
  · intro hfits
    by_cases hsize : s.execObjects.size ≤ s.execObjects.room a
    · exact .inl hsize
    · exact .inr ⟨l, by omega, fun x hx => (hmem x).mpr hx⟩

/-- The validation list of a batch: what the batch reaches, each object once and behind its
targets, the batch last, and a fence where a relocation asks for one. -/
theorem buildList_spec (h : Settled E callers s) (hu : Unlisted s) (hb : (s.bos b).allocated = true)
    (a : ExecArray) (fence : Reloc → Bool) :
    ∃ l f, Builds a s (l ++ [b], f) (processWith (fun r => addValidate a r.target (fence r)) (s.nextBo + 1) b s >>=
        addValidate a b false)
      ∧ Listed (fun c => (s.bos c).targets) (l ++ [b])
      ∧ (∀ x, x ∈ l ++ [b] ↔ Reach (fun c => (s.bos c).targets) b x)
      ∧ ∀ x, f x = true ↔ Labelled (relocEdges fence s) b x := by
  obtain ⟨r₀, hi₀⟩ := h
  obtain ⟨r, hi, hle⟩ := hi₀.bounded
  have hr : RankedBy (ends (relocEdges fence s)) r := by
    rw [ends_relocEdges]
    exact hi.graph.ranked
  obtain ⟨l, f, hlist, hlisted, hmem, hlab⟩ := listing_spec hr (Nat.lt_succ_of_le (hle b))
  rw [ends_relocEdges] at hlisted hmem
  have hidx : ∀ c, ∀ t ∈ (s.bos c).targets, (s.bos t).validateIndex = -1 := fun c t ht =>
    hu.index t (Settled.target_alloc ⟨r₀, hi₀⟩ ht)
  obtain ⟨w, hw, hnote⟩ := Option.map_eq_some_iff.mp hlist
  have hwalk := processWith_visit fence hidx _ b _ w s hw (Lists.start a s hu.execBos (hu.execObjects a))
  refine ⟨l, f, hwalk.bind (fun s₁ h₁ => ?_) ?_, hlisted, hmem, hlab⟩
  · rw [← hnote]
    exact h₁.add (hu.index b hb) false
  · rw [← hnote]
    exact note_length _ w

/-- A list that was built. -/
theorem buildList_ok (h : Settled E callers s) (hu : Unlisted s) (hb : (s.bos b).allocated = true)
    {a : ExecArray} {fence : Reloc → Bool} {s' : Bufmgr}
    (hbuild : (processWith (fun r => addValidate a r.target (fence r)) (s.nextBo + 1) b s >>=
      addValidate a b false) = .ok s') :
    ∃ l f, Lists a s (l ++ [b], f) s' ∧ Listed (fun c => (s.bos c).targets) (l ++ [b])
      ∧ (∀ x, x ∈ l ++ [b] ↔ Reach (fun c => (s.bos c).targets) b x)
      ∧ ∀ x, f x = true ↔ Labelled (relocEdges fence s) b x := by
  obtain ⟨l, f, hbuilds, hrest⟩ := buildList_spec h hu hb a fence
  refine ⟨l, f, ?_, hrest⟩
  by_cases hfits : s.execObjects.Fits a (l ++ [b]).length
  · obtain ⟨s₁, hs₁, hl⟩ := hbuilds.1 hfits
    obtain rfl := Except.ok.inj (hs₁.symm.trans hbuild)
    exact hl
  · cases (hbuilds.2 hfits).symm.trans hbuild

/-- The list is built, or a write goes beyond the array. -/
theorem buildList_cases (h : Settled E callers s) (hu : Unlisted s) (hb : (s.bos b).allocated = true)
    (a : ExecArray) (fence : Reloc → Bool) :
    (ArrayFits a s b ∧ ∃ s', (processWith (fun r => addValidate a r.target (fence r)) (s.nextBo + 1) b s >>=
        addValidate a b false) = .ok s')
      ∨ (¬ ArrayFits a s b ∧ (processWith (fun r => addValidate a r.target (fence r)) (s.nextBo + 1) b s >>=
        addValidate a b false) = .error .badPointer) := by
  obtain ⟨l, f, hbuilds, hlisted, hmem, -⟩ := buildList_spec h hu hb a fence
  rw [arrayFits_iff hlisted.nodup hmem]
  by_cases hfits : s.execObjects.Fits a (l ++ [b]).length
  · obtain ⟨s', hs', -⟩ := hbuilds.1 hfits
    exact .inl ⟨hfits, s', hs'⟩
  · exact .inr ⟨hfits, hbuilds.2 hfits⟩

end Build

/-! ## What an execution leaves alone -/

/-- The object without what executions and aperture checks write to it. -/
def Bo.hushed (bo : Bo) : Bo :=
  { bo with idle := false, offset64 := 0, validateIndex := 0, includedInCheckAperture := false
            relocTreeSize := 0 }

/-- Nothing has changed that the invariants of the manager read. -/
structure Quiet (s s' : Bufmgr) : Prop where
  rest : { s' with bos := s.bos, execBos := s.execBos, execObjects := s.execObjects } = s
  bos : ∀ c, (s'.bos c).hushed = (s.bos c).hushed

namespace Quiet

variable {s s' s'' : Bufmgr}

theorem refl (s : Bufmgr) : Quiet s s := ⟨rfl, fun _ => rfl⟩

theorem modify (s : Bufmgr) {b : BoId} {f : Bo → Bo} (hf : (f (s.bos b)).hushed = (s.bos b).hushed) :
    Quiet s (s.modify b f) := by
  refine ⟨rfl, fun c => ?_⟩
  rw [modify_bos]
  split
  · rename_i hcb; rw [hcb]; exact hf
  · rfl

theorem lock (h : Quiet s s') : s'.lock = s.lock := (congrArg Bufmgr.lock h.rest :)

theorem inert (h : Quiet s s') : Inert s s' where
  key c := (congrArg Bo.key (h.bos c) :)
  map _ c _ := (congrArg Bo.mapCount (h.bos c) :)
  nextBo := (congrArg Bufmgr.nextBo h.rest :)
  bucketHead := (congrArg Bufmgr.bucketHead h.rest :)
  nameList := (congrArg Bufmgr.nameList h.rest :)
  kernel := (congrArg Bufmgr.kernel h.rest :)

theorem vma (h : Quiet s s') (hv : VmaInv s) : VmaInv s' := by
  obtain ⟨⟨vl, hvl⟩, hlim⟩ := hv
  have ho : s'.vmaOpen = s.vmaOpen := (congrArg Bufmgr.vmaOpen h.rest :)
  have hc : s'.vmaCount = s.vmaCount := (congrArg Bufmgr.vmaCount h.rest :)
  have hm : s'.vmaMax = s.vmaMax := (congrArg Bufmgr.vmaMax h.rest :)
  refine ⟨⟨vl, hvl.congr (congrArg Bufmgr.vmaList h.rest :) h.inert.nextBo ho hc h.inert.allocated
    (fun c => (congrArg Bo.mapCount (h.bos c) :)) (fun c => (congrArg Bo.maps (h.bos c) :))⟩, ?_⟩
  rw [VmaLimit, hm, hc, ho]
  exact hlim

/-- What was done under the lock, seen from outside. -/
theorem unlock (h : Quiet { s with lock := true } s') (hlock : s.lock = false) :
    Quiet s { s' with lock := false } := by
  refine ⟨?_, h.bos⟩
  have hs : { s with lock := false } = s := by rw [← hlock]
  exact (congrArg (fun t : Bufmgr => { t with lock := false }) h.rest :).trans hs

end Quiet

theorem Settled.quiet {E : BoId → Prop} {callers : BoId → Nat} {s s' : Bufmgr} (h : Settled E callers s)
    (hq : Quiet s s') : Settled E callers s' := h.inert hq.inert (hq.vma h.vma)

theorem Lists.quiet {a : ExecArray} {s₀ s : Bufmgr} {w : List BoId × (BoId → Bool)} (h : Lists a s₀ w s) : Quiet s₀ s := by
  refine ⟨h.rest, fun c => ?_⟩
  rw [h.bos]
  split <;> rfl

/-- The object without what an execution writes to it while it is on the list. -/
def Bo.placed (bo : Bo) : Bo := { bo with offset64 := 0, relocTreeSize := 0 }

/-- The offsets are all that an update of the offsets changes. -/
theorem updateBufferOffsets_spec (offsets : Nat → Nat) (s : Bufmgr) :
    { updateBufferOffsets offsets s with bos := s.bos } = s
      ∧ ∀ c, ((updateBufferOffsets offsets s).bos c).setOffset 0 = (s.bos c).setOffset 0 := by
  have loop : ∀ (l : List (BoId × Nat)) (s₁ : Bufmgr), { s₁ with bos := s.bos } = s →
      (∀ c, (s₁.bos c).setOffset 0 = (s.bos c).setOffset 0) →
      let s₂ := l.foldl (fun s bi => s.modify bi.1 (Bo.setOffset (offsets bi.2))) s₁
      { s₂ with bos := s.bos } = s ∧ ∀ c, (s₂.bos c).setOffset 0 = (s.bos c).setOffset 0 := by
    intro l
    induction l with
    | nil => intro s₁ hr hb; exact ⟨hr, hb⟩
    | cons bi l ih =>
        intro s₁ hr hb
        exact ih _ hr fun c => (modify_field (Bo.setOffset 0) s₁ bi.1 c rfl).trans (hb c)
  exact loop _ s rfl fun _ => rfl

/-- Every object on the list is taken off it. -/
theorem disconnect_foldl (l : List BoId) (s : Bufmgr) :
    { l.foldl (fun s b => s.modify b Bo.disconnect) s with bos := s.bos } = s
      ∧ ∀ c, (l.foldl (fun s b => s.modify b Bo.disconnect) s).bos c
          = if c ∈ l then (s.bos c).disconnect else s.bos c := by
  induction l generalizing s with
  | nil => exact ⟨rfl, fun _ => rfl⟩
  | cons b l ih =>
      obtain ⟨hr, hb⟩ := ih (s.modify b Bo.disconnect)
      refine ⟨(congrArg (fun t : Bufmgr => { t with bos := s.bos }) hr :), fun c => ?_⟩
      rw [List.foldl_cons, hb, modify_bos]
      by_cases hcb : c = b
      · subst hcb
        by_cases hcl : c ∈ l <;> simp [hcl, Bo.disconnect]
      · simp [hcb]

/-- The end of an execution: the list is empty again, and no object has an index. -/
theorem disconnectAll_spec {a : ExecArray} {s₀ s : Bufmgr} {l : List BoId} {f : BoId → Bool} (h : Lists a s₀ (l, f) s)
    (hu : Unlisted s₀) {s₁ : Bufmgr} (hr : { s₁ with bos := s.bos } = s)
    (hb : ∀ c, (s₁.bos c).placed = (s.bos c).placed) :
    Unlisted (disconnectAll s₁) ∧ Quiet s₀ (disconnectAll s₁)
      ∧ ∀ c, (disconnectAll s₁).bos c = (s₁.bos c).disconnect ∨ (disconnectAll s₁).bos c = s₁.bos c := by
  have hexec : s₁.execBos = l := (congrArg Bufmgr.execBos hr :).trans h.execBos
  obtain ⟨hdr, hdb⟩ := disconnect_foldl s₁.execBos s₁
  have hbos : ∀ c, (disconnectAll s₁).bos c = if c ∈ l then (s₁.bos c).disconnect else s₁.bos c := by
    intro c
    rw [← hexec]
    exact hdb c
  refine ⟨⟨rfl, fun _ => rfl, fun c hc => ?_⟩, ⟨?_, fun c => ?_⟩, fun c => ?_⟩
  · rw [hbos c] at hc ⊢
    split
    · rfl
    · rename_i hcl
      have hs : s.bos c = s₀.bos c := by rw [h.bos, if_neg hcl]
      have hv : (s₁.bos c).validateIndex = (s.bos c).validateIndex := (congrArg Bo.validateIndex (hb c) :)
      have ha : (s₁.bos c).allocated = (s.bos c).allocated := (congrArg Bo.allocated (hb c) :)
      rw [if_neg hcl, ha, hs] at hc
      rw [hv, hs]
      exact hu.index c hc
  · have e₁ := hdr
    have e₂ := hr
    have e₃ := h.rest
    rw [← e₂, ← e₁] at e₃
    exact e₃
  · rw [hbos c, ← h.quiet.bos c]
    have : (s₁.bos c).hushed = (s.bos c).hushed := (congrArg Bo.hushed (hb c) :)
    split
    · exact this
    · exact this
  · rw [hbos c]
    split
    · exact Or.inl rfl
    · exact Or.inr rfl

section Execute

variable {E : BoId → Prop} {callers : BoId → Nat} {s : Bufmgr} {b : BoId} {a : ExecArray}

/-- What both functions leave.  The size kept in an object is that of before, or recounted; an array that was
extended last still is. -/
structure ExecPost (a : ExecArray) (s : Bufmgr) (r : Int × Bufmgr) : Prop where
  unlisted : Unlisted r.2
  quiet : Quiet s r.2
  unflagged : Unflagged r.2
  trees : ∀ c, (r.2.bos c).relocTreeSize = (s.bos c).relocTreeSize
    ∨ (r.2.bos c).relocTreeSize = int32 (exactTotal s [some c])
  arrays : s.execObjects.size ≤ s.execObjects.room a → r.2.execObjects.size ≤ r.2.execObjects.room a

theorem ExecPost.unlock {ret : Int} {s' : Bufmgr} (h : ExecPost a { s with lock := true } (ret, s'))
    (hlock : s.lock = false) : ExecPost a s (ret, { s' with lock := false }) :=
  ⟨⟨h.unlisted.execBos, h.unlisted.execObjects, h.unlisted.index⟩, h.quiet.unlock hlock, h.unflagged, h.trees, h.arrays⟩

theorem ExecPost.refl (hu : Unlisted s) (hf : Unflagged s) (ret : Int) : ExecPost a s (ret, s) :=
  ⟨hu, Quiet.refl s, hf, fun _ => .inl rfl, id⟩

/-- Behind an allocated object everything is allocated. -/
theorem Settled.reach_alloc (h : Settled E callers s) (hb : (s.bos b).allocated = true) {c : BoId}
    (hc : Reach (fun c => (s.bos c).targets) b c) : (s.bos c).allocated = true := by
  induction hc with
  | refl => exact hb
  | tail _ he _ => exact h.target_alloc he.1

/-- The debug output recounts the first object of the list. -/
theorem reportNoSpace_spec {l : List BoId} {f : BoId → Bool} (h : Settled E callers s) (hf : Unflagged s)
    {s₂ : Bufmgr} (hl : Lists a s (l ++ [b], f) s₂) (hal : ∀ c ∈ l ++ [b], (s.bos c).allocated = true)
    (ioctl : Reply Unit) : Returns (reportNoSpace ioctl s₂) fun s' => { s' with bos := s₂.bos } = s₂
      ∧ ∀ c, s'.bos c = s₂.bos c ∨ s'.bos c = (s₂.bos c).setTreeSize (int32 (exactTotal s [some c])) := by
  unfold reportNoSpace
  split
  · have hset : Settled E callers s₂ := h.quiet hl.quiet
    have hkeep : ∀ {α : Type} (F : Bo → α), (∀ bo i, F (Bo.setIndex i bo) = F bo) →
        ∀ c, F (s₂.bos c) = F (s.bos c) := by
      intro α F hF c
      rw [hl.bos]
      split
      · exact hF _ _
      · rfl
    have hf₂ : Unflagged s₂ := fun c => (hkeep Bo.includedInCheckAperture (fun _ _ => rfl) c).trans (hf c)
    have htotal : ∀ bos, exactTotal s₂ bos = exactTotal s bos := exactTotal_congr (congrArg Bufmgr.nextBo hl.rest :)
      (hkeep Bo.targets fun _ _ => rfl) (hkeep Bo.size fun _ _ => rfl)
    obtain ⟨a, l', hal'⟩ : ∃ a l', l ++ [b] = a :: l' := by
      cases l with
      | nil => exact ⟨b, [], rfl⟩
      | cons a l => exact ⟨a, l ++ [b], rfl⟩
    rw [hal'] at hal
    have hexec : s₂.execBos = a :: l' := hl.execBos.trans hal'
    have hspace : computeBatchSpace (some a :: l'.map some) s₂
        = .ok (uint32 (exactTotal s₂ (some a :: l'.map some)),
          s₂.modify a (Bo.setTreeSize (int32 (exactTotal s₂ [some a])))) :=
      computeBatchSpace_spec hset hf₂ fun c hc => by
      rw [hkeep Bo.allocated fun _ _ => rfl]
      exact hal c (by simpa using hc)
    rw [htotal, htotal] at hspace
    simp only [hexec, List.map_cons, hspace, ok_bind]
    refine .pure ⟨rfl, fun c => ?_⟩
    by_cases hca : c = a
    · right
      rw [hca, modify_self]
    · exact Or.inl (modify_of_ne s₂ hca _)
  · exact .ok ⟨rfl, fun c => Or.inl rfl⟩

/-- The end of both functions, from the list on; `v` are the recounted sizes. -/
theorem finishExec_spec {l : List BoId} {f : BoId → Bool} (hu : Unlisted s) (hf : Unflagged s) {s₂ s₃ : Bufmgr}
    (hl : Lists a s (l ++ [b], f) s₂) (hr : { s₃ with bos := s₂.bos } = s₂) {v : BoId → Int}
    (hv : ∀ c, v c = int32 (exactTotal s [some c]))
    (hbos : ∀ c, (s₃.bos c).setOffset 0 = (s₂.bos c).setOffset 0
      ∨ (s₃.bos c).setOffset 0 = ((s₂.bos c).setTreeSize (v c)).setOffset 0)
    (ret : Int) : ExecPost a s (ret, disconnectAll s₃) := by
  have hplaced : ∀ c, (s₃.bos c).placed = (s₂.bos c).placed := fun c => by
    rcases hbos c with e | e
    · exact (congrArg Bo.placed e :)
    · exact (congrArg Bo.placed e :)
  obtain ⟨hu', hq, hd⟩ := disconnectAll_spec hl hu hr hplaced
  have hkeep : ∀ {α : Type} (F : Bo → α), (∀ bo, F (Bo.disconnect bo) = F bo) →
      ∀ c, F ((disconnectAll s₃).bos c) = F (s₃.bos c) := by
    intro α F hF c
    rcases hd c with e | e
    · rw [e]; exact hF _
    · rw [e]
  have hlist : ∀ {α : Type} (F : Bo → α), (∀ bo i, F (Bo.setIndex i bo) = F bo) →
      ∀ c, F (s₂.bos c) = F (s.bos c) := by
    intro α F hF c
    rw [hl.bos]
    split
    · exact hF _ _
    · rfl
  refine ⟨hu', hq, fun c => ?_, fun c => ?_, fun hsize => ?_⟩
  · show ((disconnectAll s₃).bos c).includedInCheckAperture = false
    rw [hkeep Bo.includedInCheckAperture fun _ => rfl]
    have : (s₃.bos c).includedInCheckAperture = (s₂.bos c).includedInCheckAperture :=
      (congrArg Bo.includedInCheckAperture (hplaced c) :)
    rw [this, hlist Bo.includedInCheckAperture fun _ _ => rfl]
    exact hf c
  · show ((disconnectAll s₃).bos c).relocTreeSize = _ ∨ ((disconnectAll s₃).bos c).relocTreeSize = _
    rw [hkeep Bo.relocTreeSize fun _ => rfl, ← hlist Bo.relocTreeSize fun _ _ => rfl, ← hv]
    rcases hbos c with e | e
    · exact Or.inl (congrArg Bo.relocTreeSize e :)
    · exact Or.inr (congrArg Bo.relocTreeSize e :)
  · show s₃.execObjects.size ≤ s₃.execObjects.room a
    rw [show s₃.execObjects = s₂.execObjects from (congrArg Bufmgr.execObjects hr :)]
    have := hl.filled
    unfold ExecObjects.Filled at this
    omega

/-- Both functions: the list is built as `buildList_spec` says, and taken apart. -/
theorem execute_spec (h : Settled E callers s) (hu : Unlisted s) (hf : Unflagged s)
    (hb : (s.bos b).allocated = true) (fence : Reloc → Bool) (r : ExecReply) {s₂ : Bufmgr}
    (hbuild : (processWith (fun r => addValidate a r.target (fence r)) (s.nextBo + 1) b s >>=
      addValidate a b false) = .ok s₂) :
    (∀ ret, ExecPost a s (ret, disconnectAll s₂))
    ∧ Returns (reportNoSpace r.ioctl s₂ >>= fun s => pure (ioctlRet r.ioctl,
        disconnectAll (updateBufferOffsets r.offsets s))) (ExecPost a s) := by
  obtain ⟨l, f, hl, -, hmem, -⟩ := buildList_ok h hu hb hbuild
  have hal : ∀ c ∈ l ++ [b], (s.bos c).allocated = true := fun c hc => h.reach_alloc hb ((hmem c).mp hc)
  obtain ⟨v, hv⟩ : ∃ v : BoId → Int, ∀ c, v c = int32 (exactTotal s [some c]) := ⟨_, fun _ => rfl⟩
  refine ⟨finishExec_spec hu hf hl rfl hv fun c => Or.inl rfl, ?_⟩
  refine (reportNoSpace_spec h hf hl hal r.ioctl).bind ?_
  rintro s₃ ⟨hr, hbos⟩
  obtain ⟨hr', ho⟩ := updateBufferOffsets_spec r.offsets s₃
  refine .pure (finishExec_spec hu hf hl ?_ hv (fun c => ?_) _)
  · have e := hr
    rw [← hr'] at e
    exact e
  · rw [ho, hv]
    exact (hbos c).imp (congrArg _) (congrArg _)

theorem Unlisted.locked (hu : Unlisted s) : Unlisted { s with lock := true } := ⟨hu.execBos, hu.execObjects, hu.index⟩

/-- `drm_intel_gem_bo_exec` from the list on. -/
theorem boExec_returns (h : Settled E callers s) (hlock : s.lock = false) (hu : Unlisted s)
    (hb : (s.bos b).allocated = true) (r : ExecReply)
    (hfits : (s.bos b).hasError = true ∨ ArrayFits .objects s b) {Q : Int × Bufmgr → Prop}
    (herror : (s.bos b).hasError = true → Q (-ENOMEM, s))
    (hrun : (s.bos b).hasError = false → ∀ s₂, (processWith (fun r => addValidate .objects r.target false) (s.nextBo + 1) b
          { s with lock := true } >>= addValidate .objects b false) = .ok s₂ →
      Returns (reportNoSpace r.ioctl s₂ >>= fun s => pure (ioctlRet r.ioctl,
        disconnectAll (updateBufferOffsets r.offsets s))) fun r => Q (r.1, { r.2 with lock := false })) :
    Returns (boExec b r s) Q := by
  unfold boExec
  split
  · exact .ok (herror (by assumption))
  rename_i hnoerror
  refine Bufmgr.withLock_returns hlock ?_
  rcases buildList_cases (h.setLock true) hu.locked hb .objects fun _ => false with ⟨-, s₂, hbuild⟩ | ⟨hnot, -⟩
  · obtain ⟨s₁, hs₁, hs₂⟩ := exists_of_bind_ok hbuild
    have hs₁ : boProcessReloc (s.nextBo + 1) b { s with lock := true } = .ok s₁ := hs₁
    have hs₂ : addValidateBuffer b s₁ = .ok s₂ := hs₂
    simp only [hs₁, hs₂, ok_bind]
    exact hrun (by simpa using hnoerror) s₂ hbuild
  · exact absurd (hfits.resolve_left hnoerror) hnot

/-- What comes behind two parts that fail. -/
theorem bind_error {α β γ δ : Type} {x : Except Fault α} {f : α → Except Fault β} {g : β → Except Fault γ}
    {k : γ → Except Fault δ} {e : Fault} (h : (x >>= f) = .error e) : ((x >>= fun y => f y >>= g) >>= k) = .error e := by
  rw [← bind_assoc, h]
  rfl

/-- Without room in its array it writes beyond it. -/
theorem boExec_stuck (h : Settled E callers s) (hlock : s.lock = false) (hu : Unlisted s)
    (hb : (s.bos b).allocated = true) (r : ExecReply) (herror : (s.bos b).hasError = false)
    (hfits : ¬ ArrayFits .objects s b) : boExec b r s = .error .badPointer := by
  rcases buildList_cases (h.setLock true) hu.locked hb .objects fun _ => false with ⟨hyes, -⟩ | ⟨-, hbuild⟩
  · exact absurd hyes hfits
  · unfold boExec Bufmgr.withLock boProcessReloc addValidateBuffer
    rw [if_neg (by simp [herror]), if_neg (by simp [hlock])]
    exact bind_error hbuild

theorem boExec_spec (h : Settled E callers s) (hlock : s.lock = false) (hu : Unlisted s) (hf : Unflagged s)
    (hb : (s.bos b).allocated = true) (r : ExecReply) (hfits : (s.bos b).hasError = true ∨ ArrayFits .objects s b) :
    Returns (boExec b r s) (ExecPost .objects s) := by
  refine boExec_returns h hlock hu hb r hfits (fun _ => .refl hu hf _) fun _ s₂ hbuild => ?_
  exact (execute_spec (h.setLock true) hu.locked hf hb (fun _ => false) r hbuild).2.mono fun _ h => h.unlock hlock

theorem boExec_ensures (h : Settled E callers s) (hlock : s.lock = false) (hu : Unlisted s) (hf : Unflagged s)
    (hb : (s.bos b).allocated = true) (r : ExecReply) : Ensures (boExec b r s) (ExecPost .objects s) := by
  by_cases hfits : (s.bos b).hasError = true ∨ ArrayFits .objects s b
  · exact (boExec_spec h hlock hu hf hb r hfits).ensures
  · obtain ⟨herror, hnot⟩ := not_or.mp hfits
    rw [boExec_stuck h hlock hu hb r (by simpa using herror) hnot]
    exact .error

/-- `do_exec2` from the list on. -/
theorem doExec2_returns (h : Settled E callers s) (hlock : s.lock = false) (hu : Unlisted s)
    (hb : (s.bos b).allocated = true) (flags : Nat) (r : ExecReply)
    (hfits : ringOk s.cfg flags = false ∨ ArrayFits .objects2 s b) {Q : Int × Bufmgr → Prop}
    (hring : ringOk s.cfg flags = false → Q (-EINVAL, s))
    (hrun : ringOk s.cfg flags = true → ∀ s₂, (processWith (fun r => addValidate .objects2 r.target r.fence) (s.nextBo + 1) b
          { s with lock := true } >>= addValidate .objects2 b false) = .ok s₂ →
      if s₂.cfg.noExec then Q (0, { disconnectAll s₂ with lock := false })
      else Returns (reportNoSpace r.ioctl s₂ >>= fun s => pure (ioctlRet r.ioctl,
        disconnectAll (updateBufferOffsets r.offsets s))) fun r => Q (r.1, { r.2 with lock := false })) :
    Returns (doExec2 b flags r s) Q := by
  unfold doExec2
  split
  · rename_i hnone
    exact .ok (hring (by simpa using hnone))
  rename_i hsome
  refine Bufmgr.withLock_returns hlock ?_
  rcases buildList_cases (h.setLock true) hu.locked hb .objects2 Reloc.fence with ⟨-, s₂, hbuild⟩ | ⟨hnot, -⟩
  · obtain ⟨s₁, hs₁, hs₂⟩ := exists_of_bind_ok hbuild
    have hs₁ : boProcessReloc2 (s.nextBo + 1) b { s with lock := true } = .ok s₁ := hs₁
    have hs₂ : addValidateBuffer2 b false s₁ = .ok s₂ := hs₂
    simp only [hs₁, hs₂, ok_bind]
    have hrest := hrun (by simpa using hsome) s₂ hbuild
    split
    · rename_i hskip
      rw [if_pos hskip] at hrest
      exact .pure hrest
    · rename_i hsubmit
      rw [if_neg hsubmit] at hrest
      exact hrest
  · exact absurd (hfits.resolve_left (by simpa using hsome)) hnot

theorem doExec2_stuck (h : Settled E callers s) (hlock : s.lock = false) (hu : Unlisted s)
    (hb : (s.bos b).allocated = true) (flags : Nat) (r : ExecReply) (hring : ringOk s.cfg flags = true)
    (hfits : ¬ ArrayFits .objects2 s b) : doExec2 b flags r s = .error .badPointer := by
  rcases buildList_cases (h.setLock true) hu.locked hb .objects2 Reloc.fence with ⟨hyes, -⟩ | ⟨-, hbuild⟩
  · exact absurd hyes hfits
  · unfold doExec2 Bufmgr.withLock boProcessReloc2 addValidateBuffer2
    rw [if_neg (by simp [hring]), if_neg (by simp [hlock])]
    exact bind_error hbuild

theorem doExec2_spec (h : Settled E callers s) (hlock : s.lock = false) (hu : Unlisted s) (hf : Unflagged s)
    (hb : (s.bos b).allocated = true) (flags : Nat) (r : ExecReply)
    (hfits : ringOk s.cfg flags = false ∨ ArrayFits .objects2 s b) :
    Returns (doExec2 b flags r s) (ExecPost .objects2 s) := by
  refine doExec2_returns h hlock hu hb flags r hfits (fun _ => .refl hu hf _) fun _ s₂ hbuild => ?_
  obtain ⟨hskip, hrun⟩ := execute_spec (h.setLock true) hu.locked hf hb Reloc.fence r hbuild
  split
  · exact (hskip 0).unlock hlock
  · exact hrun.mono fun _ h => h.unlock hlock

theorem doExec2_ensures (h : Settled E callers s) (hlock : s.lock = false) (hu : Unlisted s) (hf : Unflagged s)
    (hb : (s.bos b).allocated = true) (flags : Nat) (r : ExecReply) :
    Ensures (doExec2 b flags r s) (ExecPost .objects2 s) := by
  by_cases hfits : ringOk s.cfg flags = false ∨ ArrayFits .objects2 s b
  · exact (doExec2_spec h hlock hu hf hb flags r hfits).ensures
  · obtain ⟨hring, hnot⟩ := not_or.mp hfits
    rw [doExec2_stuck h hlock hu hb flags r (by simpa using hring) hnot]
    exact .error

end Execute

/-! ## References -/

/-- A relocation behind `b` points to `target`. -/
def RefersTo (s : Bufmgr) (b target : BoId) : Prop :=
  ∃ a, Reach (fun c => (s.bos c).targets) b a ∧ target ∈ (s.bos a).targets

theorem boReferencesWalk_spec {s : Bufmgr} {r : BoId → Nat}
    (hr : RankedBy (fun c => (s.bos c).targets) r) (target : BoId) :
    ∀ (k : Nat) (b : BoId), r b < k →
      Returns (boReferencesWalk target k b s) fun found => found = true ↔ RefersTo s b target := by
  intro k
  induction k with
  | zero => intro b hk; exact absurd hk (Nat.not_lt_zero _)
  | succ k ih =>
      intro b hk
      unfold boReferencesWalk
      -- what has been found behind the relocations that were looked at
      refine (Returns.foldlM (I := fun done found => found = true ↔
        ∃ t ∈ done, t = target ∨ (t ≠ b ∧ RefersTo s t target)) (by simp) ?_).mono ?_
      · intro done t rest found hl hfound
        have hmem : t ∈ (s.bos b).targets := by rw [hl]; simp
        have hsplit : (∃ t' ∈ done ++ [t], t' = target ∨ (t' ≠ b ∧ RefersTo s t' target)) ↔
            found = true ∨ t = target ∨ (t ≠ b ∧ RefersTo s t target) := by
          rw [hfound]
          constructor
          · rintro ⟨t', ht', h⟩
            rcases List.mem_append.mp ht' with ht' | ht'
            · exact Or.inl ⟨t', ht', h⟩
            · rw [List.mem_singleton.mp ht'] at h
              exact Or.inr h
          · rintro (⟨t', ht', h⟩ | h)
            · exact ⟨t', List.mem_append_left _ ht', h⟩
            · exact ⟨t, by simp, h⟩
        by_cases hf : found = true
        · rw [if_pos hf]
          exact .ok (by rw [hsplit]; simp [hf])
        rw [if_neg hf]
        by_cases htt : t = target
        · rw [if_pos htt]
          exact .ok (by rw [hsplit]; simp [htt])
        rw [if_neg htt]
        by_cases htb : t = b
        · rw [if_pos htb]
          exact .ok (by rw [hsplit]; simp [hf, htb, show ¬ b = target from htb ▸ htt])
        rw [if_neg htb]
        refine (ih t (lt_of_lt_of_le (hr b t ⟨hmem, htb⟩) (Nat.le_of_lt_succ hk))).mono fun found' h' => ?_
        rw [hsplit, h']
        simp [hf, htt, htb]
      · intro found hfound
        rw [hfound]
        constructor
        · rintro ⟨t, ht, rfl | ⟨hne, a, ha, hta⟩⟩
          · exact ⟨b, Relation.ReflTransGen.refl, ht⟩
          · exact ⟨a, Relation.ReflTransGen.head ⟨ht, hne⟩ ha, hta⟩
        · rintro ⟨a, ha, hta⟩
          rcases (reach_iff_head).mp ha with rfl | ⟨w, ⟨hw, hwb⟩, hwa⟩
          · exact ⟨target, hta, Or.inl rfl⟩
          · exact ⟨w, hw, Or.inr ⟨hwb, a, hwa, hta⟩⟩

/-- The walk is made for an object that has been a target. -/
theorem boReferences_spec {E : BoId → Prop} {callers : BoId → Nat} {s : Bufmgr} (h : Settled E callers s)
    (b target : BoId) : Returns (boReferences b target s) fun found =>
      found = true ↔ (s.bos target).usedAsRelocTarget = true ∧ RefersTo s b target := by
  obtain ⟨r₀, hi₀⟩ := h
  obtain ⟨r, hi, hle⟩ := hi₀.bounded
  unfold boReferences
  split
  · rename_i hu
    refine (boReferencesWalk_spec hi.graph.ranked target _ b (Nat.lt_succ_of_le (hle b))).mono fun found hf => ?_
    rw [hf]
    simp [hu]
  · rename_i hu
    exact .ok (by simp [hu])

end LibDrm.Gem
