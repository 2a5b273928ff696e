/-
# `LibDrm.Gem.Threads` — calls that overlap

Any number of threads share and import objects of one manager.  The calls are
cut where they hold no lock: a step is a locked section, a kernel call outside
of one, or an atomic operation on a reference count.  `Threads` has the calls
that are under way, and the references that nobody is about to drop.

What the threads rely on is that no two live objects have the same kernel
handle and that every live object has an open one (`OneBo`).  It can break in
one place.  `create_from_prime` asks the kernel for the handle before it takes
the lock; if the object that has this handle is released in between, the handle
is closed, and the import goes on with it.  Runs in which that does not happen
keep `OneBo` (`one_bo_per_handle`).
-/
import LibDrm.Gem.Safety

namespace LibDrm.Gem

open Walk

/-! ## The calls under way -/

/-- Where a call stands between two steps. -/
inductive Pc where
  | importing (opened : Bool) (h : Handle) (size : Int) (r : PrimeReply)   -- `FD_TO_HANDLE` has answered
  | tiling (b : BoId) (getTiling : Reply Tiling)                           -- the object is made
  | unref (b : BoId)
  | dropping (b : BoId)       -- `atomic_add_unless` saw the last reference
  | exporting (b : BoId)      -- the object is on the named list
  | flinking (b : BoId)       -- the object had no name
  | stuck                     -- the call waits for the lock that it holds

/-- The call has a reference of its own. -/
def Pc.owns (b : BoId) : Pc → Bool
  | .tiling c _ | .unref c | .dropping c => c == b
  | _ => false

/-- The call was given the object by a caller who keeps a reference. -/
def Pc.uses (b : BoId) : Pc → Bool
  | .exporting c | .flinking c => c == b
  | _ => false

/-- The call was given the handle by the kernel. -/
def Pc.holds (h : Handle) : Pc → Bool
  | .importing true h' _ _ => h' == h
  | _ => false

/-- The manager, the references that the callers keep, and the calls under way. -/
structure Threads where
  mgr : Bufmgr
  callers : BoId → Nat
  calls : List Pc

/-- The references of the callers and of the calls. -/
def owned (callers : BoId → Nat) (calls : List Pc) (b : BoId) : Nat := callers b + calls.countP (Pc.owns b)

/-- A reference may be dropped that no call relies on. -/
def Threads.mayDrop (σ : Threads) (b : BoId) : Bool :=
  decide (0 < σ.callers b) && (!σ.calls.any (Pc.uses b) || decide (1 < σ.callers b))

/-- The call at the place `i`, and the others. -/
def Threads.pick (σ : Threads) (i : Nat) : Option (Pc × List Pc) :=
  σ.calls[i]?.map fun pc => (pc, σ.calls.eraseIdx i)

/-- The manager when `create_from_name` waits for its own lock: `GET_TILING` failed, and the
new object is given up by a call that locks. -/
def nameStuck (name : Nat) (r : NameReply) (s : Bufmgr) : Except Fault (Option Bufmgr) :=
  if s.lock then .ok none
  else do
    let s := { s with lock := true }
    match ← findNamed (fun bo => bo.globalName == name) s with
    | some _ => return none
    | none =>
        match r.gemOpen.answer s.kernel with
        | .error _ => return none
        | .ok (h, o) => do
            let s := { s with kernel := s.kernel.openAs h o }
            match ← findNamed (fun bo => bo.gemHandle == h) s with
            | some _ => return none
            | none =>
                match r.callocOk, r.getTiling with
                | true, .error _ => return some (s.calloc (namedBo name h r.size))
                | _, _ => return none

/-! ## The steps -/

/-- A step of some thread, with the answers it gets. -/
inductive Move where
  /-- `create_from_prime` begins -/
  | fdToHandle (size : Int) (r : PrimeReply)
  | primeLock (i : Nat)
  | getTiling (i : Nat)
  /-- `unreference` begins -/
  | unrefStart (b : BoId)
  | unrefAtomic (i : Nat)
  | unrefLock (i : Nat) (madv : Madvise) (time : Int)
  /-- all of `create_from_name` is one locked section -/
  | createFromName (madv : Madvise) (time : Int) (name : Nat) (r : NameReply)
  /-- `export_to_prime` begins with its locked section -/
  | exportStart (b : BoId)
  | handleToFd (i : Nat) (reply : Reply Unit)
  /-- `flink` begins with a look at the name -/
  | flinkStart (b : BoId)
  | flinkLock (i : Nat) (reply : Reply Nat)
  | reference (b : BoId)
  /-- another process creates and shares an object -/
  | foreign (o : Obj)

/-- The locked section of `create_from_prime` and the step after it. -/
def Threads.primeLock (σ : Threads) (i : Nat) : Option Threads :=
  match σ.pick i with
  | some (.importing opened h size r, rest) =>
      match primeImport opened h size r σ.mgr with
      | .ok (.failed, s) => some ⟨s, σ.callers, rest⟩
      | .ok (.found b, s) => some ⟨s, take σ.callers b, rest⟩
      | .ok (.created b, s) => some ⟨s, σ.callers, .tiling b r.getTiling :: rest⟩
      | .error _ => none
  | _ => none

def Threads.getTiling (σ : Threads) (i : Nat) : Option Threads :=
  match σ.pick i with
  | some (.tiling b (.ok t), rest) =>
      match setInApertureSize b (σ.mgr.modify b (Bo.gotTiling t)) with
      | .ok s => some ⟨s, take σ.callers b, rest⟩
      | .error _ => none
  | some (.tiling b (.error _), rest) => some ⟨σ.mgr, σ.callers, .unref b :: rest⟩
  | _ => none

/-- `assert(refcount > 0)` and `atomic_add_unless(refcount, -1, 1)`. -/
def Threads.unrefAtomic (σ : Threads) (i : Nat) : Option Threads :=
  match σ.pick i with
  | some (.unref b, rest) =>
      if (σ.mgr.bos b).refcount = 0 then none
      else if (σ.mgr.bos b).refcount ≠ 1 then some ⟨σ.mgr.modify b Bo.decRef, σ.callers, rest⟩
      else some ⟨σ.mgr, σ.callers, .dropping b :: rest⟩
  | _ => none

def Threads.unrefLock (σ : Threads) (i : Nat) (madv : Madvise) (time : Int) : Option Threads :=
  match σ.pick i with
  | some (.dropping b, rest) =>
      match boUnreferenceSlow madv time b σ.mgr with
      | .ok s => some ⟨s, σ.callers, rest⟩
      | .error _ => none
  | _ => none

def Threads.createFromName (σ : Threads) (madv : Madvise) (time : Int) (name : Nat) (r : NameReply) :
    Option Threads :=
  match boGemCreateFromName madv time name r σ.mgr with
  | .ok (none, s) => some ⟨s, σ.callers, σ.calls⟩
  | .ok (some b, s) => some ⟨s, take σ.callers b, σ.calls⟩
  | .error _ =>
      match nameStuck name r σ.mgr with
      | .ok (some s) => some ⟨s, σ.callers, .stuck :: σ.calls⟩
      | _ => none

def Threads.handleToFd (σ : Threads) (i : Nat) (reply : Reply Unit) : Option Threads :=
  match σ.pick i with
  | some (.exporting b, rest) => some ⟨(exportEnd b reply σ.mgr).2, σ.callers, rest⟩
  | _ => none

def Threads.flinkLock (σ : Threads) (i : Nat) (reply : Reply Nat) : Option Threads :=
  match σ.pick i with
  | some (.flinking b, rest) =>
      match flinkLocked b reply σ.mgr with
      | .ok r => some ⟨r.2, σ.callers, rest⟩
      | .error _ => none
  | _ => none

def Threads.fdToHandle (σ : Threads) (size : Int) (r : PrimeReply) : Threads :=
  let ((opened, h), s) := primeFdToHandle r σ.mgr
  ⟨s, σ.callers, .importing opened h size r :: σ.calls⟩

def Move.run : Move → Threads → Option Threads
  | .fdToHandle size r, σ => some (σ.fdToHandle size r)
  | .primeLock i, σ => σ.primeLock i
  | .getTiling i, σ => σ.getTiling i
  | .unrefStart b, σ => if σ.mayDrop b then some ⟨σ.mgr, giveUp σ.callers b, .unref b :: σ.calls⟩ else none
  | .unrefAtomic i, σ => σ.unrefAtomic i
  | .unrefLock i madv time, σ => σ.unrefLock i madv time
  | .createFromName madv time name r, σ => σ.createFromName madv time name r
  | .exportStart b, σ =>
      if 0 < σ.callers b then
        match exportBegin b σ.mgr with
        | .ok s => some ⟨s, σ.callers, .exporting b :: σ.calls⟩
        | .error _ => none
      else none
  | .handleToFd i reply, σ => σ.handleToFd i reply
  | .flinkStart b, σ =>
      if 0 < σ.callers b then
        if (σ.mgr.bos b).globalName ≠ 0 then some σ else some ⟨σ.mgr, σ.callers, .flinking b :: σ.calls⟩
      else none
  | .flinkLock i reply, σ => σ.flinkLock i reply
  | .reference b, σ =>
      if 0 < σ.callers b then some ⟨boReference b σ.mgr, take σ.callers b, σ.calls⟩ else none
  | .foreign o, σ =>
      if σ.mgr.kernel.status o = .unborn then
        some ⟨{ σ.mgr with kernel := σ.mgr.kernel.foreign o }, σ.callers, σ.calls⟩
      else none

/-! ## What the threads rely on -/

/-- No two live objects have the same handle, and no live object has a closed one. -/
structure OneBo (s : Bufmgr) : Prop where
  unique : ∀ a b, s.Live a → s.Live b → (s.bos a).gemHandle = (s.bos b).gemHandle → a = b
  opened : ∀ b, s.Live b → ∃ o, s.kernel.objOf (s.bos b).gemHandle = some o

/-- Somebody other than the call that drops its reference leads to the object: a caller or
another call has a reference, to the object or to one that refers to it by relocations. -/
def KeptBy (refs : BoId → Nat) (s : Bufmgr) (c : BoId) : Prop := ∃ d, 0 < refs d ∧ Reach s.relocGraph d c

/-- The last reference of no object is dropped while an import has been given its handle. -/
def Undisturbed : Move → Threads → Prop
  | .unrefLock i _ _, σ => ∀ b rest, σ.pick i = some (.dropping b, rest) → ∀ pc ∈ rest, ∀ c, σ.mgr.Live c →
      pc.holds (σ.mgr.bos c).gemHandle = true → KeptBy (owned σ.callers rest) σ.mgr c
  | _, _ => True

/-- The threads start on a manager that was used by one of them before. -/
def Threads.Init (σ : Threads) : Prop := ∃ σ₀ : Sys, Reachable Clean σ₀ ∧ σ = ⟨σ₀.mgr, σ₀.callers, []⟩

/-- The states that allowed steps lead to. -/
def Threads.Reachable (ok : Move → Threads → Prop) : Threads → Prop :=
  Runs Threads.Init fun σ σ' => ∃ m : Move, ok m σ ∧ m.run σ = some σ'

/-! ## References and handles of the calls -/

section Calls

variable {callers : BoId → Nat} {calls calls' rest : List Pc} {pc : Pc} {b : BoId}

theorem owned_perm (h : calls.Perm calls') : owned callers calls = owned callers calls' := by
  funext b
  rw [owned, owned, h.countP_eq]

theorem owned_take (callers : BoId → Nat) (calls : List Pc) (b : BoId) :
    owned (take callers b) calls = take (owned callers calls) b := by
  funext c
  by_cases hcb : c = b
  · subst hcb
    simp only [owned, take, Function.update_self]
    omega
  · simp only [owned, take, Function.update_of_ne hcb]

/-- A call without a reference. -/
theorem owned_cons_none (h : ∀ b, pc.owns b = false) : owned callers (pc :: rest) = owned callers rest := by
  funext b
  rw [owned, owned, List.countP_cons_of_neg (by simp [h b])]

/-- A call with a reference to `b`. -/
theorem owned_cons_own (h : ∀ c, pc.owns c = (b == c)) :
    owned callers (pc :: rest) = take (owned callers rest) b := by
  funext c
  by_cases hcb : c = b
  · subst hcb
    rw [owned, List.countP_cons_of_pos (by simp [h c])]
    simp only [take, owned, Function.update_self]
    omega
  · rw [owned, List.countP_cons_of_neg (by simpa [h c] using fun e => hcb e.symm)]
    simp only [take, owned, Function.update_of_ne hcb]

/-- A caller hands its reference over to a call. -/
theorem owned_giveUp (hb : 0 < callers b) (h : ∀ c, pc.owns c = (b == c)) :
    owned (giveUp callers b) (pc :: calls) = owned callers calls := by
  rw [owned_cons_own h, ← owned_take]
  congr 1
  funext c
  by_cases hcb : c = b
  · subst hcb
    simp only [take, giveUp, Function.update_self]
    omega
  · simp only [take, giveUp, Function.update_of_ne hcb]

theorem Threads.pick_perm {σ : Threads} {i : Nat} (h : σ.pick i = some (pc, rest)) :
    σ.calls.Perm (pc :: rest) := by
  unfold Threads.pick at h
  cases hi : σ.calls[i]? with
  | none => rw [hi] at h; cases h
  | some x =>
      rw [hi] at h
      cases h
      obtain ⟨hlt, rfl⟩ := List.getElem?_eq_some_iff.mp hi
      exact (List.getElem_cons_eraseIdx_perm hlt).symm

end Calls

/-! ## What the steps do to the handles -/

section Kernel

variable {s : Bufmgr}

theorem putOnNamed_sameKernel (b : BoId) (s : Bufmgr) :
    Ensures (putOnNamed b s) fun s' => s'.kernel = s.kernel := by
  unfold putOnNamed
  split
  · exact .bind_any fun _ => .pure rfl
  · exact .ok rfl

theorem primeImport_sameKernel (opened : Bool) (h : Handle) (size : Int) (r : PrimeReply) (s : Bufmgr) :
    Ensures (primeImport opened h size r s) fun res => res.2.kernel = s.kernel := by
  unfold primeImport Bufmgr.withLock
  split
  · exact .error
  refine Ensures.bind (P := fun res => res.2.kernel = s.kernel) (.bind_any fun found => ?_) fun _ hr => .pure hr
  cases found with
  | some b => exact .pure rfl
  | none =>
      simp only
      split
      · unfold primeNew
        split
        · exact .ok rfl
        · exact .bind (P := fun s' => s'.kernel = s.kernel)
            (.bind_any fun _ => .bind_any fun _ => .pure rfl) fun _ hr => .pure hr
      · exact .pure rfl

theorem primeFdToHandle_grows (r : PrimeReply) (s : Bufmgr) : s.kernel.Grows (primeFdToHandle r s).2.kernel := by
  unfold primeFdToHandle
  cases hopen : r.fdToHandle.answer s.kernel with
  | error e => exact .of_eq rfl
  | ok ho => exact .openAs (r.fdToHandle.valid _ _ _ hopen)

theorem Kernel.openAs_opened {k : Kernel} {h : Handle} {o : Obj} (hd : Handle) (o' : Obj) (ho : k.objOf hd = some o') :
    ∃ o'', (k.openAs h o).objOf hd = some o'' := by
  by_cases hh : hd = h
  · exact ⟨o, by rw [hh, Kernel.openAs_self]⟩
  · exact ⟨o', by rw [Kernel.openAs_of_ne hh, ho]⟩

/-- `FD_TO_HANDLE` opens a handle at most. -/
theorem primeFdToHandle_same (r : PrimeReply) (s : Bufmgr) :
    (primeFdToHandle r s).2.lock = s.lock ∧ (primeFdToHandle r s).2.bos = s.bos ∧
      ∀ hd o, s.kernel.objOf hd = some o → ∃ o', (primeFdToHandle r s).2.kernel.objOf hd = some o' := by
  unfold primeFdToHandle
  cases hopen : r.fdToHandle.answer s.kernel with
  | error e => exact ⟨rfl, rfl, fun hd o ho => ⟨o, ho⟩⟩
  | ok ho => exact ⟨rfl, rfl, Kernel.openAs_opened⟩

theorem exportEnd_grows (b : BoId) (reply : Reply Unit) (s : Bufmgr) :
    s.kernel.Grows (exportEnd b reply s).2.kernel := by
  cases reply with
  | error e => exact .of_eq rfl
  | ok u => exact .share _ _

theorem flinkLocked_grows (b : BoId) (reply : Reply Nat) (s : Bufmgr) :
    Ensures (flinkLocked b reply s) fun res => s.kernel.Grows res.2.kernel := by
  unfold flinkLocked Bufmgr.withLock
  split
  · exact .error
  refine Ensures.bind (P := fun res => s.kernel.Grows res.2.kernel) ?_ fun _ hr => .pure hr
  cases reply with
  | error e => exact .ok (.of_eq rfl)
  | ok name =>
      refine Ensures.bind (putOnNamed_sameKernel b _) fun s' hs' => .pure ?_
      show s.kernel.Grows s'.kernel
      rw [hs']
      exact .share _ _

theorem gotTiling_eq (b : BoId) (t : Tiling) (s : Bufmgr) :
    Ensures (setInApertureSize b (s.modify b (Bo.gotTiling t))) fun s' =>
      ∃ size, s' = s.modify b (Bo.setTreeSize size ∘ Bo.gotTiling t) := by
  unfold setInApertureSize
  refine .bind_any fun _ => .bind_any fun size => .pure ⟨size, ?_⟩
  rw [modify_modify]

/-- An object that somebody still leads to outlives the release of others. -/
theorem Dropped.kept {E : BoId → Prop} {refs : BoId → Nat} {s s' : Bufmgr} (hd : Dropped s s')
    (h' : Settled E refs s') {c : BoId} (hc : KeptBy refs s c) : 0 < (s'.bos c).refcount := by
  obtain ⟨d, hpos, hr⟩ := hc
  induction hr with
  | refl =>
      rw [h'.count]
      omega
  | @tail a c _ he ih =>
      -- `a` is live, so that its relocations are what they were
      have hsame : (s'.bos a).targets = (s.bos a).targets :=
        congrArg (List.map Reloc.target) (congrArg Bo.relocs (hd.live a ih) :)
      obtain ⟨r, hi⟩ := h'
      refine hi.graph.target_pos (a := a) ⟨?_, he.2⟩
      show c ∈ (s'.bos a).targets
      rw [hsame]
      exact he.1

end Kernel

/-! ## The invariant -/

/-- What a call relies on between two steps. -/
def Pc.Fine (E : BoId → Prop) (callers : BoId → Nat) (k : Kernel) : Pc → Prop
  | .importing true h _ _ => k.Shared h
  | .exporting b => E b ∧ 0 < callers b
  | .flinking b => 0 < callers b
  | _ => True

/-- The manager is in order, and what the calls under way rely on holds. -/
structure Good (E : BoId → Prop) (σ : Threads) : Prop where
  lock : σ.mgr.lock = false
  settled : Settled E (owned σ.callers σ.calls) σ.mgr
  calls : ∀ pc ∈ σ.calls, pc.Fine E σ.callers σ.mgr.kernel

/-- A call has taken the lock twice: nothing that needs the lock happens any more. -/
structure Stuck (σ : Threads) : Prop where
  lock : σ.mgr.lock = true
  one : OneBo σ.mgr
  counted : ∀ b, owned σ.callers σ.calls b ≤ (σ.mgr.bos b).refcount
  allocated : ∀ b, 0 < (σ.mgr.bos b).refcount → (σ.mgr.bos b).allocated = true

theorem Settled.oneBo {E : BoId → Prop} {refs : BoId → Nat} {s : Bufmgr} (h : Settled E refs s) : OneBo s := by
  obtain ⟨r, hi⟩ := h
  obtain ⟨nl, hn⟩ := hi.names
  exact ⟨fun a b ha hb he => hn.handle a b ha.1 hb.1 he, fun b hb => hn.opened b hb.1⟩

/-- The objects that are live were live before, with the same handle, and no handle was closed. -/
theorem OneBo.mono {s s' : Bufmgr} (h : OneBo s)
    (hl : ∀ b, s'.Live b → s.Live b ∧ (s'.bos b).gemHandle = (s.bos b).gemHandle)
    (hk : ∀ hd o, s.kernel.objOf hd = some o → ∃ o', s'.kernel.objOf hd = some o') : OneBo s' := by
  refine ⟨fun a b ha hb he => ?_, fun b hb => ?_⟩
  · rw [(hl a ha).2, (hl b hb).2] at he
    exact h.unique a b (hl a ha).1 (hl b hb).1 he
  · obtain ⟨o, ho⟩ := h.opened b (hl b hb).1
    rw [(hl b hb).2]
    exact hk _ o ho

theorem Pc.Fine.mono {E E' : BoId → Prop} {callers callers' : BoId → Nat} {k k' : Kernel} {pc : Pc}
    (h : pc.Fine E callers k) (hE : ∀ b, E b → E' b) (hc : ∀ b, pc.uses b = true → 0 < callers b → 0 < callers' b)
    (hk : ∀ hd, pc.holds hd = true → k.Shared hd → k'.Shared hd) : pc.Fine E' callers' k' := by
  cases pc with
  | importing opened hd size r =>
      cases opened with
      | true => exact hk hd (by simp [Pc.holds]) h
      | false => trivial
  | exporting b => exact ⟨hE b h.1, hc b (by simp [Pc.uses]) h.2⟩
  | flinking b => exact hc b (by simp [Pc.uses]) h
  | tiling | unref | dropping | stuck => trivial

theorem take_pos {callers : BoId → Nat} {b c : BoId} (h : 0 < callers c) : 0 < take callers b c := by
  by_cases hcb : c = b
  · subst hcb
    simp [take]
  · rwa [take, Function.update_of_ne hcb]

namespace Good

variable {E E' : BoId → Prop} {s s' : Bufmgr} {callers callers' : BoId → Nat} {calls calls' rest : List Pc}
variable {σ σ' : Threads} {i : Nat}

/-- The call at the place `i` may as well be the first one. -/
theorem pick (h : Good E σ) {pc : Pc} (hp : σ.pick i = some (pc, rest)) :
    Good E ⟨σ.mgr, σ.callers, pc :: rest⟩ where
  lock := h.lock
  settled := by
    rw [← owned_perm (Threads.pick_perm hp)]
    exact h.settled
  calls pc' hpc := h.calls pc' ((Threads.pick_perm hp).mem_iff.mpr hpc)

theorem settled_none {pc : Pc} (h : Good E ⟨s, callers, pc :: rest⟩) (hpc : ∀ b, pc.owns b = false) :
    Settled E (owned callers rest) s := by
  have hset : Settled E (owned callers (pc :: rest)) s := h.settled
  rwa [owned_cons_none hpc] at hset

theorem settled_own {pc : Pc} {b : BoId} (h : Good E ⟨s, callers, pc :: rest⟩) (hpc : ∀ c, pc.owns c = (b == c)) :
    Settled E (take (owned callers rest) b) s := by
  have hset : Settled E (owned callers (pc :: rest)) s := h.settled
  rwa [owned_cons_own hpc] at hset

/-- The calls go on with what they have, and new ones may begin. -/
theorem next (h : Good E ⟨s, callers, calls⟩) (hlock : s'.lock = false)
    (hset : Settled E' (owned callers' calls') s') (hE : ∀ b, E b → E' b)
    (hc : ∀ b, 0 < callers b → 0 < callers' b) (hk : s.kernel.Grows s'.kernel)
    (hcalls : ∀ pc ∈ calls', pc ∈ calls ∨ pc.Fine E' callers' s'.kernel) : Good E' ⟨s', callers', calls'⟩ where
  lock := hlock
  settled := hset
  calls pc hpc := (hcalls pc hpc).elim
    (fun hin => (h.calls pc hin).mono hE (fun b _ => hc b) fun hd _ => hk hd) id

/-- ... without new ones. -/
theorem keep (h : Good E ⟨s, callers, calls⟩) (hlock : s'.lock = false)
    (hset : Settled E (owned callers' rest) s') (hc : ∀ b, 0 < callers b → 0 < callers' b)
    (hk : s.kernel.Grows s'.kernel) (hsub : ∀ pc ∈ rest, pc ∈ calls) : Good E ⟨s', callers', rest⟩ :=
  h.next hlock hset (fun _ he => he) hc hk fun pc hpc => Or.inl (hsub pc hpc)

/-- The first call is at another place, which asks for nothing. -/
theorem turn {pc pc' : Pc} (h : Good E ⟨s, callers, pc :: rest⟩) (hlock : s'.lock = false)
    (hset : Settled E (owned callers (pc' :: rest)) s') (hk : s.kernel.Grows s'.kernel)
    (hpc : pc'.Fine E callers s'.kernel) : Good E ⟨s', callers, pc' :: rest⟩ := by
  refine h.next hlock hset (fun _ he => he) (fun _ hb => hb) hk fun x hx => ?_
  rcases List.mem_cons.mp hx with rfl | hx
  · exact Or.inr hpc
  · exact Or.inl (List.mem_cons_of_mem _ hx)

theorem fdToHandle (h : Good E σ) (size : Int) (r : PrimeReply) : Good E (σ.fdToHandle size r) := by
  obtain ⟨hset, hl, hsh⟩ := primeFdToHandle_spec h.settled r
  have hk := primeFdToHandle_grows r σ.mgr
  unfold Threads.fdToHandle
  generalize primeFdToHandle r σ.mgr = res at hset hl hsh hk
  obtain ⟨⟨opened, hd⟩, s'⟩ := res
  refine h.next (hl.trans h.lock) (by rw [owned_cons_none fun _ => rfl]; exact hset) (fun _ he => he)
    (fun _ hb => hb) hk fun pc hpc => ?_
  rcases List.mem_cons.mp hpc with rfl | hpc
  · right
    cases opened with
    | true => exact hsh rfl
    | false => trivial
  · exact Or.inl hpc

theorem primeLock (h : Good E σ) (hs : σ.primeLock i = some σ') : Good E σ' := by
  unfold Threads.primeLock at hs
  split at hs
  · rename_i opened hd size r rest hp
    have hg := h.pick hp
    have hset := hg.settled_none fun _ => rfl
    have hopen : opened = true → σ.mgr.kernel.Shared hd := by
      rintro rfl
      exact hg.calls _ (List.mem_cons_self ..)
    obtain ⟨⟨res, s'⟩, hrun, hlock, hpost⟩ := primeImport_spec hset hg.lock opened hopen size r
    have hk := Kernel.Grows.of_eq (primeImport_sameKernel opened hd size r σ.mgr _ hrun)
    rw [hrun] at hs
    cases res with
    | failed =>
        cases hs
        exact hg.keep hlock hpost (fun _ hb => hb) hk fun _ => List.mem_cons_of_mem _
    | found b =>
        cases hs
        exact hg.keep hlock (by rw [owned_take]; exact hpost) (fun _ => take_pos) hk fun _ => List.mem_cons_of_mem _
    | created b =>
        cases hs
        exact hg.turn hlock (by rw [owned_cons_own fun _ => rfl]; exact hpost.1) hk trivial
  · cases hs

theorem getTiling (h : Good E σ) (hs : σ.getTiling i = some σ') : Good E σ' := by
  unfold Threads.getTiling at hs
  split at hs
  · rename_i b t rest hp
    have hg := h.pick hp
    have hset := hg.settled_own fun _ => rfl
    rw [← owned_take] at hset
    cases hr : setInApertureSize b (σ.mgr.modify b (Bo.gotTiling t)) with
    | error e => rw [hr] at hs; cases hs
    | ok s' =>
        rw [hr] at hs
        cases hs
        obtain ⟨size, rfl⟩ := gotTiling_eq b t σ.mgr _ hr
        have hset' := hset.inert (Inert.modify σ.mgr rfl (Or.inl rfl)) (hset.vma.modify (b := b)
          (f := Bo.setTreeSize size ∘ Bo.gotTiling t) rfl rfl rfl)
        exact hg.keep hg.lock hset' (fun _ => take_pos) (.of_eq rfl) fun _ => List.mem_cons_of_mem _
  · rename_i b e rest hp
    cases hs
    have hg := h.pick hp
    have hset := hg.settled_own fun _ => rfl
    exact hg.turn hg.lock (by rw [owned_cons_own fun _ => rfl]; exact hset) (.of_eq rfl) trivial
  · cases hs

theorem unrefStart (h : Good E σ) {b : BoId} (hb : σ.mayDrop b = true) :
    Good E ⟨σ.mgr, giveUp σ.callers b, .unref b :: σ.calls⟩ := by
  obtain ⟨hpos, hmore⟩ := Bool.and_eq_true_iff.mp hb
  have hpos : 0 < σ.callers b := of_decide_eq_true hpos
  refine ⟨h.lock, ?_, fun pc hpc => ?_⟩
  · rw [owned_giveUp hpos fun _ => rfl]
    exact h.settled
  rcases List.mem_cons.mp hpc with rfl | hpc
  · trivial
  refine (h.calls pc hpc).mono (fun _ he => he) (fun c hu hc => ?_) fun _ _ hs => hs
  show 0 < giveUp σ.callers b c
  by_cases hcb : c = b
  · subst hcb
    have hany : σ.calls.any (Pc.uses c) = true := List.any_eq_true.mpr ⟨pc, ‹pc ∈ σ.calls›, hu⟩
    rw [hany] at hmore
    have : 1 < σ.callers c := by simpa using hmore
    simp only [giveUp, Function.update_self]
    omega
  · rwa [giveUp, Function.update_of_ne hcb]

theorem unrefAtomic (h : Good E σ) (hs : σ.unrefAtomic i = some σ') : Good E σ' := by
  unfold Threads.unrefAtomic at hs
  split at hs
  · rename_i b rest hp
    have hg := h.pick hp
    have hset := hg.settled_own fun _ => rfl
    have hpos : 0 < take (owned σ.callers rest) b b := by simp [take]
    split at hs
    · cases hs
    split at hs
    · rename_i hne
      cases hs
      have hset' := hset.decRef hpos hne
      rw [giveUp_take] at hset'
      exact hg.keep hg.lock hset' (fun _ hb => hb) (.of_eq rfl) fun _ => List.mem_cons_of_mem _
    · cases hs
      exact hg.turn hg.lock (by rw [owned_cons_own fun _ => rfl]; exact hset) (.of_eq rfl) trivial
  · cases hs

/-- The handles that imports were given stay open when no object is released that has one. -/
theorem unrefLock (h : Good E σ) {madv : Madvise} {time : Int} (hu : Undisturbed (.unrefLock i madv time) σ)
    (hs : σ.unrefLock i madv time = some σ') : Good E σ' := by
  unfold Threads.unrefLock at hs
  split at hs
  · rename_i b rest hp
    have hg := h.pick hp
    have hset := hg.settled_own fun _ => rfl
    obtain ⟨s', hrun, hset', hdrop⟩ := boUnreferenceSlow_spec hset hg.lock (b := b) (by simp [take]) madv time
    rw [giveUp_take] at hset'
    rw [hrun] at hs
    cases hs
    refine ⟨(shell_lock hdrop.rest).trans hg.lock, hset', fun pc hpc => ?_⟩
    refine (hg.calls pc (List.mem_cons_of_mem _ hpc)).mono (fun _ he => he) (fun _ _ hb => hb) ?_
    rintro hd hh ⟨o, ho, hst⟩
    refine ⟨o, ?_, by rw [hdrop.closes.status]; exact hst⟩
    rcases hdrop.closes.handles hd with he | ⟨-, c, hc, rfl, h0⟩
    · rw [he]
      exact ho
    · -- the handle was closed with the object `c`, which others could open and so was live
      exfalso
      obtain ⟨r, hi⟩ := hset
      obtain ⟨nl, hn⟩ := hi.names
      have hpos := (hn.member c (hn.shared c o hc ho hst)).2.resolve_right (by simp [idle])
      have := hdrop.kept hset' (hu b rest hp pc hpc c ⟨hc, hpos⟩ hh)
      omega
  · cases hs

theorem handleToFd (h : Good E σ) {reply : Reply Unit} (hs : σ.handleToFd i reply = some σ') : Good E σ' := by
  unfold Threads.handleToFd at hs
  split at hs
  · rename_i b rest hp
    cases hs
    have hg := h.pick hp
    have hset := hg.settled_none fun _ => rfl
    obtain ⟨he, hpos⟩ : E b ∧ 0 < σ.callers b := hg.calls _ (List.mem_cons_self ..)
    have href : 0 < (σ.mgr.bos b).refcount := by
      rw [hset.count, owned]
      omega
    have hnamed : Named σ.mgr b := by
      obtain ⟨r, hi⟩ := hset
      obtain ⟨nl, hn⟩ := hi.names
      exact ⟨nl, hn.list, hn.listed b he href⟩
    obtain ⟨hset', hlock, -⟩ := exportEnd_spec hset href hnamed reply
    exact hg.keep (hlock.trans hg.lock) hset' (fun _ hb => hb) (exportEnd_grows b reply _)
      fun _ => List.mem_cons_of_mem _
  · cases hs

theorem flinkLock (h : Good E σ) {reply : Reply Nat} (hs : σ.flinkLock i reply = some σ') : Good E σ' := by
  unfold Threads.flinkLock at hs
  split at hs
  · rename_i b rest hp
    have hg := h.pick hp
    have hset := hg.settled_none fun _ => rfl
    have hpos : 0 < σ.callers b := hg.calls _ (List.mem_cons_self ..)
    have href : 0 < (σ.mgr.bos b).refcount := by
      rw [hset.count, owned]
      omega
    obtain ⟨r, hrun, ⟨hset', hlock⟩, -⟩ := flinkLocked_spec hset hg.lock href reply
    have hk := flinkLocked_grows b reply σ.mgr _ hrun
    rw [hrun] at hs
    cases hs
    exact hg.keep hlock hset' (fun _ hb => hb) hk fun _ => List.mem_cons_of_mem _
  · cases hs

end Good

/-! ## A call that waits for its own lock -/

theorem OneBo.calloc {s : Bufmgr} {bo : Bo} (h : OneBo s) (hnew : ∀ c, s.Live c → (s.bos c).gemHandle ≠ bo.gemHandle)
    (ho : ∃ o, s.kernel.objOf bo.gemHandle = some o) : OneBo (s.calloc bo) := by
  have hself : (s.calloc bo).bos s.nextBo = bo := by simp [Bufmgr.calloc]
  have hother : ∀ c, c ≠ s.nextBo → (s.calloc bo).bos c = s.bos c := fun c hc => by simp [Bufmgr.calloc, hc]
  have hlive : ∀ c, c ≠ s.nextBo → (s.calloc bo).Live c → s.Live c := fun c hc hl => by
    rwa [Bufmgr.Live, hother c hc] at hl
  refine ⟨fun a b ha hb he => ?_, fun b hb => ?_⟩
  · by_cases hab : a = s.nextBo <;> by_cases hbb : b = s.nextBo
    · rw [hab, hbb]
    · rw [hab, hself, hother b hbb] at he
      exact absurd he.symm (hnew b (hlive b hbb hb))
    · rw [hbb, hself, hother a hab] at he
      exact absurd he (hnew a (hlive a hab ha))
    · rw [hother a hab, hother b hbb] at he
      exact h.unique a b (hlive a hab ha) (hlive b hbb hb) he
  · by_cases hbb : b = s.nextBo
    · rw [hbb, hself]
      exact ho
    · rw [hother b hbb]
      exact h.opened b (hlive b hbb hb)

/-- The lock is held, and the object that was about to be given up is new. -/
theorem Good.nameStuck {E : BoId → Prop} {σ : Threads} (h : Good E σ) {name : Nat} {r : NameReply} {s' : Bufmgr}
    (hs : nameStuck name r σ.mgr = .ok (some s')) : Stuck ⟨s', σ.callers, .stuck :: σ.calls⟩ := by
  obtain ⟨r₁, hi⟩ := h.settled.setLock true
  obtain ⟨nl, hn⟩ := hi.names
  simp only [Gem.nameStuck, h.lock, Bool.false_eq_true, if_false] at hs
  rw [findNamed_eq hi.graph hn, ok_bind] at hs
  split at hs
  · cases hs
  split at hs
  · cases hs
  rename_i hd o hopen
  have hok := r.gemOpen.valid _ _ _ hopen
  obtain ⟨r₂, hi₂⟩ := Settled.openAs ⟨r₁, hi⟩ hok
  have hn₂ : NameOk E [] nl { σ.mgr with lock := true, kernel := σ.mgr.kernel.openAs hd o } :=
    hn.openAs hok rfl rfl rfl
  rw [findNamed_eq hi₂.graph hn₂, ok_bind] at hs
  split at hs
  · cases hs
  rename_i hfind
  have hno : ∀ b ∈ nl, (σ.mgr.bos b).gemHandle ≠ hd := fun b hb => by
    have := List.find?_eq_none.mp hfind b hb
    simpa using this
  split at hs
  · cases hs
    have hnew : ∀ c, σ.mgr.Live c → (σ.mgr.bos c).gemHandle ≠ hd := fun c hc =>
      hn₂.handle_unused Kernel.openAs_self hok.1 hno c hc.1
    refine ⟨rfl, (Settled.oneBo ⟨r₂, hi₂⟩).calloc hnew ⟨o, Kernel.openAs_self⟩, fun b => ?_, fun b hb => ?_⟩
    · have hcount := h.settled.count b
      rw [owned_cons_none fun _ => rfl]
      by_cases hb : b = σ.mgr.nextBo
      · have h0 := hi.graph.unalloc b (hi.graph.fresh b (Nat.le_of_eq hb.symm))
        simp only at h0
        show owned σ.callers σ.calls b ≤ _
        omega
      · simp only [Bufmgr.calloc, Function.update_of_ne hb]
        omega
    · by_cases hbn : b = σ.mgr.nextBo
      · simp [Bufmgr.calloc, hbn, namedBo]
      · simp only [Bufmgr.calloc, Function.update_of_ne hbn] at hb ⊢
        exact hi.graph.alloc_of_pos hb
  · cases hs

namespace Stuck

variable {σ σ' : Threads} {i : Nat}

/-- References may be dropped, and handles opened. -/
theorem next (h : Stuck σ) (hlock : σ'.mgr.lock = σ.mgr.lock)
    (hh : ∀ b, (σ'.mgr.bos b).gemHandle = (σ.mgr.bos b).gemHandle)
    (ha : ∀ b, (σ'.mgr.bos b).allocated = (σ.mgr.bos b).allocated)
    (hr : ∀ b, 0 < (σ'.mgr.bos b).refcount → 0 < (σ.mgr.bos b).refcount)
    (hc : ∀ b, owned σ'.callers σ'.calls b ≤ (σ'.mgr.bos b).refcount)
    (hk : ∀ hd o, σ.mgr.kernel.objOf hd = some o → ∃ o', σ'.mgr.kernel.objOf hd = some o') : Stuck σ' where
  lock := hlock.trans h.lock
  one := h.one.mono (fun b hb => ⟨⟨ha b ▸ hb.1, hr b hb.2⟩, hh b⟩) hk
  counted := hc
  allocated b hb := by
    rw [ha]
    exact h.allocated b (hr b hb)

/-- The calls are others, and have the same references. -/
theorem turn (h : Stuck σ) {s' : Bufmgr} {callers' : BoId → Nat} {calls' : List Pc}
    (hlock : s'.lock = σ.mgr.lock) (hh : ∀ b, (s'.bos b).gemHandle = (σ.mgr.bos b).gemHandle)
    (ha : ∀ b, (s'.bos b).allocated = (σ.mgr.bos b).allocated)
    (hr : ∀ b, (s'.bos b).refcount = (σ.mgr.bos b).refcount)
    (hc : owned callers' calls' = owned σ.callers σ.calls)
    (hk : ∀ hd o, σ.mgr.kernel.objOf hd = some o → ∃ o', s'.kernel.objOf hd = some o') :
    Stuck ⟨s', callers', calls'⟩ := by
  refine h.next hlock hh ha (fun b hb => by rwa [← hr b]) (fun b => ?_) hk
  show owned callers' calls' b ≤ (s'.bos b).refcount
  rw [hc, hr]
  exact h.counted b

theorem getTiling (h : Stuck σ) (hs : σ.getTiling i = some σ') : Stuck σ' := by
  unfold Threads.getTiling at hs
  split at hs
  · rename_i b t rest hp
    cases hr : setInApertureSize b (σ.mgr.modify b (Bo.gotTiling t)) with
    | error e => rw [hr] at hs; cases hs
    | ok s' =>
        rw [hr] at hs
        cases hs
        obtain ⟨size, rfl⟩ := gotTiling_eq b t σ.mgr _ hr
        refine h.turn rfl (fun c => modify_field Bo.gemHandle σ.mgr b c rfl)
          (fun c => modify_field Bo.allocated σ.mgr b c rfl) (fun c => modify_field Bo.refcount σ.mgr b c rfl) ?_
          fun hd o ho => ⟨o, ho⟩
        rw [owned_perm (Threads.pick_perm hp), owned_cons_own fun _ => rfl, owned_take]
  · rename_i b e rest hp
    cases hs
    refine h.turn rfl (fun _ => rfl) (fun _ => rfl) (fun _ => rfl) ?_ fun hd o ho => ⟨o, ho⟩
    rw [owned_perm (Threads.pick_perm hp), owned_cons_own fun _ => rfl, owned_cons_own fun _ => rfl]
  · cases hs

theorem unrefAtomic (h : Stuck σ) (hs : σ.unrefAtomic i = some σ') : Stuck σ' := by
  unfold Threads.unrefAtomic at hs
  split at hs
  · rename_i b rest hp
    have howned : owned σ.callers σ.calls = take (owned σ.callers rest) b := by
      rw [owned_perm (Threads.pick_perm hp), owned_cons_own fun _ => rfl]
    split at hs
    · cases hs
    split at hs
    · cases hs
      refine h.next rfl (fun c => modify_field Bo.gemHandle σ.mgr b c rfl)
        (fun c => modify_field Bo.allocated σ.mgr b c rfl) (fun c hc => ?_) (fun c => ?_) fun hd o ho => ⟨o, ho⟩
      · exact hc.trans_le ((Dropped.decRef σ.mgr b).mono c)
      · have hcount := h.counted c
        rw [howned] at hcount
        show owned σ.callers rest c ≤ ((σ.mgr.modify b Bo.decRef).bos c).refcount
        by_cases hcb : c = b
        · subst hcb
          rw [take, Function.update_self] at hcount
          rw [modify_self]
          show _ ≤ (σ.mgr.bos c).refcount - 1
          omega
        · rw [take, Function.update_of_ne hcb] at hcount
          rwa [modify_of_ne σ.mgr hcb]
    · cases hs
      refine h.turn rfl (fun _ => rfl) (fun _ => rfl) (fun _ => rfl) ?_ fun hd o ho => ⟨o, ho⟩
      rw [howned, owned_cons_own fun _ => rfl]
  · cases hs

theorem handleToFd (h : Stuck σ) {reply : Reply Unit} (hs : σ.handleToFd i reply = some σ') : Stuck σ' := by
  unfold Threads.handleToFd at hs
  split at hs
  · rename_i b rest hp
    cases hs
    have howned : owned σ.callers rest = owned σ.callers σ.calls := by
      rw [owned_perm (Threads.pick_perm hp), owned_cons_none fun _ => rfl]
    cases reply with
    | error e => exact h.turn rfl (fun _ => rfl) (fun _ => rfl) (fun _ => rfl) howned fun hd o ho => ⟨o, ho⟩
    | ok u =>
        refine h.turn rfl (fun c => modify_field Bo.gemHandle σ.mgr b c rfl)
          (fun c => modify_field Bo.allocated σ.mgr b c rfl) (fun c => modify_field Bo.refcount σ.mgr b c rfl)
          howned fun hd o ho => ⟨o, ?_⟩
        simp only [exportEnd, Kernel.share_objOf]
        exact ho
  · cases hs

/-- Nothing that is done without the lock gives an object a handle, or closes one. -/
theorem step (h : Stuck σ) {m : Move} (hm : m.run σ = some σ') : Stuck σ' := by
  have hlock := h.lock
  cases m with
  | fdToHandle size r =>
      cases hm
      obtain ⟨hl, hb, hk⟩ := primeFdToHandle_same r σ.mgr
      refine h.turn hl (fun b => congrArg Bo.gemHandle (congrFun hb b)) (fun b => congrArg Bo.allocated (congrFun hb b))
        (fun b => congrArg Bo.refcount (congrFun hb b)) (owned_cons_none fun _ => rfl) hk
  | primeLock i =>
      simp only [Move.run, Threads.primeLock] at hm
      split at hm
      · simp only [primeImport, Bufmgr.withLock, hlock] at hm
        cases hm
      · cases hm
  | getTiling i => exact h.getTiling hm
  | unrefStart b =>
      simp only [Move.run] at hm
      split at hm
      · rename_i hb
        cases hm
        have hpos : 0 < σ.callers b := of_decide_eq_true (Bool.and_eq_true_iff.mp hb).1
        exact h.turn rfl (fun _ => rfl) (fun _ => rfl) (fun _ => rfl) (owned_giveUp hpos fun _ => rfl)
          fun hd o ho => ⟨o, ho⟩
      · cases hm
  | unrefAtomic i => exact h.unrefAtomic hm
  | unrefLock i madv time =>
      simp only [Move.run, Threads.unrefLock] at hm
      split at hm
      · simp only [boUnreferenceSlow, Bufmgr.locked, hlock] at hm
        cases hm
      · cases hm
  | createFromName madv time name r =>
      simp only [Move.run, Threads.createFromName, boGemCreateFromName, Bufmgr.withLock, nameStuck, hlock] at hm
      cases hm
  | exportStart b =>
      simp only [Move.run, exportBegin, Bufmgr.locked, hlock] at hm
      split at hm <;> cases hm
  | handleToFd i reply => exact h.handleToFd hm
  | flinkStart b =>
      simp only [Move.run] at hm
      split at hm
      · split at hm
        · cases hm
          exact h
        · cases hm
          exact h.turn rfl (fun _ => rfl) (fun _ => rfl) (fun _ => rfl) (owned_cons_none fun _ => rfl)
            fun hd o ho => ⟨o, ho⟩
      · cases hm
  | flinkLock i reply =>
      simp only [Move.run, Threads.flinkLock] at hm
      split at hm
      · simp only [flinkLocked, Bufmgr.withLock, hlock] at hm
        cases hm
      · cases hm
  | reference b =>
      simp only [Move.run] at hm
      split at hm
      · rename_i hpos
        cases hm
        refine h.next rfl (fun c => modify_field Bo.gemHandle σ.mgr b c rfl)
          (fun c => modify_field Bo.allocated σ.mgr b c rfl) (fun c hc => ?_) (fun c => ?_) fun hd o ho => ⟨o, ho⟩
        · by_cases hcb : c = b
          · have := h.counted b
            rw [owned] at this
            rw [hcb]
            omega
          · simp only [boReference, modify_of_ne σ.mgr hcb] at hc
            exact hc
        · have hcount := h.counted c
          show owned (take σ.callers b) σ.calls c ≤ ((σ.mgr.modify b Bo.incRef).bos c).refcount
          rw [owned_take]
          by_cases hcb : c = b
          · subst hcb
            rw [take, Function.update_self, modify_self]
            exact Nat.succ_le_succ hcount
          · rwa [take, Function.update_of_ne hcb, modify_of_ne σ.mgr hcb]
      · cases hm
  | «foreign» o =>
      simp only [Move.run] at hm
      split at hm
      · cases hm
        exact h.turn rfl (fun _ => rfl) (fun _ => rfl) (fun _ => rfl) rfl fun hd o ho => ⟨o, ho⟩
      · cases hm

end Stuck

/-! ## Runs of the threads -/

/-- Every step that releases no object under an import keeps the invariant, or gets stuck. -/
theorem Good.step {E : BoId → Prop} {σ σ' : Threads} (h : Good E σ) {m : Move} (hu : Undisturbed m σ)
    (hm : m.run σ = some σ') : (∃ E', Good E' σ') ∨ Stuck σ' := by
  have hsub : ∀ pc ∈ σ.calls, pc ∈ σ.calls := fun _ hpc => hpc
  cases m with
  | fdToHandle size r =>
      cases hm
      exact Or.inl ⟨E, h.fdToHandle size r⟩
  | primeLock i => exact Or.inl ⟨E, h.primeLock hm⟩
  | getTiling i => exact Or.inl ⟨E, h.getTiling hm⟩
  | unrefStart b =>
      simp only [Move.run] at hm
      split at hm
      · cases hm
        exact Or.inl ⟨E, h.unrefStart ‹_›⟩
      · cases hm
  | unrefAtomic i => exact Or.inl ⟨E, h.unrefAtomic hm⟩
  | unrefLock i madv time => exact Or.inl ⟨E, h.unrefLock hu hm⟩
  | createFromName madv time name r =>
      simp only [Move.run, Threads.createFromName] at hm
      cases hr : boGemCreateFromName madv time name r σ.mgr with
      | error e =>
          rw [hr] at hm
          simp only at hm
          split at hm
          · cases hm
            exact Or.inr (h.nameStuck ‹_›)
          · cases hm
      | ok res =>
          obtain ⟨⟨hl, hset⟩, hk⟩ := boGemCreateFromName_spec h.settled madv time name r _ hr
          obtain ⟨found, s'⟩ := res
          rw [hr] at hm
          cases found with
          | none =>
              cases hm
              exact Or.inl ⟨E, h.keep hl hset (fun _ hb => hb) hk hsub⟩
          | some b =>
              cases hm
              exact Or.inl ⟨E, h.keep hl (by rw [owned_take]; exact hset) (fun _ => take_pos) hk hsub⟩
  | exportStart b =>
      simp only [Move.run] at hm
      split at hm
      · rename_i hpos
        have href : 0 < (σ.mgr.bos b).refcount := by
          rw [h.settled.count, owned]
          omega
        obtain ⟨s', hrun, hset, -, hl, -, hk⟩ := exportBegin_spec h.settled h.lock href
        rw [hrun] at hm
        cases hm
        refine Or.inl ⟨_, h.next hl (by rw [owned_cons_none fun _ => rfl]; exact hset) (fun _ => Or.inl)
          (fun _ hb => hb) (.of_eq hk) fun pc hpc => ?_⟩
        rcases List.mem_cons.mp hpc with rfl | hpc
        · exact Or.inr ⟨Or.inr rfl, hpos⟩
        · exact Or.inl hpc
      · cases hm
  | handleToFd i reply => exact Or.inl ⟨E, h.handleToFd hm⟩
  | flinkStart b =>
      simp only [Move.run] at hm
      split at hm
      · rename_i hpos
        split at hm
        · cases hm
          exact Or.inl ⟨E, h⟩
        · cases hm
          refine Or.inl ⟨E, h.next h.lock (by rw [owned_cons_none fun _ => rfl]; exact h.settled) (fun _ he => he)
            (fun _ hb => hb) (.of_eq rfl) fun pc hpc => ?_⟩
          rcases List.mem_cons.mp hpc with rfl | hpc
          · exact Or.inr hpos
          · exact Or.inl hpc
      · cases hm
  | flinkLock i reply => exact Or.inl ⟨E, h.flinkLock hm⟩
  | reference b =>
      simp only [Move.run] at hm
      split at hm
      · rename_i hpos
        cases hm
        have href : 0 < (σ.mgr.bos b).refcount := by
          rw [h.settled.count, owned]
          omega
        exact Or.inl ⟨E, h.keep h.lock (by rw [owned_take]; exact h.settled.reference href) (fun _ => take_pos)
          (.of_eq rfl) hsub⟩
      · cases hm
  | «foreign» o =>
      simp only [Move.run] at hm
      split at hm
      · rename_i ho
        cases hm
        exact Or.inl ⟨E, h.keep h.lock (h.settled.foreign ho) (fun _ hb => hb) (.foreign _ _) hsub⟩
      · cases hm

/-- In a run of any number of threads in which no object is released under an import, no two
live objects have one handle, and no live object has a closed one. -/
theorem one_bo_per_handle {σ : Threads} (h : Threads.Reachable Undisturbed σ) : OneBo σ.mgr := by
  have hinv : (∃ E, Good E σ) ∨ Stuck σ := by
    refine Runs.induct (I := fun σ => (∃ E, Good E σ) ∨ Stuck σ) ?_ ?_ h
    · rintro σ ⟨σ₀, h₀, rfl⟩
      obtain ⟨hset, hlock, -⟩ := h₀.rest
      exact Or.inl ⟨fun _ => False, hlock, hset, fun pc hpc => nomatch hpc⟩
    · rintro σ σ' (⟨E, hg⟩ | hst) ⟨m, hu, hm⟩
      · exact hg.step hu hm
      · exact Or.inr (hst.step hm)
  rcases hinv with ⟨E, hg⟩ | hst
  · exact hg.settled.oneBo
  · exact hst.one

/-- The kernel answers the handle that the object has, if it has that and is shared. -/
def OpenCall.given (h : Handle) (o : Obj) : OpenCall where
  answer k := if k.status o = .shared ∧ k.objOf h = some o then .ok (h, o) else .error ⟨EINVAL, EINVAL_pos⟩
  valid k h' o' he := by
    split at he
    · rename_i hok
      cases he
      exact ⟨hok.1, Or.inl hok.2⟩
    · cases he

/-- No import is under way when a last reference is dropped. -/
def Move.unhurried : Move → Threads → Bool
  | .unrefLock i _ _, σ => (σ.pick i).all fun p => p.2.all fun pc => match pc with
      | .importing .. => false
      | _ => true
  | _, _ => true

theorem Move.unhurried_undisturbed {m : Move} {σ : Threads} (h : m.unhurried σ = true) : Undisturbed m σ := by
  cases m with
  | unrefLock i madv time =>
      intro b rest hp pc hpc c _ hh
      simp only [Move.unhurried, hp, Option.all_some] at h
      have := List.all_eq_true.mp h pc hpc
      cases pc with
      | importing => cases this
      | tiling | unref | dropping | exporting | flinking | stuck => cases hh
  | _ => trivial

/-- A list of moves that `ok` allows. -/
def playMoves (ok : Move → Threads → Bool) (σ : Threads) (ms : List Move) : Option Threads :=
  ms.foldlM (fun σ m => if ok m σ then m.run σ else none) σ

theorem playMoves_reachable {ok : Move → Threads → Bool} {P : Move → Threads → Prop}
    (hok : ∀ m σ, ok m σ = true → P m σ) : ∀ (ms : List Move) {σ σ' : Threads}, Threads.Reachable P σ →
      playMoves ok σ ms = some σ' → Threads.Reachable P σ'
  | [], σ, σ', h, hp => by
      cases hp
      exact h
  | m :: ms, σ, σ', h, hp => by
      rw [playMoves, List.foldlM_cons] at hp
      obtain ⟨σ₁, h₁, hp⟩ := Option.bind_eq_some_iff.mp hp
      split at h₁
      · exact playMoves_reachable hok ms (.step h ⟨m, hok m σ ‹_›, h₁⟩) hp
      · cases h₁

/-- One object, which was exported. -/
def exported : List Call := [.alloc 4096 false (.simple 1 1), .exportToPrime 0 (.ok ())]

/-- The answers to an import of this object. -/
def PrimeReply.again : PrimeReply := ⟨.given 1 1, 0, true, 4096, .ok ⟨0, 0, 0⟩⟩

/-- A run of threads after a run of one of them, and what was seen at its end. -/
theorem playMoves_any {ok : Move → Threads → Bool} {P : Move → Threads → Prop} (hok : ∀ m σ, ok m σ = true → P m σ)
    {cs : List Call} {ms : List Move} {p : Threads → Bool}
    (h : (playAll Call.clean {} .empty cs).any (fun σ => (playMoves ok ⟨σ.mgr, σ.callers, []⟩ ms).any p) = true) :
    ∃ σ, Threads.Reachable P σ ∧ p σ = true := by
  obtain ⟨σ₀, -, h₀, hany⟩ := playAll_any KernelOk.empty h
  cases hp : playMoves ok ⟨σ₀.mgr, σ₀.callers, []⟩ ms with
  | none => rw [hp] at hany; cases hany
  | some σ =>
      rw [hp] at hany
      exact ⟨σ, playMoves_reachable hok ms (.init ⟨σ₀, h₀, rfl⟩) hp, hany⟩

/-- Two threads import the object while its owner gives it up: they share one. -/
theorem one_bo_per_handle_imports : ∃ σ, Threads.Reachable Undisturbed σ
    ∧ ((σ.mgr.bos 0).refcount = 2 ∧ σ.mgr.nextBo = 1) ∧ OneBo σ.mgr := by
  have hrun : (playAll Call.clean {} .empty exported).any (fun σ =>
      (playMoves Move.unhurried ⟨σ.mgr, σ.callers, []⟩ [.fdToHandle 4096 .again, .fdToHandle 4096 .again,
        .unrefStart 0, .primeLock 1, .unrefAtomic 0, .primeLock 0]).any fun σ =>
          decide ((σ.mgr.bos 0).refcount = 2 ∧ σ.mgr.nextBo = 1)) = true := by decide +kernel
  obtain ⟨σ, h, hp⟩ := playMoves_any (fun _ _ => Move.unhurried_undisturbed) hrun
  exact ⟨σ, h, of_decide_eq_true hp, one_bo_per_handle h⟩

/-- A thread is given the handle of the object, and another one releases the object before the
first has the lock: the import makes a new object with the closed handle. -/
theorem lateImport_not_oneBo : ∃ σ, Threads.Reachable (fun _ _ => True) σ ∧ ¬ OneBo σ.mgr := by
  have hrun : (playAll Call.clean {} .empty exported).any (fun σ =>
      (playMoves (fun _ _ => true) ⟨σ.mgr, σ.callers, []⟩ [.fdToHandle 4096 .again, .unrefStart 0, .unrefAtomic 0,
        .unrefLock 0 (fun _ => true) 7, .primeLock 0]).any fun σ =>
          decide (σ.mgr.Live 1 ∧ σ.mgr.kernel.objOf (σ.mgr.bos 1).gemHandle = none)) = true := by decide +kernel
  obtain ⟨σ, h, hp⟩ := playMoves_any (fun _ _ _ => trivial) hrun
  obtain ⟨hlive, hnone⟩ := of_decide_eq_true hp
  refine ⟨σ, h, fun hone => ?_⟩
  obtain ⟨o, ho⟩ := hone.opened 1 hlive
  rw [hnone] at ho
  cases ho

end LibDrm.Gem
