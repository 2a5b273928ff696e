/-
# `LibDrm.Nouveau.Import` — the device lock in the calls that import a buffer

Three calls look for a buffer on the list of the device, and make one if it is not there:

    nouveau_bo_wrap              by a handle
    nouveau_bo_name_ref          by a name; GEM_OPEN says the handle
    nouveau_bo_prime_handle_ref  by a file; the kernel says the handle

Here a call is run as a whole, with the pointer that it writes to.  The lock is taken at the begin
and given back on every way out, except for that of a GEM_OPEN that fails
(`import_released_open`).  When the buffer cannot be made after GEM_OPEN, the name is written to what
the pointer held before.
-/
import LibDrm.Nouveau.Bo

namespace LibDrm.Nouveau

def ENOMEM : Int := 12

/-! ## Calls -/

/-- `pthread_mutex_lock`, of a lock that is free. -/
def Threads.acquire (σ : Threads) : Except Fault Threads := do
  enabled (!σ.lock)
  return { σ with lock := true }

def Threads.release (σ : Threads) : Threads := { σ with lock := false }

/-- What the kernel and `calloc` answer: GEM_OPEN or `drmPrimeFDToHandle`, with the handle, and GEM_INFO. -/
structure Answers where
  ret : Int := 0
  handle : Handle
  info : Int := 0
  alloc : Bool := true

/-- What a call returns, and what is in the pointer after it. -/
abbrev Result := Int × Option BoId

/-- `nouveau_bo_wrap_locked`. -/
def nouveau_bo_wrap_locked (handle : Handle) (info : Int) (alloc : Bool) (pbo : Option BoId) (σ : Threads) :
    Except Fault (Result × Threads) := do
  let (b, σ) ← wrapLocked handle (info = 0) alloc σ
  match b with
  | some b => return ((0, some b), σ)
  | none => return ((if info ≠ 0 then info else -ENOMEM, pbo), σ)

def nouveau_bo_wrap (handle : Handle) (a : Answers) (pbo : Option BoId) (σ : Threads) :
    Except Fault (Result × Threads) := do
  let σ ← σ.acquire
  let (r, σ) ← nouveau_bo_wrap_locked handle a.info a.alloc pbo σ
  return (r, σ.release)

/-- Writing the name of what the pointer holds. -/
def setName (name : Nat → Nat) (pbo : Option BoId) (σ : Threads) : Except Fault Threads :=
  match pbo with
  | none => .error .badPointer
  | some b => do
      let bo ← σ.touch b
      return σ.setBo b { bo with name := name bo.name }

def nouveau_bo_name_ref (name : Nat) (a : Answers) (pbo : Option BoId) (σ : Threads) :
    Except Fault (Result × Threads) := do
  let σ ← σ.acquire
  let found ← findBo (fun bo => bo.name = name) σ σ.boList
  match found with
  | some b => do
      let σ ← atomicInc b σ
      return ((0, some b), σ.release)
  | none =>
      if a.ret = 0 then do
        let σ := { σ with opened := Function.update σ.opened a.handle true }
        let ((ret, pbo), σ) ← nouveau_bo_wrap_locked a.handle a.info a.alloc pbo σ
        let σ ← setName (fun _ => name) pbo σ
        return ((ret, pbo), σ.release)
      else
        -- no unlock here
        return ((a.ret, pbo), σ)

/-- `nouveau_bo_del`, when no other thread is about. -/
def nouveau_bo_del (b : BoId) (σ : Threads) : Except Fault Threads := do
  let bo ← σ.touch b
  let σ ← σ.acquire
  if bo.name ≠ 0 ∧ bo.refcnt ≠ 0 then return σ.release
  else
    let σ := (σ.close b bo.handle).release
    return { σ with boList := σ.boList.erase b, bo := Function.update σ.bo b none }

/-- `nouveau_bo_ref(NULL, pbo)`. -/
def dropRef (pbo : Option BoId) (σ : Threads) : Except Fault Threads :=
  match pbo with
  | none => .ok σ
  | some b => do
      let bo ← σ.touch b
      let σ := σ.setBo b { bo with refcnt := bo.refcnt - 1 }
      if bo.refcnt = 1 then nouveau_bo_del b σ else return σ

/-- The rest of `nouveau_bo_prime_handle_ref`, where the pointer is NULL. -/
def primeLocked (a : Answers) (σ : Threads) : Except Fault (Result × Threads) := do
  let σ ← σ.acquire
  if a.ret = 0 then do
    let σ := { σ with opened := Function.update σ.opened a.handle true }
    let ((ret, pbo), σ) ← nouveau_bo_wrap_locked a.handle a.info a.alloc none σ
    if ret = 0 then do
      let σ ← setName (fun name => if name = 0 then primeName else name) pbo σ
      return ((ret, pbo), σ.release)
    else return ((ret, pbo), σ.release)
  else return ((a.ret, none), σ.release)

def nouveau_bo_prime_handle_ref (a : Answers) (pbo : Option BoId) (σ : Threads) : Except Fault (Result × Threads) := do
  let σ ← dropRef pbo σ
  primeLocked a σ

inductive Import
  | wrap (handle : Handle)
  | nameRef (name : Nat)
  | primeHandleRef

def Import.run (a : Answers) (pbo : Option BoId) (σ : Threads) : Import → Except Fault (Result × Threads)
  | .wrap handle => nouveau_bo_wrap handle a pbo σ
  | .nameRef name => nouveau_bo_name_ref name a pbo σ
  | .primeHandleRef => nouveau_bo_prime_handle_ref a pbo σ

/-- The device without the reference that the pointer of `nouveau_bo_prime_handle_ref` held. -/
def Import.start (pbo : Option BoId) (σ : Threads) : Import → Except Fault Threads
  | .primeHandleRef => dropRef pbo σ
  | _ => .ok σ

/-! ## The contract -/

/-- The buffer is on the list, and has a reference. -/
def Live (b : BoId) (σ : Threads) : Prop := b ∈ σ.boList ∧ ∃ bo, σ.bo b = some bo ∧ 0 < bo.refcnt

/-- What is promised of an import into a pointer that holds `pbo`, to a device `σ`. -/
structure Imported (pbo : Option BoId) (σ : Threads) (r : Result) (σ' : Threads) : Prop where
  lock : σ'.lock = false
  live : r.1 = 0 → ∃ b, r.2 = some b ∧ Live b σ'
  kept : r.1 ≠ 0 → r.2 = pbo ∨ r.2 = none
  failed : r.1 ≠ 0 → σ'.boList = σ.boList ∧ ∀ b ∈ σ.boList, σ'.bo b = σ.bo b

/-- The buffers of the list are there. -/
def Filled (σ : Threads) : Prop := ∀ b ∈ σ.boList, ∃ bo, σ.bo b = some bo ∧ 0 ≤ bo.refcnt

/-- The lock is free, and the list is in order. -/
structure Ready (σ : Threads) : Prop where
  lock : σ.lock = false
  nodup : σ.boList.Nodup
  filled : Filled σ

/-- What the pointer may hold: NULL, or for `nouveau_bo_prime_handle_ref` a live buffer; the others do not look at it,
    and it may point to no buffer. -/
def Import.Takes (pbo : Option BoId) (σ : Threads) : Import → Prop
  | .primeHandleRef => ∀ b, pbo = some b → Live b σ
  | _ => ∀ b, pbo = some b → b ∈ σ.boList ∨ σ.bo b = none

/-- There is a buffer like that on the list. -/
def OnList (p : Bo → Bool) (σ : Threads) : Prop := ∃ b ∈ σ.boList, ∃ bo, σ.bo b = some bo ∧ p bo = true

/-- The handle is that of a buffer on the list, or GEM_INFO and `calloc` succeed. -/
def Wrapped (handle : Handle) (info : Int) (alloc : Bool) (σ : Threads) : Prop :=
  OnList (fun bo => bo.handle = handle) σ ∨ info = 0 ∧ alloc = true

/-- There is a buffer with the name on the list, or GEM_OPEN and what follows it succeed. -/
def Import.Served (a : Answers) (σ : Threads) : Import → Prop
  | .nameRef name => OnList (fun bo => bo.name = name) σ ∨ a.ret = 0 ∧ Wrapped a.handle a.info a.alloc σ
  | _ => True

variable {σ σ' : Threads} {a : Answers} {pbo : Option BoId} {b c : BoId} {bo : Bo} {p : Bo → Bool} {handle : Handle}
  {info : Int} {alloc : Bool}

/-! ## The sections -/

theorem touch_eq (hb : σ.bo b = some bo) : σ.touch b = .ok bo := by
  unfold Threads.touch
  rw [hb]

theorem acquire_eq (h : σ.lock = false) : σ.acquire = .ok { σ with lock := true } := by
  unfold Threads.acquire enabled
  rw [h]
  rfl

theorem acquire_returns (h : σ.lock = false) : Returns σ.acquire fun σ' => σ' = { σ with lock := true } :=
  ⟨_, acquire_eq h, rfl⟩

/-- The search finds a buffer like that, if there is one. -/
theorem findBo_returns {l : List BoId} (h : ∀ b ∈ l, ∃ bo, σ.bo b = some bo) :
    Returns (findBo p σ l) fun found => match found with
      | some b => b ∈ l ∧ ∃ bo, σ.bo b = some bo ∧ p bo = true
      | none => ∀ b ∈ l, ∀ bo, σ.bo b = some bo → p bo = false := by
  induction l with
  | nil => exact .ok fun b hb => absurd hb List.not_mem_nil
  | cons b l ih =>
      obtain ⟨bo, hb⟩ := h b List.mem_cons_self
      rw [findBo, touch_eq hb]
      show Returns (if p bo = true then pure (some b) else findBo p σ l) _
      split
      · next hp => exact .pure ⟨List.mem_cons_self, bo, hb, hp⟩
      · next hp =>
        refine (ih fun d hd => h d (List.mem_cons_of_mem b hd)).mono ?_
        rintro (_ | d) hd
        · intro d hmem x hx
          rcases List.mem_cons.mp hmem with rfl | hmem
          · cases hb.symm.trans hx
            simpa using hp
          · exact hd d hmem x hx
        · exact ⟨List.mem_cons_of_mem b hd.1, hd.2⟩

theorem search_returns (h : Filled σ) :
    Returns (findBo p σ σ.boList) fun found => match found with
      | some b => b ∈ σ.boList ∧ ∃ bo, σ.bo b = some bo ∧ p bo = true
      | none => ¬ OnList p σ := by
  refine (findBo_returns fun b hb => (h b hb).imp fun _ hbo => hbo.1).mono ?_
  rintro (_ | b) hb
  · rintro ⟨c, hc, bo, hbo, hp⟩
    rw [hb c hc bo hbo] at hp
    cases hp
  · exact hb

/-- A buffer of the list gets a reference. -/
theorem atomicInc_returns (h : Filled σ) (hb : b ∈ σ.boList) :
    Returns (atomicInc b σ) fun σ' => Live b σ' ∧ σ'.lock = σ.lock := by
  obtain ⟨bo, hbo, hrefcnt⟩ := h b hb
  refine ⟨σ.setBo b { bo with refcnt := bo.refcnt + 1 }, ?_, ⟨hb, _, Function.update_self .., ?_⟩, rfl⟩
  · unfold atomicInc
    rw [touch_eq hbo]
    rfl
  · show 0 < bo.refcnt + 1
    omega

/-- A buffer is wrapped, or nothing is changed. -/
theorem wrap_locked_returns (h : Filled σ) :
    Returns (nouveau_bo_wrap_locked handle info alloc pbo σ) fun r =>
      (Wrapped handle info alloc σ ∧ r.1.1 = 0 ∧ ∃ b, r.1.2 = some b ∧ Live b r.2 ∧ r.2.lock = σ.lock) ∨
        (¬ Wrapped handle info alloc σ ∧ r.1.1 ≠ 0 ∧ r.1.2 = pbo ∧ r.2 = σ) := by
  obtain ⟨found, hfound, hspec⟩ := @search_returns σ (fun bo => bo.handle = handle) h
  unfold nouveau_bo_wrap_locked wrapLocked
  rw [hfound]
  cases found with
  | some b =>
      obtain ⟨hmem, hhas⟩ := hspec
      obtain ⟨σ', hinc, hlive, hlock⟩ := atomicInc_returns h hmem
      refine ⟨((0, some b), σ'), ?_, .inl ⟨.inl ⟨b, hmem, hhas⟩, rfl, b, rfl, hlive, hlock⟩⟩
      show ((atomicInc b σ >>= fun σ => pure (some b, σ)) >>= _) = _
      rw [hinc]
      rfl
  | none =>
      by_cases hmade : info = 0 ∧ alloc = true
      · have hlive : Live σ.fresh
            { σ.setBo σ.fresh { handle } with fresh := σ.fresh + 1, boList := σ.fresh :: σ.boList } :=
          ⟨List.mem_cons_self, { handle }, Function.update_self .., Int.one_pos⟩
        refine ⟨((0, some σ.fresh), _), ?_, .inl ⟨.inr hmade, rfl, σ.fresh, rfl, hlive, rfl⟩⟩
        obtain ⟨rfl, rfl⟩ := hmade
        rfl
      · refine ⟨((if info ≠ 0 then info else -ENOMEM, pbo), σ), ?_, .inr ⟨?_, ?_, rfl, rfl⟩⟩
        · have hnot : (decide (info = 0) && alloc) = false := by
            rw [Bool.and_eq_false_iff, decide_eq_false_iff_not]
            rw [not_and_or, Bool.not_eq_true] at hmade
            exact hmade
          show ((if (decide (info = 0) && alloc) = true then _ else _ : Except Fault (Option BoId × Threads)) >>= _) = _
          rw [if_neg (by rw [hnot]; exact Bool.false_ne_true)]
          rfl
        · exact not_or.mpr ⟨hspec, hmade⟩
        · show (if info ≠ 0 then info else -ENOMEM) ≠ 0
          split
          · next hinfo => exact hinfo
          · decide

theorem setName_eq {name : Nat → Nat} (hb : σ.bo b = some bo) :
    setName name (some b) σ = .ok (σ.setBo b { bo with name := name bo.name }) := by
  show (σ.touch b >>= fun bo => pure (σ.setBo b { bo with name := name bo.name })) = _
  rw [touch_eq hb]
  rfl

theorem setName_error {name : Nat → Nat} (hb : σ.bo b = none) : setName name (some b) σ = .error (.freed b) := by
  have htouch : σ.touch b = .error (.freed b) := by
    unfold Threads.touch
    rw [hb]
  show (σ.touch b >>= fun bo => pure (σ.setBo b { bo with name := name bo.name })) = _
  rw [htouch]
  rfl

theorem Live.setName {name : Nat → Nat} (h : Live b σ) :
    Returns (setName name (some b) σ) fun σ' => Live b σ' ∧ σ'.lock = σ.lock := by
  obtain ⟨hmem, bo, hbo, hrefcnt⟩ := h
  exact ⟨_, setName_eq hbo, ⟨hmem, _, Function.update_self .., hrefcnt⟩, rfl⟩

/-! ## The calls -/

theorem nouveau_bo_wrap_imported (h : Ready σ) :
    Returns (nouveau_bo_wrap handle a pbo σ) fun r => Imported pbo σ r.1 r.2 := by
  have hfilled : Filled { σ with lock := true } := h.filled
  refine (acquire_returns h.lock).bind ?_
  rintro _ rfl
  refine (wrap_locked_returns hfilled).bind ?_
  rintro ⟨⟨ret, pbo'⟩, σ'⟩ (⟨-, hret, b, rfl, hlive, -⟩ | ⟨-, hret, hpbo, hsame⟩)
  · exact .pure ⟨rfl, fun _ => ⟨b, rfl, hlive⟩, fun hne => absurd hret hne, fun hne => absurd hret hne⟩
  · obtain rfl : σ' = { σ with lock := true } := hsame
    exact .pure ⟨rfl, fun hzero => absurd hzero hret, fun _ => .inl hpbo, fun _ => ⟨rfl, fun _ _ => rfl⟩⟩

/-- With the name on the list, or a handle that can be wrapped, the call is as promised. -/
theorem nouveau_bo_name_ref_imported {name : Nat} (h : Ready σ) (hserved : (Import.nameRef name).Served a σ) :
    Returns (nouveau_bo_name_ref name a pbo σ) fun r => Imported pbo σ r.1 r.2 := by
  have hfilled : Filled { σ with lock := true } := h.filled
  refine (acquire_returns h.lock).bind ?_
  rintro _ rfl
  refine (search_returns hfilled).bind ?_
  rintro (_ | b) hspec
  case some =>
      refine (atomicInc_returns hfilled hspec.1).bind ?_
      rintro σ' ⟨hlive, -⟩
      exact .pure ⟨rfl, fun _ => ⟨b, rfl, hlive⟩, fun hne => absurd rfl hne, fun hne => absurd rfl hne⟩
  case none =>
      obtain ⟨hret, hwrapped⟩ := hserved.resolve_left hspec
      dsimp only
      rw [if_pos hret]
      have hopened : Filled { σ with lock := true, opened := Function.update σ.opened a.handle true } := h.filled
      refine (wrap_locked_returns hopened).bind ?_
      rintro ⟨⟨ret, pbo'⟩, σ'⟩ (⟨-, hzero, b, hb, hlive, -⟩ | ⟨hnot, -⟩)
      · obtain rfl : pbo' = some b := hb
        refine Returns.bind hlive.setName ?_
        rintro σ'' ⟨hlive', -⟩
        exact .pure ⟨rfl, fun _ => ⟨b, rfl, hlive'⟩, fun hne => absurd hzero hne, fun hne => absurd hzero hne⟩
      · exact absurd hwrapped hnot

/-- Without them the lock is kept, or the name goes to what the pointer held. -/
theorem nouveau_bo_name_ref_not_imported {name : Nat} (h : Ready σ) (htakes : (Import.nameRef name).Takes pbo σ)
    (hnot : ¬ (Import.nameRef name).Served a σ) :
    ¬ Returns (nouveau_bo_name_ref name a pbo σ) fun r => Imported pbo σ r.1 r.2 := by
  rintro ⟨r, hr, himported⟩
  obtain ⟨hname, hopen⟩ := not_or.mp hnot
  have hfilled : Filled { σ with lock := true } := h.filled
  obtain ⟨found, hfound, hspec⟩ := @search_returns _ (fun bo => bo.name = name) hfilled
  have hnone : found = none := by
    cases found with
    | none => rfl
    | some b => exact absurd ⟨b, hspec.1, hspec.2⟩ hname
  subst hnone
  unfold nouveau_bo_name_ref at hr
  rw [acquire_eq h.lock] at hr
  change (findBo (fun bo => bo.name = name) { σ with lock := true } σ.boList >>= _) = _ at hr
  rw [hfound] at hr
  change (if a.ret = 0 then _ else _) = _ at hr
  split at hr
  · next hret =>
    -- what cannot be wrapped leaves the pointer as it was
    obtain ⟨⟨⟨ret, pbo'⟩, σ'⟩, hwrap, hspec'⟩ := @wrap_locked_returns
      { σ with lock := true, opened := Function.update σ.opened a.handle true } pbo a.handle a.info a.alloc hfilled
    rcases hspec' with ⟨hwrapped, -⟩ | ⟨-, hne, hpbo, hsame⟩
    · exact absurd ⟨hret, hwrapped⟩ hopen
    obtain rfl : pbo' = pbo := hpbo
    obtain rfl : σ' = _ := hsame
    rw [hwrap] at hr
    obtain ⟨_, hok, hr⟩ := exists_of_bind_ok hr
    cases hok
    obtain ⟨σ'', hset, hr⟩ := exists_of_bind_ok hr
    cases hr
    cases pbo' with
    | none => cases hset
    | some b =>
        rcases htakes b rfl with hmem | hgone
        case inr =>
          have hfreed : setName (fun _ => name) (some b)
              { σ with lock := true, opened := Function.update σ.opened a.handle true } = _ := setName_error hgone
          cases hfreed.symm.trans hset
        obtain ⟨bo, hbo, -⟩ := h.filled b hmem
        have hnamed : setName (fun _ => name) (some b)
            { σ with lock := true, opened := Function.update σ.opened a.handle true } = _ := setName_eq hbo
        cases hnamed.symm.trans hset
        have hsame := (himported.failed hne).2 b hmem
        change Function.update σ.bo b (some { bo with name }) b = σ.bo b at hsame
        rw [Function.update_self, hbo] at hsame
        have hnamed : bo.name = name := (congrArg Bo.name (Option.some.inj hsame)).symm
        exact hname ⟨b, hmem, bo, hbo, decide_eq_true hnamed⟩
  · cases hr
    exact Bool.noConfusion (himported.lock : true = false)

/-- The pointer of `nouveau_bo_prime_handle_ref` lets go of what it held. -/
theorem dropRef_returns (h : Ready σ) (htakes : Import.primeHandleRef.Takes pbo σ) : Returns (dropRef pbo σ) Ready := by
  cases pbo with
  | none => exact .ok h
  | some b =>
      obtain ⟨-, bo, hbo, hrefcnt⟩ := htakes b rfl
      refine Returns.bind ⟨bo, touch_eq hbo, rfl⟩ ?_
      rintro _ rfl
      dsimp only
      split
      · next hone =>
        have hzero : ({ bo with refcnt := bo.refcnt - 1 } : Bo).refcnt = 0 := by
          show bo.refcnt - 1 = 0
          omega
        refine Returns.bind ⟨_, touch_eq (Function.update_self ..), rfl⟩ ?_
        rintro _ rfl
        refine Returns.bind (acquire_returns h.lock) ?_
        rintro _ rfl
        rw [if_neg fun hnot => hnot.2 hzero]
        refine .pure ⟨rfl, h.nodup.erase b, fun c hc => ?_⟩
        have hcb : c ≠ b := fun heq => by
          rw [heq] at hc
          exact h.nodup.not_mem_erase hc
        obtain ⟨x, hx, hpos⟩ := h.filled c (List.mem_of_mem_erase hc)
        refine ⟨x, ?_, hpos⟩
        show Function.update (Function.update σ.bo b (some { bo with refcnt := bo.refcnt - 1 })) b none c = some x
        rw [Function.update_of_ne hcb, Function.update_of_ne hcb, hx]
      · refine .pure ⟨h.lock, h.nodup, fun c hc => ?_⟩
        by_cases hcb : c = b
        · subst hcb
          refine ⟨_, Function.update_self .., ?_⟩
          show 0 ≤ bo.refcnt - 1
          omega
        · obtain ⟨x, hx, hpos⟩ := h.filled c hc
          exact ⟨x, (Function.update_of_ne hcb _ _).trans hx, hpos⟩

theorem primeLocked_imported (h : Ready σ) : Returns (primeLocked a σ) fun r => Imported none σ r.1 r.2 := by
  refine (acquire_returns h.lock).bind ?_
  rintro _ rfl
  split
  · have hopened : Filled { σ with lock := true, opened := Function.update σ.opened a.handle true } := h.filled
    refine (wrap_locked_returns hopened).bind ?_
    rintro ⟨⟨ret, pbo'⟩, σ'⟩ (⟨-, hret, b, hb, hlive, -⟩ | ⟨-, hret, hpbo, hsame⟩)
    · obtain rfl : pbo' = some b := hb
      obtain rfl : ret = 0 := hret
      refine Returns.bind hlive.setName ?_
      rintro σ'' ⟨hlive', -⟩
      exact .pure ⟨rfl, fun _ => ⟨b, rfl, hlive'⟩, fun hne => absurd rfl hne, fun hne => absurd rfl hne⟩
    · obtain rfl : σ' = _ := hsame
      dsimp only
      rw [if_neg hret]
      exact .pure ⟨rfl, fun hzero => absurd hzero hret, fun _ => .inl hpbo, fun _ => ⟨rfl, fun _ _ => rfl⟩⟩
  · next hret =>
    exact .pure ⟨rfl, fun hzero => absurd hzero hret, fun _ => .inl rfl, fun _ => ⟨rfl, fun _ _ => rfl⟩⟩

/-- What is promised of an import, from the state that it compares its list with. -/
def Import.Kept (i : Import) (a : Answers) (pbo : Option BoId) (σ : Threads) : Prop :=
  ∃ σ₀, i.start pbo σ = .ok σ₀ ∧ Returns (i.run a pbo σ) fun r => Imported pbo σ₀ r.1 r.2

/-- An import gives the lock back, writes only a live buffer, and leaves the list alone when it fails, exactly if it is
    not a `nouveau_bo_name_ref` of an unknown name where GEM_OPEN or what follows it fails. -/
theorem import_released (h : Ready σ) (a : Answers) {i : Import} (htakes : i.Takes pbo σ) :
    i.Kept a pbo σ ↔ i.Served a σ := by
  cases i with
  | wrap handle => exact ⟨fun _ => trivial, fun _ => ⟨σ, rfl, nouveau_bo_wrap_imported h⟩⟩
  | nameRef name =>
      constructor
      · rintro ⟨σ₀, hstart, hreturns⟩
        obtain rfl : σ = σ₀ := Except.ok.inj hstart
        by_contra hnot
        exact nouveau_bo_name_ref_not_imported h htakes hnot hreturns
      · exact fun hserved => ⟨σ, rfl, nouveau_bo_name_ref_imported h hserved⟩
  | primeHandleRef =>
      refine ⟨fun _ => trivial, fun _ => ?_⟩
      obtain ⟨σ₀, hstart, hready⟩ := dropRef_returns h htakes
      refine ⟨σ₀, hstart, ?_⟩
      refine Returns.bind ⟨σ₀, hstart, rfl⟩ ?_
      rintro _ rfl
      refine (primeLocked_imported hready).mono ?_
      rintro r ⟨hlock, hlive, hkept, hfailed⟩
      exact ⟨hlock, hlive, fun hne => .inr ((hkept hne).elim id id), hfailed⟩

/-- A device without buffers. -/
def noBuffers : Threads where
  bo _ := none
  fresh := 0
  boList := []
  opened _ := false
  callers _ := 0

theorem ready_noBuffers : Ready noBuffers := ⟨rfl, .nil, fun _ hb => absurd hb List.not_mem_nil⟩

/-- A name that the kernel knows. -/
theorem import_released_known : (Import.nameRef 5).Kept { handle := 3 } none noBuffers :=
  (import_released (i := .nameRef 5) ready_noBuffers { handle := 3 } fun _ hb => by cases hb).mpr (.inr ⟨rfl, .inr ⟨rfl, rfl⟩⟩)

/-- A name that it does not know: the lock is kept. -/
theorem import_released_open : ¬ ∀ (a : Answers) (i : Import), i.Kept a none noBuffers := by
  intro h
  obtain ⟨σ₀, -, r, hr, himported⟩ := h { ret := -2, handle := 0 } (.nameRef 5)
  cases hr
  exact Bool.noConfusion (himported.lock : true = false)

end LibDrm.Nouveau
