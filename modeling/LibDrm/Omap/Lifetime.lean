/-
# `LibDrm.Omap.Lifetime` — devices and buffers of omap are freed once

A call that takes a count to zero gets the lock after that, and until then the object is still in
its table.  A lookup in between revives it, and the call frees it all the same
(`omap_lifetime_revived`).  As long as no lookup comes in between, every object goes through the
stages of `Lib.Life` (`omap_lifetime`).
-/
import LibDrm.Omap.Tables

namespace LibDrm.Omap

variable {σ σ' : Threads} {d : DevId} {b : BoId} {dev : Device} {bo : Bo} {table : HandleTable} {handle : Handle}
  {pc : Pc} {rest : List Pc}

/-! ## Steps -/

/-- Not the one of memory that was freed. -/
def Fault.Harmless : Fault → Prop
  | .disabled => True
  | .nullPointer => True
  | .freedDev _ => False
  | .freedTable _ => False
  | .freedBo _ => False

theorem enabled_within {p : Bool} : Within Fault.Harmless (enabled p) fun _ => p = true := by
  unfold enabled
  split
  · next h => exact .ok h
  · exact .error trivial

theorem touchDev_within (hdev : σ.dev d = some dev) : Within Fault.Harmless (σ.touchDev d) fun x => dev = x := by
  unfold Threads.touchDev
  rw [hdev]
  exact .ok rfl

theorem touchTable_within (htable : σ.handleTable d = some table) :
    Within Fault.Harmless (σ.touchTable d) fun x => table = x := by
  unfold Threads.touchTable
  rw [htable]
  exact .ok rfl

theorem touchBo_within (hbo : σ.bo b = some bo) : Within Fault.Harmless (σ.touchBo b) fun x => bo = x := by
  unfold Threads.touchBo
  rw [hbo]
  exact .ok rfl

theorem pick_within {i : Nat} : Within Fault.Harmless (σ.pick i) fun r => σ.calls.Perm (r.1 :: r.2) := by
  unfold Threads.pick
  split
  · next pc hi =>
    obtain ⟨hlt, rfl⟩ := List.getElem?_eq_some_iff.mp hi
    exact .ok (List.getElem_cons_eraseIdx_perm hlt).symm
  · exact .error trivial

/-- No lookup comes in between: no call waits to take what is looked up out of its table. -/
def Move.Settled (σ : Threads) : Move → Prop
  | .deviceNew fd _ => ∀ d dev, σ.dev d = some dev → dev.fd = fd → ∀ next, .devUnlist d next ∉ σ.calls
  | .fromName d reply _ => ∀ handle, reply = some handle → ∀ b, σ.bo b = some ⟨d, handle⟩ → .boUnlist b ∉ σ.calls
  | .fromDmabuf d reply _ => ∀ handle, reply = some handle → ∀ b, σ.bo b = some ⟨d, handle⟩ → .boUnlist b ∉ σ.calls
  | _ => True

/-- The kernel's handles are not 0, that of a new object was not open, and nobody else knows it. -/
def Move.Answered (σ : Threads) : Move → Prop
  | .boNew d reply => ∀ handle, reply = some handle → handle ≠ 0 ∧ ∀ dev, σ.dev d = some dev → σ.opened dev.fd handle = false
  | .fromName d reply _ => ∀ handle, reply = some handle → handle ≠ 0 ∧ .boNew d handle ∉ σ.calls
  | .fromDmabuf d reply _ => ∀ handle, reply = some handle → handle ≠ 0 ∧ .boNew d handle ∉ σ.calls
  | _ => True

/-- What is found in the table of devices. -/
theorem Inv.foundDev {fd : Fd} (h : Inv σ) (hentry : σ.devTable fd = some (some d))
    (hsettled : ∀ d dev, σ.dev d = some dev → dev.fd = fd → ∀ next, .devUnlist d next ∉ σ.calls) :
    ∃ dev table, LiveDev d dev table σ := by
  obtain ⟨dev, hdev, hfd⟩ := h.devEntry hentry
  refine h.liveDev ((h.devStage d).of_listed (devListed_iff.mpr ⟨dev, hdev, hfd ▸ hentry⟩) ?_)
  refine List.countP_eq_zero.mpr fun pc hpc hwaits => ?_
  cases pc with
  | devUnlist d' next =>
      obtain rfl := of_decide_eq_true hwaits
      exact hsettled d' dev hdev hfd next hpc
  | _ => cases hwaits

/-- What is found in a handle table. -/
theorem Inv.foundBo (h : Inv σ) (htable : σ.handleTable d = some table) (hentry : table handle = some b)
    (hsettled : ∀ b, σ.bo b = some ⟨d, handle⟩ → .boUnlist b ∉ σ.calls) : ∃ bo, LiveBo b bo σ := by
  have hbo := h.boEntry htable hentry
  refine h.liveBo ((h.boStage b).of_listed (boListed_iff.mpr ⟨_, table, hbo, htable, hentry⟩) ?_)
  refine List.countP_eq_zero.mpr fun pc hpc hwaits => ?_
  cases pc with
  | boUnlist b' =>
      obtain rfl := of_decide_eq_true hwaits
      exact hsettled b' hbo hpc
  | _ => cases hwaits

theorem omap_device_ref_within (hdev : σ.dev d = some dev) :
    Within Fault.Harmless (omap_device_ref d σ) fun σ' => σ' = σ.incDev d :=
  (touchDev_within hdev).bind fun _ _ => .pure rfl

theorem omap_bo_ref_within (hbo : σ.bo b = some bo) :
    Within Fault.Harmless (omap_bo_ref b σ) fun σ' => σ' = σ.incBo b :=
  (touchBo_within hbo).bind fun _ _ => .pure rfl

theorem omap_device_new_within {fd : Fd} {alloc : Bool} (h : Inv σ)
    (hsettled : ∀ d dev, σ.dev d = some dev → dev.fd = fd → ∀ next, .devUnlist d next ∉ σ.calls) :
    Within Fault.Harmless (omap_device_new fd alloc σ) fun r => Inv (r.1.elim r.2 r.2.takeDev) := by
  unfold omap_device_new
  cases hentry : σ.devTable fd with
  | none =>
      cases alloc with
      | true => exact .ok (h.addDev hentry)
      | false => exact .ok (h.nullDev hentry)
  | some found =>
      cases found with
      | none => exact .error trivial
      | some d =>
          obtain ⟨dev, table, hd⟩ := h.foundDev hentry hsettled
          refine (omap_device_ref_within hd.memory).bind ?_
          rintro _ rfl
          exact .pure (h.refDev hd)

theorem lookup_bo_within (h : Inv σ) (hd : LiveDev d dev table σ)
    (hsettled : ∀ b, σ.bo b = some ⟨d, handle⟩ → .boUnlist b ∉ σ.calls) :
    Within Fault.Harmless (lookup_bo d handle σ) fun r => match r.1 with
      | some b => Inv (r.2.takeBo b)
      | none => r.2 = σ ∧ table handle = none := by
  refine (touchDev_within hd.memory).bind fun _ _ => (touchTable_within hd.table).bind ?_
  rintro _ rfl
  cases hentry : table handle with
  | none => exact .pure ⟨rfl, rfl⟩
  | some b =>
      obtain ⟨bo, hb⟩ := h.foundBo hd.table hentry hsettled
      refine (omap_bo_ref_within hb.memory).bind ?_
      rintro _ rfl
      exact .pure (h.refBo hb)

theorem bo_from_handle_within {alloc : Bool} (h : Inv σ) (hd : LiveDev d dev table σ) (hhandle : handle ≠ 0)
    (hopened : σ.opened dev.fd handle = true) (hnone : table handle = none)
    (hbrings : σ.tally (Pc.brings d handle) = 0) :
    Within Fault.Harmless (bo_from_handle d handle alloc σ) fun r => Inv (r.1.elim r.2 r.2.takeBo) := by
  refine (touchDev_within hd.memory).bind ?_
  rintro _ rfl
  cases alloc with
  | false => exact .pure (h.close hd hnone hbrings)
  | true =>
      refine (omap_device_ref_within hd.memory).bind ?_
      rintro _ rfl
      refine (touchTable_within (σ := σ.incDev d) hd.table).bind ?_
      rintro _ rfl
      have hinsert : drmHashInsert table handle σ.freshBo = Function.update table handle (some σ.freshBo) := by
        rw [drmHashInsert, hnone]
        rfl
      rw [hinsert]
      exact .pure (h.addBo hd hhandle hopened hnone hbrings)

theorem tally_brings (hbrings : .boNew d handle ∉ σ.calls) : σ.tally (Pc.brings d handle) = 0 := by
  refine List.countP_eq_zero.mpr fun pc hpc hp => ?_
  cases pc with
  | boNew d' handle' =>
      obtain ⟨rfl, rfl⟩ := of_decide_eq_true hp
      exact hbrings hpc
  | _ => cases hp

theorem boImport_within {alloc : Bool} (h : Inv σ) (hd : LiveDev d dev table σ) (hhandle : handle ≠ 0)
    (hbrings : .boNew d handle ∉ σ.calls) (hsettled : ∀ b, σ.bo b = some ⟨d, handle⟩ → .boUnlist b ∉ σ.calls) :
    Within Fault.Harmless (boImport d handle alloc σ) fun r => Inv (r.1.elim r.2 r.2.takeBo) := by
  refine (touchDev_within hd.memory).bind ?_
  rintro _ rfl
  have h₁ : Inv (σ.setOpened dev.fd handle true) := h.open
  have hd₁ : LiveDev d dev table (σ.setOpened dev.fd handle true) :=
    ⟨hd.memory, hd.entry, hd.table, hd.refcnt, hd.pos, hd.waiting, hd.leaving, hd.frees⟩
  refine (lookup_bo_within h₁ hd₁ hsettled).bind ?_
  rintro ⟨_ | b, σ₁⟩ hfound
  · obtain ⟨rfl, hnone⟩ := hfound
    exact bo_from_handle_within h₁ hd₁ hhandle (by rw [setOpened_iff, if_pos ⟨rfl, rfl⟩]) hnone (tally_brings hbrings)
  · exact .pure hfound

theorem boNewLocked_within {alloc : Bool} (h : Inv σ) (hcalls : σ.calls = .boNew d handle :: rest) :
    Within Fault.Harmless (boNewLocked d handle alloc (Threads.takeDev d { σ with calls := rest })) Inv := by
  have hbrings : σ.tally (Pc.brings d handle) = rest.countP (Pc.brings d handle) + 1 := by
    rw [Threads.tally, hcalls, List.countP_cons_of_pos (by simp [Pc.brings])]
  have hone := h.once d handle
  obtain ⟨hhandle, hopened, hnot⟩ := h.brought (show 0 < σ.tally (Pc.brings d handle) by omega)
  have h₁ := h.returnDev hcalls
  obtain ⟨dev, table, hd⟩ : ∃ dev table, LiveDev d dev table (Threads.takeDev d { σ with calls := rest }) := by
    refine h₁.liveDev ?_
    have hcaller : 0 < Threads.devCallers (Threads.takeDev d { σ with calls := rest }) d := by
      show 0 < Function.update σ.devCallers d (σ.devCallers d + 1) d
      rw [Function.update_self]
      exact Nat.succ_pos _
    unfold Threads.devRefs
    omega
  refine (bo_from_handle_within h₁ hd hhandle (hopened dev hd.memory) (hnot table hd.table) ?_).bind ?_
  · show rest.countP (Pc.brings d handle) = 0
    omega
  · rintro ⟨_ | b, σ₁⟩ hinv
    · exact .error trivial
    · exact .pure hinv

theorem devDecAndTest_within {next : Option BoId} (hdev : σ.dev d = some dev)
    (hinv : Inv { σ.decDev d with calls := afterDec d next rest σ }) :
    Within Fault.Harmless (devDecAndTest d next rest σ) Inv :=
  (touchDev_within hdev).bind fun _ _ => .pure hinv

theorem Inv.liveDev_of_caller (h : Inv σ) (hcaller : 0 < σ.devCallers d) : ∃ dev table, LiveDev d dev table σ := by
  refine h.liveDev ?_
  unfold Threads.devRefs
  omega

/-- The kernel gives a handle that was not open, so no table has it. -/
theorem boNewStart_within (h : Inv σ) (hcaller : 0 < σ.devCallers d)
    (hanswered : (Move.boNew d (some handle)).Answered σ) :
    Within Fault.Harmless (boNewStart d (some handle) σ) Inv := by
  obtain ⟨dev, table, hd⟩ := h.liveDev_of_caller hcaller
  obtain ⟨hhandle, hclosed⟩ := hanswered handle rfl
  have hclosed := hclosed dev hd.memory
  refine (touchDev_within hd.memory).bind ?_
  rintro _ rfl
  have hnone : table handle = none := by
    cases hentry : table handle with
    | none => rfl
    | some b =>
        have hbo := h.boEntry hd.table hentry
        have hopened := h.opened hbo (boListed_iff.mpr ⟨_, table, hbo, hd.table, hentry⟩) hd.memory
        rw [hclosed] at hopened
        cases hopened
  have hzero : σ.tally (Pc.brings d handle) = 0 := by
    by_contra hne
    have hopened := (h.brought (Nat.pos_of_ne_zero hne)).2.1 dev hd.memory
    rw [hclosed] at hopened
    cases hopened
  have h₁ : Inv (σ.setOpened dev.fd handle true) := h.open
  refine .pure (h₁.handDev hcaller (fun _ => rfl) (fun _ => ⟨rfl, rfl, rfl, rfl⟩) (fun _ => ⟨rfl, rfl⟩) ?_)
  intro c handle' hbrings
  obtain ⟨rfl, rfl⟩ := of_decide_eq_true hbrings
  refine ⟨hzero, hhandle, fun dev' hdev' => ?_, fun table' htable' => ?_⟩
  · cases hd.memory.symm.trans hdev'
    rw [setOpened_iff, if_pos ⟨rfl, rfl⟩]
  · cases hd.table.symm.trans htable'
    exact hnone

theorem advance_within {i : Nat} {alloc : Bool} (h : Inv σ) : Within Fault.Harmless (advance i alloc σ) Inv := by
  refine (pick_within).bind ?_
  rintro ⟨pc, rest⟩ hcalls
  have h₁ : Inv { σ with calls := pc :: rest } := h.perm hcalls
  cases pc with
  | boNew d handle =>
      have hstep := @boNewLocked_within _ d handle rest alloc h₁ rfl
      exact hstep
  | boDec b =>
      obtain ⟨bo, hb⟩ : ∃ bo, LiveBo b bo { σ with calls := .boDec b :: rest } := by
        refine h₁.liveBo (Nat.lt_of_lt_of_le ?_ (Nat.le_add_left _ _))
        rw [tally_cons, if_pos (by simp [Pc.ownsBo])]
        exact Nat.succ_pos _
      refine (touchBo_within hb.memory).bind ?_
      rintro _ rfl
      exact .pure (h₁.decBo rfl hb)
  | boUnlist b =>
      obtain ⟨hcount, hlisted, -⟩ := (h₁.boStage b).of_waiting (by
        show 0 < Threads.tally (Pc.boWaits b) { σ with calls := .boUnlist b :: rest }
        rw [tally_cons, if_pos (by simp [Pc.boWaits])]
        exact Nat.succ_pos _)
      obtain ⟨bo, hbo, -⟩ := Option.map_eq_some_iff.mp hcount
      obtain ⟨dev, table, hd, hentry⟩ := h₁.liveDev_of_listed hbo hlisted
      refine (touchBo_within hbo).bind ?_
      rintro _ rfl
      refine (touchDev_within hd.memory).bind ?_
      rintro _ rfl
      refine (touchTable_within hd.table).bind ?_
      rintro _ rfl
      exact .pure (h₁.unlistBo rfl hbo hd hentry)
  | boRelease b =>
      obtain ⟨⟨bo, hbo⟩, hreleased⟩ := h₁.releasing rfl
      obtain ⟨dev, table, hd⟩ := h₁.liveDev (h₁.devRefs_pos hbo hreleased)
      refine (touchBo_within hbo).bind ?_
      rintro _ rfl
      exact devDecAndTest_within hd.memory (h₁.decDev_bo rfl hbo hd)
  | boFree b =>
      obtain ⟨⟨bo, hbo⟩, hinv⟩ := h₁.freeBo rfl
      exact (touchBo_within hbo).bind fun _ _ => .pure hinv
  | devDec d =>
      obtain ⟨dev, table, hd⟩ : ∃ dev table, LiveDev d dev table { σ with calls := .devDec d :: rest } := by
        refine h₁.liveDev ?_
        have howns : 0 < Threads.tally (Pc.ownsDev d) { σ with calls := .devDec d :: rest } := by
          rw [tally_cons, if_pos (by simp [Pc.ownsDev])]
          exact Nat.succ_pos _
        unfold Threads.devRefs
        omega
      exact devDecAndTest_within hd.memory (h₁.decDev_caller rfl hd)
  | devUnlist d next =>
      obtain ⟨-, hlisted, -⟩ := (h₁.devStage d).of_waiting (by
        show 0 < Threads.tally (Pc.devWaits d) { σ with calls := .devUnlist d next :: rest }
        rw [tally_cons, if_pos (by simp [Pc.devWaits])]
        exact Nat.succ_pos _)
      obtain ⟨dev, hdev, hentry⟩ := (devListed_iff).mp hlisted
      obtain ⟨table, htable⟩ := h₁.table hlisted
      refine (touchDev_within hdev).bind ?_
      rintro _ rfl
      exact (touchTable_within htable).bind fun _ _ => .pure (h₁.unlistDev rfl hdev hentry)
  | devFree d next =>
      obtain ⟨⟨dev, hdev⟩, hinv⟩ := h₁.freeDev rfl
      exact (touchDev_within hdev).bind fun _ _ => .pure hinv

theorem Move.run_within {m : Move} (h : Inv σ) (hanswered : m.Answered σ) (hsettled : m.Settled σ) :
    Within Fault.Harmless (m.run σ) Inv := by
  cases m with
  | deviceNew fd alloc => exact (omap_device_new_within h hsettled).bind fun _ hr => .pure hr
  | deviceRef d =>
      refine (enabled_within).bind fun _ hcaller => ?_
      obtain ⟨dev, table, hd⟩ := h.liveDev_of_caller (of_decide_eq_true hcaller)
      refine (omap_device_ref_within hd.memory).bind ?_
      rintro _ rfl
      exact .pure (h.refDev hd)
  | deviceDel d =>
      refine (enabled_within).bind fun _ hcaller => .pure ?_
      exact h.handDev (of_decide_eq_true hcaller) (fun _ => rfl) (fun _ => ⟨rfl, rfl, rfl, rfl⟩) (fun _ => ⟨rfl, rfl⟩) nofun
  | boNew d reply =>
      refine (enabled_within).bind fun _ hcaller => ?_
      cases reply with
      | none => exact .ok h
      | some handle => exact boNewStart_within h (of_decide_eq_true hcaller) hanswered
  | fromName d reply alloc =>
      refine (enabled_within).bind fun _ hcaller => ?_
      cases reply with
      | none => exact .ok h
      | some handle =>
          obtain ⟨dev, table, hd⟩ := h.liveDev_of_caller (of_decide_eq_true hcaller)
          obtain ⟨hhandle, hbrings⟩ := hanswered handle rfl
          refine (boImport_within h hd hhandle hbrings (hsettled handle rfl)).bind ?_
          rintro ⟨_ | b, σ₁⟩ hinv
          · exact .error trivial
          · exact .pure hinv
  | fromDmabuf d reply alloc =>
      refine (enabled_within).bind fun _ hcaller => ?_
      cases reply with
      | none => exact .ok h
      | some handle =>
          obtain ⟨dev, table, hd⟩ := h.liveDev_of_caller (of_decide_eq_true hcaller)
          obtain ⟨hhandle, hbrings⟩ := hanswered handle rfl
          refine (boImport_within h hd hhandle hbrings (hsettled handle rfl)).bind ?_
          rintro ⟨_ | b, σ₁⟩ hinv
          · exact .pure hinv
          · exact .pure hinv
  | boRef b =>
      refine (enabled_within).bind fun _ hcaller => ?_
      obtain ⟨bo, hb⟩ := h.liveBo (Nat.lt_of_lt_of_le (of_decide_eq_true hcaller) (Nat.le_add_right _ _))
      refine (omap_bo_ref_within hb.memory).bind ?_
      rintro _ rfl
      exact .pure (h.refBo hb)
  | boDel b => exact (enabled_within).bind fun _ hcaller => .pure (h.handBo (of_decide_eq_true hcaller))
  | advance i alloc => exact advance_within h

/-! ## Nothing gets lost -/

/-- An object that was made is there, or was freed. -/
structure Made (σ : Threads) : Prop where
  dev : ∀ d, d < σ.freshDev → (σ.dev d).isSome ∨ 0 < σ.devFrees d
  bo : ∀ b, b < σ.freshBo → (σ.bo b).isSome ∨ 0 < σ.boFrees b

section

variable {α : Type} {memory : Nat → Option α} {frees : Nat → Nat} {fresh : Nat}

theorem made_add {a : α} (h : ∀ c, c < fresh → (memory c).isSome ∨ 0 < frees c) (c : Nat) (hc : c < fresh + 1) :
    (Function.update memory fresh (some a) c).isSome ∨ 0 < frees c := by
  rw [Function.update_apply]
  split
  · exact .inl rfl
  · next hne => exact h c (Nat.lt_of_le_of_ne (Nat.le_of_lt_succ hc) hne)

theorem made_free {a : Nat} (h : ∀ c, c < fresh → (memory c).isSome ∨ 0 < frees c) (c : Nat) (hc : c < fresh) :
    (Function.update memory a none c).isSome ∨ 0 < Function.update frees a (frees a + 1) c := by
  rw [Function.update_apply, Function.update_apply]
  split
  · exact .inr (Nat.succ_pos _)
  · exact h c hc

end

theorem omap_device_ref_spec : Ensures (omap_device_ref d σ) fun σ' => σ' = σ.incDev d := .bind_any fun _ => .pure rfl

theorem omap_device_ref_made (h : Made σ) : Ensures (omap_device_ref d σ) Made := by
  refine (omap_device_ref_spec).mono ?_
  rintro _ rfl
  exact ⟨h.dev, h.bo⟩

theorem omap_device_new_made {fd : Fd} {alloc : Bool} (h : Made σ) :
    Ensures (omap_device_new fd alloc σ) fun r => Made r.2 := by
  unfold omap_device_new
  split
  · split
    · exact .ok ⟨made_add h.dev, h.bo⟩
    · exact .ok ⟨h.dev, h.bo⟩
  · exact .error
  · exact (omap_device_ref_made h).bind fun _ h₁ => .pure h₁

theorem devDecAndTest_made {next : Option BoId} (h : Made σ) : Ensures (devDecAndTest d next rest σ) Made :=
  .bind_any fun _ => .pure ⟨h.dev, h.bo⟩

theorem omap_bo_ref_made (h : Made σ) : Ensures (omap_bo_ref b σ) Made := .bind_any fun _ => .pure ⟨h.dev, h.bo⟩

theorem lookup_bo_made (h : Made σ) : Ensures (lookup_bo d handle σ) fun r => Made r.2 := by
  refine .bind_any fun _ => .bind_any fun _ => ?_
  split
  · exact (omap_bo_ref_made h).bind fun _ h₁ => .pure h₁
  · exact .pure h

theorem bo_from_handle_made {alloc : Bool} (h : Made σ) :
    Ensures (bo_from_handle d handle alloc σ) fun r => Made r.2 := by
  refine .bind_any fun dev => ?_
  split
  · refine (omap_device_ref_spec).bind ?_
    rintro _ rfl
    exact .bind_any fun table => .pure ⟨h.dev, made_add h.bo⟩
  · exact .pure ⟨h.dev, h.bo⟩

theorem boImport_made {alloc : Bool} (h : Made σ) : Ensures (boImport d handle alloc σ) fun r => Made r.2 := by
  refine .bind_any fun dev => (lookup_bo_made (σ := σ.setOpened dev.fd handle true) ⟨h.dev, h.bo⟩).bind ?_
  rintro ⟨_ | b, σ₁⟩ h₁
  · exact bo_from_handle_made h₁
  · exact .pure h₁

theorem advance_made {i : Nat} {alloc : Bool} (h : Made σ) : Ensures (advance i alloc σ) Made := by
  refine .bind_any ?_
  rintro ⟨pc, rest⟩
  cases pc with
  | boNew d handle =>
      refine (bo_from_handle_made (σ := Threads.takeDev d { σ with calls := rest }) ⟨h.dev, h.bo⟩).bind ?_
      rintro ⟨_ | b, σ₁⟩ h₁
      · exact .error
      · exact .pure ⟨h₁.dev, h₁.bo⟩
  | boDec b => exact .bind_any fun _ => .pure ⟨h.dev, h.bo⟩
  | boUnlist b => exact .bind_any fun _ => .bind_any fun _ => .bind_any fun _ => .pure ⟨h.dev, h.bo⟩
  | boRelease b => exact .bind_any fun _ => devDecAndTest_made h
  | boFree b => exact .bind_any fun _ => .pure ⟨h.dev, made_free h.bo⟩
  | devDec d => exact devDecAndTest_made h
  | devUnlist d next => exact .bind_any fun _ => .bind_any fun _ => .pure ⟨h.dev, h.bo⟩
  | devFree d next => exact .bind_any fun _ => .pure ⟨made_free h.dev, h.bo⟩

theorem Move.run_made {m : Move} (h : Made σ) : Ensures (m.run σ) Made := by
  cases m with
  | deviceNew fd alloc =>
      refine (omap_device_new_made h).bind ?_
      rintro ⟨_ | d, σ₁⟩ h₁
      · exact .pure h₁
      · exact .pure ⟨h₁.dev, h₁.bo⟩
  | deviceRef d => exact .bind_any fun _ => (omap_device_ref_made h).bind fun _ h₁ => .pure ⟨h₁.dev, h₁.bo⟩
  | deviceDel d => exact .bind_any fun _ => .pure ⟨h.dev, h.bo⟩
  | boNew d reply =>
      refine .bind_any fun _ => ?_
      cases reply with
      | none => exact .ok h
      | some handle => exact .bind_any fun _ => .pure ⟨h.dev, h.bo⟩
  | fromName d reply alloc =>
      refine .bind_any fun _ => ?_
      cases reply with
      | none => exact .ok h
      | some handle =>
          refine (boImport_made h).bind ?_
          rintro ⟨_ | b, σ₁⟩ h₁
          · exact .error
          · exact .pure ⟨h₁.dev, h₁.bo⟩
  | fromDmabuf d reply alloc =>
      refine .bind_any fun _ => ?_
      cases reply with
      | none => exact .ok h
      | some handle =>
          refine (boImport_made h).bind ?_
          rintro ⟨_ | b, σ₁⟩ h₁
          · exact .pure h₁
          · exact .pure ⟨h₁.dev, h₁.bo⟩
  | boRef b => exact .bind_any fun _ => (omap_bo_ref_made h).bind fun _ h₁ => .pure ⟨h₁.dev, h₁.bo⟩
  | boDel b => exact .bind_any fun _ => .pure ⟨h.dev, h.bo⟩
  | advance i alloc => exact advance_made h

/-! ## Runs -/

/-- No object is there yet; handles of other users of a file may be open. -/
def Threads.Init (σ : Threads) : Prop := ∃ opened, σ = { opened }

def Threads.Step (σ σ' : Threads) : Prop := ∃ m : Move, m.run σ = .ok σ' ∧ m.Answered σ

def Threads.SettledStep (σ σ' : Threads) : Prop := ∃ m : Move, m.run σ = .ok σ' ∧ m.Answered σ ∧ m.Settled σ

theorem Inv.of_init (h : σ.Init) : Inv σ := by
  obtain ⟨opened, rfl⟩ := h
  refine ⟨fun _ => .unborn, fun _ => .unborn, nofun, nofun, nofun, nofun, nofun, nofun, ?_, ?_, ?_⟩
  · exact fun _ _ => Nat.zero_le 1
  · exact fun _ => ⟨rfl, rfl⟩
  · exact fun _ => ⟨rfl, rfl⟩

theorem inv_of_runs (h : Runs Threads.Init Threads.SettledStep σ) : Inv σ ∧ Made σ := by
  refine Runs.induct (I := fun σ => Inv σ ∧ Made σ) (fun σ hσ => ⟨.of_init hσ, ?_⟩) ?_ h
  · obtain ⟨opened, rfl⟩ := hσ
    exact ⟨fun _ hd => absurd hd (Nat.not_lt_zero _), fun _ hb => absurd hb (Nat.not_lt_zero _)⟩
  · rintro σ σ' ⟨hinv, hmade⟩ ⟨m, hrun, hanswered, hsettled⟩
    exact ⟨(Move.run_within hinv hanswered hsettled).1 σ' hrun, Move.run_made hmade σ' hrun⟩

inductive Obj
  | dev (d : DevId)
  | bo (b : BoId)

namespace Threads

def refcnt (σ : Threads) : Obj → Int
  | .dev d => σ.devRefcnt d
  | .bo b => σ.boRefcnt b

def refs (σ : Threads) : Obj → Nat
  | .dev d => σ.devRefs d
  | .bo b => σ.boRefs b

def frees (σ : Threads) : Obj → Nat
  | .dev d => σ.devFrees d
  | .bo b => σ.boFrees b

/-- The memory of the object. -/
def Has (σ : Threads) : Obj → Prop
  | .dev d => (σ.dev d).isSome
  | .bo b => (σ.bo b).isSome

/-- The object was made. -/
def HasMade (σ : Threads) : Obj → Prop
  | .dev d => d < σ.freshDev
  | .bo b => b < σ.freshBo

end Threads

/-- What a call finds in a table. -/
def Move.finds (σ : Threads) : Move → Option Obj
  | .deviceNew fd _ => (σ.devTable fd).join.map .dev
  | .fromName d (some handle) _ => ((σ.handleTable d).bind fun table => table handle).map .bo
  | .fromDmabuf d (some handle) _ => ((σ.handleTable d).bind fun table => table handle).map .bo
  | _ => none

/-- What the callers rely on. -/
structure Lifetime (σ : Threads) : Prop where
  /-- While somebody has a reference, the object is there. -/
  held : ∀ o, 0 < σ.refs o → σ.Has o ∧ σ.frees o = 0
  once : ∀ o, σ.frees o ≤ 1
  /-- When the calls have returned, what nobody has a reference to was freed. -/
  freed : σ.calls = [] → ∀ o, σ.HasMade o → σ.refs o = 0 → σ.frees o = 1
  /-- There is one buffer for an open handle. -/
  single : ∀ {b c bo bo' dev dev'}, σ.bo b = some bo → σ.bo c = some bo' → 0 < σ.boRefcnt b → 0 < σ.boRefcnt c →
    σ.dev bo.dev = some dev → σ.dev bo'.dev = some dev' → dev.fd = dev'.fd → bo.handle = bo'.handle → b = c

theorem Inv.live_of_refcnt (h : Inv σ) (hbo : σ.bo b = some bo) (hpos : 0 < σ.boRefcnt b) : LiveBo b bo σ := by
  have hcount : (σ.boLife b).count = some (σ.boRefcnt b) := by
    show (σ.bo b).map _ = _
    rw [hbo]
    rfl
  have heq : σ.boRefcnt b = σ.boRefs b := (h.boStage b).count_eq hcount
  obtain ⟨bo', hb⟩ := h.liveBo (show 0 < σ.boRefs b by omega)
  cases hbo.symm.trans hb.memory
  exact hb

theorem Inv.lifetime (h : Inv σ) (hmade : Made σ) : Lifetime σ := by
  constructor
  case held =>
    intro o hpos
    cases o with
    | dev d =>
        obtain ⟨dev, table, hd⟩ := h.liveDev hpos
        exact ⟨Option.isSome_iff_exists.mpr ⟨dev, hd.memory⟩, hd.frees⟩
    | bo b =>
        obtain ⟨bo, hb⟩ := h.liveBo hpos
        exact ⟨Option.isSome_iff_exists.mpr ⟨bo, hb.memory⟩, hb.frees⟩
  case once =>
    intro o
    cases o with
    | dev d => exact (h.devStage d).frees_le
    | bo b => exact (h.boStage b).frees_le
  case freed =>
    intro hcalls o hm hrefs
    have hzero : ∀ p, σ.tally p = 0 := fun p => by rw [Threads.tally, hcalls, List.countP_nil]
    cases o with
    | dev d =>
        have hnone := (h.devStage d).count_none hrefs (hzero _) (hzero _)
        have hle : σ.devFrees d ≤ 1 := (h.devStage d).frees_le
        rcases hmade.dev d hm with hsome | hpos
        · obtain ⟨dev, hdev⟩ := Option.isSome_iff_exists.mp hsome
          change (σ.dev d).map _ = none at hnone
          rw [hdev] at hnone
          cases hnone
        · exact Nat.le_antisymm hle hpos
    | bo b =>
        have hnone := (h.boStage b).count_none hrefs (hzero _) (hzero _)
        have hle : σ.boFrees b ≤ 1 := (h.boStage b).frees_le
        rcases hmade.bo b hm with hsome | hpos
        · obtain ⟨bo, hbo⟩ := Option.isSome_iff_exists.mp hsome
          change (σ.bo b).map _ = none at hnone
          rw [hbo] at hnone
          cases hnone
        · exact Nat.le_antisymm hle hpos
  case single =>
    intro b c bo bo' dev dev' hbo hbo' hpos hpos' hdev hdev' hfd hhandle
    obtain ⟨x, table, hx, hentry⟩ := h.liveDev_of_listed hbo (h.live_of_refcnt hbo hpos).listed
    obtain ⟨y, table', hy, hentry'⟩ := h.liveDev_of_listed hbo' (h.live_of_refcnt hbo' hpos').listed
    cases hdev.symm.trans hx.memory
    cases hdev'.symm.trans hy.memory
    have heq := hx.eq hy hfd
    have htable := hx.table
    rw [heq, hy.table] at htable
    cases htable
    rw [hhandle, hentry'] at hentry
    exact (Option.some.inj hentry).symm

theorem Inv.finds (h : Inv σ) {m : Move} {o : Obj} (hsettled : m.Settled σ) (hfinds : m.finds σ = some o) :
    0 < σ.refcnt o := by
  have hbo : ∀ {d handle}, (∀ b, σ.bo b = some ⟨d, handle⟩ → .boUnlist b ∉ σ.calls) →
      ((σ.handleTable d).bind fun table => table handle).map Obj.bo = some o → 0 < σ.refcnt o := by
    intro d handle hsettled hfinds
    obtain ⟨b, hb, rfl⟩ := Option.map_eq_some_iff.mp hfinds
    obtain ⟨table, htable, hentry⟩ := Option.bind_eq_some_iff.mp hb
    obtain ⟨bo, hlive⟩ := h.foundBo htable hentry hsettled
    have hpos := hlive.pos
    have hrefcnt := hlive.refcnt
    show 0 < σ.boRefcnt b
    omega
  cases m with
  | deviceNew fd alloc =>
      obtain ⟨d, hd, rfl⟩ := Option.map_eq_some_iff.mp hfinds
      obtain ⟨dev, table, hlive⟩ := h.foundDev (Option.join_eq_some_iff.mp hd) hsettled
      have hpos := hlive.pos
      have hrefcnt := hlive.refcnt
      show 0 < σ.devRefcnt d
      omega
  | fromName d reply alloc =>
      cases reply with
      | none => cases hfinds
      | some handle => exact hbo (hsettled handle rfl) hfinds
  | fromDmabuf d reply alloc =>
      cases reply with
      | none => cases hfinds
      | some handle => exact hbo (hsettled handle rfl) hfinds
  | _ => cases hfinds

/-- As long as no lookup comes between the decrement of a count to zero and the section that takes the object out of
    its table: no lookup finds an object whose count is zero, every object is freed once and not while there is a
    reference to it, there is one live buffer for a handle, and no step reads memory that was freed. -/
theorem omap_lifetime (h : Runs Threads.Init Threads.SettledStep σ) :
    Lifetime σ ∧ ∀ m : Move, m.Answered σ → m.Settled σ →
      (∀ o, m.finds σ = some o → 0 < σ.refcnt o) ∧ ∀ fault, m.run σ = .error fault → fault.Harmless := by
  obtain ⟨hinv, hmade⟩ := inv_of_runs h
  refine ⟨hinv.lifetime hmade, fun m hanswered hsettled => ⟨fun o => hinv.finds hsettled, ?_⟩⟩
  exact (Move.run_within hinv hanswered hsettled).2

theorem Threads.settledSteps (m : Move) (h : Runs Threads.Init Threads.SettledStep σ) (hrun : m.run σ = .ok σ')
    (hanswered : m.Answered σ) (hsettled : m.Settled σ) : Runs Threads.Init Threads.SettledStep σ' :=
  h.step ⟨m, hrun, hanswered, hsettled⟩

theorem Threads.steps (m : Move) (h : Runs Threads.Init Threads.Step σ) (hrun : m.run σ = .ok σ')
    (hanswered : m.Answered σ) : Runs Threads.Init Threads.Step σ' := h.step ⟨m, hrun, hanswered⟩

/-- A buffer that is looked up, and deleted twice, and then its device. -/
theorem omap_lifetime_once : ∃ σ, Runs Threads.Init Threads.SettledStep σ ∧ σ.calls = [] ∧ σ.boFrees 0 = 1 ∧
    σ.devFrees 0 = 1 ∧ Lifetime σ := by
  have h₀ : Runs Threads.Init Threads.SettledStep { opened := fun _ _ => false } := .init ⟨_, rfl⟩
  have h₁ := Threads.settledSteps (.deviceNew 3 true) h₀ rfl trivial (by rintro d dev ⟨⟩)
  have h₂ := Threads.settledSteps (.boNew 0 (some 1)) h₁ rfl (by rintro handle ⟨⟩; exact ⟨by decide, fun _ _ => rfl⟩) trivial
  have h₃ := Threads.settledSteps (.advance 0 true) h₂ rfl trivial trivial
  have h₄ := Threads.settledSteps (.fromDmabuf 0 (some 1) true) h₃ rfl (by rintro handle ⟨⟩; exact ⟨by decide, nofun⟩)
    (fun _ _ _ _ => nofun)
  have h₅ := Threads.settledSteps (.boDel 0) h₄ rfl trivial trivial
  have h₆ := Threads.settledSteps (.advance 0 true) h₅ rfl trivial trivial
  have h₇ := Threads.settledSteps (.boDel 0) h₆ rfl trivial trivial
  have h₈ := Threads.settledSteps (.advance 0 true) h₇ rfl trivial trivial
  have h₉ := Threads.settledSteps (.advance 0 true) h₈ rfl trivial trivial
  have h₁₀ := Threads.settledSteps (.advance 0 true) h₉ rfl trivial trivial
  have h₁₁ := Threads.settledSteps (.advance 0 true) h₁₀ rfl trivial trivial
  have h₁₂ := Threads.settledSteps (.deviceDel 0) h₁₁ rfl trivial trivial
  have h₁₃ := Threads.settledSteps (.advance 0 true) h₁₂ rfl trivial trivial
  have h₁₄ := Threads.settledSteps (.advance 0 true) h₁₃ rfl trivial trivial
  have h₁₅ := Threads.settledSteps (.advance 0 true) h₁₄ rfl trivial trivial
  exact ⟨_, h₁₅, rfl, rfl, rfl, (omap_lifetime h₁₅).1⟩

/-- A buffer that is imported after its count went to zero, and freed under the caller. -/
theorem omap_lifetime_revived : ∃ σ σ', Runs Threads.Init Threads.Step σ ∧
    (Move.fromDmabuf 0 (some 1) true).finds σ = some (.bo 0) ∧ σ.refcnt (.bo 0) = 0 ∧
    Runs Threads.Init Threads.Step σ' ∧ ¬ Lifetime σ' ∧ (Move.boRef 0).run σ' = .error (.freedBo 0) := by
  have h₀ : Runs Threads.Init Threads.Step { opened := fun _ _ => false } := .init ⟨_, rfl⟩
  have h₁ := Threads.steps (.deviceNew 3 true) h₀ rfl trivial
  have h₂ := Threads.steps (.boNew 0 (some 1)) h₁ rfl (by rintro handle ⟨⟩; exact ⟨by decide, fun _ _ => rfl⟩)
  have h₃ := Threads.steps (.advance 0 true) h₂ rfl trivial
  have h₄ := Threads.steps (.boDel 0) h₃ rfl trivial
  have h₅ := Threads.steps (.advance 0 true) h₄ rfl trivial
  have h₆ := Threads.steps (.fromDmabuf 0 (some 1) true) h₅ rfl (by rintro handle ⟨⟩; exact ⟨by decide, by decide⟩)
  have h₇ := Threads.steps (.advance 0 true) h₆ rfl trivial
  have h₈ := Threads.steps (.advance 0 true) h₇ rfl trivial
  have h₉ := Threads.steps (.advance 0 true) h₈ rfl trivial
  refine ⟨_, _, h₅, rfl, rfl, h₉, fun h => ?_, rfl⟩
  have hheld := (h.held (.bo 0) (by decide)).2
  exact absurd hheld (by decide)

end LibDrm.Omap
