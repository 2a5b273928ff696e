/-
# `LibDrm.Radeon.Accounting` — what a space check records

A check goes through the buffers of the operation twice: first it finds for each of
them what would be recorded and what is counted for it, from what is recorded before
the check (`Setup`); then, if everything fits, it records it, buffer by buffer, so that
the last request for a buffer stays (`lastRecorded`).

Only what is recorded for the buffers changes, and what is counted (`Recounted`).  A
static buffer is recorded at once, fits or not; the statements leave those out.
-/
import LibDrm.Radeon.Calls

namespace LibDrm.Radeon

variable {s s' s'' : State} {b : BoId} {c : CsId} {bo : Bo} {cs : Cs} {l l' : List SpaceCheck} {z z' : Sizes}

def Bo.recorded (a : BitVec 32) (bo : Bo) : Bo := { bo with spaceAccounted := a }

def Cs.withBos (bos : List SpaceCheck) (cs : Cs) : Cs := { cs with bos }

/-- What a check asks for. -/
def SpaceCheck.request (sc : SpaceCheck) : BoId × BitVec 32 × BitVec 32 := (sc.bo, sc.readDomains, sc.writeDomain)

/-! ## Nothing but what is recorded -/

/-- What is recorded for a buffer that is not static changes by `f`. -/
structure Recounted (f : BoId → BitVec 32 → BitVec 32) (s s' : State) : Prop where
  freshBo : s'.freshBo = s.freshBo
  freshCs : s'.freshCs = s.freshCs
  source : s'.csIdSource = s.csIdSource
  bo : ∀ b, ∃ a, s'.bo b = (s.bo b).map (Bo.recorded a) ∧
    ∀ bo, s.bo b = some bo → bo.isStatic = false → a = f b bo.spaceAccounted
  cs : ∀ c, ∃ bos, s'.cs c = (s.cs c).map (Cs.withBos bos) ∧
    ∀ cs, s.cs c = some cs → bos.map SpaceCheck.request = cs.bos.map SpaceCheck.request

namespace Recounted

variable {f g : BoId → BitVec 32 → BitVec 32}

theorem cs_of_eq (h : s'.cs c = s.cs c) : ∃ bos, s'.cs c = (s.cs c).map (Cs.withBos bos) ∧
    ∀ cs, s.cs c = some cs → bos.map SpaceCheck.request = cs.bos.map SpaceCheck.request := by
  cases hc : s.cs c with
  | none => exact ⟨[], by rw [h, hc]; rfl, nofun⟩
  | some cs =>
      refine ⟨cs.bos, by rw [h, hc]; rfl, ?_⟩
      rintro _ ⟨⟩
      rfl

theorem bo_of_eq (h : s'.bo b = s.bo b) : ∃ a, s'.bo b = (s.bo b).map (Bo.recorded a) ∧
    ∀ bo, s.bo b = some bo → bo.isStatic = false → a = bo.spaceAccounted := by
  cases hb : s.bo b with
  | none => exact ⟨0, by rw [h, hb]; rfl, nofun⟩
  | some bo =>
      refine ⟨bo.spaceAccounted, by rw [h, hb]; rfl, ?_⟩
      rintro _ ⟨⟩ -
      rfl

theorem refl : Recounted (fun _ a => a) s s := ⟨rfl, rfl, rfl, fun _ => bo_of_eq rfl, fun _ => cs_of_eq rfl⟩

theorem trans (h : Recounted f s s') (h' : Recounted g s' s'') : Recounted (fun b a => g b (f b a)) s s'' where
  freshBo := h'.freshBo.trans h.freshBo
  freshCs := h'.freshCs.trans h.freshCs
  source := h'.source.trans h.source
  bo b := by
    obtain ⟨a, hb, ha⟩ := h.bo b
    obtain ⟨a', hb', ha'⟩ := h'.bo b
    refine ⟨a', by rw [hb', hb, Option.map_map]; rfl, fun bo hbo hstatic => ?_⟩
    rw [hbo] at hb
    rw [ha' (Bo.recorded a bo) hb hstatic, Bo.recorded, ha bo hbo hstatic]
  cs c := by
    obtain ⟨bos, hc, hbos⟩ := h.cs c
    obtain ⟨bos', hc', hbos'⟩ := h'.cs c
    refine ⟨bos', by rw [hc', hc, Option.map_map]; rfl, fun cs hcs => ?_⟩
    rw [hcs] at hc
    rw [hbos' (cs.withBos bos) hc]
    exact hbos cs hcs

/-- One buffer is recorded. -/
theorem setBo {a : BitVec 32} (hb : s.bo b = some bo) :
    Recounted (fun d x => if d = b then a else x) s (s.setBo b (Bo.recorded a bo)) := by
  refine ⟨rfl, rfl, rfl, fun d => ?_, fun _ => cs_of_eq rfl⟩
  rcases eq_or_ne d b with rfl | hdb
  · refine ⟨a, by rw [setBo_bo_self, hb]; rfl, fun _ _ _ => by rw [if_pos rfl]⟩
  · have hsame : (s.setBo b (Bo.recorded a bo)).bo d = s.bo d := by simp [State.setBo, hdb]
    obtain ⟨a', hd, ha'⟩ := bo_of_eq hsame
    exact ⟨a', hd, fun bo' hbo' hstatic => by rw [if_neg hdb, ha' bo' hbo' hstatic]⟩

/-- A static buffer does not count. -/
theorem setStatic {a : BitVec 32} (hb : s.bo b = some bo) (hstatic : bo.isStatic = true) :
    Recounted (fun _ x => x) s (s.setBo b (Bo.recorded a bo)) := by
  have h := setBo (a := a) hb
  refine ⟨h.freshBo, h.freshCs, h.source, fun d => ?_, h.cs⟩
  obtain ⟨a', hd, ha'⟩ := h.bo d
  refine ⟨a', hd, fun bo' hbo' hnot => ?_⟩
  rcases eq_or_ne d b with rfl | hdb
  · cases hb.symm.trans hbo'
    rw [hstatic] at hnot
    cases hnot
  · rw [ha' bo' hbo' hnot, if_neg hdb]

theorem setBos {bos : List SpaceCheck} (h : Recounted f s s') (hc : s.cs c = some cs)
    (hbos : bos.map SpaceCheck.request = cs.bos.map SpaceCheck.request) :
    Recounted f s (s'.setCs c (cs.withBos bos)) := by
  refine ⟨h.freshBo, h.freshCs, h.source, h.bo, fun d => ?_⟩
  rcases eq_or_ne d c with rfl | hdc
  · refine ⟨bos, by rw [setCs_cs_self, hc]; rfl, fun cs' hcs' => ?_⟩
    cases hc.symm.trans hcs'
    exact hbos
  · obtain ⟨bos', hd, hbos'⟩ := h.cs d
    exact ⟨bos', by rw [← hd]; simp [State.setCs, hdc], hbos'⟩

theorem counters (h : Recounted f s s') (csm : Manager) : Recounted f s { s' with csm } :=
  ⟨h.freshBo, h.freshCs, h.source, h.bo, h.cs⟩

end Recounted

/-! ## One buffer -/

/-- What `radeon_cs_setup_bo` finds for a buffer that is not static. -/
inductive Accounted (readDomains writeDomain : BitVec 32) (bo : Bo) (z : Sizes) : BitVec 32 → Sizes → Prop
  | sameWrite (h : writeDomain ≠ 0 ∧ writeDomain = bo.spaceAccounted) :
      Accounted readDomains writeDomain bo z bo.spaceAccounted z
  | sameRead (h : readDomains ≠ 0 ∧ readDomains <<< 16 = bo.spaceAccounted) :
      Accounted readDomains writeDomain bo z bo.spaceAccounted z
  | write (hnone : bo.spaceAccounted = 0) (h : writeDomain ≠ 0) :
      Accounted readDomains writeDomain bo z writeDomain (z.addWrite writeDomain bo.size.toNat)
  | read (hnone : bo.spaceAccounted = 0) (h : writeDomain = 0) :
      Accounted readDomains writeDomain bo z (readDomains <<< 16) (z.addRead bo.size.toNat)
  | move (hread : ¬ (readDomains ≠ 0 ∧ readDomains <<< 16 = bo.spaceAccounted))
      (h : writeDomain ≠ 0 ∧ bo.spaceAccounted >>> 16 &&& writeDomain ≠ 0)
      (hcounts : writeDomain = RADEON_GEM_DOMAIN_VRAM ∨ writeDomain = RADEON_GEM_DOMAIN_GTT) :
      Accounted readDomains writeDomain bo z writeDomain
        ((z.addRead (-(bo.size.toNat : Int))).addWrite writeDomain bo.size.toNat)
  | moveOther (hread : ¬ (readDomains ≠ 0 ∧ readDomains <<< 16 = bo.spaceAccounted))
      (h : writeDomain ≠ 0 ∧ bo.spaceAccounted >>> 16 &&& writeDomain ≠ 0)
      (hcounts : ¬ (writeDomain = RADEON_GEM_DOMAIN_VRAM ∨ writeDomain = RADEON_GEM_DOMAIN_GTT)) :
      Accounted readDomains writeDomain bo z writeDomain z
  | readBack (hwrite : ¬ (writeDomain ≠ 0 ∧ writeDomain = bo.spaceAccounted))
      (hread : ¬ (readDomains ≠ 0 ∧ readDomains <<< 16 = bo.spaceAccounted)) (hsome : bo.spaceAccounted ≠ 0)
      (h : readDomains &&& (bo.spaceAccounted &&& 0xffff) ≠ 0) :
      Accounted readDomains writeDomain bo z (bo.spaceAccounted &&& 0xffff) z

theorem accountBo_cases {readDomains writeDomain a : BitVec 32}
    (h : accountBo readDomains writeDomain bo z = some (a, z')) : Accounted readDomains writeDomain bo z a z' := by
  unfold accountBo at h
  dsimp only at h
  split at h
  · next hsame =>
    obtain ⟨rfl, rfl⟩ := Prod.mk.inj (Option.some.inj h)
    exact .sameWrite hsame
  · next hwrite =>
    split at h
    · next hsame =>
      obtain ⟨rfl, rfl⟩ := Prod.mk.inj (Option.some.inj h)
      exact .sameRead hsame
    · next hread =>
      split at h
      · next hnone =>
        split at h
        · next hw =>
          obtain ⟨rfl, rfl⟩ := Prod.mk.inj (Option.some.inj h)
          exact .write hnone hw
        · next hw =>
          obtain ⟨rfl, rfl⟩ := Prod.mk.inj (Option.some.inj h)
          exact .read hnone (not_not.mp hw)
      · next hsome =>
        split at h
        · next hmove =>
          split at h
          · next hcounts =>
            obtain ⟨rfl, rfl⟩ := Prod.mk.inj (Option.some.inj h)
            exact .move hread hmove hcounts
          · next hcounts =>
            obtain ⟨rfl, rfl⟩ := Prod.mk.inj (Option.some.inj h)
            exact .moveOther hread hmove hcounts
        · split at h
          · next hback =>
            obtain ⟨rfl, rfl⟩ := Prod.mk.inj (Option.some.inj h)
            exact .readBack hwrite hread hsome hback
          · cases h

/-! ## The two passes -/

/-- The first pass found `l'` and the sizes `z'`, from what is recorded in `s`. -/
inductive Setup (s : State) : List SpaceCheck → Sizes → List SpaceCheck → Sizes → Prop
  | nil {z : Sizes} : Setup s [] z [] z
  | fixed {sc : SpaceCheck} {l l' : List SpaceCheck} {z z' : Sizes} {bo : Bo} {a : BitVec 32}
      (hb : s.bo sc.bo = some bo) (hstatic : bo.isStatic = true) (h : Setup s l z l' z') :
      Setup s (sc :: l) z ({ sc with newAccounted := a } :: l') z'
  | counted {sc : SpaceCheck} {l l' : List SpaceCheck} {z z₁ z' : Sizes} {bo : Bo} {a : BitVec 32}
      (hb : s.bo sc.bo = some bo) (hstatic : bo.isStatic = false)
      (ha : accountBo sc.readDomains sc.writeDomain bo z = some (a, z₁)) (h : Setup s l z₁ l' z') :
      Setup s (sc :: l) z ({ sc with newAccounted := a } :: l') z'

theorem Setup.append {l₁ l₁' l₂ l₂' : List SpaceCheck} {z₀ z₁ z₂ : Sizes} (h : Setup s l₁ z₀ l₁' z₁)
    (h' : Setup s l₂ z₁ l₂' z₂) : Setup s (l₁ ++ l₂) z₀ (l₁' ++ l₂') z₂ := by
  induction h with
  | nil => exact h'
  | fixed hb hstatic _ ih => exact .fixed hb hstatic (ih h')
  | counted hb hstatic ha _ ih => exact .counted hb hstatic ha (ih h')

/-- What the first pass leaves of the state. -/
structure Prepared (s s' : State) : Prop where
  recounted : Recounted (fun _ a => a) s s'
  csm : s'.csm = s.csm

theorem Prepared.refl : Prepared s s := ⟨.refl, rfl⟩

theorem Prepared.trans (h : Prepared s s') (h' : Prepared s' s'') : Prepared s s'' :=
  ⟨h.recounted.trans h'.recounted, h'.csm.trans h.csm⟩

/-- A buffer is what it was, unless it is static. -/
theorem Prepared.bo_eq (h : Prepared s s') {bo' : Bo} (hb : s'.bo b = some bo') :
    ∃ bo, s.bo b = some bo ∧ bo'.isStatic = bo.isStatic ∧ (bo.isStatic = false → bo' = bo) := by
  obtain ⟨a, hbo, ha⟩ := h.recounted.bo b
  rw [hb] at hbo
  obtain ⟨bo, hs, rfl⟩ := Option.map_eq_some_iff.mp hbo.symm
  refine ⟨bo, hs, rfl, fun hstatic => ?_⟩
  rw [ha bo hs hstatic]
  rfl

theorem setupBo_spec {s₀ : State} {sc : SpaceCheck} (hs : Prepared s₀ s) : Ensures (setupBo sc z s) fun r =>
    Prepared s₀ r.2.2.2 ∧ r.2.1.request = sc.request ∧ (r.1 ≠ 0 → r.1 = RADEON_CS_SPACE_FLUSH) ∧ (r.1 = 0 → ∀ {l l' z'}, Setup s₀ l r.2.2.1 l' z' →
      Setup s₀ (sc :: l) z (r.2.1 :: l') z') := by
  refine (getBo_spec).bind fun bo' hb' => ?_
  obtain ⟨bo, hb, hsame, hbo⟩ := hs.bo_eq hb'
  split
  · next hstatic =>
    have hs' : Prepared s (s.setBo sc.bo (Bo.recorded (sc.readDomains <<< 16 ||| sc.writeDomain) bo')) :=
      ⟨.setStatic hb' hstatic, rfl⟩
    exact .pure ⟨hs.trans hs', rfl, fun h => absurd rfl h, fun _ {l l' z'} h => .fixed hb (by rw [← hsame, hstatic]) h⟩
  · next hstatic =>
    have hnot : bo.isStatic = false := by rw [← hsame]; exact Bool.eq_false_iff.mpr hstatic
    obtain rfl : bo = bo' := (hbo hnot).symm
    cases haccount : accountBo sc.readDomains sc.writeDomain bo z with
    | none => exact .pure ⟨hs, rfl, fun _ => rfl, fun h => absurd (show RADEON_CS_SPACE_FLUSH = 0 from h) (by decide)⟩
    | some r =>
        obtain ⟨a, z₁⟩ := r
        exact .pure ⟨hs, rfl, fun h => absurd rfl h, fun _ {l l' z'} h => .counted hb hnot haccount h⟩

theorem setupBos_spec {s₀ : State} (hs : Prepared s₀ s) : Ensures (setupBos l z s) fun r =>
    Prepared s₀ r.2.2.2 ∧ r.2.1.map SpaceCheck.request = l.map SpaceCheck.request ∧
      (r.1 ≠ 0 → r.1 = RADEON_CS_SPACE_FLUSH) ∧ (r.1 = 0 → Setup s₀ l z r.2.1 r.2.2.1) := by
  induction l generalizing z s with
  | nil => exact .ok ⟨hs, rfl, fun h => absurd rfl h, fun _ => .nil⟩
  | cons sc l ih =>
      refine (setupBo_spec hs).bind ?_
      rintro ⟨ret, sc', z₁, s₁⟩ ⟨hs₁, hsc, hflush, hsetup⟩
      dsimp only
      split
      · next hret => exact .pure ⟨hs₁, by simpa using hsc, hflush, fun h => absurd h hret⟩
      · next hret =>
        refine (ih hs₁).bind ?_
        rintro ⟨ret', l', z₂, s₂⟩ ⟨hs₂, hl, hflush', hrest⟩
        refine .pure ⟨hs₂, ?_, hflush', fun h => hsetup (not_not.mp hret) (hrest h)⟩
        rw [List.map_cons, List.map_cons, hl]
        exact congrArg (· :: _) hsc

/-- What is recorded for a buffer in the second pass; the last request for it stays. -/
def lastRecorded (l : List SpaceCheck) (b : BoId) (a : BitVec 32) : BitVec 32 :=
  l.foldl (fun a sc => if b = sc.bo then sc.newAccounted else a) a

theorem commitBo_spec {sc : SpaceCheck} : Ensures (commitBo s sc) fun s' =>
    Recounted (fun b a => if b = sc.bo then sc.newAccounted else a) s s' ∧ s'.csm = s.csm :=
  (getBo_spec).bind fun _ hb => .pure ⟨.setBo hb, rfl⟩

theorem commitBos_spec : Ensures (l.foldlM commitBo s) fun s' =>
    Recounted (lastRecorded l) s s' ∧ s'.csm = s.csm := by
  induction l generalizing s with
  | nil => exact .ok ⟨.refl, rfl⟩
  | cons sc l ih =>
      rw [List.foldlM_cons]
      refine (commitBo_spec).bind fun s₁ hs₁ => ih.mono fun s₂ hs₂ => ?_
      exact ⟨hs₁.1.trans hs₂.1, hs₂.2.trans hs₁.2⟩

theorem judge_cases {csm : Manager} (h : judge z csm ≠ RADEON_CS_SPACE_OK) :
    judge z csm = RADEON_CS_SPACE_OP_TO_BIG ∨ judge z csm = RADEON_CS_SPACE_FLUSH := by
  unfold judge at h ⊢
  dsimp only at h ⊢
  generalize (if z.opRead < 0 then 0 else z.opRead) = opRead at h ⊢
  split
  · exact .inl rfl
  · next h' =>
    rw [if_neg h'] at h
    split
    · exact .inr rfl
    · next h'' =>
      rw [if_neg h''] at h
      exact absurd rfl h

/-- A check that is refused records nothing. -/
theorem doSpaceCheck_spec {newTmp : Option SpaceCheck} : Ensures (doSpaceCheck c newTmp s) fun r =>
    ∃ cs, s.cs c = some cs ∧
      ((r.1 = RADEON_CS_SPACE_OP_TO_BIG ∨ r.1 = RADEON_CS_SPACE_FLUSH) ∧ Recounted (fun _ a => a) s r.2 ∧
          r.2.csm = s.csm ∨
        r.1 = 0 ∧ cs.bos = [] ∧ newTmp = none ∧ r.2 = s ∨
        r.1 = 0 ∧ ∃ l z, Setup s (cs.bos ++ newTmp.toList) {} l z ∧ judge z s.csm = RADEON_CS_SPACE_OK ∧
          Recounted (lastRecorded l) s r.2 ∧ r.2.csm = use z s.csm) := by
  refine (getCs_spec).bind fun cs hc => ?_
  split
  · next hempty => exact .pure ⟨cs, hc, .inr (.inl ⟨rfl, hempty.1, hempty.2, rfl⟩)⟩
  · refine (setupBos_spec .refl).bind ?_
    rintro ⟨ret, bos, z, s₁⟩ ⟨hs₁, hbos, hflush, hsetup⟩
    dsimp only
    split
    · next hret => exact .pure ⟨cs, hc, .inl ⟨.inr (hflush hret), hs₁.recounted.setBos hc hbos, hs₁.csm⟩⟩
    · next hret =>
      have hs₁ : Prepared s (s₁.setCs c (cs.withBos bos)) := ⟨hs₁.recounted.setBos hc hbos, hs₁.csm⟩
      refine (setupBos_spec hs₁).bind ?_
      rintro ⟨ret', tmp, z', s₂⟩ ⟨hs₂, -, hflush', hsetup'⟩
      dsimp only
      split
      · next hret' => exact .pure ⟨cs, hc, .inl ⟨.inr (hflush' hret'), hs₂.recounted, hs₂.csm⟩⟩
      · next hret' =>
        split
        · next hjudge => exact .pure ⟨cs, hc, .inl ⟨judge_cases hjudge, hs₂.recounted, hs₂.csm⟩⟩
        · next hjudge =>
          have hsetups := (hsetup (not_not.mp hret)).append (hsetup' (not_not.mp hret'))
          have hcsm : s₂.csm = s.csm := hs₂.csm
          refine (commitBos_spec).bind fun s₃ hs₃ => .pure ⟨cs, hc, .inr (.inr ⟨rfl, bos ++ tmp, z', hsetups, ?_, ?_, ?_⟩)⟩
          · rw [← hcsm]
            exact not_not.mp hjudge
          · exact (hs₂.recounted.counters _).trans hs₃.1
          · rw [hs₃.2, ← hcsm]

/-- An attempt returns one of three values. -/
theorem doSpaceCheck_ret {newTmp : Option SpaceCheck} : Ensures (doSpaceCheck c newTmp s) fun r =>
    r.1 = RADEON_CS_SPACE_OK ∨ r.1 = RADEON_CS_SPACE_OP_TO_BIG ∨ r.1 = RADEON_CS_SPACE_FLUSH := by
  refine (doSpaceCheck_spec).mono ?_
  rintro r ⟨cs, -, ⟨h, -⟩ | ⟨h, -⟩ | ⟨h, -⟩⟩
  · exact .inr h
  · exact .inl h
  · exact .inl h

/-- The attempt fits, or is too big, or the stream is flushed and there is a second one. -/
theorem checkSpaceInternal_cases {flush : State → Except Fault State} {tmpBo : Option SpaceCheck} {ret : Int}
    (h : checkSpaceInternal flush c tmpBo s = .ok (ret, s')) :
    doSpaceCheck c tmpBo s = .ok (RADEON_CS_SPACE_OK, s') ∧ ret = 0 ∨
      doSpaceCheck c tmpBo s = .ok (RADEON_CS_SPACE_OP_TO_BIG, s') ∧ ret = -1 ∨
      ∃ s₁ s₂, doSpaceCheck c tmpBo s = .ok (RADEON_CS_SPACE_FLUSH, s₁) ∧ flush s₁ = .ok s₂ ∧
        (doSpaceCheck c tmpBo s₂ = .ok (RADEON_CS_SPACE_OK, s') ∧ ret = 0 ∨
          doSpaceCheck c tmpBo s₂ = .ok (RADEON_CS_SPACE_OP_TO_BIG, s') ∧ ret = -1 ∨
          ∃ s₃, doSpaceCheck c tmpBo s₂ = .ok (RADEON_CS_SPACE_FLUSH, s₃) ∧ flush s₃ = .ok s' ∧ ret = -1) := by
  obtain ⟨⟨ret₁, s₁⟩, hdo, h⟩ := exists_of_bind_ok h
  rcases doSpaceCheck_ret _ hdo with hret | hret | hret
  · subst hret
    cases h
    exact .inl ⟨hdo, rfl⟩
  · subst hret
    cases h
    exact .inr (.inl ⟨hdo, rfl⟩)
  · subst hret
    obtain ⟨s₂, hflush, h⟩ := exists_of_bind_ok h
    refine .inr (.inr ⟨s₁, s₂, hdo, hflush, ?_⟩)
    obtain ⟨⟨ret₂, s₃⟩, hdo₂, h⟩ := exists_of_bind_ok h
    rcases doSpaceCheck_ret _ hdo₂ with hret | hret | hret
    · subst hret
      cases h
      exact .inl ⟨hdo₂, rfl⟩
    · subst hret
      cases h
      exact .inr (.inl ⟨hdo₂, rfl⟩)
    · subst hret
      obtain ⟨s₄, hflush₂, h⟩ := exists_of_bind_ok h
      cases h
      exact .inr (.inr ⟨s₃, hdo₂, hflush₂, rfl⟩)

/-- What the check and the flush keep, the check with its flushes keeps. -/
theorem checkSpaceInternal_keeps {I : State → Prop} {flush : State → Except Fault State} {tmpBo : Option SpaceCheck}
    (hcheck : ∀ s, I s → Ensures (doSpaceCheck c tmpBo s) fun r => I r.2) (hflush : ∀ s, I s → Ensures (flush s) I)
    (hs : I s) : Ensures (checkSpaceInternal flush c tmpBo s) fun r => I r.2 := by
  refine (hcheck s hs).bind ?_
  rintro ⟨ret, s₁⟩ hs₁
  dsimp only
  split
  · exact .pure hs₁
  · split
    · refine (hflush s₁ hs₁).bind fun s₂ hs₂ => (hcheck s₂ hs₂).bind ?_
      rintro ⟨ret, s₃⟩ hs₃
      dsimp only
      split
      · exact .pure hs₃
      · split
        · exact (hflush s₃ hs₃).bind fun s₄ hs₄ => .pure hs₄
        · exact .pure hs₃
    · exact .pure hs₁

end LibDrm.Radeon
