/-
# `LibDrm.Radeon.Calls` — what the calls can change

Three kinds of change cover the calls on streams and buffers:

    Still s s'          nothing but packets, reference counts and lists for the next check
    Retired f l s s'    the buffers `l` were changed by `f` and lost a reference
    Written …           what `write_reloc` does when it returns 0

A buffer may be freed in each of them: every statement is about the buffers that are
left.
-/
import LibDrm.Radeon.Space
import Mathlib.Data.List.ReduceOption

namespace LibDrm.Radeon

variable {s s' s'' : State} {b : BoId} {c : CsId} {bo bo' : Bo} {cs cs' : Cs}

/-! ## Reading and writing the state -/

theorem getBo_spec : Ensures (s.getBo b) fun bo => s.bo b = some bo := by
  unfold State.getBo
  split
  · next h => exact .ok h
  · exact .error

theorem getCs_spec : Ensures (s.getCs c) fun cs => s.cs c = some cs := by
  unfold State.getCs
  split
  · next h => exact .ok h
  · exact .error

theorem deref_spec {α : Type} {o : Option α} : Ensures (deref o) fun a => o = some a := by
  cases o with
  | none => exact .error
  | some a => exact .ok rfl

theorem assert_spec {p : Bool} : Ensures (assert p) fun _ => p = true := by
  unfold assert
  split
  · next h => exact .ok h
  · exact .error

@[simp] theorem setBo_cs : (s.setBo b bo).cs = s.cs := rfl

@[simp] theorem setCs_bo : (s.setCs c cs).bo = s.bo := rfl

@[simp] theorem setBo_bo_self : (s.setBo b bo).bo b = some bo := by simp [State.setBo]

@[simp] theorem setCs_cs_self : (s.setCs c cs).cs c = some cs := by simp [State.setCs]

theorem setBo_bo {d : BoId} (h : (s.setBo b bo).bo d = some bo') :
    d = b ∧ bo' = bo ∨ d ≠ b ∧ s.bo d = some bo' := by
  simp only [State.setBo, Function.update_apply] at h
  split at h
  · next hd => exact .inl ⟨hd, (Option.some.inj h).symm⟩
  · next hd => exact .inr ⟨hd, h⟩

theorem setCs_cs {d : CsId} (h : (s.setCs c cs).cs d = some cs') :
    d = c ∧ cs' = cs ∨ d ≠ c ∧ s.cs d = some cs' := by
  simp only [State.setCs, Function.update_apply] at h
  split at h
  · next hd => exact .inl ⟨hd, (Option.some.inj h).symm⟩
  · next hd => exact .inr ⟨hd, h⟩

/-- `create` fails, perhaps with an id lost, or there is a new stream that is empty. -/
theorem csCreate_spec (ndw : Nat) (mem : Nat → Option Nat) (s : State) :
    (csCreate ndw mem s).2 = s ∨ (csCreate ndw mem s).2 = { s with csIdSource := (generateId s.csIdSource).2 } ∨
      ∃ cs : Cs, (csCreate ndw mem s).2 =
          { s.setCs s.freshCs cs with freshCs := s.freshCs + 1, csIdSource := (generateId s.csIdSource).2 } ∧
        cs.id = (generateId s.csIdSource).1 ∧ cs.relocs = [] ∧ cs.relocsBo = [] ∧ cs.bos = [] := by
  unfold csCreate
  split
  · exact .inl rfl
  · split
    · dsimp only
      split
      · exact .inr (.inr ⟨_, by rfl, by rfl, by rfl, by rfl, by rfl⟩)
      · exact .inr (.inl rfl)
    · exact .inl rfl

/-! ## Neither tables nor what is counted -/

def Bo.counted (n : Nat) (bo : Bo) : Bo := { bo with cref := n }

@[simp] theorem counted_counted {n m : Nat} : Bo.counted n (Bo.counted m bo) = Bo.counted n bo := rfl

/-- The streams keep their tables, and the buffers that are left all but their reference counts. -/
structure Still (s s' : State) : Prop where
  freshBo : s'.freshBo = s.freshBo
  freshCs : s'.freshCs = s.freshCs
  source : s'.csIdSource = s.csIdSource
  csm : s'.csm = s.csm
  bo : ∀ b bo', s'.bo b = some bo' → ∃ bo n, s.bo b = some bo ∧ bo' = Bo.counted n bo
  cs : ∀ c cs', s'.cs c = some cs' →
    ∃ cs, s.cs c = some cs ∧ cs'.relocs = cs.relocs ∧ cs'.relocsBo = cs.relocsBo ∧ cs'.id = cs.id

namespace Still

theorem refl : Still s s :=
  ⟨rfl, rfl, rfl, rfl, fun _ bo h => ⟨bo, bo.cref, h, rfl⟩, fun _ cs h => ⟨cs, h, rfl, rfl, rfl⟩⟩

theorem trans (h : Still s s') (h' : Still s' s'') : Still s s'' where
  freshBo := h'.freshBo.trans h.freshBo
  freshCs := h'.freshCs.trans h.freshCs
  source := h'.source.trans h.source
  csm := h'.csm.trans h.csm
  bo b bo'' hb := by
    obtain ⟨bo', n', hb', rfl⟩ := h'.bo b bo'' hb
    obtain ⟨bo, n, hb₀, rfl⟩ := h.bo b bo' hb'
    exact ⟨bo, n', hb₀, rfl⟩
  cs c cs'' hc := by
    obtain ⟨cs', hc, hrelocs', hbos', hid'⟩ := h'.cs c cs'' hc
    obtain ⟨cs, hc, hrelocs, hbos, hid⟩ := h.cs c cs' hc
    exact ⟨cs, hc, hrelocs'.trans hrelocs, hbos'.trans hbos, hid'.trans hid⟩

theorem setBo {n : Nat} (hb : s.bo b = some bo) : Still s (s.setBo b (Bo.counted n bo)) := by
  refine ⟨rfl, rfl, rfl, rfl, ?_, fun _ cs h => ⟨cs, h, rfl, rfl, rfl⟩⟩
  intro d bo₁ hd
  rcases setBo_bo hd with ⟨rfl, rfl⟩ | ⟨-, hd⟩
  · exact ⟨bo, n, hb, rfl⟩
  · exact ⟨bo₁, bo₁.cref, hd, rfl⟩

theorem setCs (hc : s.cs c = some cs) (hrelocs : cs'.relocs = cs.relocs) (hbos : cs'.relocsBo = cs.relocsBo)
    (hid : cs'.id = cs.id) : Still s (s.setCs c cs') := by
  refine ⟨rfl, rfl, rfl, rfl, fun _ bo h => ⟨bo, bo.cref, h, rfl⟩, ?_⟩
  intro d cs₁ hd
  rcases setCs_cs hd with ⟨rfl, rfl⟩ | ⟨-, hd⟩
  · exact ⟨cs, hc, hrelocs, hbos, hid⟩
  · exact ⟨cs₁, hd, rfl, rfl, rfl⟩

theorem dropBo : Still s { s with bo := Function.update s.bo b none } := by
  refine ⟨rfl, rfl, rfl, rfl, ?_, fun _ cs h => ⟨cs, h, rfl, rfl, rfl⟩⟩
  intro d bo₁ hd
  rcases eq_or_ne d b with rfl | hdb
  · simp at hd
  · exact ⟨bo₁, bo₁.cref, by simpa [hdb] using hd, rfl⟩

end Still

theorem boRef_spec : Ensures (boRef b s) fun s' =>
    ∃ bo, s.bo b = some bo ∧ s' = s.setBo b (Bo.counted (bo.cref + 1) bo) :=
  (getBo_spec).bind fun bo hb => .pure ⟨bo, hb, rfl⟩

/-- A buffer loses a reference, and with the last one it is freed. -/
theorem boUnref_spec : Ensures (boUnref b s) fun s' => ∃ bo, s.bo b = some bo ∧
    (s' = s.setBo b (Bo.counted (bo.cref - 1) bo) ∨ s' = { s with bo := Function.update s.bo b none }) := by
  refine (getBo_spec).bind fun bo hb => ?_
  split
  · exact .pure ⟨bo, hb, .inl rfl⟩
  · exact .pure ⟨bo, hb, .inr rfl⟩

theorem boRef_still : Ensures (boRef b s) (Still s) := by
  refine (boRef_spec).mono ?_
  rintro _ ⟨bo, hb, rfl⟩
  exact .setBo hb

theorem boUnref_still : Ensures (boUnref b s) fun s' => Still s s' ∧ s'.cs = s.cs := by
  refine (boUnref_spec).mono ?_
  rintro _ ⟨bo, hb, rfl | rfl⟩
  · exact ⟨.setBo hb, rfl⟩
  · exact ⟨.dropBo, rfl⟩

theorem writeDword_spec {dword : BitVec 32} : Ensures (writeDword dword cs) fun cs' =>
    ∃ n, cs' = { cs with packets := cs.packets ++ [dword], sectionCdw := n } := by
  unfold writeDword
  split
  · exact .ok ⟨_, rfl⟩
  · exact .error

theorem csBegin_still {ndw : BitVec 32} {mem : Nat → Option Nat} :
    Ensures (csBegin c ndw mem s) fun r => Still s r.2 := by
  refine (getCs_spec).bind fun cs hc => ?_
  split
  · exact .pure .refl
  · dsimp only
    split
    · cases mem 0 with
      | none => exact .pure (.setCs hc rfl rfl rfl)
      | some packetsAt => exact .pure (.setCs hc rfl rfl rfl)
    · exact .pure (.setCs hc rfl rfl rfl)

theorem csEnd_still : Ensures (csEnd c s) fun r => Still s r.2 := by
  refine (getCs_spec).bind fun cs hc => ?_
  split
  · exact .pure .refl
  · split
    · exact .pure (.setCs hc rfl rfl rfl)
    · exact .pure (.setCs hc rfl rfl rfl)

theorem opWriteDword_still {dword : BitVec 32} : Ensures ((Op.writeDword c dword).run s) fun r => Still s r.2 := by
  refine (getCs_spec).bind fun cs hc => (writeDword_spec).bind ?_
  rintro _ ⟨n, rfl⟩
  exact .pure (.setCs hc rfl rfl rfl)

theorem spaceAddPersistentBo_still {readDomains writeDomain : BitVec 32} :
    Ensures (spaceAddPersistentBo c b readDomains writeDomain s) (Still s) := by
  refine (getCs_spec).bind fun cs hc => ?_
  split
  · exact .pure .refl
  · refine (boRef_spec).bind ?_
    rintro _ ⟨bo, hb, rfl⟩
    have hs₁ : Still s (s.setBo b (Bo.counted (bo.cref + 1) bo)) := .setBo hb
    exact (assert_spec).bind fun _ _ => .pure (hs₁.trans (.setCs hc rfl rfl rfl))

theorem spaceResetBos_still : Ensures (spaceResetBos c s) (Still s) := by
  refine (getCs_spec).bind fun cs hc => ?_
  have hloop : Ensures (cs.bos.foldlM (fun s sc => boUnref sc.bo s) s) fun s₁ => Still s s₁ ∧ s₁.cs c = some cs := by
    refine Ensures.foldlM ⟨.refl, hc⟩ ?_
    rintro s₁ sc ⟨hs₁, hc₁⟩
    refine (boUnref_still).mono ?_
    rintro s₂ ⟨hs₂, hc₂⟩
    exact ⟨hs₁.trans hs₂, by rw [hc₂, hc₁]⟩
  refine hloop.bind ?_
  rintro s₁ ⟨hs₁, hc₁⟩
  exact .pure (hs₁.trans (.setCs hc₁ rfl rfl rfl))

/-! ## Buffers that leave a stream -/

/-- The buffers that are in the table of the stream and were not emitted yet. -/
def Cs.held (cs : Cs) : List BoId := cs.relocsBo.reduceOption

/-- One round of the loops of `emit` and `erase`: `f` is what happens to the buffer before it is released. -/
def retire (f : Bo → Bo) (s : State) (b : BoId) : Except Fault State := do
  let bo ← s.getBo b
  boUnref b (s.setBo b (f bo))

/-- What `erase` does to a buffer, and `emit`. -/
def Bo.leave (id : BitVec 32) (bo : Bo) : Bo := { bo with relocInCs := bo.relocInCs - id }

def Bo.emitted (id : BitVec 32) (bo : Bo) : Bo := { bo with spaceAccounted := 0, relocInCs := bo.relocInCs - id }

theorem getBo_setBo : (s.setBo b bo).getBo b = .ok bo := by simp [State.getBo]

theorem setBo_setBo : (s.setBo b bo).setBo b bo' = s.setBo b bo' := by simp [State.setBo]

theorem emitBo_some {id : BitVec 32} : emitBo id s (some b) = retire (Bo.emitted id) s b := by
  change (s.getBo b >>= fun bo => releaseBo id b (s.setBo b { bo with spaceAccounted := 0 })) = _
  refine congrArg (s.getBo b >>= ·) (funext fun bo => ?_)
  unfold releaseBo
  rw [getBo_setBo]
  exact congrArg (boUnref b) setBo_setBo

/-- The loop of `emit` ends only if no buffer was emitted before. -/
theorem emitBos_spec {id : BitVec 32} {l : List (Option BoId)} {Q : State → Prop}
    (h : Ensures (l.reduceOption.foldlM (retire (Bo.emitted id)) s) Q) :
    Ensures (l.foldlM (emitBo id) s) fun s' => Q s' ∧ none ∉ l := by
  induction l generalizing s with
  | nil => exact h.mono fun _ hq => ⟨hq, by simp⟩
  | cons entry l ih =>
      rw [List.foldlM_cons]
      cases entry with
      | none => exact .error
      | some b =>
          rw [emitBo_some]
          intro s' hs'
          rw [List.reduceOption_cons_of_some, List.foldlM_cons] at h
          cases hb : retire (Bo.emitted id) s b with
          | error e =>
              rw [hb] at hs'
              cases hs'
          | ok s₁ =>
              rw [hb] at hs' h
              obtain ⟨hq, hl⟩ := ih h s' hs'
              exact ⟨hq, by simpa using hl⟩

theorem eraseBos_eq {id : BitVec 32} {l : List (Option BoId)} :
    l.foldlM (eraseBo id) s = l.reduceOption.foldlM (retire (Bo.leave id)) s := by
  induction l generalizing s with
  | nil => rfl
  | cons entry l ih =>
      rw [List.foldlM_cons]
      cases entry with
      | none => exact ih
      | some b =>
          rw [List.reduceOption_cons_of_some, List.foldlM_cons]
          exact congrArg (retire (Bo.leave id) s b >>= ·) (funext fun s₁ => ih)

/-- The buffers `l` were changed by `f`; nothing else but reference counts changed. -/
structure Retired (f : Bo → Bo) (l : List BoId) (s s' : State) : Prop where
  rest : s' = { s with bo := s'.bo }
  bo : ∀ b bo', s'.bo b = some bo' →
    ∃ bo n, s.bo b = some bo ∧ bo' = Bo.counted n (if b ∈ l then f bo else bo)

theorem retire_spec {f : Bo → Bo} : Ensures (retire f s b) (Retired f [b] s) := by
  refine (getBo_spec).bind fun bo hb => (boUnref_spec).mono ?_
  have hother : ∀ {d bo' o}, Function.update s.bo b o d = some bo' → d ≠ b →
      ∃ bo n, s.bo d = some bo ∧ bo' = Bo.counted n (if d ∈ [b] then f bo else bo) := by
    intro d bo' o hd hdb
    rw [Function.update_of_ne hdb] at hd
    exact ⟨bo', bo'.cref, hd, by simp [hdb, Bo.counted]⟩
  rintro _ ⟨bo₁, hb₁, rfl | rfl⟩
  · rw [setBo_bo_self] at hb₁
    cases hb₁
    refine ⟨by rw [setBo_setBo]; rfl, fun d bo' hd => ?_⟩
    rw [setBo_setBo] at hd
    rcases setBo_bo hd with ⟨rfl, rfl⟩ | ⟨hdb, -⟩
    · exact ⟨bo, (f bo).cref - 1, hb, by simp [Bo.counted]⟩
    · exact hother hd hdb
  · refine ⟨by simp [State.setBo], fun d bo' hd => ?_⟩
    simp only [State.setBo, Function.update_idem] at hd
    rcases eq_or_ne d b with rfl | hdb
    · simp at hd
    · exact hother hd hdb

/-- Every buffer at most once. -/
theorem retireAll_spec {f : Bo → Bo} (hf : ∀ bo n, f (Bo.counted n bo) = Bo.counted n (f bo)) {l : List BoId}
    (hl : l.Nodup) : Ensures (l.foldlM (retire f) s) (Retired f l s) := by
  refine Ensures.foldlM_done (I := fun done s' => Retired f done s s') ⟨rfl, ?_⟩ ?_
  · exact fun b bo hb => ⟨bo, bo.cref, hb, by simp [Bo.counted]⟩
  intro done x rest s₁ hsplit hs₁
  refine (retire_spec).mono fun s₂ hs₂ => ⟨?_, ?_⟩
  · rw [hs₂.rest, hs₁.rest]
  · intro b bo₂ hb
    obtain ⟨bo₁, n, hb₁, rfl⟩ := hs₂.bo b bo₂ hb
    obtain ⟨bo, m, hb₀, rfl⟩ := hs₁.bo b bo₁ hb₁
    refine ⟨bo, n, hb₀, ?_⟩
    rcases eq_or_ne b x with rfl | hbx
    · -- it is not among those that were released before
      have hx : b ∉ done := by
        rw [hsplit] at hl
        exact fun h => (List.nodup_append.mp hl).2.2 b h b (by simp) rfl
      simp [hx, hf]
    · by_cases hd : b ∈ done
      · simp [hbx, hd]
      · simp [hbx, hd]

theorem padPackets_spec : Ensures (padPackets cs) fun cs' =>
    ∃ packets n, cs' = { cs with packets, sectionCdw := n } := by
  refine Ensures.foldlM ⟨cs.packets, cs.sectionCdw, rfl⟩ ?_
  rintro _ - ⟨packets, n, rfl⟩
  refine (writeDword_spec).mono ?_
  rintro _ ⟨n, rfl⟩
  exact ⟨_, n, rfl⟩

/-- `emit`: the buffers of the stream leave it, and the counters start again. -/
theorem csEmit_spec {result : Int} (honce : ∀ cs, s.cs c = some cs → cs.held.Nodup) :
    Ensures (csEmit c result s) fun r => r.1 = result ∧ ∃ cs cs' s₁, s.cs c = some cs ∧ none ∉ cs.relocsBo ∧
      Retired (Bo.emitted cs.id) cs.held s s₁ ∧
      r.2 = { s₁.setCs c cs' with csm := { s.csm with readUsed := 0, vramWriteUsed := 0, gartWriteUsed := 0 } } ∧
      cs'.relocs = cs.relocs ∧ cs'.relocsBo = cs.relocsBo.map (fun _ => none) ∧ cs'.id = cs.id ∧
      cs'.bos = cs.bos := by
  refine (getCs_spec).bind fun cs hc => (padPackets_spec).bind ?_
  rintro _ ⟨packets, n, rfl⟩
  dsimp only
  refine (emitBos_spec (retireAll_spec (fun _ _ => rfl) (honce cs hc))).bind ?_
  rintro s₁ ⟨hs₁, hnone⟩
  have hcsm : s₁.csm = s.csm := by rw [hs₁.rest]
  exact .pure ⟨rfl, cs, _, s₁, hc, hnone, hs₁, by rw [← hcsm]; rfl, by rfl, by rfl, by rfl, by rfl⟩

/-- `erase`: the buffers of the stream leave it, and it is empty. -/
theorem csErase_spec (honce : ∀ cs, s.cs c = some cs → cs.held.Nodup) :
    Ensures (csErase c s) fun s' => ∃ cs cs' s₁, s.cs c = some cs ∧ Retired (Bo.leave cs.id) cs.held s s₁ ∧
      s' = s₁.setCs c cs' ∧ cs'.relocs = [] ∧ cs'.relocsBo = [] ∧ cs'.id = cs.id ∧ cs'.bos = cs.bos := by
  refine (getCs_spec).bind fun cs hc => ?_
  rw [eraseBos_eq]
  refine (retireAll_spec (fun _ _ => rfl) (honce cs hc)).bind fun s₁ hs₁ => ?_
  exact .pure ⟨cs, _, s₁, hc, hs₁, rfl, rfl, rfl, rfl, rfl⟩

/-! ## Relocations -/

/-- The two words that refer to the entry `i` of the table. -/
def relocPacket (i : Nat) : List (BitVec 32) := [0xc0001000, BitVec.ofNat 32 (i * RELOC_SIZE)]

theorem writeRelocPacket_spec {i : Nat} : Ensures (writeRelocPacket (i * RELOC_SIZE) cs) fun cs' =>
    ∃ n, cs' = { cs with packets := cs.packets ++ relocPacket i, sectionCdw := n } := by
  refine (writeDword_spec).bind ?_
  rintro _ ⟨n, rfl⟩
  refine (writeDword_spec).mono ?_
  rintro _ ⟨n, rfl⟩
  exact ⟨n, by simp [relocPacket]⟩

/-- A search from the end to the start finds the last entry with the handle. -/
theorem findReloc_some {handle : BitVec 32} {relocs : List Reloc} {i : Nat} (h : findReloc handle relocs = some i) :
    ∃ reloc, relocs[i]? = some reloc ∧ reloc.handle = handle := by
  have hi := List.find?_some h
  cases hreloc : relocs[i]? with
  | none => simp [hreloc] at hi
  | some reloc => exact ⟨reloc, rfl, by simpa [hreloc] using hi⟩

theorem findReloc_none {handle : BitVec 32} {relocs : List Reloc} (h : findReloc handle relocs = none) {i : Nat}
    {reloc : Reloc} (hi : relocs[i]? = some reloc) : reloc.handle ≠ handle := by
  have hlt : i < relocs.length := (List.getElem?_eq_some_iff.mp hi).1
  have := List.find?_eq_none.mp h i (by simpa using hlt)
  simpa [hi] using this

/-- The requests that pass the checks of the domains. -/
def Request (readDomain writeDomain : BitVec 32) : Prop :=
  (readDomain ≠ 0 ∧ writeDomain = 0 ∨ readDomain = 0 ∧ writeDomain ≠ 0) ∧
    readDomain ≠ RADEON_GEM_DOMAIN_CPU ∧ writeDomain ≠ RADEON_GEM_DOMAIN_CPU

/-- Where the buffer is looked up. -/
def Cs.lookup (bo : Bo) (cs : Cs) : Option Nat :=
  if bo.relocInCs &&& cs.id ≠ 0 then findReloc bo.handle cs.relocs else none

/-- What `write_reloc` does when it returns 0: it found the entry `i`, or it added one at the end. -/
inductive Written (c : CsId) (b : BoId) (readDomain writeDomain flags : BitVec 32) (s : State) (cs : Cs) (bo : Bo) :
    Cs → State → Prop
  | again {i : Nat} {reloc reloc' : Reloc} {cs' : Cs} (hfind : cs.lookup bo = some i)
      (hi : cs.relocs[i]? = some reloc) (hreloc : updateDomains readDomain writeDomain reloc = some reloc')
      (hrelocs : cs'.relocs = cs.relocs.set i (updateFlags flags reloc')) (hbos : cs'.relocsBo = cs.relocsBo)
      (hpackets : cs'.packets = cs.packets ++ relocPacket i) (hid : cs'.id = cs.id) (hspace : cs'.bos = cs.bos) :
      Written c b readDomain writeDomain flags s cs bo cs' (s.setCs c cs')
  | new {cs' : Cs} (hfind : cs.lookup bo = none) (hfits : cs.relocs.length + 1 < 2 ^ 28)
      (hrelocs : cs'.relocs = cs.relocs ++ [⟨bo.handle, readDomain, writeDomain, flags⟩])
      (hbos : cs'.relocsBo = cs.relocsBo ++ [some b])
      (hpackets : cs'.packets = cs.packets ++ relocPacket cs.relocs.length) (hid : cs'.id = cs.id)
      (hspace : cs'.bos = cs.bos) :
      Written c b readDomain writeDomain flags s cs bo cs'
        ((s.setBo b { bo with cref := bo.cref + 1, relocInCs := bo.relocInCs + cs.id }).setCs c cs')

theorem growRelocs_spec {mem : Nat → Option Nat} (h : growRelocs mem cs = some cs') :
    ∃ relocsAt nrelocs relocChunk, cs' = { cs with relocsAt, nrelocs, relocChunk } := by
  unfold growRelocs at h
  split at h
  · split at h
    · cases h
      exact ⟨_, _, _, rfl⟩
    · cases h
  · cases h
    exact ⟨_, _, _, rfl⟩

theorem neg_ENOMEM_ne_zero : -ENOMEM ≠ 0 := by decide

theorem neg_EINVAL_ne_zero : -EINVAL ≠ 0 := by decide

theorem newReloc_spec {readDomain writeDomain flags : BitVec 32} {mem : Nat → Option Nat} (hc : s.cs c = some cs)
    (hb : s.bo b = some bo) (hfind : cs.lookup bo = none) :
    Ensures (newReloc c b readDomain writeDomain flags mem s) fun r => r.1 ≠ 0 ∧ r.2 = s ∨
      r.1 = 0 ∧ ∃ cs', Written c b readDomain writeDomain flags s cs bo cs' r.2 := by
  unfold newReloc
  rw [show s.getCs c = .ok cs by simp [State.getCs, hc], show s.getBo b = .ok bo by simp [State.getBo, hb]]
  refine Ensures.bind (P := (· = cs)) (.ok rfl) ?_
  rintro _ rfl
  refine Ensures.bind (P := (· = bo)) (.ok rfl) ?_
  rintro _ rfl
  split
  · exact .pure (.inl ⟨neg_ENOMEM_ne_zero, rfl⟩)
  · next cs₁ hgrow =>
    obtain ⟨relocsAt, nrelocs, relocChunk, rfl⟩ := growRelocs_spec hgrow
    split
    · exact .error
    · next hfits =>
      refine (boRef_spec).bind ?_
      rintro _ ⟨bo₁, hb₁, rfl⟩
      cases hb.symm.trans hb₁
      rw [getBo_setBo]
      refine (show Ensures (Except.ok _ >>= _) _ from ?_)
      refine (writeRelocPacket_spec).bind ?_
      rintro _ ⟨n, rfl⟩
      rw [setBo_setBo]
      exact .pure (.inr ⟨rfl, _, .new hfind (Nat.lt_of_not_le hfits) rfl rfl rfl rfl rfl⟩)

/-- A refused request changes nothing. -/
theorem writeReloc_spec {readDomain writeDomain flags : BitVec 32} {mem : Nat → Option Nat} :
    Ensures (writeReloc c b readDomain writeDomain flags mem s) fun r => r.1 ≠ 0 ∧ r.2 = s ∨
      r.1 = 0 ∧ ∃ cs bo cs', s.cs c = some cs ∧ s.bo b = some bo ∧ bo.spaceAccounted ≠ 0 ∧
        Request readDomain writeDomain ∧ Written c b readDomain writeDomain flags s cs bo cs' r.2 := by
  refine (getCs_spec).bind fun cs hc => (getBo_spec).bind fun bo hb => (assert_spec).bind fun _ haccounted => ?_
  have haccounted : bo.spaceAccounted ≠ 0 := by simpa using haccounted
  split
  · exact .pure (.inl ⟨neg_EINVAL_ne_zero, rfl⟩)
  · next hdomains =>
    split
    · exact .pure (.inl ⟨neg_EINVAL_ne_zero, rfl⟩)
    · next hread =>
      split
      · exact .pure (.inl ⟨neg_EINVAL_ne_zero, rfl⟩)
      · next hwrite =>
        have hrequest : Request readDomain writeDomain := ⟨by tauto, hread, hwrite⟩
        split
        · next i hfind =>
          refine (deref_spec).bind fun reloc hi => ?_
          split
          · exact .pure (.inl ⟨neg_EINVAL_ne_zero, rfl⟩)
          · next reloc' hreloc =>
            refine (writeRelocPacket_spec).bind ?_
            rintro _ ⟨n, rfl⟩
            exact .pure (.inr ⟨rfl, cs, bo, _, hc, hb, haccounted, hrequest,
              .again hfind hi hreloc rfl rfl rfl rfl rfl⟩)
        · next hfind =>
          refine (newReloc_spec hc hb hfind).mono ?_
          rintro r (hr | ⟨hr, cs', hw⟩)
          · exact .inl hr
          · exact .inr ⟨hr, cs, bo, cs', hc, hb, haccounted, hrequest, hw⟩

end LibDrm.Radeon
