/-
# `LibDrm.Fake.Relocs` — relocations are right at submission

`emit_reloc` remembers where the target was when the caller wrote the relocated word,
and the validation rewrites the word only if the target is somewhere else by then.  So
the word and what is remembered must agree (`Truthful`):

    the word at offset  =  last_target_offset + delta

Every function keeps this.  At submission everything that the batch reaches is on the
hardware and current there, and each relocation remembers where its target is now;
hence the words that the GPU finds are right.
-/
import LibDrm.Fake.Coherence
import LibDrm.Fake.Quiet

open Relation

namespace LibDrm.Fake

variable {s s' s'' : State} {b c d : BoId} {bo bo' : Bo} {r : Reloc} {m : Machine}

/-- The last write to the word at the offset was the value. -/
def HoldsWord (s : State) (b : BoId) (offset : Nat) (value : UInt32) : Prop :=
  ∀ j < 4, s.content b (offset + j) = some ((bytes32 value).getD j 0)

/-- Two words do not overlap. -/
def WordsApart (o o' : UInt32) : Prop := o.toNat + 4 ≤ o'.toNat ∨ o'.toNat + 4 ≤ o.toNat

/-- The offsets of the relocations of a buffer. -/
def Bo.places (bo : Bo) : List UInt32 := bo.relocs.map Reloc.offset

/-- Relocated words hold what the manager remembers of their targets. -/
structure Truthful (s : State) : Prop where
  value : ∀ b bo, s.bo b = some bo → ∀ r ∈ bo.relocs, HoldsWord s b r.offset.toNat (r.lastTargetOffset + r.delta)
  apart : ∀ b bo, s.bo b = some bo → bo.places.Pairwise WordsApart

/-- This is kept, and the relocations stay where they are. -/
structure Keeps (s s' : State) : Prop where
  truthful : Truthful s → Truthful s'
  places : ∀ c, (s'.bo c).map Bo.places = (s.bo c).map Bo.places

theorem Keeps.refl (s : State) : Keeps s s := ⟨id, fun _ => rfl⟩

theorem Keeps.trans (h : Keeps s s') (h' : Keeps s' s'') : Keeps s s'' :=
  ⟨fun hs => h'.truthful (h.truthful hs), fun c => (h'.places c).trans (h.places c)⟩

theorem Ensures.keeps_bind {α β : Type} {x : Except Fault α} {f : α → Except Fault β} {p : α → State} {q : β → State}
    (hx : Ensures x fun a => Keeps s (p a)) (hf : ∀ a, Ensures (f a) fun r => Keeps (p a) (q r)) :
    Ensures (x >>= f) fun r => Keeps s (q r) :=
  hx.chain Keeps.trans hf

/-- The record and the relocations stay. -/
theorem keeps_of_same (hcontent : s'.content = s.content) (hrelocs : ∀ c, (s'.bo c).map Bo.relocs = (s.bo c).map Bo.relocs) :
    Keeps s s' := by
  have hfrom : ∀ c co', s'.bo c = some co' → ∃ co, s.bo c = some co ∧ co.relocs = co'.relocs := by
    intro c co' hc'
    have h := hrelocs c
    rw [hc'] at h
    exact Option.map_eq_some_iff.mp h.symm
  refine ⟨fun h => ⟨fun c co' hc' r hr => ?_, fun c co' hc' => ?_⟩, fun c => ?_⟩
  · obtain ⟨co, hc, heq⟩ := hfrom c co' hc'
    unfold HoldsWord
    rw [hcontent]
    exact h.value c co hc r (heq ▸ hr)
  · obtain ⟨co, hc, heq⟩ := hfrom c co' hc'
    rw [Bo.places, ← heq]
    exact h.apart c co hc
  · have h := congrArg (Option.map (List.map Reloc.offset)) (hrelocs c)
    rw [Option.map_map, Option.map_map] at h
    exact h

theorem Quiet.keeps (h : Quiet s s') : Keeps s s' := keeps_of_same h.content h.relocs

/-! ## Patching -/

/-- The bytes are recorded as the last write. -/
theorem writeVirtual_records (b : BoId) (offset : Nat) (bytes : List UInt8) (s : State) :
    Ensures (writeVirtual b offset bytes s) fun s' =>
      s'.content = Function.update s.content b (record (s.content b) offset bytes) ∧
      ∀ c, (s'.bo c).map Bo.relocs = (s.bo c).map Bo.relocs := by
  unfold writeVirtual
  refine (getBo_ensures b s).bind fun bo hb => ?_
  split
  · exact .error
  · dsimp only
    cases bo.virtual with
    | none => exact .error
    | some place =>
        cases place with
        | backing => exact Ensures.bind_any fun old => .pure ⟨rfl, (quiet_setBo hb (by rfl)).relocs⟩
        | card address => exact .pure ⟨rfl, fun _ => rfl⟩

/-- A word outside of what is written stays. -/
theorem HoldsWord.outside {offset place : Nat} {bytes : List UInt8} {value : UInt32} (h : HoldsWord s b place value)
    (hcontent : s'.content = Function.update s.content b (record (s.content b) offset bytes))
    (hout : ∀ j < 4, ¬ (offset ≤ place + j ∧ place + j < offset + bytes.length)) : HoldsWord s' b place value := by
  intro j hj
  rw [hcontent, Function.update_self, record, if_neg (hout j hj)]
  exact h j hj

theorem HoldsWord.other {offset place : Nat} {bytes : List UInt8} {value : UInt32} (h : HoldsWord s c place value)
    (hcontent : s'.content = Function.update s.content b (record (s.content b) offset bytes)) (hcb : c ≠ b) :
    HoldsWord s' c place value := by
  intro j hj
  rw [hcontent, Function.update_of_ne hcb]
  exact h j hj

theorem HoldsWord.written {offset : Nat} {value : UInt32}
    (hcontent : s'.content = Function.update s.content b (record (s.content b) offset (bytes32 value))) :
    HoldsWord s' b offset value := by
  intro j hj
  rw [hcontent, Function.update_self, record, bytes32_length, if_pos ⟨Nat.le_add_right .., by omega⟩, Nat.add_sub_cancel_left]

theorem address_add (offset : Int) (delta : UInt32) :
    UInt32.ofNat ((offset + delta.toNat) % 2 ^ 32).toNat = address offset + delta := by
  apply UInt32.toNat_inj.mp
  rw [UInt32.toNat_add, address, UInt32.toNat_ofNat', UInt32.toNat_ofNat']
  have := delta.toNat_lt
  omega

theorem wordsApart_symm {o o' : UInt32} (h : WordsApart o o') : WordsApart o' o := h.symm

/-- Two elements of a list whose elements are pairwise related. -/
theorem pairwise_getElem? {α : Type} {R : α → α → Prop} (hsymm : ∀ {a a' : α}, R a a' → R a' a) {l : List α}
    (h : l.Pairwise R) {i j : Nat} (hij : i ≠ j) {a a' : α} (ha : l[i]? = some a) (ha' : l[j]? = some a') : R a a' := by
  obtain ⟨hi, rfl⟩ := List.getElem?_eq_some_iff.mp ha
  obtain ⟨hj, rfl⟩ := List.getElem?_eq_some_iff.mp ha'
  rcases Nat.lt_or_gt_of_ne hij with hlt | hgt
  · exact List.pairwise_iff_getElem.mp h i j hi hj hlt
  · exact hsymm (List.pairwise_iff_getElem.mp h j i hj hi hgt)

/-- A word is rewritten together with what is remembered of its target. -/
theorem keeps_patch {s₁ : State} {bo₁ : Bo} {r' : Reloc} {i : Nat} (hb : s.bo b = some bo) (hi : bo.relocs[i]? = some r)
    (hoffset : r'.offset = r.offset)
    (hcontent : s₁.content = Function.update s.content b
      (record (s.content b) r.offset.toNat (bytes32 (r'.lastTargetOffset + r'.delta))))
    (hrelocs : ∀ c, (s₁.bo c).map Bo.relocs = (s.bo c).map Bo.relocs) (hb₁ : s₁.bo b = some bo₁) :
    Keeps s (s₁.setBo b { bo₁ with relocs := bo₁.relocs.set i r' }) := by
  have hsame : bo₁.relocs = bo.relocs := by
    have h := hrelocs b
    rw [hb, hb₁] at h
    exact Option.some.inj h
  have hlt : i < bo.relocs.length := (List.getElem?_eq_some_iff.mp hi).1
  have hget : bo.relocs[i] = r := (List.getElem?_eq_some_iff.mp hi).2
  have hplaces : (bo₁.relocs.set i r').map Reloc.offset = bo.places := by
    have hself : r'.offset = bo.places.get ⟨i, by rw [Bo.places, List.length_map]; exact hlt⟩ := by
      simp [Bo.places, hget, hoffset]
    rw [hsame, List.map_set, hself]
    exact List.set_getElem_self _
  refine ⟨fun h => ⟨fun c co hc ρ hρ => ?_, fun c co hc => ?_⟩, fun c => ?_⟩
  · by_cases hcb : c = b
    · subst hcb
      rw [setBo_self] at hc
      cases hc
      replace hρ : ρ ∈ bo.relocs.set i r' := hsame ▸ hρ
      obtain ⟨j, hj⟩ := List.mem_iff_getElem?.mp hρ
      rw [List.getElem?_set] at hj
      split at hj
      · -- the word itself
        case isTrue hij =>
          cases hj
          rw [hoffset]
          exact .written hcontent
      · -- another word of the same buffer
        case isFalse hij =>
          have hmem : ρ ∈ bo.relocs := List.mem_iff_getElem?.mpr ⟨j, hj⟩
          refine (h.value c bo hb ρ hmem).outside hcontent fun t ht => ?_
          have hapart : WordsApart r.offset ρ.offset := pairwise_getElem? wordsApart_symm (h.apart c bo hb) hij
            (by rw [Bo.places, List.getElem?_map, hi]; rfl) (by rw [Bo.places, List.getElem?_map, hj]; rfl)
          rw [bytes32_length]
          rcases hapart with hle | hle <;> omega
    · rw [setBo_of_ne hcb] at hc
      have hcrel := hrelocs c
      rw [hc] at hcrel
      obtain ⟨co₀, hco₀, heq⟩ := Option.map_eq_some_iff.mp hcrel.symm
      exact (h.value c co₀ hco₀ ρ (heq ▸ hρ)).other hcontent hcb
  · by_cases hcb : c = b
    · subst hcb
      rw [setBo_self] at hc
      cases hc
      rw [Bo.places, hplaces]
      exact h.apart c bo hb
    · rw [setBo_of_ne hcb] at hc
      have hcrel := hrelocs c
      rw [hc] at hcrel
      obtain ⟨co₀, hco₀, heq⟩ := Option.map_eq_some_iff.mp hcrel.symm
      rw [Bo.places, ← heq]
      exact h.apart c co₀ hco₀
  · by_cases hcb : c = b
    · subst hcb
      rw [setBo_self, hb, Option.map_some, Option.map_some, Bo.places, hplaces]
    · rw [setBo_of_ne hcb]
      have hcrel := congrArg (Option.map (List.map Reloc.offset)) (hrelocs c)
      rw [Option.map_map, Option.map_map] at hcrel
      exact hcrel

theorem applyReloc_keeps (env : Env) (b : BoId) (i : Nat) (s : State) : Ensures (applyReloc env b i s) (Keeps s) := by
  unfold applyReloc
  refine (getBo_ensures b s).bind fun bo hb => (deref_ensures _).bind fun r hr => Ensures.bind_any fun tbo => ?_
  split
  · exact .pure (.refl s)
  · have hrest : ∀ s₁, Quiet s s₁ → Ensures (do
        let s ← writeVirtual b r.offset.toNat (bytes32 (UInt32.ofNat ((tbo.offset + r.delta.toNat) % 2 ^ 32).toNat)) s₁
        s.modifyBo b fun bo => { bo with
          relocs := bo.relocs.set i { r with lastTargetOffset := UInt32.ofNat (tbo.offset % 2 ^ 32).toNat } }) (Keeps s) := by
      intro s₁ hquiet
      refine (writeVirtual_records b _ _ s₁).bind fun s₂ h₂ => (modifyBo_ensures b _ s₂).mono ?_
      rintro s₃ ⟨bo₂, hb₂, rfl⟩
      obtain ⟨hcontent, hrelocs⟩ := h₂
      refine keeps_patch hb hr rfl ?_ (fun c => (hrelocs c).trans (hquiet.relocs c)) hb₂
      rw [hcontent, hquiet.content, address_add]
      rfl
    dsimp only
    split
    · exact (boMapLocked_quiet env b true s).bind fun r hr => hrest r.2 hr
    · exact hrest s (.refl s)

theorem stepwise_keeps (env : Env) : Stepwise env Keeps where
  refl := .refl
  trans := .trans
  apply := applyReloc_keeps env
  unmap b s := (unmapIfMapped_quiet b s).mono fun _ h => h.keeps
  mark b s := (markCardDirty_quiet env b s).mono fun _ h => h.keeps
  validate b s := (boValidate_quiet env b s).mono fun _ h => h.keeps
  kick s := (kickAllLocked_quiet s).mono fun _ h => h.keeps
  fail _ := keeps_of_same rfl fun _ => rfl

theorem prepareExec_keeps (env : Env) (b : BoId) (s : State) : Ensures (prepareExec env b s) (Keeps s) := by
  rw [prepareExec_eq]
  have hstart : Keeps s { s with performedRendering := false } := keeps_of_same rfl fun _ => rfl
  refine Ensures.keeps_bind (p := id) ((calculateDomains_quiet env.fuel b _).mono fun s₁ h => hstart.trans h.keeps) fun s₁ => ?_
  refine Ensures.keeps_bind (p := id) ((modifyBo_quiet b _ (by exact fun _ => rfl)).mono fun s₂ h => h.keeps) fun s₂ => ?_
  exact (stepwise_keeps env).batch b s₂

/-! ## The caller's part -/

/-- The byte belongs to a relocated word of the buffer. -/
def State.Relocated (s : State) (b : BoId) (i : Nat) : Prop :=
  ∃ bo, s.bo b = some bo ∧ ∃ o ∈ bo.places, o.toNat ≤ i ∧ i < o.toNat + 4

/-- The caller leaves relocated words alone, and has written the word when it emits the relocation. -/
def Op.Respects (s : State) : Op → Prop
  | .write b offset bytes => ∀ i, offset ≤ i → i < offset + bytes.length → ¬ s.Relocated b i
  | .subdata b offset data => ∀ i, offset ≤ i → i < offset + data.length → ¬ s.Relocated b i
  | .emitReloc b offset target targetOffset _ _ => ∀ bo tbo, s.bo b = some bo → s.bo target = some tbo →
      HoldsWord s b offset.toNat (address tbo.offset + targetOffset) ∧ ∀ o ∈ bo.places, WordsApart o offset
  | .exec _ _ writes => ∀ w ∈ writes, ¬ s.Relocated w.bo w.index
  | _ => True

/-- Bytes outside of the relocated words are written. -/
theorem Truthful.record (h : Truthful s) {offset : Nat} {bytes : List UInt8}
    (hcontent : s'.content = Function.update s.content b (record (s.content b) offset bytes))
    (hrelocs : ∀ c, (s'.bo c).map Bo.relocs = (s.bo c).map Bo.relocs)
    (hout : ∀ i, offset ≤ i → i < offset + bytes.length → ¬ s.Relocated b i) : Truthful s' := by
  have hfrom : ∀ c co', s'.bo c = some co' → ∃ co, s.bo c = some co ∧ co.relocs = co'.relocs := by
    intro c co' hc'
    have h := hrelocs c
    rw [hc'] at h
    exact Option.map_eq_some_iff.mp h.symm
  refine ⟨fun c co' hc' r hr => ?_, fun c co' hc' => ?_⟩
  · obtain ⟨co, hc, heq⟩ := hfrom c co' hc'
    rw [← heq] at hr
    by_cases hcb : c = b
    · subst hcb
      refine (h.value c co hc r hr).outside hcontent fun j hj ⟨hlo, hhi⟩ => ?_
      exact hout _ hlo hhi ⟨co, hc, r.offset, List.mem_map_of_mem hr, Nat.le_add_right .., by omega⟩
    · exact (h.value c co hc r hr).other hcontent hcb
  · obtain ⟨co, hc, heq⟩ := hfrom c co' hc'
    rw [Bo.places, ← heq]
    exact h.apart c co hc

theorem record_singleton (f : Nat → Option UInt8) (i : Nat) (v : UInt8) :
    LibDrm.Fake.record f i [v] = Function.update f i (some v) := by
  funext j
  by_cases hj : j = i
  · subst hj
    simp [LibDrm.Fake.record]
  · rw [Function.update_of_ne hj, LibDrm.Fake.record, if_neg]
    rw [List.length_singleton]
    omega

theorem gpuWrite_truthful (h : Truthful s) {w : GpuWrite} (hw : ¬ s.Relocated w.bo w.index) :
    Ensures (gpuWrite s w) fun s' => Truthful s' ∧ s'.bo = s.bo := by
  unfold gpuWrite
  refine Ensures.bind_any fun bo => .pure ⟨?_, rfl⟩
  rw [← record_singleton]
  refine h.record rfl (fun _ => rfl) fun i hlo hhi => ?_
  obtain rfl : i = w.index := by
    rw [List.length_singleton] at hhi
    omega
  exact hw

theorem Keeps.relocated_iff (h : Keeps s s') (b : BoId) (i : Nat) : s'.Relocated b i ↔ s.Relocated b i := by
  have hex : ∀ s : State, s.Relocated b i ↔ ∃ l, (s.bo b).map Bo.places = some l ∧ ∃ o ∈ l, o.toNat ≤ i ∧ i < o.toNat + 4 := by
    intro s
    constructor
    · rintro ⟨bo, hb, ho⟩
      exact ⟨bo.places, by rw [hb]; rfl, ho⟩
    · rintro ⟨l, hl, ho⟩
      obtain ⟨bo, hb, rfl⟩ := Option.map_eq_some_iff.mp hl
      exact ⟨bo, hb, ho⟩
  rw [hex, hex, h.places]

theorem emitReloc_truthful (h : Truthful s) {offset : UInt32} {target : BoId} {targetOffset : UInt32}
    (readDomains writeDomain : UInt32) (hready : (Op.emitReloc b offset target targetOffset readDomains writeDomain).Respects s) :
    Ensures (emitReloc b offset target targetOffset readDomains writeDomain s) fun r => Truthful r.2 := by
  unfold emitReloc boReference
  refine Ensures.bind_any fun _ => Ensures.bind_any fun _ => (modifyBo_ensures target _ s).bind ?_
  rintro s₁ ⟨tbo₀, htarget₀, rfl⟩
  have hquiet : Quiet s (s.setBo target { tbo₀ with refcount := tbo₀.refcount + 1 }) := quiet_setBo htarget₀ rfl
  refine (getBo_ensures target _).bind fun tbo htarget => (getBo_ensures b _).bind fun bo hb => .pure ?_
  rw [setBo_self] at htarget
  cases htarget
  have hs₁ := hquiet.keeps.truthful h
  have hword : HoldsWord s b offset.toNat (address tbo₀.offset + targetOffset) ∧ ∀ o ∈ bo.places, WordsApart o offset := by
    have hrel := hquiet.relocs b
    rw [hb] at hrel
    obtain ⟨bo₀, hb₀, heq⟩ := Option.map_eq_some_iff.mp hrel.symm
    rw [Bo.places, ← heq]
    exact hready bo₀ tbo₀ hb₀ htarget₀
  refine ⟨fun c co hc ρ hρ => ?_, fun c co hc => ?_⟩
  · by_cases hcb : c = b
    · subst hcb
      rw [setBo_self] at hc
      cases hc
      rcases List.mem_append.mp hρ with hρ | hρ
      · exact hs₁.value c bo hb ρ hρ
      · obtain rfl := List.mem_singleton.mp hρ
        exact hword.1
    · rw [setBo_of_ne hcb] at hc
      exact hs₁.value c co hc ρ hρ
  · by_cases hcb : c = b
    · subst hcb
      rw [setBo_self] at hc
      cases hc
      show List.Pairwise _ (List.map _ (_ ++ _))
      rw [List.map_append, List.map_singleton]
      refine List.pairwise_append.mpr ⟨hs₁.apart c bo hb, List.pairwise_singleton .., fun o ho o' ho' => ?_⟩
      rw [List.mem_singleton.mp ho']
      exact hword.2 o ho
    · rw [setBo_of_ne hcb] at hc
      exact hs₁.apart c co hc

theorem fenceValidated_same (env : Env) (s : State) : Ensures (fenceValidated env s) fun s' =>
    s'.content = s.content ∧ s'.bo = s.bo := by
  unfold fenceValidated fenceBlocks
  have hloop := Ensures.foldlM (f := fenceBlock (env.cookie s.emitted)) (l := s.onHardware)
    (I := fun s' => s'.content = s.content ∧ s'.bo = s.bo) (s := { s with emitted := s.emitted + 1 }) ⟨rfl, rfl⟩
    fun s' k hs' => Ensures.bind_any fun blk => .pure hs'
  exact hloop.bind fun s' hs' => Ensures.bind_any fun _ => .pure hs'

theorem boExec_truthful (h : Truthful s) (env : Env) (b : BoId) (result : Int) {writes : List GpuWrite}
    (hw : ∀ w ∈ writes, ¬ s.Relocated w.bo w.index) :
    Ensures (boExec env b result writes s) fun r => Truthful r.2 := by
  unfold boExec
  refine (prepareExec_keeps env b s).bind fun s₁ hkeeps => ?_
  have h₁ := hkeeps.truthful h
  split
  · exact .pure h₁
  · have hwrites : Ensures (writes.foldlM gpuWrite s₁) Truthful := by
      have hw₁ : ∀ w ∈ writes, ¬ s₁.Relocated w.bo w.index := fun w hmem hrel =>
        hw w hmem ((hkeeps.relocated_iff w.bo w.index).mp hrel)
      clear hkeeps
      induction writes generalizing s₁ with
      | nil => exact .ok h₁
      | cons w writes ih =>
          rw [List.foldlM_cons]
          refine (gpuWrite_truthful h₁ (hw₁ w (List.mem_cons_self ..))).bind fun s₂ hs₂ => ?_
          refine ih (fun w' hmem => hw w' (List.mem_cons_of_mem _ hmem)) s₂ hs₂.1 fun w' hmem => ?_
          unfold State.Relocated
          rw [hs₂.2]
          exact hw₁ w' (List.mem_cons_of_mem _ hmem)
    refine hwrites.bind fun s₂ h₂ => (fenceValidated_same env s₂).bind fun s₃ hs₃ => ?_
    have hfence : Keeps s₂ s₃ := keeps_of_same hs₃.1 fun c => by rw [hs₃.2]
    exact (postSubmit_quiet env.fuel b s₃).bind fun s₄ h₄ => .pure ((hfence.trans h₄.keeps).truthful h₂)

/-- The step lemma. -/
theorem Op.run_truthful (hs : Inv Nobody Nobody s) (h : Truthful s) (env : Env) (op : Op) (hop : op.Respects s) :
    Ensures (op.run env s) Truthful := by
  cases op with
  | alloc size alignment =>
      refine Ensures.bind (P := fun r => Truthful r.2) ?_ fun r hr => .pure hr
      unfold boAlloc
      refine Ensures.bind_any fun _ => Ensures.bind_any fun _ => .pure ⟨fun c co hc r hr => ?_, fun c co hc => ?_⟩
      · by_cases hcb : c = s.freshBo
        · subst hcb
          rw [setBo_self] at hc
          cases hc
          cases hr
        · rw [setBo_of_ne hcb] at hc
          exact h.value c co hc r hr
      · by_cases hcb : c = s.freshBo
        · subst hcb
          rw [setBo_self] at hc
          cases hc
          exact List.Pairwise.nil
        · rw [setBo_of_ne hcb] at hc
          exact h.apart c co hc
  | reference b =>
      exact (modifyBo_quiet b _ (by exact fun _ => rfl)).mono fun s' hs' => hs'.keeps.truthful h
  | unreference b =>
      refine (unreference_ensures hs env.fuel b).mono fun s' hs' => ⟨fun c co' hc' r hr => ?_, fun c co' hc' => ?_⟩
      · obtain ⟨co, hc, heq⟩ := hs'.2.bo c co' hc'
        unfold HoldsWord
        rw [hs'.2.content]
        rw [heq] at hr
        exact h.value c co hc r hr
      · obtain ⟨co, hc, heq⟩ := hs'.2.bo c co' hc'
        rw [heq]
        exact h.apart c co hc
  | map b writeEnable =>
      exact (boMapLocked_quiet env b writeEnable s).bind fun r hr => .pure (hr.keeps.truthful h)
  | write b offset bytes =>
      exact (writeVirtual_records b offset bytes s).mono fun s' hs' => h.record hs'.1 hs'.2 hop
  | unmap b => exact (boUnmapLocked_quiet b s).bind fun r hr => .pure (hr.keeps.truthful h)
  | subdata b offset data =>
      refine Ensures.bind (P := fun r => Truthful r.2) ?_ fun r hr => .pure hr
      unfold boSubdata
      split
      · exact .ok h
      · refine (boMapLocked_quiet env b true s).bind fun r hr => ?_
        have h₁ := hr.keeps.truthful h
        dsimp only
        split
        · exact .pure h₁
        · refine (writeVirtual_records b offset data r.2).bind fun s₂ hs₂ => ?_
          have h₂ : Truthful s₂ := h₁.record hs₂.1 hs₂.2 fun i hlo hhi hrel =>
            hop i hlo hhi ((hr.keeps.relocated_iff b i).mp hrel)
          exact (boUnmapLocked_quiet b s₂).bind fun r' hr' => .pure (hr'.keeps.truthful h₂)
  | emitReloc b offset target targetOffset readDomains writeDomain =>
      exact (emitReloc_truthful h readDomains writeDomain hop).bind fun r hr => .pure hr
  | exec b result writes => exact (boExec_truthful h env b result hop).bind fun r hr => .pure hr
  | wait b => exact (waitRenderingLocked_tidies env b s).mono fun s' hs' => hs'.quiet.keeps.truthful h
  | evictAll => exact (evictAll_quiet env s).mono fun s' hs' => hs'.keeps.truthful h

/-! ## Runs -/

/-- The caller respects the relocated words. -/
def Machine.RelocStep (m m' : Machine) : Prop := ∃ (env : Env) (op : Op), op.Allowed env m ∧ op.Respects m.state ∧
  op.run env m.state = .ok m'.state ∧ m'.held = op.hold m

/-- And runs into none of the ways to lose a write. -/
def Machine.CarefulRelocStep (m m' : Machine) : Prop := ∃ (env : Env) (op : Op), op.Careful m.state ∧ op.Allowed env m ∧
  op.Respects m.state ∧ op.run env m.state = .ok m'.state ∧ m'.held = op.hold m

theorem truthful_of_runs (h : Runs Machine.Init Machine.CarefulRelocStep m) : MachineOk m ∧ Truthful m.state := by
  refine Runs.induct (I := fun m => MachineOk m ∧ Truthful m.state) (fun m hm => ⟨.init hm, ?_⟩)
    (fun m m' hm hstep => ?_) h
  · have hnone := (State.Init.empty hm).2.2.2.1
    exact ⟨fun b bo hb => absurd (hb.symm.trans (hnone b)) (Option.some_ne_none _),
      fun b bo hb => absurd (hb.symm.trans (hnone b)) (Option.some_ne_none _)⟩
  · obtain ⟨env, op, hcareful, hallowed, hrespects, hrun, hheld⟩ := hstep
    have hok := hm.1.step env op hcareful hallowed m'.state hrun
    rw [← hheld] at hok
    exact ⟨hok, op.run_truthful hm.1.inv hm.2 env hrespects m'.state hrun⟩

/-- The card holds, at every relocation of the buffer, the place of its target and the delta. -/
def RelocsRight (s : State) (bo : Bo) (place : Int) : Prop := ∀ r ∈ bo.relocs, ∃ tbo, s.bo r.target = some tbo ∧
  ∀ j : Nat, j < 4 → s.card (place + (r.offset.toNat + j : Nat)) = (bytes32 (address tbo.offset + r.delta)).getD j 0

/-- Everything that the batch reaches is on the hardware, where its offset says, with the right relocations. -/
def ReadyToRun (b : BoId) (s : State) : Prop := ∀ d, ReflTransGen (Targets s) b d → ∃ bo k blk, s.bo d = some bo ∧
  bo.block = some k ∧ s.block k = some blk ∧ k ∈ s.onHardware ∧ bo.offset = s.ofs blk ∧ RelocsRight s bo (s.ofs blk)

theorem Submitted.readyToRun (h : Submitted b s) (hs : Inv Nobody Nobody s) (htruthful : Truthful s) : ReadyToRun b s := by
  intro d hd
  obtain ⟨bo, hb, _, ⟨⟨k, blk, hk, hblk, hhw, hofs⟩, hclean, _⟩, haimed⟩ := h d hd
  refine ⟨bo, k, blk, hb, hk, hblk, hhw, hofs, fun r hr => ?_⟩
  obtain ⟨tbo, htarget, _, hlast⟩ := haimed r hr
  refine ⟨tbo, htarget, fun j hj => ?_⟩
  have hword := htruthful.value d bo hb r hr j hj
  obtain ⟨k', blk', hk', hblk', hcard⟩ := (hs.bos d bo id hb).card hclean _ _ hword
  cases hk.symm.trans hk'
  cases hblk.symm.trans hblk'
  rw [← hlast]
  exact hcard

/-- When the validation of a batch succeeds, at the first attempt or after everything was kicked out, all its
    relocations are right on the card. -/
theorem relocations_right (h : Runs Machine.Init Machine.CarefulRelocStep m) (env : Env) (b : BoId)
    (hun : Unmarked b m.state) :
    (∀ s', Acyclic m.state b → relocAndValidateBuffer env env.fuel b m.state = .ok (0, s') → ReadyToRun b s') ∧
    (∀ s', prepareExec env b m.state = .ok s' → ReadyToRun b s') := by
  obtain ⟨hm, htruthful⟩ := truthful_of_runs h
  constructor
  · intro s' hacyclic hrun
    have hinv : Inv (TransGen (Targets m.state) b) Nobody m.state := hm.inv.validating fun c co hT hc => hun c co hT hc
    obtain ⟨hinv', _, hsub⟩ := validate_pass hinv hacyclic env _ hrun
    exact (hsub rfl).readyToRun hinv'.forget (((stepwise_keeps env).walk env.fuel b _ _ hrun).truthful htruthful)
  · intro s' hrun
    obtain ⟨hinv, hprep⟩ := prepareExec_ensures hm.inv hun env s' hrun
    exact hprep.submitted.readyToRun hinv ((prepareExec_keeps env b _ s' hrun).truthful htruthful)

/-! ## Two runs -/

/-- Buffers that are written to have no relocations yet, and get a single one. -/
def Op.checkRespects (s : State) : Op → Bool
  | .write b _ _ => (s.bo b).all fun bo => bo.relocs.isEmpty
  | .subdata b _ _ => (s.bo b).all fun bo => bo.relocs.isEmpty
  | .emitReloc b offset target targetOffset _ _ => (s.bo b).all fun bo => bo.relocs.isEmpty &&
      (s.bo target).all fun tbo => (List.range 4).all fun j =>
        s.content b (offset.toNat + j) == some ((bytes32 (address tbo.offset + targetOffset)).getD j 0)
  | .exec _ _ writes => writes.isEmpty
  | _ => true

theorem not_relocated_of_empty (h : (s.bo b).all (fun bo => bo.relocs.isEmpty) = true) (i : Nat) : ¬ s.Relocated b i := by
  rintro ⟨bo, hb, o, ho, _⟩
  rw [hb] at h
  rw [Bo.places, List.isEmpty_iff.mp h] at ho
  cases ho

theorem Op.respects_of_check {op : Op} (h : op.checkRespects s = true) : op.Respects s := by
  cases op with
  | write b offset bytes => exact fun i _ _ => not_relocated_of_empty h i
  | subdata b offset data => exact fun i _ _ => not_relocated_of_empty h i
  | emitReloc b offset target targetOffset readDomains writeDomain =>
      intro bo tbo hb htarget
      simp only [Op.checkRespects, hb, htarget, Option.all_some, Bool.and_eq_true] at h
      refine ⟨fun j hj => ?_, fun o ho => ?_⟩
      · exact eq_of_beq (List.all_eq_true.mp h.2 j (List.mem_range.mpr hj))
      · rw [Bo.places, List.isEmpty_iff.mp h.1] at ho
        cases ho
  | exec b result writes =>
      intro w hw
      rw [List.isEmpty_iff.mp h] at hw
      cases hw
  | _ => trivial

theorem targets_of_map {l : List BoId} (h : (s.bo b).map (fun bo => bo.relocs.map Reloc.target) = some l) (hd : d ∈ l) :
    Targets s b d := by
  obtain ⟨bo, hb, rfl⟩ := Option.map_eq_some_iff.mp h
  exact ⟨bo, hb, List.mem_map.mp hd⟩

/-- A batch refers to a buffer that refers to another one. It is executed, and a large batch takes the place of the
    three on the card. -/
def chainOps : List Op :=
  [.alloc 16 4, .alloc 8 4, .alloc 4 4, .alloc 60 4, .map 0 true, .write 0 4 [0xff, 0xff, 0xff, 0xff], .unmap 0,
    .emitReloc 0 4 1 0 2 0, .subdata 1 0 [7, 0, 0, 0], .emitReloc 1 0 2 8 2 0, .exec 0 0 [], .exec 3 0 []]

theorem relocations_right_chain : ∃ m s', Runs Machine.Init Machine.CarefulRelocStep m ∧ Unmarked 0 m.state ∧
    (m.state.bo 1).any (fun bo => bo.block.isNone) = true ∧ prepareExec plainEnv 0 m.state = .ok s' ∧
    ReadyToRun 0 s' ∧ Targets s' 0 1 ∧ Targets s' 1 2 := by
  have hplay : (Machine.playAll (fun m op => op.checkCareful m && op.checkRespects m.state) chainOps).map (fun m =>
      (m.state.clear && (m.state.bo 1).any (fun bo => bo.block.isNone), (prepareExec plainEnv 0 m.state).toOption.map fun s' =>
        ((s'.bo 0).map (fun bo => bo.relocs.map Reloc.target), (s'.bo 1).map fun bo => bo.relocs.map Reloc.target))) =
      some (true, some (some [1], some [2])) := by
    decide +kernel
  obtain ⟨m, hm, hfields⟩ := Option.map_eq_some_iff.mp hplay
  simp only [Prod.mk.injEq] at hfields
  obtain ⟨hstate, hprepare⟩ := hfields
  obtain ⟨hclear, hevicted⟩ := Bool.and_eq_true_iff.mp hstate
  obtain ⟨s', hs', htargets⟩ := Option.map_eq_some_iff.mp hprepare
  have hruns : Runs Machine.Init Machine.CarefulRelocStep m := by
    refine Machine.playAll_runs (fun m op m' hruns hcall => ?_) hm
    obtain ⟨hcheck, hrun, hheld⟩ := Machine.call_eq_some hcall
    obtain ⟨hcareful, hrespects⟩ := Bool.and_eq_true_iff.mp hcheck
    exact ⟨plainEnv, op, Op.careful_of_check (truthful_of_runs hruns).1.inv hcareful,
      Op.allowed_of_check (Bool.and_eq_true_iff.mp hcareful).1 plainEnv, Op.respects_of_check hrespects, hrun, hheld⟩
  have hun : Unmarked 0 m.state := unmarked_of_clear (truthful_of_runs hruns).1.inv hclear
  refine ⟨m, s', hruns, hun, hevicted, toOption_eq_some hs', ?_, ?_, ?_⟩
  · exact (relocations_right hruns plainEnv 0 hun).2 s' (toOption_eq_some hs')
  · exact targets_of_map (congrArg Prod.fst htargets) (List.mem_singleton_self 1)
  · exact targets_of_map (congrArg Prod.snd htargets) (List.mem_singleton_self 2)

/-- The submission of a batch fails; another one is submitted, and later its target loses its block to a third. -/
def failedOps : List Op :=
  [.alloc 8 4, .alloc 40 4, .alloc 4 4, .alloc 48 4, .alloc 8 4, .subdata 0 4 [0xff, 0xff, 0xff, 0xff], .emitReloc 0 4 1 0 2 0,
    .exec 0 (-1) [], .exec 2 0 [], .exec 3 0 [], .subdata 4 4 [0, 0, 0, 0], .emitReloc 4 4 1 0 2 0]

/-- The target is still marked, so the next batch that refers to it does not validate it, and it is not on the card. -/
theorem relocations_right_failedExec : ∃ m s', Runs Machine.Init Machine.RelocStep m ∧
    prepareExec plainEnv 4 m.state = .ok s' ∧ ¬ ReadyToRun 4 s' := by
  have hplay : ((Machine.playAll (fun m op => op.checkAllowed m && op.checkRespects m.state) failedOps).bind fun m =>
      (prepareExec plainEnv 4 m.state).toOption).map (fun s' =>
        ((s'.bo 4).map (fun bo => bo.relocs.map Reloc.target), (s'.bo 1).map fun bo => bo.block.isNone)) =
      some (some [1], some true) := by
    decide +kernel
  obtain ⟨s', hs', hfields⟩ := Option.map_eq_some_iff.mp hplay
  obtain ⟨m, hm, hs'⟩ := Option.bind_eq_some_iff.mp hs'
  simp only [Prod.mk.injEq] at hfields
  obtain ⟨htargets, hblock⟩ := hfields
  refine ⟨m, s', ?_, toOption_eq_some hs', fun hready => ?_⟩
  · refine Machine.playAll_runs (fun m op m' _ hcall => ?_) hm
    obtain ⟨hcheck, hrun, hheld⟩ := Machine.call_eq_some hcall
    obtain ⟨hallowed, hrespects⟩ := Bool.and_eq_true_iff.mp hcheck
    exact ⟨plainEnv, op, Op.allowed_of_check hallowed plainEnv, Op.respects_of_check hrespects, hrun, hheld⟩
  · obtain ⟨bo, k, _, hb, hk, _⟩ := hready 1 (.single (targets_of_map htargets (List.mem_singleton_self 1)))
    rw [hb, Option.map_some, hk] at hblock
    cases hblock

end LibDrm.Fake
