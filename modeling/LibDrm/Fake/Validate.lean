/-
# `LibDrm.Fake.Validate` — validating a batch puts the current bytes on the card

A buffer is validated after its targets: it is `Staged` while the card is marked
as ahead of a backing store that is itself ahead, and `Placed` once it was
uploaded and is on the hardware.  Its own relocations are written through a
mapping, which is why nothing that it reaches may reach it again.
-/
import LibDrm.Fake.Graph

open Relation

namespace LibDrm.Fake

variable {T X : BoId → Prop} {s s' s₁ : State} {b c d : BoId} {bo bo' : Bo} {k : BlockId} {blk : Block}

/-! ## Placing a buffer -/

/-- A buffer that is about to be placed. -/
structure Staged (s : State) (b : BoId) (bo : Bo) : Prop where
  fits : bo.Fits
  bounded : ∀ i v, s.content b i = some v → i < bo.size
  backing : bo.dirty = true ∨ bo.cardDirty = false → ∀ i v, s.content b i = some v → bo.BackingHolds i v
  card : bo.dirty = false → ∀ i v, s.content b i = some v → s.CardHolds bo i v
  idle : bo.mapCount = 0
  virtual : bo.virtual = none
  written : bo.writeDomain ≠ 0 → bo.cardDirty = true

theorem Staged.mono (h : Staged s b bo) (hcontent : s'.content = s.content)
    (hcard : ∀ i v, s.CardHolds bo i v → s'.CardHolds bo i v) : Staged s' b bo where
  fits := h.fits
  bounded := by rw [hcontent]; exact h.bounded
  backing := by rw [hcontent]; exact h.backing
  card := by
    rw [hcontent]
    exact fun hd i v hv => hcard i v (h.card hd i v hv)
  idle := h.idle
  virtual := h.virtual
  written := h.written

/-- A buffer that is up to date on the card. -/
theorem Staged.boOk (h : Staged s b bo) (hclean : bo.dirty = false) : BoOk s b bo where
  fits := h.fits
  bounded := h.bounded
  backing := h.backing
  card := h.card
  exclusive hd := by
    rw [hclean] at hd
    cases hd
  mapped hm := absurd h.idle hm
  virtual := by rw [h.virtual, h.idle]; rfl

/-- The buffer is where its block is and nothing else has happened to it. -/
structure Uploaded (b : BoId) (bo : Bo) (k : BlockId) (blk : Block) (s s' : State) : Prop where
  touched : Touched b s s'
  bo : s'.bo b = some { bo with dirty := false }
  block : ∃ blk', s'.block k = some blk' ∧ s'.ofs blk' = s.ofs blk

theorem upload_ensures (hs : Inv T (Only b) s) (hb : s.bo b = some bo) (hk : bo.block = some k) (hblk : s.block k = some blk)
    (hT : T b → bo.validated = false) (hstaged : Staged s b bo) (hdirty : bo.dirty = true) (env : Env) :
    Ensures (upload env b blk s) fun s' => Inv T Nobody s' ∧ Staged s' b { bo with dirty := false } ∧
      Uploaded b bo k blk s s' := by
  obtain ⟨blk₀, hblk₀, hown⟩ := hs.owned b bo k hb hk
  cases hblk.symm.trans hblk₀
  unfold upload
  refine Ensures.bind_any fun _ => Ensures.bind_any fun _ => (waitIdle_ensures hs env).bind fun s₁ hs₁ => ?_
  obtain ⟨hs₁, hcl⟩ := hs₁
  refine (getBo_ensures b s₁).bind fun bo₁ hb₁ => .pure ?_
  cases hb.symm.trans (hcl.bo ▸ hb₁)
  obtain ⟨blk', hblk', hmem, _, hofs⟩ := hcl.block k blk hblk (by rw [hown]; nofun)
  have hofs₁ : s₁.ofs blk = s.ofs blk := by rw [← hofs, State.ofs, State.ofs, hmem]
  have hcontent : s₁.content = s.content := hcl.content
  have hs₂ : Inv T (Only b) (s₁.setBo b { bo with dirty := false }) :=
    hs₁.setOnly hb₁ ⟨rfl, rfl, rfl, rfl, rfl⟩ rfl rfl hT
  have hs₃ : Inv T (Only b) { s₁.setBo b { bo with dirty := false } with
      card := copyIn blk bo.size (bo.backingStore.getD fun _ => 0) s₁ } := by
    refine hs₂.paint (.inr rfl) (setBo_self ..) hstaged.fits (fun _ _ => rfl) fun a ha => if_neg ?_
    rw [hofs₁, ← hofs]
    exact ha k blk' hk hblk'
  have hcopied : ∀ i v, s.content b i = some v →
      copyIn blk bo.size (bo.backingStore.getD fun _ => 0) s₁ (s.ofs blk + i) = v := by
    intro i v hv
    obtain ⟨f, hf, hfi⟩ := hstaged.backing (.inl hdirty) i v hv
    have hi := hstaged.bounded i v hv
    unfold copyIn
    rw [hofs₁, if_pos ⟨by omega, by omega⟩, hf, add_sub_cancel_left]
    exact hfi
  have hstaged' : Staged { s₁.setBo b { bo with dirty := false } with
      card := copyIn blk bo.size (bo.backingStore.getD fun _ => 0) s₁ } b { bo with dirty := false } := by
    refine ⟨hstaged.fits, ?_, ?_, ?_, hstaged.idle, hstaged.virtual, hstaged.written⟩
    · show ∀ i v, s₁.content b i = some v → i < bo.size
      rw [hcontent]
      exact hstaged.bounded
    · show _ → ∀ i v, s₁.content b i = some v → bo.BackingHolds i v
      rw [hcontent]
      exact fun _ => hstaged.backing (.inl hdirty)
    · show _ → ∀ i v, s₁.content b i = some v → _
      rw [hcontent]
      intro _ i v hv
      refine ⟨k, blk', hk, hblk', ?_⟩
      show copyIn _ _ _ _ (s₁.ofs blk' + i) = v
      rw [hofs]
      exact hcopied i v hv
  refine ⟨hs₃.settle (setBo_self ..) fun _ => hstaged'.boOk rfl, hstaged', ?_, setBo_self .., blk', hblk', hofs⟩
  exact (hcl.touched b).trans ⟨fun _ hc => setBo_of_ne hc .., rfl, rfl, fun _ h => h⟩

/-- The relocations of a buffer that is being validated lead to buffers that are being validated. -/
def Closed (T : BoId → Prop) (s : State) : Prop := ∀ c d, T c → Targets s c d → T d

/-- The buffer `b`, which was `bo`, is ready for the hardware. -/
structure PlacedBy (b : BoId) (bo : Bo) (s s' : State) : Prop where
  other : ∀ c, c ≠ b → s'.bo c = s.bo c
  bo : ∃ bo', s'.bo b = some bo' ∧ bo'.validated = true ∧ Placed s' bo' ∧ bo'.relocs = bo.relocs ∧
    bo'.core = bo.core ∧ ∀ r ∈ bo'.relocs, Aimed s' r
  content : s'.content = s.content

/-- The last steps of `validate`: the block becomes part of the batch and the buffer is marked. -/
theorem mark_ensures (hs : Inv T Nobody s) (hb : s.bo b = some bo) (hk : bo.block = some k) (hblk : s.block k = some blk)
    (hofs : bo.offset = s.ofs blk) (hclean : bo.dirty = false) (hstaged : Staged s b bo)
    (htargets : ∀ r ∈ bo.relocs, Aimed s r) : Ensures (do
      let s ← moveToHardware k s
      let s ← s.modifyBo b fun bo => { bo with validated := true }
      return ((0 : Int), { s with needFence := true })) fun r =>
      r.1 = 0 ∧ Inv T Nobody r.2 ∧ PlacedBy b bo s r.2 := by
  have hmove : Ensures (moveToHardware k s) fun s' => Inv T Nobody s' ∧ Relisted s s' ∧ k ∈ s'.onHardware := by
    unfold moveToHardware
    refine (getBlock_ensures k s).bind fun blk₁ hblk₁ => .pure ?_
    have hm : Moved k { blk₁ with fenced := false, onHardware := true } s _ := moved_hardware hblk₁ rfl rfl rfl rfl
    refine ⟨hs.moved hblk₁ hm (fun _ hlru => ?_) (.inr fun _ => rfl), hm.relisted, ?_⟩
    · simp [State.unlink, State.setBlock] at hlru
    · rw [hm.onHardware]
      simp
  refine hmove.bind fun s₁ hs₁ => (modifyBo_ensures b _ s₁).bind fun s₂ hs₂ => .pure ?_
  obtain ⟨hs₁, hrel, hhw⟩ := hs₁
  obtain ⟨bo₁, hb₁, rfl⟩ := hs₂
  cases hb.symm.trans (hrel.bo ▸ hb₁)
  obtain ⟨blk₁, hblk₁, hmem, _⟩ := hrel.same hblk
  have hofs₁ : s₁.ofs blk₁ = s.ofs blk := by rw [State.ofs, State.ofs, hrel.heap, hmem]
  have hplaced : Placed s₁ { bo with validated := true } :=
    ⟨⟨k, blk₁, hk, hblk₁, hhw, hofs.trans hofs₁.symm⟩, hclean, hstaged.written, hstaged.idle⟩
  have haimed : ∀ r ∈ bo.relocs, Aimed (s₁.setBo b { bo with validated := true }) r := by
    intro r hr
    refine Aimed.setBo ?_ hb₁ fun _ _ => ⟨rfl, rfl⟩
    unfold Aimed
    rw [hrel.bo]
    exact htargets r hr
  have hok : BoOk s₁ b { bo with validated := true } := by
    have hok := hs₁.bos b bo id hb₁
    exact ⟨hok.fits, hok.bounded, hok.backing, hok.card, hok.exclusive, hok.mapped, hok.virtual⟩
  have hinv : Inv T Nobody (s₁.setBo b { bo with validated := true }) :=
    ⟨hs₁.toMemOk.setBo b _, hs₁.toBosOk.setBo hb₁ ⟨rfl, rfl, rfl, rfl, rfl⟩ (fun _ => hok) (fun _ _ => ⟨rfl, rfl⟩)
      fun _ _ => ⟨hplaced, haimed⟩⟩
  refine ⟨rfl, hinv.counters ⟨rfl, rfl, rfl, rfl, rfl, rfl, fun _ => rfl⟩ rfl ⟨rfl, rfl, rfl⟩, ?_, ?_, hrel.content⟩
  · intro c hc
    exact (setBo_of_ne hc ..).trans (by rw [hrel.bo])
  · exact ⟨_, setBo_self .., rfl, hplaced, rfl, rfl, haimed⟩

theorem placeBo_ensures (hs : Inv T (Only b) s) (hclosed : Closed T s) (hb : s.bo b = some bo)
    (hT : T b → bo.validated = false) (hstaged : Staged s b bo) (htargets : ∀ r ∈ bo.relocs, Aimed s r)
    (hself : ∀ r ∈ bo.relocs, r.target ≠ b) (env : Env) :
    Ensures (placeBo env b s) fun r => r.1 = 0 ∧ Inv T Nobody r.2 ∧ PlacedBy b bo s r.2 := by
  unfold placeBo
  refine (getBo_ensures b s).bind fun bo₀ hb₀ => ?_
  cases hb.symm.trans hb₀
  refine (deref_ensures _).bind fun k hk => (getBlock_ensures k s).bind fun blk hblk => Ensures.bind_any fun _ => ?_
  have hs₁ : Inv T (Only b) (s.setBo b { bo with offset := s.ofs blk }) := by
    refine ⟨hs.toMemOk.setBo b _, hs.toBosOk.setBo hb ⟨rfl, rfl, rfl, rfl, rfl⟩ (fun h => absurd (.inr rfl) h) ?_ ?_⟩
    · rintro ⟨c, hTc, hc⟩ hv
      rw [hT (hclosed c b hTc hc)] at hv
      cases hv
    · intro hTb hv
      rw [show bo.validated = true from hv] at hT
      cases hT hTb
  have hstaged₁ : Staged (s.setBo b { bo with offset := s.ofs blk }) b { bo with offset := s.ofs blk } :=
    ⟨hstaged.fits, hstaged.bounded, hstaged.backing, hstaged.card, hstaged.idle, hstaged.virtual, hstaged.written⟩
  have htargets₁ : ∀ r ∈ bo.relocs, Aimed (s.setBo b { bo with offset := s.ofs blk }) r :=
    fun r hr => (htargets r hr).setBo hb fun h => absurd h (hself r hr)
  dsimp only
  split
  · case isTrue hdirty =>
      refine (upload_ensures hs₁ (setBo_self ..) hk hblk hT hstaged₁ hdirty env).bind fun s₂ hs₂ => ?_
      obtain ⟨hs₂, hstaged₂, htouched, hb₂, blk₂, hblk₂, hofs₂⟩ := hs₂
      have htargets₂ : ∀ r ∈ bo.relocs, Aimed s₂ r := by
        intro r hr
        unfold Aimed
        rw [htouched.bo _ (hself r hr)]
        exact htargets₁ r hr
      refine (mark_ensures hs₂ hb₂ hk hblk₂ (by exact hofs₂.symm) rfl hstaged₂ htargets₂).mono ?_
      rintro r ⟨hret, hinv, hother, ⟨bo', hb', hrest⟩, hcontent⟩
      refine ⟨hret, hinv, fun c hc => ?_, ⟨bo', hb', hrest⟩, hcontent.trans htouched.content⟩
      rw [hother c hc, htouched.bo c hc, setBo_of_ne hc]
  · case isFalse hclean =>
      have hclean : bo.dirty = false := by simpa using hclean
      have hinv₁ := hs₁.settle (setBo_self ..) fun _ => hstaged₁.boOk hclean
      refine (mark_ensures hinv₁ (setBo_self ..) hk hblk rfl hclean hstaged₁ htargets₁).mono ?_
      rintro r ⟨hret, hinv, hother, ⟨bo', hb', hrest⟩, hcontent⟩
      refine ⟨hret, hinv, fun c hc => ?_, ⟨bo', hb', hrest⟩, hcontent⟩
      rw [hother c hc, setBo_of_ne hc]

/-! ## Validating a buffer -/

theorem Aimed.lasts {r : Reloc} (h : Aimed s r) (hl : Lasts (s.bo r.target) (s'.bo r.target)) : Aimed s' r := by
  obtain ⟨tbo, htbo, hv, hofs⟩ := h
  obtain ⟨tbo', htbo', hstill, _⟩ := hl.some htbo
  obtain ⟨_, hofs', _, _, _, _, _, hv', _⟩ := Bo.still_fields hstill
  exact ⟨tbo', htbo', hv'.trans hv, by rw [hofs']; exact hofs⟩

theorem Closed.core (h : Closed T s) (hc : CoreSame s s') : Closed T s' := by
  unfold Closed
  rw [hc.targets_eq]
  exact h

/-- The card is marked as ahead; the buffer can be placed, or needs a block first. -/
structure CardMarked (b : BoId) (bo : Bo) (s s' : State) (bo' : Bo) : Prop where
  found : s'.bo b = some bo'
  still : bo'.still = bo.still
  staged : Staged s' b bo'
  unblocked : bo'.block = none → BoOk s' b bo'
  touched : Touched b s s'

theorem markCardDirty_ensures (hs : Inv T Nobody s) (hb : s.bo b = some bo) (hT : T b → bo.validated = false)
    (hidle : bo.mapCount = 0) (env : Env) : Ensures (markCardDirty env b s) fun s' =>
      Inv T (Only b) s' ∧ ∃ bo', CardMarked b bo s s' bo' := by
  have hok := hs.bos b bo id hb
  have hvirtual : bo.virtual = none := by rw [hok.virtual, if_pos hidle]
  unfold markCardDirty
  refine (getBo_ensures b s).bind fun bo₀ hb₀ => ?_
  cases hb.symm.trans hb₀
  split
  · -- with a backing store `f` or the one there is
    have hrest : ∀ f, (∀ g, bo.backingStore = some g → f = some g) → Ensures (do
        let s ← (s.setBo b { bo with backingStore := f }).modifyBo b fun bo => { bo with cardDirty := true }
        return { s with performedRendering := true }) fun s' => Inv T (Only b) s' ∧ ∃ bo', CardMarked b bo s s' bo' := by
      intro f hf
      refine (modifyBo_ensures b _ _).bind fun s₁ hs₁ => .pure ?_
      obtain ⟨bo₁, hb₁, rfl⟩ := hs₁
      rw [setBo_self] at hb₁
      cases hb₁
      rw [setBo_setBo]
      have hs₁ : Inv T (Only b) (s.setBo b { bo with backingStore := f, cardDirty := true }) :=
        (hs.only b).setOnly hb ⟨rfl, rfl, rfl, rfl, rfl⟩ rfl rfl hT
      have hbacking : bo.dirty = true → ∀ i v, s.content b i = some v →
          Bo.BackingHolds { bo with backingStore := f, cardDirty := true } i v := by
        intro hd i v hv
        obtain ⟨g, hg, hgi⟩ := hok.backing (.inl hd) i v hv
        exact ⟨g, hf g hg, hgi⟩
      have hstaged : Staged s b { bo with backingStore := f, cardDirty := true } :=
        ⟨hok.fits, hok.bounded, fun h => hbacking (h.resolve_right nofun), hok.card, hidle, hvirtual, fun _ => rfl⟩
      refine ⟨hs₁.counters (Relisted.rendering _ true) rfl ⟨rfl, rfl, rfl⟩, _, setBo_self .., rfl,
        hstaged.mono rfl fun _ _ h => h, fun hnone => ?_, fun _ hc => setBo_of_ne hc .., rfl, rfl, fun _ h => h⟩
      refine BoOk.mono ?_ rfl fun _ _ _ h => h
      exact ⟨hok.fits, hok.bounded, fun h => hbacking (h.resolve_right nofun), hok.card, fun _ _ => hnone,
        fun _ _ => hnone, hok.virtual⟩
    split
    · refine (allocBackingStore_ensures env b s).bind ?_
      rintro s₁ ⟨bo₁, hb₁, hnone, rfl⟩
      cases hb.symm.trans hb₁
      exact hrest _ fun g hg => by
        rw [hnone] at hg
        cases hg
    · have hself := hrest bo.backingStore fun g hg => hg
      rw [show s.setBo b { bo with backingStore := bo.backingStore } = s from setBo_eq_self hb] at hself
      exact hself
  · case isFalse hzero =>
      refine .pure ⟨hs.only b, bo, hb, rfl, ?_, fun _ => hok, fun _ _ => rfl, rfl, rfl, fun _ h => h⟩
      exact ⟨hok.fits, hok.bounded, hok.backing, hok.card, hidle, hvirtual, fun h => absurd h hzero⟩

/-- What `validate` does for `b`, which was `bo`: others may lose blocks. -/
structure ValidatedBo (b : BoId) (bo : Bo) (s s' : State) (ret : Int) : Prop where
  other : ∀ c, c ≠ b → Lasts (s.bo c) (s'.bo c)
  content : s'.content = s.content
  failed : ret ≠ 0 → s'.bo b = some bo
  placed : ret = 0 → ∃ bo', s'.bo b = some bo' ∧ bo'.validated = true ∧ Placed s' bo' ∧ bo'.relocs = bo.relocs ∧
    bo'.core = bo.core ∧ ∀ r ∈ bo'.relocs, Aimed s' r

theorem boValidate_ensures (hs : Inv T (Only b) s) (hclosed : Closed T s) (hb : s.bo b = some bo)
    (hT : T b → bo.validated = false) (hstaged : Staged s b bo) (hok : bo.block = none → BoOk s b bo)
    (htargets : ∀ r ∈ bo.relocs, Aimed s r) (hself : ∀ r ∈ bo.relocs, r.target ≠ b) (env : Env) :
    Ensures (boValidate env b s) fun r => Inv T Nobody r.2 ∧ ValidatedBo b bo s r.2 r.1 := by
  unfold boValidate
  refine (getBo_ensures b s).bind fun bo₀ hb₀ => ?_
  cases hb.symm.trans hb₀
  refine Ensures.bind_any fun _ => ?_
  rw [if_neg (by rw [(hs.ordinary b bo hb).2]; nofun)]
  split
  · case isTrue hnone =>
      replace hnone : bo.block = none := by simpa using hnone
      have hs₀ : Inv T Nobody s := hs.settle hb fun _ => hok hnone
      refine (evictAndAllocBlock_ensures hs₀ env b).bind fun r hr => ?_
      obtain ⟨done, s₁⟩ := r
      obtain ⟨bo₁, hb₁, _, hgets⟩ := hr
      cases hb.symm.trans hb₁
      cases done with
      | false =>
          obtain ⟨hs₁, hev⟩ := hgets.1 rfl
          refine .pure ⟨hs₁.counters ⟨rfl, rfl, rfl, rfl, rfl, rfl, fun _ => rfl⟩ rfl ⟨rfl, rfl, rfl⟩, ?_⟩
          exact ⟨fun c _ => hev.lasts c, hev.content, fun _ => hev.unblocked b bo hb hnone, nofun⟩
      | true =>
          obtain ⟨hs₁, ⟨k, hbk⟩, hlasts, hcontent, _⟩ := hgets.2 rfl
          replace hs₁ : Inv T (Only b) s₁ := hs₁
          replace hbk : s₁.bo b = some { bo with block := some k } := hbk
          replace hcontent : s₁.content = s.content := hcontent
          replace hlasts : ∀ c, Lasts (s.bo c) (s₁.bo c) := hlasts
          -- a clean buffer without block was never written
          have hempty : bo.dirty = false → ∀ i v, s.content b i ≠ some v := by
            intro hd i v hv
            obtain ⟨j, _, hj, _⟩ := hstaged.card hd i v hv
            cases hnone.symm.trans hj
          have hstaged₁ : Staged s₁ b { bo with block := some k } := by
            refine ⟨hstaged.fits, ?_, ?_, ?_, hstaged.idle, hstaged.virtual, hstaged.written⟩
            · rw [hcontent]
              exact hstaged.bounded
            · rw [hcontent]
              exact hstaged.backing
            · rw [hcontent]
              exact fun hd i v hv => absurd hv (hempty hd i v)
          refine (placeBo_ensures hs₁ (hclosed.core fun c => (hlasts c).core) hbk hT hstaged₁
            (fun r hr => (htargets r hr).lasts (hlasts _)) hself env).mono ?_
          rintro r ⟨hret, hinv, hother, hplaced, hcontent'⟩
          refine ⟨hinv, fun c hc => ?_, hcontent'.trans hcontent, fun h => absurd hret h, fun _ => hplaced⟩
          rw [hother c hc]
          exact hlasts c
  · refine (placeBo_ensures hs hclosed hb hT hstaged htargets hself env).mono ?_
    rintro r ⟨hret, hinv, hother, hplaced, hcontent⟩
    exact ⟨hinv, fun c hc => .of_eq (hother c hc), hcontent, fun h => absurd hret h, fun _ => hplaced⟩

/-! ## Relocations -/

/-- What stays of a buffer whose relocations are being written, apart from its mapping. -/
def Bo.closedCore (bo : Bo) : Bo := Bo.core { bo with mapCount := 0, virtual := none }

/-- The buffer `bo₀` while its relocations are being written: mapped at most once, and for writing. -/
structure Open (bo₀ bo : Bo) : Prop where
  core : bo.closedCore = bo₀.closedCore
  validated : bo.validated = bo₀.validated
  count : bo.mapCount ≤ 1
  dirty : bo.mapCount ≠ 0 → bo.dirty = true

theorem closedCore_of_still (h : bo'.still = bo.still) : bo'.closedCore = bo.closedCore := by
  have hcore := Bo.core_of_still h
  have hclosed : ∀ bo : Bo, bo.closedCore = { bo.core with mapCount := 0, virtual := none } := fun _ => rfl
  rw [hclosed, hclosed, hcore]

theorem Open.still {bo₀ : Bo} (h : Open bo₀ bo) (hstill : bo'.still = bo.still)
    (hdirty : bo.dirty = true → bo'.dirty = true) : Open bo₀ bo' := by
  obtain ⟨_, _, _, _, _, _, _, hv, hm, _⟩ := Bo.still_fields hstill
  exact ⟨(closedCore_of_still hstill).trans h.core, hv.trans h.validated, hm ▸ h.count, fun hc => hdirty (h.dirty (hm ▸ hc))⟩

theorem address_of_eq {offset : Int} {a : UInt32} (h : offset = a.toNat) : a = address offset := by
  have hlt := a.toNat_lt
  have hmod : (offset % 2 ^ 32).toNat = a.toNat := by omega
  unfold address
  rw [hmod]
  simp

/-- Relocation `i` of `b`, which was `bo`, has been written. -/
structure Relocated (b : BoId) (bo : Bo) (i : Nat) (r : Reloc) (tbo : Bo) (s s' : State) : Prop where
  other : ∀ c, c ≠ b → s'.bo c = s.bo c
  self : ∃ bo', s'.bo b = some bo' ∧ Open bo bo' ∧
    bo'.relocs = bo.relocs.set i { r with lastTargetOffset := address tbo.offset }

theorem writeReloc_ensures {r : Reloc} {i : Nat} (hs : Inv T Nobody s) (hb : s.bo b = some bo)
    (hT : T b → bo.validated = false) (hdirty : bo.dirty = true) (hcount : bo.mapCount = 1)
    (hr : bo.relocs[i]? = some r) (tbo : Bo) (value : UInt32) : Ensures (do
      let s ← writeVirtual b r.offset.toNat (bytes32 value) s
      s.modifyBo b fun bo => { bo with relocs := bo.relocs.set i { r with lastTargetOffset := address tbo.offset } })
      fun s' => Inv T Nobody s' ∧ Relocated b bo i r tbo s s' := by
  refine (writeVirtual_ensures hs hb hT hdirty _ _).bind fun s₁ hs₁ => ?_
  obtain ⟨hs₁, _, f, rfl⟩ := hs₁
  refine (modifyBo_ensures b _ _).mono ?_
  rintro s₂ ⟨bo₂, hb₂, rfl⟩
  replace hb₂ : (s.setBo b { bo with backingStore := some f }).bo b = some bo₂ := hb₂
  rw [setBo_self] at hb₂
  cases hb₂
  have hok := hs₁.bos b _ id (setBo_self ..)
  refine ⟨hs₁.setBo (setBo_self ..) ⟨rfl, rfl, rfl, rfl, rfl⟩ (fun _ => ?_) rfl rfl hT, fun c hc => ?_, _, setBo_self .., ?_, rfl⟩
  · exact ⟨hok.fits, hok.bounded, hok.backing, hok.card, hok.exclusive, hok.mapped, hok.virtual⟩
  · exact (setBo_of_ne hc ..).trans (setBo_of_ne hc ..)
  · refine ⟨?_, rfl, by rw [hcount], fun _ => hdirty⟩
    have hset : (bo.relocs.set i { r with lastTargetOffset := address tbo.offset }).map
        (fun r => { r with lastTargetOffset := 0 }) = bo.relocs.map fun r => { r with lastTargetOffset := 0 } := by
      refine List.ext_getElem? fun j => ?_
      by_cases hij : i = j
      · subst hij
        obtain ⟨hlt, _⟩ := List.getElem?_eq_some_iff.mp hr
        rw [List.getElem?_map, List.getElem?_set_self hlt, List.getElem?_map, hr]
        rfl
      · rw [List.getElem?_map, List.getElem?_set_ne hij, List.getElem?_map]
    simp only [Bo.closedCore, Bo.core, Bo.still, hset]

theorem applyReloc_ensures {r : Reloc} {i : Nat} {tbo : Bo} (hs : Inv T Nobody s) (hb : s.bo b = some bo)
    (hT : T b → bo.validated = false) (hopen : Open bo bo) (hr : bo.relocs[i]? = some r)
    (htbo : s.bo r.target = some tbo) (env : Env) : Ensures (applyReloc env b i s) fun s' =>
      Inv T Nobody s' ∧ Relocated b bo i r tbo s s' := by
  have hok := hs.bos b bo id hb
  unfold applyReloc
  refine (getBo_ensures b s).bind fun bo₀ hb₀ => (deref_ensures _).bind fun r₀ hr₀ => ?_
  cases hb.symm.trans hb₀
  cases hr.symm.trans hr₀
  refine (getBo_ensures r.target s).bind fun tbo₀ htbo₀ => ?_
  cases htbo.symm.trans htbo₀
  split
  · case isTrue hsame =>
      refine .pure ⟨hs, fun _ _ => rfl, bo, hb, hopen, ?_⟩
      obtain ⟨hlt, hget⟩ := List.getElem?_eq_some_iff.mp hr
      rw [← address_of_eq hsame]
      exact (List.set_getElem_self hlt).symm.trans (by rw [hget])
  · dsimp only
    split
    · case isTrue hnone =>
        have hcount : bo.mapCount = 0 := by
          by_contra hc
          rw [hok.virtual, if_neg hc] at hnone
          cases hnone
        refine (boMapLocked_ensures hs hb hT env true fun _ h => absurd hcount h).bind fun q hq => ?_
        obtain ⟨_, s₁⟩ := q
        obtain ⟨_, hs₁, htouched, bo₁, hb₁, hdirty₁, hstill₁⟩ := hq
        have hfields : bo₁.validated = bo.validated ∧ bo₁.mapCount = bo.mapCount + 1 ∧ bo₁.relocs = bo.relocs := by
          simp only [Bo.still, Bo.mk.injEq] at hstill₁
          tauto
        obtain ⟨hv₁, hm₁, hr₁⟩ := hfields
        have hclosed₁ : bo₁.closedCore = bo.closedCore := by
          have : bo₁.still.closedCore = bo.still.closedCore := by rw [hstill₁]; rfl
          exact this
        refine (writeReloc_ensures hs₁ hb₁ (by rw [hv₁]; exact hT) (hdirty₁ (Bool.or_true _)) (by rw [hm₁, hcount])
          (by rw [hr₁]; exact hr) tbo _).mono ?_
        rintro s' ⟨hs', hother, bo', hb', hopen', hr'⟩
        refine ⟨hs', fun c hc => (hother c hc).trans (htouched.bo c hc), bo', hb', ?_, by rw [hr', hr₁]⟩
        exact ⟨hopen'.core.trans hclosed₁, hopen'.validated.trans hv₁, hopen'.count, hopen'.dirty⟩
    · case isFalse hsome =>
        have hcount : bo.mapCount ≠ 0 := by
          intro hc
          rw [hok.virtual, if_pos hc] at hsome
          exact hsome rfl
        have hone : bo.mapCount = 1 := by
          have := hopen.count
          omega
        exact writeReloc_ensures hs hb hT (hopen.dirty hcount) hone hr tbo _

/-- Buffers that are marked stay where they are. -/
def MarksKept (T : BoId → Prop) (s s' : State) : Prop := ∀ d bo, T d → s.bo d = some bo → bo.validated = true →
  ∃ bo', s'.bo d = some bo' ∧ bo'.validated = true ∧ bo'.offset = bo.offset

theorem MarksKept.trans {s'' : State} (h : MarksKept T s s') (h' : MarksKept T s' s'') : MarksKept T s s'' := by
  intro d bo hT hd hv
  obtain ⟨bo', hd', hv', hofs'⟩ := h d bo hT hd hv
  obtain ⟨bo'', hd'', hv'', hofs''⟩ := h' d bo' hT hd' hv'
  exact ⟨bo'', hd'', hv'', hofs''.trans hofs'⟩

theorem MarksKept.of_other (hb : s.bo b = some bo) (hT : T b → bo.validated = false)
    (hother : ∀ c, c ≠ b → Lasts (s.bo c) (s'.bo c)) : MarksKept T s s' := by
  intro d co hTd hd hv
  have hdb : d ≠ b := by
    rintro rfl
    cases hb.symm.trans hd
    rw [hT hTd] at hv
    cases hv
  obtain ⟨co', hd', hstill, _⟩ := (hother d hdb).some hd
  obtain ⟨_, hofs, _, _, _, _, _, hv', _⟩ := Bo.still_fields hstill
  exact ⟨co', hd', hv'.trans hv, hofs⟩

theorem Aimed.kept {r : Reloc} (h : Aimed s r) (hT : T r.target) (hk : MarksKept T s s') : Aimed s' r := by
  obtain ⟨tbo, htbo, hv, hofs⟩ := h
  obtain ⟨tbo', htbo', hv', hofs'⟩ := hk r.target tbo hT htbo hv
  exact ⟨tbo', htbo', hv', by rw [hofs']; exact hofs⟩

/-- What happens while the relocations of `b` are written. -/
structure Passed (T : BoId → Prop) (b : BoId) (s s' : State) : Prop where
  other : ∀ c, c ≠ b → (s'.bo c).map Bo.core = (s.bo c).map Bo.core
  self : (s'.bo b).map Bo.closedCore = (s.bo b).map Bo.closedCore
  outside : ∀ d, d ≠ b → ¬ ReflTransGen (Targets s) b d → Lasts (s.bo d) (s'.bo d)
  marks : MarksKept T s s'

theorem Passed.refl (T : BoId → Prop) (b : BoId) (s : State) : Passed T b s s :=
  ⟨fun _ _ => rfl, rfl, fun _ _ _ => .refl _, fun _ bo _ hd hv => ⟨bo, hd, hv, rfl⟩⟩

theorem targets_of_closedCore (h : bo'.closedCore = bo.closedCore) :
    bo'.relocs.map Reloc.target = bo.relocs.map Reloc.target := by
  have := targets_of_core h
  exact this

theorem Passed.targets_eq (h : Passed T b s s') : Targets s' = Targets s := by
  have hlist : ∀ c, (s'.bo c).map (fun bo => bo.relocs.map Reloc.target) = (s.bo c).map fun bo => bo.relocs.map Reloc.target := by
    intro c
    have hclosed : (s'.bo c).map Bo.closedCore = (s.bo c).map Bo.closedCore := by
      by_cases hcb : c = b
      · rw [hcb]
        exact h.self
      · have hcore := congrArg (Option.map fun bo : Bo => ({ bo with mapCount := 0, virtual := none } : Bo)) (h.other c hcb)
        rw [Option.map_map, Option.map_map] at hcore
        exact hcore
    cases hc : s.bo c with
    | none =>
        rw [hc] at hclosed
        rw [Option.map_eq_none_iff.mp hclosed]
    | some co =>
        rw [hc] at hclosed
        obtain ⟨co', hc', heq⟩ := Option.map_eq_some_iff.mp hclosed
        rw [hc', Option.map_some, Option.map_some, targets_of_closedCore heq]
  funext c d
  have hiff : ∀ s : State, Targets s c d ↔ ∃ l, (s.bo c).map (fun bo => bo.relocs.map Reloc.target) = some l ∧ d ∈ l := by
    intro s
    constructor
    · rintro ⟨bo, hb, r, hr, hd⟩
      exact ⟨_, by rw [hb]; rfl, List.mem_map.mpr ⟨r, hr, hd⟩⟩
    · rintro ⟨l, hl, hd⟩
      obtain ⟨bo, hb, rfl⟩ := Option.map_eq_some_iff.mp hl
      obtain ⟨r, hr, hd⟩ := List.mem_map.mp hd
      exact ⟨bo, hb, r, hr, hd⟩
  rw [eq_iff_iff, hiff s', hiff s, hlist c]

theorem Passed.trans {s'' : State} (h : Passed T b s s') (h' : Passed T b s' s'') : Passed T b s s'' := by
  refine ⟨fun c hc => (h'.other c hc).trans (h.other c hc), h'.self.trans h.self, fun d hdb hd => ?_,
    h.marks.trans h'.marks⟩
  exact (h.outside d hdb hd).trans (h'.outside d hdb (by rw [h.targets_eq]; exact hd))

/-- What validating `b` and what it reaches leaves alone. -/
structure Visited (T : BoId → Prop) (b : BoId) (s s' : State) : Prop where
  core : CoreSame s s'
  outside : ∀ d, ¬ ReflTransGen (Targets s) b d → Lasts (s.bo d) (s'.bo d)
  marks : MarksKept T s s'

/-- The function validates a buffer, and what it reaches. -/
def Validates (T : BoId → Prop) (f : BoId → State → Except Fault (Int × State)) : Prop :=
  ∀ b s, Inv T Nobody s → Closed T s → (∀ d, Targets s b d → T d) → Acyclic s b →
    (∀ bo, s.bo b = some bo → T b → bo.validated = false) → Ensures (f b s) fun r =>
      Inv T Nobody r.2 ∧ Visited T b s r.2 ∧ (r.1 = 0 → ∃ bo, r.2.bo b = some bo ∧ bo.validated = true ∧
        Placed r.2 bo ∧ ∀ rel ∈ bo.relocs, Aimed r.2 rel)

/-- `b`, which was `bo`, is not mapped any more. -/
theorem unmapIfMapped_ensures (hs : Inv T Nobody s) (hb : s.bo b = some bo) (hT : T b → bo.validated = false)
    (hcount : bo.mapCount ≤ 1) : Ensures (unmapIfMapped b s) fun s' => Inv T Nobody s' ∧
      (∀ c, c ≠ b → s'.bo c = s.bo c) ∧ s'.content = s.content ∧ ∃ bo', s'.bo b = some bo' ∧ bo'.mapCount = 0 ∧
        bo'.closedCore = bo.closedCore ∧ bo'.validated = bo.validated ∧ bo'.relocs = bo.relocs := by
  have hok := hs.bos b bo id hb
  unfold unmapIfMapped
  refine (getBo_ensures b s).bind fun bo₀ hb₀ => ?_
  cases hb.symm.trans hb₀
  split
  · refine (boUnmapLocked_ensures hs hb hT).bind fun q hq => .pure ?_
    obtain ⟨hs', hne, heq⟩ := hq
    refine ⟨hs', fun c hc => ?_, ?_, ?_⟩
    · rw [heq, setBo_of_ne hc]
    · rw [heq]
      rfl
    · rw [heq]
      refine ⟨_, setBo_self .., ?_, rfl, rfl, rfl⟩
      show bo.mapCount - 1 = 0
      omega
  · case isFalse hnone =>
      refine .pure ⟨hs, fun _ _ => rfl, rfl, bo, hb, ?_, rfl, rfl, rfl⟩
      by_contra hc
      rw [hok.virtual, if_neg hc] at hnone
      exact hnone rfl

theorem Relocated.passed {i : Nat} {r : Reloc} {tbo : Bo} (h : Relocated b bo i r tbo s s') (hb : s.bo b = some bo)
    (hT : T b → bo.validated = false) : Passed T b s s' := by
  obtain ⟨bo', hb', hopen, _⟩ := h.self
  refine ⟨fun c hc => by rw [h.other c hc], ?_, fun d hd _ => .of_eq (h.other d hd), ?_⟩
  · rw [hb', hb, Option.map_some, Option.map_some, hopen.core]
  · exact .of_other hb hT fun c hc => .of_eq (h.other c hc)

theorem Visited.passed {t : BoId} (h : Visited T t s s') (ht : Targets s b t) : Passed T b s s' := by
  refine ⟨fun c _ => h.core c, ?_, fun d _ hd => h.outside d fun hr => hd (.head ht hr), h.marks⟩
  have hcore := congrArg (Option.map fun bo : Bo => ({ bo with mapCount := 0, virtual := none } : Bo)) (h.core b)
  rw [Option.map_map, Option.map_map] at hcore
  exact hcore

/-- The loop over the relocations of `b`, which was `bo`. -/
structure Looped (T : BoId → Prop) (b : BoId) (bo : Bo) (s s' : State) (ret : Int) : Prop where
  passed : Passed T b s s'
  self : ∃ bo', s'.bo b = some bo' ∧ Open bo bo' ∧ (ret ≠ 0 → bo'.mapCount = 0) ∧
    (ret = 0 → ∀ r ∈ bo'.relocs, Aimed s' r)

/-- What the loop relies on after `i` relocations. -/
structure LoopReady (T : BoId → Prop) (b : BoId) (bo : Bo) (i : Nat) (s : State) : Prop where
  inv : Inv T Nobody s
  closed : Closed T s
  targets : ∀ d, Targets s b d → T d
  acyclic : Acyclic s b
  found : s.bo b = some bo
  unmarked : T b → bo.validated = false
  count : bo.mapCount ≤ 1
  dirty : bo.mapCount ≠ 0 → bo.dirty = true
  aimed : ∀ j < i, ∀ r, bo.relocs[j]? = some r → Aimed s r

theorem LoopReady.opened {i : Nat} (h : LoopReady T b bo i s) : Open bo bo := ⟨rfl, rfl, h.count, h.dirty⟩

/-- The loop goes on in another state. -/
theorem LoopReady.next {i i' : Nat} (h : LoopReady T b bo i s) (hp : Passed T b s s') (hinv : Inv T Nobody s')
    (hb : s'.bo b = some bo') (hopen : Open bo bo')
    (haimed : ∀ j < i', ∀ r, bo'.relocs[j]? = some r → Aimed s' r) : LoopReady T b bo' i' s' where
  inv := hinv
  closed := by
    unfold Closed
    rw [hp.targets_eq]
    exact h.closed
  targets := by
    rw [hp.targets_eq]
    exact h.targets
  acyclic := by
    unfold Acyclic
    rw [hp.targets_eq]
    exact h.acyclic
  found := hb
  unmarked hT := hopen.validated.trans (h.unmarked hT)
  count := hopen.count
  dirty := hopen.dirty
  aimed := haimed

theorem relocLoop_ensures (env : Env) {again : BoId → State → Except Fault (Int × State)} (hagain : Validates T again)
    (n : Nat) : ∀ i s bo, LoopReady T b bo i s → n + i = bo.relocs.length →
      Ensures (relocLoop env again b n i s) fun q => Inv T Nobody q.2 ∧ Looped T b bo s q.2 q.1 := by
  induction n with
  | zero =>
      intro i s bo h hi
      refine .ok ⟨h.inv, .refl T b s, bo, h.found, h.opened, fun hret => absurd rfl hret, fun _ r hr => ?_⟩
      obtain ⟨j, hj, hget⟩ := List.mem_iff_getElem.mp hr
      exact h.aimed j (by omega) r (List.getElem?_eq_some_iff.mpr ⟨hj, hget⟩)
  | succ n ih =>
      intro i s bo h hi
      have hok := h.inv.bos b bo id h.found
      unfold relocLoop
      refine (getBo_ensures b s).bind fun bo₀ hb₀ => (deref_ensures _).bind fun r hr => ?_
      cases h.found.symm.trans hb₀
      refine (getBo_ensures r.target s).bind fun tbo htbo => ?_
      have htarget : Targets s b r.target := ⟨bo, h.found, r, List.mem_of_getElem? hr, rfl⟩
      have hself : r.target ≠ b := fun heq => h.acyclic.not_reaches_self b (heq ▸ htarget) .refl
      -- the target is validated, and `b` is as it was
      have hrest : ∀ q : Int × State, Inv T Nobody q.2 → Passed T b s q.2 →
          (∃ bo₁, q.2.bo b = some bo₁ ∧ bo₁.still = bo.still ∧ (bo.dirty = true → bo₁.dirty = true)) →
          (q.1 = 0 → ∃ tbo, q.2.bo r.target = some tbo ∧ tbo.validated = true) → Ensures (
          if q.1 ≠ 0 then do
            let s ← unmapIfMapped b q.2
            return (q.1, s)
          else do
            let s ← applyReloc env b i q.2
            relocLoop env again b n (i + 1) s) fun q => Inv T Nobody q.2 ∧ Looped T b bo s q.2 q.1 := by
        rintro ⟨ret, s₁⟩ hs₁ hp₁ ⟨bo₁, hb₁, hstill, hdirty⟩ hvalid
        have hopen₁ : Open bo bo₁ := h.opened.still hstill hdirty
        have hT₁ : T b → bo₁.validated = false := fun hT => hopen₁.validated.trans (h.unmarked hT)
        have hrelocs₁ : bo₁.relocs = bo.relocs := (Bo.still_fields hstill).2.2.2.2.2.2.2.2.2
        split
        · case isTrue hret =>
            refine (unmapIfMapped_ensures hs₁ hb₁ hT₁ hopen₁.count).bind fun s₂ hs₂ => .pure ?_
            obtain ⟨hs₂, hother, _, bo₂, hb₂, hcount₂, hclosed₂, hv₂, _⟩ := hs₂
            have hp₂ : Passed T b s₁ s₂ := by
              refine ⟨fun c hc => by rw [hother c hc], ?_, fun d hd _ => .of_eq (hother d hd), ?_⟩
              · rw [hb₁, hb₂, Option.map_some, Option.map_some, hclosed₂]
              · exact .of_other hb₁ hT₁ fun c hc => .of_eq (hother c hc)
            refine ⟨hs₂, hp₁.trans hp₂, bo₂, hb₂, ?_, fun _ => hcount₂, fun h0 => absurd h0 hret⟩
            exact ⟨hclosed₂.trans hopen₁.core, hv₂.trans hopen₁.validated, by omega, fun hc => absurd hcount₂ hc⟩
        · case isFalse hret =>
            have hret : ret = 0 := not_not.mp hret
            obtain ⟨tbo₁, htbo₁, htv₁⟩ := hvalid hret
            have hr₁ : bo₁.relocs[i]? = some r := by
              rw [hrelocs₁]
              exact hr
            refine (applyReloc_ensures hs₁ hb₁ hT₁ ⟨rfl, rfl, hopen₁.count, hopen₁.dirty⟩ hr₁ htbo₁ env).bind fun s₂ hs₂ => ?_
            obtain ⟨hs₂, hrel⟩ := hs₂
            have hp₂ := hp₁.trans (hrel.passed hb₁ hT₁)
            obtain ⟨bo₂, hb₂, hopen₂, hrelocs₂⟩ := hrel.self
            have hopen₂' : Open bo bo₂ := ⟨hopen₂.core.trans hopen₁.core, hopen₂.validated.trans hopen₁.validated,
              hopen₂.count, hopen₂.dirty⟩
            have haimed : ∀ j < i + 1, ∀ r', bo₂.relocs[j]? = some r' → Aimed s₂ r' := by
              intro j hj r' hr'
              rw [hrelocs₂, hrelocs₁] at hr'
              by_cases hij : i = j
              · subst hij
                obtain ⟨hlt, _⟩ := List.getElem?_eq_some_iff.mp hr
                rw [List.getElem?_set_self hlt] at hr'
                cases hr'
                exact ⟨tbo₁, (hrel.other _ hself).trans htbo₁, htv₁, rfl⟩
              · rw [List.getElem?_set_ne hij] at hr'
                have hT' : T r'.target := h.targets _ ⟨bo, h.found, r', List.mem_of_getElem? hr', rfl⟩
                exact (h.aimed j (by omega) r' hr').kept hT' hp₂.marks
            have hready := h.next hp₂ hs₂ hb₂ hopen₂' haimed
            refine (ih (i + 1) s₂ bo₂ hready ?_).mono ?_
            · rw [hrelocs₂, List.length_set, hrelocs₁]
              omega
            · rintro q ⟨hq, hpassed, bo', hb', hopen', hret', haimed'⟩
              refine ⟨hq, hp₂.trans hpassed, bo', hb', ?_, hret', haimed'⟩
              exact ⟨hopen'.core.trans hopen₂'.core, hopen'.validated.trans hopen₂'.validated, hopen'.count, hopen'.dirty⟩
      split
      · case isTrue hvalid =>
          exact hrest (0, s) h.inv (.refl T b s) ⟨bo, h.found, rfl, id⟩ fun _ => ⟨tbo, htbo, hvalid⟩
      · case isFalse hvalid =>
          have hacyclic : Acyclic s r.target := h.acyclic.inv htarget
          refine (hagain r.target s h.inv h.closed (fun d hd => h.closed _ d (h.targets _ htarget) hd) hacyclic ?_).bind ?_
          · intro tbo' htbo' _
            cases htbo.symm.trans htbo'
            simpa using hvalid
          · rintro q ⟨hq, hvisited, hplaced⟩
            refine hrest q hq (hvisited.passed htarget) ?_ fun hret => ?_
            · exact (hvisited.outside b (h.acyclic.not_reaches_self _ htarget)).some h.found
            · obtain ⟨tbo', htbo', hv', _⟩ := hplaced hret
              exact ⟨tbo', htbo', hv'⟩

theorem closedCore_eq (hcount : bo.mapCount = 0) (hvirtual : bo.virtual = none) : bo.closedCore = bo.core := by
  have hself : ({ bo with mapCount := 0, virtual := none } : Bo) = bo := by
    rw [← hcount, ← hvirtual]
  rw [Bo.closedCore, hself]

theorem BoOk.closed (h : BoOk s b bo) (hcount : bo.mapCount = 0) : bo.closedCore = bo.core :=
  closedCore_eq hcount (by rw [h.virtual, if_pos hcount])

/-- A pass over `b` at whose end `b` is not mapped. -/
theorem Passed.visited (h : Passed T b s s') (hb : s.bo b = some bo) (hclosed : bo.closedCore = bo.core)
    (hb' : s'.bo b = some bo') (hclosed' : bo'.closedCore = bo'.core) : Visited T b s s' := by
  refine ⟨fun c => ?_, fun d hd => h.outside d (fun heq => hd (heq ▸ .refl)) hd, h.marks⟩
  by_cases hcb : c = b
  · have hself := h.self
    rw [hb, hb', Option.map_some, Option.map_some, hclosed, hclosed'] at hself
    rw [hcb, hb, hb']
    exact hself
  · exact h.other c hcb

theorem relocAndValidateBuffer_validates (env : Env) (fuel : Nat) : Validates T (relocAndValidateBuffer env fuel) := by
  induction fuel with
  | zero => exact fun _ _ _ _ _ _ _ => .error
  | succ fuel ih =>
      intro b s hs hclosed htargets hacyclic hunmarked
      unfold relocAndValidateBuffer
      refine (getBo_ensures b s).bind fun bo hb => (assert_ensures _).bind fun _ hcount => ?_
      replace hcount : bo.mapCount = 0 := by simpa using hcount
      have hcore := (hs.bos b bo id hb).closed hcount
      have hready : LoopReady T b bo 0 s :=
        ⟨hs, hclosed, htargets, hacyclic, hb, hunmarked bo hb, by omega, fun h => absurd hcount h, fun j hj => absurd hj (by omega)⟩
      refine (relocLoop_ensures env ih bo.relocs.length 0 s bo hready (by omega)).bind fun q hq => ?_
      obtain ⟨ret, s₁⟩ := q
      obtain ⟨hs₁, hp₁, bo₁, hb₁, hopen₁, hfail₁, haimed₁⟩ := hq
      replace hs₁ : Inv T Nobody s₁ := hs₁
      replace hp₁ : Passed T b s s₁ := hp₁
      replace hb₁ : s₁.bo b = some bo₁ := hb₁
      have hT₁ : T b → bo₁.validated = false := fun hT => hopen₁.validated.trans (hunmarked bo hb hT)
      dsimp only
      split
      · case isTrue hret =>
          refine .pure ⟨hs₁, ?_, fun h => absurd h hret⟩
          exact hp₁.visited hb hcore hb₁ ((hs₁.bos b bo₁ id hb₁).closed (hfail₁ hret))
      · case isFalse hret =>
          refine (unmapIfMapped_ensures hs₁ hb₁ hT₁ hopen₁.count).bind fun s₂ hs₂ => ?_
          obtain ⟨hs₂, hother₂, _, bo₂, hb₂, hcount₂, hclosed₂, hv₂, hrelocs₂⟩ := hs₂
          have hT₂ : T b → bo₂.validated = false := fun hT => hv₂.trans (hT₁ hT)
          refine (markCardDirty_ensures hs₂ hb₂ hT₂ hcount₂ env).bind fun s₃ hs₃ => ?_
          obtain ⟨hs₃, bo₃, hmarked⟩ := hs₃
          obtain ⟨_, _, _, _, _, _, _, hv₃, _, hrelocs₃⟩ := Bo.still_fields hmarked.still
          have hT₃ : T b → bo₃.validated = false := fun hT => hv₃.trans (hT₂ hT)
          have hother₃ : ∀ c, c ≠ b → s₃.bo c = s₁.bo c := fun c hc => (hmarked.touched.bo c hc).trans (hother₂ c hc)
          -- only `b` has changed since the loop
          have hp₃ : Passed T b s s₃ := by
            refine hp₁.trans ⟨fun c hc => by rw [hother₃ c hc], ?_, fun d hd _ => .of_eq (hother₃ d hd), ?_⟩
            · rw [hb₁, hmarked.found, Option.map_some, Option.map_some, closedCore_of_still hmarked.still, hclosed₂]
            · exact .of_other hb₁ hT₁ fun c hc => .of_eq (hother₃ c hc)
          have hself : ∀ r ∈ bo₃.relocs, r.target ≠ b := by
            intro r hr heq
            have ht : Targets s₃ b b := ⟨bo₃, hmarked.found, r, hr, heq⟩
            rw [hp₃.targets_eq] at ht
            exact hacyclic.not_reaches_self b ht .refl
          have haimed₃ : ∀ r ∈ bo₃.relocs, Aimed s₃ r := by
            intro r hr
            have haimed := haimed₁ (not_not.mp hret) r (by rw [← hrelocs₂, ← hrelocs₃]; exact hr)
            unfold Aimed
            rw [hother₃ _ (hself r hr)]
            exact haimed
          have hclosed₃ : Closed T s₃ := by
            unfold Closed
            rw [hp₃.targets_eq]
            exact hclosed
          refine (boValidate_ensures hs₃ hclosed₃ hmarked.found hT₃ hmarked.staged hmarked.unblocked haimed₃ hself env).mono ?_
          rintro r ⟨hinv, hvalid⟩
          have hp₄ : ∀ bo₄, r.2.bo b = some bo₄ → bo₄.core = bo₃.core → Visited T b s r.2 := by
            intro bo₄ hb₄ hcore₄
            refine (hp₃.trans ⟨fun c hc => (hvalid.other c hc).core, ?_, fun d hd _ => hvalid.other d hd, ?_⟩).visited hb
              hcore hb₄ ?_
            · have : bo₄.closedCore = bo₃.closedCore := by
                have hclosed : ∀ bo : Bo, bo.closedCore = { bo.core with mapCount := 0, virtual := none } := fun _ => rfl
                rw [hclosed, hclosed, hcore₄]
              rw [hb₄, hmarked.found, Option.map_some, Option.map_some, this]
            · exact .of_other hmarked.found hT₃ hvalid.other
            · refine closedCore_eq ?_ ?_
              · have : bo₄.core.mapCount = bo₃.core.mapCount := by rw [hcore₄]
                exact this.trans hmarked.staged.idle
              · have : bo₄.core.virtual = bo₃.core.virtual := by rw [hcore₄]
                exact this.trans hmarked.staged.virtual
          by_cases hret' : r.1 = 0
          · obtain ⟨bo₄, hb₄, hv₄, hplaced, _, hcore₄, haimed₄⟩ := hvalid.placed hret'
            exact ⟨hinv, hp₄ bo₄ hb₄ hcore₄, fun _ => ⟨bo₄, hb₄, hv₄, hplaced, haimed₄⟩⟩
          · exact ⟨hinv, hp₄ bo₃ (hvalid.failed hret') rfl, fun h => absurd h hret'⟩

end LibDrm.Fake
