/-
# `LibDrm.Fake.Map` — the CPU maps, writes and unmaps

The first mapping of a buffer brings back what the card has written; from then
on the backing store is current, until the last mapping is gone.  A mapping for
writing makes the buffer dirty, unless it is nested: a nested mapping returns
before that, so the buffer has to be dirty already (`WriteReady`).
-/
import LibDrm.Fake.Evict

namespace LibDrm.Fake

variable {T X : BoId → Prop} {s s' : State} {b : BoId} {bo : Bo} {k : BlockId} {blk : Block}

/-! ## Writing to a copy -/

/-- Nobody but `b` uses the memory of its block. -/
theorem Inv.elsewhere (hs : Inv T X s) (hb : s.bo b = some bo) (hfits : bo.Fits) (hk : bo.block = some k)
    (hblk : s.block k = some blk) {c : BoId} (hcb : c ≠ b) {co : Bo} (hc : s.bo c = some co) (hcfits : co.Fits)
    {j : BlockId} {blkj : Block} (hj : co.block = some j) (hblkj : s.block j = some blkj) {i : Nat} (hi : i < co.size) :
    ¬ (s.ofs blk ≤ s.ofs blkj + i ∧ s.ofs blkj + i < s.ofs blk + bo.size) := by
  obtain ⟨lo, hi', hheap⟩ := hs.heap
  have hmem : blkj.mem ≠ blk.mem := by
    intro heq
    cases hs.apart j k blkj blk hblkj hblk heq
    cases hblk.symm.trans hblkj
    obtain ⟨blk₁, hblk₁, hown₁⟩ := hs.owned b bo k hb hk
    obtain ⟨blk₂, hblk₂, hown₂⟩ := hs.owned c co k hc hj
    cases hblk₁.symm.trans hblk₂
    exact hcb (Option.some.inj (hown₂.symm.trans hown₁))
  have hroom := hs.room b bo k blk hb hfits hk hblk
  have hroomj := hs.room c co j blkj hc hcfits hj hblkj
  have happart := hheap.apart (hs.held j blkj hblkj) (hs.held k blk hblk) hmem
  unfold Tiling.Apart at happart
  unfold State.ofs
  omega

/-- The buffer `b` is written to, in its block or in the record of the last writes. -/
theorem Inv.paint (hs : Inv T X s) (hX : X b) (hb : s.bo b = some bo) (hfits : bo.Fits)
    {card : Int → UInt8} {content : BoId → Nat → Option UInt8} (hcontent : ∀ c, c ≠ b → content c = s.content c)
    (hcard : ∀ a, (∀ k blk, bo.block = some k → s.block k = some blk →
      ¬ (s.ofs blk ≤ a ∧ a < s.ofs blk + bo.size)) → card a = s.card a) :
    Inv T X { s with card := card, content := content } := by
  refine ⟨⟨hs.heap, hs.held, hs.full, hs.apart, hs.freshBlock, hs.nodup, hs.known, hs.listed, hs.orphan⟩,
    ⟨hs.ordinary, hs.owned, hs.owner, hs.room, ?_, ?_, hs.placed⟩⟩
  · intro c hc
    obtain ⟨hnone, hempty⟩ := hs.freshBo c hc
    have hcb : c ≠ b := by
      rintro rfl
      cases hb.symm.trans hnone
    refine ⟨hnone, ?_⟩
    show ∀ i, content c i = none
    rw [hcontent c hcb]
    exact hempty
  · intro c co hXc hc
    have hcb : c ≠ b := by
      rintro rfl
      exact hXc hX
    have hok := hs.bos c co hXc hc
    refine hok.mono (hcontent c hcb) ?_
    rintro i v hi ⟨j, blkj, hj, hblkj, hv⟩
    refine ⟨j, blkj, hj, hblkj, ?_⟩
    refine (hcard _ ?_).trans hv
    exact fun k blk hk hblk => hs.elsewhere hb hfits hk hblk hcb hc hok.fits hj hblkj hi

/-- A new buffer, without block and contents. -/
theorem Inv.alloc (hs : Inv Nobody X s) (hblock : bo.block = none) (hord : bo.flags = {} ∧ bo.isStatic = false)
    (hclean : bo.virtual = none) (hcount : bo.mapCount = 0) (hfits : ¬ X s.freshBo → bo.Fits) :
    Inv Nobody X { s.setBo s.freshBo bo with freshBo := s.freshBo + 1 } := by
  obtain ⟨hfresh, hempty⟩ := hs.freshBo s.freshBo (Nat.le_refl _)
  have hother : ∀ c co, s.bo c = some co → c ≠ s.freshBo := by
    rintro c co hc rfl
    cases hfresh.symm.trans hc
  have hcases : ∀ c co, (s.setBo s.freshBo bo).bo c = some co → (c = s.freshBo ∧ co = bo) ∨ s.bo c = some co := by
    intro c co hc
    by_cases hcb : c = s.freshBo
    · subst hcb
      rw [setBo_self] at hc
      exact .inl ⟨rfl, (Option.some.inj hc).symm⟩
    · rw [setBo_of_ne hcb] at hc
      exact .inr hc
  refine ⟨⟨hs.heap, hs.held, hs.full, hs.apart, hs.freshBlock, hs.nodup, hs.known, hs.listed, hs.orphan⟩,
    ⟨?_, ?_, ?_, ?_, ?_, ?_, fun _ _ h => h.elim⟩⟩
  · intro c co hc
    rcases hcases c co hc with ⟨_, rfl⟩ | hc
    · exact hord
    · exact hs.ordinary c co hc
  · intro c co k hc hk
    rcases hcases c co hc with ⟨_, rfl⟩ | hc
    · cases hblock.symm.trans hk
    · exact hs.owned c co k hc hk
  · intro k blk c hk hc
    obtain ⟨co, hco, hcok⟩ := hs.owner k blk c hk hc
    exact ⟨co, (setBo_of_ne (hother c co hco) ..).trans hco, hcok⟩
  · intro c co k blk hc hfits hk hblk
    rcases hcases c co hc with ⟨_, rfl⟩ | hc
    · cases hblock.symm.trans hk
    · exact hs.room c co k blk hc hfits hk hblk
  · intro c hc
    replace hc : s.freshBo + 1 ≤ c := hc
    obtain ⟨hnone, hcontent⟩ := hs.freshBo c (Nat.le_of_succ_le hc)
    exact ⟨(setBo_of_ne (Nat.ne_of_gt hc) ..).trans hnone, hcontent⟩
  · intro c co hX hc
    rcases hcases c co hc with ⟨rfl, rfl⟩ | hc
    · have hno : ∀ i v, s.content s.freshBo i ≠ some v := fun i v h => by
        rw [hempty i] at h
        cases h
      refine ⟨hfits hX, fun i v h => absurd h (hno i v), fun _ i v h => absurd h (hno i v),
        fun _ i v h => absurd h (hno i v), fun _ _ => hblock, fun _ _ => hblock, ?_⟩
      rw [hclean, hcount]
      rfl
    · exact (hs.bos c co hX hc).mono rfl fun _ _ _ h => h

/-! ## Mapping -/

/-- No buffer but `b`. -/
abbrev Only (b : BoId) : BoId → Prop := fun c => Nobody c ∨ c = b

theorem Inv.only (hs : Inv T Nobody s) (b : BoId) : Inv T (Only b) s := hs.exempt fun _ => .inl

/-- An exempt buffer changes. -/
theorem Inv.setOnly (hs : Inv T (Only b) s) (hb : s.bo b = some bo) {bo' : Bo} (hlike : bo.Like bo')
    (hvalid : bo'.validated = bo.validated) (hoffset : bo'.offset = bo.offset) (hT : T b → bo.validated = false) :
    Inv T (Only b) (s.setBo b bo') :=
  hs.setBo hb hlike (fun h => absurd (.inr rfl) h) hvalid hoffset hT

/-- Only the buffer `b` is different. -/
structure Touched (b : BoId) (s s' : State) : Prop where
  bo : ∀ c, c ≠ b → s'.bo c = s.bo c
  content : s'.content = s.content
  freshBo : s'.freshBo = s.freshBo
  hardware : ∀ j, j ∈ s'.onHardware → j ∈ s.onHardware

theorem Touched.trans {s'' : State} (h : Touched b s s') (h' : Touched b s' s'') : Touched b s s'' :=
  ⟨fun c hc => (h'.bo c hc).trans (h.bo c hc), h'.content.trans h.content, h'.freshBo.trans h.freshBo,
    fun j hj => h.hardware j (h'.hardware j hj)⟩

theorem touched_setBo (b : BoId) (bo : Bo) (s : State) : Touched b s (s.setBo b bo) :=
  ⟨fun _ hc => setBo_of_ne hc .., rfl, rfl, fun _ h => h⟩

theorem Cleared.touched (h : Cleared s s') (b : BoId) : Touched b s s' :=
  ⟨fun c _ => by rw [h.bo], h.content, h.freshBo, h.hardware⟩

theorem Cleared.cardHolds (h : Cleared s s') (hk : bo.block = some k) (hblk : s.block k = some blk) (hown : blk.bo ≠ none)
    {i : Nat} {v : UInt8} (hv : s.CardHolds bo i v) : s'.CardHolds bo i v := by
  obtain ⟨j, blkj, hj, hblkj, hv⟩ := hv
  cases hk.symm.trans hj
  cases hblk.symm.trans hblkj
  obtain ⟨blk', hblk', _, _, hofs⟩ := h.block k blk hblk hown
  exact ⟨k, blk', hk, hblk', by rw [h.card, hofs]; exact hv⟩

/-- What the card has written to `b`, which is `bo`, is in the backing store afterwards. -/
structure Fetched (b : BoId) (bo : Bo) (s s' : State) : Prop where
  touched : Touched b s s'
  card : ∀ i v, s.CardHolds bo i v → s'.CardHolds bo i v
  bo : (bo.cardDirty = true → bo.block = none) ∧ s'.bo b = some bo ∨
    ∃ old k blk, bo.cardDirty = true ∧ bo.backingStore = some old ∧ bo.block = some k ∧ s.block k = some blk ∧
      s'.bo b = some { bo with backingStore := some (copyOut blk bo.size old s), cardDirty := false }

theorem Fetched.refl (hb : s.bo b = some bo) (h : bo.cardDirty = true → bo.block = none) : Fetched b bo s s :=
  ⟨⟨fun _ _ => rfl, rfl, rfl, fun _ h => h⟩, fun _ _ h => h, .inl ⟨h, hb⟩⟩

theorem fetchCard_ensures (hs : Inv T X s) (hX : X b) (hb : s.bo b = some bo) (hT : T b → bo.validated = false)
    (env : Env) : Ensures (fetchCard env b s) fun s' => Inv T X s' ∧ Fetched b bo s s' := by
  unfold fetchCard
  refine (getBo_ensures b s).bind fun bo' hb' => ?_
  cases hb.symm.trans hb'
  cases hk : bo.block with
  | none => exact .pure ⟨hs, .refl hb fun _ => hk⟩
  | some k =>
      dsimp only
      split
      · case isTrue hdirty =>
          obtain ⟨blk, hblk, hown⟩ := hs.owned b bo k hb hk
          have hne : blk.bo ≠ none := by
            rw [hown]
            nofun
          have hsave : ∀ s₁, Inv T X s₁ → Cleared s s₁ → Ensures (saveBlock b blk s₁) fun s' =>
              Inv T X s' ∧ Fetched b bo s s' := by
            intro s₁ hs₁ hcl
            refine (saveBlock_ensures b blk s₁).mono ?_
            rintro s' ⟨bo₁, old, hb₁, hold, rfl⟩
            cases hb.symm.trans (hcl.bo ▸ hb₁)
            obtain ⟨blk', _, hmem, _, hofs⟩ := hcl.block k blk hblk hne
            have hcopy : copyOut blk bo.size old s₁ = copyOut blk bo.size old s := by
              have hofs' : s₁.ofs blk = s.ofs blk := by rw [← hofs, State.ofs, State.ofs, hmem]
              unfold copyOut
              rw [hcl.card, hofs']
            refine ⟨hs₁.setBo hb₁ ⟨rfl, rfl, rfl, rfl, rfl⟩ (fun h => absurd hX h) rfl rfl hT, (hcl.touched b).trans (touched_setBo ..), ?_, .inr ?_⟩
            · exact fun i v hv => hcl.cardHolds hk hblk hne hv
            · exact ⟨old, k, blk, hdirty, hold, hk, hblk, by rw [setBo_self, hcopy]⟩
          refine (getBlock_ensures k s).bind fun blk' hblk' => ?_
          cases hblk.symm.trans hblk'
          split
          · exact (waitRenderingLocked_ensures hs env b).bind fun s₁ hs₁ => hsave s₁ hs₁.1 hs₁.2
          · exact hsave s hs (.refl s)
      · case isFalse hdirty => exact .pure ⟨hs, .refl hb fun h => absurd h hdirty⟩

/-- The buffer `b`, which was `bo`, is mapped once more. -/
structure Mapped (b : BoId) (bo : Bo) (writeEnable : Bool) (s s' : State) : Prop where
  touched : Touched b s s'
  bo : ∃ bo', s'.bo b = some bo' ∧ ((bo.dirty || writeEnable) = true → bo'.dirty = true) ∧
    bo'.still = { bo.still with mapCount := bo.mapCount + 1, virtual := some .backing }

/-- A write that fails to mark the buffer does no harm when the buffer is marked. -/
def WriteReady (bo : Bo) : Prop := bo.mapCount ≠ 0 → bo.dirty = true

theorem Bo.still_fields {bo' : Bo} (h : bo'.still = bo.still) :
    bo'.size = bo.size ∧ bo'.offset = bo.offset ∧ bo'.virtual = bo.virtual ∧ bo'.flags = bo.flags ∧
      bo'.writeDomain = bo.writeDomain ∧ bo'.alignment = bo.alignment ∧ bo'.isStatic = bo.isStatic ∧
      bo'.validated = bo.validated ∧ bo'.mapCount = bo.mapCount ∧ bo'.relocs = bo.relocs := by
  simp only [Bo.still, Bo.mk.injEq] at h
  tauto

theorem setDirtyIf_ensures (writeEnable : Bool) (hb : s.bo b = some bo) : Ensures (setDirtyIf writeEnable b s) fun s' =>
    s' = s.setBo b { bo with dirty := bo.dirty || writeEnable } := by
  unfold setDirtyIf
  cases writeEnable with
  | true =>
      refine (setDirty_ensures b s).mono ?_
      rintro s' ⟨bo', hb', rfl⟩
      cases hb.symm.trans hb'
      rw [Bool.or_true]
  | false =>
      refine .ok ?_
      rw [Bool.or_false]
      exact (setBo_eq_self hb).symm

theorem allocBackingStore_ensures (env : Env) (b : BoId) (s : State) : Ensures (allocBackingStore env b s) fun s' =>
    ∃ bo, s.bo b = some bo ∧ bo.backingStore = none ∧
      s' = s.setBo b { bo with backingStore := some (env.garbage b) } := by
  unfold allocBackingStore
  refine (getBo_ensures b s).bind fun bo hb => (assert_ensures _).bind fun _ hnone => Ensures.bind_any fun _ => .pure ?_
  exact ⟨bo, hb, by simpa using hnone, rfl⟩

theorem needBackingStore_ensures (env : Env) (hb : s.bo b = some bo) : Ensures (needBackingStore env b s) fun s' =>
    ∃ f, s' = s.setBo b { bo with backingStore := some f } ∧ ∀ g, bo.backingStore = some g → f = g := by
  unfold needBackingStore
  refine (getBo_ensures b s).bind fun bo' hb' => ?_
  cases hb.symm.trans hb'
  cases hf : bo.backingStore with
  | none =>
      refine (allocBackingStore_ensures env b s).mono ?_
      rintro s' ⟨bo', hb', _, rfl⟩
      cases hb.symm.trans hb'
      exact ⟨_, rfl, nofun⟩
  | some f =>
      refine .pure ⟨f, ?_, fun g hg => Option.some.inj hg⟩
      rw [← hf]
      exact (setBo_eq_self hb).symm

/-- Once what the card has written is fetched, the backing store holds every byte. -/
theorem BoOk.fetched (hok : BoOk s b bo) {f : Nat → UInt8} (hf : ∀ g, bo.backingStore = some g → f = g) {i : Nat}
    {v : UInt8} (hv : s.content b i = some v) :
    ((bo.cardDirty = true → bo.block = none) → f i = v) ∧
      ∀ k blk, bo.cardDirty = true → bo.block = some k → s.block k = some blk → copyOut blk bo.size f s i = v := by
  have hcases : bo.BackingHolds i v ∨ bo.dirty = false ∧ bo.cardDirty = true ∧ s.CardHolds bo i v := by
    by_cases hbacking : bo.dirty = true ∨ bo.cardDirty = false
    · exact .inl (hok.backing hbacking i v hv)
    · have hclean : bo.dirty = false ∧ bo.cardDirty = true := by simpa using hbacking
      exact .inr ⟨hclean.1, hclean.2, hok.card hclean.1 i v hv⟩
  refine ⟨fun hnone => ?_, fun k blk hdirty hk hblk => ?_⟩
  · rcases hcases with ⟨g, hg, hgi⟩ | ⟨_, hdirty, k, blk, hk, _⟩
    · rw [hf g hg, hgi]
    · rw [hnone hdirty] at hk
      cases hk
  · have hclean : bo.dirty = false := by
      by_contra hd
      have := hok.exclusive (by simpa using hd) hdirty
      rw [hk] at this
      cases this
    obtain ⟨k', blk', hk', hblk', hv'⟩ := hok.card hclean i v hv
    cases hk.symm.trans hk'
    cases hblk.symm.trans hblk'
    rw [copyOut, if_pos (hok.bounded i v hv)]
    exact hv'

/-- The first mapping of an ordinary buffer, which counts already. -/
theorem mapBacking_ensures (hs : Inv T (Only b) s) (hb : s.bo b = some { bo with mapCount := 1 }) (hok : BoOk s b bo)
    (hcount : bo.mapCount = 0) (hT : T b → bo.validated = false) (env : Env) (writeEnable : Bool) :
    Ensures (mapBacking env b writeEnable s) fun r =>
      r.1 = 0 ∧ Inv T Nobody r.2 ∧ Mapped b bo writeEnable s r.2 := by
  unfold mapBacking
  refine (setDirtyIf_ensures writeEnable hb).bind fun s₁ hs₁ => ?_
  refine (needBackingStore_ensures env (by rw [hs₁]; exact setBo_self ..)).bind fun s₂ hs₂ => ?_
  obtain ⟨f, hs₂, hf⟩ := hs₂
  rw [hs₁, setBo_setBo] at hs₂
  clear hs₁
  have hinv₂ : Inv T (Only b) s₂ := by
    rw [hs₂]
    exact hs.setOnly hb ⟨rfl, rfl, rfl, rfl, rfl⟩ rfl rfl hT
  have hb₂ : s₂.bo b = some { bo with mapCount := 1, dirty := bo.dirty || writeEnable, backingStore := some f } := by
    rw [hs₂]
    exact setBo_self ..
  have hcontent₂ : s₂.content = s.content := by rw [hs₂]; rfl
  have hholds₂ : ∀ i v, s.CardHolds bo i v → s₂.CardHolds bo i v := by rw [hs₂]; exact fun _ _ h => h
  refine (fetchCard_ensures hinv₂ (.inr rfl) hb₂ hT env).bind fun s₃ hs₃ => ?_
  obtain ⟨hinv₃, hfetch⟩ := hs₃
  -- the backing store now holds everything, and only a buffer without block is still marked
  obtain ⟨g, cardDirty, hb₃, hg, hmark⟩ : ∃ g cardDirty,
      s₃.bo b = some { bo with mapCount := 1, dirty := bo.dirty || writeEnable, backingStore := some g, cardDirty } ∧
      (∀ i v, s.content b i = some v → g i = v) ∧ (cardDirty = true → bo.block = none) := by
    rcases hfetch.bo with ⟨hnone, hb₃⟩ | ⟨old, k, blk, hdirty, hold, hk, hblk, hb₃⟩
    · exact ⟨f, bo.cardDirty, hb₃, fun i v hv => (hok.fetched hf hv).1 hnone, hnone⟩
    · cases hold
      have hcopy : copyOut blk bo.size f s₂ = copyOut blk bo.size f s := by
        rw [hs₂]
        rfl
      have hblk' : s.block k = some blk := by
        rw [hs₂] at hblk
        exact hblk
      refine ⟨_, false, hb₃, fun i v hv => ?_, nofun⟩
      show copyOut blk bo.size f s₂ i = v
      rw [hcopy]
      exact (hok.fetched hf hv).2 k blk hdirty hk hblk'
  refine (modifyBo_ensures b _ s₃).bind fun s₄ hs₄ => .pure ?_
  obtain ⟨bo₄, hb₄, rfl⟩ := hs₄
  cases hb₃.symm.trans hb₄
  have hcontent₃ : s₃.content = s.content := hfetch.touched.content.trans hcontent₂
  have htouched : Touched b s s₃ := by
    refine Touched.trans ?_ hfetch.touched
    rw [hs₂]
    exact touched_setBo ..
  refine ⟨rfl, ?_, htouched.trans (touched_setBo ..), ?_⟩
  · refine hinv₃.setBo_settle hb₃ (by exact ⟨rfl, rfl, rfl, rfl, rfl⟩) (by rfl) (by rfl) hT fun _ => ?_
    constructor
    · exact hok.fits
    · show ∀ i v, s₃.content b i = some v → i < bo.size
      rw [hcontent₃]
      exact hok.bounded
    · show _ → ∀ i v, s₃.content b i = some v → _
      rw [hcontent₃]
      exact fun _ i v hv => ⟨g, rfl, hg i v hv⟩
    · show _ → ∀ i v, s₃.content b i = some v → _
      rw [hcontent₃]
      intro hdirty i v hv
      have hclean : bo.dirty = false := (Bool.or_eq_false_iff.mp hdirty).1
      exact hfetch.card i v (hholds₂ i v (hok.card hclean i v hv))
    · exact fun _ => hmark
    · exact fun _ => hmark
    · rfl
  · exact ⟨_, setBo_self .., id, by simp [Bo.still, hcount]⟩

theorem boMapLocked_ensures (hs : Inv T Nobody s) (hb : s.bo b = some bo) (hT : T b → bo.validated = false) (env : Env)
    (writeEnable : Bool) (hready : writeEnable = true → WriteReady bo) : Ensures (boMapLocked env b writeEnable s) fun r =>
      r.1 = 0 ∧ Inv T Nobody r.2 ∧ Mapped b bo writeEnable s r.2 := by
  have hok := hs.bos b bo id hb
  have hflags : bo.flags.noBackingStore = false ∧ bo.flags.pinned = false := by simp [(hs.ordinary b bo hb).1]
  unfold boMapLocked
  refine (getBo_ensures b s).bind fun bo' hb' => ?_
  cases hb.symm.trans hb'
  rw [if_neg (by rw [(hs.ordinary b bo hb).2]; decide)]
  dsimp only
  split
  · case isTrue hcount =>
      have hvirtual : bo.virtual = some .backing := by rw [hok.virtual, if_neg hcount]
      refine .pure ⟨rfl, ?_, touched_setBo .., _, setBo_self .., fun hw => ?_, ?_⟩
      · refine hs.setBo hb ⟨rfl, rfl, rfl, rfl, rfl⟩ (fun _ => ?_) rfl rfl hT
        exact ⟨hok.fits, hok.bounded, hok.backing, hok.card, hok.exclusive, fun _ => hok.mapped hcount,
          hvirtual⟩
      · rcases Bool.or_eq_true_iff.mp hw with hd | hw
        · exact hd
        · exact hready hw hcount
      · simp [Bo.still, hvirtual]
  · case isFalse hcount =>
      have hcount : bo.mapCount = 0 := by simpa using hcount
      have hvirtual : bo.virtual = none := by rw [hok.virtual, if_pos hcount]
      rw [if_neg (by rw [hvirtual]; decide), if_neg (by rw [hflags.1, hflags.2]; decide), hcount]
      have hs₁ : Inv T (Only b) (s.setBo b { bo with mapCount := 0 + 1 }) :=
        (hs.only b).setOnly hb ⟨rfl, rfl, rfl, rfl, rfl⟩ rfl rfl hT
      refine (mapBacking_ensures hs₁ (setBo_self ..) (hok.mono rfl fun _ _ _ h => h) hcount hT env writeEnable).mono ?_
      rintro r ⟨hret, hinv, hmapped⟩
      exact ⟨hret, hinv, (touched_setBo ..).trans hmapped.touched, hmapped.bo⟩

/-! ## Writing and unmapping -/

/-- A mapping of `b`, which was `bo`, is gone. -/
structure Unmapped (b : BoId) (bo : Bo) (s s' : State) : Prop where
  mapped : bo.mapCount ≠ 0
  eq : s' = s.setBo b { bo with
    mapCount := bo.mapCount - 1, virtual := if bo.mapCount - 1 = 0 then none else some .backing }

theorem boUnmapLocked_ensures (hs : Inv T Nobody s) (hb : s.bo b = some bo) (hT : T b → bo.validated = false) :
    Ensures (boUnmapLocked b s) fun r => Inv T Nobody r.2 ∧ Unmapped b bo s r.2 := by
  have hok := hs.bos b bo id hb
  have hstep : ∀ hcount : bo.mapCount ≠ 0, Inv T Nobody (s.setBo b { bo with
      mapCount := bo.mapCount - 1, virtual := if bo.mapCount - 1 = 0 then none else some .backing }) := by
    intro hcount
    refine hs.setBo hb ⟨rfl, rfl, rfl, rfl, rfl⟩ (fun _ => ?_) rfl rfl hT
    exact ⟨hok.fits, hok.bounded, hok.backing, hok.card, hok.exclusive, fun _ => hok.mapped hcount, rfl⟩
  unfold boUnmapLocked
  refine (getBo_ensures b s).bind fun bo' hb' => ?_
  cases hb.symm.trans hb'
  rw [if_neg (by rw [(hs.ordinary b bo hb).2]; nofun)]
  refine (assert_ensures _).bind fun _ hcount => ?_
  replace hcount : bo.mapCount ≠ 0 := by simpa using hcount
  have heq := hstep hcount
  have hvirtual : bo.virtual = some .backing := by rw [hok.virtual, if_neg hcount]
  dsimp only
  split
  · case isTrue hmore =>
      have hsame : s.setBo b { bo with mapCount := bo.mapCount - 1 } = s.setBo b { bo with
          mapCount := bo.mapCount - 1, virtual := if bo.mapCount - 1 = 0 then none else some .backing } := by
        rw [if_neg hmore, ← hvirtual]
      exact .pure ⟨by rw [hsame]; exact heq, hcount, hsame⟩
  · case isFalse hlast =>
      rw [if_pos (not_not.mp hlast)] at heq
      refine .pure ⟨heq, hcount, ?_⟩
      rw [if_pos (not_not.mp hlast)]

/-- Bytes have been written to `b`, which was `bo`. -/
structure Written (b : BoId) (bo : Bo) (offset : Nat) (bytes : List UInt8) (s s' : State) : Prop where
  fits : offset + bytes.length ≤ bo.size
  eq : ∃ f, s' = { s.setBo b { bo with backingStore := some f } with
    content := Function.update s.content b (record (s.content b) offset bytes) }

theorem writeVirtual_ensures (hs : Inv T Nobody s) (hb : s.bo b = some bo) (hT : T b → bo.validated = false)
    (hdirty : bo.dirty = true) (offset : Nat) (bytes : List UInt8) : Ensures (writeVirtual b offset bytes s) fun s' =>
    Inv T Nobody s' ∧ Written b bo offset bytes s s' := by
  have hok := hs.bos b bo id hb
  unfold writeVirtual
  refine (getBo_ensures b s).bind fun bo' hb' => ?_
  cases hb.symm.trans hb'
  split
  · exact .error
  · case isFalse hfits =>
      replace hfits : offset + bytes.length ≤ bo.size := Nat.le_of_not_lt hfits
      have hvirtual := hok.virtual
      split at hvirtual
      · rw [hvirtual]
        exact .error
      · rw [hvirtual]
        refine (deref_ensures _).bind fun old hold => .pure ?_
        rw [← hvirtual]
        refine ⟨?_, hfits, overwrite old offset bytes, rfl⟩
        have hs₁ : Inv T (Only b) (s.setBo b { bo with backingStore := some (overwrite old offset bytes) }) :=
          (hs.only b).setOnly hb ⟨rfl, rfl, rfl, rfl, rfl⟩ rfl rfl hT
        have hs₂ : Inv T (Only b) { s.setBo b { bo with backingStore := some (overwrite old offset bytes) } with
            content := Function.update s.content b (record (s.content b) offset bytes) } :=
          hs₁.paint (.inr rfl) (setBo_self ..) hok.fits (fun c hc => Function.update_of_ne hc ..) (fun a _ => rfl)
        refine hs₂.settle (setBo_self ..) fun _ => ?_
        have hcontent : ∀ i v, Function.update s.content b (record (s.content b) offset bytes) b i = some v →
            (offset ≤ i ∧ i < offset + bytes.length ∧ bytes.getD (i - offset) 0 = v) ∨
              (¬ (offset ≤ i ∧ i < offset + bytes.length) ∧ s.content b i = some v) := by
          intro i v hv
          rw [Function.update_self, record] at hv
          split at hv
          · case isTrue hi => exact .inl ⟨hi.1, hi.2, Option.some.inj hv⟩
          · case isFalse hi => exact .inr ⟨hi, hv⟩
        constructor
        · exact hok.fits
        · intro i v hv
          show i < bo.size
          rcases hcontent i v hv with ⟨_, hi, _⟩ | ⟨_, hv⟩
          · omega
          · exact hok.bounded i v hv
        · intro _ i v hv
          refine ⟨_, rfl, ?_⟩
          rcases hcontent i v hv with ⟨hi, hi', hbyte⟩ | ⟨hi, hv⟩
          · rw [overwrite, if_pos ⟨hi, hi'⟩]
            exact hbyte
          · rw [overwrite, if_neg hi]
            obtain ⟨f, hf, hfi⟩ := hok.backing (.inl hdirty) i v hv
            cases hold.symm.trans hf
            exact hfi
        · intro hclean
          cases hdirty.symm.trans hclean
        · exact hok.exclusive
        · exact hok.mapped
        · exact hok.virtual

theorem lasts_of_one (hb : s.bo b = some bo) {bo' : Bo} (hb' : s'.bo b = some bo') (hstill : bo'.still = bo.still)
    (hdirty : bo.dirty = true → bo'.dirty = true) (hother : ∀ c, c ≠ b → s'.bo c = s.bo c) (c : BoId) :
    Lasts (s.bo c) (s'.bo c) := by
  by_cases hcb : c = b
  · rw [hcb, hb, hb']
    exact ⟨hstill, hdirty⟩
  · exact .of_eq (hother c hcb)

theorem boSubdata_ensures (hs : Inv T Nobody s) (hb : s.bo b = some bo) (hT : T b → bo.validated = false) (env : Env)
    (offset : Nat) (data : List UInt8) (hready : WriteReady bo) : Ensures (boSubdata env b offset data s) fun r =>
      Inv T Nobody r.2 ∧ ∀ c, Lasts (s.bo c) (r.2.bo c) := by
  have hok := hs.bos b bo id hb
  unfold boSubdata
  split
  · exact .ok ⟨hs, fun _ => .refl _⟩
  · refine (boMapLocked_ensures hs hb hT env true fun _ => hready).bind fun r hr => ?_
    obtain ⟨ret, s₁⟩ := r
    obtain ⟨hret, hs₁, htouched, bo₁, hb₁, hdirty, hstill₁⟩ := hr
    replace hret : ret = 0 := hret
    subst hret
    have hf₁ := hstill₁
    simp only [Bo.still, Bo.mk.injEq] at hf₁
    have hT₁ : T b → bo₁.validated = false := fun h => by
      rw [show bo₁.validated = bo.validated by tauto]
      exact hT h
    dsimp only
    rw [if_neg (absurd rfl)]
    refine (writeVirtual_ensures hs₁ hb₁ hT₁ (hdirty (Bool.or_true _)) offset data).bind fun s₂ hs₂ => ?_
    obtain ⟨hs₂, _, f, rfl⟩ := hs₂
    refine (boUnmapLocked_ensures hs₂ (setBo_self ..) hT₁).bind fun r hr => .pure ?_
    obtain ⟨_, s₃⟩ := r
    obtain ⟨hs₃, _, heq⟩ := hr
    replace heq : s₃ = _ := heq
    refine ⟨hs₃, ?_⟩
    subst heq
    refine lasts_of_one hb (setBo_self ..) ?_ (fun _ => hdirty (Bool.or_true _)) ?_
    · have hcount : bo₁.mapCount - 1 = bo.mapCount := by
        rw [show bo₁.mapCount = bo.mapCount + 1 by tauto]
        rfl
      simp only [Bo.still, Bo.mk.injEq, hcount, ← hok.virtual]
      tauto
    · intro c hc
      refine (setBo_of_ne hc ..).trans ((setBo_of_ne hc ..).trans (htouched.bo c hc))

end LibDrm.Fake
