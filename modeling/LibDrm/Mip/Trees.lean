/-
# `LibDrm.Mip.Trees` — what building a mipmap tree changes

Each loop over the levels is an instance of `buildTree`.  What its parts may do is said
once, in `Pass.Lawful`:

    minify   puts the level at the offset and ends the buffer with it, or finds a level of
             a 2D tree too small for a macro tile and leaves the surface alone
    record   changes the noted tile modes only

so that a tree changes the levels from the first one on (`Frame`), and every level is in
the mode of the loop, or in 1D tiles from the level on that came out small.
-/
import LibDrm.Mip.Islands

namespace LibDrm.Mip

variable {A : Width}

/-! ## One level -/

/-- What working out a level in `mode` at `offset` can do. -/
def Minified (A : Width) (surf : Surface) (mode offset : Nat) (lv : Level) (surf' : Surface) : Prop :=
  (mode = RADEON_SURF_MODE_2D ∧ lv.mode = RADEON_SURF_MODE_1D ∧ surf' = surf) ∨
  (lv.mode = mode ∧ lv.offset = A.u32 offset ∧
    surf' = { surf with boSize := A.u64 (lv.offset + lv.sliceSize * lv.nblkZ * surf.arraySize) })

theorem levelDims_mode {surf : Params} {level : Nat} {lv lv' : Level} (h : levelDims A surf level lv = .ok lv') :
    lv'.mode = lv.mode := by
  obtain ⟨npixX, -, h⟩ := exists_of_bind_ok h
  obtain ⟨npixY, -, h⟩ := exists_of_bind_ok h
  obtain ⟨npixZ, -, h⟩ := exists_of_bind_ok h
  obtain ⟨nblkX, -, h⟩ := exists_of_bind_ok h
  obtain ⟨nblkY, -, h⟩ := exists_of_bind_ok h
  obtain ⟨nblkZ, -, h⟩ := exists_of_bind_ok h
  cases h
  rfl

theorem siLevelDims_mode {surf : Params} {level : Nat} {lv lv' : Level} (h : siLevelDims A surf level lv = .ok lv') :
    lv'.mode = lv.mode := by
  obtain ⟨npixX, -, h⟩ := exists_of_bind_ok h
  obtain ⟨npixY, -, h⟩ := exists_of_bind_ok h
  obtain ⟨npixZ, -, h⟩ := exists_of_bind_ok h
  obtain ⟨nblkX, -, h⟩ := exists_of_bind_ok h
  obtain ⟨nblkY, -, h⟩ := exists_of_bind_ok h
  obtain ⟨nblkZ, -, h⟩ := exists_of_bind_ok h
  cases h
  rfl

theorem Level.isSmall_iff {surf : Params} {w h : Nat} {lv : Level} :
    lv.isSmall surf w h = true ↔ surf.nsamples = 1 ∧ lv.mode = RADEON_SURF_MODE_2D ∧
      surf.has RADEON_SURF_FMASK = false ∧ (lv.nblkX < w ∨ lv.nblkY < h) := by
  simp [isSmall]

theorem minified_small {surf : Surface} {lv : Level} {w h mode offset : Nat} (hsmall : lv.isSmall surf.toParams w h)
    (hmode : lv.mode = mode) : Minified A surf mode offset { lv with mode := RADEON_SURF_MODE_1D } surf :=
  .inl ⟨hmode.symm.trans (Level.isSmall_iff.mp hsmall).2.1, rfl, rfl⟩

theorem minified_place {surf : Surface} {lv : Level} {mode offset : Nat} (hmode : lv.mode = mode) :
    Minified A surf mode offset (place A surf lv offset).1 (place A surf lv offset).2 :=
  .inr ⟨hmode, rfl, rfl⟩

theorem surfMinify_minified {surf surf' : Surface} {lv lv' : Level} {bpe level xalign yalign zalign offset : Nat}
    (h : surfMinify A surf lv bpe level xalign yalign zalign offset = .ok (lv', surf')) :
    Minified A surf lv.mode offset lv' surf' := by
  obtain ⟨lv₁, hlv, h⟩ := exists_of_bind_ok h
  have hmode := levelDims_mode hlv
  by_cases hsmall : lv₁.isSmall surf.toParams xalign yalign = true
  · rw [if_pos hsmall] at h
    cases h
    exact minified_small hsmall hmode
  · rw [if_neg hsmall] at h
    cases h
    exact minified_place hmode

theorem minify2d_minified {surf surf' : Surface} {lv lv' : Level}
    {bpe slicePt mtilew mtileh zalign mtileb offset : Nat}
    (h : minify2d A surf lv bpe slicePt mtilew mtileh zalign mtileb offset = .ok (lv', surf')) :
    Minified A surf lv.mode offset lv' surf' := by
  unfold minify2d at h
  by_cases hsmall : lv.isSmall surf.toParams mtilew mtileh = true
  · rw [if_pos hsmall] at h
    cases h
    exact minified_small hsmall rfl
  · rw [if_neg hsmall] at h
    obtain ⟨mtilePr, -, h⟩ := exists_of_bind_ok h
    obtain ⟨mtilePs, -, h⟩ := exists_of_bind_ok h
    cases h
    exact minified_place rfl

theorem egSurfMinify_minified {surf surf' : Surface} {lv lv' : Level}
    {bpe level slicePt mtilew mtileh mtileb offset : Nat}
    (h : egSurfMinify A surf lv bpe level slicePt mtilew mtileh mtileb offset = .ok (lv', surf')) :
    Minified A surf lv.mode offset lv' surf' := by
  obtain ⟨lv₁, hlv, h⟩ := exists_of_bind_ok h
  rw [← levelDims_mode hlv]
  exact minify2d_minified h

theorem siSurfMinify2d_minified {surf surf' : Surface} {lv lv' : Level}
    {bpe level slicePt xalign yalign zalign mtileb offset : Nat}
    (h : siSurfMinify2d A surf lv bpe level slicePt xalign yalign zalign mtileb offset = .ok (lv', surf')) :
    Minified A surf lv.mode offset lv' surf' := by
  obtain ⟨lv₁, hlv, h⟩ := exists_of_bind_ok h
  rw [← siLevelDims_mode hlv]
  exact minify2d_minified h

theorem siSurfMinify_minified {surf surf' : Surface} {lv lv' : Level}
    {bpe level xalign yalign zalign sliceAlign offset : Nat}
    (h : siSurfMinify A surf lv bpe level xalign yalign zalign sliceAlign offset = .ok (lv', surf')) :
    Minified A surf lv.mode offset lv' surf' := by
  obtain ⟨lv₁, hlv, h⟩ := exists_of_bind_ok h
  have hmode := siLevelDims_mode hlv
  obtain ⟨xalign', -, h⟩ := exists_of_bind_ok h
  cases h
  exact minified_place hmode

/-! ## One tree -/

/-- The levels of the tree `t` from `i` on may change, and where the buffer ends. -/
structure Frame (t : Tree) (i : Nat) (s s' : Surface) : Prop where
  params : s'.toParams = s.toParams
  levels : ∀ t' j, t' ≠ t ∨ j < i → s'.levels t' j = s.levels t' j

namespace Frame

variable {t : Tree} {i j : Nat} {s s₁ s' : Surface}

theorem refl : Frame t i s s := ⟨rfl, fun _ _ _ => rfl⟩

theorem trans (h₁ : Frame t i s s₁) (h₂ : Frame t j s₁ s') (hij : i ≤ j) : Frame t i s s' where
  params := h₂.params.trans h₁.params
  levels t' k hk := by
    rw [h₂.levels t' k (hk.imp id fun h => by omega), h₁.levels t' k hk]

end Frame

@[simp] theorem setLevel_levels_self {t : Tree} {i : Nat} {lv : Level} {surf : Surface} :
    (surf.setLevel t i lv).levels t i = lv := by
  simp [Surface.setLevel]

theorem setLevel_frame {t : Tree} {i : Nat} {lv : Level} {surf : Surface} : Frame t i surf (surf.setLevel t i lv) where
  params := rfl
  levels t' j h := by
    by_cases ht : t' = t
    · subst ht
      have hj : j ≠ i := by
        rcases h with h | h
        · exact absurd rfl h
        · omega
      simp [Surface.setLevel, hj]
    · simp [Surface.setLevel, ht]

/-- Only the noted tile modes change. -/
structure SameLayout (s s' : Surface) : Prop where
  params : s'.toParams = s.toParams
  boSize : s'.boSize = s.boSize
  boAlignment : s'.boAlignment = s.boAlignment
  levels : s'.levels = s.levels

theorem SameLayout.frame {t : Tree} {i : Nat} {s s' : Surface} (h : SameLayout s s') : Frame t i s s' :=
  ⟨h.params, fun t' j _ => by rw [h.levels]⟩

/-- What the parts of a loop over the levels may do. -/
structure Pass.Lawful (A : Width) (p : Pass) : Prop where
  minify : ∀ {surf surf' lv lv' i offset}, p.minify surf lv i offset = .ok (lv', surf') →
    Minified A surf lv.mode offset lv' surf'
  record : ∀ i surf, SameLayout surf (p.record i surf)
  fallback : p.fallback = none → p.mode ≠ RADEON_SURF_MODE_2D

/-- One round of a loop: the level comes out small and the tree falls back, or the loop goes on. -/
theorem buildTree_succ {p : Pass} {n i reached offset : Nat} {surf surf' : Surface} {r : Int}
    (h : buildTree p (n + 1) i (reached, offset) surf = .ok (r, surf')) :
    ∃ lv s₁, p.minify surf { surf.levels p.tree i with mode := p.mode } i offset = .ok (lv, s₁) ∧
      ((∃ f, p.fallback = some f ∧ lv.mode = RADEON_SURF_MODE_1D ∧
          f (s₁.setLevel p.tree i lv) reached i = .ok (r, surf')) ∨
        ((p.fallback ≠ none → lv.mode ≠ RADEON_SURF_MODE_1D) ∧
          buildTree p n (i + 1) (p.next (s₁.setLevel p.tree i lv) i) (p.record i (s₁.setLevel p.tree i lv))
            = .ok (r, surf'))) := by
  unfold buildTree at h
  obtain ⟨⟨lv, s₁⟩, hmin, h⟩ := exists_of_bind_ok h
  refine ⟨lv, s₁, hmin, ?_⟩
  dsimp only at h
  cases hfb : p.fallback with
  | none =>
      rw [hfb] at h
      exact .inr ⟨fun hne => absurd rfl hne, h⟩
  | some f =>
      rw [hfb] at h
      dsimp only at h
      by_cases hmode : lv.mode = RADEON_SURF_MODE_1D
      · rw [if_pos hmode] at h
        exact .inl ⟨f, rfl, hmode, h⟩
      · rw [if_neg hmode] at h
        exact .inr ⟨fun _ => hmode, h⟩

/-- A round in which the level comes out small. -/
theorem buildTree_fallback {p : Pass} {n i reached offset : Nat} {surf s₁ : Surface} {lv : Level}
    {f : Surface → Nat → Nat → Except Trap (Int × Surface)}
    (hmin : p.minify surf { surf.levels p.tree i with mode := p.mode } i offset = .ok (lv, s₁))
    (hf : p.fallback = some f) (h1d : lv.mode = RADEON_SURF_MODE_1D) :
    buildTree p (n + 1) i (reached, offset) surf = f (s₁.setLevel p.tree i lv) reached i := by
  unfold buildTree
  rw [hmin]
  simp only [bind, Except.bind, hf, if_pos h1d]

/-- A round after which the loop goes on. -/
theorem buildTree_continue {p : Pass} {n i reached offset : Nat} {surf s₁ : Surface} {lv : Level}
    (hmin : p.minify surf { surf.levels p.tree i with mode := p.mode } i offset = .ok (lv, s₁))
    (hne : p.fallback ≠ none → lv.mode ≠ RADEON_SURF_MODE_1D) :
    buildTree p (n + 1) i (reached, offset) surf
      = buildTree p n (i + 1) (p.next (s₁.setLevel p.tree i lv) i) (p.record i (s₁.setLevel p.tree i lv)) := by
  rw [buildTree, hmin]
  simp only [bind, Except.bind]
  cases hf : p.fallback with
  | none => rfl
  | some f => exact if_neg (hne (by rw [hf]; simp))

theorem Minified.frame {t : Tree} {i mode offset : Nat} {lv : Level} {s s' : Surface}
    (h : Minified A s mode offset lv s') : Frame t i s (s'.setLevel t i lv) := by
  rcases h with ⟨-, -, rfl⟩ | ⟨-, -, rfl⟩
  · exact setLevel_frame
  · exact ⟨rfl, fun t' j h => (setLevel_frame).levels t' j h⟩

/-- A tree without a fallback: every level is in the mode of the loop. -/
theorem buildTree_plain {p : Pass} (hp : p.Lawful A) (hfb : p.fallback = none) {n i : Nat} {o : Nat × Nat}
    {surf surf' : Surface} {r : Int} (h : buildTree p n i o surf = .ok (r, surf')) :
    r = 0 ∧ Frame p.tree i surf surf' ∧
      ∀ j, i ≤ j → j < i + n → (surf'.levels p.tree j).mode = p.mode := by
  induction n generalizing i o surf with
  | zero =>
      cases h
      exact ⟨rfl, Frame.refl, fun j h₁ h₂ => absurd h₁ (by omega)⟩
  | succ n ih =>
      obtain ⟨lv, s₁, hmin, hrest⟩ := buildTree_succ h
      rcases hrest with ⟨f, hf, -⟩ | ⟨-, hrest⟩
      · rw [hfb] at hf
        cases hf
      · have hm := hp.minify hmin
        obtain ⟨hr, hframe, hmodes⟩ := ih hrest
        have hrec := hp.record i (s₁.setLevel p.tree i lv)
        have hstep : Frame p.tree i surf (p.record i (s₁.setLevel p.tree i lv)) :=
          hm.frame.trans hrec.frame (Nat.le_refl i)
        refine ⟨hr, hstep.trans hframe (by omega), fun j h₁ h₂ => ?_⟩
        by_cases hj : j = i
        · subst hj
          rw [hframe.levels _ _ (.inr (Nat.lt_succ_self j)), hrec.levels, setLevel_levels_self]
          rcases hm with ⟨h2d, -⟩ | ⟨hmode, -⟩
          · exact absurd h2d (hp.fallback hfb)
          · exact hmode
        · exact hmodes j (by omega) (by omega)

/-- A tree with a fallback that lays the rest of the levels out in 1D tiles. -/
theorem buildTree_tiled {p : Pass} (hp : p.Lawful A) (hmode : p.mode = RADEON_SURF_MODE_2D)
    {f : Surface → Nat → Nat → Except Trap (Int × Surface)} (hfb : p.fallback = some f)
    (hf : ∀ {s s' o i}, f s o i = .ok (0, s') → Frame p.tree i s s' ∧
      ∀ j, i ≤ j → j ≤ s.lastLevel → (s'.levels p.tree j).mode = RADEON_SURF_MODE_1D)
    {n i : Nat} {o : Nat × Nat} {surf surf' : Surface} (hn : i + n = surf.lastLevel + 1)
    (h : buildTree p n i o surf = .ok (0, surf')) :
    Frame p.tree i surf surf' ∧ ∀ j, i ≤ j → j ≤ surf.lastLevel →
      (surf'.levels p.tree j).mode = RADEON_SURF_MODE_2D ∨ (surf'.levels p.tree j).mode = RADEON_SURF_MODE_1D := by
  induction n generalizing i o surf with
  | zero =>
      cases h
      exact ⟨Frame.refl, fun j h₁ h₂ => absurd h₁ (by omega)⟩
  | succ n ih =>
      obtain ⟨lv, s₁, hmin, hrest⟩ := buildTree_succ h
      have hm := hp.minify hmin
      have hlast : (s₁.setLevel p.tree i lv).lastLevel = surf.lastLevel :=
        congrArg Params.lastLevel (hm.frame (t := p.tree) (i := i)).params
      rcases hrest with ⟨f', hf', -, hrest⟩ | ⟨-, hrest⟩
      · rw [hfb] at hf'
        cases hf'
        obtain ⟨hframe, hmodes⟩ := hf hrest
        refine ⟨hm.frame.trans hframe (Nat.le_refl i), fun j h₁ h₂ => .inr (hmodes j h₁ ?_)⟩
        rw [hlast]
        exact h₂
      · have hrec := hp.record i (s₁.setLevel p.tree i lv)
        have hlast' : (p.record i (s₁.setLevel p.tree i lv)).lastLevel = surf.lastLevel :=
          (congrArg Params.lastLevel hrec.params).trans hlast
        obtain ⟨hframe, hmodes⟩ := ih (by omega) hrest
        have hstep : Frame p.tree i surf (p.record i (s₁.setLevel p.tree i lv)) :=
          hm.frame.trans hrec.frame (Nat.le_refl i)
        refine ⟨hstep.trans hframe (by omega), fun j h₁ h₂ => ?_⟩
        by_cases hj : j = i
        · subst hj
          rw [hframe.levels _ _ (.inr (Nat.lt_succ_self j)), hrec.levels, setLevel_levels_self]
          rcases hm with ⟨-, h1d, -⟩ | ⟨h2d, -⟩
          · exact .inr h1d
          · exact .inl (h2d.trans hmode)
        · exact hmodes j (by omega) (by omega)

/-- In a tree with a fallback, whether the first level comes out small decides its mode. -/
theorem buildTree_first {p : Pass} (hp : p.Lawful A) (hmode : p.mode = RADEON_SURF_MODE_2D)
    {f : Surface → Nat → Nat → Except Trap (Int × Surface)} (hfb : p.fallback = some f)
    (hf : ∀ {s s' o i}, f s o i = .ok (0, s') → Frame p.tree i s s' ∧
      ∀ j, i ≤ j → j ≤ s.lastLevel → (s'.levels p.tree j).mode = RADEON_SURF_MODE_1D)
    {n i reached offset : Nat} {surf surf' : Surface} (hn : i + (n + 1) = surf.lastLevel + 1)
    (h : buildTree p (n + 1) i (reached, offset) surf = .ok (0, surf')) :
    ∃ lv s₁, p.minify surf { surf.levels p.tree i with mode := p.mode } i offset = .ok (lv, s₁) ∧
      ((lv.mode = RADEON_SURF_MODE_1D ∧
          (∀ j, i ≤ j → j ≤ surf.lastLevel → (surf'.levels p.tree j).mode = RADEON_SURF_MODE_1D) ∧
          ∃ s, f s reached i = .ok (0, surf')) ∨
        (lv.mode = RADEON_SURF_MODE_2D ∧ (surf'.levels p.tree i).mode = RADEON_SURF_MODE_2D)) := by
  obtain ⟨lv, s₁, hmin, hrest⟩ := buildTree_succ h
  have hm := hp.minify hmin
  have hlast : (s₁.setLevel p.tree i lv).lastLevel = surf.lastLevel :=
    congrArg Params.lastLevel (hm.frame (t := p.tree) (i := i)).params
  refine ⟨lv, s₁, hmin, ?_⟩
  rcases hrest with ⟨f', hf', h1d, hrest⟩ | ⟨hne, hrest⟩
  · rw [hfb] at hf'
    cases hf'
    obtain ⟨-, hmodes⟩ := hf hrest
    rw [hlast] at hmodes
    exact .inl ⟨h1d, hmodes, _, hrest⟩
  · have hrec := hp.record i (s₁.setLevel p.tree i lv)
    have hlast' : (p.record i (s₁.setLevel p.tree i lv)).lastLevel = surf.lastLevel :=
      (congrArg Params.lastLevel hrec.params).trans hlast
    obtain ⟨hframe, -⟩ := buildTree_tiled hp hmode hfb hf (by omega) hrest
    have hlv : lv.mode = RADEON_SURF_MODE_2D := by
      rcases hm with ⟨-, h1d, -⟩ | ⟨h2d, -⟩
      · exact absurd h1d (hne (by rw [hfb]; simp))
      · exact h2d.trans hmode
    refine .inr ⟨hlv, ?_⟩
    rw [hframe.levels _ _ (.inr (Nat.lt_succ_self i)), hrec.levels, setLevel_levels_self]
    exact hlv

/-! ## The trees of the families -/

/-- The levels from `i` on are in the given mode. -/
structure InMode (t : Tree) (i mode : Nat) (s s' : Surface) : Prop where
  frame : Frame t i s s'
  modes : ∀ j, i ≤ j → j ≤ s.lastLevel → (s'.levels t j).mode = mode

theorem InMode.after {t : Tree} {i mode : Nat} {s s₁ s' : Surface} (h : InMode t i mode s₁ s') (hs : Frame t i s s₁) :
    InMode t i mode s s' where
  frame := hs.trans h.frame (Nat.le_refl i)
  modes j h₁ h₂ := h.modes j h₁ (by rw [hs.params]; exact h₂)

theorem buildFrom_plain {p : Pass} (hp : p.Lawful A) (hfb : p.fallback = none) {surf surf' : Surface}
    {reached offset start : Nat} {r : Int} (h : buildFrom p surf reached offset start = .ok (r, surf')) :
    r = 0 ∧ InMode p.tree start p.mode surf surf' := by
  obtain ⟨hr, hframe, hmodes⟩ := buildTree_plain hp hfb h
  exact ⟨hr, hframe, fun j h₁ h₂ => hmodes j h₁ (by omega)⟩

theorem record_same (i : Nat) (surf : Surface) : SameLayout surf ((fun _ s => s) i surf : Surface) := ⟨rfl, rfl, rfl, rfl⟩

theorem recordIndex_same {t : Tree} {tileMode : Nat} (i : Nat) (surf : Surface) :
    SameLayout surf (recordIndex t tileMode i surf) := by
  unfold recordIndex
  split
  · split
    · exact ⟨rfl, rfl, rfl, rfl⟩
    · exact ⟨rfl, rfl, rfl, rfl⟩
  · exact ⟨rfl, rfl, rfl, rfl⟩

theorem recordLinearIndex_same {tileMode : Nat} (i : Nat) (surf : Surface) :
    SameLayout surf (recordLinearIndex tileMode i surf) := by
  unfold recordLinearIndex
  split
  · exact ⟨rfl, rfl, rfl, rfl⟩
  · exact ⟨rfl, rfl, rfl, rfl⟩

theorem realign_frame {t : Tree} {i : Nat} {surf : Surface} {p : Prop} [Decidable p] {alignment : Nat} :
    Frame t i surf (if p then { surf with boAlignment := alignment } else surf) := by
  split
  · exact ⟨rfl, fun _ _ _ => rfl⟩
  · exact Frame.refl

theorem alignTree_frame {t : Tree} {i : Nat} {surf : Surface} {p : Prop} [Decidable p] {alignment offset : Nat} :
    Frame t i surf (if p then alignTree A alignment surf offset else (surf, offset)).1 := by
  split
  · exact ⟨rfl, fun _ _ _ => rfl⟩
  · exact Frame.refl

theorem surfPass_lawful {t : Tree} {mode bpe xalign yalign : Nat} (hmode : mode ≠ RADEON_SURF_MODE_2D) :
    (surfPass A t mode bpe xalign yalign).Lawful A :=
  ⟨surfMinify_minified, record_same, fun _ => hmode⟩

section Modes

variable {hw : HwInfo} {t : Tree} {surf surf' : Surface} {bpe tileMode offset start : Nat} {r : Int}

theorem r6SurfaceInitLinear_inMode (h : r6SurfaceInitLinear A hw surf offset start = .ok (r, surf')) :
    r = 0 ∧ InMode .level start RADEON_SURF_MODE_LINEAR surf surf' := by
  obtain ⟨n, -, h⟩ := exists_of_bind_ok h
  obtain ⟨hr, hin⟩ := buildFrom_plain (surfPass_lawful (by decide)) rfl h
  exact ⟨hr, hin.after realign_frame⟩

theorem r6SurfaceInitLinearAligned_inMode (h : r6SurfaceInitLinearAligned A hw surf offset start = .ok (r, surf')) :
    r = 0 ∧ InMode .level start RADEON_SURF_MODE_LINEAR_ALIGNED surf surf' := by
  obtain ⟨n, -, h⟩ := exists_of_bind_ok h
  obtain ⟨hr, hin⟩ := buildFrom_plain (surfPass_lawful (by decide)) rfl h
  exact ⟨hr, hin.after realign_frame⟩

theorem r6SurfaceInit1d_inMode (h : r6SurfaceInit1d A hw surf offset start = .ok (r, surf')) :
    r = 0 ∧ InMode .level start RADEON_SURF_MODE_1D surf surf' := by
  obtain ⟨n, -, h⟩ := exists_of_bind_ok h
  obtain ⟨hr, hin⟩ := buildFrom_plain (surfPass_lawful (by decide)) rfl h
  exact ⟨hr, hin.after realign_frame⟩

theorem egSurfaceInit1d_inMode (h : egSurfaceInit1d A hw t bpe surf offset start = .ok (r, surf')) :
    r = 0 ∧ InMode t start RADEON_SURF_MODE_1D surf surf' := by
  obtain ⟨n, -, h⟩ := exists_of_bind_ok h
  obtain ⟨hr, hin⟩ := buildFrom_plain (surfPass_lawful (by decide)) rfl h
  exact ⟨hr, hin.after alignTree_frame⟩

theorem siSurfaceInitLinearAligned_inMode
    (h : siSurfaceInitLinearAligned A hw tileMode surf offset start = .ok (r, surf')) :
    r = 0 ∧ InMode .level start RADEON_SURF_MODE_LINEAR_ALIGNED surf surf' := by
  obtain ⟨n, -, h⟩ := exists_of_bind_ok h
  obtain ⟨hr, hin⟩ :=
    buildFrom_plain ⟨siSurfMinify_minified, recordLinearIndex_same, fun _ => by dsimp only; decide⟩ rfl h
  exact ⟨hr, hin.after realign_frame⟩

theorem siSurfaceInit1d_inMode (h : siSurfaceInit1d A hw t bpe tileMode surf offset start = .ok (r, surf')) :
    r = 0 ∧ InMode t start RADEON_SURF_MODE_1D surf surf' := by
  obtain ⟨hr, hin⟩ := buildFrom_plain ⟨siSurfMinify_minified, recordIndex_same, fun _ => by dsimp only; decide⟩ rfl h
  exact ⟨hr, hin.after alignTree_frame⟩

end Modes

/-- The levels are in 2D tiles or in 1D tiles. -/
structure Tiled (t : Tree) (s s' : Surface) : Prop where
  frame : Frame t 0 s s'
  modes : ∀ j, j ≤ s.lastLevel →
    (s'.levels t j).mode = RADEON_SURF_MODE_2D ∨ (s'.levels t j).mode = RADEON_SURF_MODE_1D

theorem Tiled.after {t : Tree} {s s₁ s' : Surface} (h : Tiled t s₁ s') (hs : Frame t 0 s s₁) : Tiled t s s' where
  frame := hs.trans h.frame (Nat.le_refl 0)
  modes j hj := h.modes j (by rw [hs.params]; exact hj)

/-- The first level of a 2D tree came out small, and so the whole tree is in 1D tiles; or it is in 2D tiles. -/
def FirstLevel (small : Prop) (last : Nat) (levels : Nat → Level) : Prop :=
  (small ∧ ∀ j, j ≤ last → (levels j).mode = RADEON_SURF_MODE_1D) ∨
  (¬ small ∧ (levels 0).mode = RADEON_SURF_MODE_2D)

theorem buildFrom_tiled {p : Pass} (hp : p.Lawful A) (hmode : p.mode = RADEON_SURF_MODE_2D)
    {f : Surface → Nat → Nat → Except Trap (Int × Surface)} (hfb : p.fallback = some f)
    (hf : ∀ {s s' o i}, f s o i = .ok (0, s') → InMode p.tree i RADEON_SURF_MODE_1D s s')
    {surf surf' : Surface} {reached offset : Nat} (h : buildFrom p surf reached offset 0 = .ok (0, surf')) :
    Tiled p.tree surf surf' ∧
      ∃ lv s₁, p.minify surf { surf.levels p.tree 0 with mode := p.mode } 0 offset = .ok (lv, s₁) ∧
        FirstLevel (lv.mode = RADEON_SURF_MODE_1D) surf.lastLevel (surf'.levels p.tree) := by
  have hf' : ∀ {s s' o i}, f s o i = .ok (0, s') → Frame p.tree i s s' ∧
      ∀ j, i ≤ j → j ≤ s.lastLevel → (s'.levels p.tree j).mode = RADEON_SURF_MODE_1D :=
    fun h => ⟨(hf h).frame, (hf h).modes⟩
  obtain ⟨hframe, hmodes⟩ := buildTree_tiled hp hmode hfb hf' (by omega) h
  obtain ⟨lv, s₁, hmin, hfirst⟩ := buildTree_first hp hmode hfb hf' (by omega) h
  refine ⟨⟨hframe, fun j hj => hmodes j (Nat.zero_le j) hj⟩, lv, s₁, hmin, ?_⟩
  rcases hfirst with ⟨h1d, hall, -⟩ | ⟨h2d, hlevel⟩
  · exact .inl ⟨h1d, fun j hj => hall j (Nat.zero_le j) hj⟩
  · refine .inr ⟨?_, hlevel⟩
    rw [h2d]
    decide

/-- If the fallback fails whatever it starts from, a tree that was built has its first level in 2D tiles. -/
theorem buildFrom_no_fallback {p : Pass} (hp : p.Lawful A) (hmode : p.mode = RADEON_SURF_MODE_2D)
    {f : Surface → Nat → Nat → Except Trap (Int × Surface)} (hfb : p.fallback = some f)
    (hf : ∀ {s s' o i}, f s o i ≠ .ok (0, s'))
    {surf surf' : Surface} {reached offset : Nat} (h : buildFrom p surf reached offset 0 = .ok (0, surf')) :
    Tiled p.tree surf surf' ∧ (surf'.levels p.tree 0).mode = RADEON_SURF_MODE_2D := by
  obtain ⟨htiled, -⟩ := buildFrom_tiled hp hmode hfb (fun h => absurd h hf) h
  obtain ⟨lv, s₁, -, hfirst⟩ := buildTree_first hp hmode hfb (fun h => absurd h hf) (by omega) h
  rcases hfirst with ⟨-, -, s, hs⟩ | ⟨-, hlevel⟩
  · exact absurd hs hf
  · exact ⟨htiled, hlevel⟩

/-! ## Two trees -/

theorem miptrees_ok {second : Bool} {t : Tree} {build₁ : Surface → Except Trap (Int × Surface)}
    {build₂ : Surface → Nat → Except Trap (Int × Surface)} {surf surf' : Surface}
    (h : miptrees second t build₁ build₂ surf = .ok (0, surf')) :
    ∃ s₁, build₁ surf = .ok (0, s₁) ∧
      ((second = false ∧ surf' = s₁) ∨
        (second = true ∧ ∃ s₂, build₂ s₁ s₁.boSize = .ok (0, s₂) ∧
          surf' = { s₂ with stencilOffset := (s₂.levels t 0).offset })) := by
  obtain ⟨⟨r, s₁⟩, h₁, h⟩ := exists_of_bind_ok h
  dsimp only at h
  by_cases hr : r = 0
  swap
  · rw [if_pos hr] at h
    cases h
    exact absurd rfl hr
  subst hr
  refine ⟨s₁, h₁, ?_⟩
  rw [if_neg (not_not.mpr rfl)] at h
  cases second with
  | false =>
      cases h
      exact .inl ⟨rfl, rfl⟩
  | true =>
      obtain ⟨⟨r, s₂⟩, h₂, h⟩ := exists_of_bind_ok h
      dsimp only at h
      cases h
      exact .inr ⟨rfl, s₂, h₂, rfl⟩

/-- What holds of each tree by itself holds of both. -/
theorem miptrees_levels {second : Bool} {t : Tree} {build₁ : Surface → Except Trap (Int × Surface)}
    {build₂ : Surface → Nat → Except Trap (Int × Surface)} {surf surf' : Surface} {P : (Nat → Level) → Prop}
    (h : miptrees second t build₁ build₂ surf = .ok (0, surf')) (ht : t ≠ .level)
    (h₁ : ∀ {s₁}, build₁ surf = .ok (0, s₁) → Frame .level 0 surf s₁ ∧ P (s₁.levels .level))
    (h₂ : ∀ {s₁ s₂}, s₁.toParams = surf.toParams → build₂ s₁ s₁.boSize = .ok (0, s₂) →
      Frame t 0 s₁ s₂ ∧ P (s₂.levels t)) :
    surf'.toParams = surf.toParams ∧ P (surf'.levels .level) ∧ (second = true → P (surf'.levels t)) := by
  obtain ⟨s₁, hb₁, hrest⟩ := miptrees_ok h
  obtain ⟨hf₁, hP₁⟩ := h₁ hb₁
  rcases hrest with ⟨hno, rfl⟩ | ⟨-, s₂, hb₂, rfl⟩
  · exact ⟨hf₁.params, hP₁, fun h => by rw [hno] at h; cases h⟩
  · obtain ⟨hf₂, hP₂⟩ := h₂ hf₁.params hb₂
    have hmain : s₂.levels .level = s₁.levels .level := funext fun j => hf₂.levels .level j (.inl ht.symm)
    refine ⟨hf₂.params.trans hf₁.params, ?_, fun _ => hP₂⟩
    show P (s₂.levels .level)
    rw [hmain]
    exact hP₁

end LibDrm.Mip
