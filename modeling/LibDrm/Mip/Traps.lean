/-
# `LibDrm.Mip.Traps` — which surfaces are laid out without a trap

The layout divides by numbers that come from the caller, and few of them are checked:

    linear, r600 and evergreen     bpe
    1D, r600 and evergreen         8 * bpe * nsamples, in 32 bits
    1D, later families             bpe, where there is one level
    linear aligned, later          bpe, and the rows of blocks, where there are several levels
    2D, evergreen and later        mtilea, and the macro tile that it makes

Each part of the layout has one lemma here that says when it is safe, and each loop over the levels is an
instance of `buildTree_safe`.  `layout_safe` puts them together.

The parameters of 2D tiles are checked on evergreen (`EgTiles.tiledSafe`), and come from tables later, but not
where the mode was forced to 1D: the layout is in 2D tiles all the same.
-/
import LibDrm.Mip.Widths
import LibDrm.Mip.Fallback

namespace LibDrm.Mip

open Width

/-- The program does not trap. -/
def Safe {α : Type} (x : Except Trap α) : Prop := ∃ a, x = .ok a

section Rules

variable {α β : Type} {x y : Except Trap α} {f : α → Except Trap β} {a : α} {P : Prop}

theorem safe_ok (a : α) : Safe (.ok a : Except Trap α) := ⟨a, rfl⟩

theorem not_safe_error (trap : Trap) : ¬ Safe (.error trap : Except Trap α) := nofun

theorem safe_iff : Safe x ↔ ∀ trap, x ≠ .error trap := by
  cases x with
  | error trap => exact iff_of_false (not_safe_error trap) fun h => h trap rfl
  | ok a => exact iff_of_true (safe_ok a) nofun

theorem bind_of_ok (h : x = .ok a) : x >>= f = f a := by
  rw [h]
  rfl

theorem safe_bind_of (h : x = .ok a) : Safe (x >>= f) ↔ Safe (f a) := by
  rw [h]
  exact Iff.rfl

theorem safe_bind : Safe (x >>= f) ↔ ∃ a, x = .ok a ∧ Safe (f a) := by
  constructor
  · rintro ⟨b, hb⟩
    obtain ⟨a, ha, hb⟩ := exists_of_bind_ok hb
    exact ⟨a, ha, b, hb⟩
  · rintro ⟨a, ha, hsafe⟩
    exact (safe_bind_of ha).mpr hsafe

theorem safe_div {m n : Nat} : Safe (div m n) ↔ n ≠ 0 := by
  unfold div
  split
  · exact iff_of_false (not_safe_error _) (not_not.mpr ‹_›)
  · exact iff_of_true (safe_ok _) ‹_›

theorem div_eq {m n : Nat} (h : n ≠ 0) : div m n = .ok (m / n) := if_neg h

/-- Only the first part can trap. -/
theorem safe_bind_first (hx : Safe x ↔ P) (hf : ∀ a, Safe (f a)) : Safe (x >>= f) ↔ P := by
  rw [safe_bind, ← hx]
  exact ⟨fun ⟨a, ha, _⟩ => ⟨a, ha⟩, fun ⟨a, ha⟩ => ⟨a, ha, hf a⟩⟩

/-- The choice of the function by the mode. -/
theorem safe_modes {mode : Nat} {x y z w : Except Trap α} {a : α} :
    Safe (if mode = RADEON_SURF_MODE_LINEAR then x else if mode = RADEON_SURF_MODE_LINEAR_ALIGNED then y
      else if mode = RADEON_SURF_MODE_1D then z else if mode = RADEON_SURF_MODE_2D then w else .ok a) ↔
    (mode = RADEON_SURF_MODE_LINEAR → Safe x) ∧ (mode = RADEON_SURF_MODE_LINEAR_ALIGNED → Safe y) ∧
      (mode = RADEON_SURF_MODE_1D → Safe z) ∧ (mode = RADEON_SURF_MODE_2D → Safe w) := by
  by_cases hlinear : mode = RADEON_SURF_MODE_LINEAR
  · subst hlinear
    simp [RADEON_SURF_MODE_LINEAR, RADEON_SURF_MODE_LINEAR_ALIGNED, RADEON_SURF_MODE_1D, RADEON_SURF_MODE_2D]
  by_cases haligned : mode = RADEON_SURF_MODE_LINEAR_ALIGNED
  · subst haligned
    simp [RADEON_SURF_MODE_LINEAR, RADEON_SURF_MODE_LINEAR_ALIGNED, RADEON_SURF_MODE_1D, RADEON_SURF_MODE_2D]
  by_cases h1d : mode = RADEON_SURF_MODE_1D
  · subst h1d
    simp [RADEON_SURF_MODE_LINEAR, RADEON_SURF_MODE_LINEAR_ALIGNED, RADEON_SURF_MODE_1D, RADEON_SURF_MODE_2D]
  by_cases h2d : mode = RADEON_SURF_MODE_2D
  · subst h2d
    simp [RADEON_SURF_MODE_LINEAR, RADEON_SURF_MODE_LINEAR_ALIGNED, RADEON_SURF_MODE_1D, RADEON_SURF_MODE_2D]
  · simp [hlinear, haligned, h1d, h2d, safe_ok]

end Rules

/-! ## One level -/

/-- The blocks that cover so many pixels, in 32 bits. -/
def nblk (npix blk : Nat) : Nat := machine.u32 (npix + blk - 1) / blk

/-- The blocks of a level in a row, and in a column. -/
def egDims (surf : Params) (i : Nat) : Nat × Nat :=
  (nblk (mipPix surf.npixX i) surf.blkW, nblk (mipPix surf.npixY i) surf.blkH)

/-- The same on the later families. -/
def siDims (surf : Params) (i : Nat) : Nat × Nat :=
  (nblk (covered surf i (if i = 0 then surf.npixX else mipPix (pow2Above surf.npixX) i)) surf.blkW,
    nblk (covered surf i (mipPix surf.npixY i)) surf.blkH)

/-- A level of this size does not fill a macro tile. -/
def SmallDims (surf : Params) (w h : Nat) (dims : Nat × Nat) : Prop :=
  surf.nsamples = 1 ∧ surf.has RADEON_SURF_FMASK = false ∧ (dims.1 < w ∨ dims.2 < h)

/-- What the layout relies on of the caller. -/
structure Checked2 (surf : Params) : Prop extends Checked1 surf where
  bounds : InBounds (2 ^ 14) 15 surf

section Levels

variable {surf : Params} {s : Surface} {i o : Nat} {lv : Level}

theorem blocks_eq {npix blk : Nat} (h : 0 < blk) : blocks .machine npix blk = .ok (nblk npix blk) := div_eq (Nat.ne_of_gt h)

theorem levelDims_safe (h : Checked2 surf) (hi : i ≤ surf.lastLevel) (lv : Level) :
    ∃ lv', levelDims .machine surf i lv = .ok lv' ∧ lv'.mode = lv.mode ∧ (lv'.nblkX, lv'.nblkY) = egDims surf i := by
  obtain ⟨hX, hY, hZ, hlast⟩ := h.bounds
  have hlevel : i < 32 := by omega
  unfold levelDims
  rw [mipMinify_machine (by omega) hlevel, mipMinify_machine (by omega) hlevel, mipMinify_machine (by omega) hlevel]
  simp only [bind, Except.bind]
  rw [blocks_eq h.blkW, blocks_eq h.blkH, blocks_eq h.blkD]
  exact ⟨_, rfl, rfl, rfl⟩

theorem siBlocks_eq {npix blk : Nat} (hpix : npix ≤ 2 ^ 31) (h : 0 < blk) :
    siBlocks .machine surf i npix blk = .ok (nblk (covered surf i npix) blk) := by
  unfold siBlocks covered
  split
  · rw [nextPowerOfTwo_machine hpix]
    exact blocks_eq h
  · exact blocks_eq h

theorem siLevelDims_safe (h : Checked2 surf) (hi : i ≤ surf.lastLevel) (lv : Level) :
    ∃ lv', siLevelDims .machine surf i lv = .ok lv' ∧ lv'.mode = lv.mode ∧ (lv'.nblkX, lv'.nblkY) = siDims surf i := by
  obtain ⟨hX, hY, hZ, hlast⟩ := h.bounds
  have hlevel : i < 32 := by omega
  have hpow : pow2Above surf.npixX ≤ 2 ^ 14 := pow2Above_le hX
  have hmip : ∀ n, 0 < n → n ≤ 2 ^ 14 → mipPix n i ≤ 2 ^ 31 := fun n hn hle => (mipPix_le hn).trans (by omega)
  have hrow : siNpixX .machine surf i = .ok (if i = 0 then surf.npixX else mipPix (pow2Above surf.npixX) i) := by
    unfold siNpixX
    split
    · rfl
    · rw [nextPowerOfTwo_machine (by omega)]
      exact mipMinify_machine (by omega) hlevel
  have hrowle : (if i = 0 then surf.npixX else mipPix (pow2Above surf.npixX) i) ≤ 2 ^ 31 := by
    split
    · omega
    · exact hmip _ (pow2Above_pos _) hpow
  unfold siLevelDims
  rw [hrow, mipMinify_machine (by omega) hlevel, mipMinify_machine (by omega) hlevel]
  simp only [bind, Except.bind]
  rw [siBlocks_eq hrowle h.blkW, siBlocks_eq (hmip _ h.npixY hY) h.blkH, siBlocks_eq (hmip _ h.npixZ hZ) h.blkD]
  exact ⟨_, rfl, rfl, rfl⟩

theorem isSmall_iff_dims (surf : Params) (w h : Nat) {dims : Nat × Nat} (hmode : lv.mode = RADEON_SURF_MODE_2D)
    (hdims : (lv.nblkX, lv.nblkY) = dims) : lv.isSmall surf w h = true ↔ SmallDims surf w h dims := by
  subst hdims
  rw [Level.isSmall_iff, SmallDims]
  exact ⟨fun h => ⟨h.1, h.2.2⟩, fun h => ⟨h.1, hmode, h.2⟩⟩

end Levels

/-! ## One tree -/

/-- What a loop over the levels of a surface does at a level: it goes on (`goes`), or it traps; the level may come out
    small (`small`), and then the fallback is safe or not (`back`). -/
structure Pass.Steps (p : Pass) (P : Params) (goes small back : Nat → Prop) : Prop where
  lawful : p.Lawful .machine
  minify : ∀ s lv i o, s.toParams = P → lv.mode = p.mode → i ≤ P.lastLevel → goes i →
    ∃ lv' s', p.minify s lv i o = .ok (lv', s') ∧ (p.fallback ≠ none ∧ lv'.mode = RADEON_SURF_MODE_1D ↔ small i)
  traps : ∀ {s lv i o}, s.toParams = P → lv.mode = p.mode → i ≤ P.lastLevel → Safe (p.minify s lv i o) → goes i
  fallback : ∀ {f s o i}, p.fallback = some f → s.toParams = P → i ≤ P.lastLevel → (Safe (f s o i) ↔ back i)

variable {P : Params} {goes small back : Nat → Prop}

/-- The run lemma: what happens at a level matters as long as no level before it came out small. -/
theorem buildTree_safe {p : Pass} (h : p.Steps P goes small back) {n i reached offset : Nat} {surf : Surface}
    (hP : surf.toParams = P) (hn : i + n ≤ P.lastLevel + 1) :
    Safe (buildTree p n i (reached, offset) surf) ↔
      ∀ j, i ≤ j → j < i + n → (∀ k, i ≤ k → k < j → ¬ small k) → goes j ∧ (small j → back j) := by
  induction n generalizing i reached offset surf with
  | zero => exact iff_of_true (safe_ok _) fun j h₁ h₂ => absurd h₂ (Nat.not_lt.mpr h₁)
  | succ n ih =>
      have hi : i ≤ P.lastLevel := by omega
      by_cases hgoes : goes i
      · obtain ⟨lv, s₁, hmin, hsmall⟩ := h.minify surf { surf.levels p.tree i with mode := p.mode } i offset hP rfl hi hgoes
        have hframe : Frame p.tree i surf (s₁.setLevel p.tree i lv) := (h.lawful.minify hmin).frame
        by_cases hsi : small i
        · obtain ⟨hne, h1d⟩ := hsmall.mpr hsi
          obtain ⟨f, hf⟩ := Option.ne_none_iff_exists'.mp hne
          rw [buildTree_fallback hmin hf h1d, h.fallback hf (hframe.params.trans hP) hi]
          constructor
          · intro hback j h₁ h₂ hbefore
            rcases Nat.eq_or_lt_of_le h₁ with rfl | hlt
            · exact ⟨hgoes, fun _ => hback⟩
            · exact absurd hsi (hbefore i (Nat.le_refl i) hlt)
          · exact fun hall => (hall i (Nat.le_refl i) (by omega) fun k h₁ h₂ => absurd h₂ (Nat.not_lt.mpr h₁)).2 hsi
        · have hrec := h.lawful.record i (s₁.setLevel p.tree i lv)
          rw [buildTree_continue hmin fun hne h1d => hsi (hsmall.mp ⟨hne, h1d⟩),
            ih (hrec.params.trans (hframe.params.trans hP)) (by omega)]
          constructor
          · intro hall j h₁ h₂ hbefore
            rcases Nat.eq_or_lt_of_le h₁ with rfl | hlt
            · exact ⟨hgoes, fun hs => absurd hs hsi⟩
            · exact hall j hlt (by omega) fun k h₃ h₄ => hbefore k (by omega) h₄
          · intro hall j h₁ h₂ hbefore
            refine hall j (by omega) (by omega) fun k h₃ h₄ => ?_
            rcases Nat.eq_or_lt_of_le h₃ with rfl | hlt
            · exact hsi
            · exact hbefore k hlt h₄
      · refine iff_of_false (fun hsafe => hgoes ?_) fun hall => ?_
        · obtain ⟨⟨lv, s₁⟩, hmin, -⟩ := (safe_bind).mp hsafe
          exact h.traps hP rfl hi ⟨_, hmin⟩
        · exact hgoes (hall i (Nat.le_refl i) (by omega) fun k h₁ h₂ => absurd h₂ (Nat.not_lt.mpr h₁)).1

/-- A loop from the first level on. -/
theorem buildFrom_safe {p : Pass} (h : p.Steps P goes small back) {reached offset : Nat} {surf : Surface}
    (hP : surf.toParams = P) : Safe (buildFrom p surf reached offset 0) ↔
      ∀ j, j ≤ P.lastLevel → (∀ k, k < j → ¬ small k) → goes j ∧ (small j → back j) := by
  unfold buildFrom
  rw [hP, buildTree_safe h hP (by omega)]
  constructor
  · exact fun hall j hj hbefore => hall j (Nat.zero_le j) (by omega) fun k _ => hbefore k
  · exact fun hall j _ hj hbefore => hall j (by omega) fun k => hbefore k (Nat.zero_le k)

/-- A loop in which no level comes out small. -/
theorem buildFrom_safe_plain {p : Pass} (goes : Nat → Prop) (h : p.Steps P goes (fun _ => False) fun _ => True) {reached offset start : Nat}
    {surf : Surface} (hP : surf.toParams = P) (hstart : start ≤ P.lastLevel) :
    Safe (buildFrom p surf reached offset start) ↔ ∀ j, start ≤ j → j ≤ P.lastLevel → goes j := by
  unfold buildFrom
  rw [hP, buildTree_safe h hP (by omega)]
  constructor
  · exact fun hall j h₁ h₂ => (hall j h₁ (by omega) fun _ _ _ => id).1
  · exact fun hall j h₁ h₂ _ => ⟨hall j h₁ (by omega), False.elim⟩

/-! ## Linear and 1D trees -/

section Plain

variable {hw : HwInfo} {t : Tree} {s : Surface} {i o start : Nat} {lv : Level}

theorem surfMinify_safe (h : Checked2 s.toParams) (hi : i ≤ s.lastLevel) (lv : Level) (bpe xalign yalign zalign offset : Nat) :
    ∃ lv' s', surfMinify .machine s lv bpe i xalign yalign zalign offset = .ok (lv', s') ∧
      (lv.mode = RADEON_SURF_MODE_2D →
        (lv'.mode = RADEON_SURF_MODE_1D ↔ SmallDims s.toParams xalign yalign (egDims s.toParams i))) := by
  obtain ⟨lv₁, hlv, hmode, hdims⟩ := levelDims_safe h hi lv
  unfold surfMinify
  rw [hlv]
  simp only [bind, Except.bind]
  split
  · rename_i hsmall
    exact ⟨_, _, rfl, fun h2d => iff_of_true rfl ((isSmall_iff_dims _ _ _ (hmode.trans h2d) hdims).mp hsmall)⟩
  · rename_i hsmall
    refine ⟨_, _, rfl, fun h2d => iff_of_false ?_ fun h => hsmall ((isSmall_iff_dims _ _ _ (hmode.trans h2d) hdims).mpr h)⟩
    show lv₁.mode ≠ RADEON_SURF_MODE_1D
    rw [hmode, h2d]
    exact (one_ne_two).symm

theorem surfPass_steps (h : Checked2 P) {mode : Nat} (hmode : mode ≠ RADEON_SURF_MODE_2D) (bpe xalign yalign : Nat) :
    (surfPass .machine t mode bpe xalign yalign).Steps P (fun _ => True) (fun _ => False) (fun _ => True) where
  lawful := ⟨surfMinify_minified, record_same, fun _ => hmode⟩
  minify := by
    rintro s lv i o rfl - hi -
    obtain ⟨lv', s', hmin, -⟩ := surfMinify_safe h hi lv bpe xalign yalign 1 o
    exact ⟨lv', s', hmin, iff_of_false (fun h => h.1 rfl) id⟩
  traps _ _ _ _ := trivial
  fallback := nofun

theorem surfPass_safe (h : Checked2 P) (hP : s.toParams = P) (hstart : start ≤ P.lastLevel) {mode : Nat}
    (hmode : mode ≠ RADEON_SURF_MODE_2D) (bpe xalign yalign reached offset : Nat) :
    Safe (buildFrom (surfPass .machine t mode bpe xalign yalign) s reached offset start) :=
  (buildFrom_safe_plain _ (surfPass_steps h hmode bpe xalign yalign) hP hstart).mpr fun _ _ _ => trivial

theorem linear_ne_two : RADEON_SURF_MODE_LINEAR ≠ RADEON_SURF_MODE_2D := by decide

theorem one_ne_linear_aligned : RADEON_SURF_MODE_1D ≠ RADEON_SURF_MODE_LINEAR_ALIGNED := by decide

theorem linear_aligned_ne_two : RADEON_SURF_MODE_LINEAR_ALIGNED ≠ RADEON_SURF_MODE_2D := by decide

theorem r6SurfaceInitLinear_safe (h : Checked2 s.toParams) : Safe (r6SurfaceInitLinear .machine hw s 0 0) ↔ s.bpe ≠ 0 := by
  refine safe_bind_first (safe_bind_first safe_div fun _ => safe_ok _) fun xalign => ?_
  exact surfPass_safe h (realign_frame (t := .level) (i := 0)).params (Nat.zero_le _) linear_ne_two ..

theorem r6SurfaceInitLinearAligned_safe (h : Checked2 s.toParams) :
    Safe (r6SurfaceInitLinearAligned .machine hw s 0 0) ↔ s.bpe ≠ 0 := by
  refine safe_bind_first (safe_bind_first safe_div fun _ => safe_ok _) fun xalign => ?_
  exact surfPass_safe h (realign_frame (t := .level) (i := 0)).params (Nat.zero_le _) linear_aligned_ne_two ..

/-- What the width of a 1D tile is divided by on r600 and evergreen. -/
def rowBytes (surf : Params) (bpe : Nat) : Nat := machine.u32 (8 * bpe * surf.nsamples)

theorem xalign1d_safe (surf : Params) (bpe : Nat) : Safe (xalign1d .machine hw surf bpe) ↔ rowBytes surf bpe ≠ 0 :=
  safe_bind_first safe_div fun _ => safe_ok _

theorem r6SurfaceInit1d_safe (h : Checked2 s.toParams) (hstart : start ≤ s.lastLevel) :
    Safe (r6SurfaceInit1d .machine hw s o start) ↔ rowBytes s.toParams s.bpe ≠ 0 := by
  refine safe_bind_first (xalign1d_safe s.toParams s.bpe) fun xalign => ?_
  exact surfPass_safe h (realign_frame (t := .level) (i := 0)).params hstart one_ne_two ..

theorem egSurfaceInit1d_safe (h : Checked2 s.toParams) (hstart : start ≤ s.lastLevel) (bpe : Nat) :
    Safe (egSurfaceInit1d .machine hw t bpe s o start) ↔ rowBytes s.toParams bpe ≠ 0 := by
  refine safe_bind_first (xalign1d_safe s.toParams bpe) fun xalign => ?_
  exact surfPass_safe h (alignTree_frame (t := t) (i := 0)).params hstart one_ne_two ..

theorem siSurfMinify_safe (h : Checked2 s.toParams) (hi : i ≤ s.lastLevel) (lv : Level)
    (bpe xalign yalign zalign sliceAlign offset : Nat) :
    ∃ lv', lv'.mode = lv.mode ∧ (lv'.nblkX, lv'.nblkY) = siDims s.toParams i ∧
      (Safe (siSurfMinify .machine s lv bpe i xalign yalign zalign sliceAlign offset) ↔
        Safe (siXalign s.toParams lv' bpe i xalign sliceAlign (machine.align32 lv'.nblkY yalign))) := by
  obtain ⟨lv₁, hlv, hmode, hdims⟩ := siLevelDims_safe h hi lv
  refine ⟨lv₁, hmode, hdims, ?_⟩
  unfold siSurfMinify
  rw [safe_bind_of hlv]
  exact safe_bind_first Iff.rfl fun _ => safe_ok _

/-- Where there is one level, the alignment of its rows is divided by the bytes of an element. -/
theorem siXalign_safe {surf : Params} (bpe xalign sliceAlign nblkY : Nat) : Safe (siXalign surf lv bpe i xalign sliceAlign nblkY) ↔
    (i = 0 ∧ surf.lastLevel = 0 → surf.bpe ≠ 0) ∧
      (¬ (i = 0 ∧ surf.lastLevel = 0) → lv.mode = RADEON_SURF_MODE_LINEAR_ALIGNED → bpe ≠ 0 ∧ nblkY ≠ 0) := by
  unfold siXalign
  by_cases hone : i = 0 ∧ surf.lastLevel = 0
  · rw [if_pos hone, safe_bind_first safe_div fun _ => safe_ok _]
    simp [hone]
  · rw [if_neg hone]
    by_cases hmode : lv.mode = RADEON_SURF_MODE_LINEAR_ALIGNED
    · rw [if_pos hmode, safe_bind]
      simp only [hone, hmode, false_implies, true_and, not_false_iff, true_implies]
      constructor
      · rintro ⟨n, hn, hsafe⟩
        obtain ⟨m, hm, -⟩ := (safe_bind).mp hsafe
        exact ⟨(safe_div).mp ⟨n, hn⟩, (safe_div).mp ⟨m, hm⟩⟩
      · rintro ⟨hbpe, hrows⟩
        exact ⟨_, div_eq hbpe, (safe_bind_first safe_div fun _ => safe_ok _).mpr hrows⟩
    · rw [if_neg hmode]
      simp [hone, hmode, safe_ok]

/-- A loop around `si_surf_minify` goes on where the alignment of the rows can be worked out. -/
theorem siPass_steps (h : Checked2 P) {p : Pass} (hlawful : p.Lawful .machine) (hfallback : p.fallback = none)
    {bpe xalign yalign sliceAlign : Nat}
    (hmin : ∀ s lv i o, s.toParams = P → p.minify s lv i o = siSurfMinify .machine s lv bpe i xalign yalign 1 sliceAlign o)
    (hgoes : ∀ i lv, lv.mode = p.mode → (lv.nblkX, lv.nblkY) = siDims P i →
      (Safe (siXalign P lv bpe i xalign sliceAlign (machine.align32 lv.nblkY yalign)) ↔ goes i)) :
    p.Steps P goes (fun _ => False) (fun _ => True) := by
  have hsafe : ∀ {s lv i o}, s.toParams = P → lv.mode = p.mode → i ≤ P.lastLevel → (Safe (p.minify s lv i o) ↔ goes i) := by
    rintro s lv i o rfl hlv hi
    obtain ⟨lv', hmode, hdims, hiff⟩ := siSurfMinify_safe h hi lv bpe xalign yalign 1 sliceAlign o
    rw [hmin s lv i o rfl, hiff]
    exact hgoes i lv' (hmode.trans hlv) hdims
  refine ⟨hlawful, fun s lv i o hP hlv hi hi' => ?_, fun hP hlv hi => (hsafe hP hlv hi).mp, fun hf => ?_⟩
  · obtain ⟨⟨lv', s'⟩, hok⟩ := (hsafe (o := o) hP hlv hi).mpr hi'
    exact ⟨lv', s', hok, iff_of_false (fun h => h.1 hfallback) id⟩
  · rw [hfallback] at hf
    cases hf

/-- In a linear tree of several levels the padding is divided among the rows of blocks. -/
def linearGoes (surf : Params) (i : Nat) : Prop := ¬ (i = 0 ∧ surf.lastLevel = 0) → (siDims surf i).2 ≠ 0

theorem align32_one {n : Nat} (hn : n < 2 ^ 32) : machine.align32 n 1 = n := by
  simp [align32, clear, machine_u32 hn]

theorem siSurfaceInitLinearAligned_safe (h : Checked2 s.toParams) (tileMode : Nat) :
    Safe (siSurfaceInitLinearAligned .machine hw tileMode s 0 0) ↔
      s.bpe ≠ 0 ∧ ∀ i, i ≤ s.lastLevel → linearGoes s.toParams i := by
  unfold siSurfaceInitLinearAligned
  rw [if_pos rfl]
  by_cases hbpe : s.bpe = 0
  · refine iff_of_false (fun hsafe => ?_) fun hall => hall.1 hbpe
    obtain ⟨n, hn, -⟩ := (safe_bind).mp hsafe
    exact (safe_div).mp ⟨n, hn⟩ hbpe
  · rw [safe_bind_of (div_eq hbpe)]
    refine Iff.trans (buildFrom_safe_plain (P := s.toParams) (linearGoes s.toParams) ?_ rfl (Nat.zero_le _))
      ⟨fun hall => ⟨hbpe, fun i => hall i (Nat.zero_le i)⟩, fun hall i _ => hall.2 i⟩
    refine siPass_steps h ⟨siSurfMinify_minified, recordLinearIndex_same, fun _ => linear_aligned_ne_two⟩ rfl
      (fun s' lv i o hP => congrArg (fun P : Params => siSurfMinify .machine s' lv P.bpe i _ 1 1 _ o) hP)
      fun i lv hmode hdims => ?_
    have hrows : machine.align32 lv.nblkY 1 = (siDims s.toParams i).2 := by
      rw [← hdims]
      refine align32_one ?_
      show lv.nblkY < 2 ^ 32
      rw [show lv.nblkY = (siDims s.toParams i).2 from congrArg Prod.snd hdims]
      exact Nat.lt_of_le_of_lt (Nat.div_le_self _ _) (machine_u32_lt _)
    rw [siXalign_safe, hrows]
    exact ⟨fun hx hmany => (hx.2 hmany hmode).2, fun hx => ⟨fun _ => hbpe, fun hmany _ => ⟨hbpe, hx hmany⟩⟩⟩

theorem siSurfaceInit1d_safe (h : Checked2 s.toParams) (hstart : start ≤ s.lastLevel) (bpe tileMode : Nat) :
    Safe (siSurfaceInit1d .machine hw t bpe tileMode s o start) ↔ (start = 0 ∧ s.lastLevel = 0 → s.bpe ≠ 0) := by
  refine Iff.trans (buildFrom_safe_plain (P := s.toParams) (fun i => i = 0 ∧ s.lastLevel = 0 → s.bpe ≠ 0) ?_
    (alignTree_frame (t := t) (i := 0)).params hstart) ?_
  · refine siPass_steps h ⟨siSurfMinify_minified, recordIndex_same, fun _ => one_ne_two⟩ rfl
      (fun s' lv i o hP => rfl) fun i lv hmode hdims => ?_
    rw [siXalign_safe]
    refine ⟨fun hx => hx.1, fun hx => ⟨hx, fun _ haligned => ?_⟩⟩
    exact absurd (hmode.symm.trans haligned) one_ne_linear_aligned
  · constructor
    · exact fun hall hone => hall start (Nat.le_refl _) hstart hone
    · exact fun hone j h₁ h₂ hj => hone ⟨by omega, hj.2⟩

end Plain

/-! ## 2D trees -/

/-- A level is smaller than the macro tile, or the macro tile can be divided by. -/
def tiledGoes (surf : Params) (dims : Nat → Nat × Nat) (w h i : Nat) : Prop := SmallDims surf w h (dims i) ∨ (w ≠ 0 ∧ h ≠ 0)

section Tiled

variable {hw : HwInfo} {t : Tree} {s : Surface} {i o : Nat} {lv : Level} {dims : Nat → Nat × Nat} {w h : Nat}

theorem minify2d_safe (bpe slicePt mtileb : Nat) (hlv : lv.mode = RADEON_SURF_MODE_2D) (hdims : (lv.nblkX, lv.nblkY) = dims i) :
    (Safe (minify2d .machine s lv bpe slicePt w h 1 mtileb o) ↔ tiledGoes s.toParams dims w h i) ∧
      ∀ lv' s', minify2d .machine s lv bpe slicePt w h 1 mtileb o = .ok (lv', s') →
        (lv'.mode = RADEON_SURF_MODE_1D ↔ SmallDims s.toParams w h (dims i)) := by
  have hiff := isSmall_iff_dims s.toParams w h hlv hdims
  unfold minify2d tiledGoes
  by_cases hsmall : SmallDims s.toParams w h (dims i)
  · rw [if_pos (hiff.mpr hsmall)]
    refine ⟨iff_of_true (safe_ok _) (.inl hsmall), fun lv' s' hok => ?_⟩
    cases hok
    exact iff_of_true rfl hsmall
  · rw [if_neg fun h => hsmall (hiff.mp h)]
    constructor
    · constructor
      · intro hsafe
        obtain ⟨n, hn, hsafe⟩ := (safe_bind).mp hsafe
        obtain ⟨m, hm, -⟩ := (safe_bind).mp hsafe
        exact .inr ⟨(safe_div).mp ⟨n, hn⟩, (safe_div).mp ⟨m, hm⟩⟩
      · rintro (h | ⟨hw, hh⟩)
        · exact absurd h hsmall
        · exact (safe_bind_of (div_eq hw)).mpr ((safe_bind_of (div_eq hh)).mpr (safe_ok _))
    · intro lv' s' hok
      obtain ⟨n, -, hok⟩ := exists_of_bind_ok hok
      obtain ⟨m, -, hok⟩ := exists_of_bind_ok hok
      cases hok
      refine iff_of_false ?_ hsmall
      show lv.mode ≠ RADEON_SURF_MODE_1D
      rw [hlv]
      exact (one_ne_two).symm

/-- A loop that works the levels out in 2D tiles of `w` by `h` blocks. -/
theorem tiledPass_steps (bpe slicePt mtileb : Nat) {p : Pass} (hlawful : p.Lawful .machine)
    (hmode : p.mode = RADEON_SURF_MODE_2D) {f : Surface → Nat → Nat → Except Trap (Int × Surface)} (hfallback : p.fallback = some f)
    (hmin : ∀ s lv i o, s.toParams = P → i ≤ P.lastLevel → ∃ lv₁, lv₁.mode = lv.mode ∧ (lv₁.nblkX, lv₁.nblkY) = dims i ∧
      p.minify s lv i o = minify2d .machine s lv₁ bpe slicePt w h 1 mtileb o)
    (hback : ∀ s o i, s.toParams = P → i ≤ P.lastLevel → (Safe (f s o i) ↔ back i)) :
    p.Steps P (tiledGoes P dims w h) (fun i => SmallDims P w h (dims i)) back where
  lawful := hlawful
  minify := by
    rintro s lv i o rfl hlv hi hgoes
    obtain ⟨lv₁, hlv₁, hdims, hrun⟩ := hmin s lv i o rfl hi
    obtain ⟨hsafe, hsmall⟩ := minify2d_safe (s := s) (o := o) (w := w) (h := h) bpe slicePt mtileb
      (hlv₁.trans (hlv.trans hmode)) hdims
    obtain ⟨⟨lv', s'⟩, hok⟩ := hsafe.mpr hgoes
    refine ⟨lv', s', hrun.trans hok, ?_⟩
    rw [hfallback, hsmall lv' s' hok]
    exact and_iff_right nofun
  traps := by
    rintro s lv i o rfl hlv hi hsafe
    obtain ⟨lv₁, hlv₁, hdims, hrun⟩ := hmin s lv i o rfl hi
    rw [hrun] at hsafe
    exact (minify2d_safe _ _ _ (hlv₁.trans (hlv.trans hmode)) hdims).1.mp hsafe
  fallback hf hP hi := by
    cases hfallback.symm.trans hf
    exact hback _ _ _ hP hi

/-- The first level that comes out small decides; before it, the macro tile is divided by. -/
theorem tiledPass_safe {p : Pass} (hp : p.Steps P (tiledGoes P dims w h) (fun i => SmallDims P w h (dims i)) back)
    (hmono : ∀ i j, i ≤ j → back i → back j) {reached offset : Nat} (hP : s.toParams = P) :
    Safe (buildFrom p s reached offset 0) ↔
      tiledGoes P dims w h 0 ∧ ∀ i, i ≤ P.lastLevel → SmallDims P w h (dims i) → back i := by
  rw [buildFrom_safe hp hP]
  constructor
  · refine fun hall => ⟨(hall 0 (Nat.zero_le _) nofun).1, fun i hi hsmall => ?_⟩
    -- the first level that comes out small
    have hex : ∃ j, SmallDims P w h (dims j) := ⟨i, hsmall⟩
    classical
    have hle : Nat.find hex ≤ i := Nat.find_min' hex hsmall
    exact hmono _ i hle ((hall _ (by omega) fun k hk => Nat.find_min hex hk).2 (Nat.find_spec hex))
  · rintro ⟨hzero, hall⟩ j hj hbefore
    refine ⟨?_, hall j hj⟩
    rcases Nat.eq_zero_or_pos j with rfl | hpos
    · exact hzero
    · rcases hzero with hsmall | hne
      · exact absurd hsmall (hbefore 0 hpos)
      · exact .inr hne

theorem splitTile_safe (tileb tileSplit : Nat) : Safe (splitTile tileb tileSplit) := by
  unfold splitTile
  split
  · rename_i hsplit
    have hpos : tileb / tileSplit ≠ 0 := (Nat.div_pos (Nat.le_of_lt hsplit.1) (Nat.pos_of_ne_zero hsplit.2)).ne'
    rw [safe_bind_of (div_eq hsplit.2), safe_bind_of (div_eq hpos)]
    exact safe_ok _
  · exact safe_ok _

/-- The macro tile of a surface: its width and height in blocks. -/
def mtilew (surf : Params) (numPipes : Nat) : Nat := machine.u32 (8 * surf.bankw * numPipes * surf.mtilea)

def mtileh (surf : Params) (numBanks : Nat) : Nat := machine.u32 (8 * surf.bankh * numBanks) / surf.mtilea

/-- The macro tile is worked out, and then the levels. -/
theorem macroTile_bind_safe {surf : Params} {numPipes numBanks tileb : Nat} {α : Type} {f : Nat × Nat × Nat → Except Trap α}
    {Q : Prop} (hf : ∀ mtileb, Safe (f (mtilew surf numPipes, mtileh surf numBanks, mtileb)) ↔ Q) :
    Safe (macroTile .machine surf numPipes numBanks tileb >>= f) ↔ surf.mtilea ≠ 0 ∧ Q := by
  by_cases hmtilea : surf.mtilea = 0
  · refine iff_of_false (fun hsafe => ?_) fun hall => hall.1 hmtilea
    obtain ⟨⟨w, h, b⟩, hm, -⟩ := (safe_bind).mp hsafe
    exact (macroTile_ok hm).1 hmtilea
  · have hm : macroTile .machine surf numPipes numBanks tileb = .ok (mtilew surf numPipes, mtileh surf numBanks,
        machine.u32 (mtilew surf numPipes / 8 * (mtileh surf numBanks / 8) * tileb)) := by
      unfold macroTile
      rw [div_eq hmtilea]
      rfl
    rw [safe_bind_of hm]
    exact (hf _).trans (and_iff_right hmtilea).symm

/-- What the layout of a tree in 2D tiles relies on; `back` says of a level that the fallback from there is safe. -/
@[mk_iff] structure TiledSafe (dims : Nat → Nat × Nat) (numPipes numBanks : Nat) (back : Nat → Prop) (surf : Params) : Prop where
  mtilea : surf.mtilea ≠ 0
  macroTile : tiledGoes surf dims (mtilew surf numPipes) (mtileh surf numBanks) 0
  fallback : ∀ i, i ≤ surf.lastLevel → SmallDims surf (mtilew surf numPipes) (mtileh surf numBanks) (dims i) → back i

theorem egSurfaceInit2d_safe (hc : Checked2 s.toParams) (bpe tileSplit : Nat) :
    Safe (egSurfaceInit2d .machine hw t bpe tileSplit s o 0) ↔
      TiledSafe (egDims s.toParams) hw.numPipes hw.numBanks (fun _ => rowBytes s.toParams bpe ≠ 0) s.toParams := by
  obtain ⟨⟨tileb, slicePt⟩, hsplit⟩ := splitTile_safe (machine.u32 (64 * bpe * s.nsamples)) tileSplit
  refine (safe_bind_of hsplit).trans ((macroTile_bind_safe fun mtileb => ?_).trans (tiledSafe_iff ..).symm)
  refine tiledPass_safe (tiledPass_steps bpe slicePt mtileb ⟨egSurfMinify_minified, record_same, fun h => by cases h⟩ rfl rfl
    (fun s' lv i o hP hi => ?_) fun s' o i hP hi => ?_) (fun _ _ _ => id) rfl
  · obtain ⟨lv₁, hlv₁, hmode, hdims⟩ := levelDims_safe hc hi lv
    refine ⟨lv₁, hmode, hdims, bind_of_ok ?_⟩
    rw [hP]
    exact hlv₁
  · rw [← hP] at hc hi ⊢
    exact egSurfaceInit1d_safe hc hi bpe

theorem r6SurfaceInit2d_safe (hc : Checked2 s.toParams) :
    Safe (r6SurfaceInit2d .machine hw s 0 0) ↔ rowBytes s.toParams s.bpe ≠ 0 := by
  by_cases hrow : rowBytes s.toParams s.bpe = 0
  · refine iff_of_false (fun hsafe => ?_) (not_not.mpr hrow)
    obtain ⟨xalign, hx, -⟩ := (safe_bind).mp hsafe
    obtain ⟨n, hn, -⟩ := (safe_bind).mp ⟨xalign, hx⟩
    exact (safe_div).mp ⟨n, hn⟩ hrow
  · refine iff_of_true ?_ hrow
    obtain ⟨xalign, hx⟩ : ∃ xalign, r6Xalign2d .machine hw s.toParams = .ok xalign := ⟨_, bind_of_ok (div_eq hrow)⟩
    refine (safe_bind_of hx).mpr ?_
    refine (@buildFrom_safe s.toParams (fun _ => True)
      (fun i => SmallDims s.toParams xalign (machine.u32 (8 * hw.numPipes)) (egDims s.toParams i))
      (fun _ => rowBytes s.toParams s.bpe ≠ 0) _ ⟨⟨surfMinify_minified, record_same, fun h => by cases h⟩, ?_, ?_, ?_⟩
      _ _ _ (realign_frame (t := .level) (i := 0)).params).mpr fun _ _ _ => ⟨trivial, fun _ => hrow⟩
    · rintro s' lv i o hP hlv hi -
      rw [← hP] at hc hi ⊢
      obtain ⟨lv', s₁, hmin, hsmall⟩ := surfMinify_safe hc hi lv _ _ _ 1 o
      exact ⟨lv', s₁, hmin, (and_iff_right nofun).trans (hsmall hlv)⟩
    · exact fun _ _ _ _ => trivial
    · rintro f s' o i ⟨⟩ hP hi
      rw [← hP] at hc hi ⊢
      exact r6SurfaceInit1d_safe hc hi

/-- Where a tree falls back on the later families: only the division of a tree of one level can trap. -/
def islandsBack (to1d : Option Nat) (surf : Params) (i : Nat) : Prop :=
  to1d ≠ none → i = 0 ∧ surf.lastLevel = 0 → surf.bpe ≠ 0

theorem islandsTree2d_safe (hc : Checked2 s.toParams) (bpe tileMode : Nat) (to1d : Nat → Option Nat) (slicePt mtileb : Nat) :
    Safe (islandsTree2d .machine hw t bpe tileMode to1d slicePt w h mtileb s o 0) ↔
      tiledGoes s.toParams (siDims s.toParams) w h 0 ∧ ∀ i, i ≤ s.lastLevel → SmallDims s.toParams w h (siDims s.toParams i) →
        islandsBack (to1d tileMode) s.toParams i := by
  refine tiledPass_safe (tiledPass_steps bpe slicePt mtileb ⟨siSurfMinify2d_minified, recordIndex_same, fun h => by cases h⟩ rfl rfl
    (fun s' lv i o hP hi => ?_) fun s' o i hP hi => ?_) (fun i j hij hback hsome hj => hback hsome ⟨by omega, hj.2⟩) rfl
  · obtain ⟨lv₁, hlv₁, hmode, hdims⟩ := siLevelDims_safe hc hi lv
    refine ⟨lv₁, hmode, hdims, bind_of_ok ?_⟩
    rw [hP]
    exact hlv₁
  · rw [← hP] at hc hi ⊢
    unfold islandsBack
    cases to1d tileMode with
    | none => exact iff_of_true (safe_ok _) fun h => absurd rfl h
    | some m =>
        exact Iff.trans (siSurfaceInit1d_safe hc hi bpe m) ⟨fun hbpe _ => hbpe, fun hback => hback (Option.some_ne_none m)⟩

theorem siSurfaceInit2d_safe (hc : Checked2 s.toParams) (bpe tileMode numPipes numBanks tileSplit : Nat) :
    Safe (siSurfaceInit2d .machine hw t bpe tileMode numPipes numBanks tileSplit s o 0) ↔
      TiledSafe (siDims s.toParams) numPipes numBanks (islandsBack (siTo1d tileMode) s.toParams) s.toParams := by
  obtain ⟨⟨tileb, slicePt⟩, hsplit⟩ := splitTile_safe (machine.u32 (64 * bpe * s.nsamples)) tileSplit
  refine (safe_bind_of hsplit).trans ((macroTile_bind_safe fun mtileb => ?_).trans (tiledSafe_iff ..).symm)
  exact islandsTree2d_safe hc bpe tileMode siTo1d slicePt mtileb

theorem cikSurfaceInit2d_safe (hc : Checked2 s.toParams) (bpe tileMode tileSplit numPipes numBanks : Nat) :
    Safe (cikSurfaceInit2d .machine hw t bpe tileMode tileSplit numPipes numBanks s o 0) ↔
      TiledSafe (siDims s.toParams) numPipes numBanks (islandsBack (cikTo1d tileMode) s.toParams) s.toParams := by
  obtain ⟨⟨tileb, slicePt⟩, hsplit⟩ := splitTile_safe (machine.u32 (s.nsamples * (64 * bpe))) (min hw.rowSize tileSplit)
  refine (safe_bind_of hsplit).trans ((macroTile_bind_safe fun mtileb => ?_).trans (tiledSafe_iff ..).symm)
  exact islandsTree2d_safe hc bpe tileMode cikTo1d slicePt mtileb

end Tiled

/-! ## Two trees -/

/-- If the second tree is safe after the first, the first one decides. -/
theorem miptrees_safe {second : Bool} {t : Tree} {build₁ : Surface → Except Trap (Int × Surface)}
    {build₂ : Surface → Nat → Except Trap (Int × Surface)} {s : Surface}
    (h : ∀ s₁, build₁ s = .ok (0, s₁) → Safe (build₂ s₁ s₁.boSize)) : Safe (miptrees second t build₁ build₂ s) ↔ Safe (build₁ s) := by
  constructor
  · intro hsafe
    obtain ⟨⟨r, s₁⟩, h₁, -⟩ := (safe_bind).mp hsafe
    exact ⟨_, h₁⟩
  · rintro ⟨⟨r, s₁⟩, h₁⟩
    refine (safe_bind_of h₁).mpr ?_
    dsimp only
    by_cases hr : r = 0
    · subst hr
      rw [if_neg (not_not.mpr rfl)]
      split
      · obtain ⟨⟨r, s₂⟩, h₂⟩ := h s₁ h₁
        exact (safe_bind_of h₂).mpr (safe_ok _)
      · exact safe_ok _
    · rw [if_pos hr]
      exact safe_ok _

section Miptrees

variable {hw : HwInfo} {s : Surface}

/-- A row of a stencil tree has bytes. -/
theorem rowBytes_stencil {surf : Params} (h : Checked1 surf) : rowBytes surf 1 ≠ 0 := by
  have hns := h.nsamples
  unfold rowBytes machine
  simp only [List.mem_cons, List.not_mem_nil, or_false] at hns
  rcases hns with h | h | h | h <;> simp [h]

theorem egSurfaceInit1dMiptrees_safe (hc : Checked2 s.toParams) :
    Safe (egSurfaceInit1dMiptrees .machine hw s) ↔ rowBytes s.toParams s.bpe ≠ 0 := by
  unfold egSurfaceInit1dMiptrees
  refine Iff.trans (miptrees_safe fun s₁ h₁ => ?_) (egSurfaceInit1d_safe hc (Nat.zero_le _) s.bpe)
  have hP : s₁.toParams = s.toParams := (egSurfaceInit1d_inMode h₁).2.frame.params
  rw [← hP] at hc
  exact (egSurfaceInit1d_safe hc (Nat.zero_le _) 1).mpr (rowBytes_stencil hc.toChecked1)

theorem egSurfaceInit2dMiptrees_safe (hc : Checked2 s.toParams) : Safe (egSurfaceInit2dMiptrees .machine hw s) ↔
    TiledSafe (egDims s.toParams) hw.numPipes hw.numBanks (fun _ => rowBytes s.toParams s.bpe ≠ 0) s.toParams := by
  unfold egSurfaceInit2dMiptrees
  refine Iff.trans (miptrees_safe fun s₁ h₁ => ?_) (egSurfaceInit2d_safe hc s.bpe s.tileSplit)
  have hfirst := (egSurfaceInit2d_safe hc s.bpe s.tileSplit).mp ⟨_, h₁⟩
  have hP : s₁.toParams = s.toParams := (egSurfaceInit2d_tiled hc.npixX hc.npixY h₁).1.frame.params
  rw [← hP] at hc hfirst
  exact (egSurfaceInit2d_safe hc 1 s₁.stencilTileSplit).mpr
    ⟨hfirst.mtilea, hfirst.macroTile, fun _ _ _ => rowBytes_stencil hc.toChecked1⟩

theorem siSurfaceInit1dMiptrees_safe (hc : Checked2 s.toParams) (tileMode stencilTileMode : Nat) :
    Safe (siSurfaceInit1dMiptrees .machine hw tileMode stencilTileMode s) ↔ (s.lastLevel = 0 → s.bpe ≠ 0) := by
  have hiff := @siSurfaceInit1d_safe hw .level s 0 0 hc (Nat.zero_le _) s.bpe tileMode
  refine Iff.trans (miptrees_safe fun s₁ h₁ => ?_) (hiff.trans (by simp))
  have hfirst := hiff.mp ⟨_, h₁⟩
  have hP : s₁.toParams = s.toParams := (siSurfaceInit1d_inMode h₁).2.frame.params
  rw [← hP] at hc hfirst
  exact (siSurfaceInit1d_safe hc (Nat.zero_le _) 1 stencilTileMode).mpr hfirst

/-- A tree that could not have fallen back has a first level that fills a macro tile. -/
theorem islandsTree2d_none {t : Tree} {o bpe tileMode slicePt w h mtileb : Nat} {to1d : Nat → Option Nat} {s₁ : Surface}
    (hc : Checked2 s.toParams) (hnone : to1d tileMode = none)
    (hrun : islandsTree2d .machine hw t bpe tileMode to1d slicePt w h mtileb s o 0 = .ok (0, s₁)) :
    ¬ SmallDims s.toParams w h (siDims s.toParams 0) := by
  obtain ⟨lv, s₂, hmin, hrest⟩ := buildTree_succ hrun
  rcases hrest with ⟨f, ⟨⟩, -, hf⟩ | ⟨hne, -⟩
  · rw [hnone] at hf
    cases hf
  · obtain ⟨lv₁, hlv₁, hmode, hdims⟩ := siLevelDims_safe hc (Nat.zero_le _) _
    have hmin₁ := (bind_of_ok hlv₁).symm.trans hmin
    exact fun hsmall => hne nofun (((minify2d_safe _ _ _ hmode hdims).2 _ _ hmin₁).mpr hsmall)

/-- The second tree in 2D tiles has the same macro tile, and gets to its fallback only if the first one got through it. -/
theorem TiledSafe.second {numPipes numBanks : Nat} {to1d : Option Nat} {surf : Params}
    (h : TiledSafe (siDims surf) numPipes numBanks (islandsBack to1d surf) surf) (to1d' : Option Nat)
    (hnone : to1d = none → ¬ SmallDims surf (mtilew surf numPipes) (mtileh surf numBanks) (siDims surf 0)) :
    TiledSafe (siDims surf) numPipes numBanks (islandsBack to1d' surf) surf where
  mtilea := h.mtilea
  macroTile := h.macroTile
  fallback := by
    rintro i hi hsmall - ⟨rfl, hlast⟩
    by_cases hto : to1d = none
    · exact absurd hsmall (hnone hto)
    · exact h.fallback 0 hi hsmall hto ⟨rfl, hlast⟩

theorem siSurfaceInit2dMiptrees_safe (hc : Checked2 s.toParams) (tileMode stencilTileMode : Nat) :
    Safe (siSurfaceInit2dMiptrees .machine hw tileMode stencilTileMode s) ↔
      TiledSafe (siDims s.toParams) (siGbTileMode (hw.tileModeArray tileMode)).numPipes
        (siGbTileMode (hw.tileModeArray tileMode)).numBanks (islandsBack (siTo1d tileMode) s.toParams) s.toParams := by
  unfold siSurfaceInit2dMiptrees
  refine Iff.trans (miptrees_safe fun s₁ h₁ => ?_) (siSurfaceInit2d_safe hc s.bpe tileMode _ _ s.tileSplit)
  have hfirst := (siSurfaceInit2d_safe hc s.bpe tileMode _ _ s.tileSplit).mp ⟨_, h₁⟩
  have hP : s₁.toParams = s.toParams := (siSurfaceInit2d_tiled h₁).1.frame.params
  have hsecond := hfirst.second (siTo1d stencilTileMode) fun hnone => by
    obtain ⟨⟨tileb, slicePt⟩, -, h₁⟩ := exists_of_bind_ok h₁
    obtain ⟨⟨w, h, b⟩, hm, h₁⟩ := exists_of_bind_ok h₁
    obtain ⟨-, rfl, rfl, -⟩ := macroTile_ok hm
    exact islandsTree2d_none hc hnone h₁
  rw [← hP] at hc hsecond
  exact (siSurfaceInit2d_safe hc 1 stencilTileMode _ _ s₁.stencilTileSplit).mpr hsecond

theorem cikSurfaceInit2dMiptrees_safe (hc : Checked2 s.toParams) (tileMode stencilTileMode : Nat) :
    let mode := cikGet2dParams .machine hw s.bpe s.nsamples (!s.has RADEON_SURF_Z_OR_SBUFFER) tileMode
    Safe (cikSurfaceInit2dMiptrees .machine hw tileMode stencilTileMode s) ↔
      TiledSafe (siDims s.toParams) mode.numPipes mode.numBanks (islandsBack (cikTo1d tileMode) s.toParams) s.toParams := by
  intro mode
  unfold cikSurfaceInit2dMiptrees
  refine Iff.trans (miptrees_safe fun s₁ h₁ => ?_) (cikSurfaceInit2d_safe hc s.bpe tileMode s.tileSplit _ _)
  have hfirst := (cikSurfaceInit2d_safe hc s.bpe tileMode s.tileSplit _ _).mp ⟨_, h₁⟩
  have hP : s₁.toParams = s.toParams := (cikSurfaceInit2d_tiled h₁).1.frame.params
  have hsecond : TiledSafe (siDims s₁.toParams) mode.numPipes mode.numBanks (islandsBack (cikTo1d stencilTileMode) s₁.toParams)
      s₁.toParams := by
    rw [hP]
    refine hfirst.second _ fun hnone => ?_
    obtain ⟨⟨tileb, slicePt⟩, -, h₁⟩ := exists_of_bind_ok h₁
    obtain ⟨⟨w, h, b⟩, hm, h₁⟩ := exists_of_bind_ok h₁
    obtain ⟨-, rfl, rfl, -⟩ := macroTile_ok hm
    exact islandsTree2d_none hc hnone h₁
  rw [← hP] at hc
  exact (cikSurfaceInit2d_safe hc 1 stencilTileMode s₁.stencilTileSplit _ _).mpr hsecond

end Miptrees

/-! ## The families -/

section Families

variable {hw : HwInfo} {s s' : Surface}

theorem Checked1.remoded (h : Checked1 s.toParams) (hs : Remoded s s') : Checked1 s'.toParams := by
  rw [hs.eq]
  exact ⟨h.npixX, h.npixY, h.npixZ, h.blkW, h.blkH, h.blkD, h.nsamples⟩

theorem Checked1.retiled (h : Checked1 s.toParams) (hs : Retiled s s') : Checked1 s'.toParams := by
  rw [hs.eq]
  exact ⟨h.npixX, h.npixY, h.npixZ, h.blkW, h.blkH, h.blkD, h.nsamples⟩

theorem InBounds.remoded {maxPix maxLevel : Nat} (h : InBounds maxPix maxLevel s.toParams) (hs : Remoded s s') :
    InBounds maxPix maxLevel s'.toParams := by
  rw [hs.eq]
  exact h

theorem InBounds.retiled {maxPix maxLevel : Nat} (h : InBounds maxPix maxLevel s.toParams) (hs : Retiled s s') :
    InBounds maxPix maxLevel s'.toParams := by
  rw [hs.eq]
  exact h

/-- What the layout of a surface in a mode relies on, on r600. -/
@[mk_iff] structure R6Safe (surf : Params) (mode : Nat) : Prop where
  linear : mode = RADEON_SURF_MODE_LINEAR → surf.bpe ≠ 0
  linearAligned : mode = RADEON_SURF_MODE_LINEAR_ALIGNED → surf.bpe ≠ 0
  tiled1d : mode = RADEON_SURF_MODE_1D → rowBytes surf surf.bpe ≠ 0
  tiled2d : mode = RADEON_SURF_MODE_2D → rowBytes surf surf.bpe ≠ 0

/-- On evergreen. -/
@[mk_iff] structure EgSafe (hw : HwInfo) (surf : Params) (mode : Nat) : Prop where
  linear : mode = RADEON_SURF_MODE_LINEAR → surf.bpe ≠ 0
  linearAligned : mode = RADEON_SURF_MODE_LINEAR_ALIGNED → surf.bpe ≠ 0
  tiled1d : mode = RADEON_SURF_MODE_1D → rowBytes surf surf.bpe ≠ 0
  tiled2d : mode = RADEON_SURF_MODE_2D →
    TiledSafe (egDims surf) hw.numPipes hw.numBanks (fun _ => rowBytes surf surf.bpe ≠ 0) surf

/-- On the later families; `entry` is the entry of the tile mode, and `to1d` the tile mode it falls back to. -/
@[mk_iff] structure IslandsSafe (entry : TileMode) (to1d : Option Nat) (surf : Params) (mode : Nat) : Prop where
  linear : mode = RADEON_SURF_MODE_LINEAR → surf.bpe ≠ 0
  linearAligned : mode = RADEON_SURF_MODE_LINEAR_ALIGNED → surf.bpe ≠ 0 ∧ ∀ i, i ≤ surf.lastLevel → linearGoes surf i
  tiled1d : mode = RADEON_SURF_MODE_1D → surf.lastLevel = 0 → surf.bpe ≠ 0
  tiled2d : mode = RADEON_SURF_MODE_2D →
    TiledSafe (siDims surf) entry.numPipes entry.numBanks (islandsBack to1d surf) surf

/-- The mode and the surface that `r6_surface_init` goes on with. -/
def r6Forced (hw : HwInfo) (surf : Surface) : Int × Nat × Surface := force1d hw.allow2d (tilingMode surf).1 (tilingMode surf).2

/-- What `eg_surface_sanity` makes of a surface. -/
def egChecked (hw : HwInfo) (surf : Surface) : Int × Surface :=
  egSurfaceSanity .machine hw (tilingMode surf).2 (tilingMode surf).1

def siChecked (hw : HwInfo) (surf : Surface) : Checked := siSurfaceSanity hw (tilingMode surf).2 (tilingMode surf).1

def cikChecked (hw : HwInfo) (surf : Surface) : Checked := cikSurfaceSanity .machine hw (tilingMode surf).2 (tilingMode surf).1

theorem r6SurfaceInit_safe (hc : Checked1 s.toParams) : Safe (r6SurfaceInit .machine hw s) ↔
    ((r6Forced hw s).1 = 0 → InBounds 8192 14 (r6Forced hw s).2.2.toParams →
      R6Safe (r6Forced hw s).2.2.toParams (r6Forced hw s).2.1) := by
  have hc₁ : Checked1 (r6Forced hw s).2.2.toParams := hc.remoded (tilingMode_remoded.trans force1d_remoded)
  unfold r6SurfaceInit
  unfold r6Forced at hc₁ ⊢
  dsimp only
  generalize force1d hw.allow2d (tilingMode s).1 (tilingMode s).2 = forced at hc₁ ⊢
  obtain ⟨r, mode, s₁⟩ := forced
  dsimp only at hc₁ ⊢
  by_cases hr : r = 0
  swap
  · rw [if_pos hr]
    exact iff_of_true (safe_ok _) fun h => absurd h hr
  rw [if_neg (not_not.mpr hr)]
  by_cases hpix : 8192 < s₁.npixX ∨ 8192 < s₁.npixY ∨ 8192 < s₁.npixZ
  · rw [if_pos hpix]
    refine iff_of_true (safe_ok _) fun _ ⟨hX, hY, hZ, _⟩ => absurd hpix ?_
    omega
  rw [if_neg hpix]
  by_cases hlast : 14 < s₁.lastLevel
  · rw [if_pos hlast]
    exact iff_of_true (safe_ok _) fun _ ⟨_, _, _, hle⟩ => absurd hlast (Nat.not_lt.mpr hle)
  rw [if_neg hlast, safe_modes]
  have hb : InBounds 8192 14 s₁.toParams := by
    unfold InBounds
    omega
  have hc₂ : Checked2 s₁.toParams := { hc₁ with bounds := by unfold InBounds; omega }
  rw [r6SurfaceInitLinear_safe hc₂, r6SurfaceInitLinearAligned_safe hc₂, r6SurfaceInit1d_safe hc₂ (Nat.zero_le _),
    r6SurfaceInit2d_safe hc₂, r6Safe_iff]
  exact ⟨fun h _ _ => h, fun h => h hr hb⟩

theorem Forced.remoded {allowed : Bool} {mode : Nat} (h : Forced allowed mode s s') : Remoded s s' := by
  rcases h with ⟨-, -, -, rfl⟩ | ⟨-, rfl⟩
  · exact setMode_remoded
  · exact Remoded.refl

theorem egSurfaceInit_safe (hc : Checked1 s.toParams) : Safe (egSurfaceInit .machine hw s) ↔
    ((egChecked hw s).1 = 0 → EgSafe hw (egChecked hw s).2.toParams (tilingMode s).1) := by
  unfold egSurfaceInit egChecked
  dsimp only
  by_cases hr : (egSurfaceSanity .machine hw (tilingMode s).2 (tilingMode s).1).1 = 0
  swap
  · rw [if_pos hr]
    exact iff_of_true (safe_ok _) fun h => absurd h hr
  obtain ⟨hbounds, hforced, -⟩ := egSurfaceSanity_ok hr
  have hc₂ : Checked2 (egSurfaceSanity .machine hw (tilingMode s).2 (tilingMode s).1).2.toParams :=
    { hc.remoded (tilingMode_remoded.trans hforced.remoded) with bounds := hbounds.remoded hforced.remoded }
  rw [if_neg (not_not.mpr hr)]
  generalize (egSurfaceSanity .machine hw (tilingMode s).2 (tilingMode s).1).2 = s₁ at hc₂ ⊢
  obtain ⟨s₂, hs₂, hP⟩ : ∃ s₂ : Surface, s₂ = { s₁ with stencilOffset := 0, boAlignment := 0 } ∧ s₂.toParams = s₁.toParams :=
    ⟨_, rfl, rfl⟩
  rw [← hs₂, ← hP]
  rw [← hP] at hc₂
  rw [safe_modes, r6SurfaceInitLinear_safe hc₂, r6SurfaceInitLinearAligned_safe hc₂, egSurfaceInit1dMiptrees_safe hc₂,
    egSurfaceInit2dMiptrees_safe hc₂, egSafe_iff]
  exact ⟨fun h _ => h, fun h => h hr⟩

/-- A surface that the check of SI or CIK has let through. -/
theorem islandsSanity_checked {depthStencil : Nat} {modes2d : Surface → Checked} {mode : Nat}
    (hretiled : ∀ s, Retiled s (modes2d s).2.1) (hc : Checked1 s.toParams)
    (hr : (islandsSanity hw depthStencil modes2d s mode).1 = 0) :
    Checked2 (islandsSanity hw depthStencil modes2d s mode).2.1.toParams := by
  obtain ⟨hbounds, ⟨-, -, -, heq⟩ | ⟨-, -, heq⟩⟩ := islandsSanity_ok hr
  · rw [heq]
    have hret : Retiled (s.setMode RADEON_SURF_MODE_1D) (defaultTiles (s.setMode RADEON_SURF_MODE_1D)) := defaultTiles_retiled
    exact { (hc.remoded setMode_remoded).retiled hret with bounds := (hbounds.remoded setMode_remoded).retiled hret }
  · rw [heq]
    have hret : Retiled s (tileModes depthStencil modes2d mode (defaultTiles s)).2.1 :=
      (defaultTiles_retiled).trans (tileModes_retiled (hretiled _))
    exact { hc.retiled hret with bounds := hbounds.retiled hret }

/-- The two later families: `entry` is the entry of a tile mode. -/
theorem islandsInit_safe (entry : Params → Nat → TileMode) (to1d : Nat → Option Nat) {depthStencil : Nat}
    {modes2d : Surface → Checked} {miptrees2d : Nat → Nat → Surface → Except Trap (Int × Surface)}
    (hretiled : ∀ s, Retiled s (modes2d s).2.1)
    (h2d : ∀ s tileMode stencilTileMode, Checked2 s.toParams → (Safe (miptrees2d tileMode stencilTileMode s) ↔
      TiledSafe (siDims s.toParams) (entry s.toParams tileMode).numPipes (entry s.toParams tileMode).numBanks
        (islandsBack (to1d tileMode) s.toParams) s.toParams))
    (hc : Checked1 s.toParams) {c : Checked} (hcheck : c = islandsSanity hw depthStencil modes2d (tilingMode s).2 (tilingMode s).1) :
    Safe (islandsInit .machine hw (islandsSanity hw depthStencil modes2d) miptrees2d s) ↔
      (c.1 = 0 → IslandsSafe (entry c.2.1.toParams c.2.2.1) (to1d c.2.2.1) c.2.1.toParams (tilingMode s).1) := by
  unfold islandsInit
  dsimp only
  rw [← hcheck]
  by_cases hr : c.1 = 0
  swap
  · rw [if_pos hr]
    exact iff_of_true (safe_ok _) fun h => absurd h hr
  have hc₂ : Checked2 c.2.1.toParams := by
    rw [hcheck] at hr ⊢
    exact islandsSanity_checked hretiled (hc.remoded tilingMode_remoded) hr
  rw [if_neg (not_not.mpr hr)]
  obtain ⟨r, s₁, tileMode, stencilTileMode⟩ := c
  dsimp only at hc₂ ⊢
  obtain ⟨s₂, hs₂, hP⟩ : ∃ s₂ : Surface, s₂ = { s₁ with stencilOffset := 0, boAlignment := 0 } ∧ s₂.toParams = s₁.toParams :=
    ⟨_, rfl, rfl⟩
  rw [← hs₂, ← hP]
  rw [← hP] at hc₂
  rw [safe_modes, r6SurfaceInitLinear_safe hc₂, siSurfaceInitLinearAligned_safe hc₂, siSurfaceInit1dMiptrees_safe hc₂,
    h2d s₂ tileMode stencilTileMode hc₂, islandsSafe_iff]
  exact ⟨fun h _ => h, fun h => h hr⟩

end Families

/-! ## The interface -/

section Interface

variable {man : SurfaceManager} {surf : Surface}

/-- The numbers that must not be 0 are not 0. -/
def Present (surf : Params) : Prop :=
  surf.npixX ≠ 0 ∧ surf.npixY ≠ 0 ∧ surf.npixZ ≠ 0 ∧ surf.blkW ≠ 0 ∧ surf.blkH ≠ 0 ∧ surf.blkD ≠ 0 ∧ surf.arraySize ≠ 0

/-- What a surface that `radeon_surface_sanity` let through is laid out with, if its family lets it through. -/
def FamilySafe (man : SurfaceManager) (surf : Surface) : Prop :=
  let hw := man.hwInfo
  match man.family.engine with
  | .r6 =>
      let forced := r6Forced hw surf
      forced.1 = 0 → InBounds 8192 14 forced.2.2.toParams → R6Safe forced.2.2.toParams forced.2.1
  | .eg =>
      let checked := egChecked hw surf
      checked.1 = 0 → EgSafe hw checked.2.toParams (tilingMode surf).1
  | .si =>
      let (r, s, tileMode, _) := siChecked hw surf
      r = 0 → IslandsSafe (siGbTileMode (hw.tileModeArray tileMode)) (siTo1d tileMode) s.toParams (tilingMode surf).1
  | .cik =>
      let (r, s, tileMode, _) := cikChecked hw surf
      let entry := cikGet2dParams .machine hw s.bpe s.nsamples (!s.has RADEON_SURF_Z_OR_SBUFFER) tileMode
      r = 0 → IslandsSafe entry (cikTo1d tileMode) s.toParams (tilingMode surf).1

theorem surfaceInit_safe (hc : Checked1 surf.toParams) : Safe (surfaceInit .machine man surf) ↔ FamilySafe man surf := by
  unfold surfaceInit FamilySafe
  cases man.family.engine with
  | r6 => exact r6SurfaceInit_safe hc
  | eg => exact egSurfaceInit_safe hc
  | si =>
      exact islandsInit_safe (fun _ tileMode => siGbTileMode (man.hwInfo.tileModeArray tileMode)) siTo1d
        (fun _ => siTileModes2d_retiled) (fun s tm stm h => siSurfaceInit2dMiptrees_safe h tm stm) hc rfl
  | cik =>
      exact islandsInit_safe
        (fun P tm => cikGet2dParams .machine man.hwInfo P.bpe P.nsamples (!P.has RADEON_SURF_Z_OR_SBUFFER) tm) cikTo1d
        (fun _ => cikTileModes2d_retiled) (fun s tm stm h => cikSurfaceInit2dMiptrees_safe h tm stm) hc rfl

/-- From more than `2^31` the next power of two takes a shift by 32. -/
theorem nextPowerOfTwo_safe {x : Nat} : Safe (nextPowerOfTwo .machine x) ↔ x ≤ 2 ^ 31 := by
  constructor
  · intro hsafe
    unfold nextPowerOfTwo at hsafe
    split at hsafe
    · omega
    · obtain ⟨⟨⟩, hshift, -⟩ := (safe_bind).mp hsafe
      unfold shift machine at hshift
      by_cases hlog : Nat.log2 (x - 1) + 1 < 32
      · have hlt : x - 1 < 2 ^ 31 := (Nat.log2_lt (by omega)).mp (by omega)
        omega
      · simp [hlog] at hshift
  · exact fun hx => ⟨_, nextPowerOfTwo_machine hx⟩

theorem radeonSurfaceSanity_safe (man : SurfaceManager) (surf : Surface) (type : Nat) : Safe (radeonSurfaceSanity .machine man surf type) ↔
    (Present surf.toParams → surf.arraySize ≤ 2 ^ 31) := by
  unfold radeonSurfaceSanity Present
  by_cases hnpix : surf.npixX = 0 ∨ surf.npixY = 0 ∨ surf.npixZ = 0
  · rw [if_pos hnpix]
    exact iff_of_true (safe_ok _) fun h => by omega
  rw [if_neg hnpix]
  by_cases hblk : surf.blkW = 0 ∨ surf.blkH = 0 ∨ surf.blkD = 0
  · rw [if_pos hblk]
    exact iff_of_true (safe_ok _) fun h => by omega
  rw [if_neg hblk]
  by_cases harray : surf.arraySize = 0
  · rw [if_pos harray]
    exact iff_of_true (safe_ok _) fun h => by omega
  rw [if_neg harray, safe_bind_first nextPowerOfTwo_safe fun n => ?_]
  · exact ⟨fun h _ => h, fun h => h (by omega)⟩
  · dsimp only
    split
    · exact safe_ok _
    · split <;> exact safe_ok _

theorem radeonSurfaceSanity_checked {type : Nat} {s : Surface} (h : radeonSurfaceSanity .machine man surf type = .ok (0, s)) :
    Checked1 s.toParams := by
  obtain ⟨hc, -, n, arraySize, -, -, rfl⟩ := radeonSurfaceSanity_ok h
  exact ⟨hc.npixX, hc.npixY, hc.npixZ, hc.blkW, hc.blkH, hc.blkD, hc.nsamples⟩

/-- A surface is laid out without a trap exactly if the size of its array can be rounded up, and nothing that its
    layout divides by is 0. -/
theorem layout_safe (man : SurfaceManager) (surf : Surface) : (∀ trap, radeonSurfaceInit .machine man surf ≠ .error trap) ↔
    (Present surf.toParams → surf.arraySize ≤ 2 ^ 31) ∧
      ∀ s, radeonSurfaceSanity .machine man surf surf.getType = .ok (0, s) → FamilySafe man s := by
  rw [← safe_iff, ← radeonSurfaceSanity_safe man surf surf.getType]
  constructor
  · intro hsafe
    obtain ⟨⟨r, s⟩, hs, hrest⟩ := (safe_bind).mp hsafe
    refine ⟨⟨_, hs⟩, fun s' hs' => ?_⟩
    cases hs.symm.trans hs'
    exact (surfaceInit_safe (radeonSurfaceSanity_checked hs')).mp hrest
  · rintro ⟨⟨⟨r, s⟩, hs⟩, hfamily⟩
    refine (safe_bind_of hs).mpr ?_
    dsimp only
    by_cases hr : r = 0
    · subst hr
      rw [if_neg (not_not.mpr rfl)]
      exact (surfaceInit_safe (radeonSurfaceSanity_checked hs)).mpr (hfamily s hs)
    · rw [if_pos hr]
      exact safe_ok _

theorem pow_bounds {n : Nat} (h : n ∈ [1, 2, 4, 8]) : 1 ≤ n ∧ n ≤ 8 := by
  simp only [List.mem_cons, List.not_mem_nil, or_false] at h
  omega

/-- 300 by 300 pixels in 2D tiles, on an evergreen card whose driver is too old for them, with `mtilea` of 0: the
    checks are passed, and the height of the macro tile is divided by 0. -/
theorem layout_safe_mtilea : ∃ man s, radeonSurfaceManagerNew oldEvergreen = some man ∧
    radeonSurfaceSanity .machine man { Surface.plain 300 300 4 0x301 with mtilea := 0 } RADEON_SURF_TYPE_2D = .ok (0, s) ∧
    (egChecked man.hwInfo s).1 = 0 ∧
    radeonSurfaceInit .machine man { Surface.plain 300 300 4 0x301 with mtilea := 0 } = .error .divisionByZero :=
  ⟨_, _, rfl, rfl, rfl, rfl⟩

end Interface

end LibDrm.Mip
