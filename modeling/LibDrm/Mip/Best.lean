/-
# `LibDrm.Mip.Best` — the tile parameters that the library chooses

`radeon_surface_best` chooses tile parameters for the caller, and `radeon_surface_init` checks
them.  On evergreen the choice passes the check but for two kinds of surfaces with several samples
(`best_accepted_iff`):

    2D tiles      a colour buffer whose tiles have, say, 384 bytes: that is no split
    other modes   the layout asks for 2D tiles, which the choice did not look at
-/
import LibDrm.Mip.Traps

namespace LibDrm.Mip

open Width

/-! ## The choice -/

/-- The loop over the bank heights: doubles `bankh` until the banks fill a group, and stops past 8. -/
def raiseBankh (A : Width) (hw : HwInfo) (tileb bankw : Nat) : Nat → Nat → Nat
  | 0, bankh => bankh
  | n + 1, bankh =>
      if bankh ≤ 8 then
        if hw.groupBytes ≤ A.u32 (tileb * bankh * bankw) then bankh else raiseBankh A hw tileb bankw n (bankh * 2)
      else bankh

/-- `log2_int`, below `2^31`. -/
def log2Int (x : Nat) : Nat := if x < 2 then 0 else ((List.range' 2 30).find? (x < 2 ^ ·)).getD 32 - 1

/-- The splits that the check allows. -/
abbrev splits : List Nat := [64, 128, 256, 512, 1024, 2048, 4096]

/-- The split of a colour buffer with several samples. -/
def msaaSplit (A : Width) (surf : Params) : Nat := min (max (A.u32 (surf.nsamples * surf.bpe * 64)) 256) 4096

/-- `tile_split` and `stencil_tile_split`; `none` for a wrong number of samples. -/
def bestSplits (A : Width) (hw : HwInfo) (surf : Params) : Option (Nat × Nat) :=
  if 1 < surf.nsamples then
    if surf.has RADEON_SURF_Z_OR_SBUFFER then
      if surf.nsamples = 2 ∨ surf.nsamples = 4 then some (128, 64)
      else if surf.nsamples = 8 then some (256, 64)
      else if surf.nsamples = 16 then some (512, 64)
      else none
    else some (msaaSplit A surf, surf.stencilTileSplit)
  else some (hw.rowSize, hw.rowSize / 2)

/-- The bytes of a tile that `bankh` goes by: with a stencil buffer they are those of the stencil. -/
def bestTileb (A : Width) (surf : Params) : Nat :=
  min surf.tileSplit
    (if surf.has RADEON_SURF_SBUFFER then A.u32 (64 * surf.nsamples) else A.u32 (64 * surf.bpe * surf.nsamples))

def bestBankh (A : Width) (hw : HwInfo) (surf : Params) : Nat :=
  let tileb := bestTileb A surf
  raiseBankh A hw tileb surf.bankw 4 (if tileb = 64 then 4 else if tileb = 128 ∨ tileb = 256 then 2 else 1)

def bestMtilea (A : Width) (hw : HwInfo) (bankw bankh : Nat) : Except Trap Nat := do
  let hOverW ← div (A.u32 (bankh * hw.numBanks * 2 ^ 16)) (A.u32 (bankw * hw.numPipes))
  .ok (2 ^ (log2Int (hOverW / 2 ^ 16) / 2))

/-- The values that the first check is made with. -/
def defaultChoice (A : Width) (hw : HwInfo) (surf : Surface) : Surface :=
  { surf with tileSplit := 1024, bankw := 1, mtilea := min hw.numBanks 8
              bankh := raiseBankh A hw (min 1024 (A.u32 (64 * surf.bpe * surf.nsamples))) 1 4 1 }

/-- What a surface in 2D tiles gets. -/
def bestTiles (A : Width) (hw : HwInfo) (surf : Surface) : Except Trap (Int × Surface) :=
  match bestSplits A hw surf.toParams with
  | none => .ok (-EINVAL, surf)
  | some (tileSplit, stencilTileSplit) => do
      let surf := { surf with tileSplit := tileSplit, stencilTileSplit := stencilTileSplit, bankw := 1 }
      let surf := { surf with bankh := bestBankh A hw surf.toParams }
      let mtilea ← bestMtilea A hw surf.bankw surf.bankh
      .ok (0, { surf with mtilea := mtilea })

/-- The mode is that of before the check. -/
def egSurfaceBest (A : Width) (hw : HwInfo) (surf : Surface) : Except Trap (Int × Surface) :=
  let (r, checked) := egSurfaceSanity A hw (defaultChoice A hw surf) surf.getMode
  if r ≠ 0 then .ok (r, checked)
  else if surf.getMode ≠ RADEON_SURF_MODE_2D then .ok (0, checked)
  else bestTiles A hw checked

/-- `radeon_surface_best` of an evergreen card. -/
def radeonSurfaceBest (A : Width) (man : SurfaceManager) (surf : Surface) : Except Trap (Int × Surface) := do
  let (r, surf) ← radeonSurfaceSanity A man surf surf.getType
  if r ≠ 0 then .ok (r, surf) else egSurfaceBest A man.hwInfo surf

/-! ## The card -/

theorem pick_mem (table : List Nat) (unknown code : Nat) : (pick table unknown code).1 ∈ unknown :: table := by
  unfold pick
  split
  · exact List.mem_cons_of_mem _ (List.mem_of_getElem? ‹_›)
  · exact List.mem_cons_self

/-- The parameters that an evergreen card can report. -/
structure HwInfo.Known (hw : HwInfo) : Prop where
  pipes : hw.numPipes ∈ [8, 1, 2, 4, 8]
  banks : hw.numBanks ∈ [8, 4, 8, 16]
  group : hw.groupBytes ∈ [256, 256, 512]
  row : hw.rowSize ∈ [4096, 1024, 2048, 4096]

theorem radeonSurfaceManagerNew_known {k : Kernel} {man : SurfaceManager} (h : radeonSurfaceManagerNew k = some man)
    (hengine : man.family.engine = .eg) : man.hwInfo.Known := by
  unfold radeonSurfaceManagerNew at h
  obtain ⟨family, -, h⟩ := Option.bind_eq_some_iff.mp h
  obtain ⟨tilingConfig, -, h⟩ := Option.bind_eq_some_iff.mp h
  cases h
  dsimp only at hengine ⊢
  rw [hengine]
  exact ⟨pick_mem .., pick_mem .., pick_mem .., pick_mem ..⟩

variable {hw : HwInfo} {s s' : Surface}

/-! ## The checks -/

/-- What the check of evergreen comes to. -/
theorem egSurfaceSanity_iff {A : Width} {mode : Nat} : (egSurfaceSanity A hw s mode).1 = 0 ↔
    InBounds 16384 15 s.toParams ∧ (hw.allow2d = true ∨ mode ≤ RADEON_SURF_MODE_1D ∨ ¬ 1 < s.nsamples) ∧
      (hw.allow2d = true → mode = RADEON_SURF_MODE_2D → EgTiles A hw s.toParams) := by
  constructor
  · intro h
    obtain ⟨hbounds, hforced, htiles⟩ := egSurfaceSanity_ok h
    refine ⟨hbounds, ?_, htiles⟩
    rcases hforced with ⟨-, -, hns, -⟩ | ⟨hallow | hmode, -⟩
    · exact .inr (.inr hns)
    · exact .inl hallow
    · exact .inr (.inl hmode)
  · rintro ⟨⟨hx, hy, hz, hlevel⟩, hallow, htiles⟩
    unfold egSurfaceSanity
    rw [if_neg (by omega), if_neg (by omega)]
    by_cases hforce : ¬ hw.allow2d ∧ RADEON_SURF_MODE_1D < mode
    · have hns := (hallow.resolve_left hforce.1).resolve_left (Nat.not_le.mpr hforce.2)
      rw [force1d, if_pos hforce, if_neg hns]
      rfl
    · rw [force1d, if_neg hforce]
      dsimp only
      rw [if_neg (not_not.mpr rfl)]
      by_cases h2d : mode = RADEON_SURF_MODE_2D
      · have ht := htiles (not_not.mp fun hno => hforce ⟨hno, by rw [h2d]; decide⟩) h2d
        rw [if_pos h2d, if_neg (not_not.mpr ht.tileSplit), if_neg (not_not.mpr ht.mtilea),
          if_neg (Nat.not_lt.mpr ht.aspect), if_neg (not_not.mpr ht.bankw), if_neg (not_not.mpr ht.bankh),
          if_neg (Nat.not_lt.mpr ht.group)]
      · rw [if_neg h2d]

/-- A surface with several samples is asked for in 2D. -/
theorem tilingMode_msaa (h : 1 < s.nsamples) : (tilingMode s).1 = RADEON_SURF_MODE_2D := by
  unfold tilingMode
  rw [msaaMode, if_pos h, depthMode_eq_2d]
  exact setMode_getMode (by decide)

/-- Only the mode in the flags is different. -/
theorem Remoded.egTiles (h : Remoded s s') : EgTiles .machine hw s'.toParams ↔ EgTiles .machine hw s.toParams := by
  rw [h.eq]
  exact ⟨fun h => ⟨h.tileSplit, h.mtilea, h.aspect, h.bankw, h.bankh, h.group⟩,
    fun h => ⟨h.tileSplit, h.mtilea, h.aspect, h.bankw, h.bankh, h.group⟩⟩

/-- The check that the layout makes, in terms of the surface that it is given. -/
theorem egChecked_iff : (egChecked hw s).1 = 0 ↔ InBounds 16384 15 s.toParams ∧
    (1 < s.nsamples → hw.allow2d = true) ∧
    (hw.allow2d = true → (1 < s.nsamples ∨ s.getMode = RADEON_SURF_MODE_2D) → EgTiles .machine hw s.toParams) := by
  have hmode : (tilingMode s).1 = RADEON_SURF_MODE_2D ↔ 1 < s.nsamples ∨ s.getMode = RADEON_SURF_MODE_2D := by
    by_cases hns : 1 < s.nsamples
    · exact iff_of_true (tilingMode_msaa hns) (.inl hns)
    · rw [tilingMode_eq_2d hns, or_iff_right hns]
  have hr : Remoded s (tilingMode s).2 := tilingMode_remoded
  have hbounds : InBounds 16384 15 (tilingMode s).2.toParams ↔ InBounds 16384 15 s.toParams := by rw [hr.eq]; rfl
  unfold egChecked
  rw [egSurfaceSanity_iff, hbounds, hmode, hr.egTiles, hr.nsamples]
  refine and_congr_right fun _ => and_congr_left fun _ => ?_
  by_cases hns : 1 < s.nsamples
  · have hle : ¬ (tilingMode s).1 ≤ RADEON_SURF_MODE_1D := by rw [tilingMode_msaa hns]; decide
    simp only [hns, hle, not_true, or_false, forall_const]
  · exact iff_of_true (.inr (.inr hns)) fun h => absurd h hns

/-! ## The banks -/

theorem raiseBankh_spec {tileb : Nat} (hfits : hw.groupBytes ≤ tileb * 8) (hlt : tileb < 2 ^ 28) (n : Nat) {bankh : Nat}
    (hb : bankh ∈ [1, 2, 4, 8]) (hn : 8 < bankh * 2 ^ n) : raiseBankh .machine hw tileb 1 n bankh ∈ [1, 2, 4, 8] ∧
      hw.groupBytes ≤ tileb * raiseBankh .machine hw tileb 1 n bankh := by
  induction n generalizing bankh with
  | zero =>
      obtain ⟨-, hle⟩ := pow_bounds hb
      omega
  | succ n ih =>
      obtain ⟨hpos, hle⟩ := pow_bounds hb
      have hmul : tileb * bankh ≤ tileb * 8 := Nat.mul_le_mul_left _ hle
      rw [raiseBankh, if_pos hle, Nat.mul_one, machine_u32 (by omega)]
      by_cases hfull : hw.groupBytes ≤ tileb * bankh
      · rw [if_pos hfull]
        exact ⟨hb, hfull⟩
      · have hne : bankh ≠ 8 := fun heq => hfull (heq ▸ hfits)
        rw [if_neg hfull]
        refine ih ?_ (by rwa [Nat.mul_assoc, ← Nat.pow_succ'])
        simp only [List.mem_cons, List.not_mem_nil, or_false] at hb ⊢
        omega

/-- The aspect stands in the table of the check, and is at most the number of banks. -/
theorem bestMtilea_spec (hk : hw.Known) {bankh m : Nat} (hb : bankh ∈ [1, 2, 4, 8])
    (hm : bestMtilea .machine hw 1 bankh = .ok m) : m ∈ [1, 2, 4, 8] ∧ m ≤ hw.numBanks := by
  have htable : ∀ pipes ∈ [8, 1, 2, 4, 8], ∀ banks ∈ [8, 4, 8, 16], ∀ bankh ∈ [1, 2, 4, 8],
      let m := 2 ^ (log2Int (machine.u32 (bankh * banks * 2 ^ 16) / machine.u32 (1 * pipes) / 2 ^ 16) / 2)
      m ∈ [1, 2, 4, 8] ∧ m ≤ banks := by decide
  obtain ⟨q, hq, hm⟩ := exists_of_bind_ok hm
  obtain ⟨-, rfl⟩ := div_ok hq
  cases hm
  exact htable _ hk.pipes _ hk.banks _ hb

/-! ## The choice fits -/

/-- The bytes of a tile are those of all its samples. -/
theorem tileb_ge {bpe nsamples : Nat} (hns : nsamples ∈ [1, 2, 4, 8]) (h : machine.u32 (64 * bpe * nsamples) ≠ 0) :
    64 * nsamples ≤ machine.u32 (64 * bpe * nsamples) := by
  change 64 * bpe * nsamples % 2 ^ 32 ≠ 0 at h
  show 64 * nsamples ≤ 64 * bpe * nsamples % 2 ^ 32
  simp only [List.mem_cons, List.not_mem_nil, or_false] at hns
  rcases hns with rfl | rfl | rfl | rfl
  all_goals omega

/-- Banks that were raised to a tile which is no larger than that of the check leave the split to be checked. -/
theorem tiles_iff {P : Params} (hk : hw.Known) {tileb start : Nat} (htileb : 64 ≤ tileb)
    (hle : tileb ≤ min P.tileSplit (machine.u32 (64 * P.bpe * P.nsamples))) (hsplit : P.tileSplit ≤ 4096)
    (hstart : start ∈ [1, 2, 4, 8]) (hbankw : P.bankw = 1) (hbankh : P.bankh = raiseBankh .machine hw tileb 1 4 start)
    (hmtilea : P.bankh ∈ [1, 2, 4, 8] → P.mtilea ∈ [1, 2, 4, 8] ∧ P.mtilea ≤ hw.numBanks) :
    EgTiles .machine hw P ↔ P.tileSplit ∈ splits := by
  have htable : ∀ group ∈ [256, 256, 512], group ≤ 64 * 8 := by decide
  have hfits : hw.groupBytes ≤ tileb * 8 := (htable _ hk.group).trans (Nat.mul_le_mul_right 8 htileb)
  obtain ⟨hpos, -⟩ := pow_bounds hstart
  obtain ⟨hmem, hfull⟩ := raiseBankh_spec hfits (by omega) 4 hstart (by omega)
  rw [← hbankh] at hmem hfull
  obtain ⟨hm, haspect⟩ := hmtilea hmem
  refine ⟨EgTiles.tileSplit, fun hs => ⟨hs, hm, haspect, by rw [hbankw]; decide, hmem, ?_⟩⟩
  obtain ⟨-, h8⟩ := pow_bounds hmem
  have hmul := Nat.mul_le_mul_right P.bankh hle
  have hsmall : min P.tileSplit (machine.u32 (64 * P.bpe * P.nsamples)) * P.bankh ≤ 4096 * 8 :=
    Nat.mul_le_mul ((Nat.min_le_left _ _).trans hsplit) h8
  rw [hbankw, Nat.mul_one, machine_u32 (by omega)]
  exact hfull.trans hmul

/-- The first values pass the check unless a tile has no bytes. -/
theorem defaultChoice_tiles (hk : hw.Known) (hns : s.nsamples ∈ [1, 2, 4, 8]) :
    EgTiles .machine hw (defaultChoice .machine hw s).toParams ↔ machine.u32 (64 * s.bpe * s.nsamples) ≠ 0 := by
  by_cases hzero : machine.u32 (64 * s.bpe * s.nsamples) = 0
  · refine iff_of_false (fun h => ?_) (not_not.mpr hzero)
    -- a tile without bytes fills no group
    have hg := h.group
    change hw.groupBytes ≤ machine.u32 (min 1024 (machine.u32 (64 * s.bpe * s.nsamples)) * _ * 1) at hg
    rw [hzero, Nat.min_zero, Nat.zero_mul, Nat.zero_mul] at hg
    have hgroup := hk.group
    rw [Nat.le_zero.mp hg] at hgroup
    exact absurd hgroup (by decide)
  · have hsplit : 1024 ∈ splits := by decide
    refine iff_of_true ((tiles_iff hk ?_ (Nat.le_refl _) (show 1024 ≤ 4096 by decide) (show 1 ∈ [1, 2, 4, 8] by decide)
      rfl rfl fun _ => ?_).mpr hsplit) hzero
    · have hge := tileb_ge hns hzero
      have hns := pow_bounds hns
      show 64 ≤ min 1024 (machine.u32 (64 * s.bpe * s.nsamples))
      omega
    · have htable : ∀ banks ∈ [8, 4, 8, 16], min banks 8 ∈ [1, 2, 4, 8] ∧ min banks 8 ≤ banks := by decide
      exact htable _ hk.banks

theorem bestSplits_spec {P : Params} (hk : hw.Known) {t st : Nat} (h : bestSplits .machine hw P = some (t, st)) :
    64 ≤ t ∧ t ≤ 4096 ∧
      (t ∈ splits ↔ (1 < P.nsamples → P.has RADEON_SURF_Z_OR_SBUFFER = true ∨ msaaSplit .machine P ∈ splits)) := by
  unfold bestSplits at h
  by_cases hns : 1 < P.nsamples
  · rw [if_pos hns] at h
    by_cases hz : P.has RADEON_SURF_Z_OR_SBUFFER = true
    · rw [if_pos hz] at h
      have ht : t ∈ [128, 256, 512] := by split_ifs at h <;> cases h <;> decide
      have hall : ∀ t ∈ [128, 256, 512], 64 ≤ t ∧ t ≤ 4096 ∧ t ∈ splits := by decide
      obtain ⟨h₁, h₂, h₃⟩ := hall t ht
      exact ⟨h₁, h₂, iff_of_true h₃ fun _ => .inl hz⟩
    · rw [if_neg hz] at h
      cases h
      exact ⟨by unfold msaaSplit; omega, Nat.min_le_right _ _, fun h _ => .inr h, fun h => (h hns).resolve_left hz⟩
  · rw [if_neg hns] at h
    cases h
    have hall : ∀ row ∈ [4096, 1024, 2048, 4096], 64 ≤ row ∧ row ≤ 4096 ∧ row ∈ splits := by decide
    obtain ⟨h₁, h₂, h₃⟩ := hall _ hk.row
    exact ⟨h₁, h₂, iff_of_true h₃ fun h => absurd h hns⟩

/-- The choice for 2D tiles passes the check where its split does, and changes nothing else that is checked. -/
theorem bestTiles_spec (hk : hw.Known) (h : bestTiles .machine hw s = .ok (0, s')) (hns : s.nsamples ∈ [1, 2, 4, 8]) :
    s'.flags = s.flags ∧ s'.nsamples = s.nsamples ∧ (InBounds 16384 15 s.toParams → InBounds 16384 15 s'.toParams) ∧
      (machine.u32 (64 * s.bpe * s.nsamples) ≠ 0 → (EgTiles .machine hw s'.toParams ↔
        (1 < s.nsamples → s.has RADEON_SURF_Z_OR_SBUFFER = true ∨ msaaSplit .machine s.toParams ∈ splits))) := by
  unfold bestTiles at h
  split at h
  · cases h
  next t st hsplits =>
  obtain ⟨m, hm, h⟩ := exists_of_bind_ok h
  cases h
  refine ⟨rfl, rfl, id, fun hx => ?_⟩
  obtain ⟨hge, hle, hiff⟩ := bestSplits_spec hk hsplits
  have hx := tileb_ge hns hx
  have hpos := pow_bounds hns
  have hstencil : machine.u32 (64 * s.nsamples) = 64 * s.nsamples := machine_u32 (by omega)
  have hstart : ∀ tileb, (if tileb = 64 then 4 else if tileb = 128 ∨ tileb = 256 then 2 else 1) ∈ [1, 2, 4, 8] := by
    intro tileb
    split_ifs <;> decide
  refine (tiles_iff hk ?_ ?_ hle (hstart _) rfl rfl fun hb => bestMtilea_spec hk hb hm).trans hiff
  · show 64 ≤ min t (if s.has RADEON_SURF_SBUFFER then machine.u32 (64 * s.nsamples) else _)
    split
    · omega
    · show 64 ≤ min t (machine.u32 (64 * s.bpe * s.nsamples))
      omega
  · refine le_min (Nat.min_le_left _ _) ((Nat.min_le_right _ _).trans ?_)
    split
    · exact hstencil.trans_le hx
    · exact Nat.le_refl _

/-! ## The choice is accepted -/

/-- The surfaces with several samples whose choice passes the check. -/
def Suits (hw : HwInfo) (surf : Params) : Prop :=
  if surf.getMode = RADEON_SURF_MODE_2D
  then surf.has RADEON_SURF_Z_OR_SBUFFER = true ∨ msaaSplit .machine surf ∈ splits
  else hw.allow2d = true ∧ machine.u32 (64 * surf.bpe * surf.nsamples) ≠ 0

theorem egSurfaceBest_iff (hk : hw.Known) (h : egSurfaceBest .machine hw s = .ok (0, s')) (hns : s.nsamples ∈ [1, 2, 4, 8]) :
    (egChecked hw s').1 = 0 ↔ (1 < s.nsamples → Suits hw s.toParams) := by
  cases hc : egSurfaceSanity .machine hw (defaultChoice .machine hw s) s.getMode with
  | mk r c =>
  rw [egSurfaceBest, hc] at h
  dsimp only at h
  by_cases hr : r = 0
  swap
  · rw [if_pos hr] at h
    cases h
    exact absurd rfl hr
  rw [if_neg (not_not.mpr hr)] at h
  have hzero : (egSurfaceSanity .machine hw (defaultChoice .machine hw s) s.getMode).1 = 0 := by rw [hc, hr]
  obtain ⟨hbounds, hforced, htiles⟩ := egSurfaceSanity_ok hzero
  obtain ⟨-, hallow, -⟩ := egSurfaceSanity_iff.mp hzero
  rw [hc] at hforced
  rw [egChecked_iff]
  rcases hforced with ⟨hno, -, hns₁, rfl⟩ | ⟨-, rfl⟩
  · -- 2D tiles are not allowed, and one sample is laid out in 1D
    have hone : ¬ 1 < s'.nsamples ∧ InBounds 16384 15 s'.toParams := by
      by_cases h2d : s.getMode = RADEON_SURF_MODE_2D
      · rw [if_neg (not_not.mpr h2d)] at h
        obtain ⟨-, hsame, hin, -⟩ := bestTiles_spec hk h hns
        exact ⟨hsame ▸ hns₁, hin hbounds⟩
      · rw [if_pos h2d] at h
        cases h
        exact ⟨hns₁, hbounds⟩
    refine iff_of_true ⟨hone.2, fun h => absurd h hone.1, fun hyes => ?_⟩ fun h => absurd h hns₁
    rw [hno] at hyes
    cases hyes
  · have hdefault := defaultChoice_tiles hk hns
    by_cases h2d : s.getMode = RADEON_SURF_MODE_2D
    · rw [if_neg (not_not.mpr h2d)] at h
      obtain ⟨hflags, hsame, hin, htuned⟩ := bestTiles_spec hk h hns
      have hmode : s'.getMode = RADEON_SURF_MODE_2D := by rw [Params.getMode, hflags]; exact h2d
      rw [and_iff_right (hin hbounds), hsame, Suits, if_pos h2d]
      cases hyes : hw.allow2d with
      | true =>
          refine Iff.trans ?_ (htuned (hdefault.mp (htiles hyes h2d)))
          exact ⟨fun h => h.2 rfl (.inr hmode), fun h => ⟨fun _ => rfl, fun _ _ => h⟩⟩
      | false =>
          have hone : ¬ 1 < s.nsamples := (hallow.resolve_left (by rw [hyes]; decide)).resolve_left (by rw [h2d]; decide)
          exact iff_of_true ⟨fun h => absurd h hone, fun h => (by cases h)⟩ fun h => absurd h hone
    · rw [if_pos h2d] at h
      cases h
      rw [and_iff_right hbounds, Suits, if_neg h2d, hdefault]
      exact ⟨fun h hlt => ⟨h.1 hlt, h.2 (h.1 hlt) (.inl hlt)⟩,
        fun h => ⟨fun hlt => (h hlt).1, fun _ hor => (h (hor.resolve_right h2d)).2⟩⟩

/-- Whenever `radeon_surface_best` accepts a surface of an evergreen card, the check of a following layout accepts its
    choice exactly if the surface has one sample, or suits. -/
theorem best_accepted_iff {k : Kernel} {man : SurfaceManager} (hman : radeonSurfaceManagerNew k = some man)
    (hengine : man.family.engine = .eg) {surf surf' : Surface} (h : radeonSurfaceBest .machine man surf = .ok (0, surf')) :
    (egChecked man.hwInfo surf').1 = 0 ↔ (1 < surf.nsamples → Suits man.hwInfo surf.toParams) := by
  obtain ⟨⟨r, s⟩, hs, h⟩ := exists_of_bind_ok h
  dsimp only at h
  by_cases hr : r = 0
  · subst hr
    obtain ⟨hc, -, n, arraySize, -, -, rfl⟩ := radeonSurfaceSanity_ok hs
    rw [if_neg (not_not.mpr rfl)] at h
    exact (egSurfaceBest_iff (radeonSurfaceManagerNew_known hman hengine) h hc.nsamples :)
  · rw [if_pos hr] at h
    cases h
    exact absurd rfl hr

/-- 2D tiles of two samples with three bytes each: the split is of 384 bytes. -/
theorem best_accepted_iff_rgb : ∃ man surf', radeonSurfaceManagerNew { oldEvergreen with versionMinor := some 16 } = some man ∧
    radeonSurfaceBest .machine man { Surface.plain 300 300 3 0x301 with nsamples := 2 } = .ok (0, surf') ∧
    surf'.tileSplit = 384 ∧ (egChecked man.hwInfo surf').1 ≠ 0 := by
  refine ⟨_, _, rfl, rfl, rfl, mt (best_accepted_iff (k := { oldEvergreen with versionMinor := some 16 }) rfl rfl (show
    radeonSurfaceBest .machine _ { Surface.plain 300 300 3 0x301 with nsamples := 2 } = .ok (0, _) from rfl)).mp fun h => ?_⟩
  refine absurd (h (by decide)) ?_
  unfold Suits
  decide

end LibDrm.Mip
