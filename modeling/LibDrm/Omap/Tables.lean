/-
# `LibDrm.Omap.Tables` — the tables of omap, step by step

Objects are put into their tables (`addDev`, `addBo`), taken out of them (`unlistDev`,
`unlistBo`) and freed (`freeDev`, `freeBo`).  A handle is open from the kernel's answer until its
buffer is taken out of the table.
-/
import LibDrm.Omap.Stages

namespace LibDrm.Omap

open Life (Stage)

variable {σ σ' : Threads} {d : DevId} {b : BoId} {dev : Device} {bo : Bo} {table : HandleTable} {handle : Handle}
  {pc : Pc} {rest : List Pc}

/-! ## Open handles -/

theorem setOpened_iff {fd fd' : Fd} {handle' : Handle} {open_ : Bool} :
    (σ.setOpened fd handle open_).opened fd' handle' =
      if fd' = fd ∧ handle' = handle then open_ else σ.opened fd' handle' := by
  show Function.update σ.opened fd (Function.update (σ.opened fd) handle open_) fd' handle' = _
  by_cases hfd : fd' = fd
  · subst hfd
    rw [Function.update_self, Function.update_apply]
    exact if_congr (by simp) rfl rfl
  · rw [Function.update_of_ne hfd, if_neg fun hand => hfd hand.1]

/-- A handle that is opened, or a handle that nobody has to do with. -/
theorem Inv.setOpened {fd : Fd} {open_ : Bool} (h : Inv σ)
    (hlisted : ∀ {b bo dev}, σ.bo b = some bo → σ.boListed b = true → σ.dev bo.dev = some dev → dev.fd = fd →
      bo.handle = handle → open_ = true)
    (hbrings : ∀ {d dev}, 0 < σ.tally (Pc.brings d handle) → σ.dev d = some dev → dev.fd = fd → open_ = true) :
    Inv (σ.setOpened fd handle open_) := by
  refine ⟨h.devStage, h.boStage, h.devEntry, h.boEntry, h.table, h.handle, ?_, ?_, h.once, h.freshDev, h.freshBo⟩
  · intro b bo dev hbo hl hdev
    rw [setOpened_iff]
    split
    · next heq => exact hlisted hbo hl hdev heq.1 heq.2
    · exact h.opened hbo hl hdev
  · intro d handle' hpos
    obtain ⟨hzero, hopened, htable⟩ := h.brought hpos
    refine ⟨hzero, fun dev hdev => ?_, htable⟩
    rw [setOpened_iff]
    split
    · next heq =>
      obtain ⟨hfd, rfl⟩ := heq
      exact hbrings hpos hdev hfd
    · exact hopened dev hdev

theorem Inv.open (h : Inv σ) {fd : Fd} : Inv (σ.setOpened fd handle true) :=
  h.setOpened (fun _ _ _ _ _ => rfl) fun _ _ _ => rfl

theorem Inv.liveDev_of_brings (h : Inv σ) (hpos : 0 < σ.tally (Pc.brings d handle)) :
    ∃ dev table, LiveDev d dev table σ := by
  have hle : σ.tally (Pc.brings d handle) ≤ σ.tally (Pc.ownsDev d) := by
    refine List.countP_mono_left fun pc _ hbrings => ?_
    cases pc with
    | boNew d' handle' => exact decide_eq_true (of_decide_eq_true hbrings).1
    | _ => cases hbrings
  refine h.liveDev ?_
  unfold Threads.devRefs
  omega

/-- A handle that is in no table and that no call has is closed. -/
theorem Inv.close (h : Inv σ) (hd : LiveDev d dev table σ) (hnone : table handle = none)
    (hbrings : σ.tally (Pc.brings d handle) = 0) : Inv (σ.setOpened dev.fd handle false) := by
  refine h.setOpened ?_ ?_
  · intro b bo dev' hbo hl hdev hfd hhandle
    obtain ⟨dev'', table', hd', hentry⟩ := h.liveDev_of_listed hbo hl
    cases hdev.symm.trans hd'.memory
    obtain rfl := hd'.eq hd hfd
    cases hd.table.symm.trans hd'.table
    rw [hhandle, hnone] at hentry
    cases hentry
  · intro c dev' hpos hdev hfd
    obtain ⟨dev'', table', hd'⟩ := h.liveDev_of_brings hpos
    cases hdev.symm.trans hd'.memory
    obtain rfl := hd'.eq hd hfd
    exact absurd hbrings (Nat.ne_of_gt hpos)

/-! ## Stages that are as they were -/

theorem devLife_congr (hdev : σ'.dev d = σ.dev d) (hrefcnt : σ'.devRefcnt d = σ.devRefcnt d)
    (hlisted : σ'.devListed d = σ.devListed d) (hrefs : σ'.devRefs d = σ.devRefs d)
    (hwaiting : σ'.tally (Pc.devWaits d) = σ.tally (Pc.devWaits d))
    (hleaving : σ'.tally (Pc.devLeaves d) = σ.tally (Pc.devLeaves d)) (hfrees : σ'.devFrees d = σ.devFrees d) :
    σ'.devLife d = σ.devLife d := by
  simp only [Threads.devLife, hdev, hrefcnt, hlisted, hrefs, hwaiting, hleaving, hfrees]

theorem boLife_congr (hbo : σ'.bo b = σ.bo b) (hrefcnt : σ'.boRefcnt b = σ.boRefcnt b)
    (hlisted : σ'.boListed b = σ.boListed b) (hrefs : σ'.boRefs b = σ.boRefs b)
    (hwaiting : σ'.tally (Pc.boWaits b) = σ.tally (Pc.boWaits b))
    (hleaving : σ'.tally (Pc.boLeaves b) = σ.tally (Pc.boLeaves b)) (hfrees : σ'.boFrees b = σ.boFrees b) :
    σ'.boLife b = σ.boLife b := by
  simp only [Threads.boLife, hbo, hrefcnt, hlisted, hrefs, hwaiting, hleaving, hfrees]

theorem devRefs_congr (hfresh : σ'.freshBo = σ.freshBo) (hcallers : σ'.devCallers d = σ.devCallers d)
    (howned : σ'.tally (Pc.ownsDev d) = σ.tally (Pc.ownsDev d)) (hholds : ∀ x, σ'.holds d x = σ.holds d x) :
    σ'.devRefs d = σ.devRefs d := by
  rw [Threads.devRefs, Threads.devRefs, hfresh, hcallers, howned, List.countP_congr fun x _ => by rw [hholds]]

theorem boRefs_congr (hcallers : σ'.boCallers b = σ.boCallers b)
    (howned : σ'.tally (Pc.ownsBo b) = σ.tally (Pc.ownsBo b)) : σ'.boRefs b = σ.boRefs b := by
  rw [Threads.boRefs, Threads.boRefs, hcallers, howned]

theorem tally_first {p : Pc → Bool} (hcalls : σ.calls = pc :: rest) :
    σ.tally p = rest.countP p + if p pc then 1 else 0 := by
  rw [Threads.tally, hcalls, List.countP_cons]

theorem tally_counted {p : Pc → Bool} (hcalls : σ.calls = pc :: rest) (hp : p pc = true) :
    σ.tally p = rest.countP p + 1 := by
  rw [tally_first hcalls, if_pos hp]

theorem tally_pos {p : Pc → Bool} (hcalls : σ.calls = pc :: rest) (hp : p pc = true) : 0 < σ.tally p := by
  rw [tally_counted hcalls hp]
  exact Nat.succ_pos _

/-- The first call has gone on to a place that counts as the one before. -/
theorem tally_next {p : Pc → Bool} {pc' : Pc} (hcalls : σ.calls = pc :: rest) (hcalls' : σ'.calls = pc' :: rest)
    (hp : p pc' = p pc) : σ'.tally p = σ.tally p := by
  rw [tally_first hcalls', tally_first hcalls, hp]

/-! ## A new device -/

/-- `omap_device_new` of a file descriptor that has no device. -/
def Threads.withDev (fd : Fd) (σ : Threads) : Threads :=
  { σ with
    dev := Function.update σ.dev σ.freshDev (some { fd }), devRefcnt := Function.update σ.devRefcnt σ.freshDev 1
    handleTable := Function.update σ.handleTable σ.freshDev (some fun _ => none)
    devTable := Function.update σ.devTable fd (some (some σ.freshDev)), freshDev := σ.freshDev + 1 }

theorem Inv.ne_freshDev (h : Inv σ) (hdev : σ.dev d = some dev) : d ≠ σ.freshDev := by
  rintro rfl
  rw [(h.freshDev (Nat.le_refl _)).1] at hdev
  cases hdev

section NewDev

variable {fd : Fd}

/-- `withDev`, with the reference of the caller. -/
def Threads.addDev (fd : Fd) (σ : Threads) : Threads := (σ.withDev fd).takeDev σ.freshDev

theorem addDev_dev (hd : d ≠ σ.freshDev) : (σ.addDev fd).dev d = σ.dev d := Function.update_of_ne hd _ _

theorem addDev_dev_self : (σ.addDev fd).dev σ.freshDev = some { fd } := Function.update_self ..

theorem addDev_table (hd : d ≠ σ.freshDev) : (σ.addDev fd).handleTable d = σ.handleTable d :=
  Function.update_of_ne hd _ _

theorem addDev_table_self : (σ.addDev fd).handleTable σ.freshDev = some fun _ => none := Function.update_self ..

theorem addDev_entry : (σ.addDev fd).devTable fd = some (some σ.freshDev) := Function.update_self ..

theorem addDev_devListed (hnone : σ.devTable fd = none) (hd : d ≠ σ.freshDev) :
    (σ.addDev fd).devListed d = σ.devListed d := by
  rw [Bool.eq_iff_iff, devListed_iff, devListed_iff, addDev_dev hd]
  refine exists_congr fun dev => and_congr_right fun _ => ?_
  show Function.update σ.devTable fd _ dev.fd = _ ↔ _
  rw [Function.update_apply]
  split
  · next heq =>
    rw [heq, hnone]
    simp [hd.symm]
  · exact Iff.rfl

theorem Inv.listed_ne_freshDev (h : Inv σ) (hbo : σ.bo b = some bo) (hl : σ.boListed b = true) :
    bo.dev ≠ σ.freshDev := by
  obtain ⟨dev, _, hd, -⟩ := h.liveDev_of_listed hbo hl
  exact h.ne_freshDev hd.memory

theorem Inv.addDev_boListed (h : Inv σ) : (σ.addDev fd).boListed b = σ.boListed b := by
  rw [Bool.eq_iff_iff]
  constructor
  · intro hl
    obtain ⟨bo, table, hbo, htab, hb⟩ := (boListed_iff).mp hl
    have hne : bo.dev ≠ σ.freshDev := by
      intro heq
      rw [heq, addDev_table_self] at htab
      cases htab
      cases hb
    rw [addDev_table hne] at htab
    exact (boListed_iff).mpr ⟨bo, table, hbo, htab, hb⟩
  · intro hl
    obtain ⟨bo, table, hbo, htab, hb⟩ := (boListed_iff).mp hl
    exact (boListed_iff).mpr ⟨bo, table, hbo, (addDev_table (h.listed_ne_freshDev hbo hl)).trans htab, hb⟩

theorem Inv.addDev_devStage (h : Inv σ) (hnone : σ.devTable fd = none) (c : DevId) :
    Stage ((σ.addDev fd).devLife c) := by
  rcases eq_or_ne c σ.freshDev with rfl | hc
  · obtain ⟨hnodev, hnofrees⟩ := h.freshDev (Nat.le_refl σ.freshDev)
    refine (h.devStage σ.freshDev).born ?_ hnofrees ?_ (devListed_iff.mpr ⟨_, addDev_dev_self, addDev_entry⟩) ?_
      rfl rfl rfl
    · show (σ.dev σ.freshDev).map _ = none
      rw [hnodev]
      rfl
    · show ((σ.addDev fd).dev σ.freshDev).map _ = some 1
      rw [addDev_dev_self]
      exact congrArg some (Function.update_self ..)
    · show Function.update σ.devCallers σ.freshDev (σ.devCallers σ.freshDev + 1) σ.freshDev +
        σ.tally (Pc.ownsDev σ.freshDev) + (List.range σ.freshBo).countP (σ.holds σ.freshDev) = σ.devRefs σ.freshDev + 1
      rw [Function.update_self]
      unfold Threads.devRefs
      omega
  · have hlife : (σ.addDev fd).devLife c = σ.devLife c :=
      devLife_congr (addDev_dev hc) (Function.update_of_ne hc _ _) (addDev_devListed hnone hc)
        (devRefs_congr rfl (Function.update_of_ne hc _ _) rfl fun _ => rfl) rfl rfl rfl
    rw [hlife]
    exact h.devStage c

theorem Inv.addDev (h : Inv σ) (hnone : σ.devTable fd = none) : Inv ((σ.withDev fd).takeDev σ.freshDev) := by
  show Inv (σ.addDev fd)
  constructor
  case devStage => exact h.addDev_devStage hnone
  case boStage =>
    intro x
    have hlife : (σ.addDev fd).boLife x = σ.boLife x := boLife_congr rfl rfl h.addDev_boListed rfl rfl rfl rfl
    rw [hlife]
    exact h.boStage x
  case devEntry =>
    intro fd' c hc
    by_cases hfd : fd' = fd
    · subst hfd
      cases addDev_entry.symm.trans hc
      exact ⟨_, addDev_dev_self, rfl⟩
    · have hold : σ.devTable fd' = some (some c) := (Function.update_of_ne hfd _ _).symm.trans hc
      obtain ⟨dev, hmem, heq⟩ := h.devEntry hold
      exact ⟨dev, (addDev_dev (h.ne_freshDev hmem)).trans hmem, heq⟩
  case boEntry =>
    intro c table handle x htab hx
    rcases eq_or_ne c σ.freshDev with rfl | hc
    · cases addDev_table_self.symm.trans htab
      cases hx
    · exact h.boEntry ((addDev_table hc).symm.trans htab) hx
  case table =>
    intro c hl
    rcases eq_or_ne c σ.freshDev with rfl | hc
    · exact ⟨_, addDev_table_self⟩
    · rw [addDev_devListed hnone hc] at hl
      rw [addDev_table hc]
      exact h.table hl
  case handle => exact h.handle
  case opened =>
    intro x bo dev hbo hl hmem
    rw [h.addDev_boListed] at hl
    rw [addDev_dev (h.listed_ne_freshDev hbo hl)] at hmem
    exact h.opened hbo hl hmem
  case brought =>
    intro c handle hpos
    obtain ⟨dev, table, hd⟩ := h.liveDev_of_brings hpos
    rw [addDev_dev (h.ne_freshDev hd.memory), addDev_table (h.ne_freshDev hd.memory)]
    exact h.brought hpos
  case once => exact h.once
  case freshDev =>
    intro c hc
    have hlt : σ.freshDev < c := hc
    rw [addDev_dev (Nat.ne_of_gt hlt)]
    exact h.freshDev (Nat.le_of_lt hlt)
  case freshBo => exact h.freshBo

end NewDev

/-- There was no memory for a device. -/
theorem Inv.nullDev {fd : Fd} (h : Inv σ) (hnone : σ.devTable fd = none) :
    Inv { σ with devTable := Function.update σ.devTable fd (some none) } := by
  have hentry : ∀ {fd' c}, Function.update σ.devTable fd (some none) fd' = some (some c) ↔
      σ.devTable fd' = some (some c) := by
    intro fd' c
    rw [Function.update_apply]
    split
    · next heq =>
      rw [heq, hnone]
      simp
    · exact Iff.rfl
  have hlisted : ∀ {c}, Threads.devListed c { σ with devTable := Function.update σ.devTable fd (some none) } =
      σ.devListed c := by
    intro c
    rw [Bool.eq_iff_iff, devListed_iff, devListed_iff]
    exact exists_congr fun dev => and_congr_right fun _ => hentry
  constructor
  case devStage =>
    intro c
    have hlife : Threads.devLife c { σ with devTable := Function.update σ.devTable fd (some none) } = σ.devLife c :=
      devLife_congr rfl rfl hlisted rfl rfl rfl rfl
    rw [hlife]
    exact h.devStage c
  case boStage => exact h.boStage
  case devEntry => exact fun hc => h.devEntry (hentry.mp hc)
  case boEntry => exact h.boEntry
  case table => exact fun hl => h.table (hlisted.symm.trans hl)
  case handle => exact h.handle
  case opened => exact h.opened
  case brought => exact h.brought
  case once => exact h.once
  case freshDev => exact h.freshDev
  case freshBo => exact h.freshBo

/-! ## A new buffer -/

/-- `bo_from_handle`, with the table that it leaves. -/
def Threads.withBo (d : DevId) (handle : Handle) (table : HandleTable) (σ : Threads) : Threads :=
  { (σ.incDev d).setTable d (some table) with
    bo := Function.update σ.bo σ.freshBo (some { dev := d, handle })
    boRefcnt := Function.update σ.boRefcnt σ.freshBo 1, freshBo := σ.freshBo + 1 }

theorem Inv.ne_freshBo (h : Inv σ) (hbo : σ.bo b = some bo) : b ≠ σ.freshBo := Nat.ne_of_lt (h.lt_freshBo hbo)

section NewBo

/-- `withBo`, with the entry of the new buffer and the reference of the caller. -/
def Threads.addBo (d : DevId) (handle : Handle) (table : HandleTable) (σ : Threads) : Threads :=
  (σ.withBo d handle (Function.update table handle (some σ.freshBo))).takeBo σ.freshBo

theorem addBo_bo (hb : b ≠ σ.freshBo) : (σ.addBo d handle table).bo b = σ.bo b := Function.update_of_ne hb _ _

theorem addBo_bo_self : (σ.addBo d handle table).bo σ.freshBo = some { dev := d, handle } := Function.update_self ..

theorem addBo_table {c : DevId} (hc : c ≠ d) : (σ.addBo d handle table).handleTable c = σ.handleTable c :=
  Function.update_of_ne hc _ _

theorem addBo_table_self :
    (σ.addBo d handle table).handleTable d = some (Function.update table handle (some σ.freshBo)) :=
  Function.update_self ..

theorem addBo_listed_self : (σ.addBo d handle table).boListed σ.freshBo = true :=
  (boListed_iff).mpr ⟨_, _, addBo_bo_self, addBo_table_self, Function.update_self ..⟩

/-- The only new entry is that of the new buffer. -/
theorem Inv.addBo_entry (h : Inv σ) (hd : LiveDev d dev table σ) {c : DevId} {t : HandleTable} {k : Handle} {x : BoId}
    (htab : (σ.addBo d handle table).handleTable c = some t) (hx : t k = some x) :
    x = σ.freshBo ∧ c = d ∧ k = handle ∨ x ≠ σ.freshBo ∧ ∃ t', σ.handleTable c = some t' ∧ t' k = some x := by
  have hold : ∀ {t'}, σ.handleTable c = some t' → t' k = some x → x ≠ σ.freshBo := fun htab' hx' =>
    h.ne_freshBo (h.boEntry htab' hx')
  rcases eq_or_ne c d with rfl | hc
  · cases addBo_table_self.symm.trans htab
    rw [Function.update_apply] at hx
    split at hx
    · next hk => exact .inl ⟨(Option.some.inj hx).symm, rfl, hk⟩
    · exact .inr ⟨hold hd.table hx, table, hd.table, hx⟩
  · rw [addBo_table hc] at htab
    exact .inr ⟨hold htab hx, t, htab, hx⟩

theorem LiveDev.addBo_kept (hd : LiveDev d dev table σ) (hnone : table handle = none) {c : DevId} {t : HandleTable}
    {k : Handle} {x : BoId} (htab : σ.handleTable c = some t) (hx : t k = some x) :
    ∃ t', (σ.addBo d handle table).handleTable c = some t' ∧ t' k = some x := by
  rcases eq_or_ne c d with rfl | hc
  · cases hd.table.symm.trans htab
    have hk : k ≠ handle := by
      rintro rfl
      rw [hnone] at hx
      cases hx
    exact ⟨_, addBo_table_self, (Function.update_of_ne hk _ _).trans hx⟩
  · exact ⟨t, (addBo_table hc).trans htab, hx⟩

theorem Inv.addBo_listed (h : Inv σ) (hd : LiveDev d dev table σ) (hnone : table handle = none) (hb : b ≠ σ.freshBo) :
    (σ.addBo d handle table).boListed b = σ.boListed b := by
  rw [Bool.eq_iff_iff, boListed_iff, boListed_iff, addBo_bo hb]
  constructor
  · rintro ⟨bo, t, hmem, htab, hx⟩
    rcases h.addBo_entry hd htab hx with ⟨rfl, -⟩ | ⟨-, t', htab', hx'⟩
    · exact absurd rfl hb
    · exact ⟨bo, t', hmem, htab', hx'⟩
  · rintro ⟨bo, t, hmem, htab, hx⟩
    obtain ⟨t', htab', hx'⟩ := hd.addBo_kept hnone htab hx
    exact ⟨bo, t', hmem, htab', hx'⟩

/-- The new buffer has a reference to its device. -/
theorem Inv.addBo_devRefs (h : Inv σ) (c : DevId) :
    (σ.addBo d handle table).devRefs c = σ.devRefs c + if c = d then 1 else 0 := by
  obtain ⟨hnobo, -⟩ := h.freshBo (Nat.le_refl σ.freshBo)
  obtain ⟨-, -, -, hleaving⟩ :=
    (h.boStage σ.freshBo).of_none (show (σ.bo σ.freshBo).map _ = none by rw [hnobo]; rfl)
  have hreleased : σ.tally (Pc.released σ.freshBo) = 0 := Nat.le_zero.mp (hleaving ▸ released_le)
  have hnew : (σ.addBo d handle table).holds c σ.freshBo = decide (c = d) := by
    rw [Bool.eq_iff_iff, holds_iff, decide_eq_true_iff, addBo_bo_self]
    constructor
    · rintro ⟨bo, hbo, rfl, -⟩
      cases hbo
      rfl
    · rintro rfl
      exact ⟨_, rfl, rfl, hreleased⟩
  have hold : (List.range σ.freshBo).countP ((σ.addBo d handle table).holds c)
      = (List.range σ.freshBo).countP (σ.holds c) := by
    refine List.countP_congr fun x hx => ?_
    rw [holds_iff, holds_iff, addBo_bo (Nat.ne_of_lt (List.mem_range.mp hx))]
    exact Iff.rfl
  show σ.devCallers c + σ.tally (Pc.ownsDev c)
    + (List.range (σ.freshBo + 1)).countP ((σ.addBo d handle table).holds c) = _
  rw [Threads.devRefs, List.range_succ, List.countP_append, hold, List.countP_singleton, hnew, ← Nat.add_assoc]
  exact congrArg _ (if_congr decide_eq_true_iff rfl rfl)

theorem Inv.addBo_devStage (h : Inv σ) (hd : LiveDev d dev table σ) (c : DevId) :
    Stage ((σ.addBo d handle table).devLife c) := by
  rcases eq_or_ne c d with rfl | hc
  · have hrefs : (σ.addBo c handle table).devRefs c = σ.devRefs c + 1 := (h.addBo_devRefs c).trans (by rw [if_pos rfl])
    refine Stage.mk_live ?_ ?_ (devListed_iff.mpr ⟨dev, hd.memory, hd.entry⟩) hd.waiting hd.leaving hd.frees
    · show (σ.dev c).map (fun _ => Function.update σ.devRefcnt c (σ.devRefcnt c + 1) c)
        = some ((σ.addBo c handle table).devRefs c : Int)
      rw [hd.memory, hrefs, Function.update_self, hd.refcnt]
      rfl
    · show 0 < (σ.addBo c handle table).devRefs c
      rw [hrefs]
      exact Nat.succ_pos _
  · have hrefs : (σ.addBo d handle table).devRefs c = σ.devRefs c := (h.addBo_devRefs c).trans (by rw [if_neg hc]; rfl)
    have hlife : (σ.addBo d handle table).devLife c = σ.devLife c :=
      devLife_congr rfl (Function.update_of_ne hc _ _) rfl hrefs rfl rfl rfl
    rw [hlife]
    exact h.devStage c

theorem Inv.addBo_boStage (h : Inv σ) (hd : LiveDev d dev table σ) (hnone : table handle = none) (x : BoId) :
    Stage ((σ.addBo d handle table).boLife x) := by
  rcases eq_or_ne x σ.freshBo with rfl | hx
  · obtain ⟨hnobo, hnofrees⟩ := h.freshBo (Nat.le_refl σ.freshBo)
    refine (h.boStage σ.freshBo).born ?_ hnofrees ?_ addBo_listed_self ?_ rfl rfl rfl
    · show (σ.bo σ.freshBo).map _ = none
      rw [hnobo]
      rfl
    · show ((σ.addBo d handle table).bo σ.freshBo).map _ = some 1
      rw [addBo_bo_self]
      exact congrArg some (Function.update_self ..)
    · show Function.update σ.boCallers σ.freshBo (σ.boCallers σ.freshBo + 1) σ.freshBo + σ.tally (Pc.ownsBo σ.freshBo)
        = σ.boRefs σ.freshBo + 1
      rw [Function.update_self]
      unfold Threads.boRefs
      omega
  · have hlife : (σ.addBo d handle table).boLife x = σ.boLife x :=
      boLife_congr (addBo_bo hx) (Function.update_of_ne hx _ _) (h.addBo_listed hd hnone hx)
        (boRefs_congr (Function.update_of_ne hx _ _) rfl) rfl rfl rfl
    rw [hlife]
    exact h.boStage x

theorem Inv.addBo (h : Inv σ) (hd : LiveDev d dev table σ) (hhandle : handle ≠ 0)
    (hopened : σ.opened dev.fd handle = true) (hnone : table handle = none)
    (hbrings : σ.tally (Pc.brings d handle) = 0) :
    Inv ((σ.withBo d handle (Function.update table handle (some σ.freshBo))).takeBo σ.freshBo) := by
  show Inv (σ.addBo d handle table)
  constructor
  case devStage => exact h.addBo_devStage hd
  case boStage => exact h.addBo_boStage hd hnone
  case devEntry => exact h.devEntry
  case boEntry =>
    intro c t k x htab hx
    rcases h.addBo_entry hd htab hx with ⟨rfl, rfl, rfl⟩ | ⟨hxb, t', htab', hx'⟩
    · exact addBo_bo_self
    · exact (addBo_bo hxb).trans (h.boEntry htab' hx')
  case table =>
    intro c hl
    rcases eq_or_ne c d with rfl | hc
    · exact ⟨_, addBo_table_self⟩
    · rw [addBo_table hc]
      exact h.table hl
  case handle =>
    intro x bo hmem
    rcases eq_or_ne x σ.freshBo with rfl | hx
    · cases addBo_bo_self.symm.trans hmem
      exact hhandle
    · exact h.handle ((addBo_bo hx).symm.trans hmem)
  case opened =>
    intro x bo dev' hmem hl hdev'
    rcases eq_or_ne x σ.freshBo with rfl | hx
    · cases addBo_bo_self.symm.trans hmem
      cases hd.memory.symm.trans hdev'
      exact hopened
    · exact h.opened ((addBo_bo hx).symm.trans hmem) ((h.addBo_listed hd hnone hx).symm.trans hl) hdev'
  case brought =>
    intro c k hpos
    obtain ⟨hk, hopen, hnot⟩ := h.brought hpos
    refine ⟨hk, hopen, fun t htab => ?_⟩
    rcases eq_or_ne c d with rfl | hc
    · cases addBo_table_self.symm.trans htab
      have hkh : k ≠ handle := by
        rintro rfl
        exact absurd hbrings (Nat.ne_of_gt hpos)
      exact (Function.update_of_ne hkh _ _).trans (hnot table hd.table)
    · exact hnot t ((addBo_table hc).symm.trans htab)
  case once => exact h.once
  case freshDev => exact h.freshDev
  case freshBo =>
    intro x hx
    have hlt : σ.freshBo < x := hx
    rw [addBo_bo (Nat.ne_of_gt hlt)]
    exact h.freshBo (Nat.le_of_lt hlt)

end NewBo

/-! ## What goes -/

/-- Objects and entries of the tables go, and nothing is added. -/
structure Threads.Shrinks (σ σ' : Threads) : Prop where
  dev : ∀ {d dev}, σ'.dev d = some dev → σ.dev d = some dev
  bo : ∀ {b bo}, σ'.bo b = some bo → σ.bo b = some bo
  devTable : ∀ {fd d}, σ'.devTable fd = some (some d) → σ.devTable fd = some (some d) ∧ σ'.dev d = σ.dev d
  handleTable : ∀ {d table}, σ'.handleTable d = some table →
    ∃ old, σ.handleTable d = some old ∧ ∀ {handle b}, table handle = some b → old handle = some b ∧ σ'.bo b = σ.bo b
  table : ∀ {d}, σ'.devListed d = true → ∃ table, σ'.handleTable d = some table
  opened : σ'.opened = σ.opened
  freshDev : σ'.freshDev = σ.freshDev
  freshBo : σ'.freshBo = σ.freshBo
  devFrees : ∀ {d}, σ.freshDev ≤ d → σ'.devFrees d = σ.devFrees d
  boFrees : ∀ {b}, σ.freshBo ≤ b → σ'.boFrees b = σ.boFrees b

theorem Threads.Shrinks.boListed (hs : σ.Shrinks σ') (hl : σ'.boListed b = true) : σ.boListed b = true := by
  obtain ⟨bo, t, hbo, htab, hx⟩ := (boListed_iff).mp hl
  obtain ⟨old, hold, hsub⟩ := hs.handleTable htab
  exact (boListed_iff).mpr ⟨bo, old, hs.bo hbo, hold, (hsub hx).1⟩

/-- It is enough to look at the stages. -/
theorem Inv.shrink (h : Inv σ) (hs : σ.Shrinks σ')
    (hbrings : ∀ d handle, σ'.tally (Pc.brings d handle) = σ.tally (Pc.brings d handle))
    (hdev : ∀ d, Stage (σ'.devLife d)) (hbo : ∀ b, Stage (σ'.boLife b)) : Inv σ' := by
  constructor
  case devStage => exact hdev
  case boStage => exact hbo
  case devEntry =>
    intro fd d hc
    obtain ⟨hold, hdev⟩ := hs.devTable hc
    rw [hdev]
    exact h.devEntry hold
  case boEntry =>
    intro d table handle b htab hx
    obtain ⟨old, hold, hsub⟩ := hs.handleTable htab
    rw [(hsub hx).2]
    exact h.boEntry hold (hsub hx).1
  case table => exact hs.table
  case handle => exact fun hbo => h.handle (hs.bo hbo)
  case opened =>
    intro b bo dev hbo hl hdev
    rw [hs.opened]
    exact h.opened (hs.bo hbo) (hs.boListed hl) (hs.dev hdev)
  case brought =>
    intro d handle hpos
    rw [hbrings] at hpos
    obtain ⟨hzero, hopened, hnot⟩ := h.brought hpos
    rw [hs.opened]
    refine ⟨hzero, fun dev hdev => hopened dev (hs.dev hdev), fun table htab => ?_⟩
    obtain ⟨old, hold, hsub⟩ := hs.handleTable htab
    refine Option.eq_none_iff_forall_ne_some.mpr fun b hb => ?_
    have hentry := (hsub hb).1
    rw [hnot old hold] at hentry
    cases hentry
  case once =>
    intro d handle
    rw [hbrings]
    exact h.once d handle
  case freshDev =>
    intro d hle
    rw [hs.freshDev] at hle
    obtain ⟨hnone, hfrees⟩ := h.freshDev hle
    refine ⟨Option.eq_none_iff_forall_ne_some.mpr fun dev hdev => ?_, (hs.devFrees hle).trans hfrees⟩
    have hmem := hs.dev hdev
    rw [hnone] at hmem
    cases hmem
  case freshBo =>
    intro b hle
    rw [hs.freshBo] at hle
    obtain ⟨hnone, hfrees⟩ := h.freshBo hle
    refine ⟨Option.eq_none_iff_forall_ne_some.mpr fun bo hbo => ?_, (hs.boFrees hle).trans hfrees⟩
    have hmem := hs.bo hbo
    rw [hnone] at hmem
    cases hmem

/-! ## Objects that leave their tables -/

section UnlistBo

/-- The entry of the handle has gone from the table, and the calls have gone on. -/
def Threads.withoutBo (d : DevId) (handle : Handle) (table : HandleTable) (calls : List Pc) (σ : Threads) : Threads :=
  Threads.setTable d (some (Function.update table handle none)) { σ with calls }

variable {calls : List Pc}

theorem withoutBo_table {c : DevId} (hc : c ≠ d) : (σ.withoutBo d handle table calls).handleTable c = σ.handleTable c :=
  Function.update_of_ne hc _ _

theorem withoutBo_table_self :
    (σ.withoutBo d handle table calls).handleTable d = some (Function.update table handle none) :=
  Function.update_self ..

/-- The entries that are left were there, and are not that of the buffer. -/
theorem Inv.withoutBo_entry (h : Inv σ) (hbo : σ.bo b = some bo) (hd : LiveDev bo.dev dev table σ) {c : DevId}
    {t : HandleTable} (htab : (σ.withoutBo bo.dev bo.handle table calls).handleTable c = some t) :
    ∃ t', σ.handleTable c = some t' ∧ ∀ {k x}, t k = some x → t' k = some x ∧ x ≠ b := by
  have hne : ∀ {t' k x}, σ.handleTable c = some t' → t' k = some x → (c = bo.dev → k ≠ bo.handle) → x ≠ b := by
    rintro t' k x htab' hx' hnot rfl
    cases hbo.symm.trans (h.boEntry htab' hx')
    exact hnot rfl rfl
  rcases eq_or_ne c bo.dev with rfl | hc
  · cases withoutBo_table_self.symm.trans htab
    refine ⟨table, hd.table, fun {k x} hx => ?_⟩
    have hk : k ≠ bo.handle := by
      rintro rfl
      rw [Function.update_self] at hx
      cases hx
    rw [Function.update_of_ne hk] at hx
    exact ⟨hx, hne hd.table hx fun _ => hk⟩
  · rw [withoutBo_table hc] at htab
    exact ⟨t, htab, fun hx => ⟨hx, hne htab hx fun heq => absurd heq hc⟩⟩

theorem Inv.withoutBo_unlisted (h : Inv σ) (hbo : σ.bo b = some bo) (hd : LiveDev bo.dev dev table σ) :
    (σ.withoutBo bo.dev bo.handle table calls).boListed b = false := by
  refine Bool.eq_false_iff.mpr fun hl => ?_
  obtain ⟨bo', t, -, htab, hx⟩ := (boListed_iff).mp hl
  obtain ⟨t', -, hold⟩ := h.withoutBo_entry hbo hd htab
  exact (hold hx).2 rfl

theorem Inv.withoutBo_listed (h : Inv σ) (hbo : σ.bo b = some bo) (hd : LiveDev bo.dev dev table σ)
    (hentry : table bo.handle = some b) {x : BoId} (hxb : x ≠ b) :
    (σ.withoutBo bo.dev bo.handle table calls).boListed x = σ.boListed x := by
  rw [Bool.eq_iff_iff, boListed_iff, boListed_iff]
  constructor
  · rintro ⟨bo', t, hmem, htab, hx⟩
    obtain ⟨t', htab', hold⟩ := h.withoutBo_entry hbo hd htab
    exact ⟨bo', t', hmem, htab', (hold hx).1⟩
  · rintro ⟨bo', t, hmem, htab, hx⟩
    rcases eq_or_ne bo'.dev bo.dev with heq | hc
    · rw [heq] at htab
      cases hd.table.symm.trans htab
      have hk : bo'.handle ≠ bo.handle := by
        intro hk
        rw [hk] at hx
        exact hxb (Option.some.inj (hx.symm.trans hentry))
      exact ⟨bo', _, hmem, (congrArg _ heq).trans withoutBo_table_self, (Function.update_of_ne hk _ _).trans hx⟩
    · exact ⟨bo', t, hmem, (withoutBo_table hc).trans htab, hx⟩

theorem Inv.withoutBo_shrinks (h : Inv σ) (hbo : σ.bo b = some bo) (hd : LiveDev bo.dev dev table σ) :
    σ.Shrinks (σ.withoutBo bo.dev bo.handle table calls) where
  dev := id
  bo := id
  devTable hc := ⟨hc, rfl⟩
  handleTable htab := by
    obtain ⟨t', htab', hold⟩ := h.withoutBo_entry hbo hd htab
    exact ⟨t', htab', fun hx => ⟨(hold hx).1, rfl⟩⟩
  table {c} hl := by
    rcases eq_or_ne c bo.dev with rfl | hc
    · exact ⟨_, withoutBo_table_self⟩
    · rw [withoutBo_table hc]
      exact h.table hl
  opened := rfl
  freshDev := rfl
  freshBo := rfl
  devFrees _ := rfl
  boFrees _ := rfl

/-- The buffer is on no list any more, and its call leaves. -/
theorem Inv.withoutBo_boStage (h : Inv σ) (hcalls : σ.calls = .boUnlist b :: rest) (hbo : σ.bo b = some bo)
    (hd : LiveDev bo.dev dev table σ) (hentry : table bo.handle = some b) (x : BoId) :
    Stage ((σ.withoutBo bo.dev bo.handle table (.boRelease b :: rest)).boLife x) := by
  generalize hafter : σ.withoutBo bo.dev bo.handle table (.boRelease b :: rest) = σ'
  have hcalls' : σ'.calls = .boRelease b :: rest := by rw [← hafter]; rfl
  have hrefs : σ'.boRefs x = σ.boRefs x :=
    boRefs_congr (by rw [← hafter]; rfl) (tally_next hcalls hcalls' rfl)
  rcases eq_or_ne x b with rfl | hxb
  · have hwaits := tally_first (p := Pc.boWaits x) hcalls
    have hleaves := tally_first (p := Pc.boLeaves x) hcalls
    have hwaits' := tally_first (p := Pc.boWaits x) hcalls'
    have hleaves' := tally_first (p := Pc.boLeaves x) hcalls'
    simp only [Pc.boWaits, Pc.boLeaves, decide_true, if_true, Bool.false_eq_true, if_false] at hwaits hleaves hwaits' hleaves'
    refine (h.boStage x).leave ?_ ?_ ?_ hrefs ?_ ?_ ?_
    · show 0 < σ.tally (Pc.boWaits x)
      omega
    · rw [← hafter]
      rfl
    · rw [← hafter]
      exact h.withoutBo_unlisted hbo hd
    · show σ'.tally (Pc.boWaits x) + 1 = σ.tally (Pc.boWaits x)
      omega
    · show σ'.tally (Pc.boLeaves x) = σ.tally (Pc.boLeaves x) + 1
      omega
    · rw [← hafter]
      rfl
  · have hne : decide (b = x) = false := decide_eq_false hxb.symm
    have hlisted : σ'.boListed x = σ.boListed x := by
      rw [← hafter]
      exact h.withoutBo_listed hbo hd hentry hxb
    rw [boLife_congr (by rw [← hafter]; rfl) (by rw [← hafter]; rfl) hlisted hrefs
      (tally_next hcalls hcalls' hne.symm) (tally_next hcalls hcalls' hne) (by rw [← hafter]; rfl)]
    exact h.boStage x

theorem Inv.withoutBo_devStage (h : Inv σ) (hcalls : σ.calls = .boUnlist b :: rest) (c : DevId) :
    Stage ((σ.withoutBo d handle table (.boRelease b :: rest)).devLife c) := by
  have htally : ∀ {p : Pc → Bool}, p (.boRelease b) = p (.boUnlist b) →
      (σ.withoutBo d handle table (.boRelease b :: rest)).tally p = σ.tally p := fun hp => tally_next hcalls rfl hp
  have hholds : ∀ x, (σ.withoutBo d handle table (.boRelease b :: rest)).holds c x = σ.holds c x := by
    intro x
    rw [Threads.holds, Threads.holds, htally rfl]
    rfl
  have hlife : (σ.withoutBo d handle table (.boRelease b :: rest)).devLife c = σ.devLife c :=
    devLife_congr rfl rfl rfl (devRefs_congr rfl rfl (htally rfl) hholds) (htally rfl) (htally rfl) rfl
  rw [hlife]
  exact h.devStage c

/-- The locked section of `omap_bo_del`. -/
theorem Inv.unlistBo (h : Inv σ) (hcalls : σ.calls = .boUnlist b :: rest) (hbo : σ.bo b = some bo)
    (hd : LiveDev bo.dev dev table σ) (hentry : table bo.handle = some b) :
    Inv (Threads.setOpened dev.fd bo.handle false
      (Threads.setTable bo.dev (some (Function.update table bo.handle none)) { σ with calls := .boRelease b :: rest })) := by
  show Inv (Threads.setOpened dev.fd bo.handle false (σ.withoutBo bo.dev bo.handle table (.boRelease b :: rest)))
  have hs : σ.Shrinks (σ.withoutBo bo.dev bo.handle table (.boRelease b :: rest)) := h.withoutBo_shrinks hbo hd
  have hbrings : ∀ c k, (σ.withoutBo bo.dev bo.handle table (.boRelease b :: rest)).tally (Pc.brings c k)
      = σ.tally (Pc.brings c k) := fun _ _ => tally_next hcalls rfl rfl
  -- nobody has to do with the handle any more
  refine (h.shrink hs hbrings (h.withoutBo_devStage hcalls) (h.withoutBo_boStage hcalls hbo hd hentry)).setOpened ?_ ?_
  · intro x bo' dev' hmem hl hdev' hfd hhandle
    have hxb : x ≠ b := by
      rintro rfl
      exact Bool.false_ne_true ((h.withoutBo_unlisted hbo hd).symm.trans hl)
    obtain ⟨dev'', table', hd', hentry'⟩ := h.liveDev_of_listed hmem (hs.boListed hl)
    cases (hs.dev hdev').symm.trans hd'.memory
    have heq := hd'.eq hd hfd
    have htab := hd'.table
    rw [heq, hd.table] at htab
    cases htab
    rw [hhandle, hentry] at hentry'
    exact absurd (Option.some.inj hentry').symm hxb
  · intro c dev' hpos hdev' hfd
    rw [hbrings] at hpos
    obtain ⟨dev'', table', hd'⟩ := h.liveDev_of_brings hpos
    cases (hs.dev hdev').symm.trans hd'.memory
    have heq := hd'.eq hd hfd
    rw [heq] at hpos
    have hnot := (h.brought hpos).2.2 table hd.table
    rw [hentry] at hnot
    cases hnot

end UnlistBo

section UnlistDev

/-- `devUnlist`, with the file descriptor of the device. -/
def Threads.withoutDev (d : DevId) (fd : Fd) (calls : List Pc) (σ : Threads) : Threads :=
  { Threads.setTable d none { σ with calls } with devTable := Function.update σ.devTable fd none }

variable {calls : List Pc} {fd : Fd}

theorem withoutDev_table {c : DevId} (hc : c ≠ d) : (σ.withoutDev d fd calls).handleTable c = σ.handleTable c :=
  Function.update_of_ne hc _ _

theorem withoutDev_table_self : (σ.withoutDev d fd calls).handleTable d = none := Function.update_self ..

theorem withoutDev_table_old {c : DevId} (htab : (σ.withoutDev d fd calls).handleTable c = some table) :
    c ≠ d ∧ σ.handleTable c = some table := by
  have hc : c ≠ d := by
    rintro rfl
    cases withoutDev_table_self.symm.trans htab
  exact ⟨hc, (withoutDev_table hc).symm.trans htab⟩

theorem Inv.withoutDev_entry (h : Inv σ) (hmem : σ.dev d = some dev) (hentry : σ.devTable dev.fd = some (some d))
    {c : DevId} : (σ.withoutDev d dev.fd calls).devTable fd = some (some c)
      ↔ c ≠ d ∧ σ.devTable fd = some (some c) := by
  show Function.update σ.devTable dev.fd none fd = _ ↔ _
  rw [Function.update_apply]
  split
  · next hfd =>
    rw [hfd, hentry]
    exact ⟨fun h => (by cases h), fun hand => absurd (Option.some.inj (Option.some.inj hand.2)).symm hand.1⟩
  · next hfd =>
    refine ⟨fun hc => ⟨?_, hc⟩, And.right⟩
    rintro rfl
    obtain ⟨dev', hmem', hfd'⟩ := h.devEntry hc
    cases hmem.symm.trans hmem'
    exact hfd hfd'.symm

theorem Inv.withoutDev_unlisted (h : Inv σ) (hmem : σ.dev d = some dev) (hentry : σ.devTable dev.fd = some (some d)) :
    (σ.withoutDev d dev.fd calls).devListed d = false := by
  refine Bool.eq_false_iff.mpr fun hl => ?_
  obtain ⟨dev', -, hent⟩ := (devListed_iff).mp hl
  exact ((h.withoutDev_entry hmem hentry).mp hent).1 rfl

theorem Inv.withoutDev_devListed (h : Inv σ) (hmem : σ.dev d = some dev) (hentry : σ.devTable dev.fd = some (some d))
    {c : DevId} (hc : c ≠ d) : (σ.withoutDev d dev.fd calls).devListed c = σ.devListed c := by
  rw [Bool.eq_iff_iff, devListed_iff, devListed_iff]
  exact exists_congr fun dev' => and_congr_right fun _ => (h.withoutDev_entry hmem hentry).trans (and_iff_right hc)

/-- The buffers of a device without references have gone. -/
theorem Inv.withoutDev_boListed (h : Inv σ) (hrefs : σ.devRefs d = 0) :
    (σ.withoutDev d fd calls).boListed b = σ.boListed b := by
  rw [Bool.eq_iff_iff]
  constructor
  · intro hl
    obtain ⟨bo, t, hbo, htab, hx⟩ := (boListed_iff).mp hl
    exact (boListed_iff).mpr ⟨bo, t, hbo, (withoutDev_table_old htab).2, hx⟩
  · intro hl
    obtain ⟨bo, t, hbo, htab, hx⟩ := (boListed_iff).mp hl
    have hne : bo.dev ≠ d := by
      rintro rfl
      obtain ⟨dev', table, hd, -⟩ := h.liveDev_of_listed hbo hl
      exact absurd hrefs (Nat.ne_of_gt hd.pos)
    exact (boListed_iff).mpr ⟨bo, t, hbo, (withoutDev_table hne).trans htab, hx⟩

theorem Inv.withoutDev_shrinks (h : Inv σ) (hmem : σ.dev d = some dev) (hentry : σ.devTable dev.fd = some (some d)) :
    σ.Shrinks (σ.withoutDev d dev.fd calls) where
  dev := id
  bo := id
  devTable hc := ⟨((h.withoutDev_entry hmem hentry).mp hc).2, rfl⟩
  handleTable {c t} htab := ⟨t, (withoutDev_table_old htab).2, fun hx => ⟨hx, rfl⟩⟩
  table {c} hl := by
    have hc : c ≠ d := by
      rintro rfl
      exact Bool.false_ne_true ((h.withoutDev_unlisted hmem hentry).symm.trans hl)
    rw [withoutDev_table hc]
    exact h.table ((h.withoutDev_devListed hmem hentry hc).symm.trans hl)
  opened := rfl
  freshDev := rfl
  freshBo := rfl
  devFrees _ := rfl
  boFrees _ := rfl

/-- The device is on no list any more, and its call leaves. -/
theorem Inv.withoutDev_devStage {next : Option BoId} (h : Inv σ) (hcalls : σ.calls = .devUnlist d next :: rest)
    (hmem : σ.dev d = some dev) (hentry : σ.devTable dev.fd = some (some d)) (c : DevId) :
    Stage ((σ.withoutDev d dev.fd (.devFree d next :: rest)).devLife c) := by
  generalize hafter : σ.withoutDev d dev.fd (.devFree d next :: rest) = σ'
  have hcalls' : σ'.calls = .devFree d next :: rest := by rw [← hafter]; rfl
  have hholds : ∀ x, σ'.holds c x = σ.holds c x := by
    intro x
    rw [Threads.holds, Threads.holds, tally_next hcalls hcalls' rfl, ← hafter]
    rfl
  have hrefs : σ'.devRefs c = σ.devRefs c :=
    devRefs_congr (by rw [← hafter]; rfl) (by rw [← hafter]; rfl) (tally_next hcalls hcalls' rfl) hholds
  rcases eq_or_ne c d with rfl | hc
  · have hwaits := tally_first (p := Pc.devWaits c) hcalls
    have hleaves := tally_first (p := Pc.devLeaves c) hcalls
    have hwaits' := tally_first (p := Pc.devWaits c) hcalls'
    have hleaves' := tally_first (p := Pc.devLeaves c) hcalls'
    simp only [Pc.devWaits, Pc.devLeaves, decide_true, if_true, Bool.false_eq_true, if_false]
      at hwaits hleaves hwaits' hleaves'
    refine (h.devStage c).leave ?_ ?_ ?_ hrefs ?_ ?_ ?_
    · show 0 < σ.tally (Pc.devWaits c)
      omega
    · rw [← hafter]
      rfl
    · rw [← hafter]
      exact h.withoutDev_unlisted hmem hentry
    · show σ'.tally (Pc.devWaits c) + 1 = σ.tally (Pc.devWaits c)
      omega
    · show σ'.tally (Pc.devLeaves c) = σ.tally (Pc.devLeaves c) + 1
      omega
    · rw [← hafter]
      rfl
  · have hne : decide (d = c) = false := decide_eq_false hc.symm
    have hlisted : σ'.devListed c = σ.devListed c := by
      rw [← hafter]
      exact h.withoutDev_devListed hmem hentry hc
    rw [devLife_congr (by rw [← hafter]; rfl) (by rw [← hafter]; rfl) hlisted hrefs
      (tally_next hcalls hcalls' hne.symm) (tally_next hcalls hcalls' hne) (by rw [← hafter]; rfl)]
    exact h.devStage c

/-- The locked section of `omap_device_del`. -/
theorem Inv.unlistDev {next : Option BoId} (h : Inv σ) (hcalls : σ.calls = .devUnlist d next :: rest)
    (hmem : σ.dev d = some dev) (hentry : σ.devTable dev.fd = some (some d)) :
    Inv (σ.withoutDev d dev.fd (.devFree d next :: rest)) := by
  have hwaits : 0 < σ.tally (Pc.devWaits d) := tally_pos hcalls (decide_eq_true rfl)
  have hrefs : σ.devRefs d = 0 := ((h.devStage d).of_waiting hwaits).2.2.1
  have htally : ∀ {p : Pc → Bool}, p (.devFree d next) = p (.devUnlist d next) →
      (σ.withoutDev d dev.fd (.devFree d next :: rest)).tally p = σ.tally p := fun hp => tally_next hcalls rfl hp
  refine h.shrink (h.withoutDev_shrinks hmem hentry) (fun _ _ => htally rfl) (h.withoutDev_devStage hcalls hmem hentry)
    fun x => ?_
  have hlife : (σ.withoutDev d dev.fd (.devFree d next :: rest)).boLife x = σ.boLife x :=
    boLife_congr rfl rfl (h.withoutDev_boListed hrefs) (boRefs_congr rfl (htally rfl)) (htally rfl) (htally rfl) rfl
  rw [hlife]
  exact h.boStage x

end UnlistDev

/-! ## Objects that are freed -/

section FreeBo

/-- The end of `omap_bo_del`. -/
def Threads.freedBo (b : BoId) (calls : List Pc) (σ : Threads) : Threads :=
  { σ with bo := Function.update σ.bo b none, boFrees := Function.update σ.boFrees b (σ.boFrees b + 1), calls }

variable {calls : List Pc}

theorem freedBo_bo {x : BoId} (hx : x ≠ b) : (σ.freedBo b calls).bo x = σ.bo x := Function.update_of_ne hx _ _

theorem freedBo_bo_self : (σ.freedBo b calls).bo b = none := Function.update_self ..

theorem freedBo_old {x : BoId} (hx : (σ.freedBo b calls).bo x = some bo) : x ≠ b ∧ σ.bo x = some bo := by
  have hxb : x ≠ b := by
    rintro rfl
    cases freedBo_bo_self.symm.trans hx
  exact ⟨hxb, (freedBo_bo hxb).symm.trans hx⟩

theorem Inv.freedBo_shrinks (h : Inv σ) (hmem : σ.bo b = some bo) (hunlisted : σ.boListed b = false) :
    σ.Shrinks (σ.freedBo b calls) where
  dev := id
  bo hx := (freedBo_old hx).2
  devTable hc := ⟨hc, rfl⟩
  handleTable {c t} htab := by
    refine ⟨t, htab, fun {k x} hx => ⟨hx, freedBo_bo ?_⟩⟩
    rintro rfl
    exact Bool.false_ne_true (hunlisted.symm.trans (boListed_iff.mpr ⟨_, t, h.boEntry htab hx, htab, hx⟩))
  table hl := h.table hl
  opened := rfl
  freshDev := rfl
  freshBo := rfl
  devFrees _ := rfl
  boFrees hle := Function.update_of_ne (Nat.ne_of_gt (Nat.lt_of_lt_of_le (h.lt_freshBo hmem) hle)) _ _

theorem Inv.freedBo_devStage (h : Inv σ) (hcalls : σ.calls = .boFree b :: rest) (c : DevId) :
    Stage ((σ.freedBo b rest).devLife c) := by
  have htally : ∀ {p : Pc → Bool}, p (.boFree b) = false → (σ.freedBo b rest).tally p = σ.tally p := by
    intro p hp
    rw [tally_first hcalls, hp]
    rfl
  have hholds : ∀ x, (σ.freedBo b rest).holds c x = σ.holds c x := by
    intro x
    rcases eq_or_ne x b with rfl | hx
    · have hnot : σ.holds c x = false := by
        refine Bool.eq_false_iff.mpr fun hh => ?_
        obtain ⟨-, -, -, hzero⟩ := (holds_iff).mp hh
        exact absurd hzero (Nat.ne_of_gt (tally_pos hcalls (decide_eq_true rfl)))
      rw [hnot, Threads.holds, freedBo_bo_self]
      rfl
    · rw [Threads.holds, Threads.holds, freedBo_bo hx, htally (decide_eq_false hx.symm)]
  have hlife : (σ.freedBo b rest).devLife c = σ.devLife c :=
    devLife_congr rfl rfl rfl (devRefs_congr rfl rfl (htally rfl) hholds) (htally rfl) (htally rfl) rfl
  rw [hlife]
  exact h.devStage c

theorem Inv.freedBo_boStage (h : Inv σ) (hcalls : σ.calls = .boFree b :: rest) (x : BoId) :
    Stage ((σ.freedBo b rest).boLife x) := by
  have htally : ∀ {p : Pc → Bool}, p (.boFree b) = false → (σ.freedBo b rest).tally p = σ.tally p := by
    intro p hp
    rw [tally_first hcalls, hp]
    rfl
  have hrefs : (σ.freedBo b rest).boRefs x = σ.boRefs x := boRefs_congr rfl (htally rfl)
  rcases eq_or_ne x b with rfl | hx
  · have hleaves : σ.tally (Pc.boLeaves x) = _ := tally_counted hcalls (decide_eq_true rfl)
    refine (h.boStage x).free ?_ ?_ ?_ hrefs (htally rfl) hleaves.symm (Function.update_self ..)
    · show 0 < σ.tally (Pc.boLeaves x)
      omega
    · show ((σ.freedBo x rest).bo x).map _ = none
      rw [freedBo_bo_self]
      rfl
    · show (σ.freedBo x rest).boListed x = false
      rw [Threads.boListed, freedBo_bo_self]
      rfl
  · have hlisted : (σ.freedBo b rest).boListed x = σ.boListed x := by
      rw [Threads.boListed, Threads.boListed, freedBo_bo hx]
      rfl
    rw [boLife_congr (freedBo_bo hx) rfl hlisted hrefs (htally rfl) (htally (decide_eq_false hx.symm))
      (Function.update_of_ne hx _ _)]
    exact h.boStage x

theorem Inv.freeBo (h : Inv σ) (hcalls : σ.calls = .boFree b :: rest) :
    (∃ bo, σ.bo b = some bo) ∧ Inv { σ with
      bo := Function.update σ.bo b none, boFrees := Function.update σ.boFrees b (σ.boFrees b + 1), calls := rest } := by
  have hleaves : 0 < σ.tally (Pc.boLeaves b) := tally_pos hcalls (decide_eq_true rfl)
  obtain ⟨hcount, hunlisted, -⟩ := (h.boStage b).of_leaving hleaves
  obtain ⟨bo, hmem, -⟩ := Option.map_eq_some_iff.mp hcount
  refine ⟨⟨bo, hmem⟩, h.shrink (h.freedBo_shrinks hmem hunlisted) (fun c k => ?_) (h.freedBo_devStage hcalls)
    (h.freedBo_boStage hcalls)⟩
  exact (tally_first (p := Pc.brings c k) hcalls).symm

end FreeBo

section FreeDev

/-- The end of `omap_device_del`. -/
def Threads.freedDev (d : DevId) (calls : List Pc) (σ : Threads) : Threads :=
  { σ with dev := Function.update σ.dev d none, devFrees := Function.update σ.devFrees d (σ.devFrees d + 1), calls }

variable {calls : List Pc} {next : Option BoId}

theorem freedDev_dev {c : DevId} (hc : c ≠ d) : (σ.freedDev d calls).dev c = σ.dev c := Function.update_of_ne hc _ _

theorem freedDev_dev_self : (σ.freedDev d calls).dev d = none := Function.update_self ..

theorem freedDev_old {c : DevId} (hc : (σ.freedDev d calls).dev c = some dev) : c ≠ d ∧ σ.dev c = some dev := by
  have hcd : c ≠ d := by
    rintro rfl
    cases freedDev_dev_self.symm.trans hc
  exact ⟨hcd, (freedDev_dev hcd).symm.trans hc⟩

/-- The call goes on to free the buffer that had the last reference, or it is over. -/
theorem tally_freedDev {p : Pc → Bool} (hcalls : σ.calls = .devFree d next :: rest)
    (hp : p (.devFree d next) = next.any fun b => p (.boFree b)) :
    (σ.freedDev d ((next.map Pc.boFree).toList ++ rest)).tally p = σ.tally p := by
  show ((next.map Pc.boFree).toList ++ rest).countP p = _
  rw [countP_next, tally_first hcalls, hp]

theorem tally_freedDev_never {p : Pc → Bool} (hcalls : σ.calls = .devFree d next :: rest)
    (hfree : p (.devFree d next) = false) (hnext : ∀ b, p (.boFree b) = false) :
    (σ.freedDev d ((next.map Pc.boFree).toList ++ rest)).tally p = σ.tally p := by
  refine tally_freedDev hcalls (hfree.trans ?_)
  cases next with
  | none => rfl
  | some b => exact (hnext b).symm

theorem freedDev_listed {c : DevId} (hc : c ≠ d) : (σ.freedDev d calls).devListed c = σ.devListed c := by
  rw [Threads.devListed, Threads.devListed, freedDev_dev hc]
  rfl

theorem freedDev_unlisted : (σ.freedDev d calls).devListed d = false := by
  rw [Threads.devListed, freedDev_dev_self]
  rfl

theorem Inv.freedDev_shrinks (h : Inv σ) (hmem : σ.dev d = some dev) (hunlisted : σ.devListed d = false) :
    σ.Shrinks (σ.freedDev d calls) where
  dev hc := (freedDev_old hc).2
  bo := id
  devTable {fd c} hc := by
    refine ⟨hc, freedDev_dev ?_⟩
    rintro rfl
    obtain ⟨dev', hdev', hfd⟩ := h.devEntry hc
    exact Bool.false_ne_true (hunlisted.symm.trans (devListed_iff.mpr ⟨dev', hdev', hfd ▸ hc⟩))
  handleTable {c t} htab := ⟨t, htab, fun hx => ⟨hx, rfl⟩⟩
  table {c} hl := by
    have hcd : c ≠ d := by
      rintro rfl
      exact Bool.false_ne_true (freedDev_unlisted.symm.trans hl)
    exact h.table ((freedDev_listed hcd).symm.trans hl)
  opened := rfl
  freshDev := rfl
  freshBo := rfl
  devFrees {c} hle := by
    refine Function.update_of_ne ?_ _ _
    rintro rfl
    rw [(h.freshDev hle).1] at hmem
    cases hmem
  boFrees _ := rfl

theorem Inv.freedDev_devStage (h : Inv σ) (hcalls : σ.calls = .devFree d next :: rest) (c : DevId) :
    Stage ((σ.freedDev d ((next.map Pc.boFree).toList ++ rest)).devLife c) := by
  have hnever := fun {p : Pc → Bool} => tally_freedDev_never (p := p) hcalls
  have hreleased : ∀ x, (σ.freedDev d ((next.map Pc.boFree).toList ++ rest)).tally (Pc.released x)
      = σ.tally (Pc.released x) := by
    refine fun x => tally_freedDev hcalls ?_
    cases next with
    | none => rfl
    | some b => simp [Pc.released]
  have hholds : ∀ x, (σ.freedDev d ((next.map Pc.boFree).toList ++ rest)).holds c x = σ.holds c x := by
    intro x
    rw [Threads.holds, Threads.holds, hreleased]
    rfl
  have hrefs : (σ.freedDev d ((next.map Pc.boFree).toList ++ rest)).devRefs c = σ.devRefs c :=
    devRefs_congr rfl rfl (hnever rfl fun _ => rfl) hholds
  have hwaits : (σ.freedDev d ((next.map Pc.boFree).toList ++ rest)).tally (Pc.devWaits c) = σ.tally (Pc.devWaits c) :=
    hnever rfl fun _ => rfl
  rcases eq_or_ne c d with rfl | hc
  · have hleaves : σ.tally (Pc.devLeaves c) = _ := tally_counted hcalls (decide_eq_true rfl)
    refine (h.devStage c).free ?_ ?_ freedDev_unlisted hrefs hwaits ?_ (Function.update_self ..)
    · show 0 < σ.tally (Pc.devLeaves c)
      omega
    · show ((σ.freedDev c _).dev c).map _ = none
      rw [freedDev_dev_self]
      rfl
    · show ((next.map Pc.boFree).toList ++ rest).countP (Pc.devLeaves c) + 1 = σ.tally (Pc.devLeaves c)
      rw [hleaves, countP_next]
      cases next with
      | none => rfl
      | some b => rfl
  · rw [devLife_congr (freedDev_dev hc) rfl (freedDev_listed hc) hrefs hwaits
      (hnever (decide_eq_false hc.symm) fun _ => rfl) (Function.update_of_ne hc _ _)]
    exact h.devStage c

theorem Inv.freedDev_boStage (h : Inv σ) (hcalls : σ.calls = .devFree d next :: rest) (x : BoId) :
    Stage ((σ.freedDev d ((next.map Pc.boFree).toList ++ rest)).boLife x) := by
  have hnever := fun {p : Pc → Bool} => tally_freedDev_never (p := p) hcalls
  have hleaves : (σ.freedDev d ((next.map Pc.boFree).toList ++ rest)).tally (Pc.boLeaves x) = σ.tally (Pc.boLeaves x) := by
    refine tally_freedDev hcalls ?_
    cases next with
    | none => rfl
    | some b => simp [Pc.boLeaves]
  have hlife : (σ.freedDev d ((next.map Pc.boFree).toList ++ rest)).boLife x = σ.boLife x :=
    boLife_congr rfl rfl rfl (boRefs_congr rfl (hnever rfl fun _ => rfl)) (hnever rfl fun _ => rfl) hleaves rfl
  rw [hlife]
  exact h.boStage x

theorem Inv.freeDev (h : Inv σ) (hcalls : σ.calls = .devFree d next :: rest) :
    (∃ dev, σ.dev d = some dev) ∧ Inv { σ with
      dev := Function.update σ.dev d none, devFrees := Function.update σ.devFrees d (σ.devFrees d + 1)
      calls := (next.map Pc.boFree).toList ++ rest } := by
  have hleaves : 0 < σ.tally (Pc.devLeaves d) := tally_pos hcalls (decide_eq_true rfl)
  obtain ⟨hcount, hunlisted, -⟩ := (h.devStage d).of_leaving hleaves
  obtain ⟨dev, hmem, -⟩ := Option.map_eq_some_iff.mp hcount
  exact ⟨⟨dev, hmem⟩, h.shrink (h.freedDev_shrinks hmem hunlisted)
    (fun _ _ => tally_freedDev_never hcalls rfl fun _ => rfl) (h.freedDev_devStage hcalls) (h.freedDev_boStage hcalls)⟩

end FreeDev

end LibDrm.Omap
