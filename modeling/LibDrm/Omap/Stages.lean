/-
# `LibDrm.Omap.Stages` — references to devices and buffers of omap

The references to a device are those of its callers, of the calls, and of its buffers; a buffer has
its reference until `omap_bo_del` has called `omap_device_del`.  References are

    taken      omap_device_ref, omap_bo_ref, a lookup
    handed     to a call that gives them up or back: omap_device_del, omap_bo_del, omap_bo_new
    given up   atomic_dec_and_test

Every device and every buffer is in a stage of `Lib.Life`, and what the tables say is right (`Inv`).
-/
import LibDrm.Lib.Life
import LibDrm.Omap.Bo

namespace LibDrm.Omap

open Life (Stage)

variable {σ σ' : Threads} {d : DevId} {b : BoId} {dev : Device} {bo : Bo} {table : HandleTable} {handle : Handle}
  {pc : Pc} {rest : List Pc}

/-! ## Who has to do with an object -/

namespace Pc

/-- The call has a reference to the device. -/
def ownsDev (d : DevId) : Pc → Bool
  | .boNew d' _ => d' = d
  | .devDec d' => d' = d
  | _ => false

def ownsBo (b : BoId) : Pc → Bool
  | .boDec b' => b' = b
  | _ => false

/-- The call has taken the count to zero, and waits for the lock. -/
def devWaits (d : DevId) : Pc → Bool
  | .devUnlist d' _ => d' = d
  | _ => false

def boWaits (b : BoId) : Pc → Bool
  | .boUnlist b' => b' = b
  | _ => false

/-- The call has taken the object out of its table. -/
def devLeaves (d : DevId) : Pc → Bool
  | .devFree d' _ => d' = d
  | _ => false

/-- The reference of the buffer to its device was given up. -/
def released (b : BoId) : Pc → Bool
  | .boFree b' => b' = b
  | .devUnlist _ next => next = some b
  | .devFree _ next => next = some b
  | _ => false

def boLeaves (b : BoId) : Pc → Bool
  | .boRelease b' => b' = b
  | .boFree b' => b' = b
  | .devUnlist _ next => next = some b
  | .devFree _ next => next = some b
  | _ => false

/-- The call is to put the handle into the table. -/
def brings (d : DevId) (handle : Handle) : Pc → Bool
  | .boNew d' handle' => d' = d ∧ handle' = handle
  | _ => false

theorem boLeaves_of_released (h : pc.released b = true) : pc.boLeaves b = true := by
  cases pc with
  | boFree => exact h
  | devUnlist => exact h
  | devFree => exact h
  | boNew => cases h
  | boDec => cases h
  | boUnlist => cases h
  | boRelease => cases h
  | devDec => cases h

end Pc

namespace Threads

def tally (p : Pc → Bool) (σ : Threads) : Nat := σ.calls.countP p

/-- The buffer has a reference to the device. -/
def holds (d : DevId) (σ : Threads) (b : BoId) : Bool :=
  (σ.bo b).any (fun bo => bo.dev = d) && decide (σ.tally (Pc.released b) = 0)

def devRefs (d : DevId) (σ : Threads) : Nat :=
  σ.devCallers d + σ.tally (Pc.ownsDev d) + (List.range σ.freshBo).countP (σ.holds d)

def boRefs (b : BoId) (σ : Threads) : Nat := σ.boCallers b + σ.tally (Pc.ownsBo b)

def devListed (d : DevId) (σ : Threads) : Bool := (σ.dev d).any fun dev => σ.devTable dev.fd = some (some d)

def boListed (b : BoId) (σ : Threads) : Bool :=
  (σ.bo b).any fun bo => (σ.handleTable bo.dev).any fun table => table bo.handle = some b

def devLife (d : DevId) (σ : Threads) : Life where
  count := (σ.dev d).map fun _ => σ.devRefcnt d
  listed := σ.devListed d
  refs := σ.devRefs d
  waiting := σ.tally (Pc.devWaits d)
  leaving := σ.tally (Pc.devLeaves d)
  frees := σ.devFrees d

def boLife (b : BoId) (σ : Threads) : Life where
  count := (σ.bo b).map fun _ => σ.boRefcnt b
  listed := σ.boListed b
  refs := σ.boRefs b
  waiting := σ.tally (Pc.boWaits b)
  leaving := σ.tally (Pc.boLeaves b)
  frees := σ.boFrees b

end Threads

theorem devListed_iff : σ.devListed d = true ↔ ∃ dev, σ.dev d = some dev ∧ σ.devTable dev.fd = some (some d) := by
  simp [Threads.devListed, Option.any_eq_true]

theorem boListed_iff : σ.boListed b = true ↔
    ∃ bo table, σ.bo b = some bo ∧ σ.handleTable bo.dev = some table ∧ table bo.handle = some b := by
  simp [Threads.boListed, Option.any_eq_true]

theorem holds_iff : σ.holds d b = true ↔ ∃ bo, σ.bo b = some bo ∧ bo.dev = d ∧ σ.tally (Pc.released b) = 0 := by
  rw [Threads.holds, Bool.and_eq_true, Option.any_eq_true, decide_eq_true_iff]
  constructor
  · rintro ⟨⟨bo, hbo, hdev⟩, hreleased⟩
    exact ⟨bo, hbo, of_decide_eq_true hdev, hreleased⟩
  · rintro ⟨bo, hbo, hdev, hreleased⟩
    exact ⟨⟨bo, hbo, decide_eq_true hdev⟩, hreleased⟩

/-! ## What holds in a run -/

/-- What the tables say is right, and so is what the kernel was asked for. -/
structure Inv (σ : Threads) : Prop where
  devStage : ∀ d, Stage (σ.devLife d)
  boStage : ∀ b, Stage (σ.boLife b)
  devEntry : ∀ {fd d}, σ.devTable fd = some (some d) → ∃ dev, σ.dev d = some dev ∧ dev.fd = fd
  boEntry : ∀ {d table handle b}, σ.handleTable d = some table → table handle = some b → σ.bo b = some ⟨d, handle⟩
  table : ∀ {d}, σ.devListed d = true → ∃ table, σ.handleTable d = some table
  handle : ∀ {b bo}, σ.bo b = some bo → bo.handle ≠ 0
  opened : ∀ {b bo dev}, σ.bo b = some bo → σ.boListed b = true → σ.dev bo.dev = some dev →
    σ.opened dev.fd bo.handle = true
  brought : ∀ {d handle}, 0 < σ.tally (Pc.brings d handle) → handle ≠ 0 ∧
    (∀ dev, σ.dev d = some dev → σ.opened dev.fd handle = true) ∧
    ∀ table, σ.handleTable d = some table → table handle = none
  once : ∀ d handle, σ.tally (Pc.brings d handle) ≤ 1
  freshDev : ∀ {d}, σ.freshDev ≤ d → σ.dev d = none ∧ σ.devFrees d = 0
  freshBo : ∀ {b}, σ.freshBo ≤ b → σ.bo b = none ∧ σ.boFrees b = 0

/-- A device with references. -/
structure LiveDev (d : DevId) (dev : Device) (table : HandleTable) (σ : Threads) : Prop where
  memory : σ.dev d = some dev
  entry : σ.devTable dev.fd = some (some d)
  table : σ.handleTable d = some table
  refcnt : σ.devRefcnt d = σ.devRefs d
  pos : 0 < σ.devRefs d
  waiting : σ.tally (Pc.devWaits d) = 0
  leaving : σ.tally (Pc.devLeaves d) = 0
  frees : σ.devFrees d = 0

structure LiveBo (b : BoId) (bo : Bo) (σ : Threads) : Prop where
  memory : σ.bo b = some bo
  listed : σ.boListed b = true
  refcnt : σ.boRefcnt b = σ.boRefs b
  pos : 0 < σ.boRefs b
  waiting : σ.tally (Pc.boWaits b) = 0
  leaving : σ.tally (Pc.boLeaves b) = 0
  frees : σ.boFrees b = 0

theorem Inv.liveDev (h : Inv σ) (hpos : 0 < σ.devRefs d) : ∃ dev table, LiveDev d dev table σ := by
  obtain ⟨hcount, hlisted, hwaiting, hleaving, hfrees⟩ := (h.devStage d).of_refs hpos
  obtain ⟨dev, hdev, hentry⟩ := (devListed_iff).mp hlisted
  obtain ⟨table, htable⟩ := h.table hlisted
  simp only [Threads.devLife, hdev, Option.map_some, Option.some.injEq] at hcount
  exact ⟨dev, table, hdev, hentry, htable, hcount, hpos, hwaiting, hleaving, hfrees⟩

theorem Inv.liveBo (h : Inv σ) (hpos : 0 < σ.boRefs b) : ∃ bo, LiveBo b bo σ := by
  obtain ⟨hcount, hlisted, hwaiting, hleaving, hfrees⟩ := (h.boStage b).of_refs hpos
  obtain ⟨bo, table, hbo, -⟩ := (boListed_iff).mp hlisted
  simp only [Threads.boLife, hbo, Option.map_some, Option.some.injEq] at hcount
  exact ⟨bo, hbo, hlisted, hcount, hpos, hwaiting, hleaving, hfrees⟩

theorem Inv.lt_freshBo (h : Inv σ) (hbo : σ.bo b = some bo) : b < σ.freshBo := by
  refine Nat.lt_of_not_le fun hle => ?_
  rw [(h.freshBo hle).1] at hbo
  cases hbo

/-- A buffer that has not given up its reference keeps the device. -/
theorem Inv.devRefs_pos (h : Inv σ) (hbo : σ.bo b = some bo) (hreleased : σ.tally (Pc.released b) = 0) :
    0 < σ.devRefs bo.dev := by
  refine Nat.lt_of_lt_of_le ?_ (Nat.le_add_left _ _)
  exact List.countP_pos_iff.mpr ⟨b, List.mem_range.mpr (h.lt_freshBo hbo), (holds_iff).mpr ⟨bo, hbo, rfl, hreleased⟩⟩

theorem released_le : σ.tally (Pc.released b) ≤ σ.tally (Pc.boLeaves b) :=
  List.countP_mono_left fun _ _ => Pc.boLeaves_of_released

/-- The device of a buffer in a table. -/
theorem Inv.liveDev_of_listed (h : Inv σ) (hbo : σ.bo b = some bo) (hlisted : σ.boListed b = true) :
    ∃ dev table, LiveDev bo.dev dev table σ ∧ table bo.handle = some b := by
  have hleaving : σ.tally (Pc.boLeaves b) = 0 := by
    by_contra hne
    obtain ⟨-, hnot, -⟩ := (h.boStage b).of_leaving (Nat.pos_of_ne_zero hne)
    exact Bool.false_ne_true (hnot.symm.trans hlisted)
  obtain ⟨dev, table, hdev⟩ := h.liveDev (h.devRefs_pos hbo (Nat.le_zero.mp (hleaving ▸ released_le)))
  obtain ⟨bo', table', hbo', htable', hentry⟩ := (boListed_iff).mp hlisted
  cases hbo.symm.trans hbo'
  cases hdev.table.symm.trans htable'
  exact ⟨dev, table, hdev, hentry⟩

/-- Two devices with references and one file descriptor are one device. -/
theorem LiveDev.eq {c : DevId} {dev' : Device} {table' : HandleTable} (hd : LiveDev d dev table σ)
    (hc : LiveDev c dev' table' σ) (hfd : dev.fd = dev'.fd) : d = c := by
  have hentry := hd.entry
  rw [hfd, hc.entry] at hentry
  exact (Option.some.inj (Option.some.inj hentry)).symm

/-! ## Steps that leave the objects where they are -/

/-- Counts and calls aside, the states are the same. -/
structure Threads.Same (σ σ' : Threads) : Prop where
  dev : σ'.dev = σ.dev
  bo : σ'.bo = σ.bo
  handleTable : σ'.handleTable = σ.handleTable
  devTable : σ'.devTable = σ.devTable
  freshDev : σ'.freshDev = σ.freshDev
  freshBo : σ'.freshBo = σ.freshBo
  opened : σ'.opened = σ.opened
  devFrees : σ'.devFrees = σ.devFrees
  boFrees : σ'.boFrees = σ.boFrees

namespace Threads.Same

theorem devListed (h : σ.Same σ') : σ'.devListed d = σ.devListed d := by
  simp only [Threads.devListed, h.dev, h.devTable]

theorem boListed (h : σ.Same σ') : σ'.boListed b = σ.boListed b := by
  simp only [Threads.boListed, h.bo, h.handleTable]

theorem holds (h : σ.Same σ') (hreleased : σ'.tally (Pc.released b) = σ.tally (Pc.released b)) :
    σ'.holds d b = σ.holds d b := by
  simp only [Threads.holds, h.bo, hreleased]

theorem devRefs (h : σ.Same σ')
    (howned : σ'.devCallers d + σ'.tally (Pc.ownsDev d) = σ.devCallers d + σ.tally (Pc.ownsDev d))
    (hreleased : ∀ b, σ'.tally (Pc.released b) = σ.tally (Pc.released b)) : σ'.devRefs d = σ.devRefs d := by
  rw [Threads.devRefs, Threads.devRefs, howned, h.freshBo]
  exact congrArg _ (List.countP_congr fun b _ => by rw [h.holds (hreleased b)])

theorem devLife (h : σ.Same σ') (hrefcnt : σ'.devRefcnt d = σ.devRefcnt d) (hrefs : σ'.devRefs d = σ.devRefs d)
    (hwaiting : σ'.tally (Pc.devWaits d) = σ.tally (Pc.devWaits d))
    (hleaving : σ'.tally (Pc.devLeaves d) = σ.tally (Pc.devLeaves d)) : σ'.devLife d = σ.devLife d := by
  simp only [Threads.devLife, h.dev, h.devListed, h.devFrees, hrefcnt, hrefs, hwaiting, hleaving]

theorem boLife (h : σ.Same σ') (hrefcnt : σ'.boRefcnt b = σ.boRefcnt b) (hrefs : σ'.boRefs b = σ.boRefs b)
    (hwaiting : σ'.tally (Pc.boWaits b) = σ.tally (Pc.boWaits b))
    (hleaving : σ'.tally (Pc.boLeaves b) = σ.tally (Pc.boLeaves b)) : σ'.boLife b = σ.boLife b := by
  simp only [Threads.boLife, h.bo, h.boListed, h.boFrees, hrefcnt, hrefs, hwaiting, hleaving]

end Threads.Same

/-- It is enough to look at the stages, and at the handles that calls have. -/
theorem Inv.same (h : Inv σ) (hsame : σ.Same σ')
    (hbrought : ∀ d handle, 0 < σ'.tally (Pc.brings d handle) → handle ≠ 0 ∧
      (∀ dev, σ.dev d = some dev → σ.opened dev.fd handle = true) ∧
      ∀ table, σ.handleTable d = some table → table handle = none)
    (honce : ∀ d handle, σ'.tally (Pc.brings d handle) ≤ 1)
    (hdev : ∀ d, Stage (σ'.devLife d)) (hbo : ∀ b, Stage (σ'.boLife b)) : Inv σ' := by
  constructor
  case devStage => exact hdev
  case boStage => exact hbo
  case devEntry =>
    rw [hsame.devTable, hsame.dev]
    exact h.devEntry
  case boEntry =>
    rw [hsame.handleTable, hsame.bo]
    exact h.boEntry
  case table =>
    intro d
    rw [hsame.devListed, hsame.handleTable]
    exact h.table
  case handle =>
    rw [hsame.bo]
    exact h.handle
  case opened =>
    intro b bo dev
    rw [hsame.bo, hsame.boListed, hsame.dev, hsame.opened]
    exact h.opened
  case brought =>
    intro d handle hpos
    rw [hsame.dev, hsame.opened, hsame.handleTable]
    exact hbrought d handle hpos
  case once => exact honce
  case freshDev =>
    rw [hsame.freshDev, hsame.dev, hsame.devFrees]
    exact h.freshDev
  case freshBo =>
    rw [hsame.freshBo, hsame.bo, hsame.boFrees]
    exact h.freshBo

/-- No call has a new handle. -/
theorem Inv.fewer (h : Inv σ) (hsame : σ.Same σ')
    (hbrings : ∀ d handle, σ'.tally (Pc.brings d handle) ≤ σ.tally (Pc.brings d handle))
    (hdev : ∀ d, Stage (σ'.devLife d)) (hbo : ∀ b, Stage (σ'.boLife b)) : Inv σ' :=
  h.same hsame (fun d handle hpos => h.brought (Nat.lt_of_lt_of_le hpos (hbrings d handle)))
    (fun d handle => Nat.le_trans (hbrings d handle) (h.once d handle)) hdev hbo

/-- The order of the calls. -/
theorem Inv.perm (h : Inv σ) (hcalls : σ.calls.Perm rest) : Inv { σ with calls := rest } := by
  have htally : ∀ p, Threads.tally p { σ with calls := rest } = σ.tally p := fun p => (hcalls.countP_eq p).symm
  have hsame : σ.Same { σ with calls := rest } := ⟨rfl, rfl, rfl, rfl, rfl, rfl, rfl, rfl, rfl⟩
  refine h.fewer hsame (fun _ _ => Nat.le_of_eq (htally _)) (fun d => ?_) fun b => ?_
  · rw [hsame.devLife rfl (hsame.devRefs (by rw [htally]) fun b => htally _) (htally _) (htally _)]
    exact h.devStage d
  · rw [hsame.boLife rfl (by rw [Threads.boRefs, Threads.boRefs, htally]) (htally _) (htally _)]
    exact h.boStage b

/-! ## References that are taken -/

/-- A caller gets a reference to a device. -/
theorem Inv.refDev (h : Inv σ) (hd : LiveDev d dev table σ) : Inv ((σ.incDev d).takeDev d) := by
  have hsame : σ.Same ((σ.incDev d).takeDev d) := ⟨rfl, rfl, rfl, rfl, rfl, rfl, rfl, rfl, rfl⟩
  refine h.fewer hsame (fun _ _ => Nat.le_refl _) (fun c => ?_) h.boStage
  rcases eq_or_ne c d with rfl | hcd
  · have hrefs : Threads.devRefs c ((σ.incDev c).takeDev c) = σ.devRefs c + 1 := by
      show Function.update σ.devCallers c (σ.devCallers c + 1) c + σ.tally (Pc.ownsDev c) +
        (List.range σ.freshBo).countP (σ.holds c) = _
      rw [Function.update_self, Threads.devRefs]
      omega
    have hrefcnt : Threads.devRefcnt ((σ.incDev c).takeDev c) c = σ.devRefcnt c + 1 := Function.update_self ..
    refine Stage.mk_live ?_ ?_ (devListed_iff.mpr ⟨dev, hd.memory, hd.entry⟩) hd.waiting hd.leaving hd.frees
    · show (σ.dev c).map (fun _ => Threads.devRefcnt _ c) = some (Threads.devRefs c _ : Int)
      rw [hd.memory, hrefs, hrefcnt, hd.refcnt]
      rfl
    · show 0 < Threads.devRefs c _
      rw [hrefs]
      exact Nat.succ_pos _
  · rw [hsame.devLife (Function.update_of_ne hcd _ _) ?_ rfl rfl]
    · exact h.devStage c
    · refine hsame.devRefs ?_ fun _ => rfl
      exact congrArg (· + _) (Function.update_of_ne hcd _ _)

theorem Inv.refBo (h : Inv σ) (hb : LiveBo b bo σ) : Inv ((σ.incBo b).takeBo b) := by
  have hsame : σ.Same ((σ.incBo b).takeBo b) := ⟨rfl, rfl, rfl, rfl, rfl, rfl, rfl, rfl, rfl⟩
  refine h.fewer hsame (fun _ _ => Nat.le_refl _) h.devStage fun c => ?_
  rcases eq_or_ne c b with rfl | hcb
  · have hrefs : Threads.boRefs c ((σ.incBo c).takeBo c) = σ.boRefs c + 1 := by
      show Function.update σ.boCallers c (σ.boCallers c + 1) c + σ.tally (Pc.ownsBo c) = _
      rw [Function.update_self, Threads.boRefs]
      omega
    have hrefcnt : Threads.boRefcnt ((σ.incBo c).takeBo c) c = σ.boRefcnt c + 1 := Function.update_self ..
    refine Stage.mk_live ?_ ?_ hb.listed hb.waiting hb.leaving hb.frees
    · show (σ.bo c).map (fun _ => Threads.boRefcnt _ c) = some (Threads.boRefs c _ : Int)
      rw [hb.memory, hrefs, hrefcnt, hb.refcnt]
      rfl
    · show 0 < Threads.boRefs c _
      rw [hrefs]
      exact Nat.succ_pos _
  · rw [hsame.boLife (Function.update_of_ne hcb _ _) ?_ rfl rfl]
    · exact h.boStage c
    · exact congrArg (· + _) (Function.update_of_ne hcb _ _)

/-! ## References that are handed to a call -/

theorem tally_cons {p : Pc → Bool} : Threads.tally p { σ with calls := pc :: rest } =
    rest.countP p + if p pc then 1 else 0 := List.countP_cons

/-- What a caller gives up, the call has. -/
theorem Inv.handDev (h : Inv σ) (hpos : 0 < σ.devCallers d) (howns : ∀ c, pc.ownsDev c = decide (d = c))
    (hbo : ∀ b, pc.ownsBo b = false ∧ pc.boWaits b = false ∧ pc.boLeaves b = false ∧ pc.released b = false)
    (hdev : ∀ c, pc.devWaits c = false ∧ pc.devLeaves c = false)
    (hbrought : ∀ c handle, pc.brings c handle = true → σ.tally (Pc.brings c handle) = 0 ∧ handle ≠ 0 ∧
      (∀ dev, σ.dev c = some dev → σ.opened dev.fd handle = true) ∧
      ∀ table, σ.handleTable c = some table → table handle = none) :
    Inv { σ.giveDev d with calls := pc :: σ.calls } := by
  have htally : ∀ p, p pc = false → Threads.tally p { σ.giveDev d with calls := pc :: σ.calls } = σ.tally p := by
    intro p hp
    rw [Threads.tally, List.countP_cons_of_neg (by simpa using hp)]
    rfl
  have hsame : σ.Same { σ.giveDev d with calls := pc :: σ.calls } := ⟨rfl, rfl, rfl, rfl, rfl, rfl, rfl, rfl, rfl⟩
  refine h.same hsame ?_ ?_ (fun c => ?_) fun b => ?_
  · intro c handle hpos
    cases hbrings : pc.brings c handle with
    | true => exact (hbrought c handle hbrings).2
    | false =>
        rw [htally _ hbrings] at hpos
        exact h.brought hpos
  · intro c handle
    cases hbrings : pc.brings c handle with
    | true =>
        have hzero := (hbrought c handle hbrings).1
        rw [Threads.tally, List.countP_cons_of_pos hbrings]
        exact Nat.le_of_eq (congrArg (· + 1) hzero)
    | false =>
        rw [htally _ hbrings]
        exact h.once c handle
  · rw [hsame.devLife rfl ?_ (htally _ (hdev c).1) (htally _ (hdev c).2)]
    · exact h.devStage c
    · refine hsame.devRefs ?_ fun b => htally _ (hbo b).2.2.2
      rw [Threads.tally, List.countP_cons, howns]
      show Function.update σ.devCallers d (σ.devCallers d - 1) c + (σ.tally (Pc.ownsDev c) + _) = _
      rcases eq_or_ne c d with rfl | hcd
      · rw [Function.update_self, if_pos (decide_eq_true rfl)]
        omega
      · rw [Function.update_of_ne hcd, if_neg (by simpa using hcd.symm)]
        rfl
  · obtain ⟨howns, hwaits, hleaves, -⟩ := hbo b
    rw [hsame.boLife rfl ?_ (htally _ hwaits) (htally _ hleaves)]
    · exact h.boStage b
    · exact congrArg (_ + ·) (htally _ howns)

theorem Inv.handBo (h : Inv σ) (hpos : 0 < σ.boCallers b) : Inv { σ.giveBo b with calls := .boDec b :: σ.calls } := by
  have htally : ∀ p : Pc → Bool, p (.boDec b) = false →
      Threads.tally p { σ.giveBo b with calls := .boDec b :: σ.calls } = σ.tally p := by
    intro p hp
    rw [Threads.tally, List.countP_cons_of_neg (by simpa using hp)]
    rfl
  have hsame : σ.Same { σ.giveBo b with calls := .boDec b :: σ.calls } := ⟨rfl, rfl, rfl, rfl, rfl, rfl, rfl, rfl, rfl⟩
  refine h.fewer hsame (fun c handle => Nat.le_of_eq (htally _ rfl)) (fun d => ?_) fun c => ?_
  · rw [hsame.devLife rfl (hsame.devRefs (congrArg (_ + ·) (htally _ rfl)) fun c => htally _ rfl) (htally _ rfl)
      (htally _ rfl)]
    exact h.devStage d
  · rw [hsame.boLife rfl ?_ (htally _ rfl) (htally _ rfl)]
    · exact h.boStage c
    · show Function.update σ.boCallers b (σ.boCallers b - 1) c + (Pc.boDec b :: σ.calls).countP (Pc.ownsBo c) = _
      rw [List.countP_cons, Threads.boRefs, Threads.tally]
      rcases eq_or_ne c b with rfl | hcb
      · rw [Function.update_self, if_pos (by simp [Pc.ownsBo])]
        omega
      · rw [Function.update_of_ne hcb, if_neg (by simpa [Pc.ownsBo] using hcb.symm)]
        rfl

/-- A call gives the reference back to its caller. -/
theorem Inv.returnDev (h : Inv σ) (hcalls : σ.calls = .boNew d handle :: rest) :
    Inv (Threads.takeDev d { σ with calls := rest }) := by
  have htally : ∀ p : Pc → Bool, p (.boNew d handle) = false →
      Threads.tally p (Threads.takeDev d { σ with calls := rest }) = σ.tally p := by
    intro p hp
    rw [Threads.tally, Threads.tally, hcalls, List.countP_cons_of_neg (by simpa using hp)]
    rfl
  have hsame : σ.Same (Threads.takeDev d { σ with calls := rest }) := ⟨rfl, rfl, rfl, rfl, rfl, rfl, rfl, rfl, rfl⟩
  refine h.fewer hsame (fun c handle' => ?_) (fun c => ?_) fun b => ?_
  · rw [Threads.tally, Threads.tally, hcalls, List.countP_cons]
    exact Nat.le_add_right _ _
  · rw [hsame.devLife rfl ?_ (htally _ rfl) (htally _ rfl)]
    · exact h.devStage c
    · refine hsame.devRefs ?_ fun b => htally _ rfl
      rw [Threads.tally, Threads.tally, hcalls, List.countP_cons]
      show Function.update σ.devCallers d (σ.devCallers d + 1) c + rest.countP (Pc.ownsDev c) = _
      rcases eq_or_ne c d with rfl | hcd
      · rw [Function.update_self, if_pos (by simp [Pc.ownsDev])]
        omega
      · rw [Function.update_of_ne hcd, if_neg (by simpa [Pc.ownsDev] using hcd.symm)]
        rfl
  · rw [hsame.boLife rfl (congrArg (_ + ·) (htally _ rfl)) (htally _ rfl) (htally _ rfl)]
    exact h.boStage b

/-! ## References that are given up -/

/-- `atomic_dec_and_test` of a buffer. -/
theorem Inv.decBo (h : Inv σ) (hcalls : σ.calls = .boDec b :: rest) (hb : LiveBo b bo σ) :
    Inv { σ.decBo b with
      calls := if σ.boRefcnt b = 1 then (if bo.handle ≠ 0 then .boUnlist b else .boRelease b) :: rest else rest } := by
  rw [if_pos (h.handle hb.memory)]
  generalize hafter : (if σ.boRefcnt b = 1 then Pc.boUnlist b :: rest else rest) = after
  have htally : ∀ p : Pc → Bool, p (.boDec b) = false → p (.boUnlist b) = false → after.countP p = σ.tally p := by
    intro p hdec hunlist
    rw [Threads.tally, hcalls, List.countP_cons_of_neg (by simpa using hdec), ← hafter]
    split
    · rw [List.countP_cons_of_neg (by simpa using hunlist)]
    · rfl
  have howned : after.countP (Pc.ownsBo b) + 1 = σ.tally (Pc.ownsBo b) := by
    rw [Threads.tally, hcalls, List.countP_cons, if_pos (by simp [Pc.ownsBo]), ← hafter]
    split
    · rw [List.countP_cons_of_neg (by simp [Pc.ownsBo])]
    · rfl
  have hsame : σ.Same { σ.decBo b with calls := after } := ⟨rfl, rfl, rfl, rfl, rfl, rfl, rfl, rfl, rfl⟩
  refine h.fewer hsame (fun _ _ => Nat.le_of_eq (htally _ rfl rfl)) (fun d => ?_) fun c => ?_
  · rw [hsame.devLife rfl (hsame.devRefs (congrArg (_ + ·) (htally _ rfl rfl)) fun c => htally _ rfl rfl)
      (htally _ rfl rfl) (htally _ rfl rfl)]
    exact h.devStage d
  rcases eq_or_ne c b with rfl | hcb
  · have hrefs : Threads.boRefs c { σ.decBo c with calls := after } + 1 = σ.boRefs c := by
      show σ.boCallers c + after.countP (Pc.ownsBo c) + 1 = σ.boCallers c + σ.tally (Pc.ownsBo c)
      omega
    have hcount : Life.count (Threads.boLife c { σ.decBo c with calls := after }) = some (σ.boRefcnt c - 1) := by
      show (σ.bo c).map _ = _
      rw [hb.memory]
      exact congrArg some (Function.update_self ..)
    have hrefcnt := hb.refcnt
    by_cases hone : σ.boRefcnt c = 1
    · rw [if_pos hone] at hafter
      have hwaits : after.countP (Pc.boWaits c) = 1 := by
        have hzero := hb.waiting
        rw [Threads.tally, hcalls, List.countP_cons_of_neg (by simp [Pc.boWaits])] at hzero
        rw [← hafter, List.countP_cons_of_pos (by simp [Pc.boWaits]), hzero]
      refine Stage.mk_dying ?_ hb.listed ?_ hwaits ((htally _ rfl rfl).trans hb.leaving) hb.frees
      · rw [hcount, hone]
        rfl
      · show Threads.boRefs c _ = 0
        omega
    · rw [if_neg hone] at hafter
      have hwaits : after.countP (Pc.boWaits c) = 0 := by
        have hzero := hb.waiting
        rwa [Threads.tally, hcalls, List.countP_cons_of_neg (by simp [Pc.boWaits]), hafter] at hzero
      have hpos := hb.pos
      refine Stage.mk_live ?_ ?_ hb.listed hwaits ((htally _ rfl rfl).trans hb.leaving) hb.frees
      · rw [hcount]
        refine congrArg some ?_
        show _ = ((Threads.boRefs c _ : Nat) : Int)
        omega
      · show 0 < Threads.boRefs c _
        omega
  · have hne : ∀ {x y : BoId}, x ≠ y → decide (y = x) = false := fun hxy => decide_eq_false hxy.symm
    rw [hsame.boLife (Function.update_of_ne hcb _ _) (congrArg (_ + ·) (htally _ (hne hcb) rfl)) (htally _ rfl (hne hcb))
      (htally _ rfl rfl)]
    exact h.boStage c

/-- What a call does after `atomic_dec_and_test` of a device. -/
def afterDec (d : DevId) (next : Option BoId) (rest : List Pc) (σ : Threads) : List Pc :=
  if σ.devRefcnt d = 1 then .devUnlist d next :: rest else (next.map Pc.boFree).toList ++ rest

theorem countP_next {p : Pc → Bool} {next : Option BoId} : ((next.map Pc.boFree).toList ++ rest).countP p =
    rest.countP p + if next.any (fun b => p (.boFree b)) then 1 else 0 := by
  cases next with
  | none => rfl
  | some b =>
      show (Pc.boFree b :: rest).countP p = _
      rw [List.countP_cons]
      rfl

/-- Whether the device is to be freed or not, the buffer is. -/
theorem countP_afterDec {p : Pc → Bool} {next : Option BoId} (hp : p (.devUnlist d next) = next.any fun b => p (.boFree b)) :
    (afterDec d next rest σ).countP p = rest.countP p + if next.any (fun b => p (.boFree b)) then 1 else 0 := by
  unfold afterDec
  split
  · rw [List.countP_cons, hp]
  · exact countP_next

theorem countP_afterDec_other {p : Pc → Bool} {next : Option BoId} (hunlist : p (.devUnlist d next) = false)
    (hfree : ∀ b, p (.boFree b) = false) : (afterDec d next rest σ).countP p = rest.countP p := by
  have hnone : (next.any fun b => p (.boFree b)) = false := by
    cases next with
    | none => rfl
    | some b => exact hfree b
  rw [countP_afterDec (by rw [hunlist, hnone]), hnone, if_neg Bool.false_ne_true]
  rfl

theorem countP_devWaits_afterDec {c : DevId} {next : Option BoId} : (afterDec d next rest σ).countP (Pc.devWaits c) =
    rest.countP (Pc.devWaits c) + if c = d ∧ σ.devRefcnt d = 1 then 1 else 0 := by
  unfold afterDec
  split
  · next hone =>
    rw [List.countP_cons]
    by_cases hcd : c = d
    · rw [if_pos (by simp [Pc.devWaits, hcd]), if_pos ⟨hcd, hone⟩]
    · rw [if_neg (by simpa [Pc.devWaits] using Ne.symm hcd), if_neg fun hand => hcd hand.1]
  · next hone =>
    rw [if_neg fun hand => hone hand.2]
    cases next with
    | none => rfl
    | some b => rfl

/-- `atomic_dec_and_test` of a device, by a call that gives up a reference to it. -/
theorem Inv.decDev {next : Option BoId} (h : Inv σ) (hd : LiveDev d dev table σ)
    (hrefs : ∀ c, Threads.devRefs c { σ.decDev d with calls := afterDec d next rest σ } + (if c = d then 1 else 0) =
      σ.devRefs c)
    (hcalls : σ.calls = pc :: rest) (hpc : pc = .devDec d ∨ ∃ b, pc = .boRelease b)
    (hleaves : ∀ b, (afterDec d next rest σ).countP (Pc.boLeaves b) = σ.tally (Pc.boLeaves b)) :
    Inv { σ.decDev d with calls := afterDec d next rest σ } := by
  have hsame : σ.Same { σ.decDev d with calls := afterDec d next rest σ } := ⟨rfl, rfl, rfl, rfl, rfl, rfl, rfl, rfl, rfl⟩
  have hrest : ∀ p : Pc → Bool, p (.devDec d) = false → (∀ b, p (.boRelease b) = false) → rest.countP p = σ.tally p := by
    intro p hdec hrelease
    have hfalse : p pc = false := by
      rcases hpc with rfl | ⟨b, rfl⟩
      · exact hdec
      · exact hrelease b
    rw [Threads.tally, hcalls, List.countP_cons_of_neg (by simpa using hfalse)]
  have hother : ∀ p : Pc → Bool, p (.devUnlist d next) = false → (∀ b, p (.boFree b) = false) →
      p (.devDec d) = false → (∀ b, p (.boRelease b) = false) → (afterDec d next rest σ).countP p = σ.tally p := by
    intro p hunlist hfree hdec hrelease
    rw [countP_afterDec_other hunlist hfree]
    exact hrest p hdec hrelease
  have hwaits : ∀ c, (afterDec d next rest σ).countP (Pc.devWaits c) =
      σ.tally (Pc.devWaits c) + if c = d ∧ σ.devRefcnt d = 1 then 1 else 0 := by
    intro c
    rw [countP_devWaits_afterDec, hrest _ rfl fun _ => rfl]
  refine h.fewer hsame (fun c handle => Nat.le_of_eq ?_) (fun c => ?_) fun b => ?_
  · exact hother _ rfl (fun _ => rfl) rfl fun _ => rfl
  · have hcrefs := hrefs c
    have hleaving : (afterDec d next rest σ).countP (Pc.devLeaves c) = σ.tally (Pc.devLeaves c) :=
      hother _ rfl (fun _ => rfl) rfl fun _ => rfl
    rcases eq_or_ne c d with rfl | hcd
    · rw [if_pos rfl] at hcrefs
      have hwaiting := hwaits c
      rw [hd.waiting] at hwaiting
      have hlisted := (devListed_iff).mpr ⟨dev, hd.memory, hd.entry⟩
      have hcount : Life.count (Threads.devLife c { σ.decDev c with calls := afterDec c next rest σ }) =
          some (σ.devRefcnt c - 1) := by
        show (σ.dev c).map _ = _
        rw [hd.memory]
        exact congrArg some (Function.update_self ..)
      have hrefcnt := hd.refcnt
      by_cases hone : σ.devRefcnt c = 1
      · rw [if_pos ⟨rfl, hone⟩] at hwaiting
        refine Stage.mk_dying ?_ hlisted ?_ hwaiting (hleaving.trans hd.leaving) hd.frees
        · rw [hcount, hone]
          rfl
        · show Threads.devRefs c _ = 0
          omega
      · rw [if_neg fun hand => hone hand.2] at hwaiting
        have hpos := hd.pos
        refine Stage.mk_live ?_ ?_ hlisted hwaiting (hleaving.trans hd.leaving) hd.frees
        · rw [hcount]
          refine congrArg some ?_
          show _ = ((Threads.devRefs c _ : Nat) : Int)
          omega
        · show 0 < Threads.devRefs c _
          omega
    · rw [if_neg hcd] at hcrefs
      have hwaiting := hwaits c
      rw [if_neg fun hand => hcd hand.1] at hwaiting
      rw [hsame.devLife (Function.update_of_ne hcd _ _) hcrefs hwaiting hleaving]
      exact h.devStage c
  · rw [hsame.boLife rfl (congrArg (_ + ·) (hother _ rfl (fun _ => rfl) rfl fun _ => rfl))
      (hother _ rfl (fun _ => rfl) rfl fun _ => rfl) (hleaves b)]
    exact h.boStage b

/-- `omap_device_del` by a caller. -/
theorem Inv.decDev_caller (h : Inv σ) (hcalls : σ.calls = .devDec d :: rest) (hd : LiveDev d dev table σ) :
    Inv { σ.decDev d with calls := afterDec d none rest σ } := by
  have hcount : ∀ p : Pc → Bool, p (.devUnlist d none) = false → (afterDec d none rest σ).countP p = rest.countP p :=
    fun p hunlist => countP_afterDec hunlist
  have hsame : σ.Same { σ.decDev d with calls := afterDec d none rest σ } := ⟨rfl, rfl, rfl, rfl, rfl, rfl, rfl, rfl, rfl⟩
  have hbo : ∀ p : Pc → Bool, p (.devUnlist d none) = false → p (.devDec d) = false →
      (afterDec d none rest σ).countP p = σ.tally p := by
    intro p hunlist hdec
    rw [hcount p hunlist, Threads.tally, hcalls, List.countP_cons_of_neg (by simpa using hdec)]
  refine h.decDev hd (fun c => ?_) hcalls (.inl rfl) fun b => hbo _ rfl rfl
  have hholds : (List.range σ.freshBo).countP (Threads.holds c { σ.decDev d with calls := afterDec d none rest σ }) =
      (List.range σ.freshBo).countP (σ.holds c) :=
    List.countP_congr fun b _ => by rw [hsame.holds (hbo _ rfl rfl)]
  have howned : (afterDec d none rest σ).countP (Pc.ownsDev c) + (if c = d then 1 else 0) = σ.tally (Pc.ownsDev c) := by
    rw [hcount _ rfl, Threads.tally, hcalls, List.countP_cons]
    refine congrArg (_ + ·) (if_congr ?_ rfl rfl)
    simp [Pc.ownsDev, eq_comm]
  show σ.devCallers c + (afterDec d none rest σ).countP (Pc.ownsDev c) + (List.range σ.freshBo).countP _ + _ = _
  rw [hholds, Threads.devRefs, ← howned]
  omega

/-- A property of one number ends. -/
theorem countP_range_ends {n b : Nat} {p q : Nat → Bool} (hb : b < n) (hp : p b = true) (hq : q b = false)
    (hother : ∀ c, c ≠ b → q c = p c) : (List.range n).countP q + 1 = (List.range n).countP p := by
  have hmem : b ∈ List.range n := List.mem_range.mpr hb
  have hperm := List.perm_cons_erase hmem
  rw [hperm.countP_eq q, hperm.countP_eq p, List.countP_cons_of_neg (by simpa using hq), List.countP_cons_of_pos hp]
  refine congrArg (· + 1) (List.countP_congr fun c hc => ?_)
  have hcb : c ≠ b := fun heq => List.nodup_range.not_mem_erase (heq ▸ hc)
  rw [hother c hcb]

/-- The call is the only one that has to do with the buffer. -/
theorem Inv.releasing (h : Inv σ) (hcalls : σ.calls = .boRelease b :: rest) :
    (∃ bo, σ.bo b = some bo) ∧ σ.tally (Pc.released b) = 0 := by
  have hbefore : σ.tally (Pc.boLeaves b) = rest.countP (Pc.boLeaves b) + 1 := by
    rw [Threads.tally, hcalls, List.countP_cons_of_pos (by simp [Pc.boLeaves])]
  obtain ⟨hcount, -, -, -, hone, -⟩ :=
    (h.boStage b).of_leaving (show 0 < σ.tally (Pc.boLeaves b) by rw [hbefore]; exact Nat.succ_pos _)
  obtain ⟨bo, hbo, -⟩ := Option.map_eq_some_iff.mp hcount
  refine ⟨⟨bo, hbo⟩, ?_⟩
  have hzero : rest.countP (Pc.boLeaves b) = 0 := Nat.succ.inj (hbefore.symm.trans hone)
  have hle : rest.countP (Pc.released b) ≤ rest.countP (Pc.boLeaves b) :=
    List.countP_mono_left fun _ _ => Pc.boLeaves_of_released
  rw [Threads.tally, hcalls, List.countP_cons_of_neg (by simp [Pc.released])]
  omega

/-- `omap_device_del` by `omap_bo_del`. -/
theorem Inv.decDev_bo (h : Inv σ) (hcalls : σ.calls = .boRelease b :: rest) (hbo : σ.bo b = some bo)
    (hd : LiveDev bo.dev dev table σ) :
    Inv { σ.decDev bo.dev with calls := afterDec bo.dev (some b) rest σ } := by
  have hcount : ∀ p : Pc → Bool, p (.devUnlist bo.dev (some b)) = p (.boFree b) →
      (afterDec bo.dev (some b) rest σ).countP p = rest.countP p + if p (.boFree b) then 1 else 0 :=
    fun p hunlist => countP_afterDec hunlist
  have hbefore : ∀ p : Pc → Bool, σ.tally p = rest.countP p + if p (.boRelease b) then 1 else 0 := by
    intro p
    rw [Threads.tally, hcalls, List.countP_cons]
  have hleaves : ∀ c, (afterDec bo.dev (some b) rest σ).countP (Pc.boLeaves c) = σ.tally (Pc.boLeaves c) := by
    intro c
    rw [hcount _ (by simp [Pc.boLeaves]), hbefore]
    rfl
  have hreleased : ∀ c, (afterDec bo.dev (some b) rest σ).countP (Pc.released c) =
      σ.tally (Pc.released c) + if b = c then 1 else 0 := by
    intro c
    rw [hcount _ (by simp [Pc.released]), hbefore]
    simp [Pc.released]
  have hlast := (h.releasing hcalls).2
  have hsame : σ.Same { σ.decDev bo.dev with calls := afterDec bo.dev (some b) rest σ } :=
    ⟨rfl, rfl, rfl, rfl, rfl, rfl, rfl, rfl, rfl⟩
  have hother : ∀ {c d}, d ≠ b →
      Threads.holds c { σ.decDev bo.dev with calls := afterDec bo.dev (some b) rest σ } d = σ.holds c d := by
    intro c d hdb
    refine hsame.holds ((hreleased d).trans ?_)
    rw [if_neg hdb.symm]
    rfl
  have hself : ∀ {c}, Threads.holds c { σ.decDev bo.dev with calls := afterDec bo.dev (some b) rest σ } b = false := by
    intro c
    refine Bool.eq_false_iff.mpr fun hholds => ?_
    obtain ⟨-, -, -, hzero⟩ := (holds_iff).mp hholds
    have := hreleased b
    rw [if_pos rfl] at this
    exact absurd (this.symm.trans hzero) (Nat.succ_ne_zero _)
  refine h.decDev hd (fun c => ?_) hcalls (.inr ⟨b, rfl⟩) hleaves
  have howned : (afterDec bo.dev (some b) rest σ).countP (Pc.ownsDev c) = σ.tally (Pc.ownsDev c) := by
    rw [hcount _ rfl, hbefore]
    rfl
  have hholds : (List.range σ.freshBo).countP
      (Threads.holds c { σ.decDev bo.dev with calls := afterDec bo.dev (some b) rest σ }) + (if c = bo.dev then 1 else 0) =
      (List.range σ.freshBo).countP (σ.holds c) := by
    by_cases hc : c = bo.dev
    · rw [if_pos hc]
      exact countP_range_ends (h.lt_freshBo hbo) (holds_iff.mpr ⟨bo, hbo, hc.symm, hlast⟩) hself fun _ => hother
    · rw [if_neg hc]
      refine List.countP_congr fun d _ => ?_
      rcases eq_or_ne d b with rfl | hdb
      · have hnot : σ.holds c d = false := by
          refine Bool.eq_false_iff.mpr fun hholds => ?_
          obtain ⟨bo', hbo', hdev, -⟩ := (holds_iff).mp hholds
          cases hbo.symm.trans hbo'
          exact hc hdev.symm
        rw [hself, hnot]
      · rw [hother hdb]
  show σ.devCallers c + (afterDec bo.dev (some b) rest σ).countP (Pc.ownsDev c) + (List.range σ.freshBo).countP _ + _ = _
  rw [howned, Threads.devRefs, ← hholds]
  omega

end LibDrm.Omap
