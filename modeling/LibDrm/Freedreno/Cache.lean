/-
# `LibDrm.Freedreno.Cache` — who holds a buffer

A session is a device, and how many references to each buffer its callers hold.

    Tables     the tables, the cache and the references fit together
    Clean      what a call has to respect for that: a buffer that goes to the cache has no name,
               and a handle that comes from outside is not in the handle table

A buffer with a name that goes to the cache is still in the name table, from where it comes back
without leaving its bucket.  A handle that is in the table gets another `fd_bo`, which is not.
-/
import LibDrm.Freedreno.Bo

namespace LibDrm.Freedreno

/-! ## Sessions -/

/-- The calls with the answers of the kernel, of `malloc` and of the clock.  `receive` is a dmabuf that comes from
    another process. -/
inductive BoCall
  | new (size : Word) (idle : Bool) (ret : Int) (handle : Word) (obj : Object) (alloc : Bool)
  | fromHandle (handle size : Word) (obj : Object) (alloc : Bool)
  | fromDmabuf (fd ret : Int) (handle : Word) (alloc : Bool)
  | fromName (name : Word) (ret : Int) (handle size : Word) (obj : Object) (alloc : Bool)
  | ref (b : BoId)
  | del (b : BoId) (time : Int)
  | getName (b : BoId) (ret : Int) (name : Word)
  | dmabuf (b : BoId) (ret fd copy : Int)
  | receive (fd : Int) (obj : Object)

/-- The buffer to which the caller gets a reference, if there is one. -/
def BoCall.run : BoCall → Device → Except Fault (Option BoId × Device)
  | .new size idle ret handle obj alloc, dev => fdBoNew size.toNat idle ret handle obj alloc dev
  | .fromHandle handle size obj alloc, dev => .ok (fdBoFromHandle handle size.toNat obj alloc dev)
  | .fromDmabuf fd ret handle alloc, dev => .ok (fdBoFromDmabuf fd ret handle alloc dev)
  | .fromName name ret handle size obj alloc, dev => fdBoFromName name ret handle size.toNat obj alloc dev
  | .ref b, dev => return (some b, ← fdBoRef b dev)
  | .del b time, dev => return (none, ← fdBoDel b time dev)
  | .getName b ret name, dev => return (none, ← fdBoGetName b ret name dev)
  | .dmabuf b ret fd copy, dev => return (none, ← fdBoDmabuf b ret fd copy dev)
  | .receive fd obj, dev => .ok (none, dev.openFd fd (some obj))

/-- A device, and the references that its callers hold. -/
structure Session where
  dev : Device := {}
  held : BoId → Nat := fun _ => 0

/-- Callers use only what they hold. -/
def BoCall.Held (held : BoId → Nat) : BoCall → Prop
  | .ref b => 0 < held b
  | .del b _ => 0 < held b
  | .getName b _ _ => 0 < held b
  | .dmabuf b _ _ _ => 0 < held b
  | _ => True

/-- How the kernel answers: a new object gets a new handle, a name is always opened under a new handle, and a dmabuf of
    an object that is open is imported under a handle that it has. -/
def BoCall.Answered (dev : Device) : BoCall → Prop
  | .new _ _ ret handle obj _ => ret = 0 → handle ≠ 0 ∧ dev.kernel.handles handle = none ∧
      ∀ h, dev.kernel.handles h ≠ some obj
  | .fromHandle handle _ _ _ => handle ≠ 0
  | .fromDmabuf fd ret handle _ => ret = 0 → handle ≠ 0 ∧ ∃ obj, dev.kernel.fds fd = some obj ∧
      (dev.kernel.handles handle = some obj ∨
        dev.kernel.handles handle = none ∧ ∀ h, dev.kernel.handles h ≠ some obj)
  | .fromName name ret handle _ _ _ => ret = 0 → name ≠ 0 ∧ handle ≠ 0 ∧ dev.kernel.handles handle = none
  | .getName _ ret name => ret = 0 → name ≠ 0
  | .dmabuf _ _ fd copy => dev.kernel.fds fd = none ∧ dev.kernel.fds copy = none ∧ fd ≠ copy
  | .receive fd _ => dev.kernel.fds fd = none
  | _ => True

def take (b : Option BoId) (held : BoId → Nat) : BoId → Nat :=
  match b with
  | none => held
  | some b => Function.update held b (held b + 1)

/-- The references after a call that returned `b`. -/
def BoCall.hold (call : BoCall) (b : Option BoId) (held : BoId → Nat) : BoId → Nat :=
  match call with
  | .del d _ => Function.update held d (held d - 1)
  | _ => take b held

def Session.Init (t : Session) : Prop := t = {}

def Session.StepBy (call : BoCall) (t t' : Session) : Prop :=
  ∃ b, call.run t.dev = .ok (b, t'.dev) ∧ t'.held = call.hold b t.held ∧ call.Held t.held ∧ call.Answered t.dev

/-- The buffer goes to the cache without a name, and the handle is not in the table. -/
def BoCall.Clean (dev : Device) : BoCall → Prop
  | .fromHandle handle _ _ _ => dev.handleTable handle = none
  | .fromDmabuf _ ret handle _ => ret = 0 → dev.handleTable handle = none
  | .del b _ => ∀ bo, dev.bo b = some bo → bo.refcnt = 1 → bo.boReuse → (getBucket bo.size).isSome → bo.name = 0
  | _ => True

/-! ## What holds in a clean session -/

/-- The tables have the buffers that are there, and a buffer in the cache has no name and no holder.  Without `exports`
    no buffer of the library gets a name. -/
structure Tables (exports : Prop) (held : BoId → Nat) (dev : Device) : Prop where
  handle : ∀ {h b}, dev.handleTable h = some b ↔ ∃ bo, dev.bo b = some bo ∧ bo.handle = h
  opened : ∀ h, (dev.kernel.handles h).isSome = (dev.handleTable h).isSome
  nonzero : ∀ {b bo}, dev.bo b = some bo → bo.handle ≠ 0
  name : ∀ {n b}, dev.nameTable n = some b → ∃ bo, dev.bo b = some bo ∧ bo.name = n ∧ n ≠ 0
  cached : ∀ {i b}, b ∈ dev.cacheBucket i → ∃ bo, dev.bo b = some bo ∧ bo.refcnt = 0 ∧ bo.name = 0 ∧
    bucketSizes[i]? = some bo.size
  once : ∀ i, (dev.cacheBucket i).Nodup
  count : ∀ {b bo}, dev.bo b = some bo → bo.refcnt = held b
  gone : ∀ {b}, dev.bo b = none → held b = 0
  sizes : ∀ {b bo i}, dev.bo b = some bo → bo.boReuse → getBucket bo.size = some i → bucketSizes[i]? = some bo.size
  unnamed : ∀ {b bo}, dev.bo b = some bo → bo.boReuse → exports ∨ bo.name = 0
  fresh : ∀ {b}, dev.fresh ≤ b → dev.bo b = none

section Tables

variable {exports : Prop} {held held' : BoId → Nat} {dev dev' : Device} {b d : BoId} {bo bo' : FdBo} {i : Nat}

def Uncached (b : BoId) (dev : Device) : Prop := ∀ i, b ∉ dev.cacheBucket i

theorem Tables.init : Tables exports (fun _ => 0) {} := by
  constructor
  case handle =>
    intro h b
    constructor
    · intro hb
      cases hb
    · rintro ⟨bo, hb, -⟩
      cases hb
  case opened => exact fun _ => rfl
  case once => exact fun _ => List.nodup_nil
  case gone => exact fun _ => rfl
  case fresh => exact fun _ => rfl
  all_goals
    intros
    simp_all

/-- What is held is not in the cache. -/
theorem Tables.uncached (h : Tables exports held dev) (hheld : 0 < held b) : Uncached b dev := by
  intro i hmem
  obtain ⟨bo, hb, hzero, -⟩ := h.cached hmem
  have := h.count hb
  omega

theorem bucketSizes_nodup : bucketSizes.Nodup := by decide

theorem Tables.bucket_unique (h : Tables exports held dev) {j : Nat} (hi : b ∈ dev.cacheBucket i)
    (hj : b ∈ dev.cacheBucket j) : i = j := by
  obtain ⟨bo, hb, -, -, hsize⟩ := h.cached hi
  obtain ⟨x, hx, -, -, hsize'⟩ := h.cached hj
  cases hb.symm.trans hx
  obtain ⟨hlt, hi'⟩ := List.getElem?_eq_some_iff.mp hsize
  obtain ⟨hlt', hj'⟩ := List.getElem?_eq_some_iff.mp hsize'
  exact (bucketSizes_nodup.getElem_inj_iff).mp (hi'.trans hj'.symm)

/-! ### One buffer changes -/

theorem dev_setBo_bo {x : FdBo} (h : (dev.setBo b bo).bo d = some x) : d = b ∧ x = bo ∨ d ≠ b ∧ dev.bo d = some x := by
  simp only [Device.setBo, Function.update_apply] at h
  split at h
  · next hd => exact .inl ⟨hd, (Option.some.inj h).symm⟩
  · next hd => exact .inr ⟨hd, h⟩

@[simp] theorem dev_setBo_self : (dev.setBo b bo).bo b = some bo := by simp [Device.setBo]

theorem dev_setBo_of_ne (h : d ≠ b) : (dev.setBo b bo).bo d = dev.bo d := by simp [Device.setBo, h]

/-- A buffer outside of the cache changes, but neither its handle nor its name. -/
theorem Tables.setBo (h : Tables exports held dev) (hb : dev.bo b = some bo) (hfree : Uncached b dev)
    (hhandle : bo'.handle = bo.handle) (hname : bo'.name = bo.name)
    (hsizes : bo'.boReuse → (bo.boReuse ∧ bo'.size = bo.size) ∨
      bo.name = 0 ∧ ∀ i, getBucket bo'.size = some i → bucketSizes[i]? = some bo'.size)
    (hheld : ∀ d, d ≠ b → held' d = held d) (hcount : bo'.refcnt = held' b) :
    Tables exports held' (dev.setBo b bo') := by
  have hback : ∀ {d x}, (dev.setBo b bo').bo d = some x → ∃ y, dev.bo d = some y ∧ x.handle = y.handle ∧
      x.name = y.name := by
    intro d x hd
    rcases dev_setBo_bo hd with ⟨rfl, rfl⟩ | ⟨-, hd⟩
    · exact ⟨bo, hb, hhandle, hname⟩
    · exact ⟨x, hd, rfl, rfl⟩
  have hforth : ∀ {d y}, dev.bo d = some y → ∃ x, (dev.setBo b bo').bo d = some x ∧ x.handle = y.handle ∧
      x.name = y.name := by
    intro d y hd
    rcases eq_or_ne d b with rfl | hdb
    · cases hb.symm.trans hd
      exact ⟨bo', dev_setBo_self, hhandle, hname⟩
    · exact ⟨y, by rw [dev_setBo_of_ne hdb]; exact hd, rfl, rfl⟩
  constructor
  case handle =>
    intro k d
    refine h.handle.trans ⟨?_, ?_⟩
    · rintro ⟨y, hy, rfl⟩
      obtain ⟨x, hx, hxy, -⟩ := hforth hy
      exact ⟨x, hx, hxy⟩
    · rintro ⟨x, hx, rfl⟩
      obtain ⟨y, hy, hxy, -⟩ := hback hx
      exact ⟨y, hy, hxy.symm⟩
  case opened => exact h.opened
  case nonzero =>
    intro d x hd
    obtain ⟨y, hy, hxy, -⟩ := hback hd
    rw [hxy]
    exact h.nonzero hy
  case name =>
    intro n d hd
    obtain ⟨y, hy, hn, hzero⟩ := h.name hd
    obtain ⟨x, hx, -, hxy⟩ := hforth hy
    exact ⟨x, hx, hxy.trans hn, hzero⟩
  case cached =>
    intro i d hd
    obtain ⟨y, hy, hrest⟩ := h.cached hd
    have hdb : d ≠ b := by
      rintro rfl
      exact hfree i hd
    exact ⟨y, by rw [dev_setBo_of_ne hdb]; exact hy, hrest⟩
  case once => exact h.once
  case count =>
    intro d x hd
    rcases dev_setBo_bo hd with ⟨rfl, rfl⟩ | ⟨hdb, hd⟩
    · exact hcount
    · rw [hheld d hdb]
      exact h.count hd
  case gone =>
    intro d hd
    rcases eq_or_ne d b with rfl | hdb
    · rw [dev_setBo_self] at hd
      cases hd
    · rw [dev_setBo_of_ne hdb] at hd
      rw [hheld d hdb]
      exact h.gone hd
  case sizes =>
    intro d x i hd hreuse hbucket
    rcases dev_setBo_bo hd with ⟨rfl, rfl⟩ | ⟨-, hd⟩
    · rcases hsizes hreuse with ⟨hreuse, hsize⟩ | ⟨-, hsizes⟩
      · rw [hsize] at hbucket ⊢
        exact h.sizes hb hreuse hbucket
      · exact hsizes i hbucket
    · exact h.sizes hd hreuse hbucket
  case unnamed =>
    intro d x hd hreuse
    rcases dev_setBo_bo hd with ⟨rfl, rfl⟩ | ⟨-, hd⟩
    · rw [hname]
      rcases hsizes hreuse with ⟨hreuse, -⟩ | ⟨hzero, -⟩
      · exact h.unnamed hb hreuse
      · exact .inr hzero
    · exact h.unnamed hd hreuse
  case fresh =>
    intro d hd
    rcases eq_or_ne d b with rfl | hdb
    · rw [h.fresh hd] at hb
      cases hb
    · rw [dev_setBo_of_ne hdb]
      exact h.fresh hd

/-- A buffer that nobody holds goes away. -/
theorem Tables.erase (h : Tables exports held dev) (hb : dev.bo b = some bo) (hfree : Uncached b dev)
    (hzero : held b = 0) : Tables exports held { dev.closeHandle bo.handle with
      bo := Function.update dev.bo b none, handleTable := hashDelete bo.handle dev.handleTable
      nameTable := if bo.name ≠ 0 then hashDelete bo.name dev.nameTable else dev.nameTable } := by
  have hback : ∀ {d x}, Function.update dev.bo b none d = some x → d ≠ b ∧ dev.bo d = some x := by
    intro d x hd
    rw [Function.update_apply] at hd
    split at hd
    · cases hd
    · next hdb => exact ⟨hdb, hd⟩
  have hforth : ∀ {d x}, d ≠ b → dev.bo d = some x → Function.update dev.bo b none d = some x := by
    intro d x hdb hd
    rwa [Function.update_of_ne hdb]
  constructor
  case handle =>
    intro k d
    rcases eq_or_ne k bo.handle with rfl | hk
    · simp only [hashDelete, Function.update_self]
      refine ⟨nofun, ?_⟩
      rintro ⟨x, hx, hkx⟩
      obtain ⟨hdb, hx⟩ := hback hx
      have hd : dev.handleTable bo.handle = some d := h.handle.mpr ⟨x, hx, hkx⟩
      have hb' : dev.handleTable bo.handle = some b := h.handle.mpr ⟨bo, hb, rfl⟩
      rw [hb'] at hd
      cases hd
      exact absurd rfl hdb
    · simp only [hashDelete, Function.update_of_ne hk]
      refine h.handle.trans ⟨?_, ?_⟩
      · rintro ⟨x, hx, hkx⟩
        have hdb : d ≠ b := by
          rintro rfl
          cases hb.symm.trans hx
          exact hk hkx.symm
        exact ⟨x, hforth hdb hx, hkx⟩
      · rintro ⟨x, hx, hkx⟩
        exact ⟨x, (hback hx).2, hkx⟩
  case opened =>
    intro k
    rcases eq_or_ne k bo.handle with rfl | hk
    · simp [Device.closeHandle, hashDelete]
    · simp only [Device.closeHandle, hashDelete, Function.update_of_ne hk]
      exact h.opened k
  case nonzero => exact fun hd => h.nonzero (hback hd).2
  case name =>
    intro n d hd
    have hd' : dev.nameTable n = some d ∧ (bo.name = 0 ∨ n ≠ bo.name) := by
      simp only [hashDelete] at hd
      split at hd
      · rw [Function.update_apply] at hd
        split at hd
        · cases hd
        · next hn => exact ⟨hd, .inr hn⟩
      · next hn => exact ⟨hd, .inl (not_not.mp hn)⟩
    obtain ⟨x, hx, hn, hnonzero⟩ := h.name hd'.1
    have hdb : d ≠ b := by
      rintro rfl
      cases hb.symm.trans hx
      rcases hd'.2 with hz | hne
      · exact hnonzero (hn.symm.trans hz)
      · exact hne hn.symm
    exact ⟨x, hforth hdb hx, hn, hnonzero⟩
  case cached =>
    intro i d hd
    obtain ⟨x, hx, hrest⟩ := h.cached hd
    have hdb : d ≠ b := by
      rintro rfl
      exact hfree i hd
    exact ⟨x, hforth hdb hx, hrest⟩
  case once => exact h.once
  case count => exact fun hd => h.count (hback hd).2
  case gone =>
    intro d hd
    rcases eq_or_ne d b with rfl | hdb
    · exact hzero
    · exact h.gone ((Function.update_of_ne hdb _ _).symm.trans hd)
  case sizes => exact fun hd => h.sizes (hback hd).2
  case unnamed => exact fun hd => h.unnamed (hback hd).2
  case fresh =>
    intro d hd
    show Function.update dev.bo b none d = none
    rw [Function.update_apply]
    split
    · rfl
    · exact h.fresh hd

theorem dev_getBo_spec : Ensures (dev.getBo b) fun bo => dev.bo b = some bo := by
  unfold Device.getBo deref
  split
  · next h => exact .ok h
  · exact .error

theorem boDel_ok (h : Tables exports held dev) (hfree : Uncached b dev) (hzero : held b = 0) :
    Ensures (boDel b dev) fun dev' => Tables exports held dev' ∧ dev'.cacheBucket = dev.cacheBucket := by
  refine (dev_getBo_spec).bind fun bo hb => ?_
  dsimp only
  rw [if_pos (h.nonzero hb)]
  exact .pure ⟨h.erase hb hfree hzero, rfl⟩

/-! ### Handles and names -/

/-- What a call gives to its caller: a buffer that was not there or not held. -/
structure Given (exports : Prop) (held : BoId → Nat) (size : Nat) (p : Option BoId × Device) : Prop where
  tables : Tables exports (take p.1 held) p.2
  unheld : ∀ b, p.1 = some b → held b = 0
  large : ∀ b, p.1 = some b → ∃ bo, p.2.bo b = some bo ∧ size ≤ bo.size
  uncached : ∀ b, p.1 = some b → Uncached b p.2

theorem Tables.handles_none {handle : Word} (h : Tables exports held dev) (hnone : dev.handleTable handle = none) :
    dev.kernel.handles handle = none := by
  have := h.opened handle
  rw [hnone] at this
  simpa using this

/-- A new buffer under a handle that is not in the table. -/
theorem Tables.add {handle : Word} {size : Nat} {obj : Object} (h : Tables exports held dev)
    (hnone : dev.handleTable handle = none) (hzero : handle ≠ 0) :
    Tables exports (take (some dev.fresh) held) { (dev.openHandle handle obj).setBo dev.fresh { size, handle } with
      fresh := dev.fresh + 1, handleTable := hashInsert handle dev.fresh dev.handleTable } := by
  have hfresh : dev.bo dev.fresh = none := h.fresh le_rfl
  have hfree : Uncached dev.fresh dev := by
    intro i hmem
    obtain ⟨bo, hb, -⟩ := h.cached hmem
    rw [hfresh] at hb
    cases hb
  have hinsert : hashInsert handle dev.fresh dev.handleTable = Function.update dev.handleTable handle (some dev.fresh) := by
    simp [hashInsert, hnone]
  have hforth : ∀ {d x}, dev.bo d = some x → d ≠ dev.fresh := by
    rintro d x hd rfl
    rw [hfresh] at hd
    cases hd
  constructor
  case handle =>
    intro k d
    simp only [hinsert]
    rcases eq_or_ne k handle with rfl | hk
    · rw [Function.update_self]
      constructor
      · rintro ⟨⟩
        exact ⟨_, dev_setBo_self, rfl⟩
      · rintro ⟨x, hx, hkx⟩
        rcases dev_setBo_bo hx with ⟨rfl, -⟩ | ⟨-, hx⟩
        · rfl
        · rw [h.handle.mpr ⟨x, hx, hkx⟩] at hnone
          cases hnone
    · rw [Function.update_of_ne hk]
      refine h.handle.trans ⟨?_, ?_⟩
      · rintro ⟨x, hx, hkx⟩
        exact ⟨x, by rw [show Device.bo _ d = _ from dev_setBo_of_ne (hforth hx)]; exact hx, hkx⟩
      · rintro ⟨x, hx, hkx⟩
        rcases dev_setBo_bo hx with ⟨-, rfl⟩ | ⟨-, hx⟩
        · exact absurd hkx.symm hk
        · exact ⟨x, hx, hkx⟩
  case opened =>
    intro k
    simp only [hinsert, Device.openHandle, Device.setBo]
    rcases eq_or_ne k handle with rfl | hk
    · simp
    · rw [Function.update_of_ne hk, Function.update_of_ne hk]
      exact h.opened k
  case nonzero =>
    intro d x hd
    rcases dev_setBo_bo hd with ⟨-, rfl⟩ | ⟨-, hd⟩
    · exact hzero
    · exact h.nonzero hd
  case name =>
    intro n d hd
    obtain ⟨x, hx, hrest⟩ := h.name hd
    exact ⟨x, (dev_setBo_of_ne (hforth hx)).trans hx, hrest⟩
  case cached =>
    intro i d hd
    obtain ⟨x, hx, hrest⟩ := h.cached hd
    exact ⟨x, (dev_setBo_of_ne (hforth hx)).trans hx, hrest⟩
  case once => exact h.once
  case count =>
    intro d x hd
    simp only [take]
    rcases dev_setBo_bo hd with ⟨rfl, rfl⟩ | ⟨hdb, hd⟩
    · rw [Function.update_self, h.gone hfresh]
      rfl
    · rw [Function.update_of_ne hdb]
      exact h.count hd
  case gone =>
    intro d hd
    simp only [take]
    rcases eq_or_ne d dev.fresh with rfl | hdb
    · rw [show Device.bo _ dev.fresh = _ from dev_setBo_self] at hd
      cases hd
    · rw [Function.update_of_ne hdb]
      exact h.gone ((dev_setBo_of_ne hdb).symm.trans hd)
  case sizes =>
    intro d x i hd hreuse hbucket
    rcases dev_setBo_bo hd with ⟨-, rfl⟩ | ⟨-, hd⟩
    · cases hreuse
    · exact h.sizes hd hreuse hbucket
  case unnamed =>
    intro d x hd hreuse
    rcases dev_setBo_bo hd with ⟨-, rfl⟩ | ⟨-, hd⟩
    · cases hreuse
    · exact h.unnamed hd hreuse
  case fresh =>
    intro d hd
    have hd : dev.fresh + 1 ≤ d := hd
    exact (dev_setBo_of_ne (Nat.ne_of_gt hd)).trans (h.fresh (Nat.le_of_succ_le hd))

theorem boFromHandle_ok {handle : Word} (size : Nat) (obj : Object) (alloc : Bool) (h : Tables exports held dev)
    (hnone : dev.handleTable handle = none) (hzero : handle ≠ 0) :
    Given exports held size (boFromHandle size handle alloc (dev.openHandle handle obj)) ∧
      ∀ b, (boFromHandle size handle alloc (dev.openHandle handle obj)).1 = some b →
        (boFromHandle size handle alloc (dev.openHandle handle obj)).2.bo b = some { size, handle } ∧
        Uncached b dev := by
  unfold boFromHandle
  split
  · have hfresh : dev.bo dev.fresh = none := h.fresh le_rfl
    have hfree : Uncached dev.fresh dev := by
      intro i hmem
      obtain ⟨bo, hb, -⟩ := h.cached hmem
      cases hfresh.symm.trans hb
    refine ⟨⟨h.add hnone hzero, ?_, ?_, ?_⟩, ?_⟩
    · rintro b ⟨⟩
      exact h.gone hfresh
    · rintro b ⟨⟩
      exact ⟨_, dev_setBo_self, le_rfl⟩
    · rintro b ⟨⟩
      exact hfree
    · rintro b ⟨⟩
      exact ⟨dev_setBo_self, hfree⟩
  · have hsame : Function.update (Function.update dev.kernel.handles handle (some obj)) handle none =
        dev.kernel.handles := by
      rw [Function.update_idem, ← h.handles_none hnone, Function.update_eq_self]
    refine ⟨⟨?_, nofun, nofun, nofun⟩, nofun⟩
    refine ⟨h.handle, fun k => ?_, h.nonzero, h.name, h.cached, h.once, h.count, h.gone, h.sizes, h.unnamed, h.fresh⟩
    show (Function.update (Function.update dev.kernel.handles handle (some obj)) handle none k).isSome = _
    rw [hsame]
    exact h.opened k

/-- A buffer without a name gets one, under which another buffer may be in the table. -/
theorem Tables.setName {name : Word} (h : Tables exports held dev) (hb : dev.bo b = some bo) (hfree : Uncached b dev)
    (hname : bo.name = 0) (hnonzero : name ≠ 0) (hexports : exports ∨ bo.boReuse = false) :
    Tables exports held { dev.setBo b { bo with name } with nameTable := hashInsert name b dev.nameTable } := by
  have hforth : ∀ {d x}, dev.bo d = some x → d ≠ b → (dev.setBo b { bo with name }).bo d = some x :=
    fun hd hdb => (dev_setBo_of_ne hdb).trans hd
  constructor
  case handle =>
    intro k d
    refine h.handle.trans ⟨?_, ?_⟩
    · rintro ⟨x, hx, hkx⟩
      rcases eq_or_ne d b with rfl | hdb
      · cases hb.symm.trans hx
        exact ⟨_, dev_setBo_self, hkx⟩
      · exact ⟨x, hforth hx hdb, hkx⟩
    · rintro ⟨x, hx, hkx⟩
      rcases dev_setBo_bo hx with ⟨rfl, rfl⟩ | ⟨-, hx⟩
      · exact ⟨bo, hb, hkx⟩
      · exact ⟨x, hx, hkx⟩
  case opened => exact h.opened
  case nonzero =>
    intro d x hd
    rcases dev_setBo_bo hd with ⟨rfl, rfl⟩ | ⟨-, hd⟩
    · have := h.nonzero hb
      exact this
    · exact h.nonzero hd
  case name =>
    intro n d hd
    have hcases : n = name ∧ d = b ∨ dev.nameTable n = some d := by
      simp only [hashInsert] at hd
      split at hd
      · exact .inr hd
      · rw [Function.update_apply] at hd
        split at hd
        · next hn => exact .inl ⟨hn, (Option.some.inj hd).symm⟩
        · exact .inr hd
    rcases hcases with ⟨rfl, rfl⟩ | hd
    · exact ⟨_, dev_setBo_self, rfl, hnonzero⟩
    · obtain ⟨x, hx, hn, hzero⟩ := h.name hd
      have hdb : d ≠ b := by
        rintro rfl
        cases hb.symm.trans hx
        exact hzero (hn.symm.trans hname)
      exact ⟨x, hforth hx hdb, hn, hzero⟩
  case cached =>
    intro i d hd
    obtain ⟨x, hx, hrest⟩ := h.cached hd
    have hdb : d ≠ b := by
      rintro rfl
      exact hfree i hd
    exact ⟨x, hforth hx hdb, hrest⟩
  case once => exact h.once
  case count =>
    intro d x hd
    rcases dev_setBo_bo hd with ⟨rfl, rfl⟩ | ⟨-, hd⟩
    · have := h.count hb
      exact this
    · exact h.count hd
  case gone =>
    intro d hd
    rcases eq_or_ne d b with rfl | hdb
    · rw [show Device.bo _ d = _ from dev_setBo_self] at hd
      cases hd
    · exact h.gone ((dev_setBo_of_ne hdb).symm.trans hd)
  case sizes =>
    intro d x i hd hreuse hbucket
    rcases dev_setBo_bo hd with ⟨rfl, rfl⟩ | ⟨-, hd⟩
    · have := h.sizes hb hreuse hbucket
      exact this
    · exact h.sizes hd hreuse hbucket
  case unnamed =>
    intro d x hd hreuse
    rcases dev_setBo_bo hd with ⟨rfl, rfl⟩ | ⟨-, hd⟩
    · rcases hexports with hexports | hfalse
      · exact .inl hexports
      · rw [show bo.boReuse = true from hreuse] at hfalse
        cases hfalse
    · exact h.unnamed hd hreuse
  case fresh =>
    intro d hd
    have hdb : d ≠ b := by
      rintro rfl
      rw [h.fresh hd] at hb
      cases hb
    exact (dev_setBo_of_ne hdb).trans (h.fresh hd)

theorem setName_ok {name : Word} (h : Tables exports held dev) (hfree : Uncached b dev) (hnonzero : name ≠ 0)
    (hname : ∀ bo, dev.bo b = some bo → bo.name = 0 ∧ (exports ∨ bo.boReuse = false)) :
    Ensures (setName b name dev) (Tables exports held) :=
  (dev_getBo_spec).bind fun bo hb => .pure (h.setName hb hfree (hname bo hb).1 hnonzero (hname bo hb).2)

/-! ### The cache -/

/-- The first buffer leaves its bucket. -/
theorem Tables.shift {l : List BoId} (h : Tables exports held dev) (hbucket : dev.cacheBucket i = b :: l) :
    Tables exports held (dev.setBucket i l) ∧ Uncached b (dev.setBucket i l) := by
  have hsub : ∀ {j d}, d ∈ (dev.setBucket i l).cacheBucket j → d ∈ dev.cacheBucket j := by
    intro j d hd
    simp only [Device.setBucket, Function.update_apply] at hd
    split at hd
    · next hj =>
      rw [hj, hbucket]
      exact List.mem_cons_of_mem b hd
    · exact hd
  have hnodup : (b :: l).Nodup := hbucket ▸ h.once i
  refine ⟨⟨h.handle, h.opened, h.nonzero, h.name, fun hd => h.cached (hsub hd), fun j => ?_, h.count, h.gone, h.sizes,
    h.unnamed, h.fresh⟩, fun j hd => ?_⟩
  · simp only [Device.setBucket, Function.update_apply]
    split
    · exact hnodup.of_cons
    · exact h.once j
  · obtain rfl := h.bucket_unique (hsub hd) (show b ∈ dev.cacheBucket i by rw [hbucket]; exact List.mem_cons_self)
    simp only [Device.setBucket, Function.update_self] at hd
    exact (List.nodup_cons.mp hnodup).1 hd

/-- A released buffer goes to the end of its bucket. -/
theorem Tables.push (h : Tables exports held dev) (hb : dev.bo b = some bo) (hfree : Uncached b dev)
    (hzero : bo.refcnt = 0) (hname : bo.name = 0) (hsize : bucketSizes[i]? = some bo.size) :
    Tables exports held (dev.setBucket i (dev.cacheBucket i ++ [b])) := by
  have hmem : ∀ {j d}, d ∈ (dev.setBucket i (dev.cacheBucket i ++ [b])).cacheBucket j →
      j = i ∧ d = b ∨ d ∈ dev.cacheBucket j := by
    intro j d hd
    simp only [Device.setBucket, Function.update_apply] at hd
    split at hd
    · next hj =>
      rcases List.mem_append.mp hd with hd | hd
      · exact .inr (hj ▸ hd)
      · exact .inl ⟨hj, List.mem_singleton.mp hd⟩
    · exact .inr hd
  refine ⟨h.handle, h.opened, h.nonzero, h.name, fun hd => ?_, fun j => ?_, h.count, h.gone, h.sizes, h.unnamed,
    h.fresh⟩
  · rcases hmem hd with ⟨rfl, rfl⟩ | hd
    · exact ⟨bo, hb, hzero, hname, hsize⟩
    · exact h.cached hd
  · simp only [Device.setBucket, Function.update_apply]
    split
    · next hj =>
      refine (h.once i).append (List.nodup_singleton b) ?_
      rw [List.disjoint_singleton]
      exact hfree i
    · exact h.once j

theorem cleanupBucket_ok {time : Int} {l : List BoId} (h : Tables exports held dev) (hbucket : dev.cacheBucket i = l) :
    Ensures (cleanupBucket time i l dev) (Tables exports held) := by
  induction l generalizing dev with
  | nil => exact .ok h
  | cons b l ih =>
      refine (dev_getBo_spec).bind fun bo hb => ?_
      split
      · exact .pure h
      · have hzero : held b = 0 := by
          obtain ⟨x, hx, hrefcnt, -⟩ := h.cached (show b ∈ dev.cacheBucket i by rw [hbucket]; exact List.mem_cons_self)
          have := h.count hx
          omega
        obtain ⟨hshift, hfree⟩ := h.shift hbucket
        refine (boDel_ok hshift hfree hzero).bind fun dev' hdev' => ih hdev'.1 ?_
        rw [hdev'.2]
        simp [Device.setBucket]

theorem Tables.setTime {time : Int} (h : Tables exports held dev) : Tables exports held { dev with time } :=
  ⟨h.handle, h.opened, h.nonzero, h.name, h.cached, h.once, h.count, h.gone, h.sizes, h.unnamed, h.fresh⟩

theorem Tables.openFd {fd : Int} {obj : Option Object} (h : Tables exports held dev) :
    Tables exports held (dev.openFd fd obj) :=
  ⟨h.handle, h.opened, h.nonzero, h.name, h.cached, h.once, h.count, h.gone, h.sizes, h.unnamed, h.fresh⟩

theorem cleanupBoCache_ok {time : Int} (h : Tables exports held dev) :
    Ensures (cleanupBoCache time dev) (Tables exports held) := by
  unfold cleanupBoCache
  split
  · exact .ok h
  · refine (Ensures.foldlM h fun dev' i hdev' => cleanupBucket_ok hdev' rfl).bind fun dev' hdev' => .pure hdev'.setTime

theorem getBucket_sizes : ∀ i < 55, (bucketSizes[i]?.bind getBucket) = some i := by decide

theorem getBucket_cases {size : Nat} (h : getBucket size = some i) : ∃ s, bucketSizes[i]? = some s ∧ size ≤ s ∧
    getBucket s = some i := by
  obtain ⟨hlt, hge, -⟩ := List.findIdx?_eq_some_iff_getElem.mp h
  have hsome := getBucket_sizes i hlt
  rw [List.getElem?_eq_getElem hlt] at hsome
  exact ⟨bucketSizes[i], List.getElem?_eq_getElem hlt, by simpa using hge, hsome⟩

/-- The size that the cache or the kernel is asked for fits the bucket that it comes from. -/
def Rounded (size : Nat) : Prop := ∀ i, getBucket size = some i → bucketSizes[i]? = some size

theorem boNewHandle_ok {size : Nat} {ret : Int} {handle : Word} {obj : Object} {alloc : Bool}
    (h : Tables exports held dev) (hsize : Rounded size) (hnew : ret = 0 → handle ≠ 0 ∧ dev.handleTable handle = none) :
    Ensures (boNewHandle size ret handle obj alloc dev) (Given exports held size) := by
  unfold boNewHandle
  split
  · exact .ok ⟨h, nofun, nofun, nofun⟩
  · next hret =>
    obtain ⟨hzero, hnone⟩ := hnew (not_not.mp hret)
    obtain ⟨hgiven, hbo⟩ := boFromHandle_ok size obj alloc h hnone hzero
    rcases hp : boFromHandle size handle alloc (dev.openHandle handle obj) with ⟨_ | b, dev'⟩
    · exact .error
    · rw [hp] at hgiven hbo
      have hb := (hbo b rfl).1
      refine (dev_getBo_spec).bind fun bo hb' => .pure ?_
      cases hb.symm.trans hb'
      refine ⟨?_, hgiven.unheld, ?_, ?_⟩
      · refine hgiven.tables.setBo hb (hgiven.uncached b rfl) rfl rfl (fun _ => .inr ⟨rfl, hsize⟩) (fun _ _ => rfl) ?_
        have hcount := hgiven.tables.count hb
        exact hcount
      · rintro d ⟨⟩
        exact ⟨_, dev_setBo_self, le_rfl⟩
      · rintro d ⟨⟩
        exact hgiven.uncached b rfl

/-- A buffer comes from the cache, or from the kernel. -/
theorem fdBoNew_ok {size : Nat} {idle : Bool} {ret : Int} {handle : Word} {obj : Object} {alloc : Bool}
    (h : Tables exports held dev) (hnew : ret = 0 → handle ≠ 0 ∧ dev.handleTable handle = none) :
    Ensures (fdBoNew size idle ret handle obj alloc dev) (Given exports held (alignPage size)) := by
  unfold fdBoNew
  dsimp only
  split
  · next hnone =>
    refine boNewHandle_ok h (fun i hi => ?_) hnew
    rw [hnone] at hi
    cases hi
  · next i hi =>
    obtain ⟨s, hs, hle, hbucket⟩ := getBucket_cases hi
    rw [hs, Option.getD_some]
    have hround : Rounded s := by
      intro j hj
      cases hbucket.symm.trans hj
      exact hs
    have hkernel : Ensures (boNewHandle s ret handle obj alloc dev) (Given exports held (alignPage size)) := by
      refine (boNewHandle_ok h hround hnew).mono fun p hp => ⟨hp.tables, hp.unheld, fun b hb => ?_, hp.uncached⟩
      obtain ⟨bo, hbo, hlarge⟩ := hp.large b hb
      exact ⟨bo, hbo, hle.trans hlarge⟩
    unfold findInBucket
    cases hlist : dev.cacheBucket i with
    | nil => exact hkernel
    | cons b l =>
        cases idle with
        | false => exact hkernel
        | true =>
            obtain ⟨bo, hb, hrefcnt, hname, hsize⟩ :=
              h.cached (show b ∈ dev.cacheBucket i by rw [hlist]; exact List.mem_cons_self)
            have hzero : held b = 0 := by
              have := h.count hb
              omega
            obtain ⟨hshift, hfree⟩ := h.shift hlist
            refine (dev_getBo_spec).bind fun x hx => .pure ?_
            cases hb.symm.trans hx
            refine ⟨?_, ?_, ?_, ?_⟩
            · refine hshift.setBo hb hfree rfl rfl (fun hreuse => .inl ⟨hreuse, rfl⟩) ?_ ?_
              · intro d hd
                exact Function.update_of_ne hd _ _
              · simp [take, hzero]
            · rintro d ⟨⟩
              exact hzero
            · rintro d ⟨⟩
              cases hs.symm.trans hsize
              exact ⟨_, dev_setBo_self, hle⟩
            · rintro d ⟨⟩
              exact hfree

/-! ### The calls -/

theorem fdBoFromHandle_ok {handle : Word} {size : Nat} {obj : Object} {alloc : Bool} (h : Tables exports held dev)
    (hnone : dev.handleTable handle = none) (hzero : handle ≠ 0) :
    Given exports held size (fdBoFromHandle handle size obj alloc dev) := by
  unfold fdBoFromHandle
  rw [h.handles_none hnone]
  exact (boFromHandle_ok size obj alloc h hnone hzero).1

theorem fdBoFromDmabuf_ok {fd ret : Int} {handle : Word} {alloc : Bool} (h : Tables exports held dev)
    (hnew : ret = 0 → handle ≠ 0 ∧ dev.handleTable handle = none) :
    Given exports held 0 (fdBoFromDmabuf fd ret handle alloc dev) := by
  unfold fdBoFromDmabuf
  split
  · exact ⟨h, nofun, nofun, nofun⟩
  · next hret => exact fdBoFromHandle_ok h (hnew (not_not.mp hret)).2 (hnew (not_not.mp hret)).1

theorem fdBoRef_ok (h : Tables exports held dev) (hfree : Uncached b dev) :
    Ensures (fdBoRef b dev) (Tables exports (take (some b) held)) := by
  refine (dev_getBo_spec).bind fun bo hb => .pure ?_
  refine h.setBo hb hfree rfl rfl (fun hreuse => .inl ⟨hreuse, rfl⟩) (fun d hd => Function.update_of_ne hd _ _) ?_
  simp [take, h.count hb]

/-- A buffer that is opened by its name is not in the cache. -/
theorem fdBoFromName_ok {name : Word} {ret : Int} {handle : Word} {size : Nat} {obj : Object} {alloc : Bool}
    (h : Tables exports held dev) (hnew : ret = 0 → name ≠ 0 ∧ handle ≠ 0 ∧ dev.handleTable handle = none) :
    Ensures (fdBoFromName name ret handle size obj alloc dev) fun p => Tables exports (take p.1 held) p.2 ∧
      ∀ b, p.1 = some b → Uncached b dev := by
  unfold fdBoFromName
  cases hname : dev.nameTable name with
  | some b =>
      have hfree : Uncached b dev := by
        intro i hmem
        obtain ⟨bo, hb, hn, hnonzero⟩ := h.name hname
        obtain ⟨x, hx, -, hzero, -⟩ := h.cached hmem
        cases hb.symm.trans hx
        exact hnonzero (hn.symm.trans hzero)
      refine Ensures.bind (P := fun p => p.1 = some b ∧ Tables exports (take (some b) held) p.2)
        ((fdBoRef_ok h hfree).bind fun dev' hdev' => .pure ⟨rfl, hdev'⟩) ?_
      rintro ⟨_, dev'⟩ ⟨rfl, hdev'⟩
      refine .pure ⟨hdev', ?_⟩
      rintro d ⟨⟩
      exact hfree
  | none =>
      show Ensures (if ret ≠ 0 then _ else _) _
      split
      · exact .pure ⟨h, fun b h => (by cases h)⟩
      · next hret =>
        obtain ⟨hn, hzero, hnone⟩ := hnew (not_not.mp hret)
        show Ensures (lookupBo (dev.handleTable handle) _ >>= _) _
        rw [hnone]
        obtain ⟨hgiven, hbo⟩ := boFromHandle_ok size obj alloc h hnone hzero
        simp only [lookupBo, bind, Except.bind, Option.isSome_none, Bool.false_eq_true, if_false]
        rcases hp : boFromHandle size handle alloc (dev.openHandle handle obj) with ⟨_ | b, dev'⟩
        · rw [hp] at hgiven
          exact .pure ⟨hgiven.tables, fun b h => (by cases h)⟩
        · rw [hp] at hgiven hbo
          obtain ⟨hb, hfree⟩ := hbo b rfl
          refine (setName_ok hgiven.tables (hgiven.uncached b rfl) hn fun bo hb' => ?_).bind fun dev'' hdev'' => .pure ?_
          · cases hb.symm.trans hb'
            exact ⟨rfl, .inr rfl⟩
          · refine ⟨hdev'', ?_⟩
            rintro d ⟨⟩
            exact hfree

theorem release_ok {time : Int} (h : Tables exports held dev) (hfree : Uncached b dev) (hzero : held b = 0)
    (hname : ∀ bo, dev.bo b = some bo → bo.boReuse → (getBucket bo.size).isSome → bo.name = 0) :
    Ensures (release b time dev) (Tables exports held) := by
  refine (dev_getBo_spec).bind fun bo hb => ?_
  dsimp only
  -- the dmabuf is closed
  obtain ⟨dev₁, hdev₁, h₁, hfree₁, hb₁⟩ : ∃ dev₁,
      (if bo.fd ≠ 0 then (dev.openFd bo.fd none).setBo b { bo with fd := 0 } else dev) = dev₁ ∧
      Tables exports held dev₁ ∧ Uncached b dev₁ ∧ ∃ fd, dev₁.bo b = some { bo with fd } := by
    refine ⟨_, rfl, ?_⟩
    split
    · refine ⟨h.openFd.setBo hb hfree rfl rfl (fun hreuse => .inl ⟨hreuse, rfl⟩) (fun _ _ => rfl) ?_, hfree, _,
        dev_setBo_self⟩
      have hcount := h.count hb
      exact hcount
    · exact ⟨h, hfree, bo.fd, hb⟩
  rw [hdev₁]
  obtain ⟨fd, hb₁⟩ := hb₁
  refine (dev_getBo_spec).bind fun x hx => ?_
  cases hb₁.symm.trans hx
  have hrefcnt : bo.refcnt = 0 := by
    have := h.count hb
    omega
  split
  · next i hi =>
    obtain ⟨hreuse, hbucket⟩ : bo.boReuse = true ∧ getBucket bo.size = some i := by
      split at hi
      · next hreuse => exact ⟨hreuse, hi⟩
      · cases hi
    have h₂ : Tables exports held (dev₁.setBo b { bo with fd, freeTime := time }) := by
      refine h₁.setBo hb₁ hfree₁ rfl rfl (fun hreuse => .inl ⟨hreuse, rfl⟩) (fun _ _ => rfl) ?_
      rw [hzero]
      exact hrefcnt
    have hsize := h.sizes hb hreuse hbucket
    refine cleanupBoCache_ok (h₂.push dev_setBo_self hfree₁ hrefcnt ?_ hsize)
    exact hname bo hb hreuse (by rw [hbucket]; rfl)
  · exact (boDel_ok h₁ hfree₁ hzero).mono fun _ h => h.1

theorem fdBoDel_ok {time : Int} (h : Tables exports held dev) (hheld : 0 < held b)
    (hclean : (BoCall.del b time).Clean dev) :
    Ensures (fdBoDel b time dev) (Tables exports (Function.update held b (held b - 1))) := by
  refine (dev_getBo_spec).bind fun bo hb => ?_
  have hfree := h.uncached hheld
  have hcount := h.count hb
  have h₁ : Tables exports (Function.update held b (held b - 1)) (dev.setBo b { bo with refcnt := bo.refcnt - 1 }) := by
    refine h.setBo hb hfree rfl rfl (fun hreuse => .inl ⟨hreuse, rfl⟩) (fun d hd => Function.update_of_ne hd _ _) ?_
    rw [Function.update_self]
    show bo.refcnt - 1 = _
    omega
  dsimp only
  split
  · exact .pure h₁
  · next hone =>
    refine release_ok h₁ hfree ?_ fun x hx hreuse hbucket => ?_
    · rw [Function.update_self]
      omega
    · rcases dev_setBo_bo hx with ⟨-, rfl⟩ | ⟨hne, -⟩
      · exact hclean bo hb (not_not.mp hone) hreuse hbucket
      · exact absurd rfl hne

theorem fdBoGetName_ok {ret : Int} {name : Word} (h : Tables exports held dev) (hexports : exports)
    (hfree : Uncached b dev) (hname : ret = 0 → name ≠ 0) :
    Ensures (fdBoGetName b ret name dev) (Tables exports held) := by
  refine (dev_getBo_spec).bind fun bo hb => ?_
  split
  · exact .pure h
  · next hzero =>
    split
    · exact .pure h
    · next hret =>
      refine setName_ok h hfree (hname (not_not.mp hret)) fun x hx => ?_
      cases hb.symm.trans hx
      exact ⟨not_not.mp hzero, .inl hexports⟩

theorem fdBoDmabuf_ok {ret fd copy : Int} (h : Tables exports held dev) (hfree : Uncached b dev) :
    Ensures (fdBoDmabuf b ret fd copy dev) (Tables exports held) := by
  refine (dev_getBo_spec).bind fun bo hb => ?_
  split
  · exact .pure h.openFd
  · split
    · exact .pure h
    · refine .pure (Tables.openFd ?_)
      refine h.openFd.setBo hb hfree rfl rfl (fun hreuse => .inl ⟨hreuse, rfl⟩) (fun _ _ => rfl) ?_
      have hcount := h.count hb
      exact hcount

/-- A handle that is not open is not in the table. -/
theorem Tables.table_none {handle : Word} (h : Tables exports held dev) (hnone : dev.kernel.handles handle = none) :
    dev.handleTable handle = none := by
  have := h.opened handle
  rw [hnone] at this
  simpa using this.symm

def BoCall.givesName : BoCall → Bool
  | .getName _ _ _ => true
  | _ => false

theorem BoCall.run_ok {call : BoCall} (h : Tables exports held dev) (hheld : call.Held held)
    (hanswered : call.Answered dev) (hclean : call.Clean dev) (hexports : call.givesName → exports) :
    Ensures (call.run dev) fun p => Tables exports (call.hold p.1 held) p.2 := by
  cases call with
  | new size idle ret handle obj alloc =>
      refine (fdBoNew_ok h fun hret => ?_).mono fun p hp => hp.tables
      exact ⟨(hanswered hret).1, h.table_none (hanswered hret).2.1⟩
  | fromHandle handle size obj alloc => exact .ok (fdBoFromHandle_ok h hclean hanswered).tables
  | fromDmabuf fd ret handle alloc =>
      exact .ok (fdBoFromDmabuf_ok h fun hret => ⟨(hanswered hret).1, hclean hret⟩).tables
  | fromName name ret handle size obj alloc =>
      refine (fdBoFromName_ok h fun hret => ?_).mono fun p hp => hp.1
      exact ⟨(hanswered hret).1, (hanswered hret).2.1, h.table_none (hanswered hret).2.2⟩
  | ref b => exact (fdBoRef_ok h (h.uncached hheld)).bind fun dev' hdev' => .pure hdev'
  | del b time => exact (fdBoDel_ok h hheld hclean).bind fun dev' hdev' => .pure hdev'
  | getName b ret name =>
      exact (fdBoGetName_ok h (hexports rfl) (h.uncached hheld) hanswered).bind fun dev' hdev' => .pure hdev'
  | dmabuf b ret fd copy => exact (fdBoDmabuf_ok h (h.uncached hheld)).bind fun dev' hdev' => .pure hdev'
  | receive fd obj => exact .ok h.openFd

end Tables

/-! ## The cache is exclusive -/

/-- The calls on buffers of the library and their names. -/
def BoCall.OfCache : BoCall → Prop
  | .new _ _ _ _ _ _ => True
  | .fromName _ _ _ _ _ _ => True
  | .ref _ => True
  | .del _ _ => True
  | .getName _ _ _ => True
  | _ => False

/-- A step by one of some calls. -/
def Session.StepIn (P : BoCall → Prop) (t t' : Session) : Prop := ∃ call : BoCall, P call ∧ t.StepBy call t'

def Session.CacheStep (t t' : Session) : Prop := ∃ call : BoCall, call.OfCache ∧ call.Clean t.dev ∧ t.StepBy call t'

theorem Session.StepBy.tables {exports : Prop} {call : BoCall} {t t' : Session} (hstep : t.StepBy call t')
    (h : Tables exports t.held t.dev) (hclean : call.Clean t.dev) (hexports : call.givesName → exports) :
    Tables exports t'.held t'.dev := by
  obtain ⟨b, hrun, hheld', hheld, hanswered⟩ := hstep
  rw [hheld']
  exact BoCall.run_ok h hheld hanswered hclean hexports (b, t'.dev) hrun

theorem tables_of_cacheRuns {t : Session} (h : Runs Session.Init Session.CacheStep t) : Tables True t.held t.dev := by
  refine Runs.induct (I := fun t => Tables True t.held t.dev) (fun t ht => ?_) ?_ h
  · rw [ht]
    exact .init
  · rintro t t' ht ⟨call, -, hclean, hstep⟩
    exact hstep.tables ht hclean fun _ => trivial

theorem le_alignPage {size : Word} (h : size.toNat ≤ 2 ^ 32 - 4096) : size.toNat ≤ alignPage size.toNat := by
  unfold alignPage
  omega

/-- A buffer in the cache has no holder and is not reached by a name, and a new buffer was not held: as long as no
    buffer goes to the cache with a name.  It is at least as large as asked for if the size can be rounded up. -/
theorem cache_exclusive {t : Session} (h : Runs Session.Init Session.CacheStep t) :
    (∀ i b, b ∈ t.dev.cacheBucket i → t.held b = 0 ∧ ∀ name ret handle size obj alloc dev',
      (BoCall.fromName name ret handle size obj alloc).Answered t.dev →
        (BoCall.fromName name ret handle size obj alloc).run t.dev ≠ .ok (some b, dev')) ∧
    ∀ size idle ret handle obj alloc b dev', (BoCall.new size idle ret handle obj alloc).Answered t.dev →
      (BoCall.new size idle ret handle obj alloc).run t.dev = .ok (some b, dev') →
        t.held b = 0 ∧ ∃ bo, dev'.bo b = some bo ∧ (size.toNat ≤ 2 ^ 32 - 4096 → size.toNat ≤ bo.size) := by
  have ht := tables_of_cacheRuns h
  refine ⟨fun i b hmem => ⟨?_, ?_⟩, ?_⟩
  · obtain ⟨bo, hb, hzero, -⟩ := ht.cached hmem
    have := ht.count hb
    omega
  · intro name ret handle size obj alloc dev' hanswered hrun
    refine (fdBoFromName_ok ht fun hret => ?_) _ hrun |>.2 b rfl i hmem
    exact ⟨(hanswered hret).1, (hanswered hret).2.1, ht.table_none (hanswered hret).2.2⟩
  · intro size idle ret handle obj alloc b dev' hanswered hrun
    have hgiven := fdBoNew_ok ht (fun hret => ⟨(hanswered hret).1, ht.table_none (hanswered hret).2.1⟩) _ hrun
    obtain ⟨bo, hb, hlarge⟩ := hgiven.large b rfl
    exact ⟨hgiven.unheld b rfl, bo, hb, fun hsize => (le_alignPage hsize).trans hlarge⟩

def Session.after (t : Session) (call : BoCall) (b : Option BoId) (dev : Device) : Session :=
  { dev, held := call.hold b t.held }

theorem Session.cacheSteps {t : Session} {b : Option BoId} {dev : Device} (call : BoCall)
    (h : Runs Session.Init Session.CacheStep t) (hrun : call.run t.dev = .ok (b, dev)) (hof : call.OfCache)
    (hheld : call.Held t.held) (hanswered : call.Answered t.dev) (hclean : call.Clean t.dev) :
    Runs Session.Init Session.CacheStep (t.after call b dev) :=
  h.step ⟨call, hof, hclean, b, hrun, rfl, hheld, hanswered⟩

theorem Session.stepsIn {P : BoCall → Prop} {t : Session} {b : Option BoId} {dev : Device} (call : BoCall)
    (h : Runs Session.Init (Session.StepIn P) t) (hrun : call.run t.dev = .ok (b, dev)) (hof : P call)
    (hheld : call.Held t.held) (hanswered : call.Answered t.dev) :
    Runs Session.Init (Session.StepIn P) (t.after call b dev) := h.step ⟨call, hof, b, hrun, rfl, hheld, hanswered⟩

set_option maxRecDepth 20000 in
/-- A buffer without a name that is released, and given to the next caller. -/
theorem cache_exclusive_reused : ∃ t dev, Runs Session.Init Session.CacheStep t ∧ t.dev.cacheBucket 1 = [0] ∧
    (BoCall.new 5000 true 1 0 0 true).run t.dev = .ok (some 0, dev) ∧ t.held 0 = 0 ∧
      ∃ bo, dev.bo 0 = some bo ∧ 5000 ≤ bo.size := by
  have h₁ := Session.cacheSteps (.new 8192 true 0 7 1 true) (.init rfl) rfl trivial trivial
    (fun _ => ⟨by decide, rfl, fun _ => nofun⟩) trivial
  have h₂ := Session.cacheSteps (.del 0 10) h₁ rfl trivial Nat.one_pos trivial (by
    rintro bo ⟨⟩ - - -
    rfl)
  obtain ⟨hheld, bo, hb, hsize⟩ :=
    (cache_exclusive h₂).2 5000 true 1 0 0 true 0 _ (fun h => absurd h (by decide)) rfl
  exact ⟨_, _, h₂, rfl, rfl, hheld, bo, hb, hsize (by decide)⟩

set_option maxRecDepth 20000 in
/-- A buffer that is released with a name: it is opened by the name, and still given to the next caller.  And a size
    that rounds up to nothing. -/
theorem cache_exclusive_named :
    (∃ t dev, Runs Session.Init (Session.StepIn BoCall.OfCache) t ∧ t.held 0 = 1 ∧
      (BoCall.new 8192 true 1 0 0 true).run t.dev = .ok (some 0, dev)) ∧
    ∃ dev bo, (BoCall.new 0xfffff001 true 0 7 1 true).run {} = .ok (some 0, dev) ∧ dev.bo 0 = some bo ∧
      bo.size = 4096 := by
  refine ⟨?_, _, _, rfl, rfl, rfl⟩
  have h₁ := Session.stepsIn (P := BoCall.OfCache) (.new 8192 true 0 7 1 true) (.init rfl) rfl trivial trivial
    (fun _ => ⟨by decide, rfl, fun _ => nofun⟩)
  have h₂ := Session.stepsIn (.getName 0 0 3) h₁ rfl trivial Nat.one_pos (fun _ => by decide)
  have h₃ := Session.stepsIn (.del 0 10) h₂ rfl trivial Nat.one_pos trivial
  have h₄ := Session.stepsIn (.fromName 3 1 0 0 0 true) h₃ rfl trivial trivial (fun h => absurd h (by decide))
  exact ⟨_, _, h₄, rfl, rfl⟩

end LibDrm.Freedreno
