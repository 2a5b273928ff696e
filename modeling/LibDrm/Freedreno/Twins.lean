/-
# `LibDrm.Freedreno.Twins` — one buffer for a handle

The tables are there so that no handle has two buffers.  The calls that import a handle:

    fd_bo_from_name      looks up the name, and then the handle
    fd_bo_from_handle    looks up nothing
    fd_bo_from_dmabuf    looks up nothing

and `drmHashInsert` refuses a key that is there, which nobody checks.  The kernel imports a dmabuf
of an object that is open under the handle that it has, so that a buffer that is exported and
imported again has a twin; the first of the two that goes away closes the handle of both.
-/
import LibDrm.Freedreno.Cache

namespace LibDrm.Freedreno

variable {t : Session} {dev : Device} {held : BoId → Nat}

/-- The calls that make and drop buffers, and give none of the library's own a name. -/
def BoCall.OfTwins : BoCall → Prop
  | .getName _ _ _ => False
  | _ => True

/-- The library does not know the handle that it is given. -/
def BoCall.Unknown (dev : Device) : BoCall → Prop
  | .fromHandle handle _ _ _ => dev.handleTable handle = none
  | .fromDmabuf _ ret handle _ => ret = 0 → dev.handleTable handle = none
  | _ => True

def Session.TwinStep (t t' : Session) : Prop := ∃ call : BoCall, call.OfTwins ∧ call.Unknown t.dev ∧ t.StepBy call t'

/-- A handle has one buffer, the table has the open handles, and the handle of a buffer is open. -/
structure NoTwins (dev : Device) : Prop where
  one : ∀ b d bo x, dev.bo b = some bo → dev.bo d = some x → bo.handle = x.handle → b = d
  table : ∀ h b, dev.handleTable h = some b ↔
    (dev.kernel.handles h).isSome ∧ ∃ bo, dev.bo b = some bo ∧ bo.handle = h
  known : ∀ h, (dev.kernel.handles h).isSome → (dev.handleTable h).isSome
  opened : ∀ b bo, dev.bo b = some bo → (dev.kernel.handles bo.handle).isSome

theorem Tables.noTwins {exports : Prop} (h : Tables exports held dev) : NoTwins dev := by
  have hopen : ∀ {b bo}, dev.bo b = some bo → (dev.kernel.handles bo.handle).isSome := by
    intro b bo hb
    rw [h.opened, h.handle.mpr ⟨bo, hb, rfl⟩]
    rfl
  constructor
  case one =>
    intro b d bo x hb hd hhandle
    have hb' : dev.handleTable bo.handle = some b := h.handle.mpr ⟨bo, hb, rfl⟩
    have hd' : dev.handleTable bo.handle = some d := h.handle.mpr ⟨x, hd, hhandle.symm⟩
    exact Option.some.inj (hb'.symm.trans hd')
  case table =>
    intro k b
    refine h.handle.trans ⟨?_, And.right⟩
    rintro ⟨bo, hb, rfl⟩
    exact ⟨hopen hb, bo, hb, rfl⟩
  case known =>
    intro k hk
    rwa [← h.opened]
  case opened => exact fun _ _ => hopen

/-- Without a name for the library's buffers the cache takes no named ones. -/
theorem BoCall.clean_of_unknown {call : BoCall} (h : Tables False held dev) (hunknown : call.Unknown dev) :
    call.Clean dev := by
  cases call with
  | fromHandle handle size obj alloc => exact hunknown
  | fromDmabuf fd ret handle alloc => exact hunknown
  | del b time => exact fun bo hb _ hreuse _ => (h.unnamed hb hreuse).resolve_left id
  | _ => trivial

theorem tables_of_twinRuns (h : Runs Session.Init Session.TwinStep t) : Tables False t.held t.dev := by
  refine Runs.induct (I := fun t => Tables False t.held t.dev) (fun t ht => ?_) ?_ h
  · rw [ht]
    exact .init
  · rintro t t' ht ⟨call, hof, hunknown, hstep⟩
    refine hstep.tables ht (BoCall.clean_of_unknown ht hunknown) fun hname => ?_
    cases call with
    | getName b ret name => exact hof
    | _ => cases hname

/-- Every handle has one buffer and is open as long as the buffer is there, if no handle is imported that the library
    has. -/
theorem no_twins (h : Runs Session.Init Session.TwinStep t) : NoTwins t.dev := (tables_of_twinRuns h).noTwins

theorem Session.twinSteps {b : Option BoId} (call : BoCall) (h : Runs Session.Init Session.TwinStep t)
    (hrun : call.run t.dev = .ok (b, dev)) (hof : call.OfTwins) (hunknown : call.Unknown t.dev)
    (hheld : call.Held t.held) (hanswered : call.Answered t.dev) :
    Runs Session.Init Session.TwinStep (t.after call b dev) := h.step ⟨call, hof, hunknown, b, hrun, rfl, hheld, hanswered⟩

set_option maxRecDepth 20000 in
/-- A buffer of the library, and one that comes from another process by its name. -/
theorem no_twins_foreign : ∃ t, Runs Session.Init Session.TwinStep t ∧ t.dev.handleTable 7 = some 0 ∧
    t.dev.handleTable 8 = some 1 ∧ NoTwins t.dev := by
  have h₁ := Session.twinSteps (.new 8192 true 0 7 1 true) (.init rfl) rfl trivial trivial trivial
    (fun _ => ⟨by decide, rfl, fun _ => nofun⟩)
  have h₂ := Session.twinSteps (.fromName 3 0 8 4096 2 true) h₁ rfl trivial trivial trivial
    (fun _ => ⟨by decide, by decide, rfl⟩)
  exact ⟨_, h₂, rfl, rfl, no_twins h₂⟩

set_option maxRecDepth 20000 in
/-- A buffer that is exported and imported again: the twin has its handle, and closes it when it goes away. -/
theorem no_twins_reimported : ∃ t t', Runs Session.Init (Session.StepIn BoCall.OfTwins) t ∧
    Runs Session.Init (Session.StepIn BoCall.OfTwins) t' ∧ ¬ NoTwins t.dev ∧
    (t'.dev.bo 0).isSome ∧ t'.held 0 = 1 ∧ (t'.dev.bo 0).map (·.handle) = some 7 ∧ t'.dev.kernel.handles 7 = none := by
  have h₁ := Session.stepsIn (P := BoCall.OfTwins) (.new 8192 true 0 7 1 true) (.init rfl) rfl trivial trivial
    (fun _ => ⟨by decide, rfl, fun _ => nofun⟩)
  have h₂ := Session.stepsIn (.dmabuf 0 0 4 5) h₁ rfl trivial Nat.one_pos ⟨rfl, rfl, by decide⟩
  have h₃ := Session.stepsIn (.fromDmabuf 5 0 7 true) h₂ rfl trivial trivial
    (fun _ => ⟨by decide, 1, rfl, .inl rfl⟩)
  have h₄ := Session.stepsIn (.del 1 10) h₃ rfl trivial Nat.one_pos trivial
  refine ⟨_, _, h₃, h₄, fun h => ?_, rfl, rfl, rfl, rfl⟩
  exact absurd (h.one 0 1 _ _ rfl rfl rfl) (by decide)

end LibDrm.Freedreno
