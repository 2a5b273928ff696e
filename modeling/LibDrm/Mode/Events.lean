/-
# `LibDrm.Mode.Events` — the events of a DRM file

The kernel hands out events one after the other, each with its type and its own length:

    struct drm_event          type, length                                         8 bytes
    struct drm_event_vblank   base, user_data, tv_sec, tv_usec, sequence, reserved   32 bytes

`drmHandleEvent` reads up to 1024 bytes of them and calls a handler for each event of a type that it
knows, if the caller's context is of a version that has the handler, and has it.

`len` is signed and `sizeof *e` is not.  A read that fails leaves -1 in `len`; the test for a read that
is too short takes that for a large number, and the loop then takes it for -1 (`events_fails`).

Memory is what the buffer is in, from wherever the program happens to read: an event that is shorter
than the structure it is taken for is read beyond its end.
-/
import Mathlib.Data.List.Forall2
import Mathlib.Data.List.GetD
import Mathlib.Algebra.Order.Ring.Int

namespace LibDrm.Mode

abbrev Byte := BitVec 8

abbrev Word := BitVec 32

def DRM_EVENT_VBLANK : Word := 0x01
def DRM_EVENT_FLIP_COMPLETE : Word := 0x02

/-- `sizeof (struct drm_event)`. -/
def sizeofEvent : Nat := 8

/-- The size of `buffer`. -/
def bufferSize : Nat := 1024

/-- `drmEventContext`; of a handler, only whether there is one. -/
structure EventContext where
  version : Int
  vblank_handler : Bool
  page_flip_handler : Bool
  deriving DecidableEq, Repr

inductive Handler where
  | vblank
  | pageFlip
  deriving DecidableEq, Repr

/-- A call of a handler. -/
structure Call where
  handler : Handler
  fd : Int
  sequence : Word
  tv_sec : Word
  tv_usec : Word
  user_data : BitVec 64
  deriving DecidableEq, Repr

/-- What a read returned. -/
structure Bytes where
  list : List Byte
  bounded : list.length ≤ bufferSize

/-! ## The program -/

/-- Memory by its distance from `buffer`. -/
abbrev Memory := Int → Byte

def word32 (m : Memory) (i : Int) : Word := m (i + 3) ++ m (i + 2) ++ m (i + 1) ++ m i

def word64 (m : Memory) (i : Int) : BitVec 64 := word32 m (i + 4) ++ word32 m i

/-- What was read, and around it what was there before. -/
def memory (bytes : List Byte) (stack : Memory) : Memory := fun i =>
  if 0 ≤ i then bytes.getD i.toNat (stack i) else stack i

/-- The call for the event at `i`, if any. -/
def dispatch (fd : Int) (evctx : EventContext) (m : Memory) (i : Int) : List Call :=
  let type := word32 m i
  if type = DRM_EVENT_VBLANK then
    if evctx.version < 1 ∨ evctx.vblank_handler = false then []
    else [⟨.vblank, fd, word32 m (i + 24), word32 m (i + 16), word32 m (i + 20), word64 m (i + 8)⟩]
  else if type = DRM_EVENT_FLIP_COMPLETE then
    if evctx.version < 2 ∨ evctx.page_flip_handler = false then []
    else [⟨.pageFlip, fd, word32 m (i + 24), word32 m (i + 16), word32 m (i + 20), word64 m (i + 8)⟩]
  else []

/-- `i += length`, of a signed and an unsigned number of 32 bits. -/
def advance (i : Int) (length : Word) : Int := (BitVec.ofInt 32 i + length).toInt

def handleLoop (fd : Int) (evctx : EventContext) (m : Memory) (len : Int) : Nat → Int → Option (List Call)
  | 0, _ => none
  | n + 1, i =>
      if i < len then (dispatch fd evctx m i ++ ·) <$> handleLoop fd evctx m len n (advance i (word32 m (i + 4)))
      else some []

/-- The result, and the calls in their order; `none` if the loop does not end within `n` rounds. -/
def drmHandleEvent (n : Nat) (fd : Int) (evctx : EventContext) (read : Option Bytes) (stack : Memory) :
    Option (Int × List Call) :=
  let len : Int := match read with
    | none => -1
    | some bytes => bytes.list.length
  let m := memory (read.elim [] Bytes.list) stack
  if len = 0 then some (0, [])
  -- the comparison is one of unsigned numbers of 64 bits
  else if (BitVec.ofInt 64 len).toNat < sizeofEvent then some (-1, [])
  else (0, ·) <$> handleLoop fd evctx m len n 0

/-! ## Complete events -/

/-- An event, with its header at least, and of the length that the header says. -/
structure Event where
  bytes : List Byte
  header : sizeofEvent ≤ bytes.length
  sized : (word32 (memory bytes fun _ => 0) 4).toNat = bytes.length

namespace Event

def word (e : Event) (i : Int) : Word := word32 (memory e.bytes fun _ => 0) i

def type (e : Event) : Word := e.word 0

/-- The call of a handler for the event. -/
def call (e : Event) (fd : Int) (h : Handler) : Call :=
  ⟨h, fd, e.word 24, e.word 16, e.word 20, word64 (memory e.bytes fun _ => 0) 8⟩

end Event

/-- The handler for events of a type. -/
def EventContext.select (evctx : EventContext) (type : Word) : Option Handler :=
  if type = DRM_EVENT_VBLANK ∧ 1 ≤ evctx.version ∧ evctx.vblank_handler then some .vblank
  else if type = DRM_EVENT_FLIP_COMPLETE ∧ 2 ≤ evctx.version ∧ evctx.page_flip_handler then some .pageFlip
  else none

/-- The events with a handler, and which. -/
def EventContext.handled (evctx : EventContext) (events : List Event) : List (Event × Handler) :=
  events.filterMap fun e => (evctx.select e.type).map (e, ·)

/-- A call of the handler, with the data of the event as far as the event reaches. -/
def Call.For (fd : Int) (s : Event × Handler) (c : Call) : Prop := c.handler = s.2 ∧ (28 ≤ s.1.bytes.length → c = s.1.call fd s.2)

def flatten (events : List Event) : List Byte := (events.map Event.bytes).flatten

section Layout

variable {fd : Int} {evctx : EventContext} {stack : Memory} {pre post : List Byte} {e : Event} {i : Nat}

theorem flatten_cons {events : List Event} : flatten (e :: events) = e.bytes ++ flatten events := rfl

/-- A byte of an event, wherever the event is. -/
theorem memory_event (hi : i < e.bytes.length) :
    memory (pre ++ (e.bytes ++ post)) stack (pre.length + i) = memory e.bytes (fun _ => 0) i := by
  have hpos : (0 : Int) ≤ pre.length + i := by omega
  have hnat : ((pre.length : Int) + i).toNat = pre.length + i := by omega
  unfold memory
  rw [if_pos hpos, if_pos (Int.natCast_nonneg i), hnat, Int.toNat_natCast, List.getD_append_right _ _ _ _ (by omega),
    Nat.add_sub_cancel_left, List.getD_append _ _ _ _ hi, List.getD_eq_getElem _ _ hi, List.getD_eq_getElem _ _ hi]

theorem word32_event (hi : i + 4 ≤ e.bytes.length) :
    word32 (memory (pre ++ (e.bytes ++ post)) stack) (pre.length + i) = e.word i := by
  have hbyte : ∀ k < 4, memory (pre ++ (e.bytes ++ post)) stack (pre.length + i + (k : Nat)) =
      memory e.bytes (fun _ => 0) (i + (k : Nat)) := by
    intro k hk
    rw [add_assoc, ← Nat.cast_add, memory_event (by omega)]
  have h₀ := hbyte 0 (by decide)
  have h₁ := hbyte 1 (by decide)
  have h₂ := hbyte 2 (by decide)
  have h₃ := hbyte 3 (by decide)
  simp only [Nat.cast_zero, add_zero, Nat.cast_one, Nat.cast_ofNat] at h₀ h₁ h₂ h₃
  unfold Event.word word32
  rw [h₀, h₁, h₂, h₃]

theorem word64_event (hi : i + 8 ≤ e.bytes.length) :
    word64 (memory (pre ++ (e.bytes ++ post)) stack) (pre.length + i) = word64 (memory e.bytes fun _ => 0) i := by
  have hhigh : word32 (memory (pre ++ (e.bytes ++ post)) stack) (pre.length + i + 4) = e.word (i + 4) := by
    rw [add_assoc]
    exact word32_event (by omega)
  unfold word64
  rw [hhigh, word32_event (by omega)]
  rfl

theorem type_event : word32 (memory (pre ++ (e.bytes ++ post)) stack) pre.length = e.type := by
  have hheader := e.header
  have htype := @word32_event stack pre post e 0 (by unfold sizeofEvent at hheader; omega)
  rwa [Nat.cast_zero, add_zero] at htype

/-- The call of a handler for what is at `i`. -/
def callAt (fd : Int) (m : Memory) (i : Int) (h : Handler) : Call :=
  ⟨h, fd, word32 m (i + 24), word32 m (i + 16), word32 m (i + 20), word64 m (i + 8)⟩

theorem called_iff {version n : Int} {handler : Bool} :
    ¬(version < n ∨ handler = false) ↔ n ≤ version ∧ handler = true := by
  rw [not_or, Int.not_lt, Bool.not_eq_false]

theorem dispatch_eq (fd : Int) (evctx : EventContext) (m : Memory) (i : Int) :
    dispatch fd evctx m i = (evctx.select (word32 m i)).toList.map (callAt fd m i) := by
  have hne : DRM_EVENT_VBLANK ≠ DRM_EVENT_FLIP_COMPLETE := by decide
  unfold dispatch EventContext.select
  by_cases hv : word32 m i = DRM_EVENT_VBLANK
  · have hf : word32 m i ≠ DRM_EVENT_FLIP_COMPLETE := fun hf => hne (hv.symm.trans hf)
    dsimp only
    rw [if_pos hv]
    by_cases hcall : evctx.version < 1 ∨ evctx.vblank_handler = false
    · rw [if_pos hcall, if_neg fun h => (called_iff).mpr h.2 hcall, if_neg fun h => hf h.1]
      rfl
    · rw [if_neg hcall, if_pos ⟨hv, (called_iff).mp hcall⟩]
      rfl
  · have hnot : ¬(word32 m i = DRM_EVENT_VBLANK ∧ 1 ≤ evctx.version ∧ evctx.vblank_handler = true) := fun h => hv h.1
    dsimp only
    rw [if_neg hv, if_neg hnot]
    by_cases hf : word32 m i = DRM_EVENT_FLIP_COMPLETE
    · rw [if_pos hf]
      by_cases hcall : evctx.version < 2 ∨ evctx.page_flip_handler = false
      · rw [if_pos hcall, if_neg fun h => (called_iff).mpr h.2 hcall]
        rfl
      · rw [if_neg hcall, if_pos ⟨hf, (called_iff).mp hcall⟩]
        rfl
    · rw [if_neg hf, if_neg fun h => hf h.1]
      rfl

/-- The data of an event that is long enough for it. -/
theorem callAt_event (h : Handler) :
    Call.For fd (e, h) (callAt fd (memory (pre ++ (e.bytes ++ post)) stack) pre.length h) := by
  refine ⟨rfl, fun hlong => ?_⟩
  dsimp only at hlong
  have h₂₄ := @word32_event stack pre post e 24 (by omega)
  have h₁₆ := @word32_event stack pre post e 16 (by omega)
  have h₂₀ := @word32_event stack pre post e 20 (by omega)
  have h₈ := @word64_event stack pre post e 8 (by omega)
  rw [Nat.cast_ofNat] at h₂₄ h₁₆ h₂₀ h₈
  unfold callAt Event.call
  rw [h₂₄, h₁₆, h₂₀, h₈]

/-- What is called for the event at a place. -/
theorem dispatch_event : List.Forall₂ (Call.For fd) (evctx.handled [e])
    (dispatch fd evctx (memory (pre ++ (e.bytes ++ post)) stack) pre.length) := by
  rw [dispatch_eq, type_event]
  unfold EventContext.handled
  rw [List.filterMap_cons, List.filterMap_nil]
  cases evctx.select e.type with
  | none => exact .nil
  | some h => exact .cons (callAt_event h) .nil

/-- The next event starts where this one ends. -/
theorem advance_event (hbound : pre.length + e.bytes.length ≤ bufferSize) :
    advance pre.length (word32 (memory (pre ++ (e.bytes ++ post)) stack) (pre.length + 4)) =
      (pre ++ e.bytes).length := by
  have hheader := e.header
  have hlength := @word32_event stack pre post e 4 (by unfold sizeofEvent at hheader; omega)
  have hsized : (e.word 4).toNat = e.bytes.length := e.sized
  unfold bufferSize at hbound
  unfold advance
  rw [Nat.cast_ofNat] at hlength
  rw [hlength, List.length_append, Nat.cast_add, BitVec.toInt_eq_toNat_of_lt] <;>
    rw [BitVec.toNat_add, BitVec.toNat_ofInt, hsized] <;> omega

end Layout

/-! ## The loop -/

section Loop

variable {fd : Int} {evctx : EventContext} {stack : Memory}

theorem handled_cons {e : Event} {events : List Event} :
    evctx.handled (e :: events) = evctx.handled [e] ++ evctx.handled events :=
  List.filterMap_append (l := [e])

/-- From the start of an event on, the loop ends, and calls what the rest of the events ask for. -/
theorem handleLoop_events (events : List Event) (pre : List Byte)
    (hbound : (pre ++ flatten events).length ≤ bufferSize) :
    ∃ calls, (∀ n, (flatten events).length < n →
        handleLoop fd evctx (memory (pre ++ flatten events) stack) (pre ++ flatten events).length n pre.length =
          some calls) ∧ List.Forall₂ (Call.For fd) (evctx.handled events) calls := by
  induction events generalizing pre with
  | nil =>
      refine ⟨[], fun n hn => ?_, .nil⟩
      cases n with
      | zero => cases hn
      | succ n =>
          unfold handleLoop
          rw [if_neg (by simp [flatten])]
  | cons e events ih =>
      have hheader := e.header
      unfold sizeofEvent at hheader
      rw [flatten_cons] at hbound ⊢
      have hassoc : pre ++ (e.bytes ++ flatten events) = (pre ++ e.bytes) ++ flatten events :=
        (List.append_assoc ..).symm
      obtain ⟨calls, hloop, hcalls⟩ := ih (pre ++ e.bytes) (hassoc ▸ hbound)
      refine ⟨dispatch fd evctx (memory (pre ++ (e.bytes ++ flatten events)) stack) pre.length ++ calls,
        fun n hn => ?_, ?_⟩
      · rw [List.length_append] at hn hbound
        rw [List.length_append] at hbound
        cases n with
        | zero => cases hn
        | succ n =>
            unfold handleLoop
            rw [if_pos (by simp only [List.length_append]; omega), advance_event (by omega), hassoc,
              hloop n (by omega)]
            rfl
      · rw [handled_cons]
        exact List.rel_append dispatch_event hcalls

end Loop

/-! ## The result -/

/-- Complete events are all handled, in their order; a read that fails, or returns less than a header, is an error. -/
def HandlesEvents (fd : Int) (evctx : EventContext) (read : Option Bytes) (stack : Memory) : Prop :=
  (∀ bytes events, read = some bytes → bytes.list = flatten events →
    ∃ calls, (∀ n, bytes.list.length < n → drmHandleEvent n fd evctx read stack = some (0, calls)) ∧
      List.Forall₂ (Call.For fd) (evctx.handled events) calls) ∧
  ((read = none ∨ ∃ bytes, read = some bytes ∧ 0 < bytes.list.length ∧ bytes.list.length < sizeofEvent) →
    ∀ n, 0 < n → drmHandleEvent n fd evctx read stack = some (-1, []))

section Result

variable (fd : Int) (evctx : EventContext) (stack : Memory)

/-- The test for a short read, of a read that did not fail. -/
theorem short_iff {n : Nat} (hn : n ≤ bufferSize) : (BitVec.ofInt 64 n).toNat < sizeofEvent ↔ n < sizeofEvent := by
  unfold bufferSize at hn
  unfold sizeofEvent
  rw [BitVec.toNat_ofInt]
  omega

theorem drmHandleEvent_events {bytes : Bytes} {events : List Event} (h : bytes.list = flatten events) :
    ∃ calls, (∀ n, bytes.list.length < n → drmHandleEvent n fd evctx (some bytes) stack = some (0, calls)) ∧
      List.Forall₂ (Call.For fd) (evctx.handled events) calls := by
  have hbound := bytes.bounded
  cases events with
  | nil =>
      refine ⟨[], fun n hn => ?_, .nil⟩
      unfold drmHandleEvent
      simp [h, flatten]
  | cons e events =>
      obtain ⟨calls, hloop, hcalls⟩ := @handleLoop_events fd evctx stack (e :: events) [] (h ▸ hbound)
      rw [List.nil_append, ← h] at hloop
      refine ⟨calls, fun n hn => ?_, hcalls⟩
      have hlong : sizeofEvent ≤ bytes.list.length := by
        rw [h, flatten_cons, List.length_append]
        exact Nat.le_add_right_of_le e.header
      have hpos : (bytes.list.length : Int) ≠ 0 := by
        unfold sizeofEvent at hlong
        omega
      unfold drmHandleEvent
      dsimp only [Option.elim]
      rw [if_neg hpos, if_neg ((short_iff hbound).not.mpr (by omega))]
      exact congrArg _ (hloop n hn)

/-- When the events of a read are handled as they should: if the read did not fail. -/
theorem events_handled (read : Option Bytes) : HandlesEvents fd evctx read stack ↔ read ≠ none := by
  constructor
  · rintro ⟨-, hshort⟩ rfl
    have hfail := hshort (.inl rfl) 1 (by decide)
    cases hfail
  · intro hread
    obtain ⟨bytes, rfl⟩ := Option.ne_none_iff_exists'.mp hread
    refine ⟨?_, ?_⟩
    · rintro _ events ⟨⟩ hevents
      exact drmHandleEvent_events fd evctx stack hevents
    · rintro (⟨⟨⟩⟩ | ⟨_, ⟨⟩, hpos, hlt⟩) n -
      unfold drmHandleEvent
      dsimp only
      rw [if_neg (by omega), if_pos ((short_iff bytes.bounded).mpr hlt)]

/-- A read that fails: 0 is returned. -/
theorem events_fails : ¬ HandlesEvents 3 ⟨2, true, true⟩ none fun _ => 0 := by
  rintro ⟨-, hshort⟩
  have hfail := hshort (.inl rfl) 1 (by decide)
  cases hfail

end Result

end LibDrm.Mode
