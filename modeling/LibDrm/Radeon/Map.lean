/-
# `LibDrm.Radeon.Map` — mapping a GEM buffer

A buffer is mapped by the first `bo_map`, waited for, and stays mapped; `map_count` says how many
maps there are, and a map that is not the first only counts.

    bo_map      counts, maps if there is no mapping yet, sets `ptr` and waits
    bo_unmap    counts, and clears `ptr` when it was the last

A map that fails has counted (`bo_map_contract_failed`): the next one finds a count and returns 0,
where there is no pointer.  An unmap without a map makes the count negative, with the same effect.
-/
import LibDrm.Lib.Along

namespace LibDrm.Radeon.Gem

/-- An address that is not NULL; `mmap` gives no other. -/
abbrev Address := Nat

def EBUSY : Int := 16

/-- The parts of `struct radeon_bo_gem`, and of the buffer in it, that a map is about. -/
structure Bo where
  ptr : Option Address := none
  privPtr : Option Address := none
  mapCount : Int := 0
  deriving DecidableEq, Repr

/-- The answers that a map gets: of `DRM_RADEON_GEM_MMAP`, of `mmap`, which is an address or `errno`, and of
    `DRM_RADEON_GEM_WAIT_IDLE`. -/
structure Reply where
  mmapIoctl : Int := 0
  mmap : Except { errno : Nat // 0 < errno } Address
  waitIdle : List Int := []

/-- It is asked again as long as the buffer is busy. -/
def bo_wait : List Int → Int
  | [] => 0
  | ret :: l => if ret = -EBUSY then bo_wait l else ret

/-- From the label `wait` on. -/
def mapWait (reply : Reply) (bo : Bo) : Int × Bo := (bo_wait reply.waitIdle, { bo with ptr := bo.privPtr })

def bo_map (reply : Reply) (bo : Bo) : Int × Bo :=
  let count := bo.mapCount
  let bo := { bo with mapCount := bo.mapCount + 1 }
  if count ≠ 0 then (0, bo)
  else if bo.privPtr.isSome then mapWait reply bo
  else
    let bo := { bo with ptr := none }
    if reply.mmapIoctl ≠ 0 then (reply.mmapIoctl, bo)
    else
      match reply.mmap with
      | .error errno => (-(errno : Nat), bo)
      | .ok ptr => mapWait reply { bo with privPtr := some ptr }

def bo_unmap (bo : Bo) : Bo :=
  let bo := { bo with mapCount := bo.mapCount - 1 }
  if bo.mapCount > 0 then bo else { bo with ptr := none }

/-! ## Runs -/

/-- A buffer, and how many maps of it have succeeded and were not unmapped (no data of the source). -/
structure State where
  bo : Bo := {}
  maps : Nat := 0

inductive Op
  | map (reply : Reply)
  | unmap

def step (s : State) : Op → Option State
  | .map reply =>
      let (ret, bo) := bo_map reply s.bo
      some { bo, maps := if ret = 0 then s.maps + 1 else s.maps }
  | .unmap => some { bo := bo_unmap s.bo, maps := s.maps - 1 }

/-- What is promised of a call. -/
structure Contract (s : State) (op : Op) : Prop where
  mapped : ∀ reply, op = .map reply → (bo_map reply s.bo).1 = 0 → (bo_map reply s.bo).2.ptr ≠ none
  counted : ∀ s', step s op = some s' → s'.bo.mapCount = s'.maps
  failed : ∀ reply, op = .map reply → (bo_map reply s.bo).1 ≠ 0 →
    (bo_map reply s.bo).2.mapCount = s.bo.mapCount ∧ (bo_map reply s.bo).2.ptr = s.bo.ptr

/-- The first map gets what it asks for, and an unmap has a map. -/
def Granted (s : State) : Op → Prop
  | .map reply =>
      s.maps ≠ 0 ∨
        (s.bo.privPtr ≠ none ∨ reply.mmapIoctl = 0 ∧ ∃ ptr, reply.mmap = .ok ptr) ∧ bo_wait reply.waitIdle = 0
  | .unmap => s.maps ≠ 0

/-- The count is that of the maps, and there is a pointer if there is one. -/
structure Inv (s : State) : Prop where
  mapCount : s.bo.mapCount = s.maps
  ptr : s.maps ≠ 0 → s.bo.ptr ≠ none

variable {s s' : State} {op : Op} {reply : Reply}

theorem step_map : step s (.map reply) =
    some { bo := (bo_map reply s.bo).2, maps := if (bo_map reply s.bo).1 = 0 then s.maps + 1 else s.maps } := rfl

/-- A map that is not the first. -/
theorem bo_map_again (h : Inv s) (hmaps : s.maps ≠ 0) :
    bo_map reply s.bo = (0, { s.bo with mapCount := s.bo.mapCount + 1 }) := by
  have hcount : s.bo.mapCount ≠ 0 := by
    rw [h.mapCount]
    exact_mod_cast hmaps
  simp [bo_map, hcount]

/-- The first map: it has a pointer and no error, or an error; it has counted in any case. -/
theorem bo_map_first (reply : Reply) (h : Inv s) (hmaps : s.maps = 0) :
    (bo_map reply s.bo).2.mapCount = 1 ∧
      (((bo_map reply s.bo).1 = 0 ∧ (bo_map reply s.bo).2.ptr ≠ none ∧ Granted s (.map reply)) ∨
        ((bo_map reply s.bo).1 ≠ 0 ∧ ¬ Granted s (.map reply))) := by
  have hcount : s.bo.mapCount = 0 := by rw [h.mapCount, hmaps]; rfl
  unfold bo_map Granted mapWait
  cases hpriv : s.bo.privPtr with
  | some ptr =>
      by_cases hwait : bo_wait reply.waitIdle = 0
      · simp [hcount, hwait]
      · simp [hcount, hmaps, hwait]
  | none =>
      by_cases hioctl : reply.mmapIoctl = 0
      · cases hmmap : reply.mmap with
        | error errno =>
            have hpos := errno.2
            have hret : -((errno : Nat) : Int) ≠ 0 := by omega
            simp [hcount, hmaps, hioctl, hret, hmmap]
        | ok ptr =>
            by_cases hwait : bo_wait reply.waitIdle = 0
            · simp [hcount, hioctl, hwait, hmmap]
            · simp [hcount, hmaps, hioctl, hwait]
      · simp [hcount, hmaps, hioctl]

theorem contract_map_iff (h : Inv s) (reply : Reply) : Contract s (.map reply) ↔ Granted s (.map reply) := by
  by_cases hmaps : s.maps = 0
  · have hcount : s.bo.mapCount = 0 := by rw [h.mapCount, hmaps]; rfl
    obtain ⟨hone, ⟨hret, hptr, hgranted⟩ | ⟨hret, hnot⟩⟩ := bo_map_first reply h hmaps
    · refine ⟨fun _ => hgranted, fun _ => ⟨fun r hr _ => ?_, fun s' hs => ?_, fun r hr hne => ?_⟩⟩
      · cases hr
        exact hptr
      · obtain rfl := Option.some.inj (step_map.symm.trans hs)
        show (bo_map reply s.bo).2.mapCount = ((if (bo_map reply s.bo).1 = 0 then s.maps + 1 else s.maps : Nat) : Int)
        rw [if_pos hret, hone, hmaps]
        rfl
      · cases hr
        exact absurd hret hne
    · refine ⟨fun hc => ?_, fun hgranted => absurd hgranted hnot⟩
      have hsame := (hc.failed reply rfl hret).1
      rw [hone, hcount] at hsame
      cases hsame
  · refine ⟨fun _ => .inl hmaps, fun _ => ⟨fun r _ _ => ?_, fun s' hs => ?_, fun r _ hne => ?_⟩⟩
    · rw [bo_map_again h hmaps]
      exact h.ptr hmaps
    · rw [step_map, bo_map_again h hmaps] at hs
      cases hs
      simp [h.mapCount]
    · exact absurd (congrArg Prod.fst (bo_map_again h hmaps)) hne

theorem contract_unmap_iff (h : Inv s) : Contract s .unmap ↔ Granted s .unmap := by
  have hunmap : (bo_unmap s.bo).mapCount = s.bo.mapCount - 1 := by
    unfold bo_unmap
    dsimp only
    split
    · rfl
    · rfl
  constructor
  · intro hc hmaps
    have hcounted := hc.counted _ rfl
    rw [show (bo_unmap s.bo).mapCount = _ from hunmap, h.mapCount, hmaps] at hcounted
    cases hcounted
  · intro hmaps
    have hpos : 0 < s.maps := Nat.pos_of_ne_zero hmaps
    refine ⟨nofun, fun s' hs => ?_, nofun⟩
    cases hs
    show (bo_unmap s.bo).mapCount = ((s.maps - 1 : Nat) : Int)
    rw [hunmap, h.mapCount]
    omega

theorem contract_iff (h : Inv s) (op : Op) : Contract s op ↔ Granted s op := by
  cases op with
  | map reply => exact contract_map_iff h reply
  | unmap => exact contract_unmap_iff h

theorem inv_step (h : Inv s) (hgranted : Granted s op) (hs : step s op = some s') : Inv s' := by
  have hc := (contract_iff h op).mpr hgranted
  refine ⟨hc.counted s' hs, ?_⟩
  cases op with
  | map reply =>
      by_cases hmaps : s.maps = 0
      · obtain ⟨-, ⟨hret, hptr, -⟩ | ⟨-, hnot⟩⟩ := bo_map_first reply h hmaps
        · obtain rfl := Option.some.inj (step_map.symm.trans hs)
          exact fun _ => hptr
        · exact absurd hgranted hnot
      · rw [step_map, bo_map_again h hmaps] at hs
        cases hs
        exact fun _ => h.ptr hmaps
  | unmap =>
      cases hs
      intro hleft
      have hmore : s.maps - 1 ≠ 0 := hleft
      have hcount : s.bo.mapCount - 1 > 0 := by
        rw [h.mapCount]
        omega
      show (bo_unmap s.bo).ptr ≠ none
      rw [bo_unmap]
      simp only [hcount, if_true]
      exact h.ptr hgranted

theorem inv_init : Inv {} := ⟨rfl, fun h => absurd rfl h⟩

end LibDrm.Radeon.Gem
