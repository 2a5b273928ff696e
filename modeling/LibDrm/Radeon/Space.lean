/-
# `LibDrm.Radeon.Space` — the space accounting, and runs

`radeon_cs_space.c` counts how much memory the buffers of an operation need.  A buffer
remembers what it is counted for in `space_accounted`, the read domains in the upper half
and the write domain in the lower.  If the operation does not fit beside what was counted
before, the stream is flushed and the check made once more.

The counters are `int32_t`; a size that is added to one is converted.
-/
import LibDrm.Radeon.Cs

namespace LibDrm.Radeon

/-- `struct rad_sizes`. -/
structure Sizes where
  opRead : Int := 0
  opGartWrite : Int := 0
  opVramWrite : Int := 0
  deriving DecidableEq, Repr

def RADEON_CS_SPACE_OK : Int := 0
def RADEON_CS_SPACE_OP_TO_BIG : Int := 1
def RADEON_CS_SPACE_FLUSH : Int := 2
def MAX_SPACE_BOS : Nat := 32

namespace Sizes

def addRead (n : Int) (z : Sizes) : Sizes := { z with opRead := CInt.int32 (z.opRead + n) }

/-- A write is counted for VRAM or for GTT, and for nothing if it is in another domain. -/
def addWrite (writeDomain : BitVec 32) (n : Int) (z : Sizes) : Sizes :=
  if writeDomain = RADEON_GEM_DOMAIN_VRAM then { z with opVramWrite := CInt.int32 (z.opVramWrite + n) }
  else if writeDomain = RADEON_GEM_DOMAIN_GTT then { z with opGartWrite := CInt.int32 (z.opGartWrite + n) }
  else z

end Sizes

/-- What `radeon_cs_setup_bo` finds for a buffer that is not static: the new value of `space_accounted` and the
    sizes, or that the stream must be flushed. -/
def accountBo (readDomains writeDomain : BitVec 32) (bo : Bo) (z : Sizes) : Option (BitVec 32 × Sizes) :=
  let size : Int := bo.size.toNat
  let oldRead := bo.spaceAccounted >>> 16
  let oldWrite := bo.spaceAccounted &&& 0xffff
  if writeDomain ≠ 0 ∧ writeDomain = bo.spaceAccounted then some (bo.spaceAccounted, z)
  else if readDomains ≠ 0 ∧ readDomains <<< 16 = bo.spaceAccounted then some (bo.spaceAccounted, z)
  else if bo.spaceAccounted = 0 then
    if writeDomain ≠ 0 then some (writeDomain, z.addWrite writeDomain size)
    else some (readDomains <<< 16, z.addRead size)
  else if writeDomain ≠ 0 ∧ oldRead &&& writeDomain ≠ 0 then
    -- moving from read to a write domain
    if writeDomain = RADEON_GEM_DOMAIN_VRAM ∨ writeDomain = RADEON_GEM_DOMAIN_GTT then
      some (writeDomain, (z.addRead (-size)).addWrite writeDomain size)
    else some (writeDomain, z)
  else if readDomains &&& oldWrite ≠ 0 then some (oldWrite, z)
  else none

/-- `radeon_cs_setup_bo`; the buffer of a static check is accounted at once. -/
def setupBo (sc : SpaceCheck) (z : Sizes) (s : State) : Except Fault (Int × SpaceCheck × Sizes × State) := do
  let bo ← s.getBo sc.bo
  if bo.isStatic then
    let accounted := sc.readDomains <<< 16 ||| sc.writeDomain
    return (0, { sc with newAccounted := accounted }, z, s.setBo sc.bo { bo with spaceAccounted := accounted })
  else
    match accountBo sc.readDomains sc.writeDomain bo z with
    | some (accounted, z) => return (0, { sc with newAccounted := accounted }, z, s)
    | none => return (RADEON_CS_SPACE_FLUSH, { sc with newAccounted := 0 }, z, s)

/-- The buffers one after the other, until one makes a flush necessary. -/
def setupBos : List SpaceCheck → Sizes → State → Except Fault (Int × List SpaceCheck × Sizes × State)
  | [], z, s => .ok (0, [], z, s)
  | sc :: scs, z, s => do
      let (ret, sc, z, s) ← setupBo sc z s
      if ret ≠ 0 then return (ret, sc :: scs, z, s)
      else do
        let (ret, scs, z, s) ← setupBos scs z s
        return (ret, sc :: scs, z, s)

/-- `bo->space_accounted = new_accounted`. -/
def commitBo (s : State) (sc : SpaceCheck) : Except Fault State := do
  let bo ← s.getBo sc.bo
  return s.setBo sc.bo { bo with spaceAccounted := sc.newAccounted }

/-- What `radeon_cs_do_space_check` makes of the sizes of the operation. -/
def judge (z : Sizes) (csm : Manager) : Int :=
  let opRead := if z.opRead < 0 then 0 else z.opRead
  if CInt.int32 (opRead + z.opGartWrite) > csm.gartLimit ∨ z.opVramWrite > csm.vramLimit then RADEON_CS_SPACE_OP_TO_BIG
  else if CInt.int32 (csm.vramWriteUsed + z.opVramWrite) > csm.vramLimit ∨
      CInt.int32 (csm.readUsed + csm.gartWriteUsed + z.opGartWrite + opRead) > csm.gartLimit then RADEON_CS_SPACE_FLUSH
  else RADEON_CS_SPACE_OK

/-- The sizes are added to the counters. -/
def use (z : Sizes) (csm : Manager) : Manager :=
  { csm with
    gartWriteUsed := CInt.int32 (csm.gartWriteUsed + z.opGartWrite)
    vramWriteUsed := CInt.int32 (csm.vramWriteUsed + z.opVramWrite)
    readUsed := CInt.int32 (csm.readUsed + if z.opRead < 0 then 0 else z.opRead) }

/-- `radeon_cs_do_space_check`: the buffers of the stream and the one of this check, if there is one. -/
def doSpaceCheck (c : CsId) (newTmp : Option SpaceCheck) (s : State) : Except Fault (Int × State) := do
  let cs ← s.getCs c
  if cs.bos = [] ∧ newTmp = none then return (0, s)
  else do
    let (ret, bos, z, s) ← setupBos cs.bos {} s
    let s := s.setCs c { cs with bos }
    if ret ≠ 0 then return (ret, s)
    else do
      let (ret, tmp, z, s) ← setupBos newTmp.toList z s
      if ret ≠ 0 then return (ret, s)
      else
        let ret := judge z s.csm
        if ret ≠ RADEON_CS_SPACE_OK then return (ret, s)
        else do
          let s ← (bos ++ tmp).foldlM commitBo { s with csm := use z s.csm }
          return (RADEON_CS_SPACE_OK, s)

/-- `radeon_cs_check_space_internal`, with what the flush callback does. -/
def checkSpaceInternal (flush : State → Except Fault State) (c : CsId) (tmpBo : Option SpaceCheck) (s : State) :
    Except Fault (Int × State) := do
  let (ret, s) ← doSpaceCheck c tmpBo s
  if ret = RADEON_CS_SPACE_OP_TO_BIG then return (-1, s)
  else if ret = RADEON_CS_SPACE_FLUSH then do
    let s ← flush s
    let (ret, s) ← doSpaceCheck c tmpBo s
    if ret = RADEON_CS_SPACE_OP_TO_BIG then return (-1, s)
    else if ret = RADEON_CS_SPACE_FLUSH then do
      let s ← flush s
      return (-1, s)
    else return (0, s)
  else return (0, s)

def spaceAddPersistentBo (c : CsId) (b : BoId) (readDomains writeDomain : BitVec 32) (s : State) : Except Fault State := do
  let cs ← s.getCs c
  if cs.bos.any fun sc => sc.bo = b ∧ sc.readDomains = readDomains ∧ sc.writeDomain = writeDomain then return s
  else do
    let s ← boRef b s
    let bos := cs.bos ++ [{ bo := b, readDomains, writeDomain }]
    assert (bos.length < MAX_SPACE_BOS)
    return s.setCs c { cs with bos }

def spaceResetBos (c : CsId) (s : State) : Except Fault State := do
  let cs ← s.getCs c
  let s ← cs.bos.foldlM (fun s sc => boUnref sc.bo s) s
  return s.setCs c { cs with bos := [] }

/-- A flush callback that emits and erases the stream. -/
def flushCs (c : CsId) (result : Int) (s : State) : Except Fault State := do
  let (_, s) ← csEmit c result s
  csErase c s

/-! ## Runs -/

/-- The calls, with the outcomes of allocations and of the ioctl; the flush callback emits and erases the stream. -/
inductive Op
  | boOpen (handle size : BitVec 32) (isStatic : Bool)
  | boRef (b : BoId)
  | boUnref (b : BoId)
  | create (ndw : Nat) (mem : Nat → Option Nat)
  | csBegin (c : CsId) (ndw : BitVec 32) (mem : Nat → Option Nat)
  | writeDword (c : CsId) (dword : BitVec 32)
  | csEnd (c : CsId)
  | writeReloc (c : CsId) (b : BoId) (readDomain writeDomain flags : BitVec 32) (mem : Nat → Option Nat)
  | emit (c : CsId) (result : Int)
  | erase (c : CsId)
  | destroy (c : CsId)
  | addPersistentBo (c : CsId) (b : BoId) (readDomains writeDomain : BitVec 32)
  | resetBos (c : CsId)
  | spaceCheck (c : CsId) (result : Int)
  | spaceCheckWithBo (c : CsId) (b : BoId) (readDomains writeDomain : BitVec 32) (result : Int)

/-- What a call returns, 0 if it returns nothing, and the state after it. -/
def Op.run : Op → State → Except Fault (Int × State)
  | .boOpen handle size isStatic, s => .ok (0, (LibDrm.Radeon.boOpen handle size isStatic s).2)
  | .boRef b, s => return (0, ← LibDrm.Radeon.boRef b s)
  | .boUnref b, s => return (0, ← LibDrm.Radeon.boUnref b s)
  | .create ndw mem, s => .ok (0, (csCreate ndw mem s).2)
  | .csBegin c ndw mem, s => LibDrm.Radeon.csBegin c ndw mem s
  | .writeDword c dword, s => do
      let cs ← s.getCs c
      let cs ← LibDrm.Radeon.writeDword dword cs
      return (0, s.setCs c cs)
  | .csEnd c, s => LibDrm.Radeon.csEnd c s
  | .writeReloc c b readDomain writeDomain flags mem, s => LibDrm.Radeon.writeReloc c b readDomain writeDomain flags mem s
  | .emit c result, s => csEmit c result s
  | .erase c, s => return (0, ← csErase c s)
  | .destroy c, s => return (0, ← csDestroy c s)
  | .addPersistentBo c b readDomains writeDomain, s => return (0, ← spaceAddPersistentBo c b readDomains writeDomain s)
  | .resetBos c, s => return (0, ← spaceResetBos c s)
  | .spaceCheck c result, s => checkSpaceInternal (flushCs c result) c none s
  | .spaceCheckWithBo c b readDomains writeDomain result, s =>
      checkSpaceInternal (flushCs c result) c (some { bo := b, readDomains, writeDomain }) s

/-- A manager with its limits, and no streams; no id is taken. -/
def initState (vramLimit gartLimit : BitVec 32) : State where
  bo _ := none
  freshBo := 0
  cs _ := none
  freshCs := 0
  csIdSource := 0
  csm := { vramLimit := vramLimit.toInt, gartLimit := gartLimit.toInt }

def State.Init (s : State) : Prop := ∃ vramLimit gartLimit, s = initState vramLimit gartLimit

def State.Step (s s' : State) : Prop := ∃ (op : Op) (ret : Int), op.run s = .ok (ret, s')

/-- Calls one after the other that pass a check. -/
def playAll (check : State → Op → Bool) (ops : List Op) (s : State) : Option State :=
  ops.foldlM (fun s op => if check s op then (op.run s).toOption.map (·.2) else none) s

theorem playAll_runs {step : State → State → Prop} {check : State → Op → Bool}
    (hstep : ∀ s op ret s', Runs State.Init step s → check s op = true → op.run s = .ok (ret, s') → step s s') {ops : List Op} {s s' : State}
    (hs : s.Init) (h : playAll check ops s = some s') : Runs State.Init step s' := by
  refine Runs.foldlM (fun s op s' hruns hop => ?_) (.init hs) h
  split at hop
  · next hcheck =>
    obtain ⟨⟨ret, _⟩, hrun, rfl⟩ := Option.map_eq_some_iff.mp hop
    exact hstep s op ret _ hruns hcheck (toOption_eq_some hrun)
  · cases hop

end LibDrm.Radeon
