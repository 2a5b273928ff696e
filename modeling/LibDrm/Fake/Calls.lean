/-
# `LibDrm.Fake.Calls` — the calls of the fake buffer manager

    bo_alloc, bo_reference, bo_unreference
    bo_map, bo_unmap, bo_subdata, bo_wait_rendering
    bo_emit_reloc, bo_exec, evict_all

An execution first validates the batch: every buffer that it reaches by
relocations gets a block of card memory, is uploaded if it is dirty, and is moved
to `on_hardware`; the relocations are patched on the way, through a mapping.  If
the memory does not suffice everything is kicked out of `on_hardware` and the
batch is validated once more.  Then the batch is submitted, the blocks are fenced
and the marks of the validation are taken back.
-/
import LibDrm.Fake.State

namespace LibDrm.Fake

/-! ## Creating, mapping and writing -/

/-- `drm_intel_fake_bo_alloc`. -/
def boAlloc (size alignment : Nat) (s : State) : Except Fault (BoId × State) := do
  assert (size ≠ 0)
  assert (alignment &&& (alignment - 1) = 0)
  let bo : Bo := { size, alignment := if alignment = 0 then 1 else alignment }
  return (s.freshBo, { s.setBo s.freshBo bo with freshBo := s.freshBo + 1 })

def boReference (b : BoId) (s : State) : Except Fault State :=
  s.modifyBo b fun bo => { bo with refcount := bo.refcount + 1 }

/-- The branch of `map_locked` for a buffer that has no backing store. -/
def mapCard (env : Env) (b : BoId) (s : State) : Except Fault (Int × State) := do
  let bo ← s.getBo b
  let (done, s) ← if bo.block.isNone then evictAndAllocBlock env b s else pure (true, s)
  if !done then return (1, { s with fail := true })
  else do
    let bo ← s.getBo b
    let k ← deref bo.block
    let block ← s.getBlock k
    let s := s.setBo b { bo with dirty := false }
    let s ← if !bo.flags.noFenceSubdata && block.fenced then waitRenderingLocked env b s else pure s
    let s ← s.modifyBo b fun bo => { bo with virtual := some (.card (s.ofs block)) }
    return (0, s)

/-- What the card has written comes back to the backing store. -/
def fetchCard (env : Env) (b : BoId) (s : State) : Except Fault State := do
  let bo ← s.getBo b
  match bo.block with
  | none => return s
  | some k =>
      if bo.cardDirty then do
        let block ← s.getBlock k
        let s ← if block.fenced then waitRenderingLocked env b s else pure s
        saveBlock b block s
      else return s

/-- `if (write_enable) set_dirty(bo)`. -/
def setDirtyIf (writeEnable : Bool) (b : BoId) (s : State) : Except Fault State :=
  if writeEnable then setDirty b s else .ok s

/-- `if (bo_fake->backing_store == 0) alloc_backing_store(bo)`. -/
def needBackingStore (env : Env) (b : BoId) (s : State) : Except Fault State := do
  let bo ← s.getBo b
  if bo.backingStore.isNone then allocBackingStore env b s else return s

/-- The branch of `map_locked` for an ordinary buffer. -/
def mapBacking (env : Env) (b : BoId) (writeEnable : Bool) (s : State) : Except Fault (Int × State) := do
  let s ← setDirtyIf writeEnable b s
  let s ← needBackingStore env b s
  let s ← fetchCard env b s
  let s ← s.modifyBo b fun bo => { bo with virtual := some .backing }
  return (0, s)

def boMapLocked (env : Env) (b : BoId) (writeEnable : Bool) (s : State) : Except Fault (Int × State) := do
  let bo ← s.getBo b
  if bo.isStatic then
    if bo.cardDirty then do
      let s ← waitIdle env s
      let s ← s.modifyBo b fun bo => { bo with cardDirty := false }
      return (0, s)
    else return (0, s)
  else
    let s := s.setBo b { bo with mapCount := bo.mapCount + 1 }
    -- recursive mappings share the first one
    if bo.mapCount ≠ 0 then return (0, s)
    else if bo.virtual.isSome then .error .abort
    else if bo.flags.noBackingStore || bo.flags.pinned then mapCard env b s
    else mapBacking env b writeEnable s

def boUnmapLocked (b : BoId) (s : State) : Except Fault (Int × State) := do
  let bo ← s.getBo b
  if bo.isStatic then return (0, s)
  else do
    assert (bo.mapCount ≠ 0)
    let bo := { bo with mapCount := bo.mapCount - 1 }
    if bo.mapCount ≠ 0 then return (0, s.setBo b bo)
    else return (0, s.setBo b { bo with virtual := none })

/-- Bytes are written through `bo->virtual`. -/
def writeVirtual (b : BoId) (offset : Nat) (bytes : List UInt8) (s : State) : Except Fault State := do
  let bo ← s.getBo b
  if bo.size < offset + bytes.length then .error .badAccess
  else
    let s := { s with content := Function.update s.content b (record (s.content b) offset bytes) }
    match bo.virtual with
    | none => .error .badPointer
    | some .backing => do
        let old ← deref bo.backingStore
        return s.setBo b { bo with backingStore := some (overwrite old offset bytes) }
    | some (.card address) =>
        return { s with
          card := fun a =>
            if address + offset ≤ a ∧ a < address + offset + bytes.length then
              bytes.getD (a - address - offset).toNat 0
            else s.card a }

def boSubdata (env : Env) (b : BoId) (offset : Nat) (data : List UInt8) (s : State) : Except Fault (Int × State) :=
  if data = [] then .ok (0, s)
  else do
    let (ret, s) ← boMapLocked env b true s
    if ret ≠ 0 then return (ret, s)
    else do
      let s ← writeVirtual b offset data s
      let (_, s) ← boUnmapLocked b s
      return (0, s)

/-! ## Validating -/

/-- One block of `kick_all_locked`. -/
def kickBlock (s : State) (k : BlockId) : Except Fault State := do
  let block ← s.getBlock k
  let b ← deref block.bo
  let s ← freeBlock k false (s.setBlock k { block with onHardware := false })
  s.modifyBo b fun bo =>
    { bo with block := none, validated := false, dirty := bo.dirty || !bo.flags.noBackingStore }

def kickAllLocked (s : State) : Except Fault State :=
  s.onHardware.foldlM kickBlock { s with performedRendering := false }

/-- The upload of a dirty buffer in `validate`. -/
def upload (env : Env) (b : BoId) (block : Block) (s : State) : Except Fault State := do
  let bo ← s.getBo b
  assert !(bo.flags.noBackingStore || bo.flags.pinned)
  let s ← waitIdle env s
  let bo ← s.getBo b
  -- a buffer that was never mapped has no backing store
  let bytes := bo.backingStore.getD fun _ => 0
  return { s.setBo b { bo with dirty := false } with card := copyIn block bo.size bytes s }

/-- The block becomes part of the batch. -/
def moveToHardware (k : BlockId) (s : State) : Except Fault State := do
  let block ← s.getBlock k
  let s := (s.setBlock k { block with fenced := false, onHardware := true }).unlink k
  return { s with onHardware := s.onHardware ++ [k] }

/-- `validate` from where the buffer has a block. -/
def placeBo (env : Env) (b : BoId) (s : State) : Except Fault (Int × State) := do
  let bo ← s.getBo b
  let k ← deref bo.block
  let block ← s.getBlock k
  assert (block.bo = some b)
  let s := s.setBo b { bo with offset := s.ofs block }
  let s ← if bo.dirty then upload env b block s else pure s
  let s ← moveToHardware k s
  let s ← s.modifyBo b fun bo => { bo with validated := true }
  return (0, { s with needFence := true })

def boValidate (env : Env) (b : BoId) (s : State) : Except Fault (Int × State) := do
  let bo ← s.getBo b
  assert (bo.mapCount = 0)
  if bo.isStatic then return (0, { s with needFence := true })
  else do
    let (done, s) ← if bo.block.isNone then evictAndAllocBlock env b s else pure (true, s)
    if !done then return (-1, { s with fail := true }) else placeBo env b s

/-! ## Relocations -/

def MAX_RELOCS : Nat := 4096

/-- `ALIGN`, for a power of two. -/
def align (size alignment : Nat) : Nat := (size + alignment - 1) / alignment * alignment

def emitReloc (b : BoId) (offset : UInt32) (target : BoId) (targetOffset readDomains writeDomain : UInt32) (s : State) :
    Except Fault (Int × State) := do
  let bo ← s.getBo b
  assert (bo.relocs.length + 1 ≤ MAX_RELOCS)
  let s ← boReference target s
  let tbo ← s.getBo target
  let bo ← s.getBo b
  let childSize :=
    if tbo.isStatic then bo.childSize
    else bo.childSize + UInt32.ofNat (align tbo.size tbo.alignment) + tbo.childSize
  let r : Reloc :=
    { target, offset, lastTargetOffset := UInt32.ofNat (tbo.offset % 2 ^ 32).toNat, delta := targetOffset,
      readDomains, writeDomain }
  return (0, s.setBo b { bo with relocs := bo.relocs ++ [r], childSize })

/-- One relocation of `calculate_domains`; `again` is the function itself. -/
def domainsOf (again : BoId → State → Except Fault State) (s : State) (r : Reloc) : Except Fault State := do
  let s ← again r.target s
  s.modifyBo r.target fun bo =>
    { bo with readDomains := bo.readDomains ||| r.readDomains, writeDomain := bo.writeDomain ||| r.writeDomain }

def calculateDomains : Nat → BoId → State → Except Fault State
  | 0 => fun _ _ => .error .endless
  | fuel + 1 => fun b s => do
      let bo ← s.getBo b
      bo.relocs.foldlM (domainsOf (calculateDomains fuel)) s

/-- The value of the relocation is written if the target is not where it was. -/
def applyReloc (env : Env) (b : BoId) (i : Nat) (s : State) : Except Fault State := do
  let bo ← s.getBo b
  let r ← deref bo.relocs[i]?
  let tbo ← s.getBo r.target
  if tbo.offset = r.lastTargetOffset.toNat then return s
  else do
    let relocData := UInt32.ofNat ((tbo.offset + r.delta.toNat) % 2 ^ 32).toNat
    let (_, s) ← if bo.virtual.isNone then boMapLocked env b true s else pure (0, s)
    let s ← writeVirtual b r.offset.toNat (bytes32 relocData) s
    s.modifyBo b fun bo =>
      { bo with relocs := bo.relocs.set i { r with lastTargetOffset := UInt32.ofNat (tbo.offset % 2 ^ 32).toNat } }

/-- `if (bo->virtual != NULL) unmap_locked(bo)`. -/
def unmapIfMapped (b : BoId) (s : State) : Except Fault State := do
  let bo ← s.getBo b
  if bo.virtual.isSome then do
    let (_, s) ← boUnmapLocked b s
    return s
  else return s

/-- The loop over the relocations from the `i`-th on, `n` of them. -/
def relocLoop (env : Env) (again : BoId → State → Except Fault (Int × State)) (b : BoId) :
    Nat → Nat → State → Except Fault (Int × State)
  | 0, _, s => .ok (0, s)
  | n + 1, i, s => do
      let bo ← s.getBo b
      let r ← deref bo.relocs[i]?
      let tbo ← s.getBo r.target
      let (ret, s) ← if tbo.validated then pure (0, s) else again r.target s
      if ret ≠ 0 then do
        let s ← unmapIfMapped b s
        return (ret, s)
      else do
        let s ← applyReloc env b i s
        relocLoop env again b n (i + 1) s

/-- The buffer is marked as written by the card, if it has a write domain. -/
def markCardDirty (env : Env) (b : BoId) (s : State) : Except Fault State := do
  let bo ← s.getBo b
  if bo.writeDomain ≠ 0 then do
    let s ←
      if !(bo.flags.noBackingStore || bo.flags.pinned) && bo.backingStore.isNone then allocBackingStore env b s
      else pure s
    let s ← s.modifyBo b fun bo => { bo with cardDirty := true }
    return { s with performedRendering := true }
  else return s

def relocAndValidateBuffer (env : Env) : Nat → BoId → State → Except Fault (Int × State)
  | 0 => fun _ _ => .error .endless
  | fuel + 1 => fun b s => do
      let bo ← s.getBo b
      assert (bo.mapCount = 0)
      let (ret, s) ← relocLoop env (relocAndValidateBuffer env fuel) b bo.relocs.length 0 s
      if ret ≠ 0 then return (ret, s)
      else do
        let s ← unmapIfMapped b s
        let s ← markCardDirty env b s
        boValidate env b s

/-- One relocation of `post_submit`. -/
def postSubmitOf (again : BoId → State → Except Fault State) (s : State) (r : Reloc) : Except Fault State := do
  let tbo ← s.getBo r.target
  if tbo.validated then again r.target s else return s

def postSubmit : Nat → BoId → State → Except Fault State
  | 0 => fun _ _ => .error .endless
  | fuel + 1 => fun b s => do
      let bo ← s.getBo b
      let s ← bo.relocs.foldlM (postSubmitOf (postSubmit fuel)) s
      let bo ← s.getBo b
      assert (bo.mapCount = 0)
      return s.setBo b { bo with validated := false, readDomains := 0, writeDomain := 0 }

/-! ## Executing -/

def fenceBlock (fence : UInt32) (s : State) (k : BlockId) : Except Fault State := do
  let block ← s.getBlock k
  let s := (s.setBlock k { block with fence, onHardware := false, fenced := true }).unlink k
  return { s with fenced := s.fenced ++ [k] }

def fenceBlocks (fence : UInt32) (s : State) : Except Fault State := do
  let s ← s.onHardware.foldlM (fenceBlock fence) s
  assert (s.onHardware = [])
  return s

def fenceValidated (env : Env) (s : State) : Except Fault State :=
  let (cookie, s) := fenceEmitInternal env s
  fenceBlocks cookie s

def I915_GEM_DOMAIN_COMMAND : UInt32 := 0x8

/-- `bo_exec` up to the point where the batch goes to the hardware. -/
def prepareExec (env : Env) (b : BoId) (s : State) : Except Fault State := do
  let s ← calculateDomains env.fuel b { s with performedRendering := false }
  let s ← s.modifyBo b fun bo => { bo with readDomains := I915_GEM_DOMAIN_COMMAND }
  let (ret, s) ← relocAndValidateBuffer env env.fuel b s
  let (ret, s) ←
    if s.fail then do
      let s ← kickAllLocked s
      relocAndValidateBuffer env env.fuel b { s with fail := false }
    else pure (ret, s)
  assert (ret = 0)
  return s

/-- A byte that the GPU writes to a buffer, where the batch says the buffer is. -/
structure GpuWrite where
  bo : BoId
  index : Nat
  value : UInt8
  deriving DecidableEq, Repr

def gpuWrite (s : State) (w : GpuWrite) : Except Fault State := do
  let bo ← s.getBo w.bo
  return { s with
    card := Function.update s.card (bo.offset + w.index) w.value
    content := Function.update s.content w.bo (Function.update (s.content w.bo) w.index (some w.value)) }

/-- `bo_exec`; `result` is what the callback or the ioctl returns, `writes` what the GPU does if it is 0. -/
def boExec (env : Env) (b : BoId) (result : Int) (writes : List GpuWrite) (s : State) : Except Fault (Int × State) := do
  let s ← prepareExec env b s
  if result ≠ 0 then return (result, s)
  else do
    let s ← writes.foldlM gpuWrite s
    let s ← fenceValidated env s
    let s ← postSubmit env.fuel b s
    return (0, s)

/-! ## Releasing -/

/-- `if (bo_fake->block) free_block(bufmgr_fake, bo_fake->block, 1)`. -/
def freeBoBlock (bo : Bo) (s : State) : Except Fault State :=
  match bo.block with
  | some k => freeBlock k true s
  | none => .ok s

def unreferenceLocked : Nat → BoId → State → Except Fault State
  | 0 => fun _ _ => .error .endless
  | fuel + 1 => fun b s => do
      let bo ← s.getBo b
      let s := s.setBo b { bo with refcount := bo.refcount - 1 }
      if bo.refcount ≠ 1 then return s
      else do
        assert (bo.mapCount = 0)
        let s ← freeBoBlock bo s
        let s ← bo.relocs.foldlM (fun s r => unreferenceLocked fuel r.target s) s
        return { s with bo := Function.update s.bo b none }

/-- One block of `evict_all`. -/
def evictOut (s : State) (k : BlockId) : Except Fault State := do
  let block ← s.getBlock k
  let b ← deref block.bo
  let s ← freeBlock k false s
  s.modifyBo b fun bo => { bo with block := none }

def evictAll (env : Env) (s : State) : Except Fault State := do
  let s ← waitIdle env { s with needFence := true, fail := false }
  assert (s.fenced = [])
  assert (s.onHardware = [])
  s.lru.foldlM evictOut s

end LibDrm.Fake
