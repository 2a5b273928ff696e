/-
# `LibDrm.Fake.Run` — runs of the fake buffer manager

A run starts with a manager over an empty heap and makes calls.  Every call meets
its own `Env`, so that the contents of fresh memory, the answers to waits and the
times at which fences pass are arbitrary.
-/
import LibDrm.Fake.Calls

namespace LibDrm.Fake

/-- The calls on ordinary buffers, and the writes of the CPU through a mapping. -/
inductive Op
  | alloc (size alignment : Nat)
  | reference (b : BoId)
  | unreference (b : BoId)
  | map (b : BoId) (writeEnable : Bool)
  | write (b : BoId) (offset : Nat) (bytes : List UInt8)
  | unmap (b : BoId)
  | subdata (b : BoId) (offset : Nat) (data : List UInt8)
  | emitReloc (b : BoId) (offset : UInt32) (target : BoId) (targetOffset readDomains writeDomain : UInt32)
  /-- The result of the submission, and what the GPU writes if it is 0. -/
  | exec (b : BoId) (result : Int) (writes : List GpuWrite)
  | wait (b : BoId)
  | evictAll

def Op.run (env : Env) : Op → State → Except Fault State
  | .alloc size alignment, s => return (← boAlloc size alignment s).2
  | .reference b, s => boReference b s
  | .unreference b, s => unreferenceLocked env.fuel b s
  | .map b writeEnable, s => return (← boMapLocked env b writeEnable s).2
  | .write b offset bytes, s => writeVirtual b offset bytes s
  | .unmap b, s => return (← boUnmapLocked b s).2
  | .subdata b offset data, s => return (← boSubdata env b offset data s).2
  | .emitReloc b offset target targetOffset readDomains writeDomain, s =>
      return (← LibDrm.Fake.emitReloc b offset target targetOffset readDomains writeDomain s).2
  | .exec b result writes, s => return (← boExec env b result writes s).2
  | .wait b, s => waitRenderingLocked env b s
  | .evictAll, s => LibDrm.Fake.evictAll env s

/-- `drm_intel_bufmgr_fake_init`: a manager of the card memory from `ofs` on, which holds some bytes. -/
def initState (ofs size : Int) (card : Int → UInt8) : Option State :=
  match Mm.mmInit true true ofs size with
  | (none, _) => none
  | (some heap, mem) => some
      { bo := fun _ => none, freshBo := 0, block := fun _ => none, freshBlock := 0
        onHardware := [], fenced := [], lru := [], heap := ⟨mem, heap, []⟩
        lastFence := 0, fail := false, needFence := false, thrashing := 0, performedRendering := false
        emitted := 0, waits := 0, card, content := fun _ _ => none }

def State.Init (s : State) : Prop := ∃ ofs size card, initState ofs size card = some s

/-- Calls one after the other. -/
def play (env : Env) (ops : List Op) (s : State) : Except Fault State := ops.foldlM (fun s op => op.run env s) s

/-- An environment with a fence callback; fresh memory is full of `0xcc`. -/
def plainEnv : Env where
  garbage _ _ := 0xcc
  cookie n := UInt32.ofNat (n + 1)
  fenceCallback := true
  rounds _ := []
  fuel := 8

/-- A batch with one relocation to a buffer that the caller has filled. -/
def drawOps : List Op :=
  [.alloc 16 4, .alloc 8 4, .subdata 1 0 [1, 2, 3, 4, 5, 6, 7, 8], .emitReloc 0 4 1 0 2 0, .exec 0 0 []]

/-- A manager of 64 bytes on which the calls were made. -/
def playAll (ops : List Op) : Option State := (initState 0 64 fun _ => 0xcc).bind fun s => (play plainEnv ops s).toOption

end LibDrm.Fake
