/-
# `LibDrm.Nouveau.Pushbuf` — push buffers, buffer contexts and the client they share

A client has one table for all its push buffers: for a buffer object the entry of a record that
stands for it, and the push buffer of the record.

    immediate    has a channel; a flush submits its record, and empties it
    deferred     a flush keeps the record, and begins another; `kick` submits them all

`space`, `validate` and `kick` call each other; the calls go through `Call.run`, whose first
argument is how deep they may be.  The kernel answers from `replies`, one after the other.

A reference count keeps every buffer of a record alive, and buffers do not go away here.
The notification of a kick is not set.
-/
import LibDrm.Nouveau.Krec

namespace LibDrm.Nouveau.Push

abbrev PushId := Nat

abbrev CtxId := Nat

inductive Fault
  | badPointer
  /-- An access outside of an array. -/
  | badIndex
  /-- The memory of a buffer, or an array of a record, is full. -/
  | endOfBuffer
  | tooManyRelocs
  | tooManyPushes
  | overflow
  /-- Memory that was not written before. -/
  | uninitialised
  /-- The calls are too deep. -/
  | fuel
  deriving DecidableEq, Repr

def check (p : Bool) (fault : Fault) : Except Fault Unit := if p then .ok () else .error fault

def deref {α : Type} : Option α → Except Fault α
  | some a => .ok a
  | none => .error .badPointer

/-! ## Data -/

/-- `struct nouveau_bo`, with its mapping. -/
structure Bo where
  size : Size
  flags : Word
  offset : Size
  mapped : Bool := false
  map : Nat → Word := fun _ => 0

/-- `struct nouveau_bufref`, and the bin that it is in. -/
structure Bufref where
  bin : Nat
  bo : BoId
  flags : Word
  packet : Word := 0
  data : Size := 0
  vor : Word := 0
  tor : Word := 0
  deriving DecidableEq, Repr

/-- `struct nouveau_bufctx`; `onList` is the push buffer on whose list it is.  `strayed` tells that it came there from
    the list of another one (no data of the source). -/
structure Bufctx where
  pending : List Bufref := []
  current : List Bufref := []
  relocs : Nat := 0
  binRelocs : Nat → Nat := fun _ => 0
  onList : Option PushId := none
  strayed : Bool := false

/-- An entry of a record: `krec` counts the records of the push buffer. -/
structure KrefAt where
  push : PushId
  krec : Nat
  slot : Nat
  deriving DecidableEq, Repr

/-- `struct nouveau_pushbuf_priv`.  The pointers into the mapping of `bo` are offsets in dwords, and `nextNull` says
    what is behind the last record.  `gaveUp` tells of a validation that failed since the last flush (no data of the
    source). -/
structure Pushbuf where
  channel : Bool
  bufctx : Option CtxId := none
  flags : Word
  rsvdKick : Nat := 0
  old : List Krec := []
  krec : Krec := {}
  nextNull : Bool := true
  bo : Option BoId := none
  suffix0 : Word
  suffix1 : Word
  bgn : Nat := 0
  cur : Nat := 0
  stop : Int := 0
  bos : List BoId
  boNext : Nat := 0
  gaveUp : Bool := false

/-- An answer from outside: of the kernel, of `malloc`, of `mmap`. -/
structure Reply where
  ret : Int := 0
  vramLimit : Size := 0
  gartLimit : Size := 0
  suffix0 : Word := 0
  suffix1 : Word := 0
  /-- Where the kernel has moved a buffer. -/
  moved : BoId → Option (Domains × Size) := fun _ => none
  /-- What the kernel says of a new buffer: the flags, and the offset. -/
  made : BoId → Word × Size := fun _ => (NOUVEAU_BO_GART, 0)
  /-- Memory was there, and it was zero where `next` is. -/
  memory : Bool := true
  zero : Bool := true

/-- What a command stream is made of: dwords, and segments of other buffers. -/
inductive Piece
  | dword (data : Word)
  | segment (b : BoId) (offset length : Nat)
  deriving DecidableEq, Repr

/-- `struct drm_nouveau_gem_pushbuf`. -/
structure Submit where
  push : PushId
  krec : Krec
  suffix0 : Word
  suffix1 : Word

structure Client where
  bo : BoId → Bo
  freshBo : BoId
  push : PushId → Option Pushbuf
  freshPush : PushId
  ctx : CtxId → Option Bufctx
  freshCtx : CtxId
  kref : BoId → Option KrefAt
  vramLimit : Size
  gartLimit : Size
  replies : Nat → Reply
  tick : Nat := 0
  /-- What the kernel was given, with the memory of the buffers at that time. -/
  submits : List (Submit × (BoId → Nat → Word)) := []
  /-- What was put into the streams, in order (no data of the source). -/
  written : PushId → List Piece := fun _ => []

namespace Client

def getPush (p : PushId) (s : Client) : Except Fault Pushbuf := deref (s.push p)

def setPush (p : PushId) (push : Pushbuf) (s : Client) : Client := { s with push := Function.update s.push p (some push) }

def getCtx (c : CtxId) (s : Client) : Except Fault Bufctx := deref (s.ctx c)

def setCtx (c : CtxId) (ctx : Bufctx) (s : Client) : Client := { s with ctx := Function.update s.ctx c (some ctx) }

def size (s : Client) (b : BoId) : Size := (s.bo b).size

def wrote (p : PushId) (piece : Piece) (s : Client) : Client :=
  { s with written := Function.update s.written p (s.written p ++ [piece]) }

def ask (s : Client) : Reply × Client := (s.replies s.tick, { s with tick := s.tick + 1 })

/-- `cli_push_get`. -/
def cliPushGet (b : BoId) (s : Client) : Option PushId := (s.kref b).map KrefAt.push

/-- `cli_kref_set`. -/
def cliKrefSet (b : BoId) (entry : Option KrefAt) (s : Client) : Client :=
  { s with kref := Function.update s.kref b entry }

/-- The entries of the buffers are cleared. -/
def cliKrefClear (l : List Kref) (s : Client) : Client := l.foldl (fun s k => s.cliKrefSet k.bo none) s

/-- Reading through a pointer of the table; it points into the current record of a push buffer. -/
def readKref (entry : KrefAt) (s : Client) : Except Fault Kref := do
  let push ← s.getPush entry.push
  check (entry.krec = push.old.length) .badPointer
  match push.krec.buffer[entry.slot]? with
  | some k => return k
  | none => .error .badIndex

def modifyKref (entry : KrefAt) (f : Kref → Kref) (s : Client) : Except Fault Client := do
  let push ← s.getPush entry.push
  check (entry.krec = push.old.length && entry.slot < push.krec.buffer.length) .badPointer
  return s.setPush entry.push { push with krec := { push.krec with buffer := push.krec.buffer.modify entry.slot f } }

end Client

open Client

/-- New buffers, at the next handles. -/
def boNew (nr : Nat) (size : Size) (made : BoId → Word × Size) (s : Client) : Client :=
  { s with
    bo := fun b =>
      if s.freshBo ≤ b ∧ b < s.freshBo + nr then { size, flags := (made b).1, offset := (made b).2 } else s.bo b
    freshBo := s.freshBo + nr }

/-! ## Segments -/

/-- The index of a buffer in the current record of `p`. -/
def krefIndex (p : PushId) (b : BoId) (push : Pushbuf) (s : Client) : Option Nat :=
  match s.kref b with
  | some entry => if entry.push = p ∧ entry.krec = push.old.length then some entry.slot else none
  | none => none

/-- `*push->cur++ = data`. -/
def poke (p : PushId) (data : Word) (s : Client) : Except Fault Client := do
  let push ← s.getPush p
  let b ← deref push.bo
  check (push.cur < (s.size b).toNat / 4) .endOfBuffer
  let bo := s.bo b
  let s := { s with bo := Function.update s.bo b { bo with map := Function.update bo.map push.cur data } }
  return s.setPush p { push with cur := push.cur + 1 }

/-- A dword of the stream. -/
def emit (p : PushId) (data : Word) (s : Client) : Except Fault Client := do
  let s ← poke p data s
  return s.wrote p (.dword data)

/-- The second half of `nouveau_pushbuf_data`. -/
def pushSegment (p : PushId) (b : BoId) (offset length : Nat) (s : Client) : Except Fault Client := do
  let push ← s.getPush p
  check (push.krec.push.length < NOUVEAU_GEM_MAX_PUSH) .tooManyPushes
  let entry : Kpush := { bo := krefIndex p b push s, offset, length }
  return s.setPush p { push with krec := { push.krec with push := push.krec.push ++ [entry] } }

/-- The suffix, if there is one. -/
def emitSuffix (p : PushId) (s : Client) : Except Fault Client := do
  let push ← s.getPush p
  if push.suffix0 ≠ 0 ∨ push.suffix1 ≠ 0 then do
    let s ← poke p push.suffix0 s
    poke p push.suffix1 s
  else return s

/-- What was written since the last segment becomes one. -/
def closeSegment (p : PushId) (s : Client) : Except Fault Client := do
  let s ← emitSuffix p s
  let push ← s.getPush p
  let b ← deref push.bo
  let s ← pushSegment p b (push.bgn * 4) ((push.cur - push.bgn) * 4) s
  let push ← s.getPush p
  return s.setPush p { push with bgn := push.cur }

/-- The first half of `nouveau_pushbuf_data`. -/
def cutSegment (p : PushId) (b : Option BoId) (s : Client) : Except Fault Client := do
  let push ← s.getPush p
  if b ≠ push.bo ∧ push.bgn ≠ push.cur then closeSegment p s else return s

/-- `nouveau_pushbuf_data`. -/
def pushbufData (p : PushId) (b : Option BoId) (offset length : Nat) (s : Client) : Except Fault Client := do
  let s ← cutSegment p b s
  match b with
  | none => return s
  | some b => do
      let s ← pushSegment p b offset length s
      return s.wrote p (.segment b offset length)

/-! ## Submitting -/

/-- What the kernel says of where the buffers are. -/
def Bo.moved (bo : Bo) (place : Option (Domains × Size)) : Bo :=
  match place with
  | none => bo
  | some (domain, offset) =>
      { bo with
        flags := (bo.flags &&& ~~~(NOUVEAU_BO_VRAM ||| NOUVEAU_BO_GART)) |||
          (if domain = .vramOnly then NOUVEAU_BO_VRAM else NOUVEAU_BO_GART)
        offset }

def Kref.moved (k : Kref) (place : Option (Domains × Size)) : Kref :=
  match place with
  | none => k
  | some (domain, offset) => { k with domain, offset }

/-- One record is given to the kernel; the limits and the suffix are what it answers. -/
def submitKrec (p : PushId) (krec : Krec) (s : Client) : Except Fault ((Int × Krec) × Client) := do
  let push ← s.getPush p
  let memory := fun b => (s.bo b).map
  let (reply, s) := s.ask
  let submit : Submit := { push := p, krec, suffix0 := push.suffix0, suffix1 := push.suffix1 }
  let s := { s with
    submits := s.submits ++ [(submit, memory)]
    vramLimit := reply.vramLimit, gartLimit := reply.gartLimit }
  let s := s.setPush p { push with suffix0 := reply.suffix0, suffix1 := reply.suffix1 }
  if reply.ret ≠ 0 then return ((reply.ret, krec), s)
  else
    let touched := krec.buffer.map Kref.bo
    return ((0, { krec with buffer := krec.buffer.map fun k => k.moved (reply.moved k.bo) }),
      { s with bo := fun b => if touched.contains b then (s.bo b).moved (reply.moved b) else s.bo b })

/-- The loop of `pushbuf_submit`; `nextNull` is the end of the list. -/
def submitLoop (p : PushId) (nextNull : Bool) : List Krec → Client → Except Fault ((Int × List Krec) × Client)
  | [], s => do
      check nextNull .uninitialised
      return ((0, []), s)
  | krec :: l, s =>
      if krec.push = [] then .ok ((0, krec :: l), s)
      else do
        let ((ret, krec), s) ← submitKrec p krec s
        if ret ≠ 0 then return ((ret, krec :: l), s)
        else do
          let ((ret, l), s) ← submitLoop p nextNull l s
          return ((ret, krec :: l), s)

/-- `pushbuf_submit`, to a channel. -/
def pushbufSubmit (p : PushId) (s : Client) : Except Fault (Int × Client) := do
  let s ← pushbufData p none 0 0 s
  let push ← s.getPush p
  let ((ret, l), s) ← submitLoop p push.nextNull (push.old ++ [push.krec]) s
  let push ← s.getPush p
  return (ret, s.setPush p { push with old := l.dropLast, krec := l.getLastD push.krec })

/-- The records of a push buffer at a flush: an immediate one submits, a deferred one begins another. -/
def flushKrec (p : PushId) (s : Client) : Except Fault (Int × Client) := do
  let push ← s.getPush p
  if push.channel then pushbufSubmit p s
  else do
    let s ← pushbufData p none 0 0 s
    let (reply, s) := s.ask
    check reply.memory .badPointer
    return (0, s)

/-- The record that is flushed is replaced by an empty one. -/
def resetKrec (p : PushId) (zero : Bool) (s : Client) : Except Fault Client := do
  let push ← s.getPush p
  if push.channel then return s.setPush p { push with krec := {}, gaveUp := false }
  else
    let old := push.old ++ [push.krec]
    return s.setPush p { push with old, krec := {}, nextNull := zero, gaveUp := false }

/-- What was validated has to be validated again. -/
def Bufctx.flushed (ctx : Bufctx) : Bufctx :=
  { ctx with pending := ctx.current ++ ctx.pending, current := [], onList := none, strayed := false }

/-- The contexts on the list of a push buffer leave it. -/
def flushCtxs (p : PushId) (s : Client) : Client :=
  { s with ctx := fun c => (s.ctx c).map fun ctx => if ctx.onList = some p then ctx.flushed else ctx }

/-- `pushbuf_flush`. -/
def pushbufFlush (p : PushId) (s : Client) : Except Fault (Int × Client) := do
  let zero := (s.replies s.tick).zero
  let (ret, s) ← flushKrec p s
  let push ← s.getPush p
  let s := s.cliKrefClear push.krec.buffer
  let s ← resetKrec p zero s
  return (ret, flushCtxs p s)

/-! ## References -/

/-- A buffer that is referred to on another push buffer: that one is flushed first. -/
def flushOther (p : PushId) (b : BoId) (s : Client) : Except Fault Client :=
  match s.cliPushGet b with
  | none => .ok s
  | some q =>
      if q = p then .ok s
      else do
        let (_, s) ← pushbufFlush q s
        return s

/-- A buffer that has an entry. -/
def krefAgain (p : PushId) (b : BoId) (flags : Word) (entry : KrefAt) (s : Client) : Except Fault (Bool × Client) := do
  let domains := Domains.ofFlags flags
  let push ← s.getPush p
  let k ← s.readKref entry
  let update := fun k : Kref => { k with
    valid := k.valid.inter domains
    write := k.write.union (.ofAccess NOUVEAU_BO_WR flags)
    read := k.read.union (.ofAccess NOUVEAU_BO_RD flags) }
  -- possible conflict in memory types
  if k.valid.inter domains = .empty then return (false, s)
  else if k.valid.gart ∧ domains = .vramOnly then
    if push.krec.vramUsed + s.size b > s.vramLimit then return (false, s)
    else do
      let krec := { push.krec with
        vramUsed := push.krec.vramUsed + s.size b, gartUsed := push.krec.gartUsed - s.size b }
      let s ← (s.setPush p { push with krec }).modifyKref entry update
      return (true, s)
  else do
    let s ← s.modifyKref entry update
    return (true, s)

/-- A buffer that has none. -/
def krefNew (p : PushId) (b : BoId) (flags : Word) (s : Client) : Except Fault (Bool × Client) := do
  let push ← s.getPush p
  if push.krec.buffer.length = NOUVEAU_GEM_MAX_BUFFERS then return (false, s)
  else
    match push.krec.krefFits s.size s.vramLimit s.gartLimit (s.size b) (.ofFlags flags) with
    | (none, krec) => return (false, s.setPush p { push with krec })
    | (some valid, krec) =>
        let bo := s.bo b
        let k : Kref := {
          bo := b, valid
          write := .ofAccess NOUVEAU_BO_WR flags
          read := .ofAccess NOUVEAU_BO_RD flags
          offset := bo.offset
          domain := if bo.flags &&& NOUVEAU_BO_VRAM ≠ 0 then .vramOnly else ⟨false, true⟩ }
        let s := s.setPush p { push with krec := { krec with buffer := krec.buffer ++ [k] } }
        return (true, s.cliKrefSet b (some ⟨p, push.old.length, krec.buffer.length⟩))

/-- `pushbuf_kref`: whether there is an entry. -/
def pushbufKref (p : PushId) (b : BoId) (flags : Word) (s : Client) : Except Fault (Bool × Client) := do
  check (b < s.freshBo) .badPointer
  let s ← flushOther p b s
  match s.kref b with
  | some entry => krefAgain p b flags entry s
  | none => krefNew p b flags s

/-- Where the buffer is presumed to be; the entry is read if the flags of the relocation ask for that. -/
def presumed (b : BoId) (flags : Word) (s : Client) : Except Fault (Size × Domains) :=
  if flags &&& (NOUVEAU_BO_LOW ||| NOUVEAU_BO_HIGH ||| NOUVEAU_BO_OR) = 0 then .ok (0, .empty)
  else do
    let entry ← deref (s.kref b)
    let k ← s.readKref entry
    return (k.offset, k.domain)

/-- What the kernel is told to do. -/
def krelFlags (flags : Word) : Word :=
  (if flags &&& NOUVEAU_BO_LOW ≠ 0 then NOUVEAU_GEM_RELOC_LOW
    else if flags &&& NOUVEAU_BO_HIGH ≠ 0 then NOUVEAU_GEM_RELOC_HIGH else 0) |||
  (if flags &&& NOUVEAU_BO_OR ≠ 0 then NOUVEAU_GEM_RELOC_OR else 0)

/-- `pushbuf_krel`: the dword that is to be written. -/
def pushbufKrel (p : PushId) (b : BoId) (data flags vor tor : Word) (s : Client) :
    Except Fault (Word × Client) := do
  let push ← s.getPush p
  let pushBo ← deref push.bo
  check (push.krec.reloc.length < NOUVEAU_GEM_MAX_RELOCS) .tooManyRelocs
  let entry : Krel := {
    relocBo := krefIndex p pushBo push s
    relocBoOffset := push.cur * 4
    bo := krefIndex p b push s
    flags := krelFlags flags
    data, vor, tor }
  let (offset, domain) ← presumed b flags s
  let reloc : Word :=
    if flags &&& NOUVEAU_BO_LOW ≠ 0 then (offset + data.setWidth 64).setWidth 32
    else if flags &&& NOUVEAU_BO_HIGH ≠ 0 then ((offset + data.setWidth 64) >>> 32).setWidth 32
    else data
  let reloc := if flags &&& NOUVEAU_BO_OR ≠ 0 then reloc ||| (if domain.vram then vor else tor) else reloc
  return (reloc, s.setPush p { push with krec := { push.krec with reloc := push.krec.reloc ++ [entry] } })

/-- `pushbuf_refn_fail`. -/
def pushbufRefnFail (p : PushId) (sref srel : Nat) (s : Client) : Except Fault Client := do
  let push ← s.getPush p
  check (sref ≤ push.krec.buffer.length && srel ≤ push.krec.reloc.length) .uninitialised
  let s := s.cliKrefClear (push.krec.buffer.drop sref)
  return s.setPush p { push with krec := push.krec.drop s.size sref srel }

/-! ## Space, validation and kicks -/

/-- The calls that call each other; `kick` is that of a push buffer with a channel. -/
inductive Call
  | space (p : PushId) (dwords relocs pushes : Word)
  | validate (p : PushId) (retry : Bool)
  | kick (p : PushId)
  | map (b : BoId)

section Bodies

variable (call : Call → Client → Except Fault (Int × Client))

/-- A buffer from `bos`; an immediate push buffer begins again after the last one. -/
def nextOwn (p : PushId) (push : Pushbuf) (s : Client) : (Int × Option BoId) × Client :=
  let boNext := push.boNext + 1
  let boNext := if boNext = push.bos.length ∧ push.channel then 0 else boNext
  ((0, push.bos[push.boNext]?), s.setPush p { push with boNext })

/-- A buffer of its own, as large as the first of `bos`. -/
def nextNew (push : Pushbuf) (s : Client) : Except Fault ((Int × Option BoId) × Client) :=
  match push.bos[0]? with
  | none => .error .badIndex
  | some first =>
      let (reply, s) := s.ask
      if reply.ret ≠ 0 then .ok ((reply.ret, none), s) else .ok ((0, some s.freshBo), boNew 1 (s.size first) reply.made s)

/-- The next buffer, if the one that is written to is too small for `dwords`. -/
def nextBo (p : PushId) (dwords : Word) (s : Client) : Except Fault ((Int × Option BoId) × Client) := do
  let push ← s.getPush p
  if (push.cur : Int) + dwords.toNat ≥ push.stop then
    if push.boNext < push.bos.length then return nextOwn p push s else nextNew push s
  else return ((0, none), s)

/-- Whether the push buffer has to be flushed. -/
def needsFlush (p : PushId) (b : Option BoId) (relocs pushes : Word) (s : Client) : Except Fault (Bool × Client) := do
  let push ← s.getPush p
  let full := (BitVec.ofNat 32 push.krec.reloc.length + relocs).toNat ≥ NOUVEAU_GEM_MAX_RELOCS ∨
    (BitVec.ofNat 32 push.krec.push.length + pushes).toNat ≥ NOUVEAU_GEM_MAX_PUSH
  match b with
  | none => return (decide full, s)
  | some b =>
      if push.channel then return (true, s)
      else do
        let (fits, s) ← pushbufKref p b push.flags s
        return (!fits || decide full, s)

def flushIf (flushed : Bool) (p : PushId) (s : Client) : Except Fault Client := do
  let push ← s.getPush p
  if flushed ∧ push.bo.isSome ∧ push.krec.buffer ≠ [] then do
    let (_, s) ← pushbufFlush p s
    return s
  else return s

/-- The new buffer is mapped, and written to from now on. -/
def switchBo (p : PushId) (b : Option BoId) (s : Client) : Except Fault (Int × Client) :=
  match b with
  | none => .ok (0, s)
  | some b => do
      let (ret, s) ← call (.map b) s
      if ret ≠ 0 then return (ret, s)
      else do
        let s ← pushbufData p none 0 0 s
        let push ← s.getPush p
        let stop := ((s.size b).toNat / 4 : Nat) - (2 + (push.rsvdKick : Int))
        return (0, s.setPush p { push with bo := some b, bgn := 0, cur := 0, stop })

/-- The buffer that is written to is referred to. -/
def krefOwn (p : PushId) (s : Client) : Except Fault Client := do
  let push ← s.getPush p
  let b ← deref push.bo
  let (_, s) ← pushbufKref p b push.flags s
  return s

/-- `nouveau_pushbuf_space`. -/
def pushbufSpace (p : PushId) (dwords relocs pushes : Word) (s : Client) : Except Fault (Int × Client) := do
  let ((ret, b), s) ← nextBo p dwords s
  if ret ≠ 0 then return (ret, s)
  else do
    let (flushed, s) ← needsFlush p b relocs (pushes + 1) s
    let s ← flushIf flushed p s
    let (ret, s) ← switchBo call p b s
    if ret ≠ 0 then return (ret, s)
    else do
      let s ← krefOwn p s
      if flushed then call (.validate p false) s else return (0, s)

def Bufctx.linked (p : PushId) (ctx : Bufctx) : Bufctx :=
  { ctx with onList := some p, strayed := ctx.strayed || ctx.onList.any fun q => q ≠ p }

/-- The context goes to the list of the push buffer. -/
def linkCtx (p : PushId) (c : CtxId) (s : Client) : Except Fault Client := do
  let ctx ← s.getCtx c
  -- the list that it leaves has to be there
  match ctx.onList with
  | some q => do
      let _ ← s.getPush q
      return s.setCtx c (ctx.linked p)
  | none => return s.setCtx c (ctx.linked p)

/-- The relocations of a reference. -/
def emitBufref (p : PushId) (bref : Bufref) (s : Client) : Except Fault Client :=
  if bref.packet ≠ 0 then do
    let (_, s) ← pushbufKrel p bref.bo bref.packet 0 0 0 s
    let s ← emit p 0 s
    let (_, s) ← pushbufKrel p bref.bo (bref.data.setWidth 32) bref.flags bref.vor bref.tor s
    emit p 0 s
  else .ok s

/-- The pending references, up to the first that finds no place. -/
def validateLoop (p : PushId) : List Bufref → Client → Except Fault (Bool × Client)
  | [], s => .ok (true, s)
  | bref :: l, s => do
      let (fits, s) ← pushbufKref p bref.bo bref.flags s
      if fits then do
        let s ← emitBufref p bref s
        validateLoop p l s
      else return (false, s)

/-- All that was pending is current now. -/
def joinPending (c : CtxId) (s : Client) : Except Fault Client := do
  let ctx ← s.getCtx c
  return s.setCtx c { ctx with current := ctx.pending ++ ctx.current, pending := [] }

def ENOSPC : Int := 28

/-- The end of a validation that failed. -/
def validateFail (p : PushId) (retry : Bool) (sref srel : Nat) (s : Client) : Except Fault (Int × Client) := do
  let s ← pushbufRefnFail p sref srel s
  if retry then do
    let (_, s) ← pushbufFlush p s
    call (.validate p false) s
  else do
    let push ← s.getPush p
    return (-ENOSPC, s.setPush p { push with gaveUp := true })

/-- The lengths of the record that was the current one when there were `n` old ones. -/
def krecLengths (p : PushId) (n : Nat) (s : Client) : Except Fault (Nat × Nat) := do
  let push ← s.getPush p
  match (push.old ++ [push.krec])[n]? with
  | some krec => return (krec.buffer.length, krec.reloc.length)
  | none => .error .badPointer

/-- `pushbuf_validate`; `krec` is the record before the space is made. -/
def pushbufValidate (p : PushId) (retry : Bool) (s : Client) : Except Fault (Int × Client) := do
  let push ← s.getPush p
  match push.bufctx with
  | none => call (.space p 0 0 0) s
  | some c => do
      let ctx ← s.getCtx c
      check (ctx.relocs * 2 < 2 ^ 31) .overflow
      let relocs := BitVec.ofNat 32 (ctx.relocs * 2)
      let (ret, s) ← call (.space p relocs relocs 0) s
      if ret ≠ 0 then return (ret, s)
      else do
        let (sref, srel) ← krecLengths p push.old.length s
        let s ← linkCtx p c s
        let ctx ← s.getCtx c
        let (fits, s) ← validateLoop p ctx.pending s
        let s ← joinPending c s
        if fits then return (0, s) else validateFail call p retry sref srel s

/-- `nouveau_pushbuf_kick` of a push buffer with a channel. -/
def kickChannel (p : PushId) (s : Client) : Except Fault (Int × Client) := do
  let (_, s) ← pushbufFlush p s
  call (.validate p false) s

/-- A push buffer with a channel that refers to the buffer is kicked. -/
def kickUser (b : BoId) (s : Client) : Except Fault Client :=
  match s.cliPushGet b with
  | none => .ok s
  | some q => do
      let push ← s.getPush q
      if push.channel then do
        let (_, s) ← call (.kick q) s
        return s
      else return s

/-- `nouveau_bo_wait`, to write. -/
def boWait (b : BoId) (s : Client) : Except Fault (Int × Client) := do
  let s ← kickUser call b s
  let (reply, s) := s.ask
  return (reply.ret, s)

/-- `nouveau_bo_map`, to write. -/
def boMap (b : BoId) (s : Client) : Except Fault (Int × Client) :=
  if (s.bo b).mapped then boWait call b s
  else
    let (reply, s) := s.ask
    if reply.ret ≠ 0 then .ok (reply.ret, s)
    else boWait call b { s with bo := Function.update s.bo b { s.bo b with mapped := true } }

end Bodies

/-- The calls, at most so deep. -/
def Call.run : Nat → Call → Client → Except Fault (Int × Client)
  | 0, _, _ => .error .fuel
  | n + 1, .space p dwords relocs pushes, s => pushbufSpace (Call.run n) p dwords relocs pushes s
  | n + 1, .validate p retry, s => pushbufValidate (Call.run n) p retry s
  | n + 1, .kick p, s => kickChannel (Call.run n) p s
  | n + 1, .map b, s => boMap (Call.run n) b s

/-- The references of a list, up to the first that finds no place. -/
def refnLoop (p : PushId) : List (BoId × Word) → Client → Except Fault (Bool × Client)
  | [], s => .ok (true, s)
  | (b, flags) :: l, s => do
      let (fits, s) ← pushbufKref p b flags s
      if fits then refnLoop p l s else return (false, s)

/-- One try of `pushbuf_refn`. -/
def refnTry (p : PushId) (refs : List (BoId × Word)) (s : Client) : Except Fault (Bool × Client) := do
  let push ← s.getPush p
  let (fits, s) ← refnLoop p refs s
  if fits then return (true, s)
  else do
    let push' ← s.getPush p
    let s ← pushbufRefnFail p push.krec.buffer.length push'.krec.reloc.length s
    return (false, s)

/-- `nouveau_pushbuf_refn`. -/
def pushbufRefn (n : Nat) (p : PushId) (refs : List (BoId × Word)) (s : Client) : Except Fault (Int × Client) := do
  let (fits, s) ← refnTry p refs s
  if fits then return (0, s)
  else do
    let (_, s) ← pushbufFlush p s
    let (_, s) ← Call.run n (.space p 0 0 0) s
    let (fits, s) ← refnTry p refs s
    return (if fits then 0 else -ENOSPC, s)

/-- `nouveau_pushbuf_reloc`. -/
def pushbufReloc (p : PushId) (b : BoId) (data flags vor tor : Word) (s : Client) : Except Fault Client := do
  let (reloc, s) ← pushbufKrel p b data flags vor tor s
  emit p reloc s

def EINVAL : Int := 22

/-- `nouveau_pushbuf_kick`; `isFifo` is what the class of the channel says. -/
def pushbufKick (n : Nat) (p : PushId) (isFifo : Bool) (s : Client) : Except Fault (Int × Client) := do
  let push ← s.getPush p
  if push.channel then Call.run n (.kick p) s
  else if isFifo then pushbufSubmit p s
  else return (-EINVAL, s)

/-- `nouveau_pushbuf_del`. -/
def pushbufDel (p : PushId) (s : Client) : Except Fault Client := do
  let push ← s.getPush p
  let s := (push.old ++ [push.krec]).foldl (fun s krec => s.cliKrefClear krec.buffer) s
  check push.nextNull .uninitialised
  return { s with push := Function.update s.push p none }

/-- The push buffer that `nouveau_pushbuf_new` makes; `place` is where the channel has its push buffers. -/
def Pushbuf.new (place : Domains) (immediate : Bool) (bos : List BoId) (reply : Reply) : Pushbuf :=
  { channel := immediate
    flags := NOUVEAU_BO_RD ||| (if place.gart then NOUVEAU_BO_GART else if place.vram then NOUVEAU_BO_VRAM else 0)
    suffix0 := reply.suffix0
    suffix1 := reply.suffix1
    bos }

/-- `nouveau_pushbuf_new`, with `nr` buffers; the kernel says which suffix it needs. -/
def pushbufNew (nr : Nat) (size : Size) (place : Domains) (immediate isFifo : Bool) (s : Client) : Int × Client :=
  if !isFifo then (-EINVAL, s)
  else
    let (reply, s) := s.ask
    if reply.ret ≠ 0 then (reply.ret, s)
    else
      let bos := (List.range nr).map fun i => s.freshBo + i
      let s := boNew nr size reply.made s
      (0, { s.setPush s.freshPush (.new place immediate bos reply) with freshPush := s.freshPush + 1 })

/-! ## Buffer contexts -/

def bufctxNew (s : Client) : Client := { s.setCtx s.freshCtx {} with freshCtx := s.freshCtx + 1 }

/-- `nouveau_bufctx_reset`. -/
def bufctxReset (c : CtxId) (bin : Nat) (s : Client) : Except Fault Client := do
  let ctx ← s.getCtx c
  return s.setCtx c { ctx with
    pending := ctx.pending.filter fun bref => bref.bin ≠ bin
    current := ctx.current.filter fun bref => bref.bin ≠ bin
    relocs := ctx.relocs - ctx.binRelocs bin
    binRelocs := Function.update ctx.binRelocs bin 0 }

/-- `nouveau_bufctx_refn`. -/
def bufctxRefn (c : CtxId) (bin : Nat) (b : BoId) (flags : Word) (s : Client) : Except Fault Client := do
  let ctx ← s.getCtx c
  return s.setCtx c { ctx with pending := ctx.pending ++ [{ bin, bo := b, flags }] }

/-- `nouveau_bufctx_mthd`. -/
def bufctxMthd (c : CtxId) (bin : Nat) (packet : Word) (b : BoId) (data : Size) (flags vor tor : Word) (s : Client) :
    Except Fault Client := do
  let ctx ← s.getCtx c
  return s.setCtx c { ctx with
    pending := ctx.pending ++ [{ bin, bo := b, flags, packet, data, vor, tor }]
    relocs := ctx.relocs + 1
    binRelocs := Function.update ctx.binRelocs bin (ctx.binRelocs bin + 1) }

/-- The user sets `rsvd_kick`. -/
def setRsvdKick (p : PushId) (rsvdKick : Nat) (s : Client) : Except Fault Client := do
  let push ← s.getPush p
  return s.setPush p { push with rsvdKick }

/-- `nouveau_pushbuf_bufctx`. -/
def pushbufBufctx (p : PushId) (c : Option CtxId) (s : Client) : Except Fault Client := do
  let push ← s.getPush p
  return s.setPush p { push with bufctx := c }

end LibDrm.Nouveau.Push
