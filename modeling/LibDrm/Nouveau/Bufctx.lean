/-
# `LibDrm.Nouveau.Bufctx` — the lists of the buffer contexts

A reference to a buffer (`bufref`) is on two structures at once:

    thead    circular list, `pending` or `current` of its context; none while it is free
    next     singly linked list of its bin, or the free list of its context

and a context is on a circular list of the push buffer that it was validated on last (`head`).  A
validation moves what is pending to `current`, and the flush of the push buffer moves it back: both
splice whole lists (`DRMLISTJOIN`).

The memory of the list nodes is explicit, and what is freed is gone from it.  Which context a push
buffer has attached is for its user to say: any may be validated on any.  Of a validation and of a
flush only what they do to the lists is here.
-/
import LibDrm.Lib.DList
import LibDrm.Lib.SList
import LibDrm.Nouveau.Pushbuf

namespace LibDrm.Nouveau.Refs

open Push (Word Size PushId CtxId)

abbrev BrefId := Nat

/-- The nodes of the lists of references. -/
inductive Thead
  | pending (c : CtxId)
  | current (c : CtxId)
  | bref (r : BrefId)
  deriving DecidableEq, Repr

/-- The nodes of the lists of contexts; `list` is the `bctx_list` of a push buffer. -/
inductive Head
  | list (p : PushId)
  | ctx (c : CtxId)
  deriving DecidableEq, Repr

/-- `struct nouveau_bufref_priv`.  `byMthd` tells whether `nouveau_bufctx_mthd` made it (no data of the source). -/
structure Bufref where
  bo : Push.BoId
  flags : Word
  packet : Word := 0
  data : Size := 0
  vor : Word := 0
  tor : Word := 0
  next : Option BrefId
  bufctx : CtxId
  byMthd : Bool := false

/-- `struct nouveau_bufbin_priv`. -/
structure Bufbin where
  list : Option BrefId := none
  relocs : Int := 0

/-- `struct nouveau_bufctx_priv`, without the list nodes in it. -/
structure Bufctx where
  relocs : Int := 0
  free : Option BrefId := none
  nrBins : Nat
  bins : Nat → Bufbin := fun _ => {}

structure State where
  bref : BrefId → Option Bufref := fun _ => none
  freshBref : BrefId := 0
  ctx : CtxId → Option Bufctx := fun _ => none
  freshCtx : CtxId := 0
  freshPush : PushId := 0
  thead : DList.Mem Thead := fun _ => none
  head : DList.Mem Head := fun _ => none

namespace State

def setCtx (c : CtxId) (ctx : Bufctx) (s : State) : State := { s with ctx := Function.update s.ctx c (some ctx) }

/-- The push buffer is there; none is ever deleted here. -/
def getPush (p : PushId) (s : State) : Option Unit := if p < s.freshPush then some () else none

def setBref (r : BrefId) (bref : Bufref) (s : State) : State := { s with bref := Function.update s.bref r (some bref) }

end State

def Bufctx.setBin (i : Nat) (bin : Bufbin) (ctx : Bufctx) : Bufctx := { ctx with bins := Function.update ctx.bins i bin }

/-- `&pctx->bins[bin]`. -/
def Bufctx.bin (i : Nat) (ctx : Bufctx) : Option Bufbin := if i < ctx.nrBins then some (ctx.bins i) else none

/-! ## Contexts and push buffers -/

/-- `nouveau_bufctx_new`. -/
def bufctxNew (bins : Nat) (s : State) : Option State := do
  let c := s.freshCtx
  let head ← DList.init (DList.calloc s.head (.ctx c)) (.ctx c)
  let thead ← DList.init (DList.calloc (DList.calloc s.thead (.pending c)) (.current c)) (.pending c)
  let thead ← DList.init thead (.current c)
  return { s.setCtx c { nrBins := bins } with freshCtx := c + 1, head, thead }

/-- The list in `nouveau_pushbuf_new`. -/
def pushbufNew (s : State) : Option State := do
  let p := s.freshPush
  let head ← DList.init (DList.calloc s.head (.list p)) (.list p)
  return { s with freshPush := p + 1, head }

/-- The loop of `nouveau_bufctx_reset`: the first reference of the bin goes to the free list. -/
def resetLoop (c : CtxId) (bin : Nat) : Nat → State → Option State
  | 0, _ => none
  | fuel + 1, s => do
      let ctx ← s.ctx c
      let pbin ← ctx.bin bin
      match pbin.list with
      | none => return s
      | some r => do
          let thead ← DList.delInit s.thead (.bref r)
          let pref ← s.bref r
          let ctx' := { ctx.setBin bin { pbin with list := pref.next } with free := some r }
          resetLoop c bin fuel ({ s with thead }.setBref r { pref with next := ctx.free } |>.setCtx c ctx')

/-- `nouveau_bufctx_reset`; no reference is on a list twice, so there are no more rounds than references. -/
def bufctxReset (c : CtxId) (bin : Nat) (s : State) : Option State := do
  let s ← resetLoop c bin (s.freshBref + 1) s
  let ctx ← s.ctx c
  let pbin ← ctx.bin bin
  return s.setCtx c { ctx.setBin bin { pbin with relocs := 0 } with relocs := ctx.relocs - pbin.relocs }

/-- The free list is freed. -/
def freeLoop (c : CtxId) : Nat → State → Option State
  | 0, _ => none
  | fuel + 1, s => do
      let ctx ← s.ctx c
      match ctx.free with
      | none => return s
      | some r => do
          let pref ← s.bref r
          freeLoop c fuel ({ s with
            bref := Function.update s.bref r none
            thead := DList.free s.thead (.bref r) }.setCtx c { ctx with free := pref.next })

/-- `nouveau_bufctx_del`: the bins are reset from the last one on. -/
def bufctxDel (c : CtxId) (s : State) : Option State := do
  let ctx ← s.ctx c
  let s ← (List.range ctx.nrBins).reverse.foldlM (fun s bin => bufctxReset c bin s) s
  let s ← freeLoop c (s.freshBref + 1) s
  return { s with
    ctx := Function.update s.ctx c none
    head := DList.free s.head (.ctx c)
    thead := DList.free (DList.free s.thead (.pending c)) (.current c) }

/-! ## References -/

/-- The memory for a reference: from the free list, or from `malloc`, which may have none. -/
def takeBref (c : CtxId) (memory : Bool) (s : State) : Option (Option (BrefId × Bufref) × State) := do
  let ctx ← s.ctx c
  match ctx.free with
  | some r => do
      let pref ← s.bref r
      return (some (r, pref), s.setCtx c { ctx with free := pref.next })
  | none =>
      if memory then
        let r := s.freshBref
        let pref : Bufref := { bo := 0, flags := 0, next := none, bufctx := c }
        return (some (r, pref), { s with freshBref := r + 1, thead := DList.calloc s.thead (.bref r) })
      else return (none, s)

/-- `nouveau_bufctx_refn`. -/
def bufctxRefn (c : CtxId) (bin : Nat) (bo : Push.BoId) (flags : Word) (memory : Bool) (s : State) :
    Option (Option BrefId × State) := do
  let (taken, s) ← takeBref c memory s
  match taken with
  | none => return (none, s)
  | some (r, pref) => do
      let ctx ← s.ctx c
      let pbin ← ctx.bin bin
      let thead ← DList.addTail s.thead (.bref r) (.pending c)
      let pref := { pref with bo, flags, packet := 0, bufctx := c, next := pbin.list, byMthd := false }
      return (some r, ({ s with thead }.setBref r pref).setCtx c (ctx.setBin bin { pbin with list := some r }))

/-- `nouveau_bufctx_mthd`. -/
def bufctxMthd (c : CtxId) (bin : Nat) (packet : Word) (bo : Push.BoId) (data : Size) (flags vor tor : Word) (memory : Bool)
    (s : State) : Option (Option BrefId × State) := do
  let (bref, s) ← bufctxRefn c bin bo flags memory s
  match bref with
  | none => return (none, s)
  | some r => do
      let pref ← s.bref r
      let ctx ← s.ctx c
      let pbin ← ctx.bin bin
      let s := s.setBref r { pref with packet, data, vor, tor, byMthd := true }
      return (some r, s.setCtx c { ctx.setBin bin { pbin with relocs := pbin.relocs + 1 } with relocs := ctx.relocs + 1 })

/-! ## Validating and flushing -/

/-- `pushbuf_validate`: the context goes to the list of the push buffer. -/
def linkCtx (p : PushId) (c : CtxId) (s : State) : Option State := do
  let _ ← s.getPush p
  let _ ← s.ctx c
  let head ← DList.del s.head (.ctx c)
  let head ← DList.add head (.ctx c) (.list p)
  return { s with head }

/-- `pushbuf_validate`: what was pending is current. -/
def joinPending (c : CtxId) (s : State) : Option State := do
  let _ ← s.ctx c
  let thead ← DList.join s.thead (.pending c) (.current c)
  let thead ← DList.init thead (.pending c)
  return { s with thead }

/-- `pushbuf_flush`, for one context: what was current is pending again, and it leaves the list. -/
def unlinkCtx (c : CtxId) (s : State) : Option State := do
  let _ ← s.ctx c
  let thead ← DList.join s.thead (.current c) (.pending c)
  let thead ← DList.init thead (.current c)
  let head ← DList.delInit s.head (.ctx c)
  return { s with thead, head }

/-- The loop of `pushbuf_flush` from a node on; the next node is read before the list is changed. -/
def flushLoop (p : PushId) : Nat → Head → State → Option State
  | 0, _, _ => none
  | fuel + 1, x, s =>
      if x = .list p then some s
      else
        match x with
        | .list _ => none
        | .ctx c => do
            let next ← DList.nxt s.head x
            let s ← unlinkCtx c s
            flushLoop p fuel next s

/-- `pushbuf_flush`; no context is on a list twice. -/
def flushCtxs (p : PushId) (s : State) : Option State := do
  let _ ← s.getPush p
  let first ← DList.nxt s.head (.list p)
  flushLoop p (s.freshCtx + 1) first s

/-! ## Runs -/

inductive Op
  | ctxNew (bins : Nat)
  | ctxDel (c : CtxId)
  | reset (c : CtxId) (bin : Nat)
  | refn (c : CtxId) (bin : Nat) (bo : Push.BoId) (flags : Word) (memory : Bool)
  | mthd (c : CtxId) (bin : Nat) (packet : Word) (bo : Push.BoId) (data : Size) (flags vor tor : Word) (memory : Bool)
  | pushNew
  | link (p : PushId) (c : CtxId)
  | join (c : CtxId)
  | flush (p : PushId)

def Op.run : Op → State → Option State
  | .ctxNew bins, s => bufctxNew bins s
  | .ctxDel c, s => bufctxDel c s
  | .reset c bin, s => bufctxReset c bin s
  | .refn c bin bo flags memory, s => (bufctxRefn c bin bo flags memory s).map Prod.snd
  | .mthd c bin packet bo data flags vor tor memory, s =>
      (bufctxMthd c bin packet bo data flags vor tor memory s).map Prod.snd
  | .pushNew, s => pushbufNew s
  | .link p c, s => linkCtx p c s
  | .join c, s => joinPending c s
  | .flush p, s => flushCtxs p s

end LibDrm.Nouveau.Refs
