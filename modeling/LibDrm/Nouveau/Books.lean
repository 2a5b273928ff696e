/-
# `LibDrm.Nouveau.Books` — what the calls do to the records and to the table

The books of a client are what its push buffers have in their current records, the table of the
client, and the buffer contexts: no streams, no relocations, no memory.  A call changes them in
few ways.

| move | |
| :-- | :-- |
| `moved` | the kernel says where the buffers of a record are |
| `enter`, `crowd` | a buffer gets an entry, or there is no room for it |
| `again` | the entry of a buffer is used again |
| `drop`, `giveUp` | a failed call takes its entries back |
| `reset` | a flush begins another record |
| `link`, `join` | a validation takes a context to its list, and what is pending to what is current |

Every call of a session is a sequence of moves (`Op.run_does`), but for the deletion of a push
buffer, which clears what its records had (`Books.del`).
-/
import LibDrm.Nouveau.Pushbuf
import Mathlib.Data.List.Forall2
import Mathlib.Logic.Relation

namespace LibDrm.Nouveau.Push

open Relation Client

/-! ## Sessions -/

/-- What a user can call. -/
inductive Op
  | boNew (size : Size)
  | boMap (b : BoId)
  | pushNew (nr : Nat) (size : Size) (place : Domains) (immediate isFifo : Bool)
  | pushDel (p : PushId)
  | rsvdKick (p : PushId) (n : Nat)
  | bufctx (p : PushId) (c : Option CtxId)
  | space (p : PushId) (dwords relocs pushes : Word)
  | write (p : PushId) (data : Word)
  | data (p : PushId) (b : BoId) (offset length : Nat)
  | refn (p : PushId) (refs : List (BoId × Word))
  | reloc (p : PushId) (b : BoId) (data flags vor tor : Word)
  | validate (p : PushId)
  | kick (p : PushId) (isFifo : Bool)
  | ctxNew
  | ctxReset (c : CtxId) (bin : Nat)
  | ctxRefn (c : CtxId) (bin : Nat) (b : BoId) (flags : Word)
  | ctxMthd (c : CtxId) (bin : Nat) (packet : Word) (b : BoId) (data : Size) (flags vor tor : Word)

def void (x : Except Fault Client) : Except Fault (Int × Client) := x.map fun s => (0, s)

/-- The call and what it returns, 0 if that is nothing; the calls in it are at most `n` deep. -/
def Op.run (n : Nat) : Op → Client → Except Fault (Int × Client)
  | .boNew size, s =>
      let (reply, s) := s.ask
      .ok (0, Push.boNew 1 size reply.made s)
  | .boMap b, s => Call.run n (.map b) s
  | .pushNew nr size place immediate isFifo, s => .ok (pushbufNew nr size place immediate isFifo s)
  | .pushDel p, s => void (pushbufDel p s)
  | .rsvdKick p k, s => void (setRsvdKick p k s)
  | .bufctx p c, s => void (pushbufBufctx p c s)
  | .space p dwords relocs pushes, s => Call.run n (.space p dwords relocs pushes) s
  | .write p d, s => void (emit p d s)
  | .data p b offset length, s => void (pushbufData p (some b) offset length s)
  | .refn p refs, s => pushbufRefn n p refs s
  | .reloc p b d flags vor tor, s => void (pushbufReloc p b d flags vor tor s)
  | .validate p, s => Call.run n (.validate p true) s
  | .kick p isFifo, s => pushbufKick n p isFifo s
  | .ctxNew, s => .ok (0, bufctxNew s)
  | .ctxReset c bin, s => void (bufctxReset c bin s)
  | .ctxRefn c bin b flags, s => void (bufctxRefn c bin b flags s)
  | .ctxMthd c bin packet b d flags vor tor, s => void (bufctxMthd c bin packet b d flags vor tor s)

/-- A client of a device that was just opened. -/
structure Client.Init (s : Client) : Prop where
  push : ∀ p, s.push p = none
  ctx : ∀ c, s.ctx c = none
  kref : ∀ b, s.kref b = none
  submits : s.submits = []
  written : ∀ p, s.written p = []

/-- A client with `n` buffers, and what the kernel will answer. -/
def Client.opened (n : Nat) (size vramLimit gartLimit : Size) (reply : Reply) : Client :=
  { bo := fun _ => { size, flags := NOUVEAU_BO_GART, offset := 0 }
    freshBo := n
    push := fun _ => none
    freshPush := 0
    ctx := fun _ => none
    freshCtx := 0
    kref := fun _ => none
    vramLimit, gartLimit
    replies := fun _ => reply }

theorem Client.opened_init (n : Nat) (size vramLimit gartLimit : Size) (reply : Reply) :
    (Client.opened n size vramLimit gartLimit reply).Init :=
  ⟨fun _ => rfl, fun _ => rfl, fun _ => rfl, rfl, fun _ => rfl⟩

/-- A call that `P` allows. -/
def Client.StepIn (P : Op → Client → Prop) (s s' : Client) : Prop :=
  ∃ op n ret, P op s ∧ op.run n s = .ok (ret, s')

/-- Calls one after the other. -/
def Client.calls (ops : List Op) (s : Client) : Except Fault Client :=
  ops.foldlM (fun s op => (op.run 8 s).map Prod.snd) s

theorem Client.runs_calls {P : Op → Client → Prop} (hP : ∀ op s, P op s) (ops : List Op) {s s' : Client}
    (hs : Runs Client.Init (Client.StepIn P) s) (h : s.calls ops = .ok s') : Runs Client.Init (Client.StepIn P) s' := by
  induction ops generalizing s with
  | nil =>
      cases h
      exact hs
  | cons op ops ih =>
      unfold Client.calls at h
      rw [List.foldlM_cons] at h
      obtain ⟨s₁, hrun, h⟩ := exists_of_bind_ok h
      refine ih (hs.step ?_) h
      cases hop : op.run 8 s with
      | error e =>
          rw [hop] at hrun
          cases hrun
      | ok r =>
          rw [hop] at hrun
          cases hrun
          exact ⟨op, 8, r.1, hP op s, hop⟩

/-! ## Books -/

/-- The record without its relocations and segments. -/
def Krec.bare (krec : Krec) : Krec := { krec with reloc := [], push := [] }

/-- What a push buffer has in its current record; `records` are the ones before it. -/
structure Book where
  channel : Bool
  bufctx : Option CtxId := none
  records : Nat := 0
  krec : Krec := {}
  gaveUp : Bool := false

structure Books where
  book : PushId → Option Book
  kref : BoId → Option KrefAt
  ctx : CtxId → Option Bufctx
  freshPush : PushId
  freshCtx : CtxId

def Pushbuf.book (push : Pushbuf) : Book :=
  { channel := push.channel
    bufctx := push.bufctx
    records := push.old.length
    krec := push.krec.bare
    gaveUp := push.gaveUp }

def Client.books (s : Client) : Books :=
  { book := fun p => (s.push p).map Pushbuf.book
    kref := s.kref
    ctx := s.ctx
    freshPush := s.freshPush
    freshCtx := s.freshCtx }

namespace Books

def set (p : PushId) (k : Book) (t : Books) : Books := { t with book := Function.update t.book p (some k) }

def setCtx (c : CtxId) (ctx : Bufctx) (t : Books) : Books := { t with ctx := Function.update t.ctx c (some ctx) }

def enter (b : BoId) (e : KrefAt) (t : Books) : Books := { t with kref := Function.update t.kref b (some e) }

/-- The buffers have no entry in the table any more. -/
def clear (l : List Kref) (t : Books) : Books :=
  { t with kref := fun b => if b ∈ l.map Kref.bo then none else t.kref b }

/-- The contexts on the list of `p` leave it. -/
def flushed (p : PushId) (t : Books) : Books :=
  { t with ctx := fun c => (t.ctx c).map fun ctx => if ctx.onList = some p then ctx.flushed else ctx }

/-- The push buffer goes, and what `l` has in the table. -/
def del (p : PushId) (l : List Kref) (t : Books) : Books :=
  { t.clear l with book := Function.update t.book p none }

end Books

/-- The buffer and the domains are the same. -/
def Kref.Alike (k k' : Kref) : Prop := k'.bo = k.bo ∧ k'.valid = k.valid ∧ k'.write = k.write ∧ k'.read = k.read

/-- The entry of a buffer after the first reference to it. -/
def Kref.asked (b : BoId) (flags : Word) (valid domain : Domains) (offset : Size) : Kref :=
  { bo := b
    valid
    write := .ofAccess NOUVEAU_BO_WR flags
    read := .ofAccess NOUVEAU_BO_RD flags
    offset, domain }

/-- The entry of a buffer after another reference to it. -/
def Kref.again (flags : Word) (k : Kref) : Kref :=
  { k with
    valid := k.valid.inter (.ofFlags flags)
    write := k.write.union (.ofAccess NOUVEAU_BO_WR flags)
    read := k.read.union (.ofAccess NOUVEAU_BO_RD flags) }

/-- A buffer whose entry is `e` counts as one in VRAM, if it did not before. -/
def Krec.charged (size : BoId → Size) (b : BoId) (flags : Word) (e : Kref) (krec : Krec) : Krec :=
  if e.valid.gart ∧ Domains.ofFlags flags = .vramOnly then
    { krec with vramUsed := krec.vramUsed + size b, gartUsed := krec.gartUsed - size b }
  else krec

/-- The record after another reference to the buffer whose entry `e` is in `slot`. -/
def Krec.again (size : BoId → Size) (b : BoId) (flags : Word) (e : Kref) (slot : Nat) (krec : Krec) : Krec :=
  { krec.charged size b flags e with buffer := krec.buffer.modify slot (Kref.again flags) }

/-- The book at a flush. -/
def Book.reset (k : Book) : Book :=
  { k with records := if k.channel then k.records else k.records + 1, krec := {}, gaveUp := false }

/-- Which moves there may be. -/
structure Allowed where
  /-- What a failed call takes back, and a validation does to its context. -/
  takes : Prop
  /-- The push buffers that may be flushed. -/
  resets : PushId → Prop

def Allowed.all : Allowed := ⟨True, fun _ => True⟩

/-- What a call can do to the books of a client; `known` are the buffers that there are. -/
inductive Move (a : Allowed) (size : BoId → Size) (known : BoId → Prop) (t : Books) : Books → Prop
  | moved {p : PushId} {k : Book} {f : Kref → Kref} : t.book p = some k → (∀ e : Kref, e.Alike (f e)) →
      Move a size known t (t.set p { k with krec := { k.krec with buffer := k.krec.buffer.map f } })
  | enter {p : PushId} {k : Book} {b : BoId} {flags : Word} {vramLimit gartLimit : Size} {krec : Krec}
      {valid domain : Domains} {offset : Size} :
      t.book p = some k → t.kref b = none → known b →
      k.krec.krefFits size vramLimit gartLimit (size b) (.ofFlags flags) = (some valid, krec) →
      Move a size known t ((t.set p { k with krec := { krec with
        buffer := krec.buffer ++ [.asked b flags valid domain offset] } }).enter b ⟨p, k.records, krec.buffer.length⟩)
  | crowd {p : PushId} {k : Book} {b : BoId} {flags : Word} {vramLimit gartLimit : Size} {krec : Krec} :
      t.book p = some k → k.krec.krefFits size vramLimit gartLimit (size b) (.ofFlags flags) = (none, krec) →
      Move a size known t (t.set p { k with krec })
  | again {p : PushId} {k : Book} {b : BoId} {flags : Word} {slot : Nat} {e : Kref} :
      t.book p = some k → t.kref b = some ⟨p, k.records, slot⟩ → k.krec.buffer[slot]? = some e →
      e.valid.inter (.ofFlags flags) ≠ .empty → Move a size known t (t.set p { k with krec := k.krec.again size b flags e slot })
  | drop {p : PushId} {k : Book} {sref srel : Nat} : a.takes → t.book p = some k → sref ≤ k.krec.buffer.length →
      Move a size known t ((t.set p { k with krec := k.krec.drop size sref srel }).clear (k.krec.buffer.drop sref))
  | giveUp {p : PushId} {k : Book} : a.takes → t.book p = some k → Move a size known t (t.set p { k with gaveUp := true })
  | reset {p : PushId} {k : Book} : a.resets p → t.book p = some k →
      Move a size known t (((t.set p k.reset).clear k.krec.buffer).flushed p)
  | link {p : PushId} {k : Book} {c : CtxId} {ctx : Bufctx} : a.takes → t.book p = some k → k.bufctx = some c →
      t.ctx c = some ctx → Move a size known t (t.setCtx c (ctx.linked p))
  | join {c : CtxId} {ctx : Bufctx} : a.takes → t.ctx c = some ctx →
      Move a size known t (t.setCtx c { ctx with current := ctx.pending ++ ctx.current, pending := [] })

/-- What the user does to the books, apart from the deletion of a push buffer. -/
inductive Asked (t : Books) : Op → Books → Prop
  | attach {p : PushId} {k : Book} {c : Option CtxId} : t.book p = some k →
      Asked t (.bufctx p c) (t.set p { k with bufctx := c })
  | newPush {nr : Nat} {size : Size} {place : Domains} {channel : Bool} :
      Asked t (.pushNew nr size place channel true)
        { t.set t.freshPush { channel := channel } with freshPush := t.freshPush + 1 }
  | newCtx : Asked t .ctxNew { t.setCtx t.freshCtx {} with freshCtx := t.freshCtx + 1 }
  | ctx {c : CtxId} {ctx ctx' : Bufctx} {op : Op} : t.ctx c = some ctx → ctx'.onList = ctx.onList →
      ctx'.strayed = ctx.strayed → (∀ bref ∈ ctx'.current, bref ∈ ctx.current) → Asked t op (t.setCtx c ctx')

/-- The clients before and after a call that does at most one move. -/
structure Client.Moved (a : Allowed) (s s' : Client) : Prop where
  fresh : s.freshBo ≤ s'.freshBo
  size : ∀ b < s.freshBo, s'.size b = s.size b
  move : s'.books = s.books ∨ Move a s.size (· < s.freshBo) s.books s'.books

def Client.Moves (a : Allowed) : Client → Client → Prop := ReflTransGen (Client.Moved a)

theorem Client.Moves.refl {a : Allowed} {s : Client} : s.Moves a s := ReflTransGen.refl

theorem Client.Moves.trans {a : Allowed} {s s₁ s₂ : Client} (h₁ : s.Moves a s₁) (h₂ : s₁.Moves a s₂) : s.Moves a s₂ :=
  ReflTransGen.trans h₁ h₂

/-! ## Calls that the books do not see -/

section Quiet

variable {a : Allowed} {s s' s₁ s₂ : Client} {p q : PushId} {push push' : Pushbuf} {b : BoId} {flags : Word}

theorem getPush_spec : Ensures (s.getPush p) fun push => s.push p = some push := by
  unfold Client.getPush deref
  cases s.push p with
  | none => exact .error
  | some push => exact .ok rfl

theorem getCtx_spec {c : CtxId} : Ensures (s.getCtx c) fun ctx => s.ctx c = some ctx := by
  unfold Client.getCtx deref
  cases s.ctx c with
  | none => exact .error
  | some ctx => exact .ok rfl

theorem check_spec {x : Bool} {fault : Fault} : Ensures (check x fault) fun _ => x = true := by
  cases x with
  | false => exact .error
  | true => exact .ok rfl

theorem deref_spec {α : Type} {x : Option α} : Ensures (deref x) fun a => x = some a := by
  cases x with
  | none => exact .error
  | some a => exact .ok rfl

theorem books_setPush : (s.setPush p push).books = s.books.set p push.book := by
  have : (fun q => (Function.update s.push p (some push) q).map Pushbuf.book)
      = Function.update s.books.book p (some push.book) := by
    funext q
    by_cases hq : q = p
    · subst hq
      simp only [Function.update_self, Option.map_some]
    · simp only [Function.update_of_ne hq, Client.books]
  simp only [Client.books, Client.setPush, Books.set, this]

theorem books_book (hp : s.push p = some push) : s.books.book p = some push.book := by
  simp only [Client.books, hp, Option.map_some]

theorem Books.set_self {t : Books} {k : Book} (h : t.book p = some k) : t.set p k = t := by
  simp only [Books.set, ← h, Function.update_eq_self]

theorem books_setPush_self (hp : s.push p = some push) (hbook : push'.book = push.book) :
    (s.setPush p push').books = s.books := by
  rw [books_setPush, hbook, Books.set_self (books_book hp)]

/-- The books are the same, and the sizes of the buffers. -/
structure Client.Quiet (s s' : Client) : Prop where
  books : s'.books = s.books
  fresh : s'.freshBo = s.freshBo
  size : s'.size = s.size

theorem Client.Quiet.refl : s.Quiet s := ⟨rfl, rfl, rfl⟩

theorem Client.Quiet.trans (h₁ : s.Quiet s₁) (h₂ : s₁.Quiet s₂) : s.Quiet s₂ :=
  ⟨h₂.books.trans h₁.books, h₂.fresh.trans h₁.fresh, h₂.size.trans h₁.size⟩

theorem Client.Quiet.moves (h : s.Quiet s') : s.Moves a s' :=
  ReflTransGen.single ⟨h.fresh.ge, fun b _ => congrFun h.size b, .inl h.books⟩

theorem Client.Quiet.setPush (hp : s.push p = some push) (hbook : push'.book = push.book) :
    s.Quiet (s.setPush p push') := ⟨books_setPush_self hp hbook, rfl, rfl⟩

theorem size_update {bo : Bo} (h : bo.size = (s.bo b).size) :
    ({ s with bo := Function.update s.bo b bo } : Client).size = s.size := by
  funext d
  by_cases hd : d = b
  · subst hd
    simp only [Client.size, Function.update_self, h]
  · simp only [Client.size, Function.update_of_ne hd]

theorem poke_quiet {d : Word} : Ensures (poke p d s) s.Quiet := by
  refine (getPush_spec).bind fun push hp => .bind_any fun b => .bind_any fun _ => .pure ?_
  exact ⟨books_setPush_self hp rfl, rfl, size_update rfl⟩

theorem emit_quiet {d : Word} : Ensures (emit p d s) s.Quiet :=
  (poke_quiet).bind fun _ hs => .pure ⟨hs.books, hs.fresh, hs.size⟩

theorem pushSegment_quiet {offset length : Nat} : Ensures (pushSegment p b offset length s) s.Quiet :=
  (getPush_spec).bind fun _ hp => .bind_any fun _ => .pure (.setPush hp rfl)

theorem emitSuffix_quiet : Ensures (emitSuffix p s) s.Quiet := by
  refine (getPush_spec).bind fun push hp => ?_
  split
  · exact (poke_quiet).bind fun s₁ h₁ => (poke_quiet).mono fun s₂ h₂ => h₁.trans h₂
  · exact .pure .refl

theorem closeSegment_quiet : Ensures (closeSegment p s) s.Quiet := by
  refine (emitSuffix_quiet).bind fun s₁ h₁ => .bind_any fun push => .bind_any fun b => ?_
  refine (pushSegment_quiet).bind fun s₂ h₂ => (getPush_spec).bind fun push hp => .pure ?_
  exact (h₁.trans h₂).trans (.setPush hp rfl)

theorem cutSegment_quiet {b : Option BoId} : Ensures (cutSegment p b s) s.Quiet := by
  refine .bind_any fun push => ?_
  split
  · exact closeSegment_quiet
  · exact .pure .refl

theorem pushbufData_quiet {b : Option BoId} {offset length : Nat} :
    Ensures (pushbufData p b offset length s) s.Quiet := by
  refine (cutSegment_quiet).bind fun s₁ h₁ => ?_
  cases b with
  | none => exact .pure h₁
  | some b => exact (pushSegment_quiet).bind fun s₂ h₂ => .pure (h₁.trans ⟨h₂.books, h₂.fresh, h₂.size⟩)

theorem ask_quiet : s.Quiet s.ask.2 := ⟨rfl, rfl, rfl⟩

theorem pushbufKrel_quiet {d vor tor : Word} : Ensures (pushbufKrel p b d flags vor tor s) fun r => s.Quiet r.2 :=
  (getPush_spec).bind fun _ hp => .bind_any fun _ => .bind_any fun _ => .bind_any fun _ => .pure (.setPush hp rfl)

theorem emitBufref_quiet {bref : Bufref} : Ensures (emitBufref p bref s) s.Quiet := by
  unfold emitBufref
  split
  · refine (pushbufKrel_quiet).bind fun _ h₁ => (emit_quiet).bind fun _ h₂ => ?_
    exact (pushbufKrel_quiet).bind fun _ h₃ => (emit_quiet).mono fun _ h₄ => ((h₁.trans h₂).trans h₃).trans h₄
  · exact .ok .refl

theorem pushbufReloc_quiet {d vor tor : Word} : Ensures (pushbufReloc p b d flags vor tor s) s.Quiet :=
  (pushbufKrel_quiet).bind fun _ h₁ => (emit_quiet).mono fun _ h₂ => h₁.trans h₂

end Quiet

/-! ## Calls as moves -/

section Moves

variable {a : Allowed} {s s' s₁ s₂ : Client} {p q : PushId} {push push' : Pushbuf} {b : BoId} {flags : Word} {c : CtxId}
  {ctx ctx' : Bufctx} {krec krec' : Krec} {e : Kref} {k : Book} {t t' : Books}

theorem Client.Moves.of_books (hfresh : s'.freshBo = s.freshBo) (hsize : s'.size = s.size)
    (h : Move a s.size (· < s.freshBo) s.books s'.books) : s.Moves a s' :=
  ReflTransGen.single ⟨hfresh.ge, fun b _ => congrFun hsize b, .inr h⟩

theorem Client.Moves.fresh (h : s.Moves a s') : s.freshBo ≤ s'.freshBo := by
  induction h with
  | refl => exact le_rfl
  | tail _ h ih => exact ih.trans h.fresh

theorem Client.Moves.size (h : s.Moves a s') : ∀ b < s.freshBo, s'.size b = s.size b := by
  induction h with
  | refl => exact fun _ _ => rfl
  | tail h₁ h ih => exact fun b hb => (h.size b (hb.trans_le (Client.Moves.fresh h₁))).trans (ih b hb)

theorem books_setCtx : (s.setCtx c ctx).books = s.books.setCtx c ctx := rfl

/-- What the kernel does to a record. -/
def Krec.Sent (krec krec' : Krec) : Prop :=
  ∃ f : Kref → Kref, (∀ e : Kref, e.Alike (f e)) ∧ krec' = { krec with buffer := krec.buffer.map f }

theorem Krec.Sent.refl : krec.Sent krec := by
  refine ⟨id, fun e => ⟨rfl, rfl, rfl, rfl⟩, ?_⟩
  rw [List.map_id]

theorem alike_moved (place : Option (Domains × Size)) : e.Alike (e.moved place) := by
  cases place with
  | none => exact ⟨rfl, rfl, rfl, rfl⟩
  | some place => exact ⟨rfl, rfl, rfl, rfl⟩

theorem Bo.moved_size {bo : Bo} (place : Option (Domains × Size)) : (bo.moved place).size = bo.size := by
  cases place with
  | none => rfl
  | some place => rfl

theorem submitKrec_spec : Ensures (submitKrec p krec s) fun r => s.Quiet r.2 ∧ krec.Sent r.1.2 := by
  refine (getPush_spec).bind fun push hp => ?_
  dsimp only [Client.ask]
  split
  · exact .pure ⟨⟨books_setPush_self hp rfl, rfl, rfl⟩, .refl⟩
  · refine .pure ⟨⟨books_setPush_self hp rfl, rfl, ?_⟩, _, fun e => alike_moved _, rfl⟩
    funext b
    simp only [Client.size]
    split
    · exact Bo.moved_size _
    · rfl

theorem submitLoop_spec {nextNull : Bool} {l : List Krec} :
    Ensures (submitLoop p nextNull l s) fun r => s.Quiet r.2 ∧ List.Forall₂ Krec.Sent l r.1.2 := by
  induction l generalizing s with
  | nil => exact .bind_any fun _ => .pure ⟨.refl, .nil⟩
  | cons krec l ih =>
      have hsame : ∀ l : List Krec, List.Forall₂ Krec.Sent l l := fun l => List.forall₂_same.mpr fun _ _ => .refl
      unfold submitLoop
      split
      · exact .ok ⟨.refl, hsame _⟩
      · refine (submitKrec_spec).bind fun ⟨⟨ret, krec'⟩, s₁⟩ h₁ => ?_
        dsimp only
        split
        · exact .pure ⟨h₁.1, .cons h₁.2 (hsame l)⟩
        · exact ih.bind fun _ h₂ => .pure ⟨h₁.1.trans h₂.1, .cons h₁.2 h₂.2⟩

theorem exists_of_forall₂_concat {α β : Type} {R : α → β → Prop} {a : List α} {x : α} {l : List β}
    (h : List.Forall₂ R (a ++ [x]) l) : ∃ a' x', l = a' ++ [x'] ∧ a'.length = a.length ∧ R x x' := by
  induction a generalizing l with
  | nil =>
      cases h with
      | cons hx hl =>
          cases hl
          exact ⟨[], _, rfl, rfl, hx⟩
  | cons y a ih =>
      cases h with
      | cons hy hl =>
          obtain ⟨a', x', rfl, hlen, hx⟩ := ih hl
          exact ⟨_ :: a', x', rfl, congrArg Nat.succ hlen, hx⟩

theorem bare_map (f : Kref → Kref) : ({ krec with buffer := krec.buffer.map f } : Krec).bare
    = { krec.bare with buffer := krec.bare.buffer.map f } := rfl

theorem pushbufSubmit_spec : Ensures (pushbufSubmit p s) fun r => s.Moves a r.2 ∧ r.2.kref = s.kref := by
  refine (pushbufData_quiet).bind fun s₁ h₁ => (getPush_spec).bind fun push hp => ?_
  refine (submitLoop_spec).bind fun ⟨⟨ret, l⟩, s₂⟩ ⟨h₂, hl⟩ => (getPush_spec).bind fun push' hp' => .pure ⟨?_, ?_⟩
  case refine_2 => exact (congrArg Books.kref h₂.books).trans (congrArg Books.kref h₁.books)
  obtain ⟨old, krec, rfl, hlen, f, hf, rfl⟩ := exists_of_forall₂_concat hl
  refine h₁.moves.trans (h₂.moves.trans (.of_books rfl rfl ?_))
  -- the number of old records is that of before the loop
  have hbook : push'.book = push.book := by
    have := books_book hp'
    rw [h₂.books, books_book hp] at this
    exact (Option.some.inj this).symm
  have hmove : Move a s₂.size (· < s₂.freshBo) s₂.books _ := .moved (books_book hp') hf
  rw [books_setPush]
  rw [hbook] at hmove
  have hchannel : push'.channel = push.channel := congrArg Book.channel hbook
  have hbufctx : push'.bufctx = push.bufctx := congrArg Book.bufctx hbook
  have hgave : push'.gaveUp = push.gaveUp := congrArg Book.gaveUp hbook
  simpa only [Pushbuf.book, List.dropLast_concat, List.getLastD_concat, bare_map, hlen, hchannel, hbufctx, hgave]
    using hmove

theorem cliKrefClear_eq {l : List Kref} :
    s.cliKrefClear l = { s with kref := fun b => if b ∈ l.map Kref.bo then none else s.kref b } := by
  induction l generalizing s with
  | nil => simp [Client.cliKrefClear]
  | cons k l ih =>
      show (s.cliKrefSet k.bo none).cliKrefClear l = _
      rw [ih]
      simp only [Client.cliKrefSet, List.map_cons, List.mem_cons]
      congr 1
      funext b
      by_cases hb : b = k.bo
      · subst hb
        simp
      · simp [hb]

theorem books_cliKrefClear {l : List Kref} : (s.cliKrefClear l).books = s.books.clear l := by
  rw [cliKrefClear_eq]
  rfl

theorem flushKrec_spec : Ensures (flushKrec p s) fun r => s.Moves a r.2 ∧ r.2.kref = s.kref := by
  refine .bind_any fun push => ?_
  split
  · exact pushbufSubmit_spec
  · exact (pushbufData_quiet).bind fun s₁ h₁ => .bind_any fun _ =>
      .pure ⟨(h₁.trans ask_quiet).moves, congrArg Books.kref h₁.books⟩

/-- The record of before, and the one that follows. -/
theorem resetKrec_spec {zero : Bool} :
    Ensures (resetKrec p zero s) fun s' => ∃ push, s.push p = some push ∧ s'.books = s.books.set p push.book.reset ∧
      s'.freshBo = s.freshBo ∧ s'.size = s.size := by
  refine (getPush_spec).bind fun push hp => ?_
  split
  · next hchannel =>
    refine .pure ⟨push, hp, (books_setPush).trans ?_, rfl, rfl⟩
    simp [Pushbuf.book, Book.reset, hchannel, Krec.bare]
  · next hchannel =>
    refine .pure ⟨push, hp, (books_setPush).trans ?_, rfl, rfl⟩
    simp [Pushbuf.book, Book.reset, hchannel, Krec.bare]

/-- A flush is a reset, after the records were submitted. -/
theorem pushbufFlush_reset : Ensures (pushbufFlush p s) fun r => ∃ s₁ k, s.Moves a s₁ ∧ s₁.kref = s.kref ∧
    s₁.books.book p = some k ∧ r.2.books = ((s₁.books.set p k.reset).clear k.krec.buffer).flushed p ∧
      r.2.freshBo = s₁.freshBo ∧ r.2.size = s₁.size := by
  refine (flushKrec_spec (a := a)).bind fun ⟨ret, s₁⟩ ⟨h₁, hkref⟩ => (getPush_spec).bind fun push hp => ?_
  refine (resetKrec_spec).bind fun s₂ h₂ => .pure ⟨s₁, push.book, h₁, hkref, books_book hp, ?_⟩
  obtain ⟨push', hp', hbooks, hfresh, hsize⟩ := h₂
  rw [cliKrefClear_eq] at hp' hfresh hsize
  cases hp.symm.trans hp'
  rw [books_cliKrefClear] at hbooks
  refine ⟨?_, hfresh, hsize⟩
  show s₂.books.flushed p = _
  rw [hbooks]
  rfl

/-- Entries are cleared only, and the record is empty. -/
theorem pushbufFlush_spec (ha : a.resets p) : Ensures (pushbufFlush p s) fun r => s.Moves a r.2 ∧
    (∀ b, r.2.kref b = none ∨ r.2.kref b = s.kref b) ∧ ∃ k, r.2.books.book p = some k ∧ k.krec.buffer = [] := by
  refine (pushbufFlush_reset (a := a)).mono fun r hr => ?_
  obtain ⟨s₁, k, h₁, hkref, hk, hbooks, hfresh, hsize⟩ := hr
  refine ⟨h₁.trans (.of_books hfresh hsize ?_), fun b => ?_, k.reset, ?_, rfl⟩
  · rw [hbooks]
    exact .reset ha hk
  · have hb : r.2.kref b = if b ∈ k.krec.buffer.map Kref.bo then none else s₁.kref b :=
      congrFun (congrArg Books.kref hbooks) b
    rw [hb]
    split
    · exact .inl rfl
    · exact .inr (congrFun hkref b)
  · rw [hbooks]
    exact Function.update_self ..

theorem pushbufFlush_moves (ha : a.resets p) : Ensures (pushbufFlush p s) fun r => s.Moves a r.2 :=
  (pushbufFlush_spec ha).mono fun _ h => h.1

/-- An entry that is left is one of `p`, or points to nothing. -/
theorem flushOther_spec (ha : ∀ q, q ≠ p → a.resets q) : Ensures (flushOther p b s) fun s' => s.Moves a s' ∧
    ∀ e, s'.kref b = some e → e.push = p ∨ ∃ k, s'.books.book e.push = some k ∧ k.krec.buffer = [] := by
  unfold flushOther Client.cliPushGet
  cases hb : s.kref b with
  | none => exact .ok ⟨.refl, fun e he => absurd (hb.symm.trans he) nofun⟩
  | some e =>
      dsimp only [Option.map_some]
      split
      · next hp =>
        refine .ok ⟨.refl, fun e' he' => ?_⟩
        cases hb.symm.trans he'
        exact .inl hp
      · next hp =>
        refine (pushbufFlush_spec (ha _ hp)).bind fun ⟨ret, s₁⟩ ⟨h, hkref, k, hk, hempty⟩ => .pure ⟨h, fun e' he' => ?_⟩
        rcases hkref b with hnone | hsame
        · cases hnone.symm.trans he'
        · cases hb.symm.trans (hsame.symm.trans he')
          exact .inr ⟨k, hk, hempty⟩

theorem readKref_spec {entry : KrefAt} : Ensures (s.readKref entry) fun k => ∃ push, s.push entry.push = some push ∧
    entry.krec = push.old.length ∧ push.krec.buffer[entry.slot]? = some k := by
  refine (getPush_spec).bind fun push hp => (check_spec).bind fun _ hkrec => ?_
  split
  · next k hk => exact .pure ⟨push, hp, of_decide_eq_true hkrec, hk⟩
  · exact .error

theorem modifyKref_spec {entry : KrefAt} {f : Kref → Kref} (hp : s.push entry.push = some push) :
    Ensures (s.modifyKref entry f) fun s' => s' = s.setPush entry.push
      { push with krec := { push.krec with buffer := push.krec.buffer.modify entry.slot f } } := by
  refine (getPush_spec).bind fun push' hp' => .bind_any fun _ => .pure ?_
  cases hp.symm.trans hp'
  rfl

theorem setPush_push : (s.setPush p push).push p = some push := Function.update_self ..

theorem setPush_setPush : (s.setPush p push).setPush p push' = s.setPush p push' := by
  simp only [Client.setPush, Function.update_idem]

/-- Nothing happens, or the entry is used again. -/
theorem krefAgain_spec {entry : KrefAt} (hentry : s.kref b = some entry)
    (hplace : entry.push = p ∨ ∃ k, s.books.book entry.push = some k ∧ k.krec.buffer = []) :
    Ensures (krefAgain p b flags entry s) fun r => r.1 = false ∧ r.2 = s ∨
      r.1 = true ∧ r.2.freshBo = s.freshBo ∧ r.2.size = s.size ∧ ∃ k slot e, s.books.book p = some k ∧
        s.kref b = some ⟨p, k.records, slot⟩ ∧ k.krec.buffer[slot]? = some e ∧ e.valid.inter (.ofFlags flags) ≠ .empty ∧
          r.2.books = s.books.set p { k with krec := k.krec.again s.size b flags e slot } := by
  refine (getPush_spec).bind fun push hp => (readKref_spec).bind fun e ⟨push', hp', hkrec, he⟩ => ?_
  rcases hplace with rfl | ⟨k, hk, hempty⟩
  case inr =>
    -- there is nothing to read
    cases (books_book hp').symm.trans hk
    have : push'.krec.buffer = [] := hempty
    rw [this] at he
    cases he
  cases hp.symm.trans hp'
  obtain ⟨q, n, slot⟩ := entry
  cases hkrec
  dsimp only at hp hentry he ⊢
  split
  · exact .pure (.inl ⟨rfl, rfl⟩)
  · next hvalid =>
    have hdata := fun r : Client => fun hr : r.books = _ => (⟨push.book, slot, e, books_book hp, hentry, he, hvalid, hr⟩ :
      ∃ k slot e, s.books.book q = some k ∧ s.kref b = some ⟨q, k.records, slot⟩ ∧ k.krec.buffer[slot]? = some e ∧
        e.valid.inter (.ofFlags flags) ≠ .empty ∧
          r.books = s.books.set q { k with krec := k.krec.again s.size b flags e slot })
    split
    · next hturn =>
      split
      · exact .pure (.inl ⟨rfl, rfl⟩)
      · refine (modifyKref_spec setPush_push).bind fun s₁ h₁ => .pure (.inr ⟨rfl, ?_⟩)
        refine h₁ ▸ ⟨rfl, rfl, hdata _ ?_⟩
        rw [setPush_setPush, books_setPush, Krec.again, Krec.charged, if_pos hturn]
        rfl
    · next hturn =>
      refine (modifyKref_spec hp).bind fun s₁ h₁ => .pure (.inr ⟨rfl, ?_⟩)
      refine h₁ ▸ ⟨rfl, rfl, hdata _ ?_⟩
      rw [books_setPush, Krec.again, Krec.charged, if_neg hturn]
      rfl

theorem krefAgain_moves {entry : KrefAt} (hentry : s.kref b = some entry)
    (hplace : entry.push = p ∨ ∃ k, s.books.book entry.push = some k ∧ k.krec.buffer = []) :
    Ensures (krefAgain p b flags entry s) fun r => s.Moves a r.2 := by
  refine (krefAgain_spec hentry hplace).mono fun r hr => ?_
  rcases hr with ⟨-, hsame⟩ | ⟨-, hfresh, hsize, k, slot, e, hk, hkref, he, hvalid, hbooks⟩
  · rw [hsame]
    exact .refl
  · refine .of_books hfresh hsize ?_
    rw [hbooks]
    exact .again hk hkref he hvalid

theorem krefFits_bare {size : BoId → Size} {vramLimit gartLimit need : Size} {domains : Domains} :
    krec.bare.krefFits size vramLimit gartLimit need domains
      = ((krec.krefFits size vramLimit gartLimit need domains).1,
        (krec.krefFits size vramLimit gartLimit need domains).2.bare) := by
  obtain ⟨buffer, reloc, push, vramUsed, gartUsed, lostVram, lostGart⟩ := krec
  simp only [Krec.krefFits, Krec.bare]
  by_cases h₁ : domains = .vramOnly
  · by_cases h₂ : vramUsed + need > vramLimit <;> simp [h₁, h₂]
  · by_cases h₂ : gartUsed + need ≤ gartLimit
    · simp [h₁, h₂]
    · by_cases h₃ : domains.vram ∧ vramUsed + need ≤ vramLimit
      · simp [h₁, h₂, h₃]
      · simp only [h₁, h₂, h₃, if_false]
        rfl

/-- There is no room, or the buffer gets an entry. -/
theorem krefNew_spec (hnone : s.kref b = none) (hknown : b < s.freshBo) :
    Ensures (krefNew p b flags s) fun r => s.Moves a r.2 ∧ (r.1 = true → ∃ k valid krec domain offset,
      s.books.book p = some k ∧ k.krec.krefFits s.size s.vramLimit s.gartLimit (s.size b) (.ofFlags flags) = (some valid, krec) ∧
        r.2.books = (s.books.set p { k with krec := { krec with
          buffer := krec.buffer ++ [.asked b flags valid domain offset] } }).enter b ⟨p, k.records, krec.buffer.length⟩) := by
  refine (getPush_spec).bind fun push hp => ?_
  split
  · exact .pure ⟨.refl, nofun⟩
  · split
    · next krec hfits =>
      refine .pure ⟨.of_books rfl rfl ?_, nofun⟩
      rw [books_setPush]
      exact .crowd (books_book hp) (krefFits_bare.trans (by rw [hfits]))
    · next valid krec hfits =>
      have hbare : push.book.krec.krefFits s.size s.vramLimit s.gartLimit (s.size b) (.ofFlags flags)
          = (some valid, krec.bare) := (krefFits_bare).trans (by rw [hfits])
      have hbooks : ∀ push' : Pushbuf, ∀ e : KrefAt, (cliKrefSet b (some e) (s.setPush p push')).books
          = (s.books.set p push'.book).enter b e := by
        intro push' e
        show (Client.setPush p _ s).books.enter b _ = _
        rw [books_setPush]
      refine .pure ⟨.of_books rfl rfl ?_, fun _ => ⟨push.book, valid, krec.bare,
        if (s.bo b).flags &&& NOUVEAU_BO_VRAM ≠ 0 then .vramOnly else ⟨false, true⟩, (s.bo b).offset, books_book hp,
        hbare, ?_⟩⟩
      · rw [hbooks]
        exact .enter (books_book hp) hnone hknown hbare
      · rw [hbooks]
        rfl

theorem pushbufKref_moves (ha : ∀ q, q ≠ p → a.resets q) :
    Ensures (pushbufKref p b flags s) fun r => s.Moves a r.2 := by
  refine (check_spec).bind fun _ hknown => (flushOther_spec ha).bind fun s₁ ⟨h₁, hplace⟩ => ?_
  split
  · next entry hentry => exact (krefAgain_moves hentry (hplace entry hentry)).mono fun _ h => h₁.trans h
  · next hnone =>
    exact (krefNew_spec hnone ((of_decide_eq_true hknown).trans_le h₁.fresh)).mono fun _ h => h₁.trans h.1

theorem pushbufRefnFail_spec {sref srel : Nat} : Ensures (pushbufRefnFail p sref srel s) fun s' =>
    ∃ k, s.books.book p = some k ∧ sref ≤ k.krec.buffer.length ∧ s'.books
      = (s.books.set p { k with krec := k.krec.drop s.size sref 0 }).clear (k.krec.buffer.drop sref) ∧
      s'.freshBo = s.freshBo ∧ s'.size = s.size := by
  refine (getPush_spec).bind fun push hp => (check_spec).bind fun _ hlen => .pure ⟨push.book, books_book hp, ?_⟩
  refine ⟨(Bool.and_eq_true_iff.mp hlen).1 |> of_decide_eq_true, ?_⟩
  rw [books_setPush, books_cliKrefClear, cliKrefClear_eq]
  exact ⟨rfl, rfl, rfl⟩

theorem pushbufRefnFail_moves {sref srel : Nat} (ha : a.takes) :
    Ensures (pushbufRefnFail p sref srel s) (s.Moves a) := by
  refine (pushbufRefnFail_spec).mono fun s' hs' => ?_
  obtain ⟨k, hk, hsref, hbooks, hfresh, hsize⟩ := hs'
  refine .of_books hfresh hsize ?_
  rw [hbooks]
  exact .drop ha hk hsref

theorem boNew_moved (nr : Nat) (size : Size) (made : BoId → Word × Size) : s.Moved a (boNew nr size made s) := by
  refine ⟨Nat.le_add_right _ _, fun b hb => ?_, .inl rfl⟩
  show (if s.freshBo ≤ b ∧ b < s.freshBo + nr then _ else s.bo b).size = _
  rw [if_neg fun h => absurd h.1 (Nat.not_le.mpr hb)]
  rfl

/-- A call that does only moves. -/
def Call.Tame (call : Call → Client → Except Fault (Int × Client)) : Prop :=
  ∀ x s, Ensures (call x s) fun r => s.Moves .all r.2

theorem nextBo_moves {dwords : Word} : Ensures (nextBo p dwords s) fun r => s.Moves a r.2 := by
  refine (getPush_spec).bind fun push hp => ?_
  split
  · split
    · exact .pure (Client.Quiet.moves ⟨books_setPush_self hp rfl, rfl, rfl⟩)
    · unfold nextNew
      split
      · exact .error
      · dsimp only
        split
        · exact .ok (ask_quiet).moves
        · exact .ok (ask_quiet.moves.trans (ReflTransGen.single (boNew_moved _ _ _)))
  · exact .pure .refl

theorem needsFlush_moves (ha : ∀ q, q ≠ p → a.resets q) {d : Option BoId} {relocs pushes : Word} :
    Ensures (needsFlush p d relocs pushes s) fun r => s.Moves a r.2 := by
  refine .bind_any fun push => ?_
  dsimp only
  split
  · exact .pure .refl
  · split
    · exact .pure .refl
    · exact (pushbufKref_moves ha).bind fun _ h => .pure h

theorem flushIf_moves (ha : a.resets p) {flushed : Bool} : Ensures (flushIf flushed p s) (s.Moves a) := by
  refine .bind_any fun push => ?_
  split
  · exact (pushbufFlush_moves ha).bind fun _ h => .pure h
  · exact .pure .refl

theorem krefOwn_moves (ha : ∀ q, q ≠ p → a.resets q) : Ensures (krefOwn p s) (s.Moves a) :=
  .bind_any fun _ => .bind_any fun _ => (pushbufKref_moves ha).bind fun _ h => .pure h

section Calls

variable {call : Call → Client → Except Fault (Int × Client)}

theorem switchBo_moves (hcall : Call.Tame call) {d : Option BoId} :
    Ensures (switchBo call p d s) fun r => s.Moves .all r.2 := by
  unfold switchBo
  split
  · exact .ok .refl
  · refine (hcall _ _).bind fun ⟨ret, s₁⟩ h₁ => ?_
    dsimp only
    split
    · exact .pure h₁
    · refine (pushbufData_quiet).bind fun s₂ h₂ => (getPush_spec).bind fun push hp => .pure ?_
      refine h₁.trans (h₂.moves.trans ?_)
      exact Client.Quiet.moves ⟨books_setPush_self hp rfl, rfl, rfl⟩

theorem pushbufSpace_moves (hcall : Call.Tame call) {dwords relocs pushes : Word} :
    Ensures (pushbufSpace call p dwords relocs pushes s) fun r => s.Moves .all r.2 := by
  refine (nextBo_moves (a := .all)).bind fun ⟨⟨ret, d⟩, s₁⟩ h₁ => ?_
  dsimp only
  split
  · exact .pure h₁
  · refine (needsFlush_moves (a := .all) fun _ _ => trivial).bind fun ⟨flushed, s₂⟩ h₂ => (flushIf_moves (a := .all) trivial).bind fun s₃ h₃ => ?_
    refine (switchBo_moves hcall).bind fun ⟨ret, s₄⟩ h₄ => ?_
    have h := ((h₁.trans h₂).trans h₃).trans h₄
    dsimp only
    split
    · exact .pure h
    · refine (krefOwn_moves (a := .all) fun _ _ => trivial).bind fun s₅ h₅ => ?_
      split
      · exact (hcall _ _).mono fun _ h₆ => (h.trans h₅).trans h₆
      · exact .pure (h.trans h₅)

theorem kickUser_moves (hcall : Call.Tame call) : Ensures (kickUser call b s) (s.Moves .all) := by
  unfold kickUser
  split
  · exact .ok .refl
  · refine .bind_any fun push => ?_
    split
    · exact (hcall _ _).bind fun _ h => .pure h
    · exact .pure .refl

theorem boWait_moves (hcall : Call.Tame call) : Ensures (boWait call b s) fun r => s.Moves .all r.2 :=
  (kickUser_moves hcall).bind fun _ h => .pure (h.trans (ask_quiet).moves)

theorem boMap_moves (hcall : Call.Tame call) : Ensures (boMap call b s) fun r => s.Moves .all r.2 := by
  unfold boMap
  split
  · exact boWait_moves hcall
  · dsimp only
    split
    · exact .ok (ask_quiet).moves
    · refine (boWait_moves hcall).mono fun _ h => (ask_quiet.trans ?_).moves.trans h
      exact ⟨rfl, rfl, size_update rfl⟩

theorem kickChannel_moves (hcall : Call.Tame call) : Ensures (kickChannel call p s) fun r => s.Moves .all r.2 :=
  (pushbufFlush_moves (a := .all) trivial).bind fun _ h₁ => (hcall _ _).mono fun _ h₂ => h₁.trans h₂

/-- What a context is attached to stays that, and what has a channel. -/
theorem Move.kept {size : BoId → Size} {known : BoId → Prop} (h : Move a size known t t') (hk : t.book p = some k) :
    ∃ k', t'.book p = some k' ∧ k'.bufctx = k.bufctx ∧ k'.channel = k.channel := by
  have hset : ∀ {q : PushId} {kq r : Book}, t.book q = some kq → r.bufctx = kq.bufctx → r.channel = kq.channel →
      ∃ k', (t.set q r).book p = some k' ∧ k'.bufctx = k.bufctx ∧ k'.channel = k.channel := by
    intro q kq r hq hbufctx hchannel
    by_cases hpq : p = q
    · subst hpq
      cases hk.symm.trans hq
      exact ⟨r, Function.update_self .., hbufctx, hchannel⟩
    · exact ⟨k, (Function.update_of_ne hpq ..).trans hk, rfl, rfl⟩
  cases h with
  | moved hq _ => exact hset hq rfl rfl
  | enter hq _ _ _ => exact hset hq rfl rfl
  | crowd hq _ => exact hset hq rfl rfl
  | again hq _ _ _ => exact hset hq rfl rfl
  | drop _ hq _ => exact hset hq rfl rfl
  | giveUp _ hq => exact hset hq rfl rfl
  | reset _ hq => exact hset hq rfl rfl
  | link _ _ _ _ => exact ⟨k, hk, rfl, rfl⟩
  | join _ _ => exact ⟨k, hk, rfl, rfl⟩

theorem Client.Moves.kept (h : s.Moves a s') (hk : s.books.book p = some k) :
    ∃ k', s'.books.book p = some k' ∧ k'.bufctx = k.bufctx ∧ k'.channel = k.channel := by
  induction h with
  | refl => exact ⟨k, hk, rfl, rfl⟩
  | tail _ h ih =>
      obtain ⟨k', hk', hbufctx, hchannel⟩ := ih
      rcases h.move with hsame | hmove
      · rw [hsame]
        exact ⟨k', hk', hbufctx, hchannel⟩
      · obtain ⟨k'', hk'', hbufctx', hchannel'⟩ := hmove.kept hk'
        exact ⟨k'', hk'', hbufctx'.trans hbufctx, hchannel'.trans hchannel⟩

theorem linkCtx_moves (ha : a.takes) (hk : s.books.book p = some k) (hbufctx : k.bufctx = some c) :
    Ensures (linkCtx p c s) (s.Moves a) := by
  refine (getCtx_spec).bind fun ctx hctx => ?_
  have hmove : s.Moves a (s.setCtx c (ctx.linked p)) := .of_books rfl rfl (.link ha hk hbufctx hctx)
  split
  · exact .bind_any fun _ => .pure hmove
  · exact .pure hmove

theorem joinPending_moves (ha : a.takes) : Ensures (joinPending c s) (s.Moves a) :=
  (getCtx_spec).bind fun _ hctx => .pure (.of_books rfl rfl (.join ha hctx))

theorem validateLoop_moves (ha : ∀ q, q ≠ p → a.resets q) {l : List Bufref} :
    Ensures (validateLoop p l s) fun r => s.Moves a r.2 := by
  induction l generalizing s with
  | nil => exact .ok .refl
  | cons bref l ih =>
      refine (pushbufKref_moves ha).bind fun ⟨fits, s₁⟩ h₁ => ?_
      dsimp only
      split
      · exact (emitBufref_quiet).bind fun s₂ h₂ => ih.mono fun _ h₃ => h₁.trans (h₂.moves.trans h₃)
      · exact .pure h₁

theorem validateFail_moves (hcall : Call.Tame call) {retry : Bool} {sref srel : Nat} :
    Ensures (validateFail call p retry sref srel s) fun r => s.Moves .all r.2 := by
  refine (pushbufRefnFail_moves (a := .all) trivial).bind fun s₁ h₁ => ?_
  split
  · exact (pushbufFlush_moves (a := .all) trivial).bind fun _ h₂ => (hcall _ _).mono fun _ h₃ => h₁.trans (h₂.trans h₃)
  · refine (getPush_spec).bind fun push hp => .pure (h₁.trans (.of_books rfl rfl ?_))
    show Move _ _ _ _ (Client.setPush p _ s₁).books
    rw [books_setPush]
    exact .giveUp trivial (books_book hp)

theorem pushbufValidate_moves (hcall : Call.Tame call) {retry : Bool} :
    Ensures (pushbufValidate call p retry s) fun r => s.Moves .all r.2 := by
  refine (getPush_spec).bind fun push hp => ?_
  split
  · exact hcall _ _
  · next c hc =>
    refine .bind_any fun ctx => .bind_any fun _ => (hcall _ _).bind fun ⟨ret, s₁⟩ h₁ => ?_
    dsimp only
    split
    · exact .pure h₁
    · refine .bind_any fun ⟨sref, srel⟩ => ?_
      obtain ⟨k, hk, hbufctx, -⟩ := h₁.kept (books_book hp)
      refine (linkCtx_moves (a := .all) trivial hk (hbufctx.trans hc)).bind fun s₂ h₂ => .bind_any fun ctx => ?_
      refine (validateLoop_moves (a := .all) fun _ _ => trivial).bind fun ⟨fits, s₃⟩ h₃ => (joinPending_moves (a := .all) trivial).bind fun s₄ h₄ => ?_
      have h := h₁.trans (h₂.trans (h₃.trans h₄))
      split
      · exact .pure h
      · exact (validateFail_moves hcall).mono fun _ h₅ => h.trans h₅

end Calls

/-- The induction is on how deep the calls are. -/
theorem Call.run_tame (n : Nat) : Call.Tame (Call.run n) := by
  induction n with
  | zero =>
      intro x s
      exact .error
  | succ n ih =>
      intro x s
      cases x with
      | space p dwords relocs pushes => exact pushbufSpace_moves ih
      | validate p retry => exact pushbufValidate_moves ih
      | kick p => exact kickChannel_moves ih
      | map b => exact boMap_moves ih

theorem refnLoop_moves (ha : ∀ q, q ≠ p → a.resets q) {refs : List (BoId × Word)} :
    Ensures (refnLoop p refs s) fun r => s.Moves a r.2 := by
  induction refs generalizing s with
  | nil => exact .ok .refl
  | cons r refs ih =>
      refine (pushbufKref_moves ha).bind fun ⟨fits, s₁⟩ h₁ => ?_
      dsimp only
      split
      · exact ih.mono fun _ h₂ => h₁.trans h₂
      · exact .pure h₁

theorem refnTry_moves {refs : List (BoId × Word)} : Ensures (refnTry p refs s) fun r => s.Moves .all r.2 := by
  refine .bind_any fun push => (refnLoop_moves (a := .all) fun _ _ => trivial).bind fun ⟨fits, s₁⟩ h₁ => ?_
  dsimp only
  split
  · exact .pure h₁
  · exact .bind_any fun push' => (pushbufRefnFail_moves (a := .all) trivial).bind fun _ h₂ => .pure (h₁.trans h₂)

theorem pushbufRefn_moves {n : Nat} {refs : List (BoId × Word)} :
    Ensures (pushbufRefn n p refs s) fun r => s.Moves .all r.2 := by
  refine (refnTry_moves).bind fun ⟨fits, s₁⟩ h₁ => ?_
  dsimp only
  split
  · exact .pure h₁
  · refine (pushbufFlush_moves (a := .all) trivial).bind fun _ h₂ => (Call.run_tame n _ _).bind fun _ h₃ => ?_
    exact (refnTry_moves).bind fun _ h₄ => .pure (h₁.trans (h₂.trans (h₃.trans h₄)))

theorem pushbufKick_moves {n : Nat} {isFifo : Bool} : Ensures (pushbufKick n p isFifo s) fun r => s.Moves .all r.2 := by
  refine .bind_any fun push => ?_
  split
  · exact Call.run_tame n _ _
  · split
    · exact (pushbufSubmit_spec).mono fun _ h => h.1
    · exact .pure .refl

theorem pushbufDel_spec : Ensures (pushbufDel p s) fun s' => ∃ push, s.push p = some push ∧
    s'.books = s.books.del p ((push.old ++ [push.krec]).flatMap Krec.buffer) ∧ s'.freshBo = s.freshBo ∧
      s'.size = s.size := by
  refine (getPush_spec).bind fun push hp => .bind_any fun _ => .pure ⟨push, hp, ?_⟩
  have hclear : ∀ (l : List Krec) (s : Client), l.foldl (fun s krec => s.cliKrefClear krec.buffer) s
      = s.cliKrefClear (l.flatMap Krec.buffer) := by
    intro l
    induction l with
    | nil => exact fun _ => rfl
    | cons krec l ih =>
        intro s
        rw [List.foldl_cons, ih, List.flatMap_cons, Client.cliKrefClear, Client.cliKrefClear, Client.cliKrefClear,
          List.foldl_append]
  rw [hclear, cliKrefClear_eq]
  refine ⟨?_, rfl, rfl⟩
  simp only [Client.books, Books.del, Books.clear]
  congr 1
  funext q
  by_cases hq : q = p
  · subst hq
    simp only [Function.update_self, Option.map_none]
  · simp only [Function.update_of_ne hq]

theorem void_spec {x : Except Fault Client} {Q : Client → Prop} (h : Ensures x Q) :
    Ensures (void x) fun r => Q r.2 := by
  cases x with
  | error e => exact .error
  | ok s => exact .ok (h s rfl)

/-- The user's part of a call that the books see. -/
structure Client.Did (op : Op) (s s' : Client) : Prop where
  fresh : s.freshBo ≤ s'.freshBo
  size : ∀ b < s.freshBo, s'.size b = s.size b
  asked : Asked s.books op s'.books

theorem ctx_did {op : Op} (hctx : s.ctx c = some ctx) (hlist : ctx'.onList = ctx.onList)
    (hstrayed : ctx'.strayed = ctx.strayed) (hcurrent : ∀ bref ∈ ctx'.current, bref ∈ ctx.current) : s.Did op (s.setCtx c ctx') :=
  ⟨le_rfl, fun _ _ => rfl, .ctx hctx hlist hstrayed hcurrent⟩

/-- A sequence of moves, or the user changes a context, attaches one, makes or deletes a push buffer. -/
def Client.Does (a : Allowed) (op : Op) (s s' : Client) : Prop :=
  s.Moves a s' ∨ s.Did op s' ∨
    ∃ p push, op = .pushDel p ∧ s.push p = some push ∧ s'.freshBo = s.freshBo ∧ s'.size = s.size ∧
      s'.books = s.books.del p ((push.old ++ [push.krec]).flatMap Krec.buffer)

theorem pushbufNew_does {nr : Nat} {size : Size} {place : Domains} {immediate isFifo : Bool} :
    s.Does a (.pushNew nr size place immediate isFifo) (pushbufNew nr size place immediate isFifo s).2 := by
  unfold pushbufNew
  cases isFifo with
  | false => exact .inl .refl
  | true =>
      dsimp only [Client.ask]
      split
      · next h => cases h
      · split
        · exact .inl (ask_quiet).moves
        · have hnew := boNew_moved (a := a) (s := s) nr size (s.replies s.tick).made
          refine .inr (.inl ⟨hnew.fresh, hnew.size, ?_⟩)
          show Asked _ _ { Client.books (Client.setPush s.freshPush _ _) with freshPush := s.freshPush + 1 }
          rw [books_setPush]
          exact .newPush

/-- The calls that can flush, and validate. -/
def Op.calls : Op → Bool
  | .boMap _ | .space .. | .refn .. | .validate _ | .kick .. => true
  | _ => false

theorem Op.run_plain {op : Op} {n : Nat} (hplain : op.calls = false) :
    Ensures (op.run n s) fun r => s.Does a op r.2 := by
  cases op with
  | boNew size => exact .ok (.inl (ask_quiet.moves.trans (ReflTransGen.single (boNew_moved _ _ _))))
  | boMap b => cases hplain
  | pushNew nr size place immediate isFifo => exact .ok pushbufNew_does
  | pushDel p =>
      refine void_spec (Q := s.Does a _) (pushbufDel_spec.mono fun s' h => ?_)
      obtain ⟨push, hp, hbooks, hfresh, hsize⟩ := h
      exact .inr (.inr ⟨p, push, rfl, hp, hfresh, hsize, hbooks⟩)
  | rsvdKick p k => exact void_spec (Q := s.Does a _) (getPush_spec.bind fun push hp =>
      .pure (.inl (Client.Quiet.moves ⟨books_setPush_self hp rfl, rfl, rfl⟩)))
  | bufctx p c =>
      refine void_spec (Q := s.Does a _) (getPush_spec.bind fun push hp => .pure (.inr (.inl ⟨le_rfl, fun _ _ => rfl, ?_⟩)))
      rw [books_setPush]
      exact .attach (books_book hp)
  | space p dwords relocs pushes => cases hplain
  | write p d => exact void_spec (Q := s.Does a _) (emit_quiet.mono fun _ h => .inl h.moves)
  | data p b offset length => exact void_spec (Q := s.Does a _) (pushbufData_quiet.mono fun _ h => .inl h.moves)
  | refn p refs => cases hplain
  | reloc p b d flags vor tor => exact void_spec (Q := s.Does a _) (pushbufReloc_quiet.mono fun _ h => .inl h.moves)
  | validate p => cases hplain
  | kick p isFifo => cases hplain
  | ctxNew => exact .ok (.inr (.inl ⟨le_rfl, fun _ _ => rfl, .newCtx⟩))
  | ctxReset c bin =>
      refine void_spec (Q := s.Does a _) (getCtx_spec.bind fun ctx hctx => .pure (.inr (.inl (ctx_did hctx rfl rfl ?_))))
      exact fun bref h => List.mem_of_mem_filter h
  | ctxRefn c bin b flags =>
      exact void_spec (Q := s.Does a _) (getCtx_spec.bind fun ctx hctx => .pure (.inr (.inl (ctx_did hctx rfl rfl fun _ h => h))))
  | ctxMthd c bin packet b d flags vor tor =>
      exact void_spec (Q := s.Does a _) (getCtx_spec.bind fun ctx hctx => .pure (.inr (.inl (ctx_did hctx rfl rfl fun _ h => h))))

theorem Op.run_does {op : Op} {n : Nat} : Ensures (op.run n s) fun r => s.Does .all op r.2 := by
  cases op with
  | boMap b => exact (Call.run_tame n _ _).mono fun _ h => .inl h
  | space p dwords relocs pushes => exact (Call.run_tame n _ _).mono fun _ h => .inl h
  | refn p refs => exact (pushbufRefn_moves).mono fun _ h => .inl h
  | validate p => exact (Call.run_tame n _ _).mono fun _ h => .inl h
  | kick p isFifo => exact (pushbufKick_moves).mono fun _ h => .inl h
  | _ => exact Op.run_plain rfl

end Moves

end LibDrm.Nouveau.Push
