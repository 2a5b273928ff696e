/-
# `LibDrm.Decode.Context` — what the decoders of a batch see, and what they print

A decoder looks at the batch from the first dword of its packet on.  Behind the batch there is a
scratch page, so that most decoders read their packet without asking whether it is all there;
what they read further out is not theirs, and the read fails.

    data i                  ctx->data[i]
    instr_out i fmt args    asks for the line of dword i of the packet
    fprintf fmt args        prints to `out` by itself

Whether `instr_out` prints the line is seen to when the batch is walked (`LibDrm.Decode.Batch`).  A
text is what `printf` is given: the format and its arguments.  `%f` of a dword is the dword.
-/
import LibDrm.Lib.Printer

namespace LibDrm.Decode

/-- What the macros of `intel_chipset.h` answer for a device id. -/
structure Chipset where
  IS_GEN2 : Bool
  IS_GEN3 : Bool
  IS_GEN4 : Bool
  IS_GEN5 : Bool
  IS_GEN6 : Bool
  IS_GEN7 : Bool
  IS_GEN8 : Bool
  deriving DecidableEq, Repr

def Chipset.IS_9XX (devid : Chipset) : Bool :=
  devid.IS_GEN3 || devid.IS_GEN4 || devid.IS_GEN5 || devid.IS_GEN6 || devid.IS_GEN7 || devid.IS_GEN8

/-- The `gen` that `drm_intel_decode_context_alloc` keeps. -/
def Chipset.gen (devid : Chipset) : Nat :=
  if devid.IS_GEN8 then 8
  else if devid.IS_GEN7 then 7
  else if devid.IS_GEN6 then 6
  else if devid.IS_GEN5 then 5
  else if devid.IS_GEN4 then 4
  else if devid.IS_9XX then 3
  else 2

/-! ## Texts -/

/-- An argument of `printf`. -/
inductive Arg
  | word (w : BitVec 32)
  | str (s : String)
  | float (w : BitVec 32)                       -- `int_as_float`
  | quotient (w : BitVec 32) (d : Nat)          -- a dword's field divided as a `double`
  deriving DecidableEq, Repr

instance : Coe (BitVec 32) Arg := ⟨.word⟩

instance : Coe Nat Arg := ⟨fun n => .word (BitVec.ofNat 32 n)⟩

instance : Coe Bool Arg := ⟨fun b => .word (if b then 1 else 0)⟩

instance : Coe String Arg := ⟨.str⟩

structure Text where
  fmt : String
  args : List Arg
  deriving DecidableEq, Repr

/-- `c ? s : ""` -/
def flag (c : Bool) (s : String) : String := if c then s else ""

/-- `d & (1 << n)` as a condition. -/
def bit (d : BitVec 32) (n : Nat) : Bool := d.getLsbD n

/-- `(d >> n) & mask` -/
def bits (d : BitVec 32) (n : Nat) (mask : BitVec 32) : BitVec 32 := (d >>> n) &&& mask

/-- The same, to count or to switch on. -/
def field (d : BitVec 32) (n : Nat) (mask : BitVec 32) : Nat := (bits d n mask).toNat

/-! ## The window -/

/-- The parts of `struct drm_intel_decode` that the decoders of packets read; `data` points into the copy. -/
structure Window where
  devid : Chipset
  copy : List (BitVec 32)
  data : Nat
  count : Nat

/-- `ctx->data[i]`, where it can be read. -/
def Window.word (W : Window) (i : Nat) : BitVec 32 := W.copy.getD (W.data + i) 0

def Window.Readable (W : Window) (i : Nat) : Prop := W.data + i < W.copy.length

instance (W : Window) (i : Nat) : Decidable (W.Readable i) := inferInstanceAs (Decidable (_ < _))

inductive Fault
  | outOfBounds
  /-- A loop that the model bounds went on. -/
  | outOfFuel
  deriving DecidableEq, Repr

/-- What a decoder does beside reading. -/
inductive Action
  | instr (index : Nat) (text : Text)
  | print (text : Text)
  deriving DecidableEq, Repr

abbrev Decoder := Printer Window Fault Action

def ctx : Decoder Window := fun W => .ok (W, [])

def data (i : Nat) : Decoder (BitVec 32) := fun W =>
  if W.Readable i then .ok (W.word i, []) else .error .outOfBounds

def instr_out (index : Nat) (fmt : String) (args : List Arg) : Decoder Unit := .put (.instr index ⟨fmt, args⟩)

def fprintf (fmt : String) (args : List Arg) : Decoder Unit := .put (.print ⟨fmt, args⟩)

/-- `if (c) p` -/
def whenever (c : Prop) [Decidable c] (p : Decoder Unit) : Decoder Unit := if c then p else pure ()

/-- The dwords behind the first, without a text of their own. -/
def dwords (len : Nat) : Decoder Unit :=
  (List.range' 1 (len - 1)).forM fun i => instr_out i "dword %d\n" [i]

/-! ## What the reads ask of the window -/

section Rules

variable {α : Type} {W : Window} {Q : α → List Action → Prop}

theorem ctx_iff {Q : Window → List Action → Prop} : Prints W ctx Q ↔ Q W [] :=
  ⟨fun ⟨_, hx, hQ⟩ => by cases hx; exact hQ, fun h => Prints.of_eq rfl h⟩

theorem data_iff {i : Nat} {Q : BitVec 32 → List Action → Prop} :
    Prints W (data i) Q ↔ W.Readable i ∧ Q (W.word i) [] := by
  by_cases h : W.Readable i
  · have hdata : data i W = .ok (W.word i, []) := if_pos h
    constructor
    · rintro ⟨x, hx, hQ⟩
      rw [hdata] at hx
      cases hx
      exact ⟨h, hQ⟩
    · exact fun hQ => Prints.of_eq hdata hQ.2
  · have hdata : data i W = .error .outOfBounds := if_neg h
    constructor
    · rintro ⟨x, hx, -⟩
      rw [hdata] at hx
      cases hx
    · exact fun hQ => absurd hQ.1 h

theorem instr_out_iff {index : Nat} {fmt : String} {args : List Arg} {Q : Unit → List Action → Prop} :
    Prints W (instr_out index fmt args) Q ↔ Q () [.instr index ⟨fmt, args⟩] := Prints.put_iff

theorem fprintf_iff {fmt : String} {args : List Arg} {Q : Unit → List Action → Prop} :
    Prints W (fprintf fmt args) Q ↔ Q () [.print ⟨fmt, args⟩] := Prints.put_iff

theorem whenever_iff {c : Prop} [Decidable c] {p : Decoder Unit} {Q : Unit → List Action → Prop} :
    Prints W (whenever c p) Q ↔ (c → Prints W p Q) ∧ (¬ c → Q () []) := by
  unfold whenever
  rw [Prints.ite_iff, Prints.pure_iff]

theorem dwords_any (len : Nat) : Prints W (dwords len) fun _ _ => True :=
  Prints.forM fun _ _ => (instr_out_iff).mpr trivial

end Rules

/-- There is a packet, and behind what is left of the batch there is the scratch page. -/
structure Window.Paged (W : Window) : Prop where
  pos : 0 < W.count
  page : W.data + W.count + 1024 ≤ W.copy.length

/-- Up to the end of the page at least. -/
theorem Window.Paged.readable {W : Window} (h : W.Paged) {i : Nat} (hi : i < W.count + 1024) : W.Readable i := by
  have := h.page
  unfold Window.Readable
  omega

end LibDrm.Decode
