/-
# `LibDrm.Lib.Bytes` — little-endian words, and reading a file front to back

    bytes32 x     the four bytes of a 32-bit word, lowest first
    word32 bs     the word that four bytes make
    Input         a file open for reading: how far it has been read, and what is left
    fread n f     the next n bytes, if the file holds that many

`fread` follows the C function with a single element of `n` bytes: an element of
no bytes is never read.
-/
import Mathlib.Data.List.Basic

/-- The bytes of a word, lowest first. -/
def bytes32 (x : UInt32) : List UInt8 :=
  [x.toUInt8, (x >>> 8).toUInt8, (x >>> 16).toUInt8, (x >>> 24).toUInt8]

/-- The word that the bytes make, lowest first. -/
def word32 : List UInt8 → UInt32
  | [] => 0
  | b :: bs => b.toUInt32 + word32 bs * 256

@[simp] theorem bytes32_length (x : UInt32) : (bytes32 x).length = 4 := rfl

@[simp] theorem word32_bytes32 (x : UInt32) : word32 (bytes32 x) = x := by
  apply UInt32.toNat_inj.mp
  have hx : x.toNat < 2 ^ 32 := x.toNat_lt
  simp only [bytes32, word32, UInt32.toNat_add, UInt32.toNat_mul, UInt8.toNat_toUInt32, UInt32.toNat_toUInt8,
    UInt32.toNat_shiftRight, UInt32.toNat_ofNat, Nat.shiftRight_eq_div_pow, Nat.reducePow, Nat.reduceMod]
  omega

/-- A file open for reading. -/
structure Input where
  pos : Nat
  rest : List UInt8
  deriving DecidableEq, Repr

/-- The next `n` bytes as one element, and the file behind them. -/
def fread (n : Nat) (f : Input) : Option (List UInt8 × Input) :=
  if 0 < n ∧ n ≤ f.rest.length then some (f.rest.take n, ⟨f.pos + n, f.rest.drop n⟩) else none

theorem fread_append {n : Nat} {bytes rest : List UInt8} (pos : Nat) (hn : 0 < n) (h : bytes.length = n) :
    fread n ⟨pos, bytes ++ rest⟩ = some (bytes, ⟨pos + n, rest⟩) := by
  subst h
  simp [fread, hn]

/-- A read makes the rest of the file shorter. -/
theorem fread_shorter {n : Nat} {f f' : Input} {bytes : List UInt8} (h : fread n f = some (bytes, f')) :
    f'.rest.length + n = f.rest.length ∧ 0 < n := by
  unfold fread at h
  split at h
  · case isTrue hn =>
      cases h
      simp only [List.length_drop]
      omega
  · cases h
