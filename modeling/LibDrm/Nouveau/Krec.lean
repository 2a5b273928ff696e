/-
# `LibDrm.Nouveau.Krec` — what a push buffer collects for the kernel

A kernel record lists the buffers that a command stream refers to, the relocations in it, and its
segments.  It counts what the buffers take:

    vram_used   the buffers that can only be in VRAM
    gart_used   all others

When the room in GART runs out, a buffer that could be in both is turned into a VRAM buffer, and as
a last resort so are buffers that are in the record already.

What a failed reference takes back is not taken from the counters; how much that was since the
last flush is kept beside them (`lostVram`, `lostGart`: no data of the source).
-/
import LibDrm.Lib.Arith
import LibDrm.Lib.Returns
import Mathlib.Data.BitVec

namespace LibDrm.Nouveau.Push

abbrev Word := BitVec 32

abbrev Size := BitVec 64

/-- A buffer is known by its GEM handle. -/
abbrev BoId := Nat

def NOUVEAU_GEM_MAX_BUFFERS : Nat := 1024
def NOUVEAU_GEM_MAX_RELOCS : Nat := 1024
def NOUVEAU_GEM_MAX_PUSH : Nat := 512

def NOUVEAU_GEM_RELOC_LOW : Word := 1
def NOUVEAU_GEM_RELOC_HIGH : Word := 2
def NOUVEAU_GEM_RELOC_OR : Word := 4

def NOUVEAU_BO_VRAM : Word := 0x00000001
def NOUVEAU_BO_GART : Word := 0x00000002
def NOUVEAU_BO_RD : Word := 0x00000100
def NOUVEAU_BO_WR : Word := 0x00000200
def NOUVEAU_BO_LOW : Word := 0x00001000
def NOUVEAU_BO_HIGH : Word := 0x00002000
def NOUVEAU_BO_OR : Word := 0x00004000

/-- A set of `NOUVEAU_GEM_DOMAIN_VRAM` and `NOUVEAU_GEM_DOMAIN_GART`. -/
structure Domains where
  vram : Bool
  gart : Bool
  deriving DecidableEq, Repr

namespace Domains

def vramOnly : Domains := ⟨true, false⟩

def empty : Domains := ⟨false, false⟩

def inter (a c : Domains) : Domains := ⟨a.vram && c.vram, a.gart && c.gart⟩

def union (a c : Domains) : Domains := ⟨a.vram || c.vram, a.gart || c.gart⟩

/-- The domains that the flags of a reference name. -/
def ofFlags (flags : Word) : Domains := ⟨flags &&& NOUVEAU_BO_VRAM ≠ 0, flags &&& NOUVEAU_BO_GART ≠ 0⟩

/-- The same, if one of the flags `access` is there. -/
def ofAccess (access flags : Word) : Domains := if flags &&& access ≠ 0 then ofFlags flags else empty

end Domains

/-- `struct drm_nouveau_gem_pushbuf_bo`; `offset` and `domain` are where the buffer is presumed to be. -/
structure Kref where
  bo : BoId
  valid : Domains
  write : Domains
  read : Domains
  offset : Size := 0
  domain : Domains := .empty
  deriving DecidableEq, Repr

/-- `struct drm_nouveau_gem_pushbuf_reloc`. -/
structure Krel where
  relocBo : Option Nat
  relocBoOffset : Nat
  bo : Option Nat
  flags : Word
  data : Word
  vor : Word
  tor : Word
  deriving DecidableEq, Repr

/-- `struct drm_nouveau_gem_pushbuf_push`; the index is that of a buffer of the record. -/
structure Kpush where
  bo : Option Nat
  offset : Nat
  length : Nat
  deriving DecidableEq, Repr

/-- `struct nouveau_pushbuf_krec`; `nr_buffer`, `nr_reloc` and `nr_push` are the lengths. -/
structure Krec where
  buffer : List Kref := []
  reloc : List Krel := []
  push : List Kpush := []
  vramUsed : Size := 0
  gartUsed : Size := 0
  lostVram : Size := 0
  lostGart : Size := 0

namespace Krec

/-- The sum of the sizes of some entries. -/
def total (size : BoId → Size) (p : Domains → Bool) (l : List Kref) : Size :=
  ((l.filter fun k => p k.valid).map fun k => size k.bo).sum

def isVram (d : Domains) : Bool := d = .vramOnly

/-- The last resort of `pushbuf_kref_fits`: entries are moved to VRAM until there is room. -/
def scan (size : BoId → Size) (vramLimit gartLimit need : Size) : List Kref → Size → Size →
    Bool × List Kref × Size × Size
  | [], vram, gart => (false, [], vram, gart)
  | k :: l, vram, gart =>
      if ¬ k.valid.gart ∨ ¬ k.valid.vram ∨ vram + size k.bo > vramLimit then
        let (found, l, vram, gart) := scan size vramLimit gartLimit need l vram gart
        (found, k :: l, vram, gart)
      else
        let k := { k with valid := .vramOnly }
        let vram := vram + size k.bo
        let gart := gart - size k.bo
        if gart + need ≤ gartLimit then (true, k :: l, vram, gart + need)
        else
          let (found, l, vram, gart) := scan size vramLimit gartLimit need l vram gart
          (found, k :: l, vram, gart)

/-- `pushbuf_kref_fits`: the domains of the buffer, if it fits. -/
def krefFits (size : BoId → Size) (vramLimit gartLimit need : Size) (domains : Domains) (krec : Krec) :
    Option Domains × Krec :=
  -- VRAM is the only valid domain
  if domains = .vramOnly then
    if krec.vramUsed + need > vramLimit then (none, krec)
    else (some domains, { krec with vramUsed := krec.vramUsed + need })
  else if krec.gartUsed + need ≤ gartLimit then (some domains, { krec with gartUsed := krec.gartUsed + need })
  else if domains.vram ∧ krec.vramUsed + need ≤ vramLimit then
    (some .vramOnly, { krec with vramUsed := krec.vramUsed + need })
  else
    let (found, buffer, vramUsed, gartUsed) := scan size vramLimit gartLimit need krec.buffer krec.vramUsed krec.gartUsed
    (if found then some domains else none, { krec with buffer, vramUsed, gartUsed })

/-- What `pushbuf_refn_fail` does to the record: the entries from `sref` on are dropped. -/
def drop (size : BoId → Size) (sref srel : Nat) (krec : Krec) : Krec :=
  { krec with
    buffer := krec.buffer.take sref
    reloc := krec.reloc.take srel
    lostVram := krec.lostVram + total size isVram (krec.buffer.drop sref)
    lostGart := krec.lostGart + total size (fun d => !isVram d) (krec.buffer.drop sref) }

end Krec

end LibDrm.Nouveau.Push
