/-
# `LibDrm.Mode.Queries` — asking the kernel for lists

`drmModeGetResources` and its four siblings ask the kernel twice: once for the counts, with room for
nothing, and once more with room for as many entries as there were.  If there are more by then, all is
freed and asked for again.  What was filled is then copied into the result.

    function                      counts                                  arrays (bytes for an entry)
    drmModeGetResources           fbs, crtcs, connectors, encoders        one for each (4)
    drmModeGetConnector           props, modes, encoders                  props (4), prop_values (8), modes (68), encoders (4)
    drmModeGetPlane               format_types                            format_types (4)
    drmModeGetPlaneResources      planes                                  planes (4)
    drmModeObjectGetProperties    props                                   props (4), prop_values (8)

They are one program over a `Query`.  A call of the kernel reports all its counts; it fills an array if
the count that it was given is not smaller than the actual one.  `drmMalloc` takes an `int`: the number
of bytes is cut off at 32 bits.
-/
import LibDrm.Lib.Heap
import LibDrm.Lib.Returns

namespace LibDrm.Mode.Queries

abbrev Word := BitVec 32

inductive Counter where
  | fbs
  | crtcs
  | connectors
  | encoders
  | props
  | modes
  | format_types
  | planes
  deriving DecidableEq, Repr

inductive Column where
  | fbs
  | crtcs
  | connectors
  | encoders
  | props
  | prop_values
  | modes
  | format_types
  | planes
  deriving DecidableEq, Repr

/-- An array of a query: the count that it has, and the size of an entry. -/
structure Field where
  column : Column
  count : Counter
  entry : Nat
  deriving DecidableEq, Repr

/-- What a query asks for: its arrays, the other values of the result from those of the kernel, and the size of the
    result. -/
structure Query where
  arrays : List Field
  scalars : List Word → List Word
  self : Nat

/-- A state of the kernel, as far as a query asks for it: every array has as many entries as its count says. -/
structure Kernel (q : Query) where
  scalars : List Word
  count : Counter → Word
  content : Column → List Nat
  full : ∀ f ∈ q.arrays, (content f.column).length = (count f.count).toNat

/-- An `ioctl` that fails, or the state of the kernel that it sees. -/
abbrev Reply (q : Query) := Option (Kernel q)

/-! ## Memory -/

/-- A block of `size` bytes; entries that were not written are 0. -/
structure Block where
  size : Nat
  data : List Nat := []
  deriving DecidableEq, Repr

/-- The heap, and whether the coming allocations succeed. -/
structure State where
  heap : Heap Block
  allocs : List Bool := []

/-- `doubleFree` and `overflow` are errors of the program; with `waiting` it has not come to an end when the kernel
    has no more replies. -/
inductive Fault where
  | doubleFree
  | overflow
  | waiting
  deriving DecidableEq, Repr

abbrev Addr := Nat

/-- The value of a parameter of type `int`. -/
def toInt (n : Nat) : Int := (BitVec.ofNat 32 n).toInt

/-- A negative size is a very large one to `malloc`. -/
def drmMalloc (size : Int) (s : State) : Addr × State :=
  let succeeds := s.allocs.headD true
  let s := { s with allocs := s.allocs.tail }
  if size < 0 ∨ succeeds = false then (0, s)
  else
    let (p, heap) := s.heap.alloc ⟨size.toNat, []⟩
    (p, { s with heap := heap })

def drmFree (p : Addr) (s : State) : Except Fault State :=
  if p = 0 then .ok s
  else
    match s.heap.free p with
    | none => .error .doubleFree
    | some heap => .ok { s with heap := heap }

def freeAll : List Addr → State → Except Fault State
  | [], s => .ok s
  | p :: ps, s => do
      let s ← drmFree p s
      freeAll ps s

/-- `memcpy` of `count` entries into a new block. -/
def copyEntries (from_ to_ : Addr) (count entry : Nat) (s : State) : Except Fault State :=
  match s.heap.block from_, s.heap.block to_ with
  | some source, some target =>
      if source.size < count * entry ∨ target.size < count * entry then .error .overflow
      else
        .ok { s with heap := s.heap.store to_ { target with data := (List.range count).map (source.data.getD · 0) } }
  | _, _ => .error .overflow

/-- The count and the product are of type `int`, too. -/
def drmAllocCpy (array : Addr) (count : Word) (entry : Nat) (s : State) : Except Fault (Addr × State) :=
  if count = 0 ∨ array = 0 ∨ entry = 0 then .ok (0, s)
  else
    let (r, s) := drmMalloc (toInt (count.toNat * entry)) s
    if r = 0 then .ok (0, s)
    else do
      let s ← copyEntries array r count.toInt.toNat entry s
      return (r, s)

/-! ## A query -/

/-- The result: its own block, and the blocks of its arrays. -/
structure Answer where
  self : Addr
  scalars : List Word
  count : Counter → Word
  arrays : List Addr

/-- Room for every array, as far as there is something to be had; all that was allocated, and whether there is
    enough. -/
def allocAll (count : Counter → Word) : List Field → State → List Addr × Bool × State
  | [], s => ([], true, s)
  | f :: fs, s =>
      if count f.count = 0 then
        let (ps, enough, s) := allocAll count fs s
        (0 :: ps, enough, s)
      else
        let (p, s) := drmMalloc (toInt ((count f.count).toNat * f.entry)) s
        if p = 0 then (0 :: fs.map fun _ => 0, false, s)
        else
          let (ps, enough, s) := allocAll count fs s
          (p :: ps, enough, s)

/-- The kernel writes an array, if it was given a count that is not too small. -/
def fill {q : Query} (given : Counter → Word) (k : Kernel q) (f : Field) (p : Addr) (s : State) : Except Fault State :=
  if k.count f.count = 0 ∨ given f.count < k.count f.count then .ok s
  else
    match s.heap.block p with
    | none => .error .overflow
    | some block =>
        if block.size < (k.count f.count).toNat * f.entry then .error .overflow
        else .ok { s with heap := s.heap.store p { block with data := k.content f.column } }

def fillAll {q : Query} (given : Counter → Word) (k : Kernel q) : List Field → List Addr → State → Except Fault State
  | f :: fs, p :: ps, s => do
      let s ← fill given k f p s
      fillAll given k fs ps s
  | _, _, s => .ok s

def copyAll (count : Counter → Word) : List Field → List Addr → State → Except Fault (List Addr × State)
  | f :: fs, p :: ps, s => do
      let (c, s) ← drmAllocCpy p (count f.count) f.entry s
      let (cs, s) ← copyAll count fs ps s
      return (c :: cs, s)
  | _, _, s => .ok ([], s)

/-- A copy that is missing. -/
def missing (count : Counter → Word) (fs : List Field) (copies : List Addr) : Bool :=
  (fs.zip copies).any fun (f, c) => count f.count ≠ 0 ∧ c = 0

/-- The result, from what the second call has filled. -/
def answer (q : Query) (k : Kernel q) (temps : List Addr) (s : State) : Except Fault (Option Answer × State) := do
  let (r, s) := drmMalloc (toInt q.self) s
  if r = 0 then
    let s ← freeAll temps s
    return (none, s)
  else
    let (copies, s) ← copyAll k.count q.arrays temps s
    if missing k.count q.arrays copies then
      let s ← freeAll copies s
      let s ← drmFree r s
      let s ← freeAll temps s
      return (none, s)
    else
      let s ← freeAll temps s
      return (some ⟨r, q.scalars k.scalars, k.count, copies⟩, s)

/-- Some array has grown since its count was asked for. -/
def grown (q : Query) (given count : Counter → Word) : Bool := q.arrays.any fun f => given f.count < count f.count

def get (q : Query) : List (Reply q) → State → Except Fault (Option Answer × State)
  | none :: _, s => .ok (none, s)
  | some counts :: rest, s => do
      let (temps, enough, s) := allocAll counts.count q.arrays s
      if enough = false then
        let s ← freeAll temps s
        return (none, s)
      else
        match rest with
        | [] => .error .waiting
        | none :: _ =>
            let s ← freeAll temps s
            return (none, s)
        | some k :: rest =>
            let s ← fillAll counts.count k q.arrays temps s
            if grown q counts.count k.count then
              let s ← freeAll temps s
              get q rest s
            else answer q k temps s
  | [], _ => .error .waiting

/-! ## The five functions -/

/-- `min_width`, `max_width`, `min_height` and `max_height` are taken over. -/
def resources : Query where
  arrays := [⟨.fbs, .fbs, 4⟩, ⟨.crtcs, .crtcs, 4⟩, ⟨.connectors, .connectors, 4⟩, ⟨.encoders, .encoders, 4⟩]
  scalars := id
  self := 80

/-- The kernel has `encoder_id`, `connector_id`, `connector_type`, `connector_type_id`, `connection`, the size and
    `subpixel`, which counts from 0 in the kernel and from 1 in the result. -/
def connector : Query where
  arrays := [⟨.props, .props, 4⟩, ⟨.prop_values, .props, 8⟩, ⟨.modes, .modes, 68⟩, ⟨.encoders, .encoders, 4⟩]
  scalars
    | [encoder_id, connector_id, connector_type, connector_type_id, connection, mm_width, mm_height, subpixel] =>
        [connector_id, encoder_id, connection, mm_width, mm_height, subpixel + 1, connector_type, connector_type_id]
    | _ => []
  self := 88

/-- `plane_id`, `crtc_id`, `fb_id`, `possible_crtcs` and `gamma_size` are taken over. -/
def plane : Query where
  arrays := [⟨.format_types, .format_types, 4⟩]
  scalars := id
  self := 56

def plane_resources : Query where
  arrays := [⟨.planes, .planes, 4⟩]
  scalars _ := []
  self := 16

def object_properties : Query where
  arrays := [⟨.props, .props, 4⟩, ⟨.prop_values, .props, 8⟩]
  scalars _ := []
  self := 24

def drmModeGetResources := get resources

def drmModeGetConnector := get connector

def drmModeGetPlane := get plane

def drmModeGetPlaneResources := get plane_resources

def drmModeObjectGetProperties := get object_properties

end LibDrm.Mode.Queries
