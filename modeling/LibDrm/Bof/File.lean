/-
# `LibDrm.Bof.File` — BOF files: dump, load, release and access

The writer goes through the children by `array_size`.  The reader takes the
three header fields from the file and then uses them in three ways: `size` says
where the children of a node end, `array_size` drives the growth of the child
array, and both stay in the node for later use; how many children were really
read is in `centry`, the length of `array` here.

    bof_file_write, bof_dump_file      the encoding, with every outcome of the file calls
    bof_read, bof_load_file            the decoding
    bof_decref                         the release of a node and of its children
    bof_object_get, bof_array_get, bof_print

`Except Fault` marks what must not happen; an error code is an ordinary result.
-/
import LibDrm.Bof.Tree

namespace LibDrm.Bof

/-! ## Writing -/

/-- How the calls on the output file turn out.  A failed `fwrite` may have got the first bytes out.  What was written
    reaches the file: `fclose` and the flush in it are taken to succeed. -/
structure Disk where
  opens : Bool
  seeks : Bool
  writes : Nat → Option Nat

/-- Nothing fails. -/
def Disk.sound : Disk := ⟨true, true, fun _ => none⟩

/-- A file being written: its bytes, and the number of `fwrite` calls so far. -/
structure Output where
  bytes : List UInt8
  calls : Nat

/-- One element; an element of no bytes is never written. -/
def fwrite (disk : Disk) (bytes : List UInt8) (out : Output) : Int × Output :=
  match disk.writes out.calls with
  | none => (if bytes = [] then 0 else 1, ⟨out.bytes ++ bytes, out.calls + 1⟩)
  | some n => (0, ⟨out.bytes ++ bytes.take (min n (bytes.length - 1)), out.calls + 1⟩)

/-- The three fields; the result is that of the last call made. -/
def writeHeader (disk : Disk) (type size arraySize : UInt32) (out : Output) : Int × Output :=
  let (r, out) := fwrite disk (bytes32 type) out
  if r ≠ 1 then (r, out)
  else
    let (r, out) := fwrite disk (bytes32 size) out
    if r ≠ 1 then (r, out) else fwrite disk (bytes32 arraySize) out

mutual

def bofFileWrite (disk : Disk) : BofT → Output → Except Fault (Int × Output)
  | ⟨type, size, arraySize, _, value, array⟩, out =>
      let (r, out) := writeHeader disk type size arraySize out
      if r ≠ 1 then .ok (-EINVAL, out)
      else
        match kind type with
        | .null => .ok (if size ≠ 0 then -EINVAL else 0, out)
        | .leaf =>
            -- `size - 12` bytes of the payload, by unsigned arithmetic
            if value.length < (size - 12).toNat then .error .outOfPayload
            else
              let (r, out) := fwrite disk (value.take (size - 12).toNat) out
              .ok (if r ≠ 1 then -EINVAL else 0, out)
        | .container => writeEntries disk 0 arraySize.toNat array out
        | .invalid => .ok (-EINVAL, out)

/-- The loop over the entries below `array_size`; `r` is returned when there is none. -/
def writeEntries (disk : Disk) (r : Int) : Nat → List BofT → Output → Except Fault (Int × Output)
  | 0, _, out => .ok (r, out)
  | _ + 1, [], _ => .error .uninitChild
  | n + 1, child :: array, out => do
      let (r, out) ← bofFileWrite disk child out
      if r ≠ 0 then return (r, out) else writeEntries disk r n array out

end

/-- What a dump leaves: its result, the file, and whether `bof->file` is still open. -/
structure Dumped where
  r : Int
  bytes : List UInt8
  isOpen : Bool

def bofDumpFile (disk : Disk) (bof : BofT) : Except Fault Dumped :=
  -- `out_err` closes the file that was not opened
  if !disk.opens then .error .nullFile
  else if !disk.seeks then .ok ⟨-1, [], false⟩
  else
    let (r, out) := writeHeader disk bof.type bof.size bof.arraySize ⟨[], 0⟩
    -- the error path returns what `fwrite` returned
    if r ≠ 1 then .ok ⟨r, out.bytes, false⟩
    else do
      let (r, out) ← writeEntries disk r bof.arraySize.toNat bof.array out
      -- an error inside the loop returns without closing
      if bof.arraySize ≠ 0 ∧ r ≠ 0 then return ⟨r, out.bytes, true⟩ else return ⟨r, out.bytes, false⟩

/-! ## Releasing and using a tree -/

mutual

/-- The release of a node with one reference. -/
def bofDecref : BofT → Except Fault Unit
  | ⟨_, _, arraySize, _, _, array⟩ => decrefEntries arraySize.toNat array

def decrefEntries : Nat → List BofT → Except Fault Unit
  | 0, _ => .ok ()
  | _ + 1, [] => .error .uninitChild
  | n + 1, child :: array => do
      bofDecref child
      decrefEntries n array

end

/-- A printed line: the indentation, and the node as `bof_print_bof` shows it. -/
structure Line where
  level : Nat
  type : UInt32
  size : UInt32
  arraySize : UInt32
  value : List UInt8

mutual

def bofPrintRec : BofT → Nat → Except Fault (List Line)
  | ⟨type, size, arraySize, _, value, array⟩, level => do
      let lines ← printEntries arraySize.toNat array (level + 2)
      return ⟨level, type, size, arraySize, value⟩ :: lines

def printEntries : Nat → List BofT → Nat → Except Fault (List Line)
  | 0, _, _ => .ok []
  | _ + 1, [], _ => .error .uninitChild
  | n + 1, child :: array, level => do
      let first ← bofPrintRec child level
      let rest ← printEntries n array level
      return first ++ rest

end

/-- `bof->array[i]`. -/
def entry (bof : BofT) (i : Nat) : Except Fault BofT :=
  match bof.array[i]? with
  | some child => .ok child
  | none => .error .uninitChild

/-- The header of a record.  When the file ends inside the third field, that field is `junk`. -/
inductive Header
  | cut (arraySize : UInt32)
  | full (type size arraySize : UInt32) (file : Input)

def readHeader (junk : UInt32) (file : Input) : Header :=
  match fread 4 file with
  | none => .cut 0
  | some (type, file) =>
      match fread 4 file with
      | none => .cut 0
      | some (size, file) =>
          match fread 4 file with
          | none => .cut (if file.rest = [] then 0 else junk)
          | some (arraySize, file) => .full (word32 type) (word32 size) (word32 arraySize) file

/-- What `bof_read` returns: 0 with the file behind the children, or `-EINVAL`; and `root` as it has become. -/
inductive Outcome
  | done (root : BofT) (file : Input)
  | einval (root : BofT)

/-- `root->array[root->centry++] = bof`. -/
def storeEntry (root bof : BofT) : Except Fault BofT := store root root.array.length bof

/-- The body of `bof_read`: the children of `root` up to the offset `stop`.  `again` is the function itself. -/
def bofReadBody (junk : UInt32) (again : BofT → Input → Nat → Except Fault Outcome) (root : BofT) (file : Input)
    (stop : Nat) : Except Fault Outcome :=
  if stop ≤ file.pos then .ok (.done root file)
  else do
    let root ← bofEntryGrow root
    match readHeader junk file with
    | .cut arraySize =>
        bofDecref { bofObject with arraySize }
        return .einval root
    | .full type size arraySize file' =>
        let bof := { bofObject with type, size, arraySize }
        match kind type with
        | .leaf =>
            if size < 12 then .error .negativeSize
            else
              match fread (size.toNat - 12) file' with
              | none => do
                  bofDecref bof
                  return .einval root
              | some (value, file'') => do
                  let root ← storeEntry root { bof with value }
                  again root file'' stop
        -- a null record ends the children without being stored
        | .null => return .done root file'
        | .container => do
            match ← again bof file' (file.pos + size.toNat) with
            | .einval bof =>
                bofDecref bof
                return .einval root
            | .done bof file'' =>
                let root ← storeEntry root bof
                again root file'' stop
        | .invalid => do
            bofDecref bof
            return .einval root

/-- `fuel` bounds the depth of the recursion. -/
def bofRead (junk : UInt32) : Nat → BofT → Input → Nat → Except Fault Outcome
  | 0 => fun _ _ _ => .error .outOfFuel
  | fuel + 1 => bofReadBody junk (bofRead junk fuel)

/-- The type of the root is not looked at. -/
def bofLoadFile (junk : UInt32) (bytes : List UInt8) : Except Fault (Option BofT) :=
  match readHeader junk ⟨0, bytes⟩ with
  | .cut arraySize => do
      bofDecref { bofObject with arraySize }
      return none
  | .full type size arraySize file => do
      match ← bofRead junk (bytes.length + 1) { bofObject with type, size, arraySize } file size.toNat with
      | .einval root =>
          bofDecref root
          return none
      | .done root _ => return some root

end LibDrm.Bof
