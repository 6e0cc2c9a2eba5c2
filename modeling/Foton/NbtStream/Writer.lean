import Foton.Lib.BoundedWrite
import Foton.Lib.KeyedSort
import Foton.Lib.Wire
import Foton.Snbt.Tag
import Mathlib.Data.List.Lex

/-!
# Bounded NBT output

Tags are written over a sink with a byte budget. A writer for a finite budget
sorts the entries of each compound and refuses duplicate keys and malformed
strings; the writer for an unlimited one keeps the stored order.
-/

namespace Foton.NbtStream

open BoundedWrite KeyedSort

def usizeMax : Nat := 2 ^ 64 - 1

def saturatingAdd (a b : Nat) : Nat := min (a + b) usizeMax

def saturatingMul (a b : Nat) : Nat := min (a * b) usizeMax

/-! ## Tags -/

abbrev Mutf8 := List UInt8

mutual

inductive NbtTag where
  | byte (v : Int8)
  | short (v : Int16)
  | int (v : Int32)
  | long (v : Int64)
  | float (bits : UInt32)
  | double (bits : UInt64)
  | byteArray (v : List UInt8)
  | string (v : Mutf8)
  | list (v : NbtList)
  | compound (v : List (Mutf8 × NbtTag))
  | intArray (v : List Int32)
  | longArray (v : List Int64)

inductive NbtList where
  | empty
  | byte (v : List Int8)
  | short (v : List Int16)
  | int (v : List Int32)
  | long (v : List Int64)
  | float (v : List UInt32)
  | double (v : List UInt64)
  | byteArray (v : List (List UInt8))
  | string (v : List Mutf8)
  | list (v : List NbtList)
  | compound (v : List (List (Mutf8 × NbtTag)))
  | intArray (v : List (List Int32))
  | longArray (v : List (List Int64))

end

abbrev NbtCompound := List (Mutf8 × NbtTag)

def NbtTag.id : NbtTag → UInt8
  | .byte _ => 1
  | .short _ => 2
  | .int _ => 3
  | .long _ => 4
  | .float _ => 5
  | .double _ => 6
  | .byteArray _ => 7
  | .string _ => 8
  | .list _ => 9
  | .compound _ => 10
  | .intArray _ => 11
  | .longArray _ => 12

def NbtList.id : NbtList → UInt8
  | .empty => 0
  | .byte _ => 1
  | .short _ => 2
  | .int _ => 3
  | .long _ => 4
  | .float _ => 5
  | .double _ => 6
  | .byteArray _ => 7
  | .string _ => 8
  | .list _ => 9
  | .compound _ => 10
  | .intArray _ => 11
  | .longArray _ => 12

/-! ## Writers -/

inductive NbtError where
  | budgetExceeded
  | nestingExceeded
  | stringTooLong
  | malformedString
  | arrayTooLong
  | workspaceExceeded
  | duplicateKey
  deriving DecidableEq, Repr

def NbtError.message : NbtError → String
  | .budgetExceeded => "serialization budget exceeded"
  | .nestingExceeded => "NBT nesting exceeds limit"
  | .stringTooLong => "NBT string exceeds u16 length"
  | .malformedString => "Malformed NBT modified UTF-8"
  | .arrayTooLong => "NBT array exceeds i32 length"
  | .workspaceExceeded => "NBT sorting workspace exceeds limit"
  | .duplicateKey => "Duplicate NBT compound key"

abbrev NbtWriter := BoundedWrite NbtError

structure WriterLimits where
  containerLimit : Nat
  canonicalCompounds : Bool
  deriving DecidableEq, Repr

def newLimits (remaining : Nat) : WriterLimits where
  containerLimit := 512
  canonicalCompounds := remaining ≠ usizeMax

def scratchMaximum : Nat := 384 * 1024

/-- The bytes of one reference to an entry. -/
def entrySize : Nat := 24

def write (bytes : List UInt8) : NbtWriter := writeAll .budgetExceeded bytes

def checkDepth (depth : Nat) (next : NbtWriter) : NbtWriter := require .nestingExceeded (depth ≤ 512) next

def validMutf8 : List UInt8 → Bool
  | [] => true
  | first :: rest =>
    if 0x01 ≤ first ∧ first ≤ 0x7f then validMutf8 rest
    else if 0xc0 ≤ first ∧ first ≤ 0xdf then
      match rest with
      | second :: rest =>
        if second &&& 0xc0 ≠ 0x80 ∨ (first < 0xc2 ∧ (first ≠ 0xc0 ∨ second ≠ 0x80)) then false
        else validMutf8 rest
      | _ => false
    else if 0xe0 ≤ first ∧ first ≤ 0xef then
      match rest with
      | second :: third :: rest =>
        if second &&& 0xc0 ≠ 0x80 ∨ third &&& 0xc0 ≠ 0x80 ∨ (first = 0xe0 ∧ second < 0xa0) then false
        else validMutf8 rest
      | _ => false
    else false

def writeString (limits : WriterLimits) (value : Mutf8) : NbtWriter :=
  require .stringTooLong (value.length ≤ 65535) <|
    ensureRemaining .budgetExceeded (2 + value.length) <|
    require .malformedString (!limits.canonicalCompounds || validMutf8 value) <|
    seq (write (toBeBytes 2 value.length)) (write value)

def writeLength (length : Nat) : NbtWriter :=
  require .arrayTooLong (length < 2 ^ 31) (write (toBeBytes 4 length))

def floatBits (bits : UInt32) : UInt32 := if Snbt.isNanF32 bits then 0x7fc00000 else bits

def doubleBits (bits : UInt64) : UInt64 := if Snbt.isNanF64 bits then 0x7ff8000000000000 else bits

def byteBytes (v : Int8) : List UInt8 := toBeBytes 1 v.toUInt8.toNat

def shortBytes (v : Int16) : List UInt8 := toBeBytes 2 v.toUInt16.toNat

def intBytes (v : Int32) : List UInt8 := toBeBytes 4 v.toUInt32.toNat

def longBytes (v : Int64) : List UInt8 := toBeBytes 8 v.toUInt64.toNat

def floatBytes (v : UInt32) : List UInt8 := toBeBytes 4 (floatBits v).toNat

def doubleBytes (v : UInt64) : List UInt8 := toBeBytes 8 (doubleBits v).toNat

def writeNumbers {α : Type} (bytes : α → List UInt8) (v : List α) : NbtWriter :=
  seq (writeLength v.length) (seqAll (v.map fun x => write (bytes x)))

def writeByteArray (v : List UInt8) : NbtWriter := seq (writeLength v.length) (write v)

/-- A length and one writer for each element. -/
def writeElements (elements : List NbtWriter) : NbtWriter := seq (writeLength elements.length) (seqAll elements)

def nameOrder (name : Mutf8) : List Nat := name.map UInt8.toNat

/-- The length of each name counts on the minimum left for the names after it. -/
def checkNames (minimum : Nat) : (names : List Mutf8) → (next : NbtWriter) → NbtWriter
  | [], next => next
  | name :: names, next =>
    ensureRemaining .budgetExceeded (saturatingAdd (saturatingAdd minimum name.length) 4) <|
      require .stringTooLong (name.length ≤ 65535) <|
      checkNames (saturatingAdd (saturatingAdd minimum name.length) 4) names next

def requiredScratch (length : Nat) : Nat := saturatingMul length entrySize

/-- What the sorted index of a compound leaves to its descendants. -/
def scratchWithin (limits : WriterLimits) (scratch length : Nat) : Nat :=
  if limits.canonicalCompounds then scratch - requiredScratch length else scratch

/-- The fields of a compound, each with its name and its own writer. -/
def writeFields (limits : WriterLimits) (scratch depth : Nat) (fields : List (Mutf8 × NbtWriter)) : NbtWriter :=
  require .nestingExceeded (depth < limits.containerLimit) <|
    ensureRemaining .budgetExceeded (saturatingAdd (saturatingMul fields.length 4) 1) <|
    if limits.canonicalCompounds then
      checkNames 1 (fields.map Prod.fst) <|
        require .workspaceExceeded (requiredScratch fields.length ≤ scratch) <|
        require .duplicateKey (!adjacentEqual ((sortByKey nameOrder fields).map Prod.fst)) <|
        seqAll ((sortByKey nameOrder fields).map Prod.snd)
    else seqAll (fields.map Prod.snd)

def writeFieldsAndEnd (limits : WriterLimits) (scratch depth : Nat) (fields : List (Mutf8 × NbtWriter)) : NbtWriter :=
  seq (writeFields limits scratch depth fields) (write [0])

/-- The tag id, the name and the payload of a field. -/
def writeField (limits : WriterLimits) (id : UInt8) (name : Mutf8) (payload : NbtWriter) : NbtWriter :=
  seq (write [id]) (seq (writeString limits name) payload)

def checkListDepth (limits : WriterLimits) (depth : Nat) (id : UInt8) (next : NbtWriter) : NbtWriter :=
  require .nestingExceeded
    (!(limits.containerLimit ≤ depth && (limits.containerLimit = 512 || id = 9 || id = 10))) next

mutual

def writePayload (limits : WriterLimits) (scratch depth : Nat) (tag : NbtTag) : NbtWriter :=
  checkDepth depth <|
    match tag with
    | .byte v => write (byteBytes v)
    | .short v => write (shortBytes v)
    | .int v => write (intBytes v)
    | .long v => write (longBytes v)
    | .float v => write (floatBytes v)
    | .double v => write (doubleBytes v)
    | .string v => writeString limits v
    | .byteArray v => writeByteArray v
    | .intArray v => writeNumbers intBytes v
    | .longArray v => writeNumbers longBytes v
    | .compound v =>
      writeFieldsAndEnd limits scratch depth (fieldWriters limits (scratchWithin limits scratch v.length) depth v)
    | .list v => writeList limits scratch depth v

def writeList (limits : WriterLimits) (scratch depth : Nat) (list : NbtList) : NbtWriter :=
  checkListDepth limits depth list.id <|
    seq (write [list.id]) <|
    match list with
    | .empty => writeLength 0
    | .byte v => writeNumbers byteBytes v
    | .short v => writeNumbers shortBytes v
    | .int v => writeNumbers intBytes v
    | .long v => writeNumbers longBytes v
    | .float v => writeNumbers floatBytes v
    | .double v => writeNumbers doubleBytes v
    | .string v => writeElements (v.map (writeString limits))
    | .compound v => writeElements (compoundWriters limits scratch (depth + 1) v)
    | .list v => writeElements (listWriters limits scratch (depth + 1) v)
    | .byteArray v => writeElements (v.map writeByteArray)
    | .intArray v => writeElements (v.map (writeNumbers intBytes))
    | .longArray v => writeElements (v.map (writeNumbers longBytes))

def fieldWriters (limits : WriterLimits) (scratch depth : Nat) : NbtCompound → List (Mutf8 × NbtWriter)
  | [] => []
  | (name, tag) :: rest =>
    (name, writeField limits tag.id name (writePayload limits scratch (depth + 1) tag)) ::
      fieldWriters limits scratch depth rest

def listWriters (limits : WriterLimits) (scratch depth : Nat) : List NbtList → List NbtWriter
  | [] => []
  | list :: rest => writeList limits scratch depth list :: listWriters limits scratch depth rest

def compoundWriters (limits : WriterLimits) (scratch depth : Nat) : List NbtCompound → List NbtWriter
  | [] => []
  | v :: rest =>
    writeFieldsAndEnd limits scratch depth (fieldWriters limits (scratchWithin limits scratch v.length) depth v) ::
      compoundWriters limits scratch depth rest

end

def writeCompoundFields (limits : WriterLimits) (scratch depth : Nat) (value : NbtCompound) : NbtWriter :=
  writeFields limits scratch depth (fieldWriters limits (scratchWithin limits scratch value.length) depth value)

def writeCompound (limits : WriterLimits) (scratch depth : Nat) (value : NbtCompound) : NbtWriter :=
  seq (writeCompoundFields limits scratch depth value) (write [0])

def writeTag (limits : WriterLimits) (scratch depth : Nat) (tag : NbtTag) : NbtWriter :=
  seq (write [tag.id]) (writePayload limits scratch depth tag)

/-! ## Bounded output -/

/-- A new limited writer runs over the sink. -/
def runLimited (remaining : Nat) (action : (limits : WriterLimits) → (scratch : Nat) → NbtWriter)
    (sink : List UInt8) : Except NbtError Unit × BoundedSink :=
  action (newLimits remaining) scratchMaximum { written := sink, remaining }

def wireSize (tag : NbtTag) (maximum : Nat) : Except NbtError Nat :=
  match runLimited maximum (fun limits scratch => writeTag limits scratch 0 tag) [] with
  | (.error error, _) => .error error
  | (.ok (), writer) => .ok (maximum - writer.remaining)

def writeTagBounded (tag : NbtTag) (maximum : Nat) (sink : List UInt8) : Except NbtError Unit × List UInt8 :=
  match wireSize tag maximum with
  | .error error => (.error error, sink)
  | .ok _ =>
    let (result, writer) := runLimited maximum (fun limits scratch => writeTag limits scratch 0 tag) sink
    (result, writer.written)

def writeCompoundBounded (value : NbtCompound) (maximum : Nat) (sink : List UInt8) :
    Except NbtError Unit × List UInt8 :=
  let checked := runLimited maximum
    (fun limits scratch => seq (write [10]) (writeCompound limits scratch 0 value)) []
  match checked.1 with
  | .error error => (.error error, sink)
  | .ok () =>
    let (result, writer) := runLimited (maximum - 1)
      (fun limits scratch => writeCompound limits scratch 0 value) (sink ++ [10])
    (result, writer.written)

end Foton.NbtStream
