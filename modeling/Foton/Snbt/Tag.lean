import Mathlib.Data.List.Sort

/-!
# NBT tags

A list of tags is kept as the tags it gives out; the bits of a floating-point
tag are kept as they are. Elements of a list that stand in a compound under the
empty key are wrapped: the semantic values of the list are without the wrapper.
-/

namespace Foton.Snbt

abbrev Text := List Char

inductive NbtTag where
  | byte (value : Int8)
  | short (value : Int16)
  | int (value : Int32)
  | long (value : Int64)
  | float (bits : UInt32)
  | double (bits : UInt64)
  | byteArray (values : List UInt8)
  | string (value : Text)
  | list (values : List NbtTag)
  | compound (entries : List (Text × NbtTag))
  | intArray (values : List Int32)
  | longArray (values : List Int64)

namespace NbtTag

def id : NbtTag → Nat
  | byte _ => 1
  | short _ => 2
  | int _ => 3
  | long _ => 4
  | float _ => 5
  | double _ => 6
  | byteArray _ => 7
  | string _ => 8
  | list _ => 9
  | compound _ => 10
  | intArray _ => 11
  | longArray _ => 12

end NbtTag

/-! ## Lists -/

def unwrapListWrapper : NbtTag → NbtTag
  | .compound [([], value)] => value
  | tag => tag

def nbtListValues (values : List NbtTag) : List NbtTag := values.map unwrapListWrapper

/-- The compound that a tag becomes. -/
def wrapTag (tag : NbtTag) : NbtTag := .compound [([], tag)]

def listFromTags (tags : List NbtTag) : List NbtTag :=
  match tags with
  | [] => []
  | first :: _ =>
    if tags.any fun tag => tag.id ≠ first.id then tags.map wrapTag
    else tags

/-! ## Equality -/

def isNanF32 (bits : UInt32) : Bool := 0x7f800000 < bits &&& 0x7fffffff

def isNanF64 (bits : UInt64) : Bool := 0x7ff0000000000000 < bits &&& 0x7fffffffffffffff

def floatTagsEqual (left right : UInt32) : Bool := isNanF32 left && isNanF32 right || left = right

def doubleTagsEqual (left right : UInt64) : Bool := isNanF64 left && isNanF64 right || left = right

mutual

def nbtTagsEqual : NbtTag → NbtTag → Bool
  | .byte left, .byte right => left = right
  | .short left, .short right => left = right
  | .int left, .int right => left = right
  | .long left, .long right => left = right
  | .float left, .float right => floatTagsEqual left right
  | .double left, .double right => doubleTagsEqual left right
  | .byteArray left, .byteArray right => left = right
  | .string left, .string right => left = right
  | .list left, .list right => left.length = right.length && nbtValuesEqual left (nbtListValues right)
  | .compound left, .compound right => left.length = right.length && nbtEntriesFound left right
  | .intArray left, .intArray right => left = right
  | .longArray left, .longArray right => left = right
  | _, _ => false

/-- The semantic values of a list against the values of another, one by one. -/
def nbtValuesEqual : List NbtTag → List NbtTag → Bool
  | [], _ => true
  | _ :: _, [] => true
  | .compound [([], left)] :: rest, right :: others => nbtTagsEqual left right && nbtValuesEqual rest others
  | left :: rest, right :: others => nbtTagsEqual left right && nbtValuesEqual rest others

/-- The values of a compound against those that another has under the same keys. -/
def nbtEntriesFound : List (Text × NbtTag) → List (Text × NbtTag) → Bool
  | [], _ => true
  | (key, left) :: rest, right =>
    (match right.lookup key with
      | some value => nbtTagsEqual left value
      | none => false) && nbtEntriesFound rest right

end

theorem nbtValuesEqual_iff (left right : List NbtTag) :
    nbtValuesEqual left right = true ↔ ∀ p ∈ (nbtListValues left).zip right, nbtTagsEqual p.1 p.2 = true := by
  induction left generalizing right with
  | nil => simp [nbtValuesEqual, nbtListValues]
  | cons tag rest ih =>
    cases right with
    | nil => simp [nbtValuesEqual]
    | cons other others =>
      rw [nbtValuesEqual.eq_def]
      split <;> simp_all [nbtListValues, unwrapListWrapper]

theorem nbtEntriesFound_iff (left right : List (Text × NbtTag)) :
    nbtEntriesFound left right = true ↔
      ∀ e ∈ left, ∃ value, right.lookup e.1 = some value ∧ nbtTagsEqual e.2 value = true := by
  induction left with
  | nil => simp [nbtEntriesFound]
  | cons e rest ih =>
    obtain ⟨key, tag⟩ := e
    simp only [nbtEntriesFound, Bool.and_eq_true, ih, List.forall_mem_cons]
    cases right.lookup key <;> simp

end Foton.Snbt
