import Foton.NbtStream.Writer

/-!
# What a writer accepts and writes

The bytes of a tag, and the tags that a writer accepts at a depth with a sorting
workspace. A writer writes all the bytes of an accepted tag if the budget covers
them, and fails otherwise.
-/

namespace Foton.NbtStream

open BoundedWrite KeyedSort

/-! ## Induction -/

def NbtTag.IsLeaf : NbtTag → Prop
  | .list _ => False
  | .compound _ => False
  | _ => True

def NbtList.IsLeaf : NbtList → Prop
  | .list _ => False
  | .compound _ => False
  | _ => True

/-- What an induction over tags and lists has to show. -/
structure NbtInduction (P : NbtTag → Prop) (Q : NbtList → Prop) : Prop where
  leaf : ∀ tag : NbtTag, tag.IsLeaf → P tag
  list : ∀ v, Q v → P (.list v)
  compound : ∀ v : NbtCompound, (∀ e ∈ v, P e.2) → P (.compound v)
  leafList : ∀ list : NbtList, list.IsLeaf → Q list
  lists : ∀ v : List NbtList, (∀ x ∈ v, Q x) → Q (.list v)
  compounds : ∀ v : List NbtCompound, (∀ x ∈ v, ∀ e ∈ x, P e.2) → Q (.compound v)

section
variable {P : NbtTag → Prop} {Q : NbtList → Prop}

mutual

theorem NbtInduction.tag (h : NbtInduction P Q) : ∀ tag, P tag
  | .list v => h.list v (h.listHolds v)
  | .compound v => h.compound v (h.entries v)
  | .byte v => h.leaf (.byte v) trivial
  | .short v => h.leaf (.short v) trivial
  | .int v => h.leaf (.int v) trivial
  | .long v => h.leaf (.long v) trivial
  | .float v => h.leaf (.float v) trivial
  | .double v => h.leaf (.double v) trivial
  | .byteArray v => h.leaf (.byteArray v) trivial
  | .string v => h.leaf (.string v) trivial
  | .intArray v => h.leaf (.intArray v) trivial
  | .longArray v => h.leaf (.longArray v) trivial

theorem NbtInduction.listHolds (h : NbtInduction P Q) : ∀ list, Q list
  | .list v => h.lists v (h.listElements v)
  | .compound v => h.compounds v (h.compoundElements v)
  | .empty => h.leafList .empty trivial
  | .byte v => h.leafList (.byte v) trivial
  | .short v => h.leafList (.short v) trivial
  | .int v => h.leafList (.int v) trivial
  | .long v => h.leafList (.long v) trivial
  | .float v => h.leafList (.float v) trivial
  | .double v => h.leafList (.double v) trivial
  | .byteArray v => h.leafList (.byteArray v) trivial
  | .string v => h.leafList (.string v) trivial
  | .intArray v => h.leafList (.intArray v) trivial
  | .longArray v => h.leafList (.longArray v) trivial

theorem NbtInduction.entries (h : NbtInduction P Q) : ∀ v : NbtCompound, ∀ e ∈ v, P e.2
  | [], _, he => absurd he List.not_mem_nil
  | (name, tag) :: rest, e, he => by
    have htag := h.tag tag
    have hrest := h.entries rest
    rcases List.mem_cons.mp he with heq | he
    · rw [heq]
      exact htag
    · exact hrest e he

theorem NbtInduction.listElements (h : NbtInduction P Q) : ∀ v : List NbtList, ∀ x ∈ v, Q x
  | [], _, hx => absurd hx List.not_mem_nil
  | list :: rest, x, hx => by
    have hlist := h.listHolds list
    have hrest := h.listElements rest
    rcases List.mem_cons.mp hx with heq | hx
    · rw [heq]
      exact hlist
    · exact hrest x hx

theorem NbtInduction.compoundElements (h : NbtInduction P Q) : ∀ v : List NbtCompound, ∀ x ∈ v, ∀ e ∈ x, P e.2
  | [], _, hx => absurd hx List.not_mem_nil
  | entries :: rest, x, hx => by
    have hentries := h.entries entries
    have hrest := h.compoundElements rest
    rcases List.mem_cons.mp hx with heq | hx
    · rw [heq]
      exact hentries
    · exact hrest x hx

end

end

/-! ## Bytes -/

def stringBytes (v : Mutf8) : List UInt8 := toBeBytes 2 v.length ++ v

def lengthBytes (length : Nat) : List UInt8 := toBeBytes 4 length

def byteArrayBytes (v : List UInt8) : List UInt8 := lengthBytes v.length ++ v

def elementsBytes (elements : List (List UInt8)) : List UInt8 := lengthBytes elements.length ++ elements.flatten

def numbersBytes {α : Type} (bytes : α → List UInt8) (v : List α) : List UInt8 := elementsBytes (v.map bytes)

/-- The bytes of each field follow its name, and the end tag follows all. -/
def compoundBytes (canonical : Bool) (fields : List (Mutf8 × List UInt8)) : List UInt8 :=
  ((if canonical then sortByKey nameOrder fields else fields).map Prod.snd).flatten ++ [0]

mutual

def payloadBytes (canonical : Bool) : NbtTag → List UInt8
  | .byte v => byteBytes v
  | .short v => shortBytes v
  | .int v => intBytes v
  | .long v => longBytes v
  | .float v => floatBytes v
  | .double v => doubleBytes v
  | .string v => stringBytes v
  | .byteArray v => byteArrayBytes v
  | .intArray v => numbersBytes intBytes v
  | .longArray v => numbersBytes longBytes v
  | .compound v => compoundBytes canonical (fieldsBytes canonical v)
  | .list v => listBytes canonical v

def listBytes (canonical : Bool) (list : NbtList) : List UInt8 :=
  list.id ::
    match list with
    | .empty => lengthBytes 0
    | .byte v => numbersBytes byteBytes v
    | .short v => numbersBytes shortBytes v
    | .int v => numbersBytes intBytes v
    | .long v => numbersBytes longBytes v
    | .float v => numbersBytes floatBytes v
    | .double v => numbersBytes doubleBytes v
    | .string v => elementsBytes (v.map stringBytes)
    | .compound v => elementsBytes (compoundsBytes canonical v)
    | .list v => elementsBytes (listsBytes canonical v)
    | .byteArray v => elementsBytes (v.map byteArrayBytes)
    | .intArray v => elementsBytes (v.map (numbersBytes intBytes))
    | .longArray v => elementsBytes (v.map (numbersBytes longBytes))

def fieldsBytes (canonical : Bool) : NbtCompound → List (Mutf8 × List UInt8)
  | [] => []
  | (name, tag) :: rest =>
    (name, tag.id :: (stringBytes name ++ payloadBytes canonical tag)) :: fieldsBytes canonical rest

def listsBytes (canonical : Bool) : List NbtList → List (List UInt8)
  | [] => []
  | list :: rest => listBytes canonical list :: listsBytes canonical rest

def compoundsBytes (canonical : Bool) : List NbtCompound → List (List UInt8)
  | [] => []
  | v :: rest => compoundBytes canonical (fieldsBytes canonical v) :: compoundsBytes canonical rest

end

def tagBytes (canonical : Bool) (tag : NbtTag) : List UInt8 := tag.id :: payloadBytes canonical tag

/-! ## Accepted tags -/

def StringFits (limits : WriterLimits) (v : Mutf8) : Prop :=
  v.length ≤ 65535 ∧ (limits.canonicalCompounds = true → validMutf8 v = true)

/-- What a writer asks of a compound itself. -/
def CompoundFits (limits : WriterLimits) (scratch depth : Nat) (names : List Mutf8) : Prop :=
  depth < limits.containerLimit ∧
    (limits.canonicalCompounds = true → requiredScratch names.length ≤ scratch ∧ names.Nodup)

def ListFits (limits : WriterLimits) (depth : Nat) (id : UInt8) : Prop :=
  ¬ (limits.containerLimit ≤ depth ∧ (limits.containerLimit = 512 ∨ id = 9 ∨ id = 10))

mutual

def PayloadAccepted (limits : WriterLimits) (scratch depth : Nat) (tag : NbtTag) : Prop :=
  depth ≤ 512 ∧
    match tag with
    | .string v => StringFits limits v
    | .byteArray v => v.length < 2 ^ 31
    | .intArray v => v.length < 2 ^ 31
    | .longArray v => v.length < 2 ^ 31
    | .compound v =>
      CompoundFits limits scratch depth (v.map Prod.fst) ∧
        FieldsAccepted limits (scratchWithin limits scratch v.length) depth v
    | .list v => ListAccepted limits scratch depth v
    | _ => True

def ListAccepted (limits : WriterLimits) (scratch depth : Nat) (list : NbtList) : Prop :=
  ListFits limits depth list.id ∧
    match list with
    | .empty => True
    | .byte v => v.length < 2 ^ 31
    | .short v => v.length < 2 ^ 31
    | .int v => v.length < 2 ^ 31
    | .long v => v.length < 2 ^ 31
    | .float v => v.length < 2 ^ 31
    | .double v => v.length < 2 ^ 31
    | .string v => v.length < 2 ^ 31 ∧ ∀ x ∈ v, StringFits limits x
    | .compound v => v.length < 2 ^ 31 ∧ CompoundsAccepted limits scratch (depth + 1) v
    | .list v => v.length < 2 ^ 31 ∧ ListsAccepted limits scratch (depth + 1) v
    | .byteArray v => v.length < 2 ^ 31 ∧ ∀ x ∈ v, x.length < 2 ^ 31
    | .intArray v => v.length < 2 ^ 31 ∧ ∀ x ∈ v, x.length < 2 ^ 31
    | .longArray v => v.length < 2 ^ 31 ∧ ∀ x ∈ v, x.length < 2 ^ 31

def FieldsAccepted (limits : WriterLimits) (scratch depth : Nat) : NbtCompound → Prop
  | [] => True
  | (name, tag) :: rest =>
    (StringFits limits name ∧ PayloadAccepted limits scratch (depth + 1) tag) ∧
      FieldsAccepted limits scratch depth rest

def ListsAccepted (limits : WriterLimits) (scratch depth : Nat) : List NbtList → Prop
  | [] => True
  | list :: rest => ListAccepted limits scratch depth list ∧ ListsAccepted limits scratch depth rest

def CompoundsAccepted (limits : WriterLimits) (scratch depth : Nat) : List NbtCompound → Prop
  | [] => True
  | v :: rest =>
    (CompoundFits limits scratch depth (v.map Prod.fst) ∧
        FieldsAccepted limits (scratchWithin limits scratch v.length) depth v) ∧
      CompoundsAccepted limits scratch depth rest

end

def CompoundAccepted (limits : WriterLimits) (scratch depth : Nat) (v : NbtCompound) : Prop :=
  CompoundFits limits scratch depth (v.map Prod.fst) ∧
    FieldsAccepted limits (scratchWithin limits scratch v.length) depth v

def FieldAccepted (limits : WriterLimits) (scratch depth : Nat) (e : Mutf8 × NbtTag) : Prop :=
  StringFits limits e.1 ∧ PayloadAccepted limits scratch (depth + 1) e.2

/-! ## Element by element -/

def fieldWriter (limits : WriterLimits) (scratch depth : Nat) (e : Mutf8 × NbtTag) : NbtWriter :=
  writeField limits e.2.id e.1 (writePayload limits scratch (depth + 1) e.2)

def fieldBytes (canonical : Bool) (e : Mutf8 × NbtTag) : List UInt8 :=
  e.2.id :: (stringBytes e.1 ++ payloadBytes canonical e.2)

variable {limits : WriterLimits} {scratch depth : Nat}

theorem fieldWriters_eq (v : NbtCompound) :
    fieldWriters limits scratch depth v = v.map fun e => (e.1, fieldWriter limits scratch depth e) := by
  induction v with
  | nil => rfl
  | cons e rest ih => rw [fieldWriters, ih, List.map_cons, fieldWriter]

theorem listWriters_eq (v : List NbtList) :
    listWriters limits scratch depth v = v.map (writeList limits scratch depth) := by
  induction v with
  | nil => rfl
  | cons list rest ih => rw [listWriters, ih, List.map_cons]

theorem writeCompound_eq (v : NbtCompound) :
    writeFieldsAndEnd limits scratch depth (fieldWriters limits (scratchWithin limits scratch v.length) depth v) =
      writeCompound limits scratch depth v := rfl

theorem compoundWriters_eq (v : List NbtCompound) :
    compoundWriters limits scratch depth v = v.map (writeCompound limits scratch depth) := by
  induction v with
  | nil => rfl
  | cons e rest ih => rw [compoundWriters, ih, List.map_cons, writeCompound_eq]

theorem fieldsBytes_eq (canonical : Bool) (v : NbtCompound) :
    fieldsBytes canonical v = v.map fun e => (e.1, fieldBytes canonical e) := by
  induction v with
  | nil => rfl
  | cons e rest ih => rw [fieldsBytes, ih, List.map_cons, fieldBytes]

theorem listsBytes_eq (canonical : Bool) (v : List NbtList) : listsBytes canonical v = v.map (listBytes canonical) := by
  induction v with
  | nil => rfl
  | cons list rest ih => rw [listsBytes, ih, List.map_cons]

theorem compoundsBytes_eq (canonical : Bool) (v : List NbtCompound) :
    compoundsBytes canonical v = v.map fun x => compoundBytes canonical (fieldsBytes canonical x) := by
  induction v with
  | nil => rfl
  | cons e rest ih => rw [compoundsBytes, ih, List.map_cons]

theorem fieldsAccepted_iff (v : NbtCompound) :
    FieldsAccepted limits scratch depth v ↔ ∀ e ∈ v, FieldAccepted limits scratch depth e := by
  induction v with
  | nil => simp [FieldsAccepted]
  | cons e rest ih => simp [FieldsAccepted, FieldAccepted, ih]

theorem listsAccepted_iff (v : List NbtList) :
    ListsAccepted limits scratch depth v ↔ ∀ x ∈ v, ListAccepted limits scratch depth x := by
  induction v with
  | nil => simp [ListsAccepted]
  | cons list rest ih => simp [ListsAccepted, ih]

theorem compoundsAccepted_iff (v : List NbtCompound) :
    CompoundsAccepted limits scratch depth v ↔ ∀ x ∈ v, CompoundAccepted limits scratch depth x := by
  induction v with
  | nil => simp [CompoundsAccepted]
  | cons e rest ih => simp [CompoundsAccepted, CompoundAccepted, ih]

end Foton.NbtStream
