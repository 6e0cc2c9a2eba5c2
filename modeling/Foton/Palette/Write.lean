import Foton.Lib.BitPack
import Foton.Lib.Wire
import Foton.Palette.Container
import Mathlib.Data.List.Induction

/-!
# The packet form of a container

The width of the entries, a palette unless the ids are direct, and the entries
packed into longs. `readContainer` is the client's rule.
-/

namespace Foton

class ToGlobalId (V : Type) where
  toGlobalId : V → UInt32

inductive PaletteMode where
  | linear
  | hash
  | global
  deriving DecidableEq

/-- `none` where the source says `unreachable!`. -/
def calculateStrategy (dim count : Nat) : Option (Nat × PaletteMode) :=
  if dim = 16 then
    if count ≤ 1 then none
    else if count ≤ 16 then some (4, .linear)
    else if count ≤ 32 then some (5, .hash)
    else if count ≤ 64 then some (6, .hash)
    else if count ≤ 128 then some (7, .hash)
    else if count ≤ 256 then some (8, .hash)
    else some (15, .global)
  else
    if count ≤ 1 then none
    else if count ≤ 2 then some (1, .linear)
    else if count ≤ 4 then some (2, .linear)
    else if count ≤ 8 then some (3, .hash)
    else some (6, .global)

/-- The loop of `pack_bits` over entries and their places. -/
def packInto (bits : Nat) (data : List Nat) (entries : List (Nat × Nat)) : List Nat :=
  entries.foldl (fun data e => data.modify (e.2 / (64 / bits)) fun word =>
    word ||| (e.1 <<< (e.2 % (64 / bits) * bits)) % 2 ^ 64) data

def packBits (indices : List Nat) (bits : Nat) : List Nat :=
  let valuesPerLong := 64 / bits
  packInto bits (List.replicate ((indices.length + valuesPerLong - 1) / valuesPerLong) 0) indices.zipIdx

namespace PalettedContainer

variable {V : Type} {dim : Nat}

section
variable [DecidableEq V] [ToGlobalId V]

/-- The palette, unless the ids are direct. -/
def writePalette (mode : PaletteMode) (palette : List (V × Nat)) : List UInt8 :=
  match mode with
  | .linear | .hash => writeVarInt palette.length ++
      palette.flatMap fun e => writeVarInt (ToGlobalId.toGlobalId e.1).toNat
  | .global => []

/-- `none` where the source panics. -/
def write (c : PalettedContainer V dim) : Option (List UInt8) :=
  match c with
  | homogeneous value => some (0 :: writeVarInt (ToGlobalId.toGlobalId value).toNat)
  | heterogeneous data => do
    let (bits, mode) ← calculateStrategy dim data.palette.length
    let indices ← data.cube.cells.mapM fun val =>
      if mode = .global then some (ToGlobalId.toGlobalId val).toNat else data.palette.findIdx? fun e => e.1 = val
    some (UInt8.ofNat bits :: writePalette mode data.palette ++ (packBits indices bits).flatMap (toBeBytes 8))
  | building _ => none

end

end PalettedContainer

/-! ## The client -/

/-- The widths that go with a palette. -/
def indirect (dim bits : Nat) : Bool :=
  if dim = 16 then 4 ≤ bits && bits ≤ 8 else 1 ≤ bits && bits ≤ 3

/-- The ids of the cells, in memory order, and the bytes that are left. -/
def readContainer (dim : Nat) : List UInt8 → Option (List Nat × List UInt8)
  | [] => none
  | byte :: rest =>
    let bits := byte.toNat
    if bits = 0 then do
      let (id, rest) ← readVarInt 5 rest
      some (List.replicate (Cube.volume dim) id, rest)
    else if indirect dim bits then do
      let (count, rest) ← readVarInt 5 rest
      let (palette, rest) ← readVarInts 5 count rest
      let (longs, rest) ← readFixed 8 ((Cube.volume dim + perWord 64 bits - 1) / perWord 64 bits) rest
      let ids ← ((unpack 64 bits longs).take (Cube.volume dim)).mapM fun entry => palette[entry]?
      some (ids, rest)
    else do
      let (longs, rest) ← readFixed 8 ((Cube.volume dim + perWord 64 bits - 1) / perWord 64 bits) rest
      some ((unpack 64 bits longs).take (Cube.volume dim), rest)

/-! ## Packing -/

theorem getD_modify (l : List Nat) (i j : Nat) (f : Nat → Nat) :
    (l.modify i f).getD j 0 = if i = j ∧ j < l.length then f (l.getD j 0) else l.getD j 0 := by
  by_cases hj : j < l.length
  · rw [List.getD_eq_getElem _ _ (by rwa [List.length_modify]), List.getD_eq_getElem _ _ hj, List.getElem_modify]
    simp [hj]
  · rw [List.getD_eq_default _ _ (by rw [List.length_modify]; omega), List.getD_eq_default _ _ (by omega), if_neg]
    exact fun h => hj h.2

theorem packInto_length (bits : Nat) (data : List Nat) (entries : List (Nat × Nat)) :
    (packInto bits data entries).length = data.length := by
  unfold packInto
  induction entries generalizing data with
  | nil => rfl
  | cons e entries ih => rw [List.foldl_cons, ih, List.length_modify]

theorem packInto_bit {bits len : Nat} {indices : List Nat}
    (hlen : ∀ i, i < indices.length → i / perWord 64 bits < len) (j k : Nat) :
    ((packInto bits (List.replicate len 0) indices.zipIdx).getD j 0).testBit k = true ↔ k < 64 ∧
      ∃ i, ∃ h : i < indices.length, i / perWord 64 bits = j ∧ slot 64 bits i ≤ k ∧
        indices[i].testBit (k - slot 64 bits i) = true := by
  induction indices using List.reverseRecOn with
  | nil =>
    simp [packInto]
  | append_singleton indices a ih =>
    have ih := ih fun i hi => hlen i (by rw [List.length_append]; omega)
    have hword := hlen indices.length (by simp)
    have hstep : packInto bits (List.replicate len 0) (indices ++ [a]).zipIdx =
        (packInto bits (List.replicate len 0) indices.zipIdx).modify (indices.length / perWord 64 bits) fun word =>
          word ||| (a <<< slot 64 bits indices.length) % 2 ^ 64 := by
      unfold packInto
      rw [List.zipIdx_append, List.foldl_append]
      simp only [List.zipIdx_cons, List.zipIdx_nil, List.foldl_cons, List.foldl_nil, Nat.zero_add]
      rfl
    rw [hstep, getD_modify, packInto_length, List.length_replicate]
    have hold : ∀ i, (∃ h : i < (indices ++ [a]).length, i / perWord 64 bits = j ∧ slot 64 bits i ≤ k ∧
        (indices ++ [a])[i].testBit (k - slot 64 bits i) = true) ↔
        (∃ h : i < indices.length, i / perWord 64 bits = j ∧ slot 64 bits i ≤ k ∧
          indices[i].testBit (k - slot 64 bits i) = true) ∨
        i = indices.length ∧ indices.length / perWord 64 bits = j ∧ slot 64 bits indices.length ≤ k ∧
          a.testBit (k - slot 64 bits indices.length) = true := by
      intro i
      by_cases hi : i < indices.length
      · simp [hi, Nat.lt_succ_of_lt hi, List.getElem_append_left hi, Nat.ne_of_lt hi]
      · by_cases heq : i = indices.length
        · subst heq
          simp
        · simp [hi, heq]
          omega
    simp only [hold, exists_or, exists_eq_left]
    by_cases hj : indices.length / perWord 64 bits = j
    · subst hj
      rw [if_pos ⟨rfl, hword⟩, Nat.testBit_or, Bool.or_eq_true, ih, Nat.testBit_mod_two_pow, Nat.testBit_shiftLeft]
      simp only [Bool.and_eq_true, decide_eq_true_eq, true_and]
      constructor
      · rintro (⟨hk, h⟩ | ⟨hk, h⟩)
        · exact ⟨hk, Or.inl h⟩
        · exact ⟨hk, Or.inr h⟩
      · rintro ⟨hk, h | h⟩
        · exact Or.inl ⟨hk, h⟩
        · exact Or.inr ⟨hk, h⟩
    · rw [if_neg fun h => hj h.1, ih]
      simp [hj]

theorem packBits_packed {bits : Nat} (hbits : 0 < bits) (hwidth : bits ≤ 64) (indices : List Nat) :
    Packed 64 bits indices (packBits indices bits) := by
  have hpos := perWord_pos hbits hwidth
  refine ⟨?_, packInto_bit fun i hi => ?_⟩
  · unfold packBits
    rw [packInto_length, List.length_replicate]
    rfl
  · refine (Nat.div_lt_iff_lt_mul hpos).mpr ?_
    have hdiv := Nat.div_add_mod (indices.length + perWord 64 bits - 1) (perWord 64 bits)
    have hmod := Nat.mod_lt (indices.length + perWord 64 bits - 1) hpos
    show i < (indices.length + perWord 64 bits - 1) / perWord 64 bits * perWord 64 bits
    rw [Nat.mul_comm]
    omega

end Foton
