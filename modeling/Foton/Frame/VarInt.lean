import Foton.Frame.Codec
import Mathlib.Data.Nat.Log

/-!
# Variable-length integers in front of a buffer
-/

namespace Foton

theorem length_writeVarInt (n : Nat) : (writeVarInt n).length = n.log2 / 7 + 1 := by
  induction n using Nat.strongRecOn with
  | ind n ih =>
    rw [writeVarInt]
    split
    · rename_i hsmall
      have hlog : n.log2 < 7 := by
        by_cases hzero : n = 0
        · subst hzero
          decide
        · exact (Nat.log2_lt hzero).mpr (by omega)
      rw [List.length_singleton]
      omega
    · rename_i hlarge
      have hne : n ≠ 0 := by omega
      obtain ⟨hlow, hhigh⟩ := (Nat.log2_eq_iff hlarge).mp rfl
      have hlog : n.log2 = (n / 128).log2 + 7 := by
        have hpow : 2 ^ ((n / 128).log2 + 7) = 2 ^ (n / 128).log2 * 128 := Nat.pow_add 2 _ 7
        rw [Nat.log2_eq_iff hne, Nat.pow_succ 2 (_ + 7), hpow]
        rw [Nat.pow_succ] at hhigh
        omega
      rw [List.length_cons, ih (n / 128) (by omega), hlog]
      omega

theorem readVarInt_suffix {fuel : Nat} {bytes rest : List UInt8} {val : Nat} (h : readVarInt fuel bytes = some (val, rest)) :
    ∃ front, bytes = front ++ rest ∧ 0 < front.length ∧ front.length ≤ fuel := by
  induction fuel generalizing bytes val with
  | zero => cases h
  | succ fuel ih =>
    cases bytes with
    | nil => cases h
    | cons byte bytes =>
      rw [readVarInt] at h
      split at h
      · cases h
        exact ⟨[byte], rfl, Nat.one_pos, Nat.succ_le_succ (Nat.zero_le fuel)⟩
      · obtain ⟨⟨val', rest'⟩, hrest, heq⟩ := Option.map_eq_some_iff.mp h
        cases heq
        obtain ⟨front, rfl, -, hlength⟩ := ih hrest
        exact ⟨byte :: front, rfl, Nat.succ_pos _, Nat.succ_le_succ hlength⟩

namespace Frame

namespace VarInt

theorem writtenSize_eq (val : Int32) : writtenSize val = (write val).length := by
  unfold writtenSize write
  rw [length_writeVarInt]
  split
  · rename_i hzero
    subst hzero
    decide
  · rfl

theorem length_write_pos (val : Int32) : 0 < (write val).length := by
  unfold write
  rw [length_writeVarInt]
  exact Nat.succ_pos _

theorem length_write_le (val : Int32) : (write val).length ≤ maxSize := by
  have hbound := val.toUInt32.toNat_lt
  unfold write maxSize
  rw [length_writeVarInt]
  by_cases hzero : val.toUInt32.toNat = 0
  · rw [hzero]
    decide
  · have := (Nat.log2_lt hzero).mpr hbound
    omega

theorem toNat_ofNat {n : Nat} (h : n < 2 ^ 31) : (Int32.ofNat n).toUInt32.toNat = n := by
  rw [Int32.toUInt32_ofNat']
  exact UInt32.toNat_ofNat_of_lt' (Nat.lt_trans h (by decide))

theorem toInt_ofNat {n : Nat} (h : n < 2 ^ 31) : (Int32.ofNat n).toInt = n := Int32.toInt_ofNat_of_lt h

theorem asUsize_ofNat {n : Nat} (h : n < 2 ^ 31) : asUsize (Int32.ofNat n) = n := by
  unfold asUsize
  rw [toInt_ofNat h]
  omega

/-- Three bytes hold the lengths below `2 ^ 21`. -/
theorem length_write_le_three {n : Nat} (h : n < 2 ^ 31) : (write (Int32.ofNat n)).length ≤ 3 ↔ n < 2 ^ 21 := by
  unfold write
  rw [length_writeVarInt, toNat_ofNat h]
  by_cases hzero : n = 0
  · subst hzero
    decide
  · rw [← Nat.log2_lt hzero]
    omega

theorem readVarInt_write (val : Int32) (rest : List UInt8) :
    readVarInt maxSize (write val ++ rest) = some (val.toUInt32.toNat, rest) :=
  readVarInt_writeVarInt 4 (Nat.lt_trans val.toUInt32.toNat_lt (by decide)) rest

theorem ofNat_toNat (val : Int32) : Int32.ofNat val.toUInt32.toNat = val := by
  rw [← UInt32.toInt32_ofNat', UInt32.ofNat_toNat, Int32.toInt32_toUInt32]

@[simp]
theorem read_write (val : Int32) (rest : List UInt8) : read (write val ++ rest) = .ok (val, rest) := by
  unfold read
  rw [readVarInt_write]
  dsimp only
  rw [ofNat_toNat]

@[simp]
theorem readAsync_write (val : Int32) (rest : List UInt8) : readAsync (write val ++ rest) = .ok (val, rest) := by
  unfold readAsync
  rw [readVarInt_write]
  dsimp only
  rw [ofNat_toNat]

@[simp]
theorem read_zero (rest : List UInt8) : read (0 :: rest) = .ok (0, rest) := by
  have hwrite : write 0 = [0] := by
    unfold write
    rw [show (0 : Int32).toUInt32.toNat = 0 from rfl, writeVarInt]
    rfl
  have hread := read_write 0 rest
  rwa [hwrite] at hread

theorem read_suffix {bytes rest : List UInt8} {val : Int32} (h : read bytes = .ok (val, rest)) :
    ∃ front, bytes = front ++ rest ∧ 0 < front.length ∧ front.length ≤ maxSize := by
  unfold read at h
  split at h
  · rename_i val' rest' hread
    cases h
    exact readVarInt_suffix hread
  · cases h

end VarInt

/-! ## The reserved space -/

theorem FrontVec.setInFront_spec {vec : FrontVec} {other : List UInt8} (h : other.length ≤ vec.frontSpace) :
    ∃ vec', vec.setInFront other = .ok vec' ∧ vec'.asSlice = other ++ vec.asSlice ∧
      vec'.frontSpace = vec.frontSpace - other.length := by
  unfold FrontVec.setInFront
  rw [dif_pos h]
  refine ⟨_, rfl, ?_, rfl⟩
  have hreserved := vec.reserved
  have hlength : (vec.buf.take (vec.frontSpace - other.length)).length = vec.frontSpace - other.length := by
    rw [List.length_take]
    omega
  unfold FrontVec.asSlice
  dsimp only
  rw [List.append_assoc, List.drop_left' hlength]

theorem VarInt.setInFront_spec (val : Int32) {vec : FrontVec} (h : (VarInt.write val).length ≤ vec.frontSpace) :
    ∃ vec', VarInt.setInFront val vec (VarInt.writtenSize val) = .ok vec' ∧
      vec'.asSlice = VarInt.write val ++ vec.asSlice ∧ vec'.frontSpace = vec.frontSpace - (VarInt.write val).length := by
  unfold VarInt.setInFront
  rw [VarInt.writtenSize_eq, List.take_left]
  exact FrontVec.setInFront_spec h

@[simp]
theorem FrontVec.asSlice_new (reserve : Nat) (bytes : List UInt8) : (FrontVec.new reserve bytes).asSlice = bytes := by
  unfold FrontVec.new FrontVec.asSlice
  exact List.drop_left' List.length_replicate

end Frame

end Foton
