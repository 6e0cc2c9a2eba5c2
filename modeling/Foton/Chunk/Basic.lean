import Mathlib.Data.Int.Basic
import Mathlib.Data.Int.Order.Basic
import Mathlib.Order.Lattice

/-!
# Chunk positions and statuses
-/

namespace Foton

structure ChunkPos where
  x : Int32
  z : Int32
  deriving DecidableEq, Repr

/-! ## Chunk status -/

inductive ChunkStatus where
  | empty
  | structureStarts
  | structureReferences
  | biomes
  | noise
  | surface
  | carvers
  | features
  | initializeLight
  | light
  | spawn
  | full
  deriving DecidableEq, Repr

namespace ChunkStatus

def getIndex : ChunkStatus → Nat
  | empty => 0
  | structureStarts => 1
  | structureReferences => 2
  | biomes => 3
  | noise => 4
  | surface => 5
  | carvers => 6
  | features => 7
  | initializeLight => 8
  | light => 9
  | spawn => 10
  | full => 11

def fromIndex : Nat → Option ChunkStatus
  | 0 => some empty
  | 1 => some structureStarts
  | 2 => some structureReferences
  | 3 => some biomes
  | 4 => some noise
  | 5 => some surface
  | 6 => some carvers
  | 7 => some features
  | 8 => some initializeLight
  | 9 => some light
  | 10 => some spawn
  | 11 => some full
  | _ => none

theorem fromIndex_getIndex (s : ChunkStatus) : fromIndex s.getIndex = some s := by cases s <;> rfl

theorem getIndex_lt (s : ChunkStatus) : s.getIndex < 256 := by cases s <;> decide

end ChunkStatus

/-!
## Block positions and packed chunk positions

-/

structure BlockPos where
  x : Int32
  y : Int32
  z : Int32
  deriving DecidableEq, Repr

def ChunkPos.fromBlockPos (pos : BlockPos) : ChunkPos := ⟨pos.x >>> 4, pos.z >>> 4⟩

structure PackedChunkPos where
  raw : Int64
  deriving DecidableEq

namespace PackedChunkPos

instance : LinearOrder PackedChunkPos :=
  LinearOrder.lift' (fun p => p.raw.toInt) fun _ _ h => by
    rw [Int64.toInt_inj] at h
    exact congrArg PackedChunkPos.mk h

def fromChunkPos (pos : ChunkPos) : PackedChunkPos :=
  ⟨(pos.x.toInt64 &&& (0xFFFFFFFF : Int64)) ||| ((pos.z.toInt64 &&& (0xFFFFFFFF : Int64)) <<< 32)⟩

def toChunkPos (p : PackedChunkPos) : ChunkPos := ⟨(p.raw &&& (0xFFFFFFFF : Int64)).toInt32, (p.raw >>> 32).toInt32⟩

/-! ## Round trip -/

theorem mask_bit (i : Nat) : (0xFFFFFFFF : Int64).toBitVec.getLsbD i = decide (i < 32) := by
  by_cases h : i < 64
  · exact (by decide : ∀ i : Fin 64, (0xFFFFFFFF : Int64).toBitVec.getLsbD i = decide ((i : Nat) < 32)) ⟨i, h⟩
  · rw [BitVec.getLsbD_of_ge _ _ (Nat.le_of_not_lt h), decide_eq_false (by omega)]

theorem low_bit (a : Int32) {i : Nat} (h : i < 32) :
    (a.toInt64 &&& (0xFFFFFFFF : Int64)).toBitVec.getLsbD i = a.toBitVec.getLsbD i := by
  rw [Int64.toBitVec_and, BitVec.getLsbD_and, mask_bit, Int32.toBitVec_toInt64, BitVec.getLsbD_signExtend]
  simp [h, Nat.lt_trans h (by decide : 32 < 64)]

theorem high_bit (a : Int32) {i : Nat} (h : 32 ≤ i) :
    (a.toInt64 &&& (0xFFFFFFFF : Int64)).toBitVec.getLsbD i = false := by
  rw [Int64.toBitVec_and, BitVec.getLsbD_and, mask_bit, decide_eq_false (Nat.not_lt.mpr h), Bool.and_false]

theorem shift_amount : ((Int64.toBitVec 32).smod 64).toNat = 32 := by decide

@[simp]
theorem toChunkPos_fromChunkPos (pos : ChunkPos) : (fromChunkPos pos).toChunkPos = pos := by
  obtain ⟨x, z⟩ := pos
  unfold fromChunkPos toChunkPos
  congr 1
  · rw [← Int32.toBitVec_inj]
    apply BitVec.eq_of_getLsbD_eq
    intro i hi
    rw [Int64.toBitVec_toInt32, BitVec.getLsbD_signExtend, Int64.toBitVec_and, BitVec.getLsbD_and, Int64.toBitVec_or,
      BitVec.getLsbD_or, low_bit x hi, mask_bit, Int64.toBitVec_shiftLeft]
    simp [hi, Nat.lt_trans hi (by decide : 32 < 64)]
  · rw [← Int32.toBitVec_inj]
    apply BitVec.eq_of_getLsbD_eq
    intro i hi
    rw [Int64.toBitVec_toInt32, BitVec.getLsbD_signExtend, Int64.toBitVec_shiftRight, BitVec.sshiftRight_eq',
      shift_amount, BitVec.getLsbD_sshiftRight, Int64.toBitVec_or, BitVec.getLsbD_or, high_bit x (Nat.le_add_right 32 i),
      Int64.toBitVec_shiftLeft, BitVec.shiftLeft_eq', shift_amount, BitVec.getLsbD_shiftLeft, Nat.add_sub_cancel_left,
      low_bit z hi]
    simp [hi, Nat.lt_trans hi (by decide : 32 < 64), show 32 + i < 64 by omega, show ¬ 64 ≤ i by omega]

theorem fromChunkPos_inj {p q : ChunkPos} : fromChunkPos p = fromChunkPos q ↔ p = q := by
  refine ⟨fun h => ?_, fun h => by rw [h]⟩
  rw [← toChunkPos_fromChunkPos p, h, toChunkPos_fromChunkPos]

end PackedChunkPos

end Foton
