import Mathlib.Data.List.Basic
import Mathlib.Data.Nat.Bitwise

/-!
# Numbers on the wire

Base-128 integers, least group first, and big-endian integers of a fixed length,
each with its reader. A reader returns what it read and the bytes that are left.
-/

namespace Foton

def writeVarInt (val : Nat) : List UInt8 :=
  let b := UInt8.ofNat (val % 128)
  if val / 128 = 0 then [b] else (b ||| 0x80) :: writeVarInt (val / 128)
termination_by val
decreasing_by omega

/-- At most `fuel` bytes are read. -/
def readVarInt : (fuel : Nat) → List UInt8 → Option (Nat × List UInt8)
  | 0, _ => none
  | _, [] => none
  | fuel + 1, byte :: rest =>
    if byte.toNat < 128 then some (byte.toNat, rest)
    else (readVarInt fuel rest).map fun (val, rest) => (byte.toNat % 128 + 128 * val, rest)

theorem toNat_byte {n : Nat} (h : n < 256) : (UInt8.ofNat n).toNat = n := by
  rw [UInt8.toNat_ofNat', Nat.mod_eq_of_lt h]

theorem or_high_bit {n : Nat} (h : n < 128) : (UInt8.ofNat n ||| 0x80).toNat = n + 128 := by
  rw [UInt8.toNat_or, toNat_byte (by omega)]
  show n ||| 2 ^ 7 * 1 = n + 128
  rw [Nat.or_comm, ← Nat.two_pow_add_eq_or_of_lt h]
  omega

theorem readVarInt_writeVarInt (fuel : Nat) {val : Nat} (h : val < 128 ^ (fuel + 1)) (rest : List UInt8) :
    readVarInt (fuel + 1) (writeVarInt val ++ rest) = some (val, rest) := by
  induction fuel generalizing val with
  | zero =>
    have hbyte : (UInt8.ofNat (val % 128)).toNat = val := by rw [toNat_byte (by omega), Nat.mod_eq_of_lt (by omega)]
    rw [writeVarInt, if_pos (by omega), List.cons_append, List.nil_append, readVarInt, hbyte, if_pos (by omega)]
  | succ fuel ih =>
    rw [writeVarInt]
    by_cases hzero : val / 128 = 0
    · have hbyte : (UInt8.ofNat (val % 128)).toNat = val := by rw [toNat_byte (by omega), Nat.mod_eq_of_lt (by omega)]
      rw [if_pos hzero, List.cons_append, List.nil_append, readVarInt, hbyte, if_pos (by omega)]
    · have hlow : val % 128 < 128 := Nat.mod_lt _ (by decide)
      have hdiv : val / 128 < 128 ^ (fuel + 1) := Nat.div_lt_of_lt_mul (by rw [Nat.pow_succ] at h; omega)
      rw [if_neg hzero, List.cons_append, readVarInt, or_high_bit hlow, if_neg (by omega), ih hdiv]
      simp only [Option.map_some, Option.some.injEq, Prod.mk.injEq, and_true]
      omega

/-- `n` integers in a row. -/
def readVarInts (fuel : Nat) : Nat → List UInt8 → Option (List Nat × List UInt8)
  | 0, bytes => some ([], bytes)
  | n + 1, bytes => do
    let (val, bytes) ← readVarInt fuel bytes
    let (vals, bytes) ← readVarInts fuel n bytes
    some (val :: vals, bytes)

theorem readVarInts_writeVarInt (fuel : Nat) {vals : List Nat} (h : ∀ val ∈ vals, val < 128 ^ (fuel + 1))
    (rest : List UInt8) : readVarInts (fuel + 1) vals.length (vals.flatMap writeVarInt ++ rest) = some (vals, rest) := by
  induction vals with
  | nil => rfl
  | cons val vals ih =>
    rw [List.flatMap_cons, List.append_assoc, List.length_cons, readVarInts,
      readVarInt_writeVarInt fuel (h val List.mem_cons_self)]
    simp [ih fun v hv => h v (List.mem_cons_of_mem _ hv)]

/-! ## Fixed length -/

/-- The low `8 * k` bits, most significant byte first. -/
def toBeBytes : (k : Nat) → Nat → List UInt8
  | 0, _ => []
  | k + 1, n => toBeBytes k (n / 256) ++ [UInt8.ofNat (n % 256)]

def ofBeBytes (bytes : List UInt8) : Nat := bytes.foldl (fun n byte => n * 256 + byte.toNat) 0

@[simp]
theorem toBeBytes_length (k n : Nat) : (toBeBytes k n).length = k := by
  induction k generalizing n with
  | zero => rfl
  | succ k ih => simp [toBeBytes, ih]

theorem ofBeBytes_toBeBytes {k n : Nat} (h : n < 256 ^ k) : ofBeBytes (toBeBytes k n) = n := by
  induction k generalizing n with
  | zero => simp_all [toBeBytes, ofBeBytes]
  | succ k ih =>
    have hdiv : n / 256 < 256 ^ k := Nat.div_lt_of_lt_mul (by rw [Nat.pow_succ] at h; omega)
    have hlow : n % 256 < 256 := Nat.mod_lt _ (by decide)
    have hrest := ih hdiv
    unfold ofBeBytes at hrest ⊢
    rw [toBeBytes, List.foldl_append, hrest, List.foldl_cons, List.foldl_nil, toNat_byte hlow]
    omega

/-- `n` integers of `k` bytes in a row. -/
def readFixed (k : Nat) : Nat → List UInt8 → Option (List Nat × List UInt8)
  | 0, bytes => some ([], bytes)
  | n + 1, bytes =>
    if bytes.length < k then none
    else (readFixed k n (bytes.drop k)).map fun (vals, rest) => (ofBeBytes (bytes.take k) :: vals, rest)

theorem readFixed_toBeBytes {k : Nat} {vals : List Nat} (h : ∀ val ∈ vals, val < 256 ^ k) (rest : List UInt8) :
    readFixed k vals.length (vals.flatMap (toBeBytes k) ++ rest) = some (vals, rest) := by
  induction vals with
  | nil => rfl
  | cons val vals ih =>
    rw [List.flatMap_cons, List.append_assoc, List.length_cons, readFixed, if_neg (by simp)]
    have hlength := toBeBytes_length k val
    rw [List.take_left' hlength, List.drop_left' hlength, ofBeBytes_toBeBytes (h val List.mem_cons_self),
      ih fun v hv => h v (List.mem_cons_of_mem _ hv)]
    rfl

end Foton
