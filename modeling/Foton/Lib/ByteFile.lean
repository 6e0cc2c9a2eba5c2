import Mathlib.Data.List.GetD
import Mathlib.Data.UInt

/-!
# Files as bytes

A file is a length and the bytes below it. A write may start past the end: the
gap reads as zeros, as in a sparse file. A read asks for an exact number of
bytes and fails when the file is shorter.
-/

namespace Foton

section

structure ByteFile where
  len : Nat
  byte : Nat → UInt8

namespace ByteFile

def empty : ByteFile := ⟨0, fun _ => 0⟩

/-- `read_exact` of `n` bytes at `off`. -/
def read (f : ByteFile) (off n : Nat) : Option (List UInt8) :=
  if off + n ≤ f.len then some ((List.range n).map fun i => f.byte (off + i)) else none

/-- `write_all` of `bs` at `off`; nothing happens when there is nothing to write. -/
def write (f : ByteFile) (off : Nat) (bs : List UInt8) : ByteFile :=
  if bs = [] then f else
    { len := max f.len (off + bs.length)
      byte := fun a =>
        if off ≤ a ∧ a < off + bs.length then bs.getD (a - off) 0
        else if a < f.len then f.byte a else 0 }

theorem write_nil (f : ByteFile) (off : Nat) : f.write off [] = f := by simp [write]

theorem len_write_le (f : ByteFile) (off : Nat) (bs : List UInt8) : f.len ≤ (f.write off bs).len := by
  unfold write; split
  · exact Nat.le_refl _
  · exact Nat.le_max_left _ _

theorem len_write {f : ByteFile} {off : Nat} {bs : List UInt8} (h : bs ≠ []) :
    (f.write off bs).len = max f.len (off + bs.length) := by simp [write, h]

theorem read_isSome {f : ByteFile} {off n : Nat} : (f.read off n).isSome ↔ off + n ≤ f.len := by
  unfold read; split <;> simp_all

theorem read_write_sub (f : ByteFile) (off : Nat) {bs : List UInt8} {k n : Nat} (hne : bs ≠ [])
    (h : k + n ≤ bs.length) : (f.write off bs).read (off + k) n = some ((bs.drop k).take n) := by
  unfold read
  rw [len_write hne, if_pos (Nat.le_trans (by omega) (Nat.le_max_right _ _))]
  congr 1
  apply List.ext_getElem
  · simp only [List.length_map, List.length_range, List.length_take, List.length_drop]
    omega
  · intro i h1 h2
    simp only [List.length_map, List.length_range] at h1
    have hin : off ≤ off + k + i ∧ off + k + i < off + bs.length := by omega
    have hsub : off + k + i - off = k + i := by omega
    simp only [write, hne, ite_false, List.getElem_map, List.getElem_range, hin, and_self, ite_true,
      List.getElem_take, List.getElem_drop, hsub]
    exact List.getD_eq_getElem _ _ (by omega)

theorem read_write_same (f : ByteFile) (off : Nat) {bs : List UInt8} (h : bs ≠ []) :
    (f.write off bs).read off bs.length = some bs := by
  have := read_write_sub f off h (Nat.le_of_eq (Nat.zero_add bs.length))
  rwa [List.drop_zero, List.take_length] at this

theorem read_write_front (f : ByteFile) (off : Nat) {bs cs : List UInt8} (h : bs ≠ []) :
    (f.write off (bs ++ cs)).read off bs.length = some bs := by
  have hne : bs ++ cs ≠ [] := List.append_ne_nil_of_left_ne_nil h cs
  have := read_write_sub f off hne (k := 0) (n := bs.length) (by rw [List.length_append]; omega)
  rwa [List.drop_zero, List.take_left] at this

theorem read_write_back (f : ByteFile) (off : Nat) {bs cs : List UInt8} (h : cs ≠ []) :
    (f.write off (bs ++ cs)).read (off + bs.length) cs.length = some cs := by
  have hne : bs ++ cs ≠ [] := List.append_ne_nil_of_right_ne_nil bs h
  have := read_write_sub f off hne (Nat.le_of_eq List.length_append.symm)
  rwa [List.drop_left, List.take_length] at this

theorem read_write_disjoint {f : ByteFile} {off off' n : Nat} {bs data : List UInt8}
    (hr : f.read off' n = some data) (hd : off' + n ≤ off ∨ off + bs.length ≤ off') :
    (f.write off bs).read off' n = some data := by
  by_cases hb : bs = []
  · subst hb; rwa [write_nil]
  unfold read at hr ⊢
  split at hr
  · rename_i hlen
    rw [len_write hb, if_pos (Nat.le_trans hlen (Nat.le_max_left _ _))]
    simp only [Option.some.injEq] at hr
    rw [← hr]
    congr 1
    apply List.map_congr_left
    intro i hi
    have hi := List.mem_range.mp hi
    have hno : ¬ (off ≤ off' + i ∧ off' + i < off + bs.length) := by omega
    simp only [write, hb, ite_false, hno]
    rw [if_pos (by omega)]
  · cases hr

end ByteFile

end

/-!
## A store with a commit point

What a reader finds after a restart is `committed`; what the running program has
accepted since is `pending`. Writers change `pending` alone, and a commit makes
all of it visible at once.
-/

section

structure CommitStore (ι α : Type) where
  committed : ι → Option α
  pending : ι → Option α

namespace CommitStore

variable {ι α : Type}

def empty : CommitStore ι α := ⟨fun _ => none, fun _ => none⟩

/-- A store found on disk: all of it is committed. -/
def found (a : ι → Option α) : CommitStore ι α := ⟨a, a⟩

def put [DecidableEq ι] (s : CommitStore ι α) (i : ι) (a : Option α) : CommitStore ι α :=
  { s with pending := fun j => if i = j then a else s.pending j }

def commit (s : CommitStore ι α) : CommitStore ι α := { s with committed := s.pending }

/-- A restart forgets what was not committed. -/
def reload (s : CommitStore ι α) : CommitStore ι α := { s with pending := s.committed }

section
variable [DecidableEq ι] (s : CommitStore ι α) (i j : ι) (a : Option α)

@[simp] theorem committed_put : (s.put i a).committed = s.committed := rfl

@[simp] theorem pending_put : (s.put i a).pending j = if i = j then a else s.pending j := rfl

omit [DecidableEq ι] in
@[simp] theorem committed_commit : s.commit.committed = s.pending := rfl

omit [DecidableEq ι] in
@[simp] theorem pending_commit : s.commit.pending = s.pending := rfl

omit [DecidableEq ι] in
@[simp] theorem committed_reload : s.reload.committed = s.committed := rfl

omit [DecidableEq ι] in
@[simp] theorem pending_reload : s.reload.pending = s.committed := rfl

end

end CommitStore

end

end Foton
