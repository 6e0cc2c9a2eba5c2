import Foton.Brigadier.Dispatcher
import Foton.Brigadier.Suggestion
import Foton.Lib.Fallible

/-!
# Expanding suggestions

A position in UTF-16 code units that is between two characters has one index.
A suggestion from such a position to the end of the input is expanded to an
earlier one with the input between them, and is applied with the same result.
-/

namespace Foton.Brigadier

/-! ## Positions -/

section
variable {input : Text} {i j position index : Nat}

theorem byteIndexFrom_take (input : Text) : ∀ (utf16Index byteIndex i : Nat), i ≤ input.length →
    StringRange.byteIndexFrom utf16Index byteIndex input (utf16Index + positionOf input i) = some (byteIndex + i) := by
  induction input with
  | nil =>
    intro utf16Index byteIndex i hi
    have hi : i = 0 := Nat.le_zero.mp hi
    simp [hi, StringRange.byteIndexFrom, positionOf, utf16Length]
  | cons character rest ih =>
    intro utf16Index byteIndex i hi
    have hpos := utf16Length_singleton_pos character
    cases i with
    | zero => simp [StringRange.byteIndexFrom, positionOf, utf16Length]
    | succ i =>
      have hne : utf16Index ≠ utf16Index + (utf16Length [character] + positionOf rest i) := by omega
      have hle : ¬utf16Index + utf16Length [character] > utf16Index + (utf16Length [character] + positionOf rest i) := by omega
      rw [positionOf_succ, StringRange.byteIndexFrom, if_neg hne, if_neg hle, ← Nat.add_assoc, ih _ _ i (Nat.le_of_succ_le_succ hi)]
      congr 1
      omega

theorem byteIndexFrom_eq_some (input : Text) : ∀ (utf16Index byteIndex : Nat), StringRange.byteIndexFrom utf16Index byteIndex input position = some index →
    ∃ i ≤ input.length, index = byteIndex + i ∧ position = utf16Index + positionOf input i := by
  induction input with
  | nil =>
    intro utf16Index byteIndex h
    simp only [StringRange.byteIndexFrom, Option.ite_none_right_eq_some, Option.some.injEq] at h
    exact ⟨0, Nat.le_refl 0, h.2.symm, h.1.symm⟩
  | cons character rest ih =>
    intro utf16Index byteIndex h
    rw [StringRange.byteIndexFrom] at h
    split at h
    · rename_i heq
      exact ⟨0, Nat.zero_le _, (Option.some.inj h).symm, heq.symm⟩
    · split at h
      · cases h
      · obtain ⟨i, hi, hindex, hposition⟩ := ih _ _ h
        refine ⟨i + 1, Nat.succ_le_succ hi, by omega, ?_⟩
        rw [positionOf_succ]
        omega

theorem byteIndex_positionOf (hi : i ≤ input.length) : StringRange.byteIndex input (positionOf input i) = some i := by
  have h := byteIndexFrom_take input 0 0 i hi
  rwa [Nat.zero_add, Nat.zero_add] at h

theorem byteIndex_eq_some (h : StringRange.byteIndex input position = some index) : index ≤ input.length ∧ position = positionOf input index := by
  obtain ⟨i, hi, hindex, hposition⟩ := byteIndexFrom_eq_some input 0 0 h
  rw [Nat.zero_add] at hindex hposition
  subst hindex
  exact ⟨hi, hposition⟩

theorem positionOf_inj (hi : i ≤ input.length) (hj : j ≤ input.length) (h : positionOf input i = positionOf input j) : i = j := by
  have heq := byteIndex_positionOf hi
  rw [h, byteIndex_positionOf hj] at heq
  exact (Option.some.inj heq).symm

theorem le_of_positionOf_le (hi : i ≤ input.length) (hj : j ≤ input.length) (h : positionOf input i ≤ positionOf input j) : i ≤ j := by
  by_contra hlt
  have hge : positionOf input j ≤ positionOf input i := positionOf_mono (by omega)
  have heq := positionOf_inj hi hj (Nat.le_antisymm h hge)
  omega

end

/-! ## Suggestions to the end of the input -/

namespace Suggestion

variable {T : Type} {input : Text} {i j : Nat} {suggestion : Suggestion T}

/-- The suggestion replaces the input from the character `i` on. -/
structure Fits (input : Text) (i : Nat) (suggestion : Suggestion T) : Prop where
  valid : i ≤ input.length
  range : suggestion.range = ⟨positionOf input i, utf16Length input⟩

theorem checkedByteRange_positionOf (hi : i ≤ input.length) (hj : j ≤ input.length) :
    checkedByteRange input ⟨positionOf input i, positionOf input j⟩ = .ok (i, j) := by
  unfold checkedByteRange StringRange.byteRange
  dsimp only
  rw [byteIndex_positionOf hi]
  dsimp only
  rw [byteIndex_positionOf hj]
  rfl

theorem Fits.apply (h : Fits input i suggestion) : suggestion.apply input = .ok (input.take i ++ suggestion.text) := by
  unfold Suggestion.apply
  rw [h.range, ← positionOf_length, checkedByteRange_positionOf h.valid (Nat.le_refl _)]
  refine congrArg Except.ok ?_
  dsimp only
  rw [List.drop_length, List.append_nil]

/-- The text of a suggestion with the input before it from `start` on. -/
def spelled (input : Text) (start : Nat) (suggestion : Suggestion T) : Text :=
  (input.take ((StringRange.byteIndex input suggestion.range.start).getD 0)).drop ((StringRange.byteIndex input start).getD 0) ++ suggestion.text

/-- What `expand` makes of a suggestion that starts at `start` or later. -/
def expanded (input : Text) (start : Nat) (suggestion : Suggestion T) : Suggestion T where
  range := ⟨start, utf16Length input⟩
  text := spelled input start suggestion
  tooltip := suggestion.tooltip
  integer := if suggestion.range.start = start then suggestion.integer else none

theorem Fits.spelled (h : Fits input i suggestion) (hj : j ≤ input.length) :
    suggestion.spelled input (positionOf input j) = (input.take i).drop j ++ suggestion.text := by
  unfold Suggestion.spelled
  rw [h.range, byteIndex_positionOf h.valid, byteIndex_positionOf hj]
  rfl

theorem Fits.expanded_self (h : Fits input i suggestion) : suggestion.expanded input (positionOf input i) = suggestion := by
  have htext := h.spelled h.valid
  rw [List.drop_eq_nil_of_le (List.length_take_le i input), List.nil_append] at htext
  have hrange := h.range
  obtain ⟨range, text, tooltip, integer⟩ := suggestion
  dsimp only at hrange
  subst hrange
  unfold Suggestion.expanded
  rw [htext, if_pos rfl]

theorem Fits.fits_expanded (hj : j ≤ input.length) (suggestion : Suggestion T) : Fits input j (suggestion.expanded input (positionOf input j)) :=
  ⟨hj, rfl⟩

theorem Fits.apply_expanded (h : Fits input i suggestion) (hle : j ≤ i) :
    (suggestion.expanded input (positionOf input j)).apply input = suggestion.apply input := by
  have hj := Nat.le_trans hle h.valid
  rw [h.apply, (Fits.fits_expanded hj suggestion).apply]
  unfold Suggestion.expanded
  dsimp only
  rw [h.spelled hj, ← List.append_assoc]
  have hsplit : input.take j ++ (input.take i).drop j = input.take i := by
    have hshort : input.take j = (input.take i).take j := by rw [List.take_take, Nat.min_eq_left hle]
    rw [hshort, List.take_append_drop]
  rw [hsplit]

theorem Fits.expand (h : Fits input i suggestion) (hle : j ≤ i) :
    suggestion.expand input ⟨positionOf input j, utf16Length input⟩ = .ok (suggestion.expanded input (positionOf input j)) := by
  have hj := Nat.le_trans hle h.valid
  unfold Suggestion.expand
  rw [if_neg ?_]
  · split
    · rename_i heq
      have hsame : positionOf input j = positionOf input i := congrArg StringRange.start (heq.trans h.range)
      rw [hsame, h.expanded_self]
    · rename_i hne
      have hstart : suggestion.range.start ≠ positionOf input j := by
        intro heq
        rw [h.range] at hne heq
        exact hne (by rw [← heq])
      unfold StringRange.between
      rw [h.range, if_pos (positionOf_mono hle), if_pos (Nat.le_refl _)]
      simp only [bind, Except.bind]
      rw [checkedByteRange_positionOf hj h.valid, ← positionOf_length, checkedByteRange_positionOf (Nat.le_refl _) (Nat.le_refl _)]
      unfold Suggestion.expanded
      dsimp only
      rw [h.spelled hj, if_neg hstart, List.take_length, List.drop_length, List.append_nil, positionOf_length]
  · rw [h.range, not_or]
    exact ⟨Nat.not_lt.mpr (positionOf_mono hle), Nat.lt_irrefl _⟩

end Suggestion

end Foton.Brigadier
