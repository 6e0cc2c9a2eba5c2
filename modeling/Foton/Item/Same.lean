import Foton.Item.Stack

/-!
# Stacks that merge

Two stacks merge when their items and all effective components are the same.
The NBT of a plugin is not compared.
-/

namespace Foton

variable {α : Type} [BEq α]

instance [PartialEquivBEq α] : PartialEquivBEq (ComponentData α) where
  symm {a b} h :=
    match a, b with
    | .int _, .int _ => BEq.symm (α := Int) h
    | .other _, .other _ => BEq.symm (α := α) h
    | .int _, .other _ | .other _, .int _ => absurd h Bool.false_ne_true
  trans {a b c} h h' :=
    match a, b, c with
    | .int _, .int _, .int _ => BEq.trans (α := Int) h h'
    | .other _, .other _, .other _ => BEq.trans (α := α) h h'
    | .int _, .other _, _ | .other _, .int _, _ => absurd h Bool.false_ne_true
    | _, .int _, .other _ | _, .other _, .int _ => absurd h' Bool.false_ne_true

namespace ItemStack

variable {a b c : ItemStack α} {key : Identifier}

/-! ## Effective components -/

omit [BEq α] in
theorem mem_componentKeys {data : ComponentData α} (h : a.getEffectiveValueRaw key = some data) : key ∈ a.componentKeys := by
  unfold getEffectiveValueRaw at h
  unfold componentKeys
  rw [List.mem_append]
  split at h
  · rename_i data' hlookup
    obtain ⟨l₁, l₂, heq, -⟩ := List.lookup_eq_some_iff.mp hlookup
    refine Or.inr (List.mem_map.mpr ⟨(key, .set data'), ?_, rfl⟩)
    rw [List.mem_filter, heq]
    simp
  · cases h
  · rename_i hlookup
    obtain ⟨l₁, l₂, heq, -⟩ := List.lookup_eq_some_iff.mp h
    refine Or.inl (List.mem_filter.mpr ⟨List.mem_map.mpr ⟨(key, data), ?_, rfl⟩, ?_⟩)
    · rw [heq]
      simp
    · rw [hlookup]
      rfl

/-- The effective component maps are the same. -/
def SameComponents (a b : ItemStack α) : Prop :=
  ∀ key, sameValue (a.getEffectiveValueRaw key) (b.getEffectiveValueRaw key) = true

theorem componentsEqual_iff : a.componentsEqual b = true ↔ a.SameComponents b := by
  unfold componentsEqual
  rw [List.all_eq_true]
  constructor
  · intro h key
    by_cases hkey : key ∈ a.componentKeys ++ b.componentKeys
    · exact h key hkey
    · -- A key of neither stack has no value in either.
      rw [List.mem_append, not_or] at hkey
      have ha : a.getEffectiveValueRaw key = none :=
        Option.eq_none_iff_forall_ne_some.mpr fun data hdata => hkey.1 (mem_componentKeys hdata)
      have hb : b.getEffectiveValueRaw key = none :=
        Option.eq_none_iff_forall_ne_some.mpr fun data hdata => hkey.2 (mem_componentKeys hdata)
      rw [ha, hb]
      rfl
  · exact fun h key _ => h key

theorem sameValue_symm [PartialEquivBEq α] {v w : Option (ComponentData α)} (h : sameValue v w = true) : sameValue w v = true := by
  cases v <;> cases w
  · rfl
  · cases h
  · cases h
  · exact BEq.symm h

theorem sameValue_trans [PartialEquivBEq α] {u v w : Option (ComponentData α)} (h : sameValue u v = true)
    (h' : sameValue v w = true) : sameValue u w = true := by
  cases u with
  | none =>
    cases v with
    | none => exact h'
    | some v => cases h
  | some u =>
    cases v with
    | none => cases h
    | some v =>
      cases w with
      | none => cases h'
      | some w => exact BEq.trans h h'

theorem SameComponents.symm [PartialEquivBEq α] (h : a.SameComponents b) : b.SameComponents a := fun key => sameValue_symm (h key)

theorem SameComponents.trans [PartialEquivBEq α] (h : a.SameComponents b) (h' : b.SameComponents c) : a.SameComponents c :=
  fun key => sameValue_trans (h key) (h' key)

theorem sameComponents_self_iff : a.SameComponents a ↔ ∀ key data, a.getEffectiveValueRaw key = some data → (data == data) = true := by
  refine forall_congr' fun key => ?_
  cases a.getEffectiveValueRaw key with
  | none => simp [sameValue]
  | some data =>
    constructor
    · rintro h data' ⟨⟩
      exact h
    · exact fun h => h data rfl

/-! ## The relation -/

omit [BEq α] in
theorem itemKey_eq_air_iff : a.itemKey = airKey ↔ a.isEmpty = true := by
  unfold itemKey
  split
  · rename_i h
    exact iff_of_true rfl h
  · rename_i h
    refine iff_of_false (fun hkey => h ?_) h
    simp [isEmpty, hkey]

theorem isSame_iff : isSameItemSameComponents a b = true ↔
    a.itemKey = b.itemKey ∧ (a.isEmpty = true ∧ b.isEmpty = true ∨ a.SameComponents b) := by
  rw [← componentsEqual_iff]
  unfold isSameItemSameComponents isSameItem
  by_cases hitem : a.itemKey = b.itemKey
  · by_cases hempty : a.isEmpty = true ∧ b.isEmpty = true
    · simp [hitem, hempty]
    · simp [hitem, hempty]
  · simp [hitem]

theorem isSame_symm [PartialEquivBEq α] (h : isSameItemSameComponents a b = true) : isSameItemSameComponents b a = true := by
  obtain ⟨hitem, h⟩ := isSame_iff.mp h
  exact isSame_iff.mpr ⟨hitem.symm, h.imp And.symm SameComponents.symm⟩

theorem isSame_trans [PartialEquivBEq α] (h : isSameItemSameComponents a b = true) (h' : isSameItemSameComponents b c = true) :
    isSameItemSameComponents a c = true := by
  obtain ⟨hab, h⟩ := isSame_iff.mp h
  obtain ⟨hbc, h'⟩ := isSame_iff.mp h'
  have hempty : ∀ {s t : ItemStack α}, s.itemKey = t.itemKey → s.isEmpty = true → t.isEmpty = true := by
    intro s t heq hs
    rw [← itemKey_eq_air_iff] at hs ⊢
    exact heq.symm.trans hs
  refine isSame_iff.mpr ⟨hab.trans hbc, ?_⟩
  rcases h with ⟨ha, hb⟩ | h
  · exact Or.inl ⟨ha, hempty hbc hb⟩
  · rcases h' with ⟨hb, hc⟩ | h'
    · exact Or.inl ⟨hempty hab.symm hb, hc⟩
    · exact Or.inr (h.trans h')

/-- Nothing that tells the stacks apart but their counts. -/
structure Alike (a b : ItemStack α) : Prop where
  item : a.itemKey = b.itemKey
  components : a.SameComponents b
  opaqueNbt : a.opaqueNbt = b.opaqueNbt

/-- **Stacks that merge** have the same item and, unless both are empty, the same components; they are alike exactly when
their plugin NBT is the same too. The relation is symmetric and transitive, and reflexive on every stack whose component
values equal themselves. -/
theorem merge_alike_iff [PartialEquivBEq α] :
    (∀ a b : ItemStack α, (isSameItemSameComponents a b = true → a.Alike b) ↔
      (a.itemKey ≠ b.itemKey ∨ (¬ (a.isEmpty = true ∧ b.isEmpty = true) ∧ ¬ a.SameComponents b) ∨
        (a.SameComponents b ∧ a.opaqueNbt = b.opaqueNbt))) ∧
    (∀ a : ItemStack α, isSameItemSameComponents a a = true ↔
      a.isEmpty = true ∨ ∀ key data, a.getEffectiveValueRaw key = some data → (data == data) = true) ∧
    (∀ a b : ItemStack α, isSameItemSameComponents a b = true → isSameItemSameComponents b a = true) ∧
    ∀ a b c : ItemStack α, isSameItemSameComponents a b = true → isSameItemSameComponents b c = true →
      isSameItemSameComponents a c = true := by
  refine ⟨fun a b => ?_, fun a => ?_, fun a b => isSame_symm, fun a b c => isSame_trans⟩
  · rw [isSame_iff]
    constructor
    · intro h
      by_cases hitem : a.itemKey = b.itemKey
      · by_cases hsame : a.isEmpty = true ∧ b.isEmpty = true ∨ a.SameComponents b
        · exact Or.inr (Or.inr ⟨(h ⟨hitem, hsame⟩).components, (h ⟨hitem, hsame⟩).opaqueNbt⟩)
        · exact Or.inr (Or.inl (not_or.mp hsame))
      · exact Or.inl hitem
    · rintro (hitem | ⟨hempty, hdiffer⟩ | ⟨hsame, hnbt⟩) ⟨hkey, haccepted⟩
      · exact absurd hkey hitem
      · exact absurd haccepted (not_or.mpr ⟨hempty, hdiffer⟩)
      · exact ⟨hkey, hsame, hnbt⟩
  · rw [isSame_iff, ← sameComponents_self_iff, and_self]
    exact and_iff_right rfl

/-- Stone, on its own and with the NBT of a plugin. -/
def plainStone : ItemStack Unit := ⟨⟨.vanillaStatic "stone", [(maxStackSizeKey, .int 64)]⟩, 4, [], none⟩

def taggedStone : ItemStack Unit := { plainStone with opaqueNbt := some "[1,2,3]" }

theorem tagged_stone_merges : ¬ (isSameItemSameComponents plainStone taggedStone = true → plainStone.Alike taggedStone) := by
  intro h
  have hnbt := (h (by decide)).opaqueNbt
  cases hnbt

theorem merge_alike_iff_unit :
    (∀ a b : ItemStack Unit, (isSameItemSameComponents a b = true → a.Alike b) ↔
      (a.itemKey ≠ b.itemKey ∨ (¬ (a.isEmpty = true ∧ b.isEmpty = true) ∧ ¬ a.SameComponents b) ∨
        (a.SameComponents b ∧ a.opaqueNbt = b.opaqueNbt))) ∧
    (∀ a : ItemStack Unit, isSameItemSameComponents a a = true ↔
      a.isEmpty = true ∨ ∀ key data, a.getEffectiveValueRaw key = some data → (data == data) = true) ∧
    (∀ a b : ItemStack Unit, isSameItemSameComponents a b = true → isSameItemSameComponents b a = true) ∧
    ∀ a b c : ItemStack Unit, isSameItemSameComponents a b = true → isSameItemSameComponents b c = true →
      isSameItemSameComponents a c = true :=
  merge_alike_iff

end ItemStack

/-! ## Stacks with another count -/

namespace ItemStack

variable {s t : ItemStack α} {n : Int}

omit [BEq α] in
@[simp]
theorem setCount_count (s : ItemStack α) : s.setCount s.count = s := rfl

omit [BEq α] in
@[simp]
theorem setCount_setCount (s : ItemStack α) (m n : Int) : (s.setCount m).setCount n = s.setCount n := rfl

omit [BEq α] in
@[simp]
theorem count_setCount (s : ItemStack α) (n : Int) : (s.setCount n).count = n := rfl

omit [BEq α] in
theorem isEmpty_iff : s.isEmpty = true ↔ s.item.key = airKey ∨ s.count ≤ 0 := by
  simp [isEmpty]

omit [BEq α] in
theorem not_isEmpty_iff : s.isEmpty = false ↔ s.item.key ≠ airKey ∧ 0 < s.count := by
  rw [← Bool.not_eq_true, isEmpty_iff, not_or, not_le]

omit [BEq α] in
theorem size_nonneg (s : ItemStack α) : 0 ≤ s.size := by
  unfold size
  split
  · exact Int.le_refl 0
  · rename_i h
    have := (not_isEmpty_iff.mp (by simpa using h)).2
    omega

omit [BEq α] in
theorem size_of_not_isEmpty (h : s.isEmpty = false) : s.size = s.count := by
  simp [size, h]

omit [BEq α] in
theorem size_of_isEmpty (h : s.isEmpty = true) : s.size = 0 := by
  simp [size, h]

omit [BEq α] in
theorem isEmpty_setCount (h : s.isEmpty = false) : (s.setCount n).isEmpty = true ↔ n ≤ 0 := by
  rw [isEmpty_iff]
  exact or_iff_right (not_isEmpty_iff.mp h).1

omit [BEq α] in
theorem not_isEmpty_setCount (h : s.isEmpty = false) (hn : 0 < n) : (s.setCount n).isEmpty = false :=
  not_isEmpty_iff.mpr ⟨(not_isEmpty_iff.mp h).1, hn⟩

omit [BEq α] in
theorem size_setCount (h : s.isEmpty = false) (hn : 0 ≤ n) : (s.setCount n).size = n := by
  unfold size
  split
  · rename_i hle
    have := (isEmpty_setCount h).mp hle
    omega
  · rfl

omit [BEq α] in
@[simp]
theorem itemKey_setCount (h : s.isEmpty = false) (hn : 0 < n) : (s.setCount n).itemKey = s.itemKey := by
  unfold itemKey
  rw [not_isEmpty_setCount h hn, h]
  rfl

theorem isSame_setCount_right (ht : t.isEmpty = false) (hn : 0 < n) :
    isSameItemSameComponents s (t.setCount n) = isSameItemSameComponents s t := by
  unfold isSameItemSameComponents isSameItem
  rw [itemKey_setCount ht hn, not_isEmpty_setCount ht hn, ht]
  rfl

end ItemStack

end Foton
