import Foton.Lib.KeyedEntries
import Foton.Snbt.Tag

/-!
# Partial matching of tags

A compound matches one that has at least its entries, a list that is not empty
one that has a match for each of its values, and an empty list only an empty
list. Everything else is compared as it is.
-/

namespace Foton.Snbt

abbrev Entries := List (Text × NbtTag)

mutual

def compareTags (partialListMatches : Bool) : (expected actual : NbtTag) → Bool
  | .compound expected, .compound actual =>
    if partialListMatches then
      !(actual.length < expected.length) && compareEntries partialListMatches expected actual
    else nbtTagsEqual (.compound expected) (.compound actual)
  | .list expected, .list actual =>
    if partialListMatches then
      if expected.isEmpty then actual.isEmpty
      else !(actual.length < expected.length) && compareValues partialListMatches expected (nbtListValues actual)
    else nbtTagsEqual (.list expected) (.list actual)
  | expected, actual => nbtTagsEqual expected actual

def compareEntries (partialListMatches : Bool) : (expected actual : Entries) → Bool
  | [], _ => true
  | (key, expected) :: rest, actual =>
    (match actual.lookup key with
      | some value => compareTags partialListMatches expected value
      | none => false) && compareEntries partialListMatches rest actual

/-- Each semantic value of the expected list has a match among the values. -/
def compareValues (partialListMatches : Bool) : (expected actual : List NbtTag) → Bool
  | [], _ => true
  | .compound [([], expected)] :: rest, actual =>
    actual.any (compareTags partialListMatches expected) && compareValues partialListMatches rest actual
  | expected :: rest, actual =>
    actual.any (compareTags partialListMatches expected) && compareValues partialListMatches rest actual

end

def compareNbt (expected actual : Option NbtTag) (partialListMatches : Bool) : Bool :=
  match expected, actual with
  | none, _ => true
  | some _, none => false
  | some expected, some actual => compareTags partialListMatches expected actual

def compareNbtCompounds (expected actual : Entries) (partialListMatches : Bool) : Bool :=
  !(actual.length < expected.length) && compareEntries partialListMatches expected actual

mutual

/-- No compound of the tag has a key twice. -/
def Distinct : NbtTag → Prop
  | .list values => DistinctValues values
  | .compound entries => KeyedEntries.NoDuplicates entries ∧ DistinctEntries entries
  | _ => True

def DistinctValues : List NbtTag → Prop
  | [] => True
  | value :: rest => Distinct value ∧ DistinctValues rest

def DistinctEntries : Entries → Prop
  | [] => True
  | (_, value) :: rest => Distinct value ∧ DistinctEntries rest

end

/-! ## Induction over tags -/

theorem sizeOf_unwrapListWrapper_le (tag : NbtTag) : sizeOf (unwrapListWrapper tag) ≤ sizeOf tag := by
  unfold unwrapListWrapper
  split
  · simp
    omega
  · exact le_refl _

/-- Induction over the semantic values of lists and the entries of compounds. -/
theorem NbtTag.induct {P : NbtTag → Prop}
    (leaf : ∀ tag, (∀ values, tag ≠ .list values) → (∀ entries, tag ≠ .compound entries) → P tag)
    (list : ∀ values, (∀ v ∈ nbtListValues values, P v) → P (.list values))
    (compound : ∀ entries, (∀ e ∈ entries, P e.2) → P (.compound entries)) (tag : NbtTag) : P tag := by
  induction hn : sizeOf tag using Nat.strong_induction_on generalizing tag with
  | _ n ih =>
    cases tag with
    | list values =>
      apply list
      intro v hv
      obtain ⟨raw, hraw, rfl⟩ := List.mem_map.mp hv
      have hmem := List.sizeOf_lt_of_mem hraw
      have hle := sizeOf_unwrapListWrapper_le raw
      simp only [NbtTag.list.sizeOf_spec] at hn
      exact ih _ (by omega) _ rfl
    | compound entries =>
      apply compound
      intro e he
      have hmem := List.sizeOf_lt_of_mem he
      obtain ⟨key, value⟩ := e
      simp only [NbtTag.compound.sizeOf_spec] at hn
      simp only [Prod.mk.sizeOf_spec] at hmem
      exact ih _ (by dsimp only; omega) _ rfl
    | _ =>
      apply leaf
      · intro values h
        cases h
      · intro entries h
        cases h

theorem Entries.induct {P : Entries → Prop}
    (h : ∀ entries, (∀ key sub, entries.lookup key = some (.compound sub) → P sub) → P entries) (entries : Entries) :
    P entries := by
  have htag : ∀ tag : NbtTag, ∀ entries, tag = .compound entries → P entries := by
    intro tag
    induction tag using NbtTag.induct with
    | leaf tag _ hcompound =>
      intro entries heq
      exact absurd heq (hcompound entries)
    | list values _ =>
      intro entries heq
      cases heq
    | compound entries ih =>
      intro entries' heq
      cases heq
      apply h
      intro key sub hsub
      exact ih _ (KeyedEntries.mem_of_lookup hsub) sub rfl
  exact htag _ entries rfl

theorem distinctValues_iff (values : List NbtTag) : DistinctValues values ↔ ∀ v ∈ values, Distinct v := by
  induction values with
  | nil => simp [DistinctValues]
  | cons v values ih => simp [DistinctValues, ih]

theorem distinctEntries_iff (entries : Entries) : DistinctEntries entries ↔ ∀ e ∈ entries, Distinct e.2 := by
  induction entries with
  | nil => simp [DistinctEntries]
  | cons e entries ih => simp [DistinctEntries, ih]

theorem distinct_compound (entries : Entries) :
    Distinct (.compound entries) ↔ KeyedEntries.NoDuplicates entries ∧ ∀ e ∈ entries, Distinct e.2 := by
  rw [Distinct, distinctEntries_iff]

theorem distinct_unwrapListWrapper {tag : NbtTag} (h : Distinct tag) : Distinct (unwrapListWrapper tag) := by
  unfold unwrapListWrapper
  split
  · rename_i value
    rw [distinct_compound] at h
    exact h.2 ([], value) (by simp)
  · exact h

theorem distinct_list_values {values : List NbtTag} (h : Distinct (.list values)) :
    ∀ v ∈ nbtListValues values, Distinct v := by
  rw [Distinct, distinctValues_iff] at h
  intro v hv
  obtain ⟨raw, hraw, rfl⟩ := List.mem_map.mp hv
  exact distinct_unwrapListWrapper (h raw hraw)

theorem Distinct.lookup {entries : Entries} (h : Distinct (.compound entries)) {key : Text} {value : NbtTag}
    (hkey : entries.lookup key = some value) : Distinct value := by
  rw [distinct_compound] at h
  exact h.2 _ (KeyedEntries.mem_of_lookup hkey)

/-! ## Equality -/

theorem nbtTagsEqual_list (left right : List NbtTag) : nbtTagsEqual (.list left) (.list right) = true ↔
    left.length = right.length ∧ ∀ p ∈ (nbtListValues left).zip (nbtListValues right), nbtTagsEqual p.1 p.2 = true := by
  rw [nbtTagsEqual, Bool.and_eq_true, decide_eq_true_eq, nbtValuesEqual_iff]

theorem nbtTagsEqual_compound (left right : Entries) : nbtTagsEqual (.compound left) (.compound right) = true ↔
    left.length = right.length ∧
      ∀ e ∈ left, ∃ value, right.lookup e.1 = some value ∧ nbtTagsEqual e.2 value = true := by
  rw [nbtTagsEqual, Bool.and_eq_true, decide_eq_true_eq, nbtEntriesFound_iff]

theorem nbtTagsEqual_refl {tag : NbtTag} (h : Distinct tag) : nbtTagsEqual tag tag = true := by
  induction tag using NbtTag.induct with
  | leaf tag hlist hcompound =>
    cases tag with
    | list values => exact absurd rfl (hlist values)
    | compound entries => exact absurd rfl (hcompound entries)
    | _ => simp [nbtTagsEqual, floatTagsEqual, doubleTagsEqual]
  | list values ih =>
    rw [nbtTagsEqual_list]
    refine ⟨rfl, ?_⟩
    intro p hp
    obtain ⟨i, hi, rfl⟩ := List.mem_iff_getElem.mp hp
    rw [List.getElem_zip]
    have hv := List.getElem_mem (l := nbtListValues values) (n := i) (by simpa using hi)
    exact ih _ hv (distinct_list_values h _ hv)
  | compound entries ih =>
    rw [nbtTagsEqual_compound]
    refine ⟨rfl, ?_⟩
    intro e he
    rw [distinct_compound] at h
    exact ⟨e.2, KeyedEntries.lookup_of_mem h.1 he, ih e he (h.2 e he)⟩

/-- Tags that are neither lists nor compounds are equal across one that equals both. -/
theorem nbtTagsEqual_leaf_trans {a b c : NbtTag} (hlist : ∀ values, a ≠ .list values)
    (hcompound : ∀ entries, a ≠ .compound entries) (hab : nbtTagsEqual a b = true) (hbc : nbtTagsEqual b c = true) :
    nbtTagsEqual a c = true := by
  cases a with
  | list values => exact absurd rfl (hlist values)
  | compound entries => exact absurd rfl (hcompound entries)
  | float x =>
    cases b <;> simp only [nbtTagsEqual, Bool.false_eq_true] at hab
    cases c <;> simp only [nbtTagsEqual, Bool.false_eq_true] at hbc
    simp only [floatTagsEqual, nbtTagsEqual, Bool.or_eq_true, Bool.and_eq_true, decide_eq_true_eq] at *
    rcases hab with hab | hab
    · rcases hbc with hbc | hbc
      · exact Or.inl ⟨hab.1, hbc.2⟩
      · exact Or.inl ⟨hab.1, hbc ▸ hab.2⟩
    · exact hab ▸ hbc
  | double x =>
    cases b <;> simp only [nbtTagsEqual, Bool.false_eq_true] at hab
    cases c <;> simp only [nbtTagsEqual, Bool.false_eq_true] at hbc
    simp only [doubleTagsEqual, nbtTagsEqual, Bool.or_eq_true, Bool.and_eq_true, decide_eq_true_eq] at *
    rcases hab with hab | hab
    · rcases hbc with hbc | hbc
      · exact Or.inl ⟨hab.1, hbc.2⟩
      · exact Or.inl ⟨hab.1, hbc ▸ hab.2⟩
    · exact hab ▸ hbc
  | _ =>
    cases b <;> simp only [nbtTagsEqual, Bool.false_eq_true, decide_eq_true_eq] at hab
    subst hab
    exact hbc

/-! ## Partial matching -/

theorem compareEntries_iff (expected actual : Entries) : compareEntries true expected actual = true ↔
    ∀ e ∈ expected, ∃ value, actual.lookup e.1 = some value ∧ compareTags true e.2 value = true := by
  induction expected with
  | nil => simp [compareEntries]
  | cons e rest ih =>
    obtain ⟨key, tag⟩ := e
    simp only [compareEntries, Bool.and_eq_true, ih, List.forall_mem_cons]
    cases actual.lookup key <;> simp

theorem compareValues_iff (expected actual : List NbtTag) : compareValues true expected actual = true ↔
    ∀ v ∈ nbtListValues expected, ∃ w ∈ actual, compareTags true v w = true := by
  induction expected with
  | nil => simp [compareValues, nbtListValues]
  | cons tag rest ih =>
    rw [compareValues.eq_def]
    split <;> simp_all [nbtListValues, unwrapListWrapper]

theorem compareTags_compound (expected actual : Entries) :
    compareTags true (.compound expected) (.compound actual) = true ↔ expected.length ≤ actual.length ∧
      ∀ e ∈ expected, ∃ value, actual.lookup e.1 = some value ∧ compareTags true e.2 value = true := by
  simp [compareTags, compareEntries_iff]

theorem compareTags_list (expected actual : List NbtTag) :
    compareTags true (.list expected) (.list actual) = true ↔ (expected = [] → actual = []) ∧
      expected.length ≤ actual.length ∧
        ∀ v ∈ nbtListValues expected, ∃ w ∈ nbtListValues actual, compareTags true v w = true := by
  cases expected with
  | nil => simp [compareTags, nbtListValues]
  | cons tag rest => simp [compareTags, compareValues_iff]

theorem compareTags_leaf {expected : NbtTag} (hlist : ∀ values, expected ≠ .list values)
    (hcompound : ∀ entries, expected ≠ .compound entries) (actual : NbtTag) :
    compareTags true expected actual = nbtTagsEqual expected actual := by
  cases expected with
  | list values => exact absurd rfl (hlist values)
  | compound entries => exact absurd rfl (hcompound entries)
  | _ => simp [compareTags]

theorem exists_of_compareTags_list {expected : List NbtTag} {actual : NbtTag}
    (h : compareTags true (.list expected) actual = true) : ∃ values, actual = .list values := by
  cases actual <;> simp [compareTags, nbtTagsEqual] at h ⊢

theorem exists_of_compareTags_compound {expected : Entries} {actual : NbtTag}
    (h : compareTags true (.compound expected) actual = true) : ∃ entries, actual = .compound entries := by
  cases actual <;> simp [compareTags, nbtTagsEqual] at h ⊢

theorem compareTags_refl {tag : NbtTag} (h : Distinct tag) : compareTags true tag tag = true := by
  induction tag using NbtTag.induct with
  | leaf tag hlist hcompound =>
    rw [compareTags_leaf hlist hcompound]
    exact nbtTagsEqual_refl h
  | list values ih =>
    rw [compareTags_list]
    refine ⟨id, le_refl _, ?_⟩
    intro v hv
    exact ⟨v, hv, ih v hv (distinct_list_values h v hv)⟩
  | compound entries ih =>
    rw [compareTags_compound]
    refine ⟨le_refl _, ?_⟩
    intro e he
    rw [distinct_compound] at h
    exact ⟨e.2, KeyedEntries.lookup_of_mem h.1 he, ih e he (h.2 e he)⟩

theorem compareTags_trans {a b c : NbtTag} (hab : compareTags true a b = true) (hbc : compareTags true b c = true) :
    compareTags true a c = true := by
  induction a using NbtTag.induct generalizing b c with
  | leaf a hlist hcompound =>
    rw [compareTags_leaf hlist hcompound] at hab ⊢
    have hlist' : ∀ values, b ≠ .list values := by
      intro values hb
      subst hb
      cases a <;> simp_all [nbtTagsEqual]
    have hcompound' : ∀ entries, b ≠ .compound entries := by
      intro entries hb
      subst hb
      cases a <;> simp_all [nbtTagsEqual]
    have hbc' : nbtTagsEqual b c = true := by
      rw [← compareTags_leaf hlist' hcompound']
      exact hbc
    exact nbtTagsEqual_leaf_trans hlist hcompound hab hbc'
  | list values ih =>
    obtain ⟨values', rfl⟩ := exists_of_compareTags_list hab
    obtain ⟨values'', rfl⟩ := exists_of_compareTags_list hbc
    rw [compareTags_list] at hab hbc ⊢
    refine ⟨fun h => hbc.1 (hab.1 h), le_trans hab.2.1 hbc.2.1, ?_⟩
    intro v hv
    obtain ⟨w, hw, hvw⟩ := hab.2.2 v hv
    obtain ⟨x, hx, hwx⟩ := hbc.2.2 w hw
    exact ⟨x, hx, ih v hv hvw hwx⟩
  | compound entries ih =>
    obtain ⟨entries', rfl⟩ := exists_of_compareTags_compound hab
    obtain ⟨entries'', rfl⟩ := exists_of_compareTags_compound hbc
    rw [compareTags_compound] at hab hbc ⊢
    refine ⟨le_trans hab.1 hbc.1, ?_⟩
    intro e he
    obtain ⟨w, hw, hvw⟩ := hab.2 e he
    obtain ⟨x, hx, hwx⟩ := hbc.2 _ (KeyedEntries.mem_of_lookup hw)
    exact ⟨x, hx, ih e he hvw hwx⟩

theorem compareTags_of_equal {a b : NbtTag} (h : nbtTagsEqual a b = true) : compareTags true a b = true := by
  induction a using NbtTag.induct generalizing b with
  | leaf a hlist hcompound =>
    rw [compareTags_leaf hlist hcompound]
    exact h
  | list values ih =>
    cases b with
    | list values' =>
      rw [nbtTagsEqual_list] at h
      rw [compareTags_list]
      refine ⟨?_, le_of_eq h.1, ?_⟩
      · intro hnil
        subst hnil
        simpa using h.1.symm
      · intro v hv
        obtain ⟨i, hi, rfl⟩ := List.mem_iff_getElem.mp hv
        have hlen : (nbtListValues values).length = (nbtListValues values').length := by simpa [nbtListValues] using h.1
        refine ⟨(nbtListValues values')[i], List.getElem_mem _, ih _ hv ?_⟩
        apply h.2 ((nbtListValues values)[i], (nbtListValues values')[i])
        rw [List.mem_iff_getElem]
        exact ⟨i, by simp [hi]; omega, by simp⟩
    | _ => simp [nbtTagsEqual] at h
  | compound entries ih =>
    cases b with
    | compound entries' =>
      rw [nbtTagsEqual_compound] at h
      rw [compareTags_compound]
      refine ⟨le_of_eq h.1, ?_⟩
      intro e he
      obtain ⟨value, hvalue, heq⟩ := h.2 e he
      exact ⟨value, hvalue, ih e he heq⟩
    | _ => simp [nbtTagsEqual] at h

end Foton.Snbt
