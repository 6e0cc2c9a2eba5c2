import Foton.Snbt.Compare

/-!
# Merging compounds

The entries of the source replace those of the target, and two compounds under
one key are merged in turn. The loop that removes a key from a compound is a
parameter: it may leave the other entries in another order.
-/

namespace Foton.Snbt

/-- `while target.remove(key).is_some() {}`. -/
structure KeyRemoval where
  remove : Entries → Text → Entries
  perm : ∀ entries key, (remove entries key).Perm (entries.filter fun e => e.1 ≠ key)

/-- The removal that keeps the order. -/
def KeyRemoval.inOrder : KeyRemoval where
  remove entries key := entries.filter fun e => e.1 ≠ key
  perm _ _ := List.Perm.refl _

section
variable (removal : KeyRemoval)

mutual

/-- The turn of the loop for one entry of the source. -/
def mergeValue (target : Entries) (key : Text) : (sourceValue : NbtTag) → Entries
  | .compound sourceCompound =>
    match target.lookup key with
    | some (.compound targetCompound) =>
      KeyedEntries.setFirst key (.compound (mergeNbtCompounds targetCompound sourceCompound)) target
    | _ => removal.remove target key ++ [(key, .compound sourceCompound)]
  | sourceValue => removal.remove target key ++ [(key, sourceValue)]

def mergeNbtCompounds (target : Entries) : (source : Entries) → Entries
  | [] => target
  | (key, sourceValue) :: rest => mergeNbtCompounds (mergeValue target key sourceValue) rest

end

/-- What stands under a key after the merge. -/
def mergedValue (targetValue : Option NbtTag) (sourceValue : NbtTag) : NbtTag :=
  match sourceValue, targetValue with
  | .compound sourceCompound, some (.compound targetCompound) =>
    .compound (mergeNbtCompounds removal targetCompound sourceCompound)
  | sourceValue, _ => sourceValue

end

/-! ## The merge as a map -/

section
variable (removal : KeyRemoval) {target source : Entries}

theorem mergedValue_of_not {targetValue : Option NbtTag} {sourceValue : NbtTag}
    (h : ∀ t s, targetValue = some (.compound t) → sourceValue = .compound s → False) :
    mergedValue removal targetValue sourceValue = sourceValue := by
  unfold mergedValue
  split
  · exact absurd rfl (h _ _ rfl)
  · rfl

theorem mergedValue_cases (targetValue : Option NbtTag) (sourceValue : NbtTag) :
    (∃ t s, targetValue = some (.compound t) ∧ sourceValue = .compound s ∧
        mergedValue removal targetValue sourceValue = .compound (mergeNbtCompounds removal t s)) ∨
      ((∀ t s, targetValue = some (.compound t) → sourceValue = .compound s → False) ∧
        mergedValue removal targetValue sourceValue = sourceValue) := by
  by_cases h : ∃ t s, targetValue = some (.compound t) ∧ sourceValue = .compound s
  · obtain ⟨t, s, ht, hs⟩ := h
    subst ht hs
    exact Or.inl ⟨t, s, rfl, rfl, rfl⟩
  · have hnot : ∀ t s, targetValue = some (.compound t) → sourceValue = .compound s → False :=
      fun t s ht hs => h ⟨t, s, ht, hs⟩
    exact Or.inr ⟨hnot, mergedValue_of_not removal hnot⟩

theorem remove_noDuplicates (ht : KeyedEntries.NoDuplicates target) (key : Text) :
    KeyedEntries.NoDuplicates (removal.remove target key) :=
  (KeyedEntries.NoDuplicates.filter ht _).perm (removal.perm target key)

theorem lookup_remove (ht : KeyedEntries.NoDuplicates target) (key k : Text) :
    (removal.remove target key).lookup k = if k = key then none else target.lookup k := by
  rw [KeyedEntries.lookup_perm (KeyedEntries.NoDuplicates.filter ht _) (removal.perm target key),
    KeyedEntries.lookup_filter_ne]

theorem noDuplicates_replace (ht : KeyedEntries.NoDuplicates target) (key : Text) (value : NbtTag) :
    KeyedEntries.NoDuplicates (removal.remove target key ++ [(key, value)]) := by
  have hkeys := remove_noDuplicates removal ht key
  have hfresh : key ∉ (removal.remove target key).map Prod.fst := by
    rw [← KeyedEntries.lookup_eq_none_iff, lookup_remove removal ht]
    simp
  unfold KeyedEntries.NoDuplicates
  rw [List.map_append, List.nodup_append]
  refine ⟨hkeys, by simp, ?_⟩
  intro k hk k' hk' heq
  simp at hk'
  rw [heq, hk'] at hk
  exact hfresh hk

theorem lookup_replace (ht : KeyedEntries.NoDuplicates target) (key k : Text) (value : NbtTag) :
    (removal.remove target key ++ [(key, value)]).lookup k = if k = key then some value else target.lookup k := by
  rw [List.lookup_append, lookup_remove removal ht, KeyedEntries.lookup_cons_ite]
  by_cases hk : k = key
  · simp [hk]
  · simp [hk]

theorem noDuplicates_mergeValue (ht : KeyedEntries.NoDuplicates target) (key : Text) (value : NbtTag) :
    KeyedEntries.NoDuplicates (mergeValue removal target key value) := by
  unfold mergeValue
  split
  · split
    · unfold KeyedEntries.NoDuplicates
      rwa [KeyedEntries.keys_setFirst]
    · exact noDuplicates_replace removal ht key _
  · exact noDuplicates_replace removal ht key _

theorem lookup_mergeValue (ht : KeyedEntries.NoDuplicates target) (key k : Text) (value : NbtTag) :
    (mergeValue removal target key value).lookup k =
      if k = key then some (mergedValue removal (target.lookup key) value) else target.lookup k := by
  unfold mergeValue
  split
  · split
    · rename_i htarget
      rw [KeyedEntries.lookup_setFirst htarget, htarget]
      rfl
    · rename_i hnot
      rw [lookup_replace removal ht, mergedValue_of_not removal fun t _ ht _ => hnot t ht]
  · rename_i hnot
    rw [lookup_replace removal ht, mergedValue_of_not removal fun _ s _ hs => hnot s hs]

theorem noDuplicates_merge (source : Entries) : ∀ {target : Entries}, KeyedEntries.NoDuplicates target →
    KeyedEntries.NoDuplicates (mergeNbtCompounds removal target source) := by
  induction source with
  | nil =>
    intro target ht
    exact ht
  | cons e rest ih =>
    intro target ht
    exact ih (noDuplicates_mergeValue removal ht e.1 e.2)

theorem lookup_merge {source : Entries} (hs : KeyedEntries.NoDuplicates source) (k : Text) :
    ∀ {target : Entries}, KeyedEntries.NoDuplicates target → (mergeNbtCompounds removal target source).lookup k =
      match source.lookup k with
      | some value => some (mergedValue removal (target.lookup k) value)
      | none => target.lookup k := by
  induction source with
  | nil =>
    intro target ht
    rfl
  | cons e rest ih =>
    intro target ht
    obtain ⟨key, value⟩ := e
    obtain ⟨hfresh, hrest⟩ := List.nodup_cons.mp hs
    rw [mergeNbtCompounds, ih hrest (noDuplicates_mergeValue removal ht key value), KeyedEntries.lookup_cons_ite,
      lookup_mergeValue removal ht]
    by_cases hk : k = key
    · subst hk
      rw [KeyedEntries.lookup_eq_none_iff.mpr hfresh]
      simp
    · simp [hk]

theorem mem_keys_merge (hs : KeyedEntries.NoDuplicates source) (ht : KeyedEntries.NoDuplicates target) (k : Text) :
    k ∈ (mergeNbtCompounds removal target source).map Prod.fst ↔
      k ∈ target.map Prod.fst ∨ k ∈ source.map Prod.fst := by
  rw [← KeyedEntries.lookup_isSome_iff, ← KeyedEntries.lookup_isSome_iff, ← KeyedEntries.lookup_isSome_iff,
    lookup_merge removal hs k ht]
  cases source.lookup k <;> simp

end

/-! ## Compounds equal as maps -/

/-- The values of two compounds under one key agree. -/
def SameValue : Option NbtTag → Option NbtTag → Prop
  | none, none => True
  | some a, some b => nbtTagsEqual a b = true
  | _, _ => False

theorem SameValue.refl {value : Option NbtTag} (h : ∀ v, value = some v → Distinct v) : SameValue value value := by
  cases value with
  | none => trivial
  | some v => exact nbtTagsEqual_refl (h v rfl)

theorem nbtTagsEqual_of_lookup {left right : Entries} (hl : KeyedEntries.NoDuplicates left)
    (hr : KeyedEntries.NoDuplicates right) (h : ∀ k, SameValue (left.lookup k) (right.lookup k)) :
    nbtTagsEqual (.compound left) (.compound right) = true := by
  have hkeys : ∀ k, k ∈ left.map Prod.fst ↔ k ∈ right.map Prod.fst := by
    intro k
    have hk := h k
    rw [← KeyedEntries.lookup_isSome_iff, ← KeyedEntries.lookup_isSome_iff]
    cases hlk : left.lookup k <;> cases hrk : right.lookup k <;> simp_all [SameValue]
  rw [nbtTagsEqual_compound]
  constructor
  · have hperm := (List.perm_ext_iff_of_nodup hl hr).mpr hkeys
    simpa using hperm.length_eq
  · intro e he
    have hk := h e.1
    rw [KeyedEntries.lookup_of_mem hl he] at hk
    cases hrk : right.lookup e.1 with
    | none =>
      rw [hrk] at hk
      exact absurd hk id
    | some value =>
      rw [hrk] at hk
      exact ⟨value, rfl, hk⟩

/-! ## Distinct keys -/

section
variable (removal : KeyRemoval)

theorem distinct_of_lookup {entries : Entries} (hkeys : KeyedEntries.NoDuplicates entries)
    (h : ∀ k v, entries.lookup k = some v → Distinct v) : Distinct (.compound entries) := by
  rw [distinct_compound]
  refine ⟨hkeys, ?_⟩
  intro e he
  exact h e.1 e.2 (KeyedEntries.lookup_of_mem hkeys he)

theorem Distinct.noDuplicates {entries : Entries} (h : Distinct (.compound entries)) :
    KeyedEntries.NoDuplicates entries := by
  rw [distinct_compound] at h
  exact h.1

theorem distinct_merge {source : Entries} (hs : Distinct (.compound source)) : ∀ {target : Entries},
    Distinct (.compound target) → Distinct (.compound (mergeNbtCompounds removal target source)) := by
  induction source using Entries.induct with
  | h source ih =>
    intro target ht
    apply distinct_of_lookup (noDuplicates_merge removal source ht.noDuplicates)
    intro k v hv
    rw [lookup_merge removal hs.noDuplicates k ht.noDuplicates] at hv
    cases hsk : source.lookup k with
    | none =>
      rw [hsk] at hv
      exact ht.lookup hv
    | some value =>
      rw [hsk] at hv
      cases hv
      rcases mergedValue_cases removal (target.lookup k) value with ⟨t, s, htk, hval, heq⟩ | ⟨_, heq⟩
      · rw [heq]
        subst hval
        exact ih k s hsk (hs.lookup hsk) (ht.lookup htk)
      · rw [heq]
        exact hs.lookup hsk

/-! ## The laws of the update -/

theorem compareNbtCompounds_iff (expected actual : Entries) :
    compareNbtCompounds expected actual true = compareTags true (.compound expected) (.compound actual) := by
  simp [compareNbtCompounds, compareTags]

theorem compare_merge {source : Entries} (hs : Distinct (.compound source)) : ∀ {target : Entries},
    Distinct (.compound target) →
      compareTags true (.compound source) (.compound (mergeNbtCompounds removal target source)) = true := by
  induction source using Entries.induct with
  | h source ih =>
    intro target ht
    have hkeys := hs.noDuplicates
    rw [compareTags_compound]
    constructor
    · have hsub : source.map Prod.fst ⊆ (mergeNbtCompounds removal target source).map Prod.fst := by
        intro k hk
        exact (mem_keys_merge removal hkeys ht.noDuplicates k).mpr (Or.inr hk)
      have hle := (List.subperm_of_subset hkeys hsub).length_le
      simpa using hle
    · intro e he
      have hlookup := KeyedEntries.lookup_of_mem hkeys he
      refine ⟨mergedValue removal (target.lookup e.1) e.2, ?_, ?_⟩
      · rw [lookup_merge removal hkeys e.1 ht.noDuplicates, hlookup]
      · rcases mergedValue_cases removal (target.lookup e.1) e.2 with ⟨t, s, htk, hval, heq⟩ | ⟨_, heq⟩
        · rw [heq, hval]
          rw [hval] at hlookup
          exact ih e.1 s hlookup (hs.lookup hlookup) (ht.lookup htk)
        · rw [heq]
          exact compareTags_refl (hs.lookup hlookup)

theorem merge_self {source : Entries} (hs : Distinct (.compound source)) :
    nbtTagsEqual (.compound (mergeNbtCompounds removal source source)) (.compound source) = true := by
  induction source using Entries.induct with
  | h source ih =>
    have hkeys := hs.noDuplicates
    apply nbtTagsEqual_of_lookup (noDuplicates_merge removal source hkeys) hkeys
    intro k
    rw [lookup_merge removal hkeys k hkeys]
    cases hsk : source.lookup k with
    | none => trivial
    | some value =>
      dsimp only [SameValue]
      rcases mergedValue_cases removal (some value) value with ⟨t, s, htk, hval, heq⟩ | ⟨_, heq⟩
      · rw [heq]
        subst hval
        cases htk
        exact ih k _ hsk (hs.lookup hsk)
      · rw [heq]
        exact nbtTagsEqual_refl (hs.lookup hsk)

theorem merge_twice {source : Entries} (hs : Distinct (.compound source)) : ∀ {target : Entries},
    Distinct (.compound target) →
      nbtTagsEqual (.compound (mergeNbtCompounds removal (mergeNbtCompounds removal target source) source))
        (.compound (mergeNbtCompounds removal target source)) = true := by
  induction source using Entries.induct with
  | h source ih =>
    intro target ht
    have hkeys := hs.noDuplicates
    have hu := distinct_merge removal hs ht
    apply nbtTagsEqual_of_lookup (noDuplicates_merge removal source hu.noDuplicates) hu.noDuplicates
    intro k
    rw [lookup_merge removal hkeys k hu.noDuplicates]
    cases hsk : source.lookup k with
    | none => exact SameValue.refl fun v hv => hu.lookup hv
    | some value =>
      rw [lookup_merge removal hkeys k ht.noDuplicates, hsk]
      dsimp only [SameValue]
      rcases mergedValue_cases removal (target.lookup k) value with ⟨t, s, htk, hval, heq⟩ | ⟨_, heq⟩
      · rw [heq]
        subst hval
        exact ih k s hsk (hs.lookup hsk) (ht.lookup htk)
      · rw [heq]
        rcases mergedValue_cases removal (some value) value with ⟨t, s, htk, hval, heq'⟩ | ⟨_, heq'⟩
        · rw [heq']
          subst hval
          cases htk
          exact merge_self removal (hs.lookup hsk)
        · rw [heq']
          exact nbtTagsEqual_refl (hs.lookup hsk)

/-! ## Paths of keys -/

def valueAt : List Text → NbtTag → Option NbtTag
  | [], tag => some tag
  | key :: path, .compound entries => (entries.lookup key).bind (valueAt path)
  | _ :: _, _ => none

theorem valueAt_cons (key : Text) (path : List Text) (entries : Entries) :
    valueAt (key :: path) (.compound entries) = (entries.lookup key).bind (valueAt path) := rfl

theorem exists_of_valueAt_cons {key : Text} {path : List Text} {tag value : NbtTag}
    (h : valueAt (key :: path) tag = some value) : ∃ entries, tag = .compound entries := by
  cases tag <;> simp [valueAt] at h ⊢

theorem valueAt_eq_none {path : List Text} {tag : NbtTag} {entries : Entries} {key : Text} (rest : List Text)
    (h : valueAt path tag = some (.compound entries)) (hkey : entries.lookup key = none) :
    valueAt (path ++ key :: rest) tag = none := by
  induction path generalizing tag with
  | nil =>
    cases h
    simp [valueAt, hkey]
  | cons k path ih =>
    obtain ⟨sub, rfl⟩ := exists_of_valueAt_cons h
    rw [valueAt_cons] at h
    obtain ⟨value, hvalue, hrest⟩ := Option.bind_eq_some_iff.mp h
    rw [List.cons_append, valueAt_cons, hvalue]
    exact ih hrest

theorem valueAt_merge {path : List Text} {source target entries : Entries} {key : Text} (rest : List Text)
    (hs : Distinct (.compound source)) (ht : Distinct (.compound target))
    (h : valueAt path (.compound source) = some (.compound entries)) (hkey : entries.lookup key = none) :
    valueAt (path ++ key :: rest) (.compound (mergeNbtCompounds removal target source)) =
      valueAt (path ++ key :: rest) (.compound target) := by
  induction path generalizing source target with
  | nil =>
    cases h
    rw [List.nil_append, valueAt_cons, valueAt_cons, lookup_merge removal hs.noDuplicates key ht.noDuplicates, hkey]
  | cons k path ih =>
    rw [valueAt_cons] at h
    obtain ⟨value, hvalue, hrest⟩ := Option.bind_eq_some_iff.mp h
    rw [List.cons_append, valueAt_cons, valueAt_cons, lookup_merge removal hs.noDuplicates k ht.noDuplicates, hvalue]
    rcases mergedValue_cases removal (target.lookup k) value with ⟨t, s, htk, hval, heq⟩ | ⟨hnot, heq⟩
    · subst hval
      dsimp only [Option.bind_some]
      rw [heq, htk]
      exact ih (hs.lookup hvalue) (ht.lookup htk) hrest
    · dsimp only [Option.bind_some]
      rw [heq, valueAt_eq_none rest hrest hkey]
      have hcompound : ∃ sub, value = .compound sub := by
        cases path with
        | nil =>
          cases hrest
          exact ⟨_, rfl⟩
        | cons k' path => exact exists_of_valueAt_cons hrest
      obtain ⟨sub, hsub⟩ := hcompound
      cases htk : target.lookup k with
      | none => rfl
      | some tag =>
        have hnone : valueAt (path ++ key :: rest) tag = none := by
          have hother : ∀ t, tag ≠ .compound t := fun t ht' => hnot t sub (ht' ▸ htk) hsub
          cases path <;> cases tag <;> first | rfl | exact absurd rfl (hother _)
        exact hnone.symm

/-! ## Merging one after the other -/

/-- Nowhere does a value of the middle one stand between two compounds without being one. -/
def NoClash (target first second : Entries) : Prop :=
  ∀ path t v s, valueAt path (.compound target) = some (.compound t) → valueAt path (.compound first) = some v →
    valueAt path (.compound second) = some (.compound s) → ∃ c, v = .compound c

theorem NoClash.under {target first second t c s : Entries} (h : NoClash target first second) {k : Text}
    (ht : target.lookup k = some (.compound t)) (hc : first.lookup k = some (.compound c))
    (hs : second.lookup k = some (.compound s)) : NoClash t c s := by
  intro path t' v s' ht' hv hs'
  apply h (k :: path) t' v s'
  · simpa [valueAt_cons, ht] using ht'
  · simpa [valueAt_cons, hc] using hv
  · simpa [valueAt_cons, hs] using hs'

/-- One key of the three compounds; `hsub` is the case of three compounds under it. -/
theorem mergedValue_mergedValue {targetValue : Option NbtTag} {v₁ v₂ : NbtTag} (h₁ : Distinct v₁) (h₂ : Distinct v₂)
    (hclash : ∀ t s, targetValue = some (.compound t) → v₂ = .compound s → ∃ c, v₁ = .compound c)
    (hsub : ∀ t c s, targetValue = some (.compound t) → v₁ = .compound c → v₂ = .compound s →
      nbtTagsEqual (.compound (mergeNbtCompounds removal (mergeNbtCompounds removal t c) s))
        (.compound (mergeNbtCompounds removal t (mergeNbtCompounds removal c s))) = true) :
    nbtTagsEqual (mergedValue removal (some (mergedValue removal targetValue v₁)) v₂)
      (mergedValue removal targetValue (mergedValue removal (some v₁) v₂)) = true := by
  rcases mergedValue_cases removal (some v₁) v₂ with ⟨c, s, hc, hs, heq⟩ | ⟨hnot, heq⟩
  · cases hc
    subst hs
    rcases mergedValue_cases removal targetValue (.compound c) with ⟨t, _, ht, hval, heq'⟩ | ⟨hnot, heq'⟩
    · cases hval
      subst ht
      exact hsub t c s rfl rfl rfl
    · have hright : mergedValue removal targetValue (.compound (mergeNbtCompounds removal c s)) =
          .compound (mergeNbtCompounds removal c s) :=
        mergedValue_of_not removal fun t _ ht _ => hnot t c ht rfl
      rw [heq', heq, hright]
      exact nbtTagsEqual_refl (distinct_merge removal h₂ h₁)
  · have hright : mergedValue removal targetValue v₂ = v₂ := by
      apply mergedValue_of_not
      intro t s ht hs
      obtain ⟨c, hc⟩ := hclash t s ht hs
      exact hnot c s (congrArg some hc) hs
    have hleft : mergedValue removal (some (mergedValue removal targetValue v₁)) v₂ = v₂ := by
      apply mergedValue_of_not
      intro x s hx hs
      rcases mergedValue_cases removal targetValue v₁ with ⟨t, c, ht, hc, _⟩ | ⟨_, heq'⟩
      · exact hnot c s (congrArg some hc) hs
      · rw [heq'] at hx
        exact hnot x s hx hs
    rw [heq, hright, hleft]
    exact nbtTagsEqual_refl h₂

theorem merge_merge {second : Entries} (hs₂ : Distinct (.compound second)) : ∀ {target first : Entries},
    Distinct (.compound target) → Distinct (.compound first) → NoClash target first second →
      nbtTagsEqual (.compound (mergeNbtCompounds removal (mergeNbtCompounds removal target first) second))
        (.compound (mergeNbtCompounds removal target (mergeNbtCompounds removal first second))) = true := by
  induction second using Entries.induct with
  | h second ih =>
    intro target first ht hs₁ hclash
    have hleft := distinct_merge removal hs₁ ht
    have hright := distinct_merge removal hs₂ hs₁
    have hall := distinct_merge removal hright ht
    apply nbtTagsEqual_of_lookup (noDuplicates_merge removal second hleft.noDuplicates) hall.noDuplicates
    intro k
    rw [lookup_merge removal hs₂.noDuplicates k hleft.noDuplicates]
    cases hk₂ : second.lookup k with
    | none =>
      have hsame : (mergeNbtCompounds removal target (mergeNbtCompounds removal first second)).lookup k =
          (mergeNbtCompounds removal target first).lookup k := by
        rw [lookup_merge removal hright.noDuplicates k ht.noDuplicates,
          lookup_merge removal hs₂.noDuplicates k hs₁.noDuplicates, hk₂,
          lookup_merge removal hs₁.noDuplicates k ht.noDuplicates]
      rw [hsame]
      exact SameValue.refl fun v hv => hleft.lookup hv
    | some v₂ =>
      rw [lookup_merge removal hright.noDuplicates k ht.noDuplicates,
        lookup_merge removal hs₂.noDuplicates k hs₁.noDuplicates, hk₂,
        lookup_merge removal hs₁.noDuplicates k ht.noDuplicates]
      cases hk₁ : first.lookup k with
      | none =>
        have hnone : mergedValue removal none v₂ = v₂ := mergedValue_of_not removal fun _ _ h _ => nomatch h
        dsimp only [SameValue]
        rw [hnone]
        rcases mergedValue_cases removal (target.lookup k) v₂ with ⟨t, s, htk, hval, heq⟩ | ⟨_, heq⟩
        · rw [heq]
          subst hval
          exact nbtTagsEqual_refl (distinct_merge removal (hs₂.lookup hk₂) (ht.lookup htk))
        · rw [heq]
          exact nbtTagsEqual_refl (hs₂.lookup hk₂)
      | some v₁ =>
        apply mergedValue_mergedValue removal (hs₁.lookup hk₁) (hs₂.lookup hk₂)
        · intro t s htk hval
          subst hval
          apply hclash [k] t v₁ s
          · simp [valueAt, htk]
          · simp [valueAt, hk₁]
          · simp [valueAt, hk₂]
        · intro t c s htk hc hval
          subst hc hval
          exact ih k s hk₂ (hs₂.lookup hk₂) (ht.lookup htk) (hs₁.lookup hk₁) (hclash.under htk hk₁ hk₂)

/-! ## The laws together -/

def nbtCompoundsEqual (left right : Entries) : Bool :=
  left.length = right.length && nbtEntriesFound left right

theorem nbtCompoundsEqual_eq (left right : Entries) :
    nbtCompoundsEqual left right = nbtTagsEqual (.compound left) (.compound right) := by
  rw [nbtTagsEqual, nbtCompoundsEqual]

/-- Partial matching is a preorder above equality, and the merge is its update. -/
theorem matching_preorder_merge_update :
    (∀ a, Distinct a → compareNbt (some a) (some a) true = true) ∧
    (∀ a b c, Distinct a → Distinct b → Distinct c → compareNbt (some a) (some b) true = true →
      compareNbt (some b) (some c) true = true → compareNbt (some a) (some c) true = true) ∧
    (∀ a b, Distinct a → Distinct b → nbtTagsEqual a b = true → compareNbt (some a) (some b) true = true) ∧
    (∀ t s, Distinct (.compound t) → Distinct (.compound s) →
      Distinct (.compound (mergeNbtCompounds removal t s)) ∧
      compareNbtCompounds s (mergeNbtCompounds removal t s) true = true ∧
      (∀ path entries key rest, valueAt path (.compound s) = some (.compound entries) → entries.lookup key = none →
        valueAt (path ++ key :: rest) (.compound (mergeNbtCompounds removal t s)) =
          valueAt (path ++ key :: rest) (.compound t)) ∧
      nbtCompoundsEqual (mergeNbtCompounds removal (mergeNbtCompounds removal t s) s) (mergeNbtCompounds removal t s) =
        true) ∧
    (∀ t s₁ s₂, Distinct (.compound t) → Distinct (.compound s₁) → Distinct (.compound s₂) → NoClash t s₁ s₂ →
      nbtCompoundsEqual (mergeNbtCompounds removal (mergeNbtCompounds removal t s₁) s₂)
        (mergeNbtCompounds removal t (mergeNbtCompounds removal s₁ s₂)) = true) := by
  refine ⟨?_, ?_, ?_, ?_, ?_⟩
  · intro a ha
    exact compareTags_refl ha
  · intro a b c _ _ _ hab hbc
    exact compareTags_trans hab hbc
  · intro a b _ _ h
    exact compareTags_of_equal h
  · intro t s ht hs
    refine ⟨distinct_merge removal hs ht, ?_, ?_, ?_⟩
    · rw [compareNbtCompounds_iff]
      exact compare_merge removal hs ht
    · intro path entries key rest hpath hkey
      exact valueAt_merge removal rest hs ht hpath hkey
    · rw [nbtCompoundsEqual_eq]
      exact merge_twice removal hs ht
  · intro t s₁ s₂ ht hs₁ hs₂ hclash
    rw [nbtCompoundsEqual_eq]
    exact merge_merge removal hs₂ ht hs₁ hclash

end

/-- Three compounds under two keys. -/
theorem merge_laws_at_two_keys : nbtCompoundsEqual
    (mergeNbtCompounds .inOrder (mergeNbtCompounds .inOrder [(['a'], .byte 1)] [(['b'], .byte 2)]) [(['a'], .byte 3)])
    (mergeNbtCompounds .inOrder [(['a'], .byte 1)] (mergeNbtCompounds .inOrder [(['b'], .byte 2)] [(['a'], .byte 3)])) =
      true := by
  apply (matching_preorder_merge_update .inOrder).2.2.2.2
  · simp [Distinct, DistinctEntries, KeyedEntries.NoDuplicates]
  · simp [Distinct, DistinctEntries, KeyedEntries.NoDuplicates]
  · simp [Distinct, DistinctEntries, KeyedEntries.NoDuplicates]
  · intro path t v s _ hv _
    cases path with
    | nil => exact ⟨_, (Option.some.inj hv).symm⟩
    | cons key path =>
      rename_i ht hs
      rw [valueAt_cons, KeyedEntries.lookup_cons_ite] at ht
      by_cases hkey : key = ['a']
      · simp only [hkey, if_true, Option.bind_some] at ht
        cases path <;> simp [valueAt] at ht
      · simp [hkey] at ht

/-- The middle merge puts a number where the others have compounds, and so clears the first compound. -/
theorem merge_not_associative : ¬ ∀ (removal : KeyRemoval) (t s₁ s₂ : Entries),
    Distinct (.compound t) → Distinct (.compound s₁) → Distinct (.compound s₂) →
      nbtCompoundsEqual (mergeNbtCompounds removal (mergeNbtCompounds removal t s₁) s₂)
        (mergeNbtCompounds removal t (mergeNbtCompounds removal s₁ s₂)) = true := by
  intro h
  have heq := h .inOrder [(['a'], .compound [(['x'], .byte 1)])] [(['a'], .byte 5)] [(['a'], .compound [])]
    (by simp [Distinct, DistinctEntries, KeyedEntries.NoDuplicates])
    (by simp [Distinct, DistinctEntries, KeyedEntries.NoDuplicates])
    (by simp [Distinct, DistinctEntries, KeyedEntries.NoDuplicates])
  revert heq
  decide

end Foton.Snbt
