import Mathlib.Data.List.AList

/-!
# Association lists with one type of value
-/

namespace Foton

/-- A finite map from `K` to `V`. -/
abbrev AssocList (K V : Type) : Type := AList fun _ : K => V

namespace AssocList

variable {K V W : Type}

/-- Every value is replaced, or dropped with its key. -/
def retainMap (f : V → Option W) (m : AssocList K V) : AssocList K W where
  entries := m.entries.filterMap fun e => (f e.2).map (Sigma.mk e.1)
  nodupKeys := by
    have hkeys := m.nodupKeys
    revert hkeys
    generalize m.entries = entries
    intro hkeys
    induction entries with
    | nil => exact List.nodupKeys_nil
    | cons e rest ih =>
      obtain ⟨hnew, hrest⟩ := List.nodupKeys_cons.mp hkeys
      cases he : f e.2 with
      | none => simpa [he] using ih hrest
      | some w =>
        rw [List.filterMap_cons_some (by rw [he]; rfl)]
        refine List.nodupKeys_cons.mpr ⟨fun hmem => hnew ?_, ih hrest⟩
        obtain ⟨w', hw'⟩ := List.exists_of_mem_keys hmem
        obtain ⟨⟨k', v'⟩, he', hmap⟩ := List.mem_filterMap.mp hw'
        obtain ⟨w'', -, heq⟩ := Option.map_eq_some_iff.mp hmap
        obtain ⟨rfl, -⟩ := Sigma.mk.inj heq
        exact List.mem_keys.mpr ⟨v', he'⟩

/-- The entries, in no order that matters. -/
def pairs (m : AssocList K V) : List (K × V) := m.entries.map fun e => (e.1, e.2)

theorem nodup_pairs (m : AssocList K V) : m.pairs.Nodup := by
  apply List.Nodup.map _ m.nodupKeys.nodup
  rintro ⟨k, v⟩ ⟨k', v'⟩ h
  cases h
  rfl

variable [DecidableEq K] {k a : K} {v : V} {m : AssocList K V}

theorem mem_pairs : (k, v) ∈ m.pairs ↔ m.lookup k = some v := by
  rw [← Option.mem_def, AList.mem_lookup_iff]
  constructor
  · intro h
    obtain ⟨⟨k', v'⟩, he, heq⟩ := List.mem_map.mp h
    cases heq
    exact he
  · intro h
    exact List.mem_map.mpr ⟨⟨k, v⟩, h, rfl⟩

theorem lookup_insert : (m.insert k v).lookup a = if a = k then some v else m.lookup a := by
  split
  · rename_i heq
    rw [heq, AList.lookup_insert]
  · rename_i hne
    rw [AList.lookup_insert_ne hne]

theorem lookup_erase : (m.erase k).lookup a = if a = k then none else m.lookup a := by
  split
  · rename_i heq
    rw [heq, AList.lookup_erase]
  · rename_i hne
    rw [AList.lookup_erase_ne hne]

theorem perm_pairs_erase (h : m.lookup k = some v) : m.pairs.Perm ((k, v) :: AssocList.pairs (m.erase k)) := by
  refine (List.perm_ext_iff_of_nodup m.nodup_pairs (List.nodup_cons.mpr ⟨?_, nodup_pairs _⟩)).mpr ?_
  · rw [mem_pairs, lookup_erase, if_pos rfl]
    exact nofun
  · rintro ⟨a, w⟩
    rw [List.mem_cons, mem_pairs, mem_pairs, lookup_erase, Prod.mk.injEq]
    by_cases ha : a = k
    · rw [if_pos ha, ha, h]
      simp [eq_comm]
    · simp [ha]

theorem perm_pairs_insert : (AssocList.pairs (m.insert k v)).Perm ((k, v) :: AssocList.pairs (m.erase k)) := by
  have hlookup : (m.insert k v).lookup k = some v := by rw [lookup_insert, if_pos rfl]
  apply (perm_pairs_erase hlookup).trans
  apply List.Perm.cons
  refine (List.perm_ext_iff_of_nodup (nodup_pairs _) (nodup_pairs _)).mpr ?_
  rintro ⟨a, w⟩
  rw [mem_pairs, mem_pairs, lookup_erase, lookup_erase, lookup_insert]
  split
  · rfl
  · rfl

theorem perm_pairs_erase_new (h : m.lookup k = none) : m.pairs.Perm (AssocList.pairs (m.erase k)) := by
  refine (List.perm_ext_iff_of_nodup (nodup_pairs _) (nodup_pairs _)).mpr ?_
  rintro ⟨a, w⟩
  rw [mem_pairs, mem_pairs, lookup_erase]
  split
  · rename_i ha
    rw [ha, h]
  · rfl

theorem perm_pairs_insert_new (h : m.lookup k = none) : (AssocList.pairs (m.insert k v)).Perm ((k, v) :: m.pairs) :=
  perm_pairs_insert.trans ((perm_pairs_erase_new h).symm.cons _)

/-- The number of values with a property. -/
def count (p : V → Bool) (m : AssocList K V) : Nat := m.entries.countP fun e => p e.2

theorem count_erase (p : V → Bool) : count p (m.erase k) + (m.lookup k).toList.countP p = count p m := by
  unfold count AList.lookup
  rw [show (m.erase k).entries = m.entries.kerase k from rfl]
  have hkeys := m.nodupKeys
  revert hkeys
  generalize m.entries = entries
  intro hkeys
  induction entries with
  | nil => rfl
  | cons e rest ih =>
    obtain ⟨-, hrest⟩ := List.nodupKeys_cons.mp hkeys
    obtain ⟨k', v⟩ := e
    by_cases hk : k = k'
    · subst hk
      simp [List.kerase_cons_eq, List.dlookup_cons_eq, List.countP_cons]
    · have hih := ih hrest
      rw [List.kerase_cons_ne hk, List.dlookup_cons_ne _ _ hk, List.countP_cons, List.countP_cons]
      dsimp only at hih ⊢
      omega

theorem count_insert (p : V → Bool) : count p (m.insert k v) = [v].countP p + count p (m.erase k) := by
  unfold count
  have herase : (m.erase k).entries = m.entries.kerase k := rfl
  rw [AList.entries_insert, List.countP_cons, herase]
  simp [List.countP_cons, Nat.add_comm]

theorem count_insert_new (p : V → Bool) (h : m.lookup k = none) : count p (m.insert k v) = [v].countP p + count p m := by
  rw [count_insert, ← count_erase (m := m) (k := k), h]
  simp

theorem lookup_retainMap (f : V → Option W) : (m.retainMap f).lookup a = (m.lookup a).bind f := by
  ext w
  rw [Option.bind_eq_some_iff, ← Option.mem_def, AList.mem_lookup_iff]
  constructor
  · intro hmem
    obtain ⟨e, he, hmap⟩ := List.mem_filterMap.mp hmem
    obtain ⟨w', hw', heq⟩ := Option.map_eq_some_iff.mp hmap
    cases heq
    exact ⟨e.2, AList.mem_lookup_iff.mpr he, hw'⟩
  · rintro ⟨v, hv, hw⟩
    exact List.mem_filterMap.mpr ⟨⟨a, v⟩, AList.mem_lookup_iff.mp hv, by rw [hw]; rfl⟩

end AssocList

end Foton
