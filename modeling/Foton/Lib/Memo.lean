import Mathlib.Data.List.Nodup
import Mathlib.Data.List.Perm.Subperm
import Mathlib.Data.List.Basic

/-!
# Interning

A table gives each key the place where it was first put. It only grows at the
end, so a place keeps its key.
-/

namespace Foton

section

theorem place_kept {K : Type*} {table table' : List K} (h : table <+: table') {i : Nat} {key : K}
    (hi : table[i]? = some key) : table'[i]? = some key := by
  obtain ⟨more, rfl⟩ := h
  rw [List.getElem?_append_left (List.getElem?_eq_some_iff.mp hi).1, hi]

variable {K : Type*} [DecidableEq K]

/-- The place of a key, which is appended when it is new. -/
def intern (key : K) (table : List K) : Nat × List K :=
  match table.findIdx? (· = key) with
  | some i => (i, table)
  | none => (table.length, table ++ [key])

/-- What is known after a key has been interned. -/
structure Interned (key : K) (table : List K) (place : Nat × List K) : Prop where
  prefixed : table <+: place.2
  found : place.2[place.1]? = some key
  nodup : table.Nodup → place.2.Nodup
  mem : ∀ k ∈ place.2, k ∈ table ∨ k = key

theorem intern_spec (key : K) (table : List K) : Interned key table (intern key table) := by
  unfold intern
  cases hfind : table.findIdx? (· = key) with
  | some i =>
    obtain ⟨hi, hkey, -⟩ := List.findIdx?_eq_some_iff_getElem.mp hfind
    refine ⟨List.prefix_refl table, ?_, id, fun k hk => Or.inl hk⟩
    rw [List.getElem?_eq_getElem hi]
    simpa using hkey
  | none =>
    have hnew : key ∉ table := fun hmem => by simpa using List.findIdx?_eq_none_iff.mp hfind key hmem
    refine ⟨List.prefix_append table [key], ?_, fun hnodup => ?_, fun k hk => ?_⟩
    · rw [List.getElem?_append_right (Nat.le_refl _), Nat.sub_self]
      rfl
    · exact hnodup.append (List.nodup_singleton key) (by simpa using hnew)
    · simpa using hk

end

/-!
## Caches of computed results
A cache keeps the results of a partial function for its most recent keys. As
long as it only holds what the function gives, looking a key up in it is as
good as computing it, whatever has been evicted.
-/

section

namespace Memo

variable {K V : Type*} [DecidableEq K]

/-- The result for a key, whose entry becomes the most recent one. -/
def find (cache : List (K × V)) (key : K) : Option (V × List (K × V)) :=
  match cache.find? fun entry => entry.1 = key with
  | some entry => some (entry.2, (cache.eraseP fun entry => entry.1 = key) ++ [entry])
  | none => none

/-- At capacity the oldest entry goes. -/
def store (capacity : Nat) (cache : List (K × V)) (key : K) (value : V) : List (K × V) :=
  (if capacity ≤ cache.length then cache.tail else cache) ++ [(key, value)]

def Sound (f : K → Option V) (cache : List (K × V)) : Prop :=
  ∀ entry ∈ cache, f entry.1 = some entry.2

variable {f : K → Option V} {cache : List (K × V)}

omit [DecidableEq K] in
theorem sound_nil : Sound f [] := by
  simp [Sound]

theorem Sound.find (h : Sound f cache) {key : K} {value : V} {cache' : List (K × V)}
    (hfind : Memo.find cache key = some (value, cache')) : f key = some value ∧ Sound f cache' := by
  unfold Memo.find at hfind
  split at hfind
  · rename_i entry hentry
    cases hfind
    have hkey : entry.1 = key := by simpa using List.find?_some hentry
    have hmem := List.mem_of_find?_eq_some hentry
    refine ⟨hkey ▸ h entry hmem, ?_⟩
    intro e he
    rcases List.mem_append.mp he with he | he
    · exact h e (List.mem_of_mem_eraseP he)
    · rw [List.mem_singleton.mp he]
      exact h entry hmem
  · cases hfind

omit [DecidableEq K] in
theorem Sound.store (h : Sound f cache) (capacity : Nat) {key : K} {value : V} (hkey : f key = some value) :
    Sound f (Memo.store capacity cache key value) := by
  intro e he
  rcases List.mem_append.mp he with he | he
  · split at he
    · exact h e (List.mem_of_mem_tail he)
    · exact h e he
  · rw [List.mem_singleton.mp he]
    exact hkey

end Memo

end

end Foton
