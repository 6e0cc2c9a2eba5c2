import Mathlib.Data.List.Infix
import Mathlib.Data.Option.Basic
import Mathlib.Data.List.Basic

/-!
# Deepest declared prefixes

Of a set of declared words, the longest one that a given word begins with.
-/

namespace Foton

section

variable {α : Type*} [DecidableEq α]

def deepestPrefix (declared : List (List α)) (word : List α) : Option (List α) :=
  word.inits.reverse.find? fun p => p ∈ declared

variable (declared : List (List α)) (word : List α)

theorem deepestPrefix_nil (h : [] ∉ declared) : deepestPrefix declared [] = none := by
  simp [deepestPrefix, h]

theorem deepestPrefix_concat (a : α) : deepestPrefix declared (word ++ [a]) =
    if word ++ [a] ∈ declared then some (word ++ [a]) else deepestPrefix declared word := by
  have h : (word ++ [a]).inits = word.inits ++ [word ++ [a]] := by simp [List.inits_append]
  simp only [deepestPrefix, h, List.reverse_append, List.reverse_singleton, List.singleton_append, List.find?_cons]
  split <;> simp_all

variable {declared word}

end

/-!
## Maps from paths
A tree with named branches is a map from its paths. Hanging a tree below a path
of another one moves all its paths there, and where two trees meet a function
says what becomes of the two values.
-/

section

variable {K V : Type*} [DecidableEq K]

/-- The map `m`, hung below `path`. -/
def under (path : List K) (m : List K → Option V) (q : List K) : Option V :=
  if path <+: q then m (q.drop path.length) else none

section
variable {m : List K → Option V} {path q : List K}

@[simp]
theorem under_append (path : List K) (m : List K → Option V) (q : List K) : under path m (path ++ q) = m q := by
  simp [under]

@[simp]
theorem under_self (path : List K) (m : List K → Option V) : under path m path = m [] := by
  simp [under]

@[simp]
theorem under_nil (m : List K → Option V) : under [] m = m := by
  funext q
  simp [under]

@[simp]
theorem under_cons (key : K) (path : List K) (m : List K → Option V) : under (key :: path) m [] = none := by
  simp [under]

theorem under_singleton (key key' : K) (m : List K → Option V) (q : List K) :
    under [key] m (key' :: q) = if key = key' then m q else none := by
  simp [under]

theorem under_eq_none (h : ¬path <+: q) : under path m q = none := if_neg h

theorem under_isSome (h : (under path m q).isSome) : ∃ r, q = path ++ r ∧ under path m q = m r := by
  by_cases hprefix : path <+: q
  · obtain ⟨r, rfl⟩ := hprefix
    exact ⟨r, rfl, under_append path m r⟩
  · rw [under_eq_none hprefix] at h
    cases h

theorem under_under (path path' : List K) (m : List K → Option V) : under path (under path' m) = under (path ++ path') m := by
  funext q
  by_cases hprefix : path <+: q
  · obtain ⟨r, rfl⟩ := hprefix
    simp [under]
  · rw [under_eq_none hprefix, under_eq_none]
    intro h
    exact hprefix ((List.prefix_append path path').trans h)

theorem under_congr {m' : List K → Option V} (path : List K) (h : ∀ q, m q = m' q) : under path m = under path m' := by
  rw [funext h]

end

section
variable {f : V → V → V} {a b c : Option V}

theorem merge_merge_of_or (h : b = none ∨ c = none) : (a.merge f b).merge f c = a.merge f (b <|> c) := by
  rcases h with rfl | rfl
  · simp
  · simp

theorem merge_isSome : (a.merge f b).isSome ↔ a.isSome ∨ b.isSome := by
  cases a <;> cases b <;> simp

end

end

end Foton
