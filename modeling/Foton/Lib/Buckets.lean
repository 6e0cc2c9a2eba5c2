import Mathlib.Data.Finset.Insert
import Mathlib.Data.Finset.Erase
import Mathlib.Logic.Function.Basic

/-!
# Maps into nonempty sets

A relation kept as a map from each key to the finite set of what it is related
to. A key that is related to nothing is not in the map.
-/

namespace Foton

variable {K V : Type*} [DecidableEq K] [DecidableEq V]

abbrev Buckets (K V : Type*) := K → Option (Finset V)

namespace Buckets

def get (m : Buckets K V) (k : K) : Finset V := (m k).getD ∅

def add (m : Buckets K V) (k : K) (v : V) : Buckets K V :=
  Function.update m k (some (insert v (m.get k)))

/-- The last element takes its bucket with it. -/
def remove (m : Buckets K V) (k : K) (v : V) : Buckets K V :=
  Function.update m k (if (m.get k).erase v = ∅ then none else some ((m.get k).erase v))

structure Represents (m : Buckets K V) (R : K → V → Prop) : Prop where
  mem : ∀ k v, v ∈ m.get k ↔ R k v
  nonempty : ∀ k, m k ≠ some ∅

variable {m : Buckets K V} {R : K → V → Prop}

omit [DecidableEq K] [DecidableEq V] in
theorem represents_empty : Represents (fun _ => none : Buckets K V) fun _ _ => False where
  mem := by simp [get]
  nonempty := by simp

omit [DecidableEq K] [DecidableEq V] in
theorem Represents.congr {R' : K → V → Prop} (h : m.Represents R) (heq : ∀ k v, R k v ↔ R' k v) : m.Represents R' where
  mem k v := (h.mem k v).trans (heq k v)
  nonempty := h.nonempty

omit [DecidableEq K] [DecidableEq V] in
theorem Represents.eq_none (h : m.Represents R) {k : K} (hnone : ∀ v, ¬ R k v) : m k = none := by
  cases hm : m k with
  | none => rfl
  | some s =>
    have hempty : s = ∅ := by
      apply Finset.eq_empty_of_forall_notMem
      intro v hv
      exact hnone v ((h.mem k v).mp (by simpa [get, hm] using hv))
    exact absurd (hm.trans (congrArg some hempty)) (h.nonempty k)

theorem Represents.add (h : m.Represents R) (k : K) (v : V) :
    (m.add k v).Represents fun k' v' => R k' v' ∨ (k' = k ∧ v' = v) where
  mem k' v' := by
    by_cases hk : k' = k
    · subst hk
      simp [Buckets.add, get]
      rw [or_comm]
      exact or_congr_left (h.mem k' v')
    · have hmem := h.mem k' v'
      simpa [Buckets.add, get, Function.update_of_ne hk, hk] using hmem
  nonempty k' := by
    by_cases hk : k' = k
    · subst hk
      simp [Buckets.add]
    · simpa [Buckets.add, Function.update_of_ne hk] using h.nonempty k'

theorem Represents.remove (h : m.Represents R) (k : K) (v : V) :
    (m.remove k v).Represents fun k' v' => R k' v' ∧ ¬ (k' = k ∧ v' = v) where
  mem k' v' := by
    by_cases hk : k' = k
    · subst hk
      have hget : (m.remove k' v).get k' = (m.get k').erase v := by
        unfold get Buckets.remove
        rw [Function.update_self]
        split
        · rename_i hempty
          exact hempty.symm
        · rfl
      rw [hget, Finset.mem_erase, h.mem]
      simp [and_comm]
    · have hmem := h.mem k' v'
      simpa [Buckets.remove, get, Function.update_of_ne hk, hk] using hmem
  nonempty k' := by
    by_cases hk : k' = k
    · subst hk
      unfold Buckets.remove
      rw [Function.update_self]
      split
      · simp
      · rename_i hne
        simpa using hne
    · simpa [Buckets.remove, Function.update_of_ne hk] using h.nonempty k'

theorem Represents.foldl_add (v : V) (ks : List K) {m : Buckets K V} {R : K → V → Prop} (h : m.Represents R) :
    (ks.foldl (fun m k => m.add k v) m).Represents fun k' v' => R k' v' ∨ (k' ∈ ks ∧ v' = v) := by
  induction ks generalizing m R with
  | nil => simpa using h
  | cons k ks ih =>
    apply (ih (h.add k v)).congr
    intro k' v'
    simp only [List.mem_cons]
    tauto

theorem Represents.foldl_remove (v : V) (ks : List K) {m : Buckets K V} {R : K → V → Prop} (h : m.Represents R) :
    (ks.foldl (fun m k => m.remove k v) m).Represents fun k' v' => R k' v' ∧ ¬ (k' ∈ ks ∧ v' = v) := by
  induction ks generalizing m R with
  | nil => simpa using h
  | cons k ks ih =>
    apply (ih (h.remove k v)).congr
    intro k' v'
    simp only [List.mem_cons]
    tauto

end Buckets
end Foton
