import Mathlib.Data.List.Basic
import Mathlib.Data.List.Nodup
import Mathlib.Data.List.Perm.Lattice

/-!
# Entries under keys

A list of entries read through `lookup`. Without duplicate keys an entry is
found where it stands, and the order of the entries does not matter.
-/

namespace Foton
namespace KeyedEntries

variable {K V : Type*} [BEq K] [LawfulBEq K] [DecidableEq K]

abbrev NoDuplicates (l : List (K × V)) : Prop := (l.map Prod.fst).Nodup

theorem lookup_cons_ite (e : K × V) (l : List (K × V)) (k : K) :
    (e :: l).lookup k = if k = e.1 then some e.2 else l.lookup k := by
  rw [List.lookup_cons]
  by_cases hk : k = e.1
  · simp [hk]
  · simp [hk, beq_eq_false_iff_ne.mpr hk]

omit [DecidableEq K] in
theorem mem_of_lookup {l : List (K × V)} {k : K} {v : V} (h : l.lookup k = some v) : (k, v) ∈ l := by
  obtain ⟨l₁, l₂, heq, _⟩ := List.lookup_eq_some_iff.mp h
  simp [heq]

omit [DecidableEq K] in
theorem lookup_isSome_iff {l : List (K × V)} {k : K} : (l.lookup k).isSome = true ↔ k ∈ l.map Prod.fst := by
  rw [List.lookup_isSome_iff]
  simp only [beq_iff_eq, List.mem_map]
  exact ⟨fun ⟨e, he, hk⟩ => ⟨e, he, hk.symm⟩, fun ⟨e, he, hk⟩ => ⟨e, he, hk.symm⟩⟩

omit [DecidableEq K] in
theorem lookup_eq_none_iff {l : List (K × V)} {k : K} : l.lookup k = none ↔ k ∉ l.map Prod.fst := by
  rw [← lookup_isSome_iff, Bool.not_eq_true, Option.isSome_eq_false_iff, Option.isNone_iff_eq_none]

theorem lookup_of_mem {l : List (K × V)} (hl : NoDuplicates l) {k : K} {v : V} (h : (k, v) ∈ l) :
    l.lookup k = some v := by
  induction l with
  | nil => cases h
  | cons e l ih =>
    obtain ⟨hfresh, hrest⟩ := List.nodup_cons.mp hl
    rw [lookup_cons_ite]
    rcases List.mem_cons.mp h with heq | hmem
    · subst heq
      simp
    · have hne : k ≠ e.1 := by
        intro heq
        exact hfresh (heq ▸ List.mem_map.mpr ⟨(k, v), hmem, rfl⟩)
      rw [if_neg hne, ih hrest hmem]

theorem lookup_iff_mem {l : List (K × V)} (hl : NoDuplicates l) {k : K} {v : V} :
    l.lookup k = some v ↔ (k, v) ∈ l :=
  ⟨mem_of_lookup, lookup_of_mem hl⟩

omit [BEq K] [LawfulBEq K] [DecidableEq K] in
theorem NoDuplicates.perm {l l' : List (K × V)} (hl : NoDuplicates l) (h : l'.Perm l) : NoDuplicates l' :=
  (h.map Prod.fst).nodup_iff.mpr hl

theorem lookup_perm {l l' : List (K × V)} (hl : NoDuplicates l) (h : l'.Perm l) (k : K) : l'.lookup k = l.lookup k := by
  apply Option.ext
  intro v
  rw [lookup_iff_mem (hl.perm h), lookup_iff_mem hl, h.mem_iff]

theorem lookup_filter_ne (l : List (K × V)) (k k' : K) :
    (l.filter fun e => e.1 ≠ k).lookup k' = if k' = k then none else l.lookup k' := by
  induction l with
  | nil => simp
  | cons e l ih =>
    rw [List.filter_cons, lookup_cons_ite]
    by_cases he : e.1 = k
    · rw [if_neg (by simpa using he), ih]
      by_cases hk : k' = k
      · simp [hk]
      · simp [hk, he]
    · rw [if_pos (by simpa using he), lookup_cons_ite, ih]
      by_cases hk : k' = e.1
      · simp [hk, he]
      · simp [hk]

omit [BEq K] [LawfulBEq K] [DecidableEq K] in
theorem NoDuplicates.filter {l : List (K × V)} (hl : NoDuplicates l) (p : K × V → Bool) : NoDuplicates (l.filter p) :=
  hl.sublist (List.filter_sublist.map Prod.fst)

/-- The value of the first entry under the key is replaced where it stands. -/
def setFirst (k : K) (v : V) : List (K × V) → List (K × V)
  | [] => []
  | e :: l => if e.1 = k then (e.1, v) :: l else e :: setFirst k v l

omit [BEq K] [LawfulBEq K] in
@[simp] theorem keys_setFirst (k : K) (v : V) (l : List (K × V)) :
    (setFirst k v l).map Prod.fst = l.map Prod.fst := by
  induction l with
  | nil => rfl
  | cons e l ih =>
    unfold setFirst
    by_cases he : e.1 = k
    · simp [he]
    · simp [he, ih]

theorem lookup_setFirst {k k' : K} {v w : V} {l : List (K × V)} (h : l.lookup k = some w) :
    (setFirst k v l).lookup k' = if k' = k then some v else l.lookup k' := by
  induction l with
  | nil => cases h
  | cons e l ih =>
    rw [lookup_cons_ite] at h
    unfold setFirst
    by_cases he : e.1 = k
    · subst he
      rw [if_pos rfl, lookup_cons_ite, lookup_cons_ite]
      by_cases hk : k' = e.1
      · simp [hk]
      · simp [hk]
    · rw [if_neg (Ne.symm he)] at h
      rw [if_neg he, lookup_cons_ite, lookup_cons_ite, ih h]
      by_cases hk : k' = e.1
      · simp [hk, he]
      · simp [hk]

end KeyedEntries
end Foton
