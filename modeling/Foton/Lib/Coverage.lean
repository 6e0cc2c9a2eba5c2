import Foton.Lib.AssocList
import Mathlib.Data.List.Count

/-!
# Counting the members of a neighbourhood

The neighbourhood of a centre is a list of places without repetition, and a set
of places has members in it. When being a neighbour is symmetric, adding a place
to the set adds one to the counts of exactly its neighbours: a table that does
so entry by entry stays equal to the counts.
-/

namespace Foton

variable {P : Type*}

section
variable {S T : P → Bool} {l : List P} {p : P}

/-- How many places of `l` are in the set. -/
def covering (S : P → Bool) (l : List P) : Nat := l.countP S

theorem covering_le : covering S l ≤ l.length := List.countP_le_length

theorem covering_eq_length : covering S l = l.length ↔ ∀ q ∈ l, S q = true := List.countP_eq_length

theorem covering_congr (h : ∀ q ∈ l, S q = T q) : covering S l = covering T l := by
  apply List.countP_congr
  intro q hq
  rw [h q hq]

theorem covering_pos : 0 < covering S l ↔ ∃ q ∈ l, S q = true := List.countP_pos_iff

/-- A new place counts where it is a neighbour. -/
theorem covering_add [DecidableEq P] (hnodup : l.Nodup) (hold : S p = false) (hnew : T p = true) (hrest : ∀ q, q ≠ p → T q = S q) :
    covering T l = covering S l + if p ∈ l then 1 else 0 := by
  unfold covering
  induction l with
  | nil => rfl
  | cons q rest ih =>
    obtain ⟨hq, hnodup'⟩ := List.nodup_cons.mp hnodup
    have ih := ih hnodup'
    by_cases heq : q = p
    · subst heq
      have hsame : rest.countP T = rest.countP S :=
        List.countP_congr fun r hr => by rw [hrest r fun h => hq (h ▸ hr)]
      rw [List.countP_cons, List.countP_cons, hsame, hnew, hold]
      simp
    · rw [List.countP_cons, List.countP_cons, ih, hrest q heq]
      have hmem : p ∈ q :: rest ↔ p ∈ rest := by
        rw [List.mem_cons]
        exact or_iff_right fun h => heq h.symm
      simp only [hmem]
      omega

end

namespace AssocList

variable {K V : Type} [DecidableEq K] {m : AssocList K V} {a : K}

/-- The value of each key of a list is changed, an absent one from the default. -/
def changeAll (default : V) (f : V → V) (keys : List K) (m : AssocList K V) : AssocList K V :=
  keys.foldl (fun m k => m.insert k (f ((m.lookup k).getD default))) m

theorem lookup_changeAll {default : V} {f : V → V} {keys : List K} (hnodup : keys.Nodup) :
    (changeAll default f keys m).lookup a =
      if a ∈ keys then some (f ((m.lookup a).getD default)) else m.lookup a := by
  unfold changeAll
  induction keys generalizing m with
  | nil => simp
  | cons k rest ih =>
    obtain ⟨hk, hnodup'⟩ := List.nodup_cons.mp hnodup
    rw [List.foldl_cons, ih hnodup', lookup_insert]
    by_cases heq : a = k
    · subst heq
      simp [hk]
    · simp [heq]

/-- The keys of a list whose value meets `p` are erased. -/
def eraseAll (p : V → Bool) (keys : List K) (m : AssocList K V) : AssocList K V :=
  keys.foldl (fun m k => if (m.lookup k).any p then m.erase k else m) m

theorem lookup_eraseAll {p : V → Bool} {keys : List K} :
    (eraseAll p keys m).lookup a = if a ∈ keys ∧ (m.lookup a).any p then none else m.lookup a := by
  unfold eraseAll
  induction keys generalizing m with
  | nil => simp
  | cons k rest ih =>
    rw [List.foldl_cons, ih]
    by_cases herase : (m.lookup k).any p
    · rw [if_pos herase, lookup_erase]
      by_cases heq : a = k
      · subst heq
        simp [herase]
      · simp [heq]
    · rw [if_neg herase]
      by_cases heq : a = k
      · subst heq
        simp [herase]
      · simp [heq]

/-- The pairs are inserted in turn. -/
def insertAll (entries : List (K × V)) (m : AssocList K V) : AssocList K V :=
  entries.foldl (fun m e => m.insert e.1 e.2) m

theorem lookup_insertAll (entries : List (K × V)) (m : AssocList K V) (a : K) :
    (insertAll entries m).lookup a = m.lookup a ∧ a ∉ entries.map Prod.fst ∨
      ∃ v, (a, v) ∈ entries ∧ (insertAll entries m).lookup a = some v := by
  unfold insertAll
  induction entries generalizing m with
  | nil => exact .inl ⟨rfl, List.not_mem_nil⟩
  | cons e rest ih =>
    rw [List.foldl_cons]
    obtain ⟨hlookup, hnot⟩ | ⟨v, hv, hlookup⟩ := ih (m.insert e.1 e.2)
    · rw [hlookup, lookup_insert]
      by_cases heq : a = e.1
      · refine .inr ⟨e.2, ?_, if_pos heq⟩
        rw [heq]
        exact List.mem_cons_self
      · refine .inl ⟨if_neg heq, ?_⟩
        rw [List.map_cons, List.mem_cons, not_or]
        exact ⟨heq, hnot⟩
    · exact .inr ⟨v, List.mem_cons_of_mem _ hv, hlookup⟩

end AssocList

end Foton
