import Mathlib.Data.List.Sort
import Mathlib.Data.List.Nodup

/-!
# Sorting by a comparison

A comparison need not be an order. A sort promises a sorted list for one that
orders the elements at hand; for any other it may give some permutation, or none.
-/

namespace Foton

section

variable {α : Type*} {cmp : α → α → Ordering} {xs ys : List α}

/-- On the elements of `xs`, `cmp` is a total preorder. -/
structure OrdersOn (cmp : α → α → Ordering) (xs : List α) : Prop where
  swap : ∀ a ∈ xs, ∀ b ∈ xs, cmp b a = (cmp a b).swap
  trans : ∀ a ∈ xs, ∀ b ∈ xs, ∀ c ∈ xs, cmp a b ≠ .gt → cmp b c ≠ .gt → cmp a c ≠ .gt

def SortedBy (cmp : α → α → Ordering) (xs : List α) : Prop := xs.Pairwise fun a b => cmp a b ≠ .gt

/-- What a sort promises; `none` is a panic. -/
structure Sorts (sort : (α → α → Ordering) → List α → Option (List α)) : Prop where
  perm : ∀ {cmp : α → α → Ordering} {xs ys : List α}, sort cmp xs = some ys → ys.Perm xs
  sorted : ∀ {cmp : α → α → Ordering} {xs : List α}, OrdersOn cmp xs → ∃ ys, sort cmp xs = some ys ∧ SortedBy cmp ys

theorem OrdersOn.mono (h : OrdersOn cmp xs) (hsub : ∀ a ∈ ys, a ∈ xs) : OrdersOn cmp ys where
  swap := fun a ha b hb => h.swap a (hsub a ha) b (hsub b hb)
  trans := fun a ha b hb c hc => h.trans a (hsub a ha) b (hsub b hb) c (hsub c hc)

theorem OrdersOn.total (h : OrdersOn cmp xs) {a b : α} (ha : a ∈ xs) (hb : b ∈ xs) : cmp a b ≠ .gt ∨ cmp b a ≠ .gt := by
  rw [h.swap a ha b hb]
  cases cmp a b <;> simp

def insertionSortBy (cmp : α → α → Ordering) (xs : List α) : Option (List α) := some (xs.insertionSort fun a b => cmp a b ≠ .gt)

theorem sortedBy_insertionSort (h : OrdersOn cmp xs) : SortedBy cmp (xs.insertionSort fun a b => cmp a b ≠ .gt) := by
  -- the comparison need not order anything else, so the elements are sorted as elements of `xs`
  let le := fun a b : { a // a ∈ xs } => cmp a.1 b.1 ≠ .gt
  have : IsTrans _ le := ⟨fun a b c => h.trans a a.2 b b.2 c c.2⟩
  have : Std.Total le := ⟨fun a b => h.total a.2 b.2⟩
  have hmap := List.map_insertionSort le (fun a b => cmp a b ≠ .gt) Subtype.val xs.attach fun a _ b _ => Iff.rfl
  rw [List.attach_map_subtype_val] at hmap
  unfold SortedBy
  rw [← hmap, List.pairwise_map]
  exact List.pairwise_insertionSort le xs.attach

theorem sorts_insertionSortBy : Sorts (insertionSortBy : (α → α → Ordering) → List α → Option (List α)) where
  perm := by
    intro cmp xs ys h
    cases h
    exact List.perm_insertionSort _ xs
  sorted := fun h => ⟨_, rfl, sortedBy_insertionSort h⟩

end

/-!
## Sorting keyed values
Pairs are sorted by their first component. In a sorted list equal keys stand
side by side, and without equal keys the order the pairs came in is forgotten.
-/

section

namespace KeyedSort

variable {K O α β : Type*} [LinearOrder O]

def sortByKey (key : K → O) (xs : List (K × α)) : List (K × α) :=
  xs.insertionSort fun a b => key a.1 ≤ key b.1

/-- Two neighbours are the same. -/
def adjacentEqual [DecidableEq K] : List K → Bool
  | a :: b :: rest => a = b || adjacentEqual (b :: rest)
  | _ => false

theorem map_fst_pair (f : K × α → β) (xs : List (K × α)) : (xs.map fun x => (x.1, f x)).map Prod.fst = xs.map Prod.fst := by
  simp

theorem map_snd_pair (f : K × α → β) (xs : List (K × α)) : (xs.map fun x => (x.1, f x)).map Prod.snd = xs.map f := by
  simp

theorem sortByKey_perm (key : K → O) (xs : List (K × α)) : (sortByKey key xs).Perm xs := List.perm_insertionSort _ xs

theorem sortByKey_sorted (key : K → O) (xs : List (K × α)) :
    (sortByKey key xs).Pairwise fun a b => key a.1 ≤ key b.1 := by
  let le := fun a b : K × α => key a.1 ≤ key b.1
  have : IsTrans _ le := ⟨fun _ _ _ => le_trans⟩
  have : Std.Total le := ⟨fun a b => le_total (key a.1) (key b.1)⟩
  exact List.pairwise_insertionSort le xs

theorem sortByKey_map (key : K → O) (f : K × α → β) (xs : List (K × α)) :
    sortByKey key (xs.map fun x => (x.1, f x)) = (sortByKey key xs).map fun x => (x.1, f x) :=
  (List.map_insertionSort _ _ (fun x : K × α => (x.1, f x)) xs fun _ _ _ _ => Iff.rfl).symm

theorem adjacentEqual_eq_false_iff [DecidableEq K] {key : K → O} (hkey : Function.Injective key) {ks : List K}
    (hsorted : ks.Pairwise fun a b => key a ≤ key b) : adjacentEqual ks = false ↔ ks.Nodup := by
  induction ks with
  | nil => simp [adjacentEqual]
  | cons a ks ih =>
    obtain ⟨hle, hrest⟩ := List.pairwise_cons.mp hsorted
    cases ks with
    | nil => simp [adjacentEqual]
    | cons b rest =>
      rw [adjacentEqual, Bool.or_eq_false_iff, ih hrest, decide_eq_false_iff_not, List.nodup_cons (a := a)]
      apply and_congr_left
      intro _
      constructor
      · intro hne hmem
        -- `b` is the least of the rest and above `a`
        apply hne
        apply hkey
        apply le_antisymm (hle b List.mem_cons_self)
        rcases List.mem_cons.mp hmem with rfl | hmem
        · exact le_rfl
        · exact (List.pairwise_cons.mp hrest).1 a hmem
      · intro hfresh heq
        exact hfresh (heq ▸ List.mem_cons_self)

theorem adjacentEqual_sortByKey [DecidableEq K] {key : K → O} (hkey : Function.Injective key) (xs : List (K × α)) :
    adjacentEqual ((sortByKey key xs).map Prod.fst) = false ↔ (xs.map Prod.fst).Nodup := by
  have hsorted : ((sortByKey key xs).map Prod.fst).Pairwise fun a b => key a ≤ key b :=
    List.pairwise_map.mpr (sortByKey_sorted key xs)
  rw [adjacentEqual_eq_false_iff hkey hsorted]
  exact ((sortByKey_perm key xs).map Prod.fst).nodup_iff

theorem sortByKey_eq_of_perm {key : K → O} (hkey : Function.Injective key) {xs ys : List (K × α)} (h : xs.Perm ys)
    (hxs : (xs.map Prod.fst).Nodup) : sortByKey key xs = sortByKey key ys := by
  have hperm : (sortByKey key xs).Perm (sortByKey key ys) :=
    (sortByKey_perm key xs).trans (h.trans (sortByKey_perm key ys).symm)
  apply hperm.eq_of_pairwise _ (sortByKey_sorted key xs) (sortByKey_sorted key ys)
  intro a b ha hb hab hba
  have hmem : b ∈ xs := h.mem_iff.mpr ((sortByKey_perm key ys).mem_iff.mp hb)
  exact List.inj_on_of_nodup_map hxs ((sortByKey_perm key xs).mem_iff.mp ha) hmem (hkey (le_antisymm hab hba))

/-- Without equal keys there is one sorted order, whichever way it was found. -/
theorem sortByKey_eq_of_sorted {key : K → O} {xs ys : List (K × α)} (h : xs.Perm ys)
    (hys : ys.Pairwise fun a b => key a.1 < key b.1) : sortByKey key xs = ys := by
  have hperm : (sortByKey key xs).Perm ys := (sortByKey_perm key xs).trans h
  apply hperm.eq_of_pairwise _ (sortByKey_sorted key xs) (hys.imp fun hlt => le_of_lt hlt)
  intro a b ha hb hab hba
  have hnodup : (ys.map fun y => key y.1).Nodup := List.pairwise_map.mpr (hys.imp fun hlt => hlt.ne)
  exact List.inj_on_of_nodup_map hnodup (hperm.mem_iff.mp ha) hb (le_antisymm hab hba)

end KeyedSort

end

end Foton
