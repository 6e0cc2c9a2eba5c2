import Foton.Lib.AssocList
import Mathlib.Data.List.InsertIdx
import Mathlib.Data.List.Perm.Basic
import Mathlib.Data.List.Sort

/-!
# Ordered indexes

An index files ids under keys, each key with its ids in order and none of them
twice. A key with no ids is not in the index. The order is that of filing, or
that of a rank of the ids.
-/

namespace Foton

structure OrderedIds (I : Type) where
  ids : List I
  nodup : ids.Nodup

namespace OrderedIds

variable {I : Type} [DecidableEq I] (s : OrderedIds I) (a : I)

def empty : OrderedIds I := ⟨[], List.nodup_nil⟩

/-- The ids with `a` at the end, and whether `a` is new. -/
def insert : OrderedIds I × Bool :=
  if h : a ∈ s.ids then (s, false) else (⟨s.ids ++ [a], List.nodup_append'.mpr
    ⟨s.nodup, List.nodup_singleton a, List.disjoint_singleton.mpr h⟩⟩, true)

/-- The ids without `a`, and whether `a` was there. -/
def remove : OrderedIds I × Bool := (⟨s.ids.erase a, s.nodup.erase a⟩, decide (a ∈ s.ids))

/-- The ids with `a` at an index; `a` must be new. -/
def insertAt (index : Nat) : Option (OrderedIds I) :=
  if h : a ∈ s.ids then none
  else if hindex : index ≤ s.ids.length then
    some ⟨s.ids.insertIdx index a, (List.perm_insertIdx a s.ids hindex).nodup_iff.mpr (List.nodup_cons.mpr ⟨h, s.nodup⟩)⟩
  else none

/-- The ids with `a` in or out, where that changes. -/
def toggle (old new : Bool) : OrderedIds I :=
  if old && !new then (s.remove a).1 else if !old && new then (s.insert a).1 else s

variable {s} {a} {b : I}

theorem mem_insert : b ∈ (s.insert a).1.ids ↔ b ∈ s.ids ∨ b = a := by
  unfold insert
  by_cases h : a ∈ s.ids
  · rw [dif_pos h]
    refine ⟨Or.inl, ?_⟩
    rintro (hb | rfl)
    · exact hb
    · exact h
  · rw [dif_neg h]
    simp

theorem mem_remove : b ∈ (s.remove a).1.ids ↔ b ∈ s.ids ∧ b ≠ a := by
  unfold remove
  rw [s.nodup.mem_erase_iff]
  exact and_comm

theorem mem_toggle_ne {old new : Bool} (h : b ≠ a) : b ∈ (s.toggle a old new).ids ↔ b ∈ s.ids := by
  unfold toggle
  split
  · simp [mem_remove, h]
  · split
    · simp [mem_insert, h]
    · rfl

/-- Also where the change was made before. -/
theorem mem_toggle {old new : Bool} (h : (a ∈ s.ids ↔ old = true) ∨ (a ∈ s.ids ↔ new = true)) :
    a ∈ (s.toggle a old new).ids ↔ new = true := by
  unfold toggle
  cases old <;> cases new <;> simp_all [mem_remove, mem_insert]

theorem toggle_self (s : OrderedIds I) (a : I) (b : Bool) : s.toggle a b b = s := by
  unfold toggle
  cases b <;> rfl

theorem insert_new (h : a ∉ s.ids) : (s.insert a).1.ids = s.ids ++ [a] := by
  unfold insert
  rw [dif_neg h]

theorem insertAt_eq {index : Nat} (h : a ∉ s.ids) (hindex : index ≤ s.ids.length) :
    ∃ t, s.insertAt a index = some t ∧ t.ids = s.ids.insertIdx index a := by
  unfold insertAt
  rw [dif_neg h, dif_pos hindex]
  exact ⟨_, rfl, rfl⟩

end OrderedIds

/-! ## Places by rank -/

section

variable {I O : Type} [LinearOrder O] {rank : I → O} {a : I} {l : List I}

/-- Before the first of the ids that are above, which is looked for only if the last one is. -/
def rankedPlace (above : I → Bool) (l : List I) : Nat :=
  if l.getLast?.all fun b => !above b then l.length else (l.findIdx? above).getD l.length

theorem rankedPlace_le (above : I → Bool) (l : List I) : rankedPlace above l ≤ l.length := by
  unfold rankedPlace
  split
  · exact le_rfl
  · cases hfind : l.findIdx? above with
    | none => exact le_rfl
    | some i =>
      obtain ⟨hi, -⟩ := List.findIdx?_eq_some_iff_getElem.mp hfind
      exact hi.le

theorem rankedPlace_congr {above above' : I → Bool} (h : ∀ b ∈ l, above b = above' b) :
    rankedPlace above l = rankedPlace above' l := by
  have hlast : (l.getLast?.all fun b => !above b) = l.getLast?.all fun b => !above' b := by
    cases hl : l.getLast? with
    | none => rfl
    | some b => simp [h b (List.mem_of_getLast? hl)]
  have hfind : l.findIdx? above = l.findIdx? above' := by
    clear hlast
    induction l with
    | nil => rfl
    | cons b rest ih =>
      rw [List.findIdx?_cons, List.findIdx?_cons, h b List.mem_cons_self,
        ih fun c hc => h c (List.mem_cons_of_mem b hc)]
  unfold rankedPlace
  rw [hlast, hfind]

/-- In a sorted list the place is between the ids that are not above and those that are. -/
theorem rankedPlace_spec (hsorted : l.Pairwise fun b c => rank b < rank c) (o : O) :
    (∀ b ∈ l.take (rankedPlace (fun b => decide (o < rank b)) l), rank b ≤ o) ∧
      ∀ b ∈ l.drop (rankedPlace (fun b => decide (o < rank b)) l), o < rank b := by
  unfold rankedPlace
  split
  · rename_i hlast
    refine ⟨?_, by simp⟩
    intro b hb
    rw [List.take_length] at hb
    cases hl : l.getLast? with
    | none =>
      rw [List.getLast?_eq_none_iff.mp hl] at hb
      cases hb
    | some c =>
      rw [hl, Option.all_some, Bool.not_eq_true', decide_eq_false_iff_not, not_lt] at hlast
      obtain ⟨init, rfl⟩ := List.getLast?_eq_some_iff.mp hl
      rcases List.mem_append.mp hb with hb | hb
      · exact ((List.pairwise_append.mp hsorted).2.2 b hb c (List.mem_singleton_self c)).le.trans hlast
      · rw [List.mem_singleton.mp hb]
        exact hlast
  · cases hfind : l.findIdx? fun b => decide (o < rank b) with
    | none =>
      refine ⟨?_, by simp⟩
      intro b hb
      have hnot := List.findIdx?_eq_none_iff.mp hfind b (List.mem_of_mem_take hb)
      exact not_lt.mp (of_decide_eq_false hnot)
    | some i =>
      obtain ⟨hi, habove, hbefore⟩ := List.findIdx?_eq_some_iff_getElem.mp hfind
      rw [Option.getD_some]
      refine ⟨?_, ?_⟩
      · intro b hb
        obtain ⟨j, hj, rfl⟩ := List.mem_take_iff_getElem.mp hb
        have hlt : j < i := (Nat.lt_min.mp hj).1
        exact not_lt.mp (by simpa using hbefore j hlt)
      · intro b hb
        obtain ⟨j, hj, rfl⟩ := List.mem_drop_iff_getElem.mp hb
        have hfirst : o < rank l[i] := of_decide_eq_true habove
        rcases Nat.eq_zero_or_pos j with rfl | hpos
        · exact hfirst
        · exact hfirst.trans (List.pairwise_iff_getElem.mp hsorted i (i + j) hi (by omega) (by omega))

theorem pairwise_insertIdx {R : I → I → Prop} {n : Nat} (hl : l.Pairwise R) (hn : n ≤ l.length)
    (hbefore : ∀ b ∈ l.take n, R b a) (hafter : ∀ b ∈ l.drop n, R a b) : (l.insertIdx n a).Pairwise R := by
  induction n generalizing l with
  | zero => exact List.pairwise_cons.mpr ⟨hafter, hl⟩
  | succ n ih =>
    cases l with
    | nil => exact absurd hn (by simp)
    | cons b rest =>
      rw [List.pairwise_cons] at hl
      have hrest : n ≤ rest.length := Nat.le_of_succ_le_succ hn
      rw [List.insertIdx_succ_cons, List.pairwise_cons]
      refine ⟨?_, ih hl.2 hrest (fun c hc => hbefore c (List.mem_cons_of_mem b hc)) hafter⟩
      intro c hc
      rcases (List.mem_insertIdx hrest).mp hc with rfl | hc
      · exact hbefore b List.mem_cons_self
      · exact hl.1 c hc

theorem sorted_insertIdx_rankedPlace (hsorted : l.Pairwise fun b c => rank b < rank c) (hne : ∀ b ∈ l, rank b ≠ rank a) :
    (l.insertIdx (rankedPlace (fun b => decide (rank a < rank b)) l) a).Pairwise fun b c => rank b < rank c := by
  obtain ⟨hbefore, hafter⟩ := rankedPlace_spec hsorted (rank a)
  apply pairwise_insertIdx hsorted (rankedPlace_le _ l)
  · intro b hb
    exact lt_of_le_of_ne (hbefore b hb) (hne b (List.mem_of_mem_take hb))
  · exact hafter

end

/-! ## Indexes -/

abbrev OrderedIndex (K I : Type) : Type := AssocList K (OrderedIds I)

namespace OrderedIndex

variable {K I : Type} [DecidableEq K] [DecidableEq I] (m : OrderedIndex K I) (k : K) (a : I)

def idsAt : List I := (m.lookup k).elim [] OrderedIds.ids

def add : OrderedIndex K I := AList.insert k (((m.lookup k).getD OrderedIds.empty).insert a).1 m

/-- The last id takes its key with it. -/
def remove : OrderedIndex K I :=
  match m.lookup k with
  | none => m
  | some s => if (s.remove a).1.ids.isEmpty then AList.erase k m else AList.insert k (s.remove a).1 m

def removeAll (keys : List K) : OrderedIndex K I := keys.foldl (fun m k => m.remove k a) m

/-- Files an id before the ids that are above it. -/
def addRanked (above : I → Bool) : Option (OrderedIndex K I) :=
  (((m.lookup k).getD OrderedIds.empty).insertAt a (rankedPlace above (m.idsAt k))).map fun s => AList.insert k s m

def addRankedAll (above : I → Bool) (keys : List K) : Option (OrderedIndex K I) :=
  keys.foldlM (fun m k => m.addRanked k a above) m

def HasNoEmpty : Prop := ∀ k s, m.lookup k = some s → s.ids ≠ []

variable {m} {k} {a} {k' : K} {above : I → Bool} {keys : List K}

omit [DecidableEq I] in
theorem idsAt_eq : ((m.lookup k).getD OrderedIds.empty).ids = m.idsAt k := by
  unfold idsAt
  cases m.lookup k <;> rfl

omit [DecidableEq I] in
theorem nodup_idsAt (m : OrderedIndex K I) (k : K) : (m.idsAt k).Nodup := by
  rw [← idsAt_eq]
  exact OrderedIds.nodup _

omit [DecidableEq I] in
theorem idsAt_insert {s : OrderedIds I} :
    idsAt (AList.insert k s m) k' = if k' = k then s.ids else m.idsAt k' := by
  unfold idsAt
  rw [AssocList.lookup_insert]
  by_cases hk : k' = k
  · rw [if_pos hk, if_pos hk]
    rfl
  · rw [if_neg hk, if_neg hk]

theorem idsAt_add (h : a ∉ m.idsAt k) : (m.add k a).idsAt k' = if k' = k then m.idsAt k ++ [a] else m.idsAt k' := by
  unfold add
  rw [← idsAt_eq] at h
  rw [idsAt_insert, OrderedIds.insert_new h, idsAt_eq]

theorem idsAt_remove : (m.remove k a).idsAt k' = if k' = k then (m.idsAt k).erase a else m.idsAt k' := by
  unfold remove
  cases hk : m.lookup k with
  | none =>
    by_cases heq : k' = k
    · rw [if_pos heq, heq]
      simp [idsAt, hk]
    · rw [if_neg heq]
  | some s =>
    have hids : m.idsAt k = s.ids := by
      unfold idsAt
      rw [hk]
      rfl
    dsimp only
    split
    · rename_i hempty
      rw [hids]
      unfold idsAt
      rw [AssocList.lookup_erase]
      by_cases heq : k' = k
      · rw [if_pos heq, if_pos heq]
        exact (List.isEmpty_iff.mp hempty).symm
      · rw [if_neg heq, if_neg heq]
    · rw [idsAt_insert, hids]
      rfl

theorem hasNoEmpty_add (h : m.HasNoEmpty) : (m.add k a).HasNoEmpty := by
  intro k' s hs
  unfold add at hs
  rw [AssocList.lookup_insert] at hs
  by_cases heq : k' = k
  · rw [if_pos heq] at hs
    cases hs
    exact List.ne_nil_of_mem (OrderedIds.mem_insert.mpr (Or.inr rfl))
  · rw [if_neg heq] at hs
    exact h k' s hs

theorem hasNoEmpty_remove (h : m.HasNoEmpty) : (m.remove k a).HasNoEmpty := by
  intro k' s hs
  unfold remove at hs
  cases hk : m.lookup k with
  | none =>
    rw [hk] at hs
    exact h k' s hs
  | some old =>
    rw [hk] at hs
    dsimp only at hs
    split at hs
    · rw [AssocList.lookup_erase] at hs
      split at hs
      · cases hs
      · exact h k' s hs
    · rename_i hempty
      rw [AssocList.lookup_insert] at hs
      split at hs
      · cases hs
        exact fun heq => hempty (List.isEmpty_iff.mpr heq)
      · exact h k' s hs

theorem idsAt_removeAll : (m.removeAll a keys).idsAt k' = if k' ∈ keys then (m.idsAt k').erase a else m.idsAt k' := by
  unfold removeAll
  induction keys generalizing m with
  | nil => rw [List.foldl_nil, if_neg List.not_mem_nil]
  | cons k rest ih =>
    rw [List.foldl_cons, ih, idsAt_remove]
    by_cases heq : k' = k
    · subst heq
      have hnot : a ∉ (m.idsAt k').erase a := (nodup_idsAt m k').not_mem_erase
      rw [if_pos rfl, List.erase_of_not_mem hnot, ite_self, if_pos List.mem_cons_self]
    · rw [if_neg heq]
      simp [heq]

theorem hasNoEmpty_removeAll (h : m.HasNoEmpty) : (m.removeAll a keys).HasNoEmpty := by
  unfold removeAll
  induction keys generalizing m with
  | nil => exact h
  | cons k rest ih => exact ih (hasNoEmpty_remove h)

theorem addRanked_eq (above : I → Bool) (h : a ∉ m.idsAt k) : ∃ m', m.addRanked k a above = some m' ∧
    (∀ k', m'.idsAt k' = if k' = k then (m.idsAt k).insertIdx (rankedPlace above (m.idsAt k)) a else m.idsAt k') ∧
    (m.HasNoEmpty → m'.HasNoEmpty) := by
  unfold addRanked
  have hplace := rankedPlace_le above (m.idsAt k)
  rw [← idsAt_eq] at h hplace
  obtain ⟨t, hinsert, hids⟩ := OrderedIds.insertAt_eq h hplace
  rw [idsAt_eq] at hinsert
  rw [hinsert]
  refine ⟨_, rfl, ?_, ?_⟩
  · intro k'
    rw [idsAt_insert, hids, idsAt_eq]
  · intro hne k' s hs
    rw [AssocList.lookup_insert] at hs
    split at hs
    · cases hs
      apply List.ne_nil_of_mem (a := a)
      rw [hids]
      exact (List.mem_insertIdx hplace).mpr (Or.inl rfl)
    · exact hne k' s hs

/-- An id that is new under all the keys can be filed under them. -/
theorem addRankedAll_eq (above : I → Bool) (hkeys : keys.Nodup) (h : ∀ k ∈ keys, a ∉ m.idsAt k) : ∃ m', m.addRankedAll a above keys = some m' ∧
    (∀ k', m'.idsAt k' =
      if k' ∈ keys then (m.idsAt k').insertIdx (rankedPlace above (m.idsAt k')) a else m.idsAt k') ∧
    (m.HasNoEmpty → m'.HasNoEmpty) := by
  unfold addRankedAll
  induction keys generalizing m with
  | nil => exact ⟨m, rfl, fun k' => by rw [if_neg List.not_mem_nil], id⟩
  | cons k rest ih =>
    rw [List.nodup_cons] at hkeys
    obtain ⟨m₁, hadd, hids₁, hne₁⟩ := addRanked_eq above (h k List.mem_cons_self)
    have hrest : ∀ k' ∈ rest, a ∉ m₁.idsAt k' := by
      intro k' hk'
      rw [hids₁, if_neg (by rintro rfl; exact hkeys.1 hk')]
      exact h k' (List.mem_cons_of_mem k hk')
    obtain ⟨m₂, hfold, hids₂, hne₂⟩ := ih hkeys.2 hrest
    refine ⟨m₂, ?_, ?_, fun hne => hne₂ (hne₁ hne)⟩
    · rw [List.foldlM_cons, hadd]
      exact hfold
    · intro k'
      rw [hids₂, hids₁]
      by_cases heq : k' = k
      · subst heq
        rw [if_neg hkeys.1, if_pos rfl, if_pos List.mem_cons_self]
      · rw [if_neg heq]
        simp [heq]

/-! ## What an index files -/

/-- The index files each id under the keys it is related to. -/
structure Files (m : OrderedIndex K I) (R : I → K → Prop) : Prop where
  mem : ∀ k i, i ∈ m.idsAt k ↔ R i k
  nonempty : m.HasNoEmpty

variable {R R' : I → K → Prop}

omit [DecidableEq I] in
theorem files_empty : Files (∅ : OrderedIndex K I) fun _ _ => False where
  mem := by simp [idsAt]
  nonempty := by
    intro k s hs
    cases hs

omit [DecidableEq I] in
theorem Files.congr (h : m.Files R) (heq : ∀ i k, R i k ↔ R' i k) : m.Files R' where
  mem k i := (h.mem k i).trans (heq i k)
  nonempty := h.nonempty

theorem Files.add (h : m.Files R) (hnew : ¬ R a k) : (m.add k a).Files fun i k' => R i k' ∨ i = a ∧ k' = k where
  mem k' i := by
    rw [idsAt_add ((h.mem k a).not.mpr hnew)]
    by_cases heq : k' = k
    · rw [if_pos heq, List.mem_append, List.mem_singleton, heq, h.mem]
      simp
    · rw [if_neg heq, h.mem]
      simp [heq]
  nonempty := hasNoEmpty_add h.nonempty

theorem Files.remove (h : m.Files R) : (m.remove k a).Files fun i k' => R i k' ∧ ¬ (i = a ∧ k' = k) where
  mem k' i := by
    rw [idsAt_remove]
    by_cases heq : k' = k
    · rw [if_pos heq, (nodup_idsAt m k).mem_erase_iff, heq, h.mem]
      simp [and_comm]
    · rw [if_neg heq, h.mem]
      simp [heq]
  nonempty := hasNoEmpty_remove h.nonempty

theorem Files.removeAll (h : m.Files R) : (m.removeAll a keys).Files fun i k' => R i k' ∧ ¬ (i = a ∧ k' ∈ keys) where
  mem k' i := by
    rw [idsAt_removeAll]
    by_cases hk : k' ∈ keys
    · rw [if_pos hk, (nodup_idsAt m k').mem_erase_iff, h.mem]
      simp [hk, and_comm]
    · rw [if_neg hk, h.mem]
      simp [hk]
  nonempty := hasNoEmpty_removeAll h.nonempty

theorem Files.addRankedAll (above : I → Bool) (h : m.Files R) (hkeys : keys.Nodup) (hnew : ∀ k ∈ keys, ¬ R a k) :
    ∃ m', m.addRankedAll a above keys = some m' ∧ m'.Files (fun i k' => R i k' ∨ i = a ∧ k' ∈ keys) ∧
      ∀ k', m'.idsAt k' =
        if k' ∈ keys then (m.idsAt k').insertIdx (rankedPlace above (m.idsAt k')) a else m.idsAt k' := by
  obtain ⟨m', hadd, hids, hne⟩ := addRankedAll_eq above hkeys fun k hk => (h.mem k a).not.mpr (hnew k hk)
  refine ⟨m', hadd, ⟨?_, hne h.nonempty⟩, hids⟩
  intro k' i
  rw [hids]
  by_cases hk : k' ∈ keys
  · rw [if_pos hk, List.mem_insertIdx (rankedPlace_le _ _), h.mem]
    simp [hk, or_comm]
  · rw [if_neg hk, h.mem]
    simp [hk]

/-! ## Ranks -/

section

variable {O : Type} [LinearOrder O] {rank rank' : I → O}

def Ranked (m : OrderedIndex K I) (rank : I → O) : Prop := ∀ k, (m.idsAt k).Pairwise fun a b => rank a < rank b

omit [DecidableEq I] in
theorem Ranked.congr (h : m.Ranked rank) (heq : ∀ k, ∀ i ∈ m.idsAt k, rank' i = rank i) : m.Ranked rank' := by
  intro k
  apply (h k).imp_of_mem
  intro a b ha hb hlt
  rw [heq k a ha, heq k b hb]
  exact hlt

theorem Ranked.remove (h : m.Ranked rank) : (m.remove k a).Ranked rank := by
  intro k'
  rw [idsAt_remove]
  split
  · exact (h k).sublist List.erase_sublist
  · exact h k'

theorem Ranked.removeAll (h : m.Ranked rank) : (m.removeAll a keys).Ranked rank := by
  intro k'
  rw [idsAt_removeAll]
  split
  · exact (h k').sublist List.erase_sublist
  · exact h k'

theorem Ranked.add (h : m.Ranked rank) (hlast : ∀ b ∈ m.idsAt k, rank b < rank a) : (m.add k a).Ranked rank := by
  intro k'
  have hnew : a ∉ m.idsAt k := fun hmem => lt_irrefl _ (hlast a hmem)
  rw [idsAt_add hnew]
  split
  · refine List.pairwise_append.mpr ⟨h k, List.pairwise_singleton _ a, ?_⟩
    intro b hb c hc
    rw [List.mem_singleton.mp hc]
    exact hlast b hb
  · exact h k'

omit [DecidableEq I] in
theorem Ranked.addRankedAll {m' : OrderedIndex K I} (h : m.Ranked rank)
    (hids : ∀ k', m'.idsAt k' = if k' ∈ keys then (m.idsAt k').insertIdx (rankedPlace above (m.idsAt k')) a else m.idsAt k')
    (habove : ∀ k' ∈ keys, ∀ b ∈ m.idsAt k', above b = decide (rank a < rank b))
    (hne : ∀ k' ∈ keys, ∀ b ∈ m.idsAt k', rank b ≠ rank a) : m'.Ranked rank := by
  intro k'
  rw [hids]
  split
  · rename_i hk
    rw [rankedPlace_congr (habove k' hk)]
    exact sorted_insertIdx_rankedPlace (h k') (hne k' hk)
  · exact h k'

end

/-! ## Ranges of keys -/

section

variable [LinearOrder K]

/-- The ids under the keys from `first` to `last`, in the order of the keys. -/
def rangeIds (m : OrderedIndex K I) (first last : K) : List I :=
  ((m.keys.filter fun k => decide (first ≤ k ∧ k ≤ last)).insertionSort (· ≤ ·)).flatMap m.idsAt

omit [DecidableEq I] in
theorem Files.mem_rangeIds (h : m.Files R) {first last : K} {i : I} :
    i ∈ m.rangeIds first last ↔ ∃ k, first ≤ k ∧ k ≤ last ∧ R i k := by
  unfold rangeIds
  simp only [List.mem_flatMap, List.mem_insertionSort, List.mem_filter, decide_eq_true_eq, h.mem]
  constructor
  · rintro ⟨k, ⟨-, hfirst, hlast⟩, hR⟩
    exact ⟨k, hfirst, hlast, hR⟩
  · rintro ⟨k, hfirst, hlast, hR⟩
    refine ⟨k, ⟨?_, hfirst, hlast⟩, hR⟩
    have hmem := (h.mem k i).mpr hR
    unfold idsAt at hmem
    cases hk : m.lookup k with
    | none =>
      rw [hk] at hmem
      cases hmem
    | some s => exact AList.mem_keys.mp (AList.lookup_isSome.mp (by rw [hk]; rfl))

end

end OrderedIndex
end Foton
