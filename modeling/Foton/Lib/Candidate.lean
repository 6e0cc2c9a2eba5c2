import Mathlib.Data.List.Sort
import Mathlib.Order.Lattice
import Mathlib.Data.Set.Basic

/-!
# The best candidate of a pruned search

A search carries the least cost so far and where it was found. It may pass over
any items whose costs are not below that, and takes an item only if it is.
-/

namespace Foton

section

structure Candidate (K I : Type*) where
  cost : K
  found : Option I

namespace Candidate

variable {K I : Type*} [LinearOrder K] {items items' : List (K × I)} {before between after : Candidate K I}

/-- What going over the items makes of a candidate. -/
structure Improves (items : List (K × I)) (before after : Candidate K I) : Prop where
  le : after.cost ≤ before.cost
  least : ∀ x ∈ items, after.cost ≤ x.1
  source : after = before ∨ ∃ x ∈ items, x.1 < before.cost ∧ after = ⟨x.1, some x.2⟩

theorem improves_nil (c : Candidate K I) : Improves [] c c where
  le := le_rfl
  least := by simp
  source := Or.inl rfl

theorem improves_pruned {c : Candidate K I} (h : ∀ x ∈ items, c.cost ≤ x.1) : Improves items c c where
  le := le_rfl
  least := h
  source := Or.inl rfl

theorem improves_taken {x : K × I} (h : x.1 < before.cost) : Improves [x] before ⟨x.1, some x.2⟩ where
  le := h.le
  least := by simp
  source := Or.inr ⟨x, List.mem_singleton_self x, h, rfl⟩

theorem Improves.append (h : Improves items before between) (h' : Improves items' between after) :
    Improves (items ++ items') before after where
  le := h'.le.trans h.le
  least := by
    intro x hx
    rcases List.mem_append.mp hx with hx | hx
    · exact h'.le.trans (h.least x hx)
    · exact h'.least x hx
  source := by
    rcases h'.source with heq | ⟨x, hx, hlt, heq⟩
    · rw [heq]
      rcases h.source with heq | ⟨x, hx, hlt, heq⟩
      · exact Or.inl heq
      · exact Or.inr ⟨x, List.mem_append_left _ hx, hlt, heq⟩
    · exact Or.inr ⟨x, List.mem_append_right _ hx, hlt.trans_le h.le, heq⟩

theorem Improves.eq_of_least (h : Improves items before after) (hleast : ∀ x ∈ items, before.cost ≤ x.1) :
    after = before := by
  rcases h.source with heq | ⟨x, hx, hlt, _⟩
  · exact heq
  · exact absurd (hleast x hx) (not_le.mpr hlt)

theorem Improves.found (h : Improves items before after) {x : K × I} (hx : x ∈ items) (hlt : x.1 < before.cost) :
    ∃ y ∈ items, after = ⟨y.1, some y.2⟩ ∧ ∀ z ∈ items, y.1 ≤ z.1 := by
  rcases h.source with heq | ⟨y, hy, _, heq⟩
  · have hle := h.least x hx
    rw [heq] at hle
    exact absurd hle (not_le.mpr hlt)
  · refine ⟨y, hy, heq, ?_⟩
    intro z hz
    have hle := h.least z hz
    rw [heq] at hle
    exact hle

/-! ## Scanning a list -/

section

variable {cost : I → K}

/-- Each item is taken if it costs less than the candidate. -/
def scan (cost : I → K) (c : Candidate K I) (items : List I) : Candidate K I :=
  items.foldl (fun c i => if cost i < c.cost then ⟨cost i, some i⟩ else c) c

/-- The candidate or a cheaper item. -/
def offer (cost : I → K) (c : Candidate K I) : Option I → Candidate K I
  | none => c
  | some i => if cost i < c.cost then ⟨cost i, some i⟩ else c

/-- The item, or a cheaper one that comes after it. -/
def cheaper (cost : I → K) (i : I) : Option I → I
  | none => i
  | some j => if cost i ≤ cost j then i else j

theorem offer_offer (c : Candidate K I) (i : I) (rest : Option I) :
    offer cost (offer cost c (some i)) rest = offer cost c (some (cheaper cost i rest)) := by
  unfold cheaper
  cases rest with
  | none => rfl
  | some j =>
    unfold offer
    by_cases hi : cost i < c.cost
    · by_cases hij : cost i ≤ cost j
      · simp [hi, hij, not_lt.mpr hij]
      · have hlt := not_le.mp hij
        simp [hi, hij, hlt, hlt.trans hi]
    · by_cases hij : cost i ≤ cost j
      · have hj : ¬ cost j < c.cost := fun hj => hi (lt_of_le_of_lt hij hj)
        simp [hi, hij, hj]
      · simp [hi, hij]

/-- A scan takes the item that a stable sort puts first. -/
theorem scan_eq_offer (c : Candidate K I) (items : List I) :
    scan cost c items = offer cost c (items.insertionSort fun a b => cost a ≤ cost b).head? := by
  induction items generalizing c with
  | nil => rfl
  | cons i rest ih =>
    show scan cost (offer cost c (some i)) rest = _
    rw [ih, offer_offer, List.insertionSort_cons]
    unfold cheaper
    congr 1
    cases rest.insertionSort fun a b => cost a ≤ cost b with
    | nil => rfl
    | cons j sorted =>
      by_cases hij : cost i ≤ cost j
      · simp [List.orderedInsert, hij]
      · simp [List.orderedInsert, hij]

end

end Candidate

end

/-!
## Indexes over covered regions

An index of items answers, for a query, whether an item has a point in common
with it. A region may be covered by smaller regions, each with an index of the
items that touch it: together they answer for the whole region, whatever the
overlaps.
-/

section

variable {β π χ : Type*}

def Meets (points : β → Set π) (a b : β) : Prop := (points a ∩ points b).Nonempty

theorem Meets.symm {points : β → Set π} {a b : β} (h : Meets points a b) : Meets points b a := by
  obtain ⟨p, ha, hb⟩ := h
  exact ⟨p, hb, ha⟩

/-- `find` never answers yes without an item, and misses none that meets the query inside the region. -/
structure Finds (points : β → Set π) (region : β) (items : List β) (find : β → Prop) : Prop where
  sound : ∀ {q}, find q → ∃ item ∈ items, Meets points item q
  complete : ∀ {q item p}, item ∈ items → p ∈ points item → p ∈ points q → p ∈ points region → find q

variable {points : β → Set π} {region : β} {items : List β} {find : β → Prop}

theorem Finds.of_scan (h : ∀ q, find q ↔ ∃ item ∈ items, Meets points item q) : Finds points region items find where
  sound hq := (h _).mp hq
  complete hitem hp hq _ := (h _).mpr ⟨_, hitem, _, hp, hq⟩

theorem Finds.split (children : List χ) (regionOf : χ → β) (itemsOf : χ → List β) (findOf : χ → β → Prop)
    (cover : ∀ p ∈ points region, ∃ c ∈ children, p ∈ points (regionOf c))
    (handed : ∀ c ∈ children, ∀ item, item ∈ itemsOf c ↔ item ∈ items ∧ Meets points (regionOf c) item)
    (each : ∀ c ∈ children, Finds points (regionOf c) (itemsOf c) (findOf c))
    (h : ∀ q, find q ↔ ∃ c ∈ children, Meets points (regionOf c) q ∧ findOf c q) : Finds points region items find where
  sound hq := by
    obtain ⟨c, hc, _, hfind⟩ := (h _).mp hq
    obtain ⟨item, hitem, hmeets⟩ := (each c hc).sound hfind
    exact ⟨item, ((handed c hc item).mp hitem).1, hmeets⟩
  complete hitem hp hq hregion := by
    obtain ⟨c, hc, hin⟩ := cover _ hregion
    have hmine := (handed c hc _).mpr ⟨hitem, _, hin, hp⟩
    exact (h _).mpr ⟨c, hc, ⟨_, hin, hq⟩, (each c hc).complete hmine hp hq hin⟩

theorem Finds.iff_scan (h : Finds points region items find) {q : β} (hq : points q ⊆ points region) :
    find q ↔ ∃ item ∈ items, Meets points item q := by
  constructor
  · exact h.sound
  · intro ⟨item, hitem, p, hp, hpq⟩
    exact h.complete hitem hp hpq (hq hpq)

end

end Foton
