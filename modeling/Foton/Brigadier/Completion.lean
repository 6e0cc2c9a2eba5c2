import Foton.Brigadier.Expand
import Mathlib.Data.Char

/-!
# Merged completions

Merging keeps what the suggestions lead to, at any positions they start at. The
comparison takes numbers for two integers and texts for any other pair, so it
orders the merged suggestions only if no text comes between two integers that
are in another order as texts.
-/

namespace Foton.Brigadier

variable {T : Type} {lower : Text → Text}

/-! ## The comparison -/

namespace Suggestion

theorem compareTexts_ne_gt {first second : Text} : compareTexts first second ≠ .gt ↔ first ≤ second := by
  unfold compareTexts
  split
  · rename_i h
    simp [le_of_lt h]
  · rename_i h
    split
    · rename_i heq
      simp [heq]
    · rename_i hne
      have hnot : ¬first ≤ second := fun hle => h (lt_of_le_of_ne hle hne)
      simp [hnot]

theorem compareTexts_swap (first second : Text) : compareTexts second first = (compareTexts first second).swap := by
  unfold compareTexts
  rcases lt_trichotomy first second with h | h | h
  · simp [h, not_lt_of_gt h, ne_of_gt h]
  · simp [h]
  · simp [h, not_lt_of_gt h, ne_of_gt h]

variable {a b : Suggestion T} {x y : Int}

theorem compare_integers (ha : a.integer = some x) (hb : b.integer = some y) : compareIgnoreCase lower a b ≠ .gt ↔ x ≤ y := by
  unfold compareIgnoreCase
  rw [ha, hb]
  dsimp only
  split
  · rename_i h
    simp [le_of_lt h]
  · rename_i h
    split
    · rename_i heq
      simp [heq]
    · rename_i hne
      have hnot : ¬x ≤ y := fun hle => h (lt_of_le_of_ne hle hne)
      simp [hnot]

theorem compare_eq_texts (h : a.integer = none ∨ b.integer = none) : compareIgnoreCase lower a b = compareTexts (lower a.text) (lower b.text) := by
  unfold compareIgnoreCase
  cases ha : a.integer with
  | none => rfl
  | some x =>
    cases hb : b.integer with
    | none => rfl
    | some y => simp [ha, hb] at h

theorem compare_texts (h : a.integer = none ∨ b.integer = none) : compareIgnoreCase lower a b ≠ .gt ↔ lower a.text ≤ lower b.text := by
  rw [compare_eq_texts h, compareTexts_ne_gt]

theorem compare_swap (a b : Suggestion T) : compareIgnoreCase lower b a = (compareIgnoreCase lower a b).swap := by
  unfold compareIgnoreCase
  cases a.integer with
  | none => cases b.integer <;> exact compareTexts_swap _ _
  | some x =>
    cases b.integer with
    | none => exact compareTexts_swap _ _
    | some y =>
      dsimp only
      rcases lt_trichotomy x y with h | h | h
      · simp [h, not_lt_of_gt h, ne_of_gt h]
      · simp [h]
      · simp [h, not_lt_of_gt h, ne_of_gt h]

/-- An integer has its decimal text. -/
def Decimal (suggestion : Suggestion T) : Prop := ∀ x, suggestion.integer = some x → suggestion.text = (toString x).toList

/-- A text comes between two integers that are in another order as texts. -/
def Tangled (lower : Text → Text) (suggestions : List (Suggestion T)) : Prop :=
  ∃ a ∈ suggestions, ∃ b ∈ suggestions, ∃ t ∈ suggestions, ∃ x y, a.integer = some x ∧ b.integer = some y ∧ x < y ∧ t.integer = none ∧
    lower b.text ≤ lower t.text ∧ lower t.text ≤ lower a.text

theorem text_eq_of_integer (ha : a.Decimal) (hb : b.Decimal) (hx : a.integer = some x) (hy : b.integer = some y) (h : x = y) :
    a.text = b.text := by
  rw [ha x hx, hb y hy, h]

theorem ordersOn_iff {suggestions : List (Suggestion T)} (hdecimal : ∀ s ∈ suggestions, s.Decimal) :
    OrdersOn (compareIgnoreCase lower) suggestions ↔ ¬Tangled lower suggestions := by
  constructor
  · rintro horders ⟨a, ha, b, hb, t, ht, x, y, hx, hy, hlt, hnone, hbt, hta⟩
    have hle := horders.trans b hb t ht a ha ((compare_texts (Or.inr hnone)).mpr hbt) ((compare_texts (Or.inl hnone)).mpr hta)
    have hyx := (compare_integers hy hx).mp hle
    omega
  · intro htangled
    -- two integers and a text, in each place that the text can have
    have hafter : ∀ a ∈ suggestions, ∀ b ∈ suggestions, ∀ t ∈ suggestions, ∀ x y, a.integer = some x → b.integer = some y → x ≤ y →
        t.integer = none → lower b.text ≤ lower t.text → lower a.text ≤ lower t.text := by
      intro a ha b hb t ht x y hx hy hle hnone hbt
      rcases lt_or_eq_of_le hle with hlt | heq
      · by_contra hta
        exact htangled ⟨a, ha, b, hb, t, ht, x, y, hx, hy, hlt, hnone, hbt, le_of_lt (not_le.mp hta)⟩
      · rw [text_eq_of_integer (hdecimal a ha) (hdecimal b hb) hx hy heq]
        exact hbt
    have hbefore : ∀ a ∈ suggestions, ∀ b ∈ suggestions, ∀ t ∈ suggestions, ∀ x y, a.integer = some x → b.integer = some y → x ≤ y →
        t.integer = none → lower t.text ≤ lower a.text → lower t.text ≤ lower b.text := by
      intro a ha b hb t ht x y hx hy hle hnone hta
      rcases lt_or_eq_of_le hle with hlt | heq
      · by_contra hbt
        exact htangled ⟨a, ha, b, hb, t, ht, x, y, hx, hy, hlt, hnone, le_of_lt (not_le.mp hbt), hta⟩
      · rw [← text_eq_of_integer (hdecimal a ha) (hdecimal b hb) hx hy heq]
        exact hta
    refine ⟨fun a _ b _ => compare_swap a b, ?_⟩
    intro a ha b hb c hc hab hbc
    cases hx : a.integer with
    | none =>
      rw [compare_texts (Or.inl hx)] at hab ⊢
      cases hy : b.integer with
      | none =>
        rw [compare_texts (Or.inl hy)] at hbc
        exact le_trans hab hbc
      | some y =>
        cases hz : c.integer with
        | none =>
          rw [compare_texts (Or.inr hz)] at hbc
          exact le_trans hab hbc
        | some z =>
          rw [compare_integers hy hz] at hbc
          exact hbefore b hb c hc a ha y z hy hz hbc hx hab
    | some x =>
      cases hz : c.integer with
      | none =>
        rw [compare_texts (Or.inr hz)] at hbc ⊢
        cases hy : b.integer with
        | none =>
          rw [compare_texts (Or.inr hy)] at hab
          exact le_trans hab hbc
        | some y =>
          rw [compare_integers hx hy] at hab
          exact hafter a ha b hb c hc x y hx hy hab hz hbc
      | some z =>
        rw [compare_integers hx hz]
        cases hy : b.integer with
        | none =>
          rw [compare_texts (Or.inr hy)] at hab
          rw [compare_texts (Or.inl hy)] at hbc
          by_contra hlt
          exact htangled ⟨c, hc, a, ha, b, hb, z, x, hz, hx, not_le.mp hlt, hy, hab, hbc⟩
        | some y =>
          rw [compare_integers hx hy] at hab
          rw [compare_integers hy hz] at hbc
          exact le_trans hab hbc

end Suggestion

namespace Suggestions

open Suggestion

variable [DecidableEq T] {sortBy : (Suggestion T → Suggestion T → Ordering) → List (Suggestion T) → Option (List (Suggestion T))}
  {input : Text} {suggestions expansions : List (Suggestion T)} {start : Nat} {set merged : Suggestions T} {sets : List (Suggestions T)}

/-! ## Expanding all suggestions -/

/-- The suggestions expanded to the least of their starts, each once. -/
structure Expands (input : Text) (suggestions : List (Suggestion T)) (start : Nat) (expansions : List (Suggestion T)) : Prop where
  least : ∃ s ∈ suggestions, s.range.start = start
  bound : ∀ s ∈ suggestions, start ≤ s.range.start
  nodup : expansions.Nodup
  mem : ∀ t, t ∈ expansions ↔ ∃ s ∈ suggestions, s.expanded input start = t

omit [DecidableEq T] in
theorem Expands.perm {expansions' : List (Suggestion T)} (h : Expands input suggestions start expansions) (hperm : expansions'.Perm expansions) :
    Expands input suggestions start expansions' where
  least := h.least
  bound := h.bound
  nodup := hperm.nodup_iff.mpr h.nodup
  mem := fun t => hperm.mem_iff.trans (h.mem t)

/-- All suggestions replace the input from a position between two characters on. -/
def Fitting (input : Text) (suggestions : List (Suggestion T)) : Prop := ∀ s ∈ suggestions, ∃ i, Suggestion.Fits input i s

theorem expandAll_eq_ok {range : StringRange} {expand : Suggestion T → Suggestion T} (hexpand : ∀ s ∈ suggestions, s.expand input range = .ok (expand s)) :
    ∀ expansions : List (Suggestion T), expansions.Nodup → ∃ result, expandAll input range suggestions expansions = .ok result ∧ result.Nodup ∧
      ∀ t, t ∈ result ↔ t ∈ expansions ∨ ∃ s ∈ suggestions, expand s = t := by
  induction suggestions with
  | nil =>
    intro expansions hnodup
    exact ⟨expansions, rfl, hnodup, by simp⟩
  | cons s suggestions ih =>
    intro expansions hnodup
    rw [List.forall_mem_cons] at hexpand
    have hnext : (if expand s ∈ expansions then expansions else expansions ++ [expand s]).Nodup := by
      split
      · exact hnodup
      · rename_i hnew
        rw [List.nodup_append]
        refine ⟨hnodup, by simp, ?_⟩
        rintro a ha b hb rfl
        rw [List.mem_singleton] at hb
        exact hnew (hb ▸ ha)
    obtain ⟨result, hresult, hresultNodup, hmem⟩ := ih hexpand.2 _ hnext
    refine ⟨result, ?_, hresultNodup, ?_⟩
    · rw [expandAll, hexpand.1]
      exact hresult
    · intro t
      rw [hmem, List.exists_mem_cons_iff]
      split
      · rename_i hold
        constructor
        · rintro (ht | ht)
          · exact Or.inl ht
          · exact Or.inr (Or.inr ht)
        · rintro (ht | rfl | ht)
          · exact Or.inl ht
          · exact Or.inl hold
          · exact Or.inr ht
      · rw [List.mem_append, List.mem_singleton, or_assoc, eq_comm]

omit [DecidableEq T] in
theorem foldl_min_start (rest : List (Suggestion T)) : ∀ start : Nat,
    let least := rest.foldl (fun start suggestion => min start suggestion.range.start) start
    (least = start ∨ ∃ s ∈ rest, s.range.start = least) ∧ least ≤ start ∧ ∀ s ∈ rest, least ≤ s.range.start := by
  induction rest with
  | nil => simp
  | cons s rest ih =>
    intro start
    obtain ⟨hfound, hle, hbound⟩ := ih (min start s.range.start)
    refine ⟨?_, ?_, ?_⟩
    · rcases hfound with heq | ⟨t, ht, heq⟩
      · rcases Nat.le_total start s.range.start with hstart | hstart
        · exact Or.inl (heq.trans (Nat.min_eq_left hstart))
        · exact Or.inr ⟨s, List.mem_cons_self, (heq.trans (Nat.min_eq_right hstart)).symm⟩
      · exact Or.inr ⟨t, List.mem_cons_of_mem _ ht, heq⟩
    · exact Nat.le_trans hle (Nat.min_le_left _ _)
    · rw [List.forall_mem_cons]
      exact ⟨Nat.le_trans hle (Nat.min_le_right _ _), hbound⟩

omit [DecidableEq T] in
theorem foldl_max_stop (rest : List (Suggestion T)) (hstop : ∀ s ∈ rest, s.range.stop = utf16Length input) :
    rest.foldl (fun stop suggestion => max stop suggestion.range.stop) (utf16Length input) = utf16Length input := by
  induction rest with
  | nil => rfl
  | cons s rest ih =>
    rw [List.forall_mem_cons] at hstop
    rw [List.foldl_cons, hstop.1, Nat.max_self]
    exact ih hstop.2

variable (sortBy lower) in
theorem create_eq (hfit : Fitting input suggestions) (hne : suggestions ≠ []) : ∃ i expansions, i ≤ input.length ∧
    Expands input suggestions (positionOf input i) expansions ∧ create sortBy lower input suggestions =
      match sortBy (compareIgnoreCase lower) expansions with
      | none => .error .panic
      | some sorted => .ok ⟨⟨positionOf input i, utf16Length input⟩, sorted⟩ := by
  cases suggestions with
  | nil => exact absurd rfl hne
  | cons first rest =>
    obtain ⟨hfound, hle, hbound⟩ := foldl_min_start rest first.range.start
    have hstops : ∀ s ∈ first :: rest, s.range.stop = utf16Length input := by
      intro s hs
      obtain ⟨i, hi⟩ := hfit s hs
      rw [hi.range]
    have hstop := foldl_max_stop rest fun s hs => hstops s (List.mem_cons_of_mem _ hs)
    rw [← hstops first List.mem_cons_self] at hstop
    unfold create
    dsimp only
    rw [hstop, hstops first List.mem_cons_self]
    generalize hleast : rest.foldl (fun start suggestion => min start suggestion.range.start) first.range.start = least at hfound hle hbound ⊢
    have hsource : ∃ s ∈ first :: rest, s.range.start = least := by
      rcases hfound with heq | ⟨s, hs, heq⟩
      · exact ⟨first, List.mem_cons_self, heq.symm⟩
      · exact ⟨s, List.mem_cons_of_mem _ hs, heq⟩
    obtain ⟨s, hs, hstart⟩ := hsource
    obtain ⟨i, hi⟩ := hfit s hs
    have hposition : least = positionOf input i := by rw [← hstart, hi.range]
    subst hposition
    have hexpand : ∀ t ∈ first :: rest, t.expand input ⟨positionOf input i, utf16Length input⟩ = .ok (t.expanded input (positionOf input i)) := by
      intro t ht
      obtain ⟨j, hj⟩ := hfit t ht
      have hij : positionOf input i ≤ t.range.start := by
        rcases List.mem_cons.mp ht with rfl | ht
        · exact hle
        · exact hbound t ht
      rw [hj.range] at hij
      exact hj.expand (le_of_positionOf_le hi.valid hj.valid hij)
    obtain ⟨expansions, hresult, hnodup, hmem⟩ := expandAll_eq_ok hexpand [] List.nodup_nil
    refine ⟨i, expansions, hi.valid, ⟨⟨s, hs, hstart⟩, ?_, hnodup, ?_⟩, ?_⟩
    · rw [List.forall_mem_cons]
      exact ⟨hle, hbound⟩
    · intro t
      rw [hmem]
      simp
    · unfold StringRange.between
      rw [if_pos (positionOf_le input i)]
      simp only [bind, Except.bind]
      exact hresult ▸ rfl

/-! ## Sets of suggestions -/

/-- A set that is ready to be applied to the input. -/
structure Ready (lower : Text → Text) (input : Text) (set : Suggestions T) : Prop where
  range : ∀ s ∈ set.suggestions, s.range = set.range
  nodup : set.suggestions.Nodup
  sorted : OrdersOn (compareIgnoreCase lower) set.suggestions → SortedBy (compareIgnoreCase lower) set.suggestions

/-- The suggestions of `set` are those of `suggestions`, expanded to one start. -/
def Gathers (input : Text) (suggestions : List (Suggestion T)) (set : Suggestions T) : Prop :=
  suggestions = [] ∧ set.suggestions = [] ∨ ∃ i ≤ input.length, Expands input suggestions (positionOf input i) set.suggestions

theorem create_spec (hsort : Sorts sortBy) (hfit : Fitting input suggestions) (hcreate : create sortBy lower input suggestions = .ok set) :
    Ready lower input set ∧ Gathers input suggestions set := by
  by_cases hne : suggestions = []
  · subst hne
    cases hcreate
    exact ⟨⟨by simp [empty], List.nodup_nil, fun _ => List.Pairwise.nil⟩, Or.inl ⟨rfl, rfl⟩⟩
  · obtain ⟨i, expansions, hi, hexpands, heq⟩ := create_eq lower sortBy hfit hne
    rw [heq] at hcreate
    split at hcreate
    · cases hcreate
    · rename_i sorted hsorted
      cases hcreate
      have hperm := hsort.perm hsorted
      have hgathers := hexpands.perm hperm
      refine ⟨⟨?_, hgathers.nodup, ?_⟩, Or.inr ⟨i, hi, hgathers⟩⟩
      · intro s hs
        obtain ⟨t, -, rfl⟩ := (hgathers.mem s).mp hs
        rfl
      · intro horders
        obtain ⟨result, hresult, hresultSorted⟩ := hsort.sorted (horders.mono fun a ha => hperm.mem_iff.mpr ha)
        rw [hsorted] at hresult
        cases hresult
        exact hresultSorted

/-! ## The builder -/

omit [DecidableEq T] in
theorem builder_new {position : Nat} {builder : SuggestionsBuilder T} (h : SuggestionsBuilder.new input position = .ok builder) :
    ∃ i ≤ input.length, builder = ⟨input, positionOf input i, i, []⟩ := by
  unfold SuggestionsBuilder.new at h
  split at h
  · cases h
  · rename_i range hrange
    cases h
    unfold StringRange.byteRange StringRange.emptyAt at hrange
    dsimp only at hrange
    split at hrange
    · cases hrange
    · rename_i i hi
      obtain ⟨hvalid, rfl⟩ := byteIndex_eq_some hi
      obtain ⟨stop, -, rfl⟩ := Option.map_eq_some_iff.mp hrange
      exact ⟨i, hvalid, rfl⟩

/-- Every suggestion of a builder starts where the builder does, and an integer has its decimal text. -/
def Offers (input : Text) (i : Nat) (builder : SuggestionsBuilder T) : Prop :=
  builder.input = input ∧ builder.start = positionOf input i ∧ ∀ s ∈ builder.suggestions, Suggestion.Fits input i s ∧ s.Decimal

omit [DecidableEq T] in
theorem builder_add {i : Nat} (hi : i ≤ input.length) {builder next : SuggestionsBuilder T} (hbuilder : Offers input i builder) {offer : Offer T}
    (h : builder.add offer = .ok next) : Offers input i next := by
  obtain ⟨hinput, hstart, hall⟩ := hbuilder
  have hrange : builder.range = .ok ⟨positionOf input i, utf16Length input⟩ := by
    unfold SuggestionsBuilder.range StringRange.between
    rw [hinput, hstart, if_pos (positionOf_le input i)]
  have hpush : ∀ s : Suggestion T, s.range = ⟨positionOf input i, utf16Length input⟩ → s.Decimal →
      Offers input i { builder with suggestions := builder.suggestions ++ [s] } := by
    intro s hs hdecimal
    refine ⟨hinput, hstart, fun t ht => ?_⟩
    rcases List.mem_append.mp ht with ht | ht
    · exact hall t ht
    · rw [List.mem_singleton.mp ht]
      exact ⟨⟨hi, hs⟩, hdecimal⟩
  cases offer with
  | suggest text =>
    simp only [SuggestionsBuilder.add, hrange, bind, Except.bind] at h
    split at h
    · cases h
      exact hpush _ rfl fun x hx => nomatch hx
    · cases h
      exact ⟨hinput, hstart, hall⟩
  | suggestWithTooltip text tooltip =>
    simp only [SuggestionsBuilder.add, hrange, bind, Except.bind] at h
    split at h
    · cases h
      exact hpush _ rfl fun x hx => nomatch hx
    · cases h
      exact ⟨hinput, hstart, hall⟩
  | suggestInteger val =>
    simp only [SuggestionsBuilder.add, hrange, bind, Except.bind] at h
    cases h
    refine hpush _ rfl fun x hx => ?_
    cases hx
    rfl

omit [DecidableEq T] in
theorem builder_foldlM {i : Nat} (hi : i ≤ input.length) {offers : List (Offer T)} : ∀ {builder next : SuggestionsBuilder T},
    Offers input i builder → offers.foldlM SuggestionsBuilder.add builder = .ok next → Offers input i next := by
  induction offers with
  | nil =>
    intro builder next hbuilder h
    cases h
    exact hbuilder
  | cons offer offers ih =>
    intro builder next hbuilder h
    rw [List.foldlM_cons] at h
    obtain ⟨second, hsecond, hrest⟩ := bind_eq_ok.mp h
    exact ih (builder_add hi hbuilder hsecond) hrest

theorem builds_spec (hsort : Sorts sortBy) (h : SuggestionsBuilder.Builds sortBy lower input set) :
    Ready lower input set ∧ ∃ i, ∀ s ∈ set.suggestions, Suggestion.Fits input i s ∧ s.Decimal := by
  obtain ⟨position, offers, h⟩ := h
  obtain ⟨builder, hbuilder, h⟩ := bind_eq_ok.mp h
  obtain ⟨last, hlast, hcreate⟩ := bind_eq_ok.mp h
  obtain ⟨i, hi, rfl⟩ := builder_new hbuilder
  obtain ⟨hinput, -, hall⟩ := builder_foldlM hi ⟨rfl, rfl, by simp⟩ hlast
  unfold SuggestionsBuilder.build at hcreate
  rw [hinput] at hcreate
  obtain ⟨hready, hgathers⟩ := create_spec hsort (fun s hs => ⟨i, (hall s hs).1⟩) hcreate
  refine ⟨hready, i, ?_⟩
  intro s hs
  rcases hgathers with ⟨-, hempty⟩ | ⟨j, hj, hexpands⟩
  · rw [hempty] at hs
    cases hs
  · -- the least start is the builder's own, so nothing was expanded
    obtain ⟨t, ht, rfl⟩ := (hexpands.mem s).mp hs
    obtain ⟨first, hfirst, hstart⟩ := hexpands.least
    rw [(hall first hfirst).1.range] at hstart
    rw [← hstart, (hall t ht).1.expanded_self]
    exact hall t ht

/-! ## Merging -/

/-- The suggestions of all sets. -/
def offered (sets : List (Suggestions T)) : List (Suggestion T) := sets.flatMap Suggestions.suggestions

theorem merge_spec (hsort : Sorts sortBy) (hsets : ∀ set ∈ sets, SuggestionsBuilder.Builds sortBy lower input set)
    (hmerge : merge sortBy lower input sets = .ok merged) : Ready lower input merged ∧ Gathers input (offered sets) merged := by
  have hfit : Fitting input (offered sets) := by
    intro s hs
    obtain ⟨set, hset, hmem⟩ := List.mem_flatMap.mp hs
    obtain ⟨-, i, hall⟩ := builds_spec hsort (hsets set hset)
    exact ⟨i, (hall s hmem).1⟩
  unfold merge at hmerge
  split at hmerge
  · cases hmerge
    exact ⟨⟨by simp [empty], List.nodup_nil, fun _ => List.Pairwise.nil⟩, Or.inl ⟨rfl, rfl⟩⟩
  · rename_i first
    cases hmerge
    obtain ⟨hready, i, hall⟩ := builds_spec hsort (hsets merged (List.mem_singleton_self _))
    refine ⟨hready, ?_⟩
    have hoffered : offered [merged] = merged.suggestions := by simp [offered]
    rw [hoffered]
    by_cases hnil : merged.suggestions = []
    · exact Or.inl ⟨hnil, hnil⟩
    · obtain ⟨s, hs⟩ := List.exists_mem_of_ne_nil _ hnil
      have hfirst := (hall s hs).1
      refine Or.inr ⟨i, hfirst.valid, ⟨s, hs, by rw [hfirst.range]⟩, ?_, hready.nodup, ?_⟩
      · intro t ht
        rw [(hall t ht).1.range]
      · intro t
        constructor
        · intro ht
          exact ⟨t, ht, (hall t ht).1.expanded_self⟩
        · rintro ⟨u, hu, rfl⟩
          rw [(hall u hu).1.expanded_self]
          exact hu
  · exact create_spec hsort hfit hmerge

/-- What the merged suggestions are to the sets they come from. -/
structure Merged (lower : Text → Text) (input : Text) (sets : List (Suggestions T)) (merged : Suggestions T) : Prop where
  range : ∀ s ∈ merged.suggestions, s.range = merged.range
  applies : ∀ s ∈ merged.suggestions, ∃ text, s.apply input = .ok text
  results : ∀ text, (∃ s ∈ merged.suggestions, s.apply input = .ok text) ↔ ∃ set ∈ sets, ∃ s ∈ set.suggestions, s.apply input = .ok text
  nodup : merged.suggestions.Nodup
  orders : OrdersOn (compareIgnoreCase lower) merged.suggestions
  sorted : SortedBy (compareIgnoreCase lower) merged.suggestions
  integers : merged.suggestions.Pairwise fun a b => ∀ x y, a.integer = some x → b.integer = some y → x ≤ y
  texts : merged.suggestions.Pairwise fun a b => a.integer = none ∨ b.integer = none → lower a.text ≤ lower b.text

/-- Of the integers that start first, two are in another order as texts, and a
text comes between them: one of the offers that is no such integer, with the
input between the starts before it. -/
def Crossed (lower : Text → Text) (input : Text) (offers : List (Suggestion T)) : Prop :=
  ∃ a ∈ offers, ∃ b ∈ offers, ∃ t ∈ offers, ∃ x y, (∀ s ∈ offers, a.range.start ≤ s.range.start) ∧ b.range.start = a.range.start ∧
    a.integer = some x ∧ b.integer = some y ∧ x < y ∧ (t.range.start = a.range.start → t.integer = none) ∧
    lower b.text ≤ lower (t.spelled input a.range.start) ∧ lower (t.spelled input a.range.start) ≤ lower a.text

omit [DecidableEq T] in
theorem Expands.integer (h : Expands input suggestions start expansions) (hfit : ∀ s ∈ suggestions, ∃ i, Suggestion.Fits input i s ∧ s.Decimal)
    {t : Suggestion T} (ht : t ∈ expansions) {x : Int} (hx : t.integer = some x) : t ∈ suggestions ∧ t.range.start = start ∧ t.Decimal := by
  obtain ⟨s, hs, rfl⟩ := (h.mem t).mp ht
  obtain ⟨hstart, hinteger⟩ := Option.ite_none_right_eq_some.mp hx
  obtain ⟨i, hi, hdecimal⟩ := hfit s hs
  rw [hi.range] at hstart
  rw [← hstart, hi.expanded_self]
  exact ⟨hs, by rw [hi.range], hdecimal⟩

omit [DecidableEq T] in
theorem Expands.tangled_iff (h : Expands input suggestions start expansions) (hfit : ∀ s ∈ suggestions, ∃ i, Suggestion.Fits input i s ∧ s.Decimal) :
    Tangled lower expansions ↔ Crossed lower input suggestions := by
  have hself : ∀ s ∈ suggestions, s.range.start = start → s ∈ expansions := by
    intro s hs hstart
    obtain ⟨i, hi, -⟩ := hfit s hs
    have hexpanded := hi.expanded_self
    rw [hi.range] at hstart
    rw [show positionOf input i = start from hstart] at hexpanded
    exact (h.mem s).mpr ⟨s, hs, hexpanded⟩
  constructor
  · rintro ⟨a, ha, b, hb, t, ht, x, y, hx, hy, hlt, hnone, hbt, hta⟩
    obtain ⟨ha, hstart, -⟩ := h.integer hfit ha hx
    obtain ⟨hb, hstart', -⟩ := h.integer hfit hb hy
    obtain ⟨s, hs, rfl⟩ := (h.mem t).mp ht
    subst hstart
    refine ⟨a, ha, b, hb, s, hs, x, y, h.bound, hstart', hx, hy, hlt, ?_, hbt, hta⟩
    intro heq
    exact (if_pos heq).symm.trans hnone
  · rintro ⟨a, ha, b, hb, t, ht, x, y, hbound, hstart, hx, hy, hlt, hnone, hbt, hta⟩
    obtain ⟨first, hfirst, hleast⟩ := h.least
    have heq : a.range.start = start := Nat.le_antisymm (hleast ▸ hbound first hfirst) (h.bound a ha)
    rw [heq] at hstart hnone hbt hta
    refine ⟨a, hself a ha heq, b, hself b hb hstart, t.expanded input start, (h.mem _).mpr ⟨t, ht, rfl⟩, x, y, hx, hy, hlt, ?_, hbt, hta⟩
    unfold expanded
    dsimp only
    split
    · rename_i hsame
      exact hnone hsame
    · rfl

theorem fits_of_builds (hsort : Sorts sortBy) (hsets : ∀ set ∈ sets, SuggestionsBuilder.Builds sortBy lower input set) :
    ∀ s ∈ offered sets, ∃ i, Suggestion.Fits input i s ∧ s.Decimal := by
  intro s hs
  obtain ⟨set, hset, hmem⟩ := List.mem_flatMap.mp hs
  obtain ⟨-, i, hall⟩ := builds_spec hsort (hsets set hset)
  exact ⟨i, hall s hmem⟩

omit [DecidableEq T] in
theorem Expands.orders_iff (h : Expands input suggestions start expansions) (hfit : ∀ s ∈ suggestions, ∃ i, Suggestion.Fits input i s ∧ s.Decimal) :
    OrdersOn (compareIgnoreCase lower) expansions ↔ ¬Crossed lower input suggestions := by
  rw [← h.tangled_iff hfit]
  exact ordersOn_iff fun t ht x hx => (h.integer hfit ht hx).2.2 x hx

omit [DecidableEq T] in
/-- The comparison orders the merged suggestions unless the offers are crossed. -/
theorem Gathers.orders_iff (h : Gathers input suggestions merged) (hfit : ∀ s ∈ suggestions, ∃ i, Suggestion.Fits input i s ∧ s.Decimal) :
    OrdersOn (compareIgnoreCase lower) merged.suggestions ↔ ¬Crossed lower input suggestions := by
  rcases h with ⟨hnil, hempty⟩ | ⟨i, -, hexpands⟩
  · rw [hempty, hnil]
    refine iff_of_true ⟨by simp, by simp⟩ ?_
    rintro ⟨a, ha, -⟩
    cases ha
  · exact hexpands.orders_iff hfit

omit [DecidableEq T] in
/-- Every merged suggestion leads to what one of the offers leads to, and the other way round. -/
theorem Gathers.results (h : Gathers input suggestions merged) (hfit : Fitting input suggestions) :
    (∀ s ∈ merged.suggestions, ∃ text, s.apply input = .ok text) ∧
      ∀ text, (∃ s ∈ merged.suggestions, s.apply input = .ok text) ↔ ∃ s ∈ suggestions, s.apply input = .ok text := by
  rcases h with ⟨hnil, hempty⟩ | ⟨i, hi, hexpands⟩
  · rw [hempty, hnil]
    simp
  · have happly : ∀ s ∈ suggestions, (s.expanded input (positionOf input i)).apply input = s.apply input := by
      intro s hs
      obtain ⟨j, hj⟩ := hfit s hs
      have hle := hexpands.bound s hs
      rw [hj.range] at hle
      exact hj.apply_expanded (le_of_positionOf_le hi hj.valid hle)
    constructor
    · intro t ht
      obtain ⟨s, -, rfl⟩ := (hexpands.mem t).mp ht
      exact ⟨_, (Suggestion.Fits.fits_expanded hi s).apply⟩
    · intro text
      constructor
      · rintro ⟨t, ht, htext⟩
        obtain ⟨s, hs, rfl⟩ := (hexpands.mem t).mp ht
        exact ⟨s, hs, (happly s hs).symm.trans htext⟩
      · rintro ⟨s, hs, htext⟩
        exact ⟨_, (hexpands.mem _).mpr ⟨s, hs, rfl⟩, (happly s hs).trans htext⟩

theorem not_merged_of_crossed (hsort : Sorts sortBy) (hsets : ∀ set ∈ sets, SuggestionsBuilder.Builds sortBy lower input set)
    (hcrossed : Crossed lower input (offered sets)) : ¬∃ merged, merge sortBy lower input sets = .ok merged ∧ Merged lower input sets merged := by
  rintro ⟨merged, hmerge, hmerged⟩
  have hgathers := (merge_spec hsort hsets hmerge).2
  exact (hgathers.orders_iff (fits_of_builds hsort hsets)).mp hmerged.orders hcrossed

theorem merge_isOk (hsort : Sorts sortBy) (hsets : ∀ set ∈ sets, SuggestionsBuilder.Builds sortBy lower input set)
    (hcrossed : ¬Crossed lower input (offered sets)) : ∃ merged, merge sortBy lower input sets = .ok merged := by
  have hfit := fits_of_builds hsort hsets
  unfold merge
  split
  · exact ⟨empty, rfl⟩
  · exact ⟨_, rfl⟩
  · by_cases hnil : offered sets = []
    · refine ⟨empty, ?_⟩
      unfold offered at hnil
      rw [hnil]
      rfl
    · obtain ⟨i, expansions, hi, hexpands, heq⟩ := create_eq lower sortBy (fun s hs => (hfit s hs).imp fun i h => h.1) hnil
      obtain ⟨sorted, hsorted, -⟩ := hsort.sorted ((hexpands.orders_iff hfit).mpr hcrossed)
      rw [hsorted] at heq
      exact ⟨_, heq⟩

/-- Merging what builders made of any offers gives all results, once, in order,
exactly if no text comes between two integers that are in another order as texts. -/
theorem merge_ordered_iff (hsort : Sorts sortBy) (hsets : ∀ set ∈ sets, SuggestionsBuilder.Builds sortBy lower input set) :
    (∃ merged, merge sortBy lower input sets = .ok merged ∧ Merged lower input sets merged) ↔ ¬Crossed lower input (offered sets) := by
  constructor
  · intro hmerged hcrossed
    exact not_merged_of_crossed hsort hsets hcrossed hmerged
  · intro hcrossed
    obtain ⟨merged, hmerge⟩ := merge_isOk hsort hsets hcrossed
    have hfit := fits_of_builds hsort hsets
    obtain ⟨hready, hgathers⟩ := merge_spec hsort hsets hmerge
    have horders := (hgathers.orders_iff hfit).mpr hcrossed
    have hsorted := hready.sorted horders
    obtain ⟨happlies, hresults⟩ := hgathers.results fun s hs => (hfit s hs).imp fun i h => h.1
    refine ⟨merged, hmerge, hready.range, happlies, ?_, hready.nodup, horders, hsorted, ?_, ?_⟩
    · intro text
      rw [hresults]
      constructor
      · rintro ⟨s, hs, happly⟩
        obtain ⟨set, hset, hs⟩ := List.mem_flatMap.mp hs
        exact ⟨set, hset, s, hs, happly⟩
      · rintro ⟨set, hset, s, hs, happly⟩
        exact ⟨s, List.mem_flatMap.mpr ⟨set, hset, hs⟩, happly⟩
    · exact hsorted.imp fun hle x y hx hy => (compare_integers hx hy).mp hle
    · exact hsorted.imp fun hle hnone => (compare_texts hnone).mp hle

/-! ## Two numbers and a text -/

/-- Lower case of the texts at hand. -/
def asciiLowercase (text : Text) : Text := text.map Char.toLower

def numbers : Suggestions Unit := ⟨⟨0, 0⟩, [.ofInteger ⟨0, 0⟩ 2, .ofInteger ⟨0, 0⟩ 10]⟩

def words (text : Text) : Suggestions Unit := ⟨⟨0, 0⟩, [.new ⟨0, 0⟩ text]⟩

theorem builds_numbers : SuggestionsBuilder.Builds insertionSortBy asciiLowercase [] numbers :=
  ⟨0, [.suggestInteger 2, .suggestInteger 10], rfl⟩

theorem builds_words {text : Text} (h : text ≠ []) : SuggestionsBuilder.Builds insertionSortBy asciiLowercase [] (words text) := by
  refine ⟨0, [.suggest text], ?_⟩
  cases text with
  | nil => exact absurd rfl h
  | cons character rest => rfl

/-- `2` is before `10`, `10` before `1x` and `1x` before `2`. -/
theorem numbers_and_word_are_not_ordered : (∀ set ∈ [numbers, words ['1', 'x']], SuggestionsBuilder.Builds insertionSortBy asciiLowercase [] set) ∧
    ¬∃ merged, merge insertionSortBy asciiLowercase [] [numbers, words ['1', 'x']] = .ok merged ∧
      Merged asciiLowercase [] [numbers, words ['1', 'x']] merged := by
  have hbuilds : ∀ set ∈ [numbers, words ['1', 'x']], SuggestionsBuilder.Builds insertionSortBy asciiLowercase [] set := by
    simp only [List.forall_mem_cons]
    exact ⟨builds_numbers, builds_words (by simp), by simp⟩
  refine ⟨hbuilds, not_merged_of_crossed sorts_insertionSortBy hbuilds ?_⟩
  refine ⟨.ofInteger ⟨0, 0⟩ 2, by decide, .ofInteger ⟨0, 0⟩ 10, by decide, .new ⟨0, 0⟩ ['1', 'x'], by decide, 2, 10, ?_⟩
  decide

theorem numbers_and_name_are_merged : ∃ merged, merge insertionSortBy asciiLowercase [] [numbers, words ['a']] = .ok merged ∧
    Merged asciiLowercase [] [numbers, words ['a']] merged := by
  refine (merge_ordered_iff sorts_insertionSortBy ?_).mpr ?_
  · simp only [List.forall_mem_cons]
    exact ⟨builds_numbers, builds_words (by simp), by simp⟩
  · have hmem : ∀ s ∈ offered [numbers, words ['a']], s = .ofInteger ⟨0, 0⟩ 2 ∨ s = .ofInteger ⟨0, 0⟩ 10 ∨ s = .new ⟨0, 0⟩ ['a'] := by
      simp [offered, numbers, words]
    rintro ⟨a, ha, b, hb, t, ht, x, y, -, -, hx, -, -, hnone, -, hta⟩
    rcases hmem a ha with rfl | rfl | rfl
    · rcases hmem t ht with rfl | rfl | rfl
      · cases hnone rfl
      · cases hnone rfl
      · exact absurd hta (by decide)
    · rcases hmem t ht with rfl | rfl | rfl
      · cases hnone rfl
      · cases hnone rfl
      · exact absurd hta (by decide)
    · cases hx

end Suggestions

end Foton.Brigadier
