import Mathlib.Data.List.AList
import Mathlib.Order.Bounds.Basic
import Mathlib.Order.MinMax

/-!
# Maps of least values

A map built by relaxation holds, for each key, the least of the values offered
for it. `Offers S m` says that `m` is what relaxation has made of the offers `S`.
-/

namespace Foton

variable {κ α : Type*} [DecidableEq κ] [LinearOrder α]

/-- `entry(k).and_modify(min).or_insert`. -/
def relax (m : AList fun _ : κ => α) (k : κ) (a : α) : AList fun _ : κ => α :=
  m.insert k (match m.lookup k with | some b => min b a | none => a)

/-- A loop of relaxations: every element of the list may make one offer. -/
def relaxAll {ι : Type*} (offer : ι → Option (κ × α)) (l : List ι) (m : AList fun _ : κ => α) : AList fun _ : κ => α :=
  l.foldl (fun m i => match offer i with | some (k, a) => relax m k a | none => m) m

structure Offers (S : κ → Set α) (m : AList fun _ : κ => α) : Prop where
  least : ∀ k a, m.lookup k = some a → IsLeast (S k) a
  absent : ∀ k, m.lookup k = none → S k = ∅

namespace Offers

variable {S : κ → Set α} {m : AList fun _ : κ => α}

theorem empty : Offers (fun _ : κ => (∅ : Set α)) (∅ : AList fun _ : κ => α) where
  least k a h := by rw [AList.lookup_empty] at h; cases h
  absent _ _ := rfl

theorem congr {T : κ → Set α} (h : Offers S m) (hST : ∀ k a, a ∈ S k ↔ a ∈ T k) : Offers T m := by
  have : S = T := funext fun k => Set.ext fun a => hST k a
  rwa [← this]

theorem relax (h : Offers S m) (k : κ) (a : α) :
    Offers (fun k' => {b | b ∈ S k' ∨ k' = k ∧ b = a}) (Foton.relax m k a) := by
  unfold Foton.relax
  refine ⟨fun k' b hb => ?_, fun k' hb => ?_⟩
  · by_cases hk : k' = k
    · subst hk
      rw [AList.lookup_insert, Option.some.injEq] at hb
      subst hb
      cases hm : m.lookup k' with
      | none =>
        have hS := h.absent k' hm
        refine ⟨Or.inr ⟨rfl, rfl⟩, fun c hc => ?_⟩
        rcases hc with hc | ⟨_, hc⟩
        · rw [hS] at hc; exact hc.elim
        · exact le_of_eq hc.symm
      | some b =>
        obtain ⟨hmem, hle⟩ := h.least k' b hm
        dsimp only
        refine ⟨?_, fun c hc => ?_⟩
        · rcases min_choice b a with hmin | hmin
          · rw [hmin]
            exact Or.inl hmem
          · exact Or.inr ⟨rfl, hmin⟩
        · rcases hc with hc | ⟨_, hc⟩
          · exact le_trans (min_le_left b a) (hle hc)
          · exact le_trans (min_le_right b a) (le_of_eq hc.symm)
    · rw [AList.lookup_insert_ne hk] at hb
      obtain ⟨hmem, hle⟩ := h.least k' b hb
      refine ⟨Or.inl hmem, fun c hc => ?_⟩
      rcases hc with hc | ⟨hk', _⟩
      · exact hle hc
      · exact absurd hk' hk
  · by_cases hk : k' = k
    · subst hk
      rw [AList.lookup_insert] at hb
      cases hb
    · rw [AList.lookup_insert_ne hk] at hb
      have hS := h.absent k' hb
      apply Set.eq_empty_of_forall_notMem
      intro c hc
      rcases hc with hc | ⟨hk', _⟩
      · rw [hS] at hc; exact hc
      · exact hk hk'

theorem relaxAll {ι : Type*} (offer : ι → Option (κ × α)) : ∀ (l : List ι) {S : κ → Set α} {m : AList fun _ : κ => α},
    Offers S m →
    Offers (fun k => {a | a ∈ S k ∨ ∃ i ∈ l, offer i = some (k, a)})
      (Foton.relaxAll offer l m)
  | [], _, _, h => h.congr fun k a => by simp
  | i :: l, S, m, h => by
    unfold Foton.relaxAll
    rw [List.foldl_cons]
    cases hi : offer i with
    | none =>
      refine (relaxAll offer l h).congr fun k a => ?_
      simp only [Set.mem_ofPred_eq, List.mem_cons, exists_eq_or_imp, hi, reduceCtorEq, false_or]
    | some ka =>
      obtain ⟨k₀, a₀⟩ := ka
      refine (relaxAll offer l (h.relax k₀ a₀)).congr fun k a => ?_
      simp only [Set.mem_ofPred_eq, List.mem_cons, exists_eq_or_imp, hi, Option.some.injEq, Prod.mk.injEq, or_assoc]
      refine or_congr_right (or_congr_left ⟨fun ⟨hk, ha⟩ => ⟨hk.symm, ha.symm⟩, fun ⟨hk, ha⟩ => ⟨hk.symm, ha.symm⟩⟩)

end Offers

end Foton
