import Mathlib.Logic.Relation
import Mathlib.Logic.Hydra
import Mathlib.Order.WellFounded

/-!
# Loops that drain a queue

A loop repeats a step until the step has nothing left to do. The fuel bounds
the number of repetitions; a measure that every step makes smaller says that
some fuel is enough.
-/

namespace Foton

section

variable {σ : Type*} {step : σ → Option σ} {s t : σ}

/-- The loop: `none` when the fuel runs out first. -/
def drain (step : σ → Option σ) : Nat → σ → Option σ
  | 0, _ => none
  | fuel + 1, s =>
    match step s with
    | none => some s
    | some s => drain step fuel s

def Reaches (step : σ → Option σ) : σ → σ → Prop := Relation.ReflTransGen fun s t => step s = some t

theorem drain_reaches {fuel : Nat} (h : drain step fuel s = some t) : Reaches step s t ∧ step t = none := by
  induction fuel generalizing s with
  | zero => cases h
  | succ fuel ih =>
    unfold drain at h
    split at h
    next hnone =>
      cases h
      exact ⟨.refl, hnone⟩
    next next hstep =>
      obtain ⟨hreaches, hnone⟩ := ih h
      exact ⟨.head hstep hreaches, hnone⟩

theorem drain_add {fuel : Nat} (h : drain step fuel s = some t) (more : Nat) : drain step (fuel + more) s = some t := by
  induction fuel generalizing s with
  | zero => cases h
  | succ fuel ih =>
    rw [Nat.add_right_comm]
    unfold drain at h ⊢
    split at h
    · exact h
    · exact ih h

theorem drain_unique {fuel : Nat} {u : σ} (h : Reaches step s t) (hlast : step t = none)
    (hrun : drain step fuel s = some u) : t = u := by
  induction h using Relation.ReflTransGen.head_induction_on generalizing fuel with
  | refl =>
    cases fuel with
    | zero => cases hrun
    | succ fuel => simpa [drain, hlast] using hrun
  | head hstep _ ih =>
    cases fuel with
    | zero => cases hrun
    | succ fuel => exact ih (by simpa [drain, hstep] using hrun)

/-- An invariant, where every state that is passed may be assumed to meet `C`. -/
theorem Reaches.invariant {I C : σ → Prop} (h : Reaches step s t) (h0 : I s) (hC : ∀ u, Reaches step s u → C u)
    (hstep : ∀ u v, I u → C u → step u = some v → I v) : I t := by
  induction h with
  | refl => exact h0
  | tail hreaches hlast ih => exact hstep _ _ ih (hC _ hreaches) hlast

theorem drain_terminates {I : σ → Prop} (measure : σ → Nat) (h0 : I s) (hstep : ∀ u v, I u → step u = some v → I v)
    (hless : ∀ u v, I u → step u = some v → measure v < measure u) : ∃ fuel t, drain step fuel s = some t := by
  have main : ∀ n s, I s → measure s ≤ n → ∃ t, drain step (n + 1) s = some t := by
    intro n
    induction n with
    | zero =>
      intro s hs hn
      unfold drain
      split
      · exact ⟨s, rfl⟩
      next next hnext =>
        have := hless s next hs hnext
        omega
    | succ n ih =>
      intro s hs hn
      unfold drain
      split
      · exact ⟨s, rfl⟩
      next next hnext =>
        have := hless s next hs hnext
        exact ih next (hstep s next hs hnext) (by omega)
  exact ⟨measure s + 1, main _ s h0 (Nat.le_refl _)⟩

end

/-!
## Worklists with a budget

A turn takes an item off the front of a list and puts smaller items in its
place, or it spends from a budget and puts down what it likes. Either may drop
items from the rest of the list.
-/

section

open Relation

variable {α : Type*} {r : α → α → Prop}

/-- Less of the budget is left, or items were replaced by smaller ones. -/
def LessWork (r : α → α → Prop) : Nat × List α → Nat × List α → Prop :=
  InvImage (Prod.Lex (· < ·) (TransGen (CutExpand r))) fun s => (s.1, (s.2 : Multiset α))

theorem lessWork_wf (h : WellFounded r) : WellFounded (LessWork r) := by
  refine InvImage.wf _ (WellFounded.prod_lex Nat.lt_wfRel.wf ?_)
  exact WellFounded.transGen h.cutExpand

theorem LessWork.of_budget {budget budget' : Nat} (h : budget' < budget) (work work' : List α) :
    LessWork r (budget', work') (budget, work) := Prod.Lex.left _ _ h

theorem transGen_cutExpand_append {s t : Multiset α} (h : TransGen (CutExpand r) s t) (dropped : Multiset α) :
    TransGen (CutExpand r) s (dropped + t) := by
  induction dropped using Multiset.induction with
  | empty => rwa [Multiset.zero_add]
  | cons a dropped ih =>
    refine ih.tail ?_
    rw [← Multiset.singleton_add, Multiset.add_assoc]
    have hdrop : CutExpand r (0 + (dropped + t)) ({a} + (dropped + t)) := (cutExpand_add_right _).mpr cutExpand_zero
    rwa [Multiset.zero_add] at hdrop

theorem LessWork.of_expand {item : α} {children kept rest : List α} (hkept : kept <:+ rest) (h : ∀ child ∈ children, r child item)
    (budget : Nat) : LessWork r (budget, children ++ kept) (budget, item :: rest) := by
  obtain ⟨dropped, rfl⟩ := hkept
  refine Prod.Lex.right _ ?_
  have hone : CutExpand r ((children : Multiset α) + kept) ({item} + kept) :=
    (cutExpand_add_right _).mpr (cutExpand_singleton fun child hchild => h child (Multiset.mem_coe.mp hchild))
  have hall := transGen_cutExpand_append (TransGen.single hone) (dropped : Multiset α)
  have hwork : ((dropped : Multiset α) + ({item} + (kept : Multiset α))) = ((item :: (dropped ++ kept) : List α) : Multiset α) := by
    rw [← Multiset.cons_coe, ← Multiset.coe_add, ← Multiset.singleton_add]
    exact add_left_comm _ _ _
  rwa [hwork, Multiset.coe_add] at hall

end

end Foton
