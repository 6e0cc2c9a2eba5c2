import Mathlib.Data.Set.Finite.Basic
import Mathlib.Logic.Relation
import Mathlib.Order.Basic

/-!
# Locks taken in order

Threads hold resources and wait for one at a time. When every thread waits only
for resources above those it holds, waiting never closes a circle.
-/

namespace Foton

variable {T R : Type*}

/-- The first thread waits for a resource of the second. -/
def WaitsFor (waits : T → Option R) (holder : R → Option T) (t u : T) : Prop :=
  ∃ r, waits t = some r ∧ holder r = some u

variable [LinearOrder R] {waits : T → Option R} {holder : R → Option T}

/-- A thread waits only for what is above all it holds. -/
def WaitsUpwards (waits : T → Option R) (holder : R → Option T) : Prop :=
  ∀ t r r', waits t = some r → holder r' = some t → r' < r

theorem WaitsUpwards.lt (h : WaitsUpwards waits holder) {u : T} {r r' : R}
    (hheld : holder r = some u) (hu : waits u = some r') : r < r' := h u r' r hu hheld

/-- Whoever waits waits, through others or not, for a thread that does not wait or for a free resource. -/
theorem WaitsUpwards.chain_ends (h : WaitsUpwards waits holder) (hfinite : Set.Finite {r | holder r ≠ none}) (t : T) :
    ∃ u, Relation.ReflTransGen (WaitsFor waits holder) t u ∧
      ∀ r, waits u = some r → holder r = none := by
  cases ht : waits t with
  | none =>
    refine ⟨t, Relation.ReflTransGen.refl, ?_⟩
    intro r hr
    rw [ht] at hr
    cases hr
  | some r =>
    -- the resource waited for rises along the chain, and only finitely many are held
    induction hn : (hfinite.toFinset.filter (r < ·)).card using Nat.strong_induction_on generalizing t r with
    | _ n ih =>
      cases hheld : holder r with
      | none =>
        refine ⟨t, Relation.ReflTransGen.refl, ?_⟩
        intro r' hr'
        rw [ht] at hr'
        rw [← Option.some.inj hr']
        exact hheld
      | some u =>
        have hstep : WaitsFor waits holder t u := ⟨r, ht, hheld⟩
        cases hu : waits u with
        | none =>
          refine ⟨u, Relation.ReflTransGen.single hstep, ?_⟩
          intro r' hr'
          rw [hu] at hr'
          cases hr'
        | some r' =>
          have hlt := h.lt hheld hu
          by_cases hlast : holder r' = none
          · refine ⟨u, Relation.ReflTransGen.single hstep, ?_⟩
            intro r'' hr''
            rw [hu] at hr''
            rw [← Option.some.inj hr'']
            exact hlast
          · have hfewer : (hfinite.toFinset.filter (r' < ·)).card < n := by
              rw [← hn]
              apply Finset.card_lt_card
              rw [Finset.ssubset_iff_of_subset]
              · exact ⟨r', by simp [hlast, hlt], by simp⟩
              · intro x hx
                rw [Finset.mem_filter] at hx ⊢
                exact ⟨hx.1, hlt.trans hx.2⟩
            obtain ⟨v, hchain, hv⟩ := ih _ hfewer u r' hu rfl
            exact ⟨v, Relation.ReflTransGen.head hstep hchain, hv⟩

/-- No thread waits for itself, through others or not. -/
theorem WaitsUpwards.acyclic (h : WaitsUpwards waits holder) (t : T) : ¬ Relation.TransGen (WaitsFor waits holder) t t := by
  have hrise : ∀ {t u : T}, Relation.TransGen (WaitsFor waits holder) t u →
      ∃ r r', waits t = some r ∧ holder r' = some u ∧ r ≤ r' := by
    intro t u hchain
    induction hchain with
    | single hstep =>
      obtain ⟨r, hr, hheld⟩ := hstep
      exact ⟨r, r, hr, hheld, le_rfl⟩
    | tail _ hstep ih =>
      obtain ⟨r, r', hr, hheld, hle⟩ := ih
      obtain ⟨s, hs, hnext⟩ := hstep
      exact ⟨r, s, hr, hnext, hle.trans (h _ s r' hs hheld).le⟩
  intro hcycle
  obtain ⟨r, r', hr, hheld, hle⟩ := hrise hcycle
  exact absurd (h t r r' hr hheld) (not_lt.mpr hle)

end Foton
