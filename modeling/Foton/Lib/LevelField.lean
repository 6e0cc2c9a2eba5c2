import Mathlib.Data.Set.Finite.Basic
import Mathlib.Data.Finite.Prod
import Mathlib.Data.Finset.Lattice.Fold
import Mathlib.Data.Finset.Max

/-!
# Level fields

Sources emit a level, and what a place passes on loses the cost of the place
that receives it. A field solves the medium on a region when every level is the
largest of what its place emits and what its neighbours pass on. As costs are
positive, a medium has at most one solution on a finite region.
-/

namespace Foton

structure Medium (V : Type*) where
  emission : V → Nat
  cost : V → Nat
  carries : V → V → Prop
  cost_pos : ∀ p, 0 < cost p

namespace Medium

variable {V : Type*} {M : Medium V} {region : Set V} {level level' : V → Nat}

structure Solves (M : Medium V) (region : Set V) (level : V → Nat) : Prop where
  emits : ∀ p ∈ region, M.emission p ≤ level p
  spreads : ∀ n ∈ region, ∀ p ∈ region, M.carries n p → level n ≤ level p + M.cost p
  supported : ∀ p ∈ region, level p ≤ M.emission p ∨
    ∃ n ∈ region, M.carries n p ∧ level p + M.cost p ≤ level n

theorem Solves.le_of_emission (h : M.Solves region level) (hfinite : region.Finite) {b : Nat}
    (hb : ∀ p ∈ region, M.emission p ≤ b) : ∀ p ∈ region, level p ≤ b := by
  intro p hp
  obtain ⟨m, hm, hmax⟩ := hfinite.toFinset.exists_max_image level ⟨p, hfinite.mem_toFinset.mpr hp⟩
  rw [hfinite.mem_toFinset] at hm
  have hle := hmax p (hfinite.mem_toFinset.mpr hp)
  rcases h.supported m hm with hemits | ⟨n, hn, -, hpass⟩
  · exact hle.trans (hemits.trans (hb m hm))
  · -- a neighbour would be above the largest level
    have hcost := M.cost_pos m
    have := hmax n (hfinite.mem_toFinset.mpr hn)
    omega

theorem Solves.le (h : M.Solves region level) (hfinite : region.Finite)
    (hemits : ∀ p ∈ region, M.emission p ≤ level' p)
    (hspreads : ∀ n ∈ region, ∀ p ∈ region, M.carries n p → level' n ≤ level' p + M.cost p) :
    ∀ p ∈ region, level p ≤ level' p := by
  obtain ⟨b, hb⟩ : ∃ b, ∀ p ∈ region, level p ≤ b :=
    ⟨hfinite.toFinset.sup level, fun p hp => Finset.le_sup (hfinite.mem_toFinset.mpr hp)⟩
  -- downwards from the largest level
  have hdown : ∀ k, ∀ p ∈ region, b ≤ level p + k → level p ≤ level' p := by
    intro k
    induction k with
    | zero =>
      intro p hp hk
      rcases h.supported p hp with he | ⟨n, hn, -, hpass⟩
      · exact he.trans (hemits p hp)
      · have := hb n hn
        have := M.cost_pos p
        omega
    | succ k ih =>
      intro p hp hk
      rcases h.supported p hp with he | ⟨n, hn, hcarries, hpass⟩
      · exact he.trans (hemits p hp)
      · have hcost := M.cost_pos p
        have hn' := ih n hn (by omega)
        have hspread := hspreads n hn p hp hcarries
        omega
  exact fun p hp => hdown b p hp (Nat.le_add_left b _)

theorem Solves.unique (h : M.Solves region level) (h' : M.Solves region level') (hfinite : region.Finite) :
    ∀ p ∈ region, level p = level' p := fun p hp =>
  Nat.le_antisymm (h.le hfinite h'.emits h'.spreads p hp) (h'.le hfinite h.emits h.spreads p hp)

end Medium

end Foton
