import Mathlib.Data.List.Basic
import Mathlib.Data.List.Induction

/-!
# Runs of a labelled step relation

A run is a finite sequence of steps, each with its label. An invariant of the
steps is an invariant of the runs; a side condition that every step of a run
meets may be used in the step's proof.
-/

namespace Foton

section

variable {σ ι : Type*}

/-- `Run step s xs t`: the labels `xs`, taken in order, lead from `s` to `t`. -/
inductive Run (step : σ → ι → σ → Prop) (s : σ) : List ι → σ → Prop
  | nil : Run step s [] s
  | snoc {t u : σ} {xs : List ι} {x : ι} : Run step s xs t → step t x u → Run step s (xs ++ [x]) u

/-- The steps of `step` whose source state and label meet `C`. -/
def Guarded (C : σ → ι → Prop) (step : σ → ι → σ → Prop) : σ → ι → σ → Prop :=
  fun s x t => C s x ∧ step s x t

namespace Run

variable {step : σ → ι → σ → Prop} {I : σ → Prop}

theorem invariant {s t : σ} {xs : List ι} (h : Run step s xs t) (h0 : I s)
    (hs : ∀ s x t, I s → step s x t → I t) : I t := by
  induction h with
  | nil => exact h0
  | snoc _ hx ih => exact hs _ _ _ ih hx

/-- The invariant rule for runs whose steps all meet `C`. -/
theorem invariant_of_guarded {C : σ → ι → Prop} {s t : σ} {xs : List ι}
    (h : Run (Guarded C step) s xs t) (h0 : I s)
    (hs : ∀ s x t, I s → C s x → step s x t → I t) : I t :=
  h.invariant h0 fun s x t hi hx => hs s x t hi hx.1 hx.2

theorem mono {step' : σ → ι → σ → Prop} {s t : σ} {xs : List ι} (h : Run step s xs t)
    (hs : ∀ s x t, step s x t → step' s x t) : Run step' s xs t := by
  induction h with
  | nil => exact .nil
  | snoc _ hx ih => exact .snoc ih (hs _ _ _ hx)

theorem single {s t : σ} {x : ι} (h : step s x t) : Run step s [x] t :=
  .snoc .nil h

theorem append {s t u : σ} {xs ys : List ι} (h : Run step s xs t) (h' : Run step t ys u) :
    Run step s (xs ++ ys) u := by
  induction h' with
  | nil => simpa using h
  | snoc _ hx ih => rw [← List.append_assoc]; exact .snoc ih hx

theorem of_foldlM {exec : σ → ι → Option σ} (hexec : ∀ s x t, exec s x = some t → step s x t) {s t : σ} {xs : List ι}
    (h : xs.foldlM exec s = some t) : Run step s xs t := by
  induction xs generalizing s with
  | nil =>
    cases h
    exact .nil
  | cons x xs ih =>
    rw [List.foldlM_cons] at h
    obtain ⟨u, hu, ht⟩ := Option.bind_eq_some_iff.mp h
    exact (single (hexec s x u hu)).append (ih ht)

/-- A condition on the labels alone guards every step of a run that only uses such labels. -/
theorem guard {P : ι → Prop} {s t : σ} {xs : List ι} (h : Run step s xs t) (hP : ∀ x ∈ xs, P x) :
    Run (Guarded (fun _ x => P x) step) s xs t := by
  induction h with
  | nil => exact .nil
  | snoc _ hx ih =>
    exact .snoc (ih fun y hy => hP y (by simp [hy])) ⟨hP _ (by simp), hx⟩

end Run

/-- The run along `xs` from `s` to `u` passes through `t`. -/
def Visits (step : σ → ι → σ → Prop) (s : σ) (xs : List ι) (u t : σ) : Prop :=
  ∃ ys zs, xs = ys ++ zs ∧ Run step s ys t ∧ Run step t zs u

namespace Visits

variable {step : σ → ι → σ → Prop} {s t u v : σ} {xs : List ι}

theorem last (h : Run step s xs u) : Visits step s xs u u :=
  ⟨xs, [], (List.append_nil xs).symm, h, .nil⟩

theorem snoc {x : ι} (h : Visits step s xs u t) (hx : step u x v) : Visits step s (xs ++ [x]) v t := by
  obtain ⟨ys, zs, rfl, hys, hzs⟩ := h
  exact ⟨ys, zs ++ [x], List.append_assoc ys zs [x], hys, .snoc hzs hx⟩

theorem run (h : Visits step s xs u t) : ∃ ys, (∀ y ∈ ys, y ∈ xs) ∧ Run step s ys t := by
  obtain ⟨ys, zs, rfl, hys, -⟩ := h
  exact ⟨ys, fun y hy => List.mem_append_left zs hy, hys⟩

end Visits

/-- A relation between some moment of a run and its end: each step keeps the moment or takes a new one. -/
theorem Run.moment {step : σ → ι → σ → Prop} {C : σ → ι → Prop} {J : σ → σ → Prop} {s u : σ} {xs : List ι}
    (h : Run (Guarded C step) s xs u) (h0 : J s s)
    (hs : ∀ v t x u, J v t → C t x → step t x u → J v u ∨ J u u) : ∃ v, Visits step s xs u v ∧ J v u := by
  induction h with
  | nil => exact ⟨s, .last .nil, h0⟩
  | snoc hrun hx ih =>
    obtain ⟨v, hvisits, hv⟩ := ih
    rcases hs v _ _ _ hv hx.1 hx.2 with hkept | hnew
    · exact ⟨v, hvisits.snoc hx.2, hkept⟩
    · exact ⟨_, .last (.snoc (hrun.mono fun _ _ _ hstep => hstep.2) hx.2), hnew⟩

end

/-!
## Properties of a history

A log grows at its end. A property of each event and of what came before it
holds of the longer log when it held of the shorter one and holds of the new
event.
-/

section

variable {E : Type*} {P : List E → E → Prop} {log : List E} {e : E}

/-- Every event of the log has the property, seen from the events before it. -/
def Throughout (P : List E → E → Prop) (log : List E) : Prop :=
  ∀ before e after, log = before ++ e :: after → P before e

theorem Throughout.nil : Throughout P [] := fun before e after h => by simp at h

theorem Throughout.snoc (h : Throughout P log) (he : P log e) : Throughout P (log ++ [e]) := by
  intro before e' after heq
  rcases List.append_eq_append_iff.mp heq with ⟨rest, rfl, hrest⟩ | ⟨rest, rfl, hrest⟩
  · cases rest with
    | nil =>
      obtain ⟨rfl, -⟩ := List.cons.inj hrest
      simpa using he
    | cons e rest => simp at hrest
  · cases rest with
    | nil =>
      obtain ⟨rfl, -⟩ := List.cons.inj hrest
      simpa using he
    | cons e rest =>
      obtain ⟨rfl, -⟩ := List.cons.inj hrest
      exact h before e' rest rfl

end

end Foton
