import Mathlib.Data.List.Basic
import Mathlib.Logic.Basic

/-!
# Computations that can fail

What is known of the parts of a computation once the whole has succeeded, and
when a list of computations succeeds.
-/

namespace Foton

section

universe u

variable {ε ε' : Type*} {α β : Type u}

theorem bind_eq_ok {x : Except ε α} {f : α → Except ε β} {b : β} :
    (x >>= f) = .ok b ↔ ∃ a, x = .ok a ∧ f a = .ok b := by
  cases x <;> simp [bind, Except.bind]

theorem mapError_eq_ok {f : ε → ε'} {x : Except ε α} {a : α} : x.mapError f = .ok a ↔ x = .ok a := by
  cases x <;> simp [Except.mapError]

theorem exists_of_mem_mapM_ok {f : α → Except ε β} {xs : List α} {ys : List β} (h : xs.mapM f = .ok ys) {y : β} (hy : y ∈ ys) :
    ∃ x ∈ xs, f x = .ok y := by
  induction xs generalizing ys with
  | nil =>
    cases h
    cases hy
  | cons x xs ih =>
    rw [List.mapM_cons] at h
    obtain ⟨first, hfirst, h⟩ := bind_eq_ok.mp h
    obtain ⟨rest, hrest, h⟩ := bind_eq_ok.mp h
    cases h
    rcases List.mem_cons.mp hy with rfl | hy
    · exact ⟨x, List.mem_cons_self, hfirst⟩
    · obtain ⟨x', hx', hf⟩ := ih hrest hy
      exact ⟨x', List.mem_cons_of_mem _ hx', hf⟩

/-! ## Lists of partial results -/

variable {f : α → Option β} {xs : List α} {ys : List β}

theorem exists_of_mem_mapM (h : xs.mapM f = some ys) {y : β} (hy : y ∈ ys) : ∃ x ∈ xs, f x = some y := by
  induction xs generalizing ys with
  | nil =>
    cases h
    cases hy
  | cons x xs ih =>
    rw [List.mapM_cons] at h
    obtain ⟨first, hfirst, h⟩ := Option.bind_eq_some_iff.mp h
    obtain ⟨rest, hrest, h⟩ := Option.bind_eq_some_iff.mp h
    cases h
    rcases List.mem_cons.mp hy with rfl | hy
    · exact ⟨x, List.mem_cons_self, hfirst⟩
    · obtain ⟨found, hmem, hfound⟩ := ih hrest hy
      exact ⟨found, List.mem_cons_of_mem _ hmem, hfound⟩

theorem isSome_mapM (h : ∀ x ∈ xs, (f x).isSome) : (xs.mapM f).isSome := by
  induction xs with
  | nil => rfl
  | cons x xs ih =>
    rw [List.forall_mem_cons] at h
    obtain ⟨first, hfirst⟩ := Option.isSome_iff_exists.mp h.1
    obtain ⟨rest, hrest⟩ := Option.isSome_iff_exists.mp (ih h.2)
    rw [List.mapM_cons, hfirst, hrest]
    rfl

theorem forall₂_mapM {R : α → β → Prop} (h : ∀ x ∈ xs, ∃ y, f x = some y ∧ R x y) :
    ∃ ys, xs.mapM f = some ys ∧ List.Forall₂ R xs ys := by
  induction xs with
  | nil => exact ⟨[], rfl, List.Forall₂.nil⟩
  | cons x xs ih =>
    rw [List.forall_mem_cons] at h
    obtain ⟨y, hy, hr⟩ := h.1
    obtain ⟨ys, hys, hrs⟩ := ih h.2
    refine ⟨y :: ys, ?_, List.Forall₂.cons hr hrs⟩
    rw [List.mapM_cons, hy, hys]
    rfl

theorem exists_of_mem_forall₂ {R : α → β → Prop} (h : List.Forall₂ R xs ys) {y : β} (hy : y ∈ ys) : ∃ x ∈ xs, R x y := by
  induction h with
  | nil => cases hy
  | cons hr _ ih =>
    rcases List.mem_cons.mp hy with rfl | hy
    · exact ⟨_, List.mem_cons_self, hr⟩
    · obtain ⟨x, hx, hr⟩ := ih hy
      exact ⟨x, List.mem_cons_of_mem _ hx, hr⟩

theorem foldlM_some {g : β → α → Option β} {P : β → Prop} (h : ∀ b, P b → ∀ a ∈ xs, ∃ b', g b a = some b' ∧ P b') :
    ∀ {b : β}, P b → ∃ b', xs.foldlM g b = some b' ∧ P b' := by
  induction xs with
  | nil => exact fun {b} hb => ⟨b, rfl, hb⟩
  | cons x xs ih =>
    intro b hb
    obtain ⟨b', hg, hb'⟩ := h b hb x List.mem_cons_self
    obtain ⟨last, hlast, hP⟩ := ih (fun b hb a ha => h b hb a (List.mem_cons_of_mem _ ha)) hb'
    refine ⟨last, ?_, hP⟩
    rw [List.foldlM_cons, hg]
    exact hlast

/-- A fold that succeeds keeps what its steps keep. -/
theorem foldlM_invariant {g : β → α → Option β} {P : β → Prop} (hstep : ∀ b, ∀ a ∈ xs, ∀ b', P b → g b a = some b' → P b')
    {b last : β} (hb : P b) (h : xs.foldlM g b = some last) : P last := by
  induction xs generalizing b with
  | nil =>
    cases h
    exact hb
  | cons x xs ih =>
    rw [List.foldlM_cons] at h
    obtain ⟨b', hg, h⟩ := Option.bind_eq_some_iff.mp h
    exact ih (fun b a ha => hstep b a (List.mem_cons_of_mem _ ha)) (hstep b x List.mem_cons_self b' hb hg) h

end

/-!
## Computations with a state and errors

`Ensures x s Q E` says how a computation ends: with a value and a state that meet
`Q`, or with an error and a state that meet `E`. The rules follow the ways of
putting computations together. Two computations may also be compared step by
step, as long as the first does not end with an error of a given kind.
-/

section

universe u

variable {ε σ α β : Type u}

def Ensures (x : EStateM ε σ α) (s : σ) (Q : α → σ → Prop) (E : ε → σ → Prop) : Prop :=
  match x s with
  | .ok a s' => Q a s'
  | .error e s' => E e s'

section Rules

variable {s : σ} {Q Q' : α → σ → Prop} {R : β → σ → Prop} {E E' : ε → σ → Prop}

@[simp]
theorem ensures_pure {a : α} : Ensures (pure a) s Q E ↔ Q a s := Iff.rfl

@[simp]
theorem ensures_throw {e : ε} : Ensures (throw e) s Q E ↔ E e s := Iff.rfl

theorem ensures_bind {x : EStateM ε σ α} {f : α → EStateM ε σ β} :
    Ensures (x >>= f) s R E ↔ Ensures x s (fun a s' => Ensures (f a) s' R E) E := by
  unfold Ensures
  simp only [bind, EStateM.bind]
  cases x s <;> rfl

@[simp]
theorem ensures_map {x : EStateM ε σ α} {f : α → β} :
    Ensures (f <$> x) s R E ↔ Ensures x s (fun a s' => R (f a) s') E := by
  unfold Ensures
  simp only [Functor.map, EStateM.map]
  cases x s <;> rfl

theorem Ensures.mono {x : EStateM ε σ α} (h : Ensures x s Q E) (hQ : ∀ a s', Q a s' → Q' a s')
    (hE : ∀ e s', E e s' → E' e s') : Ensures x s Q' E' := by
  unfold Ensures at *
  split <;> simp_all

theorem Ensures.bind {x : EStateM ε σ α} {f : α → EStateM ε σ β} (h : Ensures x s Q E')
    (hf : ∀ a s', Q a s' → Ensures (f a) s' R E) (hE : ∀ e s', E' e s' → E e s') : Ensures (x >>= f) s R E :=
  ensures_bind.mpr (h.mono hf hE)

theorem Ensures.of_ok {x : EStateM ε σ α} {a : α} {s' : σ} (h : Ensures x s Q E) (hx : x s = .ok a s') : Q a s' := by
  unfold Ensures at h
  rw [hx] at h
  exact h

theorem Ensures.of_error {x : EStateM ε σ α} {e : ε} {s' : σ} (h : Ensures x s Q E) (hx : x s = .error e s') : E e s' := by
  unfold Ensures at h
  rw [hx] at h
  exact h

theorem Ensures.exists_ok {x : EStateM ε σ α} (h : Ensures x s Q fun _ _ => False) : ∃ a s', x s = .ok a s' ∧ Q a s' := by
  unfold Ensures at h
  split at h
  · exact ⟨_, _, ‹_›, h⟩
  · exact h.elim

end Rules

/-! ## Comparison up to an error -/

/-- `x` does what `y` does, unless `x` ends with an error in `F`. -/
def AgreesUpTo (F : ε → Prop) (x y : EStateM ε σ α) : Prop :=
  ∀ s, x s = y s ∨ ∃ e s', F e ∧ x s = .error e s'

namespace AgreesUpTo

variable {F : ε → Prop}

theorem refl (x : EStateM ε σ α) : AgreesUpTo F x x := fun _ => Or.inl rfl

theorem bind {x y : EStateM ε σ α} {f g : α → EStateM ε σ β} (h : AgreesUpTo F x y) (hf : ∀ a, AgreesUpTo F (f a) (g a)) :
    AgreesUpTo F (x >>= f) (y >>= g) := by
  intro s
  simp only [Bind.bind, EStateM.bind]
  obtain heq | ⟨e, s', he, heq⟩ := h s
  · rw [heq]
    cases y s with
    | ok a s' => exact hf a s'
    | error e s' => exact Or.inl rfl
  · rw [heq]
    exact Or.inr ⟨e, s', he, rfl⟩

theorem map {x y : EStateM ε σ α} (f : α → β) (h : AgreesUpTo F x y) : AgreesUpTo F (f <$> x) (f <$> y) := by
  intro s
  simp only [Functor.map, EStateM.map]
  obtain heq | ⟨e, s', he, heq⟩ := h s
  · exact Or.inl (by rw [heq])
  · exact Or.inr ⟨e, s', he, by rw [heq]⟩

end AgreesUpTo

end

end Foton
