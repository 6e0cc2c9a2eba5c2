import Mathlib.Data.List.Basic

/-!
# Machines that turn one letter into one letter

A machine takes a state and a letter to a letter and the next state. Run on a
word piece by piece it writes what it writes when run on the whole word, and a
machine that undoes each step of another undoes its runs.
-/

namespace Foton

variable {σ α β : Type*}

abbrev Mealy (σ α β : Type*) := σ → α → β × σ

namespace Mealy

def run (m : Mealy σ α β) : σ → List α → List β × σ
  | s, [] => ([], s)
  | s, a :: as =>
    let (b, s) := m s a
    let (bs, s) := run m s as
    (b :: bs, s)

section
variable (m : Mealy σ α β)

@[simp] theorem run_nil (s : σ) : m.run s [] = ([], s) := rfl

theorem run_cons (s : σ) (a : α) (as : List α) :
    m.run s (a :: as) = ((m s a).1 :: (m.run (m s a).2 as).1, (m.run (m s a).2 as).2) := rfl

@[simp] theorem length_run (s : σ) (as : List α) : (m.run s as).1.length = as.length := by
  induction as generalizing s with
  | nil => rfl
  | cons a as ih => simp [run_cons, ih]

theorem run_append (s : σ) (as bs : List α) :
    m.run s (as ++ bs) =
      ((m.run s as).1 ++ (m.run (m.run s as).2 bs).1, (m.run (m.run s as).2 bs).2) := by
  induction as generalizing s with
  | nil => rfl
  | cons a as ih => simp [run_cons, ih]

theorem run_snoc (s : σ) (as : List α) (a : α) :
    m.run s (as ++ [a]) = ((m.run s as).1 ++ [(m (m.run s as).2 a).1], (m (m.run s as).2 a).2) := by
  rw [run_append]
  rfl

end

/-- `dec` reads each letter back from what `enc` wrote, and follows its states. -/
def Undoes (dec : Mealy σ β α) (enc : Mealy σ α β) : Prop :=
  ∀ s a, dec s (enc s a).1 = (a, (enc s a).2)

theorem Undoes.run {dec : Mealy σ β α} {enc : Mealy σ α β} (h : dec.Undoes enc) (s : σ) (as : List α) :
    dec.run s (enc.run s as).1 = (as, (enc.run s as).2) := by
  induction as generalizing s with
  | nil => rfl
  | cons a as ih => simp [run_cons, h s a, ih]

end Mealy
end Foton
