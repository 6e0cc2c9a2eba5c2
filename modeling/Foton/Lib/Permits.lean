import Mathlib.Algebra.BigOperators.Group.List.Basic
import Mathlib.Data.List.Basic
import Mathlib.Logic.Function.Basic
import Mathlib.Algebra.Ring.Nat

/-!
# Counted budgets

A semaphore counts the permits that are left of a budget. Permits are taken and
given back in amounts; who holds how many is a list of amounts.
-/

namespace Foton

variable {B : Type} [DecidableEq B]

/-- Amounts of permits of several budgets. -/
abbrev Permits (B : Type) : Type := List (B × Nat)

namespace Permits

def amount (permits : Permits B) (b : B) : Nat := (permits.map fun e => if e.1 = b then e.2 else 0).sum

@[simp] theorem amount_nil (b : B) : amount ([] : Permits B) b = 0 := rfl

@[simp]
theorem amount_cons (e : B × Nat) (permits : Permits B) (b : B) :
    amount (e :: permits) b = (if e.1 = b then e.2 else 0) + amount permits b := by simp [amount]

@[simp]
theorem amount_append (permits permits' : Permits B) (b : B) :
    amount (permits ++ permits') b = amount permits b + amount permits' b := by simp [amount]

theorem amount_perm {permits permits' : Permits B} (h : permits.Perm permits') (b : B) :
    amount permits b = amount permits' b := (h.map _).sum_eq

@[simp]
theorem amount_reverse (permits : Permits B) (b : B) : amount permits.reverse b = amount permits b :=
  amount_perm permits.reverse_perm b

end Permits

/-- `try_acquire_many_owned`. -/
def tryAcquire (available : B → Nat) (b : B) (n : Nat) : Option (B → Nat) :=
  if n ≤ available b then some (Function.update available b (available b - n)) else none

def giveBack (available : B → Nat) (b : B) (n : Nat) : B → Nat := Function.update available b (available b + n)

theorem tryAcquire_some {available available' : B → Nat} {b : B} {n : Nat} (h : tryAcquire available b n = some available')
    (b' : B) : available' b' + (if b = b' then n else 0) = available b' := by
  unfold tryAcquire at h
  split at h
  · rename_i hle
    cases h
    by_cases hb : b = b'
    · subst hb
      rw [Function.update_self, if_pos rfl, Nat.sub_add_cancel hle]
    · rw [Function.update_of_ne (Ne.symm hb), if_neg hb, Nat.add_zero]
  · cases h

theorem giveBack_eq (available : B → Nat) (b : B) (n : Nat) (b' : B) :
    giveBack available b n b' = available b' + if b = b' then n else 0 := by
  unfold giveBack
  by_cases hb : b = b'
  · subst hb
    rw [Function.update_self, if_pos rfl]
  · rw [Function.update_of_ne (Ne.symm hb), if_neg hb, Nat.add_zero]

/-! ## Totals over a list of holders -/

section
variable {α : Type} {l : List α} {i : Nat} {a : α} (f : α → Nat)

theorem sum_eraseIdx (h : l[i]? = some a) : ((l.eraseIdx i).map f).sum + f a = (l.map f).sum := by
  obtain ⟨hi, rfl⟩ := List.getElem?_eq_some_iff.mp h
  rw [← ((List.getElem_cons_eraseIdx_perm hi).map f).sum_eq, List.map_cons, List.sum_cons, Nat.add_comm]

theorem sum_set (h : l[i]? = some a) (a' : α) : ((l.set i a').map f).sum + f a = (l.map f).sum + f a' := by
  obtain ⟨hi, -⟩ := List.getElem?_eq_some_iff.mp h
  rw [((List.set_perm_cons_eraseIdx hi a').map f).sum_eq, List.map_cons, List.sum_cons, ← sum_eraseIdx f h]
  omega

end

end Foton
