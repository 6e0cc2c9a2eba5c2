import Mathlib.Data.List.Count
import Mathlib.Logic.Function.Basic

/-!
# Entries that tasks own

A table is shared by tasks. An entry of a kept kind has one owner among the
tasks, and a task owns at most one entry. The rules say what happens to the
ownership when a task is replaced by others.
-/

namespace Foton

section
variable {E T : Type} [DecidableEq E] {holds : T → Option E} {tasks : List T} {t t' : T} {e : E}

/-- The number of tasks that hold the entry. -/
def holders (holds : T → Option E) (e : E) (tasks : List T) : Nat := tasks.countP fun t => holds t = some e

theorem holders_append (e : E) (tasks tasks' : List T) :
    holders holds e (tasks ++ tasks') = holders holds e tasks + holders holds e tasks' :=
  List.countP_append

@[simp] theorem holders_nil : holders holds e [] = 0 := rfl

@[simp]
theorem holders_cons : holders holds e (t :: tasks) = holders holds e tasks + if holds t = some e then 1 else 0 := by
  simp [holders, List.countP_cons]

theorem holders_pos (ht : t ∈ tasks) (hheld : holds t = some e) : 0 < holders holds e tasks :=
  List.countP_pos_iff.mpr ⟨t, ht, by simpa using hheld⟩

theorem holders_spawn (hnew : holds t = none) : holders holds e (t :: tasks) = holders holds e tasks := by
  simp [hnew]

theorem holders_erase [DecidableEq T] (ht : t ∈ tasks) :
    holders holds e (tasks.erase t) + (if holds t = some e then 1 else 0) = holders holds e tasks := by
  rw [← holders_cons]
  exact (List.perm_cons_erase ht).symm.countP_eq _

theorem holders_erase_le [DecidableEq T] (tasks : List T) (t : T) :
    holders holds e (tasks.erase t) ≤ holders holds e tasks :=
  List.erase_sublist.countP_le

theorem holders_pass [DecidableEq T] (ht : t ∈ tasks) (hsame : holds t' = holds t) :
    holders holds e (t' :: tasks.erase t) = holders holds e tasks := by
  rw [holders_cons, hsame, holders_erase ht]

end

variable {K S T : Type} [DecidableEq K] [DecidableEq S] {holds : T → Option (K × S)} {kept : S → Prop}
  {table table' : K → Option S} {tasks : List T} {t t' : T} {k : K} {st : S}

/-- Each kept entry has one owner, and what a task holds is in the table. -/
def Owned (holds : T → Option (K × S)) (kept : S → Prop) (table : K → Option S) (tasks : List T) : Prop :=
  ∀ k st, kept st → holders holds (k, st) tasks = if table k = some st then 1 else 0

theorem Owned.nil : Owned holds kept (fun _ => none) [] := fun k st _ => by simp

theorem Owned.lookup (h : Owned holds kept table tasks) (ht : t ∈ tasks) (hheld : holds t = some (k, st))
    (hkept : kept st) : table k = some st := by
  have hpos := holders_pos ht hheld
  rw [h k st hkept] at hpos
  by_contra hne
  simp [hne] at hpos

theorem Owned.congr (h : Owned holds kept table tasks)
    (htable : ∀ k st, kept st → (table' k = some st ↔ table k = some st)) : Owned holds kept table' tasks :=
  fun k st hkept => by simp only [h k st hkept, htable k st hkept]

theorem Owned.spawn (h : Owned holds kept table tasks) (hnew : holds t = none) :
    Owned holds kept table (t :: tasks) := fun k st hkept => by
  simp [h k st hkept, hnew]

theorem Owned.acquire (h : Owned holds kept table tasks) (hnew : holds t = some (k, st))
    (hfree : ∀ st, kept st → table k ≠ some st) :
    Owned holds kept (Function.update table k (some st)) (t :: tasks) := fun a b hkept => by
  rw [holders_cons, h a b hkept, hnew]
  by_cases ha : a = k
  · subst ha
    simp [hfree b hkept]
  · simp [ha, Ne.symm ha]

variable [DecidableEq T]

theorem Owned.replace (h : Owned holds kept table tasks) (ht : t ∈ tasks) (new : List T)
    (hcount : ∀ k st, kept st → holders holds (k, st) new + (if table k = some st then 1 else 0) =
      (if holds t = some (k, st) then 1 else 0) + if table' k = some st then 1 else 0) :
    Owned holds kept table' (new ++ tasks.erase t) := fun k st hkept => by
  have herase : holders holds (k, st) (tasks.erase t) + _ = _ := holders_erase ht
  have hnew := hcount k st hkept
  rw [← h k st hkept] at hnew
  rw [holders_append]
  omega

theorem Owned.pass (h : Owned holds kept table tasks) (ht : t ∈ tasks) (hsame : holds t' = holds t) :
    Owned holds kept table (t' :: tasks.erase t) :=
  h.replace ht [t'] fun k st _ => by simp [hsame]

theorem Owned.drop (h : Owned holds kept table tasks) (ht : t ∈ tasks) (hnone : holds t = none) :
    Owned holds kept table (tasks.erase t) :=
  h.replace ht [] fun k st _ => by simp [hnone]

theorem Owned.take (h : Owned holds kept table tasks) (ht : t ∈ tasks) (hnone : holds t = none)
    (hnew : holds t' = some (k, st)) (hfree : ∀ st, kept st → table k ≠ some st) :
    Owned holds kept (Function.update table k (some st)) (t' :: tasks.erase t) :=
  (h.drop ht hnone).acquire hnew hfree

theorem Owned.release (h : Owned holds kept table tasks) (ht : t ∈ tasks) (hheld : holds t = some (k, st))
    (hkept : kept st) : Owned holds kept (Function.update table k none) (tasks.erase t) := by
  have htable := h.lookup ht hheld hkept
  refine h.replace ht [] fun a b hb => ?_
  by_cases ha : a = k
  · subst ha
    simp [hheld, htable]
  · simp [hheld, ha, Ne.symm ha]

end Foton
