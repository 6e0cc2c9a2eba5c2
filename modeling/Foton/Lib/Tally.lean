import Mathlib.Data.List.Perm.Basic
import Mathlib.Algebra.BigOperators.Group.List.Basic
import Mathlib.Data.List.Count
import Mathlib.Logic.Function.Basic
import Mathlib.Algebra.Ring.Nat

/-!
# `swap_remove`
-/

namespace Foton

section

open List

variable {α : Type*}

/-- The last element takes the place of element `i`. -/
def swapRemove (l : List α) (i : Nat) : List α :=
  match l.getLast? with
  | some a => (l.set i a).dropLast
  | none => []

theorem swapRemove_perm {l : List α} {i : Nat} (h : i < l.length) : (l[i] :: swapRemove l i).Perm l := by
  obtain ⟨init, a, rfl⟩ : ∃ init a, l = init ++ [a] := by
    refine ⟨l.dropLast, l.getLast (List.ne_nil_of_length_pos (by omega)), ?_⟩
    exact (List.dropLast_append_getLast _).symm
  unfold swapRemove
  rw [List.getLast?_concat]
  dsimp only
  by_cases hi : i < init.length
  · rw [List.getElem_append_left hi, List.set_append_left _ _ hi]
    rw [List.dropLast_concat]
    calc init[i] :: init.set i a
        _ ~ init[i] :: a :: init.eraseIdx i := (List.set_perm_cons_eraseIdx hi a).cons _
        _ ~ a :: init[i] :: init.eraseIdx i := .swap _ _ _
        _ ~ a :: init := (List.getElem_cons_eraseIdx_perm hi).cons _
        _ ~ init ++ [a] := (List.perm_append_singleton a init).symm
  · have hi : i = init.length := by rw [List.length_append, List.length_singleton] at h; omega
    subst hi
    rw [List.getElem_concat_length rfl, List.set_append_right _ _ (Nat.le_refl _), Nat.sub_self]
    rw [List.set_cons_zero, List.dropLast_concat]
    exact (List.perm_append_singleton a init).symm

end

/-!
## Tallies
A tally lists the values that occur, each once, with their counts. Counts are
below a limit, and an operation that would break a count's range gives `none`.
-/

section

variable {α : Type*}

/-- The tally `t` lists exactly the values with a positive count, with that count. -/
def Tallies (t : List (α × Nat)) (count : α → Nat) : Prop :=
  (t.map Prod.fst).Nodup ∧ ∀ a n, (a, n) ∈ t ↔ n = count a ∧ 0 < n

namespace Tallies

variable {t t' : List (α × Nat)} {count : α → Nat} {a : α} {n : Nat}

theorem perm (h : Tallies t count) (hperm : t.Perm t') : Tallies t' count :=
  ⟨(hperm.map Prod.fst).nodup_iff.mp h.1, fun a n => hperm.mem_iff.symm.trans (h.2 a n)⟩

theorem nil_iff : Tallies ([] : List (α × Nat)) count ↔ ∀ a, count a = 0 := by
  constructor
  · intro h a
    by_contra hpos
    exact List.not_mem_nil ((h.2 a _).mpr ⟨rfl, Nat.pos_of_ne_zero hpos⟩)
  · intro h
    refine ⟨List.nodup_nil, fun a n => ?_⟩
    simp only [List.not_mem_nil, h a, false_iff]
    omega

theorem mem_keys (h : Tallies t count) : a ∈ t.map Prod.fst ↔ 0 < count a := by
  constructor
  · intro ha
    obtain ⟨⟨b, m⟩, hm, rfl⟩ := List.mem_map.mp ha
    obtain ⟨hcount, hpos⟩ := (h.2 b m).mp hm
    exact hcount ▸ hpos
  · intro hpos
    exact List.mem_map_of_mem ((h.2 a _).mpr ⟨rfl, hpos⟩)

end Tallies

variable [DecidableEq α]

/-- `n` more of `a`. A new value goes to the end. -/
def addCount (limit : Nat) (a : α) (n : Nat) : List (α × Nat) → Option (List (α × Nat))
  | [] => some [(a, n)]
  | (b, m) :: t =>
    if b = a then if m + n < limit then some ((b, m + n) :: t) else none
    else (addCount limit a n t).map ((b, m) :: ·)

/-- One less of `a`. The last value takes the place of one that is gone. -/
def removeCount (a : α) (t : List (α × Nat)) : Option (List (α × Nat)) :=
  match t.findIdx? fun e => e.1 = a with
  | none => some t
  | some i =>
    match t[i]? with
    | none | some (_, 0) => none
    | some (_, 1) => some (swapRemove t i)
    | some (b, m + 1) => some (t.set i (b, m))

namespace Tallies

variable {t t' : List (α × Nat)} {count : α → Nat} {a : α} {n : Nat}

theorem cons_iff : Tallies ((a, n) :: t) count ↔ n = count a ∧ 0 < n ∧ Tallies t (Function.update count a 0) := by
  constructor
  · rintro ⟨hnodup, hmem⟩
    rw [List.map_cons, List.nodup_cons] at hnodup
    obtain ⟨hn, hpos⟩ := (hmem a n).mp List.mem_cons_self
    refine ⟨hn, hpos, hnodup.2, fun b m => ?_⟩
    by_cases hb : b = a
    · subst hb
      rw [Function.update_self]
      refine ⟨fun h => absurd (List.mem_map_of_mem h) hnodup.1, fun h => ?_⟩
      omega
    · rw [Function.update_of_ne hb, ← hmem b m, List.mem_cons]
      simp [hb]
  · rintro ⟨hn, hpos, hnodup, hmem⟩
    refine ⟨?_, fun b m => ?_⟩
    · rw [List.map_cons, List.nodup_cons]
      refine ⟨fun h => ?_, hnodup⟩
      obtain ⟨⟨b, m⟩, hbm, rfl⟩ := List.mem_map.mp h
      have := (hmem b m).mp hbm
      rw [Function.update_self] at this
      omega
    · rw [List.mem_cons, hmem b m]
      by_cases hb : b = a
      · subst hb
        rw [Function.update_self]
        simp only [Prod.mk.injEq, true_and]
        omega
      · rw [Function.update_of_ne hb]
        simp [hb]

theorem addCount_ok (h : Tallies t count) (limit : Nat) (a : α) (hn : 0 < n) (hlimit : count a + n < limit) :
    ∃ t', addCount limit a n t = some t' ∧ Tallies t' (Function.update count a (count a + n)) := by
  induction t generalizing count with
  | nil =>
    have hzero := nil_iff.mp h
    refine ⟨[(a, n)], rfl, cons_iff.mpr ⟨?_, hn, nil_iff.mpr fun b => ?_⟩⟩
    · rw [Function.update_self, hzero, Nat.zero_add]
    · rw [Function.update_idem]
      by_cases hb : b = a
      · rw [hb, Function.update_self]
      · rw [Function.update_of_ne hb, hzero]
  | cons e t ih =>
    obtain ⟨b, m⟩ := e
    obtain ⟨hm, hpos, hrest⟩ := cons_iff.mp h
    unfold addCount
    by_cases hb : b = a
    · subst hb
      rw [if_pos rfl, if_pos (hm ▸ hlimit)]
      refine ⟨_, rfl, cons_iff.mpr ⟨?_, by omega, ?_⟩⟩
      · rw [Function.update_self, hm]
      · rw [Function.update_idem]
        exact hrest
    · have hother : Function.update count b 0 a = count a := Function.update_of_ne (Ne.symm hb) _ _
      obtain ⟨t', ht', htallies⟩ := ih hrest (by rw [hother]; exact hlimit)
      rw [if_neg hb, ht']
      refine ⟨_, rfl, cons_iff.mpr ⟨?_, hpos, ?_⟩⟩
      · rw [Function.update_of_ne hb, hm]
      · rw [Function.update_comm (Ne.symm hb), ← hother]
        exact htallies

theorem removeCount_ok (h : Tallies t count) (hpos : 0 < count a) :
    ∃ t', removeCount a t = some t' ∧ Tallies t' (Function.update count a (count a - 1)) := by
  have hmem : (a, count a) ∈ t := (h.2 a _).mpr ⟨rfl, hpos⟩
  unfold removeCount
  cases hfind : t.findIdx? fun e => e.1 = a with
  | none =>
    rw [List.findIdx?_eq_none_iff] at hfind
    exact absurd (hfind _ hmem) (by simp)
  | some i =>
    obtain ⟨hlt, hi, -⟩ := List.findIdx?_eq_some_iff_getElem.mp hfind
    have hentry : t[i] = (a, count a) := by
      have hin := (h.2 t[i].1 t[i].2).mp (List.getElem_mem hlt)
      rw [of_decide_eq_true hi] at hin
      exact Prod.ext (of_decide_eq_true hi) hin.1
    have hperm : ((a, count a) :: t.eraseIdx i).Perm t := hentry ▸ List.getElem_cons_eraseIdx_perm hlt
    have hrest := (cons_iff.mp (h.perm hperm.symm)).2.2
    dsimp only
    rw [List.getElem?_eq_getElem hlt, hentry]
    match hc : count a with
    | 0 => omega
    | 1 =>
      refine ⟨_, rfl, ?_⟩
      have hswap : (swapRemove t i).Perm (t.eraseIdx i) :=
        ((hentry ▸ swapRemove_perm hlt).trans hperm.symm).cons_inv
      exact hrest.perm hswap.symm
    | m + 2 =>
      refine ⟨_, rfl, ?_⟩
      refine (cons_iff.mpr ⟨?_, Nat.succ_pos m, ?_⟩).perm (List.set_perm_cons_eraseIdx hlt (a, m + 1)).symm
      · rw [Function.update_self]
        omega
      · rw [Function.update_idem]
        exact hrest

/-- Adding up the counts of the values that satisfy `p`. -/
theorem sum_filter {p : α → Bool} {l : List α} (h : Tallies t fun a => l.count a) :
    ((t.filter fun e => p e.1).map Prod.snd).sum = l.countP p := by
  induction t generalizing l with
  | nil =>
    have hnil : l = [] := List.eq_nil_iff_forall_not_mem.mpr fun a ha =>
      absurd (nil_iff.mp h a) (Nat.pos_iff_ne_zero.mp (List.count_pos_iff.mpr ha))
    rw [hnil]
    rfl
  | cons e t ih =>
    obtain ⟨a, n⟩ := e
    obtain ⟨hn, -, hrest⟩ := cons_iff.mp h
    have hwithout : Tallies t fun b => (l.filter fun b => b ≠ a).count b := by
      have hcount : Function.update (fun b => l.count b) a 0 = fun b => (l.filter fun b => b ≠ a).count b := by
        funext b
        by_cases hb : b = a
        · subst hb
          rw [Function.update_self]
          exact (List.count_eq_zero.mpr (by simp)).symm
        · rw [Function.update_of_ne hb, List.count_filter (by simpa using hb)]
      rw [← hcount]
      exact hrest
    have hsplit : l.countP p = (if p a then n else 0) + (l.filter fun b => b ≠ a).countP p := by
      rw [List.countP_eq_countP_filter_add l p (· = a), List.filter_eq, List.countP_replicate, hn]
      simp
    rw [hsplit, ← ih hwithout, List.filter_cons]
    split <;> simp

end Tallies

end

end Foton
