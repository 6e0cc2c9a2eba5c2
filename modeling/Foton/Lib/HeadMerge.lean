import Mathlib.Data.List.MinMax
import Mathlib.Data.Prod.Lex

/-!
# Merging queues by their heads

Several queues become one sequence. Only ready heads compete; the source that was
used last is preferred as long as no other head is strictly earlier than its own.
-/

namespace Foton

structure HeadMerge (ι τ κ ρ : Type*) where
  sources : List ι
  ready : τ → Bool
  order : τ → κ
  rank : ι → ρ

namespace HeadMerge

variable {ι τ κ ρ : Type*} {m : HeadMerge ι τ κ ρ} {queues : ι → List τ}

section
variable (m)

def readyHead (queues : ι → List τ) (i : ι) : Option τ := (queues i).head?.filter m.ready

/-- The heads that compete, each with its source. -/
def heads (queues : ι → List τ) : List (ι × τ) := m.sources.filterMap fun i => (m.readyHead queues i).map (Prod.mk i)

def key (e : ι × τ) : κ ×ₗ ρ := toLex (m.order e.2, m.rank e.1)

end

theorem mem_heads {i : ι} {t : τ} : (i, t) ∈ m.heads queues ↔ i ∈ m.sources ∧ m.readyHead queues i = some t := by
  unfold heads
  rw [List.mem_filterMap]
  constructor
  · rintro ⟨j, hj, hhead⟩
    obtain ⟨u, hu, heq⟩ := Option.map_eq_some_iff.mp hhead
    cases heq
    exact ⟨hj, hu⟩
  · intro h
    exact ⟨i, h.1, by rw [h.2, Option.map_some]⟩

section
variable [DecidableEq ι]

theorem readyHead_update_other {i j : ι} (queue : List τ) (h : j ≠ i) :
    m.readyHead (Function.update queues i queue) j = m.readyHead queues j := by
  rw [readyHead, Function.update_of_ne h, readyHead]

/-- Another source does not notice that `i` is used. -/
theorem mem_heads_update {i j : ι} {t : τ} (queue : List τ) (h : j ≠ i) :
    (j, t) ∈ m.heads (Function.update queues i queue) ↔ (j, t) ∈ m.heads queues := by
  rw [mem_heads, mem_heads, readyHead_update_other queue h]

end

section
variable [LinearOrder κ]

variable (m) in
/-- The head of `last`, unless another head is earlier. -/
def stay (queues : ι → List τ) (last : Option ι) : Option (ι × τ) :=
  last.bind fun i => ((m.readyHead queues i).map (Prod.mk i)).filter fun e =>
    ∀ e' ∈ m.heads queues, m.order e.2 ≤ m.order e'.2

theorem stay_eq_some {i : ι} {t : τ} (hhead : m.readyHead queues i = some t)
    (h : ∀ e ∈ m.heads queues, m.order t ≤ m.order e.2) : m.stay queues (some i) = some (i, t) := by
  rw [stay, Option.bind_some, hhead, Option.map_some, Option.filter_some, if_pos]
  rw [decide_eq_true_iff]
  exact h

theorem stay_eq_none_of_earlier {i : ι} {t : τ} (hhead : m.readyHead queues i = some t) {e : ι × τ}
    (he : e ∈ m.heads queues) (h : m.order e.2 < m.order t) : m.stay queues (some i) = none := by
  rw [stay, Option.bind_some, hhead, Option.map_some, Option.filter_some, if_neg]
  rw [decide_eq_true_iff]
  exact fun hall => absurd (hall e he) (not_le_of_gt h)

theorem stay_eq_none_of_head {i : ι} (hhead : m.readyHead queues i = none) : m.stay queues (some i) = none := by
  rw [stay, Option.bind_some, hhead]
  rfl

end

/-! ## A snapshot of the competitors -/

section
variable [LinearOrder κ]

variable (m) in
/-- `competitor` is the order of the earliest head among the sources other than `i`. -/
structure Competes (i : ι) (competitor : Option κ) (queues : ι → List τ) : Prop where
  bound : ∀ e ∈ m.heads queues, e.1 ≠ i → ∃ k, competitor = some k ∧ k ≤ m.order e.2
  reached : ∀ k, competitor = some k → ∃ e ∈ m.heads queues, e.1 ≠ i ∧ m.order e.2 = k

namespace Competes

variable {i : ι} {competitor : Option κ}

/-- The snapshot stays right while only `i` is used. -/
theorem update [DecidableEq ι] (h : m.Competes i competitor queues) (queue : List τ) :
    m.Competes i competitor (Function.update queues i queue) where
  bound e he hne := h.bound e ((mem_heads_update queue hne).mp he) hne
  reached k hk := by
    obtain ⟨e, he, hne, horder⟩ := h.reached k hk
    exact ⟨e, (mem_heads_update queue hne).mpr he, hne, horder⟩

theorem le_heads (h : m.Competes i competitor queues) {t : τ} (hhead : m.readyHead queues i = some t)
    (hnone : ¬ (competitor.any fun k => k < m.order t) = true) : ∀ e ∈ m.heads queues, m.order t ≤ m.order e.2 := by
  intro e he
  by_cases hi : e.1 = i
  · subst hi
    have hsome := (mem_heads.mp he).2
    rw [hhead, Option.some.injEq] at hsome
    rw [hsome]
  · obtain ⟨k, hk, hle⟩ := h.bound e he hi
    rw [hk, Option.any_some, decide_eq_true_iff, not_lt] at hnone
    exact le_trans hnone hle

theorem stay_none (h : m.Competes i competitor queues) {t : τ} (hhead : m.readyHead queues i = some t)
    (hearlier : (competitor.any fun k => k < m.order t) = true) : m.stay queues (some i) = none := by
  cases hk : competitor with
  | none =>
    rw [hk] at hearlier
    cases hearlier
  | some k =>
    rw [hk, Option.any_some, decide_eq_true_iff] at hearlier
    obtain ⟨e, he, -, horder⟩ := h.reached k hk
    exact stay_eq_none_of_earlier hhead he (by rw [horder]; exact hearlier)

end Competes

end

/-! ## The merged sequence -/

variable [LinearOrder κ] [LinearOrder ρ]

variable (m) in
def switch (queues : ι → List τ) : Option (ι × τ) := (m.heads queues).argmin m.key

variable (m) in
def next (queues : ι → List τ) (last : Option ι) : Option (ι × τ) := (m.stay queues last).or (m.switch queues)

theorem switch_eq_some {e : ι × τ} (he : e ∈ m.heads queues) (hleast : ∀ e' ∈ m.heads queues, m.key e ≤ m.key e')
    (hunique : ∀ e' ∈ m.heads queues, m.key e' = m.key e → e' = e) : m.switch queues = some e := by
  unfold switch
  cases hargmin : (m.heads queues).argmin m.key with
  | none =>
    rw [List.argmin_eq_none.mp hargmin] at he
    cases he
  | some e' =>
    have hmem : e' ∈ m.heads queues := List.argmin_mem hargmin
    have hle : m.key e' ≤ m.key e := List.le_of_mem_argmin he hargmin
    rw [hunique e' hmem (le_antisymm hle (hleast e' hmem))]

variable [DecidableEq ι]

variable (m) in
/-- The first `room` elements of the merged sequence. -/
def run : Nat → Option ι → (ι → List τ) → List (ι × τ)
  | 0, _, _ => []
  | room + 1, last, queues =>
    match m.next queues last with
    | none => []
    | some e => e :: run room (some e.1) (Function.update queues e.1 (queues e.1).tail)

theorem run_stay {i : ι} {t : τ} (room : Nat) (hhead : m.readyHead queues i = some t)
    (h : ∀ e ∈ m.heads queues, m.order t ≤ m.order e.2) :
    m.run (room + 1) (some i) queues = (i, t) :: m.run room (some i) (Function.update queues i (queues i).tail) := by
  rw [run, next, stay_eq_some hhead h]
  rfl

theorem run_switch {last : Option ι} {e : ι × τ} (room : Nat) (hstay : m.stay queues last = none)
    (hswitch : m.switch queues = some e) :
    m.run (room + 1) last queues = e :: m.run room (some e.1) (Function.update queues e.1 (queues e.1).tail) := by
  rw [run, next, hstay, hswitch]
  rfl

theorem run_done {last : Option ι} (room : Nat) (hstay : m.stay queues last = none) (hheads : m.heads queues = []) :
    m.run room last queues = [] := by
  cases room with
  | zero => rfl
  | succ room =>
    rw [run, next, hstay, switch, hheads]
    rfl

end HeadMerge

end Foton
