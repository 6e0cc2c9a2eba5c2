import Mathlib.Data.List.Basic
import Mathlib.Data.List.Perm.Basic

/-!
# Depth-first traversals

A request is worked off in unit steps. What a step asks for is worked off before
the next step of the interrupted request, in the order in which it was asked for.
-/

namespace Foton

/-- A unit step changes the world, asks for further requests on its way, and ends. -/
inductive Reaction (W R : Type) where
  | finish (world : W)
  | panic (world : W)
  | enqueue (world : W) (request : R) (resume : W → Reaction W R)

inductive Ending (α : Type) where
  | done (a : α)
  | panicked (a : α)

def Ending.value {α : Type} : Ending α → α
  | .done a => a
  | .panicked a => a

structure Traversal (W R S : Type) where
  steps : R → List S
  perform : S → W → Reaction W R
  /-- How many requests of a run are admitted. -/
  limit : Option Nat

structure Progress (W R S : Type) where
  world : W
  executed : List S
  enqueued : List R
  visited : List R

namespace Traversal

variable {W R S : Type} (t : Traversal W R S)

def admits (p : Progress W R S) : Bool := t.limit.all fun n => p.enqueued.length < n

/-- The requests that were admitted. -/
def admitted (p : Progress W R S) : List R := t.limit.elim p.enqueued fun n => p.enqueued.take n

/-- The first request that was not. -/
def firstSkipped (p : Progress W R S) : Option R := t.limit.bind fun n => p.enqueued[n]?

def react : Reaction W R → Progress W R S → List R × Ending (Progress W R S)
  | .finish world, p => ([], .done { p with world := world })
  | .panic world, p => ([], .panicked { p with world := world })
  | .enqueue world r resume, p =>
    let (children, outcome) := react (resume world) { p with world := world, enqueued := p.enqueued ++ [r] }
    (if t.admits p then r :: children else children, outcome)

def unit (s : S) (p : Progress W R S) : List R × Ending (Progress W R S) :=
  t.react (t.perform s p.world) { p with executed := p.executed ++ [s] }

/-- The requests one after the other, until one panics. -/
def visitAll (visit : R → Progress W R S → Option (Ending (Progress W R S))) :
    List R → Progress W R S → Option (Ending (Progress W R S))
  | [], p => some (.done p)
  | r :: rest, p =>
    match visit r p with
    | some (.done p) => visitAll visit rest p
    | other => other

/-- The steps of one request, each with everything that comes of it. -/
def visitSteps : Nat → List S → Progress W R S → Option (Ending (Progress W R S))
  | _, [], p => some (.done p)
  | 0, _ :: _, _ => none
  | fuel + 1, s :: rest, p =>
    match t.unit s p with
    | (_, .panicked p) => some (.panicked p)
    | (children, .done p) =>
      match visitAll (fun r p => visitSteps fuel (t.steps r) { p with visited := p.visited ++ [r] }) children p with
      | some (.done p) => visitSteps fuel rest p
      | other => other

def visit (fuel : Nat) (r : R) (p : Progress W R S) : Option (Ending (Progress W R S)) :=
  t.visitSteps fuel (t.steps r) { p with visited := p.visited ++ [r] }

/-- A run starts with one request. -/
def run (fuel : Nat) (r : R) (world : W) : Option (Ending (Progress W R S)) :=
  if t.admits ⟨world, [], [], []⟩ then t.visit fuel r ⟨world, [], [r], []⟩ else some (.done ⟨world, [], [r], []⟩)

theorem visitSteps_cons (fuel : Nat) (s : S) (rest : List S) (p : Progress W R S) :
    t.visitSteps (fuel + 1) (s :: rest) p = match t.unit s p with
      | (_, .panicked p) => some (.panicked p)
      | (children, .done p) =>
        match visitAll (t.visit fuel) children p with
        | some (.done p) => t.visitSteps fuel rest p
        | other => other := rfl

/-! ## Bookkeeping -/

variable {t}

theorem admitted_enqueue (p : Progress W R S) (world : W) (r : R) :
    t.admitted { p with world := world, enqueued := p.enqueued ++ [r] } =
      t.admitted p ++ if t.admits p then [r] else [] := by
  unfold admitted admits
  cases t.limit with
  | none => rfl
  | some n =>
    simp only [Option.elim_some, Option.all_some, decide_eq_true_eq]
    by_cases h : p.enqueued.length < n
    · rw [if_pos h, List.take_of_length_le (by rw [List.length_append]; exact h), List.take_of_length_le (Nat.le_of_lt h)]
    · rw [if_neg h, List.append_nil, List.take_append_of_le_length (Nat.le_of_not_lt h)]

theorem firstSkipped_start (world : W) : t.firstSkipped ⟨world, [], [], []⟩ = none := by
  unfold firstSkipped
  cases t.limit with
  | none => rfl
  | some n => exact List.getElem?_nil

/-- A request is the first one skipped when exactly as many as are admitted came before it. -/
theorem firstSkipped_enqueue (p : Progress W R S) (world : W) (r : R) :
    (t.firstSkipped { p with world := world, enqueued := p.enqueued ++ [r] }).toList =
      (t.firstSkipped p).toList ++ if t.limit = some p.enqueued.length then [r] else [] := by
  unfold firstSkipped
  cases t.limit with
  | none => rfl
  | some n =>
    simp only [Option.bind_some, Option.some.injEq]
    rcases Nat.lt_trichotomy n p.enqueued.length with h | h | h
    · rw [List.getElem?_append_left h, if_neg (Nat.ne_of_lt h), List.append_nil]
    · subst h
      rw [List.getElem?_concat_length, List.getElem?_eq_none (Nat.le_refl _), if_pos rfl]
      rfl
    · rw [List.getElem?_eq_none (Nat.le_of_lt h), List.getElem?_eq_none (by rw [List.length_append]; exact h),
        if_neg (Nat.ne_of_gt h)]
      rfl

theorem react_spec (x : Reaction W R) (p : Progress W R S) :
    p.enqueued <+: (t.react x p).2.value.enqueued ∧ (t.react x p).2.value.visited = p.visited ∧
      t.admitted (t.react x p).2.value = t.admitted p ++ (t.react x p).1 := by
  induction x generalizing p with
  | finish world => exact ⟨List.prefix_rfl, rfl, (List.append_nil _).symm⟩
  | panic world => exact ⟨List.prefix_rfl, rfl, (List.append_nil _).symm⟩
  | enqueue world r resume ih =>
    obtain ⟨hgrows, hvisited, hadmitted⟩ := ih world { p with world := world, enqueued := p.enqueued ++ [r] }
    refine ⟨(List.prefix_append _ _).trans hgrows, hvisited, ?_⟩
    unfold react
    dsimp only
    rw [hadmitted, admitted_enqueue, List.append_assoc]
    split
    · rfl
    · rfl

theorem unit_spec (s : S) (p : Progress W R S) :
    p.enqueued <+: (t.unit s p).2.value.enqueued ∧ (t.unit s p).2.value.visited = p.visited ∧
      t.admitted (t.unit s p).2.value = t.admitted p ++ (t.unit s p).1 :=
  react_spec (t.perform s p.world) { p with executed := p.executed ++ [s] }

/-- No request is forgotten, and what is admitted is visited unless there is a panic. -/
structure Accounts (t : Traversal W R S) (p : Progress W R S) (todo : List R) (outcome : Ending (Progress W R S)) : Prop where
  grows : p.enqueued <+: outcome.value.enqueued
  balanced : ∀ p', outcome = .done p' → ∀ pending, (p.visited ++ (todo ++ pending)).Perm (t.admitted p) →
    (p'.visited ++ pending).Perm (t.admitted p')

theorem Accounts.nothing (p : Progress W R S) : t.Accounts p [] (.done p) :=
  ⟨List.prefix_rfl, fun p' h pending hperm => by cases h; exact hperm⟩

theorem Accounts.visit {r : R} {p : Progress W R S} {outcome : Ending (Progress W R S)}
    (h : t.Accounts { p with visited := p.visited ++ [r] } [] outcome) : t.Accounts p [r] outcome := by
  refine ⟨h.grows, fun p' hp' pending hperm => h.balanced p' hp' pending ?_⟩
  rw [List.nil_append, List.append_assoc]
  exact hperm

theorem visitAll_accounts {visit : R → Progress W R S → Option (Ending (Progress W R S))}
    (hvisit : ∀ r p outcome, visit r p = some outcome → t.Accounts p [r] outcome) (requests : List R)
    (p : Progress W R S) {outcome : Ending (Progress W R S)} (h : visitAll visit requests p = some outcome) :
    t.Accounts p requests outcome := by
  induction requests generalizing p with
  | nil =>
    cases h
    exact .nothing p
  | cons r rest ih =>
    unfold visitAll at h
    split at h
    · rename_i p₁ hfirst
      obtain ⟨hgrows₁, hbalanced₁⟩ := hvisit r p _ hfirst
      obtain ⟨hgrows, hbalanced⟩ := ih p₁ h
      refine ⟨hgrows₁.trans hgrows, fun p' hp' pending hperm => ?_⟩
      exact hbalanced p' hp' pending (hbalanced₁ p₁ rfl (rest ++ pending) hperm)
    · rename_i hstop
      obtain ⟨hgrows, -⟩ := hvisit r p _ h
      refine ⟨hgrows, fun p' hp' => ?_⟩
      subst hp'
      exact absurd h (hstop p')

theorem visitSteps_accounts (fuel : Nat) (steps : List S) (p : Progress W R S) {outcome : Ending (Progress W R S)}
    (h : t.visitSteps fuel steps p = some outcome) : t.Accounts p [] outcome := by
  induction fuel generalizing steps p outcome with
  | zero =>
    cases steps with
    | nil =>
      cases h
      exact .nothing p
    | cons s rest => cases h
  | succ fuel ih =>
    cases steps with
    | nil =>
      cases h
      exact .nothing p
    | cons s rest =>
      have hvisit : ∀ r p outcome, t.visit fuel r p = some outcome → t.Accounts p [r] outcome := by
        intro r p outcome hr
        exact (ih _ _ hr).visit
      obtain ⟨hunit, hvisited, hadmitted⟩ := unit_spec (t := t) s p
      rw [visitSteps_cons] at h
      revert hunit hvisited hadmitted h
      obtain ⟨children, first⟩ := t.unit s p
      intro h hunit hvisited hadmitted
      cases first with
      | panicked p₁ =>
        cases h
        exact ⟨hunit, fun p' hp' => by cases hp'⟩
      | done p₁ =>
        dsimp only [Ending.value] at h hunit hvisited hadmitted
        -- The children are owed from here on.
        have howed : ∀ pending, (p.visited ++ ([] ++ pending)).Perm (t.admitted p) →
            (p₁.visited ++ (children ++ pending)).Perm (t.admitted p₁) := by
          intro pending hperm
          have hswap : (p.visited ++ (children ++ pending)).Perm (p.visited ++ (pending ++ children)) :=
            List.perm_append_comm.append_left _
          have happend := hperm.append_right children
          rw [List.nil_append, List.append_assoc] at happend
          rw [hvisited, hadmitted]
          exact hswap.trans happend
        split at h
        · rename_i p₂ hall
          obtain ⟨hgrows₂, hbalanced₂⟩ := visitAll_accounts hvisit children p₁ hall
          obtain ⟨hgrows, hbalanced⟩ := ih rest p₂ h
          refine ⟨(hunit.trans hgrows₂).trans hgrows, fun p' hp' pending hperm => ?_⟩
          exact hbalanced p' hp' pending (hbalanced₂ p₂ rfl pending (howed pending hperm))
        · rename_i hstop
          obtain ⟨hgrows, -⟩ := visitAll_accounts hvisit children p₁ h
          refine ⟨hunit.trans hgrows, fun p' hp' => ?_⟩
          subst hp'
          exact absurd h (hstop p')

theorem visit_accounts {fuel : Nat} {r : R} {p : Progress W R S} {outcome : Ending (Progress W R S)}
    (h : t.visit fuel r p = some outcome) : t.Accounts p [r] outcome := (visitSteps_accounts fuel _ _ h).visit

theorem run_visits {fuel : Nat} {r : R} {world : W} {p : Progress W R S} (h : t.run fuel r world = some (.done p)) :
    p.visited.Perm (t.admitted p) := by
  have hstart := admitted_enqueue (t := t) ⟨world, [], [], []⟩ world r
  have hempty : t.admitted (⟨world, [], [], []⟩ : Progress W R S) = [] := by
    unfold admitted
    cases t.limit with
    | none => rfl
    | some n => exact List.take_nil
  rw [hempty] at hstart
  unfold run at h
  by_cases hadmits : t.admits ⟨world, [], [], []⟩ = true
  · rw [if_pos hadmits] at h hstart
    have hperm := (visit_accounts h).balanced p rfl [] (hstart ▸ .rfl)
    rw [List.append_nil] at hperm
    exact hperm
  · rw [if_neg hadmits] at h hstart
    cases h
    exact hstart ▸ .rfl

end Traversal

end Foton
