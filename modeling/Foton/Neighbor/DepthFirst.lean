import Foton.Neighbor.Updater

/-!
# Neighbor updates run depth first

The stack and its buffer are the requests that the recursive traversal still has to
visit. The counter is the number of requests of the run.
-/

namespace Foton

def NeighborRequest.unitSteps : NeighborRequest → List UnitStep
  | shapeUpdate update => [.shape update]
  | neighborChanged pos sourceBlock => [.neighbor pos sourceBlock]
  | neighborChangedWithState state pos sourceBlock movedByPiston => [.full state pos sourceBlock movedByPiston]
  | updateNeighborsAtExceptFromFacing pos sourceBlock skipDirection =>
    (updateOrder.filter fun d => skipDirection ≠ some d).map fun d => .neighbor (pos.relative d) sourceBlock

def NeighborWorld.perform {W : Type} (env : NeighborWorld W) : UnitStep → W → Reaction W NeighborRequest
  | .full state pos sourceBlock movedByPiston => env.executeNeighborUpdate state pos sourceBlock movedByPiston
  | .neighbor pos sourceBlock => fun w => env.executeNeighborUpdate (env.getBlockState w pos) pos sourceBlock false w
  | .shape update => env.executeNeighborShapeUpdate update.direction update.pos update.neighborPos update.neighborState
      update.flags update.updateLimit

/-- The recursive order. A negative limit admits every request. -/
def neighborTraversal {W : Type} (env : NeighborWorld W) (maxChainedNeighborUpdates : Int32) :
    Traversal W NeighborRequest UnitStep where
  steps := NeighborRequest.unitSteps
  perform := env.perform
  limit := if 0 ≤ maxChainedNeighborUpdates then some maxChainedNeighborUpdates.toInt.toNat else none

/-! ## The steps that are left of an update -/

namespace NeighborUpdate

def remaining : NeighborUpdate → List UnitStep
  | full state pos sourceBlock movedByPiston => [.full state pos sourceBlock movedByPiston]
  | multi sourcePos sourceBlock skipDirection index =>
    ((updateOrder.drop index).filter fun d => skipDirection ≠ some d).map fun d => .neighbor (sourcePos.relative d) sourceBlock
  | shape update => [.shape update]
  | simple pos sourceBlock => [.neighbor pos sourceBlock]

/-- A multi update points at a direction that it does not skip. -/
def Ready : NeighborUpdate → Prop
  | multi _ _ skipDirection index => ∃ d, updateOrder[index]? = some d ∧ skipDirection ≠ some d
  | _ => True

end NeighborUpdate

theorem mem_updateOrder (d : Direction) : d ∈ updateOrder := by cases d <;> decide

theorem mem_skipDirections (skipDirection : Option Direction) : skipDirection ∈ none :: updateOrder.map some := by
  cases skipDirection with
  | none => exact List.mem_cons_self
  | some d => exact List.mem_cons_of_mem _ (List.mem_map_of_mem (mem_updateOrder d))

/-- Where `run_next` leaves the index. -/
def advance (skipDirection : Option Direction) (index : Nat) : Nat :=
  if index + 1 < updateOrder.length ∧ updateOrder[index + 1]? = skipDirection then index + 1 + 1 else index + 1

theorem advance_spec {skipDirection : Option Direction} {index : Nat} {d : Direction} (hd : updateOrder[index]? = some d)
    (hskip : skipDirection ≠ some d) :
    (updateOrder.drop index).filter (fun d => skipDirection ≠ some d) =
        d :: (updateOrder.drop (advance skipDirection index)).filter (fun d => skipDirection ≠ some d) ∧
      (advance skipDirection index < updateOrder.length →
        ∃ e, updateOrder[advance skipDirection index]? = some e ∧ skipDirection ≠ some e) := by
  have hlt : index < 6 := by
    by_contra h
    rw [List.getElem?_eq_none (Nat.le_of_not_lt h)] at hd
    cases hd
  have hall : ∀ index ∈ List.range 6, ∀ skip ∈ none :: updateOrder.map some, ∀ d ∈ updateOrder, updateOrder[index]? = some d →
      skip ≠ some d → (updateOrder.drop index).filter (fun d => skip ≠ some d) =
          d :: (updateOrder.drop (advance skip index)).filter (fun d => skip ≠ some d) ∧
        (advance skip index < updateOrder.length → ∃ e ∈ updateOrder, updateOrder[advance skip index]? = some e ∧
          skip ≠ some e) := by
    decide +kernel
  obtain ⟨hfilter, hready⟩ := hall index (List.mem_range.mpr hlt) skipDirection (mem_skipDirections _) d (mem_updateOrder d) hd hskip
  refine ⟨hfilter, fun hnext => ?_⟩
  obtain ⟨e, -, he⟩ := hready hnext
  exact ⟨e, he⟩

theorem NeighborRequest.update_ready (r : NeighborRequest) : r.update.Ready ∧ r.update.remaining = r.unitSteps := by
  cases r with
  | updateNeighborsAtExceptFromFacing pos sourceBlock skipDirection =>
    have hall : ∀ skip ∈ none :: updateOrder.map some,
        (∃ d ∈ updateOrder, updateOrder[if skip = updateOrder[0]? then 1 else 0]? = some d ∧ skip ≠ some d) ∧
        (updateOrder.drop (if skip = updateOrder[0]? then 1 else 0)).filter (fun d => skip ≠ some d) =
          updateOrder.filter fun d => skip ≠ some d := by
      decide +kernel
    obtain ⟨⟨d, -, hready⟩, hfilter⟩ := hall skipDirection (mem_skipDirections _)
    refine ⟨⟨d, hready⟩, ?_⟩
    unfold NeighborRequest.update NeighborUpdate.remaining NeighborRequest.unitSteps
    dsimp only
    rw [hfilter]
  | _ => exact ⟨trivial, rfl⟩

/-! ## The states of a run -/

namespace UpdaterState

variable {W : Type} {env : NeighborWorld W} {maxChainedNeighborUpdates : Int32}

section
variable (env maxChainedNeighborUpdates)

/-- The updater after the requests of `p`. -/
def during (p : Progress W NeighborRequest UnitStep) (stack added : List NeighborUpdate) : UpdaterState W where
  world := p.world
  state := ⟨stack, added, .ofNat p.enqueued.length⟩
  executed := p.executed
  reported := (neighborTraversal env maxChainedNeighborUpdates).firstSkipped p |>.toList.map NeighborRequest.pos

/-- The idle updater after the run of `p`. -/
def after (p : Progress W NeighborRequest UnitStep) : UpdaterState W :=
  { during env maxChainedNeighborUpdates p [] [] with state := .default }

def ended : Ending (Progress W NeighborRequest UnitStep) → UpdaterOutcome W
  | .done p => .returned (after env maxChainedNeighborUpdates p)
  | .panicked p => .panicked .behavior (after env maxChainedNeighborUpdates p)

end

def idle (world : W) : UpdaterState W := ⟨world, .default, [], []⟩

/-! ## The counter -/

theorem count_pos {n : Nat} (h : n < 2 ^ 31) : (0 : Int32) < .ofNat n ↔ 0 < n := by
  rw [Int32.lt_iff_toInt_lt, Int32.toInt_ofNat_of_lt h]
  exact Int.natCast_pos

theorem limit_le_count {n : Nat} (h : n < 2 ^ 31) : maxChainedNeighborUpdates ≤ .ofNat n ↔ maxChainedNeighborUpdates.toInt ≤ n := by
  rw [Int32.le_iff_toInt_le, Int32.toInt_ofNat_of_lt h]

theorem tooMany_iff {p : Progress W NeighborRequest UnitStep} (h : p.enqueued.length < 2 ^ 31) :
    0 ≤ maxChainedNeighborUpdates ∧ maxChainedNeighborUpdates ≤ .ofNat p.enqueued.length ↔
      (neighborTraversal env maxChainedNeighborUpdates).admits p = false := by
  unfold Traversal.admits neighborTraversal
  dsimp only
  by_cases hmax : 0 ≤ maxChainedNeighborUpdates
  · have hnonneg : 0 ≤ maxChainedNeighborUpdates.toInt := Int32.le_iff_toInt_le.mp hmax
    rw [if_pos hmax, Option.all_some, decide_eq_false_iff_not, limit_le_count h]
    simp only [hmax, true_and]
    omega
  · rw [if_neg hmax]
    exact ⟨fun h => absurd h.1 hmax, fun h => by cases h⟩

theorem atLimit_iff {p : Progress W NeighborRequest UnitStep} (h : p.enqueued.length < 2 ^ 31) :
    (neighborTraversal env maxChainedNeighborUpdates).admits p = false ∧
        Int32.ofNat p.enqueued.length + 1 - 1 = maxChainedNeighborUpdates ↔
      (neighborTraversal env maxChainedNeighborUpdates).limit = some p.enqueued.length := by
  rw [← tooMany_iff h, Int32.add_sub_cancel, ← Int32.toInt_inj, Int32.toInt_ofNat_of_lt h]
  unfold neighborTraversal
  dsimp only
  by_cases hmax : 0 ≤ maxChainedNeighborUpdates
  · have hnonneg : 0 ≤ maxChainedNeighborUpdates.toInt := Int32.le_iff_toInt_le.mp hmax
    rw [if_pos hmax, Option.some.injEq, limit_le_count h]
    simp only [hmax, true_and]
    omega
  · rw [if_neg hmax]
    exact ⟨fun h => absurd h.1.1 hmax, fun h => by cases h⟩

variable (env maxChainedNeighborUpdates) in
/-- A request outside of a run starts one; within a run it waits in the buffer. -/
theorem request_during (run : UpdaterState W → Option (UpdaterOutcome W)) {p : Progress W NeighborRequest UnitStep}
    (h : p.enqueued.length < 2 ^ 31) (world : W) (r : NeighborRequest) (stack added : List NeighborUpdate) :
    let t := neighborTraversal env maxChainedNeighborUpdates
    let p' : Progress W NeighborRequest UnitStep := { p with world := world, enqueued := p.enqueued ++ [r] }
    let next := during env maxChainedNeighborUpdates p'
    request maxChainedNeighborUpdates run r { during env maxChainedNeighborUpdates p stack added with world := world } =
      if 0 < p.enqueued.length then some (.returned (next stack (if t.admits p then r.update :: added else added)))
      else run (next (if t.admits p then r.update :: stack else stack) added) := by
  intro t p' next
  have hreported : (t.firstSkipped p').toList = (t.firstSkipped p).toList ++ if t.limit = some p.enqueued.length then [r] else [] :=
    Traversal.firstSkipped_enqueue p world r
  have hcount : Int32.ofNat p'.enqueued.length = .ofNat p.enqueued.length + 1 := by
    rw [List.length_append, List.length_singleton, Int32.ofNat_add]
    rfl
  have hnext : ∀ stack added, next stack added = ⟨world, ⟨stack, added, .ofNat p.enqueued.length + 1⟩, p.executed,
      if t.limit = some p.enqueued.length then (t.firstSkipped p).toList.map NeighborRequest.pos ++ [r.pos]
      else (t.firstSkipped p).toList.map NeighborRequest.pos⟩ := by
    intro stack added
    have hpositions : (t.firstSkipped p').toList.map NeighborRequest.pos =
        if t.limit = some p.enqueued.length then (t.firstSkipped p).toList.map NeighborRequest.pos ++ [r.pos]
        else (t.firstSkipped p).toList.map NeighborRequest.pos := by
      rw [hreported]
      split <;> simp
    rw [← hcount, ← hpositions]
    rfl
  have htooMany : _ ↔ t.admits p = false := tooMany_iff h
  have hlimit : t.admits p = false ∧ Int32.ofNat p.enqueued.length + 1 - 1 = maxChainedNeighborUpdates ↔
      t.limit = some p.enqueued.length := atLimit_iff h
  unfold request addAndRun
  rw [CollectingState.enqueue_eq]
  dsimp only [during]
  simp only [htooMany, hlimit, count_pos h, hnext, decide_eq_true_eq]
  by_cases hrunning : 0 < p.enqueued.length
  · cases t.admits p <;> simp [hrunning, t]
  · cases t.admits p <;> simp [hrunning, t]

/-! ## One step -/

variable (env maxChainedNeighborUpdates) in
theorem runReaction_during (run : UpdaterState W → Option (UpdaterOutcome W)) (x : Reaction W NeighborRequest)
    {p : Progress W NeighborRequest UnitStep} (hrunning : 0 < p.enqueued.length) (stack added : List NeighborUpdate) :
    let reacted := (neighborTraversal env maxChainedNeighborUpdates).react x p
    let state := fun p' => during env maxChainedNeighborUpdates p' stack ((reacted.1.map NeighborRequest.update).reverse ++ added)
    reacted.2.value.enqueued.length ≤ 2 ^ 31 →
    runReaction (request maxChainedNeighborUpdates run) x (during env maxChainedNeighborUpdates p stack added) =
      some (match reacted.2 with
        | .done p' => .returned (state p')
        | .panicked p' => .panicked .behavior (state p')) := by
  induction x generalizing p added with
  | finish world => exact fun _ => rfl
  | panic world => exact fun _ => rfl
  | enqueue world r resume ih =>
    intro reacted state hbound
    let p₁ : Progress W NeighborRequest UnitStep := { p with world := world, enqueued := p.enqueued ++ [r] }
    have hgrows : p₁.enqueued <+: reacted.2.value.enqueued :=
      (Traversal.react_spec (t := neighborTraversal env maxChainedNeighborUpdates) (resume world) p₁).1
    have hlength : p.enqueued.length + 1 ≤ 2 ^ 31 := by
      have hle := hgrows.length_le
      rw [List.length_append, List.length_singleton] at hle
      exact hle.trans hbound
    have hrunning₁ : 0 < p₁.enqueued.length := by
      rw [List.length_append]
      exact Nat.add_pos_right _ Nat.one_pos
    rw [runReaction, request_during env maxChainedNeighborUpdates run hlength world r stack added, if_pos hrunning]
    refine (ih world hrunning₁ _ hbound).trans ?_
    have hsame : reacted.2 = ((neighborTraversal env maxChainedNeighborUpdates).react (resume world) p₁).2 := rfl
    have hadded : (((neighborTraversal env maxChainedNeighborUpdates).react (resume world) p₁).1.map
          NeighborRequest.update).reverse ++
          (if (neighborTraversal env maxChainedNeighborUpdates).admits p then r.update :: added else added) =
        (reacted.1.map NeighborRequest.update).reverse ++ added := by
      dsimp only [reacted, Traversal.react]
      split
      · rw [List.map_cons, List.reverse_cons, List.append_assoc]
        rfl
      · rfl
    dsimp only [state]
    rw [hadded, hsame]

/-- `run_next` performs the first step that is left. -/
theorem runNext_eq (env : NeighborWorld W) {update : NeighborUpdate} (hready : update.Ready) :
    ∃ s update' unfinished,
      (∀ add u, runNext env add u update = (call add s (env.perform s u.world) u, update', unfinished)) ∧
      (if unfinished = true then update'.Ready ∧ update.remaining = s :: update'.remaining else update.remaining = [s]) := by
  cases update with
  | full state pos sourceBlock movedByPiston => exact ⟨_, _, false, fun _ _ => rfl, rfl⟩
  | shape shape => exact ⟨.shape shape, _, false, fun _ _ => rfl, rfl⟩
  | simple pos sourceBlock => exact ⟨.neighbor pos sourceBlock, _, false, fun _ _ => rfl, rfl⟩
  | multi sourcePos sourceBlock skipDirection index =>
    obtain ⟨d, hd, hskip⟩ := hready
    obtain ⟨hfilter, hnext⟩ := advance_spec hd hskip
    refine ⟨.neighbor (sourcePos.relative d) sourceBlock, .multi sourcePos sourceBlock skipDirection (advance skipDirection index),
      advance skipDirection index < updateOrder.length, ?_, ?_⟩
    · intro add u
      unfold runNext
      dsimp only
      rw [hd]
      rfl
    · have hremaining : (NeighborUpdate.multi sourcePos sourceBlock skipDirection index).remaining =
          .neighbor (sourcePos.relative d) sourceBlock ::
            (NeighborUpdate.multi sourcePos sourceBlock skipDirection (advance skipDirection index)).remaining := by
        unfold NeighborUpdate.remaining
        dsimp only
        rw [hfilter, List.map_cons]
      split
      · rename_i hlt
        exact ⟨hnext (of_decide_eq_true hlt), hremaining⟩
      · rename_i hge
        have hdone : updateOrder.drop (advance skipDirection index) = [] :=
          List.drop_eq_nil_of_le (Nat.le_of_not_lt fun hlt => hge (decide_eq_true hlt))
        rw [hremaining]
        unfold NeighborUpdate.remaining
        dsimp only
        rw [hdone]
        rfl

/-! ## The loop -/

theorem runUpdates_moveAdded (fuel : Nat) (p : Progress W NeighborRequest UnitStep) (stack added : List NeighborUpdate) :
    runUpdates env maxChainedNeighborUpdates fuel (during env maxChainedNeighborUpdates p stack added) =
      runUpdates env maxChainedNeighborUpdates fuel (during env maxChainedNeighborUpdates p (added.reverse ++ stack) []) := by
  cases fuel with
  | zero => rfl
  | succ fuel =>
    unfold runUpdates during CollectingState.takeNext
    dsimp only
    rw [CollectingState.moveAdded_eq, CollectingState.moveAdded_eq]
    rfl

theorem runUpdates_cons (fuel : Nat) (p : Progress W NeighborRequest UnitStep) (update : NeighborUpdate)
    (stack : List NeighborUpdate) :
    runUpdates env maxChainedNeighborUpdates (fuel + 1) (during env maxChainedNeighborUpdates p (update :: stack) []) =
      match runNext env (request maxChainedNeighborUpdates (runUpdates env maxChainedNeighborUpdates fuel))
        (during env maxChainedNeighborUpdates p stack []) update with
      | (some (.returned u), update, unfinished) => runUpdates env maxChainedNeighborUpdates fuel
          (if unfinished then { u with state := u.state.returnUnfinished update } else u)
      | (some (.panicked reason u), _, _) => some (.panicked reason { u with state := u.state.reset })
      | (none, _, _) => none := rfl

/-- What the loop does with the rest of the stack once `outcome` is reached. -/
def resume (env : NeighborWorld W) (maxChainedNeighborUpdates : Int32) (fuel : Nat) (stack : List NeighborUpdate) :
    Ending (Progress W NeighborRequest UnitStep) → Option (UpdaterOutcome W)
  | .done p => runUpdates env maxChainedNeighborUpdates fuel (during env maxChainedNeighborUpdates p stack [])
  | .panicked p => some (ended env maxChainedNeighborUpdates (.panicked p))

/-- The loop works off `stack` as `visit` does. -/
def Follows (env : NeighborWorld W) (maxChainedNeighborUpdates : Int32) (p : Progress W NeighborRequest UnitStep)
    (todo : List NeighborUpdate) (outcome : Ending (Progress W NeighborRequest UnitStep)) : Prop :=
  ∀ stack, ∃ n, ∀ extra,
    runUpdates env maxChainedNeighborUpdates (extra + n) (during env maxChainedNeighborUpdates p (todo ++ stack) []) =
      resume env maxChainedNeighborUpdates extra stack outcome

theorem Follows.nothing (p : Progress W NeighborRequest UnitStep) :
    Follows env maxChainedNeighborUpdates p [] (.done p) := fun _ => ⟨0, fun _ => rfl⟩

theorem Follows.append {p p' : Progress W NeighborRequest UnitStep} {first rest : List NeighborUpdate}
    {outcome : Ending (Progress W NeighborRequest UnitStep)}
    (hfirst : Follows env maxChainedNeighborUpdates p first (.done p'))
    (hrest : Follows env maxChainedNeighborUpdates p' rest outcome) :
    Follows env maxChainedNeighborUpdates p (first ++ rest) outcome := by
  intro stack
  obtain ⟨n, hn⟩ := hfirst (rest ++ stack)
  obtain ⟨m, hm⟩ := hrest stack
  refine ⟨m + n, fun extra => ?_⟩
  rw [← Nat.add_assoc, List.append_assoc, hn]
  exact hm extra

theorem Follows.stop {p p' : Progress W NeighborRequest UnitStep} {first : List NeighborUpdate} (rest : List NeighborUpdate)
    (hfirst : Follows env maxChainedNeighborUpdates p first (.panicked p')) :
    Follows env maxChainedNeighborUpdates p (first ++ rest) (.panicked p') := by
  intro stack
  obtain ⟨n, hn⟩ := hfirst (rest ++ stack)
  refine ⟨n, fun extra => ?_⟩
  rw [List.append_assoc]
  exact hn extra

variable (env maxChainedNeighborUpdates) in
/-- One turn of the loop is one unit step. What it asked for lies above what is left of the update. -/
theorem runUpdates_step {p : Progress W NeighborRequest UnitStep} (hrunning : 0 < p.enqueued.length)
    {update : NeighborUpdate} (hready : update.Ready) :
    let t := neighborTraversal env maxChainedNeighborUpdates
    ∃ s rest left, update.remaining = s :: rest ∧
      (left = [] ∧ rest = [] ∨ ∃ update' : NeighborUpdate, left = [update'] ∧ update'.Ready ∧ update'.remaining = rest) ∧
      ((t.unit s p).2.value.enqueued.length ≤ 2 ^ 31 → ∀ fuel stack,
        runUpdates env maxChainedNeighborUpdates (fuel + 1) (during env maxChainedNeighborUpdates p (update :: stack) []) =
          match t.unit s p with
          | (_, .panicked p') => some (ended env maxChainedNeighborUpdates (.panicked p'))
          | (children, .done p') => runUpdates env maxChainedNeighborUpdates fuel
              (during env maxChainedNeighborUpdates p' (children.map NeighborRequest.update ++ left ++ stack) [])) := by
  intro t
  obtain ⟨s, update', unfinished, hrun, hleft⟩ := runNext_eq env hready
  refine ⟨s, if unfinished then update'.remaining else [], if unfinished then [update'] else [], ?_, ?_, ?_⟩
  · cases unfinished with
    | false => exact hleft
    | true => exact hleft.2
  · cases unfinished with
    | false => exact Or.inl ⟨rfl, rfl⟩
    | true => exact Or.inr ⟨update', rfl, hleft.1, rfl⟩
  · intro hbound fuel stack
    have hreact := runReaction_during env maxChainedNeighborUpdates (runUpdates env maxChainedNeighborUpdates fuel) (t.perform s p.world)
      (p := { p with executed := p.executed ++ [s] }) hrunning stack [] hbound
    have hunit : t.react (t.perform s p.world) { p with executed := p.executed ++ [s] } = t.unit s p := rfl
    dsimp only at hreact
    rw [List.append_nil, hunit] at hreact
    have hcall : call (request maxChainedNeighborUpdates (runUpdates env maxChainedNeighborUpdates fuel)) s
        (env.perform s (during env maxChainedNeighborUpdates p stack []).world)
        (during env maxChainedNeighborUpdates p stack []) = _ := hreact
    rw [runUpdates_cons, hrun, hcall]
    obtain ⟨children, outcome⟩ := t.unit s p
    cases outcome with
    | panicked p' => rfl
    | done p' =>
      dsimp only
      cases unfinished with
      | false =>
        rw [if_neg Bool.false_ne_true, if_neg Bool.false_ne_true, runUpdates_moveAdded, List.reverse_reverse, List.append_nil]
      | true =>
        have hback : { during env maxChainedNeighborUpdates p' stack (children.map NeighborRequest.update).reverse with
            state := (during env maxChainedNeighborUpdates p' stack
              (children.map NeighborRequest.update).reverse).state.returnUnfinished update' } =
            during env maxChainedNeighborUpdates p' (update' :: stack) (children.map NeighborRequest.update).reverse := rfl
        rw [if_pos rfl, if_pos rfl, hback, runUpdates_moveAdded, List.reverse_reverse, List.append_assoc]
        rfl

theorem visitAll_follows {fuel : Nat}
    (hvisit : ∀ r p outcome, (neighborTraversal env maxChainedNeighborUpdates).visit fuel r p = some outcome →
      0 < p.enqueued.length → outcome.value.enqueued.length ≤ 2 ^ 31 →
      Follows env maxChainedNeighborUpdates p [r.update] outcome)
    (requests : List NeighborRequest) {p : Progress W NeighborRequest UnitStep}
    {outcome : Ending (Progress W NeighborRequest UnitStep)} (h : Traversal.visitAll ((neighborTraversal env maxChainedNeighborUpdates).visit fuel) requests p = some outcome)
    (hrunning : 0 < p.enqueued.length) (hbound : outcome.value.enqueued.length ≤ 2 ^ 31) :
    Follows env maxChainedNeighborUpdates p (requests.map NeighborRequest.update) outcome := by
  induction requests generalizing p with
  | nil =>
    cases h
    exact .nothing p
  | cons r rest ih =>
    rw [List.map_cons, ← List.singleton_append]
    unfold Traversal.visitAll at h
    split at h
    · rename_i p₁ hfirst
      have hgrows₁ := (Traversal.visit_accounts hfirst).grows
      have hrunning₁ : 0 < p₁.enqueued.length := lt_of_lt_of_le hrunning hgrows₁.length_le
      have hgrows := (Traversal.visitAll_accounts (fun _ _ _ => Traversal.visit_accounts) rest p₁ h).grows
      have hrest := ih h hrunning₁
      exact (hvisit r p _ hfirst hrunning (hgrows.length_le.trans hbound)).append hrest
    · rename_i hstop
      have hfirst := hvisit r p outcome h hrunning hbound
      cases outcome with
      | done p' => exact absurd h (hstop p')
      | panicked p' => exact hfirst.stop _

/-- The loop and the recursive traversal agree on every update that is started within a run. -/
theorem visitSteps_follows (fuel : Nat) {p : Progress W NeighborRequest UnitStep}
    {outcome : Ending (Progress W NeighborRequest UnitStep)} {update : NeighborUpdate} (hready : update.Ready)
    (h : (neighborTraversal env maxChainedNeighborUpdates).visitSteps fuel update.remaining p = some outcome)
    (hrunning : 0 < p.enqueued.length) (hbound : outcome.value.enqueued.length ≤ 2 ^ 31) :
    Follows env maxChainedNeighborUpdates p [update] outcome := by
  induction fuel generalizing p outcome update with
  | zero =>
    obtain ⟨s, rest, left, hremaining, -⟩ := runUpdates_step env maxChainedNeighborUpdates hrunning hready
    rw [hremaining] at h
    cases h
  | succ fuel ih =>
    have hvisit : ∀ r p outcome, (neighborTraversal env maxChainedNeighborUpdates).visit fuel r p = some outcome →
        0 < p.enqueued.length → outcome.value.enqueued.length ≤ 2 ^ 31 →
        Follows env maxChainedNeighborUpdates p [r.update] outcome := by
      intro r p outcome hr hrunning hbound
      obtain ⟨hready, hsteps⟩ := r.update_ready
      unfold Traversal.visit at hr
      have hsame : (neighborTraversal env maxChainedNeighborUpdates).steps r = r.update.remaining := hsteps.symm
      rw [hsame] at hr
      have hfollows := ih hready hr hrunning hbound
      exact hfollows
    obtain ⟨s, rest, left, hremaining, hleft, hstep⟩ := runUpdates_step env maxChainedNeighborUpdates hrunning hready
    rw [hremaining, Traversal.visitSteps_cons] at h
    have hgrows := (Traversal.unit_spec (t := neighborTraversal env maxChainedNeighborUpdates) s p).1
    revert hgrows hstep h
    obtain ⟨children, first⟩ := (neighborTraversal env maxChainedNeighborUpdates).unit s p
    intro h hstep hgrows
    cases first with
    | panicked p₁ =>
      cases h
      intro stack
      exact ⟨1, fun extra => hstep hbound extra stack⟩
    | done p₁ =>
      dsimp only [Ending.value] at h hstep hgrows
      have hrunning₁ : 0 < p₁.enqueued.length := lt_of_lt_of_le hrunning hgrows.length_le
      have htodo : Follows env maxChainedNeighborUpdates p₁ (children.map NeighborRequest.update ++ left) outcome ∧
          p₁.enqueued <+: outcome.value.enqueued := by
        split at h
        · rename_i p₂ hall
          have hgrows₂ := (Traversal.visitAll_accounts (fun _ _ _ => Traversal.visit_accounts) children p₁ hall).grows
          have hrunning₂ : 0 < p₂.enqueued.length := lt_of_lt_of_le hrunning₁ hgrows₂.length_le
          have hgrows₃ := (Traversal.visitSteps_accounts fuel rest p₂ h).grows
          have hchildren := visitAll_follows hvisit children hall hrunning₁ (hgrows₃.length_le.trans hbound)
          refine ⟨hchildren.append ?_, hgrows₂.trans hgrows₃⟩
          rcases hleft with ⟨rfl, rfl⟩ | ⟨update', rfl, hready', rfl⟩
          · cases fuel with
            | zero => cases h; exact .nothing p₂
            | succ fuel => cases h; exact .nothing p₂
          · exact ih hready' h hrunning₂ hbound
        · rename_i hstop
          have hall := visitAll_follows hvisit children h hrunning₁ hbound
          refine ⟨?_, (Traversal.visitAll_accounts (fun _ _ _ => Traversal.visit_accounts) children p₁ h).grows⟩
          cases outcome with
          | done p' => exact absurd h (hstop p')
          | panicked p' => exact hall.stop _
      intro stack
      obtain ⟨n, hn⟩ := htodo.1 stack
      refine ⟨n + 1, fun extra => ?_⟩
      rw [← hn extra]
      exact hstep (htodo.2.length_le.trans hbound) (extra + n) stack

theorem runUpdates_empty (fuel : Nat) (p : Progress W NeighborRequest UnitStep) :
    runUpdates env maxChainedNeighborUpdates (fuel + 1) (during env maxChainedNeighborUpdates p [] []) =
      some (ended env maxChainedNeighborUpdates (.done p)) := rfl

theorem resume_empty (fuel : Nat) (outcome : Ending (Progress W NeighborRequest UnitStep)) :
    resume env maxChainedNeighborUpdates (fuel + 1) [] outcome = some (ended env maxChainedNeighborUpdates outcome) := by
  cases outcome with
  | done p => exact runUpdates_empty fuel p
  | panicked p => rfl

variable (env maxChainedNeighborUpdates) in
theorem request_idle (run : UpdaterState W → Option (UpdaterOutcome W)) (r : NeighborRequest) (world : W) :
    request maxChainedNeighborUpdates run r (.idle world) =
      run (during env maxChainedNeighborUpdates ⟨world, [], [r], []⟩
        (if (neighborTraversal env maxChainedNeighborUpdates).admits ⟨world, [], [], []⟩ then [r.update] else []) []) := by
  let start : Progress W NeighborRequest UnitStep := ⟨world, [], [], []⟩
  have hidle : idle world = during env maxChainedNeighborUpdates start [] [] := by
    unfold idle during
    rw [Traversal.firstSkipped_start]
    rfl
  have hfirst := request_during env maxChainedNeighborUpdates run
    (p := start) (Nat.two_pow_pos 31) world r [] []
  have hnone : ¬ 0 < start.enqueued.length := Nat.lt_irrefl 0
  dsimp only at hfirst
  rw [if_neg hnone] at hfirst
  rw [hidle]
  exact hfirst

end UpdaterState

/-- **Neighbor updates are a depth-first traversal.** From the idle updater a request leads to the calls, the
report and the world of the recursive traversal, and the updater is idle afterwards. -/
theorem neighborUpdates_depthFirst {W : Type} (env : NeighborWorld W) (maxChainedNeighborUpdates : Int32)
    (r : NeighborRequest) (world : W) (depth : Nat) {outcome : Ending (Progress W NeighborRequest UnitStep)}
    (htree : (neighborTraversal env maxChainedNeighborUpdates).run depth r world = some outcome)
    (henqueues : outcome.value.enqueued.length ≤ 2 ^ 31) :
    (∃ n, ∀ fuel ≥ n, UpdaterState.request maxChainedNeighborUpdates
        (UpdaterState.runUpdates env maxChainedNeighborUpdates fuel) r (.idle world) =
      some (UpdaterState.ended env maxChainedNeighborUpdates outcome)) ∧
    ∀ p, outcome = .done p → p.visited.Perm ((neighborTraversal env maxChainedNeighborUpdates).admitted p) := by
  refine ⟨?_, fun p hp => Traversal.run_visits (by rw [← hp]; exact htree)⟩
  unfold Traversal.run at htree
  by_cases hadmits : (neighborTraversal env maxChainedNeighborUpdates).admits ⟨world, [], [], []⟩ = true
  · rw [if_pos hadmits] at htree
    obtain ⟨hready, hsteps⟩ := r.update_ready
    have hsame : (neighborTraversal env maxChainedNeighborUpdates).steps r = r.update.remaining := hsteps.symm
    unfold Traversal.visit at htree
    rw [hsame] at htree
    obtain ⟨n, hn⟩ := UpdaterState.visitSteps_follows depth hready htree Nat.one_pos henqueues []
    refine ⟨n + 1, fun fuel hfuel => ?_⟩
    obtain ⟨extra, rfl⟩ := Nat.exists_eq_add_of_le hfuel
    rw [UpdaterState.request_idle env, if_pos hadmits, ← UpdaterState.resume_empty extra outcome, ← hn]
    rw [Nat.add_comm n 1, Nat.add_right_comm, Nat.add_comm 1 extra]
    rfl
  · rw [if_neg hadmits] at htree
    cases htree
    refine ⟨1, fun fuel hfuel => ?_⟩
    obtain ⟨extra, rfl⟩ := Nat.exists_eq_add_of_le hfuel
    rw [UpdaterState.request_idle env, if_neg hadmits, Nat.add_comm]
    exact UpdaterState.runUpdates_empty extra _

/-- The block to the west asks for two updates, and the first of these for a third. -/
def nestedUpdates : NeighborWorld Unit where
  getBlockState _ _ := ⟨0⟩
  executeNeighborUpdate _ pos sourceBlock _ _ :=
    if pos = ⟨-1, 0, 0⟩ then
      .enqueue () (.neighborChanged ⟨0, 1, 0⟩ sourceBlock) fun _ =>
        .enqueue () (.neighborChanged ⟨0, 2, 0⟩ sourceBlock) fun _ => .finish ()
    else if pos = ⟨0, 1, 0⟩ then .enqueue () (.neighborChanged ⟨0, 3, 0⟩ sourceBlock) fun _ => .finish ()
    else .finish ()
  executeNeighborShapeUpdate _ _ _ _ _ _ _ := .finish ()

theorem nested_updates_interrupt : ∃ n, ∀ fuel ≥ n, ∃ u, UpdaterState.request 1000000
      (UpdaterState.runUpdates nestedUpdates 1000000 fuel)
      (.updateNeighborsAtExceptFromFacing ⟨0, 0, 0⟩ ⟨0⟩ (some .up)) (.idle ()) = some (.returned u) ∧
    u.executed = [.neighbor ⟨-1, 0, 0⟩ ⟨0⟩, .neighbor ⟨0, 1, 0⟩ ⟨0⟩, .neighbor ⟨0, 3, 0⟩ ⟨0⟩, .neighbor ⟨0, 2, 0⟩ ⟨0⟩,
      .neighbor ⟨1, 0, 0⟩ ⟨0⟩, .neighbor ⟨0, -1, 0⟩ ⟨0⟩, .neighbor ⟨0, 0, -1⟩ ⟨0⟩, .neighbor ⟨0, 0, 1⟩ ⟨0⟩] ∧
    u.state = .default := by
  obtain ⟨⟨n, hn⟩, -⟩ := neighborUpdates_depthFirst nestedUpdates 1000000
    (.updateNeighborsAtExceptFromFacing ⟨0, 0, 0⟩ ⟨0⟩ (some .up)) () 8 rfl (by decide)
  exact ⟨n, fun fuel hfuel => ⟨_, hn fuel hfuel, rfl, rfl⟩⟩

end Foton
