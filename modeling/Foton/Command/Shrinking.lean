import Foton.Command.Builtin
import Mathlib.Data.Prod.Lex
import Mathlib.Algebra.BigOperators.Group.List.Basic
import Mathlib.Algebra.Order.BigOperators.Group.List
import Mathlib.Algebra.Order.Ring.Nat

/-!
# What an action queues is smaller

An action is measured by the stages of its chain, and then by the sources or
lines it still has to take up. Only a function call, which is paid for, queues
something larger.
-/

namespace Foton

variable {T : CommandTypes} {U : Type}

/-- A call that queues neither a chain nor an isolated task. -/
def ControlCall.IsLeaf : ControlCall T → Prop
  | .queueContexts .. | .queueDeferredContexts .. | .queueIsolated .. => False
  | _ => True

/-- A call that queues only chains of fewer stages, and tasks that queue no chains. -/
def ControlCall.Within (stages : Nat) : ControlCall T → Prop
  | .queueContexts chain .. => chain.modify.length < stages
  | .queueDeferredContexts chain .. => chain.modify.length < stages
  | .queueIsolated _ task => ∀ world, ∀ call ∈ (task world).1, call.IsLeaf
  | _ => True

/-- Custom parts hand on only what is left of their chain. -/
structure CommandRuntime.Advances (R : CommandRuntime T) : Prop where
  apply : ∀ modifier originalSource sources stage rest executor modifiers consumer world,
    ∀ call ∈ (R.apply modifier originalSource sources ⟨stage :: rest, executor⟩ modifiers consumer world).1,
      call.Within (rest.length + 1)
  run : ∀ executor source chain modifiers consumer world,
    ∀ call ∈ (R.run executor source chain modifiers consumer world).1, call.IsLeaf

namespace EntryAction

def Tame : EntryAction T → Prop
  | .isolatedCall task _ => ∀ world, ∀ call ∈ (task world).1, call.IsLeaf
  | _ => True

def stages : EntryAction T → Nat
  | .buildContexts chain .. => chain.modify.length + 2
  | .deferredBuildContexts chain .. => chain.modify.length + 2
  | .boundEntry entry _ => entry.modify.length + 2
  | .functionEntryContinuation entries .. => (entries.map fun entry => entry.modify.length).sum + 3
  | .executeContinuation .. => 1
  | .isolatedCall .. => 1
  | _ => 0

def left : EntryAction T → Nat
  | .functionEntryContinuation entries _ index => entries.length - index
  | .executeContinuation _ sources _ => sources.length
  | _ => 0

end EntryAction

/-- Everything a list of requests queues is tame and has fewer stages than the bound. -/
def QueuesBelow (stages : Nat) (ops : List (QueueOp T)) : Prop :=
  ∀ action, QueueOp.queueNext action ∈ ops → action.Tame ∧ action.stages < stages

theorem QueuesBelow.nil (stages : Nat) : QueuesBelow stages ([] : List (QueueOp T)) := fun _ h => absurd h List.not_mem_nil

theorem QueuesBelow.single {stages : Nat} {action : EntryAction T} (htame : action.Tame) (h : action.stages < stages) :
    QueuesBelow stages [.queueNext action] := by
  intro action' hmem
  cases List.mem_singleton.mp hmem
  exact ⟨htame, h⟩

theorem QueuesBelow.append {stages : Nat} {ops ops' : List (QueueOp T)} (h : QueuesBelow stages ops) (h' : QueuesBelow stages ops') :
    QueuesBelow stages (ops ++ ops') := by
  intro action hmem
  exact (List.mem_append.mp hmem).elim (h action) (h' action)

theorem QueuesBelow.mono {stages stages' : Nat} {ops : List (QueueOp T)} (h : QueuesBelow stages ops) (hle : stages ≤ stages') :
    QueuesBelow stages' ops :=
  fun action hmem => ⟨(h action hmem).1, (h action hmem).2.trans_le hle⟩

variable {R : CommandRuntime T} {consumer : CommandResultCallback T}

/-! ## Custom parts -/

theorem ControlCall.IsLeaf.queuesBelow {call : ControlCall T} (h : call.IsLeaf) (o : Observed T) :
    QueuesBelow 1 (controlCall R consumer o call).1 := by
  cases call with
  | queueContexts | queueDeferredContexts | queueIsolated => exact h.elim
  | queueFunctionCall | queueCallback | queueFallthrough => exact .single trivial Nat.one_pos
  | onResult | handleError => exact .nil 1
  | returnSuccess | returnFailure | discardFrame => simp [QueuesBelow, controlCall]

theorem ControlCall.Within.queuesBelow {stages : Nat} {call : ControlCall T} (h : call.Within stages) (o : Observed T) :
    QueuesBelow (stages + 2) (controlCall R consumer o call).1 := by
  cases call with
  | queueContexts | queueDeferredContexts => exact .single trivial (Nat.add_lt_add_right h 2)
  | queueIsolated output task => exact .single h (Nat.lt_add_left stages Nat.one_lt_two)
  | queueFunctionCall | queueCallback | queueFallthrough => exact .single trivial (Nat.succ_pos _)
  | onResult | handleError => exact .nil _
  | returnSuccess | returnFailure | discardFrame => simp [QueuesBelow, controlCall]

theorem control_queuesBelow {stages : Nat} {calls : List (ControlCall T)}
    (h : ∀ call ∈ calls, ∀ o, QueuesBelow stages (controlCall R consumer o call).1) (o : Observed T) :
    QueuesBelow stages (control R consumer calls o).1 := by
  induction calls generalizing o with
  | nil => exact .nil stages
  | cons call rest ih =>
    rw [List.forall_mem_cons] at h
    exact (h.1 o).append (ih h.2 _)

theorem runCustom_queuesBelow (hR : R.Advances) (executor : T.CustomExecutor) (modifiers : ChainModifiers) (sources : List T.Source)
    (o : Observed T) : QueuesBelow 1 (runCustom R consumer executor modifiers sources o).1 := by
  induction sources generalizing o with
  | nil => exact .nil 1
  | cons source rest ih =>
    refine QueuesBelow.append (control_queuesBelow (fun call hcall o => ?_) _) (ih _)
    exact (hR.run _ _ _ _ _ _ call hcall).queuesBelow o

/-! ## Chains and functions -/

theorem scheduleExecutions_queuesBelow (executor : T.StandardExecutor) (sources : List T.Source) (modifiers : ChainModifiers) :
    QueuesBelow 2 (scheduleExecutions executor sources modifiers) := by
  have hmap : QueuesBelow 2 (sources.map fun source => QueueOp.queueNext (.execute executor source modifiers)) := by
    intro action hmem
    obtain ⟨source, -, heq⟩ := List.mem_map.mp hmem
    cases heq
    exact ⟨trivial, Nat.two_pos⟩
  unfold scheduleExecutions
  split
  · exact .nil 2
  · exact hmap
  · exact hmap
  · exact .single trivial Nat.one_lt_two

theorem fallthrough_queuesBelow (modifiers : ChainModifiers) (stages : Nat) :
    QueuesBelow (stages + 1) (if modifiers.return_ then [QueueOp.queueNext (.fallthrough : EntryAction T)] else []) := by
  split
  · exact .single trivial (Nat.succ_pos stages)
  · exact .nil _

theorem buildContexts_queuesBelow (hR : R.Advances) (forkLimit : Nat) (executor : FotonExecutor T) (originalSource : T.Source)
    (stages : List (ModifyStage T)) (sources : List T.Source) (modifiers : ChainModifiers) (o : Observed T) :
    QueuesBelow (stages.length + 2)
      (buildContexts R forkLimit consumer executor originalSource stages sources modifiers o).1.ops := by
  induction stages generalizing sources modifiers o with
  | nil =>
    unfold buildContexts
    dsimp only
    split
    · exact fallthrough_queuesBelow modifiers 1
    · split
      · exact (runCustom_queuesBelow hR _ _ _ _).mono (Nat.le_succ 1)
      · split
        all_goals
          dsimp only [Scheduled.here]
          exact scheduleExecutions_queuesBelow _ _ _
  | cons stage rest ih =>
    have hrest : rest.length + 2 ≤ (stage :: rest).length + 2 := Nat.le_succ _
    unfold buildContexts
    dsimp only
    split
    · exact fallthrough_queuesBelow modifiers _
    · split
      · -- A custom modifier gets the chain as it stands.
        refine control_queuesBelow (fun call hcall o => ?_) _
        exact (hR.apply _ _ _ _ _ _ _ _ _ call hcall).queuesBelow o
      · split
        · exact .nil _
        · exact (ih _ _ _).mono hrest
      · exact (ih _ _ _).mono hrest

theorem scheduleFunctionEntries_queues (entries : FunctionEntries T) (sender : T.Source) :
    ∀ action, QueueOp.queueNext action ∈ scheduleFunctionEntries entries sender → action.Tame := by
  unfold scheduleFunctionEntries
  intro action hmem
  split at hmem
  · cases hmem
  · obtain ⟨entry, -, heq⟩ := List.mem_map.mp hmem
    cases heq
    trivial
  · obtain ⟨entry, -, heq⟩ := List.mem_map.mp hmem
    cases heq
    trivial
  · cases List.mem_singleton.mp hmem
    trivial

/-! ## Actions -/

/-- Fewer stages, or fewer sources or lines left. -/
def EntryAction.Smaller (a b : EntryAction T) : Prop := Prod.Lex (· < ·) (· < ·) (a.stages, a.left) (b.stages, b.left)

theorem perform_queues (hR : R.Advances) (forkLimit : Nat) (o : Observed T) {action : EntryAction T} (htame : action.Tame) :
    ∀ child, QueueOp.queueNext child ∈ (action.perform R forkLimit consumer o).1.ops →
      child.Tame ∧ ((action.perform R forkLimit consumer o).1.cost = 0 → child.Smaller action) := by
  have hbelow : ∀ {stages : Nat} {ops : List (QueueOp T)}, QueuesBelow stages ops → stages ≤ action.stages →
      ∀ child, QueueOp.queueNext child ∈ ops → child.Tame ∧ child.Smaller action := by
    intro stages ops hops hle child hchild
    exact ⟨(hops child hchild).1, Prod.Lex.left _ _ ((hops child hchild).2.trans_le hle)⟩
  intro child hchild
  cases action with
  | buildContexts chain originalSource sources modifiers =>
    exact (hbelow (buildContexts_queuesBelow hR _ _ _ _ _ _ _) (Nat.le_refl _) child hchild).imp id fun h _ => h
  | deferredBuildContexts chain originalSource sources modifiers =>
    exact (hbelow (buildContexts_queuesBelow hR _ _ _ _ _ _ _) (Nat.le_refl _) child hchild).imp id fun h _ => h
  | boundEntry entry sender =>
    exact (hbelow (buildContexts_queuesBelow hR _ _ _ _ _ _ _) (Nat.le_refl _) child hchild).imp id fun h _ => h
  | executeContinuation executor sources modifiers =>
    cases sources with
    | nil => cases hchild
    | cons source rest =>
      dsimp only [EntryAction.perform, Scheduled.here] at hchild
      rcases List.mem_cons.mp hchild with heq | hmem
      · cases heq
        exact ⟨trivial, fun _ => Prod.Lex.left _ _ Nat.one_pos⟩
      · split at hmem
        · cases hmem
        · cases List.mem_singleton.mp hmem
          exact ⟨trivial, fun _ => Prod.Lex.right _ (Nat.lt_succ_self _)⟩
  | execute executor source modifiers =>
    unfold EntryAction.perform at hchild
    dsimp only at hchild
    split at hchild
    · cases hchild
    · cases hchild
  | callFunction entries sender resultCallback returnParentFrame =>
    exact ⟨scheduleFunctionEntries_queues entries sender child hchild, fun hcost => absurd hcost Nat.one_ne_zero⟩
  | functionEntryContinuation entries sender index =>
    unfold EntryAction.perform at hchild
    dsimp only at hchild
    split at hchild
    · cases hchild
    · rename_i entry hentry
      rcases List.mem_cons.mp hchild with heq | hmem
      · cases heq
        refine ⟨trivial, fun _ => Prod.Lex.left _ _ ?_⟩
        have hlength : entry.modify.length ∈ entries.map fun entry => entry.modify.length :=
          List.mem_map_of_mem (List.mem_of_getElem? hentry)
        have hle := List.single_le_sum (fun _ _ => Nat.zero_le _) _ hlength
        exact Nat.lt_of_le_of_lt (Nat.add_le_add_right hle 2) (Nat.lt_succ_self _)
      · split at hmem
        · rename_i hnext
          cases List.mem_singleton.mp hmem
          refine ⟨trivial, fun _ => Prod.Lex.right _ ?_⟩
          dsimp only [EntryAction.left]
          omega
        · cases hmem
  | isolatedCall task output =>
    refine (hbelow (control_queuesBelow (fun call hcall o => ?_) _) (Nat.le_refl _) child hchild).imp id fun h _ => h
    exact (htame _ call hcall).queuesBelow o
  | callback report => cases hchild
  | fallthrough =>
    dsimp only [EntryAction.perform, Scheduled.here] at hchild
    simp at hchild

/-! ## The built-in commands -/

namespace BuiltinEnvironment

variable {B : BuiltinTypes} (env : BuiltinEnvironment B)

theorem queueFunctions_isLeaf (functions : List (B.FunctionId × FunctionEntries B.types)) (source : B.Source)
    (modifiers : ChainModifiers) (consumer : CommandResultCallback B.types) (w : BuiltinWorld B) :
    ∀ call ∈ (env.queueFunctions functions source modifiers consumer w).1, call.IsLeaf := by
  intro call hcall
  unfold queueFunctions at hcall
  dsimp only at hcall
  have hfunctions : ∀ (callback : CommandResultCallback B.types) (returnParentFrame : Bool),
      call ∈ functions.map (fun function => (ControlCall.queueFunctionCall function.2 (env.withCallback (env.withSuppressedOutput source) [])
        (env.decorateOutput source function.1 callback) returnParentFrame : ControlCall B.types)) → call.IsLeaf := by
    intro callback returnParentFrame hmem
    obtain ⟨function, -, rfl⟩ := List.mem_map.mp hmem
    trivial
  split at hcall
  · rcases List.mem_append.mp hcall with hmem | hlast
    · exact hfunctions _ _ hmem
    · cases List.mem_singleton.mp hlast
      trivial
  · split at hcall
    · cases hcall
    · exact hfunctions _ _ hcall
    · rcases List.mem_append.mp hcall with hmem | hlast
      · exact hfunctions _ _ hmem
      · cases List.mem_singleton.mp hlast
        trivial

theorem runFunction_isLeaf (name : B.FunctionOrTag) (arguments : Option B.Arguments) (source : B.Source) (modifiers : ChainModifiers)
    (consumer : CommandResultCallback B.types) (w : BuiltinWorld B) :
    ∀ call ∈ (env.runFunction name arguments source modifiers consumer w).1, call.IsLeaf := by
  have hfail : ∀ error, ∀ call ∈ ([.handleError source error modifiers.forked, .onResult (env.callback source) false 0] :
      List (ControlCall B.types)), call.IsLeaf := by simp [ControlCall.IsLeaf]
  unfold runFunction
  dsimp only
  split
  · exact hfail _
  · split
    · exact hfail _
    · exact env.queueFunctions_isLeaf _ _ _ _ _

theorem testFunctions_within (functions : List (B.FunctionId × FunctionEntries B.types)) (output : CommandResultCallback B.types)
    (source : B.Source) (stages : Nat) : (env.testFunctions functions output source).Within stages := by
  intro world call hcall
  rcases List.mem_append.mp hcall with hmem | hlast
  · obtain ⟨function, -, rfl⟩ := List.mem_map.mp hmem
    trivial
  · cases List.mem_singleton.mp hlast
    trivial

theorem executeIfFunction_within (name : B.FunctionOrTag) (expected : Bool) (originalSource : B.Source) (sources : List B.Source)
    (stage : ModifyStage B.types) (rest : List (ModifyStage B.types)) (executor : FotonExecutor B.types) (modifiers : ChainModifiers)
    (w : BuiltinWorld B) :
    ∀ call ∈ (env.executeIfFunction name expected originalSource sources ⟨stage :: rest, executor⟩ modifiers w).1,
      call.Within (rest.length + 1) := by
  have hfail : ∀ error, ∀ call ∈ ([.handleError originalSource error modifiers.forked] : List (ControlCall B.types)),
      call.Within (rest.length + 1) := by simp [ControlCall.Within]
  unfold executeIfFunction
  split
  · exact hfail _
  · split
    · simp
    · split
      · exact hfail _
      · intro call hcall
        dsimp only at hcall
        rcases List.mem_append.mp hcall with hmem | hlast
        · obtain ⟨source, -, rfl⟩ := List.mem_map.mp hmem
          exact env.testFunctions_within _ _ _ _
        · cases List.mem_singleton.mp hlast
          exact Nat.lt_succ_self _

theorem returnRun_within (originalSource : B.Source) (sources : List B.Source) (stage : ModifyStage B.types)
    (rest : List (ModifyStage B.types)) (executor : FotonExecutor B.types) (modifiers : ChainModifiers) :
    ∀ call ∈ returnRun originalSource sources ⟨stage :: rest, executor⟩ modifiers, call.Within (rest.length + 1) := by
  unfold returnRun
  split
  · split <;> simp [ControlCall.Within]
  · simp [ControlCall.Within]

theorem advances : env.runtime.Advances where
  apply modifier originalSource sources stage rest executor modifiers consumer world := by
    cases modifier with
    | executeIfFunction name expected => exact env.executeIfFunction_within name expected originalSource sources stage rest executor modifiers world
    | returnRun => exact returnRun_within originalSource sources stage rest executor modifiers
  run executor source chain modifiers consumer world := by
    cases executor with
    | runFunction name arguments => exact env.runFunction_isLeaf name arguments source modifiers consumer world
    | returnValue value => simp [runtime, ControlCall.IsLeaf]
    | returnFail => simp [runtime, ControlCall.IsLeaf]

end BuiltinEnvironment

end Foton
