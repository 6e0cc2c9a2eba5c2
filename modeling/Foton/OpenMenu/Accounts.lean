import Foton.OpenMenu.Operations
import Mathlib.Algebra.BigOperators.Group.List.Basic
import Mathlib.Algebra.Ring.Nat

/-!
# What a task does to the accounts

The tasks that are still to run play roles that the state counts: the owner of
the dispatch, the open operations, and the two cleanups of a removal. Every
task keeps each count equal to the number of tasks in the role, and every menu
in one place until its removal runs.
-/

namespace Foton.OpenMenu

inductive Role where
  | owner
  | operation
  | mainCleanup
  | pendingCleanup

def Role.weight : Role → Task → Nat
  | .owner, .resolveOpenEvent _ => 1
  | .owner, .finishOpenMenuCallback _ => 1
  | .owner, .finishOpenMenuRemoval => 1
  | .operation, .runDeferredMenuActions _ => 1
  | .operation, .finishMenuOpenOperation => 1
  | .mainCleanup, .finishTerminalMenuMainCleanup _ => 1
  | .mainCleanup, .completeMainCleanup => 1
  | .pendingCleanup, .cleanPendingMenus _ => 1
  | _, _ => 0

/-- The number of tasks in the role, by the state. -/
def OpenMenuState.count (o : OpenMenuState) : Role → Nat
  | .owner => o.dispatch.isSome.toNat
  | .operation => o.activeOpenOperations
  | .mainCleanup => (o.dispatch.isNone && o.terminalRemoval.any (!·.mainCleanupComplete)).toNat
  | .pendingCleanup => (o.terminalRemoval.any (·.pendingCleanupInProgress)).toNat

/-- The task that ends a removal is to come. -/
def Task.finishes : Task → Nat
  | .tryFinishTerminalMenuRemoval => 1
  | _ => 0

/-- The menus that the task holds. -/
def Task.menus : Task → List Menu
  | .openPreparedMenu prepared => [prepared.menu]
  | .installPrepared prepared => [prepared.menu]
  | .resolveOpenEvent menu => [menu]
  | .finishOpenMenuCallback menu => [menu]
  | .removeOpenMenu menu _ => [menu]
  | .runDeferredMenuActions actions => actions.filterMap DeferredMenuAction.prepared
  | .finishTerminalMenuMainCleanup menu => menu.toList
  | .cleanPendingMenus menus => menus
  | _ => []

/-- The task makes the menu with this instance. -/
def Task.makes (nextInstance i : Nat) : Task → Nat
  | .create _ => if i = nextInstance then 1 else 0
  | _ => 0

/-- A close that expects an instance removes a menu with that instance only. -/
def RemovedBy.Expects (i : Nat) : RemovedBy → Prop
  | .close (some expected) => expected = i
  | _ => True

def Task.Expects : Task → Prop
  | .removeOpenMenu menu cause => cause.Expects menu.instanceId
  | _ => True

def MenuEvent.Expects : MenuEvent → Prop
  | .removed i cause => cause.Expects i
  | _ => True

def total (weight : Task → Nat) (tasks : List Task) : Nat := (tasks.map weight).sum

@[simp] theorem total_nil (weight : Task → Nat) : total weight [] = 0 := rfl

@[simp]
theorem total_cons (weight : Task → Nat) (task : Task) (tasks : List Task) :
    total weight (task :: tasks) = weight task + total weight tasks := rfl

@[simp]
theorem total_append (weight : Task → Nat) (tasks tasks' : List Task) :
    total weight (tasks ++ tasks') = total weight tasks + total weight tasks' := by
  simp [total]

def held (i : Nat) (menus : List Menu) : Nat := menus.countP fun menu => menu.instanceId = i

@[simp] theorem held_nil (i : Nat) : held i [] = 0 := rfl

@[simp]
theorem held_cons (i : Nat) (menu : Menu) (menus : List Menu) :
    held i (menu :: menus) = held i menus + if menu.instanceId = i then 1 else 0 := by
  simp [held, List.countP_cons]

@[simp]
theorem held_append (i : Nat) (menus menus' : List Menu) : held i (menus ++ menus') = held i menus + held i menus' :=
  List.countP_append

/-- How often the events removed the menu or refused it. -/
def endings (i : Nat) (events : List MenuEvent) : Nat := removals i events + events.countP (MenuEvent.refuses i)

/-- What the state owes to the order of the operations. -/
structure OpenMenuState.Ok (o : OpenMenuState) : Prop where
  apart : o.menu = none ∨ o.dispatch = none
  cleared : o.terminalRemoval ≠ none → o.menu = none
  waits : ∀ removal, o.terminalRemoval = some removal → o.dispatch ≠ none → removal.mainCleanupComplete = false

/-- Only an attempt to finish the removal can end it. -/
def OpenMenuState.Settling (o : OpenMenuState) : Prop :=
  o.activeOpenOperations = 0 ∧
    o.terminalRemoval.any fun removal => removal.mainCleanupComplete && !removal.pendingCleanupInProgress

/-- The state lets the task run. -/
structure OpenMenuState.Lets (o : OpenMenuState) (task : Task) : Prop where
  ok : o.Ok
  roles : ∀ role : Role, role.weight task ≤ o.count role

structure Accounts (o : OpenMenuState) (nextInstance : Nat) (task : Task) (e : Effect) : Prop where
  ok : e.state.Ok
  roles : ∀ role : Role, total role.weight e.tasks + o.count role = role.weight task + e.state.count role
  settling : e.state.Settling → (o.Settling ∧ task.finishes = 0) ∨ 0 < total Task.finishes e.tasks
  menus : ∀ i, held i e.state.menus + total (fun task => held i task.menus) e.tasks + endings i e.events =
    held i o.menus + held i task.menus + task.makes nextInstance i
  expects : task.Expects → (∀ task ∈ e.tasks, task.Expects) ∧ ∀ event ∈ e.events, event.Expects

/-! ## Moves that several operations make -/

variable {o : OpenMenuState} {next : Nat} {task : Task} {menu : Menu} {dispatch : OpenMenuDispatch}
  {removal : TerminalMenuRemoval}

@[simp] theorem endings_nil (i : Nat) : endings i [] = 0 := rfl

@[simp]
theorem endings_cons (i : Nat) (event : MenuEvent) (events : List MenuEvent) :
    endings i (event :: events) = endings i events + (if event.removes i then 1 else 0) +
      if event.refuses i then 1 else 0 := by
  simp only [endings, removals, List.countP_cons]
  omega

/-- A task that plays no part. -/
structure Task.Plain (task : Task) : Prop where
  roles : ∀ role : Role, role.weight task = 0
  finishes : task.finishes = 0
  makes : ∀ next i, task.makes next i = 0

/-- The state stays as it is, and the task gives way to others with its roles and its menus. -/
theorem Accounts.calls {tasks : List Task} {events : List MenuEvent} (hok : o.Ok) (hfinishes : task.finishes = 0)
    (hroles : ∀ role : Role, total role.weight tasks = role.weight task)
    (hmenus : ∀ i, total (fun task => held i task.menus) tasks + endings i events =
      held i task.menus + task.makes next i)
    (hexpects : task.Expects → (∀ task ∈ tasks, task.Expects) ∧ ∀ event ∈ events, event.Expects) :
    Accounts o next task { state := o, tasks, events } where
  ok := hok
  roles role := by rw [hroles]
  settling h := Or.inl ⟨h, hfinishes⟩
  menus i := by rw [Nat.add_assoc, hmenus, Nat.add_assoc]
  expects := hexpects

theorem Accounts.skip (hok : o.Ok) (htask : task.Plain) (hmenus : task.menus = []) :
    Accounts o next task { state := o } :=
  .calls hok htask.finishes (fun role => by simp [htask.roles]) (fun i => by simp [hmenus, htask.makes]) (by simp)

theorem Accounts.defer (hok : o.Ok) (htask : task.Plain) (hdispatch : o.dispatch = some dispatch)
    (action : DeferredMenuAction) (hmenus : task.menus = action.prepared.toList) :
    Accounts o next task { state := { o with dispatch := some (dispatch.defer action) } } where
  ok := ⟨by simpa [hdispatch] using hok.apart, hok.cleared, by simpa [hdispatch] using hok.waits⟩
  roles role := by
    rw [htask.roles]
    cases role <;> simp [OpenMenuState.count, hdispatch]
  settling h := Or.inl ⟨h, htask.finishes⟩
  menus i := by
    cases haction : action.prepared <;>
      simp [OpenMenuState.menus, OpenMenuDispatch.defer, hdispatch, hmenus, htask.makes, haction]
    omega
  expects _ := by simp

theorem Accounts.queue (hok : o.Ok) (htask : task.Plain) (hremoval : o.terminalRemoval = some removal)
    (hmenus : task.menus = [menu]) :
    Accounts o next task { state := { o with terminalRemoval := some (removal.queue menu) } } where
  ok := ⟨hok.apart, fun _ => hok.cleared (by simp [hremoval]), fun _ h hdispatch => by
    cases h
    exact hok.waits removal hremoval hdispatch⟩
  roles role := by
    rw [htask.roles]
    cases role <;> simp [OpenMenuState.count, TerminalMenuRemoval.queue, hremoval]
  settling h := by
    simpa [OpenMenuState.Settling, TerminalMenuRemoval.queue, hremoval, htask.finishes] using h
  menus i := by
    simp [OpenMenuState.menus, TerminalMenuRemoval.queue, hremoval, hmenus, htask.makes]
    omega
  expects _ := by simp

theorem Accounts.take {tasks : List Task} (hok : o.Ok) (htask : task.Plain) (hnone : task.menus = [])
    (hmenu : o.menu = some menu) (hdispatch : o.dispatch = none) (title : Option String)
    (hroles : ∀ role : Role, total role.weight tasks = role.weight (.finishOpenMenuCallback menu))
    (hmenus : ∀ i, total (fun task => held i task.menus) tasks = held i [menu])
    (hexpects : ∀ task ∈ tasks, task.Expects) :
    Accounts o next task
      { state := { o with menu := none, title := title, dispatch := some (dispatchFor menu) }, tasks } where
  ok := by
    have hremoval : o.terminalRemoval = none := by
      by_contra h
      simp [hok.cleared h] at hmenu
    exact ⟨Or.inl rfl, fun _ => rfl, by simp [hremoval]⟩
  roles role := by
    have hremoval : o.terminalRemoval = none := by
      by_contra h
      simp [hok.cleared h] at hmenu
    rw [htask.roles, hroles]
    cases role <;> simp [OpenMenuState.count, Role.weight, hdispatch, hremoval]
  settling h := Or.inl ⟨h, htask.finishes⟩
  menus i := by
    rw [hmenus]
    simp [OpenMenuState.menus, dispatchFor, hmenu, hdispatch, hnone, htask.makes]
  expects _ := ⟨hexpects, by simp⟩

end Foton.OpenMenu
