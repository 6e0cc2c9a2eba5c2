import Mathlib.Data.List.Basic

/-!
# The open menu of a player

The state behind a player's menu mutex: the external menu that is installed,
the dispatch while some callback owns it, and the removal that a disconnect
starts. A menu is its process-unique instance with the container id it has on
the wire.
-/

namespace Foton.OpenMenu

structure Menu where
  instanceId : Nat
  containerId : Int
  deriving DecidableEq

inductive MenuItemDisposition where
  | returnToInventory
  | drop
  deriving DecidableEq

def MenuItemDisposition.combine : MenuItemDisposition → MenuItemDisposition → MenuItemDisposition
  | .returnToInventory, .returnToInventory => .returnToInventory
  | _, _ => .drop

/-- A menu still to be made: its factory is code outside, which runs when the menu may be made. -/
structure PendingMenuOpen where
  title : String
  deriving DecidableEq

structure PreparedMenu where
  title : String
  menu : Menu
  deriving DecidableEq

inductive DeferredMenuAction where
  | close (sendPacket : Bool) (expectedInstance : Option Nat)
  | openPending (pending : PendingMenuOpen)
  | install (prepared : PreparedMenu)
  | setItems
  deriving DecidableEq

structure OpenMenuDispatch where
  instanceId : Nat
  actions : List DeferredMenuAction
  deriving DecidableEq

structure TerminalMenuRemoval where
  disposition : MenuItemDisposition
  mainCleanupComplete : Bool
  pendingCleanupInProgress : Bool
  pendingMenus : List Menu
  deriving DecidableEq

structure OpenMenuState where
  menu : Option Menu
  title : Option String
  dispatch : Option OpenMenuDispatch
  terminalRemoval : Option TerminalMenuRemoval
  activeOpenOperations : Nat
  deriving DecidableEq

def OpenMenuState.new : OpenMenuState := ⟨none, none, none, none, 0⟩

def dispatchFor (menu : Menu) : OpenMenuDispatch := ⟨menu.instanceId, []⟩

def OpenMenuDispatch.defer (dispatch : OpenMenuDispatch) (action : DeferredMenuAction) : OpenMenuDispatch :=
  { dispatch with actions := dispatch.actions ++ [action] }

def DeferredMenuAction.prepared : DeferredMenuAction → Option Menu
  | .install prepared => some prepared.menu
  | _ => none

/-- The prepared menus among the actions wait for the removal; the other actions are dropped. -/
def TerminalMenuRemoval.queueDeferredMenus (removal : TerminalMenuRemoval) (actions : List DeferredMenuAction) :
    TerminalMenuRemoval :=
  { removal with pendingMenus := removal.pendingMenus ++ actions.filterMap DeferredMenuAction.prepared }

def TerminalMenuRemoval.queue (removal : TerminalMenuRemoval) (menu : Menu) : TerminalMenuRemoval :=
  { removal with pendingMenus := removal.pendingMenus ++ [menu] }

/-! ## What refers to a menu -/

/-- The menus that the state refers to. -/
def OpenMenuState.menus (o : OpenMenuState) : List Menu :=
  o.menu.toList ++ (o.dispatch.elim [] fun dispatch => dispatch.actions.filterMap DeferredMenuAction.prepared) ++
    o.terminalRemoval.elim [] TerminalMenuRemoval.pendingMenus

/-- Why the code of a menu's removal runs. -/
inductive RemovedBy where
  | close (expectedInstance : Option Nat)
  | mainCleanup
  | pendingCleanup
  deriving DecidableEq

inductive MenuEvent where
  /-- The menu's `InventoryOpenEvent` was cancelled. -/
  | refused (instanceId : Nat)
  /-- `Menu::removed` ran. -/
  | removed (instanceId : Nat) (cause : RemovedBy)
  deriving DecidableEq

def MenuEvent.removes (instanceId : Nat) : MenuEvent → Bool
  | .removed menu _ => menu = instanceId
  | _ => false

def MenuEvent.refuses (instanceId : Nat) : MenuEvent → Bool
  | .refused menu => menu = instanceId
  | _ => false

/-- How often `Menu::removed` has run on the menu. -/
def removals (instanceId : Nat) (log : List MenuEvent) : Nat := log.countP (MenuEvent.removes instanceId)

/-!
## The operations on the open menu

Each operation is a sequence of critical sections with calls between them.
What is left of the calls of a thread is its stack of tasks, the innermost
first; a task is one critical section, which changes the state and may put
further tasks on the stack. The task `callback` is code outside: a listener, a
hook of a menu or a factory, which may call any operation before it returns.
-/

inductive Task where
  | callback
  | callMenu (expectedContainerId : Option Int)
  | setOpenContainerItems
  | openMenu (pending : PendingMenuOpen)
  | openMenuInner (pending : PendingMenuOpen)
  | executeMenuOpen (pending : PendingMenuOpen)
  | create (title : String)
  | openPreparedMenu (prepared : PreparedMenu)
  | installPrepared (prepared : PreparedMenu)
  | resolveOpenEvent (menu : Menu)
  | finishOpenMenuCallback (menu : Menu)
  | finishOpenMenuRemoval
  | runDeferredMenuActions (actions : List DeferredMenuAction)
  | finishMenuOpenOperation
  | closeOpenMenu (sendPacket : Bool) (expectedInstance : Option Nat)
  | removeOpenMenu (menu : Menu) (cause : RemovedBy)
  | removeAllMenus (disposition : MenuItemDisposition)
  | finishTerminalMenuMainCleanup (menu : Option Menu)
  | completeMainCleanup
  | tryFinishTerminalMenuRemoval
  | cleanPendingMenus (menus : List Menu)
  deriving DecidableEq

/-- What code outside decides: whether an event or a batch of items is refused, and the id of a new menu. -/
structure Choice where
  refuses : Bool
  containerId : Int

structure Effect where
  state : OpenMenuState
  tasks : List Task := []
  events : List MenuEvent := []

/-- A handler takes the menu for its callback, `take_open_menu_for_callback`, and gives it back afterwards. -/
def callMenu (o : OpenMenuState) (expectedContainerId : Option Int) : Effect :=
  match o.dispatch, o.menu with
  | some _, _ => { state := o }
  | none, none => { state := o }
  | none, some menu =>
    if expectedContainerId.any fun expected => menu.containerId ≠ expected then { state := o }
    else
      { state := { o with menu := none, dispatch := some (dispatchFor menu) }
        tasks := [.callback, .finishOpenMenuCallback menu] }

def setOpenContainerItems (o : OpenMenuState) (refuses : Bool) : Effect :=
  match o.terminalRemoval, o.dispatch, o.menu with
  | some _, _, _ => { state := o }
  | none, some dispatch, _ =>
    if refuses then { state := o } else { state := { o with dispatch := some (dispatch.defer .setItems) } }
  | none, none, none => { state := o }
  | none, none, some menu =>
    if refuses then { state := o }
    else
      { state := { o with menu := none, dispatch := some (dispatchFor menu) }
        tasks := [.callback, .finishOpenMenuCallback menu, .callback] }

/-- `begin_menu_open_operation`, then what `open_menu` does when it is let in. -/
def openMenu (o : OpenMenuState) (pending : PendingMenuOpen) : Effect :=
  match o.terminalRemoval with
  | some _ => { state := o }
  | none =>
    { state := { o with activeOpenOperations := o.activeOpenOperations + 1 }
      tasks := [.closeOpenMenu false none, .openMenuInner pending, .finishMenuOpenOperation] }

def openMenuInner (o : OpenMenuState) (pending : PendingMenuOpen) : Effect :=
  match o.terminalRemoval, o.dispatch with
  | some _, _ => { state := o }
  | none, some dispatch => { state := { o with dispatch := some (dispatch.defer (.openPending pending)) } }
  | none, none => { state := o, tasks := [.executeMenuOpen pending] }

def executeMenuOpen (o : OpenMenuState) (pending : PendingMenuOpen) : Effect :=
  match o.terminalRemoval, o.dispatch with
  | some _, _ => { state := o }
  | none, some dispatch => { state := { o with dispatch := some (dispatch.defer (.openPending pending)) } }
  | none, none => { state := o, tasks := [.callback, .create pending.title] }

/-- The head of the loop of `open_prepared_menu`. -/
def openPreparedMenu (o : OpenMenuState) (prepared : PreparedMenu) : Effect :=
  match o.terminalRemoval with
  | some removal => { state := { o with terminalRemoval := some (removal.queue prepared.menu) } }
  | none => { state := o, tasks := [.closeOpenMenu false none, .installPrepared prepared] }

/-- The rest of the loop: the menu waits, is installed, or the loop goes round. -/
def installPrepared (o : OpenMenuState) (prepared : PreparedMenu) : Effect :=
  match o.terminalRemoval, o.dispatch, o.menu with
  | some removal, _, _ => { state := { o with terminalRemoval := some (removal.queue prepared.menu) } }
  | none, some dispatch, _ => { state := { o with dispatch := some (dispatch.defer (.install prepared)) } }
  | none, none, some _ => { state := o, tasks := [.openPreparedMenu prepared] }
  | none, none, none =>
    { state := { o with title := some prepared.title, dispatch := some (dispatchFor prepared.menu) }
      tasks := [.callback, .resolveOpenEvent prepared.menu] }

/-- `InventoryOpenEvent` has been fired: a refused menu is never shown, any other has `on_open` run. -/
def resolveOpenEvent (o : OpenMenuState) (menu : Menu) (refuses : Bool) : Effect :=
  if refuses then
    { state := { o with title := none }, tasks := [.finishOpenMenuRemoval], events := [.refused menu.instanceId] }
  else { state := o, tasks := [.callback, .finishOpenMenuCallback menu] }

def finishOpenMenuCallback (o : OpenMenuState) (menu : Menu) : Effect :=
  match o.dispatch, o.terminalRemoval with
  | none, _ => { state := { o with menu := some menu } }
  | some dispatch, some removal =>
    { state := { o with dispatch := none, terminalRemoval := some (removal.queueDeferredMenus dispatch.actions) }
      tasks := [.finishTerminalMenuMainCleanup (some menu)] }
  | some dispatch, none =>
    { state := { o with
        dispatch := none, menu := some menu, activeOpenOperations := o.activeOpenOperations + 1 }
      tasks := [.runDeferredMenuActions dispatch.actions] }

def finishOpenMenuRemoval (o : OpenMenuState) : Effect :=
  match o.dispatch, o.terminalRemoval with
  | none, _ => { state := o }
  | some dispatch, some removal =>
    { state := { o with dispatch := none, terminalRemoval := some (removal.queueDeferredMenus dispatch.actions) }
      tasks := [.finishTerminalMenuMainCleanup none] }
  | some dispatch, none =>
    { state := { o with dispatch := none, activeOpenOperations := o.activeOpenOperations + 1 }
      tasks := [.runDeferredMenuActions dispatch.actions] }

def DeferredMenuAction.task : DeferredMenuAction → Task
  | .close sendPacket expectedInstance => .closeOpenMenu sendPacket expectedInstance
  | .openPending pending => .executeMenuOpen pending
  | .install prepared => .openPreparedMenu prepared
  | .setItems => .setOpenContainerItems

def runDeferredMenuActions (o : OpenMenuState) : List DeferredMenuAction → Effect
  | [] => { state := o, tasks := [.finishMenuOpenOperation] }
  | action :: actions => { state := o, tasks := [action.task, .runDeferredMenuActions actions] }

def finishMenuOpenOperation (o : OpenMenuState) : Effect :=
  { state := { o with activeOpenOperations := o.activeOpenOperations - 1 }, tasks := [.tryFinishTerminalMenuRemoval] }

def closeOpenMenu (o : OpenMenuState) (sendPacket : Bool) (expectedInstance : Option Nat) : Effect :=
  match o.terminalRemoval, o.dispatch, o.menu with
  | some _, _, _ => { state := o }
  | none, some dispatch, _ =>
    if expectedInstance.any fun expected => dispatch.instanceId ≠ expected then { state := o }
    else { state := { o with dispatch := some (dispatch.defer (.close sendPacket expectedInstance)) } }
  | none, none, none => { state := o }
  | none, none, some menu =>
    if expectedInstance.any fun expected => menu.instanceId ≠ expected then { state := o }
    else
      { state := { o with menu := none, title := none, dispatch := some (dispatchFor menu) }
        tasks := [.callback, .removeOpenMenu menu (.close expectedInstance), .finishOpenMenuRemoval] }

def removeAllMenus (o : OpenMenuState) (disposition : MenuItemDisposition) : Effect :=
  match o.terminalRemoval, o.dispatch with
  | some removal, _ =>
    { state := { o with
        terminalRemoval := some { removal with disposition := removal.disposition.combine disposition } } }
  | none, some _ => { state := { o with terminalRemoval := some ⟨disposition, false, false, []⟩ } }
  | none, none =>
    { state := { o with menu := none, title := none, terminalRemoval := some ⟨disposition, false, false, []⟩ }
      tasks := [.finishTerminalMenuMainCleanup o.menu] }

/-- The base inventory menu is removed first, which is a callback too. -/
def finishTerminalMenuMainCleanup (o : OpenMenuState) (menu : Option Menu) : Effect :=
  { state := o
    tasks := [.callback] ++ (menu.map fun menu => .removeOpenMenu menu .mainCleanup).toList ++ [.completeMainCleanup] }

def completeMainCleanup (o : OpenMenuState) : Effect :=
  match o.terminalRemoval with
  | none => { state := o }
  | some removal =>
    { state := { o with terminalRemoval := some { removal with mainCleanupComplete := true } }
      tasks := [.tryFinishTerminalMenuRemoval] }

def tryFinishTerminalMenuRemoval (o : OpenMenuState) : Effect :=
  if o.activeOpenOperations ≠ 0 then { state := o }
  else
    match o.terminalRemoval with
    | none => { state := o }
    | some removal =>
      if !removal.mainCleanupComplete || removal.pendingCleanupInProgress then { state := o }
      else if removal.pendingMenus.isEmpty then { state := { o with terminalRemoval := none } }
      else
        { state := { o with
            terminalRemoval := some { removal with pendingCleanupInProgress := true, pendingMenus := [] } }
          tasks := [.cleanPendingMenus removal.pendingMenus] }

def cleanPendingMenus (o : OpenMenuState) : List Menu → Effect
  | menu :: menus =>
    { state := o, tasks := [.callback, .cleanPendingMenus menus], events := [.removed menu.instanceId .pendingCleanup] }
  | [] =>
    match o.terminalRemoval with
    | none => { state := o }
    | some removal =>
      { state := { o with terminalRemoval := some { removal with pendingCleanupInProgress := false } }
        tasks := [.tryFinishTerminalMenuRemoval] }

/-! ## Threads -/

structure System where
  openMenu : OpenMenuState
  /-- The menus that factories have made are those with a smaller instance. -/
  nextInstance : Nat
  threads : List (List Task)
  log : List MenuEvent

/-- The next instance after the task: the factory of an opened menu has returned a new menu. -/
def Task.next (nextInstance : Nat) : Task → Nat
  | .create _ => nextInstance + 1
  | _ => nextInstance

/-- What a task does; a callback returns. -/
def Task.exec (o : OpenMenuState) (nextInstance : Nat) (choice : Choice) : Task → Effect
  | .callback => { state := o }
  | .callMenu expectedContainerId => OpenMenu.callMenu o expectedContainerId
  | .setOpenContainerItems => OpenMenu.setOpenContainerItems o choice.refuses
  | .openMenu pending => OpenMenu.openMenu o pending
  | .openMenuInner pending => OpenMenu.openMenuInner o pending
  | .executeMenuOpen pending => OpenMenu.executeMenuOpen o pending
  | .create title =>
    { state := o, tasks := [.openPreparedMenu ⟨title, nextInstance, choice.containerId⟩] }
  | .openPreparedMenu prepared => OpenMenu.openPreparedMenu o prepared
  | .installPrepared prepared => OpenMenu.installPrepared o prepared
  | .resolveOpenEvent menu => OpenMenu.resolveOpenEvent o menu choice.refuses
  | .finishOpenMenuCallback menu => OpenMenu.finishOpenMenuCallback o menu
  | .finishOpenMenuRemoval => OpenMenu.finishOpenMenuRemoval o
  | .runDeferredMenuActions actions => OpenMenu.runDeferredMenuActions o actions
  | .finishMenuOpenOperation => OpenMenu.finishMenuOpenOperation o
  | .closeOpenMenu sendPacket expectedInstance => OpenMenu.closeOpenMenu o sendPacket expectedInstance
  | .removeOpenMenu menu cause =>
    { state := o, tasks := [.callback], events := [.removed menu.instanceId cause] }
  | .removeAllMenus disposition => OpenMenu.removeAllMenus o disposition
  | .finishTerminalMenuMainCleanup menu => OpenMenu.finishTerminalMenuMainCleanup o menu
  | .completeMainCleanup => OpenMenu.completeMainCleanup o
  | .tryFinishTerminalMenuRemoval => OpenMenu.tryFinishTerminalMenuRemoval o
  | .cleanPendingMenus menus => OpenMenu.cleanPendingMenus o menus

/-- The operations that code outside may call. -/
inductive Operation where
  | callMenu (expectedContainerId : Option Int)
  | setOpenContainerItems
  | openMenu (pending : PendingMenuOpen)
  | closeOpenMenu (sendPacket : Bool) (expectedInstance : Option Nat)
  | removeAllMenus (disposition : MenuItemDisposition)

def Operation.task : Operation → Task
  | .callMenu expectedContainerId => .callMenu expectedContainerId
  | .setOpenContainerItems => .setOpenContainerItems
  | .openMenu pending => .openMenu pending
  | .closeOpenMenu sendPacket expectedInstance => .closeOpenMenu sendPacket expectedInstance
  | .removeAllMenus disposition => .removeAllMenus disposition

inductive Move where
  | spawn
  | call (operation : Operation)
  | exec (choice : Choice)

/-- Code outside runs in the thread: the thread is in no operation, or inside a callback. -/
def Outside (stack : List Task) : Prop := stack = [] ∨ ∃ rest, stack = .callback :: rest

/-- One step of some thread. -/
inductive Step : System → Move → System → Prop
  | spawn {s : System} : Step s .spawn { s with threads := [] :: s.threads }
  | call {s : System} {before after : List (List Task)} {stack : List Task} (operation : Operation)
      (hthreads : s.threads = before ++ stack :: after) (houtside : Outside stack) :
      Step s (.call operation) { s with threads := before ++ (operation.task :: stack) :: after }
  | exec {s : System} {before after : List (List Task)} {task : Task} {stack : List Task} (choice : Choice)
      (hthreads : s.threads = before ++ (task :: stack) :: after) :
      Step s (.exec choice) {
        openMenu := (task.exec s.openMenu s.nextInstance choice).state
        nextInstance := task.next s.nextInstance
        threads := before ++ ((task.exec s.openMenu s.nextInstance choice).tasks ++ stack) :: after
        log := s.log ++ (task.exec s.openMenu s.nextInstance choice).events }

def System.new : System := ⟨.new, 0, [], []⟩

/-- All that is left to run. -/
def System.tasks (s : System) : List Task := s.threads.flatten

end Foton.OpenMenu
