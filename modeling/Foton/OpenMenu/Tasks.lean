import Foton.OpenMenu.Accounts

/-!
# The accounts of every task
-/

namespace Foton.OpenMenu

variable {o : OpenMenuState} {next : Nat}

theorem callMenu_accounts (hok : o.Ok) (expected : Option Int) :
    Accounts o next (.callMenu expected) (callMenu o expected) := by
  have htask : (Task.callMenu expected).Plain := ⟨fun role => by cases role <;> rfl, rfl, fun _ _ => rfl⟩
  unfold callMenu
  split
  · exact .skip hok htask rfl
  · exact .skip hok htask rfl
  next menu hdispatch hmenu =>
    split
    · exact .skip hok htask rfl
    · exact .take hok htask rfl hmenu hdispatch o.title (fun role => by cases role <;> rfl) (fun i => by simp [Task.menus])
        (by simp [Task.Expects])

theorem setOpenContainerItems_accounts (hok : o.Ok) (refuses : Bool) :
    Accounts o next .setOpenContainerItems (setOpenContainerItems o refuses) := by
  have htask : Task.setOpenContainerItems.Plain := ⟨fun role => by cases role <;> rfl, rfl, fun _ _ => rfl⟩
  unfold setOpenContainerItems
  split
  · exact .skip hok htask rfl
  next dispatch _ hdispatch =>
    split
    · exact .skip hok htask rfl
    · exact .defer hok htask hdispatch .setItems rfl
  · exact .skip hok htask rfl
  next menu _ hdispatch hmenu =>
    split
    · exact .skip hok htask rfl
    · exact .take hok htask rfl hmenu hdispatch o.title (fun role => by cases role <;> rfl) (fun i => by simp [Task.menus])
        (by simp [Task.Expects])

theorem openMenu_accounts (hok : o.Ok) (pending : PendingMenuOpen) :
    Accounts o next (.openMenu pending) (openMenu o pending) := by
  have htask : (Task.openMenu pending).Plain := ⟨fun role => by cases role <;> rfl, rfl, fun _ _ => rfl⟩
  unfold openMenu
  split
  · exact .skip hok htask rfl
  next hremoval =>
    refine ⟨⟨hok.apart, hok.cleared, hok.waits⟩, fun role => ?_, ?_, fun i => ?_, ?_⟩
    · cases role <;> simp [OpenMenuState.count, Role.weight]
      omega
    · simp [OpenMenuState.Settling]
    · simp [OpenMenuState.menus, Task.menus, Task.makes]
    · simp [Task.Expects]

theorem openMenuInner_accounts (hok : o.Ok) (pending : PendingMenuOpen) :
    Accounts o next (.openMenuInner pending) (openMenuInner o pending) := by
  have htask : (Task.openMenuInner pending).Plain := ⟨fun role => by cases role <;> rfl, rfl, fun _ _ => rfl⟩
  unfold openMenuInner
  split
  · exact .skip hok htask rfl
  next hdispatch => exact .defer hok htask hdispatch (.openPending pending) rfl
  · exact .calls hok rfl (fun role => by cases role <;> rfl) (fun i => rfl) (by simp [Task.Expects])

theorem executeMenuOpen_accounts (hok : o.Ok) (pending : PendingMenuOpen) :
    Accounts o next (.executeMenuOpen pending) (executeMenuOpen o pending) := by
  have htask : (Task.executeMenuOpen pending).Plain := ⟨fun role => by cases role <;> rfl, rfl, fun _ _ => rfl⟩
  unfold executeMenuOpen
  split
  · exact .skip hok htask rfl
  next hdispatch => exact .defer hok htask hdispatch (.openPending pending) rfl
  · exact .calls hok rfl (fun role => by cases role <;> rfl) (fun i => rfl) (by simp [Task.Expects])

theorem openPreparedMenu_accounts (hok : o.Ok) (prepared : PreparedMenu) :
    Accounts o next (.openPreparedMenu prepared) (openPreparedMenu o prepared) := by
  have htask : (Task.openPreparedMenu prepared).Plain := ⟨fun role => by cases role <;> rfl, rfl, fun _ _ => rfl⟩
  unfold openPreparedMenu
  split
  next hremoval => exact .queue hok htask hremoval rfl
  · exact .calls hok rfl (fun role => by cases role <;> rfl) (fun i => by simp [Task.menus, Task.makes])
      (by simp [Task.Expects])

theorem installPrepared_accounts (hok : o.Ok) (prepared : PreparedMenu) :
    Accounts o next (.installPrepared prepared) (installPrepared o prepared) := by
  have htask : (Task.installPrepared prepared).Plain := ⟨fun role => by cases role <;> rfl, rfl, fun _ _ => rfl⟩
  unfold installPrepared
  split
  next hremoval => exact .queue hok htask hremoval rfl
  next hdispatch => exact .defer hok htask hdispatch (.install prepared) rfl
  · exact .calls hok rfl (fun role => by cases role <;> rfl) (fun i => rfl) (by simp [Task.Expects])
  next hremoval hdispatch hmenu =>
    -- the menu stays with the task that fires the event, which owns the new dispatch
    refine ⟨⟨Or.inl hmenu, hok.cleared, by simp [hremoval]⟩, fun role => ?_, fun h => Or.inl ⟨h, rfl⟩, fun i => ?_, ?_⟩
    · cases role <;> simp [OpenMenuState.count, Role.weight, hdispatch, hremoval]
    · simp [OpenMenuState.menus, Task.menus, Task.makes, dispatchFor, hdispatch]
    · simp [Task.Expects]

theorem resolveOpenEvent_accounts (hok : o.Ok) (menu : Menu) (refuses : Bool) :
    Accounts o next (.resolveOpenEvent menu) (resolveOpenEvent o menu refuses) := by
  unfold resolveOpenEvent
  split
  · refine ⟨⟨hok.apart, hok.cleared, hok.waits⟩, fun role => ?_, fun h => Or.inl ⟨h, rfl⟩, fun i => ?_, ?_⟩
    · cases role <;> simp [OpenMenuState.count, Role.weight]
    · simp [OpenMenuState.menus, Task.menus, Task.makes, MenuEvent.refuses, MenuEvent.removes]
    · simp [Task.Expects, MenuEvent.Expects]
  · exact .calls hok rfl (fun role => by cases role <;> rfl) (fun i => by simp [Task.menus, Task.makes])
      (by simp [Task.Expects])

theorem queueDeferredMenus_held (removal : TerminalMenuRemoval) (actions : List DeferredMenuAction) (i : Nat) :
    held i (removal.queueDeferredMenus actions).pendingMenus =
      held i removal.pendingMenus + held i (actions.filterMap DeferredMenuAction.prepared) := by
  simp [TerminalMenuRemoval.queueDeferredMenus]

/-- The owner of the dispatch gives the menu back, or leaves it to the removal that has begun. -/
theorem finishOpenMenuCallback_accounts {menu : Menu} (h : o.Lets (.finishOpenMenuCallback menu)) :
    Accounts o next (.finishOpenMenuCallback menu) (finishOpenMenuCallback o menu) := by
  have howner : o.dispatch ≠ none := by
    intro hnone
    simpa [Role.weight, OpenMenuState.count, hnone] using h.roles .owner
  have hmenu : o.menu = none := h.ok.apart.resolve_right howner
  unfold finishOpenMenuCallback
  split
  next hdispatch => exact absurd hdispatch howner
  next dispatch removal hdispatch hremoval =>
    have hwaits := h.ok.waits removal hremoval howner
    refine ⟨⟨Or.inl hmenu, fun _ => hmenu, by simp⟩, fun role => ?_, fun hsettling => ?_, fun i => ?_, ?_⟩
    · cases role <;>
        simp [OpenMenuState.count, Role.weight, TerminalMenuRemoval.queueDeferredMenus, hdispatch, hremoval, hwaits]
    · simp [OpenMenuState.Settling, TerminalMenuRemoval.queueDeferredMenus, hwaits] at hsettling
    · simp [OpenMenuState.menus, Task.menus, Task.makes, hdispatch, hremoval, hmenu, queueDeferredMenus_held]
      omega
    · simp [Task.Expects]
  next dispatch hdispatch hremoval =>
    refine ⟨⟨Or.inr rfl, by simp [hremoval], by simp⟩, fun role => ?_, fun hsettling => ?_, fun i => ?_, ?_⟩
    · cases role <;> simp [OpenMenuState.count, Role.weight, hdispatch, hremoval]
      omega
    · simp [OpenMenuState.Settling] at hsettling
    · simp [OpenMenuState.menus, Task.menus, Task.makes, hdispatch, hremoval, hmenu]
      omega
    · simp [Task.Expects]

theorem finishOpenMenuRemoval_accounts (h : o.Lets .finishOpenMenuRemoval) :
    Accounts o next .finishOpenMenuRemoval (finishOpenMenuRemoval o) := by
  have howner : o.dispatch ≠ none := by
    intro hnone
    simpa [Role.weight, OpenMenuState.count, hnone] using h.roles .owner
  have hmenu : o.menu = none := h.ok.apart.resolve_right howner
  unfold finishOpenMenuRemoval
  split
  next hdispatch => exact absurd hdispatch howner
  next dispatch removal hdispatch hremoval =>
    have hwaits := h.ok.waits removal hremoval howner
    refine ⟨⟨Or.inl hmenu, fun _ => hmenu, by simp⟩, fun role => ?_, fun hsettling => ?_, fun i => ?_, ?_⟩
    · cases role <;>
        simp [OpenMenuState.count, Role.weight, TerminalMenuRemoval.queueDeferredMenus, hdispatch, hremoval, hwaits]
    · simp [OpenMenuState.Settling, TerminalMenuRemoval.queueDeferredMenus, hwaits] at hsettling
    · simp [OpenMenuState.menus, Task.menus, Task.makes, hdispatch, hremoval, hmenu, queueDeferredMenus_held]
      omega
    · simp [Task.Expects]
  next dispatch hdispatch hremoval =>
    refine ⟨⟨Or.inl hmenu, by simp [hremoval], by simp⟩, fun role => ?_, fun hsettling => ?_, fun i => ?_, ?_⟩
    · cases role <;> simp [OpenMenuState.count, Role.weight, hdispatch, hremoval]
      omega
    · simp [OpenMenuState.Settling] at hsettling
    · simp [OpenMenuState.menus, Task.menus, Task.makes, hdispatch, hremoval, hmenu]
    · simp [Task.Expects]

theorem DeferredMenuAction.task_role (action : DeferredMenuAction) (role : Role) : role.weight action.task = 0 := by
  cases action <;> cases role <;> rfl

theorem runDeferredMenuActions_accounts (hok : o.Ok) (actions : List DeferredMenuAction) :
    Accounts o next (.runDeferredMenuActions actions) (runDeferredMenuActions o actions) := by
  cases actions with
  | nil => exact .calls hok rfl (fun role => by cases role <;> rfl) (fun i => rfl) (by simp [Task.Expects])
  | cons action actions =>
    refine .calls hok rfl (fun role => ?_) (fun i => ?_) (fun _ => ?_)
    · rw [total_cons, action.task_role]
      cases role <;> rfl
    · cases action <;>
        simp [DeferredMenuAction.task, DeferredMenuAction.prepared, Task.menus, Task.makes, List.filterMap_cons]
      omega
    · cases action <;> simp [Task.Expects, DeferredMenuAction.task]

theorem finishMenuOpenOperation_accounts (h : o.Lets .finishMenuOpenOperation) :
    Accounts o next .finishMenuOpenOperation (finishMenuOpenOperation o) := by
  have hactive : 1 ≤ o.activeOpenOperations := h.roles .operation
  refine ⟨⟨h.ok.apart, h.ok.cleared, h.ok.waits⟩, fun role => ?_, fun _ => Or.inr ?_, fun i => ?_, ?_⟩
  · cases role <;> simp [OpenMenuState.count, Role.weight, finishMenuOpenOperation]
    omega
  · simp [finishMenuOpenOperation, Task.finishes]
  · simp [OpenMenuState.menus, Task.menus, Task.makes, finishMenuOpenOperation]
  · simp [Task.Expects, finishMenuOpenOperation]

theorem closeOpenMenu_accounts (hok : o.Ok) (sendPacket : Bool) (expected : Option Nat) :
    Accounts o next (.closeOpenMenu sendPacket expected) (closeOpenMenu o sendPacket expected) := by
  have htask : (Task.closeOpenMenu sendPacket expected).Plain := ⟨fun role => by cases role <;> rfl, rfl, fun _ _ => rfl⟩
  unfold closeOpenMenu
  split
  · exact .skip hok htask rfl
  next dispatch _ hdispatch =>
    split
    · exact .skip hok htask rfl
    · exact .defer hok htask hdispatch (.close sendPacket expected) rfl
  · exact .skip hok htask rfl
  next menu _ hdispatch hmenu =>
    split
    · exact .skip hok htask rfl
    next hexpected =>
      refine .take hok htask rfl hmenu hdispatch none (fun role => by cases role <;> rfl) (fun i => ?_) ?_
      · simp [Task.menus]
      · -- the menu is the one that the close expects
        cases expected with
        | none => simp [Task.Expects, RemovedBy.Expects]
        | some expected =>
          have hinstance : menu.instanceId = expected := by simpa using hexpected
          simp [Task.Expects, RemovedBy.Expects, hinstance]

theorem removeAllMenus_accounts (hok : o.Ok) (disposition : MenuItemDisposition) :
    Accounts o next (.removeAllMenus disposition) (removeAllMenus o disposition) := by
  unfold removeAllMenus
  split
  next removal hremoval =>
    refine ⟨⟨hok.apart, fun _ => hok.cleared (by simp [hremoval]), fun _ h hdispatch => ?_⟩, fun role => ?_, fun h => ?_,
      fun i => ?_, ?_⟩
    · cases h
      exact hok.waits removal hremoval hdispatch
    · cases role <;> simp [OpenMenuState.count, Role.weight, hremoval]
    · simpa [OpenMenuState.Settling, Task.finishes, hremoval] using h
    · simp [OpenMenuState.menus, Task.menus, Task.makes, hremoval]
    · simp [Task.Expects]
  next dispatch hremoval hdispatch =>
    have hmenu : o.menu = none := hok.apart.resolve_right (by simp [hdispatch])
    refine ⟨⟨hok.apart, fun _ => hmenu, fun _ h _ => ?_⟩, fun role => ?_, fun h => ?_, fun i => ?_, ?_⟩
    · cases h
      rfl
    · cases role <;> simp [OpenMenuState.count, Role.weight, hremoval, hdispatch]
    · simp [OpenMenuState.Settling] at h
    · simp [OpenMenuState.menus, Task.menus, Task.makes, hremoval]
    · simp [Task.Expects]
  next hremoval hdispatch =>
    refine ⟨⟨Or.inl rfl, fun _ => rfl, by simp [hdispatch]⟩, fun role => ?_, fun h => ?_, fun i => ?_, ?_⟩
    · cases role <;> simp [OpenMenuState.count, Role.weight, hremoval, hdispatch]
    · simp [OpenMenuState.Settling] at h
    · simp [OpenMenuState.menus, Task.menus, Task.makes, hremoval, hdispatch]
    · simp [Task.Expects]

theorem finishTerminalMenuMainCleanup_accounts (hok : o.Ok) (menu : Option Menu) :
    Accounts o next (.finishTerminalMenuMainCleanup menu) (finishTerminalMenuMainCleanup o menu) := by
  refine .calls hok rfl (fun role => ?_) (fun i => ?_) (fun _ => ?_)
  · cases menu <;> cases role <;> rfl
  · cases menu <;> simp [Task.menus, Task.makes]
  · cases menu <;> simp [Task.Expects, RemovedBy.Expects]

theorem completeMainCleanup_accounts (h : o.Lets .completeMainCleanup) :
    Accounts o next .completeMainCleanup (completeMainCleanup o) := by
  have hcleanup : o.count .mainCleanup = 1 := by
    have hle := h.roles .mainCleanup
    have hbound : o.count .mainCleanup ≤ 1 := Bool.toNat_le _
    simp only [Role.weight] at hle
    omega
  unfold completeMainCleanup
  split
  next hremoval => simp [OpenMenuState.count, hremoval] at hcleanup
  next removal hremoval =>
    have hdispatch : o.dispatch = none ∧ removal.mainCleanupComplete = false := by
      simpa [OpenMenuState.count, hremoval] using hcleanup
    refine ⟨⟨h.ok.apart, fun _ => h.ok.cleared (by simp [hremoval]), fun _ _ hne => absurd hdispatch.1 hne⟩,
      fun role => ?_, fun _ => Or.inr ?_, fun i => ?_, ?_⟩
    · cases role <;> simp [OpenMenuState.count, Role.weight, hremoval, hdispatch.1, hdispatch.2]
    · simp [Task.finishes]
    · simp [OpenMenuState.menus, Task.menus, Task.makes, hremoval]
    · simp [Task.Expects]

theorem tryFinishTerminalMenuRemoval_accounts (hok : o.Ok) :
    Accounts o next .tryFinishTerminalMenuRemoval (tryFinishTerminalMenuRemoval o) := by
  unfold tryFinishTerminalMenuRemoval
  split
  next hactive =>
    refine ⟨hok, fun role => ?_, fun h => absurd h.1 hactive, fun i => ?_, by simp⟩
    · cases role <;> simp [Role.weight]
    · simp [Task.menus, Task.makes]
  next hactive =>
    split
    next hremoval =>
      refine ⟨hok, fun role => ?_, fun h => ?_, fun i => ?_, by simp⟩
      · cases role <;> simp [Role.weight]
      · simp [OpenMenuState.Settling, hremoval] at h
      · simp [Task.menus, Task.makes]
    next removal hremoval =>
      split
      next hbusy =>
        refine ⟨hok, fun role => ?_, fun h => ?_, fun i => ?_, by simp⟩
        · cases role <;> simp [Role.weight]
        · have := h.2
          simp_all
        · simp [Task.menus, Task.makes]
      next hidle =>
        have hdone : removal.mainCleanupComplete = true ∧ removal.pendingCleanupInProgress = false := by
          simpa using hidle
        split
        next hnone =>
          have hpending : removal.pendingMenus = [] := by simpa using hnone
          refine ⟨⟨hok.apart, by simp, by simp⟩, fun role => ?_, fun h => ?_, fun i => ?_, by simp⟩
          · cases role <;> simp [OpenMenuState.count, Role.weight, hremoval, hdone]
          · simp [OpenMenuState.Settling] at h
          · simp [OpenMenuState.menus, Task.menus, Task.makes, hremoval, hpending]
        · refine ⟨⟨hok.apart, fun _ => hok.cleared (by simp [hremoval]), fun _ heq hne => ?_⟩, fun role => ?_, fun h => ?_,
            fun i => ?_, by simp [Task.Expects]⟩
          · cases heq
            exact hok.waits removal hremoval hne
          · cases role <;> simp [OpenMenuState.count, Role.weight, hremoval, hdone]
          · simp [OpenMenuState.Settling] at h
          · simp [OpenMenuState.menus, Task.menus, Task.makes, hremoval]
            omega

theorem cleanPendingMenus_accounts {menus : List Menu} (h : o.Lets (.cleanPendingMenus menus)) :
    Accounts o next (.cleanPendingMenus menus) (cleanPendingMenus o menus) := by
  cases menus with
  | cons menu menus =>
    refine .calls h.ok rfl (fun role => by cases role <;> rfl) (fun i => ?_) (fun _ => ?_)
    · simp [Task.menus, Task.makes, MenuEvent.removes, MenuEvent.refuses]
    · simp [Task.Expects, MenuEvent.Expects, RemovedBy.Expects]
  | nil =>
    simp only [cleanPendingMenus]
    have hcleanup := h.roles .pendingCleanup
    split
    next hremoval => simp [OpenMenuState.count, Role.weight, hremoval] at hcleanup
    next removal hremoval =>
      have hprogress : removal.pendingCleanupInProgress = true := by
        by_contra hno
        rw [Bool.not_eq_true] at hno
        simp [OpenMenuState.count, Role.weight, hremoval, hno] at hcleanup
      refine ⟨⟨h.ok.apart, fun _ => h.ok.cleared (by simp [hremoval]), fun _ heq hne => ?_⟩, fun role => ?_,
        fun _ => Or.inr ?_, fun i => ?_, ?_⟩
      · cases heq
        exact h.ok.waits removal hremoval hne
      · cases role <;> simp [OpenMenuState.count, Role.weight, hremoval, hprogress]
      · simp [Task.finishes]
      · simp [OpenMenuState.menus, Task.menus, Task.makes, hremoval]
      · simp [Task.Expects]

theorem exec_accounts {task : Task} (h : o.Lets task) (choice : Choice) :
    Accounts o next task (task.exec o next choice) := by
  cases task with
  | callback => exact .skip h.ok ⟨fun role => by cases role <;> rfl, rfl, fun _ _ => rfl⟩ rfl
  | callMenu expected => exact callMenu_accounts h.ok expected
  | setOpenContainerItems => exact setOpenContainerItems_accounts h.ok choice.refuses
  | openMenu pending => exact openMenu_accounts h.ok pending
  | openMenuInner pending => exact openMenuInner_accounts h.ok pending
  | executeMenuOpen pending => exact executeMenuOpen_accounts h.ok pending
  | create title =>
    refine .calls h.ok rfl (fun role => by cases role <;> rfl) (fun i => ?_) ?_
    · simp [Task.menus, Task.makes, eq_comm]
    · simp [Task.Expects]
  | openPreparedMenu prepared => exact openPreparedMenu_accounts h.ok prepared
  | installPrepared prepared => exact installPrepared_accounts h.ok prepared
  | resolveOpenEvent menu => exact resolveOpenEvent_accounts h.ok menu choice.refuses
  | finishOpenMenuCallback menu => exact finishOpenMenuCallback_accounts h
  | finishOpenMenuRemoval => exact finishOpenMenuRemoval_accounts h
  | runDeferredMenuActions actions => exact runDeferredMenuActions_accounts h.ok actions
  | finishMenuOpenOperation => exact finishMenuOpenOperation_accounts h
  | closeOpenMenu sendPacket expected => exact closeOpenMenu_accounts h.ok sendPacket expected
  | removeOpenMenu menu cause =>
    refine .calls h.ok rfl (fun role => by cases role <;> rfl) (fun i => ?_) fun hexpects => ?_
    · simp [Task.menus, Task.makes, MenuEvent.removes, MenuEvent.refuses]
    · exact ⟨by simp [Task.Expects], by simpa [MenuEvent.Expects, Task.Expects] using hexpects⟩
  | removeAllMenus disposition => exact removeAllMenus_accounts h.ok disposition
  | finishTerminalMenuMainCleanup menu => exact finishTerminalMenuMainCleanup_accounts h.ok menu
  | completeMainCleanup => exact completeMainCleanup_accounts h
  | tryFinishTerminalMenuRemoval => exact tryFinishTerminalMenuRemoval_accounts h.ok
  | cleanPendingMenus menus => exact cleanPendingMenus_accounts h

end Foton.OpenMenu
