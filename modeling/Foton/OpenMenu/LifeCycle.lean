import Foton.OpenMenu.Tasks
import Foton.Lib.Run

/-!
# The life cycle of menus

However threads interleave, and however callbacks nest, a menu is in one place
until its removal runs, and a removal of all menus comes to an end when
nothing is left that could hold it up.
-/

namespace Foton.OpenMenu

structure Sound (o : OpenMenuState) (next : Nat) (tasks : List Task) (log : List MenuEvent) : Prop where
  ok : o.Ok
  roles : ∀ role : Role, total role.weight tasks = o.count role
  settling : o.Settling → 0 < total Task.finishes tasks
  menus : ∀ i, held i o.menus + total (fun task => held i task.menus) tasks + endings i log = if i < next then 1 else 0
  tasksExpect : ∀ task ∈ tasks, task.Expects
  eventsExpect : ∀ event ∈ log, event.Expects

theorem total_perm (weight : Task → Nat) {tasks tasks' : List Task} (h : tasks.Perm tasks') :
    total weight tasks = total weight tasks' :=
  (h.map weight).sum_eq

theorem endings_append (i : Nat) (events events' : List MenuEvent) :
    endings i (events ++ events') = endings i events + endings i events' := by
  simp only [endings, removals, List.countP_append]
  omega

variable {o : OpenMenuState} {next : Nat} {tasks rest : List Task} {task : Task} {log : List MenuEvent}

theorem Sound.perm (h : Sound o next tasks log) {tasks' : List Task} (hperm : tasks.Perm tasks') :
    Sound o next tasks' log where
  ok := h.ok
  roles role := (total_perm _ hperm.symm).trans (h.roles role)
  settling hsettling := total_perm Task.finishes hperm ▸ h.settling hsettling
  menus i := total_perm (fun task => held i task.menus) hperm ▸ h.menus i
  tasksExpect task ht := h.tasksExpect task (hperm.mem_iff.mpr ht)
  eventsExpect := h.eventsExpect

theorem Task.makes_next (task : Task) (next i : Nat) :
    (if i < task.next next then 1 else 0) = (if i < next then 1 else 0) + task.makes next i := by
  cases task with
  | create title =>
    simp only [Task.next, Task.makes]
    rcases Nat.lt_trichotomy i next with h | rfl | h
    · simp [h, Nat.lt_succ_of_lt h, Nat.ne_of_lt h]
    · simp
    · simp [show ¬ i < next + 1 by omega, show ¬ i < next by omega, show i ≠ next by omega]
  | _ => rfl

theorem Sound.lets (h : Sound o next (task :: rest) log) : o.Lets task :=
  ⟨h.ok, fun role => by simp [← h.roles role]⟩

theorem Sound.exec (h : Sound o next (task :: rest) log) (choice : Choice) :
    Sound (task.exec o next choice).state (task.next next) ((task.exec o next choice).tasks ++ rest)
      (log ++ (task.exec o next choice).events) := by
  have accounts : Accounts o next task (task.exec o next choice) := exec_accounts h.lets choice
  generalize task.exec o next choice = e at accounts
  refine ⟨accounts.ok, fun role => ?_, fun hsettling => ?_, fun i => ?_, fun t ht => ?_, fun event hevent => ?_⟩
  · have hrole := h.roles role
    have hmoved := accounts.roles role
    simp only [total_cons, total_append] at hrole ⊢
    omega
  · rw [total_append]
    rcases accounts.settling hsettling with ⟨hbefore, hother⟩ | hnew
    · have hwaiting := h.settling hbefore
      rw [total_cons, hother] at hwaiting
      omega
    · omega
  · have hmenus := h.menus i
    have hmoved := accounts.menus i
    rw [task.makes_next]
    simp only [total_cons, total_append, endings_append] at hmenus ⊢
    omega
  · have hnew := (accounts.expects (h.tasksExpect task (by simp))).1
    rcases List.mem_append.mp ht with ht | ht
    · exact hnew t ht
    · exact h.tasksExpect t (by simp [ht])
  · have hnew := (accounts.expects (h.tasksExpect task (by simp))).2
    rcases List.mem_append.mp hevent with hevent | hevent
    · exact h.eventsExpect event hevent
    · exact hnew event hevent

theorem Sound.call (h : Sound o next tasks log) (operation : Operation) : Sound o next (operation.task :: tasks) log := by
  have hrole : ∀ role : Role, role.weight operation.task = 0 := fun role => by
    cases operation <;> cases role <;> rfl
  have hmenus : operation.task.menus = [] := by cases operation <;> rfl
  refine ⟨h.ok, fun role => ?_, fun hsettling => ?_, fun i => ?_, fun t ht => ?_, h.eventsExpect⟩
  · rw [total_cons, hrole, Nat.zero_add, h.roles]
  · rw [total_cons]
    have := h.settling hsettling
    omega
  · simpa [hmenus] using h.menus i
  · rcases List.mem_cons.mp ht with rfl | ht
    · cases operation <;> simp [Operation.task, Task.Expects]
    · exact h.tasksExpect t ht

def System.Sound (s : System) : Prop := OpenMenu.Sound s.openMenu s.nextInstance s.tasks s.log

theorem System.Sound.step {s s' : System} {move : Move} (h : s.Sound) (hstep : Step s move s') : s'.Sound := by
  unfold System.Sound System.tasks at *
  cases hstep with
  | spawn => simpa using h
  | @call before after stack operation hthreads houtside =>
    rw [hthreads] at h
    refine (h.call operation).perm ?_
    simpa using List.perm_middle.symm
  | @exec before after task stack choice hthreads =>
    rw [hthreads] at h
    have hfirst : (before ++ (task :: stack) :: after).flatten.Perm (task :: (before.flatten ++ stack ++ after.flatten)) := by
      simp
    refine ((h.perm hfirst).exec choice).perm ?_
    simp only [List.flatten_append, List.flatten_cons, ← List.append_assoc]
    exact ((List.perm_append_comm.append_right _).append_right _)

theorem System.Sound.new : System.new.Sound := by
  refine ⟨⟨Or.inl rfl, fun h => absurd rfl h, by simp [System.new, OpenMenuState.new]⟩, fun role => ?_, ?_, ?_, ?_, ?_⟩
  · cases role <;> rfl
  · simp [OpenMenuState.Settling, System.new, OpenMenuState.new]
  · simp [System.new, OpenMenuState.new, OpenMenuState.menus, System.tasks]
  · simp [System.new, System.tasks]
  · simp [System.new]

/-! ## The life cycle -/

/-- The task belongs to a cleanup: the main one, the pending one, or the attempt to end the removal. -/
def Task.Cleans : Task → Prop
  | .finishTerminalMenuMainCleanup _ => True
  | .completeMainCleanup => True
  | .cleanPendingMenus _ => True
  | .tryFinishTerminalMenuRemoval => True
  | _ => False

/-- Some place still refers to the menu: the state, or a task that owns it. -/
def System.Refers (s : System) (i : Nat) : Prop :=
  ∃ menu ∈ s.openMenu.menus ++ s.tasks.flatMap Task.menus, menu.instanceId = i

structure System.LifeCycle (s : System) : Prop where
  removed_le_one : ∀ i, removals i s.log ≤ 1
  removed_once : ∀ i < s.nextInstance, .refused i ∉ s.log → ¬ s.Refers i → removals i s.log = 1
  apart : s.openMenu.menu = none ∨ s.openMenu.dispatch = none
  expected_only : ∀ i expected, .removed i (.close (some expected)) ∈ s.log → i = expected
  settled : s.openMenu.dispatch = none → s.openMenu.activeOpenOperations = 0 → (∀ task ∈ s.tasks, ¬ task.Cleans) →
    s.openMenu.terminalRemoval = none
  at_rest : s.tasks = [] → ∀ i < s.nextInstance, .refused i ∉ s.log →
    (∃ menu, s.openMenu.menu = some menu ∧ menu.instanceId = i) ∨ removals i s.log = 1

theorem held_eq_zero {i : Nat} {menus : List Menu} : held i menus = 0 ↔ ∀ menu ∈ menus, menu.instanceId ≠ i := by
  simp [held, List.countP_eq_zero]

theorem total_eq_zero {weight : Task → Nat} (h : ∀ task ∈ tasks, weight task = 0) : total weight tasks = 0 :=
  List.sum_eq_zero fun n hn => by
    obtain ⟨task, ht, rfl⟩ := List.mem_map.mp hn
    exact h task ht

theorem Sound.removed_once (h : Sound o next tasks log) {i : Nat} (hi : i < next) (hrefused : .refused i ∉ log)
    (hstate : held i o.menus = 0) (htasks : ∀ task ∈ tasks, held i task.menus = 0) : removals i log = 1 := by
  have hmenus := h.menus i
  have hrest : total (fun task => held i task.menus) tasks = 0 := total_eq_zero htasks
  have hkept : log.countP (MenuEvent.refuses i) = 0 := by
    refine List.countP_eq_zero.mpr fun event hevent => ?_
    cases event with
    | refused j =>
      intro hj
      exact hrefused (by simpa [MenuEvent.refuses] using (of_decide_eq_true hj) ▸ hevent)
    | removed j cause => simp [MenuEvent.refuses]
  simp only [hstate, hrest, endings, hkept, hi, if_true] at hmenus
  omega

theorem Sound.settled (h : Sound o next tasks log) (hdispatch : o.dispatch = none) (hactive : o.activeOpenOperations = 0)
    (hclean : ∀ task ∈ tasks, ¬ task.Cleans) : o.terminalRemoval = none := by
  have hrole : ∀ role : Role, (∀ task, 0 < role.weight task → task.Cleans) → o.count role = 0 := fun role hcleans => by
    rw [← h.roles role]
    exact total_eq_zero fun task ht => Nat.eq_zero_of_not_pos fun hpos => hclean task ht (hcleans task hpos)
  have hmain := hrole .mainCleanup fun task hpos => by cases task <;> simp [Role.weight, Task.Cleans] at hpos ⊢
  have hpending := hrole .pendingCleanup fun task hpos => by cases task <;> simp [Role.weight, Task.Cleans] at hpos ⊢
  by_contra hremoval
  obtain ⟨removal, hremoval⟩ := Option.ne_none_iff_exists'.mp hremoval
  have hsettling : o.Settling := by
    simp [OpenMenuState.count, hdispatch, hremoval] at hmain hpending
    simp [OpenMenuState.Settling, hactive, hremoval, hmain, hpending]
  have hpos := h.settling hsettling
  have hnone : total Task.finishes tasks = 0 := total_eq_zero fun task ht => by
    have hno := hclean task ht
    cases task <;> simp [Task.finishes, Task.Cleans] at hno ⊢
  omega

theorem System.Sound.lifeCycle {s : System} (h : s.Sound) : s.LifeCycle where
  removed_le_one i := by
    have hmenus := h.menus i
    unfold endings at hmenus
    split at hmenus <;> omega
  removed_once i hi hrefused hrefers := by
    refine Sound.removed_once h hi hrefused ?_ fun task ht => ?_
    · exact held_eq_zero.mpr fun menu hmenu heq => hrefers ⟨menu, by simp [hmenu], heq⟩
    · refine held_eq_zero.mpr fun menu hmenu heq => hrefers ⟨menu, ?_, heq⟩
      exact List.mem_append_right _ (List.mem_flatMap.mpr ⟨task, ht, hmenu⟩)
  apart := h.ok.apart
  expected_only i expected hevent := (h.eventsExpect _ hevent).symm
  settled := Sound.settled h
  at_rest htasks i hi hrefused := by
    -- nothing runs, so nothing but the menu field can refer to a menu
    have howner := h.roles .owner
    have hactive := h.roles .operation
    simp only [htasks, total_nil, OpenMenuState.count] at howner hactive
    have hdispatch : s.openMenu.dispatch = none := by simpa using howner.symm
    have hremoval := Sound.settled h hdispatch hactive.symm (by simp [htasks])
    cases hmenu : s.openMenu.menu with
    | none =>
      refine Or.inr (Sound.removed_once h hi hrefused ?_ (by simp [htasks]))
      simp [OpenMenuState.menus, hdispatch, hremoval, hmenu]
    | some menu =>
      by_cases heq : menu.instanceId = i
      · exact Or.inl ⟨menu, rfl, heq⟩
      · refine Or.inr (Sound.removed_once h hi hrefused ?_ (by simp [htasks]))
        simp [OpenMenuState.menus, hdispatch, hremoval, hmenu, heq]

/-- **No menu is lost or closed twice**, in any interleaving of threads with any nesting of callbacks. -/
theorem menu_life_cycle {s : System} {moves : List Move} (h : Run Step .new moves s) : s.LifeCycle :=
  (h.invariant System.Sound.new fun _ _ _ => System.Sound.step).lifeCycle

theorem opened_menu_life_cycle : ∃ s : System, s.openMenu.menu = some ⟨0, 1⟩ ∧ s.LifeCycle := by
  have run : Run Step .new _ _ := .snoc .nil .spawn
  replace run := run.snoc (@Step.call _ [] [] _ (.openMenu ⟨"Chest"⟩) rfl (Or.inl rfl))
  iterate 13 replace run := run.snoc (@Step.exec _ [] [] _ _ ⟨false, 1⟩ rfl)
  exact ⟨_, rfl, menu_life_cycle run⟩

end Foton.OpenMenu
