import Foton.Command.Shrinking
import Foton.Lib.Run
import Foton.Lib.Drain

/-!
# Command execution is bounded

A turn of the loop spends quota or replaces an action by smaller ones, so the
loop ends. What the queue holds is bounded at every entry that is queued.
-/

namespace Foton.Suspending

variable {T : CommandTypes} {U : Type}

/-! ## What a turn queues -/

namespace QueueAction

def Tame : QueueAction T U → Prop
  | entry action => action.Tame
  | _ => True

def measure : QueueAction T U → Nat × Nat
  | entry action => (action.stages, action.left)
  | _ => (0, 0)

def Smaller (a b : QueueAction T U) : Prop := Prod.Lex (· < ·) (· < ·) a.measure b.measure

theorem smaller_wf : WellFounded (Smaller (T := T) (U := U)) :=
  InvImage.wf measure (WellFounded.prod_lex Nat.lt_wfRel.wf Nat.lt_wfRel.wf)

end QueueAction

namespace Context

variable {R : SuspendingRuntime T U}

theorem perform_requests (hR : R.Advances) (forkLimit : Nat) (consumer : CommandResultCallback T) (o : Observed T)
    {action : QueueAction T U} (htame : action.Tame) :
    ∀ child, Request.queueNext child ∈ (perform R forkLimit consumer o action).1.requests →
      child.Tame ∧ ((perform R forkLimit consumer o action).1.cost = 0 → child.Smaller action) := by
  have hnone : ∀ child, Request.queueNext child ∈ ([] : List (Request T U)) →
      child.Tame ∧ ((0 : Nat) = 0 → child.Smaller action) := fun _ h => absurd h List.not_mem_nil
  cases action with
  | suspend suspension => exact hnone
  | resume action =>
    cases action with
    | unavailable source => exact hnone
    | complete source modifiers result => exact hnone
  | entry action =>
    have hscheduled : ∀ child, Request.queueNext child ∈ (action.perform R.toCommandRuntime forkLimit consumer o).1.ops.map Request.lift →
        child.Tame ∧ ((action.perform R.toCommandRuntime forkLimit consumer o).1.cost = 0 → child.Smaller (.entry action : QueueAction T U)) := by
      intro child hchild
      obtain ⟨op, hop, heq⟩ := List.mem_map.mp hchild
      cases op with
      | discard => cases heq
      | queueNext action' =>
        cases heq
        exact perform_queues hR forkLimit o htame action' hop
    unfold perform
    dsimp only
    split
    · split
      · exact hscheduled
      · split
        · exact hnone
        · split
          · intro child hchild
            cases List.mem_singleton.mp hchild
            exact ⟨trivial, fun hcost => absurd hcost Nat.one_ne_zero⟩
          · exact fun _ h => absurd h List.not_mem_nil
    · exact hscheduled

theorem perform_free (R : SuspendingRuntime T U) (forkLimit : Nat) (consumer : CommandResultCallback T) (o : Observed T)
    (action : QueueAction T U) (h : action.runsAfterCommandLimit = true) :
    (perform R forkLimit consumer o action).1.cost = 0 ∧ (perform R forkLimit consumer o action).1.requests = [] := by
  cases action with
  | entry action => cases h
  | suspend suspension => exact ⟨rfl, rfl⟩
  | resume action =>
    cases action with
    | unavailable source => exact ⟨rfl, rfl⟩
    | complete source modifiers result => exact ⟨rfl, rfl⟩

/-! ## What the queue holds -/

variable {c c' c'' : Context T U}

/-- The entries that are held and the most that ever were are bounded. -/
def Held (c : Context T U) : Prop := c.entries.length ≤ c.queueLimit + 1 ∧ c.mostEntries ≤ c.queueLimit + 1

/-- Entries were queued and dropped; what was queued meets a condition. -/
structure Queued (P : QueueAction T U → Prop) (c c' : Context T U) : Prop where
  commandLimit : c'.commandLimit = c.commandLimit
  limit : c'.queueLimit = c.queueLimit
  quota : c'.commandQuota = c.commandQuota
  executed : c'.executed = c.executed
  kept : c'.commandQueue <:+ c.commandQueue
  staged : ∀ entry ∈ c'.newTopCommands, entry ∈ c.newTopCommands ∨ P entry.action
  held : c.Held → c'.Held

variable {P : QueueAction T U → Prop}

theorem Queued.refl (P : QueueAction T U → Prop) (c : Context T U) : Queued P c c :=
  ⟨rfl, rfl, rfl, rfl, List.suffix_refl _, fun _ h => Or.inl h, id⟩

theorem Queued.trans (h : Queued P c c') (h' : Queued P c' c'') : Queued P c c'' where
  commandLimit := h'.commandLimit.trans h.commandLimit
  limit := h'.limit.trans h.limit
  quota := h'.quota.trans h.quota
  executed := h'.executed.trans h.executed
  kept := h'.kept.trans h.kept
  staged entry hentry := (h'.staged entry hentry).elim (h.staged entry) Or.inr
  held hheld := h'.held (h.held hheld)

variable (R)

theorem Queued.of_dropped (hcommand : c'.commandLimit = c.commandLimit) (hlimit : c'.queueLimit = c.queueLimit)
    (hquota : c'.commandQuota = c.commandQuota) (hexecuted : c'.executed = c.executed) (hmost : c'.mostEntries = c.mostEntries)
    (hkept : c'.commandQueue <:+ c.commandQueue) (hstaged : c'.newTopCommands.Sublist c.newTopCommands) : Queued P c c' := by
  refine ⟨hcommand, hlimit, hquota, hexecuted, hkept, fun entry hentry => Or.inl (hstaged.subset hentry), ?_⟩
  rintro ⟨hlength, hmost'⟩
  unfold Held entries at *
  rw [List.length_append] at hlength ⊢
  have hkept := hkept.length_le
  have hstaged := hstaged.length_le
  omega

theorem cancelCommandQueue_queued (c : Context T U) : Queued P c (c.cancelCommandQueue R) :=
  .of_dropped rfl rfl rfl rfl rfl (List.nil_suffix) (List.Sublist.refl _)

theorem cancelNewTopCommands_queued (c : Context T U) : Queued P c (c.cancelNewTopCommands R) :=
  .of_dropped rfl rfl rfl rfl rfl (List.suffix_refl _) (List.nil_sublist _)

theorem checkOverflow_queued (c : Context T U) : Queued P c (c.checkOverflow R) := by
  unfold checkOverflow
  split
  · have hover : Queued P c { c with queueOverflow := true } := .of_dropped rfl rfl rfl rfl rfl (List.suffix_refl _) (List.Sublist.refl _)
    exact (hover.trans (cancelNewTopCommands_queued R _)).trans (cancelCommandQueue_queued R _)
  · exact .refl P c

theorem checkOverflow_length (c : Context T U) (h : (c.checkOverflow R).queueOverflow = false) :
    (c.checkOverflow R).entries.length ≤ c.queueLimit := by
  unfold checkOverflow at h ⊢
  split
  · rename_i hover
    rw [if_pos hover] at h
    cases h
  · rename_i hfits
    unfold entries
    rw [List.length_append]
    omega

theorem queueEntry_queued (c : Context T U) {entry : QueueEntry T U} (hP : P entry.action) : Queued P c (c.queueEntry R entry) := by
  have hcheck : Queued P c (c.checkOverflow R) := checkOverflow_queued R c
  have hlength := checkOverflow_length R c
  unfold queueEntry
  dsimp only
  generalize c.checkOverflow R = c' at hcheck hlength
  split
  · exact hcheck.trans (.of_dropped rfl rfl rfl rfl rfl (List.suffix_refl _) (List.Sublist.refl _))
  · rename_i hover
    have hlength := hlength (by simpa using hover)
    refine ⟨hcheck.commandLimit, hcheck.limit, hcheck.quota, hcheck.executed, hcheck.kept, fun entry' hentry' => ?_, fun hheld => ?_⟩
    · rcases List.mem_append.mp hentry' with hold | hnew
      · exact hcheck.staged entry' hold
      · cases List.mem_singleton.mp hnew
        exact Or.inr hP
    · obtain ⟨-, hmost⟩ := hcheck.held hheld
      rw [← hcheck.limit] at hlength
      unfold Held entries at *
      simp only [List.length_append, List.length_singleton] at hlength ⊢
      omega

theorem discard_queued (c : Context T U) (frame : CommandFrame T) : Queued P c (c.discard R frame) := by
  unfold discard
  split
  · exact cancelCommandQueue_queued R c
  · exact .of_dropped rfl rfl rfl rfl rfl (List.dropWhile_suffix _) (List.Sublist.refl _)

theorem requests_queued (frame : CommandFrame T) {requests : List (Request T U)}
    (hP : ∀ child, Request.queueNext child ∈ requests → P child) (c : Context T U) :
    Queued P c (requests.foldl (request R frame) c) := by
  induction requests generalizing c with
  | nil => exact .refl P c
  | cons first rest ih =>
    refine Queued.trans ?_ (ih (fun child hchild => hP child (List.mem_cons_of_mem _ hchild)) _)
    cases first with
    | queueNext action => exact queueEntry_queued R c (hP action List.mem_cons_self)
    | discard => exact discard_queued R c frame

theorem pushNewCommands_eq (c : Context T U) :
    c.pushNewCommands = { c with commandQueue := c.newTopCommands ++ c.commandQueue, newTopCommands := [] } := by
  unfold pushNewCommands
  rw [List.foldl_reverse, List.foldr_cons_eq_append, List.map_id']

variable {R}

/-! ## The quota -/

/-- The record of the executed actions and the quota they leave. -/
inductive Recorded (limit : Nat) : List ExecutedAction → Nat → Prop
  | nil : Recorded limit [] limit
  | snoc {executed : List ExecutedAction} {action : ExecutedAction} (h : Recorded limit executed action.quota)
      (hafter : action.quota = 0 → action.runsAfterCommandLimit = true ∧ action.cost = 0) :
      Recorded limit (executed ++ [action]) (action.quota - action.cost)

/-- The actions that called `increment_cost`. -/
def costly (executed : List ExecutedAction) : List ExecutedAction := executed.filter fun action => 0 < action.cost

theorem Recorded.costly_length {limit quota : Nat} {executed : List ExecutedAction} (h : Recorded limit executed quota) :
    quota + (costly executed).length ≤ limit := by
  induction h with
  | nil => exact Nat.le_refl limit
  | snoc h hafter ih =>
    rename_i executed action
    unfold costly at ih ⊢
    rw [List.filter_append, List.length_append]
    by_cases hcost : 0 < action.cost
    · have hpos : action.quota ≠ 0 := fun hzero => by
        have := (hafter hzero).2
        omega
      simp only [List.filter_singleton, hcost, decide_true, cond_true, List.length_singleton]
      omega
    · simp only [List.filter_singleton, hcost, decide_false, cond_false, List.length_nil]
      omega

/-- Once the limit is used up, only actions that are marked for it are executed. -/
theorem Recorded.after {limit quota : Nat} {executed before later : List ExecutedAction} {action : ExecutedAction}
    (h : Recorded limit executed quota) (heq : executed = before ++ action :: later) (hlimit : limit ≤ (costly before).length) :
    action.runsAfterCommandLimit = true := by
  induction h generalizing later with
  | nil => simp at heq
  | snoc h hafter ih =>
    rename_i executed last
    rcases List.eq_nil_or_concat later with rfl | ⟨later, last', rfl⟩
    · obtain ⟨rfl, hlast⟩ := List.append_inj' heq rfl
      cases hlast
      have := h.costly_length
      exact (hafter (by omega)).1
    · rw [List.concat_eq_append, ← List.cons_append, ← List.append_assoc] at heq
      exact ih (List.append_inj' heq rfl).1

/-! ## The invariant -/

structure Sound (limit queueLimit : Nat) (c : Context T U) : Prop where
  commandLimit : c.commandLimit = limit
  queueLimit : c.queueLimit = queueLimit
  tame : ∀ entry ∈ c.entries, entry.action.Tame
  held : c.Held
  recorded : Recorded limit c.executed c.commandQuota

variable {limit queueLimit : Nat}

theorem Sound.queued (h : c.Sound limit queueLimit) (hqueued : Queued P c c') (hP : ∀ action, P action → action.Tame) :
    c'.Sound limit queueLimit where
  commandLimit := hqueued.commandLimit.trans h.commandLimit
  queueLimit := hqueued.limit.trans h.queueLimit
  tame entry hentry := by
    rcases List.mem_append.mp hentry with hstaged | hkept
    · exact (hqueued.staged entry hstaged).elim (fun hold => h.tame entry (List.mem_append_left _ hold)) (hP _)
    · exact h.tame entry (List.mem_append_right _ (hqueued.kept.subset hkept))
  held := hqueued.held h.held
  recorded := by
    rw [hqueued.quota, hqueued.executed]
    exact h.recorded

theorem tame_of_tame : ∀ action : QueueAction T U, action.Tame → action.Tame := fun _ h => h

theorem Sound.pushNewCommands (h : c.Sound limit queueLimit) : c.pushNewCommands.Sound limit queueLimit := by
  rw [pushNewCommands_eq]
  exact ⟨h.commandLimit, h.queueLimit, h.tame, h.held, h.recorded⟩

/-- What is left to do: the quota and the actions of the queue. -/
def work (c : Context T U) : Nat × List (QueueAction T U) := (c.commandQuota, c.commandQueue.map QueueEntry.action)

theorem Sound.execute (hR : R.Advances) {entry : QueueEntry T U} {rest : List (QueueEntry T U)} (depth : Nat) (h : c.Sound limit queueLimit)
    (hstaged : c.newTopCommands = []) (hqueue : c.commandQueue = entry :: rest)
    (hquota : c.commandQuota = 0 → entry.action.runsAfterCommandLimit = true) :
    (({ c with commandQueue := rest, currentFrameDepth := depth } : Context T U).execute R entry).Sound limit queueLimit ∧
      LessWork QueueAction.Smaller
        (({ c with commandQueue := rest, currentFrameDepth := depth } : Context T U).execute R entry).pushNewCommands.work c.work := by
  have htame : entry.action.Tame := h.tame entry (by simp [entries, hqueue])
  unfold Context.execute
  dsimp only
  have hrequests := perform_requests hR c.forkLimit entry.frame.returnValueConsumer c.observed htame
  have hfree := perform_free R c.forkLimit entry.frame.returnValueConsumer c.observed entry.action
  generalize perform R c.forkLimit entry.frame.returnValueConsumer c.observed entry.action = requested at hrequests hfree
  generalize target entry.frame requested.1 = frame
  generalize hpopped : ({ c with
      commandQueue := rest
      currentFrameDepth := depth
      commandQuota := c.commandQuota - requested.1.cost
      observed := requested.2
      executed := c.executed ++ [⟨requested.1.cost, c.commandQuota, entry.action.runsAfterCommandLimit⟩]
      suspension := ({ c with commandQueue := rest, currentFrameDepth := depth } : Context T U).activated entry } : Context T U) = popped
  have hsound : popped.Sound limit queueLimit := by
    subst hpopped
    refine ⟨h.commandLimit, h.queueLimit, fun entry' hentry' => h.tame entry' ?_, ⟨?_, h.held.2⟩, ?_⟩
    · simp only [entries, hstaged, hqueue, List.nil_append] at hentry' ⊢
      exact List.mem_cons_of_mem _ hentry'
    · refine Nat.le_trans ?_ h.held.1
      simp only [entries, hstaged, hqueue, List.nil_append, List.length_cons]
      exact Nat.le_succ _
    · refine Recorded.snoc h.recorded fun hzero => ?_
      exact ⟨hquota hzero, (hfree (hquota hzero)).1⟩
  have hqueued := requests_queued R frame hrequests popped
  refine ⟨hsound.queued hqueued fun _ hchild => hchild.1, ?_⟩
  have hstaged' : popped.newTopCommands = [] := by
    rw [← hpopped]
    exact hstaged
  have hrest : popped.commandQueue = rest := by rw [← hpopped]
  have hquota' : popped.commandQuota = c.commandQuota - requested.1.cost := by rw [← hpopped]
  rw [pushNewCommands_eq]
  unfold work
  dsimp only
  rw [hqueued.quota, hquota', hqueue, List.map_cons]
  rcases Nat.eq_zero_or_pos requested.1.cost with hcost | hcost
  · rw [hcost, Nat.sub_zero, List.map_append]
    refine LessWork.of_expand ?_ (fun child hchild => ?_) _
    · rw [← hrest]
      exact hqueued.kept.map _
    · obtain ⟨entry', hentry', rfl⟩ := List.mem_map.mp hchild
      rcases hqueued.staged entry' hentry' with hold | hnew
      · rw [hstaged'] at hold
        cases hold
      · exact hnew.2 hcost
  · refine LessWork.of_budget ?_ _ _
    have hpos : c.commandQuota ≠ 0 := fun hzero => by
      have := (hfree (hquota hzero)).1
      omega
    omega

theorem Sound.turn (hR : R.Advances) (h : c.Sound limit queueLimit) (hstaged : c.newTopCommands = []) :
    (c.turn R).1.Sound limit queueLimit ∧
      ((c.turn R).2 = none → (c.turn R).1.newTopCommands = [] ∧ LessWork QueueAction.Smaller (c.turn R).1.work c.work) := by
  unfold Context.turn
  split
  · exact ⟨h, fun hnone => by cases hnone⟩
  · rename_i hquota
    split
    · exact ⟨h, fun hnone => by cases hnone⟩
    · rename_i entry rest hqueue
      have hafter : c.commandQuota = 0 → entry.action.runsAfterCommandLimit = true := by
        intro hzero
        rw [not_and, not_not, hqueue] at hquota
        exact hquota hzero
      obtain ⟨hsound, hless⟩ := h.execute hR entry.frame.depth hstaged hqueue hafter
      dsimp only
      split
      · exact ⟨hsound, fun hnone => by cases hnone⟩
      · split
        · exact ⟨hsound, fun hnone => by cases hnone⟩
        · refine ⟨hsound.pushNewCommands, fun _ => ⟨?_, hless⟩⟩
          rw [pushNewCommands_eq]

theorem runLoop_succ (fuel : Nat) (c : Context T U) : c.runLoop R (fuel + 1) = match c.turn R with
    | (c, some stop) => some (c, stop)
    | (c, none) => runLoop R fuel c := rfl

theorem runLoop_returns (hR : R.Advances) (h : c.Sound limit queueLimit) (hstaged : c.newTopCommands = []) :
    ∃ enough c' stop, (∀ fuel, enough ≤ fuel → c.runLoop R fuel = some (c', stop)) ∧ c'.Sound limit queueLimit := by
  induction hwork : c.work using (lessWork_wf QueueAction.smaller_wf).induction generalizing c with
  | _ left ih =>
    obtain ⟨hsound, hless⟩ := h.turn hR hstaged
    have hfirst := fun fuel => runLoop_succ (R := R) fuel c
    generalize c.turn R = next at hsound hless hfirst
    obtain ⟨next, stop⟩ := next
    cases stop with
    | some stop =>
      refine ⟨1, next, stop, fun fuel hfuel => ?_, hsound⟩
      obtain ⟨fuel, rfl⟩ := Nat.exists_eq_add_of_le' hfuel
      exact hfirst fuel
    | none =>
      obtain ⟨hstaged', hless⟩ := hless rfl
      rw [hwork] at hless
      obtain ⟨enough, c', stop, hruns, hsound'⟩ := ih _ hless hsound hstaged' rfl
      refine ⟨enough + 1, c', stop, fun fuel hfuel => ?_, hsound'⟩
      obtain ⟨fuel, rfl⟩ : ∃ fuel', fuel = fuel' + 1 := Nat.exists_eq_add_of_le' (by omega)
      exact (hfirst fuel).trans (hruns fuel (by omega))

/-! ## Calls of the owner -/

theorem run_returns (hR : R.Advances) (h : c.Sound limit queueLimit) :
    ∃ enough c' stop, (∀ fuel, enough ≤ fuel → c.run R fuel = some (c', stop)) ∧ c'.Sound limit queueLimit := by
  unfold run
  split
  · exact ⟨0, c, .suspended, fun _ _ => rfl, h⟩
  · split
    · exact ⟨0, c, .queueOverflow, fun _ _ => rfl, h⟩
    · have hstaged : c.pushNewCommands.newTopCommands = [] := by rw [pushNewCommands_eq]
      obtain ⟨enough, c', stop, hruns, hsound⟩ := runLoop_returns hR h.pushNewCommands hstaged
      refine ⟨enough, { c' with currentFrameDepth := 0 }, stop, fun fuel hfuel => ?_, ?_⟩
      · rw [hruns fuel hfuel]
        rfl
      · exact ⟨hsound.commandLimit, hsound.queueLimit, hsound.tame, hsound.held, hsound.recorded⟩

theorem pollSuspension_returns (hR : R.Advances) (h : c.Sound limit queueLimit) :
    ∃ enough c' stop, (∀ fuel, enough ≤ fuel → c.pollSuspension R fuel = some (c', stop)) ∧ c'.Sound limit queueLimit := by
  unfold pollSuspension
  split
  · exact run_returns hR h
  · rename_i active hactive
    dsimp only
    split
    · exact ⟨0, _, _, fun _ _ => rfl, h.commandLimit, h.queueLimit, h.tame, h.held, h.recorded⟩
    · rename_i action world hready
      have hready : ({ c with suspension := none, observed := { c.observed with world := world } } : Context T U).Sound limit queueLimit :=
        ⟨h.commandLimit, h.queueLimit, h.tame, h.held, h.recorded⟩
      exact run_returns hR (hready.queued (queueEntry_queued R _ trivial) tame_of_tame)

theorem Sound.queueInitial (h : c.Sound limit queueLimit) (entry : InitialEntry T) : (c.queueInitial R entry).Sound limit queueLimit := by
  cases entry with
  | command chain source consumer =>
    exact h.queued (queueEntry_queued R c trivial) tame_of_tame
  | functionCall entries sender consumer =>
    exact h.queued (queueEntry_queued R c trivial) tame_of_tame

theorem Sound.cancel (h : c.Sound limit queueLimit) : (c.cancel R).Sound limit queueLimit := by
  have hnone : (c.cancelSuspension R).Sound limit queueLimit := by
    unfold cancelSuspension
    split
    · exact h
    · exact ⟨h.commandLimit, h.queueLimit, h.tame, h.held, h.recorded⟩
  unfold Context.cancel
  dsimp only
  generalize c.cancelSuspension R = c at hnone
  have hdropped : Queued QueueAction.Tame c ((c.cancelCommandQueue R).cancelNewTopCommands R) :=
    (cancelCommandQueue_queued R c).trans (cancelNewTopCommands_queued R _)
  have hsound := hnone.queued hdropped fun _ htame => htame
  exact ⟨hsound.commandLimit, hsound.queueLimit, hsound.tame, hsound.held, hsound.recorded⟩

theorem call_returns (hR : R.Advances) (h : c.Sound limit queueLimit) (call : Call T) :
    ∃ c', c.Called R call c' ∧ c'.Sound limit queueLimit := by
  cases call with
  | queueInitial entry => exact ⟨_, ⟨0, fun _ _ => rfl⟩, h.queueInitial entry⟩
  | run =>
    obtain ⟨enough, c', stop, hruns, hsound⟩ := run_returns hR h
    refine ⟨c', ⟨enough, fun fuel hfuel => ?_⟩, hsound⟩
    rw [call, hruns fuel hfuel]
    rfl
  | pollSuspension =>
    obtain ⟨enough, c', stop, hruns, hsound⟩ := pollSuspension_returns hR h
    refine ⟨c', ⟨enough, fun fuel hfuel => ?_⟩, hsound⟩
    rw [call, hruns fuel hfuel]
    rfl
  | cancel => exact ⟨_, ⟨0, fun _ _ => rfl⟩, h.cancel⟩
  | world world => exact ⟨_, ⟨0, fun _ _ => rfl⟩, h.commandLimit, h.queueLimit, h.tame, h.held, h.recorded⟩

theorem Called.unique {call : Call T} (h : c.Called R call c') (h' : c.Called R call c'') : c' = c'' := by
  obtain ⟨enough, h⟩ := h
  obtain ⟨enough', h'⟩ := h'
  have heq := h (max enough enough') (le_max_left ..)
  rw [h' _ (le_max_right ..)] at heq
  exact (Option.some.inj heq).symm

theorem Sound.new (commandLimit forkLimit queueLimit : Nat) (observed : Observed T) :
    (new commandLimit forkLimit queueLimit observed : Context T U).Sound (max commandLimit 1) queueLimit where
  commandLimit := rfl
  queueLimit := rfl
  tame _ h := absurd h List.not_mem_nil
  held := ⟨Nat.zero_le _, Nat.zero_le _⟩
  recorded := .nil

end Context

/-- **Command execution is bounded.** After any calls of the owner of a queue, each further call returns, whatever the
functions and commands do. At most as many actions as the command limit were executed that called `increment_cost`,
after them only actions that are marked for it, and the queue never held more than one entry above its limit. -/
theorem command_execution_bounded {B : BuiltinTypes} (env : BuiltinEnvironment B) (commandLimit forkLimit queueLimit : Nat)
    (observed : Observed B.types) {calls : List (Context.Call B.types)} {c : Context B.types B.Suspension}
    (hrun : Run (Context.Called env.runtime) (Context.new commandLimit forkLimit queueLimit observed) calls c) :
    (∀ call, ∃ c', c.Called env.runtime call c') ∧
      c.commandLimit = max commandLimit 1 ∧ (Context.costly c.executed).length ≤ c.commandLimit ∧
      (∀ before action later, c.executed = before ++ action :: later → c.commandLimit ≤ (Context.costly before).length →
        action.runsAfterCommandLimit = true) ∧
      c.mostEntries ≤ queueLimit + 1 := by
  have hsound : c.Sound (max commandLimit 1) queueLimit := by
    refine hrun.invariant (.new commandLimit forkLimit queueLimit observed) fun c call c' hsound hcalled => ?_
    obtain ⟨c'', hcalled', hsound'⟩ := Context.call_returns env.advances hsound call
    rwa [hcalled.unique hcalled']
  refine ⟨fun call => ?_, hsound.commandLimit, ?_, fun before action later heq hlimit => ?_, ?_⟩
  · obtain ⟨c', hcalled, -⟩ := Context.call_returns env.advances hsound call
    exact ⟨c', hcalled⟩
  · have := hsound.recorded.costly_length
    rw [hsound.commandLimit]
    omega
  · rw [hsound.commandLimit] at hlimit
    exact hsound.recorded.after heq hlimit
  · have hmost := hsound.held.2
    rwa [hsound.queueLimit] at hmost

/-! ## A function that calls itself -/

def soleTypes : BuiltinTypes := ⟨Unit, Unit, Unit, Unit, Unit, Unit, Unit, Unit, Unit, Unit, Unit⟩

/-- The command that calls the only function. -/
def callSole : ContextChain soleTypes.types := ⟨[], .custom (.runFunction () none)⟩

def soleEnvironment : BuiltinEnvironment soleTypes where
  executionIsCurrent _ _ := true
  callback _ := []
  withCallback _ _ := ()
  withSuppressedOutput _ := ()
  isSilent _ := true
  handleError _ _ _ _ := ()
  forkLimitReached _ := ()
  call _ _ _ _ := ()
  modify _ _ _ := (.ok [()], ())
  execute _ _ _ := (.ok 1, ())
  suspended _ := none
  poll _ _ := (.ready (.ok 1), ())
  cancel _ _ := ()
  sendScheduled _ _ _ := ()
  sendResult _ _ _ _ := ()
  resolveFunctions _ _ _ := .ok [()]
  instantiate _ _ _ _ := .ok [callSole]
  functionInstantiationFailure _ _ := ()
  conditionInstantiationFailure _ _ := ()

def soleStart : Context soleTypes.types Unit := .new 3 8 64 ⟨⟨(), [], []⟩, []⟩

theorem sole_function_bounded :
    ∃ c, Run (Context.Called soleEnvironment.runtime) soleStart
        [.queueInitial (.command callSole () []), .run] c ∧
      (∀ call, ∃ c', c.Called soleEnvironment.runtime call c') ∧ c.commandLimit = 3 ∧ (Context.costly c.executed).length ≤ c.commandLimit ∧
      (∀ before action later, c.executed = before ++ action :: later → c.commandLimit ≤ (Context.costly before).length →
        action.runsAfterCommandLimit = true) ∧
      c.mostEntries ≤ 65 := by
  have hnew : soleStart.Sound (max 3 1) 64 := .new ..
  obtain ⟨queued, hqueued, hsound⟩ := Context.call_returns soleEnvironment.advances hnew (.queueInitial (.command callSole () []))
  obtain ⟨c, hran, -⟩ := Context.call_returns soleEnvironment.advances hsound .run
  have hrun := (Run.single hqueued).append (.single hran)
  exact ⟨c, hrun, command_execution_bounded soleEnvironment 3 8 64 _ hrun⟩

/-- Its calls use up the quota. -/
example : ((soleStart.queueInitial soleEnvironment.runtime (.command callSole () [])).run soleEnvironment.runtime 9).map
    (fun (c, stop) => (stop, (Context.costly c.executed).length, c.commandQuota, c.mostEntries)) = some (.commandLimit, 3, 0, 1) := rfl

end Foton.Suspending
