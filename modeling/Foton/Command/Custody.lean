import Foton.Command.Actions
import Foton.Lib.Run
import Mathlib.Data.List.Count
import Mathlib.Data.List.Nodup

/-!
# Every queued action is run or cancelled once

An entry is in one place at a time: it waits, it was executed, or it was
cancelled. A suspension that was activated is active, ready or cancelled.
-/

namespace Foton.ActionQueue

namespace State

variable {s s' : State}

/-- Where the entries are. -/
def places (s : State) : List Nat :=
  s.commandQueue.map CommandQueueEntry.id ++ s.newTopCommands.map CommandQueueEntry.id ++ s.executed ++ s.cancelled

/-- Where the activated suspensions are. -/
def suspensions (s : State) : List Nat :=
  s.suspension.toList.map ActiveSuspension.id ++ s.ready ++ s.cancelledSuspensions

structure Sound (s : State) : Prop where
  places : s.places.Perm (List.range s.nextEntry)
  suspensions : s.suspensions.Perm s.activated
  activated : s.activated.Sublist s.executed
  calm : s.panicked = false

theorem Sound.new (commandLimit queueLimit : Nat) : (State.new commandLimit queueLimit).Sound :=
  ⟨.refl _, .refl _, List.Sublist.refl _, rfl⟩

/-! ## Queueing and discarding -/

theorem places_cancelCommandQueue (s : State) : s.cancelCommandQueue.places.Perm s.places := by
  refine List.perm_iff_count.mpr fun id => ?_
  unfold cancelCommandQueue places
  simp only [List.map_nil, List.nil_append, List.count_append]
  omega

theorem places_cancelNewTopCommands (s : State) : s.cancelNewTopCommands.places.Perm s.places := by
  refine List.perm_iff_count.mpr fun id => ?_
  unfold cancelNewTopCommands places
  simp only [List.map_nil, List.append_nil, List.count_append]
  omega

theorem Sound.cancelCommandQueue (h : s.Sound) : s.cancelCommandQueue.Sound :=
  ⟨(places_cancelCommandQueue s).trans h.places, h.suspensions, h.activated, h.calm⟩

theorem Sound.cancelNewTopCommands (h : s.Sound) : s.cancelNewTopCommands.Sound :=
  ⟨(places_cancelNewTopCommands s).trans h.places, h.suspensions, h.activated, h.calm⟩

theorem Sound.checkOverflow (h : s.Sound) : s.checkOverflow.Sound := by
  unfold State.checkOverflow
  split
  · have hover : { s with queueOverflow := true }.Sound := ⟨h.places, h.suspensions, h.activated, h.calm⟩
    exact hover.cancelNewTopCommands.cancelCommandQueue
  · exact h

theorem Sound.queueEntry (h : s.Sound) (frame : Frame) (action : EntryAction) : (s.queueEntry frame action).Sound := by
  have hchecked := h.checkOverflow
  unfold State.queueEntry
  generalize s.checkOverflow = s at hchecked
  have hplaces := hchecked.places.append_right [s.nextEntry]
  rw [← List.range_succ] at hplaces
  dsimp only
  split
  · refine ⟨List.Perm.trans ?_ hplaces, hchecked.suspensions, hchecked.activated, hchecked.calm⟩
    unfold State.places
    rw [List.append_assoc _ s.cancelled]
  · refine ⟨List.Perm.trans (List.perm_iff_count.mpr fun id => ?_) hplaces, hchecked.suspensions, hchecked.activated,
      hchecked.calm⟩
    unfold State.places
    simp only [List.map_append, List.map_cons, List.map_nil, List.count_append]
    omega

theorem pushNewCommands_eq (s : State) :
    s.pushNewCommands = { s with commandQueue := s.newTopCommands ++ s.commandQueue, newTopCommands := [] } := by
  unfold pushNewCommands
  rw [List.foldl_reverse, List.foldr_cons_eq_append, List.map_id']

theorem Sound.pushNewCommands (h : s.Sound) : s.pushNewCommands.Sound := by
  rw [pushNewCommands_eq]
  refine ⟨List.Perm.trans (List.perm_iff_count.mpr fun id => ?_) h.places, h.suspensions, h.activated, h.calm⟩
  unfold State.places
  simp only [List.map_append, List.map_nil, List.append_nil, List.count_append]
  omega

theorem Sound.discard (h : s.Sound) (frame : Frame) : (s.discard frame).Sound := by
  unfold State.discard
  split
  · exact h.cancelCommandQueue
  · rename_i depth hdiscard
    refine ⟨List.Perm.trans (List.perm_iff_count.mpr fun id => ?_) h.places, h.suspensions, h.activated, h.calm⟩
    have hsplit := congrArg (fun l : List CommandQueueEntry => (l.map CommandQueueEntry.id).count id)
      (List.takeWhile_append_dropWhile (p := fun entry : CommandQueueEntry => depth ≤ entry.frame.depth) (l := s.commandQueue))
    unfold State.places
    simp only [List.map_append, List.count_append] at hsplit ⊢
    omega

theorem Sound.cancel (h : s.Sound) : s.cancel.Sound := by
  have hsuspension : { s with
      suspension := none
      cancelledSuspensions := s.cancelledSuspensions ++ s.suspension.toList.map ActiveSuspension.id }.Sound := by
    refine ⟨h.places, List.Perm.trans (List.perm_iff_count.mpr fun id => ?_) h.suspensions, h.activated, h.calm⟩
    unfold State.suspensions
    simp only [Option.toList_none, List.map_nil, List.nil_append, List.count_append]
    omega
  have hcancelled := hsuspension.cancelCommandQueue.cancelNewTopCommands
  exact ⟨hcancelled.places, hcancelled.suspensions, hcancelled.activated, hcancelled.calm⟩

/-! ## Running -/

/-- An entry that has been popped is executed: it may activate a suspension when none is active. -/
theorem Sound.execute (h : s.Sound) (entry : CommandQueueEntry) (action : EntryAction) (hnone : s.suspension = none)
    (hlast : s.activated.Sublist (s.executed.dropLast) ∧ entry.id ∈ s.executed.getLast?) : (s.execute entry action).Sound := by
  induction action with
  | custom runsAfterCommandLimit => exact ⟨h.places, h.suspensions, h.activated, h.calm⟩
  | suspend =>
    have hexecuted : s.executed = s.executed.dropLast ++ [entry.id] :=
      (List.dropLast_append_getLast? entry.id hlast.2).symm
    unfold State.execute
    rw [hnone]
    refine ⟨h.places, ?_, ?_, h.calm⟩
    · have hsuspensions := h.suspensions
      unfold State.suspensions at hsuspensions
      rw [hnone] at hsuspensions
      exact (hsuspensions.cons entry.id).trans (List.perm_append_singleton entry.id s.activated).symm
    · dsimp only [State.stop]
      rw [hexecuted]
      exact hlast.1.append_right [entry.id]
  | resume action ih => exact ih

theorem Sound.turn (h : s.Sound) (hnone : s.suspension = none) : s.turn.Sound := by
  unfold State.turn
  split
  · exact ⟨h.places, h.suspensions, h.activated, h.calm⟩
  · split
    · exact ⟨h.places, h.suspensions, h.activated, h.calm⟩
    · rename_i entry rest hqueue
      have hpopped : { s with
          commandQueue := rest
          currentFrameDepth := entry.frame.depth
          executed := s.executed ++ [entry.id] }.Sound := by
        refine ⟨List.Perm.trans (List.perm_iff_count.mpr fun id => ?_) h.places, h.suspensions,
          h.activated.trans (List.sublist_append_left _ _), h.calm⟩
        unfold State.places
        rw [hqueue]
        simp only [List.map_cons, List.cons_append, List.count_append, List.count_cons, List.count_nil]
        omega
      refine hpopped.execute entry entry.action hnone ⟨?_, ?_⟩
      · rw [List.dropLast_concat]
        exact h.activated
      · rw [List.getLast?_concat]
        rfl

theorem Sound.run (h : s.Sound) : s.run.Sound := by
  unfold State.run
  split
  · exact ⟨h.places, h.suspensions, h.activated, h.calm⟩
  · rename_i hnone
    split
    · exact ⟨h.places, h.suspensions, h.activated, h.calm⟩
    · refine h.pushNewCommands.turn ?_
      rw [pushNewCommands_eq]
      exact Option.not_isSome_iff_eq_none.mp hnone

theorem Sound.returnAction (h : s.Sound) : s.returnAction.Sound := by
  have hpopped : { s with executing := s.executing.tail }.Sound := ⟨h.places, h.suspensions, h.activated, h.calm⟩
  unfold State.returnAction
  dsimp only
  split
  · exact ⟨h.places, h.suspensions, h.activated, h.calm⟩
  · rename_i hgoes
    refine hpopped.pushNewCommands.turn ?_
    rw [pushNewCommands_eq]
    unfold State.stops at hgoes
    split at hgoes
    · cases hgoes
    · split at hgoes
      · cases hgoes
      · rename_i hnone
        exact Option.not_isSome_iff_eq_none.mp hnone

theorem Sound.pollSuspension (h : s.Sound) (poll : CommandSuspensionPoll) : (s.pollSuspension poll).Sound := by
  unfold State.pollSuspension
  split
  · exact h.run
  · rename_i active hactive
    cases poll with
    | pending => exact ⟨h.places, h.suspensions, h.activated, h.calm⟩
    | ready action =>
      have hready : { s with suspension := none, ready := s.ready ++ [active.id] }.Sound := by
        refine ⟨h.places, List.Perm.trans (List.perm_iff_count.mpr fun id => ?_) h.suspensions, h.activated, h.calm⟩
        unfold State.suspensions
        rw [hactive]
        simp only [Option.toList_none, Option.toList_some, List.map_nil, List.map_cons, List.nil_append, List.cons_append,
          List.count_append, List.count_cons, List.count_nil]
        omega
      exact (hready.queueEntry active.frame (.resume action)).run

theorem Sound.step (h : s.Sound) {op : Op} (hstep : Step s op s') : s'.Sound := by
  unfold Step exec at hstep
  split at hstep
  · cases hstep
  · cases op with
    | queueInitial runsAfterCommandLimit =>
      cases hstep
      exact h.queueEntry _ _
    | queueNext frame action =>
      cases hstep
      exact h.queueEntry frame action
    | discard frame =>
      cases hstep
      exact h.discard frame
    | incrementCost =>
      cases hstep
      exact ⟨h.places, h.suspensions, h.activated, h.calm⟩
    | run =>
      cases hstep
      exact h.run
    | pollSuspension poll =>
      cases hstep
      exact h.pollSuspension poll
    | cancel =>
      cases hstep
      exact h.cancel
    | returnAction =>
      dsimp only at hstep
      split at hstep
      · cases hstep
      · cases hstep
        exact h.returnAction
    | drop =>
      dsimp only at hstep
      split at hstep
      · cases hstep
        exact ⟨h.cancel.places, h.cancel.suspensions, h.cancel.activated, h.cancel.calm⟩
      · cases hstep

theorem Sound.count_places (h : s.Sound) (id : Nat) : s.places.count id = if id < s.nextEntry then 1 else 0 := by
  rw [h.places.count_eq id, List.count_range]

theorem Sound.once (h : s.Sound) (id : Nat) : s.executed.count id + s.cancelled.count id ≤ 1 := by
  have hcount := h.count_places id
  unfold State.places at hcount
  simp only [List.count_append] at hcount
  split at hcount
  all_goals omega

theorem Sound.suspension_once (h : s.Sound) (id : Nat) : s.suspensions.count id = if id ∈ s.activated then 1 else 0 := by
  rw [h.suspensions.count_eq id]
  split
  · rename_i hmem
    have hle := Nat.le_trans (h.activated.count_le id) (Nat.le_trans (Nat.le_add_right _ _) (h.once id))
    have hpos := List.count_pos_iff.mpr hmem
    omega
  · rename_i hmem
    exact List.count_eq_zero.mpr hmem

end State

/-- However actions use the queue that executes them, and whatever its limits: no action finds a suspension active when it
suspends, no entry is executed or cancelled twice, and when the queue is dropped every entry was executed or
cancelled and every suspension that was activated got ready or was cancelled, each once. -/
theorem every_entry_once (commandLimit queueLimit : Nat) {ops : List State.Op} {s : State}
    (hrun : Run State.Step (State.new commandLimit queueLimit) ops s) :
    s.panicked = false ∧ (∀ id, s.executed.count id + s.cancelled.count id ≤ 1) ∧
      (∀ id, s.ready.count id + s.cancelledSuspensions.count id ≤ 1) ∧
      ∀ s', State.Step s .drop s' →
        (∀ id, s'.executed.count id + s'.cancelled.count id = if id < s'.nextEntry then 1 else 0) ∧
        ∀ id ∈ s'.activated, s'.ready.count id + s'.cancelledSuspensions.count id = 1 ∧ id ∉ s'.cancelled := by
  have hsound : s.Sound := hrun.invariant (State.Sound.new commandLimit queueLimit) fun _ _ _ hs hstep => hs.step hstep
  refine ⟨hsound.calm, hsound.once, fun id => ?_, fun s' hdrop => ?_⟩
  · have hcount := hsound.suspension_once id
    unfold State.suspensions at hcount
    simp only [List.count_append] at hcount
    split at hcount
    all_goals omega
  · have hsound' := hsound.step hdrop
    have hempty : s'.commandQueue = [] ∧ s'.newTopCommands = [] ∧ s'.suspension = none := by
      unfold State.Step State.exec at hdrop
      split at hdrop
      · cases hdrop
      · dsimp only at hdrop
        split at hdrop
        · cases hdrop
          exact ⟨rfl, rfl, rfl⟩
        · cases hdrop
    obtain ⟨hqueue, hstaged, hnone⟩ := hempty
    constructor
    · intro id
      have hcount := hsound'.count_places id
      unfold State.places at hcount
      simpa [hqueue, hstaged, List.count_append] using hcount
    · intro id hid
      have hcount := hsound'.suspension_once id
      unfold State.suspensions at hcount
      rw [if_pos hid, hnone] at hcount
      refine ⟨by simpa [List.count_append] using hcount, fun hcancelled => ?_⟩
      have honce := hsound'.once id
      have hexecuted := List.count_pos_iff.mpr (hsound'.activated.subset hid)
      have htwice := List.count_pos_iff.mpr hcancelled
      omega

/-- An action queues a suspension, runs the queue it is executed by, and the suspension gets ready after that. -/
theorem reentrant_suspension_once : ∃ s, Run State.Step (State.new 1 8) [.queueInitial false, .run, .queueNext ⟨0, .all⟩ .suspend,
      .queueNext ⟨0, .all⟩ (.custom false), .run, .returnAction, .pollSuspension (.ready (.custom false)), .returnAction] s ∧
    s.executed = [0, 1, 3, 2] ∧ s.ready = [1] ∧ s.panicked = false := by
  have hrun : ([.queueInitial false, .run, .queueNext ⟨0, .all⟩ .suspend, .queueNext ⟨0, .all⟩ (.custom false), .run,
      .returnAction, .pollSuspension (.ready (.custom false)), .returnAction].foldlM State.exec (State.new 1 8)).map
        (fun s => (s.executed, s.ready)) = some ([0, 1, 3, 2], [1]) := by decide +kernel
  obtain ⟨s, hs, hend⟩ := Option.map_eq_some_iff.mp hrun
  simp only [Prod.mk.injEq] at hend
  have hrun : Run State.Step (State.new 1 8) _ s := .of_foldlM (fun _ _ _ hgo => hgo) hs
  exact ⟨s, hrun, hend.1, hend.2, (every_entry_once 1 8 hrun).1⟩

end Foton.ActionQueue
