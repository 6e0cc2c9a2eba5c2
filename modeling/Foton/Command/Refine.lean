import Foton.Command.Queue

/-!
# The queue refines the recursive interpreter

In front of what lies further back, the queue holds the rest of the live frames,
the innermost first, and each depth belongs to one of them. Leaving frames is
dropping the front of the queue down to a depth.
-/

namespace Foton

open CommandExecutionContext

variable {T : CommandTypes} {R : CommandRuntime T} {forkLimit : Nat}

/-! ## Dropping by depth -/

/-- The queue without the entries in front that are at the depth or deeper. -/
def dropTo (depth : Nat) (queue : List (CommandQueueEntry T)) : List (CommandQueueEntry T) :=
  queue.dropWhile fun entry => depth ≤ entry.frame.depth

/-- No entry is deeper. -/
def Within (depth : Nat) (queue : List (CommandQueueEntry T)) : Prop := ∀ entry ∈ queue, entry.frame.depth ≤ depth

section
variable {depth depth' : Nat} {queue rest : List (CommandQueueEntry T)} {frame : CommandFrame T}

theorem Within.dropTo (h : Within depth queue) (depth' : Nat) : Within depth (dropTo depth' queue) := fun entry he =>
  h entry ((List.dropWhile_sublist _).mem he)

theorem dropTo_of_within (h : Within depth queue) (hlt : depth < depth') : dropTo depth' queue = queue := by
  cases queue with
  | nil => rfl
  | cons entry queue =>
    have hentry := h entry List.mem_cons_self
    exact List.dropWhile_cons_of_neg (by simp; omega)

theorem dropTo_dropTo (depth depth' : Nat) (queue : List (CommandQueueEntry T)) :
    dropTo depth (dropTo depth' queue) = dropTo (min depth depth') queue := by
  induction queue with
  | nil => rfl
  | cons entry queue ih =>
    simp only [dropTo, List.dropWhile_cons] at ih ⊢
    by_cases hin : depth' ≤ entry.frame.depth
    · have hmin : min depth depth' ≤ entry.frame.depth := by omega
      simp only [hin, hmin, decide_true, if_true]
      exact ih
    · by_cases hin' : depth ≤ entry.frame.depth
      · have hmin : min depth depth' = depth := by omega
        simp [hin, hmin, List.dropWhile_cons]
      · have hmin : ¬ min depth depth' ≤ entry.frame.depth := by omega
        simp [hin, hin', hmin]

theorem dropTo_frame (hle : depth ≤ frame.depth) (actions : List (EntryAction T)) :
    dropTo depth (actions.map (CommandQueueEntry.mk frame) ++ rest) = dropTo depth rest := by
  induction actions with
  | nil => rfl
  | cons action actions ih =>
    rw [List.map_cons, List.cons_append, dropTo, List.dropWhile_cons_of_pos (by simpa using hle)]
    exact ih

theorem dropTo_zero (queue : List (CommandQueueEntry T)) : dropTo 0 queue = [] := by
  induction queue with
  | nil => rfl
  | cons entry queue ih => simpa [dropTo] using ih

end

/-! ## Frames -/

/-- The depth that a return in the frame drops to. -/
def CommandFrame.threshold (frame : CommandFrame T) : Nat :=
  match frame.discard with
  | .all => 0
  | .atOrAbove depth => depth

/-- The frame of the queue and the one of the interpreter are the same. -/
structure Matches (frame : CommandFrame T) (live : CallFrame T) : Prop where
  consumer : frame.returnValueConsumer = live.consumer
  threshold : frame.threshold ≤ frame.depth
  leaves : live.leaves = frame.depth + 1 - frame.threshold

section
variable {frame : CommandFrame T} {live : CallFrame T}

theorem Matches.nested (h : Matches frame live) (consumer : CommandResultCallback T) (returnParentFrame : Bool) :
    Matches (frame.nested consumer returnParentFrame) (live.enter consumer returnParentFrame) := by
  have hthreshold := h.threshold
  have hleaves := h.leaves
  cases returnParentFrame with
  | false => exact ⟨rfl, Nat.le_refl _, by simp [CallFrame.enter, CommandFrame.nested, CommandFrame.threshold]⟩
  | true =>
    have hsame : (frame.nested consumer true).threshold = frame.threshold := rfl
    refine ⟨rfl, ?_, ?_⟩
    · rw [hsame]
      exact Nat.le_succ_of_le hthreshold
    · rw [hsame]
      simp only [CallFrame.enter, CommandFrame.nested, if_true]
      omega

theorem discard_commandQueue (c : CommandExecutionContext T) (frame : CommandFrame T) :
    c.discard frame = { c with commandQueue := dropTo frame.threshold c.commandQueue } := by
  unfold CommandExecutionContext.discard CommandFrame.threshold
  cases frame.discard with
  | all => simp [dropTo_zero]
  | atOrAbove depth => rfl

/-- Leaving `left` frames after an action that may have left its own. -/
theorem dropTo_left (h : Matches frame live) (left : Nat) (scheduled : Scheduled T)
    (rest : List (CommandQueueEntry T)) :
    dropTo (frame.depth + 1 - left)
        (if scheduled.ops.any QueueOp.isDiscard then dropTo frame.threshold rest else rest) =
      dropTo (frame.depth + 1 - max left (scheduled.left live)) rest := by
  have hthreshold := h.threshold
  have hleaves := h.leaves
  unfold Scheduled.left
  by_cases hdiscard : scheduled.ops.any QueueOp.isDiscard = true
  · simp only [hdiscard, if_true]
    rw [dropTo_dropTo]
    congr 1
    omega
  · simp [hdiscard]

end

/-! ## One action -/

/-- The context between two actions. -/
structure At (forkLimit : Nat) (c : CommandExecutionContext T) (queue : List (CommandQueueEntry T)) (o : Observed T) :
    Prop where
  forkLimit : c.forkLimit = forkLimit
  staged : c.newTopCommands = []
  noOverflow : c.queueOverflow = false
  queue : c.commandQueue = queue
  observed : c.observed = o

theorem queueEntry_overflow {c : CommandExecutionContext T} (h : c.queueOverflow = true)
    (entry : CommandQueueEntry T) : (c.queueEntry entry).queueOverflow = true := by
  unfold queueEntry
  dsimp only
  split <;> simp [h]

theorem queueEntry_cases {c : CommandExecutionContext T} (h : c.queueOverflow = false) (entry : CommandQueueEntry T) :
    (c.queueEntry entry).queueOverflow = true ∨
      c.queueEntry entry = { c with newTopCommands := c.newTopCommands ++ [entry] } := by
  unfold queueEntry
  dsimp only
  split
  · exact Or.inl (by simp)
  · exact Or.inr (by simp [h])

theorem requests_overflow {c : CommandExecutionContext T} (frame : CommandFrame T) (ops : List (QueueOp T))
    (h : c.queueOverflow = true) : (ops.foldl (request frame) c).queueOverflow = true := by
  induction ops generalizing c with
  | nil => exact h
  | cons op ops ih =>
    refine ih ?_
    cases op with
    | queueNext action => exact queueEntry_overflow h _
    | discard =>
      simp only [request, discard_commandQueue]
      exact h

/-- The requests of an action stage its children and drop the rest of a frame that is left. -/
theorem requests_ok {c : CommandExecutionContext T} (frame : CommandFrame T) (ops : List (QueueOp T))
    (h : c.queueOverflow = false) : (ops.foldl (request frame) c).queueOverflow = true ∨
      ops.foldl (request frame) c = { c with
        newTopCommands := c.newTopCommands ++ (ops.filterMap QueueOp.queued).map (CommandQueueEntry.mk frame)
        commandQueue := if ops.any QueueOp.isDiscard then dropTo frame.threshold c.commandQueue
          else c.commandQueue } := by
  induction ops generalizing c with
  | nil => exact Or.inr (by simp)
  | cons op ops ih =>
    cases op with
    | queueNext action =>
      rcases queueEntry_cases h ⟨frame, action⟩ with hover | hqueue
      · exact Or.inl (requests_overflow frame ops hover)
      · rcases ih (c := c.queueEntry ⟨frame, action⟩) (by rw [hqueue]; exact h) with hover | hops
        · exact Or.inl hover
        · refine Or.inr (hops.trans ?_)
          rw [hqueue]
          simp [QueueOp.queued, QueueOp.isDiscard]
    | discard =>
      have hdiscard := discard_commandQueue c frame
      rcases ih (c := c.discard frame) (by rw [hdiscard]; exact h) with hover | hops
      · exact Or.inl hover
      · refine Or.inr (hops.trans ?_)
        rw [hdiscard]
        have hqueued : (QueueOp.discard :: ops).filterMap QueueOp.queued = ops.filterMap QueueOp.queued := rfl
        by_cases hany : ops.any QueueOp.isDiscard = true
        · simp only [hqueued, hany, List.any_cons, QueueOp.isDiscard, Bool.or_true, if_true, dropTo_dropTo,
            Nat.min_self]
        · simp only [hqueued, hany, List.any_cons, QueueOp.isDiscard, Bool.true_or, if_true, Bool.false_eq_true,
            if_false]

theorem foldl_cons (commands queue : List (CommandQueueEntry T)) :
    commands.reverse.foldl (fun queue command => command :: queue) queue = commands ++ queue := by
  rw [List.foldl_reverse]
  induction commands with
  | nil => rfl
  | cons command commands ih => simp [ih]

/-- The loop stops for a limit. -/
def StopsAtLimit (R : CommandRuntime T) (c : CommandExecutionContext T) : Prop :=
  ∃ stop c', stop ≠ .completed ∧ ∃ k, ∀ fuel, c.runLoop R (fuel + k) = some (stop, c')

/-- After `k` actions the loop is at `c'`. -/
def Runs (R : CommandRuntime T) (k : Nat) (c c' : CommandExecutionContext T) : Prop :=
  ∀ fuel, c.runLoop R (fuel + k) = c'.runLoop R fuel

/-- The queue after an action of `frame`. -/
def queueAfter (frame : CommandFrame T) (scheduled : Scheduled T) (rest : List (CommandQueueEntry T)) :
    List (CommandQueueEntry T) :=
  scheduled.children.map (CommandQueueEntry.mk (target frame scheduled)) ++
    if scheduled.ops.any QueueOp.isDiscard then dropTo (target frame scheduled).threshold rest else rest

/-- **One action** of the queue. -/
theorem run_action {c : CommandExecutionContext T} {frame : CommandFrame T} {action : EntryAction T}
    {rest : List (CommandQueueEntry T)} {o o' : Observed T} {scheduled : Scheduled T}
    (hc : At forkLimit c (⟨frame, action⟩ :: rest) o)
    (hperform : action.perform R forkLimit frame.returnValueConsumer o = (scheduled, o')) :
    StopsAtLimit R c ∨ ∃ c', At forkLimit c' (queueAfter frame scheduled rest) o' ∧ Runs R 1 c c' := by
  obtain ⟨forks, queueLimit, quota, overflow, queue, staged, depth, seen⟩ := c
  obtain ⟨rfl, rfl, rfl, rfl, rfl⟩ := hc
  dsimp only at hperform
  by_cases hquota : quota = 0
  · exact Or.inl ⟨.commandLimit, _, by decide, 1, fun fuel => if_pos hquota⟩
  · -- the context while the action makes its requests
    let acting : CommandExecutionContext T :=
      ⟨forks, queueLimit, quota - scheduled.cost, false, rest, [], frame.depth, o'⟩
    have hloop : ∀ fuel,
        runLoop R (fuel + 1) ⟨forks, queueLimit, quota, false, ⟨frame, action⟩ :: rest, [], depth, seen⟩ =
          let c := scheduled.ops.foldl (request (target frame scheduled)) acting
          if c.queueOverflow then some (.queueOverflow, c) else c.pushNewCommands.runLoop R fuel := fun fuel => by
      simp only [runLoop, hquota, if_false, CommandExecutionContext.execute, hperform]
      rfl
    rcases requests_ok (c := acting) (target frame scheduled) scheduled.ops rfl with hover | hops
    · exact Or.inl ⟨.queueOverflow, _, by decide, 1, fun fuel => (hloop fuel).trans (if_pos hover)⟩
    · rw [hops] at hloop
      refine Or.inr ⟨_, ?_, hloop⟩
      refine ⟨rfl, rfl, rfl, ?_, rfl⟩
      simp only [pushNewCommands, foldl_cons, acting, List.nil_append]
      rfl

/-! ## Runs of the loop -/

section
variable {c c' c'' : CommandExecutionContext T} {k k' : Nat}

theorem Runs.refl (c : CommandExecutionContext T) : Runs R 0 c c := fun _ => rfl

theorem Runs.trans (h : Runs R k c c') (h' : Runs R k' c' c'') : Runs R (k' + k) c c'' := fun fuel => by
  rw [← Nat.add_assoc, h, h']

theorem StopsAtLimit.before (h : StopsAtLimit R c') (hruns : Runs R k c c') : StopsAtLimit R c := by
  obtain ⟨stop, d, hstop, j, hj⟩ := h
  refine ⟨stop, d, hstop, j + k, fun fuel => ?_⟩
  rw [← Nat.add_assoc, hruns, hj]

theorem runLoop_add {fuel : Nat} {r : ExecutionStop × CommandExecutionContext T} (h : c.runLoop R fuel = some r)
    (extra : Nat) : c.runLoop R (fuel + extra) = some r := by
  induction fuel generalizing c with
  | zero => simp [runLoop] at h
  | succ fuel ih =>
    rw [Nat.add_right_comm]
    unfold runLoop at h ⊢
    split
    · simp_all
    · rename_i hquota
      rw [if_neg hquota] at h
      cases hqueue : c.commandQueue with
      | nil => simpa [hqueue] using h
      | cons entry rest =>
        simp only [hqueue] at h ⊢
        split
        · simp_all
        · rename_i hover
          rw [if_neg hover] at h
          exact ih h

theorem StopsAtLimit.not_completed (h : StopsAtLimit R c) {fuel : Nat} : c.runLoop R fuel ≠ some (.completed, c') := by
  intro hcompleted
  obtain ⟨stop, d, hstop, k, hk⟩ := h
  have hsame := (hk fuel).symm.trans (runLoop_add hcompleted k)
  cases hsame
  exact hstop rfl

end

/-! ## The interpreter's nesting -/

theorem interpretAll_mono {step step' : EntryAction T → Observed T → Option (Nat × Observed T)}
    (hstep : ∀ action o r, step action o = some r → step' action o = some r) {actions : List (EntryAction T)}
    {o : Observed T} {r : Nat × Observed T} (h : interpretAll step actions o = some r) :
    interpretAll step' actions o = some r := by
  induction actions generalizing o with
  | nil => exact h
  | cons action actions ih =>
    unfold interpretAll at h ⊢
    cases haction : step action o with
    | none => simp [haction] at h
    | some first =>
      obtain ⟨left, o'⟩ := first
      rw [haction] at h
      rw [hstep _ _ _ haction]
      cases left with
      | zero => exact ih h
      | succ left => exact h

theorem interpret_succ {fuel : Nat} {frame : CallFrame T} {action : EntryAction T} {o : Observed T}
    {r : Nat × Observed T} (h : interpret R forkLimit fuel frame action o = some r) :
    interpret R forkLimit (fuel + 1) frame action o = some r := by
  induction fuel generalizing frame action o r with
  | zero => simp [interpret] at h
  | succ fuel ih =>
    rw [interpret] at h ⊢
    dsimp only at h ⊢
    split at h
    · obtain ⟨first, hfirst, rfl⟩ := Option.map_eq_some_iff.mp h
      exact Option.map_eq_some_iff.mpr ⟨first, interpretAll_mono (fun _ _ _ => ih) hfirst, rfl⟩
    · obtain ⟨first, hfirst, rfl⟩ := Option.map_eq_some_iff.mp h
      exact Option.map_eq_some_iff.mpr ⟨first, interpretAll_mono (fun _ _ _ => ih) hfirst, rfl⟩

theorem interpret_mono {fuel fuel' : Nat} (hle : fuel ≤ fuel') {frame : CallFrame T} {action : EntryAction T}
    {o : Observed T} {r : Nat × Observed T} (h : interpret R forkLimit fuel frame action o = some r) :
    interpret R forkLimit fuel' frame action o = some r := by
  induction hle with
  | refl => exact h
  | step _ ih => exact interpret_succ ih

theorem interpretTop_mono {nesting nesting' : Nat} (hle : nesting ≤ nesting') {initial : List (InitialEntry T)}
    {o o' : Observed T} (h : interpretTop R forkLimit nesting initial o = some o') :
    interpretTop R forkLimit nesting' initial o = some o' := by
  induction initial generalizing o with
  | nil => exact h
  | cons first initial ih =>
    unfold interpretTop at h ⊢
    cases hfirst : interpret R forkLimit nesting (first.top R).1 (first.top R).2 o with
    | none => simp [hfirst] at h
    | some r =>
      obtain ⟨gone, o₁⟩ := r
      rw [hfirst] at h
      rw [interpret_mono hle hfirst]
      cases gone with
      | zero => exact ih h
      | succ gone => exact h

/-! ## The frame of the children -/

namespace Scheduled

/-- The live frame that the requests are for. -/
def live (s : Scheduled T) (frame : CallFrame T) : CallFrame T :=
  match s.frame with
  | none => frame
  | some (consumer, returnParentFrame) => frame.enter consumer returnParentFrame

/-- The frames left, seen from the frame of the action. -/
def outer (s : Scheduled T) (left : Nat) : Nat :=
  match s.frame with
  | none => left
  | some _ => left - 1

end Scheduled

theorem interpret_step (fuel : Nat) (frame : CallFrame T) (action : EntryAction T) (o : Observed T) :
    interpret R forkLimit (fuel + 1) frame action o =
      let (scheduled, o) := action.perform R forkLimit frame.consumer o
      (interpretAll (interpret R forkLimit fuel (scheduled.live frame)) scheduled.children o).map fun (left, o) =>
        (scheduled.outer (max left (scheduled.left (scheduled.live frame))), o) := by
  rw [interpret]
  obtain ⟨⟨cost, nested, ops⟩, o⟩ := action.perform R forkLimit frame.consumer o
  cases nested <;> rfl

section
variable {frame : CommandFrame T} {live : CallFrame T}

theorem target_matches (h : Matches frame live) (scheduled : Scheduled T) :
    Matches (target frame scheduled) (scheduled.live live) := by
  obtain ⟨cost, nested, ops⟩ := scheduled
  cases nested with
  | none => exact h
  | some nested => exact h.nested _ _

theorem depth_target (frame : CommandFrame T) (scheduled : Scheduled T) :
    frame.depth ≤ (target frame scheduled).depth := by
  obtain ⟨cost, nested, ops⟩ := scheduled
  cases nested with
  | none => exact Nat.le_refl _
  | some nested => exact Nat.le_succ _

theorem within_after {rest : List (CommandQueueEntry T)} (h : Within frame.depth rest) (scheduled : Scheduled T) :
    Within (target frame scheduled).depth
      (if scheduled.ops.any QueueOp.isDiscard then dropTo (target frame scheduled).threshold rest else rest) := by
  have hdeep : Within (target frame scheduled).depth rest := fun entry hentry =>
    Nat.le_trans (h entry hentry) (depth_target frame scheduled)
  split
  · exact hdeep.dropTo _
  · exact hdeep

theorem dropTo_outer (h : Matches frame live) {rest : List (CommandQueueEntry T)} (hwithin : Within frame.depth rest)
    (scheduled : Scheduled T) (left : Nat) :
    dropTo ((target frame scheduled).depth + 1 - left)
        (if scheduled.ops.any QueueOp.isDiscard then dropTo (target frame scheduled).threshold rest else rest) =
      dropTo (frame.depth + 1 - scheduled.outer (max left (scheduled.left (scheduled.live live)))) rest := by
  rw [dropTo_left (target_matches h scheduled)]
  generalize max left (scheduled.left (scheduled.live live)) = gone
  obtain ⟨cost, nested, ops⟩ := scheduled
  cases nested with
  | none => rfl
  | some nested =>
    cases gone with
    | zero =>
      have hnested : frame.depth < (target frame ⟨cost, some nested, ops⟩).depth + 1 - 0 := by
        simp only [target, CommandFrame.nested]
        omega
      have houter : frame.depth < frame.depth + 1 - Scheduled.outer ⟨cost, some nested, ops⟩ 0 := by
        simp [Scheduled.outer]
      rw [dropTo_of_within hwithin hnested, dropTo_of_within hwithin houter]
    | succ gone =>
      congr 1
      simp [target, CommandFrame.nested, Scheduled.outer]

end

/-! ## From the interpreter to the queue -/

/-- The loop gets from an entry to what lies behind it, less the frames that are left. -/
def Follows (R : CommandRuntime T) (forkLimit : Nat) (frame : CommandFrame T)
    (step : EntryAction T → Observed T → Option (Nat × Observed T)) (actions : List (EntryAction T)) : Prop :=
  ∀ rest o left o' c, Within frame.depth rest →
    At forkLimit c (actions.map (CommandQueueEntry.mk frame) ++ rest) o → interpretAll step actions o = some (left, o') →
    StopsAtLimit R c ∨ ∃ c' k, At forkLimit c' (dropTo (frame.depth + 1 - left) rest) o' ∧ Runs R k c c'

section
variable {frame : CommandFrame T} {live : CallFrame T} {step : EntryAction T → Observed T → Option (Nat × Observed T)}

theorem interpretAll_singleton (action : EntryAction T) (o : Observed T) :
    interpretAll step [action] o = step action o := by
  unfold interpretAll
  cases step action o with
  | none => rfl
  | some r =>
    obtain ⟨left, o'⟩ := r
    cases left <;> rfl

theorem within_frame {rest : List (CommandQueueEntry T)} (h : Within frame.depth rest)
    (actions : List (EntryAction T)) : Within frame.depth (actions.map (CommandQueueEntry.mk frame) ++ rest) := by
  intro entry hentry
  rcases List.mem_append.mp hentry with hmem | hmem
  · obtain ⟨action, -, rfl⟩ := List.mem_map.mp hmem
    exact Nat.le_refl _
  · exact h entry hmem

theorem follows_all (hstep : ∀ action, Follows R forkLimit frame step [action]) :
    ∀ actions, Follows R forkLimit frame step actions
  | [], rest, o, left, o', c, hwithin, hc, hrun => by
    cases hrun
    refine Or.inr ⟨c, 0, ?_, Runs.refl c⟩
    rw [dropTo_of_within hwithin (by omega)]
    exact hc
  | action :: actions, rest, o, left, o', c, hwithin, hc, hrun => by
    unfold interpretAll at hrun
    cases hfirst : step action o with
    | none => simp [hfirst] at hrun
    | some first =>
      obtain ⟨gone, o₁⟩ := first
      rw [hfirst] at hrun
      rcases hstep action _ o gone o₁ c (within_frame hwithin actions) hc
        (by rw [interpretAll_singleton, hfirst]) with hstop | ⟨c₁, k, hc₁, hruns⟩
      · exact Or.inl hstop
      · cases gone with
        | zero =>
          rw [dropTo_of_within (within_frame hwithin actions) (by omega)] at hc₁
          rcases follows_all hstep actions rest o₁ left o' c₁ hwithin hc₁ hrun with hstop | ⟨c₂, k', hc₂, hruns'⟩
          · exact Or.inl (hstop.before hruns)
          · exact Or.inr ⟨c₂, k' + k, hc₂, hruns.trans hruns'⟩
        | succ gone =>
          cases hrun
          rw [dropTo_frame (by omega)] at hc₁
          exact Or.inr ⟨c₁, k, hc₁, hruns⟩

end

/-- **The queue follows the interpreter.** -/
theorem interpret_follows (fuel : Nat) {frame : CommandFrame T} {live : CallFrame T} (hmatch : Matches frame live)
    (action : EntryAction T) : Follows R forkLimit frame (interpret R forkLimit fuel live) [action] := by
  induction fuel generalizing frame live action with
  | zero =>
    intro rest o left o' c _ _ hrun
    rw [interpretAll_singleton] at hrun
    simp [interpret] at hrun
  | succ fuel ih =>
    intro rest o left o' c hwithin hc hrun
    rw [interpretAll_singleton, interpret_step] at hrun
    cases hperform : action.perform R forkLimit live.consumer o with
    | mk scheduled o₁ =>
      rw [hperform] at hrun
      obtain ⟨⟨gone, o₂⟩, hall, heq⟩ := Option.map_eq_some_iff.mp hrun
      cases heq
      rw [← hmatch.consumer] at hperform
      rcases run_action hc hperform with hstop | ⟨c₁, hc₁, hruns₁⟩
      · exact Or.inl hstop
      · have htarget := target_matches hmatch scheduled
        rcases follows_all (fun action => ih htarget action) _ _ _ _ _ _ (within_after hwithin scheduled) hc₁ hall with
          hstop | ⟨c₂, k, hc₂, hruns₂⟩
        · exact Or.inl (hstop.before hruns₁)
        · rw [dropTo_outer hmatch hwithin] at hc₂
          exact Or.inr ⟨c₂, _, hc₂, hruns₁.trans hruns₂⟩

/-! ## From the queue to the interpreter -/

/-- A loop that completes gets from an entry to what lies behind it as the interpreter does. -/
def Precedes (R : CommandRuntime T) (forkLimit : Nat) (frame : CommandFrame T) (live : CallFrame T) (fuel : Nat)
    (actions : List (EntryAction T)) : Prop :=
  ∀ rest o c d, Within frame.depth rest → At forkLimit c (actions.map (CommandQueueEntry.mk frame) ++ rest) o →
    c.runLoop R fuel = some (.completed, d) →
    ∃ nesting left o' c' fuel', interpretAll (interpret R forkLimit nesting live) actions o = some (left, o') ∧
      At forkLimit c' (dropTo (frame.depth + 1 - left) rest) o' ∧ fuel' ≤ fuel ∧
      c'.runLoop R fuel' = some (.completed, d)

theorem precedes_all {frame : CommandFrame T} {live : CallFrame T} {fuel : Nat}
    (hone : ∀ fuel' ≤ fuel, ∀ action, Precedes R forkLimit frame live fuel' [action]) :
    ∀ fuel' ≤ fuel, ∀ actions, Precedes R forkLimit frame live fuel' actions
  | fuel', hle, [], rest, o, c, d, hwithin, hc, hrun => by
    refine ⟨0, 0, o, c, fuel', rfl, ?_, Nat.le_refl _, hrun⟩
    rw [dropTo_of_within hwithin (by omega)]
    exact hc
  | fuel', hle, action :: actions, rest, o, c, d, hwithin, hc, hrun => by
    obtain ⟨nesting, gone, o₁, c₁, fuel₁, hfirst, hc₁, hfuel₁, hrun₁⟩ :=
      hone fuel' hle action _ o c d (within_frame hwithin actions) hc hrun
    rw [interpretAll_singleton] at hfirst
    cases gone with
    | zero =>
      rw [dropTo_of_within (within_frame hwithin actions) (by omega)] at hc₁
      obtain ⟨nesting', left, o', c', fuel₂, hall, hc', hfuel₂, hrun'⟩ :=
        precedes_all hone fuel₁ (by omega) actions rest o₁ c₁ d hwithin hc₁ hrun₁
      refine ⟨max nesting nesting', left, o', c', fuel₂, ?_, hc', by omega, hrun'⟩
      unfold interpretAll
      rw [interpret_mono (Nat.le_max_left _ _) hfirst]
      exact interpretAll_mono (fun _ _ _ => interpret_mono (Nat.le_max_right _ _)) hall
    | succ gone =>
      rw [dropTo_frame (by omega)] at hc₁
      refine ⟨nesting, gone + 1, o₁, c₁, fuel₁, ?_, hc₁, hfuel₁, hrun₁⟩
      unfold interpretAll
      rw [hfirst]

/-- **The interpreter precedes the queue**: where the loop completes, the interpreter has a result. -/
theorem interpret_precedes (fuel : Nat) : ∀ {frame : CommandFrame T} {live : CallFrame T}, Matches frame live →
    ∀ action, Precedes R forkLimit frame live fuel [action] := by
  induction fuel using Nat.strongRecOn with
  | ind fuel ih =>
    intro frame live hmatch action rest o c d hwithin hc hrun
    cases fuel with
    | zero => simp [runLoop] at hrun
    | succ fuel =>
      cases hperform : action.perform R forkLimit frame.returnValueConsumer o with
      | mk scheduled o₁ =>
        rcases run_action hc hperform with hstop | ⟨c₁, hc₁, hruns₁⟩
        · exact absurd hrun hstop.not_completed
        · have htarget := target_matches hmatch scheduled
          rw [hruns₁ fuel] at hrun
          have hone : ∀ fuel' ≤ fuel, ∀ action,
              Precedes R forkLimit (target frame scheduled) (scheduled.live live) fuel' [action] :=
            fun fuel' hle action => ih fuel' (by omega) htarget action
          obtain ⟨nesting, gone, o₂, c₂, fuel₂, hall, hc₂, hfuel₂, hrun₂⟩ :=
            precedes_all hone fuel (Nat.le_refl _) _ _ _ _ _ (within_after hwithin scheduled) hc₁ hrun
          rw [dropTo_outer hmatch hwithin] at hc₂
          refine ⟨nesting + 1, _, o₂, c₂, fuel₂, ?_, hc₂, by omega, hrun₂⟩
          rw [interpretAll_singleton, interpret_step, ← hmatch.consumer, hperform]
          dsimp only
          rw [hall]
          rfl

/-! ## Whole executions -/

/-- The queue entry of what an execution starts with. -/
def InitialEntry.entry (R : CommandRuntime T) : InitialEntry T → CommandQueueEntry T
  | .command chain source consumer => ⟨⟨0, consumer, .all⟩, .buildContexts chain source [source] .none⟩
  | .functionCall entries sender consumer =>
    ⟨⟨0, consumer, .all⟩, .callFunction entries sender (R.callback sender) false⟩

theorem entry_matches (initial : InitialEntry T) : Matches (initial.entry R).frame (initial.top R).1 := by
  cases initial with
  | command chain source consumer => exact ⟨rfl, Nat.le_refl _, rfl⟩
  | functionCall entries sender consumer => exact ⟨rfl, Nat.le_refl _, rfl⟩

theorem entry_action (initial : InitialEntry T) : (initial.entry R).action = (initial.top R).2 := by
  cases initial <;> rfl

theorem entry_depth (initial : InitialEntry T) : (initial.entry R).frame.depth = 0 := by
  cases initial <;> rfl

theorem within_entries (initial : List (InitialEntry T)) : Within 0 (initial.map (InitialEntry.entry R)) := by
  intro entry hentry
  obtain ⟨first, -, rfl⟩ := List.mem_map.mp hentry
  exact Nat.le_of_eq (entry_depth first)

theorem top_follows (nesting : Nat) : ∀ (initial : List (InitialEntry T)) (o o' : Observed T)
    (c : CommandExecutionContext T), At forkLimit c (initial.map (InitialEntry.entry R)) o →
    interpretTop R forkLimit nesting initial o = some o' →
    StopsAtLimit R c ∨ ∃ c' k, At forkLimit c' [] o' ∧ Runs R k c c'
  | [], o, o', c, hc, hrun => by
    cases hrun
    exact Or.inr ⟨c, 0, hc, Runs.refl c⟩
  | first :: initial, o, o', c, hc, hrun => by
    unfold interpretTop at hrun
    rw [← entry_action] at hrun
    cases hfirst : interpret R forkLimit nesting (first.top R).1 (first.entry R).action o with
    | none => simp [hfirst] at hrun
    | some r =>
      obtain ⟨gone, o₁⟩ := r
      rw [hfirst] at hrun
      have hwithin : Within (first.entry R).frame.depth (initial.map (InitialEntry.entry R)) := by
        rw [entry_depth]
        exact within_entries initial
      rcases interpret_follows nesting (entry_matches first) (first.entry R).action _ o gone o₁ c hwithin hc
        (by rw [interpretAll_singleton, hfirst]) with hstop | ⟨c₁, k, hc₁, hruns⟩
      · exact Or.inl hstop
      · rw [entry_depth] at hc₁ hwithin
        cases gone with
        | zero =>
          rw [dropTo_of_within hwithin (by omega)] at hc₁
          rcases top_follows nesting initial o₁ o' c₁ hc₁ hrun with hstop | ⟨c₂, k', hc₂, hruns'⟩
          · exact Or.inl (hstop.before hruns)
          · exact Or.inr ⟨c₂, k' + k, hc₂, hruns.trans hruns'⟩
        | succ gone =>
          cases hrun
          rw [show 0 + 1 - (gone + 1) = 0 by omega, dropTo_zero] at hc₁
          exact Or.inr ⟨c₁, k, hc₁, hruns⟩

theorem runLoop_empty {c : CommandExecutionContext T} {o : Observed T} (hc : At forkLimit c [] o) (fuel : Nat) :
    c.runLoop R (fuel + 1) = some (if c.commandQuota = 0 then .commandLimit else .completed, c) := by
  unfold runLoop
  rw [hc.queue]
  split <;> rfl

theorem empty_completed {c d : CommandExecutionContext T} {o : Observed T} (hc : At forkLimit c [] o) {fuel : Nat}
    (hrun : c.runLoop R fuel = some (.completed, d)) : d.observed = o := by
  cases fuel with
  | zero => simp [runLoop] at hrun
  | succ fuel =>
    have hsame := (runLoop_empty hc fuel).symm.trans hrun
    obtain ⟨-, rfl⟩ := Prod.mk.inj (Option.some.inj hsame)
    exact hc.observed

theorem top_precedes : ∀ (initial : List (InitialEntry T)) (fuel : Nat) (o : Observed T)
    (c d : CommandExecutionContext T), At forkLimit c (initial.map (InitialEntry.entry R)) o →
    c.runLoop R fuel = some (.completed, d) → ∃ nesting, interpretTop R forkLimit nesting initial o = some d.observed
  | [], fuel, o, c, d, hc, hrun => ⟨0, congrArg some (empty_completed hc hrun).symm⟩
  | first :: initial, fuel, o, c, d, hc, hrun => by
    have hwithin : Within (first.entry R).frame.depth (initial.map (InitialEntry.entry R)) := by
      rw [entry_depth]
      exact within_entries initial
    obtain ⟨nesting, gone, o₁, c₁, fuel₁, hfirst, hc₁, -, hrun₁⟩ :=
      interpret_precedes fuel (entry_matches first) (first.entry R).action _ o c d hwithin hc hrun
    rw [interpretAll_singleton, entry_action] at hfirst
    rw [entry_depth] at hc₁ hwithin
    cases gone with
    | zero =>
      rw [dropTo_of_within hwithin (by omega)] at hc₁
      obtain ⟨nesting', hrest⟩ := top_precedes initial fuel₁ o₁ c₁ d hc₁ hrun₁
      refine ⟨max nesting nesting', ?_⟩
      unfold interpretTop
      rw [interpret_mono (Nat.le_max_left _ _) hfirst]
      exact interpretTop_mono (Nat.le_max_right _ _) hrest
    | succ gone =>
      rw [show 0 + 1 - (gone + 1) = 0 by omega, dropTo_zero] at hc₁
      refine ⟨nesting, ?_⟩
      unfold interpretTop
      rw [hfirst, empty_completed hc₁ hrun₁]

/-- The context before its run has staged every initial entry, unless they are too many. -/
theorem start_cases (initial : List (InitialEntry T)) : ∀ c : CommandExecutionContext T,
    c.queueOverflow = false → c.currentFrameDepth = 0 →
    (initial.foldl (queueInitial R) c).queueOverflow = true ∨
      initial.foldl (queueInitial R) c =
        { c with newTopCommands := c.newTopCommands ++ initial.map (InitialEntry.entry R) } := by
  induction initial with
  | nil => exact fun c _ _ => Or.inr (by simp)
  | cons first initial ih =>
    intro c hover hdepth
    have hqueue : c.queueInitial R first = c.queueEntry (first.entry R) := by
      cases first <;> simp [queueInitial, createTopFrame, hdepth, InitialEntry.entry]
    rw [List.foldl_cons, hqueue]
    rcases queueEntry_cases hover (first.entry R) with hover' | hstaged
    · refine Or.inl ?_
      generalize c.queueEntry (first.entry R) = c' at hover'
      clear ih hqueue hover hdepth
      induction initial generalizing c' with
      | nil => exact hover'
      | cons second initial ih =>
        refine ih _ ?_
        cases second <;> exact queueEntry_overflow hover' _
    · rw [hstaged]
      rcases ih { c with newTopCommands := c.newTopCommands ++ [first.entry R] } hover hdepth with hover' | hrest
      · exact Or.inl hover'
      · exact Or.inr (hrest.trans (by simp))

theorem run_eq (R : CommandRuntime T) (fuel : Nat) {c : CommandExecutionContext T} (h : c.queueOverflow = false) :
    c.run R fuel = (c.pushNewCommands.runLoop R fuel).map fun (stop, c) => (stop, { c with currentFrameDepth := 0 }) := by
  simp [run, h]

/-- A run that completes has done what the interpreter does, and a run that the interpreter ends comes to an end. -/
structure Refines (R : CommandRuntime T) (commandLimit forkLimit queueLimit : Nat) (o : Observed T)
    (initial : List (InitialEntry T)) : Prop where
  completed : ∀ fuel c, (start R commandLimit forkLimit queueLimit o initial).run R fuel = some (.completed, c) →
    ∃ nesting, interpretTop R forkLimit nesting initial o = some c.observed
  stops : ∀ nesting o', interpretTop R forkLimit nesting initial o = some o' → ∃ fuel stop c,
    (start R commandLimit forkLimit queueLimit o initial).run R fuel = some (stop, c) ∧
      (stop = .completed → c.observed = o')

end Foton
