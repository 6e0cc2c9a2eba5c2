import Foton.Tick.List

/-!
# The keys of a tick list

A tick list keeps the set of the keys of its ticks beside the pending and the
live ticks. Every operation keeps the two in step, and no key occurs twice.
-/

namespace Foton

variable {T : Type} [TickKey T]

def SavedTick.key (t : SavedTick T) : ScheduledTickKey := (t.pos, TickKey.key t.tickType)

namespace TickList

/-! ## Pending ticks -/

def scheduleSavedPending (l : TickList T) (savedTick : SavedTick T) : TickList T × Bool :=
  if savedTick.key ∈ l.scheduled then (l, false)
  else
    ({ l with
      scheduled := insert savedTick.key l.scheduled
      pendingTicks := some (l.pendingTicks.getD [] ++ [savedTick]) }, true)

/-- A proto-chunk tick has no delay. -/
def schedulePending (l : TickList T) (tickType : T) (pos : BlockPos) (priority : TickPriority) : TickList T × Bool :=
  l.scheduleSavedPending ⟨tickType, pos, 0, priority⟩

def fromProtoSavedTicks (savedTicks : List (SavedTick T)) : TickList T :=
  savedTicks.foldl (fun l savedTick => (l.scheduleSavedPending savedTick).1) newPending

def hasTick (l : TickList T) (pos : BlockPos) (tickType : T) : Bool := decide ((pos, TickKey.key tickType) ∈ l.scheduled)

/-- The pending ticks that do not meet `predicate`, and how many do. -/
def removePendingMatching (l : TickList T) (predicate : SavedTick T → Bool) : TickList T × Nat :=
  match l.pendingTicks with
  | none => (l, 0)
  | some pendingTicks =>
    let kept := pendingTicks.filter fun tick => !predicate tick
    ({ l with
      pendingTicks := some kept
      scheduled := (pendingTicks.filter predicate).foldl (fun scheduled tick => scheduled.erase tick.key) l.scheduled },
      pendingTicks.length - kept.length)

/-! ## Runs -/

/-- Where a list comes from. -/
inductive Origin (T : Type) [TickKey T] where
  | new
  | newPending
  | fromProtoSavedTicks (savedTicks : List (SavedTick T))
  | fromSavedTicks (savedTicks : List (SavedTick T)) (distinct : (savedTicks.map SavedTick.key).Nodup)

inductive Operation (T : Type) where
  | schedule (tickType : T) (pos : BlockPos) (triggerTick : Int) (priority : TickPriority) (subTickOrder : Int)
  | schedulePending (tickType : T) (pos : BlockPos) (priority : TickPriority)
  | removePendingMatching (predicate : SavedTick T → Bool)
  | unpack (currentTick : Int)
  | popReady (currentTick : Int)

def Origin.list : Origin T → TickList T
  | new => TickList.new
  | newPending => TickList.newPending
  | fromProtoSavedTicks savedTicks => TickList.fromProtoSavedTicks savedTicks
  | fromSavedTicks savedTicks _ => TickList.fromSavedTicks savedTicks

def apply (l : TickList T) : Operation T → TickList T
  | .schedule tickType pos triggerTick priority subTickOrder => (l.schedule tickType pos triggerTick priority subTickOrder).1
  | .schedulePending tickType pos priority => (l.schedulePending tickType pos priority).1
  | .removePendingMatching predicate => (l.removePendingMatching predicate).1
  | .unpack currentTick => l.unpack currentTick
  | .popReady currentTick => (l.popReady currentTick).elim l Prod.snd

/-! ## The invariant -/

/-- The keys of the pending entries, then those of the live ones. -/
def keys (l : TickList T) : List ScheduledTickKey :=
  (l.pendingTicks.getD []).map SavedTick.key ++ l.queue.map ScheduledTick.key

/-- No key occurs in two entries, and the set holds exactly the keys of the entries. -/
structure Keyed (l : TickList T) : Prop where
  distinct : l.keys.Nodup
  scheduled : ∀ key, key ∈ l.scheduled ↔ key ∈ l.keys

omit [TickKey T] in
theorem queue_pushUnchecked (l : TickList T) (tick : ScheduledTick T) : (l.pushUnchecked tick).queue.Perm (tick :: l.queue) :=
  (l.ticks.push_perm _).map QueuedTick.tick

theorem keys_pushUnchecked (l : TickList T) (tick : ScheduledTick T) : (l.pushUnchecked tick).keys.Perm (tick.key :: l.keys) := by
  refine .trans (List.Perm.append_left _ ((queue_pushUnchecked l tick).map _)) ?_
  exact List.perm_middle

theorem keys_foldl_pushUnchecked (l : TickList T) (ticks : List (ScheduledTick T)) :
    (ticks.foldl pushUnchecked l).keys.Perm (ticks.map ScheduledTick.key ++ l.keys) := by
  induction ticks generalizing l with
  | nil => exact .rfl
  | cons tick rest ih =>
    refine (ih _).trans (.trans (List.Perm.append_left _ (keys_pushUnchecked l tick)) ?_)
    exact List.perm_middle

omit [TickKey T] in
theorem scheduled_foldl_pushUnchecked (l : TickList T) (ticks : List (ScheduledTick T)) :
    (ticks.foldl pushUnchecked l).scheduled = l.scheduled := by
  induction ticks generalizing l with
  | nil => rfl
  | cons tick rest ih => exact ih _

theorem keys_anchored (currentTick : Int) (savedTicks : List (SavedTick T)) :
    (anchored currentTick savedTicks).map ScheduledTick.key = savedTicks.map SavedTick.key := by
  unfold anchored
  apply List.ext_getElem
  · simp
  · intro i h h'
    simp [ScheduledTick.key, SavedTick.key]

theorem keys_unpack (l : TickList T) (currentTick : Int) : (l.unpack currentTick).keys.Perm l.keys := by
  unfold unpack
  cases hpending : l.pendingTicks with
  | none => exact .rfl
  | some savedTicks =>
    refine (keys_foldl_pushUnchecked _ _).trans ?_
    rw [keys_anchored]
    simp [keys, queue, hpending]

theorem keys_popReady {l l' : TickList T} {currentTick : Int} {tick : ScheduledTick T}
    (h : l.popReady currentTick = some (tick, l')) : l.keys.Perm (tick.key :: l'.keys) := by
  obtain ⟨hqueue, -, hpending⟩ := popReady_eq_some h
  unfold keys
  rw [hqueue, hpending, List.map_cons]
  exact List.perm_middle

theorem mem_foldl_erase {removed : List (SavedTick T)} {scheduled : Finset ScheduledTickKey} {key : ScheduledTickKey} :
    key ∈ removed.foldl (fun scheduled tick => scheduled.erase tick.key) scheduled ↔
      key ∈ scheduled ∧ key ∉ removed.map SavedTick.key := by
  induction removed generalizing scheduled with
  | nil => simp
  | cons tick rest ih =>
    rw [List.foldl_cons, ih, Finset.mem_erase, List.map_cons, List.mem_cons]
    tauto

namespace Keyed

variable {l : TickList T}

theorem of_perm (h : l.Keyed) {l' : TickList T} {key : ScheduledTickKey} (hkeys : l'.keys.Perm (key :: l.keys))
    (hnew : key ∉ l.scheduled) (hscheduled : l'.scheduled = insert key l.scheduled) : l'.Keyed where
  distinct := hkeys.nodup_iff.mpr (List.nodup_cons.mpr ⟨fun hmem => hnew ((h.scheduled key).mpr hmem), h.distinct⟩)
  scheduled k := by rw [hscheduled, Finset.mem_insert, hkeys.mem_iff, List.mem_cons, h.scheduled]

theorem schedule (h : l.Keyed) (tickType : T) (pos : BlockPos) (triggerTick : Int) (priority : TickPriority)
    (subTickOrder : Int) : (l.schedule tickType pos triggerTick priority subTickOrder).1.Keyed := by
  unfold TickList.schedule
  dsimp only
  split
  · exact h
  · rename_i hnew
    exact h.of_perm (keys_pushUnchecked _ _) hnew rfl

theorem scheduleSavedPending (h : l.Keyed) (savedTick : SavedTick T) : (l.scheduleSavedPending savedTick).1.Keyed := by
  unfold TickList.scheduleSavedPending
  split
  · exact h
  · rename_i hnew
    refine h.of_perm ?_ hnew rfl
    simp only [keys, queue, Option.getD_some, List.map_append, List.map_cons, List.map_nil]
    rw [List.append_assoc]
    exact List.perm_middle

theorem removePendingMatching (h : l.Keyed) (predicate : SavedTick T → Bool) : (l.removePendingMatching predicate).1.Keyed := by
  unfold TickList.removePendingMatching
  cases hpending : l.pendingTicks with
  | none => exact h
  | some pendingTicks =>
    have hdistinct := h.distinct
    have hscheduled := h.scheduled
    simp only [keys, hpending, Option.getD_some] at hdistinct hscheduled
    have hsub : List.Sublist ((pendingTicks.filter fun tick => !predicate tick).map SavedTick.key)
        (pendingTicks.map SavedTick.key) := List.filter_sublist.map _
    refine ⟨hdistinct.sublist (hsub.append_right _), fun key => ?_⟩
    simp only [keys, queue, Option.getD_some] at hscheduled ⊢
    rw [mem_foldl_erase, hscheduled, List.mem_append, List.mem_append]
    obtain ⟨hpend, -, hdisjoint⟩ := List.nodup_append.mp hdistinct
    -- A key of a removed entry is of no other entry.
    have hkept : key ∈ (pendingTicks.filter fun tick => !predicate tick).map SavedTick.key ↔
        key ∈ pendingTicks.map SavedTick.key ∧ key ∉ (pendingTicks.filter predicate).map SavedTick.key := by
      simp only [List.mem_map, List.mem_filter, Bool.not_eq_true', not_exists, not_and]
      constructor
      · rintro ⟨tick, ⟨hmem, hkeep⟩, rfl⟩
        refine ⟨⟨tick, hmem, rfl⟩, ?_⟩
        rintro other ⟨hother, hremove⟩ heq
        rw [List.inj_on_of_nodup_map hpend hother hmem heq, hkeep] at hremove
        cases hremove
      · rintro ⟨⟨tick, hmem, rfl⟩, hall⟩
        refine ⟨tick, ⟨hmem, ?_⟩, rfl⟩
        by_contra hremove
        exact hall tick ⟨hmem, by simpa using hremove⟩ rfl
    rw [hkept]
    constructor
    · rintro ⟨hmem | hmem, hnot⟩
      · exact Or.inl ⟨hmem, hnot⟩
      · exact Or.inr hmem
    · rintro (⟨hmem, hnot⟩ | hmem)
      · exact ⟨Or.inl hmem, hnot⟩
      · refine ⟨Or.inr hmem, fun hremoved => ?_⟩
        exact hdisjoint key ((List.filter_sublist.map _).subset hremoved) key hmem rfl

theorem unpack (h : l.Keyed) (currentTick : Int) : (l.unpack currentTick).Keyed where
  distinct := (keys_unpack l currentTick).nodup_iff.mpr h.distinct
  scheduled key := by
    rw [(keys_unpack l currentTick).mem_iff, ← h.scheduled]
    unfold TickList.unpack
    cases l.pendingTicks with
    | none => rfl
    | some savedTicks => simp [scheduled_foldl_pushUnchecked]

theorem popReady (h : l.Keyed) {l' : TickList T} {currentTick : Int} {tick : ScheduledTick T}
    (hpop : l.popReady currentTick = some (tick, l')) : l'.Keyed := by
  have hkeys := keys_popReady hpop
  obtain ⟨hnew, hdistinct⟩ := List.nodup_cons.mp (hkeys.nodup_iff.mp h.distinct)
  refine ⟨hdistinct, fun key => ?_⟩
  have hscheduled : l'.scheduled = l.scheduled.erase tick.key := by
    unfold TickList.popReady at hpop
    split at hpop
    · cases hpop
    · split at hpop
      · cases hpop
      · cases hpop
        rfl
  rw [hscheduled, Finset.mem_erase, h.scheduled, hkeys.mem_iff, List.mem_cons]
  constructor
  · rintro ⟨hne, rfl | hmem⟩
    · exact absurd rfl hne
    · exact hmem
  · intro hmem
    exact ⟨fun heq => hnew (heq ▸ hmem), Or.inr hmem⟩

theorem apply (h : l.Keyed) (op : Operation T) : (l.apply op).Keyed := by
  cases op with
  | schedule tickType pos triggerTick priority subTickOrder => exact h.schedule tickType pos triggerTick priority subTickOrder
  | schedulePending tickType pos priority => exact h.scheduleSavedPending _
  | removePendingMatching predicate => exact h.removePendingMatching predicate
  | unpack currentTick => exact h.unpack currentTick
  | popReady currentTick =>
    show Keyed ((l.popReady currentTick).elim l Prod.snd)
    cases hpop : l.popReady currentTick with
    | none => exact h
    | some pair => exact h.popReady hpop

end Keyed

theorem keyed_newPending : (newPending : TickList T).Keyed where
  distinct := List.nodup_nil
  scheduled key := by simp [newPending, keys, queue, PriorityQueue.empty]

theorem mem_scheduled_fromSavedTicks (savedTicks : List (SavedTick T)) (key : ScheduledTickKey) :
    key ∈ (fromSavedTicks savedTicks).scheduled ↔ key ∈ savedTicks.map SavedTick.key := by
  have hfold : ∀ (scheduled : Finset ScheduledTickKey), key ∈ savedTicks.foldl (fun s t => insert (t.pos, TickKey.key t.tickType) s) scheduled ↔
      key ∈ scheduled ∨ key ∈ savedTicks.map SavedTick.key := by
    induction savedTicks with
    | nil => simp
    | cons tick rest ih =>
      intro scheduled
      rw [List.foldl_cons, ih, Finset.mem_insert, List.map_cons, List.mem_cons]
      simp only [SavedTick.key]
      tauto
  rw [fromSavedTicks, hfold]
  simp

theorem Origin.keyed (o : Origin T) : o.list.Keyed := by
  cases o with
  | new => exact ⟨List.nodup_nil, fun key => by simp [Origin.list, TickList.new, keys, queue, PriorityQueue.empty]⟩
  | newPending => exact keyed_newPending
  | fromProtoSavedTicks savedTicks =>
    have hfold : ∀ l : TickList T, l.Keyed → (savedTicks.foldl (fun l savedTick => (l.scheduleSavedPending savedTick).1) l).Keyed := by
      induction savedTicks with
      | nil => exact fun l h => h
      | cons tick rest ih => exact fun l h => ih _ (h.scheduleSavedPending tick)
    exact hfold _ keyed_newPending
  | fromSavedTicks savedTicks distinct =>
    have hkeys : (Origin.fromSavedTicks savedTicks distinct).list.keys = savedTicks.map SavedTick.key := by
      simp [Origin.list, TickList.fromSavedTicks, keys, queue, PriorityQueue.empty]
    exact ⟨hkeys ▸ distinct, fun key => by rw [hkeys]; exact mem_scheduled_fromSavedTicks savedTicks key⟩

theorem keyed_run (o : Origin T) (ops : List (Operation T)) : (ops.foldl apply o.list).Keyed := by
  induction ops using List.reverseRecOn with
  | nil => exact o.keyed
  | append_singleton ops op ih =>
    rw [List.foldl_append]
    exact ih.apply op

theorem schedule_snd (l : TickList T) (tickType : T) (pos : BlockPos) (triggerTick : Int) (priority : TickPriority)
    (subTickOrder : Int) : (l.schedule tickType pos triggerTick priority subTickOrder).2 = !l.hasTick pos tickType := by
  unfold schedule hasTick
  dsimp only
  split <;> simp_all

theorem schedulePending_snd (l : TickList T) (tickType : T) (pos : BlockPos) (priority : TickPriority) :
    (l.schedulePending tickType pos priority).2 = !l.hasTick pos tickType := by
  unfold schedulePending scheduleSavedPending hasTick SavedTick.key
  split <;> simp_all

/-- In every run the set of scheduled keys is that of the entries, no key occurs twice, and a tick is
scheduled exactly when there was none under its key. -/
theorem scheduled_keys_exact (o : Origin T) (ops : List (Operation T)) :
    (∀ key, key ∈ (ops.foldl apply o.list).scheduled ↔ key ∈ (ops.foldl apply o.list).keys) ∧
      (ops.foldl apply o.list).keys.Nodup ∧
      (∀ tickType pos triggerTick priority subTickOrder,
        ((ops.foldl apply o.list).schedule tickType pos triggerTick priority subTickOrder).2 = true ↔
          (ops.foldl apply o.list).hasTick pos tickType = false) ∧
      ∀ tickType pos priority, ((ops.foldl apply o.list).schedulePending tickType pos priority).2 = true ↔
        (ops.foldl apply o.list).hasTick pos tickType = false := by
  have h := keyed_run o ops
  refine ⟨h.scheduled, h.distinct, ?_, ?_⟩
  · intro tickType pos triggerTick priority subTickOrder
    rw [schedule_snd, Bool.not_eq_true']
  · intro tickType pos priority
    rw [schedulePending_snd, Bool.not_eq_true']

end TickList

end Foton
