import Foton.Tick.Keys

/-!
# Saving a tick list and loading it again

The saved list holds no orders: they come back from the places in the list,
before the order of every tick that is scheduled later. Deadlines come back
relative to the new time.
-/

namespace Foton

variable {T : Type}

/-- What of a tick does not depend on time and order. -/
def SavedTick.what (t : SavedTick T) : T × BlockPos × TickPriority := (t.tickType, t.pos, t.priority)

def ScheduledTick.what (t : ScheduledTick T) : T × BlockPos × TickPriority := (t.tickType, t.pos, t.priority)

/-- An entry of a list that is saved. -/
inductive PackedEntry (T : Type) where
  | pending (saved : SavedTick T)
  | live (queued : QueuedTick T)

namespace PackedEntry

def saved (currentTick : Int) : PackedEntry T → SavedTick T
  | pending saved => saved
  | live queued =>
    ⟨queued.tick.tickType, queued.tick.pos, wrappingDelay queued.tick.triggerTick currentTick, queued.tick.priority⟩

def what : PackedEntry T → T × BlockPos × TickPriority
  | pending saved => saved.what
  | live queued => queued.tick.what

theorem what_saved (e : PackedEntry T) (currentTick : Int) : (e.saved currentTick).what = e.what := by
  cases e <;> rfl

/-- The deadline of an entry that is saved at one time and loaded at another. -/
def deadline (savedAt loadedAt : Int) (e : PackedEntry T) : Int := wrappingAdd loadedAt (e.saved savedAt).delay

/-- The tick that an entry becomes at its place of a list of `len` entries. -/
def reloaded (savedAt loadedAt : Int) (len : Nat) (e : PackedEntry T × Nat) : ScheduledTick T :=
  ⟨(e.1.saved savedAt).tickType, (e.1.saved savedAt).pos, e.1.deadline savedAt loadedAt, (e.1.saved savedAt).priority, -len + e.2⟩

/-- Deadline first, then priority, then the place in the saved list. -/
def Before (savedAt loadedAt : Int) (a b : PackedEntry T × Nat) : Prop :=
  a.1.deadline savedAt loadedAt < b.1.deadline savedAt loadedAt ∨
    a.1.deadline savedAt loadedAt = b.1.deadline savedAt loadedAt ∧
      ((a.1.saved savedAt).priority < (b.1.saved savedAt).priority ∨
        (a.1.saved savedAt).priority = (b.1.saved savedAt).priority ∧ a.2 < b.2)

end PackedEntry

namespace TickList

/-- Pending entries, then the live ones by sub-tick order and insertion. -/
def savedOrder (l : TickList T) : List (PackedEntry T) :=
  (l.pendingTicks.getD []).map .pending ++
    (l.ticks.toList.mergeSort fun a b => toLex (a.tick.subTickOrder, a.insertionOrder) ≤
      (toLex (b.tick.subTickOrder, b.insertionOrder) : Int ×ₗ Nat)).map .live

theorem pack_eq (l : TickList T) (currentTick : Int) : l.pack currentTick = l.savedOrder.map (PackedEntry.saved currentTick) := by
  simp [pack, savedOrder, PackedEntry.saved, Function.comp_def]

theorem what_savedOrder (l : TickList T) :
    (l.savedOrder.map PackedEntry.what).Perm ((l.pendingTicks.getD []).map SavedTick.what ++ l.queue.map ScheduledTick.what) := by
  simp only [savedOrder, queue, List.map_append, List.map_map]
  refine List.Perm.append_left _ ?_
  exact (List.mergeSort_perm _ _).map _

theorem anchored_eq (l : TickList T) (savedAt loadedAt : Int) :
    anchored loadedAt (l.pack savedAt) = l.savedOrder.zipIdx.map (PackedEntry.reloaded savedAt loadedAt l.savedOrder.length) := by
  rw [pack_eq, anchored, List.mapIdx_eq_zipIdx_map, List.zipIdx_map, List.map_map, List.length_map]
  rfl

theorem subTickOrder_anchored {savedTicks : List (SavedTick T)} {loadedAt : Int} {tick : ScheduledTick T}
    (h : tick ∈ anchored loadedAt savedTicks) : tick.subTickOrder < 0 := by
  unfold anchored at h
  rw [List.mem_mapIdx] at h
  obtain ⟨i, hi, rfl⟩ := h
  dsimp only
  omega

theorem queue_foldl_pushUnchecked (l : TickList T) (ticks : List (ScheduledTick T)) :
    (ticks.foldl pushUnchecked l).queue.Perm (ticks ++ l.queue) := by
  induction ticks generalizing l with
  | nil => exact .rfl
  | cons tick rest ih =>
    refine (ih _).trans (.trans (List.Perm.append_left _ (queue_pushUnchecked l tick)) ?_)
    exact List.perm_middle

theorem pendingTicks_foldl_pushUnchecked (l : TickList T) (ticks : List (ScheduledTick T)) :
    (ticks.foldl pushUnchecked l).pendingTicks = l.pendingTicks := by
  induction ticks generalizing l with
  | nil => rfl
  | cons tick rest ih => exact ih _

theorem queue_drainOrder (l : TickList T) : l.queue.Pairwise fun a b => a.drainOrder ≤ b.drainOrder := by
  unfold queue
  rw [List.pairwise_map]
  refine l.ticks.sorted.imp fun {a b} h => ?_
  rw [QueuedTick.order, QueuedTick.order, Prod.Lex.toLex_le_toLex] at h
  exact h.elim le_of_lt fun h => le_of_eq h.1

theorem deadline_live (q : QueuedTick T) {savedAt : Int} (loadedAt : Int) (hlo : -2 ^ 31 ≤ q.tick.triggerTick - savedAt)
    (hhi : q.tick.triggerTick - savedAt < 2 ^ 31) :
    (PackedEntry.live q).deadline savedAt loadedAt = wrappingAdd q.tick.triggerTick (loadedAt - savedAt) := by
  have hdelay : wrappingDelay q.tick.triggerTick savedAt = q.tick.triggerTick - savedAt := by
    unfold wrappingDelay
    exact Int.bmod_eq_of_le (by omega) (by omega)
  simp only [PackedEntry.deadline, PackedEntry.saved, hdelay, wrappingAdd]
  congr 1
  omega

theorem exists_perm_map {α β : Type} {f : α → β} {l : List α} {m : List β} (h : m.Perm (l.map f)) :
    ∃ l' : List α, l'.Perm l ∧ m = l'.map f := by
  generalize hl : l.map f = n at h
  induction h generalizing l with
  | nil => exact ⟨[], by rw [List.map_eq_nil_iff.mp hl], rfl⟩
  | @cons b m n _ ih =>
    obtain ⟨a, rest, rfl, rfl, hrest⟩ := List.map_eq_cons_iff.mp hl
    obtain ⟨l', hperm, rfl⟩ := ih hrest
    exact ⟨a :: l', hperm.cons a, rfl⟩
  | swap b c n =>
    obtain ⟨a, rest, rfl, rfl, hrest⟩ := List.map_eq_cons_iff.mp hl
    obtain ⟨a', rest', rfl, rfl, rfl⟩ := List.map_eq_cons_iff.mp hrest
    exact ⟨a' :: a :: rest', .swap a a' rest', rfl⟩
  | trans _ _ ih₁ ih₂ =>
    obtain ⟨l₂, hperm₂, rfl⟩ := ih₂ hl
    obtain ⟨l₁, hperm₁, rfl⟩ := ih₁ rfl
    exact ⟨l₁, hperm₁.trans hperm₂, rfl⟩

section Loading

variable [TickKey T]

/-- The list that comes back from storage and is unpacked. -/
def reload (l : TickList T) (savedAt loadedAt : Int) : TickList T := (fromSavedTicks (l.pack savedAt)).unpack loadedAt

theorem queue_reload (l : TickList T) (savedAt loadedAt : Int) :
    (l.reload savedAt loadedAt).queue.Perm (anchored loadedAt (l.pack savedAt)) := by
  refine (queue_foldl_pushUnchecked _ _).trans ?_
  simp [queue, fromSavedTicks, PriorityQueue.empty]

theorem reload_order (l : TickList T) (savedAt loadedAt : Int) : ∃ order : List (PackedEntry T × Nat),
    order.Perm l.savedOrder.zipIdx ∧
      (l.reload savedAt loadedAt).queue = order.map (PackedEntry.reloaded savedAt loadedAt l.savedOrder.length) ∧
      order.Pairwise (PackedEntry.Before savedAt loadedAt) := by
  have hqueue := queue_reload l savedAt loadedAt
  rw [anchored_eq] at hqueue
  obtain ⟨order, hperm, horder⟩ := exists_perm_map hqueue
  refine ⟨order, hperm, horder, ?_⟩
  have hsorted := queue_drainOrder (l.reload savedAt loadedAt)
  rw [horder, List.pairwise_map] at hsorted
  have hplaces : order.Pairwise fun a b => a.2 ≠ b.2 := by
    have h : (order.map Prod.snd).Nodup := (hperm.map _).nodup_iff.mpr (by rw [List.zipIdx_map_snd]; exact List.nodup_range')
    exact List.pairwise_map.mp h
  refine (hsorted.and hplaces).imp ?_
  rintro a b ⟨hle, hne⟩
  rw [ScheduledTick.drainOrder, ScheduledTick.drainOrder, Prod.Lex.toLex_le_toLex] at hle
  refine hle.imp (fun h => h) fun h => ⟨h.1, ?_⟩
  have hintra := h.2
  rw [ScheduledTick.intraOrder, ScheduledTick.intraOrder, intraTickDrainOrder, intraTickDrainOrder,
    Prod.Lex.toLex_le_toLex] at hintra
  refine hintra.imp (fun h => h) fun h => ⟨h.1, ?_⟩
  have := h.2
  simp only [PackedEntry.reloaded] at this
  omega

theorem mem_scheduled_reload (l : TickList T) (savedAt loadedAt : Int) (key : ScheduledTickKey) :
    key ∈ (l.reload savedAt loadedAt).scheduled ↔ key ∈ l.keys := by
  have hscheduled : (l.reload savedAt loadedAt).scheduled = (fromSavedTicks (l.pack savedAt)).scheduled :=
    scheduled_foldl_pushUnchecked _ _
  rw [hscheduled, mem_scheduled_fromSavedTicks]
  have hperm := ((what_savedOrder l).map fun w => ((w.2.1, TickKey.key w.1) : ScheduledTickKey)).mem_iff (a := key)
  rw [pack_eq]
  simp only [List.map_append, List.map_map] at hperm ⊢
  unfold keys
  refine Iff.trans (Iff.of_eq ?_) hperm
  congr 2
  funext e
  cases e <;> rfl

/-! ## Draining -/

/-- Pops what is ready, `fuel` ticks at most. -/
def drainReady (currentTick : Int) : Nat → TickList T → List (ScheduledTick T)
  | 0, _ => []
  | fuel + 1, l =>
    match l.popReady currentTick with
    | none => []
    | some (tick, l') => tick :: drainReady currentTick fuel l'

theorem drainReady_eq (currentTick : Int) {fuel : Nat} {l : TickList T} (h : l.queue.length ≤ fuel) :
    drainReady currentTick fuel l = l.due currentTick := by
  induction fuel generalizing l with
  | zero =>
    rw [due, List.length_eq_zero_iff.mp (Nat.le_zero.mp h)]
    rfl
  | succ fuel ih =>
    unfold drainReady
    cases hready : l.peekReady currentTick with
    | none =>
      have hnone : l.popReady currentTick = none := by
        unfold popReady
        rw [hready]
      rw [hnone, due_eq_nil hready]
    | some tick =>
      obtain ⟨l', hpop⟩ := popReady_isSome hready
      obtain ⟨hqueue, hdue, -⟩ := popReady_eq_some hpop
      rw [hpop]
      dsimp only
      rw [ih (by rw [hqueue, List.length_cons] at h; omega), due, due, hqueue,
        List.filter_cons_of_pos (by simpa using hdue)]

/-! ## Ticks scheduled after the load -/

/-- The tick that an operation adds. -/
def Operation.tick : Operation T → Option (ScheduledTick T)
  | .schedule tickType pos triggerTick priority subTickOrder => some ⟨tickType, pos, triggerTick, priority, subTickOrder⟩
  | _ => none

/-- The world counts its sub-tick orders from zero. -/
def Operation.Counted (op : Operation T) : Prop := ∀ tick ∈ op.tick, 0 ≤ tick.subTickOrder

omit [TickKey T] in
theorem pair_sublist {l : TickList T} {a b : ScheduledTick T} (ha : a ∈ l.queue) (hb : b ∈ l.queue)
    (hlt : a.drainOrder < b.drainOrder) : List.Sublist [a, b] l.queue := by
  obtain ⟨front, back, hqueue⟩ := List.append_of_mem ha
  have hsorted := queue_drainOrder l
  rw [hqueue] at hb hsorted ⊢
  obtain ⟨-, -, hfront⟩ := List.pairwise_append.mp hsorted
  rcases List.mem_append.mp hb with hb | hb
  · exact absurd (hfront b hb a (List.mem_cons_self ..)) (not_le_of_gt hlt)
  · rcases List.mem_cons.mp hb with rfl | hb
    · exact absurd hlt (lt_irrefl _)
    · exact (List.Sublist.cons_cons a (List.singleton_sublist.mpr hb)).trans (List.sublist_append_right _ _)

omit [TickKey T] in
theorem reloaded_first {l : TickList T} {savedTicks : List (SavedTick T)} {loadedAt : Int} {ops : List (Operation T)}
    (hops : ∀ op ∈ ops, op.Counted) {a b : ScheduledTick T} (ha : a ∈ l.queue) (hb : b ∈ l.queue)
    (hreloaded : a ∈ anchored loadedAt savedTicks) (hlater : ∃ op ∈ ops, b ∈ op.tick)
    (htrigger : a.triggerTick = b.triggerTick) (hpriority : a.priority = b.priority) : List.Sublist [a, b] l.queue := by
  refine pair_sublist ha hb ?_
  obtain ⟨op, hop, hb⟩ := hlater
  have hneg := subTickOrder_anchored hreloaded
  have hcounted := hops op hop b hb
  rw [ScheduledTick.drainOrder, ScheduledTick.drainOrder, Prod.Lex.toLex_lt_toLex]
  refine Or.inr ⟨htrigger, ?_⟩
  rw [ScheduledTick.intraOrder, ScheduledTick.intraOrder, intraTickDrainOrder, intraTickDrainOrder, Prod.Lex.toLex_lt_toLex]
  exact Or.inr ⟨hpriority, by dsimp only; omega⟩

/-! ## The whole -/

/-- A saved list comes back with the same entries in the same order of the same deadlines, moved with the time, before
everything that is scheduled later; its keys are those of the entries, and it is not unpacked twice. -/
theorem reload_preserves (l : TickList T) (savedAt loadedAt : Int) :
    ((l.reload savedAt loadedAt).queue.map ScheduledTick.what).Perm
        ((l.pendingTicks.getD []).map SavedTick.what ++ l.queue.map ScheduledTick.what) ∧
      (∀ currentTick, drainReady currentTick (l.reload savedAt loadedAt).queue.length (l.reload savedAt loadedAt) =
        (l.reload savedAt loadedAt).queue.filter fun tick => tick.triggerTick ≤ currentTick) ∧
      (∃ order : List (PackedEntry T × Nat), order.Perm l.savedOrder.zipIdx ∧
        (l.reload savedAt loadedAt).queue = order.map (PackedEntry.reloaded savedAt loadedAt l.savedOrder.length) ∧
        order.Pairwise (PackedEntry.Before savedAt loadedAt)) ∧
      (∀ q ∈ l.ticks.toList, -2 ^ 31 ≤ q.tick.triggerTick - savedAt → q.tick.triggerTick - savedAt < 2 ^ 31 →
        (PackedEntry.live q).deadline savedAt loadedAt = wrappingAdd q.tick.triggerTick (loadedAt - savedAt)) ∧
      (∀ ops : List (Operation T), (∀ op ∈ ops, op.Counted) → ∀ a ∈ (ops.foldl apply (fromSavedTicks (l.pack savedAt))).queue,
        ∀ b ∈ (ops.foldl apply (fromSavedTicks (l.pack savedAt))).queue, a ∈ anchored loadedAt (l.pack savedAt) →
        (∃ op ∈ ops, b ∈ op.tick) → a.triggerTick = b.triggerTick → a.priority = b.priority →
        List.Sublist [a, b] (ops.foldl apply (fromSavedTicks (l.pack savedAt))).queue) ∧
      (∀ pos tickType, (l.reload savedAt loadedAt).hasTick pos tickType = true ↔ (pos, TickKey.key tickType) ∈ l.keys) ∧
      (l.Keyed → ∀ pos tickType, (l.reload savedAt loadedAt).hasTick pos tickType = l.hasTick pos tickType) ∧
      ∀ again, (l.reload savedAt loadedAt).unpack again = l.reload savedAt loadedAt := by
  have hmem := mem_scheduled_reload l savedAt loadedAt
  refine ⟨?_, fun currentTick => drainReady_eq currentTick (Nat.le_refl _), reload_order l savedAt loadedAt,
    fun q _ hlo hhi => deadline_live q loadedAt hlo hhi, ?_, ?_, ?_, ?_⟩
  · refine .trans ?_ (what_savedOrder l)
    refine ((queue_reload l savedAt loadedAt).map _).trans (.of_eq ?_)
    rw [anchored_eq, List.map_map]
    have hwhat : ScheduledTick.what ∘ PackedEntry.reloaded savedAt loadedAt l.savedOrder.length =
        PackedEntry.what ∘ (Prod.fst : PackedEntry T × Nat → PackedEntry T) := by
      funext e
      exact e.1.what_saved savedAt
    rw [hwhat, ← List.map_map, List.zipIdx_map_fst]
  · intro ops hops a ha b hb hreloaded hlater htrigger hpriority
    exact reloaded_first hops ha hb hreloaded hlater htrigger hpriority
  · intro pos tickType
    rw [hasTick, decide_eq_true_iff, hmem]
  · intro h pos tickType
    rw [hasTick, hasTick, decide_eq_decide, hmem, h.scheduled]
  · intro again
    have hnone : (l.reload savedAt loadedAt).pendingTicks = none := pendingTicks_foldl_pushUnchecked _ _
    conv_lhs => rw [unpack.eq_def, hnone]

end Loading

section Duplicates

instance : TickKey Bool where
  key := Bool.toNat

def twice : SavedTick Bool := ⟨false, ⟨0, 0, 0⟩, 1, .normal⟩

/-- A list that was loaded with a tick in it twice and has given out one of the two. -/
def halfDrained : TickList Bool := [Operation.unpack 0, Operation.popReady 1].foldl apply (fromSavedTicks [twice, twice])

/-- The keys of the entries are distinct, but the one that is left is not among the scheduled keys until it is saved and loaded. -/
theorem hasTick_changes : halfDrained.keys.Nodup ∧ halfDrained.hasTick ⟨0, 0, 0⟩ false = false ∧
    (halfDrained.reload 1 1).hasTick ⟨0, 0, 0⟩ false = true := by
  have hkeys : halfDrained.keys = [(⟨0, 0, 0⟩, 0)] := by decide +kernel
  refine ⟨by rw [hkeys]; simp, by decide +kernel, ?_⟩
  rw [hasTick, decide_eq_true_iff, mem_scheduled_reload, hkeys]
  simp [TickKey.key]

end Duplicates

end TickList

end Foton
