import Foton.Chunk.Basic
import Foton.Lib.PriorityQueue
import Mathlib.Data.Finset.Insert
import Mathlib.Data.Finset.Erase
import Mathlib.Data.Prod.Lex
import Mathlib.Data.Nat.Basic
import Mathlib.Algebra.Ring.Nat
import Mathlib.Algebra.Ring.Int.Defs

/-!
# Tick lists

The scheduled ticks of one type in one chunk. Saved ticks wait in `pendingTicks`
until `unpack` gives them deadlines; live ticks wait in a priority queue.
-/

namespace Foton

/-- `i64::wrapping_add`. -/
def wrappingAdd (a b : Int) : Int := (a + b).bmod (2 ^ 64)

/-- `i64::wrapping_sub` followed by `as i32`. -/
def wrappingDelay (a b : Int) : Int := (a - b).bmod (2 ^ 32)

inductive TickPriority where
  | extremelyHigh
  | veryHigh
  | high
  | normal
  | low
  | veryLow
  | extremelyLow
  deriving DecidableEq, Repr

namespace TickPriority

def value : TickPriority → Int
  | extremelyHigh => -3
  | veryHigh => -2
  | high => -1
  | normal => 0
  | low => 1
  | veryLow => 2
  | extremelyLow => 3

instance : LinearOrder TickPriority :=
  LinearOrder.lift' value fun a b h => by cases a <;> cases b <;> first | rfl | cases h

end TickPriority

class TickKey (T : Type) where
  key : T → Nat

abbrev ScheduledTickKey : Type := BlockPos × Nat

structure ScheduledTick (T : Type) where
  tickType : T
  pos : BlockPos
  triggerTick : Int
  priority : TickPriority
  subTickOrder : Int
  deriving DecidableEq

structure SavedTick (T : Type) where
  tickType : T
  pos : BlockPos
  delay : Int
  priority : TickPriority
  deriving DecidableEq

def intraTickDrainOrder (priority : TickPriority) (subTickOrder : Int) : TickPriority ×ₗ Int :=
  toLex (priority, subTickOrder)

namespace ScheduledTick

variable {T : Type}

def key [TickKey T] (t : ScheduledTick T) : ScheduledTickKey := (t.pos, TickKey.key t.tickType)

def intraOrder (t : ScheduledTick T) : TickPriority ×ₗ Int := intraTickDrainOrder t.priority t.subTickOrder

def drainOrder (t : ScheduledTick T) : Int ×ₗ TickPriority ×ₗ Int := toLex (t.triggerTick, t.intraOrder)

end ScheduledTick

structure QueuedTick (T : Type) where
  tick : ScheduledTick T
  insertionOrder : Nat

def QueuedTick.order {T : Type} (q : QueuedTick T) : (Int ×ₗ TickPriority ×ₗ Int) ×ₗ Nat :=
  toLex (q.tick.drainOrder, q.insertionOrder)

structure TickList (T : Type) where
  pendingTicks : Option (List (SavedTick T))
  ticks : PriorityQueue (QueuedTick.order (T := T))
  scheduled : Finset ScheduledTickKey
  nextInsertionOrder : Nat

namespace TickList

variable {T : Type}

def new : TickList T := ⟨none, .empty, ∅, 0⟩

def newPending : TickList T := ⟨some [], .empty, ∅, 0⟩

/-- The insertion counter is a `u64` that wraps. -/
def pushUnchecked (l : TickList T) (tick : ScheduledTick T) : TickList T :=
  { l with ticks := l.ticks.push ⟨tick, l.nextInsertionOrder⟩, nextInsertionOrder := (l.nextInsertionOrder + 1) % 2 ^ 64 }

section
variable [TickKey T]

def fromSavedTicks (savedTicks : List (SavedTick T)) : TickList T :=
  ⟨some savedTicks, .empty, savedTicks.foldl (fun s t => insert (t.pos, TickKey.key t.tickType) s) ∅, 0⟩

def schedule (l : TickList T) (tickType : T) (pos : BlockPos) (triggerTick : Int) (priority : TickPriority)
    (subTickOrder : Int) : TickList T × Bool :=
  let key : ScheduledTickKey := (pos, TickKey.key tickType)
  if key ∈ l.scheduled then (l, false)
  else
    (({ l with scheduled := insert key l.scheduled }).pushUnchecked
      ⟨tickType, pos, triggerTick, priority, subTickOrder⟩, true)

def peek (l : TickList T) : Option (ScheduledTick T) := l.ticks.peek.map QueuedTick.tick

def peekReady (l : TickList T) (currentTick : Int) : Option (ScheduledTick T) :=
  l.peek.filter fun tick => tick.triggerTick ≤ currentTick

def popReady (l : TickList T) (currentTick : Int) : Option (ScheduledTick T × TickList T) :=
  match l.peekReady currentTick with
  | none => none
  | some _ =>
    match l.ticks.pop with
    | none => none
    | some (queued, ticks) => some (queued.tick, { l with ticks := ticks, scheduled := l.scheduled.erase queued.tick.key })

end

/-- The live ticks that `unpack` makes of saved ones, with orders `-len..-1`. -/
def anchored (currentTick : Int) (savedTicks : List (SavedTick T)) : List (ScheduledTick T) :=
  savedTicks.mapIdx fun index saved =>
    ⟨saved.tickType, saved.pos, wrappingAdd currentTick saved.delay, saved.priority, -savedTicks.length + index⟩

def unpack (l : TickList T) (currentTick : Int) : TickList T :=
  match l.pendingTicks with
  | none => l
  | some savedTicks => (anchored currentTick savedTicks).foldl pushUnchecked { l with pendingTicks := none }

/-- Pending ticks, then the live ones by sub-tick order. -/
def pack (l : TickList T) (currentTick : Int) : List (SavedTick T) :=
  let live := l.ticks.toList.mergeSort fun a b => toLex (a.tick.subTickOrder, a.insertionOrder) ≤
    (toLex (b.tick.subTickOrder, b.insertionOrder) : Int ×ₗ Nat)
  l.pendingTicks.getD [] ++ live.map fun queued =>
    ⟨queued.tick.tickType, queued.tick.pos, wrappingDelay queued.tick.triggerTick currentTick, queued.tick.priority⟩

/-! ## The queue -/

/-- The live ticks in drain order. -/
def queue (l : TickList T) : List (ScheduledTick T) := l.ticks.toList.map QueuedTick.tick

/-- The deadline of the next tick. -/
def head (l : TickList T) : Option Int := l.peek.map ScheduledTick.triggerTick

/-- The ticks that are due. -/
def due (l : TickList T) (currentTick : Int) : List (ScheduledTick T) :=
  l.queue.filter fun tick => tick.triggerTick ≤ currentTick

theorem peek_eq (l : TickList T) : l.peek = l.queue.head? := by
  unfold peek queue PriorityQueue.peek
  rw [List.head?_map]

theorem peekReady_eq_some {l : TickList T} {currentTick : Int} {tick : ScheduledTick T} :
    l.peekReady currentTick = some tick ↔ l.queue.head? = some tick ∧ tick.triggerTick ≤ currentTick := by
  unfold peekReady
  rw [Option.filter_eq_some_iff, peek_eq, decide_eq_true_iff]

theorem popReady_eq_some [TickKey T] {l l' : TickList T} {currentTick : Int} {tick : ScheduledTick T}
    (h : l.popReady currentTick = some (tick, l')) :
    l.queue = tick :: l'.queue ∧ tick.triggerTick ≤ currentTick ∧ l'.pendingTicks = l.pendingTicks := by
  unfold popReady at h
  cases hready : l.peekReady currentTick with
  | none => rw [hready] at h; cases h
  | some tick' =>
    rw [hready] at h
    dsimp only at h
    cases hpop : l.ticks.pop with
    | none => rw [hpop] at h; cases h
    | some pair =>
      rw [hpop] at h
      cases h
      have hqueue : l.queue = pair.1.tick :: pair.2.toList.map QueuedTick.tick := by
        unfold queue
        rw [PriorityQueue.pop_eq_some.mp hpop, List.map_cons]
      obtain ⟨hhead, hdue⟩ := peekReady_eq_some.mp hready
      rw [hqueue] at hhead
      cases hhead
      exact ⟨hqueue, hdue, rfl⟩

theorem popReady_isSome [TickKey T] {l : TickList T} {currentTick : Int} {tick : ScheduledTick T}
    (h : l.peekReady currentTick = some tick) : ∃ l', l.popReady currentTick = some (tick, l') := by
  unfold popReady
  rw [h]
  dsimp only
  obtain ⟨hhead, -⟩ := peekReady_eq_some.mp h
  cases hpop : l.ticks.pop with
  | none =>
    rw [queue, PriorityQueue.pop_eq_none.mp hpop] at hhead
    cases hhead
  | some pair =>
    rw [queue, PriorityQueue.pop_eq_some.mp hpop] at hhead
    cases hhead
    exact ⟨_, rfl⟩

theorem queue_sorted (l : TickList T) : l.queue.Pairwise fun a b => a.triggerTick ≤ b.triggerTick := by
  unfold queue
  rw [List.pairwise_map]
  refine l.ticks.sorted.imp fun {a b} h => ?_
  rw [QueuedTick.order, QueuedTick.order, Prod.Lex.toLex_le_toLex] at h
  have hdrain : a.tick.drainOrder ≤ b.tick.drainOrder := h.elim le_of_lt fun h => le_of_eq h.1
  rw [ScheduledTick.drainOrder, ScheduledTick.drainOrder, Prod.Lex.toLex_le_toLex] at hdrain
  exact hdrain.elim le_of_lt fun h => le_of_eq h.1

theorem due_eq_nil {l : TickList T} {currentTick : Int} (h : l.peekReady currentTick = none) : l.due currentTick = [] := by
  unfold due
  rw [List.filter_eq_nil_iff]
  intro tick htick
  rw [decide_eq_true_iff]
  have hsorted := l.queue_sorted
  cases hq : l.queue with
  | nil => rw [hq] at htick; cases htick
  | cons first rest =>
    have hfirst : ¬ first.triggerTick ≤ currentTick := by
      intro hdue
      rw [peekReady_eq_some.mpr ⟨by rw [hq]; rfl, hdue⟩] at h
      cases h
    rw [hq] at htick hsorted
    rcases List.mem_cons.mp htick with rfl | htick
    · exact hfirst
    · exact fun hdue => hfirst (le_trans ((List.pairwise_cons.mp hsorted).1 tick htick) hdue)

theorem head_eq_some {l : TickList T} {deadline : Int} :
    l.head = some deadline ↔ ∃ tick, l.queue.head? = some tick ∧ tick.triggerTick = deadline := by
  unfold head
  rw [Option.map_eq_some_iff, peek_eq]

end TickList

end Foton
