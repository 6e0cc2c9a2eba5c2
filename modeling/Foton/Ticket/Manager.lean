import Foton.Lib.LeastMap
import Foton.Lib.Tally
import Foton.Ticket.Level
import Mathlib.Data.Multiset.AddSub

/-!
# The chunk ticket manager

`run_all_updates` walks its hash maps in an order of their own: each walk's order
is a parameter, any permutation of the keys.
-/

namespace Foton

def ChunkPos.shift (p : ChunkPos) (dx dz : Int) : ChunkPos := ⟨p.x + Int32.ofInt dx, p.z + Int32.ofInt dz⟩

/-- The order in which a hash map's keys are walked. -/
structure IterOrder where
  walk : List ChunkPos → List ChunkPos
  perm : ∀ l, (walk l).Perm l

structure LevelChange where
  pos : ChunkPos
  newLevel : Option ChunkTicketLevel
  newSimulationLevel : Option ChunkTicketLevel

abbrev LevelMap : Type := AList fun _ : ChunkPos => ChunkTicketLevel

structure ChunkTicketManager where
  tickets : AList fun _ : ChunkPos => List ChunkTicket
  levels : LevelMap
  simulationLevels : LevelMap
  dirty : Bool
  changes : List LevelChange

/-- The orders of the walks of one call of `run_all_updates`. -/
structure UpdateOrders where
  tickets : IterOrder
  levels : IterOrder
  oldLevels : IterOrder
  simulationLevels : IterOrder
  oldSimulationLevels : IterOrder

/-- Every walk in the order of insertion. -/
def UpdateOrders.inserted : UpdateOrders :=
  let order : IterOrder := ⟨id, fun _ => .rfl⟩
  ⟨order, order, order, order, order⟩

/-! ## Propagation -/

/-- The offsets `(dx, dz)` of a square, row by row. -/
def offsets (radius : Nat) : List (Int × Int) :=
  (List.range (2 * radius + 1)).flatMap fun (i : Nat) =>
    (List.range (2 * radius + 1)).map fun (j : Nat) => (Int.ofNat j - radius, Int.ofNat i - radius)

/-- What a source offers to the position at an offset. -/
def levelAt (level : ChunkTicketLevel) (source : ChunkPos) (offset : Int × Int) : Option (ChunkPos × ChunkTicketLevel) :=
  (level.withDistance (max offset.1.natAbs offset.2.natAbs)).map fun l => (source.shift offset.1 offset.2, l)

/-- The two loops over the square around a source. -/
def spread (level : ChunkTicketLevel) (radius : Nat) (source : ChunkPos) (levels : LevelMap) : LevelMap :=
  relaxAll (levelAt level source) (offsets radius) levels

def strongestLoad (tickets : List ChunkTicket) : Option ChunkTicketLevel := (tickets.map ChunkTicket.loadLevel).min?

def strongestSimulation (tickets : List ChunkTicket) : Option ChunkTicketLevel :=
  (tickets.filterMap ChunkTicket.simulationLevel).min?

/-- The body of the loop over the ticket sources. -/
def propagateSource (tickets : List ChunkTicket) (source : ChunkPos) (maps : LevelMap × LevelMap) : LevelMap × LevelMap :=
  match strongestLoad tickets with
  | none => maps
  | some sourceLevel =>
    let levels := spread sourceLevel sourceLevel.distanceToMax source maps.1
    match strongestSimulation tickets with
    | none => (levels, maps.2)
    | some simulationLevel =>
      (levels, spread simulationLevel simulationLevel.distanceToBlockTicking source maps.2)

/-! ## Changes -/

/-- Changed and added load levels. -/
def changedLevels (order : IterOrder) (old new simulation : LevelMap) : List LevelChange :=
  (order.walk new.keys).filterMap fun pos =>
    match new.lookup pos with
    | some newLevel =>
      if old.lookup pos = some newLevel then none else some ⟨pos, some newLevel, simulation.lookup pos⟩
    | none => none

/-- Removed load levels. -/
def removedLevels (order : IterOrder) (old new : LevelMap) : List LevelChange :=
  (order.walk old.keys).filterMap fun pos => if (new.lookup pos).isSome then none else some ⟨pos, none, none⟩

def changedSimulation (order : IterOrder) (oldLevels levels oldSimulation simulation : LevelMap) : List LevelChange :=
  (order.walk simulation.keys).filterMap fun pos =>
    if oldLevels.lookup pos ≠ levels.lookup pos then none
    else
      match simulation.lookup pos with
      | some newLevel =>
        if oldSimulation.lookup pos = some newLevel then none
        else some ⟨pos, levels.lookup pos, some newLevel⟩
      | none => none

def removedSimulation (order : IterOrder) (oldLevels levels oldSimulation simulation : LevelMap) : List LevelChange :=
  (order.walk oldSimulation.keys).filterMap fun pos =>
    if oldLevels.lookup pos ≠ levels.lookup pos ∨ (simulation.lookup pos).isSome then none
    else some ⟨pos, levels.lookup pos, none⟩

/-! ## Operations -/

namespace ChunkTicketManager

def new : ChunkTicketManager := ⟨∅, ∅, ∅, false, []⟩

def ticketsAt (m : ChunkTicketManager) (pos : ChunkPos) : List ChunkTicket := (m.tickets.lookup pos).getD []

def addTicket (m : ChunkTicketManager) (pos : ChunkPos) (ticket : ChunkTicket) : ChunkTicketManager :=
  { m with tickets := m.tickets.insert pos (m.ticketsAt pos ++ [ticket]), dirty := true }

def removeTicket (m : ChunkTicketManager) (pos : ChunkPos) (ticket : ChunkTicket) : ChunkTicketManager × Bool :=
  match m.tickets.lookup pos with
  | none => (m, false)
  | some tickets =>
    match tickets.findIdx? fun stored => stored = ticket with
    | none => (m, false)
    | some idx =>
      let tickets := swapRemove tickets idx
      ({ m with
        tickets := if tickets = [] then m.tickets.erase pos else m.tickets.insert pos tickets
        dirty := true }, true)

def removeAllTicketsAt (m : ChunkTicketManager) (pos : ChunkPos) : ChunkTicketManager × Bool :=
  match m.tickets.lookup pos with
  | none => (m, false)
  | some _ => ({ m with tickets := m.tickets.erase pos, dirty := true }, true)

def propagate (m : ChunkTicketManager) (order : IterOrder) : LevelMap × LevelMap :=
  (order.walk m.tickets.keys).foldl (fun maps source => propagateSource (m.ticketsAt source) source maps) (∅, ∅)

def runAllUpdates (m : ChunkTicketManager) (o : UpdateOrders) : ChunkTicketManager :=
  if m.dirty then
    let maps := m.propagate o.tickets
    { m with
      levels := maps.1
      simulationLevels := maps.2
      dirty := false
      changes := changedLevels o.levels m.levels maps.1 maps.2 ++ removedLevels o.oldLevels m.levels maps.1 ++
        (changedSimulation o.simulationLevels m.levels maps.1 m.simulationLevels maps.2 ++
          removedSimulation o.oldSimulationLevels m.levels maps.1 m.simulationLevels maps.2) }
  else { m with changes := [] }

def getLevel (m : ChunkTicketManager) (pos : ChunkPos) : Option ChunkTicketLevel := m.levels.lookup pos

def getSimulationLevel (m : ChunkTicketManager) (pos : ChunkPos) : Option ChunkTicketLevel :=
  m.simulationLevels.lookup pos

end ChunkTicketManager

inductive TicketOp where
  | addTicket (pos : ChunkPos) (ticket : ChunkTicket)
  | removeTicket (pos : ChunkPos) (ticket : ChunkTicket)
  | removeAllTicketsAt (pos : ChunkPos)
  | runAllUpdates (o : UpdateOrders)

def ChunkTicketManager.exec (m : ChunkTicketManager) : TicketOp → ChunkTicketManager
  | .addTicket pos ticket => m.addTicket pos ticket
  | .removeTicket pos ticket => (m.removeTicket pos ticket).1
  | .removeAllTicketsAt pos => (m.removeAllTicketsAt pos).1
  | .runAllUpdates o => m.runAllUpdates o

/-! ## Held tickets -/

/-- The tickets held at each position. -/
abbrev HeldTickets : Type := ChunkPos → Multiset ChunkTicket

namespace HeldTickets

def step (h : HeldTickets) : TicketOp → HeldTickets
  | .addTicket pos ticket => Function.update h pos (ticket ::ₘ h pos)
  | .removeTicket pos ticket => Function.update h pos ((h pos).erase ticket)
  | .removeAllTicketsAt pos => Function.update h pos 0
  | .runAllUpdates _ => h

/-- The tickets held after a sequence of operations. -/
def after (ops : List TicketOp) : HeldTickets := ops.foldl step fun _ => 0

end HeldTickets

end Foton
