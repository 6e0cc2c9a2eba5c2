import Foton.Lib.AssocList
import Foton.Lib.PriorityQueue
import Mathlib.Data.Prod.Lex
import Mathlib.Algebra.Ring.Nat

/-!
# The packet queue

Packets wait in one lane for each player. Three heaps hold the lanes that could
start their first packet, two more the queued packets whose class restricts the
others. Each operation runs under the queue's lock; a failed assertion is an
error with its message.
-/

namespace Foton

inductive ScheduledPacketExecution where
  | playerLocal
  | serialized
  | exclusive
  deriving DecidableEq

inductive PacketPhase where
  | closed
  | opened
  | draining (beforeSequence : Nat)
  | stopped
  deriving DecidableEq

structure SequencedPacket (T : Type) where
  sequence : Nat
  execution : ScheduledPacketExecution
  admissionBytes : Nat
  value : T
  deriving DecidableEq

structure PacketLane (T : Type) where
  queued : List (SequencedPacket T)
  active : Bool
  outstandingPackets : Nat
  outstandingBytes : Nat
  deriving DecidableEq

structure PacketAdmissionLimits where
  perPlayerPackets : Nat
  perPlayerBytes : Nat

inductive PacketAdmissionError where
  | stopped
  | playerPacketLimit
  | playerByteLimit
  deriving DecidableEq

/-- The least sequence leaves the heap first. -/
abbrev ReadyHeap (K : Type) [LinearOrder K] : Type := PriorityQueue (toLex : Nat × K → Nat ×ₗ K)

abbrev SequenceHeap : Type := PriorityQueue (id : Nat → Nat)

structure PacketQueueState (K T : Type) [LinearOrder K] where
  phase : PacketPhase
  lanes : AssocList K (PacketLane T)
  playerLocalReady : ReadyHeap K
  serializedReady : ReadyHeap K
  exclusiveReady : ReadyHeap K
  serialized : SequenceHeap
  exclusive : SequenceHeap
  nextSequence : Nat
  active : Nat
  serializedActive : Bool
  exclusiveActive : Bool
  completed : Nat

/-- A started packet. The source keeps no sequence with it, here it tells which packet it is. -/
structure PacketWork (K T : Type) where
  key : K
  packet : SequencedPacket T
  deriving DecidableEq

/-- A Rust assertion. -/
def assertThat (condition : Bool) (message : String) : Except String Unit :=
  if condition then .ok () else .error message

/-- A value that the source unwraps or panics without. -/
def expectSome {α : Type} (value : Option α) (message : String) : Except String α :=
  match value with
  | some a => .ok a
  | none => .error message

/-- `heap.pop` with the assertion that it gives `entry`. -/
def popEntry {α κ : Type} [LinearOrder κ] [DecidableEq α] {key : α → κ} (heap : PriorityQueue key) (entry : α)
    (message : String) : Except String (PriorityQueue key) :=
  match heap.pop with
  | none => .error message
  | some (first, rest) => if first = entry then .ok rest else .error message

def maxU64 : Nat := 2 ^ 64 - 1

namespace PacketLane

variable {T : Type}

def new : PacketLane T := ⟨[], false, 0, 0⟩

/-- A packet pushed now is the front of the lane, and nothing of the lane runs. -/
def becomesReady (lane : PacketLane T) : Bool := !lane.active && lane.queued.isEmpty

def pushBack (lane : PacketLane T) (packet : SequencedPacket T) : PacketLane T :=
  { lane with
    outstandingPackets := lane.outstandingPackets + 1
    outstandingBytes := lane.outstandingBytes + packet.admissionBytes
    queued := lane.queued ++ [packet] }

/-- The lane without its queued packets. -/
def clearQueued (lane : PacketLane T) (while_ : String) : Except String (PacketLane T) := do
  let discardedPackets := lane.queued.length
  let discardedBytes := (lane.queued.map SequencedPacket.admissionBytes).sum
  assertThat (discardedPackets ≤ lane.outstandingPackets)
    s!"session packet admission accounting underflow while {while_}"
  assertThat (discardedBytes ≤ lane.outstandingBytes) s!"session byte admission accounting underflow while {while_}"
  .ok { lane with
    queued := []
    outstandingPackets := lane.outstandingPackets - discardedPackets
    outstandingBytes := lane.outstandingBytes - discardedBytes }

/-- `stop` keeps a lane while its packet runs. -/
def stopLane (lane : PacketLane T) : Option (PacketLane T) :=
  match lane.clearQueued "stopping" with
  | .ok cleared => if cleared.active then some cleared else none
  | .error _ => none

end PacketLane

namespace PacketQueueState

variable {K T : Type} [LinearOrder K]

def new : PacketQueueState K T :=
  ⟨.closed, ∅, .empty, .empty, .empty, .empty, .empty, 0, 0, false, false, 0⟩

def readyHeap (s : PacketQueueState K T) : ScheduledPacketExecution → ReadyHeap K
  | .playerLocal => s.playerLocalReady
  | .serialized => s.serializedReady
  | .exclusive => s.exclusiveReady

def markReady (s : PacketQueueState K T) (sequence : Nat) (key : K) : ScheduledPacketExecution → PacketQueueState K T
  | .playerLocal => { s with playerLocalReady := s.playerLocalReady.push (sequence, key) }
  | .serialized => { s with serializedReady := s.serializedReady.push (sequence, key) }
  | .exclusive => { s with exclusiveReady := s.exclusiveReady.push (sequence, key) }

section
variable (s : PacketQueueState K T) (n : Nat) (key : K) (e e' : ScheduledPacketExecution)

@[simp] theorem markReady_phase : (s.markReady n key e).phase = s.phase := by cases e <;> rfl
@[simp] theorem markReady_lanes : (s.markReady n key e).lanes = s.lanes := by cases e <;> rfl
@[simp] theorem markReady_serialized : (s.markReady n key e).serialized = s.serialized := by cases e <;> rfl
@[simp] theorem markReady_exclusive : (s.markReady n key e).exclusive = s.exclusive := by cases e <;> rfl
@[simp] theorem markReady_nextSequence : (s.markReady n key e).nextSequence = s.nextSequence := by cases e <;> rfl
@[simp] theorem markReady_active : (s.markReady n key e).active = s.active := by cases e <;> rfl
@[simp] theorem markReady_serializedActive : (s.markReady n key e).serializedActive = s.serializedActive := by
  cases e <;> rfl
@[simp] theorem markReady_exclusiveActive : (s.markReady n key e).exclusiveActive = s.exclusiveActive := by
  cases e <;> rfl

@[simp]
theorem readyHeap_markReady : (s.markReady n key e).readyHeap e' =
    if e' = e then (s.readyHeap e').push (n, key) else s.readyHeap e' := by
  cases e <;> cases e' <;> rfl

end

def nextReadySequence (s : PacketQueueState K T) : Option Nat :=
  ([s.playerLocalReady.peek, s.serializedReady.peek, s.exclusiveReady.peek].filterMap fun entry =>
    entry.map Prod.fst).min?

def indexSequence (s : PacketQueueState K T) (sequence : Nat) : ScheduledPacketExecution → PacketQueueState K T
  | .playerLocal => s
  | .serialized => { s with serialized := s.serialized.push sequence }
  | .exclusive => { s with exclusive := s.exclusive.push sequence }

/-- The queue after an accepted packet. -/
def enqueue (s : PacketQueueState K T) (key : K) (packet : SequencedPacket T) : PacketQueueState K T :=
  let lane := (s.lanes.lookup key).getD .new
  let s := { s with nextSequence := packet.sequence + 1, lanes := s.lanes.insert key (lane.pushBack packet) }
  let s := if lane.becomesReady then s.markReady packet.sequence key packet.execution else s
  s.indexSequence packet.sequence packet.execution

section
variable (s : PacketQueueState K T) (n : Nat) (e e' : ScheduledPacketExecution)

@[simp] theorem indexSequence_phase : (s.indexSequence n e).phase = s.phase := by cases e <;> rfl
@[simp] theorem indexSequence_lanes : (s.indexSequence n e).lanes = s.lanes := by cases e <;> rfl
@[simp] theorem indexSequence_nextSequence : (s.indexSequence n e).nextSequence = s.nextSequence := by cases e <;> rfl
@[simp] theorem indexSequence_active : (s.indexSequence n e).active = s.active := by cases e <;> rfl
@[simp] theorem indexSequence_serializedActive : (s.indexSequence n e).serializedActive = s.serializedActive := by
  cases e <;> rfl
@[simp] theorem indexSequence_exclusiveActive : (s.indexSequence n e).exclusiveActive = s.exclusiveActive := by
  cases e <;> rfl
@[simp] theorem readyHeap_indexSequence : (s.indexSequence n e).readyHeap e' = s.readyHeap e' := by
  cases e <;> rfl

@[simp]
theorem indexSequence_serialized : (s.indexSequence n e).serialized =
    if e = .serialized then s.serialized.push n else s.serialized := by
  cases e <;> rfl

@[simp]
theorem indexSequence_exclusive : (s.indexSequence n e).exclusive =
    if e = .exclusive then s.exclusive.push n else s.exclusive := by
  cases e <;> rfl

@[simp]
theorem readyHeap_lanes (lanes : AssocList K (PacketLane T)) :
    { s with nextSequence := n, lanes := lanes }.readyHeap e = s.readyHeap e := by
  cases e <;> rfl

end

section
variable (s : PacketQueueState K T) (key : K) (packet : SequencedPacket T)

@[simp] theorem enqueue_phase : (s.enqueue key packet).phase = s.phase := by
  unfold enqueue; dsimp only; split <;> simp
@[simp] theorem enqueue_nextSequence : (s.enqueue key packet).nextSequence = packet.sequence + 1 := by
  unfold enqueue; dsimp only; split <;> simp
@[simp] theorem enqueue_active : (s.enqueue key packet).active = s.active := by
  unfold enqueue; dsimp only; split <;> simp
@[simp] theorem enqueue_serializedActive : (s.enqueue key packet).serializedActive = s.serializedActive := by
  unfold enqueue; dsimp only; split <;> simp
@[simp] theorem enqueue_exclusiveActive : (s.enqueue key packet).exclusiveActive = s.exclusiveActive := by
  unfold enqueue; dsimp only; split <;> simp

@[simp]
theorem enqueue_serialized : (s.enqueue key packet).serialized =
    if packet.execution = .serialized then s.serialized.push packet.sequence else s.serialized := by
  unfold enqueue; dsimp only; split <;> simp

@[simp]
theorem enqueue_exclusive : (s.enqueue key packet).exclusive =
    if packet.execution = .exclusive then s.exclusive.push packet.sequence else s.exclusive := by
  unfold enqueue; dsimp only; split <;> simp

end

def trySubmit (limits : PacketAdmissionLimits) (s : PacketQueueState K T) (key : K)
    (execution : ScheduledPacketExecution) (admissionBytes : Nat) (value : T) :
    Except String (Except PacketAdmissionError (PacketQueueState K T)) :=
  if s.phase = .stopped then .ok (.error .stopped)
  else
    let player := ((s.lanes.lookup key).map fun lane => (lane.outstandingPackets, lane.outstandingBytes)).getD (0, 0)
    if limits.perPlayerPackets ≤ player.1 then .ok (.error .playerPacketLimit)
    else if limits.perPlayerBytes - player.2 < admissionBytes then .ok (.error .playerByteLimit)
    else if s.nextSequence = maxU64 then .error "packet submission sequence exhausted"
    else .ok (.ok (s.enqueue key ⟨s.nextSequence, execution, admissionBytes, value⟩))

/-- The entry is taken when nothing forbids it and it comes before what is selected so far. -/
def consider (beforeSequence nextExclusive : Option Nat) (entry : Option (Nat × K))
    (execution : ScheduledPacketExecution) (selected : Option (Nat × K × ScheduledPacketExecution)) :
    Option (Nat × K × ScheduledPacketExecution) :=
  match entry with
  | none => selected
  | some (sequence, key) =>
    if beforeSequence.any (· ≤ sequence) || nextExclusive.any (· < sequence) then selected
    else if selected.all (sequence < ·.1) then some (sequence, key, execution)
    else selected

def selectNext (s : PacketQueueState K T) (beforeSequence : Option Nat) :
    Option (Nat × K × ScheduledPacketExecution) :=
  if s.exclusiveActive then none
  else
    let nextExclusive := s.exclusive.peek
    let nextSerialized := s.serialized.peek
    let selected := consider beforeSequence nextExclusive s.playerLocalReady.peek .playerLocal none
    let selected :=
      if !s.serializedActive && s.serializedReady.peek.any (some ·.1 = nextSerialized) then
        consider beforeSequence nextExclusive s.serializedReady.peek .serialized selected
      else selected
    if s.active = 0 && s.exclusiveReady.peek.any (some ·.1 = nextExclusive) then
      consider beforeSequence nextExclusive s.exclusiveReady.peek .exclusive selected
    else selected

/-- The selected packet leaves the heaps, and its class becomes active. -/
def takeReady (s : PacketQueueState K T) (sequence : Nat) (key : K) :
    ScheduledPacketExecution → Except String (PacketQueueState K T)
  | .playerLocal => do
    let playerLocalReady ← popEntry s.playerLocalReady (sequence, key)
      "player-local ready queue changed while the queue lock was held"
    .ok { s with playerLocalReady := playerLocalReady }
  | .serialized => do
    let serializedReady ← popEntry s.serializedReady (sequence, key)
      "serialized ready queue changed while the queue lock was held"
    let serialized ← popEntry s.serialized sequence "serialized packet order changed while the queue lock was held"
    assertThat (!s.serializedActive) "serialized packet started while another was active"
    .ok { s with serializedReady := serializedReady, serialized := serialized, serializedActive := true }
  | .exclusive => do
    let exclusiveReady ← popEntry s.exclusiveReady (sequence, key)
      "exclusive ready queue changed while the queue lock was held"
    let exclusive ← popEntry s.exclusive sequence "exclusive packet barrier changed while the queue lock was held"
    .ok { s with exclusiveReady := exclusiveReady, exclusive := exclusive, exclusiveActive := true }

def startNext (s : PacketQueueState K T) (beforeSequence : Option Nat) :
    Except String (Option (PacketWork K T × PacketQueueState K T)) :=
  match s.selectNext beforeSequence with
  | none => .ok none
  | some (readySequence, key, execution) => do
    let lane ← expectSome (s.lanes.lookup key) "ready packet lane disappeared before starting"
    assertThat (!lane.active) "ready packet lane is already active"
    let packet ← expectSome lane.queued.head? "ready packet lane has no queued packet"
    assertThat (readySequence = packet.sequence) "ready packet sequence does not match lane front"
    assertThat (execution = packet.execution) "packet is registered in the wrong ready queue"
    let s ← s.takeReady readySequence key execution
    let lane ← expectSome (s.lanes.lookup key) "ready packet lane disappeared before removal"
    let packet ← expectSome lane.queued.head? "ready packet lane has no queued packet during removal"
    .ok (some (⟨key, packet⟩,
      { s with lanes := s.lanes.insert key { lane with queued := lane.queued.tail, active := true } }))

/-- The cutoff under which packets start; `none` when a phase starts none. -/
def startCutoff : PacketPhase → Option (Option Nat)
  | .opened => some none
  | .draining beforeSequence => some (some beforeSequence)
  | .closed | .stopped => none

/-- One round of the worker's loop; `none` when it waits or ends. -/
def next (s : PacketQueueState K T) : Except String (Option (PacketWork K T × PacketQueueState K T)) :=
  match startCutoff s.phase with
  | none => .ok none
  | some beforeSequence =>
    (s.startNext beforeSequence).map (Option.map fun started => (started.1, { started.2 with active := started.2.active + 1 }))

/-- The class of a completed packet is no longer active. -/
def releaseClass (s : PacketQueueState K T) : ScheduledPacketExecution → Except String (PacketQueueState K T)
  | .playerLocal => .ok s
  | .serialized => do
    assertThat s.serializedActive "serialized packet is not active"
    .ok { s with serializedActive := false }
  | .exclusive => do
    assertThat s.exclusiveActive "exclusive packet is not active"
    .ok { s with exclusiveActive := false }

/-- The lane of a completed packet gets ready, or is removed when it is empty. -/
def reviveLane (s : PacketQueueState K T) (key : K) (nextSequence : Option Nat) : Except String (PacketQueueState K T) :=
  match nextSequence with
  | some sequence => do
    let lane ← expectSome (s.lanes.lookup key) "packet lane disappeared before its next packet became ready"
    let packet ← expectSome lane.queued.head? "packet lane has no next packet after reporting its sequence"
    .ok (s.markReady sequence key packet.execution)
  | none => do
    let lane ← expectSome (s.lanes.lookup key) "completed packet lane disappeared before removal"
    assertThat (lane.outstandingPackets = 0) "assertion `left == right` failed"
    assertThat (lane.outstandingBytes = 0) "assertion `left == right` failed"
    .ok { s with lanes := s.lanes.erase key }

def finishOne (s : PacketQueueState K T) (key : K) (execution : ScheduledPacketExecution) (admissionBytes : Nat) :
    Except String (PacketQueueState K T) := do
  assertThat (0 < s.active) "packet work accounting underflow"
  let s ← { s with active := s.active - 1, completed := (s.completed + 1) % 2 ^ 64 }.releaseClass execution
  let lane ← expectSome (s.lanes.lookup key) "active packet lane disappeared before completion"
  assertThat lane.active "completed packet lane is not active"
  assertThat (0 < lane.outstandingPackets) "session packet admission accounting underflow on completion"
  assertThat (admissionBytes ≤ lane.outstandingBytes) "session byte admission accounting underflow on completion"
  let lane := { lane with
    active := false
    outstandingPackets := lane.outstandingPackets - 1
    outstandingBytes := lane.outstandingBytes - admissionBytes }
  { s with lanes := s.lanes.insert key lane }.reviveLane key (lane.queued.head?.map SequencedPacket.sequence)

/-- The phase opens unless the queue has stopped. -/
def openQueue (s : PacketQueueState K T) : PacketQueueState K T :=
  if s.phase = .stopped then s else { s with phase := .opened }

/-- The cutoff of the drain and whether workers are woken for it. -/
def beginTickDrain (s : PacketQueueState K T) : Option (Nat × Bool) × PacketQueueState K T :=
  match s.phase with
  | .stopped => (none, s)
  | .draining beforeSequence => (some (beforeSequence, (s.selectNext (some beforeSequence)).isSome), s)
  | .closed | .opened =>
    let beforeSequence := s.nextSequence
    let s := { s with phase := .draining beforeSequence }
    (some (beforeSequence, (s.selectNext (some beforeSequence)).isSome), s)

def finishTickDrain (s : PacketQueueState K T) (beforeSequence : Nat) : PacketQueueState K T :=
  if s.phase = .draining beforeSequence then { s with phase := .closed } else s

def tickDrainComplete (s : PacketQueueState K T) (beforeSequence : Nat) : Bool :=
  if s.phase = .stopped then true
  else if s.active ≠ 0 then false
  else s.nextReadySequence.all (beforeSequence ≤ ·)

/-- The queue without the queued packets of `lane`. -/
def dropQueued (s : PacketQueueState K T) (key : K) (lane cleared : PacketLane T) : PacketQueueState K T :=
  let discardedSequences := lane.queued.map SequencedPacket.sequence
  { s with
    playerLocalReady := s.playerLocalReady.retain (·.2 ≠ key)
    serializedReady := s.serializedReady.retain (·.2 ≠ key)
    exclusiveReady := s.exclusiveReady.retain (·.2 ≠ key)
    serialized := s.serialized.retain (· ∉ discardedSequences)
    exclusive := s.exclusive.retain (· ∉ discardedSequences)
    lanes := if lane.active then s.lanes.insert key cleared else s.lanes.erase key }

/-- The queue and the packets that were discarded. -/
def discardLane (s : PacketQueueState K T) (key : K) :
    Except String (PacketQueueState K T × List (SequencedPacket T)) :=
  match s.lanes.lookup key with
  | none => .ok (s, [])
  | some lane =>
    if lane.queued = [] then .ok (s, [])
    else (lane.clearQueued "discarding").map fun cleared => (s.dropQueued key lane cleared, lane.queued)

/-- The queue and the packets that were discarded. A failed assertion of one lane fails the whole. -/
def stop (s : PacketQueueState K T) : Except String (PacketQueueState K T × List (PacketWork K T)) := do
  let _ ← s.lanes.entries.mapM fun entry => entry.2.clearQueued "stopping"
  .ok ({ s with
    phase := .stopped
    playerLocalReady := .empty
    serializedReady := .empty
    exclusiveReady := .empty
    serialized := .empty
    exclusive := .empty
    lanes := s.lanes.retainMap PacketLane.stopLane },
    s.lanes.entries.flatMap fun entry => entry.2.queued.map (PacketWork.mk entry.1))

end PacketQueueState

end Foton
