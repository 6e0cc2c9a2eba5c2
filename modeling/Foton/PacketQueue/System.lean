import Foton.Lib.Run
import Foton.PacketQueue.State

/-!
# Workers and network tasks around the packet queue

Any number of network tasks submit packets and discard lanes, any number of
workers start and finish them, and the tick opens, drains and closes the phase.
The log records what happened to each packet.
-/

namespace Foton

variable {K T : Type} [LinearOrder K]

inductive PacketEvent (K T : Type) where
  | submit (packet : PacketWork K T)
  | start (phase : PacketPhase) (packet : PacketWork K T)
  | finish (packet : PacketWork K T)
  | discard (packet : PacketWork K T)

structure PacketSystem (K T : Type) [LinearOrder K] where
  queue : PacketQueueState K T
  /-- The packets that workers hold. -/
  works : List (PacketWork K T)
  log : List (PacketEvent K T)

inductive PacketOp (K T : Type) where
  | trySubmit (key : K) (execution : ScheduledPacketExecution) (admissionBytes : Nat) (value : T)
  | openQueue
  | beginTickDrain
  | finishTickDrain (beforeSequence : Nat)
  | discardLane (key : K)
  | stop
  | next
  | finishOne (work : PacketWork K T)

namespace PacketSystem

def new : PacketSystem K T := ⟨.new, [], []⟩

variable [DecidableEq T]

def exec (limits : PacketAdmissionLimits) (s : PacketSystem K T) : PacketOp K T → Except String (PacketSystem K T)
  | .trySubmit key execution admissionBytes value =>
    (s.queue.trySubmit limits key execution admissionBytes value).map fun
      | .error _ => s
      | .ok queue =>
        ⟨queue, s.works, s.log ++ [.submit ⟨key, ⟨s.queue.nextSequence, execution, admissionBytes, value⟩⟩]⟩
  | .openQueue => .ok { s with queue := s.queue.openQueue }
  | .beginTickDrain => .ok { s with queue := s.queue.beginTickDrain.2 }
  | .finishTickDrain beforeSequence => .ok { s with queue := s.queue.finishTickDrain beforeSequence }
  | .discardLane key => (s.queue.discardLane key).map fun (queue, packets) =>
    ⟨queue, s.works, s.log ++ packets.map fun packet => .discard ⟨key, packet⟩⟩
  | .stop => s.queue.stop.map fun (queue, packets) => ⟨queue, s.works, s.log ++ packets.map .discard⟩
  | .next => s.queue.next.map fun
    | none => s
    | some (work, queue) => ⟨queue, s.works ++ [work], s.log ++ [.start s.queue.phase work]⟩
  | .finishOne work =>
    (s.queue.finishOne work.key work.packet.execution work.packet.admissionBytes).map fun queue =>
      ⟨queue, s.works.erase work, s.log ++ [.finish work]⟩

/-- Only a packet that a worker holds is finished. -/
def Enabled (s : PacketSystem K T) : PacketOp K T → Prop
  | .finishOne work => work ∈ s.works
  | _ => True

def Step (limits : PacketAdmissionLimits) (s : PacketSystem K T) (op : PacketOp K T) (s' : PacketSystem K T) : Prop :=
  s.Enabled op ∧ s.exec limits op = .ok s'

def Reachable (limits : PacketAdmissionLimits) (s : PacketSystem K T) : Prop := ∃ ops, Run (Step limits) new ops s

end PacketSystem

/-! ## Views of the queue -/

/-- The packet a lane could start. -/
def PacketLane.front (lane : PacketLane T) : Option (SequencedPacket T) :=
  if lane.active then none else lane.queued.head?

namespace PacketQueueState

def queuedIn (s : PacketQueueState K T) (key : K) : List (SequencedPacket T) :=
  ((s.lanes.lookup key).map PacketLane.queued).getD []

def frontOf (s : PacketQueueState K T) (key : K) : Option (SequencedPacket T) :=
  (s.lanes.lookup key).bind PacketLane.front

end PacketQueueState

/-- The packets of a lane that workers hold. -/
def heldIn (works : List (PacketWork K T)) (key : K) : List (PacketWork K T) := works.filter (·.key = key)

/-- A lane counts its queued packets and the one a worker holds. -/
structure PacketLane.Exact (held : List (PacketWork K T)) (lane : PacketLane T) : Prop where
  active : held.length = lane.active.toNat
  packets : lane.outstandingPackets = lane.queued.length + held.length
  bytes : lane.outstandingBytes = (lane.queued.map SequencedPacket.admissionBytes).sum +
    (held.map fun w => w.packet.admissionBytes).sum

/-- Only a lane with a queued packet or a held one is kept. -/
def LaneKept (held : List (PacketWork K T)) : Option (PacketLane T) → Prop
  | none => held = []
  | some lane => lane.Exact held ∧ (lane.active = true ∨ lane.queued ≠ [])

/-- Sequences grow along a lane, and no two lanes share one. -/
structure QueuesOrdered (s : PacketQueueState K T) : Prop where
  sorted : ∀ key, (s.queuedIn key).Pairwise (·.sequence < ·.sequence)
  below : ∀ key, ∀ p ∈ s.queuedIn key, p.sequence < s.nextSequence
  distinct : ∀ key key', ∀ p ∈ s.queuedIn key, ∀ p' ∈ s.queuedIn key', p.sequence = p'.sequence → key = key'

/-- A heap of sequences has those of one class. -/
structure SequencesExact (s : PacketQueueState K T) (execution : ScheduledPacketExecution) (heap : SequenceHeap) :
    Prop where
  nodup : heap.toList.Nodup
  mem : ∀ n, n ∈ heap.toList ↔ ∃ key, ∃ p ∈ s.queuedIn key, p.sequence = n ∧ p.execution = execution

/-- A heap has the fronts of the inactive lanes that have its class. -/
structure ReadyExact (s : PacketQueueState K T) (execution : ScheduledPacketExecution) (heap : ReadyHeap K) : Prop where
  nodup : heap.toList.Nodup
  mem : ∀ n key, (n, key) ∈ heap.toList ↔ ∃ p, s.frontOf key = some p ∧ p.sequence = n ∧ p.execution = execution

/-- The counters of what runs. -/
structure ActiveExact (s : PacketQueueState K T) (works : List (PacketWork K T)) : Prop where
  active : s.active = works.length
  serializedActive : (works.filter (·.packet.execution = .serialized)).length = s.serializedActive.toNat
  exclusiveActive : (works.filter (·.packet.execution = .exclusive)).length = s.exclusiveActive.toNat
  alone : s.exclusiveActive = true → works.length = 1

structure PacketQueueState.Exact (s : PacketQueueState K T) (works : List (PacketWork K T)) : Prop where
  lanes : ∀ key, LaneKept (heldIn works key) (s.lanes.lookup key)
  ordered : QueuesOrdered s
  ready : ∀ execution, ReadyExact s execution (s.readyHeap execution)
  serialized : SequencesExact s .serialized s.serialized
  exclusive : SequencesExact s .exclusive s.exclusive
  running : ActiveExact s works
  stopped : s.phase = .stopped → ∀ key, s.queuedIn key = []

end Foton
