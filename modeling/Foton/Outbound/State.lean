import Foton.Lib.Permits

/-!
# The outbound packet queue

Senders acquire permits of several budgets one after another, then a slot of a
channel; whoever fails on the way gives back what it has. The receiver takes
envelopes from a data and a control channel. Permits live as long as the packets
that own them.
-/

namespace Foton.Outbound

structure EncodedPacket where
  encodedData : List UInt8
  deriving DecidableEq

inductive OutboundPacket where
  | packet (packet : EncodedPacket)
  | silent (packet : EncodedPacket)
  | disconnect (packet : EncodedPacket)
  deriving DecidableEq

def OutboundPacket.encodedPacket : OutboundPacket → EncodedPacket
  | .packet p => p
  | .silent p => p
  | .disconnect p => p

inductive OutboundBatchLane where
  | reliable
  | chunk
  deriving DecidableEq

/-! ## Budgets -/

/-- The semaphores, those of one connection with its number. -/
inductive Budget where
  | reliableEntry (connection : Nat)
  | chunkEntry (connection : Nat)
  | controlEntry (connection : Nat)
  | byte (connection : Nat)
  | nonControlByte (connection : Nat)
  | chunkByte (connection : Nat)
  | globalEntry
  | globalNonControlEntry
  | globalByte
  | globalNonControlByte
  | globalChunkByte
  deriving DecidableEq

def outboundPacketQueueEntryCapacity : Nat := 384 * 1024

def outboundChunkQueueEntryCapacity : Nat := 256

def outboundControlEntryReserve : Nat := 16

def outboundEnvelopeQueueCapacity : Nat := outboundPacketQueueEntryCapacity + outboundChunkQueueEntryCapacity

def outboundControlByteReserve : Nat := 64 * 1024

def outboundReliableByteReserve : Nat := 1024 * 1024

structure GlobalOutboundBudget where
  entryBudget : Nat
  nonControlEntryBudget : Nat
  byteBudget : Nat
  nonControlByteBudget : Nat
  chunkByteBudget : Nat

/-- The permits of every semaphore at the start. -/
def capacity (byteBudget : Nat) (globalBudget : GlobalOutboundBudget) : Budget → Nat :=
  let controlByteReserve := min outboundControlByteReserve (byteBudget / 4)
  let nonControlByteCapacity := byteBudget - controlByteReserve
  let reliableByteReserve := min outboundReliableByteReserve (nonControlByteCapacity / 4)
  fun
  | .reliableEntry _ => outboundPacketQueueEntryCapacity
  | .chunkEntry _ => outboundChunkQueueEntryCapacity
  | .controlEntry _ => outboundControlEntryReserve
  | .byte _ => byteBudget
  | .nonControlByte _ => nonControlByteCapacity
  | .chunkByte _ => nonControlByteCapacity - reliableByteReserve
  | .globalEntry => globalBudget.entryBudget
  | .globalNonControlEntry => globalBudget.nonControlEntryBudget
  | .globalByte => globalBudget.byteBudget
  | .globalNonControlByte => globalBudget.nonControlByteBudget
  | .globalChunkByte => globalBudget.chunkByteBudget

/-! ## Requests -/

/-- A call of `try_send`, `try_send_control` or `try_send_packet_batch`. -/
inductive Request where
  | trySend (packet : OutboundPacket)
  | trySendControl (packet : OutboundPacket)
  | trySendPacketBatch (packets : List EncodedPacket) (lane : OutboundBatchLane)
  deriving DecidableEq

inductive Channel where
  | data
  | control
  deriving DecidableEq

def Channel.other : Channel → Channel
  | data => control
  | control => data

def encodedBytes (packet : EncodedPacket) : Nat := max packet.encodedData.length 1

def tryU32 (n : Nat) : Option Nat := if n < 2 ^ 32 then some n else none

/-- `usize::checked_add`. -/
def checkedAdd (a b : Nat) : Option Nat := if a + b < 2 ^ 64 then some (a + b) else none

namespace Request

def packets : Request → List EncodedPacket
  | trySend packet => [packet.encodedPacket]
  | trySendControl packet => [packet.encodedPacket]
  | trySendPacketBatch packets _ => packets

def channel : Request → Channel
  | trySend _ => .data
  | trySendControl _ => .control
  | trySendPacketBatch _ _ => .data

/-- The permits that are acquired, in this order. A request that is too large has none. -/
def permits (connection : Nat) : Request → Option (Permits Budget)
  | trySend packet => do
    let encodedBytes ← tryU32 (encodedBytes packet.encodedPacket)
    return [(.reliableEntry connection, 1), (.globalEntry, 1), (.globalNonControlEntry, 1), (.byte connection, encodedBytes),
      (.nonControlByte connection, encodedBytes), (.globalByte, encodedBytes), (.globalNonControlByte, encodedBytes)]
  | trySendControl packet => do
    let encodedBytes ← tryU32 (encodedBytes packet.encodedPacket)
    return [(.controlEntry connection, 1), (.globalEntry, 1), (.byte connection, encodedBytes), (.globalByte, encodedBytes)]
  | trySendPacketBatch packets lane => do
    let packetCount ← tryU32 packets.length
    let total ← packets.foldlM (fun total packet => checkedAdd total (encodedBytes packet)) 0
    let encodedBytes ← tryU32 total
    let entryBudget := if lane = .chunk then Budget.chunkEntry connection else .reliableEntry connection
    return [(entryBudget, packetCount), (.globalEntry, packetCount), (.globalNonControlEntry, packetCount),
        (.byte connection, encodedBytes), (.nonControlByte connection, encodedBytes), (.globalByte, encodedBytes),
        (.globalNonControlByte, encodedBytes)] ++
      if lane = .chunk then [(.chunkByte connection, encodedBytes), (.globalChunkByte, encodedBytes)] else []

end Request

/-! ## The state -/

/-- A packet, and which permit set it owns or shares. -/
structure QueuedOutboundPacket where
  packet : OutboundPacket
  budget : Nat
  deriving DecidableEq

inductive QueuedOutboundEnvelope where
  | single (packet : QueuedOutboundPacket)
  | batch (packets : List QueuedOutboundPacket)

def QueuedOutboundEnvelope.packets : QueuedOutboundEnvelope → List QueuedOutboundPacket
  | .single packet => [packet]
  | .batch packets => packets

def Request.envelope (budget : Nat) : Request → QueuedOutboundEnvelope
  | trySend packet => .single ⟨packet, budget⟩
  | trySendControl packet => .single ⟨packet, budget⟩
  | trySendPacketBatch packets _ => .batch (packets.map fun packet => ⟨.packet packet, budget⟩)

/-- The permits of an admitted request, with the number of packets that own them. -/
structure PermitSet where
  id : Nat
  connection : Nat
  request : Request
  permits : Permits Budget
  owners : Nat

inductive Phase where
  | acquiring (missing : Permits Budget)
  | reserved
  | rejecting

/-- A call in progress. `held` has the latest permit first. -/
structure Call where
  connection : Nat
  request : Request
  held : Permits Budget
  phase : Phase

inductive SendResult where
  | ok
  | full (returned : Request)
  deriving DecidableEq

/-- What the receiver took, and whether data was queued then. -/
structure Reception where
  channel : Channel
  envelope : QueuedOutboundEnvelope
  dataQueued : Bool

/-- A connection's channels and its receiver. `polled` tells that the first channel has just been found empty. -/
structure Connection where
  queue : Channel → List QueuedOutboundEnvelope
  slots : Channel → Nat
  activeBatch : List QueuedOutboundPacket
  controlWasSelected : Bool
  polled : Bool
  inHand : List QueuedOutboundPacket
  sent : Channel → List QueuedOutboundEnvelope
  received : List Reception
  delivered : List QueuedOutboundPacket

structure State where
  available : Budget → Nat
  calls : List Call
  permitSets : List PermitSet
  /-- Permits of dropped packets that are on their way back. -/
  returning : Permits Budget
  connections : Nat → Connection
  nextPermitSet : Nat
  results : List (Nat × Request × SendResult)

def Connection.new : Connection where
  queue _ := []
  slots
    | .data => outboundEnvelopeQueueCapacity
    | .control => outboundControlEntryReserve
  activeBatch := []
  controlWasSelected := false
  polled := false
  inHand := []
  sent _ := []
  received := []
  delivered := []

def State.new (capacity : Budget → Nat) : State := ⟨capacity, [], [], [], fun _ => .new, 0, []⟩

/-! ## Senders -/

namespace State

def setConnection (s : State) (id : Nat) (connection : Connection) : State :=
  { s with connections := Function.update s.connections id connection }

def finish (s : State) (connection : Nat) (request : Request) (result : SendResult) : State :=
  { s with results := s.results ++ [(connection, request, result)] }

def start (s : State) (connection : Nat) (request : Request) : State :=
  if request.packets = [] then s.finish connection request .ok
  else
    match request.permits connection with
    | none => s.finish connection request (.full request)
    | some permits => { s with calls := s.calls ++ [⟨connection, request, [], .acquiring permits⟩] }

/-- `try_reserve`. -/
def reserve (s : State) (i : Nat) (call : Call) : State :=
  let connection := s.connections call.connection
  match connection.slots call.request.channel with
  | 0 => { s with calls := s.calls.set i { call with phase := .rejecting } }
  | slots + 1 =>
    { s with calls := s.calls.set i { call with phase := .reserved } }.setConnection call.connection
      { connection with slots := Function.update connection.slots call.request.channel slots }

/-- `channel_permit.send`. -/
def send (s : State) (i : Nat) (call : Call) : State :=
  let connection := s.connections call.connection
  let channel := call.request.channel
  let envelope := call.request.envelope s.nextPermitSet
  let permitSet : PermitSet := ⟨s.nextPermitSet, call.connection, call.request, call.held, envelope.packets.length⟩
  let s : State := { s with
    calls := s.calls.eraseIdx i
    permitSets := s.permitSets ++ [permitSet]
    nextPermitSet := s.nextPermitSet + 1 }
  let s := s.setConnection call.connection { connection with
    queue := Function.update connection.queue channel (connection.queue channel ++ [envelope])
    sent := Function.update connection.sent channel (connection.sent channel ++ [envelope]) }
  s.finish call.connection call.request .ok

/-- The next step of a call. -/
def advance (s : State) (i : Nat) : Option State := do
  let call ← s.calls[i]?
  return match call.phase with
    | .acquiring ((b, n) :: missing) =>
      match tryAcquire s.available b n with
      | some available =>
        { s with
          available := available
          calls := s.calls.set i { call with held := (b, n) :: call.held, phase := .acquiring missing } }
      | none => { s with calls := s.calls.set i { call with phase := .rejecting } }
    | .acquiring [] => s.reserve i call
    | .reserved => s.send i call
    | .rejecting =>
      match call.held with
      | (b, n) :: held =>
        { s with available := giveBack s.available b n, calls := s.calls.set i { call with held := held } }
      | [] => { s with calls := s.calls.eraseIdx i }.finish call.connection call.request (.full call.request)

/-! ## The receiver -/

end State

namespace Connection

def deliver (c : Connection) (packet : QueuedOutboundPacket) : Connection :=
  { c with delivered := c.delivered ++ [packet], inHand := c.inHand ++ [packet] }

/-- The packets of an envelope are delivered from the first one on. -/
def openEnvelope (c : Connection) : QueuedOutboundEnvelope → Connection
  | .single packet => c.deliver packet
  | .batch [] => { c with activeBatch := [] }
  | .batch (packet :: rest) => { c with activeBatch := rest }.deliver packet

def take (c : Connection) (channel : Channel) (envelope : QueuedOutboundEnvelope) (rest : List QueuedOutboundEnvelope) :
    Connection :=
  let c : Connection := { c with
    queue := Function.update c.queue channel rest
    slots := Function.update c.slots channel (c.slots channel + 1)
    polled := false
    controlWasSelected := channel = .control
    received := c.received ++ [⟨channel, envelope, !(c.queue .data).isEmpty⟩] }
  c.openEnvelope envelope

/-- The channel that `recv` and `try_recv` look at now. -/
def turn (c : Connection) : Channel :=
  let first := if c.controlWasSelected then Channel.data else .control
  if c.polled then first.other else first

/-- One step of `recv` or `try_recv`. -/
def poll (c : Connection) : Connection :=
  match c.activeBatch with
  | packet :: rest => { c with activeBatch := rest }.deliver packet
  | [] =>
    match c.queue c.turn with
    | [] => { c with polled := !c.polled }
    | envelope :: rest => c.take c.turn envelope rest

end Connection

namespace State

/-- The last owner of a permit set frees its permits. -/
def disown (budget : Nat) : List PermitSet → List PermitSet × Permits Budget
  | [] => ([], [])
  | set :: rest =>
    if set.id = budget then
      if set.owners ≤ 1 then (rest, set.permits) else ({ set with owners := set.owners - 1 } :: rest, [])
    else
      let (rest, permits) := disown budget rest
      (set :: rest, permits)

def drop (s : State) (id i : Nat) : Option State := do
  let c := s.connections id
  let packet ← c.inHand[i]?
  let (permitSets, permits) := disown packet.budget s.permitSets
  return { s with permitSets := permitSets, returning := s.returning ++ permits }.setConnection id
    { c with inHand := c.inHand.eraseIdx i }

/-! ## Interleavings -/

inductive Op where
  | start (connection : Nat) (request : Request)
  | advance (call : Nat)
  | poll (connection : Nat)
  | drop (connection i : Nat)
  | returnPermit (i : Nat)
  deriving DecidableEq

def exec (s : State) : Op → Option State
  | .start connection request => some (s.start connection request)
  | .advance call => s.advance call
  | .poll connection => some (s.setConnection connection (s.connections connection).poll)
  | .drop connection i => s.drop connection i
  | .returnPermit i => do
    let (b, n) ← s.returning[i]?
    return { s with available := giveBack s.available b n, returning := s.returning.eraseIdx i }

def Step (s : State) (op : Op) (s' : State) : Prop := s.exec op = some s'

end State

end Foton.Outbound
