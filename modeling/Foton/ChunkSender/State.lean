import Foton.Chunk.Basic
import Foton.Outbound.State
import Mathlib.Data.Finset.Basic

/-!
# The chunk sender

One loop sends the chunks of a player in three phases: a batch is prepared and
committed under the sender's lock and encoded between the two without it, while
the game thread marks and drops chunks and edits them.
-/

namespace Foton.ChunkSender

/-! ## Chunks in the world -/

/-- The low two bits are the readiness, the rest counts its transitions. -/
structure TickingReadinessSnapshot where
  raw : Nat
  deriving DecidableEq

def TickingReadinessSnapshot.isBlockTicking (snapshot : TickingReadinessSnapshot) : Bool :=
  snapshot.raw % 4 = 1 || snapshot.raw % 4 = 2

structure ChunkHolder where
  publishedFull : Bool
  tickingReadiness : TickingReadinessSnapshot
  packetContentRevision : Nat

/-- The chunk map, and the holders by their addresses. -/
structure World where
  chunks : ChunkPos → Option Nat
  holders : Nat → ChunkHolder

/-! ## Packets -/

/-- The packets of the sender. A chunk's packet tells from which holder and revision it was built. -/
inductive ClientPacket where
  | chunkBatchStart
  | levelChunkWithLight (pos : ChunkPos) (holder revision : Nat)
  | chunkBatchFinished (batchSize : Nat)
  | forgetLevelChunk (pos : ChunkPos)
  deriving DecidableEq

structure EncodedPacket where
  packet : ClientPacket
  encodedLength : Nat
  deriving DecidableEq

/-- What a packet does to the chunks that a client has loaded. -/
def receive (chunks : Finset ChunkPos) : ClientPacket → Finset ChunkPos
  | .levelChunkWithLight pos _ _ => insert pos chunks
  | .forgetLevelChunk pos => chunks.erase pos
  | _ => chunks

def loaded (packets : List ClientPacket) : Finset ChunkPos := packets.foldl receive ∅

/-! ## Batches -/

structure PreparedChunk where
  pos : ChunkPos
  holder : Nat
  readiness : TickingReadinessSnapshot

structure EncodedChunk where
  pos : ChunkPos
  packet : EncodedPacket
  contentRevision : Nat
  holder : Nat
  readiness : TickingReadinessSnapshot

/-- The packet is the chunk's, built from the holder at the revision. -/
def EncodedChunk.Built (e : EncodedChunk) : Prop := e.packet.packet = .levelChunkWithLight e.pos e.holder e.contentRevision

instance (e : EncodedChunk) : Decidable e.Built := inferInstanceAs (Decidable (_ = _))

/-- A holder that `prepared` keeps alive can be upgraded to. -/
def EncodedChunk.isCurrentFor (e : EncodedChunk) (world : World) (prepared : PreparedChunk) : Bool :=
  e.pos = prepared.pos && e.holder = prepared.holder && e.readiness = prepared.readiness &&
    prepared.readiness.isBlockTicking && (world.holders prepared.holder).tickingReadiness = prepared.readiness &&
    (world.holders prepared.holder).packetContentRevision = e.contentRevision

structure PreparedBatch where
  chunks : List PreparedChunk
  epochSnapshot : Nat
  reusableEncodedChunks : List EncodedChunk

/-- Where the sending loop is. In the encoding phase every chunk after the prefix has its own job. -/
inductive Sending where
  | idle
  | prepared (batch : PreparedBatch)
  | encoding (batch : PreparedBatch) (encodedPrefix : List EncodedChunk) (jobs : List (PreparedChunk × Option (Option EncodedChunk)))
  | encoded (batch : PreparedBatch) (encodedChunks : List EncodedChunk)

structure State where
  pendingChunks : Finset ChunkPos
  sentChunks : Finset ChunkPos
  unacknowledgedBatches : Nat
  maxUnacknowledgedBatches : Nat
  deferredEncodedChunks : List EncodedChunk
  sending : Sending
  world : World
  chunkSendEpoch : UInt32
  /-- The connection is closed. -/
  closed : Bool
  /-- Everything that was queued to the client. -/
  queued : List ClientPacket
  /-- The chunks that were marked pending again after they had been sent. -/
  remarked : Finset ChunkPos

def maxUnacknowledged : Nat := 10

def State.new (world : World) (epoch : UInt32) : State where
  pendingChunks := ∅
  sentChunks := ∅
  unacknowledgedBatches := 0
  maxUnacknowledgedBatches := 1
  deferredEncodedChunks := []
  sending := .idle
  world := world
  chunkSendEpoch := epoch
  closed := false
  queued := []
  remarked := ∅

namespace State

/-! ## The game thread -/

def markChunkPendingToSend (s : State) (pos : ChunkPos) : State :=
  { s with
    sentChunks := s.sentChunks.erase pos
    pendingChunks := insert pos s.pendingChunks
    remarked := if pos ∈ s.sentChunks then insert pos s.remarked else s.remarked }

/-- `accepted` tells whether the connection's queue has room. A connection without room closes. -/
def sendPacket (s : State) (packet : ClientPacket) (accepted : Bool) : State :=
  if accepted then { s with queued := s.queued ++ [packet] } else { s with closed := true }

def dropChunk (s : State) (pos : ChunkPos) (accepted : Bool) : State :=
  let s' : State := { s with
    pendingChunks := s.pendingChunks.erase pos
    sentChunks := s.sentChunks.erase pos
    deferredEncodedChunks := s.deferredEncodedChunks.filter fun e => e.pos ≠ pos
    remarked := s.remarked.erase pos }
  if pos ∈ s.sentChunks ∧ s.closed = false then s'.sendPacket (.forgetLevelChunk pos) accepted else s'

def onChunkBatchReceivedByClient (s : State) : State :=
  if s.unacknowledgedBatches = 0 then s
  else { s with
    unacknowledgedBatches := s.unacknowledgedBatches - 1
    maxUnacknowledgedBatches := maxUnacknowledged }

end State

/-! ## Preparing -/

/-- `u32::abs_diff` of two coordinates. -/
def absDiff (a b : Int32) : Nat := (a.toInt - b.toInt).natAbs

def chunkDistanceSquared (pos playerChunkPos : ChunkPos) : Nat :=
  let dx := absDiff pos.x playerChunkPos.x
  let dz := absDiff pos.z playerChunkPos.z
  min (min (dx * dx) (2 ^ 64 - 1) + min (dz * dz) (2 ^ 64 - 1)) (2 ^ 64 - 1)

def World.prepare (world : World) (pos : ChunkPos) : Option PreparedChunk := do
  let holder ← world.chunks pos
  let readiness := (world.holders holder).tickingReadiness
  if (world.holders holder).publishedFull && readiness.isBlockTicking then some ⟨pos, holder, readiness⟩ else none

def takeReady (world : World) : Nat → List ChunkPos → List PreparedChunk
  | 0, _ => []
  | _, [] => []
  | room + 1, pos :: candidates =>
    match world.prepare pos with
    | some prepared => prepared :: takeReady world room candidates
    | none => takeReady world (room + 1) candidates

/-- `pending` lists the pending chunks as the set iterates, `maxBatchSize` is the quota in whole chunks. -/
def collectCandidates (world : World) (playerChunkPos : ChunkPos) (pending : List ChunkPos) (maxBatchSize : Nat) :
    List PreparedChunk :=
  takeReady world maxBatchSize
    (pending.mergeSort fun a b => chunkDistanceSquared a playerChunkPos ≤ chunkDistanceSquared b playerChunkPos)

def State.prepareBatch (s : State) (playerChunkPos : ChunkPos) (pending : List ChunkPos) (maxBatchSize : Nat) : State :=
  if s.maxUnacknowledgedBatches ≤ s.unacknowledgedBatches then s
  else
    match collectCandidates s.world playerChunkPos pending maxBatchSize with
    | [] => s
    | chunks => { s with
        sending := .prepared ⟨chunks, s.chunkSendEpoch.toNat, s.deferredEncodedChunks⟩
        deferredEncodedChunks := [] }

/-! ## Encoding -/

/-- The reusable encodings of the first chunks that are still current. -/
def reusablePrefix (world : World) : List PreparedChunk → List EncodedChunk → List EncodedChunk
  | prepared :: chunks, e :: reusable =>
    if e.isCurrentFor world prepared then e :: reusablePrefix world chunks reusable else []
  | _, _ => []

/-- A chunk's job: the cached encoding if it is current, else a new one. `encodedLength` is `none` when the chunk
is not loaded, its packet is too long, or it changed while it was read. -/
def encodeChunk (world : World) (prepared : PreparedChunk) (cached : Option EncodedChunk) (encodedLength : Option Nat) :
    Option EncodedChunk :=
  match cached.filter fun e => e.isCurrentFor world prepared with
  | some e => some e
  | none =>
    let holder := world.holders prepared.holder
    if prepared.readiness.isBlockTicking && holder.tickingReadiness = prepared.readiness then
      encodedLength.map fun n => ⟨prepared.pos,
        ⟨.levelChunkWithLight prepared.pos prepared.holder holder.packetContentRevision, n⟩,
        holder.packetContentRevision, prepared.holder, prepared.readiness⟩
    else none

/-! ## Committing -/

/-- What the connection makes of the boundary packets, and the bytes that a batch may have. -/
structure Wire where
  chunkBatchStart : Option Nat
  chunkBatchFinished : Nat → Option Nat
  batchByteCapacity : Nat

/-- The end of the loop over the valid chunks: the packets before the last one, the chunks and the last packet. -/
inductive Selection where
  | closed
  | packets (packets : List EncodedPacket) (selected : List EncodedChunk) (finished : Option EncodedPacket)

def selectChunks (wire : Wire) : List EncodedChunk → Nat → List EncodedPacket → List EncodedChunk → Option EncodedPacket →
    Selection
  | [], _, packets, selected, finished => .packets packets selected finished
  | e :: chunks, encodedBytes, packets, selected, finished =>
    let nextBatchSize := selected.length + 1
    if 2 ^ 31 ≤ nextBatchSize then .packets packets selected finished
    else
      match wire.chunkBatchFinished nextBatchSize with
      | none => .closed
      | some finishedLength =>
        match (Outbound.checkedAdd encodedBytes (max e.packet.encodedLength 1)).bind fun bytes =>
          Outbound.checkedAdd bytes (max finishedLength 1) with
        | none => .packets packets selected finished
        | some nextEncodedBytes =>
          if wire.batchByteCapacity < nextEncodedBytes then .packets packets selected finished
          else
            selectChunks wire chunks (nextEncodedBytes - max finishedLength 1) (packets ++ [e.packet]) (selected ++ [e])
              (some ⟨.chunkBatchFinished nextBatchSize, finishedLength⟩)

inductive SendOutcome where
  | ok
  | full
  | closed
  deriving DecidableEq

namespace State

def validChunks (s : State) (batch : PreparedBatch) (encodedChunks : List EncodedChunk) : List EncodedChunk :=
  encodedChunks.filter fun e => e.pos ∈ s.pendingChunks &&
    match batch.chunks.find? fun prepared => prepared.pos = e.pos with
    | some prepared => e.isCurrentFor s.world prepared
    | none => false

/-- `try_send_batch` and what follows from its result. -/
def sendBatch (s : State) (packets : List EncodedPacket) (selected : List EncodedChunk) (outcome : SendOutcome) : State :=
  match if s.closed then .closed else outcome with
  | .closed => { s with closed := true }
  | .full =>
    let deferred := (selected.zip packets.tail).map fun (e, packet) => { e with packet := packet }
    { s with deferredEncodedChunks := s.deferredEncodedChunks ++ deferred }
  | .ok =>
    let positions := (selected.map EncodedChunk.pos).toFinset
    { s with
      queued := s.queued ++ packets.map EncodedPacket.packet
      unacknowledgedBatches := s.unacknowledgedBatches + 1
      pendingChunks := s.pendingChunks \ positions
      sentChunks := s.sentChunks ∪ positions
      remarked := s.remarked \ positions }

def commitBatch (s : State) (batch : PreparedBatch) (encodedChunks : List EncodedChunk) (wire : Wire) (outcome : SendOutcome) :
    State :=
  if s.chunkSendEpoch.toNat ≠ batch.epochSnapshot then s
  else
    match s.validChunks batch encodedChunks with
    | [] => s
    | valid =>
      match wire.chunkBatchStart with
      | none => { s with closed := true }
      | some startLength =>
        match selectChunks wire valid (max startLength 1) [⟨.chunkBatchStart, startLength⟩] [] none with
        | .closed => { s with closed := true }
        | .packets _ _ none => s
        | .packets packets selected (some finished) => s.sendBatch (packets ++ [finished]) selected outcome

/-! ## Interleavings -/

inductive Op where
  | markChunkPendingToSend (pos : ChunkPos)
  | dropChunk (pos : ChunkPos) (accepted : Bool)
  | onChunkBatchReceivedByClient
  | prepareBatch (playerChunkPos : ChunkPos) (pending : List ChunkPos) (maxBatchSize : Nat)
  | encodeBatch
  | encodeChunk (job : Nat) (cached : Option EncodedChunk) (encodedLength : Option Nat)
  | collectEncoded
  | commitBatch (wire : Wire) (outcome : SendOutcome)
  | abandonBatch
  | changeWorld (world : World)
  | bumpEpoch
  | close

def Op.dropped : Op → Option ChunkPos
  | .dropChunk pos _ => some pos
  | _ => none

/-- A phase of the loop follows the one before it. -/
def exec (s : State) : Op → Option State
  | .markChunkPendingToSend pos => some (s.markChunkPendingToSend pos)
  | .dropChunk pos accepted => some (s.dropChunk pos accepted)
  | .onChunkBatchReceivedByClient => some s.onChunkBatchReceivedByClient
  | .prepareBatch playerChunkPos pending maxBatchSize =>
    match s.sending with
    | .idle =>
      if pending.Nodup ∧ pending.toFinset = s.pendingChunks then some (s.prepareBatch playerChunkPos pending maxBatchSize)
      else none
    | _ => none
  | .encodeBatch =>
    match s.sending with
    | .prepared batch =>
      let encodedPrefix := reusablePrefix s.world batch.chunks batch.reusableEncodedChunks
      let jobs := (batch.chunks.drop encodedPrefix.length).map fun chunk => (chunk, none)
      some { s with sending := .encoding batch encodedPrefix jobs }
    | _ => none
  | .encodeChunk job cached encodedLength =>
    match s.sending with
    | .encoding batch encodedPrefix jobs =>
      match jobs[job]? with
      | some (prepared, none) =>
        if ∀ e ∈ cached, e.Built then
          let encoded := Foton.ChunkSender.encodeChunk s.world prepared cached encodedLength
          some { s with sending := .encoding batch encodedPrefix (jobs.set job (prepared, some encoded)) }
        else none
      | _ => none
    | _ => none
  | .collectEncoded =>
    match s.sending with
    | .encoding batch encodedPrefix jobs =>
      if jobs.all fun job => job.2.isSome then
        some { s with sending := .encoded batch (encodedPrefix ++ jobs.filterMap fun job => job.2.join) }
      else none
    | _ => none
  | .commitBatch wire outcome =>
    match s.sending with
    | .encoded batch encodedChunks => some { s.commitBatch batch encodedChunks wire outcome with sending := .idle }
    | _ => none
  | .abandonBatch =>
    match s.sending with
    | .encoded _ _ => some { s with sending := .idle }
    | _ => none
  | .changeWorld world => some { s with world := world }
  | .bumpEpoch => some { s with chunkSendEpoch := s.chunkSendEpoch + 1 }
  | .close => some { s with closed := true }

def Step (s : State) (op : Op) (s' : State) : Prop := s.exec op = some s'

end State

end Foton.ChunkSender
