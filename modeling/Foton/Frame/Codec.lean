import Foton.Lib.Wire

/-!
# Packet frames

The encoder puts the headers of a frame in front of a packet's body; the decoder
reads one frame from the stream. The zlib codec is a parameter.
-/

namespace Foton.Frame

def maxPacketSize : Nat := 2097152

def maxPacketDataSize : Nat := 8388608

inductive PacketError where
  | tooLong (length : Nat)
  | outOfBounds
  | malformedValue (text : String)
  | decompressionFailed (text : String)
  | compressionFailed (text : String)
  | compressedBelowThreshold (declared threshold : Nat)
  | connectionClosed
  | other (text : String)
  | invalidProtocol (text : String)

/-- Why a call does not return a packet: it panics, or it returns an error. -/
inductive Fault where
  | panic
  | error (error : PacketError)

/-! ## Variable-length integers -/

namespace VarInt

def maxSize : Nat := 5

def writtenSize (val : Int32) : Nat := if val = 0 then 1 else val.toUInt32.toNat.log2 / 7 + 1

def write (val : Int32) : List UInt8 := writeVarInt val.toUInt32.toNat

/-- Reads from a buffer; the fifth byte's high bits are shifted out. -/
def read (bytes : List UInt8) : Except PacketError (Int32 × List UInt8) :=
  match readVarInt maxSize bytes with
  | some (val, rest) => .ok (Int32.ofNat val, rest)
  | none => .error (.malformedValue (if maxSize ≤ bytes.length then "VarInt to long" else "failed to fill whole buffer"))

/-- Reads from the connection. A stream that ends is a peer that hung up. -/
def readAsync (stream : List UInt8) : Except PacketError (Int32 × List UInt8) :=
  match readVarInt maxSize stream with
  | some (val, rest) => .ok (Int32.ofNat val, rest)
  | none => .error (if maxSize ≤ stream.length then .malformedValue "VarInt" else .connectionClosed)

end VarInt

/-- `as usize`. -/
def asUsize (val : Int32) : Nat := (val.toInt % 2 ^ 64).toNat

/-! ## Buffers with room in front -/

structure FrontVec where
  buf : List UInt8
  frontSpace : Nat
  reserved : frontSpace ≤ buf.length

namespace FrontVec

def new (reserve : Nat) (bytes : List UInt8) : FrontVec :=
  ⟨List.replicate reserve 0 ++ bytes, reserve, by rw [List.length_append, List.length_replicate]; exact Nat.le_add_right _ _⟩

def asSlice (vec : FrontVec) : List UInt8 := vec.buf.drop vec.frontSpace

/-- Without enough reserved space it panics. -/
def setInFront (vec : FrontVec) (other : List UInt8) : Except Fault FrontVec :=
  if h : other.length ≤ vec.frontSpace then
    let newStart := vec.frontSpace - other.length
    .ok ⟨vec.buf.take newStart ++ other ++ vec.buf.drop vec.frontSpace, newStart, by
      have := vec.reserved
      simp only [List.length_append, List.length_take, List.length_drop]
      omega⟩
  else .error .panic

end FrontVec

/-- `VarInt::set_in_front`. -/
def VarInt.setInFront (val : Int32) (vec : FrontVec) (varintSize : Nat) : Except Fault FrontVec :=
  vec.setInFront ((write val ++ List.replicate maxSize 0).take varintSize)

/-! ## The encoder -/

/-- A codec: `inflate` reads at most so many bytes of a stream and tells how much input it took. -/
structure Zlib where
  deflate : Int32 → List UInt8 → Except String (List UInt8)
  inflate : List UInt8 → Nat → Except String (List UInt8 × Nat)

/-- Who asks for more than there was gets back what was deflated, and the whole stream is used. -/
def Zlib.Lossless (zlib : Zlib) : Prop :=
  ∀ level data out, zlib.deflate level data = .ok out → ∀ limit, data.length < limit → zlib.inflate out limit = .ok (data, out.length)

structure CompressionInfo where
  threshold : Nat
  level : Int32
  nonzero : 0 < threshold
  bounded : threshold < 2 ^ 32

structure EncodedPacket where
  encodedData : FrontVec
  id : Int32

inductive ConnectionProtocol where
  | handshake
  | play
  | status
  | login
  | config

def ConnectionProtocol.debug : ConnectionProtocol → String
  | handshake => "Handshake"
  | play => "Play"
  | status => "Status"
  | login => "Login"
  | config => "Config"

/-- A packet: its id in each protocol, and the payload that its `write` produces. -/
structure ClientPacket where
  getId : ConnectionProtocol → Option Int32
  write : Except String (List UInt8)

def ClientPacket.writePacket (packet : ClientPacket) (protocol : ConnectionProtocol) : Except PacketError (List UInt8) :=
  match packet.getId protocol with
  | none => .error (.invalidProtocol ("Invalid protocol " ++ protocol.debug))
  | some id =>
    match packet.write with
    | .ok payload => .ok (VarInt.write id ++ payload)
    | .error text => .error (.malformedValue text)

namespace EncodedPacket

def fromDataUncompressed (packetData : FrontVec) (id : Int32) : Except Fault EncodedPacket :=
  let dataLen := packetData.asSlice.length
  let varintSize := VarInt.writtenSize (Int32.ofNat dataLen)
  let completeLen := varintSize + dataLen
  if maxPacketSize < completeLen then .error (.error (.tooLong completeLen))
  else do
    let packetData ← VarInt.setInFront (Int32.ofNat dataLen) packetData varintSize
    return ⟨packetData, id⟩

def fromPacketDataFront (zlib : Zlib) (packetData : FrontVec) (compression : CompressionInfo) (id : Int32) :
    Except Fault EncodedPacket :=
  let dataLen := packetData.asSlice.length
  if maxPacketDataSize < dataLen + VarInt.maxSize * 2 then .error (.error (.tooLong dataLen))
  else if compression.threshold ≤ dataLen then
    match zlib.deflate compression.level packetData.asSlice with
    | .error text => .error (.error (.compressionFailed text))
    | .ok out => do
      let varintSize := VarInt.writtenSize (Int32.ofNat dataLen)
      let fullLen := varintSize + out.length
      let fullVarintSize := VarInt.writtenSize (Int32.ofNat fullLen)
      let buf ← VarInt.setInFront (Int32.ofNat dataLen) (FrontVec.new 10 out) varintSize
      let buf ← VarInt.setInFront (Int32.ofNat fullLen) buf fullVarintSize
      return ⟨buf, id⟩
  else do
    let dataLenWithHeader := dataLen + 1
    let varintSize := VarInt.writtenSize (Int32.ofNat dataLenWithHeader)
    let packetData ← VarInt.setInFront 0 packetData 1
    let packetData ← VarInt.setInFront (Int32.ofNat dataLenWithHeader) packetData varintSize
    return ⟨packetData, id⟩

def fromData (zlib : Zlib) (buf : FrontVec) (compression : Option CompressionInfo) : Except Fault EncodedPacket :=
  match VarInt.read buf.asSlice with
  | .error e => .error (.error e)
  | .ok (id, _) =>
    match compression with
    | some compression => fromPacketDataFront zlib buf compression id
    | none => fromDataUncompressed buf id

def fromPacketData (zlib : Zlib) (packetData : List UInt8) (compression : Option CompressionInfo) : Except Fault EncodedPacket :=
  if packetData = [] ∨ maxPacketDataSize < packetData.length then .error (.error .outOfBounds)
  else fromData zlib (FrontVec.new 10 packetData) compression

def fromIdAndPayload (zlib : Zlib) (id : Int32) (payload : List UInt8) (compression : Option CompressionInfo) :
    Except Fault EncodedPacket :=
  fromData zlib (FrontVec.new 6 (VarInt.write id ++ payload)) compression

def fromBare (zlib : Zlib) (packet : ClientPacket) (compression : Option CompressionInfo) (protocol : ConnectionProtocol) :
    Except Fault EncodedPacket :=
  match packet.writePacket protocol with
  | .error e => .error (.error e)
  | .ok data => fromData zlib (FrontVec.new 6 data) compression

/-! ## Back to the body -/

def inflateExactly (zlib : Zlib) (bytes : List UInt8) (uncompressed : Nat) : Except PacketError (List UInt8) :=
  match zlib.inflate bytes (uncompressed + 1) with
  | .error text => .error (.decompressionFailed text)
  | .ok (output, _) =>
    if output.length ≠ uncompressed then
      .error (.decompressionFailed s!"expected {uncompressed} bytes, decoded {output.length}")
    else .ok output

def toPacketData (zlib : Zlib) (p : EncodedPacket) (compression : Option CompressionInfo) : Except PacketError (List UInt8) := do
  let bytes := p.encodedData.asSlice
  let (declared, framed) ← VarInt.read bytes
  if declared.toInt < 0 then throw .outOfBounds
  if declared.toInt.toNat = 0 ∨ declared.toInt.toNat ≠ framed.length then throw .outOfBounds
  let data ← match compression with
    | some info => do
      let (uncompressed, rest) ← VarInt.read framed
      if uncompressed.toInt < 0 then throw .outOfBounds
      let uncompressed := uncompressed.toInt.toNat
      if uncompressed = 0 then pure rest
      else if maxPacketDataSize < uncompressed ∨ uncompressed < info.threshold then throw .outOfBounds
      else inflateExactly zlib rest uncompressed
    | none => pure framed
  if data = [] ∨ maxPacketDataSize < data.length then throw .outOfBounds
  return data

def payload (zlib : Zlib) (p : EncodedPacket) (compression : Option CompressionInfo) : Except PacketError (List UInt8) := do
  let body ← p.toPacketData zlib compression
  let (_, payload) ← VarInt.read body
  return payload

end EncodedPacket

/-! ## The decoder -/

structure RawPacket where
  id : Int32
  buffer : List UInt8
  payloadStart : UInt32

def RawPacket.fromBuffer (id : Int32) (buffer : List UInt8) (payloadStart : Nat) : RawPacket :=
  ⟨id, buffer, UInt32.ofNat payloadStart⟩

def RawPacket.payload (packet : RawPacket) : List UInt8 := packet.buffer.drop packet.payloadStart.toNat

def readChunk : Nat := 8 * 1024

/-- The buffer grows in steps as the bytes arrive. -/
def readFrame (packetLen : Nat) (packetData stream : List UInt8) : Except PacketError (List UInt8 × List UInt8) :=
  if packetData.length < packetLen then
    let next := min (packetLen - packetData.length) readChunk
    if next ≤ stream.length then readFrame packetLen (packetData ++ stream.take next) (stream.drop next)
    else .error (.other "early eof")
  else .ok (packetData, stream)
termination_by packetLen - packetData.length
decreasing_by
  rename_i hshort hnext
  have hpos : 0 < min (packetLen - packetData.length) readChunk := Nat.lt_min.mpr ⟨by omega, by decide⟩
  rw [List.length_append, List.length_take, Nat.min_eq_left hnext]
  omega

/-- The buffer that holds a frame's id and payload, and where they start. -/
def openFrame (zlib : Zlib) (compression : Option Nat) (packetData : List UInt8) : Except PacketError (List UInt8 × Nat) :=
  match compression with
  | none => .ok (packetData, 0)
  | some threshold => do
    let (decompressedLen, rest) ← VarInt.read packetData
    let decompressedLen := asUsize decompressedLen
    if maxPacketDataSize < decompressedLen then throw (.tooLong decompressedLen)
    if 0 < decompressedLen then
      if decompressedLen < threshold then throw (.compressedBelowThreshold decompressedLen threshold)
      match zlib.inflate rest (decompressedLen + 1) with
      | .error text => throw (.decompressionFailed text)
      | .ok (decompressed, consumedLen) =>
        if decompressedLen < decompressed.length then
          throw (.decompressionFailed s!"decompressed packet exceeds declared length of {decompressedLen}")
        if decompressed.length < decompressedLen then
          throw (.decompressionFailed s!"decompressed packet is shorter than declared length of {decompressedLen}")
        if consumedLen ≠ rest.length then
          throw (.decompressionFailed s!"compressed packet has {rest.length - consumedLen} trailing bytes")
        return (decompressed, 0)
    else return (packetData, packetData.length - rest.length)

def getRawPacket (zlib : Zlib) (compression : Option Nat) (stream : List UInt8) : Except PacketError (RawPacket × List UInt8) := do
  let (packetLen, stream) ← VarInt.readAsync stream
  let packetLen := asUsize packetLen
  if maxPacketSize < packetLen then throw .outOfBounds
  if packetLen = 0 then throw .outOfBounds
  let (packetData, stream) ← readFrame packetLen [] stream
  let (packetBuffer, packetDataStart) ← openFrame zlib compression packetData
  let body := packetBuffer.drop packetDataStart
  let (packetId, payload) ← VarInt.read body
  return (RawPacket.fromBuffer packetId packetBuffer (packetDataStart + (body.length - payload.length)), stream)

end Foton.Frame
