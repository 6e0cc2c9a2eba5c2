import Foton.Frame.RoundTrip

/-!
# The packets that are accepted
-/

namespace Foton.Frame

/-! ## The three ways to make a packet -/

inductive Source where
  | packetData (bytes : List UInt8)
  | idAndPayload (id : Int32) (payload : List UInt8)
  | bare (packet : ClientPacket) (protocol : ConnectionProtocol)

/-- The body: the id and the payload. -/
def Source.body : Source → List UInt8
  | packetData bytes => bytes
  | idAndPayload id payload => VarInt.write id ++ payload
  | bare packet protocol => match packet.writePacket protocol with
    | .ok data => data
    | .error _ => []

def Source.encode (zlib : Zlib) (compression : Option CompressionInfo) : Source → Except Fault EncodedPacket
  | packetData bytes => EncodedPacket.fromPacketData zlib bytes compression
  | idAndPayload id payload => EncodedPacket.fromIdAndPayload zlib id payload compression
  | bare packet protocol => EncodedPacket.fromBare zlib packet compression protocol

theorem refused_nil (zlib : Zlib) (compression : Option CompressionInfo) : Refused zlib compression [] :=
  Or.inl fun _ hread => ne_nil_of_read hread rfl

theorem refused_of_length (zlib : Zlib) (compression : Option CompressionInfo) {data : List UInt8}
    (h : maxPacketDataSize < data.length) : Refused zlib compression data := by
  refine Or.inr ?_
  cases compression with
  | none =>
    have hsizes : maxPacketSize ≤ maxPacketDataSize := by decide
    exact Nat.lt_of_le_of_lt hsizes (Nat.lt_of_lt_of_le h (Nat.le_add_left _ _))
  | some info => exact Or.inl (Nat.lt_of_lt_of_le h (Nat.le_add_right _ _))

theorem Source.encode_spec (zlib : Zlib) (compression : Option CompressionInfo) (source : Source) :
    (∃ e, source.encode zlib compression = .error (.error e)) ∧ Refused zlib compression source.body ∨
      ∃ p payload body, source.encode zlib compression = .ok p ∧ Framed zlib compression source.body p payload body := by
  have hnew : ∀ (reserve : Nat) (data : List UInt8), 6 ≤ reserve →
      (∃ e, EncodedPacket.fromData zlib (FrontVec.new reserve data) compression = .error (.error e)) ∧
          Refused zlib compression data ∨
        ∃ p payload body, EncodedPacket.fromData zlib (FrontVec.new reserve data) compression = .ok p ∧
          Framed zlib compression data p payload body := by
    intro reserve data hreserve
    have hspec := EncodedPacket.fromData_spec zlib (show 6 ≤ (FrontVec.new reserve data).frontSpace from hreserve) compression
    rwa [FrontVec.asSlice_new] at hspec
  cases source with
  | packetData bytes =>
    unfold Source.encode EncodedPacket.fromPacketData
    dsimp only
    split
    · rename_i hbad
      refine Or.inl ⟨⟨_, rfl⟩, ?_⟩
      rcases hbad with rfl | hlong
      · exact refused_nil zlib compression
      · exact refused_of_length zlib compression hlong
    · exact hnew 10 bytes (by decide)
  | idAndPayload id payload => exact hnew 6 _ (Nat.le_refl 6)
  | bare packet protocol =>
    unfold Source.encode Source.body EncodedPacket.fromBare
    dsimp only
    cases packet.writePacket protocol with
    | error e => exact Or.inl ⟨⟨e, rfl⟩, refused_nil zlib compression⟩
    | ok data => exact hnew 6 data (Nat.le_refl 6)

/-! ## A codec that stores -/

def adler32 (data : List UInt8) : List UInt8 :=
  let (a, b) := data.foldl (fun (a, b) byte => ((a + byte.toNat) % 65521, (b + (a + byte.toNat) % 65521) % 65521)) (1, 0)
  toBeBytes 2 b ++ toBeBytes 2 a

/-- A zlib stream of one stored block. Longer data takes more than one, which this codec does not write. -/
def storedDeflate (data : List UInt8) : Except String (List UInt8) :=
  if data.length < 65536 then
    .ok ([0x78, 0x01, 0x01] ++ (toBeBytes 2 data.length).reverse ++ (toBeBytes 2 (65535 - data.length)).reverse ++ data ++
      adler32 data)
  else .error "more than one block"

def storedInflate (bytes : List UInt8) (limit : Nat) : Except String (List UInt8 × Nat) :=
  let length := ofBeBytes ((bytes.drop 3).take 2).reverse
  let data := (bytes.drop 7).take length
  if bytes.take 3 ≠ [0x78, 0x01, 0x01] then .error "corrupt deflate stream"
  else if limit ≤ length then .ok (data.take limit, 7 + limit)
  else if (bytes.drop (7 + length)).take 4 ≠ adler32 data then .error "corrupt deflate stream"
  else .ok (data, 11 + length)

def stored : Zlib := ⟨fun _ => storedDeflate, storedInflate⟩

@[simp]
theorem adler32_length (data : List UInt8) : (adler32 data).length = 4 := by
  unfold adler32
  dsimp only
  rw [List.length_append, toBeBytes_length, toBeBytes_length]

theorem stored_lossless : stored.Lossless := by
  intro level data out hout limit hlimit
  unfold stored storedDeflate at hout
  dsimp only at hout
  split at hout
  · rename_i hsmall
    cases hout
    let front : List UInt8 := [0x78, 0x01, 0x01] ++ (toBeBytes 2 data.length).reverse ++ (toBeBytes 2 (65535 - data.length)).reverse
    have hfront : front.length = 7 := by simp [front]
    have hlength : ofBeBytes (((front ++ data ++ adler32 data).drop 3).take 2).reverse = data.length := by
      have hlow : (((front ++ data ++ adler32 data).drop 3).take 2) = (toBeBytes 2 data.length).reverse := by
        rw [show front ++ data ++ adler32 data = [0x78, 0x01, 0x01] ++ ((toBeBytes 2 data.length).reverse ++
          ((toBeBytes 2 (65535 - data.length)).reverse ++ (data ++ adler32 data))) by simp [front]]
        have htwo : (toBeBytes 2 data.length).reverse.length = 2 := by rw [List.length_reverse, toBeBytes_length]
        exact List.take_left' htwo
      rw [hlow, List.reverse_reverse]
      exact ofBeBytes_toBeBytes hsmall
    have hdata : ((front ++ data ++ adler32 data).drop 7).take data.length = data := by
      rw [List.append_assoc, List.drop_left' hfront, List.take_left]
    have hadler : ((front ++ data ++ adler32 data).drop (7 + data.length)).take 4 = adler32 data := by
      rw [List.drop_left' (by rw [List.length_append, hfront]), List.take_of_length_le (by rw [adler32_length])]
    unfold stored storedInflate
    dsimp only
    rw [hlength, hdata, hadler, if_neg (fun hne => hne rfl), if_neg (Nat.not_le.mpr hlimit), if_neg (fun hne => hne rfl),
      List.length_append, List.length_append, hfront, adler32_length]
    congr 2
    omega
  · cases hout

/-! ## The encoder and the decoder -/

/-- No call runs out of front space, and the frame of an accepted packet is allowed and decodes back exactly when it
fits: with compression, nothing checks the length of the frame. -/
theorem accepted_allowed_iff (zlib : Zlib) (hlossless : zlib.Lossless) (compression : Option CompressionInfo) (source : Source) :
    source.encode zlib compression ≠ .error .panic ∧ ∀ p, source.encode zlib compression = .ok p →
      (Allowed zlib compression source.body p ↔ Fits zlib compression source.body) := by
  rcases source.encode_spec zlib compression with ⟨⟨e, herror⟩, -⟩ | ⟨p, payload, body, hok, hframed⟩
  · rw [herror]
    exact ⟨nofun, nofun⟩
  · rw [hok]
    refine ⟨nofun, fun p' hp => ?_⟩
    cases hp
    exact allowed_iff hlossless hframed

/-- A compressed packet that fits. -/
theorem stored_packet_allowed : ∃ p, (Source.idAndPayload 5 [7, 8]).encode stored (some ⟨1, 0, by decide, by decide⟩) = .ok p ∧
    Allowed stored (some ⟨1, 0, by decide, by decide⟩) (VarInt.write 5 ++ [7, 8]) p := by
  have hlength := VarInt.length_write_le 5
  unfold VarInt.maxSize at hlength
  have hshort : (VarInt.write 5 ++ [7, 8]).length ≤ 7 := by
    rw [List.length_append]
    exact Nat.add_le_add_right hlength 2
  have hiff := accepted_allowed_iff stored stored_lossless (some ⟨1, 0, by decide, by decide⟩) (.idAndPayload 5 [7, 8])
  rcases (Source.idAndPayload 5 [7, 8]).encode_spec stored (some ⟨1, 0, by decide, by decide⟩) with
    ⟨-, hread | hlong | ⟨-, text, hdeflate⟩⟩ | ⟨p, payload, body, hok, -⟩
  · exact absurd (VarInt.read_write 5 [7, 8]) (hread _)
  · change maxPacketDataSize < (VarInt.write 5 ++ [7, 8]).length + 10 at hlong
    unfold maxPacketDataSize at hlong
    omega
  · change storedDeflate (VarInt.write 5 ++ [7, 8]) = .error text at hdeflate
    unfold storedDeflate at hdeflate
    rw [if_pos (by omega)] at hdeflate
    cases hdeflate
  · refine ⟨p, hok, (hiff.2 p hok).mpr ?_⟩
    change Fits stored (some ⟨1, 0, by decide, by decide⟩) (VarInt.write 5 ++ [7, 8])
    unfold Fits
    dsimp only
    rw [if_neg (by simp)]
    intro out hout
    change storedDeflate (VarInt.write 5 ++ [7, 8]) = .ok out at hout
    unfold storedDeflate at hout
    rw [if_pos (by omega)] at hout
    cases hout
    have hwritten := VarInt.length_write_le (Int32.ofNat (VarInt.write 5 ++ [7, 8]).length)
    unfold VarInt.maxSize at hwritten
    rw [VarInt.writtenSize_eq]
    simp only [List.length_append, List.length_reverse, toBeBytes_length, adler32_length, List.length_cons, List.length_nil]
      at hshort hwritten ⊢
    omega

/-- Two MiB below a threshold of four are accepted, and their frame is longer than the format allows. -/
theorem long_frame_is_accepted : ¬∀ (zlib : Zlib), zlib.Lossless → ∀ (compression : Option CompressionInfo) (source : Source) p,
    source.encode zlib compression = .ok p → Allowed zlib compression source.body p := by
  intro hclaim
  let info : CompressionInfo := ⟨2 ^ 22, 4, by decide, by decide⟩
  obtain ⟨data, rest, hdata, hlength⟩ : ∃ data rest : List UInt8, data = 0 :: rest ∧ data.length = 2 ^ 21 :=
    ⟨_, List.replicate (2 ^ 21 - 1) 0, rfl, by
      rw [List.length_cons, List.length_replicate]
      exact Nat.sub_add_cancel Nat.one_le_two_pow⟩
  rcases (Source.packetData data).encode_spec stored (some info) with
    ⟨-, hread | hlong | ⟨hthreshold, -⟩⟩ | ⟨p, payload, body, hok, hframed⟩
  · refine hread (0, rest) ?_
    change VarInt.read data = _
    rw [hdata, VarInt.read_zero]
  · change maxPacketDataSize < data.length + 10 at hlong
    rw [hlength] at hlong
    exact absurd hlong (by decide)
  · change 2 ^ 22 ≤ data.length at hthreshold
    rw [hlength] at hthreshold
    exact absurd hthreshold (by decide)
  · have hfits := (allowed_iff stored_lossless hframed).mp (hclaim stored stored_lossless (some info) _ p hok)
    change (if data.length < 2 ^ 22 then
      data.length + 1 < 2 ^ 21 else _) at hfits
    rw [hlength, if_pos (by decide)] at hfits
    exact absurd hfits (by decide)

end Foton.Frame
