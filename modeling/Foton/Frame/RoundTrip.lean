import Foton.Frame.VarInt

/-!
# What the encoder accepts and the decoder reads

A frame that the encoder builds is one that the decoder reads back exactly when
its length fits three bytes. Only frames without compression are checked for that.
-/

namespace Foton.Frame

/-! ## The encoder -/

/-- What a frame has after its length. -/
def frameBody (zlib : Zlib) (compression : Option CompressionInfo) (data : List UInt8) : Except String (List UInt8) :=
  match compression with
  | none => .ok data
  | some info =>
    if info.threshold ≤ data.length then
      match zlib.deflate info.level data with
      | .ok out => .ok (VarInt.write (Int32.ofNat data.length) ++ out)
      | .error text => .error text
    else .ok (0 :: data)

/-- The frame of a body, with its length in front. -/
structure Framed (zlib : Zlib) (compression : Option CompressionInfo) (data : List UInt8) (p : EncodedPacket) (payload body : List UInt8) :
    Prop where
  read : VarInt.read data = .ok (p.id, payload)
  framed : frameBody zlib compression data = .ok body
  slice : p.encodedData.asSlice = VarInt.write (Int32.ofNat body.length) ++ body
  bound : data.length ≤ maxPacketDataSize
  uncompressed : compression = none → body.length < 2 ^ 21

/-- Why a body is not accepted. -/
def Refused (zlib : Zlib) (compression : Option CompressionInfo) (data : List UInt8) : Prop :=
  (∀ r, VarInt.read data ≠ .ok r) ∨ match compression with
    | none => maxPacketSize < VarInt.writtenSize (Int32.ofNat data.length) + data.length
    | some info => maxPacketDataSize < data.length + VarInt.maxSize * 2 ∨
      info.threshold ≤ data.length ∧ ∃ text, zlib.deflate info.level data = .error text

namespace EncodedPacket

variable {zlib : Zlib} {buf : FrontVec} {id : Int32} {payload : List UInt8}

variable (zlib) in
theorem fromDataUncompressed_spec (hspace : 6 ≤ buf.frontSpace) (hread : VarInt.read buf.asSlice = .ok (id, payload)) :
    (∃ e, fromDataUncompressed buf id = .error (.error e)) ∧ Refused zlib none buf.asSlice ∨
      ∃ p, fromDataUncompressed buf id = .ok p ∧ Framed zlib none buf.asSlice p payload buf.asSlice := by
  unfold fromDataUncompressed
  dsimp only
  split
  · rename_i hlong
    exact Or.inl ⟨⟨_, rfl⟩, Or.inr hlong⟩
  · rename_i hfits
    have hpos := VarInt.length_write_pos (Int32.ofNat buf.asSlice.length)
    have hle := VarInt.length_write_le (Int32.ofNat buf.asSlice.length)
    unfold VarInt.maxSize at hle
    obtain ⟨vec, hvec, hslice, -⟩ := VarInt.setInFront_spec (Int32.ofNat buf.asSlice.length) (Nat.le_trans hle (Nat.le_of_succ_le hspace))
    rw [VarInt.writtenSize_eq] at hvec hfits ⊢
    unfold maxPacketSize at hfits
    refine Or.inr ⟨⟨vec, id⟩, ?_, hread, rfl, hslice, ?_, fun _ => ?_⟩
    · rw [hvec]
      rfl
    · unfold maxPacketDataSize
      omega
    · omega

variable (zlib) in
theorem fromPacketDataFront_spec (info : CompressionInfo) (hspace : 6 ≤ buf.frontSpace)
    (hread : VarInt.read buf.asSlice = .ok (id, payload)) :
    (∃ e, fromPacketDataFront zlib buf info id = .error (.error e)) ∧ Refused zlib (some info) buf.asSlice ∨
      ∃ p body, fromPacketDataFront zlib buf info id = .ok p ∧ Framed zlib (some info) buf.asSlice p payload body := by
  have hle := fun val => VarInt.length_write_le val
  unfold VarInt.maxSize at hle
  unfold fromPacketDataFront
  dsimp only
  split
  · rename_i hlong
    exact Or.inl ⟨⟨_, rfl⟩, Or.inr (Or.inl hlong)⟩
  · rename_i hbound
    unfold VarInt.maxSize at hbound
    split
    · rename_i hthreshold
      split
      · rename_i text hdeflate
        exact Or.inl ⟨⟨_, rfl⟩, Or.inr (Or.inr ⟨hthreshold, text, hdeflate⟩)⟩
      · rename_i out hdeflate
        -- Both headers fit the ten bytes in front of the deflated data.
        obtain ⟨vec, hvec, hslice, hspace'⟩ := VarInt.setInFront_spec
          (Int32.ofNat buf.asSlice.length) (show _ ≤ (FrontVec.new 10 out).frontSpace from Nat.le_trans (hle _) (by decide : 5 ≤ 10))
        have hroom := hle (Int32.ofNat buf.asSlice.length)
        obtain ⟨vec', hvec', hslice', -⟩ := VarInt.setInFront_spec
          (Int32.ofNat (VarInt.writtenSize (Int32.ofNat buf.asSlice.length) + out.length))
          (show _ ≤ vec.frontSpace from Nat.le_trans (hle _) (by rw [hspace']; unfold FrontVec.new; dsimp only; omega))
        refine Or.inr ⟨⟨vec', id⟩, VarInt.write (Int32.ofNat buf.asSlice.length) ++ out, ?_, hread, ?_, ?_, by omega,
          fun hnone => (by cases hnone)⟩
        · rw [hvec]
          dsimp only [bind, Except.bind]
          rw [hvec']
          rfl
        · unfold frameBody
          dsimp only
          rw [if_pos hthreshold, hdeflate]
        · dsimp only
          rw [hslice', hslice, FrontVec.asSlice_new, VarInt.writtenSize_eq, List.length_append]
    · rename_i hthreshold
      obtain ⟨vec, hvec, hslice, hspace'⟩ := VarInt.setInFront_spec 0 (Nat.le_trans (hle 0) (Nat.le_of_succ_le hspace))
      have hzero : VarInt.write 0 = [0] := by
        unfold VarInt.write
        rw [show (0 : Int32).toUInt32.toNat = 0 from rfl, writeVarInt]
        rfl
      rw [hzero] at hslice hspace'
      obtain ⟨vec', hvec', hslice', -⟩ := VarInt.setInFront_spec (Int32.ofNat (buf.asSlice.length + 1))
        (show _ ≤ vec.frontSpace from Nat.le_trans (hle _) (by rw [hspace', List.length_singleton]; omega))
      refine Or.inr ⟨⟨vec', id⟩, 0 :: buf.asSlice, ?_, hread, ?_, ?_, by omega, fun hnone => (by cases hnone)⟩
      · rw [show VarInt.setInFront 0 buf 1 = .ok vec from hvec]
        dsimp only [bind, Except.bind]
        rw [hvec']
        rfl
      · unfold frameBody
        dsimp only
        rw [if_neg hthreshold]
      · dsimp only
        rw [hslice', hslice, List.length_cons]
        rfl

theorem fromData_spec (zlib : Zlib) (hspace : 6 ≤ buf.frontSpace) (compression : Option CompressionInfo) :
    (∃ e, fromData zlib buf compression = .error (.error e)) ∧ Refused zlib compression buf.asSlice ∨
      ∃ p payload body, fromData zlib buf compression = .ok p ∧ Framed zlib compression buf.asSlice p payload body := by
  unfold fromData
  split
  · rename_i e hread
    exact Or.inl ⟨⟨e, rfl⟩, Or.inl fun r hok => by rw [hread] at hok; cases hok⟩
  · rename_i id payload hread
    cases compression with
    | none =>
      rcases fromDataUncompressed_spec zlib hspace hread with herror | ⟨p, hp, hframed⟩
      · exact Or.inl herror
      · exact Or.inr ⟨p, payload, _, hp, hframed⟩
    | some info =>
      rcases fromPacketDataFront_spec zlib info hspace hread with herror | ⟨p, body, hp, hframed⟩
      · exact Or.inl herror
      · exact Or.inr ⟨p, payload, body, hp, hframed⟩

end EncodedPacket

/-! ## The decoder -/

theorem readFrame_eq (packetLen : Nat) (packetData stream : List UInt8) (h : packetLen - packetData.length ≤ stream.length) :
    readFrame packetLen packetData stream =
      .ok (packetData ++ stream.take (packetLen - packetData.length), stream.drop (packetLen - packetData.length)) := by
  fun_induction readFrame packetLen packetData stream with
  | case1 packetData stream hshort next hnext ih =>
    have hlength : (packetData ++ stream.take next).length = packetData.length + next := by
      rw [List.length_append, List.length_take, Nat.min_eq_left hnext]
    have hle : next ≤ packetLen - packetData.length := Nat.min_le_left _ _
    have hsplit : packetLen - packetData.length = next + (packetLen - (packetData.length + next)) := by omega
    rw [ih (by rw [hlength, List.length_drop]; omega), hlength, List.append_assoc, ← List.take_add, List.drop_drop, ← hsplit]
  | case2 packetData stream hshort next hnext =>
    have hle : next ≤ packetLen - packetData.length := Nat.min_le_left _ _
    omega
  | case3 packetData stream hfull =>
    rw [Nat.sub_eq_zero_of_le (Nat.le_of_not_lt hfull)]
    simp

section
variable {zlib : Zlib} {compression : Option CompressionInfo} {data body : List UInt8}

theorem openFrame_spec (hlossless : zlib.Lossless) (hbody : frameBody zlib compression data = .ok body)
    (hbound : data.length ≤ maxPacketDataSize) :
    ∃ buffer start, openFrame zlib (compression.map CompressionInfo.threshold) body = .ok (buffer, start) ∧
      buffer.drop start = data ∧ start ≤ 1 := by
  have hsmall : data.length < 2 ^ 31 := Nat.lt_of_le_of_lt hbound (by decide)
  cases compression with
  | none =>
    cases hbody
    exact ⟨data, 0, rfl, rfl, Nat.zero_le 1⟩
  | some info =>
    unfold frameBody at hbody
    dsimp only at hbody
    split at hbody
    · rename_i hthreshold
      split at hbody
      · rename_i out hdeflate
        cases hbody
        have hinflate := hlossless _ _ _ hdeflate (data.length + 1) (Nat.lt_succ_self _)
        refine ⟨data, 0, ?_, rfl, Nat.zero_le 1⟩
        unfold openFrame
        simp only [Option.map_some, VarInt.read_write, bind, Except.bind, VarInt.asUsize_ofNat hsmall]
        have hpos : 0 < data.length := Nat.lt_of_lt_of_le info.nonzero hthreshold
        rw [if_neg (Nat.not_lt.mpr hbound), if_pos hpos, if_neg (Nat.not_lt.mpr hthreshold), hinflate]
        simp [pure, Except.pure]
      · cases hbody
    · cases hbody
      refine ⟨0 :: data, 1, ?_, rfl, Nat.le_refl 1⟩
      unfold openFrame
      simp only [Option.map_some, VarInt.read_zero, bind, Except.bind]
      rw [show asUsize 0 = 0 from rfl, if_neg (Nat.not_lt_zero _)]
      simp [pure, Except.pure]

theorem frameBody_ne_nil (hbody : frameBody zlib compression data = .ok body) (hdata : data ≠ []) : body ≠ [] := by
  unfold frameBody at hbody
  split at hbody
  · cases hbody
    exact hdata
  · split at hbody
    · split at hbody
      · cases hbody
        have hpos := VarInt.length_write_pos (Int32.ofNat data.length)
        exact List.append_ne_nil_of_left_ne_nil (List.ne_nil_of_length_pos hpos) _
      · cases hbody
    · cases hbody
      exact List.cons_ne_nil _ _

variable {payload : List UInt8} {id : Int32}

theorem ne_nil_of_read (hread : VarInt.read data = .ok (id, payload)) : data ≠ [] := by
  obtain ⟨front, rfl, hpos, -⟩ := VarInt.read_suffix hread
  exact List.append_ne_nil_of_left_ne_nil (List.ne_nil_of_length_pos hpos) _

theorem getRawPacket_frame (hlossless : zlib.Lossless) (hread : VarInt.read data = .ok (id, payload))
    (hbody : frameBody zlib compression data = .ok body) (hbound : data.length ≤ maxPacketDataSize)
    (hfits : body.length < 2 ^ 21) (following : List UInt8) :
    ∃ raw, getRawPacket zlib (compression.map CompressionInfo.threshold)
        (VarInt.write (Int32.ofNat body.length) ++ body ++ following) = .ok (raw, following) ∧
      raw.id = id ∧ raw.payload = payload := by
  obtain ⟨buffer, start, hopen, hdrop, hstart⟩ := openFrame_spec hlossless hbody hbound
  have hne : body.length ≠ 0 := fun hzero =>
    frameBody_ne_nil hbody (ne_nil_of_read hread) (List.length_eq_zero_iff.mp hzero)
  have hframe : readFrame body.length [] (body ++ following) = .ok (body, following) := by
    rw [readFrame_eq _ _ _ (by simp)]
    simp
  obtain ⟨front, hfront, -, hshort⟩ := VarInt.read_suffix hread
  refine ⟨RawPacket.fromBuffer id buffer (start + (data.length - payload.length)), ?_, rfl, ?_⟩
  · unfold getRawPacket
    rw [List.append_assoc, VarInt.readAsync_write]
    simp only [bind, Except.bind, VarInt.asUsize_ofNat (Nat.lt_trans hfits (by decide))]
    rw [if_neg (by unfold maxPacketSize; omega), if_neg hne]
    simp only [hframe, hopen, hdrop, hread, pure, Except.pure]
  · have hdiff : data.length - payload.length = front.length := by
      rw [hfront, List.length_append]
      omega
    unfold VarInt.maxSize at hshort
    have hsmall : start + front.length < 2 ^ 32 := by omega
    unfold RawPacket.fromBuffer RawPacket.payload
    dsimp only
    rw [hdiff, UInt32.toNat_ofNat_of_lt' hsmall, ← List.drop_drop, hdrop, hfront, List.drop_left]

theorem toPacketData_frame {p : EncodedPacket} (hlossless : zlib.Lossless) (hframed : Framed zlib compression data p payload body)
    (hfits : body.length < 2 ^ 21) : p.toPacketData zlib compression = .ok data := by
  have hsmall : body.length < 2 ^ 31 := Nat.lt_trans hfits (by decide)
  have hdata := ne_nil_of_read hframed.read
  have hne : body.length ≠ 0 := fun hzero => frameBody_ne_nil hframed.framed hdata (List.length_eq_zero_iff.mp hzero)
  have hbound := hframed.bound
  unfold EncodedPacket.toPacketData
  rw [hframed.slice]
  simp only [VarInt.read_write, bind, Except.bind, VarInt.toInt_ofNat hsmall, Int.toNat_natCast, ne_eq, not_true, or_false]
  rw [if_neg (Int.not_lt.mpr (Int.natCast_nonneg _)), if_neg hne]
  have hbody := hframed.framed
  cases compression with
  | none =>
    cases hbody
    simp [hdata, Nat.not_lt.mpr hbound, pure, Except.pure]
  | some info =>
    unfold frameBody at hbody
    dsimp only at hbody ⊢
    split at hbody
    · rename_i hthreshold
      split at hbody
      · rename_i out hdeflate
        cases hbody
        have hinflate := hlossless _ _ _ hdeflate (data.length + 1) (Nat.lt_succ_self _)
        have hlength : data.length ≠ 0 := fun hzero => hdata (List.length_eq_zero_iff.mp hzero)
        have hchecked : ¬(maxPacketDataSize < data.length ∨ data.length < info.threshold) := by omega
        rw [VarInt.read_write]
        simp only [VarInt.toInt_ofNat (Nat.lt_of_le_of_lt hbound (by decide : maxPacketDataSize < 2 ^ 31)), Int.toNat_natCast]
        rw [if_neg (Int.not_lt.mpr (Int.natCast_nonneg _)), if_neg hlength, if_neg hchecked]
        unfold EncodedPacket.inflateExactly
        rw [hinflate]
        simp [hdata, Nat.not_lt.mpr hbound, pure, Except.pure]
      · cases hbody
    · cases hbody
      rw [VarInt.read_zero]
      simp [hdata, Nat.not_lt.mpr hbound, pure, Except.pure]

theorem payload_frame {p : EncodedPacket} (hlossless : zlib.Lossless) (hframed : Framed zlib compression data p payload body)
    (hfits : body.length < 2 ^ 21) : p.payload zlib compression = .ok payload := by
  unfold EncodedPacket.payload
  rw [toPacketData_frame hlossless hframed hfits]
  simp only [bind, Except.bind, hframed.read, pure, Except.pure]

/-! ## Both together -/

/-- The frame is one that the format allows: its length takes three bytes at most and is the number of bytes behind it,
the decoder reads the id and the payload from it, and the body comes back. -/
structure Allowed (zlib : Zlib) (compression : Option CompressionInfo) (data : List UInt8) (p : EncodedPacket) : Prop where
  length : ∃ length rest, VarInt.read p.encodedData.asSlice = .ok (length, rest) ∧ length.toInt = rest.length ∧
    p.encodedData.asSlice.length - rest.length ≤ 3 ∧ rest.length ≤ maxPacketSize
  decodes : ∃ payload, VarInt.read data = .ok (p.id, payload) ∧ p.payload zlib compression = .ok payload ∧
    ∀ following, ∃ raw, getRawPacket zlib (compression.map CompressionInfo.threshold)
      (p.encodedData.asSlice ++ following) = .ok (raw, following) ∧ raw.id = p.id ∧ raw.payload = payload
  body : p.toPacketData zlib compression = .ok data

/-- A compressed body with its length, or one below the threshold with the byte that says so, is shorter than `2 ^ 21`. -/
def Fits (zlib : Zlib) (compression : Option CompressionInfo) (data : List UInt8) : Prop :=
  match compression with
  | none => True
  | some info =>
    if data.length < info.threshold then data.length + 1 < 2 ^ 21
    else ∀ out, zlib.deflate info.level data = .ok out → VarInt.writtenSize (Int32.ofNat data.length) + out.length < 2 ^ 21

theorem fits_iff {p : EncodedPacket} (hframed : Framed zlib compression data p payload body) :
    Fits zlib compression data ↔ body.length < 2 ^ 21 := by
  have hbody := hframed.framed
  unfold Fits
  cases compression with
  | none => exact ⟨fun _ => hframed.uncompressed rfl, fun _ => trivial⟩
  | some info =>
    unfold frameBody at hbody
    dsimp only at hbody ⊢
    split at hbody
    · rename_i hthreshold
      rw [if_neg (Nat.not_lt.mpr hthreshold)]
      split at hbody
      · rename_i out hdeflate
        cases hbody
        rw [hdeflate, VarInt.writtenSize_eq, List.length_append]
        constructor
        · exact fun h => h out rfl
        · intro h out' hout
          cases hout
          exact h
      · cases hbody
    · rename_i hthreshold
      cases hbody
      rw [if_pos (Nat.lt_of_not_le hthreshold), List.length_cons]

theorem allowed_iff {p : EncodedPacket} (hlossless : zlib.Lossless) (hframed : Framed zlib compression data p payload body) :
    Allowed zlib compression data p ↔ Fits zlib compression data := by
  rw [fits_iff hframed]
  constructor
  · intro hallowed
    obtain ⟨length, rest, hread, hlength, hthree, hmax⟩ := hallowed.length
    rw [hframed.slice, VarInt.read_write] at hread
    cases hread
    rw [hframed.slice, List.length_append, Nat.add_sub_cancel] at hthree
    have hsmall : body.length < 2 ^ 31 := Nat.lt_of_le_of_lt hmax (by decide)
    exact (VarInt.length_write_le_three hsmall).mp hthree
  · intro hfits
    have hsmall : body.length < 2 ^ 31 := Nat.lt_trans hfits (by decide)
    constructor
    · refine ⟨Int32.ofNat body.length, body, ?_, VarInt.toInt_ofNat hsmall, ?_, ?_⟩
      · rw [hframed.slice, VarInt.read_write]
      · rw [hframed.slice, List.length_append, Nat.add_sub_cancel]
        exact (VarInt.length_write_le_three hsmall).mpr hfits
      · unfold maxPacketSize
        omega
    · refine ⟨payload, hframed.read, payload_frame hlossless hframed hfits, fun following => ?_⟩
      rw [hframed.slice]
      exact getRawPacket_frame hlossless hframed.read hframed.framed hframed.bound hfits following
    · exact toPacketData_frame hlossless hframed hfits

end

end Foton.Frame
