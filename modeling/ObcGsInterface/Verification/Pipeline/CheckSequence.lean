import ObcGsInterface.Verification.Link.Receive
import ObcGsInterface.Verification.Link.Send
import ObcGsInterface.Verification.Pipeline.Checksum

/-! # One check sequence on both sides

`AX25.encode_frame` seals the bytes of a frame as the C encoders do, and `AX25.decode_frame`
and `fcsCheck` accept what either side has sealed. -/

namespace ObcGsInterface

open CArray BitStream BitStuffing BinaryPolynomial BigEndian Polynomial

section Frames

variable {Frame : Type} (unpack : List Byte → Except PyError Frame)

/-- `AX25.decode_frame` compares the last two bytes with the checksum of the bytes before. -/
theorem ax25DecodeFrame_bytes16 (body : List Byte) (fcs : BitVec 16) :
    Ax25.decodeFrame unpack (ax25Flag :: (body ++ (bytes16 fcs ++ [ax25Flag]))) =
      if fcs = reverseUint16 (crcOf body) then unpack body
      else .error (.valueError "Check sums do not match") := by
  have hinner : (ax25Flag :: (body ++ (bytes16 fcs ++ [ax25Flag]))).dropLast.drop 1 =
      body ++ bytes16 fcs := by
    rw [← List.append_assoc, ← List.cons_append, List.dropLast_concat]
    rfl
  have hcut : (body ++ bytes16 fcs).length - 2 = body.length := by
    rw [List.length_append, length_bytes16, Nat.add_sub_cancel]
  have hiff : intFromBytes (bytes16 fcs) ≠ reversedCrc body ↔
      ¬ fcs = reverseUint16 (crcOf body) := by
    rw [intFromBytes_bytes16, reversedCrc_eq, ne_eq, BitVec.toNat_inj]
  rw [Ax25.decodeFrame, hinner, hcut, List.drop_left, List.take_left]
  by_cases hfcs : fcs = reverseUint16 (crcOf body)
  · rw [if_pos hfcs, if_neg (mt hiff.mp (not_not.mpr hfcs))]
  · rw [if_neg hfcs, if_pos (hiff.mpr hfcs)]
    rfl

theorem reverseUint16_inj {x y : BitVec 16} : reverseUint16 x = reverseUint16 y ↔ x = y := by
  constructor
  · intro h
    rw [← reverseUint16_reverseUint16 x, h, reverseUint16_reverseUint16]
  · exact congrArg reverseUint16

theorem ax25DecodeFrame_eq (body sent : List Byte) :
    Ax25.decodeFrame unpack (ax25Flag :: (body ++ (checkSequence sent ++ [ax25Flag]))) =
      if crcOf sent = crcOf body then unpack body
      else .error (.valueError "Check sums do not match") := by
  rw [checkSequence, ax25DecodeFrame_bytes16]
  exact if_congr reverseUint16_inj rfl rfl

theorem ax25DecodeFrame_sealFrame (body : List Byte) :
    Ax25.decodeFrame unpack (sealFrame body) = unpack body :=
  (ax25DecodeFrame_eq unpack body body).trans (if_pos rfl)

end Frames

/-! ## What the encoders append -/

/-- The two bytes of a check sequence, as the C encoders split it. -/
def fcsBytes (fcs : BitVec 16) : List Byte := [(fcs >>> 8).setWidth 8, (fcs &&& 0xFF).setWidth 8]

/-- `AX25.encode_frame` makes `encoded` of the bytes of a frame, however the package comes to
pack them. -/
def EncodesAs (frameBytes encoded : List Byte) : Prop :=
  ∀ {FrameType : Type} (pack : PyFrame FrameType → Except PyError (List Byte)) (self : Ax25)
    (dataToSend : Option (List Byte)) (frameType : FrameType) (sequenceNumber : ℕ) (poll : Bool),
    pack ⟨⟨self.dstCallsign, pyDefaultSsid⟩, ⟨self.srcCallsign, pyDefaultSsid⟩,
      ⟨frameType, poll, sequenceNumber⟩, 0, dataToSend⟩ = .ok frameBytes →
    self.encodeFrame pack dataToSend frameType sequenceNumber poll = .ok encoded

/-- `AX25.decode_frame` accepts the check sequence and unpacks the bytes before it. -/
def DecodesAs (encoded frameBytes : List Byte) : Prop :=
  ∀ {Frame : Type} (unpack : List Byte → Except PyError Frame),
    Ax25.decodeFrame unpack encoded = unpack frameBytes

/-- `fcsCheck` accepts the check sequence of a frame, read as `ax25Recv` reads it. -/
def PassesFcsCheck (encoded : List Byte) : Prop :=
  ∃ fcsHigh fcsLow, encoded[encoded.length - 3]? = some fcsHigh ∧
    encoded[encoded.length - 2]? = some fcsLow ∧
    fcsCheck (encoded.drop 1) encoded.length (join16 fcsHigh fcsLow) = .ok .success

theorem fcsBytes_eq (fcs : BitVec 16) : fcsBytes fcs = bytes16 fcs := by
  rw [fcsBytes, low_byte, bytes16]

theorem toBytesBig_toNat (value : BitVec 16) : toBytesBig value.toNat 2 = .ok (bytes16 value) := by
  have hlt : value.toNat < 256 ^ 2 := value.isLt
  rw [toBytesBig, if_pos hlt, bytes16]
  simp only [List.range_succ, List.range_zero, List.nil_append, List.cons_append, List.map_cons,
    List.map_nil]
  have hhigh : BitVec.ofNat 8 (value.toNat / 256 ^ (2 - 1 - 0)) = (value >>> 8).setWidth 8 := by
    apply BitVec.eq_of_toNat_eq
    simp [Nat.shiftRight_eq_div_pow]
  have hlow : BitVec.ofNat 8 (value.toNat / 256 ^ (2 - 1 - 1)) = value.setWidth 8 := by
    apply BitVec.eq_of_toNat_eq
    simp
  rw [hhigh, hlow]

theorem encodesAs_sealFrame (frameBytes : List Byte) :
    EncodesAs frameBytes (sealFrame frameBytes) := by
  intro FrameType pack self dataToSend frameType sequenceNumber poll hpack
  have hfcs : toBytesBig (reversedCrc frameBytes) (crcLengthBits / 8) =
      .ok (checkSequence frameBytes) := by
    rw [reversedCrc_eq]
    exact toBytesBig_toNat _
  simp only [Ax25.encodeFrame, hpack, ok_bind, hfcs, pure_eq_ok, sealFrame, List.cons_append,
    List.nil_append, List.append_assoc]

theorem decodesAs_sealFrame (frameBytes : List Byte) :
    DecodesAs (sealFrame frameBytes) frameBytes :=
  fun unpack => ax25DecodeFrame_sealFrame unpack frameBytes

theorem fcsLength_add_four {n : ℕ} (h : n + 4 < 2 ^ 16) : fcsLength (n + 4) = n := by
  rw [fcsLength, ax25FcsBytes, ax25TotalFlagBytes]
  omega

theorem passesFcsCheck_sealFrame {frameBytes : List Byte} (h : frameBytes.length + 4 < 2 ^ 16) :
    PassesFcsCheck (sealFrame frameBytes) := by
  have hcells : sealFrame frameBytes = (ax25Flag :: frameBytes) ++
      (checkSequence frameBytes ++ [ax25Flag]) := rfl
  have hthree : frameBytes.length + 4 - 3 = (ax25Flag :: frameBytes).length := by
    rw [List.length_cons]
    omega
  have htwo : frameBytes.length + 4 - 2 = (ax25Flag :: frameBytes).length + 1 := by
    rw [List.length_cons]
    omega
  refine ⟨(reverseUint16 (crcOf frameBytes) >>> 8).setWidth 8,
    (reverseUint16 (crcOf frameBytes)).setWidth 8, ?_, ?_, ?_⟩
  · rw [length_sealFrame, hthree, hcells, List.getElem?_append_right (Nat.le_refl _), Nat.sub_self]
    rfl
  · rw [length_sealFrame, htwo, hcells, List.getElem?_append_right (Nat.le_add_right _ _),
      Nat.add_sub_cancel_left]
    rfl
  · have hinner : (sealFrame frameBytes).drop 1 =
        frameBytes ++ (checkSequence frameBytes ++ [ax25Flag]) := rfl
    rw [join16_bytes16, length_sealFrame, hinner, fcsCheck, fcsLength_add_four h,
      calculateCrc16Ccitt_eq (by rw [List.length_append]; omega), List.take_left,
      reverseUint16_reverseUint16, ok_bind, if_neg (not_not.mpr rfl)]
    rfl

/-! ## The same checksum -/

/-- The remainder of `d(x) * x ^ 16`, most significant bits first. -/
noncomputable def ccittRemainder (data : List Byte) : (ZMod 2)[X] :=
  (ofBits (bits data) * X ^ 16) %ₘ (X ^ 16 + X ^ 12 + X ^ 5 + 1)

/-- What C and Python agree on. -/
structure OneChecksum : Prop where
  remainder : ∀ data : List Byte, data.length < 2 ^ 16 →
    ∃ crc, calculateCrc16Ccitt data data.length = .ok crc ∧
      ofWord crc = ccittRemainder data
  hqxRemainder : ∀ data : List Byte, ofWord (crcHqx data 0) = ccittRemainder data
  fcs : ∀ frameBytes rest : List Byte, frameBytes.length + 4 < 2 ^ 16 →
    ∃ fcs, fcsCalculate (frameBytes ++ rest) (frameBytes.length + 4) = .ok fcs ∧
      EncodesAs frameBytes (ax25Flag :: (frameBytes ++ (fcsBytes fcs ++ [ax25Flag]))) ∧
      DecodesAs (ax25Flag :: (frameBytes ++ (fcsBytes fcs ++ [ax25Flag]))) frameBytes
  iFrame : ∀ s telemData telemDataLen out frame s', telemDataLen ≤ ax25InfoBytes →
    ax25SendIFrame s telemData telemDataLen out = .ok ⟨.success, some frame, s'⟩ →
    EncodesAs (frame.field 1 271) frame.data.cells ∧
      DecodesAs frame.data.cells (frame.field 1 271)
  uFrame : ∀ s out cmd pollFinalBit frame s',
    ax25SendUFrame s out cmd pollFinalBit = .ok ⟨.success, some frame, s'⟩ →
    ∃ encoded, EncodesAs (uFrameBody s.currentLinkDestAddr.data.cells cmd pollFinalBit) encoded ∧
      DecodesAs encoded (uFrameBody s.currentLinkDestAddr.data.cells cmd pollFinalBit) ∧
      ax25Stuff encoded ax25MinimumUFrameCmdLength (Block.fill ax25MaximumUFrameCmdLength 0) =
        .ok ⟨.success, frame.data, frame.length⟩
  accepts : ∀ {FrameType : Type} (pack : PyFrame FrameType → Except PyError (List Byte))
    (self : Ax25) dataToSend frameType sequenceNumber poll encoded,
    self.encodeFrame pack dataToSend frameType sequenceNumber poll = .ok encoded →
    encoded.length < 2 ^ 16 → PassesFcsCheck encoded

theorem encodeFrame_sealed {FrameType : Type}
    {pack : PyFrame FrameType → Except PyError (List Byte)} {self : Ax25}
    {dataToSend : Option (List Byte)} {frameType : FrameType} {sequenceNumber : ℕ} {poll : Bool}
    {encoded : List Byte}
    (h : self.encodeFrame pack dataToSend frameType sequenceNumber poll = .ok encoded) :
    ∃ frameBytes, encoded = sealFrame frameBytes := by
  have hpacked := h
  rw [Ax25.encodeFrame, bind_eq_ok] at hpacked
  rcases hpacked with ⟨frameBytes, hpack, -⟩
  have hsealed := encodesAs_sealFrame frameBytes pack self dataToSend frameType sequenceNumber poll
    hpack
  rw [h, Except.ok.injEq] at hsealed
  exact ⟨frameBytes, hsealed⟩

theorem iFrame_encoding {s : LinkState} {telemData : Option (List Byte)} {telemDataLen : ℕ}
    {out : Option UnstuffedAx25IFrame} {frame : UnstuffedAx25IFrame} {s' : LinkState}
    (hlen : telemDataLen ≤ ax25InfoBytes)
    (h : ax25SendIFrame s telemData telemDataLen out = .ok ⟨.success, some frame, s'⟩) :
    frame.data.cells = sealFrame (frame.field 1 271) := by
  cases ax25SendIFrame_sent hlen h with
  | sent data frame data_eq link read length_eq cells_eq =>
      have hinfo := length_infoField
        (show (data.take telemDataLen).length ≤ ax25InfoBytes by rw [List.length_take]; omega)
      have hbody : (iFrameBody s.currentLinkDestAddr.data.cells s.iControl
          (infoField (data.take telemDataLen))).length = 271 := by
        rw [iFrameBody, length_frameBody, List.length_cons, hinfo, Block.length_cells]
        rfl
      rw [UnstuffedAx25IFrame.field, cells_eq, sealFrame, List.drop_succ_cons, List.drop_zero,
        List.take_left' hbody]
      rfl

theorem uFrame_encoding {s : LinkState} {out : Option PackedAx25UFrame} {cmd : ℕ}
    {pollFinalBit : Byte} {frame : PackedAx25UFrame} {s' : LinkState}
    (h : ax25SendUFrame s out cmd pollFinalBit = .ok ⟨.success, some frame, s'⟩) :
    ax25Stuff (sealFrame (uFrameBody s.currentLinkDestAddr.data.cells cmd pollFinalBit))
        ax25MinimumUFrameCmdLength (Block.fill ax25MaximumUFrameCmdLength 0) =
      .ok ⟨.success, frame.data, frame.length⟩ := by
  rcases ax25SendUFrame_sent s out cmd pollFinalBit with ⟨result, hrun, hsent⟩
  rw [h, Except.ok.injEq] at hrun
  rw [← hrun] at hsent
  cases hsent with
  | sent frame link packed =>
      have hcontent : (uFrameBody s.currentLinkDestAddr.data.cells cmd pollFinalBit ++
          checkSequence (uFrameBody s.currentLinkDestAddr.data.cells cmd pollFinalBit)).length =
            17 := by
        rw [List.length_append, uFrameBody, length_frameBody, Block.length_cells,
          length_checkSequence]
        rfl
      have hlength := packed.length_eq
      have hcells := packed.cells_eq
      generalize uFrameBody s.currentLinkDestAddr.data.cells cmd pollFinalBit = body at *
      obtain ⟨⟨err, stuffedData, stuffedDataLen⟩, hstuff, herr, hstuffedLength, hstuffedCells⟩ :=
        ax25Stuff_flags (by omega) (byteCount_stuff_le_uFrame hcontent)
      simp only at herr hstuffedLength hstuffedCells
      have hsame : stuffedDataLen = frame.length := hstuffedLength.trans hlength.symm
      have hdata : stuffedData = frame.data := by
        rw [Block.ext_iff, hstuffedCells, hcells, hsame]
      rw [hcontent, herr, hsame, hdata, List.append_assoc] at hstuff
      exact hstuff

/-- **There is one checksum.** -/
theorem oneChecksum : OneChecksum where
  remainder := fun data _ =>
    ⟨crcOf data, by rw [calculateCrc16Ccitt_eq (Nat.le_refl _), List.take_length],
      ofWord_crcOf data⟩
  hqxRemainder := fun data => by
    rw [crcHqx_eq]
    exact ofWord_crcOf data
  fcs := fun frameBytes rest h => by
    refine ⟨_, fcsCalculate_append (fcsLength_add_four h), ?_⟩
    rw [fcsBytes_eq]
    exact ⟨encodesAs_sealFrame frameBytes, decodesAs_sealFrame frameBytes⟩
  iFrame := fun s telemData telemDataLen out frame s' hlen h => by
    rw [iFrame_encoding hlen h]
    exact ⟨encodesAs_sealFrame _, decodesAs_sealFrame _⟩
  uFrame := fun s out cmd pollFinalBit frame s' h =>
    ⟨_, encodesAs_sealFrame _, decodesAs_sealFrame _, uFrame_encoding h⟩
  accepts := fun pack self dataToSend frameType sequenceNumber poll encoded h hlength => by
    rcases encodeFrame_sealed h with ⟨frameBytes, rfl⟩
    rw [length_sealFrame] at hlength
    exact passesFcsCheck_sealFrame hlength

/-- A link to the satellite. -/
private def linkedState : LinkState := { LinkState.initial with currentLinkDestAddr := cubeSatLink }

/-- A package that packs the frames to the satellite. -/
private def packBody (frame : PyFrame Unit) : Except PyError (List Byte) :=
  .ok (frameBody cubeSatDest 0 (0 :: frame.data.getD []))

/-- The frames that both C functions send on a link, and one that the package encodes. -/
theorem oneChecksum_linked :
    (∃ crc, calculateCrc16Ccitt [1, 2, 3] 3 = .ok crc ∧ ofWord crc = ccittRemainder [1, 2, 3]) ∧
      (∃ fcs, fcsCalculate ([1, 2, 3] ++ [0, 0]) 7 = .ok fcs ∧
        EncodesAs [1, 2, 3] (ax25Flag :: ([1, 2, 3] ++ (fcsBytes fcs ++ [ax25Flag]))) ∧
        DecodesAs (ax25Flag :: ([1, 2, 3] ++ (fcsBytes fcs ++ [ax25Flag]))) [1, 2, 3]) ∧
      (∃ frame, ax25SendIFrame linkedState (some [1, 2, 3]) 3 (some ⟨Block.fill _ 0, 0⟩) =
          .ok ⟨.success, some frame, linkedState.sent⟩ ∧
        EncodesAs (frame.field 1 271) frame.data.cells ∧
        DecodesAs frame.data.cells (frame.field 1 271)) ∧
      (∃ frame encoded, ax25SendUFrame linkedState (some ⟨Block.fill _ 0, 0⟩) UFrameCmd.ack.value 1 =
          .ok ⟨.success, some frame, linkedState⟩ ∧
        EncodesAs (uFrameBody cubeSatDest UFrameCmd.ack.value 1) encoded ∧
        DecodesAs encoded (uFrameBody cubeSatDest UFrameCmd.ack.value 1) ∧
        ax25Stuff encoded ax25MinimumUFrameCmdLength (Block.fill ax25MaximumUFrameCmdLength 0) =
          .ok ⟨.success, frame.data, frame.length⟩) ∧
      ∃ encoded, Ax25.encodeFrame packBody ⟨"ATLAS", "AKITO"⟩ (some [1, 2, 3]) () 0 false =
        .ok encoded ∧ PassesFcsCheck encoded := by
  obtain ⟨frame, hsend, -⟩ := @ax25SendIFrame_eq linkedState [1, 2, 3] 3 ⟨Block.fill _ 0, 0⟩ rfl
    (by decide) (by decide)
  obtain ⟨uFrame, huFrame, -⟩ := @ax25SendUFrame_eq linkedState UFrameCmd.ack.value 1
    ⟨Block.fill _ 0, 0⟩ rfl (by decide) (by decide)
  obtain ⟨encoded, hencodes, hdecodes, hstuff⟩ := oneChecksum.uFrame _ _ _ _ _ _ huFrame
  have hencode : Ax25.encodeFrame packBody ⟨"ATLAS", "AKITO"⟩ (some [1, 2, 3]) () 0 false =
      .ok (sealFrame (frameBody cubeSatDest 0 [0, 1, 2, 3])) :=
    encodesAs_sealFrame _ packBody ⟨"ATLAS", "AKITO"⟩ _ _ _ _ rfl
  have haccepts := oneChecksum.accepts packBody _ _ _ _ _ _ hencode (by
    rw [length_sealFrame]
    exact (by decide : 23 < 2 ^ 16))
  exact ⟨oneChecksum.remainder [1, 2, 3] (by decide), oneChecksum.fcs [1, 2, 3] [0, 0] (by decide),
    ⟨frame, hsend, oneChecksum.iFrame _ _ _ _ _ _ (by decide) hsend⟩,
    ⟨uFrame, encoded, huFrame, hencodes, hdecodes, hstuff⟩, ⟨_, hencode, haccepts⟩⟩

end ObcGsInterface
