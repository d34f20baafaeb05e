import ObcGsInterface.Model.CommandResponse
import ObcGsInterface.Verification.DataPack

/-! # Command responses

A packed response reads back, unless its data is as long as the field that holds it: the
packer and the unpacker disagree on that length. -/

namespace ObcGsInterface

open CArray Cursor

/-- The header of a response that `packCmdResponse` takes: the command and the error code are
enumerators, and the data is not longer than its field. -/
structure CmdResponseHeader.Accepted (header : CmdResponseHeader) : Prop where
  cmdId_lt : header.cmdId.toNat < numCmdCallbacks
  errCode_mem : ∃ code : CmdResponseErrorCode, header.errCode.toNat = code.value
  dataLen_le : header.dataLen.toNat ≤ cmdResponseDataMaxSize

/-- The three bytes of a header. -/
def CmdResponseHeader.bytes (header : CmdResponseHeader) : List Byte :=
  [header.cmdId.setWidth 8, header.errCode.setWidth 8, header.dataLen]

/-- The wire image of a response. -/
def responseImage (header : CmdResponseHeader) (responseData : Block Byte cmdResponseDataMaxSize) :
    List Byte :=
  header.bytes ++ responseData.cells

theorem length_responseImage (header : CmdResponseHeader)
    (responseData : Block Byte cmdResponseDataMaxSize) :
    (responseImage header responseData).length = rsDecodedDataSize := by
  simp [responseImage, CmdResponseHeader.bytes, cmdResponseDataMaxSize, rsDecodedDataSize]

/-! ## Packing -/

/-- The packer checks the command and the length, and nothing else. -/
theorem packCmdResponse_eq (header : CmdResponseHeader)
    (responseData : Block Byte cmdResponseDataMaxSize) (buffer : Block Byte rsDecodedDataSize) :
    packCmdResponse header buffer.cells responseData.cells =
      if header.cmdId.toNat < numCmdCallbacks ∧ header.dataLen.toNat ≤ cmdResponseDataMaxSize then
        .ok (.success, responseImage header responseData)
      else .ok (.invalidArg, buffer.cells) := by
  by_cases h : header.cmdId.toNat < numCmdCallbacks ∧ header.dataLen.toNat ≤ cmdResponseDataMaxSize
  · have hfits : header.bytes.length ≤ buffer.cells.length := by
      rw [buffer.length_cells]
      exact (by decide : 3 ≤ rsDecodedDataSize)
    have hput := putBytes_zero hfits (by decide : 3 < 2 ^ 32)
    have hroom : 3 + cmdResponseDataMaxSize ≤
        (header.bytes ++ buffer.cells.drop header.bytes.length).length := by
      simp [CmdResponseHeader.bytes, rsDecodedDataSize, cmdResponseDataMaxSize]
    have hsteps : packCmdResponse header buffer.cells responseData.cells =
        putBytes header.bytes buffer.cells 0 >>= fun r =>
          memcpy r.1 r.2.toNat responseData.cells cmdResponseDataMaxSize >>= fun buffer =>
            .ok (.success, buffer) := by
      rw [packCmdResponse, if_neg (by omega), CmdResponseHeader.bytes, ← List.singleton_append,
        putBytes_append, ← List.singleton_append (l := [header.dataLen]), bind_assoc]
      simp only [putBytes_append, bind_assoc, packUint8_eq]
      rfl
    have hoffset : (BitVec.ofNat 32 header.bytes.length).toNat = 3 := rfl
    rw [if_pos h, hsteps, hput, ok_bind]
    simp only [hoffset]
    rw [memcpy_of_le _ _ (Nat.le_of_eq responseData.length_cells.symm) hroom, ok_bind]
    have hfull : (buffer.cells.drop 3).length = cmdResponseDataMaxSize := by
      simp [rsDecodedDataSize, cmdResponseDataMaxSize]
    have hover := overwrite_append header.bytes (buffer.cells.drop 3) []
      responseData.cells (by rw [hfull, responseData.length_cells])
    simp only [List.append_nil] at hover
    rw [List.take_of_length_le (Nat.le_of_eq responseData.length_cells)]
    exact congrArg (fun image => Except.ok (ErrorCode.success, image)) hover
  · rw [if_neg h, packCmdResponse, if_pos (by omega)]

/-! ## Unpacking -/

/-- An enumerator that was cut to a byte is read back whole. -/
theorem setWidth_setWidth_byte {value : BitVec 32} (h : value.toNat < 2 ^ 8) :
    (value.setWidth 8).setWidth 32 = value := by
  apply BitVec.eq_of_toNat_eq
  rw [BitVec.toNat_setWidth, BitVec.toNat_setWidth, Nat.mod_eq_of_lt h,
    Nat.mod_eq_of_lt value.isLt]

theorem CmdResponseErrorCode.value_lt (code : CmdResponseErrorCode) : code.value < 2 ^ 8 := by
  cases code <;> decide

/-- The unpacker reads the header back, and rejects a length of the whole field. -/
theorem unpackCmdResponse_image {header : CmdResponseHeader} (h : header.Accepted)
    (responseData : Block Byte cmdResponseDataMaxSize) (response : CmdResponseHeader)
    {dataBuffer : List Byte} (hroom : cmdResponseDataMaxSize ≤ dataBuffer.length) :
    unpackCmdResponse (responseImage header responseData) response dataBuffer =
      if header.dataLen.toNat < cmdResponseDataMaxSize then
        .ok ⟨.success, header, responseData.cells ++ dataBuffer.drop cmdResponseDataMaxSize⟩
      else .ok ⟨.invalidArg, header, dataBuffer⟩ := by
  have hcmdId := h.cmdId_lt
  have hcallbacks : numCmdCallbacks = 13 := rfl
  have hcmdId' : (header.cmdId.setWidth 8).setWidth 32 = header.cmdId :=
    setWidth_setWidth_byte (by omega)
  rcases h.errCode_mem with ⟨code, hcode⟩
  have herrCode' := setWidth_setWidth_byte (hcode.trans_lt code.value_lt)
  have hheld : HoldsBytes (responseImage header responseData) (0 : Offset) header.bytes := by
    rw [holdsBytes_zero (by exact (by decide : 3 < 2 ^ 32)), responseImage, List.take_left]
  simp only [CmdResponseHeader.bytes, holds_cons, holds_nil, and_true] at hheld
  rcases hheld with ⟨hid, herr, hlen⟩
  have hid' : unpackUint8 (responseImage header responseData) 0 =
      .ok (header.cmdId.setWidth 8, 0 + 1) :=
    unpackUint8_eq_ok.mpr ⟨holds_cons.mpr ⟨hid, holds_nil⟩, rfl⟩
  have herr' : unpackUint8 (responseImage header responseData) (0 + 1) =
      .ok (header.errCode.setWidth 8, 0 + 1 + 1) :=
    unpackUint8_eq_ok.mpr ⟨holds_cons.mpr ⟨herr, holds_nil⟩, rfl⟩
  have hlen' : unpackUint8 (responseImage header responseData) (0 + 1 + 1) =
      .ok (header.dataLen, 0 + 1 + 1 + 1) :=
    unpackUint8_eq_ok.mpr ⟨holds_cons.mpr ⟨hlen, holds_nil⟩, rfl⟩
  have hoffset : (0 + 1 + 1 + 1 : Offset).toNat = header.bytes.length := rfl
  simp only [unpackCmdResponse, hid', ok_bind, hcmdId', if_neg (Nat.not_le.mpr hcmdId), herr',
    hlen', herrCode', hoffset]
  by_cases hdata : header.dataLen.toNat < cmdResponseDataMaxSize
  · have hcount : cmdResponseDataMaxSize ≤
        ((responseImage header responseData).drop header.bytes.length).length := by
      rw [responseImage, List.drop_left, responseData.length_cells]
    rw [if_neg (Nat.not_le.mpr hdata), if_pos hdata, memcpy_of_le _ _ hcount (by omega), ok_bind,
      responseImage, List.drop_left,
      List.take_of_length_le (Nat.le_of_eq responseData.length_cells), overwrite, List.take_zero,
      List.nil_append, Nat.zero_add, responseData.length_cells]
    rfl
  · rw [if_pos (Nat.not_lt.mp hdata), if_neg hdata]
    rfl

/-! ## Parsing -/

/-- The probe's parser lists the first bytes of the data. -/
theorem map_intFromBytesLittle {data : List Byte} {n : ℕ} (h : n ≤ data.length) :
    (List.range n).map (fun i => intFromBytesLittle ((data.take (i + 1)).drop i)) =
      (data.take n).map BitVec.toNat := by
  apply List.ext_getElem
  · simp [h]
  intro i hi _
  simp only [List.length_map, List.length_range] at hi
  have hbyte : (data.take (i + 1)).drop i = [data[i]] := by
    rw [List.take_add_one, List.drop_append_of_le_length (by simp; omega),
      List.drop_take_self, List.getElem?_eq_getElem (by omega)]
    rfl
  simp [hbyte, intFromBytesLittle]

/-- What the receiver makes of a packed response. -/
structure ReadsBack (header : CmdResponseHeader)
    (responseData : Block Byte cmdResponseDataMaxSize) (packed : List Byte) : Prop where
  unpacked : ∀ response (dataBuffer : List Byte), cmdResponseDataMaxSize ≤ dataBuffer.length →
    unpackCmdResponse packed response dataBuffer =
      .ok ⟨.success, header, responseData.cells ++ dataBuffer.drop cmdResponseDataMaxSize⟩
  parsed : header.cmdId.toNat = CmdCallbackId.i2cProbe.value →
    parseCommandResponse packed =
      .ok (.cmdI2CProbeRes ⟨.i2cProbe, header.errCode.toNat, header.dataLen.toNat⟩
        ((responseData.cells.take header.dataLen.toNat).map BitVec.toNat))

/-- The response is packed into 223 bytes, and these read back. -/
def ResponseRoundTrips (header : CmdResponseHeader)
    (responseData : Block Byte cmdResponseDataMaxSize) (buffer : Block Byte rsDecodedDataSize) :
    Prop :=
  ∃ packed, packCmdResponse header buffer.cells responseData.cells = .ok (.success, packed) ∧
    packed.length = rsDecodedDataSize ∧ ReadsBack header responseData packed

/-- The ground station's wrapper returns the header, and the data field with what its buffer
held behind it. -/
theorem unpackCommandResponse_image {header : CmdResponseHeader} (h : header.Accepted)
    (hdata : header.dataLen.toNat < cmdResponseDataMaxSize)
    (responseData : Block Byte cmdResponseDataMaxSize) :
    ∃ rest, unpackCommandResponse (responseImage header responseData) =
      .ok (header, responseData.cells ++ rest) := by
  have hlength := length_responseImage header responseData
  rcases ctypesArray_of_le (Nat.le_of_eq hlength) with ⟨buff, hbuff, hbuffCells⟩
  have hempty : ([] : List Byte).length ≤ rsDecodedDataSize := Nat.zero_le _
  rcases ctypesArray_of_le hempty with ⟨dataBuffer, hdataBuffer, -⟩
  rw [hlength, Nat.sub_self, List.replicate_zero, List.append_nil] at hbuffCells
  have hroom : cmdResponseDataMaxSize ≤ dataBuffer.cells.length := by
    rw [dataBuffer.length_cells]
    decide
  have hunpack := unpackCmdResponse_image h responseData CmdResponseHeader.new hroom
  rw [if_pos hdata] at hunpack
  refine ⟨dataBuffer.cells.drop cmdResponseDataMaxSize, ?_⟩
  rw [unpackCommandResponse, if_neg (by omega)]
  simp [hbuff, hdataBuffer, hbuffCells, hunpack]

theorem readsBack_image {header : CmdResponseHeader} (h : header.Accepted)
    (hdata : header.dataLen.toNat < cmdResponseDataMaxSize)
    (responseData : Block Byte cmdResponseDataMaxSize) :
    ReadsBack header responseData (responseImage header responseData) where
  unpacked := fun response dataBuffer hroom => by
    rw [unpackCmdResponse_image h responseData response hroom, if_pos hdata]
  parsed := fun hprobe => by
    rcases unpackCommandResponse_image h hdata responseData with ⟨rest, hraw⟩
    have hfull : header.dataLen.toNat ≤ (responseData.cells ++ rest).length := by
      rw [List.length_append, responseData.length_cells]
      omega
    have hlist := map_intFromBytesLittle hfull
    rw [List.take_append_of_le_length
      (by rw [responseData.length_cells]; exact h.dataLen_le)] at hlist
    rw [parseCommandResponse, hraw, ok_bind]
    simp only [hprobe, CmdCallbackId.ofValue?, CmdCallbackId.value]
    simp [parseFuncDict, parseCmdI2CProbe, hlist]

/-- The receiver drops data that fills the whole field. -/
theorem ResponseRoundTrips.dataLen_lt {header : CmdResponseHeader} (h : header.Accepted)
    {responseData : Block Byte cmdResponseDataMaxSize} {buffer : Block Byte rsDecodedDataSize}
    (hround : ResponseRoundTrips header responseData buffer) :
    header.dataLen.toNat < cmdResponseDataMaxSize := by
  rcases hround with ⟨packed, hpack, -, hread⟩
  rw [packCmdResponse_eq, if_pos ⟨h.cmdId_lt, h.dataLen_le⟩, Except.ok.injEq,
    Prod.mk.injEq] at hpack
  rcases hpack with ⟨-, rfl⟩
  by_contra hdata
  have hroom : cmdResponseDataMaxSize ≤ responseData.cells.length :=
    Nat.le_of_eq responseData.length_cells.symm
  have hunpack := hread.unpacked header responseData.cells hroom
  rw [unpackCmdResponse_image h _ _ hroom, if_neg hdata] at hunpack
  simp at hunpack

/-- **A response round-trips unless its data fills the whole field.** -/
theorem responseRoundTrips_iff {header : CmdResponseHeader} (h : header.Accepted)
    (responseData : Block Byte cmdResponseDataMaxSize) (buffer : Block Byte rsDecodedDataSize) :
    ResponseRoundTrips header responseData buffer ↔
      header.dataLen.toNat ≠ cmdResponseDataMaxSize := by
  constructor
  · exact fun hround => Nat.ne_of_lt (hround.dataLen_lt h)
  · intro hne
    have hdata := Nat.lt_of_le_of_ne h.dataLen_le hne
    refine ⟨responseImage header responseData, ?_, length_responseImage header responseData,
      readsBack_image h hdata responseData⟩
    rw [packCmdResponse_eq, if_pos ⟨h.cmdId_lt, h.dataLen_le⟩]

/-- A probe of the I2C bus that found three devices. -/
def sampleProbe : CmdResponseHeader := ⟨12, 0x01, 3⟩

theorem accepted_sampleProbe : sampleProbe.Accepted :=
  ⟨by decide, ⟨.success, rfl⟩, by decide⟩

theorem responseRoundTrips_sampleProbe :
    ResponseRoundTrips sampleProbe (Block.fill _ 0x48) (Block.fill _ 0) :=
  (responseRoundTrips_iff accepted_sampleProbe _ _).mpr (by decide)

/-- A probe that fills the field. -/
def fullProbe : CmdResponseHeader := ⟨12, 0x01, 220⟩

theorem not_responseRoundTrips_fullProbe :
    fullProbe.Accepted ∧
      ¬ ResponseRoundTrips fullProbe (Block.fill _ 0x48) (Block.fill _ 0) := by
  have haccepted : fullProbe.Accepted := ⟨by decide, ⟨.success, rfl⟩, by decide⟩
  refine ⟨haccepted, fun hround => ?_⟩
  exact absurd (hround.dataLen_lt haccepted) (by decide)

end ObcGsInterface
