import ObcGsInterface.Verification.Command.Wire
import Mathlib.Tactic.IntervalCases

/-! # The command codec

Packing and unpacking are inverse to each other, for every offset that a `uint32_t` can
hold. The header byte and the 8-bit count of the packer are treated first. -/

namespace ObcGsInterface

open CArray Cursor BigEndian

/-! ## The header byte -/

/-- The id and the tag are read back from the header byte that is made of them. -/
theorem uplinkedId_reads {cmdMsg : CmdMsg} (h : cmdMsg.id.toNat ≤ maxCmdId) :
    (cmdMsg.uplinkedId &&& 0x7F).setWidth 32 = cmdMsg.id ∧
      (cmdMsg.uplinkedId &&& 0x80 != 0) = cmdMsg.isTimeTagged := by
  have hsmall : cmdMsg.id.toNat ≤ 12 := h
  have hid : cmdMsg.id = BitVec.ofNat 32 cmdMsg.id.toNat := by simp
  unfold CmdMsg.uplinkedId
  generalize cmdMsg.id.toNat = n at hsmall hid
  rw [hid]
  interval_cases n <;> cases cmdMsg.isTimeTagged <;> exact ⟨rfl, rfl⟩

theorem uplinkedId_id {cmdMsg : CmdMsg} (h : cmdMsg.id.toNat ≤ maxCmdId) :
    (cmdMsg.uplinkedId &&& 0x7F).setWidth 32 = cmdMsg.id := (uplinkedId_reads h).1

theorem uplinkedId_isTimeTagged {cmdMsg : CmdMsg} (h : cmdMsg.id.toNat ≤ maxCmdId) :
    (cmdMsg.uplinkedId &&& 0x80 != 0) = cmdMsg.isTimeTagged := (uplinkedId_reads h).2

/-- A header byte is recovered from the id and the tag read from it. -/
theorem uplinkedId_of_byte {cmdMsg : CmdMsg} {b : Byte}
    (hid : cmdMsg.id = (b &&& 0x7F).setWidth 32)
    (htag : cmdMsg.isTimeTagged = (b &&& 0x80 != 0)) : cmdMsg.uplinkedId = b := by
  rw [CmdMsg.uplinkedId, hid, htag]
  clear hid htag
  revert b
  decide

/-- The ids from 1 to 12 are those with an entry in both tables. -/
theorem supported_entry {id : ℕ} (hpos : 1 ≤ id) (hle : id ≤ maxCmdId) :
    ∃ c packFn unpackFn, CmdCallbackId.ofValue? id = some c ∧ packFns c = some packFn ∧
      unpackFns c = some unpackFn := by
  have hle : id ≤ 12 := hle
  interval_cases id <;> exact ⟨_, _, _, rfl, rfl, rfl⟩

theorem unpackFns_ne_zero {id : ℕ} {f : UnpackFn}
    (hf : (CmdCallbackId.ofValue? id).bind unpackFns = some f) : 1 ≤ id := by
  rcases Nat.eq_zero_or_pos id with rfl | hpos
  · simp [CmdCallbackId.ofValue?, unpackFns] at hf
  · exact hpos

/-! ## Packing -/

/-- The count `(uint8_t)(*offset - oldOffset)` is right although `oldOffset` only keeps
the low byte of the offset. -/
theorem numPacked_eq (offset : Offset) (n : ℕ) :
    ((offset + BitVec.ofNat 32 n) - ((offset.setWidth 8 : Byte).setWidth 32)).setWidth 8 =
      BitVec.ofNat 8 n := by
  apply BitVec.eq_of_toNat_eq
  simp only [BitVec.toNat_setWidth, BitVec.toNat_sub, BitVec.toNat_add, BitVec.toNat_ofNat]
  omega

/-- Packing a supported command stores its image. -/
theorem packCmdMsg_eq {cmdMsg : CmdMsg} (h : cmdMsg.Supported) (buffer : List Byte)
    (offset : Offset) (numPacked : Byte) :
    packCmdMsg buffer offset cmdMsg numPacked =
      putBytes cmdMsg.image buffer offset >>= fun r =>
        .ok ⟨.success, r.1, r.2, BitVec.ofNat 8 cmdMsg.image.length⟩ := by
  obtain ⟨c, packFn, -, hc, hpack, -⟩ := supported_entry h.id_pos h.id_le
  have hentry : (CmdCallbackId.ofValue? cmdMsg.id.toNat).bind packFns = some packFn := by
    rw [hc, Option.bind_some, hpack]
  have hsteps : packCmdMsg buffer offset cmdMsg numPacked =
      putBytes cmdMsg.image buffer offset >>= fun r =>
        .ok ⟨.success, r.1, r.2,
          (r.2 - ((offset.setWidth 8 : Byte).setWidth 32)).setWidth 8⟩ := by
    rw [packCmdMsg, if_neg (Nat.not_lt.mpr h.id_le), hentry, CmdMsg.image,
      ← List.singleton_append, putBytes_append, bind_assoc]
    simp only [putBytes_append, bind_assoc, packUint8_eq, packUint32_eq, packFns_eq hpack hc]
    rfl
  rw [hsteps]
  cases hput : putBytes cmdMsg.image buffer offset with
  | error fault => rfl
  | ok r =>
      have hcursor : r.2 = offset + BitVec.ofNat 32 cmdMsg.image.length := by
        rw [putAll_cursor hput, iterate_offset]
      simp only [ok_bind, hcursor, numPacked_eq]

/-- What a successful packing leaves behind: the image of the command at the offset, and
nothing else changed. -/
structure PackedAt (image buffer : List Byte) (offset : Offset) (packed : PackResult) :
    Prop where
  err_eq : packed.err = .success
  offset_eq : packed.offset = offset + BitVec.ofNat 32 image.length
  numPacked_eq : packed.numPacked.toNat = image.length
  holds : HoldsBytes packed.buffer offset image
  length_eq : packed.buffer.length = buffer.length
  unchanged : ∀ k, (∀ i < image.length, k ≠ (offset + BitVec.ofNat 32 i).toNat) →
    packed.buffer[k]? = buffer[k]?

/-- A supported command is packed into every buffer with room for its image. -/
theorem packCmdMsg_of_room {cmdMsg : CmdMsg} (h : cmdMsg.Supported) {buffer : List Byte}
    {offset : Offset} (hroom : offset.toNat + cmdMsg.image.length ≤ buffer.length)
    (numPacked : Byte) :
    ∃ packed, packCmdMsg buffer offset cmdMsg numPacked = .ok packed ∧
      PackedAt cmdMsg.image buffer offset packed := by
  have hshort := cmdMsg.length_image_le
  have hplaces : Room BitVec.toNat (· + 1) buffer offset cmdMsg.image.length := by
    intro i hi
    have := toNat_offset_add_le offset i
    rw [iterate_offset]
    omega
  obtain ⟨result, hput⟩ := putAll_of_room cmdMsg.image buffer offset hplaces
  obtain ⟨hlength, hframe⟩ := putAll_frame hput
  have hpack := packCmdMsg_eq h buffer offset numPacked
  rw [putBytes, hput, ok_bind] at hpack
  refine ⟨_, hpack, ?_⟩
  exact
    { err_eq := rfl
      offset_eq := iterate_offset _ _
      numPacked_eq := by
        rw [BitVec.toNat_ofNat, Nat.mod_eq_of_lt (by omega)]
      holds := putAll_holds (offset_distinct offset _ (by omega)) hput
      length_eq := hlength
      unchanged := by
        intro k hk
        refine hframe k fun i hi => ?_
        rw [iterate_offset]
        exact hk i hi }

/-! ## Unpacking -/

/-- The three parts of an image in a buffer. -/
theorem holds_image {cmdMsg : CmdMsg} {buffer : List Byte} {offset : Offset} :
    HoldsBytes buffer offset cmdMsg.image ↔
      HoldsBytes buffer offset [cmdMsg.uplinkedId] ∧
        HoldsBytes buffer (offset + 1) (bytes32 cmdMsg.timestamp) ∧
        HoldsBytes buffer (offset + 1 + 4) cmdMsg.payload.bytes := by
  have hnext : offset + 1 + BitVec.ofNat 32 4 = offset + 1 + 4 := rfl
  simp only [CmdMsg.image, holds_cons, holds_append, length_bytes32, iterate_offset, holds_nil,
    and_true, hnext]

theorem offset_image (cmdMsg : CmdMsg) (offset : Offset) :
    offset + 1 + 4 + BitVec.ofNat 32 cmdMsg.payload.bytes.length =
      offset + BitVec.ofNat 32 cmdMsg.image.length := by
  rw [cmdMsg.length_image, BitVec.ofNat_add, BitVec.add_assoc, BitVec.add_assoc,
    ← BitVec.add_assoc 1]
  rfl

/-- A command that stands in the buffer is unpacked, whatever message was there before. -/
theorem unpackCmdMsg_of_holds {cmdMsg : CmdMsg} (h : cmdMsg.Supported) {buffer : List Byte}
    {offset : Offset} (hheld : HoldsBytes buffer offset cmdMsg.image) (previous : CmdMsg) :
    ∃ result, unpackCmdMsg buffer offset previous = .ok result ∧ result.err = .success ∧
      result.offset = offset + BitVec.ofNat 32 cmdMsg.image.length ∧
      result.cmdMsg.SameCommand cmdMsg := by
  obtain ⟨c, -, unpackFn, hc, -, hunpack⟩ := supported_entry h.id_pos h.id_le
  have hid := uplinkedId_id h.id_le
  have hnat : (cmdMsg.uplinkedId &&& 0x7F).toNat = cmdMsg.id.toNat := by
    rw [← hid, BitVec.toNat_setWidth, Nat.mod_eq_of_lt (by omega)]
  have hentry : (CmdCallbackId.ofValue? cmdMsg.id.toNat).bind unpackFns = some unpackFn := by
    rw [hc, Option.bind_some, hunpack]
  obtain ⟨hhead, htimestamp, hpayload⟩ := holds_image.mp hheld
  let header : CmdMsg :=
    { previous with id := cmdMsg.id, timestamp := cmdMsg.timestamp,
                    isTimeTagged := cmdMsg.isTimeTagged }
  have hcheader : CmdCallbackId.ofValue? header.id.toNat = some c := hc
  obtain ⟨offset', result, hrun, hsame⟩ :=
    unpackFns_of_holds hunpack hcheader (m := cmdMsg) rfl h.fits hpayload
  obtain ⟨hheader, -, -, hoffset⟩ := unpackFns_eq_ok hunpack hcheader hrun
  refine ⟨⟨.success, offset', result⟩, ?_, rfl, ?_, ?_⟩
  · rw [unpackCmdMsg, unpackUint8_eq_ok.mpr ⟨hhead, rfl⟩, ok_bind]
    simp only [hnat, if_neg (Nat.not_lt.mpr h.id_le), hentry,
      unpackUint32_eq_ok.mpr ⟨htimestamp, rfl⟩, ok_bind, hid, uplinkedId_isTimeTagged h.id_le]
    rw [hrun]
    rfl
  · rw [← offset_image, ← hsame]
    exact hoffset
  · exact ⟨hheader.id_eq, hheader.timestamp_eq, hheader.isTimeTagged_eq, hsame⟩

/-- What is unpacked with success is a supported command that stands in the buffer. -/
theorem unpackCmdMsg_success {buffer : List Byte} {offset : Offset} {previous : CmdMsg}
    {result : UnpackResult} (hrun : unpackCmdMsg buffer offset previous = .ok result)
    (hsuccess : result.err = .success) :
    result.cmdMsg.Supported ∧ HoldsBytes buffer offset result.cmdMsg.image ∧
      result.offset = offset + BitVec.ofNat 32 result.cmdMsg.image.length := by
  obtain ⟨⟨b, o⟩, hu, hrun⟩ := bind_eq_ok.mp hrun
  obtain ⟨hhead, rfl⟩ := unpackUint8_eq_ok.mp hu
  simp only at hrun
  split at hrun
  · simp only [pure_eq_ok, Except.ok.injEq] at hrun
    rw [← hrun] at hsuccess
    contradiction
  · rename_i hid
    cases hentry : (CmdCallbackId.ofValue? (b &&& 0x7F).toNat).bind unpackFns with
    | none =>
        simp only [hentry, pure_eq_ok, Except.ok.injEq] at hrun
        rw [← hrun] at hsuccess
        contradiction
    | some unpackFn =>
        obtain ⟨c, hc, hunpack⟩ := Option.bind_eq_some_iff.mp hentry
        simp only [hentry] at hrun
        obtain ⟨⟨timestamp, o⟩, hu, hrun⟩ := bind_eq_ok.mp hrun
        obtain ⟨htimestamp, rfl⟩ := unpackUint32_eq_ok.mp hu
        obtain ⟨⟨offset', unpacked⟩, hdata, hrun⟩ := bind_eq_ok.mp hrun
        simp only [pure_eq_ok, Except.ok.injEq] at hrun
        subst hrun
        have hnat : ((b &&& 0x7F).setWidth 32).toNat = (b &&& 0x7F).toNat := by
          rw [BitVec.toNat_setWidth, Nat.mod_eq_of_lt (by omega)]
        obtain ⟨hheader, hfits, hpayload, hoffset⟩ :=
          unpackFns_eq_ok hunpack (by simpa only [hnat] using hc) hdata
        have hbyte : unpacked.uplinkedId = b :=
          uplinkedId_of_byte hheader.id_eq hheader.isTimeTagged_eq
        have hid_eq : unpacked.id.toNat = (b &&& 0x7F).toNat := by
          rw [hheader.id_eq]
          exact hnat
        refine ⟨⟨?_, ?_, hfits⟩, holds_image.mpr ⟨?_, ?_, hpayload⟩, ?_⟩
        · rw [hid_eq]
          exact unpackFns_ne_zero hentry
        · rw [hid_eq]
          exact Nat.not_lt.mp hid
        · rw [hbyte]
          exact hhead
        · rw [hheader.timestamp_eq]
          exact htimestamp
        · rw [← offset_image]
          exact hoffset

/-! ## The codec -/

/-- **Packing and unpacking commands are inverse.** Unpacking what was packed at any offset
gives the command back and moves on as far as packing did; and packing what was unpacked
anywhere writes the bytes that were read. -/
theorem command_codec :
    (∀ (cmdMsg previous : CmdMsg) (buffer : List Byte) (offset : Offset) (numPacked : Byte),
      cmdMsg.Supported → offset.toNat + cmdMsg.image.length ≤ buffer.length →
      ∃ packed result,
        packCmdMsg buffer offset cmdMsg numPacked = .ok packed ∧
        PackedAt cmdMsg.image buffer offset packed ∧
        unpackCmdMsg packed.buffer offset previous = .ok result ∧
        result.err = .success ∧
        result.cmdMsg.SameCommand cmdMsg ∧
        result.offset = packed.offset) ∧
    (∀ (previous : CmdMsg) (buffer : List Byte) (offset : Offset) (result : UnpackResult),
      unpackCmdMsg buffer offset previous = .ok result → result.err = .success →
      ∃ consumed : List Byte,
        consumed.length ≤ 12 ∧
        HoldsBytes buffer offset consumed ∧
        result.offset = offset + BitVec.ofNat 32 consumed.length ∧
        ∀ (target : List Byte) (position : Offset) (numPacked : Byte),
          position.toNat + consumed.length ≤ target.length →
          ∃ packed,
            packCmdMsg target position result.cmdMsg numPacked = .ok packed ∧
            PackedAt consumed target position packed) := by
  constructor
  · intro cmdMsg previous buffer offset numPacked hsupported hroom
    obtain ⟨packed, hpack, hspec⟩ := packCmdMsg_of_room hsupported hroom numPacked
    obtain ⟨result, hunpack, herr, hoffset, hsame⟩ :=
      unpackCmdMsg_of_holds hsupported hspec.holds previous
    exact ⟨packed, result, hpack, hspec, hunpack, herr, hsame, hoffset.trans hspec.offset_eq.symm⟩
  · intro previous buffer offset result hrun hsuccess
    obtain ⟨hsupported, hheld, hoffset⟩ := unpackCmdMsg_success hrun hsuccess
    exact ⟨result.cmdMsg.image, result.cmdMsg.length_image_le, hheld, hoffset,
      fun target position numPacked hroom => packCmdMsg_of_room hsupported hroom numPacked⟩

/-- A download command with the largest programming session and a time tag. -/
def sampleDownload : CmdMsg where
  rtcSync := ⟨0⟩
  downlinkLogsNextPass := ⟨0⟩
  downloadData := ⟨255, 208, 0x00180000, none⟩
  setProgrammingSession := ⟨0⟩
  timestamp := 0x5F3759DF
  isTimeTagged := true
  id := 10

theorem command_codec_sampleDownload :
    (∃ packed result,
      packCmdMsg (List.replicate 320 0) 300 sampleDownload 0 = .ok packed ∧
      PackedAt sampleDownload.image (List.replicate 320 0) 300 packed ∧
      unpackCmdMsg packed.buffer 300 sampleDownload = .ok result ∧
      result.err = .success ∧
      result.cmdMsg.SameCommand sampleDownload ∧
      result.offset = packed.offset) ∧
    (∃ consumed : List Byte,
      consumed.length ≤ 12 ∧
      HoldsBytes (0 :: sampleDownload.image) 1 consumed ∧
      (13 : Offset) = 1 + BitVec.ofNat 32 consumed.length ∧
      ∀ (target : List Byte) (position : Offset) (numPacked : Byte),
        position.toNat + consumed.length ≤ target.length →
        ∃ packed,
          packCmdMsg target position
            { sampleDownload with downloadData := ⟨255, 208, 0x00180000, some 13⟩ } numPacked =
              .ok packed ∧
          PackedAt consumed target position packed) := by
  refine ⟨?_, ?_⟩
  · exact command_codec.1 sampleDownload sampleDownload (List.replicate 320 0) 300 0
      ⟨by decide, by decide, by decide⟩ (by rw [List.length_replicate]; decide)
  · exact command_codec.2 sampleDownload (0 :: sampleDownload.image) 1
      ⟨.success, 13,
        { sampleDownload with downloadData := ⟨255, 208, 0x00180000, some 13⟩ }⟩ rfl rfl

end ObcGsInterface
