import ObcGsInterface.Model.CommandFraming
import ObcGsInterface.Verification.Command.Codec
import ObcGsInterface.Verification.RecordReader

/-! # The reader of commands -/

namespace ObcGsInterface

open CArray Cursor RecordStream

/-- `unpackCmdMsg` on a new message. -/
def commandReader : RecordReader UnpackResult CmdMsg where
  unpack buffer := unpackCmdMsg buffer 0 CmdMsg.new
  err := UnpackResult.err
  offset := UnpackResult.offset
  record := UnpackResult.cmdMsg

theorem unpackCommandLoop_eq (packed : List Byte) (fuel total : ℕ) (records : List CmdMsg) :
    unpackCommandLoop packed fuel 0 total records =
      commandReader.loop "Could not unpack command. OBC Error Code: " packed fuel total records := by
  induction fuel generalizing total records with
  | zero => rfl
  | succ fuel ih =>
      have hguard : (0 : Offset).toNat < rsDecodedDataSize := by decide
      have hzero (byte : Byte) : byte.toNat = CmdCallbackId.endOfFrame.value ↔ byte = 0 := by
        rw [← BitVec.toNat_inj]
        rfl
      rw [unpackCommandLoop, RecordReader.loop, if_pos hguard]
      simp only [hzero, ih]
      rfl

/-! ## Reading within the buffer -/

/-- The functions of the table read within the buffer. -/
theorem readsWithin_unpackFns {c : CmdCallbackId} {f : UnpackFn} (hf : unpackFns c = some f)
    (offset : Offset) (cmdMsg : CmdMsg) : ReadsWithin fun buffer => f buffer offset cmdMsg := by
  cases c <;> simp only [unpackFns, Option.some.injEq, reduceCtorEq] at hf <;> subst hf
  case rtcSync => exact (readsWithin_unpackUint32 _).bind fun _ => readsWithin_const _
  case downlinkLogsNextPass => exact (readsWithin_unpackUint8 _).bind fun _ => readsWithin_const _
  case setProgrammingSession => exact (readsWithin_unpackUint8 _).bind fun _ => readsWithin_const _
  case downloadData =>
    exact (readsWithin_unpackUint8 _).bind fun _ => (readsWithin_unpackUint16 _).bind fun _ =>
      (readsWithin_unpackUint32 _).bind fun _ => readsWithin_const _
  all_goals exact readsWithin_const _

theorem readsWithin_unpackCmdMsg (offset : Offset) (cmdMsg : CmdMsg) :
    ReadsWithin fun buffer => unpackCmdMsg buffer offset cmdMsg := by
  refine (readsWithin_unpackUint8 offset).bind fun ⟨id, next⟩ => ?_
  by_cases hid : (id &&& 0x7F).toNat > maxCmdId
  · simp only [if_pos hid]
    exact readsWithin_const _
  simp only [if_neg hid]
  cases hentry : (CmdCallbackId.ofValue? (id &&& 0x7F).toNat).bind unpackFns with
  | none => exact readsWithin_const _
  | some unpackFn =>
      rcases Option.bind_eq_some_iff.mp hentry with ⟨c, -, hunpack⟩
      exact (readsWithin_unpackUint32 _).bind fun _ =>
        (readsWithin_unpackFns hunpack _ _).bind fun _ => readsWithin_const _

/-! ## Images -/

theorem uplinkedId_ne_zero {cmdMsg : CmdMsg} (h : cmdMsg.Supported) :
    cmdMsg.uplinkedId ≠ 0 := by
  intro hzero
  have hid := uplinkedId_id h.id_le
  rw [hzero] at hid
  have := h.id_pos
  rw [← hid] at this
  contradiction

/-- The image of a supported command is unpacked to the command, whatever follows it. -/
theorem unpackCmdMsg_image {cmdMsg : CmdMsg} (h : cmdMsg.Supported) (back : List Byte)
    (previous : CmdMsg) :
    ∃ result, unpackCmdMsg (cmdMsg.image ++ back) 0 previous = .ok result ∧
      result.err = .success ∧ result.offset.toNat = cmdMsg.image.length ∧
      result.cmdMsg.SameCommand cmdMsg := by
  have hshort := cmdMsg.length_image_le
  have hheld : HoldsBytes (cmdMsg.image ++ back) 0 cmdMsg.image :=
    (holdsBytes_zero (by omega)).mpr List.take_left
  rcases unpackCmdMsg_of_holds h hheld previous with ⟨result, hrun, herr, hoffset, hsame⟩
  exact ⟨result, hrun, herr, by rw [hoffset, toNat_zero_add (by omega)], hsame⟩

theorem commandReader_recovers {cmdMsg : CmdMsg} (h : cmdMsg.Supported) :
    commandReader.Recovers CmdMsg.image CmdMsg.SameCommand cmdMsg := by
  rcases unpackCmdMsg_image h [] CmdMsg.new with ⟨result, hrun, herr, hoffset, hsame⟩
  rw [List.append_nil] at hrun
  exact ⟨⟨cmdMsg.uplinkedId, _, rfl, uplinkedId_ne_zero h⟩,
    cmdMsg.length_image_le.trans (by decide), result.cmdMsg, ⟨result, hrun, herr, hoffset, rfl⟩,
    hsame⟩

end ObcGsInterface
