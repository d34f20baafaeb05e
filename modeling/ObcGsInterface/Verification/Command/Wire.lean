import ObcGsInterface.Model.Command
import ObcGsInterface.Verification.DataPack

/-! # The wire image of a command

Packing a command stores its wire image through the cursor, and unpacking recognises
exactly the images that stand in the buffer. The two dispatch tables are opened only here. -/

namespace ObcGsInterface

open CArray Cursor BigEndian

/-! ## Commands -/

/-- The data a command carries: the member of the union that belongs to its id. -/
inductive Payload where
  | empty
  | rtcSync (unixTime : BitVec 32)
  | downlinkLogsNextPass (logLevel : BitVec 8)
  | setProgrammingSession (programmingSession : BitVec 32)
  | downloadData (programmingSession : BitVec 32) (length : BitVec 16) (address : BitVec 32)
  deriving DecidableEq, Repr

/-- A programming session travels as a single byte. -/
def Payload.Fits : Payload → Prop
  | .setProgrammingSession programmingSession => programmingSession.toNat ≤ 255
  | .downloadData programmingSession _ _ => programmingSession.toNat ≤ 255
  | _ => True

instance : DecidablePred Payload.Fits
  | .empty => isTrue trivial
  | .rtcSync _ => isTrue trivial
  | .downlinkLogsNextPass _ => isTrue trivial
  | .setProgrammingSession programmingSession =>
      inferInstanceAs (Decidable (programmingSession.toNat ≤ 255))
  | .downloadData programmingSession _ _ =>
      inferInstanceAs (Decidable (programmingSession.toNat ≤ 255))

def Payload.bytes : Payload → List Byte
  | .empty => []
  | .rtcSync unixTime => bytes32 unixTime
  | .downlinkLogsNextPass logLevel => [logLevel]
  | .setProgrammingSession programmingSession => [programmingSession.setWidth 8]
  | .downloadData programmingSession length address =>
      programmingSession.setWidth 8 :: (bytes16 length ++ bytes32 address)

namespace CmdMsg

def payload (cmdMsg : CmdMsg) : Payload :=
  match CmdCallbackId.ofValue? cmdMsg.id.toNat with
  | some .rtcSync => .rtcSync cmdMsg.rtcSync.unixTime
  | some .downlinkLogsNextPass => .downlinkLogsNextPass cmdMsg.downlinkLogsNextPass.logLevel
  | some .setProgrammingSession =>
      .setProgrammingSession cmdMsg.setProgrammingSession.programmingSession
  | some .downloadData =>
      .downloadData cmdMsg.downloadData.programmingSession cmdMsg.downloadData.length
        cmdMsg.downloadData.address
  | _ => .empty

/-- The commands that both tables support, with data that fits its place on the wire. -/
structure Supported (cmdMsg : CmdMsg) : Prop where
  id_pos : 1 ≤ cmdMsg.id.toNat
  id_le : cmdMsg.id.toNat ≤ maxCmdId
  fits : cmdMsg.payload.Fits

/-- Equality of commands up to the members of the union that do not belong to the id, and
up to the pointer into the received buffer. -/
structure SameCommand (a b : CmdMsg) : Prop where
  id_eq : a.id = b.id
  timestamp_eq : a.timestamp = b.timestamp
  isTimeTagged_eq : a.isTimeTagged = b.isTimeTagged
  payload_eq : a.payload = b.payload

/-- The first byte of a command: its id, with the top bit set if it is time tagged. -/
def uplinkedId (cmdMsg : CmdMsg) : Byte :=
  if cmdMsg.isTimeTagged then (cmdMsg.id ||| 0x80).setWidth 8 else cmdMsg.id.setWidth 8

/-- The wire image of a command. -/
def image (cmdMsg : CmdMsg) : List Byte :=
  cmdMsg.uplinkedId :: (bytes32 cmdMsg.timestamp ++ cmdMsg.payload.bytes)

end CmdMsg

theorem Payload.length_bytes_le (payload : Payload) : payload.bytes.length ≤ 7 := by
  cases payload <;> simp [bytes]

theorem CmdMsg.length_image (cmdMsg : CmdMsg) :
    cmdMsg.image.length = 5 + cmdMsg.payload.bytes.length := by
  simp [image]
  omega

theorem CmdMsg.length_image_le (cmdMsg : CmdMsg) : cmdMsg.image.length ≤ 12 := by
  have := cmdMsg.payload.length_bytes_le
  rw [length_image]
  omega

/-! ## The dispatch tables -/

theorem packFns_eq {c : CmdCallbackId} {f : PackFn} (hf : packFns c = some f)
    {cmdMsg : CmdMsg} (hc : CmdCallbackId.ofValue? cmdMsg.id.toNat = some c)
    (buffer : List Byte) (offset : Offset) :
    f buffer offset cmdMsg = putBytes cmdMsg.payload.bytes buffer offset := by
  cases c <;> simp only [packFns, Option.some.injEq, reduceCtorEq] at hf <;> subst hf <;>
    simp only [CmdMsg.payload, hc, Payload.bytes]
  case rtcSync => exact packUint32_eq _ _ _
  case downloadData =>
    rw [← List.singleton_append, putBytes_append, packDownloadDataCmdData, packUint8_eq]
    congr 1
    funext ⟨buffer, offset⟩
    simp only
    rw [putBytes_append, packUint16_eq]
    congr 1
    funext ⟨buffer, offset⟩
    exact packUint32_eq _ _ _
  all_goals rfl

/-- An unpacking function keeps the header of the message it fills in. -/
structure SameHeader (a b : CmdMsg) : Prop where
  id_eq : a.id = b.id
  timestamp_eq : a.timestamp = b.timestamp
  isTimeTagged_eq : a.isTimeTagged = b.isTimeTagged

/-- What an unpacking function of the table does: it succeeds exactly on the images of the
data that belongs to the id, and reads all of it. -/
theorem unpackFns_eq_ok {c : CmdCallbackId} {f : UnpackFn} (hf : unpackFns c = some f)
    {cmdMsg : CmdMsg} (hc : CmdCallbackId.ofValue? cmdMsg.id.toNat = some c)
    {buffer : List Byte} {offset offset' : Offset} {result : CmdMsg}
    (h : f buffer offset cmdMsg = .ok (offset', result)) :
    SameHeader result cmdMsg ∧ result.payload.Fits ∧
      HoldsBytes buffer offset result.payload.bytes ∧
      offset' = offset + BitVec.ofNat 32 result.payload.bytes.length := by
  have hsession (s : Byte) : (s.setWidth 32).toNat ≤ 255 := by
    have := s.isLt
    simp
    omega
  have hround (s : Byte) : (s.setWidth 32).setWidth 8 = s := by simp
  cases c <;> simp only [unpackFns, Option.some.injEq, reduceCtorEq] at hf <;> subst hf
  case rtcSync =>
    obtain ⟨⟨unixTime, o⟩, hu, hr⟩ := bind_eq_ok.mp h
    obtain ⟨hheld, rfl⟩ := unpackUint32_eq_ok.mp hu
    simp only [pure_eq_ok, Except.ok.injEq, Prod.mk.injEq] at hr
    obtain ⟨rfl, rfl⟩ := hr
    refine ⟨⟨rfl, rfl, rfl⟩, ?_⟩
    simp only [CmdMsg.payload, hc]
    exact ⟨trivial, hheld, rfl⟩
  case downlinkLogsNextPass =>
    obtain ⟨⟨logLevel, o⟩, hu, hr⟩ := bind_eq_ok.mp h
    obtain ⟨hheld, rfl⟩ := unpackUint8_eq_ok.mp hu
    simp only [pure_eq_ok, Except.ok.injEq, Prod.mk.injEq] at hr
    obtain ⟨rfl, rfl⟩ := hr
    refine ⟨⟨rfl, rfl, rfl⟩, ?_⟩
    simp only [CmdMsg.payload, hc]
    exact ⟨trivial, hheld, rfl⟩
  case setProgrammingSession =>
    obtain ⟨⟨session, o⟩, hu, hr⟩ := bind_eq_ok.mp h
    obtain ⟨hheld, rfl⟩ := unpackUint8_eq_ok.mp hu
    simp only [pure_eq_ok, Except.ok.injEq, Prod.mk.injEq] at hr
    obtain ⟨rfl, rfl⟩ := hr
    refine ⟨⟨rfl, rfl, rfl⟩, ?_⟩
    simp only [CmdMsg.payload, hc, Payload.bytes, hround]
    exact ⟨hsession session, hheld, rfl⟩
  case downloadData =>
    obtain ⟨⟨session, o1⟩, hu, h⟩ := bind_eq_ok.mp h
    obtain ⟨hsess, rfl⟩ := unpackUint8_eq_ok.mp hu
    obtain ⟨⟨length, o2⟩, hu, h⟩ := bind_eq_ok.mp h
    obtain ⟨hlength, rfl⟩ := unpackUint16_eq_ok.mp hu
    obtain ⟨⟨address, o3⟩, hu, hr⟩ := bind_eq_ok.mp h
    obtain ⟨haddress, rfl⟩ := unpackUint32_eq_ok.mp hu
    simp only [pure_eq_ok, Except.ok.injEq, Prod.mk.injEq] at hr
    obtain ⟨rfl, rfl⟩ := hr
    refine ⟨⟨rfl, rfl, rfl⟩, ?_⟩
    have hend : offset + 1 + 2 + 4 = offset + BitVec.ofNat 32 7 := by
      rw [BitVec.add_assoc, BitVec.add_assoc]
      rfl
    simp only [holds_cons, holds_nil, and_true] at hsess
    simp only [CmdMsg.payload, hc, Payload.bytes, hround, holds_cons, holds_append,
      length_bytes16, iterate_offset]
    exact ⟨hsession session, ⟨hsess, hlength, haddress⟩, hend⟩
  all_goals
    simp only [unpackExecObcResetCmdData, unpackMicroSdFormat, unpackPingCmdData,
      unpackDownlinkTelemCmdData, unpackUplinkDisconnectCmdData, unpackEraseAppCmdData,
      unpackVerifyCrcCmdData, unpackI2CProbeCmdData, unpackNothing, Except.ok.injEq,
      Prod.mk.injEq] at h
    obtain ⟨rfl, rfl⟩ := h
    refine ⟨⟨rfl, rfl, rfl⟩, ?_⟩
    simp [CmdMsg.payload, hc, Payload.Fits, Payload.bytes]

/-- Data that fits and stands in the buffer is unpacked. -/
theorem unpackFns_of_holds {c : CmdCallbackId} {f : UnpackFn} (hf : unpackFns c = some f)
    {cmdMsg m : CmdMsg} (hc : CmdCallbackId.ofValue? cmdMsg.id.toNat = some c)
    (hid : m.id = cmdMsg.id) (hfits : m.payload.Fits) {buffer : List Byte} {offset : Offset}
    (hheld : HoldsBytes buffer offset m.payload.bytes) :
    ∃ offset' result, f buffer offset cmdMsg = .ok (offset', result) ∧
      result.payload = m.payload := by
  have hsession {s : BitVec 32} (hs : s.toNat ≤ 255) : (s.setWidth 8).setWidth 32 = s := by
    apply BitVec.eq_of_toNat_eq
    simp
    omega
  have hcm : CmdCallbackId.ofValue? m.id.toNat = some c := by rw [hid, hc]
  cases c <;> simp only [unpackFns, Option.some.injEq, reduceCtorEq] at hf <;> subst hf <;>
    simp only [CmdMsg.payload, hcm, Payload.bytes, Payload.Fits] at hheld hfits ⊢
  case rtcSync =>
    refine ⟨offset + 4, { cmdMsg with rtcSync := ⟨m.rtcSync.unixTime⟩ }, ?_, by simp only [hc]⟩
    rw [unpackRtcSyncCmdData, unpackUint32_eq_ok.mpr ⟨hheld, rfl⟩]
    rfl
  case downlinkLogsNextPass =>
    refine ⟨offset + 1,
      { cmdMsg with downlinkLogsNextPass := ⟨m.downlinkLogsNextPass.logLevel⟩ }, ?_,
      by simp only [hc]⟩
    rw [unpackDownlinkLogsNextPassCmdData, unpackUint8_eq_ok.mpr ⟨hheld, rfl⟩]
    rfl
  case setProgrammingSession =>
    refine ⟨offset + 1,
      { cmdMsg with setProgrammingSession := ⟨m.setProgrammingSession.programmingSession⟩ }, ?_,
      by simp only [hc]⟩
    rw [unpackSetProgrammingSessionCmdData, unpackUint8_eq_ok.mpr ⟨hheld, rfl⟩, ok_bind]
    simp only [hsession hfits, pure_eq_ok]
  case downloadData =>
    simp only [holds_cons, holds_append, length_bytes16, iterate_offset] at hheld
    obtain ⟨hsess, hlength, haddress⟩ := hheld
    change HoldsBytes buffer (offset + 1 + 2) (bytes32 m.downloadData.address) at haddress
    refine ⟨offset + 1 + 2 + 4, { cmdMsg with downloadData :=
      ⟨m.downloadData.programmingSession, m.downloadData.length, m.downloadData.address,
        some (offset + 1 + 2 + 4)⟩ }, ?_, by simp only [hc]⟩
    rw [unpackDownloadDataCmdData, unpackUint8_eq_ok.mpr ⟨holds_cons.mpr ⟨hsess, holds_nil⟩, rfl⟩,
      ok_bind]
    simp only
    rw [unpackUint16_eq_ok.mpr ⟨hlength, rfl⟩, ok_bind]
    simp only
    rw [unpackUint32_eq_ok.mpr ⟨haddress, rfl⟩, ok_bind]
    simp only [hsession hfits, pure_eq_ok]
  all_goals exact ⟨offset, cmdMsg, rfl, by simp only [hc]⟩

end ObcGsInterface
