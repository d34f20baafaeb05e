import ObcGsInterface.Model.DataPack

/-! # Command messages

`obc_gs_command_id.h`, `obc_gs_command_data.h`, `obc_gs_command_pack.c` and
`obc_gs_command_unpack.c`. -/

namespace ObcGsInterface

open CArray

/-- The enumerators of `cmd_callback_id_t`. -/
inductive CmdCallbackId where
  | endOfFrame
  | execObcReset
  | rtcSync
  | downlinkLogsNextPass
  | microSdFormat
  | ping
  | downlinkTelem
  | uplinkDisc
  | setProgrammingSession
  | eraseApp
  | downloadData
  | verifyCrc
  | i2cProbe
  deriving DecidableEq, Repr

namespace CmdCallbackId

def value : CmdCallbackId → ℕ
  | endOfFrame => 0
  | execObcReset => 1
  | rtcSync => 2
  | downlinkLogsNextPass => 3
  | microSdFormat => 4
  | ping => 5
  | downlinkTelem => 6
  | uplinkDisc => 7
  | setProgrammingSession => 8
  | eraseApp => 9
  | downloadData => 10
  | verifyCrc => 11
  | i2cProbe => 12

def ofValue? : ℕ → Option CmdCallbackId
  | 0 => some endOfFrame
  | 1 => some execObcReset
  | 2 => some rtcSync
  | 3 => some downlinkLogsNextPass
  | 4 => some microSdFormat
  | 5 => some ping
  | 6 => some downlinkTelem
  | 7 => some uplinkDisc
  | 8 => some setProgrammingSession
  | 9 => some eraseApp
  | 10 => some downloadData
  | 11 => some verifyCrc
  | 12 => some i2cProbe
  | _ => none

end CmdCallbackId

/-! ## Data structures -/

/-- `rtc_sync_cmd_data_t`. -/
structure RtcSyncCmdData where
  unixTime : BitVec 32
  deriving DecidableEq, Repr

/-- `downlink_logs_next_pass_cmd_data_t`. -/
structure DownlinkLogsNextPassCmdData where
  logLevel : BitVec 8
  deriving DecidableEq, Repr

/-- `download_data_cmd_data_t`. The programming session is an enum, held in 32 bits; the
pointer into the received buffer is kept as the offset it points to. -/
structure DownloadDataCmdData where
  programmingSession : BitVec 32
  length : BitVec 16
  address : BitVec 32
  data : Option Offset
  deriving DecidableEq, Repr

/-- `set_programming_session_cmd_data_t`. -/
structure SetProgrammingSessionCmdData where
  programmingSession : BitVec 32
  deriving DecidableEq, Repr

/-- `cmd_msg_t`. The first four fields are the members of its union: every function reads
and writes only the member that belongs to the id. -/
structure CmdMsg where
  rtcSync : RtcSyncCmdData
  downlinkLogsNextPass : DownlinkLogsNextPassCmdData
  downloadData : DownloadDataCmdData
  setProgrammingSession : SetProgrammingSessionCmdData
  timestamp : BitVec 32
  isTimeTagged : Bool
  id : BitVec 32
  deriving DecidableEq, Repr

/-! ## Packing -/

abbrev PackFn := List Byte → Offset → CmdMsg → Except Fault (List Byte × Offset)

/-- The packing function of the commands without data. -/
def packNothing : PackFn := fun buffer offset _ => .ok (buffer, offset)

def packExecObcResetCmdData : PackFn := packNothing

def packRtcSyncCmdData : PackFn := fun buffer offset cmdMsg =>
  packUint32 cmdMsg.rtcSync.unixTime buffer offset

def packDownlinkLogsNextPassCmdData : PackFn := fun buffer offset cmdMsg =>
  packUint8 cmdMsg.downlinkLogsNextPass.logLevel buffer offset

def packMicroSdFormat : PackFn := packNothing

def packPingCmdData : PackFn := packNothing

def packDownlinkTelemCmdData : PackFn := packNothing

def packUplinkDisconnectCmdData : PackFn := packNothing

def packSetProgrammingSessionCmdData : PackFn := fun buffer offset cmdMsg =>
  packUint8 (cmdMsg.setProgrammingSession.programmingSession.setWidth 8) buffer offset

def packDownloadDataCmdData : PackFn := fun buffer offset cmdMsg => do
  let (buffer, offset) ←
    packUint8 (cmdMsg.downloadData.programmingSession.setWidth 8) buffer offset
  let (buffer, offset) ← packUint16 cmdMsg.downloadData.length buffer offset
  packUint32 cmdMsg.downloadData.address buffer offset

def packEraseAppCmdData : PackFn := packNothing

def packVerifyCrcCmdData : PackFn := packNothing

def packI2CProbeCmdData : PackFn := packNothing

/-- The table `packFns`; entry 0 is `NULL`. -/
def packFns : CmdCallbackId → Option PackFn
  | .endOfFrame => none
  | .execObcReset => some packExecObcResetCmdData
  | .rtcSync => some packRtcSyncCmdData
  | .downlinkLogsNextPass => some packDownlinkLogsNextPassCmdData
  | .microSdFormat => some packMicroSdFormat
  | .ping => some packPingCmdData
  | .downlinkTelem => some packDownlinkTelemCmdData
  | .uplinkDisc => some packUplinkDisconnectCmdData
  | .setProgrammingSession => some packSetProgrammingSessionCmdData
  | .downloadData => some packDownloadDataCmdData
  | .eraseApp => some packEraseAppCmdData
  | .verifyCrc => some packVerifyCrcCmdData
  | .i2cProbe => some packI2CProbeCmdData

/-- `MAX_CMD_ID`: the last index of either function table. -/
def maxCmdId : ℕ := CmdCallbackId.i2cProbe.value

/-- What `packCmdMsg` returns and leaves in its output arguments. -/
structure PackResult where
  err : ErrorCode
  buffer : List Byte
  offset : Offset
  numPacked : Byte
  deriving DecidableEq, Repr

/-- `packCmdMsg`; `numPacked` is the value its output argument has before the call. -/
def packCmdMsg (buffer : List Byte) (offset : Offset) (cmdMsg : CmdMsg) (numPacked : Byte) :
    Except Fault PackResult :=
  if cmdMsg.id.toNat > maxCmdId then
    .ok ⟨.unsupportedCmd, buffer, offset, numPacked⟩
  else
    match (CmdCallbackId.ofValue? cmdMsg.id.toNat).bind packFns with
    | none => .ok ⟨.unsupportedCmd, buffer, offset, numPacked⟩
    | some packFn => do
        let oldOffset : Byte := offset.setWidth 8
        let uplinkedId : Byte :=
          if cmdMsg.isTimeTagged then (cmdMsg.id ||| 0x80).setWidth 8 else cmdMsg.id.setWidth 8
        let (buffer, offset) ← packUint8 uplinkedId buffer offset
        let (buffer, offset) ← packUint32 cmdMsg.timestamp buffer offset
        let (buffer, offset) ← packFn buffer offset cmdMsg
        return ⟨.success, buffer, offset, (offset - oldOffset.setWidth 32).setWidth 8⟩

/-! ## Unpacking -/

abbrev UnpackFn := List Byte → Offset → CmdMsg → Except Fault (Offset × CmdMsg)

/-- The unpacking function of the commands without data. -/
def unpackNothing : UnpackFn := fun _ offset cmdMsg => .ok (offset, cmdMsg)

def unpackExecObcResetCmdData : UnpackFn := unpackNothing

def unpackRtcSyncCmdData : UnpackFn := fun buffer offset cmdMsg => do
  let (unixTime, offset) ← unpackUint32 buffer offset
  return (offset, { cmdMsg with rtcSync := ⟨unixTime⟩ })

def unpackDownlinkLogsNextPassCmdData : UnpackFn := fun buffer offset cmdMsg => do
  let (logLevel, offset) ← unpackUint8 buffer offset
  return (offset, { cmdMsg with downlinkLogsNextPass := ⟨logLevel⟩ })

def unpackMicroSdFormat : UnpackFn := unpackNothing

def unpackPingCmdData : UnpackFn := unpackNothing

def unpackDownlinkTelemCmdData : UnpackFn := unpackNothing

def unpackUplinkDisconnectCmdData : UnpackFn := unpackNothing

def unpackSetProgrammingSessionCmdData : UnpackFn := fun buffer offset cmdMsg => do
  let (programmingSession, offset) ← unpackUint8 buffer offset
  return (offset, { cmdMsg with setProgrammingSession := ⟨programmingSession.setWidth 32⟩ })

def unpackDownloadDataCmdData : UnpackFn := fun buffer offset cmdMsg => do
  let (programmingSession, offset) ← unpackUint8 buffer offset
  let (length, offset) ← unpackUint16 buffer offset
  let (address, offset) ← unpackUint32 buffer offset
  return (offset, { cmdMsg with
    downloadData := ⟨programmingSession.setWidth 32, length, address, some offset⟩ })

def unpackEraseAppCmdData : UnpackFn := unpackNothing

def unpackVerifyCrcCmdData : UnpackFn := unpackNothing

def unpackI2CProbeCmdData : UnpackFn := unpackNothing

/-- The table `unpackFns`; entry 0 is `NULL`. -/
def unpackFns : CmdCallbackId → Option UnpackFn
  | .endOfFrame => none
  | .execObcReset => some unpackExecObcResetCmdData
  | .rtcSync => some unpackRtcSyncCmdData
  | .downlinkLogsNextPass => some unpackDownlinkLogsNextPassCmdData
  | .microSdFormat => some unpackMicroSdFormat
  | .ping => some unpackPingCmdData
  | .downlinkTelem => some unpackDownlinkTelemCmdData
  | .uplinkDisc => some unpackUplinkDisconnectCmdData
  | .setProgrammingSession => some unpackSetProgrammingSessionCmdData
  | .downloadData => some unpackDownloadDataCmdData
  | .eraseApp => some unpackEraseAppCmdData
  | .verifyCrc => some unpackVerifyCrcCmdData
  | .i2cProbe => some unpackI2CProbeCmdData

/-- What `unpackCmdMsg` returns and leaves in its output arguments. -/
structure UnpackResult where
  err : ErrorCode
  offset : Offset
  cmdMsg : CmdMsg
  deriving DecidableEq, Repr

/-- `unpackCmdMsg`; `cmdMsg` is the message its output argument holds before the call. -/
def unpackCmdMsg (buffer : List Byte) (offset : Offset) (cmdMsg : CmdMsg) :
    Except Fault UnpackResult := do
  let (id, offset) ← unpackUint8 buffer offset
  let isTimeTagged : Bool := id &&& 0x80 != 0
  let id := id &&& 0x7F
  if id.toNat > maxCmdId then
    return ⟨.unsupportedCmd, offset, cmdMsg⟩
  match (CmdCallbackId.ofValue? id.toNat).bind unpackFns with
  | none => return ⟨.unsupportedCmd, offset, cmdMsg⟩
  | some unpackFn =>
      let (timestamp, offset) ← unpackUint32 buffer offset
      let cmdMsg :=
        { cmdMsg with id := id.setWidth 32, timestamp := timestamp, isTimeTagged := isTimeTagged }
      let (offset, cmdMsg) ← unpackFn buffer offset cmdMsg
      return ⟨.success, offset, cmdMsg⟩

end ObcGsInterface
