import ObcGsInterface.Model.Command

/-! # Command responses

`obc_gs_commands_response_pack.c` and `obc_gs_commands_response_unpack.c`, with
`unpack_command_response` of the Python commands package and its
`command_response_callbacks.py`. -/

namespace ObcGsInterface

open CArray

/-- The enumerators of `cmd_response_error_code_t`. -/
inductive CmdResponseErrorCode where
  | success
  | error
  deriving DecidableEq, Repr

def CmdResponseErrorCode.value : CmdResponseErrorCode → ℕ
  | .success => 0x01
  | .error => 0x7F

/-- `cmd_response_header_t`. Its first two fields are enums, held in 32 bits. -/
structure CmdResponseHeader where
  cmdId : BitVec 32
  errCode : BitVec 32
  dataLen : BitVec 8
  deriving DecidableEq, Repr

/-- `CMD_RESPONSE_DATA_MAX_SIZE`. -/
def cmdResponseDataMaxSize : ℕ := 220

/-- `NUM_CMD_CALLBACKS`. -/
def numCmdCallbacks : ℕ := CmdCallbackId.i2cProbe.value + 1

/-- `packCmdResponse` on pointers that are not `NULL`. -/
def packCmdResponse (cmdResHeader : CmdResponseHeader) (buffer responseData : List Byte) :
    Except Fault (ErrorCode × List Byte) :=
  if cmdResHeader.cmdId.toNat ≥ numCmdCallbacks ∨
      cmdResHeader.dataLen.toNat > cmdResponseDataMaxSize then
    .ok (.invalidArg, buffer)
  else do
    let (buffer, offset) ← packUint8 (cmdResHeader.cmdId.setWidth 8) buffer 0
    let (buffer, offset) ← packUint8 (cmdResHeader.errCode.setWidth 8) buffer offset
    let (buffer, offset) ← packUint8 cmdResHeader.dataLen buffer offset
    let buffer ← memcpy buffer offset.toNat responseData cmdResponseDataMaxSize
    return (.success, buffer)

/-- What `unpackCmdResponse` returns and leaves in its output arguments. -/
structure CmdResponseUnpackResult where
  err : ErrorCode
  response : CmdResponseHeader
  responseDataBuffer : List Byte
  deriving DecidableEq, Repr

/-- `unpackCmdResponse` on pointers that are not `NULL`. -/
def unpackCmdResponse (buffer : List Byte) (response : CmdResponseHeader)
    (responseDataBuffer : List Byte) : Except Fault CmdResponseUnpackResult := do
  let (cmdId, offset) ← unpackUint8 buffer 0
  let response := { response with cmdId := cmdId.setWidth 32 }
  if response.cmdId.toNat ≥ numCmdCallbacks then
    return ⟨.unsupportedCmd, response, responseDataBuffer⟩
  let (errCode, offset) ← unpackUint8 buffer offset
  let response := { response with errCode := errCode.setWidth 32 }
  let (dataLen, offset) ← unpackUint8 buffer offset
  let response := { response with dataLen := dataLen }
  if response.dataLen.toNat ≥ cmdResponseDataMaxSize then
    return ⟨.invalidArg, response, responseDataBuffer⟩
  let responseDataBuffer ←
    memcpy responseDataBuffer 0 (buffer.drop offset.toNat) cmdResponseDataMaxSize
  return ⟨.success, response, responseDataBuffer⟩

/-! ## The ground station -/

/-- `CmdResponseHeader()`. -/
def CmdResponseHeader.new : CmdResponseHeader where
  cmdId := 0
  errCode := 0
  dataLen := 0

/-- `unpack_command_response`. -/
def unpackCommandResponse (cmdMsgPacked : List Byte) :
    Except PyError (CmdResponseHeader × List Byte) := do
  if cmdMsgPacked.length > rsDecodedDataSize then
    throw (.valueError "The encoded command reponse data to unpack is too long")
  let buff ← ctypesArray rsDecodedDataSize cmdMsgPacked
  let dataBuffer ← ctypesArray rsDecodedDataSize []
  let res ← callC (unpackCmdResponse buff.cells CmdResponseHeader.new dataBuffer.cells)
  if res.err ≠ .success then
    throw (.valueError
      ("Could not unpack command response. OBC Error Code: " ++ toString res.err.value))
  return (res.response, res.responseDataBuffer)

/-- `CmdRes`. -/
structure CmdRes where
  cmdId : CmdCallbackId
  errorCode : ℕ
  responseLength : ℕ
  deriving DecidableEq, Repr

/-- A `CmdRes` or an object of one of its child classes. -/
inductive ParsedCmdRes where
  | cmdRes (response : CmdRes)
  | cmdRtcSyncRes (response : CmdRes) (boardUnixtime : ℕ)
  | cmdVerifyCrcRes (response : CmdRes) (crc : ℕ)
  | cmdI2CProbeRes (response : CmdRes) (validAddresses : List ℕ)
  deriving DecidableEq, Repr

/-- `int.from_bytes(data, "little")`. -/
def intFromBytesLittle (data : List Byte) : ℕ :=
  data.foldr (fun byte value => byte.toNat + 256 * value) 0

abbrev ParseFunc := CmdRes → List Byte → Except PyError ParsedCmdRes

/-- `parse_cmd_with_no_data`. -/
def parseCmdWithNoData : ParseFunc := fun cmdResponse _ => .ok (.cmdRes cmdResponse)

/-- `parse_cmd_rtc_sync`. -/
def parseCmdRtcSync : ParseFunc := fun cmdResponse data => do
  if cmdResponse.cmdId ≠ .rtcSync then
    throw (.valueError "Wrong command id for parsing the rtc sync command")
  let boardUnixtime := intFromBytesLittle (data.take 4)
  return .cmdRtcSyncRes cmdResponse boardUnixtime

/-- `parse_cmd_verify_crc`. -/
def parseCmdVerifyCrc : ParseFunc := fun cmdResponse data => do
  if cmdResponse.cmdId ≠ .verifyCrc then
    throw (.valueError "Wrong command id for parsing the verify crc command")
  let crc := intFromBytesLittle (data.take 4)
  return .cmdVerifyCrcRes cmdResponse crc

/-- `parse_cmd_i2c_probe`. -/
def parseCmdI2CProbe : ParseFunc := fun cmdResponse data => do
  if cmdResponse.cmdId ≠ .i2cProbe then
    throw (.valueError "Wrong command id for parsing the i2c probe command")
  let validAddresses := (List.range cmdResponse.responseLength).map fun i =>
    intFromBytesLittle ((data.take (i + 1)).drop i)
  return .cmdI2CProbeRes cmdResponse validAddresses

/-- `parse_func_dict`. -/
def parseFuncDict : CmdCallbackId → ParseFunc
  | .verifyCrc => parseCmdVerifyCrc
  | .rtcSync => parseCmdRtcSync
  | .i2cProbe => parseCmdI2CProbe
  | _ => parseCmdWithNoData

/-- `parse_command_response`. The Python enum has a name for `NUM_CMD_CALLBACKS` too, an id
that no unpacked response has. -/
def parseCommandResponse (data : List Byte) : Except PyError ParsedCmdRes := do
  let (cmdResponseRaw, dataBytes) ← unpackCommandResponse data
  match CmdCallbackId.ofValue? cmdResponseRaw.cmdId.toNat with
  | none =>
      throw (.valueError
        (toString cmdResponseRaw.cmdId.toNat ++ " is not a valid CmdCallbackId"))
  | some cmdId =>
      let cmdResponse : CmdRes :=
        ⟨cmdId, cmdResponseRaw.errCode.toNat, cmdResponseRaw.dataLen.toNat⟩
      parseFuncDict cmdId cmdResponse dataBytes

end ObcGsInterface
