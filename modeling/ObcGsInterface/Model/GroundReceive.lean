import ObcGsInterface.Model.CommandResponse
import ObcGsInterface.Model.GroundStation
import ObcGsInterface.Model.Telemetry
import Mathlib.Data.Int.Notation

/-! # What the ground station makes of the line

`command_utils.py`: the frame is looked for among the log messages of other tasks, which are on
the same line. The serial port and the printing are left out. -/

namespace ObcGsInterface

open CArray

/-! ## Slices -/

/-- The place that an index of a slice stands for; a negative one counts from the end. -/
def sliceIndex (length : ℕ) (i : ℤ) : ℕ := min (if i < 0 then i + length else i).toNat length

/-- `data[start:stop]`. -/
def slice (data : List Byte) (start stop : ℤ) : List Byte :=
  (data.take (sliceIndex data.length stop)).drop (sliceIndex data.length start)

/-- `data.find(b"\x7e")`. -/
def find (data : List Byte) : ℤ := (data.findIdx? (· = ax25Flag)).elim (-1) fun i => (i : ℤ)

/-- `data.rfind(b"\x7e")`. -/
def rfind (data : List Byte) : ℤ :=
  (data.reverse.findIdx? (· = ax25Flag)).elim (-1) fun i => (data.length : ℤ) - 1 - i

/-- The three parts of what was read. -/
structure IsolatedFrame where
  outerBytesLeft : List Byte
  rcvFrameBytes : List Byte
  outerBytesRight : List Byte
  deriving DecidableEq, Repr

/-- The slices that `poll`, `send_command` and `send_conn_request` take. Without a flag both
indices are -1. -/
def isolateFrame (data : List Byte) : IsolatedFrame :=
  let startIndex := find data
  let endIndex := rfind data
  { outerBytesLeft := slice data 0 startIndex
    rcvFrameBytes := slice data startIndex (endIndex + 1)
    outerBytesRight := slice data (endIndex + 1) data.length }

/-! ## Texts -/

/-- What can be raised on the way. -/
inductive ReceiveError where
  | pyError (error : PyError)
  | unicodeDecodeError
  | typeError
  deriving DecidableEq, Repr

/-- `data.decode("utf-8")`. -/
def decodeUtf8 (data : List Byte) : Except ReceiveError String :=
  match String.fromUTF8? ⟨(data.map UInt8.ofBitVec).toArray⟩ with
  | some text => .ok text
  | none => .error .unicodeDecodeError

/-- `CmdCallbackId.name`. -/
def CmdCallbackId.name : CmdCallbackId → String
  | .endOfFrame => "CMD_END_OF_FRAME"
  | .execObcReset => "CMD_EXEC_OBC_RESET"
  | .rtcSync => "CMD_RTC_SYNC"
  | .downlinkLogsNextPass => "CMD_DOWNLINK_LOGS_NEXT_PASS"
  | .microSdFormat => "CMD_MICRO_SD_FORMAT"
  | .ping => "CMD_PING"
  | .downlinkTelem => "CMD_DOWNLINK_TELEM"
  | .uplinkDisc => "CMD_UPLINK_DISC"
  | .setProgrammingSession => "CMD_SET_PROGRAMMING_SESSION"
  | .eraseApp => "CMD_ERASE_APP"
  | .downloadData => "CMD_DOWNLOAD_DATA"
  | .verifyCrc => "CMD_VERIFY_CRC"
  | .i2cProbe => "CMD_I2C_PROBE"

/-- `CmdRes.__str__`. -/
def CmdRes.str (self : CmdRes) : String :=
  "Class Name: CmdRes\n" ++ "Cmd ID: " ++ self.cmdId.name ++ "\n" ++
    (if self.errorCode = CmdResponseErrorCode.success.value then "Command Execution: SUCCESS!\n"
      else "Command Execution: ERROR!\n") ++
    "Response Length: " ++ toString self.responseLength ++ "\n"

/-- `__str__` of `CmdRes` and of its child classes. -/
def ParsedCmdRes.str : ParsedCmdRes → String
  | .cmdRes response => response.str
  | .cmdRtcSyncRes response boardUnixtime =>
      response.str ++ "Unixtime from Board: " ++ toString boardUnixtime ++ "\n"
  | .cmdVerifyCrcRes response crc => response.str ++ "Application CRC: " ++ toString crc ++ "\n"
  | .cmdI2CProbeRes response validAddresses =>
      response.str ++ "Valid I2C Addresses: |" ++
        String.join (validAddresses.map fun address => " " ++ toString address ++ " |")

/-! ## Receiving -/

section Receiving

variable {Frame : Type} (startUnstuffing : List Bool → List Bool)
  (unpack : List Byte → Except PyError Frame) (dataOf : Frame → Option (List Byte))
  (decoder : RsDecoder) (rs : RsHandle)

/-- `comms.decode_frame`. -/
def receiveFrame (rcvFrameBytes : List Byte) : Except ReceiveError (Option Frame) :=
  (CommsPipeline.decodeFrame startUnstuffing unpack decoder rs rcvFrameBytes).mapError .pyError

/-- One round of the loop in `poll`: what it appends to the file. -/
def pollRead (data : List Byte) : Except ReceiveError String :=
  if find data ≠ -1 then do
    let isolated := isolateFrame data
    let rcvFrame ← receiveFrame startUnstuffing unpack decoder rs isolated.rcvFrameBytes
    let commandRes ← match rcvFrame.bind dataOf with
      | some frameData =>
          ((parseCommandResponse (frameData.take rsDecodedDataSize)).mapError .pyError).map
            ParsedCmdRes.str
      | none => .ok "None"
    return (← decodeUtf8 isolated.outerBytesLeft) ++ commandRes ++
      (← decodeUtf8 isolated.outerBytesRight)
  else decodeUtf8 data

/-- `poll` on what the port returns until the stop flag is set: what it appends to the file, and
what it raised, if anything. -/
def poll : List (List Byte) → String × Option ReceiveError
  | [] => ("", none)
  | data :: reads =>
      match pollRead startUnstuffing unpack dataOf decoder rs data with
      | .ok dataString =>
          let (written, raised) := poll reads
          (dataString ++ written, raised)
      | .error error => ("", some error)

/-- What `send_command` returns, if it is not `None`. -/
inductive CommandReply where
  | response (response : ParsedCmdRes)
  | telemetry (telem : List TelemetryData)
  deriving DecidableEq, Repr

/-- What `send_command` returns for the frame that it has isolated. -/
def frameReply (command : CmdMsg) (isTimetagged : Bool) (rcvFrameBytes : List Byte) :
    Except ReceiveError (Option CommandReply) := do
  let rcvFrame ← receiveFrame startUnstuffing unpack decoder rs rcvFrameBytes
  match rcvFrame with
  | none => return none
  | some frame =>
      if command.id.toNat = CmdCallbackId.downlinkTelem.value then
        match dataOf frame with
        | none => throw .typeError
        | some data =>
            let (telem, _) ← (unpackTelem (data.take rsDecodedDataSize)).mapError .pyError
            -- The loop returns at the first record that is not a temperature of the board.
            return if ∀ telemetry ∈ telem, telemetry.id.toNat = 3 then some (.telemetry telem)
              else none
      else if isTimetagged then
        return none
      else
        match dataOf frame with
        | none => throw .typeError
        | some data =>
            let response ← (parseCommandResponse (data.take rsDecodedDataSize)).mapError .pyError
            return some (.response response)

/-- `except Exception`: nothing is returned. A fault of the C code is not an exception. -/
def exceptException {α : Type} (result : Except ReceiveError (Option α)) :
    Except Fault (Option α) :=
  match result with
  | .ok reply => .ok reply
  | .error (.pyError (.fault fault)) => .error fault
  | .error _ => .ok none

/-- What `send_command` does with what it reads: what it appends to the log, and what it
returns. -/
def sendCommandReply (command : CmdMsg) (isTimetagged : Bool) (readBytes : List Byte) :
    Except Fault (String × Option CommandReply) :=
  if command.id.toNat = CmdCallbackId.execObcReset.value then
    .ok ("", some (.response
      (.cmdRes ⟨.execObcReset, CmdResponseErrorCode.success.value, 0⟩)))
  else if find readBytes ≠ -1 then
    let isolated := isolateFrame readBytes
    match decodeUtf8 (isolated.outerBytesLeft ++ isolated.outerBytesRight) with
    | .error _ => .ok ("", none)
    | .ok text => do
        let reply ← exceptException (frameReply startUnstuffing unpack dataOf decoder rs command
          isTimetagged isolated.rcvFrameBytes)
        return (text, reply)
  else if isTimetagged then .ok ("", none)
  else do
    let reply ← exceptException
      (((parseCommandResponse (readBytes.take rsDecodedDataSize)).mapError .pyError).map
        fun response => some (.response response))
    return ("", reply)

/-- What `send_conn_request` does with what it reads. -/
def sendConnRequestReply (readBytes : List Byte) :
    Except ReceiveError (String × Option Frame) := do
  let isolated := isolateFrame readBytes
  let text ← decodeUtf8 (isolated.outerBytesLeft ++ isolated.outerBytesRight)
  let rcvFrame ← receiveFrame startUnstuffing unpack decoder rs isolated.rcvFrameBytes
  return (text, rcvFrame)

end Receiving

end ObcGsInterface
