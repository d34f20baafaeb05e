import ObcGsInterface.Model.CommandFraming
import Mathlib.Data.Int.Notation

/-! # Command factories

`command_factories.py`. The arguments are unbounded integers; a `ctypes` integer keeps their
low bits. -/

namespace ObcGsInterface

/-- `ProgrammingSession`. -/
inductive ProgrammingSession where
  | application
  deriving DecidableEq, Repr

def ProgrammingSession.value : ProgrammingSession → ℤ
  | application => 0

/-- `CmdMsg.__init__`. -/
def CmdMsg.init (unixtimeOfExecution : Option ℤ) : CmdMsg :=
  match unixtimeOfExecution with
  | none => CmdMsg.new
  | some time => { CmdMsg.new with timestamp := BitVec.ofInt 32 time, isTimeTagged := true }

/-- A command of the given id, without data. -/
def createCmd (id : CmdCallbackId) (unixtimeOfExecution : Option ℤ) : CmdMsg :=
  { CmdMsg.init unixtimeOfExecution with id := BitVec.ofNat 32 id.value }

def createCmdEndOfFrame : Option ℤ → CmdMsg := createCmd .endOfFrame

def createCmdExecObcReset : Option ℤ → CmdMsg := createCmd .execObcReset

def createCmdRtcSync (time : ℤ) (unixtimeOfExecution : Option ℤ) : CmdMsg :=
  { createCmd .rtcSync unixtimeOfExecution with rtcSync := ⟨BitVec.ofInt 32 time⟩ }

def createCmdDownlinkLogsNextPass (logLevel : ℤ) (unixtimeOfExecution : Option ℤ) :
    Except PyError CmdMsg :=
  if logLevel > 255 then
    .error (.valueError "Log level passed is too large (cannot be encoded into a c_uint8)")
  else
    .ok { createCmd .downlinkLogsNextPass unixtimeOfExecution with
      downlinkLogsNextPass := ⟨BitVec.ofInt 8 logLevel⟩ }

def createCmdMircoSdFormat : Option ℤ → CmdMsg := createCmd .microSdFormat

def createCmdPing : Option ℤ → CmdMsg := createCmd .ping

def createCmdDownlinkTelem : Option ℤ → CmdMsg := createCmd .downlinkTelem

def createCmdUplinkDisc : Option ℤ → CmdMsg := createCmd .uplinkDisc

def createCmdSetProgrammingSession (programmingSession : ProgrammingSession)
    (unixtimeOfExecution : Option ℤ) : CmdMsg :=
  { createCmd .setProgrammingSession unixtimeOfExecution with
    setProgrammingSession := ⟨BitVec.ofInt 32 programmingSession.value⟩ }

def createCmdEraseApp : Option ℤ → CmdMsg := createCmd .eraseApp

def createCmdDownloadData (programmingSession : ProgrammingSession) (length address : ℤ)
    (unixtimeOfExecution : Option ℤ) : Except PyError CmdMsg :=
  if length > 65535 then
    .error (.valueError
      "Length for download data command too large (cannot be encoded into a c_uint16)")
  else if address > 4294967295 then
    .error (.valueError
      "Invalid address download data command (cannot be encoded into a c_uint32)")
  else
    .ok { createCmd .downloadData unixtimeOfExecution with
      downloadData := ⟨BitVec.ofInt 32 programmingSession.value, BitVec.ofInt 16 length,
        BitVec.ofInt 32 address, none⟩ }

def createCmdVerifyCrc : Option ℤ → CmdMsg := createCmd .verifyCrc

def createCmdI2cProbe : Option ℤ → CmdMsg := createCmd .i2cProbe

/-- A choice from `COMMAND_FACTORIES`, with the arguments in front of the execution time. -/
inductive CommandFactory where
  | endOfFrame
  | execObcReset
  | rtcSync (time : ℤ)
  | downlinkLogsNextPass (logLevel : ℤ)
  | mircoSdFormat
  | ping
  | downlinkTelem
  | uplinkDisc
  | setProgrammingSession (programmingSession : ProgrammingSession)
  | eraseApp
  | downloadData (programmingSession : ProgrammingSession) (length address : ℤ)
  | verifyCrc
  | i2cProbe
  deriving DecidableEq, Repr

/-- Call the factory. -/
def CommandFactory.create (unixtimeOfExecution : Option ℤ) :
    CommandFactory → Except PyError CmdMsg
  | endOfFrame => .ok (createCmdEndOfFrame unixtimeOfExecution)
  | execObcReset => .ok (createCmdExecObcReset unixtimeOfExecution)
  | rtcSync time => .ok (createCmdRtcSync time unixtimeOfExecution)
  | downlinkLogsNextPass logLevel => createCmdDownlinkLogsNextPass logLevel unixtimeOfExecution
  | mircoSdFormat => .ok (createCmdMircoSdFormat unixtimeOfExecution)
  | ping => .ok (createCmdPing unixtimeOfExecution)
  | downlinkTelem => .ok (createCmdDownlinkTelem unixtimeOfExecution)
  | uplinkDisc => .ok (createCmdUplinkDisc unixtimeOfExecution)
  | setProgrammingSession programmingSession =>
      .ok (createCmdSetProgrammingSession programmingSession unixtimeOfExecution)
  | eraseApp => .ok (createCmdEraseApp unixtimeOfExecution)
  | downloadData programmingSession length address =>
      createCmdDownloadData programmingSession length address unixtimeOfExecution
  | verifyCrc => .ok (createCmdVerifyCrc unixtimeOfExecution)
  | i2cProbe => .ok (createCmdI2cProbe unixtimeOfExecution)

end ObcGsInterface
