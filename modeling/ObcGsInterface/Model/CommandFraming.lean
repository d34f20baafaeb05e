import ObcGsInterface.Model.Command

/-! # Commands on the ground station

`pack_command` and `unpack_command` of the Python commands package, and
`command_multi_pack` of its `command_framing.py`. -/

namespace ObcGsInterface

/-- `CmdMsg()`: no execution time. -/
def CmdMsg.new : CmdMsg where
  rtcSync := ⟨0⟩
  downlinkLogsNextPass := ⟨0⟩
  downloadData := ⟨0, 0, 0, none⟩
  setProgrammingSession := ⟨0⟩
  timestamp := 0
  isTimeTagged := false
  id := 0

/-- `pack_command`. -/
def packCommand (cmdMsg : CmdMsg) : Except PyError (List Byte) := do
  let res ← callC (packCmdMsg (List.replicate maxCmdMsgSize 0) 0 cmdMsg 0)
  if res.err ≠ .success then
    throw (.valueError ("Could not pack command. OBC Error Code: " ++ toString res.err.value))
  return res.buffer.take res.offset.toNat

/-- The `while` loop of `unpack_command`. Every round but the last reads at least one byte,
so `fuel` rounds suffice for fewer than `fuel` bytes. -/
def unpackCommandLoop (cmdMsgPacked : List Byte) :
    ℕ → Offset → ℕ → List CmdMsg → Except PyError (List CmdMsg × ℕ)
  | 0, _, _, _ => .error (.fault .nonTermination)
  | fuel + 1, bytesUnpacked, totalBytesUnpacked, cmdMsgList =>
      if bytesUnpacked.toNat < rsDecodedDataSize then
        match cmdMsgPacked[totalBytesUnpacked]? with
        | none => .error .indexError
        | some byte =>
            if byte.toNat = CmdCallbackId.endOfFrame.value then .ok (cmdMsgList, totalBytesUnpacked)
            else do
              let buff ← ctypesArray maxCmdMsgSize ((cmdMsgPacked.drop totalBytesUnpacked).take 16)
              let res ← callC (unpackCmdMsg buff.cells bytesUnpacked CmdMsg.new)
              let totalBytesUnpacked := totalBytesUnpacked + res.offset.toNat
              if res.err ≠ .success then
                throw (.valueError
                  ("Could not unpack command. OBC Error Code: " ++ toString res.err.value))
              unpackCommandLoop cmdMsgPacked fuel 0 totalBytesUnpacked (cmdMsgList ++ [res.cmdMsg])
      else .ok (cmdMsgList, totalBytesUnpacked)

/-- `unpack_command`. -/
def unpackCommand (cmdMsgPacked : List Byte) : Except PyError (List CmdMsg × List Byte) := do
  if cmdMsgPacked.length > rsDecodedDataSize then
    throw (.valueError "The encoded command data to unpack is too long")
  let (cmdMsgList, totalBytesUnpacked) ←
    unpackCommandLoop cmdMsgPacked (cmdMsgPacked.length + 1) 0 0 []
  return (cmdMsgList, cmdMsgPacked.drop totalBytesUnpacked)

/-- The body of the `for` loop of `command_multi_pack`. -/
def commandMultiPackStep (state : List Byte × List (List Byte)) (command : CmdMsg) :
    Except PyError (List Byte × List (List Byte)) := do
  let (data, commandList) := state
  let commandPacked ← packCommand command
  let (data, commandList) :=
    if data.length + commandPacked.length > rsDecodedDataSize - 1 then
      ([], commandList ++ [ljust data rsDecodedDataSize])
    else (data, commandList)
  return (data ++ commandPacked, commandList)

/-- `command_multi_pack`. -/
def commandMultiPack (commands : List CmdMsg) : Except PyError (List (List Byte)) := do
  let (data, commandList) ← commands.foldlM commandMultiPackStep ([], [])
  return if data ≠ [] then commandList ++ [ljust data rsDecodedDataSize] else commandList

end ObcGsInterface
