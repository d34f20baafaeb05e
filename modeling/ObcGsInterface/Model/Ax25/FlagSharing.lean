import ObcGsInterface.Model.Ax25.Link

/-! # Bursts of frames that share their flags

`ax25UnstuffedWithFlagShareLen` of `obc_gs_ax25.h` and `ax25SendIFrameWithFlagSharing` of
`obc_gs_ax25.c`. The number of frames and the number of remaining bytes are `uint8_t`
variables, the lengths are `uint32_t`. -/

namespace ObcGsInterface

open CArray

/-- `(infoBytesLen + AX25_INFO_BYTES - 1) / AX25_INFO_BYTES` in `uint32_t` arithmetic. -/
def roundedFrames (infoBytesLen : ℕ) : ℕ :=
  (infoBytesLen + ax25InfoBytes - 1) % 2 ^ 32 / ax25InfoBytes

/-- `ax25UnstuffedWithFlagShareLen`. -/
def ax25UnstuffedWithFlagShareLen (infoBytesLen : ℕ) : ℕ :=
  (roundedFrames infoBytesLen * ax25MinimumIFrameLenShareFlag + 1) % 2 ^ 32

/-- The variables of the loop of `ax25SendIFrameWithFlagSharing`. -/
structure ShareState (n : ℕ) where
  ax25Data : Block Byte n
  remainingDataBytes : ℕ
  pktSentNum : Byte
  deriving DecidableEq, Repr

/-- The body of the loop. -/
def shareFrame {n : ℕ} (pktReceiveNum : Byte) (telemData : List Byte) (destAddress : Ax25Addr)
    (s : ShareState n) (frameStart : ℕ) : Except Fault (ShareState n) := do
  let start := frameStart * ax25MinimumIFrameLenShareFlag
  let data ← s.ax25Data.store start ax25Flag
  let data ← data.memcpy (start + ax25DestAddrPosition) destAddress.data.cells ax25DestAddrBytes
  let srcAddr ← groundStationSrcAddr
  let data ← data.memcpy (start + ax25SrcAddrPosition) srcAddr.data.cells ax25SrcAddrBytes
  let data ← data.store (start + ax25ControlBytesPosition) (pktReceiveNum <<< 1)
  let data ← data.store (start + ax25ControlBytesPosition + 1) (s.pktSentNum <<< 1)
  let data ← data.store (start + ax25Mod128PidPosition) ax25Pid
  let count := if s.remainingDataBytes ≥ ax25InfoBytes then ax25InfoBytes else s.remainingDataBytes
  let data ← data.memcpy (start + ax25InfoFieldPosition)
    (telemData.drop (frameStart * ax25InfoBytes)) count
  let fcs ← fcsCalculate (data.cells.drop start) ax25MinimumIFrameLen
  let data ← data.store (start + ax25IFrameFcsPosition) ((fcs >>> 8).setWidth 8)
  let data ← data.store (start + ax25IFrameFcsPosition + 1) ((fcs &&& 0xFF).setWidth 8)
  return ⟨data, (s.remainingDataBytes + 2 ^ 8 - ax25InfoBytes) % 2 ^ 8, s.pktSentNum + 1⟩

/-- `ax25SendIFrameWithFlagSharing`, with an array of `n` bytes for the output. -/
def ax25SendIFrameWithFlagSharing {n : ℕ} (s : LinkState) (telemData : Option (List Byte))
    (telemDataLen : ℕ) (ax25Data : Option (Block Byte n)) (ax25DataLen : ℕ)
    (destAddress : Option Ax25Addr) : Except Fault (LinkResult (Option (Block Byte n))) :=
  match telemData, ax25Data, destAddress with
  | none, _, _ => .ok ⟨.invalidArg, ax25Data, s⟩
  | some _, none, _ => .ok ⟨.invalidArg, ax25Data, s⟩
  | some _, some _, none => .ok ⟨.invalidArg, ax25Data, s⟩
  | some telemData, some data, some destAddress => do
      if destAddress.length < ax25DestAddrBytes then
        return ⟨.invalidArg, ax25Data, s⟩
      let numOfFrames := roundedFrames telemDataLen % 2 ^ 8
      if ax25DataLen < numOfFrames * ax25MinimumIFrameLenShareFlag + 1 then
        return ⟨.invalidArg, ax25Data, s⟩
      let data ← data.memset 0 ax25DataLen
      let final ← (List.range numOfFrames).foldlM
        (shareFrame s.pktReceiveNum telemData destAddress) ⟨data, telemDataLen % 2 ^ 8, s.pktSentNum⟩
      let data ← final.ax25Data.store (numOfFrames * ax25MinimumIFrameLenShareFlag) ax25Flag
      return ⟨.success, some data, { s with pktSentNum := final.pktSentNum }⟩

end ObcGsInterface
