import ObcGsInterface.Model.Ax25.Address
import ObcGsInterface.Model.Ax25.Stuffing

/-! # The link

The static variables of `obc_gs_ax25.c` and the functions that read and write them. A
pointer that a function compares with `NULL` is an `Option`. -/

namespace ObcGsInterface

open CArray

/-- The static variables: the two packet counters and the address of the current link. -/
structure LinkState where
  pktSentNum : Byte
  pktReceiveNum : Byte
  currentLinkDestAddr : Ax25Addr
  deriving DecidableEq, Repr

/-- The state at start-up. -/
def LinkState.initial : LinkState := ⟨0, 0, Ax25Addr.zero⟩

/-- `unstuffed_ax25_i_frame_t`. -/
structure UnstuffedAx25IFrame where
  data : Block Byte ax25MinimumIFrameLen
  length : ℕ
  deriving DecidableEq, Repr

/-- `packed_ax25_u_frame_t`. -/
structure PackedAx25UFrame where
  data : Block Byte ax25MaximumUFrameCmdLength
  length : ℕ
  deriving DecidableEq, Repr

/-- `u_frame_cmd_t`. -/
inductive UFrameCmd where
  | conn
  | disc
  | ack
  deriving DecidableEq, Repr

def UFrameCmd.value : UFrameCmd → ℕ
  | .conn => 1
  | .disc => 2
  | .ack => 3

/-- What a call returns: its error code, its output argument and the static variables. -/
structure LinkResult (ω : Type) where
  err : ErrorCode
  output : ω
  state : LinkState
  deriving DecidableEq, Repr

/-! ## The link address -/

/-- `setCurrentLinkDestCallSign`. The error of `ax25GetDestAddress` is ignored. -/
def setCurrentLinkDestCallSign (s : LinkState) (destCallSign : Option (List Byte))
    (destCallSignLength : ℕ) (ssid : Byte) : Except Fault LinkState := do
  let (_, destAddr) ← ax25GetDestAddress Ax25Addr.zero destCallSign destCallSignLength ssid 0
  return { s with currentLinkDestAddr := destAddr }

/-- `clearCurrentLinkDestAddress`. -/
def clearCurrentLinkDestAddress (s : LinkState) : LinkState :=
  { s with currentLinkDestAddr := Ax25Addr.zero }

/-- The source address of every frame: the call sign of the ground station. -/
def groundStationSrcAddr : Except Fault Ax25Addr := do
  let (_, srcAddr) ← ax25GetSourceAddress Ax25Addr.zero (some groundStationCallsign)
    callsignLength defaultSsid defaultControlBit
  return srcAddr

/-- The destination address of a station with the default SSID. -/
def stationDestAddr (callSign : List Byte) : Except Fault Ax25Addr := do
  let (_, destAddr) ← ax25GetDestAddress Ax25Addr.zero (some callSign) callsignLength
    defaultSsid defaultControlBit
  return destAddr

/-! ## Sending -/

/-- `ax25SendIFrame`. -/
def ax25SendIFrame (s : LinkState) (telemData : Option (List Byte)) (telemDataLen : ℕ)
    (ax25Data : Option UnstuffedAx25IFrame) :
    Except Fault (LinkResult (Option UnstuffedAx25IFrame)) :=
  match telemData, ax25Data with
  | none, _ => .ok ⟨.invalidArg, ax25Data, s⟩
  | some _, none => .ok ⟨.invalidArg, ax25Data, s⟩
  | some telemData, some frame => do
      if s.currentLinkDestAddr.length ≠ ax25DestAddrBytes then
        return ⟨.invalidArg, ax25Data, s⟩
      if s.currentLinkDestAddr.length < ax25DestAddrBytes then
        return ⟨.invalidArg, ax25Data, s⟩
      let pktSentNum : Byte :=
        if s.pktSentNum.toNat ≥ maxContinuousPacketsAllowed then 0 else s.pktSentNum
      let pktReceiveNum : Byte :=
        if s.pktReceiveNum.toNat ≥ maxContinuousPacketsAllowed then 0 else s.pktReceiveNum
      let data ← frame.data.memset 0 ax25MinimumIFrameLen
      let data ← data.store 0 ax25Flag
      let srcAddr ← groundStationSrcAddr
      let data ← data.memcpy ax25DestAddrPosition s.currentLinkDestAddr.data.cells
        ax25DestAddrBytes
      let data ← data.memcpy ax25SrcAddrPosition srcAddr.data.cells ax25SrcAddrBytes
      let data ← data.store ax25ControlBytesPosition ((pktReceiveNum <<< 5) ||| (pktSentNum <<< 1))
      let data ← data.store ax25Mod8PidPosition ax25Pid
      let data ← data.memcpy ax25InfoFieldPosition telemData telemDataLen
      let fcs ← fcsCalculate (data.cells.drop ax25StartFlagBytes) ax25MinimumIFrameLen
      let data ← data.store ax25IFrameFcsPosition ((fcs >>> 8).setWidth 8)
      let data ← data.store (ax25IFrameFcsPosition + 1) ((fcs &&& 0xFF).setWidth 8)
      let data ← data.store (ax25MinimumIFrameLen - 1) ax25Flag
      let data ← data.store 0 ax25Flag
      return ⟨.success, some ⟨data, ax25MinimumIFrameLen⟩,
        { s with pktSentNum := pktSentNum + 1, pktReceiveNum := pktReceiveNum }⟩

/-- The control byte of a U frame before the poll/final bit is set. -/
def uFrameControl (cmd : ℕ) : Byte :=
  if cmd = UFrameCmd.ack.value then ax25UFrameAckCmdControl
  else if cmd = UFrameCmd.disc.value then ax25UFrameDiscCmdControl
  else ax25UFrameSabmCmdControl

/-- `ax25SendUFrame`. -/
def ax25SendUFrame (s : LinkState) (ax25Data : Option PackedAx25UFrame) (cmd : ℕ)
    (pollFinalBit : Byte) : Except Fault (LinkResult (Option PackedAx25UFrame)) :=
  if cmd > maxUFrameCmdValue then .ok ⟨.invalidArg, ax25Data, s⟩
  else
    match ax25Data with
    | none => .ok ⟨.invalidArg, ax25Data, s⟩
    | some frame => do
        if s.currentLinkDestAddr.length ≠ ax25DestAddrBytes then
          return ⟨.invalidArg, ax25Data, s⟩
        if pollFinalBit.toNat > 1 then
          return ⟨.invalidArg, ax25Data, s⟩
        let stuffedData ← frame.data.memset 0 ax25MaximumUFrameCmdLength
        let packet := Block.fill ax25MinimumUFrameCmdLength 0
        let packet ← packet.store 0 ax25Flag
        let srcAddr ← groundStationSrcAddr
        let packet ← packet.memcpy ax25DestAddrPosition s.currentLinkDestAddr.data.cells
          ax25DestAddrBytes
        let packet ← packet.memcpy ax25SrcAddrPosition srcAddr.data.cells ax25SrcAddrBytes
        let packet ← packet.store ax25ControlBytesPosition (pollFinalBit <<< pollFinalBitOffset)
        let packet ← orInto packet ax25ControlBytesPosition (uFrameControl cmd)
        let fcs ← fcsCalculate (packet.cells.drop 1) ax25MinimumUFrameCmdLength
        let packet ← packet.store ax25UFrameFcsPosition ((fcs >>> 8).setWidth 8)
        let packet ← packet.store (ax25UFrameFcsPosition + 1) ((fcs &&& 0xFF).setWidth 8)
        let packet ← packet.store (ax25MinimumUFrameCmdLength - 1) ax25Flag
        let stuffed ← ax25Stuff packet.cells ax25MinimumUFrameCmdLength stuffedData
        if stuffed.err ≠ .success then
          return ⟨stuffed.err, some ⟨stuffed.stuffedData, frame.length⟩, s⟩
        return ⟨.success, some ⟨stuffed.stuffedData, stuffed.stuffedDataLen % 2 ^ 8⟩, s⟩

/-! ## Receiving -/

/-- `count` bytes of a frame from `pos` on. -/
def UnstuffedAx25IFrame.field (packet : UnstuffedAx25IFrame) (pos count : ℕ) : List Byte :=
  (packet.data.cells.drop pos).take count

/-- `sFrameRecv`. -/
def sFrameRecv (s : LinkState) (packet : UnstuffedAx25IFrame) (command : Option UFrameCmd) :
    Except Fault (LinkResult (Option UFrameCmd)) := do
  let srcAddr ← groundStationSrcAddr
  if packet.field ax25SrcAddrPosition ax25SrcAddrBytes ≠ srcAddr.data.cells then
    return ⟨.invalidTnc, command, s⟩
  if (← load packet.data.cells ax25Mod8PidPosition) ≠ ax25Pid then
    return ⟨.invalidAx25Packet, command, s⟩
  let controlByte ← load packet.data.cells (ax25AddressBytes + 1)
  if controlByte = ax25SFrameRrControl ∨ controlByte = ax25SFrameRnrControl ∨
      controlByte = ax25SFrameRejControl ∨ controlByte = ax25SFrameSrejControl then
    return ⟨.success, command, s⟩
  return ⟨.invalidAx25Packet, command, s⟩

/-- `iFrameRecv`. Its check of the control byte has no effect yet. -/
def iFrameRecv (s : LinkState) (packet : UnstuffedAx25IFrame) (command : Option UFrameCmd) :
    Except Fault (LinkResult (Option UFrameCmd)) := do
  let srcAddr ← groundStationSrcAddr
  if packet.field ax25SrcAddrPosition ax25SrcAddrBytes ≠ srcAddr.data.cells then
    return ⟨.invalidTnc, command, s⟩
  let pid ← load packet.data.cells ax25Mod8PidPosition
  if pid ≠ ax25Pid ∧ pid ≠ 0 then
    return ⟨.invalidAx25Packet, command, s⟩
  return ⟨.success, command, { s with pktReceiveNum := s.pktReceiveNum + 1 }⟩

/-- The first six bytes of the source address are those of the link address. -/
def sourceIsLink (s : LinkState) (packet : UnstuffedAx25IFrame) : Prop :=
  packet.field ax25SrcAddrPosition (ax25SrcAddrBytes - 1) =
    s.currentLinkDestAddr.data.cells.take (ax25SrcAddrBytes - 1)

instance (s : LinkState) (packet : UnstuffedAx25IFrame) : Decidable (sourceIsLink s packet) :=
  inferInstanceAs (Decidable (_ = _))

/-- `uFrameRecv`. The source address of the packet is only copied into a local address that
nothing reads. -/
def uFrameRecv (s : LinkState) (packet : UnstuffedAx25IFrame) (command : Option UFrameCmd) :
    Except Fault (LinkResult (Option UFrameCmd)) := do
  let controlByte := (← load packet.data.cells ax25ControlBytesPosition) &&& ~~~pollFinalBitMask
  if controlByte = ax25UFrameSabmCmdControl then
    let s := { s with pktSentNum := 0, pktReceiveNum := 0 }
    if s.currentLinkDestAddr.length ≠ ax25DestAddrBytes then
      let s ← setCurrentLinkDestCallSign s (some cubeSatCallsign) callsignLength defaultSsid
      return ⟨.success, some .conn, s⟩
    return ⟨.success, some .conn, s⟩
  else if controlByte = ax25UFrameDiscCmdControl then
    if ¬ sourceIsLink s packet then
      return ⟨.invalidTnc, command, s⟩
    return ⟨.success, some .disc, s⟩
  else if controlByte = ax25UFrameAckCmdControl then
    if ¬ sourceIsLink s packet then
      return ⟨.invalidTnc, command, s⟩
    return ⟨.success, some .ack, { s with pktSentNum := 0, pktReceiveNum := 0 }⟩
  else
    return ⟨.invalidAx25Packet, command, s⟩

/-- `ax25Recv`; `command` is what `*command` holds before the call, if anything. -/
def ax25Recv (s : LinkState) (unstuffedPacket : Option UnstuffedAx25IFrame)
    (command : Option UFrameCmd) : Except Fault (LinkResult (Option UFrameCmd)) :=
  match unstuffedPacket with
  | none => .ok ⟨.invalidArg, command, s⟩
  | some packet => do
      if packet.length > ax25MinimumIFrameLen ∨ packet.length < ax25MinimumUFrameCmdLength then
        return ⟨.invalidArg, command, s⟩
      let destAddr ← stationDestAddr cubeSatCallsign
      let destAddrAlternate ← stationDestAddr groundStationCallsign
      if packet.field ax25DestAddrPosition ax25DestAddrBytes ≠ destAddr.data.cells ∧
          packet.field ax25DestAddrPosition ax25DestAddrBytes ≠ destAddrAlternate.data.cells then
        return ⟨.invalidArg, command, s⟩
      let fcsHigh ← load packet.data.cells (packet.length - ax25EndFlagBytes - ax25FcsBytes)
      let fcsLow ← load packet.data.cells (packet.length - ax25EndFlagBytes - ax25FcsBytes + 1)
      let fcs : BitVec 16 := (fcsHigh.setWidth 16 <<< 8) ||| fcsLow.setWidth 16
      let err ← fcsCheck (packet.data.cells.drop 1) packet.length fcs
      if err ≠ .success then
        return ⟨err, command, s⟩
      let controlByte ← load packet.data.cells ax25ControlBytesPosition
      if controlByte &&& 0x01 = 0 then iFrameRecv s packet command
      else if controlByte &&& ((0x01 : Byte) <<< 1) ≠ 0 then uFrameRecv s packet command
      else sFrameRecv s packet command

end ObcGsInterface
