import ObcGsInterface.Library.BigEndian
import ObcGsInterface.Verification.Link.Addresses

/-! # Receiving

`ax25Recv` checks the length, the destination and the check sequence of a packet, and hands
a packet that passes to the handler of its frame type. No call leaves its buffers. -/

namespace ObcGsInterface

open CArray BigEndian

namespace UnstuffedAx25IFrame

/-- A byte of a frame. -/
def byte (packet : UnstuffedAx25IFrame) (i : ℕ) : Byte := packet.data.cells[i]?.getD 0

theorem load_byte (packet : UnstuffedAx25IFrame) {i : ℕ} (h : i < ax25MinimumIFrameLen) :
    load packet.data.cells i = .ok (packet.byte i) := by
  have hcell : i < packet.data.cells.length := by rwa [Block.length_cells]
  rw [load_of_lt _ hcell, byte, List.getElem?_eq_getElem hcell, Option.getD_some]

/-- The checks a packet has to pass before its type is looked at. -/
structure Accepted (packet : UnstuffedAx25IFrame) : Prop where
  length_ge : ax25MinimumUFrameCmdLength ≤ packet.length
  length_le : packet.length ≤ ax25MinimumIFrameLen
  dest : packet.field ax25DestAddrPosition ax25DestAddrBytes = cubeSatDest ∨
    packet.field ax25DestAddrPosition ax25DestAddrBytes = groundDest
  fcs : reverseUint16 (join16 (packet.byte (packet.length - 3)) (packet.byte (packet.length - 2))) =
    crcOf (packet.field 1 (packet.length - 4))

/-- The control byte. -/
def control (packet : UnstuffedAx25IFrame) : Byte := packet.byte ax25ControlBytesPosition

end UnstuffedAx25IFrame

open UnstuffedAx25IFrame

/-! ## The checks -/

theorem fcsCheck_eq {packet : UnstuffedAx25IFrame} {fcs : BitVec 16}
    (hge : ax25MinimumUFrameCmdLength ≤ packet.length)
    (hle : packet.length ≤ ax25MinimumIFrameLen) :
    fcsCheck (packet.data.cells.drop 1) packet.length fcs =
      .ok (if reverseUint16 fcs ≠ crcOf (packet.field 1 (packet.length - 4)) then
        .corruptedAx25Msg else .success) := by
  have hmin : ax25MinimumUFrameCmdLength = 19 := rfl
  have hmax : ax25MinimumIFrameLen = 275 := rfl
  have hcount : fcsLength packet.length = packet.length - 4 := by
    rw [fcsLength, ax25FcsBytes, ax25TotalFlagBytes]
    omega
  rw [fcsCheck, hcount, calculateCrc16Ccitt_eq (by
    rw [List.length_drop, Block.length_cells]
    omega)]
  rfl

/-- The dispatch on the two low bits of the control byte. -/
def dispatch (s : LinkState) (packet : UnstuffedAx25IFrame) (command : Option UFrameCmd) :
    Except Fault (LinkResult (Option UFrameCmd)) :=
  if packet.control &&& 0x01 = 0 then iFrameRecv s packet command
  else if packet.control &&& ((0x01 : Byte) <<< 1) ≠ 0 then uFrameRecv s packet command
  else sFrameRecv s packet command

theorem ax25Recv_of_accepted {packet : UnstuffedAx25IFrame} (h : packet.Accepted)
    (s : LinkState) (command : Option UFrameCmd) :
    ax25Recv s (some packet) command = dispatch s packet command := by
  have hmin : ax25MinimumUFrameCmdLength = 19 := rfl
  have hmax : ax25MinimumIFrameLen = 275 := rfl
  have hge := h.length_ge
  have hle := h.length_le
  have hlength : ¬ (packet.length > ax25MinimumIFrameLen ∨
      packet.length < ax25MinimumUFrameCmdLength) := by omega
  have hdest : ¬ (packet.field ax25DestAddrPosition ax25DestAddrBytes ≠ cubeSatLink.data.cells ∧
      packet.field ax25DestAddrPosition ax25DestAddrBytes ≠ groundDest) := by
    rintro ⟨hcube, hground⟩
    rcases h.dest with hdest | hdest <;> contradiction
  have hhigh : packet.length - ax25EndFlagBytes - ax25FcsBytes = packet.length - 3 := by
    rw [ax25EndFlagBytes, ax25FcsBytes]
    omega
  have hlow : packet.length - 3 + 1 = packet.length - 2 := by omega
  have hfcs := h.fcs
  rw [join16] at hfcs
  simp only [ax25Recv, if_neg hlength, stationDestAddr_cubeSat, stationDestAddr_groundStation,
    ok_bind, if_neg hdest, hhigh, hlow]
  rw [packet.load_byte (by omega), ok_bind, packet.load_byte (by omega), ok_bind,
    fcsCheck_eq hge hle, hfcs, ok_bind, if_neg (by simp), packet.load_byte (by decide), ok_bind]
  rfl

/-- A packet that fails a check changes nothing. -/
theorem ax25Recv_of_not_accepted {packet : UnstuffedAx25IFrame} (h : ¬ packet.Accepted)
    (s : LinkState) (command : Option UFrameCmd) :
    ∃ err, ax25Recv s (some packet) command = .ok ⟨err, command, s⟩ ∧ err ≠ .success := by
  have hmin : ax25MinimumUFrameCmdLength = 19 := rfl
  have hmax : ax25MinimumIFrameLen = 275 := rfl
  simp only [ax25Recv, stationDestAddr_cubeSat, stationDestAddr_groundStation, ok_bind]
  by_cases hlength : packet.length > ax25MinimumIFrameLen ∨
      packet.length < ax25MinimumUFrameCmdLength
  · rw [if_pos hlength]
    exact ⟨.invalidArg, rfl, by decide⟩
  rw [if_neg hlength]
  by_cases hdest : packet.field ax25DestAddrPosition ax25DestAddrBytes ≠ cubeSatLink.data.cells ∧
      packet.field ax25DestAddrPosition ax25DestAddrBytes ≠ groundDest
  · rw [if_pos hdest]
    exact ⟨.invalidArg, rfl, by decide⟩
  have hhigh : packet.length - ax25EndFlagBytes - ax25FcsBytes = packet.length - 3 := by
    rw [ax25EndFlagBytes, ax25FcsBytes]
    omega
  have hlow : packet.length - 3 + 1 = packet.length - 2 := by omega
  rw [if_neg hdest, hhigh, hlow, packet.load_byte (by omega), ok_bind,
    packet.load_byte (by omega), ok_bind, fcsCheck_eq (by omega) (by omega), ok_bind]
  by_cases hfcs : reverseUint16 (join16 (packet.byte (packet.length - 3))
      (packet.byte (packet.length - 2))) = crcOf (packet.field 1 (packet.length - 4))
  · refine absurd ⟨by omega, by omega, ?_, hfcs⟩ h
    by_contra hnone
    exact hdest ⟨fun hc => hnone (.inl hc), fun hg => hnone (.inr hg)⟩
  · rw [join16] at hfcs
    rw [if_pos hfcs, if_pos (by decide)]
    exact ⟨.corruptedAx25Msg, rfl, by decide⟩

/-! ## The handlers -/

/-- A received I frame only counts. -/
def LinkState.received (s : LinkState) : LinkState := { s with pktReceiveNum := s.pktReceiveNum + 1 }

/-- The source address of a frame. -/
def UnstuffedAx25IFrame.source (packet : UnstuffedAx25IFrame) : List Byte :=
  packet.field ax25SrcAddrPosition ax25SrcAddrBytes

theorem iFrameRecv_eq (s : LinkState) (packet : UnstuffedAx25IFrame)
    (command : Option UFrameCmd) :
    iFrameRecv s packet command = .ok (
      if packet.source ≠ groundSource then ⟨.invalidTnc, command, s⟩
      else if packet.byte ax25Mod8PidPosition ≠ ax25Pid ∧ packet.byte ax25Mod8PidPosition ≠ 0 then
        ⟨.invalidAx25Packet, command, s⟩
      else ⟨.success, command, s.received⟩) := by
  have hfield : packet.field ax25SrcAddrPosition ax25SrcAddrBytes = packet.source := rfl
  have hpid := packet.load_byte (show ax25Mod8PidPosition < ax25MinimumIFrameLen by decide)
  simp only [iFrameRecv, groundStationSrcAddr_eq, ok_bind, hfield, hpid, pure_eq_ok]
  split_ifs <;> rfl

theorem sFrameRecv_eq (s : LinkState) (packet : UnstuffedAx25IFrame)
    (command : Option UFrameCmd) :
    ∃ err, sFrameRecv s packet command = .ok ⟨err, command, s⟩ := by
  simp only [sFrameRecv, groundStationSrcAddr_eq, ok_bind,
    packet.load_byte (show ax25Mod8PidPosition < ax25MinimumIFrameLen by decide),
    packet.load_byte (show ax25AddressBytes + 1 < ax25MinimumIFrameLen by decide), pure_eq_ok]
  split_ifs <;> exact ⟨_, rfl⟩

/-- The control byte without its poll/final bit. -/
def UnstuffedAx25IFrame.uControl (packet : UnstuffedAx25IFrame) : Byte :=
  packet.control &&& ~~~pollFinalBitMask

/-- The state after a SABM: both counters are reset, and a link is made to the satellite if
there is none. -/
def LinkState.connected (s : LinkState) : LinkState where
  pktSentNum := 0
  pktReceiveNum := 0
  currentLinkDestAddr :=
    if s.currentLinkDestAddr.length ≠ ax25DestAddrBytes then cubeSatLink
    else s.currentLinkDestAddr

theorem uFrameRecv_eq (s : LinkState) (packet : UnstuffedAx25IFrame)
    (command : Option UFrameCmd) :
    uFrameRecv s packet command = .ok (
      if packet.uControl = ax25UFrameSabmCmdControl then ⟨.success, some .conn, s.connected⟩
      else if packet.uControl = ax25UFrameDiscCmdControl then
        if ¬ sourceIsLink s packet then ⟨.invalidTnc, command, s⟩
        else ⟨.success, some .disc, s⟩
      else if packet.uControl = ax25UFrameAckCmdControl then
        if ¬ sourceIsLink s packet then ⟨.invalidTnc, command, s⟩
        else ⟨.success, some .ack, { s with pktSentNum := 0, pktReceiveNum := 0 }⟩
      else ⟨.invalidAx25Packet, command, s⟩) := by
  have hset (s : LinkState) : setCurrentLinkDestCallSign s (some cubeSatCallsign)
      callsignLength defaultSsid = .ok { s with currentLinkDestAddr := cubeSatLink } := rfl
  have hcontrol := packet.load_byte (show ax25ControlBytesPosition < ax25MinimumIFrameLen by decide)
  have hbyte : packet.byte ax25ControlBytesPosition &&& ~~~pollFinalBitMask = packet.uControl := rfl
  simp only [uFrameRecv, hcontrol, ok_bind, hset, hbyte, pure_eq_ok, LinkState.connected]
  split_ifs <;> rfl

/-! ## What a packet can do -/

theorem and_one_uControl (packet : UnstuffedAx25IFrame) :
    packet.uControl &&& 0x01 = packet.control &&& 0x01 := by
  rw [UnstuffedAx25IFrame.uControl, BitVec.and_assoc]
  rfl

theorem and_two_uControl (packet : UnstuffedAx25IFrame) :
    packet.uControl &&& ((0x01 : Byte) <<< 1) = packet.control &&& ((0x01 : Byte) <<< 1) := by
  rw [UnstuffedAx25IFrame.uControl, BitVec.and_assoc]
  rfl

/-- The control bytes that `uFrameRecv` knows. -/
def uFrameControls : List Byte :=
  [ax25UFrameSabmCmdControl, ax25UFrameDiscCmdControl, ax25UFrameAckCmdControl]

/-- A known control byte takes a packet to `uFrameRecv`. -/
theorem isUFrame {packet : UnstuffedAx25IFrame} (h : packet.uControl ∈ uFrameControls) :
    packet.control &&& 0x01 ≠ 0 ∧ packet.control &&& ((0x01 : Byte) <<< 1) ≠ 0 := by
  rw [← and_one_uControl, ← and_two_uControl]
  generalize packet.uControl = control at h
  simp only [uFrameControls, List.mem_cons, List.not_mem_nil, or_false] at h
  rcases h with rfl | rfl | rfl <;> exact ⟨by decide, by decide⟩

/-- The results of `ax25Recv`, with what the packet must be for each. -/
inductive Received (s : LinkState) (packet : UnstuffedAx25IFrame) (command : Option UFrameCmd) :
    LinkResult (Option UFrameCmd) → Prop where
  | ignored (err : ErrorCode)
      (known : packet.uControl ∈ uFrameControls → err ≠ .success) :
      Received s packet command ⟨err, command, s⟩
  | iFrame (accepted : packet.Accepted) (unknown : packet.uControl ∉ uFrameControls) :
      Received s packet command ⟨.success, command, s.received⟩
  | sabm (accepted : packet.Accepted) (control : packet.uControl = ax25UFrameSabmCmdControl) :
      Received s packet command ⟨.success, some .conn, s.connected⟩
  | disc (accepted : packet.Accepted) (control : packet.uControl = ax25UFrameDiscCmdControl)
      (source : sourceIsLink s packet) :
      Received s packet command ⟨.success, some .disc, s⟩
  | ack (accepted : packet.Accepted) (control : packet.uControl = ax25UFrameAckCmdControl)
      (source : sourceIsLink s packet) :
      Received s packet command ⟨.success, some .ack,
        { s with pktSentNum := 0, pktReceiveNum := 0 }⟩

theorem uFrameRecv_received {packet : UnstuffedAx25IFrame} (h : packet.Accepted) (s : LinkState)
    (command : Option UFrameCmd) :
    ∃ result, uFrameRecv s packet command = .ok result ∧ Received s packet command result := by
  rw [uFrameRecv_eq]
  refine ⟨_, rfl, ?_⟩
  split_ifs with hsabm hdisc hother hack hother
  · exact .sabm h hsabm
  · exact .disc h hdisc hother
  · exact .ignored .invalidTnc fun _ => by decide
  · exact .ack h hack hother
  · exact .ignored .invalidTnc fun _ => by decide
  · exact .ignored .invalidAx25Packet fun _ => by decide

/-- `ax25Recv` always returns, with one of these results. -/
theorem ax25Recv_received (s : LinkState) (packet : UnstuffedAx25IFrame)
    (command : Option UFrameCmd) :
    ∃ result, ax25Recv s (some packet) command = .ok result ∧
      Received s packet command result := by
  by_cases haccepted : packet.Accepted
  · rw [ax25Recv_of_accepted haccepted, dispatch]
    split_ifs with hone htwo
    · have hunknown : packet.uControl ∉ uFrameControls := fun hknown => (isUFrame hknown).1 hone
      rw [iFrameRecv_eq]
      refine ⟨_, rfl, ?_⟩
      split_ifs
      · exact .ignored .invalidTnc fun _ => by decide
      · exact .ignored .invalidAx25Packet fun _ => by decide
      · exact .iFrame haccepted hunknown
    · exact uFrameRecv_received haccepted s command
    · obtain ⟨err, hrun⟩ := sFrameRecv_eq s packet command
      exact ⟨_, hrun, .ignored err fun hknown =>
        absurd (isUFrame hknown).2 htwo⟩
  · obtain ⟨err, hrun, herr⟩ := ax25Recv_of_not_accepted haccepted s command
    exact ⟨_, hrun, .ignored err fun _ => herr⟩

/-- A valid packet with a known control byte is handled by `uFrameRecv`. -/
theorem ax25Recv_of_uFrame {packet : UnstuffedAx25IFrame} (h : packet.Accepted)
    (hknown : packet.uControl ∈ uFrameControls) (s : LinkState) (command : Option UFrameCmd) :
    ax25Recv s (some packet) command = uFrameRecv s packet command := by
  rw [ax25Recv_of_accepted h, dispatch, if_neg (isUFrame hknown).1, if_pos (isUFrame hknown).2]

end ObcGsInterface
