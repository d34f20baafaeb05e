import ObcGsInterface.Model.Errors

/-! # The layout of frames

The constants of `obc_gs_ax25.h`. Sizes and positions are sums of one another there, some
for frames with one control byte (mod 8) and some for frames with two (mod 128). -/

namespace ObcGsInterface

/-- `AX25_FLAG`. -/
def ax25Flag : Byte := 0x7E

/-- `AX25_PID`. -/
def ax25Pid : Byte := 0xF0

/-! ## Sizes -/

def ax25StartFlagBytes : ℕ := 1

def ax25EndFlagBytes : ℕ := 1

def ax25TotalFlagBytes : ℕ := 2

def ax25ShareFlagBytes : ℕ := 1

def ax25SrcAddrBytes : ℕ := 7

def ax25DestAddrBytes : ℕ := 7

def ax25AddressBytes : ℕ := ax25SrcAddrBytes + ax25DestAddrBytes

def ax25Mod128ControlBytes : ℕ := 2

def ax25Mod8ControlBytes : ℕ := 1

def ax25PidBytes : ℕ := 1

def ax25FcsBytes : ℕ := 2

def ax25InfoBytes : ℕ := 255

def ax25MinimumIFrameLenShareFlag : ℕ :=
  ax25ShareFlagBytes + ax25AddressBytes + ax25Mod128ControlBytes + ax25PidBytes + ax25FcsBytes +
    ax25InfoBytes

def ax25MinimumIFrameLen : ℕ :=
  ax25TotalFlagBytes + ax25AddressBytes + ax25Mod8ControlBytes + ax25PidBytes + ax25FcsBytes +
    ax25InfoBytes

def ax25MaximumPktLen : ℕ := ax25MinimumIFrameLen * 6 / 5

def ax25MinimumUFrameCmdLength : ℕ :=
  ax25TotalFlagBytes + ax25AddressBytes + ax25Mod8ControlBytes + ax25FcsBytes

def ax25MaximumUFrameCmdLength : ℕ :=
  ax25MinimumUFrameCmdLength + (ax25AddressBytes + ax25Mod8ControlBytes) * 6 / 5

/-! ## Positions -/

def ax25DestAddrPosition : ℕ := ax25StartFlagBytes

def ax25SrcAddrPosition : ℕ := ax25DestAddrPosition + ax25DestAddrBytes

def ax25ControlBytesPosition : ℕ := ax25SrcAddrPosition + ax25SrcAddrBytes

def ax25Mod8PidPosition : ℕ := ax25ControlBytesPosition + ax25Mod8ControlBytes

def ax25Mod128PidPosition : ℕ := ax25ControlBytesPosition + ax25Mod128ControlBytes

def ax25InfoFieldPosition : ℕ := ax25Mod8PidPosition + ax25PidBytes

def ax25IFrameFcsPosition : ℕ := ax25InfoFieldPosition + ax25InfoBytes

def ax25UFrameFcsPosition : ℕ := ax25Mod8PidPosition

/-! ## Control fields -/

def ax25SFrameRrControl : Byte := 0x01

def ax25SFrameRnrControl : Byte := 0x05

def ax25SFrameRejControl : Byte := 0x09

def ax25SFrameSrejControl : Byte := 0x0D

def ax25UFrameSabmCmdControl : Byte := 0b00101111

def ax25UFrameDiscCmdControl : Byte := 0b01000011

def ax25UFrameAckCmdControl : Byte := 0b01100011

def pollFinalBitOffset : ℕ := 4

def pollFinalBitMask : Byte := (0x01 : Byte) <<< pollFinalBitOffset

def maxUFrameCmdValue : ℕ := 3

/-- `MAX_CONTINUOUS_PACKETS_ALLOWED`. -/
def maxContinuousPacketsAllowed : ℕ := 7

/-! ## Addresses -/

def callSignBytes : ℕ := 6

/-- `"AKITO"`. -/
def cubeSatCallsign : List Byte := [0x41, 0x4B, 0x49, 0x54, 0x4F]

/-- `"ATLAS"`. -/
def groundStationCallsign : List Byte := [0x41, 0x54, 0x4C, 0x41, 0x53]

def callsignLength : ℕ := 5

def defaultSsid : Byte := 0

def defaultControlBit : Byte := 0

def ax25AddressSpaceByte : Byte := 0x40

def ax25AddressReserveBitMask : Byte := 0b01100000

def ax25AddressEndFlag : Byte := 0x01

end ObcGsInterface
