import ObcGsInterface.Library.Loop
import ObcGsInterface.Model.Ax25.Layout
import Mathlib.Algebra.Group.Nat.Defs
import Mathlib.Data.Int.Notation

/-! # Bit stuffing of packets

`ax25Stuff` and `ax25Unstuff` of `obc_gs_ax25.c`. Both OR single bits into their output
buffer, and both count bits in `uint16_t` variables. -/

namespace ObcGsInterface

open CArray Loop

/-- `data[i] |= value`. -/
def orInto {n : ℕ} (data : Block Byte n) (i : ℕ) (value : Byte) : Except Fault (Block Byte n) := do
  let old ← load data.cells i
  data.store i (old ||| value)

/-! ## Stuffing -/

/-- The variables of the loop of `ax25Stuff`. -/
structure StuffState (n : ℕ) where
  rawOffset : ℕ
  stuffedOffset : ℕ
  oneCount : ℕ
  stuffedData : Block Byte n
  deriving DecidableEq, Repr

/-- The condition of the loop; its right side is an `int`. -/
def stuffGuard {n : ℕ} (rawDataLen : ℕ) (s : StuffState n) : Except Fault Bool :=
  .ok (decide ((s.rawOffset : ℤ) < ((rawDataLen : ℤ) - 1) * 8))

/-- The body and the increment of the loop. -/
def stuffBody {n : ℕ} (rawData : List Byte) (s : StuffState n) : Except Fault (StuffState n) := do
  let byte ← load rawData (s.rawOffset / 8)
  let currentBit := (byte >>> (7 - s.rawOffset % 8)) &&& 1
  let stuffedData ←
    orInto s.stuffedData (s.stuffedOffset / 8) (currentBit <<< (7 - s.stuffedOffset % 8))
  let rawOffset := (s.rawOffset + 1) % 2 ^ 16
  let stuffedOffset := (s.stuffedOffset + 1) % 2 ^ 16
  if currentBit = 1 then
    let oneCount := (s.oneCount + 1) % 2 ^ 16
    if oneCount = 5 then
      let stuffedData ← orInto stuffedData (stuffedOffset / 8) 0
      return ⟨rawOffset, (stuffedOffset + 1) % 2 ^ 16, 0, stuffedData⟩
    else return ⟨rawOffset, stuffedOffset, oneCount, stuffedData⟩
  else return ⟨rawOffset, stuffedOffset, 0, stuffedData⟩

/-- What `ax25Stuff` returns and leaves in its output arguments. -/
structure StuffResult (n : ℕ) where
  err : ErrorCode
  stuffedData : Block Byte n
  stuffedDataLen : ℕ
  deriving DecidableEq, Repr

/-- `ax25Stuff` on pointers that are not `NULL`. Its 16-bit offset takes fewer than `2 ^ 16`
values, so the loop ends within that many rounds or never. -/
def ax25Stuff {n : ℕ} (rawData : List Byte) (rawDataLen : ℕ) (stuffedData : Block Byte n) :
    Except Fault (StuffResult n) := do
  let s ← whileLoop (stuffGuard rawDataLen) (stuffBody rawData) (2 ^ 16) ⟨8, 8, 0, stuffedData⟩
  let stuffedDataLen := (s.stuffedOffset + 7) / 8 + 1
  let stuffedData ← s.stuffedData.store 0 ax25Flag
  let stuffedData ← stuffedData.store (stuffedDataLen - 1) ax25Flag
  return ⟨.success, stuffedData, stuffedDataLen⟩

/-! ## Unstuffing -/

/-- The variables of the loops of `ax25Unstuff`. -/
structure UnstuffState (n : ℕ) where
  bitCount : ℕ
  stuffingFlag : Bool
  unstuffedBitLength : ℕ
  unstuffedPacket : Block Byte n
  deriving DecidableEq, Repr

/-- The body of the inner loop of `ax25Unstuff`. -/
def unstuffBit {n : ℕ} (currentByte : Byte) (s : UnstuffState n) (offset : ℕ) :
    Except Fault (UnstuffState n) := do
  let bit := (currentByte >>> (7 - offset)) &&& 1
  if s.stuffingFlag then
    return { s with bitCount := 0, stuffingFlag := false }
  let (bitCount, stuffingFlag) :=
    if bit = 1 then
      let bitCount := (s.bitCount + 1) % 2 ^ 8
      if bitCount = 5 then (0, true) else (bitCount, s.stuffingFlag)
    else (0, s.stuffingFlag)
  let unstuffedPacket ←
    orInto s.unstuffedPacket (s.unstuffedBitLength / 8) (bit <<< (7 - s.unstuffedBitLength % 8))
  return ⟨bitCount, stuffingFlag, (s.unstuffedBitLength + 1) % 2 ^ 16, unstuffedPacket⟩

/-- The body of the outer loop of `ax25Unstuff`. -/
def unstuffByte {n : ℕ} (packet : List Byte) (s : UnstuffState n) (stuffedPacketIndex : ℕ) :
    Except Fault (UnstuffState n) := do
  let currentByte ← load packet stuffedPacketIndex
  (List.range 8).foldlM (unstuffBit currentByte) s

/-- The condition of the loop that counts trailing zero bytes; its left part is read first. -/
def tailGuard {n : ℕ} (unstuffedPacket : Block Byte n) (unstuffedBitLength tailBytes : ℕ) :
    Except Fault Bool := do
  if unstuffedBitLength / 8 < tailBytes then
    throw .outOfBounds
  let byte ← load unstuffedPacket.cells (unstuffedBitLength / 8 - tailBytes)
  return byte = 0 && decide (tailBytes < ax25InfoBytes)

/-- What `ax25Unstuff` returns and leaves in its output arguments. -/
structure UnstuffResult (n : ℕ) where
  err : ErrorCode
  unstuffedPacket : Block Byte n
  unstuffedPacketLen : ℕ
  deriving DecidableEq, Repr

/-- The two bit loops of `ax25Unstuff`. -/
def unstuffBits {n : ℕ} (packet : List Byte) (packetLen : ℕ) (unstuffedPacket : Block Byte n) :
    Except Fault (UnstuffState n) := do
  let unstuffedPacket ← unstuffedPacket.store 0 ax25Flag
  (List.range' 1 (packetLen - 2)).foldlM (unstuffByte packet) ⟨0, false, 8, unstuffedPacket⟩

/-- `ax25Unstuff`. -/
def ax25Unstuff {n : ℕ} (packet : List Byte) (packetLen : ℕ) (unstuffedPacket : Block Byte n) :
    Except Fault (UnstuffResult n) := do
  let s ← unstuffBits packet packetLen unstuffedPacket
  let tailBytes ← whileLoop (tailGuard s.unstuffedPacket s.unstuffedBitLength)
    (fun tailBytes => .ok (tailBytes + 1)) (2 ^ 8) 0
  if tailBytes = 0 then
    let unstuffedPacket ← s.unstuffedPacket.store ((s.unstuffedBitLength + 7) / 8) ax25Flag
    return ⟨.success, unstuffedPacket, (s.unstuffedBitLength + 7) / 8 + 1⟩
  else
    let unstuffedPacket ←
      s.unstuffedPacket.store (s.unstuffedBitLength / 8 + 1 - tailBytes) ax25Flag
    return ⟨.success, unstuffedPacket, s.unstuffedBitLength / 8 + 2 - tailBytes⟩

end ObcGsInterface
