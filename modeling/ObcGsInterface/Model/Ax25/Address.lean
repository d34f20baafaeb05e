import ObcGsInterface.Model.Ax25.Layout
import ObcGsInterface.Model.Crc

/-! # Addresses and check sequences

The address encoders and the frame check sequence of `obc_gs_ax25.c`. -/

namespace ObcGsInterface

open CArray

/-! ## Addresses -/

/-- `ax25_addr_t`. -/
structure Ax25Addr where
  data : Block Byte ax25DestAddrBytes
  length : ℕ
  deriving DecidableEq, Repr

/-- An address initialised with `{0}`. -/
def Ax25Addr.zero : Ax25Addr := ⟨Block.fill ax25DestAddrBytes 0, 0⟩

/-- The common part of `ax25GetDestAddress` and `ax25GetSourceAddress`; `endFlag` is what the
latter ORs into the last byte. The address to fill in is never `NULL`. -/
def encodeAddress (addressBytes : ℕ) (endFlag : Byte) (address : Ax25Addr)
    (callSign : Option (List Byte)) (callSignLength : ℕ) (ssid controlBit : Byte) :
    Except Fault (ErrorCode × Ax25Addr) :=
  match callSign with
  | none => .ok (.invalidArg, address)
  | some callSign =>
      if ssid.toNat > 16 then .ok (.invalidArg, address)
      else if controlBit.toNat > 2 then .ok (.invalidArg, address)
      else if callSignLength > callSignBytes then .ok (.invalidArg, address)
      else do
        let data ← (List.range callSignLength).foldlM
          (fun data i => do data.store i ((← load callSign i) <<< 1)) address.data
        let data ← (List.range' callSignLength (callSignBytes - callSignLength)).foldlM
          (fun data i => data.store i ax25AddressSpaceByte) data
        let data ← data.store (addressBytes - 1)
          (((ssid <<< 1) ||| ax25AddressReserveBitMask) ||| (controlBit <<< 7) ||| endFlag)
        return (.success, ⟨data, addressBytes⟩)

/-- `ax25GetDestAddress`. -/
def ax25GetDestAddress : Ax25Addr → Option (List Byte) → ℕ → Byte → Byte →
    Except Fault (ErrorCode × Ax25Addr) :=
  encodeAddress ax25DestAddrBytes 0

/-- `ax25GetSourceAddress`. -/
def ax25GetSourceAddress : Ax25Addr → Option (List Byte) → ℕ → Byte → Byte →
    Except Fault (ErrorCode × Ax25Addr) :=
  encodeAddress ax25SrcAddrBytes ax25AddressEndFlag

/-! ## Frame check sequences -/

/-- `reverseUint16`. -/
def reverseUint16 (numToReverse : BitVec 16) : BitVec 16 :=
  (List.range 16).foldl
    (fun reverseNum i =>
      if numToReverse &&& ((1 : BitVec 16) <<< i) ≠ 0 then
        reverseNum ||| ((1 : BitVec 16) <<< (15 - i))
      else reverseNum) 0

/-- The number of bytes under the checksum of a frame; the subtraction is a `uint16_t`. -/
def fcsLength (dataLen : ℕ) : ℕ :=
  (dataLen + 2 ^ 16 - ax25FcsBytes - ax25TotalFlagBytes) % 2 ^ 16

/-- `fcsCalculate`. -/
def fcsCalculate (data : List Byte) (dataLen : ℕ) : Except Fault (BitVec 16) := do
  let calculatedFcs ← calculateCrc16Ccitt data (fcsLength dataLen)
  return reverseUint16 calculatedFcs

/-- `fcsCheck`. -/
def fcsCheck (data : List Byte) (dataLen : ℕ) (fcs : BitVec 16) : Except Fault ErrorCode := do
  let calculatedFcs ← calculateCrc16Ccitt data (fcsLength dataLen)
  return if reverseUint16 fcs ≠ calculatedFcs then .corruptedAx25Msg else .success

end ObcGsInterface
