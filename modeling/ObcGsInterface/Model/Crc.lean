import ObcGsInterface.Library.ShiftRegister
import ObcGsInterface.Model.Errors

/-! # Checksums

`obc_gs_crc.c`, and `crc_hqx` of the Python module `binascii`. -/

namespace ObcGsInterface

open CArray

/-- The body of the loop of `calculateCrc16Ccitt`. -/
def crc16Ccitt (crc : BitVec 16) (byte : Byte) : BitVec 16 :=
  let crc := ((crc >>> 8).setWidth 8).setWidth 16 ||| (crc <<< 8)
  let crc := crc ^^^ byte.setWidth 16
  let crc := crc ^^^ (((crc &&& 0xFF).setWidth 8 : Byte) >>> 4).setWidth 16
  let crc := crc ^^^ (crc <<< 12)
  crc ^^^ ((crc &&& 0x00FF) <<< 5)

/-- `calculateCrc16Ccitt`. -/
def calculateCrc16Ccitt (data : List Byte) (dataLen : ℕ) : Except Fault (BitVec 16) :=
  (List.range dataLen).foldlM (fun crc i => do return crc16Ccitt crc (← load data i)) 0

/-- The body of the loop over `k` in `crc32`. -/
def crc32Shift (crc : BitVec 32) : BitVec 32 :=
  if crc &&& 1 ≠ 0 then (crc >>> 1) ^^^ 0xedb88320 else crc >>> 1

/-- The body of the loop of `crc32`. -/
def crc32Byte (crc : BitVec 32) (byte : Byte) : BitVec 32 :=
  crc32Shift^[8] (crc ^^^ byte.setWidth 32)

/-- `crc32`. -/
def crc32 (crc : BitVec 32) (data : List Byte) (dataLen : ℕ) : Except Fault (BitVec 32) := do
  let crc := ~~~crc
  let crc ← (List.range dataLen).foldlM
    (fun crc i => do return crc32Byte crc (← load data i)) crc
  return ~~~crc

/-- `crc_hqx`: the polynomial is `x ^ 16 + x ^ 12 + x ^ 5 + 1`. -/
def crcHqx (data : List Byte) (value : BitVec 16) : BitVec 16 :=
  data.foldl (ShiftRegister.shiftByte 0x1021) value

end ObcGsInterface
