import ObcGsInterface.Model.Errors

/-! # Big-endian packing

`data_pack_utils.c` and `data_unpack_utils.c`. The offset is a `uint32_t`, and so is
every index computed from it. -/

namespace ObcGsInterface

open CArray

/-- A position in a buffer, held in a `uint32_t`. -/
abbrev Offset := BitVec 32

/-- `packUint8`. -/
def packUint8 (value : BitVec 8) (buffer : List Byte) (offset : Offset) :
    Except Fault (List Byte × Offset) := do
  let buffer ← store buffer offset.toNat value
  return (buffer, offset + 1)

/-- `packUint16`. -/
def packUint16 (value : BitVec 16) (buffer : List Byte) (offset : Offset) :
    Except Fault (List Byte × Offset) := do
  let buffer ← store buffer offset.toNat ((value >>> 8).setWidth 8)
  let buffer ← store buffer (offset + 1).toNat (value.setWidth 8)
  return (buffer, offset + 2)

/-- `packUint32`. -/
def packUint32 (value : BitVec 32) (buffer : List Byte) (offset : Offset) :
    Except Fault (List Byte × Offset) := do
  let buffer ← store buffer offset.toNat ((value >>> 24).setWidth 8)
  let buffer ← store buffer (offset + 1).toNat ((value >>> 16).setWidth 8)
  let buffer ← store buffer (offset + 2).toNat ((value >>> 8).setWidth 8)
  let buffer ← store buffer (offset + 3).toNat (value.setWidth 8)
  return (buffer, offset + 4)

/-- `packFloat`. A `float` is its bit pattern. -/
def packFloat (value : BitVec 32) (buffer : List Byte) (offset : Offset) :
    Except Fault (List Byte × Offset) :=
  packUint32 value buffer offset

/-- `unpackUint8`. -/
def unpackUint8 (buffer : List Byte) (offset : Offset) : Except Fault (BitVec 8 × Offset) := do
  let value ← load buffer offset.toNat
  return (value, offset + 1)

/-- `unpackUint16`. -/
def unpackUint16 (buffer : List Byte) (offset : Offset) : Except Fault (BitVec 16 × Offset) := do
  let b0 ← load buffer offset.toNat
  let b1 ← load buffer (offset + 1).toNat
  return ((b0.setWidth 16 <<< 8) ||| b1.setWidth 16, offset + 2)

/-- `unpackUint32`. -/
def unpackUint32 (buffer : List Byte) (offset : Offset) : Except Fault (BitVec 32 × Offset) := do
  let b0 ← load buffer offset.toNat
  let b1 ← load buffer (offset + 1).toNat
  let b2 ← load buffer (offset + 2).toNat
  let b3 ← load buffer (offset + 3).toNat
  return ((b0.setWidth 32 <<< 24) ||| (b1.setWidth 32 <<< 16) ||| (b2.setWidth 32 <<< 8) |||
    b3.setWidth 32, offset + 4)

/-- `unpackFloat`. -/
def unpackFloat (buffer : List Byte) (offset : Offset) : Except Fault (BitVec 32 × Offset) :=
  unpackUint32 buffer offset

end ObcGsInterface
