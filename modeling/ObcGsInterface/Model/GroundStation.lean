import ObcGsInterface.Library.BitStream
import ObcGsInterface.Model.Aes
import ObcGsInterface.Model.Ax25.Layout
import ObcGsInterface.Model.Crc
import ObcGsInterface.Model.ReedSolomon
import Mathlib.Data.List.DropRight
import Mathlib.Data.Nat.Bits

/-! # The pipeline of the ground station

The Python classes `AES128`, `FEC`, `AX25` and `CommsPipeline`. What they take from other
packages is a parameter: the cipher of `tinyaes`, the stuffing and unstuffing of `pyStuffing`,
packing and unpacking the frames of `ax25`, and the Reed-Solomon decoder. -/

namespace ObcGsInterface

open CArray BitStream

/-! ## `FEC` -/

/-- `FEC.encode`, with the static pointer that `FEC.__init__` leaves. -/
def fecEncode (rs : RsHandle) (dataToEncode : List Byte) : Except PyError (List Byte) := do
  if dataToEncode.length > rsDecodedDataSize then
    throw (.valueError "Data to Encode is too long")
  let encodeData ← ctypesArray rsDecodedDataSize dataToEncode
  let rsData ← ctypesArray rsEncodedDataSize []
  let (result, rsData) ← callC (rsEncode rs (some encodeData.cells) (some rsData))
  if result.value ≠ 0 then
    throw (.valueError ("Could not encode object. OBC GS Error Code: " ++ toString result.value))
  return (rsData.map Block.cells).getD []

/-- `FEC.decode`. It puts the parity bytes behind the message as they were received. -/
def fecDecode (decoder : RsDecoder) (rs : RsHandle) (dataToDecode : List Byte) :
    Except PyError (List Byte) := do
  if dataToDecode.length > rsEncodedDataSize then
    throw (.valueError "Data to Decode is too long")
  let rsInfo := dataToDecode.drop (dataToDecode.length - 32)
  let rsData ← ctypesArray rsEncodedSize dataToDecode
  let decodedData ← ctypesArray rsDecodedDataSize []
  let (result, decodedData) ←
    callC (rsDecode decoder rs (some rsData) (some decodedData) rsDecodedDataSize)
  if result.value ≠ 0 then
    throw (.valueError ("Could not decode object. OBC GS Error Code: " ++ toString result.value))
  return (decodedData.map Block.cells).getD [] ++ rsInfo

/-! ## `AX25` -/

/-- `AX25_NON_INFO_BYTES`. -/
def ax25NonInfoBytes : ℕ := 18

/-- `INFO_FIELD_START_POSITION`. -/
def infoFieldStartPosition : ℕ := 17

/-- `INFO_FIELD_END_POSITION`. -/
def infoFieldEndPosition : ℕ := 271

/-- `AX25._CRC_LENGTH_BITS`. -/
def crcLengthBits : ℕ := 16

/-- The digits of `bin(value)` behind the `0b`. -/
def binDigits (value : ℕ) : List Bool := if value = 0 then [false] else value.bits.reverse

/-- `int(digits, 2)`. -/
def intBase2 (digits : List Bool) : ℕ := (BitVec.ofBoolListBE digits).toNat

/-- `int.from_bytes(data, byteorder="big", signed=False)`. -/
def intFromBytes (data : List Byte) : ℕ := data.foldl (fun value byte => 256 * value + byte.toNat) 0

/-- `value.to_bytes(length, "big")`. -/
def toBytesBig (value length : ℕ) : Except PyError (List Byte) :=
  if value < 256 ^ length then
    .ok ((List.range length).map fun i => BitVec.ofNat 8 (value / 256 ^ (length - 1 - i)))
  else .error .overflowError

/-- `AX25._bytes_to_int_list`. -/
def bytesToIntList (data : List Byte) : List Bool := bits data

/-- `AX25._int_list_to_bytes`. Between one and eight zeros are added. -/
def intListToBytes (data : List Bool) : List Byte :=
  let res := data ++ List.replicate (8 - data.length % 8) false
  (List.range (res.length / 8)).map fun i => BitVec.ofNat 8 (intBase2 ((res.drop (8 * i)).take 8))

/-- The checksum of a frame as a number: its 16 bits in reverse order. -/
def reversedCrc (data : List Byte) : ℕ :=
  let reverse := (binDigits (crcHqx data 0).toNat).reverse
  intBase2 (reverse ++ List.replicate (crcLengthBits - reverse.length) false)

/-- `AX25._DEFAULT_SSID`. -/
def pyDefaultSsid : ℕ := 0

/-- `Address` of the package `ax25`. -/
structure PyAddress where
  call : String
  ssid : ℕ
  deriving DecidableEq, Repr

/-- `Control` of the package, with its `FrameType`. -/
structure PyControl (FrameType : Type) where
  frameType : FrameType
  pollFinal : Bool
  sendSeqno : ℕ
  deriving DecidableEq, Repr

/-- `Frame` of the package as `AX25` makes it, without digipeaters. -/
structure PyFrame (FrameType : Type) where
  dst : PyAddress
  src : PyAddress
  control : PyControl FrameType
  pid : ℕ
  data : Option (List Byte)
  deriving DecidableEq, Repr

/-- An object of the class `AX25`. -/
structure Ax25 where
  srcCallsign : String
  dstCallsign : String
  deriving DecidableEq, Repr

/-- `AX25.encode_frame`. -/
def Ax25.encodeFrame {FrameType : Type} (pack : PyFrame FrameType → Except PyError (List Byte))
    (self : Ax25) (dataToSend : Option (List Byte)) (frameType : FrameType) (sequenceNumber : ℕ)
    (poll : Bool) : Except PyError (List Byte) := do
  let controlBlock : PyControl FrameType := ⟨frameType, poll, sequenceNumber⟩
  let srcAddress : PyAddress := ⟨self.srcCallsign, pyDefaultSsid⟩
  let dstAddress : PyAddress := ⟨self.dstCallsign, pyDefaultSsid⟩
  let frameBytes ← pack ⟨dstAddress, srcAddress, controlBlock, 0, dataToSend⟩
  let fcs ← toBytesBig (reversedCrc frameBytes) (crcLengthBits / 8)
  let frameBytes := frameBytes ++ fcs
  return [ax25Flag] ++ frameBytes ++ [ax25Flag]

section Packages

variable {Frame : Type} (startStuffing startUnstuffing : List Bool → List Bool)
  (unpack : List Byte → Except PyError Frame)

/-- `AX25.decode_frame`. -/
def Ax25.decodeFrame (inputData : List Byte) : Except PyError Frame := do
  let data := inputData.dropLast.drop 1
  let fcsOriginal := intFromBytes (data.drop (data.length - 2))
  let data := data.take (data.length - 2)
  if fcsOriginal ≠ reversedCrc data then
    throw (.valueError "Check sums do not match")
  unpack data

/-- `data.rstrip(b"\x00")`. -/
def rstrip (data : List Byte) : List Byte := data.rdropWhile (· = 0)

/-- `AX25.stuff`. -/
def Ax25.stuff (inputData : List Byte) : List Byte :=
  let dataStripped := inputData.dropLast.drop 1
  let dataBytes := rstrip (intListToBytes (startStuffing (bytesToIntList dataStripped)))
  ax25Flag :: (dataBytes ++ [ax25Flag])

/-- `AX25.unstuff`. -/
def Ax25.unstuff (inputData : List Byte) : Except PyError (List Byte) := do
  let data := inputData.dropLast.drop 1
  let data := intListToBytes (startUnstuffing (bytesToIntList data))
  match data.getLast? with
  | none => throw .indexError
  | some last =>
      let data :=
        if (last = 0 ∧ data.length > rsEncodedDataSize + ax25NonInfoBytes) ∨
            (last = 0 ∧ data.length < rsEncodedDataSize) then data.dropLast
        else data
      return ax25Flag :: (data ++ [ax25Flag])

/-! ## `CommsPipeline` -/

/-- The payload stages of `CommsPipeline.encode_frame`: `AES128.encrypt`, then `FEC.encode`. -/
def encodePayload (ctrXcryptBuffer : AesBlock → AesBlock → List Byte → List Byte) (rs : RsHandle)
    (aesKey aesIv : AesBlock) (data : List Byte) : Except PyError (List Byte) := do
  if data.length > rsDecodedDataSize then
    throw (.valueError ("Invalid Argument: Data to encode is too long, must <= " ++
      toString rsDecodedDataSize ++ " bytes"))
  let encryptedData := ctrXcryptBuffer aesKey aesIv data
  fecEncode rs encryptedData

/-- `CommsPipeline.decode_frame`. -/
def CommsPipeline.decodeFrame (decoder : RsDecoder) (rs : RsHandle) (data : List Byte) :
    Except PyError (Option Frame) := do
  if data.length = 0 then
    return none
  else if data.length > rsEncodedDataSize then
    let dataUnstuffed ← Ax25.unstuff startUnstuffing data
    let fecData ← fecDecode decoder rs
      ((dataUnstuffed.take (infoFieldEndPosition + 1)).drop infoFieldStartPosition)
    let decodedData := dataUnstuffed.take infoFieldStartPosition ++ fecData ++
      dataUnstuffed.drop (infoFieldEndPosition + 1)
    return some (← Ax25.decodeFrame unpack decodedData)
  else
    return some (← Ax25.decodeFrame unpack data)

end Packages

/-- `CommsPipeline.encode_frame`. No data stands for a control frame. -/
def CommsPipeline.encodeFrame {FrameType : Type} (startStuffing : List Bool → List Bool)
    (ctrXcryptBuffer : AesBlock → AesBlock → List Byte → List Byte)
    (pack : PyFrame FrameType → Except PyError (List Byte)) (sabm iFrame : FrameType)
    (self : Ax25) (rs : RsHandle) (aesKey aesIv : AesBlock) (data : Option (List Byte)) :
    Except PyError (List Byte) := do
  let sendFrame ← match data with
    | none => self.encodeFrame pack none sabm 0 true
    | some data => do
        let encodeData ← encodePayload ctrXcryptBuffer rs aesKey aesIv data
        self.encodeFrame pack (some encodeData) iFrame 0 false
  return Ax25.stuff startStuffing sendFrame

end ObcGsInterface
