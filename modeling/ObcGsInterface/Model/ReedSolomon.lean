import ObcGsInterface.Model.Errors
import Mathlib.Data.Int.Notation

/-! # Forward error correction

The encoder of the vendored `libcorrect` and `obc_gs_fec.c`. The coefficients of a
polynomial stand in a list from low order to high, one more than the order. -/

namespace ObcGsInterface

open CArray

/-! ## The field -/

/-- `field_t`. -/
structure RsField where
  exp : List Byte
  log : List Byte
  deriving DecidableEq, Repr

/-- The body of the loop of `field_create`; `element` is a `field_operation_t`. -/
def fieldCreateStep (primitivePoly : BitVec 16) (s : BitVec 16 × RsField) (i : ℕ) :
    BitVec 16 × RsField :=
  let element := s.1 * 2
  let element := if element.toNat > 255 then element ^^^ primitivePoly else element
  let exp := s.2.exp.set i (element.setWidth 8)
  let log := if i < 256 then s.2.log.set element.toNat (BitVec.ofNat 8 i) else s.2.log
  (element, ⟨exp, log⟩)

/-- `field_create`. -/
def fieldCreate (primitivePoly : BitVec 16) : RsField :=
  ((List.range' 1 511).foldl (fieldCreateStep primitivePoly)
    (1, ⟨(List.replicate 512 0).set 0 1, List.replicate 256 0⟩)).2

namespace RsField

variable (field : RsField)

/-- `field.exp[i]`. -/
def expAt (i : ℕ) : Byte := field.exp.getD i 0

/-- `field.log[element]`. -/
def logAt (element : Byte) : Byte := field.log.getD element.toNat 0

/-- `field_add`. -/
def add (_field : RsField) (l r : Byte) : Byte := l ^^^ r

/-- `field_mul`. -/
def mul (l r : Byte) : Byte :=
  if l = 0 ∨ r = 0 then 0 else field.expAt ((field.logAt l).toNat + (field.logAt r).toNat)

/-- `field_div_log`. -/
def divLog (_field : RsField) (l r : Byte) : Byte :=
  let res := 255 + l.toNat - r.toNat
  if res > 255 then BitVec.ofNat 8 (res - 255) else BitVec.ofNat 8 res

/-- `field_mul_log_element`. -/
def mulLogElement (l r : Byte) : Byte := field.expAt (l.toNat + r.toNat)

end RsField

/-! ## Polynomials -/

/-- `polynomial_mul` into a polynomial of the given order. -/
def polynomialMul (field : RsField) (l r : List Byte) (order : ℕ) : List Byte :=
  (List.range l.length).foldl (fun res i =>
    if i > order then res
    else
      let jLimit := if r.length - 1 > order - i then order - i else r.length - 1
      (List.range (jLimit + 1)).foldl (fun res j =>
        res.set (i + j)
          (field.add (res.getD (i + j) 0) (field.mul (l.getD i 0) (r.getD j 0)))) res)
    (List.replicate (order + 1) 0)

/-- `polynomial_create_from_roots`. -/
def polynomialCreateFromRoots (field : RsField) (roots : List Byte) : List Byte :=
  (List.range' 1 (roots.length - 1)).foldl
    (fun r i => polynomialMul field [roots.getD i 0, 1] r (i + 1)) [roots.getD 0 0, 1]

/-- One round of the long division of `polynomial_mod`, at the coefficient `i`. The loop
ends at the first `i` below the order of the divisor, so the rounds after it do nothing. -/
def polynomialModStep (field : RsField) (divisor mod : List Byte) (i : ℕ) : List Byte :=
  let divisorOrder := divisor.length - 1
  if i < divisorOrder then mod
  else if mod.getD i 0 = 0 then mod
  else
    let qOrder := i - divisorOrder
    let qCoeff := field.divLog (field.logAt (mod.getD i 0))
      (field.logAt (divisor.getD divisorOrder 0))
    (List.range (divisorOrder + 1)).foldl (fun mod j =>
      if divisor.getD j 0 = 0 then mod
      else
        mod.set (j + qOrder) (field.add (mod.getD (j + qOrder) 0)
          (field.mulLogElement (field.logAt (divisor.getD j 0)) qCoeff))) mod

/-- `polynomial_mod`, where `mod` has the order of the dividend. -/
def polynomialMod (field : RsField) (dividend divisor : List Byte) : List Byte :=
  (List.range' 1 (dividend.length - 1)).reverse.foldl (polynomialModStep field divisor) dividend

/-! ## The encoder -/

/-- `correct_reed_solomon`. -/
structure ReedSolomon where
  blockLength : ℕ
  messageLength : ℕ
  minDistance : ℕ
  field : RsField
  generator : List Byte
  deriving DecidableEq, Repr

/-- `correct_reed_solomon_create`. -/
def correctReedSolomonCreate (primitivePolynomial : BitVec 16)
    (firstConsecutiveRoot generatorRootGap numRoots : ℕ) : ReedSolomon :=
  let field := fieldCreate primitivePolynomial
  let roots := (List.range numRoots).map fun i =>
    field.expAt (generatorRootGap * (i + firstConsecutiveRoot) % 255)
  { blockLength := 255
    messageLength := 255 - numRoots
    minDistance := numRoots
    field
    generator := polynomialCreateFromRoots field roots }

namespace ReedSolomon

/-- `encoded_polynomial` for a message: the message in reverse order, between zeros. -/
def encodedPolynomial (rs : ReedSolomon) (msg : List Byte) : List Byte :=
  List.replicate (rs.blockLength - rs.messageLength) 0 ++ msg.reverse ++
    List.replicate (rs.messageLength - msg.length) 0

/-- The bytes that the encoder puts behind a message. -/
def parity (rs : ReedSolomon) (msg : List Byte) : List Byte :=
  let encodedRemainder := polynomialMod rs.field (rs.encodedPolynomial msg) rs.generator
  (List.range rs.minDistance).map fun i => encodedRemainder.getD (rs.minDistance - (i + 1)) 0

end ReedSolomon

/-- `correct_reed_solomon_encode`: its result and the buffer. -/
def correctReedSolomonEncode {n : ℕ} (rs : ReedSolomon) (msg : List Byte) (msgLength : ℕ)
    (encoded : Block Byte n) : Except Fault (ℤ × Block Byte n) := do
  if msgLength > rs.messageLength then
    return (-1, encoded)
  if msg.length < msgLength then
    throw .outOfBounds
  let msg := msg.take msgLength
  let encoded ← encoded.memcpy 0 msg msgLength
  let encoded ← encoded.memcpy msgLength (rs.parity msg) rs.minDistance
  return (rs.blockLength, encoded)

/-! ## `obc_gs_fec.c` -/

/-- `RS_DECODED_SIZE`. -/
def rsDecodedSize : ℕ := 223

/-- `RS_ENCODED_SIZE`. -/
def rsEncodedSize : ℕ := 255

/-- `correct_rs_primitive_polynomial_ccsds`. -/
def correctRsPrimitivePolynomialCcsds : BitVec 16 := 0x187

/-- The static pointer `rs`. -/
inductive RsHandle where
  | null
  | created (rs : ReedSolomon)
  | destroyed
  deriving DecidableEq, Repr

/-- The instance that `initRs` creates. -/
def ccsdsReedSolomon : ReedSolomon :=
  correctReedSolomonCreate correctRsPrimitivePolynomialCcsds 1 1 32

/-- `initRs`. -/
def initRs (rs : RsHandle) : RsHandle :=
  match rs with
  | .null => .created ccsdsReedSolomon
  | rs => rs

/-- `destroyRs`. The pointer keeps its value, so a second call would destroy the instance
again. -/
def destroyRs (rs : RsHandle) : Except Fault RsHandle :=
  match rs with
  | .null => .ok .null
  | .created _ => .ok .destroyed
  | .destroyed => .error .invalidPointer

/-- Read what the static pointer points to. -/
def RsHandle.deref (rs : RsHandle) : Except Fault ReedSolomon :=
  match rs with
  | .created rs => .ok rs
  | .null => .error .invalidPointer
  | .destroyed => .error .invalidPointer

/-- `rsEncode`. The result of the encoder is cast to a `uint8_t`. -/
def rsEncode {n : ℕ} (rs : RsHandle) (telemData : Option (List Byte))
    (rsData : Option (Block Byte n)) : Except Fault (ErrorCode × Option (Block Byte n)) :=
  match telemData, rsData with
  | none, _ => .ok (.invalidArg, rsData)
  | some _, none => .ok (.invalidArg, rsData)
  | some telemData, some data => do
      let rs ← rs.deref
      let (length, data) ← correctReedSolomonEncode rs telemData rsDecodedSize data
      if (BitVec.ofInt 8 length).toNat < rsEncodedSize then
        return (.reedSolEncErr, some data)
      return (.success, some data)

/-- `correct_reed_solomon_decode` on a whole block: the message it writes, or nothing where it
returns -1. -/
abbrev RsDecoder : Type := ReedSolomon → Block Byte rsEncodedSize → Option (Block Byte rsDecodedSize)

/-- `rsDecode`. The result of the decoder is cast to an `int8_t`. -/
def rsDecode {n : ℕ} (correctReedSolomonDecode : RsDecoder) (rs : RsHandle)
    (rsData : Option (Block Byte rsEncodedSize)) (decodedData : Option (Block Byte n))
    (decodedDataLen : ℕ) : Except Fault (ErrorCode × Option (Block Byte n)) :=
  match rsData, decodedData with
  | none, _ => .ok (.invalidArg, decodedData)
  | some _, none => .ok (.invalidArg, decodedData)
  | some rsData, some data => do
      if decodedDataLen < rsDecodedSize then
        return (.invalidArg, some data)
      let rs ← rs.deref
      match correctReedSolomonDecode rs rsData with
      | none =>
          return (if BitVec.ofInt 8 (-1) = (-1 : Byte) then .reedSolDecErr else .success, some data)
      | some msg =>
          let data ← data.memcpy 0 msg.cells rsDecodedSize
          let decodedLength := BitVec.ofInt 8 rsDecodedSize
          return (if decodedLength = -1 then .reedSolDecErr else .success, some data)

end ObcGsInterface
