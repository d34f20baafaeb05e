import ObcGsInterface.Model.ReedSolomon

/-! # The Reed-Solomon decoder

The rest of the vendored `libcorrect`: the operations of `field.h` and `polynomial.c` that the
encoder does not need, `decode.c`, and the search for field polynomials in
`find_rs_primitive_poly.c`. -/

namespace ObcGsInterface

open CArray

/-! ## The field -/

namespace RsField

variable (field : RsField)

/-- `field_sub`. -/
def sub (_field : RsField) (l r : Byte) : Byte := l ^^^ r

/-- `field_sum`. -/
def sum (_field : RsField) (elem : Byte) (n : ℕ) : Byte := if n % 2 ≠ 0 then elem else 0

/-- `field_div`. -/
def div (l r : Byte) : Byte :=
  if l = 0 then 0
  else if r = 0 then 0
  else field.expAt (255 + (field.logAt l).toNat - (field.logAt r).toNat)

/-- `field_mul_log`. -/
def mulLog (_field : RsField) (l r : Byte) : Byte :=
  let res := l.toNat + r.toNat
  if res > 255 then BitVec.ofNat 8 (res - 255) else BitVec.ofNat 8 res

/-- `field_pow`, where the product of logarithm and exponent fits its `int`. -/
def pow (elem : Byte) (pow : ℤ) : Byte :=
  let resLog := (field.logAt elem).toNat * pow
  let mod := Int.tmod resLog 255
  let mod := if mod < 0 then mod + 255 else mod
  field.expAt mod.toNat

/-- The product that `field_pow` computes fits an `int`. -/
def PowFits (elem : Byte) (pow : ℤ) : Prop :=
  -0x80000000 ≤ (field.logAt elem).toNat * pow ∧ (field.logAt elem).toNat * pow < 0x80000000

end RsField

/-! ## Polynomials

An argument of type `polynomial_t` that is only read is the list of its terms. -/

/-- `polynomial_t` with an array for `capacity` coefficients. -/
structure PolynomialBuffer (capacity : ℕ) where
  order : ℕ
  coeff : Block Byte capacity
  deriving DecidableEq, Repr

/-- The coefficients up to the order. -/
def PolynomialBuffer.terms {capacity : ℕ} (poly : PolynomialBuffer capacity) :
    Except Fault (List Byte) :=
  if poly.order < capacity then .ok (poly.coeff.cells.take (poly.order + 1))
  else .error .outOfBounds

/-- `polynomial_formal_derivative`. -/
def polynomialFormalDerivative {capacity : ℕ} (field : RsField) (poly : List Byte)
    (der : PolynomialBuffer capacity) : Except Fault (PolynomialBuffer capacity) := do
  let coeff ← der.coeff.memset 0 (der.order + 1)
  let coeff ← (List.range (der.order + 1)).foldlM
    (fun coeff i => do coeff.store i (field.sum (← load poly (i + 1)) (i + 1))) coeff
  return { der with coeff }

/-- `polynomial_eval`. -/
def polynomialEval (field : RsField) (poly : List Byte) (val : Byte) : Except Fault Byte :=
  if val = 0 then load poly 0
  else do
    let (res, _) ← (List.range poly.length).foldlM (fun (s : Byte × Byte) i => do
      let coeff ← load poly i
      let res := if coeff ≠ 0 then
          field.add s.1 (field.mulLogElement (field.logAt coeff) s.2)
        else s.1
      return (res, field.mulLog s.2 (field.logAt val))) (0, field.logAt 1)
    return res

/-- `polynomial_eval_lut`. -/
def polynomialEvalLut (field : RsField) (poly valExp : List Byte) : Except Fault Byte := do
  if (← load valExp 0) = 0 then
    load poly 0
  else
    (List.range poly.length).foldlM (fun res i => do
      let coeff ← load poly i
      if coeff ≠ 0 then
        return field.add res (field.mulLogElement (field.logAt coeff) (← load valExp i))
      else return res) 0

/-- `polynomial_eval_log_lut`. -/
def polynomialEvalLogLut (field : RsField) (polyLog valExp : List Byte) : Except Fault Byte := do
  if (← load valExp 0) = 0 then
    let coeff ← load polyLog 0
    if coeff = 0 then return 0
    return field.expAt coeff.toNat
  else
    (List.range polyLog.length).foldlM (fun res i => do
      let coeff ← load polyLog i
      if coeff ≠ 0 then
        return field.add res (field.mulLogElement coeff (← load valExp i))
      else return res) 0

/-- `polynomial_build_exp_lut`: the `order + 1` entries that it writes. -/
def polynomialBuildExpLut (field : RsField) (val : Byte) (order : ℕ) : List Byte :=
  ((List.range (order + 1)).foldl (fun (s : List Byte × Byte) _ =>
    if val = 0 then (s.1 ++ [0], s.2)
    else (s.1 ++ [s.2], field.mulLog s.2 (field.logAt val))) ([], field.logAt 1)).1

/-! ## The instance -/

/-- The members of `correct_reed_solomon` that only the decoder reads, beside those of the
encoder. -/
structure DecodingReedSolomon extends ReedSolomon where
  firstConsecutiveRoot : ℕ
  generatorRootGap : ℕ
  generatorRoots : List Byte
  generatorRootExp : List (List Byte)
  elementExp : List (List Byte)
  deriving DecidableEq, Repr

/-- `correct_reed_solomon_create` and the tables of `correct_reed_solomon_decoder_create`. -/
def decodingReedSolomonCreate (primitivePolynomial : BitVec 16)
    (firstConsecutiveRoot generatorRootGap numRoots : ℕ) : DecodingReedSolomon :=
  let rs := correctReedSolomonCreate primitivePolynomial firstConsecutiveRoot generatorRootGap
    numRoots
  let generatorRoots := (List.range numRoots).map fun i =>
    rs.field.expAt (generatorRootGap * (i + firstConsecutiveRoot) % 255)
  { rs with
    firstConsecutiveRoot
    generatorRootGap
    generatorRoots
    generatorRootExp := (List.range rs.minDistance).map fun i =>
      polynomialBuildExpLut rs.field (generatorRoots.getD i 0) (rs.blockLength - 1)
    elementExp := (List.range 256).map fun i =>
      polynomialBuildExpLut rs.field (BitVec.ofNat 8 i) (rs.minDistance - 1) }

/-- The working arrays of `correct_reed_solomon`, in the sizes that
`correct_reed_solomon_decoder_create` gives them. They stay from one call to the next. -/
structure DecoderBuffers (blockLength minDistance : ℕ) where
  receivedPolynomial : Block Byte blockLength
  syndromes : Block Byte minDistance
  errorLocator : PolynomialBuffer (minDistance + 1)
  errorLocatorLog : PolynomialBuffer (minDistance + 1)
  errorRoots : Block Byte (2 * minDistance)
  errorVals : Block Byte minDistance
  errorLocations : Block Byte minDistance
  lastErrorLocator : PolynomialBuffer (minDistance + 1)
  errorEvaluator : Block Byte minDistance
  errorLocatorDerivative : PolynomialBuffer minDistance
  deriving DecidableEq, Repr

/-! ## Syndromes -/

/-- `reed_solomon_find_syndromes`. -/
def reedSolomonFindSyndromes {n : ℕ} (field : RsField) (msgpoly : List Byte)
    (generatorRootExp : List (List Byte)) (syndromes : Block Byte n) (minDistance : ℕ) :
    Except Fault (Bool × Block Byte n) := do
  let syndromes ← syndromes.memset 0 minDistance
  (List.range minDistance).foldlM (fun (s : Bool × Block Byte n) i => do
    let eval ← polynomialEvalLut field msgpoly (← load generatorRootExp i)
    let allZero := if eval ≠ 0 then false else s.1
    let syndromes ← s.2.store i eval
    return (allZero, syndromes)) (true, syndromes)

/-! ## The error locator -/

/-- The variables of the loop of `reed_solomon_find_error_locator`. -/
structure LocatorState (capacity : ℕ) where
  errorLocator : PolynomialBuffer capacity
  lastErrorLocator : PolynomialBuffer capacity
  numerrors : ℕ
  lastDiscrepancy : Byte
  delayLength : ℕ
  deriving DecidableEq, Repr

namespace LocatorState

variable {capacity : ℕ} (field : RsField) (syndromes : List Byte) (s : LocatorState capacity)

/-- The discrepancy at the syndrome `i`. -/
def discrepancy (i : ℕ) : Except Fault Byte := do
  (List.range' 1 s.numerrors).foldlM (fun discrepancy j => do
    if i < j then throw .outOfBounds
    return field.add discrepancy
      (field.mul (← load s.errorLocator.coeff.cells j) (← load syndromes (i - j))))
    (← load syndromes i)

/-- The last locator moved up by the delay and scaled by the quotient of the discrepancies. -/
def shiftLast (discrepancy : Byte) : Except Fault (Block Byte capacity) := do
  let last ← (List.range (s.lastErrorLocator.order + 1)).reverse.foldlM
    (fun (last : Block Byte capacity) j => do
      last.store (j + s.delayLength)
        (field.div (field.mul (← load last.cells j) discrepancy) s.lastDiscrepancy))
    s.lastErrorLocator.coeff
  (List.range s.delayLength).reverse.foldlM (fun last j => last.store j 0) last

/-- The shifted last locator is added to the locator, which is saved in its place. The counter
of the loop is a `uint8_t`, so that a bound from 255 on is never passed. -/
def addShifted (last : Block Byte capacity) :
    Except Fault (Block Byte capacity × Block Byte capacity) := do
  let order := s.lastErrorLocator.order + s.delayLength
  let coeffs ← (List.range (min (order + 1) 256)).foldlM
    (fun (t : Block Byte capacity × Block Byte capacity) j => do
      let temp ← load t.1.cells j
      let locator ← t.1.store j (field.add temp (← load t.2.cells j))
      let last ← t.2.store j temp
      return (locator, last)) (s.errorLocator.coeff, last)
  if order ≥ 255 then throw .nonTermination
  return coeffs

/-- The locator with the scaled and shifted last locator added, without a copy. -/
def adjust (discrepancy : Byte) : Except Fault (Block Byte capacity) :=
  (List.range (s.lastErrorLocator.order + 1)).reverse.foldlM
    (fun (locator : Block Byte capacity) j => do
      let old ← load locator.cells (j + s.delayLength)
      let last ← load s.lastErrorLocator.coeff.cells j
      locator.store (j + s.delayLength)
        (field.add old (field.div (field.mul last discrepancy) s.lastDiscrepancy)))
    s.errorLocator.coeff

/-- The body of the loop, for the syndrome `i`. -/
def round (i : ℕ) : Except Fault (LocatorState capacity) := do
  let discrepancy ← s.discrepancy field syndromes i
  if discrepancy = 0 then
    return { s with delayLength := s.delayLength + 1 }
  if 2 * s.numerrors ≤ i then
    let (locator, last) ← s.addShifted field (← s.shiftLast field discrepancy)
    return {
      errorLocator := ⟨s.lastErrorLocator.order + s.delayLength, locator⟩
      lastErrorLocator := ⟨s.errorLocator.order, last⟩
      numerrors := i + 1 - s.numerrors
      lastDiscrepancy := discrepancy
      delayLength := 1 }
  let locator ← s.adjust field discrepancy
  let order := s.lastErrorLocator.order + s.delayLength
  return { s with
    errorLocator := ⟨if order > s.errorLocator.order then order else s.errorLocator.order, locator⟩
    delayLength := s.delayLength + 1 }

end LocatorState

/-- `reed_solomon_find_error_locator`: both locators as it leaves them. The result of the
function is the order of the first one. The bound of the loop is a difference of `size_t`, which
wraps when there are more erasures than `minDistance`. -/
def reedSolomonFindErrorLocator {capacity : ℕ} (field : RsField) (syndromes : List Byte)
    (minDistance numErasures : ℕ) (errorLocator lastErrorLocator : PolynomialBuffer capacity) :
    Except Fault (PolynomialBuffer capacity × PolynomialBuffer capacity) := do
  let coeff ← errorLocator.coeff.memset 0 (minDistance + 1)
  let coeff ← coeff.store 0 1
  let last ← lastErrorLocator.coeff.memcpy 0 coeff.cells (minDistance + 1)
  let bound := BitVec.ofNat 32 minDistance - BitVec.ofNat 32 numErasures
  let s ← (List.range bound.toNat).foldlM
    (fun s i => LocatorState.round field syndromes s i)
    { errorLocator := ⟨0, coeff⟩
      lastErrorLocator := ⟨0, last⟩
      numerrors := 0
      lastDiscrepancy := 1
      delayLength := 1 }
  return (s.errorLocator, s.lastErrorLocator)

/-- `reed_solomon_factorize_error_locator`. -/
def reedSolomonFactorizeErrorLocator {n : ℕ} (field : RsField) (numSkip : ℕ)
    (locatorLog : List Byte) (roots : Block Byte n) (elementExp : List (List Byte)) :
    Except Fault (Bool × Block Byte n) := do
  let order := locatorLog.length - 1
  let roots ← roots.memcpy numSkip (List.replicate order 0) order
  let (root, roots) ← (List.range 256).foldlM (fun (s : ℕ × Block Byte n) i => do
    if (← polynomialEvalLogLut field locatorLog (← load elementExp i)) = 0 then
      let roots ← s.2.store s.1 (BitVec.ofNat 8 i)
      return (s.1 + 1, roots)
    else return s) (numSkip, roots)
  return (decide (root = order + numSkip), roots)

/-- `reed_solomon_find_error_locations`. -/
def reedSolomonFindErrorLocations {n m : ℕ} (field : RsField) (generatorRootGap : ℕ)
    (errorRoots : Block Byte n) (errorLocations : Block Byte m) (numErrors : ℕ) :
    Except Fault (Block Byte m) :=
  (List.range numErrors).foldlM (fun errorLocations i => do
    let root ← load errorRoots.cells i
    if root = 0 then return errorLocations
    let loc := field.div 1 root
    match (List.range 256).find? fun j => field.pow (BitVec.ofNat 8 j) generatorRootGap = loc with
    | some j => errorLocations.store i (field.logAt (BitVec.ofNat 8 j))
    | none => return errorLocations) errorLocations

/-! ## Error values -/

/-- `reed_solomon_find_error_evaluator`, into an array for `minDistance` coefficients. -/
def reedSolomonFindErrorEvaluator (field : RsField) (locator syndromes : List Byte)
    (minDistance : ℕ) : List Byte :=
  polynomialMul field locator syndromes (minDistance - 1)

/-- `reed_solomon_find_error_values`. The order of the derivative is unsigned: below a locator
of order 0 it wraps, and the derivative leaves its array. -/
def reedSolomonFindErrorValues {blockLength minDistance : ℕ} (rs : DecodingReedSolomon)
    (buffers : DecoderBuffers blockLength minDistance) :
    Except Fault (DecoderBuffers blockLength minDistance) := do
  let locator ← buffers.errorLocator.terms
  let evaluator ← buffers.errorEvaluator.memcpy 0
    (reedSolomonFindErrorEvaluator rs.field locator buffers.syndromes.cells rs.minDistance)
    rs.minDistance
  if buffers.errorLocator.order = 0 then throw .outOfBounds
  let derivative ← polynomialFormalDerivative rs.field locator
    { buffers.errorLocatorDerivative with order := buffers.errorLocator.order - 1 }
  let errorVals ← (List.range buffers.errorLocator.order).foldlM
    (fun (errorVals : Block Byte minDistance) i => do
      let root ← load buffers.errorRoots.cells i
      if root = 0 then return errorVals
      let powers ← load rs.elementExp root.toNat
      let numerator ← polynomialEvalLut rs.field evaluator.cells powers
      let denominator ← polynomialEvalLut rs.field (← derivative.terms) powers
      errorVals.store i (rs.field.mul
        (rs.field.pow root ((rs.firstConsecutiveRoot : ℤ) - 1))
        (rs.field.div numerator denominator))) buffers.errorVals
  return { buffers with
    errorEvaluator := evaluator
    errorLocatorDerivative := derivative
    errorVals }

/-! ## The decoder -/

/-- Copy a block into the received polynomial, in reverse order and below zeros. -/
def receive {blockLength : ℕ} (received : Block Byte blockLength) (encoded : List Byte)
    (encodedLength : ℕ) : Except Fault (Block Byte blockLength) := do
  let received ← (List.range encodedLength).foldlM
    (fun received i => do received.store i (← load encoded (encodedLength - (i + 1)))) received
  (List.range (blockLength - encodedLength)).foldlM
    (fun received i => received.store (i + encodedLength) 0) received

/-- Copy the message out of the received polynomial. Where the block is shorter than the check
bytes the unsigned length of the message wraps, and the loop leaves its arrays. -/
def copyMessage {m : ℕ} (received : List Byte) (encodedLength minDistance : ℕ)
    (msg : Block Byte m) : Except Fault (Block Byte m) := do
  if encodedLength < minDistance then throw .outOfBounds
  (List.range (encodedLength - minDistance)).foldlM
    (fun msg i => do msg.store i (← load received (encodedLength - (i + 1)))) msg

/-- The coefficients of the locator as logarithms. -/
def locatorToLog {capacity : ℕ} (field : RsField) (locator locatorLog : PolynomialBuffer capacity) :
    Except Fault (PolynomialBuffer capacity) := do
  let coeff ← (List.range (locator.order + 1)).foldlM
    (fun (coeff : Block Byte capacity) i => do
      coeff.store i (field.logAt (← load locator.coeff.cells i))) locatorLog.coeff
  return ⟨locator.order, coeff⟩

/-- Subtract the error values at the error locations. -/
def subtractErrors {blockLength minDistance : ℕ} (field : RsField)
    (buffers : DecoderBuffers blockLength minDistance) :
    Except Fault (Block Byte blockLength) :=
  (List.range buffers.errorLocator.order).foldlM
    (fun (received : Block Byte blockLength) i => do
      let location ← load buffers.errorLocations.cells i
      let old ← load received.cells location.toNat
      received.store location.toNat (field.sub old (← load buffers.errorVals.cells i)))
    buffers.receivedPolynomial

/-- `correct_reed_solomon_decode`: its result, the working arrays and the message. The arrays
are what the first call allocated or what the last call left. -/
def correctReedSolomonDecode {blockLength minDistance m : ℕ} (rs : DecodingReedSolomon)
    (buffers : DecoderBuffers blockLength minDistance) (encoded : List Byte) (encodedLength : ℕ)
    (msg : Block Byte m) :
    Except Fault (ℤ × DecoderBuffers blockLength minDistance × Block Byte m) := do
  if encodedLength > rs.blockLength then
    return (-1, buffers, msg)
  let received ← receive buffers.receivedPolynomial encoded encodedLength
  let buffers := { buffers with receivedPolynomial := received }
  let (allZero, syndromes) ← reedSolomonFindSyndromes rs.field received.cells rs.generatorRootExp
    buffers.syndromes rs.minDistance
  let buffers := { buffers with syndromes }
  let msgLength : ℤ := encodedLength - rs.minDistance
  if allZero then
    let msg ← copyMessage received.cells encodedLength rs.minDistance msg
    return (msgLength, buffers, msg)
  let (errorLocator, lastErrorLocator) ← reedSolomonFindErrorLocator rs.field syndromes.cells
    rs.minDistance 0 buffers.errorLocator buffers.lastErrorLocator
  let buffers := { buffers with errorLocator, lastErrorLocator }
  let errorLocatorLog ← locatorToLog rs.field errorLocator buffers.errorLocatorLog
  let buffers := { buffers with errorLocatorLog }
  let (factorized, errorRoots) ← reedSolomonFactorizeErrorLocator rs.field 0
    (← errorLocatorLog.terms) buffers.errorRoots rs.elementExp
  let buffers := { buffers with errorRoots }
  if !factorized then
    return (-1, buffers, msg)
  let errorLocations ← reedSolomonFindErrorLocations rs.field rs.generatorRootGap errorRoots
    buffers.errorLocations errorLocator.order
  let buffers := { buffers with errorLocations }
  let buffers ← reedSolomonFindErrorValues rs buffers
  let received ← subtractErrors rs.field buffers
  let buffers := { buffers with receivedPolynomial := received }
  let msg ← copyMessage received.cells encodedLength rs.minDistance msg
  return (msgLength, buffers, msg)

/-! ## `rsDecode` -/

/-- The instance that `initRs` creates. -/
def ccsdsDecodingReedSolomon : DecodingReedSolomon :=
  decodingReedSolomonCreate correctRsPrimitivePolynomialCcsds 1 1 32

/-- `rsDecode` on the instance of `initRs`, with the decoder that it calls. The result of the
decoder is cast to an `int8_t`. -/
def rsDecodeBuffered {n : ℕ} (buffers : DecoderBuffers 255 32)
    (rsData : Option (Block Byte rsEncodedSize)) (decodedData : Option (Block Byte n))
    (decodedDataLen : ℕ) :
    Except Fault (ErrorCode × DecoderBuffers 255 32 × Option (Block Byte n)) :=
  match rsData, decodedData with
  | none, _ => .ok (.invalidArg, buffers, decodedData)
  | some _, none => .ok (.invalidArg, buffers, decodedData)
  | some rsData, some data => do
      if decodedDataLen < rsDecodedSize then
        return (.invalidArg, buffers, some data)
      let (length, buffers, data) ← correctReedSolomonDecode ccsdsDecodingReedSolomon buffers
        rsData.cells rsEncodedSize data
      let decodedLength := BitVec.ofInt 8 length
      return (if decodedLength = -1 then .reedSolDecErr else .success, buffers, some data)

/-! ## Field polynomials -/

/-- The body of the loop of `trypoly`, or nothing where it returns false. -/
def trypolyStep (poly : BitVec 16) (s : BitVec 16 × List Byte) (i : ℕ) :
    Option (BitVec 16 × List Byte) :=
  let element := s.1 * 2
  let element := if element.toNat > 255 then element ^^^ poly else element
  if s.2.getD element.toNat 0 ≠ 0 then none
  else some (element, s.2.set element.toNat (BitVec.ofNat 8 i))

/-- `trypoly`. -/
def trypoly (poly : BitVec 16) : Bool :=
  ((List.range' 1 255).foldlM (trypolyStep poly) (1, List.replicate 256 0)).isSome

/-- The polynomials that `find_rs_primitive_poly` prints. -/
def findRsPrimitivePoly : List (BitVec 16) :=
  ((List.range' 256 256).map (BitVec.ofNat 16)).filter trypoly

/-- The polynomials for which `correct.h` has a name. -/
def correctRsPrimitivePolynomials : List (BitVec 16) :=
  [0x11d, 0x12b, 0x12d, 0x14d, 0x15f, 0x163, 0x165, 0x169, 0x171, 0x187, 0x18d, 0x1a9, 0x1c3,
    0x1cf, 0x1e7, 0x1f5]

end ObcGsInterface
