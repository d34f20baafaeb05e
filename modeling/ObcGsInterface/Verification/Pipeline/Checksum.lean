import ObcGsInterface.Library.BigEndian
import ObcGsInterface.Library.BinaryPolynomial
import ObcGsInterface.Model.GroundStation
import ObcGsInterface.Verification.Link.Addresses
import Mathlib.Data.Nat.Bitwise
import Mathlib.Data.Nat.Size

/-! # The checksum in both languages

The checksum of the C code is the shift register that `crc_hqx` documents, and `AX25`
reverses its bits as `reverseUint16` does. -/

namespace ObcGsInterface

open BitStream ShiftRegister BinaryPolynomial BigEndian Polynomial

/-! ## The register -/

theorem swapped_bytes (crc : BitVec 16) :
    ((crc >>> 8).setWidth 8).setWidth 16 ||| (crc <<< 8) =
      ((crc >>> 8).setWidth 8).setWidth 16 ^^^ (crc <<< 8) := by
  ext i hi
  by_cases h : i < 8
  · simp [h]
  · simp [h]

theorem crc16Ccitt_stepAdditive : StepAdditive crc16Ccitt := by
  have hswap : Additive fun crc : BitVec 16 =>
      ((crc >>> 8).setWidth 8).setWidth 16 ||| (crc <<< 8) := by
    simp only [swapped_bytes]
    exact (additive_setWidth.comp (additive_setWidth.comp (additive_ushiftRight 8))).xor
      (additive_shiftLeft 8)
  have hhigh : Additive fun crc : BitVec 16 =>
      crc ^^^ (((crc &&& 0xFF).setWidth 8 : Byte) >>> 4).setWidth 16 :=
    additive_id.xor (additive_setWidth.comp
      ((additive_ushiftRight 4).comp (additive_setWidth.comp (additive_and 0xFF))))
  have htop : Additive fun crc : BitVec 16 => crc ^^^ (crc <<< 12) :=
    additive_id.xor (additive_shiftLeft 12)
  have hlow : Additive fun crc : BitVec 16 => crc ^^^ ((crc &&& 0x00FF) <<< 5) :=
    additive_id.xor ((additive_shiftLeft 5).comp (additive_and 0x00FF))
  exact .map hlow (.map htop (.map hhigh (hswap.step additive_setWidth)))

/-- One round of `calculateCrc16Ccitt` shifts a byte into the register. -/
theorem crc16Ccitt_eq_shiftByte : crc16Ccitt = shiftByte 0x1021 := by
  refine crc16Ccitt_stepAdditive.ext (shiftByte_stepAdditive _) ?_ ?_
  · decide
  · decide

theorem crcHqx_eq (data : List Byte) : crcHqx data 0 = crcOf data := by
  rw [crcHqx, crcOf, crc16Ccitt_eq_shiftByte]

/-- Two ends of one length behind the same beginning have the same checksum exactly when
their difference has the checksum zero. -/
theorem crcOf_append_eq_iff (front : List Byte) {xs ys : List Byte} (h : xs.length = ys.length) :
    crcOf (front ++ xs) = crcOf (front ++ ys) ↔ crcOf (List.zipWith (· ^^^ ·) xs ys) = 0 := by
  rw [crcOf, crcOf, List.foldl_append, List.foldl_append]
  exact crc16Ccitt_stepAdditive.foldl_eq_iff _ h

/-! ## The polynomial -/

theorem crcOf_eq_foldl (data : List Byte) :
    crcOf data = (bits data).foldl (shiftStep 0x1021#16) 0#16 := by
  rw [crcOf, crc16Ccitt_eq_shiftByte]
  exact foldl_shiftByte _ _ data

theorem generator_ccitt : generator 0x1021#16 = X ^ 16 + X ^ 12 + X ^ 5 + 1 := by
  have hword : ofWord 0x1021#16 = X ^ 12 + X ^ 5 + 1 := by
    ext n
    rw [coeff_ofWord, coeff_add, coeff_add, coeff_X_pow, coeff_X_pow, coeff_one]
    by_cases hn : n < 16
    · interval_cases n <;> decide
    · rw [BitVec.getLsbD_of_ge _ _ (Nat.not_lt.mp hn), if_neg (by omega), if_neg (by omega),
        if_neg (by omega), digit_false, add_zero, add_zero]
  rw [generator, hword]
  ring

/-- **The checksum is a remainder.** -/
theorem ofWord_crcOf (data : List Byte) :
    ofWord (crcOf data) = (ofBits (bits data) * X ^ 16) %ₘ (X ^ 16 + X ^ 12 + X ^ 5 + 1) := by
  rw [crcOf_eq_foldl, ofWord_checksum _ (by decide), generator_ccitt]

/-! ## Two bytes -/

theorem getLsbD_join16 (hi lo : Byte) {j : ℕ} (hj : j < 16) :
    (join16 hi lo).getLsbD (15 - j) = bitAt [hi, lo] j := by
  unfold join16 bitAt
  interval_cases j <;> simp [BitVec.getMsbD_eq_getLsbD]

theorem join16_xor (high low high' low' : Byte) :
    join16 high low ^^^ join16 high' low' = join16 (high ^^^ high') (low ^^^ low') := by
  apply BitVec.eq_of_getLsbD_eq
  intro j hj
  simp [join16]
  grind

theorem ofBits_bytes16 (x : BitVec 16) : ofBits (bits (bytes16 x)) = ofWord x := by
  ext n
  rw [coeff_ofBits, coeff_ofWord, length_bits, length_bytes16]
  by_cases hn : n < 16
  · have hbit := getLsbD_join16 ((x >>> 8).setWidth 8) (x.setWidth 8) (j := 15 - n) (by omega)
    rw [join16_bytes16, show 15 - (15 - n) = n by omega] at hbit
    rw [getElem?_bits _ (by rw [length_bytes16]; omega), Option.getD_some, hbit,
      decide_eq_true (by omega), Bool.true_and]
    rfl
  · rw [decide_eq_false (by omega), BitVec.getLsbD_of_ge _ n (by omega), Bool.false_and]

theorem additive_crcOf_bytes16 : Additive fun word : BitVec 16 => crcOf (bytes16 word) := by
  intro x y
  have hxor : bytes16 (x ^^^ y) = List.zipWith (· ^^^ ·) (bytes16 x) (bytes16 y) := by
    simp [bytes16, BitVec.ushiftRight_xor_distrib, BitVec.setWidth_xor]
  have hfold := crc16Ccitt_stepAdditive.foldl_xor 0#16 0#16
    (show (bytes16 x).length = (bytes16 y).length from rfl)
  rw [BitVec.xor_self, ← hxor] at hfold
  exact hfold

theorem crcOf_bytes16_injective {x y : BitVec 16} (h : crcOf (bytes16 x) = crcOf (bytes16 y)) :
    x = y := by
  have hzero : 0#16 = crcOf (bytes16 (x ^^^ y)) :=
    (BitVec.xor_eq_zero_iff.mpr h).symm.trans (additive_crcOf_bytes16 x y).symm
  rw [crcOf_eq_foldl, checksum_eq_iff _ (by decide), ofBits_bytes16, ofWord_zero, add_zero,
    mul_comm] at hzero
  have hdvd := dvd_of_dvd_X_pow_mul (by decide) (by decide) hzero
  rw [← modByMonic_eq_zero_iff_dvd (generator_monic _), ofWord_modByMonic, ofWord_eq_zero,
    BitVec.xor_eq_zero_iff] at hdvd
  exact hdvd

/-- Two bytes behind any register. -/
theorem crc16Ccitt_pair (crc : BitVec 16) (high low : Byte) :
    crc16Ccitt (crc16Ccitt crc high) low = crcOf (bytes16 (crc ^^^ join16 high low)) := by
  have hzeros : Additive fun crc : BitVec 16 => crc16Ccitt (crc16Ccitt crc 0) 0 := fun x y =>
    crc16Ccitt_stepAdditive.foldl_xor x y (show [0#8, 0#8].length = [0#8, 0#8].length from rfl)
  have hregister := congrFun (hzeros.ext additive_crcOf_bytes16 (by decide)) crc
  have hsplit : crc16Ccitt (crc16Ccitt crc high) low =
      crc16Ccitt (crc16Ccitt crc 0) 0 ^^^ crcOf [high, low] := by
    have hfold := crc16Ccitt_stepAdditive.foldl_xor crc 0#16
      (show [0#8, 0#8].length = [high, low].length from rfl)
    rw [BitVec.xor_zero] at hfold
    simpa [crcOf] using hfold
  rw [hsplit, hregister, ← bytes16_join16]
  exact (additive_crcOf_bytes16 crc (join16 high low)).symm

/-- The register run backwards for one step. -/
def unshift (reg : BitVec 16) : BitVec 16 :=
  if reg.getLsbD 0 then ((reg ^^^ 0x1021) >>> 1) ||| 0x8000 else reg >>> 1

theorem crcOf_unshift :
    ∀ n < 2 ^ 8, crcOf (bytes16 (unshift^[16] (BitVec.ofNat 16 n))) = BitVec.ofNat 16 n := by
  decide +kernel

/-! ## The number that is compared -/

theorem testBit_intBase2 (digits : List Bool) (i : ℕ) :
    (intBase2 digits).testBit i =
      (decide (i < digits.length) && digits.getD (digits.length - 1 - i) false) := by
  rw [intBase2, BitVec.testBit_toNat, BitVec.getLsbD_ofBoolListBE]

/-- The reversed digits of a number, least significant first. -/
theorem getD_reverse_binDigits (value i : ℕ) :
    (binDigits value).reverse.getD i false = value.testBit i := by
  unfold binDigits
  split
  · next h =>
    subst h
    cases i <;> simp
  · rw [List.reverse_reverse, Nat.testBit_eq_inth, List.getI_eq_getElem?_getD,
      List.getD_eq_getElem?_getD]
    rfl

theorem length_binDigits_le {value n : ℕ} (hn : 0 < n) (h : value < 2 ^ n) :
    (binDigits value).length ≤ n := by
  unfold binDigits
  split
  · exact hn
  · rw [List.length_reverse, Nat.size_eq_bits_len]
    exact Nat.size_le.mpr h

theorem reversedCrc_eq (data : List Byte) :
    reversedCrc data = (reverseUint16 (crcOf data)).toNat := by
  rw [reversedCrc, crcHqx_eq]
  generalize crcOf data = crc
  have hlength : (binDigits crc.toNat).reverse.length ≤ crcLengthBits := by
    rw [List.length_reverse]
    exact length_binDigits_le (by decide) crc.isLt
  apply Nat.eq_of_testBit_eq
  intro i
  rw [testBit_intBase2, BitVec.testBit_toNat, List.length_append, List.length_replicate,
    Nat.add_sub_cancel' hlength]
  by_cases hi : i < 16
  · have hdigit : ((binDigits crc.toNat).reverse ++ List.replicate (crcLengthBits -
        (binDigits crc.toNat).reverse.length) false).getD (crcLengthBits - 1 - i) false =
        (binDigits crc.toNat).reverse.getD (crcLengthBits - 1 - i) false := by
      rw [List.getD_eq_getElem?_getD, List.getD_eq_getElem?_getD]
      by_cases hin : crcLengthBits - 1 - i < (binDigits crc.toNat).reverse.length
      · rw [List.getElem?_append_left hin]
      · rw [List.getElem?_append_right (by omega), List.getElem?_replicate,
          List.getElem?_eq_none (by omega)]
        split <;> rfl
    rw [hdigit, getD_reverse_binDigits, BitVec.testBit_toNat, getLsbD_reverseUint16 _ hi]
    simp [crcLengthBits, hi]
  · rw [BitVec.getLsbD_of_ge _ _ (by omega)]
    simp [crcLengthBits, hi]

theorem intFromBytes_bytes16 (value : BitVec 16) : intFromBytes (bytes16 value) = value.toNat := by
  have hlt := value.isLt
  simp only [intFromBytes, bytes16, List.foldl_cons, List.foldl_nil, BitVec.toNat_setWidth,
    BitVec.toNat_ushiftRight, Nat.shiftRight_eq_div_pow]
  omega

end ObcGsInterface
