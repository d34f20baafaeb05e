import ObcGsInterface.Library.Rijndael
import ObcGsInterface.Model.AesModes
import ObcGsInterface.Verification.Fec.Primitive

/-! # The layers of AES over its field

Bytes stand for binary polynomials modulo `x⁸ + x⁴ + x³ + x + 1`. There `xtime` multiplies by `x`,
`Multiply` by its second argument, and the tables substitute the affine image of the inverse. -/

namespace ObcGsInterface

open Polynomial BinaryPolynomial ShiftRegister

/-! ## The field -/

/-- The field polynomial. -/
def aesPolynomial : BitVec 16 := 0x11b

/-- The binary polynomials modulo the field polynomial. -/
abbrev AesField : Type := AdjoinRoot (generator (feedback aesPolynomial))

namespace AesField

/-- The residue of `x`. -/
noncomputable def x : AesField := AdjoinRoot.root (generator (feedback aesPolynomial))

/-- The element that a byte stands for. -/
noncomputable def ofByte (b : Byte) : AesField := residue aesPolynomial b

theorem ofByte_injective : Function.Injective ofByte := residue_injective

theorem ofByte_surjective : Function.Surjective ofByte := fun a => by
  obtain ⟨q, rfl⟩ := AdjoinRoot.mk_surjective a
  exact exists_residue_eq q

/-- Every element is that of one byte. -/
noncomputable def byteEquiv : Byte ≃ AesField :=
  Equiv.ofBijective ofByte ⟨ofByte_injective, ofByte_surjective⟩

@[simp] theorem byteEquiv_symm_ofByte (b : Byte) : byteEquiv.symm (ofByte b) = b :=
  byteEquiv.symm_apply_apply b

@[simp] theorem ofByte_byteEquiv_symm (a : AesField) : ofByte (byteEquiv.symm a) = a :=
  byteEquiv.apply_symm_apply a

@[simp] theorem ofByte_zero : ofByte 0 = 0 := residue_zero

@[simp] theorem ofByte_one : ofByte 1 = 1 := residue_one

@[simp] theorem ofByte_xor (a b : Byte) : ofByte (a ^^^ b) = ofByte a + ofByte b := residue_xor a b

/-- The field has characteristic 2. -/
theorem two_eq_zero : (2 : AesField) = 0 := by
  have hone : ofByte (1 ^^^ 1) = 0 := (congrArg ofByte BitVec.xor_self).trans ofByte_zero
  rwa [ofByte_xor, ofByte_one, one_add_one_eq_two] at hone

theorem add_self (a : AesField) : a + a = 0 := by
  rw [← two_mul, two_eq_zero, zero_mul]

theorem sub_eq (a b : AesField) : a - b = a + b := by
  linear_combination -b * two_eq_zero

end AesField

open AesField

/-! ## Multiplication -/

theorem xtime_eq (b : Byte) : xtime b = timesAlpha aesPolynomial b := by
  revert b
  decide +kernel

@[simp] theorem ofByte_xtime (b : Byte) : ofByte (xtime b) = x * ofByte b := by
  rw [xtime_eq, ofByte, residue_timesAlpha]
  rfl

/-- A bit of a byte as an element. -/
noncomputable def coefficient (b : Byte) (i : ℕ) : AesField := if b.getLsbD i then 1 else 0

theorem ofByte_eq_sum (b : Byte) : ofByte b = ∑ i ∈ Finset.range 8, coefficient b i * x ^ i := by
  rw [ofByte, residue, ofWord, map_sum]
  refine Finset.sum_congr rfl fun i _ => ?_
  rw [map_mul, map_pow, AdjoinRoot.mk_X, coefficient]
  cases b.getLsbD i with
  | false => simp
  | true => simp [digit, x]

/-- A bit of the factor in `Multiply`. -/
theorem ofByte_bit_mul (y : Byte) (i : ℕ) (a : Byte) :
    ofByte ((y >>> i &&& 1#8) * a) = coefficient y i * ofByte a := by
  have hbit : y >>> i &&& 1#8 = if y.getLsbD i then 1#8 else 0#8 := by
    apply BitVec.eq_of_getLsbD_eq
    intro j hj
    rw [BitVec.getLsbD_and, BitVec.getLsbD_ushiftRight, BitVec.getLsbD_one]
    rcases Nat.eq_zero_or_pos j with rfl | hpos
    · cases y.getLsbD i <;> simp
    · cases y.getLsbD i <;> simp [hpos.ne']
  rw [hbit, coefficient]
  split
  · rw [BitVec.one_mul, one_mul]
  · rw [BitVec.zero_mul, zero_mul]
    exact ofByte_zero

/-- `Multiply` by a factor of at most five bits. -/
theorem ofByte_multiply (a : Byte) {y : Byte} (hy : y.toNat < 32) :
    ofByte (multiply a y) = ofByte a * ofByte y := by
  have hhigh (i : ℕ) (hi : 5 ≤ i) : coefficient y i = 0 := by
    have hbit : y.getLsbD i = false :=
      Nat.testBit_lt_two_pow (hy.trans_le (Nat.pow_le_pow_right Nat.two_pos hi))
    rw [coefficient, hbit, if_neg Bool.false_ne_true]
  have hfirst : ofByte ((y &&& 1#8) * a) = coefficient y 0 * ofByte a := ofByte_bit_mul y 0 a
  rw [multiply, ofByte_eq_sum y]
  simp only [Finset.sum_range_succ, Finset.sum_range_zero, hhigh 5 (by decide), hhigh 6 (by decide),
    hhigh 7 (by decide), ofByte_xor, hfirst, ofByte_bit_mul, ofByte_xtime]
  ring

/-! ## Substitution -/

/-- The product of two bytes in the field, with the bits of `b` from low to high. -/
def product (a b : Byte) : Byte :=
  ((List.range 8).foldl (fun (s : Byte × Byte) i =>
    (xtime s.1, if b.getLsbD i then s.2 ^^^ s.1 else s.2)) (a, 0)).2

theorem ofByte_product (a b : Byte) : ofByte (product a b) = ofByte a * ofByte b := by
  have hrun (n : ℕ) : ∀ s : Byte × Byte, s = (List.range n).foldl (fun (s : Byte × Byte) i =>
      (xtime s.1, if b.getLsbD i then s.2 ^^^ s.1 else s.2)) (a, 0) →
      ofByte s.1 = x ^ n * ofByte a ∧
        ofByte s.2 = ofByte a * ∑ i ∈ Finset.range n, coefficient b i * x ^ i := by
    induction n with
    | zero =>
        rintro s rfl
        refine ⟨by rw [pow_zero, one_mul]; rfl, ?_⟩
        rw [Finset.range_zero, Finset.sum_empty, mul_zero]
        exact ofByte_zero
    | succ n ih =>
        rintro s rfl
        obtain ⟨hpower, hsum⟩ := ih _ rfl
        rw [List.range_succ, List.foldl_append, List.foldl_cons, List.foldl_nil,
          Finset.sum_range_succ, coefficient]
        refine ⟨by rw [ofByte_xtime, hpower, pow_succ', mul_assoc], ?_⟩
        split
        · rw [ofByte_xor, hsum, hpower]
          ring
        · rw [hsum, zero_mul, add_zero]
  rw [ofByte_eq_sum b]
  exact (hrun 8 _ rfl).2

/-- The affine map behind the inverse. -/
def affine (b : Byte) : Byte :=
  b ^^^ b.rotateLeft 1 ^^^ b.rotateLeft 2 ^^^ b.rotateLeft 3 ^^^ b.rotateLeft 4 ^^^ 0x63

/-- The inverse of the affine map. -/
def unaffine (b : Byte) : Byte :=
  b.rotateLeft 1 ^^^ b.rotateLeft 3 ^^^ b.rotateLeft 6 ^^^ 0x05

theorem getSBoxValue_eq_affine (b : Byte) :
    getSBoxValue b = affine (unaffine (getSBoxValue b)) ∧
      (if b = 0 then unaffine (getSBoxValue b) = 0
        else product b (unaffine (getSBoxValue b)) = 1) ∧
      getSBoxInvert (getSBoxValue b) = b ∧ getSBoxValue (getSBoxInvert b) = b := by
  revert b
  decide +kernel

/-- What the table replaces by its affine image is the inverse, or 0 for 0. -/
theorem ofByte_unaffine (b : Byte) :
    ofByte (unaffine (getSBoxValue b)) = Ring.inverse (ofByte b) := by
  have hinverse := (getSBoxValue_eq_affine b).2.1
  split at hinverse
  · next hzero => rw [hinverse, hzero, ofByte_zero, Ring.inverse_zero]
  · have hone : ofByte b * ofByte (unaffine (getSBoxValue b)) = 1 := by
      rw [← ofByte_product, hinverse, ofByte_one]
    have hunit : IsUnit (ofByte b) := IsUnit.of_mul_eq_one _ hone
    calc ofByte (unaffine (getSBoxValue b))
        = Ring.inverse (ofByte b) * ofByte b * ofByte (unaffine (getSBoxValue b)) := by
          rw [Ring.inverse_mul_cancel _ hunit, one_mul]
      _ = Ring.inverse (ofByte b) := by rw [mul_assoc, hone, mul_one]

/-- The substitution of the standard: the inverse, and 0 for 0, followed by the affine map. -/
noncomputable def substitute (a : AesField) : AesField :=
  ofByte (affine (byteEquiv.symm (Ring.inverse a)))

theorem ofByte_getSBoxValue (b : Byte) : ofByte (getSBoxValue b) = substitute (ofByte b) := by
  rw [substitute, ← ofByte_unaffine, byteEquiv_symm_ofByte, ← (getSBoxValue_eq_affine b).1]

/-- The substitution is undone by the second table. -/
noncomputable def substitution : Equiv.Perm AesField where
  toFun := substitute
  invFun a := ofByte (getSBoxInvert (byteEquiv.symm a))
  left_inv a := by
    obtain ⟨b, rfl⟩ := ofByte_surjective a
    simp only
    rw [← ofByte_getSBoxValue, byteEquiv_symm_ofByte, (getSBoxValue_eq_affine b).2.2.1]
  right_inv a := by
    obtain ⟨b, rfl⟩ := ofByte_surjective a
    simp only
    rw [byteEquiv_symm_ofByte, ← ofByte_getSBoxValue, (getSBoxValue_eq_affine b).2.2.2]

end ObcGsInterface
