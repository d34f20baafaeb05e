import ObcGsInterface.Library.ShiftRegister
import Mathlib.Algebra.Polynomial.Div
import Mathlib.Algebra.Polynomial.Degree.Lemmas
import Mathlib.Algebra.Polynomial.Monic
import Mathlib.Algebra.Field.ZMod
import Mathlib.Algebra.CharP.Two
import Mathlib.RingTheory.Coprime.Lemmas
import Mathlib.Tactic.LinearCombination

/-! # Polynomials over two elements

A shift register computes the remainder of a message by its generator, the message being the
polynomial whose coefficients are its bits. Which errors a checksum detects is then a question
of divisibility: an error goes undetected exactly when the generator divides its polynomial. -/

namespace BinaryPolynomial

open Polynomial ShiftRegister

/-- A bit as a coefficient. -/
def digit (b : Bool) : ZMod 2 := if b then 1 else 0

theorem digit_xor (a b : Bool) : digit (a ^^ b) = digit a + digit b := by
  cases a <;> cases b <;> decide

theorem digit_injective {a b : Bool} (h : digit a = digit b) : a = b := by
  revert h
  cases a <;> cases b <;> decide

@[simp] theorem digit_false : digit false = 0 := rfl

@[simp] theorem digit_true : digit true = 1 := rfl

/-! ## Words -/

section Words

variable {w : ℕ}

/-- The polynomial whose coefficients are the bits of a word. -/
noncomputable def ofWord (x : BitVec w) : (ZMod 2)[X] :=
  ∑ i ∈ Finset.range w, C (digit (x.getLsbD i)) * X ^ i

theorem coeff_ofWord (x : BitVec w) (n : ℕ) : (ofWord x).coeff n = digit (x.getLsbD n) := by
  simp only [ofWord, finsetSum_coeff, coeff_C_mul, coeff_X_pow, mul_ite, mul_one, mul_zero,
    Finset.sum_ite_eq, Finset.mem_range]
  split_ifs with h
  · rfl
  · rw [BitVec.getLsbD_of_ge x n (Nat.not_lt.mp h), digit_false]

theorem ofWord_xor (x y : BitVec w) : ofWord (x ^^^ y) = ofWord x + ofWord y := by
  ext n
  rw [coeff_add, coeff_ofWord, coeff_ofWord, coeff_ofWord, BitVec.getLsbD_xor, digit_xor]

theorem ofWord_injective {x y : BitVec w} (h : ofWord x = ofWord y) : x = y := by
  apply BitVec.eq_of_getLsbD_eq
  intro i _
  apply digit_injective
  rw [← coeff_ofWord, ← coeff_ofWord, h]

@[simp] theorem ofWord_zero : ofWord 0#w = 0 := by
  ext n
  rw [coeff_ofWord, BitVec.getLsbD_zero, digit_false, coeff_zero]

theorem ofWord_eq_zero {x : BitVec w} : ofWord x = 0 ↔ x = 0#w :=
  ⟨fun h => ofWord_injective (h.trans ofWord_zero.symm), fun h => by rw [h, ofWord_zero]⟩

theorem degree_ofWord_lt (x : BitVec w) : (ofWord x).degree < w := by
  rw [degree_lt_iff_coeff_zero]
  intro n hn
  rw [coeff_ofWord, BitVec.getLsbD_of_ge x n hn, digit_false]

/-- Every polynomial of low degree is that of a word. -/
theorem exists_ofWord_eq {q : (ZMod 2)[X]} (h : q.degree < w) : ∃ x : BitVec w, ofWord x = q := by
  have hdigit : ∀ a : ZMod 2, digit (decide (a = 1)) = a := by decide
  refine ⟨(BitVec.ofBoolListLE ((List.range w).map fun i => decide (q.coeff i = 1))).setWidth w, ?_⟩
  ext n
  rw [coeff_ofWord, BitVec.getLsbD_setWidth, BitVec.getLsbD_ofBoolListLE]
  rcases Nat.lt_or_ge n w with hn | hn
  · rw [List.getD_eq_getElem?_getD, List.getElem?_map, List.getElem?_range hn, decide_eq_true hn,
      Bool.true_and]
    exact hdigit _
  · rw [decide_eq_false (Nat.not_lt.mpr hn), Bool.false_and, digit_false,
      (degree_lt_iff_coeff_zero _ _).mp h n hn]

end Words

/-! ## Bit strings -/

/-- The polynomial of a bit string, whose first bit is the leading coefficient. -/
noncomputable def ofBits : List Bool → (ZMod 2)[X]
  | [] => 0
  | b :: bs => C (digit b) * X ^ bs.length + ofBits bs

@[simp] theorem ofBits_replicate_false (n : ℕ) : ofBits (List.replicate n false) = 0 := by
  induction n with
  | zero => rfl
  | succ n ih => rw [List.replicate_succ, ofBits, ih, digit_false, C_0, zero_mul, zero_add]

theorem coeff_ofBits (bs : List Bool) (n : ℕ) :
    (ofBits bs).coeff n = digit (decide (n < bs.length) && bs[bs.length - 1 - n]?.getD false) := by
  induction bs with
  | nil => simp [ofBits]
  | cons b bs ih =>
      rw [ofBits, coeff_add, coeff_C_mul, coeff_X_pow, ih, List.length_cons, Nat.add_sub_cancel]
      rcases Nat.lt_trichotomy n bs.length with hlt | rfl | hgt
      · have hindex : bs.length - n = bs.length - 1 - n + 1 := by omega
        rw [if_neg (Nat.ne_of_lt hlt), hindex, List.getElem?_cons_succ]
        simp [hlt, Nat.lt_succ_of_lt hlt]
      · simp
      · rw [if_neg (Nat.ne_of_gt hgt)]
        simp [show ¬ n < bs.length by omega, show ¬ n < bs.length + 1 by omega]

/-! ## The register as long division -/

section Division

variable {w : ℕ} (poly : BitVec w)

/-- The generator of a register: a leading term above the word that is fed back. -/
noncomputable def generator : (ZMod 2)[X] := X ^ w + ofWord poly

theorem generator_monic : (generator poly).Monic :=
  monic_X_pow_add (degree_ofWord_lt poly)

theorem degree_generator : (generator poly).degree = w := by
  rw [generator, degree_add_eq_left_of_degree_lt, degree_X_pow]
  rw [degree_X_pow]
  exact degree_ofWord_lt poly

theorem ofWord_modByMonic (x : BitVec w) : ofWord x %ₘ generator poly = ofWord x := by
  rw [modByMonic_eq_self_iff (generator_monic poly), degree_generator]
  exact degree_ofWord_lt x

theorem X_mul_ofWord (hw : 0 < w) (reg : BitVec w) :
    X * ofWord reg = ofWord (reg <<< 1) + C (digit reg.msb) * X ^ w := by
  ext n
  rw [coeff_add, coeff_C_mul, coeff_X_pow, coeff_ofWord, BitVec.getLsbD_shiftLeft]
  cases n with
  | zero =>
      rw [mul_coeff_zero, coeff_X_zero, if_neg (by omega)]
      simp
  | succ n =>
      rw [coeff_X_mul, coeff_ofWord]
      rcases Nat.lt_trichotomy (n + 1) w with hlt | rfl | hgt
      · rw [if_neg (by omega)]
        simp [hlt]
      · rw [BitVec.msb_eq_getLsbD_last]
        simp
      · rw [BitVec.getLsbD_of_ge reg n (by omega), if_neg (by omega)]
        simp [show ¬ n + 1 < w by omega]

/-- One step of the register is one step of long division. -/
theorem ofWord_shiftStep (hw : 0 < w) (reg : BitVec w) (bit : Bool) :
    X * ofWord reg + C (digit bit) * X ^ w =
      ofWord (shiftStep poly reg bit) + C (digit (reg.msb ^^ bit)) * generator poly := by
  have hstep : ofWord (shiftStep poly reg bit) =
      ofWord (reg <<< 1) + C (digit (reg.msb ^^ bit)) * ofWord poly := by
    unfold shiftStep
    split_ifs with h
    · rw [ofWord_xor, h, digit_true, C_1, one_mul]
    · rw [Bool.not_eq_true] at h
      rw [h, digit_false, C_0, zero_mul, add_zero]
  rw [hstep, X_mul_ofWord hw, generator, digit_xor, C_add]
  have htwo := CharTwo.add_self_eq_zero ((C (digit reg.msb) + C (digit bit)) * ofWord poly)
  linear_combination -htwo

/-- **A register holds a remainder.** -/
theorem ofWord_foldl_shiftStep (hw : 0 < w) (reg : BitVec w) (bs : List Bool) :
    ofWord (bs.foldl (shiftStep poly) reg) =
      (ofWord reg * X ^ bs.length + ofBits bs * X ^ w) %ₘ generator poly := by
  induction bs generalizing reg with
  | nil => rw [List.foldl_nil, ofBits, zero_mul, add_zero, List.length_nil, pow_zero, mul_one,
      ofWord_modByMonic]
  | cons b bs ih =>
      rw [List.foldl_cons, ih]
      apply modByMonic_eq_of_dvd_sub (generator_monic poly)
      have hstep := ofWord_shiftStep poly hw reg b
      rw [List.length_cons, ofBits]
      exact ⟨-(C (digit (reg.msb ^^ b)) * X ^ bs.length), by linear_combination -X ^ bs.length * hstep⟩

/-- The checksum of a message: its remainder, `w` places further up. -/
theorem ofWord_checksum (hw : 0 < w) (bs : List Bool) :
    ofWord (bs.foldl (shiftStep poly) 0#w) = (ofBits bs * X ^ w) %ₘ generator poly := by
  rw [ofWord_foldl_shiftStep poly hw, ofWord_zero, zero_mul, zero_add]

/-- A message has a given checksum exactly when the generator divides the two together. -/
theorem checksum_eq_iff (hw : 0 < w) (bs : List Bool) (x : BitVec w) :
    x = bs.foldl (shiftStep poly) 0#w ↔ generator poly ∣ ofBits bs * X ^ w + ofWord x := by
  rw [← modByMonic_eq_zero_iff_dvd (generator_monic poly), add_modByMonic, ofWord_modByMonic,
    ← ofWord_checksum poly hw, ← ofWord_xor, ofWord_eq_zero, BitVec.xor_eq_zero_iff]
  exact eq_comm

end Division

/-! ## Errors -/

section Errors

variable {w : ℕ} {poly : BitVec w}

/-- The polynomial of an error in the given places. -/
noncomputable def pattern (places : Finset ℕ) : (ZMod 2)[X] := ∑ i ∈ places, X ^ i

theorem coeff_pattern (places : Finset ℕ) (n : ℕ) :
    (pattern places).coeff n = digit (decide (n ∈ places)) := by
  simp only [pattern, finsetSum_coeff, coeff_X_pow, Finset.sum_ite_eq, digit, decide_eq_true_eq]

/-- An error in an odd number of bits is detected if the generator has an even number of
terms. -/
theorem not_dvd_of_odd (heven : (generator poly).eval 1 = 0) {places : Finset ℕ}
    (hodd : Odd places.card) : ¬ generator poly ∣ pattern places := by
  rintro ⟨q, hq⟩
  have heval := congrArg (eval 1) hq
  rw [eval_mul, heven, zero_mul, pattern, eval_finsetSum] at heval
  simp only [eval_pow, eval_X, one_pow, Finset.sum_const, nsmul_eq_mul, mul_one] at heval
  rw [ZMod.natCast_eq_zero_iff_even] at heval
  exact (Nat.not_even_iff_odd.mpr hodd) heval

section Constant

variable (hw : 0 < w) (hconst : poly.getLsbD 0 = true)

include hw hconst

/-- With a constant term, the generator has no factor in common with `X`. -/
theorem dvd_of_dvd_X_pow_mul {n : ℕ} {q : (ZMod 2)[X]} (h : generator poly ∣ X ^ n * q) :
    generator poly ∣ q := by
  have hcoeff : (generator poly).coeff 0 = 1 := by
    rw [generator, coeff_add, coeff_X_pow, if_neg (Nat.ne_of_lt hw), coeff_ofWord, hconst,
      digit_true, zero_add]
  have hcoprime : IsCoprime (generator poly) X := by
    have hsplit := divX_mul_X_add (generator poly)
    rw [hcoeff, C_1] at hsplit
    exact ⟨1, -divX (generator poly), by linear_combination -hsplit⟩
  exact hcoprime.pow_right.dvd_of_dvd_mul_left h

/-- An error within `w` neighbouring places is detected. -/
theorem not_dvd_of_burst {places : Finset ℕ} {start : ℕ} (hne : places.Nonempty)
    (hburst : ∀ i ∈ places, start ≤ i ∧ i < start + w) : ¬ generator poly ∣ pattern places := by
  have hshift : pattern places =
      X ^ start * pattern ((Finset.range w).filter (start + · ∈ places)) := by
    ext n
    rw [coeff_X_pow_mul', coeff_pattern, coeff_pattern]
    by_cases hle : start ≤ n
    · have hiff : n ∈ places ↔
          n - start ∈ (Finset.range w).filter (start + · ∈ places) := by
        rw [Finset.mem_filter, Finset.mem_range, Nat.add_sub_cancel' hle]
        constructor
        · exact fun hn => ⟨by have := hburst n hn; omega, hn⟩
        · exact And.right
      rw [if_pos hle, decide_eq_decide.mpr hiff]
    · have hout : n ∉ places := fun hn => hle (hburst n hn).1
      rw [if_neg hle, decide_eq_false hout, digit_false]
  intro hdvd
  rw [hshift] at hdvd
  refine (generator_monic poly).not_dvd_of_degree_lt ?_ ?_ (dvd_of_dvd_X_pow_mul hw hconst hdvd)
  · rcases hne with ⟨i, hi⟩
    rcases hburst i hi with ⟨hle, hlt⟩
    intro hzero
    have hcoeff := congrArg (coeff · (i - start)) hzero
    have hin : i - start ∈ (Finset.range w).filter (start + · ∈ places) := by
      rw [Finset.mem_filter, Finset.mem_range, Nat.add_sub_cancel' hle]
      exact ⟨by omega, hi⟩
    simp only [coeff_pattern, hin, decide_true, digit_true, coeff_zero] at hcoeff
    exact one_ne_zero hcoeff
  · rw [degree_generator, degree_lt_iff_coeff_zero]
    intro n hn
    rw [coeff_pattern, decide_eq_false, digit_false]
    rw [Finset.mem_filter, Finset.mem_range]
    omega

end Constant

/-- A register that is only shifted does not hold a one after any of `n` steps. -/
def avoidsOne (poly : BitVec w) : ℕ → BitVec w → Bool
  | 0, _ => true
  | n + 1, reg => shiftStep poly reg false != 1 && avoidsOne poly n (shiftStep poly reg false)

theorem foldl_ne_one {n k : ℕ} {reg : BitVec w} (h : avoidsOne poly n reg = true) (hk : k < n) :
    (List.replicate (k + 1) false).foldl (shiftStep poly) reg ≠ 1 := by
  induction n generalizing k reg with
  | zero => contradiction
  | succ n ih =>
      rw [avoidsOne, Bool.and_eq_true, bne_iff_ne] at h
      cases k with
      | zero => exact h.1
      | succ k =>
          have hrest := ih h.2 (show k < n by omega)
          rwa [List.replicate_succ, List.foldl_cons]

/-- An error in two places is detected if a one that is shifted through the register does not
come around on the way from one to the other. -/
theorem not_dvd_of_pair (hw : 0 < w) (hconst : poly.getLsbD 0 = true) {n : ℕ}
    (horder : avoidsOne poly n 1 = true) {i k : ℕ} (hk : k < n) :
    ¬ generator poly ∣ pattern {i, i + (k + 1)} := by
  intro hdvd
  have hsplit : pattern {i, i + (k + 1)} = X ^ i * (1 + X ^ (k + 1)) := by
    rw [pattern, Finset.sum_pair (by omega), pow_add]
    ring
  have hone : ofWord (1 : BitVec w) = 1 := by
    ext m
    rw [coeff_ofWord, coeff_one]
    cases m with
    | zero => simp [hw]
    | succ m => simp
  rw [hsplit] at hdvd
  apply foldl_ne_one horder hk
  apply ofWord_injective
  have hzeros := ofWord_foldl_shiftStep poly hw 1 (List.replicate (k + 1) false)
  rw [ofBits_replicate_false, zero_mul, add_zero, List.length_replicate, hone, one_mul] at hzeros
  rw [hzeros, hone, ← hone, ← ofWord_modByMonic poly 1, hone]
  apply modByMonic_eq_of_dvd_sub (generator_monic poly)
  rw [CharTwo.sub_eq_add, add_comm]
  exact dvd_of_dvd_X_pow_mul hw hconst hdvd

end Errors

end BinaryPolynomial
