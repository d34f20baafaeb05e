import ObcGsInterface.Library.BinaryPolynomial
import ObcGsInterface.Verification.Fec.Tables
import Mathlib.Data.Int.ModEq
import Mathlib.RingTheory.AdjoinRoot

/-! # The field

Bytes with exclusive or and `field_mul` are the binary polynomials modulo the field polynomial,
and with `field_div` they are a field. -/

namespace ObcGsInterface

open Polynomial BinaryPolynomial ShiftRegister

-- The tables are never evaluated in a proof.
attribute [local irreducible] fieldCreate

/-! ## Residues of binary polynomials -/

section Residues

variable {p : BitVec 16}

variable (p) in
/-- The residue class of the polynomial whose coefficients are the bits of a byte. -/
noncomputable def residue (a : Byte) : AdjoinRoot (generator (feedback p)) :=
  AdjoinRoot.mk _ (ofWord a)

theorem residue_injective : Function.Injective (residue p) := by
  intro a b h
  rw [residue, residue, AdjoinRoot.mk_eq_mk, ← modByMonic_eq_zero_iff_dvd (generator_monic _),
    sub_modByMonic, ofWord_modByMonic, ofWord_modByMonic, sub_eq_zero] at h
  exact ofWord_injective h

@[simp] theorem residue_zero : residue p 0 = 0 := by
  have hzero : ofWord (0 : Byte) = 0 := ofWord_zero
  rw [residue, hzero, map_zero]

@[simp] theorem residue_one : residue p 1 = 1 := by
  have hone : ofWord (1 : Byte) = 1 := by
    ext n
    rw [coeff_ofWord, coeff_one]
    rcases n with _ | n
    · rfl
    · rw [if_neg (Nat.succ_ne_zero n)]
      simp [BitVec.getLsbD_one]
  rw [residue, hone, map_one]

@[simp] theorem residue_xor (a b : Byte) : residue p (a ^^^ b) = residue p a + residue p b := by
  rw [residue, ofWord_xor, map_add]
  rfl

theorem residue_timesAlpha (a : Byte) :
    residue p (timesAlpha p a) = AdjoinRoot.root _ * residue p a := by
  have hstep := ofWord_shiftStep (feedback p) (by decide : 0 < 8) a false
  rw [digit_false, C_0, zero_mul, add_zero] at hstep
  rw [residue, residue, ← AdjoinRoot.mk_X, ← map_mul, hstep, map_add, map_mul, AdjoinRoot.mk_self,
    mul_zero, add_zero]
  rfl

theorem residue_alphaPow (i : ℕ) : residue p (alphaPow p i) = AdjoinRoot.root _ ^ i := by
  induction i with
  | zero => rw [alphaPow_zero, residue_one, pow_zero]
  | succ i ih => rw [alphaPow_succ, residue_timesAlpha, ih, pow_succ']

end Residues

/-! ## The operations -/

section Operations

variable {p : BitVec 16} [PrimitivePoly p]

theorem expAt_eq {i : ℕ} (h : i < 512) : (fieldCreate p).expAt i = alphaPow p i := by
  obtain ⟨s, hcreated, hs⟩ := created_fieldCreate (p := p)
  rw [← hs]
  exact hcreated.expAt_eq i (by omega)

theorem logAt_zero : (fieldCreate p).logAt 0 = 0 := by
  obtain ⟨s, hcreated, hs⟩ := created_fieldCreate (p := p)
  rw [← hs]
  exact hcreated.logAt_zero

theorem logAt_alphaPow {i : ℕ} (h : i ∈ Set.Icc 1 255) :
    ((fieldCreate p).logAt (alphaPow p i)).toNat = i := by
  obtain ⟨s, hcreated, hs⟩ := created_fieldCreate (p := p)
  rw [← hs, hcreated.logAt_eq i h.1 (by have := h.2; omega) h.2, BitVec.toNat_ofNat,
    Nat.mod_eq_of_lt (by have := h.2; omega)]

/-- The logarithm of a byte other than 0 is between 1 and 255. -/
theorem logAt_spec {a : Byte} (ha : a ≠ 0) : ((fieldCreate p).logAt a).toNat ∈ Set.Icc 1 255 ∧
    alphaPow p ((fieldCreate p).logAt a).toNat = a := by
  obtain ⟨i, hi, rfl⟩ := exists_alphaPow_eq (p := p) ha
  rw [logAt_alphaPow hi]
  exact ⟨hi, rfl⟩

theorem residue_eq_root_pow {a : Byte} (ha : a ≠ 0) :
    residue p a = AdjoinRoot.root _ ^ ((fieldCreate p).logAt a).toNat := by
  rw [← residue_alphaPow, (logAt_spec ha).2]

theorem root_pow_255 : (AdjoinRoot.root (generator (feedback p))) ^ 255 = 1 := by
  rw [← residue_alphaPow, alphaPow_255, residue_one]

@[simp] theorem residue_mul (a b : Byte) :
    residue p ((fieldCreate p).mul a b) = residue p a * residue p b := by
  rw [RsField.mul]
  split
  · next hzero =>
      rw [residue_zero]
      rcases hzero with rfl | rfl
      · rw [residue_zero, zero_mul]
      · rw [residue_zero, mul_zero]
  · next hzero =>
      obtain ⟨ha, hb⟩ := not_or.mp hzero
      have hla := (logAt_spec (p := p) ha).1.2
      have hlb := (logAt_spec (p := p) hb).1.2
      rw [expAt_eq (by omega), residue_alphaPow, residue_eq_root_pow ha, residue_eq_root_pow hb,
        pow_add]

theorem residue_div_mul (a : Byte) {b : Byte} (hb : b ≠ 0) :
    residue p ((fieldCreate p).div a b) * residue p b = residue p a := by
  rw [RsField.div, if_neg hb]
  split
  · next ha => rw [ha, residue_zero, zero_mul]
  · next ha =>
      have hla := (logAt_spec (p := p) ha).1.2
      have hlb := (logAt_spec (p := p) hb).1
      have hpos := hlb.1
      have hle := hlb.2
      rw [expAt_eq (by omega), residue_alphaPow, residue_eq_root_pow hb, ← pow_add,
        Nat.sub_add_cancel (by omega), pow_add, root_pow_255, one_mul, residue_eq_root_pow ha]

end Operations

/-! ## The field -/

/-- A byte as an element of the field of the polynomial `p`. -/
@[ext] structure FieldElement (p : BitVec 16) where
  byte : Byte
  deriving DecidableEq

namespace FieldElement

variable {p : BitVec 16}

instance : Zero (FieldElement p) := ⟨⟨0⟩⟩

instance : One (FieldElement p) := ⟨⟨1⟩⟩

instance : Add (FieldElement p) := ⟨fun a b => ⟨(fieldCreate p).add a.byte b.byte⟩⟩

instance : Neg (FieldElement p) := ⟨id⟩

instance : Mul (FieldElement p) := ⟨fun a b => ⟨(fieldCreate p).mul a.byte b.byte⟩⟩

instance : Inv (FieldElement p) := ⟨fun a => ⟨(fieldCreate p).div 1 a.byte⟩⟩

theorem zero_def : (0 : FieldElement p) = ⟨0⟩ := rfl

theorem one_def : (1 : FieldElement p) = ⟨1⟩ := rfl

theorem residue_byte_injective : Function.Injective fun a : FieldElement p => residue p a.byte :=
  fun _ _ h => FieldElement.ext (residue_injective h)

@[simp] theorem residue_byte_zero : residue p (0 : FieldElement p).byte = 0 := residue_zero

@[simp] theorem residue_byte_one : residue p (1 : FieldElement p).byte = 1 := residue_one

@[simp] theorem residue_byte_add (a b : FieldElement p) :
    residue p (a + b).byte = residue p a.byte + residue p b.byte := residue_xor a.byte b.byte

@[simp] theorem residue_byte_mul [PrimitivePoly p] (a b : FieldElement p) :
    residue p (a * b).byte = residue p a.byte * residue p b.byte := residue_mul a.byte b.byte

theorem add_self (a : FieldElement p) : a + a = 0 := FieldElement.ext BitVec.xor_self

theorem byte_eq_zero {a : FieldElement p} : a.byte = 0 ↔ a = 0 :=
  ⟨fun h => FieldElement.ext h, fun h => congrArg byte h⟩

theorem mk_eq_zero {a : Byte} : (⟨a⟩ : FieldElement p) = 0 ↔ a = 0 :=
  (byte_eq_zero (p := p)).symm

@[simp] theorem mk_add (a b : Byte) :
    (⟨(fieldCreate p).add a b⟩ : FieldElement p) = ⟨a⟩ + ⟨b⟩ := rfl

@[simp] theorem mk_mul (a b : Byte) :
    (⟨(fieldCreate p).mul a b⟩ : FieldElement p) = ⟨a⟩ * ⟨b⟩ := rfl

theorem byte_add (a b : FieldElement p) :
    (a + b).byte = (fieldCreate p).add a.byte b.byte := rfl

theorem neg_eq (a : FieldElement p) : -a = a := rfl

variable [PrimitivePoly p]

/-- The laws hold because they hold of residues. -/
instance : CommRing (FieldElement p) where
  add_assoc a b c := residue_byte_injective (by simp [add_assoc])
  zero_add a := residue_byte_injective (by simp)
  add_zero a := residue_byte_injective (by simp)
  add_comm a b := residue_byte_injective (by simp [add_comm])
  neg_add_cancel a := add_self a
  mul_assoc a b c := residue_byte_injective (by simp [mul_assoc])
  one_mul a := residue_byte_injective (by simp)
  mul_one a := residue_byte_injective (by simp)
  mul_comm a b := residue_byte_injective (by simp [mul_comm])
  zero_mul a := residue_byte_injective (by simp)
  mul_zero a := residue_byte_injective (by simp)
  left_distrib a b c := residue_byte_injective (by simp [mul_add])
  right_distrib a b c := residue_byte_injective (by simp [add_mul])
  nsmul := nsmulRec
  zsmul := zsmulRec

omit [PrimitivePoly p] in
theorem zero_ne_one_byte : (0 : FieldElement p).byte ≠ (1 : FieldElement p).byte := by
  change (0 : Byte) ≠ 1
  decide

instance : Field (FieldElement p) where
  exists_pair_ne := ⟨0, 1, fun h => absurd (congrArg byte h) zero_ne_one_byte⟩
  mul_inv_cancel a ha := by
    apply residue_byte_injective
    have hbyte : a.byte ≠ 0 := fun h => ha (FieldElement.ext h)
    have hdiv := residue_div_mul (p := p) 1 hbyte
    simp only [residue_byte_mul, residue_byte_one]
    rw [mul_comm, ← residue_one, ← hdiv]
    rfl
  inv_zero := rfl
  nnqsmul := _
  qsmul := _

theorem sub_eq (a b : FieldElement p) : a - b = a + b := by rw [sub_eq_add_neg, neg_eq]

@[simp] theorem mk_sub (a b : Byte) :
    (⟨(fieldCreate p).sub a b⟩ : FieldElement p) = ⟨a⟩ - ⟨b⟩ := (sub_eq _ _).symm

@[simp] theorem mk_div (a b : Byte) :
    (⟨(fieldCreate p).div a b⟩ : FieldElement p) = ⟨a⟩ / ⟨b⟩ := by
  by_cases hb : b = 0
  · have hzero : (fieldCreate p).div a b = 0 := by
      rw [RsField.div, if_pos hb]
      split <;> rfl
    rw [hzero, hb, ← zero_def, div_zero]
  · have hne : (⟨b⟩ : FieldElement p) ≠ 0 := mt mk_eq_zero.mp hb
    rw [eq_div_iff hne]
    exact residue_byte_injective ((residue_byte_mul _ _).trans (residue_div_mul a hb))

theorem mk_sum (a : Byte) (n : ℕ) :
    (⟨(fieldCreate p).sum a n⟩ : FieldElement p) = n * ⟨a⟩ := by
  have htwo : (2 : FieldElement p) = 0 := by
    rw [← one_add_one_eq_two]
    exact add_self 1
  obtain ⟨k, hk⟩ := Nat.even_or_odd' n
  rw [RsField.sum]
  rcases hk with rfl | rfl
  · rw [if_neg (by omega), Nat.cast_mul, Nat.cast_two, htwo, zero_mul, zero_mul]
    rfl
  · rw [if_pos (by omega), Nat.cast_add, Nat.cast_mul, Nat.cast_two, htwo, zero_mul, zero_add,
      Nat.cast_one, one_mul]

/-! ## Powers of the primitive element -/

variable (p) in
/-- The element whose powers the tables list. -/
def alpha : FieldElement p := ⟨alphaPow p 1⟩

theorem alpha_pow (i : ℕ) : alpha p ^ i = ⟨alphaPow p i⟩ := by
  apply residue_byte_injective
  induction i with
  | zero => rw [pow_zero]; rfl
  | succ i ih =>
      simp only at ih
      simp only [pow_succ, residue_byte_mul, ih]
      rw [residue_alphaPow, residue_alphaPow]
      simp only [alpha, residue_alphaPow, pow_succ, pow_zero, one_mul]

theorem alpha_ne_zero : alpha p ≠ 0 := mt mk_eq_zero.mp (alphaPow_ne_zero 1)

theorem alpha_pow_255 : alpha p ^ 255 = 1 := by
  rw [alpha_pow, alphaPow_255]
  rfl

theorem alpha_pow_mod (i : ℕ) : alpha p ^ (i % 255) = alpha p ^ i := by
  nth_rewrite 2 [← Nat.div_add_mod i 255]
  rw [pow_add, pow_mul, alpha_pow_255, one_pow, one_mul]

theorem alpha_pow_inj {i j : ℕ} (hi : i < 255) (hj : j < 255) (h : alpha p ^ i = alpha p ^ j) :
    i = j := by
  have hnext : alpha p ^ (i + 1) = alpha p ^ (j + 1) := by rw [pow_succ, pow_succ, h]
  rw [alpha_pow, alpha_pow] at hnext
  have := alphaPow_injOn (p := p) ⟨by omega, by omega⟩ ⟨by omega, by omega⟩
    (congrArg byte hnext)
  omega

theorem mk_expAt {i : ℕ} (h : i < 512) :
    (⟨(fieldCreate p).expAt i⟩ : FieldElement p) = alpha p ^ i := by
  rw [expAt_eq h, alpha_pow]

theorem alpha_pow_logAt {a : Byte} (ha : a ≠ 0) :
    alpha p ^ ((fieldCreate p).logAt a).toNat = ⟨a⟩ := by
  rw [alpha_pow, (logAt_spec ha).2]

theorem logAt_eq_zero {a : Byte} : (fieldCreate p).logAt a = 0 ↔ a = 0 := by
  constructor
  · intro h
    by_contra ha
    have hpos := (logAt_spec (p := p) ha).1.1
    rw [h] at hpos
    exact absurd hpos (by decide)
  · rintro rfl
    exact logAt_zero

@[simp] theorem mk_mulLogElement (l r : Byte) :
    (⟨(fieldCreate p).mulLogElement l r⟩ : FieldElement p) =
      alpha p ^ l.toNat * alpha p ^ r.toNat := by
  have hl := l.isLt
  have hr := r.isLt
  rw [RsField.mulLogElement, mk_expAt (by omega), pow_add]

/-- The sum of two logarithms, wrapped into the range from 1 to 255. -/
theorem mulLog_spec {l r : Byte} (hl : 1 ≤ l.toNat) (hr : 1 ≤ r.toNat) :
    1 ≤ ((fieldCreate p).mulLog l r).toNat ∧
      alpha p ^ ((fieldCreate p).mulLog l r).toNat = alpha p ^ l.toNat * alpha p ^ r.toNat := by
  have hl' := l.isLt
  have hr' := r.isLt
  rw [RsField.mulLog]
  split
  · next hwrap =>
      rw [BitVec.toNat_ofNat, Nat.mod_eq_of_lt (by omega), ← pow_add]
      refine ⟨by omega, ?_⟩
      nth_rewrite 2 [← Nat.sub_add_cancel (Nat.le_of_lt hwrap)]
      rw [pow_add, alpha_pow_255, mul_one]
  · next hwrap =>
      rw [BitVec.toNat_ofNat, Nat.mod_eq_of_lt (by omega), ← pow_add]
      exact ⟨by omega, rfl⟩

theorem divLog_spec {l r : Byte} (hl : 1 ≤ l.toNat) (hr : 1 ≤ r.toNat) :
    1 ≤ ((fieldCreate p).divLog l r).toNat ∧
      alpha p ^ ((fieldCreate p).divLog l r).toNat * alpha p ^ r.toNat = alpha p ^ l.toNat := by
  have hl' := l.isLt
  have hr' := r.isLt
  have hwhole : alpha p ^ (255 + l.toNat) = alpha p ^ l.toNat := by
    rw [pow_add, alpha_pow_255, one_mul]
  rw [RsField.divLog]
  split
  · next hwrap =>
      rw [BitVec.toNat_ofNat, Nat.mod_eq_of_lt (by omega), ← pow_add]
      refine ⟨by omega, ?_⟩
      congr 1
      omega
  · next hwrap =>
      rw [BitVec.toNat_ofNat, Nat.mod_eq_of_lt (by omega), ← pow_add, ← hwhole]
      refine ⟨by omega, ?_⟩
      congr 1
      omega

theorem tmod_wrapped (k : ℤ) :
    (if Int.tmod k 255 < 0 then Int.tmod k 255 + 255 else Int.tmod k 255) = k % 255 := by
  rw [Int.tmod_eq_emod]
  split_ifs <;> omega

/-- `field_pow` of an element other than 0. -/
theorem mk_pow {a : Byte} (ha : a ≠ 0) (k : ℤ) :
    (⟨(fieldCreate p).pow a k⟩ : FieldElement p) = ⟨a⟩ ^ k := by
  have hmod : (if Int.tmod (((fieldCreate p).logAt a).toNat * k) 255 < 0
      then Int.tmod (((fieldCreate p).logAt a).toNat * k) 255 + 255
      else Int.tmod (((fieldCreate p).logAt a).toNat * k) 255) =
      ((fieldCreate p).logAt a).toNat * k % 255 := by
    exact tmod_wrapped _
  have hlow := Int.emod_nonneg (((fieldCreate p).logAt a).toNat * k) (by decide : (255 : ℤ) ≠ 0)
  have hhigh := Int.emod_lt_of_pos (((fieldCreate p).logAt a).toNat * k)
    (by decide : (0 : ℤ) < 255)
  rw [RsField.pow, hmod, mk_expAt (by omega), ← zpow_natCast, Int.toNat_of_nonneg hlow, ← alpha_pow_logAt ha,
    ← zpow_natCast, ← zpow_mul]
  nth_rewrite 2 [← Int.mul_ediv_add_emod (((fieldCreate p).logAt a).toNat * k) 255]
  rw [zpow_add₀ alpha_ne_zero, zpow_mul, zpow_ofNat, alpha_pow_255, one_zpow, one_mul]

/-- The logarithm of 0 counts as 0, so that `field_pow` takes 0 for 1. -/
theorem pow_zero_elem (k : ℤ) : (fieldCreate p).pow 0 k = 1 := by
  have hlog : ((0 : Byte).toNat : ℤ) * k = 0 := by
    change (0 : ℤ) * k = 0
    exact zero_mul k
  rw [RsField.pow, logAt_zero, tmod_wrapped, hlog]
  exact expAt_eq (by decide)

end FieldElement

end ObcGsInterface
