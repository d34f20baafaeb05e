import ObcGsInterface.Verification.Fec.Field
import Mathlib.GroupTheory.OrderOfElement
import Mathlib.Tactic.LinearCombination
import Mathlib.Tactic.NormNum.Prime

/-! # Primitive polynomials

What `find_rs_primitive_poly` accepts, with a quick way to see that a polynomial is accepted, and
that it prints the polynomials which `correct.h` names. -/

namespace ObcGsInterface

open Polynomial BinaryPolynomial ShiftRegister

-- The tables are never evaluated in a proof.
attribute [local irreducible] fieldCreate

section Order

variable {p : BitVec 16}

/-- The powers are different when the order of `x` is 255. -/
theorem alphaPow_injOn_of_orderOf (h : orderOf (AdjoinRoot.root (generator (feedback p))) = 255) :
    Set.InjOn (alphaPow p) (Set.Icc 1 255) := by
  intro i hi j hj heq
  have hroot := congrArg (residue p) heq
  rw [residue_alphaPow, residue_alphaPow] at hroot
  have hone := pow_orderOf_eq_one (AdjoinRoot.root (generator (feedback p)))
  rw [h] at hone
  -- Times the power 254, the powers are those from 0 to 254.
  have hshift (k : ℕ) (hk : 1 ≤ k) : AdjoinRoot.root (generator (feedback p)) ^ k *
      AdjoinRoot.root (generator (feedback p)) ^ 254 =
      AdjoinRoot.root (generator (feedback p)) ^ (k - 1) := by
    rw [← pow_add, show k + 254 = 255 + (k - 1) by omega, pow_add, hone, one_mul]
  have hback := congrArg (· * AdjoinRoot.root (generator (feedback p)) ^ 254) hroot
  simp only [hshift i hi.1, hshift j hj.1] at hback
  have hlt (k : ℕ) (hk : k ∈ Set.Icc 1 255) :
      k - 1 ∈ Set.Iio (orderOf (AdjoinRoot.root (generator (feedback p)))) := by
    rw [h, Set.mem_Iio]
    have := hk.1
    have := hk.2
    omega
  have hsame := pow_injOn_Iio_orderOf (hlt i hi) (hlt j hj) hback
  have := hi.1
  have := hj.1
  omega

theorem orderOf_root [PrimitivePoly p] :
    orderOf (AdjoinRoot.root (generator (feedback p))) = 255 := by
  have hdvd := orderOf_dvd_of_pow_eq_one (root_pow_255 (p := p))
  have hpos := Nat.pos_of_dvd_of_pos hdvd (by decide)
  have hle := Nat.le_of_dvd (by decide) hdvd
  have hone := pow_orderOf_eq_one (AdjoinRoot.root (generator (feedback p)))
  rw [← root_pow_255 (p := p), ← residue_alphaPow, ← residue_alphaPow] at hone
  exact alphaPow_injOn ⟨hpos, hle⟩ ⟨by decide, le_rfl⟩ (residue_injective hone)

/-- Every residue is that of a byte. -/
theorem exists_residue_eq (q : (ZMod 2)[X]) :
    ∃ a, residue p a = AdjoinRoot.mk (generator (feedback p)) q := by
  have hdegree : (q %ₘ generator (feedback p)).degree < 8 := by
    have hlt := degree_modByMonic_lt q (generator_monic (feedback p))
    rwa [degree_generator] at hlt
  obtain ⟨a, ha⟩ := exists_ofWord_eq hdegree
  refine ⟨a, ?_⟩
  rw [residue, ha, AdjoinRoot.mk_eq_mk]
  refine ⟨-(q /ₘ generator (feedback p)), ?_⟩
  linear_combination modByMonic_add_div q (generator (feedback p))

/-- An accepted polynomial has no divisors, as there are none of zero among the bytes. -/
theorem generator_irreducible [PrimitivePoly p] : Irreducible (generator (feedback p)) := by
  have hmonic := generator_monic (feedback p)
  refine Prime.irreducible ⟨hmonic.ne_zero, fun hunit => ?_, fun q r hdvd => ?_⟩
  · have hdegree := degree_generator (feedback p)
    rw [degree_eq_zero_of_isUnit hunit] at hdegree
    contradiction
  · obtain ⟨a, ha⟩ := exists_residue_eq (p := p) q
    obtain ⟨b, hb⟩ := exists_residue_eq (p := p) r
    rw [← AdjoinRoot.mk_eq_zero, map_mul, ← ha, ← hb, ← residue_mul, ← residue_zero] at hdvd
    have hzero : (⟨a⟩ : FieldElement p) * ⟨b⟩ = 0 := FieldElement.ext (residue_injective hdvd)
    rcases mul_eq_zero.mp hzero with h | h
    · rw [FieldElement.mk_eq_zero] at h
      rw [h, residue_zero] at ha
      exact .inl (AdjoinRoot.mk_eq_zero.mp ha.symm)
    · rw [FieldElement.mk_eq_zero] at h
      rw [h, residue_zero] at hb
      exact .inr (AdjoinRoot.mk_eq_zero.mp hb.symm)

/-- **The search.** `trypoly` accepts the primitive polynomials: the irreducible ones with `x` of
the order 255. -/
theorem trypoly_iff_primitive (hp : IsFieldPolynomial p) :
    trypoly p = true ↔ Irreducible (generator (feedback p)) ∧
      orderOf (AdjoinRoot.root (generator (feedback p))) = 255 := by
  constructor
  · intro haccepted
    have : PrimitivePoly p := ⟨hp, haccepted⟩
    exact ⟨generator_irreducible, orderOf_root⟩
  · rintro ⟨-, horder⟩
    exact (trypoly_iff hp).mpr (alphaPow_injOn_of_orderOf horder)

theorem trypoly_iff_primitive_ccsds : trypoly correctRsPrimitivePolynomialCcsds = true ↔
    Irreducible (generator (feedback correctRsPrimitivePolynomialCcsds)) ∧
      orderOf (AdjoinRoot.root (generator (feedback correctRsPrimitivePolynomialCcsds))) = 255 :=
  trypoly_iff_primitive (by decide)

/-- As 255 is 3 * 5 * 17, four powers tell whether a polynomial is accepted. -/
theorem trypoly_iff_powers (hp : IsFieldPolynomial p) :
    trypoly p = true ↔
      alphaPow p 255 = 1 ∧ alphaPow p 85 ≠ 1 ∧ alphaPow p 51 ≠ 1 ∧ alphaPow p 15 ≠ 1 := by
  have hroot (i : ℕ) : AdjoinRoot.root (generator (feedback p)) ^ i = 1 ↔ alphaPow p i = 1 := by
    rw [← residue_alphaPow, ← residue_one]
    exact residue_injective.eq_iff
  constructor
  · intro haccepted
    have : PrimitivePoly p := ⟨hp, haccepted⟩
    have hne (i : ℕ) (hi : ¬ 255 ∣ i) : alphaPow p i ≠ 1 := by
      intro hone
      have hdvd := orderOf_dvd_of_pow_eq_one ((hroot i).mpr hone)
      rw [orderOf_root] at hdvd
      exact hi hdvd
    exact ⟨(hroot 255).mp root_pow_255, hne 85 (by decide), hne 51 (by decide), hne 15 (by decide)⟩
  · rintro ⟨h255, h85, h51, h15⟩
    refine (trypoly_iff hp).mpr (alphaPow_injOn_of_orderOf ?_)
    refine orderOf_eq_of_pow_and_pow_div_prime (by decide) ((hroot 255).mpr h255)
      fun q hq hdvd => ?_
    have hsplit : q = 3 ∨ q = 5 ∨ q = 17 := by
      have hproduct : q ∣ 3 * (5 * 17) := hdvd
      rw [hq.dvd_mul, hq.dvd_mul, Nat.prime_dvd_prime_iff_eq hq (by norm_num),
        Nat.prime_dvd_prime_iff_eq hq (by norm_num), Nat.prime_dvd_prime_iff_eq hq (by norm_num)]
        at hproduct
      exact hproduct
    rcases hsplit with rfl | rfl | rfl
    · exact mt (hroot 85).mp h85
    · exact mt (hroot 51).mp h51
    · exact mt (hroot 15).mp h15

/-! ## The names of `correct.h` -/

/-- The element that the loops go on to, as a number. -/
def nextElement (poly element : ℕ) : ℕ :=
  if element * 2 > 255 then element * 2 ^^^ poly else element * 2

/-- The element after so many rounds. -/
def elementAfter (poly : ℕ) : ℕ → ℕ → ℕ
  | 0, element => element
  | rounds + 1, element => elementAfter poly rounds (nextElement poly element)

/-- The four powers, for the number of a polynomial. -/
def HasOrder255 (poly : ℕ) : Prop :=
  elementAfter poly 255 1 = 1 ∧ elementAfter poly 85 1 ≠ 1 ∧ elementAfter poly 51 1 ≠ 1 ∧
    elementAfter poly 15 1 ≠ 1

instance (poly : ℕ) : Decidable (HasOrder255 poly) := inferInstanceAs (Decidable (_ ∧ _ ∧ _ ∧ _))

theorem toNat_timesAlpha (hp : IsFieldPolynomial p) (a : Byte) :
    (timesAlpha p a).toNat = nextElement p.toNat a.toNat := by
  have hdouble : (a.setWidth 16 * (2 : BitVec 16)).toNat = a.toNat * 2 := by
    have htwo : (2 : BitVec 16).toNat = 2 := rfl
    rw [BitVec.toNat_mul, BitVec.toNat_setWidth, htwo]
    have := a.isLt
    omega
  have hwidth : ((timesAlpha p a).setWidth 16).toNat = (timesAlpha p a).toNat := by
    have := (timesAlpha p a).isLt
    rw [BitVec.toNat_setWidth, Nat.mod_eq_of_lt (by omega)]
  rw [← hwidth, ← element_step hp a, nextElement, hdouble]
  split
  · rw [BitVec.toNat_xor, hdouble]
  · exact hdouble

theorem elementAfter_alphaPow (hp : IsFieldPolynomial p) (rounds i : ℕ) :
    elementAfter p.toNat rounds (alphaPow p i).toNat = (alphaPow p (i + rounds)).toNat := by
  induction rounds generalizing i with
  | zero => rfl
  | succ rounds ih =>
      rw [elementAfter, ← toNat_timesAlpha hp, ← alphaPow_succ, ih]
      congr 2
      omega

theorem trypoly_iff_hasOrder255 (hp : IsFieldPolynomial p) :
    trypoly p = true ↔ HasOrder255 p.toNat := by
  have hpower (k : ℕ) : alphaPow p k = 1 ↔ elementAfter p.toNat k 1 = 1 := by
    have hafter := elementAfter_alphaPow hp k 0
    rw [Nat.zero_add, alphaPow_zero] at hafter
    rw [← BitVec.toNat_inj, ← hafter]
    rfl
  rw [trypoly_iff_powers hp, HasOrder255, ne_eq, ne_eq, ne_eq, hpower, hpower, hpower, hpower]

theorem isFieldPolynomial_ofNat {poly : ℕ} (h : poly ∈ List.range' 256 256) :
    IsFieldPolynomial (BitVec.ofNat 16 poly) ∧ (BitVec.ofNat 16 poly).toNat = poly := by
  rw [List.mem_range'_1] at h
  have hnumber : (BitVec.ofNat 16 poly).toNat = poly := by
    rw [BitVec.toNat_ofNat, Nat.mod_eq_of_lt (by omega)]
  rw [IsFieldPolynomial, hnumber]
  omega

/-- **The search prints the polynomials that `correct.h` names**, in the same order. -/
theorem findRsPrimitivePoly_eq : findRsPrimitivePoly = correctRsPrimitivePolynomials := by
  have hsearch : (List.range' 256 256).filter (trypoly ∘ BitVec.ofNat 16) =
      (List.range' 256 256).filter fun poly => HasOrder255 poly := by
    refine List.filter_congr fun poly hpoly => ?_
    obtain ⟨hfield, hnumber⟩ := isFieldPolynomial_ofNat hpoly
    rw [Function.comp_apply, Bool.eq_iff_iff, trypoly_iff_hasOrder255 hfield, hnumber,
      decide_eq_true_eq]
  rw [findRsPrimitivePoly, List.filter_map, hsearch]
  decide +kernel

/-- Each of them can be used. -/
theorem primitivePoly_of_mem (h : p ∈ correctRsPrimitivePolynomials) : PrimitivePoly p := by
  rw [← findRsPrimitivePoly_eq, findRsPrimitivePoly, List.mem_filter, List.mem_map] at h
  obtain ⟨⟨poly, hpoly, rfl⟩, haccepted⟩ := h
  exact ⟨(isFieldPolynomial_ofNat hpoly).1, haccepted⟩

end Order

/-- The polynomial of the link. -/
instance : PrimitivePoly correctRsPrimitivePolynomialCcsds := primitivePoly_of_mem (by decide)

/-! ## The arithmetic -/

section Arithmetic

variable {p : BitVec 16} [PrimitivePoly p]

variable (p) in
/-- Taking residues. -/
noncomputable def residueHom : FieldElement p →+* AdjoinRoot (generator (feedback p)) where
  toFun a := residue p a.byte
  map_zero' := FieldElement.residue_byte_zero
  map_one' := FieldElement.residue_byte_one
  map_add' := FieldElement.residue_byte_add
  map_mul' := FieldElement.residue_byte_mul

theorem residueHom_bijective : Function.Bijective (residueHom p) := by
  refine ⟨FieldElement.residue_byte_injective, fun r => ?_⟩
  obtain ⟨q, rfl⟩ := AdjoinRoot.mk_surjective r
  obtain ⟨a, ha⟩ := exists_residue_eq (p := p) q
  exact ⟨⟨a⟩, ha⟩

variable (p) in
/-- The field of the tables is the ring of residues. -/
noncomputable def residueEquiv : FieldElement p ≃+* AdjoinRoot (generator (feedback p)) :=
  RingEquiv.ofBijective (residueHom p) residueHom_bijective

theorem residueEquiv_mk (a : Byte) : residueEquiv p ⟨a⟩ = residue p a := rfl

/-- A logarithm is at most 255. -/
theorem powFits_of_abs_le (field : RsField) (elem : Byte) {k : ℤ} (h : |k| ≤ 8421504) :
    field.PowFits elem k := by
  obtain ⟨hlow, hhigh⟩ := abs_le.mp h
  have hlog : ((field.logAt elem).toNat : ℤ) ≤ 255 := by
    have := (field.logAt elem).isLt
    omega
  constructor
  · nlinarith
  · nlinarith

/-- **The arithmetic.** With the tables of an accepted polynomial the functions of `field.h` are
the operations of the field of binary polynomials modulo that polynomial: every residue is that
of exactly one byte, a quotient is the one solution of its equation, and the powers of a byte
other than 0 with negative and positive exponents are its powers, while the product of logarithm
and exponent fits an `int`. A quotient by 0 is 0, and every power of 0 is 1. -/
theorem fieldOperations (a b : Byte) (n : ℕ) (k : ℤ) :
    Function.Bijective (residue p) ∧
      residue p ((fieldCreate p).add a b) = residue p a + residue p b ∧
      residue p ((fieldCreate p).sub a b) = residue p a - residue p b ∧
      residue p ((fieldCreate p).sum a n) = n * residue p a ∧
      residue p ((fieldCreate p).mul a b) = residue p a * residue p b ∧
      (b ≠ 0 → ∀ c, residue p c * residue p b = residue p a ↔ c = (fieldCreate p).div a b) ∧
      (fieldCreate p).div a 0 = 0 ∧
      (a ≠ 0 → (fieldCreate p).pow a 0 = 1 ∧
        ((fieldCreate p).PowFits a k → (fieldCreate p).PowFits a (k + 1) →
          (fieldCreate p).pow a (k + 1) = (fieldCreate p).mul ((fieldCreate p).pow a k) a)) ∧
      (fieldCreate p).pow 0 k = 1 := by
  refine ⟨⟨residue_injective, fun r => ?_⟩, residue_xor a b, ?_, ?_, residue_mul a b,
    fun hb c => ?_, ?_, fun ha => ⟨?_, fun _ _ => ?_⟩, FieldElement.pow_zero_elem k⟩
  · obtain ⟨x, rfl⟩ := (residueEquiv p).surjective r
    exact ⟨x.byte, rfl⟩
  · simp only [← residueEquiv_mk, FieldElement.mk_sub, map_sub]
  · simp only [← residueEquiv_mk, FieldElement.mk_sum, map_mul, map_natCast]
  · have hne : (⟨b⟩ : FieldElement p) ≠ 0 := mt FieldElement.mk_eq_zero.mp hb
    simp only [← residueEquiv_mk, ← map_mul, (residueEquiv p).injective.eq_iff]
    rw [← eq_div_iff hne, ← FieldElement.mk_div, FieldElement.mk.injEq]
  · rw [RsField.div, if_pos rfl]
    exact ite_self 0
  · have hpow := FieldElement.mk_pow (p := p) ha 0
    rw [zpow_zero] at hpow
    exact congrArg FieldElement.byte hpow
  · have hne : (⟨a⟩ : FieldElement p) ≠ 0 := mt FieldElement.mk_eq_zero.mp ha
    have hpow := FieldElement.mk_pow (p := p) ha (k + 1)
    rw [zpow_add_one₀ hne, ← FieldElement.mk_pow ha, ← FieldElement.mk_mul] at hpow
    exact congrArg FieldElement.byte hpow

theorem fieldOperations_ccsds :
    let field := fieldCreate correctRsPrimitivePolynomialCcsds
    (∀ c, residue correctRsPrimitivePolynomialCcsds c *
        residue correctRsPrimitivePolynomialCcsds 3 =
          residue correctRsPrimitivePolynomialCcsds 2 ↔ c = field.div 2 3) ∧
      field.pow 2 (-7 + 1) = field.mul (field.pow 2 (-7)) 2 := by
  obtain ⟨-, -, -, -, -, hdiv, -, hpow, -⟩ :=
    @fieldOperations correctRsPrimitivePolynomialCcsds _ 2 3 5 (-7)
  exact ⟨hdiv (by decide), (hpow (by decide)).2 (powFits_of_abs_le _ _ (by decide))
    (powFits_of_abs_le _ _ (by decide))⟩

end Arithmetic

end ObcGsInterface
