import ObcGsInterface.Library.Loop
import ObcGsInterface.Verification.Fec.Polynomials
import ObcGsInterface.Verification.Fec.Primitive

/-! # Evaluation

`polynomial_eval` and the two versions with tables of logarithms agree with evaluation, as long
as no term that counts stands behind the end of the table. -/

namespace ObcGsInterface

open Polynomial Finset FieldElement CArray

-- The tables are never evaluated in a proof.
attribute [local irreducible] fieldCreate

variable {p : BitVec 16} [PrimitivePoly p]

/-! ## Tables of powers -/

/-- The table of the logarithms of the first `n` powers of an element. The table of 0 has zeros
in it, which are the logarithm of nothing. -/
structure IsExpLut (p : BitVec 16) [PrimitivePoly p] (val : Byte) (n : ℕ) (valExp : List Byte) :
    Prop where
  length_eq : valExp.length = n
  eq_zero : val = 0 → ∀ i < n, valExp.getD i 0 = 0
  pos : val ≠ 0 → ∀ i < n, 1 ≤ (valExp.getD i 0).toNat
  alpha_pow : val ≠ 0 → ∀ i < n, alpha p ^ (valExp.getD i 0).toNat = ⟨val⟩ ^ i

theorem logAt_one_spec : 1 ≤ ((fieldCreate p).logAt 1).toNat ∧
    alpha p ^ ((fieldCreate p).logAt 1).toNat = 1 := by
  have hone : (1 : Byte) ≠ 0 := by decide
  refine ⟨(logAt_spec (p := p) hone).1.1, ?_⟩
  rw [alpha_pow_logAt hone]
  rfl

theorem polynomialBuildExpLut_spec (val : Byte) (order : ℕ) :
    IsExpLut p val (order + 1) (polynomialBuildExpLut (fieldCreate p) val order) := by
  have hrun (n : ℕ) : ∀ s : List Byte × Byte, s = (List.range n).foldl
      (fun (s : List Byte × Byte) _ =>
        if val = 0 then (s.1 ++ [0], s.2)
        else (s.1 ++ [s.2], (fieldCreate p).mulLog s.2 ((fieldCreate p).logAt val)))
      ([], (fieldCreate p).logAt 1) →
      IsExpLut p val n s.1 ∧ (val ≠ 0 → 1 ≤ s.2.toNat ∧ alpha p ^ s.2.toNat = ⟨val⟩ ^ n) := by
    induction n with
    | zero =>
        rintro s rfl
        refine ⟨⟨rfl, fun _ i hi => ?_, fun _ i hi => ?_, fun _ i hi => ?_⟩, fun _ => ?_⟩
        · exact absurd hi (Nat.not_lt_zero i)
        · exact absurd hi (Nat.not_lt_zero i)
        · exact absurd hi (Nat.not_lt_zero i)
        · simp only [List.range_zero, List.foldl_nil, pow_zero]
          exact logAt_one_spec (p := p)
    | succ n ih =>
        obtain ⟨⟨hlength, hzero, hpos, halpha⟩, hnext⟩ := ih _ rfl
        intro s hs
        rw [List.range_succ, List.foldl_append, List.foldl_cons, List.foldl_nil] at hs
        generalize (List.range n).foldl (fun (s : List Byte × Byte) _ =>
          if val = 0 then (s.1 ++ [0], s.2)
          else (s.1 ++ [s.2], (fieldCreate p).mulLog s.2 ((fieldCreate p).logAt val)))
          ([], (fieldCreate p).logAt 1) = t at hs hlength hzero hpos halpha hnext
        have hold (b : Byte) (i : ℕ) (hi : i < n) : (t.1 ++ [b]).getD i 0 = t.1.getD i 0 :=
          List.getD_append _ _ _ _ (by omega)
        have hnew (b : Byte) : (t.1 ++ [b]).getD n 0 = b := by
          rw [List.getD_append_right _ _ _ _ (by omega), hlength, Nat.sub_self]
          rfl
        by_cases hval : val = 0
        · rw [if_pos hval] at hs
          subst hs
          refine ⟨⟨by simp [hlength], fun _ i hi => ?_, fun h => absurd hval h,
            fun h => absurd hval h⟩, fun h => absurd hval h⟩
          rcases Nat.lt_succ_iff_lt_or_eq.mp hi with hi | rfl
          · rw [hold _ i hi, hzero hval i hi]
          · exact hnew 0
        · rw [if_neg hval] at hs
          subst hs
          obtain ⟨hone, hpow⟩ := hnext hval
          obtain ⟨hone', hpow'⟩ := mulLog_spec (p := p) hone (logAt_spec (p := p) hval).1.1
          refine ⟨⟨by simp [hlength], fun h => absurd h hval, fun _ i hi => ?_, fun _ i hi => ?_⟩,
            fun _ => ?_⟩
          · rcases Nat.lt_succ_iff_lt_or_eq.mp hi with hi | rfl
            · simp only [hold _ i hi]
              exact hpos hval i hi
            · simp only [hnew]
              exact hone
          · rcases Nat.lt_succ_iff_lt_or_eq.mp hi with hi | rfl
            · rw [hold _ i hi]
              exact halpha hval i hi
            · rw [hnew]
              exact hpow
          · simp only
            rw [hpow', hpow, alpha_pow_logAt hval, pow_succ]
            exact ⟨hone', rfl⟩
  exact (hrun (order + 1) _ rfl).1

/-! ## Evaluation with tables -/

/-- A loop that adds up terms. -/
theorem foldlM_add {body : Byte → ℕ → Except Fault Byte} (term : ℕ → FieldElement p) {n : ℕ}
    (hbody : ∀ res, ∀ i < n, body res i = .ok ((⟨res⟩ : FieldElement p) + term i).byte)
    (res : Byte) :
    (List.range n).foldlM body res =
      .ok ((⟨res⟩ : FieldElement p) + ∑ i ∈ range n, term i).byte := by
  induction n with
  | zero => rw [List.range_zero, List.foldlM_nil, range_zero, sum_empty, add_zero]; rfl
  | succ n ih =>
      rw [List.range_succ, List.foldlM_append, ih fun res i hi => hbody res i (by omega), ok_bind,
        List.foldlM_cons, hbody _ n (Nat.lt_succ_self n), ok_bind, List.foldlM_nil, sum_range_succ,
        ← add_assoc]
      rfl

section Tables

variable {val : Byte} {n : ℕ} {valExp : List Byte} (h : IsExpLut p val n valExp)

include h in
theorem IsExpLut.load_eq {i : ℕ} (hi : i < n) : load valExp i = .ok (valExp.getD i 0) :=
  load_getD 0 (by rw [h.length_eq]; exact hi)

include h in
/-- The first entry tells the table of 0 from the others. -/
theorem IsExpLut.first_eq_zero (hn : 0 < n) : valExp.getD 0 0 = 0 ↔ val = 0 := by
  constructor
  · intro hfirst
    by_contra hval
    have hpos := h.pos hval 0 hn
    rw [hfirst] at hpos
    exact absurd hpos (by decide)
  · intro hval
    exact h.eq_zero hval 0 hn

theorem eval_zero_terms (poly : List Byte) :
    (ofTerms p poly).eval (⟨0⟩ : FieldElement p) = ⟨poly.getD 0 0⟩ := by
  rw [← zero_def, ← coeff_zero_eq_eval_zero, coeff_ofTerms]

include h in
/-- `polynomial_eval_lut`. -/
theorem polynomialEvalLut_eq {poly : List Byte} (hpoly : poly ≠ [])
    (hterms : ∀ i < poly.length, poly.getD i 0 ≠ 0 → i < n) (hn : 0 < n) :
    polynomialEvalLut (fieldCreate p) poly valExp =
      .ok ((ofTerms p poly).eval ⟨val⟩).byte := by
  have hlength : 0 < poly.length := List.length_pos_iff.mpr hpoly
  rw [polynomialEvalLut, h.load_eq hn, ok_bind]
  by_cases hval : val = 0
  · rw [if_pos ((h.first_eq_zero hn).mpr hval), load_getD 0 hlength, hval, eval_zero_terms]
  · rw [if_neg (mt (h.first_eq_zero hn).mp hval),
      foldlM_add (fun i => ⟨poly.getD i 0⟩ * (⟨val⟩ : FieldElement p) ^ i), eval_ofTerms]
    · rw [← zero_def, zero_add]
    · intro res i hi
      rw [load_getD 0 hi, ok_bind]
      split
      · next hne =>
          have hin := hterms i hi hne
          rw [h.load_eq hin, ok_bind, ← alpha_pow_logAt hne, ← h.alpha_pow hval i hin,
            ← mk_mulLogElement, byte_add, pure_eq_ok]
      · next hzero =>
          rw [not_not] at hzero
          rw [hzero, ← zero_def, zero_mul, add_zero]
          rfl

omit [PrimitivePoly p] in
theorem load_logs {poly : List Byte} {i : ℕ} (hi : i < poly.length) :
    load (poly.map (fieldCreate p).logAt) i = .ok ((fieldCreate p).logAt (poly.getD i 0)) := by
  rw [load_of_lt _ (by rw [List.length_map]; exact hi), List.getElem_map,
    List.getD_eq_getElem _ _ hi]

include h in
/-- One round of `polynomial_eval_log_lut`. -/
theorem logLut_step (hval : val ≠ 0) {poly : List Byte} {i : ℕ} (hi : i < poly.length)
    (hin : poly.getD i 0 ≠ 0 → i < n) (res : Byte) :
    (do
      let coeff ← load (poly.map (fieldCreate p).logAt) i
      if coeff ≠ 0 then
        return (fieldCreate p).add res
          ((fieldCreate p).mulLogElement coeff (← load valExp i))
      else return res : Except Fault Byte) =
      .ok ((⟨res⟩ : FieldElement p) + ⟨poly.getD i 0⟩ * ⟨val⟩ ^ i).byte := by
  rw [load_logs hi, ok_bind]
  by_cases hzero : poly.getD i 0 = 0
  · rw [if_neg (not_not.mpr (logAt_eq_zero.mpr hzero)), hzero, ← zero_def, zero_mul, add_zero]
    rfl
  · rw [if_pos (mt logAt_eq_zero.mp hzero), h.load_eq (hin hzero), ok_bind,
      ← alpha_pow_logAt hzero, ← h.alpha_pow hval i (hin hzero), ← mk_mulLogElement, byte_add,
      pure_eq_ok]

include h in
/-- `polynomial_eval_log_lut`, on the logarithms of the coefficients. -/
theorem polynomialEvalLogLut_eq {poly : List Byte} (hpoly : poly ≠ [])
    (hterms : val ≠ 0 → ∀ i < poly.length, poly.getD i 0 ≠ 0 → i < n) (hn : 0 < n) :
    polynomialEvalLogLut (fieldCreate p) (poly.map (fieldCreate p).logAt) valExp =
      .ok ((ofTerms p poly).eval ⟨val⟩).byte := by
  have hlength : 0 < poly.length := List.length_pos_iff.mpr hpoly
  rw [polynomialEvalLogLut, h.load_eq hn, ok_bind]
  by_cases hval : val = 0
  · rw [if_pos ((h.first_eq_zero hn).mpr hval), load_logs hlength, ok_bind, hval, eval_zero_terms]
    by_cases hzero : poly.getD 0 0 = 0
    · rw [if_pos (logAt_eq_zero.mpr hzero), hzero]
      rfl
    · have hlog := (logAt_spec (p := p) hzero)
      have hlt := hlog.1.2
      rw [if_neg (mt logAt_eq_zero.mp hzero), expAt_eq (by omega), hlog.2]
      rfl
  · rw [if_neg (mt (h.first_eq_zero hn).mp hval), List.length_map,
      foldlM_add (fun i => ⟨poly.getD i 0⟩ * ⟨val⟩ ^ i) fun res i hi =>
        logLut_step h hval hi (hterms hval i hi) res,
      eval_ofTerms, ← zero_def, zero_add]

include h in
/-- A term behind the end of the table is read out of bounds. -/
theorem polynomialEvalLogLut_outOfBounds {poly : List Byte} (hval : val ≠ 0) (hn : 0 < n)
    (hlength : poly.length = n + 1) (hlast : poly.getD n 0 ≠ 0) :
    polynomialEvalLogLut (fieldCreate p) (poly.map (fieldCreate p).logAt) valExp =
      .error .outOfBounds := by
  have hend : load valExp n = .error .outOfBounds := by
    rw [load, List.getElem?_eq_none (Nat.le_of_eq h.length_eq)]
  rw [polynomialEvalLogLut, h.load_eq hn, ok_bind, if_neg (mt (h.first_eq_zero hn).mp hval),
    List.length_map, hlength, List.range_succ, List.foldlM_append,
    foldlM_add (fun i => ⟨poly.getD i 0⟩ * ⟨val⟩ ^ i) fun res i hi =>
      logLut_step h hval (by omega) (fun _ => hi) res,
    ok_bind, List.foldlM_cons, load_logs (by omega), ok_bind,
    if_pos (mt logAt_eq_zero.mp hlast), hend]
  rfl

end Tables

/-! ## Evaluation without tables -/

/-- `polynomial_eval` keeps the logarithm of the power that the next term needs. -/
theorem polynomialEval_eq {poly : List Byte} (hpoly : poly ≠ []) (val : Byte) :
    polynomialEval (fieldCreate p) poly val = .ok ((ofTerms p poly).eval ⟨val⟩).byte := by
  have hlength : 0 < poly.length := List.length_pos_iff.mpr hpoly
  rw [polynomialEval]
  split
  · next hval => rw [load_getD 0 hlength, hval, eval_zero_terms]
  · next hval =>
      obtain ⟨hstart, hone⟩ := logAt_one_spec (p := p)
      obtain ⟨⟨res, power⟩, hrun, hres, -⟩ := @Loop.foldlM_range_stages _
        (fun (s : Byte × Byte) i => do
          let coeff ← load poly i
          let res := if coeff ≠ 0 then
              (fieldCreate p).add s.1
                ((fieldCreate p).mulLogElement ((fieldCreate p).logAt coeff) s.2)
            else s.1
          return (res, (fieldCreate p).mulLog s.2 ((fieldCreate p).logAt val)))
        (fun i (s : Byte × Byte) =>
          s.1 = (∑ j ∈ range i, ⟨poly.getD j 0⟩ * (⟨val⟩ : FieldElement p) ^ j).byte ∧
            1 ≤ s.2.toNat ∧ alpha p ^ s.2.toNat = (⟨val⟩ : FieldElement p) ^ i)
        poly.length
        (by
          rintro i ⟨res, power⟩ hi ⟨hres, hpos, hpower⟩
          simp only at hres hpos hpower
          obtain ⟨hpos', hpower'⟩ := mulLog_spec (p := p) hpos (logAt_spec (p := p) hval).1.1
          rw [load_getD 0 hi]
          refine ⟨_, rfl, ?_, hpos', ?_⟩
          · rw [sum_range_succ, byte_add, ← hres]
            simp only
            split
            · next hne =>
                rw [← alpha_pow_logAt hne, ← hpower, ← mk_mulLogElement]
            · next hzero =>
                rw [not_not] at hzero
                rw [hzero, ← zero_def, zero_mul]
                exact BitVec.xor_zero.symm
          · rw [hpower', hpower, alpha_pow_logAt hval, pow_succ])
        (0, (fieldCreate p).logAt 1)
        (by
          refine ⟨?_, ?_, ?_⟩
          · rw [range_zero, sum_empty]
            rfl
          · exact hstart
          · rw [pow_zero]
            exact hone)
      rw [hrun, ok_bind, eval_ofTerms, ← hres]
      rfl

/-- **The evaluations.** With the table that `polynomial_build_exp_lut` makes for the element, and
with the coefficients replaced by their logarithms, the result stays the same. -/
theorem evaluations_agree {poly : List Byte} (hpoly : poly ≠ []) (val : Byte) :
    ∃ value : Byte, (⟨value⟩ : FieldElement p) =
        ∑ i ∈ range poly.length, ⟨poly.getD i 0⟩ * (⟨val⟩ : FieldElement p) ^ i ∧
      polynomialEval (fieldCreate p) poly val = .ok value ∧
      polynomialEvalLut (fieldCreate p) poly
        (polynomialBuildExpLut (fieldCreate p) val (poly.length - 1)) = .ok value ∧
      polynomialEvalLogLut (fieldCreate p) (poly.map (fieldCreate p).logAt)
        (polynomialBuildExpLut (fieldCreate p) val (poly.length - 1)) = .ok value := by
  have hlength : 0 < poly.length := List.length_pos_iff.mpr hpoly
  have hlut := polynomialBuildExpLut_spec (p := p) val (poly.length - 1)
  rw [Nat.sub_add_cancel hlength] at hlut
  refine ⟨_, ?_, polynomialEval_eq hpoly val, polynomialEvalLut_eq hlut hpoly
    (fun i hi _ => hi) hlength, polynomialEvalLogLut_eq hlut hpoly (fun _ i hi _ => hi) hlength⟩
  rw [← eval_ofTerms]

theorem evaluations_agree_three :
    ∃ value : Byte, (⟨value⟩ : FieldElement correctRsPrimitivePolynomialCcsds) =
        ∑ i ∈ range 3, ⟨[1, 0, 5].getD i 0⟩ *
          (⟨7⟩ : FieldElement correctRsPrimitivePolynomialCcsds) ^ i ∧
      polynomialEval (fieldCreate correctRsPrimitivePolynomialCcsds) [1, 0, 5] 7 = .ok value ∧
      polynomialEvalLut (fieldCreate correctRsPrimitivePolynomialCcsds) [1, 0, 5]
        (polynomialBuildExpLut (fieldCreate correctRsPrimitivePolynomialCcsds) 7 (3 - 1)) =
          .ok value ∧
      polynomialEvalLogLut (fieldCreate correctRsPrimitivePolynomialCcsds)
        ([1, 0, 5].map (fieldCreate correctRsPrimitivePolynomialCcsds).logAt)
        (polynomialBuildExpLut (fieldCreate correctRsPrimitivePolynomialCcsds) 7 (3 - 1)) =
          .ok value :=
  @evaluations_agree correctRsPrimitivePolynomialCcsds _ [1, 0, 5] (by decide) 7

/-! ## The derivative -/

theorem coeff_derivative_ofTerms (poly : List Byte) (i : ℕ) :
    (derivative (ofTerms p poly)).coeff i =
      ⟨(fieldCreate p).sum (poly.getD (i + 1) 0) (i + 1)⟩ := by
  rw [coeff_derivative, coeff_ofTerms, mk_sum, mul_comm, Nat.cast_succ]

/-- `polynomial_formal_derivative`. -/
theorem polynomialFormalDerivative_spec {capacity : ℕ} {poly : List Byte}
    {der : PolynomialBuffer capacity} (horder : der.order < capacity)
    (hpoly : poly.length = der.order + 2) :
    ∃ result terms, polynomialFormalDerivative (fieldCreate p) poly der = .ok result ∧
      result.terms = .ok terms ∧ terms.length = der.order + 1 ∧
      ofTerms p terms = derivative (ofTerms p poly) := by
  obtain ⟨values, hvalues⟩ : ∃ values, values = (List.range (der.order + 1)).map fun i =>
      (fieldCreate p).sum (poly.getD (i + 1) 0) (i + 1) := ⟨_, rfl⟩
  have hlength : values.length = der.order + 1 := by
    rw [hvalues, List.length_map, List.length_range]
  obtain ⟨zeros, hzeros, -⟩ := @Block.memcpy_of_le _ capacity der.coeff 0 (der.order + 1)
    (List.replicate (der.order + 1) 0) (by rw [List.length_replicate]) (by omega)
  obtain ⟨coeff, hcoeff, hcells⟩ := @Block.foldlM_store _ capacity
    (fun coeff i => do coeff.store i ((fieldCreate p).sum (← load poly (i + 1)) (i + 1)))
    values 0 zeros
    (by
      intro block j hj
      rw [Nat.zero_add, load_getD 0 (by omega)]
      simp only [hvalues, List.getElem_map, List.getElem_range]
      rfl)
    (by omega)
  rw [hlength, ← List.range_eq_range'] at hcoeff
  refine ⟨{ der with coeff }, values, ?_, ?_, hlength, ?_⟩
  · have hmemset : der.coeff.memset 0 (der.order + 1) = .ok zeros := hzeros
    rw [polynomialFormalDerivative, hmemset, ok_bind, hcoeff]
    rfl
  · rw [PolynomialBuffer.terms, if_pos horder, hcells, overwrite, List.take_zero, List.nil_append,
      List.take_left' hlength]
  · ext1 i
    rw [coeff_derivative_ofTerms, coeff_ofTerms]
    congr 1
    rcases Nat.lt_or_ge i (der.order + 1) with hi | hi
    · rw [List.getD_eq_getElem _ _ (by omega)]
      simp only [hvalues, List.getElem_map, List.getElem_range]
    · rw [List.getD_eq_default _ _ (by omega), List.getD_eq_default _ _ (by omega), RsField.sum]
      split <;> rfl

end ObcGsInterface
