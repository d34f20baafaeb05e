import ObcGsInterface.Verification.Fec.Search

/-! # The correction

The values of the errors, and the block without them. -/

namespace ObcGsInterface

open Polynomial Finset FieldElement CArray ErrorLocator

-- The tables are never evaluated in a proof.
attribute [local irreducible] fieldCreate

variable {p : BitVec 16} [PrimitivePoly p] {c g n : ℕ}

/-! ## The terms of the locator -/

theorem terms_spec {locator : PolynomialBuffer (n + 1)} (horder : locator.order ≤ n)
    (hdegree : (bufferPolynomial p locator.coeff).natDegree ≤ locator.order) :
    ∃ terms, locator.terms = .ok terms ∧ terms.length = locator.order + 1 ∧
      ofTerms p terms = bufferPolynomial p locator.coeff := by
  refine ⟨_, if_pos (Nat.lt_succ_of_le horder), ?_, ?_⟩
  · rw [List.length_take, locator.coeff.length_cells]
    omega
  · ext1 i
    rw [coeff_ofTerms]
    rcases Nat.lt_or_ge locator.order i with hi | hi
    · rw [coeff_eq_zero_of_natDegree_lt (Nat.lt_of_le_of_lt hdegree hi),
        List.getD_eq_default _ _ (by rw [List.length_take]; omega)]
      rfl
    · rw [coeff_bufferPolynomial, List.getD_eq_getElem?_getD, List.getD_eq_getElem?_getD,
        List.getElem?_take_of_lt (Nat.lt_succ_of_le hi)]

omit [PrimitivePoly p] in
theorem locatorToLog_spec {locator : PolynomialBuffer (n + 1)} {terms : List Byte}
    (horder : locator.order ≤ n) (hterms : locator.terms = .ok terms)
    (stale : PolynomialBuffer (n + 1)) :
    ∃ log, locatorToLog (fieldCreate p) locator stale = .ok log ∧
      log.terms = .ok (terms.map (fieldCreate p).logAt) := by
  have htake : terms = locator.coeff.cells.take (locator.order + 1) := by
    rw [PolynomialBuffer.terms, if_pos (Nat.lt_succ_of_le horder), Except.ok.injEq] at hterms
    exact hterms.symm
  have hlength : (terms.map (fieldCreate p).logAt).length = locator.order + 1 := by
    rw [List.length_map, htake, List.length_take, locator.coeff.length_cells]
    omega
  obtain ⟨coeff, hrun, hcells⟩ := foldlM_store_shifted
    (terms.map (fieldCreate p).logAt) 0
    (fun (coeff : Block Byte (n + 1)) i => do
      coeff.store i ((fieldCreate p).logAt (← load locator.coeff.cells i))) stale.coeff
    (by
      intro block j hj
      rw [load_of_lt _ (by rw [locator.coeff.length_cells]; omega), ok_bind]
      simp only [htake, List.getElem_map, List.getElem_take, Nat.add_zero])
    (by omega)
  rw [hlength] at hrun
  refine ⟨⟨locator.order, coeff⟩, by rw [locatorToLog, hrun]; rfl, ?_⟩
  rw [PolynomialBuffer.terms, if_pos (Nat.lt_succ_of_le horder), hcells, ← hlength,
    take_overwrite_zero]

/-! ## Values -/

variable (p c) in
/-- The value of the error that a root of the locator stands for. -/
noncomputable def errorValue (locator evaluator : (FieldElement p)[X]) (root : Byte) :
    FieldElement p :=
  ⟨root⟩ ^ ((c : ℤ) - 1) * (evaluator.eval ⟨root⟩ / (derivative locator).eval ⟨root⟩)

theorem findErrorEvaluator_spec (locator : List Byte) {syndromes : List Byte} (hn : 0 < n)
    (hsyndromes : syndromes.length = n) :
    (reedSolomonFindErrorEvaluator (fieldCreate p) locator syndromes n).length = n ∧
      ofTerms p (reedSolomonFindErrorEvaluator (fieldCreate p) locator syndromes n) =
        lowTerms n (ofTerms p locator * ofTerms p syndromes) := by
  have hne : syndromes ≠ [] := by
    rw [← List.length_pos_iff, hsyndromes]
    exact hn
  obtain ⟨hlength, hcoeff⟩ := polynomialMul_spec (p := p) locator hne (n - 1)
  rw [Nat.sub_add_cancel hn] at hlength
  refine ⟨hlength, ?_⟩
  ext1 i
  rw [coeff_lowTerms]
  split
  · next hi => exact hcoeff i (by omega)
  · next hi =>
      exact coeff_ofTerms_of_le (by rw [reedSolomonFindErrorEvaluator, hlength]; omega)

/-- A root as the code evaluates at it: with the powers in its row of the table. -/
theorem exists_powers (hn : 0 < n) (root : Byte) :
    ∃ powers, load (decodingReedSolomonCreate p c g n).elementExp root.toNat = .ok powers ∧
      ∀ terms : List Byte, 0 < terms.length → terms.length ≤ n →
        polynomialEvalLut (fieldCreate p) terms powers =
          .ok ((ofTerms p terms).eval ⟨root⟩).byte := by
  obtain ⟨powers, hload, hlut⟩ := load_elementExp (p := p) (c := c) (g := g) hn root
  refine ⟨powers, hload, fun terms hpos hle => ?_⟩
  exact polynomialEvalLut_eq hlut (List.length_pos_iff.mp hpos) (fun i hi _ => by omega) hn

/-- The value of one error, as the code computes it from the two evaluations. -/
theorem byte_errorValue (P Ω : (FieldElement p)[X]) {root : Byte} (hroot : root ≠ 0) :
    (fieldCreate p).mul ((fieldCreate p).pow root ((c : ℤ) - 1))
        ((fieldCreate p).div (Ω.eval ⟨root⟩).byte ((derivative P).eval ⟨root⟩).byte) =
      (errorValue p c P Ω root).byte := by
  have hfield : (⟨(fieldCreate p).mul ((fieldCreate p).pow root ((c : ℤ) - 1))
      ((fieldCreate p).div (Ω.eval ⟨root⟩).byte ((derivative P).eval ⟨root⟩).byte)⟩ :
      FieldElement p) = errorValue p c P Ω root := by
    rw [mk_mul, mk_pow hroot, mk_div, errorValue]
  exact congrArg byte hfield

/-- The values of the errors, one for each root. -/
theorem findErrorValues_spec {buffers : DecoderBuffers 255 n} {R : List Byte}
    {P : (FieldElement p)[X]} (hn : 0 < n) (hP : bufferPolynomial p buffers.errorLocator.coeff = P)
    (horder : buffers.errorLocator.order = R.length) (hdegree : P.natDegree ≤ R.length)
    (hpos : 0 < R.length) (hle : R.length ≤ n) (hR : ∀ root ∈ R, root ≠ 0)
    (hroots : buffers.errorRoots.cells.take R.length = R) :
    ∃ result, reedSolomonFindErrorValues (decodingReedSolomonCreate p c g n) buffers =
        .ok result ∧
      result.receivedPolynomial = buffers.receivedPolynomial ∧
      result.errorLocator = buffers.errorLocator ∧
      result.errorLocations = buffers.errorLocations ∧
      result.errorVals.cells.take R.length = R.map fun root =>
        (errorValue p c P (lowTerms n (P * bufferPolynomial p buffers.syndromes)) root).byte := by
  obtain ⟨terms, hterms, hlength, hpoly⟩ := terms_spec (p := p) (horder.trans_le hle)
    (by rw [hP, horder]; exact hdegree)
  rw [hP] at hpoly
  obtain ⟨hsize, hlow⟩ := findErrorEvaluator_spec (p := p) terms hn
    buffers.syndromes.length_cells
  obtain ⟨Ω, hΩ⟩ : ∃ Ω, lowTerms n (P * bufferPolynomial p buffers.syndromes) = Ω := ⟨_, rfl⟩
  rw [hpoly] at hlow
  replace hlow := hlow.trans hΩ
  obtain ⟨evaluator, hevaluator⟩ : ∃ evaluator : Block Byte n, evaluator.cells =
      reedSolomonFindErrorEvaluator (fieldCreate p) terms buffers.syndromes.cells n :=
    ⟨⟨_, hsize⟩, rfl⟩
  have hstart : buffers.errorEvaluator.memcpy 0
      (reedSolomonFindErrorEvaluator (fieldCreate p) terms buffers.syndromes.cells n) n =
      .ok evaluator := by
    rw [← hevaluator]
    exact Block.memcpy_whole _ _
  obtain ⟨derivativeBuffer, derivativeTerms, hderivative, hderivativeTerms, hderivativeLength,
    hderivativePoly⟩ := @polynomialFormalDerivative_spec p _ n terms
    { buffers.errorLocatorDerivative with order := buffers.errorLocator.order - 1 }
    (by simp only; omega) (by simp only; omega)
  simp only at hderivativeLength
  rw [hpoly] at hderivativePoly
  obtain ⟨values, hvalues⟩ : ∃ values, values = R.map fun root =>
      (errorValue p c P Ω root).byte := ⟨_, rfl⟩
  have hvaluesLength : values.length = R.length := by rw [hvalues, List.length_map]
  obtain ⟨errorVals, hrun, hcells⟩ := foldlM_store_shifted values 0
    (fun (errorVals : Block Byte n) i => do
      let root ← load buffers.errorRoots.cells i
      if root = 0 then return errorVals
      let powers ← load (decodingReedSolomonCreate p c g n).elementExp root.toNat
      let numerator ← polynomialEvalLut (fieldCreate p) evaluator.cells powers
      let denominator ← polynomialEvalLut (fieldCreate p) (← derivativeBuffer.terms) powers
      errorVals.store i ((fieldCreate p).mul ((fieldCreate p).pow root ((c : ℤ) - 1))
        ((fieldCreate p).div numerator denominator))) buffers.errorVals
    (by
      intro block j hj
      have hj' : j < R.length := by omega
      have hroot : R[j] ≠ 0 := hR _ (List.getElem_mem hj')
      obtain ⟨powers, hload, heval⟩ := exists_powers (p := p) (c := c) (g := g) hn R[j]
      have hnum : polynomialEvalLut (fieldCreate p) evaluator.cells powers =
          .ok (Ω.eval ⟨R[j]⟩).byte := by
        rw [heval _ (by rwa [evaluator.length_cells]) evaluator.length_cells.le, hevaluator, hlow]
      have hden : polynomialEvalLut (fieldCreate p) derivativeTerms powers =
          .ok ((derivative P).eval ⟨R[j]⟩).byte := by
        rw [heval _ (by omega) (by omega), hderivativePoly]
      have hvalue : (errorValue p c P Ω R[j]).byte = values[j] := by
        simp only [hvalues, List.getElem_map]
      simp only [load_front hroots hj', ok_bind, if_neg hroot, hload, hnum,
        hderivativeTerms, hden, byte_errorValue P Ω hroot, hvalue, Nat.add_zero])
    (by omega)
  rw [hvaluesLength] at hrun
  refine ⟨{ buffers with
    errorEvaluator := evaluator
    errorLocatorDerivative := derivativeBuffer
    errorVals }, ?_, rfl, rfl, rfl, ?_⟩
  · have hne : buffers.errorLocator.order ≠ 0 := by omega
    have hfield : (decodingReedSolomonCreate p c g n).field = fieldCreate p := rfl
    have hdistance : (decodingReedSolomonCreate p c g n).minDistance = n := rfl
    have hfirst : (decodingReedSolomonCreate p c g n).firstConsecutiveRoot = c := rfl
    rw [reedSolomonFindErrorValues, hterms, ok_bind, hfield, hdistance, hfirst, hstart, ok_bind,
      if_neg hne, hderivative, ok_bind, horder]
    exact bind_eq_ok.mpr ⟨errorVals, hrun, rfl⟩
  · simp only
    rw [hcells, ← hvaluesLength, take_overwrite_zero, hvalues, hΩ]

/-! ## The corrected block -/

/-- The values are subtracted at the locations. -/
theorem subtractErrors_spec {buffers : DecoderBuffers 255 n} {R : List Byte} {location : Byte → ℕ}
    {value : Byte → FieldElement p} (horder : buffers.errorLocator.order = R.length)
    (hlt : ∀ root ∈ R, location root < 255)
    (hlocations : buffers.errorLocations.cells.take R.length =
      R.map fun root => BitVec.ofNat 8 (location root))
    (hvalues : buffers.errorVals.cells.take R.length = R.map fun root => (value root).byte) :
    ∃ result, subtractErrors (fieldCreate p) buffers = .ok result ∧
      ofTerms p result.cells = ofTerms p buffers.receivedPolynomial.cells +
        (R.map fun root => C (value root) * X ^ location root).sum := by
  rw [subtractErrors, horder]
  obtain ⟨result, hrun, hresult⟩ := @Loop.foldlM_range_stages _
    (fun (received : Block Byte 255) i => do
      let location ← load buffers.errorLocations.cells i
      let old ← load received.cells location.toNat
      received.store location.toNat
        ((fieldCreate p).sub old (← load buffers.errorVals.cells i)))
    (fun i received => ofTerms p received.cells = ofTerms p buffers.receivedPolynomial.cells +
      ((R.take i).map fun root => C (value root) * X ^ location root).sum)
    R.length
    (by
      intro i received hi hreceived
      have hloc : load buffers.errorLocations.cells i = .ok (BitVec.ofNat 8 (location R[i])) := by
        rw [← R.length_map fun root => BitVec.ofNat 8 (location root)] at hlocations
        rw [load_front hlocations (by rwa [List.length_map]), List.getElem_map]
      have hval : load buffers.errorVals.cells i = .ok (value R[i]).byte := by
        rw [← R.length_map fun root => (value root).byte] at hvalues
        rw [load_front hvalues (by rwa [List.length_map]), List.getElem_map]
      have hbound := hlt R[i] (List.getElem_mem hi)
      have hnat : (BitVec.ofNat 8 (location R[i])).toNat = location R[i] := by
        rw [BitVec.toNat_ofNat, Nat.mod_eq_of_lt (by omega)]
      refine ⟨_, by rw [hloc, ok_bind, hnat, received.load_cells 0 hbound, ok_bind, hval, ok_bind,
        Block.store_of_lt _ _ hbound], ?_⟩
      have hroom : location R[i] < received.cells.length := by
        rw [received.length_cells]
        exact hbound
      refine (ofTerms_set_add hroom (value R[i]).byte).trans ?_
      rw [hreceived, List.take_add_one, List.getElem?_eq_getElem hi, Option.toList_some,
        List.map_append, List.sum_append, List.map_singleton, List.sum_singleton, add_assoc])
    buffers.receivedPolynomial
    (by rw [List.take_zero, List.map_nil, List.sum_nil, add_zero])
  rw [List.take_length] at hresult
  exact ⟨result, hrun, hresult⟩

end ObcGsInterface
