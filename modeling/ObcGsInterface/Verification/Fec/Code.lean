import ObcGsInterface.Library.ErrorLocator
import ObcGsInterface.Verification.Fec.Evaluation
import ObcGsInterface.Verification.Pipeline.Damage
import Mathlib.Data.Nat.ModEq
import Mathlib.RingTheory.Coprime.Lemmas

/-! # The code

A block is a codeword when its polynomial vanishes at the roots of the generator. The blocks
that the encoder writes are exactly the codewords, and two codewords differ in more places than
there are roots. -/

namespace ObcGsInterface

open Polynomial Finset FieldElement CArray

-- The tables are never evaluated in a proof.
attribute [local irreducible] fieldCreate

variable {p : BitVec 16} [PrimitivePoly p] {c g n : ℕ}

/-! ## Roots and locations -/

/-- The numbers of roots and the gaps between them for which the code corrects errors. -/
structure ValidCode (g n : ℕ) : Prop where
  pos : 0 < n
  lt : n < 255
  coprime : Nat.Coprime 255 g

variable (p) in
/-- The root `i` of the generator. -/
def generatorRoot (c g i : ℕ) : FieldElement p := alpha p ^ (g * (i + c))

variable (p) in
/-- The element that stands for the coefficient `j` in an error locator. -/
def locationPoint (g j : ℕ) : FieldElement p := alpha p ^ (g * j)

theorem locationPoint_ne_zero (j : ℕ) : locationPoint p g j ≠ 0 := pow_ne_zero _ alpha_ne_zero

theorem alpha_pow_gap_inj (h : ValidCode g n) {i j : ℕ} (heq : alpha p ^ (g * i) = alpha p ^ (g * j)) :
    i % 255 = j % 255 := by
  rw [← alpha_pow_mod, ← alpha_pow_mod (g * j)] at heq
  have hmod : g * i ≡ g * j [MOD 255] :=
    alpha_pow_inj (Nat.mod_lt _ (by decide)) (Nat.mod_lt _ (by decide)) heq
  exact Nat.ModEq.cancel_left_of_coprime h.coprime hmod

theorem locationPoint_inj (h : ValidCode g n) {i j : ℕ} (hi : i < 255) (hj : j < 255)
    (heq : locationPoint p g i = locationPoint p g j) : i = j := by
  have hmod := alpha_pow_gap_inj h heq
  rwa [Nat.mod_eq_of_lt hi, Nat.mod_eq_of_lt hj] at hmod

theorem generatorRoot_inj (h : ValidCode g n) {i j : ℕ} (hi : i < n) (hj : j < n)
    (heq : generatorRoot p c g i = generatorRoot p c g j) : i = j := by
  have hmod : i + c ≡ j + c [MOD 255] := alpha_pow_gap_inj h heq
  have hcancel : i % 255 = j % 255 := Nat.ModEq.add_right_cancel' c hmod
  have := h.lt
  rwa [Nat.mod_eq_of_lt (by omega), Nat.mod_eq_of_lt (by omega)] at hcancel

/-! ## The generator -/

theorem generatorRoots_eq (i : ℕ) :
    (⟨(fieldCreate p).expAt (g * (i + c) % 255)⟩ : FieldElement p) = generatorRoot p c g i := by
  have hlt : g * (i + c) % 255 < 255 := Nat.mod_lt _ (by decide)
  rw [mk_expAt (by omega), alpha_pow_mod, generatorRoot]

variable (p c g n) in
/-- The polynomial with the roots of the code. -/
noncomputable def generatorPolynomial : (FieldElement p)[X] :=
  ∏ i ∈ range n, (X + C (generatorRoot p c g i))

theorem generatorPolynomial_monic : (generatorPolynomial p c g n).Monic :=
  monic_prod_of_monic _ _ fun _ _ => monic_X_add_C _

theorem natDegree_generatorPolynomial : (generatorPolynomial p c g n).natDegree = n := by
  rw [generatorPolynomial, natDegree_prod_of_monic _ _ fun _ _ => monic_X_add_C _]
  simp

/-- The generator that `correct_reed_solomon_create` multiplies out. -/
theorem generator_spec (hn : 0 < n) :
    (correctReedSolomonCreate p c g n).generator.length = n + 1 ∧
      ofTerms p (correctReedSolomonCreate p c g n).generator = generatorPolynomial p c g n ∧
      (correctReedSolomonCreate p c g n).generator.getD n 0 = 1 := by
  obtain ⟨roots, hroots⟩ : ∃ roots, roots = (List.range n).map fun i =>
      (fieldCreate p).expAt (g * (i + c) % 255) := ⟨_, rfl⟩
  have hlength : roots.length = n := by rw [hroots, List.length_map, List.length_range]
  have hne : roots ≠ [] := by
    rw [← List.length_pos_iff, hlength]
    exact hn
  have hgenerator : (correctReedSolomonCreate p c g n).generator =
      polynomialCreateFromRoots (fieldCreate p) roots := by
    rw [hroots]
    rfl
  obtain ⟨hsize, hterms⟩ := polynomialCreateFromRoots_spec (p := p) hne
  rw [hlength] at hsize hterms
  have hproduct : ofTerms p (polynomialCreateFromRoots (fieldCreate p) roots) =
      generatorPolynomial p c g n := by
    rw [hterms, generatorPolynomial]
    refine prod_congr rfl fun i hi => ?_
    have hi := mem_range.mp hi
    rw [List.getD_eq_getElem _ _ (by omega)]
    simp only [hroots, List.getElem_map, List.getElem_range, generatorRoots_eq]
  rw [hgenerator]
  refine ⟨hsize, hproduct, ?_⟩
  have hlead : (generatorPolynomial p c g n).coeff n = 1 := by
    have hmonic := generatorPolynomial_monic (p := p) (c := c) (g := g) (n := n)
    rwa [Monic, leadingCoeff, natDegree_generatorPolynomial] at hmonic
  rw [← hproduct, coeff_ofTerms] at hlead
  exact congrArg byte hlead

/-! ## Codewords -/

variable (p) in
/-- The polynomial of a block: its last byte is the constant term. -/
noncomputable def blockPolynomial (word : List Byte) : (FieldElement p)[X] := ofTerms p word.reverse

variable (p c g n) in
/-- All syndromes of the block are zero. -/
def VanishesAtRoots (word : List Byte) : Prop :=
  ∀ i < n, (blockPolynomial p word).eval (generatorRoot p c g i) = 0

theorem generator_dvd_iff (h : ValidCode g n) {P : (FieldElement p)[X]} :
    generatorPolynomial p c g n ∣ P ↔ ∀ i < n, P.eval (generatorRoot p c g i) = 0 := by
  have hlinear (i : ℕ) : X + C (generatorRoot p c g i) = X - C (generatorRoot p c g i) := by
    rw [sub_eq_add_neg, ← C_neg, neg_eq]
  constructor
  · rintro ⟨Q, rfl⟩ i hi
    rw [eval_mul, generatorPolynomial, eval_prod, prod_eq_zero (mem_range.mpr hi), zero_mul]
    rw [eval_add, eval_X, eval_C]
    exact add_self _
  · intro hroots
    refine prod_dvd_of_coprime ?_ fun i hi => ?_
    · intro i hi j hj hne
      have hdiff : generatorRoot p c g i ≠ generatorRoot p c g j := fun heq =>
        hne (generatorRoot_inj h (mem_range.mp hi) (mem_range.mp hj) heq)
      rw [Function.onFun, hlinear, hlinear]
      exact isCoprime_X_sub_C_of_isUnit_sub (sub_ne_zero.mpr hdiff).isUnit
    · rw [hlinear, dvd_iff_isRoot]
      exact hroots i (mem_range.mp hi)

/-- What the encoder writes is a multiple of the generator. -/
theorem parity_spec (h : ValidCode g n) (message : List Byte) :
    ((correctReedSolomonCreate p c g n).parity message).length = n ∧
      generatorPolynomial p c g n ∣
        blockPolynomial p (message ++ (correctReedSolomonCreate p c g n).parity message) := by
  obtain ⟨hsize, hterms, hlead⟩ := generator_spec (p := p) (c := c) (g := g) h.pos
  generalize hrs : correctReedSolomonCreate p c g n = rs at hsize hterms hlead ⊢
  have hfield : rs.field = fieldCreate p := by rw [← hrs]; rfl
  have hblock : rs.blockLength = 255 := by rw [← hrs]; rfl
  have hmessageLength : rs.messageLength = 255 - n := by rw [← hrs]; rfl
  have hdistance : rs.minDistance = n := by rw [← hrs]; rfl
  have hlt := h.lt
  have hdividend : rs.encodedPolynomial message = List.replicate n 0 ++ (message.reverse ++
      List.replicate (255 - n - message.length) 0) := by
    rw [ReedSolomon.encodedPolynomial, hblock, hmessageLength, List.append_assoc]
    congr 2
    omega
  have hdividendTerms : ofTerms p (rs.encodedPolynomial message) =
      X ^ n * ofTerms p message.reverse := by
    rw [hdividend, ofTerms_append, ofTerms_append, ofTerms_replicate_zero, ofTerms_replicate_zero,
      List.length_replicate, mul_zero, add_zero, zero_add]
  have hroom : n ≤ (rs.encodedPolynomial message).length := by
    rw [hdividend, List.length_append, List.length_replicate]
    exact Nat.le_add_right n _
  obtain ⟨hremainderSize, hdvd, hzero⟩ := polynomialMod_spec (p := p) hsize hlead h.pos hroom
  have hparity : rs.parity message = (List.range n).map fun i =>
      (polynomialMod (fieldCreate p) (rs.encodedPolynomial message) rs.generator).getD
        (n - (i + 1)) 0 := by
    rw [ReedSolomon.parity, hfield, hdistance]
  generalize polynomialMod (fieldCreate p) (rs.encodedPolynomial message) rs.generator = remainder
    at hremainderSize hdvd hzero hparity
  have hlength : (rs.parity message).length = n := by
    rw [hparity, List.length_map, List.length_range]
  have hreverse : ofTerms p (rs.parity message).reverse = ofTerms p remainder := by
    ext1 k
    rcases Nat.lt_or_ge k n with hk | hk
    · rw [coeff_ofTerms, coeff_ofTerms, List.getD_eq_getElem _ _ (by rw [List.length_reverse]; omega),
        List.getElem_reverse]
      simp only [hparity, List.getElem_map, List.getElem_range, List.length_map, List.length_range]
      congr 2
      omega
    · rw [hzero k hk, coeff_ofTerms_of_le (by rw [List.length_reverse]; omega)]
  refine ⟨hlength, ?_⟩
  rw [blockPolynomial, List.reverse_append, ofTerms_append, List.length_reverse, hlength, hreverse,
    ← hdividendTerms, ← sub_neg_eq_add]
  have hneg : -ofTerms p (rs.encodedPolynomial message) = ofTerms p (rs.encodedPolynomial message) := by
    ext1 k
    rw [coeff_neg]
    exact neg_eq _
  rw [hneg, ← hterms]
  exact hdvd

theorem ofTerms_injective {l r : List Byte} (hlength : l.length = r.length)
    (h : ofTerms p l = ofTerms p r) : l = r := by
  refine List.ext_getElem hlength fun i hl hr => ?_
  have hcoeff := congrArg (fun P => P.coeff i) h
  simp only [coeff_ofTerms] at hcoeff
  rw [← List.getD_eq_getElem l 0 hl, ← List.getD_eq_getElem r 0 hr]
  exact congrArg byte hcoeff

/-- A block is a codeword when its last bytes are the parity bytes of those in front. -/
theorem vanishesAtRoots_append_iff (h : ValidCode g n) (message : List Byte) {check : List Byte}
    (hcheck : check.length = n) : VanishesAtRoots p c g n (message ++ check) ↔
      check = (correctReedSolomonCreate p c g n).parity message := by
  obtain ⟨hlength, hdvd⟩ := parity_spec (p := p) (c := c) h message
  rw [VanishesAtRoots, ← generator_dvd_iff h]
  constructor
  · intro hword
    -- The difference of the two blocks is a multiple of the generator of lower degree.
    have hdiff := dvd_sub hword hdvd
    rw [blockPolynomial, blockPolynomial, List.reverse_append, List.reverse_append, ofTerms_append,
      ofTerms_append, List.length_reverse, List.length_reverse, hcheck, hlength,
      add_sub_add_right_eq_sub] at hdiff
    have hdegree : (ofTerms p check.reverse -
        ofTerms p ((correctReedSolomonCreate p c g n).parity message).reverse).degree <
        (generatorPolynomial p c g n).degree := by
      rw [degree_eq_natDegree generatorPolynomial_monic.ne_zero, natDegree_generatorPolynomial]
      refine (degree_sub_le _ _).trans_lt (max_lt ?_ ?_)
      · simpa [hcheck] using degree_ofTerms_lt (p := p) check.reverse
      · simpa [hlength] using degree_ofTerms_lt (p := p)
          ((correctReedSolomonCreate p c g n).parity message).reverse
    have hzero := sub_eq_zero.mp (eq_zero_of_dvd_of_degree_lt hdiff hdegree)
    refine List.reverse_injective (ofTerms_injective ?_ hzero)
    rw [List.length_reverse, List.length_reverse, hcheck, hlength]
  · rintro rfl
    exact hdvd

/-! ## Errors -/

/-- The coefficients in which the polynomials of two blocks differ. -/
def errorLocationSet (word received : List Byte) : Finset ℕ :=
  (range word.length).filter fun j => received.reverse.getD j 0 ≠ word.reverse.getD j 0

theorem card_errorLocationSet {word received : List Byte} (hlength : received.length = word.length) :
    (errorLocationSet word received).card = wrongBytes word received := by
  have hzip : (word.zip received).reverse = (List.range word.length).map fun j =>
      (word.reverse.getD j 0, received.reverse.getD j 0) := by
    refine List.ext_getElem (by simp [hlength]) fun j hj hj' => ?_
    have hj : j < word.length := by simpa using hj'
    rw [List.getElem_map, List.getElem_range, List.getD_eq_getElem _ _ (by simpa using hj),
      List.getD_eq_getElem _ _ (by simpa [hlength] using hj)]
    simp [hlength]
  have hcard : (errorLocationSet word received).card = (List.range word.length).countP fun j =>
      received.reverse.getD j 0 ≠ word.reverse.getD j 0 := by
    rw [List.countP_eq_length_filter]
    rfl
  rw [wrongBytes, ← List.countP_reverse, hzip, List.countP_map, hcard]
  refine List.countP_congr fun j _ => ?_
  rw [decide_eq_true_iff, Function.comp_apply, decide_eq_true_iff, ne_comm]

theorem syndrome_eq_sum (word : List Byte) (i : ℕ) :
    (blockPolynomial p word).eval (generatorRoot p c g i) =
      ∑ j ∈ range word.length, (⟨word.reverse.getD j 0⟩ * locationPoint p g j ^ c) *
        locationPoint p g j ^ i := by
  rw [blockPolynomial, eval_ofTerms, List.length_reverse]
  refine sum_congr rfl fun j _ => ?_
  rw [generatorRoot, locationPoint, mul_assoc, ← pow_mul, ← pow_mul, ← pow_mul, ← pow_add]
  congr 2
  ring

/-- The weight of an error in the syndromes. -/
def errorWeight (p : BitVec 16) [PrimitivePoly p] (c g : ℕ) (word received : List Byte) (j : ℕ) :
    FieldElement p :=
  (⟨received.reverse.getD j 0⟩ - ⟨word.reverse.getD j 0⟩) * locationPoint p g j ^ c

/-- The syndromes of two blocks differ by power sums over the errors. -/
theorem syndrome_sub {word received : List Byte} (hlength : received.length = word.length) (i : ℕ) :
    (blockPolynomial p received).eval (generatorRoot p c g i) -
      (blockPolynomial p word).eval (generatorRoot p c g i) =
      ∑ j ∈ errorLocationSet word received, errorWeight p c g word received j *
        locationPoint p g j ^ i := by
  rw [syndrome_eq_sum, syndrome_eq_sum, hlength, ← sum_sub_distrib, errorLocationSet]
  symm
  rw [sum_filter]
  refine sum_congr rfl fun j _ => ?_
  split
  · rw [errorWeight]
    ring
  · next hsame =>
      rw [not_not] at hsame
      rw [hsame, sub_self]

theorem errorWeight_ne_zero {word received : List Byte} {j : ℕ}
    (hj : j ∈ errorLocationSet word received) : errorWeight p c g word received j ≠ 0 := by
  have hne := (mem_filter.mp hj).2
  refine mul_ne_zero (sub_ne_zero.mpr fun heq => hne (congrArg byte heq))
    (pow_ne_zero _ (locationPoint_ne_zero j))

theorem locationPoint_injOn (h : ValidCode g n) {word : List Byte} (hword : word.length ≤ 255)
    (received : List Byte) :
    Set.InjOn (locationPoint p g) (errorLocationSet word received) := by
  intro i hi j hj heq
  have hi := mem_range.mp (mem_filter.mp hi).1
  have hj := mem_range.mp (mem_filter.mp hj).1
  exact locationPoint_inj h (by omega) (by omega) heq

/-- **The distance of the code.** Codewords that differ in no more places than there are roots
are equal. -/
theorem eq_of_wrongBytes_le (h : ValidCode g n) {word received : List Byte}
    (hword : word.length ≤ 255) (hlength : received.length = word.length)
    (hvanish : VanishesAtRoots p c g n word) (hvanish' : VanishesAtRoots p c g n received)
    (hwrong : wrongBytes word received ≤ n) : received = word := by
  have hnone : errorLocationSet word received = ∅ := by
    rw [eq_empty_iff_forall_notMem]
    intro j hj
    have hsums (i : ℕ) (hi : i < n) : ∑ j ∈ errorLocationSet word received,
        errorWeight p c g word received j * locationPoint p g j ^ i = 0 := by
      rw [← syndrome_sub hlength, hvanish i hi, hvanish' i hi, sub_zero]
    rw [← card_errorLocationSet hlength] at hwrong
    exact errorWeight_ne_zero hj (ErrorLocator.weights_eq_zero
      (fun j _ => locationPoint_ne_zero j) (locationPoint_injOn h hword received) hwrong hsums j hj)
  refine List.reverse_injective (List.ext_getElem (by simp [hlength]) fun j hj hj' => ?_)
  by_contra hne
  have hmem : j ∈ errorLocationSet word received := by
    refine mem_filter.mpr ⟨mem_range.mpr (by simpa using hj'), ?_⟩
    rw [List.getD_eq_getElem _ _ hj, List.getD_eq_getElem _ _ hj']
    exact hne
  rw [hnone] at hmem
  exact notMem_empty j hmem

end ObcGsInterface
