import ObcGsInterface.Verification.Fec.Field
import Mathlib.Algebra.Polynomial.Derivative
import Mathlib.Algebra.Polynomial.BigOperators
import Mathlib.Algebra.Polynomial.Div
import Mathlib.Algebra.Polynomial.Eval.Degree

/-! # Polynomials over the field

What the operations of `polynomial.c` compute, in terms of the polynomial that a list of
coefficients stands for. -/

namespace ObcGsInterface

open Polynomial Finset FieldElement CArray

-- The tables are never evaluated in a proof.
attribute [local irreducible] fieldCreate

variable {p : BitVec 16} [PrimitivePoly p]

/-! ## Lists of coefficients -/

variable (p) in
/-- The polynomial with the given coefficients, from low order to high. -/
noncomputable def ofTerms (terms : List Byte) : (FieldElement p)[X] :=
  ∑ i ∈ range terms.length, C ⟨terms.getD i 0⟩ * X ^ i

@[simp] theorem coeff_ofTerms (terms : List Byte) (i : ℕ) :
    (ofTerms p terms).coeff i = ⟨terms.getD i 0⟩ := by
  simp only [ofTerms, finsetSum_coeff, coeff_C_mul, coeff_X_pow, mul_ite, mul_one, mul_zero,
    sum_ite_eq, mem_range]
  split
  · rfl
  · rw [List.getD_eq_default _ _ (by omega)]
    rfl

theorem coeff_ofTerms_of_le {terms : List Byte} {i : ℕ} (h : terms.length ≤ i) :
    (ofTerms p terms).coeff i = 0 := by
  rw [coeff_ofTerms, List.getD_eq_default _ _ h]
  rfl

theorem degree_ofTerms_lt (terms : List Byte) : (ofTerms p terms).degree < terms.length := by
  rw [degree_lt_iff_coeff_zero]
  intro i hi
  exact coeff_ofTerms_of_le hi

theorem eval_ofTerms (terms : List Byte) (x : FieldElement p) :
    (ofTerms p terms).eval x = ∑ i ∈ range terms.length, ⟨terms.getD i 0⟩ * x ^ i := by
  simp only [ofTerms, eval_finsetSum, eval_mul, eval_C, eval_pow, eval_X]

theorem exists_ofTerms_eq {P : (FieldElement p)[X]} {n : ℕ} (h : P.degree < n) :
    ∃ terms : List Byte, terms.length = n ∧ ofTerms p terms = P := by
  refine ⟨(List.range n).map fun i => (P.coeff i).byte, by simp, ?_⟩
  ext1 i
  rw [coeff_ofTerms]
  rcases Nat.lt_or_ge i n with hi | hi
  · rw [List.getD_eq_getElem _ _ (by simpa using hi), List.getElem_map, List.getElem_range]
  · rw [List.getD_eq_default _ _ (by simpa using hi), (degree_lt_iff_coeff_zero _ _).mp h i hi]
    rfl

theorem ofTerms_append (l r : List Byte) :
    ofTerms p (l ++ r) = ofTerms p l + X ^ l.length * ofTerms p r := by
  ext1 i
  rw [coeff_add, coeff_X_pow_mul', coeff_ofTerms, coeff_ofTerms]
  split
  · next hle =>
      rw [List.getD_append_right _ _ _ _ hle, coeff_ofTerms, List.getD_eq_default _ _ hle,
        ← zero_def, zero_add]
  · next hlt => rw [List.getD_append _ _ _ _ (by omega), add_zero]

theorem ofTerms_replicate_zero (n : ℕ) : ofTerms p (List.replicate n 0) = 0 := by
  ext1 i
  rw [coeff_ofTerms, coeff_zero, List.getD_eq_getElem?_getD,
    List.getElem?_getD_replicate_default_eq]
  rfl

theorem natDegree_ofTerms_le {terms : List Byte} {n : ℕ} (h : terms.length ≤ n + 1) :
    (ofTerms p terms).natDegree ≤ n := by
  rw [natDegree_le_iff_coeff_eq_zero]
  intro i hi
  exact coeff_ofTerms_of_le (by omega)

/-- A value added to one coefficient. -/
theorem ofTerms_set_add {terms : List Byte} {i : ℕ} (h : i < terms.length) (value : Byte) :
    ofTerms p (terms.set i ((fieldCreate p).add (terms.getD i 0) value)) =
      ofTerms p terms + C ⟨value⟩ * X ^ i := by
  ext1 k
  rw [coeff_add, coeff_C_mul, coeff_X_pow, coeff_ofTerms, coeff_ofTerms, getD_set]
  by_cases hk : i = k
  · rw [if_pos ⟨hk, h⟩, if_pos hk.symm, mk_add, hk, mul_one]
  · rw [if_neg fun hsame => hk hsame.1, if_neg (Ne.symm hk), mul_zero, add_zero]

/-- A loop that adds a value to each of a row of coefficients. -/
theorem ofTerms_foldl_add {step : List Byte → ℕ → List Byte} (term : ℕ → Byte) {start n : ℕ}
    (hstep : ∀ terms : List Byte, ∀ j < n, step terms j = terms.set (start + j)
      ((fieldCreate p).add (terms.getD (start + j) 0) (term j)))
    (terms : List Byte) (h : start + n ≤ terms.length) :
    ((List.range n).foldl step terms).length = terms.length ∧
      ofTerms p ((List.range n).foldl step terms) =
        ofTerms p terms + X ^ start * ∑ j ∈ range n, C ⟨term j⟩ * X ^ j := by
  induction n with
  | zero => simp
  | succ n ih =>
      obtain ⟨hlength, hterms⟩ := ih (fun terms j hj => hstep terms j (by omega)) (by omega)
      rw [List.range_succ, List.foldl_append, List.foldl_cons, List.foldl_nil,
        hstep _ n (Nat.lt_succ_self n), ofTerms_set_add (by omega), List.length_set, hterms,
        sum_range_succ]
      exact ⟨hlength, by ring⟩

/-! ## Multiplication -/

/-- The terms below an order, which are all that count there. -/
theorem coeff_mul_lowTerms {k n m : ℕ} (hk : k < n + m) (a : FieldElement p) (r : List Byte) :
    (X ^ n * (C a * ∑ j ∈ range m, C (⟨r.getD j 0⟩ : FieldElement p) * X ^ j)).coeff k =
      (X ^ n * (C a * ofTerms p r)).coeff k := by
  rw [coeff_X_pow_mul', coeff_X_pow_mul', coeff_C_mul, coeff_C_mul]
  split
  · simp only [finsetSum_coeff, coeff_C_mul, coeff_X_pow, mul_ite, mul_one, mul_zero,
      sum_ite_eq, mem_range, coeff_ofTerms]
    rw [if_pos (by omega)]
  · rfl

/-- The body of the outer loop of `polynomial_mul`. -/
def polynomialMulRow (field : RsField) (l r : List Byte) (order : ℕ) (res : List Byte) (i : ℕ) :
    List Byte :=
  if i > order then res
  else
    let jLimit := if r.length - 1 > order - i then order - i else r.length - 1
    (List.range (jLimit + 1)).foldl (fun res j =>
      res.set (i + j)
        (field.add (res.getD (i + j) 0) (field.mul (l.getD i 0) (r.getD j 0)))) res

theorem polynomialMul_eq (field : RsField) (l r : List Byte) (order : ℕ) :
    polynomialMul field l r order =
      (List.range l.length).foldl (polynomialMulRow field l r order)
        (List.replicate (order + 1) 0) := rfl

/-- A row adds the product of one coefficient with the other factor. -/
theorem polynomialMulRow_spec (l : List Byte) {r : List Byte} (hr : r ≠ []) {order : ℕ}
    {res : List Byte} (hres : res.length = order + 1) (i : ℕ) :
    (polynomialMulRow (fieldCreate p) l r order res i).length = order + 1 ∧
      ∀ k ≤ order, (ofTerms p (polynomialMulRow (fieldCreate p) l r order res i)).coeff k =
        (ofTerms p res).coeff k +
          (X ^ i * (C (⟨l.getD i 0⟩ : FieldElement p) * ofTerms p r)).coeff k := by
  have hlength : 0 < r.length := List.length_pos_iff.mpr hr
  rw [polynomialMulRow]
  split
  · refine ⟨hres, fun k hk => ?_⟩
    rw [coeff_X_pow_mul', if_neg (by omega), add_zero]
  · next hi =>
      have hlimit : (if r.length - 1 > order - i then order - i else r.length - 1) + 1 =
          min (order + 1 - i) r.length := by
        split <;> omega
      simp only [hlimit]
      obtain ⟨hsame, hterms⟩ := @ofTerms_foldl_add p _
        (fun res j => res.set (i + j) ((fieldCreate p).add (res.getD (i + j) 0)
          ((fieldCreate p).mul (l.getD i 0) (r.getD j 0))))
        (fun j => (fieldCreate p).mul (l.getD i 0) (r.getD j 0)) i (min (order + 1 - i) r.length)
        (fun _ _ _ => rfl) res (by omega)
      refine ⟨hsame.trans hres, fun k hk => ?_⟩
      have hfactor : ∑ j ∈ range (min (order + 1 - i) r.length),
          C (⟨(fieldCreate p).mul (l.getD i 0) (r.getD j 0)⟩ : FieldElement p) * X ^ j =
          C ⟨l.getD i 0⟩ * ∑ j ∈ range (min (order + 1 - i) r.length),
            C (⟨r.getD j 0⟩ : FieldElement p) * X ^ j := by
        rw [mul_sum]
        exact sum_congr rfl fun j _ => by rw [mk_mul, C_mul, mul_assoc]
      rw [hterms, coeff_add, hfactor]
      congr 1
      rcases Nat.lt_or_ge (order + 1 - i) r.length with hshort | hlong
      · rw [Nat.min_eq_left (Nat.le_of_lt hshort)]
        have hk' : k < i + (order + 1 - i) := by omega
        exact coeff_mul_lowTerms hk' _ r
      · rw [Nat.min_eq_right hlong, ← ofTerms]

/-- `polynomial_mul` leaves out the terms above the order of the result. -/
theorem polynomialMul_spec (l : List Byte) {r : List Byte} (hr : r ≠ []) (order : ℕ) :
    (polynomialMul (fieldCreate p) l r order).length = order + 1 ∧
      ∀ k ≤ order, (ofTerms p (polynomialMul (fieldCreate p) l r order)).coeff k =
        (ofTerms p l * ofTerms p r).coeff k := by
  have hrun (m : ℕ) :
      ((List.range m).foldl (polynomialMulRow (fieldCreate p) l r order)
        (List.replicate (order + 1) 0)).length = order + 1 ∧
      ∀ k ≤ order, (ofTerms p ((List.range m).foldl (polynomialMulRow (fieldCreate p) l r order)
        (List.replicate (order + 1) 0))).coeff k =
        ((∑ i ∈ range m, C (⟨l.getD i 0⟩ : FieldElement p) * X ^ i) * ofTerms p r).coeff k := by
    induction m with
    | zero =>
        refine ⟨List.length_replicate, fun k _ => ?_⟩
        rw [List.range_zero, List.foldl_nil, ofTerms_replicate_zero, range_zero, sum_empty, zero_mul]
    | succ m ih =>
        obtain ⟨hsize, hcoeff⟩ := ih
        obtain ⟨hsize', hcoeff'⟩ := polynomialMulRow_spec (p := p) l hr hsize m
        rw [List.range_succ, List.foldl_append, List.foldl_cons, List.foldl_nil]
        refine ⟨hsize', fun k hk => ?_⟩
        rw [hcoeff' k hk, hcoeff k hk, sum_range_succ, add_mul, coeff_add]
        congr 2
        ring
  rw [polynomialMul_eq]
  exact hrun l.length

/-- Into a result of the full order, `polynomial_mul` is multiplication. -/
theorem ofTerms_polynomialMul {l r : List Byte} (hr : r ≠ []) {order : ℕ}
    (horder : l.length + r.length ≤ order + 2) :
    ofTerms p (polynomialMul (fieldCreate p) l r order) = ofTerms p l * ofTerms p r := by
  obtain ⟨hlength, hcoeff⟩ := polynomialMul_spec (p := p) l hr order
  ext1 k
  rcases Nat.lt_or_ge order k with hlarge | hsmall
  · rw [coeff_ofTerms_of_le (by omega), coeff_mul]
    symm
    apply sum_eq_zero
    rintro ⟨i, j⟩ hsum
    rw [HasAntidiagonal.mem_antidiagonal] at hsum
    rcases Nat.lt_or_ge i l.length with hi | hi
    · have hj : r.length ≤ j := by omega
      rw [coeff_ofTerms_of_le hj, mul_zero]
    · rw [coeff_ofTerms_of_le hi, zero_mul]
  · exact hcoeff k hsmall

theorem length_polynomialMul (l : List Byte) {r : List Byte} (hr : r ≠ []) (order : ℕ) :
    (polynomialMul (fieldCreate p) l r order).length = order + 1 :=
  (polynomialMul_spec (p := p) l hr order).1

/-! ## Roots -/

theorem ofTerms_linear (root : Byte) :
    ofTerms p [root, 1] = X + C (⟨root⟩ : FieldElement p) := by
  simp only [ofTerms, List.length_cons, List.length_nil, sum_range_succ, range_zero, sum_empty]
  simp only [List.getD_cons_zero, List.getD_cons_succ, pow_zero, mul_one, zero_add, pow_one,
    ← one_def, C_1, one_mul]
  exact add_comm _ _

/-- `polynomial_create_from_roots` multiplies out the linear factors. -/
theorem polynomialCreateFromRoots_spec {roots : List Byte} (h : roots ≠ []) :
    (polynomialCreateFromRoots (fieldCreate p) roots).length = roots.length + 1 ∧
      ofTerms p (polynomialCreateFromRoots (fieldCreate p) roots) =
        ∏ i ∈ range roots.length, (X + C (⟨roots.getD i 0⟩ : FieldElement p)) := by
  have hlength : 0 < roots.length := List.length_pos_iff.mpr h
  have hrun (m : ℕ) (res : List Byte) (hres : res = (List.range' 1 m).foldl
      (fun r i => polynomialMul (fieldCreate p) [roots.getD i 0, 1] r (i + 1))
      [roots.getD 0 0, 1]) : res.length = m + 2 ∧ ofTerms p res =
        ∏ i ∈ range (m + 1), (X + C (⟨roots.getD i 0⟩ : FieldElement p)) := by
    induction m generalizing res with
    | zero =>
        rw [hres, List.range'_zero, List.foldl_nil, prod_range_one]
        exact ⟨rfl, ofTerms_linear _⟩
    | succ m ih =>
        rw [List.range'_1_concat, List.foldl_append, List.foldl_cons, List.foldl_nil] at hres
        obtain ⟨hsize, hterms⟩ := ih _ rfl
        have hne : (List.range' 1 m).foldl
            (fun r i => polynomialMul (fieldCreate p) [roots.getD i 0, 1] r (i + 1))
            [roots.getD 0 0, 1] ≠ [] := by
          rw [← List.length_pos_iff, hsize]
          omega
        rw [hres, Nat.add_comm 1 m]
        refine ⟨length_polynomialMul _ hne _, ?_⟩
        rw [ofTerms_polynomialMul hne, ofTerms_linear, hterms, prod_range_succ _ (m + 1), mul_comm]
        rw [hsize, List.length_cons, List.length_cons, List.length_nil]
        omega
  obtain ⟨hsize, hterms⟩ := hrun (roots.length - 1) _ rfl
  rw [Nat.sub_add_cancel hlength] at hterms
  exact ⟨hsize.trans (by omega), hterms⟩

/-! ## Division -/

/-- What a round of `polynomial_mod` adds to a coefficient. -/
def quotientTerm (field : RsField) (divisor : List Byte) (qCoeff : Byte) (j : ℕ) : Byte :=
  if divisor.getD j 0 = 0 then 0
  else field.mulLogElement (field.logAt (divisor.getD j 0)) qCoeff

omit [PrimitivePoly p] in
theorem quotient_step (divisor mod : List Byte) (qCoeff : Byte) (j k : ℕ) :
    (if divisor.getD j 0 = 0 then mod
      else mod.set k ((fieldCreate p).add (mod.getD k 0)
        ((fieldCreate p).mulLogElement ((fieldCreate p).logAt (divisor.getD j 0)) qCoeff))) =
      mod.set k ((fieldCreate p).add (mod.getD k 0)
        (quotientTerm (fieldCreate p) divisor qCoeff j)) := by
  rw [quotientTerm]
  split
  · have hsame : (fieldCreate p).add (mod.getD k 0) 0 = mod.getD k 0 := BitVec.xor_zero
    rw [hsame]
    rcases Nat.lt_or_ge k mod.length with hlt | hge
    · rw [List.getD_eq_getElem _ _ hlt, List.set_getElem_self]
    · rw [List.set_eq_of_length_le hge]
  · rfl

/-- A round of `polynomial_mod` adds a multiple of the divisor. -/
theorem ofTerms_modStep {divisor : List Byte} {d : ℕ} (hdivisor : divisor.length = d + 1)
    (hmonic : divisor.getD d 0 = 1) {mod : List Byte} {i : ℕ} (hi : i < mod.length) (hd : d ≤ i) :
    (polynomialModStep (fieldCreate p) divisor mod i).length = mod.length ∧
      ofTerms p (polynomialModStep (fieldCreate p) divisor mod i) =
        ofTerms p mod +
          X ^ (i - d) * (C (⟨mod.getD i 0⟩ : FieldElement p) * ofTerms p divisor) := by
  have horder : divisor.length - 1 = d := by omega
  unfold polynomialModStep
  simp only [horder]
  rw [if_neg (Nat.not_lt.mpr hd)]
  split
  · next hzero =>
      refine ⟨rfl, ?_⟩
      rw [hzero, ← zero_def, C_0, zero_mul, mul_zero, add_zero]
  · next hne =>
      have hone : (1 : Byte) ≠ 0 := by decide
      have hlog := (logAt_spec (p := p) hne).1
      have hlogOne := (logAt_spec (p := p) hone).1
      -- The leading coefficient is 1, so that the quotient is the coefficient itself.
      obtain ⟨hpos, hquotient⟩ := divLog_spec (p := p) hlog.1 hlogOne.1
      rw [alpha_pow_logAt hne, alpha_pow_logAt hone, ← one_def, mul_one] at hquotient
      rw [hmonic]
      generalize (fieldCreate p).divLog ((fieldCreate p).logAt (mod.getD i 0))
        ((fieldCreate p).logAt 1) = qCoeff at hquotient ⊢
      have hterm (j : ℕ) : (⟨quotientTerm (fieldCreate p) divisor qCoeff j⟩ : FieldElement p) =
          ⟨mod.getD i 0⟩ * ⟨divisor.getD j 0⟩ := by
        rw [quotientTerm]
        split
        · next hzero => rw [hzero, ← zero_def, mul_zero]
        · next hzero => rw [mk_mulLogElement, alpha_pow_logAt hzero, hquotient, mul_comm]
      obtain ⟨hlength, hterms⟩ := ofTerms_foldl_add (p := p) (n := d + 1)
        (quotientTerm (fieldCreate p) divisor qCoeff)
        (fun _ j _ => by rw [Nat.add_comm (i - d) j]) mod (by omega)
      simp only [quotient_step]
      refine ⟨hlength, ?_⟩
      rw [hterms]
      congr 2
      rw [ofTerms, hdivisor, mul_sum]
      exact sum_congr rfl fun j _ => by rw [hterm, C_mul, mul_assoc]

/-- After a round the coefficient that it looks at is zero. -/
theorem coeff_modStep {divisor : List Byte} {d : ℕ} (hdivisor : divisor.length = d + 1)
    (hmonic : divisor.getD d 0 = 1) {mod : List Byte} {i : ℕ} (hi : i < mod.length) (hd : d ≤ i)
    (habove : ∀ k, i < k → (ofTerms p mod).coeff k = 0) {k : ℕ} (hk : i ≤ k) :
    (ofTerms p (polynomialModStep (fieldCreate p) divisor mod i)).coeff k = 0 := by
  rw [(ofTerms_modStep hdivisor hmonic hi hd).2, coeff_add, coeff_X_pow_mul', if_pos (by omega),
    coeff_C_mul]
  rcases Nat.eq_or_lt_of_le hk with rfl | hlt
  · have hlead : (ofTerms p divisor).coeff (i - (i - d)) = 1 := by
      rw [Nat.sub_sub_self hd, coeff_ofTerms, hmonic]
      rfl
    rw [hlead, mul_one, coeff_ofTerms]
    exact add_self _
  · have habove' : divisor.length ≤ k - (i - d) := by omega
    rw [habove k hlt, coeff_ofTerms_of_le habove', mul_zero, add_zero]

/-- `polynomial_mod` by a polynomial with leading coefficient 1 is the remainder. -/
theorem polynomialMod_spec {dividend divisor : List Byte} {d : ℕ}
    (hdivisor : divisor.length = d + 1) (hmonic : divisor.getD d 0 = 1) (hpos : 0 < d)
    (hlength : d ≤ dividend.length) :
    (polynomialMod (fieldCreate p) dividend divisor).length = dividend.length ∧
      ofTerms p divisor ∣
        ofTerms p (polynomialMod (fieldCreate p) dividend divisor) - ofTerms p dividend ∧
      ∀ k, d ≤ k → (ofTerms p (polynomialMod (fieldCreate p) dividend divisor)).coeff k = 0 := by
  obtain ⟨n, hn⟩ : ∃ n, dividend.length = n := ⟨_, rfl⟩
  -- The rounds go down from the highest coefficient.
  have hrun (m : ℕ) (hm : m + 1 ≤ n) (mod : List Byte) (hsize : mod.length = n)
      (hdvd : ofTerms p divisor ∣ ofTerms p mod - ofTerms p dividend)
      (habove : ∀ k, max (m + 1) d ≤ k → (ofTerms p mod).coeff k = 0) :
      ((List.range' 1 m).reverse.foldl (polynomialModStep (fieldCreate p) divisor) mod).length = n ∧
      ofTerms p divisor ∣
        ofTerms p ((List.range' 1 m).reverse.foldl (polynomialModStep (fieldCreate p) divisor) mod) -
          ofTerms p dividend ∧
      ∀ k, d ≤ k → (ofTerms p ((List.range' 1 m).reverse.foldl
        (polynomialModStep (fieldCreate p) divisor) mod)).coeff k = 0 := by
    induction m generalizing mod with
    | zero => exact ⟨hsize, hdvd, fun k hk => habove k (by omega)⟩
    | succ m ih =>
        rw [List.range'_1_concat, List.reverse_append, List.reverse_singleton, List.singleton_append,
          List.foldl_cons, Nat.add_comm 1 m]
        rcases Nat.lt_or_ge (m + 1) d with hlow | hhigh
        · have hkeep : polynomialModStep (fieldCreate p) divisor mod (m + 1) = mod := by
            unfold polynomialModStep
            exact if_pos (by omega)
          rw [hkeep]
          exact ih (by omega) mod hsize hdvd fun k hk => habove k (by omega)
        · have hi : m + 1 < mod.length := by omega
          obtain ⟨hsame, hterms⟩ := ofTerms_modStep (p := p) hdivisor hmonic hi hhigh
          refine ih (by omega) _ (hsame.trans hsize) ?_ fun k hk =>
            coeff_modStep hdivisor hmonic hi hhigh (fun k hk => habove k (by omega)) (by omega)
          rw [hterms, add_sub_right_comm]
          exact dvd_add hdvd (Dvd.intro_left _ (by rw [mul_assoc]))
  rw [polynomialMod, hn]
  refine hrun (n - 1) (by omega) dividend hn (by rw [sub_self]; exact dvd_zero _) fun k hk => ?_
  exact coeff_ofTerms_of_le (by omega)

end ObcGsInterface
