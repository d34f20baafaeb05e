import ObcGsInterface.Library.ShiftRegisterSynthesis
import Mathlib.Algebra.Polynomial.Derivative
import Mathlib.Algebra.Polynomial.BigOperators
import Mathlib.Algebra.Ring.GeomSum
import Mathlib.LinearAlgebra.Lagrange
import Mathlib.Tactic.FieldSimp

/-! # Error locators

A sequence of power sums `∑ y k * x k ^ i` is produced by the register whose connection
polynomial has the reciprocals of the points `x k` as its roots, and by no shorter one. From
enough terms of the sequence the points are found as the roots of the shortest register, and
the weights from its derivative. -/

namespace ErrorLocator

open Polynomial Finset ShiftRegisterSynthesis

variable {F ι : Type*} [Field F] (s : Finset ι) (x y : ι → F)

/-- The first `n` power sums of the points `x` with the weights `y`. -/
noncomputable def powerSums (n : ℕ) : F[X] :=
  ∑ i ∈ range n, C (∑ k ∈ s, y k * x k ^ i) * X ^ i

/-- The polynomial with the constant term 1 and the reciprocals of the points as its roots. -/
noncomputable def locator : F[X] := ∏ k ∈ s, (1 - C (x k) * X)

/-- The numerator of the power series of the power sums, over the locator. -/
noncomputable def evaluator [DecidableEq ι] : F[X] := ∑ k ∈ s, C (y k) * locator (s.erase k) x

variable {s x y}

theorem coeff_powerSums (n i : ℕ) :
    (powerSums s x y n).coeff i = if i < n then ∑ k ∈ s, y k * x k ^ i else 0 := by
  simp only [powerSums, finsetSum_coeff, coeff_C_mul, coeff_X_pow, mul_ite, mul_one, mul_zero,
    sum_ite_eq, mem_range]

/-- The terms of a polynomial below `n`. -/
noncomputable def lowTerms (n : ℕ) (P : F[X]) : F[X] := ∑ i ∈ range n, C (P.coeff i) * X ^ i

theorem coeff_lowTerms (n i : ℕ) (P : F[X]) :
    (lowTerms n P).coeff i = if i < n then P.coeff i else 0 := by
  simp only [lowTerms, finsetSum_coeff, coeff_C_mul, coeff_X_pow, mul_ite, mul_one, mul_zero,
    sum_ite_eq, mem_range]

theorem degree_lowTerms_lt (n : ℕ) (P : F[X]) : (lowTerms n P).degree < n := by
  rw [degree_lt_iff_coeff_zero]
  intro i hi
  rw [coeff_lowTerms, if_neg (Nat.not_lt.mpr hi)]

/-! ## The locator -/

theorem locator_coeff_zero : (locator s x).coeff 0 = 1 := by
  rw [coeff_zero_eq_eval_zero, locator, eval_prod]
  simp

theorem natDegree_locator_le : (locator s x).natDegree ≤ s.card := by
  refine (natDegree_prod_le _ _).trans ?_
  rw [card_eq_sum_ones]
  refine sum_le_sum fun k _ => ?_
  refine (natDegree_sub_le _ _).trans (max_le (by simp) ?_)
  exact (natDegree_C_mul_le _ _).trans natDegree_X_le

variable [DecidableEq ι]

theorem locator_erase {k : ι} (hk : k ∈ s) :
    (1 - C (x k) * X) * locator (s.erase k) x = locator s x :=
  mul_prod_erase s (fun k => 1 - C (x k) * X) hk

section Points

variable (hx : ∀ k ∈ s, x k ≠ 0) (hinj : Set.InjOn x s)

include hx in
theorem eval_locator {k : ι} (hk : k ∈ s) : (locator s x).eval (x k)⁻¹ = 0 := by
  rw [← locator_erase hk, eval_mul]
  simp [hx k hk]

include hx hinj in
theorem eval_locator_erase_ne_zero {k : ι} (hk : k ∈ s) :
    (locator (s.erase k) x).eval (x k)⁻¹ ≠ 0 := by
  rw [locator, eval_prod, prod_ne_zero_iff]
  intro j hj
  obtain ⟨hne, hj⟩ := mem_erase.mp hj
  have hdiff : x j ≠ x k := fun h => hne (hinj hj hk h)
  simp only [eval_sub, eval_one, eval_mul, eval_C, eval_X, ← div_eq_mul_inv]
  rw [sub_ne_zero, ne_eq, eq_comm, div_eq_one_iff_eq (hx k hk)]
  exact hdiff

include hx in
/-- The weighted sum of the locators of the other points singles out the weight of a point. -/
theorem eval_evaluator {k : ι} (hk : k ∈ s) :
    (evaluator s x y).eval (x k)⁻¹ = y k * (locator (s.erase k) x).eval (x k)⁻¹ := by
  rw [evaluator, eval_finsetSum, sum_eq_single k]
  · rw [eval_mul, eval_C]
  · intro j hj hne
    have hmem : k ∈ s.erase j := mem_erase.mpr ⟨hne.symm, hk⟩
    rw [eval_mul, eval_locator (fun i hi => hx i (mem_of_mem_erase hi)) hmem, mul_zero]
  · intro hnot
    exact absurd hk hnot

include hx in
theorem eval_derivative_locator {k : ι} (hk : k ∈ s) :
    (derivative (locator s x)).eval (x k)⁻¹ = -x k * (locator (s.erase k) x).eval (x k)⁻¹ := by
  rw [← locator_erase hk, derivative_mul, eval_add, eval_mul, eval_mul]
  simp [hx k hk]

end Points

/-! ## The power sums -/

theorem degree_evaluator_lt : (evaluator s x y).degree < s.card := by
  refine (degree_sum_le _ _).trans_lt ?_
  rw [Finset.sup_lt_iff (WithBot.bot_lt_coe _)]
  intro k hk
  have hle : (C (y k) * locator (s.erase k) x).natDegree ≤ (s.erase k).card :=
    (natDegree_C_mul_le _ _).trans natDegree_locator_le
  refine degree_le_natDegree.trans_lt ?_
  have hlt := card_erase_lt_of_mem hk
  exact_mod_cast hle.trans_lt hlt

/-- The locator turns the power sums into the evaluator, up to terms from `n` on. -/
theorem locator_mul_powerSums (n : ℕ) :
    locator s x * powerSums s x y n =
      evaluator s x y - X ^ n * evaluator s x fun k => y k * x k ^ n := by
  have hgeom (k : ι) (hk : k ∈ s) :
      locator s x * (C (y k) * ∑ i ∈ range n, (C (x k) * X) ^ i) =
        C (y k) * locator (s.erase k) x -
          X ^ n * (C (y k * x k ^ n) * locator (s.erase k) x) := by
    have hsum : (1 - C (x k) * X) * ∑ i ∈ range n, (C (x k) * X) ^ i = 1 - (C (x k) * X) ^ n :=
      mul_neg_geom_sum _ n
    rw [← locator_erase hk, C_mul, C_pow]
    linear_combination C (y k) * locator (s.erase k) x * hsum
  have hpower : powerSums s x y n = ∑ k ∈ s, C (y k) * ∑ i ∈ range n, (C (x k) * X) ^ i := by
    simp only [powerSums, map_sum, sum_mul, mul_sum, C_mul, C_pow, mul_pow, ← mul_assoc]
    exact sum_comm
  rw [hpower, mul_sum, sum_congr rfl hgeom, sum_sub_distrib, ← mul_sum]
  rfl

theorem coeff_locator_mul_powerSums {n i : ℕ} (hi : i < n) :
    (locator s x * powerSums s x y n).coeff i = (evaluator s x y).coeff i := by
  rw [locator_mul_powerSums, coeff_sub, coeff_X_pow_mul', if_neg (Nat.not_le.mpr hi), sub_zero]

/-- The register of the locator produces the power sums. -/
theorem generates_locator (n : ℕ) :
    Generates (powerSums s x y n) (locator s x) s.card n where
  coeff_zero := locator_coeff_zero
  natDegree_le := natDegree_locator_le
  coeff_eq k hk hlt := by
    rw [coeff_locator_mul_powerSums hlt]
    exact coeff_eq_zero_of_degree_lt (degree_evaluator_lt.trans_le (by exact_mod_cast hk))

section Points

variable (hx : ∀ k ∈ s, x k ≠ 0) (hinj : Set.InjOn x s)

include hx hinj in
/-- As many power sums as there are points determine the weights. -/
theorem weights_eq_zero {n : ℕ} (hn : s.card ≤ n)
    (hzero : ∀ i < n, ∑ k ∈ s, y k * x k ^ i = 0) : ∀ k ∈ s, y k = 0 := by
  have hsums : powerSums s x y n = 0 := by
    ext i
    rw [coeff_powerSums, coeff_zero]
    split
    · exact hzero i ‹_›
    · rfl
  have heval : evaluator s x y = 0 := by
    ext i
    rw [coeff_zero]
    rcases Nat.lt_or_ge i n with hlt | hge
    · rw [← coeff_locator_mul_powerSums hlt, hsums, mul_zero, coeff_zero]
    · exact coeff_eq_zero_of_degree_lt (degree_evaluator_lt.trans_le (by exact_mod_cast hn.trans hge))
  intro k hk
  have hpoint := eval_evaluator (y := y) hx hk
  rw [heval, eval_zero, eq_comm, mul_eq_zero] at hpoint
  exact hpoint.resolve_right (eval_locator_erase_ne_zero hx hinj hk)

omit [DecidableEq ι] in
include hx in
theorem eval_mul_pow {P : F[X]} {m : ℕ} (hdegree : P.natDegree ≤ m) {k : ι} (hk : k ∈ s) :
    P.eval (x k)⁻¹ * x k ^ m = ∑ a ∈ range (m + 1), P.coeff a * x k ^ (m - a) := by
  rw [eval_eq_sum_range' (Nat.lt_succ_of_le hdegree), sum_mul]
  refine sum_congr rfl fun a ha => ?_
  rw [mul_assoc, inv_pow, pow_sub₀ _ (hx k hk) (mem_range_succ_iff.mp ha)]
  ring

omit [DecidableEq ι] in
include hx in
/-- A register that runs over power sums evaluates its polynomial at every point. -/
theorem coeff_mul_powerSums {P : F[X]} {n m : ℕ} (hdegree : P.natDegree ≤ m) (hm : m < n) :
    (P * powerSums s x y n).coeff m = ∑ k ∈ s, y k * P.eval (x k)⁻¹ * x k ^ m := by
  rw [coeff_mul, Nat.sum_antidiagonal_eq_sum_range_succ_mk]
  have hterm (a : ℕ) (ha : a ∈ range (m + 1)) :
      P.coeff a * (powerSums s x y n).coeff (m - a) =
        ∑ k ∈ s, y k * (P.coeff a * x k ^ (m - a)) := by
    rw [coeff_powerSums, if_pos (by omega), mul_sum]
    exact sum_congr rfl fun k _ => mul_left_comm _ _ _
  rw [sum_congr rfl hterm, sum_comm]
  refine sum_congr rfl fun k hk => ?_
  rw [← mul_sum, ← eval_mul_pow hx hdegree hk, mul_assoc]

include hx hinj in
/-- A register that produces enough of the power sums vanishes at the reciprocals of the
points. -/
theorem Generates.eval_eq_zero {P : F[X]} {L n : ℕ} (h : Generates (powerSums s x y n) P L n)
    (hy : ∀ k ∈ s, y k ≠ 0) (hn : L + s.card ≤ n) : ∀ k ∈ s, P.eval (x k)⁻¹ = 0 := by
  have hsums (i : ℕ) (hi : i < n - L) :
      ∑ k ∈ s, (y k * P.eval (x k)⁻¹ * x k ^ L) * x k ^ i = 0 := by
    have hcoeff := h.coeff_eq (L + i) (Nat.le_add_right L i) (by omega)
    rw [coeff_mul_powerSums hx (h.natDegree_le.trans (Nat.le_add_right L i)) (by omega)] at hcoeff
    rw [← hcoeff]
    exact sum_congr rfl fun k _ => by rw [pow_add, mul_assoc]
  intro k hk
  have hzero := weights_eq_zero hx hinj (Nat.le_sub_of_add_le' hn) hsums k hk
  rw [mul_eq_zero, mul_eq_zero] at hzero
  exact (hzero.resolve_right (pow_ne_zero L (hx k hk))).resolve_left (hy k hk)

include hx hinj in
/-- A polynomial with the constant term 1 and a root at every reciprocal is the locator. -/
theorem eq_locator {P : F[X]} (hzero : P.coeff 0 = 1) (hdegree : P.natDegree ≤ s.card)
    (hroot : ∀ k ∈ s, P.eval (x k)⁻¹ = 0) : P = locator s x := by
  classical
  have hinv : Set.InjOn (fun k => (x k)⁻¹) s := fun i hi j hj h => hinj hi hj (inv_injective h)
  have hnot : (0 : F) ∉ s.image fun k => (x k)⁻¹ := by
    intro hmem
    obtain ⟨k, hk, hinv⟩ := mem_image.mp hmem
    exact hx k hk (inv_eq_zero.mp hinv)
  have hcard : (insert 0 (s.image fun k => (x k)⁻¹)).card = s.card + 1 := by
    rw [card_insert_of_notMem hnot, card_image_of_injOn hinv]
  have hlt {Q : F[X]} (hQ : Q.natDegree ≤ s.card) :
      Q.degree < (insert 0 (s.image fun k => (x k)⁻¹)).card := by
    rw [hcard]
    exact degree_le_natDegree.trans_lt (by exact_mod_cast Nat.lt_succ_of_le hQ)
  refine eq_of_degrees_lt_of_eval_finset_eq _ (hlt hdegree) (hlt natDegree_locator_le) ?_
  intro z hz
  rcases mem_insert.mp hz with rfl | hz
  · rw [← coeff_zero_eq_eval_zero, ← coeff_zero_eq_eval_zero, hzero, locator_coeff_zero]
  · obtain ⟨k, hk, rfl⟩ := mem_image.mp hz
    rw [hroot k hk, eval_locator hx hk]

include hx hinj in
/-- **The shortest register finds the points.** -/
theorem shortest_eq_locator {P : F[X]} {L n : ℕ} (h : Shortest (powerSums s x y n) P L n)
    (hy : ∀ k ∈ s, y k ≠ 0) (hn : 2 * s.card ≤ n) : P = locator s x ∧ L = s.card := by
  classical
  have hle : L ≤ s.card := h.minimal _ _ (generates_locator n)
  have hlocator : P = locator s x := eq_locator hx hinj h.coeff_zero (h.natDegree_le.trans hle)
    (Generates.eval_eq_zero hx hinj h.toGenerates hy (by omega))
  refine ⟨hlocator, Nat.le_antisymm hle ?_⟩
  -- A polynomial with as many roots has at least that degree.
  have hdegree : s.card ≤ (locator s x).natDegree := by
    have hne : locator s x ≠ 0 := by
      intro hzero
      have hone : (locator s x).coeff 0 = 1 := locator_coeff_zero
      rw [hzero, coeff_zero] at hone
      exact zero_ne_one hone
    rw [← card_image_of_injOn fun i hi j hj h => hinj hi hj (inv_injective h)]
    refine card_le_degree_of_subset_roots fun z hz => ?_
    obtain ⟨k, hk, rfl⟩ := mem_image.mp hz
    exact (mem_roots hne).mpr (eval_locator hx hk)
  rw [← hlocator] at hdegree
  exact hdegree.trans h.natDegree_le

/-! ## The weights -/

omit [DecidableEq ι] in
theorem eq_zero_of_locator_mul (D : F[X]) {n : ℕ}
    (h : ∀ i < n, (locator s x * D).coeff i = 0) : ∀ i < n, D.coeff i = 0 := by
  intro i
  induction i using Nat.strong_induction_on with
  | _ i ih =>
      intro hi
      have hcoeff := h i hi
      rwa [coeff_mul_of_coeff_zero locator_coeff_zero le_rfl fun j _ hj =>
        ih j hj (by omega)] at hcoeff

include hx hinj in
/-- **The weights from the derivative.** A sequence that the locator produces is a sequence of
power sums, whose weights are found by evaluating the product of the two at the roots. -/
theorem coeff_eq_powerSum {S Ω : F[X]} {n : ℕ} (h : Generates S (locator s x) s.card n)
    (hΩ : ∀ i < n, Ω.coeff i = (locator s x * S).coeff i)
    (hdegree : Ω.degree < n) {i : ℕ} (hi : i < n) :
    S.coeff i = ∑ k ∈ s, -x k * (Ω.eval (x k)⁻¹ / (derivative (locator s x)).eval (x k)⁻¹) *
      x k ^ i := by
  have hlow : Ω.degree < s.card := by
    rw [degree_lt_iff_coeff_zero]
    intro m hm
    rcases Nat.lt_or_ge m n with hlt | hge
    · rw [hΩ m hlt, h.coeff_eq m hm hlt]
    · exact coeff_eq_zero_of_degree_lt (hdegree.trans_le (by exact_mod_cast hge))
  obtain ⟨y, hy⟩ : ∃ y : ι → F, ∀ k,
      y k = -x k * (Ω.eval (x k)⁻¹ / (derivative (locator s x)).eval (x k)⁻¹) := ⟨_, fun _ => rfl⟩
  have hpoint (k : ι) (hk : k ∈ s) :
      (evaluator s x y).eval (x k)⁻¹ = Ω.eval (x k)⁻¹ := by
    rw [eval_evaluator hx hk, hy k, eval_derivative_locator hx hk]
    have hne := eval_locator_erase_ne_zero hx hinj hk
    have hxk := hx k hk
    generalize (locator (s.erase k) x).eval (x k)⁻¹ = l at hne ⊢
    generalize Ω.eval (x k)⁻¹ = w
    field_simp
  have hinv : Set.InjOn (fun k => (x k)⁻¹) s := fun i hi j hj h => hinj hi hj (inv_injective h)
  have hΩeq : evaluator s x y = Ω :=
    eq_of_degrees_lt_of_eval_index_eq s hinv degree_evaluator_lt hlow hpoint
  have hdiff := eq_zero_of_locator_mul (s := s) (x := x) (S - powerSums s x y n) (n := n) (by
    intro j hj
    rw [mul_sub, coeff_sub, coeff_locator_mul_powerSums hj, hΩeq, hΩ j hj, sub_self]) i hi
  rw [coeff_sub, sub_eq_zero, coeff_powerSums, if_pos hi] at hdiff
  rw [hdiff]
  exact sum_congr rfl fun k _ => by rw [hy k]

end Points

end ErrorLocator
