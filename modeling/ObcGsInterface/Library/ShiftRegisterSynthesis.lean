import Mathlib.Algebra.Polynomial.Degree.Lemmas
import Mathlib.Tactic.LinearCombination

/-! # Synthesis of shift registers

A linear feedback shift register of length `L` with connection polynomial `C` produces a
sequence `S` when the coefficients of `C * S` vanish from the index `L` on. The register is
found term by term: every new term either agrees with the register, or a multiple of an earlier
register that failed is added, which makes it longer only when no register of the old length
would do. -/

namespace ShiftRegisterSynthesis

open Polynomial Finset

variable {F : Type*} [Field F] {S C C' B : F[X]} {L L' M m n i : ℕ} {b : F}

/-- The register with connection polynomial `C` and length `L` produces the first `n` terms of
the sequence `S`. -/
structure Generates (S C : F[X]) (L n : ℕ) : Prop where
  coeff_zero : C.coeff 0 = 1
  natDegree_le : C.natDegree ≤ L
  coeff_eq : ∀ k, L ≤ k → k < n → (C * S).coeff k = 0

theorem Generates.mono (h : Generates S C L n) (hi : i ≤ n) : Generates S C L i where
  coeff_zero := h.coeff_zero
  natDegree_le := h.natDegree_le
  coeff_eq k hk hlt := h.coeff_eq k hk (Nat.lt_of_lt_of_le hlt hi)

/-- No shorter register produces these terms. -/
structure Shortest (S C : F[X]) (L n : ℕ) : Prop extends Generates S C L n where
  minimal : ∀ C' L', Generates S C' L' n → L ≤ L'

/-- In a product with a polynomial of low degree, only the nearby coefficients count. -/
theorem coeff_mul_eq_zero {P Q : F[X]} {k : ℕ} (hdegree : P.natDegree ≤ L)
    (hzero : ∀ j, k ≤ j + L → j ≤ k → Q.coeff j = 0) : (P * Q).coeff k = 0 := by
  rw [coeff_mul]
  apply sum_eq_zero
  rintro ⟨a, j⟩ hsum
  rw [HasAntidiagonal.mem_antidiagonal] at hsum
  rcases Nat.lt_or_ge L a with hlarge | hsmall
  · rw [coeff_eq_zero_of_natDegree_lt (Nat.lt_of_le_of_lt hdegree hlarge), zero_mul]
  · rw [hzero j (by omega) (by omega), mul_zero]

/-- In a product with a polynomial with the constant term 1, a coefficient counts alone when the
nearby ones below it are 0. -/
theorem coeff_mul_of_coeff_zero {P Q : F[X]} {k : ℕ} (hone : P.coeff 0 = 1)
    (hdegree : P.natDegree ≤ L) (hzero : ∀ j, k ≤ j + L → j < k → Q.coeff j = 0) :
    (P * Q).coeff k = Q.coeff k := by
  rw [coeff_mul, sum_eq_single (0, k)]
  · rw [hone, one_mul]
  · rintro ⟨a, j⟩ hsum hne
    rw [HasAntidiagonal.mem_antidiagonal] at hsum
    have ha : a ≠ 0 := by
      rintro rfl
      exact hne (Prod.ext rfl ((Nat.zero_add j).symm.trans hsum))
    rcases Nat.lt_or_ge L a with hlarge | hsmall
    · rw [coeff_eq_zero_of_natDegree_lt (Nat.lt_of_le_of_lt hdegree hlarge), zero_mul]
    · rw [hzero j (by omega) (by omega), mul_zero]
  · intro hmem
    exact absurd (HasAntidiagonal.mem_antidiagonal.mpr (Nat.zero_add k)) hmem

/-- A register that fails at a term bounds the length of every register that does not. -/
theorem Generates.length_add_length (h : Generates S C L n) (hfail : (C * S).coeff n ≠ 0)
    (h' : Generates S C' L' (n + 1)) : n + 1 ≤ L + L' := by
  by_contra hshort
  -- The coefficient `n` of `C' * C * S`, read in two ways.
  have hzero : (C * (C' * S)).coeff n = 0 :=
    coeff_mul_eq_zero h.natDegree_le fun j hj hjn => h'.coeff_eq j (by omega) (by omega)
  rw [mul_left_comm, coeff_mul_of_coeff_zero h'.coeff_zero h'.natDegree_le
    fun j hj hjn => h.coeff_eq j (by omega) hjn] at hzero
  exact hfail hzero

/-- A tap that cancels the last term with an earlier one. -/
theorem generates_tap {k : ℕ} (hk : k < n - 1) (hne : S.coeff k ≠ 0) :
    Generates S (1 - Polynomial.C (S.coeff (n - 1) / S.coeff k) * X ^ (n - 1 - k)) (n - 1) n where
  coeff_zero := by
    rw [coeff_sub, coeff_one_zero, coeff_C_mul, coeff_X_pow, if_neg (by omega), mul_zero, sub_zero]
  natDegree_le := by
    refine (natDegree_sub_le _ _).trans (max_le (by simp) ?_)
    exact (natDegree_C_mul_X_pow_le _ _).trans (Nat.sub_le _ _)
  coeff_eq j hj hjn := by
    obtain rfl : j = n - 1 := by omega
    rw [sub_mul, one_mul, coeff_sub, mul_assoc, coeff_C_mul, coeff_X_pow_mul',
      if_pos (Nat.sub_le _ _), Nat.sub_sub_self (by omega), div_mul_cancel₀ _ hne, sub_self]

/-- After zeros, a term that is not 0 cannot come from the register. -/
theorem Generates.le_length (h : Generates S C L n) (hn : 0 < n)
    (hzero : ∀ k < n - 1, S.coeff k = 0) (hlast : S.coeff (n - 1) ≠ 0) : n ≤ L := by
  by_contra hshort
  have hcoeff := h.coeff_eq (n - 1) (by omega) (by omega)
  rw [coeff_mul_of_coeff_zero h.coeff_zero h.natDegree_le fun j _ hj => hzero j hj] at hcoeff
  exact hlast hcoeff

/-- The shortest register is as long as the sequence when the last term alone is not 0. -/
theorem Shortest.le_length_iff (h : Shortest S C L n) (hn : 0 < n) :
    n ≤ L ↔ (∀ k < n - 1, S.coeff k = 0) ∧ S.coeff (n - 1) ≠ 0 := by
  constructor
  · intro hlong
    have hzero (k : ℕ) (hk : k < n - 1) : S.coeff k = 0 := by
      by_contra hne
      have := h.minimal _ _ (generates_tap hk hne)
      omega
    refine ⟨hzero, fun hlast => ?_⟩
    have hempty : Generates S 1 0 n := by
      refine ⟨coeff_one_zero, natDegree_one.le, fun k _ hk => ?_⟩
      rw [one_mul]
      rcases Nat.lt_or_ge k (n - 1) with hk' | hk'
      · exact hzero k hk'
      · obtain rfl : k = n - 1 := by omega
        exact hlast
    have := h.minimal _ _ hempty
    omega
  · rintro ⟨hzero, hlast⟩
    exact h.le_length hn hzero hlast

/-! ## Taps -/

/-- The connection polynomial of a register with the taps `1` to `L`. -/
noncomputable def connection (taps : ℕ → F) (L : ℕ) : F[X] :=
  1 + ∑ j ∈ Icc 1 L, Polynomial.C (taps j) * X ^ j

theorem coeff_connection (taps : ℕ → F) (L k : ℕ) :
    (connection taps L).coeff k = if k = 0 then 1 else if k ≤ L then taps k else 0 := by
  rw [connection, coeff_add, coeff_one, finsetSum_coeff]
  simp only [coeff_C_mul, coeff_X_pow, mul_ite, mul_one, mul_zero, sum_ite_eq, mem_Icc]
  rcases Nat.eq_zero_or_pos k with rfl | hk
  · simp
  · rw [if_neg hk.ne', zero_add, if_neg hk.ne']
    exact if_congr (and_iff_right hk) rfl rfl

theorem natDegree_connection_le (taps : ℕ → F) (L : ℕ) : (connection taps L).natDegree ≤ L := by
  rw [natDegree_le_iff_coeff_eq_zero]
  intro k hk
  rw [coeff_connection, if_neg (by omega), if_neg (by omega)]

/-- The register produces a term when the term and the tapped ones before it cancel out. -/
theorem coeff_connection_mul (taps : ℕ → F) {k : ℕ} (hk : L ≤ k) :
    (connection taps L * S).coeff k = S.coeff k + ∑ j ∈ Icc 1 L, taps j * S.coeff (k - j) := by
  rw [connection, add_mul, one_mul, coeff_add, sum_mul, finsetSum_coeff]
  congr 1
  refine sum_congr rfl fun j hj => ?_
  rw [mul_assoc, coeff_C_mul, coeff_X_pow_mul', if_pos ((mem_Icc.mp hj).2.trans hk)]

theorem generates_connection {taps : ℕ → F} : Generates S (connection taps L) L n ↔
    ∀ k, L ≤ k → k < n → S.coeff k + ∑ j ∈ Icc 1 L, taps j * S.coeff (k - j) = 0 := by
  constructor
  · intro h k hk hlt
    rw [← coeff_connection_mul taps hk]
    exact h.coeff_eq k hk hlt
  · intro h
    refine ⟨?_, natDegree_connection_le taps L, fun k hk hlt => ?_⟩
    · rw [coeff_connection, if_pos rfl]
    · rw [coeff_connection_mul taps hk]
      exact h k hk hlt

/-- Every register has this form. -/
theorem Generates.connection_coeff (h : Generates S C L n) : connection C.coeff L = C := by
  ext k
  rw [coeff_connection]
  rcases Nat.eq_zero_or_pos k with rfl | hk
  · rw [if_pos rfl, h.coeff_zero]
  · rw [if_neg hk.ne']
    rcases Nat.lt_or_ge L k with hlarge | hsmall
    · rw [if_neg (by omega), coeff_eq_zero_of_natDegree_lt (h.natDegree_le.trans_lt hlarge)]
    · rw [if_pos hsmall]

/-! ## The invariant -/

/-- The state of the synthesis after `i` terms: the register `C` of length `L`, and an earlier
register `B` of length `M` that failed `m` terms ago by `b`. In front of the sequence stands a
term 1, so that the empty register counts as one that has failed. A register as long as the
sequence has the full degree: it comes from the first term that is not 0. -/
structure Synthesis (S : F[X]) (i : ℕ) (C B : F[X]) (L M m : ℕ) (b : F) : Prop where
  generates : Generates S C L i
  minimal : ∀ C' L', Generates S C' L' i → L ≤ L'
  natDegree_last : B.natDegree ≤ M
  last_eq : ∀ k, M < k → k + m ≤ i → (B * (1 + X * S)).coeff k = 0
  last_fails : (B * (1 + X * S)).coeff (i + 1 - m) = b
  ne_zero : b ≠ 0
  balance : L + M + m = i + 1
  pos : 0 < m
  full : L = i → 0 < i → C.coeff L ≠ 0

theorem synthesis_zero : Synthesis S 0 1 1 0 0 1 1 where
  generates := ⟨coeff_one_zero, natDegree_one.le, fun k _ hk => absurd hk (Nat.not_lt_zero k)⟩
  minimal _ _ _ := Nat.zero_le _
  natDegree_last := natDegree_one.le
  last_eq k hk hle := by omega
  last_fails := by simp
  ne_zero := one_ne_zero
  balance := rfl
  pos := Nat.one_pos
  full _ hi := absurd hi (Nat.lt_irrefl 0)

/-- Above its length a register sees the term in front of the sequence no more. -/
theorem coeff_mul_one_add {k : ℕ} (hdegree : C.natDegree ≤ L) (hk : L ≤ k) :
    (C * (1 + X * S)).coeff (k + 1) = (C * S).coeff k := by
  rw [mul_add, mul_one, mul_left_comm, coeff_add, coeff_X_mul,
    coeff_eq_zero_of_natDegree_lt (by omega), zero_add]

/-- The new register: a multiple of the one that failed is subtracted. -/
noncomputable def combine (C B : F[X]) (m : ℕ) (q : F) : F[X] := C - Polynomial.C q * (X ^ m * B)

theorem coeff_combine {q : F} (k : ℕ) :
    (combine C B m q).coeff k = C.coeff k - if m ≤ k then q * B.coeff (k - m) else 0 := by
  rw [combine, coeff_sub, coeff_C_mul, coeff_X_pow_mul']
  split <;> simp

theorem coeff_combine_mul {q : F} {k : ℕ} (hdegree : C.natDegree ≤ L) (hk : L ≤ k)
    (hlast : B.natDegree ≤ M) (hM : M + m ≤ k) :
    (combine C B m q * S).coeff k =
      (C * S).coeff k - q * (B * (1 + X * S)).coeff (k + 1 - m) := by
  have hexpand : combine C B m q * (1 + X * S) =
      C * (1 + X * S) - Polynomial.C q * (X ^ m * (B * (1 + X * S))) := by
    rw [combine]
    ring
  have hcombine : (combine C B m q).natDegree ≤ k := by
    refine (natDegree_sub_le _ _).trans (max_le (hdegree.trans hk) ?_)
    refine (natDegree_C_mul_le _ _).trans (natDegree_mul_le.trans ?_)
    rw [natDegree_X_pow]
    omega
  rw [← coeff_mul_one_add hcombine le_rfl, hexpand, coeff_sub, coeff_mul_one_add hdegree hk,
    coeff_C_mul, coeff_X_pow_mul', if_pos (by omega)]

namespace Synthesis

theorem shortest (h : Synthesis S i C B L M m b) : Shortest S C L i := ⟨h.generates, h.minimal⟩

/-- The register is never longer than the sequence. -/
theorem length_le (h : Synthesis S i C B L M m b) : L ≤ i := by
  have := h.balance
  have := h.pos
  omega

/-- A term that agrees with the register. -/
theorem keep (h : Synthesis S i C B L M m b) (hagree : (C * S).coeff i = 0) :
    Synthesis S (i + 1) C B L M (m + 1) b where
  generates :=
    { coeff_zero := h.generates.coeff_zero
      natDegree_le := h.generates.natDegree_le
      coeff_eq := by
        intro k hk hlt
        rcases Nat.lt_succ_iff_lt_or_eq.mp hlt with hlt | rfl
        · exact h.generates.coeff_eq k hk hlt
        · exact hagree }
  minimal C' L' h' := h.minimal C' L' (h'.mono (Nat.le_succ i))
  natDegree_last := h.natDegree_last
  last_eq k hk hle := h.last_eq k hk (by omega)
  last_fails := by
    rw [Nat.add_sub_add_right]
    exact h.last_fails
  ne_zero := h.ne_zero
  balance := by
    have := h.balance
    omega
  pos := Nat.succ_pos m
  full hL := by
    have := h.length_le
    omega

/-- The new register produces the term that the old one did not. -/
theorem generates_combine (h : Synthesis S i C B L M m b) (hL : L ≤ L') (hM : M + m ≤ L') :
    Generates S (combine C B m ((C * S).coeff i / b)) L' (i + 1) where
  coeff_zero := by
    rw [coeff_combine, if_neg (Nat.not_le.mpr h.pos), sub_zero, h.generates.coeff_zero]
  natDegree_le := by
    refine (natDegree_sub_le _ _).trans (max_le (h.generates.natDegree_le.trans hL) ?_)
    refine (natDegree_C_mul_le _ _).trans (natDegree_mul_le.trans ?_)
    have hB := h.natDegree_last
    rw [natDegree_X_pow]
    omega
  coeff_eq := by
    intro k hk hlt
    rw [coeff_combine_mul h.generates.natDegree_le (hL.trans hk) h.natDegree_last (hM.trans hk)]
    rcases Nat.lt_succ_iff_lt_or_eq.mp hlt with hlt | rfl
    · rw [h.generates.coeff_eq k (hL.trans hk) hlt, h.last_eq _ (by omega) (by omega), mul_zero,
        sub_zero]
    · rw [h.last_fails, div_mul_cancel₀ _ h.ne_zero, sub_self]

/-- While the register is empty, the sequence is 0, and only the term in front of it counts. -/
theorem coeff_last (h : Synthesis S i C B 0 M m b) {k : ℕ} (hk : k ≤ i) :
    (B * (1 + X * S)).coeff k = B.coeff k := by
  have hC : C = 1 := by
    rw [eq_C_of_natDegree_le_zero h.generates.natDegree_le, h.generates.coeff_zero, C_1]
  rw [mul_add, mul_one, coeff_add, coeff_mul, add_eq_left]
  apply sum_eq_zero
  rintro ⟨a, j⟩ hsum
  rw [HasAntidiagonal.mem_antidiagonal] at hsum
  rcases j with _ | j
  · rw [coeff_X_mul_zero, mul_zero]
  · have hzero := h.generates.coeff_eq j (Nat.zero_le j) (by omega)
    rw [hC, one_mul] at hzero
    rw [coeff_X_mul, hzero, mul_zero]

/-- A term that the register misses while it is short: the register has to become longer, and
becomes the one that failed. -/
theorem lengthen (h : Synthesis S i C B L M m b) (hfail : (C * S).coeff i ≠ 0)
    (hshort : 2 * L ≤ i) :
    Synthesis S (i + 1) (combine C B m ((C * S).coeff i / b)) C (i + 1 - L) L 1
      ((C * S).coeff i) where
  generates := by
    have := h.balance
    exact h.generates_combine (by omega) (by omega)
  minimal C' L' h' := by
    have := h.generates.length_add_length hfail h'
    omega
  natDegree_last := h.generates.natDegree_le
  last_eq k hk hle := by
    obtain ⟨k, rfl⟩ : ∃ j, k = j + 1 := ⟨k - 1, by omega⟩
    rw [coeff_mul_one_add h.generates.natDegree_le (by omega)]
    exact h.generates.coeff_eq k (by omega) (by omega)
  last_fails := by
    rw [Nat.add_sub_cancel, coeff_mul_one_add h.generates.natDegree_le (by omega)]
  ne_zero := hfail
  balance := by omega
  pos := Nat.one_pos
  full hL _ := by
    have hpos := h.pos
    have hbalance := h.balance
    obtain rfl : L = 0 := by omega
    have hM : i + 1 - m = M := by omega
    have hlast := h.last_fails
    rw [hM, h.coeff_last (by omega)] at hlast
    rw [Nat.sub_zero, coeff_combine, if_pos (by omega), hM, hlast, div_mul_cancel₀ _ h.ne_zero,
      coeff_eq_zero_of_natDegree_lt (Nat.lt_of_le_of_lt h.generates.natDegree_le (Nat.succ_pos i)),
      zero_sub, neg_ne_zero]
    exact hfail

/-- A term that the register misses when it is long enough already. -/
theorem adjust (h : Synthesis S i C B L M m b) (hlong : i < 2 * L) :
    Synthesis S (i + 1) (combine C B m ((C * S).coeff i / b)) B L M (m + 1) b where
  generates := by
    have := h.balance
    exact h.generates_combine le_rfl (by omega)
  minimal C' L' h' := h.minimal C' L' (h'.mono (Nat.le_succ i))
  natDegree_last := h.natDegree_last
  last_eq k hk hle := h.last_eq k hk (by omega)
  last_fails := by
    rw [Nat.add_sub_add_right]
    exact h.last_fails
  ne_zero := h.ne_zero
  balance := by
    have := h.balance
    omega
  pos := Nat.succ_pos m
  full hL := by
    have := h.length_le
    omega

end Synthesis

end ShiftRegisterSynthesis
