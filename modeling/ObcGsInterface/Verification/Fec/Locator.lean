import ObcGsInterface.Library.ShiftRegisterSynthesis
import ObcGsInterface.Verification.Fec.Evaluation

/-! # The error locator

`reed_solomon_find_error_locator` finds the shortest shift register that produces the
syndromes. Its order is the length of the register throughout, and no round leaves the arrays. -/

namespace ObcGsInterface

open Polynomial Finset FieldElement CArray ShiftRegisterSynthesis

-- The tables are never evaluated in a proof.
attribute [local irreducible] fieldCreate

variable {p : BitVec 16} [PrimitivePoly p] {n i : ℕ}

variable (p) in
/-- The polynomial in an array of coefficients. -/
noncomputable def bufferPolynomial {capacity : ℕ} (coeff : Block Byte capacity) :
    (FieldElement p)[X] := ofTerms p coeff.cells

theorem coeff_bufferPolynomial {capacity : ℕ} (coeff : Block Byte capacity) (k : ℕ) :
    (bufferPolynomial p coeff).coeff k = ⟨coeff.cells.getD k 0⟩ := coeff_ofTerms _ _

/-- The state before round `i` is a state of the synthesis of a register for the syndromes. -/
structure Locates (p : BitVec 16) [PrimitivePoly p] (syndromes : List Byte) (n i : ℕ)
    (s : LocatorState (n + 1)) : Prop where
  synthesis : Synthesis (ofTerms p syndromes) i (bufferPolynomial p s.errorLocator.coeff)
    (bufferPolynomial p s.lastErrorLocator.coeff) s.numerrors s.lastErrorLocator.order s.delayLength
    ⟨s.lastDiscrepancy⟩
  order_eq : s.errorLocator.order = s.numerrors

section Round

variable {syndromes : List Byte} {s : LocatorState (n + 1)}

/-- The discrepancy is the next coefficient of the product. -/
theorem discrepancy_eq (h : Locates p syndromes n i s) (hsyndromes : i < syndromes.length)
    (hi : i < n) : s.discrepancy (fieldCreate p) syndromes i =
      .ok ((bufferPolynomial p s.errorLocator.coeff * ofTerms p syndromes).coeff i).byte := by
  have hlength := h.synthesis.length_le
  have hdegree := h.synthesis.generates.natDegree_le
  rw [LocatorState.discrepancy, load_getD 0 hsyndromes, ok_bind, List.range'_eq_map_range,
    List.foldlM_map, foldlM_add fun j => (bufferPolynomial p s.errorLocator.coeff).coeff (1 + j) *
      (ofTerms p syndromes).coeff (i - (1 + j))]
  · rw [coeff_mul, Nat.sum_antidiagonal_eq_sum_range_succ_mk]
    obtain ⟨f, hf⟩ : ∃ f : ℕ → FieldElement p, ∀ k, f k =
        (bufferPolynomial p s.errorLocator.coeff).coeff k * (ofTerms p syndromes).coeff (i - k) :=
      ⟨_, fun _ => rfl⟩
    -- The terms above the order of the locator are zero.
    have hrest : ∑ j ∈ range (i - s.numerrors), f (s.numerrors + 1 + j) = 0 :=
      sum_eq_zero fun j _ => by
        rw [hf, coeff_eq_zero_of_natDegree_lt (by omega), zero_mul]
    have hfirst : f 0 = ⟨syndromes.getD i 0⟩ := by
      rw [hf, h.synthesis.generates.coeff_zero, one_mul, Nat.sub_zero, coeff_ofTerms]
    have hsplit : i.succ = s.numerrors + 1 + (i - s.numerrors) := by omega
    simp only [← hf]
    rw [hsplit, sum_range_add, hrest, add_zero, sum_range_succ', hfirst, add_comm]
    congr 3
    exact sum_congr rfl fun j _ => by rw [Nat.add_comm 1 j]
  · intro res j hj
    rw [if_neg (by omega), s.errorLocator.coeff.load_cells 0 (by omega),
      load_getD 0 (by omega : i - (1 + j) < syndromes.length)]
    simp only [ok_bind, pure_eq_ok]
    rw [coeff_bufferPolynomial, coeff_ofTerms, ← mk_mul, byte_add]

/-- The scaled and shifted last locator. -/
theorem shiftLast_spec (h : Locates p syndromes n i s) (hi : i < n) (discrepancy : Byte) :
    ∃ last, s.shiftLast (fieldCreate p) discrepancy = .ok last ∧
      bufferPolynomial p last = C (⟨discrepancy⟩ / ⟨s.lastDiscrepancy⟩) *
        (X ^ s.delayLength * bufferPolynomial p s.lastErrorLocator.coeff) := by
  obtain ⟨M, hM⟩ : ∃ M, s.lastErrorLocator.order = M := ⟨_, rfl⟩
  obtain ⟨m, hm⟩ : ∃ m, s.delayLength = m := ⟨_, rfl⟩
  obtain ⟨old, hold⟩ : ∃ old, s.lastErrorLocator.coeff = old := ⟨_, rfl⟩
  have hbalance := h.synthesis.balance
  have hpos := h.synthesis.pos
  have hdegree := h.synthesis.natDegree_last
  rw [hM, hm] at hbalance
  rw [hm] at hpos
  rw [hM, hold] at hdegree
  have hzero (k : ℕ) (hk : M < k) : old.cells.getD k 0 = 0 := by
    have hcoeff := coeff_eq_zero_of_natDegree_lt (Nat.lt_of_le_of_lt hdegree hk)
    rw [coeff_bufferPolynomial] at hcoeff
    exact congrArg byte hcoeff
  -- Going down, the loop has not yet overwritten what it reads.
  obtain ⟨shifted, hshift, hshifted⟩ := Loop.foldlM_reverse_store 0 (M + 1) m
    (fun (last : Block Byte (n + 1)) j => do
      last.store (j + m)
        ((fieldCreate p).div ((fieldCreate p).mul (← load last.cells j) discrepancy)
          s.lastDiscrepancy))
    (fun j => (fieldCreate p).div ((fieldCreate p).mul (old.cells.getD j 0) discrepancy)
      s.lastDiscrepancy)
    old (by omega)
    (fun last j hj hlast => by rw [last.load_cells 0 (by omega), ok_bind, hlast j (by omega)])
  obtain ⟨last, hclear, hcleared⟩ := Loop.foldlM_reverse_store 0 m 0
    (fun (last : Block Byte (n + 1)) j => last.store j 0) (fun _ => 0) shifted (by omega)
    (fun _ _ _ _ => rfl)
  refine ⟨last, ?_, ?_⟩
  · rw [LocatorState.shiftLast, hM, hm, hold, hshift, ok_bind, hclear]
  · rw [hm, hold]
    ext1 k
    rw [coeff_bufferPolynomial, hcleared, coeff_C_mul, coeff_X_pow_mul']
    by_cases hlow : k < m
    · rw [if_pos ⟨Nat.zero_le k, hlow⟩, if_neg (by omega), mul_zero]
      rfl
    · rw [if_neg fun hk => hlow hk.2, if_pos (by omega), hshifted, coeff_bufferPolynomial]
      by_cases hhigh : k < M + 1 + m
      · rw [if_pos ⟨by omega, hhigh⟩, mk_div, mk_mul]
        ring
      · rw [if_neg fun hk => hhigh hk.2, hzero k (by omega), hzero (k - m) (by omega), ← zero_def,
          mul_zero]

/-- A coefficient of a sum, as the code adds bytes. -/
theorem bufferPolynomial_eq_add {capacity : ℕ} {coeff : Block Byte capacity}
    {P Q : (FieldElement p)[X]}
    (h : ∀ k, (⟨coeff.cells.getD k 0⟩ : FieldElement p) = P.coeff k + Q.coeff k) :
    bufferPolynomial p coeff = P + Q := by
  ext1 k
  rw [coeff_bufferPolynomial, coeff_add, h]

/-- Both coefficient arrays after the loop that adds and saves. -/
theorem addShifted_spec (h : Locates p syndromes n i s) (hi : i < n) (hn : n < 255)
    (hshort : 2 * s.numerrors ≤ i) {last : Block Byte (n + 1)}
    (hlast : ∀ k, s.lastErrorLocator.order + s.delayLength < k → last.cells.getD k 0 = 0) :
    ∃ locator saved, s.addShifted (fieldCreate p) last = .ok (locator, saved) ∧
      bufferPolynomial p locator =
        bufferPolynomial p s.errorLocator.coeff + bufferPolynomial p last ∧
      bufferPolynomial p saved = bufferPolynomial p s.errorLocator.coeff := by
  obtain ⟨order, horder⟩ : ∃ order, s.lastErrorLocator.order + s.delayLength = order := ⟨_, rfl⟩
  obtain ⟨old, hold⟩ : ∃ old, s.errorLocator.coeff = old := ⟨_, rfl⟩
  have hbalance := h.synthesis.balance
  have hdegree := h.synthesis.generates.natDegree_le
  rw [hold] at hdegree
  rw [horder] at hlast
  have hzero (k : ℕ) (hk : order < k) : old.cells.getD k 0 = 0 := by
    have hcoeff := coeff_eq_zero_of_natDegree_lt (Nat.lt_of_le_of_lt hdegree
      (by omega : s.numerrors < k))
    rw [coeff_bufferPolynomial] at hcoeff
    exact congrArg byte hcoeff
  obtain ⟨⟨locator, saved⟩, hrun, hlocator, hsaved⟩ := @Loop.foldlM_range_stages _
    (fun (t : Block Byte (n + 1) × Block Byte (n + 1)) j => do
      let temp ← load t.1.cells j
      let locator ← t.1.store j ((fieldCreate p).add temp (← load t.2.cells j))
      let last ← t.2.store j temp
      return (locator, last))
    (fun j (t : Block Byte (n + 1) × Block Byte (n + 1)) =>
      (∀ k, t.1.cells.getD k 0 = if k < j then
        (fieldCreate p).add (old.cells.getD k 0) (last.cells.getD k 0) else old.cells.getD k 0) ∧
      ∀ k, t.2.cells.getD k 0 = if k < j then old.cells.getD k 0 else last.cells.getD k 0)
    (order + 1)
    (by
      rintro j ⟨locator, saved⟩ hj ⟨hlocator, hsaved⟩
      simp only at hlocator hsaved
      obtain ⟨locator', hstore, hlocator'⟩ := locator.store_getD (i := j)
        ((fieldCreate p).add (locator.cells.getD j 0) (saved.cells.getD j 0)) 0 (by omega)
      obtain ⟨saved', hstore', hsaved'⟩ := saved.store_getD (i := j) (locator.cells.getD j 0) 0
        (by omega)
      refine ⟨(locator', saved'), ?_, fun k => ?_, fun k => ?_⟩
      · simp only [locator.load_cells 0 (by omega : j < n + 1), ok_bind,
          saved.load_cells 0 (by omega : j < n + 1), hstore, hstore', pure_eq_ok]
      · rw [hlocator']
        by_cases hk : j = k
        · rw [if_pos hk, if_pos (by omega), hlocator, if_neg (by omega), hsaved,
            if_neg (by omega), hk]
        · rw [if_neg hk, hlocator]
          congr 1
          rw [eq_iff_iff]
          omega
      · rw [hsaved']
        by_cases hk : j = k
        · rw [if_pos hk, if_pos (by omega), hlocator, if_neg (by omega), hk]
        · rw [if_neg hk, hsaved]
          congr 1
          rw [eq_iff_iff]
          omega)
    (old, last)
    ⟨fun k => by rw [if_neg (Nat.not_lt_zero k)], fun k => by rw [if_neg (Nat.not_lt_zero k)]⟩
  refine ⟨locator, saved, ?_, ?_, ?_⟩
  · have hmin : min (order + 1) 256 = order + 1 := Nat.min_eq_left (by omega)
    rw [LocatorState.addShifted, horder]
    simp only [hmin, hold, hrun, ok_bind]
    rw [if_neg (by omega)]
    rfl
  · refine bufferPolynomial_eq_add fun k => ?_
    rw [hlocator, hold, coeff_bufferPolynomial, coeff_bufferPolynomial]
    split
    · rfl
    · next hk => rw [hlast k (by omega), hzero k (by omega), ← zero_def, add_zero]
  · rw [hold]
    ext1 k
    rw [coeff_bufferPolynomial, coeff_bufferPolynomial, hsaved]
    split
    · rfl
    · next hk => rw [hlast k (by omega), hzero k (by omega)]

/-- The locator after the loop that adds without saving. -/
theorem adjust_spec (h : Locates p syndromes n i s) (hi : i < n) (discrepancy : Byte) :
    ∃ locator, s.adjust (fieldCreate p) discrepancy = .ok locator ∧
      bufferPolynomial p locator = bufferPolynomial p s.errorLocator.coeff +
        C (⟨discrepancy⟩ / ⟨s.lastDiscrepancy⟩) *
          (X ^ s.delayLength * bufferPolynomial p s.lastErrorLocator.coeff) := by
  obtain ⟨M, hM⟩ : ∃ M, s.lastErrorLocator.order = M := ⟨_, rfl⟩
  obtain ⟨m, hm⟩ : ∃ m, s.delayLength = m := ⟨_, rfl⟩
  obtain ⟨last, hlast⟩ : ∃ last, s.lastErrorLocator.coeff = last := ⟨_, rfl⟩
  obtain ⟨old, hold⟩ : ∃ old, s.errorLocator.coeff = old := ⟨_, rfl⟩
  have hbalance := h.synthesis.balance
  have hdegree := h.synthesis.natDegree_last
  rw [hM, hm] at hbalance
  rw [hM, hlast] at hdegree
  obtain ⟨locator, hrun, hlocator⟩ := Loop.foldlM_reverse_store 0 (M + 1) m
    (fun (locator : Block Byte (n + 1)) j => do
      let old ← load locator.cells (j + m)
      let lastCoeff ← load last.cells j
      locator.store (j + m) ((fieldCreate p).add old
        ((fieldCreate p).div ((fieldCreate p).mul lastCoeff discrepancy) s.lastDiscrepancy)))
    (fun j => (fieldCreate p).add (old.cells.getD (j + m) 0) ((fieldCreate p).div
      ((fieldCreate p).mul (last.cells.getD j 0) discrepancy) s.lastDiscrepancy))
    old (by omega)
    (fun locator j hj hlocator => by
      rw [locator.load_cells 0 (by omega), ok_bind, last.load_cells 0 (by omega), ok_bind,
        hlocator (j + m) le_rfl])
  refine ⟨locator, ?_, ?_⟩
  · rw [LocatorState.adjust, hM, hm, hold, hlast]
    exact hrun
  · rw [hm, hold, hlast]
    refine bufferPolynomial_eq_add fun k => ?_
    rw [hlocator, coeff_bufferPolynomial, coeff_C_mul, coeff_X_pow_mul']
    by_cases hlow : k < m
    · rw [if_neg (by omega), if_neg (by omega), mul_zero, add_zero]
    · rw [if_pos (by omega : m ≤ k), coeff_bufferPolynomial]
      by_cases hhigh : k < M + 1 + m
      · rw [if_pos ⟨by omega, hhigh⟩, Nat.sub_add_cancel (by omega), mk_add, mk_div, mk_mul]
        ring
      · have hzero := coeff_eq_zero_of_natDegree_lt (Nat.lt_of_le_of_lt hdegree
          (by omega : M < k - m))
        rw [coeff_bufferPolynomial] at hzero
        rw [if_neg fun hk => hhigh hk.2, hzero, mul_zero, add_zero]

/-- **One round.** -/
theorem round_spec (h : Locates p syndromes n i s) (hsyndromes : i < syndromes.length)
    (hi : i < n) (hn : n < 255) :
    ∃ s', s.round (fieldCreate p) syndromes i = .ok s' ∧ Locates p syndromes n (i + 1) s' := by
  have hround := discrepancy_eq h hsyndromes hi
  obtain ⟨d, hd⟩ : ∃ d,
      (bufferPolynomial p s.errorLocator.coeff * ofTerms p syndromes).coeff i = d := ⟨_, rfl⟩
  rw [hd] at hround
  -- The combination that the code computes, with addition for subtraction.
  have hcombine : bufferPolynomial p s.errorLocator.coeff + C (d / ⟨s.lastDiscrepancy⟩) *
      (X ^ s.delayLength * bufferPolynomial p s.lastErrorLocator.coeff) =
      combine (bufferPolynomial p s.errorLocator.coeff)
        (bufferPolynomial p s.lastErrorLocator.coeff) s.delayLength (d / ⟨s.lastDiscrepancy⟩) := by
    rw [combine, ← sub_neg_eq_add]
    congr 1
    ext1 k
    rw [coeff_neg]
    exact neg_eq _
  rw [LocatorState.round, hround, ok_bind]
  by_cases hzero : d = 0
  · rw [if_pos (byte_eq_zero.mpr hzero)]
    exact ⟨_, rfl, h.synthesis.keep (hd.trans hzero), h.order_eq⟩
  rw [if_neg (mt byte_eq_zero.mp hzero)]
  have hfail : (bufferPolynomial p s.errorLocator.coeff * ofTerms p syndromes).coeff i ≠ 0 := by
    rw [hd]
    exact hzero
  have hbalance := h.synthesis.balance
  by_cases hshort : 2 * s.numerrors ≤ i
  · obtain ⟨last, hshift, hlast⟩ := shiftLast_spec h hi d.byte
    have hhigh (k : ℕ) (hk : s.lastErrorLocator.order + s.delayLength < k) :
        last.cells.getD k 0 = 0 := by
      have hcoeff := coeff_bufferPolynomial (p := p) last k
      rw [hlast, coeff_C_mul, coeff_X_pow_mul', if_pos (by omega),
        coeff_eq_zero_of_natDegree_lt (Nat.lt_of_le_of_lt h.synthesis.natDegree_last (by omega)),
        mul_zero] at hcoeff
      exact congrArg byte hcoeff.symm
    obtain ⟨locator, saved, hadd, hlocator, hsaved⟩ := addShifted_spec h hi hn hshort hhigh
    have hnew := h.synthesis.lengthen hfail hshort
    rw [hd, ← hcombine] at hnew
    refine ⟨_, by rw [if_pos hshort, hshift, ok_bind, hadd, ok_bind]; rfl, ?_, ?_⟩
    · simp only
      rw [hlocator, hlast, hsaved, h.order_eq]
      exact hnew
    · simp only
      omega
  · obtain ⟨locator, hadjust, hlocator⟩ := adjust_spec h hi d.byte
    have hnew := h.synthesis.adjust (by omega)
    rw [hd, ← hcombine] at hnew
    refine ⟨_, by rw [if_neg hshort, hadjust, ok_bind]; rfl, ?_, ?_⟩
    · simp only
      rw [hlocator]
      exact hnew
    · simp only
      rw [if_neg (by have := h.order_eq; omega)]
      exact h.order_eq

end Round

/-- **The whole search.** From any contents of the arrays the function returns, with the shortest
register for the syndromes that it looks at, and its length as the order. -/
theorem findErrorLocator_spec {syndromes : List Byte} (hlength : syndromes.length = n)
    (hn : n < 255) {numErasures : ℕ} (herasures : numErasures ≤ n) :
    ∃ locator last,
      (∀ errorLocator lastErrorLocator : PolynomialBuffer (n + 1),
        reedSolomonFindErrorLocator (fieldCreate p) syndromes n numErasures errorLocator
          lastErrorLocator = .ok (locator, last)) ∧
      Shortest (ofTerms p syndromes) (bufferPolynomial p locator.coeff) locator.order
        (n - numErasures) ∧
      locator.order ≤ n - numErasures ∧
      (locator.order = n - numErasures → 0 < n - numErasures →
        (bufferPolynomial p locator.coeff).coeff locator.order ≠ 0) := by
  obtain ⟨start, hstart⟩ : ∃ start, (Block.fill (n + 1) (0 : Byte)).store 0 1 = .ok start :=
    ⟨_, Block.store_of_lt _ _ (Nat.succ_pos n)⟩
  have hcells (k : ℕ) : start.cells.getD k 0 = if 0 = k then 1 else 0 := by
    obtain ⟨result, hrun, hresult⟩ := (Block.fill (n + 1) (0 : Byte)).store_getD 1 0
      (Nat.succ_pos n)
    rw [hstart, Except.ok.injEq] at hrun
    rw [hrun, hresult, Block.cells_fill, List.getD_eq_getElem?_getD,
      List.getElem?_getD_replicate_default_eq]
  have hone : bufferPolynomial p start = 1 := by
    ext1 k
    rw [coeff_bufferPolynomial, hcells, coeff_one]
    rcases Nat.eq_zero_or_pos k with rfl | hk
    · rfl
    · rw [if_neg (by omega), if_neg (by omega)]
      rfl
  have hinit : Locates p syndromes n 0
      { errorLocator := ⟨0, start⟩
        lastErrorLocator := ⟨0, start⟩
        numerrors := 0
        lastDiscrepancy := 1
        delayLength := 1 } := by
    refine ⟨?_, rfl⟩
    simp only
    rw [hone, ← one_def]
    exact synthesis_zero
  obtain ⟨s, hrun, hs⟩ := @Loop.foldlM_range_stages _
    (fun s i => LocatorState.round (fieldCreate p) syndromes s i)
    (fun i s => Locates p syndromes n i s)
    (n - numErasures)
    (fun i s hi hs => round_spec hs (by omega) (by omega) hn)
    _ hinit
  have hbound : (BitVec.ofNat 32 n - BitVec.ofNat 32 numErasures).toNat = n - numErasures := by
    rw [BitVec.toNat_sub, BitVec.toNat_ofNat, BitVec.toNat_ofNat]
    omega
  refine ⟨s.errorLocator, s.lastErrorLocator, fun errorLocator lastErrorLocator => ?_, ?_, ?_, ?_⟩
  · rw [reedSolomonFindErrorLocator, Block.memset_all, ok_bind, hstart, ok_bind, Block.memcpy_whole,
      ok_bind]
    simp only [hbound, hrun, ok_bind]
    rfl
  · rw [hs.order_eq]
    exact hs.synthesis.shortest
  · rw [hs.order_eq]
    exact hs.synthesis.length_le
  · rw [hs.order_eq]
    exact hs.synthesis.full

/-! ## Taps -/

/-- From the index `L` on, each of the first `n` syndromes is the sum of the `L` syndromes before
it, times the taps. -/
def Produces (p : BitVec 16) [PrimitivePoly p] (syndromes : List Byte) (taps : ℕ → Byte)
    (L n : ℕ) : Prop :=
  ∀ i, L ≤ i → i < n → (⟨syndromes.getD i 0⟩ : FieldElement p) =
    ∑ j ∈ Icc 1 L, ⟨taps j⟩ * ⟨syndromes.getD (i - j) 0⟩

theorem produces_iff {syndromes : List Byte} {taps : ℕ → Byte} {L : ℕ} :
    Produces p syndromes taps L n ↔
      Generates (ofTerms p syndromes) (connection (fun j => ⟨taps j⟩) L) L n := by
  rw [generates_connection, Produces]
  refine forall₃_congr fun i _ _ => ?_
  simp only [coeff_ofTerms]
  rw [add_eq_zero_iff_eq_neg, neg_eq]

/-- **The shortest register.** For every list of syndromes, and whatever the arrays held, the
coefficients of the error locator are the taps of a register that produces the syndromes, but for
as many of the last as there are erasures, and no other taps do so with a smaller order. -/
theorem findErrorLocator_shortest {syndromes : List Byte} (hlength : syndromes.length = n)
    (hn : n < 255) {numErasures : ℕ} (herasures : numErasures ≤ n) :
    ∃ locator last : PolynomialBuffer (n + 1),
      (∀ errorLocator lastErrorLocator : PolynomialBuffer (n + 1),
        reedSolomonFindErrorLocator (fieldCreate p) syndromes n numErasures errorLocator
          lastErrorLocator = .ok (locator, last)) ∧
      locator.order ≤ n - numErasures ∧
      Produces p syndromes (fun j => locator.coeff.cells.getD j 0) locator.order
        (n - numErasures) ∧
      ∀ taps L, Produces p syndromes taps L (n - numErasures) → locator.order ≤ L := by
  obtain ⟨locator, last, hrun, hshortest, horder, -⟩ :=
    findErrorLocator_spec (p := p) hlength hn herasures
  have hcoeff : (fun j => (⟨locator.coeff.cells.getD j 0⟩ : FieldElement p)) =
      (bufferPolynomial p locator.coeff).coeff := funext fun j =>
    (coeff_bufferPolynomial locator.coeff j).symm
  refine ⟨locator, last, hrun, horder, ?_, fun taps L hproduces => ?_⟩
  · rw [produces_iff, hcoeff, hshortest.toGenerates.connection_coeff]
    exact hshortest.toGenerates
  · exact hshortest.minimal _ _ (produces_iff.mp hproduces)

theorem findErrorLocator_shortest_four :
    ∃ locator last : PolynomialBuffer (4 + 1),
      (∀ errorLocator lastErrorLocator : PolynomialBuffer (4 + 1),
        reedSolomonFindErrorLocator (fieldCreate correctRsPrimitivePolynomialCcsds) [1, 2, 3, 4] 4 0
          errorLocator lastErrorLocator = .ok (locator, last)) ∧
      locator.order ≤ 4 - 0 ∧
      Produces correctRsPrimitivePolynomialCcsds [1, 2, 3, 4]
        (fun j => locator.coeff.cells.getD j 0) locator.order (4 - 0) ∧
      ∀ taps L, Produces correctRsPrimitivePolynomialCcsds [1, 2, 3, 4] taps L (4 - 0) →
        locator.order ≤ L :=
  @findErrorLocator_shortest correctRsPrimitivePolynomialCcsds _ 4 [1, 2, 3, 4] rfl (by decide) 0
    (Nat.zero_le 4)

end ObcGsInterface
