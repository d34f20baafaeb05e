import ObcGsInterface.Library.ShiftRegister
import ObcGsInterface.Model.ReedSolomonDecoder
import Mathlib.Logic.Function.Iterate
import Mathlib.Order.Interval.Finset.Nat

/-! # The tables of the field

The tables of `field_create` list the powers of the element `x` of the binary polynomials
modulo the field polynomial. `trypoly` accepts a field polynomial exactly when the first 255
powers are different, and then every byte but 0 is one of them. -/

namespace ObcGsInterface

open ShiftRegister

variable (p : BitVec 16)

/-- The field polynomial without its leading term. -/
def feedback : Byte := p.setWidth 8

/-- Multiplication by `x`: one step of the shift register. -/
def timesAlpha (a : Byte) : Byte := shiftStep (feedback p) a false

/-- The powers of `x`. -/
def alphaPow (i : ℕ) : Byte := (timesAlpha p)^[i] 1

/-- A polynomial of degree 8. -/
def IsFieldPolynomial : Prop := 256 ≤ p.toNat ∧ p.toNat < 512

instance : Decidable (IsFieldPolynomial p) := inferInstanceAs (Decidable (_ ∧ _))

@[simp] theorem alphaPow_zero : alphaPow p 0 = 1 := rfl

theorem alphaPow_succ (i : ℕ) : alphaPow p (i + 1) = timesAlpha p (alphaPow p i) :=
  Function.iterate_succ_apply' (timesAlpha p) i 1

variable {p}

/-! ## One round of the loops -/

theorem fieldPolynomial_eq (hp : IsFieldPolynomial p) :
    p = 0x100#16 ^^^ (feedback p).setWidth 16 := by
  have hall : ∀ low : Byte, 0x100#16 ^^^ low.setWidth 16 = BitVec.ofNat 16 (256 + low.toNat) := by
    decide
  obtain ⟨hlow, hhigh⟩ := hp
  have hsplit : 256 + p.toNat % 256 = p.toNat := by omega
  rw [hall, feedback, BitVec.toNat_setWidth, hsplit, BitVec.ofNat_toNat, BitVec.setWidth_eq]

theorem double_eq (a : Byte) :
    a.setWidth 16 * (2 : BitVec 16) = (if a.msb then 0x100#16 else 0#16) ^^^ (a <<< 1).setWidth 16 := by
  revert a
  decide

theorem double_gt_iff (a : Byte) : (a.setWidth 16 * (2 : BitVec 16)).toNat > 255 ↔ a.msb = true := by
  revert a
  decide

/-- The element that `field_create` and `trypoly` go on to. -/
theorem element_step (hp : IsFieldPolynomial p) (a : Byte) :
    (if (a.setWidth 16 * 2).toNat > 255 then a.setWidth 16 * 2 ^^^ p else a.setWidth 16 * 2) =
      (timesAlpha p a).setWidth 16 := by
  have hstep : timesAlpha p a = (a <<< 1) ^^^ if a.msb then feedback p else 0 := by
    unfold timesAlpha shiftStep
    cases a.msb <;> simp
  rw [hstep, BitVec.setWidth_xor]
  by_cases hmsb : a.msb = true
  · rw [if_pos ((double_gt_iff a).mpr hmsb), double_eq, if_pos hmsb, if_pos hmsb]
    nth_rewrite 1 [fieldPolynomial_eq hp]
    rw [BitVec.xor_comm 0x100#16, BitVec.xor_assoc, ← BitVec.xor_assoc 0x100#16, BitVec.xor_self,
      BitVec.zero_xor]
  · rw [if_neg (mt (double_gt_iff a).mp hmsb), double_eq, if_neg hmsb, if_neg hmsb]
    simp

/-! ## The search for field polynomials -/

/-- What `trypoly` has marked after `k` rounds. -/
structure Tried (p : BitVec 16) (k : ℕ) (s : BitVec 16 × List Byte) : Prop where
  element_eq : s.1 = (alphaPow p k).setWidth 16
  length_eq : s.2.length = 256
  marked_iff : ∀ a : Byte, s.2.getD a.toNat 0 ≠ 0 ↔ ∃ i ∈ Set.Icc 1 k, alphaPow p i = a

theorem tried_zero : Tried p 0 (1, List.replicate 256 0) where
  element_eq := rfl
  length_eq := List.length_replicate
  marked_iff a := by
    constructor
    · intro h
      exact absurd (List.getD_replicate _ a.isLt) h
    · rintro ⟨i, ⟨hpos, hle⟩, -⟩
      omega

/-- A round marks the next power, unless it is marked. -/
theorem trypolyStep_eq (hp : IsFieldPolynomial p) {k : ℕ} {s : BitVec 16 × List Byte}
    (h : Tried p k s) :
    trypolyStep p s (k + 1) =
      if s.2.getD (alphaPow p (k + 1)).toNat 0 ≠ 0 then none
      else some ((alphaPow p (k + 1)).setWidth 16,
        s.2.set (alphaPow p (k + 1)).toNat (BitVec.ofNat 8 (k + 1))) := by
  have helement := element_step hp (alphaPow p k)
  rw [← alphaPow_succ] at helement
  have hindex : ((alphaPow p (k + 1)).setWidth 16).toNat = (alphaPow p (k + 1)).toNat := by
    have := (alphaPow p (k + 1)).isLt
    rw [BitVec.toNat_setWidth, Nat.mod_eq_of_lt (by omega)]
  simp only [trypolyStep, h.element_eq, helement, hindex]

theorem Tried.succ {k : ℕ} {s : BitVec 16 × List Byte} (h : Tried p k s) (hk : k < 255) :
    Tried p (k + 1) ((alphaPow p (k + 1)).setWidth 16,
      s.2.set (alphaPow p (k + 1)).toNat (BitVec.ofNat 8 (k + 1))) where
  element_eq := rfl
  length_eq := by rw [List.length_set, h.length_eq]
  marked_iff a := by
    have hmark : BitVec.ofNat 8 (k + 1) ≠ 0 := by
      intro hzero
      have := congrArg BitVec.toNat hzero
      rw [BitVec.toNat_ofNat, Nat.mod_eq_of_lt (by omega)] at this
      contradiction
    rw [CArray.getD_set, h.length_eq]
    by_cases ha : alphaPow p (k + 1) = a
    · rw [if_pos ⟨congrArg BitVec.toNat ha, (alphaPow p (k + 1)).isLt⟩]
      exact iff_of_true hmark ⟨k + 1, ⟨Nat.succ_pos k, le_rfl⟩, ha⟩
    · rw [if_neg fun hsame => ha (BitVec.eq_of_toNat_eq hsame.1), h.marked_iff]
      constructor
      · rintro ⟨i, ⟨hpos, hle⟩, hi⟩
        exact ⟨i, ⟨hpos, Nat.le_succ_of_le hle⟩, hi⟩
      · rintro ⟨i, ⟨hpos, hle⟩, hi⟩
        rcases Nat.le_succ_iff.mp hle with hle | rfl
        · exact ⟨i, ⟨hpos, hle⟩, hi⟩
        · exact absurd hi ha

theorem injOn_succ_iff {k : ℕ} : Set.InjOn (alphaPow p) (Set.Icc 1 (k + 1)) ↔
    Set.InjOn (alphaPow p) (Set.Icc 1 k) ∧
      ¬ ∃ i ∈ Set.Icc 1 k, alphaPow p i = alphaPow p (k + 1) := by
  have hsplit : Set.Icc 1 (k + 1) = insert (k + 1) (Set.Icc 1 k) := by
    ext i
    simp only [Set.mem_Icc, Set.mem_insert_iff]
    omega
  have hnot : k + 1 ∉ Set.Icc 1 k := fun h => absurd h.2 (by omega)
  rw [hsplit, Set.injOn_insert hnot, Set.mem_image]

/-- The rounds go on as long as the powers are different. -/
theorem tried_run (hp : IsFieldPolynomial p) {k : ℕ} (hk : k ≤ 255) :
    (Set.InjOn (alphaPow p) (Set.Icc 1 k) ∧ ∃ s, Tried p k s ∧
      (List.range' 1 k).foldlM (trypolyStep p) (1, List.replicate 256 0) = some s) ∨
    (¬ Set.InjOn (alphaPow p) (Set.Icc 1 k) ∧
      (List.range' 1 k).foldlM (trypolyStep p) (1, List.replicate 256 0) = none) := by
  induction k with
  | zero => exact .inl ⟨by simp, _, tried_zero, rfl⟩
  | succ k ih =>
      rw [List.range'_1_concat, List.foldlM_append, Nat.add_comm 1 k, injOn_succ_iff]
      rcases ih (by omega) with ⟨hinj, s, hs, hrun⟩ | ⟨hinj, hrun⟩
      · have hround := trypolyStep_eq hp hs
        rw [hrun]
        by_cases hseen : ∃ i ∈ Set.Icc 1 k, alphaPow p i = alphaPow p (k + 1)
        · rw [if_pos ((hs.marked_iff _).mpr hseen)] at hround
          exact .inr ⟨fun h => h.2 hseen, by simp [hround]⟩
        · rw [if_neg (mt (hs.marked_iff _).mp hseen)] at hround
          exact .inl ⟨⟨hinj, hseen⟩, _, hs.succ (by omega), by simp [hround]⟩
      · exact .inr ⟨fun h => hinj h.1, by rw [hrun]; rfl⟩

/-- `trypoly` accepts a polynomial when the first 255 powers of `x` are different. -/
theorem trypoly_iff (hp : IsFieldPolynomial p) :
    trypoly p = true ↔ Set.InjOn (alphaPow p) (Set.Icc 1 255) := by
  unfold trypoly
  rcases tried_run hp (le_refl 255) with ⟨hinj, s, -, hrun⟩ | ⟨hinj, hrun⟩
  · rw [hrun]
    exact iff_of_true rfl hinj
  · rw [hrun]
    exact iff_of_false (by simp) hinj

/-! ## The powers -/

/-- A field polynomial that `trypoly` accepts. -/
class PrimitivePoly (p : BitVec 16) : Prop where
  isFieldPolynomial : IsFieldPolynomial p
  accepted : trypoly p = true

section Powers

variable [hprimitive : PrimitivePoly p]

theorem alphaPow_injOn : Set.InjOn (alphaPow p) (Set.Icc 1 255) :=
  (trypoly_iff hprimitive.isFieldPolynomial).mp hprimitive.accepted

/-- An even polynomial would leave only even powers, and there are too few of them. -/
theorem feedback_odd : (feedback p)[0] = true := by
  by_contra heven
  rw [Bool.not_eq_true] at heven
  have hbit (i : ℕ) (hi : i ∈ Finset.Icc 1 255) : (alphaPow p i).toNat % 2 = 0 := by
    obtain ⟨i, rfl⟩ : ∃ j, i = j + 1 := ⟨i - 1, by have := (Finset.mem_Icc.mp hi).1; omega⟩
    have hlow : (alphaPow p (i + 1)).getLsbD 0 = false := by
      rw [alphaPow_succ, timesAlpha, shiftStep]
      split <;> simp [heven]
    rw [BitVec.getLsbD, Nat.testBit_zero, decide_eq_false_iff_not] at hlow
    omega
  have hmaps : ∀ i ∈ Finset.Icc 1 255, (alphaPow p i).toNat / 2 ∈ Finset.range 128 := by
    intro i _
    have := (alphaPow p i).isLt
    exact Finset.mem_range.mpr (by omega)
  have hinj : Set.InjOn (fun i => (alphaPow p i).toNat / 2) (Finset.Icc 1 255 : Finset ℕ) := by
    intro i hi j hj h
    have hi₀ := hbit i hi
    have hj₀ := hbit j hj
    rw [Finset.coe_Icc] at hi hj
    refine alphaPow_injOn (p := p) hi hj (BitVec.eq_of_toNat_eq ?_)
    simp only at h
    omega
  have hcard := Finset.card_le_card_of_injOn _ hmaps hinj
  rw [Nat.card_Icc, Finset.card_range] at hcard
  omega

theorem timesAlpha_ne_zero {a : Byte} (ha : a ≠ 0) : timesAlpha p a ≠ 0 := by
  have hshift : ∀ a : Byte, a.msb = false → a <<< 1 = 0 → a = 0 := by decide
  intro hzero
  rw [timesAlpha, shiftStep, Bool.xor_false] at hzero
  cases hmsb : a.msb with
  | false =>
      rw [hmsb, if_neg Bool.false_ne_true] at hzero
      exact ha (hshift a hmsb hzero)
  | true =>
      rw [hmsb, if_pos rfl] at hzero
      have hbit := congrArg (BitVec.getLsbD · 0) hzero
      simp [feedback_odd] at hbit

theorem alphaPow_ne_zero (i : ℕ) : alphaPow p i ≠ 0 := by
  induction i with
  | zero =>
      rw [alphaPow_zero]
      decide
  | succ i ih =>
      rw [alphaPow_succ]
      exact timesAlpha_ne_zero ih

/-- Every byte but 0 is a power of `x`. -/
theorem exists_alphaPow_eq {a : Byte} (ha : a ≠ 0) : ∃ i ∈ Set.Icc 1 255, alphaPow p i = a := by
  have hpos (b : Byte) (hb : b ≠ 0) : 1 ≤ b.toNat ∧ b.toNat ≤ 255 := by
    have := b.isLt
    have : b.toNat ≠ 0 := fun h => hb (BitVec.eq_of_toNat_eq h)
    omega
  have hmaps : Set.MapsTo (fun i => (alphaPow p i).toNat) (Finset.Icc 1 255 : Finset ℕ)
      (Finset.Icc 1 255 : Finset ℕ) := by
    intro i _
    exact Finset.mem_coe.mpr (Finset.mem_Icc.mpr (hpos _ (alphaPow_ne_zero i)))
  have hinj : Set.InjOn (fun i => (alphaPow p i).toNat) (Finset.Icc 1 255 : Finset ℕ) := by
    intro i hi j hj h
    rw [Finset.coe_Icc] at hi hj
    exact alphaPow_injOn hi hj (BitVec.eq_of_toNat_eq h)
  have hsurj := Finset.surjOn_of_injOn_of_card_le _ hmaps hinj le_rfl
  obtain ⟨i, hi, h⟩ := hsurj (Finset.mem_coe.mpr (Finset.mem_Icc.mpr (hpos a ha)))
  rw [Finset.coe_Icc] at hi
  exact ⟨i, hi, BitVec.eq_of_toNat_eq h⟩

/-- The powers repeat after 255. -/
theorem alphaPow_255 : alphaPow p 255 = 1 := by
  obtain ⟨i, ⟨hpos, hle⟩, hi⟩ := exists_alphaPow_eq (p := p) (show (1 : Byte) ≠ 0 by decide)
  rcases Nat.lt_or_eq_of_le hle with hlt | rfl
  · have hnext : alphaPow p (i + 1) = alphaPow p 1 := by
      rw [alphaPow_succ, hi]
      rfl
    have := alphaPow_injOn ⟨by omega, by omega⟩ ⟨le_rfl, by omega⟩ hnext
    omega
  · exact hi

end Powers

/-! ## The tables -/

/-- The tables of `field_create` after `k` rounds. -/
structure Created (p : BitVec 16) (k : ℕ) (s : BitVec 16 × RsField) : Prop where
  element_eq : s.1 = (alphaPow p k).setWidth 16
  length_exp : s.2.exp.length = 512
  length_log : s.2.log.length = 256
  expAt_eq : ∀ i ≤ k, s.2.expAt i = alphaPow p i
  logAt_eq : ∀ i, 1 ≤ i → i ≤ k → i ≤ 255 → s.2.logAt (alphaPow p i) = BitVec.ofNat 8 i
  logAt_zero : s.2.logAt 0 = 0

theorem created_zero :
    Created p 0 (1, ⟨(List.replicate 512 0).set 0 1, List.replicate 256 0⟩) where
  element_eq := rfl
  length_exp := by rw [List.length_set, List.length_replicate]
  length_log := List.length_replicate
  expAt_eq i hi := by
    obtain rfl := Nat.le_zero.mp hi
    rw [RsField.expAt, CArray.getD_set, List.length_replicate, if_pos ⟨rfl, by decide⟩]
    rfl
  logAt_eq i hpos hle := by omega
  logAt_zero := rfl

theorem Created.succ [hprimitive : PrimitivePoly p] {k : ℕ} {s : BitVec 16 × RsField}
    (h : Created p k s) (hk : k < 511) : Created p (k + 1) (fieldCreateStep p s (k + 1)) := by
  have helement := element_step hprimitive.isFieldPolynomial (alphaPow p k)
  rw [← alphaPow_succ] at helement
  have hindex : ((alphaPow p (k + 1)).setWidth 16).toNat = (alphaPow p (k + 1)).toNat := by
    have := (alphaPow p (k + 1)).isLt
    rw [BitVec.toNat_setWidth, Nat.mod_eq_of_lt (by omega)]
  have hbyte : ((alphaPow p (k + 1)).setWidth 16).setWidth 8 = alphaPow p (k + 1) := by
    rw [BitVec.setWidth_setWidth_of_le _ (by decide), BitVec.setWidth_eq]
  have hstep : fieldCreateStep p s (k + 1) = ((alphaPow p (k + 1)).setWidth 16,
      ⟨s.2.exp.set (k + 1) (alphaPow p (k + 1)),
        if k + 1 < 256 then s.2.log.set (alphaPow p (k + 1)).toNat (BitVec.ofNat 8 (k + 1))
        else s.2.log⟩) := by
    simp only [fieldCreateStep, h.element_eq, helement, hindex, hbyte]
  rw [hstep]
  constructor
  · rfl
  · rw [List.length_set, h.length_exp]
  · simp only
    split
    · rw [List.length_set, h.length_log]
    · exact h.length_log
  · intro i hi
    rw [RsField.expAt, CArray.getD_set, h.length_exp]
    split
    · next heq => rw [heq.1]
    · exact h.expAt_eq i (by omega)
  · intro i hpos hle hbound
    rw [RsField.logAt]
    simp only
    rcases Nat.le_succ_iff.mp hle with hle | rfl
    · have hold := h.logAt_eq i hpos hle hbound
      split
      · next hsmall =>
          rw [CArray.getD_set, if_neg]
          · exact hold
          · rintro ⟨hsame, -⟩
            have := alphaPow_injOn ⟨by omega, by omega⟩ ⟨hpos, hbound⟩ (BitVec.eq_of_toNat_eq hsame)
            omega
      · exact hold
    · rw [if_pos (by omega), CArray.getD_set, h.length_log,
        if_pos ⟨rfl, (alphaPow p (k + 1)).isLt⟩]
  · rw [RsField.logAt]
    simp only
    split
    · rw [CArray.getD_set, if_neg]
      · exact h.logAt_zero
      · rintro ⟨hsame, -⟩
        exact alphaPow_ne_zero (k + 1) (BitVec.eq_of_toNat_eq hsame)
    · exact h.logAt_zero

/-- The tables that `field_create` returns. -/
theorem created_fieldCreate [PrimitivePoly p] :
    ∃ s, Created p 511 s ∧ s.2 = fieldCreate p := by
  have hrun (k : ℕ) (hk : k ≤ 511) : Created p k ((List.range' 1 k).foldl (fieldCreateStep p)
      (1, ⟨(List.replicate 512 0).set 0 1, List.replicate 256 0⟩)) := by
    induction k with
    | zero => exact created_zero
    | succ k ih =>
        rw [List.range'_1_concat, List.foldl_append, Nat.add_comm 1 k]
        exact (ih (by omega)).succ (by omega)
  exact ⟨_, hrun 511 le_rfl, rfl⟩

end ObcGsInterface
