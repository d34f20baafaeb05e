import ObcGsInterface.Library.BitStream

/-! # Linear shift registers

A checksum that feeds a message into a shift register is additive in the register and the
message together, where addition is exclusive or. Additive maps that agree on single bits
are equal, and two messages of one length leave the same checksum exactly when their
difference leaves the checksum zero. -/

namespace ShiftRegister

open BitStream

/-! ## Additive maps -/

section Additive

variable {m n : ℕ}

/-- A map that turns exclusive or into exclusive or. -/
def Additive (f : BitVec m → BitVec n) : Prop := ∀ x y, f (x ^^^ y) = f x ^^^ f y

theorem Additive.map_zero {f : BitVec m → BitVec n} (hf : Additive f) : f 0#m = 0#n := by
  have h := hf 0#m 0#m
  rw [BitVec.xor_zero] at h
  calc f 0#m = f 0#m ^^^ f 0#m := h
    _ = 0#n := BitVec.xor_self

theorem setWidth_succ_eq_xor (x : BitVec m) (k : ℕ) :
    (x.setWidth (k + 1)).setWidth m =
      (x.setWidth k).setWidth m ^^^ if x.getLsbD k then BitVec.twoPow m k else 0#m := by
  apply BitVec.eq_of_getLsbD_eq
  intro i hi
  rw [BitVec.getLsbD_xor, BitVec.getLsbD_setWidth, BitVec.getLsbD_setWidth, BitVec.getLsbD_setWidth,
    BitVec.getLsbD_setWidth]
  rcases Nat.lt_trichotomy i k with hlt | rfl | hgt
  · have hne : k ≠ i := by omega
    split <;> simp [BitVec.getElem_twoPow, hi, hlt, hne.symm, Nat.lt_succ_of_lt hlt]
  · split <;> simp_all [BitVec.getElem_twoPow]
  · have hne : k ≠ i := by omega
    have hlast : ¬ i < k + 1 := by omega
    have hlt : ¬ i < k := by omega
    split <;> simp [BitVec.getLsbD_twoPow, hlt, hlast, hne]

/-- Additive maps that agree on every single bit are equal. -/
theorem Additive.ext {f g : BitVec m → BitVec n} (hf : Additive f) (hg : Additive g)
    (hbit : ∀ i < m, f (BitVec.twoPow m i) = g (BitVec.twoPow m i)) : f = g := by
  funext x
  have hlow (k : ℕ) (hk : k ≤ m) : f ((x.setWidth k).setWidth m) = g ((x.setWidth k).setWidth m) := by
    induction k with
    | zero =>
        rw [show x.setWidth 0 = 0#0 from BitVec.eq_nil _, BitVec.setWidth_zero]
        exact hf.map_zero.trans hg.map_zero.symm
    | succ k ih =>
        rw [setWidth_succ_eq_xor, hf, hg, ih (Nat.le_of_succ_le hk)]
        congr 1
        split
        · exact hbit k hk
        · exact hf.map_zero.trans hg.map_zero.symm
  simpa using hlow m (Nat.le_refl m)

theorem additive_id : Additive fun x : BitVec m => x := fun _ _ => rfl

theorem additive_shiftLeft (k : ℕ) : Additive fun x : BitVec m => x <<< k :=
  fun x y => BitVec.shiftLeft_xor_distrib x y k

theorem additive_ushiftRight (k : ℕ) : Additive fun x : BitVec m => x >>> k :=
  fun x y => BitVec.ushiftRight_xor_distrib x y k

theorem additive_setWidth : Additive fun x : BitVec m => x.setWidth n :=
  fun _ _ => BitVec.setWidth_xor

theorem additive_and (mask : BitVec m) : Additive fun x : BitVec m => x &&& mask := by
  intro x y
  ext i
  simp only [BitVec.getElem_and, BitVec.getElem_xor, Bool.and_xor_distrib_right]

theorem Additive.comp {l : ℕ} {g : BitVec n → BitVec l} {f : BitVec m → BitVec n}
    (hg : Additive g) (hf : Additive f) : Additive fun x => g (f x) := by
  intro x y
  change g (f (x ^^^ y)) = g (f x) ^^^ g (f y)
  rw [hf, hg]

theorem Additive.xor {f g : BitVec m → BitVec n} (hf : Additive f) (hg : Additive g) :
    Additive fun x => f x ^^^ g x := by
  intro x y
  change f (x ^^^ y) ^^^ g (x ^^^ y) = (f x ^^^ g x) ^^^ (f y ^^^ g y)
  rw [hf, hg]
  ac_rfl

end Additive

/-! ## Folds -/

section Folds

variable {w v : ℕ}

/-- A step that is additive in its two arguments together. -/
def StepAdditive (step : BitVec w → BitVec v → BitVec w) : Prop :=
  ∀ a b x y, step (a ^^^ b) (x ^^^ y) = step a x ^^^ step b y

theorem StepAdditive.split {step : BitVec w → BitVec v → BitVec w} (h : StepAdditive step)
    (a : BitVec w) (x : BitVec v) : step a x = step a 0#v ^^^ step 0#w x := by
  rw [← h, BitVec.xor_zero, BitVec.zero_xor]

/-- An additive map of the register and one of the input make an additive step. -/
theorem Additive.step {f : BitVec w → BitVec w} {g : BitVec v → BitVec w} (hf : Additive f)
    (hg : Additive g) : StepAdditive fun a x => f a ^^^ g x := by
  intro a b x y
  change f (a ^^^ b) ^^^ g (x ^^^ y) = (f a ^^^ g x) ^^^ (f b ^^^ g y)
  rw [hf, hg]
  ac_rfl

theorem StepAdditive.map {f : BitVec w → BitVec w} {step : BitVec w → BitVec v → BitVec w}
    (hf : Additive f) (h : StepAdditive step) : StepAdditive fun a x => f (step a x) := by
  intro a b x y
  change f (step (a ^^^ b) (x ^^^ y)) = f (step a x) ^^^ f (step b y)
  rw [h, hf]

/-- Additive steps are equal when they agree on every single bit. -/
theorem StepAdditive.ext {step step' : BitVec w → BitVec v → BitVec w} (h : StepAdditive step)
    (h' : StepAdditive step')
    (hreg : ∀ i < w, step (BitVec.twoPow w i) 0#v = step' (BitVec.twoPow w i) 0#v)
    (hin : ∀ i < v, step 0#w (BitVec.twoPow v i) = step' 0#w (BitVec.twoPow v i)) : step = step' := by
  have hregAdd {step : BitVec w → BitVec v → BitVec w} (h : StepAdditive step) :
      Additive fun a => step a 0#v := by
    intro a b
    change step (a ^^^ b) 0#v = step a 0#v ^^^ step b 0#v
    rw [← h, BitVec.xor_zero]
  have hinAdd {step : BitVec w → BitVec v → BitVec w} (h : StepAdditive step) :
      Additive fun x => step 0#w x := by
    intro x y
    change step 0#w (x ^^^ y) = step 0#w x ^^^ step 0#w y
    rw [← h, BitVec.xor_zero]
  have hregEq := (hregAdd h).ext (hregAdd h') hreg
  have hinEq := (hinAdd h).ext (hinAdd h') hin
  funext a x
  rw [h.split, h'.split]
  exact congrArg₂ (· ^^^ ·) (congrFun hregEq a) (congrFun hinEq x)

theorem StepAdditive.foldl_xor {step : BitVec w → BitVec v → BitVec w} (h : StepAdditive step)
    (a b : BitVec w) {xs ys : List (BitVec v)} (hlength : xs.length = ys.length) :
    (List.zipWith (· ^^^ ·) xs ys).foldl step (a ^^^ b) = xs.foldl step a ^^^ ys.foldl step b := by
  induction xs generalizing a b ys with
  | nil =>
      rw [List.length_eq_zero_iff.mp hlength.symm]
      rfl
  | cons x xs ih =>
      cases ys with
      | nil => contradiction
      | cons y ys =>
          rw [List.zipWith_cons_cons, List.foldl_cons, h]
          exact ih _ _ (Nat.succ.inj hlength)

/-- Two messages behind a common beginning leave the same checksum exactly when their
difference leaves the checksum zero. -/
theorem StepAdditive.foldl_eq_iff {step : BitVec w → BitVec v → BitVec w} (h : StepAdditive step)
    (a : BitVec w) {xs ys : List (BitVec v)} (hlength : xs.length = ys.length) :
    xs.foldl step a = ys.foldl step a ↔ (List.zipWith (· ^^^ ·) xs ys).foldl step 0#w = 0#w := by
  have hxor := h.foldl_xor a a hlength
  rw [BitVec.xor_self] at hxor
  rw [hxor]
  exact BitVec.xor_eq_zero_iff.symm

end Folds

/-! ## Registers with feedback -/

section Registers

variable {w : ℕ} (poly : BitVec w)

/-- The register moves one place to the left; where the bit that falls out differs from the
bit that comes in, `poly` is added. -/
def shiftStep (reg : BitVec w) (bit : Bool) : BitVec w :=
  if reg.msb ^^ bit then (reg <<< 1) ^^^ poly else reg <<< 1

/-- The register after a whole byte, most significant bit first. -/
def shiftByte (reg : BitVec w) (byte : BitVec 8) : BitVec w :=
  (byteBits byte).foldl (shiftStep poly) reg

theorem foldl_shiftByte (reg : BitVec w) (bytes : List (BitVec 8)) :
    bytes.foldl (shiftByte poly) reg = (bits bytes).foldl (shiftStep poly) reg := by
  induction bytes generalizing reg with
  | nil => rfl
  | cons b bytes ih => rw [List.foldl_cons, ih, bits_cons, List.foldl_append, shiftByte]

theorem ite_xor (x y : Bool) :
    (if x ^^ y then poly else 0#w) =
      (if x then poly else 0#w) ^^^ (if y then poly else 0#w) := by
  cases x <;> cases y <;> simp

theorem shiftStep_xor (a b : BitVec w) (x y : Bool) :
    shiftStep poly (a ^^^ b) (x ^^ y) = shiftStep poly a x ^^^ shiftStep poly b y := by
  have hsplit (reg : BitVec w) (bit : Bool) :
      shiftStep poly reg bit = (reg <<< 1) ^^^ if reg.msb ^^ bit then poly else 0#w := by
    unfold shiftStep
    split <;> simp
  have hfeedback : ((a ^^^ b).msb ^^ (x ^^ y)) = ((a.msb ^^ x) ^^ (b.msb ^^ y)) := by
    rw [BitVec.msb_xor, Bool.xor_assoc, Bool.xor_assoc, Bool.xor_left_comm b.msb]
  rw [hsplit, hsplit, hsplit, hfeedback, ite_xor, BitVec.shiftLeft_xor_distrib]
  ac_rfl

theorem byteBits_xor (x y : BitVec 8) :
    byteBits (x ^^^ y) = List.zipWith (· ^^ ·) (byteBits x) (byteBits y) := by
  apply List.ext_getElem?
  intro i
  by_cases hi : i < 8
  · rw [List.getElem?_zipWith, getElem?_byteBits _ hi, getElem?_byteBits _ hi,
      getElem?_byteBits _ hi]
    simp [BitVec.getMsbD_xor]
  · rw [List.getElem?_eq_none (by simpa using hi), List.getElem?_eq_none (by simpa using hi)]

theorem foldl_shiftStep_xor (a b : BitVec w) {xs ys : List Bool} (hlength : xs.length = ys.length) :
    (List.zipWith (· ^^ ·) xs ys).foldl (shiftStep poly) (a ^^^ b) =
      xs.foldl (shiftStep poly) a ^^^ ys.foldl (shiftStep poly) b := by
  induction xs generalizing a b ys with
  | nil =>
      rw [List.length_eq_zero_iff.mp hlength.symm]
      rfl
  | cons x xs ih =>
      cases ys with
      | nil => contradiction
      | cons y ys =>
          rw [List.zipWith_cons_cons, List.foldl_cons, shiftStep_xor]
          exact ih _ _ (Nat.succ.inj hlength)

theorem shiftByte_stepAdditive : StepAdditive (shiftByte poly) := by
  intro a b x y
  rw [shiftByte, byteBits_xor]
  exact foldl_shiftStep_xor poly a b rfl

end Registers

/-! ## Reflected registers

The register moves to the right and the least significant bit is the next to leave. -/

section Reflected

variable {w : ℕ} (poly : BitVec w)

/-- The register moves one place to the right; where the bit that falls out is set, `poly`
is added. -/
def reflectedStep (reg : BitVec w) : BitVec w :=
  if reg.getLsbD 0 then (reg >>> 1) ^^^ poly else reg >>> 1

/-- The register after a whole byte. -/
def reflectedByte (reg : BitVec w) (byte : BitVec 8) : BitVec w :=
  (reflectedStep poly)^[8] (reg ^^^ byte.setWidth w)

/-- The number with the given bytes, least significant first. -/
def wordOf : List (BitVec 8) → BitVec w
  | [] => 0#w
  | b :: bs => b.setWidth w ^^^ (wordOf bs <<< 8)

theorem reflectedStep_eq (reg : BitVec w) :
    reflectedStep poly reg = (reg >>> 1) ^^^ if reg.getLsbD 0 then poly else 0#w := by
  unfold reflectedStep
  split <;> simp

theorem reflectedStep_additive : Additive (reflectedStep poly) := by
  intro x y
  rw [reflectedStep_eq, reflectedStep_eq, reflectedStep_eq, BitVec.getLsbD_xor, ite_xor,
    BitVec.ushiftRight_xor_distrib]
  ac_rfl

theorem Additive.iterate {f : BitVec w → BitVec w} (hf : Additive f) (n : ℕ) : Additive f^[n] := by
  intro x y
  induction n generalizing x y with
  | zero => rfl
  | succ n ih => rw [Function.iterate_succ_apply, hf, ih]; rfl

/-- A polynomial with its highest bit set cannot cancel a register that moved to the right. -/
theorem reflectedStep_injective (hpoly : poly.msb = true) :
    Function.Injective (reflectedStep poly) := by
  intro x y h
  rw [reflectedStep_eq, reflectedStep_eq] at h
  have hbit (i : ℕ) : ((x >>> 1) ^^^ if x.getLsbD 0 then poly else 0#w).getLsbD i =
      ((y >>> 1) ^^^ if y.getLsbD 0 then poly else 0#w).getLsbD i := by rw [h]
  simp only [BitVec.getLsbD_xor, BitVec.getLsbD_ushiftRight] at hbit
  have hw : 0 < w := by
    rcases Nat.eq_zero_or_pos w with rfl | hw
    · simp [BitVec.msb] at hpoly
    · exact hw
  -- the highest bit that arrives tells which bit fell out
  have hlow : x.getLsbD 0 = y.getLsbD 0 := by
    have htop := hbit (w - 1)
    have hpolyTop : poly.getLsbD (w - 1) = true := by
      rwa [BitVec.msb_eq_getLsbD_last] at hpoly
    rw [BitVec.getLsbD_of_ge x (1 + (w - 1)) (by omega),
      BitVec.getLsbD_of_ge y (1 + (w - 1)) (by omega)] at htop
    cases hx : x.getLsbD 0 <;> cases hy : y.getLsbD 0 <;>
      simp [hx, hy, hpolyTop] at htop ⊢
  apply BitVec.eq_of_getLsbD_eq
  intro i hi
  cases i with
  | zero => exact hlow
  | succ i =>
      have hnext := hbit i
      rw [hlow, Nat.add_comm 1 i] at hnext
      exact Bool.xor_left_inj.mp hnext

/-- A word with room above it comes back after as many steps as it was moved up. -/
theorem iterate_reflectedStep_shiftLeft {n : ℕ} (word : BitVec w)
    (hroom : ∀ i < w, w ≤ i + n → word.getLsbD i = false) :
    (reflectedStep poly)^[n] (word <<< n) = word := by
  induction n with
  | zero => exact BitVec.shiftLeft_zero word
  | succ n ih =>
      have hlow : (word <<< (n + 1)).getLsbD 0 = false := by simp [BitVec.getLsbD_shiftLeft]
      have hdown : reflectedStep poly (word <<< (n + 1)) = word <<< n := by
        apply BitVec.eq_of_getLsbD_eq
        intro i hi
        rw [reflectedStep, hlow, if_neg Bool.false_ne_true, BitVec.getLsbD_ushiftRight,
          BitVec.getLsbD_shiftLeft, BitVec.getLsbD_shiftLeft, Nat.add_comm 1 i,
          Nat.add_sub_add_right]
        by_cases htop : i + 1 < w
        · simp [hi, htop]
        · rcases Nat.lt_or_ge i n with hlow | hge
          · simp [htop, hlow]
          · have hclear := hroom (i - n) (by omega) (by omega)
            simp [htop, hclear]
      rw [Function.iterate_succ_apply, hdown]
      exact ih fun i hi htop => hroom i hi (by omega)

theorem getLsbD_wordOf (bytes : List (BitVec 8)) (i : ℕ) :
    (wordOf bytes : BitVec w).getLsbD i =
      (decide (i < w) && (bytes[i / 8]?.getD 0).getLsbD (i % 8)) := by
  induction bytes generalizing i with
  | nil => simp [wordOf]
  | cons b bytes ih =>
      rw [wordOf, BitVec.getLsbD_xor, BitVec.getLsbD_setWidth, BitVec.getLsbD_shiftLeft, ih]
      rcases Nat.lt_or_ge i 8 with hlt | hge
      · simp [hlt, Nat.div_eq_of_lt hlt, Nat.mod_eq_of_lt hlt]
      · obtain ⟨j, rfl⟩ := Nat.exists_eq_add_of_le' hge
        by_cases hj : j + 8 < w
        · have hjw : j < w := by omega
          simp [hj, hjw]
        · simp [hj]

/-- A word that holds all its bytes determines them. -/
theorem wordOf_injective {xs ys : List (BitVec 8)} (hlength : xs.length = ys.length)
    (hroom : 8 * xs.length ≤ w) (h : (wordOf xs : BitVec w) = wordOf ys) : xs = ys := by
  apply List.ext_getElem hlength
  intro k hx hy
  apply BitVec.eq_of_getLsbD_eq
  intro i hi
  have hdiv : (8 * k + i) / 8 = k := by omega
  have hmod : (8 * k + i) % 8 = i := by omega
  have hin : 8 * k + i < w := by omega
  have hbit : (wordOf xs : BitVec w).getLsbD (8 * k + i) =
      (wordOf ys : BitVec w).getLsbD (8 * k + i) := by rw [h]
  rw [getLsbD_wordOf, getLsbD_wordOf, hdiv, hmod] at hbit
  simpa [hin, hx, hy] using hbit

/-- Bytes that fit in the register can be added to it all at once. -/
theorem foldl_reflectedByte (reg : BitVec w) {bytes : List (BitVec 8)}
    (hroom : 8 * bytes.length ≤ w) :
    bytes.foldl (reflectedByte poly) reg =
      (reflectedStep poly)^[8 * bytes.length] (reg ^^^ wordOf bytes) := by
  induction bytes generalizing reg with
  | nil => simp [wordOf]
  | cons b bytes ih =>
      rw [List.length_cons] at hroom
      have hback : (reflectedStep poly)^[8] (wordOf bytes <<< 8) = wordOf bytes := by
        apply iterate_reflectedStep_shiftLeft
        intro i hi htop
        have hlength : bytes.length ≤ i / 8 := by omega
        simp [getLsbD_wordOf, List.getElem?_eq_none hlength]
      have hbyte : reflectedByte poly reg b ^^^ wordOf bytes =
          (reflectedStep poly)^[8] (reg ^^^ wordOf (b :: bytes)) := by
        rw [wordOf, ← BitVec.xor_assoc, (reflectedStep_additive poly).iterate 8, hback,
          reflectedByte]
      rw [List.foldl_cons, ih _ (by omega), hbyte, ← Function.iterate_add_apply, List.length_cons,
        Nat.mul_succ]

/-- One byte takes different registers to different registers. -/
theorem reflectedByte_injective (hpoly : poly.msb = true) (byte : BitVec 8) :
    Function.Injective fun reg => reflectedByte poly reg byte := by
  intro x y h
  exact (BitVec.xor_left_inj _).mp ((reflectedStep_injective poly hpoly).iterate 8 h)

theorem foldl_reflectedByte_injective (hpoly : poly.msb = true) (bytes : List (BitVec 8)) :
    Function.Injective fun reg => bytes.foldl (reflectedByte poly) reg := by
  intro x y h
  induction bytes generalizing x y with
  | nil => exact h
  | cons b bytes ih => exact reflectedByte_injective poly hpoly b (ih h)

/-- Messages of one length that differ only in a stretch that fits in the register leave
different checksums. -/
theorem foldl_reflectedByte_ne (hpoly : poly.msb = true) (reg : BitVec w)
    (front back : List (BitVec 8)) {xs ys : List (BitVec 8)} (hlength : xs.length = ys.length)
    (hroom : 8 * xs.length ≤ w) (hne : xs ≠ ys) :
    (front ++ (xs ++ back)).foldl (reflectedByte poly) reg ≠
      (front ++ (ys ++ back)).foldl (reflectedByte poly) reg := by
  intro h
  rw [List.foldl_append, List.foldl_append, List.foldl_append, List.foldl_append] at h
  have hstretch := foldl_reflectedByte_injective poly hpoly back h
  have hroom' : 8 * ys.length ≤ w := by omega
  change xs.foldl _ _ = ys.foldl _ _ at hstretch
  rw [foldl_reflectedByte poly _ hroom, foldl_reflectedByte poly _ hroom', ← hlength] at hstretch
  have hword := (BitVec.xor_right_inj _).mp
    ((reflectedStep_injective poly hpoly).iterate _ hstretch)
  exact hne (wordOf_injective hlength hroom hword)

end Reflected

end ShiftRegister
