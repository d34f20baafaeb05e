import Mathlib.Data.List.Flatten
import Mathlib.Data.BitVec
import Mathlib.Tactic.Common
import Mathlib.Tactic.IntervalCases

/-! # Bits of a byte string

Bytes travel with the most significant bit first. -/

namespace BitStream

/-- The bits of a byte, most significant first. -/
def byteBits (b : BitVec 8) : List Bool := (List.range 8).map b.getMsbD

/-- The bits of a byte string. -/
def bits (bytes : List (BitVec 8)) : List Bool := bytes.flatMap byteBits

/-- Bit `i` of a byte string; past its end all bits are zero. -/
def bitAt (bytes : List (BitVec 8)) (i : ℕ) : Bool := (bytes[i / 8]?.getD 0).getMsbD (i % 8)

@[simp] theorem length_byteBits (b : BitVec 8) : (byteBits b).length = 8 := rfl

@[simp] theorem bits_nil : bits [] = [] := rfl

@[simp] theorem bits_cons (b : BitVec 8) (bytes : List (BitVec 8)) :
    bits (b :: bytes) = byteBits b ++ bits bytes := List.flatMap_cons

@[simp] theorem bits_append (xs ys : List (BitVec 8)) : bits (xs ++ ys) = bits xs ++ bits ys :=
  List.flatMap_append

@[simp] theorem length_bits (bytes : List (BitVec 8)) : (bits bytes).length = 8 * bytes.length := by
  induction bytes with
  | nil => rfl
  | cons b bytes ih =>
      rw [bits_cons, List.length_append, length_byteBits, ih, List.length_cons]
      omega

theorem getElem?_byteBits (b : BitVec 8) {i : ℕ} (h : i < 8) :
    (byteBits b)[i]? = some (b.getMsbD i) := by
  simp [byteBits, List.getElem?_map, List.getElem?_range h]

theorem getElem?_bits (bytes : List (BitVec 8)) {i : ℕ} (h : i < 8 * bytes.length) :
    (bits bytes)[i]? = some (bitAt bytes i) := by
  induction bytes generalizing i with
  | nil => simp at h
  | cons b bytes ih =>
      rw [bits_cons]
      by_cases hi : i < 8
      · rw [List.getElem?_append_left (by simpa using hi), getElem?_byteBits b hi]
        simp [bitAt, Nat.div_eq_of_lt hi, Nat.mod_eq_of_lt hi]
      · rw [List.getElem?_append_right (by simpa using hi), length_byteBits]
        simp only [List.length_cons] at h
        rw [ih (by omega)]
        obtain ⟨j, rfl⟩ : ∃ j, i = j + 8 := ⟨i - 8, by omega⟩
        simp [bitAt]

/-- The first bits of a byte string: whole bytes, and the first bits of the next one. -/
theorem take_bits {bytes : List (BitVec 8)} {k : ℕ} (h : k / 8 < bytes.length) :
    (bits bytes).take k = bits (bytes.take (k / 8)) ++ (byteBits bytes[k / 8]).take (k % 8) := by
  have hsplit : bytes = bytes.take (k / 8) ++ bytes[k / 8] :: bytes.drop (k / 8 + 1) := by
    rw [List.getElem_cons_drop, List.take_append_drop]
  have hlength : (bits (bytes.take (k / 8))).length = 8 * (k / 8) := by
    rw [length_bits, List.length_take, Nat.min_eq_left (Nat.le_of_lt h)]
  have hrest : k - 8 * (k / 8) = k % 8 := by omega
  have hbyte : k % 8 ≤ (byteBits bytes[k / 8]).length := by
    rw [length_byteBits]
    omega
  conv_lhs => rw [hsplit]
  rw [bits_append, bits_cons, List.take_append, hlength, hrest, List.take_append_of_le_length hbyte,
    List.take_of_length_le (by omega)]

theorem byteBits_injective {a b : BitVec 8} (h : byteBits a = byteBits b) : a = b := by
  apply BitVec.eq_of_getMsbD_eq
  intro i hi
  have := congrArg (·[i]?) h
  simpa [getElem?_byteBits _ hi] using this

/-- A byte string is determined by its bits. -/
theorem bits_injective {xs ys : List (BitVec 8)} (h : bits xs = bits ys) : xs = ys := by
  induction xs generalizing ys with
  | nil =>
      have hlength := congrArg List.length h
      rw [length_bits, length_bits] at hlength
      exact (List.length_eq_zero_iff.mp (by simpa using hlength.symm)).symm
  | cons x xs ih =>
      cases ys with
      | nil =>
          have hlength := congrArg List.length h
          simp at hlength
      | cons y ys =>
          rw [bits_cons, bits_cons] at h
          obtain ⟨hhead, htail⟩ := List.append_inj h rfl
          rw [byteBits_injective hhead, ih htail]

/-- Byte strings of one length with the same bits are equal. -/
theorem eq_of_bitAt {xs ys : List (BitVec 8)} (hlength : xs.length = ys.length)
    (h : ∀ i < 8 * xs.length, bitAt xs i = bitAt ys i) : xs = ys := by
  apply bits_injective
  apply List.ext_getElem?
  intro i
  rcases Nat.lt_or_ge i (8 * xs.length) with hlt | hge
  · rw [getElem?_bits xs hlt, getElem?_bits ys (by omega), h i hlt]
  · rw [List.getElem?_eq_none (by simpa using hge), List.getElem?_eq_none (by rw [length_bits]; omega)]

@[simp] theorem bits_replicate_zero (n : ℕ) :
    bits (List.replicate n 0) = List.replicate (8 * n) false := by
  induction n with
  | zero => rfl
  | succ n ih =>
      rw [List.replicate_succ, bits_cons, ih, Nat.mul_succ, Nat.add_comm, List.replicate_add]
      rfl

/-! ## Setting single bits -/

/-- The byte whose only bit that may be set is bit `k`. -/
def bitMask (b : Bool) (k : ℕ) : BitVec 8 := (BitVec.ofBool b).setWidth 8 <<< (7 - k)

theorem getMsbD_bitMask (b : Bool) {k j : ℕ} (hk : k < 8) (hj : j < 8) :
    (bitMask b k).getMsbD j = (decide (j = k) && b) := by
  cases b <;> interval_cases k <;> interval_cases j <;> rfl

/-- OR a bit into a byte string. -/
def orBit (bytes : List (BitVec 8)) (pos : ℕ) (b : Bool) : List (BitVec 8) :=
  bytes.modify (pos / 8) (· ||| bitMask b (pos % 8))

/-- OR bits into a byte string, from `pos` on. -/
def orBits (bytes : List (BitVec 8)) : ℕ → List Bool → List (BitVec 8)
  | _, [] => bytes
  | pos, b :: bs => orBits (orBit bytes pos b) (pos + 1) bs

@[simp] theorem length_orBit (bytes : List (BitVec 8)) (pos : ℕ) (b : Bool) :
    (orBit bytes pos b).length = bytes.length := List.length_modify ..

@[simp] theorem length_orBits (bytes : List (BitVec 8)) (pos : ℕ) (bs : List Bool) :
    (orBits bytes pos bs).length = bytes.length := by
  induction bs generalizing bytes pos with
  | nil => rfl
  | cons b bs ih => rw [orBits, ih, length_orBit]

theorem orBits_append (bytes : List (BitVec 8)) (pos : ℕ) (xs ys : List Bool) :
    orBits bytes pos (xs ++ ys) = orBits (orBits bytes pos xs) (pos + xs.length) ys := by
  induction xs generalizing bytes pos with
  | nil => rfl
  | cons x xs ih =>
      rw [List.cons_append, orBits, orBits, ih, List.length_cons]
      congr 1
      omega

@[simp] theorem orBit_false (bytes : List (BitVec 8)) (pos : ℕ) :
    orBit bytes pos false = bytes := by
  have hmask (k : ℕ) : bitMask false k = 0 := by simp [bitMask]
  apply List.ext_getElem?
  intro i
  rw [orBit, hmask, List.getElem?_modify]
  split <;> cases bytes[i]? <;> simp

theorem bitAt_orBit (bytes : List (BitVec 8)) {pos : ℕ} (b : Bool) (i : ℕ)
    (h : pos / 8 < bytes.length) :
    bitAt (orBit bytes pos b) i = (bitAt bytes i || (decide (i = pos) && b)) := by
  unfold bitAt orBit
  rw [List.getElem?_modify]
  by_cases hbyte : pos / 8 = i / 8
  · have hi : i % 8 < 8 := Nat.mod_lt i (by decide)
    have hpos : pos % 8 < 8 := Nat.mod_lt pos (by decide)
    have hiff : i % 8 = pos % 8 ↔ i = pos := by omega
    rw [hbyte] at h
    simp [hbyte, List.getElem?_eq_getElem h, getMsbD_bitMask b hpos hi, hiff]
  · have hne : i ≠ pos := by
      rintro rfl
      exact hbyte rfl
    simp [hbyte, hne]

/-- The bits ORed in are the only ones that can change. -/
theorem bitAt_orBits (bytes : List (BitVec 8)) (pos : ℕ) (bs : List Bool) (i : ℕ)
    (h : pos + bs.length ≤ 8 * bytes.length) :
    bitAt (orBits bytes pos bs) i =
      (bitAt bytes i || (decide (pos ≤ i) && bs[i - pos]?.getD false)) := by
  induction bs generalizing bytes pos with
  | nil => simp [orBits]
  | cons b bs ih =>
      simp only [List.length_cons] at h
      rw [orBits, ih _ _ (by rw [length_orBit]; omega), bitAt_orBit bytes b i (by omega)]
      rcases Nat.lt_trichotomy i pos with hlt | rfl | hgt
      · simp [Nat.not_le.mpr hlt, Nat.ne_of_lt hlt, Nat.not_le.mpr (Nat.lt_succ_of_lt hlt)]
      · simp
      · obtain ⟨j, rfl⟩ : ∃ j, i = pos + (j + 1) := ⟨i - pos - 1, by omega⟩
        have hle : pos + 1 ≤ pos + (j + 1) := by omega
        have hsub : pos + (j + 1) - (pos + 1) = j := by omega
        simp [hle, hsub]

theorem bitAt_replicate_zero (n i : ℕ) : bitAt (List.replicate n 0) i = false := by
  unfold bitAt
  rw [List.getElem?_replicate]
  split <;> simp

/-- Bits put into a zero-filled byte string stand there between zeros. -/
theorem bits_orBits_zero (n pos : ℕ) (bs : List Bool) (h : pos + bs.length ≤ 8 * n) :
    bits (orBits (List.replicate n 0) pos bs) =
      List.replicate pos false ++ (bs ++ List.replicate (8 * n - pos - bs.length) false) := by
  apply List.ext_getElem?
  intro i
  by_cases hi : i < 8 * n
  · rw [getElem?_bits _ (by simpa using hi), bitAt_orBits _ _ _ _ (by simpa using h),
      bitAt_replicate_zero]
    by_cases hpos : i < pos
    · rw [List.getElem?_append_left (by simpa using hpos), List.getElem?_replicate_of_lt hpos]
      simp [Nat.not_le.mpr hpos]
    · rw [List.getElem?_append_right (by simpa using hpos), List.length_replicate]
      by_cases hbs : i - pos < bs.length
      · rw [List.getElem?_append_left hbs, List.getElem?_eq_getElem hbs]
        simp [Nat.not_lt.mp hpos]
      · rw [List.getElem?_append_right (by omega), List.getElem?_replicate_of_lt (by omega),
          List.getElem?_eq_none (by omega)]
        simp
  · rw [List.getElem?_eq_none (by simpa using hi), List.getElem?_eq_none (by simp; omega)]

theorem orBits_append_left (front bytes : List (BitVec 8)) (pos : ℕ) (bs : List Bool) :
    orBits (front ++ bytes) (8 * front.length + pos) bs = front ++ orBits bytes pos bs := by
  induction bs generalizing bytes pos with
  | nil => rfl
  | cons b bs ih =>
      have hindex : (8 * front.length + pos) / 8 = front.length + pos / 8 := by omega
      have hbit : (8 * front.length + pos) % 8 = pos % 8 := by omega
      have hstep : orBit (front ++ bytes) (8 * front.length + pos) b =
          front ++ orBit bytes pos b := by
        rw [orBit, orBit, hindex, hbit]
        exact List.modifyTailIdx_add _ _ _ _
      rw [orBits, orBits, hstep, Nat.add_assoc, ih]

theorem orBits_append_right (front back : List (BitVec 8)) {pos : ℕ} {bs : List Bool}
    (h : pos + bs.length ≤ 8 * front.length) :
    orBits (front ++ back) pos bs = orBits front pos bs ++ back := by
  induction bs generalizing front pos with
  | nil => rfl
  | cons b bs ih =>
      rw [List.length_cons] at h
      have hstep : orBit (front ++ back) pos b = orBit front pos b ++ back := by
        apply List.ext_getElem?
        intro i
        rw [orBit, orBit, List.getElem?_modify]
        rcases Nat.lt_or_ge i front.length with hlt | hge
        · rw [List.getElem?_append_left hlt, List.getElem?_append_left (by simpa using hlt),
            List.getElem?_modify]
        · have hne : pos / 8 ≠ i := by omega
          rw [List.getElem?_append_right hge, List.getElem?_append_right (by simpa using hge),
            List.length_modify]
          simp [hne]
      rw [orBits, orBits, hstep, ih _ (by rw [length_orBit]; omega)]

/-- Whole bytes put into a zero-filled part, with zero bits after them. -/
theorem orBits_bits (front bytes : List (BitVec 8)) (n pad : ℕ)
    (h : 8 * bytes.length + pad ≤ 8 * n) :
    orBits (front ++ List.replicate n 0) (8 * front.length)
        (bits bytes ++ List.replicate pad false) =
      front ++ (bytes ++ List.replicate (n - bytes.length) 0) := by
  have hzero := orBits_append_left front (List.replicate n 0) 0
    (bits bytes ++ List.replicate pad false)
  rw [Nat.add_zero] at hzero
  rw [hzero]
  congr 1
  apply bits_injective
  have hpad : pad + (8 * n - 0 - (8 * bytes.length + pad)) = 8 * (n - bytes.length) := by omega
  rw [bits_orBits_zero _ _ _ (by rw [List.length_append, length_bits, List.length_replicate]; omega),
    bits_append, bits_replicate_zero, List.length_append, length_bits, List.length_replicate,
    List.replicate_zero, List.nil_append, List.append_assoc, ← List.replicate_add, hpad]

theorem orBits_replicate_false (bytes : List (BitVec 8)) (pos n : ℕ) :
    orBits bytes pos (List.replicate n false) = bytes := by
  induction n generalizing pos with
  | zero => rfl
  | succ n ih => rw [List.replicate_succ, orBits, orBit_false, ih]

/-! ## Bytes of bits -/

/-- The number of bytes that hold the bits. -/
def byteCount (bs : List Bool) : ℕ := (bs.length + 7) / 8

/-- The bits as bytes, padded with zero bits. -/
def pack (bs : List Bool) : List (BitVec 8) := orBits (List.replicate (byteCount bs) 0) 0 bs

/-- The number of zero bits that `pack` adds. -/
def padding (bs : List Bool) : ℕ := 8 * byteCount bs - bs.length

theorem padding_lt (bs : List Bool) : padding bs < 8 := by
  unfold padding byteCount
  omega

theorem length_add_padding (bs : List Bool) : bs.length + padding bs = 8 * byteCount bs := by
  unfold padding byteCount
  omega

@[simp] theorem length_pack (bs : List Bool) : (pack bs).length = byteCount bs := by
  rw [pack, length_orBits, List.length_replicate]

theorem bits_pack (bs : List Bool) : bits (pack bs) = bs ++ List.replicate (padding bs) false := by
  have hroom := length_add_padding bs
  rw [pack, bits_orBits_zero _ _ _ (by omega), List.replicate_zero, List.nil_append, Nat.sub_zero,
    padding]

/-- Whole bytes are packed as they are. -/
theorem pack_bits_append (front : List (BitVec 8)) (bs : List Bool) :
    pack (bits front ++ bs) = front ++ pack bs := by
  apply bits_injective
  have hpadding : padding (bits front ++ bs) = padding bs := by
    unfold padding byteCount
    rw [List.length_append, length_bits]
    omega
  rw [bits_pack, bits_append, bits_pack, hpadding, List.append_assoc]

/-- Bits put into a zero-filled part are its packed bytes. -/
theorem orBits_eq_pack (front : List (BitVec 8)) (n : ℕ) (bs : List Bool)
    (h : byteCount bs ≤ n) :
    orBits (front ++ List.replicate n 0) (8 * front.length) bs =
      front ++ (pack bs ++ List.replicate (n - byteCount bs) 0) := by
  have hbits := orBits_bits front (pack bs) n 0 (by rw [length_pack]; omega)
  rwa [bits_pack, List.replicate_zero, List.append_nil, orBits_append, orBits_replicate_false,
    length_pack] at hbits

end BitStream
