import Mathlib.Data.BitVec
import Mathlib.Tactic.Common

/-! # Words as big-endian bytes -/

namespace BigEndian

/-- The two bytes of a word, most significant first. -/
def bytes16 (v : BitVec 16) : List (BitVec 8) :=
  [(v >>> 8).setWidth 8, v.setWidth 8]

/-- The word made of two bytes. -/
def join16 (b0 b1 : BitVec 8) : BitVec 16 :=
  (b0.setWidth 16 <<< 8) ||| b1.setWidth 16

/-- The four bytes of a word, most significant first. -/
def bytes32 (v : BitVec 32) : List (BitVec 8) :=
  [(v >>> 24).setWidth 8, (v >>> 16).setWidth 8, (v >>> 8).setWidth 8, v.setWidth 8]

/-- The word made of four bytes. -/
def join32 (b0 b1 b2 b3 : BitVec 8) : BitVec 32 :=
  (b0.setWidth 32 <<< 24) ||| (b1.setWidth 32 <<< 16) ||| (b2.setWidth 32 <<< 8) |||
    b3.setWidth 32

@[simp] theorem length_bytes16 (v : BitVec 16) : (bytes16 v).length = 2 := rfl

@[simp] theorem length_bytes32 (v : BitVec 32) : (bytes32 v).length = 4 := rfl

theorem join16_bytes16 (v : BitVec 16) :
    join16 ((v >>> 8).setWidth 8) (v.setWidth 8) = v := by
  ext i hi
  simp only [join16, BitVec.getElem_or, BitVec.getElem_shiftLeft, BitVec.getElem_setWidth,
    BitVec.getLsbD_setWidth, BitVec.getLsbD_ushiftRight]
  grind

theorem join32_bytes32 (v : BitVec 32) :
    join32 ((v >>> 24).setWidth 8) ((v >>> 16).setWidth 8) ((v >>> 8).setWidth 8)
      (v.setWidth 8) = v := by
  ext i hi
  simp only [join32, BitVec.getElem_or, BitVec.getElem_shiftLeft, BitVec.getElem_setWidth,
    BitVec.getLsbD_setWidth, BitVec.getLsbD_ushiftRight]
  grind

@[simp] theorem bytes16_join16 (b0 b1 : BitVec 8) : bytes16 (join16 b0 b1) = [b0, b1] := by
  have h0 : (join16 b0 b1 >>> 8).setWidth 8 = b0 := by
    ext i hi
    simp [join16]
    grind
  have h1 : (join16 b0 b1).setWidth 8 = b1 := by
    ext i hi
    simp [join16]
  rw [bytes16, h0, h1]

@[simp] theorem bytes32_join32 (b0 b1 b2 b3 : BitVec 8) :
    bytes32 (join32 b0 b1 b2 b3) = [b0, b1, b2, b3] := by
  have h0 : (join32 b0 b1 b2 b3 >>> 24).setWidth 8 = b0 := by
    ext i hi
    simp [join32]
    grind
  have h1 : (join32 b0 b1 b2 b3 >>> 16).setWidth 8 = b1 := by
    ext i hi
    simp [join32]
    grind
  have h2 : (join32 b0 b1 b2 b3 >>> 8).setWidth 8 = b2 := by
    ext i hi
    simp [join32]
    grind
  have h3 : (join32 b0 b1 b2 b3).setWidth 8 = b3 := by
    ext i hi
    simp [join32]
  rw [bytes32, h0, h1, h2, h3]

/-- Two bytes are those of a word exactly when they make that word. -/
theorem bytes16_eq_iff {v : BitVec 16} {b0 b1 : BitVec 8} :
    bytes16 v = [b0, b1] ↔ v = join16 b0 b1 := by
  constructor
  · intro h
    simp only [bytes16, List.cons.injEq, and_true] at h
    rw [← h.1, ← h.2, join16_bytes16]
  · rintro rfl
    exact bytes16_join16 b0 b1

/-- Four bytes are those of a word exactly when they make that word. -/
theorem bytes32_eq_iff {v : BitVec 32} {b0 b1 b2 b3 : BitVec 8} :
    bytes32 v = [b0, b1, b2, b3] ↔ v = join32 b0 b1 b2 b3 := by
  constructor
  · intro h
    simp only [bytes32, List.cons.injEq, and_true] at h
    obtain ⟨h0, h1, h2, h3⟩ := h
    rw [← h0, ← h1, ← h2, ← h3, join32_bytes32]
  · rintro rfl
    exact bytes32_join32 b0 b1 b2 b3

end BigEndian
