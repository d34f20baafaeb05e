import Mathlib.LinearAlgebra.Matrix.Circulant
import Mathlib.LinearAlgebra.Matrix.NonsingularInverse

/-! # Rijndael

A cipher on matrices of four rows and four columns over a ring. Every round substitutes the
entries, rotates the rows and multiplies the columns by a circulant matrix, and keys are added
before, between and behind the rounds. The last round leaves out the multiplication. -/

/-! ## Key-alternating ciphers -/

namespace KeyAlternating

variable {S : Type*} [AddCommGroup S]

/-- Rounds `inner`, and a last round `last`, with a key before the first and behind each. -/
def encrypt (inner last : Equiv.Perm S) (key : ℕ → S) (n : ℕ) (s : S) : S :=
  last ((List.range' 1 (n - 1)).foldl (fun s round => inner s + key round) (s + key 0)) + key n

/-- The same rounds backwards. -/
def decrypt (inner last : Equiv.Perm S) (key : ℕ → S) (n : ℕ) (s : S) : S :=
  (List.range' 1 (n - 1)).reverse.foldl (fun s round => inner.symm (s - key round))
    (last.symm (s - key n)) - key 0

omit [AddCommGroup S] in
/-- A loop that is undone step by step. -/
theorem foldl_reverse_foldl {ι : Type*} {f g : S → ι → S} (h : ∀ s i, g (f s i) i = s)
    (rounds : List ι) (s : S) : rounds.reverse.foldl g (rounds.foldl f s) = s := by
  induction rounds generalizing s with
  | nil => rfl
  | cons i rounds ih =>
      rw [List.foldl_cons, List.reverse_cons, List.foldl_append, ih, List.foldl_cons, List.foldl_nil,
        h]

/-- Only the keys of the rounds count. -/
theorem encrypt_congr (inner last : Equiv.Perm S) {key key' : ℕ → S} {n : ℕ}
    (h : ∀ i ≤ n, key i = key' i) (s : S) :
    encrypt inner last key n s = encrypt inner last key' n s := by
  have hloop := List.foldl_ext (fun s round => inner s + key round)
    (fun s round => inner s + key' round) (s + key 0) (l := List.range' 1 (n - 1))
    fun s round hround => by
      have := List.mem_range'_1.mp hround
      rw [h round (by omega)]
  rw [encrypt, encrypt, hloop, h 0 (Nat.zero_le n), h n le_rfl]

variable (inner last : Equiv.Perm S) (key : ℕ → S) (n : ℕ)

theorem decrypt_encrypt (s : S) : decrypt inner last key n (encrypt inner last key n s) = s := by
  rw [decrypt, encrypt, add_sub_cancel_right, last.symm_apply_apply, foldl_reverse_foldl,
    add_sub_cancel_right]
  intro s round
  rw [add_sub_cancel_right, inner.symm_apply_apply]

theorem encrypt_decrypt (s : S) : encrypt inner last key n (decrypt inner last key n s) = s := by
  have hback := foldl_reverse_foldl (f := fun s round => inner.symm (s - key round))
    (g := fun s round => inner s + key round) (fun s round => by
      rw [inner.apply_symm_apply, sub_add_cancel]) (List.range' 1 (n - 1)).reverse
    (last.symm (s - key n))
  rw [List.reverse_reverse] at hback
  rw [encrypt, decrypt, sub_add_cancel, hback, last.apply_symm_apply, sub_add_cancel]

end KeyAlternating

/-! ## The layers -/

namespace Rijndael

/-- Four rows and four columns. -/
abbrev State (K : Type*) : Type _ := Matrix (Fin 4) (Fin 4) K

/-- A substitution of the entries, and the first columns of two circulant matrices that are
inverse to each other. -/
structure Layers (K : Type*) [CommRing K] where
  sub : Equiv.Perm K
  mix : Fin 4 → K
  unmix : Fin 4 → K
  unmix_mul_mix : Matrix.circulant unmix * Matrix.circulant mix = 1

namespace Layers

variable {K : Type*} [CommRing K] (layers : Layers K)

/-- Every entry is substituted. -/
def subBytes : Equiv.Perm (State K) where
  toFun s := s.map layers.sub
  invFun s := s.map layers.sub.symm
  left_inv s := by
    ext row column
    exact layers.sub.symm_apply_apply _
  right_inv s := by
    ext row column
    exact layers.sub.apply_symm_apply _

/-- Every row is rotated to the left by its number. -/
def shiftRows : Equiv.Perm (State K) where
  toFun s := Matrix.of fun row column => s row (column + row)
  invFun s := Matrix.of fun row column => s row (column - row)
  left_inv s := by
    ext row column
    simp
  right_inv s := by
    ext row column
    simp

/-- Every column is multiplied by the matrix. -/
def mixColumns : Equiv.Perm (State K) where
  toFun s := Matrix.circulant layers.mix * s
  invFun s := Matrix.circulant layers.unmix * s
  left_inv s := by
    simp only
    rw [← Matrix.mul_assoc, layers.unmix_mul_mix, Matrix.one_mul]
  right_inv s := by
    simp only
    rw [← Matrix.mul_assoc, mul_eq_one_comm.mp layers.unmix_mul_mix, Matrix.one_mul]

/-- The last round. -/
def last : Equiv.Perm (State K) := layers.subBytes.trans shiftRows

/-- The rounds before it. -/
def inner : Equiv.Perm (State K) := layers.last.trans layers.mixColumns

/-- The cipher with given round keys. -/
def encrypt (key : ℕ → State K) (n : ℕ) (s : State K) : State K :=
  KeyAlternating.encrypt layers.inner layers.last key n s

/-- The inverse cipher. -/
def decrypt (key : ℕ → State K) (n : ℕ) (s : State K) : State K :=
  KeyAlternating.decrypt layers.inner layers.last key n s

theorem decrypt_encrypt (key : ℕ → State K) (n : ℕ) (s : State K) :
    layers.decrypt key n (layers.encrypt key n s) = s := KeyAlternating.decrypt_encrypt _ _ key n s

theorem encrypt_decrypt (key : ℕ → State K) (n : ℕ) (s : State K) :
    layers.encrypt key n (layers.decrypt key n s) = s := KeyAlternating.encrypt_decrypt _ _ key n s

/-! ## The key schedule -/

/-- Column `i` of the round keys for a key of four columns: the sum of the columns four and one
before it. Where a round key begins, the one before is rotated and substituted first, and a power
of `α` is added. -/
def keyColumn (α : K) (key : State K) (i : ℕ) : Fin 4 → K :=
  if h : i < 4 then fun row => key row ⟨i, h⟩
  else
    let temp : Fin 4 → K := keyColumn α key (i - 1)
    let temp : Fin 4 → K :=
      if i % 4 = 0 then fun row => layers.sub (temp (row + 1)) + if row = 0 then α ^ (i / 4 - 1) else 0
      else temp
    fun row => keyColumn α key (i - 4) row + temp row
termination_by i

theorem keyColumn_of_lt (α : K) (key : State K) {i : ℕ} (h : i < 4) (row : Fin 4) :
    layers.keyColumn α key i row = key row ⟨i, h⟩ := by
  rw [keyColumn, dif_pos h]

theorem keyColumn_of_le (α : K) (key : State K) {i : ℕ} (h : 4 ≤ i) (row : Fin 4) :
    layers.keyColumn α key i row = layers.keyColumn α key (i - 4) row +
      if i % 4 = 0 then
        layers.sub (layers.keyColumn α key (i - 1) (row + 1)) +
          if row = 0 then α ^ (i / 4 - 1) else 0
      else layers.keyColumn α key (i - 1) row := by
  rw [keyColumn, dif_neg (Nat.not_lt.mpr h)]
  split <;> rfl

/-- The round keys. -/
def roundKey (α : K) (key : State K) (round : ℕ) : State K :=
  Matrix.of fun row column => layers.keyColumn α key (4 * round + column) row

end Layers

end Rijndael
