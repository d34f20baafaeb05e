import ObcGsInterface.Verification.Aes.Field
import Mathlib.Data.Fin.VecNotation
import Mathlib.LinearAlgebra.Matrix.Notation

/-! # The cipher is Rijndael

A block is a matrix over the field, its bytes the columns one after the other. Every function of
the cipher is the layer that it is named after, the key schedule is that of the standard, and the
inverse cipher undoes the cipher. -/

namespace ObcGsInterface

open AesField

/-! ## Blocks as matrices -/

namespace AesWord

def get (w : AesWord) : Fin 4 → Byte := ![w.b0, w.b1, w.b2, w.b3]

theorem get_xor (a b : AesWord) (row : Fin 4) : (a.xor b).get row = a.get row ^^^ b.get row := by
  fin_cases row <;> rfl

theorem get_map (f : Byte → Byte) (w : AesWord) (row : Fin 4) : (w.map f).get row = f (w.get row) := by
  fin_cases row <;> rfl

theorem get_injective : Function.Injective get := by
  intro a b h
  have h0 := congrFun h 0
  have h1 := congrFun h 1
  have h2 := congrFun h 2
  have h3 := congrFun h 3
  cases a
  cases b
  simp only [get, Matrix.cons_val] at h0 h1 h2 h3
  rw [h0, h1, h2, h3]

end AesWord

namespace AesBlock

def column (s : AesBlock) : Fin 4 → AesWord := ![s.w0, s.w1, s.w2, s.w3]

theorem column_map (f : AesWord → AesWord) (s : AesBlock) (i : Fin 4) :
    (s.map f).column i = f (s.column i) := by
  fin_cases i <;> rfl

/-- The block as a matrix over the field. -/
noncomputable def toState (s : AesBlock) : Rijndael.State AesField :=
  Matrix.of fun row column => ofByte ((s.column column).get row)

theorem toState_apply (s : AesBlock) (row column : Fin 4) :
    s.toState row column = ofByte ((s.column column).get row) := rfl

theorem toState_injective : Function.Injective toState := by
  intro s t h
  have hcolumn (i : Fin 4) : s.column i = t.column i := by
    apply AesWord.get_injective
    funext row
    exact ofByte_injective (congrFun (congrFun h row) i)
  have h0 := hcolumn 0
  have h1 := hcolumn 1
  have h2 := hcolumn 2
  have h3 := hcolumn 3
  cases s
  cases t
  simp only [column, Matrix.cons_val] at h0 h1 h2 h3
  rw [h0, h1, h2, h3]

end AesBlock

open AesBlock

/-! ## The layers -/

/-- The two circulant matrices are inverse to each other. -/
theorem unmix_mul_mix :
    Matrix.circulant ![x ^ 3 + x ^ 2 + x, x ^ 3 + 1, x ^ 3 + x ^ 2 + 1, x ^ 3 + x + 1] *
      Matrix.circulant ![x, 1, 1, x + 1] = 1 := by
  rw [Matrix.circulant_mul, ← Matrix.circulant_single_one]
  congr 1
  ext row
  simp only [Matrix.mulVec, dotProduct, Fin.sum_univ_four, Matrix.circulant_apply]
  -- Every coefficient is even, up to the 1 of the first row.
  fin_cases row
  · simp
    linear_combination (x ^ 4 + 2 * x ^ 3 + x ^ 2 + x + 1) * two_eq_zero
  · simp
    linear_combination (x ^ 4 + 2 * x ^ 3 + x ^ 2 + 2 * x + 1) * two_eq_zero
  · simp
    linear_combination (x ^ 4 + 2 * x ^ 3 + x ^ 2 + 2 * x + 1) * two_eq_zero
  · simp
    linear_combination (x ^ 4 + 2 * x ^ 3 + 2 * x ^ 2 + x + 1) * two_eq_zero

/-- The layers of the standard. -/
noncomputable def aesLayers : Rijndael.Layers AesField where
  sub := substitution
  mix := ![x, 1, 1, x + 1]
  unmix := ![x ^ 3 + x ^ 2 + x, x ^ 3 + 1, x ^ 3 + x ^ 2 + 1, x ^ 3 + x + 1]
  unmix_mul_mix := unmix_mul_mix

theorem toState_subBytes (s : AesBlock) : (subBytes s).toState = aesLayers.subBytes s.toState := by
  ext row column
  rw [toState_apply, subBytes, column_map, AesWord.get_map, ofByte_getSBoxValue]
  rfl

theorem toState_invSubBytes (s : AesBlock) :
    (invSubBytes s).toState = aesLayers.subBytes.symm s.toState := by
  ext row column
  rw [toState_apply, invSubBytes, column_map, AesWord.get_map, ← byteEquiv_symm_ofByte
    ((s.column column).get row)]
  rfl

theorem get_shiftRows (s : AesBlock) (row column : Fin 4) :
    ((shiftRows s).column column).get row = (s.column (column + row)).get row := by
  fin_cases row <;> fin_cases column <;> rfl

theorem get_invShiftRows (s : AesBlock) (row column : Fin 4) :
    ((invShiftRows s).column column).get row = (s.column (column - row)).get row := by
  fin_cases row <;> fin_cases column <;> rfl

theorem toState_shiftRows (s : AesBlock) :
    (shiftRows s).toState = Rijndael.Layers.shiftRows s.toState := by
  ext row column
  exact congrArg ofByte (get_shiftRows s row column)

theorem toState_invShiftRows (s : AesBlock) :
    (invShiftRows s).toState = Rijndael.Layers.shiftRows.symm s.toState := by
  ext row column
  exact congrArg ofByte (get_invShiftRows s row column)

/-- A column times the matrix of the standard. -/
theorem ofByte_mixColumn (w : AesWord) (row : Fin 4) :
    ofByte ((mixColumn w).get row) =
      ∑ i, Matrix.circulant ![x, 1, 1, x + 1] row i * ofByte (w.get i) := by
  rw [Fin.sum_univ_four]
  simp only [Matrix.circulant_apply, AesWord.get]
  -- The byte itself is added twice.
  fin_cases row
  · simp [mixColumn]
    linear_combination ofByte w.b0 * two_eq_zero
  · simp [mixColumn]
    linear_combination ofByte w.b1 * two_eq_zero
  · simp [mixColumn]
    linear_combination ofByte w.b2 * two_eq_zero
  · simp [mixColumn]
    linear_combination ofByte w.b3 * two_eq_zero

theorem toState_mixColumns (s : AesBlock) :
    (mixColumns s).toState = aesLayers.mixColumns s.toState := by
  ext row column
  rw [toState_apply, mixColumns, column_map, ofByte_mixColumn]
  rfl

/-- The factors in `InvMixColumns`. -/
theorem ofByte_factors : ofByte 14#8 = x ^ 3 + x ^ 2 + x ∧ ofByte 9#8 = x ^ 3 + 1 ∧
    ofByte 13#8 = x ^ 3 + x ^ 2 + 1 ∧ ofByte 11#8 = x ^ 3 + x + 1 := by
  refine ⟨?_, ?_, ?_, ?_⟩ <;>
    · rw [ofByte_eq_sum]
      simp [Finset.sum_range_succ, coefficient]
      try ring

theorem ofByte_invMixColumn (w : AesWord) (row : Fin 4) :
    ofByte ((invMixColumn w).get row) =
      ∑ i, Matrix.circulant ![x ^ 3 + x ^ 2 + x, x ^ 3 + 1, x ^ 3 + x ^ 2 + 1, x ^ 3 + x + 1] row i *
        ofByte (w.get i) := by
  obtain ⟨h14, h9, h13, h11⟩ := ofByte_factors
  rw [Fin.sum_univ_four]
  simp only [Matrix.circulant_apply, AesWord.get, invMixColumn]
  fin_cases row <;>
    · simp [ofByte_multiply, h14, h9, h13, h11]
      ring

theorem toState_invMixColumns (s : AesBlock) :
    (invMixColumns s).toState = aesLayers.mixColumns.symm s.toState := by
  ext row column
  rw [toState_apply, invMixColumns, column_map, ofByte_invMixColumn]
  rfl

/-! ## The cipher -/

/-- The round keys in a list of words. -/
noncomputable def roundKeyState (roundKey : List AesWord) (round : ℕ) : Rijndael.State AesField :=
  Matrix.of fun row column => ofByte ((roundKey.getD (round * 4 + column) ⟨0, 0, 0, 0⟩).get row)

theorem toState_addRoundKey (round : ℕ) (s : AesBlock) (roundKey : List AesWord) :
    (addRoundKey round s roundKey).toState = s.toState + roundKeyState roundKey round := by
  ext row column
  have hcolumn : (addRoundKey round s roundKey).column column =
      (s.column column).xor (roundKey.getD (round * 4 + column) ⟨0, 0, 0, 0⟩) := by
    fin_cases column <;> rfl
  rw [toState_apply, hcolumn, AesWord.get_xor, ofByte_xor]
  rfl

/-- **The cipher** is that of the standard for its round keys. -/
theorem toState_cipher (state : AesBlock) (roundKey : List AesWord) :
    (cipher state roundKey).toState =
      aesLayers.encrypt (roundKeyState roundKey) aesNr state.toState := by
  rw [cipher, toState_addRoundKey, toState_shiftRows, toState_subBytes, ← List.foldl_hom toState,
    toState_addRoundKey]
  · rfl
  · intro s round
    rw [toState_addRoundKey, toState_mixColumns, toState_shiftRows, toState_subBytes]
    rfl

theorem toState_unlast (s : AesBlock) :
    (invSubBytes (invShiftRows s)).toState = aesLayers.last.symm s.toState := by
  rw [toState_invSubBytes, toState_invShiftRows]
  rfl

/-- To add a key is to subtract it. -/
theorem toState_removeRoundKey (round : ℕ) (s : AesBlock) (roundKey : List AesWord) :
    (addRoundKey round s roundKey).toState = s.toState - roundKeyState roundKey round := by
  rw [toState_addRoundKey]
  ext row column
  rw [Matrix.add_apply, Matrix.sub_apply, AesField.sub_eq]

/-- The inverse cipher. The loop of the source has its first two layers in front of the loop of
the inverse, and the third at its end. -/
theorem toState_invCipher (state : AesBlock) (roundKey : List AesWord) :
    (invCipher state roundKey).toState =
      aesLayers.decrypt (roundKeyState roundKey) aesNr state.toState := by
  have hloop := @List.foldl_hom _ _ _ (fun s : AesBlock => aesLayers.last.symm s.toState)
    (fun state round =>
      invMixColumns (addRoundKey round (invSubBytes (invShiftRows state)) roundKey))
    (fun s round => aesLayers.inner.symm (s - roundKeyState roundKey round))
    (List.range' 1 (aesNr - 1)).reverse (addRoundKey aesNr state roundKey) (fun s round => by
      rw [toState_invMixColumns, toState_removeRoundKey, toState_unlast]
      rfl)
  rw [invCipher, toState_removeRoundKey, toState_unlast, ← hloop, toState_removeRoundKey]
  rfl

/-- **Both ciphers undo each other**, whatever the round keys are. -/
theorem invCipher_cipher (state : AesBlock) (roundKey : List AesWord) :
    invCipher (cipher state roundKey) roundKey = state := by
  apply toState_injective
  rw [toState_invCipher, toState_cipher, aesLayers.decrypt_encrypt]

theorem cipher_invCipher (state : AesBlock) (roundKey : List AesWord) :
    cipher (invCipher state roundKey) roundKey = state := by
  apply toState_injective
  rw [toState_cipher, toState_invCipher, aesLayers.encrypt_decrypt]

/-! ## The key schedule -/

/-- The constants of the key schedule are powers of `x`. -/
theorem ofByte_rcon {i : ℕ} (hi : i < 10) : ofByte (rcon.getD (i + 1) 0) = x ^ i := by
  have hpower (i : ℕ) : ofByte (xtime^[i] 1) = x ^ i := by
    induction i with
    | zero => exact ofByte_one
    | succ i ih => rw [Function.iterate_succ_apply', ofByte_xtime, ih, pow_succ']
  have htable : ∀ i < 10, rcon.getD (i + 1) 0 = xtime^[i] 1 := by decide
  rw [htable i hi, hpower]

/-- The words up to `n` are columns of the key schedule. -/
structure ExpandsKey (key : AesBlock) (roundKey : List AesWord) (n : ℕ) : Prop where
  length_eq : roundKey.length = n
  word_eq : ∀ i < n, ∀ row, ofByte ((roundKey.getD i ⟨0, 0, 0, 0⟩).get row) =
    aesLayers.keyColumn x key.toState i row

theorem expandsKey_start (key : AesBlock) : ExpandsKey key [key.w0, key.w1, key.w2, key.w3] 4 where
  length_eq := rfl
  word_eq i hi row := by
    rw [aesLayers.keyColumn_of_lt x key.toState hi]
    have hword : [key.w0, key.w1, key.w2, key.w3].getD i ⟨0, 0, 0, 0⟩ = key.column ⟨i, hi⟩ := by
      interval_cases i <;> rfl
    rw [hword, toState_apply]

/-- The word before, rotated and substituted, with the constant added to its first byte. -/
theorem ofByte_rotated (w : AesWord) (c : Byte) (row : Fin 4) :
    ofByte (({ (AesWord.mk w.b1 w.b2 w.b3 w.b0).map getSBoxValue with
        b0 := getSBoxValue w.b1 ^^^ c } : AesWord).get row) =
      substitute (ofByte (w.get (row + 1))) + if row = 0 then ofByte c else 0 := by
  rw [← ofByte_getSBoxValue]
  fin_cases row
  · exact ofByte_xor _ _
  all_goals exact (add_zero _).symm

/-- One more word. -/
theorem ExpandsKey.next {key : AesBlock} {roundKey : List AesWord} {n : ℕ}
    (h : ExpandsKey key roundKey n) (hn : 4 ≤ n) (hsize : n < 44) :
    ExpandsKey key (roundKey ++ [nextRoundKeyWord roundKey n]) (n + 1) where
  length_eq := by rw [List.length_append, h.length_eq, List.length_singleton]
  word_eq i hi row := by
    rcases Nat.lt_or_ge i n with hless | hend
    · rw [List.getD_append _ _ _ _ (by rw [h.length_eq]; exact hless)]
      exact h.word_eq i hless row
    · obtain rfl : i = n := by omega
      rw [List.getD_append_right _ _ _ _ (by rw [h.length_eq]), h.length_eq, Nat.sub_self,
        List.getD_cons_zero, aesLayers.keyColumn_of_le x key.toState hn, nextRoundKeyWord,
        AesWord.get_xor, ofByte_xor, h.word_eq (i - aesNk) (by change i - 4 < i; omega)]
      congr 1
      have hnk : i % aesNk = i % 4 := rfl
      rw [hnk]
      split
      · have hconstant : i / aesNk = i / 4 - 1 + 1 := by
          change i / 4 = _
          omega
        rw [hconstant, ← ofByte_rcon (by omega), ← h.word_eq (i - 1) (by omega)]
        exact ofByte_rotated _ _ row
      · exact h.word_eq (i - 1) (by omega) row

theorem keyExpansion_spec (key : AesBlock) : ExpandsKey key (keyExpansion key) 44 := by
  have hrun (n : ℕ) (hn : n ≤ 40) : ExpandsKey key ((List.range' 4 n).foldl
      (fun roundKey i => roundKey ++ [nextRoundKeyWord roundKey i])
      [key.w0, key.w1, key.w2, key.w3]) (4 + n) := by
    induction n with
    | zero => exact expandsKey_start key
    | succ n ih =>
        rw [List.range'_1_concat, List.foldl_append]
        exact (ih (by omega)).next (by omega) (by omega)
  exact hrun 40 le_rfl

theorem roundKeyState_keyExpansion (key : AesBlock) {round : ℕ} (h : round ≤ aesNr) :
    roundKeyState (keyExpansion key) round = aesLayers.roundKey x key.toState round := by
  ext row column
  have hround : round ≤ 10 := h
  have hcolumn := column.isLt
  rw [roundKeyState, Matrix.of_apply, (keyExpansion_spec key).word_eq _ (by omega),
    Rijndael.Layers.roundKey, Matrix.of_apply, Nat.mul_comm]

/-! ## The standard -/

/-- The cipher of the standard with a key of 128 bits: ten rounds over the field, with the layers
and the key schedule in the terms of the field. -/
noncomputable def rijndael128 (key s : Rijndael.State AesField) : Rijndael.State AesField :=
  aesLayers.encrypt (aesLayers.roundKey x key) 10 s

theorem toState_cipher_keyExpansion (key state : AesBlock) :
    (cipher state (keyExpansion key)).toState = rijndael128 key.toState state.toState := by
  rw [toState_cipher]
  exact KeyAlternating.encrypt_congr _ _ (fun i hi => roundKeyState_keyExpansion key hi) _

/-- **AES-128.** `KeyExpansion` and `Cipher` compute the cipher of the standard, and
`InvCipher` with the same round keys gives for each block the one that it is the image of. -/
theorem cipher_refines (key state : AesBlock) :
    (cipher state (keyExpansion key)).toState = rijndael128 key.toState state.toState ∧
      rijndael128 key.toState (invCipher state (keyExpansion key)).toState = state.toState := by
  refine ⟨toState_cipher_keyExpansion key state, ?_⟩
  rw [← toState_cipher_keyExpansion, cipher_invCipher]

end ObcGsInterface
