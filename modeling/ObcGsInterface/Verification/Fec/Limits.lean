import ObcGsInterface.Verification.Fec.Correctness

/-! # How far the code reaches

The distance of the code is one more than the number of its check bytes, which no code with as
many exceeds. One more wrong byte than the decoder corrects can turn a message into another, and
wrong check bytes alone can make the decoder leave its arrays. -/

namespace ObcGsInterface

open CArray

-- The tables are never evaluated in a proof.
attribute [local irreducible] fieldCreate

theorem wrongBytes_le_length (xs ys : List Byte) : wrongBytes xs ys ≤ ys.length := by
  refine List.countP_le_length.trans ?_
  rw [List.length_zip]
  exact Nat.min_le_right _ _

variable {p : BitVec 16} [PrimitivePoly p] {c g n : ℕ}

/-! ## Words of messages -/

section Words

variable (p c g n) in
/-- A message with its check bytes. -/
def wordOf (message : List Byte) : List Byte :=
  message ++ (correctReedSolomonCreate p c g n).parity message

theorem length_wordOf (h : ValidCode g n) (message : List Byte) :
    (wordOf p c g n message).length = message.length + n := by
  rw [wordOf, List.length_append, (parity_spec h message).1]

theorem wordOf_vanishes (h : ValidCode g n) (message : List Byte) :
    VanishesAtRoots p c g n (wordOf p c g n message) :=
  (vanishesAtRoots_append_iff h message (parity_spec h message).1).mpr rfl

theorem take_wordOf (h : ValidCode g n) (message : List Byte) :
    (wordOf p c g n message).take ((wordOf p c g n message).length - n) = message := by
  rw [length_wordOf h, Nat.add_sub_cancel, wordOf, List.take_left]

/-- The words of different messages differ in more places than there are check bytes. -/
theorem lt_wrongBytes_wordOf (h : ValidCode g n) {message message' : List Byte}
    (hlength : message'.length = message.length) (hsize : message.length + n ≤ 255)
    (hne : message' ≠ message) :
    n < wrongBytes (wordOf p c g n message) (wordOf p c g n message') := by
  by_contra hfew
  have hsame := eq_of_wrongBytes_le h ((length_wordOf h message).trans_le hsize)
    (by rw [length_wordOf h, length_wordOf h, hlength]) (wordOf_vanishes h message)
    (wordOf_vanishes h message') (Nat.not_lt.mp hfew)
  rw [wordOf, wordOf] at hsame
  exact hne (List.append_inj_left hsame hlength)

/-- Two messages that differ in their last byte. -/
theorem wrongBytes_wordOf_last (h : ValidCode g n) (front : List Byte) (b b' : Byte) :
    wrongBytes (wordOf p c g n (front ++ [b])) (wordOf p c g n (front ++ [b'])) ≤ n + 1 := by
  rw [wordOf, wordOf, List.append_assoc, List.append_assoc, wrongBytes_append rfl, wrongBytes_self,
    Nat.zero_add]
  refine (wrongBytes_le_length _ _).trans ?_
  rw [List.length_append, (parity_spec h _).1, List.length_singleton, Nat.add_comm]

end Words

/-! ## The distance -/

/-- **The distance.** Blocks of different messages differ in more than `n` places, and the blocks
of messages that differ in their last byte in exactly `n + 1`. -/
theorem encoder_distance (h : ValidCode g n) {message message' : List Byte}
    (hlength : message'.length = message.length) (hsize : message.length + n ≤ 255)
    (hne : message' ≠ message) :
    n + 1 ≤ wrongBytes (wordOf p c g n message) (wordOf p c g n message') ∧
      (message'.dropLast = message.dropLast →
        wrongBytes (wordOf p c g n message) (wordOf p c g n message') = n + 1) := by
  have hlt := lt_wrongBytes_wordOf (p := p) (c := c) h hlength hsize hne
  refine ⟨hlt, fun hfront => le_antisymm ?_ hlt⟩
  have hmessage : message ≠ [] := by
    rintro rfl
    exact hne (List.length_eq_zero_iff.mp hlength)
  have hmessage' : message' ≠ [] := by
    rintro rfl
    exact hmessage (List.length_eq_zero_iff.mp hlength.symm)
  rw [← List.dropLast_append_getLast hmessage, ← List.dropLast_append_getLast hmessage', hfront]
  exact wrongBytes_wordOf_last h _ _ _

theorem encoder_distance_two :
    32 + 1 ≤ wrongBytes (wordOf correctRsPrimitivePolynomialCcsds 1 1 32 [1, 2])
        (wordOf correctRsPrimitivePolynomialCcsds 1 1 32 [1, 3]) ∧
      ([1, 3].dropLast = [(1 : Byte), 2].dropLast →
        wrongBytes (wordOf correctRsPrimitivePolynomialCcsds 1 1 32 [1, 2])
          (wordOf correctRsPrimitivePolynomialCcsds 1 1 32 [1, 3]) = 32 + 1) :=
  encoder_distance ⟨by decide, by decide, by decide⟩ (by decide) (by decide) (by decide)

/-! ## The limit of correction -/

theorem xor_one_ne (b : Byte) : b ^^^ 1 ≠ b := by
  intro heq
  have hone : b ^^^ (b ^^^ 1) = b ^^^ b := by rw [heq]
  rw [← BitVec.xor_assoc, BitVec.xor_self, BitVec.zero_xor] at hone
  contradiction

/-- **One wrong byte too many.** The block of every message can be damaged in `n / 2 + 1` places
(one more where `n` is odd) so that the decoder reports another message. -/
theorem decodeCall_misled (h : ValidCode g n) {message : List Byte} (hmessage : message ≠ [])
    (hsize : message.length + n ≤ 255) :
    ∃ received message' : List Byte, received.length = message.length + n ∧
      wrongBytes (wordOf p c g n message) received ≤ n + 1 - n / 2 ∧
      message'.length = message.length ∧ message' ≠ message ∧
      ∀ (m : ℕ) (buffers : DecoderBuffers 255 n) (msg : Block Byte m), message.length ≤ m →
        decodeCall (decodingReedSolomonCreate p c g n) buffers received msg =
          .ok (message.length, overwrite msg.cells 0 message') := by
  obtain ⟨front, b, rfl⟩ : ∃ front b, message = front ++ [b] :=
    ⟨_, _, (List.dropLast_append_getLast hmessage).symm⟩
  obtain ⟨parity, hparity⟩ : ∃ parity,
      (correctReedSolomonCreate p c g n).parity (front ++ [b]) = parity := ⟨_, rfl⟩
  obtain ⟨parity', hparity'⟩ : ∃ parity',
      (correctReedSolomonCreate p c g n).parity (front ++ [b ^^^ 1]) = parity' := ⟨_, rfl⟩
  have hcheck : parity.length = n := by rw [← hparity, (parity_spec h _).1]
  have hcheck' : parity'.length = n := by rw [← hparity', (parity_spec h _).1]
  have hword : wordOf p c g n (front ++ [b]) = front ++ ([b] ++ parity) := by
    rw [wordOf, hparity, List.append_assoc]
  have hword' : wordOf p c g n (front ++ [b ^^^ 1]) = front ++ ([b ^^^ 1] ++ parity') := by
    rw [wordOf, hparity', List.append_assoc]
  -- The first check bytes are those of the other message, the last ones stay.
  refine ⟨front ++ ([b ^^^ 1] ++ (parity'.take (n - n / 2) ++ parity.drop (n - n / 2))),
    front ++ [b ^^^ 1], ?_, ?_, ?_, ?_, fun m buffers msg hm => ?_⟩
  · simp only [List.length_append, List.length_singleton, List.length_take, List.length_drop]
    omega
  · rw [hword, wrongBytes_append rfl, wrongBytes_self, Nat.zero_add,
      wrongBytes_append (by rfl)]
    nth_rewrite 1 [← List.take_append_drop (n - n / 2) parity]
    rw [wrongBytes_append (by rw [List.length_take, List.length_take, hcheck, hcheck']),
      wrongBytes_self, Nat.add_zero]
    have hfirst := wrongBytes_le_length [b] [b ^^^ 1]
    have hchecks := wrongBytes_le_length (parity.take (n - n / 2)) (parity'.take (n - n / 2))
    rw [List.length_take] at hchecks
    rw [List.length_singleton] at hfirst
    omega
  · rw [List.length_append, List.length_append]
    rfl
  · intro heq
    exact xor_one_ne b (List.singleton_inj.mp (List.append_cancel_left heq))
  · have hlength : (front ++ ([b ^^^ 1] ++
        (parity'.take (n - n / 2) ++ parity.drop (n - n / 2)))).length =
        (wordOf p c g n (front ++ [b ^^^ 1])).length := by
      rw [length_wordOf h]
      simp only [List.length_append, List.length_singleton, List.length_take, List.length_drop]
      omega
    have hwrong : 2 * wrongBytes (wordOf p c g n (front ++ [b ^^^ 1]))
        (front ++ ([b ^^^ 1] ++ (parity'.take (n - n / 2) ++ parity.drop (n - n / 2)))) ≤ n := by
      rw [hword', wrongBytes_append rfl, wrongBytes_self, Nat.zero_add, wrongBytes_append rfl,
        wrongBytes_self, Nat.zero_add]
      nth_rewrite 1 [← List.take_append_drop (n - n / 2) parity']
      rw [wrongBytes_append rfl, wrongBytes_self, Nat.zero_add]
      have hrest := wrongBytes_le_length (parity'.drop (n - n / 2)) (parity.drop (n - n / 2))
      rw [List.length_drop] at hrest
      omega
    have hsame : (front ++ [b ^^^ 1]).length = (front ++ [b]).length := by
      rw [List.length_append, List.length_append]
      rfl
    have hwordLength := length_wordOf (p := p) (c := c) h (front ++ [b ^^^ 1])
    rw [decodeCall_corrects h (wordOf_vanishes h _) (by omega) (by omega) hlength hwrong buffers msg
      (by omega), take_wordOf h, hwordLength, hsame, Nat.cast_add, add_sub_cancel_right]

theorem decodeCall_misled_byte :
    ∃ received message' : List Byte, received.length = 1 + 32 ∧
      wrongBytes (wordOf correctRsPrimitivePolynomialCcsds 1 1 32 [7]) received ≤ 32 + 1 - 32 / 2 ∧
      message'.length = 1 ∧ message' ≠ [7] ∧
      ∀ (m : ℕ) (buffers : DecoderBuffers 255 32) (msg : Block Byte m), 1 ≤ m →
        decodeCall (decodingReedSolomonCreate correctRsPrimitivePolynomialCcsds 1 1 32) buffers
          received msg = .ok ((1 : ℕ), overwrite msg.cells 0 message') :=
  @decodeCall_misled correctRsPrimitivePolynomialCcsds _ 1 1 32 ⟨by decide, by decide, by decide⟩ [7]
    (by decide) (by decide)

/-! ## The reach of the fault -/

/-- Behind a message, check bytes for which only the last syndrome is not zero. The first of them
can be any byte but the right one. -/
theorem exists_onlyLastSyndrome (h : ValidCode g n) (message : List Byte) {b : Byte}
    (hb : b ≠ ((correctReedSolomonCreate p c g n).parity message).getD 0 0) :
    ∃ check : List Byte, check.length = n ∧ check.getD 0 0 = b ∧
      OnlyLastSyndrome p c g n (message ++ check) := by
  have hpos := h.pos
  -- With one root less, the byte counts as a part of the message.
  obtain ⟨check, hlength, hvanish⟩ : ∃ check : List Byte, check.length = n - 1 ∧
      VanishesAtRoots p c g (n - 1) (message ++ [b] ++ check) := by
    rcases Nat.eq_zero_or_pos (n - 1) with hzero | hmore
    · exact ⟨[], hzero.symm, fun i hi => absurd hi (by omega)⟩
    · have hcode : ValidCode g (n - 1) := ⟨hmore, (Nat.sub_le n 1).trans_lt h.lt, h.coprime⟩
      have hlength := (parity_spec (p := p) (c := c) hcode (message ++ [b])).1
      exact ⟨_, hlength, (vanishesAtRoots_append_iff hcode _ hlength).mpr rfl⟩
  rw [List.append_assoc] at hvanish
  have hsize : ([b] ++ check).length = n := by
    rw [List.length_append, hlength, List.length_singleton]
    omega
  refine ⟨[b] ++ check, hsize, rfl, hvanish, fun hlast => hb ?_⟩
  have hall : VanishesAtRoots p c g n (message ++ ([b] ++ check)) := by
    intro i hi
    rcases Nat.lt_or_ge i (n - 1) with hless | hend
    · exact hvanish i hless
    · obtain rfl : i = n - 1 := by omega
      exact hlast
  rw [← (vanishesAtRoots_append_iff h message hsize).mp hall]
  rfl

/-- **A fault from the channel.** Whatever the message and whatever byte takes the place of its
first check byte, there are check bytes behind it on which the decoder leaves its arrays. -/
theorem decodeCall_faults (h : ValidCode g n) {message : List Byte}
    (hsize : message.length + n ≤ 255) {b : Byte}
    (hb : b ≠ ((correctReedSolomonCreate p c g n).parity message).getD 0 0) :
    ∃ check : List Byte, check.length = n ∧ check.getD 0 0 = b ∧
      ∀ (m : ℕ) (buffers : DecoderBuffers 255 n) (msg : Block Byte m), message.length ≤ m →
        decodeCall (decodingReedSolomonCreate p c g n) buffers (message ++ check) msg =
          .error .outOfBounds := by
  obtain ⟨check, hlength, hfirst, hlast⟩ := exists_onlyLastSyndrome h message hb
  have hword : (message ++ check).length = message.length + n := by
    rw [List.length_append, hlength]
  exact ⟨check, hlength, hfirst, fun m buffers msg hm =>
    decodeCall_outOfBounds h (by omega) (by omega) hlast buffers msg (by omega)⟩

/-- The message of three bytes, with the last bit of its first check byte wrong. -/
theorem decodeCall_faults_three :
    let first := ((correctReedSolomonCreate correctRsPrimitivePolynomialCcsds 1 1 32).parity
      [1, 2, 3]).getD 0 0
    ∃ check : List Byte, check.length = 32 ∧ check.getD 0 0 = first ^^^ 1 ∧
      ∀ (m : ℕ) (buffers : DecoderBuffers 255 32) (msg : Block Byte m), 3 ≤ m →
        decodeCall (decodingReedSolomonCreate correctRsPrimitivePolynomialCcsds 1 1 32) buffers
          ([1, 2, 3] ++ check) msg = .error .outOfBounds :=
  decodeCall_faults ⟨by decide, by decide, by decide⟩
    (show [1, 2, 3].length + 32 ≤ 255 by decide) (xor_one_ne _)

end ObcGsInterface
