import ObcGsInterface.Verification.Fec.Decoder

/-! # What the decoder guarantees

Up to half as many wrong bytes as there are check bytes are corrected, a message is only ever
reported for a codeword, and a call in a row of calls reports what it would report alone. -/

namespace ObcGsInterface

open Polynomial Finset FieldElement CArray ErrorLocator ShiftRegisterSynthesis

-- The tables are never evaluated in a proof.
attribute [local irreducible] fieldCreate

variable {p : BitVec 16} [PrimitivePoly p] {c g n : ℕ}

/-! ## Distances -/

theorem wrongBytes_triangle {xs ys zs : List Byte} (hy : ys.length = xs.length)
    (hz : zs.length = xs.length) : wrongBytes xs zs ≤ wrongBytes xs ys + wrongBytes ys zs := by
  rw [← card_errorLocationSet hy, ← card_errorLocationSet (hz.trans hy.symm),
    ← card_errorLocationSet hz]
  refine (card_le_card fun j hj => ?_).trans (card_union_le _ _)
  obtain ⟨hj, hne⟩ := mem_filter.mp hj
  rw [mem_union, errorLocationSet, errorLocationSet, mem_filter, mem_filter, hy]
  by_cases hfirst : ys.reverse.getD j 0 = xs.reverse.getD j 0
  · exact .inr ⟨hj, by rwa [hfirst]⟩
  · exact .inl ⟨hj, hfirst⟩

theorem wrongBytes_fullBlock {xs ys : List Byte} (h : ys.length = xs.length) :
    wrongBytes (fullBlock xs) (fullBlock ys) = wrongBytes xs ys := by
  rw [fullBlock, fullBlock, h, wrongBytes_append rfl, wrongBytes_self, Nat.zero_add]

/-! ## Few errors -/

section FewErrors

variable {sent received : List Byte} (h : ValidCode g n) (hsent : VanishesAtRoots p c g n sent)
  (hlength : received.length = sent.length) (hsize : sent.length ≤ 255)

include hsent hlength in
/-- The syndromes are power sums over the errors. -/
theorem syndromePolynomial_eq : syndromePolynomial p c g n received =
    powerSums (errorLocationSet sent received) (locationPoint p g)
      (errorWeight p c g sent received) n := by
  ext1 i
  rw [coeff_syndromePolynomial, coeff_powerSums]
  split
  · next hi => rw [← syndrome_sub hlength, hsent i hi, sub_zero]
  · rfl

include h hsent hlength hsize in
/-- The shortest register is the locator of the errors. -/
theorem shortest_eq {P : (FieldElement p)[X]} {L : ℕ} (hwrong : 2 * wrongBytes sent received ≤ n)
    (hP : Shortest (syndromePolynomial p c g n received) P L n) :
    P = locator (errorLocationSet sent received) (locationPoint p g) ∧
      L = wrongBytes sent received := by
  rw [syndromePolynomial_eq hsent hlength] at hP
  rw [← card_errorLocationSet hlength] at hwrong ⊢
  exact shortest_eq_locator (fun j _ => locationPoint_ne_zero j)
    (locationPoint_injOn h hsize received) hP (fun j hj => errorWeight_ne_zero hj) hwrong

include h hsize in
/-- The search finds all its roots. -/
theorem le_length_searchRoots (hlength : received.length = sent.length) :
    wrongBytes sent received ≤ (searchRoots p
      (locator (errorLocationSet sent received) (locationPoint p g)) 256).length := by
  rw [← card_errorLocationSet hlength, ← List.toFinset_card_of_nodup (nodup_searchRoots _ le_rfl)]
  refine card_le_card_of_injOn (fun j => (locationPoint p g j)⁻¹.byte) (fun j hj => ?_) ?_
  · rw [mem_coe, List.mem_toFinset, mem_searchRoots]
    exact eval_locator (fun j _ => locationPoint_ne_zero j) hj
  · intro i hi j hj heq
    have hpoint : (locationPoint p g i)⁻¹ = (locationPoint p g j)⁻¹ := FieldElement.ext heq
    exact locationPoint_injOn h hsize received hi hj (inv_injective hpoint)

include h hsent hlength hsize in
/-- A block with few errors decodes to the message of its codeword. -/
theorem decodes_few (hn : n ≤ sent.length) (hwrong : 2 * wrongBytes sent received ≤ n)
    {outcome : Except Fault (Option (List Byte))} (hdecodes : DecodesBlock p c g n received outcome) :
    outcome = .ok (some (sent.take (sent.length - n))) := by
  have hpos := h.pos
  have hgenerates := generates_locator (s := errorLocationSet sent received)
    (x := locationPoint p g) (y := errorWeight p c g sent received) n
  rw [← syndromePolynomial_eq hsent hlength, card_errorLocationSet hlength] at hgenerates
  cases hdecodes with
  | intact hvanish =>
      have hsame : received = sent :=
        eq_of_wrongBytes_le h hsize hlength hsent hvanish (by omega)
      rw [hsame]
  | outOfBounds hlast =>
      have := hlast.le_length hpos hgenerates
      omega
  | @notFactorized P L hshortest hlt hroots =>
      obtain ⟨hP, hL⟩ := shortest_eq h hsent hlength hsize hwrong hshortest
      have hle := le_length_searchRoots (p := p) h hsize hlength
      rw [← hP] at hle
      have hne : P ≠ 0 := by
        rintro rfl
        exact zero_ne_one hshortest.coeff_zero
      have hbound := (length_searchRoots_le hne le_rfl).trans hshortest.natDegree_le
      omega
  | @corrected P L word hshortest hlt hword hvanish hcorrected =>
      have hL := (shortest_eq h hsent hlength hsize hwrong hshortest).2
      have hfull : (fullBlock sent).length = 255 := length_fullBlock hsize
      have hfull' : (fullBlock received).length = 255 := length_fullBlock (by omega)
      have hdistance : wrongBytes (fullBlock sent) word ≤ n := by
        have htriangle := wrongBytes_triangle (hfull'.trans hfull.symm) (hword.trans hfull.symm)
        rw [wrongBytes_fullBlock hlength] at htriangle
        omega
      have hsame : word = fullBlock sent := eq_of_wrongBytes_le h hfull.le (hword.trans hfull.symm)
        (vanishesAtRoots_fullBlock.mpr hsent) hvanish hdistance
      rw [hsame, hlength, messageOf_fullBlock]

end FewErrors

/-! ## Calls -/

/-- Working arrays that hold zeros. -/
def zeroBuffers (n : ℕ) : DecoderBuffers 255 n where
  receivedPolynomial := Block.fill _ 0
  syndromes := Block.fill _ 0
  errorLocator := ⟨n, Block.fill _ 0⟩
  errorLocatorLog := ⟨n, Block.fill _ 0⟩
  errorRoots := Block.fill _ 0
  errorVals := Block.fill _ 0
  errorLocations := Block.fill _ 0
  lastErrorLocator := ⟨n, Block.fill _ 0⟩
  errorEvaluator := Block.fill _ 0
  errorLocatorDerivative := ⟨n - 1, Block.fill _ 0⟩

section Calls

variable {m : ℕ} {encoded : List Byte}

/-- **Few errors are corrected.** -/
theorem decodeCall_corrects (h : ValidCode g n) {sent : List Byte}
    (hsent : VanishesAtRoots p c g n sent) (hn : n ≤ sent.length) (hsize : sent.length ≤ 255)
    (hlength : encoded.length = sent.length) (hwrong : 2 * wrongBytes sent encoded ≤ n)
    (buffers : DecoderBuffers 255 n) (msg : Block Byte m) (hm : sent.length - n ≤ m) :
    decodeCall (decodingReedSolomonCreate p c g n) buffers encoded msg =
      .ok ((sent.length : ℤ) - n, overwrite msg.cells 0 (sent.take (sent.length - n))) := by
  obtain ⟨outcome, hdecodes, hcall⟩ := decodeCall_spec (p := p) (c := c) h (hn.trans_eq hlength.symm)
    (hlength.trans_le hsize)
  rw [hcall m buffers msg (by omega), decodes_few h hsent hlength hsize hn hwrong hdecodes,
    Except.map_ok, report_message _ hn (by rw [List.length_take]; omega)]

end Calls

/-- Working arrays that another block has left behind. -/
def usedBuffers : DecoderBuffers 255 32 :=
  { zeroBuffers 32 with
    receivedPolynomial := Block.fill _ 0xAA
    syndromes := Block.fill _ 0x55
    errorLocator := ⟨7, Block.fill _ 0xAA⟩
    errorRoots := Block.fill _ 0x33
    lastErrorLocator := ⟨3, Block.fill _ 0x0F⟩ }

/-- The block of the bytes 1, 2 and 3, with the first of them wrong. -/
def damagedBlock : List Byte :=
  [9] ++ ([2, 3] ++ (correctReedSolomonCreate correctRsPrimitivePolynomialCcsds 1 1 32).parity
    [1, 2, 3])

theorem length_damagedBlock : damagedBlock.length = 35 := by
  have hcode : ValidCode 1 32 := ⟨by decide, by decide, by decide⟩
  rw [damagedBlock, List.length_append, List.length_append,
    (parity_spec (p := correctRsPrimitivePolynomialCcsds) (c := 1) hcode [1, 2, 3]).1]
  rfl

section Calls

variable {m : ℕ} {encoded : List Byte}

/-- Where the last syndrome alone is not zero, the locator has a term of the order `n`, and the
tables of powers end before it. -/
theorem decodeCall_outOfBounds (h : ValidCode g n) (hn : n ≤ encoded.length)
    (hlength : encoded.length ≤ 255) (hlast : OnlyLastSyndrome p c g n encoded)
    (buffers : DecoderBuffers 255 n) (msg : Block Byte m) (hm : encoded.length - n ≤ m) :
    decodeCall (decodingReedSolomonCreate p c g n) buffers encoded msg = .error .outOfBounds := by
  obtain ⟨outcome, hdecodes, hcall⟩ := decodeCall_spec (p := p) (c := c) h hn hlength
  rw [hcall m buffers msg hm]
  have hpos := h.pos
  cases hdecodes with
  | intact hvanish => exact absurd (hvanish (n - 1) (by omega)) hlast.2
  | outOfBounds _ => rfl
  | notFactorized hshortest hlt _ =>
      exact absurd (hlast.le_length hpos hshortest.toGenerates) (Nat.not_le.mpr hlt)
  | corrected hshortest hlt _ _ _ =>
      exact absurd (hlast.le_length hpos hshortest.toGenerates) (Nat.not_le.mpr hlt)

/-- **Faults.** This is the one way in which a call leaves its arrays. -/
theorem decodeCall_error_iff (h : ValidCode g n) (hn : n ≤ encoded.length)
    (hlength : encoded.length ≤ 255) (buffers : DecoderBuffers 255 n) (msg : Block Byte m)
    (hm : encoded.length - n ≤ m) (fault : Fault) :
    decodeCall (decodingReedSolomonCreate p c g n) buffers encoded msg = .error fault ↔
      fault = .outOfBounds ∧ OnlyLastSyndrome p c g n encoded := by
  constructor
  · intro herror
    obtain ⟨outcome, hdecodes, hcall⟩ := decodeCall_spec (p := p) (c := c) h hn hlength
    rw [hcall m buffers msg hm] at herror
    cases hdecodes with
    | outOfBounds hlast =>
        rw [Except.map_error, Except.error.injEq] at herror
        exact ⟨herror.symm, hlast⟩
    | intact _ => contradiction
    | notFactorized _ _ _ => contradiction
    | corrected _ _ _ _ _ => contradiction
  · rintro ⟨rfl, hlast⟩
    exact decodeCall_outOfBounds h hn hlength hlast buffers msg hm

theorem decodeCall_error_iff_damagedBlock :
    decodeCall (decodingReedSolomonCreate correctRsPrimitivePolynomialCcsds 1 1 32) usedBuffers
        damagedBlock (Block.fill 8 0) = .error .outOfBounds ↔
      Fault.outOfBounds = .outOfBounds ∧
        OnlyLastSyndrome correctRsPrimitivePolynomialCcsds 1 1 32 damagedBlock :=
  decodeCall_error_iff ⟨by decide, by decide, by decide⟩ (by rw [length_damagedBlock]; decide)
    (by rw [length_damagedBlock]; decide) usedBuffers (Block.fill 8 0)
    (by rw [length_damagedBlock]; decide) .outOfBounds

end Calls

/-- The encoder writes the message and its check bytes to the front of the buffer. -/
theorem correctReedSolomonEncode_eq (h : ValidCode g n) {message : List Byte} {k : ℕ}
    (hmessage : message.length + n ≤ 255) (hroom : message.length + n ≤ k)
    (encoded : Block Byte k) :
    ∃ written, correctReedSolomonEncode (correctReedSolomonCreate p c g n) message message.length
        encoded = .ok (255, written) ∧
      written.cells = overwrite encoded.cells 0
        (message ++ (correctReedSolomonCreate p c g n).parity message) := by
  obtain ⟨parity, hparity⟩ : ∃ parity,
      (correctReedSolomonCreate p c g n).parity message = parity := ⟨_, rfl⟩
  have hsize : parity.length = n := by rw [← hparity, (parity_spec h message).1]
  have hfits : ¬ message.length > (correctReedSolomonCreate p c g n).messageLength := by
    have hlength : (correctReedSolomonCreate p c g n).messageLength = 255 - n := rfl
    omega
  obtain ⟨first, hfirst, hfirstCells⟩ := @Block.memcpy_of_le _ k encoded 0 message.length message
    le_rfl (by omega)
  obtain ⟨written, hwritten, hcells⟩ := @Block.memcpy_of_le _ k first message.length n parity
    (Nat.le_of_eq hsize.symm) hroom
  have hdistance : (correctReedSolomonCreate p c g n).minDistance = n := rfl
  refine ⟨written, ?_, ?_⟩
  · rw [correctReedSolomonEncode, if_neg hfits, if_neg (Nat.lt_irrefl _)]
    simp only [List.take_length, hparity, hfirst, ok_bind, hdistance, hwritten]
    rfl
  · rw [hcells, hfirstCells, hparity, List.take_length, ← hsize, List.take_length,
      overwrite_overwrite]

/-- **Round trip.** A message of any length that fits comes back from its block when at most half
as many bytes are wrong as there are check bytes, wherever they are and whatever the decoder has
worked on before. -/
theorem encode_decode (h : ValidCode g n) {message : List Byte} {k : ℕ}
    (hmessage : message.length + n ≤ 255) (hroom : message.length + n ≤ k)
    (encoded : Block Byte k) :
    ∃ written, correctReedSolomonEncode (correctReedSolomonCreate p c g n) message message.length
        encoded = .ok (255, written) ∧
      ∀ (received : List Byte), received.length = message.length + n →
        2 * wrongBytes (written.cells.take (message.length + n)) received ≤ n →
        ∀ (m : ℕ) (buffers : DecoderBuffers 255 n) (msg : Block Byte m), message.length ≤ m →
          decodeCall (decodingReedSolomonCreate p c g n) buffers received msg =
            .ok (message.length, overwrite msg.cells 0 message) := by
  obtain ⟨written, hencode, hcells⟩ := correctReedSolomonEncode_eq (p := p) (c := c) h hmessage
    hroom encoded
  obtain ⟨parity, hparity⟩ : ∃ parity,
      (correctReedSolomonCreate p c g n).parity message = parity := ⟨_, rfl⟩
  have hsize : parity.length = n := by rw [← hparity, (parity_spec h message).1]
  have hsent : (message ++ parity).length = message.length + n := by
    rw [List.length_append, hsize]
  have hfront : written.cells.take (message.length + n) = message ++ parity := by
    rw [hcells, hparity, ← hsent, take_overwrite_zero]
  refine ⟨written, hencode, fun received hlength hwrong m buffers msg hm => ?_⟩
  rw [hfront] at hwrong
  have hvanish : VanishesAtRoots p c g n (message ++ parity) :=
    (vanishesAtRoots_append_iff h message hsize).mpr hparity.symm
  rw [decodeCall_corrects h hvanish (by omega) (by omega) (hlength.trans hsent.symm) hwrong buffers
    msg (by omega), hsent, Nat.add_sub_cancel, List.take_left, Nat.cast_add, add_sub_cancel_right]

/-- Three bytes, with gaps of 11 between 16 roots. -/
theorem encode_decode_short :
    ∃ written, correctReedSolomonEncode
        (correctReedSolomonCreate correctRsPrimitivePolynomialCcsds 112 11 16) [1, 2, 3] 3
        (Block.fill 19 0) = .ok (255, written) ∧
      ∀ (received : List Byte), received.length = 3 + 16 →
        2 * wrongBytes (written.cells.take (3 + 16)) received ≤ 16 →
        ∀ (m : ℕ) (buffers : DecoderBuffers 255 16) (msg : Block Byte m), 3 ≤ m →
          decodeCall (decodingReedSolomonCreate correctRsPrimitivePolynomialCcsds 112 11 16) buffers
              received msg = .ok ((3 : ℕ), overwrite msg.cells 0 [1, 2, 3]) :=
  encode_decode ⟨by decide, by decide, by decide⟩ (by decide) (by decide) (Block.fill 19 0)

/-! ## Rows of calls -/

section Rows

variable {m : ℕ}

/-- Calls in a row. Each finds the working arrays as the one before has left them. -/
def decodeCalls (rs : DecodingReedSolomon) :
    DecoderBuffers 255 n → List (List Byte × Block Byte m) → Except Fault (List (ℤ × List Byte))
  | _, [] => return []
  | buffers, (encoded, msg) :: calls => do
      let (result, buffers, msg) ← correctReedSolomonDecode rs buffers encoded encoded.length msg
      return (result, msg.cells) :: (← decodeCalls rs buffers calls)

/-- **Rows of calls.** Every call reports what it would report on any other arrays. -/
theorem decodeCalls_eq_mapM (h : ValidCode g n) (fresh buffers : DecoderBuffers 255 n)
    (calls : List (List Byte × Block Byte m))
    (hcalls : ∀ call ∈ calls, n ≤ call.1.length ∧ call.1.length ≤ 255 ∧ call.1.length - n ≤ m) :
    decodeCalls (decodingReedSolomonCreate p c g n) buffers calls =
      calls.mapM fun call =>
        decodeCall (decodingReedSolomonCreate p c g n) fresh call.1 call.2 := by
  induction calls generalizing buffers with
  | nil => rfl
  | cons call calls ih =>
      obtain ⟨encoded, msg⟩ := call
      obtain ⟨hn, hlength, hm⟩ := hcalls (encoded, msg) List.mem_cons_self
      obtain ⟨outcome, -, hcall⟩ := decodeCall_spec (p := p) (c := c) h hn hlength
      have hsame : decodeCall (decodingReedSolomonCreate p c g n) fresh encoded msg =
          decodeCall (decodingReedSolomonCreate p c g n) buffers encoded msg := by
        rw [hcall m fresh msg hm, hcall m buffers msg hm]
      rw [List.mapM_cons, hsame, decodeCall, decodeCalls]
      cases correctReedSolomonDecode (decodingReedSolomonCreate p c g n) buffers encoded
        encoded.length msg with
      | error fault => rfl
      | ok returned =>
          obtain ⟨result, buffers', msg'⟩ := returned
          have hrest := ih buffers' fun call hcall => hcalls call (List.mem_cons_of_mem _ hcall)
          simp only [ok_bind, hrest]
          rfl

end Rows

/-- A damaged block on used arrays, and one of zeros on those that it leaves. -/
theorem decodeCalls_eq_mapM_damagedBlock :
    let calls := [(damagedBlock, Block.fill 8 (0 : Byte)), (List.replicate 40 0, Block.fill 8 0)]
    decodeCalls (decodingReedSolomonCreate correctRsPrimitivePolynomialCcsds 1 1 32) usedBuffers
        calls =
      calls.mapM fun call =>
        decodeCall (decodingReedSolomonCreate correctRsPrimitivePolynomialCcsds 1 1 32)
          (zeroBuffers 32) call.1 call.2 := by
  have hlength := length_damagedBlock
  refine decodeCalls_eq_mapM ⟨by decide, by decide, by decide⟩ (zeroBuffers 32) usedBuffers _
    fun call hcall => ?_
  rcases List.mem_pair.mp hcall with rfl | rfl
  · refine ⟨?_, ?_, ?_⟩ <;> simp only <;> omega
  · exact ⟨by decide, by decide, by decide⟩

end ObcGsInterface
