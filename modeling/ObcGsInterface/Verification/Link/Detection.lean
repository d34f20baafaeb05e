import ObcGsInterface.Verification.Link.Frames
import ObcGsInterface.Verification.Pipeline.Checksum

/-! # Errors that the checksum detects

The difference of two packets of one length is a polynomial, and if one of them passes the
check then the other passes it exactly when the generator divides that polynomial. The bits of
the check sequence are sent in reverse: bit `j` of it has the weight `X ^ j`. -/

namespace ObcGsInterface

open CArray BitStream ShiftRegister BinaryPolynomial BigEndian Polynomial UnstuffedAx25IFrame

/-- `ax25Recv` returns success. -/
def Takes (s : LinkState) (packet : UnstuffedAx25IFrame) (command : Option UFrameCmd) : Prop :=
  ∃ result, ax25Recv s (some packet) command = .ok result ∧ result.err = .success

/-- `ax25Recv` returns an error. -/
def Rejects (s : LinkState) (packet : UnstuffedAx25IFrame) (command : Option UFrameCmd) : Prop :=
  ∃ result, ax25Recv s (some packet) command = .ok result ∧ result.err ≠ .success

theorem Takes.accepted {s : LinkState} {packet : UnstuffedAx25IFrame} {command : Option UFrameCmd}
    (h : Takes s packet command) : packet.Accepted := by
  rcases h with ⟨result, hrun, hsuccess⟩
  by_contra hrejected
  rcases ax25Recv_of_not_accepted hrejected s command with ⟨err, hrun', herr⟩
  rw [hrun', Except.ok.injEq] at hrun
  rw [← hrun] at hsuccess
  exact herr hsuccess

theorem rejects_of_not_accepted {packet : UnstuffedAx25IFrame} (h : ¬ packet.Accepted)
    (s : LinkState) (command : Option UFrameCmd) : Rejects s packet command := by
  rcases ax25Recv_of_not_accepted h s command with ⟨err, hrun, herr⟩
  exact ⟨_, hrun, herr⟩

/-! ## Differences -/

/-- A bit of a packet, in the order in which the bits are sent. -/
def UnstuffedAx25IFrame.bit (packet : UnstuffedAx25IFrame) (i : ℕ) : Bool :=
  bitAt packet.data.cells i

/-- The bits in which two packets of one length differ. -/
def differingBits (packet modified : UnstuffedAx25IFrame) : Finset ℕ :=
  (Finset.range (8 * packet.length)).filter fun i => packet.bit i ≠ modified.bit i

/-- The bits from byte 1 up to the closing flag. -/
def contentRange (packet : UnstuffedAx25IFrame) : Finset ℕ :=
  Finset.Ico 8 (8 * (packet.length - 1))

theorem mem_differingBits {packet modified : UnstuffedAx25IFrame} {i : ℕ}
    (hi : i ∈ contentRange packet) :
    i ∈ differingBits packet modified ↔ (packet.bit i ^^ modified.bit i) = true := by
  rw [contentRange, Finset.mem_Ico] at hi
  rw [differingBits, Finset.mem_filter, Finset.mem_range, bne_iff_ne]
  constructor
  · exact And.right
  · exact fun h => ⟨by omega, h⟩

/-- The power of `X` that belongs to a bit of a packet of `length` bytes. -/
def weight (length i : ℕ) : ℕ :=
  if i < 8 * (length - 3) then 8 * (length - 3) + 15 - i else i - 8 * (length - 3)

/-- The exponents of the polynomial of a difference. -/
def syndrome (packet modified : UnstuffedAx25IFrame) : Finset ℕ :=
  (differingBits packet modified).image (weight packet.length)

/-- The check sequence in a packet. -/
def UnstuffedAx25IFrame.checkWord (packet : UnstuffedAx25IFrame) : BitVec 16 :=
  join16 (packet.byte (packet.length - 3)) (packet.byte (packet.length - 2))

/-- The bytes of a packet under the checksum. -/
def UnstuffedAx25IFrame.covered (packet : UnstuffedAx25IFrame) : List Byte :=
  packet.field 1 (packet.length - 4)

theorem bitAt_zipWith {xs ys : List Byte} (h : xs.length = ys.length) (i : ℕ) :
    bitAt (List.zipWith (· ^^^ ·) xs ys) i = (bitAt xs i ^^ bitAt ys i) := by
  unfold bitAt
  rw [List.getElem?_zipWith]
  by_cases hi : i / 8 < xs.length
  · rw [List.getElem?_eq_getElem hi, List.getElem?_eq_getElem (h ▸ hi)]
    simp [BitVec.getMsbD_xor]
  · rw [List.getElem?_eq_none (by omega), List.getElem?_eq_none (by omega)]
    simp

theorem reverseUint16_xor (x y : BitVec 16) :
    reverseUint16 (x ^^^ y) = reverseUint16 x ^^^ reverseUint16 y := by
  apply BitVec.eq_of_getLsbD_eq
  intro j hj
  rw [BitVec.getLsbD_xor, getLsbD_reverseUint16 _ hj, getLsbD_reverseUint16 _ hj,
    getLsbD_reverseUint16 _ hj, BitVec.getLsbD_xor]

section Packet

variable {packet modified : UnstuffedAx25IFrame}

theorem length_covered (hle : packet.length ≤ ax25MinimumIFrameLen) :
    packet.covered.length = packet.length - 4 := by
  have hmax : ax25MinimumIFrameLen = 275 := rfl
  rw [covered, field, List.length_take, List.length_drop, Block.length_cells]
  omega

theorem bitAt_covered {i : ℕ} (hi : i < 8 * (packet.length - 4)) :
    bitAt packet.covered i = packet.bit (8 + i) := by
  have hbyte : (8 + i) / 8 = 1 + i / 8 := by omega
  have hbit : (8 + i) % 8 = i % 8 := by omega
  rw [covered, field, bit, bitAt, bitAt, List.getElem?_take_of_lt (by omega), List.getElem?_drop,
    hbyte, hbit]

/-- A bit of the check sequence, and where it is sent. -/
theorem getLsbD_reverse_checkWord (hge : ax25MinimumUFrameCmdLength ≤ packet.length) {j : ℕ}
    (hj : j < 16) :
    (reverseUint16 packet.checkWord).getLsbD j = packet.bit (8 * (packet.length - 3) + j) := by
  have hmin : ax25MinimumUFrameCmdLength = 19 := rfl
  rw [getLsbD_reverseUint16 _ hj, checkWord, getLsbD_join16 _ _ hj, bit, bitAt, bitAt]
  rcases Nat.lt_or_ge j 8 with h | h
  · have hbyte : (8 * (packet.length - 3) + j) / 8 = packet.length - 3 := by omega
    have hbit : (8 * (packet.length - 3) + j) % 8 = j % 8 := by omega
    rw [hbyte, hbit, Nat.div_eq_of_lt h]
    rfl
  · have hbyte : (8 * (packet.length - 3) + j) / 8 = packet.length - 2 := by omega
    have hbit : (8 * (packet.length - 3) + j) % 8 = j % 8 := by omega
    have hone : j / 8 = 1 := by omega
    rw [hbyte, hbit, hone]
    rfl

/-- The bit of a packet of `length` bytes that a power of `X` belongs to. -/
def place (length n : ℕ) : ℕ :=
  if n < 16 then 8 * (length - 3) + n else 8 * (length - 3) + 15 - n

theorem mem_syndrome (hge : ax25MinimumUFrameCmdLength ≤ packet.length)
    (hcontent : differingBits packet modified ⊆ contentRange packet) {n : ℕ} :
    n ∈ syndrome packet modified ↔
      n < 8 * (packet.length - 2) ∧ place packet.length n ∈ differingBits packet modified := by
  have hmin : ax25MinimumUFrameCmdLength = 19 := rfl
  rw [syndrome, Finset.mem_image]
  constructor
  · rintro ⟨i, hi, rfl⟩
    have hrange := hcontent hi
    rw [contentRange, Finset.mem_Ico] at hrange
    have hplace : place packet.length (weight packet.length i) = i := by
      unfold place weight
      split_ifs <;> omega
    rw [hplace]
    refine ⟨?_, hi⟩
    unfold weight
    split_ifs <;> omega
  · rintro ⟨hn, hi⟩
    refine ⟨_, hi, ?_⟩
    unfold place weight
    split_ifs <;> omega

theorem weight_injOn (hcontent : differingBits packet modified ⊆ contentRange packet) :
    Set.InjOn (weight packet.length) (differingBits packet modified) := by
  intro i hi j hj heq
  have hirange := hcontent hi
  have hjrange := hcontent hj
  rw [contentRange, Finset.mem_Ico] at hirange hjrange
  unfold weight at heq
  split_ifs at heq <;> omega

/-- If a packet passes the check, another passes it exactly when their difference does. -/
theorem fcs_iff_crcOf (hlength : modified.length = packet.length) (haccepted : packet.Accepted) :
    reverseUint16 modified.checkWord = crcOf modified.covered ↔
      reverseUint16 packet.checkWord ^^^ reverseUint16 modified.checkWord =
        crcOf (List.zipWith (· ^^^ ·) packet.covered modified.covered) := by
  have hle := haccepted.length_le
  have hfcs : reverseUint16 packet.checkWord = crcOf packet.covered := haccepted.fcs
  have hcovered : packet.covered.length = modified.covered.length := by
    rw [length_covered hle, length_covered (hlength ▸ hle), hlength]
  have hxor : crcOf (List.zipWith (· ^^^ ·) packet.covered modified.covered) =
      crcOf packet.covered ^^^ crcOf modified.covered := by
    have hfold := crc16Ccitt_stepAdditive.foldl_xor 0#16 0#16 hcovered
    rwa [BitVec.xor_self] at hfold
  rw [hxor, hfcs, BitVec.xor_right_inj]

/-- The coefficients of the polynomial of a difference. -/
theorem digit_syndrome (hge : ax25MinimumUFrameCmdLength ≤ packet.length)
    (hcontent : differingBits packet modified ⊆ contentRange packet) {n : ℕ}
    (hn : n < 8 * (packet.length - 2)) :
    digit (decide (n ∈ syndrome packet modified)) =
      digit (packet.bit (place packet.length n) ^^ modified.bit (place packet.length n)) := by
  have hmin : ax25MinimumUFrameCmdLength = 19 := rfl
  have hrange : place packet.length n ∈ contentRange packet := by
    rw [contentRange, Finset.mem_Ico]
    unfold place
    split_ifs <;> omega
  congr 1
  rw [Bool.eq_iff_iff, decide_eq_true_iff, mem_syndrome hge hcontent, and_iff_right hn,
    mem_differingBits hrange]

variable (hlength : modified.length = packet.length)
  (hcontent : differingBits packet modified ⊆ contentRange packet)

include hlength hcontent

/-- The polynomial of a difference consists of that of the data, 16 places up, and that of the
check sequence in reverse. -/
theorem pattern_syndrome (hge : ax25MinimumUFrameCmdLength ≤ packet.length)
    (hle : packet.length ≤ ax25MinimumIFrameLen) :
    pattern (syndrome packet modified) =
      ofBits (bits (List.zipWith (· ^^^ ·) packet.covered modified.covered)) * X ^ 16 +
        ofWord (reverseUint16 packet.checkWord ^^^ reverseUint16 modified.checkWord) := by
  have hmin : ax25MinimumUFrameCmdLength = 19 := rfl
  have hcovered := length_covered hle
  have hcovered' : modified.covered.length = modified.length - 4 :=
    length_covered (hlength ▸ hle)
  have hbits : (bits (List.zipWith (· ^^^ ·) packet.covered modified.covered)).length =
      8 * (packet.length - 4) := by
    rw [length_bits, List.length_zipWith, hcovered, hcovered', hlength, Nat.min_self]
  have hdiff {n : ℕ} := digit_syndrome hge hcontent (n := n)
  ext n
  rw [coeff_pattern, coeff_add, coeff_mul_X_pow', coeff_ofBits, hbits, coeff_ofWord,
    BitVec.getLsbD_xor]
  rcases Nat.lt_or_ge n 16 with hn | hn
  · rw [hdiff (by omega), if_neg (Nat.not_le.mpr hn), zero_add, getLsbD_reverse_checkWord hge hn,
      getLsbD_reverse_checkWord (hlength ▸ hge) hn, hlength, place, if_pos hn]
  · rw [if_pos hn, BitVec.getLsbD_of_ge _ n hn, BitVec.getLsbD_of_ge _ n hn, Bool.xor_false,
      digit_false, add_zero]
    by_cases hlt : n < 8 * (packet.length - 2)
    · have hindex : 8 * (packet.length - 4) - 1 - (n - 16) < 8 * (packet.length - 4) := by omega
      have hbyte : 8 + (8 * (packet.length - 4) - 1 - (n - 16)) =
          8 * (packet.length - 3) + 15 - n := by
        omega
      rw [hdiff hlt, getElem?_bits _ (by rwa [← length_bits, hbits]), Option.getD_some,
        bitAt_zipWith (by rw [hcovered, hcovered', hlength]), bitAt_covered hindex,
        bitAt_covered (hlength ▸ hindex), hbyte, place, if_neg (Nat.not_lt.mpr hn),
        decide_eq_true (by omega), Bool.true_and]
    · have hout : n ∉ syndrome packet modified := fun hin =>
        hlt ((mem_syndrome hge hcontent).mp hin).1
      rw [decide_eq_false hout, decide_eq_false (by omega), Bool.false_and]

/-- If a packet passes the check, another passes it exactly when the generator divides their
difference. -/
theorem fcs_iff_dvd (haccepted : packet.Accepted) :
    reverseUint16 modified.checkWord = crcOf modified.covered ↔
      generator 0x1021#16 ∣ pattern (syndrome packet modified) := by
  rw [fcs_iff_crcOf hlength haccepted,
    pattern_syndrome hlength hcontent haccepted.length_ge haccepted.length_le,
    ← checksum_eq_iff _ (by decide), ← crcOf_eq_foldl]

theorem not_accepted_of_not_dvd (haccepted : packet.Accepted)
    (hdvd : ¬ generator 0x1021#16 ∣ pattern (syndrome packet modified)) : ¬ modified.Accepted :=
  fun h => hdvd ((fcs_iff_dvd hlength hcontent haccepted).mp h.fcs)

end Packet

/-! ## Single bits -/

/-- The generator has four terms. -/
theorem eval_generator : (generator 0x1021#16).eval 1 = 0 := by
  rw [generator_ccitt]
  simp only [eval_add, eval_pow, eval_X, eval_one, one_pow]
  decide

/-- A one that is shifted through the register does not come around within a packet. -/
theorem register_avoidsOne : avoidsOne 0x1021#16 2184 1 = true := by decide +kernel

/-- Up to three bits, wherever they are, leave a polynomial that the generator does not
divide. -/
theorem not_dvd_syndrome_of_card {packet modified : UnstuffedAx25IFrame}
    (hcontent : differingBits packet modified ⊆ contentRange packet)
    (haccepted : packet.Accepted)
    (hcard : (differingBits packet modified).card ∈ Finset.Icc 1 3) :
    ¬ generator 0x1021#16 ∣ pattern (syndrome packet modified) := by
  have hmax : ax25MinimumIFrameLen = 275 := rfl
  have hle := haccepted.length_le
  have hsyndrome : (syndrome packet modified).card = (differingBits packet modified).card :=
    Finset.card_image_of_injOn (weight_injOn hcontent)
  rw [Finset.mem_Icc, ← hsyndrome] at hcard
  rcases Nat.even_or_odd (syndrome packet modified).card with heven | hodd
  · obtain ⟨i, j, hne, hpair⟩ := Finset.card_eq_two.mp
      (show (syndrome packet modified).card = 2 by
        rcases heven with ⟨k, hk⟩
        omega)
    have hi := (mem_syndrome haccepted.length_ge hcontent).mp
      (hpair ▸ Finset.mem_insert_self i {j} : i ∈ syndrome packet modified)
    have hj := (mem_syndrome haccepted.length_ge hcontent).mp
      (hpair ▸ Finset.mem_insert_of_mem (Finset.mem_singleton_self j) :
        j ∈ syndrome packet modified)
    rw [hpair]
    rcases Nat.lt_or_gt_of_ne hne with hlt | hlt
    · rcases Nat.exists_eq_add_of_lt hlt with ⟨k, rfl⟩
      exact not_dvd_of_pair (by decide) (by decide) register_avoidsOne (by omega)
    · rcases Nat.exists_eq_add_of_lt hlt with ⟨k, rfl⟩
      rw [Finset.pair_comm]
      exact not_dvd_of_pair (by decide) (by decide) register_avoidsOne (by omega)
  · exact not_dvd_of_odd eval_generator hodd

/-- **One, two or three flipped bits are detected**, wherever between the flags they are. -/
theorem rejects_three_bits {s : LinkState} {packet modified : UnstuffedAx25IFrame}
    {command : Option UFrameCmd} (htaken : Takes s packet command)
    (hlength : modified.length = packet.length)
    (hcontent : differingBits packet modified ⊆ contentRange packet)
    (hcard : (differingBits packet modified).card ∈ Finset.Icc 1 3) :
    Rejects s modified command := by
  have haccepted := htaken.accepted
  exact rejects_of_not_accepted (not_accepted_of_not_dvd hlength hcontent haccepted
    (not_dvd_syndrome_of_card hcontent haccepted hcard)) s command

/-- A packet with bytes flipped from `pos` on. -/
def UnstuffedAx25IFrame.damaged (packet : UnstuffedAx25IFrame) (pos : ℕ) (damage : List Byte) :
    UnstuffedAx25IFrame where
  data :=
    { cells := packet.data.cells.mapIdx fun i byte =>
        if pos ≤ i then byte ^^^ damage[i - pos]?.getD 0 else byte
      length_cells := by simp }
  length := packet.length

theorem takes_groundSabm : Takes LinkState.initial groundSabm none := by
  have hknown : groundSabm.uControl ∈ uFrameControls := by
    rw [groundSabm_control]
    decide
  refine ⟨⟨.success, some .conn, LinkState.initial.connected⟩, ?_, rfl⟩
  rw [ax25Recv_of_uFrame groundSabm_accepted hknown, uFrameRecv_eq, if_pos groundSabm_control]

theorem differingBits_groundSabm :
    differingBits groundSabm ((groundSabm.damaged 1 [0x80]).damaged 15 [0x01, 0x10]) =
      {8, 127, 131} := by
  decide +kernel

/-- A SABM with a bit flipped in its destination, its control byte and its check sequence. -/
theorem rejects_three_bits_groundSabm :
    Rejects LinkState.initial
      ((groundSabm.damaged 1 [0x80]).damaged 15 [0x01, 0x10]) none :=
  rejects_three_bits takes_groundSabm rfl (by rw [differingBits_groundSabm]; decide)
    (by rw [differingBits_groundSabm]; decide)

/-! ## What is taken -/

/-- The control bytes that `sFrameRecv` knows. -/
def sFrameControls : List Byte :=
  [ax25SFrameRrControl, ax25SFrameRnrControl, ax25SFrameRejControl, ax25SFrameSrejControl]

/-- What the handler of its frame type asks of a packet that has passed the checks. -/
def HandlerTakes (s : LinkState) (packet : UnstuffedAx25IFrame) : Prop :=
  if packet.control &&& 0x01 = 0 then
    packet.source = groundSource ∧
      (packet.byte ax25Mod8PidPosition = ax25Pid ∨ packet.byte ax25Mod8PidPosition = 0)
  else if packet.control &&& ((0x01 : Byte) <<< 1) ≠ 0 then
    packet.uControl = ax25UFrameSabmCmdControl ∨
      (packet.uControl = ax25UFrameDiscCmdControl ∨ packet.uControl = ax25UFrameAckCmdControl) ∧
        sourceIsLink s packet
  else
    packet.source = groundSource ∧ packet.byte ax25Mod8PidPosition = ax25Pid ∧
      packet.control ∈ sFrameControls

theorem iFrameRecv_success (s : LinkState) (packet : UnstuffedAx25IFrame)
    (command : Option UFrameCmd) :
    (∃ result, iFrameRecv s packet command = .ok result ∧ result.err = .success) ↔
      packet.source = groundSource ∧
        (packet.byte ax25Mod8PidPosition = ax25Pid ∨ packet.byte ax25Mod8PidPosition = 0) := by
  rw [iFrameRecv_eq]
  simp only [Except.ok.injEq, exists_eq_left']
  split_ifs with hsource hpid
  · simp [hsource]
  · simpa [not_or] using fun _ => hpid
  · have hsource := not_not.mp hsource
    have hpid := not_and_or.mp hpid
    simpa [hsource, not_not] using hpid

theorem uFrameRecv_success (s : LinkState) (packet : UnstuffedAx25IFrame)
    (command : Option UFrameCmd) :
    (∃ result, uFrameRecv s packet command = .ok result ∧ result.err = .success) ↔
      packet.uControl = ax25UFrameSabmCmdControl ∨
        (packet.uControl = ax25UFrameDiscCmdControl ∨ packet.uControl = ax25UFrameAckCmdControl) ∧
          sourceIsLink s packet := by
  have hne : ax25UFrameDiscCmdControl ≠ ax25UFrameSabmCmdControl := by decide
  rw [uFrameRecv_eq]
  simp only [Except.ok.injEq, exists_eq_left']
  split_ifs with hsabm hdisc hlink hack hlink <;> simp_all

theorem sFrameRecv_success (s : LinkState) (packet : UnstuffedAx25IFrame)
    (command : Option UFrameCmd) :
    (∃ result, sFrameRecv s packet command = .ok result ∧ result.err = .success) ↔
      packet.source = groundSource ∧ packet.byte ax25Mod8PidPosition = ax25Pid ∧
        packet.control ∈ sFrameControls := by
  have hfield : packet.field ax25SrcAddrPosition ax25SrcAddrBytes = packet.source := rfl
  have hcontrol : packet.byte (ax25AddressBytes + 1) = packet.control := rfl
  simp only [sFrameRecv, groundStationSrcAddr_eq, ok_bind, hfield,
    packet.load_byte (show ax25Mod8PidPosition < ax25MinimumIFrameLen by decide),
    packet.load_byte (show ax25AddressBytes + 1 < ax25MinimumIFrameLen by decide), hcontrol,
    pure_eq_ok, sFrameControls]
  split_ifs with hsource hpid hknown <;> simp_all

/-- The packets that `ax25Recv` takes. -/
theorem takes_iff {s : LinkState} {packet : UnstuffedAx25IFrame} {command : Option UFrameCmd} :
    Takes s packet command ↔ packet.Accepted ∧ HandlerTakes s packet := by
  constructor
  · intro h
    have haccepted := h.accepted
    refine ⟨haccepted, ?_⟩
    rw [Takes, ax25Recv_of_accepted haccepted, dispatch] at h
    unfold HandlerTakes
    split_ifs at h ⊢
    · exact (iFrameRecv_success s packet command).mp h
    · exact (uFrameRecv_success s packet command).mp h
    · exact (sFrameRecv_success s packet command).mp h
  · rintro ⟨haccepted, hhandler⟩
    rw [Takes, ax25Recv_of_accepted haccepted, dispatch]
    unfold HandlerTakes at hhandler
    split_ifs at hhandler ⊢
    · exact (iFrameRecv_success s packet command).mpr hhandler
    · exact (uFrameRecv_success s packet command).mpr hhandler
    · exact (sFrameRecv_success s packet command).mpr hhandler

theorem rejects_iff {s : LinkState} {packet : UnstuffedAx25IFrame} {command : Option UFrameCmd} :
    Rejects s packet command ↔ ¬ Takes s packet command := by
  rcases ax25Recv_received s packet command with ⟨result, hrun, -⟩
  simp only [Rejects, Takes, hrun, Except.ok.injEq, exists_eq_left', ne_eq]

end ObcGsInterface
