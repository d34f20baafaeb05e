import ObcGsInterface.Verification.Link.Detection

/-! # Bursts

A checksum sees every burst that is not longer than its register, if the check bits follow the
data in the order of their weights. Here they follow in the opposite order, and seven bursts
across the end of the data go unseen. -/

namespace ObcGsInterface

open CArray BitStream ShiftRegister BinaryPolynomial BigEndian Polynomial UnstuffedAx25IFrame

/-- The packets differ, in bits that lie within 16 neighbouring ones between the flags. -/
structure Burst (packet modified : UnstuffedAx25IFrame) : Prop where
  nonempty : (differingBits packet modified).Nonempty
  window : ∃ start, Finset.Ico start (start + 16) ⊆ contentRange packet ∧
    differingBits packet modified ⊆ Finset.Ico start (start + 16)

/-- The difference of two packets in one byte. -/
def differenceAt (packet modified : UnstuffedAx25IFrame) (i : ℕ) : Byte :=
  packet.byte i ^^^ modified.byte i

/-- The difference of two packets in the last two bytes under the checksum and in the check
sequence. -/
def endDifference (packet modified : UnstuffedAx25IFrame) : List Byte :=
  [differenceAt packet modified (packet.length - 5),
    differenceAt packet modified (packet.length - 4),
    differenceAt packet modified (packet.length - 3),
    differenceAt packet modified (packet.length - 2)]

/-- The bursts across the end of the data that the checksum does not see. -/
def undetectedBursts : List (List Byte) :=
  [[0x00, 0x01, 0x84, 0x08], [0x00, 0x02, 0x42, 0x04], [0x00, 0x03, 0xC6, 0x0C],
    [0x00, 0x11, 0x08, 0x40], [0x00, 0x89, 0x85, 0x00], [0x02, 0xBC, 0xAC, 0x00],
    [0x2A, 0xC3, 0x40, 0x00]]

/-! ## Two bytes and their checksum -/

theorem crcOf_zeros_append (n : ℕ) (bytes : List Byte) :
    crcOf (List.replicate n 0 ++ bytes) = crcOf bytes := by
  induction n with
  | zero => rfl
  | succ n ih => exact ih

/-- The two data bytes and the check sequence of an error that the checksum does not see. -/
def unseen (data crc : BitVec 16) : List Byte := bytes16 data ++ bytes16 (reverseUint16 crc)

/-- The error spans more than 16 bits, or it is one of the listed ones. -/
def LongOrListed (data crc : BitVec 16) : Prop :=
  data = 0#16 ∨ 14 < Nat.log2 data.toNat + Nat.log2 crc.toNat ∨ unseen data crc ∈ undetectedBursts

instance (data crc : BitVec 16) : Decidable (LongOrListed data crc) :=
  inferInstanceAs (Decidable (_ ∨ _ ∨ _))

theorem longOrListed_of_data_lt :
    ∀ n < 2 ^ 8, LongOrListed (BitVec.ofNat 16 n) (crcOf (bytes16 (BitVec.ofNat 16 n))) := by
  decide +kernel

theorem longOrListed_of_crc_lt :
    ∀ n < 2 ^ 7, LongOrListed (unshift^[16] (BitVec.ofNat 16 n)) (BitVec.ofNat 16 n) := by
  decide +kernel

/-- Either the data part of a burst across the end of the data is short, or the part in the
check sequence is. -/
theorem unseen_mem_undetectedBursts {data : BitVec 16} (hne : data ≠ 0#16) {k : ℕ} (hpos : 0 < k)
    (hlt : k < 16) (hdata : data.toNat < 2 ^ k)
    (hcrc : (crcOf (bytes16 data)).toNat < 2 ^ (16 - k)) :
    unseen data (crcOf (bytes16 data)) ∈ undetectedBursts := by
  have hlisted : LongOrListed data (crcOf (bytes16 data)) := by
    rcases Nat.lt_or_ge k 9 with hk | hk
    · have hsmall := longOrListed_of_data_lt data.toNat
        (hdata.trans_le (Nat.pow_le_pow_right (by decide) (by omega)))
      rwa [BitVec.ofNat_toNat, BitVec.setWidth_eq] at hsmall
    · have hlt := hcrc.trans_le (Nat.pow_le_pow_right (by decide) (by omega : 16 - k ≤ 7))
      have hsmall := longOrListed_of_crc_lt (crcOf (bytes16 data)).toNat hlt
      have hinverse := crcOf_unshift (crcOf (bytes16 data)).toNat (hlt.trans (by decide))
      rw [BitVec.ofNat_toNat, BitVec.setWidth_eq] at hinverse hsmall
      rwa [crcOf_bytes16_injective hinverse] at hsmall
  have hdataNe : data.toNat ≠ 0 := fun h => hne (BitVec.eq_of_toNat_eq h)
  have hdataLog := (Nat.log2_lt hdataNe).mpr hdata
  have hcrcLog : Nat.log2 (crcOf (bytes16 data)).toNat < 16 - k := by
    rcases Nat.eq_zero_or_pos (crcOf (bytes16 data)).toNat with hzero | hcrcPos
    · rw [hzero]
      exact Nat.sub_pos_of_lt hlt
    · exact (Nat.log2_lt (Nat.ne_of_gt hcrcPos)).mpr hcrc
  rcases hlisted with hzero | hlong | hmem
  · exact absurd hzero hne
  · omega
  · exact hmem

/-- The data parts of the listed errors. -/
def undetectedData : List (BitVec 16) := [0x1, 0x2, 0x3, 0x11, 0x89, 0x2BC, 0x2AC3]

/-- The listed errors are indeed not seen. -/
theorem undetectedBursts_eq :
    undetectedBursts = undetectedData.map fun data => unseen data (crcOf (bytes16 data)) := by
  decide +kernel

theorem zero_not_mem_undetectedData : 0#16 ∉ undetectedData := by decide

theorem crcOf_bytes16_zero : crcOf (bytes16 0#16) = 0#16 := rfl

theorem unseen_injective {data data' crc crc' : BitVec 16}
    (h : unseen data crc = unseen data' crc') :
    data = data' ∧ crc = crc' := by
  rcases List.append_inj h rfl with ⟨hdata, hcrc⟩
  have hjoin {x y : BitVec 16} (h : bytes16 x = bytes16 y) : x = y := by
    simp only [bytes16, List.cons.injEq, and_true] at h
    rw [← join16_bytes16 x, h.1, h.2, join16_bytes16]
  refine ⟨hjoin hdata, ?_⟩
  rw [← reverseUint16_reverseUint16 crc, hjoin hcrc, reverseUint16_reverseUint16]

/-! ## Differences in bytes -/

section Packet

variable {packet modified : UnstuffedAx25IFrame}

/-- The difference in the last two data bytes. -/
def dataDifference (packet modified : UnstuffedAx25IFrame) : BitVec 16 :=
  join16 (differenceAt packet modified (packet.length - 5))
    (differenceAt packet modified (packet.length - 4))

/-- The difference in the check sequence, in the order of the register. -/
def crcDifference (packet modified : UnstuffedAx25IFrame) : BitVec 16 :=
  reverseUint16 (join16 (differenceAt packet modified (packet.length - 3))
    (differenceAt packet modified (packet.length - 2)))

theorem endDifference_eq_unseen :
    endDifference packet modified =
      unseen (dataDifference packet modified) (crcDifference packet modified) := by
  rw [unseen, crcDifference, reverseUint16_reverseUint16, dataDifference, bytes16_join16,
    bytes16_join16]
  rfl

theorem getMsbD_differenceAt (i : ℕ) {j : ℕ} (hj : j < 8) :
    (differenceAt packet modified i).getMsbD j =
      (packet.bit (8 * i + j) ^^ modified.bit (8 * i + j)) := by
  have hbyte : (8 * i + j) / 8 = i := by omega
  have hbit : (8 * i + j) % 8 = j := by omega
  rw [differenceAt, BitVec.getMsbD_xor, bit, bit, bitAt, bitAt, hbyte, hbit]
  rfl

theorem bitAt_differenceAt (i : ℕ) {j : ℕ} (hj : j < 16) :
    bitAt [differenceAt packet modified i, differenceAt packet modified (i + 1)] j =
      (packet.bit (8 * i + j) ^^ modified.bit (8 * i + j)) := by
  rw [bitAt]
  rcases Nat.lt_or_ge j 8 with h | h
  · rw [Nat.div_eq_of_lt h, Nat.mod_eq_of_lt h]
    exact getMsbD_differenceAt i h
  · have hdiv : j / 8 = 1 := by omega
    have hmod : j % 8 = j - 8 := by omega
    have hindex : 8 * (i + 1) + (j - 8) = 8 * i + j := by omega
    rw [hdiv, hmod, ← hindex]
    exact getMsbD_differenceAt (i + 1) (by omega)

/-- A byte without a differing bit does not differ. -/
theorem differenceAt_eq_zero {i : ℕ} (hi : 1 ≤ i) (hle : i + 2 ≤ packet.length)
    (h : ∀ k ∈ differingBits packet modified, k < 8 * i ∨ 8 * i + 8 ≤ k) :
    differenceAt packet modified i = 0 := by
  apply BitVec.eq_of_getMsbD_eq
  intro j hj
  have hrange : 8 * i + j ∈ contentRange packet := by
    rw [contentRange, Finset.mem_Ico]
    omega
  rw [getMsbD_differenceAt i hj]
  by_contra hbit
  have hmem := (mem_differingBits hrange).mpr (by simpa using hbit)
  have := h _ hmem
  omega

theorem getLsbD_dataDifference (hge : ax25MinimumUFrameCmdLength ≤ packet.length) {j : ℕ}
    (hj : j < 16) :
    (dataDifference packet modified).getLsbD (15 - j) = true ↔
      8 * (packet.length - 5) + j ∈ differingBits packet modified := by
  have hmin : ax25MinimumUFrameCmdLength = 19 := rfl
  have hnext : packet.length - 4 = packet.length - 5 + 1 := by omega
  rw [dataDifference, getLsbD_join16 _ _ hj, hnext, bitAt_differenceAt _ hj, mem_differingBits]
  rw [contentRange, Finset.mem_Ico]
  omega

theorem getLsbD_crcDifference (hge : ax25MinimumUFrameCmdLength ≤ packet.length) {j : ℕ}
    (hj : j < 16) :
    (crcDifference packet modified).getLsbD j = true ↔
      8 * (packet.length - 3) + j ∈ differingBits packet modified := by
  have hmin : ax25MinimumUFrameCmdLength = 19 := rfl
  have hnext : packet.length - 2 = packet.length - 3 + 1 := by omega
  rw [crcDifference, getLsbD_reverseUint16 _ hj, getLsbD_join16 _ _ hj, hnext,
    bitAt_differenceAt _ hj, mem_differingBits]
  rw [contentRange, Finset.mem_Ico]
  omega

/-! ## The end of the data -/

theorem xor_checkWord (hlength : modified.length = packet.length) :
    reverseUint16 packet.checkWord ^^^ reverseUint16 modified.checkWord =
      crcDifference packet modified := by
  rw [← reverseUint16_xor, checkWord, checkWord, hlength, join16_xor]
  rfl

theorem zipWith_covered (hlength : modified.length = packet.length)
    (hle : packet.length ≤ ax25MinimumIFrameLen) :
    List.zipWith (· ^^^ ·) packet.covered modified.covered =
      (List.range (packet.length - 4)).map fun i => differenceAt packet modified (1 + i) := by
  have hcovered := length_covered hle
  have hcovered' : modified.covered.length = modified.length - 4 :=
    length_covered (hlength ▸ hle)
  have hbyte (p : UnstuffedAx25IFrame) (i : ℕ) (hi : i < p.covered.length) :
      p.covered[i] = p.byte (1 + i) := by
    have hget : p.covered[i]? = p.data.cells[1 + i]? := by
      rw [covered, field, List.length_take] at hi
      rw [covered, field, List.getElem?_take_of_lt (by omega), List.getElem?_drop]
    rw [byte, ← hget, List.getElem?_eq_getElem hi, Option.getD_some]
  apply List.ext_getElem
  · rw [List.length_zipWith, hcovered, hcovered', hlength, Nat.min_self, List.length_map,
      List.length_range]
  · intro i hi hi'
    rw [List.getElem_zipWith, hbyte, hbyte, List.getElem_map, List.getElem_range]
    rfl

/-- If no bit before the last two data bytes differs, then these and the check sequence
decide. -/
theorem fcs_iff_of_end (hlength : modified.length = packet.length) (haccepted : packet.Accepted)
    (hend : ∀ k ∈ differingBits packet modified, 8 * (packet.length - 5) ≤ k) :
    reverseUint16 modified.checkWord = crcOf modified.covered ↔
      crcDifference packet modified = crcOf (bytes16 (dataDifference packet modified)) := by
  have hmin : ax25MinimumUFrameCmdLength = 19 := rfl
  have hge := haccepted.length_ge
  have hcount : packet.length - 4 = (packet.length - 6) + 2 := by omega
  have hfirst : 1 + (packet.length - 6) = packet.length - 5 := by omega
  have hsecond : 1 + (packet.length - 6 + 1) = packet.length - 4 := by omega
  have hzeros : (List.range (packet.length - 6)).map
      (fun i => differenceAt packet modified (1 + i)) = List.replicate (packet.length - 6) 0 := by
    rw [List.eq_replicate_iff]
    refine ⟨by rw [List.length_map, List.length_range], ?_⟩
    intro byte hbyte
    rcases List.mem_map.mp hbyte with ⟨i, hi, rfl⟩
    rw [List.mem_range] at hi
    refine differenceAt_eq_zero (by omega) (by omega) ?_
    intro k hk
    have := hend k hk
    omega
  rw [fcs_iff_crcOf hlength haccepted, xor_checkWord hlength,
    zipWith_covered hlength haccepted.length_le, hcount, List.range_succ, List.range_succ,
    List.map_append, List.map_append, hzeros, List.append_assoc, crcOf_zeros_append,
    dataDifference, bytes16_join16]
  simp only [List.map_cons, List.map_nil, List.cons_append, List.nil_append, hfirst, hsecond]

/-- The addresses lie before the end of the data. -/
theorem dest_of_end (haccepted : packet.Accepted)
    (hend : ∀ k ∈ differingBits packet modified, 8 * (packet.length - 5) ≤ k) :
    modified.field ax25DestAddrPosition ax25DestAddrBytes =
      packet.field ax25DestAddrPosition ax25DestAddrBytes := by
  have hmin : ax25MinimumUFrameCmdLength = 19 := rfl
  have hge := haccepted.length_ge
  have hbyte (i : ℕ) (h : 1 ≤ i) (hi : i < 8) : modified.byte i = packet.byte i := by
    have hzero : differenceAt packet modified i = 0 := by
      refine differenceAt_eq_zero h (by omega) fun k hk => ?_
      have := hend k hk
      omega
    exact (BitVec.xor_eq_zero_iff.mp hzero).symm
  have hfield (p : UnstuffedAx25IFrame) : p.field ax25DestAddrPosition ax25DestAddrBytes =
      (List.range 7).map fun i => p.byte (1 + i) := by
    apply List.ext_getElem
    · rw [field, List.length_take, List.length_drop, Block.length_cells, List.length_map,
        List.length_range]
      rfl
    · intro i hi hi'
      rw [List.length_map, List.length_range] at hi'
      rw [List.getElem_map, List.getElem_range, byte]
      simp only [field, List.getElem_take, List.getElem_drop]
      rw [List.getElem?_eq_getElem]
      rfl
  rw [hfield, hfield]
  apply List.map_congr_left
  intro i hi
  rw [List.mem_range] at hi
  exact hbyte _ (by omega) (by omega)

/-! ## Bursts, by where they lie -/

theorem toNat_lt_of_bits {x : BitVec 16} {k : ℕ} (h : ∀ j < 16, x.getLsbD j = true → j < k) :
    x.toNat < 2 ^ k := by
  apply Nat.lt_pow_two_of_testBit
  intro j hj
  by_contra hbit
  rw [Bool.not_eq_false, BitVec.testBit_toNat] at hbit
  exact absurd (h j (BitVec.lt_of_getLsbD hbit) hbit) (Nat.not_lt.mpr hj)

theorem mem_undetectedBursts_iff :
    endDifference packet modified ∈ undetectedBursts ↔
      dataDifference packet modified ∈ undetectedData ∧
        crcDifference packet modified = crcOf (bytes16 (dataDifference packet modified)) := by
  rw [endDifference_eq_unseen, undetectedBursts_eq, List.mem_map]
  constructor
  · rintro ⟨data, hmem, heq⟩
    rcases unseen_injective heq with ⟨hdata, hcrc⟩
    exact ⟨hdata ▸ hmem, hdata ▸ hcrc.symm⟩
  · rintro ⟨hmem, hcrc⟩
    exact ⟨_, hmem, by rw [← hcrc]⟩

/-- A burst that leaves the data or the check sequence alone is detected. -/
theorem not_accepted_of_oneSide (hlength : modified.length = packet.length)
    (haccepted : packet.Accepted) {start : ℕ} (hne : (differingBits packet modified).Nonempty)
    (hcontent : differingBits packet modified ⊆ contentRange packet)
    (hwindow : differingBits packet modified ⊆ Finset.Ico start (start + 16))
    (hside : start + 16 ≤ 8 * (packet.length - 3) ∨ 8 * (packet.length - 3) ≤ start) :
    ¬ modified.Accepted := by
  refine not_accepted_of_not_dvd hlength hcontent haccepted ?_
  have hplaces : ∃ first, ∀ n ∈ syndrome packet modified, first ≤ n ∧ n < first + 16 := by
    rcases hside with hbefore | hafter
    · refine ⟨8 * (packet.length - 3) - start, fun n hn => ?_⟩
      rcases Finset.mem_image.mp hn with ⟨i, hi, rfl⟩
      have hrange := Finset.mem_Ico.mp (hwindow hi)
      unfold weight
      split_ifs <;> omega
    · refine ⟨start - 8 * (packet.length - 3), fun n hn => ?_⟩
      rcases Finset.mem_image.mp hn with ⟨i, hi, rfl⟩
      have hrange := Finset.mem_Ico.mp (hwindow hi)
      unfold weight
      split_ifs <;> omega
  rcases hplaces with ⟨first, hplaces⟩
  exact not_dvd_of_burst (by decide) (by decide) (hne.image _) hplaces

theorem not_mem_undetectedBursts_of_oneSide (hge : ax25MinimumUFrameCmdLength ≤ packet.length)
    {start : ℕ} (hwindow : differingBits packet modified ⊆ Finset.Ico start (start + 16))
    (hside : start + 16 ≤ 8 * (packet.length - 3) ∨ 8 * (packet.length - 3) ≤ start) :
    endDifference packet modified ∉ undetectedBursts := by
  have hmin : ax25MinimumUFrameCmdLength = 19 := rfl
  rw [mem_undetectedBursts_iff]
  rintro ⟨hdata, hcrc⟩
  have hdataNe : dataDifference packet modified ≠ 0#16 :=
    ne_of_mem_of_not_mem hdata zero_not_mem_undetectedData
  have hcrcNe : crcOf (bytes16 (dataDifference packet modified)) ≠ 0#16 := fun hzero =>
    hdataNe (crcOf_bytes16_injective (hzero.trans crcOf_bytes16_zero.symm))
  rcases hside with hbefore | hafter
  · apply hcrcNe
    rw [← hcrc]
    apply BitVec.eq_of_getLsbD_eq
    intro j hj
    by_contra hbit
    rw [BitVec.getLsbD_zero, Bool.not_eq_false, getLsbD_crcDifference hge hj] at hbit
    have hrange := Finset.mem_Ico.mp (hwindow hbit)
    omega
  · apply hdataNe
    apply BitVec.eq_of_getLsbD_eq
    intro j hj
    by_contra hbit
    have hindex : 15 - (15 - j) = j := by omega
    rw [BitVec.getLsbD_zero, Bool.not_eq_false, ← hindex,
      getLsbD_dataDifference hge (by omega)] at hbit
    have hrange := Finset.mem_Ico.mp (hwindow hbit)
    omega

/-- A burst across the end of the data shows in one of the two words. -/
theorem differences_ne_zero (hge : ax25MinimumUFrameCmdLength ≤ packet.length) {start : ℕ}
    (hne : (differingBits packet modified).Nonempty)
    (hwindow : differingBits packet modified ⊆ Finset.Ico start (start + 16))
    (hbefore : start < 8 * (packet.length - 3)) (hafter : 8 * (packet.length - 3) < start + 16) :
    ¬ (dataDifference packet modified = 0#16 ∧ crcDifference packet modified = 0#16) := by
  have hmin : ax25MinimumUFrameCmdLength = 19 := rfl
  intro h
  rcases h with ⟨hdata, hcrc⟩
  rcases hne with ⟨i, hi⟩
  have hrange := Finset.mem_Ico.mp (hwindow hi)
  rcases Nat.lt_or_ge i (8 * (packet.length - 3)) with hlt | hge'
  · have hbit := (getLsbD_dataDifference hge
      (j := i - 8 * (packet.length - 5)) (by omega)).mpr (by
        rwa [Nat.add_sub_cancel' (by omega)])
    rw [hdata, BitVec.getLsbD_zero] at hbit
    exact Bool.false_ne_true hbit
  · have hbit := (getLsbD_crcDifference hge
      (j := i - 8 * (packet.length - 3)) (by omega)).mpr (by
        rwa [Nat.add_sub_cancel' hge'])
    rw [hcrc, BitVec.getLsbD_zero] at hbit
    exact Bool.false_ne_true hbit

/-- A burst across the end of the data is seen unless it is listed. -/
theorem crcDifference_eq_iff (hge : ax25MinimumUFrameCmdLength ≤ packet.length) {start : ℕ}
    (hne : (differingBits packet modified).Nonempty)
    (hwindow : differingBits packet modified ⊆ Finset.Ico start (start + 16))
    (hbefore : start < 8 * (packet.length - 3)) (hafter : 8 * (packet.length - 3) < start + 16) :
    crcDifference packet modified = crcOf (bytes16 (dataDifference packet modified)) ↔
      endDifference packet modified ∈ undetectedBursts := by
  have hmin : ax25MinimumUFrameCmdLength = 19 := rfl
  constructor
  · intro hcrc
    have hdataLt : (dataDifference packet modified).toNat <
        2 ^ (8 * (packet.length - 3) - start) := by
      apply toNat_lt_of_bits
      intro j hj hbit
      have hindex : 15 - (15 - j) = j := by omega
      rw [← hindex, getLsbD_dataDifference hge (by omega)] at hbit
      have hrange := Finset.mem_Ico.mp (hwindow hbit)
      omega
    have hcrcLt : (crcDifference packet modified).toNat <
        2 ^ (16 - (8 * (packet.length - 3) - start)) := by
      apply toNat_lt_of_bits
      intro j hj hbit
      rw [getLsbD_crcDifference hge hj] at hbit
      have hrange := Finset.mem_Ico.mp (hwindow hbit)
      omega
    have hdataNe : dataDifference packet modified ≠ 0#16 := by
      intro hzero
      have hcrcZero : crcDifference packet modified = 0#16 := by
        rw [hcrc, hzero, crcOf_bytes16_zero]
      exact differences_ne_zero hge hne hwindow hbefore hafter ⟨hzero, hcrcZero⟩
    rw [endDifference_eq_unseen, hcrc]
    exact unseen_mem_undetectedBursts hdataNe (by omega) (by omega) hdataLt (hcrc ▸ hcrcLt)
  · exact fun hmem => (mem_undetectedBursts_iff.mp hmem).2

/-- A damaged packet passes the checks exactly when the burst is one of the listed ones. -/
theorem accepted_iff_of_burst (haccepted : packet.Accepted)
    (hlength : modified.length = packet.length) (hburst : Burst packet modified) :
    modified.Accepted ↔ endDifference packet modified ∈ undetectedBursts := by
  have hmin : ax25MinimumUFrameCmdLength = 19 := rfl
  have hge := haccepted.length_ge
  rcases hburst.window with ⟨start, hinside, hwindow⟩
  by_cases hside : start + 16 ≤ 8 * (packet.length - 3) ∨ 8 * (packet.length - 3) ≤ start
  · exact iff_of_false
      (not_accepted_of_oneSide hlength haccepted hburst.nonempty (hwindow.trans hinside) hwindow
        hside)
      (not_mem_undetectedBursts_of_oneSide hge hwindow hside)
  · rw [not_or, Nat.not_le, Nat.not_le] at hside
    have hend : ∀ k ∈ differingBits packet modified, 8 * (packet.length - 5) ≤ k := by
      intro k hk
      have hrange := Finset.mem_Ico.mp (hwindow hk)
      omega
    rw [← crcDifference_eq_iff hge hburst.nonempty hwindow hside.2 hside.1,
      ← fcs_iff_of_end hlength haccepted hend]
    constructor
    · exact fun h => h.fcs
    · intro hfcs
      refine ⟨hlength ▸ hge, hlength ▸ haccepted.length_le, ?_, hfcs⟩
      rw [dest_of_end haccepted hend]
      exact haccepted.dest

end Packet

/-! ## Damage at the end of a packet -/

/-- The byte by which a packet is damaged at an index. -/
def damageAt (pos : ℕ) (damage : List Byte) (i : ℕ) : Byte :=
  if pos ≤ i then damage[i - pos]?.getD 0 else 0

theorem differenceAt_damaged (packet : UnstuffedAx25IFrame) (pos : ℕ) {i : ℕ}
    (damage : List Byte) (hi : i < ax25MinimumIFrameLen) :
    differenceAt packet (packet.damaged pos damage) i = damageAt pos damage i := by
  have hcell : i < packet.data.cells.length := by rwa [Block.length_cells]
  rw [differenceAt, byte, byte, damaged, List.getElem?_mapIdx, List.getElem?_eq_getElem hcell,
    Option.map_some, Option.getD_some, Option.getD_some, damageAt]
  split_ifs
  · rw [← BitVec.xor_assoc, BitVec.xor_self, BitVec.zero_xor]
  · exact BitVec.xor_self

theorem endDifference_damaged (packet : UnstuffedAx25IFrame) (pos : ℕ) (damage : List Byte)
    (hle : packet.length ≤ ax25MinimumIFrameLen) :
    endDifference packet (packet.damaged pos damage) =
      [damageAt pos damage (packet.length - 5), damageAt pos damage (packet.length - 4),
        damageAt pos damage (packet.length - 3), damageAt pos damage (packet.length - 2)] := by
  have hmax : ax25MinimumIFrameLen = 275 := rfl
  rw [endDifference, differenceAt_damaged _ _ _ (by omega), differenceAt_damaged _ _ _ (by omega),
    differenceAt_damaged _ _ _ (by omega), differenceAt_damaged _ _ _ (by omega)]

theorem mem_differingBits_damaged (packet : UnstuffedAx25IFrame) {pos i : ℕ} (damage : List Byte)
    (hi : i < 8 * packet.length) (hle : packet.length ≤ ax25MinimumIFrameLen) :
    i ∈ differingBits packet (packet.damaged pos damage) ↔
      8 * pos ≤ i ∧ bitAt damage (i - 8 * pos) = true := by
  have hmax : ax25MinimumIFrameLen = 275 := rfl
  have hsplit : 8 * (i / 8) + i % 8 = i := Nat.div_add_mod i 8
  have hbit : (differenceAt packet (packet.damaged pos damage) (i / 8)).getMsbD (i % 8) =
      (packet.bit (8 * (i / 8) + i % 8) ^^
        (packet.damaged pos damage).bit (8 * (i / 8) + i % 8)) :=
    getMsbD_differenceAt _ (Nat.mod_lt i (by decide))
  rw [differenceAt_damaged packet pos damage (by omega), hsplit] at hbit
  have hdiffer : packet.bit i ≠ (packet.damaged pos damage).bit i ↔
      (damageAt pos damage (i / 8)).getMsbD (i % 8) = true := by
    rw [hbit]
    exact bne_iff_ne.symm
  rw [differingBits, Finset.mem_filter, Finset.mem_range, and_iff_right hi, hdiffer, damageAt]
  split_ifs with hpos
  · have hdiv : (i - 8 * pos) / 8 = i / 8 - pos := by omega
    have hmod : (i - 8 * pos) % 8 = i % 8 := by omega
    rw [bitAt, hdiv, hmod, and_iff_right (by omega)]
  · have hbefore : ¬ 8 * pos ≤ i := by omega
    simp [hbefore]

/-- Damage whose bits lie close together is a burst. -/
theorem burst_damaged {packet : UnstuffedAx25IFrame} {pos start : ℕ} {damage : List Byte}
    (hle : packet.length ≤ ax25MinimumIFrameLen)
    (hinside : Finset.Ico start (start + 16) ⊆ contentRange packet)
    (hne : ∃ j < 8 * damage.length, bitAt damage j = true)
    (hbits : ∀ j < 8 * damage.length, bitAt damage j = true →
      8 * pos + j ∈ Finset.Ico start (start + 16)) :
    Burst packet (packet.damaged pos damage) := by
  constructor
  · rcases hne with ⟨j, hj, hbit⟩
    have hrange := hinside (hbits j hj hbit)
    rw [contentRange, Finset.mem_Ico] at hrange
    refine ⟨8 * pos + j, (mem_differingBits_damaged packet damage (by omega) hle).mpr ?_⟩
    rw [Nat.add_sub_cancel_left]
    exact ⟨Nat.le_add_right _ _, hbit⟩
  · refine ⟨start, hinside, fun i hi => ?_⟩
    have hlt : i < 8 * packet.length := Finset.mem_range.mp (Finset.mem_filter.mp hi).1
    rcases (mem_differingBits_damaged packet damage hlt hle).mp hi with ⟨hpos, hbit⟩
    have hwithin : i - 8 * pos < 8 * damage.length := by
      by_contra hout
      rw [bitAt, List.getElem?_eq_none (by omega)] at hbit
      exact absurd hbit (by simp)
    rw [← Nat.add_sub_cancel' hpos]
    exact hbits _ hwithin hbit

theorem field_damaged (packet : UnstuffedAx25IFrame) {pos start count : ℕ} (damage : List Byte)
    (h : start + count ≤ pos) :
    (packet.damaged pos damage).field start count = packet.field start count := by
  apply List.ext_getElem?
  intro i
  rw [field, field]
  rcases Nat.lt_or_ge i count with hi | hi
  · rw [List.getElem?_take_of_lt hi, List.getElem?_take_of_lt hi, List.getElem?_drop,
      List.getElem?_drop, damaged, List.getElem?_mapIdx]
    simp only [if_neg (show ¬ pos ≤ start + i by omega), Option.map_id']
  · rw [List.getElem?_take_eq_none hi, List.getElem?_take_eq_none hi]

theorem byte_damaged (packet : UnstuffedAx25IFrame) {pos i : ℕ} (damage : List Byte)
    (h : i < pos) : (packet.damaged pos damage).byte i = packet.byte i := by
  rw [byte, byte, damaged, List.getElem?_mapIdx]
  simp only [if_neg (show ¬ pos ≤ i by omega), Option.map_id']

/-- The handlers do not look behind the PID. -/
theorem handlerTakes_damaged (s : LinkState) (packet : UnstuffedAx25IFrame) {pos : ℕ}
    (damage : List Byte) (h : ax25Mod8PidPosition < pos) :
    HandlerTakes s (packet.damaged pos damage) ↔ HandlerTakes s packet := by
  have hpid : ax25Mod8PidPosition = 16 := rfl
  have hcontrol : (packet.damaged pos damage).control = packet.control :=
    byte_damaged packet damage (show 15 < pos by omega)
  have hsource : (packet.damaged pos damage).source = packet.source :=
    field_damaged packet damage (show 8 + 7 ≤ pos by omega)
  have hlink : sourceIsLink s (packet.damaged pos damage) ↔ sourceIsLink s packet := by
    rw [sourceIsLink, sourceIsLink, field_damaged packet damage
      (show ax25SrcAddrPosition + (ax25SrcAddrBytes - 1) ≤ pos from
        show 8 + 6 ≤ pos by omega)]
  unfold HandlerTakes uControl
  rw [hcontrol, hsource, hlink, byte_damaged packet damage h]

/-! ## What becomes of a burst -/

/-- **Bursts of up to 16 bits are detected, except seven across the end of the data** that also
leave a packet which the handler of its frame type takes. -/
theorem rejects_burst_iff {s : LinkState} {packet modified : UnstuffedAx25IFrame}
    {command : Option UFrameCmd} (htaken : Takes s packet command)
    (hlength : modified.length = packet.length) (hburst : Burst packet modified) :
    Rejects s modified command ↔
      ¬ (endDifference packet modified ∈ undetectedBursts ∧ HandlerTakes s modified) := by
  rw [rejects_iff, takes_iff, accepted_iff_of_burst htaken.accepted hlength hburst]

/-- A burst in the control byte and the check sequence of a SABM. -/
theorem rejects_burst_groundSabm :
    Rejects LinkState.initial (groundSabm.damaged 15 [0x01, 0x80]) none := by
  have hlength : (groundSabm.damaged 15 [0x01, 0x80]).length = groundSabm.length := rfl
  have hburst : Burst groundSabm (groundSabm.damaged 15 [0x01, 0x80]) :=
    burst_damaged groundSabm_accepted.length_le
      (show Finset.Ico 120 (120 + 16) ⊆ contentRange groundSabm by decide) (by decide) (by decide)
  refine (rejects_burst_iff takes_groundSabm hlength hburst).mpr ?_
  rw [endDifference_damaged _ _ _ groundSabm_accepted.length_le]
  exact fun h => absurd h.1 (by decide)

/-- An I frame as it is sent to the satellite. -/
def satelliteIFrame : UnstuffedAx25IFrame :=
  sealedPacket (iFrameBody cubeSatDest LinkState.initial.iControl (infoField [1, 2, 3]))
    (by decide +kernel)

theorem takes_satelliteIFrame : Takes LinkState.initial satelliteIFrame none := by
  have hsealed : Sealed (iFrameBody cubeSatDest LinkState.initial.iControl (infoField [1, 2, 3]))
      satelliteIFrame := sealed_sealedPacket _ _
  obtain ⟨hhandled, hreceived⟩ := hsealed.iFrame_handled (.inl rfl) (by decide +kernel)
    LinkState.initial none
  exact ⟨_, hhandled.trans hreceived, rfl⟩

theorem length_satelliteIFrame : satelliteIFrame.length = 275 := by decide +kernel

/-- The last bit of the information and the check sequence of a frame are damaged. -/
def damagedIFrame : UnstuffedAx25IFrame := satelliteIFrame.damaged 271 [0x01, 0x84, 0x08]

theorem burst_damagedIFrame : Burst satelliteIFrame damagedIFrame := by
  have hinside : Finset.Ico 2175 (2175 + 16) ⊆ contentRange satelliteIFrame := by
    rw [contentRange, length_satelliteIFrame]
    exact Finset.Ico_subset_Ico (by decide) (by decide)
  exact burst_damaged takes_satelliteIFrame.accepted.length_le hinside (by decide) (by decide)

/-- A burst of 14 bits that nobody notices. -/
theorem not_rejects_burst :
    Takes LinkState.initial satelliteIFrame none ∧
      damagedIFrame.length = satelliteIFrame.length ∧ Burst satelliteIFrame damagedIFrame ∧
      ¬ Rejects LinkState.initial damagedIFrame none := by
  have haccepted := takes_satelliteIFrame.accepted
  have hlength : damagedIFrame.length = satelliteIFrame.length := rfl
  refine ⟨takes_satelliteIFrame, hlength, burst_damagedIFrame, ?_⟩
  rw [rejects_iff, not_not, takes_iff, accepted_iff_of_burst haccepted hlength burst_damagedIFrame,
    damagedIFrame, endDifference_damaged _ _ _ haccepted.length_le,
    length_satelliteIFrame, handlerTakes_damaged _ _ _ (by decide)]
  exact ⟨by decide, (takes_iff.mp takes_satelliteIFrame).2⟩

end ObcGsInterface
