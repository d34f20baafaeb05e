import ObcGsInterface.Library.BitStream
import ObcGsInterface.Library.BitStuffing
import ObcGsInterface.Model.Ax25.Stuffing

/-! # The bit loops

The loop of `ax25Stuff` ORs the stuffed bits of the content into its buffer, and the loops
of `ax25Unstuff` OR the destuffed bits: each round is a step of the transducer. -/

namespace ObcGsInterface

open CArray Loop BitStream BitStuffing Transducer

/-- `data` with bits ORed in from `pos` on. -/
def orBlock {n : ℕ} (data : Block Byte n) (pos : ℕ) (bs : List Bool) : Block Byte n :=
  ⟨orBits data.cells pos bs, by simp⟩

theorem orBlock_append {n : ℕ} (data : Block Byte n) (pos : ℕ) (xs ys : List Bool) :
    orBlock data pos (xs ++ ys) = orBlock (orBlock data pos xs) (pos + xs.length) ys := by
  ext1
  exact orBits_append data.cells pos xs ys

/-! ## Single bits -/

/-- A bit shifted down to the lowest place, as the loops read it. -/
theorem shifted_bit (byte : Byte) {k : ℕ} (hk : k < 8) :
    (byte >>> (7 - k)) &&& 1 = (BitVec.ofBool (byte.getMsbD k)).setWidth 8 := by
  ext i hi
  rcases Nat.eq_zero_or_pos i with rfl | hpos
  · have hlt : 7 - k < 8 := by omega
    simp [BitVec.getMsbD, hk]
  · have hne : i ≠ 0 := Nat.ne_of_gt hpos
    simp [BitVec.getElem_setWidth, hne]

theorem orInto_bitMask {n : ℕ} (data : Block Byte n) {pos : ℕ} (b : Bool) (h : pos / 8 < n) :
    orInto data (pos / 8) (bitMask b (pos % 8)) = .ok (orBlock data pos [b]) := by
  have hcell : pos / 8 < data.cells.length := by simpa using h
  rw [orInto, load_of_lt _ hcell, ok_bind, Block.store_of_lt _ _ h]
  congr 1
  ext1
  simp [orBlock, orBits, orBit, List.modify_eq_set_getElem?, List.getElem?_eq_getElem hcell]

theorem orInto_zero {n : ℕ} (data : Block Byte n) {i : ℕ} (h : i < n) :
    orInto data i 0 = .ok data := by
  have hcell : i < data.cells.length := by simpa using h
  rw [orInto, load_of_lt _ hcell, ok_bind, Block.store_of_lt _ _ h]
  congr 1
  ext1
  simp

/-! ## Stuffing -/

/-- One round of `ax25Stuff` is one step of the stuffer on the bit it reads; both offsets wrap
around. -/
theorem stuffBody_wraps {n : ℕ} {rawData : List Byte} {s : StuffState n}
    (hraw : s.rawOffset / 8 < rawData.length) (hcount : s.oneCount < 5)
    (hroom : s.stuffedOffset + (stuffStep 5 s.oneCount (bitAt rawData s.rawOffset)).2.length ≤
      8 * n) :
    stuffBody rawData s = .ok
      { rawOffset := (s.rawOffset + 1) % 2 ^ 16
        stuffedOffset := (s.stuffedOffset +
          (stuffStep 5 s.oneCount (bitAt rawData s.rawOffset)).2.length) % 2 ^ 16
        oneCount := (stuffStep 5 s.oneCount (bitAt rawData s.rawOffset)).1
        stuffedData := orBlock s.stuffedData s.stuffedOffset
          (stuffStep 5 s.oneCount (bitAt rawData s.rawOffset)).2 } := by
  have hbit : bitAt rawData s.rawOffset = rawData[s.rawOffset / 8].getMsbD (s.rawOffset % 8) := by
    simp [bitAt, List.getElem?_eq_getElem hraw]
  have hread := shifted_bit rawData[s.rawOffset / 8] (Nat.mod_lt s.rawOffset (by decide : 8 > 0))
  rw [← hbit] at hread
  have hmask (b : Bool) : (BitVec.ofBool b).setWidth 8 <<< (7 - s.stuffedOffset % 8) =
      bitMask b (s.stuffedOffset % 8) := rfl
  rw [stuffBody, load_of_lt _ hraw, ok_bind]
  simp only [hread, hmask]
  generalize bitAt rawData s.rawOffset = b at hroom ⊢
  cases b with
  | false =>
      simp only [stuffStep, Bool.false_eq_true, if_false, List.length_singleton] at hroom ⊢
      rw [orInto_bitMask _ _ (by omega), ok_bind, if_neg (by decide), pure_eq_ok]
  | true =>
      have hcount16 : (s.oneCount + 1) % 2 ^ 16 = s.oneCount + 1 := Nat.mod_eq_of_lt (by omega)
      have hone : (BitVec.ofBool true).setWidth 8 = (1 : Byte) := by decide
      rw [hcount16]
      simp only [stuffStep, if_true] at hroom ⊢
      by_cases hfull : s.oneCount + 1 = 5
      · simp only [hfull, if_true, List.length_cons, List.length_nil] at hroom ⊢
        have hle : (s.stuffedOffset + 1) % 2 ^ 16 ≤ s.stuffedOffset + 1 := Nat.mod_le _ _
        rw [orInto_bitMask _ _ (by omega), ok_bind, if_pos hone, orInto_zero _ (by omega),
          ok_bind, Nat.mod_add_mod, pure_eq_ok]
        -- The inserted zero changes nothing in the buffer.
        have hzero : orBlock s.stuffedData s.stuffedOffset [true, false] =
            orBlock s.stuffedData s.stuffedOffset [true] := by
          ext1
          exact orBit_false _ _
        rw [hzero]
      · simp only [hfull, if_false, List.length_singleton] at hroom ⊢
        rw [orInto_bitMask _ _ (by omega), ok_bind, if_pos hone, pure_eq_ok]

/-- One round of `ax25Stuff` whose offsets do not wrap around. -/
theorem stuffBody_eq {n : ℕ} {rawData : List Byte} {s : StuffState n}
    (hraw : s.rawOffset / 8 < rawData.length) (hcount : s.oneCount < 5)
    (hroom : s.stuffedOffset + (stuffStep 5 s.oneCount (bitAt rawData s.rawOffset)).2.length ≤
      8 * n)
    (hraw16 : s.rawOffset + 1 < 2 ^ 16)
    (hstuffed16 : s.stuffedOffset +
      (stuffStep 5 s.oneCount (bitAt rawData s.rawOffset)).2.length < 2 ^ 16) :
    stuffBody rawData s = .ok
      { rawOffset := s.rawOffset + 1
        stuffedOffset :=
          s.stuffedOffset + (stuffStep 5 s.oneCount (bitAt rawData s.rawOffset)).2.length
        oneCount := (stuffStep 5 s.oneCount (bitAt rawData s.rawOffset)).1
        stuffedData := orBlock s.stuffedData s.stuffedOffset
          (stuffStep 5 s.oneCount (bitAt rawData s.rawOffset)).2 } := by
  rw [stuffBody_wraps hraw hcount hroom, Nat.mod_eq_of_lt hraw16, Nat.mod_eq_of_lt hstuffed16]

/-- The content bits of a packet of `len` bytes: what stands between its flags. -/
def contentBits (packet : List Byte) (len : ℕ) : List Bool := bits ((packet.take (len - 1)).drop 1)

theorem length_contentBits {packet : List Byte} {len : ℕ} (h : len ≤ packet.length) :
    (contentBits packet len).length = 8 * (len - 2) := by
  rw [contentBits, length_bits, List.length_drop, List.length_take]
  omega

theorem getElem?_contentBits {packet : List Byte} {len k : ℕ} (h : len ≤ packet.length)
    (hk : k < 8 * (len - 2)) : (contentBits packet len)[k]? = some (bitAt packet (8 + k)) := by
  have hindex : (8 + k) / 8 = 1 + k / 8 := by omega
  have hbyte : 1 + k / 8 < len - 1 := by omega
  rw [contentBits, getElem?_bits _ (by rw [List.length_drop, List.length_take]; omega)]
  simp only [bitAt, List.getElem?_drop, List.getElem?_take_of_lt hbyte, hindex,
    Nat.add_mod_left]

theorem contentBits_take_succ {packet : List Byte} {len k : ℕ} (h : len ≤ packet.length)
    (hk : k < (contentBits packet len).length) :
    (contentBits packet len).take (k + 1) =
      (contentBits packet len).take k ++ [bitAt packet (8 + k)] := by
  rw [length_contentBits h] at hk
  rw [List.take_add_one, getElem?_contentBits h hk, Option.toList_some]

theorem stuff_append_singleton (xs : List Bool) (b : Bool) :
    stuff 5 (xs ++ [b]) = stuff 5 xs ++ (stuffStep 5 (final (stuffStep 5) 0 xs) b).2 :=
  output_append_singleton _ 0 xs b

theorem length_stuff_take_le (xs : List Bool) (n : ℕ) :
    (stuff 5 (xs.take n)).length ≤ (stuff 5 xs).length :=
  (output_take_isPrefix _ 0 xs n).length_le

/-- As long as the offset has not wrapped around, the condition of the loop asks for a bit of
the content. -/
theorem stuffGuard_eq {n : ℕ} {rawData : List Byte} {rawDataLen k : ℕ} {s : StuffState n}
    (hlen : rawDataLen ≤ rawData.length) (hoffset : s.rawOffset = 8 + k)
    (hk : k ≤ (contentBits rawData rawDataLen).length) :
    stuffGuard rawDataLen s = .ok (decide (k < (contentBits rawData rawDataLen).length)) := by
  have hiff : (s.rawOffset : ℤ) < ((rawDataLen : ℤ) - 1) * 8 ↔
      k < (contentBits rawData rawDataLen).length := by
    rw [length_contentBits hlen] at hk ⊢
    rw [hoffset]
    omega
  rw [stuffGuard, decide_eq_decide.mpr hiff]

/-- The state of the loop of `ax25Stuff` after `k` bits of the content. -/
structure StuffStage {n : ℕ} (content : List Bool) (data : Block Byte n) (k : ℕ)
    (s : StuffState n) : Prop where
  rawOffset_eq : s.rawOffset = 8 + k
  oneCount_eq : s.oneCount = final (stuffStep 5) 0 (content.take k)
  stuffedOffset_eq : s.stuffedOffset = 8 + (stuff 5 (content.take k)).length
  stuffedData_eq : s.stuffedData = orBlock data 8 (stuff 5 (content.take k))

/-- A round takes the loop to the next stage, if all the stuffed content fits. -/
theorem stuffBody_stage {n : ℕ} {rawData : List Byte} {rawDataLen k : ℕ} {data : Block Byte n}
    {s : StuffState n} (hlen : rawDataLen ≤ rawData.length)
    (hroom : 8 + (stuff 5 (contentBits rawData rawDataLen)).length ≤ 8 * n)
    (hraw16 : 8 * rawDataLen < 2 ^ 16)
    (hstuffed16 : 8 + (stuff 5 (contentBits rawData rawDataLen)).length < 2 ^ 16)
    (hk : k < (contentBits rawData rawDataLen).length)
    (hs : StuffStage (contentBits rawData rawDataLen) data k s) :
    ∃ s', stuffBody rawData s = .ok s' ∧
      StuffStage (contentBits rawData rawDataLen) data (k + 1) s' := by
  have hlength := length_contentBits hlen
  have htake := contentBits_take_succ hlen hk
  have hprefix := length_stuff_take_le (contentBits rawData rawDataLen) (k + 1)
  generalize contentBits rawData rawDataLen = content at *
  have hoffset := hs.stuffedOffset_eq
  have hrawOffset := hs.rawOffset_eq
  rw [← hrawOffset] at htake
  have hstuff : stuff 5 (content.take (k + 1)) =
      stuff 5 (content.take k) ++ (stuffStep 5 s.oneCount (bitAt rawData s.rawOffset)).2 := by
    rw [htake, stuff_append_singleton, hs.oneCount_eq]
  rw [hstuff, List.length_append] at hprefix
  have hcount : s.oneCount < 5 := by
    rw [hs.oneCount_eq]
    exact final_stuffStep_lt (by decide) _
  refine ⟨_, stuffBody_eq (by omega) hcount (by omega) (by omega) (by omega), ?_⟩
  exact
    { rawOffset_eq := by simp only [hrawOffset]; omega
      oneCount_eq := by rw [htake, final_append, hs.oneCount_eq]; rfl
      stuffedOffset_eq := by simp only [hstuff, List.length_append, hoffset]; omega
      stuffedData_eq := by rw [hstuff, orBlock_append, ← hs.stuffedData_eq, ← hoffset] }

/-- The loop of `ax25Stuff` writes the stuffed content, if it fits and no counter wraps. -/
theorem stuffLoop_eq {n : ℕ} {rawData : List Byte} {rawDataLen : ℕ} (data : Block Byte n)
    (hlen : rawDataLen ≤ rawData.length)
    (hroom : 8 + (stuff 5 (contentBits rawData rawDataLen)).length ≤ 8 * n)
    (hraw16 : 8 * rawDataLen < 2 ^ 16)
    (hstuffed16 : 8 + (stuff 5 (contentBits rawData rawDataLen)).length < 2 ^ 16) :
    ∃ s, whileLoop (stuffGuard rawDataLen) (stuffBody rawData) (2 ^ 16) ⟨8, 8, 0, data⟩ = .ok s ∧
      s.rawOffset = 8 + (contentBits rawData rawDataLen).length ∧
      s.stuffedOffset = 8 + (stuff 5 (contentBits rawData rawDataLen)).length ∧
      s.stuffedData = orBlock data 8 (stuff 5 (contentBits rawData rawDataLen)) := by
  have hlength := length_contentBits hlen
  have hstart : StuffStage (contentBits rawData rawDataLen) data 0 ⟨8, 8, 0, data⟩ :=
    ⟨rfl, rfl, rfl, rfl⟩
  obtain ⟨s, hs, hend⟩ := whileLoop_stages
    (fun k s hk hs => stuffGuard_eq hlen (StuffStage.rawOffset_eq hs) hk)
    (fun k s hk hs => stuffBody_stage hlen hroom hraw16 hstuffed16 hk hs) (Nat.zero_le _)
    (show (contentBits rawData rawDataLen).length - 0 < 2 ^ 16 by omega) hstart
  have hdata := hend.stuffedData_eq
  have hoffset := hend.stuffedOffset_eq
  rw [List.take_length] at hdata hoffset
  exact ⟨s, hs, hend.rawOffset_eq, hoffset, hdata⟩

/-- `ax25Stuff` writes a flag, the stuffed content and a flag, and nothing else. -/
theorem ax25Stuff_eq {n : ℕ} {rawData : List Byte} {rawDataLen : ℕ} (data : Block Byte n)
    (hlen : rawDataLen ≤ rawData.length)
    (hroom : (8 + (stuff 5 (contentBits rawData rawDataLen)).length + 7) / 8 < n)
    (hraw16 : 8 * rawDataLen < 2 ^ 16)
    (hstuffed16 : 8 + (stuff 5 (contentBits rawData rawDataLen)).length < 2 ^ 16) :
    ∃ result, ax25Stuff rawData rawDataLen data = .ok result ∧
      result.err = .success ∧
      result.stuffedDataLen = (8 + (stuff 5 (contentBits rawData rawDataLen)).length + 7) / 8 + 1 ∧
      result.stuffedData.cells =
        ((orBits data.cells 8 (stuff 5 (contentBits rawData rawDataLen))).set 0 ax25Flag).set
          (result.stuffedDataLen - 1) ax25Flag := by
  obtain ⟨s, hs, -, hoffset, hdata⟩ :=
    stuffLoop_eq data hlen (by omega) hraw16 hstuffed16
  have hlast : (s.stuffedOffset + 7) / 8 + 1 - 1 < n := by
    rw [hoffset]
    omega
  rw [ax25Stuff, hs, ok_bind]
  simp only [Block.store_of_lt _ _ (Nat.zero_lt_of_lt hroom), Block.store_of_lt _ _ hlast, ok_bind,
    pure_eq_ok]
  refine ⟨_, rfl, rfl, ?_, ?_⟩
  · simp only [hoffset]
  · simp only [hdata, orBlock]

/-! ## Unstuffing -/

/-- The flag and the counter of `ax25Unstuff` as a state of the destuffer. -/
def UnstuffState.phase {n : ℕ} (s : UnstuffState n) : DestuffState :=
  if s.stuffingFlag then .dropping else .counting s.bitCount

/-- One round of the inner loop of `ax25Unstuff` is one step of the destuffer. -/
theorem unstuffBit_eq {n : ℕ} {currentByte : Byte} {offset : ℕ} {s : UnstuffState n}
    (hoffset : offset < 8) (hcount : s.bitCount < 5)
    (hroom : s.unstuffedBitLength +
      (destuffStep 5 s.phase (currentByte.getMsbD offset)).2.length ≤ 8 * n)
    (hlength16 : s.unstuffedBitLength +
      (destuffStep 5 s.phase (currentByte.getMsbD offset)).2.length < 2 ^ 16) :
    ∃ s', unstuffBit currentByte s offset = .ok s' ∧ s'.bitCount < 5 ∧
      s'.phase = (destuffStep 5 s.phase (currentByte.getMsbD offset)).1 ∧
      s'.unstuffedBitLength = s.unstuffedBitLength +
        (destuffStep 5 s.phase (currentByte.getMsbD offset)).2.length ∧
      s'.unstuffedPacket = orBlock s.unstuffedPacket s.unstuffedBitLength
        (destuffStep 5 s.phase (currentByte.getMsbD offset)).2 := by
  obtain ⟨bitCount, stuffingFlag, unstuffedBitLength, unstuffedPacket⟩ := s
  simp only at hcount
  have hmask (b : Bool) : (BitVec.ofBool b).setWidth 8 <<< (7 - unstuffedBitLength % 8) =
      bitMask b (unstuffedBitLength % 8) := rfl
  simp only [unstuffBit, shifted_bit currentByte hoffset, hmask]
  generalize currentByte.getMsbD offset = b at hroom hlength16 ⊢
  have hone : (BitVec.ofBool true).setWidth 8 = (1 : Byte) := by decide
  have hzero : (BitVec.ofBool false).setWidth 8 ≠ (1 : Byte) := by decide
  cases stuffingFlag with
  | true => exact ⟨_, rfl, Nat.zero_lt_succ 4, rfl, rfl, rfl⟩
  | false =>
      simp only [UnstuffState.phase, Bool.false_eq_true, if_false, destuffStep]
        at hroom hlength16 ⊢
      cases b with
      | false =>
          simp only [Bool.false_eq_true, if_false, List.length_singleton, hzero]
            at hroom hlength16 ⊢
          have hwrap : (unstuffedBitLength + 1) % 2 ^ 16 = unstuffedBitLength + 1 :=
            Nat.mod_eq_of_lt (by omega)
          rw [orInto_bitMask _ _ (by omega), ok_bind, hwrap]
          exact ⟨_, rfl, Nat.zero_lt_succ 4, rfl, rfl, rfl⟩
      | true =>
          have hcount8 : (bitCount + 1) % 2 ^ 8 = bitCount + 1 := Nat.mod_eq_of_lt (by omega)
          have hlength : (if bitCount + 1 = 5 then (DestuffState.dropping, [true])
              else (.counting (bitCount + 1), [true])).2 = [true] := by
            split_ifs <;> rfl
          simp only [hone, hcount8, if_true, hlength, List.length_singleton]
            at hroom hlength16 ⊢
          have hwrap : (unstuffedBitLength + 1) % 2 ^ 16 = unstuffedBitLength + 1 :=
            Nat.mod_eq_of_lt (by omega)
          rw [orInto_bitMask _ _ (by omega), ok_bind, hwrap]
          by_cases hfull : bitCount + 1 = 5
          · simp only [hfull, if_true]
            exact ⟨_, rfl, Nat.zero_lt_succ 4, rfl, rfl, rfl⟩
          · simp only [hfull, if_false]
            exact ⟨_, rfl, by simp only; omega, rfl, rfl, rfl⟩

/-- The state of `ax25Unstuff` after the bits `consumed`. -/
structure UnstuffStage {n : ℕ} (data : Block Byte n) (consumed : List Bool)
    (s : UnstuffState n) : Prop where
  bitCount_lt : s.bitCount < 5
  phase_eq : s.phase = final (destuffStep 5) (.counting 0) consumed
  unstuffedBitLength_eq : s.unstuffedBitLength = 8 + (destuff 5 consumed).length
  unstuffedPacket_eq : s.unstuffedPacket = orBlock data 8 (destuff 5 consumed)

theorem destuff_append_singleton (xs : List Bool) (b : Bool) :
    destuff 5 (xs ++ [b]) =
      destuff 5 xs ++ (destuffStep 5 (final (destuffStep 5) (.counting 0) xs) b).2 :=
  output_append_singleton _ (DestuffState.counting 0) xs b

theorem length_destuff_le_append (xs ys : List Bool) :
    (destuff 5 xs).length ≤ (destuff 5 (xs ++ ys)).length :=
  (output_append_isPrefix _ (DestuffState.counting 0) xs ys).length_le

theorem unstuffBit_stage {n : ℕ} {data : Block Byte n} {consumed : List Bool}
    {s : UnstuffState n} {currentByte : Byte} {offset : ℕ} (hs : UnstuffStage data consumed s)
    (hoffset : offset < 8)
    (hroom : 8 + (destuff 5 (consumed ++ [currentByte.getMsbD offset])).length ≤ 8 * n)
    (hlength16 : 8 + (destuff 5 (consumed ++ [currentByte.getMsbD offset])).length < 2 ^ 16) :
    ∃ s', unstuffBit currentByte s offset = .ok s' ∧
      UnstuffStage data (consumed ++ [currentByte.getMsbD offset]) s' := by
  rw [destuff_append_singleton, List.length_append, ← hs.phase_eq, ← Nat.add_assoc,
    ← hs.unstuffedBitLength_eq] at hroom hlength16
  obtain ⟨s', hrun, hcount, hphase, hlength, hpacket⟩ :=
    unstuffBit_eq hoffset hs.bitCount_lt hroom hlength16
  refine ⟨s', hrun, hcount, ?_, ?_, ?_⟩
  · rw [hphase, hs.phase_eq, final_append]
    rfl
  · rw [hlength, destuff_append_singleton, List.length_append, ← hs.phase_eq,
      hs.unstuffedBitLength_eq]
    omega
  · rw [hpacket, destuff_append_singleton, orBlock_append, ← hs.phase_eq,
      hs.unstuffedBitLength_eq, hs.unstuffedPacket_eq]

/-- The inner loop after the first `count` bits of a byte. -/
theorem unstuffBit_stages {n : ℕ} {data : Block Byte n} {consumed : List Bool}
    {s : UnstuffState n} (currentByte : Byte) {count : ℕ} (hcount : count ≤ 8)
    (hs : UnstuffStage data consumed s)
    (hroom : 8 + (destuff 5 (consumed ++ (byteBits currentByte).take count)).length ≤ 8 * n)
    (hlength16 : 8 + (destuff 5 (consumed ++ (byteBits currentByte).take count)).length < 2 ^ 16) :
    ∃ s', (List.range count).foldlM (unstuffBit currentByte) s = .ok s' ∧
      UnstuffStage data (consumed ++ (byteBits currentByte).take count) s' := by
  have hbody (i : ℕ) (s : UnstuffState n) (hi : i < count)
      (hs : UnstuffStage data (consumed ++ (byteBits currentByte).take i) s) :
      ∃ s', unstuffBit currentByte s i = .ok s' ∧
        UnstuffStage data (consumed ++ (byteBits currentByte).take (i + 1)) s' := by
    have hoffset : i < 8 := Nat.lt_of_lt_of_le hi hcount
    have htake : consumed ++ (byteBits currentByte).take (i + 1) =
        consumed ++ (byteBits currentByte).take i ++ [currentByte.getMsbD i] := by
      rw [List.take_add_one, getElem?_byteBits _ hoffset, Option.toList_some, List.append_assoc]
    have hshort := length_destuff_le_append (consumed ++ (byteBits currentByte).take (i + 1))
      (((byteBits currentByte).take count).drop (i + 1))
    have hsplit : (byteBits currentByte).take (i + 1) =
        ((byteBits currentByte).take count).take (i + 1) := by
      rw [List.take_take, Nat.min_eq_left hi]
    rw [List.append_assoc, hsplit, List.take_append_drop, ← hsplit, htake] at hshort
    rw [htake]
    exact unstuffBit_stage hs hoffset (by omega) (by omega)
  exact foldlM_range_stages hbody (by simpa using hs)

theorem unstuffByte_stage {n : ℕ} {data : Block Byte n} {consumed : List Bool}
    {s : UnstuffState n} {packet : List Byte} {index : ℕ} (hindex : index < packet.length)
    (hs : UnstuffStage data consumed s)
    (hroom : 8 + (destuff 5 (consumed ++ byteBits packet[index])).length ≤ 8 * n)
    (hlength16 : 8 + (destuff 5 (consumed ++ byteBits packet[index])).length < 2 ^ 16) :
    ∃ s', unstuffByte packet s index = .ok s' ∧
      UnstuffStage data (consumed ++ byteBits packet[index]) s' := by
  have hwhole : (byteBits packet[index]).take 8 = byteBits packet[index] :=
    List.take_of_length_le (Nat.le_of_eq (length_byteBits _))
  rw [unstuffByte, load_of_lt _ hindex, ok_bind]
  rw [← hwhole] at hroom hlength16 ⊢
  exact unstuffBit_stages _ (Nat.le_refl 8) hs hroom hlength16

/-- The content bits as the bytes of the packet that the outer loop reads. -/
theorem contentBits_eq (packet : List Byte) (packetLen : ℕ) :
    contentBits packet packetLen = bits ((packet.take (1 + (packetLen - 2))).drop 1) := by
  rw [contentBits, List.drop_take, List.drop_take]
  congr 2
  omega

theorem bits_take_succ {packet : List Byte} {i : ℕ} (hpos : 1 ≤ i) (hi : i < packet.length) :
    bits ((packet.take (i + 1)).drop 1) =
      bits ((packet.take i).drop 1) ++ byteBits packet[i] := by
  rw [List.take_add_one, List.getElem?_eq_getElem hi, Option.toList_some,
    List.drop_append_of_le_length (by rw [List.length_take]; omega), bits_append]
  simp

/-- What is kept of the first bytes is not longer than what is kept of all. -/
theorem length_destuff_take_le (packet : List Byte) {packetLen i : ℕ}
    (hi : i ≤ 1 + (packetLen - 2)) :
    (destuff 5 (bits ((packet.take i).drop 1))).length ≤
      (destuff 5 (contentBits packet packetLen)).length := by
  have hbytes : (packet.drop 1).take (i - 1) <+: (packet.drop 1).take (1 + (packetLen - 2) - 1) :=
    List.take_prefix_take_left (Nat.sub_le_sub_right hi 1)
  rw [← List.drop_take, ← List.drop_take] at hbytes
  rcases hbytes with ⟨rest, hrest⟩
  rw [contentBits_eq, ← hrest, bits_append]
  exact length_destuff_le_append _ _

/-- The output of `ax25Unstuff` when the bit loops start. -/
def flagged {n : ℕ} (data : Block Byte n) : Block Byte n := ⟨data.cells.set 0 ax25Flag, by simp⟩

/-- The bit loops of `ax25Unstuff` are in the stage that their packet says, if it fits. -/
theorem unstuffBits_stage {n : ℕ} {packet : List Byte} {packetLen : ℕ} (data : Block Byte n)
    (hlen : packetLen ≤ packet.length)
    (hroom : 8 + (destuff 5 (contentBits packet packetLen)).length ≤ 8 * n)
    (hlength16 : 8 + (destuff 5 (contentBits packet packetLen)).length < 2 ^ 16) :
    ∃ s, unstuffBits packet packetLen data = .ok s ∧
      UnstuffStage (flagged data) (contentBits packet packetLen) s := by
  have hzero : 0 < n := by omega
  rw [unstuffBits, Block.store_of_lt _ _ hzero, ok_bind]
  have hbody (i : ℕ) (s : UnstuffState n) (hi : i < 1 + (packetLen - 2))
      (hs : 1 ≤ i ∧ UnstuffStage (flagged data) (bits ((packet.take i).drop 1)) s) :
      ∃ s', unstuffByte packet s i = .ok s' ∧
        1 ≤ i + 1 ∧ UnstuffStage (flagged data) (bits ((packet.take (i + 1)).drop 1)) s' := by
    obtain ⟨hpos, hs⟩ := hs
    have hindex : i < packet.length := by omega
    have htake := bits_take_succ hpos hindex
    have hshort := length_destuff_take_le packet hi
    rw [htake] at hshort
    obtain ⟨s', hrun, hend⟩ := unstuffByte_stage hindex hs (by omega) (by omega)
    exact ⟨s', hrun, Nat.le_add_left 1 i, htake ▸ hend⟩
  have hstart : 1 ≤ 1 ∧
      UnstuffStage (flagged data) (bits ((packet.take 1).drop 1)) ⟨0, false, 8, flagged data⟩ := by
    have hnil : bits ((packet.take 1).drop 1) = [] := by
      rw [List.drop_eq_nil_of_le (by rw [List.length_take]; omega), bits_nil]
    rw [hnil]
    exact ⟨Nat.le_refl 1, Nat.zero_lt_succ 4, rfl, rfl, rfl⟩
  obtain ⟨s, hrun, -, hend⟩ := foldlM_range'_stages hbody rfl hstart
  rw [← contentBits_eq] at hend
  exact ⟨s, hrun, hend⟩

/-- The bit loops of `ax25Unstuff` write the destuffed content after a flag, if it fits. -/
theorem unstuffBits_eq {n : ℕ} {packet : List Byte} {packetLen : ℕ} (data : Block Byte n)
    (hlen : packetLen ≤ packet.length)
    (hroom : 8 + (destuff 5 (contentBits packet packetLen)).length ≤ 8 * n)
    (hlength16 : 8 + (destuff 5 (contentBits packet packetLen)).length < 2 ^ 16) :
    ∃ s, unstuffBits packet packetLen data = .ok s ∧
      s.unstuffedBitLength = 8 + (destuff 5 (contentBits packet packetLen)).length ∧
      s.unstuffedPacket.cells =
        orBits (data.cells.set 0 ax25Flag) 8 (destuff 5 (contentBits packet packetLen)) := by
  obtain ⟨s, hrun, hend⟩ := unstuffBits_stage data hlen hroom hlength16
  refine ⟨s, hrun, hend.unstuffedBitLength_eq, ?_⟩
  rw [hend.unstuffedPacket_eq]
  rfl

/-! ## The scan for trailing zero bytes -/

/-- The scan counts the zero bytes that end at its first position. -/
structure TailSpec {n : ℕ} (packet : Block Byte n) (bitLength tailBytes : ℕ) : Prop where
  le_info : tailBytes ≤ ax25InfoBytes
  le_index : tailBytes ≤ bitLength / 8
  zeros : ∀ j < tailBytes, packet.cells[bitLength / 8 - j]? = some 0

/-- The scan ends in front of a byte that is not zero, or after 255 zero bytes; the opening
flag keeps it inside the packet. -/
theorem tailLoop_eq {n : ℕ} {packet : Block Byte n} {bitLength : ℕ} (hindex : bitLength / 8 < n)
    (hflag : packet.cells[0]? = some ax25Flag) :
    ∃ tailBytes, whileLoop (tailGuard packet bitLength) (fun tailBytes => .ok (tailBytes + 1))
        (2 ^ 8) 0 = .ok tailBytes ∧
      TailSpec packet bitLength tailBytes ∧
      (tailBytes = ax25InfoBytes ∨ packet.cells[bitLength / 8 - tailBytes]? ≠ some 0) := by
  have hload (t : ℕ) (ht : t ≤ bitLength / 8) : ∃ byte, packet.cells[bitLength / 8 - t]? = some byte ∧
      tailGuard packet bitLength t = .ok (byte = 0 && decide (t < ax25InfoBytes)) := by
    have hcell : bitLength / 8 - t < packet.cells.length := by
      rw [packet.length_cells]
      omega
    refine ⟨_, List.getElem?_eq_getElem hcell, ?_⟩
    rw [tailGuard, if_neg (by omega), load_of_lt _ hcell]
    rfl
  have hguard (t : ℕ) (ht : TailSpec packet bitLength t) :
      ∃ b, tailGuard packet bitLength t = .ok b := by
    obtain ⟨byte, -, hbyte⟩ := hload t ht.le_index
    exact ⟨_, hbyte⟩
  have hbody (t : ℕ) (ht : TailSpec packet bitLength t)
      (htrue : tailGuard packet bitLength t = .ok true) :
      ∃ t', (.ok (t + 1) : Except Fault ℕ) = .ok t' ∧ TailSpec packet bitLength t' ∧
        ax25InfoBytes - t' < ax25InfoBytes - t := by
    obtain ⟨byte, hcell, hbyte⟩ := hload t ht.le_index
    rw [htrue] at hbyte
    simp only [Except.ok.injEq, Bool.true_eq, Bool.and_eq_true, decide_eq_true_eq] at hbyte
    obtain ⟨rfl, hlt⟩ := hbyte
    have hne : bitLength / 8 - t ≠ 0 := by
      intro hzero
      rw [hzero, hflag] at hcell
      contradiction
    refine ⟨t + 1, rfl, ⟨hlt, by omega, ?_⟩, by omega⟩
    intro j hj
    rcases Nat.lt_succ_iff_lt_or_eq.mp hj with hj | rfl
    · exact ht.zeros j hj
    · exact hcell
  have hstart : TailSpec packet bitLength 0 :=
    ⟨Nat.zero_le _, Nat.zero_le _, fun j hj => absurd hj (Nat.not_lt_zero j)⟩
  obtain ⟨t, hrun, hspec, hend⟩ := whileLoop_of_measure (fun t => ax25InfoBytes - t) hguard hbody
    (by decide : ax25InfoBytes - 0 < 2 ^ 8) hstart
  refine ⟨t, hrun, hspec, ?_⟩
  obtain ⟨byte, hcell, hbyte⟩ := hload t hspec.le_index
  rw [hend] at hbyte
  simp only [Except.ok.injEq, Bool.false_eq, Bool.and_eq_false_iff, decide_eq_false_iff_not] at hbyte
  rcases hbyte with hne | hge
  · right
    rw [hcell]
    simpa using hne
  · left
    have := hspec.le_info
    omega

end ObcGsInterface
