import ObcGsInterface.Verification.Pipeline.Checksum
import ObcGsInterface.Verification.Stuffing.RoundTrip

/-! # Unstuffing on the ground station

`AX25.unstuff` packs the destuffed bits into bytes with a zero byte's worth of padding, and
takes that byte away again where the length shows that it is none of the frame's. -/

namespace ObcGsInterface

open CArray BitStream BitStuffing

/-! ## Bytes of digits -/

theorem byteBits_intBase2 {digits : List Bool} (h : digits.length = 8) :
    byteBits (BitVec.ofNat 8 (intBase2 digits)) = digits := by
  apply List.ext_getElem?
  intro i
  by_cases hi : i < 8
  · have hindex : digits.length - 1 - (7 - i) = i := by omega
    have hlt : 7 - i < digits.length := by omega
    have hin : i < digits.length := by omega
    rw [getElem?_byteBits _ hi, BitVec.getMsbD_eq_getLsbD, BitVec.getLsbD_ofNat, testBit_intBase2,
      show 8 - 1 - i = 7 - i from rfl, hindex, List.getD_eq_getElem?_getD,
      List.getElem?_eq_getElem hin]
    simp [hi, hlt]
    omega
  · rw [List.getElem?_eq_none (by simpa using hi), List.getElem?_eq_none (by omega)]

/-- The bytes made of groups of eight digits have these digits as their bits. -/
theorem bits_groups (digits : List Bool) {count : ℕ} (h : 8 * count ≤ digits.length) :
    bits ((List.range count).map fun i =>
        BitVec.ofNat 8 (intBase2 ((digits.drop (8 * i)).take 8))) = digits.take (8 * count) := by
  induction count with
  | zero => rfl
  | succ count ih =>
      have hgroup : ((digits.drop (8 * count)).take 8).length = 8 := by
        rw [List.length_take, List.length_drop]
        omega
      rw [List.range_succ, List.map_append, bits_append, ih (by omega), List.map_singleton, bits_cons,
        bits_nil, List.append_nil, byteBits_intBase2 hgroup, Nat.mul_succ, List.take_add]

theorem bits_intListToBytes (data : List Bool) :
    bits (intListToBytes data) = data ++ List.replicate (8 - data.length % 8) false := by
  have hlength : (data ++ List.replicate (8 - data.length % 8) false).length =
      data.length + (8 - data.length % 8) := by
    rw [List.length_append, List.length_replicate]
  have hcount : 8 * ((data ++ List.replicate (8 - data.length % 8) false).length / 8) =
      (data ++ List.replicate (8 - data.length % 8) false).length := by
    rw [hlength]
    omega
  rw [intListToBytes, bits_groups _ (Nat.le_of_eq hcount), hcount, List.take_length]

/-- Whole bytes and less than a byte of zeros come back with one zero byte behind them. -/
theorem intListToBytes_bits (content : List Byte) {pad : ℕ} (h : pad < 8) :
    intListToBytes (bits content ++ List.replicate pad false) = content ++ [0] := by
  apply bits_injective
  have hlength : (bits content ++ List.replicate pad false).length = 8 * content.length + pad := by
    rw [List.length_append, length_bits, List.length_replicate]
  have hpad : pad + (8 - (8 * content.length + pad) % 8) = 8 := by omega
  rw [bits_intListToBytes, hlength, List.append_assoc, ← List.replicate_add, hpad, bits_append]
  rfl

/-! ## Packets -/

/-- `pyStuffing` drops the bit behind every run of five ones. -/
def DropsStuffedBits (startUnstuffing : List Bool → List Bool) : Prop :=
  ∀ bs, startUnstuffing bs = destuff 5 bs

/-- What `AX25.unstuff` takes for padding: a zero byte at the end of data that is longer than
an I frame, or too short for one. -/
def trimmed (data : List Byte) : List Byte :=
  if data.getLast? = some 0 ∧
      (data.length > rsEncodedDataSize + ax25NonInfoBytes ∨ data.length < rsEncodedDataSize) then
    data.dropLast
  else data

theorem length_intListToBytes (data : List Bool) :
    (intListToBytes data).length = data.length / 8 + 1 := by
  rw [intListToBytes, List.length_map, List.length_range, List.length_append, List.length_replicate]
  omega

/-- `AX25.unstuff` trims the bytes of the destuffed bits. -/
theorem unstuff_flags {startUnstuffing : List Bool → List Bool}
    (hunstuff : DropsStuffedBits startUnstuffing) (body : List Byte) :
    Ax25.unstuff startUnstuffing (ax25Flag :: (body ++ [ax25Flag])) =
      .ok (ax25Flag :: (trimmed (intListToBytes (destuff 5 (bits body))) ++ [ax25Flag])) := by
  have hinner : (ax25Flag :: (body ++ [ax25Flag])).dropLast.drop 1 = body := by
    rw [← List.cons_append, List.dropLast_concat]
    rfl
  rw [Ax25.unstuff, hinner, hunstuff, bytesToIntList]
  have hlength := length_intListToBytes (destuff 5 (bits body))
  generalize intListToBytes (destuff 5 (bits body)) = data at hlength
  obtain ⟨last, hlast⟩ : ∃ last, data.getLast? = some last :=
    ⟨_, List.getLast?_eq_some_getLast (List.ne_nil_of_length_eq_add_one hlength)⟩
  simp only [hlast, trimmed, Option.some.injEq, and_or_left]
  rfl

/-- A frame comes out of `AX25.unstuff` as it went into `ax25Stuff`, if the length of its
content is none from 254 to 272. -/
theorem unstuff_stuffed {startUnstuffing : List Bool → List Bool}
    (hunstuff : DropsStuffedBits startUnstuffing) {content : List Byte}
    (h : rsEncodedDataSize + ax25NonInfoBytes ≤ content.length ∨
      content.length + 1 < rsEncodedDataSize) :
    Ax25.unstuff startUnstuffing (ax25Flag :: (pack (stuff 5 (bits content)) ++ [ax25Flag])) =
      .ok (ax25Flag :: (content ++ [ax25Flag])) := by
  have hlength : (content ++ [(0 : Byte)]).length = content.length + 1 := by simp
  rw [unstuff_flags hunstuff, bits_pack, destuff_stuff (by decide),
    intListToBytes_bits _ (padding_lt _), trimmed, List.getLast?_concat, hlength,
    if_pos ⟨rfl, by omega⟩, List.dropLast_concat]

/-- **The ground station unstuffs what the satellite stuffs**, for I frames and U frames with
any content, and any zero-filled buffer that the packet fits into. -/
theorem unstuff_ax25Stuff {startUnstuffing : List Bool → List Bool}
    (hunstuff : DropsStuffedBits startUnstuffing) {content : List Byte}
    (h : content.length = 273 ∨ content.length = 17) {n : ℕ}
    (hroom : byteCount (stuff 5 (bits content)) + 2 ≤ n) :
    ∃ stuffed, ax25Stuff (ax25Flag :: (content ++ [ax25Flag])) (content.length + 2)
        (Block.fill n 0) = .ok stuffed ∧
      stuffed.err = .success ∧
      Ax25.unstuff startUnstuffing (stuffed.stuffedData.cells.take stuffed.stuffedDataLen) =
        .ok (ax25Flag :: (content ++ [ax25Flag])) := by
  obtain ⟨stuffed, hstuff, herr, hlength, hcells⟩ := ax25Stuff_flags (by omega) hroom
  have hpacket : stuffed.stuffedData.cells.take stuffed.stuffedDataLen =
      ax25Flag :: (pack (stuff 5 (bits content)) ++ [ax25Flag]) := by
    rw [hcells, hlength, ← length_pack, List.take_succ_cons, List.take_append,
      List.take_of_length_le (Nat.le_succ _), Nat.add_sub_cancel_left]
    rfl
  refine ⟨stuffed, hstuff, herr, ?_⟩
  rw [hpacket, unstuff_stuffed hunstuff]
  rcases h with h | h
  · exact .inl (Nat.le_of_eq h.symm)
  · rw [h]
    exact .inr (by decide)

/-- A U frame whose content ends in zero bytes. -/
theorem unstuff_ax25Stuff_zeros :
    ∃ stuffed, ax25Stuff
        (ax25Flag :: ((List.replicate 15 0xFF ++ List.replicate 2 0) ++ [ax25Flag])) 19
        (Block.fill ax25MaximumUFrameCmdLength 0) = .ok stuffed ∧
      stuffed.err = .success ∧
      Ax25.unstuff (destuff 5) (stuffed.stuffedData.cells.take stuffed.stuffedDataLen) =
        .ok (ax25Flag :: ((List.replicate 15 0xFF ++ List.replicate 2 0) ++ [ax25Flag])) :=
  unstuff_ax25Stuff (fun _ => rfl) (.inr rfl) (byteCount_stuff_le_uFrame rfl)

end ObcGsInterface
