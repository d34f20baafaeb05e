import ObcGsInterface.Verification.Stuffing.Loops

/-! # The stuffing round trip

Stuffing a frame and unstuffing the packet gives back the content bits and less than a
byte of padding. What happens then depends on the last byte of the content: the scan for
trailing zero bytes cannot tell a zero byte of the content from the padding. -/

namespace ObcGsInterface

open CArray Loop BitStream BitStuffing Transducer

/-! ## Fresh buffers -/

/-- The content bits of a packet that is presented with its flags. -/
theorem contentBits_flags (body rest : List Byte) (first last : Byte) :
    contentBits (first :: (body ++ last :: rest)) (body.length + 2) = bits body := by
  have htake : (first :: (body ++ last :: rest)).take (body.length + 1) = first :: body := by
    rw [List.take_succ_cons, List.take_left]
  rw [contentBits, Nat.add_sub_assoc (by decide), htake]
  rfl

/-- Stuffing into a zero-filled buffer gives a flag, the packed stuffed bits, a flag and
zeros. -/
theorem ax25Stuff_fill {n : ℕ} {rawData : List Byte} {rawDataLen : ℕ}
    (hlen : rawDataLen ≤ rawData.length)
    (hroom : byteCount (stuff 5 (contentBits rawData rawDataLen)) + 2 ≤ n)
    (hraw16 : 8 * rawDataLen < 2 ^ 16)
    (hstuffed16 : 8 + (stuff 5 (contentBits rawData rawDataLen)).length < 2 ^ 16) :
    ∃ result, ax25Stuff rawData rawDataLen (Block.fill n 0) = .ok result ∧
      result.err = .success ∧
      result.stuffedDataLen = byteCount (stuff 5 (contentBits rawData rawDataLen)) + 2 ∧
      result.stuffedData.cells =
        ax25Flag :: (pack (stuff 5 (contentBits rawData rawDataLen)) ++
          ax25Flag :: List.replicate (n - result.stuffedDataLen) 0) := by
  have hcount : (8 + (stuff 5 (contentBits rawData rawDataLen)).length + 7) / 8 =
      byteCount (stuff 5 (contentBits rawData rawDataLen)) + 1 := by
    unfold byteCount
    omega
  obtain ⟨result, hrun, herr, hlength, hcells⟩ :=
    ax25Stuff_eq (Block.fill n 0) hlen (by omega) hraw16 hstuffed16
  generalize stuff 5 (contentBits rawData rawDataLen) = stuffed at *
  rw [hcount] at hlength
  obtain ⟨k, rfl⟩ : ∃ k, n = byteCount stuffed + 2 + k := ⟨_, (Nat.add_sub_cancel' hroom).symm⟩
  refine ⟨result, hrun, herr, hlength, ?_⟩
  have hfill : (Block.fill (byteCount stuffed + 2 + k) (0 : Byte)).cells =
      [0] ++ List.replicate (byteCount stuffed + (k + 1)) 0 := by
    rw [Block.cells_fill, show byteCount stuffed + 2 + k = byteCount stuffed + (k + 1) + 1 by omega,
      List.replicate_succ]
    rfl
  have hbits := orBits_eq_pack [0] (byteCount stuffed + (k + 1)) stuffed (Nat.le_add_right _ _)
  have hlast : byteCount stuffed + 2 - 1 = byteCount stuffed + 1 := by omega
  have hrest : byteCount stuffed + 2 + k - (byteCount stuffed + 2) = k := by omega
  rw [List.length_singleton, Nat.mul_one, Nat.add_sub_cancel_left, List.replicate_succ] at hbits
  rw [hcells, hfill, hlength, hbits, hlast, hrest, List.singleton_append, List.set_cons_zero,
    List.set_cons_succ, List.set_append_right _ _ (by rw [length_pack]), length_pack, Nat.sub_self,
    List.set_cons_zero]

/-- Both branches behind the scan put a flag behind what is left and count up to it. -/
theorem ax25Unstuff_of_scan {n packetLen tailBytes place : ℕ} {packet : List Byte}
    {data : Block Byte n} {s : UnstuffState n} (hrun : unstuffBits packet packetLen data = .ok s)
    (hscan : whileLoop (tailGuard s.unstuffedPacket s.unstuffedBitLength)
      (fun tailBytes => .ok (tailBytes + 1)) (2 ^ 8) 0 = .ok tailBytes)
    (hnone : tailBytes = 0 → (s.unstuffedBitLength + 7) / 8 = place)
    (hsome : tailBytes ≠ 0 → s.unstuffedBitLength / 8 + 1 = place + tailBytes)
    (hplace : place < n) :
    ax25Unstuff packet packetLen data =
      .ok ⟨.success, ⟨s.unstuffedPacket.cells.set place ax25Flag, by simp⟩, place + 1⟩ := by
  rw [ax25Unstuff, hrun, ok_bind, hscan, ok_bind]
  by_cases hzero : tailBytes = 0
  · rw [if_pos hzero, hnone hzero, Block.store_of_lt _ _ hplace, ok_bind, pure_eq_ok]
  · have hindex : s.unstuffedBitLength / 8 + 1 - tailBytes = place := by
      rw [hsome hzero, Nat.add_sub_cancel]
    have hcount : s.unstuffedBitLength / 8 + 2 - tailBytes = place + 1 := by
      have := hsome hzero
      omega
    rw [if_neg hzero, hindex, hcount, Block.store_of_lt _ _ hplace, ok_bind, pure_eq_ok]

/-- Unstuffing a packet whose destuffed content is whole bytes and less than a byte of
zeros. The scan takes `tailBytes` zero bytes away, the padding byte being the first. -/
theorem ax25Unstuff_of_destuff {n packetLen pad : ℕ} {packet bytes : List Byte}
    (hdestuff : destuff 5 (contentBits packet packetLen) =
      bits bytes ++ List.replicate pad false)
    (hpad : pad < 8) (hlen : packetLen ≤ packet.length) (hroom : bytes.length + 2 ≤ n)
    (hlength16 : 8 * n < 2 ^ 16) :
    ∃ tailBytes result, ax25Unstuff packet packetLen (Block.fill n 0) = .ok result ∧
      result.err = .success ∧
      1 ≤ tailBytes ∧ tailBytes ≤ bytes.length + 1 ∧
      (tailBytes = 1 ↔ bytes.getLast? ≠ some 0) ∧
      (∀ i byte, bytes[i]? = some byte → byte ≠ 0 → tailBytes ≤ bytes.length - i) ∧
      result.unstuffedPacketLen = bytes.length + 3 - tailBytes ∧
      result.unstuffedPacket.cells =
        (ax25Flag :: (bytes ++ List.replicate (n - 1 - bytes.length) 0)).set
          (bytes.length + 2 - tailBytes) ax25Flag := by
  have hbitLength : (bits bytes ++ List.replicate pad false).length = 8 * bytes.length + pad := by
    rw [List.length_append, length_bits, List.length_replicate]
  obtain ⟨s, hrun, hlength, hcells⟩ := unstuffBits_eq (Block.fill n 0) hlen
    (by rw [hdestuff, hbitLength]; omega) (by rw [hdestuff, hbitLength]; omega)
  rw [hdestuff, hbitLength] at hlength
  have hindex : s.unstuffedBitLength / 8 = bytes.length + 1 := by omega
  obtain ⟨k, rfl⟩ : ∃ k, n = k + 1 := ⟨n - 1, by omega⟩
  have hflagged : s.unstuffedPacket.cells =
      ax25Flag :: (bytes ++ List.replicate (k - bytes.length) 0) := by
    have hbits := orBits_bits [ax25Flag] bytes k pad (by omega)
    rw [hcells, hdestuff, Block.cells_fill, List.replicate_succ, List.set_cons_zero]
    exact hbits
  have hin : s.unstuffedBitLength / 8 < k + 1 := by omega
  have hflag : s.unstuffedPacket.cells[0]? = some ax25Flag := by rw [hflagged]; rfl
  have hpadding : s.unstuffedPacket.cells[bytes.length + 1]? = some 0 := by
    rw [hflagged, List.getElem?_cons_succ, List.getElem?_append_right (Nat.le_refl _),
      List.getElem?_replicate_of_lt (by omega)]
  have hlast : s.unstuffedPacket.cells[bytes.length]? = some 0 ↔ bytes.getLast? = some 0 := by
    rw [hflagged]
    cases bytes with
    | nil => simp [ax25Flag]
    | cons b bytes =>
        rw [List.length_cons, List.getElem?_cons_succ, List.getElem?_append_left (by simp),
          List.getLast?_eq_getElem?, List.length_cons, Nat.add_sub_cancel]
  obtain ⟨tailBytes, hscan, hspec, hend⟩ := tailLoop_eq hin hflag
  have hle := hspec.le_index
  have hzeros := hspec.zeros
  rw [hindex] at hle hzeros hend
  have hpos : tailBytes ≠ 0 := by
    rintro rfl
    rcases hend with hmax | hne
    · contradiction
    · exact hne hpadding
  have hone : tailBytes = 1 ↔ bytes.getLast? ≠ some 0 := by
    rw [ne_eq, ← hlast]
    constructor
    · rintro rfl
      rcases hend with hmax | hne
      · contradiction
      · exact hne
    · intro hne
      by_contra htail
      exact hne (hzeros 1 (by omega))
  have hstop (i : ℕ) (byte : Byte) (hbyte : bytes[i]? = some byte) (hne : byte ≠ 0) :
      tailBytes ≤ bytes.length - i := by
    by_contra hlt
    have hi : i < bytes.length := (List.getElem?_eq_some_iff.mp hbyte).1
    have hzero := hzeros (bytes.length - i) (Nat.lt_of_not_ge hlt)
    rw [show bytes.length + 1 - (bytes.length - i) = i + 1 by omega, hflagged,
      List.getElem?_cons_succ, List.getElem?_append_left hi, hbyte, Option.some.injEq] at hzero
    exact hne hzero
  have hplace : bytes.length + 2 - tailBytes < k + 1 := by omega
  have hresult := ax25Unstuff_of_scan hrun hscan (fun hzero => absurd hzero hpos)
    (fun _ => by omega) hplace
  refine ⟨tailBytes, _, hresult, rfl, by omega, hle, hone, hstop, ?_, ?_⟩
  · change bytes.length + 2 - tailBytes + 1 = bytes.length + 3 - tailBytes
    omega
  · simp only [hflagged, Nat.add_sub_cancel]

/-- Destuffing what `ax25Stuff` writes gives the content back, and the padding. -/
theorem destuff_stuffed {cells content rest : List Byte} {len : ℕ}
    (hcells : cells = ax25Flag :: (pack (stuff 5 (bits content)) ++ ax25Flag :: rest))
    (hlen : len = byteCount (stuff 5 (bits content)) + 2) :
    destuff 5 (contentBits cells len) =
      bits content ++ List.replicate (padding (stuff 5 (bits content))) false := by
  rw [hlen, hcells, ← length_pack, contentBits_flags, bits_pack, destuff_stuff (by decide)]

/-! ## The round trip of a frame -/

/-- Stuffing the frame into a fresh buffer and unstuffing the packet into another gives the
frame and its length. -/
def RoundTrips (frame : List Byte) : Prop :=
  ∃ stuffed unstuffed,
    ax25Stuff frame frame.length (Block.fill ax25MaximumPktLen 0) = .ok stuffed ∧
    stuffed.err = .success ∧
    ax25Unstuff stuffed.stuffedData.cells stuffed.stuffedDataLen
      (Block.fill ax25MinimumIFrameLen 0) = .ok unstuffed ∧
    unstuffed.err = .success ∧
    unstuffed.unstuffedPacketLen = frame.length ∧
    unstuffed.unstuffedPacket.cells.take frame.length = frame

theorem length_stuff_bits_le (content : List Byte) :
    5 * (stuff 5 (bits content)).length ≤ 6 * (8 * content.length) := by
  rw [← length_bits]
  exact length_stuff_le _

/-- The stuffed form of up to 273 bytes fits between the flags of a packet. -/
theorem byteCount_stuff_le {content : List Byte} (h : content.length ≤ 273) :
    byteCount (stuff 5 (bits content)) + 2 ≤ ax25MaximumPktLen := by
  have hlength := length_stuff_bits_le content
  have hmax : ax25MaximumPktLen = 330 := rfl
  unfold byteCount
  omega

/-- The stuffed form of the 17 bytes of a U frame fits into a smaller packet. -/
theorem byteCount_stuff_le_uFrame {content : List Byte} (h : content.length = 17) :
    byteCount (stuff 5 (bits content)) + 2 ≤ ax25MaximumUFrameCmdLength := by
  have hlength := length_stuff_bits_le content
  have hmax : ax25MaximumUFrameCmdLength = 37 := rfl
  unfold byteCount
  omega

/-- The packet of a frame in any buffer that holds it; the loop does not read the first and the
last byte of the frame. -/
theorem ax25Stuff_frame {content : List Byte} (h : content.length ≤ 273) (first last : Byte) {n : ℕ}
    (hroom : byteCount (stuff 5 (bits content)) + 2 ≤ n) :
    ∃ stuffed, ax25Stuff (first :: (content ++ [last])) (content.length + 2)
        (Block.fill n 0) = .ok stuffed ∧
      stuffed.err = .success ∧
      stuffed.stuffedDataLen = byteCount (stuff 5 (bits content)) + 2 ∧
      stuffed.stuffedData.cells = ax25Flag :: (pack (stuff 5 (bits content)) ++
        ax25Flag :: List.replicate (n - stuffed.stuffedDataLen) 0) := by
  have hframe : (first :: (content ++ [last])).length = content.length + 2 := by simp
  have hcontent : contentBits (first :: (content ++ [last])) (content.length + 2) =
      bits content := contentBits_flags content [] first last
  have hbits := length_stuff_bits_le content
  rw [← hcontent] at hroom hbits
  have hstuff := ax25Stuff_fill (Nat.le_of_eq hframe.symm) hroom (by omega) (by omega)
  rwa [hcontent] at hstuff

/-- The packet of a frame with content between two flags, in any buffer that holds it. -/
theorem ax25Stuff_flags {content : List Byte} (h : content.length ≤ 273) {n : ℕ}
    (hroom : byteCount (stuff 5 (bits content)) + 2 ≤ n) :
    ∃ stuffed, ax25Stuff (ax25Flag :: (content ++ [ax25Flag])) (content.length + 2)
        (Block.fill n 0) = .ok stuffed ∧
      stuffed.err = .success ∧
      stuffed.stuffedDataLen = byteCount (stuff 5 (bits content)) + 2 ∧
      stuffed.stuffedData.cells = ax25Flag :: (pack (stuff 5 (bits content)) ++
        ax25Flag :: List.replicate (n - stuffed.stuffedDataLen) 0) :=
  ax25Stuff_frame h ax25Flag ax25Flag hroom

/-- A frame with content between two flags makes the round trip exactly when its content
does not end in a zero byte. -/
theorem roundTrips_iff_getLast {content : List Byte} (h : content.length ≤ 273) :
    RoundTrips (ax25Flag :: (content ++ [ax25Flag])) ↔ content.getLast? ≠ some 0 := by
  have hframe : (ax25Flag :: (content ++ [ax25Flag])).length = content.length + 2 := by simp
  have hmin : ax25MinimumIFrameLen = 275 := rfl
  have hroom := byteCount_stuff_le h
  obtain ⟨stuffed, hstuff, herr, hlength, hcells⟩ := ax25Stuff_flags h hroom
  rw [← hframe] at hstuff
  have hdestuff := destuff_stuffed hcells hlength
  have hpacket : stuffed.stuffedDataLen ≤ stuffed.stuffedData.cells.length := by
    rwa [Block.length_cells, hlength]
  obtain ⟨tailBytes, unstuffed, hunstuff, herr', hpos, hle, hone, -, hlength', hcells'⟩ :=
    ax25Unstuff_of_destuff (n := ax25MinimumIFrameLen) hdestuff (padding_lt _) hpacket
      (by omega) (by decide)
  rw [← hone]
  constructor
  · rintro ⟨stuffed', unstuffed', hstuff', -, hunstuff', -, hlen, -⟩
    rw [hstuff] at hstuff'
    cases hstuff'
    rw [hunstuff] at hunstuff'
    cases hunstuff'
    rw [hlength', hframe] at hlen
    omega
  · rintro rfl
    refine ⟨stuffed, unstuffed, hstuff, herr, hunstuff, herr', ?_, ?_⟩
    · rw [hlength', hframe]
      omega
    · obtain ⟨k, hk⟩ : ∃ k, ax25MinimumIFrameLen - 1 - content.length = k + 1 :=
        ⟨273 - content.length, by omega⟩
      have hindex : content.length + 2 - 1 = content.length + 1 := by omega
      rw [hcells', hframe, hk, List.replicate_succ, hindex, List.set_cons_succ,
        List.set_append_right _ _ (Nat.le_refl _), Nat.sub_self, List.set_cons_zero,
        List.take_succ_cons, List.take_append, List.take_of_length_le (by omega)]
      simp

theorem exists_content {frame : List Byte} (hfirst : frame.head? = some ax25Flag)
    (hlast : frame.getLast? = some ax25Flag) (hlength : 2 ≤ frame.length) :
    ∃ content, frame = ax25Flag :: (content ++ [ax25Flag]) := by
  cases frame with
  | nil => contradiction
  | cons b frame =>
      obtain rfl : b = ax25Flag := by simpa using hfirst
      have hne : frame ≠ [] := by
        rintro rfl
        simp at hlength
      rw [List.getLast?_cons_of_ne_nil hne] at hlast
      exact ⟨frame.dropLast, by rw [List.dropLast_append_getLast? _ hlast]⟩

/-- The last byte before the closing flag. -/
theorem getElem?_length_content {content : List Byte} (h : content ≠ []) :
    (ax25Flag :: (content ++ [ax25Flag]))[content.length]? = content.getLast? := by
  cases content with
  | nil => contradiction
  | cons b content =>
      rw [List.length_cons, List.getElem?_cons_succ, List.getElem?_append_left (by simp),
        List.getLast?_eq_getElem?, List.length_cons, Nat.add_sub_cancel]

/-- **The stuffing round trip.** Among the frames of 19 to 275 bytes between two flags, the
ones that are given back are those whose last byte before the closing flag is not zero. -/
theorem stuffing_roundTrip (frame : List Byte) (hshort : ax25MinimumUFrameCmdLength ≤ frame.length)
    (hlong : frame.length ≤ ax25MinimumIFrameLen) (hfirst : frame.head? = some ax25Flag)
    (hlast : frame.getLast? = some ax25Flag) :
    RoundTrips frame ↔ frame[frame.length - 2]? ≠ some 0 := by
  have hmin : ax25MinimumIFrameLen = 275 := rfl
  have hcmd : ax25MinimumUFrameCmdLength = 19 := rfl
  obtain ⟨content, rfl⟩ := exists_content hfirst hlast (by omega)
  have hlength : (ax25Flag :: (content ++ [ax25Flag])).length = content.length + 2 := by simp
  have hne : content ≠ [] := by
    rintro rfl
    exact absurd hshort (by decide)
  rw [hlength, Nat.add_sub_cancel, getElem?_length_content hne, roundTrips_iff_getLast (by omega)]

theorem stuffing_roundTrip_ones :
    RoundTrips (ax25Flag :: (List.replicate 17 0xFF ++ [ax25Flag])) ↔
      (ax25Flag :: (List.replicate 17 0xFF ++ [ax25Flag]))[17]? ≠ some 0 :=
  stuffing_roundTrip _ (by decide) (by decide) (by decide) (by decide)

/-- A frame of 19 bytes whose content ends in a zero byte is not given back. -/
theorem stuffing_roundTrip_fails :
    ¬ ∀ frame : List Byte, ax25MinimumUFrameCmdLength ≤ frame.length →
      frame.length ≤ ax25MinimumIFrameLen → frame.head? = some ax25Flag →
      frame.getLast? = some ax25Flag → RoundTrips frame := by
  intro h
  have hframe := h (ax25Flag :: ((List.replicate 16 0xFF ++ [0]) ++ [ax25Flag]))
    (by decide) (by decide) (by decide) (by decide)
  exact (roundTrips_iff_getLast (by decide)).mp hframe (by decide)

end ObcGsInterface
