import ObcGsInterface.Verification.Stuffing.Bounds
import ObcGsInterface.Verification.Stuffing.Tail

/-! # Reused buffers

Two runs on the same packet whose buffers held different bytes before. The loops OR zero bits
as well as one bits, so the old bytes show wherever a zero is written, and the byte behind
the content decides whether `ax25Unstuff` looks for trailing zero bytes at all. -/

namespace ObcGsInterface

open CArray Loop BitStream BitStuffing

/-! ## Mixed bytes -/

/-- In the bytes that the bits are written to, the old contents agree wherever a zero is
written or the last byte is not filled. -/
def AgreeUnderZeros (written : List Bool) (old old' : List Byte) : Prop :=
  ∀ i < 8 * byteCount written, written[i]?.getD false = false →
    bitAt old (8 + i) = bitAt old' (8 + i)

/-- What comes out is the same exactly when the old contents agree under the zeros. -/
theorem mixedBytes_eq_iff {old old' : List Byte} {written : List Bool}
    (h : byteCount written + 1 ≤ old.length) (h' : byteCount written + 1 ≤ old'.length) :
    mixedBytes old written = mixedBytes old' written ↔ AgreeUnderZeros written old old' := by
  have hlength := length_mixedBytes h
  have hlength' := length_mixedBytes h'
  constructor
  · intro heq i hi hzero
    have hbit := bitAt_mixedBytes h hi
    rw [heq, bitAt_mixedBytes h' hi, hzero, Bool.or_false, Bool.or_false] at hbit
    exact hbit.symm
  · intro hagree
    apply eq_of_bitAt (hlength.trans hlength'.symm)
    intro i hi
    rw [hlength] at hi
    rw [bitAt_mixedBytes h hi, bitAt_mixedBytes h' hi]
    cases hwritten : written[i]?.getD false with
    | false => rw [hagree i hi hwritten]
    | true => rw [Bool.or_true, Bool.or_true]

/-! ## Packets -/

/-- The packet in the buffer of `ax25Stuff`. -/
def StuffResult.packet {n : ℕ} (result : StuffResult n) : List Byte :=
  result.stuffedData.cells.take result.stuffedDataLen

/-- The packet in the buffer of `ax25Unstuff`. -/
def UnstuffResult.packet {n : ℕ} (result : UnstuffResult n) : List Byte :=
  result.unstuffedPacket.cells.take result.unstuffedPacketLen

/-- The packet of `ax25Stuff` in a buffer with any contents. -/
theorem ax25Stuff_packet {n : ℕ} {packet : List Byte} (data : Block Byte n) {written : List Bool}
    (hwritten : stuff 5 (contentBits packet packet.length) = written)
    (hlong : packet.length ≤ ax25MinimumIFrameLen) (hroom : byteCount written + 2 ≤ n) :
    ∃ result, ax25Stuff packet packet.length data = .ok result ∧
      result.stuffedDataLen = byteCount written + 2 ∧
      result.packet = ax25Flag :: (mixedBytes data.cells written ++ [ax25Flag]) := by
  have hbits := length_add_padding written
  have hpadding := padding_lt written
  have hstuffed := length_stuff_contentBits_le packet
  have hmax : ax25MinimumIFrameLen = 275 := rfl
  rw [hwritten] at hstuffed
  obtain ⟨result, hrun, -, hlength, hcells⟩ := ax25Stuff_eq data (Nat.le_refl packet.length)
    (by rw [hwritten]; omega) (by omega) (by rw [hwritten]; omega)
  rw [hwritten] at hlength hcells
  have hreported : result.stuffedDataLen = byteCount written + 2 := by omega
  have hcount : (mixedBytes data.cells written).length = byteCount written :=
    length_mixedBytes (by rw [data.length_cells]; omega)
  have hcell : ((orBits data.cells 8 written).set 0 ax25Flag).length = n := by simp
  refine ⟨result, hrun, hreported, ?_⟩
  rw [StuffResult.packet, hcells, hreported, show byteCount written + 2 - 1 = byteCount written + 1
      from rfl, take_succ_set _ _ (by omega), flag_orBits (by rw [data.length_cells]; omega),
    List.take_succ_cons, List.take_append_of_le_length (Nat.le_of_eq hcount.symm),
    List.take_of_length_le (Nat.le_of_eq hcount), List.cons_append]

/-! ## Two runs -/

theorem Trimmed.drop_eq {content : List Byte} {bound r : ℕ} {scans : Prop}
    (h : Trimmed content bound scans r) :
    content.drop (content.length - r) = List.replicate r 0 := by
  have hle := h.le_length
  rw [List.eq_replicate_iff, List.length_drop]
  refine ⟨by omega, ?_⟩
  intro b hb
  rcases List.getElem?_of_mem hb with ⟨j, hj⟩
  have hlt := (List.getElem?_eq_some_iff.mp hj).1
  rw [List.length_drop] at hlt
  have hzero := h.zeros (r - 1 - j) (by omega)
  rw [List.getElem?_drop] at hj
  rw [show content.length - 1 - (r - 1 - j) = content.length - r + j by omega, hj,
    Option.some.injEq] at hzero
  exact hzero

theorem Trimmed.eq_zero {content : List Byte} {bound r : ℕ} {scans : Prop}
    (h : Trimmed content bound scans r) (hlast : content.getLast? ≠ some 0) : r = 0 := by
  by_contra hpos
  have hzero := h.zeros 0 (by omega)
  rw [Nat.sub_zero, ← List.getLast?_eq_getElem?] at hzero
  exact hlast hzero

/-- A scan that takes nothing away has found no zero byte. -/
theorem Trimmed.getLast?_ne {content : List Byte} {bound : ℕ} {scans : Prop}
    (h : Trimmed content bound scans 0) (hbound : 0 < bound) (hscans : scans) :
    content.getLast? ≠ some 0 := by
  rcases h.stops hscans with heq | heq | hne
  · omega
  · rw [List.length_eq_zero_iff.mp heq.symm]
    simp
  · rwa [Nat.sub_zero, ← List.getLast?_eq_getElem?] at hne

/-- Two trimmed contents of one length leave the same bytes exactly when they are equal and
both or neither are scanned, unless the scan finds nothing. -/
theorem Trimmed.eq_iff {content content' : List Byte} {bound r r' : ℕ} {scans scans' : Prop}
    (h : Trimmed content bound scans r) (h' : Trimmed content' bound scans' r')
    (hlength : content.length = content'.length) (hbound : 0 < bound) :
    (r = r' ∧ content.take (content.length - r) = content'.take (content'.length - r')) ↔
      content = content' ∧ ((scans ↔ scans') ∨ content.getLast? ≠ some 0) := by
  constructor
  · rintro ⟨rfl, htake⟩
    have heq : content = content' := by
      rw [← List.take_append_drop (content.length - r) content, h.drop_eq, htake,
        ← h'.drop_eq, List.take_append_drop]
    refine ⟨heq, ?_⟩
    subst heq
    by_cases hboth : scans ↔ scans'
    · exact Or.inl hboth
    · right
      rcases Classical.em scans with hscans | hidle
      · have hidle' : ¬ scans' := fun hscans' => hboth (iff_of_true hscans hscans')
        exact Trimmed.getLast?_ne (h'.idle hidle' ▸ h) hbound hscans
      · have hscans' : scans' := by
          by_contra hidle'
          exact hboth (iff_of_false hidle hidle')
        exact Trimmed.getLast?_ne (h.idle hidle ▸ h') hbound hscans'
  · rintro ⟨rfl, hscan⟩
    have hremoved : r = r' := by
      rcases hscan with hboth | hlast
      · exact h.unique (propext hboth ▸ h')
      · rw [h.eq_zero hlast, h'.eq_zero hlast]
    exact ⟨hremoved, hremoved ▸ rfl⟩

/-- The scan behaves alike in both buffers: it starts inside the written bytes, or the byte
behind them is zero in both or in neither, or there is no zero byte for it to find. -/
def SameScan (kept : List Bool) (old old' : List Byte) : Prop :=
  kept.length % 8 = 0 →
    (old[byteCount kept + 1]? = some 0 ↔ old'[byteCount kept + 1]? = some 0) ∨
    byteCount kept = 0 ∨ LastByteSet kept old

/-- **Reused buffers.** Whatever two buffers with enough room held before, `ax25Stuff`
reports the same length, and leaves the same packet exactly when the old contents agree under
the zeros; `ax25Unstuff` leaves the same packet and length exactly when they also make it scan
alike. -/
theorem reused_buffers (packet : List Byte) (n : ℕ) (data data' : Block Byte n) :
    (∀ written : List Bool, packet.length ≤ ax25MinimumIFrameLen →
      stuff 5 (contentBits packet packet.length) = written → byteCount written + 2 ≤ n →
      ∃ result result', ax25Stuff packet packet.length data = .ok result ∧
        ax25Stuff packet packet.length data' = .ok result' ∧
        result.stuffedDataLen = result'.stuffedDataLen ∧
        (result.packet = result'.packet ↔ AgreeUnderZeros written data.cells data'.cells)) ∧
    ∀ kept : List Bool, packet.length ≤ ax25MaximumPktLen →
      destuff 5 (contentBits packet packet.length) = kept → byteCount kept + 2 ≤ n →
      ∃ result result', ax25Unstuff packet packet.length data = .ok result ∧
        ax25Unstuff packet packet.length data' = .ok result' ∧
        (result.unstuffedPacketLen = result'.unstuffedPacketLen ∧
            result.packet = result'.packet ↔
          AgreeUnderZeros kept data.cells data'.cells ∧
            SameScan kept data.cells data'.cells) := by
  constructor
  · intro written hlong hwritten hroom
    rcases ax25Stuff_packet data hwritten hlong hroom with ⟨result, hrun, hlength, hpacket⟩
    rcases ax25Stuff_packet data' hwritten hlong hroom with ⟨result', hrun', hlength', hpacket'⟩
    refine ⟨result, result', hrun, hrun', hlength.trans hlength'.symm, ?_⟩
    rw [hpacket, hpacket', ← mixedBytes_eq_iff (by rw [data.length_cells]; omega)
      (by rw [data'.length_cells]; omega)]
    simp
  · intro kept hlong hkept hroom
    have hlength16 : 8 + kept.length < 2 ^ 16 := by
      have hmax : ax25MaximumPktLen = 330 := rfl
      have hcontent := length_contentBits (Nat.le_refl packet.length)
      have hle : kept.length ≤ (contentBits packet packet.length).length :=
        hkept ▸ length_destuff_le _
      omega
    have hdata : byteCount kept + 1 ≤ data.cells.length := by rw [data.length_cells]; omega
    have hdata' : byteCount kept + 1 ≤ data'.cells.length := by rw [data'.length_cells]; omega
    obtain ⟨r, result, hrun, htrim, hlength, hpacket⟩ :=
      ax25Unstuff_eq data hkept (Nat.le_refl _) (by omega) hlength16
    obtain ⟨r', result', hrun', htrim', hlength', hpacket'⟩ :=
      ax25Unstuff_eq data' hkept (Nat.le_refl _) (by omega) hlength16
    refine ⟨result, result', hrun, hrun', ?_⟩
    have hcount := length_mixedBytes hdata
    have hcount' := length_mixedBytes hdata'
    have hbound : 0 < scanBound kept := by
      unfold scanBound
      split_ifs <;> decide
    have hsame := htrim.eq_iff htrim' (hcount.trans hcount'.symm) hbound
    have hr := htrim.le_length
    have hr' := htrim'.le_length
    rw [hcount, hcount', mixedBytes_eq_iff hdata hdata', getLast?_mixedBytes_ne_zero hdata] at hsame
    rw [hcount] at hr
    rw [hcount'] at hr'
    have hlengths : result.unstuffedPacketLen = result'.unstuffedPacketLen ↔ r = r' := by
      rw [hlength, hlength']
      omega
    have hpackets : result.packet = result'.packet ↔
        (mixedBytes data.cells kept).take (byteCount kept - r) =
          (mixedBytes data'.cells kept).take (byteCount kept - r') := by
      rw [UnstuffResult.packet, UnstuffResult.packet, hpacket, hpacket', List.cons_inj_right,
        List.append_cancel_right_eq]
    rw [hlengths, hpackets, hsame]
    refine and_congr_right fun _ => ?_
    by_cases hwhole : kept.length % 8 = 0
    · simp [ScanEnters, SameScan, hwhole]
    · simp [ScanEnters, SameScan, hwhole]

/-- A frame of one zero byte. -/
private def zeroFrame : List Byte := [ax25Flag, 0, ax25Flag]

private theorem stuff_zeroFrame :
    stuff 5 (contentBits zeroFrame zeroFrame.length) = List.replicate 8 false := by decide

private theorem destuff_zeroFrame :
    destuff 5 (contentBits zeroFrame zeroFrame.length) = List.replicate 8 false := by decide

theorem reused_buffers_zeroFrame :
    (∃ result result', ax25Stuff zeroFrame 3 (Block.fill 4 0) = .ok result ∧
      ax25Stuff zeroFrame 3 (Block.fill 4 0xFF) = .ok result' ∧
      result.stuffedDataLen = result'.stuffedDataLen ∧
      (result.packet = result'.packet ↔ AgreeUnderZeros (List.replicate 8 false)
        (Block.fill 4 0).cells (Block.fill 4 0xFF).cells)) ∧
    ∃ result result', ax25Unstuff zeroFrame 3 (Block.fill 4 0) = .ok result ∧
      ax25Unstuff zeroFrame 3 (Block.fill 4 0xFF) = .ok result' ∧
      (result.unstuffedPacketLen = result'.unstuffedPacketLen ∧
          result.packet = result'.packet ↔
        AgreeUnderZeros (List.replicate 8 false)
          (Block.fill 4 0).cells (Block.fill 4 0xFF).cells ∧
        SameScan (List.replicate 8 false) (Block.fill 4 0).cells (Block.fill 4 0xFF).cells) :=
  ⟨(reused_buffers zeroFrame 4 _ _).1 _ (by decide) stuff_zeroFrame (by decide),
    (reused_buffers zeroFrame 4 _ _).2 _ (by decide) destuff_zeroFrame (by decide)⟩

/-- In a buffer full of ones, the zero byte is sent as `0xFF`. -/
theorem reused_buffers_fails :
    ¬ ∀ (packet : List Byte) (n : ℕ) (data data' : Block Byte n),
      packet.length ≤ ax25MinimumIFrameLen →
      byteCount (stuff 5 (contentBits packet packet.length)) + 2 ≤ n →
      ∃ result result', ax25Stuff packet packet.length data = .ok result ∧
        ax25Stuff packet packet.length data' = .ok result' ∧
        result.stuffedDataLen = result'.stuffedDataLen ∧ result.packet = result'.packet := by
  intro hall
  have hroom : byteCount (List.replicate 8 false) + 2 ≤ 3 := by decide
  obtain ⟨result, result', hrun, hrun', -, hsame⟩ := hall zeroFrame 3 (Block.fill 3 0)
    (Block.fill 3 0xFF) (by decide) (by rw [stuff_zeroFrame]; exact hroom)
  obtain ⟨zeros, hzeros, -, hzeroPacket⟩ :=
    ax25Stuff_packet (Block.fill 3 0) stuff_zeroFrame (by decide) hroom
  obtain ⟨ones, hones, -, honesPacket⟩ :=
    ax25Stuff_packet (Block.fill 3 0xFF) stuff_zeroFrame (by decide) hroom
  rw [hzeros, Except.ok.injEq] at hrun
  rw [hones, Except.ok.injEq] at hrun'
  rw [← hrun, ← hrun', hzeroPacket, honesPacket] at hsame
  exact absurd hsame (by decide)

end ObcGsInterface
