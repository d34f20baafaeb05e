import ObcGsInterface.Verification.Stuffing.Tail

/-! # Packets that do not fit

`ax25Unstuff` does not know how large its output is. A packet with few stuffed bits keeps
more bits than a frame has room for, and the bit loops, the scan and the closing flag leave
the frame at different lengths. -/

namespace ObcGsInterface

open CArray Loop BitStream BitStuffing

/-! ## The bit loops -/

theorem orInto_in_bounds {n : ℕ} {data result : Block Byte n} {i : ℕ} {value : Byte}
    (h : orInto data i value = .ok result) : i < n := by
  rcases bind_eq_ok.mp h with ⟨old, hload, -⟩
  have hcell := (List.getElem?_eq_some_iff.mp (load_eq_ok.mp hload)).1
  rwa [data.length_cells] at hcell

/-- A round that returns had room for the bit it kept. -/
theorem unstuffBit_room {n : ℕ} {currentByte : Byte} {offset : ℕ} {s s' : UnstuffState n}
    (hlength : s.unstuffedBitLength ≤ 8 * n) (h : unstuffBit currentByte s offset = .ok s') :
    s.unstuffedBitLength + (destuffStep 5 s.phase (currentByte.getMsbD offset)).2.length ≤
      8 * n := by
  obtain ⟨bitCount, stuffingFlag, unstuffedBitLength, unstuffedPacket⟩ := s
  cases stuffingFlag with
  | true => simpa [UnstuffState.phase, destuffStep] using hlength
  | false =>
      have hone : (destuffStep 5 (.counting bitCount) (currentByte.getMsbD offset)).2.length = 1 := by
        simp only [destuffStep]
        split_ifs <;> rfl
      simp only [unstuffBit, Bool.false_eq_true, if_false] at h
      rcases bind_eq_ok.mp h with ⟨result, hwrite, -⟩
      have hindex := orInto_in_bounds hwrite
      simp only [UnstuffState.phase, Bool.false_eq_true, if_false, hone] at hlength ⊢
      omega

/-- A stage of the bit loops in which everything kept so far has fitted. -/
structure RoomyStage {n : ℕ} (data : Block Byte n) (consumed : List Bool)
    (s : UnstuffState n) : Prop extends UnstuffStage data consumed s where
  room : 8 + (destuff 5 consumed).length ≤ 8 * n

theorem unstuffBit_roomy {n : ℕ} {data : Block Byte n} {consumed : List Bool}
    {s s' : UnstuffState n} {currentByte : Byte} {offset : ℕ} (hs : RoomyStage data consumed s)
    (hoffset : offset < 8) (hlength16 : 8 * n < 2 ^ 16)
    (h : unstuffBit currentByte s offset = .ok s') :
    RoomyStage data (consumed ++ [currentByte.getMsbD offset]) s' := by
  have hlength := hs.room
  rw [← hs.unstuffedBitLength_eq] at hlength
  have hroom := unstuffBit_room hlength h
  rw [hs.unstuffedBitLength_eq, hs.phase_eq, Nat.add_assoc, ← List.length_append,
    ← destuff_append_singleton] at hroom
  rcases unstuffBit_stage hs.toUnstuffStage hoffset hroom (by omega) with ⟨t, hrun, hstage⟩
  rw [h, Except.ok.injEq] at hrun
  subst hrun
  exact ⟨hstage, hroom⟩

theorem unstuffByte_roomy {n : ℕ} {data : Block Byte n} {consumed : List Bool}
    {s s' : UnstuffState n} {packet : List Byte} {index : ℕ} (hindex : index < packet.length)
    (hs : RoomyStage data consumed s) (hlength16 : 8 * n < 2 ^ 16)
    (h : unstuffByte packet s index = .ok s') :
    RoomyStage data (consumed ++ byteBits packet[index]) s' := by
  rw [unstuffByte, load_of_lt _ hindex, ok_bind, List.range_eq_range'] at h
  have hbody (i : ℕ) (s s' : UnstuffState n) (hi : i < 8)
      (hs : RoomyStage data (consumed ++ (byteBits packet[index]).take i) s)
      (hround : unstuffBit packet[index] s i = .ok s') :
      RoomyStage data (consumed ++ (byteBits packet[index]).take (i + 1)) s' := by
    have htake : consumed ++ (byteBits packet[index]).take (i + 1) =
        consumed ++ (byteBits packet[index]).take i ++ [packet[index].getMsbD i] := by
      rw [List.take_add_one, getElem?_byteBits _ hi, Option.toList_some, List.append_assoc]
    rw [htake]
    exact unstuffBit_roomy hs hi hlength16 hround
  have hend := foldlM_range'_of_ok hbody (Nat.zero_add 8) (by simpa using hs) h
  rwa [List.take_of_length_le (Nat.le_of_eq (length_byteBits _))] at hend

/-- The bit loops return only when everything they keep fits. -/
theorem unstuffBits_room {n : ℕ} {packet : List Byte} {packetLen : ℕ} {data : Block Byte n}
    {s : UnstuffState n} (hlen : packetLen ≤ packet.length) (hshort : 2 ≤ packetLen)
    (hlength16 : 8 * n < 2 ^ 16) (h : unstuffBits packet packetLen data = .ok s) :
    8 + (destuff 5 (contentBits packet packetLen)).length ≤ 8 * n := by
  rcases bind_eq_ok.mp h with ⟨start, hflag, hloop⟩
  have hn : 0 < n := by
    by_contra hempty
    rw [Block.store, if_neg hempty] at hflag
    contradiction
  have hbody (i : ℕ) (s s' : UnstuffState n) (hi : i < 1 + (packetLen - 2))
      (hs : 1 ≤ i ∧ RoomyStage start (bits ((packet.take i).drop 1)) s)
      (hround : unstuffByte packet s i = .ok s') :
      1 ≤ i + 1 ∧ RoomyStage start (bits ((packet.take (i + 1)).drop 1)) s' := by
    have hindex : i < packet.length := by omega
    rw [bits_take_succ hs.1 hindex]
    exact ⟨Nat.le_add_left 1 i, unstuffByte_roomy hindex hs.2 hlength16 hround⟩
  have hstart : 1 ≤ 1 ∧
      RoomyStage start (bits ((packet.take 1).drop 1)) ⟨0, false, 8, start⟩ := by
    have hnil : bits ((packet.take 1).drop 1) = [] := by
      rw [List.drop_eq_nil_of_le (by rw [List.length_take]; omega), bits_nil]
    rw [hnil]
    exact ⟨Nat.le_refl 1, ⟨⟨Nat.zero_lt_succ 4, rfl, rfl, rfl⟩, by simp [destuff]; omega⟩⟩
  have hend := foldlM_range'_of_ok hbody rfl hstart hloop
  rw [← contentBits_eq] at hend
  exact hend.2.room

/-! ## The scan and the closing flag -/

/-- The first step of the scan reads a byte of the frame. -/
theorem tailLoop_in_bounds {n bitLength fuel tailBytes : ℕ} {packet : Block Byte n}
    {body : ℕ → Except Fault ℕ}
    (h : whileLoop (tailGuard packet bitLength) body fuel 0 = .ok tailBytes) :
    bitLength / 8 < n := by
  cases fuel with
  | zero => contradiction
  | succ fuel =>
      rcases bind_eq_ok.mp h with ⟨goes, hguard, -⟩
      rw [tailGuard, if_neg (Nat.not_lt_zero _)] at hguard
      rcases bind_eq_ok.mp hguard with ⟨byte, hload, -⟩
      have hcell := (List.getElem?_eq_some_iff.mp (load_eq_ok.mp hload)).1
      rwa [packet.length_cells] at hcell

/-- The bits that are kept leave a byte of the frame for the closing flag: they end before the
last byte, or what they have in it is zero, so that the scan takes it away. -/
def FitsFrame (kept : List Bool) : Prop :=
  kept.length < 8 * (ax25MinimumIFrameLen - 1) ∧
    ∀ i, 8 * (ax25MinimumIFrameLen - 2) ≤ i → kept[i]?.getD false = false

theorem lastByteSet_fill_iff {kept : List Bool}
    (hcount : byteCount kept = ax25MinimumIFrameLen - 1) :
    LastByteSet kept (Block.fill ax25MinimumIFrameLen (0 : Byte)).cells ↔
      ¬ ∀ i, 8 * (ax25MinimumIFrameLen - 2) ≤ i → kept[i]?.getD false = false := by
  have hbits := length_add_padding kept
  have hmin : ax25MinimumIFrameLen = 275 := rfl
  rw [LastByteSet, hcount, Block.cells_fill]
  constructor
  · rintro ⟨i, hlow, -, hset⟩ hclear
    rw [bitAt_replicate_zero, hclear i (by omega)] at hset
    simp at hset
  · intro hset
    simp only [not_forall, Bool.not_eq_false] at hset
    rcases hset with ⟨i, hlow, hbit⟩
    have hlt : i < kept.length := by
      by_contra hge
      rw [List.getElem?_eq_none (by omega)] at hbit
      contradiction
    exact ⟨i, by omega, by omega, Or.inl hbit⟩

/-- The byte in which the scan of a frame starts when it is the last one. -/
theorem lastCell_eq_zero_iff {kept : List Bool} {packet : Block Byte ax25MinimumIFrameLen}
    (hcells : packet.cells =
      orBits ((Block.fill ax25MinimumIFrameLen (0 : Byte)).cells.set 0 ax25Flag) 8 kept)
    (hcount : byteCount kept = ax25MinimumIFrameLen - 1) :
    packet.cells[ax25MinimumIFrameLen - 1]? = some 0 ↔
      ∀ i, 8 * (ax25MinimumIFrameLen - 2) ≤ i → kept[i]?.getD false = false := by
  have hmin : ax25MinimumIFrameLen = 275 := rfl
  have hroom : byteCount kept + 1 ≤ (Block.fill ax25MinimumIFrameLen (0 : Byte)).cells.length := by
    rw [Block.length_cells]
    omega
  have hlength := length_mixedBytes hroom
  have hlast : packet.cells[ax25MinimumIFrameLen - 1]? =
      (mixedBytes (Block.fill ax25MinimumIFrameLen 0).cells kept).getLast? := by
    rw [hcells, orBits_flag hroom, List.getLast?_eq_getElem?, hlength, hcount]
    exact List.getElem?_append_left (by rw [hlength, hcount]; decide)
  have hset := getLast?_mixedBytes_ne_zero hroom
  rw [or_iff_right (by omega), lastByteSet_fill_iff hcount] at hset
  rw [hlast]
  exact not_iff_not.mp hset

/-- When the kept bits reach the last byte of the frame, the scan takes that byte away if it is
zero, and nothing otherwise. -/
theorem fullFrame_scan {kept : List Bool} {s : UnstuffState ax25MinimumIFrameLen}
    (hcells : s.unstuffedPacket.cells =
      orBits ((Block.fill ax25MinimumIFrameLen (0 : Byte)).cells.set 0 ax25Flag) 8 kept)
    (hcount : byteCount kept = ax25MinimumIFrameLen - 1)
    (hstart : s.unstuffedBitLength / 8 = ax25MinimumIFrameLen - 1) :
    ∃ tailBytes, whileLoop (tailGuard s.unstuffedPacket s.unstuffedBitLength)
        (fun tailBytes => .ok (tailBytes + 1)) (2 ^ 8) 0 = .ok tailBytes ∧
      tailBytes ≤ ax25MinimumIFrameLen - 1 ∧
      (tailBytes ≠ 0 ↔ ∀ i, 8 * (ax25MinimumIFrameLen - 2) ≤ i → kept[i]?.getD false = false) := by
  have hmin : ax25MinimumIFrameLen = 275 := rfl
  have hroom : byteCount kept + 1 ≤ (Block.fill ax25MinimumIFrameLen (0 : Byte)).cells.length := by
    rw [Block.length_cells]
    omega
  have hindex : s.unstuffedBitLength / 8 < ax25MinimumIFrameLen := by omega
  have hflag : s.unstuffedPacket.cells[0]? = some ax25Flag := by
    rw [hcells, orBits_flag hroom]
    rfl
  obtain ⟨t, hscan, hspec, hend⟩ := tailLoop_eq hindex hflag
  have hle := hspec.le_index
  refine ⟨t, hscan, by omega, ?_⟩
  rw [← lastCell_eq_zero_iff hcells hcount]
  constructor
  · intro hpos
    have hzero := hspec.zeros 0 (Nat.pos_of_ne_zero hpos)
    rwa [Nat.sub_zero, hstart] at hzero
  · rintro hlast rfl
    rcases hend with hmax | hne
    · exact absurd hmax (by decide)
    · rw [Nat.sub_zero, hstart] at hne
      exact hne hlast

/-- A call that returns leaves room for the closing flag. -/
theorem fitsFrame_of_returns {packet : List Byte} {packetLen : ℕ}
    {result : UnstuffResult ax25MinimumIFrameLen} (hlen : packetLen ≤ packet.length)
    (hshort : 2 ≤ packetLen)
    (h : ax25Unstuff packet packetLen (Block.fill ax25MinimumIFrameLen 0) = .ok result) :
    FitsFrame (destuff 5 (contentBits packet packetLen)) := by
  have hmin : ax25MinimumIFrameLen = 275 := rfl
  rcases bind_eq_ok.mp h with ⟨s, hloops, hrest⟩
  have hroom := unstuffBits_room hlen hshort (by decide) hloops
  obtain ⟨s', hs', hlength, hcells⟩ := unstuffBits_eq (Block.fill ax25MinimumIFrameLen 0) hlen hroom
    (by omega)
  rw [hloops, Except.ok.injEq] at hs'
  subst hs'
  generalize destuff 5 (contentBits packet packetLen) = kept at *
  have hbits := length_add_padding kept
  have hpadding := padding_lt kept
  rcases bind_eq_ok.mp hrest with ⟨t, hscan, hclose⟩
  have hindex := tailLoop_in_bounds hscan
  refine ⟨by omega, ?_⟩
  by_contra hset
  have hcount : byteCount kept = ax25MinimumIFrameLen - 1 := by
    by_contra hfewer
    apply hset
    intro i hi
    rw [List.getElem?_eq_none (by omega)]
    rfl
  -- the last byte of the frame is not zero, and the flag goes behind it
  obtain ⟨t', hscan', -, htail⟩ := fullFrame_scan hcells hcount (by omega)
  rw [hscan, Except.ok.injEq] at hscan'
  subst hscan'
  have hnone : t = 0 := by
    by_contra hpos
    exact hset (htail.mp hpos)
  rw [if_pos hnone] at hclose
  rcases bind_eq_ok.mp hclose with ⟨closed, hstore, -⟩
  rw [Block.store, if_neg (by omega)] at hstore
  contradiction

/-- With room for the closing flag the call returns a frame. -/
theorem returns_of_fitsFrame {packet : List Byte} {packetLen : ℕ}
    (hlen : packetLen ≤ packet.length)
    (h : FitsFrame (destuff 5 (contentBits packet packetLen))) :
    ∃ result, ax25Unstuff packet packetLen (Block.fill ax25MinimumIFrameLen 0) = .ok result ∧
      result.unstuffedPacketLen ≤ ax25MinimumIFrameLen := by
  have hmin : ax25MinimumIFrameLen = 275 := rfl
  obtain ⟨hfits, hclear⟩ := h
  have hbits := length_add_padding (destuff 5 (contentBits packet packetLen))
  have hpadding := padding_lt (destuff 5 (contentBits packet packetLen))
  rcases Nat.lt_or_ge (byteCount (destuff 5 (contentBits packet packetLen)) + 1)
    ax25MinimumIFrameLen with hroom | hfull
  · obtain ⟨removed, result, hrun, -, hlength, -⟩ :=
      ax25Unstuff_eq (Block.fill ax25MinimumIFrameLen 0) rfl hlen hroom (by omega)
    exact ⟨result, hrun, by omega⟩
  · obtain ⟨s, hloops, hlength, hcells⟩ := unstuffBits_eq (Block.fill ax25MinimumIFrameLen 0) hlen
      (by omega) (by omega)
    generalize destuff 5 (contentBits packet packetLen) = kept at *
    obtain ⟨t, hscan, hle, htail⟩ := fullFrame_scan hcells (by omega) (by omega)
    have hpos : t ≠ 0 := htail.mpr hclear
    have hclosed := ax25Unstuff_of_scan hloops hscan (fun hzero => absurd hzero hpos)
      (show t ≠ 0 → s.unstuffedBitLength / 8 + 1 = s.unstuffedBitLength / 8 + 1 - t + t by omega)
      (by omega)
    exact ⟨_, hclosed, by simp only; omega⟩

/-- **Packets that do not fit.** Unstuffing a packet into a zero-filled frame stays inside the
frame exactly when the kept bits leave room for the closing flag. -/
theorem unstuff_in_bounds_iff (packet : Block Byte ax25MaximumPktLen) {packetLen : ℕ}
    (hshort : 2 ≤ packetLen) (hlong : packetLen ≤ ax25MaximumPktLen) :
    (∃ result, ax25Unstuff packet.cells packetLen (Block.fill ax25MinimumIFrameLen 0) =
        .ok result ∧ result.unstuffedPacketLen ≤ ax25MinimumIFrameLen) ↔
      FitsFrame (destuff 5 (contentBits packet.cells packetLen)) := by
  have hlen : packetLen ≤ packet.cells.length := by rwa [packet.length_cells]
  constructor
  · rintro ⟨result, hrun, -⟩
    exact fitsFrame_of_returns hlen hshort hrun
  · intro h
    exact returns_of_fitsFrame hlen h

/-- The bits between the flags of a packet of zeros. -/
private theorem destuff_zeros :
    destuff 5 (contentBits (Block.fill ax25MaximumPktLen (0 : Byte)).cells ax25MaximumPktLen) =
      List.replicate (8 * 328) false := by
  have hcontent : contentBits (Block.fill ax25MaximumPktLen (0 : Byte)).cells ax25MaximumPktLen =
      bits (List.replicate 328 0) := by
    rw [contentBits, Block.cells_fill, List.take_replicate, List.drop_replicate]
    rfl
  rw [hcontent, bits_replicate_zero]
  exact output_destuffStep_zeros 0 _

theorem unstuff_in_bounds_zeros :
    (∃ result, ax25Unstuff (Block.fill ax25MaximumPktLen (0 : Byte)).cells ax25MaximumPktLen
        (Block.fill ax25MinimumIFrameLen 0) = .ok result ∧
      result.unstuffedPacketLen ≤ ax25MinimumIFrameLen) ↔
      FitsFrame (destuff 5 (contentBits (Block.fill ax25MaximumPktLen (0 : Byte)).cells
        ax25MaximumPktLen)) :=
  unstuff_in_bounds_iff (Block.fill ax25MaximumPktLen 0) (by decide) (Nat.le_refl _)

/-- A packet of zeros keeps all its bits, more than a frame has. -/
theorem unstuff_in_bounds_fails :
    ¬ ∀ (packet : Block Byte ax25MaximumPktLen) (packetLen : ℕ), 2 ≤ packetLen →
      packetLen ≤ ax25MaximumPktLen →
      ∃ result, ax25Unstuff packet.cells packetLen (Block.fill ax25MinimumIFrameLen 0) =
          .ok result ∧
        result.unstuffedPacketLen ≤ ax25MinimumIFrameLen := by
  intro hall
  rcases hall (Block.fill ax25MaximumPktLen 0) ax25MaximumPktLen (by decide) (Nat.le_refl _) with
    ⟨result, hrun, -⟩
  rcases bind_eq_ok.mp hrun with ⟨s, hloops, -⟩
  have hroom := unstuffBits_room (by rw [Block.length_cells]) (by decide) (by decide) hloops
  rw [destuff_zeros, List.length_replicate] at hroom
  exact absurd hroom (by decide)

end ObcGsInterface
