import ObcGsInterface.Verification.Link.Send

/-! # Room for stuffed packets

A bit is inserted for every five ones at most. The declared sizes of the packet buffers leave
room for the worst case, for the largest frame exactly so. -/

namespace ObcGsInterface

open CArray Loop BitStream BitStuffing

/-- The length of the stuffed content of a frame, in bits. -/
theorem length_stuff_contentBits_le (frame : List Byte) :
    5 * (stuff 5 (contentBits frame frame.length)).length ≤ 6 * (8 * (frame.length - 2)) := by
  rw [← length_contentBits (Nat.le_refl frame.length)]
  exact length_stuff_le _

/-- A buffer whose content is a fifth larger than that of the frame holds the packet. The
loop ends after all content bits, and at most a fifth as many have been inserted. -/
theorem ax25Stuff_within {n : ℕ} {frame : List Byte} (data : Block Byte n)
    (hshort : 2 ≤ frame.length) (hlong : frame.length ≤ ax25MinimumIFrameLen) (hn : 2 ≤ n)
    (hroom : 6 * (frame.length - 2) ≤ 5 * (n - 2)) :
    ∃ s inserted result,
      whileLoop (stuffGuard frame.length) (stuffBody frame) (2 ^ 16) ⟨8, 8, 0, data⟩ = .ok s ∧
      s.rawOffset = 8 * (frame.length - 1) ∧ s.stuffedOffset = s.rawOffset + inserted ∧
      5 * inserted ≤ 8 * (frame.length - 2) ∧
      ax25Stuff frame frame.length data = .ok result ∧
      5 * result.stuffedDataLen < 6 * (frame.length - 2) + 15 := by
  have hlength := length_contentBits (Nat.le_refl frame.length)
  have hstuffed := length_stuff_contentBits_le frame
  have hgrows : (contentBits frame frame.length).length ≤
      (stuff 5 (contentBits frame frame.length)).length := length_le_length_output _
  have hmax : ax25MinimumIFrameLen = 275 := rfl
  obtain ⟨s, hs, hraw, hoffset, -⟩ := stuffLoop_eq data (Nat.le_refl frame.length) (by omega)
    (by omega) (by omega)
  obtain ⟨result, hrun, -, hreported, -⟩ := ax25Stuff_eq data (Nat.le_refl frame.length)
    (by omega) (by omega) (by omega)
  exact ⟨s, s.stuffedOffset - s.rawOffset, result, hs, by omega, by omega, by omega, hrun, by omega⟩

/-- A U frame is what `ax25Stuff` wrote, with the length narrowed to a byte. -/
theorem ax25SendUFrame_stuffed {s t : LinkState} {out frame : PackedAx25UFrame} {cmd : ℕ}
    {pollFinalBit : Byte}
    (h : ax25SendUFrame s (some out) cmd pollFinalBit = .ok ⟨.success, some frame, t⟩) :
    ∃ (packet : Block Byte ax25MinimumUFrameCmdLength)
      (empty : Block Byte ax25MaximumUFrameCmdLength) (stuffed : StuffResult _),
      ax25Stuff packet.cells ax25MinimumUFrameCmdLength empty = .ok stuffed ∧
      frame = ⟨stuffed.stuffedData, stuffed.stuffedDataLen % 2 ^ 8⟩ := by
  simp only [ax25SendUFrame] at h
  split_ifs at h with hcmd hlink hpoll
  · simp at h
  · simp at h
  · simp at h
  simp only [bind_eq_ok] at h
  rcases h with ⟨empty, -, -, -, -, -, -, -, -, -, -, -, -, -, -, -, -, -, -, -, packet, -, stuffed,
    hrun, hresult⟩
  refine ⟨packet, empty, stuffed, hrun, ?_⟩
  split_ifs at hresult with herr
  · rw [pure_eq_ok, Except.ok.injEq, LinkResult.mk.injEq] at hresult
    exact absurd hresult.1 herr
  · rw [pure_eq_ok, Except.ok.injEq, LinkResult.mk.injEq, Option.some.injEq] at hresult
    exact hresult.2.1.symm

/-- **Room for stuffed packets.** A frame of 2 to 275 bytes is stuffed inside 330 bytes, with
at most a fifth of its content bits inserted; a U frame is stuffed inside 37 bytes, and its
length fits in a byte. -/
theorem stuffed_fits :
    (∀ frame : List Byte, 2 ≤ frame.length → frame.length ≤ ax25MinimumIFrameLen →
      ∀ data : Block Byte ax25MaximumPktLen, ∃ s inserted result,
        whileLoop (stuffGuard frame.length) (stuffBody frame) (2 ^ 16) ⟨8, 8, 0, data⟩ = .ok s ∧
        s.rawOffset = 8 * (frame.length - 1) ∧ s.stuffedOffset = s.rawOffset + inserted ∧
        5 * inserted ≤ 8 * (frame.length - 2) ∧
        ax25Stuff frame frame.length data = .ok result ∧
        result.stuffedDataLen ≤ ax25MaximumPktLen) ∧
    (∀ frame : List Byte, frame.length = ax25MinimumUFrameCmdLength →
      ∀ (n : ℕ) (data : Block Byte n), ax25MaximumUFrameCmdLength ≤ n →
        ∃ result, ax25Stuff frame frame.length data = .ok result ∧
          result.stuffedDataLen ≤ ax25MaximumUFrameCmdLength) ∧
    ∀ (s t : LinkState) (out frame : PackedAx25UFrame) (cmd : ℕ) (pollFinalBit : Byte),
      ax25SendUFrame s (some out) cmd pollFinalBit = .ok ⟨.success, some frame, t⟩ →
      ∃ (packet : Block Byte ax25MinimumUFrameCmdLength)
        (empty : Block Byte ax25MaximumUFrameCmdLength) (stuffed : StuffResult _),
        ax25Stuff packet.cells ax25MinimumUFrameCmdLength empty = .ok stuffed ∧
        frame = ⟨stuffed.stuffedData, stuffed.stuffedDataLen⟩ := by
  have hmax : ax25MaximumPktLen = 330 := rfl
  have hlongest : ax25MinimumIFrameLen = 275 := rfl
  have hcmd : ax25MinimumUFrameCmdLength = 19 := rfl
  have hmaxCmd : ax25MaximumUFrameCmdLength = 37 := rfl
  have hcommand (frame : List Byte) (hlength : frame.length = ax25MinimumUFrameCmdLength) (n : ℕ)
      (data : Block Byte n) (hn : ax25MaximumUFrameCmdLength ≤ n) :
      ∃ result, ax25Stuff frame frame.length data = .ok result ∧
        result.stuffedDataLen ≤ ax25MaximumUFrameCmdLength := by
    have hshort : 2 ≤ frame.length := by omega
    obtain ⟨-, -, result, -, -, -, -, hrun, hreported⟩ :=
      ax25Stuff_within data hshort (by omega) (by omega) (by omega)
    exact ⟨result, hrun, by omega⟩
  refine ⟨?_, hcommand, ?_⟩
  · intro frame hshort hlong data
    obtain ⟨s, inserted, result, hs, hraw, hstuffed, hfifth, hrun, hreported⟩ :=
      ax25Stuff_within data hshort hlong (by omega) (by omega)
    exact ⟨s, inserted, result, hs, hraw, hstuffed, hfifth, hrun, by omega⟩
  · intro s t out frame cmd pollFinalBit h
    rcases ax25SendUFrame_stuffed h with ⟨packet, empty, stuffed, hrun, rfl⟩
    obtain ⟨result, hresult, hreported⟩ := hcommand packet.cells packet.length_cells _ empty
      (Nat.le_refl _)
    rw [packet.length_cells, hrun, Except.ok.injEq] at hresult
    subst hresult
    refine ⟨packet, empty, stuffed, hrun, ?_⟩
    rw [Nat.mod_eq_of_lt (by omega)]

theorem stuffed_fits_ones :
    ∃ result, ax25Stuff (List.replicate 19 0xFF) 19 (Block.fill 37 0) = .ok result ∧
      result.stuffedDataLen ≤ 37 :=
  stuffed_fits.2.1 (List.replicate 19 0xFF) rfl 37 (Block.fill 37 0) (Nat.le_refl 37)

end ObcGsInterface
