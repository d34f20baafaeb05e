import ObcGsInterface.Verification.Stuffing.Bounds

/-! # Transparency

Between its flags a stuffed packet never has six ones in a row, with the padding in front of
the closing flag or without it. So a receiver that looks for flags in the bit stream, at
whatever bit it starts, finds the two flags and no other. -/

namespace ObcGsInterface

open CArray BitStream BitStuffing

theorem byteBits_ax25Flag : byteBits ax25Flag = flagBits 6 := rfl

/-- **Transparency.** A packet of a frame in a zero-filled buffer with room for it has no run
of six ones between its flags, and the flag pattern nowhere but in its first and last byte. -/
theorem stuffed_transparent {n : ℕ} {frame : List Byte} (hshort : 2 ≤ frame.length)
    (hlong : frame.length ≤ ax25MinimumIFrameLen) (hn : 2 ≤ n)
    (hroom : 6 * (frame.length - 2) ≤ 5 * (n - 2)) :
    ∃ result, ax25Stuff frame frame.length (Block.fill n 0) = .ok result ∧
      result.stuffedDataLen ≤ n ∧
      ¬ List.replicate 6 true <:+:
        contentBits result.stuffedData.cells result.stuffedDataLen ∧
      ∀ i, byteBits ax25Flag <+:
          (bits (result.stuffedData.cells.take result.stuffedDataLen)).drop i ↔
        i = 0 ∨ i = 8 * (result.stuffedDataLen - 1) := by
  have hstuffed := length_stuff_contentBits_le frame
  have hmax : ax25MinimumIFrameLen = 275 := rfl
  have hbytes : byteCount (stuff 5 (contentBits frame frame.length)) + 2 ≤ n := by
    unfold byteCount
    omega
  obtain ⟨result, hrun, -, hlength, hcells⟩ :=
    ax25Stuff_fill (Nat.le_refl frame.length) hbytes (by omega) (by omega)
  set body := pack (stuff 5 (contentBits frame frame.length)) with hbody
  have hbodyLength : result.stuffedDataLen = body.length + 2 := by rw [hlength, hbody, length_pack]
  have hcontent : contentBits result.stuffedData.cells result.stuffedDataLen = bits body := by
    rw [hcells, hbodyLength, contentBits_flags]
  have hruns : ¬ List.replicate 6 true <:+: bits body := by
    rw [hbody, bits_pack]
    exact not_infix_stuff_append_zeros (by decide) _ _
  have hpacket : bits (result.stuffedData.cells.take result.stuffedDataLen) =
      flagBits 6 ++ (bits body ++ flagBits 6) := by
    have htake : result.stuffedData.cells.take result.stuffedDataLen =
        ax25Flag :: (body ++ [ax25Flag]) := by
      rw [hcells, hbodyLength, List.take_succ_cons, List.take_append, List.take_of_length_le
        (Nat.le_succ _), Nat.add_sub_cancel_left]
      rfl
    rw [htake, bits_cons, bits_append, byteBits_ax25Flag]
    rfl
  refine ⟨result, hrun, by omega, hcontent ▸ hruns, ?_⟩
  intro i
  rw [hpacket, byteBits_ax25Flag, flagBits_prefix_drop_iff hruns, length_bits, hbodyLength]
  omega

theorem stuffed_transparent_ones :
    ∃ result, ax25Stuff (List.replicate 19 0xFF) 19 (Block.fill ax25MaximumPktLen 0) =
        .ok result ∧
      result.stuffedDataLen ≤ ax25MaximumPktLen ∧
      ¬ List.replicate 6 true <:+:
        contentBits result.stuffedData.cells result.stuffedDataLen ∧
      ∀ i, byteBits ax25Flag <+:
          (bits (result.stuffedData.cells.take result.stuffedDataLen)).drop i ↔
        i = 0 ∨ i = 8 * (result.stuffedDataLen - 1) := by
  have hlength : (List.replicate 19 (0xFF : Byte)).length = 19 := List.length_replicate
  exact stuffed_transparent (by rw [hlength]; decide) (by rw [hlength]; decide) (by decide)
    (by rw [hlength]; decide)

end ObcGsInterface
