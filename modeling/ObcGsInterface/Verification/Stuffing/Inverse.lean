import ObcGsInterface.Verification.Stuffing.RoundTrip

/-! # The bit loops are inverse

The loop of `ax25Stuff` resets its counter when it inserts a bit, the loops of `ax25Unstuff`
raise a flag and drop a bit. What the latter have collected is followed here from bit to bit,
up to the scan for trailing zeros. -/

namespace ObcGsInterface

open CArray Loop BitStream BitStuffing

/-! ## After some bits -/

/-- The bits that the loops have kept so far: those of the output behind its flag. -/
def UnstuffState.collected {n : ℕ} (s : UnstuffState n) : List Bool :=
  ((bits s.unstuffedPacket.cells).take s.unstuffedBitLength).drop 8

/-- The bit loops of `ax25Unstuff` after `k` bits of the packet: the rounds for the whole bytes,
and the first rounds of the inner loop for the next byte. -/
def unstuffFirstBits {n : ℕ} (packet : List Byte) (k : ℕ) (unstuffedPacket : Block Byte n) :
    Except Fault (UnstuffState n) := do
  let s ← unstuffBits packet (k / 8 + 2) unstuffedPacket
  let currentByte ← load packet (1 + k / 8)
  (List.range (k % 8)).foldlM (unstuffBit currentByte) s

/-- After all its bits the loops have run over the packet. -/
theorem unstuffFirstBits_all {n : ℕ} {packet : List Byte} {packetLen : ℕ} (data : Block Byte n)
    (hshort : 2 ≤ packetLen) (hlen : packetLen ≤ packet.length) :
    unstuffFirstBits packet (8 * (packetLen - 2)) data = unstuffBits packet packetLen data := by
  have hdiv : 8 * (packetLen - 2) / 8 = packetLen - 2 := by omega
  have hmod : 8 * (packetLen - 2) % 8 = 0 := by omega
  have hload : 1 + (packetLen - 2) < packet.length := by omega
  rw [unstuffFirstBits, hdiv, hmod, Nat.sub_add_cancel hshort, load_of_lt _ hload]
  exact bind_pure _

theorem take_contentBits {packet : List Byte} {packetLen k : ℕ} (hlen : packetLen ≤ packet.length)
    (hshort : 2 ≤ packetLen) (hk : k ≤ 8 * (packetLen - 2)) (hindex : 1 + k / 8 < packet.length) :
    (contentBits packet packetLen).take k =
      contentBits packet (k / 8 + 2) ++ (byteBits packet[1 + k / 8]).take (k % 8) := by
  have hprefix : contentBits packet packetLen <+: bits (packet.drop 1) := by
    rw [contentBits, List.drop_take]
    exact ⟨_, by rw [← bits_append, List.take_append_drop]⟩
  have hfirst : contentBits packet (k / 8 + 2) = bits ((packet.drop 1).take (k / 8)) := by
    rw [contentBits, List.drop_take]
    rfl
  have hbyte : k / 8 < (packet.drop 1).length := by
    rw [List.length_drop]
    omega
  have htake : (contentBits packet packetLen).take k = (bits (packet.drop 1)).take k := by
    rcases hprefix with ⟨rest, hrest⟩
    rw [← hrest, List.take_append_of_le_length (by rwa [length_contentBits hlen])]
  rw [htake, take_bits hbyte, hfirst, List.getElem_drop]

/-- The state of the bit loops after `k` bits, if what they keep of the packet fits. -/
theorem unstuffFirstBits_stage {n : ℕ} {packet : List Byte} {packetLen k : ℕ} (data : Block Byte n)
    (hlen : packetLen ≤ packet.length) (hshort : 2 ≤ packetLen) (hk : k ≤ 8 * (packetLen - 2))
    (hroom : 8 + (destuff 5 (contentBits packet packetLen)).length ≤ 8 * n)
    (hlength16 : 8 + (destuff 5 (contentBits packet packetLen)).length < 2 ^ 16) :
    ∃ s, unstuffFirstBits packet k data = .ok s ∧
      UnstuffStage (flagged data) ((contentBits packet packetLen).take k) s := by
  have hindex : 1 + k / 8 < packet.length := by omega
  have htake := take_contentBits hlen hshort hk hindex
  have hkept : (destuff 5 ((contentBits packet packetLen).take k)).length ≤
      (destuff 5 (contentBits packet packetLen)).length :=
    (Transducer.output_take_isPrefix _ (DestuffState.counting 0) _ k).length_le
  have hbytes := length_destuff_le_append (contentBits packet (k / 8 + 2))
    ((byteBits packet[1 + k / 8]).take (k % 8))
  rw [← htake] at hbytes
  have hfirst : k / 8 + 2 ≤ packet.length := by omega
  obtain ⟨s, hrun, hs⟩ := unstuffBits_stage data hfirst (by omega) (by omega)
  rw [unstuffFirstBits, hrun, ok_bind, load_of_lt _ hindex, ok_bind, htake]
  rw [htake] at hkept
  exact unstuffBit_stages _ (Nat.le_of_lt (Nat.mod_lt k (by decide))) hs (by omega) (by omega)

/-- In a zero-filled buffer the loops have collected what the destuffer keeps. -/
theorem UnstuffStage.collected_eq {n : ℕ} {consumed : List Bool} {s : UnstuffState n}
    (hs : UnstuffStage (flagged (Block.fill n 0)) consumed s)
    (hroom : 8 + (destuff 5 consumed).length ≤ 8 * n) : s.collected = destuff 5 consumed := by
  obtain ⟨k, rfl⟩ : ∃ k, n = k + 1 := ⟨n - 1, by omega⟩
  have hcells : s.unstuffedPacket.cells =
      [ax25Flag] ++ orBits (List.replicate k 0) 0 (destuff 5 consumed) := by
    have hbits := orBits_append_left [ax25Flag] (List.replicate k 0) 0 (destuff 5 consumed)
    rw [hs.unstuffedPacket_eq]
    exact hbits
  have htake : 8 + (destuff 5 consumed).length = (byteBits ax25Flag).length +
      (destuff 5 consumed).length := rfl
  rw [UnstuffState.collected, hcells, hs.unstuffedBitLength_eq, bits_append,
    bits_orBits_zero _ _ _ (by omega), bits_cons, bits_nil, List.append_nil, List.replicate_zero,
    List.nil_append, htake, List.take_length_add_append, List.take_left]
  exact List.drop_left' rfl

/-! ## The two loops in turn -/

/-- **Inverse bit loops.** Behind its flag, the packet of up to 273 bytes gives back their bits
and less than a byte of zeros; on the way the collected bits only grow, so that they are never
more than that. The buffers are zero-filled and hold the packet and the frame. -/
theorem bitLoops_inverse (content : List Byte) (h : content.length ≤ 273) (first last : Byte)
    {n m : ℕ} (hn : byteCount (stuff 5 (bits content)) + 2 ≤ n) (hm : content.length + 2 ≤ m) :
    ∃ stuffed s pad,
      ax25Stuff (first :: (content ++ [last])) (content.length + 2) (Block.fill n 0) =
        .ok stuffed ∧
      unstuffBits stuffed.stuffedData.cells stuffed.stuffedDataLen (Block.fill m 0) = .ok s ∧
      pad < 8 ∧ s.collected = bits content ++ List.replicate pad false ∧
      s.unstuffedBitLength = 8 + s.collected.length ∧
      ∀ k ≤ 8 * (stuffed.stuffedDataLen - 2), ∃ t,
        unstuffFirstBits stuffed.stuffedData.cells k (Block.fill m 0) = .ok t ∧
        t.collected <+: s.collected ∧ t.unstuffedBitLength = 8 + t.collected.length ∧
        t.collected.length ≤ 8 * content.length + 7 := by
  obtain ⟨stuffed, hstuff, -, hlength, hcells⟩ := ax25Stuff_frame h first last hn
  have hdestuff := destuff_stuffed hcells hlength
  have hpad := padding_lt (stuff 5 (bits content))
  generalize padding (stuff 5 (bits content)) = pad at hdestuff hpad
  have hkept : (destuff 5 (contentBits stuffed.stuffedData.cells stuffed.stuffedDataLen)).length =
      8 * content.length + pad := by
    rw [hdestuff, List.length_append, length_bits, List.length_replicate]
  have hpacket : stuffed.stuffedDataLen ≤ stuffed.stuffedData.cells.length := by
    rwa [Block.length_cells, hlength]
  have hshort : 2 ≤ stuffed.stuffedDataLen := by
    rw [hlength]
    exact Nat.le_add_left 2 _
  have hstage (k : ℕ) (hk : k ≤ 8 * (stuffed.stuffedDataLen - 2)) :
      ∃ t, unstuffFirstBits stuffed.stuffedData.cells k (Block.fill m 0) = .ok t ∧
        t.collected = destuff 5
          ((contentBits stuffed.stuffedData.cells stuffed.stuffedDataLen).take k) ∧
        t.unstuffedBitLength = 8 + t.collected.length := by
    have hprefix := (Transducer.output_take_isPrefix (destuffStep 5) (.counting 0)
      (contentBits stuffed.stuffedData.cells stuffed.stuffedDataLen) k).length_le
    obtain ⟨t, hrun, ht⟩ := unstuffFirstBits_stage (Block.fill m 0) hpacket hshort hk
      (by omega) (by omega)
    have hcollected := ht.collected_eq (by rw [destuff] at hkept ⊢; omega)
    exact ⟨t, hrun, hcollected, by rw [hcollected, ht.unstuffedBitLength_eq]⟩
  obtain ⟨s, hrun, hcollected, hcount⟩ := hstage _ (Nat.le_refl _)
  rw [unstuffFirstBits_all _ hshort hpacket] at hrun
  rw [List.take_of_length_le (Nat.le_of_eq (length_contentBits hpacket))] at hcollected
  refine ⟨stuffed, s, pad, hstuff, hrun, hpad, hcollected.trans hdestuff, hcount, ?_⟩
  intro k hk
  obtain ⟨t, hrun', hcollected', hcount'⟩ := hstage k hk
  have hprefix : t.collected <+: s.collected := by
    rw [hcollected, hcollected']
    exact Transducer.output_take_isPrefix _ _ _ k
  have hbound := hprefix.length_le
  rw [hcollected, hkept] at hbound
  exact ⟨t, hrun', hprefix, hcount', by omega⟩

theorem bitLoops_inverse_ones :
    ∃ stuffed s pad,
      ax25Stuff [ax25Flag, 0xFF, 0x1F, ax25Flag] 4 (Block.fill ax25MaximumPktLen 0) =
        .ok stuffed ∧
      unstuffBits stuffed.stuffedData.cells stuffed.stuffedDataLen
        (Block.fill ax25MinimumIFrameLen 0) = .ok s ∧
      pad < 8 ∧ s.collected = bits [0xFF, 0x1F] ++ List.replicate pad false ∧
      s.unstuffedBitLength = 8 + s.collected.length ∧
      ∀ k ≤ 8 * (stuffed.stuffedDataLen - 2), ∃ t,
        unstuffFirstBits stuffed.stuffedData.cells k (Block.fill ax25MinimumIFrameLen 0) =
          .ok t ∧
        t.collected <+: s.collected ∧ t.unstuffedBitLength = 8 + t.collected.length ∧
        t.collected.length ≤ 8 * 2 + 7 :=
  bitLoops_inverse [0xFF, 0x1F] (by decide) ax25Flag ax25Flag (byteCount_stuff_le (by decide))
    (by decide)

end ObcGsInterface
