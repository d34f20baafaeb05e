import ObcGsInterface.Model.GroundReceive
import ObcGsInterface.Verification.Pipeline.Linked

/-! # Frames among log messages

The ground station cuts a frame out of what it reads: from the first flag to the last one. Around
a packet of the satellite this gives the packet, as long as no log message has a flag in it. -/

namespace ObcGsInterface

open CArray BitStream BitStuffing

-- The tables are never evaluated in a proof.
attribute [local irreducible] fieldCreate

/-! ## Slices -/

theorem sliceIndex_natCast {length i : ℕ} (h : i ≤ length) : sliceIndex length i = i := by
  have hpos : ¬ (i : ℤ) < 0 := by omega
  rw [sliceIndex, if_neg hpos, Int.toNat_natCast, Nat.min_eq_left h]

theorem slice_natCast {data : List Byte} {start stop : ℕ} (hstart : start ≤ data.length)
    (hstop : stop ≤ data.length) : slice data start stop = (data.take stop).drop start := by
  rw [slice, sliceIndex_natCast hstart, sliceIndex_natCast hstop]

theorem find_of_not_mem {data : List Byte} (h : ax25Flag ∉ data) : find data = -1 := by
  have hnone : data.findIdx? (· = ax25Flag) = none := by
    rw [List.findIdx?_eq_none_iff]
    intro byte hbyte
    simpa using ne_of_mem_of_not_mem hbyte h
  rw [find, hnone]
  rfl

theorem find_append {left : List Byte} (h : ax25Flag ∉ left) (rest : List Byte) :
    find (left ++ ax25Flag :: rest) = left.length := by
  have hindex : (left ++ ax25Flag :: rest).findIdx? (· = ax25Flag) = some left.length := by
    simp only [List.findIdx?_append, List.findIdx?_cons, decide_true, if_true]
    rw [List.findIdx?_eq_none_iff.mpr]
    · simp
    · intro byte hbyte
      simpa using ne_of_mem_of_not_mem hbyte h
  rw [find, hindex]
  rfl

theorem rfind_append {right : List Byte} (h : ax25Flag ∉ right) (front : List Byte) :
    rfind (front ++ ax25Flag :: right) = front.length := by
  have hindex : (front ++ ax25Flag :: right).reverse.findIdx? (· = ax25Flag) =
      some right.length := by
    have hreverse : (front ++ ax25Flag :: right).reverse =
        right.reverse ++ ax25Flag :: front.reverse := by simp
    rw [hreverse]
    simp only [List.findIdx?_append, List.findIdx?_cons, decide_true, if_true]
    rw [List.findIdx?_eq_none_iff.mpr]
    · simp
    · intro byte hbyte
      simpa using ne_of_mem_of_not_mem (List.mem_reverse.mp hbyte) h
  rw [rfind, hindex]
  simp
  omega

/-- What begins and ends with a flag is cut out whole. -/
theorem isolateFrame_framed {left right : List Byte} (hleft : ax25Flag ∉ left)
    (hright : ax25Flag ∉ right) (body : List Byte) :
    isolateFrame (left ++ ax25Flag :: (body ++ [ax25Flag]) ++ right) =
      ⟨left, ax25Flag :: (body ++ [ax25Flag]), right⟩ := by
  set packet := ax25Flag :: (body ++ [ax25Flag]) with hpacket
  set data := left ++ packet ++ right with hdata
  have hfind : find data = (left.length : ℕ) := by
    have hfront : data = left ++ ax25Flag :: (body ++ [ax25Flag] ++ right) := by
      simp [hdata, hpacket]
    rw [hfront, find_append hleft]
  have hrfind : rfind data + 1 = ((left ++ packet).length : ℕ) := by
    have hback : data = (left ++ ax25Flag :: body) ++ ax25Flag :: right := by simp [hdata, hpacket]
    rw [hback, rfind_append hright]
    simp [hpacket]
    omega
  have hlength : data.length = (left ++ packet).length + right.length := by
    rw [hdata, List.length_append]
  have hpacketLength : left.length ≤ (left ++ packet).length := by simp
  rw [isolateFrame, hfind, hrfind, ← Nat.cast_zero, slice_natCast (Nat.zero_le _) (by omega),
    slice_natCast (by omega) (by omega), slice_natCast (by omega) le_rfl]
  congr 1
  · rw [List.drop_zero, hdata, List.append_assoc, List.take_left]
  · rw [hdata, List.take_left, List.drop_left]
  · rw [List.take_length, hdata, List.drop_left]

/-! ## Packets of the satellite -/

section Packets

variable {Frame : Type} {startUnstuffing : List Bool → List Bool}
  {unpack : List Byte → Except PyError Frame} {dataOf : Frame → Option (List Byte)}

/-- What is on the line of a stuffed packet. -/
def StuffResult.bytes {n : ℕ} (packet : StuffResult n) : List Byte :=
  packet.stuffedData.cells.take packet.stuffedDataLen

/-- A message that the satellite encodes, sends and stuffs. On the way at most 16 bytes of its
information field are damaged, and `checksum` is the one of the change to the parity bytes. -/
inductive DownlinkPacket (unpack : List Byte → Except PyError Frame)
    (dataOf : Frame → Option (List Byte)) (message : List Byte) (checksum : BitVec 16) :
    List Byte → Prop where
  | sent {s s' : LinkState} {rsData word : Block Byte rsEncodedSize}
      {out frame frame' : UnstuffedAx25IFrame} {packet : StuffResult ax25MaximumPktLen}
      (length_eq : message.length = rsDecodedSize)
      (encode : rsEncode (initRs .null) (some message) (some rsData) = .ok (.success, some word))
      (send : ax25SendIFrame s (some word.cells) rsEncodedSize (some out) =
        .ok ⟨.success, some frame, s'⟩)
      (damage : Damaged frame frame')
      (parity : crcOf (List.zipWith (· ^^^ ·) frame.parity frame'.parity) = checksum)
      (stuff : ax25Stuff frame'.data.cells frame'.length (Block.fill ax25MaximumPktLen 0) =
        .ok packet)
      (splits : SplitsAfter unpack (fun frame => (dataOf frame).getD []) frame.header) :
      DownlinkPacket unpack dataOf message checksum packet.bytes

/-- The packet of an I frame: two flags around the stuffed content. -/
theorem IFrameLayout.stuffed {frame : UnstuffedAx25IFrame} {sent : List Byte}
    (h : IFrameLayout frame sent) :
    ∃ packet, ax25Stuff frame.data.cells frame.length (Block.fill ax25MaximumPktLen 0) =
        .ok packet ∧
      packet.bytes = ax25Flag ::
        (pack (stuff 5 (bits (frame.header ++ frame.info ++ checkSequence sent))) ++
          [ax25Flag]) := by
  have hcontent : (frame.header ++ frame.info ++ checkSequence sent).length = 273 := by
    rw [List.length_append, List.length_append, length_header, length_info, length_checkSequence]
  obtain ⟨packet, hpacket, -, hlength, hcells⟩ := ax25Stuff_flags (Nat.le_of_eq hcontent)
    (byteCount_stuff_le (Nat.le_of_eq hcontent))
  rw [hcontent, ← h.cells_eq] at hpacket
  refine ⟨packet, by rw [h.length_eq]; exact hpacket, ?_⟩
  rw [StuffResult.bytes, hcells, hlength, List.take_succ_cons, List.take_append, length_pack,
    List.take_of_length_le (by rw [length_pack]; exact Nat.le_succ _), Nat.add_sub_cancel_left]
  rfl

/-- What a decoder makes of a packet, in terms of the frame in it. -/
theorem receiveFrame_stuffed (unpack : List Byte → Except PyError Frame) {decoder : RsDecoder}
    (hunstuff : DropsStuffedBits startUnstuffing) {frame : UnstuffedAx25IFrame}
    {sent : List Byte} (hlayout : IFrameLayout frame sent)
    {word : Block Byte rsEncodedSize} (hword : frame.info = word.cells)
    {message : Block Byte rsDecodedSize} (hdecode : decoder ccsdsReedSolomon word = some message)
    {packet : StuffResult ax25MaximumPktLen}
    (hstuff : ax25Stuff frame.data.cells frame.length (Block.fill ax25MaximumPktLen 0) =
      .ok packet) :
    (∃ body, packet.bytes = ax25Flag :: (body ++ [ax25Flag])) ∧
      receiveFrame startUnstuffing unpack decoder (initRs .null) packet.bytes =
        if crcOf sent = crcOf (frame.header ++ (message.cells ++ frame.parity)) then
          (some <$> unpack (frame.header ++ (message.cells ++ frame.parity))).mapError .pyError
        else .error (.pyError (.valueError "Check sums do not match")) := by
  obtain ⟨packet', hpacket, hbytes⟩ := hlayout.stuffed
  obtain rfl : packet' = packet := Except.ok.inj (hpacket.symm.trans hstuff)
  have hparity : word.cells.drop rsDecodedSize = frame.parity := by
    rw [UnstuffedAx25IFrame.parity, hword]
  refine ⟨⟨_, hbytes⟩, ?_⟩
  rw [receiveFrame, hbytes, hword,
    decodeFrame_stuffed unpack hunstuff sent (length_header frame) hdecode, hparity]
  split <;> rfl

/-- The information field of a frame that carries a codeword. -/
theorem info_sent {s s' : LinkState} {message : Block Byte rsDecodedSize}
    {out frame : UnstuffedAx25IFrame}
    (h : ax25SendIFrame s (some (codeword message).cells) rsEncodedSize (some out) =
      .ok ⟨.success, some frame, s'⟩) : frame.info = (codeword message).cells := by
  have hlength : (codeword message).cells.length = 255 := (codeword message).length_cells
  have hwhole : (codeword message).cells.take rsEncodedSize = (codeword message).cells :=
    List.take_of_length_le (Nat.le_of_eq hlength)
  have hfield : infoField (codeword message).cells = (codeword message).cells := by
    rw [infoField, hlength]
    exact List.append_nil _
  cases ax25SendIFrame_sent (show rsEncodedSize ≤ ax25InfoBytes from Nat.le_refl 255) h with
  | sent data _ hdata _ _ _ hcells =>
      obtain rfl := Option.some.inj hdata
      rw [hwhole, hfield] at hcells
      exact (sealed_fields hcells s.currentLinkDestAddr.data.length_cells hlength).2

/-- **A packet** is decoded to its message when the checksum of the change to its parity bytes is
zero, and is refused otherwise. -/
theorem DownlinkPacket.received (hunstuff : DropsStuffedBits startUnstuffing)
    (buffers : DecoderBuffers 255 32) {message : List Byte} {checksum : BitVec 16}
    {packet : List Byte} (h : DownlinkPacket unpack dataOf message checksum packet) :
    (∃ body, packet = ax25Flag :: (body ++ [ax25Flag])) ∧
      (checksum = 0 → ∃ frame data, receiveFrame startUnstuffing unpack (libcorrectDecoder buffers)
        (initRs .null) packet = .ok (some frame) ∧ dataOf frame = some data ∧
          data.take rsDecodedDataSize = message) ∧
      (checksum ≠ 0 → receiveFrame startUnstuffing unpack (libcorrectDecoder buffers)
        (initRs .null) packet = .error (.pyError (.valueError "Check sums do not match"))) := by
  cases h with
  | @sent s s' rsData word out frame frame' result length_eq encode send damage parity stuff
      splits =>
      obtain ⟨message, rfl⟩ : ∃ block : Block Byte rsDecodedSize, message = block.cells :=
        ⟨⟨message, length_eq⟩, rfl⟩
      rw [rsEncode_eq message rsData, Except.ok.injEq, Prod.mk.injEq, Option.some.injEq] at encode
      obtain ⟨-, rfl⟩ := encode
      have hlayout :=
        sentIFrame_layout (show rsEncodedSize ≤ ax25InfoBytes from Nat.le_refl 255) send
      have hinfo : frame.info = (codeword message).cells := info_sent send
      have hword : frame.info = message.cells ++ frame.parity := by
        rw [UnstuffedAx25IFrame.parity, ← take_codeword message, ← hinfo, List.take_append_drop]
      have hparity : frame.parity.length = frame'.parity.length := by
        simp only [UnstuffedAx25IFrame.parity, List.length_drop, length_info]
      obtain ⟨hheader, hlayout'⟩ := damage.layout hlayout
      have hdecode : libcorrectDecoder buffers ccsdsReedSolomon ⟨frame'.info, length_info frame'⟩ =
          some message := by
        apply libcorrectDecoder_correctsErrors buffers message
        rw [← hinfo]
        exact damage.wrong_le
      obtain ⟨hbody, hreceive⟩ :=
        receiveFrame_stuffed unpack hunstuff hlayout' rfl hdecode stuff
      have hcrc : crcOf (frame.header ++ frame.info) =
          crcOf (frame'.header ++ (message.cells ++ frame'.parity)) ↔ checksum = 0 := by
        rw [hheader, hword, ← List.append_assoc, ← List.append_assoc,
          crcOf_append_eq_iff _ hparity, parity]
      refine ⟨hbody, fun hzero => ?_, fun hne => ?_⟩
      rotate_left
      · rw [hreceive, if_neg (mt hcrc.mp hne)]
      obtain ⟨decoded, hunpack, hdata⟩ := splits (message.cells ++ frame'.parity)
      rw [hreceive, if_pos (hcrc.mpr hzero), hheader, hunpack]
      cases hnone : dataOf decoded with
      | none =>
          have hempty := congrArg List.length hdata
          simp [hnone, message.length_cells, rsDecodedSize] at hempty
          omega
      | some data =>
          simp only [hnone, Option.getD_some] at hdata
          refine ⟨decoded, data, rfl, hnone, ?_⟩
          rw [hdata]
          exact List.take_left' message.length_cells

end Packets

/-- A packet of a message, without damage. -/
theorem exists_downlinkPacket (message : Block Byte rsDecodedSize) :
    ∃ packet, DownlinkPacket unpackInfo some message.cells 0 packet := by
  obtain ⟨frame, hsend, -, -⟩ := ax25SendIFrame_eq ⟨Block.fill _ 0, 0⟩
    (show linkedSender.currentLinkDestAddr.length = ax25DestAddrBytes from rfl)
    (show rsEncodedSize ≤ ax25InfoBytes from Nat.le_refl 255)
    (Nat.le_of_eq (codeword message).length_cells.symm)
  have hlayout := sentIFrame_layout (show rsEncodedSize ≤ ax25InfoBytes from Nat.le_refl 255) hsend
  obtain ⟨packet, hstuff, -⟩ := hlayout.stuffed
  have hzero : crcOf (List.zipWith (· ^^^ ·) frame.parity frame.parity) = 0 :=
    (crcOf_append_eq_iff [] rfl).mp rfl
  refine ⟨packet.bytes, .sent message.length_cells (rsEncode_eq message (Block.fill _ 0)) hsend
    ⟨rfl, rfl, rfl, ?_⟩ hzero hstuff fun info => ⟨info, ?_, rfl⟩⟩
  · rw [wrongBytes_self]
    exact Nat.zero_le _
  · exact congrArg Except.ok (List.drop_left' (length_header frame))

end ObcGsInterface
