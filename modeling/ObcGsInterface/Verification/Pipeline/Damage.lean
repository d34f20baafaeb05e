import ObcGsInterface.Verification.Link.Frames
import ObcGsInterface.Verification.Pipeline.CheckSequence
import ObcGsInterface.Verification.Pipeline.Codeword
import ObcGsInterface.Verification.Pipeline.Unstuff

/-! # Damage to the information field

`FEC.decode` repairs the message and hands the parity bytes on as they were received, so the
checksum of the frame that is put together again still sees the damage to them. -/

namespace ObcGsInterface

open CArray BigEndian BitStream BitStuffing

/-! ## Decoding -/

/-- `FEC.decode` returns the message that the decoder finds, and the received parity. -/
theorem fecDecode_eq {decoder : RsDecoder} {word : Block Byte rsEncodedSize}
    {message : Block Byte rsDecodedSize} (h : decoder ccsdsReedSolomon word = some message) :
    fecDecode decoder (initRs .null) word.cells =
      .ok (message.cells ++ word.cells.drop rsDecodedSize) := by
  have hlength : word.cells.length = rsEncodedSize := word.length_cells
  obtain ⟨array, harray, hcells⟩ := ctypesArray_of_le (Nat.le_of_eq hlength)
  have hsame : array = word := by
    ext1
    rw [hcells, hlength, Nat.sub_self, List.replicate_zero, List.append_nil]
  obtain ⟨out, hout, -⟩ :=
    ctypesArray_of_le (show ([] : List Byte).length ≤ rsDecodedDataSize from Nat.zero_le _)
  have hrun : rsDecode decoder (initRs .null) (some array) (some out) rsDecodedDataSize =
      .ok (.success, some message) := by
    rw [hsame]
    exact rsDecode_eq h out
  have hroom : ¬ word.cells.length > rsEncodedDataSize := Nat.not_lt.mpr (Nat.le_of_eq hlength)
  have hparity : word.cells.length - 32 = rsDecodedSize := by
    rw [hlength]
    rfl
  rw [fecDecode, if_neg hroom, hparity]
  simp only [harray, hout, ok_bind, hrun, callC_ok]
  rfl

section Frames

variable {Frame : Type} (unpack : List Byte → Except PyError Frame)

variable {startUnstuffing : List Bool → List Bool} {decoder : RsDecoder}

/-- `CommsPipeline.decode_frame` on a stuffed I frame with the codeword of a message in its
information field, as far as the decoder can tell. -/
theorem decodeFrame_stuffed (hunstuff : DropsStuffedBits startUnstuffing) (sent : List Byte)
    {header : List Byte} {word : Block Byte rsEncodedSize} {message : Block Byte rsDecodedSize}
    (hheader : header.length = 16) (h : decoder ccsdsReedSolomon word = some message) :
    CommsPipeline.decodeFrame startUnstuffing unpack decoder (initRs .null)
        (ax25Flag :: (pack (stuff 5 (bits (header ++ word.cells ++ checkSequence sent))) ++
          [ax25Flag])) =
      if crcOf sent = crcOf (header ++ (message.cells ++ word.cells.drop rsDecodedSize)) then
        some <$> unpack (header ++ (message.cells ++ word.cells.drop rsDecodedSize))
      else .error (.valueError "Check sums do not match") := by
  have hword : word.cells.length = 255 := word.length_cells
  set content := header ++ word.cells ++ checkSequence sent with hcontent
  have hlength : content.length = 273 := by
    rw [hcontent, List.length_append, List.length_append, hheader, hword, length_checkSequence]
  have hunstuffed := unstuff_stuffed hunstuff (.inl (Nat.le_of_eq hlength.symm))
  have hstuffed : 273 ≤ byteCount (stuff 5 (bits content)) := by
    have hbits := @length_le_length_output 5 0 (bits content)
    rw [length_bits, hlength] at hbits
    change 273 ≤ ((stuff 5 (bits content)).length + 7) / 8
    rw [stuff]
    omega
  have hlong : (ax25Flag :: (pack (stuff 5 (bits content)) ++ [ax25Flag])).length >
      rsEncodedDataSize := by
    rw [List.length_cons, List.length_append, length_pack]
    exact Nat.lt_of_lt_of_le (show 255 < 273 by decide) (by omega)
  have hfront : (ax25Flag :: header).length = infoFieldStartPosition := by
    rw [List.length_cons, hheader]
    rfl
  have hmiddle : (ax25Flag :: header ++ word.cells).length = infoFieldEndPosition + 1 := by
    rw [List.length_append, hfront, hword]
    rfl
  have hsplit : ax25Flag :: (content ++ [ax25Flag]) =
      (ax25Flag :: header ++ word.cells) ++ (checkSequence sent ++ [ax25Flag]) := by
    rw [hcontent]
    simp
  have hsplit' : ax25Flag :: (content ++ [ax25Flag]) =
      (ax25Flag :: header) ++ (word.cells ++ (checkSequence sent ++ [ax25Flag])) := by
    rw [hcontent]
    simp
  have hinfo : ((ax25Flag :: (content ++ [ax25Flag])).take (infoFieldEndPosition + 1)).drop
      infoFieldStartPosition = word.cells := by
    rw [hsplit, List.take_left' hmiddle, List.drop_left' hfront]
  have hbefore : (ax25Flag :: (content ++ [ax25Flag])).take infoFieldStartPosition =
      ax25Flag :: header := by
    rw [hsplit', List.take_left' hfront]
  have hbehind : (ax25Flag :: (content ++ [ax25Flag])).drop (infoFieldEndPosition + 1) =
      checkSequence sent ++ [ax25Flag] := by
    rw [hsplit, List.drop_left' hmiddle]
  have hjoin : ax25Flag :: header ++ (message.cells ++ word.cells.drop rsDecodedSize) ++
        (checkSequence sent ++ [ax25Flag]) =
      ax25Flag :: ((header ++ (message.cells ++ word.cells.drop rsDecodedSize)) ++
        (checkSequence sent ++ [ax25Flag])) := by simp
  rw [CommsPipeline.decodeFrame, if_neg (by simp), if_pos hlong, hunstuffed]
  simp only [ok_bind, hinfo, fecDecode_eq h, hbefore, hbehind, hjoin, ax25DecodeFrame_eq]
  split
  · rfl
  · rfl

end Frames

/-! ## Damaged frames -/

/-- The information field of a frame. -/
def UnstuffedAx25IFrame.info (frame : UnstuffedAx25IFrame) : List Byte :=
  frame.field ax25InfoFieldPosition ax25InfoBytes

/-- The parity bytes in the information field. -/
def UnstuffedAx25IFrame.parity (frame : UnstuffedAx25IFrame) : List Byte :=
  frame.info.drop rsDecodedSize

/-- The number of places in which two byte strings differ. -/
def wrongBytes (xs ys : List Byte) : ℕ := (xs.zip ys).countP fun p => p.1 ≠ p.2

/-- `frame'` is `frame` with at most 16 bytes of its information field changed. -/
structure Damaged (frame frame' : UnstuffedAx25IFrame) : Prop where
  length_eq : frame'.length = frame.length
  before_eq : frame'.data.cells.take ax25InfoFieldPosition =
    frame.data.cells.take ax25InfoFieldPosition
  behind_eq : frame'.data.cells.drop ax25IFrameFcsPosition =
    frame.data.cells.drop ax25IFrameFcsPosition
  wrong_le : wrongBytes frame.info frame'.info ≤ 16

/-- The decoder recovers the message of a codeword with at most 16 wrong bytes. -/
def CorrectsErrors (decoder : RsDecoder) (message : Block Byte rsDecodedSize)
    (word : Block Byte rsEncodedSize) : Prop :=
  ∀ received : Block Byte rsEncodedSize, wrongBytes word.cells received.cells ≤ 16 →
    decoder ccsdsReedSolomon received = some message

/-- The bytes of a frame between its first flag and its information field. -/
def UnstuffedAx25IFrame.header (frame : UnstuffedAx25IFrame) : List Byte :=
  frame.field 1 (ax25InfoFieldPosition - 1)

/-- A frame with its header, its information field and the check sequence of `sent`. -/
structure IFrameLayout (frame : UnstuffedAx25IFrame) (sent : List Byte) : Prop where
  length_eq : frame.length = ax25MinimumIFrameLen
  cells_eq : frame.data.cells = ax25Flag :: ((frame.header ++ frame.info ++ checkSequence sent) ++
    [ax25Flag])

theorem length_info (frame : UnstuffedAx25IFrame) : frame.info.length = 255 := by
  rw [UnstuffedAx25IFrame.info, UnstuffedAx25IFrame.field, List.length_take, List.length_drop,
    Block.length_cells]
  rfl

theorem length_header (frame : UnstuffedAx25IFrame) : frame.header.length = 16 := by
  rw [UnstuffedAx25IFrame.header, UnstuffedAx25IFrame.field, List.length_take, List.length_drop,
    Block.length_cells]
  rfl

/-- The cells of a frame around its header and its information field. -/
theorem cells_split (frame : UnstuffedAx25IFrame) :
    frame.data.cells = frame.data.cells.take 1 ++ (frame.header ++ (frame.info ++
      frame.data.cells.drop ax25IFrameFcsPosition)) := by
  have hinfo : frame.data.cells.drop 17 = frame.info ++ frame.data.cells.drop 272 := by
    conv_lhs => rw [← List.take_append_drop 255 (frame.data.cells.drop 17), List.drop_drop]
    rfl
  have hheader : frame.data.cells.drop 1 = frame.header ++ frame.data.cells.drop 17 := by
    conv_lhs => rw [← List.take_append_drop 16 (frame.data.cells.drop 1), List.drop_drop]
    rfl
  conv_lhs => rw [← List.take_append_drop 1 frame.data.cells, hheader, hinfo]
  rfl

/-- The header and the information field of an I frame that holds a sealed body. -/
theorem sealed_fields {frame : UnstuffedAx25IFrame} {dest info : List Byte} {control : Byte}
    (h : frame.data.cells = sealFrame (iFrameBody dest control info))
    (hdest : dest.length = ax25DestAddrBytes) (hinfo : info.length = ax25InfoBytes) :
    frame.header = dest ++ (groundSource ++ [control, ax25Pid]) ∧ frame.info = info := by
  set header := dest ++ (groundSource ++ [control, ax25Pid]) with hheader
  have hlength : header.length = 16 := by
    rw [hheader, List.length_append, hdest]
    rfl
  have hcells : frame.data.cells = ax25Flag :: (header ++ (info ++
      (checkSequence (iFrameBody dest control info) ++ [ax25Flag]))) := by
    rw [h, sealFrame, iFrameBody, frameBody, hheader]
    simp
  constructor
  · rw [UnstuffedAx25IFrame.header, UnstuffedAx25IFrame.field, hcells, List.drop_succ_cons,
      List.drop_zero]
    exact List.take_left' hlength
  · have hfront : (ax25Flag :: header).length = ax25InfoFieldPosition := by
      rw [List.length_cons, hlength]
      rfl
    rw [UnstuffedAx25IFrame.info, UnstuffedAx25IFrame.field, hcells, ← List.cons_append,
      List.drop_left' hfront, List.take_left' hinfo]

/-- What `ax25SendIFrame` sends. -/
theorem sentIFrame_layout {s s' : LinkState} {telemData : Option (List Byte)} {telemDataLen : ℕ}
    {ax25Data : Option UnstuffedAx25IFrame} {frame : UnstuffedAx25IFrame}
    (hlen : telemDataLen ≤ ax25InfoBytes)
    (h : ax25SendIFrame s telemData telemDataLen ax25Data = .ok ⟨.success, some frame, s'⟩) :
    IFrameLayout frame (frame.header ++ frame.info) := by
  cases ax25SendIFrame_sent hlen h with
  | sent data _ _ _ _ hlength hcells =>
      have hdata : (data.take telemDataLen).length ≤ ax25InfoBytes :=
        Nat.le_trans (List.length_take_le _ _) hlen
      obtain ⟨hheader, hinfo⟩ := sealed_fields hcells
        s.currentLinkDestAddr.data.length_cells (length_infoField hdata)
      refine ⟨hlength, ?_⟩
      rw [hcells, hheader, hinfo, sealFrame, iFrameBody, frameBody]
      simp

theorem IFrameLayout.ends {frame : UnstuffedAx25IFrame} {sent : List Byte}
    (h : IFrameLayout frame sent) :
    frame.data.cells.take 1 = [ax25Flag] ∧
      frame.data.cells.drop ax25IFrameFcsPosition = checkSequence sent ++ [ax25Flag] := by
  have hfront : (ax25Flag :: (frame.header ++ frame.info)).length = ax25IFrameFcsPosition := by
    rw [List.length_cons, List.length_append, length_header, length_info]
    rfl
  have hcells : frame.data.cells =
      ax25Flag :: (frame.header ++ frame.info) ++ (checkSequence sent ++ [ax25Flag]) := by
    rw [h.cells_eq]
    simp
  constructor
  · rw [hcells]
    rfl
  · rw [hcells, List.drop_left' hfront]

/-- A damaged frame keeps its header and its check sequence. -/
theorem Damaged.layout {frame frame' : UnstuffedAx25IFrame} {sent : List Byte}
    (h : Damaged frame frame') (hframe : IFrameLayout frame sent) :
    frame'.header = frame.header ∧ IFrameLayout frame' sent := by
  have hheaderOf (frame : UnstuffedAx25IFrame) :
      frame.header = (frame.data.cells.take ax25InfoFieldPosition).drop 1 := by
    rw [List.drop_take]
    rfl
  have hfirst : frame'.data.cells.take 1 = frame.data.cells.take 1 := by
    have htake := congrArg (List.take 1) h.before_eq
    rwa [List.take_take, List.take_take] at htake
  have hheader : frame'.header = frame.header := by rw [hheaderOf, hheaderOf, h.before_eq]
  obtain ⟨hflag, hrest⟩ := hframe.ends
  refine ⟨hheader, h.length_eq.trans hframe.length_eq, ?_⟩
  rw [cells_split frame', hfirst, h.behind_eq, hflag, hrest]
  simp

/-! ## The pipeline -/

section Pipeline

variable {Frame : Type} (startUnstuffing : List Bool → List Bool)
  (unpack : List Byte → Except PyError Frame) (infoOf : Frame → List Byte) (decoder : RsDecoder)

/-- The stuffed form of a frame is decoded into a frame whose message is `message`. -/
def DecodesTo (frame : UnstuffedAx25IFrame) (message : List Byte) : Prop :=
  ∃ packet decoded,
    ax25Stuff frame.data.cells frame.length (Block.fill ax25MaximumPktLen 0) = .ok packet ∧
    packet.err = .success ∧
    CommsPipeline.decodeFrame startUnstuffing unpack decoder (initRs .null)
      (packet.stuffedData.cells.take packet.stuffedDataLen) = .ok (some decoded) ∧
    (infoOf decoded).take rsDecodedSize = message

/-- `Frame.unpack` splits the bytes behind a header off as the information field. -/
def SplitsAfter (header : List Byte) : Prop :=
  ∀ info, ∃ decoded, unpack (header ++ info) = .ok decoded ∧ infoOf decoded = info

variable {startUnstuffing unpack infoOf decoder}

/-- A frame whose information field the decoder takes for a message is decoded to that
message exactly when the checksum of the message and the received parity is the one sent. -/
theorem decodesTo_iff (hunstuff : DropsStuffedBits startUnstuffing) {frame : UnstuffedAx25IFrame}
    {sent : List Byte} {word : Block Byte rsEncodedSize} {message : Block Byte rsDecodedSize}
    (hsplits : SplitsAfter unpack infoOf frame.header) (hlayout : IFrameLayout frame sent)
    (hword : frame.info = word.cells) (hdecode : decoder ccsdsReedSolomon word = some message) :
    DecodesTo startUnstuffing unpack infoOf decoder frame message.cells ↔
      crcOf sent = crcOf (frame.header ++ (message.cells ++ frame.parity)) := by
  have hcontent : (frame.header ++ frame.info ++ checkSequence sent).length = 273 := by
    rw [List.length_append, List.length_append, length_header, length_info, length_checkSequence]
  obtain ⟨packet, hstuff, herr, hlength, hcells⟩ := ax25Stuff_flags (Nat.le_of_eq hcontent)
    (byteCount_stuff_le (Nat.le_of_eq hcontent))
  rw [hcontent, ← hlayout.cells_eq] at hstuff
  have hsent : ax25Stuff frame.data.cells frame.length (Block.fill ax25MaximumPktLen 0) =
      .ok packet := by
    rw [hlayout.length_eq]
    exact hstuff
  have hpacket : packet.stuffedData.cells.take packet.stuffedDataLen =
      ax25Flag :: (pack (stuff 5 (bits (frame.header ++ word.cells ++ checkSequence sent))) ++
        [ax25Flag]) := by
    rw [hcells, hlength, ← hword, List.take_succ_cons, List.take_append, length_pack,
      List.take_of_length_le (by rw [length_pack]; exact Nat.le_succ _), Nat.add_sub_cancel_left]
    rfl
  have hdecoded := decodeFrame_stuffed unpack hunstuff sent (length_header frame) hdecode
  rw [← hpacket] at hdecoded
  have hparity : word.cells.drop rsDecodedSize = frame.parity := by
    rw [UnstuffedAx25IFrame.parity, hword]
  rw [hparity] at hdecoded
  constructor
  · rintro ⟨packet', decoded, hstuff', -, hrun, -⟩
    rw [hsent, Except.ok.injEq] at hstuff'
    rw [← hstuff', hdecoded] at hrun
    by_contra hcrc
    rw [if_neg hcrc] at hrun
    contradiction
  · intro hcrc
    obtain ⟨decoded, hunpack, hinfo⟩ := hsplits (message.cells ++ frame.parity)
    refine ⟨packet, decoded, hsent, herr, ?_, ?_⟩
    · rw [hdecoded, if_pos hcrc, hunpack]
      rfl
    · rw [hinfo, List.take_left' message.length_cells]

theorem Damaged.decodesTo_iff (hunstuff : DropsStuffedBits startUnstuffing)
    {frame frame' : UnstuffedAx25IFrame} {message : Block Byte rsDecodedSize}
    (h : Damaged frame frame') (hlayout : IFrameLayout frame (frame.header ++ frame.info))
    (hinfo : frame.info = (codeword message).cells)
    (hdecoder : CorrectsErrors decoder message (codeword message))
    (hsplits : SplitsAfter unpack infoOf frame.header) :
    DecodesTo startUnstuffing unpack infoOf decoder frame' (frame.info.take rsDecodedSize) ↔
      crcOf (List.zipWith (· ^^^ ·) frame.parity frame'.parity) = 0 := by
  obtain ⟨hheader, hlayout'⟩ := h.layout hlayout
  have hmessage : frame.info.take rsDecodedSize = message.cells := by rw [hinfo, take_codeword]
  have hword : frame.info = message.cells ++ frame.parity := by
    rw [← hmessage, UnstuffedAx25IFrame.parity, List.take_append_drop]
  have hdecode : decoder ccsdsReedSolomon ⟨frame'.info, length_info frame'⟩ = some message := by
    apply hdecoder
    rw [← hinfo]
    exact h.wrong_le
  have hparity : frame.parity.length = frame'.parity.length := by
    rw [UnstuffedAx25IFrame.parity, UnstuffedAx25IFrame.parity, List.length_drop, List.length_drop,
      length_info, length_info]
  rw [← hheader] at hsplits
  rw [hmessage, ObcGsInterface.decodesTo_iff hunstuff hsplits hlayout' rfl hdecode, hheader, hword,
    ← List.append_assoc, ← List.append_assoc, crcOf_append_eq_iff _ hparity]

/-- **Damaged frames.** With at most 16 wrong bytes in its codeword, a frame is decoded to its
message exactly when the checksum of the change to the parity bytes is zero, as it is where
only bytes of the message are wrong. -/
theorem damagedFrame_decodes {s s' : LinkState} {telemData : Option (List Byte)} {telemDataLen : ℕ}
    {ax25Data : Option UnstuffedAx25IFrame} {frame frame' : UnstuffedAx25IFrame}
    {message : Block Byte rsDecodedSize} {word : Block Byte rsEncodedSize}
    (hunstuff : DropsStuffedBits startUnstuffing) (hlen : telemDataLen ≤ ax25InfoBytes)
    (hsend : ax25SendIFrame s telemData telemDataLen ax25Data = .ok ⟨.success, some frame, s'⟩)
    (hcode : IsCodeword message word) (hinfo : frame.info = word.cells)
    (hdecoder : CorrectsErrors decoder message word)
    (hsplits : SplitsAfter unpack infoOf frame.header) (hdamage : Damaged frame frame') :
    DecodesTo startUnstuffing unpack infoOf decoder frame' (frame.info.take rsDecodedSize) ↔
      crcOf (List.zipWith (· ^^^ ·) frame.parity frame'.parity) = 0 := by
  obtain rfl := isCodeword_iff.mp hcode
  exact hdamage.decodesTo_iff hunstuff (sentIFrame_layout hlen hsend) hinfo hdecoder hsplits

end Pipeline

/-! ## One damaged parity byte -/

theorem wrongBytes_append {xs ys xs' ys' : List Byte} (h : xs.length = ys.length) :
    wrongBytes (xs ++ xs') (ys ++ ys') = wrongBytes xs ys + wrongBytes xs' ys' := by
  rw [wrongBytes, List.zip_append h, List.countP_append]
  rfl

theorem wrongBytes_self (xs : List Byte) : wrongBytes xs xs = 0 := by
  induction xs with
  | nil => rfl
  | cons x xs ih =>
      rw [wrongBytes, List.zip_cons_cons, List.countP_cons, ← wrongBytes, ih]
      simp

theorem zipWith_xor_self (xs : List Byte) :
    List.zipWith (· ^^^ ·) xs xs = List.replicate xs.length 0 := by
  induction xs with
  | nil => rfl
  | cons x xs ih =>
      rw [List.zipWith_cons_cons, ih, List.length_cons, List.replicate_succ, BitVec.xor_self]
      rfl

/-- A frame with another information field. -/
def UnstuffedAx25IFrame.withInfo (frame : UnstuffedAx25IFrame) (info : Block Byte ax25InfoBytes) :
    UnstuffedAx25IFrame where
  data :=
    { cells := frame.data.cells.take ax25InfoFieldPosition ++
        (info.cells ++ frame.data.cells.drop ax25IFrameFcsPosition)
      length_cells := by
        rw [List.length_append, List.length_append, List.length_take, List.length_drop,
          Block.length_cells, Block.length_cells]
        rfl }
  length := frame.length

theorem cells_withInfo (frame : UnstuffedAx25IFrame) (info : Block Byte ax25InfoBytes) :
    (frame.withInfo info).data.cells = frame.data.cells.take ax25InfoFieldPosition ++
      (info.cells ++ frame.data.cells.drop ax25IFrameFcsPosition) := rfl

theorem info_withInfo (frame : UnstuffedAx25IFrame) (info : Block Byte ax25InfoBytes) :
    (frame.withInfo info).info = info.cells := by
  have hfront : (frame.data.cells.take ax25InfoFieldPosition).length = ax25InfoFieldPosition := by
    rw [List.length_take, Block.length_cells]
    rfl
  rw [UnstuffedAx25IFrame.info, UnstuffedAx25IFrame.field, cells_withInfo, List.drop_left' hfront,
    List.take_left' info.length_cells]

theorem damaged_withInfo {frame : UnstuffedAx25IFrame} {info : Block Byte ax25InfoBytes}
    (h : wrongBytes frame.info info.cells ≤ 16) : Damaged frame (frame.withInfo info) := by
  have hfront : (frame.data.cells.take ax25InfoFieldPosition).length = ax25InfoFieldPosition := by
    rw [List.length_take, Block.length_cells]
    rfl
  have hmiddle : (frame.data.cells.take ax25InfoFieldPosition ++ info.cells).length =
      ax25IFrameFcsPosition := by
    rw [List.length_append, hfront, info.length_cells]
    rfl
  refine ⟨rfl, ?_, ?_, ?_⟩
  · rw [cells_withInfo, List.take_left' hfront]
  · rw [cells_withInfo, ← List.append_assoc, List.drop_left' hmiddle]
  · rwa [info_withInfo]

/-- A codeword with its last byte changed. -/
theorem exists_flipped (word : Block Byte rsEncodedSize) :
    ∃ info : Block Byte ax25InfoBytes, wrongBytes word.cells info.cells ≤ 16 ∧
      List.zipWith (· ^^^ ·) (word.cells.drop rsDecodedSize) (info.cells.drop rsDecodedSize) =
        List.replicate 31 0 ++ [1] := by
  have hword : word.cells.length = 255 := word.length_cells
  obtain ⟨front, last, hsplit⟩ : ∃ front last, word.cells = front ++ [last] := by
    refine ⟨word.cells.dropLast, word.cells.getLast ?_, (List.dropLast_append_getLast _).symm⟩
    intro hnil
    rw [hnil] at hword
    contradiction
  have hfront : front.length = 254 := by
    rw [hsplit, List.length_append, List.length_singleton] at hword
    exact Nat.succ.inj hword
  have hdrop (b : Byte) : (front ++ [b]).drop rsDecodedSize = front.drop rsDecodedSize ++ [b] := by
    rw [List.drop_append_of_le_length (by rw [hfront]; decide)]
  have hback : (front.drop rsDecodedSize).length = 31 := by
    rw [List.length_drop, hfront]
    rfl
  refine ⟨⟨front ++ [last ^^^ 1], by rw [List.length_append, hfront]; rfl⟩, ?_, ?_⟩
  · have hone := List.countP_le_length (p := fun p : Byte × Byte => decide (p.1 ≠ p.2))
      (l := [last].zip [last ^^^ 1])
    rw [hsplit, wrongBytes_append rfl, wrongBytes_self, Nat.zero_add]
    exact Nat.le_trans hone (show 1 ≤ 16 by decide)
  · have hlast : last ^^^ (last ^^^ 1) = 1 := by
      rw [← BitVec.xor_assoc, BitVec.xor_self, BitVec.zero_xor]
    rw [hsplit, hdrop, hdrop, List.zipWith_append rfl, zipWith_xor_self, hback,
      List.zipWith_cons_cons, hlast]
    rfl

theorem crcOf_lastBit : crcOf (List.replicate 31 0 ++ [1]) ≠ 0 := by decide +kernel

/-- The message of the frames below. -/
def zeroMessage : Block Byte rsDecodedSize := Block.fill _ 0

/-- A frame with a codeword in its information field, and the same frame with one damaged
parity byte. -/
theorem exists_damagedParity :
    ∃ frame frame', ax25SendIFrame linkedSender (some (codeword zeroMessage).cells) 255
        (some ⟨Block.fill _ 0, 0⟩) = .ok ⟨.success, some frame, linkedSender.sent⟩ ∧
      frame.info = (codeword zeroMessage).cells ∧ Damaged frame frame' ∧
      List.zipWith (· ^^^ ·) frame.parity frame'.parity = List.replicate 31 0 ++ [1] := by
  have hword : (codeword zeroMessage).cells.length = 255 := (codeword zeroMessage).length_cells
  obtain ⟨frame, hsend, -, hcells⟩ := ax25SendIFrame_eq ⟨Block.fill _ 0, 0⟩
    (show linkedSender.currentLinkDestAddr.length = ax25DestAddrBytes from rfl)
    (show 255 ≤ ax25InfoBytes from Nat.le_refl 255) (Nat.le_of_eq hword.symm)
  rw [List.take_of_length_le (Nat.le_of_eq hword)] at hcells
  obtain ⟨-, hinfo⟩ := sealed_fields hcells (Block.length_cells _)
    (length_infoField (Nat.le_of_eq hword))
  have hfield : infoField (codeword zeroMessage).cells = (codeword zeroMessage).cells := by
    rw [infoField, hword]
    exact List.append_nil _
  rw [hfield] at hinfo
  obtain ⟨info, hwrong, hparity⟩ := exists_flipped (codeword zeroMessage)
  refine ⟨frame, frame.withInfo info, hsend, hinfo, damaged_withInfo (by rwa [hinfo]), ?_⟩
  rw [UnstuffedAx25IFrame.parity, UnstuffedAx25IFrame.parity, info_withInfo, hinfo, hparity]

/-- The bytes behind a header. -/
def unpackInfo (bytes : List Byte) : Except PyError (List Byte) := .ok (bytes.drop 16)

theorem damagedFrame_decodes_parity :
    ∃ frame frame', Damaged frame frame' ∧
      (DecodesTo (destuff 5) unpackInfo id (fun _ _ => some zeroMessage) frame'
          (frame.info.take rsDecodedSize) ↔
        crcOf (List.zipWith (· ^^^ ·) frame.parity frame'.parity) = 0) := by
  obtain ⟨frame, frame', hsend, hinfo, hdamage, -⟩ := exists_damagedParity
  refine ⟨frame, frame', hdamage, ?_⟩
  have hsplits : SplitsAfter unpackInfo id frame.header := fun info =>
    ⟨info, congrArg Except.ok (List.drop_left' (length_header frame)), rfl⟩
  exact damagedFrame_decodes (fun _ => rfl) (Nat.le_refl 255) hsend (isCodeword_iff.mpr rfl) hinfo
    (fun _ _ => rfl) hsplits hdamage

/-- With one damaged parity byte the checksum fails, whatever the decoder and the packages
are. -/
theorem damagedFrame_decodes_fails :
    ∃ frame frame', ax25SendIFrame linkedSender (some (codeword zeroMessage).cells) 255
        (some ⟨Block.fill _ 0, 0⟩) = .ok ⟨.success, some frame, linkedSender.sent⟩ ∧
      IsCodeword zeroMessage (codeword zeroMessage) ∧
      frame.info = (codeword zeroMessage).cells ∧ Damaged frame frame' ∧
      ∀ (Frame : Type) (startUnstuffing : List Bool → List Bool)
        (unpack : List Byte → Except PyError Frame) (infoOf : Frame → List Byte)
        (decoder : RsDecoder), DropsStuffedBits startUnstuffing →
        CorrectsErrors decoder zeroMessage (codeword zeroMessage) →
        SplitsAfter unpack infoOf frame.header →
        ¬ DecodesTo startUnstuffing unpack infoOf decoder frame'
          (frame.info.take rsDecodedSize) := by
  obtain ⟨frame, frame', hsend, hinfo, hdamage, hparity⟩ := exists_damagedParity
  refine ⟨frame, frame', hsend, isCodeword_iff.mpr rfl, hinfo, hdamage, ?_⟩
  intro Frame startUnstuffing unpack infoOf decoder hunstuff hdecoder hsplits
  rw [hdamage.decodesTo_iff hunstuff (sentIFrame_layout (Nat.le_refl 255) hsend) hinfo hdecoder
    hsplits, hparity]
  exact crcOf_lastBit

end ObcGsInterface
