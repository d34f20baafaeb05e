import ObcGsInterface.Verification.Command.Framing
import ObcGsInterface.Verification.Pipeline.Linked

/-! # Commands from end to end

Commands are framed, encrypted and encoded on the ground, and their blocks are damaged on the
way. On the satellite one instance of the decoder and one AES context serve all blocks. -/

namespace ObcGsInterface

open CArray BitStuffing StreamCipher

-- The tables are never evaluated in a proof.
attribute [local irreducible] fieldCreate

/-! ## One block -/

/-- What stays on the satellite between two blocks: the working arrays of the decoder, and the
static AES context. -/
structure ReceiverState where
  buffers : DecoderBuffers 255 32
  ctx : AesCtx

section Receiver

variable (key iv : AesBlock) (decodedData output : Block Byte rsDecodedSize)

/-- `rsDecode`, then `aes128Decrypt` over the whole block. -/
def receivePayload (s : ReceiverState) (block : Block Byte rsEncodedSize) :
    Except Fault (Option (List Byte) × ReceiverState) := do
  let (err, buffers, decoded) ←
    rsDecodeBuffered s.buffers (some block) (some decodedData) rsDecodedSize
  if err ≠ .success then
    return (none, ⟨buffers, s.ctx⟩)
  let result ← aes128Decrypt (initializeAesCtx s.ctx (some key)).2
    (decoded.map fun decoded => ⟨iv, decoded.cells, rsDecodedSize⟩) (some output) rsDecodedSize
  return (if result.err = .success then result.output.map Block.cells else none,
    ⟨buffers, result.ctx⟩)

/-- The payloads of the blocks that arrive, one after the other. -/
def receivePayloads : ReceiverState → List (Block Byte rsEncodedSize) → Except Fault (List (List Byte))
  | _, [] => return []
  | s, block :: blocks => do
      let (payload, s) ← receivePayload key iv decodedData output s block
      return payload.toList ++ (← receivePayloads s blocks)

variable {ctrXcryptBuffer : AesBlock → AesBlock → List Byte → List Byte}

/-- **One block.** With at most 16 wrong bytes in the block, the data come out, and behind them
the key stream. -/
theorem receivePayload_corrects (hcipher : SameCipher ctrXcryptBuffer) {data : List Byte}
    (hdata : data.length ≤ rsDecodedSize) :
    ∃ encoded : Block Byte rsEncodedSize,
      encodePayload ctrXcryptBuffer (initRs .null) key iv data = .ok encoded.cells ∧
      ∀ (received : Block Byte rsEncodedSize) (s : ReceiverState),
        wrongBytes encoded.cells received.cells ≤ 16 →
        ∃ s', receivePayload key iv decodedData output s received =
          .ok (some (data ++ (ctrKeyStream key iv rsDecodedSize).drop data.length), s') := by
  have hencrypted : ctrXcryptBuffer key iv data =
      (process (ctrByte (keyExpansion key)) (.start iv) data).1 := by
    rw [hcipher, aesCtrXcryptBuffer_eq]
  have hlength : (ctrXcryptBuffer key iv data).length = data.length := by
    rw [hencrypted, length_process]
  obtain ⟨message, hcells, hencode⟩ := fecEncode_eq (show (ctrXcryptBuffer key iv data).length ≤
    rsDecodedDataSize by rwa [hlength])
  have hroom : ¬ data.length > rsDecodedDataSize := Nat.not_lt.mpr hdata
  refine ⟨codeword message, by rw [encodePayload, if_neg hroom, hencode],
    fun received s hwrong => ?_⟩
  obtain ⟨buffers', hdecode⟩ := rsDecodeBuffered_corrects hwrong s.buffers decodedData
  obtain ⟨result, plain, hdecrypt, herr, houtput, hplain⟩ :=
    aes128Decrypt_eq s.ctx key iv message output
  have hsum : data.length + (rsDecodedDataSize - data.length) = rsDecodedSize :=
    Nat.add_sub_cancel' hdata
  rw [hcells, hlength, hencrypted, process_processed_zeros, hsum, ← ctrKeyStream] at hplain
  refine ⟨⟨buffers', result.ctx⟩, ?_⟩
  simp only [receivePayload, hdecode, ok_bind, ne_eq, not_true_eq_false, if_false, Option.map_some,
    hdecrypt, herr, if_true, houtput, hplain, pure_eq_ok]

/-- **A run.** Payloads that fill their blocks all come out, in order. -/
theorem receivePayloads_corrects (hcipher : SameCipher ctrXcryptBuffer) {payloads : List (List Byte)}
    (hpayloads : ∀ payload ∈ payloads, payload.length = rsDecodedSize) :
    ∃ blocks, payloads.mapM (encodePayload ctrXcryptBuffer (initRs .null) key iv) = .ok blocks ∧
      ∀ (received : List (Block Byte rsEncodedSize)) (s : ReceiverState),
        List.Forall₂ (fun block word => wrongBytes block word.cells ≤ 16) blocks received →
        receivePayloads key iv decodedData output s received = .ok payloads := by
  induction payloads with
  | nil =>
      refine ⟨[], rfl, fun received s hdamage => ?_⟩
      cases hdamage
      rfl
  | cons payload payloads ih =>
      obtain ⟨hpayload, hrest⟩ := List.forall_mem_cons.mp hpayloads
      obtain ⟨encoded, hencode, hreceive⟩ := receivePayload_corrects key iv decodedData output
        hcipher hpayload.le
      obtain ⟨blocks, hblocks, hrun⟩ := ih hrest
      have hwhole : payload ++ (ctrKeyStream key iv rsDecodedSize).drop payload.length =
          payload := by
        rw [hpayload, List.drop_of_length_le (length_ctrKeyStream _ _ _).le, List.append_nil]
      rw [hwhole] at hreceive
      refine ⟨encoded.cells :: blocks, ?_, fun received s hdamage => ?_⟩
      · rw [List.mapM_cons, hencode, ok_bind, hblocks]
        rfl
      · cases hdamage with
        | @cons _ word _ received hwrong hdamage =>
            obtain ⟨s', hfirst⟩ := hreceive word s hwrong
            rw [receivePayloads, hfirst, ok_bind]
            simp only [hrun received s' hdamage, ok_bind]
            rfl

/-- **Commands.** Whatever happens to at most 16 bytes of every block, all commands arrive, in
order. -/
theorem commands_arrive (hcipher : SameCipher ctrXcryptBuffer) {commands : List CmdMsg}
    (hsupported : ∀ cmdMsg ∈ commands, cmdMsg.Supported) :
    ∃ frames blocks, commandMultiPack commands = .ok frames ∧
      frames.mapM (encodePayload ctrXcryptBuffer (initRs .null) key iv) = .ok blocks ∧
      ∀ (received : List (Block Byte rsEncodedSize)) (s : ReceiverState),
        List.Forall₂ (fun block word => wrongBytes block word.cells ≤ 16) blocks received →
        ∃ payloads results, receivePayloads key iv decodedData output s received = .ok payloads ∧
          payloads.mapM unpackCommand = .ok results ∧
          List.Forall₂ CmdMsg.SameCommand (results.flatMap Prod.fst) commands := by
  have hflatten : (commandGroups [] commands).flatten = commands :=
    NextFit.flatten_groups wireSize _ [] commands
  have hitems (cmdMsg : CmdMsg) (_ : cmdMsg ∈ commands) : wireSize cmdMsg ≤ rsDecodedDataSize - 1 :=
    cmdMsg.length_image_le.trans (by decide)
  have hspecs (group : List CmdMsg) (hgroup : group ∈ commandGroups [] commands) :
      FrameSpec group (frameOf group) :=
    frameOf_spec (NextFit.ne_nil_of_mem_groups hitems group hgroup)
      (fun cmdMsg hcmd => hsupported cmdMsg (hflatten ▸ List.mem_flatten_of_mem hgroup hcmd))
      ((total_wireSize group).symm.trans_le
        (NextFit.total_le_of_mem_groups (Nat.zero_le _) hitems group hgroup))
  obtain ⟨results, hresults, hsame, -⟩ := mapM_unpackCommand hspecs
  have hlengths : ∀ payload ∈ (commandGroups [] commands).map frameOf,
      payload.length = rsDecodedSize := by
    intro payload hpayload
    obtain ⟨group, hgroup, rfl⟩ := List.mem_map.mp hpayload
    exact (hspecs group hgroup).length_eq
  obtain ⟨blocks, hblocks, hrun⟩ :=
    receivePayloads_corrects key iv decodedData output hcipher hlengths
  exact ⟨_, blocks, commandMultiPack_eq commands hsupported, hblocks, fun received s hdamage =>
    ⟨_, results, hrun received s hdamage, hresults, hflatten ▸ hsame⟩⟩

theorem commands_arrive_sampleDownload :
    ∃ frames blocks, commandMultiPack (List.replicate 19 sampleDownload) = .ok frames ∧
      frames.mapM (encodePayload vendoredCipher (initRs .null) defaultAesKey defaultAesIv) =
        .ok blocks ∧
      ∀ (received : List (Block Byte rsEncodedSize)) (s : ReceiverState),
        List.Forall₂ (fun block word => wrongBytes block word.cells ≤ 16) blocks received →
        ∃ payloads results, receivePayloads defaultAesKey defaultAesIv (Block.fill _ 0)
            (Block.fill _ 0) s received = .ok payloads ∧
          payloads.mapM unpackCommand = .ok results ∧
          List.Forall₂ CmdMsg.SameCommand (results.flatMap Prod.fst)
            (List.replicate 19 sampleDownload) :=
  commands_arrive defaultAesKey defaultAesIv (Block.fill _ 0) (Block.fill _ 0) (fun _ _ _ => rfl)
    fun cmdMsg hcmd => by
      rw [List.eq_of_mem_replicate hcmd]
      exact ⟨by decide, by decide, by decide⟩

end Receiver

/-! ## The downlink -/

section Downlink

variable {Frame : Type} {startUnstuffing : List Bool → List Bool}
  {unpack : List Byte → Except PyError Frame} {infoOf : Frame → List Byte}

/-- A message that is encoded, sent as an I frame and damaged in at most 16 bytes of its
information field. The ground station decodes it with the decoder of the library. -/
theorem message_arrives_iff (hunstuff : DropsStuffedBits startUnstuffing) {s : LinkState}
    (hlink : s.currentLinkDestAddr.length = ax25DestAddrBytes) (message : Block Byte rsDecodedSize)
    (rsData : Block Byte rsEncodedSize) (out : UnstuffedAx25IFrame)
    (buffers : DecoderBuffers 255 32) :
    ∃ word frame, rsEncode (initRs .null) (some message.cells) (some rsData) =
        .ok (.success, some word) ∧
      ax25SendIFrame s (some word.cells) rsEncodedSize (some out) =
        .ok ⟨.success, some frame, s.sent⟩ ∧
      ∀ frame', Damaged frame frame' → SplitsAfter unpack infoOf frame.header →
        (DecodesTo startUnstuffing unpack infoOf (libcorrectDecoder buffers) frame' message.cells ↔
          crcOf (List.zipWith (· ^^^ ·) frame.parity frame'.parity) = 0) := by
  have hword : (codeword message).cells.length = 255 := (codeword message).length_cells
  obtain ⟨frame, hsend, -, hcells⟩ := ax25SendIFrame_eq out hlink
    (show rsEncodedSize ≤ ax25InfoBytes from Nat.le_refl 255) (Nat.le_of_eq hword.symm)
  refine ⟨codeword message, frame, rsEncode_eq message rsData, hsend, fun frame' hdamage hsplits => ?_⟩
  have hfield : infoField (codeword message).cells = (codeword message).cells := by
    rw [infoField, hword]
    exact List.append_nil _
  have hwhole : (codeword message).cells.take rsEncodedSize = (codeword message).cells :=
    List.take_of_length_le (Nat.le_of_eq hword)
  rw [hwhole] at hcells
  obtain ⟨-, hinfo⟩ := sealed_fields hcells (Block.length_cells _)
    (length_infoField (Nat.le_of_eq hword))
  rw [hfield] at hinfo
  have hdecodes := hdamage.decodesTo_iff hunstuff
    (sentIFrame_layout (show rsEncodedSize ≤ ax25InfoBytes from Nat.le_refl 255) hsend) hinfo
    (libcorrectDecoder_correctsErrors buffers message) hsplits
  rwa [hinfo, take_codeword] at hdecodes

theorem message_arrives_iff_zeroMessage :
    ∃ (word : Block Byte rsEncodedSize) (frame : UnstuffedAx25IFrame),
      rsEncode (initRs .null) (some zeroMessage.cells) (some (Block.fill _ 0)) =
        .ok (.success, some word) ∧
      ax25SendIFrame linkedSender (some word.cells) rsEncodedSize (some ⟨Block.fill _ 0, 0⟩) =
        .ok ⟨.success, some frame, linkedSender.sent⟩ ∧
      ∀ frame', Damaged frame frame' → SplitsAfter unpackInfo id frame.header →
        (DecodesTo (destuff 5) unpackInfo id (libcorrectDecoder (zeroBuffers 32)) frame'
            zeroMessage.cells ↔
          crcOf (List.zipWith (· ^^^ ·) frame.parity frame'.parity) = 0) :=
  message_arrives_iff (fun _ => rfl) rfl zeroMessage (Block.fill _ 0) ⟨Block.fill _ 0, 0⟩
    (zeroBuffers 32)

end Downlink

end ObcGsInterface
