import ObcGsInterface.Model.CommandFraming
import ObcGsInterface.Verification.Command.Response
import ObcGsInterface.Verification.Ground.Isolation
import ObcGsInterface.Verification.Pipeline.ControlFrames
import ObcGsInterface.Verification.Telemetry.Stream

/-! # Runs of the ground station

`poll`, `send_command` and `send_conn_request` on what arrives: responses, telemetry and
acknowledgements of the satellite in packets, with log messages around them. -/

namespace ObcGsInterface

open CArray BitStream BitStuffing

-- The tables are never evaluated in a proof.
attribute [local irreducible] fieldCreate

/-! ## Parsing -/

/-- What the ground station makes of a header and its data. -/
def CmdResponseHeader.parsed (header : CmdResponseHeader) (id : CmdCallbackId) (data : List Byte) :
    ParsedCmdRes :=
  let response : CmdRes := ⟨id, header.errCode.toNat, header.dataLen.toNat⟩
  match id with
  | .rtcSync => .cmdRtcSyncRes response (intFromBytesLittle (data.take 4))
  | .verifyCrc => .cmdVerifyCrcRes response (intFromBytesLittle (data.take 4))
  | .i2cProbe =>
      .cmdI2CProbeRes response ((data.take header.dataLen.toNat).map BitVec.toNat)
  | _ => .cmdRes response

theorem parseCommandResponse_image {header : CmdResponseHeader} (h : header.Accepted)
    (hdata : header.dataLen.toNat < cmdResponseDataMaxSize)
    (responseData : Block Byte cmdResponseDataMaxSize) {id : CmdCallbackId}
    (hid : CmdCallbackId.ofValue? header.cmdId.toNat = some id) :
    parseCommandResponse (responseImage header responseData) =
      .ok (header.parsed id responseData.cells) := by
  obtain ⟨rest, hraw⟩ := unpackCommandResponse_image h hdata responseData
  have hlength : responseData.cells.length = cmdResponseDataMaxSize := responseData.length_cells
  have hword : (responseData.cells ++ rest).take 4 = responseData.cells.take 4 :=
    List.take_append_of_le_length (by rw [hlength]; decide)
  have hprobe : (List.range header.dataLen.toNat).map (fun i =>
        intFromBytesLittle (((responseData.cells ++ rest).take (i + 1)).drop i)) =
      (responseData.cells.take header.dataLen.toNat).map BitVec.toNat := by
    rw [map_intFromBytesLittle (by rw [List.length_append, hlength]; omega),
      List.take_append_of_le_length (by rw [hlength]; omega)]
  rw [parseCommandResponse, hraw, ok_bind]
  simp only [hid]
  cases id <;>
    simp [parseFuncDict, parseCmdWithNoData, parseCmdRtcSync, parseCmdVerifyCrc, parseCmdI2CProbe,
      CmdResponseHeader.parsed, hword, hprobe]

/-- What is raised for a response whose data fills the whole field. -/
def fullFieldError : PyError :=
  .valueError ("Could not unpack command response. OBC Error Code: " ++
    toString ErrorCode.invalidArg.value)

theorem parseCommandResponse_full {header : CmdResponseHeader} (h : header.Accepted)
    (hdata : header.dataLen.toNat = cmdResponseDataMaxSize)
    (responseData : Block Byte cmdResponseDataMaxSize) :
    parseCommandResponse (responseImage header responseData) = .error fullFieldError := by
  have hlength := length_responseImage header responseData
  obtain ⟨buff, hbuff, hbuffCells⟩ := ctypesArray_of_le (Nat.le_of_eq hlength)
  obtain ⟨dataBuffer, hdataBuffer, -⟩ :=
    ctypesArray_of_le (show ([] : List Byte).length ≤ rsDecodedDataSize from Nat.zero_le _)
  rw [hlength, Nat.sub_self, List.replicate_zero, List.append_nil] at hbuffCells
  have hroom : cmdResponseDataMaxSize ≤ dataBuffer.cells.length := by
    rw [dataBuffer.length_cells]
    decide
  have hunpack := unpackCmdResponse_image h responseData CmdResponseHeader.new hroom
  rw [if_neg (Nat.not_lt.mpr hdata.ge)] at hunpack
  rw [parseCommandResponse, unpackCommandResponse, if_neg (by omega)]
  simp only [hbuff, hdataBuffer, hbuffCells, hunpack, ok_bind]
  rfl

theorem TelemetryPacket.length_eq {records : List TelemetryData} {packet : List Byte} {used : ℕ}
    (h : TelemetryPacket records packet used) : packet.length = rsDecodedDataSize := by
  have hroom := h.room
  rw [h.bytes_eq, List.length_append, List.length_replicate, ← h.used_eq]
  omega

/-- The reader of telemetry on a packet in the making. -/
theorem unpackTelem_packet {records : List TelemetryData} {packet : List Byte} {used : ℕ}
    (h : TelemetryPacket records packet used) :
    ∃ unpacked rest, unpackTelem packet = .ok (unpacked, rest) ∧
      List.Forall₂ TelemetryData.SameRecord unpacked records := by
  have hroom := h.room
  have hsize : rsDecodedDataSize = 223 := rfl
  obtain ⟨n, hn⟩ : ∃ n, rsDecodedDataSize - used = n + 1 :=
    Nat.exists_eq_succ_of_ne_zero (by omega)
  have hbytes : packet = telemetryImages records ++ 0 :: List.replicate n 0 := by
    rw [h.bytes_eq, hn, List.replicate_succ]
  have hlength := h.length_eq
  have hcount := length_le_length_telemetryImages records
  have hused := h.used_eq
  obtain ⟨unpacked, hloop, hsame⟩ := unpackTelemLoop_images records h.supported []
    (List.replicate n 0) (packet.length + 1) (by omega) []
  simp only [List.nil_append, List.length_nil, Nat.zero_add, ← hbytes] at hloop
  refine ⟨unpacked, packet.drop (telemetryImages records).length, ?_, hsame⟩
  rw [unpackTelem, if_neg (by omega), hloop]
  rfl

section Sessions

variable {Frame : Type} {startUnstuffing : List Bool → List Bool}
  {unpack : List Byte → Except PyError Frame} {dataOf : Frame → Option (List Byte)}

/-! ## What is read -/

/-- A packet with log messages around it. -/
inductive PacketRead (unpack : List Byte → Except PyError Frame)
    (dataOf : Frame → Option (List Byte)) (message : List Byte) (checksum : BitVec 16)
    (left right : List Byte) : List Byte → Prop where
  | read {packet : List Byte} (quietLeft : ax25Flag ∉ left) (quietRight : ax25Flag ∉ right)
      (sent : DownlinkPacket unpack dataOf message checksum packet) :
      PacketRead unpack dataOf message checksum left right (left ++ packet ++ right)

theorem PacketRead.received (hunstuff : DropsStuffedBits startUnstuffing)
    (buffers : DecoderBuffers 255 32) {message : List Byte} {checksum : BitVec 16}
    {left right data : List Byte} (h : PacketRead unpack dataOf message checksum left right data) :
    find data ≠ -1 ∧ ∃ packet, isolateFrame data = ⟨left, packet, right⟩ ∧
      (checksum = 0 → ∃ frame frameData, receiveFrame startUnstuffing unpack
        (libcorrectDecoder buffers) (initRs .null) packet = .ok (some frame) ∧
          dataOf frame = some frameData ∧ frameData.take rsDecodedDataSize = message) ∧
      (checksum ≠ 0 → receiveFrame startUnstuffing unpack (libcorrectDecoder buffers)
        (initRs .null) packet = .error (.pyError (.valueError "Check sums do not match"))) := by
  cases h with
  | read quietLeft quietRight sent =>
      obtain ⟨⟨body, rfl⟩, hreceived⟩ := sent.received hunstuff buffers
      refine ⟨?_, _, isolateFrame_framed quietLeft quietRight body, hreceived⟩
      rw [List.append_assoc, List.cons_append, find_append quietLeft]
      omega

/-- A response that the satellite packs, and what the ground station makes of it. -/
inductive PackedResponse : List Byte → Except PyError ParsedCmdRes → Prop where
  | packed {header : CmdResponseHeader} {id : CmdCallbackId} {buffer : Block Byte rsDecodedDataSize}
      {responseData : Block Byte cmdResponseDataMaxSize} {message : List Byte}
      (accepted : header.Accepted) (dataLen_lt : header.dataLen.toNat < cmdResponseDataMaxSize)
      (id_eq : CmdCallbackId.ofValue? header.cmdId.toNat = some id)
      (pack : packCmdResponse header buffer.cells responseData.cells = .ok (.success, message)) :
      PackedResponse message (.ok (header.parsed id responseData.cells))
  | full {header : CmdResponseHeader} {buffer : Block Byte rsDecodedDataSize}
      {responseData : Block Byte cmdResponseDataMaxSize} {message : List Byte}
      (accepted : header.Accepted) (dataLen_eq : header.dataLen.toNat = cmdResponseDataMaxSize)
      (pack : packCmdResponse header buffer.cells responseData.cells = .ok (.success, message)) :
      PackedResponse message (.error fullFieldError)

/-- What `packCmdResponse` writes for an accepted header. -/
theorem image_of_pack {header : CmdResponseHeader} {buffer : Block Byte rsDecodedDataSize}
    {responseData : Block Byte cmdResponseDataMaxSize} {message : List Byte}
    (accepted : header.Accepted)
    (pack : packCmdResponse header buffer.cells responseData.cells = .ok (.success, message)) :
    message = responseImage header responseData := by
  rw [packCmdResponse_eq, if_pos ⟨accepted.cmdId_lt, accepted.dataLen_le⟩, Except.ok.injEq,
    Prod.mk.injEq] at pack
  exact pack.2.symm

theorem PackedResponse.parse {message : List Byte} {response : Except PyError ParsedCmdRes}
    (h : PackedResponse message response) : parseCommandResponse message = response := by
  cases h with
  | packed accepted dataLen_lt id_eq pack =>
      rw [image_of_pack accepted pack]
      exact parseCommandResponse_image accepted dataLen_lt _ id_eq
  | full accepted dataLen_eq pack =>
      rw [image_of_pack accepted pack]
      exact parseCommandResponse_full accepted dataLen_eq _

/-- What is read is written down as the text: only log messages, or a response between two. -/
inductive Recorded (unpack : List Byte → Except PyError Frame)
    (dataOf : Frame → Option (List Byte)) : List Byte → String → Prop where
  | logs {data : List Byte} {text : String} (quiet : ax25Flag ∉ data)
      (text_eq : decodeUtf8 data = .ok text) : Recorded unpack dataOf data text
  | response {message left right data : List Byte} {response : ParsedCmdRes} {l r : String}
      (packed : PackedResponse message (.ok response))
      (read : PacketRead unpack dataOf message 0 left right data)
      (left_eq : decodeUtf8 left = .ok l) (right_eq : decodeUtf8 right = .ok r) :
      Recorded unpack dataOf data (l ++ response.str ++ r)

/-- What ends a run with an error: a packet with damage to its check sequence, a response whose
data fills its field, or log messages that are not text. -/
inductive Stops (unpack : List Byte → Except PyError Frame)
    (dataOf : Frame → Option (List Byte)) : List Byte → ReceiveError → Prop where
  | logs {data : List Byte} {error : ReceiveError} (quiet : ax25Flag ∉ data)
      (error_eq : decodeUtf8 data = .error error) : Stops unpack dataOf data error
  | damaged {message left right data : List Byte} {checksum : BitVec 16}
      (read : PacketRead unpack dataOf message checksum left right data)
      (checksum_ne : checksum ≠ 0) :
      Stops unpack dataOf data (.pyError (.valueError "Check sums do not match"))
  | full {message left right data : List Byte} {error : PyError}
      (packed : PackedResponse message (.error error))
      (read : PacketRead unpack dataOf message 0 left right data) :
      Stops unpack dataOf data (.pyError error)
  | left {message left right data : List Byte} {response : ParsedCmdRes} {error : ReceiveError}
      (packed : PackedResponse message (.ok response))
      (read : PacketRead unpack dataOf message 0 left right data)
      (left_eq : decodeUtf8 left = .error error) : Stops unpack dataOf data error
  | right {message left right data : List Byte} {response : ParsedCmdRes} {l : String}
      {error : ReceiveError} (packed : PackedResponse message (.ok response))
      (read : PacketRead unpack dataOf message 0 left right data)
      (left_eq : decodeUtf8 left = .ok l) (right_eq : decodeUtf8 right = .error error) :
      Stops unpack dataOf data error

end Sessions

/-- A packet of a response, without damage. -/
theorem exists_packetRead {header : CmdResponseHeader} (id : CmdCallbackId) (left right : List Byte)
    (accepted : header.Accepted) (dataLen_lt : header.dataLen.toNat < cmdResponseDataMaxSize)
    (id_eq : CmdCallbackId.ofValue? header.cmdId.toNat = some id)
    (responseData : Block Byte cmdResponseDataMaxSize)
    (quietLeft : ax25Flag ∉ left) (quietRight : ax25Flag ∉ right) :
    ∃ message data, PackedResponse message (.ok (header.parsed id responseData.cells)) ∧
      PacketRead unpackInfo some message 0 left right data := by
  obtain ⟨packet, hpacket⟩ :=
    exists_downlinkPacket ⟨responseImage header responseData, length_responseImage _ _⟩
  have hpack := packCmdResponse_eq header responseData (Block.fill _ 0)
  rw [if_pos ⟨accepted.cmdId_lt, accepted.dataLen_le⟩] at hpack
  exact ⟨_, _, .packed accepted dataLen_lt id_eq hpack, .read quietLeft quietRight hpacket⟩

/-- A command without an execution time. -/
def commandOf (id : CmdCallbackId) : CmdMsg := { CmdMsg.new with id := BitVec.ofNat 32 id.value }

/-- The header of a successful response to a ping. -/
def pingResponse : CmdResponseHeader := ⟨5, 1, 0⟩

theorem pingResponse_accepted : pingResponse.Accepted :=
  ⟨by decide, ⟨.success, by decide⟩, by decide⟩

section Sessions

variable {Frame : Type} {startUnstuffing : List Bool → List Bool}
  {unpack : List Byte → Except PyError Frame} {dataOf : Frame → Option (List Byte)}

/-! ## Polling -/

/-- What is read out of a packet whose damage can be made good. -/
theorem pollRead_packet (hunstuff : DropsStuffedBits startUnstuffing)
    (buffers : DecoderBuffers 255 32) {message left right data : List Byte}
    {response : Except PyError ParsedCmdRes} (packed : PackedResponse message response)
    (read : PacketRead unpack dataOf message 0 left right data) :
    pollRead startUnstuffing unpack dataOf (libcorrectDecoder buffers) (initRs .null) data = do
      let commandRes ← (response.mapError .pyError).map ParsedCmdRes.str
      return (← decodeUtf8 left) ++ commandRes ++ (← decodeUtf8 right) := by
  obtain ⟨hfound, packet, hisolated, hreceived, -⟩ := read.received hunstuff buffers
  obtain ⟨frame, frameData, hframe, hdata, hmessage⟩ := hreceived rfl
  rw [pollRead, if_pos hfound]
  simp only [hisolated, hframe, ok_bind, Option.bind_some, hdata, hmessage, packed.parse]

theorem pollRead_recorded (hunstuff : DropsStuffedBits startUnstuffing)
    (buffers : DecoderBuffers 255 32) {data : List Byte} {text : String}
    (h : Recorded unpack dataOf data text) :
    pollRead startUnstuffing unpack dataOf (libcorrectDecoder buffers) (initRs .null) data =
      .ok text := by
  cases h with
  | logs quiet text_eq =>
      rw [pollRead, if_neg (not_not.mpr (find_of_not_mem quiet)), text_eq]
  | response packed read left_eq right_eq =>
      rw [pollRead_packet hunstuff buffers packed read, left_eq, right_eq]
      rfl

theorem pollRead_stops (hunstuff : DropsStuffedBits startUnstuffing)
    (buffers : DecoderBuffers 255 32) {data : List Byte} {error : ReceiveError}
    (h : Stops unpack dataOf data error) :
    pollRead startUnstuffing unpack dataOf (libcorrectDecoder buffers) (initRs .null) data =
      .error error := by
  cases h with
  | logs quiet error_eq =>
      rw [pollRead, if_neg (not_not.mpr (find_of_not_mem quiet)), error_eq]
  | damaged read checksum_ne =>
      obtain ⟨hfound, packet, hisolated, -, hrefused⟩ := read.received hunstuff buffers
      rw [pollRead, if_pos hfound]
      simp only [hisolated, hrefused checksum_ne]
      rfl
  | full packed read =>
      rw [pollRead_packet hunstuff buffers packed read]
      rfl
  | left packed read left_eq =>
      rw [pollRead_packet hunstuff buffers packed read, left_eq]
      rfl
  | right packed read left_eq right_eq =>
      rw [pollRead_packet hunstuff buffers packed read, left_eq, right_eq]
      rfl

/-- `poll`, when the decoder has other working arrays at every read. -/
def pollOn (startUnstuffing : List Bool → List Bool) (unpack : List Byte → Except PyError Frame)
    (dataOf : Frame → Option (List Byte)) :
    List (DecoderBuffers 255 32 × List Byte) → String × Option ReceiveError
  | [] => ("", none)
  | (buffers, data) :: reads =>
      match pollRead startUnstuffing unpack dataOf (libcorrectDecoder buffers) (initRs .null) data
        with
      | .ok dataString =>
          let (written, raised) := pollOn startUnstuffing unpack dataOf reads
          (dataString ++ written, raised)
      | .error error => ("", some error)

/-- It makes no difference which: what a packet leaves in the arrays does not show later. -/
theorem pollOn_eq (buffers : DecoderBuffers 255 32)
    (reads : List (DecoderBuffers 255 32 × List Byte)) :
    pollOn startUnstuffing unpack dataOf reads =
      poll startUnstuffing unpack dataOf (libcorrectDecoder buffers) (initRs .null)
        (reads.map Prod.snd) := by
  induction reads with
  | nil => rfl
  | cons read reads ih =>
      obtain ⟨buffers', data⟩ := read
      have hdecoder := libcorrectDecoder_eq buffers' buffers
      cases hread : pollRead startUnstuffing unpack dataOf (libcorrectDecoder buffers)
          (initRs .null) data with
      | ok text => simp [pollOn, poll, hdecoder, hread, ih]
      | error error => simp [pollOn, poll, hdecoder, hread]

theorem poll_append (hunstuff : DropsStuffedBits startUnstuffing) (buffers : DecoderBuffers 255 32)
    {reads : List (List Byte)} {texts : List String}
    (h : List.Forall₂ (Recorded unpack dataOf) reads texts) (back : List (List Byte)) :
    poll startUnstuffing unpack dataOf (libcorrectDecoder buffers) (initRs .null) (reads ++ back) =
      (String.join texts ++ (poll startUnstuffing unpack dataOf (libcorrectDecoder buffers)
        (initRs .null) back).1, (poll startUnstuffing unpack dataOf (libcorrectDecoder buffers)
        (initRs .null) back).2) := by
  induction h with
  | nil => simp
  | cons hread _ ih =>
      rw [List.cons_append, poll, pollRead_recorded hunstuff buffers hread]
      simp only [ih, String.join_cons, String.append_assoc]

/-- **A run of `poll`.** Every log message and every response is written down, in order. The
first packet with damage to its check sequence, response that fills its field or log message
that is not text ends the run: nothing that arrives after it is written down. -/
theorem poll_run (hunstuff : DropsStuffedBits startUnstuffing) (buffers : DecoderBuffers 255 32)
    {reads : List (List Byte)} {texts : List String}
    (h : List.Forall₂ (Recorded unpack dataOf) reads texts) :
    poll startUnstuffing unpack dataOf (libcorrectDecoder buffers) (initRs .null) reads =
        (String.join texts, none) ∧
      ∀ (data : List Byte) (error : ReceiveError) (back : List (List Byte)),
        Stops unpack dataOf data error →
        poll startUnstuffing unpack dataOf (libcorrectDecoder buffers) (initRs .null)
            (reads ++ data :: back) = (String.join texts, some error) := by
  constructor
  · have hrun := poll_append hunstuff buffers h []
    rw [List.append_nil] at hrun
    rw [hrun, poll, String.append_empty]
  · intro data error back hstops
    rw [poll_append hunstuff buffers h, poll, pollRead_stops hunstuff buffers hstops]
    simp

/-- A log message and a response, then a message that is not text and one more. -/
theorem poll_run_ping :
    let text := "a" ++ (pingResponse.parsed .ping (List.replicate 220 0)).str ++ "b"
    let session :=
      poll (destuff 5) unpackInfo some (libcorrectDecoder (zeroBuffers 32)) (initRs .null)
    ∃ data, session [[0x6F, 0x6B], data] = (String.join ["ok", text], none) ∧
      session [[0x6F, 0x6B], data, [0xFF], [0x6F, 0x6B]] =
        (String.join ["ok", text], some .unicodeDecodeError) := by
  obtain ⟨message, data, hpacked, hread⟩ := exists_packetRead .ping [0x61] [0x62]
    pingResponse_accepted (by decide) (by decide) (Block.fill _ 0) (by decide) (by decide)
  have hlogs : Recorded unpackInfo some [0x6F, 0x6B] "ok" := .logs (by decide) (by decide)
  have hresponse : Recorded unpackInfo some data
      ("a" ++ (pingResponse.parsed .ping (List.replicate 220 0)).str ++ "b") :=
    .response hpacked hread (by decide) (by decide)
  obtain ⟨hrun, hstop⟩ :=
    poll_run (fun _ => rfl) (zeroBuffers 32) (.cons hlogs (.cons hresponse .nil))
  exact ⟨data, hrun, hstop [0xFF] .unicodeDecodeError [[0x6F, 0x6B]]
    (.logs (by decide) (by decide))⟩

/-! ## Replies -/

/-- The reply to a frame that carries this message. -/
def RepliesWith (startUnstuffing : List Bool → List Bool)
    (unpack : List Byte → Except PyError Frame) (dataOf : Frame → Option (List Byte))
    (buffers : DecoderBuffers 255 32) (command : CmdMsg) (isTimetagged : Bool)
    (message : List Byte) (reply : Option CommandReply) : Prop :=
  ∀ packet frame frameData,
    receiveFrame startUnstuffing unpack (libcorrectDecoder buffers) (initRs .null) packet =
      .ok (some frame) → dataOf frame = some frameData →
    frameData.take rsDecodedDataSize = message →
    exceptException (frameReply startUnstuffing unpack dataOf (libcorrectDecoder buffers)
      (initRs .null) command isTimetagged packet) = .ok reply

/-- `send_command` looks at a packet only when the text around it can be decoded. -/
theorem sendCommandReply_packet (hunstuff : DropsStuffedBits startUnstuffing)
    (buffers : DecoderBuffers 255 32) {command : CmdMsg}
    (hreset : command.id.toNat ≠ CmdCallbackId.execObcReset.value) (isTimetagged : Bool)
    {message left right data : List Byte} {checksum : BitVec 16}
    (h : PacketRead unpack dataOf message checksum left right data)
    {reply : Option CommandReply}
    (hgood : RepliesWith startUnstuffing unpack dataOf buffers command isTimetagged message reply) :
    (∀ text, decodeUtf8 (left ++ right) = .ok text →
      sendCommandReply startUnstuffing unpack dataOf (libcorrectDecoder buffers) (initRs .null)
        command isTimetagged data = .ok (text, if checksum = 0 then reply else none)) ∧
      ∀ error, decodeUtf8 (left ++ right) = .error error →
        sendCommandReply startUnstuffing unpack dataOf (libcorrectDecoder buffers) (initRs .null)
          command isTimetagged data = .ok ("", none) := by
  obtain ⟨hfound, packet, hisolated, hreceived, hrefused⟩ := h.received hunstuff buffers
  constructor
  · intro text htext
    rw [sendCommandReply, if_neg hreset, if_pos hfound]
    simp only [hisolated, htext]
    by_cases hzero : checksum = 0
    · obtain ⟨frame, frameData, hframe, hdata, hmessage⟩ := hreceived hzero
      rw [hgood packet frame frameData hframe hdata hmessage, if_pos hzero]
      rfl
    · rw [frameReply, hrefused hzero, if_neg hzero]
      rfl
  · intro error herror
    rw [sendCommandReply, if_neg hreset, if_pos hfound]
    simp only [hisolated, herror]

/-- **The reply to a command.** The call returns the response of the satellite exactly when the
damage to the packet can be made good, the command is not time tagged, the text around the
packet is in order and the data of the response does not fill its field. -/
theorem sendCommandReply_response (hunstuff : DropsStuffedBits startUnstuffing)
    (buffers : DecoderBuffers 255 32) {command : CmdMsg}
    (hreset : command.id.toNat ≠ CmdCallbackId.execObcReset.value)
    (htelem : command.id.toNat ≠ CmdCallbackId.downlinkTelem.value) (isTimetagged : Bool)
    {message left right data : List Byte} {checksum : BitVec 16}
    {response : Except PyError ParsedCmdRes} (hpacked : PackedResponse message response)
    (h : PacketRead unpack dataOf message checksum left right data) :
    (∀ text, decodeUtf8 (left ++ right) = .ok text →
      sendCommandReply startUnstuffing unpack dataOf (libcorrectDecoder buffers) (initRs .null)
        command isTimetagged data = .ok (text,
          if checksum = 0 ∧ isTimetagged = false then
            response.toOption.map CommandReply.response
          else none)) ∧
      ∀ error, decodeUtf8 (left ++ right) = .error error →
        sendCommandReply startUnstuffing unpack dataOf (libcorrectDecoder buffers) (initRs .null)
          command isTimetagged data = .ok ("", none) := by
  have hreply : RepliesWith startUnstuffing unpack dataOf buffers command isTimetagged message
      (if isTimetagged = false then response.toOption.map CommandReply.response else none) := by
    intro packet frame frameData hframe hdata hmessage
    rw [frameReply, hframe, ok_bind]
    simp only [htelem, if_false, hdata, hmessage, hpacked.parse]
    -- A response that fills its field is an exception, and nothing is returned.
    cases isTimetagged with
    | true => rfl
    | false => cases hpacked <;> rfl
  have hcall := sendCommandReply_packet hunstuff buffers hreset isTimetagged h hreply
  simp only [ite_and]
  exact hcall

theorem sendCommandReply_response_ping :
    ∃ data, sendCommandReply (destuff 5) unpackInfo some (libcorrectDecoder (zeroBuffers 32))
      (initRs .null) (commandOf .ping) false data =
        .ok ("ab", some (.response (pingResponse.parsed .ping (List.replicate 220 0)))) := by
  obtain ⟨message, data, hpacked, hread⟩ := exists_packetRead .ping [0x61] [0x62]
    pingResponse_accepted (by decide) (by decide) (Block.fill _ 0) (by decide) (by decide)
  have hreset : (commandOf .ping).id.toNat ≠ CmdCallbackId.execObcReset.value := by decide
  have htelem : (commandOf .ping).id.toNat ≠ CmdCallbackId.downlinkTelem.value := by decide
  exact ⟨data, (sendCommandReply_response (fun _ => rfl) (zeroBuffers 32) hreset htelem false
    hpacked hread).1 "ab" (by decide)⟩

theorem forall_id_iff {unpacked records : List TelemetryData}
    (h : List.Forall₂ TelemetryData.SameRecord unpacked records) (n : ℕ) :
    (∀ data ∈ unpacked, data.id.toNat = n) ↔ ∀ data ∈ records, data.id.toNat = n := by
  induction h with
  | nil => simp
  | cons hsame _ ih => simp [hsame.id_eq, ih]

/-- **The reply to a request for telemetry.** The records of the packet are returned exactly when
all of them are temperatures of the board and the damage can be made good. -/
theorem sendCommandReply_telemetry (hunstuff : DropsStuffedBits startUnstuffing)
    (buffers : DecoderBuffers 255 32) {command : CmdMsg}
    (htelem : command.id.toNat = CmdCallbackId.downlinkTelem.value) (isTimetagged : Bool)
    {message left right data : List Byte} {checksum : BitVec 16} {records : List TelemetryData}
    {used : ℕ} (hpacked : PackedOneByOne records message used)
    (h : PacketRead unpack dataOf message checksum left right data) {text : String}
    (htext : decodeUtf8 (left ++ right) = .ok text) :
    ∃ unpacked, List.Forall₂ TelemetryData.SameRecord unpacked records ∧
      sendCommandReply startUnstuffing unpack dataOf (libcorrectDecoder buffers) (initRs .null)
        command isTimetagged data = .ok (text,
          if checksum = 0 ∧ ∀ record ∈ records, record.id.toNat = TelemetryDataId.obcTemp.value then
            some (.telemetry unpacked)
          else none) := by
  obtain ⟨unpacked, rest, hunpack, hsame⟩ := unpackTelem_packet hpacked.packet
  have hreset : command.id.toNat ≠ CmdCallbackId.execObcReset.value := by
    rw [htelem]
    decide
  have hreply : RepliesWith startUnstuffing unpack dataOf buffers command isTimetagged message
      (if ∀ record ∈ unpacked, record.id.toNat = 3 then some (.telemetry unpacked) else none) := by
    intro packet frame frameData hframe hdata hmessage
    rw [frameReply, hframe, ok_bind]
    simp only [htelem, if_true, hdata, hmessage, hunpack]
    rfl
  have hcall := (sendCommandReply_packet hunstuff buffers hreset isTimetagged h hreply).1 text htext
  refine ⟨unpacked, hsame, ?_⟩
  rw [hcall]
  have hids := forall_id_iff hsame 3
  have hvalue : TelemetryDataId.obcTemp.value = 3 := rfl
  simp only [hids, hvalue, ite_and]

/-- A temperature of the board. -/
def sampleTemperature : TelemetryData := ⟨0x41BC0000, 0, 3, 1700000000⟩

theorem sendCommandReply_telemetry_temperature :
    ∃ data unpacked, List.Forall₂ TelemetryData.SameRecord unpacked [sampleTemperature] ∧
      sendCommandReply (destuff 5) unpackInfo some (libcorrectDecoder (zeroBuffers 32))
        (initRs .null) (commandOf .downlinkTelem) false data =
          .ok ("ab", some (.telemetry unpacked)) := by
  have hsupported : ∀ data ∈ [sampleTemperature], data.Supported := fun data hdata =>
    ⟨.obcTemp, by rw [List.mem_singleton.mp hdata]; rfl, by decide⟩
  obtain ⟨message, used, hpacked⟩ :=
    packedOneByOne_of_room [sampleTemperature] hsupported (by decide)
  obtain ⟨packet, hpacket⟩ := exists_downlinkPacket ⟨message, hpacked.packet.length_eq⟩
  have hread : PacketRead unpackInfo some message 0 [0x61] [0x62] ([0x61] ++ packet ++ [0x62]) :=
    .read (by decide) (by decide) hpacket
  have hunstuff : DropsStuffedBits (destuff 5) := fun _ => rfl
  have htelem : (commandOf .downlinkTelem).id.toNat = CmdCallbackId.downlinkTelem.value := by decide
  have htext : decodeUtf8 ([0x61] ++ [0x62]) = .ok "ab" := by decide
  obtain ⟨unpacked, hsame, hcall⟩ := sendCommandReply_telemetry hunstuff (zeroBuffers 32) htelem
    false hpacked hread htext
  rw [if_pos ⟨rfl, by decide⟩] at hcall
  exact ⟨_, unpacked, hsame, hcall⟩

/-! ## Acknowledgements -/

theorem receiveFrame_eq_ok {decoder : RsDecoder} {rs : RsHandle} {packet : List Byte}
    {frame : Option Frame} :
    receiveFrame startUnstuffing unpack decoder rs packet = .ok frame ↔
      CommsPipeline.decodeFrame startUnstuffing unpack decoder rs packet = .ok frame := by
  rw [receiveFrame]
  cases CommsPipeline.decodeFrame startUnstuffing unpack decoder rs packet with
  | error error => simp [Except.mapError]
  | ok frame' => simp [Except.mapError]

theorem sendConnRequestReply_framed (decoder : RsDecoder) (rs : RsHandle) {left right : List Byte}
    (quietLeft : ax25Flag ∉ left) (quietRight : ax25Flag ∉ right) {text : String}
    (htext : decodeUtf8 (left ++ right) = .ok text) (body : List Byte) :
    sendConnRequestReply startUnstuffing unpack decoder rs
        (left ++ ax25Flag :: (body ++ [ax25Flag]) ++ right) =
      (receiveFrame startUnstuffing unpack decoder rs (ax25Flag :: (body ++ [ax25Flag]))).map
        fun rcvFrame => (text, rcvFrame) := by
  rw [sendConnRequestReply, isolateFrame_framed quietLeft quietRight, htext, ok_bind]
  rfl

/-- **The reply to a connection request.** A control frame of the satellite between log messages
is returned exactly when it is decoded on its own: when it has no run of five ones, or is one of
the SABM frames whose check sequence is moved into another one that passes. -/
theorem sendConnRequestReply_uFrame {view : FrameView Frame} (h : ParsesFrames unpack view)
    (decoder : RsDecoder) (rs : RsHandle) {s t : LinkState} {station : Station} {rest : List Byte}
    (hset : setCurrentLinkDestCallSign s (some (station.call ++ rest)) station.call.length
      station.ssid = .ok t) (out : PackedAx25UFrame) (cmd : UFrameCmd) {pollFinalBit : Byte}
    (hpoll : pollFinalBit.toNat ≤ 1) {left right : List Byte} (quietLeft : ax25Flag ∉ left)
    (quietRight : ax25Flag ∉ right) {text : String}
    (htext : decodeUtf8 (left ++ right) = .ok text) :
    (∃ sent frame, ax25SendUFrame t (some out) cmd.value pollFinalBit =
        .ok ⟨.success, some sent, t⟩ ∧
      sendConnRequestReply startUnstuffing unpack decoder rs
        (left ++ sent.data.cells.take sent.length ++ right) = .ok (text, some frame) ∧
      Shows view station cmd pollFinalBit frame) ↔
      ¬ List.replicate 5 true <:+: bits (uFrameContent station cmd pollFinalBit) ∨
        cmd = .conn ∧ pollFinalBit = 0 ∧ station.ssid.toNat ≤ 13 ∧
          (crcOf (uFrameBody station.address cmd.value pollFinalBit) = 0x7C8B ∨
            crcOf (uFrameBody station.address cmd.value pollFinalBit) = 0x8001) := by
  obtain ⟨hlink, haddress⟩ := link_of_set hset
  have hcmd : cmd.value ≤ maxUFrameCmdValue := by cases cmd <;> decide
  obtain ⟨packed, hsend, hpacked⟩ := ax25SendUFrame_eq out hlink hcmd hpoll
  have hreply (frame : Frame) : sendConnRequestReply startUnstuffing unpack decoder rs
      (left ++ packed.data.cells.take packed.length ++ right) = .ok (text, some frame) ↔
        CommsPipeline.decodeFrame startUnstuffing unpack decoder rs
          (packed.data.cells.take packed.length) = .ok (some frame) := by
    rw [← receiveFrame_eq_ok, hpacked.take_cells,
      sendConnRequestReply_framed decoder rs quietLeft quietRight htext]
    cases receiveFrame startUnstuffing unpack decoder rs (ax25Flag :: (pack _ ++ [ax25Flag])) with
    | error error => simp [Except.map]
    | ok frame' => simp [Except.map]
  rw [← decodes_iff h hpoll,
    ← groundDecodes_iff startUnstuffing decoder rs out hlink haddress cmd hpoll]
  constructor
  · rintro ⟨sent, frame, hsent, hframe, hshows⟩
    rw [hsend] at hsent
    cases hsent
    exact ⟨packed, frame, hsend, (hreply frame).mp hframe, hshows⟩
  · rintro ⟨sent, frame, hsent, hframe, hshows⟩
    rw [hsend] at hsent
    cases hsent
    exact ⟨packed, frame, hsend, (hreply frame).mpr hframe, hshows⟩

end Sessions

end ObcGsInterface
