import ObcGsInterface.Verification.Pipeline.EndToEnd
import ObcGsInterface.Verification.Pipeline.Restuff
import ObcGsInterface.Verification.Stuffing.Tail

/-! # The uplink

The ground station stuffs its frames without the zero bytes at their end, and the satellite takes
zero bytes away when it unstuffs them. Both leave a frame alone whose check sequence does not end
in a zero byte. -/

namespace ObcGsInterface

open CArray BigEndian BitStream BitStuffing

-- The tables are never evaluated in a proof.
attribute [local irreducible] fieldCreate

/-! ## Stuffed on the ground, unstuffed on the satellite -/

/-- What `AX25.stuff` puts between the flags, as the destuffed bits show it: the content up to its
last one bit, and the zeros that fill a byte of the stuffed data. -/
theorem stuff_kept {startStuffing : List Bool → List Bool}
    (hstuff : InsertsStuffedBits startStuffing) {content : List Byte} {front : List Bool}
    (hfront : front.getLast? ≠ some false) {n : ℕ}
    (hbits : bits content = front ++ List.replicate n false) :
    ∃ body, ∃ k < 8, Ax25.stuff startStuffing (ax25Flag :: (content ++ [ax25Flag])) =
        ax25Flag :: (body ++ [ax25Flag]) ∧
      destuff 5 (bits body) = front ++ List.replicate k false := by
  obtain ⟨core, inserted, hcore, -, hstuffed, hdestuff⟩ :=
    stuff_trailingZeros (show 0 < 5 by decide) hfront n
  rw [← hbits] at hstuffed
  have hinner : (ax25Flag :: (content ++ [ax25Flag])).dropLast.drop 1 = content := by
    rw [← List.cons_append, List.dropLast_concat]
    rfl
  have hpacked : bits (intListToBytes (stuff 5 (bits content))) = core ++
      List.replicate (inserted + n + (8 - (stuff 5 (bits content)).length % 8)) false := by
    rw [bits_intListToBytes]
    conv_lhs => rw [hstuffed]
    rw [List.append_assoc, ← List.replicate_add, ← hstuffed]
  generalize inserted + n + (8 - (stuff 5 (bits content)).length % 8) = zeros at hpacked
  refine ⟨rstrip (intListToBytes (stuff 5 (bits content))), zeros % 8 - inserted,
    Nat.lt_of_le_of_lt (Nat.sub_le _ _) (Nat.mod_lt _ (by decide)), ?_, ?_⟩
  · rw [Ax25.stuff, hinner, hstuff, bytesToIntList]
  · rw [bits_rstrip hcore _ _ hpacked, hdestuff]

/-- In a zero-filled buffer the bits are packed. -/
theorem mixedBytes_fill {n : ℕ} {bs : List Bool} (h : byteCount bs + 1 ≤ n) :
    mixedBytes (Block.fill n 0).cells bs = pack bs := by
  have hzeros : ((Block.fill n (0 : Byte)).cells.drop 1).take (byteCount bs) =
      List.replicate (byteCount bs) 0 := by
    change ((List.replicate n 0).drop 1).take (byteCount bs) = _
    rw [List.drop_replicate, List.take_replicate]
    congr 1
    omega
  rw [mixedBytes, hzeros, pack]

/-- Less than a byte of zeros is made good when the bits are packed. -/
theorem pack_zeros {content : List Byte} {front : List Bool} {n k : ℕ}
    (hbits : bits content = front ++ List.replicate n false) (hk : k ≤ n) (hn : n < k + 8) :
    pack (front ++ List.replicate k false) = content := by
  have hlength := congrArg List.length hbits
  rw [length_bits, List.length_append, List.length_replicate] at hlength
  have hpadding : k + padding (front ++ List.replicate k false) = n := by
    unfold padding byteCount
    rw [List.length_append, List.length_replicate]
    omega
  apply bits_injective
  rw [bits_pack, hbits, List.append_assoc, ← List.replicate_add, hpadding]

/-- The result of `ax25Unstuff` is the frame with this content. -/
structure UnstuffedTo {n : ℕ} (content : List Byte) (result : UnstuffResult n) : Prop where
  length_eq : result.unstuffedPacketLen = content.length + 2
  cells_eq : result.unstuffedPacket.cells.take result.unstuffedPacketLen =
    ax25Flag :: (content ++ [ax25Flag])

/-- More zeros than the content has: they are trimmed. -/
theorem unstuff_longer {packet content : List Byte} {packetLen pad : ℕ}
    (hkept : destuff 5 (contentBits packet packetLen) = bits content ++ List.replicate pad false)
    (hpad : pad < 8) (hlen : packetLen ≤ packet.length) (hlength : content.length = 273)
    (hlast : content.getLast? ≠ some 0) :
    ∃ result, ax25Unstuff packet packetLen (Block.fill ax25MinimumIFrameLen 0) = .ok result ∧
      UnstuffedTo content result := by
  have hsize : ax25MinimumIFrameLen = 275 := rfl
  obtain ⟨tailBytes, result, hrun, -, -, -, htail, -, hresult, hcells⟩ :=
    ax25Unstuff_of_destuff hkept hpad hlen (by omega)
      (show 8 * ax25MinimumIFrameLen < 2 ^ 16 by decide)
  obtain rfl := htail.mpr hlast
  refine ⟨result, hrun, by omega, ?_⟩
  have hone : ax25MinimumIFrameLen - 1 - content.length = 1 := by omega
  have hplace : content.length + 2 - 1 = content.length + 1 := rfl
  have hclosed : (ax25Flag :: (content ++ [0])).set (content.length + 1) ax25Flag =
      ax25Flag :: (content ++ [ax25Flag]) := by
    rw [List.set_cons_succ, List.set_append_right _ _ le_rfl, Nat.sub_self, List.set_cons_zero]
  have hwhole : result.unstuffedPacketLen = (ax25Flag :: (content ++ [ax25Flag])).length := by
    rw [hresult]
    simp
  rw [hwhole, hcells, hone, hplace, List.replicate_one, hclosed, List.take_length]

/-- As many zeros or fewer: the frame is whole unless the scan takes bytes of it. -/
theorem unstuff_shorter {packet content : List Byte} {packetLen n k : ℕ} {front : List Bool}
    (hbits : bits content = front ++ List.replicate n false)
    (hkept : destuff 5 (contentBits packet packetLen) = front ++ List.replicate k false)
    (hk : k ≤ n) (hlen : packetLen ≤ packet.length)
    (hlength : content.length = 273) (hlast : content.getLast? = some 0 ↔ 8 ≤ n) :
    ∃ result, ax25Unstuff packet packetLen (Block.fill ax25MinimumIFrameLen 0) = .ok result ∧
      (UnstuffedTo content result ↔ content.getLast? ≠ some 0) := by
  have hsize : ax25MinimumIFrameLen = 275 := rfl
  have hcount := congrArg List.length hbits
  rw [length_bits, List.length_append, List.length_replicate] at hcount
  have hkeptLength : (front ++ List.replicate k false).length = front.length + k := by simp
  have hbytes : byteCount (front ++ List.replicate k false) ≤ 273 := by
    unfold byteCount
    omega
  have hroom : byteCount (front ++ List.replicate k false) + 1 < ax25MinimumIFrameLen := by omega
  obtain ⟨removed, result, hrun, htrim, hresult, htake⟩ :=
    ax25Unstuff_eq (Block.fill ax25MinimumIFrameLen 0) hkept hlen hroom (by omega)
  rw [mixedBytes_fill hroom.le] at htrim htake
  have hscans : ScanEnters (Block.fill ax25MinimumIFrameLen 0).cells
      (front ++ List.replicate k false) := by
    intro _
    change (List.replicate ax25MinimumIFrameLen 0)[_]? = some 0
    rw [List.getElem?_replicate, if_pos hroom]
  have hlastByte : content[content.length - 1]? = content.getLast? :=
    List.getLast?_eq_getElem?.symm
  refine ⟨result, hrun, fun hwhole => ?_, fun hne => ?_⟩
  · -- The length leaves no room for a removed byte.
    have hremoved := htrim.le_length
    rw [length_pack] at hremoved
    have hfull := hwhole.length_eq
    rw [hresult] at hfull
    have hzero : removed = 0 := by omega
    have hwholeBytes : byteCount (front ++ List.replicate k false) = 273 := by omega
    have hn : n < k + 8 := by
      unfold byteCount at hwholeBytes
      omega
    rw [pack_zeros hbits hk hn, hzero] at htrim
    rcases htrim.stops hscans with hbound | hempty | hbyte
    · unfold scanBound at hbound
      split_ifs at hbound
    · omega
    · rwa [Nat.sub_zero, hlastByte] at hbyte
  · have hn : n < 8 := by
      by_contra hge
      exact hne (hlast.mpr (Nat.not_lt.mp hge))
    have hpack := pack_zeros hbits hk (Nat.lt_of_lt_of_le hn (Nat.le_add_left _ _))
    have hwholeBytes : byteCount (front ++ List.replicate k false) = 273 := by
      rw [← length_pack, hpack, hlength]
    rw [hpack] at htrim htake
    have hzero : removed = 0 := by
      by_contra hpos
      have hbyte := htrim.zeros 0 (Nat.pos_of_ne_zero hpos)
      rw [Nat.sub_zero, hlastByte] at hbyte
      exact hne hbyte
    rw [hzero] at hresult htake
    refine ⟨by omega, ?_⟩
    rw [htake, Nat.sub_zero, hwholeBytes, ← hlength, List.take_length]

/-- **Across the languages.** The satellite unstuffs what the ground station stuffs, and has the
frame again exactly when its content does not end in a zero byte. -/
theorem ax25Unstuff_stuff {startStuffing : List Bool → List Bool}
    (hstuff : InsertsStuffedBits startStuffing) {content : List Byte}
    (hlength : content.length = 273) :
    ∃ result, ax25Unstuff (Ax25.stuff startStuffing (ax25Flag :: (content ++ [ax25Flag])))
        (Ax25.stuff startStuffing (ax25Flag :: (content ++ [ax25Flag]))).length
        (Block.fill ax25MinimumIFrameLen 0) = .ok result ∧
      (UnstuffedTo content result ↔ content.getLast? ≠ some 0) := by
  obtain ⟨front, hfront, hbits⟩ := exists_trailingZeros (bits content)
  set n := trailingZeros (bits content) with hn
  obtain ⟨body, k, hk, hpacket, hdestuff⟩ := stuff_kept hstuff hfront hbits
  have hlast : content.getLast? = some 0 ↔ 8 ≤ n := by
    obtain rfl | ⟨data, byte, rfl⟩ := List.eq_nil_or_concat' content
    · simp at hlength
    · rw [List.getLast?_concat, Option.some.injEq, last_eq_zero_iff hfront hbits]
  have hcontent : contentBits (ax25Flag :: (body ++ [ax25Flag]))
      (ax25Flag :: (body ++ [ax25Flag])).length = bits body := by
    have hflags := contentBits_flags body [] ax25Flag ax25Flag
    simpa using hflags
  rw [hpacket]
  rw [← hcontent] at hdestuff
  rcases Nat.le_total k n with hle | hge
  · exact unstuff_shorter hbits hdestuff hle le_rfl hlength hlast
  · have hne : content.getLast? ≠ some 0 := fun hzero => by
      have := hlast.mp hzero
      omega
    have hlonger : front ++ List.replicate k false =
        bits content ++ List.replicate (k - n) false := by
      rw [hbits, List.append_assoc, ← List.replicate_add, Nat.add_sub_cancel' hge]
    rw [hlonger] at hdestuff
    obtain ⟨result, hrun, hwhole⟩ := unstuff_longer hdestuff (by omega) le_rfl hlength hne
    exact ⟨result, hrun, iff_of_true hwhole hne⟩

/-! ## From the ground to the satellite -/

/-- What `ax25Unstuff` leaves in a frame. -/
def UnstuffResult.frame (result : UnstuffResult ax25MinimumIFrameLen) : UnstuffedAx25IFrame :=
  ⟨result.unstuffedPacket, result.unstuffedPacketLen⟩

theorem isSealed_iff {body : List Byte} {result : UnstuffResult ax25MinimumIFrameLen} :
    Sealed body result.frame ↔ UnstuffedTo (body ++ checkSequence body) result := by
  have hlength : (body ++ checkSequence body).length + 2 = body.length + 4 := by simp
  have hframe : ax25Flag :: (body ++ checkSequence body ++ [ax25Flag]) = sealFrame body := by
    rw [sealFrame, List.append_assoc]
  constructor
  · intro h
    obtain ⟨rest, hcells⟩ := h.cells_eq
    have hpacket : result.unstuffedPacketLen = (sealFrame body).length :=
      h.length_eq.trans (by simp [sealFrame])
    refine ⟨h.length_eq.trans hlength.symm, ?_⟩
    change result.unstuffedPacket.cells = sealFrame body ++ rest at hcells
    rw [hpacket, hcells, List.take_left, hframe]
  · intro h
    refine ⟨h.length_eq.trans hlength, result.unstuffedPacket.cells.drop result.unstuffedPacketLen,
      ?_⟩
    rw [← hframe, ← h.cells_eq, List.take_append_drop]
    rfl

/-- The package packs the I frames of the ground station: both addresses, a control byte, the PID
and the data, one behind the other. -/
structure PacksIFrame {FrameType : Type} (pack : PyFrame FrameType → Except PyError (List Byte))
    (station : Ax25) (iFrame : FrameType) (control : Byte) : Prop where
  is_iFrame : control &&& 0x01 = 0
  packed : ∀ data, pack ⟨⟨station.dstCallsign, pyDefaultSsid⟩, ⟨station.srcCallsign, pyDefaultSsid⟩,
    ⟨iFrame, false, 0⟩, 0, some data⟩ = .ok (frameBody cubeSatDest control (0 :: data))

/-- The satellite takes an I frame without a PID. -/
theorem Sealed.uplink_handled {control : Byte} {info : List Byte} {packet : UnstuffedAx25IFrame}
    (h : Sealed (frameBody cubeSatDest control (0 :: info)) packet)
    (hcontrol : control &&& 0x01 = 0) (hinfo : info.length = ax25InfoBytes) :
    packet.info = info ∧ ∀ s command,
      ax25Recv s (some packet) command = .ok ⟨.success, command, s.received⟩ := by
  have hseven : cubeSatDest.length = ax25DestAddrBytes := rfl
  have hlength : (frameBody cubeSatDest control (0 :: info)).length = 271 := by
    rw [length_frameBody, List.length_cons, hinfo]
    rfl
  have hfields := h.fields hseven
  have haccepted : packet.Accepted := h.accepted (.inl rfl) (by
    rw [List.length_cons, hinfo]
    decide)
  have hpid : packet.byte ax25Mod8PidPosition = 0 := by
    have hbody : 15 < (frameBody cubeSatDest control (0 :: info)).length := by omega
    exact h.byte_eq hbody
  constructor
  · have hfield := h.field_eq (show 16 + ax25InfoBytes ≤ _ by rw [hlength]; decide)
    refine hfield.trans ?_
    change info.take ax25InfoBytes = info
    rw [← hinfo, List.take_length]
  · intro s command
    rw [ax25Recv_of_accepted haccepted, dispatch, hfields.control_eq, if_pos hcontrol,
      iFrameRecv_eq, hfields.source_eq, if_neg (by simp), if_neg (by simp [hpid])]

section Uplink

variable {startStuffing : List Bool → List Bool}
  {ctrXcryptBuffer : AesBlock → AesBlock → List Byte → List Byte}

/-- **The uplink.** Data that the ground station encrypts, encodes, frames and stuffs: the
satellite unstuffs the packet, takes the frame in any state of the link and has the data again,
whatever its decoder and its AES context hold, unless the check sequence ends in a zero byte. -/
theorem uplink_arrives (hstuff : InsertsStuffedBits startStuffing)
    (hcipher : SameCipher ctrXcryptBuffer) {FrameType : Type}
    {pack : PyFrame FrameType → Except PyError (List Byte)} {station : Ax25} {iFrame : FrameType}
    {control : Byte} (hpack : PacksIFrame pack station iFrame control) (sabm : FrameType)
    (key iv : AesBlock) (decodedData output : Block Byte rsDecodedSize) {data : List Byte}
    (hdata : data.length ≤ rsDecodedSize) :
    ∃ (encoded : Block Byte rsEncodedSize) (packet : List Byte)
      (result : UnstuffResult ax25MinimumIFrameLen),
      encodePayload ctrXcryptBuffer (initRs .null) key iv data = .ok encoded.cells ∧
      CommsPipeline.encodeFrame startStuffing ctrXcryptBuffer pack sabm iFrame station
        (initRs .null) key iv (some data) = .ok packet ∧
      ax25Unstuff packet packet.length (Block.fill ax25MinimumIFrameLen 0) = .ok result ∧
      (Sealed (frameBody cubeSatDest control (0 :: encoded.cells)) result.frame ↔
        (checkSequence (frameBody cubeSatDest control (0 :: encoded.cells))).getLast? ≠ some 0) ∧
      (Sealed (frameBody cubeSatDest control (0 :: encoded.cells)) result.frame →
        (∀ s command, ax25Recv s (some result.frame) command =
          .ok ⟨.success, command, s.received⟩) ∧
        ∀ s, ∃ s', receivePayload key iv decodedData output s
            ⟨result.frame.info, length_info result.frame⟩ =
          .ok (some (data ++ (ctrKeyStream key iv rsDecodedSize).drop data.length), s')) := by
  obtain ⟨encoded, hencode, hreceive⟩ :=
    receivePayload_corrects key iv decodedData output hcipher hdata
  set body := frameBody cubeSatDest control (0 :: encoded.cells) with hbody
  have hencoded : encoded.cells.length = ax25InfoBytes := encoded.length_cells
  have hcontent : (body ++ checkSequence body).length = 273 := by
    rw [List.length_append, length_checkSequence, hbody, length_frameBody, List.length_cons,
      hencoded]
    rfl
  have hsent : CommsPipeline.encodeFrame startStuffing ctrXcryptBuffer pack sabm iFrame station
      (initRs .null) key iv (some data) = .ok (Ax25.stuff startStuffing
        (ax25Flag :: (body ++ checkSequence body ++ [ax25Flag]))) := by
    have hframe := encodesAs_sealFrame body pack station (some encoded.cells) iFrame 0 false
      (hpack.packed encoded.cells)
    simp only [CommsPipeline.encodeFrame, hencode, ok_bind, hframe, sealFrame, List.append_assoc,
      pure_eq_ok]
  obtain ⟨result, hrun, hwhole⟩ := ax25Unstuff_stuff hstuff hcontent
  refine ⟨encoded, _, result, hencode, hsent, hrun, ?_, fun hsealed => ?_⟩
  · have hlast : (body ++ checkSequence body).getLast? = (checkSequence body).getLast? := by
      rw [List.getLast?_append, checkSequence, bytes16]
      rfl
    rw [← hlast, ← hwhole]
    exact isSealed_iff
  · obtain ⟨hinfo, haccepted⟩ := hsealed.uplink_handled hpack.is_iFrame hencoded
    refine ⟨haccepted, fun s => hreceive _ s ?_⟩
    change wrongBytes encoded.cells result.frame.info ≤ 16
    rw [hinfo, wrongBytes_self]
    exact Nat.zero_le _

end Uplink

/-- The addresses of the ground station. -/
def uplinkStation : Ax25 := ⟨"ATLAS", "AKITO"⟩

/-- A package that packs the frames of the ground station to the satellite. -/
def packUplink (frame : PyFrame Bool) : Except PyError (List Byte) :=
  .ok (frameBody cubeSatDest 0 (0 :: frame.data.getD []))

theorem uplink_arrives_three :
    ∃ (encoded : Block Byte rsEncodedSize) (packet : List Byte)
      (result : UnstuffResult ax25MinimumIFrameLen),
      encodePayload vendoredCipher (initRs .null) defaultAesKey defaultAesIv [1, 2, 3] =
        .ok encoded.cells ∧
      CommsPipeline.encodeFrame (stuff 5) vendoredCipher packUplink false true uplinkStation
        (initRs .null) defaultAesKey defaultAesIv (some [1, 2, 3]) = .ok packet ∧
      ax25Unstuff packet packet.length (Block.fill ax25MinimumIFrameLen 0) = .ok result ∧
      (Sealed (frameBody cubeSatDest 0 (0 :: encoded.cells)) result.frame ↔
        (checkSequence (frameBody cubeSatDest 0 (0 :: encoded.cells))).getLast? ≠ some 0) ∧
      (Sealed (frameBody cubeSatDest 0 (0 :: encoded.cells)) result.frame →
        (∀ s command, ax25Recv s (some result.frame) command =
          .ok ⟨.success, command, s.received⟩) ∧
        ∀ s, ∃ s', receivePayload defaultAesKey defaultAesIv (Block.fill _ 0) (Block.fill _ 0) s
            ⟨result.frame.info, length_info result.frame⟩ =
          .ok (some ([1, 2, 3] ++
            (ctrKeyStream defaultAesKey defaultAesIv rsDecodedSize).drop 3), s')) := by
  have hpack : PacksIFrame packUplink uplinkStation true 0 := ⟨by decide, fun _ => rfl⟩
  have hdata : ([1, 2, 3] : List Byte).length ≤ rsDecodedSize := by decide
  exact uplink_arrives (fun _ => rfl) (fun _ _ _ => rfl) hpack false defaultAesKey defaultAesIv
    (Block.fill _ 0) (Block.fill _ 0) hdata

end ObcGsInterface
