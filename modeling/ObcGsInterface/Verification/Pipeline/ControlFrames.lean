import ObcGsInterface.Verification.Link.Calls
import ObcGsInterface.Verification.Pipeline.Insertion

/-! # Control frames at the ground station

`ax25SendUFrame` stuffs its frames, and `CommsPipeline.decode_frame` unstuffs only what is
longer than an I frame's payload. A control frame is decoded if no bit was inserted, or if
the bits that were moved pass by accident. -/

namespace ObcGsInterface

open CArray BitStream BitStuffing Transducer BigEndian

/-! ## Stations -/

/-- The characters of a call sign: upper-case letters and digits. -/
def IsCallSignChar (c : Byte) : Prop :=
  (0x41 ≤ c.toNat ∧ c.toNat ≤ 0x5A) ∨ (0x30 ≤ c.toNat ∧ c.toNat ≤ 0x39)

instance : DecidablePred IsCallSignChar := fun _ => inferInstanceAs (Decidable (_ ∨ _))

/-- A station that a frame may be sent to. -/
structure Station where
  call : List Byte
  ssid : Byte
  length_pos : 1 ≤ call.length
  length_le : call.length ≤ callSignBytes
  isCallSignChar : ∀ c ∈ call, IsCallSignChar c
  ssid_le : ssid.toNat ≤ 15

/-- What an address field holds: six characters, and an SSID. -/
structure AddressFields where
  call : List Byte
  ssid : Byte
  deriving DecidableEq, Repr

/-- The fields of a station, with its call sign filled up with spaces. -/
def Station.fields (station : Station) : AddressFields :=
  ⟨station.call ++ List.replicate (callSignBytes - station.call.length) 0x20, station.ssid⟩

/-- The destination address of a station. -/
def Station.address (station : Station) : List Byte :=
  encodedCallSign station.call ++ [station.ssid <<< 1 ||| ax25AddressReserveBitMask]

/-- The ground station. -/
def groundStation : Station :=
  ⟨groundStationCallsign, defaultSsid, by decide, by decide, by decide, by decide⟩

/-- The fields of an address. -/
def addressFields (address : List Byte) : AddressFields :=
  ⟨(address.take callSignBytes).map fun c : Byte => c >>> 1,
    ((address.drop callSignBytes).headD 0 >>> 1) &&& 0x0F⟩

@[simp] theorem Station.length_address (station : Station) : station.address.length = 7 := by
  rw [Station.address, List.length_append, length_encodedCallSign station.length_le]
  rfl

theorem addressFields_groundSource : addressFields groundSource = groundStation.fields := by decide

theorem callSignChar_shifts (c : Byte) (h : IsCallSignChar c) : (c <<< 1) >>> 1 = c := by
  revert c
  decide

theorem ssid_shifts (ssid : Byte) (h : ssid.toNat ≤ 15) :
    ((ssid <<< 1 ||| ax25AddressReserveBitMask) >>> 1) &&& 0x0F = ssid := by
  revert ssid
  decide

/-- An address has the fields of its station. -/
theorem Station.addressFields_address (station : Station) :
    addressFields station.address = station.fields := by
  have hlength := length_encodedCallSign station.length_le
  have hcall : (encodedCallSign station.call).map (fun c : Byte => c >>> 1) =
      station.call ++ List.replicate (callSignBytes - station.call.length) 0x20 := by
    rw [encodedCallSign, List.map_append, List.map_map, List.map_replicate]
    congr 1
    exact (List.map_congr_left fun c hc =>
      callSignChar_shifts c (station.isCallSignChar c hc)).trans (List.map_id _)
  rw [addressFields, Station.address, List.take_left' hlength, List.drop_left' hlength, hcall,
    List.headD_cons, ssid_shifts _ station.ssid_le]
  rfl

/-- Setting the link address to a station, from a buffer that may be longer. -/
theorem link_of_set {s t : LinkState} {station : Station} {rest : List Byte}
    (h : setCurrentLinkDestCallSign s (some (station.call ++ rest)) station.call.length
      station.ssid = .ok t) :
    t.currentLinkDestAddr.length = ax25DestAddrBytes ∧
      t.currentLinkDestAddr.data.cells = station.address := by
  have hssid := station.ssid_le
  rw [setCurrentLinkDestCallSign_eq h, CallSign.ofArguments,
    dif_pos ⟨station.length_le, Nat.le_succ_of_le hssid⟩]
  refine ⟨rfl, ?_⟩
  simp only [CallSign.address, Station.address, List.take_left]

/-! ## Bytes that are sent as they are -/

/-- After `run` ones the stuffer writes the bytes as they are, and has then seen `run'`. -/
structure Transparent (run : ℕ) (bytes : List Byte) (run' : ℕ) : Prop where
  output_eq : output (stuffStep 5) run (bits bytes) = bits bytes
  final_eq : final (stuffStep 5) run (bits bytes) = run'

namespace Transparent

instance (run : ℕ) (bytes : List Byte) (run' : ℕ) : Decidable (Transparent run bytes run') :=
  decidable_of_iff (output (stuffStep 5) run (bits bytes) = bits bytes ∧
    final (stuffStep 5) run (bits bytes) = run')
    ⟨fun h => ⟨h.1, h.2⟩, fun h => ⟨h.output_eq, h.final_eq⟩⟩

variable {run run' run'' : ℕ} {xs ys : List Byte}

theorem append (hx : Transparent run xs run') (hy : Transparent run' ys run'') :
    Transparent run (xs ++ ys) run'' where
  output_eq := by rw [bits_append, output_append, hx.output_eq, hx.final_eq, hy.output_eq]
  final_eq := by rw [bits_append, final_append, hx.final_eq, hy.final_eq]

theorem of_forall (h : ∀ b ∈ xs, Transparent 0 [b] 0) : Transparent 0 xs 0 := by
  induction xs with
  | nil => exact ⟨rfl, rfl⟩
  | cons b xs ih =>
      exact (h b List.mem_cons_self).append (ih fun c hc => h c (List.mem_cons_of_mem _ hc))

/-- What is read first of a stuffed byte string, up to bytes that are not sent as they are. -/
theorem stuff_moved (h : Transparent 0 xs run) {moved : List Byte} {extra : List Bool}
    (hmoved : output (stuffStep 5) run (bits ys) = bits moved ++ extra) (rest : List Byte) :
    ∃ rest', stuff 5 (bits (xs ++ (ys ++ rest))) = bits (xs ++ moved) ++ rest' := by
  rw [stuff, bits_append, output_append, h.output_eq, h.final_eq, bits_append, output_append,
    hmoved, bits_append, List.append_assoc]
  exact ⟨_, (List.append_assoc ..).symm⟩

end Transparent

theorem transparent_callSignChar (c : Byte) (h : IsCallSignChar c) :
    Transparent 0 [c <<< 1] 0 := by
  revert c
  decide

theorem transparent_ssid (ssid : Byte) (h : ssid.toNat ≤ 13) :
    Transparent 0 [ssid <<< 1 ||| ax25AddressReserveBitMask] 0 := by
  revert ssid
  decide

theorem transparent_encodedCallSign (station : Station) :
    Transparent 0 (encodedCallSign station.call) 0 := by
  apply Transparent.of_forall
  intro b hb
  rw [encodedCallSign, List.mem_append, List.mem_map, List.mem_replicate] at hb
  rcases hb with ⟨c, hc, rfl⟩ | ⟨-, rfl⟩
  · exact transparent_callSignChar c (station.isCallSignChar c hc)
  · decide

theorem transparent_groundSource : Transparent 0 groundSource 1 := by decide

/-- The address of a station whose SSID is at most 13. -/
theorem transparent_address {station : Station} (h : station.ssid.toNat ≤ 13) :
    Transparent 0 station.address 0 :=
  (transparent_encodedCallSign station).append (transparent_ssid _ h)

/-- The number of ones at the end of the control byte. -/
def controlRun (cmd : UFrameCmd) : ℕ := if cmd = .conn then 4 else 2

theorem pollFinalBit_eq (pollFinalBit : Byte) (h : pollFinalBit.toNat ≤ 1) :
    pollFinalBit = 0 ∨ pollFinalBit = 1 := by
  revert pollFinalBit
  decide

theorem transparent_control {cmd : UFrameCmd} {pollFinalBit : Byte} (hpoll : pollFinalBit.toNat ≤ 1)
    (h : ¬ (cmd = .conn ∧ pollFinalBit = 1)) :
    Transparent 1 [uControlByte cmd.value pollFinalBit] (controlRun cmd) := by
  rcases pollFinalBit_eq _ hpoll with rfl | rfl
  · cases cmd with
    | conn => decide
    | disc => decide
    | ack => decide
  · cases cmd with
    | conn => exact absurd ⟨rfl, rfl⟩ h
    | disc => decide
    | ack => decide

/-- The body of a frame that is sent as it is. -/
theorem transparent_body {station : Station} (hssid : station.ssid.toNat ≤ 13) {cmd : UFrameCmd}
    {pollFinalBit : Byte} (hpoll : pollFinalBit.toNat ≤ 1)
    (h : ¬ (cmd = .conn ∧ pollFinalBit = 1)) :
    Transparent 0 (uFrameBody station.address cmd.value pollFinalBit) (controlRun cmd) :=
  (transparent_address hssid).append (transparent_groundSource.append (transparent_control hpoll h))

/-! ## Bytes that are not -/

/-- With an SSID of 14 or 15 the first byte of the source is moved by one bit. -/
theorem stuff_ssid (ssid : Byte) (hlow : 13 < ssid.toNat) (hhigh : ssid.toNat ≤ 15) :
    ∃ b, output (stuffStep 5) 0 (bits [ssid <<< 1 ||| ax25AddressReserveBitMask, 0x82]) =
      bits [b, 0x41] ++ [false] := by
  obtain rfl | rfl : ssid = 14 ∨ ssid = 15 := by
    revert ssid
    decide
  · exact ⟨0x7C, by decide⟩
  · exact ⟨0x7D, by decide⟩

/-- The last one bit of a control byte that asks for a connection is moved. -/
theorem stuff_conn : output (stuffStep 5) 1 (bits [uControlByte UFrameCmd.conn.value 1]) =
    bits [0x3E] ++ [true] := by
  decide

/-! ## What the ground station reads -/

/-- What is read off the frames of the package `ax25`. -/
structure FrameView (Frame : Type) where
  dst : Frame → AddressFields
  src : Frame → AddressFields
  control : Frame → Byte

/-- `Frame.unpack` parses the bytes it is given: the two addresses and, where the second is
marked as the last one, the control byte. It accepts the frames of the C side, also when
bytes follow the control byte. -/
structure ParsesFrames {Frame : Type} (unpack : List Byte → Except PyError Frame)
    (view : FrameView Frame) : Prop where
  dst : ∀ data frame, unpack data = .ok frame → view.dst frame = addressFields (data.take 7)
  src : ∀ data frame, unpack data = .ok frame →
    view.src frame = addressFields ((data.drop 7).take 7)
  control : ∀ data frame, unpack data = .ok frame → (data.getD 13 0).getLsbD 0 = true →
    data[14]? = some (view.control frame)
  accepts : ∀ (station : Station) (cmd : UFrameCmd) (pollFinalBit : Byte) (rest : List Byte),
    pollFinalBit.toNat ≤ 1 →
    ∃ frame, unpack (frameBody station.address (uControlByte cmd.value pollFinalBit) rest) =
      .ok frame

section Reading

variable {Frame : Type} {unpack : List Byte → Except PyError Frame} {view : FrameView Frame}

/-- A frame shows what was sent. -/
structure Shows (view : FrameView Frame) (station : Station) (cmd : UFrameCmd)
    (pollFinalBit : Byte) (frame : Frame) : Prop where
  dst : view.dst frame = station.fields
  src : view.src frame = groundStation.fields
  control : view.control frame = uControlByte cmd.value pollFinalBit

/-- What a frame shows of the bytes it was made of. -/
theorem ParsesFrames.view_eq (h : ParsesFrames unpack view) {dest tail : List Byte}
    (hdest : dest.length = 7) {control : Byte} {frame : Frame}
    (hframe : unpack (dest ++ (groundSource ++ control :: tail)) = .ok frame) :
    view.dst frame = addressFields dest ∧ view.src frame = groundStation.fields ∧
      view.control frame = control := by
  have hsource : groundSource.length = 7 := rfl
  have hdst := h.dst _ _ hframe
  have hsrc := h.src _ _ hframe
  have hcontrol := h.control _ _ hframe
  rw [List.take_left' hdest] at hdst
  rw [List.drop_left' hdest, List.take_left' hsource, addressFields_groundSource] at hsrc
  rw [List.getD_append_right _ _ _ _ (by omega), List.getElem?_append_right (by omega),
    hdest] at hcontrol
  have hshown : control = view.control frame := by simpa [groundSource] using hcontrol
  exact ⟨hdst, hsrc, hshown.symm⟩

/-- The bytes of a body, with anything behind them, show what was sent. -/
theorem ParsesFrames.shows (h : ParsesFrames unpack view) (station : Station) (cmd : UFrameCmd)
    {pollFinalBit : Byte} (hpoll : pollFinalBit.toNat ≤ 1) (rest : List Byte) :
    ∃ frame, unpack (uFrameBody station.address cmd.value pollFinalBit ++ rest) = .ok frame ∧
      Shows view station cmd pollFinalBit frame := by
  have hbody : uFrameBody station.address cmd.value pollFinalBit ++ rest =
      frameBody station.address (uControlByte cmd.value pollFinalBit) rest := by
    simp [uFrameBody, frameBody]
  rcases h.accepts station cmd pollFinalBit rest hpoll with ⟨frame, hframe⟩
  rcases h.view_eq station.length_address hframe with ⟨hdst, hsrc, hcontrol⟩
  rw [station.addressFields_address] at hdst
  exact ⟨frame, by rw [hbody, hframe], hdst, hsrc, hcontrol⟩

/-- The bytes that are unpacked are all but the last two. -/
theorem exists_unpacked {content : List Bool} (h : content.length = 136) :
    ∃ body x₁ x₂, pack (stuff 5 content) = body ++ bytes16 (join16 x₁ x₂) ∧
      15 ≤ body.length := by
  have hle : content.length ≤ (stuff 5 content).length := length_le_length_output content
  have hlength : 17 ≤ (pack (stuff 5 content)).length := by
    rw [length_pack, byteCount]
    omega
  generalize pack (stuff 5 content) = packed at hlength
  obtain ⟨x₁, x₂, hlast⟩ := List.length_eq_two.mp
    (show (packed.drop (packed.length - 2)).length = 2 by rw [List.length_drop]; omega)
  refine ⟨packed.take (packed.length - 2), x₁, x₂, ?_, by rw [List.length_take]; omega⟩
  rw [bytes16_join16, ← hlast, List.take_append_drop]

/-- What is returned was unpacked. -/
theorem unpack_of_decode {front : List Byte} {content rest : List Bool} {frame : Frame}
    (hstuff : stuff 5 content = bits front ++ rest) (hcontent : content.length = 136)
    (hfront : front.length ≤ 15)
    (h : Ax25.decodeFrame unpack (ax25Flag :: (pack (stuff 5 content) ++ [ax25Flag])) = .ok frame) :
    ∃ tail, unpack (front ++ tail) = .ok frame := by
  rcases exists_unpacked hcontent with ⟨body, x₁, x₂, hpacked, hbody⟩
  have hprefix : front <+: body := by
    refine List.prefix_of_prefix_length_le (List.prefix_append front (pack rest)) ?_
      (Nat.le_trans hfront hbody)
    rw [← pack_bits_append, ← hstuff, hpacked]
    exact List.prefix_append _ _
  rw [hpacked, List.append_assoc, ax25DecodeFrame_bytes16] at h
  split at h
  · rcases hprefix with ⟨tail, rfl⟩
    exact ⟨tail, h⟩
  · contradiction

/-! ## Which frames are decoded -/

/-- The content of a U frame between its flags. -/
def uFrameContent (station : Station) (cmd : UFrameCmd) (pollFinalBit : Byte) : List Byte :=
  uFrameBody station.address cmd.value pollFinalBit ++
    checkSequence (uFrameBody station.address cmd.value pollFinalBit)

/-- `AX25.decode_frame` makes a frame of the stuffed content that shows what was sent. -/
def Decodes (unpack : List Byte → Except PyError Frame) (view : FrameView Frame)
    (station : Station) (cmd : UFrameCmd) (pollFinalBit : Byte) : Prop :=
  ∃ frame, Ax25.decodeFrame unpack (ax25Flag ::
      (pack (stuff 5 (bits (uFrameContent station cmd pollFinalBit))) ++ [ax25Flag])) = .ok frame ∧
    Shows view station cmd pollFinalBit frame

variable {station : Station} {cmd : UFrameCmd} {pollFinalBit : Byte}

theorem length_uFrameContent : (bits (uFrameContent station cmd pollFinalBit)).length = 136 := by
  rw [length_bits, uFrameContent, List.length_append, uFrameBody, length_frameBody,
    station.length_address]
  rfl

/-- A frame without a run of five ones is decoded. -/
theorem decodes_of_stuff_eq (h : ParsesFrames unpack view) (hpoll : pollFinalBit.toNat ≤ 1)
    (hstuff : stuff 5 (bits (uFrameContent station cmd pollFinalBit)) =
      bits (uFrameContent station cmd pollFinalBit)) :
    Decodes unpack view station cmd pollFinalBit := by
  rcases h.shows station cmd hpoll [] with ⟨frame, hframe, hshows⟩
  rw [List.append_nil] at hframe
  refine ⟨frame, ?_, hshows⟩
  have hpack := pack_bits_append (uFrameContent station cmd pollFinalBit) []
  rw [List.append_nil, show pack [] = [] from rfl, List.append_nil] at hpack
  rw [hstuff, hpack, uFrameContent, List.append_assoc]
  exact (ax25DecodeFrame_sealFrame unpack _).trans hframe

/-- The source of a frame to a station with an SSID of 14 or 15 is read one bit off. -/
theorem not_decodes_of_ssid (h : ParsesFrames unpack view) (hssid : 13 < station.ssid.toNat) :
    ¬ Decodes unpack view station cmd pollFinalBit := by
  rintro ⟨frame, hdecode, hshows⟩
  rcases stuff_ssid station.ssid hssid station.ssid_le with ⟨b, hmoved⟩
  obtain ⟨rest, hcontent⟩ : ∃ rest, uFrameContent station cmd pollFinalBit =
      encodedCallSign station.call ++
        ([station.ssid <<< 1 ||| ax25AddressReserveBitMask, 0x82] ++ rest) :=
    ⟨groundSource.drop 1 ++ (uControlByte cmd.value pollFinalBit ::
      checkSequence (uFrameBody station.address cmd.value pollFinalBit)), by
        simp [uFrameContent, uFrameBody, frameBody, Station.address, groundSource]⟩
  have hcall := transparent_encodedCallSign station
  have hlength := length_encodedCallSign station.length_le
  rcases hcall.stuff_moved hmoved rest with ⟨rest', hstuff⟩
  rw [← hcontent] at hstuff
  obtain ⟨tail, htail⟩ := unpack_of_decode hstuff length_uFrameContent
    (by rw [List.length_append, hlength]; exact Nat.le_of_ble_eq_true rfl) hdecode
  have hbytes : encodedCallSign station.call ++ [b, 0x41] ++ tail =
      (encodedCallSign station.call ++ [b]) ++ 0x41 :: tail := by simp
  have hsrc := h.src _ _ htail
  rw [hshows.src, hbytes, List.drop_left' (by rw [List.length_append, hlength]; rfl)] at hsrc
  have hfirst := congrArg (fun fields => fields.call.head?) hsrc
  change some (0x41 : Byte) = some 0x20 at hfirst
  exact absurd hfirst (by decide)

/-- The control byte of a frame that asks for a connection and for an answer loses a bit. -/
theorem not_decodes_of_conn (h : ParsesFrames unpack view) (hssid : station.ssid.toNat ≤ 13) :
    ¬ Decodes unpack view station .conn 1 := by
  rintro ⟨frame, hdecode, hshows⟩
  have haddresses := (transparent_address hssid).append transparent_groundSource
  have hcontent : uFrameContent station .conn 1 = (station.address ++ groundSource) ++
      ([uControlByte UFrameCmd.conn.value 1] ++
        checkSequence (uFrameBody station.address UFrameCmd.conn.value 1)) := by
    simp [uFrameContent, uFrameBody, frameBody]
  obtain ⟨rest, hstuff⟩ := haddresses.stuff_moved stuff_conn
    (checkSequence (uFrameBody station.address UFrameCmd.conn.value 1))
  rw [← hcontent] at hstuff
  obtain ⟨tail, htail⟩ := unpack_of_decode hstuff length_uFrameContent
    (by rw [List.length_append, List.length_append, station.length_address]; decide) hdecode
  rw [List.append_assoc, List.append_assoc] at htail
  have hcontrol := (h.view_eq station.length_address htail).2.2
  rw [hshows.control] at hcontrol
  exact absurd hcontrol (by decide)

theorem crcOf_append_singleton (body : List Byte) (byte : Byte) :
    crcOf (body ++ [byte]) = crc16Ccitt (crcOf body) byte := by
  rw [crcOf, List.foldl_append]
  rfl

/-- A body that is sent as it is, and its check sequence. -/
theorem stuff_body {run : ℕ} {body : List Byte} (h : Transparent 0 body run) :
    stuff 5 (bits (body ++ checkSequence body)) =
      bits body ++ output (stuffStep 5) run (registerBits (crcOf body)) := by
  rw [stuff, bits_append, output_append, h.output_eq, h.final_eq, checkSequence, bits_reverse]

/-- A check sequence that bits were inserted into takes three bytes. -/
theorem exists_threeBytes {run : ℕ} (hrun : run ≤ 4) {crc : BitVec 16}
    (hmoved : output (stuffStep 5) run (registerBits crc) ≠ registerBits crc) :
    ∃ x₀ x₁ x₂, pack (output (stuffStep 5) run (registerBits crc)) = [x₀, x₁, x₂] := by
  have hlong : 16 < (output (stuffStep 5) run (registerBits crc)).length := by
    by_contra hle
    exact hmoved (output_eq_of_length_le (Nat.not_lt.mp hle))
  have hshort := @length_output_stuffStep 5 run (registerBits crc)
  rw [length_registerBits] at hshort
  apply List.length_eq_three.mp
  rw [length_pack, byteCount]
  omega

/-- A frame whose check sequence is moved is decoded if what is read instead passes. -/
theorem decodes_iff_of_moved (h : ParsesFrames unpack view) (hssid : station.ssid.toNat ≤ 13)
    (hpoll : pollFinalBit.toNat ≤ 1) (hcontrol : ¬ (cmd = .conn ∧ pollFinalBit = 1))
    (hmoved : stuff 5 (bits (uFrameContent station cmd pollFinalBit)) ≠
      bits (uFrameContent station cmd pollFinalBit)) :
    Decodes unpack view station cmd pollFinalBit ↔
      controlRun cmd = 4 ∧
        (crcOf (uFrameBody station.address cmd.value pollFinalBit) = 0x7C8B ∨
          crcOf (uFrameBody station.address cmd.value pollFinalBit) = 0x8001) := by
  have hbody := transparent_body hssid hpoll hcontrol
  have hrun : controlRun cmd = 2 ∨ controlRun cmd = 4 := by
    cases cmd <;> decide
  have hread := h.shows station cmd hpoll
  unfold Decodes
  unfold uFrameContent at *
  generalize uFrameBody station.address cmd.value pollFinalBit = body at *
  generalize controlRun cmd = run at *
  rw [stuff_body hbody, bits_append, checkSequence, bits_reverse, ne_eq,
    List.append_right_inj] at hmoved
  rcases exists_threeBytes (by omega) hmoved with ⟨x₀, x₁, x₂, hpack⟩
  have hbits : bits [x₀, x₁, x₂] = output (stuffStep 5) run (registerBits (crcOf body)) ++
      List.replicate (padding (output (stuffStep 5) run (registerBits (crcOf body)))) false := by
    rw [← hpack, bits_pack]
  have hpacket : body ++ [x₀, x₁, x₂] ++ [ax25Flag] =
      (body ++ [x₀]) ++ (bytes16 (join16 x₁ x₂) ++ [ax25Flag]) := by
    rw [bytes16_join16]
    simp
  rw [stuff_body hbody, pack_bits_append, hpack, hpacket, ax25DecodeFrame_bytes16,
    crcOf_append_singleton, ← passes_iff hrun hbits (padding_lt _)]
  constructor
  · intro hdecodes
    rcases hdecodes with ⟨frame, hframe, -⟩
    by_contra hfail
    rw [if_neg hfail] at hframe
    contradiction
  · intro hpass
    rw [if_pos hpass]
    exact hread [x₀]

theorem controlRun_eq_four {cmd : UFrameCmd} : controlRun cmd = 4 ↔ cmd = .conn := by
  cases cmd <;> decide

/-- Which frames `AX25.decode_frame` makes sense of. -/
theorem decodes_iff (h : ParsesFrames unpack view) (hpoll : pollFinalBit.toNat ≤ 1) :
    Decodes unpack view station cmd pollFinalBit ↔
      ¬ List.replicate 5 true <:+: bits (uFrameContent station cmd pollFinalBit) ∨
        cmd = .conn ∧ pollFinalBit = 0 ∧ station.ssid.toNat ≤ 13 ∧
          (crcOf (uFrameBody station.address cmd.value pollFinalBit) = 0x7C8B ∨
            crcOf (uFrameBody station.address cmd.value pollFinalBit) = 0x8001) := by
  rw [← stuff_eq_self_iff (by decide)]
  by_cases hstuff : stuff 5 (bits (uFrameContent station cmd pollFinalBit)) =
      bits (uFrameContent station cmd pollFinalBit)
  · exact iff_of_true (decodes_of_stuff_eq h hpoll hstuff) (.inl hstuff)
  rw [or_iff_right hstuff]
  by_cases hssid : station.ssid.toNat ≤ 13
  · by_cases hcontrol : cmd = .conn ∧ pollFinalBit = 1
    · rcases hcontrol with ⟨rfl, rfl⟩
      exact iff_of_false (not_decodes_of_conn h hssid) fun hlisted => absurd hlisted.2.1 (by decide)
    · rw [decodes_iff_of_moved h hssid hpoll hcontrol hstuff, controlRun_eq_four]
      constructor
      · rintro ⟨rfl, hcrc⟩
        have hzero := (pollFinalBit_eq _ hpoll).resolve_right fun hone => hcontrol ⟨rfl, hone⟩
        exact ⟨rfl, hzero, hssid, hcrc⟩
      · rintro ⟨hconn, -, -, hcrc⟩
        exact ⟨hconn, hcrc⟩
  · exact iff_of_false (not_decodes_of_ssid h (Nat.lt_of_not_le hssid))
      fun hlisted => hssid hlisted.2.2.1

end Reading

/-! ## From one station to the other -/

section Pipeline

variable {Frame : Type} {unpack : List Byte → Except PyError Frame} {view : FrameView Frame}
  (startUnstuffing : List Bool → List Bool) (decoder : RsDecoder) (rs : RsHandle)

/-- `CommsPipeline.decode_frame`, applied to what `ax25SendUFrame` has sent, returns a frame
that shows the station, the ground station and the control byte. -/
def GroundDecodes (unpack : List Byte → Except PyError Frame) (view : FrameView Frame)
    (s : LinkState) (out : PackedAx25UFrame) (station : Station) (cmd : UFrameCmd)
    (pollFinalBit : Byte) : Prop :=
  ∃ sent frame, ax25SendUFrame s (some out) cmd.value pollFinalBit = .ok ⟨.success, some sent, s⟩ ∧
    CommsPipeline.decodeFrame startUnstuffing unpack decoder rs
      (sent.data.cells.take sent.length) = .ok (some frame) ∧
    Shows view station cmd pollFinalBit frame

/-- The bytes of a packed frame. -/
theorem Packed.take_cells {body : List Byte} {frame : PackedAx25UFrame} (h : Packed body frame) :
    frame.data.cells.take frame.length =
      ax25Flag :: (pack (stuff 5 (bits (body ++ checkSequence body))) ++ [ax25Flag]) := by
  rw [h.cells_eq, h.length_eq, ← length_pack, List.take_succ_cons, List.take_append,
    List.take_of_length_le (Nat.le_succ _), Nat.add_sub_cancel_left]
  rfl

/-- The ground station does not unstuff a short packet. -/
theorem decodeFrame_short {data : List Byte} (hne : data ≠ [])
    (h : data.length ≤ rsEncodedDataSize) :
    CommsPipeline.decodeFrame startUnstuffing unpack decoder rs data = do
      return some (← Ax25.decodeFrame unpack data) := by
  have hpos : ¬ data.length = 0 := fun hzero => hne (List.length_eq_zero_iff.mp hzero)
  rw [CommsPipeline.decodeFrame, if_neg hpos, if_neg (Nat.not_lt.mpr h)]

theorem groundDecodes_iff {s : LinkState} (out : PackedAx25UFrame) {station : Station}
    (hlink : s.currentLinkDestAddr.length = ax25DestAddrBytes)
    (haddress : s.currentLinkDestAddr.data.cells = station.address) (cmd : UFrameCmd)
    {pollFinalBit : Byte} (hpoll : pollFinalBit.toNat ≤ 1) :
    GroundDecodes startUnstuffing decoder rs unpack view s out station cmd pollFinalBit ↔
      Decodes unpack view station cmd pollFinalBit := by
  have hcmd : cmd.value ≤ maxUFrameCmdValue := by cases cmd <;> decide
  rcases ax25SendUFrame_eq out hlink hcmd hpoll with ⟨sent, hsent, hpacked⟩
  rw [haddress] at hpacked
  have hcells := hpacked.take_cells
  have hlength : (sent.data.cells.take sent.length).length ≤ rsEncodedDataSize := by
    have hroom := sent.data.length_cells
    rw [List.length_take, hroom]
    exact Nat.le_trans (Nat.min_le_right _ _) (by decide)
  have hdecode : CommsPipeline.decodeFrame startUnstuffing unpack decoder rs
      (sent.data.cells.take sent.length) = do
        return some (← Ax25.decodeFrame unpack (sent.data.cells.take sent.length)) :=
    decodeFrame_short _ _ _ (by rw [hcells]; simp) hlength
  rw [hcells] at hdecode
  constructor
  · rintro ⟨sent', frame, hsent', hframe, hshows⟩
    rw [hsent, Except.ok.injEq] at hsent'
    cases hsent'
    rw [hcells, hdecode, bind_eq_ok] at hframe
    rcases hframe with ⟨frame', hframe', hsome⟩
    cases hsome
    exact ⟨frame, hframe', hshows⟩
  · rintro ⟨frame, hframe, hshows⟩
    refine ⟨sent, frame, hsent, ?_, hshows⟩
    rw [uFrameContent] at hframe
    rw [hcells, hdecode, hframe]
    rfl

/-- **Control frames at the ground station.** Exactly those are decoded that have no run of
five ones between their flags, and the SABM frames whose check sequence is moved into another
one that passes. -/
theorem groundDecodes_uFrame_iff (h : ParsesFrames unpack view) {s t : LinkState}
    {station : Station} {rest : List Byte}
    (hset : setCurrentLinkDestCallSign s (some (station.call ++ rest)) station.call.length
      station.ssid = .ok t) (out : PackedAx25UFrame) (cmd : UFrameCmd) {pollFinalBit : Byte}
    (hpoll : pollFinalBit.toNat ≤ 1) :
    GroundDecodes startUnstuffing decoder rs unpack view t out station cmd pollFinalBit ↔
      ¬ List.replicate 5 true <:+: bits (uFrameContent station cmd pollFinalBit) ∨
        cmd = .conn ∧ pollFinalBit = 0 ∧ station.ssid.toNat ≤ 13 ∧
          (crcOf (uFrameBody station.address cmd.value pollFinalBit) = 0x7C8B ∨
            crcOf (uFrameBody station.address cmd.value pollFinalBit) = 0x8001) := by
  rcases link_of_set hset with ⟨hlink, haddress⟩
  rw [groundDecodes_iff startUnstuffing decoder rs out hlink haddress cmd hpoll,
    decodes_iff h hpoll]

/-- The call sign DD4 with the SSID 2. -/
example : crcOf (uFrameBody (encodedCallSign [0x44, 0x44, 0x34] ++
    [(2 : Byte) <<< 1 ||| ax25AddressReserveBitMask]) UFrameCmd.conn.value 0) = 0x8001 := by
  decide +kernel

end Pipeline

/-! ## The satellite -/

/-- The fields of a frame, read where the package reads them. -/
def readFields (data : List Byte) : Except PyError (AddressFields × AddressFields × Byte) :=
  match data[14]? with
  | some control => .ok (addressFields (data.take 7), addressFields ((data.drop 7).take 7), control)
  | none => .error .indexError

def fieldsView : FrameView (AddressFields × AddressFields × Byte) where
  dst := fun frame => frame.1
  src := fun frame => frame.2.1
  control := fun frame => frame.2.2

theorem readFields_eq_ok {data : List Byte} {frame : AddressFields × AddressFields × Byte}
    (h : readFields data = .ok frame) :
    frame.1 = addressFields (data.take 7) ∧ frame.2.1 = addressFields ((data.drop 7).take 7) ∧
      data[14]? = some frame.2.2 := by
  unfold readFields at h
  split at h
  · next control hcontrol =>
    cases h
    exact ⟨rfl, rfl, hcontrol⟩
  · contradiction

theorem parsesFrames_readFields : ParsesFrames readFields fieldsView where
  dst := fun data frame h => (readFields_eq_ok h).1
  src := fun data frame h => (readFields_eq_ok h).2.1
  control := fun data frame h _ => (readFields_eq_ok h).2.2
  accepts := fun station cmd pollFinalBit rest _ => by
    have hcontrol : (frameBody station.address (uControlByte cmd.value pollFinalBit) rest)[14]? =
        some (uControlByte cmd.value pollFinalBit) := by
      rw [frameBody, List.getElem?_append_right (by simp), station.length_address]
      rfl
    rw [readFields, hcontrol]
    exact ⟨_, rfl⟩

/-- The satellite. -/
def cubeSatStation : Station :=
  ⟨cubeSatCallsign, defaultSsid, by decide, by decide, by decide, by decide⟩

def cubeSatLinked : LinkState := { LinkState.initial with currentLinkDestAddr := cubeSatLink }

theorem set_cubeSatStation :
    setCurrentLinkDestCallSign LinkState.initial (some (cubeSatStation.call ++ []))
      cubeSatStation.call.length cubeSatStation.ssid = .ok cubeSatLinked := rfl

/-- A SABM frame that does not ask for an answer is decoded. -/
theorem groundDecodes_uFrame_cubeSat :
    GroundDecodes (destuff 5) (fun _ _ => none) .null readFields fieldsView cubeSatLinked
      ⟨Block.fill _ 0, 0⟩ cubeSatStation .conn 0 :=
  (groundDecodes_uFrame_iff _ _ _ parsesFrames_readFields set_cubeSatStation _ .conn
    (by decide)).mpr (.inl ((stuff_eq_self_iff (by decide) _).mp (by decide +kernel)))

/-- A SABM frame that asks for an answer is not. -/
theorem groundDecodes_uFrame_fails :
    ¬ ∀ (Frame : Type) (unpack : List Byte → Except PyError Frame) (view : FrameView Frame),
      ParsesFrames unpack view →
      ∀ startUnstuffing decoder rs s t (station : Station) rest out cmd (pollFinalBit : Byte),
        setCurrentLinkDestCallSign s (some (station.call ++ rest)) station.call.length
          station.ssid = .ok t →
        pollFinalBit.toNat ≤ 1 →
        GroundDecodes startUnstuffing decoder rs unpack view t out station cmd pollFinalBit := by
  intro hall
  have hdecodes := hall _ readFields fieldsView parsesFrames_readFields (destuff 5)
    (fun _ _ => none) .null _ _ cubeSatStation [] ⟨Block.fill _ 0, 0⟩ .conn 1 set_cubeSatStation
    (by decide)
  rcases link_of_set set_cubeSatStation with ⟨hlink, haddress⟩
  rw [groundDecodes_iff _ _ _ _ hlink haddress .conn (by decide)] at hdecodes
  exact not_decodes_of_conn parsesFrames_readFields (by decide) hdecodes

end ObcGsInterface
