import ObcGsInterface.Verification.Link.Receive
import ObcGsInterface.Verification.Link.Send
import Mathlib.Tactic.IntervalCases

/-! # Sender and receiver agree on the layout

A sealed frame passes the checks of `ax25Recv`, and the fields the receiver looks at are
the ones the sender wrote. -/

namespace ObcGsInterface

open CArray BigEndian

/-! ## The fields of a sealed frame -/

/-- A packet that holds a sealed body. -/
structure Sealed (body : List Byte) (packet : UnstuffedAx25IFrame) : Prop where
  length_eq : packet.length = body.length + 4
  cells_eq : ∃ rest, packet.data.cells = sealFrame body ++ rest

namespace Sealed

variable {body : List Byte} {packet : UnstuffedAx25IFrame}

theorem field_eq (h : Sealed body packet) {pos count : ℕ} (hroom : pos + count ≤ body.length) :
    packet.field (pos + 1) count = (body.drop pos).take count := by
  obtain ⟨rest, hcells⟩ := h.cells_eq
  rw [UnstuffedAx25IFrame.field, hcells, sealFrame, List.cons_append, List.drop_succ_cons,
    List.append_assoc, List.drop_append_of_le_length (by omega),
    List.take_append_of_le_length (by rw [List.length_drop]; omega)]

theorem byte_eq (h : Sealed body packet) {pos : ℕ} (hpos : pos < body.length) :
    packet.byte (pos + 1) = body[pos] := by
  obtain ⟨rest, hcells⟩ := h.cells_eq
  rw [UnstuffedAx25IFrame.byte, hcells, sealFrame, List.cons_append, List.getElem?_cons_succ,
    List.append_assoc, List.getElem?_append_left hpos, List.getElem?_eq_getElem hpos,
    Option.getD_some]

theorem fcs_eq (h : Sealed body packet) :
    reverseUint16 (join16 (packet.byte (packet.length - 3)) (packet.byte (packet.length - 2))) =
      crcOf (packet.field 1 (packet.length - 4)) := by
  obtain ⟨rest, hcells⟩ := h.cells_eq
  generalize hfcs : reverseUint16 (crcOf body) = fcs
  have hseq : packet.data.cells = (ax25Flag :: body) ++
      ((fcs >>> 8).setWidth 8 :: fcs.setWidth 8 :: ax25Flag :: rest) := by
    rw [hcells, sealFrame, checkSequence, hfcs]
    simp [bytes16]
  have hhigh : packet.byte (body.length + 1) = (fcs >>> 8).setWidth 8 := by
    rw [UnstuffedAx25IFrame.byte, hseq, List.getElem?_append_right (by simp)]
    simp
  have hlow : packet.byte (body.length + 2) = fcs.setWidth 8 := by
    rw [UnstuffedAx25IFrame.byte, hseq, List.getElem?_append_right (by simp)]
    simp
  have hbody : packet.field 1 body.length = body := by
    rw [h.field_eq (by omega), List.drop_zero, List.take_length]
  have hthree : body.length + 4 - 3 = body.length + 1 := by omega
  have htwo : body.length + 4 - 2 = body.length + 2 := by omega
  rw [h.length_eq, Nat.add_sub_cancel, hthree, htwo, hhigh, hlow, hbody, join16_bytes16, ← hfcs,
    reverseUint16_reverseUint16]

end Sealed

/-- A packet with a sealed body and zeros behind it. -/
def sealedPacket (body : List Byte) (hroom : body.length + 4 ≤ ax25MinimumIFrameLen) :
    UnstuffedAx25IFrame where
  data :=
    { cells := sealFrame body ++ List.replicate (ax25MinimumIFrameLen - (body.length + 4)) 0
      length_cells := by
        rw [List.length_append, length_sealFrame, List.length_replicate]
        omega }
  length := body.length + 4

theorem sealed_sealedPacket (body : List Byte) (hroom : body.length + 4 ≤ ax25MinimumIFrameLen) :
    Sealed body (sealedPacket body hroom) := ⟨rfl, _, rfl⟩

theorem drop_frameBody {dest : List Byte} (control : Byte) (rest : List Byte)
    (hdest : dest.length = ax25DestAddrBytes) : (frameBody dest control rest).drop 15 = rest := by
  have hseven : dest.length = 7 := hdest
  rw [frameBody, show 15 = 7 + 8 from rfl, ← List.drop_drop, List.drop_left' hseven]
  rfl

/-- The fields of a packet that holds a sealed frame body. -/
structure FrameFields (dest : List Byte) (control : Byte) (rest : List Byte)
    (packet : UnstuffedAx25IFrame) : Prop where
  dest_eq : packet.field ax25DestAddrPosition ax25DestAddrBytes = dest
  source_eq : packet.source = groundSource
  control_eq : packet.control = control
  rest_eq : packet.field ax25Mod8PidPosition rest.length = rest

theorem Sealed.fields {dest rest : List Byte} {control : Byte} {packet : UnstuffedAx25IFrame}
    (h : Sealed (frameBody dest control rest) packet) (hdest : dest.length = ax25DestAddrBytes) :
    FrameFields dest control rest packet := by
  have hlength : (frameBody dest control rest).length = rest.length + 15 := by
    rw [length_frameBody, hdest, ax25DestAddrBytes]
    omega
  have hseven : dest.length = 7 := hdest
  have hdrop : (frameBody dest control rest).drop 7 = groundSource ++ control :: rest := by
    rw [frameBody, List.drop_left' hseven]
  refine ⟨?_, ?_, ?_, ?_⟩
  · have hfield := h.field_eq (show 0 + 7 ≤ _ by omega)
    rwa [List.drop_zero, frameBody, List.take_left' hseven] at hfield
  · have hfield := h.field_eq (show 7 + 7 ≤ _ by omega)
    rw [hdrop] at hfield
    exact hfield
  · have hbyte := h.byte_eq (show 14 < _ by omega)
    rw [UnstuffedAx25IFrame.control]
    apply hbyte.trans
    have hget : (frameBody dest control rest)[14]? = some control := by
      rw [← Nat.add_zero 14, show 14 + 0 = 7 + 7 from rfl, ← List.getElem?_drop, hdrop]
      rfl
    rwa [List.getElem?_eq_getElem (by omega), Option.some.injEq] at hget
  · have hfield := h.field_eq (show 15 + rest.length ≤ _ by omega)
    rwa [drop_frameBody _ _ hdest, List.take_length] at hfield

/-- A sealed frame to one of the two stations passes the checks. -/
theorem Sealed.accepted {dest rest : List Byte} {control : Byte} {packet : UnstuffedAx25IFrame}
    (h : Sealed (frameBody dest control rest) packet)
    (hdest : dest = cubeSatDest ∨ dest = groundDest)
    (hlength : rest.length + 19 ≤ ax25MinimumIFrameLen) : packet.Accepted := by
  have hseven : dest.length = ax25DestAddrBytes := by
    rcases hdest with rfl | rfl <;> rfl
  have hfields := h.fields hseven
  have hpacket : packet.length = rest.length + 19 := by
    rw [h.length_eq, length_frameBody, hseven, ax25DestAddrBytes]
    omega
  have hmin : ax25MinimumUFrameCmdLength = 19 := rfl
  refine ⟨by omega, by omega, ?_, h.fcs_eq⟩
  rw [hfields.dest_eq]
  exact hdest

/-- A SABM from the ground station to the satellite. -/
def groundSabm : UnstuffedAx25IFrame :=
  sealedPacket (frameBody cubeSatDest ax25UFrameSabmCmdControl []) (by decide)

theorem groundSabm_accepted : groundSabm.Accepted :=
  (sealed_sealedPacket _ _).accepted (.inl rfl) (by decide)

theorem groundSabm_control : groundSabm.uControl = ax25UFrameSabmCmdControl := rfl

/-! ## The control byte of an I frame -/

/-- N(S): bits 1 to 3. -/
def sendNumber (control : Byte) : Byte := (control >>> 1) &&& 0x07

/-- N(R): bits 5 to 7. -/
def receiveNumber (control : Byte) : Byte := control >>> 5

/-- P: bit 4. -/
def pollBit (control : Byte) : Byte := (control >>> 4) &&& 0x01

/-- What the control byte of an I frame says. -/
structure IControlSpec (ns nr control : Byte) : Prop where
  is_iFrame : control &&& 0x01 = 0
  poll_eq : pollBit control = 0
  send_eq : sendNumber control = ns
  receive_eq : receiveNumber control = nr
  disjoint : (nr <<< 5) &&& (ns <<< 1) = 0
  control_eq : control = (nr <<< 5) ||| (ns <<< 1)

theorem iControlSpec_of_lt {ns nr : Byte} (hns : ns.toNat < 7) (hnr : nr.toNat < 7) :
    IControlSpec ns nr ((nr <<< 5) ||| (ns <<< 1)) := by
  have hs : ns = BitVec.ofNat 8 ns.toNat := by simp
  have hr : nr = BitVec.ofNat 8 nr.toNat := by simp
  generalize ns.toNat = i at hns hs
  generalize nr.toNat = j at hnr hr
  subst hs hr
  interval_cases i <;> interval_cases j <;>
    exact ⟨by decide, by decide, by decide, by decide, by decide, rfl⟩

/-- The control byte of an I frame carries the counters of its sender. -/
theorem LinkState.iControl_spec (s : LinkState) :
    IControlSpec s.clamped.pktSentNum s.clamped.pktReceiveNum s.iControl :=
  iControlSpec_of_lt (clampCounter_lt _) (clampCounter_lt _)

/-! ## I frames -/

theorem sealed_iFrame {frame : UnstuffedAx25IFrame} {dest info : List Byte} {control : Byte}
    (hlength : frame.length = ax25MinimumIFrameLen)
    (hcells : frame.data.cells = sealFrame (iFrameBody dest control info))
    (hdest : dest.length = ax25DestAddrBytes) (hinfo : info.length = ax25InfoBytes) :
    Sealed (iFrameBody dest control info) frame := by
  refine ⟨?_, [], by rw [hcells, List.append_nil]⟩
  rw [hlength, iFrameBody, length_frameBody, List.length_cons, hinfo, hdest]
  rfl

/-- What becomes of an I frame between two ends of a link. -/
structure IFrameExchange (sender receiver : LinkState) (telemData : List Byte)
    (command : Option UFrameCmd) (frame : UnstuffedAx25IFrame) : Prop where
  handled : ax25Recv receiver (some frame) command = iFrameRecv receiver frame command
  received : ax25Recv receiver (some frame) command = .ok ⟨.success, command, receiver.received⟩
  info_eq : frame.field ax25InfoFieldPosition ax25InfoBytes = infoField telemData
  control_spec : IControlSpec sender.clamped.pktSentNum sender.clamped.pktReceiveNum frame.control

theorem Sealed.iFrame_handled {dest info : List Byte} {s : LinkState}
    {packet : UnstuffedAx25IFrame} (h : Sealed (iFrameBody dest s.iControl info) packet)
    (hdest : dest = cubeSatDest ∨ dest = groundDest) (hinfo : info.length = ax25InfoBytes)
    (receiver : LinkState) (command : Option UFrameCmd) :
    ax25Recv receiver (some packet) command = iFrameRecv receiver packet command ∧
      iFrameRecv receiver packet command = .ok ⟨.success, command, receiver.received⟩ := by
  have hseven : dest.length = ax25DestAddrBytes := by
    rcases hdest with rfl | rfl <;> rfl
  have hfields := h.fields hseven
  have haccepted : packet.Accepted := h.accepted hdest (by
    rw [List.length_cons, hinfo]
    decide)
  have hpid : packet.byte ax25Mod8PidPosition = ax25Pid := by
    have hbody : 15 < (iFrameBody dest s.iControl info).length := by
      rw [iFrameBody, length_frameBody, List.length_cons, hinfo, hseven]
      decide
    have hget : (iFrameBody dest s.iControl info)[15]? = some ax25Pid := by
      rw [← Nat.add_zero 15, ← List.getElem?_drop, iFrameBody, drop_frameBody _ _ hseven]
      rfl
    rw [List.getElem?_eq_getElem hbody, Option.some.injEq] at hget
    exact (h.byte_eq hbody).trans hget
  constructor
  · rw [ax25Recv_of_accepted haccepted, dispatch, hfields.control_eq,
      if_pos s.iControl_spec.is_iFrame]
  · rw [iFrameRecv_eq, hfields.source_eq, if_neg (by simp), if_neg (by simp [hpid])]

/-- **Sender and receiver agree on the layout of I frames**, whatever the counters of
either are. -/
theorem iFrame_layout {sender : LinkState} {telemData : List Byte}
    (hlink : stationDestAddr cubeSatCallsign = .ok sender.currentLinkDestAddr ∨
      stationDestAddr groundStationCallsign = .ok sender.currentLinkDestAddr)
    (hlen : telemData.length ≤ ax25InfoBytes) (receiver : LinkState)
    (out : UnstuffedAx25IFrame) (command : Option UFrameCmd) :
    ∃ frame, ax25SendIFrame sender (some telemData) telemData.length (some out) =
        .ok ⟨.success, some frame, sender.sent⟩ ∧
      IFrameExchange sender receiver telemData command frame := by
  have hdest : sender.currentLinkDestAddr.length = ax25DestAddrBytes ∧
      (sender.currentLinkDestAddr.data.cells = cubeSatDest ∨
        sender.currentLinkDestAddr.data.cells = groundDest) := by
    rcases hlink with hlink | hlink
    · rw [stationDestAddr_cubeSat, Except.ok.injEq] at hlink
      rw [← hlink]
      exact ⟨rfl, .inl rfl⟩
    · rw [stationDestAddr_groundStation, Except.ok.injEq] at hlink
      rw [← hlink]
      exact ⟨rfl, .inr rfl⟩
  obtain ⟨frame, hsend, hlength, hcells⟩ :=
    ax25SendIFrame_eq out hdest.1 hlen (Nat.le_refl telemData.length)
  rw [List.take_length] at hcells
  have hinfo := length_infoField hlen
  have hsealed : Sealed (iFrameBody sender.currentLinkDestAddr.data.cells sender.iControl
      (infoField telemData)) frame :=
    sealed_iFrame hlength hcells (Block.length_cells _) hinfo
  have hfields := hsealed.fields sender.currentLinkDestAddr.data.length_cells
  obtain ⟨hhandled, hreceived⟩ := hsealed.iFrame_handled hdest.2 hinfo receiver command
  refine ⟨frame, hsend, ?_⟩
  exact
    { handled := hhandled
      received := hhandled.trans hreceived
      info_eq := by
        have hbody : 16 + ax25InfoBytes ≤ (iFrameBody sender.currentLinkDestAddr.data.cells
            sender.iControl (infoField telemData)).length := by
          rw [iFrameBody, length_frameBody, List.length_cons, hinfo, Block.length_cells]
          decide
        have hfield := hsealed.field_eq hbody
        rwa [← List.drop_drop (i := 1) (j := 15), iFrameBody,
          drop_frameBody _ _ (Block.length_cells _), List.drop_succ_cons, List.drop_zero, ← hinfo,
          List.take_length, hinfo] at hfield
      control_spec := by
        rw [hfields.control_eq]
        exact sender.iControl_spec }

/-- A sender with counters of which both are reset. -/
def linkedSender : LinkState := ⟨9, 200, cubeSatLink⟩

theorem iFrame_layout_linkedSender :
    ∃ frame, ax25SendIFrame linkedSender (some [1, 2, 3]) 3 (some ⟨Block.fill _ 0xFF, 0⟩) =
        .ok ⟨.success, some frame, linkedSender.sent⟩ ∧
      IFrameExchange linkedSender LinkState.initial [1, 2, 3] none frame :=
  iFrame_layout (.inl stationDestAddr_cubeSat) (by decide) LinkState.initial _ none

end ObcGsInterface
