import ObcGsInterface.Verification.Link.Calls
import ObcGsInterface.Verification.Link.Frames

/-! # Frames go to the peer of the link

The peer is a ghost variable of a run: who the calls so far say the other end of the link
is. A SABM makes its sender the peer, but `uFrameRecv` sets the link address to the
satellite whoever the sender is. -/

namespace ObcGsInterface

open CArray BitStream BitStuffing

/-! ## The peer of a run -/

/-- The static variables together with the peer. -/
structure Tracked where
  state : LinkState
  peer : Option (Block Byte ax25DestAddrBytes)

def Tracked.initial : Tracked := ⟨LinkState.initial, none⟩

/-- The peer after a call with this error code. A peer is an encoded address of seven bytes, in
which the SSID 16 is the same as 0. -/
def LinkCall.peerAfter (peer : Option (Block Byte ax25DestAddrBytes)) (err : ErrorCode) :
    LinkCall → Option (Block Byte ax25DestAddrBytes)
  | .setCurrentLinkDestCallSign destCallSign destCallSignLength ssid =>
      match CallSign.ofArguments destCallSign destCallSignLength.toNat ssid with
      | some callSign => some callSign.address
      | none => peer
  | .clearCurrentLinkDestAddress => none
  | call => peer.or (call.sabmSender err)

/-- The call takes the static variables and the peer from `x` to `y`. -/
def LinkCall.Tracks (call : LinkCall) (x y : Tracked) : Prop :=
  ∃ result, call.exec x.state = .ok result ∧
    y = ⟨result.state, call.peerAfter x.peer result.err⟩

/-- A SABM that is received while no link address is set must come from the satellite, or
the satellite must be the peer already. -/
def LinkCall.NamesCubeSat (x : Tracked) : LinkCall → Prop
  | .recv (some packet) _ =>
      packet.Accepted → packet.uControl = ax25UFrameSabmCmdControl →
        x.state.currentLinkDestAddr.length ≠ ax25DestAddrBytes →
        x.peer.getD packet.sender = cubeSatAddress
  | _ => True

/-! ## What sending must do -/

/-- The destination field of a packed frame, as the receiver unstuffs it. -/
def PackedAx25UFrame.HasDest (frame : PackedAx25UFrame) (dest : List Byte) : Prop :=
  ∃ unstuffed, ax25Unstuff frame.data.cells frame.length (Block.fill ax25MinimumIFrameLen 0) =
      .ok unstuffed ∧
    (unstuffed.unstuffedPacket.cells.drop ax25DestAddrPosition).take ax25DestAddrBytes = dest

/-- Every frame that is sent carries the peer, and without a peer none is. -/
structure SendsToPeer (x : Tracked) : Prop where
  iFrame : ∀ telemData (telemDataLen : Byte) ax25Data result,
    ax25SendIFrame x.state telemData telemDataLen.toNat ax25Data = .ok result →
    (result.err = .success → ∃ frame peer, result.output = some frame ∧ x.peer = some peer ∧
      frame.field ax25DestAddrPosition ax25DestAddrBytes = peer.cells) ∧
    (x.peer = none → result.err = .invalidArg)
  uFrame : ∀ ax25Data (cmd pollFinalBit : Byte) result,
    ax25SendUFrame x.state ax25Data cmd.toNat pollFinalBit = .ok result →
    (result.err = .success → ∃ frame peer, result.output = some frame ∧ x.peer = some peer ∧
      frame.HasDest peer.cells) ∧
    (x.peer = none → result.err = .invalidArg)

theorem uControlByte_ne_zero (cmd : ℕ) (pollFinalBit : Byte) : uControlByte cmd pollFinalBit ≠ 0 := by
  intro hzero
  have hcontrol : uFrameControl cmd = 0 := (BitVec.or_eq_zero_iff.mp hzero).2
  unfold uFrameControl at hcontrol
  split_ifs at hcontrol <;> revert hcontrol <;> decide

/-- The trailing zeros of a U frame end at its control byte, so unstuffing keeps its
addresses. -/
theorem Packed.hasDest {dest : List Byte} {cmd : ℕ} {pollFinalBit : Byte}
    {frame : PackedAx25UFrame} (h : Packed (uFrameBody dest cmd pollFinalBit) frame)
    (hdest : dest.length = ax25DestAddrBytes) : frame.HasDest dest := by
  have hseven : dest.length = 7 := hdest
  set body := uFrameBody dest cmd pollFinalBit with hbody
  have hbodyLength : body.length = 15 := by
    rw [hbody, uFrameBody, length_frameBody, hseven]
    rfl
  have hcontent : (body ++ checkSequence body).length = 17 := by
    rw [List.length_append, hbodyLength, length_checkSequence]
  have hcontrol : (body ++ checkSequence body)[14]? = some (uControlByte cmd pollFinalBit) := by
    rw [List.getElem?_append_left (by omega), hbody, uFrameBody, frameBody,
      List.getElem?_append_right (by omega), hseven]
    rfl
  have hlen : frame.length ≤ frame.data.cells.length := by
    have hstuffed := length_stuff_bits_le (body ++ checkSequence body)
    have hmax : ax25MaximumUFrameCmdLength = 37 := rfl
    rw [hcontent] at hstuffed
    rw [frame.data.length_cells, h.length_eq, byteCount]
    omega
  obtain ⟨tailBytes, unstuffed, hrun, -, -, -, -, hstop, -, hcells⟩ :=
    ax25Unstuff_of_destuff (n := ax25MinimumIFrameLen) (destuff_stuffed h.cells_eq h.length_eq)
      (padding_lt _) hlen (by rw [hcontent]; decide) (by decide)
  have htail := hstop 14 _ hcontrol (uControlByte_ne_zero cmd pollFinalBit)
  rw [hcontent] at htail
  refine ⟨unstuffed, hrun, ?_⟩
  obtain ⟨k, hk, hseventh⟩ : ∃ k, (body ++ checkSequence body).length + 2 - tailBytes = k + 1 ∧
      7 ≤ k := ⟨18 - tailBytes, by omega, by omega⟩
  rw [hcells, hk, List.set_cons_succ]
  change (((body ++ checkSequence body) ++ _).set k ax25Flag).take 7 = dest
  rw [List.take_set, List.set_eq_of_length_le
    (Nat.le_trans (List.length_take_le 7 _) hseventh), hbody, uFrameBody, frameBody]
  simp only [List.append_assoc]
  rw [List.take_left' hseven]

/-! ## The link address is the peer -/

/-- A link address that is set is the peer. -/
def Tracked.LinkIsPeer (x : Tracked) : Prop :=
  x.state.currentLinkDestAddr.length = ax25DestAddrBytes →
    x.peer = some x.state.currentLinkDestAddr.data

theorem Tracked.LinkIsPeer.sendsToPeer {x : Tracked} (hx : x.LinkIsPeer) : SendsToPeer x where
  iFrame telemData telemDataLen ax25Data result hrun := by
    have hlen : telemDataLen.toNat ≤ ax25InfoBytes := Nat.le_of_lt_succ telemDataLen.isLt
    cases ax25SendIFrame_sent hlen hrun with
    | rejected missing => exact ⟨fun hsuccess => ErrorCode.noConfusion hsuccess, fun _ => rfl⟩
    | sent data frame data_eq link read length_eq cells_eq =>
        have hpeer := hx link
        have hinfo : (infoField (data.take telemDataLen.toNat)).length = ax25InfoBytes :=
          length_infoField (Nat.le_trans (List.length_take_le _ _) hlen)
        have hsealed := sealed_iFrame length_eq cells_eq (Block.length_cells _) hinfo
        refine ⟨fun _ => ⟨frame, _, rfl, hpeer, ?_⟩, fun hnone => ?_⟩
        · exact (hsealed.fields (Block.length_cells _)).dest_eq
        · rw [hpeer] at hnone
          contradiction
  uFrame ax25Data cmd pollFinalBit result hrun := by
    obtain ⟨sent, hsent, hcases⟩ := ax25SendUFrame_sent x.state ax25Data cmd.toNat pollFinalBit
    rw [hrun, Except.ok.injEq] at hsent
    subst hsent
    cases hcases with
    | rejected missing => exact ⟨fun hsuccess => ErrorCode.noConfusion hsuccess, fun _ => rfl⟩
    | sent frame link packed =>
        have hpeer := hx link
        refine ⟨fun _ => ⟨frame, _, rfl, hpeer, packed.hasDest (Block.length_cells _)⟩,
          fun hnone => ?_⟩
        rw [hpeer] at hnone
        contradiction

theorem LinkState.connected_link (s : LinkState) :
    s.connected.currentLinkDestAddr =
      if s.currentLinkDestAddr.length ≠ ax25DestAddrBytes then cubeSatLink
      else s.currentLinkDestAddr := rfl

/-- A SABM whose call succeeds has passed the checks. -/
theorem accepted_of_success {s : LinkState} {packet : UnstuffedAx25IFrame}
    {command : Option UFrameCmd} {result : LinkResult LinkOutput}
    (hrun : (LinkCall.recv (some packet) command).exec s = .ok result)
    (herr : result.err = .success) : packet.Accepted := by
  by_contra hreject
  obtain ⟨err, hrecv, hne⟩ := ax25Recv_of_not_accepted hreject s command
  simp only [LinkCall.exec, hrecv, ok_bind, pure_eq_ok, Except.ok.injEq] at hrun
  rw [← hrun] at herr
  exact hne herr

theorem sabmSender_eq_some {err : ErrorCode} {packet : Option UnstuffedAx25IFrame}
    {command : Option UFrameCmd} {sender : Block Byte ax25DestAddrBytes}
    (h : LinkCall.sabmSender err (.recv packet command) = some sender) :
    ∃ sabm, packet = some sabm ∧ err = .success ∧ sabm.uControl = ax25UFrameSabmCmdControl ∧
      sabm.sender = sender := by
  cases packet with
  | none => contradiction
  | some packet =>
      simp only [LinkCall.sabmSender] at h
      split_ifs at h with hsabm
      exact ⟨packet, rfl, hsabm.1, hsabm.2, Option.some.inj h⟩

/-- Every call that meets the condition keeps the link address the peer. -/
theorem LinkCall.Tracks.linkIsPeer {x y : Tracked} {call : LinkCall} (hstep : call.Tracks x y)
    (hx : x.LinkIsPeer) (hcall : call.NamesCubeSat x) : y.LinkIsPeer := by
  obtain ⟨result, hrun, rfl⟩ := hstep
  have hlink := LinkCall.exec_link hrun
  simp only [Tracked.LinkIsPeer]
  rw [hlink]
  intro hlength
  -- A call that only sends leaves the peer as it is.
  have hpeer {peer : Option (Block Byte ax25DestAddrBytes)} {link : Block Byte ax25DestAddrBytes}
      (hsame : peer = x.peer.or none) (hlinked : x.peer = some link) : peer = some link := by
    rw [hsame, Option.or_none, hlinked]
  cases call with
  | recv packet command =>
      simp only [LinkCall.linkAfter, LinkCall.peerAfter] at hlength ⊢
      cases hsender : LinkCall.sabmSender result.err (.recv packet command) with
      | none =>
          rw [hsender] at hlength
          rw [Option.or_none]
          exact hx hlength
      | some sender =>
          obtain ⟨sabm, rfl, herr, hcontrol, rfl⟩ := sabmSender_eq_some hsender
          simp only [LinkState.connected_link]
          split_ifs with hset
          · have hcubeSat : x.peer.getD sabm.sender = cubeSatLink.data :=
              hcall (accepted_of_success hrun herr) hcontrol hset
            rw [← hcubeSat]
            cases x.peer <;> rfl
          · rw [hx (not_not.mp hset)]
            rfl
  | sendIFrame telemData telemDataLen ax25Data => exact hpeer rfl (hx hlength)
  | sendIFrameWithFlagSharing n telemData telemDataLen ax25Data ax25DataLen destAddress =>
      exact hpeer rfl (hx hlength)
  | sendUFrame ax25Data cmd pollFinalBit => exact hpeer rfl (hx hlength)
  | setCurrentLinkDestCallSign destCallSign destCallSignLength ssid =>
      simp only [LinkCall.linkAfter, LinkCall.peerAfter] at hlength ⊢
      cases hcallSign : CallSign.ofArguments destCallSign destCallSignLength.toNat ssid with
      | none =>
          rw [hcallSign] at hlength
          exact absurd hlength (by decide)
      | some callSign => rfl
  | clearCurrentLinkDestAddress => exact absurd hlength (show 0 ≠ ax25DestAddrBytes by decide)

/-- After a call that does not meet the condition, frames go to the satellite instead of the
peer. -/
theorem LinkCall.Tracks.namesCubeSat {x y : Tracked} {call : LinkCall} (hstep : call.Tracks x y)
    (hy : SendsToPeer y) : call.NamesCubeSat x := by
  cases call with
  | recv packet command =>
      cases packet with
      | none => trivial
      | some packet =>
          intro haccepted hcontrol hset
          obtain ⟨result, hrun, rfl⟩ := hstep
          have hknown : packet.uControl ∈ uFrameControls := by
            rw [hcontrol]
            decide
          simp only [LinkCall.exec, ax25Recv_of_uFrame haccepted hknown, uFrameRecv_eq,
            if_pos hcontrol, ok_bind, pure_eq_ok, Except.ok.injEq] at hrun
          have hstate : result.state = x.state.connected := by rw [← hrun]; rfl
          have herr : result.err = .success := by rw [← hrun]; rfl
          have hlink : result.state.currentLinkDestAddr = cubeSatLink := by
            rw [hstate, LinkState.connected_link, if_pos hset]
          have hset' : result.state.currentLinkDestAddr.length = ax25DestAddrBytes := by
            rw [hlink]
            rfl
          obtain ⟨frame, hsend, hlength, hcells⟩ := ax25SendIFrame_empty hset'
          obtain ⟨sent, peer, hsent, hpeer, hfield⟩ := (hy.iFrame _ 0 _ _ hsend).1 rfl
          obtain rfl : frame = sent := Option.some.inj hsent
          have hsealed := sealed_iFrame hlength hcells (Block.length_cells _)
            (length_infoField (Nat.zero_le _))
          rw [(hsealed.fields (Block.length_cells _)).dest_eq, hlink] at hfield
          have hsabm : LinkCall.sabmSender result.err (.recv (some packet) command) =
              some packet.sender := by
            rw [LinkCall.sabmSender]
            exact if_pos ⟨herr, hcontrol⟩
          have hafter : LinkCall.peerAfter x.peer result.err (.recv (some packet) command) =
              some (x.peer.getD packet.sender) := by
            change x.peer.or (LinkCall.sabmSender result.err (.recv (some packet) command)) = _
            rw [hsabm]
            cases x.peer <;> rfl
          rw [hafter, Option.some.injEq] at hpeer
          rw [hpeer]
          ext1
          exact hfield.symm
  | sendIFrame telemData telemDataLen ax25Data => trivial
  | sendIFrameWithFlagSharing n telemData telemDataLen ax25Data ax25DataLen destAddress => trivial
  | sendUFrame ax25Data cmd pollFinalBit => trivial
  | setCurrentLinkDestCallSign destCallSign destCallSignLength ssid => trivial
  | clearCurrentLinkDestAddress => trivial

/-! ## Runs -/

/-- A call that meets the condition. -/
def MeetingStep (x y : Tracked) : Prop := ∃ call : LinkCall, call.NamesCubeSat x ∧ call.Tracks x y

theorem linkIsPeer_of_run {x : Tracked} (h : Relation.ReflTransGen MeetingStep Tracked.initial x) :
    x.LinkIsPeer := by
  induction h with
  | refl => exact fun h => absurd h (by decide)
  | tail _ hstep ih =>
      obtain ⟨call, hcall, htracks⟩ := hstep
      exact htracks.linkIsPeer ih hcall

/-- **Frames go to the peer** after every run of calls that meet the condition, and the next
call keeps it so exactly when it meets the condition. -/
theorem frames_to_peer {x : Tracked}
    (hx : Relation.ReflTransGen MeetingStep Tracked.initial x) :
    SendsToPeer x ∧ ∀ (call : LinkCall) (y : Tracked), call.Tracks x y →
      (SendsToPeer y ↔ call.NamesCubeSat x) := by
  have hlink := linkIsPeer_of_run hx
  refine ⟨hlink.sendsToPeer, fun call y hstep => ⟨hstep.namesCubeSat, fun hcall => ?_⟩⟩
  exact (hstep.linkIsPeer hlink hcall).sendsToPeer

/-- The state after the ground station has set the link to the satellite. -/
def afterSetCubeSat : Tracked where
  state := ⟨0, 0, cubeSatLink⟩
  peer := some cubeSatAddress

theorem setCubeSat_tracks :
    (LinkCall.setCurrentLinkDestCallSign (some cubeSatCallsign) 5 0).Tracks Tracked.initial
      afterSetCubeSat := ⟨⟨.success, .nothing, afterSetCubeSat.state⟩, rfl, rfl⟩

theorem frames_to_peer_setCubeSat :
    SendsToPeer afterSetCubeSat ∧ ∀ (call : LinkCall) (y : Tracked),
      call.Tracks afterSetCubeSat y → (SendsToPeer y ↔ call.NamesCubeSat afterSetCubeSat) :=
  frames_to_peer (.single ⟨.setCurrentLinkDestCallSign (some cubeSatCallsign) 5 0, trivial,
    setCubeSat_tracks⟩)

/-- The state after the SABM of the ground station at start-up. -/
def afterGroundSabm : Tracked := ⟨LinkState.initial.connected, some groundSabm.sender⟩

theorem groundSabm_tracks :
    (LinkCall.recv (some groundSabm) none).Tracks Tracked.initial afterGroundSabm := by
  refine ⟨⟨.success, .command (some .conn), LinkState.initial.connected⟩, ?_, ?_⟩
  · have hknown : groundSabm.uControl ∈ uFrameControls := by
      rw [groundSabm_control]
      decide
    simp only [LinkCall.exec]
    rw [ax25Recv_of_uFrame groundSabm_accepted hknown, uFrameRecv_eq, if_pos groundSabm_control]
    rfl
  · rfl

/-- After a SABM from the ground station, the satellite sends frames to itself. -/
theorem frames_to_peer_fails :
    ¬ ∀ x, Relation.ReflTransGen (fun x y => ∃ call : LinkCall, call.Tracks x y)
      Tracked.initial x → SendsToPeer x := by
  intro h
  have hsends := h afterGroundSabm (.single ⟨_, groundSabm_tracks⟩)
  have hcubeSat := groundSabm_tracks.namesCubeSat hsends groundSabm_accepted groundSabm_control
    (by decide)
  exact absurd (congrArg Block.cells hcubeSat) (by decide)

end ObcGsInterface
