import ObcGsInterface.Model.Ax25.FlagSharing
import ObcGsInterface.Verification.Link.Receive
import ObcGsInterface.Verification.Link.Send
import Mathlib.Logic.Relation

/-! # Runs of calls

The entry points of `obc_gs_ax25.h` that use the static variables, as the calls of one
state machine, and what each of them does to the link address. -/

namespace ObcGsInterface

open CArray

/-- A call with its arguments, output buffers included. -/
inductive LinkCall where
  | recv (unstuffedPacket : Option UnstuffedAx25IFrame) (command : Option UFrameCmd)
  | sendIFrame (telemData : Option (List Byte)) (telemDataLen : Byte)
      (ax25Data : Option UnstuffedAx25IFrame)
  | sendIFrameWithFlagSharing (n : ℕ) (telemData : Option (List Byte)) (telemDataLen : BitVec 32)
      (ax25Data : Option (Block Byte n)) (ax25DataLen : BitVec 32) (destAddress : Option Ax25Addr)
  | sendUFrame (ax25Data : Option PackedAx25UFrame) (cmd pollFinalBit : Byte)
  | setCurrentLinkDestCallSign (destCallSign : Option (List Byte)) (destCallSignLength ssid : Byte)
  | clearCurrentLinkDestAddress

/-- What a call leaves in its output argument. -/
inductive LinkOutput where
  | command (command : Option UFrameCmd)
  | iFrame (frame : Option UnstuffedAx25IFrame)
  | burst (n : ℕ) (data : Option (Block Byte n))
  | uFrame (frame : Option PackedAx25UFrame)
  | nothing

/-- A result with its output tagged by the call it comes from. -/
def LinkResult.tag {ω : Type} (f : ω → LinkOutput) (result : LinkResult ω) :
    LinkResult LinkOutput :=
  ⟨result.err, f result.output, result.state⟩

/-- Carry out a call. -/
def LinkCall.exec (s : LinkState) : LinkCall → Except Fault (LinkResult LinkOutput)
  | .recv unstuffedPacket command => do
      let result ← ax25Recv s unstuffedPacket command
      return result.tag .command
  | .sendIFrame telemData telemDataLen ax25Data => do
      let result ← ax25SendIFrame s telemData telemDataLen.toNat ax25Data
      return result.tag .iFrame
  | .sendIFrameWithFlagSharing n telemData telemDataLen ax25Data ax25DataLen destAddress => do
      let result ← ax25SendIFrameWithFlagSharing s telemData telemDataLen.toNat ax25Data
        ax25DataLen.toNat destAddress
      return result.tag (.burst n)
  | .sendUFrame ax25Data cmd pollFinalBit => do
      let result ← ax25SendUFrame s ax25Data cmd.toNat pollFinalBit
      return result.tag .uFrame
  | .setCurrentLinkDestCallSign destCallSign destCallSignLength ssid => do
      let s ← ObcGsInterface.setCurrentLinkDestCallSign s destCallSign destCallSignLength.toNat ssid
      return ⟨.success, .nothing, s⟩
  | .clearCurrentLinkDestAddress =>
      .ok ⟨.success, .nothing, ObcGsInterface.clearCurrentLinkDestAddress s⟩

/-- One call takes the static variables from `s` to `t`. -/
def LinkStep (s t : LinkState) : Prop :=
  ∃ (call : LinkCall) (result : LinkResult LinkOutput), call.exec s = .ok result ∧ result.state = t

/-- The states that some sequence of calls after start-up leads to. -/
def Reachable (s : LinkState) : Prop := Relation.ReflTransGen LinkStep LinkState.initial s

/-! ## The link address -/

/-- The sender of a packet, as a destination for the answer: its source address with the
end bit cleared. -/
def UnstuffedAx25IFrame.sender (packet : UnstuffedAx25IFrame) : Block Byte ax25DestAddrBytes where
  cells := packet.source.take callSignBytes ++
    [packet.byte (ax25SrcAddrPosition + callSignBytes) &&& ~~~ax25AddressEndFlag]
  length_cells := by
    rw [List.length_append, List.length_take, UnstuffedAx25IFrame.source,
      UnstuffedAx25IFrame.field, List.length_take, List.length_drop, packet.data.length_cells]
    rfl

/-- The sender of the SABM that a call with this error code has accepted. -/
def LinkCall.sabmSender (err : ErrorCode) : LinkCall → Option (Block Byte ax25DestAddrBytes)
  | .recv (some packet) _ =>
      if err = .success ∧ packet.uControl = ax25UFrameSabmCmdControl then some packet.sender
      else none
  | _ => none

/-- The link address that a call with this error code leaves. -/
def LinkCall.linkAfter (s : LinkState) (err : ErrorCode) : LinkCall → Ax25Addr
  | .setCurrentLinkDestCallSign destCallSign destCallSignLength ssid =>
      match CallSign.ofArguments destCallSign destCallSignLength.toNat ssid with
      | some callSign => ⟨callSign.address, ax25DestAddrBytes⟩
      | none => Ax25Addr.zero
  | .clearCurrentLinkDestAddress => Ax25Addr.zero
  | call =>
      match call.sabmSender err with
      | some _ => s.connected.currentLinkDestAddr
      | none => s.currentLinkDestAddr

theorem LinkCall.sabmSender_eq_none {err : ErrorCode} {packet : UnstuffedAx25IFrame}
    (command : Option UFrameCmd)
    (h : ¬ (err = .success ∧ packet.uControl = ax25UFrameSabmCmdControl)) :
    LinkCall.sabmSender err (.recv (some packet) command) = none := if_neg h

theorem Received.link_eq {s : LinkState} {packet : UnstuffedAx25IFrame}
    {command : Option UFrameCmd} {result : LinkResult (Option UFrameCmd)}
    (h : Received s packet command result) :
    result.state.currentLinkDestAddr = LinkCall.linkAfter s result.err (.recv (some packet) command) := by
  have hsabm : ax25UFrameSabmCmdControl ∈ uFrameControls := by decide
  cases h with
  | ignored err known =>
      have hnone := LinkCall.sabmSender_eq_none command fun h : err = .success ∧ _ =>
        known (h.2 ▸ hsabm) h.1
      simp only [LinkCall.linkAfter, hnone]
  | iFrame accepted unknown =>
      have hnone := LinkCall.sabmSender_eq_none command fun h : ErrorCode.success = .success ∧ _ =>
        unknown (h.2 ▸ hsabm)
      simp only [LinkCall.linkAfter, hnone]
      rfl
  | sabm accepted control =>
      simp only [LinkCall.linkAfter, LinkCall.sabmSender, control, and_self, if_true]
  | disc accepted control source =>
      have hnone := LinkCall.sabmSender_eq_none command fun h : ErrorCode.success = .success ∧ _ =>
        absurd (control.symm.trans h.2) (by decide)
      simp only [LinkCall.linkAfter, hnone]
  | ack accepted control source =>
      have hnone := LinkCall.sabmSender_eq_none command fun h : ErrorCode.success = .success ∧ _ =>
        absurd (control.symm.trans h.2) (by decide)
      simp only [LinkCall.linkAfter, hnone]

/-- A burst is rejected before anything is written, or sent without a change to the link
address. -/
theorem ax25SendIFrameWithFlagSharing_cases {n : ℕ} {s : LinkState}
    {telemData : Option (List Byte)} {telemDataLen ax25DataLen : ℕ}
    {ax25Data : Option (Block Byte n)} {destAddress : Option Ax25Addr}
    {result : LinkResult (Option (Block Byte n))}
    (h : ax25SendIFrameWithFlagSharing s telemData telemDataLen ax25Data ax25DataLen destAddress =
      .ok result) :
    result = ⟨.invalidArg, ax25Data, s⟩ ∨
      result.err = .success ∧ result.state.currentLinkDestAddr = s.currentLinkDestAddr := by
  cases telemData with
  | none =>
      cases h
      exact .inl rfl
  | some telemData =>
      cases ax25Data with
      | none =>
          cases h
          exact .inl rfl
      | some ax25Data =>
          cases destAddress with
          | none =>
              cases h
              exact .inl rfl
          | some destAddress =>
              simp only [ax25SendIFrameWithFlagSharing] at h
              by_cases hdest : destAddress.length < ax25DestAddrBytes
              · rw [if_pos hdest] at h
                cases h
                exact .inl rfl
              by_cases hroom : ax25DataLen <
                  roundedFrames telemDataLen % 2 ^ 8 * ax25MinimumIFrameLenShareFlag + 1
              · rw [if_neg hdest, if_pos hroom] at h
                cases h
                exact .inl rfl
              · rw [if_neg hdest, if_neg hroom] at h
                obtain ⟨_, -, h⟩ := bind_eq_ok.mp h
                obtain ⟨_, -, h⟩ := bind_eq_ok.mp h
                obtain ⟨_, -, h⟩ := bind_eq_ok.mp h
                cases h
                exact .inr ⟨rfl, rfl⟩

theorem ax25SendIFrameWithFlagSharing_link {n : ℕ} {s : LinkState} {telemData : Option (List Byte)}
    {telemDataLen ax25DataLen : ℕ} {ax25Data : Option (Block Byte n)} {destAddress : Option Ax25Addr}
    {result : LinkResult (Option (Block Byte n))}
    (h : ax25SendIFrameWithFlagSharing s telemData telemDataLen ax25Data ax25DataLen destAddress =
      .ok result) :
    result.state.currentLinkDestAddr = s.currentLinkDestAddr := by
  rcases ax25SendIFrameWithFlagSharing_cases h with hrejected | hsent
  · rw [hrejected]
  · exact hsent.2

theorem setCurrentLinkDestCallSign_eq {s t : LinkState} {destCallSign : Option (List Byte)}
    {destCallSignLength : ℕ} {ssid : Byte}
    (h : setCurrentLinkDestCallSign s destCallSign destCallSignLength ssid = .ok t) :
    t = { s with
      currentLinkDestAddr :=
        match CallSign.ofArguments destCallSign destCallSignLength ssid with
        | some callSign => ⟨callSign.address, ax25DestAddrBytes⟩
        | none => Ax25Addr.zero } := by
  obtain ⟨⟨err, address⟩, haddress, h⟩ := bind_eq_ok.mp h
  have hresult := ax25GetDestAddress_eq haddress
  cases h
  cases hcallSign : CallSign.ofArguments destCallSign destCallSignLength ssid with
  | none =>
      rw [hcallSign] at hresult
      cases hresult
      rfl
  | some callSign =>
      rw [hcallSign] at hresult
      cases hresult
      rfl

/-- Every call leaves the link address that is stated for it. -/
theorem LinkCall.exec_link {s : LinkState} {call : LinkCall} {result : LinkResult LinkOutput}
    (h : call.exec s = .ok result) :
    result.state.currentLinkDestAddr = call.linkAfter s result.err := by
  cases call with
  | recv unstuffedPacket command =>
      cases unstuffedPacket with
      | none =>
          cases h
          rfl
      | some packet =>
          obtain ⟨received, hrun, hreceived⟩ := ax25Recv_received s packet command
          simp only [LinkCall.exec, hrun, ok_bind, pure_eq_ok, Except.ok.injEq] at h
          rw [← h]
          exact hreceived.link_eq
  | sendIFrame telemData telemDataLen ax25Data =>
      obtain ⟨sent, hrun, hresult⟩ := bind_eq_ok.mp h
      cases hresult
      cases ax25SendIFrame_sent (Nat.le_of_lt_succ telemDataLen.isLt) hrun with
      | rejected missing => rfl
      | sent data frame => rfl
  | sendIFrameWithFlagSharing n telemData telemDataLen ax25Data ax25DataLen destAddress =>
      obtain ⟨sent, hrun, hresult⟩ := bind_eq_ok.mp h
      cases hresult
      exact ax25SendIFrameWithFlagSharing_link hrun
  | sendUFrame ax25Data cmd pollFinalBit =>
      obtain ⟨sent, hrun, hsent⟩ := ax25SendUFrame_sent s ax25Data cmd.toNat pollFinalBit
      simp only [LinkCall.exec, hrun, ok_bind, pure_eq_ok, Except.ok.injEq] at h
      rw [← h]
      cases hsent with
      | rejected missing => rfl
      | sent frame link packed => rfl
  | setCurrentLinkDestCallSign destCallSign destCallSignLength ssid =>
      obtain ⟨t, hrun, hresult⟩ := bind_eq_ok.mp h
      cases hresult
      rw [setCurrentLinkDestCallSign_eq hrun]
      rfl
  | clearCurrentLinkDestAddress =>
      cases h
      rfl

/-- A link address is complete or all zeros. -/
def LinkState.Settled (s : LinkState) : Prop :=
  s.currentLinkDestAddr.length = ax25DestAddrBytes ∨ s.currentLinkDestAddr = Ax25Addr.zero

theorem LinkState.connected_length (s : LinkState) :
    s.connected.currentLinkDestAddr.length = ax25DestAddrBytes := by
  simp only [LinkState.connected]
  split_ifs with h
  · rfl
  · exact not_not.mp h

/-- A call keeps the link address complete or all zeros. -/
theorem LinkStep.settled {s t : LinkState} (hstep : LinkStep s t) (hs : s.Settled) : t.Settled := by
  obtain ⟨call, result, hrun, rfl⟩ := hstep
  rw [LinkState.Settled, LinkCall.exec_link hrun]
  cases call with
  | setCurrentLinkDestCallSign destCallSign destCallSignLength ssid =>
      simp only [LinkCall.linkAfter]
      cases CallSign.ofArguments destCallSign destCallSignLength.toNat ssid with
      | none => exact .inr rfl
      | some callSign => exact .inl rfl
  | clearCurrentLinkDestAddress => exact .inr rfl
  | recv unstuffedPacket command =>
      simp only [LinkCall.linkAfter]
      cases LinkCall.sabmSender result.err (.recv unstuffedPacket command) with
      | none => exact hs
      | some sender => exact .inl s.connected_length
  | sendIFrame telemData telemDataLen ax25Data => exact hs
  | sendIFrameWithFlagSharing n telemData telemDataLen ax25Data ax25DataLen destAddress => exact hs
  | sendUFrame ax25Data cmd pollFinalBit => exact hs

theorem Reachable.settled {s : LinkState} (h : Reachable s) : s.Settled := by
  induction h with
  | refl => exact .inr rfl
  | tail _ hstep ih => exact hstep.settled ih

end ObcGsInterface
