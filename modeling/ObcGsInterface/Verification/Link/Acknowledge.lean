import ObcGsInterface.Verification.Link.Calls
import ObcGsInterface.Verification.Link.Frames

/-! # Who can acknowledge and disconnect

`uFrameRecv` compares the sender of a DISC or ACK with the link address but not with its
length, and the address is all zeros while there is no link. -/

namespace ObcGsInterface

open CArray

/-- The six bytes of the call sign that a packet comes from. -/
def UnstuffedAx25IFrame.sourceCallSign (packet : UnstuffedAx25IFrame) : List Byte :=
  packet.field ax25SrcAddrPosition callSignBytes

/-- A packet that passes the checks and is a DISC or an ACK by its control byte. -/
def UnstuffedAx25IFrame.EndsLink (packet : UnstuffedAx25IFrame) : Prop :=
  packet.Accepted ∧
    (packet.uControl = ax25UFrameDiscCmdControl ∨ packet.uControl = ax25UFrameAckCmdControl)

/-- A packet is handled as a DISC or an ACK only if a link address is set and the packet
comes from its call sign. -/
def OnlyFromPeer (s : LinkState) (packet : UnstuffedAx25IFrame) : Prop :=
  ∀ result, ax25Recv s (some packet) none = .ok result → result.err = .success →
    result.output = some .disc ∨ result.output = some .ack →
    s.currentLinkDestAddr.length = ax25DestAddrBytes ∧
      packet.sourceCallSign = s.currentLinkDestAddr.data.cells.take callSignBytes

theorem sourceIsLink_iff (s : LinkState) (packet : UnstuffedAx25IFrame) :
    sourceIsLink s packet ↔
      packet.sourceCallSign = s.currentLinkDestAddr.data.cells.take callSignBytes := Iff.rfl

/-- A valid DISC or ACK is handled exactly when it comes from the link address, set or not. -/
theorem UnstuffedAx25IFrame.EndsLink.handled {packet : UnstuffedAx25IFrame}
    (h : packet.EndsLink) (s : LinkState) :
    (∃ result, ax25Recv s (some packet) none = .ok result ∧ result.err = .success ∧
      (result.output = some .disc ∨ result.output = some .ack)) ↔ sourceIsLink s packet := by
  have hknown : packet.uControl ∈ uFrameControls := by
    rcases h.2 with hcontrol | hcontrol <;> rw [hcontrol] <;> decide
  rw [ax25Recv_of_uFrame h.1 hknown, uFrameRecv_eq]
  rcases h.2 with hcontrol | hcontrol
  · rw [hcontrol, if_neg (by decide), if_pos rfl]
    by_cases hsource : sourceIsLink s packet
    · simp [hsource]
    · simp [hsource]
  · rw [hcontrol, if_neg (by decide), if_neg (by decide), if_pos rfl]
    by_cases hsource : sourceIsLink s packet
    · simp [hsource]
    · simp [hsource]

/-- What is handled as a DISC or an ACK is a valid one from the link address, set or not. -/
theorem endsLink_of_handled {s : LinkState} {packet : UnstuffedAx25IFrame}
    {result : LinkResult (Option UFrameCmd)} (hrun : ax25Recv s (some packet) none = .ok result)
    (houtput : result.output = some .disc ∨ result.output = some .ack) :
    packet.EndsLink ∧ sourceIsLink s packet := by
  obtain ⟨received, hreceived, hcases⟩ := ax25Recv_received s packet none
  rw [hrun, Except.ok.injEq] at hreceived
  subst hreceived
  cases hcases with
  | ignored err known => simp at houtput
  | iFrame accepted unknown => simp at houtput
  | sabm accepted control => simp at houtput
  | disc accepted control source => exact ⟨⟨accepted, .inl control⟩, source⟩
  | ack accepted control source => exact ⟨⟨accepted, .inr control⟩, source⟩

/-- **Who can acknowledge and disconnect.** In every reachable state the packets that are
handled though no peer sent them are the valid DISC and ACK packets from a source call sign
of zeros, while no link address is set. -/
theorem only_peer_endsLink {s : LinkState} (hs : Reachable s) (packet : UnstuffedAx25IFrame) :
    OnlyFromPeer s packet ↔
      s.currentLinkDestAddr.length = ax25DestAddrBytes ∨
        ¬ (packet.EndsLink ∧ packet.sourceCallSign = List.replicate callSignBytes 0) := by
  constructor
  · intro honly
    by_contra hcond
    obtain ⟨hlength, hforged⟩ := not_or.mp hcond
    obtain ⟨hends, hzero⟩ := not_not.mp hforged
    have hsource : sourceIsLink s packet := by
      rw [sourceIsLink_iff, hs.settled.resolve_left hlength, hzero]
      rfl
    obtain ⟨result, hrun, herr, houtput⟩ := (hends.handled s).mpr hsource
    exact hlength (honly result hrun herr houtput).1
  · intro hcond result hrun _ houtput
    obtain ⟨hends, hsource⟩ := endsLink_of_handled hrun houtput
    rcases hs.settled with hlength | hzero
    · exact ⟨hlength, hsource⟩
    · refine ⟨hcond.resolve_right (not_not.mpr ⟨hends, ?_⟩), hsource⟩
      rw [(sourceIsLink_iff s packet).mp hsource, hzero]
      rfl

/-- A DISC to the satellite from a source address of zeros. -/
def forgedDisc : UnstuffedAx25IFrame :=
  sealedPacket (cubeSatDest ++ List.replicate ax25SrcAddrBytes 0 ++ [ax25UFrameDiscCmdControl])
    (by decide)

theorem forgedDisc_endsLink : forgedDisc.EndsLink :=
  ⟨⟨by decide, by decide, .inl rfl, (sealed_sealedPacket _ _).fcs_eq⟩, .inl rfl⟩

theorem only_peer_endsLink_initial :
    OnlyFromPeer LinkState.initial forgedDisc ↔
      LinkState.initial.currentLinkDestAddr.length = ax25DestAddrBytes ∨
        ¬ (forgedDisc.EndsLink ∧ forgedDisc.sourceCallSign = List.replicate callSignBytes 0) :=
  only_peer_endsLink .refl forgedDisc

/-- At start-up, a DISC from a source address of zeros is handled. -/
theorem only_peer_endsLink_fails :
    ¬ ∀ s, Reachable s → ∀ packet, OnlyFromPeer s packet := by
  intro h
  have hsource : sourceIsLink LinkState.initial forgedDisc := rfl
  obtain ⟨result, hrun, herr, houtput⟩ := (forgedDisc_endsLink.handled LinkState.initial).mpr hsource
  exact absurd (h LinkState.initial .refl forgedDisc result hrun herr houtput).1 (by decide)

end ObcGsInterface
