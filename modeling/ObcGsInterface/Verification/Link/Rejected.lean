import ObcGsInterface.Library.Trace
import ObcGsInterface.Verification.Link.Calls
import Mathlib.Logic.Function.Basic

/-! # Calls that fail

Every check of the entry points stands in front of the first write, so a call that fails has
left the static variables and its output alone. In a run the calls share their output
variables and buffers as well as the static variables, and failing calls can be taken out. -/

namespace ObcGsInterface

open CArray Trace

/-! ## Single calls -/

/-- What the output argument of a call holds before the call. -/
def LinkCall.argument : LinkCall → LinkOutput
  | .recv _ command => .command command
  | .sendIFrame _ _ ax25Data => .iFrame ax25Data
  | .sendIFrameWithFlagSharing n _ _ ax25Data _ _ => .burst n ax25Data
  | .sendUFrame ax25Data _ _ => .uFrame ax25Data
  | .setCurrentLinkDestCallSign _ _ _ => .nothing
  | .clearCurrentLinkDestAddress => .nothing

/-- A call that fails leaves the static variables and its output as they are. -/
theorem LinkCall.exec_fails {s : LinkState} {call : LinkCall} {result : LinkResult LinkOutput}
    (h : call.exec s = .ok result) (herr : result.err ≠ .success) :
    result.state = s ∧ result.output = call.argument := by
  cases call with
  | recv unstuffedPacket command =>
      cases unstuffedPacket with
      | none =>
          cases h
          exact ⟨rfl, rfl⟩
      | some packet =>
          rcases ax25Recv_received s packet command with ⟨received, hrun, hreceived⟩
          simp only [LinkCall.exec, hrun, ok_bind, pure_eq_ok, Except.ok.injEq] at h
          subst h
          cases hreceived with
          | ignored err known => exact ⟨rfl, rfl⟩
          | iFrame accepted unknown => exact absurd rfl herr
          | sabm accepted control => exact absurd rfl herr
          | disc accepted control source => exact absurd rfl herr
          | ack accepted control source => exact absurd rfl herr
  | sendIFrame telemData telemDataLen ax25Data =>
      rcases bind_eq_ok.mp h with ⟨sent, hrun, hresult⟩
      cases hresult
      cases ax25SendIFrame_sent (Nat.le_of_lt_succ telemDataLen.isLt) hrun with
      | rejected missing => exact ⟨rfl, rfl⟩
      | sent data frame => exact absurd rfl herr
  | sendIFrameWithFlagSharing n telemData telemDataLen ax25Data ax25DataLen destAddress =>
      rcases bind_eq_ok.mp h with ⟨sent, hrun, hresult⟩
      cases hresult
      rcases ax25SendIFrameWithFlagSharing_cases hrun with hrejected | hsent
      · rw [hrejected]
        exact ⟨rfl, rfl⟩
      · exact absurd hsent.1 herr
  | sendUFrame ax25Data cmd pollFinalBit =>
      rcases ax25SendUFrame_sent s ax25Data cmd.toNat pollFinalBit with ⟨sent, hrun, hsent⟩
      simp only [LinkCall.exec, hrun, ok_bind, pure_eq_ok, Except.ok.injEq] at h
      subst h
      cases hsent with
      | rejected missing => exact ⟨rfl, rfl⟩
      | sent frame link packed => exact absurd rfl herr
  | setCurrentLinkDestCallSign destCallSign destCallSignLength ssid =>
      rcases bind_eq_ok.mp h with ⟨t, hrun, hresult⟩
      cases hresult
      exact absurd rfl herr
  | clearCurrentLinkDestAddress =>
      cases h
      exact absurd rfl herr

/-! ## Calls through pointers -/

/-- The variables and buffers that output arguments point to. -/
structure LinkMemory where
  commands : ℕ → Option UFrameCmd
  iFrames : ℕ → UnstuffedAx25IFrame
  bursts : ℕ → (n : ℕ) × Block Byte n
  uFrames : ℕ → PackedAx25UFrame

/-- A call whose output argument is a pointer, `none` for `NULL`. The pointer to a command is
never `NULL`, as `ax25Recv` does not check it. -/
inductive LinkRequest where
  | recv (unstuffedPacket : Option UnstuffedAx25IFrame) (command : ℕ)
  | sendIFrame (telemData : Option (List Byte)) (telemDataLen : Byte) (ax25Data : Option ℕ)
  | sendIFrameWithFlagSharing (telemData : Option (List Byte)) (telemDataLen : BitVec 32)
      (ax25Data : Option ℕ) (ax25DataLen : BitVec 32) (destAddress : Option Ax25Addr)
  | sendUFrame (ax25Data : Option ℕ) (cmd pollFinalBit : Byte)
  | setCurrentLinkDestCallSign (destCallSign : Option (List Byte)) (destCallSignLength ssid : Byte)
  | clearCurrentLinkDestAddress

/-- The call with what its output argument points to. -/
def LinkRequest.call (memory : LinkMemory) : LinkRequest → LinkCall
  | .recv unstuffedPacket command => .recv unstuffedPacket (memory.commands command)
  | .sendIFrame telemData telemDataLen ax25Data =>
      .sendIFrame telemData telemDataLen (ax25Data.map memory.iFrames)
  | .sendIFrameWithFlagSharing telemData telemDataLen none ax25DataLen destAddress =>
      .sendIFrameWithFlagSharing 0 telemData telemDataLen none ax25DataLen destAddress
  | .sendIFrameWithFlagSharing telemData telemDataLen (some ax25Data) ax25DataLen destAddress =>
      .sendIFrameWithFlagSharing (memory.bursts ax25Data).1 telemData telemDataLen
        (some (memory.bursts ax25Data).2) ax25DataLen destAddress
  | .sendUFrame ax25Data cmd pollFinalBit =>
      .sendUFrame (ax25Data.map memory.uFrames) cmd pollFinalBit
  | .setCurrentLinkDestCallSign destCallSign destCallSignLength ssid =>
      .setCurrentLinkDestCallSign destCallSign destCallSignLength ssid
  | .clearCurrentLinkDestAddress => .clearCurrentLinkDestAddress

/-- The memory after the call has left `output` in its output argument. -/
def LinkRequest.store (memory : LinkMemory) : LinkRequest → LinkOutput → LinkMemory
  | .recv _ command, .command value =>
      { memory with commands := Function.update memory.commands command value }
  | .sendIFrame _ _ (some ax25Data), .iFrame (some frame) =>
      { memory with iFrames := Function.update memory.iFrames ax25Data frame }
  | .sendIFrameWithFlagSharing _ _ (some ax25Data) _ _, .burst n (some data) =>
      { memory with bursts := Function.update memory.bursts ax25Data ⟨n, data⟩ }
  | .sendUFrame (some ax25Data) _ _, .uFrame (some frame) =>
      { memory with uFrames := Function.update memory.uFrames ax25Data frame }
  | _, _ => memory

/-- Carry out a call through its pointer; what it returns and leaves there is the result. -/
def LinkRequest.exec (state : LinkState × LinkMemory) (request : LinkRequest) :
    Except Fault ((ErrorCode × LinkOutput) × (LinkState × LinkMemory)) := do
  let result ← (request.call state.2).exec state.1
  return ((result.err, result.output), (result.state, request.store state.2 result.output))

/-- The calls that may be taken out of a run: `ax25Recv` and the sending functions, when they
have returned an error code. -/
def LinkRequest.Rejected (request : LinkRequest) (result : ErrorCode × LinkOutput) : Prop :=
  result.1 ≠ .success ∧
    match request with
    | .setCurrentLinkDestCallSign _ _ _ => False
    | .clearCurrentLinkDestAddress => False
    | _ => True

/-- Storing what is already there changes nothing. -/
theorem LinkRequest.store_argument (memory : LinkMemory) (request : LinkRequest) :
    request.store memory (request.call memory).argument = memory := by
  cases request with
  | recv unstuffedPacket command =>
      simp [LinkRequest.store, LinkRequest.call, LinkCall.argument]
  | sendIFrame telemData telemDataLen ax25Data =>
      cases ax25Data <;> simp [LinkRequest.store, LinkRequest.call, LinkCall.argument]
  | sendIFrameWithFlagSharing telemData telemDataLen ax25Data ax25DataLen destAddress =>
      cases ax25Data <;> simp [LinkRequest.store, LinkRequest.call, LinkCall.argument]
  | sendUFrame ax25Data cmd pollFinalBit =>
      cases ax25Data <;> simp [LinkRequest.store, LinkRequest.call, LinkCall.argument]
  | setCurrentLinkDestCallSign destCallSign destCallSignLength ssid => rfl
  | clearCurrentLinkDestAddress => rfl

/-- A rejected call leaves the static variables and all of the memory as they are. -/
theorem LinkRequest.exec_rejected {state state' : LinkState × LinkMemory} {request : LinkRequest}
    {result : ErrorCode × LinkOutput} (h : request.exec state = .ok (result, state'))
    (hrejected : request.Rejected result) : state' = state := by
  rcases bind_eq_ok.mp h with ⟨called, hcall, hresult⟩
  cases hresult
  have hfails := LinkCall.exec_fails hcall hrejected.1
  rw [hfails.1, hfails.2, request.store_argument]

/-- **Failing calls leave no trace.** In any run, taking out any calls of `ax25Recv` and the
sending functions that have returned an error code leaves the return codes and outputs of all
other calls, and the final state, as they were; for a single such call nothing changes. -/
theorem rejected_calls_deleted :
    (∀ (start final : LinkState × LinkMemory) (requests : List LinkRequest)
      (history kept : List (LinkRequest × (ErrorCode × LinkOutput))),
      trace LinkRequest.exec start requests = .ok (history, final) →
      Deleted LinkRequest.Rejected history kept →
      trace LinkRequest.exec start (kept.map Prod.fst) = .ok (kept, final)) ∧
    ∀ (state state' : LinkState × LinkMemory) (request : LinkRequest)
      (result : ErrorCode × LinkOutput),
      request.exec state = .ok (result, state') → request.Rejected result → state' = state := by
  have hstep (state : LinkState × LinkMemory) (request : LinkRequest)
      (result : ErrorCode × LinkOutput) (state' : LinkState × LinkMemory)
      (h : LinkRequest.exec state request = .ok (result, state'))
      (hrejected : request.Rejected result) : state' = state :=
    LinkRequest.exec_rejected h hrejected
  refine ⟨?_, fun state state' request result => hstep state request result state'⟩
  intro start final requests history kept hrun hkept
  exact trace_of_deleted hstep hrun hkept

/-- A memory of zeros. -/
private def blankMemory : LinkMemory where
  commands := fun _ => none
  iFrames := fun _ => ⟨Block.fill _ 0, 0⟩
  bursts := fun _ => ⟨0, Block.fill 0 0⟩
  uFrames := fun _ => ⟨Block.fill _ 0, 0⟩

private theorem LinkRequest.exec_sendIFrame {s : LinkState} (memory : LinkMemory)
    {telemData : List Byte} {telemDataLen : Byte} (ax25Data : ℕ)
    (hlink : s.currentLinkDestAddr.length = ax25DestAddrBytes)
    (hread : telemDataLen.toNat ≤ telemData.length) :
    ∃ frame, LinkRequest.exec (s, memory) (.sendIFrame (some telemData) telemDataLen
        (some ax25Data)) =
      .ok ((.success, .iFrame (some frame)),
        (s.sent, { memory with iFrames := Function.update memory.iFrames ax25Data frame })) := by
  have hlen : telemDataLen.toNat ≤ ax25InfoBytes := Nat.le_of_lt_succ telemDataLen.isLt
  obtain ⟨frame, hrun, -⟩ := ax25SendIFrame_eq (memory.iFrames ax25Data) hlink hlen hread
  refine ⟨frame, ?_⟩
  simp only [LinkRequest.exec, LinkRequest.call, LinkCall.exec, Option.map_some, hrun, ok_bind]
  rfl

/-- A packet that is refused between two frames that are sent. -/
theorem rejected_calls_deleted_packet :
    let send₁ : LinkRequest := .sendIFrame (some [1, 2, 3]) 3 (some 0)
    let refused : LinkRequest := .recv (some ⟨Block.fill _ 0, 275⟩) 0
    let send₂ : LinkRequest := .sendIFrame (some [4]) 1 (some 0)
    ∃ first second final,
      trace LinkRequest.exec (⟨0, 0, cubeSatLink⟩, blankMemory) [send₁, refused, send₂] =
        .ok ([(send₁, (.success, .iFrame (some first))), (refused, (.invalidArg, .command none)),
          (send₂, (.success, .iFrame (some second)))], final) ∧
      trace LinkRequest.exec (⟨0, 0, cubeSatLink⟩, blankMemory) [send₁, send₂] =
        .ok ([(send₁, (.success, .iFrame (some first))),
          (send₂, (.success, .iFrame (some second)))], final) := by
  intro send₁ refused send₂
  obtain ⟨first, hfirst⟩ := @LinkRequest.exec_sendIFrame ⟨0, 0, cubeSatLink⟩ blankMemory [1, 2, 3] 3
    0 rfl (by decide)
  have hrefused (s : LinkState) (memory : LinkMemory) : LinkRequest.exec (s, memory) refused =
      .ok ((.invalidArg, .command (memory.commands 0)), (s, { memory with
        commands := Function.update memory.commands 0 (memory.commands 0) })) := rfl
  obtain ⟨second, hsecond⟩ := @LinkRequest.exec_sendIFrame (LinkState.sent ⟨0, 0, cubeSatLink⟩)
    { blankMemory with
      iFrames := Function.update blankMemory.iFrames 0 first
      commands := Function.update blankMemory.commands 0 none } [4] 1 0 rfl (by decide)
  have hrun : trace LinkRequest.exec (⟨0, 0, cubeSatLink⟩, blankMemory) [send₁, refused, send₂] =
      .ok ([(send₁, (.success, .iFrame (some first))), (refused, (.invalidArg, .command none)),
        (send₂, (.success, .iFrame (some second)))], _) :=
    trace_cons_eq_ok.mpr ⟨_, _, _, hfirst, trace_cons_eq_ok.mpr ⟨_, _, _, hrefused _ _,
      trace_cons_eq_ok.mpr ⟨_, _, _, hsecond, rfl, rfl⟩, rfl⟩, rfl⟩
  have hrejected : LinkRequest.Rejected refused (.invalidArg, .command none) := ⟨by decide, trivial⟩
  have hkept : Deleted LinkRequest.Rejected
      [(send₁, (.success, .iFrame (some first))), (refused, (.invalidArg, .command none)),
        (send₂, (.success, .iFrame (some second)))]
      [(send₁, (.success, .iFrame (some first))), (send₂, (.success, .iFrame (some second)))] :=
    .keep _ (.drop hrejected (.keep _ .nil))
  have hwithout := rejected_calls_deleted.1 _ _ _ _ _ hrun hkept
  rw [List.map_cons, List.map_cons, List.map_nil] at hwithout
  exact ⟨first, second, _, hrun, hwithout⟩

end ObcGsInterface
