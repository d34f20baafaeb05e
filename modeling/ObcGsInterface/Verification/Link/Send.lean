import ObcGsInterface.Library.BigEndian
import ObcGsInterface.Verification.Link.Addresses
import ObcGsInterface.Verification.Stuffing.RoundTrip

/-! # Sending

The frames that `ax25SendIFrame` and `ax25SendUFrame` build, as byte strings. -/

namespace ObcGsInterface

open CArray BigEndian BitStream BitStuffing

/-! ## Frames as byte strings -/

/-- The check sequence that follows the body of a frame. -/
def checkSequence (body : List Byte) : List Byte := bytes16 (reverseUint16 (crcOf body))

/-- A body between its flags, with its check sequence. -/
def sealFrame (body : List Byte) : List Byte :=
  ax25Flag :: (body ++ (checkSequence body ++ [ax25Flag]))

/-- The body of a frame from the ground station: addresses and control byte, then `rest`. -/
def frameBody (dest : List Byte) (control : Byte) (rest : List Byte) : List Byte :=
  dest ++ (groundSource ++ control :: rest)

@[simp] theorem length_checkSequence (body : List Byte) : (checkSequence body).length = 2 := rfl

@[simp] theorem length_frameBody (dest : List Byte) (control : Byte) (rest : List Byte) :
    (frameBody dest control rest).length = dest.length + rest.length + 8 := by
  simp [frameBody, groundSource]
  omega

@[simp] theorem length_sealFrame (body : List Byte) :
    (sealFrame body).length = body.length + 4 := by
  simp [sealFrame]

theorem low_byte (fcs : BitVec 16) : (fcs &&& 0xFF).setWidth 8 = (fcs.setWidth 8 : Byte) := by
  change (fcs &&& (BitVec.allOnes 8).setWidth 16).setWidth 8 = (fcs.setWidth 8 : Byte)
  ext i hi
  rw [BitVec.getElem_setWidth, BitVec.getLsbD_and, BitVec.getLsbD_setWidth, BitVec.getLsbD_allOnes,
    BitVec.getElem_setWidth]
  have hwide : i < 16 := by omega
  simp [hi, hwide]

theorem fcsCalculate_append {body rest : List Byte} {dataLen : ℕ}
    (h : fcsLength dataLen = body.length) :
    fcsCalculate (body ++ rest) dataLen = .ok (reverseUint16 (crcOf body)) := by
  rw [fcsCalculate, h, calculateCrc16Ccitt_eq (by simp), List.take_left]
  rfl

/-- The opening flag and the two addresses, written from `start` on. -/
theorem store_addresses {n start : ℕ} {block : Block Byte n} {front rest dest : List Byte}
    (hcells : block.cells =
      front ++ 0 :: (List.replicate 7 0 ++ (List.replicate 7 0 ++ rest)))
    (hfront : front.length = start) (hdest : dest.length = ax25DestAddrBytes) :
    ∃ b₁ b₂ b₃ : Block Byte n,
      block.store start ax25Flag = .ok b₁ ∧
      b₁.memcpy (start + ax25DestAddrPosition) dest ax25DestAddrBytes = .ok b₂ ∧
      b₂.memcpy (start + ax25SrcAddrPosition) groundSource ax25SrcAddrBytes = .ok b₃ ∧
      b₃.cells = (front ++ ax25Flag :: (dest ++ groundSource)) ++ rest := by
  rcases Block.store_append ax25Flag hcells hfront with ⟨b₁, hb₁, c₁⟩
  have h₁ : b₁.cells =
      (front ++ [ax25Flag]) ++ (List.replicate 7 0 ++ (List.replicate 7 0 ++ rest)) := by
    rw [c₁, List.append_assoc, List.singleton_append]
  have hflag : (front ++ [ax25Flag]).length = start + ax25DestAddrPosition := by
    rw [List.length_append, hfront]
    rfl
  rcases Block.memcpy_append h₁ hflag (Nat.le_of_eq hdest.symm)
    (List.length_replicate : _ = ax25DestAddrBytes) with ⟨b₂, hb₂, c₂⟩
  rw [List.take_of_length_le (Nat.le_of_eq hdest)] at c₂
  have h₂ : b₂.cells = (front ++ ax25Flag :: dest) ++ (List.replicate 7 0 ++ rest) := by
    rw [c₂]
    simp
  have haddress : (front ++ ax25Flag :: dest).length = start + ax25SrcAddrPosition := by
    rw [List.length_append, hfront, List.length_cons, hdest]
    rfl
  have hsource : ax25SrcAddrBytes ≤ groundSource.length := Nat.le_refl 7
  rcases Block.memcpy_append h₂ haddress hsource
    (List.length_replicate : _ = ax25SrcAddrBytes) with ⟨b₃, hb₃, c₃⟩
  refine ⟨b₁, b₂, b₃, hb₁, hb₂, hb₃, ?_⟩
  rw [c₃]
  simp [groundSource, ax25SrcAddrBytes]

/-- The control byte comes right behind the flag and the two addresses. -/
theorem length_addresses {dest : List Byte} (hdest : dest.length = ax25DestAddrBytes) :
    (ax25Flag :: (dest ++ groundSource)).length = ax25ControlBytesPosition := by
  rw [List.length_cons, List.length_append, hdest]
  rfl

/-- The two bytes of a check sequence, written behind `front`. -/
theorem store_fcs {n pos : ℕ} {block : Block Byte n} {front rest : List Byte} {old₁ old₂ : Byte}
    (fcs : BitVec 16) (hcells : block.cells = front ++ old₁ :: old₂ :: rest)
    (hpos : front.length = pos) :
    ∃ b₁ b₂ : Block Byte n,
      block.store pos ((fcs >>> 8).setWidth 8) = .ok b₁ ∧
      b₁.store (pos + 1) ((fcs &&& 0xFF).setWidth 8) = .ok b₂ ∧
      b₂.cells = front ++ (bytes16 fcs ++ rest) := by
  obtain ⟨b₁, hb₁, c₁⟩ := Block.store_append ((fcs >>> 8).setWidth 8) hcells hpos
  have h₁ : b₁.cells = (front ++ [(fcs >>> 8).setWidth 8]) ++ old₂ :: rest := by
    rw [c₁, List.append_assoc, List.singleton_append]
  have hnext : (front ++ [(fcs >>> 8).setWidth 8]).length = pos + 1 := by
    rw [List.length_append, hpos, List.length_singleton]
  obtain ⟨b₂, hb₂, c₂⟩ := Block.store_append ((fcs &&& 0xFF).setWidth 8) h₁ hnext
  refine ⟨b₁, b₂, hb₁, hb₂, ?_⟩
  rw [c₂, bytes16, low_byte]
  simp

/-- Storing a check sequence and the closing flag behind a body completes the frame. -/
theorem store_checkSequence {n pos : ℕ} {block : Block Byte n} {body rest : List Byte}
    {first old₁ old₂ old₃ : Byte}
    (hcells : block.cells = first :: (body ++ old₁ :: old₂ :: old₃ :: rest))
    (hpos : body.length + 1 = pos) :
    ∃ b₁ b₂ b₃ : Block Byte n,
      block.store pos ((reverseUint16 (crcOf body) >>> 8).setWidth 8) = .ok b₁ ∧
      b₁.store (pos + 1) ((reverseUint16 (crcOf body) &&& 0xFF).setWidth 8) = .ok b₂ ∧
      b₂.store (pos + 2) ax25Flag = .ok b₃ ∧
      b₃.cells = first :: (body ++ (checkSequence body ++ ax25Flag :: rest)) := by
  have hfront : block.cells = (first :: body) ++ old₁ :: old₂ :: old₃ :: rest := hcells
  obtain ⟨b₁, b₂, hb₁, hb₂, c₂⟩ := store_fcs (reverseUint16 (crcOf body)) hfront hpos
  rw [← checkSequence] at c₂
  have h₂ : b₂.cells = ((first :: body) ++ checkSequence body) ++ old₃ :: rest := by
    rw [c₂, List.append_assoc]
  obtain ⟨b₃, hb₃, c₃⟩ := Block.store_append ax25Flag h₂
    (show ((first :: body) ++ checkSequence body).length = pos + 2 by simp [hpos])
  refine ⟨b₁, b₂, b₃, hb₁, hb₂, hb₃, ?_⟩
  rw [c₃, List.append_assoc]
  rfl

/-! ## I frames -/

/-- A counter as `ax25SendIFrame` resets it. -/
def clampCounter (n : Byte) : Byte := if n.toNat ≥ maxContinuousPacketsAllowed then 0 else n

theorem clampCounter_lt (n : Byte) : (clampCounter n).toNat < 7 := by
  have hmax : maxContinuousPacketsAllowed = 7 := rfl
  by_cases h : n.toNat ≥ maxContinuousPacketsAllowed
  · rw [clampCounter, if_pos h]
    decide
  · rw [clampCounter, if_neg h]
    omega

/-- The counters as `ax25SendIFrame` resets them. -/
def LinkState.clamped (s : LinkState) : LinkState :=
  { s with
    pktSentNum := clampCounter s.pktSentNum
    pktReceiveNum := clampCounter s.pktReceiveNum }

/-- The state after an I frame has been sent. -/
def LinkState.sent (s : LinkState) : LinkState :=
  { s.clamped with pktSentNum := s.clamped.pktSentNum + 1 }

/-- The control byte of an I frame. -/
def LinkState.iControl (s : LinkState) : Byte :=
  (s.clamped.pktReceiveNum <<< 5) ||| (s.clamped.pktSentNum <<< 1)

/-- Data filled up with zeros to an information field. -/
def infoField (data : List Byte) : List Byte :=
  data ++ List.replicate (ax25InfoBytes - data.length) 0

/-- The body of an I frame. -/
def iFrameBody (dest : List Byte) (control : Byte) (info : List Byte) : List Byte :=
  frameBody dest control (ax25Pid :: info)

theorem length_infoField {data : List Byte} (h : data.length ≤ ax25InfoBytes) :
    (infoField data).length = ax25InfoBytes := by
  rw [infoField, List.length_append, List.length_replicate]
  omega

/-- The control byte, the PID and the data of an I frame, written behind its addresses. -/
theorem store_iFrameBody {n count : ℕ} {block : Block Byte n} {dest values rest : List Byte}
    (control : Byte)
    (hcells : block.cells = (ax25Flag :: (dest ++ groundSource)) ++ 0 :: 0 ::
      (List.replicate count 0 ++ (List.replicate (ax25InfoBytes - count) 0 ++ rest)))
    (hdest : dest.length = ax25DestAddrBytes) (hread : count ≤ values.length) :
    ∃ b₁ b₂ b₃ : Block Byte n,
      block.store ax25ControlBytesPosition control = .ok b₁ ∧
      b₁.store ax25Mod8PidPosition ax25Pid = .ok b₂ ∧
      b₂.memcpy ax25InfoFieldPosition values count = .ok b₃ ∧
      b₃.cells = ax25Flag :: (iFrameBody dest control (infoField (values.take count)) ++ rest) := by
  obtain ⟨b₁, hb₁, c₁⟩ := Block.store_append control hcells (length_addresses hdest)
  have h₁ : b₁.cells = (ax25Flag :: (dest ++ groundSource ++ [control])) ++ 0 ::
      (List.replicate count 0 ++ (List.replicate (ax25InfoBytes - count) 0 ++ rest)) := by
    rw [c₁]
    simp
  have hpid : (ax25Flag :: (dest ++ groundSource ++ [control])).length = ax25Mod8PidPosition := by
    rw [List.length_cons, List.length_append, List.length_append, hdest]
    rfl
  obtain ⟨b₂, hb₂, c₂⟩ := Block.store_append ax25Pid h₁ hpid
  have h₂ : b₂.cells = (ax25Flag :: (dest ++ groundSource ++ [control] ++ [ax25Pid])) ++
      (List.replicate count 0 ++ (List.replicate (ax25InfoBytes - count) 0 ++ rest)) := by
    rw [c₂]
    simp
  have hinfo : (ax25Flag :: (dest ++ groundSource ++ [control] ++ [ax25Pid])).length =
      ax25InfoFieldPosition := by
    rw [List.length_cons, List.length_append, List.length_append, List.length_append, hdest]
    rfl
  obtain ⟨b₃, hb₃, c₃⟩ := Block.memcpy_append h₂ hinfo hread List.length_replicate
  refine ⟨b₁, b₂, b₃, hb₁, hb₂, hb₃, ?_⟩
  rw [c₃, iFrameBody, frameBody, infoField, List.length_take, Nat.min_eq_left hread]
  simp

/-- With a link address, `ax25SendIFrame` builds the sealed body and counts the frame. -/
theorem ax25SendIFrame_eq {s : LinkState} {telemData : List Byte} {telemDataLen : ℕ}
    (out : UnstuffedAx25IFrame) (hlink : s.currentLinkDestAddr.length = ax25DestAddrBytes)
    (hlen : telemDataLen ≤ ax25InfoBytes) (hread : telemDataLen ≤ telemData.length) :
    ∃ frame, ax25SendIFrame s (some telemData) telemDataLen (some out) =
        .ok ⟨.success, some frame, s.sent⟩ ∧
      frame.length = ax25MinimumIFrameLen ∧
      frame.data.cells = sealFrame (iFrameBody s.currentLinkDestAddr.data.cells s.iControl
        (infoField (telemData.take telemDataLen))) := by
  have hmin : ax25MinimumIFrameLen = 1 + (7 + (7 + (1 + (1 + (telemDataLen +
      (ax25InfoBytes - telemDataLen + 3)))))) := by
    have hinfo : ax25InfoBytes = 255 := rfl
    have hframe : ax25MinimumIFrameLen = 275 := rfl
    omega
  have hdest := s.currentLinkDestAddr.data.length_cells
  set dest := s.currentLinkDestAddr.data.cells with hdestEq
  have h₀ : (Block.fill ax25MinimumIFrameLen (0 : Byte)).cells =
      [] ++ 0 :: (List.replicate 7 0 ++ (List.replicate 7 0 ++ 0 :: 0 ::
        (List.replicate telemDataLen 0 ++
          (List.replicate (ax25InfoBytes - telemDataLen) 0 ++ [0, 0, 0])))) := by
    rw [Block.cells_fill, hmin]
    simp only [List.replicate_add]
    rfl
  rcases store_addresses h₀ (rfl : _ = 0) hdest with ⟨b₁, b₂, b₃, hb₁, hb₂, hb₃, h₃⟩
  rw [Nat.zero_add] at hb₂ hb₃
  rw [List.nil_append] at h₃
  obtain ⟨b₄, b₅, b₆, hb₄, hb₅, hb₆, h₆⟩ := store_iFrameBody s.iControl h₃ hdest hread
  set body := iFrameBody dest s.iControl (infoField (telemData.take telemDataLen)) with hbody
  have hlength : body.length + 1 = ax25IFrameFcsPosition := by
    have hinfo : (telemData.take telemDataLen).length ≤ ax25InfoBytes := by
      rw [List.length_take]
      omega
    rw [hbody, iFrameBody, length_frameBody, List.length_cons, length_infoField hinfo, hdest]
    rfl
  have hfcs : fcsCalculate (b₆.cells.drop ax25StartFlagBytes) ax25MinimumIFrameLen =
      .ok (reverseUint16 (crcOf body)) := by
    rw [h₆]
    apply fcsCalculate_append
    rw [← Nat.succ_inj, Nat.succ_eq_add_one, Nat.succ_eq_add_one, hlength]
    rfl
  obtain ⟨b₇, b₈, b₉, hb₇, hb₈, hb₉, c₉⟩ := store_checkSequence h₆ hlength
  have hlast : ax25MinimumIFrameLen - 1 = ax25IFrameFcsPosition + 2 := rfl
  have h₉ : b₉.cells = [] ++ ax25Flag :: (body ++ (checkSequence body ++ [ax25Flag])) := c₉
  obtain ⟨b₁₀, hb₁₀, c₁₀⟩ := Block.store_append ax25Flag h₉ (rfl : _ = 0)
  refine ⟨⟨b₁₀, ax25MinimumIFrameLen⟩, ?_, rfl, c₁₀⟩
  have hcontrol : b₃.store ax25ControlBytesPosition
      ((if s.pktReceiveNum.toNat ≥ maxContinuousPacketsAllowed then 0 else s.pktReceiveNum) <<< 5 |||
        (if s.pktSentNum.toNat ≥ maxContinuousPacketsAllowed then 0 else s.pktSentNum) <<< 1) =
      .ok b₄ := hb₄
  simp only [ax25SendIFrame, ne_eq, hlink, not_true_eq_false, if_false, Nat.lt_irrefl,
    Block.memset_all, groundStationSrcAddr_eq, ok_bind, hb₁, ← hdestEq, hb₂, hb₃, hcontrol, hb₅,
    hb₆, hfcs, hb₇, hb₈, hlast, hb₉, hb₁₀]
  rfl

/-- With a link address, a frame without data can always be sent. -/
theorem ax25SendIFrame_empty {s : LinkState}
    (hlink : s.currentLinkDestAddr.length = ax25DestAddrBytes) :
    ∃ frame, ax25SendIFrame s (some []) 0 (some ⟨Block.fill _ 0, 0⟩) =
        .ok ⟨.success, some frame, s.sent⟩ ∧
      frame.length = ax25MinimumIFrameLen ∧
      frame.data.cells = sealFrame (iFrameBody s.currentLinkDestAddr.data.cells s.iControl
        (infoField [])) :=
  ax25SendIFrame_eq _ hlink (Nat.zero_le _) (Nat.zero_le _)

/-- The results of `ax25SendIFrame`. -/
inductive SentIFrame (s : LinkState) (telemData : Option (List Byte)) (telemDataLen : ℕ)
    (ax25Data : Option UnstuffedAx25IFrame) : LinkResult (Option UnstuffedAx25IFrame) → Prop where
  | rejected (missing : telemData = none ∨ ax25Data = none ∨
      s.currentLinkDestAddr.length ≠ ax25DestAddrBytes) :
      SentIFrame s telemData telemDataLen ax25Data ⟨.invalidArg, ax25Data, s⟩
  | sent (data : List Byte) (frame : UnstuffedAx25IFrame) (data_eq : telemData = some data)
      (link : s.currentLinkDestAddr.length = ax25DestAddrBytes) (read : telemDataLen ≤ data.length)
      (length_eq : frame.length = ax25MinimumIFrameLen)
      (cells_eq : frame.data.cells = sealFrame (iFrameBody s.currentLinkDestAddr.data.cells
        s.iControl (infoField (data.take telemDataLen)))) :
      SentIFrame s telemData telemDataLen ax25Data ⟨.success, some frame, s.sent⟩

/-- A call that returns has read its data. -/
theorem ax25SendIFrame_reads {s : LinkState} {telemData : List Byte} {telemDataLen : ℕ}
    {out : UnstuffedAx25IFrame} {result : LinkResult (Option UnstuffedAx25IFrame)}
    (hlink : s.currentLinkDestAddr.length = ax25DestAddrBytes)
    (h : ax25SendIFrame s (some telemData) telemDataLen (some out) = .ok result) :
    telemDataLen ≤ telemData.length := by
  simp only [ax25SendIFrame, ne_eq, hlink, not_true_eq_false, if_false, Nat.lt_irrefl,
    bind_eq_ok] at h
  obtain ⟨_, -, _, -, _, -, _, -, _, -, _, -, _, -, _, hcopy, -⟩ := h
  exact (Block.memcpy_in_bounds hcopy).1

theorem ax25SendIFrame_sent {s : LinkState} {telemData : Option (List Byte)} {telemDataLen : ℕ}
    {ax25Data : Option UnstuffedAx25IFrame} {result : LinkResult (Option UnstuffedAx25IFrame)}
    (hlen : telemDataLen ≤ ax25InfoBytes)
    (h : ax25SendIFrame s telemData telemDataLen ax25Data = .ok result) :
    SentIFrame s telemData telemDataLen ax25Data result := by
  cases telemData with
  | none =>
      cases h
      exact .rejected (.inl rfl)
  | some telemData =>
      cases ax25Data with
      | none =>
          cases h
          exact .rejected (.inr (.inl rfl))
      | some out =>
          by_cases hlink : s.currentLinkDestAddr.length = ax25DestAddrBytes
          · have hread := ax25SendIFrame_reads hlink h
            obtain ⟨frame, hrun, hlength, hcells⟩ := ax25SendIFrame_eq out hlink hlen hread
            rw [h, Except.ok.injEq] at hrun
            rw [hrun]
            exact .sent telemData frame rfl hlink hread hlength hcells
          · simp only [ax25SendIFrame, ne_eq, hlink, not_false_eq_true, if_true] at h
            cases h
            exact .rejected (.inr (.inr hlink))

/-! ## U frames -/

/-- The control byte of a U frame. -/
def uControlByte (cmd : ℕ) (pollFinalBit : Byte) : Byte :=
  (pollFinalBit <<< pollFinalBitOffset) ||| uFrameControl cmd

/-- The body of a U frame. -/
def uFrameBody (dest : List Byte) (cmd : ℕ) (pollFinalBit : Byte) : List Byte :=
  frameBody dest (uControlByte cmd pollFinalBit) []

/-- A packed frame is the stuffed form of a sealed body. -/
structure Packed (body : List Byte) (frame : PackedAx25UFrame) : Prop where
  length_eq : frame.length = byteCount (stuff 5 (bits (body ++ checkSequence body))) + 2
  cells_eq : frame.data.cells = ax25Flag ::
    (pack (stuff 5 (bits (body ++ checkSequence body))) ++
      ax25Flag :: List.replicate (ax25MaximumUFrameCmdLength - frame.length) 0)

/-- The results of `ax25SendUFrame`, which never leaves its buffers. -/
inductive SentUFrame (s : LinkState) (ax25Data : Option PackedAx25UFrame) (cmd : ℕ)
    (pollFinalBit : Byte) : LinkResult (Option PackedAx25UFrame) → Prop where
  | rejected (missing : cmd > maxUFrameCmdValue ∨ ax25Data = none ∨ pollFinalBit.toNat > 1 ∨
      s.currentLinkDestAddr.length ≠ ax25DestAddrBytes) :
      SentUFrame s ax25Data cmd pollFinalBit ⟨.invalidArg, ax25Data, s⟩
  | sent (frame : PackedAx25UFrame) (link : s.currentLinkDestAddr.length = ax25DestAddrBytes)
      (packed : Packed (uFrameBody s.currentLinkDestAddr.data.cells cmd pollFinalBit) frame) :
      SentUFrame s ax25Data cmd pollFinalBit ⟨.success, some frame, s⟩

/-- The control byte of a U frame, written behind its addresses: the poll/final bit, and the
command ORed into it. -/
theorem store_uFrameBody {n : ℕ} {block : Block Byte n} {dest rest : List Byte} (cmd : ℕ)
    (pollFinalBit : Byte) (hcells : block.cells = (ax25Flag :: (dest ++ groundSource)) ++ 0 :: rest)
    (hdest : dest.length = ax25DestAddrBytes) :
    ∃ b₁ b₂ : Block Byte n,
      block.store ax25ControlBytesPosition (pollFinalBit <<< pollFinalBitOffset) = .ok b₁ ∧
      orInto b₁ ax25ControlBytesPosition (uFrameControl cmd) = .ok b₂ ∧
      b₂.cells = ax25Flag :: (uFrameBody dest cmd pollFinalBit ++ rest) := by
  have hcontrol := length_addresses hdest
  obtain ⟨b₁, hb₁, c₁⟩ := Block.store_append (pollFinalBit <<< pollFinalBitOffset) hcells hcontrol
  obtain ⟨b₂, hb₂, c₂⟩ := Block.store_append (uControlByte cmd pollFinalBit) c₁ hcontrol
  have hold : load b₁.cells ax25ControlBytesPosition =
      .ok (pollFinalBit <<< pollFinalBitOffset) := by
    rw [load_eq_ok, c₁, ← hcontrol, List.getElem?_append_right (Nat.le_refl _), Nat.sub_self]
    rfl
  refine ⟨b₁, b₂, hb₁, ?_, ?_⟩
  · rw [orInto, hold, ok_bind]
    exact hb₂
  · rw [c₂, uFrameBody, frameBody]
    simp

theorem ax25SendUFrame_eq {s : LinkState} {cmd : ℕ} {pollFinalBit : Byte} (out : PackedAx25UFrame)
    (hlink : s.currentLinkDestAddr.length = ax25DestAddrBytes) (hcmd : cmd ≤ maxUFrameCmdValue)
    (hpoll : pollFinalBit.toNat ≤ 1) :
    ∃ frame, ax25SendUFrame s (some out) cmd pollFinalBit = .ok ⟨.success, some frame, s⟩ ∧
      Packed (uFrameBody s.currentLinkDestAddr.data.cells cmd pollFinalBit) frame := by
  have hdest := s.currentLinkDestAddr.data.length_cells
  set dest := s.currentLinkDestAddr.data.cells with hdestEq
  have h₀ : (Block.fill ax25MinimumUFrameCmdLength (0 : Byte)).cells =
      [] ++ 0 :: (List.replicate 7 0 ++ (List.replicate 7 0 ++ [0, 0, 0, 0])) := rfl
  rcases store_addresses h₀ (rfl : _ = 0) hdest with ⟨b₁, b₂, b₃, hb₁, hb₂, hb₃, h₃⟩
  rw [Nat.zero_add] at hb₂ hb₃
  rw [List.nil_append] at h₃
  obtain ⟨b₄, b₅, hb₄, hb₅, h₅⟩ := store_uFrameBody cmd pollFinalBit h₃ hdest
  set body := uFrameBody dest cmd pollFinalBit with hbody
  have hlength : body.length + 1 = ax25UFrameFcsPosition := by
    rw [hbody, uFrameBody, length_frameBody, hdest]
    rfl
  have hsixteen : ax25UFrameFcsPosition = 16 := rfl
  have hfcs : fcsCalculate (b₅.cells.drop 1) ax25MinimumUFrameCmdLength =
      .ok (reverseUint16 (crcOf body)) := by
    rw [h₅]
    apply fcsCalculate_append
    have hfifteen : fcsLength ax25MinimumUFrameCmdLength = 15 := by decide
    omega
  obtain ⟨b₆, b₇, b₈, hb₆, hb₇, hb₈, c₈⟩ := store_checkSequence h₅ hlength
  have hcontent : (body ++ checkSequence body).length = 17 := by
    rw [List.length_append, length_checkSequence]
    omega
  have h₈ : ax25Flag :: ((body ++ checkSequence body) ++ [ax25Flag]) = b₈.cells := by
    rw [c₈, List.append_assoc]
  obtain ⟨result, hstuff, herr, hresultLength, hresultCells⟩ :=
    ax25Stuff_flags (by omega) (byteCount_stuff_le_uFrame hcontent)
  rw [h₈, hcontent] at hstuff
  have hwrap : result.stuffedDataLen % 2 ^ 8 = result.stuffedDataLen := by
    have hroom := byteCount_stuff_le_uFrame hcontent
    have hmax : ax25MaximumUFrameCmdLength = 37 := rfl
    exact Nat.mod_eq_of_lt (by omega)
  refine ⟨⟨result.stuffedData, result.stuffedDataLen⟩, ?_, hresultLength, hresultCells⟩
  have hlast : ax25MinimumUFrameCmdLength - 1 = ax25UFrameFcsPosition + 2 := by decide
  have hpacket : 17 + 2 = ax25MinimumUFrameCmdLength := by decide
  rw [hpacket] at hstuff
  simp only [ax25SendUFrame, ne_eq, hlink, not_true_eq_false, if_false, Nat.not_lt.mpr hcmd,
    Nat.not_lt.mpr hpoll, Block.memset_all, groundStationSrcAddr_eq, ok_bind, hb₁, ← hdestEq, hb₂,
    hb₃, hb₄, hb₅]
  rw [hfcs, ok_bind, hb₆, ok_bind, hb₇, ok_bind, hlast, hb₈, ok_bind, hstuff, ok_bind,
    if_neg (not_not.mpr herr), hwrap]
  rfl

theorem ax25SendUFrame_sent (s : LinkState) (ax25Data : Option PackedAx25UFrame) (cmd : ℕ)
    (pollFinalBit : Byte) :
    ∃ result, ax25SendUFrame s ax25Data cmd pollFinalBit = .ok result ∧
      SentUFrame s ax25Data cmd pollFinalBit result := by
  by_cases hcmd : cmd > maxUFrameCmdValue
  · exact ⟨_, if_pos hcmd, .rejected (.inl hcmd)⟩
  cases ax25Data with
  | none => exact ⟨_, if_neg hcmd, .rejected (.inr (.inl rfl))⟩
  | some out =>
      by_cases hlink : s.currentLinkDestAddr.length = ax25DestAddrBytes
      · by_cases hpoll : pollFinalBit.toNat > 1
        · refine ⟨⟨.invalidArg, some out, s⟩, ?_, .rejected (.inr (.inr (.inl hpoll)))⟩
          simp only [ax25SendUFrame, if_neg hcmd, ne_eq, hlink, not_true_eq_false, if_false,
            if_pos hpoll, pure_eq_ok]
        · obtain ⟨frame, hrun, hpacked⟩ :=
            ax25SendUFrame_eq out hlink (Nat.not_lt.mp hcmd) (Nat.not_lt.mp hpoll)
          exact ⟨_, hrun, .sent frame hlink hpacked⟩
      · refine ⟨⟨.invalidArg, some out, s⟩, ?_, .rejected (.inr (.inr (.inr hlink)))⟩
        simp only [ax25SendUFrame, if_neg hcmd, ne_eq, hlink, not_false_eq_true, if_true,
          pure_eq_ok]

end ObcGsInterface
