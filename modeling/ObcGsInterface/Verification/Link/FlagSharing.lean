import ObcGsInterface.Model.Ax25.FlagSharing
import ObcGsInterface.Verification.Link.Send

/-! # The payload of a burst

Both the number of frames and the number of remaining bytes of a burst are kept in eight
bits, so frame `j` gets `(N + j) % 256` bytes of a payload of `N`. -/

namespace ObcGsInterface

open CArray BigEndian Loop

/-! ## Segments -/

/-- What an information field holds before data is copied into it: the PID was stored at its
first byte. -/
def restingInfo : List Byte := ax25Pid :: List.replicate (ax25InfoBytes - 1) 0

/-- An information field with data copied into it. -/
def shareInfo (chunk : List Byte) : List Byte := chunk ++ restingInfo.drop chunk.length

/-- A segment up to its check sequence. -/
def shareHead (dest : List Byte) (pktReceiveNum pktSentNum : Byte) (info : List Byte) : List Byte :=
  ax25Flag :: (dest ++ (groundSource ++ [pktReceiveNum <<< 1, pktSentNum <<< 1] ++ info))

/-- A segment; its check sequence covers 271 bytes from the flag on. -/
def shareSegment (dest : List Byte) (pktReceiveNum pktSentNum : Byte) (info : List Byte) :
    List Byte :=
  let head := shareHead dest pktReceiveNum pktSentNum info
  head ++ (checkSequence (head.take 271) ++ [0])

theorem length_restingInfo : restingInfo.length = ax25InfoBytes := by
  rw [restingInfo, List.length_cons, List.length_replicate]
  rfl

theorem length_shareInfo {chunk : List Byte} (h : chunk.length ≤ ax25InfoBytes) :
    (shareInfo chunk).length = ax25InfoBytes := by
  rw [shareInfo, List.length_append, List.length_drop, length_restingInfo]
  omega

theorem length_shareHead {dest info : List Byte} (pktReceiveNum pktSentNum : Byte)
    (hdest : dest.length = ax25DestAddrBytes) (hinfo : info.length = ax25InfoBytes) :
    (shareHead dest pktReceiveNum pktSentNum info).length = ax25IFrameFcsPosition := by
  simp only [shareHead, List.length_cons, List.length_append, hdest, hinfo]
  decide

theorem length_shareSegment {dest info : List Byte} (pktReceiveNum pktSentNum : Byte)
    (hdest : dest.length = ax25DestAddrBytes) (hinfo : info.length = ax25InfoBytes) :
    (shareSegment dest pktReceiveNum pktSentNum info).length = ax25MinimumIFrameLenShareFlag := by
  have hhead := length_shareHead pktReceiveNum pktSentNum hdest hinfo
  simp only [shareSegment, List.length_append, hhead, length_checkSequence, List.length_singleton]
  decide

/-- The counters, the PID and the information of a segment, written behind its addresses. The
information goes over the PID. -/
theorem store_shareHead {n start count : ℕ} {block : Block Byte n}
    {front dest values back : List Byte} (pktReceiveNum pktSentNum : Byte)
    (hcells : block.cells = (front ++ ax25Flag :: (dest ++ groundSource)) ++
      0 :: 0 :: 0 :: (List.replicate 254 0 ++ ([0, 0, 0] ++ back)))
    (hfront : front.length = start) (hdest : dest.length = ax25DestAddrBytes)
    (hread : count ≤ values.length) (hcount : count ≤ ax25InfoBytes) :
    ∃ b₁ b₂ b₃ b₄ : Block Byte n,
      block.store (start + ax25ControlBytesPosition) (pktReceiveNum <<< 1) = .ok b₁ ∧
      b₁.store (start + ax25ControlBytesPosition + 1) (pktSentNum <<< 1) = .ok b₂ ∧
      b₂.store (start + ax25Mod128PidPosition) ax25Pid = .ok b₃ ∧
      b₃.memcpy (start + ax25InfoFieldPosition) values count = .ok b₄ ∧
      b₄.cells = (front ++ shareHead dest pktReceiveNum pktSentNum
        (shareInfo (values.take count))) ++ 0 :: 0 :: ([0] ++ back) := by
  have hcontrol : (front ++ ax25Flag :: (dest ++ groundSource)).length =
      start + ax25ControlBytesPosition := by
    rw [List.length_append, hfront, List.length_cons, List.length_append, hdest]
    rfl
  obtain ⟨b₁, hb₁, c₁⟩ := Block.store_append (pktReceiveNum <<< 1) hcells hcontrol
  have h₁ : b₁.cells = (front ++ ax25Flag :: (dest ++ groundSource) ++ [pktReceiveNum <<< 1]) ++
      0 :: 0 :: (List.replicate 254 0 ++ ([0, 0, 0] ++ back)) := by
    rw [c₁, List.append_assoc _ [_], List.singleton_append]
  obtain ⟨b₂, hb₂, c₂⟩ := Block.store_append (pktSentNum <<< 1) h₁
    (show _ = start + ax25ControlBytesPosition + 1 by
      rw [List.length_append, hcontrol, List.length_singleton])
  set head := ax25Flag :: (dest ++
    (groundSource ++ [pktReceiveNum <<< 1, pktSentNum <<< 1])) with hhead
  have h₂ : b₂.cells = (front ++ head) ++
      0 :: (List.replicate 254 0 ++ ([0, 0, 0] ++ back)) := by
    rw [c₂, hhead]
    simp only [List.append_assoc, List.cons_append, List.nil_append]
  have hlength : (front ++ head).length = start + ax25Mod128PidPosition := by
    rw [hhead, List.length_append, hfront, List.length_cons, List.length_append, hdest]
    rfl
  obtain ⟨b₃, hb₃, c₃⟩ := Block.store_append ax25Pid h₂ hlength
  have h₃ : b₃.cells = (front ++ head) ++
      (restingInfo.take count ++ (restingInfo.drop count ++ ([0, 0, 0] ++ back))) := by
    rw [c₃, ← List.append_assoc (restingInfo.take _), List.take_append_drop]
    rfl
  obtain ⟨b₄, hb₄, c₄⟩ := Block.memcpy_append h₃
    (show (front ++ head).length = start + ax25InfoFieldPosition from hlength) hread
    (by rw [List.length_take, length_restingInfo, Nat.min_eq_left hcount])
  refine ⟨b₁, b₂, b₃, b₄, hb₁, hb₂, hb₃, hb₄, ?_⟩
  rw [c₄, hhead, shareHead, shareInfo, List.length_take, Nat.min_eq_left hread]
  simp

/-- One round of the loop writes a segment over zeros. -/
theorem shareFrame_eq {n j : ℕ} (pktReceiveNum : Byte) {telemData front back : List Byte}
    (dest : Ax25Addr) {s : ShareState n}
    (hcells : s.ax25Data.cells =
      front ++ (List.replicate ax25MinimumIFrameLenShareFlag 0 ++ back))
    (hfront : front.length = j * ax25MinimumIFrameLenShareFlag)
    (hremaining : s.remainingDataBytes ≤ ax25InfoBytes)
    (hread : j * ax25InfoBytes + s.remainingDataBytes ≤ telemData.length) :
    ∃ data, shareFrame pktReceiveNum telemData dest s j = .ok
        ⟨data, (s.remainingDataBytes + 2 ^ 8 - ax25InfoBytes) % 2 ^ 8, s.pktSentNum + 1⟩ ∧
      data.cells = front ++ (shareSegment dest.data.cells pktReceiveNum s.pktSentNum
        (shareInfo ((telemData.drop (j * ax25InfoBytes)).take s.remainingDataBytes)) ++ back) := by
  have hdest := dest.data.length_cells
  set start := j * ax25MinimumIFrameLenShareFlag with hstart
  have hcount : s.remainingDataBytes ≤ (telemData.drop (j * ax25InfoBytes)).length := by
    rw [List.length_drop]
    omega
  have h₀ : s.ax25Data.cells = front ++ 0 :: (List.replicate 7 0 ++ (List.replicate 7 0 ++
      0 :: 0 :: 0 :: (List.replicate 254 0 ++ ([0, 0, 0] ++ back)))) := by
    rw [hcells, show ax25MinimumIFrameLenShareFlag = 1 + (7 + (7 + (3 + (254 + 3)))) from rfl]
    simp only [List.replicate_add, List.append_assoc]
    rfl
  rcases store_addresses h₀ hfront hdest with ⟨b₁, b₂, b₃, hb₁, hb₂, hb₃, h₃⟩
  obtain ⟨b₄, b₅, b₆, b₇, hb₄, hb₅, hb₆, hb₇, h₇⟩ :=
    store_shareHead pktReceiveNum s.pktSentNum h₃ hfront hdest hcount hremaining
  set whole := shareHead dest.data.cells pktReceiveNum s.pktSentNum
    (shareInfo ((telemData.drop (j * ax25InfoBytes)).take s.remainingDataBytes)) with hwhole
  have hwholeLength : whole.length = ax25IFrameFcsPosition :=
    length_shareHead _ _ hdest (length_shareInfo (by
      rw [List.length_take]
      omega))
  have hfcs : fcsCalculate (b₇.cells.drop start) ax25MinimumIFrameLen =
      .ok (reverseUint16 (crcOf (whole.take 271))) := by
    rw [h₇, List.append_assoc, List.drop_left' hfront, ← List.take_append_drop 271 whole,
      List.append_assoc, List.take_append_drop]
    apply fcsCalculate_append
    rw [List.length_take, hwholeLength]
    decide
  obtain ⟨b₈, b₉, hb₈, hb₉, c₉⟩ := store_fcs (reverseUint16 (crcOf (whole.take 271))) h₇
    (show (front ++ whole).length = start + ax25IFrameFcsPosition by
      rw [List.length_append, hfront, hwholeLength])
  have hcountIf : (if s.remainingDataBytes ≥ ax25InfoBytes then ax25InfoBytes
      else s.remainingDataBytes) = s.remainingDataBytes := by
    split_ifs <;> omega
  refine ⟨b₉, ?_, ?_⟩
  · simp only [shareFrame, ← hstart, hcountIf, hb₁, ok_bind, hb₂, groundStationSrcAddr_eq, hb₃, hb₄,
      hb₅, hb₆]
    rw [hb₇, ok_bind, hfcs, ok_bind, hb₈, ok_bind, hb₉, ok_bind]
    rfl
  · simp only [c₉, shareSegment, ← hwhole, checkSequence, List.append_assoc]

/-! ## Bursts -/

/-- The frames that a payload of `length` bytes fills. -/
def neededFrames (length : ℕ) : ℕ := (length + ax25InfoBytes - 1) / ax25InfoBytes

/-- The frames that are built. -/
def builtFrames (length : ℕ) : ℕ := neededFrames length % 2 ^ 8

/-- The bytes that frame `j` gets of a payload of `length` bytes. -/
def copiedBytes (length j : ℕ) : ℕ := (length + j) % 2 ^ 8

/-- Segment `j` of a burst. -/
def burstSegment (s : LinkState) (telemData : List Byte) (dest : Ax25Addr) (j : ℕ) : List Byte :=
  shareSegment dest.data.cells s.pktReceiveNum (s.pktSentNum + BitVec.ofNat 8 j)
    (shareInfo ((telemData.drop (j * ax25InfoBytes)).take (copiedBytes telemData.length j)))

theorem roundedFrames_eq {length : ℕ} (h : length ≤ 2 ^ 32 - ax25InfoBytes) :
    roundedFrames length = neededFrames length := by
  have hinfo : ax25InfoBytes = 255 := rfl
  rw [roundedFrames, Nat.mod_eq_of_lt (by omega), neededFrames]

theorem builtFrames_le (length : ℕ) : builtFrames length ≤ neededFrames length := Nat.mod_le _ _

theorem start_lt {length j : ℕ} (h : j < builtFrames length) : j * ax25InfoBytes < length := by
  have hlt := Nat.lt_of_lt_of_le h (builtFrames_le length)
  simp only [neededFrames, show ax25InfoBytes = 255 from rfl] at hlt ⊢
  omega

theorem copiedBytes_le {length j : ℕ} (h : j < builtFrames length) :
    j * ax25InfoBytes + copiedBytes length j ≤ length := by
  have hlt := start_lt h
  simp only [copiedBytes, show ax25InfoBytes = 255 from rfl] at hlt ⊢
  omega

theorem copiedBytes_le_info (length j : ℕ) : copiedBytes length j ≤ ax25InfoBytes := by
  have hinfo : ax25InfoBytes = 255 := rfl
  rw [copiedBytes]
  omega

theorem length_chunk {telemData : List Byte} {j : ℕ} (h : j < builtFrames telemData.length) :
    ((telemData.drop (j * ax25InfoBytes)).take (copiedBytes telemData.length j)).length =
      copiedBytes telemData.length j := by
  have hle := copiedBytes_le h
  rw [List.length_take, List.length_drop]
  omega

theorem length_burstSegment (s : LinkState) {telemData : List Byte} (dest : Ax25Addr) {j : ℕ}
    (h : j < builtFrames telemData.length) :
    (burstSegment s telemData dest j).length = ax25MinimumIFrameLenShareFlag :=
  length_shareSegment _ _ dest.data.length_cells (length_shareInfo (by
    rw [length_chunk h]
    exact copiedBytes_le_info _ _))

/-- The state of the loop after `k` frames. -/
structure ShareStage {n : ℕ} (s : LinkState) (telemData : List Byte) (dest : Ax25Addr) (k : ℕ)
    (t : ShareState n) : Prop where
  cells_eq : t.ax25Data.cells = (List.range k).flatMap (burstSegment s telemData dest) ++
    List.replicate (n - k * ax25MinimumIFrameLenShareFlag) 0
  remaining_eq : t.remainingDataBytes = copiedBytes telemData.length k
  pktSentNum_eq : t.pktSentNum = s.pktSentNum + BitVec.ofNat 8 k

theorem shareFrame_stage {n k : ℕ} {s : LinkState} {telemData : List Byte} {dest : Ax25Addr}
    {t : ShareState n} (ht : ShareStage s telemData dest k t)
    (hk : k < builtFrames telemData.length)
    (hroom : (k + 1) * ax25MinimumIFrameLenShareFlag ≤ n) :
    ∃ t', shareFrame s.pktReceiveNum telemData dest t k = .ok t' ∧
      ShareStage s telemData dest (k + 1) t' := by
  have hlength : ((List.range k).flatMap (burstSegment s telemData dest)).length =
      k * ax25MinimumIFrameLenShareFlag :=
    length_rows fun j hj => length_burstSegment s dest (Nat.lt_trans hj hk)
  have hsplit : n - k * ax25MinimumIFrameLenShareFlag =
      ax25MinimumIFrameLenShareFlag + (n - (k + 1) * ax25MinimumIFrameLenShareFlag) := by
    rw [Nat.succ_mul] at hroom ⊢
    omega
  have hcells := ht.cells_eq
  rw [hsplit, List.replicate_add] at hcells
  obtain ⟨data, hrun, hdata⟩ := shareFrame_eq s.pktReceiveNum dest hcells hlength
    (by rw [ht.remaining_eq]; exact copiedBytes_le_info _ _)
    (by rw [ht.remaining_eq]; exact copiedBytes_le hk)
  refine ⟨_, hrun, ?_, ?_, ?_⟩
  · rw [hdata, ht.remaining_eq, ht.pktSentNum_eq, List.range_succ, List.flatMap_append,
      List.append_assoc, List.flatMap_singleton]
    rfl
  · have hinfo : ax25InfoBytes = 255 := rfl
    simp only [ht.remaining_eq, copiedBytes]
    omega
  · simp only [ht.pktSentNum_eq]
    rw [BitVec.add_assoc, BitVec.ofNat_add]
    rfl

/-- A burst in an array of `n` bytes: its segments, a flag and zeros. -/
def burstCells (s : LinkState) (telemData : List Byte) (dest : Ax25Addr) (n : ℕ) : List Byte :=
  (List.range (builtFrames telemData.length)).flatMap (burstSegment s telemData dest) ++
    ax25Flag :: List.replicate
      (n - (builtFrames telemData.length * ax25MinimumIFrameLenShareFlag + 1)) 0

/-- The segments of a burst. -/
theorem length_segments (s : LinkState) (telemData : List Byte) (dest : Ax25Addr) :
    ((List.range (builtFrames telemData.length)).flatMap (burstSegment s telemData dest)).length =
      builtFrames telemData.length * ax25MinimumIFrameLenShareFlag :=
  length_rows fun _ hj => length_burstSegment s dest hj

/-- A burst that fits is built. -/
theorem burst_eq {n : ℕ} {s : LinkState} {telemData : List Byte} {dest : Ax25Addr}
    (data : Block Byte n) (hmax : telemData.length ≤ 2 ^ 32 - ax25InfoBytes)
    (hdest : ax25DestAddrBytes ≤ dest.length)
    (hroom : builtFrames telemData.length * ax25MinimumIFrameLenShareFlag + 1 ≤ n) :
    ∃ out state, ax25SendIFrameWithFlagSharing s (some telemData) telemData.length (some data) n
        (some dest) = .ok ⟨.success, some out, state⟩ ∧
      out.cells = burstCells s telemData dest n := by
  have hbuilt : roundedFrames telemData.length % 2 ^ 8 = builtFrames telemData.length := by
    rw [roundedFrames_eq hmax, builtFrames]
  have hbody (k : ℕ) (t : ShareState n) (hk : k < builtFrames telemData.length)
      (ht : ShareStage s telemData dest k t) :
      ∃ t', shareFrame s.pktReceiveNum telemData dest t k = .ok t' ∧
        ShareStage s telemData dest (k + 1) t' := by
    apply shareFrame_stage ht hk
    have hmul := Nat.mul_le_mul_right ax25MinimumIFrameLenShareFlag hk
    rw [Nat.succ_eq_add_one] at hmul
    omega
  have hstart : ShareStage s telemData dest 0
      ⟨Block.fill n 0, telemData.length % 2 ^ 8, s.pktSentNum⟩ := by
    refine ⟨?_, rfl, ?_⟩
    · simp
    · simp
  obtain ⟨final, hrun, hend⟩ := foldlM_range_stages hbody hstart
  have hcells := hend.cells_eq
  rw [show n - builtFrames telemData.length * ax25MinimumIFrameLenShareFlag =
      (n - (builtFrames telemData.length * ax25MinimumIFrameLenShareFlag + 1)) + 1 by omega,
    List.replicate_succ] at hcells
  obtain ⟨out, hstore, hout⟩ := Block.store_append ax25Flag hcells
    (length_segments s telemData dest)
  refine ⟨out, { s with pktSentNum := final.pktSentNum }, ?_, hout⟩
  simp only [ax25SendIFrameWithFlagSharing, hbuilt, if_neg (Nat.not_lt.mpr hdest),
    if_neg (Nat.not_lt.mpr hroom), Block.memset_all, ok_bind, hrun, hstore]
  rfl

/-! ## The payload -/

/-- The information field of segment `j`. -/
def shareField (cells : List Byte) (j : ℕ) : List Byte :=
  (cells.drop (j * ax25MinimumIFrameLenShareFlag + ax25InfoFieldPosition)).take ax25InfoBytes

/-- If the call succeeds, its information fields hold the payload and zeros. -/
def KeepsPayload {n : ℕ} (s : LinkState) (telemData : List Byte) (data : Block Byte n)
    (dest : Ax25Addr) : Prop :=
  ∀ result, ax25SendIFrameWithFlagSharing s (some telemData) telemData.length (some data) n
      (some dest) = .ok result → result.err = .success →
    ∃ out, result.output = some out ∧
      neededFrames telemData.length * ax25MinimumIFrameLenShareFlag ≤ n ∧
      (List.range (neededFrames telemData.length)).flatMap (shareField out.cells) =
        telemData ++
          List.replicate (neededFrames telemData.length * ax25InfoBytes - telemData.length) 0

/-- Byte `i` of a payload of `length` bytes is copied into its frame. -/
def Copied (length i : ℕ) : Prop :=
  i / ax25InfoBytes < builtFrames length ∧
    i % ax25InfoBytes < copiedBytes length (i / ax25InfoBytes)

instance (length i : ℕ) : Decidable (Copied length i) := inferInstanceAs (Decidable (_ ∧ _))

/-- What stands at the place of byte `i` if it is not copied. -/
def restingByte (length i : ℕ) : Byte :=
  if i / ax25InfoBytes < builtFrames length ∧ i % ax25InfoBytes = 0 then ax25Pid else 0

theorem getElem?_shareInfo (chunk : List Byte) {k : ℕ} (hk : k < ax25InfoBytes) :
    (shareInfo chunk)[k]? =
      if k < chunk.length then chunk[k]? else some (if k = 0 then ax25Pid else 0) := by
  rw [shareInfo]
  split_ifs with hlt hzero
  · rw [List.getElem?_append_left hlt]
  · subst hzero
    have hnil : chunk = [] := List.eq_nil_of_length_eq_zero (by omega)
    rw [hnil]
    rfl
  · rw [List.getElem?_append_right (by omega), List.getElem?_drop,
      Nat.add_sub_cancel' (Nat.not_lt.mp hlt), restingInfo]
    obtain ⟨m, rfl⟩ : ∃ m, k = m + 1 := ⟨k - 1, by omega⟩
    rw [List.getElem?_cons_succ, List.getElem?_replicate_of_lt (by omega)]

theorem getElem?_shareSegment {dest info : List Byte} (pktReceiveNum pktSentNum : Byte) {k : ℕ}
    (hdest : dest.length = ax25DestAddrBytes) (hinfo : info.length = ax25InfoBytes)
    (hk : k < ax25InfoBytes) :
    (shareSegment dest pktReceiveNum pktSentNum info)[ax25InfoFieldPosition + k]? = info[k]? := by
  have hfront : (ax25Flag :: (dest ++ (groundSource ++ [pktReceiveNum <<< 1, pktSentNum <<< 1]))).length =
      ax25InfoFieldPosition := by
    simp only [List.length_cons, List.length_append, hdest]
    decide
  have hsplit : shareHead dest pktReceiveNum pktSentNum info =
      ax25Flag :: (dest ++ (groundSource ++ [pktReceiveNum <<< 1, pktSentNum <<< 1])) ++ info := by
    simp [shareHead]
  simp only [shareSegment]
  rw [hsplit, List.append_assoc, List.getElem?_append_right (by omega), hfront,
    Nat.add_sub_cancel_left, List.getElem?_append_left (by omega)]

/-- What the output holds at the place of byte `i` of the payload. -/
theorem getElem?_burstCells {n j k : ℕ} (s : LinkState) (telemData : List Byte) (dest : Ax25Addr)
    (hj : (j + 1) * ax25MinimumIFrameLenShareFlag ≤ n) (hk : k < ax25InfoBytes) :
    (burstCells s telemData dest n)[j * ax25MinimumIFrameLenShareFlag +
        (ax25InfoFieldPosition + k)]? =
      if j < builtFrames telemData.length ∧ k < copiedBytes telemData.length j then
        telemData[j * ax25InfoBytes + k]?
      else some (if j < builtFrames telemData.length ∧ k = 0 then ax25Pid else 0) := by
  have hlength := length_segments s telemData dest
  have hinside : ax25InfoFieldPosition + k < ax25MinimumIFrameLenShareFlag := by
    simp only [show ax25InfoFieldPosition = 17 from rfl, show ax25InfoBytes = 255 from rfl,
      show ax25MinimumIFrameLenShareFlag = 275 from rfl] at hk ⊢
    omega
  rw [Nat.succ_mul] at hj
  by_cases hbuilt : j < builtFrames telemData.length
  · have hend : j * ax25MinimumIFrameLenShareFlag + ax25MinimumIFrameLenShareFlag ≤
        builtFrames telemData.length * ax25MinimumIFrameLenShareFlag := by
      rw [← Nat.succ_mul]
      exact Nat.mul_le_mul_right _ hbuilt
    have hchunk := length_chunk hbuilt
    have hchunkLe := copiedBytes_le_info telemData.length j
    rw [burstCells, List.getElem?_append_left (by omega),
      getElem?_rows (fun j hj => length_burstSegment s dest hj) hbuilt hinside, burstSegment,
      getElem?_shareSegment _ _ dest.data.length_cells (length_shareInfo (by omega)) hk,
      getElem?_shareInfo _ hk, hchunk]
    simp only [hbuilt, true_and]
    split_ifs with hcopied
    · rw [List.getElem?_take_of_lt hcopied, List.getElem?_drop]
    · rfl
    · rfl
  · have hbehind : builtFrames telemData.length * ax25MinimumIFrameLenShareFlag ≤
        j * ax25MinimumIFrameLenShareFlag := Nat.mul_le_mul_right _ (Nat.not_lt.mp hbuilt)
    simp only [hbuilt, false_and, if_false]
    rw [burstCells, List.getElem?_append_right (by omega), hlength]
    obtain ⟨m, hm⟩ : ∃ m, j * ax25MinimumIFrameLenShareFlag + (ax25InfoFieldPosition + k) -
        builtFrames telemData.length * ax25MinimumIFrameLenShareFlag = m + 1 := by
      have hseventeen : ax25InfoFieldPosition = 17 := rfl
      exact ⟨_ - 1, (Nat.sub_add_cancel (by omega)).symm⟩
    rw [hm, List.getElem?_cons_succ, List.getElem?_replicate_of_lt (by omega)]

theorem length_le_needed (length : ℕ) : length ≤ neededFrames length * ax25InfoBytes := by
  simp only [neededFrames, show ax25InfoBytes = 255 from rfl]
  omega

theorem segment_le {n needed j : ℕ} (hroom : needed * ax25MinimumIFrameLenShareFlag ≤ n)
    (hj : j < needed) : (j + 1) * ax25MinimumIFrameLenShareFlag ≤ n :=
  Nat.le_trans (Nat.mul_le_mul_right _ hj) hroom

theorem length_shareField {n needed : ℕ} {cells : List Byte} (hlength : cells.length = n)
    (hroom : needed * ax25MinimumIFrameLenShareFlag ≤ n) (j : ℕ) (hj : j < needed) :
    (shareField cells j).length = ax25InfoBytes := by
  have hend := segment_le hroom hj
  have hsum : ax25InfoFieldPosition + ax25InfoBytes ≤ ax25MinimumIFrameLenShareFlag := by decide
  rw [Nat.succ_mul] at hend
  rw [shareField, List.length_take, List.length_drop, hlength]
  omega

/-- The information fields of a burst, byte by byte. -/
theorem getElem?_shareFields {n i : ℕ} {s : LinkState} {telemData : List Byte} {dest : Ax25Addr}
    (hlength : (burstCells s telemData dest n).length = n)
    (hroom : neededFrames telemData.length * ax25MinimumIFrameLenShareFlag ≤ n)
    (hi : i < neededFrames telemData.length * ax25InfoBytes) :
    ((List.range (neededFrames telemData.length)).flatMap
        (shareField (burstCells s telemData dest n)))[i]? =
      if Copied telemData.length i then telemData[i]?
      else some (restingByte telemData.length i) := by
  have hj : i / ax25InfoBytes < neededFrames telemData.length := Nat.div_lt_of_lt_mul (by
    rwa [Nat.mul_comm])
  have hk := Nat.mod_lt i (show 0 < ax25InfoBytes by decide)
  have hindex : i / ax25InfoBytes * ax25InfoBytes + i % ax25InfoBytes = i := Nat.div_add_mod' ..
  have hget := getElem?_rows (length_shareField hlength hroom) hj hk
  rw [hindex] at hget
  rw [hget, shareField, List.getElem?_take_of_lt hk, List.getElem?_drop, Nat.add_assoc,
    getElem?_burstCells s telemData dest (segment_le hroom hj) hk, hindex]
  rfl

/-- Behind the payload there are only zeros. -/
theorem resting_behind {length i : ℕ} (h : length ≤ i) :
    ¬ Copied length i ∧ restingByte length i = 0 := by
  have hindex : i / ax25InfoBytes * ax25InfoBytes + i % ax25InfoBytes = i := Nat.div_add_mod' ..
  constructor
  · rintro ⟨hbuilt, hcopied⟩
    have hle := copiedBytes_le hbuilt
    omega
  · rw [restingByte, if_neg]
    rintro ⟨hbuilt, hzero⟩
    have hlt := start_lt hbuilt
    omega

/-- The payload is kept if its bytes that are not copied are what stands in their places. -/
def PayloadKept (telemData : List Byte) (n : ℕ) : Prop :=
  neededFrames telemData.length * ax25MinimumIFrameLenShareFlag ≤ n ∧
    ∀ i < telemData.length, ¬ Copied telemData.length i →
      telemData[i]? = some (restingByte telemData.length i)

theorem shareFields_iff {n : ℕ} {s : LinkState} {telemData : List Byte} {dest : Ax25Addr}
    (hlength : (burstCells s telemData dest n).length = n)
    (hroom : neededFrames telemData.length * ax25MinimumIFrameLenShareFlag ≤ n) :
    (List.range (neededFrames telemData.length)).flatMap
        (shareField (burstCells s telemData dest n)) =
        telemData ++
          List.replicate (neededFrames telemData.length * ax25InfoBytes - telemData.length) 0 ↔
      ∀ i < telemData.length, ¬ Copied telemData.length i →
        telemData[i]? = some (restingByte telemData.length i) := by
  have hneeded := length_le_needed telemData.length
  have hfields := length_rows (length_shareField hlength hroom)
  constructor
  · intro heq i hi hcopied
    have hget := getElem?_shareFields hlength hroom (Nat.lt_of_lt_of_le hi hneeded)
    rw [heq, List.getElem?_append_left hi, if_neg hcopied] at hget
    exact hget
  · intro hresting
    apply List.ext_getElem?
    intro i
    by_cases hi : i < neededFrames telemData.length * ax25InfoBytes
    · rw [getElem?_shareFields hlength hroom hi]
      by_cases hpayload : i < telemData.length
      · rw [List.getElem?_append_left hpayload]
        split_ifs with hcopied
        · rfl
        · exact (hresting i hpayload hcopied).symm
      · obtain ⟨hcopied, hzero⟩ := resting_behind (Nat.not_lt.mp hpayload)
        rw [if_neg hcopied, hzero, List.getElem?_append_right (Nat.not_lt.mp hpayload),
          List.getElem?_replicate_of_lt (by omega)]
    · rw [List.getElem?_eq_none (by omega), List.getElem?_eq_none (by
        rw [List.length_append, List.length_replicate]
        omega)]

theorem keepsPayload_iff {n : ℕ} {s : LinkState} {telemData : List Byte} {dest : Ax25Addr}
    (data : Block Byte n) (hmax : telemData.length ≤ 2 ^ 32 - ax25InfoBytes)
    (hdest : ax25DestAddrBytes ≤ dest.length)
    (hroom : builtFrames telemData.length * ax25MinimumIFrameLenShareFlag + 1 ≤ n) :
    KeepsPayload s telemData data dest ↔ PayloadKept telemData n := by
  obtain ⟨out, state, hrun, hcells⟩ := burst_eq data hmax hdest hroom
  have hlength : (burstCells s telemData dest n).length = n := by
    rw [← hcells, out.length_cells]
  constructor
  · intro hkeeps
    obtain ⟨out', hout, hneeded, hfields⟩ := hkeeps _ hrun rfl
    obtain rfl : out = out' := Option.some.inj hout
    rw [hcells, shareFields_iff hlength hneeded] at hfields
    exact ⟨hneeded, hfields⟩
  · rintro ⟨hneeded, hresting⟩ result hresult -
    rw [hrun, Except.ok.injEq] at hresult
    rw [← hresult]
    refine ⟨out, rfl, hneeded, ?_⟩
    rw [hcells, shareFields_iff hlength hneeded]
    exact hresting

/-- **The payload of a burst.** A call that succeeds keeps the payload exactly when the output
has room for all frames and each byte that the loop leaves out is the one that stands in its
place anyway. -/
theorem flagSharing_payload {n : ℕ} (s : LinkState) {telemData : List Byte} {dest : Ax25Addr}
    (data : Block Byte n) (hmax : telemData.length ≤ 2 ^ 32 - ax25InfoBytes)
    (hdest : ax25DestAddrBytes ≤ dest.length) :
    KeepsPayload s telemData data dest ↔
      n < builtFrames telemData.length * ax25MinimumIFrameLenShareFlag + 1 ∨
        PayloadKept telemData n := by
  by_cases hroom : builtFrames telemData.length * ax25MinimumIFrameLenShareFlag + 1 ≤ n
  · rw [keepsPayload_iff data hmax hdest hroom, or_iff_right (Nat.not_lt.mpr hroom)]
  · refine iff_of_true ?_ (.inl (Nat.lt_of_not_ge hroom))
    intro result hrun hsuccess
    have hbuilt : roundedFrames telemData.length % 2 ^ 8 = builtFrames telemData.length := by
      rw [roundedFrames_eq hmax, builtFrames]
    simp only [ax25SendIFrameWithFlagSharing, hbuilt, if_neg (Nat.not_lt.mpr hdest),
      if_pos (Nat.lt_of_not_ge hroom), pure_eq_ok, Except.ok.injEq] at hrun
    rw [← hrun] at hsuccess
    contradiction

/-- Up to 255 bytes nothing is left out. -/
theorem payloadKept_of_le {telemData : List Byte} {n : ℕ} (h : telemData.length ≤ ax25InfoBytes)
    (hroom : neededFrames telemData.length * ax25MinimumIFrameLenShareFlag ≤ n) :
    PayloadKept telemData n := by
  refine ⟨hroom, fun i hi hcopied => absurd ⟨?_, ?_⟩ hcopied⟩
  · rw [Nat.div_eq_of_lt (by omega)]
    simp only [builtFrames, neededFrames, show ax25InfoBytes = 255 from rfl] at h ⊢
    omega
  · rw [Nat.div_eq_of_lt (by omega), Nat.mod_eq_of_lt (by omega)]
    simp only [copiedBytes, show ax25InfoBytes = 255 from rfl] at h ⊢
    omega

theorem flagSharing_payload_short :
    KeepsPayload LinkState.initial [1, 2, 3] (Block.fill 276 0xFF) cubeSatLink ↔
      276 < builtFrames 3 * ax25MinimumIFrameLenShareFlag + 1 ∨ PayloadKept [1, 2, 3] 276 :=
  flagSharing_payload LinkState.initial _ (by decide) (by decide)

/-- Of 256 bytes, none goes into the first frame. -/
theorem flagSharing_payload_fails :
    ¬ ∀ (n : ℕ) (s : LinkState) (telemData : List Byte) (data : Block Byte n) (dest : Ax25Addr),
      1 ≤ telemData.length → telemData.length ≤ 2 ^ 32 - ax25InfoBytes →
      ax25UnstuffedWithFlagShareLen telemData.length ≤ n → ax25DestAddrBytes ≤ dest.length →
      KeepsPayload s telemData data dest := by
  intro h
  have hlength : (List.replicate 256 (1 : Byte)).length = 256 := List.length_replicate
  have hmax : (List.replicate 256 (1 : Byte)).length ≤ 2 ^ 32 - ax25InfoBytes := by
    rw [hlength]
    decide
  have hkeeps := h 551 LinkState.initial (List.replicate 256 1) (Block.fill 551 0)
    cubeSatLink (by rw [hlength]; decide) hmax (by rw [hlength]; decide) (by decide)
  rw [keepsPayload_iff _ hmax (by decide) (by rw [hlength]; decide)] at hkeeps
  have hfirst := hkeeps.2 0 (by rw [hlength]; decide) (by rw [hlength]; decide)
  rw [hlength, List.getElem?_replicate_of_lt (by decide)] at hfirst
  exact absurd hfirst (by decide)

end ObcGsInterface
