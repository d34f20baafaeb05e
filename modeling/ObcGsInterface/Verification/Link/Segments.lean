import ObcGsInterface.Verification.Link.FlagSharing
import ObcGsInterface.Verification.Pipeline.Checksum

/-! # The layout of segments

The information field of a segment begins one byte early, at the place of the PID, and the
check sequence covers the flag instead of the last byte of information. A segment is well
formed nevertheless when the information begins with the PID byte and its checksum makes up
for the displaced bytes. -/

namespace ObcGsInterface

open BitStream CArray BigEndian ShiftRegister

/-! ## A check sequence in the wrong place -/

/-- The check sequence of all bytes behind the flag, the high byte of the stored one among
them, begins with the low byte of the stored one and ends with zero. Here `crc` is the
checksum of the bytes behind the flag that the stored one covers, and `0x78AC` is what the
flag adds to it. -/
def Closes (crc : BitVec 16) (last : Byte) : Prop :=
  let fcs := reverseUint16 (crc ^^^ 0x78AC)
  reverseUint16 (crc16Ccitt (crc16Ccitt crc last) ((fcs >>> 8).setWidth 8)) =
    join16 (fcs.setWidth 8) 0

/-- The checksums and last bytes that close: the high byte of the checksum, the last byte, and
what the low byte of the checksum and its mirror image differ by. -/
def closings : List (Byte × Byte × Byte) :=
  [(0x11, 0xA3, 0xFF), (0x13, 0x8B, 0x3C), (0x39, 0xAC, 0x81), (0x3B, 0x84, 0x42),
    (0x48, 0x82, 0x7E), (0x4A, 0xAA, 0xBD), (0x60, 0x8D, 0x00), (0x62, 0xA5, 0xC3),
    (0x9D, 0xC0, 0xFF), (0x9F, 0xE8, 0x3C), (0xB5, 0xCF, 0x81), (0xB7, 0xE7, 0x42),
    (0xC4, 0xE1, 0x7E), (0xC6, 0xC9, 0xBD), (0xEC, 0xEE, 0x00), (0xEE, 0xC6, 0xC3)]

theorem reverse_xor (x y : Byte) : (x ^^^ y).reverse = x.reverse ^^^ y.reverse := by
  apply BitVec.eq_of_getMsbD_eq
  intro j hj
  rw [BitVec.getMsbD_reverse, BitVec.getLsbD_xor, BitVec.getMsbD_xor, BitVec.getMsbD_reverse,
    BitVec.getMsbD_reverse]

theorem xor_reverse_reverse (x : Byte) : (x ^^^ x.reverse).reverse = x ^^^ x.reverse := by
  rw [reverse_xor, BitVec.reverse_reverse_eq, BitVec.xor_comm]

/-- The mirror image of a word consists of those of its bytes. -/
theorem reverseUint16_join16 (high low : Byte) :
    reverseUint16 (join16 high low) = join16 low.reverse high.reverse := by
  apply BitVec.eq_of_getLsbD_eq
  intro j hj
  have hindex : 15 - (15 - j) = j := by omega
  have hright := getLsbD_join16 low.reverse high.reverse (show 15 - j < 16 by omega)
  rw [hindex] at hright
  rw [getLsbD_reverseUint16 _ hj, getLsbD_join16 _ _ hj, hright]
  unfold bitAt
  interval_cases j <;> simp [BitVec.getElem_reverse, BitVec.getMsbD_eq_getLsbD]

theorem high_join16 (high low : Byte) : (join16 high low >>> 8).setWidth 8 = high := by
  have h := bytes16_join16 high low
  rw [bytes16, List.cons.injEq] at h
  exact h.1

theorem low_join16 (high low : Byte) : (join16 high low).setWidth 8 = low := by
  have h := bytes16_join16 high low
  rw [bytes16, List.cons.injEq, List.cons.injEq] at h
  exact h.2.1

/-- The last byte and the stored one with the checksum, if the sequence of all ends with zero. -/
def closingWord (high : Byte) : BitVec 16 := unshift^[16] (join16 0 (high ^^^ 0x78))

theorem crcOf_closingWord (high : Byte) :
    crcOf (bytes16 (closingWord high)) = join16 0 (high ^^^ 0x78) := by
  have hsmall : join16 0 (high ^^^ 0x78) = BitVec.ofNat 16 (high ^^^ 0x78).toNat := by
    rw [join16, show ((0 : Byte).setWidth 16 <<< 8 : BitVec 16) = 0#16 from rfl, BitVec.zero_or,
      BitVec.ofNat_toNat]
  rw [closingWord, hsmall]
  exact crcOf_unshift _ (high ^^^ 0x78).isLt

theorem closes_iff_closingWord (high low last : Byte) :
    Closes (join16 high low) last ↔
      join16 (high ^^^ last) (low ^^^ low.reverse ^^^ 0x35) = closingWord high := by
  have hmask : (0x78AC : BitVec 16) = join16 0x78 0xAC := by decide
  have hmirror : low ^^^ (low ^^^ 0xAC).reverse = low ^^^ low.reverse ^^^ 0x35 := by
    rw [reverse_xor, ← BitVec.xor_assoc]
    rfl
  have hzeros : (0 : Byte) = (0 : Byte).reverse := by decide
  rw [Closes, hmask, join16_xor]
  simp only [reverseUint16_join16, high_join16, low_join16]
  rw [crc16Ccitt_pair, join16_xor, hmirror]
  have hreversed : join16 (high ^^^ 0x78).reverse 0 = reverseUint16 (join16 0 (high ^^^ 0x78)) := by
    rw [reverseUint16_join16, ← hzeros]
  rw [hreversed, ← crcOf_closingWord]
  constructor
  · intro h
    apply crcOf_bytes16_injective
    rw [← reverseUint16_reverseUint16 (crcOf (bytes16 (join16 _ _))), h,
      reverseUint16_reverseUint16]
  · intro h
    rw [h]

theorem mem_closings : ∀ n < 2 ^ 8,
    ((closingWord (BitVec.ofNat 8 n)).setWidth 8 ^^^ 0x35).reverse =
      ((closingWord (BitVec.ofNat 8 n)).setWidth 8 ^^^ 0x35) →
    (BitVec.ofNat 8 n, BitVec.ofNat 8 n ^^^ (closingWord (BitVec.ofNat 8 n) >>> 8).setWidth 8,
      (closingWord (BitVec.ofNat 8 n)).setWidth 8 ^^^ 0x35) ∈ closings := by
  decide +kernel

theorem closingWord_of_closings : closings.Forall fun entry =>
    join16 (entry.1 ^^^ entry.2.1) (entry.2.2 ^^^ 0x35) = closingWord entry.1 := by
  decide +kernel

/-- A checksum and a last byte that are listed. -/
def ClosingPair (crc : BitVec 16) (last : Byte) : Prop :=
  ((crc >>> 8).setWidth 8, last, crc.setWidth 8 ^^^ (crc.setWidth 8).reverse) ∈ closings

instance (crc : BitVec 16) (last : Byte) : Decidable (ClosingPair crc last) :=
  inferInstanceAs (Decidable (_ ∈ _))

theorem closes_iff (crc : BitVec 16) (last : Byte) : Closes crc last ↔ ClosingPair crc last := by
  rw [ClosingPair]
  generalize hhigh : (crc >>> 8).setWidth 8 = high
  generalize hlow : crc.setWidth 8 = low
  rw [← join16_bytes16 crc, hhigh, hlow, closes_iff_closingWord]
  constructor
  · intro hword
    have hmem := mem_closings high.toNat high.isLt
    rw [BitVec.ofNat_toNat, BitVec.setWidth_eq, ← hword, high_join16, low_join16,
      BitVec.xor_assoc (low ^^^ low.reverse), BitVec.xor_self, BitVec.xor_zero, ← BitVec.xor_assoc,
      BitVec.xor_self, BitVec.zero_xor] at hmem
    exact hmem (xor_reverse_reverse low)
  · exact List.forall_iff_forall_mem.mp closingWord_of_closings _

theorem ClosingPair.last_ne_zero {crc : BitVec 16} {last : Byte} (h : ClosingPair crc last) :
    last ≠ 0 := by
  have hnonzero : closings.Forall fun entry => entry.2.1 ≠ 0 := by decide
  exact List.forall_iff_forall_mem.mp hnonzero _ h

/-! ## One segment -/

/-- Segment `j` of an output. -/
def segmentAt (cells : List Byte) (j : ℕ) : List Byte :=
  (cells.drop (j * ax25MinimumIFrameLenShareFlag)).take ax25MinimumIFrameLenShareFlag

/-- A frame with two control bytes, without its closing flag. -/
structure SegmentLayout (dest : List Byte) (sendCount : ℕ) (segment : List Byte) : Prop where
  length_eq : segment.length = ax25MinimumIFrameLenShareFlag
  flag_eq : segment[0]? = some ax25Flag
  dest_eq : (segment.drop ax25DestAddrPosition).take ax25DestAddrBytes = dest
  source_eq : (segment.drop ax25SrcAddrPosition).take ax25SrcAddrBytes = groundSource
  send_eq : ∃ control, segment[ax25ControlBytesPosition + 1]? = some control ∧
    (control >>> 1).toNat = sendCount
  pid_eq : segment[ax25Mod128PidPosition]? = some ax25Pid
  fcs_eq : segment.drop 273 = checkSequence ((segment.drop 1).take 272)

/-- The bytes behind the flag that the stored check sequence covers: all but the last byte of
information. -/
def coveredBody (dest : List Byte) (pktReceiveNum pktSentNum : Byte) (front : List Byte) :
    List Byte :=
  dest ++ (groundSource ++ [pktReceiveNum <<< 1, pktSentNum <<< 1] ++ front)

section Segment

variable {dest front : List Byte} {last : Byte} (pktReceiveNum pktSentNum : Byte)
  (hdest : dest.length = ax25DestAddrBytes) (hfront : front.length = 254)

include hdest hfront

theorem length_coveredBody : (coveredBody dest pktReceiveNum pktSentNum front).length = 270 := by
  have hseven : dest.length = 7 := hdest
  simp [coveredBody, groundSource, hseven, hfront]

/-- A segment, with its bytes behind the flag apart. -/
theorem shareSegment_eq {body : List Byte}
    (hbody : coveredBody dest pktReceiveNum pktSentNum front = body) :
    shareSegment dest pktReceiveNum pktSentNum (front ++ [last]) =
      ax25Flag :: (body ++ last :: (checkSequence (ax25Flag :: body) ++ [0])) := by
  have hhead : shareHead dest pktReceiveNum pktSentNum (front ++ [last]) =
      (ax25Flag :: body) ++ [last] := by
    rw [← hbody, shareHead, coveredBody]
    simp only [List.append_assoc, List.cons_append]
  have hlength : (ax25Flag :: body).length = 271 := by
    rw [List.length_cons, ← hbody, length_coveredBody _ _ hdest hfront]
  simp only [shareSegment]
  rw [hhead, List.take_left' hlength, List.append_assoc]
  rfl

end Segment

theorem zipWith_xor_zeros (bytes : List Byte) :
    List.zipWith (· ^^^ ·) bytes (List.replicate bytes.length 0) = bytes := by
  induction bytes with
  | nil => rfl
  | cons b bytes ih =>
      rw [List.length_cons, List.replicate_succ, List.zipWith_cons_cons, ih]
      congr 1
      exact BitVec.xor_zero

/-- What the flag adds to a checksum. -/
theorem crcOf_flag {body : List Byte} (h : body.length = 270) :
    crcOf (ax25Flag :: body) = crcOf body ^^^ 0x78AC := by
  have hzeros : crcOf (ax25Flag :: List.replicate 270 0) = 0x78AC := by decide +kernel
  have hfold := crc16Ccitt_stepAdditive.foldl_xor 0#16 0#16
    (show (0 :: body).length = (ax25Flag :: List.replicate body.length 0).length by
      rw [List.length_cons, List.length_cons, List.length_replicate])
  rw [List.zipWith_cons_cons, zipWith_xor_zeros, BitVec.xor_self, h] at hfold
  rw [← hzeros]
  exact hfold

section Layout

variable {dest front : List Byte} {last : Byte} {pktReceiveNum pktSentNum : Byte}
  (hdest : dest.length = ax25DestAddrBytes) (hfront : front.length = 254)

include hdest hfront

theorem fcs_shareSegment :
    (shareSegment dest pktReceiveNum pktSentNum (front ++ [last])).drop 273 =
        checkSequence (((shareSegment dest pktReceiveNum pktSentNum (front ++ [last])).drop 1).take
          272) ↔
      ClosingPair (crcOf (coveredBody dest pktReceiveNum pktSentNum front)) last := by
  have hlength := length_coveredBody pktReceiveNum pktSentNum hdest hfront
  rw [shareSegment_eq _ _ hdest hfront rfl]
  generalize coveredBody dest pktReceiveNum pktSentNum front = body at hlength
  rw [← closes_iff, Closes, ← crcOf_flag hlength, checkSequence]
  generalize hfcs : reverseUint16 (crcOf (ax25Flag :: body)) = fcs
  have hdrop : (ax25Flag :: (body ++ last :: (bytes16 fcs ++ [0]))).drop 273 =
      [fcs.setWidth 8, 0] := by
    rw [List.drop_succ_cons, show 272 = 270 + 2 from rfl, ← List.drop_drop, List.drop_left' hlength]
    rfl
  have htake : ((ax25Flag :: (body ++ last :: (bytes16 fcs ++ [0]))).drop 1).take 272 =
      body ++ [last, (fcs >>> 8).setWidth 8] := by
    rw [List.drop_succ_cons, List.drop_zero, show 272 = body.length + 2 by rw [hlength],
      List.take_length_add_append]
    rfl
  rw [hdrop, htake, checkSequence, eq_comm, bytes16_eq_iff, crcOf, List.foldl_append]
  rfl

omit hdest hfront in
theorem toNat_sendByte (count : Byte) : ((count <<< 1) >>> 1).toNat = count.toNat % 128 := by
  have hlt := count.isLt
  rw [BitVec.toNat_ushiftRight, BitVec.toNat_shiftLeft, Nat.shiftLeft_eq,
    Nat.shiftRight_eq_div_pow]
  omega

variable (last pktReceiveNum pktSentNum) in
/-- A segment up to the information that is covered. -/
theorem shareSegment_split :
    ∃ tail, shareSegment dest pktReceiveNum pktSentNum (front ++ [last]) =
      (ax25Flag :: (dest ++ groundSource)) ++
        (pktReceiveNum <<< 1) :: (pktSentNum <<< 1) :: (front ++ tail) := by
  refine ⟨last :: (checkSequence (ax25Flag ::
    coveredBody dest pktReceiveNum pktSentNum front) ++ [0]), ?_⟩
  rw [shareSegment_eq _ _ hdest hfront rfl, coveredBody]
  simp only [List.append_assoc, List.cons_append, List.nil_append]

/-- A segment of the loop is laid out well exactly when its information begins with the PID and
its checksum closes. -/
theorem segmentLayout_shareSegment {sendCount : ℕ} :
    SegmentLayout dest sendCount (shareSegment dest pktReceiveNum pktSentNum (front ++ [last])) ↔
      pktSentNum.toNat % 128 = sendCount ∧ front.head? = some ax25Pid ∧
        ClosingPair (crcOf (coveredBody dest pktReceiveNum pktSentNum front)) last := by
  have hseven : dest.length = 7 := hdest
  have hcount := toNat_sendByte pktSentNum
  have hlength := length_shareSegment pktReceiveNum pktSentNum hdest
    (show (front ++ [last]).length = ax25InfoBytes by rw [List.length_append, hfront]; rfl)
  rcases shareSegment_split last pktReceiveNum pktSentNum hdest hfront with ⟨tail, hsplit⟩
  have hfifteen : (ax25Flag :: (dest ++ groundSource)).length = 15 := by
    simp [hseven, groundSource]
  have hafter (k : ℕ) : (shareSegment dest pktReceiveNum pktSentNum (front ++ [last]))[15 + k]? =
      ((pktReceiveNum <<< 1) :: (pktSentNum <<< 1) :: (front ++ tail))[k]? := by
    rw [hsplit, List.getElem?_append_right (by omega), hfifteen, Nat.add_sub_cancel_left]
  have hcontrol := hafter 1
  have hpid : (shareSegment dest pktReceiveNum pktSentNum
      (front ++ [last]))[ax25Mod128PidPosition]? = front.head? := by
    refine (hafter 2).trans ?_
    rw [List.getElem?_cons_succ, List.getElem?_cons_succ, List.getElem?_append_left (by omega),
      List.head?_eq_getElem?]
  constructor
  · intro h
    rcases h.send_eq with ⟨control, hget, hsend⟩
    obtain rfl : pktSentNum <<< 1 = control := Option.some.inj (hcontrol.symm.trans hget)
    exact ⟨hcount.symm.trans hsend, hpid.symm.trans h.pid_eq,
      (fcs_shareSegment hdest hfront).mp h.fcs_eq⟩
  · rintro ⟨hsend, hfirst, hclosing⟩
    refine
      { length_eq := hlength
        flag_eq := by
          rw [hsplit]
          rfl
        dest_eq := ?_
        source_eq := ?_
        send_eq := ⟨_, hcontrol, hcount.trans hsend⟩
        pid_eq := hpid.trans hfirst
        fcs_eq := (fcs_shareSegment hdest hfront).mpr hclosing }
    · rw [hsplit, List.cons_append, List.append_assoc]
      exact List.take_left' hdest
    · rw [hsplit, List.cons_append, List.append_assoc]
      refine Eq.trans (congrArg (List.take 7) (List.drop_left' hseven)) ?_
      exact List.take_left' rfl

end Layout

/-! ## Whole bursts -/

/-- Every frame of the payload has its segment, in the order of the send counts, and a flag
closes the last one. -/
def WellFormedBurst (s : LinkState) (telemData : List Byte) (dest : Ax25Addr)
    (cells : List Byte) : Prop :=
  (∀ j < neededFrames telemData.length,
    SegmentLayout dest.data.cells ((s.pktSentNum.toNat + j) % 128) (segmentAt cells j)) ∧
  cells[neededFrames telemData.length * ax25MinimumIFrameLenShareFlag]? = some ax25Flag

/-- The payload is one full frame that begins with the PID and whose checksum closes. -/
def ClosingFrame (s : LinkState) (telemData : List Byte) (dest : Ax25Addr) : Prop :=
  ∃ front last, telemData = front ++ [last] ∧ front.length = 254 ∧
    front.head? = some ax25Pid ∧
    ClosingPair (crcOf (coveredBody dest.data.cells s.pktReceiveNum s.pktSentNum front)) last

/-- Behind the segments there is no segment. -/
theorem not_segmentLayout_behind {front rest dest : List Byte} {sendCount j : ℕ}
    (hrest : ∀ b ∈ rest, b = 0) (hfront : front.length ≤ j * ax25MinimumIFrameLenShareFlag) :
    ¬ SegmentLayout dest sendCount (segmentAt (front ++ ax25Flag :: rest) j) := by
  intro h
  have hsource := congrArg (·[0]?) h.source_eq
  have hposition : 0 < ax25SrcAddrPosition := by decide
  rw [segmentAt] at hsource
  simp only [List.getElem?_take_of_lt (show 0 < ax25SrcAddrBytes by decide), List.getElem?_drop,
    Nat.add_zero, List.getElem?_take_of_lt
      (show ax25SrcAddrPosition < ax25MinimumIFrameLenShareFlag by decide)] at hsource
  obtain ⟨k, hk⟩ : ∃ k, j * ax25MinimumIFrameLenShareFlag + ax25SrcAddrPosition =
      front.length + (k + 1) := ⟨_, (by omega : _ = front.length + ((j *
        ax25MinimumIFrameLenShareFlag + ax25SrcAddrPosition - front.length - 1) + 1))⟩
  rw [hk, List.getElem?_append_right (Nat.le_add_right _ _), Nat.add_sub_cancel_left,
    List.getElem?_cons_succ] at hsource
  have hzero := hrest _ (List.mem_of_getElem? hsource)
  contradiction

theorem segmentAt_burstCells {n j : ℕ} (s : LinkState) {telemData : List Byte} (dest : Ax25Addr)
    (hj : j < builtFrames telemData.length) :
    segmentAt (burstCells s telemData dest n) j = burstSegment s telemData dest j := by
  have hlength := length_burstSegment s dest hj
  have hend : (j + 1) * ax25MinimumIFrameLenShareFlag ≤
      builtFrames telemData.length * ax25MinimumIFrameLenShareFlag := Nat.mul_le_mul_right _ hj
  have hsegments := length_segments s telemData dest
  rw [Nat.succ_mul] at hend
  apply List.ext_getElem?
  intro k
  rw [segmentAt]
  rcases Nat.lt_or_ge k ax25MinimumIFrameLenShareFlag with hk | hk
  · rw [List.getElem?_take_of_lt hk, List.getElem?_drop, burstCells,
      List.getElem?_append_left (by omega),
      getElem?_rows (fun j hj => length_burstSegment s dest hj) hj hk]
  · rw [List.getElem?_take_eq_none hk, List.getElem?_eq_none (by omega)]

theorem getElem?_burstCells_flag {n : ℕ} (s : LinkState) (telemData : List Byte)
    (dest : Ax25Addr) :
    (burstCells s telemData dest n)[builtFrames telemData.length *
        ax25MinimumIFrameLenShareFlag]? = some ax25Flag := by
  have hlength := length_segments s telemData dest
  rw [burstCells, List.getElem?_append_right (Nat.le_of_eq hlength), hlength, Nat.sub_self]
  rfl

theorem exists_concat {α : Type*} {xs : List α} {n : ℕ} (h : xs.length = n + 1) :
    ∃ front last, xs = front ++ [last] ∧ front.length = n := by
  have hne : xs ≠ [] := List.ne_nil_of_length_eq_add_one h
  refine ⟨xs.dropLast, xs.getLast hne, (List.dropLast_append_getLast hne).symm, ?_⟩
  rw [List.length_dropLast, h, Nat.add_sub_cancel]

/-- Only a segment with a full information field can be laid out well: otherwise its last byte
of information is zero. -/
theorem full_of_segmentLayout {n j sendCount : ℕ} {s : LinkState} {telemData : List Byte}
    {dest : Ax25Addr} (h : SegmentLayout dest.data.cells sendCount
      (segmentAt (burstCells s telemData dest n) j)) :
    j < builtFrames telemData.length ∧ copiedBytes telemData.length j = ax25InfoBytes := by
  have hbuilt : j < builtFrames telemData.length := by
    by_contra hbehind
    refine not_segmentLayout_behind (fun b hb => List.eq_of_mem_replicate hb) ?_ h
    rw [length_segments]
    exact Nat.mul_le_mul_right _ (Nat.not_lt.mp hbehind)
  refine ⟨hbuilt, ?_⟩
  have hchunk := length_chunk hbuilt
  have hle := copiedBytes_le_info telemData.length j
  rw [segmentAt_burstCells s dest hbuilt, burstSegment] at h
  generalize (telemData.drop (j * ax25InfoBytes)).take (copiedBytes telemData.length j) = chunk
    at h hchunk
  have hinfoLength := length_shareInfo (show chunk.length ≤ ax25InfoBytes by omega)
  rcases exists_concat hinfoLength with ⟨front, last, hinfo, hfront⟩
  rw [hinfo, segmentLayout_shareSegment dest.data.length_cells hfront] at h
  rcases h with ⟨-, -, hclosing⟩
  by_contra hshort
  have hlast := getElem?_shareInfo chunk (show 254 < ax25InfoBytes by decide)
  have hfull : ¬ 254 < chunk.length := by
    have hmax : ax25InfoBytes = 255 := rfl
    omega
  rw [if_neg hfull, if_neg (by decide), hinfo, ← hfront, List.getElem?_concat_length,
    Option.some.injEq] at hlast
  exact hclosing.last_ne_zero hlast

/-- The only segment of a payload that fills it. -/
theorem burstSegment_zero {s : LinkState} {telemData : List Byte} {dest : Ax25Addr}
    (hfull : telemData.length = ax25InfoBytes) :
    burstSegment s telemData dest 0 =
      shareSegment dest.data.cells s.pktReceiveNum s.pktSentNum telemData := by
  have hinfo : shareInfo telemData = telemData := by
    rw [shareInfo, hfull, ← length_restingInfo, List.drop_length, List.append_nil]
  have hcopied : copiedBytes telemData.length 0 = telemData.length := by
    rw [hfull]
    rfl
  rw [burstSegment, hcopied, Nat.zero_mul, List.drop_zero, List.take_length, hinfo,
    show BitVec.ofNat 8 0 = 0#8 from rfl, BitVec.add_zero]

/-- A burst that is laid out well carries one full frame. -/
theorem full_of_wellFormedBurst {n : ℕ} {s : LinkState} {telemData : List Byte} {dest : Ax25Addr}
    (hpos : 1 ≤ telemData.length)
    (h : WellFormedBurst s telemData dest (burstCells s telemData dest n)) :
    0 < neededFrames telemData.length ∧ 0 < builtFrames telemData.length ∧
      telemData.length = ax25InfoBytes := by
  have hinfoBytes : ax25InfoBytes = 255 := rfl
  have hneeded : 0 < neededFrames telemData.length := by
    rw [neededFrames, hinfoBytes]
    omega
  rcases full_of_segmentLayout (h.1 0 hneeded) with ⟨hbuilt, hcopied⟩
  -- In a second segment there would be one byte more than in the first, modulo 256.
  have hone : ¬ 1 < neededFrames telemData.length := by
    intro hsecond
    have hcopied' := (full_of_segmentLayout (h.1 1 hsecond)).2
    rw [copiedBytes] at hcopied hcopied'
    omega
  refine ⟨hneeded, hbuilt, ?_⟩
  rw [copiedBytes] at hcopied
  rw [neededFrames, hinfoBytes] at hone
  omega

theorem wellFormedBurst_iff {n : ℕ} {s : LinkState} {telemData : List Byte} {dest : Ax25Addr}
    (hpos : 1 ≤ telemData.length) :
    WellFormedBurst s telemData dest (burstCells s telemData dest n) ↔
      ClosingFrame s telemData dest := by
  constructor
  · intro h
    rcases full_of_wellFormedBurst hpos h with ⟨hneeded, hbuilt, hfull⟩
    have hfirst := h.1 0 hneeded
    rcases exists_concat hfull with ⟨front, last, hdata, hfront⟩
    rw [segmentAt_burstCells s dest hbuilt, burstSegment_zero hfull, hdata,
      segmentLayout_shareSegment dest.data.length_cells hfront] at hfirst
    exact ⟨front, last, hdata, hfront, hfirst.2⟩
  · intro h
    rcases h with ⟨front, last, hdata, hfront, hpid, hclosing⟩
    have hfull : telemData.length = ax25InfoBytes := by
      rw [hdata, List.length_append, hfront]
      rfl
    have hneeded : neededFrames telemData.length = 1 := by
      rw [hfull]
      rfl
    have hbuilt : builtFrames telemData.length = 1 := by
      rw [hfull]
      rfl
    constructor
    · intro j hj
      have hj0 : j = 0 := by omega
      subst j
      rw [segmentAt_burstCells s dest (by omega), burstSegment_zero hfull, hdata,
        segmentLayout_shareSegment dest.data.length_cells hfront]
      exact ⟨rfl, hpid, hclosing⟩
    · have hflag := getElem?_burstCells_flag (n := n) s telemData dest
      rwa [hbuilt, ← hneeded] at hflag

/-- What a call that succeeds leaves in the output: a burst, or only a flag where the number
of frames overflows. -/
theorem flagSharing_output {n : ℕ} {s state : LinkState} {telemData : List Byte}
    {dest : Ax25Addr} {data out : Block Byte n} (hlt : telemData.length < 2 ^ 32)
    (hrun : ax25SendIFrameWithFlagSharing s (some telemData) telemData.length (some data) n
      (some dest) = .ok ⟨.success, some out, state⟩) :
    out.cells = burstCells s telemData dest n ∨
      ax25InfoBytes < telemData.length ∧ out.cells = ax25Flag :: List.replicate (n - 1) 0 := by
  have hdest : ax25DestAddrBytes ≤ dest.length := by
    by_contra hshort
    simp only [ax25SendIFrameWithFlagSharing, if_pos (Nat.lt_of_not_ge hshort), pure_eq_ok,
      Except.ok.injEq, LinkResult.mk.injEq, reduceCtorEq, false_and] at hrun
  have hroom : roundedFrames telemData.length % 2 ^ 8 * ax25MinimumIFrameLenShareFlag + 1 ≤ n := by
    by_contra hsmall
    simp only [ax25SendIFrameWithFlagSharing, if_neg (Nat.not_lt.mpr hdest),
      if_pos (Nat.lt_of_not_ge hsmall), pure_eq_ok, Except.ok.injEq, LinkResult.mk.injEq,
      reduceCtorEq, false_and] at hrun
  by_cases hmax : telemData.length ≤ 2 ^ 32 - ax25InfoBytes
  · rw [roundedFrames_eq hmax] at hroom
    rcases burst_eq data hmax hdest hroom with ⟨out', state', hrun', hcells⟩
    rw [hrun, Except.ok.injEq, LinkResult.mk.injEq, Option.some.injEq] at hrun'
    exact .inl (hrun'.2.1 ▸ hcells)
  · have hinfoBytes : ax25InfoBytes = 255 := rfl
    have hzero : roundedFrames telemData.length = 0 := by
      rw [roundedFrames, hinfoBytes]
      omega
    rw [hzero] at hroom
    have hblock : (Block.fill n (0 : Byte)).cells = [] ++ 0 :: List.replicate (n - 1) 0 := by
      rw [Block.cells_fill, ← List.replicate_succ, List.nil_append]
      congr 1
      omega
    rcases Block.store_append ax25Flag hblock (rfl : _ = 0) with ⟨flagged, hstore, hflagged⟩
    simp only [ax25SendIFrameWithFlagSharing, if_neg (Nat.not_lt.mpr hdest), hzero,
      if_neg (Nat.not_lt.mpr hroom), Block.memset_all, ok_bind] at hrun
    rw [Nat.zero_mod, Nat.zero_mul, List.range_zero, List.foldlM_nil, pure_eq_ok, ok_bind, hstore,
      ok_bind, pure_eq_ok, Except.ok.injEq, LinkResult.mk.injEq, Option.some.injEq] at hrun
    refine .inr ⟨by omega, ?_⟩
    rw [← hrun.2.1, hflagged, List.nil_append]

/-- **The segments of a burst.** Only a payload of one full frame is laid out well, if it begins
with the PID and if its checksum closes. -/
theorem flagSharing_segments {n : ℕ} {s state : LinkState} {telemData : List Byte}
    {dest : Ax25Addr} {data out : Block Byte n} (hpos : 1 ≤ telemData.length)
    (hlt : telemData.length < 2 ^ 32)
    (hrun : ax25SendIFrameWithFlagSharing s (some telemData) telemData.length (some data) n
      (some dest) = .ok ⟨.success, some out, state⟩) :
    WellFormedBurst s telemData dest out.cells ↔ ClosingFrame s telemData dest := by
  rcases flagSharing_output hlt hrun with hcells | ⟨hlong, hcells⟩
  · rw [hcells]
    exact wellFormedBurst_iff hpos
  · rw [hcells]
    refine iff_of_false ?_ ?_
    · rintro ⟨hsegments, -⟩
      have hneeded : 0 < neededFrames telemData.length := by
        have hle := length_le_needed telemData.length
        by_contra hnone
        rw [Nat.eq_zero_of_not_pos hnone] at hle
        omega
      exact not_segmentLayout_behind (fun b hb => List.eq_of_mem_replicate hb)
        (show ([] : List Byte).length ≤ _ from Nat.zero_le _) (hsegments 0 hneeded)
    · rintro ⟨front, last, rfl, hfront, -⟩
      rw [List.length_append, hfront, List.length_singleton] at hlong
      exact absurd hlong (by decide)

/-- A payload of one full frame that closes, without its last byte. -/
def closingFront : List Byte := ax25Pid :: (List.replicate 252 0 ++ [0x32])

theorem closingFrame_closingFront :
    ClosingFrame LinkState.initial (closingFront ++ [0x82]) cubeSatLink :=
  ⟨closingFront, 0x82, rfl, by decide +kernel, rfl, by decide +kernel⟩

theorem flagSharing_segments_closing :
    ∃ out state, ax25SendIFrameWithFlagSharing LinkState.initial (some (closingFront ++ [0x82]))
        (closingFront ++ [0x82]).length (some (Block.fill 276 0)) 276 (some cubeSatLink) =
          .ok ⟨.success, some out, state⟩ ∧
      WellFormedBurst LinkState.initial (closingFront ++ [0x82]) cubeSatLink out.cells := by
  have hlength : (closingFront ++ [0x82]).length = 255 := by decide +kernel
  obtain ⟨out, state, hrun, -⟩ := burst_eq (s := LinkState.initial) (Block.fill 276 0)
    (show (closingFront ++ [0x82]).length ≤ 2 ^ 32 - ax25InfoBytes by rw [hlength]; decide)
    (show ax25DestAddrBytes ≤ cubeSatLink.length by decide) (by rw [hlength]; decide)
  refine ⟨out, state, hrun, (flagSharing_segments ?_ ?_ hrun).mpr closingFrame_closingFront⟩
  · rw [hlength]
    decide
  · rw [hlength]
    decide

/-- A single byte takes the place of the PID. -/
theorem flagSharing_segments_fails :
    ∃ out state, ax25SendIFrameWithFlagSharing LinkState.initial (some [0x01]) 1
        (some (Block.fill 276 0)) 276 (some cubeSatLink) = .ok ⟨.success, some out, state⟩ ∧
      ¬ WellFormedBurst LinkState.initial [0x01] cubeSatLink out.cells := by
  obtain ⟨out, state, hrun, hcells⟩ := burst_eq (s := LinkState.initial) (Block.fill 276 0)
    (show [(0x01 : Byte)].length ≤ 2 ^ 32 - ax25InfoBytes by decide)
    (show ax25DestAddrBytes ≤ cubeSatLink.length by decide) (by decide)
  refine ⟨out, state, hrun, ?_⟩
  rw [hcells, wellFormedBurst_iff (show 1 ≤ [(0x01 : Byte)].length from Nat.le_refl 1)]
  rintro ⟨front, last, hdata, hfront, -⟩
  have hlength := congrArg List.length hdata
  simp [hfront] at hlength

end ObcGsInterface
