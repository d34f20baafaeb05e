import ObcGsInterface.Verification.Stuffing.RoundTrip

/-! # Buffers that were in use before

Both loops OR bits into a buffer, so its old contents show through wherever the written bit
is zero. What `ax25Unstuff` then takes for trailing zero bytes depends on them as well. -/

namespace ObcGsInterface

open CArray Loop BitStream BitStuffing

/-! ## The bytes between the flags -/

/-- The bytes behind the first one after bits have been ORed into them. -/
def mixedBytes (cells : List Byte) (bs : List Bool) : List Byte :=
  orBits ((cells.drop 1).take (byteCount bs)) 0 bs

theorem length_mixedBytes {cells : List Byte} {bs : List Bool}
    (h : byteCount bs + 1 ≤ cells.length) : (mixedBytes cells bs).length = byteCount bs := by
  rw [mixedBytes, length_orBits, List.length_take, List.length_drop]
  omega

theorem bitAt_mixedBytes {old : List Byte} {written : List Bool}
    (h : byteCount written + 1 ≤ old.length) {i : ℕ} (hi : i < 8 * byteCount written) :
    bitAt (mixedBytes old written) i = (bitAt old (8 + i) || written[i]?.getD false) := by
  have hbits := length_add_padding written
  have hbyte : i / 8 < byteCount written := by omega
  have hindex : (8 + i) / 8 = i / 8 + 1 := by omega
  rw [mixedBytes, bitAt_orBits _ _ _ _ (by rw [List.length_take, List.length_drop]; omega)]
  simp [bitAt, List.getElem?_take_of_lt hbyte, hindex]

/-- A bit of the last byte is set, by what is written or by what was there before. -/
def LastByteSet (written : List Bool) (old : List Byte) : Prop :=
  ∃ i, 8 * (byteCount written - 1) ≤ i ∧ i < 8 * byteCount written ∧
    (written[i]?.getD false = true ∨ bitAt old (8 + i) = true)

theorem ne_zero_iff_getMsbD (b : Byte) : b ≠ 0 ↔ ∃ j < 8, b.getMsbD j = true := by
  constructor
  · intro hne
    by_contra hclear
    apply hne
    apply BitVec.eq_of_getMsbD_eq
    intro j hj
    have hbit : b.getMsbD j ≠ true := fun hset => hclear ⟨j, hj, hset⟩
    simpa using hbit
  · rintro ⟨j, -, hset⟩ rfl
    simp at hset

theorem getLast?_mixedBytes_ne_zero {old : List Byte} {written : List Bool}
    (h : byteCount written + 1 ≤ old.length) :
    (mixedBytes old written).getLast? ≠ some 0 ↔
      byteCount written = 0 ∨ LastByteSet written old := by
  have hlength := length_mixedBytes h
  rcases Nat.eq_zero_or_pos (byteCount written) with hzero | hpos
  · rw [hzero, List.length_eq_zero_iff] at hlength
    simp [hzero, hlength]
  · obtain ⟨last, hlast⟩ : ∃ last, (mixedBytes old written)[byteCount written - 1]? = some last :=
      ⟨_, List.getElem?_eq_getElem (by omega)⟩
    have hbit (j : ℕ) (hj : j < 8) : last.getMsbD j =
        (bitAt old (8 + (8 * (byteCount written - 1) + j)) ||
          written[8 * (byteCount written - 1) + j]?.getD false) := by
      have hdiv : (8 * (byteCount written - 1) + j) / 8 = byteCount written - 1 := by omega
      have hmod : (8 * (byteCount written - 1) + j) % 8 = j := by omega
      rw [← bitAt_mixedBytes h (by omega), bitAt, hdiv, hmod, hlast, Option.getD_some]
    rw [List.getLast?_eq_getElem?, hlength, hlast, ne_eq, Option.some.injEq, ← ne_eq,
      ne_zero_iff_getMsbD, or_iff_right (by omega)]
    constructor
    · rintro ⟨j, hj, hset⟩
      rw [hbit j hj, Bool.or_eq_true] at hset
      exact ⟨8 * (byteCount written - 1) + j, by omega, by omega, hset.symm⟩
    · rintro ⟨i, hlow, hhigh, hset⟩
      rcases Nat.exists_eq_add_of_le hlow with ⟨j, rfl⟩
      refine ⟨j, by omega, ?_⟩
      rw [hbit j (by omega), Bool.or_eq_true]
      exact hset.symm

theorem orBits_cons {rest : List Byte} {bs : List Bool} (first : Byte)
    (h : byteCount bs ≤ rest.length) :
    orBits (first :: rest) 8 bs =
      first :: (mixedBytes (first :: rest) bs ++ rest.drop (byteCount bs)) := by
  have hbits := length_add_padding bs
  have hparts : orBits rest 0 bs =
      orBits (rest.take (byteCount bs)) 0 bs ++ rest.drop (byteCount bs) := by
    rw [← orBits_append_right _ _ (by rw [List.length_take]; omega), List.take_append_drop]
  have hfront := orBits_append_left [first] rest 0 bs
  rw [hparts] at hfront
  exact hfront

/-- The whole buffer, when the flag is put into its first byte before the bits. -/
theorem orBits_flag {cells : List Byte} {bs : List Bool} (h : byteCount bs + 1 ≤ cells.length) :
    orBits (cells.set 0 ax25Flag) 8 bs =
      ax25Flag :: (mixedBytes cells bs ++ cells.drop (byteCount bs + 1)) := by
  cases cells with
  | nil => simp at h
  | cons first rest => exact orBits_cons ax25Flag (Nat.le_of_succ_le_succ h)

/-- The whole buffer, when the flag is put into its first byte after the bits. -/
theorem flag_orBits {cells : List Byte} {bs : List Bool} (h : byteCount bs + 1 ≤ cells.length) :
    (orBits cells 8 bs).set 0 ax25Flag =
      ax25Flag :: (mixedBytes cells bs ++ cells.drop (byteCount bs + 1)) := by
  cases cells with
  | nil => simp at h
  | cons first rest =>
      rw [orBits_cons first (Nat.le_of_succ_le_succ h), List.set_cons_zero]
      rfl

/-! ## Trimming -/

/-- The bytes at the end of `content` that a scan for zero bytes takes away, if it reaches
them at all and is not stopped by a bound. -/
structure Trimmed (content : List Byte) (bound : ℕ) (scans : Prop) (removed : ℕ) : Prop where
  le_length : removed ≤ content.length
  le_bound : removed ≤ bound
  zeros : ∀ j < removed, content[content.length - 1 - j]? = some 0
  idle : ¬ scans → removed = 0
  stops : scans → removed = bound ∨ removed = content.length ∨
    content[content.length - 1 - removed]? ≠ some 0

theorem Trimmed.le {content : List Byte} {bound : ℕ} {scans : Prop} {r r' : ℕ}
    (h : Trimmed content bound scans r) (h' : Trimmed content bound scans r') : r ≤ r' := by
  by_contra hlt
  have hscans : scans := by
    by_contra hidle
    have := h.idle hidle
    omega
  have hbound := h.le_bound
  have hlength := h.le_length
  rcases h'.stops hscans with heq | heq | hne
  · omega
  · omega
  · exact hne (h.zeros r' (by omega))

/-- The scan takes a definite number of bytes away. -/
theorem Trimmed.unique {content : List Byte} {bound : ℕ} {scans : Prop} {r r' : ℕ}
    (h : Trimmed content bound scans r) (h' : Trimmed content bound scans r') : r = r' :=
  Nat.le_antisymm (h.le h') (h'.le h)

/-- A scan that starts `extra` bytes behind the content and gets past them. -/
theorem trimmed_of_scan {n bitLength extra tailBytes : ℕ} {packet : Block Byte n}
    {content rest : List Byte} (hcells : packet.cells = ax25Flag :: (content ++ rest))
    (hstart : bitLength / 8 = content.length + extra) (hextra : extra ≤ tailBytes)
    (hspec : TailSpec packet bitLength tailBytes)
    (hend : tailBytes = ax25InfoBytes ∨ packet.cells[bitLength / 8 - tailBytes]? ≠ some 0)
    (scans : Prop) (hscans : scans) :
    Trimmed content (ax25InfoBytes - extra) scans (tailBytes - extra) := by
  have hinfo := hspec.le_info
  have hindex := hspec.le_index
  have hinside (i : ℕ) (hi : i < content.length) : packet.cells[i + 1]? = content[i]? := by
    rw [hcells, List.getElem?_cons_succ, List.getElem?_append_left hi]
  refine
    { le_length := by omega
      le_bound := by omega
      zeros := ?_
      idle := fun hidle => absurd hscans hidle
      stops := fun _ => ?_ }
  · intro j hj
    have hzero := hspec.zeros (j + extra) (by omega)
    rw [show bitLength / 8 - (j + extra) = content.length - 1 - j + 1 by omega,
      hinside _ (by omega)] at hzero
    exact hzero
  · rcases hend with hbound | hne
    · left
      omega
    · right
      rcases Nat.lt_or_ge (tailBytes - extra) content.length with hlt | hge
      · right
        rwa [show bitLength / 8 - tailBytes = content.length - 1 - (tailBytes - extra) + 1 by omega,
          hinside _ (by omega)] at hne
      · left
        omega

/-- The scan starts on the last byte of the content, or behind it when the bits end with a
whole byte. -/
def scanBound (kept : List Bool) : ℕ := if kept.length % 8 = 0 then 254 else 255

/-- The scan gets past the byte behind the content. -/
def ScanEnters (cells : List Byte) (kept : List Bool) : Prop :=
  kept.length % 8 = 0 → cells[byteCount kept + 1]? = some 0

/-- The packet up to a flag that is put behind `k` bytes of the content. -/
theorem take_closed {content rest : List Byte} {k : ℕ} (hk : k ≤ content.length)
    (hplace : k + 1 < (ax25Flag :: (content ++ rest)).length) :
    ((ax25Flag :: (content ++ rest)).set (k + 1) ax25Flag).take (k + 1 + 1) =
      ax25Flag :: (content.take k ++ [ax25Flag]) := by
  rw [take_succ_set _ _ hplace, List.take_succ_cons, List.take_append_of_le_length hk,
    List.cons_append]

/-- The packet that is left when the scan has taken `removed` bytes of the content away. -/
theorem ax25Unstuff_closes {n packetLen tailBytes removed : ℕ} {packet content rest : List Byte}
    {data : Block Byte n} {s : UnstuffState n} (hrun : unstuffBits packet packetLen data = .ok s)
    (hscan : whileLoop (tailGuard s.unstuffedPacket s.unstuffedBitLength)
      (fun tailBytes => .ok (tailBytes + 1)) (2 ^ 8) 0 = .ok tailBytes)
    (hcells : s.unstuffedPacket.cells = ax25Flag :: (content ++ rest))
    (hceil : (s.unstuffedBitLength + 7) / 8 = content.length + 1) (hroom : content.length + 1 < n)
    (hremoved : removed ≤ content.length) (hnone : tailBytes = 0 → removed = 0)
    (hsome : tailBytes ≠ 0 → s.unstuffedBitLength / 8 + removed = content.length + tailBytes) :
    ∃ result, ax25Unstuff packet packetLen data = .ok result ∧
      result.unstuffedPacketLen = content.length + 2 - removed ∧
      result.unstuffedPacket.cells.take result.unstuffedPacketLen =
        ax25Flag :: (content.take (content.length - removed) ++ [ax25Flag]) := by
  have hplace : content.length - removed + 1 < n := by omega
  have hzero (h : tailBytes = 0) :
      (s.unstuffedBitLength + 7) / 8 = content.length - removed + 1 := by
    have := hnone h
    omega
  have hpos (h : tailBytes ≠ 0) :
      s.unstuffedBitLength / 8 + 1 = content.length - removed + 1 + tailBytes := by
    have := hsome h
    omega
  have hclosed := ax25Unstuff_of_scan hrun hscan hzero hpos hplace
  refine ⟨_, hclosed, ?_, ?_⟩
  · change content.length - removed + 1 + 1 = content.length + 2 - removed
    omega
  · rw [← s.unstuffedPacket.length_cells, hcells] at hplace
    simp only [hcells]
    exact take_closed (by omega) hplace

/-- `ax25Unstuff` in a buffer with any contents and room for the kept bits. -/
theorem ax25Unstuff_eq {n : ℕ} {packet : List Byte} {packetLen : ℕ} (data : Block Byte n)
    {kept : List Bool} (hkept : destuff 5 (contentBits packet packetLen) = kept)
    (hlen : packetLen ≤ packet.length) (hroom : byteCount kept + 1 < n)
    (hlength16 : 8 + kept.length < 2 ^ 16) :
    ∃ removed result, ax25Unstuff packet packetLen data = .ok result ∧
      Trimmed (mixedBytes data.cells kept) (scanBound kept) (ScanEnters data.cells kept) removed ∧
      result.unstuffedPacketLen = byteCount kept + 2 - removed ∧
      result.unstuffedPacket.cells.take result.unstuffedPacketLen =
        ax25Flag :: ((mixedBytes data.cells kept).take (byteCount kept - removed) ++
          [ax25Flag]) := by
  have hbytes := length_add_padding kept
  have hpadding := padding_lt kept
  obtain ⟨s, hrun, hlength, hcells⟩ := unstuffBits_eq data hlen (by rw [hkept]; omega)
    (by rw [hkept]; omega)
  rw [hkept] at hlength hcells
  rw [orBits_flag (by rw [data.length_cells]; omega)] at hcells
  have hcount : (mixedBytes data.cells kept).length = byteCount kept :=
    length_mixedBytes (by rw [data.length_cells]; omega)
  have hbehind : s.unstuffedPacket.cells[byteCount kept + 1]? =
      data.cells[byteCount kept + 1]? := by
    rw [hcells, List.getElem?_cons_succ, List.getElem?_append_right (Nat.le_of_eq hcount), hcount,
      Nat.sub_self, List.getElem?_drop, Nat.add_zero]
  generalize mixedBytes data.cells kept = content at hcells hcount ⊢
  rw [← hcount] at hroom hbehind ⊢
  have hindex : s.unstuffedBitLength / 8 < n := by omega
  have hceil : (s.unstuffedBitLength + 7) / 8 = content.length + 1 := by omega
  rcases tailLoop_eq hindex (by rw [hcells]; rfl) with ⟨t, hscan, hspec, hend⟩
  by_cases hwhole : kept.length % 8 = 0
  · have hstart : s.unstuffedBitLength / 8 = content.length + 1 := by omega
    by_cases henters : data.cells[content.length + 1]? = some 0
    · have hpos : 1 ≤ t := by
        rcases hend with hbound | hne
        · rw [hbound]
          decide
        · by_contra hzero
          apply hne
          rw [hstart, show t = 0 by omega, Nat.sub_zero, hbehind, henters]
      have htrim := trimmed_of_scan hcells hstart hpos hspec hend
        (ScanEnters data.cells kept) fun _ => hcount ▸ henters
      rcases ax25Unstuff_closes hrun hscan hcells hceil hroom htrim.le_length (by omega)
        (by omega) with ⟨result, hok, hlen', htake⟩
      refine ⟨t - 1, result, hok, ?_, hlen', htake⟩
      rwa [scanBound, if_pos hwhole]
    · have hzero : t = 0 := by
        by_contra hpos
        have hfirst := hspec.zeros 0 (by omega)
        rw [Nat.sub_zero, hstart, hbehind] at hfirst
        exact henters hfirst
      rcases ax25Unstuff_closes hrun hscan hcells hceil hroom (Nat.zero_le _) (fun _ => rfl)
        (by omega) with ⟨result, hok, hlen', htake⟩
      refine ⟨0, result, hok, ?_, hlen', htake⟩
      exact
        { le_length := Nat.zero_le _
          le_bound := Nat.zero_le _
          zeros := fun j hj => absurd hj (Nat.not_lt_zero j)
          idle := fun _ => rfl
          stops := fun hscans => absurd (hcount ▸ hscans hwhole) henters }
  · have hstart : s.unstuffedBitLength / 8 = content.length + 0 := by omega
    have htrim := trimmed_of_scan hcells hstart (Nat.zero_le t) hspec hend
      (ScanEnters data.cells kept) fun hzero => absurd hzero hwhole
    rcases ax25Unstuff_closes hrun hscan hcells hceil hroom htrim.le_length id (by omega) with
      ⟨result, hok, hlen', htake⟩
    refine ⟨t, result, hok, ?_, hlen', htake⟩
    rwa [scanBound, if_neg hwhole]

end ObcGsInterface
