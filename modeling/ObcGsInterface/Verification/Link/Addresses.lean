import ObcGsInterface.Model.Ax25.Link

/-! # Addresses and check sequences

What the address encoder writes for the arguments it accepts, and the frame check sequence
as a function of the bytes it covers. -/

namespace ObcGsInterface

open CArray

/-! ## Addresses -/

/-- The six bytes of a call sign in an address: shifted to the left and filled up with
spaces. -/
def encodedCallSign (callSign : List Byte) : List Byte :=
  callSign.map (fun c : Byte => c <<< 1) ++
    List.replicate (callSignBytes - callSign.length) ax25AddressSpaceByte

theorem length_encodedCallSign {callSign : List Byte} (h : callSign.length ≤ callSignBytes) :
    (encodedCallSign callSign).length = callSignBytes := by
  rw [encodedCallSign, List.length_append, List.length_map, List.length_replicate]
  omega

/-- What the encoder writes, whatever the address held before. -/
theorem encodeAddress_eq (old : Ax25Addr) (endFlag : Byte) {ssid controlBit : Byte}
    {callSign : List Byte} {callSignLength : ℕ} (hssid : ssid.toNat ≤ 16)
    (hcontrol : controlBit.toNat ≤ 2) (hlength : callSignLength ≤ callSignBytes)
    (hread : callSignLength ≤ callSign.length) :
    ∃ address, encodeAddress ax25DestAddrBytes endFlag old (some callSign)
        callSignLength ssid controlBit = .ok (.success, address) ∧
      address.length = ax25DestAddrBytes ∧
      address.data.cells = encodedCallSign (callSign.take callSignLength) ++
        [((ssid <<< 1) ||| ax25AddressReserveBitMask) ||| (controlBit <<< 7) ||| endFlag] := by
  have hbytes : ax25DestAddrBytes = callSignBytes + 1 := rfl
  set shifted := (callSign.take callSignLength).map (fun c : Byte => c <<< 1) with hshifted
  set spaces := List.replicate (callSignBytes - callSignLength) ax25AddressSpaceByte with hspaces
  have hshiftedLength : shifted.length = callSignLength := by
    rw [hshifted, List.length_map, List.length_take, Nat.min_eq_left hread]
  have hspacesLength : spaces.length = callSignBytes - callSignLength := List.length_replicate
  obtain ⟨copied, hcopied, hcopiedCells⟩ :
      ∃ result, (List.range' 0 shifted.length).foldlM
          (fun data i => do Block.store data i ((← load callSign i) <<< 1)) old.data =
            .ok result ∧
        result.cells = overwrite old.data.cells 0 shifted := by
    refine Block.foldlM_store _ ?_ (by omega)
    intro block j hj
    rw [Nat.zero_add, load_of_lt _ (by omega), ok_bind]
    simp [hshifted]
  obtain ⟨filled, hfilled, hfilledCells⟩ :
      ∃ result, (List.range' callSignLength spaces.length).foldlM
          (fun data i => Block.store data i ax25AddressSpaceByte) copied = .ok result ∧
        result.cells = overwrite copied.cells callSignLength spaces := by
    refine Block.foldlM_store _ ?_ (by omega)
    intro block j hj
    simp [hspaces]
  -- the call sign and the spaces leave the last byte of the old address
  have hrest : ((old.data.cells.drop shifted.length).drop spaces.length).length = 1 := by
    rw [List.length_drop, List.length_drop, old.data.length_cells]
    omega
  obtain ⟨oldLast, holdLast⟩ := List.length_eq_one_iff.mp hrest
  have hcells : filled.cells = (shifted ++ spaces) ++ [oldLast] := by
    have hfirst := overwrite_behind [] old.data.cells shifted
    rw [List.length_nil, List.nil_append, List.nil_append] at hfirst
    rw [hfilledCells, hcopiedCells, hfirst, ← hshiftedLength, overwrite_behind, holdLast,
      List.append_assoc]
  rw [hshiftedLength] at hcopied
  rw [hspacesLength] at hfilled
  have hlast : (shifted ++ spaces).length = ax25DestAddrBytes - 1 := by
    rw [List.length_append]
    omega
  obtain ⟨result, hstore, hresult⟩ := Block.store_append
    (ssid <<< 1 ||| ax25AddressReserveBitMask ||| controlBit <<< 7 ||| endFlag) hcells hlast
  refine ⟨⟨result, ax25DestAddrBytes⟩, ?_, rfl, ?_⟩
  · rw [encodeAddress, List.range_eq_range']
    simp only [if_neg (Nat.not_lt.mpr hssid), if_neg (Nat.not_lt.mpr hcontrol),
      if_neg (Nat.not_lt.mpr hlength), hcopied, ok_bind, hfilled, hstore, pure_eq_ok]
  · rw [hresult, encodedCallSign, List.length_take, Nat.min_eq_left hread]

/-- The encoder leaves the address alone when it rejects its arguments. -/
theorem encodeAddress_reject {addressBytes callSignLength : ℕ} {endFlag ssid controlBit : Byte}
    (address : Ax25Addr) {callSign : Option (List Byte)}
    (h : callSign = none ∨ ssid.toNat > 16 ∨ controlBit.toNat > 2 ∨
      callSignLength > callSignBytes) :
    encodeAddress addressBytes endFlag address callSign callSignLength ssid controlBit =
      .ok (.invalidArg, address) := by
  cases callSign with
  | none => rfl
  | some callSign =>
      simp only [encodeAddress]
      split_ifs with hssid hcontrol hlength
      · rfl
      · rfl
      · rfl
      · rcases h with h | h | h | h <;> contradiction

/-- The encoder reads every byte of the call sign that it accepts. -/
theorem encodeAddress_reads {addressBytes callSignLength : ℕ} {endFlag ssid controlBit : Byte}
    {address : Ax25Addr} {callSign : List Byte} {result : ErrorCode × Ax25Addr}
    (hssid : ssid.toNat ≤ 16) (hcontrol : controlBit.toNat ≤ 2)
    (hlength : callSignLength ≤ callSignBytes)
    (h : encodeAddress addressBytes endFlag address (some callSign) callSignLength ssid controlBit =
      .ok result) : callSignLength ≤ callSign.length := by
  simp only [encodeAddress, if_neg (Nat.not_lt.mpr hssid), if_neg (Nat.not_lt.mpr hcontrol),
    if_neg (Nat.not_lt.mpr hlength)] at h
  obtain ⟨copied, hcopied, -⟩ := bind_eq_ok.mp h
  by_contra hlt
  obtain ⟨s, t, hround⟩ := round_of_foldlM_eq_ok hcopied
    (List.mem_range.mpr (Nat.lt_of_not_ge hlt))
  obtain ⟨byte, hload, -⟩ := bind_eq_ok.mp hround
  rw [load_eq_ok, List.getElem?_eq_none (Nat.le_refl _)] at hload
  contradiction

/-! ## Call signs -/

/-- A call sign and SSID that the encoder accepts. -/
structure CallSign where
  bytes : List Byte
  ssid : Byte
  length_le : bytes.length ≤ callSignBytes
  ssid_le : ssid.toNat ≤ 16

/-- The call sign that the arguments of `ax25GetDestAddress` name, if it accepts them. -/
def CallSign.ofArguments (callSign : Option (List Byte)) (callSignLength : ℕ) (ssid : Byte) :
    Option CallSign :=
  match callSign with
  | none => none
  | some callSign =>
      if h : callSignLength ≤ callSignBytes ∧ ssid.toNat ≤ 16 then
        some ⟨callSign.take callSignLength, ssid,
          Nat.le_trans (List.length_take_le _ _) h.1, h.2⟩
      else none

/-- The destination address of a station: its shifted call sign and its SSID, with the end
bit clear. -/
def CallSign.address (callSign : CallSign) : Block Byte ax25DestAddrBytes where
  cells := encodedCallSign callSign.bytes ++ [callSign.ssid <<< 1 ||| ax25AddressReserveBitMask]
  length_cells := by
    rw [List.length_append, length_encodedCallSign callSign.length_le]
    rfl

/-- The destination encoder returns the address of the call sign, or zeros. -/
theorem ax25GetDestAddress_eq {callSign : Option (List Byte)} {callSignLength : ℕ} {ssid : Byte}
    {result : ErrorCode × Ax25Addr}
    (h : ax25GetDestAddress Ax25Addr.zero callSign callSignLength ssid 0 = .ok result) :
    result =
      match CallSign.ofArguments callSign callSignLength ssid with
      | some accepted => (.success, ⟨accepted.address, ax25DestAddrBytes⟩)
      | none => (.invalidArg, Ax25Addr.zero) := by
  rw [ax25GetDestAddress] at h
  cases callSign with
  | none =>
      rw [encodeAddress_reject _ (.inl rfl), Except.ok.injEq] at h
      exact h.symm
  | some callSign =>
      by_cases haccepted : callSignLength ≤ callSignBytes ∧ ssid.toNat ≤ 16
      · have hread := encodeAddress_reads haccepted.2 (by decide) haccepted.1 h
        obtain ⟨address, hencode, hlength, hcells⟩ := encodeAddress_eq Ax25Addr.zero 0 haccepted.2
          (show (0 : Byte).toNat ≤ 2 by decide) haccepted.1 hread
        rw [h, Except.ok.injEq] at hencode
        have hdata : address.data = CallSign.address ⟨callSign.take callSignLength, ssid,
            Nat.le_trans (List.length_take_le _ _) haccepted.1, haccepted.2⟩ := by
          ext1
          rw [hcells]
          simp [CallSign.address]
        obtain ⟨data, length⟩ := address
        simp only [CallSign.ofArguments, dif_pos haccepted]
        rw [hencode, ← hdata, ← hlength]
      · rw [encodeAddress_reject _ (by
          rcases not_and_or.mp haccepted with hlength | hssid
          · exact .inr (.inr (.inr (Nat.lt_of_not_ge hlength)))
          · exact .inr (.inl (Nat.lt_of_not_ge hssid))), Except.ok.injEq] at h
        simp only [CallSign.ofArguments, dif_neg haccepted]
        exact h.symm

/-! ## The two stations -/

/-- The source address of every frame. -/
def groundSource : List Byte := [0x82, 0xA8, 0x98, 0x82, 0xA6, 0x40, 0x61]

theorem groundStationSrcAddr_eq : groundStationSrcAddr = .ok ⟨⟨groundSource, rfl⟩, 7⟩ := rfl

/-- The destination address of the satellite. -/
def cubeSatDest : List Byte := [0x82, 0x96, 0x92, 0xA8, 0x9E, 0x40, 0x60]

/-- The address of the satellite as a block. -/
def cubeSatAddress : Block Byte ax25DestAddrBytes := ⟨cubeSatDest, rfl⟩

/-- The link address of the satellite. -/
def cubeSatLink : Ax25Addr := ⟨cubeSatAddress, ax25DestAddrBytes⟩

theorem stationDestAddr_cubeSat : stationDestAddr cubeSatCallsign = .ok cubeSatLink := rfl

/-- The destination address of the ground station. -/
def groundDest : List Byte := [0x82, 0xA8, 0x98, 0x82, 0xA6, 0x40, 0x60]

theorem stationDestAddr_groundStation :
    stationDestAddr groundStationCallsign = .ok ⟨⟨groundDest, rfl⟩, ax25DestAddrBytes⟩ := rfl

/-! ## Check sequences -/

/-- The checksum of a byte string. -/
def crcOf (bytes : List Byte) : BitVec 16 := bytes.foldl crc16Ccitt 0

theorem calculateCrc16Ccitt_eq {data : List Byte} {dataLen : ℕ} (h : dataLen ≤ data.length) :
    calculateCrc16Ccitt data dataLen = .ok (crcOf (data.take dataLen)) :=
  Loop.foldlM_load crc16Ccitt h 0

theorem getLsbD_one_shiftLeft {i : ℕ} (hi : i < 16) (j : ℕ) :
    ((1 : BitVec 16) <<< i).getLsbD j = decide (i = j) := by
  rw [BitVec.getLsbD_shiftLeft]
  by_cases hij : i = j
  · subst hij
    simp [hi]
  · simp [hij]
    omega

theorem testBit_ne_zero (x : BitVec 16) {i : ℕ} (hi : i < 16) :
    x &&& ((1 : BitVec 16) <<< i) ≠ 0 ↔ x.getLsbD i = true := by
  have hone := getLsbD_one_shiftLeft hi
  constructor
  · intro hne
    by_contra hbit
    refine hne (BitVec.eq_of_getLsbD_eq fun j hj => ?_)
    rw [BitVec.getLsbD_and, hone]
    by_cases hij : i = j
    · subst hij
      simpa using hbit
    · simp [hij]
  · intro hbit hzero
    have hand : (x &&& ((1 : BitVec 16) <<< i)).getLsbD i = true := by
      rw [BitVec.getLsbD_and, hone, hbit]
      simp
    rw [hzero] at hand
    simp at hand

theorem getLsbD_reverseUint16 (x : BitVec 16) {j : ℕ} (hj : j < 16) :
    (reverseUint16 x).getLsbD j = x.getLsbD (15 - j) := by
  have hstep (k : ℕ) (hk : k ≤ 16) :
      ((List.range k).foldl (fun reverseNum i =>
          if x &&& ((1 : BitVec 16) <<< i) ≠ 0 then reverseNum ||| ((1 : BitVec 16) <<< (15 - i))
          else reverseNum) (0 : BitVec 16)).getLsbD j = (decide (15 - j < k) && x.getLsbD (15 - j)) := by
    induction k with
    | zero => simp
    | succ k ih =>
        have hplace : ((1 : BitVec 16) <<< (15 - k)).getLsbD j = decide (15 - j = k) := by
          rw [getLsbD_one_shiftLeft (by omega)]
          congr 1
          apply propext
          omega
        rw [List.range_succ, List.foldl_append, List.foldl_cons, List.foldl_nil]
        by_cases hbit : x.getLsbD k
        · rw [if_pos ((testBit_ne_zero x (by omega)).mpr hbit), BitVec.getLsbD_or, ih (by omega),
            hplace]
          by_cases heq : 15 - j = k
          · simp [heq, hbit]
          · have hiff : 15 - j < k + 1 ↔ 15 - j < k := by omega
            simp [heq, hiff]
        · rw [if_neg (mt (testBit_ne_zero x (by omega)).mp hbit), ih (by omega)]
          by_cases heq : 15 - j = k
          · simp [heq, hbit]
          · have hiff : 15 - j < k + 1 ↔ 15 - j < k := by omega
            simp [hiff]
  have hlt : 15 - j < 16 := by omega
  rw [reverseUint16, hstep 16 (Nat.le_refl 16)]
  simp [hlt]

theorem reverseUint16_reverseUint16 (x : BitVec 16) : reverseUint16 (reverseUint16 x) = x := by
  apply BitVec.eq_of_getLsbD_eq
  intro j hj
  rw [getLsbD_reverseUint16 _ hj, getLsbD_reverseUint16 _ (by omega)]
  congr 1
  omega

end ObcGsInterface
