import ObcGsInterface.Verification.Link.Addresses

/-! # What an address says

The call sign can be read back from the first six bytes of an address. The last byte keeps
four bits of the SSID and one control bit, but the range checks let through one SSID and one
control value more than fit. -/

namespace ObcGsInterface

open CArray

/-! ## The call sign -/

/-- The characters of a call sign: seven bits, and no space. -/
def CallSignCharacter (c : Byte) : Prop := c.toNat < 128 ∧ c ≠ 0x20

/-- Read a call sign back up to the first space. -/
def decodedCallSign (bytes : List Byte) : List Byte :=
  (bytes.takeWhile fun b => b ≠ ax25AddressSpaceByte).map fun b : Byte => b >>> 1

private theorem shifted_character {c : Byte} (h : CallSignCharacter c) :
    c <<< 1 ≠ ax25AddressSpaceByte ∧ (c <<< 1) >>> 1 = c := by
  have hall : ∀ c : Byte, c.toNat < 128 → c ≠ 0x20 →
      c <<< 1 ≠ ax25AddressSpaceByte ∧ (c <<< 1) >>> 1 = c := by decide
  exact hall c h.1 h.2

theorem decodedCallSign_encoded {callSign : List Byte}
    (hcharacters : ∀ c ∈ callSign, CallSignCharacter c) :
    decodedCallSign (encodedCallSign callSign) = callSign := by
  rw [decodedCallSign, encodedCallSign, List.takeWhile_append_of_pos, List.takeWhile_replicate]
  · simp only [ne_eq, not_true_eq_false, decide_false, Bool.false_eq_true, if_false,
      List.append_nil, List.map_map]
    conv_rhs => rw [← List.map_id callSign]
    exact List.map_congr_left fun c hc => (shifted_character (hcharacters c hc)).2
  · intro b hb
    rcases List.mem_map.mp hb with ⟨c, hc, rfl⟩
    simpa using (shifted_character (hcharacters c hc)).1

/-! ## The last byte -/

/-- The last byte of an address. -/
def addressLastByte (endFlag ssid controlBit : Byte) : Byte :=
  ((ssid <<< 1) ||| ax25AddressReserveBitMask) ||| (controlBit <<< 7) ||| endFlag

private theorem toNat_addressLastByte {endFlag : Byte}
    (hflag : endFlag = 0 ∨ endFlag = ax25AddressEndFlag) {ssid controlBit : Byte}
    (hssid : ssid.toNat ≤ 16) (hcontrol : controlBit.toNat ≤ 2) :
    (addressLastByte endFlag ssid controlBit).toNat =
      96 + 2 * (ssid.toNat % 16) + 128 * (controlBit.toNat % 2) + endFlag.toNat := by
  have hdest (s : Fin 17) (c : Fin 3) :
      (addressLastByte 0 (BitVec.ofNat 8 s) (BitVec.ofNat 8 c)).toNat =
        96 + 2 * (s.val % 16) + 128 * (c.val % 2) := by
    revert s c
    decide
  have hsource (s : Fin 17) (c : Fin 3) :
      (addressLastByte ax25AddressEndFlag (BitVec.ofNat 8 s) (BitVec.ofNat 8 c)).toNat =
        96 + 2 * (s.val % 16) + 128 * (c.val % 2) + ax25AddressEndFlag.toNat := by
    revert s c
    decide
  rcases hflag with rfl | rfl
  · simpa using hdest ⟨ssid.toNat, by omega⟩ ⟨controlBit.toNat, by omega⟩
  · simpa using hsource ⟨ssid.toNat, by omega⟩ ⟨controlBit.toNat, by omega⟩

/-! ## Whole addresses -/

/-- The two fields of a frame that hold an address. -/
inductive AddressField where
  | destination
  | source
  deriving DecidableEq, Repr

/-- The encoder of a field. -/
def AddressField.encode : AddressField → Ax25Addr → Option (List Byte) → ℕ → Byte → Byte →
    Except Fault (ErrorCode × Ax25Addr)
  | .destination => ax25GetDestAddress
  | .source => ax25GetSourceAddress

/-- What the encoder of a field ORs into the last byte. -/
def AddressField.endFlag : AddressField → Byte
  | .destination => 0
  | .source => ax25AddressEndFlag

theorem AddressField.encode_eq (field : AddressField) :
    field.encode = encodeAddress ax25DestAddrBytes field.endFlag := by
  cases field <;> rfl

theorem AddressField.endFlag_cases (field : AddressField) :
    field.endFlag = 0 ∨ field.endFlag = ax25AddressEndFlag := by
  cases field
  · exact Or.inl rfl
  · exact Or.inr rfl

/-- A call sign, an SSID and a control bit. -/
structure AddressArguments where
  callSign : List Byte
  ssid : Byte
  controlBit : Byte
  deriving DecidableEq, Repr

namespace AddressArguments

/-- The call sign has at most six characters, none of them a space. -/
structure WellFormed (arguments : AddressArguments) : Prop where
  length_le : arguments.callSign.length ≤ callSignBytes
  characters : ∀ c ∈ arguments.callSign, CallSignCharacter c

/-- The encoder of the field accepts the arguments and fills in `encoded`; the call sign is
the beginning of the array it is given, and `old` is what the address held before. -/
def Encodes (arguments : AddressArguments) (field : AddressField) (encoded : Ax25Addr) : Prop :=
  ∃ (old : Ax25Addr) (rest : List Byte),
    field.encode old (some (arguments.callSign ++ rest)) arguments.callSign.length
      arguments.ssid arguments.controlBit = .ok (.success, encoded)

/-- Both SSIDs leave the same four bits and both control values the same bit: they are equal,
or the one is zero and the other the first value that does not fit. -/
def SameLastByte (x y : AddressArguments) : Prop :=
  (x.ssid = y.ssid ∨ x.ssid = 0 ∧ y.ssid = 16 ∨ x.ssid = 16 ∧ y.ssid = 0) ∧
  (x.controlBit = y.controlBit ∨ x.controlBit = 0 ∧ y.controlBit = 2 ∨
    x.controlBit = 2 ∧ y.controlBit = 0)

/-- The arguments differ, but not in the call sign, and the last bytes are the same. -/
def Collide (x y : AddressArguments) : Prop :=
  x ≠ y ∧ x.callSign = y.callSign ∧ x.SameLastByte y

/-- An encoder that succeeds has accepted its arguments, and its seven bytes are these. -/
theorem Encodes.cells {arguments : AddressArguments} {field : AddressField} {encoded : Ax25Addr}
    (h : arguments.Encodes field encoded) :
    arguments.ssid.toNat ≤ 16 ∧ arguments.controlBit.toNat ≤ 2 ∧
      arguments.callSign.length ≤ callSignBytes ∧
      encoded.data.cells = encodedCallSign arguments.callSign ++
        [addressLastByte field.endFlag arguments.ssid arguments.controlBit] := by
  rcases h with ⟨old, rest, h⟩
  rw [AddressField.encode_eq] at h
  have hbounds : arguments.ssid.toNat ≤ 16 ∧ arguments.controlBit.toNat ≤ 2 ∧
      arguments.callSign.length ≤ callSignBytes := by
    by_contra hreject
    have hinvalid : arguments.ssid.toNat > 16 ∨ arguments.controlBit.toNat > 2 ∨
        arguments.callSign.length > callSignBytes := by omega
    rw [encodeAddress_reject old (Or.inr hinvalid), Except.ok.injEq, Prod.mk.injEq] at h
    exact absurd h.1 (by decide)
  rcases hbounds with ⟨hssid, hcontrol, hlength⟩
  obtain ⟨address, hrun, -, hcells⟩ := encodeAddress_eq old field.endFlag hssid hcontrol hlength
    (List.length_append ▸ Nat.le_add_right _ rest.length)
  rw [h, Except.ok.injEq, Prod.mk.injEq] at hrun
  refine ⟨hssid, hcontrol, hlength, ?_⟩
  rw [hrun.2, hcells, List.take_left]
  rfl

theorem sameLastByte_iff {x y : AddressArguments} (field : AddressField)
    (hx : x.ssid.toNat ≤ 16 ∧ x.controlBit.toNat ≤ 2)
    (hy : y.ssid.toNat ≤ 16 ∧ y.controlBit.toNat ≤ 2) :
    x.SameLastByte y ↔ addressLastByte field.endFlag x.ssid x.controlBit =
      addressLastByte field.endFlag y.ssid y.controlBit := by
  have hbits (a b : Byte) : a = b ↔ a.toNat = b.toNat := BitVec.toNat_inj.symm
  have hzero : (0 : Byte).toNat = 0 := rfl
  have htwo : (2 : Byte).toNat = 2 := rfl
  have hsixteen : (16 : Byte).toNat = 16 := rfl
  rw [SameLastByte, hbits (addressLastByte _ _ _),
    toNat_addressLastByte field.endFlag_cases hx.1 hx.2,
    toNat_addressLastByte field.endFlag_cases hy.1 hy.2]
  simp only [hbits, hzero, htwo, hsixteen]
  omega

/-- Two encoded addresses are equal exactly when the call signs and the last bytes are. -/
theorem encoded_eq_iff {x y : AddressArguments} {field : AddressField} {encoded encoded' : Ax25Addr}
    (hx : x.WellFormed) (hy : y.WellFormed) (hencoded : x.Encodes field encoded)
    (hencoded' : y.Encodes field encoded') :
    encoded.data = encoded'.data ↔ x.callSign = y.callSign ∧ x.SameLastByte y := by
  rcases hencoded.cells with ⟨hssid, hcontrol, hlength, hcells⟩
  rcases hencoded'.cells with ⟨hssid', hcontrol', hlength', hcells'⟩
  have hsame := sameLastByte_iff field ⟨hssid, hcontrol⟩ ⟨hssid', hcontrol'⟩
  constructor
  · intro heq
    rw [heq, hcells'] at hcells
    have hparts := List.append_inj hcells
      ((length_encodedCallSign hlength').trans (length_encodedCallSign hlength).symm)
    have hcallSign := congrArg decodedCallSign hparts.1
    rw [decodedCallSign_encoded hx.characters, decodedCallSign_encoded hy.characters] at hcallSign
    exact ⟨hcallSign.symm, hsame.mpr (List.singleton_inj.mp hparts.2).symm⟩
  · intro hparts
    ext1
    rw [hcells, hcells', hparts.1, hsame.mp hparts.2]

/-- The extension bit is set in the last byte of a source address and nowhere else. -/
theorem extensionBits {arguments : AddressArguments} {field : AddressField} {encoded : Ax25Addr}
    (h : arguments.Encodes field encoded) :
    encoded.data.cells.map (fun b : Byte => b.getLsbD 0) =
      List.replicate callSignBytes false ++ [decide (field = .source)] := by
  rcases h.cells with ⟨-, -, hlength, hcells⟩
  rw [hcells, List.map_append]
  congr 1
  · rw [List.eq_replicate_iff, List.length_map, length_encodedCallSign hlength]
    refine ⟨rfl, ?_⟩
    intro bit hbit
    rcases List.mem_map.mp hbit with ⟨b, hb, rfl⟩
    rcases List.mem_append.mp hb with hb | hb
    · rcases List.mem_map.mp hb with ⟨c, -, rfl⟩
      simp
    · rw [List.eq_of_mem_replicate hb]
      rfl
  · cases field <;>
      simp [addressLastByte, AddressField.endFlag, ax25AddressReserveBitMask, ax25AddressEndFlag]

/-- Accepted arguments can be read back from the address exactly when they do not collide
in the SSID 16 or the control value 2; the extension bits are always right. -/
theorem encodes_faithfully_iff (field : AddressField) {x y : AddressArguments}
    (encoded encoded' : Ax25Addr) (hx : x.WellFormed) (hy : y.WellFormed)
    (hencoded : x.Encodes field encoded) (hencoded' : y.Encodes field encoded') :
    ((encoded.data = encoded'.data → x = y) ↔ ¬ x.Collide y) ∧
    encoded.data.cells.map (fun b : Byte => b.getLsbD 0) =
      List.replicate callSignBytes false ++ [decide (field = .source)] := by
  refine ⟨?_, extensionBits hencoded⟩
  rw [encoded_eq_iff hx hy hencoded hencoded', Collide]
  tauto

/-- The arguments for a station with SSID and control bit zero. -/
def ofCallSign (callSign : List Byte) : AddressArguments := ⟨callSign, 0, 0⟩

private theorem wellFormed_of_forall {arguments : AddressArguments}
    (hlength : arguments.callSign.length ≤ callSignBytes)
    (hcharacters : arguments.callSign.Forall fun c => c.toNat < 128 ∧ c ≠ 0x20) :
    arguments.WellFormed :=
  ⟨hlength, List.forall_iff_forall_mem.mp hcharacters⟩

theorem encodes_faithfully_stations :
    ((cubeSatAddress = ⟨groundDest, rfl⟩ →
      ofCallSign cubeSatCallsign = ofCallSign groundStationCallsign) ↔
        ¬ (ofCallSign cubeSatCallsign).Collide (ofCallSign groundStationCallsign)) ∧
    cubeSatDest.map (fun b : Byte => b.getLsbD 0) = List.replicate 6 false ++ [false] :=
  encodes_faithfully_iff .destination cubeSatLink ⟨⟨groundDest, rfl⟩, 7⟩ (wellFormed_of_forall (by decide) (by decide))
    (wellFormed_of_forall (by decide) (by decide)) ⟨Ax25Addr.zero, [], rfl⟩
    ⟨Ax25Addr.zero, [], rfl⟩

/-- The satellite with SSID 16 has the address of the satellite with SSID 0. -/
theorem encodes_faithfully_fails :
    ¬ ∀ (field : AddressField) (x y : AddressArguments) (encoded encoded' : Ax25Addr),
      x.WellFormed → y.WellFormed → x.Encodes field encoded → y.Encodes field encoded' →
        encoded.data = encoded'.data → x = y := by
  intro hall
  have heq := hall .destination (ofCallSign cubeSatCallsign) ⟨cubeSatCallsign, 16, 0⟩
    cubeSatLink cubeSatLink (wellFormed_of_forall (by decide) (by decide))
    (wellFormed_of_forall (by decide) (by decide)) ⟨Ax25Addr.zero, [], rfl⟩
    ⟨Ax25Addr.zero, [], rfl⟩ rfl
  exact absurd heq (by decide)

end AddressArguments

end ObcGsInterface
