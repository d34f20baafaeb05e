import ObcGsInterface.Model.Telemetry
import ObcGsInterface.Verification.DataPack
import Mathlib.Tactic.IntervalCases

/-! # The wire image of a telemetry record

Packing a supported record stores its image. Unpacking accepts the images of these records,
and besides them every header with an id that has no function. -/

namespace ObcGsInterface

open CArray Cursor BigEndian

/-! ## Ids -/

namespace TelemetryDataId

theorem value_of_ofValue? {n : ℕ} {id : TelemetryDataId} (h : ofValue? n = some id) :
    n = id.value := by
  unfold ofValue? at h
  split at h
  all_goals first
    | exact congrArg value (Option.some.inj h)
    | contradiction

theorem ofValue?_value (id : TelemetryDataId) : ofValue? id.value = some id := by
  cases id <;> rfl

theorem value_lt (id : TelemetryDataId) : id.value < numUnpackFns := by
  cases id <;> decide

end TelemetryDataId

/-- Both tables have a function for the id. -/
def TelemetryDataId.Supported (id : TelemetryDataId) : Prop :=
  id = .obcTemp ∨ id = .obcState ∨ id = .pong

instance : DecidablePred TelemetryDataId.Supported := fun _ =>
  inferInstanceAs (Decidable (_ ∨ _))

namespace TelemetryData

/-- The id of a record, if it is one. -/
def dataId? (data : TelemetryData) : Option TelemetryDataId :=
  TelemetryDataId.ofValue? data.id.toNat

/-- The bytes of the member of the union that belongs to an id. -/
def member (data : TelemetryData) : TelemetryDataId → List Byte
  | .obcTemp => bytes32 data.obcTemp
  | .obcState => [data.obcState]
  | _ => []

/-- The payload of a record: the member of its union that belongs to its id. -/
def payload (data : TelemetryData) : List Byte := (data.dataId?.map data.member).getD []

/-- The wire image of a record. -/
def image (data : TelemetryData) : List Byte :=
  data.id.setWidth 8 :: (bytes32 data.timestamp ++ data.payload)

/-- Equality of records up to the members of the union that do not belong to the id. -/
structure SameRecord (a b : TelemetryData) : Prop where
  id_eq : a.id = b.id
  timestamp_eq : a.timestamp = b.timestamp
  payload_eq : a.payload = b.payload

theorem payload_eq_member {data : TelemetryData} {id : TelemetryDataId}
    (h : data.dataId? = some id) : data.payload = data.member id := by
  rw [payload, h]
  rfl

theorem length_member_le (data : TelemetryData) (id : TelemetryDataId) :
    (data.member id).length ≤ 4 := by
  cases id <;> simp [member]

theorem length_payload_le (data : TelemetryData) : data.payload.length ≤ 4 := by
  unfold payload
  cases data.dataId? with
  | none => simp
  | some id => exact data.length_member_le id

theorem length_image (data : TelemetryData) : data.image.length = 5 + data.payload.length := by
  simp [image]
  omega

theorem length_image_le (data : TelemetryData) : data.image.length ≤ 9 := by
  have := data.length_payload_le
  rw [length_image]
  omega

/-- The first byte of an image is the id itself. -/
theorem toNat_setWidth_id {data : TelemetryData} {id : TelemetryDataId}
    (h : data.dataId? = some id) : (data.id.setWidth 8).toNat = id.value := by
  have hvalue := TelemetryDataId.value_of_ofValue? h
  have hlt := id.value_lt
  have hfns : numUnpackFns = 27 := rfl
  rw [BitVec.toNat_setWidth, hvalue, Nat.mod_eq_of_lt (by omega)]

end TelemetryData

/-! ## Packing -/

theorem telemPackFns_eq_none {id : TelemetryDataId} : telemPackFns id = none ↔ ¬ id.Supported := by
  cases id <;> simp [telemPackFns, TelemetryDataId.Supported]

/-- A packing function of the table stores the member that belongs to its id. -/
theorem telemPackFns_eq {id : TelemetryDataId} {packFn : TelemetryPackFn}
    (h : telemPackFns id = some packFn) (data : TelemetryData) (buffer : List Byte)
    (offset : Offset) : packFn data buffer offset = putBytes (data.member id) buffer offset := by
  cases id <;> simp only [telemPackFns, Option.some.injEq, reduceCtorEq] at h <;> subst h
  case obcTemp => exact packUint32_eq _ _ _
  all_goals rfl

/-- What a call of the packer has done that stored the bytes. -/
structure PackedTelemetry (bytes buffer : List Byte) (result : TelemetryPackResult) : Prop where
  err_eq : result.err = .success
  buffer_eq : result.buffer = bytes ++ buffer.drop bytes.length
  numPacked_eq : result.numPacked = BitVec.ofNat 32 bytes.length

/-- A large enough buffer takes the image of a supported record. -/
theorem packTelemetry_of_room {data : TelemetryData} {id : TelemetryDataId}
    (hid : data.dataId? = some id) (hsupported : id.Supported) {buffer : List Byte} {len : ℕ}
    (hlen : maxTelemetryDataSize ≤ len) (hroom : len ≤ buffer.length) (numPacked : BitVec 32) :
    ∃ packed, packTelemetry data buffer len numPacked = .ok packed ∧
      PackedTelemetry data.image buffer packed := by
  obtain ⟨packFn, hpackFn⟩ : ∃ packFn, telemPackFns id = some packFn :=
    Option.ne_none_iff_exists'.mp fun hnone => telemPackFns_eq_none.mp hnone hsupported
  have hshort := data.length_image_le
  have hmax : maxTelemetryDataSize = 12 := rfl
  have hput := putBytes_zero (show data.image.length ≤ buffer.length by omega) (by omega)
  have hentry : TelemetryDataId.ofValue? data.id.toNat = some id := hid
  have hsteps : packTelemetry data buffer len numPacked =
      putBytes data.image buffer 0 >>= fun r => .ok ⟨.success, r.1, r.2⟩ := by
    rw [packTelemetry, if_neg (Nat.not_lt.mpr hlen), hentry, TelemetryData.image,
      TelemetryData.payload_eq_member hid, ← List.singleton_append, putBytes_append, bind_assoc]
    simp only [hpackFn, putBytes_append, bind_assoc, packUint8_eq, packUint32_eq,
      telemPackFns_eq hpackFn]
    rfl
  rw [hput, ok_bind] at hsteps
  exact ⟨_, hsteps, rfl, rfl, rfl⟩

/-- A call that succeeds was for a supported record and had room for the largest one. -/
theorem packTelemetry_success {data : TelemetryData} {buffer : List Byte} {len : ℕ}
    {numPacked : BitVec 32} {result : TelemetryPackResult}
    (hrun : packTelemetry data buffer len numPacked = .ok result)
    (hsuccess : result.err = .success) :
    maxTelemetryDataSize ≤ len ∧ ∃ id, data.dataId? = some id ∧ id.Supported := by
  by_cases hlen : len < maxTelemetryDataSize
  · rw [packTelemetry, if_pos hlen, Except.ok.injEq] at hrun
    rw [← hrun] at hsuccess
    contradiction
  refine ⟨Nat.not_lt.mp hlen, ?_⟩
  rw [packTelemetry, if_neg hlen] at hrun
  cases hid : TelemetryDataId.ofValue? data.id.toNat with
  | none =>
      rw [hid] at hrun
      contradiction
  | some id =>
      refine ⟨id, hid, ?_⟩
      by_contra hsupported
      rw [hid] at hrun
      simp only [telemPackFns_eq_none.mpr hsupported, Except.ok.injEq] at hrun
      rw [← hrun] at hsuccess
      contradiction

/-- A record with an id that has no function is rejected. -/
theorem packTelemetry_reject {data : TelemetryData} {id : TelemetryDataId}
    (hid : data.dataId? = some id) (hsupported : ¬ id.Supported) (buffer : List Byte) {len : ℕ}
    (hlen : maxTelemetryDataSize ≤ len) (numPacked : BitVec 32) :
    packTelemetry data buffer len numPacked = .ok ⟨.invalidArg, buffer, numPacked⟩ := by
  rw [TelemetryData.dataId?] at hid
  simp only [packTelemetry, if_neg (Nat.not_lt.mpr hlen), hid, telemPackFns_eq_none.mpr hsupported]

/-! ## Unpacking -/

theorem telemUnpackFns_eq_none {id : TelemetryDataId} :
    telemUnpackFns id = none ↔ ¬ id.Supported := by
  cases id <;> simp [telemUnpackFns, TelemetryDataId.Supported]

/-- An unpacking function of the table reads the member that belongs to its id. -/
theorem telemUnpackFns_eq_ok {id : TelemetryDataId} {unpackFn : TelemetryUnpackFn}
    (h : telemUnpackFns id = some unpackFn) {buffer : List Byte} {offset offset' : Offset}
    {data result : TelemetryData} (hrun : unpackFn buffer offset data = .ok (offset', result)) :
    result.id = data.id ∧ result.timestamp = data.timestamp ∧
      HoldsBytes buffer offset (result.member id) ∧
      offset' = offset + BitVec.ofNat 32 (result.member id).length := by
  cases id <;> simp only [telemUnpackFns, Option.some.injEq, reduceCtorEq] at h <;> subst h
  case obcTemp =>
    rcases bind_eq_ok.mp hrun with ⟨⟨obcTemp, o⟩, hu, hr⟩
    rcases unpackUint32_eq_ok.mp hu with ⟨hheld, rfl⟩
    simp only [pure_eq_ok, Except.ok.injEq, Prod.mk.injEq] at hr
    rcases hr with ⟨rfl, rfl⟩
    exact ⟨rfl, rfl, hheld, rfl⟩
  case obcState =>
    rcases bind_eq_ok.mp hrun with ⟨⟨obcState, o⟩, hu, hr⟩
    rcases unpackUint8_eq_ok.mp hu with ⟨hheld, rfl⟩
    simp only [pure_eq_ok, Except.ok.injEq, Prod.mk.injEq] at hr
    rcases hr with ⟨rfl, rfl⟩
    exact ⟨rfl, rfl, hheld, rfl⟩
  case pong =>
    simp only [unpackPong, Except.ok.injEq, Prod.mk.injEq] at hrun
    rcases hrun with ⟨rfl, rfl⟩
    exact ⟨rfl, rfl, holds_nil, by simp [TelemetryData.member]⟩

/-- A member that stands in the buffer is unpacked. -/
theorem telemUnpackFns_of_holds {id : TelemetryDataId} {unpackFn : TelemetryUnpackFn}
    (h : telemUnpackFns id = some unpackFn) {buffer : List Byte} {offset : Offset}
    {m : TelemetryData} (hheld : HoldsBytes buffer offset (m.member id)) (data : TelemetryData) :
    ∃ offset' result, unpackFn buffer offset data = .ok (offset', result) ∧
      result.member id = m.member id := by
  cases id <;> simp only [telemUnpackFns, Option.some.injEq, reduceCtorEq] at h <;> subst h
  case obcTemp =>
    refine ⟨offset + 4, { data with obcTemp := m.obcTemp }, ?_, rfl⟩
    rw [unpackObcTemp, unpackFloat, unpackUint32_eq_ok.mpr ⟨hheld, rfl⟩]
    rfl
  case obcState =>
    refine ⟨offset + 1, { data with obcState := m.obcState }, ?_, rfl⟩
    rw [unpackObcState, unpackUint8_eq_ok.mpr ⟨hheld, rfl⟩]
    rfl
  case pong => exact ⟨offset, data, rfl, rfl⟩

/-- The first five bytes of a record. -/
def telemetryHeader (id : TelemetryDataId) (timestamp : BitVec 32) : List Byte :=
  BitVec.ofNat 8 id.value :: bytes32 timestamp

theorem image_eq_header {data : TelemetryData} {id : TelemetryDataId}
    (h : data.dataId? = some id) :
    data.image = telemetryHeader id data.timestamp ++ data.member id := by
  have hbyte : data.id.setWidth 8 = BitVec.ofNat 8 id.value := by
    apply BitVec.eq_of_toNat_eq
    rw [TelemetryData.toNat_setWidth_id h, BitVec.toNat_ofNat, ← TelemetryData.toNat_setWidth_id h,
      Nat.mod_eq_of_lt (BitVec.isLt _)]
  rw [TelemetryData.image, TelemetryData.payload_eq_member h, hbyte, telemetryHeader,
    List.cons_append]

/-- The record that is left by a header whose id has no function. -/
def TelemetryData.skipped (previous : TelemetryData) (id : TelemetryDataId)
    (timestamp : BitVec 32) : TelemetryData :=
  { previous with id := BitVec.ofNat 32 id.value, timestamp := timestamp, obcState := 0xF }

/-- The results of `unpackTelemetry`. -/
inductive UnpackedTelemetry (buffer : List Byte) (offset : Offset) (previous : TelemetryData) :
    TelemetryUnpackResult → Prop where
  | unknown : UnpackedTelemetry buffer offset previous ⟨.invalidArg, offset + 1, previous⟩
  | skipped (id : TelemetryDataId) (timestamp : BitVec 32) (unsupported : ¬ id.Supported)
      (holds : HoldsBytes buffer offset (telemetryHeader id timestamp)) :
      UnpackedTelemetry buffer offset previous
        ⟨.success, offset + 1 + 4, previous.skipped id timestamp⟩
  | decoded (id : TelemetryDataId) (data : TelemetryData) (id_eq : data.dataId? = some id)
      (supported : id.Supported) (holds : HoldsBytes buffer offset data.image) :
      UnpackedTelemetry buffer offset previous
        ⟨.success, offset + BitVec.ofNat 32 data.image.length, data⟩

theorem holds_header {id : TelemetryDataId} {timestamp : BitVec 32} {buffer : List Byte}
    {offset : Offset} :
    HoldsBytes buffer offset (telemetryHeader id timestamp) ↔
      HoldsBytes buffer offset [BitVec.ofNat 8 id.value] ∧
        HoldsBytes buffer (offset + 1) (bytes32 timestamp) := by
  simp only [telemetryHeader, holds_cons, holds_nil, and_true]

theorem holds_telemetry {data : TelemetryData} {id : TelemetryDataId}
    (hid : data.dataId? = some id) {buffer : List Byte} {offset : Offset} :
    HoldsBytes buffer offset data.image ↔
      HoldsBytes buffer offset (telemetryHeader id data.timestamp) ∧
        HoldsBytes buffer (offset + 1 + 4) (data.member id) := by
  have hnext : offset + 1 + BitVec.ofNat 32 4 = offset + 1 + 4 := rfl
  simp only [image_eq_header hid, telemetryHeader, List.cons_append, holds_cons, holds_append,
    length_bytes32, iterate_offset, hnext, and_assoc]

theorem offset_telemetry {data : TelemetryData} {id : TelemetryDataId}
    (hid : data.dataId? = some id) (offset : Offset) :
    offset + 1 + 4 + BitVec.ofNat 32 (data.member id).length =
      offset + BitVec.ofNat 32 data.image.length := by
  rw [data.length_image, TelemetryData.payload_eq_member hid, BitVec.ofNat_add, BitVec.add_assoc,
    BitVec.add_assoc, ← BitVec.add_assoc 1]
  rfl

/-- An id byte below the end of the table is that of an enumerator. -/
theorem exists_dataId {byte : Byte} (h : byte.toNat < numUnpackFns) :
    ∃ id, TelemetryDataId.ofValue? byte.toNat = some id ∧ byte = BitVec.ofNat 8 id.value ∧
      byte.setWidth 32 = BitVec.ofNat 32 id.value := by
  obtain ⟨id, hid⟩ : ∃ id, TelemetryDataId.ofValue? byte.toNat = some id := by
    have hlt : byte.toNat < 27 := h
    interval_cases byte.toNat <;> exact ⟨_, rfl⟩
  have hvalue := TelemetryDataId.value_of_ofValue? hid
  refine ⟨id, hid, ?_, ?_⟩
  · rw [← hvalue, BitVec.ofNat_toNat, BitVec.setWidth_eq]
  · rw [← hvalue, BitVec.ofNat_toNat]

theorem ofValue?_byte (id : TelemetryDataId) :
    (BitVec.ofNat 8 id.value).toNat < numUnpackFns ∧
      TelemetryDataId.ofValue? (BitVec.ofNat 8 id.value).toNat = some id ∧
      (BitVec.ofNat 8 id.value).setWidth 32 = BitVec.ofNat 32 id.value := by
  have hlt := id.value_lt
  have hfns : numUnpackFns = 27 := rfl
  have hbyte : (BitVec.ofNat 8 id.value).toNat = id.value := by
    rw [BitVec.toNat_ofNat, Nat.mod_eq_of_lt (by omega)]
  refine ⟨by omega, by rw [hbyte, TelemetryDataId.ofValue?_value], ?_⟩
  apply BitVec.eq_of_toNat_eq
  rw [BitVec.toNat_setWidth, hbyte, BitVec.toNat_ofNat]

/-- What a call that returns has done. -/
theorem unpackTelemetry_cases {buffer : List Byte} {offset : Offset} {previous : TelemetryData}
    {result : TelemetryUnpackResult} (hrun : unpackTelemetry buffer offset previous = .ok result) :
    UnpackedTelemetry buffer offset previous result := by
  rcases bind_eq_ok.mp hrun with ⟨⟨byte, o⟩, hu, hrun⟩
  rcases unpackUint8_eq_ok.mp hu with ⟨hhead, rfl⟩
  simp only at hrun
  by_cases hrange : byte.toNat ≥ numUnpackFns
  · simp only [if_pos hrange, pure_eq_ok, Except.ok.injEq] at hrun
    subst hrun
    exact .unknown
  rcases exists_dataId (Nat.not_le.mp hrange) with ⟨id, hid, rfl, hword⟩
  simp only [if_neg hrange, hid, Option.bind_some] at hrun
  rcases bind_eq_ok.mp hrun with ⟨⟨timestamp, o⟩, hu, hrun⟩
  rcases unpackUint32_eq_ok.mp hu with ⟨htimestamp, rfl⟩
  simp only at hrun
  cases hfn : telemUnpackFns id with
  | none =>
      simp only [hfn, pure_eq_ok, Except.ok.injEq] at hrun
      subst hrun
      rw [hword]
      exact .skipped id timestamp (telemUnpackFns_eq_none.mp hfn)
        (holds_header.mpr ⟨hhead, htimestamp⟩)
  | some unpackFn =>
      simp only [hfn] at hrun
      rcases bind_eq_ok.mp hrun with ⟨⟨offset', data⟩, hdata, hrun⟩
      simp only [pure_eq_ok, Except.ok.injEq] at hrun
      subst hrun
      rcases telemUnpackFns_eq_ok hfn hdata with ⟨hdataId, hdataTimestamp, hmember, rfl⟩
      have hdataId' : data.dataId? = some id := by
        have hlt := id.value_lt
        have hfns : numUnpackFns = 27 := rfl
        rw [TelemetryData.dataId?, hdataId, hword, BitVec.toNat_ofNat,
          Nat.mod_eq_of_lt (by omega), TelemetryDataId.ofValue?_value]
      rw [offset_telemetry hdataId']
      refine .decoded id data hdataId' (not_not.mp fun hnone => ?_) ?_
      · rw [telemUnpackFns_eq_none.mpr hnone] at hfn
        contradiction
      · rw [holds_telemetry hdataId', hdataTimestamp]
        exact ⟨holds_header.mpr ⟨hhead, htimestamp⟩, hmember⟩

/-- A header whose id has no function is skipped with success. -/
theorem unpackTelemetry_of_header {id : TelemetryDataId} {timestamp : BitVec 32}
    (hsupported : ¬ id.Supported) {buffer : List Byte} {offset : Offset}
    (hheld : HoldsBytes buffer offset (telemetryHeader id timestamp)) (previous : TelemetryData) :
    unpackTelemetry buffer offset previous =
      .ok ⟨.success, offset + 1 + 4, previous.skipped id timestamp⟩ := by
  rcases holds_header.mp hheld with ⟨hhead, htimestamp⟩
  rcases ofValue?_byte id with ⟨hrange, hid, hword⟩
  rw [unpackTelemetry, unpackUint8_eq_ok.mpr ⟨hhead, rfl⟩, ok_bind]
  simp only [if_neg (Nat.not_le.mpr hrange), unpackUint32_eq_ok.mpr ⟨htimestamp, rfl⟩, ok_bind, hid,
    hword, Option.bind_some, telemUnpackFns_eq_none.mpr hsupported]
  rfl

/-- A supported record that stands in the buffer is decoded. -/
theorem unpackTelemetry_of_image {data : TelemetryData} {id : TelemetryDataId}
    (hid : data.dataId? = some id) (hsupported : id.Supported) {buffer : List Byte}
    {offset : Offset} (hheld : HoldsBytes buffer offset data.image) (previous : TelemetryData) :
    ∃ result, unpackTelemetry buffer offset previous = .ok result ∧ result.err = .success ∧
      result.offset = offset + BitVec.ofNat 32 data.image.length ∧
      result.data.SameRecord data := by
  obtain ⟨unpackFn, hfn⟩ : ∃ unpackFn, telemUnpackFns id = some unpackFn :=
    Option.ne_none_iff_exists'.mp fun hnone => telemUnpackFns_eq_none.mp hnone hsupported
  rcases (holds_telemetry hid).mp hheld with ⟨hheader, hmember⟩
  rcases holds_header.mp hheader with ⟨hhead, htimestamp⟩
  rcases ofValue?_byte id with ⟨hrange, hbyte, hword⟩
  have hdataId : data.id = BitVec.ofNat 32 id.value := by
    rw [← TelemetryDataId.value_of_ofValue? hid, BitVec.ofNat_toNat, BitVec.setWidth_eq]
  obtain ⟨offset', result, hrun, hsame⟩ := telemUnpackFns_of_holds hfn hmember
    { previous with id := data.id, timestamp := data.timestamp }
  rcases telemUnpackFns_eq_ok hfn hrun with ⟨hid', htimestamp', -, rfl⟩
  refine ⟨⟨.success, offset + 1 + 4 + BitVec.ofNat 32 (result.member id).length, result⟩, ?_, rfl,
    ?_, hid', htimestamp', ?_⟩
  · rw [unpackTelemetry, unpackUint8_eq_ok.mpr ⟨hhead, rfl⟩, ok_bind]
    simp only [if_neg (Nat.not_le.mpr hrange), unpackUint32_eq_ok.mpr ⟨htimestamp, rfl⟩, ok_bind,
      hbyte, hword, Option.bind_some, hfn, ← hdataId]
    rw [hrun]
    rfl
  · rw [hsame]
    exact offset_telemetry hid offset
  · have hresult : result.dataId? = some id := by
      rw [TelemetryData.dataId?, hid']
      exact hid
    rw [TelemetryData.payload_eq_member hresult, TelemetryData.payload_eq_member hid, hsame]

end ObcGsInterface
