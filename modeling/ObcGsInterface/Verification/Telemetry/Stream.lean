import ObcGsInterface.Verification.Telemetry.Reader

/-! # Telemetry packets

A packet that is filled record by record reads back as these records: the packer keeps room
for the largest record, so that the reader always finds a zero byte after the last one. -/

namespace ObcGsInterface

open CArray Cursor

/-! ## Filling a packet -/

/-- `records` were packed one after another into a packet of zeros, of which `used` bytes are
taken. Every call gets the rest of the packet, is told its length and returns success. -/
inductive PackedOneByOne : List TelemetryData → List Byte → ℕ → Prop where
  | empty : PackedOneByOne [] (List.replicate rsDecodedDataSize 0) 0
  | pack {records packet used} (previous : PackedOneByOne records packet used)
      (data : TelemetryData) (numPacked : BitVec 32) (result : TelemetryPackResult)
      (call : packTelemetry data (packet.drop used) (rsDecodedDataSize - used) numPacked =
        .ok result)
      (success : result.err = .success) :
      PackedOneByOne (records ++ [data]) (packet.take used ++ result.buffer)
        (used + result.numPacked.toNat)

/-- The images of the records, one after another. -/
def telemetryImages (records : List TelemetryData) : List Byte :=
  records.flatMap TelemetryData.image

@[simp] theorem telemetryImages_nil : telemetryImages [] = [] := rfl

@[simp] theorem telemetryImages_cons (data : TelemetryData) (records : List TelemetryData) :
    telemetryImages (data :: records) = data.image ++ telemetryImages records :=
  List.flatMap_cons

@[simp] theorem telemetryImages_append (xs ys : List TelemetryData) :
    telemetryImages (xs ++ ys) = telemetryImages xs ++ telemetryImages ys := List.flatMap_append

/-- The record has an id with functions in both tables. -/
def TelemetryData.Supported (data : TelemetryData) : Prop :=
  ∃ id, data.dataId? = some id ∧ id.Supported

/-- A packet in the making: whole images of supported records, then at least three zeros. -/
structure TelemetryPacket (records : List TelemetryData) (packet : List Byte) (used : ℕ) :
    Prop where
  supported : ∀ data ∈ records, data.Supported
  used_eq : used = (telemetryImages records).length
  bytes_eq : packet = telemetryImages records ++ List.replicate (rsDecodedDataSize - used) 0
  room : used + 3 ≤ rsDecodedDataSize

namespace PackedOneByOne

/-- One more call stores one more image. The packer asked for 12 bytes and took 9 at most, and
that leaves the three zeros. -/
theorem packet_append {records : List TelemetryData} {packet : List Byte} {used : ℕ}
    (h : TelemetryPacket records packet used) {data : TelemetryData} {numPacked : BitVec 32}
    {result : TelemetryPackResult}
    (call : packTelemetry data (packet.drop used) (rsDecodedDataSize - used) numPacked =
      .ok result)
    (success : result.err = .success) :
    TelemetryPacket (records ++ [data]) (packet.take used ++ result.buffer)
      (used + result.numPacked.toNat) := by
  rcases packTelemetry_success call success with ⟨hlen, id, hid, hsupported⟩
  have hmax : maxTelemetryDataSize = 12 := rfl
  have hshort := data.length_image_le
  have hused := h.used_eq
  have hdrop : packet.drop used = List.replicate (rsDecodedDataSize - used) 0 := by
    rw [h.bytes_eq, hused, List.drop_left]
  have htake : packet.take used = telemetryImages records := by
    rw [h.bytes_eq, hused, List.take_left]
  obtain ⟨packed, hpacked, hspec⟩ := packTelemetry_of_room hid hsupported hlen
    (show rsDecodedDataSize - used ≤ (packet.drop used).length by simp [hdrop]) numPacked
  obtain rfl : packed = result := Except.ok.inj (hpacked.symm.trans call)
  have hnumPacked : packed.numPacked.toNat = data.image.length := by
    rw [hspec.numPacked_eq, BitVec.toNat_ofNat, Nat.mod_eq_of_lt (by omega)]
  exact
    { supported := by
        intro d hd
        rcases List.mem_append.mp hd with hd | hd
        · exact h.supported d hd
        · rw [List.mem_singleton.mp hd]
          exact ⟨id, hid, hsupported⟩
      used_eq := by simp [hused, hnumPacked]
      bytes_eq := by
        rw [htake, hspec.buffer_eq, hdrop, hnumPacked]
        simp [Nat.sub_sub]
      room := by omega }

/-- Every packet that can be filled has this form. -/
theorem packet {records : List TelemetryData} {packet : List Byte} {used : ℕ}
    (h : PackedOneByOne records packet used) : TelemetryPacket records packet used := by
  induction h with
  | empty => exact ⟨by simp, rfl, rfl, by decide⟩
  | pack previous data numPacked result call success ih => exact packet_append ih call success

end PackedOneByOne

/-- Supported records can be packed as long as the last one leaves room for the largest. -/
theorem packedOneByOne_of_room (records : List TelemetryData)
    (h : ∀ data ∈ records, data.Supported)
    (hroom : (telemetryImages records).length + maxTelemetryDataSize ≤ rsDecodedDataSize) :
    ∃ packet used, PackedOneByOne records packet used := by
  induction records using List.reverseRecOn with
  | nil => exact ⟨_, _, .empty⟩
  | append_singleton records data ih =>
      have hlength : (telemetryImages (records ++ [data])).length =
          (telemetryImages records).length + data.image.length := by simp
      obtain ⟨packet, used, hfilled⟩ :=
        ih (fun d hd => h d (List.mem_append_left _ hd)) (by omega)
      have hpacket := hfilled.packet
      have hused := hpacket.used_eq
      rcases h data (by simp) with ⟨id, hid, hsupported⟩
      have hdrop : rsDecodedDataSize - used ≤ (packet.drop used).length := by
        rw [hpacket.bytes_eq, hused, List.drop_left, List.length_replicate]
      obtain ⟨result, hcall, hspec⟩ :=
        packTelemetry_of_room hid hsupported (by omega) hdrop 0
      exact ⟨_, _, .pack hfilled data 0 result hcall hspec.err_eq⟩

/-! ## Reading a packet -/

/-- The image of a supported record is unpacked to the record. -/
theorem telemReader_recovers {data : TelemetryData} (h : data.Supported) :
    telemReader.Recovers TelemetryData.image TelemetryData.SameRecord data := by
  rcases h with ⟨id, hid, hsupported⟩
  have hshort := data.length_image_le
  have hhead : (data.id.setWidth 8 : Byte) ≠ 0 := by
    intro hzero
    have hvalue := TelemetryData.toNat_setWidth_id hid
    rw [hzero] at hvalue
    rcases hsupported with rfl | rfl | rfl <;> contradiction
  have hheld : HoldsBytes data.image 0 data.image :=
    (holdsBytes_zero (by omega)).mpr List.take_length
  obtain ⟨result, hrun, herr, hoffset, hsame⟩ :=
    unpackTelemetry_of_image hid hsupported hheld TelemetryData.new
  refine ⟨⟨data.id.setWidth 8, _, rfl, hhead⟩, hshort.trans (by decide), result.data,
    ⟨result, hrun, herr, ?_, rfl⟩, hsame⟩
  change result.offset.toNat = data.image.length
  rw [hoffset, toNat_zero_add (by omega)]

/-- The reader returns the records whose images are followed by a zero byte. -/
theorem unpackTelemLoop_images (records : List TelemetryData)
    (h : ∀ data ∈ records, data.Supported) (front back : List Byte) (fuel : ℕ)
    (hfuel : records.length < fuel) (telemDataList : List TelemetryData) :
    ∃ unpacked,
      unpackTelemLoop (front ++ (telemetryImages records ++ 0 :: back)) fuel 0 front.length
          telemDataList =
        .ok (telemDataList ++ unpacked, front.length + (telemetryImages records).length) ∧
      List.Forall₂ TelemetryData.SameRecord unpacked records := by
  rw [unpackTelemLoop_eq]
  exact RecordReader.loop_images (readsWithin_unpackTelemetry 0 TelemetryData.new) _ records
    (fun data hdata => telemReader_recovers (h data hdata)) front back fuel hfuel telemDataList

theorem length_le_length_telemetryImages (records : List TelemetryData) :
    records.length ≤ (telemetryImages records).length :=
  length_le_length_flatMap (fun _ => List.cons_ne_nil _ _) records

/-- **A packet filled record by record reads back as these records**, and only zeros are
left over. -/
theorem unpackTelem_packed {records : List TelemetryData} {packet : List Byte} {used : ℕ}
    (h : PackedOneByOne records packet used) :
    ∃ unpacked rest, unpackTelem packet = .ok (unpacked, rest) ∧
      List.Forall₂ TelemetryData.SameRecord unpacked records ∧ ∀ byte ∈ rest, byte = 0 := by
  have hpacket := h.packet
  have hroom := hpacket.room
  have hused := hpacket.used_eq
  have hsize : rsDecodedDataSize = 223 := rfl
  obtain ⟨n, hn⟩ : ∃ n, rsDecodedDataSize - used = n + 1 :=
    Nat.exists_eq_succ_of_ne_zero (by omega)
  have hbytes : packet = telemetryImages records ++ 0 :: List.replicate n 0 := by
    rw [hpacket.bytes_eq, hn, List.replicate_succ]
  have hlength : packet.length = rsDecodedDataSize := by
    simp [hpacket.bytes_eq]
    omega
  have hcount := length_le_length_telemetryImages records
  obtain ⟨unpacked, hloop, hsame⟩ := unpackTelemLoop_images records hpacket.supported []
    (List.replicate n 0) (packet.length + 1) (by omega) []
  refine ⟨unpacked, 0 :: List.replicate n 0, ?_, hsame, by simp⟩
  simp only [List.nil_append, List.length_nil, Nat.zero_add, ← hbytes] at hloop
  rw [unpackTelem, if_neg (by omega), hloop]
  simp [hbytes]

/-- A temperature, a state and a pong. -/
def sampleRecords : List TelemetryData :=
  [⟨0x41BC0000, 0, 3, 1700000000⟩, ⟨0, 2, 23, 1700000001⟩, ⟨0, 0, 26, 1700000002⟩]

theorem unpackTelem_sampleRecords :
    ∃ packet used, PackedOneByOne sampleRecords packet used ∧
      ∃ unpacked rest, unpackTelem packet = .ok (unpacked, rest) ∧
        List.Forall₂ TelemetryData.SameRecord unpacked sampleRecords ∧ ∀ byte ∈ rest, byte = 0 := by
  have hsupported : ∀ data ∈ sampleRecords, data.Supported := by
    intro data hdata
    simp only [sampleRecords, List.mem_cons, List.not_mem_nil, or_false] at hdata
    rcases hdata with rfl | rfl | rfl
    · exact ⟨.obcTemp, rfl, by decide⟩
    · exact ⟨.obcState, rfl, by decide⟩
    · exact ⟨.pong, rfl, by decide⟩
  rcases packedOneByOne_of_room sampleRecords hsupported (by decide) with ⟨packet, used, h⟩
  exact ⟨packet, used, h, unpackTelem_packed h⟩

/-! ## What the decoder accepts -/

/-- What a decoder that accepts only encodings does on the bytes from the offset on: packing
the record it returned into a large enough buffer gives the bytes it consumed. -/
def DecodesFaithfully (buffer : List Byte) (offset : Offset) (previous : TelemetryData) : Prop :=
  ∀ result, unpackTelemetry buffer offset previous = .ok result → result.err = .success →
    ∃ consumed : List Byte, HoldsBytes buffer offset consumed ∧
      result.offset = offset + BitVec.ofNat 32 consumed.length ∧
      ∀ (out : List Byte) (len : ℕ) (numPacked : BitVec 32),
        maxTelemetryDataSize ≤ len → len ≤ out.length →
        ∃ packed, packTelemetry result.data out len numPacked = .ok packed ∧
          PackedTelemetry consumed out packed

theorem dataId?_skipped (previous : TelemetryData) (id : TelemetryDataId) (timestamp : BitVec 32) :
    (previous.skipped id timestamp).dataId? = some id := by
  have hlt := id.value_lt
  have hfns : numUnpackFns = 27 := rfl
  rw [TelemetryData.dataId?, TelemetryData.skipped, BitVec.toNat_ofNat, Nat.mod_eq_of_lt (by omega),
    TelemetryDataId.ofValue?_value]

/-- The packer rejects the record that the decoder makes of an id without a function. -/
theorem DecodesFaithfully.supported {buffer : List Byte} {offset : Offset}
    {previous : TelemetryData} (h : DecodesFaithfully buffer offset previous)
    {id : TelemetryDataId} {timestamp : BitVec 32}
    (hheld : HoldsBytes buffer offset (telemetryHeader id timestamp)) : id.Supported := by
  by_contra hsupported
  rcases h _ (unpackTelemetry_of_header hsupported hheld previous) rfl with ⟨consumed, -, -, hpack⟩
  obtain ⟨packed, hcall, hspec⟩ :=
    hpack (List.replicate maxTelemetryDataSize 0) maxTelemetryDataSize 0 le_rfl (by simp)
  rw [packTelemetry_reject (dataId?_skipped previous id timestamp) hsupported _ le_rfl,
    Except.ok.injEq] at hcall
  have herr := hspec.err_eq
  rw [← hcall] at herr
  contradiction

/-- The decoder accepts only encodings exactly where no id without a function heads the
bytes. -/
theorem decodesFaithfully_iff (buffer : List Byte) (offset : Offset) (previous : TelemetryData) :
    DecodesFaithfully buffer offset previous ↔
      ∀ id timestamp, HoldsBytes buffer offset (telemetryHeader id timestamp) → id.Supported := by
  constructor
  · exact fun h id timestamp hheld => h.supported hheld
  · intro h result hrun hsuccess
    cases unpackTelemetry_cases hrun with
    | unknown => contradiction
    | skipped id timestamp unsupported holds => exact absurd (h id timestamp holds) unsupported
    | decoded id data id_eq supported holds =>
        exact ⟨data.image, holds, rfl, fun out len numPacked hlen hroom =>
          packTelemetry_of_room id_eq supported hlen hroom numPacked⟩

/-- A buffer that starts with the id of the transceiver's temperature, which has no function. -/
theorem not_decodesFaithfully_cc1120Temp :
    ¬ DecodesFaithfully ([1] ++ List.replicate 15 0) 0 TelemetryData.new := by
  intro h
  have hheld : HoldsBytes ([1] ++ List.replicate 15 0) (0 : Offset)
      (telemetryHeader .cc1120Temp 0) := by
    rw [holdsBytes_zero (by decide)]
    rfl
  exact absurd (h.supported hheld) (by decide)

end ObcGsInterface
