import ObcGsInterface.Verification.Command.Reader
import ObcGsInterface.Verification.Telemetry.Reader

/-! # Which inputs are read safely

The loop of the readers ends at a zero byte or at an id that the C function rejects. Where
whole records are followed by neither, it indexes past the end of the input. -/

namespace ObcGsInterface

open CArray RecordStream

/-! ## Any reader -/

namespace RecordReader

variable {σ ρ : Type} (reader : RecordReader σ ρ)

/-- The result is a `ValueError`, or records and a rest such that the input is made of the
bytes of the records and the rest. -/
def SafelyReads (input : List Byte) (result : Except PyError (List ρ × List Byte)) : Prop :=
  (∃ message, result = .error (.valueError message)) ∨
    ∃ records rest chunks, result = .ok (records, rest) ∧ input = chunks.flatten ++ rest ∧
      List.Forall₂ reader.Unpacks chunks records

/-- What the C function does with a record whose first byte is given: it rejects it by an
error code, or it takes as many bytes as the size says and leaves alone what follows. -/
structure SizedBy (size : Byte → Option ℕ) : Prop where
  within : ReadsWithin reader.unpack
  rejects : ∀ head tail, size head = none → ∃ res, reader.unpack (head :: tail) = .ok res ∧
    reader.err res ≠ .success
  accepts : ∀ head tail, size head = some (head :: tail).length →
    ∃ record, reader.Unpacks (head :: tail) record
  bounds : ∀ head n, size head = some n → 0 < n ∧ n ≤ maxCmdMsgSize

variable {reader} {size : Byte → Option ℕ}

/-- How the loop ends with `rest` still to be read behind `front`. -/
inductive LoopResult (reader : RecordReader σ ρ) (size : Byte → Option ℕ) (front rest : List Byte)
    (records : List ρ) : Except PyError (List ρ × ℕ) → Prop where
  | raised (message : String) (ended : Ended 0 size rest) :
      LoopResult reader size front rest records (.error (.valueError message))
  | returned (ended : Ended 0 size rest) (more : List ρ) (chunks : List (List Byte))
      (back : List Byte) (rest_eq : rest = chunks.flatten ++ back)
      (unpacks : List.Forall₂ reader.Unpacks chunks more) :
      LoopResult reader size front rest records
        (.ok (records ++ more, (front ++ chunks.flatten).length))
  | overrun (notEnded : ¬ Ended 0 size rest) :
      LoopResult reader size front rest records (.error .indexError)

/-- A whole record in front of the bytes that are still to be read. -/
theorem LoopResult.cons {front chunk rest : List Byte} {records : List ρ} {record : ρ}
    {result : Except PyError (List ρ × ℕ)}
    (h : LoopResult reader size (front ++ chunk) rest (records ++ [record]) result)
    (hunpacks : reader.Unpacks chunk record)
    (hended : Ended 0 size (chunk ++ rest) ↔ Ended 0 size rest) :
    LoopResult reader size front (chunk ++ rest) records result := by
  cases h with
  | raised message ended => exact .raised message (hended.mpr ended)
  | returned ended more chunks back rest_eq unpacks =>
      have hreturned : LoopResult reader size front (chunk ++ rest) records
          (.ok (records ++ record :: more, (front ++ (chunk :: chunks).flatten).length)) :=
        .returned (hended.mpr ended) (record :: more) (chunk :: chunks) back (by simp [rest_eq])
          (.cons hunpacks unpacks)
      simpa using hreturned
  | overrun notEnded => exact .overrun (mt hended.mp notEnded)

/-- A record of known size is unpacked wherever there are enough bytes. -/
theorem SizedBy.unpacks_take (h : reader.SizedBy size) {head : Byte} {n : ℕ}
    (hsize : size head = some n) (back : List Byte) (hroom : n ≤ (head :: back).length) :
    ∃ record, reader.Unpacks ((head :: back).take n) record := by
  rcases h.bounds head n hsize with ⟨hpos, -⟩
  obtain ⟨m, rfl⟩ : ∃ m, n = m + 1 := Nat.exists_eq_succ_of_ne_zero (Nat.ne_of_gt hpos)
  have hlength : (head :: back.take m).length = m + 1 := by
    rw [List.length_cons, List.length_take, Nat.min_eq_left (Nat.le_of_succ_le_succ hroom)]
  exact h.accepts head (back.take m) (by rw [hlength, hsize])

/-- The induction is on the rounds; every record takes at least one byte. -/
theorem SizedBy.loop_result (h : reader.SizedBy size) (message : String) (front rest : List Byte)
    (fuel : ℕ) (hfuel : rest.length < fuel) (records : List ρ) :
    LoopResult reader size front rest records
      (reader.loop message (front ++ rest) fuel front.length records) := by
  induction fuel generalizing front rest records with
  | zero => exact absurd hfuel (Nat.not_lt_zero _)
  | succ fuel ih =>
      cases rest with
      | nil =>
          rw [List.append_nil, loop_nil message front fuel (Nat.le_refl _)]
          exact .overrun not_ended_nil
      | cons head tail =>
          by_cases hzero : head = 0
          · have hreturned : LoopResult reader size front (0 :: tail) records
                (.ok (records ++ [], (front ++ [].flatten).length)) :=
              .returned (.terminator tail) [] [] (0 :: tail) rfl .nil
            rw [hzero, loop_zero]
            simpa using hreturned
          cases hsize : size head with
          | none =>
              obtain ⟨res, hrun, herr⟩ : ∃ res, reader.unpack
                  ((head :: tail ++ List.replicate maxCmdMsgSize 0).take maxCmdMsgSize) = .ok res ∧
                  reader.err res ≠ .success := h.rejects head _ hsize
              rw [loop_cons message front tail hzero, hrun]
              simp only [callC_ok, ok_bind, if_pos herr]
              exact .raised _ (.unsupported head tail hsize)
          | some n =>
              rcases h.bounds head n hsize with ⟨hpos, hwindow⟩
              have hended := ended_iff_of_size tail hzero hsize hpos
              have hroom : n ≤ (head :: tail ++ List.replicate maxCmdMsgSize 0).length := by
                rw [List.length_append, List.length_replicate]
                omega
              have hlength := List.length_take_of_le hroom
              obtain ⟨record, hunpacks⟩ : ∃ record, reader.Unpacks
                  ((head :: tail ++ List.replicate maxCmdMsgSize 0).take n) record :=
                h.unpacks_take hsize _ hroom
              rw [loop_record h.within message front tail _ hzero (List.take_prefix _ _)
                (by rw [hlength]; exact hwindow) hunpacks, hlength]
              by_cases hle : n ≤ (head :: tail).length
              · have htake : ((head :: tail).take n).length = n := List.length_take_of_le hle
                rw [List.take_append_of_le_length hle] at hunpacks
                have hnext := ih (front ++ (head :: tail).take n) ((head :: tail).drop n)
                  (by rw [List.length_drop]; omega) (records ++ [record])
                rw [List.append_assoc, List.take_append_drop, List.length_append, htake] at hnext
                have hresult := hnext.cons hunpacks
                  (by rw [List.take_append_drop, hended, and_iff_right hle])
                rwa [List.take_append_drop] at hresult
              · -- the zeros behind a record that is cut off are counted as read
                obtain ⟨fuel, rfl⟩ : ∃ m, fuel = m + 1 :=
                  Nat.exists_eq_succ_of_ne_zero (by rw [List.length_cons] at hfuel; omega)
                rw [loop_nil message _ fuel (by rw [List.length_append]; omega)]
                exact .overrun fun hends => hle (hended.mp hends).1

/-- The input is read safely exactly when it ends properly. -/
theorem SizedBy.safelyReads_iff (h : reader.SizedBy size) (message : String) (input : List Byte) :
    (reader.SafelyReads input (reader.loop message input (input.length + 1) 0 [] >>= fun r =>
      .ok (r.1, input.drop r.2)) ↔ Ended 0 size input) := by
  have hresult := h.loop_result message [] input (input.length + 1) (Nat.lt_succ_self _) []
  rw [List.nil_append, List.length_nil] at hresult
  generalize reader.loop message input (input.length + 1) 0 [] = result at hresult
  cases hresult with
  | raised text ended => exact iff_of_true (.inl ⟨text, rfl⟩) ended
  | returned ended more chunks back rest_eq unpacks =>
      refine iff_of_true (.inr ⟨more, back, chunks, ?_, rest_eq, unpacks⟩) ended
      rw [ok_bind, List.nil_append, List.nil_append, rest_eq, List.drop_left]
  | overrun notEnded =>
      refine iff_of_false ?_ notEnded
      rintro (⟨text, herror⟩ | ⟨more, back, chunks, hok, -⟩)
      · cases herror
      · cases hok

end RecordReader

/-- The timestamp behind the first byte of a record. -/
theorem unpackTimestamp_of_room {head : Byte} {tail : List Byte} (h : 5 ≤ (head :: tail).length) :
    ∃ timestamp, unpackUint32 (head :: tail) 1 = .ok (timestamp, 1 + 4) :=
  unpackUint32_of_room (Nat.le_trans (by decide) h)

/-! ## Commands -/

/-- The bytes of data of a command behind its id and timestamp. -/
def CmdCallbackId.dataSize : CmdCallbackId → ℕ
  | rtcSync => 4
  | downlinkLogsNextPass => 1
  | setProgrammingSession => 1
  | downloadData => 7
  | _ => 0

/-- The size of a command by its first byte, if there is such a command. -/
def commandSize (head : Byte) : Option ℕ :=
  (CmdCallbackId.ofValue? (head &&& 0x7F).toNat).bind fun
    | .endOfFrame => none
    | c => some (5 + c.dataSize)

/-- With room for its data, a function of the table succeeds. -/
theorem unpackFns_of_room {c : CmdCallbackId} {f : UnpackFn} (hf : unpackFns c = some f)
    {buffer : List Byte} {offset : Offset} (h : offset.toNat + c.dataSize ≤ buffer.length)
    (cmdMsg : CmdMsg) :
    ∃ result, f buffer offset cmdMsg = .ok (offset + BitVec.ofNat 32 c.dataSize, result) := by
  cases c <;> simp only [unpackFns, Option.some.injEq, reduceCtorEq] at hf <;> subst hf
  case rtcSync =>
    rcases unpackUint32_of_room h with ⟨value, hrun⟩
    exact ⟨_, by rw [unpackRtcSyncCmdData, hrun]; rfl⟩
  case downlinkLogsNextPass =>
    rcases unpackUint8_of_room h with ⟨value, hrun⟩
    exact ⟨_, by rw [unpackDownlinkLogsNextPassCmdData, hrun]; rfl⟩
  case setProgrammingSession =>
    rcases unpackUint8_of_room h with ⟨value, hrun⟩
    exact ⟨_, by rw [unpackSetProgrammingSessionCmdData, hrun]; rfl⟩
  case downloadData =>
    have hroom : offset.toNat + 7 ≤ buffer.length := h
    have hnext : (offset + 1).toNat ≤ offset.toNat + 1 := toNat_offset_add_le offset 1
    have hlast : (offset + 1 + 2).toNat ≤ (offset + 1).toNat + 2 :=
      toNat_offset_add_le (offset + 1) 2
    have hend : offset + 1 + 2 + 4 = offset + BitVec.ofNat 32 7 := by
      rw [BitVec.add_assoc, BitVec.add_assoc]
      rfl
    obtain ⟨session, hsession⟩ : ∃ session, unpackUint8 buffer offset = .ok (session, offset + 1) :=
      unpackUint8_of_room (by omega)
    obtain ⟨length, hlength⟩ :
        ∃ length, unpackUint16 buffer (offset + 1) = .ok (length, offset + 1 + 2) :=
      unpackUint16_of_room (by omega)
    obtain ⟨address, haddress⟩ :
        ∃ address, unpackUint32 buffer (offset + 1 + 2) = .ok (address, offset + 1 + 2 + 4) :=
      unpackUint32_of_room (by omega)
    refine ⟨{ cmdMsg with downloadData :=
      ⟨session.setWidth 32, length, address, some (offset + BitVec.ofNat 32 7)⟩ }, ?_⟩
    rw [unpackDownloadDataCmdData, hsession, ok_bind]
    simp only [hlength, ok_bind, haddress, hend, pure_eq_ok]
    rfl
  all_goals
    have hsame : offset = offset + BitVec.ofNat 32 0 := (BitVec.add_zero offset).symm
    exact ⟨cmdMsg, congrArg (fun next => Except.ok (next, cmdMsg)) hsame⟩

theorem CmdCallbackId.le_of_ofValue? {n : ℕ} {c : CmdCallbackId} (h : ofValue? n = some c) :
    n ≤ maxCmdId := by
  unfold ofValue? at h
  split at h <;> first | contradiction | decide

/-- The sizes are defined where the table has an entry. -/
theorem commandSize_eq_some {head : Byte} {n : ℕ} :
    commandSize head = some n ↔ ∃ c unpackFn,
      CmdCallbackId.ofValue? (head &&& 0x7F).toNat = some c ∧ unpackFns c = some unpackFn ∧
        n = 5 + c.dataSize := by
  rw [commandSize]
  cases CmdCallbackId.ofValue? (head &&& 0x7F).toNat with
  | none => simp
  | some c => cases c <;> simp [unpackFns, CmdCallbackId.dataSize, eq_comm]

theorem commandReader_sizedBy : commandReader.SizedBy commandSize where
  within := readsWithin_unpackCmdMsg 0 CmdMsg.new
  rejects := by
    intro head tail hsize
    refine ⟨⟨.unsupportedCmd, 1, CmdMsg.new⟩, ?_, by decide⟩
    have hhead : unpackUint8 (head :: tail) 0 = .ok (head, 1) := rfl
    have hentry : (CmdCallbackId.ofValue? (head &&& 0x7F).toNat).bind unpackFns = none := by
      rw [Option.eq_none_iff_forall_ne_some]
      intro unpackFn hentry
      rcases Option.bind_eq_some_iff.mp hentry with ⟨c, hc, hunpack⟩
      have hsome := commandSize_eq_some.mpr ⟨c, unpackFn, hc, hunpack, rfl⟩
      rw [hsize] at hsome
      contradiction
    simp only [commandReader, unpackCmdMsg, hhead, ok_bind, hentry, pure_eq_ok, ite_self]
  accepts := by
    intro head tail hsize
    rcases commandSize_eq_some.mp hsize with ⟨c, unpackFn, hc, hunpack, hlength⟩
    have hdata : c.dataSize ≤ 7 := by cases c <;> decide
    have hle := CmdCallbackId.le_of_ofValue? hc
    have hhead : unpackUint8 (head :: tail) 0 = .ok (head, 1) := rfl
    have hfive : (1 + 4 : Offset).toNat = 5 := rfl
    obtain ⟨timestamp, htimestamp⟩ := unpackTimestamp_of_room (show 5 ≤ (head :: tail).length by omega)
    have hentry : (CmdCallbackId.ofValue? (head &&& 0x7F).toNat).bind unpackFns =
        some unpackFn := by
      rw [hc, Option.bind_some, hunpack]
    have hroom : (1 + 4 : Offset).toNat + c.dataSize ≤ (head :: tail).length := by omega
    obtain ⟨result, hrun⟩ := unpackFns_of_room hunpack hroom
      { CmdMsg.new with id := (head &&& 0x7F).setWidth 32, timestamp := timestamp,
                        isTimeTagged := head &&& 0x80 != 0 }
    refine ⟨result, ⟨.success, 1 + 4 + BitVec.ofNat 32 c.dataSize, result⟩, ?_, rfl, ?_, rfl⟩
    · simp only [commandReader, unpackCmdMsg, hhead, ok_bind, if_neg (Nat.not_lt.mpr hle), hentry,
        htimestamp, hrun, pure_eq_ok]
    · rw [hlength]
      cases c <;> rfl
  bounds := by
    intro head n hsize
    rcases commandSize_eq_some.mp hsize with ⟨c, -, -, -, rfl⟩
    cases c <;> decide

/-! ## Telemetry -/

/-- The bytes of data of a record behind its id and timestamp; an id without a function has
none. -/
def TelemetryDataId.dataSize : TelemetryDataId → ℕ
  | obcTemp => 4
  | obcState => 1
  | _ => 0

/-- The size of a telemetry record by its first byte, if there is such a record. -/
def telemSize (head : Byte) : Option ℕ :=
  (TelemetryDataId.ofValue? head.toNat).map fun id => 5 + id.dataSize

/-- With room for its data, a function of the table succeeds. -/
theorem telemUnpackFns_of_room {id : TelemetryDataId} {f : TelemetryUnpackFn}
    (hf : telemUnpackFns id = some f) {buffer : List Byte} {offset : Offset}
    (h : offset.toNat + id.dataSize ≤ buffer.length) (data : TelemetryData) :
    ∃ result, f buffer offset data = .ok (offset + BitVec.ofNat 32 id.dataSize, result) := by
  cases id <;> simp only [telemUnpackFns, Option.some.injEq, reduceCtorEq] at hf <;> subst hf
  case obcTemp =>
    rcases unpackUint32_of_room h with ⟨value, hrun⟩
    exact ⟨_, by rw [unpackObcTemp, unpackFloat, hrun]; rfl⟩
  case obcState =>
    rcases unpackUint8_of_room h with ⟨value, hrun⟩
    exact ⟨_, by rw [unpackObcState, hrun]; rfl⟩
  case pong =>
    have hsame : offset = offset + BitVec.ofNat 32 0 := (BitVec.add_zero offset).symm
    exact ⟨data, congrArg (fun next => Except.ok (next, data)) hsame⟩

theorem telemReader_sizedBy : telemReader.SizedBy telemSize where
  within := readsWithin_unpackTelemetry 0 TelemetryData.new
  rejects := by
    intro head tail hsize
    have hhead : unpackUint8 (head :: tail) 0 = .ok (head, 1) := rfl
    have hrange : head.toNat ≥ numUnpackFns := by
      by_contra hlt
      rcases exists_dataId (Nat.not_le.mp hlt) with ⟨id, hid, -, -⟩
      rw [telemSize, hid] at hsize
      contradiction
    refine ⟨⟨.invalidArg, 1, TelemetryData.new⟩, ?_, by decide⟩
    simp only [telemReader, unpackTelemetry, hhead, ok_bind, if_pos hrange, pure_eq_ok]
  accepts := by
    intro head tail hsize
    rcases Option.map_eq_some_iff.mp hsize with ⟨id, hid, hlength⟩
    have hvalue := TelemetryDataId.value_of_ofValue? hid
    have hrange : ¬ head.toNat ≥ numUnpackFns := by
      rw [hvalue]
      exact Nat.not_le.mpr id.value_lt
    have hword : head.setWidth 32 = BitVec.ofNat 32 id.value := by
      rw [← hvalue, BitVec.ofNat_toNat]
    have hdata : id.dataSize ≤ 4 := by cases id <;> decide
    have hhead : unpackUint8 (head :: tail) 0 = .ok (head, 1) := rfl
    have hfive : (1 + 4 : Offset).toNat = 5 := rfl
    obtain ⟨timestamp, htimestamp⟩ := unpackTimestamp_of_room (show 5 ≤ (head :: tail).length by omega)
    cases hunpack : telemUnpackFns id with
    | none =>
        refine ⟨_, ⟨.success, 1 + 4, TelemetryData.new.skipped id timestamp⟩, ?_, rfl, ?_, rfl⟩
        · simp only [telemReader, unpackTelemetry, hhead, ok_bind, if_neg hrange, htimestamp, hid,
            Option.bind_some, hunpack, pure_eq_ok, TelemetryData.skipped, hword]
        · rw [← hlength]
          cases id <;> first | rfl | contradiction
    | some unpackFn =>
        have hroom : (1 + 4 : Offset).toNat + id.dataSize ≤ (head :: tail).length := by omega
        obtain ⟨result, hrun⟩ := telemUnpackFns_of_room hunpack hroom
          { TelemetryData.new with id := head.setWidth 32, timestamp := timestamp }
        refine ⟨_, ⟨.success, 1 + 4 + BitVec.ofNat 32 id.dataSize, result⟩, ?_, rfl, ?_, rfl⟩
        · simp only [telemReader, unpackTelemetry, hhead, ok_bind, if_neg hrange, htimestamp, hid,
            Option.bind_some, hunpack, hrun, pure_eq_ok]
        · rw [← hlength]
          cases id <;> rfl
  bounds := by
    intro head n hsize
    rcases Option.map_eq_some_iff.mp hsize with ⟨id, -, rfl⟩
    cases id <;> decide

/-! ## Safety -/

/-- **When the readers are safe.** On up to 223 bytes a reader raises `ValueError` or returns
records and a rest that make up the input, if and only if behind whole records there is a
zero byte or an id that no record has. -/
theorem readers_safe_iff (input : List Byte) (h : input.length ≤ rsDecodedDataSize) :
    (commandReader.SafelyReads input (unpackCommand input) ↔ Ended 0 commandSize input) ∧
      (telemReader.SafelyReads input (unpackTelem input) ↔ Ended 0 telemSize input) := by
  constructor
  · have hiff := commandReader_sizedBy.safelyReads_iff
      "Could not unpack command. OBC Error Code: " input
    rw [← unpackCommandLoop_eq] at hiff
    rw [← hiff, unpackCommand, if_neg (Nat.not_lt.mpr h)]
    rfl
  · have hiff := telemReader_sizedBy.safelyReads_iff
      "Could not unpack telem. OBC Error Code: " input
    rw [← unpackTelemLoop_eq] at hiff
    rw [← hiff, unpackTelem, if_neg (Nat.not_lt.mpr h)]
    rfl

/-- Two pings and a zero byte. -/
theorem readers_safe_iff_pings :
    commandReader.SafelyReads [5, 0, 0, 0, 0, 5, 0, 0, 0, 0, 0, 7]
      (unpackCommand [5, 0, 0, 0, 0, 5, 0, 0, 0, 0, 0, 7]) :=
  (readers_safe_iff _ (by decide)).1.mpr
    (.record 5 [0, 0, 0, 0] rfl (.record 5 [0, 0, 0, 0] rfl (.terminator [7])))

/-- Both readers index past the end of an empty input. -/
theorem readers_safe_fails :
    ¬ ∀ input : List Byte, input.length ≤ rsDecodedDataSize →
      commandReader.SafelyReads input (unpackCommand input) ∧
        telemReader.SafelyReads input (unpackTelem input) := by
  intro h
  have hresult : unpackCommand [] = .error .indexError := rfl
  rcases (h [] (by decide)).1 with ⟨message, herror⟩ | ⟨records, rest, chunks, hok, -⟩
  · rw [hresult] at herror
    cases herror
  · rw [hresult] at hok
    cases hok

end ObcGsInterface
