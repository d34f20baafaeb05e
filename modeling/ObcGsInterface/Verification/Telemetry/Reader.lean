import ObcGsInterface.Verification.RecordReader
import ObcGsInterface.Verification.Telemetry.Wire

/-! # The reader of telemetry records -/

namespace ObcGsInterface

open CArray Cursor RecordStream

/-- `unpackTelemetry` on a new record. -/
def telemReader : RecordReader TelemetryUnpackResult TelemetryData where
  unpack buffer := unpackTelemetry buffer 0 TelemetryData.new
  err := TelemetryUnpackResult.err
  offset := TelemetryUnpackResult.offset
  record := TelemetryUnpackResult.data

theorem unpackTelemLoop_eq (packed : List Byte) (fuel total : ℕ) (records : List TelemetryData) :
    unpackTelemLoop packed fuel 0 total records =
      telemReader.loop "Could not unpack telem. OBC Error Code: " packed fuel total records := by
  induction fuel generalizing total records with
  | zero => rfl
  | succ fuel ih =>
      have hguard : (0 : Offset).toNat < rsDecodedDataSize := by decide
      have hzero (byte : Byte) : byte.toNat = TelemetryDataId.none.value ↔ byte = 0 := by
        rw [← BitVec.toNat_inj]
        rfl
      rw [unpackTelemLoop, RecordReader.loop, if_pos hguard]
      simp only [hzero, ih]
      rfl

/-! ## Reading within the buffer -/

theorem readsWithin_telemUnpackFns {id : TelemetryDataId} {f : TelemetryUnpackFn}
    (hf : telemUnpackFns id = some f) (offset : Offset) (data : TelemetryData) :
    ReadsWithin fun buffer => f buffer offset data := by
  cases id <;> simp only [telemUnpackFns, Option.some.injEq, reduceCtorEq] at hf <;> subst hf
  case obcTemp => exact (readsWithin_unpackUint32 _).bind fun _ => readsWithin_const _
  case obcState => exact (readsWithin_unpackUint8 _).bind fun _ => readsWithin_const _
  case pong => exact readsWithin_const _

theorem readsWithin_unpackTelemetry (offset : Offset) (data : TelemetryData) :
    ReadsWithin fun buffer => unpackTelemetry buffer offset data := by
  refine (readsWithin_unpackUint8 offset).bind fun ⟨id, next⟩ => ?_
  by_cases hid : id.toNat ≥ numUnpackFns
  · simp only [if_pos hid]
    exact readsWithin_const _
  simp only [if_neg hid]
  refine (readsWithin_unpackUint32 _).bind fun ⟨timestamp, next⟩ => ?_
  cases hentry : (TelemetryDataId.ofValue? id.toNat).bind telemUnpackFns with
  | none => exact readsWithin_const _
  | some unpackFn =>
      rcases Option.bind_eq_some_iff.mp hentry with ⟨c, -, hunpack⟩
      exact (readsWithin_telemUnpackFns hunpack _ _).bind fun _ => readsWithin_const _

end ObcGsInterface
