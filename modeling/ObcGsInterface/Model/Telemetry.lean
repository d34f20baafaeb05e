import ObcGsInterface.Model.DataPack

/-! # Telemetry

`obc_gs_telemetry_id.h`, `obc_gs_telemetry_data.h`, `obc_gs_telemetry_pack.c`,
`obc_gs_telemetry_unpack.c`, and `unpack_telem` of the Python commands package. -/

namespace ObcGsInterface

open CArray

/-- The enumerators of `telemetry_data_id_t`. -/
inductive TelemetryDataId where
  | none
  | cc1120Temp
  | commsCustomTransceiverTemp
  | obcTemp
  | adcsMagBoardTemp
  | adcsSensorBoardTemp
  | epsBoardTemp
  | solarPanel1Temp
  | solarPanel2Temp
  | solarPanel3Temp
  | solarPanel4Temp
  | epsComms5vCurrent
  | epsComms3v3Current
  | epsMagnetorquer8vCurrent
  | epsAdcs5vCurrent
  | epsAdcs3v3Current
  | epsObc3v3Current
  | epsComms5vVoltage
  | epsComms3v3Voltage
  | epsMagnetorquer8vVoltage
  | epsAdcs5vVoltage
  | epsAdcs3v3Voltage
  | epsObc3v3Voltage
  | obcState
  | epsState
  | numCspPacketsRcvd
  | pong
  deriving DecidableEq, Repr

namespace TelemetryDataId

def value : TelemetryDataId → ℕ
  | .none => 0
  | .cc1120Temp => 1
  | .commsCustomTransceiverTemp => 2
  | .obcTemp => 3
  | .adcsMagBoardTemp => 4
  | .adcsSensorBoardTemp => 5
  | .epsBoardTemp => 6
  | .solarPanel1Temp => 7
  | .solarPanel2Temp => 8
  | .solarPanel3Temp => 9
  | .solarPanel4Temp => 10
  | .epsComms5vCurrent => 11
  | .epsComms3v3Current => 12
  | .epsMagnetorquer8vCurrent => 13
  | .epsAdcs5vCurrent => 14
  | .epsAdcs3v3Current => 15
  | .epsObc3v3Current => 16
  | .epsComms5vVoltage => 17
  | .epsComms3v3Voltage => 18
  | .epsMagnetorquer8vVoltage => 19
  | .epsAdcs5vVoltage => 20
  | .epsAdcs3v3Voltage => 21
  | .epsObc3v3Voltage => 22
  | .obcState => 23
  | .epsState => 24
  | .numCspPacketsRcvd => 25
  | .pong => 26

def ofValue? : ℕ → Option TelemetryDataId
  | 0 => some .none
  | 1 => some .cc1120Temp
  | 2 => some .commsCustomTransceiverTemp
  | 3 => some .obcTemp
  | 4 => some .adcsMagBoardTemp
  | 5 => some .adcsSensorBoardTemp
  | 6 => some .epsBoardTemp
  | 7 => some .solarPanel1Temp
  | 8 => some .solarPanel2Temp
  | 9 => some .solarPanel3Temp
  | 10 => some .solarPanel4Temp
  | 11 => some .epsComms5vCurrent
  | 12 => some .epsComms3v3Current
  | 13 => some .epsMagnetorquer8vCurrent
  | 14 => some .epsAdcs5vCurrent
  | 15 => some .epsAdcs3v3Current
  | 16 => some .epsObc3v3Current
  | 17 => some .epsComms5vVoltage
  | 18 => some .epsComms3v3Voltage
  | 19 => some .epsMagnetorquer8vVoltage
  | 20 => some .epsAdcs5vVoltage
  | 21 => some .epsAdcs3v3Voltage
  | 22 => some .epsObc3v3Voltage
  | 23 => some .obcState
  | 24 => some .epsState
  | 25 => some .numCspPacketsRcvd
  | 26 => some .pong
  | _ => Option.none

end TelemetryDataId

/-- `telemetry_data_t`. The first two fields are the members of its union that some function
reads or writes; a `float` is its bit pattern. -/
structure TelemetryData where
  obcTemp : BitVec 32
  obcState : BitVec 8
  id : BitVec 32
  timestamp : BitVec 32
  deriving DecidableEq, Repr

/-- `MAX_TELEMETRY_DATA_SIZE`: the union, the id and the timestamp take four bytes each. -/
def maxTelemetryDataSize : ℕ := 12

/-! ## Packing -/

abbrev TelemetryPackFn := TelemetryData → List Byte → Offset → Except Fault (List Byte × Offset)

def packObcTemp : TelemetryPackFn := fun data buffer offset => packFloat data.obcTemp buffer offset

def packObcState : TelemetryPackFn := fun data buffer offset => packUint8 data.obcState buffer offset

/-- Nothing to pack. -/
def packPong : TelemetryPackFn := fun _ buffer offset => .ok (buffer, offset)

/-- The table `telemPackFns`; the entries that are not listed are `NULL`. -/
def telemPackFns : TelemetryDataId → Option TelemetryPackFn
  | .obcTemp => some packObcTemp
  | .obcState => some packObcState
  | .pong => some packPong
  | _ => none

/-- What `packTelemetry` returns and leaves in its output arguments. -/
structure TelemetryPackResult where
  err : ErrorCode
  buffer : List Byte
  numPacked : BitVec 32
  deriving DecidableEq, Repr

/-- `packTelemetry` on pointers that are not `NULL`; `numPacked` is the value its output
argument has before the call. An id beyond the table is read from outside of it. -/
def packTelemetry (data : TelemetryData) (buffer : List Byte) (len : ℕ) (numPacked : BitVec 32) :
    Except Fault TelemetryPackResult :=
  if len < maxTelemetryDataSize then
    .ok ⟨.buffTooSmall, buffer, numPacked⟩
  else
    match TelemetryDataId.ofValue? data.id.toNat with
    | none => .error .outOfBounds
    | some id =>
        match telemPackFns id with
        | none => .ok ⟨.invalidArg, buffer, numPacked⟩
        | some packFn => do
            let (buffer, offset) ← packUint8 (data.id.setWidth 8) buffer 0
            let (buffer, offset) ← packUint32 data.timestamp buffer offset
            let (buffer, offset) ← packFn data buffer offset
            return ⟨.success, buffer, offset⟩

/-! ## Unpacking -/

abbrev TelemetryUnpackFn := List Byte → Offset → TelemetryData → Except Fault (Offset × TelemetryData)

def unpackObcTemp : TelemetryUnpackFn := fun buffer offset data => do
  let (obcTemp, offset) ← unpackFloat buffer offset
  return (offset, { data with obcTemp := obcTemp })

def unpackObcState : TelemetryUnpackFn := fun buffer offset data => do
  let (obcState, offset) ← unpackUint8 buffer offset
  return (offset, { data with obcState := obcState })

/-- Nothing to unpack. -/
def unpackPong : TelemetryUnpackFn := fun _ offset data => .ok (offset, data)

/-- The table `telemUnpackFns`; the entries that are not listed are `NULL`. -/
def telemUnpackFns : TelemetryDataId → Option TelemetryUnpackFn
  | .obcTemp => some unpackObcTemp
  | .obcState => some unpackObcState
  | .pong => some unpackPong
  | _ => none

/-- `NUM_UNPACK_FNS`. -/
def numUnpackFns : ℕ := TelemetryDataId.pong.value + 1

/-- What `unpackTelemetry` returns and leaves in its output arguments. -/
structure TelemetryUnpackResult where
  err : ErrorCode
  offset : Offset
  data : TelemetryData
  deriving DecidableEq, Repr

/-- `unpackTelemetry` on pointers that are not `NULL`; `data` is the record its output argument
holds before the call. An id without a function gets a state of `0xF`. -/
def unpackTelemetry (buffer : List Byte) (offset : Offset) (data : TelemetryData) :
    Except Fault TelemetryUnpackResult := do
  let (id, offset) ← unpackUint8 buffer offset
  if id.toNat ≥ numUnpackFns then
    return ⟨.invalidArg, offset, data⟩
  let data := { data with id := id.setWidth 32 }
  let (timestamp, offset) ← unpackUint32 buffer offset
  let data := { data with timestamp := timestamp }
  match (TelemetryDataId.ofValue? id.toNat).bind telemUnpackFns with
  | none => return ⟨.success, offset, { data with obcState := 0xF }⟩
  | some unpackFn =>
      let (offset, data) ← unpackFn buffer offset data
      return ⟨.success, offset, data⟩

/-! ## The ground station -/

/-- `TelemetryData()`. -/
def TelemetryData.new : TelemetryData where
  obcTemp := 0
  obcState := 0
  id := 0
  timestamp := 0

/-- The `while` loop of `unpack_telem`. Every round but the last reads at least one byte, so
`fuel` rounds suffice for fewer than `fuel` bytes. -/
def unpackTelemLoop (telemPacked : List Byte) :
    ℕ → Offset → ℕ → List TelemetryData → Except PyError (List TelemetryData × ℕ)
  | 0, _, _, _ => .error (.fault .nonTermination)
  | fuel + 1, bytesUnpacked, totalBytesUnpacked, telemDataList =>
      if bytesUnpacked.toNat < rsDecodedDataSize then
        match telemPacked[totalBytesUnpacked]? with
        | none => .error .indexError
        | some byte =>
            if byte.toNat = TelemetryDataId.none.value then .ok (telemDataList, totalBytesUnpacked)
            else do
              let buff ← ctypesArray maxCmdMsgSize
                ((telemPacked.drop totalBytesUnpacked).take maxCmdMsgSize)
              let res ← callC (unpackTelemetry buff.cells bytesUnpacked TelemetryData.new)
              let totalBytesUnpacked := totalBytesUnpacked + res.offset.toNat
              if res.err ≠ .success then
                throw (.valueError
                  ("Could not unpack telem. OBC Error Code: " ++ toString res.err.value))
              unpackTelemLoop telemPacked fuel 0 totalBytesUnpacked (telemDataList ++ [res.data])
      else .ok (telemDataList, totalBytesUnpacked)

/-- `unpack_telem`. -/
def unpackTelem (telemPacked : List Byte) : Except PyError (List TelemetryData × List Byte) := do
  if telemPacked.length > rsDecodedDataSize then
    throw (.valueError "The encoded telem data to unpack is too long")
  let (telemDataList, totalBytesUnpacked) ←
    unpackTelemLoop telemPacked (telemPacked.length + 1) 0 0 []
  return (telemDataList, telemPacked.drop totalBytesUnpacked)

end ObcGsInterface
