import ObcGsInterface.Model.CommandFactories
import ObcGsInterface.Verification.Command.Framing

/-! # What the factories transmit

An integer argument reaches the satellite as it is exactly when it is in the range of its
field. The factories refuse log levels, lengths and addresses above that range, and nothing
else. -/

namespace ObcGsInterface

open CArray

/-! ## Integers in fields -/

/-- The value is in the range of an unsigned integer of `w` bits. -/
def InRange (w : ℕ) (value : ℤ) : Prop := 0 ≤ value ∧ value < 2 ^ w

/-- A field of `w` bits holds a value as it is exactly when the value is in its range. -/
theorem toNat_ofInt_eq_iff {w : ℕ} {value : ℤ} :
    ((BitVec.ofInt w value).toNat : ℤ) = value ↔ InRange w value := by
  have hpos : (0 : ℤ) < 2 ^ w := by positivity
  have hreduced : ((BitVec.ofInt w value).toNat : ℤ) = value % 2 ^ w := by
    rw [BitVec.toNat_ofInt, Nat.cast_pow, Nat.cast_ofNat,
      Int.toNat_of_nonneg (Int.emod_nonneg value hpos.ne')]
  rw [hreduced]
  constructor
  · intro h
    rw [← h]
    exact ⟨Int.emod_nonneg value hpos.ne', Int.emod_lt_of_pos value hpos⟩
  · exact fun h => Int.emod_eq_of_lt h.1 h.2

/-! ## Factories -/

theorem CmdCallbackId.value_le (id : CmdCallbackId) : id.value ≤ maxCmdId := by
  cases id <;> decide

theorem CmdCallbackId.value_pos {id : CmdCallbackId} (h : id ≠ .endOfFrame) : 1 ≤ id.value := by
  cases id <;> first | contradiction | decide

namespace CommandFactory

/-- The id of the commands that a factory makes. -/
def id : CommandFactory → CmdCallbackId
  | endOfFrame => .endOfFrame
  | execObcReset => .execObcReset
  | rtcSync _ => .rtcSync
  | downlinkLogsNextPass _ => .downlinkLogsNextPass
  | mircoSdFormat => .microSdFormat
  | ping => .ping
  | downlinkTelem => .downlinkTelem
  | uplinkDisc => .uplinkDisc
  | setProgrammingSession _ => .setProgrammingSession
  | eraseApp => .eraseApp
  | downloadData _ _ _ => .downloadData
  | verifyCrc => .verifyCrc
  | i2cProbe => .i2cProbe

/-- The message carries the arguments of the factory as they are. -/
def Carried (cmdMsg : CmdMsg) : CommandFactory → Prop
  | rtcSync time => cmdMsg.rtcSync.unixTime.toNat = time
  | downlinkLogsNextPass logLevel => cmdMsg.downlinkLogsNextPass.logLevel.toNat = logLevel
  | setProgrammingSession programmingSession =>
      cmdMsg.setProgrammingSession.programmingSession.toNat = programmingSession.value
  | downloadData programmingSession length address =>
      cmdMsg.downloadData.programmingSession.toNat = programmingSession.value ∧
        cmdMsg.downloadData.length.toNat = length ∧ cmdMsg.downloadData.address.toNat = address
  | _ => True

/-- The arguments that are refused: too large ones where the factory checks them, and the
end of a frame, which `packCmdMsg` does not pack. -/
def Refused : CommandFactory → Prop
  | endOfFrame => True
  | downlinkLogsNextPass logLevel => 255 < logLevel
  | downloadData _ length address => 65535 < length ∨ 4294967295 < address
  | _ => False

/-- The integer arguments are in the ranges of their fields. -/
def ArgumentsInRange : CommandFactory → Prop
  | rtcSync time => InRange 32 time
  | downlinkLogsNextPass logLevel => InRange 8 logLevel
  | downloadData _ length address => InRange 16 length ∧ InRange 32 address
  | _ => True

/-- The factory or `pack_command` raises `ValueError`. -/
def Raises (factory : CommandFactory) (unixtimeOfExecution : Option ℤ) : Prop :=
  ∃ message, (factory.create unixtimeOfExecution >>= packCommand) = .error (.valueError message)

/-- `pack_command` returns bytes from which `unpackCmdMsg` reads the command with all of its
arguments, whatever follows the bytes and was in the message before. -/
def Transmits (factory : CommandFactory) (unixtimeOfExecution : Option ℤ) : Prop :=
  ∃ packed, (factory.create unixtimeOfExecution >>= packCommand) = .ok packed ∧
    ∀ back previous, ∃ result, unpackCmdMsg (packed ++ back) 0 previous = .ok result ∧
      result.err = .success ∧
      result.cmdMsg.id.toNat = factory.id.value ∧
      factory.Carried result.cmdMsg ∧
      result.cmdMsg.isTimeTagged = unixtimeOfExecution.isSome ∧
      ∀ time, unixtimeOfExecution = some time → result.cmdMsg.timestamp.toNat = time

/-! ## Messages -/

/-- What a factory that does not refuse its arguments puts into a message. -/
structure MadeBy (factory : CommandFactory) (unixtimeOfExecution : Option ℤ) (cmdMsg : CmdMsg) :
    Prop where
  id_eq : cmdMsg.id = BitVec.ofNat 32 factory.id.value
  isTimeTagged_eq : cmdMsg.isTimeTagged = unixtimeOfExecution.isSome
  timestamp_eq : ∀ time, unixtimeOfExecution = some time → cmdMsg.timestamp = BitVec.ofInt 32 time
  fits : cmdMsg.payload.Fits
  carried_iff : ∀ other : CmdMsg, other.id = cmdMsg.id → other.payload = cmdMsg.payload →
    (factory.Carried other ↔ factory.ArgumentsInRange)

theorem init_isTimeTagged (unixtimeOfExecution : Option ℤ) :
    (CmdMsg.init unixtimeOfExecution).isTimeTagged = unixtimeOfExecution.isSome := by
  cases unixtimeOfExecution <;> rfl

theorem init_timestamp {unixtimeOfExecution : Option ℤ} {time : ℤ}
    (h : unixtimeOfExecution = some time) :
    (CmdMsg.init unixtimeOfExecution).timestamp = BitVec.ofInt 32 time := by
  subst h
  rfl

/-- A factory without arguments. -/
theorem madeBy_createCmd {factory : CommandFactory} (unixtimeOfExecution : Option ℤ)
    (hfits : (createCmd factory.id unixtimeOfExecution).payload.Fits)
    (hcarried : ∀ cmdMsg, factory.Carried cmdMsg) (hrange : factory.ArgumentsInRange) :
    factory.MadeBy unixtimeOfExecution (createCmd factory.id unixtimeOfExecution) where
  id_eq := rfl
  isTimeTagged_eq := init_isTimeTagged _
  timestamp_eq _ h := init_timestamp h
  fits := hfits
  carried_iff other _ _ := iff_of_true (hcarried other) hrange

theorem madeBy_rtcSync (time : ℤ) (unixtimeOfExecution : Option ℤ) :
    (rtcSync time).MadeBy unixtimeOfExecution (createCmdRtcSync time unixtimeOfExecution) where
  id_eq := rfl
  isTimeTagged_eq := init_isTimeTagged _
  timestamp_eq _ h := init_timestamp h
  fits := trivial
  carried_iff other hid hpayload := by
    have hmember : other.payload = .rtcSync other.rtcSync.unixTime := by
      rw [CmdMsg.payload, hid]
      rfl
    have hvalue : other.rtcSync.unixTime = BitVec.ofInt 32 time :=
      Payload.rtcSync.inj (hmember.symm.trans hpayload)
    rw [Carried, hvalue]
    exact toNat_ofInt_eq_iff

theorem madeBy_downlinkLogsNextPass {logLevel : ℤ} (unixtimeOfExecution : Option ℤ)
    (h : ¬ (downlinkLogsNextPass logLevel).Refused) :
    ∃ cmdMsg, createCmdDownlinkLogsNextPass logLevel unixtimeOfExecution = .ok cmdMsg ∧
      (downlinkLogsNextPass logLevel).MadeBy unixtimeOfExecution cmdMsg := by
  refine ⟨_, if_neg h, ?_⟩
  exact
    { id_eq := rfl
      isTimeTagged_eq := init_isTimeTagged _
      timestamp_eq := fun _ h => init_timestamp h
      fits := trivial
      carried_iff := by
        intro other hid hpayload
        have hmember :
            other.payload = .downlinkLogsNextPass other.downlinkLogsNextPass.logLevel := by
          rw [CmdMsg.payload, hid]
          rfl
        have hvalue : other.downlinkLogsNextPass.logLevel = BitVec.ofInt 8 logLevel :=
          Payload.downlinkLogsNextPass.inj (hmember.symm.trans hpayload)
        rw [Carried, hvalue]
        exact toNat_ofInt_eq_iff }

theorem madeBy_setProgrammingSession (programmingSession : ProgrammingSession)
    (unixtimeOfExecution : Option ℤ) :
    (setProgrammingSession programmingSession).MadeBy unixtimeOfExecution
      (createCmdSetProgrammingSession programmingSession unixtimeOfExecution) where
  id_eq := rfl
  isTimeTagged_eq := init_isTimeTagged _
  timestamp_eq _ h := init_timestamp h
  fits := by
    cases programmingSession
    exact Nat.zero_le 255
  carried_iff other hid hpayload := by
    have hmember : other.payload =
        .setProgrammingSession other.setProgrammingSession.programmingSession := by
      rw [CmdMsg.payload, hid]
      rfl
    have hvalue : other.setProgrammingSession.programmingSession =
        BitVec.ofInt 32 programmingSession.value :=
      Payload.setProgrammingSession.inj (hmember.symm.trans hpayload)
    rw [Carried, hvalue]
    cases programmingSession
    exact iff_of_true rfl trivial

theorem madeBy_downloadData {programmingSession : ProgrammingSession} {length address : ℤ}
    (unixtimeOfExecution : Option ℤ)
    (h : ¬ (downloadData programmingSession length address).Refused) :
    ∃ cmdMsg, createCmdDownloadData programmingSession length address unixtimeOfExecution =
        .ok cmdMsg ∧
      (downloadData programmingSession length address).MadeBy unixtimeOfExecution cmdMsg := by
  rcases not_or.mp h with ⟨hlength, haddress⟩
  refine ⟨_, (if_neg hlength).trans (if_neg haddress), ?_⟩
  exact
    { id_eq := rfl
      isTimeTagged_eq := init_isTimeTagged _
      timestamp_eq := fun _ h => init_timestamp h
      fits := by
        cases programmingSession
        exact Nat.zero_le 255
      carried_iff := by
        intro other hid hpayload
        have hmember : other.payload = .downloadData other.downloadData.programmingSession
            other.downloadData.length other.downloadData.address := by
          rw [CmdMsg.payload, hid]
          rfl
        obtain ⟨hsession, hlengths, haddresses⟩ :=
          Payload.downloadData.inj (hmember.symm.trans hpayload)
        have hvalue : ((BitVec.ofInt 32 programmingSession.value).toNat : ℤ) =
            programmingSession.value := by
          cases programmingSession
          rfl
        rw [Carried, hsession, hlengths, haddresses]
        exact (and_iff_right hvalue).trans (and_congr toNat_ofInt_eq_iff toNat_ofInt_eq_iff) }

/-- A factory makes a message from all arguments that are not refused. -/
theorem create_of_not_refused {factory : CommandFactory} (h : ¬ factory.Refused)
    (unixtimeOfExecution : Option ℤ) :
    ∃ cmdMsg, factory.create unixtimeOfExecution = .ok cmdMsg ∧
      factory.MadeBy unixtimeOfExecution cmdMsg := by
  cases factory with
  | endOfFrame => exact absurd trivial h
  | rtcSync time => exact ⟨_, rfl, madeBy_rtcSync time _⟩
  | downlinkLogsNextPass logLevel => exact madeBy_downlinkLogsNextPass _ h
  | setProgrammingSession programmingSession =>
      exact ⟨_, rfl, madeBy_setProgrammingSession programmingSession _⟩
  | downloadData programmingSession length address => exact madeBy_downloadData _ h
  | _ => exact ⟨_, rfl, madeBy_createCmd _ trivial (fun _ => trivial) trivial⟩

theorem MadeBy.supported {factory : CommandFactory} {unixtimeOfExecution : Option ℤ}
    {cmdMsg : CmdMsg} (h : factory.MadeBy unixtimeOfExecution cmdMsg)
    (hfactory : factory ≠ .endOfFrame) : cmdMsg.Supported := by
  have hentry : factory.id ≠ .endOfFrame := by
    cases factory <;> first | contradiction | exact CmdCallbackId.noConfusion
  have hle : factory.id.value ≤ 12 := factory.id.value_le
  have hid : cmdMsg.id.toNat = factory.id.value := by
    rw [h.id_eq, BitVec.toNat_ofNat, Nat.mod_eq_of_lt (by omega)]
  exact ⟨hid ▸ CmdCallbackId.value_pos hentry, hid ▸ factory.id.value_le, h.fits⟩

/-! ## Refusal and transmission -/

theorem raises_of_refused {factory : CommandFactory} (h : factory.Refused)
    (unixtimeOfExecution : Option ℤ) : factory.Raises unixtimeOfExecution := by
  cases factory with
  | endOfFrame => exact ⟨_, rfl⟩
  | downlinkLogsNextPass logLevel =>
      have hcreate : create unixtimeOfExecution (downlinkLogsNextPass logLevel) = _ := if_pos h
      rw [Raises, hcreate]
      exact ⟨_, rfl⟩
  | downloadData programmingSession length address =>
      rw [Raises, create, createCmdDownloadData]
      by_cases hlength : 65535 < length
      · rw [if_pos hlength]
        exact ⟨_, rfl⟩
      · rw [if_neg hlength, if_pos (h.resolve_left hlength)]
        exact ⟨_, rfl⟩
  | _ => exact h.elim

/-- Arguments that are not refused are packed. -/
theorem pack_of_not_refused {factory : CommandFactory} (h : ¬ factory.Refused)
    (unixtimeOfExecution : Option ℤ) :
    ∃ cmdMsg, factory.MadeBy unixtimeOfExecution cmdMsg ∧ cmdMsg.Supported ∧
      (factory.create unixtimeOfExecution >>= packCommand) = .ok cmdMsg.image := by
  rcases create_of_not_refused h unixtimeOfExecution with ⟨cmdMsg, hcreate, hmade⟩
  have hfactory : factory ≠ .endOfFrame := by
    intro heq
    rw [heq] at h
    exact h trivial
  have hsupported := hmade.supported hfactory
  refine ⟨cmdMsg, hmade, hsupported, ?_⟩
  rw [hcreate, ok_bind, packCommand_eq hsupported]

/-- The bytes of a command give its arguments back exactly when they are in range. -/
theorem transmits_iff {factory : CommandFactory} (h : ¬ factory.Refused)
    (unixtimeOfExecution : Option ℤ) :
    factory.Transmits unixtimeOfExecution ↔
      factory.ArgumentsInRange ∧ ∀ time, unixtimeOfExecution = some time → InRange 32 time := by
  rcases pack_of_not_refused h unixtimeOfExecution with ⟨cmdMsg, hmade, hsupported, hpack⟩
  have htime {other : CmdMsg} (hsame : other.SameCommand cmdMsg) {time : ℤ}
      (hsome : unixtimeOfExecution = some time) :
      (other.timestamp.toNat : ℤ) = time ↔ InRange 32 time := by
    rw [hsame.timestamp_eq, hmade.timestamp_eq time hsome]
    exact toNat_ofInt_eq_iff
  constructor
  · rintro ⟨packed, hpacked, hall⟩
    rw [hpack, Except.ok.injEq] at hpacked
    subst hpacked
    rcases hall [] CmdMsg.new with ⟨result, hrun, -, -, hcarried, -, htimes⟩
    rcases unpackCmdMsg_image hsupported [] CmdMsg.new with ⟨result', hrun', -, -, hsame⟩
    rw [hrun', Except.ok.injEq] at hrun
    subst hrun
    refine ⟨(hmade.carried_iff _ hsame.id_eq hsame.payload_eq).mp hcarried, ?_⟩
    intro time hsome
    exact (htime hsame hsome).mp (htimes time hsome)
  · rintro ⟨hrange, htimes⟩
    refine ⟨cmdMsg.image, hpack, fun back previous => ?_⟩
    rcases unpackCmdMsg_image hsupported back previous with ⟨result, hrun, herr, -, hsame⟩
    refine ⟨result, hrun, herr, ?_, ?_, ?_, ?_⟩
    · rw [hsame.id_eq, hmade.id_eq]
      cases factory <;> rfl
    · exact (hmade.carried_iff _ hsame.id_eq hsame.payload_eq).mpr hrange
    · rw [hsame.isTimeTagged_eq, hmade.isTimeTagged_eq]
    · intro time hsome
      exact (htime hsame hsome).mpr (htimes time hsome)

theorem not_raises_of_not_refused {factory : CommandFactory} (h : ¬ factory.Refused)
    (unixtimeOfExecution : Option ℤ) : ¬ factory.Raises unixtimeOfExecution := by
  rintro ⟨message, hraises⟩
  rcases pack_of_not_refused h unixtimeOfExecution with ⟨cmdMsg, -, -, hpack⟩
  rw [hpack] at hraises
  contradiction

/-- **Exact or refused.** A command is refused with a `ValueError` or reaches the satellite
with the arguments it was made from, if and only if its arguments are refused or all of them
and the execution time, if there is one, are in the ranges of their fields. -/
theorem exact_or_refused_iff (factory : CommandFactory) (unixtimeOfExecution : Option ℤ) :
    factory.Raises unixtimeOfExecution ∨ factory.Transmits unixtimeOfExecution ↔
      factory.Refused ∨ (factory.ArgumentsInRange ∧
        ∀ time, unixtimeOfExecution = some time → InRange 32 time) := by
  by_cases h : factory.Refused
  · exact iff_of_true (.inl (raises_of_refused h _)) (.inl h)
  · rw [or_iff_right h, or_iff_right (not_raises_of_not_refused h _)]
    exact transmits_iff h _

/-- A time of 2 ^ 32 seconds is transmitted as zero. -/
theorem exact_or_refused_fails :
    ¬ ∀ (factory : CommandFactory) (unixtimeOfExecution : Option ℤ),
      factory.Raises unixtimeOfExecution ∨ factory.Transmits unixtimeOfExecution := by
  intro h
  have hpacked : ((rtcSync 4294967296).create none >>= packCommand) =
      .ok [2, 0, 0, 0, 0, 0, 0, 0, 0] := by decide
  rcases h (rtcSync 4294967296) none with ⟨message, hraises⟩ | ⟨packed, hpack, hall⟩
  · rw [hpacked] at hraises
    contradiction
  · rw [hpacked, Except.ok.injEq] at hpack
    subst hpack
    rcases hall [] CmdMsg.new with ⟨result, hrun, -, -, hcarried, -⟩
    cases hrun
    have hzero : (0 : ℤ) = 4294967296 := hcarried
    contradiction

end CommandFactory

end ObcGsInterface
