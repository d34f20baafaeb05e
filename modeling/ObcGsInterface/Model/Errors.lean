import ObcGsInterface.Library.Memory

/-! # Bytes, result codes and exceptions

The numeric codes matter: the Python wrappers print them in their exceptions. -/

namespace ObcGsInterface

open CArray

/-- A `uint8_t`. -/
abbrev Byte := BitVec 8

/-- `obc_gs_error_code_t`. -/
inductive ErrorCode where
  | success
  | invalidArg
  | buffTooSmall
  | unsupportedCmd
  | reedSolEncErr
  | reedSolDecErr
  | invalidAx25Packet
  | corruptedAx25Msg
  | invalidTnc
  deriving DecidableEq, Repr

/-- The value of an enumerator. -/
def ErrorCode.value : ErrorCode → ℕ
  | .success => 0
  | .invalidArg => 1
  | .buffTooSmall => 3
  | .unsupportedCmd => 2
  | .reedSolEncErr => 300
  | .reedSolDecErr => 301
  | .invalidAx25Packet => 400
  | .corruptedAx25Msg => 401
  | .invalidTnc => 402

/-! ## Python -/

/-- What a Python function of the ground station can raise. A C call without a defined
result is kept apart from the exceptions. -/
inductive PyError where
  | valueError (message : String)
  | indexError
  | overflowError
  | fault (fault : Fault)
  deriving DecidableEq, Repr

/-- Call C code from Python. -/
def callC {α : Type} (result : Except Fault α) : Except PyError α :=
  match result with
  | .ok a => .ok a
  | .error fault => .error (.fault fault)

@[simp] theorem callC_ok {α : Type} (a : α) : callC (.ok a) = .ok a := rfl

/-- `(c_uint8 * n)(*values)`: a zero-filled array that begins with the values. -/
def ctypesArray (n : ℕ) (values : List Byte) : Except PyError (Block Byte n) :=
  if h : values.length ≤ n then
    .ok ⟨values ++ List.replicate (n - values.length) 0, by simp [h]⟩
  else .error .indexError

theorem ctypesArray_of_le {n : ℕ} {values : List Byte} (h : values.length ≤ n) :
    ∃ array, ctypesArray n values = .ok array ∧
      array.cells = values ++ List.replicate (n - values.length) 0 :=
  ⟨_, dif_pos h, rfl⟩

/-- `values.ljust(n, b"\x00")`. -/
def ljust (values : List Byte) (n : ℕ) : List Byte :=
  values ++ List.replicate (n - values.length) 0

/-- `MAX_CMD_MSG_SIZE` of the Python package. -/
def maxCmdMsgSize : ℕ := 16

/-- `RS_DECODED_DATA_SIZE`. -/
def rsDecodedDataSize : ℕ := 223

/-- `RS_ENCODED_DATA_SIZE`. -/
def rsEncodedDataSize : ℕ := 255

end ObcGsInterface
