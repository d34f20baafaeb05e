import ObcGsInterface.Library.BigEndian
import ObcGsInterface.Library.Cursor
import ObcGsInterface.Library.RecordStream
import ObcGsInterface.Model.DataPack

/-! # Packed words

The packing functions store the bytes of a word through the cursor that a `uint32_t` offset
is, and the unpacking functions recognise them. -/

namespace ObcGsInterface

open CArray Cursor BigEndian RecordStream

/-! ## Offsets as cursors -/

/-- Store the bytes from the offset on. -/
abbrev putBytes := putAll (α := Byte) (BitVec.toNat (w := 32)) (· + 1)

theorem putBytes_append (xs ys buffer : List Byte) (offset : Offset) :
    putBytes (xs ++ ys) buffer offset =
      putBytes xs buffer offset >>= fun r => putBytes ys r.1 r.2 :=
  putAll_append xs ys buffer offset

/-- The bytes stand in the buffer from the offset on. -/
abbrev HoldsBytes := Holds (α := Byte) (BitVec.toNat (w := 32)) (· + 1)

@[simp] theorem iterate_offset (n : ℕ) (offset : Offset) :
    (· + 1)^[n] offset = offset + BitVec.ofNat 32 n := by
  induction n generalizing offset with
  | zero => simp
  | succ n ih =>
      rw [Function.iterate_succ_apply, ih, BitVec.add_assoc]
      congr 1
      apply BitVec.eq_of_toNat_eq
      simp
      omega

theorem toNat_offset_add_le (offset : Offset) (i : ℕ) :
    (offset + BitVec.ofNat 32 i).toNat ≤ offset.toNat + i := by
  rw [BitVec.toNat_add, BitVec.toNat_ofNat]
  have := Nat.mod_le (offset.toNat + i % 2 ^ 32) (2 ^ 32)
  have := Nat.mod_le i (2 ^ 32)
  omega

/-- Up to `2 ^ 32` places from an offset on are all different. -/
theorem offset_distinct (offset : Offset) (n : ℕ) (h : n ≤ 2 ^ 32) :
    Distinct BitVec.toNat (· + 1) offset n := by
  intro i hi j hj heq
  simp only [iterate_offset] at heq
  have heq' := BitVec.eq_of_toNat_eq heq
  have hij : BitVec.ofNat 32 i = BitVec.ofNat 32 j := by simpa using heq'
  have := congrArg BitVec.toNat hij
  simp only [BitVec.toNat_ofNat] at this
  rwa [Nat.mod_eq_of_lt (by omega), Nat.mod_eq_of_lt (by omega)] at this

/-! ## Single words -/

private theorem offset_succ (offset : Offset) :
    offset + 1 + 1 = offset + 2 ∧ offset + 2 + 1 = offset + 3 ∧ offset + 3 + 1 = offset + 4 := by
  refine ⟨?_, ?_, ?_⟩ <;> rw [BitVec.add_assoc] <;> rfl

theorem packUint8_eq (value : Byte) (buffer : List Byte) (offset : Offset) :
    packUint8 value buffer offset = putBytes [value] buffer offset := rfl

theorem packUint16_eq (value : BitVec 16) (buffer : List Byte) (offset : Offset) :
    packUint16 value buffer offset = putBytes (bytes16 value) buffer offset := by
  simp only [packUint16, bytes16, putAll, offset_succ, pure_eq_ok]

theorem packUint32_eq (value : BitVec 32) (buffer : List Byte) (offset : Offset) :
    packUint32 value buffer offset = putBytes (bytes32 value) buffer offset := by
  simp only [packUint32, bytes32, putAll, offset_succ, pure_eq_ok]

theorem unpackUint8_eq_ok {buffer : List Byte} {offset offset' : Offset} {value : Byte} :
    unpackUint8 buffer offset = .ok (value, offset') ↔
      HoldsBytes buffer offset [value] ∧ offset' = offset + 1 := by
  simp only [unpackUint8, bind_eq_ok, load_eq_ok, pure_eq_ok, Except.ok.injEq, Prod.mk.injEq,
    holds_cons, holds_nil, and_true]
  constructor
  · rintro ⟨b, hb, rfl, rfl⟩
    exact ⟨hb, rfl⟩
  · rintro ⟨hb, rfl⟩
    exact ⟨value, hb, rfl, rfl⟩

theorem unpackUint16_eq_ok {buffer : List Byte} {offset offset' : Offset} {value : BitVec 16} :
    unpackUint16 buffer offset = .ok (value, offset') ↔
      HoldsBytes buffer offset (bytes16 value) ∧ offset' = offset + 2 := by
  simp only [unpackUint16, bind_eq_ok, load_eq_ok, pure_eq_ok, Except.ok.injEq, Prod.mk.injEq]
  constructor
  · rintro ⟨b0, h0, b1, h1, hvalue, rfl⟩
    rw [bytes16_eq_iff.mpr hvalue.symm]
    simp only [holds_cons, holds_nil, and_true]
    exact ⟨h0, h1⟩
  · rintro ⟨hheld, rfl⟩
    simp only [bytes16, holds_cons, holds_nil, and_true] at hheld
    exact ⟨_, hheld.1, _, hheld.2, join16_bytes16 value, rfl⟩

theorem unpackUint32_eq_ok {buffer : List Byte} {offset offset' : Offset} {value : BitVec 32} :
    unpackUint32 buffer offset = .ok (value, offset') ↔
      HoldsBytes buffer offset (bytes32 value) ∧ offset' = offset + 4 := by
  simp only [unpackUint32, bind_eq_ok, load_eq_ok, pure_eq_ok, Except.ok.injEq, Prod.mk.injEq]
  constructor
  · rintro ⟨b0, h0, b1, h1, b2, h2, b3, h3, hvalue, rfl⟩
    rw [bytes32_eq_iff.mpr hvalue.symm]
    simp only [holds_cons, holds_nil, and_true, offset_succ]
    exact ⟨h0, h1, h2, h3⟩
  · rintro ⟨hheld, rfl⟩
    simp only [bytes32, holds_cons, holds_nil, and_true, offset_succ] at hheld
    rcases hheld with ⟨h0, h1, h2, h3⟩
    exact ⟨_, h0, _, h1, _, h2, _, h3, join32_bytes32 value, rfl⟩

/-! ## Reading within a buffer -/

theorem readsWithin_unpackUint8 (offset : Offset) :
    ReadsWithin fun buffer => unpackUint8 buffer offset :=
  (readsWithin_load _).bind fun _ => readsWithin_const _

theorem readsWithin_unpackUint16 (offset : Offset) :
    ReadsWithin fun buffer => unpackUint16 buffer offset :=
  (readsWithin_load _).bind fun _ => (readsWithin_load _).bind fun _ => readsWithin_const _

theorem readsWithin_unpackUint32 (offset : Offset) :
    ReadsWithin fun buffer => unpackUint32 buffer offset :=
  (readsWithin_load _).bind fun _ => (readsWithin_load _).bind fun _ =>
    (readsWithin_load _).bind fun _ => (readsWithin_load _).bind fun _ => readsWithin_const _

theorem load_of_room {buffer : List Byte} {offset : Offset} {n : ℕ}
    (h : offset.toNat + n ≤ buffer.length) (k : ℕ) (hk : k < n) :
    ∃ byte, load buffer (offset + BitVec.ofNat 32 k).toNat = .ok byte := by
  have := toNat_offset_add_le offset k
  exact ⟨_, load_of_lt buffer (by omega)⟩

theorem unpackUint8_of_room {buffer : List Byte} {offset : Offset}
    (h : offset.toNat + 1 ≤ buffer.length) :
    ∃ value, unpackUint8 buffer offset = .ok (value, offset + 1) :=
  ⟨_, by rw [unpackUint8, load_of_lt buffer h, ok_bind, pure_eq_ok]⟩

theorem unpackUint16_of_room {buffer : List Byte} {offset : Offset}
    (h : offset.toNat + 2 ≤ buffer.length) :
    ∃ value, unpackUint16 buffer offset = .ok (value, offset + 2) := by
  have h0 := load_of_lt buffer (show offset.toNat < buffer.length by omega)
  obtain ⟨b1, h1⟩ : ∃ b, load buffer (offset + 1).toNat = .ok b := load_of_room h 1 (by decide)
  exact ⟨_, by rw [unpackUint16, h0, ok_bind, h1, ok_bind, pure_eq_ok]⟩

theorem unpackUint32_of_room {buffer : List Byte} {offset : Offset}
    (h : offset.toNat + 4 ≤ buffer.length) :
    ∃ value, unpackUint32 buffer offset = .ok (value, offset + 4) := by
  have h0 := load_of_lt buffer (show offset.toNat < buffer.length by omega)
  obtain ⟨b1, h1⟩ : ∃ b, load buffer (offset + 1).toNat = .ok b := load_of_room h 1 (by decide)
  obtain ⟨b2, h2⟩ : ∃ b, load buffer (offset + 2).toNat = .ok b := load_of_room h 2 (by decide)
  obtain ⟨b3, h3⟩ : ∃ b, load buffer (offset + 3).toNat = .ok b := load_of_room h 3 (by decide)
  exact ⟨_, by
    rw [unpackUint32, h0, ok_bind, h1, ok_bind, h2, ok_bind, h3, ok_bind, pure_eq_ok]⟩

/-! ## At the start of a buffer -/

theorem toNat_zero_add {n : ℕ} (h : n < 2 ^ 32) : (0 + BitVec.ofNat 32 n : Offset).toNat = n := by
  rw [show (0 : Offset) = 0#32 from rfl, BitVec.zero_add, BitVec.toNat_ofNat, Nat.mod_eq_of_lt h]

theorem holdsBytes_zero {buffer values : List Byte} (h : values.length < 2 ^ 32) :
    HoldsBytes buffer 0 values ↔ buffer.take values.length = values := by
  have hindex {i : ℕ} (hi : i < values.length) :
      ((· + 1)^[i] (0 : Offset)).toNat = i := by
    rw [iterate_offset, toNat_zero_add (by omega)]
  constructor
  · intro hheld
    apply List.ext_getElem?
    intro i
    by_cases hi : i < values.length
    · have := hheld i hi
      rw [hindex hi] at this
      rw [List.getElem?_take_of_lt hi, this]
    · rw [List.getElem?_eq_none (by simp; omega), List.getElem?_eq_none (by omega)]
  · intro htake i hi
    rw [hindex hi, ← List.getElem?_take_of_lt hi, htake]

/-- Bytes stored from the start of a buffer on replace its beginning. -/
theorem putBytes_zero {values buffer : List Byte} (h : values.length ≤ buffer.length)
    (hsize : values.length < 2 ^ 32) :
    putBytes values buffer 0 =
      .ok (values ++ buffer.drop values.length, BitVec.ofNat 32 values.length) := by
  have hindex {i : ℕ} (hi : i < values.length) : ((· + 1)^[i] (0 : Offset)).toNat = i := by
    rw [iterate_offset, toNat_zero_add (by omega)]
  have hroom : Room BitVec.toNat (· + 1) buffer (0 : Offset) values.length := by
    intro i hi
    rw [hindex hi]
    omega
  obtain ⟨result, hput⟩ : ∃ result, putBytes values buffer 0 =
      .ok (result, (· + 1)^[values.length] 0) := putAll_of_room values buffer 0 hroom
  rcases putAll_frame hput with ⟨hlength, hframe⟩
  have hheld := putAll_holds (offset_distinct 0 _ (Nat.le_of_lt hsize)) hput
  rw [hput, iterate_offset, show (0 : Offset) = 0#32 from rfl, BitVec.zero_add]
  congr 2
  rw [← (holdsBytes_zero hsize).mp hheld]
  conv_lhs => rw [← List.take_append_drop values.length result]
  congr 1
  apply List.ext_getElem?
  intro k
  rw [List.getElem?_drop, List.getElem?_drop, (holdsBytes_zero hsize).mp hheld]
  apply hframe
  intro i hi
  rw [hindex hi]
  omega

end ObcGsInterface
