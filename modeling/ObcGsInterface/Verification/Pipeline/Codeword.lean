import ObcGsInterface.Model.GroundStation

/-! # Codewords

The encoder is systematic: a codeword is the message and 32 parity bytes. -/

namespace ObcGsInterface

open CArray

@[simp] theorem length_parity (rs : ReedSolomon) (msg : List Byte) :
    (rs.parity msg).length = rs.minDistance := by
  simp [ReedSolomon.parity]

/-- The parity bytes of a message. -/
def parityOf (message : List Byte) : List Byte := ccsdsReedSolomon.parity message

@[simp] theorem length_parityOf (message : List Byte) : (parityOf message).length = 32 :=
  length_parity _ _

/-- The codeword of a message. -/
def codeword (message : Block Byte rsDecodedSize) : Block Byte rsEncodedSize where
  cells := message.cells ++ parityOf message.cells
  length_cells := by
    rw [List.length_append, message.length_cells, length_parityOf]
    rfl

theorem take_codeword (message : Block Byte rsDecodedSize) :
    (codeword message).cells.take rsDecodedSize = message.cells :=
  List.take_left' message.length_cells

theorem initRs_null : initRs .null = .created ccsdsReedSolomon := rfl

/-- `rsEncode` writes the codeword. -/
theorem rsEncode_eq (message : Block Byte rsDecodedSize) (out : Block Byte rsEncodedSize) :
    rsEncode (initRs .null) (some message.cells) (some out) =
      .ok (.success, some (codeword message)) := by
  have hmessage : message.cells.take rsDecodedSize = message.cells :=
    List.take_of_length_le (Nat.le_of_eq message.length_cells)
  obtain ⟨old, parity, hsplit, hold⟩ : ∃ old parity, out.cells = old ++ parity ∧
      old.length = rsDecodedSize :=
    ⟨_, _, (List.take_append_drop rsDecodedSize out.cells).symm, by
      rw [List.length_take, out.length_cells]
      rfl⟩
  have hparity : parity.length = ccsdsReedSolomon.minDistance := by
    have hlength := out.length_cells
    rw [hsplit, List.length_append, hold] at hlength
    have hsizes : rsEncodedSize = rsDecodedSize + ccsdsReedSolomon.minDistance := rfl
    omega
  have h₀ : out.cells = [] ++ (old ++ parity) := hsplit
  obtain ⟨b₁, hb₁, c₁⟩ := Block.memcpy_append h₀ (rfl : _ = 0)
    (Nat.le_of_eq message.length_cells.symm) hold
  have h₁ : b₁.cells = message.cells ++ (parity ++ []) := by
    rw [c₁, hmessage, List.nil_append, List.append_nil]
  have hread : (parityOf message.cells).length = ccsdsReedSolomon.minDistance := length_parity _ _
  obtain ⟨b₂, hb₂, c₂⟩ := Block.memcpy_append h₁ message.length_cells (Nat.le_of_eq hread.symm)
    hparity
  have h₂ : b₂ = codeword message := by
    ext1
    rw [c₂, List.append_nil, codeword, List.take_of_length_le (Nat.le_of_eq hread)]
  have hencode : correctReedSolomonEncode ccsdsReedSolomon message.cells rsDecodedSize out =
      .ok (255, codeword message) := by
    have hroom : ¬ rsDecodedSize > ccsdsReedSolomon.messageLength := Nat.lt_irrefl 223
    have hwhole : ¬ message.cells.length < rsDecodedSize := by
      rw [message.length_cells]
      exact Nat.lt_irrefl _
    rw [correctReedSolomonEncode, if_neg hroom, if_neg hwhole]
    simp only [hmessage, hb₁, ok_bind]
    rw [← parityOf, hb₂, ok_bind, h₂]
    rfl
  have hcast : ¬ (BitVec.ofInt 8 255).toNat < rsEncodedSize := by decide
  simp only [rsEncode, initRs_null, RsHandle.deref, ok_bind, hencode, if_neg hcast]
  rfl

/-- `word` is what `rsEncode` makes of `message`. -/
def IsCodeword (message : Block Byte rsDecodedSize) (word : Block Byte rsEncodedSize) : Prop :=
  ∃ out : Block Byte rsEncodedSize,
    rsEncode (initRs .null) (some message.cells) (some out) = .ok (.success, some word)

theorem isCodeword_iff {message : Block Byte rsDecodedSize} {word : Block Byte rsEncodedSize} :
    IsCodeword message word ↔ word = codeword message := by
  constructor
  · rintro ⟨out, hencode⟩
    rw [rsEncode_eq, Except.ok.injEq, Prod.mk.injEq, Option.some.injEq] at hencode
    exact hencode.2.symm
  · rintro rfl
    exact ⟨Block.fill _ 0, rsEncode_eq message _⟩

/-- `FEC.encode` fills the data up with zeros and returns the codeword. -/
theorem fecEncode_eq {data : List Byte} (h : data.length ≤ rsDecodedDataSize) :
    ∃ message : Block Byte rsDecodedSize,
      message.cells = data ++ List.replicate (rsDecodedDataSize - data.length) 0 ∧
      fecEncode (initRs .null) data = .ok (codeword message).cells := by
  obtain ⟨message, harray, hcells⟩ := ctypesArray_of_le h
  obtain ⟨out, hout, -⟩ :=
    ctypesArray_of_le (show ([] : List Byte).length ≤ rsEncodedDataSize from Nat.zero_le _)
  refine ⟨message, hcells, ?_⟩
  have hrun : rsEncode (initRs .null) (some message.cells) (some out) =
      .ok (.success, some (codeword message)) := rsEncode_eq message out
  rw [fecEncode, if_neg (Nat.not_lt.mpr h)]
  simp only [harray, hout, ok_bind, hrun, callC_ok]
  rfl

/-- `rsDecode` writes the message that the decoder finds. -/
theorem rsDecode_eq {decoder : RsDecoder} {word : Block Byte rsEncodedSize}
    {message : Block Byte rsDecodedSize} (h : decoder ccsdsReedSolomon word = some message)
    (out : Block Byte rsDecodedSize) :
    rsDecode decoder (initRs .null) (some word) (some out) rsDecodedSize =
      .ok (.success, some message) := by
  have hcast : ¬ BitVec.ofInt 8 (rsDecodedSize : ℤ) = (-1 : Byte) := by decide
  simp only [rsDecode, initRs_null, RsHandle.deref, ok_bind, Nat.lt_irrefl, if_false, h,
    Block.memcpy_whole, if_neg hcast]
  rfl

end ObcGsInterface
