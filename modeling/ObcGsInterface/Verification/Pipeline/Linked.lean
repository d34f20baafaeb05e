import ObcGsInterface.Verification.Fec.Correctness
import ObcGsInterface.Verification.Pipeline.Payload

/-! # The link with its decoder

`rsDecode` on the instance that `initRs` creates. What was assumed of a decoder holds of the one
that is linked. -/

namespace ObcGsInterface

open CArray

-- The tables are never evaluated in a proof.
attribute [local irreducible] fieldCreate

theorem validCode_ccsds : ValidCode 1 32 := ⟨by decide, by decide, by decide⟩

theorem codeword_vanishes (message : Block Byte rsDecodedSize) :
    VanishesAtRoots correctRsPrimitivePolynomialCcsds 1 1 32 (codeword message).cells :=
  (vanishesAtRoots_append_iff validCode_ccsds _ (length_parityOf _)).mpr rfl

/-- The decoder on a block of the link. -/
theorem decode_codeword {message : Block Byte rsDecodedSize} {received : Block Byte rsEncodedSize}
    (h : wrongBytes (codeword message).cells received.cells ≤ 16) (buffers : DecoderBuffers 255 32)
    (msg : Block Byte rsDecodedSize) :
    ∃ buffers', correctReedSolomonDecode ccsdsDecodingReedSolomon buffers received.cells
      rsEncodedSize msg = .ok (223, buffers', message) := by
  have hword : (codeword message).cells.length = 255 := (codeword message).length_cells
  have hreceived : received.cells.length = 255 := received.length_cells
  have hcall := decodeCall_corrects validCode_ccsds (codeword_vanishes message)
    (by rw [hword]; decide) hword.le (hreceived.trans hword.symm) (by omega) buffers msg
    (by rw [hword]; decide)
  have hwhole : overwrite msg.cells 0 message.cells = message.cells :=
    overwrite_whole (message.length_cells.trans msg.length_cells.symm)
  have hmessage : (codeword message).cells.take (255 - 32) = message.cells := take_codeword message
  rw [hword, hmessage, hwhole] at hcall
  obtain ⟨buffers', msg', hrun, hcells⟩ := decodeCall_eq_ok.mp hcall
  rw [hreceived] at hrun
  have hsame : msg' = message := by
    ext1
    exact hcells
  exact ⟨buffers', by rw [← hsame]; exact hrun⟩

/-- **`rsDecode`** returns the message of a block with at most 16 wrong bytes, whatever it was
called on before. -/
theorem rsDecodeBuffered_corrects {message : Block Byte rsDecodedSize}
    {received : Block Byte rsEncodedSize}
    (h : wrongBytes (codeword message).cells received.cells ≤ 16) (buffers : DecoderBuffers 255 32)
    (decodedData : Block Byte rsDecodedSize) :
    ∃ buffers', rsDecodeBuffered buffers (some received) (some decodedData) rsDecodedSize =
      .ok (.success, buffers', some message) := by
  obtain ⟨buffers', hrun⟩ := decode_codeword h buffers decodedData
  have hcast : ¬ BitVec.ofInt 8 223 = (-1 : Byte) := by decide
  refine ⟨buffers', ?_⟩
  simp only [rsDecodeBuffered, Nat.lt_irrefl, if_false, hrun, ok_bind, if_neg hcast]
  rfl

/-! ## The decoder as a parameter -/

/-- The decoder of the library on given working arrays, without its faults. -/
def libcorrectDecoder (buffers : DecoderBuffers 255 32) : RsDecoder := fun _ word =>
  match correctReedSolomonDecode ccsdsDecodingReedSolomon buffers word.cells rsEncodedSize
      (Block.fill rsDecodedSize 0) with
  | .ok (result, _, msg) => if result < 0 then none else some msg
  | .error _ => none

/-- The message of a call that reports one. -/
def reportedMessage : Except Fault (ℤ × List Byte) → Option (List Byte)
  | .ok (result, cells) => if result < 0 then none else some cells
  | .error _ => none

theorem cells_libcorrectDecoder (buffers : DecoderBuffers 255 32) (rs : ReedSolomon)
    (word : Block Byte rsEncodedSize) :
    (libcorrectDecoder buffers rs word).map Block.cells =
      reportedMessage (decodeCall ccsdsDecodingReedSolomon buffers word.cells
        (Block.fill rsDecodedSize 0)) := by
  have hlength : word.cells.length = rsEncodedSize := word.length_cells
  rw [libcorrectDecoder, decodeCall, hlength]
  cases correctReedSolomonDecode ccsdsDecodingReedSolomon buffers word.cells rsEncodedSize
      (Block.fill rsDecodedSize 0) with
  | error fault => rfl
  | ok returned =>
      obtain ⟨result, buffers', msg⟩ := returned
      simp only [ok_bind, pure_eq_ok, reportedMessage]
      split
      · rfl
      · rfl

/-- What other blocks have left in the working arrays makes no difference. -/
theorem libcorrectDecoder_eq (buffers buffers' : DecoderBuffers 255 32) :
    libcorrectDecoder buffers = libcorrectDecoder buffers' := by
  funext rs word
  have hlength : word.cells.length = 255 := word.length_cells
  obtain ⟨outcome, -, hcall⟩ := decodeCall_spec (p := correctRsPrimitivePolynomialCcsds) (c := 1)
    validCode_ccsds (by omega) hlength.le
  have hroom : word.cells.length - 32 ≤ rsDecodedSize := by
    rw [hlength]
    decide
  have hsame : decodeCall ccsdsDecodingReedSolomon buffers word.cells (Block.fill rsDecodedSize 0) =
      decodeCall ccsdsDecodingReedSolomon buffers' word.cells (Block.fill rsDecodedSize 0) :=
    (hcall rsDecodedSize buffers _ hroom).trans (hcall rsDecodedSize buffers' _ hroom).symm
  refine Option.map_injective (fun msg msg' => Block.ext) ?_
  rw [cells_libcorrectDecoder, cells_libcorrectDecoder, hsame]

theorem libcorrectDecoder_correctsErrors (buffers : DecoderBuffers 255 32)
    (message : Block Byte rsDecodedSize) :
    CorrectsErrors (libcorrectDecoder buffers) message (codeword message) := by
  intro received hwrong
  obtain ⟨buffers', hrun⟩ := decode_codeword hwrong buffers (Block.fill rsDecodedSize 0)
  rw [libcorrectDecoder, hrun]
  rfl

theorem libcorrectDecoder_decodesCodewords (buffers : DecoderBuffers 255 32) :
    DecodesCodewords (libcorrectDecoder buffers) := by
  intro message word hword
  rw [isCodeword_iff.mp hword]
  refine libcorrectDecoder_correctsErrors buffers message _ ?_
  rw [wrongBytes_self]
  exact Nat.zero_le 16

end ObcGsInterface
