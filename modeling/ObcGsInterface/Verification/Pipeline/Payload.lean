import ObcGsInterface.Library.StreamCipher
import ObcGsInterface.Verification.Pipeline.Codeword

/-! # The payload of an uplink frame

The ground station encrypts the data and then fills them up with zeros, and the satellite
decrypts the whole block. So the zeros come out as key stream. -/

namespace ObcGsInterface

open CArray StreamCipher

/-! ## Counter mode -/

/-- `AES_CTR_xcrypt_buffer` before its first round. -/
def CtrState.start (iv : AesBlock) : CtrState := ⟨iv, AesBlock.zero, 16⟩

/-- The first `n` bytes of the key stream of a key and an IV. -/
def ctrKeyStream (key iv : AesBlock) (n : ℕ) : List Byte :=
  keyStream (ctrByte (keyExpansion key)) (.start iv) n

theorem length_ctrKeyStream (key iv : AesBlock) (n : ℕ) : (ctrKeyStream key iv n).length = n :=
  length_keyStream _ _ _

theorem ctrXcrypt_eq_process (roundKey : List AesWord) (s : CtrState) (buf : List Byte) :
    ctrXcrypt roundKey s buf = process (ctrByte roundKey) s buf := by
  induction buf generalizing s with
  | nil => rfl
  | cons b buf ih =>
      rw [process, ← ih]
      rfl

/-- Encryption and decryption are the same pass over a buffer. -/
theorem aesCtrXcryptBuffer_eq (ctx : AesCtx) (buf : List Byte) :
    (aesCtrXcryptBuffer ctx buf).1 = (process (ctrByte ctx.roundKey) (.start ctx.iv) buf).1 := by
  rw [← ctrXcrypt_eq_process]
  rfl

/-- `tinyaes` encrypts as the vendored `tiny_aes` does. -/
def SameCipher (ctrXcryptBuffer : AesBlock → AesBlock → List Byte → List Byte) : Prop :=
  ∀ key iv data, ctrXcryptBuffer key iv data = (aesCtrXcryptBuffer ⟨keyExpansion key, iv⟩ data).1

/-- The decoder returns the message of an undamaged codeword. -/
def DecodesCodewords (decoder : RsDecoder) : Prop :=
  ∀ message word, IsCodeword message word → decoder ccsdsReedSolomon word = some message

/-! ## The satellite -/

/-- `initializeAesCtx` and `aes128Decrypt` on a whole block. -/
theorem aes128Decrypt_eq (ctx : AesCtx) (key iv : AesBlock) (ciphertext out : Block Byte rsDecodedSize) :
    ∃ result plain, aes128Decrypt (initializeAesCtx ctx (some key)).2
        (some ⟨iv, ciphertext.cells, rsDecodedSize⟩) (some out) rsDecodedSize = .ok result ∧
      result.err = .success ∧ result.output = some plain ∧
      plain.cells = (process (ctrByte (keyExpansion key)) (.start iv) ciphertext.cells).1 := by
  obtain ⟨text, ctx', hrun⟩ : ∃ text ctx',
      aesCtrXcryptBuffer ⟨keyExpansion key, iv⟩ ciphertext.cells = (text, ctx') := ⟨_, _, rfl⟩
  have hpass : text = (process (ctrByte (keyExpansion key)) (.start iv) ciphertext.cells).1 := by
    rw [← aesCtrXcryptBuffer_eq ⟨keyExpansion key, iv⟩, hrun]
  have hlength : text.length = rsDecodedSize := by
    rw [hpass, length_process, ciphertext.length_cells]
  refine ⟨⟨.success, some ⟨text, hlength⟩, ctx'⟩, ⟨text, hlength⟩, ?_, rfl, rfl, hpass⟩
  have htake : ciphertext.cells.take rsDecodedSize = ciphertext.cells :=
    List.take_of_length_le (Nat.le_of_eq ciphertext.length_cells)
  have hcopy : ciphertext.memcpy 0 text rsDecodedSize = .ok ⟨text, hlength⟩ :=
    ciphertext.memcpy_whole ⟨text, hlength⟩
  simp only [aes128Decrypt, ne_eq, not_true_eq_false, if_false, Block.memcpy_whole, ok_bind, htake,
    initializeAesCtx, aesInitCtx, aesCtxSetIv, hrun, hcopy]
  rfl

/-! ## Ground station and satellite -/

section Uplink

variable (ctrXcryptBuffer : AesBlock → AesBlock → List Byte → List Byte) (decoder : RsDecoder)
  (ctx : AesCtx) (decodedData output : Block Byte rsDecodedSize) (key iv : AesBlock)

/-- `data` goes through the payload stages of the ground station, then through `rsDecode` and
`aes128Decrypt` on the satellite, and comes out as `payload`. -/
def Delivers (data payload : List Byte) : Prop :=
  ∃ encoded : Block Byte rsEncodedSize, ∃ decoded : Block Byte rsDecodedSize, ∃ result plain,
    encodePayload ctrXcryptBuffer (initRs .null) key iv data = .ok encoded.cells ∧
    rsDecode decoder (initRs .null) (some encoded) (some decodedData) rsDecodedSize =
      .ok (.success, some decoded) ∧
    aes128Decrypt (initializeAesCtx ctx (some key)).2 (some ⟨iv, decoded.cells, rsDecodedSize⟩)
      (some output) rsDecodedSize = .ok result ∧
    result.err = .success ∧ result.output = some plain ∧ plain.cells = payload

variable {ctrXcryptBuffer decoder}

/-- The bytes behind the data are those of the key stream. -/
theorem delivers_keyStream (hcipher : SameCipher ctrXcryptBuffer)
    (hdecoder : DecodesCodewords decoder) {data : List Byte} (h : data.length ≤ rsDecodedSize) :
    Delivers ctrXcryptBuffer decoder ctx decodedData output key iv data
      (data ++ (ctrKeyStream key iv rsDecodedSize).drop data.length) := by
  have hencrypted : ctrXcryptBuffer key iv data =
      (process (ctrByte (keyExpansion key)) (.start iv) data).1 := by
    rw [hcipher, aesCtrXcryptBuffer_eq]
  have hlength : (ctrXcryptBuffer key iv data).length = data.length := by
    rw [hencrypted, length_process]
  obtain ⟨message, hcells, hencode⟩ := fecEncode_eq (show (ctrXcryptBuffer key iv data).length ≤
    rsDecodedDataSize by rwa [hlength])
  obtain ⟨result, plain, hdecrypt, herr, houtput, hplain⟩ :=
    aes128Decrypt_eq ctx key iv message output
  have hmessage := hdecoder message _ (isCodeword_iff.mpr rfl)
  refine ⟨codeword message, message, result, plain, ?_, rsDecode_eq hmessage _, hdecrypt, herr,
    houtput, ?_⟩
  · have hroom : ¬ data.length > rsDecodedDataSize := Nat.not_lt.mpr h
    rw [encodePayload, if_neg hroom, hencode]
  · have hsum : data.length + (rsDecodedDataSize - data.length) = rsDecodedSize :=
      Nat.add_sub_cancel' h
    rw [hplain, hcells, hlength, hencrypted, process_processed_zeros, hsum]
    rfl

/-- At most one payload comes out. -/
theorem Delivers.unique {data payload payload' : List Byte}
    (h : Delivers ctrXcryptBuffer decoder ctx decodedData output key iv data payload)
    (h' : Delivers ctrXcryptBuffer decoder ctx decodedData output key iv data payload') :
    payload = payload' := by
  obtain ⟨encoded, decoded, result, plain, hencode, hdecode, hdecrypt, -, houtput, hplain⟩ := h
  obtain ⟨encoded', decoded', result', plain', hencode', hdecode', hdecrypt', -, houtput', hplain'⟩ :=
    h'
  have hsame : encoded = encoded' := by
    ext1
    rw [hencode] at hencode'
    exact Except.ok.inj hencode'
  subst hsame
  rw [hdecode, Except.ok.injEq, Prod.mk.injEq, Option.some.injEq] at hdecode'
  obtain ⟨-, rfl⟩ := hdecode'
  rw [hdecrypt, Except.ok.injEq] at hdecrypt'
  subst hdecrypt'
  rw [houtput, Option.some.injEq] at houtput'
  rw [← hplain, ← hplain', houtput']

theorem append_drop_eq_iff (data : List Byte) {stream : List Byte} {n : ℕ}
    (hstream : stream.length = n) :
    data ++ stream.drop data.length = data ++ List.replicate (n - data.length) 0 ↔
      ∀ i, data.length ≤ i → i < n → stream[i]? = some 0 := by
  rw [List.append_right_inj, List.eq_replicate_iff, List.length_drop, hstream]
  constructor
  · rintro ⟨-, hzero⟩ i hge hlt
    rw [List.getElem?_eq_getElem (by omega), Option.some.injEq]
    refine hzero _ (List.mem_iff_getElem?.mpr ⟨i - data.length, ?_⟩)
    rw [List.getElem?_drop, Nat.add_sub_cancel' hge, List.getElem?_eq_getElem]
  · intro hzero
    refine ⟨rfl, fun b hb => ?_⟩
    obtain ⟨i, hi⟩ := List.mem_iff_getElem?.mp hb
    rw [List.getElem?_drop] at hi
    have hlt : data.length + i < stream.length := (List.getElem?_eq_some_iff.mp hi).1
    rw [hzero _ (Nat.le_add_right _ _) (by omega), Option.some.injEq] at hi
    exact hi.symm

/-- **Uplink payloads.** The data come out with zeros behind them exactly when the key stream
is zero from their end on, as it is for data of 223 bytes. -/
theorem uplinkPayload_padded (hcipher : SameCipher ctrXcryptBuffer)
    (hdecoder : DecodesCodewords decoder) {data : List Byte} (h : data.length ≤ rsDecodedSize) :
    Delivers ctrXcryptBuffer decoder ctx decodedData output key iv data
        (data ++ List.replicate (rsDecodedSize - data.length) 0) ↔
      ∀ i, data.length ≤ i → i < rsDecodedSize →
        (ctrKeyStream key iv rsDecodedSize)[i]? = some 0 := by
  have hdelivers := delivers_keyStream ctx decodedData output key iv hcipher hdecoder h
  rw [← append_drop_eq_iff data (length_ctrKeyStream key iv rsDecodedSize)]
  constructor
  · exact hdelivers.unique ctx decodedData output key iv
  · intro hpayload
    rwa [← hpayload]

end Uplink

/-! ## The default key -/

/-- The default AES key of `CommsPipeline`. -/
def defaultAesKey : AesBlock := AesBlock.ofBytes [0, 1, 2, 3, 4, 5, 6, 7, 8, 9, 10, 11, 12, 13, 14, 15]

/-- The default AES IV. -/
def defaultAesIv : AesBlock := AesBlock.ofBytes (List.replicate 16 1)

/-- The message part of a word, which is all there is to decode without damage. -/
def messagePart : RsDecoder := fun _ word =>
  some ⟨word.cells.take rsDecodedSize, by
    rw [List.length_take, word.length_cells]
    rfl⟩

theorem messagePart_decodesCodewords : DecodesCodewords messagePart := by
  intro message word hword
  rw [isCodeword_iff.mp hword, messagePart, Option.some.injEq]
  ext1
  exact take_codeword message

/-- The vendored cipher in the place of `tinyaes`. -/
def vendoredCipher (key iv : AesBlock) (data : List Byte) : List Byte :=
  (aesCtrXcryptBuffer ⟨keyExpansion key, iv⟩ data).1

theorem uplinkPayload_padded_command :
    Delivers vendoredCipher messagePart AesCtx.initial (Block.fill _ 0) (Block.fill _ 0)
        defaultAesKey defaultAesIv [1] ([1] ++ List.replicate (rsDecodedSize - 1) 0) ↔
      ∀ i, 1 ≤ i → i < rsDecodedSize →
        (ctrKeyStream defaultAesKey defaultAesIv rsDecodedSize)[i]? = some 0 :=
  uplinkPayload_padded AesCtx.initial (Block.fill _ 0) (Block.fill _ 0) defaultAesKey defaultAesIv
    (fun _ _ _ => rfl) messagePart_decodesCodewords (by decide)

theorem ctrKeyStream_default : (ctrKeyStream defaultAesKey defaultAesIv 2)[1]? ≠ some 0 := by
  decide +kernel

/-- With the default key, a command of one byte is not followed by a zero. -/
theorem uplinkPayload_padded_fails :
    ¬ ∀ ctrXcryptBuffer decoder ctx decodedData output key iv (data : List Byte),
      SameCipher ctrXcryptBuffer → DecodesCodewords decoder → data.length ≤ rsDecodedSize →
      Delivers ctrXcryptBuffer decoder ctx decodedData output key iv data
        (data ++ List.replicate (rsDecodedSize - data.length) 0) := by
  intro h
  have hcipher : SameCipher vendoredCipher := fun _ _ _ => rfl
  have hlength : ([1] : List Byte).length ≤ rsDecodedSize := by decide
  have hpadded := h vendoredCipher messagePart AesCtx.initial (Block.fill _ 0) (Block.fill _ 0)
    defaultAesKey defaultAesIv [1] hcipher messagePart_decodesCodewords hlength
  have hstream := delivers_keyStream AesCtx.initial (Block.fill _ 0) (Block.fill _ 0) defaultAesKey
    defaultAesIv hcipher messagePart_decodesCodewords hlength
  have hzero := (append_drop_eq_iff [1] (length_ctrKeyStream _ _ _)).mp
    (hstream.unique _ _ _ _ _ hpadded) 1 (by decide) (by decide)
  rw [← List.getElem?_take_of_lt (show 1 < 2 by decide), ctrKeyStream,
    take_keyStream _ _ (by decide)] at hzero
  exact ctrKeyStream_default hzero

end ObcGsInterface
