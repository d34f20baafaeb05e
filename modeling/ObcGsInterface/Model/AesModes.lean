import ObcGsInterface.Model.Aes

/-! # The other modes of AES

The rest of the vendored `tiny_aes`: the inverse cipher, and the modes `ECB` and `CBC`. -/

namespace ObcGsInterface

open CArray

/-! ## The inverse cipher -/

def rsbox : List Byte :=
  [0x52, 0x09, 0x6a, 0xd5, 0x30, 0x36, 0xa5, 0x38, 0xbf, 0x40, 0xa3, 0x9e, 0x81, 0xf3, 0xd7, 0xfb,
   0x7c, 0xe3, 0x39, 0x82, 0x9b, 0x2f, 0xff, 0x87, 0x34, 0x8e, 0x43, 0x44, 0xc4, 0xde, 0xe9, 0xcb,
   0x54, 0x7b, 0x94, 0x32, 0xa6, 0xc2, 0x23, 0x3d, 0xee, 0x4c, 0x95, 0x0b, 0x42, 0xfa, 0xc3, 0x4e,
   0x08, 0x2e, 0xa1, 0x66, 0x28, 0xd9, 0x24, 0xb2, 0x76, 0x5b, 0xa2, 0x49, 0x6d, 0x8b, 0xd1, 0x25,
   0x72, 0xf8, 0xf6, 0x64, 0x86, 0x68, 0x98, 0x16, 0xd4, 0xa4, 0x5c, 0xcc, 0x5d, 0x65, 0xb6, 0x92,
   0x6c, 0x70, 0x48, 0x50, 0xfd, 0xed, 0xb9, 0xda, 0x5e, 0x15, 0x46, 0x57, 0xa7, 0x8d, 0x9d, 0x84,
   0x90, 0xd8, 0xab, 0x00, 0x8c, 0xbc, 0xd3, 0x0a, 0xf7, 0xe4, 0x58, 0x05, 0xb8, 0xb3, 0x45, 0x06,
   0xd0, 0x2c, 0x1e, 0x8f, 0xca, 0x3f, 0x0f, 0x02, 0xc1, 0xaf, 0xbd, 0x03, 0x01, 0x13, 0x8a, 0x6b,
   0x3a, 0x91, 0x11, 0x41, 0x4f, 0x67, 0xdc, 0xea, 0x97, 0xf2, 0xcf, 0xce, 0xf0, 0xb4, 0xe6, 0x73,
   0x96, 0xac, 0x74, 0x22, 0xe7, 0xad, 0x35, 0x85, 0xe2, 0xf9, 0x37, 0xe8, 0x1c, 0x75, 0xdf, 0x6e,
   0x47, 0xf1, 0x1a, 0x71, 0x1d, 0x29, 0xc5, 0x89, 0x6f, 0xb7, 0x62, 0x0e, 0xaa, 0x18, 0xbe, 0x1b,
   0xfc, 0x56, 0x3e, 0x4b, 0xc6, 0xd2, 0x79, 0x20, 0x9a, 0xdb, 0xc0, 0xfe, 0x78, 0xcd, 0x5a, 0xf4,
   0x1f, 0xdd, 0xa8, 0x33, 0x88, 0x07, 0xc7, 0x31, 0xb1, 0x12, 0x10, 0x59, 0x27, 0x80, 0xec, 0x5f,
   0x60, 0x51, 0x7f, 0xa9, 0x19, 0xb5, 0x4a, 0x0d, 0x2d, 0xe5, 0x7a, 0x9f, 0x93, 0xc9, 0x9c, 0xef,
   0xa0, 0xe0, 0x3b, 0x4d, 0xae, 0x2a, 0xf5, 0xb0, 0xc8, 0xeb, 0xbb, 0x3c, 0x83, 0x53, 0x99, 0x61,
   0x17, 0x2b, 0x04, 0x7e, 0xba, 0x77, 0xd6, 0x26, 0xe1, 0x69, 0x14, 0x63, 0x55, 0x21, 0x0c, 0x7d]

/-- `getSBoxInvert`. -/
def getSBoxInvert (num : Byte) : Byte := rsbox.getD num.toNat 0

/-- `Multiply`, for factors `y` of five bits. -/
def multiply (x y : Byte) : Byte :=
  ((y &&& 1#8) * x) ^^^ ((y >>> 1 &&& 1#8) * xtime x) ^^^ ((y >>> 2 &&& 1#8) * xtime (xtime x)) ^^^
    ((y >>> 3 &&& 1#8) * xtime (xtime (xtime x))) ^^^
    ((y >>> 4 &&& 1#8) * xtime (xtime (xtime (xtime x))))

/-- The body of the loop of `InvMixColumns`. -/
def invMixColumn (column : AesWord) : AesWord :=
  let a := column.b0
  let b := column.b1
  let c := column.b2
  let d := column.b3
  { b0 := multiply a 0x0e ^^^ multiply b 0x0b ^^^ multiply c 0x0d ^^^ multiply d 0x09
    b1 := multiply a 0x09 ^^^ multiply b 0x0e ^^^ multiply c 0x0b ^^^ multiply d 0x0d
    b2 := multiply a 0x0d ^^^ multiply b 0x09 ^^^ multiply c 0x0e ^^^ multiply d 0x0b
    b3 := multiply a 0x0b ^^^ multiply b 0x0d ^^^ multiply c 0x09 ^^^ multiply d 0x0e }

/-- `InvMixColumns`. -/
def invMixColumns (state : AesBlock) : AesBlock := state.map invMixColumn

/-- `InvSubBytes`. -/
def invSubBytes (state : AesBlock) : AesBlock := state.map (AesWord.map getSBoxInvert)

/-- `InvShiftRows`. -/
def invShiftRows (state : AesBlock) : AesBlock where
  w0 := ⟨state.w0.b0, state.w3.b1, state.w2.b2, state.w1.b3⟩
  w1 := ⟨state.w1.b0, state.w0.b1, state.w3.b2, state.w2.b3⟩
  w2 := ⟨state.w2.b0, state.w1.b1, state.w0.b2, state.w3.b3⟩
  w3 := ⟨state.w3.b0, state.w2.b1, state.w1.b2, state.w0.b3⟩

/-- `InvCipher`. Its last round leaves out `InvMixColumns`. -/
def invCipher (state : AesBlock) (roundKey : List AesWord) : AesBlock :=
  let state := (List.range' 1 (aesNr - 1)).reverse.foldl
    (fun state round =>
      invMixColumns (addRoundKey round (invSubBytes (invShiftRows state)) roundKey))
    (addRoundKey aesNr state roundKey)
  addRoundKey 0 (invSubBytes (invShiftRows state)) roundKey

/-! ## Buffers -/

/-- The 16 bytes from `pos` on, as the cast to `state_t` has them. -/
def loadBlock (buf : List Byte) (pos : ℕ) : Except Fault AesBlock :=
  if pos + 16 ≤ buf.length then .ok (AesBlock.ofBytes ((buf.drop pos).take 16))
  else .error .outOfBounds

/-- Write the 16 bytes from `pos` on. -/
def storeBlock (buf : List Byte) (pos : ℕ) (block : AesBlock) : Except Fault (List Byte) :=
  memcpy buf pos block.bytes 16

/-! ## `ECB` -/

/-- `AES_ECB_encrypt`. -/
def aesEcbEncrypt (ctx : AesCtx) (buf : List Byte) : Except Fault (List Byte) := do
  storeBlock buf 0 (cipher (← loadBlock buf 0) ctx.roundKey)

/-- `AES_ECB_decrypt`. -/
def aesEcbDecrypt (ctx : AesCtx) (buf : List Byte) : Except Fault (List Byte) := do
  storeBlock buf 0 (invCipher (← loadBlock buf 0) ctx.roundKey)

/-! ## `CBC` -/

/-- `XorWithIv`. -/
def xorWithIv (buf iv : AesBlock) : AesBlock :=
  ⟨buf.w0.xor iv.w0, buf.w1.xor iv.w1, buf.w2.xor iv.w2, buf.w3.xor iv.w3⟩

/-- The rounds of a loop over the blocks of a buffer: the last block may be incomplete. -/
def blockRounds (length : ℕ) : ℕ := (length + 15) / 16

/-- `AES_CBC_encrypt_buffer`. The pointer `Iv` goes to the block before, which does not change any
more. -/
def aesCbcEncryptBuffer (ctx : AesCtx) (buf : List Byte) (length : ℕ) :
    Except Fault (List Byte × AesCtx) := do
  let (buf, iv) ← (List.range (blockRounds length)).foldlM
    (fun (s : List Byte × AesBlock) i => do
      let block := cipher (xorWithIv (← loadBlock s.1 (16 * i)) s.2) ctx.roundKey
      return (← storeBlock s.1 (16 * i) block, block)) (buf, ctx.iv)
  return (buf, { ctx with iv })

/-- `AES_CBC_decrypt_buffer`. -/
def aesCbcDecryptBuffer (ctx : AesCtx) (buf : List Byte) (length : ℕ) :
    Except Fault (List Byte × AesCtx) :=
  (List.range (blockRounds length)).foldlM
    (fun (s : List Byte × AesCtx) i => do
      let storeNextIv ← loadBlock s.1 (16 * i)
      let block := xorWithIv (invCipher storeNextIv s.2.roundKey) s.2.iv
      return (← storeBlock s.1 (16 * i) block, { s.2 with iv := storeNextIv })) (buf, ctx)

end ObcGsInterface
