import ObcGsInterface.Model.Errors

/-! # AES in counter mode

The vendored `tiny_aes` as far as counter mode uses it, and `obc_gs_aes128.c`. The bytes of
a block are its columns one after the other, as the cast to `state_t` has them. -/

namespace ObcGsInterface

open CArray

/-! ## Blocks -/

/-- A column of the state, or a word of the key schedule. -/
structure AesWord where
  b0 : Byte
  b1 : Byte
  b2 : Byte
  b3 : Byte
  deriving DecidableEq, Repr

namespace AesWord

def xor (a b : AesWord) : AesWord := ⟨a.b0 ^^^ b.b0, a.b1 ^^^ b.b1, a.b2 ^^^ b.b2, a.b3 ^^^ b.b3⟩

def map (f : Byte → Byte) (w : AesWord) : AesWord := ⟨f w.b0, f w.b1, f w.b2, f w.b3⟩

def bytes (w : AesWord) : List Byte := [w.b0, w.b1, w.b2, w.b3]

end AesWord

/-- `AES_BLOCKLEN` bytes. -/
structure AesBlock where
  w0 : AesWord
  w1 : AesWord
  w2 : AesWord
  w3 : AesWord
  deriving DecidableEq, Repr

namespace AesBlock

def map (f : AesWord → AesWord) (s : AesBlock) : AesBlock := ⟨f s.w0, f s.w1, f s.w2, f s.w3⟩

def bytes (s : AesBlock) : List Byte := s.w0.bytes ++ s.w1.bytes ++ s.w2.bytes ++ s.w3.bytes

/-- The block with the given bytes. -/
def ofBytes (bytes : List Byte) : AesBlock :=
  let word (i : ℕ) : AesWord :=
    ⟨bytes.getD i 0, bytes.getD (i + 1) 0, bytes.getD (i + 2) 0, bytes.getD (i + 3) 0⟩
  ⟨word 0, word 4, word 8, word 12⟩

def zero : AesBlock := ofBytes []

end AesBlock

/-! ## The key schedule -/

/-- `Nk`. -/
def aesNk : ℕ := 4

/-- `Nr`. -/
def aesNr : ℕ := 10

def sbox : List Byte :=
  [0x63, 0x7c, 0x77, 0x7b, 0xf2, 0x6b, 0x6f, 0xc5, 0x30, 0x01, 0x67, 0x2b, 0xfe, 0xd7, 0xab, 0x76,
   0xca, 0x82, 0xc9, 0x7d, 0xfa, 0x59, 0x47, 0xf0, 0xad, 0xd4, 0xa2, 0xaf, 0x9c, 0xa4, 0x72, 0xc0,
   0xb7, 0xfd, 0x93, 0x26, 0x36, 0x3f, 0xf7, 0xcc, 0x34, 0xa5, 0xe5, 0xf1, 0x71, 0xd8, 0x31, 0x15,
   0x04, 0xc7, 0x23, 0xc3, 0x18, 0x96, 0x05, 0x9a, 0x07, 0x12, 0x80, 0xe2, 0xeb, 0x27, 0xb2, 0x75,
   0x09, 0x83, 0x2c, 0x1a, 0x1b, 0x6e, 0x5a, 0xa0, 0x52, 0x3b, 0xd6, 0xb3, 0x29, 0xe3, 0x2f, 0x84,
   0x53, 0xd1, 0x00, 0xed, 0x20, 0xfc, 0xb1, 0x5b, 0x6a, 0xcb, 0xbe, 0x39, 0x4a, 0x4c, 0x58, 0xcf,
   0xd0, 0xef, 0xaa, 0xfb, 0x43, 0x4d, 0x33, 0x85, 0x45, 0xf9, 0x02, 0x7f, 0x50, 0x3c, 0x9f, 0xa8,
   0x51, 0xa3, 0x40, 0x8f, 0x92, 0x9d, 0x38, 0xf5, 0xbc, 0xb6, 0xda, 0x21, 0x10, 0xff, 0xf3, 0xd2,
   0xcd, 0x0c, 0x13, 0xec, 0x5f, 0x97, 0x44, 0x17, 0xc4, 0xa7, 0x7e, 0x3d, 0x64, 0x5d, 0x19, 0x73,
   0x60, 0x81, 0x4f, 0xdc, 0x22, 0x2a, 0x90, 0x88, 0x46, 0xee, 0xb8, 0x14, 0xde, 0x5e, 0x0b, 0xdb,
   0xe0, 0x32, 0x3a, 0x0a, 0x49, 0x06, 0x24, 0x5c, 0xc2, 0xd3, 0xac, 0x62, 0x91, 0x95, 0xe4, 0x79,
   0xe7, 0xc8, 0x37, 0x6d, 0x8d, 0xd5, 0x4e, 0xa9, 0x6c, 0x56, 0xf4, 0xea, 0x65, 0x7a, 0xae, 0x08,
   0xba, 0x78, 0x25, 0x2e, 0x1c, 0xa6, 0xb4, 0xc6, 0xe8, 0xdd, 0x74, 0x1f, 0x4b, 0xbd, 0x8b, 0x8a,
   0x70, 0x3e, 0xb5, 0x66, 0x48, 0x03, 0xf6, 0x0e, 0x61, 0x35, 0x57, 0xb9, 0x86, 0xc1, 0x1d, 0x9e,
   0xe1, 0xf8, 0x98, 0x11, 0x69, 0xd9, 0x8e, 0x94, 0x9b, 0x1e, 0x87, 0xe9, 0xce, 0x55, 0x28, 0xdf,
   0x8c, 0xa1, 0x89, 0x0d, 0xbf, 0xe6, 0x42, 0x68, 0x41, 0x99, 0x2d, 0x0f, 0xb0, 0x54, 0xbb, 0x16]

/-- `Rcon`. -/
def rcon : List Byte := [0x8d, 0x01, 0x02, 0x04, 0x08, 0x10, 0x20, 0x40, 0x80, 0x1b, 0x36]

/-- `getSBoxValue`. -/
def getSBoxValue (num : Byte) : Byte := sbox.getD num.toNat 0

/-- Word `i` of the key schedule, from the words before it. -/
def nextRoundKeyWord (roundKey : List AesWord) (i : ℕ) : AesWord :=
  let word (k : ℕ) : AesWord := roundKey.getD k ⟨0, 0, 0, 0⟩
  let tempa := word (i - 1)
  let tempa :=
    if i % aesNk = 0 then
      let tempa : AesWord := ⟨tempa.b1, tempa.b2, tempa.b3, tempa.b0⟩
      let tempa := tempa.map getSBoxValue
      { tempa with b0 := tempa.b0 ^^^ rcon.getD (i / aesNk) 0 }
    else tempa
  (word (i - aesNk)).xor tempa

/-- `KeyExpansion`: the words of the round keys. -/
def keyExpansion (key : AesBlock) : List AesWord :=
  (List.range' aesNk (4 * (aesNr + 1) - aesNk)).foldl
    (fun roundKey i => roundKey ++ [nextRoundKeyWord roundKey i]) [key.w0, key.w1, key.w2, key.w3]

/-! ## The cipher -/

/-- `AddRoundKey`. -/
def addRoundKey (round : ℕ) (state : AesBlock) (roundKey : List AesWord) : AesBlock :=
  let word (i : ℕ) : AesWord := roundKey.getD (round * 4 + i) ⟨0, 0, 0, 0⟩
  ⟨state.w0.xor (word 0), state.w1.xor (word 1), state.w2.xor (word 2), state.w3.xor (word 3)⟩

/-- `SubBytes`. -/
def subBytes (state : AesBlock) : AesBlock := state.map (AesWord.map getSBoxValue)

/-- `ShiftRows`. -/
def shiftRows (state : AesBlock) : AesBlock where
  w0 := ⟨state.w0.b0, state.w1.b1, state.w2.b2, state.w3.b3⟩
  w1 := ⟨state.w1.b0, state.w2.b1, state.w3.b2, state.w0.b3⟩
  w2 := ⟨state.w2.b0, state.w3.b1, state.w0.b2, state.w1.b3⟩
  w3 := ⟨state.w3.b0, state.w0.b1, state.w1.b2, state.w2.b3⟩

/-- `xtime`. -/
def xtime (x : Byte) : Byte := (x <<< 1) ^^^ (((x >>> 7) &&& 1) * 0x1b)

/-- The body of the loop of `MixColumns`; `t` is the first byte before it changes. -/
def mixColumn (column : AesWord) : AesWord :=
  let t := column.b0
  let tmp := column.b0 ^^^ column.b1 ^^^ column.b2 ^^^ column.b3
  { b0 := column.b0 ^^^ (xtime (column.b0 ^^^ column.b1) ^^^ tmp)
    b1 := column.b1 ^^^ (xtime (column.b1 ^^^ column.b2) ^^^ tmp)
    b2 := column.b2 ^^^ (xtime (column.b2 ^^^ column.b3) ^^^ tmp)
    b3 := column.b3 ^^^ (xtime (column.b3 ^^^ t) ^^^ tmp) }

/-- `MixColumns`. -/
def mixColumns (state : AesBlock) : AesBlock := state.map mixColumn

/-- `Cipher`. Its last round leaves out `MixColumns`. -/
def cipher (state : AesBlock) (roundKey : List AesWord) : AesBlock :=
  let state := (List.range' 1 (aesNr - 1)).foldl
    (fun state round => addRoundKey round (mixColumns (shiftRows (subBytes state))) roundKey)
    (addRoundKey 0 state roundKey)
  addRoundKey aesNr (shiftRows (subBytes state)) roundKey

/-! ## Contexts -/

/-- `struct AES_ctx`. -/
structure AesCtx where
  roundKey : List AesWord
  iv : AesBlock
  deriving DecidableEq, Repr

/-- `AES_init_ctx`. -/
def aesInitCtx (ctx : AesCtx) (key : AesBlock) : AesCtx := { ctx with roundKey := keyExpansion key }

/-- `AES_init_ctx_iv`. -/
def aesInitCtxIv (_ctx : AesCtx) (key iv : AesBlock) : AesCtx := ⟨keyExpansion key, iv⟩

/-- `AES_ctx_set_iv`. -/
def aesCtxSetIv (ctx : AesCtx) (iv : AesBlock) : AesCtx := { ctx with iv }

/-! ## Counter mode -/

/-- The loop that increments the IV: from the last byte to the first, with a carry. -/
def incrementBytes : List Byte → List Byte × Bool
  | [] => ([], true)
  | b :: bytes =>
      match incrementBytes bytes with
      | (bytes, false) => (b :: bytes, false)
      | (bytes, true) => if b = 255 then (0 :: bytes, true) else ((b + 1) :: bytes, false)

def incrementIv (iv : AesBlock) : AesBlock := AesBlock.ofBytes (incrementBytes iv.bytes).1

/-- The variables of the loop of `AES_CTR_xcrypt_buffer`. -/
structure CtrState where
  iv : AesBlock
  buffer : AesBlock
  bi : ℕ
  deriving DecidableEq, Repr

/-- One round of the loop up to the exclusive or: the byte of the key stream. -/
def ctrByte (roundKey : List AesWord) (s : CtrState) : Byte × CtrState :=
  let s := if s.bi = 16 then ⟨incrementIv s.iv, cipher s.iv roundKey, 0⟩ else s
  (s.buffer.bytes.getD s.bi 0, { s with bi := s.bi + 1 })

/-- The loop of `AES_CTR_xcrypt_buffer`. -/
def ctrXcrypt (roundKey : List AesWord) (s : CtrState) : List Byte → List Byte × CtrState
  | [] => ([], s)
  | b :: buf =>
      let (k, s) := ctrByte roundKey s
      let (buf, s) := ctrXcrypt roundKey s buf
      ((b ^^^ k) :: buf, s)

/-- `AES_CTR_xcrypt_buffer`. The local buffer is filled before it is read. -/
def aesCtrXcryptBuffer (ctx : AesCtx) (buf : List Byte) : List Byte × AesCtx :=
  let (buf, s) := ctrXcrypt ctx.roundKey ⟨ctx.iv, AesBlock.zero, 16⟩ buf
  (buf, { ctx with iv := s.iv })

/-! ## `obc_gs_aes128.c` -/

/-- `aes_data_t`. -/
structure AesData where
  iv : AesBlock
  ciphertext : List Byte
  ciphertextLen : ℕ
  deriving DecidableEq, Repr

/-- The static context at start-up. -/
def AesCtx.initial : AesCtx := ⟨List.replicate 44 ⟨0, 0, 0, 0⟩, AesBlock.zero⟩

/-- `initializeAesCtx`. -/
def initializeAesCtx (ctx : AesCtx) (key : Option AesBlock) : ErrorCode × AesCtx :=
  match key with
  | none => (.invalidArg, ctx)
  | some key => (.success, aesInitCtx ctx key)

/-- What `aes128Decrypt` returns and leaves in its output and in the static context. -/
structure AesResult (n : ℕ) where
  err : ErrorCode
  output : Option (Block Byte n)
  ctx : AesCtx
  deriving DecidableEq, Repr

/-- `aes128Decrypt`. -/
def aes128Decrypt {n : ℕ} (ctx : AesCtx) (aesData : Option AesData) (output : Option (Block Byte n))
    (outputBufferLen : ℕ) : Except Fault (AesResult n) :=
  match aesData, output with
  | none, _ => .ok ⟨.invalidArg, output, ctx⟩
  | some _, none => .ok ⟨.invalidArg, output, ctx⟩
  | some aesData, some data => do
      if outputBufferLen ≠ aesData.ciphertextLen then
        return ⟨.invalidArg, output, ctx⟩
      let data ← data.memcpy 0 aesData.ciphertext aesData.ciphertextLen
      let (plain, ctx) := aesCtrXcryptBuffer (aesCtxSetIv ctx aesData.iv)
        (data.cells.take aesData.ciphertextLen)
      let data ← data.memcpy 0 plain aesData.ciphertextLen
      return ⟨.success, some data, ctx⟩

end ObcGsInterface
