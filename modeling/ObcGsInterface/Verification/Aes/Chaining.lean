import ObcGsInterface.Library.Transducer
import ObcGsInterface.Verification.Aes.Cipher

/-! # Chained blocks

`AES_CBC_encrypt_buffer` and `AES_CBC_decrypt_buffer` run machines over the blocks of a buffer.
The second undoes the first, also when the calls divide the text in other ways. -/

namespace ObcGsInterface

open CArray Transducer

/-! ## Blocks in buffers -/

namespace AesBlock

theorem length_bytes (s : AesBlock) : s.bytes.length = 16 := rfl

theorem ofBytes_bytes (s : AesBlock) : ofBytes s.bytes = s := rfl

theorem bytes_ofBytes {bytes : List Byte} (h : bytes.length = 16) : (ofBytes bytes).bytes = bytes := by
  refine List.ext_getElem h.symm fun i hi hi' => ?_
  have hlt : i < 16 := hi
  have hget (k : ℕ) (hk : k < bytes.length) : bytes.getD k 0 = bytes[k] :=
    List.getD_eq_getElem _ _ hk
  interval_cases i <;> exact hget _ _

end AesBlock

open AesBlock

/-- Blocks one after the other. -/
def blockBytes (blocks : List AesBlock) : List Byte := blocks.flatMap AesBlock.bytes

@[simp] theorem length_blockBytes (blocks : List AesBlock) :
    (blockBytes blocks).length = 16 * blocks.length := by
  induction blocks with
  | nil => rfl
  | cons block blocks ih =>
      rw [blockBytes, List.flatMap_cons, List.length_append, ← blockBytes, ih, length_bytes,
        List.length_cons]
      omega

theorem blockBytes_append (xs ys : List AesBlock) :
    blockBytes (xs ++ ys) = blockBytes xs ++ blockBytes ys := List.flatMap_append

/-- A buffer is divided into blocks and an incomplete one. -/
theorem exists_blocks (buf : List Byte) :
    ∃ blocks tail, buf = blockBytes blocks ++ tail ∧ tail.length = buf.length % 16 := by
  obtain ⟨n, hn⟩ : ∃ n, n = buf.length / 16 := ⟨_, rfl⟩
  induction n generalizing buf with
  | zero => exact ⟨[], buf, rfl, by omega⟩
  | succ n ih =>
      obtain ⟨blocks, tail, hsplit, htail⟩ := ih (buf.drop 16) (by rw [List.length_drop]; omega)
      have hfirst : (ofBytes (buf.take 16)).bytes = buf.take 16 :=
        bytes_ofBytes (by rw [List.length_take]; omega)
      refine ⟨ofBytes (buf.take 16) :: blocks, tail, ?_, ?_⟩
      · rw [blockBytes, List.flatMap_cons, ← blockBytes, hfirst, List.append_assoc, ← hsplit,
          List.take_append_drop]
      · rw [htail, List.length_drop]
        omega

theorem exists_wholeBlocks {buf : List Byte} (h : 16 ∣ buf.length) :
    ∃ blocks, buf = blockBytes blocks := by
  obtain ⟨blocks, tail, hsplit, htail⟩ := exists_blocks buf
  rw [Nat.mod_eq_zero_of_dvd h, List.length_eq_zero_iff] at htail
  exact ⟨blocks, by rw [hsplit, htail, List.append_nil]⟩

theorem blockBytes_injective {xs ys : List AesBlock} (h : blockBytes xs = blockBytes ys) : xs = ys := by
  induction xs generalizing ys with
  | nil =>
      have hlength := congrArg List.length h
      rw [length_blockBytes, length_blockBytes] at hlength
      exact (List.length_eq_zero_iff.mp (by simpa using hlength.symm)).symm
  | cons x xs ih =>
      cases ys with
      | nil =>
          have hlength := congrArg List.length h
          rw [length_blockBytes, length_blockBytes] at hlength
          simp at hlength
      | cons y ys =>
          rw [blockBytes, blockBytes, List.flatMap_cons, List.flatMap_cons, ← blockBytes,
            ← blockBytes] at h
          obtain ⟨hblock, hrest⟩ := List.append_inj h rfl
          rw [ih hrest, ← ofBytes_bytes x, hblock, ofBytes_bytes]

theorem loadBlock_blockBytes (front : List AesBlock) (block : AesBlock) (back : List Byte) :
    loadBlock (blockBytes front ++ (block.bytes ++ back)) (16 * front.length) = .ok block := by
  have hroom : 16 * front.length + 16 ≤ (blockBytes front ++ (block.bytes ++ back)).length := by
    rw [List.length_append, List.length_append, length_blockBytes, length_bytes]
    omega
  rw [loadBlock, if_pos hroom, List.drop_left' (length_blockBytes front),
    List.take_left' (length_bytes block), ofBytes_bytes]

theorem storeBlock_blockBytes (front : List AesBlock) (old block : AesBlock) (back : List Byte) :
    storeBlock (blockBytes front ++ (old.bytes ++ back)) (16 * front.length) block =
      .ok (blockBytes front ++ (block.bytes ++ back)) := by
  have hroom : 16 * front.length + 16 ≤ (blockBytes front ++ (old.bytes ++ back)).length := by
    rw [List.length_append, List.length_append, length_blockBytes, length_bytes]
    omega
  rw [storeBlock, memcpy_of_le _ _ (Nat.le_refl 16) hroom,
    List.take_of_length_le (Nat.le_refl 16), ← length_blockBytes]
  exact congrArg Except.ok (overwrite_append _ old.bytes back block.bytes rfl)

/-- An incomplete block is not loaded. -/
theorem loadBlock_outOfBounds (front : List AesBlock) {tail : List Byte} (h : tail.length < 16) :
    loadBlock (blockBytes front ++ tail) (16 * front.length) = .error .outOfBounds := by
  rw [loadBlock, if_neg]
  rw [List.length_append, length_blockBytes]
  omega

/-! ## Single blocks -/

/-- **`ECB`.** In any buffer with room for a block, encryption and decryption undo each other, and
the bytes behind the block stay as they are. -/
theorem ecb_roundTrip (ctx : AesCtx) {buf : List Byte} (h : 16 ≤ buf.length) :
    (∃ encrypted, aesEcbEncrypt ctx buf = .ok encrypted ∧ aesEcbDecrypt ctx encrypted = .ok buf ∧
      encrypted.drop 16 = buf.drop 16) ∧
      ∃ decrypted, aesEcbDecrypt ctx buf = .ok decrypted ∧ aesEcbEncrypt ctx decrypted = .ok buf ∧
        decrypted.drop 16 = buf.drop 16 := by
  obtain ⟨block, back, rfl⟩ : ∃ (block : AesBlock) (back : List Byte), buf = block.bytes ++ back := by
    refine ⟨ofBytes (buf.take 16), buf.drop 16, ?_⟩
    rw [bytes_ofBytes (by rw [List.length_take]; omega), List.take_append_drop]
  have hload (block : AesBlock) : loadBlock (block.bytes ++ back) 0 = .ok block :=
    loadBlock_blockBytes [] block back
  have hstore (old block : AesBlock) :
      storeBlock (old.bytes ++ back) 0 block = .ok (block.bytes ++ back) :=
    storeBlock_blockBytes [] old block back
  have hencrypt (block : AesBlock) : aesEcbEncrypt ctx (block.bytes ++ back) =
      .ok ((cipher block ctx.roundKey).bytes ++ back) := by
    rw [aesEcbEncrypt, hload, ok_bind, hstore]
  have hdecrypt (block : AesBlock) : aesEcbDecrypt ctx (block.bytes ++ back) =
      .ok ((invCipher block ctx.roundKey).bytes ++ back) := by
    rw [aesEcbDecrypt, hload, ok_bind, hstore]
  refine ⟨⟨_, hencrypt block, ?_, rfl⟩, _, hdecrypt block, ?_, rfl⟩
  · rw [hdecrypt, invCipher_cipher]
  · rw [hencrypt, cipher_invCipher]

/-! ## Loops over blocks -/

section Loops

variable {σ : Type} (step : σ → AesBlock → AesBlock × σ)
  {body : List Byte × σ → ℕ → Except Fault (List Byte × σ)}

/-- A loop that replaces one block after the other runs a machine over the blocks. -/
theorem foldlM_blocks
    (hbody : ∀ s i, body s i = do
      let block ← loadBlock s.1 (16 * i)
      let buf ← storeBlock s.1 (16 * i) (step s.2 block).1
      return (buf, (step s.2 block).2)) (s : σ) (blocks : List AesBlock) (tail : List Byte) :
    (List.range blocks.length).foldlM body (blockBytes blocks ++ tail, s) =
      .ok (blockBytes (run step s blocks).1 ++ tail, (run step s blocks).2) := by
  induction blocks using List.reverseRecOn generalizing tail with
  | nil => rfl
  | append_singleton blocks block ih =>
      have hone (block : AesBlock) : blockBytes [block] = block.bytes := List.append_nil _
      have hlength : blocks.length = (run step s blocks).1.length := (length_run s blocks).symm
      rw [List.length_append, List.length_singleton, List.range_succ, List.foldlM_append,
        blockBytes_append, hone, List.append_assoc, ih, ok_bind, List.foldlM_cons, hbody]
      simp only [hlength, loadBlock_blockBytes, ok_bind, storeBlock_blockBytes, run_concat,
        blockBytes_append, hone, List.append_assoc]
      rfl

/-- The round for an incomplete block leaves the buffer. -/
theorem foldlM_blocks_outOfBounds
    (hbody : ∀ s i, body s i = do
      let block ← loadBlock s.1 (16 * i)
      let buf ← storeBlock s.1 (16 * i) (step s.2 block).1
      return (buf, (step s.2 block).2)) (s : σ) (blocks : List AesBlock) {tail : List Byte}
    (h : tail.length < 16) :
    (List.range (blocks.length + 1)).foldlM body (blockBytes blocks ++ tail, s) =
      .error .outOfBounds := by
  have hlength : blocks.length = (run step s blocks).1.length := (length_run s blocks).symm
  rw [List.range_succ, List.foldlM_append, foldlM_blocks step hbody, ok_bind, List.foldlM_cons, hbody]
  simp only [hlength, loadBlock_outOfBounds _ h]
  rfl

end Loops

/-! ## The modes -/

/-- One block of `AES_CBC_encrypt_buffer`. -/
def chainBlock (roundKey : List AesWord) (iv block : AesBlock) : AesBlock × AesBlock :=
  (cipher (xorWithIv block iv) roundKey, cipher (xorWithIv block iv) roundKey)

/-- One block of `AES_CBC_decrypt_buffer`. -/
def unchainBlock (roundKey : List AesWord) (iv block : AesBlock) : AesBlock × AesBlock :=
  (xorWithIv (invCipher block roundKey) iv, block)

theorem xorWithIv_cancel (a b : AesBlock) : xorWithIv (xorWithIv a b) b = a := by
  simp only [xorWithIv, AesWord.xor, BitVec.xor_assoc, BitVec.xor_self, BitVec.xor_zero]

theorem unchainBlock_chainBlock (roundKey : List AesWord) (iv block : AesBlock) :
    unchainBlock roundKey iv (chainBlock roundKey iv block).1 =
      (block, (chainBlock roundKey iv block).2) := by
  rw [unchainBlock, chainBlock, invCipher_cipher, xorWithIv_cancel]

theorem blockRounds_whole (blocks : List AesBlock) :
    blockRounds (blockBytes blocks).length = blocks.length := by
  rw [blockRounds, length_blockBytes]
  omega

theorem blockRounds_incomplete (blocks : List AesBlock) {tail : List Byte} (hpos : 0 < tail.length)
    (h : tail.length < 16) :
    blockRounds (blockBytes blocks ++ tail).length = blocks.length + 1 := by
  rw [blockRounds, List.length_append, length_blockBytes]
  omega

theorem aesCbcEncryptBuffer_eq (ctx : AesCtx) (blocks : List AesBlock) :
    aesCbcEncryptBuffer ctx (blockBytes blocks) (blockBytes blocks).length =
      .ok (blockBytes (run (chainBlock ctx.roundKey) ctx.iv blocks).1,
        ⟨ctx.roundKey, (run (chainBlock ctx.roundKey) ctx.iv blocks).2⟩) := by
  have hloop := foldlM_blocks (chainBlock ctx.roundKey) (fun _ _ => rfl) ctx.iv blocks []
  rw [List.append_nil, List.append_nil] at hloop
  rw [aesCbcEncryptBuffer, blockRounds_whole]
  erw [hloop]
  rfl

/-- The step of the loop of `AES_CBC_decrypt_buffer`, which keeps the IV in the context. -/
def unchainCtx (ctx : AesCtx) (block : AesBlock) : AesBlock × AesCtx :=
  ((unchainBlock ctx.roundKey ctx.iv block).1, { ctx with iv := block })

theorem run_unchainCtx (ctx : AesCtx) (blocks : List AesBlock) :
    run unchainCtx ctx blocks = ((run (unchainBlock ctx.roundKey) ctx.iv blocks).1,
      ⟨ctx.roundKey, (run (unchainBlock ctx.roundKey) ctx.iv blocks).2⟩) := by
  obtain ⟨roundKey, iv⟩ := ctx
  have hstep (iv block : AesBlock) : unchainCtx ⟨roundKey, iv⟩ block =
      ((unchainBlock roundKey iv block).1, ⟨roundKey, (unchainBlock roundKey iv block).2⟩) := rfl
  exact run_hom (f := AesCtx.mk roundKey) hstep iv blocks

theorem aesCbcDecryptBuffer_eq (ctx : AesCtx) (blocks : List AesBlock) :
    aesCbcDecryptBuffer ctx (blockBytes blocks) (blockBytes blocks).length =
      .ok (blockBytes (run (unchainBlock ctx.roundKey) ctx.iv blocks).1,
        ⟨ctx.roundKey, (run (unchainBlock ctx.roundKey) ctx.iv blocks).2⟩) := by
  have hloop := foldlM_blocks unchainCtx (fun _ _ => rfl) ctx blocks []
  rw [List.append_nil, List.append_nil, run_unchainCtx] at hloop
  rw [aesCbcDecryptBuffer, blockRounds_whole]
  exact hloop

/-- **Bounds.** A call on all bytes of a buffer stays inside exactly when they are whole blocks. -/
theorem cbc_in_bounds_iff (ctx : AesCtx) (buf : List Byte) :
    ((∃ result, aesCbcEncryptBuffer ctx buf buf.length = .ok result) ↔ 16 ∣ buf.length) ∧
      ((∃ result, aesCbcDecryptBuffer ctx buf buf.length = .ok result) ↔ 16 ∣ buf.length) := by
  by_cases hwhole : 16 ∣ buf.length
  · obtain ⟨blocks, rfl⟩ := exists_wholeBlocks hwhole
    exact ⟨iff_of_true ⟨_, aesCbcEncryptBuffer_eq ctx blocks⟩ hwhole,
      iff_of_true ⟨_, aesCbcDecryptBuffer_eq ctx blocks⟩ hwhole⟩
  · obtain ⟨blocks, tail, hsplit, htail⟩ := exists_blocks buf
    have hlt : tail.length < 16 := by omega
    have hpos : 0 < tail.length := by omega
    have hencrypt : aesCbcEncryptBuffer ctx buf buf.length = .error .outOfBounds := by
      have hloop := foldlM_blocks_outOfBounds (chainBlock ctx.roundKey) (fun _ _ => rfl)
        ctx.iv blocks hlt
      rw [hsplit, aesCbcEncryptBuffer, blockRounds_incomplete blocks hpos hlt]
      erw [hloop]
      rfl
    have hdecrypt : aesCbcDecryptBuffer ctx buf buf.length = .error .outOfBounds := by
      have hloop := foldlM_blocks_outOfBounds unchainCtx (fun _ _ => rfl) ctx blocks hlt
      rw [hsplit, aesCbcDecryptBuffer, blockRounds_incomplete blocks hpos hlt]
      exact hloop
    refine ⟨iff_of_false ?_ hwhole, iff_of_false ?_ hwhole⟩
    · rintro ⟨result, hresult⟩
      rw [hencrypt] at hresult
      contradiction
    · rintro ⟨result, hresult⟩
      rw [hdecrypt] at hresult
      contradiction

/-! ## Calls in a row -/

/-- Calls on buffers one after the other, with one context. -/
def aesCalls (call : AesCtx → List Byte → ℕ → Except Fault (List Byte × AesCtx)) :
    AesCtx → List (List Byte) → Except Fault (List (List Byte) × AesCtx)
  | ctx, [] => return ([], ctx)
  | ctx, buf :: bufs => do
      let (buf, ctx) ← call ctx buf buf.length
      let (bufs, ctx) ← aesCalls call ctx bufs
      return (buf :: bufs, ctx)

theorem exists_wholePieces {bufs : List (List Byte)} (h : ∀ buf ∈ bufs, 16 ∣ buf.length) :
    ∃ pieces : List (List AesBlock), bufs = pieces.map blockBytes := by
  induction bufs with
  | nil => exact ⟨[], rfl⟩
  | cons buf bufs ih =>
      obtain ⟨hfirst, hrest⟩ := List.forall_mem_cons.mp h
      obtain ⟨blocks, rfl⟩ := exists_wholeBlocks hfirst
      obtain ⟨pieces, rfl⟩ := ih hrest
      exact ⟨blocks :: pieces, rfl⟩

theorem flatten_blockBytes (pieces : List (List AesBlock)) :
    (pieces.map blockBytes).flatten = blockBytes pieces.flatten := by
  induction pieces with
  | nil => rfl
  | cons piece pieces ih => rw [List.map_cons, List.flatten_cons, ih, ← blockBytes_append,
      List.flatten_cons]

/-- Calls on whole blocks run the machine of the mode over the pieces. -/
theorem aesCalls_eq {call : AesCtx → List Byte → ℕ → Except Fault (List Byte × AesCtx)}
    {step : List AesWord → AesBlock → AesBlock → AesBlock × AesBlock}
    (hcall : ∀ ctx blocks, call ctx (blockBytes blocks) (blockBytes blocks).length =
      .ok (blockBytes (run (step ctx.roundKey) ctx.iv blocks).1,
        ⟨ctx.roundKey, (run (step ctx.roundKey) ctx.iv blocks).2⟩))
    (ctx : AesCtx) (pieces : List (List AesBlock)) :
    aesCalls call ctx (pieces.map blockBytes) =
      .ok ((runPieces (step ctx.roundKey) ctx.iv pieces).1.map blockBytes,
        ⟨ctx.roundKey, (runPieces (step ctx.roundKey) ctx.iv pieces).2⟩) := by
  induction pieces generalizing ctx with
  | nil => rfl
  | cons piece pieces ih =>
      rw [List.map_cons, aesCalls, hcall, ok_bind]
      simp only [ih, ok_bind]
      rfl

/-- **Round trip.** A text that is encrypted in calls on whole blocks comes back from decryption
in calls on whole blocks, divided in the same way or in another, and both contexts end with the
same IV. -/
theorem cbc_roundTrip (ctx : AesCtx) {bufs : List (List Byte)}
    (hbufs : ∀ buf ∈ bufs, 16 ∣ buf.length) :
    ∃ encrypted ctx', aesCalls aesCbcEncryptBuffer ctx bufs = .ok (encrypted, ctx') ∧
      encrypted.map List.length = bufs.map List.length ∧
      ∀ pieces : List (List Byte), (∀ buf ∈ pieces, 16 ∣ buf.length) →
        pieces.flatten = encrypted.flatten →
        ∃ decrypted, aesCalls aesCbcDecryptBuffer ctx pieces = .ok (decrypted, ctx') ∧
          decrypted.flatten = bufs.flatten := by
  obtain ⟨plain, rfl⟩ := exists_wholePieces hbufs
  have hlengths (iv : AesBlock) : (runPieces (chainBlock ctx.roundKey) iv plain).1.map
      (List.length ∘ blockBytes) = plain.map (List.length ∘ blockBytes) := by
    induction plain generalizing iv with
    | nil => rfl
    | cons piece pieces ih =>
        rw [runPieces, List.map_cons, ih fun buf hbuf => hbufs buf (List.mem_cons_of_mem _ hbuf),
          List.map_cons]
        simp
  refine ⟨_, _, aesCalls_eq aesCbcEncryptBuffer_eq ctx plain, ?_, fun pieces hpieces hsame => ?_⟩
  · rw [List.map_map, List.map_map, hlengths]
  · obtain ⟨blocks, rfl⟩ := exists_wholePieces hpieces
    rw [flatten_blockBytes, flatten_blockBytes] at hsame
    have hblocks := blockBytes_injective hsame
    -- Both divisions are runs over the whole text.
    have hforward := runPieces_flatten (chainBlock ctx.roundKey) ctx.iv plain
    have hback := runPieces_flatten (unchainBlock ctx.roundKey) ctx.iv blocks
    have hrun := run_run (unchainBlock_chainBlock ctx.roundKey) ctx.iv plain.flatten
    rw [hforward] at hrun
    rw [hblocks, hrun, Prod.mk.injEq] at hback
    refine ⟨_, by rw [aesCalls_eq aesCbcDecryptBuffer_eq ctx blocks, ← hback.2], ?_⟩
    rw [flatten_blockBytes, flatten_blockBytes, ← hback.1]

theorem cbc_roundTrip_zeros :
    ∃ encrypted ctx', aesCalls aesCbcEncryptBuffer AesCtx.initial
        [List.replicate 32 0, List.replicate 16 0] = .ok (encrypted, ctx') ∧
      encrypted.map List.length =
        [List.replicate 32 (0 : Byte), List.replicate 16 0].map List.length ∧
      ∀ pieces : List (List Byte), (∀ buf ∈ pieces, 16 ∣ buf.length) →
        pieces.flatten = encrypted.flatten →
        ∃ decrypted, aesCalls aesCbcDecryptBuffer AesCtx.initial pieces = .ok (decrypted, ctx') ∧
          decrypted.flatten = [List.replicate 32 0, List.replicate 16 0].flatten :=
  cbc_roundTrip AesCtx.initial (by decide)

end ObcGsInterface
