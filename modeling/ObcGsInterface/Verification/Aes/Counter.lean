import ObcGsInterface.Verification.Aes.Chaining
import ObcGsInterface.Verification.Pipeline.Payload

/-! # Counter mode

The key stream of `AES_CTR_xcrypt_buffer` is the encrypted counter, and the counter is a number of
128 bits that wraps. A call begins with a new block of the key stream, so a text may be divided
into calls only behind whole blocks. -/

namespace ObcGsInterface

open CArray StreamCipher

/-! ## The counter -/

/-- The number that the bytes stand for, the most significant byte first. -/
def counterValue : List Byte → ℕ
  | [] => 0
  | b :: bytes => b.toNat * 256 ^ bytes.length + counterValue bytes

theorem counterValue_lt (bytes : List Byte) : counterValue bytes < 256 ^ bytes.length := by
  induction bytes with
  | nil => exact Nat.one_pos
  | cons b bytes ih =>
      have hb : b.toNat + 1 ≤ 256 := b.isLt
      calc counterValue (b :: bytes) < b.toNat * 256 ^ bytes.length + 256 ^ bytes.length :=
            Nat.add_lt_add_left ih _
        _ = (b.toNat + 1) * 256 ^ bytes.length := (Nat.succ_mul _ _).symm
        _ ≤ 256 * 256 ^ bytes.length := Nat.mul_le_mul_right _ hb
        _ = 256 ^ (b :: bytes).length := (Nat.pow_succ').symm

theorem counterValue_inj {xs ys : List Byte} (hlength : xs.length = ys.length)
    (h : counterValue xs = counterValue ys) : xs = ys := by
  induction xs generalizing ys with
  | nil => exact (List.length_eq_zero_iff.mp hlength.symm).symm
  | cons x xs ih =>
      cases ys with
      | nil => contradiction
      | cons y ys =>
          have hlength := Nat.succ.inj hlength
          have hx := counterValue_lt xs
          have hy := counterValue_lt ys
          rw [counterValue, counterValue, hlength] at h
          rw [hlength] at hx
          have hpos : 0 < 256 ^ ys.length := Nat.pow_pos (by decide)
          have hquotient := congrArg (· / 256 ^ ys.length) h
          have hremainder := congrArg (· % 256 ^ ys.length) h
          simp only [Nat.mul_comm _ (256 ^ ys.length), Nat.mul_add_div hpos, Nat.div_eq_of_lt hx,
            Nat.div_eq_of_lt hy, Nat.mul_add_mod, Nat.mod_eq_of_lt hx, Nat.mod_eq_of_lt hy,
            Nat.add_zero] at hquotient hremainder
          rw [BitVec.eq_of_toNat_eq hquotient, ih hlength hremainder]

/-- The carry stands for the number of all bytes together. -/
theorem incrementBytes_spec (bytes : List Byte) :
    (incrementBytes bytes).1.length = bytes.length ∧
      counterValue (incrementBytes bytes).1 +
        (if (incrementBytes bytes).2 then 256 ^ bytes.length else 0) = counterValue bytes + 1 := by
  induction bytes with
  | nil => exact ⟨rfl, rfl⟩
  | cons b bytes ih =>
      obtain ⟨hlength, hvalue⟩ := ih
      rw [incrementBytes]
      generalize incrementBytes bytes = rest at hlength hvalue
      obtain ⟨rest, carry⟩ := rest
      cases carry with
      | false =>
          simp only [Bool.false_eq_true, if_false, Nat.add_zero] at hlength hvalue ⊢
          exact ⟨congrArg Nat.succ hlength, by
            rw [counterValue, counterValue, hlength, hvalue, Nat.add_assoc]⟩
      | true =>
          simp only [if_true] at hlength hvalue ⊢
          split
          · next hfull =>
              refine ⟨congrArg Nat.succ hlength, ?_⟩
              have hb : b.toNat = 255 := by rw [hfull]; rfl
              have hzero : (0 : Byte).toNat = 0 := rfl
              rw [counterValue, counterValue, hb, hzero, List.length_cons, Nat.pow_succ']
              simp only [if_true]
              omega
          · next hfull =>
              refine ⟨congrArg Nat.succ hlength, ?_⟩
              have hb : b.toNat ≠ 255 := fun heq => hfull (BitVec.eq_of_toNat_eq heq)
              have hlt := b.isLt
              have hnext : (b + 1).toNat = b.toNat + 1 := by
                rw [BitVec.toNat_add]
                exact Nat.mod_eq_of_lt (by change b.toNat + 1 < 256; omega)
              rw [counterValue, counterValue, hnext, hlength, Nat.succ_mul]
              simp only [Bool.false_eq_true, if_false]
              omega

namespace AesBlock

/-- The block as a number. -/
def value (s : AesBlock) : ℕ := counterValue s.bytes

theorem pow_length_bytes (s : AesBlock) : 256 ^ s.bytes.length = 2 ^ 128 := by
  rw [length_bytes]
  norm_num

theorem value_lt (s : AesBlock) : s.value < 2 ^ 128 :=
  (counterValue_lt s.bytes).trans_eq s.pow_length_bytes

theorem value_injective : Function.Injective value := by
  intro s t h
  rw [← ofBytes_bytes s, counterValue_inj (length_bytes s) h, ofBytes_bytes]

end AesBlock

open AesBlock

theorem value_incrementIv (iv : AesBlock) : (incrementIv iv).value = (iv.value + 1) % 2 ^ 128 := by
  obtain ⟨hlength, hvalue⟩ := incrementBytes_spec iv.bytes
  have hlt := counterValue_lt (incrementBytes iv.bytes).1
  rw [hlength] at hlt
  rw [AesBlock.value, incrementIv, bytes_ofBytes hlength, AesBlock.value, ← hvalue]
  rw [pow_length_bytes] at hlt ⊢
  split
  · rw [Nat.add_mod_right, Nat.mod_eq_of_lt hlt]
  · rw [Nat.add_zero, Nat.mod_eq_of_lt hlt]

/-- The counter after `k` blocks. -/
def counterBlock (iv : AesBlock) (k : ℕ) : AesBlock := incrementIv^[k] iv

theorem counterBlock_succ (iv : AesBlock) (k : ℕ) :
    counterBlock iv (k + 1) = incrementIv (counterBlock iv k) :=
  Function.iterate_succ_apply' incrementIv k iv

theorem counterBlock_add (iv : AesBlock) (j k : ℕ) :
    counterBlock (counterBlock iv j) k = counterBlock iv (j + k) := by
  rw [counterBlock, counterBlock, counterBlock, Nat.add_comm, Function.iterate_add_apply]

theorem value_counterBlock (iv : AesBlock) (k : ℕ) :
    (counterBlock iv k).value = (iv.value + k) % 2 ^ 128 := by
  induction k with
  | zero => rw [Nat.add_zero, Nat.mod_eq_of_lt iv.value_lt, counterBlock, Function.iterate_zero_apply]
  | succ k ih =>
      rw [counterBlock_succ, value_incrementIv, ih, Nat.mod_add_mod, Nat.add_assoc]

/-- The counter does not come back before `2 ^ 128` blocks. -/
theorem counterBlock_eq_iff (iv : AesBlock) (j k : ℕ) :
    counterBlock iv j = counterBlock iv k ↔ j % 2 ^ 128 = k % 2 ^ 128 := by
  rw [← value_injective.eq_iff, value_counterBlock, value_counterBlock]
  constructor
  · exact Nat.ModEq.add_left_cancel' iv.value
  · exact Nat.ModEq.add_left iv.value

/-! ## The key stream -/

/-- Byte `k` of the key stream. -/
def counterByte (roundKey : List AesWord) (iv : AesBlock) (k : ℕ) : Byte :=
  (cipher (counterBlock iv (k / 16)) roundKey).bytes.getD (k % 16) 0

/-- The variables of the loop after `k` bytes. -/
def CtrState.after (roundKey : List AesWord) (iv : AesBlock) : ℕ → CtrState
  | 0 => .start iv
  | k + 1 => ⟨counterBlock iv (k / 16 + 1), cipher (counterBlock iv (k / 16)) roundKey, k % 16 + 1⟩

theorem ctrByte_after (roundKey : List AesWord) (iv : AesBlock) (k : ℕ) :
    ctrByte roundKey (.after roundKey iv k) =
      (counterByte roundKey iv k, .after roundKey iv (k + 1)) := by
  cases k with
  | zero => rfl
  | succ k =>
      rw [ctrByte, counterByte, CtrState.after, CtrState.after]
      simp only
      split
      · next hend =>
          -- The buffer is used up.
          have hblock : (k + 1) / 16 = k / 16 + 1 := by omega
          have hbyte : (k + 1) % 16 = 0 := by omega
          rw [hblock, hbyte, counterBlock_succ iv (k / 16 + 1)]
      · next hinside =>
          have hblock : (k + 1) / 16 = k / 16 := by omega
          have hbyte : (k + 1) % 16 = k % 16 + 1 := by omega
          rw [hblock, hbyte]

/-- What a call leaves in its buffer and in the context. -/
theorem aesCtrXcryptBuffer_closed (ctx : AesCtx) (buf : List Byte) :
    aesCtrXcryptBuffer ctx buf = (List.zipWith (· ^^^ ·) buf
      ((List.range buf.length).map (counterByte ctx.roundKey ctx.iv)),
        ⟨ctx.roundKey, counterBlock ctx.iv (blockRounds buf.length)⟩) := by
  have hstates := ctrByte_after ctx.roundKey ctx.iv
  have hstream := keyStream_of_states hstates 0 buf.length
  have hend := process_snd_of_states hstates 0 buf
  rw [← List.range_eq_range'] at hstream
  have hiv : ((CtrState.after ctx.roundKey ctx.iv) buf.length).iv =
      counterBlock ctx.iv (blockRounds buf.length) := by
    cases buf with
    | nil => rfl
    | cons b buf =>
        change counterBlock ctx.iv (buf.length / 16 + 1) = _
        rw [blockRounds, List.length_cons]
        congr 1
        omega
  rw [Nat.zero_add] at hend
  have hrun : aesCtrXcryptBuffer ctx buf =
      ((process (ctrByte ctx.roundKey) (.after ctx.roundKey ctx.iv 0) buf).1, ⟨ctx.roundKey,
        (process (ctrByte ctx.roundKey) (.after ctx.roundKey ctx.iv 0) buf).2.iv⟩) := by
    rw [← ctrXcrypt_eq_process]
    rfl
  rw [hrun, hend, hiv, process_eq_zipWith, hstream]

/-! ## Calls in a row -/

/-- Calls of `AES_CTR_xcrypt_buffer` on buffers one after the other, with one context. -/
def aesCtrCalls (ctx : AesCtx) : List (List Byte) → List (List Byte) × AesCtx
  | [] => ([], ctx)
  | buf :: bufs =>
      let (buf, ctx) := aesCtrXcryptBuffer ctx buf
      let (bufs, ctx) := aesCtrCalls ctx bufs
      (buf :: bufs, ctx)

/-- The blocks of the key stream that calls use up: the rest of the last block of each is lost. -/
def blocksUsed (bufs : List (List Byte)) : ℕ := (bufs.map fun buf => blockRounds buf.length).sum

theorem aesCtrCalls_append (ctx : AesCtx) (xs ys : List (List Byte)) :
    aesCtrCalls ctx (xs ++ ys) = ((aesCtrCalls ctx xs).1 ++
      (aesCtrCalls (aesCtrCalls ctx xs).2 ys).1, (aesCtrCalls (aesCtrCalls ctx xs).2 ys).2) := by
  induction xs generalizing ctx with
  | nil => rfl
  | cons x xs ih =>
      rw [List.cons_append, aesCtrCalls]
      simp only [ih]
      rfl

theorem aesCtrCalls_snd (ctx : AesCtx) (bufs : List (List Byte)) :
    (aesCtrCalls ctx bufs).2 = ⟨ctx.roundKey, counterBlock ctx.iv (blocksUsed bufs)⟩ := by
  induction bufs generalizing ctx with
  | nil => rfl
  | cons buf bufs ih =>
      rw [aesCtrCalls]
      simp only [aesCtrXcryptBuffer_closed, ih, counterBlock_add]
      rfl

theorem length_aesCtrCalls (ctx : AesCtx) (bufs : List (List Byte)) :
    (aesCtrCalls ctx bufs).1.length = bufs.length := by
  induction bufs generalizing ctx with
  | nil => rfl
  | cons buf bufs ih => exact congrArg Nat.succ (ih _)

/-- **Calls in a row.** The bytes of each call are combined with the encrypted counter, which
starts after the blocks that the calls before it have used up, and wraps at 128 bits. -/
theorem ctr_calls (ctx : AesCtx) (front back : List (List Byte)) (buf : List Byte) :
    (aesCtrCalls ctx (front ++ buf :: back)).1[front.length]? =
        some (List.zipWith (· ^^^ ·) buf ((List.range buf.length).map fun k =>
          (cipher (counterBlock ctx.iv (blocksUsed front + k / 16)) ctx.roundKey).bytes.getD (k % 16)
            0)) ∧
      (∀ k, (counterBlock ctx.iv k).value = (ctx.iv.value + k) % 2 ^ 128) ∧
      (aesCtrCalls ctx (front ++ buf :: back)).2 =
        ⟨ctx.roundKey, counterBlock ctx.iv (blocksUsed (front ++ buf :: back))⟩ := by
  refine ⟨?_, value_counterBlock ctx.iv, aesCtrCalls_snd ctx _⟩
  have hlength := length_aesCtrCalls ctx front
  rw [aesCtrCalls_append, aesCtrCalls_snd, List.getElem?_append_right hlength.le, hlength,
    Nat.sub_self, aesCtrCalls]
  simp only [aesCtrXcryptBuffer_closed, List.getElem?_cons_zero]
  congr 2
  refine List.map_congr_left fun k _ => ?_
  rw [counterByte, counterBlock_add]

/-! ## Divided texts -/

/-- Once more with the same key and counter, a text comes back. -/
theorem aesCtrXcryptBuffer_twice (ctx : AesCtx) (buf : List Byte) :
    aesCtrXcryptBuffer ctx (aesCtrXcryptBuffer ctx buf).1 =
      (buf, (aesCtrXcryptBuffer ctx buf).2) := by
  have htext : (aesCtrXcryptBuffer ctx (aesCtrXcryptBuffer ctx buf).1).1 = buf := by
    rw [aesCtrXcryptBuffer_eq, aesCtrXcryptBuffer_eq]
    exact process_process _ _ _
  have hlength : (aesCtrXcryptBuffer ctx buf).1.length = buf.length := by
    rw [aesCtrXcryptBuffer_eq, length_process]
  have hend : (aesCtrXcryptBuffer ctx (aesCtrXcryptBuffer ctx buf).1).2 =
      (aesCtrXcryptBuffer ctx buf).2 := by
    rw [aesCtrXcryptBuffer_closed, hlength, aesCtrXcryptBuffer_closed]
  exact Prod.ext htext hend

/-- **One key for many texts.** A text that is encrypted on a fresh context comes back on one that
had the key at some time and has been used since, once its IV is set. -/
theorem ctr_ivReset (ctx ctx' : AesCtx) (key iv : AesBlock) (earlier : List (List Byte))
    (buf : List Byte) :
    aesCtrXcryptBuffer (aesCtxSetIv (aesCtrCalls (aesInitCtx ctx' key) earlier).2 iv)
        (aesCtrXcryptBuffer (aesInitCtxIv ctx key iv) buf).1 =
      (buf, (aesCtrXcryptBuffer (aesInitCtxIv ctx key iv) buf).2) := by
  have hset : aesCtxSetIv (aesCtrCalls (aesInitCtx ctx' key) earlier).2 iv =
      aesInitCtxIv ctx key iv := by
    rw [aesCtrCalls_snd]
    rfl
  rw [hset]
  exact aesCtrXcryptBuffer_twice _ buf

theorem counterByte_add (roundKey : List AesWord) (iv : AesBlock) (q k : ℕ) :
    counterByte roundKey iv (16 * q + k) = counterByte roundKey (counterBlock iv q) k := by
  rw [counterByte, counterByte, counterBlock_add, Nat.mul_add_div (by decide), Nat.mul_add_mod]

/-- Behind whole blocks, the next call goes on with the key stream. -/
theorem aesCtrXcryptBuffer_append (ctx : AesCtx) {front : List Byte} (h : 16 ∣ front.length)
    (back : List Byte) :
    aesCtrXcryptBuffer ctx (front ++ back) =
      ((aesCtrXcryptBuffer ctx front).1 ++
        (aesCtrXcryptBuffer (aesCtrXcryptBuffer ctx front).2 back).1,
        (aesCtrXcryptBuffer (aesCtrXcryptBuffer ctx front).2 back).2) := by
  obtain ⟨q, hq⟩ := h
  have hrounds : blockRounds front.length = q := by
    rw [blockRounds]
    omega
  have hall : blockRounds (front ++ back).length = q + blockRounds back.length := by
    rw [blockRounds, blockRounds, List.length_append]
    omega
  have hstream : (List.range (front ++ back).length).map (counterByte ctx.roundKey ctx.iv) =
      (List.range front.length).map (counterByte ctx.roundKey ctx.iv) ++
        (List.range back.length).map (counterByte ctx.roundKey (counterBlock ctx.iv q)) := by
    rw [List.length_append, List.range_add, List.map_append, List.map_map]
    congr 1
    refine List.map_congr_left fun k _ => ?_
    rw [Function.comp_apply, hq, counterByte_add]
  simp only [aesCtrXcryptBuffer_closed, hrounds, hall, hstream, counterBlock_add]
  rw [List.zipWith_append (by rw [List.length_map, List.length_range])]

/-- Calls on whole blocks, and a last one on any rest, are one call on the whole text. -/
theorem aesCtrCalls_flatten (ctx : AesCtx) {bufs : List (List Byte)}
    (h : ∀ buf ∈ bufs.dropLast, 16 ∣ buf.length) :
    aesCtrXcryptBuffer ctx bufs.flatten =
      ((aesCtrCalls ctx bufs).1.flatten, (aesCtrCalls ctx bufs).2) := by
  induction bufs generalizing ctx with
  | nil => rw [aesCtrXcryptBuffer_closed]; rfl
  | cons buf bufs ih =>
      rw [aesCtrCalls]
      simp only [List.flatten_cons]
      cases bufs with
      | nil =>
          rw [List.flatten_nil, List.append_nil, aesCtrCalls]
          simp
      | cons next bufs =>
          rw [List.dropLast_cons_cons] at h
          obtain ⟨hfirst, hrest⟩ := List.forall_mem_cons.mp h
          rw [aesCtrXcryptBuffer_append ctx hfirst, ih _ hrest]

/-- **Divided texts.** A text that is encrypted in calls, all but the last on whole blocks, comes
back when it is processed in such calls again, divided in the same way or in another, and both
contexts end with the same counter. -/
theorem ctr_roundTrip (ctx : AesCtx) {bufs pieces : List (List Byte)}
    (hbufs : ∀ buf ∈ bufs.dropLast, 16 ∣ buf.length)
    (hpieces : ∀ buf ∈ pieces.dropLast, 16 ∣ buf.length)
    (hsame : pieces.flatten = (aesCtrCalls ctx bufs).1.flatten) :
    (aesCtrCalls ctx pieces).1.flatten = bufs.flatten ∧
      (aesCtrCalls ctx pieces).2 = (aesCtrCalls ctx bufs).2 := by
  have hforward := aesCtrCalls_flatten ctx hbufs
  have hback := aesCtrCalls_flatten ctx hpieces
  have htwice := aesCtrXcryptBuffer_twice ctx bufs.flatten
  rw [hforward, ← hsame, hback, Prod.mk.injEq] at htwice
  exact htwice

theorem ctr_roundTrip_once :
    let bufs : List (List Byte) := [List.replicate 16 0, [1, 2, 3]]
    let ctx := AesCtx.initial
    (aesCtrCalls ctx [(aesCtrCalls ctx bufs).1.flatten]).1.flatten = bufs.flatten ∧
      (aesCtrCalls ctx [(aesCtrCalls ctx bufs).1.flatten]).2 = (aesCtrCalls ctx bufs).2 :=
  ctr_roundTrip AesCtx.initial (by decide) (by simp) (by simp)

end ObcGsInterface
