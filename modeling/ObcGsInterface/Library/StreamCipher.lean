import Mathlib.Data.List.Basic
import Mathlib.Data.BitVec
import Mathlib.Tactic.Common

/-! # Stream ciphers

A generator gives one key word after the other, and a text is processed by exclusive or
with the key stream. Processing twice gives the text back only as far as the first pass
went: what is put behind the processed text comes out as key stream. -/

namespace StreamCipher

variable {σ : Type*} {w : ℕ}

/-- The next `n` words of the key stream. -/
def keyStream (next : σ → BitVec w × σ) (s : σ) : ℕ → List (BitVec w)
  | 0 => []
  | n + 1 => (next s).1 :: keyStream next (next s).2 n

/-- A text combined with the key stream, and the generator after it. -/
def process (next : σ → BitVec w × σ) (s : σ) : List (BitVec w) → List (BitVec w) × σ
  | [] => ([], s)
  | x :: xs => ((x ^^^ (next s).1) :: (process next (next s).2 xs).1, (process next (next s).2 xs).2)

variable (next : σ → BitVec w × σ)

@[simp] theorem length_keyStream (s : σ) (n : ℕ) : (keyStream next s n).length = n := by
  induction n generalizing s with
  | zero => rfl
  | succ n ih => rw [keyStream, List.length_cons, ih]

/-- A shorter key stream begins a longer one. -/
theorem take_keyStream (s : σ) {m n : ℕ} (h : m ≤ n) :
    (keyStream next s n).take m = keyStream next s m := by
  induction m generalizing s n with
  | zero => rfl
  | succ m ih =>
      obtain ⟨n, rfl⟩ : ∃ k, n = k + 1 := ⟨n - 1, by omega⟩
      rw [keyStream, keyStream, List.take_succ_cons, ih _ (Nat.le_of_succ_le_succ h)]

/-- The key stream of a generator whose states are known. -/
theorem keyStream_of_states {next : σ → BitVec w × σ} {state : ℕ → σ} {word : ℕ → BitVec w}
    (h : ∀ k, next (state k) = (word k, state (k + 1))) (i n : ℕ) :
    keyStream next (state i) n = (List.range' i n).map word := by
  induction n generalizing i with
  | zero => rfl
  | succ n ih => rw [keyStream, h, ih, List.range'_succ, List.map_cons]

theorem process_snd_of_states {next : σ → BitVec w × σ} {state : ℕ → σ} {word : ℕ → BitVec w}
    (h : ∀ k, next (state k) = (word k, state (k + 1))) (i : ℕ) (xs : List (BitVec w)) :
    (process next (state i) xs).2 = state (i + xs.length) := by
  induction xs generalizing i with
  | nil => rfl
  | cons x xs ih =>
      rw [process, h, ih, List.length_cons]
      congr 1
      omega

theorem process_eq_zipWith (s : σ) (xs : List (BitVec w)) :
    (process next s xs).1 = List.zipWith (· ^^^ ·) xs (keyStream next s xs.length) := by
  induction xs generalizing s with
  | nil => rfl
  | cons x xs ih => rw [process, ih, List.length_cons, keyStream, List.zipWith_cons_cons]

@[simp] theorem length_process (s : σ) (xs : List (BitVec w)) :
    (process next s xs).1.length = xs.length := by
  rw [process_eq_zipWith, List.length_zipWith, length_keyStream, Nat.min_self]

theorem zipWith_xor_cancel {xs ks : List (BitVec w)} (h : xs.length = ks.length) :
    List.zipWith (· ^^^ ·) (List.zipWith (· ^^^ ·) xs ks) ks = xs := by
  induction xs generalizing ks with
  | nil => rfl
  | cons x xs ih =>
      cases ks with
      | nil => contradiction
      | cons k ks =>
          rw [List.zipWith_cons_cons, List.zipWith_cons_cons, ih (Nat.succ.inj h), BitVec.xor_assoc,
            BitVec.xor_self, BitVec.xor_zero]

/-- Processing twice gives the text back. -/
theorem process_process (s : σ) (xs : List (BitVec w)) :
    (process next s (process next s xs).1).1 = xs := by
  rw [process_eq_zipWith, length_process, process_eq_zipWith,
    zipWith_xor_cancel (length_keyStream next s xs.length).symm]

theorem zipWith_zeros_xor {ks : List (BitVec w)} {n : ℕ} (h : ks.length = n) :
    List.zipWith (· ^^^ ·) (List.replicate n 0) ks = ks := by
  subst h
  induction ks with
  | nil => rfl
  | cons k ks ih =>
      rw [List.length_cons, List.replicate_succ, List.zipWith_cons_cons, ih]
      congr 1
      exact BitVec.zero_xor

/-- A processed text with zeros behind it, processed again: the text, and key stream in the
place of the zeros. -/
theorem process_processed_zeros (s : σ) (xs : List (BitVec w)) (pad : ℕ) :
    (process next s ((process next s xs).1 ++ List.replicate pad 0)).1 =
      xs ++ (keyStream next s (xs.length + pad)).drop xs.length := by
  have hlength : ((process next s xs).1 ++ List.replicate pad 0).length = xs.length + pad := by
    rw [List.length_append, length_process, List.length_replicate]
  have hback : ((keyStream next s (xs.length + pad)).drop xs.length).length = pad := by
    rw [List.length_drop, length_keyStream, Nat.add_sub_cancel_left]
  have hfront : (keyStream next s (xs.length + pad)).take xs.length =
      keyStream next s xs.length := take_keyStream next s (Nat.le_add_right _ _)
  rw [process_eq_zipWith, hlength]
  conv_lhs => rw [← List.take_append_drop xs.length (keyStream next s (xs.length + pad))]
  rw [hfront, List.zipWith_append (by rw [length_process, length_keyStream]), process_eq_zipWith,
    zipWith_xor_cancel (length_keyStream next s xs.length).symm, zipWith_zeros_xor hback]

end StreamCipher
