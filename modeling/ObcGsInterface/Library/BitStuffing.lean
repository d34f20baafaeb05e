import Mathlib.Algebra.GroupWithZero.Nat
import Mathlib.Data.List.Basic
import Mathlib.Data.List.DropRight
import Mathlib.Tactic.Common

/-! # Bit stuffing

A stuffer puts a zero bit after every run of `limit` one bits, and a destuffer drops the
bit after every such run. Both are transducers: a step reads one bit, moves to a new state
and writes some bits. -/

/-! ## Transducers -/

namespace Transducer

variable {σ α β : Type*} (step : σ → α → σ × List β)

/-- The state after reading a list. -/
def final (s : σ) : List α → σ
  | [] => s
  | a :: as => final (step s a).1 as

/-- What is written while reading a list. -/
def output (s : σ) : List α → List β
  | [] => []
  | a :: as => (step s a).2 ++ output (step s a).1 as

@[simp] theorem final_nil (s : σ) : final step s [] = s := rfl

@[simp] theorem output_nil (s : σ) : output step s [] = [] := rfl

theorem final_append (s : σ) (xs ys : List α) :
    final step s (xs ++ ys) = final step (final step s xs) ys := by
  induction xs generalizing s with
  | nil => rfl
  | cons x xs ih => exact ih (step s x).1

theorem output_append (s : σ) (xs ys : List α) :
    output step s (xs ++ ys) = output step s xs ++ output step (final step s xs) ys := by
  induction xs generalizing s with
  | nil => rfl
  | cons x xs ih => rw [List.cons_append, output, ih, final, output, List.append_assoc]

theorem output_append_singleton (s : σ) (xs : List α) (a : α) :
    output step s (xs ++ [a]) = output step s xs ++ (step (final step s xs) a).2 := by
  rw [output_append]
  simp [output]

/-- What has been written stays: reading on only adds to it. -/
theorem output_append_isPrefix (s : σ) (xs ys : List α) :
    output step s xs <+: output step s (xs ++ ys) :=
  ⟨_, (output_append step s xs ys).symm⟩

theorem output_take_isPrefix (s : σ) (xs : List α) (n : ℕ) :
    output step s (xs.take n) <+: output step s xs := by
  conv_rhs => rw [← List.take_append_drop n xs]
  exact output_append_isPrefix step s _ _

end Transducer

namespace BitStuffing

open Transducer

variable (limit : ℕ)

/-! ## The two transducers -/

/-- The state of the stuffer is the length of the current run of ones. -/
def stuffStep (run : ℕ) (bit : Bool) : ℕ × List Bool :=
  if bit then
    if run + 1 = limit then (0, [true, false]) else (run + 1, [true])
  else (0, [false])

/-- A destuffer counts a run of ones, or is about to drop a bit. -/
inductive DestuffState where
  | counting (run : ℕ)
  | dropping
  deriving DecidableEq, Repr

def destuffStep (s : DestuffState) (bit : Bool) : DestuffState × List Bool :=
  match s with
  | .dropping => (.counting 0, [])
  | .counting run =>
      if bit then
        if run + 1 = limit then (.dropping, [true]) else (.counting (run + 1), [true])
      else (.counting 0, [false])

/-- The stuffed form of a bit string. -/
def stuff (bs : List Bool) : List Bool := output (stuffStep limit) 0 bs

/-- The bits left when the stuffed bits are dropped. -/
def destuff (bs : List Bool) : List Bool := output (destuffStep limit) (.counting 0) bs

variable {limit}

/-! ## Round trip -/

theorem final_stuffStep_lt {run : ℕ} (h : run < limit) (bs : List Bool) :
    final (stuffStep limit) run bs < limit := by
  induction bs generalizing run with
  | nil => exact h
  | cons b bs ih =>
      apply ih
      cases b with
      | false =>
          simp only [stuffStep]
          exact Nat.zero_lt_of_lt h
      | true =>
          by_cases hfull : run + 1 = limit
          · simp only [stuffStep, hfull, if_true]
            exact Nat.zero_lt_of_lt h
          · simp only [stuffStep, hfull, if_true, if_false]
            omega

/-- A destuffer that counts the same run as the stuffer follows it bit by bit. -/
theorem destuff_output_stuff {run : ℕ} (h : run < limit) (bs rest : List Bool) :
    output (destuffStep limit) (.counting run) (output (stuffStep limit) run bs ++ rest) =
      bs ++ output (destuffStep limit) (.counting (final (stuffStep limit) run bs)) rest := by
  induction bs generalizing run with
  | nil => rfl
  | cons b bs ih =>
      have hzero : 0 < limit := Nat.zero_lt_of_lt h
      cases b with
      | false => simp [output, final, stuffStep, destuffStep, ih hzero]
      | true =>
          by_cases hfull : run + 1 = limit
          · simp [output, final, stuffStep, destuffStep, hfull, ih hzero]
          · have hrun : run + 1 < limit := by omega
            simp [output, final, stuffStep, destuffStep, hfull, ih hrun]

theorem output_destuffStep_zeros (run n : ℕ) :
    output (destuffStep limit) (.counting run) (List.replicate n false) =
      List.replicate n false := by
  induction n generalizing run with
  | zero => rfl
  | succ n ih => simp [List.replicate_succ, output, destuffStep, ih]

/-- **Round trip.** Destuffing gives the bits back, and the zeros that pad them. -/
theorem destuff_stuff (h : 0 < limit) (bs : List Bool) (n : ℕ) :
    destuff limit (stuff limit bs ++ List.replicate n false) = bs ++ List.replicate n false := by
  rw [destuff, stuff, destuff_output_stuff h, output_destuffStep_zeros]

/-! ## Zeros at the end -/

/-- The number of zeros at the end of a bit string. -/
def trailingZeros (bs : List Bool) : ℕ := (bs.rtakeWhile (!·)).length

/-- A bit string is one that does not end in a zero, and its trailing zeros. -/
theorem exists_trailingZeros (bs : List Bool) :
    ∃ front, front.getLast? ≠ some false ∧
      bs = front ++ List.replicate (trailingZeros bs) false := by
  have hzeros : bs.rtakeWhile (!·) = List.replicate (trailingZeros bs) false :=
    List.eq_replicate_iff.mpr ⟨rfl, fun b hb => by simpa using List.mem_rtakeWhile_imp hb⟩
  refine ⟨bs.rdropWhile (!·), fun hlast => ?_, ?_⟩
  · have hne : bs.rdropWhile (!·) ≠ [] := by
      intro hnil
      simp [hnil] at hlast
    rw [List.getLast?_eq_some_getLast hne, Option.some.injEq] at hlast
    exact absurd (List.rdropWhile_last_not _ _ hne) (by simp [hlast])
  · rw [← hzeros, List.rdropWhile_append_rtakeWhile]

theorem trailingZeros_append {front : List Bool} (h : front.getLast? ≠ some false) (n : ℕ) :
    trailingZeros (front ++ List.replicate n false) = n := by
  induction n with
  | zero =>
      rw [List.replicate_zero, List.append_nil, trailingZeros, List.length_eq_zero_iff,
        List.rtakeWhile_eq_nil_iff]
      intro hne hlast
      apply h
      rw [List.getLast?_eq_some_getLast hne]
      simpa using hlast
  | succ n ih =>
      rw [List.replicate_succ', ← List.append_assoc, trailingZeros,
        List.rtakeWhile_concat_pos _ _ _ rfl, List.length_append, List.length_singleton]
      exact congrArg (· + 1) ih

theorem output_stuffStep_zeros (run n : ℕ) :
    output (stuffStep limit) run (List.replicate n false) = List.replicate n false := by
  induction n generalizing run with
  | zero => rfl
  | succ n ih => simp [List.replicate_succ, output, stuffStep, ih]

/-- The zeros at the end of a stuffed bit string are those of the bit string, and `inserted`
one before them where the last one bit completes a run. However many zeros follow the last
one bit, the destuffer takes away that one and nothing else. -/
theorem stuff_trailingZeros (h : 0 < limit) {front : List Bool}
    (hfront : front.getLast? ≠ some false) (n : ℕ) :
    ∃ core inserted, core.getLast? ≠ some false ∧ inserted ≤ 1 ∧
      stuff limit (front ++ List.replicate n false) =
        core ++ List.replicate (inserted + n) false ∧
      ∀ k, destuff limit (core ++ List.replicate k false) =
        front ++ List.replicate (k - inserted) false := by
  rcases List.eq_nil_or_concat' front with rfl | ⟨xs, b, rfl⟩
  · refine ⟨[], 0, by simp, Nat.zero_le 1, ?_, fun k => ?_⟩
    · rw [stuff, List.nil_append, output_stuffStep_zeros, Nat.zero_add, List.nil_append]
    · exact output_destuffStep_zeros 0 k
  obtain rfl : b = true := by simpa using hfront
  have hrun := final_stuffStep_lt h xs
  by_cases hfull : final (stuffStep limit) 0 xs + 1 = limit
  · refine ⟨output (stuffStep limit) 0 xs ++ [true], 1, by simp, le_rfl, ?_, fun k => ?_⟩
    · rw [stuff, output_append, output_append, output_stuffStep_zeros, Nat.add_comm,
        List.replicate_succ]
      simp [output, stuffStep, hfull]
    · rw [destuff, List.append_assoc, destuff_output_stuff h, List.append_assoc]
      -- The zero that comes next is dropped as the one the stuffer inserted.
      cases k with
      | zero => simp [output, destuffStep, hfull]
      | succ k => simp [List.replicate_succ, output, destuffStep, hfull, output_destuffStep_zeros]
  · refine ⟨output (stuffStep limit) 0 xs ++ [true], 0, by simp, Nat.zero_le 1, ?_, fun k => ?_⟩
    · rw [stuff, output_append, output_append, output_stuffStep_zeros, Nat.zero_add]
      simp [output, stuffStep, hfull]
    · rw [destuff, List.append_assoc, destuff_output_stuff h, List.append_assoc]
      simp [output, destuffStep, hfull, output_destuffStep_zeros]

/-! ## Length -/

/-- Every inserted bit is paid for by `limit` ones. -/
theorem length_output_stuffStep_count {run : ℕ} (bs : List Bool) :
    limit * (output (stuffStep limit) run bs).length + final (stuffStep limit) run bs ≤
      limit * bs.length + bs.count true + run := by
  induction bs generalizing run with
  | nil => simp
  | cons b bs ih =>
      cases b with
      | false =>
          have := @ih 0
          simp only [output, final, stuffStep, Bool.false_eq_true, if_false, List.singleton_append,
            List.length_cons, Nat.mul_succ, List.count_cons_of_ne Bool.false_ne_true]
          omega
      | true =>
          by_cases hfull : run + 1 = limit
          · have := @ih 0
            simp only [output, final, stuffStep, hfull, if_true, List.cons_append, List.nil_append,
              List.length_cons, Nat.mul_succ, List.count_cons_self]
            omega
          · have := @ih (run + 1)
            simp only [output, final, stuffStep, hfull, if_true, if_false, List.singleton_append,
              List.length_cons, Nat.mul_succ, List.count_cons_self]
            omega

theorem length_output_stuffStep {run : ℕ} (bs : List Bool) :
    limit * (output (stuffStep limit) run bs).length + final (stuffStep limit) run bs ≤
      (limit + 1) * bs.length + run := by
  have hcount : bs.count true ≤ bs.length := List.count_le_length
  have hlength := @length_output_stuffStep_count limit run bs
  rw [Nat.succ_mul]
  omega

theorem length_stuff_le (bs : List Bool) :
    limit * (stuff limit bs).length ≤ (limit + 1) * bs.length :=
  Nat.le_trans (Nat.le_add_right _ _) (length_output_stuffStep bs)

/-- The number of bits that are inserted: one for every `limit` ones of a run. -/
def insertions (limit : ℕ) (bs : List Bool) : ℕ :=
  ((bs.splitOn false).map (·.length / limit)).sum

/-- The length of what is written from a state inside a run, which joins the first run of the
bits to come. -/
theorem length_output_stuffStep_eq {run : ℕ} (h : run < limit) {bs first : List Bool}
    {rest : List (List Bool)} (hsplit : bs.splitOn false = first :: rest) :
    (output (stuffStep limit) run bs).length =
      bs.length + (run + first.length) / limit + (rest.map (·.length / limit)).sum := by
  induction bs generalizing run first rest with
  | nil =>
      rw [List.splitOn_nil, List.cons.injEq] at hsplit
      obtain ⟨rfl, rfl⟩ := hsplit
      simp [Nat.div_eq_of_lt h]
  | cons b bs ih =>
      obtain ⟨next, others, hnext⟩ := List.exists_cons_of_ne_nil (List.splitOn_ne_nil false bs)
      rw [List.splitOn_cons_eq_if_modifyHead, hnext] at hsplit
      have hzero : 0 < limit := Nat.zero_lt_of_lt h
      cases b with
      | false =>
          obtain ⟨rfl, rfl⟩ : [] = first ∧ next :: others = rest := by simpa using hsplit
          have hrest := ih hzero hnext
          rw [Nat.zero_add] at hrest
          simp only [output, stuffStep, Bool.false_eq_true, if_false, List.singleton_append,
            List.length_cons, List.length_nil, Nat.add_zero, Nat.div_eq_of_lt h, List.map_cons,
            List.sum_cons]
          omega
      | true =>
          obtain ⟨rfl, rfl⟩ : true :: next = first ∧ others = rest := by simpa using hsplit
          by_cases hfull : run + 1 = limit
          · have hrest := ih hzero hnext
            have hdiv : (run + (next.length + 1)) / limit = next.length / limit + 1 := by
              rw [← Nat.add_div_right _ hzero]
              congr 1
              omega
            rw [Nat.zero_add] at hrest
            simp only [output, stuffStep, hfull, if_true, List.cons_append, List.nil_append,
              List.length_cons, hdiv]
            omega
          · have hrest := ih (show run + 1 < limit by omega) hnext
            have hsum : run + (next.length + 1) = run + 1 + next.length := by omega
            simp only [output, stuffStep, hfull, if_true, if_false, List.singleton_append,
              List.length_cons, hsum]
            omega

/-- The stuffed form is longer by the inserted bits. -/
theorem length_stuff (h : 0 < limit) (bs : List Bool) :
    (stuff limit bs).length = bs.length + insertions limit bs := by
  obtain ⟨first, rest, hsplit⟩ := List.exists_cons_of_ne_nil (List.splitOn_ne_nil false bs)
  rw [stuff, length_output_stuffStep_eq h hsplit, insertions, hsplit, List.map_cons, List.sum_cons,
    Nat.zero_add, Nat.add_assoc]

-- Runs of four, eleven and five ones.
example : insertions 5 (List.replicate 4 true ++ false :: List.replicate 11 true ++
    [false, true, true, true, true, true]) = 0 + 2 + 1 := by decide

theorem length_stuffStep_pos (limit run : ℕ) (b : Bool) : 0 < (stuffStep limit run b).2.length := by
  unfold stuffStep
  split_ifs <;> simp

theorem length_stuffStep_le (limit run : ℕ) (b : Bool) : (stuffStep limit run b).2.length ≤ 2 := by
  unfold stuffStep
  split_ifs <;> simp

theorem length_le_length_output {run : ℕ} (bs : List Bool) :
    bs.length ≤ (output (stuffStep limit) run bs).length := by
  induction bs generalizing run with
  | nil => simp
  | cons b bs ih =>
      have hstep := length_stuffStep_pos limit run b
      have := @ih (stuffStep limit run b).1
      rw [output, List.length_append, List.length_cons]
      omega

theorem length_output_destuffStep_le (s : DestuffState) (bs : List Bool) :
    (output (destuffStep limit) s bs).length ≤ bs.length := by
  induction bs generalizing s with
  | nil => exact Nat.le_refl _
  | cons b bs ih =>
      have hstep : (destuffStep limit s b).2.length ≤ 1 := by
        cases s with
        | dropping => exact Nat.zero_le _
        | counting run =>
            simp only [destuffStep]
            split_ifs <;> exact Nat.le_refl _
      have hrest := ih (destuffStep limit s b).1
      rw [output, List.length_append, List.length_cons]
      omega

theorem length_destuff_le (bs : List Bool) : (destuff limit bs).length ≤ bs.length :=
  length_output_destuffStep_le _ bs

/-! ## Bit strings that stay as they are -/

theorem output_eq_of_length_le {run : ℕ} {bs : List Bool}
    (h : (output (stuffStep limit) run bs).length ≤ bs.length) :
    output (stuffStep limit) run bs = bs := by
  induction bs generalizing run with
  | nil => rfl
  | cons b bs ih =>
      cases b with
      | false =>
          simp only [output, stuffStep, Bool.false_eq_true, if_false, List.singleton_append,
            List.length_cons, Nat.succ_le_succ_iff] at h ⊢
          rw [ih h]
      | true =>
          by_cases hfull : run + 1 = limit
          · have hle := @length_le_length_output limit 0 bs
            simp only [output, stuffStep, hfull, if_true, List.cons_append, List.nil_append,
              List.length_cons] at h
            omega
          · simp only [output, stuffStep, hfull, if_true, if_false, List.singleton_append,
              List.length_cons, Nat.succ_le_succ_iff] at h ⊢
            rw [ih h]

theorem not_prefix_of_run {run : ℕ} (h : run < limit) (bs : List Bool) :
    ¬ List.replicate limit true <+: List.replicate run true ++ false :: bs := by
  rintro ⟨rest, hrest⟩
  have hbit := congrArg (·[run]?) hrest
  simp [List.getElem?_append_left, h] at hbit

/-- A run that is too short and the zero behind it are part of no full run. -/
theorem replicate_infix_iff {run : ℕ} (h : run < limit) (bs : List Bool) :
    List.replicate limit true <:+: List.replicate run true ++ false :: bs ↔
      List.replicate limit true <:+: bs := by
  induction run with
  | zero =>
      rw [List.replicate_zero, List.nil_append, List.infix_cons_iff]
      exact or_iff_right (not_prefix_of_run h bs)
  | succ run ih =>
      have hshort := not_prefix_of_run h bs
      rw [List.replicate_succ, List.cons_append] at hshort ⊢
      rw [List.infix_cons_iff, or_iff_right hshort]
      exact ih (Nat.lt_of_succ_lt h)

/-- Nothing is inserted exactly when there is no full run. -/
theorem output_stuffStep_eq_iff {run : ℕ} (h : run < limit) (bs : List Bool) :
    output (stuffStep limit) run bs = bs ↔
      ¬ List.replicate limit true <:+: List.replicate run true ++ bs := by
  induction bs generalizing run with
  | nil =>
      refine iff_of_true rfl fun hinfix => ?_
      have hlength := hinfix.length_le
      simp only [List.length_append, List.length_replicate, List.length_nil] at hlength
      omega
  | cons b bs ih =>
      have hzero : 0 < limit := Nat.zero_lt_of_lt h
      cases b with
      | false =>
          rw [replicate_infix_iff h]
          simpa [output, stuffStep] using ih hzero
      | true =>
          have hruns : List.replicate run true ++ true :: bs =
              List.replicate (run + 1) true ++ bs := by
            rw [List.replicate_succ', List.append_assoc, List.singleton_append]
          by_cases hfull : run + 1 = limit
          · have hgrows : output (stuffStep limit) run (true :: bs) ≠ true :: bs := by
              intro hsame
              have hlength := congrArg List.length hsame
              have hle := @length_le_length_output limit 0 bs
              simp only [output, stuffStep, hfull, if_true, List.cons_append, List.nil_append,
                List.length_cons] at hlength
              omega
            rw [hruns, hfull]
            exact iff_of_false hgrows (not_not.mpr (List.prefix_append _ _).isInfix)
          · rw [hruns, ← ih (by omega)]
            simp [output, stuffStep, hfull]

theorem stuff_eq_self_iff (h : 0 < limit) (bs : List Bool) :
    stuff limit bs = bs ↔ ¬ List.replicate limit true <:+: bs :=
  output_stuffStep_eq_iff h bs

/-! ## Flags -/

/-- The stuffer never writes more than `limit` ones in a row. -/
theorem not_infix_output_stuffStep {run : ℕ} (h : run < limit) (bs : List Bool) :
    ¬ List.replicate (limit + 1) true <:+:
      List.replicate run true ++ output (stuffStep limit) run bs := by
  induction bs generalizing run with
  | nil =>
      intro hinfix
      have hlength := hinfix.length_le
      simp only [output_nil, List.length_append, List.length_replicate, List.length_nil] at hlength
      omega
  | cons b bs ih =>
      have hzero : 0 < limit := Nat.zero_lt_of_lt h
      cases b with
      | false =>
          have hout : output (stuffStep limit) run (false :: bs) =
              false :: output (stuffStep limit) 0 bs := rfl
          rw [hout, replicate_infix_iff (Nat.lt_succ_of_lt h)]
          exact ih hzero
      | true =>
          by_cases hfull : run + 1 = limit
          · have hout : List.replicate run true ++ output (stuffStep limit) run (true :: bs) =
                List.replicate limit true ++ false :: output (stuffStep limit) 0 bs := by
              rw [← hfull, List.replicate_succ', List.append_assoc]
              simp [output, stuffStep, hfull]
            rw [hout, replicate_infix_iff (Nat.lt_succ_self limit)]
            exact ih hzero
          · have hout : List.replicate run true ++ output (stuffStep limit) run (true :: bs) =
                List.replicate (run + 1) true ++ output (stuffStep limit) (run + 1) bs := by
              rw [List.replicate_succ', List.append_assoc]
              simp [output, stuffStep, hfull]
            rw [hout]
            exact ih (by omega)

/-- Zeros behind a stuffed bit string do not change that. -/
theorem not_infix_stuff_append_zeros (h : 0 < limit) (bs : List Bool) (n : ℕ) :
    ¬ List.replicate (limit + 1) true <:+: stuff limit bs ++ List.replicate n false := by
  have hpadded : stuff limit bs ++ List.replicate n false =
      stuff limit (bs ++ List.replicate n false) := by
    rw [stuff, stuff, output_append, output_stuffStep_zeros]
  rw [hpadded]
  exact not_infix_output_stuffStep h _

/-- A flag of `ones` one bits between two zeros. -/
def flagBits (ones : ℕ) : List Bool := false :: (List.replicate ones true ++ [false])

@[simp] theorem length_flagBits (ones : ℕ) : (flagBits ones).length = ones + 2 := by
  simp [flagBits]

theorem getElem?_flagBits (ones : ℕ) {i : ℕ} (h : i < ones + 2) :
    (flagBits ones)[i]? = some (decide (0 < i ∧ i ≤ ones)) := by
  cases i with
  | zero => rfl
  | succ i =>
      rw [flagBits, List.getElem?_cons_succ]
      rcases Nat.lt_or_ge i ones with hlt | hge
      · rw [List.getElem?_append_left (by simpa using hlt), List.getElem?_replicate_of_lt hlt]
        simp
        omega
      · obtain rfl : i = ones := by omega
        rw [List.getElem?_append_right (by simp)]
        simp

/-- Between two flags, content without that many ones in a row lets no further flag appear,
at whatever place it would start. -/
theorem flagBits_prefix_drop_iff {ones : ℕ} {content : List Bool}
    (h : ¬ List.replicate ones true <:+: content) (i : ℕ) :
    flagBits ones <+: (flagBits ones ++ (content ++ flagBits ones)).drop i ↔
      i = 0 ∨ i = ones + 2 + content.length := by
  set stream := flagBits ones ++ (content ++ flagBits ones) with hstream
  have hlength : stream.length = 2 * (ones + 2) + content.length := by
    simp [hstream]
    omega
  constructor
  · rintro ⟨rest, hrest⟩
    have hflag (j : ℕ) (hj : j < ones + 2) :
        stream[i + j]? = some (decide (0 < j ∧ j ≤ ones)) := by
      rw [← List.getElem?_drop, ← hrest, List.getElem?_append_left (by simpa using hj),
        getElem?_flagBits ones hj]
    have hones (j : ℕ) (hpos : 0 < j) (hj : j ≤ ones) : stream[i + j]? = some true := by
      rw [hflag j (by omega)]
      simp [hpos, hj]
    have hroom : i + (ones + 1) < stream.length :=
      (List.getElem?_eq_some_iff.mp (hflag (ones + 1) (by omega))).1
    -- the zeros that the ones of a flag in another place would have to cover
    have hopening : stream[ones + 1]? = some false := by
      rw [hstream, List.getElem?_append_left (by simp), getElem?_flagBits ones (by omega)]
      simp
    have hclosing : stream[ones + 2 + content.length]? = some false := by
      rw [hstream, List.getElem?_append_right (by simp), length_flagBits,
        Nat.add_sub_cancel_left, List.getElem?_append_right (Nat.le_refl _), Nat.sub_self,
        getElem?_flagBits ones (by omega)]
      simp
    rcases Nat.eq_zero_or_pos i with hzero | hpos
    · exact Or.inl hzero
    · rcases Nat.lt_or_ge ones i with hafter | hbefore
      · rcases Nat.lt_or_ge (content.length + 1) i with hlate | hinside
        · rcases Nat.lt_or_ge i (ones + 2 + content.length) with hshort | hend
          · have hcover := hones (ones + 2 + content.length - i) (by omega) (by omega)
            rw [Nat.add_sub_cancel' (by omega), hclosing] at hcover
            contradiction
          · right
            omega
        · have hrun : (content.drop (i - (ones + 1))).take ones = List.replicate ones true := by
            rw [List.eq_replicate_iff, List.length_take, List.length_drop]
            refine ⟨by omega, ?_⟩
            intro b hb
            rcases List.getElem?_of_mem hb with ⟨j, hj⟩
            rw [List.getElem?_take] at hj
            split_ifs at hj with hlt
            have hone := hones (j + 1) (Nat.succ_pos j) hlt
            rw [hstream, List.getElem?_append_right (by rw [length_flagBits]; omega),
              length_flagBits, List.getElem?_append_left (by omega)] at hone
            rw [List.getElem?_drop, show i - (ones + 1) + j = i + (j + 1) - (ones + 2) by omega,
              hone, Option.some.injEq] at hj
            exact hj.symm
          exact absurd (hrun ▸ (List.take_prefix _ _).isInfix.trans (List.drop_suffix _ _).isInfix) h
      · have hcover := hones (ones + 1 - i) (by omega) (by omega)
        rw [Nat.add_sub_cancel' (by omega), hopening] at hcover
        contradiction
  · intro hi
    rcases hi with rfl | rfl
    · exact List.prefix_append _ _
    · rw [hstream, ← List.append_assoc, List.drop_append_of_le_length (by simp),
        List.drop_eq_nil_of_le (by simp)]
      exact List.prefix_rfl

end BitStuffing
