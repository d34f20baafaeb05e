import ObcGsInterface.Library.Memory
import Mathlib.Data.List.Basic

/-! # Streams of records

Records stand one after another, each as long as its first element says, and an element that
is no record's ends them. What a reader makes of a record does not depend on what follows it. -/

namespace RecordStream

open CArray

/-! ## Reading within a buffer -/

section Within

universe u

variable {α β γ : Type u}

/-- More data behind the buffer changes no read that succeeds. -/
def ReadsWithin (read : List α → Except Fault β) : Prop :=
  ∀ buffer back result, read buffer = .ok result → read (buffer ++ back) = .ok result

theorem readsWithin_load (i : ℕ) : ReadsWithin fun buffer : List α => load buffer i := by
  intro buffer back result h
  have hsome := load_eq_ok.mp h
  rcases List.getElem?_eq_some_iff.mp hsome with ⟨hlt, -⟩
  exact load_eq_ok.mpr (by rw [List.getElem?_append_left hlt, hsome])

theorem readsWithin_const (result : Except Fault β) : ReadsWithin fun _ : List α => result :=
  fun _ _ _ h => h

theorem ReadsWithin.bind {read : List α → Except Fault β} {next : List α → β → Except Fault γ}
    (hread : ReadsWithin read) (hnext : ∀ b, ReadsWithin fun buffer => next buffer b) :
    ReadsWithin fun buffer => read buffer >>= next buffer := by
  intro buffer back result h
  rcases bind_eq_ok.mp h with ⟨b, hb, hresult⟩
  exact bind_eq_ok.mpr ⟨b, hread buffer back b hb, hnext b buffer back result hresult⟩

end Within

/-! ## Where a stream ends -/

variable {α : Type} {stop : α} {size : α → Option ℕ}

/-- Behind whole records there is the terminator or an element that starts no record. -/
inductive Ended (stop : α) (size : α → Option ℕ) : List α → Prop where
  | terminator (back : List α) : Ended stop size (stop :: back)
  | unsupported (head : α) (back : List α) (unknown : size head = none) :
      Ended stop size (head :: back)
  | record (head : α) (tail : List α) {back : List α}
      (known : size head = some (head :: tail).length) (rest : Ended stop size back) :
      Ended stop size (head :: tail ++ back)

theorem not_ended_nil : ¬ Ended stop size [] := by
  intro h
  cases h

/-- A record of known size must be whole, and the stream behind it must end. -/
theorem ended_iff_of_size {head : α} (tail : List α) {n : ℕ} (hstop : head ≠ stop)
    (hsize : size head = some n) (hpos : 0 < n) :
    Ended stop size (head :: tail) ↔
      n ≤ (head :: tail).length ∧ Ended stop size ((head :: tail).drop n) := by
  constructor
  · intro h
    generalize hinput : head :: tail = input at h
    cases h with
    | terminator back => exact absurd (List.cons.inj hinput).1 hstop
    | unsupported head' back unknown =>
        rw [← (List.cons.inj hinput).1, hsize] at unknown
        contradiction
    | record head' tail' known rest =>
        rcases List.cons.inj hinput with ⟨rfl, -⟩
        rw [hsize, Option.some.injEq] at known
        rw [known]
        exact ⟨by simp, by rwa [List.drop_left]⟩
  · rintro ⟨hle, hrest⟩
    obtain ⟨m, rfl⟩ : ∃ m, n = m + 1 := Nat.exists_eq_succ_of_ne_zero (Nat.ne_of_gt hpos)
    have hlength : (head :: tail.take m).length = m + 1 := by
      rw [List.length_cons, List.length_take, Nat.min_eq_left (Nat.le_of_succ_le_succ hle)]
    have hrecord := Ended.record head (tail.take m) (by rw [hlength, hsize]) hrest
    rwa [List.cons_append, List.drop_succ_cons, List.take_append_drop] at hrecord

end RecordStream
