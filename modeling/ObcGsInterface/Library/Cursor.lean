import ObcGsInterface.Library.Memory
import Mathlib.Logic.Function.Iterate

/-! # Sequential access through a cursor

A cursor names an index of a buffer and moves on by one place at every access. The
cursor type is arbitrary, so that a machine integer that wraps around is one. -/

namespace Cursor

open CArray

universe u

variable {α ι : Type u} (index : ι → ℕ) (next : ι → ι)

/-- Store the values one after another, moving the cursor after each. -/
def putAll : List α → List α → ι → Except Fault (List α × ι)
  | [], buffer, p => .ok (buffer, p)
  | value :: values, buffer, p =>
      store buffer (index p) value >>= fun buffer => putAll values buffer (next p)

/-- The `n` places from the cursor on lie in the buffer. -/
def Room (buffer : List α) (p : ι) (n : ℕ) : Prop :=
  ∀ i < n, index (next^[i] p) < buffer.length

/-- The `n` places from the cursor on are all different. -/
def Distinct (p : ι) (n : ℕ) : Prop :=
  ∀ i < n, ∀ j < n, index (next^[i] p) = index (next^[j] p) → i = j

/-- The `values` stand in the buffer from the cursor on. -/
def Holds (buffer : List α) (p : ι) (values : List α) : Prop :=
  ∀ i < values.length, buffer[index (next^[i] p)]? = values[i]?

variable {index next}

theorem Room.head {buffer : List α} {p : ι} {n : ℕ} (h : Room index next buffer p (n + 1)) :
    index p < buffer.length := h 0 (Nat.succ_pos n)

theorem Room.tail {buffer : List α} {p : ι} {n : ℕ} (h : Room index next buffer p (n + 1)) :
    Room index next buffer (next p) n := by
  intro i hi
  simpa only [Function.iterate_succ_apply] using h (i + 1) (Nat.succ_lt_succ hi)

theorem Distinct.tail {p : ι} {n : ℕ} (h : Distinct index next p (n + 1)) :
    Distinct index next (next p) n := by
  intro i hi j hj heq
  have := h (i + 1) (Nat.succ_lt_succ hi) (j + 1) (Nat.succ_lt_succ hj)
    (by simpa only [Function.iterate_succ_apply] using heq)
  omega

@[simp] theorem holds_nil {buffer : List α} {p : ι} : Holds index next buffer p [] :=
  fun i hi => absurd hi (Nat.not_lt_zero i)

@[simp] theorem holds_cons {buffer values : List α} {p : ι} {value : α} :
    Holds index next buffer p (value :: values) ↔
      buffer[index p]? = some value ∧ Holds index next buffer (next p) values := by
  constructor
  · intro h
    refine ⟨by simpa using h 0 (by simp), ?_⟩
    intro i hi
    simpa only [Function.iterate_succ_apply, List.getElem?_cons_succ] using
      h (i + 1) (by simpa using hi)
  · rintro ⟨hhead, htail⟩ i hi
    cases i with
    | zero => simpa using hhead
    | succ i =>
        simp only [List.length_cons] at hi
        simpa only [Function.iterate_succ_apply, List.getElem?_cons_succ] using htail i (by omega)

theorem holds_append {buffer xs ys : List α} {p : ι} :
    Holds index next buffer p (xs ++ ys) ↔
      Holds index next buffer p xs ∧ Holds index next buffer (next^[xs.length] p) ys := by
  induction xs generalizing p with
  | nil => simp
  | cons x xs ih => simp [ih, and_assoc]

theorem putAll_append (xs ys buffer : List α) (p : ι) :
    putAll index next (xs ++ ys) buffer p =
      putAll index next xs buffer p >>= fun r => putAll index next ys r.1 r.2 := by
  induction xs generalizing buffer p with
  | nil => rfl
  | cons x xs ih =>
      simp only [List.cons_append, putAll]
      cases hstore : store buffer (index p) x with
      | error fault => rfl
      | ok buffer => exact ih buffer (next p)

/-- With room for them, all values are stored. -/
theorem putAll_of_room (values buffer : List α) (p : ι)
    (hroom : Room index next buffer p values.length) :
    ∃ result, putAll index next values buffer p = .ok (result, next^[values.length] p) := by
  induction values generalizing buffer p with
  | nil => exact ⟨buffer, rfl⟩
  | cons value values ih =>
      have htail : Room index next (buffer.set (index p) value) (next p) values.length := by
        intro i hi
        simpa using hroom.tail i hi
      obtain ⟨result, hput⟩ := ih (buffer.set (index p) value) (next p) htail
      exact ⟨result, by simp [putAll, store_of_lt buffer value hroom.head, hput]⟩

/-- Storing moves the cursor by one place per value. -/
theorem putAll_cursor {values buffer result : List α} {p q : ι}
    (hput : putAll index next values buffer p = .ok (result, q)) :
    q = next^[values.length] p := by
  induction values generalizing buffer p with
  | nil =>
      simp only [putAll, Except.ok.injEq, Prod.mk.injEq] at hput
      exact hput.2.symm
  | cons value values ih =>
      obtain ⟨buffer', -, hput⟩ := bind_eq_ok.mp hput
      exact ih hput

/-- Storing keeps the length and changes no place the cursor does not visit. -/
theorem putAll_frame {values buffer result : List α} {p q : ι}
    (hput : putAll index next values buffer p = .ok (result, q)) :
    result.length = buffer.length ∧
      ∀ k, (∀ i < values.length, k ≠ index (next^[i] p)) → result[k]? = buffer[k]? := by
  induction values generalizing buffer p with
  | nil =>
      simp only [putAll, Except.ok.injEq, Prod.mk.injEq] at hput
      obtain ⟨rfl, -⟩ := hput
      exact ⟨rfl, fun k _ => rfl⟩
  | cons value values ih =>
      obtain ⟨buffer', hstore, hput⟩ := bind_eq_ok.mp hput
      obtain ⟨-, rfl⟩ := store_eq_ok.mp hstore
      obtain ⟨hlen, hframe⟩ := ih hput
      refine ⟨by simpa using hlen, ?_⟩
      intro k hk
      rw [hframe k, List.getElem?_set_ne]
      · exact (hk 0 (by simp)).symm
      · intro i hi
        simpa only [Function.iterate_succ_apply] using hk (i + 1) (by simpa using hi)

/-- Values stored at different places are all found again. -/
theorem putAll_holds {values buffer result : List α} {p q : ι}
    (hdistinct : Distinct index next p values.length)
    (hput : putAll index next values buffer p = .ok (result, q)) :
    Holds index next result p values := by
  induction values generalizing buffer p with
  | nil => exact holds_nil
  | cons value values ih =>
      obtain ⟨buffer', hstore, hput⟩ := bind_eq_ok.mp hput
      obtain ⟨hlt, rfl⟩ := store_eq_ok.mp hstore
      refine holds_cons.mpr ⟨?_, ih hdistinct.tail hput⟩
      -- The later stores stay off the first place, so its value survives them.
      rw [(putAll_frame hput).2, List.getElem?_set_self hlt]
      intro i hi heq
      have := hdistinct 0 (by simp) (i + 1) (by simpa using hi)
        (by simpa only [Function.iterate_zero, id_eq, Function.iterate_succ_apply] using heq)
      omega

end Cursor
