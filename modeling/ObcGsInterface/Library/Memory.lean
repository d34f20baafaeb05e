import Mathlib.Data.List.Basic
import Mathlib.Data.List.GetD
import Mathlib.Tactic.Common

/-! # Checked arrays

A C array is a list of fixed length. Reading or writing outside it has no defined
result, and neither has a loop that never ends or the use of a pointer to nothing. All are
kept as faults, so that a result `.ok` is a proof that the code stayed inside its buffers
and returned. -/

namespace CArray

/-- The ways in which a piece of C code has no defined result. -/
inductive Fault where
  | outOfBounds
  | nonTermination
  | invalidPointer
  deriving DecidableEq, Repr

variable {α : Type*}

/-- `buffer[i]` as a value. -/
def load (buffer : List α) (i : ℕ) : Except Fault α :=
  match buffer[i]? with
  | some value => .ok value
  | none => .error .outOfBounds

/-- `buffer[i] = value`. -/
def store (buffer : List α) (i : ℕ) (value : α) : Except Fault (List α) :=
  if i < buffer.length then .ok (buffer.set i value) else .error .outOfBounds

/-- The list with the entries from `pos` on replaced by `values`. -/
def overwrite (buffer : List α) (pos : ℕ) (values : List α) : List α :=
  buffer.take pos ++ (values ++ buffer.drop (pos + values.length))

/-- `memcpy(buffer + pos, values, n)`. -/
def memcpy (buffer : List α) (pos : ℕ) (values : List α) (n : ℕ) : Except Fault (List α) :=
  if n ≤ values.length ∧ pos + n ≤ buffer.length then
    .ok (overwrite buffer pos (values.take n))
  else .error .outOfBounds

/-- `memset(buffer, value, n)`. -/
def memset (buffer : List α) (value : α) (n : ℕ) : Except Fault (List α) :=
  if n ≤ buffer.length then .ok (overwrite buffer 0 (List.replicate n value))
  else .error .outOfBounds

/-! ## Sequencing -/

section Sequencing

universe u

variable {ε : Type*} {β γ : Type u}

@[simp] theorem ok_bind (b : β) (f : β → Except ε γ) :
    ((Except.ok b : Except ε β) >>= f) = f b := rfl

@[simp] theorem error_bind (e : ε) (f : β → Except ε γ) :
    ((Except.error e : Except ε β) >>= f) = .error e := rfl

@[simp] theorem pure_eq_ok (b : β) : (pure b : Except ε β) = .ok b := rfl

/-- A sequence returns exactly when its first part does and the rest returns from there. -/
theorem bind_eq_ok {x : Except ε β} {f : β → Except ε γ} {c : γ} :
    (x >>= f) = .ok c ↔ ∃ b, x = .ok b ∧ f b = .ok c := by
  cases x with
  | error e => simp
  | ok b => simp

/-- In a loop that returns, every round returns. -/
theorem round_of_foldlM_eq_ok {σ : Type u} {ι : Type*} {body : σ → ι → Except ε σ} {xs : List ι}
    {init result : σ} (h : xs.foldlM body init = .ok result) {i : ι} (hi : i ∈ xs) :
    ∃ s t, body s i = .ok t := by
  induction xs generalizing init with
  | nil => contradiction
  | cons x xs ih =>
      rw [List.foldlM_cons] at h
      obtain ⟨next, hround, hrest⟩ := bind_eq_ok.mp h
      rcases List.mem_cons.mp hi with rfl | hi
      · exact ⟨init, next, hround⟩
      · exact ih hrest hi

end Sequencing

/-! ## Single accesses -/

theorem load_eq_ok {buffer : List α} {i : ℕ} {value : α} :
    load buffer i = .ok value ↔ buffer[i]? = some value := by
  unfold load
  cases buffer[i]? <;> simp

theorem load_of_lt (buffer : List α) {i : ℕ} (h : i < buffer.length) :
    load buffer i = .ok buffer[i] :=
  load_eq_ok.mpr (List.getElem?_eq_getElem h)

theorem load_getD {buffer : List α} {i : ℕ} (fallback : α) (h : i < buffer.length) :
    load buffer i = .ok (buffer.getD i fallback) := by
  rw [load_of_lt buffer h, List.getD_eq_getElem _ _ h]

theorem store_of_lt (buffer : List α) {i : ℕ} (value : α) (h : i < buffer.length) :
    store buffer i value = .ok (buffer.set i value) := if_pos h

theorem store_eq_ok {buffer result : List α} {i : ℕ} {value : α} :
    store buffer i value = .ok result ↔ i < buffer.length ∧ buffer.set i value = result := by
  unfold store
  split <;> simp [*]

theorem getD_set (buffer : List α) (i j : ℕ) (value fallback : α) :
    (buffer.set i value).getD j fallback =
      if i = j ∧ i < buffer.length then value else buffer.getD j fallback := by
  rw [List.getD_eq_getElem?_getD, List.getD_eq_getElem?_getD, List.getElem?_set]
  by_cases hij : i = j
  · subst hij
    by_cases hi : i < buffer.length <;> simp [hi]
  · simp [hij]

/-! ## Overwriting a block -/

@[simp] theorem overwrite_nil (buffer : List α) (pos : ℕ) : overwrite buffer pos [] = buffer := by
  simp [overwrite]

theorem length_overwrite (buffer values : List α) (pos : ℕ)
    (h : pos + values.length ≤ buffer.length) :
    (overwrite buffer pos values).length = buffer.length := by
  simp only [overwrite, List.length_append, List.length_take, List.length_drop]
  omega

/-- Overwriting what stands behind `front`. -/
theorem overwrite_behind (front back values : List α) :
    overwrite (front ++ back) front.length values =
      front ++ (values ++ back.drop values.length) := by
  rw [overwrite, List.take_left, ← List.drop_drop, List.drop_left]

/-- Overwriting the middle of a buffer presented as three blocks replaces that block. -/
theorem overwrite_append (front old back values : List α) (h : values.length = old.length) :
    overwrite (front ++ (old ++ back)) front.length values = front ++ (values ++ back) := by
  rw [overwrite_behind, h, List.drop_left]

/-- Overwriting twice in a row, from the front on. -/
theorem overwrite_overwrite (buffer xs ys : List α) :
    overwrite (overwrite buffer 0 xs) xs.length ys = overwrite buffer 0 (xs ++ ys) := by
  simp only [overwrite, List.take_zero, List.nil_append, Nat.zero_add, List.length_append]
  rw [List.take_left, ← List.drop_drop, List.drop_left, List.drop_drop, List.append_assoc]

theorem overwrite_whole {buffer values : List α} (h : values.length = buffer.length) :
    overwrite buffer 0 values = values := by
  rw [overwrite, List.take_zero, List.nil_append, Nat.zero_add, h, List.drop_length,
    List.append_nil]

theorem take_succ_set (buffer : List α) {pos : ℕ} (value : α) (h : pos < buffer.length) :
    (buffer.set pos value).take (pos + 1) = buffer.take pos ++ [value] := by
  rw [List.take_add_one, List.getElem?_set_self h, List.take_set_of_le (Nat.le_refl pos)]
  rfl

theorem overwrite_cons (buffer values : List α) (value : α) {pos : ℕ} (h : pos < buffer.length) :
    overwrite buffer pos (value :: values) = overwrite (buffer.set pos value) (pos + 1) values := by
  rw [overwrite, overwrite, take_succ_set _ _ h, List.drop_set_of_lt (by omega), List.length_cons,
    Nat.add_right_comm, ← Nat.add_assoc]
  simp

theorem memcpy_of_le (buffer values : List α) {pos n : ℕ} (hn : n ≤ values.length)
    (hpos : pos + n ≤ buffer.length) :
    memcpy buffer pos values n = .ok (overwrite buffer pos (values.take n)) :=
  if_pos ⟨hn, hpos⟩

theorem memset_all (buffer : List α) (value : α) :
    memset buffer value buffer.length = .ok (List.replicate buffer.length value) := by
  simp [memset, overwrite]

/-! ## Arrays of a fixed size -/

/-- An array of exactly `n` cells. -/
structure Block (α : Type*) (n : ℕ) where
  cells : List α
  length_cells : cells.length = n
  deriving DecidableEq, Repr

namespace Block

variable {n : ℕ}

attribute [simp] length_cells

@[ext] theorem ext {a b : Block α n} (h : a.cells = b.cells) : a = b := by
  cases a
  cases b
  simpa using h

/-- An array with the same value everywhere. -/
def fill (n : ℕ) (value : α) : Block α n :=
  ⟨List.replicate n value, List.length_replicate⟩

/-- `block[i] = value`. -/
def store (block : Block α n) (i : ℕ) (value : α) : Except Fault (Block α n) :=
  if i < n then .ok ⟨block.cells.set i value, by simp⟩ else .error .outOfBounds

/-- `memcpy(block + pos, values, count)`. -/
def memcpy (block : Block α n) (pos : ℕ) (values : List α) (count : ℕ) :
    Except Fault (Block α n) :=
  if h : count ≤ values.length ∧ pos + count ≤ n then
    .ok ⟨overwrite block.cells pos (values.take count), by
      rw [length_overwrite, block.length_cells]
      rw [block.length_cells, List.length_take]
      omega⟩
  else .error .outOfBounds

/-- `memset(block, value, count)`. -/
def memset (block : Block α n) (value : α) (count : ℕ) : Except Fault (Block α n) :=
  block.memcpy 0 (List.replicate count value) count

@[simp] theorem cells_fill (n : ℕ) (value : α) : (fill n value).cells = List.replicate n value :=
  rfl

theorem store_of_lt (block : Block α n) {i : ℕ} (value : α) (h : i < n) :
    block.store i value = .ok ⟨block.cells.set i value, by simp⟩ := if_pos h

theorem load_cells (block : Block α n) {i : ℕ} (fallback : α) (h : i < n) :
    load block.cells i = .ok (block.cells.getD i fallback) :=
  load_getD fallback (by rw [block.length_cells]; exact h)

/-- A store in place, as the values of all cells. -/
theorem store_getD (block : Block α n) {i : ℕ} (value fallback : α) (h : i < n) :
    ∃ result, block.store i value = .ok result ∧
      ∀ k, result.cells.getD k fallback = if i = k then value else block.cells.getD k fallback := by
  refine ⟨_, block.store_of_lt value h, fun k => ?_⟩
  rw [getD_set, block.length_cells]
  simp only [h, and_true]

theorem memcpy_of_le (block : Block α n) {pos count : ℕ} {values : List α}
    (hcount : count ≤ values.length) (hpos : pos + count ≤ n) :
    ∃ result, block.memcpy pos values count = .ok result ∧
      result.cells = overwrite block.cells pos (values.take count) :=
  ⟨_, dif_pos ⟨hcount, hpos⟩, rfl⟩

theorem memcpy_in_bounds {block result : Block α n} {pos count : ℕ} {values : List α}
    (h : block.memcpy pos values count = .ok result) :
    count ≤ values.length ∧ pos + count ≤ n := by
  unfold memcpy at h
  by_contra hbounds
  rw [dif_neg hbounds] at h
  contradiction

theorem memset_all (block : Block α n) (value : α) : block.memset value n = .ok (fill n value) := by
  have hcount : n ≤ (List.replicate n value).length := by simp
  obtain ⟨result, hresult, hcells⟩ := block.memcpy_of_le hcount (Nat.le_of_eq (Nat.zero_add n))
  rw [memset, hresult]
  congr 1
  ext1
  rw [hcells]
  simp [overwrite]

/-- A block copied over a part of the same size. -/
theorem memcpy_append {block : Block α n} {front old back values : List α} {pos count : ℕ}
    (hcells : block.cells = front ++ (old ++ back)) (hpos : front.length = pos)
    (hcount : count ≤ values.length) (hold : old.length = count) :
    ∃ result, block.memcpy pos values count = .ok result ∧
      result.cells = front ++ (values.take count ++ back) := by
  have hn := block.length_cells
  rw [hcells, List.length_append, List.length_append] at hn
  have hroom : pos + count ≤ n := by omega
  obtain ⟨result, hrun, hresult⟩ := block.memcpy_of_le hcount hroom
  refine ⟨result, hrun, ?_⟩
  rw [hresult, hcells, ← hpos, overwrite_append]
  rw [List.length_take, hold]
  omega

/-- A block copied over a whole block. -/
theorem memcpy_whole (block values : Block α n) :
    block.memcpy 0 values.cells n = .ok values := by
  have hcells : block.cells = [] ++ (block.cells ++ []) := by simp
  obtain ⟨result, hrun, hresult⟩ := memcpy_append hcells (rfl : _ = 0)
    (Nat.le_of_eq values.length_cells.symm) block.length_cells
  rw [hrun]
  congr 1
  ext1
  rw [hresult, List.take_of_length_le (Nat.le_of_eq values.length_cells), List.nil_append,
    List.append_nil]

/-- A value stored over a single cell. -/
theorem store_append {block : Block α n} {front back : List α} {old : α} {pos : ℕ} (value : α)
    (hcells : block.cells = front ++ old :: back) (hpos : front.length = pos) :
    ∃ result, block.store pos value = .ok result ∧ result.cells = front ++ value :: back := by
  have hn := block.length_cells
  rw [hcells, List.length_append, List.length_cons] at hn
  refine ⟨_, block.store_of_lt value (by omega), ?_⟩
  change block.cells.set pos value = front ++ value :: back
  rw [hcells, List.set_append_right _ _ (by omega), hpos, Nat.sub_self, List.set_cons_zero]

/-- A loop that stores a value in each of a row of cells. -/
theorem foldlM_store {body : Block α n → ℕ → Except Fault (Block α n)} {values : List α}
    {start : ℕ} (data : Block α n)
    (hbody : ∀ block j (h : j < values.length),
      body block (start + j) = block.store (start + j) values[j])
    (hroom : start + values.length ≤ n) :
    ∃ result, (List.range' start values.length).foldlM body data = .ok result ∧
      result.cells = overwrite data.cells start values := by
  induction values generalizing start data with
  | nil => exact ⟨data, rfl, by rw [overwrite_nil]⟩
  | cons v values ih =>
      rw [List.length_cons] at hroom
      have hhead : body data start = data.store start v := hbody data 0 (Nat.succ_pos _)
      have htail (block : Block α n) (j : ℕ) (h : j < values.length) :
          body block (start + 1 + j) = block.store (start + 1 + j) values[j] := by
        rw [Nat.add_assoc, Nat.add_comm 1 j]
        exact hbody block (j + 1) (Nat.succ_lt_succ h)
      obtain ⟨result, hrun, hcells⟩ := ih ⟨data.cells.set start v, by simp⟩ htail (by omega)
      refine ⟨result, ?_, ?_⟩
      · rw [List.length_cons, List.range'_succ, List.foldlM_cons, hhead,
          store_of_lt _ _ (by omega), ok_bind, hrun]
      · rw [hcells, overwrite_cons _ _ _ (by rw [data.length_cells]; omega)]

end Block

/-! ## Rows of blocks of one size -/

section Rows

variable {row : ℕ → List α} {count width : ℕ}

theorem length_rows (hwidth : ∀ j < count, (row j).length = width) :
    ((List.range count).flatMap row).length = count * width := by
  induction count with
  | zero => simp
  | succ count ih =>
      rw [List.range_succ, List.flatMap_append, List.length_append,
        ih fun j hj => hwidth j (Nat.lt_succ_of_lt hj)]
      simp [hwidth count (Nat.lt_succ_self count), Nat.succ_mul]

theorem getElem?_rows (hwidth : ∀ j < count, (row j).length = width) {j k : ℕ} (hj : j < count)
    (hk : k < width) : ((List.range count).flatMap row)[j * width + k]? = (row j)[k]? := by
  induction count with
  | zero => contradiction
  | succ count ih =>
      have hlength := length_rows fun j hj => hwidth j (Nat.lt_succ_of_lt hj)
      rw [List.range_succ, List.flatMap_append]
      rcases Nat.lt_succ_iff_lt_or_eq.mp hj with hj | rfl
      · have hend : j * width + width ≤ count * width := by
          rw [← Nat.succ_mul]
          exact Nat.mul_le_mul_right width hj
        rw [List.getElem?_append_left (by omega)]
        exact ih (fun j hj => hwidth j (Nat.lt_succ_of_lt hj)) hj
      · rw [List.getElem?_append_right (by omega), hlength, Nat.add_sub_cancel_left]
        simp

end Rows

end CArray
