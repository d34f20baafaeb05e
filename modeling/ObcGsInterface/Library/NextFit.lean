import Mathlib.Data.List.Flatten
import Mathlib.Data.List.Chain
import Mathlib.Tactic.Common

/-! # Next-fit grouping

Items are put into the open group as long as they fit; the first one that does not fit
closes it and opens the next group. -/

namespace NextFit

variable {α : Type*} (size : α → ℕ) (capacity : ℕ)

/-- The space a group takes. -/
def total : List α → ℕ
  | [] => 0
  | item :: items => size item + total items

/-- The groups of the items, `group` being the open one. -/
def groups : List α → List α → List (List α)
  | group, [] => if group = [] then [] else [group]
  | group, item :: items =>
      if total size group + size item > capacity then group :: groups [item] items
      else groups (group ++ [item]) items

@[simp] theorem total_nil : total size [] = 0 := rfl

@[simp] theorem total_cons (x : α) (xs : List α) :
    total size (x :: xs) = size x + total size xs := rfl

@[simp] theorem total_append (xs ys : List α) :
    total size (xs ++ ys) = total size xs + total size ys := by
  induction xs with
  | nil => simp
  | cons x xs ih => simp [ih, Nat.add_assoc]

theorem flatten_groups (group items : List α) :
    (groups size capacity group items).flatten = group ++ items := by
  induction items generalizing group with
  | nil =>
      by_cases hgroup : group = [] <;> simp [groups, hgroup]
  | cons item items ih =>
      by_cases hfull : total size group + size item > capacity
      · simp [groups, hfull, ih]
      · simp [groups, hfull, ih]

variable {size capacity}

/-- No group is empty, because a single item always fits. -/
theorem ne_nil_of_mem_groups {group items : List α} (hitems : ∀ item ∈ items, size item ≤ capacity) :
    ∀ g ∈ groups size capacity group items, g ≠ [] := by
  induction items generalizing group with
  | nil =>
      by_cases hgroup : group = [] <;> simp [groups, hgroup]
  | cons item items ih =>
      have hitem := hitems item (by simp)
      have htail := fun x hx => hitems x (List.mem_cons_of_mem item hx)
      by_cases hfull : total size group + size item > capacity
      · simp only [groups, hfull, if_true, List.mem_cons]
        rintro g (rfl | hg)
        · rintro rfl
          simp only [total_nil] at hfull
          omega
        · exact ih htail g hg
      · simp only [groups, hfull, if_false]
        exact ih htail

theorem total_le_of_mem_groups {group items : List α} (hgroup : total size group ≤ capacity)
    (hitems : ∀ item ∈ items, size item ≤ capacity) :
    ∀ g ∈ groups size capacity group items, total size g ≤ capacity := by
  induction items generalizing group with
  | nil =>
      by_cases hnil : group = [] <;> simp [groups, hnil, hgroup]
  | cons item items ih =>
      have hitem := hitems item (by simp)
      have htail := fun x hx => hitems x (List.mem_cons_of_mem item hx)
      by_cases hfull : total size group + size item > capacity
      · simp only [groups, hfull, if_true, List.mem_cons]
        rintro g (rfl | hg)
        · exact hgroup
        · exact ih (by simpa using hitem) htail g hg
      · simp only [groups, hfull, if_false]
        exact ih (by simpa using hfull) htail

/-- The first group begins with the open one. -/
theorem head_groups {group items g : List α} {rest : List (List α)} (hgroup : group ≠ [])
    (h : groups size capacity group items = g :: rest) : ∃ tail, g = group ++ tail := by
  induction items generalizing group with
  | nil =>
      simp only [groups, hgroup, if_false, List.cons.injEq] at h
      exact ⟨[], by simp [h.1]⟩
  | cons item items ih =>
      by_cases hfull : total size group + size item > capacity
      · simp only [groups, hfull, if_true, List.cons.injEq] at h
        exact ⟨[], by simp [h.1]⟩
      · simp only [groups, hfull, if_false] at h
        obtain ⟨tail, rfl⟩ := ih (by simp) h
        exact ⟨item :: tail, by simp⟩

/-- `next` begins with an item that no longer fits into `group`. -/
def Full (size : α → ℕ) (capacity : ℕ) (group next : List α) : Prop :=
  ∃ item tail, next = item :: tail ∧ total size group + size item > capacity

/-- Every group but the last is full. -/
theorem full_groups (group items : List α) :
    (groups size capacity group items).IsChain (Full size capacity) := by
  induction items generalizing group with
  | nil =>
      by_cases hgroup : group = [] <;> simp [groups, hgroup]
  | cons item items ih =>
      by_cases hfull : total size group + size item > capacity
      · simp only [groups, hfull, if_true]
        cases hrest : groups size capacity [item] items with
        | nil => simp
        | cons g rest =>
            obtain ⟨tail, rfl⟩ := head_groups (by simp) hrest
            rw [List.isChain_cons_cons]
            exact ⟨⟨item, tail, rfl, hfull⟩, hrest ▸ ih [item]⟩
      · simp only [groups, hfull, if_false]
        exact ih (group ++ [item])

end NextFit
