import Mathlib.Order.Bounds.Basic
import Mathlib.Logic.Function.Basic

/-! A table of slots that are filled at the first hole and never removed, read as a
partial map from indices. -/
namespace Slots

variable {α : Type*}

/-- What the slot at an index holds; nothing beyond the end of the table. -/
def get (table : List (Option α)) (i : Nat) : Option α := table[i]?.join

/-- The first hole, or the end of the table. -/
def firstFree (table : List (Option α)) : Nat := (table.findIdx? Option.isNone).getD table.length

def place (table : List (Option α)) (a : α) : List (Option α) :=
  match table.findIdx? Option.isNone with
  | some i => table.set i (some a)
  | none => table ++ [some a]

def used (table : List (Option α)) : Nat := table.countP Option.isSome

variable {table : List (Option α)}

theorem get_nil : get ([] : List (Option α)) = fun _ => none := by
  funext i
  rfl

theorem get_eq_none_of_le {i : Nat} (beyond : table.length ≤ i) : get table i = none := by
  unfold get
  rw [List.getElem?_eq_none beyond]
  rfl

theorem get_eq_none_iff {i : Nat} (inside : i < table.length) :
    get table i = none ↔ table[i].isNone = true := by
  unfold get
  rw [List.getElem?_eq_getElem inside, Option.join_some, Option.isNone_iff_eq_none]

/-- Filling or clearing one slot changes the map there and nowhere else. -/
theorem get_set {i : Nat} (inside : i < table.length) (slot : Option α) :
    get (table.set i slot) = Function.update (get table) i slot := by
  funext j
  unfold get
  by_cases same : j = i
  · subst same
    rw [List.getElem?_set_self inside, Function.update_self, Option.join_some]
  · rw [List.getElem?_set_ne (Ne.symm same), Function.update_of_ne same]

theorem get_append (a : α) :
    get (table ++ [some a]) = Function.update (get table) table.length (some a) := by
  funext j
  by_cases same : j = table.length
  · subst same
    simp [get]
  · rw [Function.update_of_ne same]
    unfold get
    rcases Nat.lt_or_gt_of_ne same with inside | beyond
    · rw [List.getElem?_append_left inside]
    · rw [List.getElem?_eq_none (by simp; omega), List.getElem?_eq_none (by omega)]

theorem get_place (a : α) :
    get (place table a) = Function.update (get table) (firstFree table) (some a) := by
  unfold place firstFree
  cases hole : table.findIdx? Option.isNone with
  | some i => exact get_set (List.findIdx?_eq_some_iff_findIdx_eq.mp hole).1 (some a)
  | none => exact get_append a

/-- The slot that is filled is the least one that was empty. -/
theorem firstFree_isLeast (table : List (Option α)) :
    IsLeast {i | get table i = none} (firstFree table) := by
  unfold firstFree
  cases hole : table.findIdx? Option.isNone with
  | some i =>
      obtain ⟨inside, empty, earlier⟩ := List.findIdx?_eq_some_iff_getElem.mp hole
      constructor
      · exact (get_eq_none_iff inside).mpr empty
      · intro j free
        by_contra below
        have before : j < i := Nat.not_le.mp below
        exact earlier j before ((get_eq_none_iff (Nat.lt_trans before inside)).mp free)
  | none =>
      constructor
      · exact get_eq_none_of_le (Nat.le_refl _)
      · intro j free
        by_contra below
        have inside : j < table.length := Nat.not_le.mp below
        have full := List.findIdx?_eq_none_iff.mp hole table[j] (List.getElem_mem inside)
        rw [(get_eq_none_iff inside).mp free] at full
        cases full

theorem firstFree_lt_place (table : List (Option α)) (a : α) :
    firstFree table < (place table a).length := by
  unfold firstFree place
  cases hole : table.findIdx? Option.isNone with
  | some i =>
      rw [List.length_set]
      exact (List.findIdx?_eq_some_iff_findIdx_eq.mp hole).1
  | none => simp

/-- The table grows only when all of its slots are used. -/
theorem place_length_le (a : α) {bound : Nat} (small : table.length ≤ bound)
    (few : used (place table a) ≤ bound) : (place table a).length ≤ bound := by
  unfold place at few ⊢
  cases hole : table.findIdx? Option.isNone with
  | some i =>
      rw [List.length_set]
      exact small
  | none =>
      have full : ∀ slot ∈ table ++ [some a], slot.isSome = true := by
        intro slot member
        rcases List.mem_append.mp member with old | new
        · have taken := List.findIdx?_eq_none_iff.mp hole slot old
          simpa using taken
        · rw [List.mem_singleton.mp new]
          rfl
      simp only [hole, used, List.countP_eq_length.mpr full] at few
      exact few

end Slots
