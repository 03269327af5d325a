import Mathlib.Algebra.Group.Nat.Defs

/-! A window on a circular list of cells: the cells from a start on, for a count of
steps, with the list read as a ring. -/
namespace Window

variable {α : Type*}

/-- The contents of `count` cells from `start` on. -/
def window (cells : List α) (start : Nat) : Nat → List α
  | 0 => []
  | count + 1 => (cells[start % cells.length]?).toList ++ window cells (start + 1) count

variable {cells : List α} {start count : Nat}

/-- Only the place of the start in the ring matters. -/
theorem window_mod (cells : List α) (start count : Nat) :
    window cells (start % cells.length) count = window cells start count := by
  induction count generalizing start with
  | zero => rfl
  | succ count ih =>
      rw [window, window, Nat.mod_mod, ← ih (start % cells.length + 1), Nat.mod_add_mod, ih]

theorem window_length (nonempty : 0 < cells.length) (start count : Nat) :
    (window cells start count).length = count := by
  induction count generalizing start with
  | zero => rfl
  | succ count ih =>
      rw [window, List.getElem?_eq_getElem (Nat.mod_lt _ nonempty), Option.toList_some,
        List.length_append, ih]
      exact Nat.add_comm 1 count

/-- The window grows at its end. -/
theorem window_succ (cells : List α) (start count : Nat) :
    window cells start (count + 1) =
      window cells start count ++ (cells[(start + count) % cells.length]?).toList := by
  induction count generalizing start with
  | zero => simp [window]
  | succ count ih =>
      rw [window, ih, ← List.append_assoc, Nat.add_right_comm, Nat.add_assoc]
      rfl

/-- Distinct places on one round of the ring. -/
theorem place_ne {n i j : Nat} (before : i < j) (round : j < n) (start : Nat) :
    (start + i) % n ≠ (start + j) % n := by
  intro same
  have both := Nat.sub_mod_eq_zero_of_mod_eq same.symm
  rw [show start + j - (start + i) = j - i by omega, Nat.mod_eq_of_lt (by omega)] at both
  omega

/-- A cell outside of the window may be set. -/
theorem window_set_outside {w : Nat} {a : α}
    (outside : ∀ i, i < count → (start + i) % cells.length ≠ w) :
    window (cells.set w a) start count = window cells start count := by
  induction count generalizing start with
  | zero => rfl
  | succ count ih =>
      have first : start % cells.length ≠ w := outside 0 (Nat.zero_lt_succ count)
      have rest : ∀ i, i < count → (start + 1 + i) % cells.length ≠ w := by
        intro i below
        rw [Nat.add_right_comm]
        exact outside (i + 1) (Nat.succ_lt_succ below)
      rw [window, window, ih rest, List.length_set, List.getElem?_set_ne (Ne.symm first)]

/-- Setting the cell behind the window and taking it in appends it. -/
theorem window_push (room : count < cells.length) (a : α) :
    window (cells.set ((start + count) % cells.length) a) start (count + 1) =
      window cells start count ++ [a] := by
  have inside : (start + count) % cells.length < cells.length := Nat.mod_lt _ (by omega)
  rw [window_succ, List.length_set, List.getElem?_set_self inside, Option.toList_some]
  rw [window_set_outside (fun i below => place_ne below room start)]

/-- The first cell of a window, and the window without it. -/
theorem window_pop (nonempty : 0 < cells.length) (start count : Nat) :
    ∃ a, cells[start % cells.length]? = some a ∧
      window cells start (count + 1) = a :: window cells (start + 1) count := by
  have inside : start % cells.length < cells.length := Nat.mod_lt _ nonempty
  refine ⟨cells[start % cells.length], List.getElem?_eq_getElem inside, ?_⟩
  rw [window, List.getElem?_eq_getElem inside]
  rfl

/-- What has left a buffer of this capacity or is still in it, beside what was offered to
it: in the same order, and all of it unless more was offered than fits. -/
structure Kept (capacity : Nat) (passed offered : List α) : Prop where
  sublist : passed.Sublist offered
  whole : offered.length ≤ capacity → passed = offered

section Kept

variable {capacity : Nat} {got got' between rest offered more : List α}

theorem Kept.refl (items : List α) : Kept capacity items items := ⟨List.Sublist.refl items, fun _ => rfl⟩

/-- A full buffer drops what is offered. -/
theorem Kept.dropped (full : capacity ≤ rest.length) (more : List α) : Kept capacity rest (rest ++ more) := by
  refine ⟨List.sublist_append_left rest more, fun fits => ?_⟩
  rw [List.length_append] at fits
  rw [List.length_eq_zero_iff.mp (by omega : more.length = 0), List.append_nil]

theorem Kept.trans (first : Kept capacity (got ++ between) offered)
    (second : Kept capacity (got' ++ rest) (between ++ more)) :
    Kept capacity (got ++ got' ++ rest) (offered ++ more) := by
  constructor
  · have later := second.sublist.append_left got
    have earlier := first.sublist.append_right more
    rw [← List.append_assoc, ← List.append_assoc] at later
    exact later.trans earlier
  · intro fits
    rw [List.length_append] at fits
    have earlier := first.whole (by omega)
    have lengths := congrArg List.length earlier
    rw [List.length_append] at lengths
    have later := second.whole (by rw [List.length_append]; omega)
    rw [List.append_assoc, later, ← List.append_assoc, earlier]

end Kept

end Window
