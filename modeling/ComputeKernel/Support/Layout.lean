/-! Text as the rows of a page of fixed width: split at a separator, cut each line at
the width, and what one more character does to the rows. -/
namespace Layout

variable {α : Type} {width : Nat}

/-- The rows of one line. Every row but the last is full, and an empty line is one
empty row. -/
def rowsOf (width : Nat) (line : List α) : List (List α) :=
  (List.range ((line.length - 1) / width + 1)).map (fun row => (line.drop (row * width)).take width)

def rows [BEq α] (width : Nat) (separator : α) (text : List α) : List (List α) :=
  (text.splitOn separator).flatMap (rowsOf width)

example : rows 3 0 [1, 2, 0, 0, 1, 2, 3, 0, 1, 2, 3, 4] = [[1, 2], [], [1, 2, 3], [1, 2, 3], [4]] := by
  decide

/-- The rows of a page that ends in `last`, after one more character. -/
def extend (width : Nat) (init : List (List α)) (last : List α) (c : α) : List (List α) :=
  if last.length < width then init ++ [last ++ [c]] else init ++ [last, [c]]

theorem extend_append (before init : List (List α)) (last : List α) (c : α) :
    extend width (before ++ init) last c = before ++ extend width init last c := by
  unfold extend
  split
  · rw [List.append_assoc]
  · rw [List.append_assoc]

/-- The character at a place of a page. -/
def charAt (page : List (List α)) (row col : Nat) : Option α := page[row]?.bind (fun chars => chars[col]?)

theorem charAt_newRow (page : List (List α)) (row col : Nat) :
    charAt (page ++ [[]]) row col = charAt page row col := by
  unfold charAt
  rcases Nat.lt_trichotomy row page.length with inside | rfl | beyond
  · rw [List.getElem?_append_left inside]
  · simp
  · rw [List.getElem?_eq_none (by simp; omega), List.getElem?_eq_none (by omega)]

theorem charAt_concat (init : List (List α)) (last : List α) (c : α) (row col : Nat) :
    charAt (init ++ [last ++ [c]]) row col =
      if row = init.length ∧ col = last.length then some c else charAt (init ++ [last]) row col := by
  unfold charAt
  rcases Nat.lt_trichotomy row init.length with inside | rfl | beyond
  · rw [List.getElem?_append_left inside, List.getElem?_append_left inside, if_neg (by omega)]
  · rcases Nat.lt_trichotomy col last.length with inside | rfl | beyond
    · simp [inside, Nat.ne_of_lt inside, List.getElem?_append_left]
    · simp
    · simp [Nat.ne_of_gt beyond, Nat.le_of_lt beyond, List.getElem?_append_right]
      omega
  · rw [if_neg (by omega), List.getElem?_eq_none (by simp; omega), List.getElem?_eq_none (by simp; omega)]

theorem charAt_drop (page : List (List α)) (above row col : Nat) :
    charAt (page.drop above) row col = charAt page (above + row) col := by
  rw [charAt, charAt, List.getElem?_drop]

/-- One of the rows of a line. -/
def rowOf (width : Nat) (line : List α) (row : Nat) : List α := (line.drop (row * width)).take width

/-- A row that the end of the line does not cut is the same in a longer line. -/
theorem rowOf_append {line : List α} {row : Nat} (full : (row + 1) * width ≤ line.length) (c : α) :
    rowOf width (line ++ [c]) row = rowOf width line row := by
  rw [Nat.succ_mul] at full
  rw [rowOf, List.drop_append_of_le_length (by omega), List.take_append_of_le_length, rowOf]
  rw [List.length_drop]
  omega

theorem rowsOf_eq {line : List α} {last : Nat} (count : (line.length - 1) / width = last) :
    rowsOf width line = (List.range last).map (rowOf width line) ++ [rowOf width line last] := by
  rw [rowsOf, count, List.range_succ, List.map_append, List.map_singleton]
  rfl

/-- A character that fits goes to the end of the last row. -/
theorem rowOf_concat {line : List α} {last : Nat} (low : last * width ≤ line.length)
    (high : line.length < last * width + width) (c : α) :
    rowOf width (line ++ [c]) last = rowOf width line last ++ [c] := by
  have whole : rowOf width line last = line.drop (last * width) := by
    apply List.take_of_length_le
    rw [List.length_drop]
    omega
  rw [whole, rowOf, List.drop_append_of_le_length low, List.take_of_length_le]
  simp only [List.length_append, List.length_drop, List.length_singleton]
  omega

/-- One more character goes to the end of the last row, or into a new row after it. -/
theorem rowsOf_concat (positive : 0 < width) (line : List α) (c : α) :
    ∃ init last, rowsOf width line = init ++ [last] ∧ last.length ≤ width ∧
      rowsOf width (line ++ [c]) = extend width init last c := by
  have low := Nat.div_mul_le_self (line.length - 1) width
  have high := Nat.lt_div_mul_add positive (a := line.length - 1)
  generalize count : (line.length - 1) / width = last at low high
  have earlier : (List.range last).map (rowOf width (line ++ [c])) =
      (List.range last).map (rowOf width line) := by
    apply List.map_congr_left
    intro row member
    have covered : (row + 1) * width ≤ last * width :=
      Nat.mul_le_mul_right width (List.mem_range.mp member)
    exact rowOf_append (by omega) c
  have longer : (line ++ [c]).length - 1 = line.length := by simp
  have length : (rowOf width line last).length = min width (line.length - last * width) := by
    rw [rowOf, List.length_take, List.length_drop]
  refine ⟨_, _, rowsOf_eq count, List.length_take_le _ _, ?_⟩
  unfold extend
  rw [length]
  split
  · next room =>
      have same : line.length / width = last :=
        Nat.div_eq_of_lt_le (by omega) (by rw [Nat.succ_mul]; omega)
      rw [rowsOf_eq (longer.symm ▸ same), earlier, rowOf_concat (by omega) (by omega)]
  · next full =>
      have filled : line.length = (last + 1) * width := by
        rw [Nat.succ_mul]
        omega
      have next : line.length / width = last + 1 := by rw [filled, Nat.mul_div_cancel _ positive]
      have fresh : rowOf width (line ++ [c]) (last + 1) = [c] := by
        rw [rowOf, ← filled, List.drop_left, List.take_of_length_le]
        exact positive
      rw [rowsOf_eq (longer.symm ▸ next), List.range_succ, List.map_append, List.map_singleton, earlier,
        rowOf_append (Nat.le_of_eq filled.symm), fresh, List.append_assoc]
      rfl

/-- A character that is no separator goes to the end of the last line. -/
theorem splitOn_concat [BEq α] {separator c : α} (other : (c == separator) = false)
    (text : List α) :
    ∃ init last, text.splitOn separator = init ++ [last] ∧
      (text ++ [c]).splitOn separator = init ++ [last ++ [c]] := by
  induction text with
  | nil => exact ⟨[], [], by simp, by simp [List.splitOn_cons_eq_if_modifyHead, other]⟩
  | cons x text ih =>
      obtain ⟨init, last, before, after⟩ := ih
      rw [List.cons_append, List.splitOn_cons_eq_if_modifyHead, List.splitOn_cons_eq_if_modifyHead,
        before, after]
      split
      · exact ⟨[] :: init, last, rfl, rfl⟩
      · cases init with
        | nil => exact ⟨[], x :: last, rfl, rfl⟩
        | cons first init => exact ⟨(x :: first) :: init, last, rfl, rfl⟩

variable [BEq α] [LawfulBEq α] {separator : α}

omit [LawfulBEq α] in
theorem rows_nil (width : Nat) (separator : α) : rows width separator [] = [[]] := by
  simp [rows, rowsOf]

/-- A separator starts a new row. -/
theorem rows_separator (width : Nat) (separator : α) (text : List α) :
    rows width separator (text ++ [separator]) = rows width separator text ++ [[]] := by
  rw [rows, List.splitOn_append_cons_self, List.flatMap_append]
  simp [rows, rowsOf]

/-- What any other character does to the rows of a text. -/
theorem rows_concat (positive : 0 < width) (text : List α) {c : α} (other : c ≠ separator) :
    ∃ init last, rows width separator text = init ++ [last] ∧ last.length ≤ width ∧
      rows width separator (text ++ [c]) = extend width init last c := by
  obtain ⟨lines, line, before, after⟩ := splitOn_concat (beq_eq_false_iff_ne.mpr other) text
  obtain ⟨init, last, rowsBefore, fits, rowsAfter⟩ := rowsOf_concat positive line c
  refine ⟨lines.flatMap (rowsOf width) ++ init, last, ?_, fits, ?_⟩
  · rw [rows, before, List.flatMap_append, List.flatMap_singleton, rowsBefore, List.append_assoc]
  · rw [rows, after, List.flatMap_append, List.flatMap_singleton, rowsAfter, extend_append]

end Layout
