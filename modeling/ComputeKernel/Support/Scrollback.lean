import ComputeKernel.Support.Layout

/-! A text screen as a window on an unbounded roll of paper. Rows keep their number on
the roll when the screen scrolls, so that what was printed stays where it is. -/
namespace Scrollback

variable {α β : Type} {width height : Nat} {blank : α}

/-- `top` is the first row on the screen. -/
structure Roll (α : Type) where
  top : Nat
  line : Nat
  column : Nat
  ink : Nat → Nat → α

namespace Roll

/-- An empty roll. -/
def home (blank : α) : Roll α :=
  { top := 0
    line := 0
    column := 0
    ink := fun _ _ => blank }

/-- The start of the next row. A row that comes onto the screen is blank. -/
def feed (height : Nat) (blank : α) (r : Roll α) : Roll α :=
  if r.line + 1 < r.top + height then { r with line := r.line + 1, column := 0 }
  else
    { top := r.top + 1
      line := r.line + 1
      column := 0
      ink := fun row col => if r.top + height ≤ row then blank else r.ink row col }

def put (cell : α) (r : Roll α) : Roll α :=
  { r with
    column := r.column + 1
    ink := fun row col => if row = r.line ∧ col = r.column then cell else r.ink row col }

def wrap (width height : Nat) (blank : α) (r : Roll α) : Roll α :=
  if width ≤ r.column then r.feed height blank else r

/-- A cell printed at the cursor, in the next row if this one is full. -/
def print (width height : Nat) (blank cell : α) (r : Roll α) : Roll α :=
  (r.wrap width height blank).put cell

/-- The cell before the cursor blanked, if the cursor has one in its row. -/
def erase (blank : α) (r : Roll α) : Roll α :=
  if 0 < r.column then
    { r with
      column := r.column - 1
      ink := fun row col => if row = r.line ∧ col = r.column - 1 then blank else r.ink row col }
  else r

/-- A character of a text, where the separator ends a line. -/
def enter [DecidableEq β] (width height : Nat) (blank : α) (separator : β) (render : β → α)
    (r : Roll α) (c : β) : Roll α :=
  if c = separator then r.feed height blank else r.print width height blank (render c)

/-- What is shown at the place of a character, and where there is none. -/
def Shows (render : β → α) (Blank : α → Prop) : Option β → α → Prop
  | some c, cell => cell = render c
  | none, cell => Blank cell

/-- The roll carries a page, and the screen is as far down as the page needs. -/
structure Laid (height : Nat) (render : β → α) (Blank : α → Prop) (page : List (List β))
    (r : Roll α) : Prop where
  line : r.line + 1 = page.length
  column : page.getLast?.map List.length = some r.column
  top : r.top = page.length - height
  ink : ∀ row col, row < r.top + height →
    Shows render Blank (Layout.charAt page row col) (r.ink row col)

@[simp] theorem feed_column (r : Roll α) : (r.feed height blank).column = 0 := by
  unfold feed
  split
  · rfl
  · rfl

variable {render : β → α} {Blank : α → Prop} {page : List (List β)} {r : Roll α}

theorem home_laid (positive : 0 < height) (isBlank : Blank blank) :
    (home blank).Laid height render Blank [[]] where
  line := rfl
  column := rfl
  top := by
    change 0 = 1 - height
    omega
  ink := by
    intro row col _
    have nothing : Layout.charAt [([] : List β)] row col = none := Layout.charAt_newRow [] row col
    rw [nothing]
    exact isBlank

theorem Laid.feed (h : r.Laid height render Blank page) (isBlank : Blank blank) :
    (r.feed height blank).Laid height render Blank (page ++ [[]]) := by
  have line := h.line
  have top := h.top
  have ink := h.ink
  unfold Roll.feed
  split
  · next inside =>
      constructor
      · simpa using line
      · simp
      · simp only [List.length_append, List.length_singleton]
        omega
      · intro row col onScreen
        rw [Layout.charAt_newRow]
        exact ink row col onScreen
  · next below =>
      constructor
      · simpa using line
      · simp
      · simp only [List.length_append, List.length_singleton]
        omega
      · intro row col onScreen
        rw [Layout.charAt_newRow]
        dsimp only at onScreen ⊢
        split
        · next fresh =>
            have nothing : page[row]? = none := List.getElem?_eq_none (by omega)
            rw [Layout.charAt, nothing]
            exact isBlank
        · exact ink row col (by omega)

theorem Laid.put {init : List (List β)} {last : List β} (h : r.Laid height render Blank (init ++ [last]))
    (c : β) : (r.put (render c)).Laid height render Blank (init ++ [last ++ [c]]) := by
  have line : r.line = init.length := by simpa using h.line
  have column : last.length = r.column := by simpa using h.column
  constructor
  · simp [Roll.put, line]
  · simp [Roll.put, column]
  · simpa [Roll.put] using h.top
  · intro row col onScreen
    rw [Layout.charAt_concat, ← line, column]
    unfold Roll.put
    dsimp only
    split
    · rfl
    · exact h.ink row col onScreen

/-- Printing a character extends the page by it. -/
theorem Laid.print {init : List (List β)} {last : List β}
    (h : r.Laid height render Blank (init ++ [last])) (isBlank : Blank blank) (c : β) :
    (r.print width height blank (render c)).Laid height render Blank
      (Layout.extend width init last c) := by
  have column : last.length = r.column := by simpa using h.column
  unfold Roll.print Roll.wrap Layout.extend
  rw [column]
  by_cases full : width ≤ r.column
  · have fed : Laid height render Blank ((init ++ [last]) ++ [[]]) (r.feed height blank) :=
      h.feed isBlank
    have printed := fed.put c
    rw [List.append_assoc] at printed
    rw [if_pos full, if_neg (by omega)]
    exact printed
  · rw [if_neg full, if_pos (by omega)]
    exact h.put c

section ReadingOrder

/-- Where the cursor stands when the cells are read row by row. -/
def position (width : Nat) (r : Roll α) : Nat := r.line * width + r.column

def inkAt (width : Nat) (r : Roll α) (place : Nat) : α := r.ink (place / width) (place % width)

theorem place_iff (line place : Nat) {column : Nat} (inside : column < width) :
    place / width = line ∧ place % width = column ↔ place = line * width + column := by
  constructor
  · rintro ⟨rfl, rfl⟩
    exact (Nat.div_add_mod' place width).symm
  · rintro rfl
    rw [Nat.add_comm]
    constructor
    · rw [Nat.add_mul_div_right _ _ (by omega), Nat.div_eq_of_lt inside, Nat.zero_add]
    · rw [Nat.add_mul_mod_self_right, Nat.mod_eq_of_lt inside]

@[simp] theorem feed_line (r : Roll α) : (r.feed height blank).line = r.line + 1 := by
  unfold feed
  split
  · rfl
  · rfl

theorem feed_ink {row : Nat} (onScreen : row < r.top + height) (col : Nat) :
    (r.feed height blank).ink row col = r.ink row col := by
  unfold feed
  split
  · rfl
  · dsimp only
    rw [if_neg (by omega)]

/-- Printing goes on to the next place, in the row or behind its end. -/
theorem print_position (fits : r.column ≤ width) (cell : α) :
    (r.print width height blank cell).position width = r.position width + 1 := by
  unfold print wrap position put
  split
  · simp only [feed_line, feed_column, Nat.succ_mul]
    omega
  · rfl

/-- What was on the screen before stays where it is on the roll. -/
theorem print_inkAt_of_ne (fits : r.column ≤ width) (positive : 0 < width) (cell : α) {place : Nat}
    (onScreen : place < (r.top + height) * width) (other : place ≠ r.position width) :
    (r.print width height blank cell).inkAt width place = r.inkAt width place := by
  have row : place / width < r.top + height := (Nat.div_lt_iff_lt_mul positive).mpr onScreen
  unfold position at other
  unfold print wrap inkAt put
  split
  · next full =>
      have elsewhere : place ≠ (r.line + 1) * width + 0 := by
        rw [Nat.succ_mul]
        omega
      simp only [feed_line, feed_column, place_iff (r.line + 1) place positive, if_neg elsewhere,
        feed_ink row]
  · next room => simp only [place_iff r.line place (Nat.lt_of_not_le room), if_neg other]

theorem print_inkAt_position (fits : r.column ≤ width) (positive : 0 < width) (cell : α) :
    (r.print width height blank cell).inkAt width (r.position width) = cell := by
  unfold print wrap inkAt put position
  split
  · next full =>
      have here : r.line * width + r.column = (r.line + 1) * width + 0 := by
        rw [Nat.succ_mul]
        omega
      simp only [feed_line, feed_column, place_iff (r.line + 1) _ positive, here, if_true]
  · next room => simp only [place_iff r.line _ (Nat.lt_of_not_le room), if_true]

/-- Only printing behind the end of the last row moves the screen. -/
theorem print_top (r : Roll α) (cell : α) :
    (r.print width height blank cell).top =
      r.top + if width ≤ r.column ∧ r.top + height ≤ r.line + 1 then 1 else 0 := by
  unfold print wrap put feed
  by_cases full : width ≤ r.column
  · rw [if_pos full]
    split
    · rw [if_neg (by omega)]
      rfl
    · rw [if_pos (by omega)]
  · rw [if_neg full, if_neg (by omega)]
    rfl

theorem erase_position (behind : 0 < r.column) :
    (r.erase blank).position width + 1 = r.position width := by
  unfold erase position
  rw [if_pos behind]
  dsimp only
  omega

theorem erase_inkAt (behind : 0 < r.column) (fits : r.column ≤ width) (place : Nat) :
    (r.erase blank).inkAt width place =
      if place + 1 = r.position width then blank else r.inkAt width place := by
  have here := place_iff r.line place (by omega : r.column - 1 < width)
  unfold erase inkAt position
  rw [if_pos behind]
  simp only [here]
  have same : place = r.line * width + (r.column - 1) ↔ place + 1 = r.line * width + r.column := by
    omega
  simp only [same]

end ReadingOrder

variable [DecidableEq β] {separator : β} {text : List β}

theorem Laid.enter (h : r.Laid height render Blank (Layout.rows width separator text))
    (positive : 0 < width) (isBlank : Blank blank) (c : β) :
    (r.enter width height blank separator render c).Laid height render Blank
      (Layout.rows width separator (text ++ [c])) := by
  unfold Roll.enter
  split
  · next isSeparator =>
      subst isSeparator
      rw [Layout.rows_separator]
      exact h.feed isBlank
  · next other =>
      obtain ⟨init, last, before, _, after⟩ := Layout.rows_concat positive text other
      rw [before] at h
      rw [after]
      exact h.print isBlank c

/-- A roll that is given a text carries the rows of the text. -/
theorem Laid.enterAll (h : r.Laid height render Blank (Layout.rows width separator text))
    (positive : 0 < width) (isBlank : Blank blank) (more : List β) :
    (more.foldl (Roll.enter width height blank separator render) r).Laid height render Blank
      (Layout.rows width separator (text ++ more)) := by
  induction more generalizing r text with
  | nil =>
      rw [List.append_nil]
      exact h
  | cons c more ih =>
      have entered := ih (h.enter positive isBlank c)
      rw [List.append_assoc] at entered
      exact entered

end Roll

end Scrollback
