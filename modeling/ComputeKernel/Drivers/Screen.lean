import ComputeKernel.Support.Finishes
import ComputeKernel.Support.Scrollback
import ComputeKernel.Drivers.Vga

/-! What the VGA writer shows. The screen is a window on a roll of paper: every
operation of the writer is one of the roll, and the roll carries the text. -/
namespace ComputeKernel.Vga
open Checked (Exec Finishes)
open Scrollback (Roll)

/-- Character and colour. -/
abbrev Cell : Type := UInt8 × UInt8

def address (row col : Nat) : Nat := vgaBufferAddr + (row * bufferWidth + col) * 2

theorem address_inj (r row : Nat) {c col : Nat} (inside : c < bufferWidth) (inColumn : col < bufferWidth) :
    address r c = address row col ↔ r = row ∧ c = col := by
  simp only [bufferWidth] at inside inColumn
  unfold address
  rw [bufferWidth]
  omega

theorem address_ne_succ (r c row col : Nat) : address r c ≠ address row col + 1 := by
  unfold address
  omega

namespace Writer

def cell (w : Writer) (row col : Nat) : Cell :=
  (w.memory (address row col), w.memory (address row col + 1))

/-- Two volatile byte writes. -/
def put (row col : Nat) (value : Cell) (w : Writer) : Writer :=
  (w.store (address row col) value.1).store (address row col + 1) value.2

section Cells

variable {w w' : Writer} {row col : Nat}

theorem cell_put (inColumn : col < bufferWidth) (value : Cell) (r : Nat) {c : Nat}
    (inside : c < bufferWidth) :
    (w.put row col value).cell r c = if r = row ∧ c = col then value else w.cell r c := by
  have same := address_inj r row inside inColumn
  have odd := address_ne_succ r c row col
  have even := address_ne_succ row col r c
  by_cases here : r = row ∧ c = col
  · simp [put, store, cell, here]
  · simp [put, store, cell, odd, Ne.symm even, same, here]

theorem cellAddr_run (inRow : row < bufferHeight) (inColumn : col < bufferWidth) (w : Writer) :
    cellAddr row col w = .done (address row col) w := by
  simp only [bufferHeight, bufferWidth] at inRow inColumn
  have start : row * bufferWidth < 2 ^ 64 := by
    simp only [bufferWidth]
    omega
  have place : row * bufferWidth + col < 2 ^ 64 := by
    simp only [bufferWidth]
    omega
  have offset : (row * bufferWidth + col) * 2 < 2 ^ 64 := by
    simp only [bufferWidth]
    omega
  have whole : vgaBufferAddr + (row * bufferWidth + col) * 2 < 2 ^ 64 := by
    simp only [bufferWidth, vgaBufferAddr]
    omega
  unfold cellAddr
  rw [Exec.bind_of_done (Exec.usizeMul_of_lt start w), Exec.bind_of_done (Exec.usizeAdd_of_lt place w),
    Exec.bind_of_done (Exec.usizeMul_of_lt offset w), Exec.usizeAdd_of_lt whole w]
  rfl

theorem writeCharAt_run (inRow : row < bufferHeight) (inColumn : col < bufferWidth)
    (ascii color : UInt8) (w : Writer) :
    writeCharAt row col ascii color w = .done () (w.put row col (ascii, color)) := by
  unfold writeCharAt
  rw [Exec.bind_of_done (cellAddr_run inRow inColumn w)]
  rfl

theorem writeRawAt_run (inRow : row < bufferHeight) (inColumn : col < bufferWidth) (value : Cell)
    (w : Writer) : writeRawAt row col value w = .done () (w.put row col value) := by
  unfold writeRawAt
  rw [Exec.bind_of_done (cellAddr_run inRow inColumn w)]
  rfl

theorem readCharAt_run (inRow : row < bufferHeight) (inColumn : col < bufferWidth) (w : Writer) :
    readCharAt row col w = .done (w.cell row col) w := by
  unfold readCharAt
  rw [Exec.bind_of_done (cellAddr_run inRow inColumn w)]
  rfl

/-- The writer differs from another one in its cells only. -/
structure Redrawn (w' w : Writer) (cells : Nat → Nat → Cell) : Prop where
  row : w'.row = w.row
  column : w'.columnPosition = w.columnPosition
  color : w'.colorCode = w.colorCode
  cells : ∀ row col, row < bufferHeight → col < bufferWidth → w'.cell row col = cells row col

/-- A pass over the screen in the order of its cells, when it has come to a cell. -/
def swept (new old : Nat → Nat → Cell) (row col : Nat) (r c : Nat) : Cell :=
  if r < row ∨ (r = row ∧ c < col) then new r c else old r c

theorem swept_succ (new old : Nat → Nat → Cell) (row col r c : Nat) :
    swept new old row (col + 1) r c = if r = row ∧ c = col then new row col else swept new old row col r c := by
  unfold swept
  by_cases here : r = row ∧ c = col
  · obtain ⟨rfl, rfl⟩ := here
    rw [if_pos (by omega), if_pos ⟨rfl, rfl⟩]
  · rw [if_neg here]
    split
    · rw [if_pos (by omega)]
    · rw [if_neg (by omega)]

variable {new old : Nat → Nat → Cell}

/-- One row of a pass. -/
theorem Redrawn.sweepRow {body : Nat → Exec Writer Unit}
    (h : w'.Redrawn w (swept new old row 0))
    (each : ∀ col w', col < bufferWidth → w'.Redrawn w (swept new old row col) →
      body col w' = .done () (w'.put row col (new row col))) :
    Finishes (Exec.forEach (List.range bufferWidth) body)
      (fun _ w' => w'.Redrawn w (swept new old (row + 1) 0)) w' := by
  rw [List.range_eq_range']
  have pass : Finishes (Exec.forEach (List.range' 0 bufferWidth) body)
      (fun _ w' => w'.Redrawn w (swept new old row (0 + bufferWidth))) w' := by
    refine Finishes.forRange (fun col (w' : Writer) => w'.Redrawn w (swept new old row col)) h ?_
    intro col _ inColumn w' h
    rw [Nat.zero_add] at inColumn
    refine ⟨(), _, each col w' inColumn h, h.row, h.column, h.color, ?_⟩
    intro r c onScreen inside
    rw [cell_put inColumn _ r inside, swept_succ, h.cells r c onScreen inside]
  refine Finishes.mono pass ?_
  intro _ w' h
  refine ⟨h.row, h.column, h.color, ?_⟩
  intro r c onScreen inside
  rw [h.cells r c onScreen inside]
  unfold swept
  split
  · rw [if_pos (by omega)]
  · rw [if_neg (by omega)]

/-- A pass over rows one after another. -/
theorem Redrawn.sweepRows {body : Nat → Nat → Exec Writer Unit} {first count : Nat}
    (h : w'.Redrawn w old)
    (each : ∀ row col w', row < count → col < bufferWidth → w'.Redrawn w (swept new old row col) →
      body (first + row) col w' = .done () (w'.put row col (new row col))) :
    Finishes (Exec.forEach (List.range' first count) (fun row =>
        Exec.forEach (List.range bufferWidth) (body row)))
      (fun _ w' => w'.Redrawn w (swept new old count 0)) w' := by
  have start : w'.Redrawn w (swept new old (first - first) 0) := by
    refine ⟨h.row, h.column, h.color, ?_⟩
    intro r c onScreen inside
    rw [h.cells r c onScreen inside, swept, if_neg (by omega)]
  have pass : Finishes (Exec.forEach (List.range' first count) (fun row =>
        Exec.forEach (List.range bufferWidth) (body row)))
      (fun _ w' => w'.Redrawn w (swept new old (first + count - first) 0)) w' := by
    refine Finishes.forRange (fun row (w' : Writer) => w'.Redrawn w (swept new old (row - first) 0)) start ?_
    intro row above below w' h
    have next : row + 1 - first = row - first + 1 := by omega
    rw [next]
    apply h.sweepRow
    intro col w' inColumn h
    have ran := each (row - first) col w' (by omega) inColumn h
    rwa [Nat.add_sub_cancel' above] at ran
  rwa [Nat.add_sub_cancel_left] at pass

/-- A blank cell of a colour. -/
def blank (color : UInt8) : Cell := (0x20, color)

/-- Every row moved up by one, and a blank last row. -/
def scrolled (w : Writer) (row col : Nat) : Cell :=
  if row < bufferHeight - 1 then w.cell (row + 1) col else blank w.colorCode

theorem scroll_redraws (w : Writer) : Finishes scroll (fun _ w' => w'.Redrawn w w.scrolled) w := by
  have same : w.Redrawn w w.cell := ⟨rfl, rfl, rfl, fun _ _ _ _ => rfl⟩
  have rowsUp : Finishes (Exec.forEach (List.range' 1 (bufferHeight - 1)) (fun row =>
        Exec.forEach (List.range bufferWidth) (fun col => do
          let ch ← readCharAt row col
          let above ← Exec.usizeSub row 1
          writeRawAt above col ch)))
      (fun _ w' => w'.Redrawn w (swept w.scrolled w.cell (bufferHeight - 1) 0)) w := by
    apply same.sweepRows
    intro row col w' inRows inColumn h
    have below : 1 + row < bufferHeight := by
      simp only [bufferHeight] at inRows ⊢
      omega
    -- The row below has not been written yet.
    have source : w'.cell (1 + row) col = w.scrolled row col := by
      rw [h.cells _ _ below inColumn, swept, if_neg (by omega), scrolled, if_pos inRows, Nat.add_comm]
    rw [Exec.bind_of_done (readCharAt_run below inColumn w'),
      Exec.bind_of_done (Exec.usizeSub_of_le (by omega) w'), Nat.add_sub_cancel_left,
      writeRawAt_run (by omega) inColumn, source]
  unfold scroll
  refine Finishes.andThen rowsUp ?_
  intro _ w' h
  have cleared : Finishes (Exec.forEach (List.range bufferWidth) (fun col => do
        let w ← Exec.get
        writeCharAt (bufferHeight - 1) col 0x20 w.colorCode))
      (fun _ w' => w'.Redrawn w (swept w.scrolled w.cell (bufferHeight - 1 + 1) 0)) w' := by
    apply h.sweepRow
    intro col w' inColumn h
    rw [Exec.get_bind, writeCharAt_run (by decide) inColumn, h.color]
    rfl
  refine Finishes.mono cleared ?_
  intro _ w' h
  refine ⟨h.row, h.column, h.color, ?_⟩
  intro row col inRow inColumn
  have last : row < bufferHeight - 1 + 1 := inRow
  rw [h.cells row col inRow inColumn, swept, if_pos (Or.inl last)]

/-- `clear` blanks every cell and sends the cursor home. -/
theorem clear_redraws (w : Writer) :
    Finishes clear (fun _ w' => w'.Redrawn { w with row := 0, columnPosition := 0 }
      (fun _ _ => blank w.colorCode)) w := by
  have same : w.Redrawn w w.cell := ⟨rfl, rfl, rfl, fun _ _ _ _ => rfl⟩
  have blanked : Finishes (Exec.forEach (List.range' 0 bufferHeight) (fun row =>
        Exec.forEach (List.range bufferWidth) (fun col => do
          let w ← Exec.get
          writeCharAt row col 0x20 w.colorCode)))
      (fun _ w' => w'.Redrawn w (swept (fun _ _ => blank w.colorCode) w.cell bufferHeight 0)) w := by
    apply same.sweepRows
    intro row col w' inRows inColumn h
    rw [Exec.get_bind, Nat.zero_add, writeCharAt_run inRows inColumn, h.color]
    rfl
  unfold clear
  rw [List.range_eq_range']
  refine Finishes.andThen blanked ?_
  intro _ w' h
  refine ⟨(), _, rfl, rfl, rfl, h.color, ?_⟩
  intro row col inRow inColumn
  change w'.cell row col = _
  rw [h.cells row col inRow inColumn, swept, if_pos (Or.inl inRow)]

end Cells

/-- The screen shows the part of a roll that starts at its top row. -/
structure Prints (color : UInt8) (r : Roll Cell) (w : Writer) : Prop extends OnScreen w where
  color : w.colorCode = color
  line : r.line = r.top + w.row
  cursor : r.column = w.columnPosition
  cells : ∀ row col, row < bufferHeight → col < bufferWidth →
    w.cell row col = r.ink (r.top + row) col

section Refinement

variable {color : UInt8} {r : Roll Cell} {w : Writer}

theorem Prints.of_clear (w : Writer) :
    Finishes clear (fun _ w' => w'.Prints w.colorCode (Roll.home (blank w.colorCode))) w := by
  refine Finishes.mono (clear_redraws w) ?_
  intro _ w' h
  have home : w'.row = 0 ∧ w'.columnPosition = 0 := ⟨h.row, h.column⟩
  refine ⟨⟨?_, ?_⟩, h.color, ?_, home.2.symm, h.cells⟩
  · rw [home.1]
    decide
  · rw [home.2]
    decide
  · rw [home.1]
    rfl

/-- Above the last row, a line feed moves the cursor down and redraws nothing. -/
theorem Prints.feed_down (h : w.Prints color r) (inside : w.row < bufferHeight - 1) :
    ({ w with columnPosition := 0, row := w.row + 1 } : Writer).Prints color
      (r.feed bufferHeight (blank color)) := by
  have line := h.line
  unfold Roll.feed
  rw [if_pos (by omega)]
  refine ⟨⟨?_, Nat.zero_le _⟩, h.color, ?_, rfl, h.cells⟩
  · change w.row + 1 < bufferHeight
    omega
  · change r.line + 1 = r.top + (w.row + 1)
    omega

/-- On the last row, a line feed leaves the cursor there and moves the screen down the
roll by one line. -/
theorem Prints.feed_scroll {w' : Writer} (h : w.Prints color r)
    (last : ¬w.row < bufferHeight - 1)
    (redrawn : w'.Redrawn { w with columnPosition := 0 } (scrolled { w with columnPosition := 0 })) :
    w'.Prints color (r.feed bufferHeight (blank color)) := by
  have onScreen := h.row
  have line := h.line
  have row : w'.row = w.row := redrawn.row
  unfold Roll.feed
  rw [if_neg (by omega)]
  refine ⟨⟨by omega, ?_⟩, redrawn.color.trans h.color, ?_, redrawn.column.symm, ?_⟩
  · rw [redrawn.column]
    exact Nat.zero_le _
  · change r.line + 1 = r.top + 1 + w'.row
    omega
  · intro row col inRow inColumn
    rw [redrawn.cells row col inRow inColumn]
    unfold scrolled
    dsimp only
    split
    · next inside =>
        rw [if_neg (by omega), Nat.add_right_comm, Nat.add_assoc]
        exact h.cells (row + 1) col (by omega) inColumn
    · next beyond =>
        rw [if_pos (by omega), ← h.color]

theorem newLine_prints (h : w.Prints color r) :
    Finishes newLine (fun _ w' => w'.Prints color (r.feed bufferHeight (blank color))) w := by
  unfold newLine
  refine Finishes.bind (Finishes.modify (Finishes.bind (Finishes.get ?_)))
  split
  · next inside =>
      change w.row < bufferHeight - 1 at inside
      refine Finishes.bind (Finishes.of_done (Exec.usizeAdd_of_lt ?_ _) (Finishes.modify ?_))
      · simp only [bufferHeight] at inside
        change w.row + 1 < 2 ^ 64
        omega
      · exact h.feed_down inside
  · next last =>
      apply Finishes.mono (scroll_redraws _)
      intro _ w' redrawn
      exact h.feed_scroll last redrawn

theorem wrapLine_prints (h : w.Prints color r) :
    Finishes wrapLine (fun _ w' => w'.Prints color (r.wrap bufferWidth bufferHeight (blank color)) ∧
      w'.columnPosition < bufferWidth) w := by
  unfold wrapLine Roll.wrap
  rw [h.cursor]
  refine Finishes.bind (Finishes.get ?_)
  split
  · refine Finishes.mono (newLine_prints h) ?_
    intro _ w' printed
    refine ⟨printed, ?_⟩
    rw [← printed.cursor, Roll.feed_column]
    decide
  · next inside => exact Finishes.ret ⟨h, by omega⟩

/-- A byte other than a newline is printed at the cursor. -/
theorem writeByte_prints (h : w.Prints color r) {byte : UInt8} (other : byte ≠ 0x0a) :
    Finishes (writeByte byte) (fun _ w' => w'.Prints color
      (r.print bufferWidth bufferHeight (blank color) (byte, color))) w := by
  unfold writeByte
  rw [if_neg other]
  refine Finishes.andThen (wrapLine_prints h) ?_
  intro _ w' wrapped
  obtain ⟨printed, inColumn⟩ := wrapped
  have short : w'.columnPosition + 1 < 2 ^ 64 := by
    simp only [bufferWidth] at inColumn
    omega
  rw [Finishes, Exec.get_bind, Exec.bind_of_done (writeCharAt_run printed.row inColumn byte _ w'),
    Exec.bind_of_done (Exec.usizeAdd_of_lt short _)]
  refine ⟨(), _, rfl, ⟨printed.row, inColumn⟩, printed.color, printed.line, ?_, ?_⟩
  · exact congrArg (fun column => column + 1) printed.cursor
  · intro row col inRow inside
    change (w'.put w'.row w'.columnPosition (byte, w'.colorCode)).cell row col = _
    rw [cell_put inColumn _ row inside, printed.color, printed.cells row col inRow inside]
    unfold Roll.print Roll.put
    rw [printed.line, printed.cursor]
    dsimp only
    split
    · next here => rw [if_pos ⟨by omega, here.2⟩]
    · next elsewhere => rw [if_neg (by omega)]

theorem backspace_prints (h : w.Prints color r) :
    Finishes backspace (fun _ w' => w'.Prints color (r.erase (blank color))) w := by
  unfold backspace Roll.erase
  rw [h.cursor, Finishes, Exec.get_bind]
  split
  · next behind =>
      have column := h.column
      have inColumn : w.columnPosition - 1 < bufferWidth := by omega
      rw [Exec.bind_of_done (Exec.usizeSub_of_le behind w), Exec.modify_bind,
        writeCharAt_run h.row inColumn]
      refine ⟨(), _, rfl, ⟨h.row, Nat.le_of_lt inColumn⟩, h.color, h.line, rfl, ?_⟩
      intro row col inRow inside
      rw [cell_put inColumn _ row inside, h.line, h.color]
      dsimp only
      split
      · next here => rw [if_pos ⟨by omega, here.2⟩]; rfl
      · next elsewhere =>
          rw [if_neg (by omega)]
          exact h.cells row col inRow inside
  · exact ⟨(), w, rfl, h⟩

theorem setColor_prints (h : w.Prints color r) (fg bg : Color) :
    Finishes (setColor fg bg) (fun _ w' => w'.Prints (colorCodeNew fg.code bg.code) r) w :=
  Finishes.modify ⟨⟨h.row, h.column⟩, rfl, h.line, h.cursor, h.cells⟩

/-- The character that `write_string` shows for a byte. -/
def glyph (byte : UInt8) : UInt8 :=
  if (0x20 ≤ byte ∧ byte ≤ 0x7e) ∨ byte = 0x0a then byte else 0xFE

/-- A character of a text comes to the roll. -/
def enterChar (color : UInt8) (r : Roll Cell) (char : UInt8) : Roll Cell :=
  r.enter bufferWidth bufferHeight (blank color) 0x0a (fun char => (char, color)) char

theorem writeChar_prints (h : w.Prints color r) (char : UInt8) :
    Finishes (writeByte char) (fun _ w' => w'.Prints color (enterChar color r char)) w := by
  unfold enterChar Roll.enter
  split
  · next newline =>
      rw [writeByte, if_pos newline]
      exact newLine_prints h
  · next other => exact writeByte_prints h other

theorem writeString_prints (h : w.Prints color r) (bytes : List UInt8) :
    Finishes (writeString bytes)
      (fun _ w' => w'.Prints color ((bytes.map glyph).foldl (enterChar color) r)) w := by
  induction bytes generalizing w r with
  | nil => exact Finishes.ret h
  | cons byte bytes ih =>
      have shown : (if (0x20 ≤ byte ∧ byte ≤ 0x7e) ∨ byte = 0x0a then writeByte byte
          else writeByte 0xFE) = writeByte (glyph byte) := by
        unfold glyph
        split
        · rfl
        · rfl
      change Finishes ((if (0x20 ≤ byte ∧ byte ≤ 0x7e) ∨ byte = 0x0a then writeByte byte
          else writeByte 0xFE) >>= fun _ => writeString bytes) _ w
      rw [shown]
      refine Finishes.andThen (writeChar_prints h (glyph byte)) ?_
      intro _ w' printed
      exact ih printed

theorem writePieces_prints (h : w.Prints color r) (pieces : List (List UInt8)) :
    Finishes (Exec.forEach pieces writeString)
      (fun _ w' => w'.Prints color ((pieces.flatten.map glyph).foldl (enterChar color) r)) w := by
  induction pieces generalizing w r with
  | nil => exact Finishes.ret h
  | cons piece pieces ih =>
      rw [List.flatten_cons, List.map_append, List.foldl_append]
      refine Finishes.andThen (writeString_prints h piece) ?_
      intro _ w' printed
      exact ih printed

/-- The roll that starts at the top of the screen. -/
def roll (w : Writer) : Roll Cell :=
  { top := 0
    line := w.row
    column := w.columnPosition
    ink := w.cell }

theorem OnScreen.prints (h : w.OnScreen) : w.Prints w.colorCode w.roll where
  toOnScreen := h
  color := rfl
  line := (Nat.zero_add w.row).symm
  cursor := rfl
  cells := by
    intro row col _ _
    change w.cell row col = w.cell (0 + row) col
    rw [Nat.zero_add]

/-- The code returns and leaves the cursor on the screen. -/
def Keeps (m : Exec Writer Unit) : Prop :=
  ∀ w, w.OnScreen → Finishes m (fun _ w' => w'.OnScreen) w

theorem Keeps.andThen {m : Exec Writer Unit} {next : Unit → Exec Writer Unit} (first : Keeps m)
    (rest : Keeps (next ())) : Keeps (m >>= next) :=
  fun w h => Finishes.andThen (first w h) (fun _ w' h' => rest w' h')

theorem Keeps.forEach {ι : Type} {items : List ι} {body : ι → Exec Writer Unit}
    (each : ∀ item, Keeps (body item)) : Keeps (Exec.forEach items body) :=
  fun _ h => Finishes.forEach h (fun item _ w h => each item w h)

theorem writeByte_keeps (byte : UInt8) : Keeps (writeByte byte) :=
  fun _ h => Finishes.mono (writeChar_prints h.prints byte) (fun _ _ printed => printed.toOnScreen)

theorem writeString_keeps (bytes : List UInt8) : Keeps (writeString bytes) :=
  fun _ h => Finishes.mono (writeString_prints h.prints bytes) (fun _ _ printed => printed.toOnScreen)

theorem clear_keeps : Keeps clear :=
  fun w _ => Finishes.mono (Prints.of_clear w) (fun _ _ printed => printed.toOnScreen)

theorem backspace_keeps : Keeps backspace :=
  fun _ h => Finishes.mono (backspace_prints h.prints) (fun _ _ printed => printed.toOnScreen)

theorem setColor_keeps (fg bg : Color) : Keeps (setColor fg bg) :=
  fun _ h => Finishes.mono (setColor_prints h.prints fg bg) (fun _ _ printed => printed.toOnScreen)

/-- The states that the public operations lead to. -/
inductive Reachable : Writer → Prop
  | initial (memory : Nat → UInt8) : Reachable (initial memory)
  | writeByte {w w' : Writer} (byte : UInt8) (before : Reachable w)
      (ran : writeByte byte w = .done () w') : Reachable w'
  | writeString {w w' : Writer} (bytes : List UInt8) (before : Reachable w)
      (ran : writeString bytes w = .done () w') : Reachable w'
  | clear {w w' : Writer} (before : Reachable w) (ran : clear w = .done () w') : Reachable w'
  | backspace {w w' : Writer} (before : Reachable w) (ran : backspace w = .done () w') : Reachable w'
  | setColor {w w' : Writer} (fg bg : Color) (before : Reachable w)
      (ran : setColor fg bg w = .done () w') : Reachable w'

theorem Reachable.onScreen (h : w.Reachable) : w.OnScreen := by
  induction h with
  | initial memory => exact initial_onScreen memory
  | writeByte byte before ran ih => exact (writeByte_keeps byte _ ih).done ran
  | writeString bytes before ran ih => exact (writeString_keeps bytes _ ih).done ran
  | clear before ran ih => exact (clear_keeps _ ih).done ran
  | backspace before ran ih => exact (backspace_keeps _ ih).done ran
  | setColor fg bg before ran ih => exact (setColor_keeps fg bg _ ih).done ran

end Refinement

/-- The rows of a text in the reference layout, of which the screen shows the last ones. -/
def visible (text : List UInt8) : List (List UInt8) :=
  let page := Layout.rows bufferWidth 0x0a (text.map glyph)
  page.drop (page.length - bufferHeight)

/-- The screen and the cursor are those of the reference layout, on a background that
was cleared in some colour. -/
structure ShowsText (w : Writer) (cleared color : UInt8) (text : List UInt8) : Prop where
  cells : ∀ row col, row < bufferHeight → col < bufferWidth →
    match Layout.charAt (visible text) row col with
    | some char => w.cell row col = (char, color)
    | none => w.cell row col = blank cleared ∨ w.cell row col = blank color
  row : w.row + 1 = (visible text).length
  column : (visible text).getLast?.map List.length = some w.columnPosition

theorem Prints.showsText {cleared color : UInt8} {r : Roll Cell} {w : Writer} {text : List UInt8}
    (h : w.Prints color r)
    (laid : r.Laid bufferHeight (fun char => (char, color))
      (fun cell => cell = blank cleared ∨ cell = blank color)
      (Layout.rows bufferWidth 0x0a (text.map glyph))) : w.ShowsText cleared color text := by
  have line := laid.line
  have top := laid.top
  have cursor := h.line
  constructor
  · intro row col inRow inColumn
    have shown := laid.ink (r.top + row) col (by omega)
    rw [← h.cells row col inRow inColumn, top, ← Layout.charAt_drop] at shown
    unfold visible
    dsimp only
    cases here : Layout.charAt ((Layout.rows bufferWidth 0x0a (text.map glyph)).drop
        ((Layout.rows bufferWidth 0x0a (text.map glyph)).length - bufferHeight)) row col with
    | some char => rwa [here] at shown
    | none => rwa [here] at shown
  · rw [visible, List.length_drop]
    omega
  · have column := laid.column
    have inRow := h.row
    rw [h.cursor] at column
    rw [visible, List.getLast?_drop, if_neg (by omega)]
    exact column

/-- After `clear`, and a change of the colour if there is one, any text written in any
pieces is shown as in the reference layout. -/
theorem tail_of_text_shown (w : Writer) (recolor : Option (Color × Color))
    (pieces : List (List UInt8)) :
    Finishes (do
        clear
        Exec.forEach recolor.toList (fun (fg, bg) => setColor fg bg)
        Exec.forEach pieces writeString)
      (fun _ w' => w'.ShowsText w.colorCode w'.colorCode pieces.flatten ∧
        w'.colorCode = (recolor.map (fun (fg, bg) => colorCodeNew fg.code bg.code)).getD w.colorCode)
      w := by
  have start (color : UInt8) : (Roll.home (blank w.colorCode)).Laid bufferHeight
      (fun char => (char, color)) (fun cell => cell = blank w.colorCode ∨ cell = blank color)
      (Layout.rows bufferWidth 0x0a []) := by
    rw [Layout.rows_nil]
    exact Roll.home_laid (by decide) (Or.inl rfl)
  have written (color : UInt8) (w' : Writer) (h : w'.Prints color (Roll.home (blank w.colorCode))) :
      Finishes (Exec.forEach pieces writeString) (fun _ w' =>
        w'.ShowsText w.colorCode w'.colorCode pieces.flatten ∧ w'.colorCode = color) w' := by
    refine Finishes.mono (writePieces_prints h pieces) ?_
    intro _ w' printed
    have laid : ((pieces.flatten.map glyph).foldl (enterChar color)
        (Roll.home (blank w.colorCode))).Laid bufferHeight (fun char => (char, color))
        (fun cell => cell = blank w.colorCode ∨ cell = blank color)
        (Layout.rows bufferWidth 0x0a (pieces.flatten.map glyph)) :=
      (start color).enterAll (by decide) (Or.inr rfl) (pieces.flatten.map glyph)
    rw [printed.color]
    exact ⟨printed.showsText laid, rfl⟩
  refine Finishes.andThen (Prints.of_clear w) ?_
  intro _ w' home
  cases recolor with
  | none => exact written w.colorCode w' home
  | some colors =>
      obtain ⟨fg, bg⟩ := colors
      refine Finishes.bind (Finishes.bind (Finishes.mono (setColor_prints home fg bg) ?_))
      intro _ w' recolored
      exact Finishes.ret (written _ w' recolored)

end Writer
end ComputeKernel.Vga
