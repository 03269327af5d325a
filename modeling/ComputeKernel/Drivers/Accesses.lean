import ComputeKernel.Support.Simulation
import ComputeKernel.Drivers.Screen

/-! The accesses of the VGA writer to its text buffer. Its code is written out once more
over a state that records the cells asked for; without the record it is the writer, and
the record shows that no cell lies outside the screen. -/
namespace ComputeKernel.Vga
open Checked (Exec Finishes Simulated)

/-- The writer, with the row and the column of every cell access made so far. -/
structure Logged where
  writer : Writer
  accesses : List (Nat × Nat)

namespace Logged

def start (memory : Nat → UInt8) : Logged :=
  { writer := initial memory
    accesses := [] }

/-- Code that leaves the text buffer alone. -/
def onWriter (m : Exec Writer α) : Exec Logged α :=
  m.zoom writer (fun writer l => { l with writer })

/-- Code that uses one cell of the text buffer. -/
def access (row col : Nat) (m : Exec Writer α) : Exec Logged α := do
  Exec.modify (fun l => { l with accesses := l.accesses ++ [(row, col)] })
  onWriter m

def writeCharAt (row col : Nat) (ascii color : UInt8) : Exec Logged Unit :=
  access row col (Writer.writeCharAt row col ascii color)

def writeRawAt (row col : Nat) (cell : UInt8 × UInt8) : Exec Logged Unit :=
  access row col (Writer.writeRawAt row col cell)

def readCharAt (row col : Nat) : Exec Logged (UInt8 × UInt8) :=
  access row col (Writer.readCharAt row col)

def scroll : Exec Logged Unit := do
  Exec.forEach (List.range' 1 (bufferHeight - 1)) (fun row =>
    Exec.forEach (List.range bufferWidth) (fun col => do
      let ch ← readCharAt row col
      let above ← onWriter (Exec.usizeSub row 1)
      writeRawAt above col ch))
  Exec.forEach (List.range bufferWidth) (fun col => do
    let w ← onWriter Exec.get
    writeCharAt (bufferHeight - 1) col 0x20 w.colorCode)

def newLine : Exec Logged Unit := do
  onWriter (Exec.modify (fun w => { w with columnPosition := 0 }))
  let w ← onWriter Exec.get
  if w.row < bufferHeight - 1 then do
    let row ← onWriter (Exec.usizeAdd w.row 1)
    onWriter (Exec.modify (fun w => { w with row }))
  else scroll

def wrapLine : Exec Logged Unit := do
  let w ← onWriter Exec.get
  if w.columnPosition ≥ bufferWidth then newLine else Exec.ret ()

def writeByte (byte : UInt8) : Exec Logged Unit :=
  if byte = 0x0a then newLine
  else do
    wrapLine
    let w ← onWriter Exec.get
    writeCharAt w.row w.columnPosition byte w.colorCode
    let column ← onWriter (Exec.usizeAdd w.columnPosition 1)
    onWriter (Exec.modify (fun w => { w with columnPosition := column }))

def writeString (bytes : List UInt8) : Exec Logged Unit :=
  Exec.forEach bytes (fun byte =>
    if (0x20 ≤ byte ∧ byte ≤ 0x7e) ∨ byte = 0x0a then writeByte byte else writeByte 0xFE)

def clear : Exec Logged Unit := do
  Exec.forEach (List.range bufferHeight) (fun row =>
    Exec.forEach (List.range bufferWidth) (fun col => do
      let w ← onWriter Exec.get
      writeCharAt row col 0x20 w.colorCode))
  onWriter (Exec.modify (fun w => { w with row := 0 }))
  onWriter (Exec.modify (fun w => { w with columnPosition := 0 }))

def backspace : Exec Logged Unit := do
  let w ← onWriter Exec.get
  if w.columnPosition > 0 then do
    let column ← onWriter (Exec.usizeSub w.columnPosition 1)
    onWriter (Exec.modify (fun w => { w with columnPosition := column }))
    writeCharAt w.row column 0x20 w.colorCode
  else Exec.ret ()

def setColor (fg bg : Color) : Exec Logged Unit := onWriter (Writer.setColor fg bg)

end Logged

/-- The public operations of the writer. -/
inductive WriterCall where
  | writeByte (byte : UInt8)
  | writeString (bytes : List UInt8)
  | backspace
  | clear
  | setColor (fg bg : Color)
  deriving DecidableEq, Repr

def Writer.call : WriterCall → Exec Writer Unit
  | .writeByte byte => writeByte byte
  | .writeString bytes => writeString bytes
  | .backspace => backspace
  | .clear => clear
  | .setColor fg bg => setColor fg bg

def Logged.call : WriterCall → Exec Logged Unit
  | .writeByte byte => writeByte byte
  | .writeString bytes => writeString bytes
  | .backspace => backspace
  | .clear => clear
  | .setColor fg bg => setColor fg bg

namespace Logged

section Erasure

/-- Without its record the code is the code of the writer. -/
def Erases (m : Exec Logged α) (n : Exec Writer α) : Prop :=
  ∀ l w, l.writer = w → Simulated (fun l w => l.writer = w) m n l w

theorem Erases.bind {m : Exec Logged α} {n : Exec Writer α} {f : α → Exec Logged β}
    {g : α → Exec Writer β} (first : Erases m n) (next : ∀ a, Erases (f a) (g a)) :
    Erases (m >>= f) (n >>= g) :=
  fun l w same => Simulated.bind (first l w same) (fun a l' w' same' => next a l' w' same')

theorem Erases.forEach {items : List ι} {f : ι → Exec Logged Unit} {g : ι → Exec Writer Unit}
    (each : ∀ item, Erases (f item) (g item)) :
    Erases (Exec.forEach items f) (Exec.forEach items g) :=
  fun _ _ same => Simulated.forEach same each

theorem Erases.ret (a : α) : Erases (Exec.ret a) (Exec.ret a) := fun _ _ same => Simulated.ret same

theorem onWriter_erases (m : Exec Writer α) : Erases (onWriter m) m := by
  rintro l _ rfl
  apply Simulated.zoom
  exact fun _ _ => rfl

theorem access_erases (row col : Nat) (m : Exec Writer α) : Erases (access row col m) m := by
  rintro l _ rfl
  exact onWriter_erases m { l with accesses := l.accesses ++ [(row, col)] } l.writer rfl

theorem scroll_erases : Erases scroll Writer.scroll := by
  refine Erases.bind (Erases.forEach (fun row => Erases.forEach (fun col => ?_))) (fun _ => ?_)
  · refine Erases.bind (access_erases row col _) (fun ch => ?_)
    exact Erases.bind (onWriter_erases _) (fun above => access_erases above col _)
  · refine Erases.forEach (fun col => ?_)
    exact Erases.bind (onWriter_erases _) (fun w => access_erases _ col _)

theorem newLine_erases : Erases newLine Writer.newLine := by
  refine Erases.bind (onWriter_erases _) (fun _ => ?_)
  refine Erases.bind (onWriter_erases _) (fun w => ?_)
  split
  · exact Erases.bind (onWriter_erases _) (fun row => onWriter_erases _)
  · exact scroll_erases

theorem wrapLine_erases : Erases wrapLine Writer.wrapLine := by
  refine Erases.bind (onWriter_erases _) (fun w => ?_)
  split
  · exact newLine_erases
  · exact Erases.ret ()

theorem writeByte_erases (byte : UInt8) : Erases (writeByte byte) (Writer.writeByte byte) := by
  unfold writeByte Writer.writeByte
  split
  · exact newLine_erases
  · refine Erases.bind wrapLine_erases (fun _ => ?_)
    refine Erases.bind (onWriter_erases _) (fun w => ?_)
    refine Erases.bind (access_erases _ _ _) (fun _ => ?_)
    exact Erases.bind (onWriter_erases _) (fun column => onWriter_erases _)

theorem writeString_erases (bytes : List UInt8) :
    Erases (writeString bytes) (Writer.writeString bytes) := by
  refine Erases.forEach (fun byte => ?_)
  split
  · exact writeByte_erases byte
  · exact writeByte_erases 0xFE

theorem clear_erases : Erases clear Writer.clear := by
  refine Erases.bind (Erases.forEach (fun row => Erases.forEach (fun col => ?_))) (fun _ => ?_)
  · exact Erases.bind (onWriter_erases _) (fun w => access_erases row col _)
  · exact Erases.bind (onWriter_erases _) (fun _ => onWriter_erases _)

theorem backspace_erases : Erases backspace Writer.backspace := by
  refine Erases.bind (onWriter_erases _) (fun w => ?_)
  split
  · refine Erases.bind (onWriter_erases _) (fun column => ?_)
    exact Erases.bind (onWriter_erases _) (fun _ => access_erases _ _ _)
  · exact Erases.ret ()

theorem call_erases (call : WriterCall) : Erases (Logged.call call) (Writer.call call) := by
  cases call with
  | writeByte byte => exact writeByte_erases byte
  | writeString bytes => exact writeString_erases bytes
  | backspace => exact backspace_erases
  | clear => exact clear_erases
  | setColor fg bg => exact onWriter_erases (Writer.setColor fg bg)

end Erasure

section Bounds

/-- The cursor is on the screen, up to a limit in its row, and so are all cells asked for.
Memory differs from what it was at first only in these cells. -/
structure Inside (memory : Nat → UInt8) (limit : Nat) (l : Logged) : Prop where
  row : l.writer.row < bufferHeight
  column : l.writer.columnPosition ≤ limit
  cells : ∀ cell ∈ l.accesses, cell.1 < bufferHeight ∧ cell.2 < bufferWidth
  changed : ∀ place, l.writer.memory place ≠ memory place → ∃ cell ∈ l.accesses,
    place = address cell.1 cell.2 ∨ place = address cell.1 cell.2 + 1

variable {memory : Nat → UInt8} {l : Logged} {limit row col : Nat}

theorem Inside.mono {larger : Nat} (h : l.Inside memory limit) (le : limit ≤ larger) : l.Inside memory larger :=
  ⟨h.row, Nat.le_trans h.column le, h.cells, h.changed⟩

theorem onWriter_finishes {m : Exec Writer α} {a : α} {w : Writer} {post : α → Logged → Prop}
    (ran : m l.writer = .done a w) (returns : post a { l with writer := w }) :
    Finishes (onWriter m) post l := Finishes.zoom (Finishes.of_done ran returns)

/-- An access on the screen that leaves the cursor where it is, and memory outside of its
cell. -/
theorem access_inside {m : Exec Writer α} {a : α} {w : Writer} (h : l.Inside memory limit)
    (inRow : row < bufferHeight) (inColumn : col < bufferWidth) (ran : m l.writer = .done a w)
    (same : w.row = l.writer.row ∧ w.columnPosition = l.writer.columnPosition)
    (elsewhere : ∀ place, place ≠ address row col → place ≠ address row col + 1 →
      w.memory place = l.writer.memory place) :
    Finishes (access row col m) (fun _ l' => l'.Inside memory limit) l := by
  refine Finishes.bind (Finishes.modify (onWriter_finishes ran ?_))
  refine ⟨same.1 ▸ h.row, same.2 ▸ h.column, ?_, ?_⟩
  · intro cell member
    rcases List.mem_append.mp member with earlier | last
    · exact h.cells cell earlier
    · rw [List.mem_singleton.mp last]
      exact ⟨inRow, inColumn⟩
  · intro place differs
    by_cases here : place = address row col ∨ place = address row col + 1
    · exact ⟨(row, col), List.mem_append_right _ List.mem_cons_self, here⟩
    · obtain ⟨first, second⟩ := not_or.mp here
      have before : l.writer.memory place ≠ memory place := elsewhere place first second ▸ differs
      obtain ⟨cell, earlier, named⟩ := h.changed place before
      exact ⟨cell, List.mem_append_left _ earlier, named⟩

theorem put_memory (value : Cell) (w : Writer) {place : Nat} (first : place ≠ address row col)
    (second : place ≠ address row col + 1) : (w.put row col value).memory place = w.memory place := by
  simp only [Writer.put, Writer.store, if_neg first, if_neg second]

theorem writeCharAt_inside (h : l.Inside memory limit) (inRow : row < bufferHeight)
    (inColumn : col < bufferWidth) (ascii color : UInt8) :
    Finishes (writeCharAt row col ascii color) (fun _ l' => l'.Inside memory limit) l :=
  access_inside h inRow inColumn (Writer.writeCharAt_run inRow inColumn ascii color l.writer) ⟨rfl, rfl⟩
    (fun _ => put_memory (ascii, color) l.writer)

theorem writeRawAt_inside (h : l.Inside memory limit) (inRow : row < bufferHeight)
    (inColumn : col < bufferWidth) (cell : Cell) :
    Finishes (writeRawAt row col cell) (fun _ l' => l'.Inside memory limit) l :=
  access_inside h inRow inColumn (Writer.writeRawAt_run inRow inColumn cell l.writer) ⟨rfl, rfl⟩
    (fun _ => put_memory cell l.writer)

theorem readCharAt_inside (h : l.Inside memory limit) (inRow : row < bufferHeight)
    (inColumn : col < bufferWidth) :
    Finishes (readCharAt row col) (fun _ l' => l'.Inside memory limit) l :=
  access_inside h inRow inColumn (Writer.readCharAt_run inRow inColumn l.writer) ⟨rfl, rfl⟩
    (fun _ _ _ => rfl)

theorem blank_inside (h : l.Inside memory limit) (inRow : row < bufferHeight) (inColumn : col < bufferWidth) :
    Finishes (do
        let w ← onWriter Exec.get
        writeCharAt row col 0x20 w.colorCode)
      (fun _ l' => l'.Inside memory limit) l :=
  Finishes.bind (onWriter_finishes rfl (writeCharAt_inside h inRow inColumn _ _))

theorem scroll_inside (h : l.Inside memory limit) : Finishes scroll (fun _ l' => l'.Inside memory limit) l := by
  refine Finishes.andThen (Finishes.forEach h ?_) (fun _ l' h' => Finishes.forEach h' ?_)
  · intro row inRows l h
    obtain ⟨above, below⟩ := List.mem_range'_1.mp inRows
    have inRow : row < bufferHeight := below
    refine Finishes.forEach h (fun col inColumns l h => ?_)
    have inColumn := List.mem_range.mp inColumns
    refine Finishes.andThen (readCharAt_inside h inRow inColumn) ?_
    intro ch l' h'
    refine Finishes.bind (onWriter_finishes (Exec.usizeSub_of_le above l'.writer) ?_)
    exact writeRawAt_inside h' (Nat.lt_of_le_of_lt (Nat.sub_le row 1) inRow) inColumn ch
  · intro col inColumns l h
    exact blank_inside h (by decide) (List.mem_range.mp inColumns)

/-- A new line starts at the left. -/
theorem newLine_inside (h : l.Inside memory limit) : Finishes newLine (fun _ l' => l'.Inside memory 0) l := by
  refine Finishes.bind (onWriter_finishes rfl (Finishes.bind (onWriter_finishes rfl ?_)))
  dsimp only
  split
  · next room =>
      have fits : l.writer.row + 1 < 2 ^ 64 := by
        simp only [bufferHeight] at room
        omega
      refine Finishes.bind (onWriter_finishes (Exec.usizeAdd_of_lt fits _) ?_)
      exact onWriter_finishes rfl ⟨Nat.succ_lt_of_lt_pred room, Nat.le_refl 0, h.cells, h.changed⟩
  · exact scroll_inside ⟨h.row, Nat.le_refl 0, h.cells, h.changed⟩

/-- After the line break that a byte may need, there is room for it in its row. -/
theorem wrapLine_inside (h : l.Inside memory bufferWidth) :
    Finishes wrapLine (fun _ l' => l'.Inside memory (bufferWidth - 1)) l := by
  refine Finishes.bind (onWriter_finishes rfl ?_)
  split
  · exact Finishes.mono (newLine_inside h) (fun _ l' h' => h'.mono (Nat.zero_le _))
  · next room => exact Finishes.ret ⟨h.row, Nat.le_pred_of_lt (Nat.lt_of_not_ge room), h.cells, h.changed⟩

theorem writeByte_inside (h : l.Inside memory bufferWidth) (byte : UInt8) :
    Finishes (writeByte byte) (fun _ l' => l'.Inside memory bufferWidth) l := by
  unfold writeByte
  split
  · exact Finishes.mono (newLine_inside h) (fun _ l' h' => h'.mono (Nat.zero_le _))
  · refine Finishes.andThen (wrapLine_inside h) ?_
    intro _ l h
    have inColumn : l.writer.columnPosition < bufferWidth := Nat.lt_of_le_pred (by decide) h.column
    have fits : l.writer.columnPosition + 1 < 2 ^ 64 := by
      simp only [bufferWidth] at inColumn
      omega
    refine Finishes.bind (onWriter_finishes rfl ?_)
    refine Finishes.andThen (writeCharAt_inside h h.row inColumn _ _) ?_
    intro _ l' h'
    refine Finishes.bind (onWriter_finishes (Exec.usizeAdd_of_lt fits _) ?_)
    exact onWriter_finishes rfl ⟨h'.row, inColumn, h'.cells, h'.changed⟩

theorem writeString_inside (h : l.Inside memory bufferWidth) (bytes : List UInt8) :
    Finishes (writeString bytes) (fun _ l' => l'.Inside memory bufferWidth) l := by
  refine Finishes.forEach h (fun byte _ l h => ?_)
  split
  · exact writeByte_inside h byte
  · exact writeByte_inside h 0xFE

theorem clear_inside (h : l.Inside memory bufferWidth) :
    Finishes clear (fun _ l' => l'.Inside memory bufferWidth) l := by
  refine Finishes.andThen (Finishes.forEach h ?_) ?_
  · intro row inRows l h
    refine Finishes.forEach h (fun col inColumns l h => ?_)
    exact blank_inside h (List.mem_range.mp inRows) (List.mem_range.mp inColumns)
  · intro _ l' h'
    refine Finishes.bind (onWriter_finishes rfl (onWriter_finishes rfl ?_))
    exact ⟨(by decide : 0 < bufferHeight), Nat.zero_le _, h'.cells, h'.changed⟩

theorem backspace_inside (h : l.Inside memory bufferWidth) :
    Finishes backspace (fun _ l' => l'.Inside memory bufferWidth) l := by
  have column := h.column
  refine Finishes.bind (onWriter_finishes rfl ?_)
  split
  · next some_ =>
      have left : l.writer.columnPosition - 1 < bufferWidth :=
        Nat.lt_of_lt_of_le (Nat.sub_lt some_ Nat.one_pos) column
      have moved : Inside memory bufferWidth { l with
          writer := { l.writer with columnPosition := l.writer.columnPosition - 1 } } :=
        ⟨h.row, Nat.le_of_lt left, h.cells, h.changed⟩
      refine Finishes.bind (onWriter_finishes (Exec.usizeSub_of_le some_ _) ?_)
      refine Finishes.bind (onWriter_finishes rfl ?_)
      exact writeCharAt_inside moved h.row left _ _
  · exact Finishes.ret h

theorem setColor_inside (h : l.Inside memory bufferWidth) (fg bg : Color) :
    Finishes (setColor fg bg) (fun _ l' => l'.Inside memory bufferWidth) l := by
  unfold setColor Writer.setColor
  exact onWriter_finishes rfl ⟨h.row, h.column, h.cells, h.changed⟩

theorem call_inside (h : l.Inside memory bufferWidth) (call : WriterCall) :
    Finishes (Logged.call call) (fun _ l' => l'.Inside memory bufferWidth) l := by
  cases call with
  | writeByte byte => exact writeByte_inside h byte
  | writeString bytes => exact writeString_inside h bytes
  | backspace => exact backspace_inside h
  | clear => exact clear_inside h
  | setColor fg bg => exact setColor_inside h fg bg

end Bounds

/-- Every run of calls keeps the cursor on the screen, and asks for cells of the screen
only; the address of such a cell lies in the text buffer. No byte of memory changes but
those of the cells asked for. -/
theorem accesses_in_text_buffer (memory : Nat → UInt8) (calls : List WriterCall) :
    ∃ l : Logged,
      Exec.forEach calls Logged.call (start memory) = .done () l ∧
      Exec.forEach calls Writer.call (initial memory) = .done () l.writer ∧
      l.writer.row ≤ 24 ∧ l.writer.columnPosition ≤ 80 ∧
      (∀ cell ∈ l.accesses, cell.1 < 25 ∧ cell.2 < 80 ∧ (cell.1 * 80 + cell.2) * 2 ≤ 3998 ∧
        ∀ w, Writer.cellAddr cell.1 cell.2 w =
          .done (vgaBufferAddr + (cell.1 * 80 + cell.2) * 2) w) ∧
      ∀ place, l.writer.memory place ≠ memory place → ∃ cell ∈ l.accesses,
        place = vgaBufferAddr + (cell.1 * 80 + cell.2) * 2 ∨
          place = vgaBufferAddr + (cell.1 * 80 + cell.2) * 2 + 1 := by
  have begun : (start memory).Inside memory bufferWidth :=
    ⟨by simp [start, initial, bufferHeight], Nat.zero_le _, by simp [start],
      fun _ differs => absurd rfl differs⟩
  obtain ⟨_, l, ran, inside⟩ := Finishes.forEach begun (fun call _ l h => call_inside h call)
  obtain ⟨_, erased, rfl⟩ := Erases.forEach call_erases (start memory) (initial memory) rfl _ _ ran
  refine ⟨l, ran, erased, Nat.le_of_lt_succ inside.row, inside.column, ?_, inside.changed⟩
  intro cell member
  obtain ⟨inRow, inColumn⟩ := inside.cells cell member
  refine ⟨inRow, inColumn, ?_, Writer.cellAddr_run inRow inColumn⟩
  simp only [bufferHeight, bufferWidth] at inRow inColumn
  omega

/-- A byte and the backspace after it ask for the same cell. -/
example : (Exec.forEach [.writeByte 0x61, .backspace] Logged.call (start (fun _ => 0))).check
    (fun _ l => l.accesses == [(0, 0), (0, 0)]) = true := by decide

end Logged
end ComputeKernel.Vga
