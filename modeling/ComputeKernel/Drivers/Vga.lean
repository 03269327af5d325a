import ComputeKernel.Support.Checked

/-! The VGA text writer (`kernel/src/drivers/vga.rs`) with the checks of its cursor
and address arithmetic. The text buffer is memory at a fixed physical address. -/
namespace ComputeKernel.Vga
open Checked (Exec)

def bufferWidth : Nat := 80
def bufferHeight : Nat := 25
def vgaBufferAddr : Nat := 0xB8000

/-- `memory` holds the bytes by physical address. -/
structure Writer where
  columnPosition : Nat
  colorCode : UInt8
  row : Nat
  memory : Nat → UInt8

inductive Color where
  | black
  | blue
  | green
  | cyan
  | red
  | magenta
  | brown
  | lightGray
  | darkGray
  | lightBlue
  | lightGreen
  | lightCyan
  | lightRed
  | pink
  | yellow
  | white
  deriving DecidableEq, Repr

def Color.code : Color → UInt8
  | .black => 0
  | .blue => 1
  | .green => 2
  | .cyan => 3
  | .red => 4
  | .magenta => 5
  | .brown => 6
  | .lightGray => 7
  | .darkGray => 8
  | .lightBlue => 9
  | .lightGreen => 10
  | .lightCyan => 11
  | .lightRed => 12
  | .pink => 13
  | .yellow => 14
  | .white => 15

/-- `ColorCode::new`. -/
def colorCodeNew (fg bg : UInt8) : UInt8 := bg <<< 4 ||| fg

/-- The static `WRITER`, white on black. -/
def initial (memory : Nat → UInt8) : Writer :=
  { columnPosition := 0
    colorCode := colorCodeNew 15 0
    row := 0
    memory }

namespace Writer

def store (address : Nat) (byte : UInt8) (w : Writer) : Writer :=
  { w with memory := fun a => if a = address then byte else w.memory a }

/-- The address of a cell. -/
def cellAddr (row col : Nat) : Exec Writer Nat := do
  let start ← Exec.usizeMul row bufferWidth
  let cell ← Exec.usizeAdd start col
  let offset ← Exec.usizeMul cell 2
  Exec.usizeAdd vgaBufferAddr offset

def writeCharAt (row col : Nat) (ascii color : UInt8) : Exec Writer Unit := do
  let ptr ← cellAddr row col
  Exec.modify (fun w => (w.store ptr ascii).store (ptr + 1) color)

/-- A 16-bit cell as its low and high byte. -/
def writeRawAt (row col : Nat) (cell : UInt8 × UInt8) : Exec Writer Unit := do
  let ptr ← cellAddr row col
  Exec.modify (fun w => (w.store ptr cell.1).store (ptr + 1) cell.2)

def readCharAt (row col : Nat) : Exec Writer (UInt8 × UInt8) := do
  let ptr ← cellAddr row col
  let w ← Exec.get
  Exec.ret (w.memory ptr, w.memory (ptr + 1))

def scroll : Exec Writer Unit := do
  Exec.forEach (List.range' 1 (bufferHeight - 1)) (fun row =>
    Exec.forEach (List.range bufferWidth) (fun col => do
      let ch ← readCharAt row col
      let above ← Exec.usizeSub row 1
      writeRawAt above col ch))
  Exec.forEach (List.range bufferWidth) (fun col => do
    let w ← Exec.get
    writeCharAt (bufferHeight - 1) col 0x20 w.colorCode)

def newLine : Exec Writer Unit := do
  Exec.modify (fun w => { w with columnPosition := 0 })
  let w ← Exec.get
  if w.row < bufferHeight - 1 then do
    let row ← Exec.usizeAdd w.row 1
    Exec.modify (fun w => { w with row })
  else scroll

/-- The line break before a byte that does not fit into its row. -/
def wrapLine : Exec Writer Unit := do
  let w ← Exec.get
  if w.columnPosition ≥ bufferWidth then newLine else Exec.ret ()

def writeByte (byte : UInt8) : Exec Writer Unit :=
  if byte = 0x0a then newLine
  else do
    wrapLine
    let w ← Exec.get
    writeCharAt w.row w.columnPosition byte w.colorCode
    let column ← Exec.usizeAdd w.columnPosition 1
    Exec.modify (fun w => { w with columnPosition := column })

/-- The bytes are those of a UTF-8 string. -/
def writeString (bytes : List UInt8) : Exec Writer Unit :=
  Exec.forEach bytes (fun byte =>
    if (0x20 ≤ byte ∧ byte ≤ 0x7e) ∨ byte = 0x0a then writeByte byte else writeByte 0xFE)

def clear : Exec Writer Unit := do
  Exec.forEach (List.range bufferHeight) (fun row =>
    Exec.forEach (List.range bufferWidth) (fun col => do
      let w ← Exec.get
      writeCharAt row col 0x20 w.colorCode))
  Exec.modify (fun w => { w with row := 0 })
  Exec.modify (fun w => { w with columnPosition := 0 })

def backspace : Exec Writer Unit := do
  let w ← Exec.get
  if w.columnPosition > 0 then do
    let column ← Exec.usizeSub w.columnPosition 1
    Exec.modify (fun w => { w with columnPosition := column })
    writeCharAt w.row column 0x20 w.colorCode
  else Exec.ret ()

def setColor (fg bg : Color) : Exec Writer Unit :=
  Exec.modify (fun w => { w with colorCode := colorCodeNew fg.code bg.code })

/-- The cursor is on the screen, or just behind the end of a row. -/
structure OnScreen (w : Writer) : Prop where
  row : w.row < bufferHeight
  column : w.columnPosition ≤ bufferWidth

theorem initial_onScreen (memory : Nat → UInt8) : (initial memory).OnScreen := by
  constructor
  · simp [initial, bufferHeight]
  · simp [initial]

end Writer
end ComputeKernel.Vga
