import ComputeKernel.Drivers.Vga

/-! The input side of the kernel shell (`kernel/src/shell.rs`): the prompt, and the
line editor over a fixed buffer that echoes to the VGA writer. A keystroke is the
character that the keyboard driver hands over. -/
namespace ComputeKernel.Shell
open Checked (Exec)
open Vga (Writer Color)

def maxCmdLen : Nat := 256
def hostname : String := "computekernel"
def username : String := "root"

/-- `kprint!`. The pieces of a format string are written one after another. -/
def kprint (pieces : List String) : Exec Writer Unit :=
  Exec.forEach pieces (fun piece => Writer.writeString piece.toByteArray.data.toList)

def printPrompt : Exec Writer Unit := do
  Writer.setColor Color.lightGreen Color.black
  kprint [username, "@", hostname]
  Writer.setColor Color.white Color.black
  kprint [" ~ "]
  Writer.setColor Color.lightCyan Color.black
  kprint ["% "]
  Writer.setColor Color.white Color.black

/-- The writer, the caller's buffer and the local `pos` of `read_line`. -/
structure Session where
  writer : Writer
  buf : Vector UInt8 maxCmdLen
  pos : Nat

/-- A fresh line after a prompt. -/
def Session.start (writer : Writer) : Session :=
  { writer
    buf := Vector.replicate maxCmdLen 0
    pos := 0 }

def onWriter {α : Type} (m : Exec Writer α) : Exec Session α :=
  Exec.zoom Session.writer (fun writer s => { s with writer }) m

/-- `buf[i] = byte`. -/
def store (i : Nat) (byte : UInt8) : Exec Session Unit :=
  if inside : i < maxCmdLen then
    Exec.modify (fun s => { s with buf := s.buf.set i byte inside })
  else Exec.panic .bounds

def isEnter (ch : UInt8) : Bool := ch = 0x0a || ch = 0x0d
def isErase (ch : UInt8) : Bool := ch = 0x08 || ch = 0x7F
def isCancel (ch : UInt8) : Bool := ch = 0x03

/-- The bytes that `kprint!` writes for `ch as char`. -/
def echo (ch : UInt8) : List UInt8 := String.utf8EncodeChar (Char.ofUInt8 ch)

/-- One turn of the loop of `read_line`, which returns a length or goes on. -/
def readKey (ch : UInt8) : Exec Session (Option Nat) := do
  let s ← Exec.get
  if isEnter ch then do
    onWriter (kprint ["\n"])
    Exec.ret (some s.pos)
  else if isErase ch then
    if s.pos > 0 then do
      let pos ← Exec.usizeSub s.pos 1
      Exec.modify (fun s => { s with pos })
      store pos 0
      onWriter Writer.backspace
      Exec.ret none
    else Exec.ret none
  else if isCancel ch then do
    onWriter (kprint ["^C\n"])
    Exec.ret (some 0)
  else if ch ≥ 0x20 ∧ s.pos < maxCmdLen - 1 then do
    store s.pos ch
    let pos ← Exec.usizeAdd s.pos 1
    Exec.modify (fun s => { s with pos })
    onWriter (Writer.writeString (echo ch))
    Exec.ret none
  else Exec.ret none

/-- `read_line` on the keystrokes so far. `none` means that it waits for the next one. -/
def readLine : List UInt8 → Exec Session (Option Nat)
  | [] => Exec.ret none
  | ch :: keys => do
      match ← readKey ch with
      | some length => Exec.ret (some length)
      | none => readLine keys

end ComputeKernel.Shell
