import ComputeKernel.Support.Finishes

/-! The PS/2 keyboard driver (`kernel/src/drivers/keyboard.rs`): the ring buffer
that the interrupt handler fills, and the polling path beside it. The decoder of
the `pc-keyboard` crate is any function of the scancodes it has been given. -/
namespace ComputeKernel
open Checked (Exec Meets Finishes)

def keyBufSize : Nat := 256

structure KeyBuffer where
  buf : Vector UInt8 keyBufSize
  read : Nat
  write : Nat
  count : Nat

namespace KeyBuffer

def new : KeyBuffer :=
  { buf := Vector.replicate keyBufSize 0
    read := 0
    write := 0
    count := 0 }

/-- `self.buf[i] = byte`. -/
def store (i : Nat) (byte : UInt8) : Exec KeyBuffer Unit :=
  if inside : i < keyBufSize then
    Exec.modify (fun b => { b with buf := b.buf.set i byte inside })
  else Exec.panic .bounds

def push (byte : UInt8) : Exec KeyBuffer Unit := do
  let b ← Exec.get
  if b.count < keyBufSize then do
    store b.write byte
    let next ← Exec.usizeAdd b.write 1
    Exec.modify (fun b => { b with write := next % keyBufSize })
    let count ← Exec.usizeAdd b.count 1
    Exec.modify (fun b => { b with count })
  else Exec.ret ()

def pop : Exec KeyBuffer (Option UInt8) := do
  let b ← Exec.get
  if b.count = 0 then Exec.ret none
  else do
    let byte ← Exec.index b.buf.toList b.read
    let next ← Exec.usizeAdd b.read 1
    Exec.modify (fun b => { b with read := next % keyBufSize })
    let count ← Exec.usizeSub b.count 1
    Exec.modify (fun b => { b with count })
    Exec.ret (some byte)

/-- The indices lie in the array; `push` and `pop` pass through states in which the
counter lags behind them. -/
structure InRange (b : KeyBuffer) : Prop where
  read : b.read < keyBufSize
  write : b.write < keyBufSize
  count : b.count ≤ keyBufSize

theorem new_inRange : new.InRange := ⟨by decide, by decide, by decide⟩

variable {b : KeyBuffer}

theorem store_finishes {i : Nat} (h : b.InRange) (inside : i < keyBufSize) (byte : UInt8) :
    Finishes (store i byte) (fun _ b' => b'.InRange) b := by
  unfold store
  rw [dif_pos inside]
  exact Finishes.modify ⟨h.read, h.write, h.count⟩

/-- `push` returns, and its indices stay in the array. -/
theorem push_finishes (h : b.InRange) (byte : UInt8) :
    Finishes (push byte) (fun _ b' => b'.InRange) b := by
  refine Finishes.bind (Finishes.get ?_)
  split
  · next room =>
      have small := h.write
      simp only [keyBufSize] at small room
      refine Finishes.andThen (store_finishes h h.write byte) ?_
      intro _ b' h'
      refine Finishes.bind (Finishes.of_done (Exec.usizeAdd_of_lt (by omega) b') ?_)
      refine Finishes.bind (Finishes.modify ?_)
      refine Finishes.bind (Finishes.of_done (Exec.usizeAdd_of_lt (by omega) _) ?_)
      refine Finishes.modify ⟨h'.read, Nat.mod_lt _ (by decide), ?_⟩
      simp only [keyBufSize]
      omega
  · exact Finishes.ret h

/-- So does `pop`. -/
theorem pop_finishes (h : b.InRange) : Finishes pop (fun _ b' => b'.InRange) b := by
  refine Finishes.bind (Finishes.get ?_)
  split
  · exact Finishes.ret h
  · next some =>
      have small := h.read
      have bound := h.count
      simp only [keyBufSize] at small bound
      have inside : b.read < b.buf.toList.length := by
        rw [Vector.length_toList]
        exact h.read
      refine Finishes.bind (Finishes.of_done (Exec.index_of_lt inside b) ?_)
      refine Finishes.bind (Finishes.of_done (Exec.usizeAdd_of_lt (by omega) b) ?_)
      refine Finishes.bind (Finishes.modify ?_)
      refine Finishes.bind (Finishes.of_done (Exec.usizeSub_of_le (by omega) _) ?_)
      refine Finishes.bind (Finishes.modify (Finishes.ret ⟨Nat.mod_lt _ (by decide), h.write, ?_⟩))
      simp only [keyBufSize]
      omega

end KeyBuffer

/-- Keys without a character; `other` carries the name that is printed. -/
inductive KeyCode where
  | backspace
  | delete
  | other (name : String)
  deriving DecidableEq, Repr

inductive DecodedKey where
  | unicode (character : Char)
  | rawKey (key : KeyCode)
  deriving DecidableEq, Repr

/-- `controller` holds the scancodes that wait at the data port and `data` the last
one read there; `seen` are those given to the decoder so far. -/
structure Keyboard where
  buffer : KeyBuffer
  controller : List UInt8
  data : UInt8
  seen : List UInt8
  decode : List UInt8 → Option DecodedKey

namespace Keyboard

/-- A read of the data port; without a waiting scancode it repeats the last one. -/
def readData (kb : Keyboard) : UInt8 × Keyboard :=
  match kb.controller with
  | [] => (kb.data, kb)
  | scancode :: rest => (scancode, { kb with controller := rest, data := scancode })

/-- The decoded byte and the text that is echoed on the serial line. -/
def decodeScancode (scancode : UInt8) (kb : Keyboard) : (Option UInt8 × List Char) × Keyboard :=
  let seen := kb.seen ++ [scancode]
  let result :=
    match kb.decode seen with
    | none => (none, [])
    | some (.unicode character) => (some (UInt8.ofNat character.toNat), [character])
    | some (.rawKey .backspace) => (some 0x08, "Backspace ".toList)
    | some (.rawKey .delete) => (some 0x7F, "Delete ".toList)
    | some (.rawKey (.other name)) => (none, name.toList ++ [' '])
  (result, { kb with seen })

/-- The status port says whether a scancode waits. -/
def pollChar (kb : Keyboard) : (Option UInt8 × List Char) × Keyboard :=
  match kb.controller with
  | [] => ((none, []), kb)
  | _ :: _ => decodeScancode kb.readData.1 kb.readData.2

def bufferOf (m : Exec KeyBuffer α) : Exec Keyboard α :=
  m.zoom Keyboard.buffer (fun buffer kb => { kb with buffer })

def tryReadChar : Exec Keyboard (Option UInt8) := bufferOf KeyBuffer.pop

/-- Returns the text echoed on the serial line. -/
def handleInterrupt : Exec Keyboard (List Char) := do
  let kb ← Exec.get
  let ((byte, echo), kb) := decodeScancode kb.readData.1 kb.readData.2
  Exec.modify (fun _ => kb)
  match byte with
  | some byte => do
      bufferOf (KeyBuffer.push byte)
      Exec.ret echo
  | none => Exec.ret echo

theorem decodeScancode_buffer (scancode : UInt8) (kb : Keyboard) :
    (decodeScancode scancode kb).2.buffer = kb.buffer := rfl

theorem readData_buffer (kb : Keyboard) : kb.readData.2.buffer = kb.buffer := by
  unfold readData
  split <;> rfl

theorem pollChar_buffer (kb : Keyboard) : kb.pollChar.2.buffer = kb.buffer := by
  unfold pollChar
  split
  · rfl
  · rw [decodeScancode_buffer, readData_buffer]

def InRange (kb : Keyboard) : Prop := kb.buffer.InRange

theorem tryReadChar_finishes {kb : Keyboard} (h : kb.InRange) :
    Finishes tryReadChar (fun _ kb' => kb'.InRange) kb := Finishes.zoom (KeyBuffer.pop_finishes h)

theorem tryReadChar_meets {kb : Keyboard} (h : kb.InRange) :
    Meets InRange tryReadChar (fun _ _ => True) kb :=
  Meets.mono ((tryReadChar_finishes h).meets (fun _ _ kept => kept)) (fun _ _ _ _ => trivial)

theorem handleInterrupt_finishes {kb : Keyboard} (h : kb.InRange) :
    Finishes handleInterrupt (fun _ kb' => kb'.InRange) kb := by
  refine Finishes.bind (Finishes.get ?_)
  have kept : InRange (decodeScancode kb.readData.1 kb.readData.2).2 := by
    unfold InRange
    rw [decodeScancode_buffer, readData_buffer]
    exact h
  refine Finishes.bind (Finishes.modify ?_)
  split
  · refine Finishes.bind (Finishes.zoom ?_)
    refine Finishes.mono (KeyBuffer.push_finishes kept _) ?_
    intro _ buffer inRange
    exact Finishes.ret inRange
  · exact Finishes.ret kept

theorem handleInterrupt_meets {kb : Keyboard} (h : kb.InRange) :
    Meets InRange handleInterrupt (fun _ _ => True) kb :=
  Meets.mono ((handleInterrupt_finishes h).meets (fun _ _ kept => kept)) (fun _ _ _ _ => trivial)

end Keyboard
end ComputeKernel
