import ComputeKernel.Support.Simulation
import ComputeKernel.Support.Window
import ComputeKernel.Drivers.Keyboard

/-! The ring buffer as a queue of bounded capacity, and the order in which characters
reach a reader that looks into it first and polls the controller when it finds nothing
there. -/
namespace ComputeKernel
open Checked (Exec Finishes Simulated)

namespace KeyBuffer

/-- The characters in the buffer, the oldest first. -/
def contents (b : KeyBuffer) : List UInt8 := Window.window b.buf.toList b.read b.count

/-- The write index is where the contents end. -/
structure Linked (b : KeyBuffer) : Prop extends InRange b where
  linked : b.write = (b.read + b.count) % keyBufSize

theorem new_linked : new.Linked where
  toInRange := new_inRange
  linked := rfl

variable {b : KeyBuffer}

theorem contents_length (b : KeyBuffer) : b.contents.length = b.count := by
  apply Window.window_length
  rw [Vector.length_toList]
  decide

theorem store_run {i : Nat} (inside : i < keyBufSize) (byte : UInt8) :
    store i byte b = .done () { b with buf := b.buf.set i byte inside } := by
  rw [store, dif_pos inside]
  rfl

theorem usizeAdd_run {a : Nat} (small : a ≤ keyBufSize) (b : KeyBuffer) :
    (Exec.usizeAdd a 1 : Exec KeyBuffer Nat) b = .done (a + 1) b := by
  simp only [keyBufSize] at small
  exact Exec.usizeAdd_of_lt (by omega) b

/-- `push` appends while there is room. -/
theorem push_run (h : b.Linked) (room : b.count < keyBufSize) (byte : UInt8) :
    ∃ b', push byte b = .done () b' ∧ b'.Linked ∧ b'.contents = b.contents ++ [byte] := by
  have length : b.buf.toList.length = keyBufSize := Vector.length_toList
  unfold push
  rw [Exec.get_bind, if_pos room, Exec.bind_of_done (store_run h.write byte),
    Exec.bind_of_done (usizeAdd_run (Nat.le_of_lt h.write) _), Exec.modify_bind,
    Exec.bind_of_done (usizeAdd_run h.count _)]
  refine ⟨_, rfl, ?_, ?_⟩
  · refine ⟨⟨h.read, Nat.mod_lt _ (by decide), room⟩, ?_⟩
    change (b.write + 1) % keyBufSize = (b.read + (b.count + 1)) % keyBufSize
    rw [h.linked, Nat.mod_add_mod, Nat.add_assoc]
  · have pushed : Window.window (b.buf.toList.set ((b.read + b.count) % b.buf.toList.length) byte)
        b.read (b.count + 1) = b.contents ++ [byte] :=
      Window.window_push (by rw [length]; exact room) byte
    change Window.window (b.buf.set b.write byte h.write).toList b.read (b.count + 1) = _
    rw [length] at pushed
    rw [Vector.toList_set, h.linked, pushed]

theorem pop_of_empty (empty : b.count = 0) : pop b = .done none b := by
  unfold pop
  rw [Exec.get_bind, if_pos empty, Exec.ret_run]

/-- `pop` takes the oldest character. -/
theorem pop_run (h : b.Linked) (some_ : b.count ≠ 0) :
    ∃ byte b', pop b = .done (some byte) b' ∧ b'.Linked ∧ b.contents = byte :: b'.contents := by
  have length : b.buf.toList.length = keyBufSize := Vector.length_toList
  obtain ⟨rest, count⟩ := Nat.exists_eq_succ_of_ne_zero some_
  obtain ⟨byte, cell, split⟩ := Window.window_pop (by rw [length]; decide) b.read rest
  have here : (Exec.index b.buf.toList b.read : Exec KeyBuffer UInt8) b = .done byte b := by
    rw [length, Nat.mod_eq_of_lt h.read] at cell
    rw [Exec.index, cell]
    rfl
  have fewer : (Exec.usizeSub b.count 1 : Exec KeyBuffer Nat)
      { b with read := (b.read + 1) % keyBufSize } =
      .done rest { b with read := (b.read + 1) % keyBufSize } := by
    rw [Exec.usizeSub_of_le (by omega), count]
    rfl
  have bound := h.count
  unfold pop
  rw [Exec.get_bind, if_neg some_, Exec.bind_of_done here,
    Exec.bind_of_done (usizeAdd_run (Nat.le_of_lt h.read) b), Exec.modify_bind,
    Exec.bind_of_done fewer]
  refine ⟨byte, _, rfl, ?_, ?_⟩
  · refine ⟨⟨Nat.mod_lt _ (by decide), h.write, Nat.le_of_lt (by omega : rest < keyBufSize)⟩, ?_⟩
    change b.write = ((b.read + 1) % keyBufSize + rest) % keyBufSize
    rw [h.linked, count, Nat.mod_add_mod, Nat.add_assoc, Nat.add_comm 1]
  · change Window.window b.buf.toList b.read b.count =
      byte :: Window.window b.buf.toList ((b.read + 1) % keyBufSize) rest
    have same := Window.window_mod b.buf.toList (b.read + 1) rest
    rw [length] at same
    rw [count, split, same]

/-- A full buffer drops the character. -/
theorem push_of_full (full : ¬b.count < keyBufSize) (byte : UInt8) : push byte b = .done () b := by
  unfold push
  rw [Exec.get_bind, if_neg full, Exec.ret_run]

end KeyBuffer

/-- What can be asked of a queue of characters. -/
inductive QueueOp where
  | push (byte : UInt8)
  | pop
  deriving DecidableEq, Repr

/-- The abstract queue, the oldest character first: `push` drops its byte when the
capacity is reached, and `pop` answers the oldest one. -/
def queueOp (capacity : Nat) : QueueOp → Exec (List UInt8) (Option UInt8)
  | .push byte => do
      Exec.modify (fun queue => if queue.length < capacity then queue ++ [byte] else queue)
      Exec.ret none
  | .pop => do
      let queue ← Exec.get
      Exec.modify List.tail
      Exec.ret queue.head?

theorem queueOp_finishes (capacity : Nat) (op : QueueOp) (queue : List UInt8) :
    Finishes (queueOp capacity op) (fun _ _ => True) queue := by
  cases op with
  | push byte => exact ⟨_, _, rfl, trivial⟩
  | pop => exact ⟨_, _, rfl, trivial⟩

namespace KeyBuffer

/-- The operations of the ring buffer, of which only `pop` has an answer. -/
def bufferOp : QueueOp → Exec KeyBuffer (Option UInt8)
  | .push byte => do
      push byte
      Exec.ret none
  | .pop => pop

/-- The buffer stands for the queue of its contents. -/
def Represents (queue : List UInt8) (b : KeyBuffer) : Prop := b.Linked ∧ b.contents = queue

theorem push_simulated {queue : List UInt8} {b : KeyBuffer} (byte : UInt8) (h : Represents queue b) :
    Simulated Represents (queueOp keyBufSize (.push byte)) (bufferOp (.push byte)) queue b := by
  obtain ⟨linked, rfl⟩ := h
  rintro _ _ ⟨⟩
  dsimp only
  rw [contents_length]
  by_cases room : b.count < keyBufSize
  · obtain ⟨b', pushed, linked', grown⟩ := push_run linked room byte
    rw [if_pos room]
    exact ⟨b', Exec.bind_of_done pushed, linked', grown⟩
  · rw [if_neg room]
    exact ⟨b, Exec.bind_of_done (push_of_full room byte), linked, rfl⟩

theorem pop_simulated {queue : List UInt8} {b : KeyBuffer} (h : Represents queue b) :
    Simulated Represents (queueOp keyBufSize .pop) (bufferOp .pop) queue b := by
  obtain ⟨linked, rfl⟩ := h
  rintro _ _ ⟨⟩
  by_cases empty : b.count = 0
  · have nothing : b.contents = [] := by rw [← List.length_eq_zero_iff, contents_length, empty]
    rw [nothing]
    exact ⟨b, pop_of_empty empty, linked, nothing⟩
  · obtain ⟨byte, b', popped, linked', shrunk⟩ := pop_run linked empty
    rw [shrunk]
    exact ⟨b', popped, linked', rfl⟩

/-- The ring buffer answers every run of operations as the abstract queue does, and no
run takes an index out of the array. -/
theorem bounded_fifo (ops : List QueueOp) :
    ∃ answers queue b,
      Exec.answers (queueOp 256) ops [] = .done answers queue ∧
      Exec.answers bufferOp ops new = .done answers b ∧
      b.contents = queue ∧ b.count ≤ 256 ∧ b.read < 256 ∧ b.write < 256 ∧
      b.write = (b.read + b.count) % 256 := by
  obtain ⟨answers, queue, specified, _⟩ :=
    Finishes.answers (I := fun _ => True) (s := []) trivial
      (fun op queue _ => queueOp_finishes keyBufSize op queue) ops
  have each (op : QueueOp) (queue : List UInt8) (b : KeyBuffer) (h : Represents queue b) :
      Simulated Represents (queueOp keyBufSize op) (bufferOp op) queue b := by
    cases op with
    | push byte => exact push_simulated byte h
    | pop => exact pop_simulated h
  have start : Represents [] new := ⟨new_linked, rfl⟩
  obtain ⟨b, ran, linked, same⟩ := Simulated.answers start each ops answers queue specified
  exact ⟨answers, queue, b, specified, ran, same, linked.count, linked.read, linked.write,
    linked.linked⟩

end KeyBuffer

namespace Keyboard

/-- The byte that `decode_scancode` returns for a decoded key. -/
def byteOf : Option DecodedKey → Option UInt8
  | none => none
  | some (.unicode character) => some (UInt8.ofNat character.toNat)
  | some (.rawKey .backspace) => some 0x08
  | some (.rawKey .delete) => some 0x7F
  | some (.rawKey (.other _)) => none

/-- The characters of a stream of scancodes that follows those already seen. -/
def chars (decode : List UInt8 → Option DecodedKey) : List UInt8 → List UInt8 → List UInt8
  | _, [] => []
  | seen, scancode :: rest =>
      (byteOf (decode (seen ++ [scancode]))).toList ++ chars decode (seen ++ [scancode]) rest

variable {decode : List UInt8 → Option DecodedKey} {kb : Keyboard}

theorem chars_append (seen first rest : List UInt8) :
    chars decode seen (first ++ rest) = chars decode seen first ++ chars decode (seen ++ first) rest := by
  induction first generalizing seen with
  | nil => simp [chars]
  | cons scancode first ih =>
      rw [List.cons_append, chars, chars, ih, List.append_assoc, List.append_assoc]
      rfl

theorem decodeScancode_byte (scancode : UInt8) (kb : Keyboard) :
    (decodeScancode scancode kb).1.1 = byteOf (kb.decode (kb.seen ++ [scancode])) := by
  rcases decoded : kb.decode (kb.seen ++ [scancode]) with _ | character | _ | _ | name <;>
    simp only [decodeScancode, decoded, byteOf]

/-- The keyboard after a read of the data port has been decoded. -/
def taken (kb : Keyboard) (scancode : UInt8) (rest : List UInt8) : Keyboard :=
  { kb with
    controller := rest
    data := scancode
    seen := kb.seen ++ [scancode] }

theorem decode_of_controller {scancode : UInt8} {rest : List UInt8}
    (waiting : kb.controller = scancode :: rest) :
    (decodeScancode kb.readData.1 kb.readData.2).1.1 =
        byteOf (kb.decode (kb.seen ++ [scancode])) ∧
      (decodeScancode kb.readData.1 kb.readData.2).2 = kb.taken scancode rest := by
  rw [decodeScancode_byte]
  unfold readData
  rw [waiting]
  exact ⟨rfl, rfl⟩

theorem pollChar_of_controller {scancode : UInt8} {rest : List UInt8}
    (waiting : kb.controller = scancode :: rest) :
    kb.pollChar.1.1 = byteOf (kb.decode (kb.seen ++ [scancode])) ∧
      kb.pollChar.2 = kb.taken scancode rest := by
  have decoded := decode_of_controller waiting
  unfold pollChar
  rw [waiting]
  exact decoded

theorem pollChar_of_empty (empty : kb.controller = []) : kb.pollChar = ((none, []), kb) := by
  unfold pollChar
  rw [empty]

theorem tryReadChar_run {byte : Option UInt8} {buffer : KeyBuffer}
    (ran : KeyBuffer.pop kb.buffer = .done byte buffer) :
    tryReadChar kb = .done byte { kb with buffer } := by
  unfold tryReadChar bufferOf
  exact Exec.zoom_of_done _ ran

/-- The interrupt handler moves the character of one scancode into the buffer. -/
theorem handleInterrupt_run (linked : kb.buffer.Linked) (room : kb.buffer.count < keyBufSize)
    {scancode : UInt8} {rest : List UInt8} (waiting : kb.controller = scancode :: rest) :
    ∃ echo buffer, handleInterrupt kb = .done echo { kb.taken scancode rest with buffer } ∧
      buffer.Linked ∧
      buffer.contents =
        kb.buffer.contents ++ (byteOf (kb.decode (kb.seen ++ [scancode]))).toList := by
  obtain ⟨byte, after⟩ := decode_of_controller waiting
  unfold handleInterrupt
  rw [Exec.get_bind]
  dsimp only
  rw [byte, after, Exec.modify_bind]
  cases byteOf (kb.decode (kb.seen ++ [scancode])) with
  | none => exact ⟨_, kb.buffer, rfl, linked, by simp⟩
  | some byte =>
      obtain ⟨buffer, pushed, linked', grown⟩ := KeyBuffer.push_run linked room byte
      have zoomed : bufferOf (KeyBuffer.push byte) (kb.taken scancode rest) =
          .done () { kb.taken scancode rest with buffer } := Exec.zoom_of_done _ pushed
      dsimp only
      rw [Exec.bind_of_done zoomed]
      exact ⟨_, buffer, rfl, linked', grown⟩

end Keyboard

/-- The keyboard with a reader. `polling` says that the reader has found the buffer
empty and polls next, `got` is what it has read, and `arrived` are all scancodes that
have reached the controller. -/
structure Console where
  keyboard : Keyboard
  polling : Bool
  got : List UInt8
  arrived : List UInt8

inductive KeyEvent where
  | arrive (scancode : UInt8)
  | irq
  | reader
  deriving DecidableEq, Repr

namespace Console

def onKeyboard (m : Exec Keyboard α) : Exec Console α :=
  m.zoom keyboard (fun keyboard c => { c with keyboard })

def checkBuffer : Exec Console Unit := do
  let byte ← onKeyboard Keyboard.tryReadChar
  Exec.modify (fun c => { c with polling := byte.isNone, got := c.got ++ byte.toList })

def poll : Exec Console Unit := Exec.modify (fun c =>
  { c with
    keyboard := c.keyboard.pollChar.2
    polling := false
    got := c.got ++ c.keyboard.pollChar.1.1.toList })

/-- Interrupts are off inside `try_read_char` and `poll_char`, and on between them. -/
def step : KeyEvent → Exec Console Unit
  | .arrive scancode => Exec.modify (fun c =>
      { c with
        keyboard := { c.keyboard with controller := c.keyboard.controller ++ [scancode] }
        arrived := c.arrived ++ [scancode] })
  | .irq => do
      let _ ← onKeyboard Keyboard.handleInterrupt
      Exec.ret ()
  | .reader => do
      let c ← Exec.get
      if c.polling then poll else checkBuffer

def start (decode : List UInt8 → Option DecodedKey) (data : UInt8) : Console :=
  { keyboard :=
      { buffer := KeyBuffer.new
        controller := []
        data
        seen := []
        decode }
    polling := false
    got := []
    arrived := [] }

/-- The states of the runs whose steps all meet a condition on the state before them. -/
inductive Reached (decode : List UInt8 → Option DecodedKey) (data : UInt8)
    (condition : Console → KeyEvent → Prop) : Console → Prop
  | start : Reached decode data condition (start decode data)
  | step {c c' : Console} (event : KeyEvent) (before : Reached decode data condition c)
      (meets : condition c event) (ran : Console.step event c = .done () c') :
      Reached decode data condition c'

/-- What was read, what is in the buffer and what waits at the controller are the
characters that have arrived. -/
def InOrder (c : Console) : Prop :=
  c.got ++ c.keyboard.buffer.contents ++
      Keyboard.chars c.keyboard.decode c.keyboard.seen c.keyboard.controller =
    Keyboard.chars c.keyboard.decode [] c.arrived

/-- The buffer has room for one more character when an interrupt comes. -/
def Roomy (c : Console) (event : KeyEvent) : Prop :=
  event = .irq → c.keyboard.buffer.count < keyBufSize

/-- Besides, an interrupt finds a scancode, and a poll finds nothing or the buffer is
still empty. -/
def Orderly (c : Console) (event : KeyEvent) : Prop :=
  Roomy c event ∧
    match event with
    | .arrive _ => True
    | .irq => c.keyboard.controller ≠ []
    | .reader => c.polling = true → c.keyboard.buffer.count = 0 ∨ c.keyboard.controller = []

structure Inv (c : Console) : Prop where
  linked : c.keyboard.buffer.Linked
  order : c.InOrder
  stream : c.keyboard.seen ++ c.keyboard.controller = c.arrived

theorem start_inv (decode : List UInt8 → Option DecodedKey) (data : UInt8) :
    (start decode data).Inv where
  linked := KeyBuffer.new_linked
  order := rfl
  stream := rfl

variable {c : Console}

theorem arrive_inv (inv : c.Inv) (scancode : UInt8) :
    ∃ c', step (.arrive scancode) c = .done () c' ∧ c'.Inv := by
  refine ⟨_, rfl, inv.linked, ?_, ?_⟩
  · change _ ++ _ ++ Keyboard.chars _ _ (c.keyboard.controller ++ [scancode]) =
      Keyboard.chars _ [] (c.arrived ++ [scancode])
    rw [Keyboard.chars_append, Keyboard.chars_append, ← List.append_assoc, inv.order, inv.stream,
      List.nil_append]
  · change c.keyboard.seen ++ (c.keyboard.controller ++ [scancode]) = c.arrived ++ [scancode]
    rw [← List.append_assoc, inv.stream]

theorem irq_inv (inv : c.Inv) (room : c.keyboard.buffer.count < keyBufSize)
    (waiting : c.keyboard.controller ≠ []) : ∃ c', step .irq c = .done () c' ∧ c'.Inv := by
  obtain ⟨scancode, rest, split⟩ := List.exists_cons_of_ne_nil waiting
  obtain ⟨echo, buffer, ran, linked, contents⟩ :=
    Keyboard.handleInterrupt_run inv.linked room split
  have order := inv.order
  have stream := inv.stream
  unfold InOrder at order
  rw [split] at order stream
  refine ⟨{ c with keyboard := { c.keyboard.taken scancode rest with buffer } }, ?_, linked, ?_, ?_⟩
  · exact Exec.bind_of_done (Exec.zoom_of_done _ ran)
  · change c.got ++ buffer.contents ++
      Keyboard.chars c.keyboard.decode (c.keyboard.seen ++ [scancode]) rest =
        Keyboard.chars c.keyboard.decode [] c.arrived
    rw [contents, ← order, Keyboard.chars]
    simp only [List.append_assoc]
  · change c.keyboard.seen ++ [scancode] ++ rest = c.arrived
    rw [List.append_assoc]
    exact stream

/-- The reader takes what is in the buffer, or goes on to poll. -/
theorem checkBuffer_inv (inv : c.Inv) : ∃ c', checkBuffer c = .done () c' ∧ c'.Inv := by
  have order := inv.order
  unfold InOrder at order
  by_cases empty : c.keyboard.buffer.count = 0
  · have popped : onKeyboard Keyboard.tryReadChar c = .done none c :=
      Exec.zoom_of_done _ (Keyboard.tryReadChar_run (KeyBuffer.pop_of_empty empty))
    refine ⟨_, Exec.bind_of_done popped, inv.linked, ?_, inv.stream⟩
    change c.got ++ [] ++ _ ++ _ = _
    rw [List.append_nil]
    exact order
  · obtain ⟨byte, buffer, ran, linked, contents⟩ := KeyBuffer.pop_run inv.linked empty
    have popped : onKeyboard Keyboard.tryReadChar c =
        .done (some byte) { c with keyboard := { c.keyboard with buffer } } :=
      Exec.zoom_of_done _ (Keyboard.tryReadChar_run ran)
    refine ⟨_, Exec.bind_of_done popped, linked, ?_, inv.stream⟩
    change c.got ++ [byte] ++ buffer.contents ++ _ = Keyboard.chars c.keyboard.decode [] c.arrived
    rw [contents] at order
    rw [← order]
    simp only [List.append_assoc, List.cons_append, List.nil_append]

/-- The reader takes a character from the controller. -/
theorem poll_inv (inv : c.Inv)
    (orderly : c.keyboard.buffer.count = 0 ∨ c.keyboard.controller = []) :
    ∃ c', poll c = .done () c' ∧ c'.Inv := by
  have order := inv.order
  have stream := inv.stream
  unfold InOrder at order
  refine ⟨_, rfl, ?_⟩
  dsimp only
  cases waiting : c.keyboard.controller with
  | nil =>
      rw [Keyboard.pollChar_of_empty waiting]
      refine ⟨inv.linked, ?_, inv.stream⟩
      change c.got ++ [] ++ _ ++ _ = _
      rw [List.append_nil]
      exact order
  | cons scancode rest =>
      obtain ⟨byte, after⟩ := Keyboard.pollChar_of_controller waiting
      rw [waiting] at order stream
      have empty : c.keyboard.buffer.contents = [] := by
        rcases orderly with none_ | none_
        · rw [← List.length_eq_zero_iff, KeyBuffer.contents_length, none_]
        · rw [waiting] at none_
          cases none_
      rw [byte, after]
      refine ⟨inv.linked, ?_, ?_⟩
      · change c.got ++ _ ++ c.keyboard.buffer.contents ++
          Keyboard.chars c.keyboard.decode (c.keyboard.seen ++ [scancode]) rest =
            Keyboard.chars c.keyboard.decode [] c.arrived
        rw [empty, List.append_nil] at order ⊢
        rw [← order, Keyboard.chars, List.append_assoc]
      · change c.keyboard.seen ++ [scancode] ++ rest = c.arrived
        rw [List.append_assoc]
        exact stream

/-- One step, of whatever kind. -/
theorem step_inv (inv : c.Inv) {event : KeyEvent} (orderly : c.Orderly event) :
    ∃ c', step event c = .done () c' ∧ c'.Inv := by
  obtain ⟨roomy, proper⟩ := orderly
  cases event with
  | arrive scancode => exact arrive_inv inv scancode
  | irq => exact irq_inv inv (roomy rfl) proper
  | reader =>
      change ∃ c', (if c.polling then poll else checkBuffer) c = .done () c' ∧ c'.Inv
      split
      · next polling => exact poll_inv inv (proper polling)
      · exact checkBuffer_inv inv

theorem Reached.inv {decode : List UInt8 → Option DecodedKey} {data : UInt8}
    (reached : Reached decode data Orderly c) : c.Inv := by
  induction reached with
  | start => exact start_inv decode data
  | step event before meets ran inv =>
      obtain ⟨next, run, kept⟩ := step_inv inv meets
      rw [ran] at run
      cases run
      exact kept

/-- In every run of arrivals, interrupts and reads in which each step finds the keyboard
in order, no character is lost, duplicated or moved, and every such step can be made. -/
theorem keys_delivered_in_order {decode : List UInt8 → Option DecodedKey} {data : UInt8}
    {c : Console} (reached : Reached decode data Orderly c) :
    c.InOrder ∧ ∀ event, c.Orderly event → ∃ c', step event c = .done () c' := by
  refine ⟨reached.inv.order, fun event orderly => ?_⟩
  obtain ⟨c', ran, _⟩ := step_inv reached.inv orderly
  exact ⟨c', ran⟩

/-- A decoder that takes each scancode for a character. -/
def plainDecoder (seen : List UInt8) : Option DecodedKey :=
  some (.unicode (Char.ofNat (seen.getLastD 0).toNat))

/-- Two keys: the second arrives before the reader has taken the first from the buffer, and
its interrupt comes before the reader looks again. -/
theorem two_keys_in_order :
    ∃ c, Reached plainDecoder 0 Orderly c ∧ c.got = [0x61, 0x62] ∧ c.InOrder := by
  have arrived : Reached plainDecoder 0 Orderly _ :=
    .step (.arrive 0x61) .start ⟨fun same => (by cases same), trivial⟩ rfl
  have buffered : Reached plainDecoder 0 Orderly _ :=
    .step .irq arrived ⟨fun _ => by decide, by simp⟩ rfl
  have followed : Reached plainDecoder 0 Orderly _ :=
    .step (.arrive 0x62) buffered ⟨fun same => (by cases same), trivial⟩ rfl
  have taken : Reached plainDecoder 0 Orderly _ :=
    .step .reader followed ⟨fun same => (by cases same), fun polling => (by cases polling)⟩ rfl
  have bufferedNext : Reached plainDecoder 0 Orderly _ :=
    .step .irq taken ⟨fun _ => by decide, by simp⟩ rfl
  have takenNext : Reached plainDecoder 0 Orderly _ :=
    .step .reader bufferedNext ⟨fun same => (by cases same), fun polling => (by cases polling)⟩ rfl
  exact ⟨_, takenNext, rfl, (keys_delivered_in_order takenNext).1⟩

/-- The interrupt for `a` comes after the reader has found the buffer empty; `b` then
arrives, and the poll returns it before `a`. -/
theorem poll_overtakes_buffer :
    ∃ c, Reached plainDecoder 0 Roomy c ∧ c.got = [0x62] ∧ c.keyboard.buffer.contents = [0x61] ∧
      c.arrived = [0x61, 0x62] ∧ ¬c.InOrder := by
  have arrived : Reached plainDecoder 0 Roomy _ :=
    .step (.arrive 0x61) .start (fun same => by cases same) rfl
  have checked : Reached plainDecoder 0 Roomy _ :=
    .step .reader arrived (fun same => by cases same) rfl
  have buffered : Reached plainDecoder 0 Roomy _ := .step .irq checked (fun _ => by decide) rfl
  have followed : Reached plainDecoder 0 Roomy _ :=
    .step (.arrive 0x62) buffered (fun same => by cases same) rfl
  have polled : Reached plainDecoder 0 Roomy _ :=
    .step .reader followed (fun same => by cases same) rfl
  refine ⟨_, polled, rfl, by decide +kernel, rfl, ?_⟩
  unfold InOrder
  decide +kernel

end Console
end ComputeKernel
