import ComputeKernel.Support.Utf8
import ComputeKernel.Drivers.Screen
import ComputeKernel.Shell.Model

/-! The line on the screen and the line in the buffer. The text after the prompt is
read from the cells between the end of the prompt and the cursor, and the end of the
prompt is followed when the screen scrolls. -/
namespace ComputeKernel
open Checked (Exec Finishes)
open Scrollback (Roll)

namespace Vga.Writer

/-- The place of the cursor when the screen is read row by row. -/
def place (w : Writer) : Nat := w.row * bufferWidth + w.columnPosition

/-- The character at a place. -/
def charAt (w : Writer) (i : Nat) : UInt8 := (w.cell (i / bufferWidth) (i % bufferWidth)).1

/-- The number of times the screen scrolls when a byte is written. -/
def scrollsFor (byte : UInt8) (w : Writer) : Nat :=
  if (byte = 0x0a ∨ bufferWidth ≤ w.columnPosition) ∧ ¬w.row < bufferHeight - 1 then 1 else 0

/-- The number of times it scrolls when a text is written. -/
def scrolls : List UInt8 → Writer → Nat
  | [], _ => 0
  | byte :: bytes, w =>
      scrollsFor byte w +
        match writeByte byte w with
        | .done _ w' => scrolls bytes w'
        | _ => 0

variable {color : UInt8} {r : Roll Cell} {w : Writer}

theorem Prints.position_eq (h : w.Prints color r) :
    r.position bufferWidth = r.top * bufferWidth + w.place := by
  unfold Roll.position place
  rw [h.line, h.cursor, Nat.add_mul, Nat.add_assoc]

theorem Prints.charAt_eq (h : w.Prints color r) {i : Nat} (inside : i < bufferHeight * bufferWidth) :
    w.charAt i = (r.inkAt bufferWidth (r.top * bufferWidth + i)).1 := by
  have positive : 0 < bufferWidth := by decide
  have row : i / bufferWidth < bufferHeight := (Nat.div_lt_iff_lt_mul positive).mpr inside
  rw [charAt, h.cells _ _ row (Nat.mod_lt i positive), Roll.inkAt, Nat.mul_comm r.top,
    Nat.mul_add_div positive, Nat.mul_add_mod]

theorem OnScreen.place_le (h : w.OnScreen) : w.place ≤ bufferHeight * bufferWidth := by
  have row := h.row
  have column := h.column
  simp only [bufferHeight, bufferWidth] at row column
  simp only [place, bufferHeight, bufferWidth]
  omega

/-- The screen scrolls only when the cursor is on the last row. -/
theorem scrollsFor_le_place (byte : UInt8) (w : Writer) : bufferWidth * scrollsFor byte w ≤ w.place := by
  unfold scrollsFor place
  split
  · next moved =>
      simp only [bufferHeight, bufferWidth] at moved ⊢
      omega
  · exact Nat.zero_le _

section Printable
variable {byte : UInt8}

theorem enterChar_printable (low : 0x20 ≤ byte) (high : byte ≤ 0x7e) (other : byte ≠ 0x0a) :
    ([byte].map glyph).foldl (enterChar color) r =
      r.print bufferWidth bufferHeight (blank color) (byte, color) := by
  simp only [List.map_cons, List.map_nil, List.foldl_cons, List.foldl_nil, glyph, low, high, and_self,
    true_or, if_true, enterChar, Roll.enter, if_neg other]

theorem print_top_scrollsFor (w : Writer) (other : byte ≠ 0x0a) :
    (w.roll.print bufferWidth bufferHeight (blank w.colorCode) (byte, w.colorCode)).top =
      scrollsFor byte w := by
  have moves : bufferWidth ≤ w.roll.column ∧ w.roll.top + bufferHeight ≤ w.roll.line + 1 ↔
      (byte = 0x0a ∨ bufferWidth ≤ w.columnPosition) ∧ ¬w.row < bufferHeight - 1 := by
    simp only [other, false_or, roll]
    omega
  rw [Roll.print_top, scrollsFor]
  simp only [moves]
  exact Nat.zero_add _

/-- A printable character goes to the place of the cursor, and the text moves up when
the screen scrolls. -/
theorem writeString_printable (h : w.OnScreen) (low : 0x20 ≤ byte) (high : byte ≤ 0x7e) :
    Finishes (writeString [byte]) (fun _ w' => w'.OnScreen ∧
      w'.place + bufferWidth * scrollsFor byte w = w.place + 1 ∧
      w'.charAt (w.place - bufferWidth * scrollsFor byte w) = byte ∧
      ∀ i, i < w.place → bufferWidth * scrollsFor byte w ≤ i →
        w'.charAt (i - bufferWidth * scrollsFor byte w) = w.charAt i) w := by
  have other : byte ≠ 0x0a := by
    rintro rfl
    exact absurd low (by decide)
  apply Finishes.mono (writeString_prints h.prints [byte])
  intro _ w' printed
  rw [enterChar_printable low high other] at printed
  have top := print_top_scrollsFor w other
  have start : w.roll.position bufferWidth = w.place := rfl
  have position := printed.position_eq
  rw [Roll.print_position h.column, top, Nat.mul_comm _ bufferWidth, start] at position
  have fits := printed.toOnScreen.place_le
  have onRow := scrollsFor_le_place byte w
  refine ⟨printed.toOnScreen, by omega, ?_, ?_⟩
  · rw [printed.charAt_eq (by omega), top, Nat.mul_comm _ bufferWidth, Nat.add_sub_cancel' onRow,
      ← start, Roll.print_inkAt_position h.column (by decide)]
  · intro i before below
    have onScreen : i < (w.roll.top + bufferHeight) * bufferWidth := by
      rw [roll, Nat.zero_add]
      exact Nat.lt_of_lt_of_le before h.place_le
    rw [printed.charAt_eq (by omega), top, Nat.mul_comm _ bufferWidth, Nat.add_sub_cancel' below,
      Roll.print_inkAt_of_ne h.column (by decide) _ onScreen (by rw [start]; omega)]
    rfl

end Printable

theorem backspace_char (h : w.OnScreen) (behind : 0 < w.columnPosition) :
    Finishes backspace (fun _ w' => w'.OnScreen ∧ w'.place + 1 = w.place ∧
      ∀ i, i + 1 < w.place → w'.charAt i = w.charAt i) w := by
  refine Finishes.mono (backspace_prints h.prints) ?_
  intro _ w' printed
  have top : (w.roll.erase (blank w.colorCode)).top = 0 := by
    unfold Roll.erase
    split
    · rfl
    · rfl
  have start : w.roll.position bufferWidth = w.place := rfl
  have position := printed.position_eq
  have erased : (w.roll.erase (blank w.colorCode)).position bufferWidth + 1 =
      w.roll.position bufferWidth := Roll.erase_position behind
  rw [top] at position
  refine ⟨printed.toOnScreen, by omega, ?_⟩
  intro i before
  have fits := h.place_le
  rw [printed.charAt_eq (by omega), top, Nat.zero_mul, Nat.zero_add,
    Roll.erase_inkAt behind h.column, if_neg (by omega)]
  rfl

end Vga.Writer

namespace Shell
open Vga (Writer bufferWidth bufferHeight)

/-- The keystroke is put into the buffer and echoed. -/
def Session.inserts (ch : UInt8) (s : Session) : Bool :=
  !isEnter ch && !isErase ch && !isCancel ch && ch ≥ 0x20 && s.pos < maxCmdLen - 1

/-- The characters on the screen from a place to the cursor, row by row. -/
def Session.shownFrom (start : Nat) (s : Session) : List UInt8 :=
  (List.range' start (s.writer.place - start)).map s.writer.charAt

/-- The line that `read_line` would return now. -/
def Session.line (s : Session) : List UInt8 := s.buf.toList.take s.pos

/-- The place of the end of the prompt after some keystrokes. It moves up by a row with
the text whenever an echo scrolls the screen. -/
def promptEnd : List UInt8 → Session → Nat → Nat
  | [], _, start => start
  | ch :: keys, s, start =>
      match readKey ch s with
      | .done _ s' =>
          promptEnd keys s' (start - bufferWidth *
            s.writer.scrolls (if s.inserts ch then echo ch else []))
      | _ => start

/-- A character is erased only from the row of the cursor, and only ASCII is inserted. -/
structure Tame (ch : UInt8) (s : Session) : Prop where
  erase : isErase ch → 0 < s.pos → 0 < s.writer.columnPosition
  insert : s.inserts ch → ch < 0x80

/-- Every keystroke finds a session in which it is tame. -/
def TameRun : List UInt8 → Session → Prop
  | [], _ => True
  | ch :: keys, s => Tame ch s ∧ ∀ result s', readKey ch s = .done result s' → TameRun keys s'

/-- The screen shows the buffer from a place on. -/
structure Edited (start : Nat) (s : Session) : Prop where
  onScreen : s.writer.OnScreen
  room : s.pos < maxCmdLen
  place : start + s.pos = s.writer.place
  chars : ∀ k, k < s.pos → s.buf.toList[k]? = some (s.writer.charAt (start + k))

variable {start : Nat} {s : Session} {ch : UInt8}

theorem Edited.shown (h : Edited start s) : s.shownFrom start = s.line := by
  have length : s.buf.toList.length = maxCmdLen := Vector.length_toList
  have room := h.room
  unfold Session.shownFrom Session.line
  rw [← h.place, Nat.add_sub_cancel_left]
  apply List.ext_getElem?
  intro k
  by_cases inside : k < s.pos
  · rw [List.getElem?_map, List.getElem?_range' inside, List.getElem?_take_of_lt inside, h.chars k inside,
      Nat.one_mul]
    rfl
  · rw [List.getElem?_eq_none (by simp; omega), List.getElem?_eq_none (by simp; omega)]

theorem store_run {i : Nat} (inside : i < maxCmdLen) (byte : UInt8) (s : Session) :
    store i byte s = .done () { s with buf := s.buf.set i byte inside } := by
  rw [store, dif_pos inside]
  rfl

theorem echo_of_lt (ascii : ch < 0x80) : echo ch = [ch] := Utf8.encodeChar_of_ascii ascii

theorem scrolls_singleton (byte : UInt8) (w : Writer) : w.scrolls [byte] = w.scrollsFor byte := by
  unfold Writer.scrolls
  cases writeByte_ran : Writer.writeByte byte w with
  | done _ w' => rfl
  | halted w' => rfl
  | panicked why => rfl
  | faulted address => rfl
  | exhausted => rfl

/-- The prompt stays on the screen: a scroll needs a cursor behind the last row, and
the line is shorter than the screen. -/
theorem Edited.scroll_le (h : Edited start s) (other : ch ≠ 0x0a) :
    bufferWidth * s.writer.scrollsFor ch ≤ start := by
  have place := h.place
  have room := h.room
  unfold Writer.place at place
  unfold Writer.scrollsFor
  split
  · next moved =>
      simp only [maxCmdLen, bufferWidth, bufferHeight, other, false_or] at *
      omega
  · exact Nat.zero_le _

/-- The ASCII characters that are inserted are the printable ones: DEL erases. -/
theorem le_tilde_of_ascii (notErase : isErase ch = false) (ascii : ch < 0x80) : ch ≤ 0x7e := by
  simp only [isErase, Bool.or_eq_false_iff, decide_eq_false_iff_not] at notErase
  have notDelete := notErase.2
  rw [UInt8.le_iff_toNat_le]
  rw [UInt8.lt_iff_toNat_lt] at ascii
  rw [← UInt8.toNat_inj] at notDelete
  change ch.toNat < 128 at ascii
  change ¬ch.toNat = 127 at notDelete
  change ch.toNat ≤ 126
  omega

/-- The buffer and the screen agree again once both have the new character. -/
theorem Edited.insert (h : Edited start s) (space : s.pos < maxCmdLen - 1) (other : ch ≠ 0x0a)
    {w' : Writer} (onScreen : w'.OnScreen)
    (place : w'.place + bufferWidth * s.writer.scrollsFor ch = s.writer.place + 1)
    (here : w'.charAt (s.writer.place - bufferWidth * s.writer.scrollsFor ch) = ch)
    (before : ∀ i, i < s.writer.place → bufferWidth * s.writer.scrollsFor ch ≤ i →
      w'.charAt (i - bufferWidth * s.writer.scrollsFor ch) = s.writer.charAt i) :
    Edited (start - bufferWidth * s.writer.scrollsFor ch)
      { s with buf := s.buf.set s.pos ch h.room, pos := s.pos + 1, writer := w' } := by
  have room := h.room
  have old := h.place
  have shifted := h.scroll_le other
  refine ⟨onScreen, ?_, ?_, ?_⟩
  · change s.pos + 1 < maxCmdLen
    omega
  · change start - bufferWidth * s.writer.scrollsFor ch + (s.pos + 1) = w'.place
    omega
  · intro k inside
    change (s.buf.set s.pos ch room).toList[k]? =
      some (w'.charAt (start - bufferWidth * s.writer.scrollsFor ch + k))
    rw [Vector.toList_set, ← Nat.sub_add_comm shifted]
    by_cases last : k = s.pos
    · subst last
      rw [List.getElem?_set_self (by rw [Vector.length_toList]; exact room), old, here]
    · have earlier : k < s.pos := by
        change k < s.pos + 1 at inside
        omega
      rw [List.getElem?_set_ne (Ne.symm last), h.chars k earlier, before (start + k) (by omega) (by omega)]

theorem readKey_insert (h : Edited start s) (inserts : s.inserts ch) (ascii : ch < 0x80) :
    Finishes (readKey ch) (fun result s' => result = none ∧
      Edited (start - bufferWidth * s.writer.scrolls (echo ch)) s') s := by
  have room := h.room
  simp only [Session.inserts, Bool.and_eq_true, Bool.not_eq_true', decide_eq_true_eq] at inserts
  obtain ⟨⟨⟨⟨notEnter, notErase⟩, notCancel⟩, low⟩, space⟩ := inserts
  have high := le_tilde_of_ascii notErase ascii
  have other : ch ≠ 0x0a := by
    rintro rfl
    exact absurd low (by decide)
  have short : s.pos + 1 < 2 ^ 64 := by
    simp only [maxCmdLen] at room
    omega
  rw [echo_of_lt ascii, scrolls_singleton]
  unfold readKey
  rw [Finishes, Exec.get_bind, notEnter, if_neg (by decide), notErase, if_neg (by decide), notCancel,
    if_neg (by decide), if_pos ⟨low, space⟩, Exec.bind_of_done (store_run room ch s),
    Exec.bind_of_done (Exec.usizeAdd_of_lt short _), Exec.modify_bind, echo_of_lt ascii]
  refine Finishes.bind (Finishes.zoom (Finishes.mono (Writer.writeString_printable h.onScreen low high) ?_))
  rintro _ w' ⟨onScreen, place, here, before⟩
  exact Finishes.ret ⟨rfl, h.insert space other onScreen place here before⟩

theorem readKey_erase (h : Edited start s) (erases : isErase ch) (some_ : 0 < s.pos)
    (behind : 0 < s.writer.columnPosition) :
    Finishes (readKey ch) (fun result s' => result = none ∧ Edited start s') s := by
  have room := h.room
  have notEnter : isEnter ch = false := by
    simp only [isErase, Bool.or_eq_true, decide_eq_true_eq] at erases
    rcases erases with rfl | rfl
    · decide
    · decide
  have inside : s.pos - 1 < maxCmdLen := by omega
  unfold readKey
  rw [Finishes, Exec.get_bind, notEnter, if_neg (by decide), if_pos erases, if_pos some_,
    Exec.bind_of_done (Exec.usizeSub_of_le some_ s), Exec.modify_bind,
    Exec.bind_of_done (store_run inside 0 _)]
  refine Finishes.bind (Finishes.zoom (Finishes.mono (Writer.backspace_char h.onScreen behind) ?_))
  rintro _ w' ⟨onScreen, place, before⟩
  change w'.place + 1 = s.writer.place at place
  change ∀ i, i + 1 < s.writer.place → w'.charAt i = s.writer.charAt i at before
  have old := h.place
  refine Finishes.ret ⟨rfl, onScreen, inside, ?_, ?_⟩
  · change start + (s.pos - 1) = w'.place
    omega
  · intro k earlier
    change k < s.pos - 1 at earlier
    change (s.buf.set (s.pos - 1) 0 inside).toList[k]? = some (w'.charAt (start + k))
    rw [Vector.toList_set, List.getElem?_set_ne (by omega), h.chars k (by omega),
      before (start + k) (by omega)]

/-- Keystrokes that neither insert nor erase change nothing. -/
theorem readKey_ignored (notEnter : isEnter ch = false) (notCancel : isCancel ch = false)
    (erases : isErase ch → s.pos = 0) (inserts : s.inserts ch = false) :
    readKey ch s = .done none s := by
  unfold readKey
  rw [Exec.get_bind, notEnter, if_neg (by decide)]
  split
  · next erase =>
      rw [if_neg (by rw [erases erase]; decide)]
      rfl
  · next notErase =>
      have refused : ¬(ch ≥ 0x20 ∧ s.pos < maxCmdLen - 1) := by
        intro accepted
        simp [Session.inserts, notEnter, notCancel, notErase, accepted] at inserts
      rw [notCancel, if_neg (by decide), if_neg refused]
      rfl

/-- One keystroke of the editor keeps the screen and the buffer together. -/
theorem readKey_tame (h : Edited start s) (notEnter : isEnter ch = false)
    (notCancel : isCancel ch = false) (tame : Tame ch s) :
    Finishes (readKey ch) (fun result s' => result = none ∧ Edited (start - bufferWidth *
      s.writer.scrolls (if s.inserts ch then echo ch else [])) s') s := by
  by_cases inserts : s.inserts ch
  · rw [if_pos inserts]
    exact readKey_insert h inserts (tame.insert inserts)
  · rw [if_neg inserts]
    change Finishes (readKey ch) (fun result s' => result = none ∧ Edited (start - bufferWidth * 0) s') s
    rw [Nat.mul_zero, Nat.sub_zero]
    by_cases erases : isErase ch = true ∧ 0 < s.pos
    · exact readKey_erase h erases.1 erases.2 (tame.erase erases.1 erases.2)
    · have ran : readKey ch s = .done none s := by
        apply readKey_ignored notEnter notCancel
        · intro erase
          exact Nat.eq_zero_of_not_pos (fun some_ => erases ⟨erase, some_⟩)
        · exact eq_false_of_ne_true inserts
      exact Finishes.of_done ran ⟨rfl, h⟩

theorem readLine_tame (h : Edited start s) {keys : List UInt8}
    (editing : ∀ ch ∈ keys, isEnter ch = false ∧ isCancel ch = false) (tame : TameRun keys s) :
    Finishes (readLine keys) (fun result s' => result = none ∧ Edited (promptEnd keys s start) s') s := by
  induction keys generalizing start s with
  | nil => exact Finishes.ret ⟨rfl, h⟩
  | cons ch keys ih =>
      obtain ⟨notEnter, notCancel⟩ := editing ch List.mem_cons_self
      obtain ⟨result, s', ran, rfl, kept⟩ := readKey_tame h notEnter notCancel tame.1
      have rest := ih kept (fun other member => editing other (List.mem_cons_of_mem ch member))
        (tame.2 none s' ran)
      unfold readLine promptEnd
      rw [ran]
      exact Finishes.bind (Finishes.of_done ran rest)

theorem kprint_keeps (pieces : List String) : Writer.Keeps (kprint pieces) :=
  Writer.Keeps.forEach (fun _ => Writer.writeString_keeps _)

/-- A prompt is always printed. -/
theorem printPrompt_keeps : Writer.Keeps printPrompt := by
  apply (Writer.setColor_keeps _ _).andThen
  apply (kprint_keeps _).andThen
  apply (Writer.setColor_keeps _ _).andThen
  apply (kprint_keeps _).andThen
  apply (Writer.setColor_keeps _ _).andThen
  apply (kprint_keeps _).andThen
  exact Writer.setColor_keeps _ _

theorem edited_start {w : Writer} (h : w.OnScreen) : Edited w.place (Session.start w) where
  onScreen := h
  room := by
    change 0 < maxCmdLen
    decide
  place := rfl
  chars := by
    intro k inside
    exact absurd inside (Nat.not_lt_zero k)

/-- From every prompt on, and after any keystrokes that are tame where they are typed,
the screen shows the line that the shell would run. -/
theorem shown_line_is_buffer {w prompted : Writer} (reachable : w.Reachable)
    (prompt : printPrompt w = .done () prompted) (keys : List UInt8)
    (editing : ∀ ch ∈ keys, isEnter ch = false ∧ isCancel ch = false)
    (tame : TameRun keys (Session.start prompted)) :
    Finishes (readLine keys) (fun result s => result = none ∧
      promptEnd keys (Session.start prompted) prompted.place ≤ s.writer.place ∧
      s.shownFrom (promptEnd keys (Session.start prompted) prompted.place) = s.line)
      (Session.start prompted) := by
  have onScreen := (printPrompt_keeps w reachable.onScreen).done prompt
  refine Finishes.mono (readLine_tame (edited_start onScreen) editing tame) ?_
  rintro result s ⟨waits, edited⟩
  have place := edited.place
  exact ⟨waits, by omega, edited.shown⟩

/-- The first prompt after boot, and a command of two letters. -/
theorem shown_line_first_letters :
    ∃ prompted, printPrompt (Vga.initial (fun _ => 0)) = .done () prompted ∧
      Finishes (readLine [0x6c, 0x73]) (fun result s => result = none ∧
        promptEnd [0x6c, 0x73] (Session.start prompted) prompted.place ≤ s.writer.place ∧
        s.shownFrom (promptEnd [0x6c, 0x73] (Session.start prompted) prompted.place) = s.line)
        (Session.start prompted) := by
  have reachable := Writer.Reachable.initial (fun _ => 0)
  obtain ⟨_, prompted, prompt, _⟩ := printPrompt_keeps _ reachable.onScreen
  have tame (ch : UInt8) (letter : isErase ch = false) (ascii : ch < 0x80) (s : Session) :
      Tame ch s := by
    constructor
    · intro erase
      rw [letter] at erase
      cases erase
    · intro _
      exact ascii
  refine ⟨prompted, prompt, shown_line_is_buffer reachable prompt _ (by simp [isEnter, isCancel]) ?_⟩
  refine ⟨tame 0x6c rfl (by decide) _, fun _ s' _ => ⟨tame 0x73 rfl (by decide) s', ?_⟩⟩
  exact fun _ _ _ => trivial

/-- A line that has just wrapped, and two keystrokes that erase. The second one leaves
the screen as it is. -/
def wrapAndErase : List UInt8 := List.replicate 58 0x61 ++ [0x08, 0x08]

theorem erased_char_still_shown :
    ∃ prompted s, printPrompt (Vga.initial (fun _ => 0)) = .done () prompted ∧
      readLine wrapAndErase (Session.start prompted) = .done none s ∧
      s.line = List.replicate 56 0x61 ∧
      s.shownFrom (promptEnd wrapAndErase (Session.start prompted) prompted.place) =
        List.replicate 57 0x61 := by
  have ran : Finishes printPrompt (fun _ prompted =>
      (readLine wrapAndErase (Session.start prompted)).check (fun result s =>
        decide (result = none ∧ s.line = List.replicate 56 0x61 ∧
          s.shownFrom (promptEnd wrapAndErase (Session.start prompted) prompted.place) =
            List.replicate 57 0x61)) = true) (Vga.initial (fun _ => 0)) :=
    Finishes.of_check (by decide +kernel)
  obtain ⟨_, prompted, prompt, checked⟩ := ran
  obtain ⟨result, s, edited, shown⟩ := Finishes.of_check checked
  obtain ⟨rfl, line, screen⟩ := of_decide_eq_true shown
  exact ⟨prompted, s, prompt, edited, line, screen⟩

end Shell

end ComputeKernel
