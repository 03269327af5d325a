import ComputeKernel.Syscall.Bystanders
import ComputeKernel.Syscall.Output

/-! The screen over a whole history of system calls. Only writes to the console draw on it,
whatever else is called and whatever interrupts arrive, so that it shows the end of all the
text that has been written; the serial line gets the same text among other things. -/
namespace ComputeKernel.Kernel
open Checked (Exec Finishes Returns Within)
open Scrollback (Roll)
open Vga (Writer)

/-- From one kernel to another this text has been written to the console. -/
structure Writes (text : List Char) (k k' : Kernel) : Prop where
  screen : Writer.writeString (Utf8.encode text) k.screen = .done () k'.screen
  serial : ∃ sent, k'.serial = k.serial ++ sent ∧ text.Sublist sent

variable {k k' k'' : Kernel} {text text' : List Char}

theorem Writes.trans (first : Writes text k k') (second : Writes text' k' k'') :
    Writes (text ++ text') k k'' := by
  obtain ⟨sent, grown, inside⟩ := first.serial
  obtain ⟨sent', grown', inside'⟩ := second.serial
  refine ⟨?_, sent ++ sent', ?_, inside.append inside'⟩
  · rw [Utf8.encode_append, writeString_append _ _ first.screen]
    exact second.screen
  · rw [grown', grown, List.append_assoc]

/-- Nothing is drawn, and the serial line goes on. -/
def Undrawn (k k' : Kernel) : Prop := Writes [] k k'

theorem undrawn_of_sent (screen : k'.screen = k.screen) {sent : List Char}
    (serial : k'.serial = k.serial ++ sent) : Undrawn k k' where
  screen := by
    rw [screen]
    rfl
  serial := ⟨sent, serial, List.nil_sublist sent⟩

theorem undrawn_of_same (screen : k'.screen = k.screen) (serial : k'.serial = k.serial) :
    Undrawn k k' := undrawn_of_sent screen (serial.trans (List.append_nil _).symm)

instance : Std.Refl Undrawn where
  refl _ := undrawn_of_same rfl rfl

instance : IsTrans Kernel Undrawn where
  trans _ _ _ first second := Writes.trans first second

theorem undrawn_serialPrint (text : List Char) : Within Undrawn (serialPrint text) :=
  fun _ => Returns.bind (Returns.modify (Returns.ret (undrawn_of_sent rfl rfl)))

theorem undrawn_interrupt (irq : Irq) : Within Undrawn (interrupt irq) := by
  cases irq with
  | timer => exact Within.modify (fun _ => undrawn_of_same rfl rfl)
  | scancode byte => exact Within.modify (fun _ => undrawn_of_same rfl rfl)
  | keyboard =>
      refine Within.bind (fun _ => Returns.zoom (fun _ _ _ => ?_)) (fun echo => undrawn_serialPrint echo)
      exact undrawn_of_same rfl rfl

theorem undrawn_pending : Within Undrawn pending := by
  refine Within.get_bind (fun k => ?_)
  cases k.arrivals with
  | nil => exact Returns.ret (Std.Refl.refl k)
  | cons batch rest =>
      refine Within.bind (Within.modify (fun _ => ?_)) (fun _ => Within.forEach undrawn_interrupt) k
      exact undrawn_of_same rfl rfl

theorem undrawn_tolerant : Tolerant Undrawn where
  pending := undrawn_pending
  serialPrint := undrawn_serialPrint
  aside same := undrawn_of_same same.screen same.serial

theorem Undrawn.writes (first : Undrawn k k') (second : Writes text k' k'') : Writes text k k'' :=
  Writes.trans first second

section Console

theorem readBytes_returns (count : Nat) (buf : UInt64) :
    Returns (readBytes buf count) (fun bytes k' => k' = k ∧ bytes = Memory.load k.memory buf count) k := by
  induction count generalizing buf with
  | zero => exact Returns.ret ⟨rfl, rfl⟩
  | succ count ih =>
      refine Returns.bind (Returns.bind (Returns.get ?_))
      cases found : k.memory buf with
      | none => exact Returns.fault buf
      | some byte =>
          refine Returns.ret (Returns.andThen (ih (buf + 1)) ?_)
          rintro _ k ⟨rfl, rfl⟩
          refine Returns.ret ⟨rfl, ?_⟩
          rw [Memory.load_succ, found]
          rfl

/-- The text among the bytes at an address, if they are text. -/
def textAt (k : Kernel) (buf count : UInt64) : List Char :=
  ((fromUtf8 (Memory.load k.memory buf count.toNat)).map String.toList).getD []

theorem writeConsole_writes (buf count : UInt64) :
    Returns (writeConsole buf count) (fun _ k' => Writes (k.textAt buf count) k k') k := by
  refine Returns.bind (Returns.ite (fun _ => Returns.ret ?_) (fun _ => Returns.fault buf))
  refine Returns.andThen (readBytes_returns count.toNat buf) ?_
  rintro _ k ⟨rfl, rfl⟩
  unfold textAt
  cases decoded : fromUtf8 (Memory.load k.memory buf count.toNat) with
  | none => exact Returns.ret (undrawn_of_same rfl rfl)
  | some string =>
      refine Returns.bind (Returns.bind (Returns.modify (Returns.ret ?_)))
      refine Returns.bind (Returns.bind (Returns.zoom (fun _ screen drawn => Returns.ret (Returns.ret ?_))))
      refine ⟨?_, string.toList, rfl, List.Sublist.refl _⟩
      change Writer.writeString (Utf8.encode string.toList) k.screen = .done () screen
      rw [fromUtf8_eq_some_iff.mp decoded]
      exact drawn

end Console

/-- The text that a call writes to the console. -/
def written (frame : SyscallFrame) (k : Kernel) : List Char :=
  if frame.num = Number.write ∧ (asI32 frame.rdi = 1 ∨ asI32 frame.rdi = 2) ∧ frame.rsi ≠ 0 then
    k.textAt frame.rsi frame.rdx
  else []

theorem textAt_zero (buf : UInt64) : k.textAt buf 0 = [] := by
  have empty : fromUtf8 [] = some "" := fromUtf8_eq_some_iff.mpr rfl
  change ((fromUtf8 []).map String.toList).getD [] = []
  rw [empty]
  rfl

theorem dispatch_writes (frame : SyscallFrame) :
    Returns (dispatch frame) (fun _ k' => Writes (written frame k) k k') k := by
  by_cases writes : frame.num = Number.write ∧ (asI32 frame.rdi = 1 ∨ asI32 frame.rdi = 2)
  · obtain ⟨call, output⟩ := writes
    have isWrite : dispatch frame = sysWrite (asI32 frame.rdi) frame.rsi frame.rdx := by
      simp [dispatch, call, Number.read, Number.write]
    rw [isWrite, written]
    refine Returns.ite (fun empty => Returns.ret ?_) (fun _ => ?_)
    · rw [empty, textAt_zero, ite_self]
      exact undrawn_of_same rfl rfl
    refine Returns.ite (fun null => Returns.ret ?_) (fun address => ?_)
    · rw [if_neg (fun all => all.2.2 null)]
      exact undrawn_of_same rfl rfl
    refine Returns.ite (fun _ => ?_) (fun other => absurd output other)
    rw [if_pos ⟨call, output, address⟩]
    exact writeConsole_writes _ _
  · have undrawn : Within Undrawn (dispatch frame) := undrawn_tolerant.dispatch_of_blind
      (fun _ _ => undrawn_of_same rfl rfl) (fun _ _ => undrawn_tolerant.readStdin (fun _ _ => undrawn_of_same rfl rfl) _ _)
      (fun call output => absurd ⟨call, output⟩ writes)
    refine Returns.mono (undrawn k) (fun _ k' passed => ?_)
    rw [written, if_neg (fun all => writes ⟨all.1, all.2.1⟩)]
    exact passed

/-- The states of the kernel between system calls from some state on, with the text that has
been written to the console since. User code changes its memory, and interrupts arrive at
any time. -/
inductive Shown (start : Kernel) : Kernel → List Char → Prop where
  | start : Shown start start []
  | user {k : Kernel} {text : List Char} (memory : UInt64 → Option UInt8)
      (arrivals : List (List Irq)) : Shown start k text → Shown start { k with memory, arrivals } text
  | interrupted {k k' : Kernel} {text : List Char} :
      Shown start k text → pending k = .done () k' → Shown start k' text
  | returned {k k' : Kernel} {text : List Char} {frame : SyscallFrame} {result : Int} :
      Shown start k text → dispatch frame k = .done result k' →
      Shown start k' (text ++ written frame k)

theorem Shown.writes {start : Kernel} (shown : Shown start k text) : Writes text start k := by
  induction shown with
  | start => exact undrawn_of_same rfl rfl
  | user memory arrivals _ writes => exact ⟨writes.screen, writes.serial⟩
  | interrupted _ ran writes =>
      have whole := writes.trans (undrawn_pending.done ran)
      rwa [List.append_nil] at whole
  | returned _ ran writes => exact writes.trans (dispatch_writes _ _ _ ran)

/-- From a cleared screen on, whatever is called and whatever interrupts arrive, the screen
shows the end of the text that the calls have written to the console, laid out as one text;
and all of this text is on the serial line, in the same order. -/
theorem screen_shows_output {start : Kernel} {w : Writer}
    (cleared : Writer.clear w = .done () start.screen) (shown : Shown start k text) :
    k.screen.ShowsText w.colorCode w.colorCode (Utf8.encode text) ∧
      ∃ sent, k.serial = start.serial ++ sent ∧ text.Sublist sent := by
  have writes := shown.writes
  refine ⟨?_, writes.serial⟩
  have home := (Writer.Prints.of_clear w).done cleared
  have printed := (Writer.writeString_prints home (Utf8.encode text)).done writes.screen
  refine printed.showsText ?_
  have laid : (Roll.home (Writer.blank w.colorCode)).Laid Vga.bufferHeight
      (fun char => (char, w.colorCode))
      (fun cell => cell = Writer.blank w.colorCode ∨ cell = Writer.blank w.colorCode)
      (Layout.rows Vga.bufferWidth 0x0a []) := by
    rw [Layout.rows_nil]
    exact Roll.home_laid (by decide) (Or.inl rfl)
  exact laid.enterAll (by decide) (Or.inr rfl) ((Utf8.encode text).map Writer.glyph)

end ComputeKernel.Kernel
