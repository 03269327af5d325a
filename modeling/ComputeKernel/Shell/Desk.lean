import Mathlib.Logic.Function.Iterate
import ComputeKernel.Support.Runs
import ComputeKernel.Drivers.Screen
import ComputeKernel.Shell.Parsing

/-! A session with the shell as its user sees it: a roll of paper that is printed on, and
the line that is being typed. There is no buffer, no cursor arithmetic and no text memory
in it, a command prints a text, and ticks come only between two keys. -/
namespace ComputeKernel.Shell
open Scrollback (Roll)
open Vga (Writer Color Cell)

/-- The colour code of a foreground on black. -/
def onBlack (fg : Color) : UInt8 := Vga.colorCodeNew fg.code Color.black.code

/-- A text printed in a colour. -/
def say (color : UInt8) (pieces : List String) (r : Roll Cell) : Roll Cell :=
  (pieces.flatMap (fun piece => piece.toByteArray.data.toList.map Writer.glyph)).foldl
    (Writer.enterChar color) r

def sayWhite (pieces : List String) (r : Roll Cell) : Roll Cell := say (onBlack .white) pieces r

def sayPrompt (r : Roll Cell) : Roll Cell :=
  say (onBlack .lightCyan) ["% "] (sayWhite [" ~ "]
    (say (onBlack .lightGreen) [username, "@", hostname] r))

def helpText : List String :=
  ["ComputeKERNEL built-in commands:\n", "  help      - show this help\n",
    "  clear     - clear the screen\n", "  echo      - print arguments\n",
    "  uname     - print system information\n", "  version   - print kernel version\n",
    "  ps        - list processes\n", "  uptime    - show uptime in ticks\n",
    "  halt      - halt the system\n", "  reboot    - reboot the system\n"]

def stateName : ProcessState → String
  | .ready => "READY"
  | .running => "RUNNING"
  | .blocked => "BLOCKED"
  | .zombie => "ZOMBIE"

/-- Columns of a table. -/
def flushRight (width : Nat) (text : String) : String := String.ofList (text.toList.leftpad width ' ')
def flushLeft (width : Nat) (text : String) : String := String.ofList (text.toList.rightpad width ' ')

def psRow (p : Process) : List String :=
  ["  ", flushRight 3 (toString p.pid.toNat), "  ", flushLeft 7 (stateName p.state), "  ", p.name, "\n"]

/-- The lines of a listing of the processes. -/
def listing (table : List Process) : List (List String) := ["  PID  STATE    NAME\n"] :: table.map psRow

/-- The paper after a command. -/
def Command.prints (procs : Procs) (r : Roll Cell) : Command → Roll Cell
  | .help => sayWhite helpText r
  | .clear => Roll.home (Writer.blank (onBlack .white))
  | .echo args => sayWhite [args, "\n"] r
  | .uname => sayWhite ["ComputeKERNEL v1.0.0 x86_64\n"] r
  | .version => sayWhite ["ComputeKERNEL v1.0.0\n", "Built with Rust (nightly)\n", "Architecture: x86_64\n"] r
  | .ps => sayWhite (listing procs.table).flatten r
  | .uptime => sayWhite ["uptime: ", toString procs.tickCount.toNat, " ticks\n"] r
  | .halt => sayWhite ["Halting system...\n"] r
  | .reboot => sayWhite ["Rebooting...\n"] r
  | .unknown cmd => say (onBlack .lightRed) ["shell: command not found: ", cmd, "\n"] r

/-- How a session ends: the machine is off, or it is reset. -/
inductive Ending where
  | off
  | reset
  deriving DecidableEq, Repr

def Command.ending : Command → Option Ending
  | .halt => some .off
  | .reboot => some .reset
  | _ => none

open Classical in
/-- The command that a line spells, if it spells one. -/
noncomputable def meaning (line : List UInt8) : Option Command :=
  if spelled : ∃ command, Spells line command then some spelled.choose else none

theorem Spells.meaning_eq {line : List UInt8} {command : Command} (spells : Spells line command) :
    meaning line = some command := by
  have spelled : ∃ command, Spells line command := ⟨command, spells⟩
  rw [meaning, dif_pos spelled, spells.unique spelled.choose_spec]

theorem meaning_of_blank {line : List UInt8} (blank : Blank line) : meaning line = none :=
  dif_neg (fun ⟨_, spells⟩ => spells.not_blank blank)

/-- What the user has in front of them, and the processes. -/
structure Desk where
  roll : Roll Cell
  line : List UInt8
  procs : Procs

/-- The shell waits for a character, or the session is over. -/
inductive Situation where
  | waiting (desk : Desk)
  | ended (how : Ending) (desk : Desk)

inductive Event where
  | key (ch : UInt8)
  | tick
  deriving DecidableEq, Repr

namespace Desk

/-- The next prompt. -/
def prompt (d : Desk) : Desk := { d with roll := sayPrompt d.roll, line := [] }

def shows (d : Desk) (command : Command) : Desk := { d with roll := command.prints d.procs d.roll }

/-- The line is run, and unless this ends the session the next prompt follows. -/
noncomputable def execute (d : Desk) : Situation :=
  match meaning d.line with
  | none => .waiting d.prompt
  | some command =>
      match command.ending with
      | some how => .ended how (d.shows command)
      | none => .waiting (d.shows command).prompt

theorem execute_of_blank {d : Desk} (blank : Blank d.line) : d.execute = .waiting d.prompt := by
  rw [execute, meaning_of_blank blank]

theorem execute_of_returns {d : Desk} {command : Command} (spells : Spells d.line command)
    (returns : command.ending = none) : d.execute = .waiting (d.shows command).prompt := by
  simp only [execute, spells.meaning_eq, returns]

theorem execute_of_ends {d : Desk} {command : Command} {how : Ending}
    (spells : Spells d.line command) (ends : command.ending = some how) :
    d.execute = .ended how (d.shows command) := by
  simp only [execute, spells.meaning_eq, ends]

/-- The paper is fed to the next line. -/
def feed (d : Desk) : Desk := { d with roll := sayWhite ["\n"] d.roll }

theorem feed_line (d : Desk) : d.feed.line = d.line := by
  simp only [feed]

def erase (d : Desk) : Desk :=
  if d.line = [] then d
  else { d with roll := d.roll.erase (Writer.blank (onBlack .white)), line := d.line.dropLast }

def cancel (d : Desk) : Desk := { d with roll := sayWhite ["^C\n"] d.roll }.prompt

/-- A character that is typed is shown as the text of its code point. -/
def insert (ch : UInt8) (d : Desk) : Desk :=
  if ch ≥ 0x20 ∧ d.line.length < maxCmdLen - 1 then
    { d with
      roll := ((echo ch).map Writer.glyph).foldl (Writer.enterChar (onBlack .white)) d.roll
      line := d.line ++ [ch] }
  else d

noncomputable def press (ch : UInt8) (d : Desk) : Situation :=
  if isEnter ch then d.feed.execute
  else if isErase ch then .waiting d.erase
  else if isCancel ch then .waiting d.cancel
  else .waiting (d.insert ch)

end Desk

/-- Nothing happens after the end. -/
noncomputable def Situation.step : Situation → Event → Situation
  | .waiting d, .key ch => d.press ch
  | .waiting d, .tick => .waiting { d with procs := d.procs.tick }
  | .ended how d, _ => .ended how d

def welcomeText : List String :=
  ["\n", "Welcome to ComputeKERNEL v1.0.0\n", "Type 'help' for available commands.\n", "\n"]

/-- The desk at the first prompt. -/
def Desk.start (r : Roll Cell) (procs : Procs) : Desk :=
  Desk.prompt { roll := sayWhite welcomeText r, line := [], procs }

/-- The keys among the events. -/
def keysOf (events : List Event) : List UInt8 :=
  events.filterMap (fun event =>
    match event with
    | .key ch => some ch
    | .tick => none)

section Ticks

def Desk.ticked (n : Nat) (d : Desk) : Desk := { d with procs := Procs.tick^[n] d.procs }

def Situation.ticked (n : Nat) : Situation → Situation
  | .waiting d => .waiting (d.ticked n)
  | .ended how d => .ended how d

theorem Desk.ticked_ticked (n m : Nat) (d : Desk) : (d.ticked n).ticked m = d.ticked (m + n) := by
  unfold Desk.ticked
  rw [Function.iterate_add_apply]

theorem Desk.prompt_ticked (n : Nat) (d : Desk) : (d.ticked n).prompt = d.prompt.ticked n := by
  simp only [Desk.prompt, Desk.ticked]

theorem run_ticks (n : Nat) (now : Situation) :
    Runs.run Situation.step now (List.replicate n .tick) = now.ticked n := by
  cases now with
  | waiting d =>
      induction n generalizing d with
      | zero => rfl
      | succ n ih => exact ih _
  | ended how d =>
      induction n with
      | zero => rfl
      | succ n ih => exact ih

theorem keysOf_ticks (n : Nat) : keysOf (List.replicate n .tick) = [] := by
  induction n with
  | zero => rfl
  | succ n ih => exact ih

theorem keysOf_append (first second : List Event) : keysOf (first ++ second) = keysOf first ++ keysOf second :=
  List.filterMap_append

end Ticks

end ComputeKernel.Shell
