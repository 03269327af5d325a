import ComputeKernel.Support.Words
import ComputeKernel.Process.Model
import ComputeKernel.Shell.Model

/-! The command side of the kernel shell (`kernel/src/shell.rs`): how a line is taken
apart, the built-in commands, and the loop of `run`. The loop is cut where it waits for
a character, so that a run is a list of keystrokes. The timer may interrupt between any two
operations on the screen and on the process table. -/
namespace ComputeKernel.Shell
open Checked (Exec)
open Vga (Writer Color)

/-- `char::is_whitespace`: the characters with the Unicode property `White_Space`. -/
def isWhitespace (c : Char) : Bool :=
  c.val = 0x20 || (0x09 ≤ c.val && c.val ≤ 0x0d) || c.val = 0x85 || c.val = 0xa0 || c.val = 0x1680 ||
    (0x2000 ≤ c.val && c.val ≤ 0x200a) || c.val = 0x2028 || c.val = 0x2029 || c.val = 0x202f ||
    c.val = 0x205f || c.val = 0x3000

/-- `str::trim`. -/
def trim (text : List Char) : List Char := Words.trim isWhitespace text

/-- `core::str::from_utf8(raw).unwrap_or("")`. -/
def decode (raw : List UInt8) : List Char :=
  match String.fromUTF8? (ByteArray.mk raw.toArray) with
  | some text => text.toList
  | none => []

/-- The words of a line that is not empty. A space is one byte long, so that the slices
around it are at character boundaries. -/
def words (line : List Char) : List Char × List Char := Words.words isWhitespace ' ' line

/-- The line editor, the statics of the process subsystem, whether `PROCESS_TABLE` is
locked, the interrupt flag, and the bytes written to the command port of the keyboard
controller. `arrivals` are the numbers of ticks that will come at the points at which
interrupts are on. -/
structure System where
  session : Session
  procs : Procs
  tableHeld : Bool
  interrupts : Bool
  arrivals : List Nat
  commandPort : List UInt8

/-- The timer interrupt. Its gate turns interrupts off; `tick` counts, and then takes the
lock of the process table. If the code that was interrupted holds it, it is never free. -/
def timer : Exec System Unit := do
  Exec.modify (fun s => { s with interrupts := false })
  let s ← Exec.get
  if s.tableHeld then do
    Exec.modify (fun s =>
      { s with procs := { s.procs with tickCount := s.procs.tickCount + 1 } })
    Exec.halt
  else Exec.modify (fun s => { s with procs := s.procs.tick, interrupts := true })

/-- A point of the code between two operations. -/
def pending : Exec System Unit := do
  let s ← Exec.get
  if s.interrupts then
    match s.arrivals with
    | [] => Exec.ret ()
    | ticks :: arrivals => do
        Exec.modify (fun s => { s with arrivals })
        Exec.forEach (List.replicate ticks ()) (fun _ => timer)
  else Exec.ret ()

def onSession {α : Type} (m : Exec Session α) : Exec System α :=
  Exec.zoom System.session (fun session s => { s with session }) m

/-- One operation on the writer, which interrupts nothing and is not interrupted. -/
def onScreen (m : Exec Writer Unit) : Exec System Unit := do
  pending
  onSession (onWriter m)

/-- `kprint!` and `kprintln!`. -/
def print (pieces : List String) : Exec System Unit := onScreen (kprint pieces)

def setColor (fg bg : Color) : Exec System Unit := onScreen (Writer.setColor fg bg)

/-- `PROCESS_TABLE.lock()`. -/
def lockTable : Exec System Unit := do
  pending
  let s ← Exec.get
  if s.tableHeld then Exec.halt else Exec.modify (fun s => { s with tableHeld := true })

def unlockTable : Exec System Unit := do
  pending
  Exec.modify (fun s => { s with tableHeld := false })

def cmdHelp : Exec System Unit := do
  print ["ComputeKERNEL built-in commands:\n"]
  print ["  help      - show this help\n"]
  print ["  clear     - clear the screen\n"]
  print ["  echo      - print arguments\n"]
  print ["  uname     - print system information\n"]
  print ["  version   - print kernel version\n"]
  print ["  ps        - list processes\n"]
  print ["  uptime    - show uptime in ticks\n"]
  print ["  halt      - halt the system\n"]
  print ["  reboot    - reboot the system\n"]

def cmdClear : Exec System Unit := onScreen Writer.clear

def cmdEcho (args : String) : Exec System Unit := print [args, "\n"]

def cmdUname : Exec System Unit := print ["ComputeKERNEL v1.0.0 x86_64\n"]

def cmdVersion : Exec System Unit := do
  print ["ComputeKERNEL v1.0.0\n"]
  print ["Built with Rust (nightly)\n"]
  print ["Architecture: x86_64\n"]

/-- `{:3}` of a PID: aligned to the right in three columns. -/
def padded (pid : UInt32) : List String :=
  let digits := toString pid.toNat
  [String.ofList (List.replicate (3 - digits.length) ' '), digits]

def stateLabel : ProcessState → String
  | .ready => "READY  "
  | .running => "RUNNING"
  | .blocked => "BLOCKED"
  | .zombie => "ZOMBIE "

/-- The pieces of the line that `ps` prints for an entry. -/
def psLine (p : Process) : List String :=
  ["  "] ++ padded p.pid ++ ["  ", stateLabel p.state, "  ", p.name, "\n"]

def psLines (table : List Process) : Exec System Unit := do
  print ["  PID  STATE    NAME\n"]
  Exec.forEach table (fun p => print (psLine p))

/-- The lock is held until the end. Nothing changes the table meanwhile. -/
def cmdPs : Exec System Unit := do
  lockTable
  let s ← Exec.get
  psLines s.procs.table
  unlockTable

def cmdUptime : Exec System Unit := do
  pending
  let s ← Exec.get
  print ["uptime: ", toString s.procs.tickCount.toNat, " ticks\n"]

def cmdHalt : Exec System Unit := do
  print ["Halting system...\n"]
  pending
  Exec.modify (fun s => { s with interrupts := false })
  Exec.halt

/-- The reset line of the keyboard controller is pulsed, and the processor waits. -/
def cmdReboot : Exec System Unit := do
  print ["Rebooting...\n"]
  pending
  Exec.modify (fun s => { s with commandPort := s.commandPort ++ [0xFE] })
  Exec.halt

def cmdUnknown (cmd : String) : Exec System Unit := do
  setColor Color.lightRed Color.black
  print ["shell: command not found: ", cmd, "\n"]
  setColor Color.white Color.black

/-- The `match` in `execute`. -/
def dispatch (cmd args : String) : Exec System Unit :=
  if cmd = "help" then cmdHelp
  else if cmd = "clear" then cmdClear
  else if cmd = "echo" then cmdEcho args
  else if cmd = "uname" then cmdUname
  else if cmd = "version" then cmdVersion
  else if cmd = "ps" then cmdPs
  else if cmd = "uptime" then cmdUptime
  else if cmd = "halt" ∨ cmd = "poweroff" then cmdHalt
  else if cmd = "reboot" then cmdReboot
  else cmdUnknown cmd

def execute (raw : List UInt8) : Exec System Unit :=
  let line := trim (decode raw)
  if line.isEmpty then Exec.ret ()
  else
    let (cmd, args) := words line
    dispatch (String.ofList cmd) (String.ofList args)

/-- What a user can ask for. -/
inductive Command where
  | help
  | clear
  | echo (args : String)
  | uname
  | version
  | ps
  | uptime
  | halt
  | reboot
  | unknown (cmd : String)
  deriving DecidableEq, Repr

/-- The function of a command. -/
def Command.run : Command → Exec System Unit
  | .help => cmdHelp
  | .clear => cmdClear
  | .echo args => cmdEcho args
  | .uname => cmdUname
  | .version => cmdVersion
  | .ps => cmdPs
  | .uptime => cmdUptime
  | .halt => cmdHalt
  | .reboot => cmdReboot
  | .unknown cmd => cmdUnknown cmd

/-- `print_prompt`, with the points between its operations. -/
def prompt : Exec System Unit := do
  setColor Color.lightGreen Color.black
  print [username, "@", hostname]
  setColor Color.white Color.black
  print [" ~ "]
  setColor Color.lightCyan Color.black
  print ["% "]
  setColor Color.white Color.black

/-- The start of a turn of the loop of `run`: a prompt, and a fresh buffer. -/
def beginLine : Exec System Unit := do
  prompt
  Exec.modify (fun s => { s with session := Session.start s.session.writer })

/-- The end of a turn: the line that has been read is run, and the next turn starts. -/
def finishLine (length : Nat) : Exec System Unit := do
  let s ← Exec.get
  let raw ← Exec.sliceTo s.session.buf.toList length
  execute raw
  beginLine

/-- The shell waits, and gets a character. Of what follows until the next point at most one
operation is on the screen; the rest is on the stack, which the timer does not look at. -/
def handleKey (ch : UInt8) : Exec System Unit := do
  pending
  match ← onSession (readKey ch) with
  | none => Exec.ret ()
  | some length => finishLine length

def welcome : Exec System Unit := do
  print ["\n"]
  print ["Welcome to ComputeKERNEL v1.0.0\n"]
  print ["Type 'help' for available commands.\n"]
  print ["\n"]

/-- `run` up to the last of the keys. It waits for the next character then. -/
def run (keys : List UInt8) : Exec System Unit := do
  welcome
  beginLine
  Exec.forEach keys handleKey

end ComputeKernel.Shell
