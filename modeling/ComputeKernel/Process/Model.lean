import ComputeKernel.Support.Runs
import ComputeKernel.Support.FirstMatch

/-! State and operations of the process subsystem (`kernel/src/process`). Each
operation is one interrupt-free section of the source, executed as the process
that `CURRENT_PID` names; messages on the serial line are left out. -/
namespace ComputeKernel
open FirstMatch (editFirst)

inductive ProcessState where
  | ready
  | running
  | blocked
  | zombie
  deriving DecidableEq, Repr

inductive Priority where
  | idle
  | low
  | normal
  | high
  | realTime
  deriving DecidableEq, Repr

/-- Process control block. -/
structure Process where
  pid : UInt32
  parentPid : UInt32
  name : String
  state : ProcessState
  priority : Priority
  kernelRsp : UInt64
  exitCode : Int32
  pendingSignals : UInt32
  deriving DecidableEq, Repr

/-- The statics `PROCESS_TABLE`, `NEXT_PID`, `TICK` and `CURRENT_PID`. -/
structure Procs where
  table : List Process
  nextPid : UInt32
  tickCount : UInt64
  currentPid : UInt32
  deriving DecidableEq, Repr

/-- The second component is `NEXT_PID` after the fetch-and-add, which wraps. -/
def Process.new (name : String) (parentPid nextPid : UInt32) : Process × UInt32 :=
  ({ pid := nextPid
     parentPid := parentPid
     name := name
     state := .ready
     priority := .normal
     kernelRsp := 0
     exitCode := 0
     pendingSignals := 0 }, nextPid + 1)

/-- What the scan of `schedule` accepts. -/
def Process.runnable (p : Process) : Bool := p.state == .ready || p.state == .running

/-- The body of the loop in `exit` that hands the children to PID 1. -/
def Process.reparent (current : UInt32) (child : Process) : Process :=
  if child.parentPid == current then { child with parentPid := 1 } else child

namespace Procs

def schedulerInit (s : Procs) : Procs := { s with tickCount := 0, currentPid := 0 }

def init (s : Procs) : Procs :=
  let idle : Process :=
    { pid := 0
      parentPid := 0
      name := "idle"
      state := .running
      priority := .idle
      kernelRsp := 0
      exitCode := 0
      pendingSignals := 0 }
  let (init, nextPid) := Process.new "init" 0 s.nextPid
  schedulerInit { s with table := (s.table ++ [idle]) ++ [init], nextPid }

/-- The initial values of the statics, before `process::init`. -/
def powerOn : Procs := { table := [], nextPid := 1, tickCount := 0, currentPid := 0 }

def boot : Procs := powerOn.init

/-- The table entry an operation finds for the process it is executed as. -/
def caller (s : Procs) : Option Process := s.table.find? (fun p => p.pid == s.currentPid)

/-- `table.iter_mut().find(|p| p.pid == pid)` and an update of the entry found. -/
def edit (pid : UInt32) (change : Process → Process) (s : Procs) : Procs :=
  { s with table := editFirst (fun p => p.pid == pid) change s.table }

def fork (s : Procs) : Except String UInt32 × Procs :=
  match s.caller with
  | none => (.error "fork: current process not found", s)
  | some parent =>
      let child : Process :=
        { pid := s.nextPid
          parentPid := parent.pid
          name := parent.name
          state := .ready
          priority := parent.priority
          kernelRsp := parent.kernelRsp
          exitCode := 0
          pendingSignals := 0 }
      (.ok child.pid, { s with table := s.table ++ [child], nextPid := s.nextPid + 1 })

/-- `path.rsplit('/').next()`: the text after the last slash, all of it without one. -/
def lastComponent (path : String) : String :=
  String.ofList (path.toList.reverse.takeWhile (· != '/')).reverse

def execve (path : String) (s : Procs) : Except String Unit × Procs :=
  match s.caller with
  | none => (.error "execve: current process not found", s)
  | some _ =>
      (.ok (), s.edit s.currentPid (fun p =>
        { p with name := lastComponent path, pendingSignals := 0 }))

/-- The section of `exit` that runs without interrupts. -/
def exitSection (code : Int32) (s : Procs) : Procs :=
  let marked := s.edit s.currentPid (fun p => { p with state := .zombie, exitCode := code })
  { marked with table := marked.table.map (Process.reparent s.currentPid) }

/-- `target.map_or(true, |wanted| p.pid == wanted)`. -/
def wants (target : Option UInt32) (p : Process) : Bool :=
  match target with
  | none => true
  | some wanted => p.pid == wanted

def isChild (s : Procs) (target : Option UInt32) (p : Process) : Bool :=
  p.parentPid == s.currentPid && wants target p

/-- The entry one iteration of `waitpid` takes, with its index. -/
def zombieChild (s : Procs) (target : Option UInt32) : Option (Process × Nat) :=
  s.table.zipIdx.find? (fun entry =>
    entry.1.parentPid == s.currentPid && entry.1.state == .zombie && wants target entry.1)

/-- One iteration of `waitpid`; `.ok none` goes on to `hlt` and the next one. -/
def waitpid (target : Option UInt32) (s : Procs) :
    Except String (Option (UInt32 × Int32)) × Procs :=
  if s.table.any (s.isChild target) then
    match s.zombieChild target with
    | some (p, idx) =>
        (.ok (some (p.pid, p.exitCode)), { s with table := s.table.eraseIdx idx })
    | none => (.ok none, s)
  else (.error "waitpid: no child", s)

def sigInt : UInt8 := 2
def sigQuit : UInt8 := 3
def sigKill : UInt8 := 9
def sigTerm : UInt8 := 15

/-- `mask & (1u32 << sig) != 0`. -/
def hasSignal (mask : UInt32) (sig : UInt8) : Bool := mask &&& (1 <<< sig.toUInt32) != 0

def kill (pid : UInt32) (sig : UInt8) (s : Procs) : Except String Unit × Procs :=
  if sig > 31 then (.error "kill: invalid signal", s)
  else
    match s.table.find? (fun p => p.pid == pid) with
    | none => (.error "kill: process not found", s)
    | some _ =>
        if sig != 0 then
          (.ok (), s.edit pid (fun p =>
            { p with pendingSignals := p.pendingSignals ||| (1 <<< sig.toUInt32) }))
        else (.ok (), s)

def terminatingSig (pending : UInt32) : Option UInt8 :=
  if hasSignal pending sigKill then some sigKill
  else if hasSignal pending sigTerm then some sigTerm
  else if hasSignal pending sigInt then some sigInt
  else if hasSignal pending sigQuit then some sigQuit
  else none

def dispatchSignals (pid : UInt32) (s : Procs) : Procs :=
  match s.table.find? (fun p => p.pid == pid) with
  | none => s
  | some proc =>
      if proc.pendingSignals == 0 then s
      else
        match terminatingSig proc.pendingSignals with
        | some sig => s.edit pid (fun p =>
            { p with
              state := .zombie
              exitCode := 128 + Int32.ofNat sig.toNat
              pendingSignals := 0 })
        | none => s.edit pid (fun p => { p with pendingSignals := 0 })

/-- The `for i in 1..=n` scan: the PID at the first runnable index. -/
def scan (table : List Process) (start : Nat) : Option UInt32 :=
  (List.range' 1 table.length).findSome? (fun i =>
    (table[(start + i) % table.length]?).bind (fun p =>
      if p.runnable then some p.pid else none))

/-- The index the scan starts after; slot 0 when the current PID is not found. -/
def scanStart (s : Procs) : Nat :=
  (s.table.findIdx? (fun p => p.pid == s.currentPid)).getD 0

def schedule (s : Procs) : Procs :=
  if s.table.length = 0 then { s with currentPid := 0 }
  else
    match scan s.table s.scanStart with
    | some pid => { s with currentPid := pid }
    | none => s

def forceSchedule (s : Procs) : Procs := s.schedule

def timeslice : UInt64 := 10

/-- Whether the next tick ends a time slice. -/
def sliceEnds (s : Procs) : Bool := (s.tickCount + 1) % timeslice == 0

def tick (s : Procs) : Procs :=
  let dispatched := dispatchSignals s.currentPid { s with tickCount := s.tickCount + 1 }
  if s.sliceEnds then dispatched.schedule else dispatched

/-- All of `exit` when no timer interrupt lands before its `force_schedule`. -/
def exit (code : Int32) (s : Procs) : Procs := (s.exitSection code).forceSchedule

def currentIsZombie (s : Procs) : Bool :=
  (s.caller.map (fun p => p.state == .zombie)).getD false

/-- The steps of a run. `exitSection` alone is an `exit` that ticks interrupt
before its `force_schedule`, which is then a step of its own. -/
inductive Op where
  | fork
  | execve (path : String)
  | exit (code : Int32)
  | exitSection (code : Int32)
  | waitpid (target : Option UInt32)
  | kill (pid : UInt32) (sig : UInt8)
  | tick
  | forceSchedule
  deriving DecidableEq, Repr

def step (s : Procs) : Op → Procs
  | .fork => s.fork.2
  | .execve path => (s.execve path).2
  | .exit code => s.exit code
  | .exitSection code => s.exitSection code
  | .waitpid target => (s.waitpid target).2
  | .kill pid sig => (s.kill pid sig).2
  | .tick => s.tick
  | .forceSchedule => s.forceSchedule

def run (s : Procs) (ops : List Op) : Procs := Runs.run step s ops

end Procs
end ComputeKernel
