import ComputeKernel.Support.Interrupts
import ComputeKernel.Arch.Interrupts
import ComputeKernel.Shell.Commands

/-! The locks of the running kernel, from `kernel_main` through the shell, and of the handlers
of its hardware IRQs. A function is reduced to the locks it takes and to what it does with
the interrupt flag; a test of data is a branch that may go either way, and a loop over
data has a length that is given. The locks that no code here takes (`FD_TABLE`, `FB`), the
one-time initialisation of `TSS`, `GDT`, `IDT` and `KEYBOARD`, and the NMI, exceptions and
panics are left out here. -/
namespace ComputeKernel.Boot
open Locks (Context Ending Machine)
open Locks.Code (withoutInterrupts locked forEach sequence Guarded Neutral)
open Arch (IrqHandler)
open Shell (Command)

inductive KernelLock where
  | serial1
  | writer
  | pics
  | allocator
  | pciLock
  | keyboard
  | keyBuffer
  | processTable
  deriving DecidableEq, Repr

abbrev Code : Type := Locks.Code KernelLock Unit

/-- The body of `_serial_print`. -/
def serialPrint : Code := withoutInterrupts (locked .serial1 .done)

/-- `WRITER` with interrupts off, as for `kprint!`, `set_color`, `backspace` and `clear`. -/
def onWriter : Code := withoutInterrupts (locked .writer .done)

/-- One operation of the global allocator. -/
def allocate : Code := locked .allocator .done

/-- `Vec::push`, which may move the items to a larger block. -/
def push : Code := .choose .done (allocate.andThen (.choose .done allocate))

section Handlers

def dispatchSignals : Code := withoutInterrupts (locked .processTable .done)

def schedule : Code := locked .processTable (.choose .done serialPrint)

def tick : Code := .pass (dispatchSignals.andThen (.choose .done schedule))

def decodeScancode : Code := locked .keyboard (.choose .done serialPrint)

def handleInterrupt : Code :=
  .pass (decodeScancode.andThen (.choose .done (locked .keyBuffer .done)))

def endOfInterrupt : Code := locked .pics .done

def handlerCode : IrqHandler → Code
  | .timerInterruptHandler => tick.andThen endOfInterrupt
  | .keyboardInterruptHandler => handleInterrupt.andThen endOfInterrupt
  | _ => endOfInterrupt

end Handlers

section Shell

def tryReadChar : Code := withoutInterrupts (locked .keyBuffer .done)

def pollChar : Code := withoutInterrupts (.pass (.choose .done (.pass decodeScancode)))

def printPrompt : Code := forEach (List.range 7) (fun _ => onWriter)

/-- The wait for a character, with so many turns that find none. -/
def waitChar (turns : Nat) : Code :=
  sequence [forEach (List.range turns) (fun _ => sequence [tryReadChar, pollChar, .pass .done]),
    tryReadChar, .choose .done pollChar]

/-- A line: the turns of the wait before each key that is edited into it, and before the
key that ends it. -/
def readLine (keys : List Nat) (last : Nat) : Code :=
  sequence [forEach keys (fun turns => sequence [waitChar turns, .choose .done onWriter]),
    waitChar last, onWriter]

/-- A command, in a table of so many processes. -/
def commandCode (processes : Nat) : Command → Code
  | .help => forEach (List.range 10) (fun _ => onWriter)
  | .clear => onWriter
  | .echo _ => onWriter
  | .uname => onWriter
  | .version => forEach (List.range 3) (fun _ => onWriter)
  | .ps => locked .processTable
      (onWriter.andThen (forEach (List.range processes) (fun _ => onWriter)))
  | .uptime => .pass onWriter
  | .halt => onWriter.andThen (.cli .halt)
  | .reboot => onWriter.andThen (.pass .halt)
  | .unknown _ => sequence [onWriter, onWriter, onWriter]

/-- A turn of the loop of `run`. -/
structure Turn where
  keys : List Nat
  last : Nat
  processes : Nat
  command : Option Command
  deriving DecidableEq, Repr

def Turn.code (t : Turn) : Code :=
  match t.command with
  | none => .done
  | some command => commandCode t.processes command

/-- The command does not return. -/
def Turn.stops (t : Turn) : Bool := t.command = some .halt || t.command = some .reboot

def run : List Turn → Code
  | [] => .done
  | t :: turns => (sequence [printPrompt, readLine t.keys t.last]).andThen (t.code.andThen (run turns))

end Shell

section Boot

def configRead32 : Code := locked .pciLock (.pass .done)

/-- `probe`, and the `push` of what it finds. -/
def probe (rest : Code) : Code :=
  configRead32.andThen (.choose .done
    (sequence [configRead32, configRead32, configRead32, push, rest]))

def enumerate : Code :=
  forEach (List.range 256) (fun _ => forEach (List.range 32) (fun _ =>
    probe (.choose .done (forEach (List.range 7) (fun _ => probe .done)))))

/-- `pci::init`, which logs so many devices and drops the list of them. -/
def pciInit (devices : Nat) : Code :=
  sequence [enumerate, forEach (List.range devices) (fun _ => serialPrint), serialPrint,
    .choose .done allocate]

/-- Two names, and two entries of the table. -/
def processInit : Code :=
  locked .processTable (sequence [allocate, push, allocate, push, .pass .done])

/-- A step of `kernel_main` between its two messages. -/
def logged (body : Code) : Code := sequence [serialPrint, body, serialPrint]

/-- `kernel_main` up to the end of `idt::init`, which loads the table of handlers. -/
def loadTables : Code :=
  sequence
    [locked .serial1 (.pass .done), serialPrint, locked .writer (.pass .done), onWriter,
      logged (.pass .done), serialPrint, .pass .done]

/-- `kernel_main` from there until it enables interrupts. -/
def initialise (devices : Nat) : Code :=
  sequence
    [serialPrint, logged (locked .pics (.pass .done)),
      logged (.pass (locked .allocator (.pass .done))), logged (pciInit devices),
      logged (locked .keyboard (.pass .done)), logged processInit]

def welcome : Code := forEach (List.range 4) (fun _ => onWriter)

/-- Everything between the load of the tables and the loop of the shell. -/
def startUp (devices : Nat) : Code :=
  (initialise devices).andThen (.sti (sequence [serialPrint, serialPrint, welcome]))

def afterLoad (devices : Nat) (turns : List Turn) : Code := (startUp devices).andThen (run turns)

def kernelMain (devices : Nat) (turns : List Turn) : Code := loadTables.andThen (afterLoad devices turns)

end Boot

/-- The locks that handlers take. -/
def shared : KernelLock → Prop
  | .serial1 | .pics | .keyboard | .keyBuffer | .processTable => True
  | .writer | .allocator | .pciLock => False

/-- In whatever way hardware IRQs come, the processor never spins on a lock that only the
spinning code or the code below it could release. -/
def DeadlockFree (devices : Nat) (turns : List Turn) : Prop :=
  ∀ events, (Runs.run (Machine.step handlerCode) (Machine.start () false (kernelMain devices turns))
    events).blocked = false

/-- The turns up to the first command that does not return. -/
def executed : List Turn → List Turn
  | [] => []
  | t :: turns => t :: if t.stops then [] else executed turns

/-- Interrupts on, and nothing held: the shell between its calls. -/
def ready : Context KernelLock := { on := true, saved := [], held := [] }

-- What follows is for whatever locks interrupts are to be off for.
variable {masked : KernelLock → Prop} {c : Context KernelLock}

section Neutral

variable (covered : c.Covered masked)

include covered

theorem locked_neutral {l : KernelLock} (free : l ∉ c.held)
    (inside : ({ c with held := l :: c.held } : Context KernelLock).Covered masked) :
    Neutral masked (locked l (.pass .done) : Code) c :=
  Neutral.locked covered free (Neutral.pass (Neutral.done inside))

/-- A section that takes one lock with interrupts off. -/
theorem critical_neutral {l : KernelLock} (free : l ∉ c.held) :
    Neutral masked (withoutInterrupts (locked l .done) : Code) c :=
  Neutral.withoutInterrupts covered (Neutral.locked (Context.covered_of_off rfl) free
    (Neutral.done (Context.covered_of_off rfl)))

theorem serialPrint_neutral (free : KernelLock.serial1 ∉ c.held) : Neutral masked serialPrint c :=
  critical_neutral covered free

theorem onWriter_neutral (free : KernelLock.writer ∉ c.held) : Neutral masked onWriter c :=
  critical_neutral covered free

theorem writes_neutral (free : KernelLock.writer ∉ c.held) (count : Nat) :
    Neutral masked (forEach (List.range count) (fun _ => onWriter)) c :=
  Neutral.forEach covered (fun _ _ => onWriter_neutral covered free)

end Neutral

section Off
variable (off : c.on = false)

include off

theorem allocate_neutral (free : KernelLock.allocator ∉ c.held) : Neutral masked allocate c :=
  Neutral.locked (Context.covered_of_off off) free (Neutral.done (Context.covered_of_off off))

theorem push_neutral (free : KernelLock.allocator ∉ c.held) : Neutral masked push c := by
  have stays : Neutral masked (.done : Code) c := Neutral.done (Context.covered_of_off off)
  have moves : Neutral masked allocate c := allocate_neutral off free
  exact Neutral.choose stays (moves.andThen (Neutral.choose stays moves))

theorem decodeScancode_neutral (keyboard : KernelLock.keyboard ∉ c.held)
    (serial : KernelLock.serial1 ∉ c.held) : Neutral masked decodeScancode c := by
  refine Neutral.locked (Context.covered_of_off off) keyboard ?_
  have covered : ({ c with held := KernelLock.keyboard :: c.held } : Context KernelLock).Covered masked :=
    Context.covered_of_off off
  exact Neutral.choose (Neutral.done covered) (serialPrint_neutral covered (by simpa using serial))

theorem schedule_neutral (table : KernelLock.processTable ∉ c.held)
    (serial : KernelLock.serial1 ∉ c.held) : Neutral masked schedule c := by
  refine Neutral.locked (Context.covered_of_off off) table ?_
  have covered : ({ c with held := KernelLock.processTable :: c.held } : Context KernelLock).Covered masked :=
    Context.covered_of_off off
  exact Neutral.choose (Neutral.done covered) (serialPrint_neutral covered (by simpa using serial))

end Off

theorem handlerCode_neutral (handler : IrqHandler) : Neutral masked (handlerCode handler) Context.entry := by
  have off : (Context.entry : Context KernelLock).on = false := rfl
  have covered : (Context.entry : Context KernelLock).Covered masked := Context.covered_of_off off
  have stays : Neutral masked (.done : Code) Context.entry := Neutral.done covered
  have takes (l : KernelLock) : Neutral masked (locked l .done : Code) Context.entry :=
    Neutral.locked covered nofun (Neutral.done (Context.covered_of_off off))
  cases handler with
  | timerInterruptHandler =>
      have dispatches : Neutral masked dispatchSignals Context.entry := critical_neutral covered nofun
      have schedules : Neutral masked schedule Context.entry := schedule_neutral off nofun nofun
      have ticks : Neutral masked tick Context.entry :=
        Neutral.pass (dispatches.andThen (Neutral.choose stays schedules))
      exact ticks.andThen (takes .pics)
  | keyboardInterruptHandler =>
      have decodes : Neutral masked decodeScancode Context.entry := decodeScancode_neutral off nofun nofun
      have reads : Neutral masked handleInterrupt Context.entry :=
        Neutral.pass (decodes.andThen (Neutral.choose stays (takes .keyBuffer)))
      exact reads.andThen (takes .pics)
  | _ => exact takes .pics

theorem handlerCode_handles (handler : IrqHandler) : (handlerCode handler).Handles shared := by
  cases handler <;>
    simp [handlerCode, tick, dispatchSignals, schedule, handleInterrupt, decodeScancode, serialPrint,
      endOfInterrupt, withoutInterrupts, locked, Locks.Code.andThen, Locks.Code.Handles, shared]

section Start

theorem probe_neutral {rest : Code} (inner : Neutral masked rest Context.entry) :
    Neutral masked (probe rest) Context.entry := by
  have off : (Context.entry : Context KernelLock).on = false := rfl
  have covered : (Context.entry : Context KernelLock).Covered masked := Context.covered_of_off off
  have reads : Neutral masked configRead32 Context.entry :=
    locked_neutral covered nofun (Context.covered_of_off off)
  have found := Neutral.cons (push_neutral off nofun) (.cons inner (.nil covered))
  exact reads.andThen (Neutral.choose (Neutral.done covered) (.cons reads (.cons reads (.cons reads found))))

theorem enumerate_neutral : Neutral masked enumerate Context.entry := by
  have covered : (Context.entry : Context KernelLock).Covered masked := Context.covered_of_off rfl
  have stays : Neutral masked (.done : Code) Context.entry := Neutral.done covered
  unfold enumerate
  refine Neutral.forEach covered (fun _ _ => Neutral.forEach covered (fun _ _ => ?_))
  exact probe_neutral (Neutral.choose stays (Neutral.forEach covered (fun _ _ => probe_neutral stays)))

theorem pciInit_neutral (devices : Nat) : Neutral masked (pciInit devices) Context.entry := by
  have covered : (Context.entry : Context KernelLock).Covered masked := Context.covered_of_off rfl
  have prints : Neutral masked serialPrint Context.entry := serialPrint_neutral covered nofun
  have drops := Neutral.choose (Neutral.done covered) (allocate_neutral rfl nofun)
  unfold pciInit
  exact .cons enumerate_neutral (.cons (Neutral.forEach covered (fun _ _ => prints))
    (.cons prints (.cons drops (.nil covered))))

/-- A step of `kernel_main` between its two messages. -/
theorem logged_neutral {body : Code} (inner : Neutral masked body Context.entry) :
    Neutral masked (logged body) Context.entry := by
  have covered : (Context.entry : Context KernelLock).Covered masked := Context.covered_of_off rfl
  have prints : Neutral masked serialPrint Context.entry := serialPrint_neutral covered nofun
  exact .cons prints (.cons inner (.cons prints (.nil covered)))

/-- A lock that is taken once while interrupts are still off. -/
theorem once_neutral (l : KernelLock) : Neutral masked (locked l (.pass .done) : Code) Context.entry :=
  locked_neutral (Context.covered_of_off rfl) nofun (Context.covered_of_off rfl)

theorem loadTables_neutral : Neutral masked loadTables Context.entry := by
  have covered : (Context.entry : Context KernelLock).Covered masked := Context.covered_of_off rfl
  have passes : Neutral masked (.pass .done : Code) Context.entry := Neutral.pass (Neutral.done covered)
  have prints : Neutral masked serialPrint Context.entry := serialPrint_neutral covered nofun
  unfold loadTables
  exact .cons (once_neutral .serial1) (.cons prints (.cons (once_neutral .writer)
    (.cons (onWriter_neutral covered nofun) (.cons (logged_neutral passes) (.cons prints
      (.cons passes (.nil covered)))))))

theorem initialise_neutral (devices : Nat) : Neutral masked (initialise devices) Context.entry := by
  have off : (Context.entry : Context KernelLock).on = false := rfl
  have covered : (Context.entry : Context KernelLock).Covered masked := Context.covered_of_off off
  have prints : Neutral masked serialPrint Context.entry := serialPrint_neutral covered nofun
  have processes : Neutral masked processInit Context.entry := by
    refine Neutral.locked covered nofun ?_
    have table : ({ (Context.entry : Context KernelLock) with held := [.processTable] } :
        Context KernelLock).Covered masked := Context.covered_of_off off
    have names : Neutral masked allocate ⟨false, [], [.processTable]⟩ := allocate_neutral off (by decide)
    have entries : Neutral masked push ⟨false, [], [.processTable]⟩ := push_neutral off (by decide)
    exact .cons names (.cons entries (.cons names (.cons entries
      (.cons (Neutral.pass (Neutral.done table)) (.nil table)))))
  unfold initialise
  exact .cons prints (.cons (logged_neutral (once_neutral .pics))
    (.cons (logged_neutral (Neutral.pass (once_neutral .allocator)))
      (.cons (logged_neutral (pciInit_neutral devices)) (.cons (logged_neutral (once_neutral .keyboard))
        (.cons (logged_neutral processes) (.nil covered))))))

end Start

section Session

theorem ready_covered : ready.Covered masked := Context.covered_of_free rfl

theorem prompt_neutral (keys : List Nat) (last : Nat) :
    Neutral masked (sequence [printPrompt, readLine keys last]) ready := by
  have stays : Neutral masked (.done : Code) ready := Neutral.done ready_covered
  have writes : Neutral masked onWriter ready := onWriter_neutral ready_covered nofun
  have tries : Neutral masked tryReadChar ready := critical_neutral ready_covered nofun
  have polls : Neutral masked pollChar ready := by
    refine Neutral.withoutInterrupts ready_covered (Neutral.pass (Neutral.choose ?_ (Neutral.pass ?_)))
    · exact Neutral.done (Context.covered_of_off rfl)
    · exact decodeScancode_neutral rfl nofun nofun
  have waits (turns : Nat) : Neutral masked (waitChar turns) ready := by
    have idles := Neutral.cons tries (.cons polls (.cons (Neutral.pass stays) (.nil ready_covered)))
    exact .cons (Neutral.forEach ready_covered (fun _ _ => idles))
      (.cons tries (.cons (Neutral.choose stays polls) (.nil ready_covered)))
  have edits (turns : Nat) : Neutral masked (sequence [waitChar turns, .choose .done onWriter]) ready :=
    .cons (waits turns) (.cons (Neutral.choose stays writes) (.nil ready_covered))
  have reads : Neutral masked (readLine keys last) ready :=
    .cons (Neutral.forEach ready_covered (fun turns _ => edits turns))
      (.cons (waits last) (.cons writes (.nil ready_covered)))
  exact .cons (writes_neutral ready_covered nofun 7) (.cons reads (.nil ready_covered))

/-- Every command that returns keeps to the discipline; `ps` does where interrupts may be on
for the table. -/
theorem Turn.code_neutral {t : Turn} (table : t.command = some .ps → ¬masked .processTable)
    (returns : t.stops = false) : Neutral masked t.code ready := by
  have writes : Neutral masked onWriter ready := onWriter_neutral ready_covered nofun
  unfold Turn.code
  unfold Turn.stops at returns
  cases given : t.command with
  | none => exact Neutral.done ready_covered
  | some command =>
      rw [given] at table returns
      cases command with
      | help => exact writes_neutral ready_covered nofun 10
      | version => exact writes_neutral ready_covered nofun 3
      | uptime => exact Neutral.pass writes
      | unknown cmd => exact .cons writes (.cons writes (.cons writes (.nil ready_covered)))
      | ps =>
          have inside : ({ ready with held := [.processTable] } : Context KernelLock).Covered masked := by
            intro _ l member
            rw [List.mem_singleton.mp member]
            exact table rfl
          have heading := onWriter_neutral inside (by decide)
          exact Neutral.locked ready_covered nofun (heading.andThen (writes_neutral inside (by decide) _))
      | halt => simp at returns
      | reboot => simp at returns
      | clear | echo args | uname => exact writes

/-- So does a command that does not return. -/
theorem Turn.code_guarded {t : Turn} (stops : t.stops = true) :
    Guarded masked (fun ending => ∃ c, ending = .halted c) t.code ready := by
  have writes : Neutral masked onWriter ready := onWriter_neutral ready_covered nofun
  have off : ({ ready with on := false } : Context KernelLock).Covered masked := Context.covered_of_off rfl
  unfold Turn.code
  rw [Turn.stops, Bool.or_eq_true, decide_eq_true_eq, decide_eq_true_eq] at stops
  rcases stops with command | command
  · rw [command]
    exact writes.andThen ⟨ready_covered, _, rfl, off, _, rfl⟩
  · rw [command]
    exact writes.andThen ⟨ready_covered, ready_covered, _, rfl⟩

theorem run_guarded {turns : List Turn}
    (safe : ∀ t ∈ executed turns, t.command = some .ps → ¬masked .processTable) :
    Guarded masked (fun _ => True) (run turns) ready := by
  induction turns with
  | nil => exact ⟨ready_covered, trivial⟩
  | cons t turns ih =>
      have here := safe t List.mem_cons_self
      refine (prompt_neutral t.keys t.last).andThen ?_
      cases stops : t.stops with
      | true =>
          refine Guarded.andThen (Turn.code_guarded stops) (fun _ _ => trivial) ?_
          rintro c ⟨_, same⟩
          cases same
      | false =>
          refine (Turn.code_neutral here stops).andThen (ih (fun other member => safe other ?_))
          rw [executed, stops, if_neg nofun]
          exact List.mem_cons_of_mem t member

/-- The first `ps` comes to the lock of the table with interrupts on. -/
theorem run_exposed {turns : List Turn} (unsafe_ : ∃ t ∈ executed turns, t.command = some .ps) :
    ∃ before after, run turns = before.andThen (.lock .processTable after) ∧
      Neutral masked before ready := by
  induction turns with
  | nil => exact absurd unsafe_ (by simp [executed])
  | cons t turns ih =>
      have prompts : Neutral masked _ ready := prompt_neutral t.keys t.last
      unfold run
      by_cases here : t.command = some .ps
      · rw [Turn.code, here]
        exact ⟨_, _, rfl, prompts⟩
      · obtain ⟨other, member, command⟩ := unsafe_
        rw [executed] at member
        rcases List.mem_cons.mp member with rfl | later
        · exact absurd command here
        · cases stops : t.stops with
          | true =>
              rw [stops, if_pos rfl] at later
              cases later
          | false =>
              rw [stops, if_neg nofun] at later
              obtain ⟨before, after, split, neutral⟩ := ih ⟨other, later, command⟩
              rw [split, ← Locks.Code.andThen_assoc, ← Locks.Code.andThen_assoc]
              exact ⟨_, _, rfl, Neutral.andThen (prompts.andThen (Turn.code_neutral (absurd · here) stops)) neutral⟩

theorem startUp_guarded (devices : Nat) :
    Guarded masked (fun ending => ending = .returned ready) (startUp devices) Context.entry := by
  have prints : Neutral masked serialPrint ready := serialPrint_neutral ready_covered nofun
  have greets : Neutral masked (sequence [serialPrint, serialPrint, welcome]) ready :=
    .cons prints (.cons prints (.cons (writes_neutral ready_covered nofun 4) (.nil ready_covered)))
  exact (initialise_neutral devices).andThen ⟨Context.covered_of_off rfl, _, rfl, greets⟩

theorem afterLoad_guarded (devices : Nat) {turns : List Turn}
    (safe : ∀ t ∈ executed turns, t.command = some .ps → ¬masked .processTable) :
    Guarded masked (fun _ => True) (afterLoad devices turns) Context.entry := by
  refine Guarded.andThen (startUp_guarded devices) nofun ?_
  rintro _ ⟨⟩
  exact run_guarded safe

/-- The kernel, from its first instruction through any session with its shell and with any
hardware IRQs at any time, never hangs on a lock exactly if `ps` is not among the commands. -/
theorem deadlock_free_iff (devices : Nat) (turns : List Turn) :
    DeadlockFree devices turns ↔ ∀ t ∈ executed turns, t.command ≠ some .ps := by
  constructor
  · intro free t member command
    obtain ⟨before, after, found, neutral⟩ := run_exposed ⟨t, member, command⟩
    have attempts : (handlerCode .timerInterruptHandler).Attempts .processTable := .act (.save (.lock _))
    have upTo : Guarded shared (fun ending => ending = .returned ready)
        (loadTables.andThen ((startUp devices).andThen before)) Context.entry := by
      refine loadTables_neutral.andThen (Guarded.andThen (startUp_guarded devices) nofun ?_)
      rintro _ ⟨⟩
      exact neutral
    have split : kernelMain devices turns =
        (loadTables.andThen ((startUp devices).andThen before)).andThen (.lock .processTable after) := by
      rw [kernelMain, afterLoad, found, Locks.Code.andThen_assoc, Locks.Code.andThen_assoc]
    have frames : (Machine.start () false (kernelMain devices turns)).frames = [_] :=
      congrArg (fun code => [code]) split
    have exposed (ending : Ending KernelLock) (ends : ending = .returned ready) :
        ∃ c, ending = .returned c ∧ c.on = true ∧ .processTable ∉ c.held := ⟨ready, ends, rfl, nofun⟩
    obtain ⟨events, stuck⟩ := Machine.exposed_blocked handlerCode .timerInterruptHandler attempts frames
      upTo exposed
    rw [free events] at stuck
    cases stuck
  · intro safe events
    have guarded : Guarded shared (fun _ => True) (kernelMain devices turns) Context.entry :=
      loadTables_neutral.andThen
        (afterLoad_guarded devices (fun t member command => absurd command (safe t member)))
    exact Machine.never_blocked handlerCode_neutral handlerCode_handles (fun _ taken => taken)
      (.start guarded) events

end Session

end ComputeKernel.Boot
