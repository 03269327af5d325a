import ComputeKernel.Boot.Locks

/-! The exceptions of the processor, and what comes out of them once `idt::init` has loaded
the table of their handlers: two of the handlers log and return, all others panic. As for the
rest of the kernel, a handler is reduced to its locks and to what it does with the interrupt
flag. -/
namespace ComputeKernel.Boot
open Locks (Context Ending Machine Event)
open Locks.Code (withoutInterrupts locked Guarded Neutral)
open Locks.Machine (Atop Running)
open Arch (IrqHandler)

/-- The exceptions that `idt::init` sets a handler for. -/
inductive Exception where
  | divideError
  | debug
  | nonMaskableInterrupt
  | breakpoint
  | overflow
  | boundRangeExceeded
  | invalidOpcode
  | deviceNotAvailable
  | doubleFault
  | invalidTss
  | segmentNotPresent
  | stackSegmentFault
  | generalProtectionFault
  | pageFault
  | x87FloatingPoint
  | alignmentCheck
  | machineCheck
  | simdFloatingPoint
  | virtualization
  | securityException
  deriving DecidableEq, Repr

def panic : Code := .cli (serialPrint.andThen (onWriter.andThen .halt))

def exceptionCode : Exception → Code
  | .debug | .breakpoint => serialPrint
  | .pageFault => .pass panic
  | _ => panic

/-- Where the message goes. -/
def Exception.printsTo : Exception → List KernelLock
  | .debug | .breakpoint => [.serial1]
  | _ => [.serial1, .writer]

/-- The machine once the message is out: back at what was interrupted, or in the loop at the
end of the panic. -/
def Exception.after : Exception → Machine KernelLock Unit → Machine KernelLock Unit
  | .debug, m | .breakpoint, m => m
  | _, m => m.interrupt .halt

/-- An exception that strikes here is reported within a bounded number of instructions,
whatever interrupts are requested in the meantime. -/
def Reported (e : Exception) (m : Machine KernelLock Unit) : Prop :=
  ∃ bound, ∀ events : List (Event IrqHandler), bound ≤ events.countP Event.goes →
    ∃ part, part <+: events ∧
      Runs.run (Machine.step handlerCode) (m.interrupt (exceptionCode e)) part = e.after m

/-- The machine after these events of a session. -/
def machineAfter (devices : Nat) (turns : List Turn) (events : List (Event IrqHandler)) :
    Machine KernelLock Unit :=
  Runs.run (Machine.step handlerCode) (Machine.start () false (kernelMain devices turns)) events

/-- In the course of these events `idt::init` has loaded the table of handlers. -/
def Loaded (devices : Nat) (turns : List Turn) (events : List (Event IrqHandler)) : Prop :=
  ∃ part, part <+: events ∧ machineAfter devices turns part = Machine.start () false (afterLoad devices turns)

variable {masked : KernelLock → Prop} {m : Machine KernelLock Unit}

/-- The handler leaves everything as it was when it returns, and when it comes to the loop. -/
def Exception.ending : Exception → Ending KernelLock
  | .debug | .breakpoint => .returned Context.entry
  | _ => .halted Context.entry

theorem exceptionCode_guarded (e : Exception) :
    Guarded masked (fun ending => ending = e.ending) (exceptionCode e) Context.entry := by
  have covered : (Context.entry : Context KernelLock).Covered masked := Context.covered_of_off rfl
  have prints : Neutral masked serialPrint Context.entry := serialPrint_neutral covered nofun
  have panics : Guarded masked (fun ending => ending = .halted Context.entry) panic Context.entry :=
    ⟨covered, _, rfl, prints.andThen ((onWriter_neutral covered nofun).andThen ⟨covered, rfl⟩)⟩
  cases e with
  | debug | breakpoint => exact prints
  | pageFault => exact ⟨covered, panics⟩
  | _ => exact panics

theorem exceptionCode_handles (e : Exception) : (exceptionCode e).Handles (· ∈ e.printsTo) := by
  cases e <;>
    simp [exceptionCode, Exception.printsTo, panic, serialPrint, onWriter, withoutInterrupts, locked,
      Locks.Code.andThen, Locks.Code.Handles]

theorem exceptionCode_needs (e : Exception) {l : KernelLock} (prints : l ∈ e.printsTo) :
    (exceptionCode e).Needs l := by
  revert prints
  cases e <;>
    simp [exceptionCode, Exception.printsTo, panic, serialPrint, onWriter, withoutInterrupts, locked,
      Locks.Code.andThen, Locks.Code.Needs, eq_comm]

/-- The message takes four instructions for each lock, and `page_fault_handler` is the longest. -/
theorem exceptionCode_within (e : Exception) : (exceptionCode e).Within 10 := by
  cases e <;> trivial

theorem struck (e : Exception) (m : Machine KernelLock Unit) :
    Atop (fun _ => True) (· ∈ e.printsTo) (fun ending => ending = e.ending) (m.on :: m.saved) m.held .done
      m.frames (exceptionCode e) Context.entry (m.interrupt (exceptionCode e)) :=
  Atop.entered m (exceptionCode_guarded e) (exceptionCode_handles e)

theorem reported_of_free {e : Exception} (below : m.frames ≠ []) (free : ∀ l ∈ e.printsTo, l ∉ m.held) :
    Reported e m := by
  refine ⟨11, fun events enough => ?_⟩
  obtain ⟨part, rest, code, own, rfl, few, through, atop⟩ :=
    (struck e m).runs_out handlerCode free (exceptionCode_within e) events (Nat.le_of_succ_le enough)
  rw [List.countP_append] at enough
  have reached : part <+: part ++ rest := List.prefix_append _ _
  cases code with
  | done =>
      obtain ⟨_, ends⟩ := atop.guarded
      have returns : e.after m = m ∧ own = Context.entry := by
        cases e with
        | debug | breakpoint => exact ⟨rfl, Ending.returned.inj ends⟩
        | _ => cases ends
      obtain ⟨last, follows, returned⟩ := Machine.returns_below handlerCode m below rest (by omega)
      refine ⟨part ++ last, (List.prefix_append_right_inj part).mpr follows, ?_⟩
      rw [returns.2] at atop
      rw [Runs.run_append, atop.eq_interrupt rfl, returned, returns.1]
  | halt =>
      obtain ⟨_, ends⟩ := atop.guarded
      have stops : e.after m = m.interrupt .halt ∧ own = Context.entry := by
        cases e with
        | debug | breakpoint => cases ends
        | _ => exact ⟨rfl, Ending.halted.inj ends⟩
      rw [stops.2] at atop
      exact ⟨part, reached, by rw [atop.eq_interrupt rfl, stops.1]⟩
  | act _ _ | read _ | choose _ _ | instruction _ _ => cases through

theorem free_of_reported {e : Exception} (reported : Reported e m) : ∀ l ∈ e.printsTo, l ∉ m.held := by
  intro l prints held
  obtain ⟨bound, reports⟩ := reported
  have enough : bound ≤ (List.replicate bound (Event.go true : Event IrqHandler)).countP Event.goes := by
    simp [List.countP_replicate, Event.goes]
  obtain ⟨part, _, ended⟩ := reports _ enough
  obtain ⟨code, own, needs, atop⟩ := (struck e m).stuck handlerCode held (exceptionCode_needs e prints) part
  have frames := atop.frames
  rw [ended, code.andThen_done] at frames
  have returns (same : m.frames = code :: m.frames) : False := List.cons_ne_self code m.frames same.symm
  have stops (same : Locks.Code.halt :: m.frames = code :: m.frames) : False := by
    rw [← (List.cons.inj same).1] at needs
    exact needs
  cases e with
  | debug | breakpoint => exact returns frames
  | _ => exact stops frames

/-- The tables are loaded within the first 28 instructions. -/
theorem loaded_of_enough (devices : Nat) (turns : List Turn) (events : List (Event IrqHandler))
    (enough : 28 ≤ events.countP Event.goes) : Loaded devices turns events := by
  have handles : loadTables.Handles (fun _ => True) := by
    simp [loadTables, logged, Locks.Code.sequence, Locks.Code.forEach, serialPrint, onWriter,
      withoutInterrupts, locked, Locks.Code.andThen, Locks.Code.Handles]
  have short : loadTables.Within 28 := trivial
  have begun : Atop (fun _ => True) (fun _ => True) (fun ending => ending = .returned Context.entry) [] []
      (afterLoad devices turns) [] loadTables Context.entry
      (Machine.start () false (kernelMain devices turns)) :=
    ⟨rfl, rfl, Context.entry_quiet, loadTables_neutral, handles⟩
  obtain ⟨part, later, code, own, rfl, _, through, atop⟩ :=
    begun.runs_out handlerCode (fun _ _ inside => by cases inside) short events enough
  refine ⟨part, List.prefix_append _ _, ?_⟩
  cases code with
  | done =>
      have returned : own = Context.entry := Ending.returned.inj atop.guarded.2
      rw [returned] at atop
      exact atop.eq_of_done rfl
  | halt =>
      have halted := atop.guarded.2
      cases halted
  | act _ _ | read _ | choose _ _ | instruction _ _ => cases through

/-- At every moment of every session after the tables are loaded, with hardware IRQs in whatever
order, an exception is reported exactly if the code it strikes holds none of the locks of the
message; and while interrupts are on, it never holds one, and no interrupt handler is below it. -/
theorem exceptions_reported (devices : Nat) (turns : List Turn) (events : List (Event IrqHandler))
    (loaded : Loaded devices turns events) (e : Exception) :
    let m := machineAfter devices turns events
    (Reported e m ↔ ∀ l ∈ e.printsTo, l ∉ m.held) ∧
      (m.on = true → m.frames.length = 1 ∧ Reported e m) := by
  intro m
  obtain ⟨part, ⟨later, rfl⟩, reached⟩ := loaded
  -- `ps` holds the table with interrupts on, and no code holds another lock like that
  have running : Running (· ≠ KernelLock.processTable) shared (fun _ => True) .done m := by
    change Running _ _ _ _ (Runs.run (Machine.step handlerCode) _ (part ++ later))
    rw [Runs.run_append]
    change Running _ _ _ _ (Runs.run _ (machineAfter devices turns part) later)
    rw [reached]
    exact Machine.run_running handlerCode_neutral handlerCode_handles
      (.start (afterLoad_guarded devices (fun _ _ _ masked => masked rfl))) later
  obtain ⟨shallow, alone⟩ := running.depth
  have below : m.frames ≠ [] := List.ne_nil_of_length_pos shallow
  refine ⟨⟨free_of_reported, reported_of_free below⟩, fun on => ⟨alone on, reported_of_free below ?_⟩⟩
  intro l prints held
  refine running.covered on l held ?_
  rintro rfl
  cases e <;> simp [Exception.printsTo] at prints

/-- A page fault right after the tables are loaded. -/
theorem exceptions_reported_page_fault :
    Loaded 0 [] (List.replicate 28 (.go true)) ∧
      Reported .pageFault (machineAfter 0 [] (List.replicate 28 (.go true))) := by
  have loaded : Loaded 0 [] (List.replicate 28 (.go true)) := loaded_of_enough 0 [] _ (by decide)
  refine ⟨loaded, (exceptions_reported 0 [] _ loaded .pageFault).1.mpr ?_⟩
  have nothing : (machineAfter 0 [] (List.replicate 28 (.go true))).held = [] := rfl
  rw [nothing]
  nofun

end ComputeKernel.Boot
