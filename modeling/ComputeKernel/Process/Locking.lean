import ComputeKernel.Support.SharedData
import ComputeKernel.Process.Conservation

/-! The kernel's use of `PROCESS_TABLE` and of the interrupt flag. The timer handler
takes the lock, so foreground code must not be interruptible while it holds it.
Most of the code uses `without_interrupts`; `schedule`, `sys_getppid` and the `ps`
command do not. -/
namespace ComputeKernel.Procs
open Locks (Context Ending Machine Event)
open Locks.Code (withoutInterrupts locked Neutral Guarded)

/-- The lock that foreground code and the timer handler share. -/
inductive TableLock where
  | processTable
  deriving DecidableEq, Repr

abbrev Code : Type := Locks.Code TableLock Procs

/-- A line on the serial port or the screen: their drivers disable interrupts
around a lock of their own. -/
def printLine : Code := withoutInterrupts .done

/-- `hlt`: a step at which the code only waits. -/
def hlt (next : Code) : Code := .pass next

def storeCurrent (pid : UInt32) : Code := .act (fun s => { s with currentPid := pid }) .done

/-- What `schedule` does under the lock, with the message for a PID that is not found. -/
def scheduleBody (s : Procs) : Code :=
  if s.table.length = 0 then storeCurrent 0
  else
    (if s.pids.contains s.currentPid then .done else printLine : Code).andThen
      (match scan s.table s.scanStart with
      | some pid => storeCurrent pid
      | none => .done)

def scheduleCode : Code := locked .processTable (.read scheduleBody)

def dispatchSignalsCode (pid : UInt32) : Code :=
  withoutInterrupts (locked .processTable (.act (dispatchSignals pid) .done))

/-- The timer handler. -/
def tickCode : Code :=
  .read fun s =>
    .act (fun s => { s with tickCount := s.tickCount + 1 })
      ((dispatchSignalsCode s.currentPid).andThen (if s.sliceEnds then scheduleCode else .done))

def forkBody (s : Procs) : Code :=
  match s.caller with
  | none => .done
  | some parent =>
      .act (fun t => { t with nextPid := t.nextPid + 1 })
        (.act (fun t => { t with table := t.table ++ [s.child parent] }) .done)

def forkCode : Code := withoutInterrupts (locked .processTable (.read forkBody))

def execveCode (path : String) : Code :=
  withoutInterrupts (locked .processTable (.act (fun s => (s.execve path).2) .done))

def exitBody (code : Int32) (s : Procs) : Code :=
  .act (edit s.currentPid (fun p => { p with state := .zombie, exitCode := code }))
    (.act (fun t => { t with table := t.table.map (Process.reparent s.currentPid) }) .done)

def exitSectionCode (code : Int32) : Code :=
  withoutInterrupts (locked .processTable (.read (exitBody code)))

/-- The section of `exit`, its message, the `force_schedule` after it, and the loop that it
never leaves. -/
def exitCode (code : Int32) : Code :=
  (exitSectionCode code).andThen (printLine.andThen (scheduleCode.andThen .halt))

/-- One iteration of `waitpid` from the point where it holds the lock. -/
def waitpidBody (target : Option UInt32) (again : Code) (s : Procs) : Code :=
  match (s.waitpid target).1 with
  | .ok none => .unlock .processTable (.restore (hlt again))
  | .ok (some _) => .act (fun s => (s.waitpid target).2) (.unlock .processTable (.restore .done))
  | .error _ => .unlock .processTable (.restore .done)

/-- A call of `waitpid` that is followed through so many turns of its loop. If none of them
finds what it waits for, the call stays in the loop. -/
def waitpidCode (target : Option UInt32) : Nat → Code
  | 0 => .halt
  | rounds + 1 =>
      .save (.lock .processTable (.read (waitpidBody target (waitpidCode target rounds))))

def killCode (pid : UInt32) (sig : UInt8) : Code :=
  if sig > 31 then .done
  else withoutInterrupts (locked .processTable (.act (fun s => (s.kill pid sig).2) .done))

def currentIsZombieCode : Code := withoutInterrupts (locked .processTable .done)

def sysGetppidCode : Code := locked .processTable .done

def printLines (table : List Process) : Code := Locks.Code.forEach table (fun _ => printLine)

/-- `ps` prints its header and one line for each entry under the lock. -/
def psCode : Code :=
  locked .processTable (printLine.andThen (.read fun s => printLines s.table))

/-- Foreground code that uses the table. -/
inductive Call where
  | fork
  | execve (path : String)
  | exit (code : Int32)
  | waitpid (target : Option UInt32) (rounds : Nat)
  | kill (pid : UInt32) (sig : UInt8)
  | currentIsZombie
  | sysGetppid
  | ps
  deriving DecidableEq, Repr

def Call.code : Call → Code
  | .fork => forkCode
  | .execve path => execveCode path
  | .exit code => exitCode code
  | .waitpid target rounds => waitpidCode target rounds
  | .kill pid sig => killCode pid sig
  | .currentIsZombie => currentIsZombieCode
  | .sysGetppid => sysGetppidCode
  | .ps => psCode

def program (calls : List Call) : Code := Locks.Code.forEach calls Call.code

/-- The machine with the timer as its only interrupt. -/
def timer : Unit → Code := fun _ => tickCode

/-- Wherever timer interrupts fire, the handler never finds the table locked by the
code it interrupts. -/
def NoSelfDeadlock (s : Procs) (enabled : Bool) (calls : List Call) : Prop :=
  ∀ events, (Runs.run (Machine.step timer) (Machine.start s enabled (program calls)) events).blocked = false

/-- The calls that take the lock only while interrupts are disabled. -/
def Call.guarded : Call → Bool
  | .exit _ => false
  | .sysGetppid => false
  | .ps => false
  | _ => true

/-- Interrupts as given, and nothing stored or held. -/
def between (enabled : Bool) : Context TableLock := { on := enabled, saved := [], held := [] }

/-- In some run from here the call is the next one to start. A call after an `exit` or after a
`waitpid` that goes on waiting is never reached. -/
def Reached (m : Machine TableLock Procs) (calls : List Call) (call : Call) : Prop :=
  ∃ later events, (call :: later) <:+ calls ∧
    Machine.Arrived (fun ending => ending = .returned m.toContext) (program (call :: later))
      (Runs.run (Machine.step timer) m events)

variable {shared : TableLock → Prop} {c : Context TableLock}

section Neutral

theorem printLine_neutral (covered : c.Covered shared) : printLine.Neutral shared c :=
  Neutral.withoutInterrupts covered (Neutral.done (Context.covered_of_off rfl))

theorem printLines_neutral (covered : c.Covered shared) (table : List Process) :
    (printLines table).Neutral shared c :=
  Neutral.forEach covered (fun _ _ => printLine_neutral covered)

theorem storeCurrent_neutral (covered : c.Covered shared) (pid : UInt32) :
    (storeCurrent pid).Neutral shared c := Neutral.act (Neutral.done covered)

theorem scheduleBody_neutral (covered : c.Covered shared) (s : Procs) :
    (scheduleBody s).Neutral shared c := by
  have message : (if s.pids.contains s.currentPid then .done else printLine : Code).Neutral shared c := by
    split
    · exact Neutral.done covered
    · exact printLine_neutral covered
  unfold scheduleBody
  split
  · exact storeCurrent_neutral covered 0
  · refine message.andThen ?_
    cases scan s.table s.scanStart with
    | none => exact Neutral.done covered
    | some pid => exact storeCurrent_neutral covered pid

/-- Code under the lock of the table. -/
theorem locked_neutral {body : Code} (covered : c.Covered shared) (free : c.held = [])
    (inside : body.Neutral shared { c with held := [.processTable] }) :
    (locked .processTable body).Neutral shared c := by
  refine Neutral.locked covered (by rw [free]; nofun) ?_
  rw [free]
  exact inside

theorem scheduleCode_neutral (free : c.held = [])
    (covered : ({ c with held := [.processTable] } : Context TableLock).Covered shared) :
    scheduleCode.Neutral shared c := by
  refine locked_neutral (Context.covered_of_free free) free ?_
  exact ⟨covered, fun s => scheduleBody_neutral covered s⟩

/-- Code under the lock with interrupts disabled. -/
theorem critical_neutral {body : Code} (free : c.held = [])
    (inside : body.Neutral shared ⟨false, c.on :: c.saved, [.processTable]⟩) :
    (withoutInterrupts (locked .processTable body)).Neutral shared c :=
  Neutral.withoutInterrupts (Context.covered_of_free free)
    (locked_neutral (Context.covered_of_off rfl) free inside)

theorem update_neutral {change : Procs → Procs} (free : c.held = []) :
    (withoutInterrupts (locked .processTable (.act change .done))).Neutral shared c :=
  critical_neutral free (Neutral.act (Neutral.done (Context.covered_of_off rfl)))

theorem tickCode_neutral : tickCode.Neutral shared Context.entry := by
  have off : (Context.entry : Context TableLock).Covered shared := Context.covered_of_off rfl
  refine ⟨off, fun s => Neutral.act ?_⟩
  have dispatches : (dispatchSignalsCode s.currentPid).Neutral shared Context.entry := update_neutral rfl
  refine dispatches.andThen ?_
  split
  · exact scheduleCode_neutral rfl (Context.covered_of_off rfl)
  · exact Neutral.done off

theorem forkBody_neutral (covered : c.Covered shared) (s : Procs) : (forkBody s).Neutral shared c := by
  unfold forkBody
  cases s.caller with
  | none => exact Neutral.done covered
  | some parent => exact Neutral.act (Neutral.act (Neutral.done covered))

theorem exitSectionCode_neutral (free : c.held = []) (code : Int32) :
    (exitSectionCode code).Neutral shared c := by
  have off : (⟨false, c.on :: c.saved, [.processTable]⟩ : Context TableLock).Covered shared :=
    Context.covered_of_off rfl
  exact critical_neutral free ⟨off, fun s => Neutral.act (Neutral.act (Neutral.done off))⟩

theorem psBody_neutral (covered : c.Covered shared) :
    (printLine.andThen (.read fun s => printLines s.table)).Neutral shared c :=
  (printLine_neutral covered).andThen ⟨covered, fun s => printLines_neutral covered s.table⟩

end Neutral

theorem tickCode_handles : tickCode.Handles (fun _ => True) := by
  intro s
  have prints : printLine.Handles (fun _ => True) := Locks.Code.Handles.withoutInterrupts trivial
  have schedules : scheduleCode.Handles (fun _ => True) := by
    refine Locks.Code.Handles.locked trivial (fun s => ?_)
    unfold scheduleBody
    split
    · trivial
    · refine Locks.Code.Handles.andThen ?_ ?_
      · split
        · trivial
        · exact prints
      · cases scan s.table s.scanStart with
        | none => trivial
        | some pid => trivial
  refine Locks.Code.Handles.andThen ?_ ?_
  · exact Locks.Code.Handles.withoutInterrupts (Locks.Code.Handles.locked trivial trivial)
  · split
    · exact schedules
    · trivial

theorem tickCode_attempts : tickCode.Attempts .processTable := .read fun _ => .act (.save (.lock _))

theorem tickCode_needs : tickCode.Needs .processTable := fun _ => .inr (.inl rfl)

/-- The call returns with everything as before, or never. -/
def Leaves (c : Context TableLock) (ending : Ending TableLock) : Prop :=
  ∀ c', ending = .returned c' → c' = c

theorem leaves_of_neutral {code : Code} (h : code.Neutral shared c) : code.Guarded shared (Leaves c) c := by
  refine Guarded.mono h ?_
  rintro _ rfl c' ⟨⟩
  rfl

theorem waitpidCode_guarded (target : Option UInt32) (rounds : Nat) (free : c.held = []) :
    (waitpidCode target rounds).Guarded shared (Leaves c) c := by
  have covered : c.Covered shared := Context.covered_of_free free
  have off {held : List TableLock} : (⟨false, c.on :: c.saved, held⟩ : Context TableLock).Covered shared :=
    Context.covered_of_off rfl
  have restored {next : Code} (rest : next.Guarded shared (Leaves c) c) :
      (Locks.Code.unlock .processTable (.restore next)).Guarded shared (Leaves c)
        ⟨false, c.on :: c.saved, [.processTable]⟩ := by
    refine ⟨off, _, rfl, off, c, ?_, rest⟩
    rw [← free]
    rfl
  have returned : (Locks.Code.done : Code).Guarded shared (Leaves c) c :=
    leaves_of_neutral (Neutral.done covered)
  induction rounds with
  | zero => exact ⟨covered, nofun⟩
  | succ rounds ih =>
      refine ⟨covered, _, rfl, off, ⟨false, c.on :: c.saved, [.processTable]⟩, ?_, off, fun s => ?_⟩
      · rw [free]
        rfl
      · unfold waitpidBody
        split
        · exact restored ⟨covered, ih⟩
        · exact ⟨off, restored returned⟩
        · exact restored returned

/-- A call keeps to the discipline if it takes the lock with interrupts disabled, or if the
lock may be held with interrupts as they are. -/
theorem code_guarded {call : Call} (free : c.held = [])
    (allowed : call.guarded = false →
      ({ c with held := [.processTable] } : Context TableLock).Covered shared) :
    call.code.Guarded shared (Leaves c) c := by
  have covered : c.Covered shared := Context.covered_of_free free
  have off {held : List TableLock} : (⟨false, c.on :: c.saved, held⟩ : Context TableLock).Covered shared :=
    Context.covered_of_off rfl
  cases call with
  | fork => exact leaves_of_neutral (critical_neutral free ⟨off, fun s => forkBody_neutral off s⟩)
  | execve path => exact leaves_of_neutral (update_neutral free)
  | exit code =>
      have schedules := scheduleCode_neutral free (allowed rfl)
      refine (exitSectionCode_neutral free code).andThen ((printLine_neutral covered).andThen ?_)
      exact schedules.andThen ⟨covered, nofun⟩
  | waitpid target rounds => exact waitpidCode_guarded target rounds free
  | kill pid sig =>
      simp only [Call.code, killCode]
      split
      · exact leaves_of_neutral (Neutral.done covered)
      · exact leaves_of_neutral (update_neutral free)
  | currentIsZombie => exact leaves_of_neutral (critical_neutral free (Neutral.done off))
  | sysGetppid => exact leaves_of_neutral (locked_neutral covered free (Neutral.done (allowed rfl)))
  | ps => exact leaves_of_neutral (locked_neutral covered free (psBody_neutral (allowed rfl)))

theorem program_guarded {calls : List Call} (free : c.held = [])
    (allowed : ({ c with held := [.processTable] } : Context TableLock).Covered shared) :
    (program calls).Guarded shared (Leaves c) c := by
  induction calls with
  | nil => exact leaves_of_neutral (Neutral.done (Context.covered_of_free free))
  | cons call calls ih =>
      refine Guarded.andThen (code_guarded free (fun _ => allowed)) (fun _ _ => nofun) ?_
      intro c' left
      rw [left c' rfl]
      exact ih

/-- An unguarded call comes to the lock with interrupts as they were. -/
theorem unguarded_exposed {call : Call} (unguarded : call.guarded = false) (free : c.held = []) :
    ∃ before after : Code, call.code = before.andThen (.lock .processTable after) ∧
      before.Neutral shared c := by
  have covered : c.Covered shared := Context.covered_of_free free
  cases call with
  | exit code =>
      refine ⟨_, _, (Locks.Code.andThen_assoc _ printLine _).symm, ?_⟩
      exact (exitSectionCode_neutral free code).andThen (printLine_neutral covered)
  | sysGetppid => exact ⟨.done, _, rfl, Neutral.done covered⟩
  | ps => exact ⟨.done, _, rfl, Neutral.done covered⟩
  | _ => cases unguarded

theorem Reached.of_run {m : Machine TableLock Procs} {calls : List Call} {call : Call}
    {events : List (Event Unit)}
    (same : (Runs.run (Machine.step timer) m events).toContext = m.toContext) {first : Call}
    (later : Reached (Runs.run (Machine.step timer) m events) calls call) :
    Reached m (first :: calls) call := by
  obtain ⟨rest, more, suffix, arrived⟩ := later
  refine ⟨rest, events ++ more, suffix.trans (List.suffix_cons first calls), ?_⟩
  rw [Runs.run_append]
  rw [same] at arrived
  exact arrived

/-- As long as only guarded calls are reached, nothing ever spins. -/
theorem unblocked_of_reached {m : Machine TableLock Procs} {calls : List Call}
    (frames : m.frames = [program calls]) (free : m.held = [])
    (safe : ∀ call, Reached m calls call → call.guarded = true) (events : List (Event Unit)) :
    (Runs.run (Machine.step timer) m events).blocked = false := by
  have entered (k : Unit) : (timer k).Neutral (fun _ => True) Context.entry := tickCode_neutral
  have handles (k : Unit) : (timer k).Handles (fun _ => True) := tickCode_handles
  induction calls generalizing m events with
  | nil =>
      have running : Machine.Running (fun _ => True) (fun _ => True) (fun _ => True) .done m :=
        .foreground .done frames ⟨Context.covered_of_free free, trivial⟩
      exact Machine.never_blocked entered handles (fun _ taken => taken) running events
  | cons call calls ih =>
      have guarded : call.guarded = true := by
        refine safe call ⟨calls, [], List.suffix_rfl, frames, rfl⟩
      have discipline : call.code.Guarded (fun _ => True) (Leaves m.toContext) m.toContext :=
        code_guarded free (fun unguarded => by rw [guarded] at unguarded; cases unguarded)
      have onward {part : List (Event Unit)}
          (arrived : Machine.Arrived (Leaves m.toContext) (program calls)
            (Runs.run (Machine.step timer) m part)) (more : List (Event Unit)) :
          (Runs.run (Machine.step timer) (Runs.run (Machine.step timer) m part) more).blocked = false := by
        have same := arrived.2 _ rfl
        refine ih arrived.1 ?_ (fun other reached => safe other (Reached.of_run same reached)) more
        rw [same]
        exact free
      have running : Machine.Running (fun _ => True) (fun _ => True) (Leaves m.toContext) (program calls) m :=
        .foreground call.code frames discipline
      rcases Machine.passes entered handles running events with still | ⟨part, later, rfl, arrived⟩
      · rcases still.blocked_eq (fun _ taken => taken) with arrived | clear
        · exact onward arrived []
        · exact clear
      · rw [Runs.run_append]
        exact onward arrived later

/-- Foreground code cannot deadlock with the timer handler exactly when it starts with
interrupts disabled or every call that it can come to is guarded. -/
theorem no_self_deadlock_iff (s : Procs) (enabled : Bool) (calls : List Call) :
    NoSelfDeadlock s enabled calls ↔ (enabled = true →
      ∀ call, Reached (Machine.start s enabled (program calls)) calls call → call.guarded = true) := by
  constructor
  · rintro safe rfl call ⟨later, events, _, frames, context⟩
    cases guarded : call.guarded with
    | true => rfl
    | false =>
        have context : (Runs.run (Machine.step timer) (Machine.start s true (program calls)) events).toContext =
            between true := Ending.returned.inj context
        obtain ⟨before, after, split, neutral⟩ : ∃ before after : Code,
            call.code = before.andThen (.lock .processTable after) ∧
              before.Neutral (fun _ => False) (between true) := unguarded_exposed guarded rfl
        have reached : program (call :: later) =
            before.andThen (.lock .processTable (after.andThen (program later))) := by
          change call.code.andThen (program later) = _
          rw [split, Locks.Code.andThen_assoc]
          rfl
        rw [reached] at frames
        rw [← context] at neutral
        obtain ⟨more, stuck⟩ := Machine.exposed_blocked timer () tickCode_attempts frames
          neutral (by
            rintro _ rfl
            exact ⟨_, rfl, by rw [context]; rfl, by rw [context]; nofun⟩)
        rw [← Runs.run_append, safe] at stuck
        cases stuck
  · intro guarded events
    cases enabled with
    | true => exact unblocked_of_reached rfl rfl (guarded rfl) events
    | false =>
        have discipline : (program calls).Guarded (fun _ => True) (Leaves (between false)) (between false) :=
          program_guarded rfl (Context.covered_of_off rfl)
        exact Machine.never_blocked (fun _ => tickCode_neutral) (fun _ => tickCode_handles)
          (fun _ taken => taken) (.start discipline) events

/-- A tick right after the lock is taken hangs each of the three unguarded calls. -/
theorem tick_hangs_unguarded_calls :
    ¬NoSelfDeadlock boot true [.exit 0] ∧ ¬NoSelfDeadlock boot true [.sysGetppid] ∧
    ¬NoSelfDeadlock boot true [.ps] := by
  refine ⟨fun safe => ?_, fun safe => ?_, fun safe => ?_⟩
  · have hung := safe (List.replicate 11 (.go true) ++ [.irq (), .go true, .go true, .go true])
    revert hung
    decide
  · have hung := safe [.go true, .irq (), .go true, .go true, .go true]
    revert hung
    decide
  · have hung := safe [.go true, .irq (), .go true, .go true, .go true]
    revert hung
    decide

section Effects

theorem scheduleBody_yields (s : Procs) : (scheduleBody s).Yields (fun s' => s' = s.schedule) s := by
  have silent : (if s.pids.contains s.currentPid then .done else printLine : Code).Yields
      (fun s' => s' = s) s := by
    split
    · rfl
    · rfl
  unfold scheduleBody schedule
  split
  · rfl
  · refine silent.andThen ?_
    rintro t rfl
    cases scan t.table t.scanStart with
    | none => rfl
    | some pid => rfl

theorem scheduleCode_yields (s : Procs) : scheduleCode.Yields (fun s' => s' = s.schedule) s :=
  Locks.Code.Yields.andThen (scheduleBody_yields s) (fun _ same => same)

theorem scheduleBody_straight (s : Procs) : (scheduleBody s).Straight := by
  have prints : printLine.Straight := ⟨fun _ => ⟨nofun, nofun⟩, ⟨fun _ => ⟨nofun, nofun⟩, trivial⟩⟩
  unfold scheduleBody
  split
  · trivial
  · refine Locks.Code.Straight.andThen ?_ ?_
    · split
      · trivial
      · exact prints
    · cases scan s.table s.scanStart with
      | none => trivial
      | some pid => trivial

theorem forkBody_yields (s : Procs) : (forkBody s).Yields (fun s' => s' = s.fork.2) s := by
  unfold forkBody
  cases found : s.caller with
  | none => exact (congrArg Prod.snd (fork_of_no_caller found)).symm
  | some parent => exact (congrArg Prod.snd (fork_of_caller found)).symm

theorem tickCode_yields (s : Procs) : tickCode.Yields (fun s' => s' = s.tick) s := by
  change ((dispatchSignalsCode s.currentPid).andThen (if s.sliceEnds then scheduleCode else .done)).Yields
    (fun s' => s' = s.tick) { s with tickCount := s.tickCount + 1 }
  have dispatched : (dispatchSignalsCode s.currentPid).Yields
      (fun s' => s' = dispatchSignals s.currentPid { s with tickCount := s.tickCount + 1 })
      { s with tickCount := s.tickCount + 1 } := rfl
  refine dispatched.andThen ?_
  rintro _ rfl
  unfold tick
  split
  · exact scheduleCode_yields _
  · rfl

end Effects

section Atomic

variable {P : Procs → Prop} {enabled : Bool} {s : Procs}

theorem between_rests (enabled : Bool) : (between enabled).rests = true := by
  cases enabled <;> rfl

theorem printLine_sound (here : P s) : printLine.Sound P (between enabled) s := by
  refine Locks.Code.Sound.instruction rfl here (fun s before => ?_)
  exact Locks.Code.Sound.instruction rfl before (fun s before => Locks.Code.Sound.done before)

theorem printLines_straight (table : List Process) : (printLines table).Straight := by
  induction table with
  | nil => trivial
  | cons p table ih =>
      exact ⟨fun _ => ⟨nofun, nofun⟩, ⟨fun _ => ⟨nofun, nofun⟩, ih⟩⟩

theorem printLines_yields (table : List Process) (s : Procs) :
    (printLines table).Yields (fun s' => s' = s) s := by
  induction table with
  | nil => rfl
  | cons p table ih => exact ih

/-- What interrupts may do while the lock is held does not matter here. -/
theorem unshared_covered : c.Covered (fun _ => False) := fun _ _ _ => id

theorem locked_sound {body : Code} (plain : body.Straight)
    (neutral : ∀ c, body.Neutral (fun _ => False) c) (keeps : ∀ s, P s → body.Yields P s) (here : P s) :
    (locked .processTable body).Sound P (between enabled) s :=
  Locks.Code.Sound.locked plain (neutral _) (between_rests enabled) keeps here

theorem critical_sound {body : Code} (plain : body.Straight)
    (neutral : ∀ c, body.Neutral (fun _ => False) c) (keeps : ∀ s, P s → body.Yields P s) (here : P s) :
    (withoutInterrupts (locked .processTable body)).Sound P (between enabled) s :=
  Locks.Code.Sound.critical plain (neutral _) (between_rests enabled) keeps here

theorem psCode_sound (here : P s) : psCode.Sound P (between enabled) s := by
  have plain : (printLine.andThen (.read fun s => printLines s.table)).Straight :=
    ⟨fun _ => ⟨nofun, nofun⟩, ⟨fun _ => ⟨nofun, nofun⟩, fun s => printLines_straight s.table⟩⟩
  refine locked_sound plain (fun _ => psBody_neutral unshared_covered) (fun s before => ?_) here
  refine (printLines_yields s.table s).mono ?_
  rintro _ rfl
  exact before

theorem update_sound {change : Procs → Procs} (keeps : ∀ s, P s → P (change s)) (here : P s) :
    (withoutInterrupts (locked .processTable (.act change .done))).Sound P (between enabled) s :=
  critical_sound trivial (fun _ => Neutral.act (Neutral.done unshared_covered)) keeps here

/-- Code that follows a call that leaves everything as it was. -/
theorem sound_andThen {a b : Code} (neutral : a.Neutral (fun _ => False) (between enabled))
    (first : a.Sound P (between enabled) s) (second : ∀ s, P s → b.Sound P (between enabled) s) :
    (a.andThen b).Sound P (between enabled) s := by
  refine Locks.Code.Sound.andThen neutral first ?_
  rintro _ s ⟨⟩ rests
  exact second s (rests (between_rests enabled))

variable (kept : ∀ s op, P s → P (s.step op))

include kept

theorem scheduleCode_sound (here : P s) : scheduleCode.Sound P (between enabled) s := by
  refine locked_sound scheduleBody_straight
    (fun _ => ⟨unshared_covered, fun s => scheduleBody_neutral unshared_covered s⟩) (fun s before => ?_) here
  refine (scheduleBody_yields s).mono ?_
  rintro _ rfl
  exact kept s .forceSchedule before

theorem forkCode_sound (here : P s) : forkCode.Sound P (between enabled) s := by
  have plain (s : Procs) : (forkBody s).Straight := by
    unfold forkBody
    cases s.caller with
    | none => trivial
    | some parent => trivial
  refine critical_sound plain
    (fun _ => ⟨unshared_covered, fun s => forkBody_neutral unshared_covered s⟩) (fun s before => ?_) here
  refine (forkBody_yields s).mono ?_
  rintro _ rfl
  exact kept s .fork before

theorem exitCode_sound (code : Int32) (here : P s) : (exitCode code).Sound P (between enabled) s := by
  have marks {s : Procs} (here : P s) : (exitSectionCode code).Sound P (between enabled) s :=
    critical_sound (fun _ => trivial)
      (fun _ => ⟨unshared_covered, fun _ => Neutral.act (Neutral.act (Neutral.done unshared_covered))⟩)
      (fun s before => kept s (.exitSection code) before) here
  refine sound_andThen (exitSectionCode_neutral rfl code) (marks here) (fun s before => ?_)
  refine sound_andThen (printLine_neutral unshared_covered) (printLine_sound before) (fun s before => ?_)
  exact sound_andThen (scheduleCode_neutral rfl unshared_covered) (scheduleCode_sound kept before)
    (fun s before => Locks.Code.Sound.halt before)

theorem waitpidCode_sound (target : Option UInt32) (rounds : Nat) (here : P s) :
    (waitpidCode target rounds).Sound P (between enabled) s := by
  have masked {held : List TableLock} : (⟨false, [enabled], held⟩ : Context TableLock).rests = false := by
    cases held <;> rfl
  have leaves {next : Code} {s : Procs} (rest : next.Sound P (between enabled) s) :
      (Locks.Code.unlock .processTable (.restore next)).Sound P ⟨false, [enabled], [.processTable]⟩ s :=
    Locks.Code.Sound.busyInstruction rfl masked (Locks.Code.Sound.busyInstruction rfl masked rest)
  induction rounds generalizing s with
  | zero => exact Locks.Code.Sound.halt here
  | succ rounds ih =>
      refine Locks.Code.Sound.instruction rfl here (fun s before => ?_)
      refine Locks.Code.Sound.busyInstruction rfl masked (Locks.Code.Arrives.busy masked ?_)
      unfold waitpidBody
      split
      · exact leaves (Locks.Code.Sound.pass before (fun s before => ih before))
      · refine Locks.Code.Arrives.busy masked (leaves (Locks.Code.Sound.done ?_))
        exact kept s (.waitpid target) before
      · exact leaves (Locks.Code.Sound.done before)

theorem code_sound (call : Call) (here : P s) : call.code.Sound P (between enabled) s := by
  have stays (c : Context TableLock) : (Locks.Code.done : Code).Neutral (fun _ => False) c :=
    Neutral.done unshared_covered
  cases call with
  | fork => exact forkCode_sound kept here
  | execve path => exact update_sound (fun s before => kept s (.execve path) before) here
  | exit code => exact exitCode_sound kept code here
  | waitpid target rounds => exact waitpidCode_sound kept target rounds here
  | kill pid sig =>
      simp only [Call.code, killCode]
      split
      · exact Locks.Code.Sound.done here
      · exact update_sound (fun s before => kept s (.kill pid sig) before) here
  | currentIsZombie => exact critical_sound trivial stays (fun s before => before) here
  | sysGetppid => exact locked_sound trivial stays (fun s before => before) here
  | ps => exact psCode_sound here

theorem program_sound (calls : List Call) (here : P s) :
    (program calls).Sound P (between enabled) s := by
  induction calls generalizing s with
  | nil => exact Locks.Code.Sound.done here
  | cons call calls ih =>
      refine Locks.Code.Sound.andThen (code_guarded rfl (fun _ => unshared_covered)) (code_sound kept call here) ?_
      intro c s left rests
      cases left c rfl
      exact ih (rests (between_rests enabled))

end Atomic

/-- Wherever ticks interrupt it, the foreground code leaves the table, whenever
nothing is under way, as a run of atomic operations does. -/
theorem interrupted_run_is_atomic (s : Procs) (enabled : Bool) (calls : List Call)
    (events : List (Event Unit))
    (rest : (Runs.run (Machine.step timer) (Machine.start s enabled (program calls)) events).AtRest) :
    ∃ ops, (Runs.run (Machine.step timer) (Machine.start s enabled (program calls)) events).data =
      run s ops := by
  have kept : ∀ t op, (∃ ops, t = run s ops) → ∃ ops, t.step op = run s ops := by
    rintro t op ⟨ops, rfl⟩
    exact ⟨ops ++ [op], (run_concat s ops op).symm⟩
  have discipline : (program calls).Guarded (fun _ => False) (Leaves (between enabled)) (between enabled) :=
    program_guarded rfl unshared_covered
  refine Machine.rest_invariant (fun _ => tickCode_neutral) (fun _ => tickCode_handles) ?_
    (fun _ l _ => ?_) discipline (program_sound kept calls ⟨[], rfl⟩) events rest
  · intro _ t reached
    refine (tickCode_yields t).mono ?_
    rintro _ rfl
    exact kept t .tick reached
  · cases l
    exact tickCode_needs

end ComputeKernel.Procs
