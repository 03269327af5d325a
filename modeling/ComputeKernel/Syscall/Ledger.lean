import ComputeKernel.Process.Conservation
import ComputeKernel.Syscall.Bystanders
import ComputeKernel.Syscall.Failures

/-! The books of the processes as user programs see them. Whatever system calls are made,
and whatever interrupts arrive in them and between them, the process table changes only by
the operations of the process subsystem, and what `fork` and `wait4` return to their callers
is all that those operations give and take. -/
namespace ComputeKernel
open Checked (Exec Finishes Halts Meets Returns Within)

/-- A process that comes into the table, or one that leaves it. -/
inductive Event where
  | born (pid : UInt32)
  | buried (pid : UInt32)
  deriving DecidableEq, Repr

def Event.birth : Event → Option UInt32
  | .born pid => some pid
  | .buried _ => none

def Event.burial : Event → Option UInt32
  | .born _ => none
  | .buried pid => some pid

/-- What a call that returned tells its caller. -/
def SyscallFrame.event (frame : SyscallFrame) (result : Int) : Option Event :=
  if result < 0 then none
  else if frame.num = Number.fork then some (.born (UInt32.ofNat result.toNat))
  else if frame.num = Number.wait4 then some (.buried (UInt32.ofNat result.toNat))
  else none

/-- The calls that returned, in order, with what they returned. -/
abbrev CallLog := List (SyscallFrame × Int)

namespace CallLog

def events (log : CallLog) : List Event := log.filterMap (fun call => call.1.event call.2)

/-- The PIDs that `fork` has returned. -/
def births (log : CallLog) : List UInt32 := log.events.filterMap Event.birth

/-- The PIDs that `wait4` has returned. -/
def burials (log : CallLog) : List UInt32 := log.events.filterMap Event.burial

end CallLog

namespace Procs

/-- The same, of an operation of the process subsystem. -/
def event (s : Procs) (op : Op) : Option Event :=
  ((s.forkedPid op).map .born).or ((s.reapedChild op).map (fun child => .buried child.1))

def events (s : Procs) (ops : List Op) : List Event := Runs.outputs step event s ops

variable {s : Procs} {op : Op}

theorem event_birth (s : Procs) (op : Op) : (s.event op).bind Event.birth = s.forkedPid op := by
  unfold event
  cases born : s.forkedPid op with
  | some pid => rfl
  | none => cases s.reapedChild op <;> rfl

theorem event_burial (s : Procs) (op : Op) :
    (s.event op).bind Event.burial = (s.reapedChild op).map Prod.fst := by
  unfold event
  cases step_pidChange s op with
  | kept _ forked reaped => rw [forked, reaped]; rfl
  | joined _ forked reaped => rw [forked, reaped]; rfl
  | left p idx _ _ forked reaped => rw [forked, reaped]; rfl

theorem events_append (s : Procs) (before after : List Op) :
    s.events (before ++ after) = s.events before ++ (s.run before).events after :=
  Runs.outputs_append step event s before after

theorem events_singleton (s : Procs) (op : Op) : s.events [op] = (s.event op).toList :=
  List.append_nil _

theorem events_births (ops : List Op) : (boot.events ops).filterMap Event.birth = forked ops := by
  induction ops using List.reverseRecOn with
  | nil => rfl
  | append_singleton ops op ih =>
      rw [events_append, List.filterMap_append, ih, forked_concat, events_singleton,
        ← event_birth]
      cases (boot.run ops).event op with
      | none => rfl
      | some event => cases event <;> rfl

theorem events_burials (ops : List Op) : (boot.events ops).filterMap Event.burial = reaped ops := by
  induction ops using List.reverseRecOn with
  | nil => rfl
  | append_singleton ops op ih =>
      rw [events_append, List.filterMap_append, ih, reaped_concat, events_singleton,
        ← event_burial]
      cases (boot.run ops).event op with
      | none => rfl
      | some event => cases event <;> rfl

end Procs

namespace Kernel

/-- From one kernel to another the process table has changed by operations of the process
subsystem, with these events. -/
def Account (k k' : Kernel) (events : List Event) : Prop :=
  ∃ ops, k'.procs = Procs.run k.procs ops ∧ k.procs.events ops = events

theorem Account.trans {k k' k'' : Kernel} {before after : List Event} (first : Account k k' before)
    (second : Account k' k'' after) : Account k k'' (before ++ after) := by
  obtain ⟨ops, ran, rfl⟩ := first
  obtain ⟨ops', ran', rfl⟩ := second
  refine ⟨ops ++ ops', ?_, ?_⟩
  · rw [ran', ran]
    exact (Runs.run_append Procs.step k.procs ops ops').symm
  · rw [Procs.events_append, ← ran]

/-- Nobody has come or gone. -/
def Quiet (k k' : Kernel) : Prop := Account k k' []

instance : Std.Refl Quiet where
  refl _ := ⟨[], rfl, rfl⟩

instance : IsTrans Kernel Quiet where
  trans _ _ _ first second := Account.trans first second

variable {k k' k'' : Kernel} {events : List Event}

theorem Quiet.account (first : Quiet k k') (second : Account k' k'' events) :
    Account k k'' events := Account.trans first second

theorem account_of_same (same : k'.procs = k.procs) : Quiet k k' := ⟨[], same, rfl⟩

theorem account_of_step {op : Procs.Op} (stepped : k'.procs = k.procs.step op) :
    Account k k' (k.procs.event op).toList := ⟨[op], stepped, Procs.events_singleton _ op⟩

theorem quiet_of_step (op : Procs.Op) (stepped : k'.procs = k.procs.step op)
    (silent : k.procs.event op = none) : Quiet k k' := by
  have account := account_of_step stepped
  rwa [silent] at account

theorem events_ticks (s : Procs) (n : Nat) : s.events (List.replicate n .tick) = [] := by
  induction n generalizing s with
  | zero => rfl
  | succ n ih => exact ih s.tick

theorem Meanwhile.quiet (passed : Meanwhile k k') : Quiet k k' := by
  obtain ⟨batches, _, ran⟩ := passed.procs
  exact ⟨ticks batches, ran, events_ticks _ _⟩

theorem Passive.quiet {m : Exec Kernel α} (passive : Passive m) : Within Quiet m :=
  fun k => Returns.mono (passive k) (fun _ _ passed => passed.quiet)

theorem quiet_tolerant : Tolerant Quiet where
  pending := passive_pending.quiet
  serialPrint text := (passive_serialPrint text).quiet
  aside same := account_of_same same.procs

theorem killSection_quiet (pid : UInt32) (sig : UInt8) (low : ¬sig > 31) :
    Within Quiet (onProcs (killSection pid sig)) := by
  refine fun k => Returns.zoom (fun result s ran => ?_)
  rw [Procs.killSection_eq pid low] at ran
  cases ran
  exact quiet_of_step (.kill pid sig) rfl rfl

/-- A PID fits in what a call returns. -/
theorem ofNat_toNat_pid (pid : UInt32) : UInt32.ofNat (pid.toNat : Int).toNat = pid := by
  rw [Int.toNat_natCast, UInt32.ofNat_toNat]

theorem sysFork_accounts {frame : SyscallFrame} (isFork : frame.num = Number.fork) :
    Returns sysFork (fun result k' => Account k k' (frame.event result).toList) k := by
  refine Returns.andThen (passive_pending.quiet k) (fun _ k' passed => Returns.bind (Returns.get ?_))
  refine Returns.ite (fun _ => Returns.bind (Returns.modify ?_)) (fun _ => Returns.exhaust)
  have account : Account k' { k' with procs := k'.procs.fork.2 } (k'.procs.event .fork).toList :=
    account_of_step rfl
  cases forked : k'.procs.fork.1 with
  | ok child =>
      have event : k'.procs.event .fork = frame.event child.toNat := by
        have notNegative : ¬((child.toNat : Int) < 0) := by omega
        rw [SyscallFrame.event, if_neg notNegative, if_pos isFork, ofNat_toNat_pid]
        simp [Procs.event, Procs.forkedPid, forked, Except.toOption]
      exact Returns.ret (passed.account (event ▸ account))
  | error message =>
      have event : k'.procs.event .fork = frame.event Errno.noSys.code := by
        rw [SyscallFrame.event, if_pos (Errno.code_neg .noSys)]
        simp [Procs.event, Procs.forkedPid, Procs.reapedChild, forked, Except.toOption]
      exact Returns.ret (passed.account (event ▸ account))

theorem sysWait4_accounts {frame : SyscallFrame} (isWait : frame.num = Number.wait4) (pid : Int32)
    (status : UInt64) :
    Returns (sysWait4 pid status) (fun result k' => Account k k' (frame.event result).toList) k := by
  refine Returns.bind (Returns.get (Returns.andThen (waitpid_returns _ _) ?_))
  rintro result _ ⟨last, passed, rfl, reported⟩
  have account : Account last { last with
      procs := (last.procs.waitpid (if pid ≤ 0 then none else some pid.toUInt32)).2 }
      (last.procs.event (.waitpid _)).toList := account_of_step rfl
  cases result with
  | ok child =>
      have event : last.procs.event (.waitpid (if pid ≤ 0 then none else some pid.toUInt32)) =
          frame.event child.1.toNat := by
        have notNegative : ¬((child.1.toNat : Int) < 0) := by omega
        have notFork : frame.num ≠ Number.fork := by rw [isWait]; decide
        rw [SyscallFrame.event, if_neg notNegative, if_neg notFork, if_pos isWait, ofNat_toNat_pid]
        simp [Procs.event, Procs.forkedPid, Procs.reapedChild, reported, Except.map, Except.toOption]
      refine Returns.andThen (quiet_tolerant.writeStatus status child.2 _) (fun _ k' written => ?_)
      refine Returns.ret ?_
      have whole := (passed.quiet.account account).trans written
      rwa [List.append_nil, event] at whole
  | error message =>
      have event : last.procs.event (.waitpid (if pid ≤ 0 then none else some pid.toUInt32)) =
          frame.event Errno.srch.code := by
        rw [SyscallFrame.event, if_pos (Errno.code_neg .srch)]
        simp [Procs.event, Procs.forkedPid, Procs.reapedChild, reported, Except.map, Except.toOption]
      exact Returns.ret (passed.quiet.account (event ▸ account))

theorem event_none {frame : SyscallFrame} (notFork : frame.num ≠ Number.fork)
    (notWait : frame.num ≠ Number.wait4) (result : Int) : frame.event result = none := by
  rw [SyscallFrame.event, if_neg notFork, if_neg notWait]
  exact ite_self none

theorem dispatch_fork {frame : SyscallFrame} (isFork : frame.num = Number.fork) :
    dispatch frame = sysFork := by
  simp [dispatch, isFork, Number.read, Number.write, Number.open_, Number.close, Number.getpid,
    Number.fork]

theorem dispatch_wait4 {frame : SyscallFrame} (isWait : frame.num = Number.wait4) :
    dispatch frame = sysWait4 (asI32 frame.rdi) frame.rsi := by
  simp [dispatch, isWait, Number.read, Number.write, Number.open_, Number.close, Number.getpid,
    Number.fork, Number.execve, Number.exit, Number.exitGroup, Number.wait4]

/-- Every call that returns is accounted for by what it returns. -/
theorem dispatch_accounts (frame : SyscallFrame) :
    Returns (dispatch frame) (fun result k' => Account k k' (frame.event result).toList) k := by
  by_cases isFork : frame.num = Number.fork
  · rw [dispatch_fork isFork]
    exact sysFork_accounts isFork
  by_cases isWait : frame.num = Number.wait4
  · rw [dispatch_wait4 isWait]
    exact sysWait4_accounts isWait _ _
  have quiet : Within Quiet (dispatch frame) := quiet_tolerant.dispatch
    (fun _ _ => (passive_readStdin _ _).quiet) (fun _ _ => (passive_writeConsole _ _).quiet)
    (absurd · isFork) (absurd · isWait) (fun _ text => quiet_of_step (.execve text) rfl rfl)
    killSection_quiet
  refine Returns.mono (quiet k) (fun result k' account => ?_)
  rw [event_none isFork isWait]
  exact account

/-- A pending batch of interrupts is handled and lets nobody come or go. -/
theorem pending_passes (valid : k.Valid) :
    Finishes pending (fun _ k' => k'.Valid ∧ Quiet k k') k := by
  obtain ⟨_, k', ran, passed⟩ := pending_finishes valid.keyboard
  have kept := safe_pending k valid
  unfold Meets at kept
  rw [ran] at kept
  exact Finishes.of_done ran ⟨kept.1, passed.quiet⟩

theorem serialPrint_passes (valid : k.Valid) (text : List Char) :
    Finishes (serialPrint text) (fun _ k' => k'.Valid ∧ k'.procs = k.procs) k := by
  have printed : Valid { k with serial := k.serial ++ text } := { valid with }
  exact Finishes.bind (Finishes.modify (Finishes.ret ⟨printed, rfl⟩))

theorem onProcs_probe_passes (valid : k.Valid) (nonempty : k.procs.table.length ≠ 0) :
    Finishes (onProcs (probe k.procs.scanStart (List.range' 1 k.procs.table.length)))
      (fun _ k' => Quiet k k') k := by
  refine Finishes.zoom (Finishes.of_done (Procs.probe_schedule nonempty valid.procs) ?_)
  exact quiet_of_step .forceSchedule rfl rfl

theorem forceSchedule_passes (valid : k.Valid) : Finishes forceSchedule (fun _ k' => Quiet k k') k := by
  refine Finishes.andThen (pending_passes valid) (fun _ k' passed => Finishes.bind (Finishes.get ?_))
  obtain ⟨valid', quiet⟩ := passed
  by_cases empty : k'.procs.table.length = 0
  · have scheduled : k'.procs.step .forceSchedule = { k'.procs with currentPid := 0 } := if_pos empty
    simp only [if_pos empty]
    refine Finishes.modify (quiet.account ?_)
    exact quiet_of_step .forceSchedule scheduled.symm rfl
  · simp only [if_neg empty]
    split
    · next start found =>
        have here : k'.procs.scanStart = start := by rw [Procs.scanStart, found, Option.getD_some]
        have probed := onProcs_probe_passes valid' empty
        rw [here] at probed
        exact Finishes.mono probed (fun _ _ scheduled => quiet.account scheduled)
    · next missing =>
        refine Finishes.andThen (serialPrint_passes valid' _) (fun _ last printed => ?_)
        obtain ⟨validLast, same⟩ := printed
        have here : last.procs.scanStart = 0 := by
          rw [same, Procs.scanStart, missing, Option.getD_none]
        have probed := onProcs_probe_passes validLast (same ▸ empty)
        rw [here, same] at probed
        exact Finishes.mono probed
          (fun _ _ scheduled => quiet.account ((account_of_same same).account scheduled))

/-- `exit` leaves the entry of the process for its parent, and never returns. -/
theorem sysExit_halts (valid : k.Valid) (code : Int32) : Halts (sysExit code) (Quiet k) k := by
  refine Halts.after (pending_passes valid) (fun _ k₁ ⟨valid₁, quiet₁⟩ => ?_)
  have marked : Quiet k₁ { k₁ with procs := k₁.procs.exitSection code } :=
    quiet_of_step (.exitSection code) rfl rfl
  have valid₂ : Valid { k₁ with procs := k₁.procs.exitSection code } :=
    @Valid.step k₁ valid₁ (.exitSection code) nofun
  have exits : Finishes (Exec.modify (fun k : Kernel => { k with procs := k.procs.exitSection code }))
      (fun _ k' => k'.Valid ∧ Quiet k k') k₁ := Finishes.modify ⟨valid₂, quiet₁.account marked⟩
  refine Halts.after exits (fun _ k₂ ⟨valid₂, quiet₂⟩ => ?_)
  refine Halts.after (pending_passes valid₂) (fun _ k₃ ⟨valid₃, quiet₃⟩ => ?_)
  have looks : Finishes Exec.get (fun seen k' => seen = k₃ ∧ k' = k₃) k₃ := Finishes.get ⟨rfl, rfl⟩
  refine Halts.after looks ?_
  rintro _ _ ⟨rfl, rfl⟩
  refine Halts.after (serialPrint_passes valid₃ _) (fun _ k₄ ⟨valid₄, same⟩ => ?_)
  refine Halts.after (forceSchedule_passes valid₄) (fun _ k₅ quiet₅ => Halts.halt ?_)
  exact quiet₂.account (quiet₃.account ((account_of_same same).account quiet₅))

/-- The states of the kernel between system calls, with the calls that have returned. User
code changes its memory, interrupts arrive at any time, and a process that exits makes no
further call. -/
inductive Recorded : Kernel → CallLog → Prop where
  | boot (decode : List UInt8 → Option DecodedKey) (video : Nat → UInt8)
      (memory : UInt64 → Option UInt8) (arrivals : List (List Irq)) :
      Recorded (Kernel.boot decode video memory arrivals) []
  | user {k : Kernel} {log : CallLog} (memory : UInt64 → Option UInt8) (arrivals : List (List Irq)) :
      Recorded k log → Recorded { k with memory, arrivals } log
  | interrupted {k k' : Kernel} {log : CallLog} {irq : Irq} :
      Recorded k log → interrupt irq k = .done () k' → Recorded k' log
  | returned {k k' : Kernel} {log : CallLog} {frame : SyscallFrame} {result : Int} :
      Recorded k log → dispatch frame k = .done result k' → Recorded k' (log ++ [(frame, result)])
  | exited {k k' : Kernel} {log : CallLog} {frame : SyscallFrame}
      (exits : frame.num = Number.exit ∨ frame.num = Number.exitGroup) :
      Recorded k log → dispatch frame k = .halted k' → Recorded k' log

theorem Recorded.reachable {log : CallLog} (recorded : Recorded k log) : Reachable k := by
  induction recorded with
  | boot decode video memory arrivals => exact .boot decode video memory arrivals
  | user memory arrivals _ ih => exact .user memory arrivals ih
  | interrupted _ ran ih => exact .interrupted ih ran
  | returned _ ran ih => exact .returned ih ran
  | exited _ _ ran ih => exact .halted ih ran

theorem interrupt_quiet {irq : Irq} (ran : interrupt irq k = .done () k') : Quiet k k' := by
  cases irq with
  | timer =>
      cases ran
      exact quiet_of_step .tick rfl rfl
  | scancode byte =>
      cases ran
      exact account_of_same rfl
  | keyboard =>
      have passive : Passive (interrupt .keyboard) :=
        Within.bind (passive_onKeyboard _) (fun echo => passive_serialPrint echo)
      exact passive.quiet.done ran

theorem dispatch_exit {frame : SyscallFrame}
    (exits : frame.num = Number.exit ∨ frame.num = Number.exitGroup) :
    dispatch frame = sysExit (asI32 frame.rdi) := by
  unfold dispatch
  rcases exits with isExit | isExit <;> simp [isExit, Number.exit, Number.exitGroup, Number.read,
    Number.write, Number.open_, Number.close, Number.getpid, Number.fork, Number.execve]

/-- The process table is what the process subsystem makes of the boot table, with these
events. -/
def Booked (k : Kernel) (events : List Event) : Prop :=
  ∃ ops, k.procs = Procs.run Procs.boot ops ∧ Procs.boot.events ops = events

theorem Booked.account {before : List Event} (booked : Booked k before) (account : Account k k' events) :
    Booked k' (before ++ events) := by
  obtain ⟨ops, reached, rfl⟩ := booked
  obtain ⟨more, moved, rfl⟩ := account
  refine ⟨ops ++ more, ?_, ?_⟩
  · rw [moved, reached]
    exact (Runs.run_append Procs.step Procs.boot ops more).symm
  · rw [Procs.events_append, ← reached]

theorem Booked.quiet (booked : Booked k events) (quiet : Quiet k k') : Booked k' events := by
  have after := booked.account quiet
  rwa [List.append_nil] at after

theorem Recorded.booked {log : CallLog} (recorded : Recorded k log) : Booked k log.events := by
  induction recorded with
  | boot decode video memory arrivals => exact ⟨[], rfl, rfl⟩
  | user memory arrivals _ ih => exact ih
  | interrupted _ ran ih => exact ih.quiet (interrupt_quiet ran)
  | @returned k k' log frame result _ ran ih =>
      have after := ih.account (dispatch_accounts frame result k' ran)
      have told : (log ++ [(frame, result)] : CallLog).events =
          log.events ++ (frame.event result).toList := by
        rw [CallLog.events, CallLog.events, List.filterMap_append]
        cases tells : frame.event result <;> simp [tells]
      rwa [told]
  | exited exits recorded ran ih =>
      rw [dispatch_exit exits] at ran
      exact ih.quiet ((sysExit_halts recorded.reachable.valid _).halted ran)

/-- The books balance: whoever was there at boot or was returned by `fork` is in the table or
was returned by `wait4`, nobody twice and nobody in both places. -/
structure Balanced (k : Kernel) (log : CallLog) : Prop where
  fresh : (0 :: 1 :: log.births).Nodup
  tableOnce : k.procs.pids.Nodup
  buriedOnce : log.burials.Nodup
  disjoint : k.procs.pids.Disjoint log.burials
  union : ∀ pid, pid ∈ 0 :: 1 :: log.births ↔ pid ∈ k.procs.pids ∨ pid ∈ log.burials

/-- After every history of system calls with fewer than 2^32 - 1 children, the books that a
caller can keep from the return values of `fork` and `wait4` balance with the process table. -/
theorem calls_balance {log : CallLog} (recorded : Recorded k log)
    (few : log.births.length < 2 ^ 32 - 1) : Balanced k log := by
  obtain ⟨ops, reached, told⟩ := recorded.booked
  have births : Procs.forked ops = log.births := by
    rw [CallLog.births, ← told, Procs.events_births]
  have burials : Procs.reaped ops = log.burials := by
    rw [CallLog.burials, ← told, Procs.events_burials]
  have conserved := Procs.conserved_of_fresh (Procs.forked_nodup (births ▸ few))
  have table : (Procs.run Procs.boot ops).pids = k.procs.pids := by rw [reached]
  exact
    { fresh := births ▸ conserved.fresh
      tableOnce := table ▸ conserved.tableOnce
      buriedOnce := burials ▸ conserved.reapedOnce
      disjoint := table ▸ burials ▸ conserved.disjoint
      union := births ▸ burials ▸ table ▸ conserved.union }

/-- Ticks while user code runs. -/
theorem Recorded.ticks {log : CallLog} (recorded : Recorded k log) (n : Nat) :
    Recorded { k with procs := Procs.tick^[n] k.procs } log := by
  induction n with
  | zero => exact recorded
  | succ n ih =>
      rw [Function.iterate_succ_apply']
      have ticked := ih.interrupted (rfl : interrupt .timer _ = _)
      exact ticked

/-- Idle, init, and a child of idle, whose turn it is. -/
def family (child : ProcessState) (current : UInt32) : Procs :=
  { table := [Process.mk 0 0 "idle" .running .idle 0 0 0, Process.mk 1 0 "init" .ready .normal 0 0 0,
      Process.mk 2 0 "idle" child .idle 0 0 0]
    nextPid := 3
    tickCount := 20
    currentPid := current }

theorem family_ready : Procs.tick^[20] Procs.boot.fork.2 = family .ready 2 := by decide +kernel

/-- Idle forks a child, the child exits when its turn has come, and idle waits for it. -/
theorem calls_balance_family :
    ∃ k, Recorded k [(transfer Number.fork 0, 2), (transfer Number.wait4 0, 2)] ∧
      k.procs.pids = [0, 1] ∧
      Balanced k [(transfer Number.fork 0, 2), (transfer Number.wait4 0, 2)] := by
  have forked : Recorded { booted with procs := Procs.boot.fork.2 } [(transfer Number.fork 0, 2)] :=
    .returned (.boot _ _ _ _) (rfl : dispatch (transfer Number.fork 0) booted = _)
  have turn := forked.ticks 20
  rw [family_ready] at turn
  have exits : (transfer Number.exit 0).num = Number.exit ∨ (transfer Number.exit 0).num = Number.exitGroup :=
    .inl rfl
  have exited : Recorded _ [(transfer Number.fork 0, 2)] := .exited exits turn rfl
  have waited : Recorded _ ([(transfer Number.fork 0, 2)] ++ [(transfer Number.wait4 0, 2)]) :=
    .returned exited rfl
  exact ⟨_, waited, by decide +kernel, calls_balance waited (by decide)⟩

end Kernel
end ComputeKernel
