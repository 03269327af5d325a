import ComputeKernel.Support.RoundRobin
import ComputeKernel.Process.Conservation

/-! What `schedule` selects, and whether the current process can be dead. A tick
dispatches signals before it looks at the time slice, and reschedules only at the
end of a slice, so a process that a signal terminates in mid-slice stays current. -/
namespace ComputeKernel.Procs
open Runs (Admitted)

/-- The scan reads the table cyclically, from the slot after the start. -/
theorem scan_eq (table : List Process) (start : Nat) :
    scan table start = (table.rotate (start + 1)).findSome?
      (fun p => if p.runnable then some p.pid else none) :=
  RoundRobin.findSome?_probe _ table start

theorem scan_some {table : List Process} {start : Nat} {pid : UInt32}
    (h : scan table start = some pid) : ∃ p ∈ table, p.pid = pid ∧ p.runnable = true := by
  rw [scan_eq] at h
  obtain ⟨p, member, selected⟩ := List.exists_of_findSome?_eq_some h
  split at selected
  · next runnable => exact ⟨p, List.mem_rotate.mp member, Option.some.inj selected, runnable⟩
  · cases selected

theorem scan_none {table : List Process} {start : Nat} (h : scan table start = none)
    {p : Process} (present : p ∈ table) : p.runnable = false := by
  rw [scan_eq, List.findSome?_eq_none_iff] at h
  simpa using h p (List.mem_rotate.mpr present)

/-- If any process is runnable, the current PID belongs to a runnable process. -/
def CpuAlive (s : Procs) : Prop :=
  (∃ p ∈ s.table, p.runnable = true) → ∃ p ∈ s.table, p.pid = s.currentPid ∧ p.runnable = true

theorem schedule_cpuAlive (s : Procs) : s.schedule.CpuAlive := by
  rintro ⟨p, present, runnable⟩
  rw [schedule_table] at present ⊢
  have nonempty : s.table.length ≠ 0 := by
    rw [Ne, List.length_eq_zero_iff]
    exact List.ne_nil_of_mem present
  unfold schedule
  rw [if_neg nonempty]
  cases selected : scan s.table s.scanStart with
  | none => exact absurd runnable (by simp [scan_none selected present])
  | some pid => exact scan_some selected

/-- The state in which a step calls `schedule`, if it does. -/
def scheduling (s : Procs) : Op → Option Procs
  | .exit code => some (s.exitSection code)
  | .tick =>
      if s.sliceEnds then
        some (dispatchSignals s.currentPid { s with tickCount := s.tickCount + 1 })
      else none
  | .forceSchedule => some s
  | _ => none

theorem scheduling_tick (s : Procs) : s.scheduling .tick =
    if s.sliceEnds then
      some (dispatchSignals s.currentPid { s with tickCount := s.tickCount + 1 })
    else none := rfl

theorem step_of_scheduling {s t : Procs} {op : Op} (h : s.scheduling op = some t) :
    s.step op = t.schedule := by
  cases op with
  | exit code =>
      cases h
      rfl
  | tick =>
      simp only [scheduling_tick] at h
      split_ifs at h with ends
      cases h
      simp only [step, tick, ends, if_true]
  | forceSchedule =>
      cases h
      rfl
  | _ => cases h

theorem scheduling_kept {s t : Procs} {op : Op} (h : s.scheduling op = some t) :
    t.pids = s.pids ∧ t.currentPid = s.currentPid := by
  cases op with
  | exit code =>
      cases h
      exact ⟨exitSection_pids code s, rfl⟩
  | tick =>
      simp only [scheduling_tick] at h
      split_ifs at h with ends
      cases h
      rw [dispatchSignals_eq]
      exact ⟨edit_pids dispatched_pid, rfl⟩
  | forceSchedule =>
      cases h
      exact ⟨rfl, rfl⟩
  | _ => cases h

/-- Only `schedule` moves the current PID. -/
theorem step_currentPid {s : Procs} {op : Op} (quiet : s.scheduling op = none) :
    (s.step op).currentPid = s.currentPid := by
  cases op with
  | fork => simp only [step, fork]; split <;> rfl
  | execve path => simp only [step, execve]; split <;> rfl
  | exit code => cases quiet
  | exitSection code => rfl
  | waitpid target => simp only [step, waitpid]; split <;> (try split) <;> rfl
  | kill pid sig => simp only [step, kill]; split <;> (try split) <;> (try split) <;> rfl
  | tick =>
      simp only [scheduling_tick] at quiet
      split_ifs at quiet with ends
      simp [step, tick, ends, dispatchSignals_eq]
  | forceSchedule => cases quiet

/-- A process other than the current one is runnable. -/
def othersRunnable (s : Procs) : Prop :=
  ∃ p ∈ s.table, p.pid ≠ s.currentPid ∧ p.runnable = true

instance (s : Procs) : Decidable s.othersRunnable :=
  inferInstanceAs (Decidable (∃ p ∈ s.table, p.pid ≠ s.currentPid ∧ p.runnable = true))

def someRunnable (s : Procs) : Prop := ∃ p ∈ s.table, p.runnable = true

instance (s : Procs) : Decidable s.someRunnable :=
  inferInstanceAs (Decidable (∃ p ∈ s.table, p.runnable = true))

/-- After every completed tick and `exit` the CPU is alive, and no `fork`, `execve`
or `exit` is executed for a zombie. An interrupted `exit` completes with the
`force_schedule` that follows its section. -/
def NeverDead (ops : List Op) : Prop :=
  ∀ before op, before ++ [op] <+: ops →
    ((op = .tick ∨ op = .forceSchedule ∨ ∃ code, op = .exit code) →
      (run boot (before ++ [op])).CpuAlive) ∧
    ((op = .fork ∨ (∃ path, op = .execve path) ∨ op.exits ≠ none) →
      (run boot before).currentIsZombie = false)

/-- No tick terminates the current process in mid-slice while another process is
runnable, no `exit` is interrupted then, nobody acts when all processes are dead,
and `fork` does not reuse a PID. -/
def ServesLiving (s : Procs) : Op → Prop
  | .fork => s.someRunnable ∧ s.nextPid ∉ s.pids
  | .execve _ => s.someRunnable
  | .exit _ => s.someRunnable
  | .exitSection _ => s.someRunnable ∧ ¬s.othersRunnable
  | .tick => s.sliceEnds = false → ∀ p ∈ s.caller, terminatingSig p.pendingSignals ≠ none →
      ¬s.othersRunnable
  | _ => True

instance (s : Procs) : (op : Op) → Decidable (s.ServesLiving op)
  | .fork => inferInstanceAs (Decidable (s.someRunnable ∧ s.nextPid ∉ s.pids))
  | .execve _ => inferInstanceAs (Decidable s.someRunnable)
  | .exit _ => inferInstanceAs (Decidable s.someRunnable)
  | .exitSection _ => inferInstanceAs (Decidable (s.someRunnable ∧ ¬s.othersRunnable))
  | .tick => inferInstanceAs (Decidable (s.sliceEnds = false →
      ∀ p ∈ s.caller, terminatingSig p.pendingSignals ≠ none → ¬s.othersRunnable))
  | .waitpid _ => .isTrue trivial
  | .kill _ _ => .isTrue trivial
  | .forceSchedule => .isTrue trivial

theorem runnable_of_state_eq {p q : Process} (same : q.state = p.state) :
    q.runnable = p.runnable := by
  simp only [Process.runnable, same]

theorem live_of_runnable {p : Process} (h : p.runnable = true) : p.state ≠ .zombie := by
  intro dead
  simp [Process.runnable, dead] at h

theorem not_runnable_of_zombie {p : Process} (dead : p.state = .zombie) : p.runnable = false := by
  simp [Process.runnable, dead]

/-- With unique PIDs the entry of the current PID is the one every lookup finds. -/
theorem caller_of_mem {s : Procs} {p : Process} (unique : s.pids.Nodup) (present : p ∈ s.table)
    (current : p.pid = s.currentPid) : s.caller = some p := by
  cases found : s.caller with
  | none =>
      have miss := List.find?_eq_none.mp found p present
      simp [current] at miss
  | some q =>
      obtain ⟨there, pid⟩ := caller_spec found
      rw [List.inj_on_of_nodup_map unique there present (pid.trans current.symm)]

/-- With unique PIDs an edit of the current process touches no other entry. -/
theorem mem_edit_current {s : Procs} (unique : s.pids.Nodup) {change : Process → Process}
    {q : Process} (present : q ∈ (s.edit s.currentPid change).table) :
    (q ∈ s.table ∧ q.pid ≠ s.currentPid) ∨ ∃ p, s.caller = some p ∧ q = change p := by
  have apart : s.table.Pairwise (fun a b =>
      (a.pid == s.currentPid) = true → (b.pid == s.currentPid) = false) := by
    have distinct : s.table.Pairwise (fun a b => a.pid ≠ b.pid) := List.pairwise_map.mp unique
    refine distinct.imp ?_
    intro a b other here
    rw [beq_iff_eq] at here
    simpa [here] using other.symm
  rw [edit_table, FirstMatch.editFirst_eq_map change apart] at present
  obtain ⟨p, there, rfl⟩ := List.mem_map.mp present
  by_cases current : p.pid = s.currentPid
  · refine .inr ⟨p, caller_of_mem unique there current, ?_⟩
    simp [current]
  · refine .inl ?_
    simpa [current] using there

/-- What holds between the operations of a run that serves the living. -/
structure Alive (s : Procs) : Prop where
  cpu : s.CpuAlive
  unique : s.pids.Nodup

theorem Alive.caller_runnable {s : Procs} (alive : s.Alive) (someone : s.someRunnable) :
    ∃ p, s.caller = some p ∧ p.runnable = true := by
  obtain ⟨p, present, current, runnable⟩ := alive.cpu someone
  exact ⟨p, caller_of_mem alive.unique present current, runnable⟩

theorem Alive.not_zombie {s : Procs} (alive : s.Alive) (someone : s.someRunnable) :
    s.currentIsZombie = false := by
  obtain ⟨p, self, runnable⟩ := alive.caller_runnable someone
  simpa [currentIsZombie, self] using live_of_runnable runnable

/-- A step that terminates nobody and selects nobody keeps the CPU alive. -/
theorem Alive.keep {s : Procs} {op : Op} (alive : s.Alive) (spared : ∀ p, ¬s.terminates op p)
    (current : (s.step op).currentPid = s.currentPid) (forks : op = .fork → s.someRunnable) :
    (s.step op).CpuAlive := by
  rintro ⟨q, present, runnable⟩
  have someone : s.someRunnable := by
    rcases mem_step_back present with ⟨p, before, edited⟩ | ⟨parent, isFork, _, _⟩
    · rcases edited.state_eq with same | ⟨dead, _⟩
      · exact ⟨p, before, (runnable_of_state_eq same).symm.trans runnable⟩
      · exact absurd dead (live_of_runnable runnable)
    · exact forks isFork
  obtain ⟨p, there, pid, alive'⟩ := alive.cpu someone
  obtain ⟨p', after, edited⟩ := mem_step_of_live op there (live_of_runnable alive')
  refine ⟨p', after, edited.pid_eq.trans (pid.trans current.symm), ?_⟩
  rcases edited.state_eq with same | ⟨_, died⟩
  · rw [runnable_of_state_eq same, alive']
  · exact absurd died (spared p)

/-- When the current process dies and no other is runnable, nobody is left. -/
theorem nobody_left {s : Procs} (unique : s.pids.Nodup) (alone : ¬s.othersRunnable)
    {change : Process → Process} (dies : ∀ p ∈ s.caller, (change p).state = .zombie)
    {q : Process} (present : q ∈ (s.edit s.currentPid change).table) : q.runnable = false := by
  rcases mem_edit_current unique present with ⟨there, other⟩ | ⟨p, self, rfl⟩
  · cases runnable : q.runnable with
    | false => rfl
    | true => exact absurd ⟨q, there, other, runnable⟩ alone
  · exact not_runnable_of_zombie (dies p self)

theorem exitSection_cpuAlive {s : Procs} (unique : s.pids.Nodup) (alone : ¬s.othersRunnable)
    (code : Int32) : (s.exitSection code).CpuAlive := by
  rintro ⟨q, present, runnable⟩
  obtain ⟨p, marked, rfl⟩ := List.mem_map.mp present
  have left := nobody_left unique alone (fun _ _ => rfl) marked
  rw [runnable_of_state_eq (reparent_state s.currentPid p), left] at runnable
  cases runnable

theorem tick_cpuAlive {s : Procs} (alive : s.Alive) (middle : s.sliceEnds = false)
    (ok : s.ServesLiving .tick) : (s.step .tick).CpuAlive := by
  have quiet : s.scheduling .tick = none := by simp [scheduling_tick, middle]
  by_cases fatal : ∃ p, s.caller = some p ∧ terminatingSig p.pendingSignals ≠ none
  · obtain ⟨p, self, fatal⟩ := fatal
    have alone := ok middle p self fatal
    have dies : ∀ p ∈ s.caller, (dispatched p).state = .zombie := by
      intro p' self'
      rw [self, Option.mem_some_iff] at self'
      subst self'
      obtain ⟨sig, isSome⟩ := Option.ne_none_iff_exists'.mp fatal
      rw [dispatched_of_some isSome]
    rintro ⟨q, present, runnable⟩
    rw [step, tick_table] at present
    rw [nobody_left alive.unique alone dies present] at runnable
    cases runnable
  · refine alive.keep ?_ (step_currentPid quiet) (fun isFork => by cases isFork)
    rintro p ⟨self, exits | ⟨_, fatal'⟩⟩
    · exact exits rfl
    · exact fatal ⟨p, self, fatal'⟩

theorem step_cpuAlive {s : Procs} {op : Op} (alive : s.Alive) (ok : s.ServesLiving op) :
    (s.step op).CpuAlive := by
  cases called : s.scheduling op with
  | some t =>
      rw [step_of_scheduling called]
      exact schedule_cpuAlive t
  | none =>
      have current := step_currentPid called
      have spared (notTick : op ≠ .tick) (stays : op.exits = none) : ∀ p, ¬s.terminates op p := by
        rintro p ⟨_, exits | ⟨isTick, _⟩⟩
        · exact exits stays
        · exact notTick isTick
      cases op with
      | fork => exact alive.keep (spared nofun rfl) current (fun _ => ok.1)
      | exitSection code => exact exitSection_cpuAlive alive.unique ok.2 code
      | tick =>
          have middle : s.sliceEnds = false := by simpa [scheduling_tick] using called
          exact tick_cpuAlive alive middle ok
      | exit code => cases called
      | forceSchedule => cases called
      | _ => exact alive.keep (spared nofun rfl) current nofun

theorem step_alive {s : Procs} {op : Op} (alive : s.Alive) (ok : s.ServesLiving op) :
    (s.step op).Alive := by
  refine ⟨step_cpuAlive alive ok, step_pids_nodup alive.unique ?_⟩
  intro pid returned
  obtain ⟨rfl, success⟩ := forkedPid_eq_some returned
  rw [fork_ok_nextPid success]
  exact ok.2

theorem boot_alive : boot.Alive := ⟨by unfold CpuAlive; decide, by decide⟩

/-- Nobody dies on the CPU as long as every step serves the living. -/
theorem never_dead_of_serves_living (ops : List Op) (ok : Admitted step ServesLiving boot ops) :
    NeverDead ops := by
  intro before op reached
  have admitted := ok.of_prefix reached
  obtain ⟨earlier, last⟩ := Runs.admitted_append.mp admitted
  have alive : (run boot before).Alive := earlier.invariant (fun _ _ => step_alive) boot_alive
  refine ⟨fun _ => ?_, fun acts => alive.not_zombie ?_⟩
  · exact (admitted.invariant (fun _ _ => step_alive) boot_alive).cpu
  · rcases acts with rfl | ⟨path, rfl⟩ | exits
    · exact last.1.1
    · exact last.1
    · cases op with
      | exit code => exact last.1
      | exitSection code => exact last.1.1
      | _ => exact absurd rfl exits

theorem never_dead_after_slice_end :
    Admitted step ServesLiving boot
      (.forceSchedule :: List.replicate 9 .tick ++ [.kill 1 sigTerm, .tick, .exit 0]) ∧
    NeverDead (.forceSchedule :: List.replicate 9 .tick ++ [.kill 1 sigTerm, .tick, .exit 0]) :=
  ⟨by decide, never_dead_of_serves_living _ (by decide)⟩

/-- Init is selected and gets a SIGTERM: the next tick terminates it in mid-slice
and leaves it on the CPU, with idle runnable. -/
theorem signal_leaves_dead_current : ¬NeverDead [.forceSchedule, .kill 1 sigTerm, .tick] := by
  intro holds
  have alive := (holds [.forceSchedule, .kill 1 sigTerm] .tick (List.prefix_refl _)).1 (.inl rfl)
  obtain ⟨p, present, current, runnable⟩ := alive (by decide)
  revert p
  decide

end ComputeKernel.Procs
