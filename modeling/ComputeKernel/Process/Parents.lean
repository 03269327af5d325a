import ComputeKernel.Process.Steps

/-! Parent links. `exit` hands the children of the caller to PID 1, but a fatal
signal terminates a process without doing so, and PID 1 may itself be dead. The
links stay inside the table as long as no dead process is left with children
other than itself. -/
namespace ComputeKernel.Procs
open Runs (Admitted)

/-- Every parent link names an entry of the table. -/
def ParentsPresent (s : Procs) : Prop := ∀ p ∈ s.table, ∃ q ∈ s.table, q.pid = p.parentPid

instance (s : Procs) : Decidable s.ParentsPresent :=
  inferInstanceAs (Decidable (∀ p ∈ s.table, ∃ q ∈ s.table, q.pid = p.parentPid))

/-- PID 1 is alive and is not the process that is exiting. -/
def initTakesOver (s : Procs) : Prop :=
  s.currentPid ≠ 1 ∧ ∃ q ∈ s.table, q.pid = 1 ∧ q.state ≠ .zombie

instance (s : Procs) : Decidable s.initTakesOver :=
  inferInstanceAs (Decidable (_ ∧ ∃ q ∈ s.table, q.pid = 1 ∧ q.state ≠ .zombie))

/-- The step leaves no dead process with children other than itself: a caller
that forks is alive, the children of a caller that exits go to a live PID 1, and
a caller that a signal terminates has none. -/
def Attended (s : Procs) : Op → Prop
  | .fork => ∀ p ∈ s.caller, p.state ≠ .zombie
  | .exit _ => ∀ c ∈ s.table, c.parentPid = s.currentPid → c.pid = 1 ∨ s.initTakesOver
  | .exitSection _ => ∀ c ∈ s.table, c.parentPid = s.currentPid → c.pid = 1 ∨ s.initTakesOver
  | .tick => ∀ p ∈ s.caller, terminatingSig p.pendingSignals ≠ none →
      ∀ c ∈ s.table, c.parentPid = s.currentPid → c.pid = s.currentPid
  | _ => True

instance (s : Procs) : (op : Op) → Decidable (s.Attended op)
  | .fork => inferInstanceAs (Decidable (∀ p ∈ s.caller, p.state ≠ .zombie))
  | .exit _ => inferInstanceAs (Decidable
      (∀ c ∈ s.table, c.parentPid = s.currentPid → c.pid = 1 ∨ s.initTakesOver))
  | .exitSection _ => inferInstanceAs (Decidable
      (∀ c ∈ s.table, c.parentPid = s.currentPid → c.pid = 1 ∨ s.initTakesOver))
  | .tick => inferInstanceAs (Decidable
      (∀ p ∈ s.caller, terminatingSig p.pendingSignals ≠ none →
        ∀ c ∈ s.table, c.parentPid = s.currentPid → c.pid = s.currentPid))
  | .execve _ => .isTrue trivial
  | .waitpid _ => .isTrue trivial
  | .kill _ _ => .isTrue trivial
  | .forceSchedule => .isTrue trivial

theorem Attended.of_exits {s : Procs} {op : Op} (ok : s.Attended op) (exits : op.exits ≠ none)
    {c : Process} (present : c ∈ s.table) (isChild : c.parentPid = s.currentPid) :
    c.pid = 1 ∨ s.initTakesOver := by
  cases op with
  | exit code => exact ok c present isChild
  | exitSection code => exact ok c present isChild
  | _ => exact absurd rfl exits

/-- Every process is its own parent or has a live one. -/
def LiveParents (s : Procs) : Prop :=
  ∀ p ∈ s.table, p.parentPid = p.pid ∨ ∃ q ∈ s.table, q.pid = p.parentPid ∧ q.state ≠ .zombie

theorem LiveParents.present {s : Procs} (h : s.LiveParents) : s.ParentsPresent := by
  intro p present
  rcases h p present with self | ⟨q, there, pid, _⟩
  · exact ⟨p, present, self.symm⟩
  · exact ⟨q, there, pid⟩

/-- A live entry that the step does not terminate is alive after it. -/
theorem live_after {s : Procs} (op : Op) {p : Process} (present : p ∈ s.table)
    (live : p.state ≠ .zombie) (spared : ¬s.terminates op p) :
    ∃ q ∈ (s.step op).table, q.pid = p.pid ∧ q.state ≠ .zombie := by
  obtain ⟨q, after, edited⟩ := mem_step_of_live op present live
  refine ⟨q, after, edited.pid_eq, ?_⟩
  rcases edited.state_eq with same | ⟨_, died⟩
  · rwa [same]
  · exact absurd died spared

theorem child_has_live_parent {s : Procs} {parent : Process} (ok : s.Attended .fork)
    (self : s.caller = some parent) :
    ∃ q ∈ (s.step .fork).table, q.pid = parent.pid ∧ q.state ≠ .zombie := by
  apply live_after .fork (caller_spec self).1 (ok parent self)
  rintro ⟨_, exits | ⟨isTick, _⟩⟩
  · exact exits rfl
  · cases isTick

theorem reparented_has_live_parent {s : Procs} {op : Op} (ok : s.Attended op)
    (exits : op.exits ≠ none) {p : Process} (present : p ∈ s.table)
    (isChild : p.parentPid = s.currentPid) :
    p.pid = 1 ∨ ∃ q ∈ (s.step op).table, q.pid = 1 ∧ q.state ≠ .zombie := by
  rcases ok.of_exits exits present isChild with isInit | ⟨notInit, q, there, pid, live⟩
  · exact .inl isInit
  · have spared : ¬s.terminates op q := by
      rintro ⟨self, _⟩
      exact notInit ((caller_spec self).2.symm.trans pid)
    obtain ⟨q', after, same, live'⟩ := live_after op there live spared
    exact .inr ⟨q', after, same.trans pid, live'⟩

theorem step_liveParents {s : Procs} {op : Op} (h : s.LiveParents) (ok : s.Attended op) :
    (s.step op).LiveParents := by
  intro q present
  rcases mem_step_back present with ⟨p, before, edited⟩ | ⟨parent, rfl, self, rfl⟩
  · rw [edited.parentPid_eq, edited.pid_eq]
    split_ifs with moved
    · rcases reparented_has_live_parent ok moved.1 before moved.2 with isInit | taken
      · exact .inl isInit.symm
      · exact .inr taken
    · rcases h p before with self | ⟨r, there, pid, live⟩
      · exact .inl self
      · by_cases died : s.terminates op r
        · -- The parent dies in this step without its children being moved: a fatal signal.
          obtain ⟨self, exits | ⟨rfl, fatal⟩⟩ := died
          · exact absurd ⟨exits, pid.symm.trans (caller_spec self).2⟩ moved
          · have mine : p.parentPid = s.currentPid := pid.symm.trans (caller_spec self).2
            exact .inl (mine.trans (ok r self fatal p before mine).symm)
        · obtain ⟨r', after, same, live'⟩ := live_after op there live died
          exact .inr ⟨r', after, same.trans pid, live'⟩
  · exact .inr (child_has_live_parent ok self)

theorem boot_liveParents : boot.LiveParents := by
  unfold LiveParents
  decide

/-- Along every run whose steps are attended, no entry is left with a parent that
has been reaped. -/
theorem parents_present_of_attended (ops : List Op) (ok : Admitted step Attended boot ops)
    {before : List Op} (reached : before <+: ops) : (run boot before).ParentsPresent := by
  have okBefore := ok.of_prefix reached
  exact (okBefore.invariant (fun s op => step_liveParents) boot_liveParents).present

/-- PID 2 forks PID 3, exits and is reaped: PID 3 has been handed to PID 1. -/
theorem parents_present_after_adoption :
    (run boot [.fork, .forceSchedule, .forceSchedule, .fork, .exit 3, .forceSchedule,
      .waitpid (some 2)]).ParentsPresent :=
  parents_present_of_attended
    [.fork, .forceSchedule, .forceSchedule, .fork, .exit 3, .forceSchedule, .waitpid (some 2)]
    (by decide) (List.prefix_refl _)

/-- PID 2 forks PID 3, is killed by a signal and reaped by the idle process: PID 3
keeps the parent link 2. -/
theorem orphan_after_fatal_signal :
    ¬(run boot [.fork, .forceSchedule, .forceSchedule, .fork, .kill 2 sigKill, .tick,
      .forceSchedule, .forceSchedule, .waitpid (some 2)]).ParentsPresent := by
  decide

end ComputeKernel.Procs
