import ComputeKernel.Process.Steps

/-! Finality of the exit status. `exit` and `dispatch_signals` write the state and
the exit code without looking at the state, so a zombie that is still the current
process can be terminated a second time. Entries are followed by their index:
PIDs alone do not identify an entry once the counter has wrapped. -/
namespace ComputeKernel.Procs
open Runs (Admitted follow)

/-- The entry at index `i` is a zombie with the given PID and exit code. -/
def DeadAt (pid : UInt32) (code : Int32) (s : Procs) (i : Nat) : Prop :=
  ∃ p, s.table[i]? = some p ∧ p.pid = pid ∧ p.state = .zombie ∧ p.exitCode = code

/-- From any moment of the run at which an entry is a zombie, that entry keeps its
state and exit code for as long as it is there, and a `waitpid` that reaps it
returns that code. -/
def ExitStatusFinal (ops : List Op) : Prop :=
  ∀ before between, before ++ between <+: ops → ∀ i pid code,
    DeadAt pid code (run boot before) i →
    ∀ j, follow step survivor (run boot before) between i = some j →
      DeadAt pid code (run boot (before ++ between)) j ∧
      ∀ target, (run boot (before ++ between)).survivor (.waitpid target) j = none →
        ((run boot (before ++ between)).waitpid target).1 = .ok (some (pid, code))

/-- The step does not terminate a process that is dead already. -/
def SparesDead (s : Procs) : Op → Prop
  | .exit _ => ∀ p ∈ s.caller, p.state ≠ .zombie
  | .exitSection _ => ∀ p ∈ s.caller, p.state ≠ .zombie
  | .tick => ∀ p ∈ s.caller, p.state = .zombie → terminatingSig p.pendingSignals = none
  | _ => True

instance (s : Procs) : (op : Op) → Decidable (s.SparesDead op)
  | .exit _ => inferInstanceAs (Decidable (∀ p ∈ s.caller, p.state ≠ .zombie))
  | .exitSection _ => inferInstanceAs (Decidable (∀ p ∈ s.caller, p.state ≠ .zombie))
  | .tick => inferInstanceAs (Decidable
      (∀ p ∈ s.caller, p.state = .zombie → terminatingSig p.pendingSignals = none))
  | .fork => .isTrue trivial
  | .execve _ => .isTrue trivial
  | .waitpid _ => .isTrue trivial
  | .kill _ _ => .isTrue trivial
  | .forceSchedule => .isTrue trivial

theorem SparesDead.not_terminates {s : Procs} {op : Op} (ok : s.SparesDead op) {p : Process}
    (dead : p.state = .zombie) : ¬s.terminates op p := by
  rintro ⟨self, exits | ⟨rfl, fatal⟩⟩
  · cases op with
    | exit code => exact ok p self dead
    | exitSection code => exact ok p self dead
    | _ => exact exits rfl
  · exact fatal (ok p self dead)

/-- The exit code is written only when the entry is terminated. -/
theorem Edited.exitCode_eq {s : Procs} {op : Op} {p q : Process} (h : Edited s op p q) :
    q.exitCode = p.exitCode ∨ s.terminates op p := by
  cases h with
  | same p stays => exact .inl rfl
  | execve path self => exact .inl rfl
  | signalled pid sig found => exact .inl rfl
  | dispatched self =>
      cases sig : terminatingSig p.pendingSignals with
      | none => exact .inl (by rw [dispatched_of_none sig])
      | some sig' => exact .inr ⟨self, .inr ⟨rfl, by simp [sig]⟩⟩
  | exited exits self => exact .inr ⟨self, .inl (by simp [exits])⟩
  | reparented exits => exact .inl (by simp)

theorem step_deadAt {s : Procs} {op : Op} {i j : Nat} {pid : UInt32} {code : Int32}
    (dead : DeadAt pid code s i) (ok : s.SparesDead op) (stays : s.survivor op i = some j) :
    DeadAt pid code (s.step op) j := by
  obtain ⟨p, present, samePid, zombie, sameCode⟩ := dead
  obtain ⟨q, after, edited⟩ := step_entry present stays
  have spared := ok.not_terminates zombie
  refine ⟨q, after, edited.pid_eq.trans samePid, ?_, ?_⟩
  · rcases edited.state_eq with same | ⟨_, died⟩
    · exact same.trans zombie
    · exact absurd died spared
  · rcases edited.exitCode_eq with same | died
    · exact same.trans sameCode
    · exact absurd died spared

/-- What `waitpid` returns for the entry it reaps. -/
theorem waitpid_of_deadAt {s : Procs} {target : Option UInt32} {j : Nat} {pid : UInt32}
    {code : Int32} (dead : DeadAt pid code s j) (reaped : s.survivor (.waitpid target) j = none) :
    (s.waitpid target).1 = .ok (some (pid, code)) := by
  obtain ⟨p, present, samePid, _, sameCode⟩ := dead
  simp only [survivor] at reaped
  cases taken : s.zombieChild target with
  | none => simp [taken] at reaped
  | some entry =>
      obtain ⟨z, idx⟩ := entry
      simp only [taken] at reaped
      split_ifs at reaped with below here
      have same := (zombieChild_spec taken).1
      rw [← here, present, Option.some.injEq] at same
      rw [waitpid_of_zombieChild taken, ← same, samePid, sameCode]

/-- Along every run whose steps spare the dead, the exit status is final. -/
theorem exit_status_final_of_spared (ops : List Op) (ok : Admitted step SparesDead boot ops) :
    ExitStatusFinal ops := by
  intro before between ⟨after, reached⟩ i pid code dead j there
  rw [← reached, List.append_assoc] at ok
  have okBetween := (Runs.admitted_append.mp (Runs.admitted_append.mp ok).2).1
  have final : DeadAt pid code (run boot (before ++ between)) j := by
    rw [run, Runs.run_append]
    exact okBetween.follow_invariant (fun _ _ _ _ dead ok stays => step_deadAt dead ok stays)
      dead there
  exact ⟨final, fun target reaped => waitpid_of_deadAt final reaped⟩

/-- PID 1 exits with code 7 although a signal is pending, and is reaped by idle. -/
theorem exit_status_final_after_exit :
    ExitStatusFinal [.forceSchedule, .kill 1 sigTerm, .exit 7, .tick, .waitpid (some 1)] :=
  exit_status_final_of_spared _ (by decide)

/-- A fatal signal terminates PID 1 in the middle of its time slice; it is still
the current process and its `exit` overwrites the status. -/
theorem exit_overwrites_signal_status :
    ¬ExitStatusFinal [.forceSchedule, .kill 1 sigTerm, .tick, .exit 7] := by
  intro final
  have dead : DeadAt 1 143 (run boot [.forceSchedule, .kill 1 sigTerm, .tick]) 1 :=
    ⟨_, rfl, by decide, by decide, by decide⟩
  obtain ⟨⟨p, present, _, _, code⟩, _⟩ :=
    final [.forceSchedule, .kill 1 sigTerm, .tick] [.exit 7] (List.prefix_refl _) 1 1 143 dead 1 rfl
  cases present
  exact absurd code (by decide)

end ComputeKernel.Procs
