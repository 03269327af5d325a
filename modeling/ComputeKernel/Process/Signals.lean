import ComputeKernel.Process.Steps

/-! Delivery of `SIGKILL`. An accepted `kill` sets a bit of the pending mask, and
the next tick of the target turns the bit into a termination. `execve` clears the
whole mask without looking at it, and is the only step that can lose the bit. -/
namespace ComputeKernel.Procs
open Runs (Admitted follow)

theorem mask_or_and (a b mask : UInt32) : (a ||| b) &&& mask = a &&& mask ||| b &&& mask := by
  apply UInt32.toBitVec_inj.mp
  simp only [UInt32.toBitVec_and, UInt32.toBitVec_or]
  exact BitVec.and_or_distrib_right

/-- Signals accumulate: raising one more never hides one that is pending. -/
theorem hasSignal_or (a b : UInt32) (sig : UInt8) :
    hasSignal (a ||| b) sig = (hasSignal a sig || hasSignal b sig) := by
  unfold hasSignal
  rw [mask_or_and, Bool.eq_iff_iff]
  simp only [bne_iff_ne, ne_eq, UInt32.or_eq_zero_iff, Bool.or_eq_true]
  tauto

theorem terminatingSig_of_kill {pending : UInt32} (h : hasSignal pending sigKill = true) :
    terminatingSig pending = some sigKill := by
  simp [terminatingSig, h]

/-- The entry at index `i` has the given PID and is dead or about to die. -/
def DoomedAt (pid : UInt32) (s : Procs) (i : Nat) : Prop :=
  ∃ p, s.table[i]? = some p ∧ p.pid = pid ∧
    (p.state = .zombie ∨ hasSignal p.pendingSignals sigKill = true)

/-- After `kill(pid, SIGKILL)` has returned `Ok` for a live entry, that entry is
dead or has the signal pending for as long as it is in the table. -/
def KillNeverLost (ops : List Op) : Prop :=
  ∀ before pid between, before ++ .kill pid sigKill :: between <+: ops →
    ((run boot before).kill pid sigKill).1 = .ok () →
    ∀ i p, (run boot before).table.findIdx? (fun q => q.pid == pid) = some i →
      (run boot before).table[i]? = some p → p.state ≠ .zombie →
      ∀ j, follow step survivor (run boot (before ++ [.kill pid sigKill])) between i = some j →
        DoomedAt pid (run boot (before ++ .kill pid sigKill :: between)) j

/-- The step is not an `execve` of a live process with `SIGKILL` pending. -/
def KeepsKill (s : Procs) : Op → Prop
  | .execve _ => ∀ p ∈ s.caller, p.state ≠ .zombie → hasSignal p.pendingSignals sigKill = false
  | _ => True

instance (s : Procs) : (op : Op) → Decidable (s.KeepsKill op)
  | .execve _ => inferInstanceAs (Decidable
      (∀ p ∈ s.caller, p.state ≠ .zombie → hasSignal p.pendingSignals sigKill = false))
  | .fork => .isTrue trivial
  | .exit _ => .isTrue trivial
  | .exitSection _ => .isTrue trivial
  | .waitpid _ => .isTrue trivial
  | .kill _ _ => .isTrue trivial
  | .tick => .isTrue trivial
  | .forceSchedule => .isTrue trivial

theorem Edited.zombie_stays {s : Procs} {op : Op} {p q : Process} (h : Edited s op p q)
    (dead : p.state = .zombie) : q.state = .zombie := by
  rcases h.state_eq with same | ⟨zombie, _⟩
  · exact same.trans dead
  · exact zombie

theorem Edited.doomed {s : Procs} {op : Op} {p q : Process} (h : Edited s op p q)
    (ok : s.KeepsKill op) (live : p.state ≠ .zombie)
    (pending : hasSignal p.pendingSignals sigKill = true) :
    q.state = .zombie ∨ hasSignal q.pendingSignals sigKill = true := by
  cases h with
  | same p stays => exact .inr pending
  | execve path self => exact absurd pending (by simp [ok p self live])
  | signalled pid sig found => exact .inr (by simp [hasSignal_or, pending])
  | dispatched self => exact .inl (by rw [dispatched_of_some (terminatingSig_of_kill pending)])
  | exited exits self => exact .inl (by simp)
  | reparented exits => exact .inr (by simpa using pending)

theorem step_doomedAt {s : Procs} {op : Op} {i j : Nat} {pid : UInt32}
    (doomed : DoomedAt pid s i) (ok : s.KeepsKill op) (stays : s.survivor op i = some j) :
    DoomedAt pid (s.step op) j := by
  obtain ⟨p, present, samePid, fate⟩ := doomed
  obtain ⟨q, after, edited⟩ := step_entry present stays
  refine ⟨q, after, edited.pid_eq.trans samePid, ?_⟩
  by_cases dead : p.state = .zombie
  · exact .inl (edited.zombie_stays dead)
  · exact edited.doomed ok dead (fate.resolve_left dead)

/-- An accepted `kill` dooms the entry it finds. -/
theorem kill_doomedAt {s : Procs} {pid : UInt32} {i : Nat} {p : Process}
    (found : s.table.findIdx? (fun q => q.pid == pid) = some i) (present : s.table[i]? = some p) :
    DoomedAt pid (s.step (.kill pid sigKill)) i := by
  have hit : s.table.find? (fun q => q.pid == pid) = some p :=
    (FirstMatch.getElem?_findIdx? found).symm.trans present
  have samePid : p.pid = pid := by simpa using List.find?_some hit
  have valid : ¬sigKill > 31 := by decide
  have raised : (sigKill != 0) = true := by decide
  refine ⟨{ p with pendingSignals := p.pendingSignals ||| (1 <<< sigKill.toUInt32) }, ?_,
    samePid, .inr ?_⟩
  · simp only [step, kill, valid, if_false, hit, raised, if_true, edit_table, FirstMatch.editFirst,
      found]
    simp [present]
  · rw [hasSignal_or]
    have bit : hasSignal (1 <<< sigKill.toUInt32) sigKill = true := by decide
    simp [bit]

/-- Along every run without an `execve` of a process that `SIGKILL` is pending for,
no accepted `SIGKILL` is lost. -/
theorem kill_never_lost_of_kept (ops : List Op) (ok : Admitted step KeepsKill boot ops) :
    KillNeverLost ops := by
  intro before pid between ⟨after, reached⟩ _ i p found present _ j there
  have split : ops = before ++ ([.kill pid sigKill] ++ (between ++ after)) := by
    rw [← reached]
    simp
  rw [split] at ok
  have okLater := (Runs.admitted_append.mp (Runs.admitted_append.mp ok).2).2
  have okBetween := (Runs.admitted_append.mp okLater).1
  rw [run, Runs.run_append] at there
  rw [run, Runs.run_append]
  exact okBetween.follow_invariant (fun _ _ _ _ doomed ok stays => step_doomedAt doomed ok stays)
    (kill_doomedAt found present) there

/-- PID 1 executes a new image before the signal is raised, and is then killed. -/
theorem kill_never_lost_after_execve :
    KillNeverLost [.forceSchedule, .execve "/bin/sh", .kill 1 sigKill, .tick] :=
  kill_never_lost_of_kept _ (by decide)

/-- `execve` between `kill` and the next tick drops the signal. -/
theorem execve_loses_kill : ¬KillNeverLost [.forceSchedule, .kill 1 sigKill, .execve "/bin/sh"] := by
  intro kept
  obtain ⟨p, present, _, fate⟩ := kept [.forceSchedule] 1 [.execve "/bin/sh"] (List.prefix_refl _)
    (by decide) 1 _ (by decide) rfl (by decide) 1 rfl
  cases present
  exact absurd fate (by decide)

end ComputeKernel.Procs
