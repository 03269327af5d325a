import ComputeKernel.Support.BoundedWait
import ComputeKernel.Process.Fairness
import ComputeKernel.Process.Signals

/-! Progress under the timer. Every ten ticks end a time slice, a slice that ends puts one
of the processes ahead behind, so a process that can run is selected within a number of
ticks that the table and the forks bound; and a signal that is to terminate a process does
so at its first tick on the CPU. -/
namespace ComputeKernel.Procs
open Runs (Admitted Throughout)

/-- The PIDs that `schedule` selects in the course of a run, in order. -/
def selections (s : Procs) (ops : List Op) : List UInt32 := Runs.outputs step selection s ops

/-- The processes that the scan of `schedule` tries before this one. -/
def ahead (s : Procs) (q : UInt32) : Nat :=
  ((RoundRobin.startingAt s.currentPid s.pids).tail ++ [s.currentPid]).idxOf q

section Waiting

variable {s : Procs} {op : Op} {ops : List Op} {q : UInt32}

theorem ahead_lt (orderly : s.Orderly) (there : s.runs q = true) : s.ahead q < s.table.length := by
  have below : s.ahead q < s.pids.length :=
    RoundRobin.Ring.ahead_lt (r := s.ring orderly) (mem_pids_of_runs there)
  simpa [pids] using below

theorem step_growth (s : Procs) (op : Op) :
    (s.step op).pids.length - s.pids.length ≤ [op].count .fork := by
  by_cases isFork : op = .fork
  · subst isFork
    cases step_pidChange s .fork with
    | kept same => simp [same]
    | joined grown => simp [grown]
    | left p idx there shrunk forked reaped => cases reaped
  · have shorter := step_length_le (s := s) isFork
    simp only [pids, List.length_map]
    omega

/-- A step that does not select a process lets it move up if it selects another, and only a
`fork` puts somebody before it. -/
theorem step_ahead (orderly : s.Orderly) (after : (s.step op).Orderly) (here : s.runs q = true)
    (ready : (s.step op).runs q = true) (passed : s.selection op ≠ some q) :
    (s.step op).ahead q + (s.selection op).toList.length ≤ s.ahead q + [op].count .fork := by
  have moved := (step_ring orderly after).ahead_le (mem_pids_of_runs here) (mem_pids_of_runs ready)
    ready passed
  have growth := step_growth s op
  change (s.step op).ahead q + (s.selection op).toList.length ≤
    s.ahead q + ((s.step op).pids.length - s.pids.length) at moved
  omega

theorem run_ahead (orderly : Throughout step Orderly s ops)
    (stays : Throughout step (fun s => s.runs q = true) s ops) (passed : q ∉ s.selections ops) :
    (s.run ops).ahead q + (s.selections ops).length ≤ s.ahead q + ops.count .fork := by
  induction ops generalizing s with
  | nil => simp [selections, Runs.outputs, run]
  | cons op ops ih =>
      change q ∉ (s.selection op).toList ++ (s.step op).selections ops at passed
      rw [List.mem_append, not_or] at passed
      have now : s.selection op ≠ some q := fun same => passed.1 (by simp [same])
      have first := step_ahead orderly.first orderly.second stays.first stays.second now
      have rest := ih orderly.2 stays.2 passed.2
      change ((s.step op).run ops).ahead q +
        ((s.selection op).toList ++ (s.step op).selections ops).length ≤ _
      rw [List.length_append, ← List.singleton_append, List.count_append]
      omega

theorem schedule_tickCount (s : Procs) : s.schedule.tickCount = s.tickCount := by
  unfold schedule
  split
  · rfl
  · split <;> rfl

theorem step_tickCount (notTick : op ≠ .tick) : (s.step op).tickCount = s.tickCount := by
  cases op with
  | fork => simp only [step, fork]; split <;> rfl
  | execve path => simp only [step, execve]; split <;> rfl
  | exit code => exact schedule_tickCount _
  | exitSection code => rfl
  | waitpid target => simp only [step, waitpid]; split <;> (try split) <;> rfl
  | kill pid sig => simp only [step, kill]; split <;> (try split) <;> (try split) <;> rfl
  | tick => exact absurd rfl notTick
  | forceSchedule => exact schedule_tickCount _

theorem tick_tickCount (s : Procs) : s.tick.tickCount = s.tickCount + 1 := by
  unfold tick
  rw [dispatchSignals_eq]
  split
  · exact schedule_tickCount _
  · rfl

/-- A slice that ends selects somebody as long as anybody can run. -/
theorem selection_of_sliceEnds (ends : s.sliceEnds = true) (ready : s.tick.runs q = true) :
    ∃ pid, s.selection .tick = some pid := by
  have called : s.scheduling .tick =
      some (dispatchSignals s.currentPid { s with tickCount := s.tickCount + 1 }) := by
    rw [scheduling_tick, if_pos ends]
  have after := step_of_scheduling called
  rw [selection, called, Option.bind_some]
  cases chosen : (dispatchSignals s.currentPid { s with tickCount := s.tickCount + 1 }).selects with
  | some pid => exact ⟨pid, rfl⟩
  | none =>
      obtain ⟨p, present, _, runnable⟩ := runs_iff.mp ready
      change p ∈ (s.step .tick).table at present
      rw [after, schedule_table] at present
      exact absurd runnable (by simp [scan_none chosen present])

/-- The ticks since the last slice ended. When the counter wraps a slice ends early. -/
def elapsed (s : Procs) : Nat := (s.tickCount % timeslice).toNat

theorem elapsed_lt (s : Procs) : s.elapsed < timeslice.toNat := by
  rw [elapsed, UInt64.toNat_mod]
  exact Nat.mod_lt _ (by decide)

theorem tick_elapsed (goesOn : s.sliceEnds = false) : s.tick.elapsed = s.elapsed + 1 := by
  have fits := s.tickCount.toNat_lt
  have next : (s.tickCount + 1).toNat % 10 ≠ 0 := by
    intro ends
    have zero : (s.tickCount + 1) % timeslice = 0 := by
      rw [← UInt64.toNat_inj, UInt64.toNat_mod]
      exact ends
    simp [sliceEnds, zero] at goesOn
  rw [elapsed, elapsed, tick_tickCount, UInt64.toNat_mod, UInt64.toNat_mod]
  change (s.tickCount + 1).toNat % 10 = s.tickCount.toNat % 10 + 1
  rw [UInt64.toNat_add] at next ⊢
  change (s.tickCount.toNat + 1) % 2 ^ 64 % 10 ≠ 0 at next
  change (s.tickCount.toNat + 1) % 2 ^ 64 % 10 = _
  by_cases wraps : s.tickCount.toNat + 1 = 2 ^ 64
  · rw [wraps] at next
    exact absurd rfl next
  · have below : s.tickCount.toNat + 1 < 2 ^ 64 := by omega
    rw [Nat.mod_eq_of_lt below] at next ⊢
    omega

theorem step_elapsed (ready : (s.step op).runs q = true) :
    s.elapsed + [op].count .tick ≤
      (s.step op).elapsed + timeslice.toNat * (s.selection op).toList.length := by
  by_cases isTick : op = .tick
  · subst isTick
    cases ends : s.sliceEnds with
    | true =>
        obtain ⟨pid, selected⟩ := selection_of_sliceEnds ends ready
        have below := s.elapsed_lt
        rw [selected, List.count_singleton_self, Option.toList_some, List.length_singleton]
        omega
    | false =>
        have passes := tick_elapsed ends
        change s.elapsed + [Op.tick].count .tick ≤ s.tick.elapsed + _
        rw [List.count_singleton_self]
        omega
  · have none_ : [op].count .tick = 0 := by simpa [List.count_eq_zero] using fun same => isTick same.symm
    rw [elapsed, elapsed, step_tickCount isTick, none_]
    omega

theorem run_elapsed (stays : Throughout step (fun s => s.runs q = true) s ops) :
    s.elapsed + ops.count .tick ≤
      (s.run ops).elapsed + timeslice.toNat * (s.selections ops).length := by
  induction ops generalizing s with
  | nil => simp [run, selections, Runs.outputs]
  | cons op ops ih =>
      have first := step_elapsed stays.second
      have rest := ih stays.2
      change s.elapsed + (op :: ops).count .tick ≤ ((s.step op).run ops).elapsed +
        timeslice.toNat * ((s.selection op).toList ++ (s.step op).selections ops).length
      rw [← List.singleton_append, List.count_append, List.length_append, Nat.mul_add]
      omega

/-- While a process can run and waits, there are fewer ticks than a slice for each process in
the table and each that is forked. -/
theorem selected_of_ticks (orderly : Throughout step Orderly s ops)
    (stays : Throughout step (fun s => s.runs q = true) s ops)
    (long : timeslice.toNat * (s.table.length + ops.count .fork) ≤ ops.count .tick) :
    q ∈ s.selections ops := by
  by_contra passed
  have moved := run_ahead orderly stays passed
  have ticks := run_elapsed stays
  have start := ahead_lt orderly.first stays.first
  have slice := (s.run ops).elapsed_lt
  have few : (s.selections ops).length + 1 ≤ s.table.length + ops.count .fork := by omega
  have bound := Nat.mul_le_mul_left timeslice.toNat few
  rw [Nat.mul_add] at bound
  omega

end Waiting

theorem stateAt_append {before ops : List Op} (k : Nat) :
    stateAt (before ++ ops) (before.length + k) = run (run boot before) (ops.take k) := by
  rw [stateAt, List.take_length_add_append]
  exact Runs.run_append step boot before _

section FromBoot

variable {before ops : List Op} (few : (before ++ ops).count .fork < 2 ^ 32 - 2)
  (spared : Admitted step SparesCurrent boot (before ++ ops))
include few spared

theorem orderly_throughout : Throughout step Orderly (run boot before) ops := by
  apply Throughout.of_take
  intro k _
  have orderly := orderly_at few spared (before.length + k)
  rwa [stateAt_append] at orderly

/-- No starvation: in every run, a process that stays in the table and able to run is
selected before the timer has ticked ten times for each process that was in the table and
each that was forked since. -/
theorem starvation_free {q : UInt32}
    (stays : Throughout step (fun s => s.runs q = true) (run boot before) ops)
    (long : timeslice.toNat * ((run boot before).table.length + ops.count .fork) ≤ ops.count .tick) :
    q ∈ selections (run boot before) ops :=
  selected_of_ticks (orderly_throughout few spared) stays long

end FromBoot

/-- Idle forks two children, and the last of them is selected in time. -/
theorem starvation_free_children :
    3 ∈ selections (run boot [.fork, .fork]) (List.replicate 40 .tick) :=
  starvation_free (by decide) (by decide) (by decide) (by decide)

/-- The signals that `dispatch_signals` terminates a process for. -/
def fatalSignals : List UInt8 := [sigKill, sigTerm, sigInt, sigQuit]

theorem terminatingSig_iff {pending : UInt32} :
    terminatingSig pending ≠ none ↔ ∃ sig ∈ fatalSignals, hasSignal pending sig = true := by
  unfold terminatingSig
  simp only [fatalSignals, List.mem_cons, List.not_mem_nil, or_false, exists_eq_or_imp,
    exists_eq_left]
  split_ifs <;> simp_all

theorem raised_of_fatal {sig : UInt8} (fatal : sig ∈ fatalSignals) :
    (sig != 0) = true ∧ hasSignal (1 <<< sig.toUInt32) sig = true := by
  simp only [fatalSignals, List.mem_cons, List.not_mem_nil, or_false] at fatal
  rcases fatal with rfl | rfl | rfl | rfl <;> decide

/-- A process that can run and has this PID will not survive its next tick. -/
def Doomed (pid : UInt32) (s : Procs) : Prop :=
  ∀ p ∈ s.table, p.pid = pid → p.runnable = true → terminatingSig p.pendingSignals ≠ none

/-- The step is not an `execve` of this process, which would drop its signals. -/
def KeepsSignals (pid : UInt32) (s : Procs) : Op → Prop
  | .execve _ => s.currentPid ≠ pid
  | _ => True

instance (pid : UInt32) (s : Procs) : (op : Op) → Decidable (KeepsSignals pid s op)
  | .execve _ => inferInstanceAs (Decidable (s.currentPid ≠ pid))
  | .fork => .isTrue trivial
  | .exit _ => .isTrue trivial
  | .exitSection _ => .isTrue trivial
  | .waitpid _ => .isTrue trivial
  | .kill _ _ => .isTrue trivial
  | .tick => .isTrue trivial
  | .forceSchedule => .isTrue trivial

/-- An operation that is not a piece of an `exit` that ticks have interrupted. The late
`force_schedule` of such an `exit` takes the CPU from whom the timer has given it to. -/
def Op.whole : Op → Bool
  | .exitSection _ => false
  | .forceSchedule => false
  | _ => true

section Signals

variable {s : Procs} {op : Op} {ops : List Op} {pid : UInt32} {sig : UInt8}

/-- With unique PIDs an edit touches the entry of its PID and no other. -/
theorem mem_edit (unique : s.pids.Nodup) {change : Process → Process} {q : Process}
    (present : q ∈ (s.edit pid change).table) :
    (q ∈ s.table ∧ q.pid ≠ pid) ∨ ∃ p ∈ s.table, p.pid = pid ∧ q = change p := by
  have located := mem_edit_current (s := { s with currentPid := pid }) unique present
  refine located.imp_right ?_
  rintro ⟨p, self, changed⟩
  obtain ⟨there, same⟩ := caller_spec self
  exact ⟨p, there, same, changed⟩

theorem Edited.terminating {p q : Process} (h : Edited s op p q) (kept : KeepsSignals p.pid s op)
    (pending : terminatingSig p.pendingSignals ≠ none) (runnable : q.runnable = true) :
    terminatingSig q.pendingSignals ≠ none := by
  cases h with
  | same p stays => exact pending
  | execve path self => exact absurd (caller_spec self).2.symm kept
  | signalled pid sig found =>
      obtain ⟨fatal, member, raised⟩ := terminatingSig_iff.mp pending
      exact terminatingSig_iff.mpr ⟨fatal, member, by simp [hasSignal_or, raised]⟩
  | dispatched self =>
      obtain ⟨sig, found⟩ := Option.ne_none_iff_exists'.mp pending
      rw [dispatched_of_some found] at runnable
      cases runnable
  | exited exits self => simp [Process.runnable] at runnable
  | reparented exits => simpa using pending

theorem step_doomed (doomed : Doomed pid s) (kept : KeepsSignals pid s op)
    (old : s.forkedPid op ≠ some pid) : Doomed pid (s.step op) := by
  intro q present same runnable
  rcases mem_step_back present with ⟨p, before, edited⟩ | ⟨parent, rfl, found, rfl⟩
  · have samePid : p.pid = pid := edited.pid_eq.symm.trans same
    rcases edited.state_eq with sameState | ⟨dead, _⟩
    · rw [runnable_of_state_eq sameState] at runnable
      have pending := doomed p before samePid runnable
      refine edited.terminating (samePid ▸ kept) pending ?_
      rwa [runnable_of_state_eq sameState]
    · exact absurd dead (live_of_runnable runnable)
  · exact absurd ((forkedPid_of_caller found).trans (congrArg some same)) old

theorem kill_found (accepted : (s.kill pid sig).1 = .ok ()) : pid ∈ s.pids := by
  unfold kill at accepted
  split at accepted
  · cases accepted
  · split at accepted
    · cases accepted
    · next p found =>
        exact List.mem_map.mpr ⟨p, List.mem_of_find?_eq_some found, by simpa using List.find?_some found⟩

theorem kill_doomed (unique : s.pids.Nodup) (accepted : (s.kill pid sig).1 = .ok ())
    (fatal : sig ∈ fatalSignals) : Doomed pid (s.step (.kill pid sig)) := by
  have sent : s.step (.kill pid sig) = s.edit pid (fun p =>
      { p with pendingSignals := p.pendingSignals ||| (1 <<< sig.toUInt32) }) := by
    unfold kill at accepted
    simp only [step, kill]
    split at accepted
    · cases accepted
    · next valid =>
        rw [if_neg valid]
        split at accepted
        · cases accepted
        · rw [if_pos (raised_of_fatal fatal).1]
  intro q present same _
  rw [sent] at present
  rcases mem_edit unique present with ⟨_, other⟩ | ⟨p, _, _, rfl⟩
  · exact absurd same other
  · refine terminatingSig_iff.mpr ⟨sig, fatal, ?_⟩
    simp [hasSignal_or, (raised_of_fatal fatal).2]

theorem tick_ends (unique : s.pids.Nodup) (doomed : Doomed s.currentPid s) :
    (s.step .tick).runs s.currentPid = false := by
  rw [Bool.eq_false_iff, Ne, runs_iff]
  rintro ⟨q, present, same, runnable⟩
  change q ∈ s.tick.table at present
  rw [tick_table] at present
  rcases mem_edit (s := s) unique present with ⟨_, other⟩ | ⟨p, there, samePid, rfl⟩
  · exact other same
  · by_cases alive : p.runnable = true
    · obtain ⟨sig, found⟩ := Option.ne_none_iff_exists'.mp (doomed p there samePid alive)
      rw [dispatched_of_some found] at runnable
      cases runnable
    · have edited : Edited s .tick p (dispatched p) := .dispatched (caller_of_mem unique there samePid)
      rcases edited.state_eq with sameState | ⟨dead, _⟩
      · exact alive ((runnable_of_state_eq sameState).symm.trans runnable)
      · exact live_of_runnable runnable dead

theorem exit_ends (unique : s.pids.Nodup) (code : Int32) :
    (s.step (.exit code)).runs s.currentPid = false := by
  rw [Bool.eq_false_iff, Ne, runs_iff]
  rintro ⟨q, present, same, runnable⟩
  change q ∈ (s.exit code).table at present
  rw [exit_table, exitSection_table] at present
  obtain ⟨marked, there, rfl⟩ := List.mem_map.mp present
  rw [reparent_pid] at same
  rcases mem_edit (s := s) unique there with ⟨_, other⟩ | ⟨p, _, _, rfl⟩
  · exact other same
  · exact live_of_runnable runnable (by simp)

/-- A doomed process that is on the CPU and goes on running sees no tick. -/
theorem no_tick_of_doomed (orderly : Throughout step Orderly s ops)
    (stays : Throughout step (fun s => s.runs pid = true) s ops)
    (doomed : Throughout step (Doomed pid) s ops) (whole : ∀ op ∈ ops, op.whole = true)
    (current : s.currentPid = pid) : .tick ∉ ops := by
  induction ops generalizing s with
  | nil => exact List.not_mem_nil
  | cons op ops ih =>
      have unique := orderly.first.unique
      have alive := stays.second
      have going : s.scheduling op = none ∧ op ≠ .tick := by
        cases op with
        | tick =>
            subst current
            rw [tick_ends unique doomed.first] at alive
            cases alive
        | exit code =>
            rw [← current, exit_ends unique code] at alive
            cases alive
        | exitSection code => cases whole _ List.mem_cons_self
        | forceSchedule => cases whole _ List.mem_cons_self
        | _ => exact ⟨rfl, by simp⟩
      have rest := ih orderly.2 stays.2 doomed.2
        (fun later member => whole later (List.mem_cons_of_mem op member))
        ((step_currentPid going.1).trans current)
      rw [List.mem_cons, not_or]
      exact ⟨going.2.symm, rest⟩

theorem exists_last_tick (ticks : .tick ∈ ops) :
    ∃ before after, ops = before ++ .tick :: after ∧ .tick ∉ after := by
  obtain ⟨after, before, split, last⟩ := List.eq_append_cons_of_mem (List.mem_reverse.mpr ticks)
  refine ⟨before.reverse, after.reverse, ?_, by simpa using last⟩
  rw [← List.reverse_reverse ops, split]
  simp

/-- A doomed process cannot go on running for as long as it takes to select it, and for one
tick more. -/
theorem dies_of_doomed (orderly : Throughout step Orderly s ops)
    (doomed : Throughout step (Doomed pid) s ops) (whole : ∀ op ∈ ops, op.whole = true)
    (long : timeslice.toNat * (s.table.length + ops.count .fork) < ops.count .tick) :
    ¬Throughout step (fun s => s.runs pid = true) s ops := by
  intro stays
  obtain ⟨upto, after, rfl, last⟩ := exists_last_tick
    (List.count_pos_iff.mp (Nat.lt_of_le_of_lt (Nat.zero_le _) long))
  obtain ⟨orderlyUpto, _⟩ := Throughout.append.mp orderly
  obtain ⟨staysUpto, _⟩ := Throughout.append.mp stays
  have enough : timeslice.toNat * (s.table.length + upto.count .fork) ≤ upto.count .tick := by
    have forks : upto.count Op.fork ≤ (upto ++ .tick :: after).count .fork :=
      (List.sublist_append_left upto _).count_le _
    have ticks : (upto ++ .tick :: after).count Op.tick = upto.count .tick + 1 := by
      rw [List.count_append, List.count_cons_self, List.count_eq_zero.mpr last]
    have fewer := Nat.mul_le_mul_left timeslice.toNat (Nat.add_le_add_left forks s.table.length)
    omega
  have selected := selected_of_ticks orderlyUpto staysUpto enough
  obtain ⟨m, here⟩ := List.mem_iff_getElem?.mp selected
  obtain ⟨before, op, ⟨rest, reached⟩, _, chosen⟩ := Runs.exists_step_of_output here
  -- From this selection on the process is on the CPU, and the last tick is still to come.
  have regroup : upto ++ .tick :: after = (before ++ [op]) ++ (rest ++ .tick :: after) := by
    rw [← reached]
    simp
  rw [regroup] at orderly stays doomed whole
  have current : (s.run (before ++ [op])).currentPid = pid := by
    rw [run_concat]
    exact selection_currentPid chosen
  refine no_tick_of_doomed (Throughout.append.mp orderly).2 (Throughout.append.mp stays).2
    (Throughout.append.mp doomed).2 ?_ current (by simp)
  exact fun later member => whole later (List.mem_append_right _ member)

end Signals

/-- No operation blocks a process, so whoever is alive can run. -/
theorem step_unblocked (s : Procs) (op : Op) (unblocked : ∀ p ∈ s.table, p.state ≠ .blocked) :
    ∀ p ∈ (s.step op).table, p.state ≠ .blocked := by
  intro q present
  rcases mem_step_back present with ⟨p, before, edited⟩ | ⟨parent, _, _, rfl⟩
  · rcases edited.state_eq with same | ⟨dead, _⟩
    · rw [same]
      exact unblocked p before
    · simp [dead]
  · simp [child]

theorem run_unblocked (ops : List Op) : ∀ p ∈ (run boot ops).table, p.state ≠ .blocked :=
  Runs.run_invariant step_unblocked ops (by decide)

theorem runnable_of_live {p : Process} (unblocked : p.state ≠ .blocked) (live : p.state ≠ .zombie) :
    p.runnable = true := by
  cases h : p.state with
  | ready | running => simp [Process.runnable, h]
  | blocked => exact absurd h unblocked
  | zombie => exact absurd h live

section Killed

variable {before ops : List Op} {pid : UInt32}

theorem known_at (known : pid ∈ (run boot before).pids) :
    pid ∈ (stateAt (before ++ ops) before.length).pids := by
  rw [stateAt, List.take_left]
  exact known

variable (few : (before ++ ops).count .fork < 2 ^ 32 - 2) (known : pid ∈ (run boot before).pids)
include few known

theorem doomed_throughout (doomed : Doomed pid (run boot before))
    (kept : Admitted step (KeepsSignals pid) (run boot before) ops) :
    Throughout step (Doomed pid) (run boot before) ops := by
  apply Throughout.of_take
  intro k below
  induction k with
  | zero => exact doomed
  | succ k ih =>
      obtain ⟨op, here⟩ : ∃ op, ops[k]? = some op := ⟨_, List.getElem?_eq_getElem (by omega)⟩
      rw [Runs.run_take_succ step _ here]
      refine step_doomed (ih (by omega)) (kept.at_step here) ?_
      have there : (before ++ ops)[before.length + k]? = some op := by
        rw [List.getElem?_append_right (by omega), Nat.add_sub_cancel_left, here]
      have unused := forkedPid_unused few (Nat.le_add_right before.length k) there (known_at known)
      rwa [stateAt_append] at unused

theorem runs_throughout (last : (run boot (before ++ ops)).runs pid = true) :
    Throughout step (fun s => s.runs pid = true) (run boot before) ops := by
  apply Throughout.of_take
  intro k below
  have finally_ : (stateAt (before ++ ops) (before ++ ops).length).runs pid = true := by
    rwa [stateAt, List.take_length]
  have alive := runs_between few (known_at known) (Nat.le_refl _) finally_
    (Nat.le_add_right before.length k) (by rw [List.length_append]; omega)
  rwa [stateAt_append] at alive

end Killed

end ComputeKernel.Procs
