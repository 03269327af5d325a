import ComputeKernel.Process.Model

/-! What one step can do to the process table, entry by entry. Every invariant of
the subsystem is derived from the two directions proved here, without unfolding
the operations again. -/
namespace ComputeKernel.Procs
open FirstMatch

@[simp] theorem edit_table (s : Procs) (pid : UInt32) (change : Process → Process) :
    (s.edit pid change).table = editFirst (fun p => p.pid == pid) change s.table := rfl

@[simp] theorem edit_nextPid (s : Procs) (pid : UInt32) (change : Process → Process) :
    (s.edit pid change).nextPid = s.nextPid := rfl

@[simp] theorem edit_currentPid (s : Procs) (pid : UInt32) (change : Process → Process) :
    (s.edit pid change).currentPid = s.currentPid := rfl

@[simp] theorem schedule_table (s : Procs) : s.schedule.table = s.table := by
  unfold schedule
  split
  · rfl
  · split <;> rfl

@[simp] theorem schedule_nextPid (s : Procs) : s.schedule.nextPid = s.nextPid := by
  unfold schedule
  split
  · rfl
  · split <;> rfl

/-- The update `dispatch_signals` makes to the entry it finds. -/
def dispatched (p : Process) : Process :=
  match terminatingSig p.pendingSignals with
  | some sig => { p with
      state := .zombie
      exitCode := 128 + Int32.ofNat sig.toNat
      pendingSignals := 0 }
  | none => { p with pendingSignals := 0 }

theorem dispatched_of_none {p : Process} (h : terminatingSig p.pendingSignals = none) :
    dispatched p = { p with pendingSignals := 0 } := by
  simp [dispatched, h]

theorem dispatched_of_some {p : Process} {sig : UInt8}
    (h : terminatingSig p.pendingSignals = some sig) :
    dispatched p = { p with
      state := .zombie
      exitCode := 128 + Int32.ofNat sig.toNat
      pendingSignals := 0 } := by
  simp [dispatched, h]

/-- With an empty mask the update is the identity, so the early return of
`dispatch_signals` needs no case of its own. -/
theorem dispatched_of_quiet {p : Process} (quiet : p.pendingSignals = 0) : dispatched p = p := by
  have none_ : terminatingSig p.pendingSignals = none := by
    rw [quiet]
    decide
  rw [dispatched_of_none none_]
  cases p
  simp_all

theorem dispatchSignals_eq (pid : UInt32) (s : Procs) :
    dispatchSignals pid s = s.edit pid dispatched := by
  unfold dispatchSignals
  cases found : s.table.find? (fun p => p.pid == pid) with
  | none => simp only [edit, editFirst_of_find?_none _ found]
  | some proc =>
      by_cases quiet : proc.pendingSignals = 0
      · have fixed : editFirst (fun p => p.pid == pid) dispatched s.table = s.table := by
          apply editFirst_fixed
          intro a hit
          rw [found, Option.some.injEq] at hit
          exact dispatched_of_quiet (hit ▸ quiet)
        simp [quiet, edit, fixed]
      · cases sig : terminatingSig proc.pendingSignals with
        | none =>
            simp only [beq_iff_eq, quiet, if_false, sig, edit]
            congr 1
            apply editFirst_congr
            intro a hit
            rw [found, Option.some.injEq] at hit
            exact (dispatched_of_none (hit ▸ sig)).symm
        | some sig' =>
            simp only [beq_iff_eq, quiet, if_false, sig, edit]
            congr 1
            apply editFirst_congr
            intro a hit
            rw [found, Option.some.injEq] at hit
            exact (dispatched_of_some (hit ▸ sig)).symm

@[simp] theorem tick_table (s : Procs) :
    s.tick.table = editFirst (fun p => p.pid == s.currentPid) dispatched s.table := by
  unfold tick
  rw [dispatchSignals_eq]
  split <;> simp

@[simp] theorem tick_nextPid (s : Procs) : s.tick.nextPid = s.nextPid := by
  unfold tick
  rw [dispatchSignals_eq]
  split <;> simp

@[simp] theorem exitSection_table (code : Int32) (s : Procs) :
    (s.exitSection code).table =
      (editFirst (fun p => p.pid == s.currentPid)
        (fun p => { p with state := .zombie, exitCode := code }) s.table).map
        (Process.reparent s.currentPid) := rfl

@[simp] theorem exit_table (code : Int32) (s : Procs) :
    (s.exit code).table = (s.exitSection code).table := schedule_table _

/-- The entry `waitpid` takes is a zombie child of the caller that the target admits. -/
theorem zombieChild_spec {s : Procs} {target : Option UInt32} {p : Process} {idx : Nat}
    (h : s.zombieChild target = some (p, idx)) :
    s.table[idx]? = some p ∧ p.parentPid = s.currentPid ∧ p.state = .zombie ∧
      wants target p = true := by
  have tested := List.find?_some h
  have there := List.mem_zipIdx_iff_getElem?.mp (List.mem_of_find?_eq_some h)
  simp only [Bool.and_eq_true, beq_iff_eq] at tested
  exact ⟨there, tested.1.1, tested.1.2, tested.2⟩

theorem waitpid_of_zombieChild {s : Procs} {target : Option UInt32} {p : Process} {idx : Nat}
    (h : s.zombieChild target = some (p, idx)) :
    s.waitpid target =
      (.ok (some (p.pid, p.exitCode)), { s with table := s.table.eraseIdx idx }) := by
  obtain ⟨there, parent, _, wanted⟩ := zombieChild_spec h
  have child : s.table.any (s.isChild target) = true := by
    refine List.any_eq_true.mpr ⟨p, List.mem_of_getElem? there, ?_⟩
    simp [isChild, parent, wanted]
  simp only [waitpid, child, if_true, h]

theorem waitpid_of_no_zombieChild {s : Procs} {target : Option UInt32}
    (h : s.zombieChild target = none) : (s.waitpid target).2 = s := by
  unfold waitpid
  rw [h]
  split <;> rfl

/-- The entry `fork` pushes for a caller. -/
def child (s : Procs) (parent : Process) : Process :=
  { pid := s.nextPid
    parentPid := parent.pid
    name := parent.name
    state := .ready
    priority := parent.priority
    kernelRsp := parent.kernelRsp
    exitCode := 0
    pendingSignals := 0 }

theorem fork_of_caller {s : Procs} {parent : Process} (h : s.caller = some parent) :
    s.fork = (.ok s.nextPid,
      { s with table := s.table ++ [s.child parent], nextPid := s.nextPid + 1 }) := by
  simp only [fork, h, child]

theorem fork_of_no_caller {s : Procs} (h : s.caller = none) :
    s.fork = (.error "fork: current process not found", s) := by
  simp only [fork, h]

theorem caller_spec {s : Procs} {p : Process} (h : s.caller = some p) :
    p ∈ s.table ∧ p.pid = s.currentPid :=
  ⟨List.mem_of_find?_eq_some h, by simpa using List.find?_some h⟩

/-- The exit code of a step that runs the section of `exit`. -/
def Op.exits : Op → Option Int32
  | .exit code => some code
  | .exitSection code => some code
  | _ => none

/-- The ways in which a step may change an entry that stays in the table. -/
inductive Edited (s : Procs) : Op → Process → Process → Prop where
  | same {op : Op} (p : Process) (stays : op.exits = none) : Edited s op p p
  | execve {p : Process} (path : String) (self : s.caller = some p) :
      Edited s (.execve path) p { p with name := lastComponent path, pendingSignals := 0 }
  | signalled {p : Process} (pid : UInt32) (sig : UInt8)
      (found : s.table.find? (fun q => q.pid == pid) = some p) :
      Edited s (.kill pid sig) p
        { p with pendingSignals := p.pendingSignals ||| (1 <<< sig.toUInt32) }
  | dispatched {p : Process} (self : s.caller = some p) : Edited s .tick p (dispatched p)
  | exited {op : Op} {p : Process} {code : Int32} (exits : op.exits = some code)
      (self : s.caller = some p) :
      Edited s op p (Process.reparent s.currentPid { p with state := .zombie, exitCode := code })
  | reparented {op : Op} {p : Process} {code : Int32} (exits : op.exits = some code) :
      Edited s op p (Process.reparent s.currentPid p)

/-- Where the entry at an index is after a step; `none` when the step reaps it. -/
def survivor (s : Procs) : Op → Nat → Option Nat
  | .waitpid target, i =>
      match s.zombieChild target with
      | some (_, idx) => if i < idx then some i else if i = idx then none else some (i - 1)
      | none => some i
  | _, i => some i

theorem exitSection_entry {s : Procs} {code : Int32} {op : Op} (exits : op.exits = some code)
    {i : Nat} {p : Process} (present : s.table[i]? = some p) :
    ∃ q, (s.exitSection code).table[i]? = some q ∧ Edited s op p q := by
  simp only [exitSection_table, List.getElem?_map]
  rcases editFirst_getElem? (fun p => p.pid == s.currentPid)
    (fun p => { p with state := .zombie, exitCode := code }) present with same | ⟨self, marked⟩
  · rw [same]
    exact ⟨_, rfl, .reparented exits⟩
  · rw [marked]
    exact ⟨_, rfl, .exited exits self⟩

/-- An update of the first match, seen from the entry at an index. -/
theorem editFirst_entry {s : Procs} {op : Op} (stays : op.exits = none) {found : Process → Bool}
    {change : Process → Process} {i : Nat} {p : Process} (present : s.table[i]? = some p)
    (edited : s.table.find? found = some p → Edited s op p (change p)) :
    ∃ q, (editFirst found change s.table)[i]? = some q ∧ Edited s op p q := by
  rcases editFirst_getElem? found change present with same | ⟨isFound, changed⟩
  · exact ⟨p, same, .same p stays⟩
  · exact ⟨change p, changed, edited isFound⟩

theorem execve_entry {s : Procs} (path : String) {i : Nat} {p : Process}
    (present : s.table[i]? = some p) :
    ∃ q, (s.execve path).2.table[i]? = some q ∧ Edited s (.execve path) p q := by
  unfold execve
  cases s.caller with
  | none => exact ⟨p, present, .same p rfl⟩
  | some proc => exact editFirst_entry rfl present (fun self => .execve path self)

theorem kill_entry {s : Procs} (pid : UInt32) (sig : UInt8) {i : Nat} {p : Process}
    (present : s.table[i]? = some p) :
    ∃ q, (s.kill pid sig).2.table[i]? = some q ∧ Edited s (.kill pid sig) p q := by
  unfold kill
  split
  · exact ⟨p, present, .same p rfl⟩
  · split
    · exact ⟨p, present, .same p rfl⟩
    · split
      · exact editFirst_entry rfl present (fun found => .signalled pid sig found)
      · exact ⟨p, present, .same p rfl⟩

theorem fork_entry {s : Procs} {i : Nat} {p : Process} (present : s.table[i]? = some p) :
    s.fork.2.table[i]? = some p := by
  cases found : s.caller with
  | none => simpa only [fork_of_no_caller found] using present
  | some parent =>
      have inside : i < s.table.length := (List.getElem?_eq_some_iff.mp present).1
      simp only [fork_of_caller found]
      rw [List.getElem?_append_left inside, present]

/-- The entries behind the one that is reaped move up by one. -/
theorem waitpid_entry {s : Procs} {target : Option UInt32} {i j : Nat} {p : Process}
    (present : s.table[i]? = some p) (stays : s.survivor (.waitpid target) i = some j) :
    (s.waitpid target).2.table[j]? = some p := by
  simp only [survivor] at stays
  cases taken : s.zombieChild target with
  | none =>
      simp only [taken, Option.some.injEq] at stays
      subst stays
      simpa only [waitpid_of_no_zombieChild taken] using present
  | some entry =>
      obtain ⟨z, idx⟩ := entry
      simp only [taken] at stays
      simp only [waitpid_of_zombieChild taken, List.getElem?_eraseIdx]
      split_ifs at stays with below here
      · cases stays
        rw [if_pos below, present]
      · cases stays
        have later : ¬i - 1 < idx := by omega
        have back : i - 1 + 1 = i := by omega
        rw [if_neg later, back, present]

/-- An entry that a step does not reap is still there, changed only as `Edited` allows. -/
theorem step_entry {s : Procs} {op : Op} {i j : Nat} {p : Process}
    (present : s.table[i]? = some p) (stays : s.survivor op i = some j) :
    ∃ q, (s.step op).table[j]? = some q ∧ Edited s op p q := by
  cases op with
  | fork =>
      cases stays
      exact ⟨p, fork_entry present, .same p rfl⟩
  | execve path =>
      cases stays
      exact execve_entry path present
  | exit code =>
      cases stays
      simpa only [step, exit_table] using exitSection_entry rfl present
  | exitSection code =>
      cases stays
      exact exitSection_entry rfl present
  | waitpid target => exact ⟨p, waitpid_entry present stays, .same p rfl⟩
  | kill pid sig =>
      cases stays
      exact kill_entry pid sig present
  | tick =>
      cases stays
      simp only [step, tick_table]
      exact editFirst_entry rfl present (fun self => .dispatched self)
  | forceSchedule =>
      cases stays
      exact ⟨p, by simpa only [step, forceSchedule, schedule_table] using present, .same p rfl⟩

def pids (s : Procs) : List UInt32 := s.table.map Process.pid

@[simp] theorem reparent_pid (current : UInt32) (p : Process) :
    (Process.reparent current p).pid = p.pid := by
  unfold Process.reparent
  split <;> rfl

@[simp] theorem reparent_state (current : UInt32) (p : Process) :
    (Process.reparent current p).state = p.state := by
  unfold Process.reparent
  split <;> rfl

@[simp] theorem reparent_exitCode (current : UInt32) (p : Process) :
    (Process.reparent current p).exitCode = p.exitCode := by
  unfold Process.reparent
  split <;> rfl

@[simp] theorem reparent_pendingSignals (current : UInt32) (p : Process) :
    (Process.reparent current p).pendingSignals = p.pendingSignals := by
  unfold Process.reparent
  split <;> rfl

@[simp] theorem dispatched_pid (p : Process) : (dispatched p).pid = p.pid := by
  unfold dispatched
  split <;> rfl

@[simp] theorem dispatched_parentPid (p : Process) : (dispatched p).parentPid = p.parentPid := by
  unfold dispatched
  split <;> rfl

theorem Edited.pid_eq {s : Procs} {op : Op} {p q : Process} (h : Edited s op p q) :
    q.pid = p.pid := by
  cases h <;> simp

theorem edit_pids {s : Procs} {pid : UInt32} {change : Process → Process}
    (kept : ∀ p, (change p).pid = p.pid) : (s.edit pid change).pids = s.pids :=
  editFirst_map Process.pid kept s.table

theorem exitSection_pids (code : Int32) (s : Procs) : (s.exitSection code).pids = s.pids := by
  have kept : Process.pid ∘ Process.reparent s.currentPid = Process.pid := by
    funext p
    exact reparent_pid _ p
  simp only [pids, exitSection_table, List.map_map, kept]
  apply editFirst_map
  intro p
  rfl

/-- Only `fork` and `waitpid` change the list of PIDs. -/
theorem step_pids_kept {s : Procs} {op : Op} (notFork : op ≠ .fork)
    (notWait : ∀ target, op ≠ .waitpid target) : (s.step op).pids = s.pids := by
  cases op with
  | fork => exact absurd rfl notFork
  | execve path =>
      simp only [step, Procs.execve]
      split
      · rfl
      · apply edit_pids
        intro p
        rfl
  | exit code =>
      simp only [step, pids, exit_table]
      exact exitSection_pids code s
  | exitSection code => exact exitSection_pids code s
  | waitpid target => exact absurd rfl (notWait target)
  | kill pid sig =>
      simp only [step, Procs.kill]
      split
      · rfl
      · split
        · rfl
        · split
          · apply edit_pids
            intro p
            rfl
          · rfl
  | tick =>
      simp only [step, pids, tick_table]
      exact editFirst_map _ dispatched_pid _
  | forceSchedule => simp only [step, pids, forceSchedule, schedule_table]

theorem step_length_kept {s : Procs} {op : Op} (notFork : op ≠ .fork)
    (notWait : ∀ target, op ≠ .waitpid target) : (s.step op).table.length = s.table.length := by
  simpa only [pids, List.length_map] using congrArg List.length (step_pids_kept notFork notWait)

theorem step_length_le {s : Procs} {op : Op} (notFork : op ≠ .fork) :
    (s.step op).table.length ≤ s.table.length := by
  by_cases isWait : ∃ target, op = .waitpid target
  · obtain ⟨target, rfl⟩ := isWait
    simp only [step, waitpid]
    split
    · split
      · exact List.length_eraseIdx_le s.table _
      · exact Nat.le_refl _
    · exact Nat.le_refl _
  · exact Nat.le_of_eq (step_length_kept notFork (fun target same => isWait ⟨target, same⟩))

/-- After a step other than `fork` every index is that of a survivor. -/
theorem exists_survivor {s : Procs} {op : Op} {j : Nat} (notFork : op ≠ .fork)
    (inside : j < (s.step op).table.length) :
    ∃ i, i < s.table.length ∧ s.survivor op i = some j := by
  by_cases isWait : ∃ target, op = .waitpid target
  · obtain ⟨target, rfl⟩ := isWait
    cases taken : s.zombieChild target with
    | none =>
        simp only [step, waitpid_of_no_zombieChild taken] at inside
        exact ⟨j, inside, by simp only [survivor, taken]⟩
    | some entry =>
        obtain ⟨z, idx⟩ := entry
        have reaped := (List.getElem?_eq_some_iff.mp (zombieChild_spec taken).1).1
        simp only [step, waitpid_of_zombieChild taken, List.length_eraseIdx, if_pos reaped]
          at inside
        by_cases below : j < idx
        · exact ⟨j, by omega, by simp only [survivor, taken, if_pos below]⟩
        · have notBelow : ¬j + 1 < idx := by omega
          have notHere : j + 1 ≠ idx := by omega
          exact ⟨j + 1, by omega, by simp [survivor, taken, notBelow, notHere]⟩
  · have length : (s.step op).table.length = s.table.length :=
      step_length_kept notFork (fun target same => isWait ⟨target, same⟩)
    refine ⟨j, length ▸ inside, ?_⟩
    cases op with
    | waitpid target => exact absurd ⟨target, rfl⟩ isWait
    | _ => rfl

/-- Every entry after a step was there before it, or is the child of a `fork`. -/
theorem step_entry_back {s : Procs} {op : Op} {j : Nat} {q : Process}
    (present : (s.step op).table[j]? = some q) :
    (∃ i p, s.table[i]? = some p ∧ s.survivor op i = some j ∧ Edited s op p q) ∨
      ∃ parent, op = .fork ∧ s.caller = some parent ∧ q = s.child parent := by
  have inside := (List.getElem?_eq_some_iff.mp present).1
  -- An index that survives as `j` is enough: the entry there is then the one of `step_entry`.
  have origin : ∀ i, i < s.table.length → s.survivor op i = some j →
      ∃ i p, s.table[i]? = some p ∧ s.survivor op i = some j ∧ Edited s op p q := by
    intro i below stays
    obtain ⟨q', present', edited⟩ := step_entry (List.getElem?_eq_getElem below) stays
    rw [present, Option.some.injEq] at present'
    exact ⟨i, s.table[i], List.getElem?_eq_getElem below, stays, present' ▸ edited⟩
  by_cases isFork : op = .fork
  · subst isFork
    cases found : s.caller with
    | none =>
        simp only [step, fork_of_no_caller found] at inside
        exact .inl (origin j inside rfl)
    | some parent =>
        by_cases old : j < s.table.length
        · exact .inl (origin j old rfl)
        · simp only [step, fork_of_caller found] at present inside
          rw [List.getElem?_append_right (by omega)] at present
          have last : j - s.table.length = 0 := by
            simp only [List.length_append, List.length_singleton] at inside
            omega
          rw [last] at present
          exact .inr ⟨parent, rfl, rfl, (Option.some.inj present).symm⟩
  · obtain ⟨i, below, stays⟩ := exists_survivor isFork inside
    exact .inl (origin i below stays)

theorem mem_step {s : Procs} (op : Op) {p : Process} (present : p ∈ s.table) :
    (∃ q ∈ (s.step op).table, Edited s op p q) ∨
      ∃ target idx, op = .waitpid target ∧ s.zombieChild target = some (p, idx) := by
  obtain ⟨i, there⟩ := List.mem_iff_getElem?.mp present
  cases stays : s.survivor op i with
  | some j =>
      obtain ⟨q, after, edited⟩ := step_entry there stays
      exact .inl ⟨q, List.mem_of_getElem? after, edited⟩
  | none =>
      cases op with
      | waitpid target =>
          simp only [survivor] at stays
          cases taken : s.zombieChild target with
          | none => simp [taken] at stays
          | some entry =>
              obtain ⟨z, idx⟩ := entry
              simp only [taken] at stays
              split_ifs at stays with below here
              have same := (zombieChild_spec taken).1
              rw [← here, there, Option.some.injEq] at same
              exact .inr ⟨target, idx, rfl, same ▸ taken⟩
      | _ => cases stays

theorem mem_step_back {s : Procs} {op : Op} {q : Process} (present : q ∈ (s.step op).table) :
    (∃ p ∈ s.table, Edited s op p q) ∨
      ∃ parent, op = .fork ∧ s.caller = some parent ∧ q = s.child parent := by
  obtain ⟨j, there⟩ := List.mem_iff_getElem?.mp present
  rcases step_entry_back there with ⟨i, p, before, _, edited⟩ | forked
  · exact .inl ⟨p, List.mem_of_getElem? before, edited⟩
  · exact .inr forked

/-- A step that reaps nothing alive: a live entry is still there afterwards. -/
theorem mem_step_of_live {s : Procs} (op : Op) {p : Process} (present : p ∈ s.table)
    (live : p.state ≠ .zombie) : ∃ q ∈ (s.step op).table, Edited s op p q := by
  rcases mem_step op present with kept | ⟨target, idx, _, taken⟩
  · exact kept
  · exact absurd (zombieChild_spec taken).2.2.1 live

/-- The process the step terminates: the caller, by `exit` or by a fatal signal. -/
def terminates (s : Procs) (op : Op) (p : Process) : Prop :=
  s.caller = some p ∧ (op.exits ≠ none ∨ (op = .tick ∧ terminatingSig p.pendingSignals ≠ none))

theorem Edited.state_eq {s : Procs} {op : Op} {p q : Process} (h : Edited s op p q) :
    q.state = p.state ∨ (q.state = .zombie ∧ s.terminates op p) := by
  cases h with
  | same p stays => exact .inl rfl
  | execve path self => exact .inl rfl
  | signalled pid sig found => exact .inl rfl
  | dispatched self =>
      cases sig : terminatingSig p.pendingSignals with
      | none => exact .inl (by rw [dispatched_of_none sig])
      | some sig' =>
          refine .inr ⟨by rw [dispatched_of_some sig], self, .inr ⟨rfl, ?_⟩⟩
          simp [sig]
  | exited exits self => exact .inr ⟨by simp, self, .inl (by simp [exits])⟩
  | reparented exits => exact .inl (by simp)

theorem Edited.parentPid_eq {s : Procs} {op : Op} {p q : Process} (h : Edited s op p q) :
    q.parentPid = if op.exits ≠ none ∧ p.parentPid = s.currentPid then 1 else p.parentPid := by
  cases h with
  | same p stays => simp [stays]
  | execve path self => rfl
  | signalled pid sig found => rfl
  | dispatched self => simp [Op.exits]
  | exited exits self => simp [exits, Process.reparent, apply_ite Process.parentPid]
  | reparented exits => simp [exits, Process.reparent, apply_ite Process.parentPid]

end ComputeKernel.Procs
