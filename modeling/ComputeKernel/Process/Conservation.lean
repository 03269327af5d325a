import Mathlib.Data.List.InsertIdx
import Mathlib.Data.List.Perm.Basic
import Mathlib.Data.List.Nodup
import ComputeKernel.Process.Steps

/-! Conservation of processes. The PIDs in the table and the PIDs returned by
`waitpid` are together the PIDs of `process::init` and of all successful forks,
which are the values of one counter. The counter is a wrapping 32-bit number, so
the PIDs are distinct only until it comes round to the PID of the idle process. -/
namespace ComputeKernel.Procs

/-- The PID a step returns when it is a successful `fork`. -/
def forkedPid (s : Procs) : Op → Option UInt32
  | .fork => s.fork.1.toOption
  | _ => none

/-- The PID and exit code a step returns when it is a successful `waitpid`. -/
def reapedChild (s : Procs) : Op → Option (UInt32 × Int32)
  | .waitpid target => (s.waitpid target).1.toOption.join
  | _ => none

def forked (ops : List Op) : List UInt32 := Runs.outputs step forkedPid boot ops

def reaped (ops : List Op) : List UInt32 :=
  (Runs.outputs step reapedChild boot ops).map Prod.fst

theorem run_concat (s : Procs) (ops : List Op) (op : Op) :
    run s (ops ++ [op]) = (run s ops).step op := Runs.run_append step s ops [op]

theorem forked_concat (ops : List Op) (op : Op) :
    forked (ops ++ [op]) = forked ops ++ ((run boot ops).forkedPid op).toList :=
  Runs.outputs_concat _ _ _ _ _

theorem reaped_concat (ops : List Op) (op : Op) :
    reaped (ops ++ [op]) = reaped ops ++ (((run boot ops).reapedChild op).map Prod.fst).toList := by
  simp only [reaped, Runs.outputs_concat, List.map_append]
  change _ ++ List.map Prod.fst ((run boot ops).reapedChild op).toList = _
  cases (run boot ops).reapedChild op with
  | none => rfl
  | some child => rfl

theorem forkedPid_of_caller {s : Procs} {parent : Process} (h : s.caller = some parent) :
    s.forkedPid .fork = some s.nextPid := by
  simp only [forkedPid, fork_of_caller h, Except.toOption]

theorem forkedPid_of_no_caller {s : Procs} (h : s.caller = none) : s.forkedPid .fork = none := by
  simp only [forkedPid, fork_of_no_caller h, Except.toOption]

theorem forkedPid_eq_some {s : Procs} {op : Op} {pid : UInt32} (h : s.forkedPid op = some pid) :
    op = .fork ∧ s.fork.1 = .ok pid := by
  cases op with
  | fork =>
      refine ⟨rfl, ?_⟩
      cases found : s.caller with
      | none => simp [forkedPid_of_no_caller found] at h
      | some parent =>
          rw [forkedPid_of_caller found, Option.some.injEq] at h
          rw [fork_of_caller found, h]
  | _ => cases h

theorem forkedPid_of_ok {s : Procs} {pid : UInt32} (success : s.fork.1 = .ok pid) :
    s.forkedPid .fork = some pid := by
  simp only [forkedPid, success, Except.toOption]

theorem fork_ok_nextPid {s : Procs} {pid : UInt32} (success : s.fork.1 = .ok pid) :
    pid = s.nextPid := by
  cases found : s.caller with
  | none =>
      rw [fork_of_no_caller found] at success
      cases success
  | some parent =>
      rw [fork_of_caller found] at success
      cases success
      rfl

theorem reapedChild_of_zombieChild {s : Procs} {target : Option UInt32} {p : Process} {idx : Nat}
    (h : s.zombieChild target = some (p, idx)) :
    s.reapedChild (.waitpid target) = some (p.pid, p.exitCode) := by
  simp only [reapedChild, waitpid_of_zombieChild h, Except.toOption, Option.join_some]

theorem reapedChild_of_no_zombieChild {s : Procs} {target : Option UInt32}
    (h : s.zombieChild target = none) : s.reapedChild (.waitpid target) = none := by
  simp only [reapedChild, waitpid, h]
  split <;> rfl

/-- What a step does to the PIDs in the table, and what it returns. -/
inductive PidChange (s : Procs) (op : Op) : Prop where
  | kept (pids : (s.step op).pids = s.pids) (forked : s.forkedPid op = none)
      (reaped : s.reapedChild op = none)
  | joined (pids : (s.step op).pids = s.pids ++ [s.nextPid])
      (forked : s.forkedPid op = some s.nextPid) (reaped : s.reapedChild op = none)
  | left (p : Process) (idx : Nat) (there : s.table[idx]? = some p)
      (pids : (s.step op).pids = s.pids.eraseIdx idx) (forked : s.forkedPid op = none)
      (reaped : s.reapedChild op = some (p.pid, p.exitCode))

theorem step_pidChange (s : Procs) (op : Op) : PidChange s op := by
  have unchanged (notFork : op ≠ .fork) (notWait : ∀ target, op ≠ .waitpid target) :=
    step_pids_kept (s := s) notFork notWait
  cases op with
  | fork =>
      cases found : s.caller with
      | none =>
          refine .kept ?_ (forkedPid_of_no_caller found) rfl
          simp only [step, fork_of_no_caller found]
      | some parent =>
          refine .joined ?_ (forkedPid_of_caller found) rfl
          simp [step, fork_of_caller found, pids, child]
  | waitpid target =>
      cases taken : s.zombieChild target with
      | none =>
          refine .kept ?_ rfl (reapedChild_of_no_zombieChild taken)
          simp only [step, waitpid_of_no_zombieChild taken]
      | some entry =>
          obtain ⟨p, idx⟩ := entry
          refine .left p idx (zombieChild_spec taken).1 ?_ rfl (reapedChild_of_zombieChild taken)
          simp only [step, waitpid_of_zombieChild taken, pids, List.eraseIdx_map]
  | _ => exact .kept (unchanged (by simp) (by simp)) rfl rfl

/-- One step moves PIDs between the table and its own return value, and a `fork`
adds the PID it returns. -/
theorem step_ledger (s : Procs) (op : Op) :
    ((s.step op).pids ++ ((s.reapedChild op).map Prod.fst).toList).Perm
      (s.pids ++ (s.forkedPid op).toList) := by
  cases step_pidChange s op with
  | kept same forked reaped =>
      rw [same, forked, reaped]
      exact List.Perm.refl _
  | joined grown forked reaped =>
      rw [grown, forked, reaped]
      simp
  | left p idx there shrunk forked reaped =>
      obtain ⟨inside, here⟩ := List.getElem?_eq_some_iff.mp there
      have moved := (List.getElem_cons_eraseIdx_perm inside).map Process.pid
      rw [here, List.map_cons, ← List.eraseIdx_map] at moved
      rw [shrunk, forked, reaped, Option.toList_none, List.append_nil]
      exact (List.perm_append_singleton _ _).trans moved

theorem step_pids_nodup {s : Procs} {op : Op} (unique : s.pids.Nodup)
    (fresh : ∀ pid ∈ s.forkedPid op, pid ∉ s.pids) : (s.step op).pids.Nodup := by
  have before : (s.pids ++ (s.forkedPid op).toList).Nodup := by
    cases returned : s.forkedPid op with
    | none => simpa using unique
    | some pid =>
        refine List.nodup_append'.mpr ⟨unique, by simp, ?_⟩
        simpa using fresh pid returned
  exact (List.nodup_append'.mp ((step_ledger s op).nodup_iff.mpr before)).1

/-- Nothing is lost or duplicated, whatever the counter does. -/
theorem ledger (ops : List Op) :
    ((run boot ops).pids ++ reaped ops).Perm (0 :: 1 :: forked ops) := by
  induction ops using List.reverseRecOn with
  | nil => exact List.Perm.refl _
  | append_singleton ops op ih =>
      rw [run_concat, reaped_concat, forked_concat]
      have one := step_ledger (run boot ops) op
      have swap : (((run boot ops).step op).pids ++ (reaped ops ++
          (((run boot ops).reapedChild op).map Prod.fst).toList)).Perm
          ((((run boot ops).step op).pids ++
            (((run boot ops).reapedChild op).map Prod.fst).toList) ++ reaped ops) := by
        rw [List.append_assoc]
        exact List.perm_append_comm.append_left _
      have back : ((run boot ops).pids ++ ((run boot ops).forkedPid op).toList ++ reaped ops).Perm
          ((run boot ops).pids ++ reaped ops ++ ((run boot ops).forkedPid op).toList) := by
        rw [List.append_assoc, List.append_assoc]
        exact List.perm_append_comm.append_left _
      exact swap.trans ((one.append_right _).trans (back.trans (ih.append_right _)))

theorem step_nextPid (s : Procs) (op : Op) :
    (s.step op).nextPid = s.nextPid + UInt32.ofNat (s.forkedPid op).toList.length := by
  cases op with
  | fork =>
      cases found : s.caller with
      | none => simp [step, fork_of_no_caller found, forkedPid_of_no_caller found]
      | some parent => simp [step, fork_of_caller found, forkedPid_of_caller found]
  | execve path =>
      simp only [step, Procs.execve, forkedPid]
      split <;> simp
  | exit code => simp [step, Procs.exit, forceSchedule, exitSection, forkedPid]
  | exitSection code => simp [step, Procs.exitSection, forkedPid]
  | waitpid target =>
      simp only [step, forkedPid]
      cases taken : s.zombieChild target with
      | none => simp [waitpid_of_no_zombieChild taken]
      | some entry => simp [waitpid_of_zombieChild taken]
  | kill pid sig =>
      simp only [step, Procs.kill, forkedPid]
      split
      · simp
      · split
        · simp
        · split <;> simp
  | tick => simp [step, forkedPid]
  | forceSchedule => simp [step, forceSchedule, forkedPid]

/-- The PIDs ever used are the values of the counter from 0 on, wrapped. -/
theorem forked_counter (ops : List Op) :
    0 :: 1 :: forked ops = (List.range ((forked ops).length + 2)).map UInt32.ofNat ∧
      (run boot ops).nextPid = UInt32.ofNat ((forked ops).length + 2) := by
  induction ops using List.reverseRecOn with
  | nil => exact ⟨rfl, rfl⟩
  | append_singleton ops op ih =>
      obtain ⟨values, counter⟩ := ih
      rw [forked_concat, run_concat, step_nextPid, counter]
      cases returned : (run boot ops).forkedPid op with
      | none => simpa using values
      | some pid =>
          have isNext : pid = UInt32.ofNat ((forked ops).length + 2) := by
            rw [← counter]
            exact fork_ok_nextPid (forkedPid_eq_some returned).2
          constructor
          · rw [← List.cons_append, ← List.cons_append, values, isNext]
            simp [List.range_succ]
          · simp only [Option.toList_some, List.length_append, List.length_singleton]
            rw [Nat.add_right_comm]
            exact (UInt32.ofNat_add _ 1).symm

theorem ofNat_inj_of_lt {a b : Nat} (ha : a < 2 ^ 32) (hb : b < 2 ^ 32)
    (same : UInt32.ofNat a = UInt32.ofNat b) : a = b := by
  have values := congrArg UInt32.toNat same
  rwa [UInt32.toNat_ofNat', UInt32.toNat_ofNat', Nat.mod_eq_of_lt ha, Nat.mod_eq_of_lt hb]
    at values

/-- Until the counter comes round, all PIDs ever used are distinct. -/
theorem forked_nodup {ops : List Op} (few : (forked ops).length < 2 ^ 32 - 1) :
    (0 :: 1 :: forked ops).Nodup := by
  rw [(forked_counter ops).1]
  refine List.Nodup.map_on ?_ List.nodup_range
  intro a ha b hb same
  rw [List.mem_range] at ha hb
  exact ofNat_inj_of_lt (by omega) (by omega) same

theorem forked_length_le (ops : List Op) : (forked ops).length ≤ ops.count .fork := by
  induction ops using List.reverseRecOn with
  | nil => exact Nat.le_refl 0
  | append_singleton ops op ih =>
      rw [forked_concat, List.length_append, List.count_append]
      apply Nat.add_le_add ih
      cases op with
      | fork => cases (run boot ops).forkedPid .fork <;> simp
      | _ => exact Nat.zero_le _

/-- The account of a run: `forked` are the PIDs returned by `fork`, `reaped` those
returned by `waitpid`. -/
structure Conserved (ops : List Op) : Prop where
  fresh : (0 :: 1 :: forked ops).Nodup
  tableOnce : (run boot ops).pids.Nodup
  reapedOnce : (reaped ops).Nodup
  disjoint : (run boot ops).pids.Disjoint (reaped ops)
  union : ∀ pid, pid ∈ 0 :: 1 :: forked ops ↔ pid ∈ (run boot ops).pids ∨ pid ∈ reaped ops

theorem conserved_of_fresh {ops : List Op} (fresh : (0 :: 1 :: forked ops).Nodup) :
    Conserved ops := by
  have account := ledger ops
  obtain ⟨tableOnce, reapedOnce, disjoint⟩ :=
    List.nodup_append'.mp (account.nodup_iff.mpr fresh)
  refine ⟨fresh, tableOnce, reapedOnce, disjoint, ?_⟩
  intro pid
  rw [← account.mem_iff, List.mem_append]

/-- What a successful `waitpid` returns was a zombie child of the caller. -/
theorem reaped_was_zombie_child {s : Procs} {target : Option UInt32} {pid : UInt32} {code : Int32}
    (returned : (s.waitpid target).1 = .ok (some (pid, code))) :
    ∃ p ∈ s.table, p.pid = pid ∧ p.exitCode = code ∧ p.state = .zombie ∧
      p.parentPid = s.currentPid := by
  cases taken : s.zombieChild target with
  | none =>
      simp only [waitpid, taken] at returned
      split at returned <;> cases returned
  | some entry =>
      obtain ⟨p, idx⟩ := entry
      obtain ⟨there, parent, zombie, _⟩ := zombieChild_spec taken
      rw [waitpid_of_zombieChild taken] at returned
      cases returned
      exact ⟨p, List.mem_of_getElem? there, rfl, rfl, zombie, parent⟩

theorem forked_initial {before ops : List Op} (reached : before <+: ops) :
    forked before <+: forked ops := by
  obtain ⟨after, rfl⟩ := reached
  rw [forked, forked, Runs.outputs_append]
  exact List.prefix_append _ _

/-- At every moment of a run with fewer than 2^32 - 2 forks the account balances,
and every `waitpid` that succeeds reaps a zombie child of its caller. -/
theorem processes_conserved (ops : List Op) (few : ops.count .fork < 2 ^ 32 - 2)
    {before : List Op} (reached : before <+: ops) :
    Conserved before ∧
      ∀ target pid code, before ++ [.waitpid target] <+: ops →
        ((run boot before).waitpid target).1 = .ok (some (pid, code)) →
        ∃ p ∈ (run boot before).table, p.pid = pid ∧ p.state = .zombie ∧
          p.parentPid = (run boot before).currentPid := by
  have bound := forked_length_le ops
  have earlier := (forked_initial reached).length_le
  refine ⟨conserved_of_fresh (forked_nodup (by omega)), ?_⟩
  intro target pid code _ returned
  obtain ⟨p, there, samePid, _, zombie, parent⟩ := reaped_was_zombie_child returned
  exact ⟨p, there, samePid, zombie, parent⟩

/-- Two forks, one exit and one `waitpid`. -/
theorem processes_conserved_after_wait :
    Conserved [.fork, .forceSchedule, .forceSchedule, .fork, .exit 3, .forceSchedule,
      .waitpid (some 2)] :=
  (processes_conserved [.fork, .forceSchedule, .forceSchedule, .fork, .exit 3, .forceSchedule,
    .waitpid (some 2)] (by decide) (List.prefix_refl _)).1

/-- PIDs are unique at every moment of the run, and every successful `fork`
returns a PID that is neither 0 nor in the table. -/
def PidLaw (ops : List Op) : Prop :=
  ∀ before, before <+: ops → (run boot before).pids.Nodup ∧
    ∀ pid, before ++ [.fork] <+: ops → (run boot before).fork.1 = .ok pid →
      pid ≠ 0 ∧ pid ∉ (run boot before).pids

/-- The number of forks whose caller is in the table. -/
def foundForks : Procs → List Op → Nat
  | _, [] => 0
  | s, op :: ops => (if op = .fork ∧ s.caller.isSome then 1 else 0) + foundForks (s.step op) ops

theorem outputs_forkedPid_length (s : Procs) (ops : List Op) :
    (Runs.outputs step forkedPid s ops).length = foundForks s ops := by
  induction ops generalizing s with
  | nil => rfl
  | cons op ops ih =>
      simp only [Runs.outputs, foundForks, List.length_append, ih]
      congr 1
      cases op with
      | fork =>
          cases found : s.caller with
          | none => simp [forkedPid_of_no_caller found]
          | some parent => simp [forkedPid_of_caller found]
      | _ => simp [forkedPid]

/-- A `fork` returns a PID that was never used, as long as the counter has not wrapped. -/
theorem fork_unused {before : List Op} {pid : UInt32}
    (few : (forked (before ++ [.fork])).length < 2 ^ 32 - 1)
    (success : (run boot before).fork.1 = .ok pid) : pid ∉ 0 :: 1 :: forked before := by
  have fresh := forked_nodup few
  rw [forked_concat, forkedPid_of_ok success, Option.toList_some, ← List.cons_append,
    ← List.cons_append] at fresh
  have apart := (List.nodup_append'.mp fresh).2.2
  exact fun used => apart used (List.mem_singleton_self pid)

/-- The fork that follows 2^32 - 2 successful ones returns 0. -/
theorem fork_wraps {before : List Op} {pid : UInt32} (count : (forked before).length = 2 ^ 32 - 2)
    (success : (run boot before).fork.1 = .ok pid) : pid = 0 := by
  rw [fork_ok_nextPid success, (forked_counter before).2, count]
  rfl

/-- The PIDs are unique exactly until the counter wraps: the fork number 2^32 - 1
returns 0, the PID of the idle process. -/
theorem pidLaw_iff_few_forks (ops : List Op) : PidLaw ops ↔ foundForks boot ops < 2 ^ 32 - 1 := by
  rw [← outputs_forkedPid_length]
  change _ ↔ (forked ops).length < 2 ^ 32 - 1
  constructor
  · intro law
    by_contra many
    have inside : 2 ^ 32 - 2 < (forked ops).length := by omega
    obtain ⟨before, op, reached, count, returned⟩ :=
      Runs.exists_step_of_output (List.getElem?_eq_getElem inside)
    obtain ⟨rfl, success⟩ := forkedPid_eq_some returned
    have early := (List.prefix_append before [.fork]).trans reached
    exact ((law before early).2 _ reached success).1 (fork_wraps count success)
  · intro few before reached
    have earlier := (forked_initial reached).length_le
    have fewBefore : (forked before).length < 2 ^ 32 - 1 := by omega
    have conserved := conserved_of_fresh (forked_nodup fewBefore)
    refine ⟨conserved.tableOnce, ?_⟩
    intro pid next success
    have later := (forked_initial next).length_le
    have unused := fork_unused (by omega) success
    refine ⟨fun isZero => unused (by simp [isZero]), fun inTable => unused ?_⟩
    exact (conserved.union pid).mpr (.inl inTable)

/-- The idle process forks a child, which exits at once and is reaped. -/
def forkWaitCycle : List Op := [.fork, .forceSchedule, .forceSchedule, .exit 0, .waitpid none]

def cycles : Nat → List Op
  | 0 => []
  | n + 1 => cycles n ++ forkWaitCycle

def cycleChild (next : UInt32) (state : ProcessState) : Process :=
  { pid := next
    parentPid := 0
    name := "idle"
    state := state
    priority := .idle
    kernelRsp := 0
    exitCode := 0
    pendingSignals := 0 }

/-- The subsystem in the middle of a cycle, with the child in a given state. -/
def withChild (next : UInt32) (state : ProcessState) (current : UInt32) : Procs :=
  { table := boot.table ++ [cycleChild next state]
    nextPid := next + 1
    tickCount := 0
    currentPid := current }

theorem fork_boot (next : UInt32) :
    step { boot with nextPid := next } .fork = withChild next .ready 0 := rfl

theorem schedule_init (next : UInt32) :
    step (withChild next .ready 0) .forceSchedule = withChild next .ready 1 := rfl

theorem schedule_child (next : UInt32) :
    step (withChild next .ready 1) .forceSchedule = withChild next .ready next := rfl

theorem exit_child {next : UInt32} (notIdle : next ≠ 0) (notInit : next ≠ 1) :
    step (withChild next .ready next) (.exit 0) = withChild next .zombie 0 := by
  have h0 : (0 == next) = false := by simpa using notIdle.symm
  have h1 : (1 == next) = false := by simpa using notInit.symm
  have marked : (withChild next .ready next).exitSection 0 = withChild next .zombie next := by
    simp [exitSection, edit, FirstMatch.editFirst, withChild, cycleChild, boot, init, powerOn,
      schedulerInit, Process.new, List.findIdx?_cons, h0, h1, Process.reparent]
  have start : (withChild next .zombie next).scanStart = 2 := by
    simp [scanStart, withChild, cycleChild, boot, init, powerOn, schedulerInit, Process.new,
      List.findIdx?_cons, h0, h1]
  have selected : scan (withChild next .zombie next).table 2 = some 0 := by
    simp [scan, withChild, cycleChild, boot, init, powerOn, schedulerInit, Process.new,
      Process.runnable, List.range'_succ]
  have nonempty : (withChild next .zombie next).table.length ≠ 0 := by simp [withChild]
  rw [step, Procs.exit, marked, forceSchedule, schedule, if_neg nonempty, start, selected]
  rfl

theorem reap_child (next : UInt32) :
    step (withChild next .zombie 0) (.waitpid none) = { boot with nextPid := next + 1 } := rfl

/-- A cycle leaves nothing behind but the advanced counter. -/
theorem run_forkWaitCycle {next : UInt32} (notIdle : next ≠ 0) (notInit : next ≠ 1) :
    run { boot with nextPid := next } forkWaitCycle = { boot with nextPid := next + 1 } := by
  simp only [run, forkWaitCycle, Runs.run_cons, Runs.run_nil]
  rw [fork_boot, schedule_init, schedule_child, exit_child notIdle notInit, reap_child]

theorem run_cycles {n : Nat} (few : n ≤ 2 ^ 32 - 2) :
    run boot (cycles n) = { boot with nextPid := UInt32.ofNat (n + 2) } := by
  induction n with
  | zero => rfl
  | succ n ih =>
      have notIdle : UInt32.ofNat (n + 2) ≠ 0 := fun same =>
        absurd (ofNat_inj_of_lt (a := n + 2) (b := 0) (by omega) (by omega) same) (by omega)
      have notInit : UInt32.ofNat (n + 2) ≠ 1 := fun same =>
        absurd (ofNat_inj_of_lt (a := n + 2) (b := 1) (by omega) (by omega) same) (by omega)
      rw [cycles, run, Runs.run_append]
      change run (run boot (cycles n)) forkWaitCycle = _
      rw [ih (by omega), run_forkWaitCycle notIdle notInit, Nat.add_right_comm,
        UInt32.ofNat_add (n + 2) 1]
      rfl

/-- Each cycle uses up one PID and leaves two entries in the table. After 2^32 - 2
of them the counter is 0 again and `fork` returns the PID of the idle process. -/
theorem fork_returns_idle_pid : ¬PidLaw (cycles (2 ^ 32 - 2) ++ [.fork]) := by
  generalize amount : 2 ^ 32 - 2 = n
  intro law
  have success : (run boot (cycles n)).fork.1 = .ok 0 := by
    rw [run_cycles (by omega), ← amount]
    rfl
  exact ((law (cycles n) (List.prefix_append _ _)).2 0 (List.prefix_refl _) success).1 rfl

end ComputeKernel.Procs
