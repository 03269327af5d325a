import ComputeKernel.Process.ExitStatus
import ComputeKernel.Syscall.Failures
import ComputeKernel.Syscall.UserMemory

/-! What the status word of `sys_wait4` says about the death of a child. An exit code and
a fatal signal share one field of the process table, so a parent cannot tell them apart. -/
namespace ComputeKernel
open Checked (Exec Returns)
open Memory (Holds)

/-- The way in which a process has been terminated. -/
inductive Cause where
  | exited (code : Int32)
  | signalled (sig : UInt8)
  deriving DecidableEq, Repr

namespace Procs
open Runs (follow)
open FirstMatch (editFirst getElem?_editFirst)

/-- What the table records as the exit code. -/
def recorded : Cause → Int32
  | .exited code => code
  | .signalled sig => 128 + Int32.ofNat sig.toNat

def callerIndex (s : Procs) : Option Nat := s.table.findIdx? (fun p => p.pid == s.currentPid)

/-- How a step terminates the entry at an index, if it does. -/
def death (s : Procs) (op : Op) (i : Nat) : Option Cause :=
  if s.callerIndex = some i then
    match op with
    | .exit code => some (.exited code)
    | .exitSection code => some (.exited code)
    | .tick => (s.table[i]?.bind (fun p => terminatingSig p.pendingSignals)).map .signalled
    | _ => none
  else none

/-- Where an entry is after a step, with what has terminated it last. -/
def trace (s : Procs) (op : Op) (entry : Nat × Option Cause) : Option (Nat × Option Cause) :=
  (s.survivor op entry.1).map (fun j => (j, (s.death op entry.1).or entry.2))

/-- The entry that is traced is there, dead as it should be. -/
def Traced (s : Procs) (entry : Nat × Option Cause) : Prop :=
  ∃ p, s.table[entry.1]? = some p ∧ ∀ cause, entry.2 = some cause →
    p.state = .zombie ∧ p.exitCode = recorded cause ∧ cause ≠ .signalled 0

variable {s : Procs} {op : Op} {i j : Nat} {p : Process}

theorem terminatingSig_ne_zero {pending : UInt32} {sig : UInt8}
    (fatal : terminatingSig pending = some sig) : sig ≠ 0 := by
  unfold terminatingSig at fatal
  split at fatal
  · cases fatal; decide
  split at fatal
  · cases fatal; decide
  split at fatal
  · cases fatal; decide
  split at fatal
  · cases fatal; decide
  · cases fatal

/-- What a step does to the entry at an index: it is terminated as `death` says, or its
state and exit code stay. -/
def Follows (cause : Option Cause) (p q : Process) : Prop :=
  match cause with
  | some cause => q.state = .zombie ∧ q.exitCode = recorded cause ∧ cause ≠ .signalled 0
  | none => q.state = p.state ∧ q.exitCode = p.exitCode

/-- A step that is no `exit` and no tick terminates nothing. -/
theorem follows_of_quiet (noExit : op.exits = none) (noTick : op ≠ .tick)
    (present : s.table[i]? = some p) (stays : s.survivor op i = some j) :
    ∃ q, (s.step op).table[j]? = some q ∧ Follows (s.death op i) p q := by
  obtain ⟨q, after, edited⟩ := step_entry present stays
  have spared : ¬s.terminates op p := by
    rintro ⟨_, exits | ⟨isTick, _⟩⟩
    · exact exits noExit
    · exact noTick isTick
  have nothing : s.death op i = none := by
    unfold death
    split
    · cases op with
      | exit code => cases noExit
      | exitSection code => cases noExit
      | tick => exact absurd rfl noTick
      | _ => rfl
    · rfl
  rw [nothing]
  refine ⟨q, after, ?_, ?_⟩
  · exact edited.state_eq.resolve_right (fun died => spared died.2)
  · exact edited.exitCode_eq.resolve_right spared

theorem exitSection_follows (code : Int32) (present : s.table[i]? = some p) :
    ∃ q, (s.exitSection code).table[i]? = some q ∧
      Follows (if s.callerIndex = some i then some (.exited code) else none) p q := by
  rw [exitSection_table, List.getElem?_map, getElem?_editFirst, present]
  unfold callerIndex
  split
  · exact ⟨_, rfl, by simp [Follows, recorded]⟩
  · exact ⟨_, rfl, by simp [Follows]⟩

theorem tick_follows (present : s.table[i]? = some p) :
    ∃ q, s.tick.table[i]? = some q ∧ Follows (s.death .tick i) p q := by
  rw [tick_table, getElem?_editFirst]
  unfold death callerIndex
  rw [present]
  split
  · refine ⟨_, rfl, ?_⟩
    cases fatal : terminatingSig p.pendingSignals with
    | some sig =>
        rw [dispatched_of_some fatal]
        simp only [Option.bind_some, fatal, Option.map_some]
        refine ⟨rfl, rfl, ?_⟩
        intro same
        cases same
        exact terminatingSig_ne_zero fatal rfl
    | none =>
        rw [dispatched_of_none fatal]
        simp only [Option.bind_some, fatal, Option.map_none]
        exact ⟨rfl, rfl⟩
  · exact ⟨p, rfl, rfl, rfl⟩

theorem step_follows (op : Op) (present : s.table[i]? = some p) (stays : s.survivor op i = some j) :
    ∃ q, (s.step op).table[j]? = some q ∧ Follows (s.death op i) p q := by
  cases op with
  | exit code =>
      cases stays
      rw [step, exit_table]
      exact exitSection_follows code present
  | exitSection code =>
      cases stays
      exact exitSection_follows code present
  | tick =>
      cases stays
      exact tick_follows present
  | _ => exact follows_of_quiet rfl (by simp) present stays

/-- The entry that is traced dies as the steps say. -/
theorem Traced.step {entry next : Nat × Option Cause} (traced : s.Traced entry)
    (moved : s.trace op entry = some next) : (s.step op).Traced next := by
  obtain ⟨p, present, recorded_⟩ := traced
  obtain ⟨j, stays, rfl⟩ := Option.map_eq_some_iff.mp moved
  obtain ⟨q, after, follows⟩ := step_follows op present stays
  refine ⟨q, after, ?_⟩
  intro cause last
  dsimp only at last
  cases died : s.death op entry.1 with
  | some now =>
      rw [died] at last follows
      cases last
      exact follows
  | none =>
      rw [died] at last follows
      obtain ⟨zombie, code, fatal⟩ := recorded_ cause last
      exact ⟨follows.1.trans zombie, follows.2.trans code, fatal⟩

theorem Traced.run {entry last : Nat × Option Cause} (traced : s.Traced entry) {ops : List Op}
    (there : follow Procs.step trace s ops entry = some last) : (s.run ops).Traced last :=
  Runs.follow_invariant (fun _ _ _ _ traced moved => traced.step moved) traced there

end Procs

namespace Kernel
open Procs (Op trace recorded)
open Runs (follow)

/-- `if pid <= 0 { None } else { Some(pid as u32) }`. -/
def waitTarget (pid : Int32) : Option UInt32 := if pid ≤ 0 then none else some pid.toUInt32

/-- The word that is stored for an exit code. -/
def statusWord (code : Int32) : Int32 := (code &&& 0xff) <<< 8

/-- The word says how the child died: `WIFEXITED` and `WEXITSTATUS`, or `WIFSIGNALED` and
`WTERMSIG`. -/
def Tells (word : Int32) : Cause → Prop
  | .exited code => word.toUInt32.toNat % 128 = 0 ∧
      word.toUInt32.toNat / 256 % 256 = code.toUInt32.toNat % 256
  | .signalled sig => word.toUInt32.toNat % 128 = sig.toNat

theorem statusWord_toNat (code : Int32) :
    (statusWord code).toUInt32.toNat = code.toUInt32.toNat % 256 * 256 := by
  have bits : (statusWord code).toUInt32 = (code.toUInt32 &&& 0xff) <<< 8 := rfl
  have mask : code.toUInt32.toNat &&& 255 = code.toUInt32.toNat % 256 :=
    Nat.and_two_pow_sub_one_eq_mod code.toUInt32.toNat 8
  rw [bits, UInt32.toNat_shiftLeft, UInt32.toNat_and]
  change (code.toUInt32.toNat &&& 255) <<< 8 % 2 ^ 32 = _
  rw [mask, Nat.shiftLeft_eq]
  omega

/-- The word tells an exit, and never a signal. -/
theorem tells_iff {cause : Cause} (fatal : cause ≠ .signalled 0) :
    Tells (statusWord (recorded cause)) cause ↔ ∃ code, cause = .exited code := by
  have value := statusWord_toNat (recorded cause)
  cases cause with
  | exited code =>
      refine iff_of_true ?_ ⟨code, rfl⟩
      unfold Tells
      rw [value]
      change _ ∧ code.toUInt32.toNat % 256 * 256 / 256 % 256 = _
      omega
  | signalled sig =>
      have nonzero : sig.toNat ≠ 0 := by
        intro zero
        apply fatal
        rw [show sig = 0 from UInt8.toNat_inj.mp zero]
      apply iff_of_false
      · intro tells
        unfold Tells at tells
        omega
      · rintro ⟨code, same⟩
        cases same

variable {k k' : Kernel} {status : UInt64} {result : Int}

/-- What `sys_wait4` has done when it returns the PID of a child. -/
theorem sysWait4_returns (pid : Int32) (nonnull : status ≠ 0) :
    Returns (sysWait4 pid status) (fun _ k' => ∃ last, Meanwhile k last ∧
      k'.arrivals = last.arrivals ∧ ∀ child code,
        (last.procs.waitpid (waitTarget pid)).1 = .ok (some (child, code)) →
          Holds k'.memory status (wordBytes (statusWord code))) k := by
  refine Returns.bind (Returns.get ?_)
  refine Returns.andThen (waitpid_returns (waitTarget pid) _) ?_
  rintro outcome _ ⟨last, passed, rfl, reported⟩
  cases outcome with
  | error message =>
      refine Returns.ret ⟨last, passed, rfl, ?_⟩
      intro child code reaped
      rw [reported] at reaped
      cases reaped
  | ok reaped =>
      obtain ⟨child, code⟩ := reaped
      refine Returns.bind ?_
      unfold writeStatus
      rw [if_neg nonnull]
      refine Returns.ite (fun _ => ?_) (fun _ => Returns.fault status)
      refine Returns.mono (writeBytes_returns _ status) ?_
      rintro _ _ rfl
      refine Returns.ret ⟨last, passed, rfl, ?_⟩
      intro child' code' same
      rw [reported] at same
      cases same
      exact Memory.holds_store (show 4 < 2 ^ 64 by decide)

/-- Take any entry of the table, follow it to the call of `sys_wait4` that reaps it, and
note what terminated it last. The word that is stored says so if and only if that was an
exit. -/
theorem wait_status_tells_iff {before ops : List Op} {i j : Nat} {cause : Cause} {pid : Int32}
    {batches : List (List Irq)} (present : i < (Procs.boot.run before).table.length)
    (called : k.procs = Procs.boot.run (before ++ ops)) (nonnull : status ≠ 0)
    (returned : sysWait4 pid status k = .done result k') (arrived : k.arrivals = batches ++ k'.arrivals)
    (died : follow Procs.step trace (Procs.boot.run before) (ops ++ ticks batches) (i, none) =
      some (j, some cause))
    (reaped : (k.procs.run (ticks batches)).survivor (.waitpid (waitTarget pid)) j = none) :
    ∃ word, Holds k'.memory status (wordBytes word) ∧
      (Tells word cause ↔ ∃ code, cause = .exited code) := by
  obtain ⟨last, passed, left, stored⟩ := sysWait4_returns pid nonnull result k' returned
  have there : last.procs = k.procs.run (ticks batches) := by
    obtain ⟨batches', arrived', ran⟩ := passed.procs
    rw [arrived, left, List.append_cancel_right_eq] at arrived'
    rw [ran, arrived']
  have traced : (Procs.boot.run before).Traced (i, none) := ⟨_, List.getElem?_eq_getElem present, nofun⟩
  obtain ⟨p, found, deadBy⟩ := traced.run died
  obtain ⟨zombie, code, fatal⟩ := deadBy cause rfl
  have state : (Procs.boot.run before).run (ops ++ ticks batches) = last.procs := by
    rw [there, called]
    unfold Procs.run
    rw [Runs.run_append, Runs.run_append]
  rw [state] at found
  rw [← there] at reaped
  have dead : Procs.DeadAt p.pid (recorded cause) last.procs j := ⟨p, found, rfl, zombie, code⟩
  exact ⟨_, stored _ _ (Procs.waitpid_of_deadAt dead reaped), tells_iff fatal⟩

/-- A kernel in which some steps have been taken. -/
def waiting (ops : List Op) : Kernel := { booted with procs := Procs.boot.run ops }

theorem wait_status_tells_exit :
    ∃ k' word, sysWait4 1 64 (waiting [.forceSchedule, .exit 7]) = .done 1 k' ∧
      Holds k'.memory 64 (wordBytes word) ∧ Tells word (.exited 7) := by
  have returned : sysWait4 1 64 (waiting [.forceSchedule, .exit 7]) = .done 1 _ := rfl
  have present : 1 < (Procs.boot.run []).table.length := by decide
  have died : follow Procs.step trace (Procs.boot.run []) ([.forceSchedule, .exit 7] ++ ticks []) (1, none) =
      some (1, some (.exited 7)) := rfl
  obtain ⟨word, held, tells⟩ :=
    wait_status_tells_iff present rfl (by decide) returned (List.nil_append _).symm died rfl
  exact ⟨_, word, returned, held, tells.mpr ⟨7, rfl⟩⟩

theorem holds_four {memory : UInt64 → Option UInt8} {a b c d : UInt8} (first : memory 64 = some a)
    (second : memory 65 = some b) (third : memory 66 = some c) (fourth : memory 67 = some d) :
    Holds memory 64 [a, b, c, d] := by
  apply Memory.holds_cons.mpr
  refine ⟨first, Memory.holds_cons.mpr ⟨second, Memory.holds_cons.mpr ⟨third, ?_⟩⟩⟩
  exact Memory.holds_cons.mpr ⟨fourth, nofun⟩

/-- A process that is killed leaves the same word as one that exits with code 137. -/
theorem killed_looks_like_exit :
    ∃ killed exited k₁ k₂ word,
      follow Procs.step trace Procs.boot killed (1, none) = some (1, some (.signalled 9)) ∧
      sysWait4 1 64 (waiting killed) = .done 1 k₁ ∧ Holds k₁.memory 64 (wordBytes word) ∧
      ¬Tells word (.signalled 9) ∧
      follow Procs.step trace Procs.boot exited (1, none) = some (1, some (.exited 137)) ∧
      sysWait4 1 64 (waiting exited) = .done 1 k₂ ∧ Holds k₂.memory 64 (wordBytes word) := by
  refine ⟨[.forceSchedule, .kill 1 9, .tick, .forceSchedule], [.forceSchedule, .exit 137], _, _,
    statusWord 137, rfl, rfl, holds_four rfl rfl rfl rfl, ?_, rfl, rfl, holds_four rfl rfl rfl rfl⟩
  change ¬(statusWord 137).toUInt32.toNat % 128 = 9
  decide

end Kernel
end ComputeKernel
