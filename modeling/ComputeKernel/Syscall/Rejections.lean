import ComputeKernel.Syscall.Failures

/-! What the calls reject: signals that do not exist, and descriptors that are not open.
The signal of `kill` is cut to a byte before it is checked, and `close` takes every
negative descriptor for a standard one. -/
namespace ComputeKernel
open Checked (Exec Finishes)

namespace Procs

/-- A signal is pending at the first process of a PID, and nothing else has changed. -/
def Signalled (pid : UInt32) (sig : Nat) (s s' : Procs) : Prop :=
  ∃ before p after pending, s.table = before ++ p :: after ∧ (∀ q ∈ before, q.pid ≠ pid) ∧
    p.pid = pid ∧
    (∀ bit, pending.toNat.testBit bit = (p.pendingSignals.toNat.testBit bit || bit == sig)) ∧
    s' = { s with table := before ++ { p with pendingSignals := pending } :: after }

/-- What a call of `kill` is to return and to leave, for a signal that is any number. -/
inductive KillSpec (pid : UInt32) (sig : Int) (s : Procs) : Int → Procs → Prop
  | rejected {errno} (why : sig < 0 ∨ 31 < sig ∨ pid ∉ s.pids) (negative : errno < 0) :
      KillSpec pid sig s errno s
  | probed (probe : sig = 0) (present : pid ∈ s.pids) : KillSpec pid sig s 0 s
  | sent {s'} (positive : 0 < sig) (real : sig ≤ 31) (signalled : Signalled pid sig.toNat s s') :
      KillSpec pid sig s 0 s'

variable {s : Procs} {pid : UInt32}

theorem testBit_or_shift (mask : UInt32) {sig : UInt8} (real : sig.toNat ≤ 31) (bit : Nat) :
    (mask ||| 1 <<< sig.toUInt32).toNat.testBit bit =
      (mask.toNat.testBit bit || bit == sig.toNat) := by
  have shifted : (1 <<< sig.toUInt32 : UInt32).toNat = 2 ^ sig.toNat := by
    have small : 2 ^ sig.toNat < 2 ^ 32 := Nat.pow_lt_pow_right (by decide) (by omega)
    rw [UInt32.toNat_shiftLeft, UInt8.toNat_toUInt32, Nat.mod_eq_of_lt (by omega : sig.toNat < 32),
      UInt32.toNat_one, Nat.one_shiftLeft, Nat.mod_eq_of_lt small]
  rw [UInt32.toNat_or, shifted, Nat.testBit_or, Nat.testBit_two_pow]
  congr 1
  exact decide_eq_decide.mpr eq_comm

theorem signalled_edit {p : Process} {sig : UInt8} (real : sig.toNat ≤ 31)
    (found : s.table.find? (fun p => p.pid == pid) = some p) :
    Signalled pid sig.toNat s (s.edit pid (fun p =>
      { p with pendingSignals := p.pendingSignals ||| (1 <<< sig.toUInt32) })) := by
  obtain ⟨here, before, after, split, earlier⟩ := List.find?_eq_some_iff_append.mp found
  have missed : ∀ q ∈ before, (q.pid == pid) = false := by simpa using earlier
  refine ⟨before, p, after, _, split, ?_, beq_iff_eq.mp here, testBit_or_shift _ real, ?_⟩
  · exact fun q member => beq_eq_false_iff_ne.mp (missed q member)
  · rw [edit, split, FirstMatch.editFirst_split _ missed here]

theorem Signalled.present {sig : Nat} {s' : Procs} (signalled : Signalled pid sig s s') :
    pid ∈ s.pids := by
  obtain ⟨before, p, after, _, split, _, here, _⟩ := signalled
  rw [pids, split, ← here]
  exact List.mem_map_of_mem (List.mem_append_right before List.mem_cons_self)

/-- What is rejected is what there is a reason to reject. -/
theorem KillSpec.negative_iff {sig result : Int} {s' : Procs} (spec : KillSpec pid sig s result s') :
    result < 0 ↔ sig < 0 ∨ 31 < sig ∨ pid ∉ s.pids := by
  cases spec with
  | rejected why negative => exact iff_of_true negative why
  | probed probe present =>
      refine iff_of_false (by decide) ?_
      rintro (negative | large | absent)
      · omega
      · omega
      · exact absent present
  | sent positive real signalled =>
      refine iff_of_false (by decide) ?_
      rintro (negative | large | absent)
      · omega
      · omega
      · exact absent signalled.present

theorem KillSpec.kept {sig result : Int} {s' : Procs} (spec : KillSpec pid sig s result s')
    (failed : result < 0) : s' = s := by
  cases spec with
  | rejected why negative => rfl
  | probed probe present => rfl
  | sent positive real signalled => exact absurd failed (by decide)

theorem find?_eq_none_iff : s.table.find? (fun p => p.pid == pid) = none ↔ pid ∉ s.pids := by
  simp [pids, List.find?_eq_none]

/-- `0` or the `Errno` that `sys_kill` makes of a failure. -/
def killResult (s : Procs) (pid : UInt32) (sig : UInt8) : Int :=
  match (s.kill pid sig).1 with
  | .ok _ => 0
  | .error _ => Errno.srch.code

/-- With a signal that fits into a byte `kill` does what it is to do. -/
theorem kill_spec (s : Procs) (pid : UInt32) {sig : UInt8} (real : sig.toNat ≤ 31) :
    KillSpec pid sig.toNat s (s.killResult pid sig) (s.kill pid sig).2 := by
  have valid : ¬sig > 31 := by
    rw [gt_iff_lt, UInt8.lt_iff_toNat_lt]
    simpa using real
  unfold killResult kill
  rw [if_neg valid]
  cases found : s.table.find? (fun p => p.pid == pid) with
  | none => exact .rejected (.inr (.inr (find?_eq_none_iff.mp found))) (Errno.code_neg .srch)
  | some p =>
      have present : pid ∈ s.pids := by
        apply Decidable.byContradiction
        intro absent
        rw [find?_eq_none_iff.mpr absent] at found
        cases found
      by_cases probing : sig = 0
      · subst probing
        exact .probed rfl present
      · have positive : 0 < sig.toNat := by
          rw [Nat.pos_iff_ne_zero]
          exact fun zero => probing (UInt8.toNat_inj.mp zero)
        dsimp only
        rw [if_pos (bne_iff_ne.mpr probing)]
        exact .sent (by omega) (by omega) (signalled_edit real found)

/-- With a signal whose low byte is a signal, it does so when the signal is the byte or
there is no such process. -/
theorem kill_spec_iff (s : Procs) (pid : UInt32) {byte : UInt8} (real : byte.toNat ≤ 31) {sig : Int}
    (low : 0 ≤ sig → sig ≤ 31 → (byte.toNat : Int) = sig) :
    KillSpec pid sig s (s.killResult pid byte) (s.kill pid byte).2 ↔
      0 ≤ sig ∧ sig ≤ 31 ∨ pid ∉ s.pids := by
  have done := kill_spec s pid real
  by_cases range : 0 ≤ sig ∧ sig ≤ 31
  · rw [← low range.1 range.2]
    exact iff_of_true done (.inl (by omega))
  · have outside : sig < 0 ∨ 31 < sig ∨ pid ∉ s.pids := by omega
    constructor
    · intro spec
      have failed := spec.negative_iff.mpr outside
      rcases done.negative_iff.mp failed with negative | large | absent
      · omega
      · omega
      · exact .inr absent
    · rintro (inside | absent)
      · exact absurd inside range
      · have failed := done.negative_iff.mpr (.inr (.inr absent))
        rw [done.kept failed]
        exact .rejected outside failed

end Procs

namespace Kernel

variable {k : Kernel}

theorem ticks_pids (s : Procs) (batches : List (List Irq)) :
    (Procs.run s (ticks batches)).pids = s.pids := by
  unfold ticks
  induction batches.flatten.count .timer generalizing s with
  | zero => rfl
  | succ count ih =>
      rw [List.replicate_succ]
      exact (ih (s.step .tick)).trans (Procs.step_pids_kept (by simp) (by simp))

/-- The low byte of a register is all of the signal when that is one. -/
theorem low_byte_of_signal {register : UInt64} (least : 0 ≤ (asI32 register).toInt)
    (most : (asI32 register).toInt ≤ 31) :
    (register.toUInt8.toNat : Int) = (asI32 register).toInt := by
  have value : (asI32 register).toInt = register.toUInt32.toBitVec.toInt := rfl
  rw [BitVec.toInt_eq_toNat_cond, UInt32.toNat_toBitVec, UInt64.toNat_toUInt32] at value
  rw [UInt64.toNat_toUInt8]
  split at value <;> omega

/-- A `SYS_KILL` call is made on the process table that the interrupts before it have left,
and does with it what it is to do. -/
def KillsRight (k : Kernel) (frame : SyscallFrame) : Prop :=
  ∃ result k' batches, dispatch frame k = .done result k' ∧ k.arrivals = batches ++ k'.arrivals ∧
    Procs.KillSpec frame.rdi.toUInt32 (asI32 frame.rsi).toInt
      (Procs.run k.procs (ticks batches)) result k'.procs

theorem dispatch_kill {frame : SyscallFrame} (call : frame.num = Number.kill) :
    dispatch frame = sysKill frame.rdi.toUInt32 frame.rsi.toUInt8 := by
  unfold dispatch
  rw [call]
  rfl

theorem sysKill_of_invalid (pid : UInt32) {sig : UInt8} (invalid : sig > 31) :
    sysKill pid sig k = .done Errno.srch.code k := by
  unfold sysKill kill
  rw [if_pos invalid]
  rfl

theorem sysKill_of_valid (ready : k.keyboard.InRange) (pid : UInt32) {sig : UInt8}
    (valid : ¬sig > 31) :
    ∃ k' batches, sysKill pid sig k = .done (Procs.killResult (Procs.run k.procs (ticks batches)) pid sig) k' ∧
      k.arrivals = batches ++ k'.arrivals ∧
      k'.procs = ((Procs.run k.procs (ticks batches)).kill pid sig).2 := by
  obtain ⟨_, k₁, waited, passed⟩ := pending_finishes ready
  obtain ⟨batches, arrived, ran⟩ := passed.procs
  refine ⟨{ k₁ with procs := (k₁.procs.kill pid sig).2 }, batches, ?_, arrived, by rw [← ran]⟩
  have section_ : onProcs (killSection pid sig) k₁ =
      .done (k₁.procs.kill pid sig).1 { k₁ with procs := (k₁.procs.kill pid sig).2 } :=
    Exec.zoom_of_done _ (Procs.killSection_eq pid valid)
  have killed : kill pid sig k =
      .done (k₁.procs.kill pid sig).1 { k₁ with procs := (k₁.procs.kill pid sig).2 } := by
    unfold kill
    rw [if_neg valid, Exec.bind_of_done waited, section_]
  unfold sysKill Procs.killResult
  rw [Exec.bind_of_done killed, ← ran]
  cases (k₁.procs.kill pid sig).1 with
  | ok _ => rfl
  | error message => rfl

/-- `SYS_KILL` does what it is to do unless the signal is none and its low byte is one, for
a process that there is. -/
theorem kill_right_iff (ready : k.keyboard.InRange) {frame : SyscallFrame}
    (call : frame.num = Number.kill) :
    KillsRight k frame ↔
      (0 ≤ (asI32 frame.rsi).toInt ∧ (asI32 frame.rsi).toInt ≤ 31) ∨
        31 < frame.rsi.toUInt8.toNat ∨ frame.rdi.toUInt32 ∉ k.procs.pids := by
  unfold KillsRight
  rw [dispatch_kill call]
  have threshold : frame.rsi.toUInt8 > 31 ↔ 31 < frame.rsi.toUInt8.toNat := UInt8.lt_iff_toNat_lt
  by_cases invalid : frame.rsi.toUInt8 > 31
  · refine iff_of_true ⟨_, k, [], sysKill_of_invalid _ invalid, rfl, ?_⟩ (.inr (.inl (threshold.mp invalid)))
    refine .rejected ?_ (Errno.code_neg .srch)
    rcases Int.lt_or_le (asI32 frame.rsi).toInt 0 with negative | least
    · exact .inl negative
    · rcases Int.lt_or_le 31 (asI32 frame.rsi).toInt with large | most
      · exact .inr (.inl large)
      · have same := low_byte_of_signal least most
        have big := threshold.mp invalid
        omega
  · obtain ⟨k', batches, ran, arrived, after⟩ := sysKill_of_valid ready frame.rdi.toUInt32 invalid
    have real : frame.rsi.toUInt8.toNat ≤ 31 := Nat.not_lt.mp (mt threshold.mpr invalid)
    have spec := Procs.kill_spec_iff (Procs.run k.procs (ticks batches)) frame.rdi.toUInt32 real
      low_byte_of_signal
    rw [← after, ticks_pids] at spec
    have small : ¬31 < frame.rsi.toUInt8.toNat := Nat.not_lt.mpr real
    constructor
    · rintro ⟨result, k'', batches', ran', arrived', right⟩
      rw [ran] at ran'
      obtain ⟨rfl, rfl⟩ := Checked.Outcome.done.inj ran'
      have same : batches' = batches := List.append_cancel_right (arrived'.symm.trans arrived)
      rw [same] at right
      rcases spec.mp right with range | absent
      · exact .inl range
      · exact .inr (.inr absent)
    · rintro (range | large | absent)
      · exact ⟨_, k', batches, ran, arrived, spec.mpr (.inl range)⟩
      · exact absurd large small
      · exact ⟨_, k', batches, ran, arrived, spec.mpr (.inr absent)⟩

/-- A frame of `SYS_KILL`. -/
def killFrame (pid sig : UInt64) : SyscallFrame := { transfer Number.kill pid with rsi := sig }

theorem kill_right_term : KillsRight booted (killFrame 1 15) := by
  have ready : booted.keyboard.InRange := KeyBuffer.new_inRange
  exact (kill_right_iff ready rfl).mpr (.inl (by decide))

/-- Signal 265 is none, and is delivered as `SIGKILL`. -/
theorem invalid_signal_delivered :
    (asI32 265).toInt = 265 ∧
      ∃ k', dispatch (killFrame 1 265) booted = .done 0 k' ∧
        k'.procs.table.map Process.pendingSignals = [0, 0x200] :=
  ⟨by decide, _, rfl, by decide⟩

/-- The three calls on descriptors all say that this one is not open. -/
structure Rejects (k : Kernel) (fd : Int32) : Prop where
  read : ∀ buf count, Transfers buf count → sysRead fd buf count k = .done Errno.badF.code k
  write : ∀ buf count, Transfers buf count → sysWrite fd buf count k = .done Errno.badF.code k
  close : sysClose fd k = .done Errno.badF.code k

/-- A descriptor that is negative, or not standard and not open, has no file. The index that
a negative one stands for is beyond any table, so that no subtraction wraps. -/
theorem lookup_of_unbound (few : k.fdTable.length < 2 ^ 31 - 3) {fd : Int32}
    (bad : fd.toInt < 0 ∨ 3 ≤ fd.toInt ∧ descriptors k.fdTable fd.toInt = none) :
    lookup fd k = .done none k := by
  have value := asUsize_eq fd
  have above := Int32.le_toInt fd
  have enough : 3 ≤ asUsize fd := by split at value <;> omega
  obtain ⟨slot, ran⟩ := lookup_total enough k
  obtain ⟨_, found⟩ := lookup_returns fd (below_fdCapacity few) slot k ran
  cases slot with
  | none => exact ran
  | some entry =>
      obtain ⟨place, held⟩ := found
      have bound := descriptors_of_held place held
      rcases bad with negative | ⟨_, unbound⟩
      · have nonneg := three_le_of_bound bound
        omega
      · rw [unbound] at bound
        cases bound

theorem sysRead_of_unbound {fd : Int32} (missing : lookup fd k = .done none k) (notInput : fd ≠ 0)
    {buf count : UInt64} (transfers : Transfers buf count) :
    sysRead fd buf count k = .done Errno.badF.code k := by
  obtain ⟨nonzero, nonnull, small⟩ := transfers
  unfold sysRead
  rw [if_neg nonzero, if_neg nonnull, Exec.bind_of_done (fromRawParts_done small k),
    if_neg notInput, Exec.bind_of_done missing]
  rfl

theorem sysWrite_of_unbound {fd : Int32} (missing : lookup fd k = .done none k)
    (notOutput : ¬(fd = 1 ∨ fd = 2)) {buf count : UInt64} (transfers : Transfers buf count) :
    sysWrite fd buf count k = .done Errno.badF.code k := by
  obtain ⟨nonzero, nonnull, small⟩ := transfers
  unfold sysWrite
  rw [if_neg nonzero, if_neg nonnull, if_neg notOutput,
    Exec.bind_of_done (fromRawParts_done small k), Exec.bind_of_done missing]
  rfl

/-- Of the descriptors that are negative, or not standard and not open, all three calls
reject exactly those that are not negative. -/
theorem rejects_iff (few : k.fdTable.length < 2 ^ 31 - 3) {fd : Int32}
    (bad : fd.toInt < 0 ∨ 3 ≤ fd.toInt ∧ descriptors k.fdTable fd.toInt = none) :
    Rejects k fd ↔ 0 ≤ fd.toInt := by
  have missing := lookup_of_unbound few bad
  have below : fd < 3 ↔ fd.toInt < 3 := Int32.lt_iff_toInt_lt
  constructor
  · intro rejects
    have closed := rejects.close
    unfold sysClose at closed
    split at closed
    · cases closed
    · next nonstandard =>
        rw [below] at nonstandard
        omega
  · intro nonneg
    have nonstandard : ¬fd < 3 := by
      rw [below]
      omega
    have notInput : fd ≠ 0 := by
      rintro rfl
      exact nonstandard (by decide)
    have notOutput : ¬(fd = 1 ∨ fd = 2) := by
      rintro (rfl | rfl)
      · exact nonstandard (by decide)
      · exact nonstandard (by decide)
    refine ⟨fun _ _ => sysRead_of_unbound missing notInput,
      fun _ _ => sysWrite_of_unbound missing notOutput, ?_⟩
    unfold sysClose
    rw [if_neg nonstandard, Exec.bind_of_done missing]
    rfl

theorem rejects_three : Rejects booted 3 :=
  (rejects_iff (by decide) (.inr ⟨by decide, rfl⟩)).mpr (by decide)

/-- `close(-1)` succeeds, where a read says that there is no such descriptor. -/
theorem negative_descriptor_closed :
    sysClose (-1) booted = .done 0 booted ∧ sysRead (-1) 4096 1 booted = .done Errno.badF.code booted :=
  ⟨rfl, rfl⟩

end Kernel
end ComputeKernel
