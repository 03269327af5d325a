import ComputeKernel.Syscall.Safety

/-! Which system calls can panic the kernel, from every state it can be in. -/
namespace ComputeKernel
open Checked (Exec Meets)

/-- A transfer that names a standard descriptor of the other direction: reading from
1 or 2, or writing to 0. -/
def SyscallFrame.Misdirected (frame : SyscallFrame) : Prop :=
  (frame.num = Number.read ∧ (asI32 frame.rdi = 1 ∨ asI32 frame.rdi = 2) ∨
    frame.num = Number.write ∧ asI32 frame.rdi = 0) ∧
  Kernel.Transfers frame.rsi frame.rdx

instance (frame : SyscallFrame) : Decidable frame.Misdirected := by
  unfold SyscallFrame.Misdirected Kernel.Transfers
  infer_instance

namespace Kernel

/-- The states between system calls. User code changes its memory, interrupts arrive
at any time, and a call may leave the processor halted. -/
inductive Reachable : Kernel → Prop where
  | boot (decode : List UInt8 → Option DecodedKey) (video : Nat → UInt8)
      (memory : UInt64 → Option UInt8) (arrivals : List (List Irq)) :
      Reachable (Kernel.boot decode video memory arrivals)
  | user {k : Kernel} (memory : UInt64 → Option UInt8) (arrivals : List (List Irq)) :
      Reachable k → Reachable { k with memory, arrivals }
  | interrupted {k k' : Kernel} {irq : Irq} :
      Reachable k → interrupt irq k = .done () k' → Reachable k'
  | returned {k k' : Kernel} {frame : SyscallFrame} {result : Int} :
      Reachable k → dispatch frame k = .done result k' → Reachable k'
  | halted {k k' : Kernel} {frame : SyscallFrame} :
      Reachable k → dispatch frame k = .halted k' → Reachable k'

def NeverPanics (k : Kernel) (frame : SyscallFrame) : Prop :=
  ∀ why, dispatch frame k ≠ .panicked why

theorem safe_dispatch {frame : SyscallFrame} (proper : ¬frame.Misdirected) :
    Safe (dispatch frame) := by
  refine Safe.ite (fun isRead => ?_) (fun _ => ?_)
  · apply safe_sysRead
    intro transfers output
    exact proper ⟨.inl ⟨isRead, output⟩, transfers⟩
  refine Safe.ite (fun isWrite => ?_) (fun _ => ?_)
  · apply safe_sysWrite
    intro transfers input
    exact proper ⟨.inr ⟨isWrite, input⟩, transfers⟩
  refine Safe.ite (fun _ => safe_sysOpen frame.rdi (asI32 frame.rsi)) (fun _ => ?_)
  refine Safe.ite (fun _ => safe_sysClose (asI32 frame.rdi)) (fun _ => ?_)
  refine Safe.ite (fun _ => safe_sysGetpid) (fun _ => ?_)
  refine Safe.ite (fun _ => safe_sysFork) (fun _ => ?_)
  refine Safe.ite (fun _ => safe_sysExecve frame.rdi) (fun _ => ?_)
  refine Safe.ite (fun _ => safe_sysExit (asI32 frame.rdi)) (fun _ => ?_)
  refine Safe.ite (fun _ => safe_sysWait4 (asI32 frame.rdi) frame.rsi) (fun _ => ?_)
  refine Safe.ite (fun _ => safe_sysKill frame.rdi.toUInt32 frame.rsi.toUInt8) (fun _ => ?_)
  refine Safe.ite (fun _ => safe_sysGetppid) (fun _ => ?_)
  exact Safe.ite (fun _ => safe_ret 0) (fun _ => safe_ret _)

theorem lookup_panics {fd : Int32} (standard : fd = 0 ∨ fd = 1 ∨ fd = 2) (k : Kernel) :
    lookup fd k = .panicked .overflow := by
  have below := (asUsize_lt_three fd).mpr standard
  have under : (Exec.usizeSub (asUsize fd) 3 : Exec Kernel Nat) k = .panicked .overflow := by
    rw [Exec.usizeSub, if_neg (Nat.not_le.mpr below)]
    rfl
  exact Exec.bind_of_panicked under

theorem fromRawParts_done {buf count : UInt64} (small : count.toNat < 2 ^ 63) (k : Kernel) :
    fromRawParts buf count k = .done () k := by
  rw [fromRawParts, if_pos small, Exec.ret_run]

theorem sysRead_panics {fd : Int32} {buf count : UInt64} (transfers : Transfers buf count)
    (output : fd = 1 ∨ fd = 2) (k : Kernel) : sysRead fd buf count k = .panicked .overflow := by
  obtain ⟨nonzero, nonnull, small⟩ := transfers
  have notInput : fd ≠ 0 := by
    rintro rfl
    exact absurd output (by decide)
  unfold sysRead
  rw [if_neg nonzero, if_neg nonnull, Exec.bind_of_done (fromRawParts_done small k),
    if_neg notInput]
  exact Exec.bind_of_panicked (lookup_panics (.inr output) k)

theorem sysWrite_panics {buf count : UInt64} (transfers : Transfers buf count) (k : Kernel) :
    sysWrite 0 buf count k = .panicked .overflow := by
  obtain ⟨nonzero, nonnull, small⟩ := transfers
  unfold sysWrite
  rw [if_neg nonzero, if_neg nonnull, if_neg (by decide),
    Exec.bind_of_done (fromRawParts_done small k)]
  exact Exec.bind_of_panicked (lookup_panics (.inl rfl) k)

theorem dispatch_panics {frame : SyscallFrame} (misdirected : frame.Misdirected) (k : Kernel) :
    dispatch frame k = .panicked .overflow := by
  obtain ⟨⟨isRead, output⟩ | ⟨isWrite, input⟩, transfers⟩ := misdirected
  · unfold dispatch
    rw [if_pos isRead]
    exact sysRead_panics transfers output k
  · have notRead : frame.num ≠ Number.read := by
      rw [isWrite]
      decide
    unfold dispatch
    rw [if_neg notRead, if_pos isWrite, input]
    exact sysWrite_panics transfers k

theorem boot_valid (decode : List UInt8 → Option DecodedKey) (video : Nat → UInt8)
    (memory : UInt64 → Option UInt8) (arrivals : List (List Irq)) :
    (Kernel.boot decode video memory arrivals).Valid where
  keyboard := KeyBuffer.new_inRange
  screen := Vga.Writer.initial_onScreen video
  fds := by
    change 0 < fdCapacity
    decide
  procs := by
    change 2 < processCapacity
    decide
  history := ⟨[], rfl⟩

/-- A call that ends in a state was not misdirected. -/
theorem dispatch_meets {k : Kernel} (valid : k.Valid) {frame : SyscallFrame}
    (survives : k.NeverPanics frame) : Meets Valid (dispatch frame) (fun _ _ => True) k := by
  by_cases misdirected : frame.Misdirected
  · exact absurd (dispatch_panics misdirected k) (survives .overflow)
  · exact safe_dispatch misdirected k valid

theorem Reachable.valid {k : Kernel} (reachable : Reachable k) : k.Valid := by
  induction reachable with
  | boot decode video memory arrivals => exact boot_valid decode video memory arrivals
  | user memory arrivals _ valid => exact { valid with }
  | interrupted _ ran valid => exact ((safe_interrupt _ _ valid).done ran).1
  | returned _ ran valid =>
      have survives : NeverPanics _ _ := fun why panicked => nomatch ran.symm.trans panicked
      exact ((dispatch_meets valid survives).done ran).1
  | halted _ ran valid =>
      have survives : NeverPanics _ _ := fun why panicked => nomatch ran.symm.trans panicked
      exact (dispatch_meets valid survives).halted ran

/-- The process table of a reachable kernel is one that a run of the process
subsystem produces, so what holds in every such run holds here. -/
theorem Reachable.procs_run {k : Kernel} (reachable : Reachable k) :
    ∃ ops, k.procs = Procs.run Procs.boot ops := reachable.valid.history

/-- A system call panics the kernel exactly when it is misdirected. -/
theorem never_panics_iff {k : Kernel} (reachable : Reachable k) (frame : SyscallFrame) :
    k.NeverPanics frame ↔ ¬frame.Misdirected := by
  constructor
  · intro survives misdirected
    exact survives .overflow (dispatch_panics misdirected k)
  · intro proper
    exact (safe_dispatch proper k reachable.valid).not_panicked

/-- A booted kernel whose user memory is all mapped. -/
def booted : Kernel := Kernel.boot (fun _ => none) (fun _ => 0) (fun _ => some 0) []

def transfer (num rdi : UInt64) : SyscallFrame :=
  { num
    rdi
    rsi := 0x1000
    rdx := 1
    r10 := 0
    r8 := 0
    r9 := 0 }

theorem console_write_never_panics :
    Reachable booted ∧ booted.NeverPanics (transfer Number.write 1) := by
  have reachable : Reachable booted := .boot _ _ _ _
  exact ⟨reachable, (never_panics_iff reachable _).mpr (by decide)⟩

theorem wrong_direction_panics :
    Reachable booted ∧ dispatch (transfer Number.read 1) booted = .panicked .overflow ∧
      dispatch (transfer Number.read 2) booted = .panicked .overflow ∧
      dispatch (transfer Number.write 0) booted = .panicked .overflow :=
  ⟨.boot _ _ _ _, rfl, rfl, rfl⟩

end Kernel
end ComputeKernel
