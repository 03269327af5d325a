import ComputeKernel.Syscall.Descriptors

/-! Relations between kernels that system calls stay in, whatever they copy, print or open.
A relation that interrupts and messages keep to, and that does not look at user memory and
descriptors, is kept by all the code of the calls but what works on processes, reads the
keyboard or writes to the screen. -/
namespace ComputeKernel.Kernel
open Checked (Exec Returns Within)

/-- Only user memory and descriptors have changed. -/
structure Aside (k k' : Kernel) : Prop where
  procs : k'.procs = k.procs
  keyboard : k'.keyboard = k.keyboard
  arrivals : k'.arrivals = k.arrivals
  screen : k'.screen = k.screen
  serial : k'.serial = k.serial

theorem Aside.refl (k : Kernel) : Aside k k := ⟨rfl, rfl, rfl, rfl, rfl⟩

theorem sysExit_never_returns (code : Int32) {post : Int → Kernel → Prop} {k : Kernel} :
    Returns (sysExit code) post k := by
  refine Returns.bind (fun _ _ _ => Returns.bind (fun _ _ _ => Returns.bind (fun _ _ _ => ?_)))
  exact Returns.bind (fun _ _ _ => Returns.bind (fun _ _ _ => Returns.bind (fun _ _ _ => Returns.halt)))

structure Tolerant (R : Kernel → Kernel → Prop) : Prop where
  pending : Within R pending
  serialPrint : ∀ text, Within R (serialPrint text)
  aside : ∀ {k k' : Kernel}, Aside k k' → R k k'

namespace Tolerant

variable {R : Kernel → Kernel → Prop} (h : Tolerant R)

include h

theorem hlt : Within R hlt := by
  refine Within.get_bind (fun k => ?_)
  split
  · exact Returns.halt
  · exact h.pending k

theorem readUserCstr (path : UInt64) : Within R (readUserCstr path 256) :=
  fun k => Returns.mono (readUserCstr_returns path) (fun _ _ read =>
    h.aside (by rw [read.1]; exact Aside.refl k))

theorem readByte (address : UInt64) : Within R (readByte address) := by
  refine Within.get_bind (fun k => ?_)
  split
  · exact Returns.ret (h.aside (Aside.refl k))
  · exact Returns.fault address

theorem writeByte (address : UInt64) (byte : UInt8) : Within R (writeByte address byte) := by
  refine Within.get_bind (fun k => ?_)
  split
  · exact Returns.modify (h.aside ⟨rfl, rfl, rfl, rfl, rfl⟩)
  · exact Returns.fault address

theorem lookup (fd : Int32) : Within R (lookup fd) := by
  refine fun k => Returns.bind (Returns.usizeSub (fun _ => Returns.bind (Returns.get ?_)))
  split
  · exact Returns.ret (h.aside (Aside.refl k))
  · exact Returns.ret (h.aside (Aside.refl k))

theorem install (file : OpenFile) : Within R (install file) := by
  refine Within.get_bind (fun k => ?_)
  cases k.fdTable.findIdx? Option.isNone with
  | some idx => exact Returns.bind (Returns.modify (Returns.i64Add (h.aside ⟨rfl, rfl, rfl, rfl, rfl⟩)))
  | none =>
      refine Returns.ite (fun _ => Returns.bind (Returns.modify ?_)) (fun _ => Returns.exhaust)
      exact Returns.bind (Returns.i64Add (Returns.i64Add (h.aside ⟨rfl, rfl, rfl, rfl, rfl⟩)))

variable [Std.Refl R] [IsTrans Kernel R]

theorem readBytes (count : Nat) (buf : UInt64) : Within R (readBytes buf count) := by
  induction count generalizing buf with
  | zero => exact Within.ret []
  | succ count ih =>
      refine Within.bind (h.readByte buf) (fun byte => ?_)
      exact Within.bind (ih (buf + 1)) (fun bytes => Within.ret _)

theorem writeBytes (bytes : List UInt8) (buf : UInt64) : Within R (writeBytes buf bytes) := by
  induction bytes generalizing buf with
  | nil => exact Within.ret ()
  | cons byte bytes ih => exact Within.bind (h.writeByte buf byte) (fun _ => ih (buf + 1))

theorem readStatic (buf : UInt64) (len : Nat) (offset : UInt64) (content : List UInt8) :
    Within R (readStatic buf len offset content) := by
  refine Within.ite (fun _ => Within.ret 0) (fun _ => ?_)
  refine Within.bind (fun k => Returns.sliceFrom (fun _ => Std.Refl.refl k)) (fun available => ?_)
  refine Within.bind (fun k => Returns.sliceTo (fun _ => Std.Refl.refl k)) (fun source => ?_)
  refine Within.bind ?_ (fun _ => Within.ret _)
  exact Within.ite (fun _ => h.writeBytes source buf) (fun _ => Within.panic _)

theorem readNode (file : OpenFile) (buf : UInt64) (len : Nat) : Within R (readNode file buf len) := by
  unfold Kernel.readNode
  cases file.node with
  | procUptime => exact Within.get_bind (fun k => h.readStatic buf len _ _ k)
  | procVersion | procMeminfo | sysHostname => exact h.readStatic buf len _ _
  | devZero | devFull => exact Within.bind (h.writeBytes _ buf) (fun _ => Within.ret len)
  | devNull | devTtyS0 => exact Within.ret 0

theorem writeConsole (kprint : ∀ bytes, Within R (kprint bytes)) (buf count : UInt64) :
    Within R (writeConsole buf count) := by
  refine Within.bind (Within.ite (fun _ => Within.ret ()) (fun _ => Within.fault buf)) (fun _ => ?_)
  refine Within.bind (h.readBytes _ buf) (fun bytes => ?_)
  split
  · refine Within.bind (h.serialPrint _) (fun _ => ?_)
    exact Within.bind (kprint bytes) (fun _ => Within.ret _)
  · exact Within.ret _

theorem writeNode (node : PseudoNode) (buf count : UInt64) : Within R (writeNode node buf count) := by
  unfold Kernel.writeNode
  split
  · exact Within.ret _
  · exact Within.ret _
  · exact Within.ret _
  · refine Within.bind (h.readBytes _ buf) (fun bytes => ?_)
    exact Within.bind (Within.forEach (fun byte => h.serialPrint _)) (fun _ => Within.ret _)
  · exact Within.ret _

theorem writeStatus (status : UInt64) (code : Int32) : Within R (writeStatus status code) := by
  refine Within.ite (fun _ => Within.ret ()) (fun _ => ?_)
  exact Within.ite (fun _ => h.writeBytes _ status) (fun _ => Within.fault status)

/-- A read stays in the relation where reads of the keyboard do. -/
theorem sysRead {fd : Int32} {buf count : UInt64}
    (stdin : fd = 0 → Within R (readStdin buf count.toNat)) : Within R (sysRead fd buf count) := by
  refine Within.ite (fun _ => Within.ret _) (fun _ => Within.ite (fun _ => Within.ret _) (fun _ => ?_))
  refine Within.bind (Within.ite (fun _ => Within.ret ()) (fun _ => Within.fault buf)) (fun _ => ?_)
  refine Within.ite stdin (fun _ => Within.bind (h.lookup fd) (fun slot => ?_))
  cases slot with
  | none => exact Within.ret _
  | some entry =>
      refine Within.bind (h.readNode entry.2 buf _) (fun n => ?_)
      exact Within.bind (Within.modify (fun _ => h.aside ⟨rfl, rfl, rfl, rfl, rfl⟩)) (fun _ => Within.ret _)

/-- A write stays in the relation where writes to the console do. -/
theorem sysWrite {fd : Int32} {buf count : UInt64}
    (console : fd = 1 ∨ fd = 2 → Within R (Kernel.writeConsole buf count)) :
    Within R (sysWrite fd buf count) := by
  refine Within.ite (fun _ => Within.ret _) (fun _ => Within.ite (fun _ => Within.ret _) (fun _ => ?_))
  refine Within.ite console (fun _ => ?_)
  refine Within.bind (Within.ite (fun _ => Within.ret ()) (fun _ => Within.fault buf)) (fun _ => ?_)
  refine Within.bind (h.lookup fd) (fun slot => ?_)
  cases slot with
  | none => exact Within.ret _
  | some entry => exact h.writeNode entry.2.node buf count

theorem sysOpen (path : UInt64) (flags : Int32) : Within R (sysOpen path flags) := by
  refine Within.ite (fun _ => Within.ret _) (fun _ => ?_)
  refine Within.bind (h.readUserCstr path) (fun text => ?_)
  cases text with
  | none => exact Within.ret _
  | some text =>
      cases found : pathNode text with
      | none =>
          simp only [found]
          exact Within.ret _
      | some node =>
          simp only [found]
          exact Within.ite (fun _ => Within.ret _) (fun _ => h.install _)

theorem sysClose (fd : Int32) : Within R (sysClose fd) := by
  refine Within.ite (fun _ => Within.ret _) (fun _ => ?_)
  refine Within.bind (h.lookup fd) (fun slot => ?_)
  cases slot with
  | none => exact Within.ret _
  | some entry =>
      exact Within.bind (Within.modify (fun _ => h.aside ⟨rfl, rfl, rfl, rfl, rfl⟩)) (fun _ => Within.ret _)

theorem sysGetpid : Within R sysGetpid :=
  Within.bind h.pending (fun _ => Within.get_bind (fun k => Returns.ret (Std.Refl.refl k)))

theorem sysGetppid : Within R sysGetppid := by
  refine Within.bind h.pending (fun _ => Within.get_bind (fun k => ?_))
  cases k.procs.caller with
  | none => exact Returns.ret (Std.Refl.refl k)
  | some p => exact Returns.ret (Std.Refl.refl k)

/-! Calls on processes stay in the relation where the process subsystem does. -/

theorem sysExecve (path : UInt64)
    (executes : ∀ (k : Kernel) text, R k { k with procs := (k.procs.execve text).2 }) :
    Within R (sysExecve path) := by
  refine Within.ite (fun _ => Within.ret _) (fun _ => ?_)
  refine Within.bind (h.readUserCstr path) (fun text => ?_)
  cases text with
  | none => exact Within.ret _
  | some text =>
      refine Within.bind h.pending (fun _ => Within.get_bind (fun k => ?_))
      refine Returns.bind (Returns.modify ?_)
      cases (k.procs.execve text).1 with
      | ok _ => exact Returns.ret (executes k text)
      | error _ => exact Returns.ret (executes k text)

theorem sysKill (pid : UInt32) (sig : UInt8)
    (kills : ∀ pid sig, ¬sig > 31 → Within R (onProcs (killSection pid sig))) :
    Within R (sysKill pid sig) := by
  refine Within.bind (Within.ite (fun _ => Within.ret _) (fun low => ?_)) (fun result => ?_)
  · exact Within.bind h.pending (fun _ => kills pid sig low)
  · cases result with
    | ok _ => exact Within.ret _
    | error _ => exact Within.ret _

/-- A call stays in the relation where its work on processes, keyboard and screen does. -/
theorem dispatch {frame : SyscallFrame}
    (stdin : frame.num = Number.read → asI32 frame.rdi = 0 →
      Within R (readStdin frame.rsi frame.rdx.toNat))
    (console : frame.num = Number.write → asI32 frame.rdi = 1 ∨ asI32 frame.rdi = 2 →
      Within R (Kernel.writeConsole frame.rsi frame.rdx))
    (fork : frame.num = Number.fork → Within R sysFork)
    (wait : frame.num = Number.wait4 → Within R (sysWait4 (asI32 frame.rdi) frame.rsi))
    (executes : ∀ (k : Kernel) text, R k { k with procs := (k.procs.execve text).2 })
    (kills : ∀ pid sig, ¬sig > 31 → Within R (onProcs (killSection pid sig))) :
    Within R (dispatch frame) := by
  refine Within.ite (fun call => h.sysRead (stdin call)) (fun _ => ?_)
  refine Within.ite (fun call => h.sysWrite (console call)) (fun _ => ?_)
  refine Within.ite (fun _ => h.sysOpen _ _) (fun _ => ?_)
  refine Within.ite (fun _ => h.sysClose _) (fun _ => ?_)
  refine Within.ite (fun _ => h.sysGetpid) (fun _ => ?_)
  refine Within.ite fork (fun _ => ?_)
  refine Within.ite (fun _ => h.sysExecve _ executes) (fun _ => ?_)
  refine Within.ite (fun _ _ => sysExit_never_returns _) (fun _ => ?_)
  refine Within.ite wait (fun _ => ?_)
  refine Within.ite (fun _ => h.sysKill _ _ kills) (fun _ => ?_)
  refine Within.ite (fun _ => h.sysGetppid) (fun _ => ?_)
  exact Within.ite (fun _ => Within.ret 0) (fun _ => Within.ret _)

section Deaf

/-! Relations that do not look at the keyboard either. -/

variable (deaf : ∀ (k : Kernel) keyboard, R k { k with keyboard })

include deaf

theorem readChar : Within R readChar := by
  refine Within.bind h.pending (fun _ => ?_)
  refine Within.bind (fun k => Returns.zoom (fun _ keyboard _ => deaf k keyboard)) (fun byte => ?_)
  cases byte with
  | some byte => exact Within.ret _
  | none =>
      refine Within.bind h.pending (fun _ k => Returns.bind (Returns.get ?_))
      refine Within.bind (Within.modify (fun k => deaf k _)) (fun _ => ?_) k
      exact Within.bind (h.serialPrint _) (fun _ => Within.ret _)

omit [Std.Refl R] [IsTrans Kernel R] deaf in
theorem storeAt (buf : UInt64) (len i : Nat) (byte : UInt8) : Within R (storeAt buf len i byte) :=
  Within.ite (fun _ => h.writeByte _ byte) (fun _ => Within.panic _)

theorem readFirst (buf : UInt64) (len fuel : Nat) : Within R (readFirst buf len fuel) := by
  induction fuel with
  | zero => exact Within.halt
  | succ fuel ih =>
      refine Within.bind h.pending (fun _ k => Returns.bind (Returns.get ?_))
      refine Within.ite (fun _ => Within.ret _) (fun _ => Within.bind (h.readChar deaf) (fun ch => ?_)) k
      cases ch with
      | some ch => exact Within.bind (h.storeAt buf len 0 ch) (fun _ => Within.ret _)
      | none => exact Within.bind h.hlt (fun _ => ih)

theorem readRest (buf : UInt64) (len room read : Nat) : Within R (readRest buf len room read) := by
  induction room generalizing read with
  | zero => exact Within.ret read
  | succ room ih =>
      refine Within.bind (h.readChar deaf) (fun ch => ?_)
      cases ch with
      | none => exact Within.ret read
      | some ch =>
          refine Within.bind (h.storeAt buf len read ch) (fun _ => ?_)
          refine Within.bind (Within.usizeAdd read 1) (fun read => ?_)
          exact Within.ite (fun _ => Within.ret read) (fun _ => ih read)

theorem readStdin (buf : UInt64) (len : Nat) : Within R (readStdin buf len) := by
  refine fun k => Returns.bind (Returns.get (Within.bind (h.readFirst deaf buf len _) (fun alive => ?_) k))
  refine Within.ite (fun _ => ?_) (fun _ => Within.ret _)
  exact Within.bind (h.readRest deaf buf len _ _) (fun read => Within.ret _)

end Deaf

section Blind

/-! Relations that do not look at processes either. -/

variable (blind : ∀ (k : Kernel) procs, R k { k with procs })

include blind

omit [Std.Refl R] [IsTrans Kernel R] h in
theorem onProcs (m : Exec Procs α) : Within R (onProcs m) :=
  fun k => Returns.zoom (fun _ procs _ => blind k procs)

omit [Std.Refl R] in
theorem sysFork : Within R sysFork := by
  refine Within.bind h.pending (fun _ => Within.get_bind (fun k => ?_))
  refine Returns.ite (fun _ => Returns.bind (Returns.modify ?_)) (fun _ => Returns.exhaust)
  cases k.procs.fork.1 with
  | ok child => exact Returns.ret (blind k _)
  | error message => exact Returns.ret (blind k _)

theorem waitpid (target : Option UInt32) (fuel : Nat) : Within R (waitpid target fuel) := by
  induction fuel with
  | zero => exact Within.halt
  | succ fuel ih =>
      refine Within.bind h.pending (fun _ => Within.bind (onProcs blind _) (fun result => ?_))
      cases result with
      | error message => exact Within.ret _
      | ok found =>
          cases found with
          | some child => exact Within.ret _
          | none => exact Within.bind h.hlt (fun _ => ih)

theorem sysWait4 (pid : Int32) (status : UInt64) : Within R (sysWait4 pid status) := by
  refine fun k => Returns.bind (Returns.get (Within.bind (h.waitpid blind _ _) (fun result => ?_) k))
  cases result with
  | ok child => exact Within.bind (h.writeStatus status child.2) (fun _ => Within.ret _)
  | error message => exact Within.ret _

theorem dispatch_of_blind {frame : SyscallFrame}
    (stdin : frame.num = Number.read → asI32 frame.rdi = 0 →
      Within R (Kernel.readStdin frame.rsi frame.rdx.toNat))
    (console : frame.num = Number.write → asI32 frame.rdi = 1 ∨ asI32 frame.rdi = 2 →
      Within R (Kernel.writeConsole frame.rsi frame.rdx)) : Within R (Kernel.dispatch frame) :=
  h.dispatch stdin console (fun _ => h.sysFork blind) (fun _ => h.sysWait4 blind _ _)
    (fun k _ => blind k _) (fun _ _ _ => onProcs blind _)

end Blind

end Tolerant
end ComputeKernel.Kernel
