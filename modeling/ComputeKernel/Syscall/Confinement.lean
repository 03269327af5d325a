import ComputeKernel.Support.Footprint
import ComputeKernel.Syscall.UserStrings

/-! What a system call may touch of user memory: the ranges that its arguments name. The
kernel does not check where they lie, so this is all that stands between a caller and the
memory of everybody else. -/
namespace ComputeKernel
open Checked (Cells Commutes Exec Local)

/-- The addresses of so many bytes. -/
def within (ptr : UInt64) (count : Nat) (address : UInt64) : Bool := (address - ptr).toNat < count

/-- The addresses that the arguments of a call name: a buffer, a path or a status word. -/
def SyscallFrame.names (frame : SyscallFrame) (address : UInt64) : Bool :=
  if frame.num = Number.read ∨ frame.num = Number.write then
    within frame.rsi frame.rdx.toNat address
  else if frame.num = Number.open_ ∨ frame.num = Number.execve then within frame.rdi 256 address
  else if frame.num = Number.wait4 then within frame.rsi 4 address
  else false

/-- Those among them that the call is to fill. -/
def SyscallFrame.fills (frame : SyscallFrame) (address : UInt64) : Bool :=
  if frame.num = Number.read then within frame.rsi frame.rdx.toNat address
  else if frame.num = Number.wait4 then within frame.rsi 4 address
  else false

theorem SyscallFrame.names_of_fills {frame : SyscallFrame} {address : UInt64}
    (fills : frame.fills address = true) : frame.names address = true := by
  unfold SyscallFrame.fills at fills
  split at fills
  · next isRead =>
      rw [SyscallFrame.names, if_pos (Or.inl isRead)]
      exact fills
  · split at fills
    · next isWait =>
        rw [SyscallFrame.names, isWait]
        exact fills
    · cases fills

namespace Kernel

/-- User memory as a part of the kernel's state. -/
def userMemory : Cells Kernel UInt64 (Option UInt8) where
  view := Kernel.memory
  put := withMemory
  view_put _ _ := rfl
  put_view _ := rfl
  put_put _ _ _ := rfl

/-- System calls one after another, with what they return. -/
def calls : List SyscallFrame → Exec Kernel (List Int)
  | [] => Exec.ret []
  | frame :: frames => do
      let result ← dispatch frame
      let results ← calls frames
      Exec.ret (result :: results)

section Free

variable (memory : UInt64 → Option UInt8)

theorem commutes_onProcs (m : Exec Procs α) : Commutes (withMemory memory) (onProcs m) := by
  apply Commutes.zoom
  · exact fun _ => rfl
  · exact fun _ _ => rfl

theorem commutes_onScreen (m : Exec Vga.Writer α) : Commutes (withMemory memory) (onScreen m) := by
  apply Commutes.zoom
  · exact fun _ => rfl
  · exact fun _ _ => rfl

theorem commutes_kprint (bytes : List UInt8) : Commutes (withMemory memory) (kprint bytes) :=
  Commutes.bind (commutes_onScreen memory _) (fun _ => Commutes.ret ())

theorem commutes_fromRawParts (buf count : UInt64) :
    Commutes (withMemory memory) (fromRawParts buf count) :=
  Commutes.ite (Commutes.ret ()) (Commutes.fault buf)

theorem commutes_lookup (fd : Int32) : Commutes (withMemory memory) (lookup fd) := by
  refine Commutes.bind (Commutes.ite (Commutes.ret _) (Commutes.panic _)) (fun idx => ?_)
  refine Commutes.get_bind (fun _ => rfl) (fun k => ?_)
  split
  · exact Commutes.ret _
  · exact Commutes.ret _

theorem commutes_sysClose (fd : Int32) : Commutes (withMemory memory) (sysClose fd) := by
  refine Commutes.ite (Commutes.ret 0) (Commutes.bind (commutes_lookup memory fd) (fun slot => ?_))
  cases slot with
  | none => exact Commutes.ret _
  | some entry => exact Commutes.bind (Commutes.modify (fun _ => rfl)) (fun _ => Commutes.ret 0)

theorem commutes_sysGetpid : Commutes (withMemory memory) sysGetpid := by
  refine Commutes.bind (commutes_pending memory) (fun _ => ?_)
  exact Commutes.get_bind (fun _ => rfl) (fun _ => Commutes.ret _)

theorem commutes_sysGetppid : Commutes (withMemory memory) sysGetppid := by
  refine Commutes.bind (commutes_pending memory) (fun _ => ?_)
  refine Commutes.get_bind (fun _ => rfl) (fun k => ?_)
  split
  · exact Commutes.ret _
  · exact Commutes.ret _

theorem commutes_sysFork : Commutes (withMemory memory) sysFork := by
  refine Commutes.bind (commutes_pending memory) (fun _ => ?_)
  refine Commutes.get_bind (fun _ => rfl) (fun k => ?_)
  refine Commutes.ite (Commutes.bind (Commutes.modify (fun _ => rfl)) (fun _ => ?_)) Commutes.exhaust
  split
  · exact Commutes.ret _
  · exact Commutes.ret _

theorem commutes_forceSchedule : Commutes (withMemory memory) forceSchedule := by
  refine Commutes.bind (commutes_pending memory) (fun _ => ?_)
  refine Commutes.get_bind (fun _ => rfl) (fun k => ?_)
  refine Commutes.ite (Commutes.modify (fun _ => rfl)) ?_
  split
  · exact commutes_onProcs memory _
  · exact Commutes.bind (commutes_serialPrint memory _) (fun _ => commutes_onProcs memory _)

theorem commutes_sysExit (code : Int32) : Commutes (withMemory memory) (sysExit code) := by
  refine Commutes.bind (commutes_pending memory) (fun _ => ?_)
  refine Commutes.bind (Commutes.modify (fun _ => rfl)) (fun _ => ?_)
  refine Commutes.bind (commutes_pending memory) (fun _ => ?_)
  refine Commutes.get_bind (fun _ => rfl) (fun k => ?_)
  refine Commutes.bind (commutes_serialPrint memory _) (fun _ => ?_)
  exact Commutes.bind (commutes_forceSchedule memory) (fun _ => Commutes.halt)

theorem commutes_sysKill (pid : UInt32) (sig : UInt8) :
    Commutes (withMemory memory) (sysKill pid sig) := by
  refine Commutes.bind (Commutes.ite (Commutes.ret _) ?_) (fun result => ?_)
  · exact Commutes.bind (commutes_pending memory) (fun _ => commutes_onProcs memory _)
  · split
    · exact Commutes.ret _
    · exact Commutes.ret _

theorem commutes_waitpid (target : Option UInt32) (fuel : Nat) :
    Commutes (withMemory memory) (waitpid target fuel) := by
  induction fuel with
  | zero => exact Commutes.halt
  | succ fuel ih =>
      refine Commutes.bind (commutes_pending memory) (fun _ => ?_)
      refine Commutes.bind (commutes_onProcs memory _) (fun result => ?_)
      split
      · exact Commutes.ret _
      · exact Commutes.ret _
      · exact Commutes.bind (commutes_hlt memory) (fun _ => ih)

end Free

/-- Every byte of a range is among the addresses. -/
def Spans (addresses : UInt64 → Bool) (ptr : UInt64) (count : Nat) : Prop :=
  ∀ i < count, addresses (ptr + UInt64.ofNat i) = true

variable {named stored : UInt64 → Bool} {ptr : UInt64} {count : Nat}

theorem Spans.head (spans : Spans named ptr (count + 1)) : named ptr = true := by
  simpa using spans 0 (Nat.zero_lt_succ count)

theorem Spans.tail (spans : Spans named ptr (count + 1)) : Spans named (ptr + 1) count := by
  intro i inside
  rw [Memory.address_succ]
  exact spans (i + 1) (Nat.succ_lt_succ inside)

theorem Spans.shorter {less : Nat} (spans : Spans named ptr count) (below : less ≤ count) :
    Spans named ptr less := fun i inside => spans i (Nat.lt_of_lt_of_le inside below)

theorem within_spans (ptr : UInt64) {count : Nat} (fits : count ≤ 2 ^ 64) :
    Spans (ComputeKernel.within ptr count) ptr count := by
  intro i inside
  unfold ComputeKernel.within
  rw [UInt64.add_comm, UInt64.add_sub_cancel, UInt64.toNat_ofNat',
    Nat.mod_eq_of_lt (Nat.lt_of_lt_of_le inside fits)]
  exact decide_eq_true inside

section Local

variable (inside : ∀ a, stored a = true → named a = true)

include inside

theorem local_of_commutes {m : Exec Kernel α} (free : ∀ memory, Commutes (withMemory memory) m) :
    Local userMemory named stored m := Local.of_commutes free inside

theorem local_ret (a : α) : Local userMemory named stored (Exec.ret a) :=
  local_of_commutes inside (fun _ => Commutes.ret a)

theorem readByte_local (here : named ptr = true) : Local userMemory named stored (readByte ptr) := by
  refine Local.look here (fun k k' same => ?_) (fun k => ?_)
  · have same : k.memory ptr = k'.memory ptr := same
    rw [same]
  · cases k.memory ptr with
    | some byte => exact local_ret inside byte
    | none => exact local_of_commutes inside (fun _ => Commutes.fault ptr)

theorem writeByte_local (here : stored ptr = true) (byte : UInt8) :
    Local userMemory named stored (writeByte ptr byte) := by
  refine Local.look (inside ptr here) (fun k k' same => ?_) (fun k => ?_)
  · have same : k.memory ptr = k'.memory ptr := same
    rw [same]
  · cases k.memory ptr with
    | some _ =>
        have stores : (fun k : Kernel =>
            { k with memory := fun a => if a = ptr then some byte else k.memory a }) =
              fun k => userMemory.put (Function.update (userMemory.view k) ptr (some byte)) k := by
          funext k
          change _ = withMemory _ k
          unfold withMemory
          congr 1
          funext a
          rw [Function.update_apply]
          rfl
        dsimp only
        rw [stores]
        exact Local.store here inside (some byte)
    | none => exact local_of_commutes inside (fun _ => Commutes.fault ptr)

theorem readBytes_local (spans : Spans named ptr count) :
    Local userMemory named stored (readBytes ptr count) := by
  induction count generalizing ptr with
  | zero => exact local_ret inside []
  | succ count ih =>
      refine Local.bind (readByte_local inside spans.head) (fun byte => ?_)
      exact Local.bind (ih spans.tail) (fun bytes => local_ret inside _)

theorem writeBytes_local {bytes : List UInt8} (spans : Spans stored ptr bytes.length) :
    Local userMemory named stored (writeBytes ptr bytes) := by
  induction bytes generalizing ptr with
  | nil => exact local_ret inside ()
  | cons byte bytes ih =>
      exact Local.bind (writeByte_local inside spans.head byte) (fun _ => ih spans.tail)

theorem storeAt_local (spans : Spans stored ptr count) (i : Nat) (byte : UInt8) :
    Local userMemory named stored (storeAt ptr count i byte) :=
  Local.ite (fun below => writeByte_local inside (spans i below) byte)
    (fun _ => local_of_commutes inside (fun _ => Commutes.panic _))

theorem readFirst_local (spans : Spans stored ptr count) (fuel : Nat) :
    Local userMemory named stored (readFirst ptr count fuel) := by
  induction fuel with
  | zero => exact local_of_commutes inside (fun _ => Commutes.halt)
  | succ fuel ih =>
      refine Local.bind (local_of_commutes inside commutes_pending) (fun _ => ?_)
      refine Local.get_bind (fun _ _ => rfl) (fun k => ?_)
      refine Local.ite (fun _ => local_ret inside false) (fun _ => ?_)
      refine Local.bind (local_of_commutes inside commutes_readChar) (fun ch => ?_)
      cases ch with
      | some ch => exact Local.bind (storeAt_local inside spans 0 ch) (fun _ => local_ret inside true)
      | none => exact Local.bind (local_of_commutes inside commutes_hlt) (fun _ => ih)

theorem readRest_local (spans : Spans stored ptr count) (room read : Nat) :
    Local userMemory named stored (readRest ptr count room read) := by
  induction room generalizing read with
  | zero => exact local_ret inside read
  | succ room ih =>
      refine Local.bind (local_of_commutes inside commutes_readChar) (fun ch => ?_)
      cases ch with
      | none => exact local_ret inside read
      | some ch =>
          refine Local.bind (storeAt_local inside spans read ch) (fun _ => ?_)
          refine Local.bind (local_of_commutes inside (fun _ =>
            Commutes.ite (Commutes.ret _) (Commutes.panic _))) (fun read => ?_)
          exact Local.ite (fun _ => local_ret inside read) (fun _ => ih read)

theorem readStatic_local (spans : Spans stored ptr count) (offset : UInt64) (content : List UInt8) :
    Local userMemory named stored (readStatic ptr count offset content) := by
  refine Local.ite (fun _ => local_ret inside 0) (fun _ => ?_)
  refine Local.bind (local_of_commutes inside (fun _ =>
    Commutes.ite (Commutes.ret _) (Commutes.panic _))) (fun available => ?_)
  refine Local.bind (local_of_commutes inside (fun _ =>
    Commutes.ite (Commutes.ret _) (Commutes.panic _))) (fun source => ?_)
  refine Local.bind (Local.ite (fun fits => ?_) (fun _ => ?_)) (fun _ => local_ret inside _)
  · exact writeBytes_local inside (spans.shorter (fits.2 ▸ fits.1))
  · exact local_of_commutes inside (fun _ => Commutes.panic _)

theorem readNode_local (spans : Spans stored ptr count) (file : OpenFile) :
    Local userMemory named stored (readNode file ptr count) := by
  have zeros : Local userMemory named stored
      (writeBytes ptr (List.replicate count 0) >>= fun _ => Exec.ret count) :=
    Local.bind (writeBytes_local inside (spans.shorter (Nat.le_of_eq List.length_replicate)))
      (fun _ => local_ret inside count)
  unfold readNode
  cases file.node with
  | procVersion => exact readStatic_local inside spans _ _
  | procUptime => exact Local.get_bind (fun _ _ => rfl) (fun k => readStatic_local inside spans _ _)
  | procMeminfo => exact readStatic_local inside spans _ _
  | sysHostname => exact readStatic_local inside spans _ _
  | devNull => exact local_ret inside 0
  | devZero => exact zeros
  | devFull => exact zeros
  | devTtyS0 => exact local_ret inside 0

theorem sysRead_local {buf size : UInt64} (spans : Spans stored buf size.toNat) (fd : Int32) :
    Local userMemory named stored (sysRead fd buf size) := by
  refine Local.ite (fun _ => local_ret inside 0) (fun _ => ?_)
  refine Local.ite (fun _ => local_ret inside _) (fun _ => ?_)
  refine Local.bind (local_of_commutes inside (fun memory => commutes_fromRawParts memory buf size))
    (fun _ => ?_)
  refine Local.ite (fun _ => ?_) (fun _ => ?_)
  · refine Local.get_bind (fun _ _ => rfl) (fun k => ?_)
    refine Local.bind (readFirst_local inside spans _) (fun alive => ?_)
    refine Local.ite (fun _ => ?_) (fun _ => local_ret inside _)
    exact Local.bind (readRest_local inside spans _ _) (fun read => local_ret inside _)
  · refine Local.bind (local_of_commutes inside (fun memory => commutes_lookup memory fd))
      (fun slot => ?_)
    cases slot with
    | none => exact local_ret inside _
    | some entry =>
        refine Local.bind (readNode_local inside spans entry.2) (fun n => ?_)
        refine local_of_commutes inside (fun memory => ?_)
        exact Commutes.bind (Commutes.modify (fun _ => rfl)) (fun _ => Commutes.ret _)

theorem sysWrite_local {buf size : UInt64} (spans : Spans named buf size.toNat) (fd : Int32) :
    Local userMemory named stored (sysWrite fd buf size) := by
  have raw := local_of_commutes inside (fun memory => commutes_fromRawParts memory buf size)
  refine Local.ite (fun _ => local_ret inside 0) (fun _ => ?_)
  refine Local.ite (fun _ => local_ret inside _) (fun _ => ?_)
  refine Local.ite (fun _ => ?_) (fun _ => ?_)
  · refine Local.bind raw (fun _ => Local.bind (readBytes_local inside spans) (fun bytes => ?_))
    split
    · refine local_of_commutes inside (fun memory => ?_)
      refine Commutes.bind (commutes_serialPrint memory _) (fun _ => ?_)
      exact Commutes.bind (commutes_kprint memory _) (fun _ => Commutes.ret _)
    · exact local_ret inside _
  · refine Local.bind raw (fun _ => ?_)
    refine Local.bind (local_of_commutes inside (fun memory => commutes_lookup memory fd))
      (fun slot => ?_)
    cases slot with
    | none => exact local_ret inside _
    | some entry =>
        dsimp only
        unfold writeNode
        cases entry.2.node with
        | devTtyS0 =>
            refine Local.bind (readBytes_local inside spans) (fun bytes => ?_)
            refine local_of_commutes inside (fun memory => ?_)
            exact Commutes.bind (Commutes.forEach (fun byte => commutes_serialPrint memory _))
              (fun _ => Commutes.ret _)
        | _ => exact local_ret inside _

theorem readUserBytes_local (spans : Spans named ptr count) (before : List UInt8) :
    Local userMemory named stored (readUserBytes count ptr before) := by
  induction count generalizing ptr before with
  | zero => exact local_ret inside none
  | succ count ih =>
      refine Local.bind (readByte_local inside spans.head) (fun b => ?_)
      exact Local.ite (fun _ => local_ret inside _) (fun _ => ih spans.tail _)

theorem readUserCstr_local (spans : Spans named ptr count) :
    Local userMemory named stored (readUserCstr ptr count) :=
  Local.ite (fun _ => local_ret inside none) (fun _ => readUserBytes_local inside spans [])

theorem sysOpen_local (spans : Spans named ptr 256) (flags : Int32) :
    Local userMemory named stored (sysOpen ptr flags) := by
  refine Local.ite (fun _ => local_ret inside _) (fun _ => ?_)
  refine Local.bind (readUserCstr_local inside spans) (fun text => ?_)
  cases text with
  | none => exact local_ret inside _
  | some text =>
      dsimp only
      split
      · exact local_ret inside _
      · refine Local.ite (fun _ => local_ret inside _) (fun _ => ?_)
        exact local_of_commutes inside (fun memory => commutes_install memory _)

theorem sysExecve_local (spans : Spans named ptr 256) :
    Local userMemory named stored (sysExecve ptr) := by
  refine Local.ite (fun _ => local_ret inside _) (fun _ => ?_)
  refine Local.bind (readUserCstr_local inside spans) (fun text => ?_)
  cases text with
  | none => exact local_ret inside _
  | some text =>
      refine local_of_commutes inside (fun memory => ?_)
      refine Commutes.bind (commutes_pending memory) (fun _ => ?_)
      refine Commutes.get_bind (fun _ => rfl) (fun k => ?_)
      refine Commutes.bind (Commutes.modify (fun _ => rfl)) (fun _ => ?_)
      split
      · exact Commutes.ret _
      · exact Commutes.ret _

theorem sysWait4_local (spans : Spans stored ptr 4) (pid : Int32) :
    Local userMemory named stored (sysWait4 pid ptr) := by
  refine Local.get_bind (fun _ _ => rfl) (fun k => ?_)
  refine Local.bind (local_of_commutes inside (fun memory => commutes_waitpid memory _ _))
    (fun result => ?_)
  split
  · refine Local.bind (Local.ite (fun _ => local_ret inside ()) (fun _ => ?_))
      (fun _ => local_ret inside _)
    refine Local.ite (fun _ => writeBytes_local inside spans) (fun _ => ?_)
    exact local_of_commutes inside (fun _ => Commutes.fault ptr)
  · exact local_ret inside _

theorem dispatch_local {frame : SyscallFrame} (reads : ∀ a, frame.names a = true → named a = true)
    (writes : ∀ a, frame.fills a = true → stored a = true) :
    Local userMemory named stored (dispatch frame) := by
  have small : frame.rdx.toNat ≤ 2 ^ 64 := Nat.le_of_lt frame.rdx.toNat_lt
  refine Local.ite (fun isRead => ?_) (fun _ => ?_)
  · refine sysRead_local inside (fun i below => writes _ ?_) _
    rw [SyscallFrame.fills, isRead]
    exact within_spans frame.rsi small i below
  refine Local.ite (fun isWrite => ?_) (fun _ => ?_)
  · refine sysWrite_local inside (fun i below => reads _ ?_) _
    rw [SyscallFrame.names, isWrite]
    exact within_spans frame.rsi small i below
  refine Local.ite (fun isOpen => ?_) (fun _ => ?_)
  · refine sysOpen_local inside (fun i below => reads _ ?_) _
    rw [SyscallFrame.names, isOpen]
    exact within_spans frame.rdi (by decide) i below
  refine Local.ite (fun _ => ?_) (fun _ => ?_)
  · exact local_of_commutes inside (fun memory => commutes_sysClose memory _)
  refine Local.ite (fun _ => local_of_commutes inside commutes_sysGetpid) (fun _ => ?_)
  refine Local.ite (fun _ => local_of_commutes inside commutes_sysFork) (fun _ => ?_)
  refine Local.ite (fun isExecve => ?_) (fun _ => ?_)
  · refine sysExecve_local inside (fun i below => reads _ ?_)
    rw [SyscallFrame.names, isExecve]
    exact within_spans frame.rdi (by decide) i below
  refine Local.ite (fun _ => ?_) (fun _ => ?_)
  · exact local_of_commutes inside (fun memory => commutes_sysExit memory _)
  refine Local.ite (fun isWait => ?_) (fun _ => ?_)
  · refine sysWait4_local inside (fun i below => writes _ ?_) _
    rw [SyscallFrame.fills, isWait]
    exact within_spans frame.rsi (by decide) i below
  refine Local.ite (fun _ => ?_) (fun _ => ?_)
  · exact local_of_commutes inside (fun memory => commutes_sysKill memory _ _)
  refine Local.ite (fun _ => local_of_commutes inside commutes_sysGetppid) (fun _ => ?_)
  exact Local.ite (fun _ => local_ret inside 0) (fun _ => local_ret inside _)

theorem calls_local {frames : List SyscallFrame}
    (reads : ∀ frame ∈ frames, ∀ a, frame.names a = true → named a = true)
    (writes : ∀ frame ∈ frames, ∀ a, frame.fills a = true → stored a = true) :
    Local userMemory named stored (calls frames) := by
  induction frames with
  | nil => exact local_ret inside []
  | cons frame frames ih =>
      have first : Local userMemory named stored (dispatch frame) :=
        dispatch_local inside (reads frame List.mem_cons_self) (writes frame List.mem_cons_self)
      refine Local.bind first (fun result => Local.bind (ih ?_ ?_) (fun results => local_ret inside _))
      · exact fun other member => reads other (List.mem_cons_of_mem frame member)
      · exact fun other member => writes other (List.mem_cons_of_mem frame member)

end Local

/-- The addresses that some call of a sequence names. -/
def namedBy (frames : List SyscallFrame) (address : UInt64) : Bool :=
  frames.any (fun frame => frame.names address)

/-- Those that some call of a sequence is to fill. -/
def filledBy (frames : List SyscallFrame) (address : UInt64) : Bool :=
  frames.any (fun frame => frame.fills address)

/-- The calls return the same, or fault at the same address, over every memory that agrees
with the kernel's where they name it, and fill it in the same way. They change nothing that
they are not to fill. -/
structure Confined (frames : List SyscallFrame) : Prop where
  reads : ∀ k memory, (∀ address, namedBy frames address = true → memory address = k.memory address) →
    calls frames (withMemory memory k) =
      (calls frames k).mapState (fun k' => withMemory (fun address =>
        if filledBy frames address then k'.memory address else memory address) k')
  writes : ∀ k k', (calls frames k).state? = some k' → ∀ address, filledBy frames address = false →
    k'.memory address = k.memory address

end Kernel
end ComputeKernel
