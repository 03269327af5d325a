import ComputeKernel.Process.Steps
import ComputeKernel.Drivers.Screen
import ComputeKernel.Syscall.Model

/-! The handlers of the system calls pass all of their checks but one, and change the
process table by the operations of the process subsystem only. The one that may fail
is the subtraction in `fd as usize - 3`, which `sys_read` reaches with descriptors 1
and 2 and `sys_write` with descriptor 0. -/
namespace ComputeKernel
open Checked (Exec Meets)

namespace Procs

variable {s : Procs}

/-! The checked sections of the process subsystem do what its model says. -/

theorem remove_eq {idx : Nat} (inside : idx < s.table.length) :
    Kernel.remove idx s = .done () { s with table := s.table.eraseIdx idx } := by
  unfold Kernel.remove
  rw [Exec.get_bind, if_pos inside]
  rfl

theorem waitSection_eq (target : Option UInt32) :
    Kernel.waitSection target s = .done (s.waitpid target).1 (s.waitpid target).2 := by
  unfold Kernel.waitSection waitpid
  rw [Exec.get_bind]
  cases child : s.table.any (s.isChild target) with
  | false => simp
  | true =>
      cases taken : s.zombieChild target with
      | none => simp
      | some entry =>
          obtain ⟨p, idx⟩ := entry
          have there := (zombieChild_spec taken).1
          have found : (Exec.index s.table idx : Exec Procs Process) s = .done p s := by
            simp [Exec.index, there]
          simp only [if_true]
          rw [Exec.bind_of_done found,
            Exec.bind_of_done (remove_eq (List.getElem?_eq_some_iff.mp there).1), Exec.ret_run]

theorem killSection_eq (pid : UInt32) {sig : UInt8} (valid : ¬sig > 31) :
    Kernel.killSection pid sig s = .done (s.kill pid sig).1 (s.kill pid sig).2 := by
  unfold Kernel.killSection kill
  rw [Exec.get_bind, if_neg valid]
  cases s.table.find? (fun p => p.pid == pid) with
  | none => rfl
  | some p =>
      by_cases probing : sig = 0
      · simp [probing]
      · have shifted : Kernel.shiftOne sig s = .done (1 <<< sig.toUInt32) s := by
          have small : sig < 32 := by
            rw [gt_iff_lt, UInt8.lt_iff_toNat_lt] at valid
            rw [UInt8.lt_iff_toNat_lt]
            simp only [UInt8.reduceToNat] at valid ⊢
            omega
          rw [Kernel.shiftOne, if_pos small, Exec.ret_run]
        simp only [ne_eq, probing, not_false_eq_true, if_true, bne_iff_ne]
        rw [Exec.bind_of_done shifted, Exec.modify_bind, Exec.ret_run]

/-- The scan, from any list of offsets. -/
theorem probe_eq {start : Nat} {offsets : List Nat} (nonempty : s.table.length ≠ 0)
    (fits : ∀ i ∈ offsets, start + i < 2 ^ 64) :
    Kernel.probe start offsets s = .done ()
      { s with
        currentPid := (offsets.findSome? (fun i =>
          (s.table[(start + i) % s.table.length]?).bind (fun p =>
            if p.runnable then some p.pid else none))).getD s.currentPid } := by
  induction offsets with
  | nil => rfl
  | cons i offsets ih =>
      have rest := ih (fun j member => fits j (List.mem_cons_of_mem i member))
      have summed : (Exec.usizeAdd start i : Exec Procs Nat) s = .done (start + i) s := by
        rw [Exec.usizeAdd, if_pos (fits i List.mem_cons_self), Exec.ret_run]
      have inside := Nat.mod_lt (start + i) (Nat.pos_of_ne_zero nonempty)
      have there := List.getElem?_eq_getElem inside
      have found : (Exec.index s.table ((start + i) % s.table.length) : Exec Procs Process) s =
          .done s.table[(start + i) % s.table.length] s := by
        simp [Exec.index, there]
      rw [Kernel.probe, Exec.get_bind, Exec.bind_of_done summed, Exec.bind_of_done found,
        List.findSome?_cons, there, Option.bind_some]
      cases s.table[(start + i) % s.table.length].runnable with
      | false => simpa using rest
      | true => rfl

theorem scanStart_lt (nonempty : s.table.length ≠ 0) : s.scanStart < s.table.length := by
  unfold scanStart
  cases found : s.table.findIdx? (fun p => p.pid == s.currentPid) with
  | none => exact Nat.pos_of_ne_zero nonempty
  | some start => exact (List.findIdx?_eq_some_iff_findIdx_eq.mp found).1

/-- The sums of the scan stay small, since the table fits in memory. -/
theorem probe_schedule (nonempty : s.table.length ≠ 0)
    (small : s.table.length < processCapacity) :
    Kernel.probe s.scanStart (List.range' 1 s.table.length) s = .done () s.schedule := by
  have started := scanStart_lt nonempty
  unfold processCapacity at small
  have fits : ∀ i ∈ List.range' 1 s.table.length, s.scanStart + i < 2 ^ 64 := by
    intro i member
    rw [List.mem_range'_1] at member
    omega
  rw [probe_eq nonempty fits]
  unfold schedule
  rw [if_neg nonempty]
  change Checked.Outcome.done () { s with
    currentPid := (scan s.table s.scanStart).getD s.currentPid } = _
  cases scan s.table s.scanStart with
  | none => rfl
  | some pid => rfl

end Procs

/-- `fd as usize` extends the sign: a negative descriptor becomes a number near `2 ^ 64`. -/
theorem asUsize_eq (fd : Int32) :
    (asUsize fd : Int) = if fd.toInt < 0 then fd.toInt + 2 ^ 64 else fd.toInt := by
  have value : fd.toInt = fd.toInt64.toUInt64.toBitVec.toInt := by
    rw [Int64.toBitVec_toUInt64, Int64.toInt_toBitVec, Int32.toInt_toInt64]
  have bound := fd.toInt64.toUInt64.toBitVec.isLt
  rw [BitVec.toInt_eq_toNat_cond, UInt64.toNat_toBitVec] at value
  rw [UInt64.toNat_toBitVec] at bound
  unfold asUsize
  split at value <;> split <;> omega

/-- `fd as usize - 3` goes below zero for the standard descriptors only. -/
theorem asUsize_lt_three (fd : Int32) : asUsize fd < 3 ↔ fd = 0 ∨ fd = 1 ∨ fd = 2 := by
  have value := asUsize_eq fd
  have above := Int32.le_toInt fd
  rw [← Int32.toInt_inj, ← Int32.toInt_inj, ← Int32.toInt_inj, Int32.toInt_zero, Int32.toInt_one,
    show (2 : Int32).toInt = 2 from rfl]
  split at value <;> omega

theorem Errno.code_neg (errno : Errno) : errno.code < 0 := by
  cases errno <;> decide

theorem asI64_of_lt {value : Nat} (small : value < 2 ^ 63) : asI64 value = value :=
  Int64.toInt_ofNat_of_lt small

namespace Kernel

/-- What the checks of the drivers and of the tables rest on. The process table is
one that the process subsystem reaches from boot. -/
structure Valid (k : Kernel) : Prop where
  keyboard : k.keyboard.InRange
  screen : k.screen.OnScreen
  fds : k.fdTable.length < fdCapacity
  procs : k.procs.table.length < processCapacity
  history : ∃ ops, k.procs = Procs.run Procs.boot ops

/-- The code does not panic and keeps the kernel valid. -/
def Safe (m : Exec Kernel α) : Prop := ∀ k : Kernel, k.Valid → Meets Valid m (fun _ _ => True) k

variable {k : Kernel}

theorem safe_ret (a : α) : Safe (Exec.ret a) := fun _ valid => Meets.ret valid trivial

theorem Safe.bind {m : Exec Kernel α} {f : α → Exec Kernel β} (first : Safe m)
    (next : ∀ a, Safe (f a)) : Safe (m >>= f) := by
  intro k valid
  exact Meets.andThen (first k valid) (fun a k valid _ => next a k valid)

theorem Safe.ite {c : Prop} [Decidable c] {m n : Exec Kernel α} (yes : c → Safe m)
    (no : ¬c → Safe n) : Safe (if c then m else n) := by
  split
  · next holds => exact yes holds
  · next fails => exact no fails

theorem safe_get_bind {f : Kernel → Exec Kernel α}
    (next : ∀ k, k.Valid → Meets Valid (f k) (fun _ _ => True) k) : Safe (Exec.get >>= f) := by
  intro k valid
  exact Meets.bind (Meets.get valid (next k valid))

theorem safe_modify {f : Kernel → Kernel} (keeps : ∀ k, k.Valid → (f k).Valid) :
    Safe (Exec.modify f) := fun k valid => Meets.modify (keeps k valid) trivial

theorem safe_halt : Safe (Exec.halt : Exec Kernel α) := fun _ valid => Meets.halt valid

theorem safe_fault (address : UInt64) : Safe (Exec.fault address : Exec Kernel α) :=
  fun _ _ => Meets.fault address

theorem Safe.forEach {items : List ι} {body : ι → Exec Kernel Unit}
    (each : ∀ item ∈ items, Safe (body item)) : Safe (Exec.forEach items body) :=
  fun _ valid => Meets.forEach valid each

theorem serialPrint_meets (valid : k.Valid) (text : List Char) :
    Meets Valid (serialPrint text) (fun _ k' => k'.procs = k.procs) k := by
  have printed : Valid { k with serial := k.serial ++ text } := { valid with }
  exact Meets.bind (Meets.modify printed (Meets.ret printed rfl))

theorem safe_serialPrint (text : List Char) : Safe (serialPrint text) :=
  fun _ valid => Meets.mono (serialPrint_meets valid text) (fun _ _ _ _ => trivial)

theorem safe_kprint (bytes : List UInt8) : Safe (kprint bytes) := by
  refine Safe.bind ?_ (fun _ => safe_ret ())
  intro k valid
  have written := (Vga.Writer.writeString_keeps bytes _ valid.screen).meets (fun _ _ onScreen => onScreen)
  refine Meets.zoom written ?_ (fun _ _ _ _ => trivial)
  intro screen onScreen
  exact { valid with screen := onScreen }

theorem safe_onKeyboard {m : Exec Keyboard α}
    (inner : ∀ kb, kb.InRange → Meets Keyboard.InRange m (fun _ _ => True) kb) :
    Safe (onKeyboard m) := by
  intro k valid
  refine Meets.zoom (inner _ valid.keyboard) ?_ (fun _ _ _ _ => trivial)
  intro keyboard inRange
  exact { valid with keyboard := inRange }

theorem Valid.stepTo (valid : k.Valid) (op : Procs.Op)
    (bounded : (k.procs.step op).table.length < processCapacity) :
    Valid { k with procs := k.procs.step op } := by
  obtain ⟨ops, reached⟩ := valid.history
  have extended : k.procs.step op = Procs.run Procs.boot (ops ++ [op]) := by
    unfold Procs.run at reached ⊢
    rw [Runs.run_append, ← reached]
    rfl
  exact { valid with procs := bounded, history := ⟨ops ++ [op], extended⟩ }

/-- An operation of the process subsystem other than `fork` adds no entry. -/
theorem Valid.step (valid : k.Valid) {op : Procs.Op} (notFork : op ≠ .fork) :
    Valid { k with procs := k.procs.step op } :=
  valid.stepTo op (Nat.lt_of_le_of_lt (Procs.step_length_le notFork) valid.procs)

theorem safe_step {op : Procs.Op} (notFork : op ≠ .fork) :
    Safe (Exec.modify (fun k : Kernel => { k with procs := k.procs.step op })) :=
  safe_modify (fun _ valid => valid.step notFork)

/-- Checked code that computes an operation of the process subsystem. -/
theorem safe_onProcs_step {m : Exec Procs α} {result : Procs → α} {op : Procs.Op}
    (notFork : op ≠ .fork) (computes : ∀ s, m s = .done (result s) (s.step op)) :
    Safe (onProcs m) := by
  intro k valid
  have ran : onProcs m k = .done (result k.procs) { k with procs := k.procs.step op } := by
    simp only [onProcs, Exec.zoom, computes]
  exact Meets.of_done ran (valid.step notFork) trivial

theorem safe_interrupt (irq : Irq) : Safe (interrupt irq) := by
  cases irq with
  | timer => exact safe_step (nofun : Procs.Op.tick ≠ .fork)
  | scancode byte =>
      refine safe_modify (fun k valid => ?_)
      exact { valid with }
  | keyboard =>
      refine Safe.bind (safe_onKeyboard (fun _ inRange => ?_)) safe_serialPrint
      exact Keyboard.handleInterrupt_meets inRange

theorem safe_pending : Safe pending := by
  refine safe_get_bind (fun k valid => ?_)
  split
  · exact safe_ret () k valid
  · refine Safe.bind (safe_modify ?_) (fun _ => ?_) k valid
    · intro k valid
      exact { valid with }
    · exact Safe.forEach (fun irq _ => safe_interrupt irq)

theorem safe_hlt : Safe hlt := by
  refine safe_get_bind (fun k valid => ?_)
  split
  · exact safe_halt k valid
  · exact safe_pending k valid

theorem safe_readByte (address : UInt64) : Safe (readByte address) := by
  refine safe_get_bind (fun k valid => ?_)
  split
  · exact safe_ret _ k valid
  · exact safe_fault address k valid

theorem safe_writeByte (address : UInt64) (byte : UInt8) : Safe (writeByte address byte) := by
  refine safe_get_bind (fun k valid => ?_)
  split
  · refine safe_modify (fun k valid => ?_) k valid
    exact { valid with }
  · exact safe_fault address k valid

theorem safe_readBytes (count : Nat) (buf : UInt64) : Safe (readBytes buf count) := by
  induction count generalizing buf with
  | zero => exact safe_ret []
  | succ count ih =>
      refine Safe.bind (safe_readByte buf) (fun byte => ?_)
      exact Safe.bind (ih (buf + 1)) (fun bytes => safe_ret _)

theorem safe_writeBytes (bytes : List UInt8) (buf : UInt64) : Safe (writeBytes buf bytes) := by
  induction bytes generalizing buf with
  | nil => exact safe_ret ()
  | cons byte bytes ih => exact Safe.bind (safe_writeByte buf byte) (fun _ => ih (buf + 1))

/-- What follows a slice of user memory may use the bound on its length. -/
theorem safe_fromRawParts_bind {buf count : UInt64} {next : Unit → Exec Kernel α}
    (rest : count.toNat < 2 ^ 63 → Safe (next ())) : Safe (fromRawParts buf count >>= next) := by
  unfold fromRawParts
  split
  · next small => exact Safe.bind (safe_ret ()) (fun _ => rest small)
  · exact fun _ _ => Meets.bind (Meets.fault buf)

theorem safe_storeAt {len i : Nat} (inside : i < len) (buf : UInt64) (byte : UInt8) :
    Safe (storeAt buf len i byte) := by
  unfold storeAt
  rw [if_pos inside]
  exact safe_writeByte _ byte

theorem safe_copyFromSlice {len n : Nat} {source : List UInt8} (inside : n ≤ len)
    (whole : source.length = n) (buf : UInt64) : Safe (copyFromSlice buf len n source) := by
  unfold copyFromSlice
  rw [if_pos ⟨inside, whole⟩]
  exact safe_writeBytes source buf

theorem safe_pollChar : Safe pollChar := by
  refine safe_get_bind (fun k valid => ?_)
  have kept : k.keyboard.pollChar.2.InRange := by
    unfold Keyboard.InRange
    rw [Keyboard.pollChar_buffer]
    exact valid.keyboard
  refine Safe.bind (safe_modify (fun k valid => ?_)) (fun _ => ?_) k valid
  · exact { valid with keyboard := kept }
  · exact Safe.bind (safe_serialPrint _) (fun _ => safe_ret _)

theorem safe_readChar : Safe readChar := by
  refine Safe.bind safe_pending (fun _ => ?_)
  refine Safe.bind (safe_onKeyboard (fun _ inRange => Keyboard.tryReadChar_meets inRange)) ?_
  intro byte
  cases byte with
  | some byte => exact safe_ret (some byte)
  | none => exact Safe.bind safe_pending (fun _ => safe_pollChar)

theorem safe_readFirst {len : Nat} (nonempty : 0 < len) (buf : UInt64) (fuel : Nat) :
    Safe (readFirst buf len fuel) := by
  induction fuel with
  | zero => exact safe_halt
  | succ fuel ih =>
      refine Safe.bind safe_pending (fun _ => safe_get_bind (fun k valid => ?_))
      split
      · exact safe_ret false k valid
      · refine Safe.bind safe_readChar (fun ch => ?_) k valid
        cases ch with
        | some ch => exact Safe.bind (safe_storeAt nonempty buf ch) (fun _ => safe_ret true)
        | none => exact Safe.bind safe_hlt (fun _ => ih)

/-- The second loop stays in the slice: `read` and the room left never exceed it. -/
theorem safe_readRest {len : Nat} (small : len < 2 ^ 64) (buf : UInt64) {room read : Nat}
    (fits : read + room ≤ len) : Safe (readRest buf len room read) := by
  induction room generalizing read with
  | zero => exact safe_ret read
  | succ room ih =>
      refine Safe.bind safe_readChar (fun ch => ?_)
      cases ch with
      | none => exact safe_ret read
      | some ch =>
          refine Safe.bind (safe_storeAt (by omega) buf ch) (fun _ k valid => ?_)
          refine Meets.bind (Meets.usizeAdd (by omega) valid ?_)
          split
          · exact safe_ret (read + 1) k valid
          · exact ih (by omega) k valid

theorem safe_readStdin {len : Nat} (nonempty : 0 < len) (small : len < 2 ^ 64) (buf : UInt64) :
    Safe (readStdin buf len) := by
  refine safe_get_bind (fun k valid => ?_)
  refine Safe.bind (safe_readFirst nonempty buf _) (fun alive => ?_) k valid
  split
  · exact Safe.bind (safe_readRest small buf (by omega)) (fun read => safe_ret _)
  · exact safe_ret _

theorem safe_readStatic (buf : UInt64) (len : Nat) (offset : UInt64) (content : List UInt8) :
    Safe (readStatic buf len offset content) := by
  unfold readStatic
  split
  · exact safe_ret 0
  · next inside =>
      intro k valid
      refine Meets.bind (Meets.sliceFrom (by omega) valid ?_)
      have bounded := Nat.min_le_left (content.drop offset.toNat).length len
      refine Meets.bind (Meets.sliceTo bounded valid ?_)
      refine Safe.bind (safe_copyFromSlice ?_ ?_ buf) (fun _ => safe_ret _) k valid
      · exact Nat.min_le_right _ len
      · rw [List.length_take, Nat.min_eq_left bounded]

theorem safe_readNode (file : OpenFile) (buf : UInt64) (len : Nat) :
    Safe (readNode file buf len) := by
  unfold readNode
  cases file.node with
  | procVersion => exact safe_readStatic buf len _ _
  | procUptime => exact safe_get_bind (fun k valid => safe_readStatic buf len _ _ k valid)
  | procMeminfo => exact safe_readStatic buf len _ _
  | sysHostname => exact safe_readStatic buf len _ _
  | devNull => exact safe_ret 0
  | devZero => exact Safe.bind (safe_writeBytes _ buf) (fun _ => safe_ret len)
  | devFull => exact Safe.bind (safe_writeBytes _ buf) (fun _ => safe_ret len)
  | devTtyS0 => exact safe_ret 0

theorem safe_lookup {fd : Int32} (file : 3 ≤ asUsize fd) : Safe (lookup fd) := by
  intro k valid
  refine Meets.bind (Meets.usizeSub file valid ?_)
  refine safe_get_bind (fun k valid => ?_) k valid
  split
  · exact safe_ret _ k valid
  · exact safe_ret none k valid

theorem safe_setFd (idx : Nat) (slot : Option OpenFile) :
    Safe (Exec.modify (fun k : Kernel => { k with fdTable := k.fdTable.set idx slot })) := by
  refine safe_modify (fun k valid => ?_)
  have bounded : (k.fdTable.set idx slot).length < fdCapacity := by
    rw [List.length_set]
    exact valid.fds
  exact { valid with fds := bounded }

/-- `sys_read` and `sys_write` get past their checks of the buffer. -/
def Transfers (buf count : UInt64) : Prop := count ≠ 0 ∧ buf ≠ 0 ∧ count.toNat < 2 ^ 63

theorem safe_sysRead {fd : Int32} {buf count : UInt64}
    (proper : Transfers buf count → ¬(fd = 1 ∨ fd = 2)) : Safe (sysRead fd buf count) := by
  unfold sysRead
  split
  · exact safe_ret 0
  split
  · exact safe_ret _
  next nonzero nonnull =>
  refine safe_fromRawParts_bind (fun small => ?_)
  split
  · refine safe_readStdin ?_ (Nat.lt_trans small (by decide)) buf
    rw [Nat.pos_iff_ne_zero]
    intro zero
    exact nonzero (UInt64.toNat_inj.mp zero)
  · next notInput =>
      have file : 3 ≤ asUsize fd := by
        rw [← Nat.not_lt, asUsize_lt_three]
        exact not_or.mpr ⟨notInput, proper ⟨nonzero, nonnull, small⟩⟩
      refine Safe.bind (safe_lookup file) (fun slot => ?_)
      split
      · exact safe_ret _
      · refine Safe.bind (safe_readNode _ buf _) (fun n => ?_)
        exact Safe.bind (safe_setFd _ _) (fun _ => safe_ret _)

theorem safe_writeConsole (buf count : UInt64) : Safe (writeConsole buf count) := by
  refine safe_fromRawParts_bind (fun _ => ?_)
  refine Safe.bind (safe_readBytes _ buf) (fun bytes => ?_)
  split
  · refine Safe.bind (safe_serialPrint _) (fun _ => ?_)
    exact Safe.bind (safe_kprint bytes) (fun _ => safe_ret _)
  · exact safe_ret _

theorem safe_writeNode (node : PseudoNode) (buf count : UInt64) :
    Safe (writeNode node buf count) := by
  unfold writeNode
  split
  · exact safe_ret _
  · exact safe_ret _
  · exact safe_ret _
  · refine Safe.bind (safe_readBytes _ buf) (fun bytes => ?_)
    refine Safe.bind (Safe.forEach (fun byte _ => ?_)) (fun _ => safe_ret _)
    exact safe_serialPrint _
  · exact safe_ret _

theorem safe_sysWrite {fd : Int32} {buf count : UInt64}
    (proper : Transfers buf count → fd ≠ 0) : Safe (sysWrite fd buf count) := by
  unfold sysWrite
  split
  · exact safe_ret 0
  split
  · exact safe_ret _
  split
  · exact safe_writeConsole buf count
  next nonzero nonnull notConsole =>
  refine safe_fromRawParts_bind (fun small => ?_)
  have file : 3 ≤ asUsize fd := by
    rw [← Nat.not_lt, asUsize_lt_three]
    exact not_or.mpr ⟨proper ⟨nonzero, nonnull, small⟩, notConsole⟩
  refine Safe.bind (safe_lookup file) (fun slot => ?_)
  split
  · exact safe_ret _
  · exact safe_writeNode _ buf count

theorem safe_readUserBytes (left : Nat) (ptr : UInt64) (bytes : List UInt8) :
    Safe (readUserBytes left ptr bytes) := by
  induction left generalizing ptr bytes with
  | zero => exact safe_ret none
  | succ left ih =>
      refine Safe.bind (safe_readByte ptr) (fun b => ?_)
      split
      · exact safe_ret _
      · exact ih (ptr + 1) (bytes ++ [b])

theorem safe_readUserCstr (ptr : UInt64) (maxLen : Nat) : Safe (readUserCstr ptr maxLen) := by
  unfold readUserCstr
  split
  · exact safe_ret none
  · exact safe_readUserBytes maxLen ptr []

/-- The new descriptor fits in an `i64`, since the table fits in memory. -/
theorem safe_install (file : OpenFile) : Safe (install file) := by
  refine safe_get_bind (fun k valid => ?_)
  split
  · next idx found =>
      have inside := (List.findIdx?_eq_some_iff_findIdx_eq.mp found).1
      have bounded := Nat.lt_trans inside valid.fds
      unfold fdCapacity at bounded
      refine Safe.bind (safe_setFd idx (some file)) (fun _ k valid => ?_) k valid
      rw [asI64_of_lt (by omega)]
      exact Meets.i64Add (by omega) (by omega) valid trivial
  · split
    · next room =>
        have grown : Valid { k with fdTable := k.fdTable ++ [some file] } := by
          refine { valid with fds := ?_ }
          rw [List.length_append]
          exact room
        unfold fdCapacity at room
        refine Meets.bind (Meets.modify grown ?_)
        rw [asI64_of_lt (by omega)]
        refine Meets.bind (Meets.i64Add (by omega) (by omega) grown ?_)
        exact Meets.i64Add (by omega) (by omega) grown trivial
    · exact Meets.exhaust

theorem safe_sysOpen (path : UInt64) (flags : Int32) : Safe (sysOpen path flags) := by
  unfold sysOpen
  split
  · exact safe_ret _
  refine Safe.bind (safe_readUserCstr path 256) (fun text => ?_)
  split
  · exact safe_ret _
  split
  · exact safe_ret _
  split
  · exact safe_ret _
  · exact safe_install _

theorem safe_sysClose (fd : Int32) : Safe (sysClose fd) := by
  unfold sysClose
  split
  · exact safe_ret 0
  next notStandard =>
  have file : 3 ≤ asUsize fd := by
    rw [← Nat.not_lt, asUsize_lt_three]
    rintro (rfl | rfl | rfl) <;> exact notStandard (by decide)
  refine Safe.bind (safe_lookup file) (fun slot => ?_)
  split
  · exact safe_ret _
  · exact Safe.bind (safe_setFd _ none) (fun _ => safe_ret 0)

theorem safe_sysGetpid : Safe sysGetpid :=
  Safe.bind safe_pending (fun _ => safe_get_bind (fun k valid => safe_ret _ k valid))

theorem safe_sysGetppid : Safe sysGetppid := by
  refine Safe.bind safe_pending (fun _ => safe_get_bind (fun k valid => ?_))
  split
  · exact safe_ret _ k valid
  · exact safe_ret _ k valid

theorem safe_sysFork : Safe sysFork := by
  refine Safe.bind safe_pending (fun _ => safe_get_bind (fun k valid => ?_))
  split
  · next room =>
      have grown : Valid { k with procs := k.procs.fork.2 } := valid.stepTo .fork room
      refine Meets.bind (Meets.modify grown ?_)
      split
      · exact safe_ret _ _ grown
      · exact safe_ret _ _ grown
  · exact Meets.exhaust

theorem safe_sysExecve (path : UInt64) : Safe (sysExecve path) := by
  unfold sysExecve
  split
  · exact safe_ret _
  refine Safe.bind (safe_readUserCstr path 256) (fun text => ?_)
  split
  · exact safe_ret _
  next text =>
  refine Safe.bind safe_pending (fun _ => safe_get_bind (fun k valid => ?_))
  refine Safe.bind (safe_step (nofun : Procs.Op.execve text ≠ .fork)) (fun _ => ?_) k valid
  split
  · exact safe_ret 0
  · exact safe_ret _

theorem safe_sysKill (pid : UInt32) (sig : UInt8) : Safe (sysKill pid sig) := by
  refine Safe.bind ?_ (fun result => ?_)
  · unfold kill
    split
    · exact safe_ret _
    next valid =>
    refine Safe.bind safe_pending (fun _ => ?_)
    exact safe_onProcs_step (nofun : Procs.Op.kill pid sig ≠ .fork)
      (fun s => Procs.killSection_eq pid valid)
  · split
    · exact safe_ret 0
    · exact safe_ret _

theorem onProcs_probe_meets (valid : k.Valid) (nonempty : k.procs.table.length ≠ 0) :
    Meets Valid (onProcs (probe k.procs.scanStart (List.range' 1 k.procs.table.length)))
      (fun _ _ => True) k := by
  have ran : onProcs (probe k.procs.scanStart (List.range' 1 k.procs.table.length)) k =
      .done () { k with procs := k.procs.step .forceSchedule } := by
    simp only [onProcs, Exec.zoom, Procs.probe_schedule nonempty valid.procs]
    rfl
  exact Meets.of_done ran (valid.step nofun) trivial

theorem safe_forceSchedule : Safe forceSchedule := by
  refine Safe.bind safe_pending (fun _ => safe_get_bind (fun k valid => ?_))
  by_cases empty : k.procs.table.length = 0
  · have scheduled : k.procs.step .forceSchedule = { k.procs with currentPid := 0 } := if_pos empty
    have kept : Valid { k with procs := { k.procs with currentPid := 0 } } := by
      rw [← scheduled]
      exact valid.step nofun
    simp only [if_pos empty]
    exact Meets.modify kept trivial
  · simp only [if_neg empty]
    split
    · next start found =>
        have here : k.procs.scanStart = start := by
          rw [Procs.scanStart, found, Option.getD_some]
        have probed := onProcs_probe_meets valid empty
        rw [here] at probed
        exact probed
    · next missing =>
        apply Meets.andThen (serialPrint_meets valid _)
        intro _ k' valid' same
        have here : k'.procs.scanStart = 0 := by
          rw [same, Procs.scanStart, missing, Option.getD_none]
        have probed := onProcs_probe_meets valid' (same ▸ empty)
        rw [here, same] at probed
        exact probed

theorem safe_sysExit (code : Int32) : Safe (sysExit code) := by
  apply Safe.bind safe_pending
  intro _
  apply Safe.bind (safe_step (nofun : Procs.Op.exitSection code ≠ .fork))
  intro _
  apply Safe.bind safe_pending
  intro _
  apply safe_get_bind
  intro k valid
  apply Safe.bind (safe_serialPrint _) _ k valid
  intro _
  exact Safe.bind safe_forceSchedule (fun _ => safe_halt)

theorem safe_waitpid (target : Option UInt32) (fuel : Nat) : Safe (waitpid target fuel) := by
  induction fuel with
  | zero => exact safe_halt
  | succ fuel ih =>
      refine Safe.bind safe_pending (fun _ => Safe.bind ?_ (fun result => ?_))
      · exact safe_onProcs_step (nofun : Procs.Op.waitpid target ≠ .fork)
          (fun s => Procs.waitSection_eq target)
      · split
        · exact safe_ret _
        · exact safe_ret _
        · exact Safe.bind safe_hlt (fun _ => ih)

theorem safe_writeStatus (status : UInt64) (code : Int32) : Safe (writeStatus status code) := by
  unfold writeStatus
  split
  · exact safe_ret ()
  unfold writeWord
  split
  · exact safe_writeBytes _ status
  · exact safe_fault status

theorem safe_sysWait4 (pid : Int32) (status : UInt64) : Safe (sysWait4 pid status) := by
  refine safe_get_bind (fun k valid => ?_)
  refine Safe.bind (safe_waitpid _ _) (fun result => ?_) k valid
  split
  · exact Safe.bind (safe_writeStatus status _) (fun _ => safe_ret _)
  · exact safe_ret _

end Kernel
end ComputeKernel
