import ComputeKernel.Support.Returns
import ComputeKernel.Syscall.Model

/-! What happens to the tables while a system call waits, prints or copies: only
the interrupts that arrive in the meantime change them. -/
namespace ComputeKernel.Kernel
open Checked (Exec Returns Within Finishes)

/-- The ticks among the interrupts of some batches. -/
def ticks (batches : List (List Irq)) : List Procs.Op :=
  List.replicate (batches.flatten.count .timer) .tick

theorem ticks_append (before after : List (List Irq)) :
    ticks (before ++ after) = ticks before ++ ticks after := by
  unfold ticks
  rw [List.flatten_append, List.count_append, List.replicate_add]

/-- The descriptor table is untouched, and the process table is what the interrupts
between the two states made of it. -/
structure Meanwhile (k k' : Kernel) : Prop where
  fds : k'.fdTable = k.fdTable
  procs : ∃ batches, k.arrivals = batches ++ k'.arrivals ∧
    k'.procs = Procs.run k.procs (ticks batches)

instance : Std.Refl Meanwhile where
  refl _ := ⟨rfl, [], rfl, rfl⟩

instance : IsTrans Kernel Meanwhile where
  trans k _ _ first second := by
    obtain ⟨before, arrived, ran⟩ := first.procs
    obtain ⟨after, arrived', ran'⟩ := second.procs
    refine ⟨second.fds.trans first.fds, before ++ after, ?_, ?_⟩
    · rw [arrived, arrived', List.append_assoc]
    · rw [ran', ran, ticks_append]
      exact (Runs.run_append Procs.step k.procs _ _).symm

/-- Code that changes the tables by interrupts only. -/
def Passive (m : Exec Kernel α) : Prop := Within Meanwhile m

/-- An update of anything but the tables and the arrivals. -/
theorem passive_modify {f : Kernel → Kernel} (fds : ∀ k, (f k).fdTable = k.fdTable)
    (procs : ∀ k, (f k).procs = k.procs) (arrivals : ∀ k, (f k).arrivals = k.arrivals) :
    Passive (Exec.modify f) :=
  Within.modify (fun k => ⟨fds k, [], (arrivals k).symm, procs k⟩)

theorem passive_zoom {m : Exec τ α} {view : Kernel → τ} {update : τ → Kernel → Kernel}
    (fds : ∀ t k, (update t k).fdTable = k.fdTable) (procs : ∀ t k, (update t k).procs = k.procs)
    (arrivals : ∀ t k, (update t k).arrivals = k.arrivals) :
    Passive (Exec.zoom view update m) := by
  intro k
  refine Returns.zoom (fun a t _ => ?_)
  exact ⟨fds t k, [], (arrivals t k).symm, procs t k⟩

theorem passive_get_bind {f : Kernel → Exec Kernel α} (next : ∀ k, Passive (f k)) :
    Passive (Exec.get >>= f) := Within.get_bind (fun k => next k k)

theorem passive_onKeyboard (m : Exec Keyboard α) : Passive (onKeyboard m) :=
  passive_zoom (fun _ _ => rfl) (fun _ _ => rfl) (fun _ _ => rfl)

theorem passive_serialPrint (text : List Char) : Passive (serialPrint text) :=
  Within.bind (passive_modify (fun _ => rfl) (fun _ => rfl) (fun _ => rfl))
    (fun _ => Within.ret ())

theorem passive_kprint (bytes : List UInt8) : Passive (kprint bytes) :=
  Within.bind (passive_zoom (fun _ _ => rfl) (fun _ _ => rfl) (fun _ _ => rfl))
    (fun _ => Within.ret ())

/-- The handlers of a batch run the ticks in it, in order. -/
theorem forEach_interrupt (batch : List Irq) (k : Kernel) :
    Returns (Exec.forEach batch interrupt) (fun _ k' => k'.fdTable = k.fdTable ∧
      k'.arrivals = k.arrivals ∧ k'.procs = Procs.run k.procs (ticks [batch])) k := by
  induction batch generalizing k with
  | nil => exact Returns.ret ⟨rfl, rfl, rfl⟩
  | cons irq batch ih =>
      refine Returns.bind ?_
      cases irq with
      | timer =>
          refine Returns.modify (Returns.mono (ih _) ?_)
          rintro _ k' ⟨fds, arrivals, ran⟩
          refine ⟨fds, arrivals, ran.trans ?_⟩
          simp [ticks, List.replicate_succ, Procs.run, Procs.step]
      | scancode byte =>
          refine Returns.modify (Returns.mono (ih _) ?_)
          rintro _ k' ⟨fds, arrivals, ran⟩
          exact ⟨fds, arrivals, ran.trans (by simp [ticks])⟩
      | keyboard =>
          refine Returns.bind (Returns.zoom (fun echo keyboard _ => ?_))
          refine Returns.bind (Returns.modify (Returns.ret (Returns.mono (ih _) ?_)))
          rintro _ k' ⟨fds, arrivals, ran⟩
          exact ⟨fds, arrivals, ran.trans (by simp [ticks])⟩

theorem passive_pending : Passive pending := by
  refine Within.get_bind (fun k => ?_)
  cases arrived : k.arrivals with
  | nil => exact Returns.ret ⟨rfl, [], rfl, rfl⟩
  | cons batch rest =>
      refine Returns.bind (Returns.modify (Returns.mono (forEach_interrupt batch _) ?_))
      rintro _ k' ⟨fds, arrivals, ran⟩
      refine ⟨fds, [batch], ?_, ran⟩
      rw [arrived, arrivals]
      rfl

theorem interrupt_finishes {k : Kernel} (ready : k.keyboard.InRange) (irq : Irq) :
    Finishes (interrupt irq) (fun _ k' => k'.keyboard.InRange) k := by
  cases irq with
  | timer => exact Finishes.modify ready
  | scancode byte => exact Finishes.modify ready
  | keyboard =>
      refine Finishes.bind (Finishes.zoom ?_)
      refine Finishes.mono (Keyboard.handleInterrupt_finishes ready) (fun echo keyboard kept => ?_)
      exact Finishes.bind (Finishes.modify (Finishes.ret kept))

/-- Interrupts are handled whatever the tables hold. -/
theorem pending_inRange {k : Kernel} (ready : k.keyboard.InRange) :
    Finishes pending (fun _ k' => k'.keyboard.InRange) k := by
  refine Finishes.bind (Finishes.get ?_)
  split
  · exact Finishes.ret ready
  · refine Finishes.bind (Finishes.modify ?_)
    exact Finishes.forEach (I := fun k' : Kernel => k'.keyboard.InRange) ready
      (fun irq _ k' kept => interrupt_finishes kept irq)

theorem pending_finishes {k : Kernel} (ready : k.keyboard.InRange) :
    Finishes pending (fun _ k' => Meanwhile k k') k := by
  obtain ⟨_, k', ran, _⟩ := pending_inRange ready
  exact Finishes.of_done ran (passive_pending.done ran)

theorem passive_hlt : Passive hlt := by
  apply passive_get_bind
  intro k
  split
  · exact Within.halt
  · exact passive_pending

theorem passive_readByte (address : UInt64) : Passive (readByte address) := by
  apply passive_get_bind
  intro k
  split
  · exact Within.ret _
  · exact Within.fault address

theorem passive_writeByte (address : UInt64) (byte : UInt8) : Passive (writeByte address byte) := by
  apply passive_get_bind
  intro k
  split
  · exact passive_modify (fun _ => rfl) (fun _ => rfl) (fun _ => rfl)
  · exact Within.fault address

theorem passive_fromRawParts (buf count : UInt64) : Passive (fromRawParts buf count) :=
  Within.ite (fun _ => Within.ret ()) (fun _ => Within.fault buf)

theorem passive_readBytes (count : Nat) (buf : UInt64) : Passive (readBytes buf count) := by
  induction count generalizing buf with
  | zero => exact Within.ret []
  | succ count ih =>
      apply Within.bind (passive_readByte buf)
      intro byte
      exact Within.bind (ih (buf + 1)) (fun bytes => Within.ret _)

theorem passive_writeBytes (bytes : List UInt8) (buf : UInt64) : Passive (writeBytes buf bytes) := by
  induction bytes generalizing buf with
  | nil => exact Within.ret ()
  | cons byte bytes ih => exact Within.bind (passive_writeByte buf byte) (fun _ => ih (buf + 1))

theorem passive_storeAt (buf : UInt64) (len i : Nat) (byte : UInt8) :
    Passive (storeAt buf len i byte) :=
  Within.ite (fun _ => passive_writeByte _ byte) (fun _ => Within.panic _)

theorem passive_pollChar : Passive pollChar := by
  apply passive_get_bind
  intro k
  refine Within.bind ?_ (fun _ => ?_)
  · exact passive_modify (fun _ => rfl) (fun _ => rfl) (fun _ => rfl)
  · exact Within.bind (passive_serialPrint _) (fun _ => Within.ret _)

theorem passive_readChar : Passive readChar := by
  apply Within.bind passive_pending
  intro _
  apply Within.bind (passive_onKeyboard Keyboard.tryReadChar)
  intro byte
  cases byte with
  | some byte => exact Within.ret (some byte)
  | none => exact Within.bind passive_pending (fun _ => passive_pollChar)

theorem passive_readFirst (buf : UInt64) (len fuel : Nat) : Passive (readFirst buf len fuel) := by
  induction fuel with
  | zero => exact Within.halt
  | succ fuel ih =>
      apply Within.bind passive_pending
      intro _
      apply passive_get_bind
      intro k
      refine Within.ite (fun _ => Within.ret false) (fun _ => ?_)
      apply Within.bind passive_readChar
      intro ch
      cases ch with
      | some ch => exact Within.bind (passive_storeAt buf len 0 ch) (fun _ => Within.ret true)
      | none => exact Within.bind passive_hlt (fun _ => ih)

theorem passive_readRest (buf : UInt64) (len room read : Nat) :
    Passive (readRest buf len room read) := by
  induction room generalizing read with
  | zero => exact Within.ret read
  | succ room ih =>
      apply Within.bind passive_readChar
      intro ch
      cases ch with
      | none => exact Within.ret read
      | some ch =>
          apply Within.bind (passive_storeAt buf len read ch)
          intro _
          apply Within.bind (Within.usizeAdd read 1)
          intro read
          exact Within.ite (fun _ => Within.ret read) (fun _ => ih read)

theorem passive_readStdin (buf : UInt64) (len : Nat) : Passive (readStdin buf len) := by
  apply passive_get_bind
  intro k
  apply Within.bind (passive_readFirst buf len _)
  intro alive
  refine Within.ite (fun _ => ?_) (fun _ => Within.ret _)
  exact Within.bind (passive_readRest buf len _ _) (fun read => Within.ret _)

theorem passive_readStatic (buf : UInt64) (len : Nat) (offset : UInt64) (content : List UInt8) :
    Passive (readStatic buf len offset content) := by
  refine Within.ite (fun _ => Within.ret 0) (fun _ => ?_)
  refine Within.bind (fun k => Returns.sliceFrom (fun _ => Std.Refl.refl k)) (fun available => ?_)
  refine Within.bind (fun k => Returns.sliceTo (fun _ => Std.Refl.refl k)) (fun source => ?_)
  refine Within.bind ?_ (fun _ => Within.ret _)
  exact Within.ite (fun _ => passive_writeBytes source buf) (fun _ => Within.panic _)

theorem passive_readNode (file : OpenFile) (buf : UInt64) (len : Nat) :
    Passive (readNode file buf len) := by
  unfold readNode
  cases file.node with
  | procVersion => exact passive_readStatic buf len _ _
  | procUptime => exact passive_get_bind (fun k => passive_readStatic buf len _ _)
  | procMeminfo => exact passive_readStatic buf len _ _
  | sysHostname => exact passive_readStatic buf len _ _
  | devNull => exact Within.ret 0
  | devZero => exact Within.bind (passive_writeBytes _ buf) (fun _ => Within.ret len)
  | devFull => exact Within.bind (passive_writeBytes _ buf) (fun _ => Within.ret len)
  | devTtyS0 => exact Within.ret 0

theorem passive_lookup (fd : Int32) : Passive (lookup fd) := by
  apply Within.bind (Within.usizeSub _ 3)
  intro idx
  apply passive_get_bind
  intro k
  split
  · exact Within.ret _
  · exact Within.ret none

theorem passive_writeConsole (buf count : UInt64) : Passive (writeConsole buf count) := by
  apply Within.bind (passive_fromRawParts buf count)
  intro _
  apply Within.bind (passive_readBytes _ buf)
  intro bytes
  split
  · refine Within.bind (passive_serialPrint _) (fun _ => ?_)
    exact Within.bind (passive_kprint bytes) (fun _ => Within.ret _)
  · exact Within.ret _

theorem passive_writeNode (node : PseudoNode) (buf count : UInt64) :
    Passive (writeNode node buf count) := by
  unfold writeNode
  split
  · exact Within.ret _
  · exact Within.ret _
  · exact Within.ret _
  · refine Within.bind (passive_readBytes _ buf) (fun bytes => ?_)
    exact Within.bind (Within.forEach (fun byte => passive_serialPrint _)) (fun _ => Within.ret _)
  · exact Within.ret _

end ComputeKernel.Kernel
