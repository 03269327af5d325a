import Mathlib.Data.List.Induction
import ComputeKernel.Syscall.PseudoFiles

/-! The life of a descriptor: which `sys_open` gave it out, and what that call asked for.
The flags are checked when a file is opened and then forgotten. -/
namespace ComputeKernel.Kernel
open Checked (Exec Returns)

/-- The calls one after another from the empty table. Between two calls the kernel may do
anything that leaves the descriptor table alone. -/
inductive Ran : List FdEvent → List (Option OpenFile) → Prop
  | nil : Ran [] []
  | snoc {events event} (earlier : Ran events event.before.fdTable)
      (ran : event.call.exec event.before = .done event.result event.after) :
      Ran (events ++ [event]) event.after.fdTable

/-- The call gave out the descriptor. -/
def FdEvent.opens (d : Int) (event : FdEvent) : Bool :=
  match event.call with
  | .open_ _ _ => event.result == d
  | _ => false

/-- The last call that gave out the descriptor. -/
def opener (events : List FdEvent) (d : Int) : Option FdEvent := events.reverse.find? (FdEvent.opens d)

/-- The call that gave out the descriptor had flags like these. -/
def Granted (earlier : List FdEvent) (d : Int) (access : Int32 → Prop) : Prop :=
  ∃ opening path flags, opener earlier d = some opening ∧ opening.call = .open_ path flags ∧ access flags

/-- A write that succeeds has been opened for writing, and a read that delivers something
has not been opened for writing alone. -/
def Lawful (earlier : List FdEvent) (event : FdEvent) : Prop :=
  match event.call with
  | .write fd _ count => 3 ≤ fd.toInt → count ≠ 0 → 0 < event.result →
      Granted earlier fd.toInt (fun flags => writeRequested flags = true)
  | .read fd _ _ => 3 ≤ fd.toInt → 0 < event.result →
      Granted earlier fd.toInt (fun flags => flags &&& oAccmode ≠ oWronly)
  | _ => True

/-- The nodes that deliver zeros without end. -/
def endless (node : PseudoNode) : Bool := node == .devZero || node == .devFull

/-- Writes to a node that accepts them, and reads of a node without end, are made only
through descriptors that were opened for it. -/
def Suited (earlier : List FdEvent) (event : FdEvent) : Prop :=
  match event.call with
  | .write fd buf count => buf ≠ 0 → count ≠ 0 →
      ∀ file, descriptors event.before.fdTable fd.toInt = some file → refusesWrites file.node = false →
        Granted earlier fd.toInt (fun flags => writeRequested flags = true)
  | .read fd buf count => buf ≠ 0 → count ≠ 0 →
      ∀ file, descriptors event.before.fdTable fd.toInt = some file → endless file.node = true →
        Granted earlier fd.toInt (fun flags => flags &&& oAccmode ≠ oWronly)
  | _ => True

/-- Every event of a run is related to those before it. -/
def Throughout (law : List FdEvent → FdEvent → Prop) (events : List FdEvent) : Prop :=
  ∀ earlier event later, events = earlier ++ event :: later → law earlier event

variable {k k' : Kernel} {call : FdCall} {result d : Int} {events : List FdEvent}
  {table : List (Option OpenFile)}

theorem opener_snoc (event : FdEvent) :
    opener (events ++ [event]) d = if event.opens d then some event else opener events d := by
  unfold opener
  rw [List.reverse_append, List.reverse_singleton, List.singleton_append, List.find?_cons]
  cases event.opens d with
  | true => rfl
  | false => rfl

theorem throughout_nil (law : List FdEvent → FdEvent → Prop) : Throughout law [] := by
  intro earlier event later split
  simp at split

theorem throughout_snoc {law : List FdEvent → FdEvent → Prop} {event : FdEvent} :
    Throughout law (events ++ [event]) ↔ Throughout law events ∧ law events event := by
  constructor
  · intro all
    refine ⟨?_, all events event [] rfl⟩
    rintro earlier other later rfl
    exact all earlier other (later ++ [event]) (by simp)
  · rintro ⟨before, here⟩ earlier other later split
    induction later using List.reverseRecOn with
    | nil =>
        obtain ⟨rfl, same⟩ := List.append_inj' split rfl
        cases same
        exact here
    | append_singleton later last =>
        rw [← List.cons_append, ← List.append_assoc] at split
        exact before earlier other later (List.append_inj' split rfl).1

/-- The table stays within the capacity of a `Vec`. -/
theorem Effect.bounded (effect : Effect k call result k') (small : k.fdTable.length < fdCapacity) :
    k'.fdTable.length < fdCapacity := by
  cases effect with
  | opened _ _ _ _ room => exact room
  | unreadable _ => exact small
  | unknown _ _ => exact small
  | refused _ _ _ => exact small
  | read _ _ _ _ _ _ length _ => rwa [length]
  | readNothing _ _ same => rwa [same]
  | write _ _ _ _ _ same => rwa [same]
  | writeNothing _ _ same => rwa [same]
  | closed _ length _ => rwa [length]
  | notOpen _ _ => exact small
  | closedStandard _ => exact small

/-- A descriptor that is open after a call was given out by it, under the check of the
flags, or was open before on the same node. -/
theorem Effect.given_or_kept (effect : Effect k call result k') {file : OpenFile}
    (bound : descriptors k'.fdTable d = some file) :
    (∃ path flags, call = .open_ path flags ∧ result = d ∧
        (writeRequested flags && file.node.readOnly) = false) ∨
      (∀ path flags, call = .open_ path flags → result ≠ d) ∧
        ∃ offset, descriptors k.fdTable d = some ⟨file.node, offset⟩ := by
  have three := three_le_of_bound bound
  cases effect with
  | opened name found allowed placed room =>
      rw [placed, descriptors_update rfl (Slots.get_place _)] at bound
      by_cases same : d = Slots.firstFree k.fdTable + 3
      · rw [same, Function.update_self] at bound
        cases bound
        exact .inl ⟨_, _, rfl, same.symm, allowed⟩
      · rw [Function.update_of_ne same] at bound
        exact .inr ⟨fun _ _ _ => Ne.symm same, file.offset, bound⟩
  | unreadable _ => exact .inr ⟨fun _ _ _ => by simp only [Errno.code]; omega, file.offset, bound⟩
  | unknown _ _ => exact .inr ⟨fun _ _ _ => by simp only [Errno.code]; omega, file.offset, bound⟩
  | refused _ _ _ => exact .inr ⟨fun _ _ _ => by simp only [Errno.code]; omega, file.offset, bound⟩
  | @read fd _ _ before _ _ _ bound' _ _ _ _ _ _ moved =>
      rw [moved] at bound
      refine .inr ⟨nofun, ?_⟩
      by_cases same : d = fd.toInt
      · rw [same, Function.update_self] at bound
        cases bound
        exact ⟨before.offset, by rw [same]; exact bound'⟩
      · rw [Function.update_of_ne same] at bound
        exact ⟨file.offset, bound⟩
  | readNothing _ _ same => exact .inr ⟨nofun, file.offset, by rw [← same]; exact bound⟩
  | write _ _ _ _ _ same => exact .inr ⟨nofun, file.offset, by rw [← same]; exact bound⟩
  | writeNothing _ _ same => exact .inr ⟨nofun, file.offset, by rw [← same]; exact bound⟩
  | @closed fd _ _ _ _ cleared =>
      rw [cleared] at bound
      by_cases same : d = fd.toInt
      · rw [same, Function.update_self] at bound
        cases bound
      · rw [Function.update_of_ne same] at bound
        exact .inr ⟨nofun, file.offset, bound⟩
  | notOpen _ _ => exact .inr ⟨nofun, file.offset, bound⟩
  | closedStandard _ => exact .inr ⟨nofun, file.offset, bound⟩

/-- Every open descriptor was given out under the check of the flags. -/
def Tracked (events : List FdEvent) (table : List (Option OpenFile)) : Prop :=
  ∀ d file, descriptors table d = some file →
    Granted events d (fun flags => (writeRequested flags && file.node.readOnly) = false)

theorem Effect.tracked {event : FdEvent}
    (effect : Effect event.before event.call event.result event.after)
    (tracked : Tracked events event.before.fdTable) :
    Tracked (events ++ [event]) event.after.fdTable := by
  intro d file bound
  rcases effect.given_or_kept bound with ⟨path, flags, isOpen, given, allowed⟩ | ⟨other, offset, kept⟩
  · refine ⟨event, path, flags, ?_, isOpen, allowed⟩
    rw [opener_snoc, if_pos]
    simp [FdEvent.opens, isOpen, given]
  · obtain ⟨opening, path, flags, found, isOpen, allowed⟩ := tracked d _ kept
    refine ⟨opening, path, flags, ?_, isOpen, allowed⟩
    rw [opener_snoc, if_neg]
    · exact found
    · unfold FdEvent.opens
      cases isCall : event.call with
      | open_ path flags => simpa using other path flags isCall
      | read fd buf count => exact Bool.false_ne_true
      | write fd buf count => exact Bool.false_ne_true
      | close fd => exact Bool.false_ne_true

/-- What holds of the table at the end of every run. -/
theorem Ran.keeps (run : Ran events table) : table.length < fdCapacity ∧ Tracked events table := by
  induction run with
  | nil =>
      refine ⟨by decide, ?_⟩
      intro d file bound
      rw [descriptors_nil] at bound
      cases bound
  | snoc earlier ran ih =>
      have effect := exec_effect ih.1 _ _ _ ran
      exact ⟨effect.bounded ih.1, effect.tracked ih.2⟩

section Nodes

variable {buf count : UInt64}

theorem asI64_pos (nonzero : count ≠ 0) (small : count.toNat < 2 ^ 63) : 0 < asI64 count.toNat := by
  have positive : count.toNat ≠ 0 := fun zero => nonzero (UInt64.toNat_inj.mp zero)
  rw [asI64_of_lt small]
  omega

/-- A write of something succeeds on the nodes that do not refuse it. -/
theorem writeNode_positive_iff (node : PseudoNode) (nonzero : count ≠ 0) (small : count.toNat < 2 ^ 63) :
    Returns (writeNode node buf count) (fun result _ => 0 < result ↔ refusesWrites node = false) k := by
  have positive := asI64_pos nonzero small
  cases node with
  | devNull => exact Returns.ret (iff_of_true positive rfl)
  | devZero => exact Returns.ret (iff_of_true positive rfl)
  | devTtyS0 =>
      apply Returns.bind
      intro bytes _ _
      apply Returns.bind
      intro _ _ _
      exact Returns.ret (iff_of_true positive rfl)
  | _ => exact Returns.ret (by decide)

/-- A read fills the buffer from the nodes without end, and otherwise delivers something
only from those that are never opened for writing. -/
theorem readNode_delivers (file : OpenFile) (len : Nat) :
    Returns (readNode file buf len) (fun n _ => (endless file.node = true → n = len) ∧
      (n ≠ 0 → endless file.node = true ∨ file.node.readOnly = true)) k := by
  obtain ⟨node, offset⟩ := file
  cases node with
  | devNull => exact Returns.ret ⟨nofun, fun some_ => absurd rfl some_⟩
  | devTtyS0 => exact Returns.ret ⟨nofun, fun some_ => absurd rfl some_⟩
  | devZero => exact Returns.bind (fun _ _ _ => Returns.ret ⟨fun _ => rfl, fun _ => .inl rfl⟩)
  | devFull => exact Returns.bind (fun _ _ _ => Returns.ret ⟨fun _ => rfl, fun _ => .inl rfl⟩)
  | _ => exact fun _ _ _ => ⟨nofun, fun _ => .inr rfl⟩

end Nodes

theorem not_writeOnly {flags : Int32} (refused : writeRequested flags = false) :
    flags &&& oAccmode ≠ oWronly := by
  intro writeOnly
  unfold writeRequested at refused
  rw [writeOnly] at refused
  exact absurd refused (by decide)

/-- A transfer on an open descriptor comes to nothing only for want of a buffer. -/
theorem no_buffer_of_bound {table : List (Option OpenFile)} {d : Int} {file : OpenFile}
    {buf count : UInt64} (why : count = 0 ∨ buf = 0 ∨ descriptors table d = none)
    (bound : descriptors table d = some file) : count = 0 ∨ buf = 0 := by
  rcases why with zero | null | unbound
  · exact .inl zero
  · exact .inr null
  · rw [unbound] at bound
    cases bound

/-- A transfer with a buffer comes to nothing only on a descriptor that is not open. -/
theorem not_bound_of_buffer {table : List (Option OpenFile)} {d : Int} {file : OpenFile}
    {buf count : UInt64} (why : count = 0 ∨ buf = 0 ∨ descriptors table d = none)
    (nonnull : buf ≠ 0) (nonzero : count ≠ 0) : descriptors table d ≠ some file := by
  intro bound
  rcases no_buffer_of_bound why bound with zero | null
  · exact nonzero zero
  · exact nonnull null

/-- A read that delivers from an open descriptor. -/
theorem lawful_read_iff {before after : Kernel} {fd : Int32} {buf count : UInt64} {file : OpenFile}
    {n : Nat} {last : Kernel} (tracked : Tracked events before.fdTable)
    (bound : descriptors before.fdTable fd.toInt = some file) (nonzero : count ≠ 0)
    (nonnull : buf ≠ 0) (small : count.toNat < 2 ^ 63)
    (ran : readNode file buf count.toNat before = .done n last) :
    Lawful events ⟨.read fd buf count, before, asI64 n, after⟩ ↔
      Suited events ⟨.read fd buf count, before, asI64 n, after⟩ := by
  obtain ⟨fills, only⟩ := readNode_delivers file count.toNat n _ ran
  constructor
  · intro lawful _ _ other same isEndless
    rw [bound] at same
    cases same
    refine lawful (three_le_of_bound bound) ?_
    dsimp only
    rw [fills isEndless]
    exact asI64_pos nonzero small
  · intro suited _ positive
    have some_ : n ≠ 0 := by
      rintro rfl
      exact absurd (show 0 < asI64 0 from positive) (by decide)
    rcases only some_ with isEndless | readOnly
    · exact suited nonnull nonzero file bound isEndless
    · -- Such a node was opened for reading alone.
      obtain ⟨opening, path, flags, found, isOpen, allowed⟩ := tracked _ _ bound
      rw [readOnly, Bool.and_true] at allowed
      exact ⟨opening, path, flags, found, isOpen, not_writeOnly allowed⟩

/-- One call keeps the law exactly when it is suited. -/
theorem lawful_iff_suited {event : FdEvent}
    (effect : Effect event.before event.call event.result event.after)
    (tracked : Tracked events event.before.fdTable) : Lawful events event ↔ Suited events event := by
  obtain ⟨call, before, result, after⟩ := event
  dsimp only at effect tracked
  cases effect with
  | read bound nonzero nonnull small ran =>
      exact lawful_read_iff tracked bound nonzero nonnull small ran
  | @readNothing fd buf count _ _ idle why _ =>
      constructor
      · intro _ nonnull nonzero file bound _
        exact absurd bound (not_bound_of_buffer why nonnull nonzero)
      · intro _ nonstandard positive
        rcases idle with nothing | rfl
        · exact absurd positive (Int.not_lt.mpr nothing)
        · exact absurd nonstandard (by decide)
  | @write fd buf count file _ _ bound nonzero nonnull small ran _ =>
      have positive_iff := writeNode_positive_iff file.node nonzero small _ _ ran
      constructor
      · intro lawful _ _ other same accepts
        rw [bound] at same
        cases same
        exact lawful (three_le_of_bound bound) nonzero (positive_iff.mpr accepts)
      · intro suited _ _ positive
        exact suited nonnull nonzero file bound (positive_iff.mp positive)
  | @writeNothing fd buf count _ _ idle why _ =>
      constructor
      · intro _ nonnull nonzero file bound _
        exact absurd bound (not_bound_of_buffer why nonnull nonzero)
      · intro _ nonstandard _ positive
        rcases idle with nothing | standard
        · exact absurd positive (Int.not_lt.mpr nothing)
        · exact absurd nonstandard (Int.not_le.mpr standard)
  | _ => exact Iff.rfl

/-- The access that was asked for is kept to over a whole run exactly when every call is
suited. -/
theorem access_enforced_iff (run : Ran events table) :
    Throughout Lawful events ↔ Throughout Suited events := by
  induction run with
  | nil => exact iff_of_true (throughout_nil Lawful) (throughout_nil Suited)
  | snoc earlier ran ih =>
      obtain ⟨small, tracked⟩ := earlier.keeps
      have effect := exec_effect small _ _ _ ran
      rw [throughout_snoc, throughout_snoc, ih, lawful_iff_suited effect tracked]

def openNull (flags : Int32) : FdEvent where
  call := .open_ 64 flags
  before := nullAt64 []
  result := 3
  after := nullAt64 [some ⟨.devNull, 0⟩]

def writeNull : FdEvent where
  call := .write 3 64 1
  before := nullAt64 [some ⟨.devNull, 0⟩]
  result := 1
  after := nullAt64 [some ⟨.devNull, 0⟩]

theorem Ran.null {flags : Int32}
    (opened : (openNull flags).call.exec (nullAt64 []) = .done 3 (openNull flags).after) :
    Ran [openNull flags, writeNull] [some ⟨.devNull, 0⟩] := by
  have first : Ran ([] ++ [openNull flags]) writeNull.before.fdTable := .snoc .nil opened
  exact .snoc first rfl

theorem access_enforced_null : Throughout Lawful [openNull oWronly, writeNull] := by
  rw [access_enforced_iff (Ran.null rfl)]
  change Throughout Suited (([] ++ [openNull oWronly]) ++ [writeNull])
  rw [throughout_snoc, throughout_snoc]
  refine ⟨⟨throughout_nil Suited, trivial⟩, ?_⟩
  intro _ _ file _ _
  exact ⟨openNull oWronly, 64, oWronly, rfl, rfl, by decide⟩

/-- A file that was opened for reading alone takes what is written to it. -/
theorem read_only_descriptor_written :
    Ran [openNull 0, writeNull] [some ⟨.devNull, 0⟩] ∧ ¬Throughout Lawful [openNull 0, writeNull] := by
  refine ⟨Ran.null rfl, ?_⟩
  intro lawful
  obtain ⟨opening, path, flags, found, isOpen, granted⟩ :=
    lawful [openNull 0] writeNull [] rfl (by decide) (by decide) (by decide)
  cases found
  cases isOpen
  exact absurd granted (by decide)

end ComputeKernel.Kernel
