import ComputeKernel.Syscall.Access

/-! Reads of a file in pieces through its descriptors, in any order and mixed with other
calls: each descriptor goes through the content on its own. -/
namespace ComputeKernel.Kernel
open Checked (Exec Returns)
open Memory (Holds)

/-- The content of the files that never change. -/
def staticContent : PseudoNode → Option (List UInt8)
  | .procVersion => some ProcFs.versionContent
  | .procMeminfo => some ProcFs.meminfoContent
  | .sysHostname => some SysFs.hostname
  | _ => none

/-- The same by path: `/proc/version`, `/proc/meminfo` and `/sys/kernel/hostname`. -/
def fileContent (path : String) : Option (List UInt8) := (pathNode path).bind staticContent

/-- The bytes that a call asks of a descriptor. -/
def FdEvent.asks (d : Int) (event : FdEvent) : Nat :=
  match event.call with
  | .read fd buf count => if fd.toInt = d ∧ buf ≠ 0 then count.toNat else 0
  | _ => 0

/-- The bytes that a call has left in the buffer, as many as it says. -/
def FdEvent.receives (d : Int) (event : FdEvent) : List UInt8 :=
  match event.call with
  | .read fd buf _ => if fd.toInt = d then Memory.load event.after.memory buf event.result.toNat else []
  | _ => []

def asked (d : Int) : List FdEvent → Nat
  | [] => 0
  | event :: events => event.asks d + asked d events

def received (d : Int) (events : List FdEvent) : List UInt8 := events.flatMap (FdEvent.receives d)

/-- A read returns what is left of the content, as far as the buffer takes it, and keeps
the rest of the buffer. -/
def Piece (content : List UInt8) (d : Int) (earlier : List FdEvent) (event : FdEvent) : Prop :=
  ∀ fd buf count, event.call = .read fd buf count → fd.toInt = d → buf ≠ 0 → count ≠ 0 →
    event.result = min count.toNat (content.length - asked d earlier) ∧
      ∀ bytes, bytes.length = count.toNat → Holds event.before.memory buf bytes →
        Holds event.after.memory buf
          ((content.drop (asked d earlier)).take count.toNat ++ bytes.drop event.result.toNat)

variable {k k' : Kernel} {call : FdCall} {result d : Int} {events : List FdEvent}
  {table : List (Option OpenFile)} {content : List UInt8}

theorem asked_snoc (event : FdEvent) : asked d (events ++ [event]) = asked d events + event.asks d := by
  induction events with
  | nil => exact Nat.add_comm _ 0
  | cons first events ih => rw [List.cons_append, asked, asked, ih, Nat.add_assoc]

theorem received_snoc (event : FdEvent) :
    received d (events ++ [event]) = received d events ++ event.receives d := by
  unfold received
  rw [List.flatMap_append, List.flatMap_singleton]

theorem staticContent_short {node : PseudoNode} (static : staticContent node = some content) :
    content.length < 2 ^ 63 := by
  cases node with
  | procVersion => cases static; decide
  | procMeminfo => cases static; decide
  | sysHostname => cases static; decide
  | _ => cases static

section Copies

variable (buf : UInt64)

theorem readStatic_returns (len : Nat) (offset : UInt64) (content : List UInt8) :
    Returns (readStatic buf len offset content) (fun n k' =>
      n = ((content.drop offset.toNat).take len).length ∧
        k'.memory = Memory.store k.memory buf ((content.drop offset.toNat).take len)) k := by
  refine Returns.ite (fun beyond => ?_) (fun _ => ?_)
  · rw [List.drop_eq_nil_of_le beyond, List.take_nil]
    exact Returns.ret ⟨rfl, rfl⟩
  · refine Returns.bind (Returns.sliceFrom (fun _ => Returns.bind (Returns.sliceTo (fun _ => ?_))))
    rw [Nat.min_comm, ← List.take_eq_take_min]
    refine Returns.bind (Returns.ite (fun _ => ?_) (fun _ => Returns.panic _))
    refine Returns.mono (writeBytes_returns _ buf) ?_
    rintro _ k' rfl
    exact Returns.ret ⟨by rw [List.length_take], rfl⟩

theorem readNode_returns {node : PseudoNode} (static : staticContent node = some content) (len : Nat)
    (offset : UInt64) :
    Returns (readNode ⟨node, offset⟩ buf len) (fun n k' =>
      n = ((content.drop offset.toNat).take len).length ∧
        k'.memory = Memory.store k.memory buf ((content.drop offset.toNat).take len)) k := by
  cases node with
  | procVersion => cases static; exact readStatic_returns buf len offset _
  | procMeminfo => cases static; exact readStatic_returns buf len offset _
  | sysHostname => cases static; exact readStatic_returns buf len offset _
  | _ => cases static

end Copies

/-- What a call does to a descriptor that it does not close: a read moves it on, and any
other call leaves it alone. -/
theorem Effect.on_descriptor (effect : Effect k call result k') {file : OpenFile}
    (bound : descriptors k.fdTable d = some file) (kept : ∀ fd, call = .close fd → fd.toInt ≠ d) :
    (∃ fd buf count n k'', call = .read fd buf count ∧ fd.toInt = d ∧ buf ≠ 0 ∧ count ≠ 0 ∧
        count.toNat < 2 ^ 63 ∧ readNode file buf count.toNat k = .done n k'' ∧ result = asI64 n ∧
        k'.memory = k''.memory ∧
        descriptors k'.fdTable d = some { file with offset := saturatingAdd file.offset n }) ∨
      descriptors k'.fdTable d = some file ∧
        ∀ fd buf count, call = .read fd buf count → fd.toInt = d →
          (buf = 0 ∨ count = 0) ∧ result ≤ 0 := by
  have three := three_le_of_bound bound
  cases effect with
  | opened _ _ _ placed _ =>
      refine .inr ⟨?_, nofun⟩
      rw [placed, descriptors_update rfl (Slots.get_place _), Function.update_of_ne]
      · exact bound
      · rintro rfl
        rw [firstFree_isLeast_descriptor.1.2] at bound
        cases bound
  | unreadable _ => exact .inr ⟨bound, nofun⟩
  | unknown _ _ => exact .inr ⟨bound, nofun⟩
  | refused _ _ _ => exact .inr ⟨bound, nofun⟩
  | @read fd buf count other n last _ bound' nonzero nonnull small ran memory _ moved =>
      by_cases own : fd.toInt = d
      · rw [own, bound] at bound'
        cases bound'
        refine .inl ⟨fd, buf, count, n, last, rfl, own, nonnull, nonzero, small, ran, rfl, memory, ?_⟩
        rw [moved, own, Function.update_self]
      · refine .inr ⟨?_, ?_⟩
        · rw [moved, Function.update_of_ne (Ne.symm own)]
          exact bound
        · rintro _ _ _ ⟨⟩ same
          exact absurd same own
  | @readNothing fd buf count _ _ idle why same =>
      refine .inr ⟨by rw [same]; exact bound, ?_⟩
      rintro _ _ _ ⟨⟩ rfl
      constructor
      · exact (no_buffer_of_bound why bound).symm
      · rcases idle with nothing | rfl
        · exact nothing
        · exact absurd three (by decide)
  | write _ _ _ _ _ same => exact .inr ⟨by rw [same]; exact bound, nofun⟩
  | writeNothing _ _ same => exact .inr ⟨by rw [same]; exact bound, nofun⟩
  | @closed fd _ _ _ _ cleared =>
      refine .inr ⟨?_, nofun⟩
      rw [cleared, Function.update_of_ne (Ne.symm (kept fd rfl))]
      exact bound
  | notOpen _ _ => exact .inr ⟨bound, nofun⟩
  | closedStandard _ => exact .inr ⟨bound, nofun⟩

/-- A call that leaves a descriptor alone asks nothing of it and delivers nothing. -/
theorem asks_receives_of_idle {event : FdEvent} (idle : ∀ fd buf count, event.call = .read fd buf count →
    fd.toInt = d → (buf = 0 ∨ count = 0) ∧ event.result ≤ 0) :
    event.asks d = 0 ∧ event.receives d = [] := by
  unfold FdEvent.asks FdEvent.receives
  cases isCall : event.call with
  | read fd buf count =>
      dsimp only
      by_cases own : fd.toInt = d
      · obtain ⟨nothing, negative⟩ := idle fd buf count isCall own
        constructor
        · rcases nothing with null | zero
          · rw [if_neg (fun both => both.2 null)]
          · rw [zero]
            split <;> rfl
        · rw [if_pos own, Int.toNat_of_nonpos negative]
          rfl
      · exact ⟨if_neg (fun both => own both.1), if_neg own⟩
  | _ => exact ⟨rfl, rfl⟩

/-- How far a descriptor is in its file, and what its reads have delivered. -/
structure Reading (content : List UInt8) (d : Int) (events : List FdEvent)
    (table : List (Option OpenFile)) : Prop where
  place : ∃ node offset, staticContent node = some content ∧
    descriptors table d = some ⟨node, offset⟩ ∧ offset.toNat = min (asked d events) content.length
  whole : received d events = content.take (asked d events)
  pieces : Throughout (Piece content d) events

/-- A call that leaves the descriptor alone. -/
theorem Reading.idle_step {event : FdEvent} (reading : Reading content d events event.before.fdTable)
    (same : descriptors event.after.fdTable d = descriptors event.before.fdTable d)
    (idle : ∀ fd buf count, event.call = .read fd buf count → fd.toInt = d →
      (buf = 0 ∨ count = 0) ∧ event.result ≤ 0) :
    Reading content d (events ++ [event]) event.after.fdTable := by
  obtain ⟨node, offset, static, bound, place⟩ := reading.place
  obtain ⟨asks, receives⟩ := asks_receives_of_idle idle
  refine ⟨⟨node, offset, static, same.trans bound, ?_⟩, ?_, throughout_snoc.mpr ⟨reading.pieces, ?_⟩⟩
  · rw [asked_snoc, asks, Nat.add_zero]
    exact place
  · rw [received_snoc, asked_snoc, asks, receives, List.append_nil, Nat.add_zero]
    exact reading.whole
  · intro fd buf count isCall own nonnull nonzero
    rcases (idle fd buf count isCall own).1 with null | zero
    · exact absurd null nonnull
    · exact absurd zero nonzero

/-- A read of the descriptor: it returns what is left, as far as the buffer goes, and this
is what user memory then holds. -/
theorem Reading.delivered {node : PseudoNode} {offset buf count : UInt64} {n : Nat} {k k'' : Kernel}
    (static : staticContent node = some content)
    (place : offset.toNat = min (asked d events) content.length)
    (ran : readNode ⟨node, offset⟩ buf count.toNat k = .done n k'') :
    n = ((content.drop (asked d events)).take count.toNat).length ∧
      k''.memory = Memory.store k.memory buf ((content.drop (asked d events)).take count.toNat) := by
  have rest : content.drop offset.toNat = content.drop (asked d events) := by
    rw [place, ← List.drop_eq_drop_min]
  have copied := readNode_returns buf static count.toNat offset n k'' ran
  rwa [rest] at copied

/-- One call, whatever it is, as long as it does not close the descriptor. -/
theorem Reading.step {event : FdEvent} (reading : Reading content d events event.before.fdTable)
    (effect : Effect event.before event.call event.result event.after)
    (kept : ∀ fd, event.call = .close fd → fd.toInt ≠ d) :
    Reading content d (events ++ [event]) event.after.fdTable := by
  obtain ⟨node, offset, static, bound, place⟩ := reading.place
  rcases effect.on_descriptor bound kept with
    ⟨fd, buf, count, n, k'', isRead, own, nonnull, nonzero, small, ran, returned, memory, moved⟩ |
      ⟨same, idle⟩
  · have short := staticContent_short static
    obtain ⟨length, stored⟩ := Reading.delivered static place ran
    rw [← memory] at stored
    have count_eq : n = min count.toNat (content.length - asked d events) := by
      rw [length, List.length_take, List.length_drop]
    have result_eq : event.result = n := by
      rw [returned, asI64_of_lt (by omega)]
    have asks : event.asks d = count.toNat := by
      unfold FdEvent.asks
      rw [isRead]
      exact if_pos ⟨own, nonnull⟩
    have receives : event.receives d = (content.drop (asked d events)).take count.toNat := by
      unfold FdEvent.receives
      rw [isRead]
      dsimp only
      rw [if_pos own, result_eq, Int.toNat_natCast, stored, length]
      exact Memory.load_of_holds (Memory.holds_store (by omega))
    refine ⟨⟨node, _, static, moved, ?_⟩, ?_, throughout_snoc.mpr ⟨reading.pieces, ?_⟩⟩
    · dsimp only [saturatingAdd]
      rw [UInt64.toNat_ofNat_of_lt' (show _ < 2 ^ 64 by omega), asked_snoc, asks, place]
      omega
    · rw [received_snoc, asked_snoc, asks, receives, reading.whole, List.take_add]
    · intro fd' buf' count' isCall _ _ _
      rw [isRead] at isCall
      cases isCall
      refine ⟨by rw [result_eq, count_eq], ?_⟩
      intro bytes full held
      rw [stored, result_eq, Int.toNat_natCast, length]
      apply held.store
      · rw [← length]
        omega
      · omega
  · exact reading.idle_step (same.trans bound.symm) idle

theorem Ran.last {event : FdEvent} (run : Ran (events ++ [event]) table) :
    Ran events event.before.fdTable ∧ event.call.exec event.before = .done event.result event.after ∧
      table = event.after.fdTable := by
  generalize whole : events ++ [event] = all at run
  cases run with
  | nil => simp at whole
  | snoc earlier ran =>
      obtain ⟨rfl, same⟩ := List.append_inj' whole rfl
      cases same
      exact ⟨earlier, ran, rfl⟩

/-- A file that has just been opened has not been read. -/
theorem Reading.opened {event : FdEvent} (effect : Effect event.before event.call event.result event.after)
    {path : UInt64} {flags : Int32} (isOpen : event.call = .open_ path flags) (success : 0 ≤ event.result)
    {text : String} (named : event.before.pathAt path = some text)
    (static : fileContent text = some content) :
    Reading content event.result [] event.after.fdTable := by
  obtain ⟨node, found, static⟩ := Option.bind_eq_some_iff.mp static
  obtain ⟨call, before, result, after⟩ := event
  dsimp only at effect isOpen success named ⊢
  subst isOpen
  cases effect with
  | opened name found' _ placed _ =>
      rw [named] at name
      cases name
      rw [found] at found'
      cases found'
      refine ⟨⟨node, 0, static, ?_, (Nat.zero_min _).symm⟩, rfl, throughout_nil _⟩
      rw [placed, descriptors_update rfl (Slots.get_place _), Function.update_self]
  | unreadable _ => exact absurd success (by decide)
  | unknown _ _ => exact absurd success (by decide)
  | refused _ _ _ => exact absurd success (by decide)

/-- From the call that gave out a descriptor on, through any calls that do not close it. -/
theorem reading_of_run {before : List FdEvent} {opening : FdEvent}
    (run : Ran (before ++ opening :: events) table) {path : UInt64} {flags : Int32}
    (isOpen : opening.call = .open_ path flags) (success : 0 ≤ opening.result)
    {text : String} (named : opening.before.pathAt path = some text)
    (static : fileContent text = some content)
    (kept : ∀ event ∈ events, ∀ fd, event.call = .close fd → fd.toInt ≠ opening.result) :
    Reading content opening.result events table := by
  induction events using List.reverseRecOn generalizing table with
  | nil =>
      obtain ⟨earlier, ran, rfl⟩ := run.last
      exact .opened (exec_effect earlier.keeps.1 _ _ _ ran) isOpen success named static
  | append_singleton events event ih =>
      rw [← List.cons_append, ← List.append_assoc] at run
      obtain ⟨earlier, ran, rfl⟩ := run.last
      have reading := ih earlier (fun e member => kept e (List.mem_append_left _ member))
      apply reading.step (exec_effect earlier.keeps.1 _ _ _ ran)
      exact kept event (List.mem_append_right _ List.mem_cons_self)

theorem openOn_of_bound {fd : Int32} {file : OpenFile}
    (bound : descriptors k.fdTable fd.toInt = some file) : k.OpenOn fd file := by
  have three := three_le_of_bound bound
  rw [descriptors_of_three three] at bound
  exact ⟨(fd.toInt - 3).toNat, by omega, Option.join_eq_some_iff.mp bound⟩

/-- Whatever calls are made between the opening of one of these files and the closing of
its descriptor, the reads of the descriptor deliver the content from the start, each the
next piece of it, and a read into any buffer returns. -/
theorem chunked_reads_faithful {before : List FdEvent} {opening : FdEvent}
    (run : Ran (before ++ opening :: events) table) {path : UInt64} {flags : Int32}
    (isOpen : opening.call = .open_ path flags) (given : opening.result = d) (success : 0 ≤ d)
    {text : String} (named : opening.before.pathAt path = some text)
    (static : fileContent text = some content)
    (kept : ∀ event ∈ events, ∀ fd, event.call = .close fd → fd.toInt ≠ d) :
    received d events = content.take (asked d events) ∧ Throughout (Piece content d) events ∧
      ∀ k : Kernel, k.fdTable = table → ∀ fd buf bytes, fd.toInt = d → k.Buffer buf bytes →
        ∃ result k', sysRead fd buf (UInt64.ofNat bytes.length) k = .done result k' := by
  subst given
  have reading := reading_of_run run isOpen success named static kept
  refine ⟨reading.whole, reading.pieces, ?_⟩
  rintro k rfl fd buf bytes own buffer
  obtain ⟨node, offset, _, bound, _⟩ := reading.place
  rw [← own] at bound
  obtain ⟨k', ran, _⟩ := sysRead_of_openOn (openOn_of_bound bound) buffer
  exact ⟨_, k', ran⟩

def openHostname : FdEvent where
  call := .open_ 64 0
  before := { hostnameOpen 0 with fdTable := [] }
  result := 3
  after := hostnameOpen 0

/-- Four bytes are read into one place. -/
def readFour (k : Kernel) (result : Int) (k' : Kernel) : FdEvent where
  call := .read 3 100 4
  before := k
  result := result
  after := k'

/-- The host name is opened and its first eight bytes are read by two calls. -/
theorem chunked_reads_hostname :
    ∃ k₁ result k₂, sysRead 3 100 4 (hostnameOpen 0) = .done 4 k₁ ∧ sysRead 3 100 4 k₁ = .done result k₂ ∧
      received 3 [readFour (hostnameOpen 0) 4 k₁, readFour k₁ result k₂] = asciiBytes "computek" := by
  have bound : (hostnameOpen 0).OpenOn 3 ⟨.sysHostname, 0⟩ := ⟨0, rfl, rfl⟩
  have buffer := hostnameOpen_buffer 0
  obtain ⟨k₁, ran, memory⟩ := sysRead_of_openOn bound buffer
  have opened : Ran ([] ++ [openHostname]) (readFour (hostnameOpen 0) 4 k₁).before.fdTable :=
    .snoc .nil rfl
  have first : Ran ([] ++ openHostname :: [readFour (hostnameOpen 0) 4 k₁]) k₁.fdTable :=
    show Ran ([openHostname] ++ [readFour (hostnameOpen 0) 4 k₁]) k₁.fdTable from .snoc opened ran
  have named : openHostname.before.pathAt 64 = some "/sys/kernel/hostname" := rfl
  have reads (events : List FdEvent) (only : ∀ event ∈ events, event.call = .read 3 100 4) :
      ∀ event ∈ events, ∀ fd, event.call = .close fd → fd.toInt ≠ 3 := by
    intro event member fd isClose
    rw [only event member] at isClose
    cases isClose
  have overwritten : k₁.Buffer 100 (asciiBytes "comp") := by
    have source : produced .sysHostname (hostnameOpen 0).procs.tickCount 0 4 = asciiBytes "comp" := by
      decide
    have short : (asciiBytes "comp").length = [(0 : UInt8), 0, 0, 0].length := by decide
    have stored := buffer.held.store (Nat.le_of_eq short) (by decide)
    rw [short, List.drop_length, List.append_nil] at stored
    change k₁.memory = Memory.store _ 100 (produced .sysHostname _ 0 4) at memory
    rw [source] at memory
    rw [← memory] at stored
    exact ⟨by decide, by decide, stored⟩
  obtain ⟨result, k₂, again⟩ := (chunked_reads_faithful first rfl rfl (by decide) named rfl
    (reads _ (by simp [readFour]))).2.2 k₁ rfl 3 100 _ rfl overwritten
  have both : Ran ([] ++ openHostname :: [readFour (hostnameOpen 0) 4 k₁, readFour k₁ result k₂])
      k₂.fdTable :=
    show Ran ([openHostname, readFour (hostnameOpen 0) 4 k₁] ++ [readFour k₁ result k₂]) k₂.fdTable
      from .snoc first again
  exact ⟨k₁, result, k₂, ran, again, (chunked_reads_faithful both rfl rfl (by decide) named rfl
    (reads _ (by simp [readFour]))).1⟩

end ComputeKernel.Kernel
