import ComputeKernel.Drivers.KeyOrder
import ComputeKernel.Support.Commutes
import ComputeKernel.Syscall.Meanwhile
import ComputeKernel.Syscall.Panics
import ComputeKernel.Syscall.UserMemory

/-! Reads of the terminal. The characters come from the keyboard one poll after another,
whatever the caller's memory holds; `sys_read` takes the first in one loop, which does
not look at it, and goes on in another up to the end of a line. -/
namespace ComputeKernel.Kernel
open Checked (Commutes Exec Finishes Returns)
open Memory (Holds Mapped)

abbrev Terminator (byte : UInt8) : Prop := byte = 0x0a ∨ byte = 0x0d

/-- The next character of the keyboard, however long it takes; none when the caller has
died before. -/
def awaitChar : Nat → Exec Kernel (Option UInt8)
  | 0 => Exec.halt
  | fuel + 1 => do
      pending
      let k ← Exec.get
      if k.procs.currentIsZombie then Exec.ret none
      else do
        let ch ← readChar
        match ch with
        | some ch => Exec.ret (some ch)
        | none => do
            hlt
            awaitChar fuel

/-- The characters that so many polls find, up to the first that finds none. -/
def available : Nat → Exec Kernel (List UInt8)
  | 0 => Exec.ret []
  | polls + 1 => do
      let ch ← readChar
      match ch with
      | none => Exec.ret []
      | some ch => do
          let more ← available polls
          Exec.ret (ch :: more)

/-- The characters that the second loop takes. -/
def takeLine : Nat → Exec Kernel (List UInt8)
  | 0 => Exec.ret []
  | room + 1 => do
      let ch ← readChar
      match ch with
      | none => Exec.ret []
      | some ch =>
          if Terminator ch then Exec.ret [ch]
          else do
            let more ← takeLine room
            Exec.ret (ch :: more)

/-- A text up to the first end of a line. -/
def firstLine : List UInt8 → List UInt8
  | [] => []
  | byte :: bytes => if Terminator byte then [byte] else byte :: firstLine bytes

/-- No line ends inside the text. -/
def OneLine (bytes : List UInt8) : Prop := ∀ byte ∈ bytes.dropLast, ¬Terminator byte

theorem firstLine_isPrefix (bytes : List UInt8) : firstLine bytes <+: bytes := by
  induction bytes with
  | nil => exact List.prefix_refl []
  | cons byte bytes ih =>
      unfold firstLine
      split
      · exact ⟨bytes, rfl⟩
      · exact (List.prefix_cons_inj byte).mpr ih

theorem firstLine_eq_nil_iff {bytes : List UInt8} : firstLine bytes = [] ↔ bytes = [] := by
  cases bytes with
  | nil => exact Iff.rfl
  | cons byte bytes =>
      unfold firstLine
      split <;> simp

/-- A character before a text lies inside the line unless the text is empty. -/
theorem oneLine_cons {ch : UInt8} {bytes : List UInt8} (rest : OneLine bytes) :
    OneLine (ch :: bytes) ↔ ¬(Terminator ch ∧ bytes ≠ []) := by
  unfold OneLine at rest ⊢
  by_cases empty : bytes = []
  · subst empty
    simp
  · rw [List.dropLast_cons_of_ne_nil empty, List.forall_mem_cons]
    constructor
    · rintro ⟨plain, _⟩ ⟨ends, _⟩
      exact plain ends
    · intro plain
      exact ⟨fun ends => plain ⟨ends, empty⟩, rest⟩

theorem oneLine_firstLine (bytes : List UInt8) : OneLine (firstLine bytes) := by
  induction bytes with
  | nil => exact fun _ member => absurd member List.not_mem_nil
  | cons byte bytes ih =>
      unfold firstLine
      split
      · exact fun _ member => absurd member List.not_mem_nil
      · next plain => exact (oneLine_cons ih).mpr (fun both => plain both.1)

/-- The kernel over another user memory. -/
def withMemory (memory : UInt64 → Option UInt8) (k : Kernel) : Kernel := { k with memory }

section Keyboard

variable (memory : UInt64 → Option UInt8)

theorem commutes_onKeyboard (m : Exec Keyboard α) : Commutes (withMemory memory) (onKeyboard m) := by
  apply Commutes.zoom
  · exact fun _ => rfl
  · exact fun _ _ => rfl

theorem commutes_serialPrint (text : List Char) : Commutes (withMemory memory) (serialPrint text) :=
  Commutes.bind (Commutes.modify (fun _ => rfl)) (fun _ => Commutes.ret ())

theorem commutes_interrupt (irq : Irq) : Commutes (withMemory memory) (interrupt irq) := by
  cases irq with
  | timer => exact Commutes.modify (fun _ => rfl)
  | scancode byte => exact Commutes.modify (fun _ => rfl)
  | keyboard => exact Commutes.bind (commutes_onKeyboard memory _) (commutes_serialPrint memory)

theorem commutes_pending : Commutes (withMemory memory) pending := by
  refine Commutes.get_bind (fun _ => rfl) (fun k => ?_)
  split
  · exact Commutes.ret ()
  · refine Commutes.bind (Commutes.modify (fun _ => rfl)) (fun _ => ?_)
    exact Commutes.forEach (commutes_interrupt memory)

theorem commutes_pollChar : Commutes (withMemory memory) pollChar := by
  refine Commutes.get_bind (fun _ => rfl) (fun k => ?_)
  refine Commutes.bind (Commutes.modify (fun _ => rfl)) (fun _ => ?_)
  exact Commutes.bind (commutes_serialPrint memory _) (fun _ => Commutes.ret _)

/-- The keyboard answers a poll alike whatever user memory holds. -/
theorem commutes_readChar : Commutes (withMemory memory) readChar := by
  refine Commutes.bind (commutes_pending memory) (fun _ => ?_)
  refine Commutes.bind (commutes_onKeyboard memory _) (fun byte => ?_)
  cases byte with
  | some byte => exact Commutes.ret _
  | none => exact Commutes.bind (commutes_pending memory) (fun _ => commutes_pollChar memory)

theorem commutes_takeLine (room : Nat) : Commutes (withMemory memory) (takeLine room) := by
  induction room with
  | zero => exact Commutes.ret []
  | succ room ih =>
      refine Commutes.bind (commutes_readChar memory) (fun ch => ?_)
      cases ch with
      | none => exact Commutes.ret []
      | some ch =>
          dsimp only
          split
          · exact Commutes.ret [ch]
          · exact Commutes.bind ih (fun more => Commutes.ret _)

theorem commutes_hlt : Commutes (withMemory memory) hlt := by
  refine Commutes.get_bind (fun _ => rfl) (fun k => ?_)
  split
  · exact Commutes.halt
  · exact commutes_pending memory

theorem commutes_awaitChar (fuel : Nat) : Commutes (withMemory memory) (awaitChar fuel) := by
  induction fuel with
  | zero => exact Commutes.halt
  | succ fuel ih =>
      refine Commutes.bind (commutes_pending memory) (fun _ => ?_)
      refine Commutes.get_bind (fun _ => rfl) (fun k => ?_)
      split
      · exact Commutes.ret none
      · refine Commutes.bind (commutes_readChar memory) (fun ch => ?_)
        cases ch with
        | some ch => exact Commutes.ret _
        | none => exact Commutes.bind (commutes_hlt memory) (fun _ => ih)

end Keyboard

variable {k k' k₁ k₂ : Kernel} {buf count : UInt64} {ch : UInt8} {more : List UInt8}

/-- Code that commutes with every change of user memory leaves it as it is. -/
theorem memory_of_commutes {m : Exec Kernel α} {a : α}
    (commutes : ∀ memory, Commutes (withMemory memory) m) (ran : m k = .done a k') :
    k'.memory = k.memory := by
  have kept := (commutes k.memory).kept ran rfl
  rw [← kept]
  rfl

theorem takeLine_of_available {polls : Nat} (found : available polls k = .done more k₂) :
    more.length ≤ polls ∧ ∃ k', takeLine polls k = .done (firstLine more) k' := by
  induction polls generalizing k more with
  | zero =>
      cases found
      exact ⟨Nat.le_refl 0, _, rfl⟩
  | succ polls ih =>
      obtain ⟨answer, k', polled, found⟩ := Exec.done_of_bind found
      cases answer with
      | none =>
          cases found
          exact ⟨Nat.zero_le _, _, Exec.bind_of_done polled⟩
      | some ch =>
          obtain ⟨rest, k'', found, returned⟩ := Exec.done_of_bind found
          cases returned
          obtain ⟨short, last, taken⟩ := ih found
          refine ⟨Nat.succ_le_succ short, ?_⟩
          unfold takeLine firstLine
          rw [Exec.bind_of_done polled]
          dsimp only
          split
          · exact ⟨k', rfl⟩
          · exact ⟨last, Exec.bind_of_done taken⟩

/-- The first loop waits for a character and stores it, whatever it is. -/
theorem readFirst_eq (buf : UInt64) (len fuel : Nat) :
    readFirst buf len fuel = awaitChar fuel >>= fun ch =>
      match ch with
      | some ch => storeAt buf len 0 ch >>= fun _ => Exec.ret true
      | none => Exec.ret false := by
  induction fuel with
  | zero => rfl
  | succ fuel ih =>
      unfold readFirst awaitChar
      rw [Exec.bind_assoc]
      congr 1
      funext _
      rw [Exec.bind_assoc]
      congr 1
      funext k
      split
      · rfl
      · rw [Exec.bind_assoc]
        congr 1
        funext ch
        cases ch with
        | some ch => rfl
        | none =>
            dsimp only
            rw [Exec.bind_assoc, ih]

/-- The second loop stores the characters that it takes one after another. -/
theorem readRest_of_takeLine {len room read : Nat} (mapped : Mapped k.memory buf len)
    (fits : read + room ≤ len) (small : len < 2 ^ 63) (taken : takeLine room k = .done more k') :
    readRest buf len room read k =
      .done (read + more.length)
        (withMemory (Memory.store k.memory (buf + UInt64.ofNat read) more) k') := by
  induction room generalizing read k k' more with
  | zero =>
      cases taken
      rfl
  | succ room ih =>
      obtain ⟨answer, next, polled, taken⟩ := Exec.done_of_bind taken
      have same : next.memory = k.memory := memory_of_commutes commutes_readChar polled
      unfold readRest
      rw [Exec.bind_of_done polled]
      cases answer with
      | none =>
          cases taken
          rw [Memory.store, ← same]
          rfl
      | some ch =>
          dsimp only at taken ⊢
          have stored : storeAt buf len read ch next = .done ()
              (withMemory (Function.update k.memory (buf + UInt64.ofNat read) (some ch)) next) :=
            same ▸ storeAt_of_mapped (same ▸ mapped) (by omega) ch
          rw [Exec.bind_of_done stored, Exec.bind_of_done (Exec.usizeAdd_of_lt (by omega) _)]
          split at taken
          · next ends =>
              cases taken
              rw [if_pos ends]
              rfl
          · next plain =>
              rw [if_neg plain]
              obtain ⟨rest, last, taken, returned⟩ := Exec.done_of_bind taken
              cases returned
              have again := (commutes_takeLine
                (Function.update k.memory (buf + UInt64.ofNat read) (some ch)) room).done taken
              rw [ih (mapped.update _ ch) (by omega) again, List.length_cons, Memory.store,
                UInt64.ofNat_add, ← UInt64.add_assoc, Nat.add_right_comm, Nat.add_assoc]
              rfl

/-- The keyboard answers every poll. -/
theorem readChar_finishes (ready : k.keyboard.InRange) :
    Finishes readChar (fun _ k' => k'.keyboard.InRange) k := by
  refine Finishes.andThen (pending_inRange ready) (fun _ k' ready => ?_)
  refine Finishes.bind (Finishes.zoom ?_)
  refine Finishes.mono (Keyboard.tryReadChar_finishes ready) (fun byte keyboard kept => ?_)
  cases byte with
  | some byte => exact Finishes.ret kept
  | none =>
      have ready : { k' with keyboard }.keyboard.InRange := kept
      refine Finishes.andThen (pending_inRange ready) (fun _ k'' ready => ?_)
      refine Finishes.bind (Finishes.get (Finishes.bind (Finishes.modify ?_)))
      refine Finishes.bind (Finishes.bind (Finishes.modify (Finishes.ret (Finishes.ret ?_))))
      change (k''.keyboard.pollChar.2).buffer.InRange
      rw [Keyboard.pollChar_buffer]
      exact ready

theorem available_finishes (ready : k.keyboard.InRange) (polls : Nat) :
    Finishes (available polls) (fun _ _ => True) k := by
  induction polls generalizing k with
  | zero => exact Finishes.ret trivial
  | succ polls ih =>
      refine Finishes.andThen (readChar_finishes ready) (fun ch k' ready => ?_)
      cases ch with
      | none => exact Finishes.ret trivial
      | some ch => exact Finishes.andThen (ih ready) (fun more _ _ => Finishes.ret trivial)

theorem awaitChar_inRange (ready : k.keyboard.InRange) (fuel : Nat) :
    Returns (awaitChar fuel) (fun _ k' => k'.keyboard.InRange) k := by
  induction fuel generalizing k with
  | zero => exact Returns.halt
  | succ fuel ih =>
      refine Returns.bind (fun _ k' ran => ?_)
      have ready := (pending_inRange ready).done ran
      refine Returns.bind (Returns.get (Returns.ite (fun _ => Returns.ret ready) (fun _ => ?_)))
      refine Returns.bind (fun ch k'' ran => ?_)
      have ready := (readChar_finishes ready).done ran
      cases ch with
      | some ch => exact Returns.ret ready
      | none =>
          refine Returns.bind (Returns.bind (Returns.get ?_))
          split
          · exact Returns.halt
          · exact fun _ _ ran => ih ((pending_inRange ready).done ran)

/-- What the keyboard supplies to a read of so many bytes: the character that the read
waits for, and those that it can go on with at once. -/
def Supplies (k : Kernel) (count : UInt64) (ch : UInt8) (more : List UInt8) : Prop :=
  ∃ k₁ k₂, awaitChar (k.arrivals.length + 1) k = .done (some ch) k₁ ∧
    available (count.toNat - 1) k₁ = .done more k₂

theorem Supplies.unique {other : UInt8} {others : List UInt8} (first : k.Supplies count ch more)
    (second : k.Supplies count other others) : ch = other ∧ more = others := by
  obtain ⟨k₁, _, waited, found⟩ := first
  obtain ⟨_, _, waited', found'⟩ := second
  rw [waited] at waited'
  cases waited'
  rw [found] at found'
  cases found'
  exact ⟨rfl, rfl⟩

/-- A buffer that can be read into. -/
structure Readable (memory : UInt64 → Option UInt8) (buf count : UInt64) : Prop where
  transfers : Transfers buf count
  mapped : Mapped memory buf count.toNat

theorem sysRead_stdin (transfers : Transfers buf count) :
    sysRead 0 buf count k = readStdin buf count.toNat k := by
  obtain ⟨nonempty, nonnull, small⟩ := transfers
  unfold sysRead
  rw [if_neg nonempty, if_neg nonnull, Exec.bind_of_done (fromRawParts_done small k), if_pos rfl]

/-- A read on standard input stores the character it has waited for and the line that is
available after it. -/
theorem sysRead_of_supplies (buffer : Readable k.memory buf count)
    (supplies : k.Supplies count ch more) :
    ∃ k', sysRead 0 buf count k = .done (ch :: firstLine more).length k' ∧
      Holds k'.memory buf (ch :: firstLine more) ∧ (ch :: firstLine more).length ≤ count.toNat := by
  obtain ⟨k₁, k₂, waited, found⟩ := supplies
  obtain ⟨nonempty, _, small⟩ := buffer.transfers
  have positive : 0 < count.toNat :=
    Nat.pos_of_ne_zero (fun zero => nonempty (UInt64.toNat_inj.mp zero))
  have same : k₁.memory = k.memory :=
    memory_of_commutes (fun memory => commutes_awaitChar memory _) waited
  have stored := storeAt_of_mapped (same ▸ buffer.mapped) positive ch
  rw [same, show buf + UInt64.ofNat 0 = buf from UInt64.add_zero buf] at stored
  change storeAt buf count.toNat 0 ch k₁ =
    .done () (withMemory (Function.update k.memory buf (some ch)) k₁) at stored
  obtain ⟨polls, k', taken⟩ := takeLine_of_available found
  have again := (commutes_takeLine (Function.update k.memory buf (some ch)) _).done taken
  have rest := readRest_of_takeLine (buffer.mapped.update buf ch)
    (by omega : 1 + (count.toNat - 1) ≤ count.toNat) small again
  have short := (firstLine_isPrefix more).length_le
  have fits : (ch :: firstLine more).length ≤ count.toNat := by
    rw [List.length_cons]
    omega
  refine ⟨withMemory (Memory.store k.memory buf (ch :: firstLine more)) k', ?_,
    Memory.holds_store (by omega), fits⟩
  rw [sysRead_stdin buffer.transfers, readStdin, Exec.get_bind, readFirst_eq, Exec.bind_assoc,
    Exec.bind_of_done waited]
  dsimp only
  rw [Exec.bind_assoc, Exec.bind_of_done stored, Exec.ret_bind, if_pos rfl, Exec.bind_of_done rest,
    Exec.ret_run, asI64_of_lt (by omega), List.length_cons, Nat.add_comm]
  rfl

/-- A read returns bytes only when the keyboard has supplied characters. -/
theorem supplies_of_sysRead {n : Int} (ready : k.keyboard.InRange)
    (buffer : Readable k.memory buf count) (ran : sysRead 0 buf count k = .done n k')
    (returned : 0 ≤ n) : ∃ ch more, k.Supplies count ch more := by
  rw [sysRead_stdin buffer.transfers, readStdin, Exec.get_bind, readFirst_eq, Exec.bind_assoc] at ran
  obtain ⟨answer, k₁, waited, ran⟩ := Exec.done_of_bind ran
  cases answer with
  | none =>
      cases ran
      exact absurd returned (by decide)
  | some ch =>
      obtain ⟨more, k₂, found, _⟩ := available_finishes (awaitChar_inRange ready _ _ _ waited) _
      exact ⟨ch, more, k₁, k₂, waited, found⟩

/-- What a read of the terminal should deliver of the characters that there are. -/
structure ReadsLine (stream : List UInt8) (count : UInt64) (bytes : List UInt8) : Prop where
  nonempty : bytes ≠ []
  piece : bytes <+: stream
  bounded : bytes.length ≤ count.toNat
  line : OneLine bytes

/-- A read returns once there is a character, and the bytes that it returns are at most
one line of those supplied. -/
structure DeliversLine (buf count : UInt64) (k : Kernel) : Prop where
  returns : ∀ ch more, k.Supplies count ch more →
    Finishes (sysRead 0 buf count) (fun n _ => 0 ≤ n) k
  line : ∀ n k', sysRead 0 buf count k = .done n k' → 0 ≤ n →
    ∃ ch more bytes, k.Supplies count ch more ∧ n = (bytes : List UInt8).length ∧
      Holds k'.memory buf bytes ∧ ReadsLine (ch :: more) count bytes

/-- What stands in memory after a read leaves no choice of the bytes. -/
theorem DeliversLine.oneLine (delivers : DeliversLine buf count k)
    (buffer : Readable k.memory buf count) (supplies : k.Supplies count ch more) :
    OneLine (ch :: firstLine more) := by
  obtain ⟨k', ran, held, _⟩ := sysRead_of_supplies buffer supplies
  obtain ⟨_, _, bytes, _, length, stored, reads⟩ := delivers.line _ k' ran (Int.natCast_nonneg _)
  have same : bytes = ch :: firstLine more := by
    rw [← Memory.load_of_holds stored, ← Memory.load_of_holds held, Int.ofNat_inj.mp length]
  exact same ▸ reads.line

/-- A read of the terminal delivers at most one line exactly if the character it waits for
ends no line or nothing is available after that character. -/
theorem delivers_line_iff (ready : k.keyboard.InRange) (buffer : Readable k.memory buf count) :
    DeliversLine buf count k ↔
      ∀ ch more, k.Supplies count ch more → Terminator ch → more = [] := by
  constructor
  · intro delivers ch more supplies ends
    have line := (oneLine_cons (oneLine_firstLine more)).mp (delivers.oneLine buffer supplies)
    by_contra others
    exact line ⟨ends, firstLine_eq_nil_iff.not.mpr others⟩
  · intro alone
    constructor
    · intro ch more supplies
      obtain ⟨k', ran, _⟩ := sysRead_of_supplies buffer supplies
      exact Finishes.of_done ran (Int.natCast_nonneg _)
    · intro n k' ran returned
      obtain ⟨ch, more, supplies⟩ := supplies_of_sysRead ready buffer ran returned
      obtain ⟨k'', ran', held, fits⟩ := sysRead_of_supplies buffer supplies
      rw [ran] at ran'
      cases ran'
      refine ⟨ch, more, _, supplies, rfl, held, List.cons_ne_nil _ _, ?_, fits, ?_⟩
      · exact (List.prefix_cons_inj ch).mpr (firstLine_isPrefix more)
      · refine (oneLine_cons (oneLine_firstLine more)).mpr ?_
        rintro ⟨ends, others⟩
        exact others (firstLine_eq_nil_iff.mpr (alone ch more supplies ends))

/-- A booted kernel at whose keyboard these characters wait. -/
def typed (characters : List UInt8) : Kernel :=
  { booted with
    keyboard := { booted.keyboard with
      controller := characters
      decode := Console.plainDecoder } }

/-- A letter and the end of its line make one read. -/
theorem delivers_line_letter :
    (typed [0x61, 0x0a]).Supplies 8 0x61 [0x0a] ∧ DeliversLine 4096 8 (typed [0x61, 0x0a]) := by
  have supplies : (typed [0x61, 0x0a]).Supplies 8 0x61 [0x0a] := ⟨_, _, rfl, rfl⟩
  have buffer : Readable (typed [0x61, 0x0a]).memory 4096 8 :=
    ⟨⟨by decide, by decide, by decide⟩, fun _ _ => rfl⟩
  have ready : (typed [0x61, 0x0a]).keyboard.InRange := KeyBuffer.new_inRange
  refine ⟨supplies, (delivers_line_iff ready buffer).mpr ?_⟩
  intro ch more other ends
  rw [← (supplies.unique other).1] at ends
  exact absurd ends (by decide)

/-- With an empty line and a letter waiting, one read returns both. -/
theorem empty_line_merged :
    (typed [0x0a, 0x61]).Supplies 2 0x0a [0x61] ∧
      (∃ k', sysRead 0 4096 2 (typed [0x0a, 0x61]) = .done 2 k' ∧
        Holds k'.memory 4096 [0x0a, 0x61]) ∧
      ¬DeliversLine 4096 2 (typed [0x0a, 0x61]) := by
  have supplies : (typed [0x0a, 0x61]).Supplies 2 0x0a [0x61] := ⟨_, _, rfl, rfl⟩
  have buffer : Readable (typed [0x0a, 0x61]).memory 4096 2 :=
    ⟨⟨by decide, by decide, by decide⟩, fun _ _ => rfl⟩
  obtain ⟨k', ran, held, _⟩ := sysRead_of_supplies buffer supplies
  refine ⟨supplies, ⟨k', ran, held⟩, ?_⟩
  intro delivers
  exact delivers.oneLine buffer supplies 0x0a (List.mem_singleton_self _) (Or.inl rfl)

end ComputeKernel.Kernel
