import ComputeKernel.Support.Utf8
import ComputeKernel.Syscall.Terminal

/-! How far `read_user_cstr` reads: to the zero byte that ends the string, or to the
limit when there is none. -/
namespace ComputeKernel.Kernel
open Checked (Commutes Exec Finishes)
open Memory (FirstNul Holds Mapped)

variable {k : Kernel} {ptr : UInt64}

/-- The code comes to the same in every memory that agrees with the kernel's on these
addresses. An access to any other address would show, as it faults in a memory that
does not map the address and goes on in one that does. -/
def TouchesOnly (m : Exec Kernel α) (k : Kernel) (ptr : UInt64) (count : Nat) : Prop :=
  ∀ memory : UInt64 → Option UInt8,
    (∀ i < count, memory (ptr + UInt64.ofNat i) = k.memory (ptr + UInt64.ofNat i)) →
    m (withMemory memory k) = (m k).mapState (withMemory memory)

/-- The accesses end with the first zero byte, or at the limit when there is none before. -/
structure StopsAtNul (m : Exec Kernel α) (k : Kernel) (ptr : UInt64) (maxLen : Nat) : Prop where
  nul : ∀ n < maxLen, FirstNul k.memory ptr n → TouchesOnly m k ptr (n + 1)
  limit : (∀ n < maxLen, k.memory (ptr + UInt64.ofNat n) ≠ some 0) → TouchesOnly m k ptr maxLen

/-- What follows may do anything that does not depend on user memory. -/
theorem TouchesOnly.andThen {m : Exec Kernel α} {f : α → Exec Kernel β} {count : Nat}
    (first : TouchesOnly m k ptr count) (next : ∀ a memory, Commutes (withMemory memory) (f a)) :
    TouchesOnly (m >>= f) k ptr count := by
  intro memory agrees
  change Exec.andThen m f (withMemory memory k) = (Exec.andThen m f k).mapState (withMemory memory)
  unfold Exec.andThen
  rw [first memory agrees]
  cases m k with
  | done a k' => exact next a memory k'
  | halted k' => rfl
  | panicked why => rfl
  | faulted address => rfl
  | exhausted => rfl

theorem StopsAtNul.andThen {m : Exec Kernel α} {f : α → Exec Kernel β} {maxLen : Nat}
    (first : StopsAtNul m k ptr maxLen) (next : ∀ a memory, Commutes (withMemory memory) (f a)) :
    StopsAtNul (m >>= f) k ptr maxLen where
  nul n inside found := (first.nul n inside found).andThen next
  limit none := (first.limit none).andThen next

/-- A read of so many bytes at most looks at all of them, or ends at a zero byte. -/
def Covers (memory : UInt64 → Option UInt8) (ptr : UInt64) (left count : Nat) : Prop :=
  count = left ∨ ∃ n, count = n + 1 ∧ memory (ptr + UInt64.ofNat n) = some 0

theorem Covers.next {memory : UInt64 → Option UInt8} {left count : Nat}
    (covers : Covers memory ptr (left + 1) count) (nonzero : memory ptr ≠ some 0) :
    ∃ rest, count = rest + 1 ∧ Covers memory (ptr + 1) left rest := by
  rcases covers with all | ⟨n, upto, zero⟩
  · exact ⟨left, all, Or.inl rfl⟩
  · cases n with
    | zero => exact absurd (by simpa using zero) nonzero
    | succ n =>
        rw [← Memory.address_succ] at zero
        exact ⟨n + 1, upto, Or.inr ⟨n, rfl, zero⟩⟩

theorem Covers.positive {memory : UInt64 → Option UInt8} {left count : Nat}
    (covers : Covers memory ptr (left + 1) count) : 0 < count := by
  rcases covers with all | ⟨n, upto, _⟩
  · omega
  · omega

/-- Reading on from some point looks at the bytes that are covered from there. -/
theorem readUserBytes_touches {left count : Nat} (covers : Covers k.memory ptr left count)
    (before : List UInt8) : TouchesOnly (readUserBytes left ptr before) k ptr count := by
  intro memory agrees
  induction left generalizing ptr count before with
  | zero => rfl
  | succ left ih =>
      have same : memory ptr = k.memory ptr := by simpa using agrees 0 covers.positive
      cases here : k.memory ptr with
      | none =>
          rw [here] at same
          have fault : readByte ptr (withMemory memory k) = .faulted ptr := readByte_of_unmapped same
          rw [readUserBytes, Exec.bind_of_faulted fault,
            Exec.bind_of_faulted (readByte_of_unmapped here)]
          rfl
      | some byte =>
          rw [here] at same
          have read : readByte ptr (withMemory memory k) = .done byte (withMemory memory k) :=
            readByte_of_mapped same
          rw [readUserBytes, Exec.bind_of_done read, Exec.bind_of_done (readByte_of_mapped here)]
          split
          · rfl
          · next nonzero =>
              obtain ⟨rest, rfl, covers'⟩ := covers.next (by simpa [here] using nonzero)
              refine ih covers' _ (fun i inside => ?_)
              rw [Memory.address_succ]
              exact agrees (i + 1) (Nat.succ_lt_succ inside)

theorem readUserCstr_stops (k : Kernel) (ptr : UInt64) (maxLen : Nat) :
    StopsAtNul (readUserCstr ptr maxLen) k ptr maxLen := by
  have covered (count : Nat) (covers : Covers k.memory ptr maxLen count) :
      TouchesOnly (readUserCstr ptr maxLen) k ptr count := by
    unfold readUserCstr
    split
    · exact fun _ _ => rfl
    · exact readUserBytes_touches covers []
  constructor
  · exact fun n _ found => covered (n + 1) (Or.inr ⟨n, rfl, found.nul⟩)
  · exact fun _ => covered maxLen (Or.inl rfl)

/-- A read that succeeds has found a zero byte. -/
theorem readUserBytes_found {left : Nat} {before : List UInt8} {text : String} {k' : Kernel}
    (ran : readUserBytes left ptr before k = .done (some text) k') :
    ∃ bytes : List UInt8, bytes.length < left ∧ 0 ∉ bytes ∧ Holds k.memory ptr (bytes ++ [0]) ∧
      fromUtf8 (before ++ bytes) = some text := by
  induction left generalizing ptr before with
  | zero => cases ran
  | succ left ih =>
      cases here : k.memory ptr with
      | none =>
          rw [readUserBytes, Exec.bind_of_faulted (readByte_of_unmapped here)] at ran
          cases ran
      | some byte =>
          rw [readUserBytes, Exec.bind_of_done (readByte_of_mapped here)] at ran
          split at ran
          · next zero =>
              injection ran with decoded _
              subst zero
              refine ⟨[], Nat.zero_lt_succ left, List.not_mem_nil, ?_, by rwa [List.append_nil]⟩
              exact Memory.holds_cons.mpr ⟨here, fun i inside => absurd inside (Nat.not_lt_zero i)⟩
          · next nonzero =>
              obtain ⟨bytes, shorter, others, held, decoded⟩ := ih ran
              refine ⟨byte :: bytes, Nat.succ_lt_succ shorter, ?_, ?_, ?_⟩
              · rw [List.mem_cons, not_or]
                exact ⟨Ne.symm nonzero, others⟩
              · exact Memory.holds_cons.mpr ⟨here, held⟩
              · rwa [List.append_assoc] at decoded

/-- A read succeeds with the text before the first zero byte, if there is one. -/
theorem readUserCstr_succeeds_iff (nonnull : ptr ≠ 0) (maxLen : Nat) (text : String) :
    Finishes (readUserCstr ptr maxLen) (fun result _ => result = some text) k ↔
      ∃ n < maxLen, FirstNul k.memory ptr n ∧ Mapped k.memory ptr n ∧
        Utf8.encode text.toList = Memory.load k.memory ptr n := by
  unfold readUserCstr
  rw [if_neg nonnull]
  constructor
  · rintro ⟨_, k', ran, rfl⟩
    obtain ⟨bytes, shorter, nonzero, held, decoded⟩ := readUserBytes_found ran
    obtain ⟨first, mapped, loaded⟩ := Memory.holds_nul_iff.mp ⟨rfl, nonzero, held⟩
    refine ⟨bytes.length, shorter, first, mapped, ?_⟩
    rw [← loaded]
    exact Utf8.fromUTF8?_eq_some_iff.mp decoded
  · rintro ⟨n, inside, first, mapped, encoded⟩
    obtain ⟨length, nonzero, held⟩ := Memory.holds_nul_iff.mpr ⟨first, mapped, encoded⟩
    refine Finishes.of_done (readUserBytes_of_holds nonzero held) ?_
    rw [length, if_pos inside]
    exact Utf8.fromUTF8?_eq_some_iff.mpr rfl

theorem commutes_install (memory : UInt64 → Option UInt8) (file : OpenFile) :
    Commutes (withMemory memory) (install file) := by
  have add (a b : Int) : Commutes (withMemory memory) (Exec.i64Add a b) := by
    unfold Exec.i64Add
    split
    · exact Commutes.ret _
    · exact fun _ => rfl
  refine Commutes.get_bind (fun _ => rfl) (fun k => ?_)
  split
  · exact Commutes.bind (Commutes.modify (fun _ => rfl)) (fun _ => add _ _)
  · split
    · refine Commutes.bind (Commutes.modify (fun _ => rfl)) (fun _ => ?_)
      exact Commutes.bind (add _ _) (fun _ => add _ _)
    · exact fun _ => rfl

theorem sysOpen_stops (k : Kernel) (nonnull : ptr ≠ 0) (flags : Int32) :
    StopsAtNul (sysOpen ptr flags) k ptr 256 := by
  unfold sysOpen
  rw [if_neg nonnull]
  refine (readUserCstr_stops k ptr 256).andThen (fun text memory => ?_)
  cases text with
  | none => exact Commutes.ret _
  | some text =>
      dsimp only
      split
      · exact Commutes.ret _
      · split
        · exact Commutes.ret _
        · exact commutes_install memory _

theorem sysExecve_stops (k : Kernel) (nonnull : ptr ≠ 0) : StopsAtNul (sysExecve ptr) k ptr 256 := by
  unfold sysExecve
  rw [if_neg nonnull]
  refine (readUserCstr_stops k ptr 256).andThen (fun text memory => ?_)
  cases text with
  | none => exact Commutes.ret _
  | some text =>
      refine Commutes.bind (commutes_pending memory) (fun _ => ?_)
      refine Commutes.get_bind (fun _ => rfl) (fun k => ?_)
      refine Commutes.bind (Commutes.modify (fun _ => rfl)) (fun _ => ?_)
      split
      · exact Commutes.ret _
      · exact Commutes.ret _

/-- A string of user memory is read up to its zero byte and no further. -/
theorem user_string_read_to_nul (k : Kernel) (ptr : UInt64) (nonnull : ptr ≠ 0) (maxLen : Nat) :
    (∀ text : String, Finishes (readUserCstr ptr maxLen) (fun result _ => result = some text) k ↔
      ∃ n < maxLen, FirstNul k.memory ptr n ∧ Mapped k.memory ptr n ∧
        Utf8.encode text.toList = Memory.load k.memory ptr n) ∧
    StopsAtNul (readUserCstr ptr maxLen) k ptr maxLen ∧
    (∀ flags, StopsAtNul (sysOpen ptr flags) k ptr 256) ∧
    StopsAtNul (sysExecve ptr) k ptr 256 := by
  refine ⟨readUserCstr_succeeds_iff nonnull maxLen, readUserCstr_stops k ptr maxLen, ?_, ?_⟩
  · exact sysOpen_stops k nonnull
  · exact sysExecve_stops k nonnull

/-- One slash whose zero byte is the last byte that is mapped. -/
def atTheEdge : Kernel := { booted with memory := Memory.store (fun _ => none) 4096 [0x2f, 0] }

theorem slash_read_to_nul :
    Finishes (readUserCstr 4096 2) (fun result _ => result = some "/") atTheEdge ∧
      TouchesOnly (sysOpen 4096 0) atTheEdge 4096 2 := by
  obtain ⟨succeeds, _, opens, _⟩ := user_string_read_to_nul atTheEdge 4096 (by decide) 2
  have first : FirstNul atTheEdge.memory 4096 1 := by
    constructor
    · decide
    · intro i inside
      rw [Nat.lt_one_iff.mp inside]
      decide
  refine ⟨(succeeds "/").mpr ⟨1, by decide, first, ?_, by decide⟩, (opens 0).nul 1 (by decide) first⟩
  intro i inside
  rw [Nat.lt_one_iff.mp inside]
  decide

end ComputeKernel.Kernel
