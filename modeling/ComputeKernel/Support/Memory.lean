import Mathlib.Algebra.Group.Nat.Defs
import Mathlib.Logic.Function.Basic

/-! Byte-addressed memory as a partial map: blocks of bytes held at an address, and
what storing a block changes. -/
namespace Memory

/-- The bytes stand one after another from an address on. -/
def Holds (memory : UInt64 → Option UInt8) (address : UInt64) (bytes : List UInt8) : Prop :=
  ∀ i, i < bytes.length → memory (address + UInt64.ofNat i) = bytes[i]?

/-- So many bytes from an address on are mapped. -/
def Mapped (memory : UInt64 → Option UInt8) (address : UInt64) (count : Nat) : Prop :=
  ∀ i, i < count → (memory (address + UInt64.ofNat i)).isSome

/-- The memory after a block has been stored. -/
def store (memory : UInt64 → Option UInt8) (address : UInt64) :
    List UInt8 → UInt64 → Option UInt8
  | [] => memory
  | byte :: bytes => store (Function.update memory address (some byte)) (address + 1) bytes

variable {memory : UInt64 → Option UInt8} {address : UInt64} {byte : UInt8} {bytes : List UInt8}

theorem Mapped.update {count : Nat} (mapped : Mapped memory address count) (other : UInt64)
    (byte : UInt8) : Mapped (Function.update memory other (some byte)) address count := by
  intro i inside
  rw [Function.update_apply]
  split
  · rfl
  · exact mapped i inside

theorem Holds.mapped (held : Holds memory address bytes) : Mapped memory address bytes.length := by
  intro i inside
  rw [held i inside, List.getElem?_eq_getElem inside]
  rfl

theorem address_succ (i : Nat) : address + 1 + UInt64.ofNat i = address + UInt64.ofNat (i + 1) := by
  rw [UInt64.ofNat_add, UInt64.add_assoc, UInt64.add_comm 1]
  rfl

theorem holds_cons :
    Holds memory address (byte :: bytes) ↔
      memory address = some byte ∧ Holds memory (address + 1) bytes := by
  constructor
  · intro held
    constructor
    · simpa using held 0 (Nat.zero_lt_succ _)
    · intro i inside
      rw [address_succ]
      simpa using held (i + 1) (Nat.succ_lt_succ inside)
  · rintro ⟨first, rest⟩ i inside
    cases i with
    | zero => simpa using first
    | succ i =>
        rw [← address_succ]
        simpa using rest i (Nat.lt_of_succ_lt_succ inside)

/-- The distance of an address grows by one when the block starts one byte earlier. -/
theorem distance_succ {a : UInt64} (other : a ≠ address) :
    (a - address).toNat = (a - (address + 1)).toNat + 1 := by
  have apart : a.toNat ≠ address.toNat := fun same => other (UInt64.toNat_inj.mp same)
  have below := a.toNat_lt
  have below' := address.toNat_lt
  rw [UInt64.toNat_sub, UInt64.toNat_sub, UInt64.toNat_add, UInt64.toNat_one]
  omega

theorem distance_self : (address - (address + 1)).toNat = 2 ^ 64 - 1 := by
  have below := address.toNat_lt
  rw [UInt64.toNat_sub, UInt64.toNat_add, UInt64.toNat_one]
  omega

/-- A stored block is found at its addresses, and all else is as before. -/
theorem store_apply (fits : bytes.length ≤ 2 ^ 64) (a : UInt64) :
    store memory address bytes a =
      if (a - address).toNat < bytes.length then bytes[(a - address).toNat]? else memory a := by
  induction bytes generalizing memory address with
  | nil => rfl
  | cons byte bytes ih =>
      rw [List.length_cons] at fits
      rw [store, ih (by omega), List.length_cons]
      by_cases same : a = address
      · subst same
        rw [distance_self, if_neg (by omega), Function.update_self, UInt64.sub_self]
        rfl
      · rw [distance_succ same, Function.update_of_ne same, List.getElem?_cons_succ]
        simp only [Nat.add_lt_add_iff_right]

/-- Storing over the start of a block keeps the rest of it. -/
theorem Holds.store {source : List UInt8} (held : Holds memory address bytes)
    (inside : source.length ≤ bytes.length) (fits : bytes.length ≤ 2 ^ 64) :
    Holds (store memory address source) address (source ++ bytes.drop source.length) := by
  intro i below
  rw [List.length_append, List.length_drop] at below
  have distance : (address + UInt64.ofNat i - address).toNat = i := by
    rw [UInt64.add_comm, UInt64.add_sub_cancel, UInt64.toNat_ofNat']
    exact Nat.mod_eq_of_lt (by omega)
  rw [store_apply (by omega), distance]
  split
  · next early => rw [List.getElem?_append_left early]
  · next late =>
      rw [held i (by omega), List.getElem?_append_right (by omega), List.getElem?_drop]
      congr 1
      omega

/-- The bytes that are mapped among those from an address on. -/
def load (memory : UInt64 → Option UInt8) (address : UInt64) (count : Nat) : List UInt8 :=
  (List.range count).filterMap (fun i => memory (address + UInt64.ofNat i))

theorem load_succ (count : Nat) :
    load memory address (count + 1) = (memory address).toList ++ load memory (address + 1) count := by
  unfold load
  rw [List.range_succ_eq_map, List.filterMap_cons, List.filterMap_map]
  have rest : (fun i => memory (address + UInt64.ofNat i)) ∘ Nat.succ =
      fun i => memory (address + 1 + UInt64.ofNat i) := by
    funext i
    rw [address_succ]
    rfl
  rw [rest, show address + UInt64.ofNat 0 = address from UInt64.add_zero address]
  cases memory address with
  | none => rfl
  | some byte => rfl

theorem load_of_holds (held : Holds memory address bytes) : load memory address bytes.length = bytes := by
  induction bytes generalizing address with
  | nil => rfl
  | cons byte bytes ih =>
      obtain ⟨first, rest⟩ := holds_cons.mp held
      rw [List.length_cons, load_succ, first, ih rest]
      rfl

theorem holds_store (fits : bytes.length < 2 ^ 64) : Holds (store memory address bytes) address bytes := by
  intro i inside
  have distance : (address + UInt64.ofNat i - address).toNat = i := by
    rw [UInt64.add_comm, UInt64.add_sub_cancel, UInt64.toNat_ofNat']
    exact Nat.mod_eq_of_lt (by omega)
  rw [store_apply (by omega), distance, if_pos inside]

theorem mapped_succ {count : Nat} :
    Mapped memory address (count + 1) ↔
      (memory address).isSome ∧ Mapped memory (address + 1) count := by
  constructor
  · intro mapped
    constructor
    · simpa using mapped 0 (Nat.zero_lt_succ count)
    · intro i inside
      rw [address_succ]
      exact mapped (i + 1) (Nat.succ_lt_succ inside)
  · rintro ⟨first, rest⟩ i inside
    cases i with
    | zero => simpa using first
    | succ i =>
        rw [← address_succ]
        exact rest i (Nat.lt_of_succ_lt_succ inside)

/-- Mapped memory holds what is loaded from it. -/
theorem Mapped.load {count : Nat} (mapped : Mapped memory address count) :
    (load memory address count).length = count ∧
      Holds memory address (Memory.load memory address count) := by
  induction count generalizing address with
  | zero => exact ⟨rfl, fun i inside => absurd inside (Nat.not_lt_zero i)⟩
  | succ count ih =>
      obtain ⟨first, rest⟩ := mapped_succ.mp mapped
      obtain ⟨byte, found⟩ := Option.isSome_iff_exists.mp first
      obtain ⟨length, held⟩ := ih rest
      rw [load_succ, found]
      exact ⟨congrArg Nat.succ length, holds_cons.mpr ⟨found, held⟩⟩

theorem holds_concat :
    Holds memory address (bytes ++ [byte]) ↔
      Holds memory address bytes ∧ memory (address + UInt64.ofNat bytes.length) = some byte := by
  induction bytes generalizing address with
  | nil => simp [Holds]
  | cons first bytes ih =>
      rw [List.cons_append, holds_cons, holds_cons, ih, address_succ, List.length_cons, and_assoc]

/-- The first zero byte from an address on is that many bytes away. -/
structure FirstNul (memory : UInt64 → Option UInt8) (address : UInt64) (count : Nat) : Prop where
  nul : memory (address + UInt64.ofNat count) = some 0
  before : ∀ i < count, memory (address + UInt64.ofNat i) ≠ some 0

/-- A block without a zero byte and the zero byte after it are what is loaded up to the
first zero byte. -/
theorem holds_nul_iff {count : Nat} :
    bytes.length = count ∧ 0 ∉ bytes ∧ Holds memory address (bytes ++ [0]) ↔
      FirstNul memory address count ∧ Mapped memory address count ∧
        bytes = load memory address count := by
  constructor
  · rintro ⟨rfl, nonzero, held⟩
    obtain ⟨block, nul⟩ := holds_concat.mp held
    refine ⟨⟨nul, ?_⟩, block.mapped, (load_of_holds block).symm⟩
    intro i inside zero
    rw [block i inside] at zero
    exact nonzero (List.mem_of_getElem? zero)
  · rintro ⟨first, mapped, rfl⟩
    obtain ⟨length, held⟩ := mapped.load
    refine ⟨length, ?_, holds_concat.mpr ⟨held, ?_⟩⟩
    · intro member
      obtain ⟨i, inside, zero⟩ := List.getElem_of_mem member
      have found := held i inside
      rw [List.getElem?_eq_getElem inside, zero] at found
      exact first.before i (length ▸ inside) found
    · rw [length]
      exact first.nul

end Memory
