import ComputeKernel.Support.Memory
import ComputeKernel.Support.Returns
import ComputeKernel.Syscall.Model

/-! What the accesses to user memory do when the memory is mapped. -/
namespace ComputeKernel.Kernel
open Checked (Exec Returns)
open Memory (Holds Mapped)

variable {k : Kernel}

theorem fromUtf8_toByteArray (text : String) :
    fromUtf8 text.toByteArray.data.toList = some text := by
  unfold fromUtf8 String.fromUTF8?
  exact dif_pos text.isValidUTF8

theorem readByte_of_mapped {address : UInt64} {byte : UInt8} (mapped : k.memory address = some byte) :
    readByte address k = .done byte k := by
  unfold readByte
  rw [Exec.get_bind, mapped]
  rfl

theorem readByte_of_unmapped {address : UInt64} (unmapped : k.memory address = none) :
    readByte address k = .faulted address := by
  unfold readByte
  rw [Exec.get_bind, unmapped]
  rfl

theorem readBytes_of_holds {buf : UInt64} {bytes : List UInt8} (held : Holds k.memory buf bytes) :
    readBytes buf bytes.length k = .done bytes k := by
  induction bytes generalizing buf with
  | nil => rfl
  | cons byte bytes ih =>
      obtain ⟨first, rest⟩ := Memory.holds_cons.mp held
      rw [List.length_cons, readBytes, Exec.bind_of_done (readByte_of_mapped first),
        Exec.bind_of_done (ih rest), Exec.ret_run]

theorem writeByte_of_mapped {address : UInt64} {byte old : UInt8}
    (mapped : k.memory address = some old) :
    writeByte address byte k =
      .done () { k with memory := Function.update k.memory address (some byte) } := by
  have updated : (fun a => if a = address then some byte else k.memory a) =
      Function.update k.memory address (some byte) := by
    funext a
    rw [Function.update_apply]
  unfold writeByte
  rw [Exec.get_bind, mapped, ← updated]
  rfl

theorem storeAt_of_mapped {buf : UInt64} {len i : Nat} (mapped : Mapped k.memory buf len)
    (inside : i < len) (byte : UInt8) :
    storeAt buf len i byte k = .done () { k with
      memory := Function.update k.memory (buf + UInt64.ofNat i) (some byte) } := by
  obtain ⟨old, found⟩ := Option.isSome_iff_exists.mp (mapped i inside)
  rw [storeAt, if_pos inside]
  exact writeByte_of_mapped found

theorem writeBytes_of_mapped {source : List UInt8} {buf : UInt64}
    (mapped : Mapped k.memory buf source.length) :
    writeBytes buf source k = .done () { k with memory := Memory.store k.memory buf source } := by
  induction source generalizing k buf with
  | nil => rfl
  | cons byte source ih =>
      obtain ⟨old, first⟩ := Option.isSome_iff_exists.mp (mapped 0 (Nat.zero_lt_succ _))
      change k.memory (buf + 0) = some old at first
      rw [UInt64.add_zero] at first
      rw [writeBytes, Exec.bind_of_done (writeByte_of_mapped first), ih]
      · rfl
      · intro i inside
        rw [Memory.address_succ]
        exact mapped.update buf byte (i + 1) (Nat.succ_lt_succ inside)

/-- What a copy to user memory has done when it returns. -/
theorem writeBytes_returns (bytes : List UInt8) (buf : UInt64) :
    Returns (writeBytes buf bytes)
      (fun _ k' => k' = { k with memory := Memory.store k.memory buf bytes }) k := by
  induction bytes generalizing buf k with
  | nil => exact Returns.ret rfl
  | cons byte bytes ih =>
      apply Returns.bind
      intro _ k' ran
      cases mapped : k.memory buf with
      | none =>
          unfold writeByte at ran
          rw [Exec.get_bind, mapped] at ran
          cases ran
      | some old =>
          rw [writeByte_of_mapped mapped] at ran
          cases ran
          exact ih (buf + 1)

theorem writeBytes_of_holds {source bytes : List UInt8} {buf : UInt64}
    (held : Holds k.memory buf bytes) (inside : source.length ≤ bytes.length) :
    writeBytes buf source k = .done () { k with memory := Memory.store k.memory buf source } := by
  apply writeBytes_of_mapped
  exact fun i below => held.mapped i (by omega)

/-- The text stands at an address of user memory, with the zero byte that ends it. -/
structure StoredAt (k : Kernel) (ptr : UInt64) (text : String) : Prop where
  nonnull : ptr ≠ 0
  nonzero : 0 ∉ text.toByteArray.data.toList
  held : Holds k.memory ptr (text.toByteArray.data.toList ++ [0])

/-- Reading goes on to the zero byte, or gives up when there is no room for it. -/
theorem readUserBytes_of_holds {left : Nat} {ptr : UInt64} {before bytes : List UInt8}
    (nonzero : 0 ∉ bytes) (held : Holds k.memory ptr (bytes ++ [0])) :
    readUserBytes left ptr before k =
      .done (if bytes.length < left then fromUtf8 (before ++ bytes) else none) k := by
  induction bytes generalizing left ptr before with
  | nil =>
      cases left with
      | zero => rfl
      | succ left =>
          obtain ⟨zero, _⟩ := Memory.holds_cons.mp held
          rw [readUserBytes, Exec.bind_of_done (readByte_of_mapped zero), if_pos rfl,
            List.append_nil, List.length_nil, if_pos (Nat.zero_lt_succ left), Exec.ret_run]
  | cons byte bytes ih =>
      obtain ⟨differs, others⟩ := not_or.mp (mt List.mem_cons.mpr nonzero)
      cases left with
      | zero => rfl
      | succ left =>
          obtain ⟨first, rest⟩ := Memory.holds_cons.mp held
          rw [readUserBytes, Exec.bind_of_done (readByte_of_mapped first),
            if_neg (Ne.symm differs), ih others rest, List.append_assoc]
          simp only [List.length_cons, Nat.add_lt_add_iff_right, List.singleton_append]

theorem readUserCstr_of_stored {ptr : UInt64} {text : String} (stored : k.StoredAt ptr text)
    (maxLen : Nat) :
    readUserCstr ptr maxLen k =
      .done (if text.toByteArray.data.toList.length < maxLen then some text else none) k := by
  rw [readUserCstr, if_neg stored.nonnull, readUserBytes_of_holds stored.nonzero stored.held,
    List.nil_append, fromUtf8_toByteArray]

end ComputeKernel.Kernel
