import ComputeKernel.Syscall.Meanwhile

/-! The loops of `sys_read` and `waitpid` that wait for interrupts. Every turn that
goes on uses up a batch of them, so the fuel of the model never runs out: it halts
where the source waits for an interrupt that does not come. -/
namespace ComputeKernel
namespace Kernel
open Checked (Exec Returns Within)

/-- Code that brings no interrupts of its own. -/
def Waning (m : Exec Kernel α) : Prop :=
  ∀ k a k', m k = .done a k' → k'.arrivals.length ≤ k.arrivals.length

/-- The interrupts that arrive in the meantime are used up. -/
theorem Passive.waning {m : Exec Kernel α} (passive : Passive m) : Waning m := by
  intro k a k' ran
  obtain ⟨batches, arrived, _⟩ := (Within.done passive ran).procs
  rw [arrived, List.length_append]
  exact Nat.le_add_left _ _

theorem waning_onProcs (m : Exec Procs α) : Waning (onProcs m) :=
  fun _ => Returns.zoom (fun _ _ _ => Nat.le_refl _)

/-- A batch that is there is used up. -/
theorem pending_uses {k k' : Kernel} (ran : pending k = .done () k') :
    k'.arrivals.length ≤ k.arrivals.length - 1 := by
  unfold pending at ran
  rw [Exec.get_bind] at ran
  cases batches : k.arrivals with
  | nil =>
      simp only [batches, Exec.ret_run, Checked.Outcome.done.injEq, true_and] at ran
      rw [← ran, batches]
      exact Nat.le_refl _
  | cons batch rest =>
      simp only [batches, Exec.modify_bind] at ran
      rw [(forEach_interrupt batch _ () k' ran).2.1]
      exact Nat.le_refl _

theorem hlt_uses {k k' : Kernel} (ran : hlt k = .done () k') :
    k'.arrivals.length < k.arrivals.length := by
  unfold hlt at ran
  rw [Exec.get_bind] at ran
  cases batches : k.arrivals with
  | nil => simp [batches, Exec.halt] at ran
  | cons batch rest =>
      simp only [batches] at ran
      have used := pending_uses ran
      rw [batches] at used
      exact Nat.lt_succ_of_le used

theorem readFirst_fuel_irrelevant {buf : UInt64} {len fuel fuel' : Nat} {k : Kernel}
    (enough : k.arrivals.length < fuel) (enough' : k.arrivals.length < fuel') :
    readFirst buf len fuel k = readFirst buf len fuel' k := by
  induction fuel generalizing fuel' k with
  | zero => exact absurd enough (Nat.not_lt_zero _)
  | succ fuel ih =>
      cases fuel' with
      | zero => exact absurd enough' (Nat.not_lt_zero _)
      | succ fuel' =>
          unfold readFirst
          apply Exec.bind_congr
          intro _ k₁ ran
          have first := passive_pending.waning _ _ _ ran
          rw [Exec.get_bind, Exec.get_bind]
          split
          · rfl
          apply Exec.bind_congr
          intro ch k₂ ran
          have second := passive_readChar.waning _ _ _ ran
          cases ch with
          | some ch => rfl
          | none =>
              apply Exec.bind_congr
              intro _ k₃ ran
              have third := hlt_uses ran
              exact ih (by omega) (by omega)

theorem waitpid_fuel_irrelevant {target : Option UInt32} {fuel fuel' : Nat} {k : Kernel}
    (enough : k.arrivals.length < fuel) (enough' : k.arrivals.length < fuel') :
    waitpid target fuel k = waitpid target fuel' k := by
  induction fuel generalizing fuel' k with
  | zero => exact absurd enough (Nat.not_lt_zero _)
  | succ fuel ih =>
      cases fuel' with
      | zero => exact absurd enough' (Nat.not_lt_zero _)
      | succ fuel' =>
          unfold waitpid
          apply Exec.bind_congr
          intro _ k₁ ran
          have first := passive_pending.waning _ _ _ ran
          apply Exec.bind_congr
          intro result k₂ ran
          have second := waning_onProcs _ _ _ _ ran
          match result with
          | .error message => rfl
          | .ok (some child) => rfl
          | .ok none =>
              apply Exec.bind_congr
              intro _ k₃ ran
              have third := hlt_uses ran
              exact ih (by omega) (by omega)

end Kernel
end ComputeKernel
