import ComputeKernel.Process.Signals
import ComputeKernel.Syscall.WaitStatus

/-! Where the deaths of processes come from. A process dies by its own `exit`, or in a tick
of its own by a signal that some `kill` has sent to it, and the status that its parent gets
is the one recorded then. Entries are followed by their index. -/
namespace ComputeKernel.Procs
open Runs (Happened)
open FirstMatch (editFirst getElem?_editFirst)

/-- The step is a `kill` that is accepted and finds the entry at an index. -/
def sends (s : Procs) (op : Op) (i : Nat) (sig : UInt8) : Prop :=
  ∃ pid, op = .kill pid sig ∧ (s.kill pid sig).1 = .ok () ∧
    s.table.findIdx? (fun p => p.pid == pid) = some i

/-- The signal has been sent to the entry that is at the index after a run. -/
def Sent (sig : UInt8) (ops : List Op) (i : Nat) : Prop :=
  Happened step survivor (fun before op k => (run boot before).sends op k sig) boot ops i

/-- The entry that is at the index after a run has been terminated, for a reason given before. -/
def Died (cause : Cause) (ops : List Op) (i : Nat) : Prop :=
  Happened step survivor (fun before op k => (run boot before).death op k = some cause ∧
    ∀ sig, cause = .signalled sig → Sent sig before k) boot ops i

/-- Every zombie has died with the exit code that it has, and `waitpid` returns no others. -/
structure Explained (ops : List Op) : Prop where
  zombies : ∀ i p, (run boot ops).table[i]? = some p → p.state = .zombie →
    ∃ cause, Died cause ops i ∧ p.exitCode = recorded cause
  reports : ∀ target pid code, ((run boot ops).waitpid target).1 = .ok (some (pid, code)) →
    ∃ i p cause, (run boot ops).table[i]? = some p ∧ p.pid = pid ∧ Died cause ops i ∧
      code = recorded cause

variable {s : Procs} {op : Op} {i j : Nat} {p q : Process} {ops : List Op}

/-- Signals have bits of their own. -/
theorem eq_of_hasSignal {sig sig' : UInt8} (valid : sig ≤ 31) (valid' : sig' ≤ 31)
    (raised : hasSignal (1 <<< sig.toUInt32) sig' = true) : sig = sig' := by
  have every : ∀ a < 32, ∀ b < 32,
      hasSignal (1 <<< (UInt8.ofNat a).toUInt32) (UInt8.ofNat b) = true → a = b := by
    decide +kernel
  have below : sig.toNat < 32 := Nat.lt_succ_of_le (UInt8.le_iff_toNat_le.mp valid)
  have below' : sig'.toNat < 32 := Nat.lt_succ_of_le (UInt8.le_iff_toNat_le.mp valid')
  refine UInt8.toNat_inj.mp (every _ below _ below' ?_)
  rw [UInt8.ofNat_toNat, UInt8.ofNat_toNat]
  exact raised

theorem hasSignal_zero (sig : UInt8) : hasSignal 0 sig = false := by
  unfold hasSignal
  rw [UInt32.zero_and]
  rfl

theorem terminatingSig_spec {pending : UInt32} {sig : UInt8}
    (fatal : terminatingSig pending = some sig) : hasSignal pending sig = true ∧ sig ≤ 31 := by
  unfold terminatingSig at fatal
  split_ifs at fatal with kill term int quit
  · cases fatal
    exact ⟨kill, by decide⟩
  · cases fatal
    exact ⟨term, by decide⟩
  · cases fatal
    exact ⟨int, by decide⟩
  · cases fatal
    exact ⟨quit, by decide⟩

/-- No step but a `kill` raises a signal. -/
theorem Edited.pending_of_no_kill (edited : Edited s op p q) (noKill : ∀ pid sig, op ≠ .kill pid sig) :
    q.pendingSignals = p.pendingSignals ∨ q.pendingSignals = 0 := by
  cases edited with
  | same p stays => exact .inl rfl
  | execve path self => exact .inr rfl
  | signalled pid sig found => exact absurd rfl (noKill pid sig)
  | dispatched self =>
      cases fatal : terminatingSig p.pendingSignals with
      | none => exact .inr (by rw [dispatched_of_none fatal])
      | some sig => exact .inr (by rw [dispatched_of_some fatal])
  | exited exits self => exact .inl (by simp)
  | reparented exits => exact .inl (by simp)

/-- A `kill` raises its signal in the entry that it finds, and nothing else. -/
theorem kill_pending (pid : UInt32) (sig : UInt8) (present : s.table[i]? = some p) :
    ∃ q, (s.kill pid sig).2.table[i]? = some q ∧ (q = p ∨
      sig ≤ 31 ∧ s.sends (.kill pid sig) i sig ∧
        q.pendingSignals = p.pendingSignals ||| (1 <<< sig.toUInt32)) := by
  unfold sends
  cases found : s.table.find? (fun p => p.pid == pid) with
  | none =>
      refine ⟨p, ?_, .inl rfl⟩
      unfold kill
      rw [found]
      split <;> exact present
  | some target =>
      by_cases valid : sig > 31
      · exact ⟨p, by rw [kill, if_pos valid]; exact present, .inl rfl⟩
      · by_cases null : sig = 0
        · refine ⟨p, ?_, .inl rfl⟩
          subst null
          rw [kill, if_neg valid, found]
          exact present
        · have raised : (sig != 0) = true := by simpa using null
          have accepted : s.kill pid sig = (.ok (), s.edit pid (fun p =>
              { p with pendingSignals := p.pendingSignals ||| (1 <<< sig.toUInt32) })) := by
            rw [kill, if_neg valid, found]
            simp only [raised, if_true]
          rw [accepted, edit_table, getElem?_editFirst]
          split
          · next here =>
              rw [present]
              exact ⟨_, rfl, .inr ⟨UInt8.not_lt.mp valid, ⟨pid, rfl, congrArg Prod.fst accepted, here⟩, rfl⟩⟩
          · exact ⟨p, present, .inl rfl⟩

/-- A pending signal was pending before the step, or the step has sent it. -/
theorem step_pending (present : s.table[i]? = some p) (stays : s.survivor op i = some j) :
    ∃ q, (s.step op).table[j]? = some q ∧ ∀ sig ≤ 31, hasSignal q.pendingSignals sig = true →
      hasSignal p.pendingSignals sig = true ∨ s.sends op i sig := by
  by_cases isKill : ∃ pid sig, op = .kill pid sig
  · obtain ⟨pid, sig, rfl⟩ := isKill
    cases stays
    obtain ⟨q, after, same | ⟨valid, sends, raised⟩⟩ := kill_pending pid sig present
    · exact ⟨q, after, fun sig' _ pending => .inl (same ▸ pending)⟩
    · refine ⟨q, after, fun sig' valid' pending => ?_⟩
      rw [raised, hasSignal_or, Bool.or_eq_true] at pending
      rcases pending with old | new
      · exact .inl old
      · exact .inr (eq_of_hasSignal valid valid' new ▸ sends)
  · obtain ⟨q, after, edited⟩ := step_entry present stays
    refine ⟨q, after, fun sig _ pending => .inl ?_⟩
    rcases edited.pending_of_no_kill (fun pid sig same => isKill ⟨pid, sig, same⟩) with same | zero
    · exact same ▸ pending
    · rw [zero, hasSignal_zero] at pending
      cases pending

/-- What is known about an entry: where its pending signals and its death come from. -/
structure Accounted (ops : List Op) (i : Nat) (p : Process) : Prop where
  pending : ∀ sig ≤ 31, hasSignal p.pendingSignals sig = true → Sent sig ops i
  dead : p.state = .zombie → ∃ cause, Died cause ops i ∧ p.exitCode = recorded cause

theorem accounted_fresh (quiet : p.pendingSignals = 0) (live : p.state ≠ .zombie) :
    Accounted ops i p where
  pending := by
    intro sig _ raised
    rw [quiet, hasSignal_zero] at raised
    cases raised
  dead := fun zombie => absurd zombie live

/-- A fatal signal that terminates an entry was pending there. -/
theorem hasSignal_of_death {sig : UInt8} (present : s.table[i]? = some p)
    (died : s.death op i = some (.signalled sig)) :
    hasSignal p.pendingSignals sig = true ∧ sig ≤ 31 := by
  unfold death at died
  split at died
  · cases op with
    | tick =>
        rw [present] at died
        obtain ⟨sig', fatal, same⟩ := Option.map_eq_some_iff.mp died
        cases same
        exact terminatingSig_spec fatal
    | exit code => cases died
    | exitSection code => cases died
    | _ => cases died
  · cases died

theorem Accounted.step (known : Accounted ops i p) (present : (run boot ops).table[i]? = some p)
    (stays : (run boot ops).survivor op i = some j)
    (after : ((run boot ops).step op).table[j]? = some q) : Accounted (ops ++ [op]) j q where
  pending := by
    intro sig valid raised
    obtain ⟨q', there, origin⟩ := step_pending present stays
    obtain rfl := Option.some.inj (after.symm.trans there)
    rcases origin sig valid raised with old | sent
    · exact (known.pending sig valid old).later stays
    · exact Happened.now sent stays
  dead := by
    intro zombie
    obtain ⟨q', there, follows⟩ := step_follows op present stays
    obtain rfl := Option.some.inj (after.symm.trans there)
    cases died : (run boot ops).death op i with
    | none =>
        rw [died] at follows
        obtain ⟨cause, death, code⟩ := known.dead (follows.1.symm.trans zombie)
        exact ⟨cause, death.later stays, follows.2.trans code⟩
    | some cause =>
        rw [died] at follows
        refine ⟨cause, Happened.now ⟨died, ?_⟩ stays, follows.2.1⟩
        rintro sig rfl
        obtain ⟨pending, valid⟩ := hasSignal_of_death present died
        exact known.pending sig valid pending

theorem boot_accounted (present : boot.table[i]? = some p) : Accounted [] i p := by
  have fresh : ∀ p ∈ boot.table, p.pendingSignals = 0 ∧ p.state ≠ .zombie := by decide
  obtain ⟨quiet, live⟩ := fresh p (List.mem_of_getElem? present)
  exact accounted_fresh quiet live

/-- Induction over the run: an entry comes from one that was there before the step, or is
the child of a `fork`. -/
theorem run_accounted (ops : List Op) {i : Nat} {p : Process}
    (present : (run boot ops).table[i]? = some p) : Accounted ops i p := by
  induction ops using List.reverseRecOn generalizing i p with
  | nil => exact boot_accounted present
  | append_singleton ops op ih =>
      have after : ((run boot ops).step op).table[i]? = some p := by
        rw [run, Runs.run_append] at present
        exact present
      rcases step_entry_back after with ⟨k, q, before, stays, _⟩ | ⟨parent, _, _, rfl⟩
      · exact (ih before).step before stays after
      · exact accounted_fresh rfl ProcessState.noConfusion

/-- Nobody dies unasked: in every run, a zombie has been terminated by its own `exit` or by
a fatal signal that an accepted `kill` had sent to it before, its exit code is the one of
that death, and this is what `waitpid` returns to its parent. -/
theorem deaths_explained (ops : List Op) : Explained ops where
  zombies := fun _ _ present zombie => (run_accounted ops present).dead zombie
  reports := by
    intro target pid code returned
    cases taken : (run boot ops).zombieChild target with
    | none =>
        unfold waitpid at returned
        rw [taken] at returned
        split at returned
        · cases returned
        · cases returned
    | some entry =>
        obtain ⟨p, idx⟩ := entry
        obtain ⟨present, _, zombie, _⟩ := zombieChild_spec taken
        rw [waitpid_of_zombieChild taken] at returned
        cases returned
        obtain ⟨cause, died, code⟩ := (run_accounted ops present).dead zombie
        exact ⟨idx, p, cause, present, rfl, died, code⟩

end ComputeKernel.Procs
