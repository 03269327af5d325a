import ComputeKernel.Process.Conservation

/-! Whether a process can wait for itself. `waitpid` looks for entries whose parent
is the caller and never asks whether an entry is the caller's own, while idle boots
as its own parent and `exit` can make init its own parent. -/
namespace ComputeKernel.Procs

/-- One iteration of `waitpid` leaves the caller's own entry alone and fails when
only that entry could be meant. -/
def ChildIsOther (s : Procs) (target : Option UInt32) : Prop :=
  (∀ pid code, (s.waitpid target).1 = .ok (some (pid, code)) → pid ≠ s.currentPid) ∧
  (∀ p, s.caller = some p → p ∈ (s.waitpid target).2.table) ∧
  ((∀ p ∈ s.table, s.isChild target p = true → p.pid = s.currentPid) →
    (s.waitpid target).1 = .error "waitpid: no child")

/-- When an entry of the caller is a child that the target admits, some other entry
is one too, and no entry of the caller is the first zombie among them. -/
def OwnEntryHidden (s : Procs) (target : Option UInt32) : Prop :=
  ∀ (i : Nat) (p : Process), s.table[i]? = some p → p.pid = s.currentPid →
    s.isChild target p = true →
    (∃ q ∈ s.table, q.pid ≠ s.currentPid ∧ s.isChild target q = true) ∧
    (p.state = .zombie → ∃ j < i, ∃ q, s.table[j]? = some q ∧ q.pid ≠ s.currentPid ∧
      s.isChild target q = true ∧ q.state = .zombie)

/-- `waitpid` takes the first zombie child that the target admits. -/
theorem zombieChild_first {s : Procs} {target : Option UInt32} {p : Process} {idx : Nat}
    (taken : s.zombieChild target = some (p, idx)) {j : Nat} {q : Process}
    (there : s.table[j]? = some q) (child : s.isChild target q = true)
    (dead : q.state = .zombie) : idx ≤ j := by
  obtain ⟨_, i, inside, here, earlier⟩ := List.find?_eq_some_iff_getElem.mp taken
  by_contra before
  have below : j < i := by
    rw [List.getElem_zipIdx, Prod.mk.injEq] at here
    omega
  have missed := earlier j below
  obtain ⟨_, rfl⟩ := List.getElem?_eq_some_iff.mp there
  simp only [isChild, Bool.and_eq_true, beq_iff_eq] at child
  simp [List.getElem_zipIdx, child, dead] at missed

theorem zombieChild_none {s : Procs} {target : Option UInt32} (free : s.zombieChild target = none)
    {q : Process} (present : q ∈ s.table) (child : s.isChild target q = true) :
    q.state ≠ .zombie := by
  intro dead
  obtain ⟨j, there⟩ := List.mem_iff_getElem?.mp present
  have missed := List.find?_eq_none.mp free (q, j) (List.mem_zipIdx_iff_getElem?.mpr there)
  simp only [isChild, Bool.and_eq_true, beq_iff_eq] at child
  simp [child, dead] at missed

theorem waitpid_error_iff {s : Procs} {target : Option UInt32} :
    (s.waitpid target).1 = .error "waitpid: no child" ↔
      ∀ p ∈ s.table, s.isChild target p = false := by
  have childless : (∀ p ∈ s.table, s.isChild target p = false) ↔
      s.table.any (s.isChild target) = false := by
    simp only [List.any_eq_false, Bool.not_eq_true]
  rw [childless]
  unfold waitpid
  cases s.table.any (s.isChild target) with
  | false => simp
  | true => cases s.zombieChild target <;> simp

theorem isChild_of_taken {s : Procs} {target : Option UInt32} {p : Process} {idx : Nat}
    (taken : s.zombieChild target = some (p, idx)) : s.isChild target p = true := by
  obtain ⟨_, parent, _, wanted⟩ := zombieChild_spec taken
  simp [isChild, parent, wanted]

/-- An iteration that takes no entry of the caller keeps the caller's entry. -/
theorem caller_stays {s : Procs} {target : Option UInt32} {self : Process}
    (found : s.caller = some self)
    (other : ∀ p idx, s.zombieChild target = some (p, idx) → p.pid ≠ s.currentPid) :
    self ∈ (s.waitpid target).2.table := by
  obtain ⟨present, current⟩ := caller_spec found
  cases taken : s.zombieChild target with
  | none => rwa [waitpid_of_no_zombieChild taken]
  | some entry =>
      obtain ⟨p, idx⟩ := entry
      have away : p ≠ self := fun same => other p idx taken (same ▸ current)
      obtain ⟨j, there⟩ := List.mem_iff_getElem?.mp present
      have apart : j ≠ idx := by
        rintro rfl
        rw [(zombieChild_spec taken).1, Option.some.injEq] at there
        exact away there
      rw [waitpid_of_zombieChild taken]
      exact List.mem_eraseIdx_iff_getElem?.mpr ⟨j, apart, there⟩

theorem childIsOther_of_hidden {s : Procs} {target : Option UInt32}
    (hidden : s.OwnEntryHidden target) : s.ChildIsOther target := by
  have other : ∀ p idx, s.zombieChild target = some (p, idx) → p.pid ≠ s.currentPid := by
    intro p idx taken own
    obtain ⟨there, _, dead, _⟩ := zombieChild_spec taken
    obtain ⟨j, before, q, there', _, child, dead'⟩ :=
      (hidden idx p there own (isChild_of_taken taken)).2 dead
    have first := zombieChild_first taken there' child dead'
    omega
  refine ⟨?_, fun p found => caller_stays found other, ?_⟩
  · intro pid code returned
    cases taken : s.zombieChild target with
    | none =>
        simp only [waitpid, taken] at returned
        split at returned <;> cases returned
    | some entry =>
        rw [waitpid_of_zombieChild taken] at returned
        cases returned
        exact other _ _ taken
  · intro only
    rw [waitpid_error_iff]
    intro p present
    cases child : s.isChild target p with
    | false => rfl
    | true =>
        obtain ⟨i, there⟩ := List.mem_iff_getElem?.mp present
        obtain ⟨q, present', away, child'⟩ := (hidden i p there (only p present child) child).1
        exact absurd (only q present' child') away

/-- `waitpid` treats the caller's own entry as no child exactly when that entry is
hidden by another one. -/
theorem child_is_other_iff (s : Procs) (target : Option UInt32) :
    s.ChildIsOther target ↔ s.OwnEntryHidden target := by
  constructor
  · rintro ⟨notOwn, _, refused⟩ i p there own child
    have present := List.mem_of_getElem? there
    constructor
    · by_contra none_
      have only : ∀ q ∈ s.table, s.isChild target q = true → q.pid = s.currentPid := by
        intro q present' child'
        by_contra away
        exact none_ ⟨q, present', away, child'⟩
      have missed := waitpid_error_iff.mp (refused only) p present
      rw [child] at missed
      cases missed
    · intro dead
      cases taken : s.zombieChild target with
      | none => exact absurd dead (zombieChild_none taken present child)
      | some entry =>
          obtain ⟨q, idx⟩ := entry
          obtain ⟨there', _, dead', _⟩ := zombieChild_spec taken
          have away : q.pid ≠ s.currentPid := by
            apply notOwn q.pid q.exitCode
            rw [waitpid_of_zombieChild taken]
          have upto := zombieChild_first taken there child dead
          have apart : idx ≠ i := by
            rintro rfl
            rw [there', Option.some.injEq] at there
            exact away (there ▸ own)
          exact ⟨idx, by omega, q, there', away, isChild_of_taken taken, dead'⟩
  · exact childIsOther_of_hidden

/-- At boot idle waits for itself instead of failing. After an `exit` of idle, init
is its own parent: terminated in mid-slice, it reaps idle and then itself. -/
theorem process_waits_for_itself :
    ¬boot.ChildIsOther (some 0) ∧
    ¬(run boot [.exit 0, .kill 1 sigTerm, .tick, .waitpid none]).ChildIsOther none := by
  constructor
  · rintro ⟨_, _, refused⟩
    have failed := refused (by decide)
    revert failed
    decide
  · rintro ⟨notOwn, _⟩
    exact notOwn 1 143 (by decide) (by decide)

/-- Apart from idle and init nobody is ever its own parent, until PIDs are reused. -/
theorem own_parent_is_idle_or_init (ops : List Op) (few : (forked ops).length < 2 ^ 32 - 1)
    {p : Process} (present : p ∈ (run boot ops).table) (own : p.parentPid = p.pid) :
    p.pid = 0 ∨ p.pid = 1 := by
  induction ops using List.reverseRecOn generalizing p with
  | nil =>
      revert p
      decide
  | append_singleton ops op ih =>
      have earlier := (forked_initial (List.prefix_append ops [op])).length_le
      rw [run_concat] at present
      rcases mem_step_back present with ⟨q, before, edited⟩ | ⟨parent, rfl, found, rfl⟩
      · rw [edited.pid_eq, edited.parentPid_eq] at own
        rw [edited.pid_eq]
        split_ifs at own
        · exact .inr own.symm
        · exact ih (by omega) before own
      · -- A child has a fresh PID, its parent's is in the table.
        have success : (run boot ops).fork.1 = .ok (run boot ops).nextPid := by
          rw [fork_of_caller found]
        have unused := fork_unused few success
        have held : parent.pid ∈ (run boot ops).pids :=
          List.mem_map.mpr ⟨parent, (caller_spec found).1, rfl⟩
        have known := ((conserved_of_fresh (forked_nodup (by omega))).union parent.pid).mpr (.inl held)
        change parent.pid = (run boot ops).nextPid at own
        rw [own] at known
        exact absurd known unused

/-- A process that is neither idle nor init waits for other processes only. -/
theorem ordinary_child_is_other (ops : List Op) (few : (forked ops).length < 2 ^ 32 - 1)
    (notIdle : (run boot ops).currentPid ≠ 0) (notInit : (run boot ops).currentPid ≠ 1)
    (target : Option UInt32) : (run boot ops).ChildIsOther target := by
  apply childIsOther_of_hidden
  intro i p there own child
  simp only [isChild, Bool.and_eq_true, beq_iff_eq] at child
  have self := own_parent_is_idle_or_init ops few (List.mem_of_getElem? there)
    (child.1.trans own.symm)
  rw [own] at self
  exact (self.elim notIdle notInit).elim

end ComputeKernel.Procs
