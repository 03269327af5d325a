import ComputeKernel.Process.Scheduling

/-! The process table as a round-robin ring. As long as no step removes the entry
of the current process, the table is a ring with the cursor on the current PID,
and every step of the subsystem is a step of the ring. -/
namespace ComputeKernel.Procs
open Runs (Admitted)
open RoundRobin (startingAt)

/-- The PID the scan of `schedule` stops at, if any. -/
def selects (s : Procs) : Option UInt32 := scan s.table s.scanStart

/-- The PID that `schedule` selects during a step that calls it. -/
def selection (s : Procs) (op : Op) : Option UInt32 := (s.scheduling op).bind selects

/-- The state before step `k` of a run from boot. -/
def stateAt (ops : List Op) (k : Nat) : Procs := run boot (ops.take k)

theorem stateAt_succ {ops : List Op} {k : Nat} {op : Op} (here : ops[k]? = some op) :
    stateAt ops (k + 1) = (stateAt ops k).step op := Runs.run_take_succ step boot here

def selectionAt (ops : List Op) (k : Nat) : Option UInt32 :=
  (ops[k]?).bind (stateAt ops k).selection

/-- The step does not remove the entry of the current process. -/
def SparesCurrent (s : Procs) (op : Op) : Prop :=
  ∀ entry ∈ s.reapedChild op, entry.1 ≠ s.currentPid

instance (s : Procs) (op : Op) : Decidable (s.SparesCurrent op) :=
  decidable_of_iff ((s.reapedChild op).all (fun entry => entry.1 ≠ s.currentPid) = true)
    (by simp [SparesCurrent, Option.all_eq_true])

/-- Whether an entry of this PID is runnable. -/
def runs (s : Procs) (pid : UInt32) : Bool := s.table.any (fun p => p.pid == pid && p.runnable)

theorem runs_iff {s : Procs} {pid : UInt32} :
    s.runs pid = true ↔ ∃ p ∈ s.table, p.pid = pid ∧ p.runnable = true := by
  simp [runs, List.any_eq_true]

/-- A table that can be read as a ring. -/
structure Orderly (s : Procs) : Prop where
  unique : s.pids.Nodup
  present : s.currentPid ∈ s.pids

def ring (s : Procs) (orderly : s.Orderly) : RoundRobin.Ring UInt32 :=
  { members := s.pids
    cursor := s.currentPid
    nodup := orderly.unique
    present := orderly.present }

theorem Orderly.runs_eq {s : Procs} (orderly : s.Orderly) {p : Process} (present : p ∈ s.table) :
    s.runs p.pid = p.runnable := by
  rw [Bool.eq_iff_iff, runs_iff]
  constructor
  · rintro ⟨q, there, same, runnable⟩
    rwa [← List.inj_on_of_nodup_map orderly.unique there present same]
  · intro runnable
    exact ⟨p, present, rfl, runnable⟩

/-- The table around the entry of the current process. -/
theorem Orderly.split {s : Procs} (orderly : s.Orderly) :
    ∃ front p back, s.table = front ++ p :: back ∧ p.pid = s.currentPid ∧
      s.currentPid ∉ front.map Process.pid := by
  obtain ⟨p, present, current⟩ := List.mem_map.mp orderly.present
  obtain ⟨front, back, table⟩ := List.append_of_mem present
  have unique := orderly.unique
  rw [pids, table, List.map_append, List.map_cons, current] at unique
  exact ⟨front, p, back, table, current, RoundRobin.notMem_front unique⟩

theorem findSome?_runnable {ready : UInt32 → Bool} {items : List Process}
    (agree : ∀ p ∈ items, ready p.pid = p.runnable) :
    items.findSome? (fun p => if p.runnable then some p.pid else none) =
      (items.map Process.pid).find? ready := by
  induction items with
  | nil => rfl
  | cons p items ih =>
      have rest := ih (fun q member => agree q (List.mem_cons_of_mem p member))
      have here := agree p List.mem_cons_self
      rw [List.map_cons, List.findSome?_cons, List.find?_cons, here, rest]
      cases p.runnable <;> rfl

/-- The scan of `schedule` is the search of the ring. -/
theorem selects_eq {s : Procs} (orderly : s.Orderly) :
    s.selects = (s.ring orderly).next s.runs := by
  obtain ⟨front, p, back, table, current, first⟩ := orderly.split
  have start : s.scanStart = front.length := by
    have skipped : front.findIdx? (fun q => q.pid == s.currentPid) = none := by
      rw [List.findIdx?_eq_none_iff]
      intro q member
      simpa using fun same : q.pid = s.currentPid => first (List.mem_map.mpr ⟨q, member, same⟩)
    simp [scanStart, table, List.findIdx?_append, skipped, List.findIdx?_cons, current]
  have rotated : s.table.rotate (s.scanStart + 1) = back ++ (front ++ [p]) := by
    rw [start, table, List.append_cons]
    simpa using List.rotate_append_length_eq (front ++ [p]) back
  have agree : ∀ q ∈ back ++ (front ++ [p]), s.runs q.pid = q.runnable := by
    intro q member
    apply orderly.runs_eq
    rw [table]
    simp only [List.mem_append, List.mem_cons, List.not_mem_nil, or_false] at member ⊢
    tauto
  have members : s.pids = front.map Process.pid ++ s.currentPid :: back.map Process.pid := by
    rw [pids, table, List.map_append, List.map_cons, current]
  rw [selects, scan_eq, rotated, findSome?_runnable agree, RoundRobin.Ring.next]
  simp only [ring, members, RoundRobin.startingAt_split first]
  simp [current]

theorem schedule_of_selects {s : Procs} {pid : UInt32} (h : s.selects = some pid) :
    s.schedule = { s with currentPid := pid } := by
  obtain ⟨p, present, _⟩ := scan_some h
  have nonempty : s.table.length ≠ 0 := by
    rw [Ne, List.length_eq_zero_iff]
    exact List.ne_nil_of_mem present
  change scan s.table s.scanStart = some pid at h
  rw [schedule, if_neg nonempty, h]

theorem Orderly.schedule_of_none {s : Procs} (orderly : s.Orderly) (h : s.selects = none) :
    s.schedule = s := by
  obtain ⟨front, p, back, table, _⟩ := orderly.split
  have nonempty : s.table.length ≠ 0 := by simp [table]
  change scan s.table s.scanStart = none at h
  rw [schedule, if_neg nonempty, h]

theorem schedule_pids (s : Procs) : s.schedule.pids = s.pids := by
  simp only [pids, schedule_table]

theorem Orderly.schedule {s : Procs} (orderly : s.Orderly) : s.schedule.Orderly := by
  refine ⟨by rw [schedule_pids]; exact orderly.unique, ?_⟩
  cases h : s.selects with
  | none => rw [orderly.schedule_of_none h]; exact orderly.present
  | some pid =>
      obtain ⟨p, present, same, _⟩ := scan_some h
      rw [schedule_of_selects h]
      exact List.mem_map.mpr ⟨p, present, same⟩

theorem Orderly.scheduling {s t : Procs} {op : Op} (orderly : s.Orderly)
    (called : s.scheduling op = some t) : t.Orderly := by
  obtain ⟨members, cursor⟩ := scheduling_kept called
  constructor
  · rw [members]
    exact orderly.unique
  · rw [members, cursor]
    exact orderly.present

/-- A call of `schedule` is a selection of the ring, or leaves it alone. -/
theorem schedule_ring {s : Procs} (orderly : s.Orderly) (after : s.schedule.Orderly) :
    RoundRobin.Step s.schedule.runs (s.ring orderly) s.selects (s.schedule.ring after) := by
  have sameRuns : s.schedule.runs = s.runs := by
    funext pid
    simp only [runs, schedule_table]
  rw [sameRuns]
  cases h : s.selects with
  | none =>
      refine .stay ?_ (schedule_pids s)
      change s.schedule.currentPid = s.currentPid
      rw [orderly.schedule_of_none h]
  | some pid =>
      refine .select ((selects_eq orderly).symm.trans h) ?_ (schedule_pids s)
      change s.schedule.currentPid = pid
      rw [schedule_of_selects h]

theorem pids_eraseIdx {s : Procs} {p : Process} {idx : Nat} (unique : s.pids.Nodup)
    (there : s.table[idx]? = some p) : s.pids.eraseIdx idx = s.pids.filter (· != p.pid) := by
  obtain ⟨inside, here⟩ := List.getElem?_eq_some_iff.mp there
  have bound : idx < s.pids.length := by simpa [pids] using inside
  have pid : s.pids.get ⟨idx, bound⟩ = p.pid := by simp [pids, here]
  rw [← unique.erase_eq_filter, ← pid, List.get_eq_getElem, unique.erase_getElem]

/-- Every step of the subsystem is a step of the ring, labelled with its selection. -/
theorem step_ring {s : Procs} {op : Op} (orderly : s.Orderly) (after : (s.step op).Orderly) :
    RoundRobin.Step (s.step op).runs (s.ring orderly) (s.selection op)
      ((s.step op).ring after) := by
  cases called : s.scheduling op with
  | some t =>
      obtain ⟨members, cursor⟩ := scheduling_kept called
      have before := orderly.scheduling called
      have sameRing : s.ring orderly = t.ring before := by
        ext1
        · exact members.symm
        · exact cursor.symm
      have sameSelection : s.selection op = t.selects := by simp [selection, called]
      have moved := schedule_ring before before.schedule
      rw [sameRing, sameSelection]
      simpa only [step_of_scheduling called] using moved
  | none =>
      have cursor := step_currentPid called
      have silent : s.selection op = none := by simp [selection, called]
      rw [silent]
      cases step_pidChange s op with
      | kept same => exact .stay cursor same
      | joined grown => exact .join s.nextPid cursor grown
      | left p idx there shrunk =>
          exact .leave p.pid cursor (shrunk.trans (pids_eraseIdx orderly.unique there))

theorem boot_orderly : boot.Orderly := ⟨by decide, by decide⟩

/-- A step that spares the current process keeps its PID in the table. -/
theorem step_orderly {s : Procs} {op : Op} (orderly : s.Orderly) (spares : s.SparesCurrent op)
    (unique : (s.step op).pids.Nodup) : (s.step op).Orderly := by
  refine ⟨unique, ?_⟩
  cases called : s.scheduling op with
  | some t =>
      rw [step_of_scheduling called]
      exact (orderly.scheduling called).schedule.present
  | none =>
      have held : s.currentPid ∈ s.pids ++ (s.forkedPid op).toList :=
        List.mem_append_left _ orderly.present
      rw [← (step_ledger s op).mem_iff, List.mem_append] at held
      rw [step_currentPid called]
      refine held.resolve_right ?_
      intro reaped
      obtain ⟨entry, returned, same⟩ := Option.map_eq_some_iff.mp (Option.mem_toList.mp reaped)
      exact spares entry returned same

theorem selection_currentPid {s : Procs} {op : Op} {pid : UInt32}
    (h : s.selection op = some pid) : (s.step op).currentPid = pid := by
  obtain ⟨t, called, selected⟩ := Option.bind_eq_some_iff.mp h
  rw [step_of_scheduling called, schedule_of_selects selected]

theorem selection_runs {s : Procs} {op : Op} {pid : UInt32} (h : s.selection op = some pid) :
    (s.step op).runs pid = true := by
  obtain ⟨t, called, selected⟩ := Option.bind_eq_some_iff.mp h
  rw [runs_iff, step_of_scheduling called, schedule_table]
  exact scan_some selected

theorem mem_pids_of_runs {s : Procs} {pid : UInt32} (h : s.runs pid = true) : pid ∈ s.pids := by
  obtain ⟨p, present, same, _⟩ := runs_iff.mp h
  exact List.mem_map.mpr ⟨p, present, same⟩

/-- A step terminates at most the current process. -/
theorem runs_keep {s : Procs} {op : Op} {pid : UInt32} (other : s.currentPid ≠ pid)
    (h : s.runs pid = true) : (s.step op).runs pid = true := by
  obtain ⟨p, present, rfl, runnable⟩ := runs_iff.mp h
  obtain ⟨q, after, edited⟩ := mem_step_of_live op present (live_of_runnable runnable)
  rcases edited.state_eq with same | ⟨_, self, _⟩
  · exact runs_iff.mpr ⟨q, after, edited.pid_eq, (runnable_of_state_eq same).trans runnable⟩
  · exact absurd (caller_spec self).2.symm other

/-- Nothing becomes runnable but the child of a `fork`. -/
theorem runs_back {s : Procs} {op : Op} {pid : UInt32} (old : s.forkedPid op ≠ some pid)
    (h : (s.step op).runs pid = true) : s.runs pid = true := by
  obtain ⟨q, present, rfl, runnable⟩ := runs_iff.mp h
  rcases mem_step_back present with ⟨p, before, edited⟩ | ⟨parent, rfl, found, rfl⟩
  · rcases edited.state_eq with same | ⟨dead, _⟩
    · rw [runnable_of_state_eq same] at runnable
      exact runs_iff.mpr ⟨p, before, edited.pid_eq.symm, runnable⟩
    · exact absurd dead (live_of_runnable runnable)
  · exact absurd (forkedPid_of_caller found) old

theorem step_ring_at {ops : List Op} (orderly : ∀ k, (stateAt ops k).Orderly) {k : Nat}
    (inside : k < ops.length) :
    RoundRobin.Step (stateAt ops (k + 1)).runs ((stateAt ops k).ring (orderly k))
      (selectionAt ops k) ((stateAt ops (k + 1)).ring (orderly (k + 1))) := by
  have here := List.getElem?_eq_getElem inside
  have next := stateAt_succ here
  have selected : selectionAt ops k = (stateAt ops k).selection ops[k] := by
    rw [selectionAt, here, Option.bind_some]
  have after := orderly (k + 1)
  rw [next] at after
  rw [selected]
  simpa only [next] using step_ring (orderly k) after

section Interval

variable {ops : List Op} (few : ops.count .fork < 2 ^ 32 - 2)
  (spared : Admitted step SparesCurrent boot ops)

include few

theorem conserved_at (k : Nat) : Conserved (ops.take k) := by
  have bound := forked_length_le ops
  have earlier := (forked_initial (List.take_prefix k ops)).length_le
  exact conserved_of_fresh (forked_nodup (by omega))

/-- The PID that a step forks was never in the table. -/
theorem forkedPid_unused {j k : Nat} (earlier : j ≤ k) {op : Op} (here : ops[k]? = some op)
    {pid : UInt32} (used : pid ∈ (stateAt ops j).pids) :
    (stateAt ops k).forkedPid op ≠ some pid := by
  intro returned
  have fresh := (conserved_at few (k + 1)).fresh
  rw [List.take_add_one, here, Option.toList_some, forked_concat] at fresh
  change (0 :: 1 :: (forked (ops.take k) ++ ((stateAt ops k).forkedPid op).toList)).Nodup at fresh
  rw [returned, ← List.cons_append, ← List.cons_append] at fresh
  have known := ((conserved_at few j).union pid).mpr (.inl used)
  have grown := forked_initial (List.take_prefix_take_left (l := ops) earlier)
  have stillKnown : pid ∈ 0 :: 1 :: forked (ops.take k) := by
    rw [List.mem_cons, List.mem_cons] at known ⊢
    exact known.imp_right (fun known => known.imp_right (fun known => grown.subset known))
  exact (List.nodup_append'.mp fresh).2.2 stillKnown (by simp)

/-- A process of the table that is runnable at the end of an interval is runnable
all along: nobody is revived, and its PID is not given away again. -/
theorem runs_between {a b : Nat} {p : UInt32} (present : p ∈ (stateAt ops a).pids)
    (inside : b ≤ ops.length) (last : (stateAt ops b).runs p = true) {k : Nat}
    (above : a ≤ k) (below : k ≤ b) : (stateAt ops k).runs p = true := by
  induction below using Nat.decreasingInduction with
  | self => exact last
  | of_succ k below ih =>
      obtain ⟨op, here⟩ : ∃ op, ops[k]? = some op :=
        ⟨_, List.getElem?_eq_getElem (by omega)⟩
      have later := ih (by omega)
      rw [stateAt_succ here] at later
      exact runs_back (forkedPid_unused few above here present) later

include spared

theorem orderly_at (k : Nat) : (stateAt ops k).Orderly := by
  induction k with
  | zero => exact boot_orderly
  | succ k ih =>
      have unique := (conserved_at few (k + 1)).tableOnce
      cases here : ops[k]? with
      | none =>
          have short := List.getElem?_eq_none_iff.mp here
          rw [stateAt, List.take_of_length_le short] at ih
          rwa [stateAt, List.take_of_length_le (by omega)]
      | some op =>
          change (stateAt ops (k + 1)).pids.Nodup at unique
          rw [stateAt_succ here] at unique ⊢
          exact step_orderly ih (spared.at_step here) unique

/-- Round-robin fairness: between two selections of `p`, a process that stays in
the table and runnable is selected exactly once. -/
theorem round_robin_fair {a b : Nat} {p q : UInt32} (order : a < b)
    (first : selectionAt ops a = some p) (again : selectionAt ops b = some p)
    (between : ∀ k, a < k → k < b → selectionAt ops k ≠ some p) (other : q ≠ p)
    (stays : ∀ k, a < k → k ≤ b →
      ∃ e ∈ (stateAt ops k).table, e.pid = q ∧ e.runnable = true) :
    ∃! k, a < k ∧ k < b ∧ selectionAt ops k = some q := by
  have orderly := orderly_at few spared
  obtain ⟨opA, hereA, selectedA⟩ := Option.bind_eq_some_iff.mp first
  obtain ⟨opB, hereB, selectedB⟩ := Option.bind_eq_some_iff.mp again
  have inside : b < ops.length := (List.getElem?_eq_some_iff.mp hereB).1
  have start : (stateAt ops (a + 1)).currentPid = p := by
    rw [stateAt_succ hereA]
    exact selection_currentPid selectedA
  have present : p ∈ (stateAt ops (a + 1)).pids := start ▸ (orderly (a + 1)).present
  have last : (stateAt ops (b + 1)).runs p = true := by
    rw [stateAt_succ hereB]
    exact selection_runs selectedB
  have runsP : ∀ k, a < k → k ≤ b + 1 → (stateAt ops k).runs p = true := by
    intro k above below
    exact runs_between few present inside last above below
  have runsQ : ∀ k, a < k → k ≤ b → (stateAt ops k).runs q = true := by
    intro k above below
    exact runs_iff.mpr (stays k above below)
  have steps : ∀ k, a < k → k ≤ b → RoundRobin.Step (stateAt ops (k + 1)).runs
      ((stateAt ops k).ring (orderly k)) (selectionAt ops k)
      ((stateAt ops (k + 1)).ring (orderly (k + 1))) := by
    intro k above below
    exact step_ring_at orderly (by omega)
  refine RoundRobin.selected_once other order steps start again between ?_ ?_ ?_ ?_
  · intro k above below
    exact mem_pids_of_runs (runsP k above (by omega))
  · intro k above below
    exact mem_pids_of_runs (runsQ k above below)
  · intro k above below
    exact runsP (k + 1) (by omega) (by omega)
  · intro k above below elsewhere
    obtain ⟨op, here⟩ : ∃ op, ops[k]? = some op := ⟨_, List.getElem?_eq_getElem (by omega)⟩
    rw [stateAt_succ here]
    exact runs_keep elsewhere (runsQ k above below)

end Interval

/-- Init forks between its two selections; idle is selected once, after the child. -/
theorem round_robin_fair_after_fork :
    ∃! k, 0 < k ∧ k < 4 ∧
      selectionAt [.forceSchedule, .fork, .forceSchedule, .forceSchedule, .forceSchedule] k =
        some 0 := by
  have between : ∀ k < 4, 0 < k →
      selectionAt [.forceSchedule, .fork, .forceSchedule, .forceSchedule, .forceSchedule] k ≠
        some 1 := by decide
  have stays : ∀ k < 5, 0 < k → ∃ e ∈ (stateAt
      [.forceSchedule, .fork, .forceSchedule, .forceSchedule, .forceSchedule] k).table,
      e.pid = 0 ∧ e.runnable = true := by decide
  exact round_robin_fair (p := 1) (by decide) (by decide) (by decide) (by decide) (by decide)
    (fun k above below => between k below above) (by decide)
    (fun k above below => stays k (Nat.lt_succ_of_le below) above)

end ComputeKernel.Procs
