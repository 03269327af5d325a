import ComputeKernel.Support.RoundRobin

/-! How long a member of a round-robin ring waits for its turn. The members that a
selection tries before it are ahead of it: a selection of somebody else puts at least one
of them behind, a newcomer may add one, and nothing else adds any. -/
namespace RoundRobin

variable {κ : Type*} [DecidableEq κ]

/-- The members in the order in which a selection tries them. -/
def Ring.tried (r : Ring κ) : List κ := (startingAt r.cursor r.members).tail ++ [r.cursor]

/-- The number of members that a selection tries before `q`. -/
def Ring.ahead (q : κ) (r : Ring κ) : Nat := r.tried.idxOf q

theorem Ring.tried_of_split {r : Ring κ} {front back : List κ}
    (split : r.members = front ++ r.cursor :: back) (first : r.cursor ∉ front) :
    r.tried = back ++ front ++ [r.cursor] := by
  rw [Ring.tried, split, startingAt_split first, List.tail_cons]

theorem Ring.tried_perm (r : Ring κ) : r.tried.Perm r.members := by
  obtain ⟨front, back, split, first⟩ := List.eq_append_cons_of_mem r.present
  rw [r.tried_of_split split first, split, List.append_assoc]
  refine List.perm_append_comm.trans ?_
  simp

theorem Ring.ahead_lt {q : κ} {r : Ring κ} (there : q ∈ r.members) :
    r.ahead q < r.members.length := by
  rw [← r.tried_perm.length_eq]
  exact List.idxOf_lt_length_iff.mpr (r.tried_perm.mem_iff.mpr there)

theorem idxOf_insert_le (q x : κ) (front back : List κ) :
    (front ++ x :: back).idxOf q ≤ (front ++ back).idxOf q + 1 := by
  induction front with
  | nil =>
      by_cases here : x = q
      · simp [here]
      · simp [List.idxOf_cons_ne back here]
  | cons first front ih =>
      by_cases here : first = q
      · simp [here]
      · rw [List.cons_append, List.cons_append, List.idxOf_cons_ne _ here, List.idxOf_cons_ne _ here]
        omega

theorem idxOf_filter_le {q x : κ} (other : q ≠ x) (items : List κ) :
    (items.filter (· != x)).idxOf q ≤ items.idxOf q := by
  induction items with
  | nil => exact Nat.le_refl _
  | cons first items ih =>
      by_cases here : first = q
      · simp [here, other]
      · by_cases removed : first = x
        · rw [List.filter_cons_of_neg (by simp [removed]), List.idxOf_cons_ne _ here]
          omega
        · rw [List.filter_cons_of_pos (by simpa using removed), List.idxOf_cons_ne _ here,
            List.idxOf_cons_ne _ here]
          omega

/-- What is passed over by a selection that `q` is ready for stands before `q`. -/
theorem ahead_select {q x : κ} {r r' : Ring κ} {ready : κ → Bool} (there : q ∈ r.members)
    (readyQ : ready q = true) (chosen : r.next ready = some x) (other : x ≠ q)
    (cursor : r'.cursor = x) (members : r'.members = r.members) : r'.ahead q < r.ahead q := by
  obtain ⟨rest, start⟩ := startingAt_head r.present
  have triedHere : r.tried = rest ++ [r.cursor] := by rw [Ring.tried, start, List.tail_cons]
  have member : q ∈ rest ++ [r.cursor] := triedHere ▸ r.tried_perm.mem_iff.mpr there
  have search : (rest ++ [r.cursor]).find? ready = some x := by
    rw [← chosen, Ring.next, start, List.tail_cons]
  rw [List.find?_append] at search
  cases found : rest.find? ready with
  | none =>
      -- Only the member at the cursor is ready, so it is `q` itself.
      rw [found, Option.none_or] at search
      have last := List.mem_of_find?_eq_some search
      rw [List.mem_singleton] at last
      rw [List.mem_append, List.mem_singleton] at member
      rcases member with passed | here
      · exact absurd readyQ (by simpa using List.find?_eq_none.mp found q passed)
      · exact absurd (last.trans here.symm) other
  | some y =>
      rw [found, Option.some_or, Option.some.injEq] at search
      subst search
      obtain ⟨_, skipped, later, rfl, idle⟩ := List.find?_eq_some_iff_append.mp found
      have behind : q ∉ skipped := fun passed => absurd readyQ (by simpa using idle q passed)
      have restart : startingAt y r.members = y :: (later ++ r.cursor :: skipped) :=
        startingAt_restart r.nodup r.present (start.trans (List.cons_append ..).symm)
      have triedNext : r'.tried = (later ++ [r.cursor]) ++ (skipped ++ [y]) := by
        rw [Ring.tried, cursor, members, restart]
        simp
      have inside : q ∈ later ++ [r.cursor] := by
        rw [List.append_assoc, List.mem_append, List.cons_append, List.mem_cons] at member
        exact (member.resolve_left behind).resolve_left other.symm
      have regroup : r.tried = skipped ++ y :: (later ++ [r.cursor]) := by simp [triedHere]
      rw [Ring.ahead, Ring.ahead, triedNext, regroup, List.idxOf_append_of_mem inside,
        List.idxOf_append_of_notMem behind, List.idxOf_cons_ne _ other]
      omega

/-- A step that does not select `q` lets it move up by one if it selects anybody, and sets it
back by one only if it brings a newcomer. -/
theorem Step.ahead_le {q : κ} {r r' : Ring κ} {ready : κ → Bool} {label : Option κ}
    (step : Step ready r label r') (there : q ∈ r.members) (there' : q ∈ r'.members)
    (readyQ : ready q = true) (passed : label ≠ some q) :
    r'.ahead q + label.toList.length ≤ r.ahead q + (r'.members.length - r.members.length) := by
  obtain ⟨front, back, split, first⟩ := List.eq_append_cons_of_mem r.present
  have triedHere := r.tried_of_split split first
  cases step with
  | stay cursor members =>
      rw [Ring.ahead, Ring.ahead, Ring.tried, Ring.tried, cursor, members]
      simp
  | join x cursor members =>
      have grown : r'.members = front ++ r'.cursor :: (back ++ [x]) := by
        rw [members, split, cursor]
        simp
      have triedNext := r'.tried_of_split grown (cursor ▸ first)
      have behind := idxOf_insert_le q x back (front ++ [r.cursor])
      have longer : r'.members.length - r.members.length = 1 := by simp [members]
      rw [longer, Ring.ahead, Ring.ahead, triedNext, triedHere, cursor]
      simpa using behind
  | leave x cursor members =>
      have inside : ∀ y ∈ r'.members, y ≠ x := by
        intro y member
        rw [members, List.mem_filter] at member
        simpa using member.2
      have cursorIn : r.cursor ≠ x := inside r.cursor (cursor ▸ r'.present)
      have triedNext : r'.tried = r.tried.filter (· != x) := by
        rw [Ring.tried, Ring.tried, cursor, members, startingAt_leave r.present cursorIn.symm]
        obtain ⟨rest, start⟩ := startingAt_head r.present
        simp [start, cursorIn]
      have moved := idxOf_filter_le (inside q there') r.tried
      rw [Ring.ahead, Ring.ahead, triedNext]
      simp only [Option.toList_none, List.length_nil]
      omega
  | select chosen cursor members =>
      have other : r'.cursor ≠ q := fun same => passed (by rw [← same, cursor])
      have closer := ahead_select there readyQ chosen (cursor ▸ other) cursor members
      simp only [Option.toList_some, List.length_singleton]
      omega

end RoundRobin
