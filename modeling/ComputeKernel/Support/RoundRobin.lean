import Mathlib.Data.List.Rotate
import Mathlib.Data.List.Nodup

/-! Round-robin service of a ring that changes while it is served. The members
stand in a list that is read cyclically from a cursor; newcomers join at the end
of the list, members other than the one at the cursor may leave, and a selection
moves the cursor to the next member that is ready. Between two selections of one
member, every other member that stays ready is selected exactly once. -/
namespace RoundRobin

variable {α β κ : Type*}

theorem findSome?_eq_findSome?_range (f : α → Option β) (items : List α) :
    items.findSome? f = (List.range items.length).findSome? (fun k => (items[k]?).bind f) := by
  induction items with
  | nil => rfl
  | cons item items ih =>
      rw [List.length_cons, List.range_succ_eq_map, List.findSome?_cons, List.findSome?_cons,
        List.findSome?_map, ih]
      rfl

/-- Probing the indices `start + 1, …, start + n` modulo `n` reads the list rotated. -/
theorem findSome?_probe (f : α → Option β) (items : List α) (start : Nat) :
    (List.range' 1 items.length).findSome?
        (fun i => (items[(start + i) % items.length]?).bind f) =
      (items.rotate (start + 1)).findSome? f := by
  rw [findSome?_eq_findSome?_range f (items.rotate _), List.length_rotate,
    List.range'_eq_map_range, List.findSome?_map, ← List.head?_filterMap, ← List.head?_filterMap]
  congr 1
  apply List.filterMap_congr
  intro k member
  rw [List.mem_range] at member
  rw [List.getElem?_rotate member, Function.comp_apply]
  congr 3
  omega

theorem pair_sublist_iff {a b : α} {items : List α} :
    [a, b].Sublist items ↔ ∃ before after, items = before ++ a :: after ∧ b ∈ after := by
  constructor
  · intro h
    obtain ⟨left, right, rfl, ha, hb⟩ := List.cons_sublist_iff.mp h
    obtain ⟨before, after, rfl⟩ := List.append_of_mem ha
    refine ⟨before, after ++ right, by simp, ?_⟩
    exact List.mem_append_right after (List.singleton_sublist.mp hb)
  · rintro ⟨before, after, rfl, hb⟩
    exact ((List.singleton_sublist.mpr hb).cons_cons a).trans (List.sublist_append_right _ _)

theorem notMem_front {c : κ} {front back : List κ} (nodup : (front ++ c :: back).Nodup) :
    c ∉ front := by
  have apart := (List.nodup_cons.mp (List.nodup_middle.mp nodup)).1
  exact fun member => apart (List.mem_append_left back member)

theorem notMem_back {c : κ} {front back : List κ} (nodup : (front ++ c :: back).Nodup) :
    c ∉ back := by
  have apart := (List.nodup_cons.mp (List.nodup_middle.mp nodup)).1
  exact fun member => apart (List.mem_append_right front member)

/-- In a list without repetitions one of two elements comes first. -/
theorem pair_antisymm {a b : α} {items : List α} (nodup : items.Nodup)
    (forward : [a, b].Sublist items) (backward : [b, a].Sublist items) : False := by
  induction items with
  | nil => cases forward
  | cons item items ih =>
      obtain ⟨fresh, rest⟩ := List.nodup_cons.mp nodup
      cases forward with
      | cons _ forward =>
          cases backward with
          | cons _ backward => exact ih rest forward backward
          | cons_cons _ backward => exact fresh (forward.subset (by simp))
      | cons_cons _ forward =>
          cases backward with
          | cons _ backward => exact fresh (backward.subset (by simp))
          | cons_cons _ backward => exact fresh (backward.subset (by simp))

variable [DecidableEq κ]

/-- The list read cyclically from a given element. -/
def startingAt (p : κ) (items : List κ) : List κ :=
  items.dropWhile (· != p) ++ items.takeWhile (· != p)

theorem startingAt_split {p : κ} {before : List κ} (first : p ∉ before) (after : List κ) :
    startingAt p (before ++ p :: after) = p :: (after ++ before) := by
  have pass : ∀ a ∈ before, (a != p) = true := by
    intro a member
    simpa using fun same : a = p => first (same ▸ member)
  unfold startingAt
  rw [List.dropWhile_append_of_pos pass, List.takeWhile_append_of_pos pass]
  simp

theorem startingAt_head {p : κ} {items : List κ} (h : p ∈ items) :
    ∃ rest, startingAt p items = p :: rest := by
  obtain ⟨front, back, rfl, first⟩ := List.eq_append_cons_of_mem h
  exact ⟨back ++ front, startingAt_split first back⟩

theorem startingAt_perm (p : κ) (items : List κ) : (startingAt p items).Perm items := by
  unfold startingAt
  refine List.perm_append_comm.trans ?_
  rw [List.takeWhile_append_dropWhile]

theorem mem_startingAt {p a : κ} {items : List κ} : a ∈ startingAt p items ↔ a ∈ items :=
  (startingAt_perm p items).mem_iff

/-- Reading from another element only moves what was passed to the end. -/
theorem startingAt_restart {p c : κ} {items before after : List κ} (nodup : items.Nodup)
    (h : p ∈ items) (read : startingAt p items = before ++ c :: after) :
    startingAt c items = c :: (after ++ before) := by
  obtain ⟨front, back, rfl, first⟩ := List.eq_append_cons_of_mem h
  rw [startingAt_split first] at read
  rcases before with _ | ⟨head, passed⟩
  · -- The new start is the old one.
    rw [List.nil_append, List.cons.injEq] at read
    obtain ⟨rfl, rfl⟩ := read
    rw [startingAt_split first, List.append_nil]
  · rw [List.cons_append, List.cons.injEq] at read
    obtain ⟨rfl, rest⟩ := read
    rcases List.append_eq_append_iff.mp rest with ⟨middle, rfl, rfl⟩ | ⟨middle, rfl, right⟩
    · -- The new start lies in front of the old one in the list.
      rw [List.append_assoc, List.cons_append] at nodup ⊢
      rw [startingAt_split (notMem_front nodup)]
      simp
    · rcases middle with _ | ⟨head, middle⟩
      · rw [List.nil_append] at right
        subst right
        rw [List.cons_append, ← List.nil_append (c :: _), startingAt_split List.not_mem_nil]
        simp
      · rw [List.cons_append, List.cons.injEq] at right
        obtain ⟨rfl, rfl⟩ := right
        have regroup : front ++ p :: (passed ++ c :: middle) = (front ++ p :: passed) ++ c :: middle := by
          simp
        rw [regroup] at nodup ⊢
        rw [startingAt_split (notMem_front nodup)]
        simp

theorem startingAt_join {p : κ} {items : List κ} (h : p ∈ items) (x : κ) :
    (startingAt p items).Sublist (startingAt p (items ++ [x])) := by
  obtain ⟨front, back, rfl, first⟩ := List.eq_append_cons_of_mem h
  rw [List.append_assoc, List.cons_append, startingAt_split first, startingAt_split first]
  refine List.Sublist.cons_cons p ?_
  exact (List.sublist_append_left back [x]).append_right front

theorem startingAt_leave {p x : κ} {items : List κ} (h : p ∈ items) (other : x ≠ p) :
    startingAt p (items.filter (· != x)) = (startingAt p items).filter (· != x) := by
  obtain ⟨front, back, rfl, first⟩ := List.eq_append_cons_of_mem h
  have kept : ∀ rest : List κ, (p :: rest).filter (· != x) = p :: rest.filter (· != x) := by
    intro rest
    exact List.filter_cons_of_pos (by simpa using other.symm)
  have absent : p ∉ front.filter (· != x) := fun member => first (List.mem_filter.mp member).1
  rw [startingAt_split first, List.filter_append, kept, startingAt_split absent, kept,
    List.filter_append]

/-- Members in list order, none of them twice, and a cursor on one of them. -/
@[ext] structure Ring (κ : Type*) where
  members : List κ
  cursor : κ
  nodup : members.Nodup
  present : cursor ∈ members

/-- The next member that is ready; the one at the cursor is tried last. -/
def Ring.next (ready : κ → Bool) (r : Ring κ) : Option κ :=
  ((startingAt r.cursor r.members).tail ++ [r.cursor]).find? ready

/-- One step, labelled with the member it selects. -/
inductive Step (ready : κ → Bool) : Ring κ → Option κ → Ring κ → Prop where
  | stay {r r' : Ring κ} (cursor : r'.cursor = r.cursor) (members : r'.members = r.members) :
      Step ready r none r'
  | join {r r' : Ring κ} (x : κ) (cursor : r'.cursor = r.cursor)
      (members : r'.members = r.members ++ [x]) : Step ready r none r'
  | leave {r r' : Ring κ} (x : κ) (cursor : r'.cursor = r.cursor)
      (members : r'.members = r.members.filter (· != x)) : Step ready r none r'
  | select {r r' : Ring κ} {x : κ} (chosen : r.next ready = some x) (cursor : r'.cursor = x)
      (members : r'.members = r.members) : Step ready r (some x) r'

/-- Reading from `p`, the cursor has not reached `q` yet. -/
def Waiting (p q : κ) (r : Ring κ) : Prop :=
  [r.cursor, q].Sublist (startingAt p r.members)

/-- Reading from `p`, the cursor is on `q` or past it. -/
def Served (p q : κ) (r : Ring κ) : Prop :=
  r.cursor = q ∨ [q, r.cursor].Sublist (startingAt p r.members)

theorem startingAt_nodup {p : κ} {items : List κ} (nodup : items.Nodup) :
    (startingAt p items).Nodup := (startingAt_perm p items).nodup_iff.mpr nodup

/-- A reading from `p` starts with `p`, so whatever precedes another element contains `p`. -/
theorem start_mem_front {p c : κ} {items before after : List κ} (h : p ∈ items)
    (read : startingAt p items = before ++ c :: after) (other : c ≠ p) : p ∈ before := by
  obtain ⟨rest, start⟩ := startingAt_head h
  rw [start] at read
  rcases before with _ | ⟨head, passed⟩
  · rw [List.nil_append, List.cons.injEq] at read
    exact absurd read.1.symm other
  · rw [List.cons_append, List.cons.injEq] at read
    rw [read.1]
    exact List.mem_cons_self

/-- The members a selection tries, in terms of the reading from `p`. -/
theorem Ring.next_eq {r : Ring κ} {p : κ} {before after : List κ} (ready : κ → Bool)
    (h : p ∈ r.members) (read : startingAt p r.members = before ++ r.cursor :: after) :
    r.next ready = (after ++ before ++ [r.cursor]).find? ready := by
  rw [Ring.next, startingAt_restart r.nodup h read, List.tail_cons]

theorem pair_filter {a b x : κ} {items : List κ} (h : [a, b].Sublist items) (ha : a ≠ x)
    (hb : b ≠ x) : [a, b].Sublist (items.filter (· != x)) := by
  have kept : [a, b].filter (· != x) = [a, b] := by simp [ha, hb]
  rw [← kept]
  exact h.filter _

theorem Waiting.cursor_ne {p q : κ} {r : Ring κ} (h : Waiting p q r) : r.cursor ≠ q := by
  obtain ⟨before, after, read, member⟩ := pair_sublist_iff.mp h
  have nodup := startingAt_nodup (p := p) r.nodup
  rw [read] at nodup
  rintro rfl
  exact notMem_back nodup member

/-- While `q` is waiting and ready, a selection takes `q` or a member before it. -/
theorem Waiting.select {p q x : κ} {r : Ring κ} {ready : κ → Bool} (h : Waiting p q r)
    (hp : p ∈ r.members) (readyQ : ready q = true) (chosen : r.next ready = some x) :
    x ≠ p ∧ (x = q ∨ [x, q].Sublist (startingAt p r.members)) := by
  obtain ⟨before, after, read, member⟩ := pair_sublist_iff.mp h
  have nodup := startingAt_nodup (p := p) r.nodup
  rw [Ring.next_eq ready hp read, List.append_assoc, List.find?_append] at chosen
  cases found : after.find? ready with
  | none => exact absurd readyQ (by simpa using List.find?_eq_none.mp found q member)
  | some y =>
      rw [found, Option.some_or, Option.some.injEq] at chosen
      subst chosen
      obtain ⟨_, skipped, rest, split, idle⟩ := List.find?_eq_some_iff_append.mp found
      have inAfter : y ∈ after := List.mem_of_find?_eq_some found
      refine ⟨?_, ?_⟩
      · rintro rfl
        rw [read] at nodup
        by_cases atStart : r.cursor = y
        · exact notMem_back nodup (atStart ▸ inAfter)
        · have inBefore := start_mem_front hp read atStart
          exact (List.nodup_append'.mp nodup).2.2 inBefore (List.mem_cons_of_mem _ inAfter)
      · rw [split, List.mem_append, List.mem_cons] at member
        rcases member with passed | rfl | later
        · exact absurd readyQ (by simpa using idle q passed)
        · exact .inl rfl
        · refine .inr (pair_sublist_iff.mpr ⟨before ++ r.cursor :: skipped, rest, ?_, later⟩)
          rw [read, split]
          simp

/-- A served `q` is at the cursor or was passed by it. -/
theorem Served.reached {p q : κ} {r : Ring κ} (h : Served p q r) {before after : List κ}
    (read : startingAt p r.members = before ++ r.cursor :: after) : q ∈ before ++ [r.cursor] := by
  rcases h with here | past
  · simp [here]
  · have member : q ∈ before ++ r.cursor :: after := read ▸ past.subset (by simp)
    rw [List.mem_append, List.mem_cons] at member
    rcases member with earlier | here | later
    · exact List.mem_append_left _ earlier
    · simp [here]
    · have ahead := pair_sublist_iff.mpr ⟨before, after, read, later⟩
      exact (pair_antisymm (startingAt_nodup r.nodup) ahead past).elim

/-- Once `q` is served, a selection does not come back to it before `p`. -/
theorem Served.select {p q x : κ} {r : Ring κ} {ready : κ → Bool} (h : Served p q r)
    (distinct : q ≠ p) (hp : p ∈ r.members) (readyP : ready p = true)
    (chosen : r.next ready = some x) :
    x = p ∨ (x ≠ q ∧ [q, x].Sublist (startingAt p r.members)) := by
  obtain ⟨before, after, read⟩ : ∃ before after,
      startingAt p r.members = before ++ r.cursor :: after :=
    List.append_of_mem (mem_startingAt.mpr r.present)
  have nodup := startingAt_nodup (p := p) r.nodup
  rw [read] at nodup
  have reached := h.reached read
  have notAfter : q ∉ after := by
    intro later
    rw [List.append_cons] at nodup
    exact (List.nodup_append'.mp nodup).2.2 reached later
  rw [Ring.next_eq ready hp read, List.append_assoc, List.find?_append] at chosen
  cases found : after.find? ready with
  | some y =>
      rw [found, Option.some_or, Option.some.injEq] at chosen
      subst chosen
      have inAfter : y ∈ after := List.mem_of_find?_eq_some found
      refine .inr ⟨fun same => notAfter (same ▸ inAfter), ?_⟩
      rw [read, List.append_cons]
      exact (List.singleton_sublist.mpr reached).append (List.singleton_sublist.mpr inAfter)
  | none =>
      -- Nobody after the cursor is ready, so the search wraps round to `p`.
      obtain ⟨rest, start⟩ := startingAt_head hp
      rw [start] at read
      rcases before with _ | ⟨head, passed⟩
      · rw [List.nil_append, List.cons.injEq] at read
        rw [List.nil_append, List.mem_singleton, ← read.1] at reached
        exact absurd reached distinct
      · rw [List.cons_append, List.cons.injEq] at read
        rw [found, Option.none_or, ← read.1, List.cons_append, List.find?_cons_of_pos readyP,
          Option.some.injEq] at chosen
        exact .inl chosen.symm

/-- A step that selects nobody keeps `q` waiting or served. -/
theorem Step.quiet {ready : κ → Bool} {p q : κ} {r r' : Ring κ} (step : Step ready r none r')
    (hp : p ∈ r.members) (hp' : p ∈ r'.members) (hq' : q ∈ r'.members) :
    (Waiting p q r → Waiting p q r') ∧ (Served p q r → Served p q r') := by
  cases step with
  | stay cursor members =>
      simp only [Waiting, Served, cursor, members]
      exact ⟨id, id⟩
  | join x cursor members =>
      simp only [Waiting, Served, cursor, members]
      have grown := startingAt_join hp x
      exact ⟨fun h => h.trans grown, fun h => h.imp_right (fun h => h.trans grown)⟩
  | leave x cursor members =>
      have inside : ∀ y ∈ r'.members, y ≠ x := by
        intro y member
        rw [members, List.mem_filter] at member
        simpa using member.2
      have cursorIn := inside r.cursor (cursor ▸ r'.present)
      have shrunk := startingAt_leave hp (inside p hp').symm
      simp only [Waiting, Served, cursor, members, shrunk]
      exact ⟨fun h => pair_filter h cursorIn (inside q hq'),
        fun h => h.imp_right (fun h => pair_filter h (inside q hq') cursorIn)⟩

theorem Waiting.step {ready : κ → Bool} {p q : κ} {r r' : Ring κ} {label : Option κ}
    (h : Waiting p q r) (step : Step ready r label r') (hp : p ∈ r.members)
    (hp' : p ∈ r'.members) (hq' : q ∈ r'.members) (readyQ : ready q = true) :
    (label ≠ some q ∧ Waiting p q r') ∨ (label = some q ∧ Served p q r') := by
  cases label with
  | none => exact .inl ⟨by simp, (step.quiet hp hp' hq').1 h⟩
  | some x =>
      cases step with
      | select chosen cursor members =>
          by_cases same : x = q
          · exact .inr ⟨by rw [same], .inl (cursor.trans same)⟩
          · refine .inl ⟨by simpa using same, ?_⟩
            have ahead := (h.select hp readyQ chosen).2.resolve_left same
            simpa only [Waiting, cursor, members] using ahead

theorem Served.step {ready : κ → Bool} {p q : κ} {r r' : Ring κ} {label : Option κ}
    (h : Served p q r) (step : Step ready r label r') (distinct : q ≠ p) (hp : p ∈ r.members)
    (hp' : p ∈ r'.members) (hq' : q ∈ r'.members) (readyP : ready p = true)
    (notBack : label ≠ some p) : label ≠ some q ∧ Served p q r' := by
  cases label with
  | none => exact ⟨by simp, (step.quiet hp hp' hq').2 h⟩
  | some x =>
      cases step with
      | select chosen cursor members =>
          rcases h.select distinct hp readyP chosen with back | ⟨other, past⟩
          · exact absurd (congrArg some back) notBack
          · refine ⟨by simpa using other, .inr ?_⟩
            simpa only [cursor, members] using past

section Fairness

variable {ring : Nat → Ring κ} {ready : Nat → κ → Bool} {label : Nat → Option κ} {p q : κ}
  {a b : Nat}

/-- A member that is not at the cursor of a reading from itself is met later. -/
theorem Waiting.of_cursor {r : Ring κ} (start : r.cursor = p) (distinct : q ≠ p)
    (hq : q ∈ r.members) : Waiting p q r := by
  obtain ⟨rest, read⟩ := startingAt_head (start ▸ r.present : p ∈ r.members)
  have member : q ∈ p :: rest := read ▸ mem_startingAt.mpr hq
  rw [Waiting, start, read]
  exact pair_sublist_iff.mpr ⟨[], rest, rfl, (List.mem_cons.mp member).resolve_left distinct⟩

/-- The invariant of an interval: `q` has not been selected since step `a` and is
waiting, or it has been selected once and is served. -/
def Phase (label : Nat → Option κ) (a : Nat) (p q : κ) (k : Nat) (r : Ring κ) : Prop :=
  (Waiting p q r ∧ ∀ i, a < i → i < k → label i ≠ some q) ∨
    (Served p q r ∧ ∃! i, a < i ∧ i < k ∧ label i = some q)

theorem Phase.step {k : Nat} {r r' : Ring κ} {ready : κ → Bool} (phase : Phase label a p q k r)
    (step : Step ready r (label k) r') (distinct : q ≠ p) (above : a < k)
    (notBack : label k ≠ some p) (hp : p ∈ r.members) (hp' : p ∈ r'.members)
    (hq' : q ∈ r'.members) (readyP : ready p = true) (readyQ : r.cursor ≠ q → ready q = true) :
    Phase label a p q (k + 1) r' := by
  rcases phase with ⟨waiting, never⟩ | ⟨served, once⟩
  · rcases waiting.step step hp hp' hq' (readyQ waiting.cursor_ne) with
      ⟨notNow, waiting'⟩ | ⟨now, served'⟩
    · refine .inl ⟨waiting', ?_⟩
      intro i hi hik
      by_cases last : i = k
      · exact last ▸ notNow
      · exact never i hi (by omega)
    · refine .inr ⟨served', k, ⟨above, by omega, now⟩, ?_⟩
      rintro i ⟨hi, hik, selected⟩
      by_contra other
      exact never i hi (by omega) selected
  · obtain ⟨notNow, served'⟩ := served.step step distinct hp hp' hq' readyP notBack
    obtain ⟨i, ⟨hi, hik, selected⟩, unique⟩ := once
    refine .inr ⟨served', i, ⟨hi, by omega, selected⟩, ?_⟩
    rintro j ⟨hj, hjk, selected'⟩
    by_cases last : j = k
    · exact absurd (last ▸ selected') notNow
    · exact unique j ⟨hj, by omega, selected'⟩

theorem phase_between (distinct : q ≠ p)
    (steps : ∀ k, a < k → k ≤ b → Step (ready k) (ring k) (label k) (ring (k + 1)))
    (start : (ring (a + 1)).cursor = p) (between : ∀ k, a < k → k < b → label k ≠ some p)
    (hp : ∀ k, a < k → k ≤ b → p ∈ (ring k).members)
    (hq : ∀ k, a < k → k ≤ b → q ∈ (ring k).members)
    (readyP : ∀ k, a < k → k ≤ b → ready k p = true)
    (readyQ : ∀ k, a < k → k ≤ b → (ring k).cursor ≠ q → ready k q = true)
    {k : Nat} (from_ : a < k) (upto : k ≤ b) : Phase label a p q k (ring k) := by
  induction k with
  | zero => omega
  | succ k ih =>
      by_cases first : k = a
      · subst first
        refine .inl ⟨Waiting.of_cursor start distinct (hq _ (by omega) upto), ?_⟩
        intro i above below
        omega
      · have above : a < k := by omega
        have below : k ≤ b := by omega
        exact (ih above below).step (steps k above below) distinct above
          (between k above (by omega)) (hp k above below) (hp (k + 1) from_ upto)
          (hq (k + 1) from_ upto) (readyP k above below) (readyQ k above below)

/-- Fairness: when `p` is at the cursor after step `a` and is selected again at
step `b` but not in between, a member that stays and stays ready is selected
exactly once in between. -/
theorem selected_once (distinct : q ≠ p) (order : a < b)
    (steps : ∀ k, a < k → k ≤ b → Step (ready k) (ring k) (label k) (ring (k + 1)))
    (start : (ring (a + 1)).cursor = p) (stop : label b = some p)
    (between : ∀ k, a < k → k < b → label k ≠ some p)
    (hp : ∀ k, a < k → k ≤ b → p ∈ (ring k).members)
    (hq : ∀ k, a < k → k ≤ b → q ∈ (ring k).members)
    (readyP : ∀ k, a < k → k ≤ b → ready k p = true)
    (readyQ : ∀ k, a < k → k ≤ b → (ring k).cursor ≠ q → ready k q = true) :
    ∃! k, a < k ∧ k < b ∧ label k = some q := by
  rcases phase_between distinct steps start between hp hq readyP readyQ order (Nat.le_refl b) with
    ⟨waiting, _⟩ | ⟨_, once⟩
  · have readyHere := readyQ b order (Nat.le_refl b) waiting.cursor_ne
    have last := steps b order (Nat.le_refl b)
    rw [stop] at last
    cases last with
    | select chosen cursor members =>
        exact absurd rfl (waiting.select (hp b order (Nat.le_refl b)) readyHere chosen).1
  · exact once

end Fairness
end RoundRobin
