import Mathlib.Data.List.DropRight

/-! A line of text taken apart: blanks trimmed from both ends, and what stands before the
first separator kept apart from what stands after it. -/
namespace Words

variable {α : Type*} {blank : α → Bool} {text core lead tail cmd args : List α}

/-- The text without the blanks at its ends. -/
def trim (blank : α → Bool) (text : List α) : List α := (text.dropWhile blank).rdropWhile blank

/-- Neither the first nor the last item is a blank. -/
structure Solid (blank : α → Bool) (core : List α) : Prop where
  first : ∀ c rest, core = c :: rest → blank c = false
  last : ∀ init c, core = init ++ [c] → blank c = false

theorem solid_nil : Solid blank ([] : List α) where
  first := nofun
  last := by
    intro init c same
    exact absurd same.symm (by simp)

theorem Solid.dropWhile (solid : Solid blank core) (rest : List α) (some_ : core ≠ []) :
    (core ++ rest).dropWhile blank = core ++ rest := by
  cases core with
  | nil => exact absurd rfl some_
  | cons c core =>
      have stays := solid.first c core rfl
      rw [List.cons_append, List.dropWhile_cons_of_neg (by rw [stays]; decide)]

/-- Blanks behind the end are dropped. -/
theorem rdropWhile_append_blanks (blanks : ∀ c ∈ tail, blank c) :
    (core ++ tail).rdropWhile blank = core.rdropWhile blank := by
  have reversed : ∀ c ∈ tail.reverse, blank c := fun c member => blanks c (List.mem_reverse.mp member)
  rw [List.rdropWhile, List.rdropWhile, List.reverse_append, List.dropWhile_append_of_pos reversed]

theorem Solid.rdropWhile (solid : Solid blank core) : core.rdropWhile blank = core := by
  rw [List.rdropWhile_eq_self_iff]
  intro some_
  have stays := solid.last _ _ (List.dropLast_append_getLast some_).symm
  rw [stays]
  decide

theorem trim_of_solid (solid : Solid blank core) (leading : ∀ c ∈ lead, blank c)
    (trailing : ∀ c ∈ tail, blank c) : trim blank (lead ++ core ++ tail) = core := by
  unfold trim
  rw [List.append_assoc, List.dropWhile_append_of_pos leading]
  by_cases empty : core = []
  · subst empty
    rw [List.nil_append, List.dropWhile_eq_nil_iff.mpr trailing, List.rdropWhile_nil]
  · rw [solid.dropWhile tail empty, rdropWhile_append_blanks trailing, solid.rdropWhile]

theorem trim_of_leading (solid : Solid blank core) (leading : ∀ c ∈ lead, blank c) :
    trim blank (lead ++ core) = core := by
  have none_ : ∀ c ∈ ([] : List α), blank c := nofun
  have trimmed := trim_of_solid solid leading none_
  rwa [List.append_nil] at trimmed

theorem solid_trim (blank : α → Bool) (text : List α) : Solid blank (trim blank text) where
  first := by
    intro c rest same
    obtain ⟨after, split⟩ := List.rdropWhile_prefix blank (text.dropWhile blank)
    have head := List.head?_dropWhile_not blank text
    unfold trim at same
    rw [← split, same, List.cons_append, List.head?_cons] at head
    exact head
  last := by
    intro init c same
    have some_ : (text.dropWhile blank).rdropWhile blank ≠ [] := by
      intro empty
      rw [trim, empty] at same
      exact absurd same.symm (by simp)
    have stays := List.rdropWhile_last_not blank (text.dropWhile blank) some_
    have same : (text.dropWhile blank).rdropWhile blank = init ++ [c] := same
    simp only [same, List.getLast_append_singleton] at stays
    exact eq_false_of_ne_true stays

/-- Trimming removes blanks and nothing else. -/
theorem trim_split (blank : α → Bool) (text : List α) : ∃ lead tail, (∀ c ∈ lead, blank c) ∧
    (∀ c ∈ tail, blank c) ∧ text = lead ++ trim blank text ++ tail := by
  refine ⟨text.takeWhile blank, (text.dropWhile blank).rtakeWhile blank, ?_, ?_, ?_⟩
  · exact fun c member => List.mem_takeWhile_imp member
  · exact fun c member => List.mem_rtakeWhile_imp member
  · rw [trim, List.append_assoc, List.rdropWhile_append_rtakeWhile, List.takeWhile_append_dropWhile]

theorem trim_eq_nil_iff : trim blank text = [] ↔ ∀ c ∈ text, blank c := by
  constructor
  · intro empty
    obtain ⟨lead, tail, leading, trailing, split⟩ := trim_split blank text
    rw [empty, List.append_nil] at split
    rw [split]
    intro c member
    exact (List.mem_append.mp member).elim (leading c) (trailing c)
  · intro blanks
    have trimmed := trim_of_leading solid_nil blanks
    rwa [List.append_nil] at trimmed

section Separator
variable [DecidableEq α] {separator : α} {line : List α}

/-- What stands before the first separator, and what stands after it without the blanks
at its ends. -/
def words (blank : α → Bool) (separator : α) (line : List α) : List α × List α :=
  match line.dropWhile (· != separator) with
  | [] => (line, [])
  | _ :: rest => (line.takeWhile (· != separator), trim blank rest)

theorem words_of_not_mem (absent : separator ∉ line) : words blank separator line = (line, []) := by
  have dropped : line.dropWhile (· != separator) = [] := by
    rw [List.dropWhile_eq_nil_iff]
    intro c member
    rw [bne_iff_ne]
    rintro rfl
    exact absent member
  rw [words, dropped]

theorem words_append (absent : separator ∉ cmd) (rest : List α) :
    words blank separator (cmd ++ separator :: rest) = (cmd, trim blank rest) := by
  have all : ∀ c ∈ cmd, (c != separator) = true := by
    intro c member
    rw [bne_iff_ne]
    rintro rfl
    exact absent member
  have dropped : (cmd ++ separator :: rest).dropWhile (· != separator) = separator :: rest := by
    rw [List.dropWhile_append_of_pos all]
    exact List.dropWhile_cons_of_neg (by simp)
  have taken : (cmd ++ separator :: rest).takeWhile (· != separator) = cmd := by
    rw [List.takeWhile_append_of_pos all]
    simp
  rw [words, dropped, taken]

/-- A text with a first word, which has no separator in it, and an argument. Both are
surrounded by blanks; if there is an argument, a separator ends the first word. -/
structure Reads (blank : α → Bool) (separator : α) (text cmd args : List α) : Prop where
  command : cmd ≠ []
  unbroken : separator ∉ cmd
  solid : Solid blank args
  split : ∃ lead gap tail, text = lead ++ (cmd ++ gap ++ args) ++ tail ∧
    Solid blank (cmd ++ gap ++ args) ∧ (∀ c ∈ lead, blank c) ∧ (∀ c ∈ tail, blank c) ∧
    if args = [] then gap = [] else ∃ more, gap = separator :: more ∧ ∀ c ∈ more, blank c

theorem Reads.words_eq (reads : Reads blank separator text cmd args) :
    trim blank text ≠ [] ∧ words blank separator (trim blank text) = (cmd, args) := by
  obtain ⟨lead, gap, tail, rfl, whole, leading, trailing, between⟩ := reads.split
  rw [trim_of_solid whole leading trailing]
  refine ⟨?_, ?_⟩
  · intro empty
    rw [List.append_assoc, List.append_eq_nil_iff] at empty
    exact reads.command empty.1
  · split at between
    · next noArgs =>
        rw [between, noArgs, List.append_nil, List.append_nil]
        exact words_of_not_mem reads.unbroken
    · next someArgs =>
        obtain ⟨more, rfl, blanks⟩ := between
        rw [List.append_assoc, List.cons_append, words_append reads.unbroken,
          trim_of_leading reads.solid blanks]

/-- What the two functions find in a text that is not blank is a reading of it. -/
theorem reads_words (separates : blank separator = true) (some_ : trim blank text ≠ []) :
    Reads blank separator text (words blank separator (trim blank text)).1
      (words blank separator (trim blank text)).2 := by
  obtain ⟨lead, tail, leading, trailing, split⟩ := trim_split blank text
  have solid := solid_trim blank text
  generalize trim blank text = line at split some_ solid
  by_cases present : separator ∈ line
  · obtain ⟨cmd, rest, rfl, absent⟩ := List.eq_append_cons_of_mem present
    rw [words_append absent]
    obtain ⟨before, after, befores, afters, inner⟩ := trim_split blank rest
    have command : cmd ≠ [] := by
      rintro rfl
      exact absurd (solid.first separator rest rfl) (by rw [separates]; decide)
    -- the line does not end with a blank, so no blank follows the argument
    have ends : after = [] := by
      rcases List.eq_nil_or_concat after with empty | ⟨init, c, rfl⟩
      · exact empty
      · have unblank := solid.last (cmd ++ separator :: (before ++ trim blank rest ++ init)) c (by
          nth_rewrite 1 [inner]
          simp)
        rw [afters c (by simp)] at unblank
        cases unblank
    have argument : trim blank rest ≠ [] := by
      intro empty
      have blanks := trim_eq_nil_iff.mp empty
      rcases List.eq_nil_or_concat rest with rfl | ⟨init, c, rfl⟩
      · exact absurd (solid.last cmd separator rfl) (by rw [separates]; decide)
      · have unblank := solid.last (cmd ++ separator :: init) c (by simp)
        rw [blanks c (by simp)] at unblank
        cases unblank
    rw [ends, List.append_nil] at inner
    have whole : cmd ++ (separator :: before) ++ trim blank rest = cmd ++ separator :: rest := by
      nth_rewrite 2 [inner]
      simp
    refine ⟨command, absent, solid_trim blank rest, lead, separator :: before, tail, ?_, ?_, leading, trailing, ?_⟩
    · rw [whole]
      exact split
    · rw [whole]
      exact solid
    · rw [if_neg argument]
      exact ⟨before, rfl, befores⟩
  · rw [words_of_not_mem present]
    refine ⟨some_, present, solid_nil, lead, [], tail, ?_, ?_, leading, trailing, ?_⟩
    · simpa using split
    · simpa using solid
    · rw [if_pos rfl]

end Separator
end Words
