import Mathlib.Logic.Function.Basic
import ComputeKernel.Support.Commutes

/-! The footprint of checked code: the cells of a memory that the code may look at, and
those among them that it may store into. Code with a footprint comes to the same over every
memory that agrees on it, and leaves every other cell alone. -/
namespace Checked

variable {σ α β ι A V : Type}

/-- A memory that is part of the state. -/
structure Cells (σ A V : Type) where
  view : σ → A → V
  put : (A → V) → σ → σ
  view_put : ∀ memory s, view (put memory s) = memory
  put_view : ∀ s, put (view s) s = s
  put_put : ∀ memory memory' s, put memory (put memory' s) = put memory s

/-- Another memory, but with the cells of the state where the code may store. -/
def Cells.overlay (cells : Cells σ A V) (stored : A → Bool) (memory : A → V) (s : σ) : σ :=
  cells.put (fun a => if stored a then cells.view s a else memory a) s

/-- The state that an outcome comes with. -/
def Outcome.state? : Outcome σ α → Option σ
  | .done _ s => some s
  | .halted s => some s
  | .panicked _ => none
  | .faulted _ => none
  | .exhausted => none

theorem Outcome.state?_mapState (change : σ → σ) (outcome : Outcome σ α) :
    (outcome.mapState change).state? = outcome.state?.map change := by
  cases outcome <;> rfl

theorem Outcome.mapState_congr {outcome : Outcome σ α} {change other : σ → σ}
    (same : ∀ s, outcome.state? = some s → change s = other s) :
    outcome.mapState change = outcome.mapState other := by
  cases outcome with
  | done a s => exact congrArg (Outcome.done a) (same s rfl)
  | halted s => exact congrArg Outcome.halted (same s rfl)
  | panicked why => rfl
  | faulted address => rfl
  | exhausted => rfl

/-- The code looks only at cells that are `named` and stores only into those `stored`. -/
def Local (cells : Cells σ A V) (named stored : A → Bool) (m : Exec σ α) : Prop :=
  ∀ s memory, (∀ a, named a = true → memory a = cells.view s a) →
    m (cells.put memory s) = (m s).mapState (cells.overlay stored memory)

namespace Local

variable {cells : Cells σ A V} {named stored : A → Bool} {m : Exec σ α}

/-- No cell outside of the footprint is changed. -/
theorem kept (h : Local cells named stored m) {s s' : σ} (left : (m s).state? = some s') {a : A}
    (other : stored a = false) : cells.view s' a = cells.view s a := by
  have same := h s (cells.view s) (fun _ _ => rfl)
  rw [cells.put_view] at same
  have state := congrArg Outcome.state? same
  rw [Outcome.state?_mapState, left, Option.map_some, Option.some.injEq] at state
  rw [state, Cells.overlay, cells.view_put, other]
  exact if_neg Bool.false_ne_true

/-- Code that does not depend on the memory at all. -/
theorem of_commutes (free : ∀ memory, Commutes (cells.put memory) m)
    (within : ∀ a, stored a = true → named a = true) : Local cells named stored m := by
  intro s memory agrees
  rw [free memory s]
  apply Outcome.mapState_congr
  intro s' left
  have unchanged : cells.view s' = cells.view s := by
    have same := free (cells.view s) s
    rw [cells.put_view] at same
    have state := congrArg Outcome.state? same
    rw [Outcome.state?_mapState, left, Option.map_some, Option.some.injEq] at state
    rw [state, cells.view_put]
  unfold Cells.overlay
  congr 1
  funext a
  split
  · next inside => rw [unchanged, agrees a (within a inside)]
  · rfl

theorem bind {f : α → Exec σ β} (first : Local cells named stored m)
    (next : ∀ a, Local cells named stored (f a)) : Local cells named stored (m >>= f) := by
  intro s memory agrees
  change Exec.andThen m f (cells.put memory s) = (Exec.andThen m f s).mapState _
  unfold Exec.andThen
  rw [first s memory agrees]
  cases ran : m s with
  | done a s' =>
      have left : (m s).state? = some s' := by rw [ran]; rfl
      -- The memory between the two parts agrees where the first has not stored.
      have between := next a s' (fun a => if stored a then cells.view s' a else memory a) (by
        intro a inside
        cases hit : stored a with
        | true => exact if_pos rfl
        | false =>
            rw [first.kept left hit, ← agrees a inside]
            exact if_neg Bool.false_ne_true)
      change f a (cells.put _ s') = _
      rw [between]
      congr 1
      funext s''
      unfold Cells.overlay
      congr 1
      funext a
      split
      · rfl
      · next outside => exact if_neg outside
  | halted s' => rfl
  | panicked why => rfl
  | faulted address => rfl
  | exhausted => rfl

theorem ite {c : Prop} [Decidable c] {n : Exec σ α} (yes : c → Local cells named stored m)
    (no : ¬c → Local cells named stored n) : Local cells named stored (if c then m else n) := by
  split
  · next holds => exact yes holds
  · next fails => exact no fails

/-- A look at the rest of the state. -/
theorem get_bind {f : σ → Exec σ α} (same : ∀ s memory, f (cells.put memory s) = f s)
    (next : ∀ s, Local cells named stored (f s)) : Local cells named stored (Exec.get >>= f) := by
  intro s memory agrees
  rw [Exec.get_bind, Exec.get_bind, same]
  exact next s s memory agrees

/-- A look at one cell. -/
theorem look {f : σ → Exec σ α} {a : A} (inside : named a = true)
    (only : ∀ s t, cells.view s a = cells.view t a → f s = f t)
    (next : ∀ s, Local cells named stored (f s)) : Local cells named stored (Exec.get >>= f) := by
  intro s memory agrees
  rw [Exec.get_bind, Exec.get_bind, only _ s (by rw [cells.view_put, agrees a inside])]
  exact next s s memory agrees

/-- A store into one cell. -/
theorem store [DecidableEq A] {a : A} (inside : stored a = true)
    (within : ∀ a, stored a = true → named a = true) (v : V) :
    Local cells named stored
      (Exec.modify (fun s => cells.put (Function.update (cells.view s) a v) s)) := by
  intro s memory agrees
  refine congrArg (Outcome.done ()) ?_
  dsimp only [Cells.overlay]
  rw [cells.view_put, cells.put_put, cells.view_put, cells.put_put]
  congr 1
  funext b
  by_cases here : b = a
  · subst here
    rw [Function.update_self, if_pos inside, Function.update_self]
  · rw [Function.update_of_ne here, Function.update_of_ne here]
    split
    · next also => exact agrees b (within b also)
    · rfl

end Local
end Checked
