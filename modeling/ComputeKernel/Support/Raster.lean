import Mathlib.Data.List.Basic
import Mathlib.Tactic.Ring

/-! A list as a raster: cells of one size stand one after another, and a cell is painted
by writing a block over its start. -/
namespace Raster

variable {α : Type*} {items block paint old new : List α} {size start stride : Nat}
  {cells cells' : Nat → Prop}

/-- The items with a block written over them. -/
def overlay (items : List α) (start : Nat) : List α → List α
  | [] => items
  | a :: block => overlay (items.set start a) (start + 1) block

@[simp] theorem overlay_length : (overlay items start block).length = items.length := by
  induction block generalizing items start with
  | nil => rfl
  | cons a block ih => rw [overlay, ih, List.length_set]

theorem getElem?_overlay (inside : start + block.length ≤ items.length) (i : Nat) :
    (overlay items start block)[i]? =
      if start ≤ i ∧ i < start + block.length then block[i - start]? else items[i]? := by
  induction block generalizing items start with
  | nil => rw [overlay, List.length_nil, if_neg (by omega)]
  | cons a block ih =>
      rw [List.length_cons] at inside
      rw [overlay, ih (by rw [List.length_set]; omega), List.length_cons]
      rcases Nat.lt_trichotomy i start with below | same | above
      · rw [if_neg (by omega), if_neg (by omega), List.getElem?_set_ne (by omega)]
      · subst same
        rw [if_neg (by omega), if_pos (by omega), Nat.sub_self, List.getElem?_set_self (by omega),
          List.getElem?_cons_zero]
      · rw [List.getElem?_set_ne (by omega), show i - start = i - (start + 1) + 1 by omega,
          List.getElem?_cons_succ]
        exact if_congr (by omega) rfl rfl

/-- An item belongs to one cell, at one place. -/
theorem place_inj {i j k l : Nat} (within : k < size) (within' : l < size)
    (same : i * size + k = j * size + l) : i = j ∧ k = l := by
  have positive : 0 < size := Nat.zero_lt_of_lt within
  have cell := congrArg (· / size) same
  have place := congrArg (· % size) same
  simp only [Nat.mul_comm _ size, Nat.mul_add_div positive, Nat.div_eq_of_lt within,
    Nat.div_eq_of_lt within', Nat.mul_add_mod, Nat.mod_eq_of_lt within,
    Nat.mod_eq_of_lt within', Nat.add_zero] at cell place
  exact ⟨cell, place⟩

/-- The cells and no others have been painted. -/
structure Painted (size : Nat) (paint : List α) (cells : Nat → Prop) (old new : List α) : Prop where
  length : new.length = old.length
  painted : ∀ i, cells i → ∀ k, k < paint.length → new[i * size + k]? = paint[k]?
  kept : ∀ a, (∀ i, cells i → ∀ k, k < paint.length → a ≠ i * size + k) → new[a]? = old[a]?

namespace Painted

theorem none (empty : ∀ i, ¬cells i) : Painted size paint cells old old :=
  ⟨rfl, fun i cell => absurd cell (empty i), fun _ _ => rfl⟩

theorem congr (h : Painted size paint cells old new) (same : ∀ i, cells i ↔ cells' i) :
    Painted size paint cells' old new := by
  have equal : cells = cells' := funext (fun i => propext (same i))
  exact equal ▸ h

theorem eq (h : Painted size paint cells old new) (empty : ∀ i, ¬cells i) : new = old :=
  List.ext_getElem? (fun a => h.kept a (fun i cell => absurd cell (empty i)))

/-- Painting one cell more. A cell may be painted again. -/
theorem cell (h : Painted size paint cells old new) (fits : paint.length ≤ size) {i : Nat}
    (inside : i * size + paint.length ≤ old.length) :
    Painted size paint (fun j => cells j ∨ j = i) old (overlay new (i * size) paint) := by
  have inside' : i * size + paint.length ≤ new.length := by
    rw [h.length]
    exact inside
  refine ⟨by rw [overlay_length, h.length], ?_, ?_⟩
  · intro j cell k within
    rw [getElem?_overlay inside']
    split
    · next covered =>
        have same : j * size + k = i * size + (j * size + k - i * size) := by omega
        obtain ⟨_, place⟩ := place_inj (by omega) (by omega) same
        rw [← place]
    · next apart =>
        rcases cell with before | now
        · exact h.painted j before k within
        · subst now
          omega
  · intro a other
    rw [getElem?_overlay inside', if_neg, h.kept a (fun j cell => other j (Or.inl cell))]
    rintro ⟨above, below⟩
    exact other i (Or.inr rfl) (a - i * size) (by omega) (by omega)

/-- A cell that has not been painted is as before. -/
theorem other (h : Painted size paint cells old new) (fits : paint.length ≤ size) {j k : Nat}
    (untouched : ¬cells j) (within : k < size) : new[j * size + k]? = old[j * size + k]? := by
  apply h.kept
  intro i cell l inside same
  obtain ⟨equal, _⟩ := place_inj within (by omega) same
  exact untouched (equal ▸ cell)

end Painted

/-- Some cells, and those that the parts before the `t`-th of a range add to them. -/
def upTo (cells : Nat → Prop) (part : Nat → Nat → Prop) (first t : Nat) (j : Nat) : Prop :=
  cells j ∨ ∃ i, first ≤ i ∧ i < t ∧ part i j

theorem upTo_of_le {part : Nat → Nat → Prop} {first t : Nat} (early : t ≤ first) (j : Nat) :
    upTo cells part first t j ↔ cells j := by
  refine or_iff_left ?_
  rintro ⟨i, above, below, _⟩
  omega

theorem upTo_succ {part : Nat → Nat → Prop} {first t : Nat} (late : first ≤ t) (j : Nat) :
    upTo cells part first (t + 1) j ↔ upTo cells part first t j ∨ part t j := by
  constructor
  · rintro (before | ⟨i, above, below, added⟩)
    · exact .inl (.inl before)
    · rcases Nat.lt_succ_iff_lt_or_eq.mp below with earlier | same
      · exact .inl (.inr ⟨i, above, earlier, added⟩)
      · exact .inr (same ▸ added)
  · rintro ((before | ⟨i, above, below, added⟩) | now)
    · exact .inl before
    · exact .inr ⟨i, above, Nat.lt_succ_of_lt below, added⟩
    · exact .inr ⟨t, late, Nat.lt_succ_self t, now⟩

/-- A cell of a row lies before the end of the last row. -/
theorem cell_lt {row col height : Nat} (inRow : col < stride) (inHeight : row < height) :
    row * stride + col + 1 ≤ stride * height := by
  calc row * stride + col + 1 ≤ row * stride + stride := by omega
    _ = stride * (row + 1) := by ring
    _ ≤ stride * height := Nat.mul_le_mul_left stride inHeight

end Raster
