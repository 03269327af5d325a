import Mathlib.Data.Nat.ModEq

/-! One's complement arithmetic on the numbers `0..m`, where `m` has all bits set. Zero
has two representations, `0` and `m`, and addition carries around the end. -/
namespace OnesComplement

/-- Addition with the carry added at the low end. -/
def add (m a b : Nat) : Nat := if a + b ≤ m then a + b else a + b - m

/-- The sum of words, one after another. -/
def total (m : Nat) (words : List Nat) : Nat := words.foldl (add m) 0

/-- The number of `0..m` that stands for `n`: only zero itself is represented by `0`. -/
def residue (m n : Nat) : Nat := if n = 0 then 0 else (n - 1) % m + 1

/-- One turn of folding a number that has outgrown the word. -/
def fold (m n : Nat) : Nat := n % (m + 1) + n / (m + 1)

variable {m a b n : Nat}

theorem residue_zero : residue m 0 = 0 := rfl

theorem residue_of_pos (positive : 0 < n) : residue m n = (n - 1) % m + 1 :=
  if_neg (Nat.ne_of_gt positive)

theorem residue_pos (positive : 0 < n) : 0 < residue m n := by
  rw [residue_of_pos positive]
  exact Nat.succ_pos _

theorem residue_le (nontrivial : 0 < m) (n : Nat) : residue m n ≤ m := by
  unfold residue
  split
  · exact Nat.zero_le m
  · exact Nat.mod_lt _ nontrivial

theorem residue_of_le (small : n ≤ m) : residue m n = n := by
  rcases Nat.eq_zero_or_pos n with rfl | positive
  · rfl
  · rw [residue_of_pos positive, Nat.mod_eq_of_lt (by omega)]
    omega

theorem residue_modEq (m n : Nat) : residue m n ≡ n [MOD m] := by
  rcases Nat.eq_zero_or_pos n with rfl | positive
  · rfl
  · rw [residue_of_pos positive]
    have step := (Nat.mod_modEq (n - 1) m).add_right 1
    rwa [Nat.sub_add_cancel positive] at step

/-- A positive number is represented by the one positive word congruent to it. -/
theorem eq_residue (positive : 0 < a) (small : a ≤ m) (number : 0 < n) (same : a ≡ n [MOD m]) :
    a = residue m n := by
  have one_le : 1 ≤ a := positive
  have shifted : a - 1 ≡ n - 1 [MOD m] := by
    apply Nat.ModEq.add_right_cancel' 1
    rwa [Nat.sub_add_cancel one_le, Nat.sub_add_cancel number]
  have value : (a - 1) % m = (n - 1) % m := shifted
  rw [Nat.mod_eq_of_lt (by omega)] at value
  rw [residue_of_pos number]
  omega

/-- Numbers that are congruent and vanish together have one representation. -/
theorem residue_congr (zero : a = 0 ↔ b = 0) (same : a ≡ b [MOD m]) (nontrivial : 0 < m) :
    residue m a = residue m b := by
  rcases Nat.eq_zero_or_pos a with rfl | positive
  · rw [zero.mp rfl]
  · have number : 0 < b := Nat.pos_of_ne_zero (fun none_ => by rw [zero.mpr none_] at positive; omega)
    apply eq_residue (residue_pos positive) (residue_le nontrivial a) number
    exact (residue_modEq m a).trans same

theorem residue_add (nontrivial : 0 < m) : residue m (residue m a + b) = residue m (a + b) := by
  rcases Nat.eq_zero_or_pos a with rfl | positive
  · rfl
  · have kept := residue_pos (m := m) positive
    exact residue_congr (by omega) ((residue_modEq m a).add_right b) nontrivial

theorem add_eq_residue (left : a ≤ m) (right : b ≤ m) : add m a b = residue m (a + b) := by
  unfold add
  split
  · next fits => rw [residue_of_le fits]
  · next carries =>
      apply eq_residue (by omega) (by omega) (by omega)
      have around : a + b - m + m ≡ a + b - m [MOD m] := Nat.add_modEq_right
      rw [Nat.sub_add_cancel (by omega)] at around
      exact around.symm

/-- The words may be added as numbers, and the sum represented at the end. -/
theorem foldl_add (nontrivial : 0 < m) {words : List Nat} (small : ∀ word ∈ words, word ≤ m)
    (start : Nat) :
    words.foldl (add m) (residue m start) = residue m (words.foldl (· + ·) start) := by
  induction words generalizing start with
  | nil => rfl
  | cons word words ih =>
      rw [List.foldl_cons, List.foldl_cons,
        add_eq_residue (residue_le nontrivial start) (small word List.mem_cons_self),
        residue_add nontrivial]
      exact ih (fun other member => small other (List.mem_cons_of_mem word member)) (start + word)

theorem total_eq_residue (nontrivial : 0 < m) {words : List Nat}
    (small : ∀ word ∈ words, word ≤ m) : total m words = residue m (words.foldl (· + ·) 0) :=
  foldl_add nontrivial small 0

/-- Folding goes down as long as there is something to fold. -/
theorem fold_lt (nontrivial : 0 < m) (outgrown : m < n) : fold m n < n := by
  have parts := Nat.div_add_mod n (m + 1)
  have some_ : 0 < n / (m + 1) := Nat.div_pos outgrown (Nat.succ_pos m)
  have grows : n / (m + 1) < (m + 1) * (n / (m + 1)) := by
    have more := Nat.mul_pos nontrivial some_
    rw [Nat.succ_mul]
    omega
  unfold fold
  omega

/-- Folding changes the number and not the word that it stands for. -/
theorem residue_fold (nontrivial : 0 < m) (n : Nat) : residue m (fold m n) = residue m n := by
  have parts := Nat.div_add_mod n (m + 1)
  apply residue_congr _ _ nontrivial
  · unfold fold
    constructor
    · intro empty
      obtain ⟨remainder, quotient⟩ := Nat.add_eq_zero_iff.mp empty
      rw [remainder, quotient] at parts
      exact parts.symm
    · rintro rfl
      simp
  · have carry : m * (n / (m + 1)) + fold m n = n := by
      rw [Nat.succ_mul] at parts
      unfold fold
      omega
    calc fold m n ≡ m * (n / (m + 1)) + fold m n [MOD m] := (Nat.mul_add_mod m _ _).symm
      _ = n := carry

/-- All bits are set exactly for the positive multiples. -/
theorem residue_eq_top_iff (nontrivial : 0 < m) : residue m n = m ↔ 0 < n ∧ n ≡ 0 [MOD m] := by
  constructor
  · intro top
    have same := residue_modEq m n
    rw [top] at same
    refine ⟨Nat.pos_of_ne_zero ?_, same.symm.trans (Nat.modEq_zero_iff_dvd.mpr (Nat.dvd_refl m))⟩
    rintro rfl
    rw [residue_zero] at top
    omega
  · rintro ⟨positive, multiple⟩
    symm
    apply eq_residue nontrivial (Nat.le_refl m) positive
    exact (Nat.modEq_zero_iff_dvd.mpr (Nat.dvd_refl m)).trans multiple.symm

/-- A number and the complement of its word add up to all bits set. -/
theorem residue_add_complement (nontrivial : 0 < m) (n : Nat) :
    residue m (n + (m - residue m n)) = m := by
  have bound := residue_le nontrivial n
  have top : residue m n + (m - residue m n) = m := by omega
  rw [← residue_add nontrivial, top, residue_of_le (Nat.le_refl m)]

/-- Two words that stand for one number are equal, or are the two zeros. -/
theorem eq_or_zeros (left : a ≤ m) (right : b ≤ m) (same : a ≡ b [MOD m]) :
    a = b ∨ (a = 0 ∧ b = m) ∨ (a = m ∧ b = 0) := by
  rcases Nat.lt_or_ge a m with below | top
  · rcases Nat.lt_or_ge b m with below' | top'
    · exact .inl (same.eq_of_lt_of_lt below below')
    · have value : b = m := by omega
      subst value
      have zero : a % b = b % b := same
      rw [Nat.mod_self, Nat.mod_eq_of_lt below] at zero
      exact .inr (.inl ⟨zero, rfl⟩)
  · have value : a = m := by omega
    subst value
    rcases Nat.lt_or_ge b a with below' | top'
    · have zero : a % a = b % a := same
      rw [Nat.mod_self, Nat.mod_eq_of_lt below'] at zero
      exact .inr (.inr ⟨rfl, zero.symm⟩)
    · exact .inl (by omega)

end OnesComplement
