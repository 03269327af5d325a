import ComputeKernel.Support.Finishes

/-! One piece of code simulated by another over a different state: whenever the first
returns, the second returns the same, and what they leave is related as what they
started from. Used for code that answers as its specification does, and for code that
keeps a log beside the state of the code it stands for. -/
namespace Checked

variable {σ τ α β ι : Type}

/-- The answers to operations made one after another. -/
def Exec.answers (exec : ι → Exec σ α) : List ι → Exec σ (List α)
  | [] => ret []
  | op :: ops => do
      let answer ← exec op
      let rest ← answers exec ops
      ret (answer :: rest)

/-- What every operation keeps, a run of operations keeps. -/
theorem Finishes.answers {exec : ι → Exec σ α} {I : σ → Prop} {s : σ} (start : I s)
    (each : ∀ op s, I s → Finishes (exec op) (fun _ s' => I s') s) (ops : List ι) :
    Finishes (Exec.answers exec ops) (fun _ s' => I s') s := by
  induction ops generalizing s with
  | nil => exact ret start
  | cons op ops ih =>
      refine andThen (each op s start) ?_
      intro _ s' kept
      exact andThen (ih kept) (fun _ _ kept' => ret kept')

/-- What `m` returns from `s`, `n` returns from `t`, and the states left are related. -/
def Simulated (R : σ → τ → Prop) (m : Exec σ α) (n : Exec τ α) (s : σ) (t : τ) : Prop :=
  ∀ a s', m s = .done a s' → ∃ t', n t = .done a t' ∧ R s' t'

namespace Simulated

variable {R : σ → τ → Prop} {m : Exec σ α} {n : Exec τ α} {s : σ} {t : τ}

theorem ret {a : α} (related : R s t) : Simulated R (Exec.ret a) (Exec.ret a) s t := by
  rintro _ _ ⟨⟩
  exact ⟨t, rfl, related⟩

theorem bind {f : α → Exec σ β} {g : α → Exec τ β} (first : Simulated R m n s t)
    (next : ∀ a s' t', R s' t' → Simulated R (f a) (g a) s' t') :
    Simulated R (m >>= f) (n >>= g) s t := by
  intro b s'' ran
  obtain ⟨a, s', ranFirst, ranNext⟩ := Exec.done_of_bind ran
  obtain ⟨t', simFirst, related⟩ := first a s' ranFirst
  obtain ⟨t'', simNext, related'⟩ := next a s' t' related b s'' ranNext
  exact ⟨t'', (Exec.bind_of_done simFirst).trans simNext, related'⟩

theorem forEach {items : List ι} {f : ι → Exec σ Unit} {g : ι → Exec τ Unit} (related : R s t)
    (each : ∀ item s t, R s t → Simulated R (f item) (g item) s t) :
    Simulated R (Exec.forEach items f) (Exec.forEach items g) s t := by
  induction items generalizing s t with
  | nil => exact ret related
  | cons item items ih =>
      exact bind (each item s t related) (fun _ _ _ related' => ih related')

/-- Operations that are simulated one by one give the same answers in every run. -/
theorem answers {f : ι → Exec σ α} {g : ι → Exec τ α} (related : R s t)
    (each : ∀ op s t, R s t → Simulated R (f op) (g op) s t) (ops : List ι) :
    Simulated R (Exec.answers f ops) (Exec.answers g ops) s t := by
  induction ops generalizing s t with
  | nil => exact ret related
  | cons op ops ih =>
      refine bind (each op s t related) ?_
      intro answer s' t' related'
      exact bind (ih related') (fun rest _ _ related'' => ret related'')

/-- Code over a part of the state is simulated by the same code over that part alone. -/
theorem zoom {view : σ → τ} {update : τ → σ → σ} (get_update : ∀ t s, R (update t s) t)
    (m : Exec τ α) (s : σ) : Simulated R (Exec.zoom view update m) m s (view s) := by
  intro a s' ran
  unfold Exec.zoom at ran
  cases inner : m (view s) with
  | done b t =>
      rw [inner] at ran
      cases ran
      exact ⟨t, rfl, get_update t s⟩
  | halted t => simp [inner] at ran
  | panicked why => simp [inner] at ran
  | faulted address => simp [inner] at ran
  | exhausted => simp [inner] at ran

end Simulated
end Checked
