import ComputeKernel.Support.Checked

/-! Code that commutes with a change of the state: making the change before the code
runs or after it comes to the same. Code that keeps away from a part of the state
commutes with every change of that part. -/
namespace Checked

variable {σ τ α β ι : Type}

/-- The outcome with its state, if there is one, changed. -/
def Outcome.mapState (change : σ → σ) : Outcome σ α → Outcome σ α
  | .done a s => .done a (change s)
  | .halted s => .halted (change s)
  | .panicked why => .panicked why
  | .faulted address => .faulted address
  | .exhausted => .exhausted

def Commutes (change : σ → σ) (m : Exec σ α) : Prop := ∀ s, m (change s) = (m s).mapState change

namespace Commutes

variable {change : σ → σ} {m : Exec σ α}

theorem done (h : Commutes change m) {s s' : σ} {a : α} (ran : m s = .done a s') :
    m (change s) = .done a (change s') := by
  rw [h, ran]
  rfl

/-- Code keeps what a change makes of the state it starts in. -/
theorem kept (h : Commutes change m) {s s' : σ} {a : α} (ran : m s = .done a s')
    (same : change s = s) : change s' = s' := by
  have again := h.done ran
  rw [same, ran] at again
  injection again with _ changed
  exact changed.symm

theorem ret (a : α) : Commutes change (Exec.ret a) := fun _ => rfl

theorem halt : Commutes change (Exec.halt : Exec σ α) := fun _ => rfl

theorem fault (address : UInt64) : Commutes change (Exec.fault address : Exec σ α) := fun _ => rfl

theorem panic (why : Panic) : Commutes change (Exec.panic why : Exec σ α) := fun _ => rfl

theorem exhaust : Commutes change (Exec.exhaust : Exec σ α) := fun _ => rfl

theorem ite {c : Prop} [Decidable c] {n : Exec σ α} (yes : Commutes change m) (no : Commutes change n) :
    Commutes change (if c then m else n) := by
  split
  · exact yes
  · exact no

theorem bind {f : α → Exec σ β} (first : Commutes change m) (next : ∀ a, Commutes change (f a)) :
    Commutes change (m >>= f) := by
  intro s
  change Exec.andThen m f (change s) = (Exec.andThen m f s).mapState change
  unfold Exec.andThen
  rw [first]
  cases m s with
  | done a s' => exact next a s'
  | halted s' => rfl
  | panicked why => rfl
  | faulted address => rfl
  | exhausted => rfl

/-- A look at the state that does not depend on what is changed. -/
theorem get_bind {f : σ → Exec σ α} (same : ∀ s, f (change s) = f s)
    (next : ∀ s, Commutes change (f s)) : Commutes change (Exec.get >>= f) := by
  intro s
  rw [Exec.get_bind, Exec.get_bind, same]
  exact next s s

theorem modify {f : σ → σ} (swaps : ∀ s, f (change s) = change (f s)) :
    Commutes change (Exec.modify f) := fun s => congrArg (Outcome.done ()) (swaps s)

theorem zoom {view : σ → τ} {update : τ → σ → σ} (unseen : ∀ s, view (change s) = view s)
    (swaps : ∀ t s, update t (change s) = change (update t s)) (m : Exec τ α) :
    Commutes change (Exec.zoom view update m) := by
  intro s
  unfold Exec.zoom
  rw [unseen]
  cases m (view s) with
  | done a t => exact congrArg (Outcome.done a) (swaps t s)
  | halted t => exact congrArg Outcome.halted (swaps t s)
  | panicked why => rfl
  | faulted address => rfl
  | exhausted => rfl

theorem forEach {items : List ι} {body : ι → Exec σ Unit}
    (each : ∀ item, Commutes change (body item)) : Commutes change (Exec.forEach items body) := by
  induction items with
  | nil => exact ret ()
  | cons item items ih => exact bind (each item) (fun _ => ih)

end Commutes
end Checked
