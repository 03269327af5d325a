import Mathlib.Algebra.Group.Nat.Defs
import Mathlib.Data.List.Induction

/-! Finite runs of a deterministic step function: which steps a run admits, what
is observed along it, and how one item of the state is followed through it.
Nothing here depends on what the states and steps are. -/
namespace Runs

variable {σ ι β κ : Type*}

def run (step : σ → ι → σ) (s : σ) (ops : List ι) : σ := ops.foldl step s

@[simp] theorem run_nil (step : σ → ι → σ) (s : σ) : run step s [] = s := rfl

@[simp] theorem run_cons (step : σ → ι → σ) (s : σ) (op : ι) (ops : List ι) :
    run step s (op :: ops) = run step (step s op) ops := rfl

theorem run_append (step : σ → ι → σ) (s : σ) (before after : List ι) :
    run step s (before ++ after) = run step (run step s before) after :=
  List.foldl_append

theorem run_take_succ (step : σ → ι → σ) (s : σ) {ops : List ι} {k : Nat} {op : ι}
    (here : ops[k]? = some op) : run step s (ops.take (k + 1)) = step (run step s (ops.take k)) op := by
  rw [List.take_add_one, here, run_append]
  rfl

/-- Every step is taken at a state that admits it. -/
def Admitted (step : σ → ι → σ) (ok : σ → ι → Prop) : σ → List ι → Prop
  | _, [] => True
  | s, op :: ops => ok s op ∧ Admitted step ok (step s op) ops

instance (step : σ → ι → σ) (ok : σ → ι → Prop) [∀ s op, Decidable (ok s op)] :
    (s : σ) → (ops : List ι) → Decidable (Admitted step ok s ops)
  | _, [] => .isTrue trivial
  | s, op :: ops =>
      have := instDecidableAdmitted step ok (step s op) ops
      inferInstanceAs (Decidable (ok s op ∧ Admitted step ok (step s op) ops))

theorem admitted_append {step : σ → ι → σ} {ok : σ → ι → Prop} {s : σ} {before after : List ι} :
    Admitted step ok s (before ++ after) ↔
      Admitted step ok s before ∧ Admitted step ok (run step s before) after := by
  induction before generalizing s with
  | nil => simp [Admitted]
  | cons op before ih => simp only [List.cons_append, Admitted, run_cons, ih, and_assoc]

theorem Admitted.of_prefix {step : σ → ι → σ} {ok : σ → ι → Prop} {s : σ} {before ops : List ι}
    (admitted : Admitted step ok s ops) (reached : before <+: ops) : Admitted step ok s before := by
  obtain ⟨after, rfl⟩ := reached
  exact (admitted_append.mp admitted).1

theorem Admitted.at_step {step : σ → ι → σ} {ok : σ → ι → Prop} {s : σ} {ops : List ι}
    (admitted : Admitted step ok s ops) {k : Nat} {op : ι} (here : ops[k]? = some op) :
    ok (run step s (ops.take k)) op := by
  have upto := admitted.of_prefix (List.take_prefix (k + 1) ops)
  rw [List.take_add_one, here] at upto
  exact (admitted_append.mp upto).2.1

/-- A property kept by every admitted step holds after every admitted run. -/
theorem Admitted.invariant {step : σ → ι → σ} {ok : σ → ι → Prop} {Inv : σ → Prop}
    (keep : ∀ s op, Inv s → ok s op → Inv (step s op)) {s : σ} {ops : List ι}
    (admitted : Admitted step ok s ops) (start : Inv s) : Inv (run step s ops) := by
  induction ops generalizing s with
  | nil => exact start
  | cons op ops ih => exact ih admitted.2 (keep s op start admitted.1)

theorem run_invariant {step : σ → ι → σ} {Inv : σ → Prop}
    (keep : ∀ s op, Inv s → Inv (step s op)) {s : σ} (ops : List ι) (start : Inv s) :
    Inv (run step s ops) := by
  induction ops generalizing s with
  | nil => exact start
  | cons op ops ih => exact ih (keep s op start)

/-- What the steps of a run return, in order, dropping steps that return nothing. -/
def outputs (step : σ → ι → σ) (out : σ → ι → Option β) : σ → List ι → List β
  | _, [] => []
  | s, op :: ops => (out s op).toList ++ outputs step out (step s op) ops

theorem outputs_append (step : σ → ι → σ) (out : σ → ι → Option β) (s : σ)
    (before after : List ι) :
    outputs step out s (before ++ after) =
      outputs step out s before ++ outputs step out (run step s before) after := by
  induction before generalizing s with
  | nil => rfl
  | cons op before ih => simp only [List.cons_append, outputs, run_cons, ih, List.append_assoc]

theorem outputs_concat (step : σ → ι → σ) (out : σ → ι → Option β) (s : σ) (ops : List ι) (op : ι) :
    outputs step out s (ops ++ [op]) =
      outputs step out s ops ++ (out (run step s ops) op).toList := by
  rw [outputs_append]
  simp [outputs]

/-- Every output is returned by one step of the run, after exactly the earlier ones. -/
theorem exists_step_of_output {step : σ → ι → σ} {out : σ → ι → Option β} {s : σ} {ops : List ι}
    {m : Nat} {b : β} (h : (outputs step out s ops)[m]? = some b) :
    ∃ before op, before ++ [op] <+: ops ∧ (outputs step out s before).length = m ∧
      out (run step s before) op = some b := by
  induction ops using List.reverseRecOn with
  | nil => simp [outputs] at h
  | append_singleton ops op ih =>
      rw [outputs_concat] at h
      by_cases earlier : m < (outputs step out s ops).length
      · rw [List.getElem?_append_left earlier] at h
        obtain ⟨before, last, reached, length, returned⟩ := ih h
        exact ⟨before, last, reached.trans (List.prefix_append ops [op]), length, returned⟩
      · rw [List.getElem?_append_right (by omega)] at h
        cases returned : out (run step s ops) op with
        | none => simp [returned] at h
        | some c =>
            simp only [returned, Option.toList_some] at h
            have inside := (List.getElem?_eq_some_iff.mp h).1
            have last : m - (outputs step out s ops).length = 0 := by
              simp only [List.length_singleton] at inside
              omega
            rw [last] at h
            exact ⟨ops, op, List.prefix_refl _, by omega, returned.trans h⟩

/-- Follow one item through a run. `none` means that some step removed it. -/
def follow (step : σ → ι → σ) (move : σ → ι → κ → Option κ) : σ → List ι → κ → Option κ
  | _, [], k => some k
  | s, op :: ops, k => (move s op k).bind (follow step move (step s op) ops)

/-- A property of a followed item that every admitted step keeps is kept as long
as the item is there. -/
theorem Admitted.follow_invariant {step : σ → ι → σ} {ok : σ → ι → Prop}
    {move : σ → ι → κ → Option κ} {P : σ → κ → Prop}
    (keep : ∀ s op k k', P s k → ok s op → move s op k = some k' → P (step s op) k')
    {s : σ} {ops : List ι} {k k' : κ} (admitted : Admitted step ok s ops) (start : P s k)
    (there : follow step move s ops k = some k') : P (run step s ops) k' := by
  induction ops generalizing s k with
  | nil =>
      cases there
      exact start
  | cons op ops ih =>
      obtain ⟨next, moved, rest⟩ := Option.bind_eq_some_iff.mp there
      exact ih admitted.2 (keep s op k next start admitted.1 moved) rest

theorem admitted_of_forall {step : σ → ι → σ} {ok : σ → ι → Prop} (all : ∀ s op, ok s op) (s : σ)
    (ops : List ι) : Admitted step ok s ops := by
  induction ops generalizing s with
  | nil => trivial
  | cons op ops ih => exact ⟨all s op, ih (step s op)⟩

/-- The same for a property that every step keeps. -/
theorem follow_invariant {step : σ → ι → σ} {move : σ → ι → κ → Option κ} {P : σ → κ → Prop}
    (keep : ∀ s op k k', P s k → move s op k = some k' → P (step s op) k') {s : σ} {ops : List ι}
    {k k' : κ} (start : P s k) (there : follow step move s ops k = some k') : P (run step s ops) k' := by
  have admitted : Admitted step (fun _ _ => True) s ops := admitted_of_forall (fun _ _ => trivial) s ops
  exact admitted.follow_invariant (fun s op k k' holds _ => keep s op k k' holds) start there

theorem follow_concat (step : σ → ι → σ) (move : σ → ι → κ → Option κ) (s : σ) (ops : List ι)
    (op : ι) (k : κ) :
    follow step move s (ops ++ [op]) k = (follow step move s ops k).bind (move (run step s ops) op) := by
  induction ops generalizing s k with
  | nil =>
      change (move s op k).bind some = move s op k
      exact Option.bind_fun_some _
  | cons first ops ih =>
      change (move s first k).bind (follow step move (step s first) (ops ++ [op])) = _
      rw [follow, Option.bind_assoc]
      congr 1
      funext k
      exact ih (step s first) k

/-- Something happened to an item in the course of a run, and the item is still there. What
happened may depend on the run before it. -/
def Happened (step : σ → ι → σ) (move : σ → ι → κ → Option κ) (event : List ι → ι → κ → Prop) (s : σ)
    (ops : List ι) (k : κ) : Prop :=
  ∃ before op after i, ops = before ++ op :: after ∧ event before op i ∧
    follow step move (run step s before) (op :: after) i = some k

theorem Happened.later {step : σ → ι → σ} {move : σ → ι → κ → Option κ}
    {event : List ι → ι → κ → Prop} {s : σ} {ops : List ι} {k k' : κ} {op : ι}
    (h : Happened step move event s ops k) (stays : move (run step s ops) op k = some k') :
    Happened step move event s (ops ++ [op]) k' := by
  obtain ⟨before, first, after, i, rfl, happened, there⟩ := h
  refine ⟨before, first, after ++ [op], i, by simp, happened, ?_⟩
  rw [← List.cons_append, follow_concat, there, ← run_append]
  exact stays

theorem Happened.now {step : σ → ι → σ} {move : σ → ι → κ → Option κ}
    {event : List ι → ι → κ → Prop} {s : σ} {ops : List ι} {k k' : κ} {op : ι}
    (happens : event ops op k) (stays : move (run step s ops) op k = some k') :
    Happened step move event s (ops ++ [op]) k' := by
  refine ⟨ops, op, [], k, rfl, happens, ?_⟩
  rw [follow, stays]
  rfl

/-- A property that holds at every moment of a run, its two ends included. -/
def Throughout (step : σ → ι → σ) (P : σ → Prop) : σ → List ι → Prop
  | s, [] => P s
  | s, op :: ops => P s ∧ Throughout step P (step s op) ops

instance instDecidableThroughout (step : σ → ι → σ) (P : σ → Prop) [DecidablePred P] :
    (s : σ) → (ops : List ι) → Decidable (Throughout step P s ops)
  | s, [] => inferInstanceAs (Decidable (P s))
  | s, op :: ops =>
      have := instDecidableThroughout step P (step s op) ops
      inferInstanceAs (Decidable (P s ∧ Throughout step P (step s op) ops))

namespace Throughout

variable {step : σ → ι → σ} {P : σ → Prop} {s : σ} {op : ι} {ops : List ι}

theorem first (h : Throughout step P s ops) : P s := by
  cases ops with
  | nil => exact h
  | cons op ops => exact h.1

theorem second (h : Throughout step P s (op :: ops)) : P (step s op) := first h.2

theorem append {before after : List ι} : Throughout step P s (before ++ after) ↔
    Throughout step P s before ∧ Throughout step P (run step s before) after := by
  induction before generalizing s with
  | nil => exact ⟨fun h => ⟨h.first, h⟩, fun h => h.2⟩
  | cons op before ih => simp only [List.cons_append, Throughout, run_cons, ih, and_assoc]

theorem of_take (h : ∀ k ≤ ops.length, P (run step s (ops.take k))) : Throughout step P s ops := by
  induction ops generalizing s with
  | nil => exact h 0 (Nat.le_refl 0)
  | cons op ops ih =>
      refine ⟨h 0 (Nat.zero_le _), ih (fun k below => ?_)⟩
      exact h (k + 1) (Nat.succ_le_succ below)

end Throughout
end Runs
