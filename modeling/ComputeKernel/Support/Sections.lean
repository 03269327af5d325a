import Mathlib.Logic.Function.Basic
import ComputeKernel.Support.Runs

/-! Callers that share one lock. Each call takes the lock, makes a few accesses to what the
lock protects and releases it; the other callers run between any two of its accesses. A run
of such callers is a run in which every call is a single step, taken where the call got the
lock. -/
namespace Sections

universe u v
variable {σ α : Type u} {ο ι : Type v} {ρ : ο → Type u}

/-- The accesses made under the lock. Each is an effect on the shared state, and what comes
next may depend on the state that it found. -/
inductive Section (σ β : Type u) where
  | leave (result : β)
  | access (effect : σ → σ) (next : σ → Section σ β)

/-- What the accesses come to when nothing runs between them. -/
def Section.run {β : Type u} : Section σ β → σ → β × σ
  | leave result, s => (result, s)
  | access effect next, s => (next s).run (effect s)

/-- What a caller does: it stops, or it makes a request and goes on with the result. -/
inductive Caller (ρ : ο → Type u) where
  | stop
  | call (request : ο) (next : ρ request → Caller ρ)

/-- A caller outside of the lock, or with the rest of a section before it. -/
inductive Thread (σ : Type u) (ρ : ο → Type u) where
  | outside (caller : Caller ρ)
  | inside (request : ο) (rest : Section σ (ρ request)) (next : ρ request → Caller ρ)

structure Machine (σ : Type u) (ρ : ο → Type u) (ι : Type v) where
  shared : σ
  holder : Option ι
  threads : ι → Thread σ ρ

/-- The same callers, each call in one step. -/
structure Atomic (α : Type u) (ρ : ο → Type u) (ι : Type v) where
  shared : α
  callers : ι → Caller ρ

variable [DecidableEq ι]

/-- One step of a caller. It waits while another holds the lock. -/
def Machine.step (body : (request : ο) → Section σ (ρ request)) (m : Machine σ ρ ι) (i : ι) :
    Machine σ ρ ι :=
  match m.threads i with
  | .outside .stop => m
  | .outside (.call request next) =>
      match m.holder with
      | none =>
          { m with
            holder := some i
            threads := Function.update m.threads i (.inside request (body request) next) }
      | some _ => m
  | .inside request (.access effect rest) next =>
      { m with
        shared := effect m.shared
        threads := Function.update m.threads i (.inside request (rest m.shared) next) }
  | .inside _ (.leave result) next =>
      { m with
        holder := none
        threads := Function.update m.threads i (.outside (next result)) }

def Atomic.step (serve : (request : ο) → α → ρ request × α) (a : Atomic α ρ ι) (i : ι) :
    Atomic α ρ ι :=
  match a.callers i with
  | .stop => a
  | .call request next =>
      { shared := (serve request a.shared).2
        callers := Function.update a.callers i (next (serve request a.shared).1) }

/-- Undisturbed, the accesses of a request do what the request is to do, as seen through
`view`. -/
def Serves (view : σ → α) (body : (request : ο) → Section σ (ρ request))
    (serve : (request : ο) → α → ρ request × α) : Prop :=
  ∀ request s, ((body request).run s).1 = (serve request (view s)).1 ∧
    view ((body request).run s).2 = (serve request (view s)).2

/-- While a caller is inside, its call has already been made on the other side. -/
structure Refines (view : σ → α) (m : Machine σ ρ ι) (a : Atomic α ρ ι) : Prop where
  free : m.holder = none → a.shared = view m.shared
  others : ∀ i, m.holder ≠ some i → m.threads i = .outside (a.callers i)
  held : ∀ i, m.holder = some i → ∃ request rest next, m.threads i = .inside request rest next ∧
    a.shared = view (rest.run m.shared).2 ∧ a.callers i = next (rest.run m.shared).1

variable {view : σ → α} {body : (request : ο) → Section σ (ρ request)}
  {serve : (request : ο) → α → ρ request × α} {m : Machine σ ρ ι} {a : Atomic α ρ ι}

/-- A caller that gets the lock makes its call. -/
theorem Refines.acquire (refines : Refines view m a) (serves : Serves view body serve)
    (free : m.holder = none) {i : ι} {request : ο} {next : ρ request → Caller ρ}
    (calls : a.callers i = .call request next) :
    Refines view
      { m with
        holder := some i
        threads := Function.update m.threads i (.inside request (body request) next) }
      (a.step serve i) := by
  obtain ⟨result, state⟩ := serves request m.shared
  have made : a.step serve i =
      { shared := (serve request a.shared).2
        callers := Function.update a.callers i (next (serve request a.shared).1) } := by
    rw [Atomic.step, calls]
  rw [made, refines.free free]
  refine ⟨nofun, ?_, ?_⟩
  · intro j other
    have apart : j ≠ i := fun same => other (congrArg some same.symm)
    simp only [Function.update_of_ne apart]
    exact refines.others j (by rw [free]; exact nofun)
  · rintro j ⟨⟩
    refine ⟨request, body request, next, Function.update_self .., state.symm, ?_⟩
    rw [result]
    exact Function.update_self ..

/-- An access leaves what the section comes to as it was. -/
theorem Refines.access (refines : Refines view m a) {i : ι} (holds : m.holder = some i) {request : ο}
    {effect : σ → σ} {rest : σ → Section σ (ρ request)} {next : ρ request → Caller ρ}
    (inside : m.threads i = .inside request (.access effect rest) next) :
    Refines view
      { m with
        shared := effect m.shared
        threads := Function.update m.threads i (.inside request (rest m.shared) next) } a := by
  refine ⟨?_, ?_, ?_⟩
  · intro free
    rw [holds] at free
    cases free
  · intro j other
    have apart : j ≠ i := fun same => other (same ▸ holds)
    simp only [Function.update_of_ne apart]
    exact refines.others j other
  · intro j held
    obtain rfl : i = j := Option.some.inj (holds.symm.trans held)
    obtain ⟨_, _, _, same, state, result⟩ := refines.held i holds
    obtain ⟨rfl, rest_eq, next_eq⟩ := Thread.inside.inj (inside.symm.trans same)
    obtain rfl := eq_of_heq rest_eq
    obtain rfl := eq_of_heq next_eq
    exact ⟨request, rest m.shared, next, Function.update_self .., state, result⟩

/-- A caller that leaves has the result of the call that was made for it. -/
theorem Refines.leave (refines : Refines view m a) {i : ι} (holds : m.holder = some i) {request : ο}
    {result : ρ request} {next : ρ request → Caller ρ}
    (inside : m.threads i = .inside request (.leave result) next) :
    Refines view
      { m with
        holder := none
        threads := Function.update m.threads i (.outside (next result)) } a := by
  obtain ⟨_, _, _, same, state, back⟩ := refines.held i holds
  obtain ⟨rfl, rest_eq, next_eq⟩ := Thread.inside.inj (inside.symm.trans same)
  obtain rfl := eq_of_heq rest_eq
  obtain rfl := eq_of_heq next_eq
  refine ⟨fun _ => state, ?_, nofun⟩
  intro j _
  by_cases apart : j = i
  · subst apart
    simp only [Function.update_self]
    rw [back]
    rfl
  · simp only [Function.update_of_ne apart]
    refine refines.others j (fun held => apart ?_)
    exact Option.some.inj (held.symm.trans holds)

/-- A step is the whole of a call, or nothing. -/
theorem Refines.step (refines : Refines view m a) (serves : Serves view body serve) (i : ι) :
    Refines view (m.step body i) a ∨ Refines view (m.step body i) (a.step serve i) := by
  by_cases holds : m.holder = some i
  · left
    obtain ⟨request, rest, next, inside, _⟩ := refines.held i holds
    rw [Machine.step, inside]
    cases rest with
    | leave result => exact refines.leave holds inside
    | access effect rest => exact refines.access holds inside
  · have outside := refines.others i holds
    rw [Machine.step, outside]
    cases calls : a.callers i with
    | stop => exact Or.inl refines
    | call request next =>
        cases free : m.holder with
        | none => exact Or.inr (refines.acquire serves free calls)
        | some _ => exact Or.inl refines

/-- Every run is a run of the single calls, in the order in which the lock was taken. -/
theorem Refines.run (refines : Refines view m a) (serves : Serves view body serve)
    (schedule : List ι) : ∃ serial, serial.Sublist schedule ∧
      Refines view (Runs.run (Machine.step body) m schedule)
        (Runs.run (Atomic.step serve) a serial) := by
  induction schedule generalizing m a with
  | nil => exact ⟨[], List.Sublist.slnil, refines⟩
  | cons i schedule ih =>
      rcases refines.step serves i with same | made
      · obtain ⟨serial, part, reached⟩ := ih same
        exact ⟨serial, part.cons i, reached⟩
      · obtain ⟨serial, part, reached⟩ := ih made
        exact ⟨i :: serial, part.cons_cons i, reached⟩

end Sections
