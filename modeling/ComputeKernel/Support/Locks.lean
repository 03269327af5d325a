import Mathlib.Data.List.Basic

/-! Code that takes spin locks, works on data and turns interrupts off and on. The discipline
that keeps a processor from spinning for ever is checked on the code alone: a lock that
interrupt handlers take is held only while interrupts are off. -/
namespace Locks

universe u v
variable {ι : Type u} {σ : Type v}

/-- The interrupt flag, the flags stored, and the locks taken. -/
structure Context (ι : Type u) where
  on : Bool
  saved : List Bool
  held : List ι

/-- `save` stores the interrupt flag and clears it, `restore` brings the stored flag back,
`sti` and `cli` set and clear it. -/
inductive Instruction (ι : Type u) where
  | sti
  | cli
  | save
  | restore
  | lock (l : ι)
  | unlock (l : ι)

/-- The context after the instruction. There is none for a lock that is held, where the code
spins, nor for a `restore` or an `unlock` that nothing goes with. -/
def Instruction.effect [DecidableEq ι] : Instruction ι → Context ι → Option (Context ι)
  | sti, c => some { c with on := true }
  | cli, c => some { c with on := false }
  | save, c => some { c with on := false, saved := c.on :: c.saved }
  | restore, c =>
      match c.saved with
      | flag :: saved => some { c with on := flag, saved }
      | [] => none
  | lock l, c => if l ∈ c.held then none else some { c with held := l :: c.held }
  | unlock l, c => if l ∈ c.held then some { c with held := c.held.erase l } else none

/-- `halt` is code that waits for ever. `read` goes on as the data says, and `choose` is a
branch on anything else. -/
inductive Code (ι : Type u) (σ : Type v) where
  | done
  | halt
  | act (change : σ → σ) (next : Code ι σ)
  | read (next : σ → Code ι σ)
  | choose (left right : Code ι σ)
  | instruction (i : Instruction ι) (next : Code ι σ)

/-- No lock that handlers take is held while interrupts are on. -/
def Context.Covered (shared : ι → Prop) (c : Context ι) : Prop :=
  c.on = true → ∀ l ∈ c.held, ¬shared l

theorem Context.covered_of_off {shared : ι → Prop} {c : Context ι} (off : c.on = false) :
    c.Covered shared := by
  intro on
  rw [off] at on
  cases on

theorem Context.covered_of_free {shared : ι → Prop} {c : Context ι} (free : c.held = []) :
    c.Covered shared := by
  intro _ l member
  rw [free] at member
  cases member

/-- Interrupts off, and nothing stored or held. -/
def Context.entry : Context ι := { on := false, saved := [], held := [] }

/-- Interrupts are off, and stay off when a stored flag comes back. -/
def Context.Quiet (c : Context ι) : Prop := c.on = false ∧ ∀ flag ∈ c.saved, flag = false

theorem Context.entry_quiet : (Context.entry : Context ι).Quiet := ⟨rfl, nofun⟩

/-- The context of code that has found these flags and locks. -/
def Context.above (c : Context ι) (saved : List Bool) (held : List ι) : Context ι :=
  { on := c.on, saved := c.saved ++ saved, held := c.held ++ held }

/-- How code comes to its end. -/
inductive Ending (ι : Type u) where
  | returned (c : Context ι)
  | halted (c : Context ι)

section Effect

variable [DecidableEq ι] {i : Instruction ι} {c c' : Context ι}

theorem Instruction.effect_above {saved : List Bool} {held : List ι} (took : i.effect c = some c')
    (free : ∀ l, i = .lock l → l ∉ held) : i.effect (c.above saved held) = some (c'.above saved held) := by
  cases i with
  | sti | cli | save =>
      cases took
      rfl
  | restore =>
      obtain ⟨on, stored, locks⟩ := c
      cases stored with
      | nil => cases took
      | cons flag rest =>
          cases took
          rfl
  | lock l =>
      rw [effect] at took
      split at took
      · cases took
      · next absent =>
          cases took
          have unheld : l ∉ (c.above saved held).held := fun member =>
            (List.mem_append.mp member).elim absent (free l rfl)
          rw [effect, if_neg unheld]
          rfl
  | unlock l =>
      rw [effect] at took
      split at took
      · next mine =>
          cases took
          have inside : l ∈ (c.above saved held).held := List.mem_append_left _ mine
          rw [effect, if_pos inside]
          simp only [Context.above, List.erase_append_left held mine]
      · cases took

theorem Instruction.effect_quiet (took : i.effect c = some c') (quiet : c.Quiet) (kept : i ≠ .sti) :
    c'.Quiet := by
  obtain ⟨off, flags⟩ := quiet
  cases i with
  | sti => exact absurd rfl kept
  | cli =>
      cases took
      exact ⟨rfl, flags⟩
  | save =>
      cases took
      refine ⟨rfl, fun flag member => ?_⟩
      rcases List.mem_cons.mp member with rfl | earlier
      · exact off
      · exact flags flag earlier
  | restore =>
      obtain ⟨on, stored, locks⟩ := c
      cases stored with
      | nil => cases took
      | cons flag rest =>
          cases took
          exact ⟨flags flag List.mem_cons_self, fun other member => flags other (List.mem_cons_of_mem _ member)⟩
  | lock l =>
      rw [effect] at took
      split at took
      · cases took
      · cases took
        exact ⟨off, flags⟩
  | unlock l =>
      rw [effect] at took
      split at took
      · cases took
        exact ⟨off, flags⟩
      · cases took

theorem Instruction.lock_effect {l : ι} (free : l ∉ c.held) :
    (Instruction.lock l).effect c = some { c with held := l :: c.held } := if_neg free

theorem Instruction.unlock_effect {l : ι} (mine : l ∈ c.held) :
    (Instruction.unlock l).effect c = some { c with held := c.held.erase l } := if_pos mine

end Effect

namespace Code

/-- An instruction that changes nothing. -/
abbrev pass (next : Code ι σ) : Code ι σ := act id next

abbrev sti (next : Code ι σ) : Code ι σ := instruction .sti next

abbrev cli (next : Code ι σ) : Code ι σ := instruction .cli next

abbrev save (next : Code ι σ) : Code ι σ := instruction .save next

abbrev restore (next : Code ι σ) : Code ι σ := instruction .restore next

abbrev lock (l : ι) (next : Code ι σ) : Code ι σ := instruction (.lock l) next

abbrev unlock (l : ι) (next : Code ι σ) : Code ι σ := instruction (.unlock l) next

def andThen : Code ι σ → Code ι σ → Code ι σ
  | done, rest => rest
  | halt, _ => halt
  | act change next, rest => act change (next.andThen rest)
  | read next, rest => read (fun s => (next s).andThen rest)
  | choose left right, rest => choose (left.andThen rest) (right.andThen rest)
  | instruction i next, rest => instruction i (next.andThen rest)

theorem andThen_assoc (a b c : Code ι σ) : (a.andThen b).andThen c = a.andThen (b.andThen c) := by
  induction a with
  | done | halt => rfl
  | act change next ih | instruction i next ih => simp only [andThen, ih]
  | read next ih => simp only [andThen, ih]
  | choose left right ihLeft ihRight => simp only [andThen, ihLeft, ihRight]

theorem andThen_done (a : Code ι σ) : a.andThen done = a := by
  induction a with
  | done | halt => rfl
  | act change next ih | instruction i next ih => simp only [andThen, ih]
  | read next ih => simp only [andThen, ih]
  | choose left right ihLeft ihRight => simp only [andThen, ihLeft, ihRight]

def withoutInterrupts (body : Code ι σ) : Code ι σ := save (body.andThen (restore done))

def locked (l : ι) (body : Code ι σ) : Code ι σ := lock l (body.andThen (unlock l done))

def forEach {α : Type*} (items : List α) (body : α → Code ι σ) : Code ι σ :=
  items.foldr (fun item rest => (body item).andThen rest) done

def sequence (parts : List (Code ι σ)) : Code ι σ := forEach parts id

/-- The code of a handler: it leaves interrupts off and takes only these locks. -/
def Handles (taken : ι → Prop) : Code ι σ → Prop
  | done => True
  | halt => True
  | act _ next => next.Handles taken
  | read next => ∀ s, (next s).Handles taken
  | choose left right => left.Handles taken ∧ right.Handles taken
  | instruction i next => i ≠ .sti ∧ (∀ l, i = .lock l → taken l) ∧ next.Handles taken

section Handles

variable {taken : ι → Prop} {a b body : Code ι σ}

theorem Handles.andThen (first : a.Handles taken) (second : b.Handles taken) : (a.andThen b).Handles taken := by
  induction a with
  | done => exact second
  | halt => trivial
  | act change next ih => exact ih first
  | read next ih => exact fun s => ih s (first s)
  | choose left right ihLeft ihRight => exact ⟨ihLeft first.1, ihRight first.2⟩
  | instruction i next ih => exact ⟨first.1, first.2.1, ih first.2.2⟩

theorem Handles.withoutInterrupts (inside : body.Handles taken) : body.withoutInterrupts.Handles taken :=
  ⟨nofun, nofun, inside.andThen ⟨nofun, nofun, trivial⟩⟩

theorem Handles.locked {l : ι} (allowed : taken l) (inside : body.Handles taken) :
    (body.locked l).Handles taken := by
  refine ⟨nofun, ?_, inside.andThen ⟨nofun, nofun, trivial⟩⟩
  rintro _ ⟨⟩
  exact allowed

end Handles

/-- Every way through the code takes the lock. -/
def Needs (l : ι) : Code ι σ → Prop
  | done => False
  | halt => False
  | act _ next => next.Needs l
  | read next => ∀ s, (next s).Needs l
  | choose left right => left.Needs l ∧ right.Needs l
  | instruction i next => i = .lock l ∨ next.Needs l

/-- No way through the code has more instructions. -/
def Within : Nat → Code ι σ → Prop
  | _, done => True
  | _, halt => True
  | n + 1, act _ next => next.Within n
  | n + 1, read next => ∀ s, (next s).Within n
  | n + 1, choose left right => left.Within n ∧ right.Within n
  | n + 1, instruction _ next => next.Within n
  | 0, _ => False

/-- The code is through. -/
def ended : Code ι σ → Bool
  | done => true
  | halt => true
  | _ => false

theorem Needs.going {code : Code ι σ} {l : ι} (needs : code.Needs l) : code.ended = false := by
  cases code with
  | done | halt => exact needs.elim
  | act _ _ | read _ | choose _ _ | instruction _ _ => rfl

theorem Within.ended {code : Code ι σ} (short : code.Within 0) : code.ended = true := by
  cases code with
  | done | halt => rfl
  | act _ _ | read _ | choose _ _ | instruction _ _ => exact short.elim

variable [DecidableEq ι]

/-- One step of the code. There is none at its end, or where it spins. -/
def step : Code ι σ → Context ι → σ → Bool → Option (Code ι σ × Context ι × σ)
  | done, _, _, _ => none
  | halt, _, _, _ => none
  | act change next, c, s, _ => some (next, c, change s)
  | read next, c, s, _ => some (next s, c, s)
  | choose first second, c, s, left => some (if left then first else second, c, s)
  | instruction i next, c, s, _ => (i.effect c).map (fun c' => (next, c', s))

section Step

variable {code code' : Code ι σ} {c c' : Context ι} {s s' : σ} {left : Bool}

theorem step_instruction {i : Instruction ι} {next : Code ι σ} (took : i.effect c = some c') :
    (instruction i next).step c s left = some (next, c', s) := by
  rw [step, took, Option.map_some]

theorem effect_of_step {i : Instruction ι} {next : Code ι σ}
    (stepped : (instruction i next).step c s left = some (code', c', s')) :
    i.effect c = some c' ∧ code' = next ∧ s' = s := by
  obtain ⟨_, took, same⟩ := Option.map_eq_some_iff.mp stepped
  cases same
  exact ⟨took, rfl, rfl⟩

theorem step_andThen (stepped : code.step c s left = some (code', c', s')) (rest : Code ι σ) :
    (code.andThen rest).step c s left = some (code'.andThen rest, c', s') := by
  cases code with
  | done | halt => cases stepped
  | act change next | read next =>
      cases stepped
      rfl
  | choose first second =>
      cases stepped
      cases left <;> rfl
  | instruction i next =>
      obtain ⟨took, rfl, rfl⟩ := effect_of_step stepped
      exact step_instruction took

/-- Code takes the same step on top of other code, unless it comes to a lock held there. -/
theorem step_above {saved : List Bool} {held : List ι} (stepped : code.step c s left = some (code', c', s'))
    (free : ∀ l next, code = lock l next → l ∉ held) :
    code.step (c.above saved held) s left = some (code', c'.above saved held, s') := by
  cases code with
  | done | halt => cases stepped
  | act change next | read next | choose first second =>
      cases stepped
      rfl
  | instruction i next =>
      obtain ⟨took, rfl, rfl⟩ := effect_of_step stepped
      refine step_instruction (i.effect_above took (fun l same => free l code' ?_))
      rw [same]

theorem step_lock_of_held {l : ι} {next : Code ι σ} (held : l ∈ c.held) :
    (lock l next).step c s left = none := by
  rw [step, Instruction.effect, if_pos held]
  rfl

theorem Handles.step {taken : ι → Prop} (handles : code.Handles taken)
    (stepped : code.step c s left = some (code', c', s')) : code'.Handles taken := by
  cases code with
  | done | halt => cases stepped
  | act change next =>
      cases stepped
      exact handles
  | read next =>
      cases stepped
      exact handles s
  | choose first second =>
      cases stepped
      cases left with
      | true => exact handles.1
      | false => exact handles.2
  | instruction i next =>
      obtain ⟨_, rfl, rfl⟩ := effect_of_step stepped
      exact handles.2.2

theorem Handles.quiet {taken : ι → Prop} (handles : code.Handles taken) (quiet : c.Quiet)
    (stepped : code.step c s left = some (code', c', s')) : c'.Quiet := by
  cases code with
  | done | halt => cases stepped
  | act change next | read next | choose first second =>
      cases stepped
      exact quiet
  | instruction i next =>
      obtain ⟨took, _, _⟩ := effect_of_step stepped
      exact i.effect_quiet took quiet handles.1

/-- A lock that is needed is needed until it is taken. -/
theorem Needs.step {l : ι} (needs : code.Needs l) (stepped : code.step c s left = some (code', c', s'))
    (other : ∀ next, code ≠ lock l next) : code'.Needs l := by
  cases code with
  | done | halt => cases stepped
  | act change next =>
      cases stepped
      exact needs
  | read next =>
      cases stepped
      exact needs s
  | choose first second =>
      cases stepped
      cases left with
      | true => exact needs.1
      | false => exact needs.2
  | instruction i next =>
      obtain ⟨_, rfl, rfl⟩ := effect_of_step stepped
      rcases needs with same | later
      · exact absurd (congrArg (instruction · code') same) (other code')
      · exact later

theorem Within.step {n : Nat} (short : code.Within (n + 1))
    (stepped : code.step c s left = some (code', c', s')) : code'.Within n := by
  cases code with
  | done | halt => cases stepped
  | act change next =>
      cases stepped
      exact short
  | read next =>
      cases stepped
      exact short s
  | choose first second =>
      cases stepped
      cases left with
      | true => exact short.1
      | false => exact short.2
  | instruction i next =>
      obtain ⟨_, rfl, rfl⟩ := effect_of_step stepped
      exact short

end Step

/-- The code keeps to the discipline from a context on, whatever the data is and whatever
its branches do, and comes to an end that satisfies `post`. -/
def Guarded (shared : ι → Prop) (post : Ending ι → Prop) : Code ι σ → Context ι → Prop
  | done, c => c.Covered shared ∧ post (.returned c)
  | halt, c => c.Covered shared ∧ post (.halted c)
  | act _ next, c => c.Covered shared ∧ Guarded shared post next c
  | read next, c => c.Covered shared ∧ ∀ s, Guarded shared post (next s) c
  | choose left right, c => c.Covered shared ∧ Guarded shared post left c ∧ Guarded shared post right c
  | instruction i next, c => c.Covered shared ∧
      ∃ c', i.effect c = some c' ∧ Guarded shared post next c'

variable {shared : ι → Prop} {post between : Ending ι → Prop} {code a b : Code ι σ} {c : Context ι}

theorem Guarded.covered (h : Guarded shared post code c) : c.Covered shared := by
  cases code <;> exact h.1

/-- Guarded code takes a step, and what is left of it is guarded. -/
theorem Guarded.step (h : Guarded shared post code c) (going : code.ended = false) (s : σ) (left : Bool) :
    ∃ code' c' s', code.step c s left = some (code', c', s') ∧ Guarded shared post code' c' := by
  cases code with
  | done | halt => cases going
  | act change next => exact ⟨next, c, change s, rfl, h.2⟩
  | read next => exact ⟨next s, c, s, rfl, h.2 s⟩
  | choose first second =>
      cases left with
      | true => exact ⟨first, c, s, rfl, h.2.1⟩
      | false => exact ⟨second, c, s, rfl, h.2.2⟩
  | instruction i next =>
      obtain ⟨_, c', took, rest⟩ := h
      exact ⟨next, c', s, step_instruction took, rest⟩

theorem Guarded.mono (h : Guarded shared between code c) (weaken : ∀ ending, between ending → post ending) :
    Guarded shared post code c := by
  induction code generalizing c with
  | done => exact ⟨h.1, weaken _ h.2⟩
  | halt => exact ⟨h.1, weaken _ h.2⟩
  | act change next ih => exact ⟨h.1, ih h.2⟩
  | read next ih => exact ⟨h.1, fun s => ih s (h.2 s)⟩
  | choose left right ihLeft ihRight => exact ⟨h.1, ihLeft h.2.1, ihRight h.2.2⟩
  | instruction i next ih =>
      obtain ⟨covered, c', took, rest⟩ := h
      exact ⟨covered, c', took, ih rest⟩

theorem Guarded.andThen (first : Guarded shared between a c) (stops : ∀ c, between (.halted c) → post (.halted c))
    (second : ∀ c, between (.returned c) → Guarded shared post b c) : Guarded shared post (a.andThen b) c := by
  induction a generalizing c with
  | done => exact second c first.2
  | halt => exact ⟨first.1, stops c first.2⟩
  | act change next ih => exact ⟨first.1, ih first.2⟩
  | read next ih => exact ⟨first.1, fun s => ih s (first.2 s)⟩
  | choose left right ihLeft ihRight => exact ⟨first.1, ihLeft first.2.1, ihRight first.2.2⟩
  | instruction i next ih =>
      obtain ⟨covered, c', took, rest⟩ := first
      exact ⟨covered, c', took, ih rest⟩

/-- The code keeps to the discipline and leaves everything as it was. -/
def Neutral (shared : ι → Prop) (code : Code ι σ) (c : Context ι) : Prop :=
  Guarded shared (fun ending => ending = .returned c) code c

namespace Neutral

theorem done (covered : c.Covered shared) : Neutral shared (Code.done : Code ι σ) c := ⟨covered, rfl⟩

theorem act {change : σ → σ} (h : Neutral shared a c) : Neutral shared (Code.act change a) c :=
  ⟨h.covered, h⟩

theorem pass (h : Neutral shared a c) : Neutral shared (Code.pass a) c := act h

theorem choose (left : Neutral shared a c) (right : Neutral shared b c) :
    Neutral shared (Code.choose a b) c := ⟨left.covered, left, right⟩

theorem andThen (first : Neutral shared a c) (second : Guarded shared post b c) :
    Guarded shared post (a.andThen b) c :=
  Guarded.andThen first nofun (by rintro _ ⟨⟩; exact second)

theorem locked {l : ι} (covered : c.Covered shared) (free : l ∉ c.held)
    (body : Neutral shared code { c with held := l :: c.held }) : Neutral shared (code.locked l) c := by
  have mine : l ∈ ({ c with held := l :: c.held } : Context ι).held := List.mem_cons_self
  refine ⟨covered, _, Instruction.lock_effect free, body.andThen ⟨body.covered, c, ?_, covered, rfl⟩⟩
  rw [Instruction.unlock_effect mine, List.erase_cons_head]

theorem withoutInterrupts (covered : c.Covered shared)
    (body : Neutral shared code { c with on := false, saved := c.on :: c.saved }) :
    Neutral shared code.withoutInterrupts c :=
  ⟨covered, _, rfl, body.andThen ⟨body.covered, c, rfl, covered, rfl⟩⟩

theorem forEach {α : Type*} {items : List α} {body : α → Code ι σ} (covered : c.Covered shared)
    (each : ∀ item ∈ items, Neutral shared (body item) c) :
    Neutral shared (Code.forEach items body) c := by
  induction items with
  | nil => exact done covered
  | cons item items ih =>
      have rest := ih (fun other member => each other (List.mem_cons_of_mem item member))
      exact (each item List.mem_cons_self).andThen rest

theorem nil (covered : c.Covered shared) : Neutral shared (Code.sequence ([] : List (Code ι σ))) c :=
  done covered

theorem cons {parts : List (Code ι σ)} (first : Neutral shared a c)
    (rest : Neutral shared (Code.sequence parts) c) : Neutral shared (Code.sequence (a :: parts)) c :=
  first.andThen rest

end Neutral

/-- The code comes to this lock before it takes any other. -/
inductive Attempts (l : ι) : Code ι σ → Prop where
  | lock (next : Code ι σ) : Attempts l (.lock l next)
  | act {change : σ → σ} {next : Code ι σ} (later : Attempts l next) : Attempts l (.act change next)
  | read {next : σ → Code ι σ} (later : ∀ s, Attempts l (next s)) : Attempts l (.read next)
  | save {next : Code ι σ} (later : Attempts l next) : Attempts l (.save next)

end Code

end Locks
