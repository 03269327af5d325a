import ComputeKernel.Support.Locks
import ComputeKernel.Support.Runs

/-! One CPU that runs code with locks, and interrupt handlers that take some of the locks. A
handler runs on top of the code it interrupts, with interrupts off until it returns, so that
a lock which this code holds is not released before the handler returns. -/
namespace Locks

universe u v w
variable {ι : Type u} {σ : Type v} {κ : Type w}

variable [DecidableEq ι]

/-- `frames` is the running code on top of the code it interrupts. -/
structure Machine (ι : Type u) (σ : Type v) extends Context ι where
  data : σ
  frames : List (Code ι σ)

/-- An interrupt request, or an instruction with the way it takes at a branch. -/
inductive Event (κ : Type w) where
  | irq (k : κ)
  | go (left : Bool)

def Event.goes : Event κ → Bool
  | irq _ => false
  | go _ => true

namespace Machine

/-- One instruction of the running code. At its end a handler returns to what is below it. -/
def exec (m : Machine ι σ) (left : Bool) : Machine ι σ :=
  match m.frames with
  | [] => m
  | code :: below =>
      match code.step m.toContext m.data left with
      | some (code', c, s) => { toContext := c, data := s, frames := code' :: below }
      | none =>
          match code, below, m.saved with
          | .done, _ :: _, flag :: saved => { m with on := flag, saved, frames := below }
          | _, _, _ => m

def interrupt (handler : Code ι σ) (m : Machine ι σ) : Machine ι σ :=
  { m with on := false, saved := m.on :: m.saved, frames := handler :: m.frames }

/-- A request waits while interrupts are off. -/
def step (handlers : κ → Code ι σ) (m : Machine ι σ) : Event κ → Machine ι σ
  | .irq k => if m.on then m.interrupt (handlers k) else m
  | .go left => m.exec left

/-- The running code spins on a lock that it, or the code below it, holds. -/
def blocked (m : Machine ι σ) : Bool :=
  match m.frames with
  | .instruction (.lock l) _ :: _ => l ∈ m.held
  | _ => false

/-- The machine at the start of some code. -/
def start (s : σ) (on : Bool) (code : Code ι σ) : Machine ι σ :=
  { on, saved := [], held := [], data := s, frames := [code] }

section Exec

variable {m : Machine ι σ} {code code' : Code ι σ} {below : List (Code ι σ)} {c : Context ι} {s : σ}
  {left : Bool}

theorem exec_of_step (frames : m.frames = code :: below)
    (stepped : code.step m.toContext m.data left = some (code', c, s)) :
    m.exec left = { toContext := c, data := s, frames := code' :: below } := by
  rw [exec, frames]
  simp only [stepped]

theorem exec_of_held {l : ι} {next : Code ι σ} (frames : m.frames = .lock l next :: below)
    (held : l ∈ m.held) : m.exec left = m := by
  have spins : (Code.lock l next).step m.toContext m.data left = none := Code.step_lock_of_held held
  rw [exec, frames]
  simp only [spins]

theorem exec_of_halt (frames : m.frames = .halt :: below) : m.exec left = m := by
  rw [exec, frames]
  rfl

theorem exec_of_done (frames : m.frames = [.done]) : m.exec left = m := by
  rw [exec, frames]
  rfl

theorem exec_return {flag : Bool} {saved : List Bool} (frames : m.frames = .done :: code :: below)
    (top : m.saved = flag :: saved) :
    m.exec left = { m with on := flag, saved, frames := code :: below } := by
  rw [exec, frames]
  simp only [Code.step, top]

end Exec

/-- Code that runs with interrupts off on top of other code, whose flags and locks it found;
`own` is the context without what it found, and `rest` follows the code. -/
structure Atop (shared taken : ι → Prop) (post : Ending ι → Prop) (saved : List Bool) (held : List ι)
    (rest : Code ι σ) (below : List (Code ι σ)) (code : Code ι σ) (own : Context ι) (m : Machine ι σ) :
    Prop where
  frames : m.frames = code.andThen rest :: below
  context : m.toContext = own.above saved held
  quiet : own.Quiet
  guarded : code.Guarded shared post own
  handles : code.Handles taken

section Atop

variable {shared taken : ι → Prop} {post : Ending ι → Prop} {saved : List Bool} {held : List ι}
  {rest : Code ι σ} {below : List (Code ι σ)} {code : Code ι σ} {own : Context ι} {m : Machine ι σ}

/-- An interrupt or an exception brings its code on top of what is there. -/
theorem Atop.entered (m : Machine ι σ) (guarded : code.Guarded shared post Context.entry)
    (handles : code.Handles taken) :
    Atop shared taken post (m.on :: m.saved) m.held .done m.frames code Context.entry (m.interrupt code) where
  frames := by
    rw [code.andThen_done]
    rfl
  context := rfl
  quiet := Context.entry_quiet
  guarded := guarded
  handles := handles

theorem Atop.off (atop : Atop shared taken post saved held rest below code own m) : m.on = false := by
  have same := congrArg Context.on atop.context
  exact same.trans atop.quiet.1

/-- Code that has nothing of its own stored or held is as an interruption brings it. -/
theorem Atop.eq_interrupt {m' : Machine ι σ}
    (atop : Atop shared taken post (m.on :: m.saved) m.held .done m.frames code Context.entry m')
    (data : m'.data = m.data) : m' = m.interrupt code := by
  obtain ⟨context, data', frames'⟩ := m'
  obtain ⟨rfl, rfl, _⟩ := atop
  rw [code.andThen_done]
  subst data
  rfl

/-- Code that is through has left what follows it where it started. -/
theorem Atop.eq_of_done {s : σ} (atop : Atop shared taken post [] [] rest [] .done Context.entry m)
    (data : m.data = s) : m = start s false rest := by
  obtain ⟨context, data', frames'⟩ := m
  obtain ⟨rfl, rfl, _⟩ := atop
  subst data
  rfl

/-- It is not interrupted. -/
theorem Atop.irq (handlers : κ → Code ι σ) (atop : Atop shared taken post saved held rest below code own m)
    (k : κ) : step handlers m (.irq k) = m :=
  if_neg (by rw [atop.off]; nofun)

/-- One instruction of the code: it spins, or takes the step that it takes by itself. -/
theorem Atop.exec (atop : Atop shared taken post saved held rest below code own m)
    (going : code.ended = false) (left : Bool) :
    (∃ l next, code = .lock l next ∧ taken l ∧ l ∈ held ∧ m.exec left = m) ∨
      ∃ code' own', code.step own m.data left = some (code', own', (m.exec left).data) ∧
        Atop shared taken post saved held rest below code' own' (m.exec left) ∧
        ∀ l next, code = .lock l next → l ∉ held := by
  by_cases spins : ∃ l next, code = .lock l next ∧ l ∈ held
  · obtain ⟨l, next, rfl, inside⟩ := spins
    have found : l ∈ m.held := by
      rw [atop.context]
      exact List.mem_append_right _ inside
    exact .inl ⟨l, next, rfl, atop.handles.2.1 l rfl, inside, exec_of_held atop.frames found⟩
  · have free (l : ι) (next : Code ι σ) (same : code = .lock l next) : l ∉ held :=
      fun inside => spins ⟨l, next, same, inside⟩
    obtain ⟨code', own', s, stepped, guarded⟩ := atop.guarded.step going m.data left
    have stepsOn : (code.andThen rest).step (own.above saved held) m.data left =
        some (code'.andThen rest, own'.above saved held, s) :=
      Code.step_andThen (Code.step_above stepped free) rest
    rw [← atop.context] at stepsOn
    have taken := exec_of_step atop.frames stepsOn
    have data : (m.exec left).data = s := by rw [taken]
    refine .inr ⟨code', own', by rw [data, stepped], ?_, free⟩
    rw [taken]
    exact ⟨rfl, rfl, atop.handles.quiet atop.quiet stepped, guarded, atop.handles.step stepped⟩

/-- Code that finds the locks free that it takes comes to its end, whatever interrupts are
requested in the meantime. -/
theorem Atop.runs_out (handlers : κ → Code ι σ)
    (atop : Atop shared taken post saved held rest below code own m) (free : ∀ l, taken l → l ∉ held)
    {n : Nat} (short : code.Within n) (events : List (Event κ)) (enough : n ≤ events.countP Event.goes) :
    ∃ part later code' own', events = part ++ later ∧ part.countP Event.goes ≤ n ∧ code'.ended = true ∧
      Atop shared taken post saved held rest below code' own' (Runs.run (step handlers) m part) := by
  induction events generalizing code own m n with
  | nil =>
      have none_ : n = 0 := Nat.le_zero.mp enough
      subst none_
      exact ⟨[], [], code, own, rfl, Nat.le_refl 0, short.ended, atop⟩
  | cons event events ih =>
      cases finished : code.ended with
      | true => exact ⟨[], event :: events, code, own, rfl, Nat.zero_le n, finished, atop⟩
      | false =>
          cases event with
          | irq k =>
              rw [List.countP_cons_of_neg Bool.false_ne_true] at enough
              obtain ⟨part, later, code', own', rfl, few, through, reached⟩ := ih atop short enough
              refine ⟨.irq k :: part, later, code', own', rfl, ?_, through, ?_⟩
              · rw [List.countP_cons_of_neg Bool.false_ne_true]
                exact few
              · rw [Runs.run_cons, atop.irq]
                exact reached
          | go left =>
              rw [List.countP_cons_of_pos rfl] at enough
              rcases atop.exec finished left with ⟨l, _, _, takes, spins, _⟩ | ⟨code', own', stepped, next, _⟩
              · exact absurd spins (free l takes)
              · cases n with
                | zero =>
                    rw [short.ended] at finished
                    cases finished
                | succ n =>
                    obtain ⟨part, later, last, own'', rfl, few, through, reached⟩ :=
                      ih next (short.step stepped) (Nat.le_of_succ_le_succ enough)
                    refine ⟨.go left :: part, later, last, own'', rfl, ?_, through, reached⟩
                    rw [List.countP_cons_of_pos rfl]
                    exact Nat.succ_le_succ few

/-- The end of the code is followed by what it interrupted. -/
theorem returns_below (handlers : κ → Code ι σ) (m : Machine ι σ) (below : m.frames ≠ [])
    (events : List (Event κ)) (enough : 0 < events.countP Event.goes) :
    ∃ part, part <+: events ∧ Runs.run (step handlers) (m.interrupt .done) part = m := by
  induction events with
  | nil => exact absurd enough (Nat.lt_irrefl _)
  | cons event events ih =>
      cases event with
      | irq k =>
          rw [List.countP_cons_of_neg Bool.false_ne_true] at enough
          obtain ⟨part, reached, returned⟩ := ih enough
          exact ⟨.irq k :: part, List.cons_prefix_cons.mpr ⟨rfl, reached⟩, returned⟩
      | go left =>
          refine ⟨[.go left], List.cons_prefix_cons.mpr ⟨rfl, List.nil_prefix⟩, ?_⟩
          obtain ⟨context, data, frames⟩ := m
          cases frames with
          | nil => exact absurd rfl below
          | cons code rest => rfl

/-- The code below a handler finds its context again when the handler is through. -/
theorem Atop.returns {next : Code ι σ} {under : Context ι}
    (atop : Atop shared taken (fun ending => ending = .returned Context.entry) (true :: under.saved)
      under.held .done (next :: below) .done own m)
    (wasOn : under.on = true) {left : Bool} :
    m.exec left = { toContext := under, data := m.data, frames := next :: below } := by
  obtain ⟨_, ⟨⟩⟩ := atop.guarded
  have top : m.saved = true :: under.saved := congrArg Context.saved atop.context
  have locks : m.held = under.held := by
    rw [atop.context]
    rfl
  rw [exec_return atop.frames top, locks, ← wasOn]

/-- Code that needs a lock which it found held does not come to its end. -/
theorem Atop.stuck (handlers : κ → Code ι σ)
    (atop : Atop shared taken post saved held rest below code own m) {l : ι} (inside : l ∈ held)
    (needs : code.Needs l) (events : List (Event κ)) :
    ∃ code' own', code'.Needs l ∧
      Atop shared taken post saved held rest below code' own' (Runs.run (step handlers) m events) := by
  induction events generalizing code own m with
  | nil => exact ⟨code, own, needs, atop⟩
  | cons event events ih =>
      rw [Runs.run_cons]
      cases event with
      | irq k =>
          rw [atop.irq]
          exact ih atop needs
      | go left =>
          rcases atop.exec needs.going left with ⟨_, _, _, _, _, spins⟩ | ⟨code', own', stepped, next, free⟩
          · have same : step handlers m (.go left) = m := spins
            rw [same]
            exact ih atop needs
          · exact ih next (needs.step stepped (fun other same => free l other same inside))

end Atop

/-- Either the foreground runs, with `rest` to follow, or one handler runs on top of it,
where interrupts were on. -/
inductive Running (shared taken : ι → Prop) (post : Ending ι → Prop) (rest : Code ι σ) (m : Machine ι σ) :
    Prop where
  | foreground (code : Code ι σ) (frames : m.frames = [code.andThen rest])
      (guarded : code.Guarded shared post m.toContext)
  | handling (code below : Code ι σ) (own under : Context ι)
      (atop : Atop shared taken (fun ending => ending = .returned Context.entry) (true :: under.saved)
        under.held .done [below.andThen rest] code own m)
      (wasOn : under.on = true) (guardedBelow : below.Guarded shared post under)

variable {shared taken : ι → Prop} {post : Ending ι → Prop} {rest : Code ι σ} {m : Machine ι σ}

theorem Running.start {s : σ} {on : Bool} {code : Code ι σ} (guarded : code.Guarded shared post ⟨on, [], []⟩) :
    Running shared taken post .done (start s on code) :=
  .foreground code (by rw [code.andThen_done]; rfl) guarded

/-- While interrupts are on, no lock is held that they are to be off for. -/
theorem Running.covered (running : Running shared taken post rest m) : m.Covered shared := by
  cases running with
  | foreground code frames guarded => exact guarded.covered
  | handling code below own under atop wasOn guardedBelow => exact Context.covered_of_off atop.off

/-- A handler is never interrupted. -/
theorem Running.depth (running : Running shared taken post rest m) :
    0 < m.frames.length ∧ (m.on = true → m.frames.length = 1) := by
  cases running with
  | foreground code frames guarded => simp [frames]
  | handling code below own under atop wasOn guardedBelow => simp [atop.frames, atop.off]

/-- The foreground is through, and `rest` follows. -/
def Arrived (post : Ending ι → Prop) (rest : Code ι σ) (m : Machine ι σ) : Prop :=
  m.frames = [rest] ∧ post (.returned m.toContext)

/-- A handler finds every lock free that it takes: its own are not taken twice, and the
code below it holds no lock of a handler. -/
theorem Running.blocked_eq (running : Running shared taken post rest m) (within : ∀ l, taken l → shared l) :
    Arrived post rest m ∨ m.blocked = false := by
  cases running with
  | foreground code frames guarded =>
      cases code with
      | done => exact .inl ⟨frames, guarded.2⟩
      | instruction i next =>
          refine .inr ?_
          obtain ⟨_, c, took, _⟩ := guarded
          unfold blocked
          rw [frames]
          cases i with
          | lock l =>
              refine decide_eq_false (fun held => ?_)
              have held : l ∈ m.toContext.held := held
              rw [Instruction.effect, if_pos held] at took
              cases took
          | sti | cli | save | restore | unlock l => rfl
      | halt | act _ _ | read _ | choose _ _ =>
          refine .inr ?_
          unfold blocked
          rw [frames]
          rfl
  | handling code below own under atop wasOn guardedBelow =>
      refine .inr ?_
      unfold blocked
      rw [atop.frames, code.andThen_done]
      cases code with
      | instruction i next =>
          obtain ⟨_, c, took, _⟩ := atop.guarded
          cases i with
          | lock l =>
              refine decide_eq_false ?_
              rw [atop.context]
              intro member
              rcases List.mem_append.mp member with mine | theirs
              · rw [Instruction.effect, if_pos mine] at took
                cases took
              · exact guardedBelow.covered wasOn l theirs (within l (atop.handles.2.1 l rfl))
          | sti | cli | save | restore | unlock l => rfl
      | done | halt | act _ _ | read _ | choose _ _ => rfl

theorem exec_foreground {code : Code ι σ} (frames : m.frames = [code.andThen rest])
    (guarded : code.Guarded shared post m.toContext) (left : Bool) :
    Arrived post rest m ∨ Running shared taken post rest (m.exec left) := by
  cases finished : code.ended with
  | true =>
      cases code with
      | done => exact .inl ⟨frames, guarded.2⟩
      | halt =>
          rw [exec_of_halt frames]
          exact .inr (.foreground .halt frames guarded)
      | act _ _ | read _ | choose _ _ | instruction _ _ => cases finished
  | false =>
      obtain ⟨code', c, s, stepped, next⟩ := guarded.step finished m.data left
      rw [exec_of_step frames (Code.step_andThen stepped rest)]
      exact .inr (.foreground code' rfl next)

theorem exec_handling {code below : Code ι σ} {own under : Context ι}
    (atop : Atop shared taken (fun ending => ending = .returned Context.entry) (true :: under.saved)
      under.held .done [below.andThen rest] code own m)
    (wasOn : under.on = true) (guardedBelow : below.Guarded shared post under) (left : Bool) :
    Running shared taken post rest (m.exec left) := by
  cases finished : code.ended with
  | true =>
      cases code with
      | done =>
          rw [atop.returns wasOn]
          exact .foreground below rfl guardedBelow
      | halt => exact absurd atop.guarded.2 nofun
      | act _ _ | read _ | choose _ _ | instruction _ _ => cases finished
  | false =>
      rcases atop.exec finished left with ⟨_, _, _, _, _, spins⟩ | ⟨code', own', _, next, _⟩
      · rw [spins]
        exact .handling code below own under atop wasOn guardedBelow
      · exact .handling code' below own' under next wasOn guardedBelow

variable {handlers : κ → Code ι σ}

section Reachable

variable (entered : ∀ k, (handlers k).Neutral shared Context.entry) (handles : ∀ k, (handlers k).Handles taken)
include entered handles

theorem irq_running (running : Running shared taken post rest m) (k : κ) :
    Running shared taken post rest (m.step handlers (.irq k)) := by
  unfold step
  dsimp only
  split
  · next on =>
      cases running with
      | foreground code frames guarded =>
          have atop := Atop.entered m (entered k) (handles k)
          rw [frames, on] at atop
          exact .handling (handlers k) code Context.entry m.toContext atop on guarded
      | handling code below own under atop wasOn guardedBelow =>
          rw [atop.off] at on
          cases on
  · exact running

theorem step_running (running : Running shared taken post rest m) (event : Event κ) :
    Arrived post rest m ∨ Running shared taken post rest (m.step handlers event) := by
  cases event with
  | irq k => exact .inr (irq_running entered handles running k)
  | go left =>
      cases running with
      | foreground code frames guarded => exact exec_foreground frames guarded left
      | handling code below own under atop wasOn guardedBelow =>
          exact .inr (exec_handling atop wasOn guardedBelow left)

/-- A run has not left the foreground code, or it has come through it to what follows. -/
theorem passes (running : Running shared taken post rest m) (events : List (Event κ)) :
    Running shared taken post rest (Runs.run (step handlers) m events) ∨
      ∃ part later, events = part ++ later ∧ Arrived post rest (Runs.run (step handlers) m part) := by
  induction events generalizing m with
  | nil => exact .inl running
  | cons event events ih =>
      rcases step_running entered handles running event with arrived | next
      · exact .inr ⟨[], event :: events, rfl, arrived⟩
      · rcases ih next with still | ⟨part, later, rfl, arrived⟩
        · exact .inl still
        · exact .inr ⟨event :: part, later, rfl, arrived⟩

theorem run_running (running : Running shared taken post .done m) (events : List (Event κ)) :
    Running shared taken post .done (Runs.run (step handlers) m events) := by
  apply Runs.run_invariant (fun m event running => ?_)
  · exact running
  · cases event with
    | irq k => exact irq_running entered handles running k
    | go left =>
        rcases step_running entered handles running (.go left) with ⟨frames, _⟩ | next
        · have idle : step handlers m (.go left) = m := exec_of_done frames
          rw [idle]
          exact running
        · exact next

/-- Guarded code is never blocked, and neither is a handler that interrupts it. -/
theorem never_blocked (within : ∀ l, taken l → shared l) (running : Running shared taken post .done m)
    (events : List (Event κ)) : (Runs.run (step handlers) m events).blocked = false := by
  rcases (run_running entered handles running events).blocked_eq within with ⟨frames, _⟩ | free
  · unfold blocked
    rw [frames]
  · exact free

end Reachable

/-- Some run leads to a machine of this kind. -/
def Reaches (handlers : κ → Code ι σ) (Q : Machine ι σ → Prop) (m : Machine ι σ) : Prop :=
  ∃ events, Q (Runs.run (step handlers) m events)

theorem Reaches.of_exec {Q : Machine ι σ → Prop} {m' : Machine ι σ} (left : Bool)
    (taken : m.exec left = m') (later : Reaches handlers Q m') : Reaches handlers Q m := by
  obtain ⟨events, reached⟩ := later
  subst taken
  exact ⟨.go left :: events, reached⟩

/-- Guarded code that is not interrupted comes to its end. -/
theorem completes (handlers : κ → Code ι σ) {code : Code ι σ}
    (guarded : code.Guarded shared post m.toContext) (returns : ∀ c, ¬post (.halted c))
    (frames : m.frames = [code.andThen rest]) : Reaches handlers (Arrived post rest) m := by
  -- in each case the machine takes the instruction, and the rest completes from there
  induction code generalizing m with
  | done => exact ⟨[], frames, guarded.2⟩
  | halt => exact absurd guarded.2 (returns _)
  | act change next ih => exact .of_exec true (exec_of_step frames rfl) (ih guarded.2 rfl)
  | read next ih => exact .of_exec true (exec_of_step frames rfl) (ih m.data (guarded.2 m.data) rfl)
  | choose first second ihFirst _ =>
      exact .of_exec true (exec_of_step frames rfl) (ihFirst guarded.2.1 rfl)
  | instruction i next ih =>
      obtain ⟨_, c, took, guarded⟩ := guarded
      exact .of_exec true (exec_of_step frames (Code.step_instruction took)) (ih guarded rfl)

variable {l : ι}

/-- Code that comes to a lock which is held is blocked there. -/
theorem attempts_blocked (handlers : κ → Code ι σ) {code : Code ι σ} (attempts : code.Attempts l)
    {below : List (Code ι σ)} (frames : m.frames = code :: below) (held : l ∈ m.held) :
    Reaches handlers (fun m' => m'.blocked = true) m := by
  induction attempts generalizing m with
  | lock next =>
      refine ⟨[], ?_⟩
      simp only [Runs.run_nil, blocked, frames]
      exact decide_eq_true held
  | act later ih => exact .of_exec true (exec_of_step frames rfl) (ih rfl held)
  | read later ih => exact .of_exec true (exec_of_step frames rfl) (ih m.data rfl held)
  | save later ih => exact .of_exec true (exec_of_step frames rfl) (ih rfl held)

/-- A lock that is taken with interrupts on lets a handler in that takes it too. -/
theorem exposed_blocked (handlers : κ → Code ι σ) (k : κ) (attempts : (handlers k).Attempts l) {before next : Code ι σ}
    (frames : m.frames = [before.andThen (.lock l next)]) (guarded : before.Guarded shared post m.toContext)
    (exposed : ∀ ending, post ending → ∃ c, ending = .returned c ∧ c.on = true ∧ l ∉ c.held) :
    Reaches handlers (fun m => m.blocked = true) m := by
  have returns (c : Context ι) (stops : post (.halted c)) : False := by
    obtain ⟨_, same, _⟩ := exposed _ stops
    cases same
  obtain ⟨first, frames, reached⟩ := completes handlers guarded returns frames
  generalize arrived : Runs.run (step handlers) m first = m' at frames reached
  obtain ⟨_, ⟨⟩, isOn, free⟩ := exposed _ reached
  have isOn : m'.on = true := isOn
  have taken : m'.exec true = { m' with held := l :: m'.held, frames := [next] } :=
    exec_of_step frames (Code.step_instruction (Instruction.lock_effect free))
  have fired : step handlers (m'.exec true) (.irq k) = (m'.exec true).interrupt (handlers k) := by
    rw [taken]
    exact if_pos isOn
  have handling : ((m'.exec true).interrupt (handlers k)).frames = [handlers k, next] := by
    rw [taken]
    rfl
  have held : l ∈ ((m'.exec true).interrupt (handlers k)).held := by
    rw [taken]
    exact List.mem_cons_self
  obtain ⟨second, stuck⟩ := attempts_blocked handlers attempts handling held
  refine ⟨first ++ .go true :: .irq k :: second, ?_⟩
  rw [Runs.run_append, arrived, Runs.run_cons, Runs.run_cons]
  change (Runs.run (step handlers) (step handlers (m'.exec true) (.irq k)) second).blocked = true
  rw [fired]
  exact stuck

end Machine
end Locks
