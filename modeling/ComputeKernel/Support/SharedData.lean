import ComputeKernel.Support.Interrupts

/-! Data that code shares with interrupt handlers. What the handlers keep, and the code keeps
in each of its sections, holds whenever nothing is under way, wherever the handlers run. -/
namespace Locks

universe u v w
variable {ι : Type u} {σ : Type v} {κ : Type w}

/-- No lock is held, and a handler may have run or no flag is stored. -/
def Context.rests (c : Context ι) : Bool := c.held.isEmpty && (c.on || c.saved.isEmpty)

theorem Context.rests_of_held {c : Context ι} (busy : c.held ≠ []) : c.rests = false := by
  rw [rests, List.isEmpty_eq_false_iff.mpr busy, Bool.false_and]

theorem Context.held_of_rests {c : Context ι} (rests : c.rests = true) : c.held = [] := by
  rw [Context.rests, Bool.and_eq_true] at rests
  exact List.isEmpty_iff.mp rests.1

namespace Code

/-- What is known of the data when an instruction starts: where a handler may have run, only
that `P` holds; otherwise the data itself. -/
def Arrives (P : σ → Prop) (c : Context ι) (s : σ) (Q : σ → Prop) : Prop :=
  if c.rests then P s ∧ ∀ s', P s' → Q s' else Q s

section Arrives

variable {P Q R : σ → Prop} {c : Context ι} {s s' : σ}

theorem Arrives.elim (h : Arrives P c s Q) : Q s := by
  unfold Arrives at h
  split at h
  · exact h.2 s h.1
  · exact h

theorem Arrives.imp (h : Arrives P c s Q) (weaken : ∀ s, Q s → R s) : Arrives P c s R := by
  unfold Arrives at h ⊢
  split at h
  · next rests =>
      rw [if_pos rests]
      exact ⟨h.1, fun s' keeps => weaken s' (h.2 s' keeps)⟩
  · next busy =>
      rw [if_neg busy]
      exact weaken s h

theorem Arrives.rest (h : Arrives P c s Q) (rests : c.rests = true) : P s := by
  rw [Arrives, if_pos rests] at h
  exact h.1

theorem Arrives.any (h : Arrives P c s Q) (rests : c.rests = true) (keeps : P s') : Arrives P c s' Q := by
  rw [Arrives, if_pos rests] at h ⊢
  exact ⟨keeps, h.2⟩

theorem Arrives.busy (busy : c.rests = false) (next : Q s) : Arrives P c s Q := by
  rw [Arrives, if_neg (by rw [busy]; nofun)]
  exact next

theorem Arrives.of_forall (here : P s) (next : ∀ s, P s → Q s) : Arrives P c s Q := by
  unfold Arrives
  split
  · exact ⟨here, next⟩
  · exact next s here

end Arrives

/-- The code leaves every lock alone. -/
def Straight : Code ι σ → Prop
  | done => True
  | halt => True
  | act _ next => next.Straight
  | read next => ∀ s, (next s).Straight
  | choose left right => left.Straight ∧ right.Straight
  | instruction i next => (∀ l, i ≠ .lock l ∧ i ≠ .unlock l) ∧ next.Straight

theorem Straight.andThen {a b : Code ι σ} (first : a.Straight) (second : b.Straight) :
    (a.andThen b).Straight := by
  induction a with
  | done => exact second
  | halt => trivial
  | act change next ih => exact ih first
  | read next ih => exact fun s => ih s (first s)
  | choose left right ihLeft ihRight => exact ⟨ihLeft first.1, ihRight first.2⟩
  | instruction i next ih => exact ⟨first.1, ih first.2⟩

/-- What holds of the data once code is through that nothing interrupts. -/
def Yields (Q : σ → Prop) : Code ι σ → σ → Prop
  | done, s => Q s
  | halt, _ => True
  | act change next, s => next.Yields Q (change s)
  | read next, s => (next s).Yields Q s
  | choose left right, s => left.Yields Q s ∧ right.Yields Q s
  | instruction _ next, s => next.Yields Q s

theorem Yields.mono {P Q : σ → Prop} {code : Code ι σ} {s : σ} (h : code.Yields P s)
    (weaken : ∀ s, P s → Q s) : code.Yields Q s := by
  induction code generalizing s with
  | done => exact weaken s h
  | halt => trivial
  | act change next ih => exact ih h
  | read next ih => exact ih s h
  | choose left right ihLeft ihRight => exact ⟨ihLeft h.1, ihRight h.2⟩
  | instruction i next ih => exact ih h

theorem Yields.andThen {P Q : σ → Prop} {a b : Code ι σ} {s : σ} (first : a.Yields P s)
    (second : ∀ s, P s → b.Yields Q s) : (a.andThen b).Yields Q s := by
  induction a generalizing s with
  | done => exact second s first
  | halt => trivial
  | act change next ih => exact ih first
  | read next ih => exact ih s first
  | choose left right ihLeft ihRight => exact ⟨ihLeft first.1, ihRight first.2⟩
  | instruction i next ih => exact ih first

variable [DecidableEq ι]

theorem Yields.step {Q : σ → Prop} {code code' : Code ι σ} {c c' : Context ι} {s s' : σ} {left : Bool}
    (h : code.Yields Q s) (stepped : code.step c s left = some (code', c', s')) : code'.Yields Q s' := by
  cases code with
  | done | halt => cases stepped
  | act change next =>
      cases stepped
      exact h
  | read next =>
      cases stepped
      exact h
  | choose first second =>
      cases stepped
      cases left with
      | true => exact h.1
      | false => exact h.2
  | instruction i next =>
      obtain ⟨_, rfl, rfl⟩ := effect_of_step stepped
      exact h

/-- `P` holds wherever the code rests. -/
def Sound (P : σ → Prop) : Code ι σ → Context ι → σ → Prop
  | done, c, s => Arrives P c s (fun _ => True)
  | halt, c, s => Arrives P c s (fun _ => True)
  | act change next, c, s => Arrives P c s (fun s => Sound P next c (change s))
  | read next, c, s => Arrives P c s (fun s => Sound P (next s) c s)
  | choose left right, c, s => Arrives P c s (fun s => Sound P left c s ∧ Sound P right c s)
  | instruction i next, c, s =>
      Arrives P c s (fun s => ∀ c', i.effect c = some c' → Sound P next c' s)

namespace Sound

variable {P : σ → Prop} {code a b body : Code ι σ} {c : Context ι} {s s' : σ}

theorem rest (h : Sound P code c s) (rests : c.rests = true) : P s := by
  cases code <;> exact Arrives.rest h rests

/-- At rest the data may change to any other that satisfies `P`. -/
theorem any (h : Sound P code c s) (rests : c.rests = true) (keeps : P s') : Sound P code c s' := by
  cases code <;> exact Arrives.any h rests keeps

theorem step {code' : Code ι σ} {c' : Context ι} {left : Bool} (h : Sound P code c s)
    (stepped : code.step c s left = some (code', c', s')) : Sound P code' c' s' := by
  cases code with
  | done | halt => cases stepped
  | act change next =>
      cases stepped
      exact Arrives.elim (Q := fun s => Sound P code' c (change s)) h
  | read next =>
      cases stepped
      exact Arrives.elim (Q := fun s => Sound P (next s) c s) h
  | choose first second =>
      cases stepped
      cases left with
      | true => exact (Arrives.elim h).1
      | false => exact (Arrives.elim h).2
  | instruction i next =>
      obtain ⟨took, rfl, rfl⟩ := effect_of_step stepped
      exact Arrives.elim h c' took

theorem done (here : P s) : Sound P Code.done c s := Arrives.of_forall here (fun _ _ => trivial)

theorem halt (here : P s) : Sound P Code.halt c s := Arrives.of_forall here (fun _ _ => trivial)

theorem pass (here : P s) (next : ∀ s, P s → Sound P a c s) : Sound P (Code.pass a) c s :=
  Arrives.of_forall here next

/-- An instruction at rest. -/
theorem instruction {i : Instruction ι} {c' : Context ι} (took : i.effect c = some c') (here : P s)
    (next : ∀ s, P s → Sound P a c' s) : Sound P (Code.instruction i a) c s := by
  refine Arrives.of_forall here (fun s before other took' => ?_)
  rw [took] at took'
  cases took'
  exact next s before

/-- An instruction elsewhere. -/
theorem busyInstruction {i : Instruction ι} {c' : Context ι} (took : i.effect c = some c')
    (busy : c.rests = false) (next : Sound P a c' s) : Sound P (Code.instruction i a) c s := by
  refine Arrives.busy busy (fun other took' => ?_)
  rw [took] at took'
  cases took'
  exact next

theorem andThen {shared : ι → Prop} {post : Ending ι → Prop} (guarded : Guarded shared post a c)
    (first : Sound P a c s)
    (second : ∀ c s, post (.returned c) → (c.rests = true → P s) → Sound P b c s) :
    Sound P (a.andThen b) c s := by
  induction a generalizing c s with
  | done => exact second c s guarded.2 first.rest
  | halt => exact first
  | act change next ih => exact first.imp (fun s next => ih guarded.2 next)
  | read next ih => exact first.imp (fun s next => ih s (guarded.2 s) next)
  | choose left right ihLeft ihRight =>
      exact first.imp (fun s next => ⟨ihLeft guarded.2.1 next.1, ihRight guarded.2.2 next.2⟩)
  | instruction i next ih =>
      obtain ⟨_, c', took, rest⟩ := guarded
      refine first.imp (fun s next other took' => ?_)
      have same := took.symm.trans took'
      cases same
      exact ih rest (next c' took)

/-- While a lock is held, straight code has the effect it has alone. -/
theorem straight {shared : ι → Prop} {post : Ending ι → Prop} (plain : a.Straight)
    (guarded : Guarded shared post a c) (busy : c.held ≠ [])
    (second : ∀ c', post (.returned c') → a.Yields (fun s => Sound P b c' s) s) :
    Sound P (a.andThen b) c s := by
  have unrested := Context.rests_of_held busy
  induction a generalizing c s with
  | done => exact second c guarded.2
  | halt => exact Arrives.busy unrested trivial
  | act change next ih => exact Arrives.busy unrested (ih plain guarded.2 busy second unrested)
  | read next ih => exact Arrives.busy unrested (ih s (plain s) (guarded.2 s) busy second unrested)
  | choose left right ihLeft ihRight =>
      exact Arrives.busy unrested
        ⟨ihLeft plain.1 guarded.2.1 busy (fun c' ends => (second c' ends).1) unrested,
          ihRight plain.2 guarded.2.2 busy (fun c' ends => (second c' ends).2) unrested⟩
  | instruction i next ih =>
      obtain ⟨_, c', took, rest⟩ := guarded
      have held : c'.held = c.held := by
        cases i with
        | sti | cli | save =>
            cases took
            rfl
        | restore =>
            obtain ⟨on, stored, locks⟩ := c
            cases stored with
            | nil => cases took
            | cons flag rest =>
                cases took
                rfl
        | lock l => exact absurd rfl (plain.1 l).1
        | unlock l => exact absurd rfl (plain.1 l).2
      have busy' : c'.held ≠ [] := held ▸ busy
      exact busyInstruction took unrested
        (ih plain.2 rest busy' second (Context.rests_of_held busy'))

/-- A section under a lock, on top of whatever follows. -/
theorem section_ {shared : ι → Prop} {l : ι} (plain : body.Straight)
    (neutral : body.Neutral shared { c with held := l :: c.held })
    (ends : body.Yields (fun s => Sound P b c s) s) :
    Sound P (body.andThen (Code.unlock l b)) { c with held := l :: c.held } s := by
  have busy : ({ c with held := l :: c.held } : Context ι).held ≠ [] := nofun
  refine straight plain neutral busy ?_
  rintro _ ⟨⟩
  refine ends.mono (fun s next => busyInstruction ?_ (Context.rests_of_held busy) next)
  rw [Instruction.unlock_effect List.mem_cons_self, List.erase_cons_head]

theorem locked {shared : ι → Prop} {l : ι} (plain : body.Straight)
    (neutral : body.Neutral shared { c with held := l :: c.held }) (rests : c.rests = true)
    (keeps : ∀ s, P s → body.Yields P s) (here : P s) : Sound P (body.locked l) c s := by
  have free : l ∉ c.held := by
    rw [Context.held_of_rests rests]
    nofun
  refine instruction (Instruction.lock_effect free) here (fun s before => ?_)
  exact section_ plain neutral ((keeps s before).mono (fun s kept => done kept))

theorem critical {shared : ι → Prop} {l : ι} (plain : body.Straight)
    (neutral : body.Neutral shared
      { on := false, saved := c.on :: c.saved, held := l :: c.held })
    (rests : c.rests = true) (keeps : ∀ s, P s → body.Yields P s) (here : P s) :
    Sound P (body.locked l).withoutInterrupts c s := by
  have empty := Context.held_of_rests rests
  have free : l ∉ c.held := by
    rw [empty]
    nofun
  have masked : ({ c with on := false, saved := c.on :: c.saved } : Context ι).rests = false := by
    simp [Context.rests]
  refine instruction rfl here (fun s before => ?_)
  refine busyInstruction (Instruction.lock_effect free) masked ?_
  rw [andThen_assoc]
  refine section_ plain neutral ((keeps s before).mono (fun s kept => ?_))
  exact busyInstruction rfl masked (done kept)

end Sound
end Code

variable [DecidableEq ι]

namespace Machine

/-- No handler is running, no flag is stored and no lock is held. -/
def AtRest (m : Machine ι σ) : Prop := m.frames.length = 1 ∧ m.saved = [] ∧ m.held = []

/-- The invariant of the machine. In foreground the code is sound; in a handler the data
satisfies `P` once the handler is through, and the code below is at rest. A handler that
fired while a lock was held which it needs is doomed to spin. -/
inductive Consistent (masked taken : ι → Prop) (post : Ending ι → Prop) (P : σ → Prop) (m : Machine ι σ) :
    Prop where
  | foreground (code : Code ι σ) (frames : m.frames = [code])
      (guarded : code.Guarded masked post m.toContext) (sound : code.Sound P m.toContext m.data)
  | handling (code below : Code ι σ) (own under : Context ι)
      (atop : Atop masked taken (fun ending => ending = .returned Context.entry) (true :: under.saved)
        under.held .done [below] code own m)
      (wasOn : under.on = true) (guardedBelow : below.Guarded masked post under)
      (free : under.held = []) (yields : code.Yields P m.data)
      (soundBelow : ∀ s, P s → below.Sound P under s)
  | doomed (code below : Code ι σ) (own : Context ι) (saved : List Bool) (held : List ι) (l : ι)
      (atop : Atop masked taken (fun ending => ending = .returned Context.entry) saved held .done [below]
        code own m)
      (inside : l ∈ held) (needs : code.Needs l)

variable {masked taken : ι → Prop} {post : Ending ι → Prop} {P : σ → Prop} {m : Machine ι σ}
  {handlers : κ → Code ι σ}

theorem Consistent.rest (consistent : Consistent masked taken post P m) (rest : m.AtRest) : P m.data := by
  obtain ⟨single, empty, free⟩ := rest
  cases consistent with
  | foreground code frames guarded sound =>
      refine sound.rest ?_
      rw [Context.rests, free, empty]
      simp
  | handling code below own under atop =>
      rw [atop.frames] at single
      cases single
  | doomed code below own saved held l atop =>
      rw [atop.frames] at single
      cases single

theorem Consistent.exec (consistent : Consistent masked taken post P m) (left : Bool) :
    Consistent masked taken post P (m.exec left) := by
  cases consistent with
  | foreground code frames guarded sound =>
      cases finished : code.ended with
      | true =>
          have idle : m.exec left = m := by
            cases code with
            | done => exact exec_of_done frames
            | halt => exact exec_of_halt frames
            | act _ _ | read _ | choose _ _ | instruction _ _ => cases finished
          rw [idle]
          exact .foreground code frames guarded sound
      | false =>
          obtain ⟨code', c, s, stepped, next⟩ := guarded.step finished m.data left
          rw [exec_of_step frames stepped]
          exact .foreground code' rfl next (sound.step stepped)
  | handling code below own under atop wasOn guardedBelow free yields soundBelow =>
      cases finished : code.ended with
      | true =>
          cases code with
          | done =>
              rw [atop.returns wasOn]
              exact .foreground below rfl guardedBelow (soundBelow _ yields)
          | halt => exact absurd atop.guarded.2 nofun
          | act _ _ | read _ | choose _ _ | instruction _ _ => cases finished
      | false =>
          rcases atop.exec finished left with ⟨_, _, _, _, inside, _⟩ | ⟨code', own', stepped, next, _⟩
          · rw [free] at inside
            cases inside
          · exact .handling code' below own' under next wasOn guardedBelow free (yields.step stepped) soundBelow
  | doomed code below own saved held l atop inside needs =>
      rcases atop.exec needs.going left with ⟨_, _, _, _, _, spins⟩ | ⟨code', own', stepped, next, other⟩
      · rw [spins]
        exact .doomed code below own saved held l atop inside needs
      · exact .doomed code' below own' saved held l next inside
          (needs.step stepped (fun _ same => other l _ same inside))

section Shared

variable (entered : ∀ k, (handlers k).Neutral masked Context.entry)
  (handles : ∀ k, (handlers k).Handles taken) (keeps : ∀ k s, P s → (handlers k).Yields P s)
  (needs : ∀ k l, ¬masked l → (handlers k).Needs l)
include entered handles keeps needs

theorem Consistent.interrupt (consistent : Consistent masked taken post P m) (on : m.on = true) (k : κ) :
    Consistent masked taken post P (m.interrupt (handlers k)) := by
  have atop := Atop.entered m (entered k) (handles k)
  cases consistent with
  | foreground code frames guarded sound =>
      rw [frames] at atop
      cases locks : m.held with
      | nil =>
          have rests : m.toContext.rests = true := by
            rw [Context.rests, on, locks]
            rfl
          have yields : (handlers k).Yields P (m.interrupt (handlers k)).data := keeps k _ (sound.rest rests)
          rw [on] at atop
          exact .handling (handlers k) code Context.entry m.toContext atop on guarded locks yields
            (fun s kept => sound.any rests kept)
      | cons l held =>
          have inside : l ∈ m.held := by
            rw [locks]
            exact List.mem_cons_self
          exact .doomed (handlers k) code Context.entry _ _ l atop inside
            (needs k l (guarded.covered on l inside))
  | handling code below own under atop' =>
      rw [atop'.off] at on
      cases on
  | doomed code below own saved held l atop' =>
      rw [atop'.off] at on
      cases on

/-- The rule for data shared with handlers. A lock that may be held with interrupts on has to
be one that every handler takes. -/
theorem rest_invariant {s : σ} {on : Bool} {code : Code ι σ} (guarded : code.Guarded masked post ⟨on, [], []⟩)
    (sound : code.Sound P ⟨on, [], []⟩ s) (events : List (Event κ))
    (rest : (Runs.run (step handlers) (start s on code) events).AtRest) :
    P (Runs.run (step handlers) (start s on code) events).data := by
  have consistent : Consistent masked taken post P (Runs.run (step handlers) (start s on code) events) := by
    apply Runs.run_invariant (fun m event consistent => ?_)
    · exact .foreground code rfl guarded sound
    · cases event with
      | go left => exact consistent.exec left
      | irq k =>
          unfold step
          dsimp only
          split
          · next isOn => exact consistent.interrupt entered handles keeps needs isOn k
          · exact consistent
  exact consistent.rest rest

end Shared
end Machine
end Locks
