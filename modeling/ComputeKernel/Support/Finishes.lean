import ComputeKernel.Support.Checked

/-! Total correctness of checked code: the code returns, and what it returns and
leaves satisfies a postcondition. -/
namespace Checked

variable {σ τ α β ι : Type}

/-- The code returns, with a result and a state that `post` admits. -/
def Finishes (m : Exec σ α) (post : α → σ → Prop) (s : σ) : Prop :=
  ∃ a s', m s = .done a s' ∧ post a s'

/-- A test of the result and the state of code that has returned. -/
def Outcome.check (outcome : Outcome σ α) (check : α → σ → Bool) : Bool :=
  match outcome with
  | .done a s => check a s
  | _ => false

namespace Finishes

variable {m : Exec σ α} {post : α → σ → Prop} {s : σ}

theorem ret {a : α} (returns : post a s) : Finishes (Exec.ret a) post s := ⟨a, s, rfl, returns⟩

theorem get {post : σ → σ → Prop} (returns : post s s) : Finishes Exec.get post s :=
  ⟨s, s, rfl, returns⟩

theorem modify {f : σ → σ} {post : Unit → σ → Prop} (returns : post () (f s)) :
    Finishes (Exec.modify f) post s := ⟨(), f s, rfl, returns⟩

theorem bind {f : α → Exec σ β} {post : β → σ → Prop}
    (h : Finishes m (fun a s' => Finishes (f a) post s') s) : Finishes (m >>= f) post s := by
  obtain ⟨a, s', ran, b, s'', next, returns⟩ := h
  exact ⟨b, s'', (Exec.bind_of_done ran).trans next, returns⟩

theorem mono {stronger : α → σ → Prop} (h : Finishes m stronger s)
    (weaken : ∀ a s', stronger a s' → post a s') : Finishes m post s := by
  obtain ⟨a, s', ran, returns⟩ := h
  exact ⟨a, s', ran, weaken a s' returns⟩

theorem andThen {f : α → Exec σ β} {post : β → σ → Prop} {between : α → σ → Prop}
    (first : Finishes m between s) (next : ∀ a s', between a s' → Finishes (f a) post s') :
    Finishes (m >>= f) post s := bind (mono first next)

theorem zoom {m : Exec τ α} {view : σ → τ} {update : τ → σ → σ}
    (inner : Finishes m (fun a t => post a (update t s)) (view s)) :
    Finishes (Exec.zoom view update m) post s := by
  obtain ⟨a, t, ran, returns⟩ := inner
  exact ⟨a, update t s, Exec.zoom_of_done update ran, returns⟩

/-- Code that is known to run to an end. -/
theorem of_done {a : α} {s' : σ} (ran : m s = .done a s') (returns : post a s') :
    Finishes m post s := ⟨a, s', ran, returns⟩

theorem done {a : α} {s' : σ} (h : Finishes m post s) (ran : m s = .done a s') : post a s' := by
  obtain ⟨b, s'', other, returns⟩ := h
  rw [ran] at other
  cases other
  exact returns

/-- Code that returns where an invariant holds. -/
theorem meets {I : σ → Prop} (h : Finishes m post s) (keeps : ∀ a s', post a s' → I s') :
    Meets I m post s := by
  obtain ⟨a, s', ran, returns⟩ := h
  exact Meets.of_done ran (keeps a s' returns) returns

/-- Code whose run can be evaluated. -/
theorem of_check {check : α → σ → Bool} (h : (m s).check check = true) :
    Finishes m (fun a s' => check a s' = true) s := by
  unfold Outcome.check at h
  cases ran : m s with
  | done a s' =>
      rw [ran] at h
      exact ⟨a, s', ran, h⟩
  | halted s' => simp [ran] at h
  | panicked why => simp [ran] at h
  | faulted address => simp [ran] at h
  | exhausted => simp [ran] at h

/-- The rule of a loop over any items: what every turn keeps, the loop keeps. -/
theorem forEach {items : List ι} {body : ι → Exec σ Unit} {I : σ → Prop} (start : I s)
    (each : ∀ item ∈ items, ∀ s, I s → Finishes (body item) (fun _ s' => I s') s) :
    Finishes (Exec.forEach items body) (fun _ s' => I s') s := by
  induction items generalizing s with
  | nil => exact ret start
  | cons item items ih =>
      refine andThen (each item List.mem_cons_self s start) ?_
      intro _ s' kept
      exact ih kept (fun other member => each other (List.mem_cons_of_mem item member))

/-- The rule of a loop that appends to a list: the turns keep an invariant, and the list
grows by what each of them finds. -/
theorem collect {items : List ι} {body : ι → List β → Exec σ (List β)} (I : σ → Prop)
    (found : ι → List β) (start : I s)
    (each : ∀ item ∈ items, ∀ list s, I s →
      Finishes (body item list) (fun list' s' => I s' ∧ list' = list ++ found item) s)
    (list : List β) :
    Finishes (Exec.foldEach items list body)
      (fun list' s' => I s' ∧ list' = list ++ items.flatMap found) s := by
  induction items generalizing s list with
  | nil => exact ret ⟨start, (List.append_nil list).symm⟩
  | cons item items ih =>
      refine andThen (each item List.mem_cons_self list s start) ?_
      rintro _ s' ⟨kept, rfl⟩
      rw [List.flatMap_cons, ← List.append_assoc]
      exact ih kept (fun other member => each other (List.mem_cons_of_mem item member)) _

/-- The rule of a loop with a test: what every turn keeps holds at the end, and a number
that every turn makes smaller bounds the fuel. -/
theorem whileLoop {test : α → Bool} {body : α → Exec σ α} {I : α → σ → Prop} (variant : α → Nat)
    {fuel : Nat} {a : α} (start : I a s) (enough : variant a < fuel)
    (each : ∀ a s, I a s → test a = true →
      Finishes (body a) (fun a' s' => I a' s' ∧ variant a' < variant a) s) :
    Finishes (Exec.whileLoop test body fuel a) (fun a' s' => I a' s' ∧ test a' = false) s := by
  induction fuel generalizing a s with
  | zero => exact absurd enough (Nat.not_lt_zero _)
  | succ fuel ih =>
      unfold Exec.whileLoop
      split
      · next goes =>
          refine andThen (each a s start goes) ?_
          rintro a' s' ⟨kept, smaller⟩
          exact ih kept (by omega)
      · next stops => exact ret ⟨start, by simpa using stops⟩

/-- The rule of a counting loop, with an invariant that depends on the counter. -/
theorem forRange (I : Nat → σ → Prop) {first count : Nat} {body : Nat → Exec σ Unit}
    (start : I first s)
    (each : ∀ i, first ≤ i → i < first + count → ∀ s, I i s →
      Finishes (body i) (fun _ s' => I (i + 1) s') s) :
    Finishes (Exec.forEach (List.range' first count) body) (fun _ s' => I (first + count) s') s := by
  induction count generalizing first s with
  | zero => exact ret start
  | succ count ih =>
      rw [List.range'_succ]
      refine andThen (each first (Nat.le_refl first) (by omega) s start) ?_
      intro _ s' kept
      have rest := ih kept (fun i above below => each i (by omega) (by omega))
      rw [Nat.add_right_comm, Nat.add_assoc] at rest
      exact rest

end Finishes

/-- The code returns as `post` says, or it panics and there is an excuse for that. -/
def FinishesUnless (excuse : Prop) (m : Exec σ α) (post : α → σ → Prop) (s : σ) : Prop :=
  Finishes m post s ∨ excuse ∧ ∃ why, m s = .panicked why

namespace FinishesUnless

variable {excuse : Prop} {m : Exec σ α} {post : α → σ → Prop} {s : σ}

theorem ret {a : α} (returns : post a s) : FinishesUnless excuse (Exec.ret a) post s :=
  Or.inl (Finishes.ret returns)

theorem modify {f : σ → σ} {post : Unit → σ → Prop} (returns : post () (f s)) :
    FinishesUnless excuse (Exec.modify f) post s := Or.inl (Finishes.modify returns)

theorem panic (excused : excuse) (why : Panic) :
    FinishesUnless excuse (Exec.panic why : Exec σ α) post s := Or.inr ⟨excused, why, rfl⟩

theorem bind {f : α → Exec σ β} {post : β → σ → Prop}
    (h : FinishesUnless excuse m (fun a s' => FinishesUnless excuse (f a) post s') s) :
    FinishesUnless excuse (m >>= f) post s := by
  rcases h with ⟨a, s', ran, next | ⟨excused, why, panicked⟩⟩ | ⟨excused, why, panicked⟩
  · exact Or.inl (Finishes.bind ⟨a, s', ran, next⟩)
  · exact Or.inr ⟨excused, why, (Exec.bind_of_done ran).trans panicked⟩
  · exact Or.inr ⟨excused, why, Exec.bind_of_panicked panicked⟩

theorem mono {stronger : α → σ → Prop} (h : FinishesUnless excuse m stronger s)
    (weaken : ∀ a s', stronger a s' → post a s') : FinishesUnless excuse m post s :=
  h.imp_left (fun finishes => finishes.mono weaken)

theorem andThen {f : α → Exec σ β} {post : β → σ → Prop} {between : α → σ → Prop}
    (first : FinishesUnless excuse m between s)
    (next : ∀ a s', between a s' → FinishesUnless excuse (f a) post s') :
    FinishesUnless excuse (m >>= f) post s := bind (mono first next)

theorem zoom {m : Exec τ α} {view : σ → τ} {update : τ → σ → σ}
    (inner : FinishesUnless excuse m (fun a t => post a (update t s)) (view s)) :
    FinishesUnless excuse (Exec.zoom view update m) post s := by
  rcases inner with finishes | ⟨excused, why, panicked⟩
  · exact Or.inl (Finishes.zoom finishes)
  · refine Or.inr ⟨excused, why, ?_⟩
    unfold Exec.zoom
    rw [panicked]

theorem done {a : α} {s' : σ} (h : FinishesUnless excuse m post s) (ran : m s = .done a s') :
    post a s' := by
  rcases h with finishes | ⟨_, why, panicked⟩
  · exact finishes.done ran
  · rw [ran] at panicked
    cases panicked

theorem finishes (h : FinishesUnless excuse m post s) (inexcusable : ¬excuse) : Finishes m post s :=
  h.resolve_right (fun panicked => inexcusable panicked.1)

end FinishesUnless

/-- The code comes to a halt for good, in a state that `post` admits. -/
def Halts (m : Exec σ α) (post : σ → Prop) (s : σ) : Prop := ∃ s', m s = .halted s' ∧ post s'

namespace Halts

variable {m : Exec σ α} {post : σ → Prop} {s : σ}

theorem halt (stops : post s) : Halts (Exec.halt : Exec σ α) post s := ⟨s, rfl, stops⟩

/-- After code that returns. -/
theorem after {f : α → Exec σ β} {between : α → σ → Prop} (first : Finishes m between s)
    (next : ∀ a s', between a s' → Halts (f a) post s') : Halts (m >>= f) post s := by
  obtain ⟨a, s', ran, holds⟩ := first
  obtain ⟨s'', halted, stops⟩ := next a s' holds
  exact ⟨s'', (Exec.bind_of_done ran).trans halted, stops⟩

theorem modify {f : σ → σ} {g : Unit → Exec σ α} (next : Halts (g ()) post (f s)) :
    Halts (Exec.modify f >>= g) post s := next

theorem get {g : σ → Exec σ α} (next : Halts (g s) post s) : Halts (Exec.get >>= g) post s := next

theorem halted {s' : σ} (h : Halts m post s) (ran : m s = .halted s') : post s' := by
  obtain ⟨s'', other, stops⟩ := h
  rw [ran] at other
  cases other
  exact stops

end Halts

/-- The code returns as `post` says, or comes to a halt for good as `stop` says. -/
def Settles (m : Exec σ α) (post : α → σ → Prop) (stop : σ → Prop) (s : σ) : Prop :=
  Finishes m post s ∨ Halts m stop s

namespace Settles

variable {m : Exec σ α} {post : α → σ → Prop} {stop : σ → Prop} {s : σ}

theorem mono {stronger : α → σ → Prop} {sooner : σ → Prop} (h : Settles m stronger sooner s)
    (weaken : ∀ a s', stronger a s' → post a s') (stops : ∀ s', sooner s' → stop s') :
    Settles m post stop s := by
  rcases h with finishes | ⟨s', ran, halted⟩
  · exact .inl (finishes.mono weaken)
  · exact .inr ⟨s', ran, stops s' halted⟩

theorem andThen {f : α → Exec σ β} {post : β → σ → Prop} {between : α → σ → Prop}
    (first : Settles m between stop s) (next : ∀ a s', between a s' → Settles (f a) post stop s') :
    Settles (m >>= f) post stop s := by
  rcases first with finishes | ⟨s', ran, halted⟩
  · obtain ⟨a, s', ran, reached⟩ := finishes
    rcases next a s' reached with ⟨b, s'', done, returns⟩ | ⟨s'', stopped, halted⟩
    · exact .inl ⟨b, s'', (Exec.bind_of_done ran).trans done, returns⟩
    · exact .inr ⟨s'', (Exec.bind_of_done ran).trans stopped, halted⟩
  · exact .inr ⟨s', Exec.bind_of_halted ran, halted⟩

/-- After code that returns. -/
theorem after {f : α → Exec σ β} {post : β → σ → Prop} {between : α → σ → Prop}
    (first : Finishes m between s) (next : ∀ a s', between a s' → Settles (f a) post stop s') :
    Settles (m >>= f) post stop s := andThen (.inl first) next

theorem modify {f : σ → σ} {g : Unit → Exec σ α} (next : Settles (g ()) post stop (f s)) :
    Settles (Exec.modify f >>= g) post stop s := next

theorem get {g : σ → Exec σ α} (next : Settles (g s) post stop s) :
    Settles (Exec.get >>= g) post stop s := next

end Settles

end Checked
