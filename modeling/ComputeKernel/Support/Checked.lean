import Mathlib.Algebra.Group.Int.Defs
import Mathlib.Algebra.Group.Nat.Defs

/-! Sequential code with Rust's checks: arithmetic, indexing and unwrapping may
panic, user memory may fault, and code may halt for good. `Meets` is the weakest
precondition of an invariant and a postcondition, with a rule for each operation. -/
namespace Checked

variable {σ τ α β γ ι : Type}

/-- The panics of checked arithmetic, of indices and slices, and of `unwrap`. -/
inductive Panic where
  | overflow
  | bounds
  | unwrap
  deriving DecidableEq, Repr

/-- How code ends. `halted` code never returns, `faulted` code used an invalid
pointer, and `exhausted` code ran out of memory. -/
inductive Outcome (σ α : Type) where
  | done (value : α) (state : σ)
  | halted (state : σ)
  | panicked (why : Panic)
  | faulted (address : UInt64)
  | exhausted

/-- What arithmetic does at an overflow: debug builds panic, release builds wrap. -/
inductive Overflow where
  | panics
  | wraps
  deriving DecidableEq, Repr

def Exec (σ α : Type) : Type := σ → Outcome σ α

namespace Exec

def ret (a : α) : Exec σ α := fun s => .done a s

def andThen (m : Exec σ α) (f : α → Exec σ β) : Exec σ β := fun s =>
  match m s with
  | .done a s' => f a s'
  | .halted s' => .halted s'
  | .panicked why => .panicked why
  | .faulted address => .faulted address
  | .exhausted => .exhausted

instance : Monad (Exec σ) where
  pure := ret
  bind := andThen

def get : Exec σ σ := fun s => .done s s

def modify (f : σ → σ) : Exec σ Unit := fun s => .done () (f s)

def panic (why : Panic) : Exec σ α := fun _ => .panicked why

def fault (address : UInt64) : Exec σ α := fun _ => .faulted address

def halt : Exec σ α := fun s => .halted s

def exhaust : Exec σ α := fun _ => .exhausted

/-- Code over a part of the state. -/
def zoom (view : σ → τ) (update : τ → σ → σ) (m : Exec τ α) : Exec σ α := fun s =>
  match m (view s) with
  | .done a t => .done a (update t s)
  | .halted t => .halted (update t s)
  | .panicked why => .panicked why
  | .faulted address => .faulted address
  | .exhausted => .exhausted

def forEach : List ι → (ι → Exec σ Unit) → Exec σ Unit
  | [], _ => ret ()
  | item :: items, body => body item >>= fun _ => forEach items body

/-- A loop over items that goes on with one variable. -/
def foldEach : List ι → α → (ι → α → Exec σ α) → Exec σ α
  | [], a, _ => ret a
  | item :: items, a, body => body item a >>= fun a' => foldEach items a' body

/-- `while test { body }` on one variable. Code whose fuel runs out never returns. -/
def whileLoop (test : α → Bool) (body : α → Exec σ α) : Nat → α → Exec σ α
  | 0, _ => halt
  | fuel + 1, a => if test a then body a >>= whileLoop test body fuel else ret a

/-- Addition of `usize` values. -/
def usizeAdd (a b : Nat) : Exec σ Nat := if a + b < 2 ^ 64 then ret (a + b) else panic .overflow

def usizeSub (a b : Nat) : Exec σ Nat := if b ≤ a then ret (a - b) else panic .overflow

def usizeMul (a b : Nat) : Exec σ Nat := if a * b < 2 ^ 64 then ret (a * b) else panic .overflow

/-- Addition of `i64` values. -/
def i64Add (a b : Int) : Exec σ Int :=
  if -2 ^ 63 ≤ a + b ∧ a + b < 2 ^ 63 then ret (a + b) else panic .overflow

def index (items : List α) (i : Nat) : Exec σ α :=
  match items[i]? with
  | some item => ret item
  | none => panic .bounds

/-- `items[start..]`. -/
def sliceFrom (items : List α) (start : Nat) : Exec σ (List α) :=
  if start ≤ items.length then ret (items.drop start) else panic .bounds

/-- `items[..stop]`. -/
def sliceTo (items : List α) (stop : Nat) : Exec σ (List α) :=
  if stop ≤ items.length then ret (items.take stop) else panic .bounds

/-- `items[start..stop]`. -/
def slice (items : List α) (start stop : Nat) : Exec σ (List α) :=
  if start ≤ stop ∧ stop ≤ items.length then ret ((items.take stop).drop start) else panic .bounds

/-- Addition of `u64` values. -/
def u64Add (overflow : Overflow) (a b : UInt64) : Exec σ UInt64 :=
  if a.toNat + b.toNat < 2 ^ 64 then ret (a + b)
  else
    match overflow with
    | .panics => panic .overflow
    | .wraps => ret (a + b)

/-- A `usize` result of arithmetic, in a build that checks it or in one that wraps. -/
def usize (overflow : Overflow) (value : Nat) : Exec σ Nat :=
  if value < 2 ^ 64 then ret value
  else
    match overflow with
    | .panics => panic .overflow
    | .wraps => ret (value % 2 ^ 64)

/-- Addition of `u32` values. -/
def u32Add (a b : UInt32) : Exec σ UInt32 :=
  if a.toNat + b.toNat < 2 ^ 32 then ret (a + b) else panic .overflow

/-- Addition of `u8` values. -/
def u8Add (a b : UInt8) : Exec σ UInt8 :=
  if a.toNat + b.toNat < 2 ^ 8 then ret (a + b) else panic .overflow

/-- Multiplication of `u8` values. -/
def u8Mul (a b : UInt8) : Exec σ UInt8 :=
  if a.toNat * b.toNat < 2 ^ 8 then ret (a * b) else panic .overflow

theorem bind_of_done {m : Exec σ α} {f : α → Exec σ β} {s s' : σ} {a : α}
    (ran : m s = .done a s') : (m >>= f) s = f a s' := by
  change andThen m f s = f a s'
  simp only [andThen, ran]

theorem bind_of_panicked {m : Exec σ α} {f : α → Exec σ β} {s : σ} {why : Panic}
    (ran : m s = .panicked why) : (m >>= f) s = .panicked why := by
  change andThen m f s = .panicked why
  simp only [andThen, ran]

theorem bind_of_faulted {m : Exec σ α} {f : α → Exec σ β} {s : σ} {address : UInt64}
    (ran : m s = .faulted address) : (m >>= f) s = .faulted address := by
  change andThen m f s = .faulted address
  simp only [andThen, ran]

theorem bind_of_halted {m : Exec σ α} {f : α → Exec σ β} {s s' : σ} (ran : m s = .halted s') :
    (m >>= f) s = .halted s' := by
  change andThen m f s = .halted s'
  simp only [andThen, ran]

theorem bind_congr {m : Exec σ α} {f g : α → Exec σ β} {s : σ}
    (agree : ∀ a s', m s = .done a s' → f a s' = g a s') : (m >>= f) s = (m >>= g) s := by
  change andThen m f s = andThen m g s
  unfold andThen
  cases ran : m s with
  | done a s' => exact agree a s' ran
  | halted s' => rfl
  | panicked why => rfl
  | faulted address => rfl
  | exhausted => rfl

/-- A sequence returns only through both of its parts. -/
theorem done_of_bind {m : Exec σ α} {f : α → Exec σ β} {s s'' : σ} {b : β}
    (ran : (m >>= f) s = .done b s'') : ∃ a s', m s = .done a s' ∧ f a s' = .done b s'' := by
  change andThen m f s = .done b s'' at ran
  unfold andThen at ran
  cases first : m s with
  | done a s' =>
      rw [first] at ran
      exact ⟨a, s', rfl, ran⟩
  | halted s' => simp [first] at ran
  | panicked why => simp [first] at ran
  | faulted address => simp [first] at ran
  | exhausted => simp [first] at ran

theorem bind_assoc (m : Exec σ α) (f : α → Exec σ β) (g : β → Exec σ γ) :
    (m >>= f) >>= g = m >>= fun a => f a >>= g := by
  funext s
  change andThen (andThen m f) g s = andThen m (fun a => andThen (f a) g) s
  unfold andThen
  cases m s with
  | done a s' => rfl
  | halted s' => rfl
  | panicked why => rfl
  | faulted address => rfl
  | exhausted => rfl

theorem bind_ret (m : Exec σ α) : (m >>= fun a => ret a) = m := by
  funext s
  change andThen m ret s = m s
  unfold andThen
  cases m s with
  | done a s' => rfl
  | halted s' => rfl
  | panicked why => rfl
  | faulted address => rfl
  | exhausted => rfl

theorem forEach_append (first second : List ι) (body : ι → Exec σ Unit) :
    forEach (first ++ second) body = forEach first body >>= fun _ => forEach second body := by
  induction first with
  | nil => rfl
  | cons item first ih =>
      rw [List.cons_append, forEach, forEach, ih, bind_assoc]

theorem zoom_of_done {m : Exec τ α} {view : σ → τ} (update : τ → σ → σ) {s : σ} {t : τ} {a : α}
    (ran : m (view s) = .done a t) : zoom view update m s = .done a (update t s) := by
  unfold zoom
  rw [ran]

theorem usizeAdd_of_lt {a b : Nat} (fits : a + b < 2 ^ 64) (s : σ) :
    usizeAdd a b s = .done (a + b) s := by
  rw [usizeAdd, if_pos fits]
  rfl

theorem usizeSub_of_le {a b : Nat} (fits : b ≤ a) (s : σ) : usizeSub a b s = .done (a - b) s := by
  rw [usizeSub, if_pos fits]
  rfl

theorem usizeMul_of_lt {a b : Nat} (fits : a * b < 2 ^ 64) (s : σ) :
    usizeMul a b s = .done (a * b) s := by
  rw [usizeMul, if_pos fits]
  rfl

theorem u32Add_of_lt {a b : UInt32} (fits : a.toNat + b.toNat < 2 ^ 32) (s : σ) :
    u32Add a b s = .done (a + b) s := by
  rw [u32Add, if_pos fits]
  rfl

theorem u8Add_of_lt {a b : UInt8} (fits : a.toNat + b.toNat < 2 ^ 8) (s : σ) :
    u8Add a b s = .done (a + b) s := by
  rw [u8Add, if_pos fits]
  rfl

theorem u8Mul_of_lt {a b : UInt8} (fits : a.toNat * b.toNat < 2 ^ 8) (s : σ) :
    u8Mul a b s = .done (a * b) s := by
  rw [u8Mul, if_pos fits]
  rfl

theorem u64Add_of_lt {a b : UInt64} (fits : a.toNat + b.toNat < 2 ^ 64) (overflow : Overflow) (s : σ) :
    u64Add overflow a b s = .done (a + b) s := by
  unfold u64Add
  rw [if_pos fits]
  rfl

theorem usize_of_lt {value : Nat} (fits : value < 2 ^ 64) (overflow : Overflow) (s : σ) :
    usize overflow value s = .done value s := by
  unfold usize
  rw [if_pos fits]
  rfl

theorem usize_panics {value : Nat} (large : ¬value < 2 ^ 64) (s : σ) :
    usize .panics value s = .panicked .overflow := by
  unfold usize
  rw [if_neg large]
  rfl

theorem usize_wraps (value : Nat) (s : σ) : usize .wraps value s = .done (value % 2 ^ 64) s := by
  unfold usize
  split
  · next fits =>
      rw [Nat.mod_eq_of_lt fits]
      rfl
  · rfl

theorem sliceFrom_of_le {items : List α} {start : Nat} (inside : start ≤ items.length) (s : σ) :
    sliceFrom items start s = .done (items.drop start) s := by
  rw [sliceFrom, if_pos inside]
  rfl

theorem sliceFrom_of_gt {items : List α} {start : Nat} (beyond : ¬start ≤ items.length) (s : σ) :
    sliceFrom items start s = .panicked .bounds := by
  rw [sliceFrom, if_neg beyond]
  rfl

theorem sliceTo_of_le {items : List α} {stop : Nat} (inside : stop ≤ items.length) (s : σ) :
    sliceTo items stop s = .done (items.take stop) s := by
  rw [sliceTo, if_pos inside]
  rfl

theorem slice_of_le {items : List α} {start stop : Nat} (ordered : start ≤ stop)
    (inside : stop ≤ items.length) (s : σ) :
    slice items start stop s = .done ((items.take stop).drop start) s := by
  rw [slice, if_pos ⟨ordered, inside⟩]
  rfl

theorem index_of_lt {items : List α} {i : Nat} (inside : i < items.length) (s : σ) :
    index items i s = .done items[i] s := by
  rw [index, List.getElem?_eq_getElem inside]
  rfl

@[simp] theorem get_bind (f : σ → Exec σ α) (s : σ) : (get >>= f) s = f s s := rfl

@[simp] theorem ret_run (a : α) (s : σ) : (ret a : Exec σ α) s = .done a s := rfl

@[simp] theorem ret_bind (a : α) (f : α → Exec σ β) (s : σ) : (ret a >>= f) s = f a s := rfl

@[simp] theorem modify_bind (f : σ → σ) (next : Unit → Exec σ α) (s : σ) :
    (modify f >>= next) s = next () (f s) := rfl

def unwrap (result : Except β α) : Exec σ α :=
  match result with
  | .ok a => ret a
  | .error _ => panic .unwrap

end Exec

/-- The code does not panic, keeps `I` wherever it stops with a state, and returns
only what `post` admits. Irreducible, so that no proof runs the code by accident. -/
@[irreducible] def Meets (I : σ → Prop) (m : Exec σ α) (post : α → σ → Prop) (s : σ) : Prop :=
  match m s with
  | .done a s' => I s' ∧ post a s'
  | .halted s' => I s'
  | .panicked _ => False
  | .faulted _ => True
  | .exhausted => True

namespace Meets

variable {I : σ → Prop} {post : α → σ → Prop} {s : σ}

theorem ret {a : α} (keeps : I s) (returns : post a s) : Meets I (Exec.ret a) post s := by
  unfold Meets
  exact ⟨keeps, returns⟩

theorem of_done {m : Exec σ α} {a : α} {s' : σ} (ran : m s = .done a s') (keeps : I s')
    (returns : post a s') : Meets I m post s := by
  unfold Meets
  rw [ran]
  exact ⟨keeps, returns⟩

theorem bind {m : Exec σ α} {f : α → Exec σ β} {post : β → σ → Prop}
    (h : Meets I m (fun a s' => Meets I (f a) post s') s) : Meets I (m >>= f) post s := by
  change Meets I (Exec.andThen m f) post s
  unfold Meets at h ⊢
  unfold Exec.andThen
  cases ran : m s with
  | done a s' =>
      rw [ran] at h
      exact h.2
  | halted s' =>
      rw [ran] at h
      exact h
  | panicked why => simp [ran] at h
  | faulted address => trivial
  | exhausted => trivial

theorem mono {m : Exec σ α} {stronger : α → σ → Prop} (h : Meets I m stronger s)
    (weaken : ∀ a s, I s → stronger a s → post a s) : Meets I m post s := by
  unfold Meets at h ⊢
  cases ran : m s with
  | done a s' =>
      rw [ran] at h
      exact ⟨h.1, weaken a s' h.1 h.2⟩
  | halted s' =>
      rw [ran] at h
      exact h
  | panicked why => simp [ran] at h
  | faulted address => trivial
  | exhausted => trivial

/-- In a sequence the first part may be known by its invariant alone. -/
theorem andThen {m : Exec σ α} {f : α → Exec σ β} {post : β → σ → Prop} {between : α → σ → Prop}
    (first : Meets I m between s) (next : ∀ a s, I s → between a s → Meets I (f a) post s) :
    Meets I (m >>= f) post s := bind (mono first next)

theorem get {post : σ → σ → Prop} (keeps : I s) (returns : post s s) :
    Meets I Exec.get post s := by
  unfold Meets
  exact ⟨keeps, returns⟩

theorem modify {f : σ → σ} {post : Unit → σ → Prop} (keeps : I (f s)) (returns : post () (f s)) :
    Meets I (Exec.modify f) post s := by
  unfold Meets
  exact ⟨keeps, returns⟩

theorem halt (keeps : I s) : Meets I (Exec.halt : Exec σ α) post s := by
  unfold Meets
  exact keeps

theorem fault (address : UInt64) : Meets I (Exec.fault address : Exec σ α) post s := by
  unfold Meets
  trivial

theorem exhaust : Meets I (Exec.exhaust : Exec σ α) post s := by
  unfold Meets
  trivial

theorem zoom {J : τ → Prop} {view : σ → τ} {update : τ → σ → σ} {m : Exec τ α}
    {part : α → τ → Prop} (inner : Meets J m part (view s)) (keeps : ∀ t, J t → I (update t s))
    (returns : ∀ a t, J t → part a t → post a (update t s)) :
    Meets I (Exec.zoom view update m) post s := by
  unfold Meets at inner ⊢
  unfold Exec.zoom
  cases ran : m (view s) with
  | done a t =>
      rw [ran] at inner
      exact ⟨keeps t inner.1, returns a t inner.1 inner.2⟩
  | halted t =>
      rw [ran] at inner
      exact keeps t inner
  | panicked why => simp [ran] at inner
  | faulted address => trivial
  | exhausted => trivial

theorem forEach {items : List ι} {body : ι → Exec σ Unit} (keeps : I s)
    (each : ∀ item ∈ items, ∀ s, I s → Meets I (body item) (fun _ _ => True) s) :
    Meets I (Exec.forEach items body) (fun _ _ => True) s := by
  induction items generalizing s with
  | nil => exact ret keeps trivial
  | cons item items ih =>
      refine andThen (each item List.mem_cons_self s keeps) ?_
      intro _ s keeps _
      exact ih keeps (fun other member => each other (List.mem_cons_of_mem item member))

theorem usizeAdd {a b : Nat} {post : Nat → σ → Prop} (fits : a + b < 2 ^ 64) (keeps : I s)
    (returns : post (a + b) s) : Meets I (Exec.usizeAdd a b) post s := by
  unfold Exec.usizeAdd
  rw [if_pos fits]
  exact ret keeps returns

theorem usizeSub {a b : Nat} {post : Nat → σ → Prop} (fits : b ≤ a) (keeps : I s)
    (returns : post (a - b) s) : Meets I (Exec.usizeSub a b) post s := by
  unfold Exec.usizeSub
  rw [if_pos fits]
  exact ret keeps returns

theorem i64Add {a b : Int} {post : Int → σ → Prop} (above : -2 ^ 63 ≤ a + b)
    (below : a + b < 2 ^ 63) (keeps : I s) (returns : post (a + b) s) :
    Meets I (Exec.i64Add a b) post s := by
  unfold Exec.i64Add
  rw [if_pos ⟨above, below⟩]
  exact ret keeps returns

theorem sliceFrom {items : List α} {start : Nat} {post : List α → σ → Prop}
    (inside : start ≤ items.length) (keeps : I s) (returns : post (items.drop start) s) :
    Meets I (Exec.sliceFrom items start) post s := by
  unfold Exec.sliceFrom
  rw [if_pos inside]
  exact ret keeps returns

theorem sliceTo {items : List α} {stop : Nat} {post : List α → σ → Prop}
    (inside : stop ≤ items.length) (keeps : I s) (returns : post (items.take stop) s) :
    Meets I (Exec.sliceTo items stop) post s := by
  unfold Exec.sliceTo
  rw [if_pos inside]
  exact ret keeps returns

end Meets

/-- Code that meets anything does not panic. -/
theorem Meets.not_panicked {I : σ → Prop} {m : Exec σ α} {post : α → σ → Prop} {s : σ}
    (h : Meets I m post s) (why : Panic) : m s ≠ .panicked why := by
  intro panicked
  simp [Meets, panicked] at h

theorem Meets.done {I : σ → Prop} {m : Exec σ α} {post : α → σ → Prop} {s s' : σ} {a : α}
    (h : Meets I m post s) (ran : m s = .done a s') : I s' ∧ post a s' := by
  simpa [Meets, ran] using h

theorem Meets.halted {I : σ → Prop} {m : Exec σ α} {post : α → σ → Prop} {s s' : σ}
    (h : Meets I m post s) (ran : m s = .halted s') : I s' := by
  simpa [Meets, ran] using h

end Checked
