import Mathlib.Order.Defs.Unbundled
import ComputeKernel.Support.Checked

/-! Partial correctness of checked code: what holds whenever the code returns,
with nothing said of code that panics, faults or never comes back. -/
namespace Checked

variable {σ τ α β ι : Type}

/-- Whenever the code returns, `post` holds of its result and of the state it leaves. -/
def Returns (m : Exec σ α) (post : α → σ → Prop) (s : σ) : Prop :=
  ∀ a s', m s = .done a s' → post a s'

namespace Returns

variable {m : Exec σ α} {post : α → σ → Prop} {s : σ}

theorem ret {a : α} (returns : post a s) : Returns (Exec.ret a) post s := by
  rintro b s' ⟨⟩
  exact returns

theorem bind {f : α → Exec σ β} {post : β → σ → Prop}
    (h : Returns m (fun a s' => Returns (f a) post s') s) : Returns (m >>= f) post s := by
  intro b s'' ran
  obtain ⟨a, s', first, next⟩ := Exec.done_of_bind ran
  exact h a s' first b s'' next

theorem mono {stronger : α → σ → Prop} (h : Returns m stronger s)
    (weaken : ∀ a s', stronger a s' → post a s') : Returns m post s :=
  fun a s' ran => weaken a s' (h a s' ran)

theorem andThen {f : α → Exec σ β} {post : β → σ → Prop} {between : α → σ → Prop}
    (first : Returns m between s) (next : ∀ a s', between a s' → Returns (f a) post s') :
    Returns (m >>= f) post s := bind (mono first next)

theorem get {post : σ → σ → Prop} (returns : post s s) : Returns Exec.get post s := by
  rintro a s' ⟨⟩
  exact returns

theorem modify {f : σ → σ} {post : Unit → σ → Prop} (returns : post () (f s)) :
    Returns (Exec.modify f) post s := by
  rintro a s' ⟨⟩
  exact returns

theorem halt : Returns (Exec.halt : Exec σ α) post s := nofun

theorem fault (address : UInt64) : Returns (Exec.fault address : Exec σ α) post s := nofun

theorem exhaust : Returns (Exec.exhaust : Exec σ α) post s := nofun

theorem panic (why : Panic) : Returns (Exec.panic why : Exec σ α) post s := nofun

theorem ite {c : Prop} [Decidable c] {n : Exec σ α} (yes : c → Returns m post s)
    (no : ¬c → Returns n post s) : Returns (if c then m else n) post s := by
  split
  · next holds => exact yes holds
  · next fails => exact no fails

theorem zoom {m : Exec τ α} {view : σ → τ} {update : τ → σ → σ}
    (inner : Returns m (fun a t => post a (update t s)) (view s)) :
    Returns (Exec.zoom view update m) post s := by
  intro a s' ran
  unfold Exec.zoom at ran
  cases part : m (view s) with
  | done b t =>
      rw [part] at ran
      cases ran
      exact inner _ t part
  | halted t => simp [part] at ran
  | panicked why => simp [part] at ran
  | faulted address => simp [part] at ran
  | exhausted => simp [part] at ran

theorem usizeAdd {a b : Nat} {post : Nat → σ → Prop} (returns : post (a + b) s) :
    Returns (Exec.usizeAdd a b) post s := ite (fun _ => ret returns) (fun _ => panic _)

theorem usizeSub {a b : Nat} {post : Nat → σ → Prop} (returns : b ≤ a → post (a - b) s) :
    Returns (Exec.usizeSub a b) post s := ite (fun fits => ret (returns fits)) (fun _ => panic _)

theorem i64Add {a b : Int} {post : Int → σ → Prop} (returns : post (a + b) s) :
    Returns (Exec.i64Add a b) post s := ite (fun _ => ret returns) (fun _ => panic _)

theorem sliceFrom {items : List α} {start : Nat} {post : List α → σ → Prop}
    (returns : start ≤ items.length → post (items.drop start) s) :
    Returns (Exec.sliceFrom items start) post s :=
  ite (fun inside => ret (returns inside)) (fun _ => panic _)

theorem sliceTo {items : List α} {stop : Nat} {post : List α → σ → Prop}
    (returns : stop ≤ items.length → post (items.take stop) s) :
    Returns (Exec.sliceTo items stop) post s :=
  ite (fun inside => ret (returns inside)) (fun _ => panic _)

end Returns

/-- Whenever the code returns, the state it leaves is related to the one it found. -/
def Within (R : σ → σ → Prop) (m : Exec σ α) : Prop := ∀ s, Returns m (fun _ s' => R s s') s

namespace Within

variable {R : σ → σ → Prop} {m : Exec σ α}

theorem done (h : Within R m) {s s' : σ} {a : α} (ran : m s = .done a s') : R s s' := h s a s' ran

theorem halt : Within R (Exec.halt : Exec σ α) := fun _ => Returns.halt

theorem fault (address : UInt64) : Within R (Exec.fault address : Exec σ α) :=
  fun _ => Returns.fault address

theorem panic (why : Panic) : Within R (Exec.panic why : Exec σ α) := fun _ => Returns.panic why

theorem modify {f : σ → σ} (moves : ∀ s, R s (f s)) : Within R (Exec.modify f) :=
  fun s => Returns.modify (moves s)

theorem ite {c : Prop} [Decidable c] {n : Exec σ α} (yes : c → Within R m) (no : ¬c → Within R n) :
    Within R (if c then m else n) :=
  fun s => Returns.ite (fun holds => yes holds s) (fun fails => no fails s)

theorem get_bind {f : σ → Exec σ α} (next : ∀ s, Returns (f s) (fun _ s' => R s s') s) :
    Within R (Exec.get >>= f) := fun s => Returns.bind (Returns.get (next s))

section Preorder

variable [refl : Std.Refl R] [trans : IsTrans σ R]

omit trans in
theorem ret (a : α) : Within R (Exec.ret a) := fun s => Returns.ret (refl.refl s)

omit refl in
theorem bind {f : α → Exec σ β} (first : Within R m) (next : ∀ a, Within R (f a)) :
    Within R (m >>= f) := by
  intro s
  refine Returns.andThen (first s) (fun a s' step => ?_)
  exact Returns.mono (next a s') (fun b s'' step' => trans.trans s s' s'' step step')

theorem forEach {items : List ι} {body : ι → Exec σ Unit} (each : ∀ item, Within R (body item)) :
    Within R (Exec.forEach items body) := by
  induction items with
  | nil => exact ret ()
  | cons item items ih => exact bind (each item) (fun _ => ih)

omit trans in
theorem usizeAdd (a b : Nat) : Within R (Exec.usizeAdd a b) :=
  fun s => Returns.usizeAdd (refl.refl s)

omit trans in
theorem usizeSub (a b : Nat) : Within R (Exec.usizeSub a b) :=
  fun s => Returns.usizeSub (fun _ => refl.refl s)

end Preorder
end Within
end Checked
