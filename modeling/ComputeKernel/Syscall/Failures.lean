import ComputeKernel.Syscall.Descriptors
import ComputeKernel.Syscall.Panics

/-! Failed system calls change nothing. The handlers are stated once more with replies
that say whether the call failed, and the handlers of the source are these with the
tag dropped. -/
namespace ComputeKernel
open Checked (Exec Returns Within)

/-- The value a handler returns, with the exit it takes: an `Errno` or a result. -/
inductive Reply where
  | failed (errno : Errno)
  | succeeded (value : Int)
  deriving DecidableEq, Repr

def Reply.code : Reply → Int
  | .failed errno => errno.code
  | .succeeded value => value

/-! A process operation that fails leaves the tables as they are. -/
namespace Procs

variable {s : Procs} {message : String}

theorem fork_failed (failed : s.fork.1 = .error message) : s.fork.2 = s := by
  cases found : s.caller with
  | none => rw [fork_of_no_caller found]
  | some parent =>
      rw [fork_of_caller found] at failed
      cases failed

theorem execve_failed {path : String} (failed : (s.execve path).1 = .error message) :
    (s.execve path).2 = s := by
  unfold execve at failed ⊢
  cases found : s.caller with
  | none => rfl
  | some p =>
      rw [found] at failed
      cases failed

theorem kill_failed {pid : UInt32} {sig : UInt8} (failed : (s.kill pid sig).1 = .error message) :
    (s.kill pid sig).2 = s := by
  unfold kill at failed ⊢
  split at failed
  · next high => rw [if_pos high]
  · next low =>
      rw [if_neg low]
      split at failed
      · rfl
      · split at failed <;> cases failed

theorem waitpid_kept (s : Procs) (target : Option UInt32)
    (unreaped : ∀ child, (s.waitpid target).1 ≠ .ok (some child)) : (s.waitpid target).2 = s := by
  unfold waitpid at unreaped ⊢
  split
  · next child =>
      rw [if_pos child] at unreaped
      split
      · next p idx taken =>
          rw [taken] at unreaped
          exact absurd rfl (unreaped (p.pid, p.exitCode))
      · rfl
  · rfl

end Procs

namespace Kernel

def readReply (fd : Int32) (buf count : UInt64) : Exec Kernel Reply :=
  if count = 0 then Exec.ret (.succeeded 0)
  else if buf = 0 then Exec.ret (.failed .fault)
  else do
    fromRawParts buf count
    if fd = 0 then do
      let k ← Exec.get
      let alive ← readFirst buf count.toNat (k.arrivals.length + 1)
      if alive then do
        let read ← readRest buf count.toNat (count.toNat - 1) 1
        Exec.ret (.succeeded (asI64 read))
      else Exec.ret (.failed .intr)
    else do
      let slot ← lookup fd
      match slot with
      | none => Exec.ret (.failed .badF)
      | some (idx, file) => do
          let n ← readNode file buf count.toNat
          let file := { file with offset := saturatingAdd file.offset n }
          Exec.modify (fun k => { k with fdTable := k.fdTable.set idx (some file) })
          Exec.ret (.succeeded (asI64 n))

def writeNodeReply (node : PseudoNode) (buf count : UInt64) : Exec Kernel Reply :=
  match node with
  | .devNull => Exec.ret (.succeeded (asI64 count.toNat))
  | .devZero => Exec.ret (.succeeded (asI64 count.toNat))
  | .devFull => Exec.ret (.failed .noSpc)
  | .devTtyS0 => do
      let bytes ← readBytes buf count.toNat
      Exec.forEach bytes (fun byte => serialPrint [asChar byte])
      Exec.ret (.succeeded (asI64 count.toNat))
  | _ => Exec.ret (.failed .perm)

def writeConsoleReply (buf count : UInt64) : Exec Kernel Reply := do
  fromRawParts buf count
  let bytes ← readBytes buf count.toNat
  match fromUtf8 bytes with
  | some text => do
      serialPrint text.toList
      kprint bytes
      Exec.ret (.succeeded (asI64 count.toNat))
  | none => Exec.ret (.succeeded (asI64 count.toNat))

def writeReply (fd : Int32) (buf count : UInt64) : Exec Kernel Reply :=
  if count = 0 then Exec.ret (.succeeded 0)
  else if buf = 0 then Exec.ret (.failed .fault)
  else if fd = 1 ∨ fd = 2 then writeConsoleReply buf count
  else do
    fromRawParts buf count
    let slot ← lookup fd
    match slot with
    | none => Exec.ret (.failed .badF)
    | some (_, file) => writeNodeReply file.node buf count

def installReply (file : OpenFile) : Exec Kernel Reply := do
  let k ← Exec.get
  match k.fdTable.findIdx? Option.isNone with
  | some idx => do
      Exec.modify (fun k => { k with fdTable := k.fdTable.set idx (some file) })
      let fd ← Exec.i64Add (asI64 idx) 3
      Exec.ret (.succeeded fd)
  | none =>
      if k.fdTable.length + 1 < fdCapacity then do
        Exec.modify (fun k => { k with fdTable := k.fdTable ++ [some file] })
        let last ← Exec.i64Add (asI64 (k.fdTable.length + 1)) (-1)
        let fd ← Exec.i64Add last 3
        Exec.ret (.succeeded fd)
      else Exec.exhaust

def openReply (path : UInt64) (flags : Int32) : Exec Kernel Reply :=
  if path = 0 then Exec.ret (.failed .fault)
  else do
    let text ← readUserCstr path 256
    match text with
    | none => Exec.ret (.failed .fault)
    | some text =>
        match pathNode text with
        | none => Exec.ret (.failed .noEnt)
        | some node =>
            if writeRequested flags && node.readOnly then Exec.ret (.failed .acces)
            else installReply { node, offset := 0 }

def closeReply (fd : Int32) : Exec Kernel Reply :=
  if fd < 3 then Exec.ret (.succeeded 0)
  else do
    let slot ← lookup fd
    match slot with
    | none => Exec.ret (.failed .badF)
    | some (idx, _) => do
        Exec.modify (fun k => { k with fdTable := k.fdTable.set idx none })
        Exec.ret (.succeeded 0)

def getppidReply : Exec Kernel Reply := do
  pending
  let k ← Exec.get
  match k.procs.caller with
  | some p => Exec.ret (.succeeded p.parentPid.toNat)
  | none => Exec.ret (.failed .srch)

def forkReply : Exec Kernel Reply := do
  pending
  let k ← Exec.get
  if k.procs.fork.2.table.length < processCapacity then do
    Exec.modify (fun k => { k with procs := k.procs.fork.2 })
    match k.procs.fork.1 with
    | .ok child => Exec.ret (.succeeded child.toNat)
    | .error _ => Exec.ret (.failed .noSys)
  else Exec.exhaust

def execveReply (path : UInt64) : Exec Kernel Reply :=
  if path = 0 then Exec.ret (.failed .fault)
  else do
    let text ← readUserCstr path 256
    match text with
    | none => Exec.ret (.failed .fault)
    | some text => do
        pending
        let k ← Exec.get
        Exec.modify (fun k => { k with procs := (k.procs.execve text).2 })
        match (k.procs.execve text).1 with
        | .ok _ => Exec.ret (.succeeded 0)
        | .error _ => Exec.ret (.failed .noEnt)

def killReply (pid : UInt32) (sig : UInt8) : Exec Kernel Reply := do
  let result ← kill pid sig
  match result with
  | .ok _ => Exec.ret (.succeeded 0)
  | .error _ => Exec.ret (.failed .srch)

def wait4Reply (pid : Int32) (status : UInt64) : Exec Kernel Reply := do
  let target := if pid ≤ 0 then none else some pid.toUInt32
  let k ← Exec.get
  let result ← waitpid target (k.arrivals.length + 1)
  match result with
  | .ok (child, code) => do
      writeStatus status code
      Exec.ret (.succeeded child.toNat)
  | .error _ => Exec.ret (.failed .srch)

/-- `dispatch` of the calls that can fail. -/
def reply (frame : SyscallFrame) : Exec Kernel Reply :=
  if frame.num = Number.read then readReply (asI32 frame.rdi) frame.rsi frame.rdx
  else if frame.num = Number.write then writeReply (asI32 frame.rdi) frame.rsi frame.rdx
  else if frame.num = Number.open_ then openReply frame.rdi (asI32 frame.rsi)
  else if frame.num = Number.close then closeReply (asI32 frame.rdi)
  else if frame.num = Number.fork then forkReply
  else if frame.num = Number.execve then execveReply frame.rdi
  else if frame.num = Number.wait4 then wait4Reply (asI32 frame.rdi) frame.rsi
  else if frame.num = Number.kill then killReply frame.rdi.toUInt32 frame.rsi.toUInt8
  else if frame.num = Number.getppid then getppidReply
  else Exec.ret (.failed .noSys)

/-- A handler of the source is the typed one with the tag dropped. -/
def Codes (m : Exec Kernel Int) (typed : Exec Kernel Reply) : Prop :=
  m = typed >>= fun reply => Exec.ret reply.code

theorem Codes.ret (reply : Reply) : Codes (Exec.ret reply.code) (Exec.ret reply) := rfl

theorem Codes.bind {m : Exec Kernel α} {f : α → Exec Kernel Int} {typed : α → Exec Kernel Reply}
    (next : ∀ a, Codes (f a) (typed a)) : Codes (m >>= f) (m >>= typed) := by
  unfold Codes
  rw [Exec.bind_assoc]
  exact congrArg (m >>= ·) (funext next)

theorem Codes.value (m : Exec Kernel Int) : Codes m (m >>= fun a => Exec.ret (.succeeded a)) := by
  unfold Codes
  rw [Exec.bind_assoc]
  exact (Exec.bind_ret m).symm

theorem Codes.ite {c : Prop} [Decidable c] {m n : Exec Kernel Int} {typed typed' : Exec Kernel Reply}
    (yes : Codes m typed) (no : Codes n typed') :
    Codes (if c then m else n) (if c then typed else typed') := by
  split
  · exact yes
  · exact no

theorem sysRead_codes (fd : Int32) (buf count : UInt64) :
    Codes (sysRead fd buf count) (readReply fd buf count) := by
  apply Codes.ite (.ret (.succeeded 0))
  apply Codes.ite (.ret (.failed .fault))
  apply Codes.bind
  intro _
  apply Codes.ite
  · apply Codes.bind
    intro k
    apply Codes.bind
    intro alive
    apply Codes.ite
    · exact Codes.bind (fun read => .ret (.succeeded (asI64 read)))
    · exact .ret (.failed .intr)
  · apply Codes.bind
    intro slot
    cases slot with
    | none => exact .ret (.failed .badF)
    | some entry => exact Codes.bind (fun n => Codes.bind (fun _ => .ret (.succeeded (asI64 n))))

theorem writeNode_codes (node : PseudoNode) (buf count : UInt64) :
    Codes (writeNode node buf count) (writeNodeReply node buf count) := by
  cases node with
  | devTtyS0 => exact Codes.bind (fun bytes => Codes.bind (fun _ => .ret (.succeeded (asI64 count.toNat))))
  | _ => rfl

theorem writeConsole_codes (buf count : UInt64) :
    Codes (writeConsole buf count) (writeConsoleReply buf count) := by
  apply Codes.bind
  intro _
  apply Codes.bind
  intro bytes
  cases fromUtf8 bytes with
  | none => exact .ret (.succeeded (asI64 count.toNat))
  | some text => exact Codes.bind (fun _ => Codes.bind (fun _ => .ret (.succeeded (asI64 count.toNat))))

theorem sysWrite_codes (fd : Int32) (buf count : UInt64) :
    Codes (sysWrite fd buf count) (writeReply fd buf count) := by
  apply Codes.ite (.ret (.succeeded 0))
  apply Codes.ite (.ret (.failed .fault))
  apply Codes.ite (writeConsole_codes buf count)
  apply Codes.bind
  intro _
  apply Codes.bind
  intro slot
  cases slot with
  | none => exact .ret (.failed .badF)
  | some entry => exact writeNode_codes entry.2.node buf count

theorem sysClose_codes (fd : Int32) : Codes (sysClose fd) (closeReply fd) := by
  apply Codes.ite (.ret (.succeeded 0))
  apply Codes.bind
  intro slot
  cases slot with
  | none => exact .ret (.failed .badF)
  | some entry => exact Codes.bind (fun _ => .ret (.succeeded 0))

theorem install_codes (file : OpenFile) : Codes (install file) (installReply file) := by
  apply Codes.bind
  intro k
  cases k.fdTable.findIdx? Option.isNone with
  | some idx => exact Codes.bind (fun _ => .value _)
  | none => exact Codes.ite (Codes.bind (fun _ => Codes.bind (fun last => .value _))) rfl

theorem sysOpen_codes (path : UInt64) (flags : Int32) :
    Codes (sysOpen path flags) (openReply path flags) := by
  apply Codes.ite (.ret (.failed .fault))
  apply Codes.bind
  intro text
  cases text with
  | none => exact .ret (.failed .fault)
  | some text =>
      dsimp only
      cases pathNode text with
      | none => exact .ret (.failed .noEnt)
      | some node => exact Codes.ite (.ret (.failed .acces)) (install_codes ⟨node, 0⟩)

theorem sysGetppid_codes : Codes sysGetppid getppidReply := by
  apply Codes.bind
  intro _
  apply Codes.bind
  intro k
  cases k.procs.caller with
  | some p => exact .ret (.succeeded p.parentPid.toNat)
  | none => exact .ret (.failed .srch)

theorem sysFork_codes : Codes sysFork forkReply := by
  apply Codes.bind
  intro _
  apply Codes.bind
  intro k
  refine Codes.ite (Codes.bind (fun _ => ?_)) rfl
  cases k.procs.fork.1 with
  | ok child => exact .ret (.succeeded child.toNat)
  | error message => exact .ret (.failed .noSys)

theorem sysExecve_codes (path : UInt64) : Codes (sysExecve path) (execveReply path) := by
  apply Codes.ite (.ret (.failed .fault))
  apply Codes.bind
  intro text
  cases text with
  | none => exact .ret (.failed .fault)
  | some text =>
      refine Codes.bind (fun _ => Codes.bind (fun k => Codes.bind (fun _ => ?_)))
      cases (k.procs.execve text).1 with
      | ok _ => exact .ret (.succeeded 0)
      | error message => exact .ret (.failed .noEnt)

theorem sysKill_codes (pid : UInt32) (sig : UInt8) : Codes (sysKill pid sig) (killReply pid sig) := by
  apply Codes.bind
  intro result
  cases result with
  | ok _ => exact .ret (.succeeded 0)
  | error message => exact .ret (.failed .srch)

theorem sysWait4_codes (pid : Int32) (status : UInt64) :
    Codes (sysWait4 pid status) (wait4Reply pid status) := by
  apply Codes.bind
  intro k
  apply Codes.bind
  intro result
  cases result with
  | ok child => exact Codes.bind (fun _ => .ret (.succeeded child.1.toNat))
  | error message => exact .ret (.failed .srch)

/-- A failed call leaves the tables to the interrupts; a successful one returns a
value that no `Errno` has. -/
def Answered (k : Kernel) : Reply → Kernel → Prop
  | .failed _, k' => Meanwhile k k'
  | .succeeded value, _ => 0 ≤ value

variable {k : Kernel}

theorem Answered.after {k' k'' : Kernel} {reply : Reply} (first : Meanwhile k k')
    (answered : Answered k' reply k'') : Answered k reply k'' := by
  cases reply with
  | failed errno => exact IsTrans.trans k k' k'' first answered
  | succeeded value => exact answered

theorem Passive.answers {m : Exec Kernel α} {f : α → Exec Kernel Reply} (passive : Passive m)
    (next : ∀ a k', m k = .done a k' → Returns (f a) (Answered k') k') :
    Returns (m >>= f) (Answered k) k := by
  refine Returns.bind (fun a k' ran => ?_)
  exact Returns.mono (next a k' ran) (fun reply k'' => Answered.after (passive.done ran))

theorem failed_answers (errno : Errno) : Returns (Exec.ret (.failed errno)) (Answered k) k :=
  Returns.ret (Std.Refl.refl k)

theorem succeeded_answers {k' : Kernel} {value : Int} (nonneg : 0 ≤ value) :
    Returns (Exec.ret (.succeeded value)) (Answered k) k' := Returns.ret nonneg

theorem asI64_nonneg {value : Nat} (small : value < 2 ^ 63) : 0 ≤ asI64 value := by
  rw [asI64_of_lt small]
  omega

theorem fromRawParts_answers {buf count : UInt64} {next : Exec Kernel Reply}
    (rest : count.toNat < 2 ^ 63 → Returns next (Answered k) k) :
    Returns (fromRawParts buf count >>= fun _ => next) (Answered k) k :=
  Returns.bind (Returns.ite (fun small => Returns.ret (rest small)) (fun _ => Returns.fault buf))

theorem readRest_count (buf : UInt64) (len room read : Nat) :
    Returns (readRest buf len room read) (fun n _ => n ≤ read + room) k := by
  induction room generalizing k read with
  | zero => exact Returns.ret (Nat.le_refl read)
  | succ room ih =>
      refine Returns.bind (fun ch k' _ => ?_)
      cases ch with
      | none => exact Returns.ret (by omega)
      | some ch =>
          refine Returns.bind (fun _ k'' _ => Returns.bind (Returns.usizeAdd ?_))
          refine Returns.ite (fun _ => Returns.ret (by omega)) (fun _ => ?_)
          exact Returns.mono (ih (read + 1)) (fun n _ bound => by omega)

theorem readReply_answers (fd : Int32) (buf count : UInt64) :
    Returns (readReply fd buf count) (Answered k) k := by
  refine Returns.ite (fun _ => succeeded_answers (Int.le_refl 0)) (fun nonzero => ?_)
  refine Returns.ite (fun _ => failed_answers .fault) (fun _ => ?_)
  refine fromRawParts_answers (fun small => ?_)
  have positive : 0 < count.toNat := by
    rw [Nat.pos_iff_ne_zero]
    exact fun zero => nonzero (UInt64.toNat_inj.mp zero)
  refine Returns.ite (fun _ => ?_) (fun _ => ?_)
  · refine Returns.bind (Returns.get ?_)
    refine (passive_readFirst buf _ _).answers (fun alive k' _ => ?_)
    refine Returns.ite (fun _ => ?_) (fun _ => failed_answers .intr)
    refine Returns.andThen (readRest_count buf _ _ 1) (fun read k'' bound => ?_)
    exact succeeded_answers (asI64_nonneg (by omega))
  · refine (passive_lookup fd).answers (fun slot k' _ => ?_)
    cases slot with
    | none => exact failed_answers .badF
    | some entry =>
        refine Returns.andThen (readNode_count entry.2 buf count.toNat) (fun n k'' bound => ?_)
        exact Returns.bind (Returns.modify (succeeded_answers (asI64_nonneg (by omega))))

theorem writeReply_answers (fd : Int32) (buf count : UInt64) :
    Returns (writeReply fd buf count) (Answered k) k := by
  refine Returns.ite (fun _ => succeeded_answers (Int.le_refl 0)) (fun _ => ?_)
  refine Returns.ite (fun _ => failed_answers .fault) (fun _ => ?_)
  refine Returns.ite (fun _ => ?_) (fun _ => ?_)
  · refine fromRawParts_answers (fun small => Returns.bind (fun bytes k' _ => ?_))
    dsimp only
    cases fromUtf8 bytes with
    | none => exact succeeded_answers (asI64_nonneg small)
    | some text =>
        refine Returns.bind (fun _ _ _ => Returns.bind (fun _ _ _ => ?_))
        exact succeeded_answers (asI64_nonneg small)
  · refine fromRawParts_answers (fun small => ?_)
    refine (passive_lookup fd).answers (fun slot k' _ => ?_)
    cases slot with
    | none => exact failed_answers .badF
    | some entry =>
        dsimp only
        cases entry.2.node with
        | devNull => exact succeeded_answers (asI64_nonneg small)
        | devZero => exact succeeded_answers (asI64_nonneg small)
        | devFull => exact failed_answers .noSpc
        | devTtyS0 =>
            refine Returns.bind (fun _ _ _ => Returns.bind (fun _ _ _ => ?_))
            exact succeeded_answers (asI64_nonneg small)
        | _ => exact failed_answers .perm

theorem closeReply_answers (fd : Int32) : Returns (closeReply fd) (Answered k) k := by
  refine Returns.ite (fun _ => succeeded_answers (Int.le_refl 0)) (fun _ => ?_)
  refine (passive_lookup fd).answers (fun slot k' _ => ?_)
  cases slot with
  | none => exact failed_answers .badF
  | some entry => exact Returns.bind (Returns.modify (succeeded_answers (Int.le_refl 0)))

theorem installReply_answers (file : OpenFile) (valid : k.fdTable.length < fdCapacity) :
    Returns (installReply file) (Answered k) k := by
  unfold fdCapacity at valid
  refine Returns.bind (Returns.get ?_)
  cases hole : k.fdTable.findIdx? Option.isNone with
  | some idx =>
      have inside := (List.findIdx?_eq_some_iff_findIdx_eq.mp hole).1
      refine Returns.bind (Returns.modify (Returns.bind (Returns.i64Add ?_)))
      rw [asI64_of_lt (by omega)]
      exact succeeded_answers (by omega)
  | none =>
      refine Returns.ite (fun _ => ?_) (fun _ => Returns.exhaust)
      refine Returns.bind (Returns.modify (Returns.bind (Returns.i64Add (Returns.bind ?_))))
      rw [asI64_of_lt (by omega)]
      exact Returns.i64Add (succeeded_answers (by omega))

theorem openReply_answers (path : UInt64) (flags : Int32) (valid : k.fdTable.length < fdCapacity) :
    Returns (openReply path flags) (Answered k) k := by
  refine Returns.ite (fun _ => failed_answers .fault) (fun _ => ?_)
  refine Returns.andThen (readUserCstr_returns path) (fun text k' => ?_)
  rintro ⟨rfl, _⟩
  cases text with
  | none => exact failed_answers .fault
  | some text =>
      dsimp only
      cases pathNode text with
      | none => exact failed_answers .noEnt
      | some node =>
          refine Returns.ite (fun _ => failed_answers .acces) (fun _ => ?_)
          exact installReply_answers ⟨node, 0⟩ valid

theorem getppidReply_answers : Returns getppidReply (Answered k) k := by
  refine passive_pending.answers (fun _ k' _ => Returns.bind (Returns.get ?_))
  cases k'.procs.caller with
  | some p => exact succeeded_answers (Int.natCast_nonneg _)
  | none => exact failed_answers .srch

theorem forkReply_answers : Returns forkReply (Answered k) k := by
  refine passive_pending.answers (fun _ k' _ => Returns.bind (Returns.get ?_))
  refine Returns.ite (fun _ => Returns.bind (Returns.modify ?_)) (fun _ => Returns.exhaust)
  cases result : k'.procs.fork.1 with
  | ok child => exact succeeded_answers (Int.natCast_nonneg _)
  | error message =>
      rw [Procs.fork_failed result]
      exact failed_answers .noSys

theorem execveReply_answers (path : UInt64) : Returns (execveReply path) (Answered k) k := by
  refine Returns.ite (fun _ => failed_answers .fault) (fun _ => ?_)
  refine Returns.andThen (readUserCstr_returns path) (fun text k' => ?_)
  rintro ⟨rfl, _⟩
  cases text with
  | none => exact failed_answers .fault
  | some text =>
      refine passive_pending.answers (fun _ k'' _ => Returns.bind (Returns.get ?_))
      refine Returns.bind (Returns.modify ?_)
      cases result : (k''.procs.execve text).1 with
      | ok _ => exact succeeded_answers (Int.le_refl 0)
      | error message =>
          rw [Procs.execve_failed result]
          exact failed_answers .noEnt

/-- A section on the process table that keeps it changes nothing else either. -/
theorem Meanwhile.of_procs {k' : Kernel} {procs : Procs} (first : Meanwhile k k')
    (kept : procs = k'.procs) : Meanwhile k { k' with procs } := by
  subst kept
  exact first

theorem kill_fails (pid : UInt32) (sig : UInt8) :
    Returns (kill pid sig) (fun result k' => ∀ message, result = .error message → Meanwhile k k')
      k := by
  refine Returns.ite (fun _ => Returns.ret (fun _ _ => Std.Refl.refl k)) (fun low => ?_)
  refine Returns.andThen (passive_pending k) (fun _ k' passed => ?_)
  refine Returns.zoom (fun result s ran message failed => ?_)
  rw [Procs.killSection_eq pid low] at ran
  cases ran
  exact passed.of_procs (Procs.kill_failed failed)

theorem killReply_answers (pid : UInt32) (sig : UInt8) :
    Returns (killReply pid sig) (Answered k) k := by
  refine Returns.andThen (kill_fails pid sig) (fun result k' failed => ?_)
  cases result with
  | ok _ => exact succeeded_answers (Int.le_refl 0)
  | error message => exact Returns.ret (failed message rfl)

/-- Every iteration of `waitpid` but the last one leaves the tables to the interrupts, and
the last one is one of the process table. -/
theorem waitpid_returns (target : Option UInt32) (fuel : Nat) :
    Returns (waitpid target fuel) (fun result k' => ∃ last, Meanwhile k last ∧
      k' = { last with procs := (last.procs.waitpid target).2 } ∧
      (last.procs.waitpid target).1 = result.map some) k := by
  induction fuel generalizing k with
  | zero => exact Returns.halt
  | succ fuel ih =>
      refine Returns.andThen (passive_pending k) (fun _ k' passed => Returns.bind ?_)
      refine Returns.zoom (fun result s ran => ?_)
      rw [Procs.waitSection_eq target] at ran
      cases ran
      cases outcome : (k'.procs.waitpid target).1 with
      | error message => exact Returns.ret ⟨k', passed, rfl, outcome⟩
      | ok reaped =>
          cases reaped with
          | some child => exact Returns.ret ⟨k', passed, rfl, outcome⟩
          | none =>
              have kept := Procs.waitpid_kept k'.procs target (by simp [outcome])
              have before := passed.of_procs kept
              refine Returns.andThen (passive_hlt _) (fun _ k'' slept => ?_)
              refine Returns.mono ih ?_
              rintro result _ ⟨last, later, rfl, reported⟩
              exact ⟨last, IsTrans.trans _ _ _ (IsTrans.trans _ _ _ before slept) later, rfl, reported⟩

theorem waitpid_fails (target : Option UInt32) (fuel : Nat) :
    Returns (waitpid target fuel)
      (fun result k' => ∀ message, result = .error message → Meanwhile k k') k := by
  refine Returns.mono (waitpid_returns target fuel) ?_
  rintro _ _ ⟨last, passed, rfl, reported⟩ message rfl
  exact passed.of_procs (Procs.waitpid_kept last.procs target (by simp [reported, Except.map]))

theorem wait4Reply_answers (pid : Int32) (status : UInt64) :
    Returns (wait4Reply pid status) (Answered k) k := by
  refine Returns.bind (Returns.get ?_)
  refine Returns.andThen (waitpid_fails _ _) (fun result k' failed => ?_)
  cases result with
  | ok child =>
      exact Returns.bind (fun _ _ _ => succeeded_answers (Int.natCast_nonneg child.1.toNat))
  | error message => exact Returns.ret (failed message rfl)

/-- The calls that can fail. -/
def fallible : List UInt64 :=
  [Number.read, Number.write, Number.open_, Number.close, Number.fork, Number.execve,
    Number.kill, Number.wait4, Number.getppid]

theorem dispatch_codes {frame : SyscallFrame} (call : frame.num ∈ fallible) :
    Codes (dispatch frame) (reply frame) := by
  have notGetpid : frame.num ≠ Number.getpid := by
    intro same
    rw [same] at call
    exact absurd call (by decide)
  have notExit : ¬(frame.num = Number.exit ∨ frame.num = Number.exitGroup) := by
    rintro (same | same) <;> rw [same] at call <;> exact absurd call (by decide)
  have notBrk : frame.num ≠ Number.brk := by
    intro same
    rw [same] at call
    exact absurd call (by decide)
  unfold dispatch reply
  rw [if_neg notGetpid, if_neg notExit, if_neg notBrk]
  apply Codes.ite (sysRead_codes _ _ _)
  apply Codes.ite (sysWrite_codes _ _ _)
  apply Codes.ite (sysOpen_codes _ _)
  apply Codes.ite (sysClose_codes _)
  apply Codes.ite sysFork_codes
  apply Codes.ite (sysExecve_codes _)
  apply Codes.ite (sysWait4_codes _ _)
  apply Codes.ite (sysKill_codes _ _)
  exact Codes.ite sysGetppid_codes (.ret (.failed .noSys))

theorem reply_answers (frame : SyscallFrame) (valid : k.fdTable.length < fdCapacity) :
    Returns (reply frame) (Answered k) k := by
  refine Returns.ite (fun _ => readReply_answers _ _ _) (fun _ => ?_)
  refine Returns.ite (fun _ => writeReply_answers _ _ _) (fun _ => ?_)
  refine Returns.ite (fun _ => openReply_answers _ _ valid) (fun _ => ?_)
  refine Returns.ite (fun _ => closeReply_answers _) (fun _ => ?_)
  refine Returns.ite (fun _ => forkReply_answers) (fun _ => ?_)
  refine Returns.ite (fun _ => execveReply_answers _) (fun _ => ?_)
  refine Returns.ite (fun _ => wait4Reply_answers _ _) (fun _ => ?_)
  refine Returns.ite (fun _ => killReply_answers _ _) (fun _ => ?_)
  exact Returns.ite (fun _ => getppidReply_answers) (fun _ => failed_answers .noSys)

/-- The tables are as before, or what the ticks that arrived made of them. -/
structure Unchanged (k k' : Kernel) : Prop extends Meanwhile k k' where
  undisturbed : (∀ batch ∈ k.arrivals, Irq.timer ∉ batch) → k'.procs = k.procs

theorem Meanwhile.unchanged {k' : Kernel} (passed : Meanwhile k k') : Unchanged k k' where
  toMeanwhile := passed
  undisturbed := by
    intro quiet
    obtain ⟨batches, arrived, ran⟩ := passed.procs
    have none_ : batches.flatten.count .timer = 0 := by
      rw [List.count_eq_zero, List.mem_flatten]
      rintro ⟨batch, member, tick⟩
      exact quiet batch (by simp [arrived, member]) tick
    rw [ran, ticks, none_]
    rfl

/-- A call returns what its reply says. When it failed, only ticks that arrived in the
meantime have changed the tables, and when it succeeded the value is not negative. -/
theorem failed_call_changes_nothing {k k' : Kernel} (reachable : Reachable k)
    {frame : SyscallFrame} (call : frame.num ∈ fallible) {result : Int}
    (ran : dispatch frame k = .done result k') :
    (result < 0 → Unchanged k k') ∧
      ∃ outcome, reply frame k = .done outcome k' ∧ outcome.code = result ∧
        ∀ value, outcome = .succeeded value → 0 ≤ result := by
  rw [dispatch_codes call] at ran
  obtain ⟨outcome, k'', replied, coded⟩ := Exec.done_of_bind ran
  cases coded
  have answered := reply_answers frame reachable.valid.fds outcome k' replied
  cases outcome with
  | failed errno =>
      exact ⟨fun _ => Meanwhile.unchanged answered, _, replied, rfl, fun value same => by cases same⟩
  | succeeded value =>
      refine ⟨fun negative => absurd answered (Int.not_le.mpr negative), _, replied, rfl, ?_⟩
      intro _ _
      exact answered

theorem failed_close_changes_nothing :
    Reachable booted ∧ dispatch (transfer Number.close 5) booted = .done (-9) booted ∧
      Unchanged booted booted := by
  have reachable : Reachable booted := .boot _ _ _ _
  have ran : dispatch (transfer Number.close 5) booted = .done (-9) booted := rfl
  have nothing := failed_call_changes_nothing reachable (by decide) ran
  exact ⟨reachable, ran, nothing.1 (by decide)⟩

/-- A kernel in which the caller has a `SIGKILL` pending, and a tick arrives while it
waits for a key. -/
def killedWhileReading : Kernel :=
  { booted with
    procs := (booted.procs.kill 0 9).2
    arrivals := [[], [], [], [.timer], []] }

theorem killedWhileReading_reachable : Reachable killedWhileReading := by
  have start : Reachable booted := .boot _ _ _ _
  have killed : dispatch { transfer Number.kill 0 with rsi := 9 } booted =
      .done 0 { booted with procs := (booted.procs.kill 0 9).2 } := rfl
  exact .user _ _ (start.returned killed)

/-- A read of standard input that a signal ends has failed, with the caller dead. -/
theorem interrupted_read_changes_table :
    Reachable killedWhileReading ∧
      ∃ k', dispatch (transfer Number.read 0) killedWhileReading = .done (-4) k' ∧
        k'.procs.table ≠ killedWhileReading.procs.table :=
  ⟨killedWhileReading_reachable, _, rfl, by decide⟩

end Kernel
end ComputeKernel
