import ComputeKernel.Support.Slots
import ComputeKernel.Syscall.Meanwhile
import ComputeKernel.Syscall.Safety

/-! The descriptor table read as a partial map from descriptors to open files, and
the calls on it as steps of that map. -/
namespace ComputeKernel.Kernel
open Checked (Exec Returns Within)

/-- The calls that work on the descriptor table. -/
inductive FdCall where
  | open_ (path : UInt64) (flags : Int32)
  | read (fd : Int32) (buf count : UInt64)
  | write (fd : Int32) (buf count : UInt64)
  | close (fd : Int32)

def FdCall.exec : FdCall → Exec Kernel Int
  | .open_ path flags => sysOpen path flags
  | .read fd buf count => sysRead fd buf count
  | .write fd buf count => sysWrite fd buf count
  | .close fd => sysClose fd

/-- A call that returned, with the kernel before and after it. -/
structure FdEvent where
  call : FdCall
  before : Kernel
  result : Int
  after : Kernel

abbrev FdMap := Int → Option OpenFile

/-- The map that a table stands for. -/
def descriptors (table : List (Option OpenFile)) : FdMap :=
  fun d => if d < 3 then none else Slots.get table (d - 3).toNat

/-- The text that user memory holds at an address, when it can be read as a path. -/
def pathAt (k : Kernel) (path : UInt64) : Option String :=
  match readUserCstr path 256 k with
  | .done text _ => text
  | _ => none

/-- What each call does to the map, and what it returns. -/
inductive MapStep (named : UInt64 → Option String) : FdMap → FdCall → Int → FdMap → Prop
  | opened {m path flags text node d} (name : named path = some text)
      (found : pathNode text = some node) (allowed : (writeRequested flags && node.readOnly) = false)
      (least : IsLeast {d | 3 ≤ d ∧ m d = none} d) (fits : d < 2 ^ 31) :
      MapStep named m (.open_ path flags) d (Function.update m d (some ⟨node, 0⟩))
  | unreadable {m path flags} (unnamed : named path = none) :
      MapStep named m (.open_ path flags) Errno.fault.code m
  | unknown {m path flags text} (name : named path = some text) (missing : pathNode text = none) :
      MapStep named m (.open_ path flags) Errno.noEnt.code m
  | refused {m path flags text node} (name : named path = some text)
      (found : pathNode text = some node) (denied : (writeRequested flags && node.readOnly) = true) :
      MapStep named m (.open_ path flags) Errno.acces.code m
  | read {m fd buf count file} {n : Nat} (nonstandard : 3 ≤ fd.toInt)
      (bound : m fd.toInt = some file) (inside : n ≤ count.toNat) :
      MapStep named m (.read fd buf count) n
        (Function.update m fd.toInt (some { file with offset := saturatingAdd file.offset n }))
  | readNothing {m fd buf count result} (idle : result ≤ 0 ∨ fd = 0) :
      MapStep named m (.read fd buf count) result m
  | write {m fd buf count result} : MapStep named m (.write fd buf count) result m
  | closed {m fd file} (nonstandard : 3 ≤ fd.toInt) (bound : m fd.toInt = some file) :
      MapStep named m (.close fd) 0 (Function.update m fd.toInt none)
  | notOpen {m fd} (nonstandard : 3 ≤ fd.toInt) (unbound : m fd.toInt = none) :
      MapStep named m (.close fd) Errno.badF.code m
  | closedStandard {m fd} (standard : fd.toInt < 3) : MapStep named m (.close fd) 0 m

/-- The calls one after another on the map. -/
inductive MapRun : FdMap → List FdEvent → FdMap → Prop
  | nil {m} : MapRun m [] m
  | cons {m m' m'' event events} (step : MapStep event.before.pathAt m event.call event.result m')
      (rest : MapRun m' events m'') : MapRun m (event :: events) m''

/-- The calls one after another on the kernel. Between two calls the kernel may do
anything that leaves the descriptor table alone, and fewer than `2 ^ 31 - 3` files
are ever open at once. -/
inductive History : List (Option OpenFile) → List FdEvent → List (Option OpenFile) → Prop
  | nil {table} : History table [] table
  | cons {table event events last} (found : event.before.fdTable = table)
      (ran : event.call.exec event.before = .done event.result event.after)
      (few : Slots.used event.after.fdTable < 2 ^ 31 - 3)
      (rest : History event.after.fdTable events last) : History table (event :: events) last

variable {k : Kernel} {table : List (Option OpenFile)}

theorem descriptors_nil : descriptors [] = fun _ => none := by
  funext d
  simp [descriptors, Slots.get_nil]

theorem descriptors_of_three {d : Int} (file : 3 ≤ d) :
    descriptors table d = Slots.get table (d - 3).toNat := if_neg (by omega)

theorem descriptors_of_held {d : Int} {idx : Nat} {file : OpenFile} (place : d = idx + 3)
    (held : table[idx]? = some (some file)) : descriptors table d = some file := by
  rw [descriptors_of_three (by omega), show (d - 3).toNat = idx by omega, Slots.get, held]
  rfl

theorem three_le_of_bound {d : Int} {file : OpenFile} (bound : descriptors table d = some file) :
    3 ≤ d := by
  unfold descriptors at bound
  split at bound
  · cases bound
  · omega

/-- An update of the slot of a descriptor is an update of the map. -/
theorem descriptors_update {table' : List (Option OpenFile)} {i : Nat} {d : Int}
    {slot : Option OpenFile} (place : d = i + 3)
    (updated : Slots.get table' = Function.update (Slots.get table) i slot) :
    descriptors table' = Function.update (descriptors table) d slot := by
  funext e
  by_cases same : e = d
  · subst same
    rw [Function.update_self, descriptors_of_three (by omega), updated,
      show (e - 3).toNat = i by omega, Function.update_self]
  · rw [Function.update_of_ne same]
    unfold descriptors
    split
    · rfl
    · rw [updated, Function.update_of_ne (by omega)]

/-- The least free slot is the least free descriptor. -/
theorem firstFree_isLeast_descriptor :
    IsLeast {d | 3 ≤ d ∧ descriptors table d = none} (Slots.firstFree table + 3 : Int) := by
  obtain ⟨free, least⟩ := Slots.firstFree_isLeast table
  constructor
  · refine ⟨by omega, ?_⟩
    rw [descriptors_of_three (by omega)]
    simpa using free
  · rintro d ⟨file, unbound⟩
    rw [descriptors_of_three file] at unbound
    have below := least unbound
    omega

theorem readUserBytes_keeps (left : Nat) (ptr : UInt64) (bytes : List UInt8) :
    Within Eq (readUserBytes left ptr bytes) := by
  induction left generalizing ptr bytes with
  | zero => exact Within.ret none
  | succ left ih =>
      have read : Within Eq (readByte ptr) := by
        refine Within.get_bind (fun k => ?_)
        split
        · exact Returns.ret rfl
        · exact Returns.fault ptr
      apply Within.bind read
      intro b
      exact Within.ite (fun _ => Within.ret _) (fun _ => ih _ _)

theorem readUserCstr_keeps (ptr : UInt64) (maxLen : Nat) : Within Eq (readUserCstr ptr maxLen) :=
  Within.ite (fun _ => Within.ret none) (fun _ => readUserBytes_keeps maxLen ptr [])

/-- Reading a path leaves the kernel as it is, and gives what `pathAt` says. -/
theorem readUserCstr_returns (path : UInt64) :
    Returns (readUserCstr path 256) (fun text k' => k' = k ∧ text = k.pathAt path) k := by
  intro text k' ran
  refine ⟨((readUserCstr_keeps path 256).done ran).symm, ?_⟩
  simp only [pathAt, ran]

/-- A descriptor is looked up in the slot it stands for. -/
theorem lookup_returns (fd : Int32) (small : k.fdTable.length < fdCapacity) :
    Returns (lookup fd) (fun slot k' => k' = k ∧
      match slot with
      | some (idx, file) => fd.toInt = idx + 3 ∧ k.fdTable[idx]? = some (some file)
      | none => descriptors k.fdTable fd.toInt = none) k := by
  have value := asUsize_eq fd
  have above := Int32.le_toInt fd
  unfold fdCapacity at small
  refine Returns.bind (Returns.usizeSub (fun file => Returns.bind (Returns.get ?_)))
  split
  · next entry held =>
      have inside := (List.getElem?_eq_some_iff.mp held).1
      refine Returns.ret ⟨rfl, ?_, held⟩
      split at value <;> omega
  · next missing =>
      refine Returns.ret ⟨rfl, ?_⟩
      change descriptors k.fdTable fd.toInt = none
      unfold descriptors
      split
      · rfl
      next nonstandard =>
      have place : (fd.toInt - 3).toNat = asUsize fd - 3 := by split at value <;> omega
      rw [place]
      unfold Slots.get
      rcases slot : k.fdTable[asUsize fd - 3]? with _ | _ | entry
      · rfl
      · rfl
      · exact absurd slot (missing entry)

/-- What a call that returned has done. A read or a write that reaches a file has left
the rest to the file. -/
inductive Effect (k : Kernel) : FdCall → Int → Kernel → Prop
  | opened {path flags text node k'} (name : k.pathAt path = some text)
      (found : pathNode text = some node) (allowed : (writeRequested flags && node.readOnly) = false)
      (placed : k'.fdTable = Slots.place k.fdTable ⟨node, 0⟩) (room : k'.fdTable.length < fdCapacity) :
      Effect k (.open_ path flags) (Slots.firstFree k.fdTable + 3) k'
  | unreadable {path flags} (unnamed : k.pathAt path = none) :
      Effect k (.open_ path flags) Errno.fault.code k
  | unknown {path flags text} (name : k.pathAt path = some text) (missing : pathNode text = none) :
      Effect k (.open_ path flags) Errno.noEnt.code k
  | refused {path flags text node} (name : k.pathAt path = some text)
      (found : pathNode text = some node) (denied : (writeRequested flags && node.readOnly) = true) :
      Effect k (.open_ path flags) Errno.acces.code k
  | read {fd buf count file n last k'} (bound : descriptors k.fdTable fd.toInt = some file)
      (nonzero : count ≠ 0) (nonnull : buf ≠ 0) (small : count.toNat < 2 ^ 63)
      (ran : readNode file buf count.toNat k = .done n last) (memory : k'.memory = last.memory)
      (length : k'.fdTable.length = k.fdTable.length)
      (moved : descriptors k'.fdTable = Function.update (descriptors k.fdTable) fd.toInt
        (some { file with offset := saturatingAdd file.offset n })) :
      Effect k (.read fd buf count) (asI64 n) k'
  | readNothing {fd buf count result k'} (idle : result ≤ 0 ∨ fd = 0)
      (why : count = 0 ∨ buf = 0 ∨ descriptors k.fdTable fd.toInt = none)
      (same : k'.fdTable = k.fdTable) : Effect k (.read fd buf count) result k'
  | write {fd buf count file result k'} (bound : descriptors k.fdTable fd.toInt = some file)
      (nonzero : count ≠ 0) (nonnull : buf ≠ 0) (small : count.toNat < 2 ^ 63)
      (ran : writeNode file.node buf count k = .done result k') (same : k'.fdTable = k.fdTable) :
      Effect k (.write fd buf count) result k'
  | writeNothing {fd buf count result k'} (idle : result ≤ 0 ∨ fd.toInt < 3)
      (why : count = 0 ∨ buf = 0 ∨ descriptors k.fdTable fd.toInt = none)
      (same : k'.fdTable = k.fdTable) : Effect k (.write fd buf count) result k'
  | closed {fd file k'} (bound : descriptors k.fdTable fd.toInt = some file)
      (length : k'.fdTable.length = k.fdTable.length)
      (cleared : descriptors k'.fdTable = Function.update (descriptors k.fdTable) fd.toInt none) :
      Effect k (.close fd) 0 k'
  | notOpen {fd} (nonstandard : 3 ≤ fd.toInt) (unbound : descriptors k.fdTable fd.toInt = none) :
      Effect k (.close fd) Errno.badF.code k
  | closedStandard {fd} (standard : fd.toInt < 3) : Effect k (.close fd) 0 k

/-- While few files are open the table stays short, and the call is a step of the map. -/
def Refines (k : Kernel) (call : FdCall) (result : Int) (k' : Kernel) : Prop :=
  Slots.used k'.fdTable < 2 ^ 31 - 3 →
    k'.fdTable.length < 2 ^ 31 - 3 ∧
      MapStep k.pathAt (descriptors k.fdTable) call result (descriptors k'.fdTable)

/-- A call that leaves the table alone is a step that leaves the map alone. -/
theorem Refines.still {k' : Kernel} {call : FdCall} {result : Int}
    (small : k.fdTable.length < 2 ^ 31 - 3) (same : k'.fdTable = k.fdTable)
    (step : MapStep k.pathAt (descriptors k.fdTable) call result (descriptors k.fdTable)) :
    Refines k call result k' := by
  intro _
  rw [same]
  exact ⟨small, step⟩

theorem below_fdCapacity (small : k.fdTable.length < 2 ^ 31 - 3) : k.fdTable.length < fdCapacity := by
  unfold fdCapacity
  omega

theorem install_returns (file : OpenFile) (small : k.fdTable.length < fdCapacity) :
    Returns (install file) (fun result k' => k'.fdTable = Slots.place k.fdTable file ∧
      k'.fdTable.length < fdCapacity ∧ result = Slots.firstFree k.fdTable + 3) k := by
  unfold fdCapacity at small ⊢
  refine Returns.bind (Returns.get ?_)
  unfold Slots.place Slots.firstFree
  cases hole : k.fdTable.findIdx? Option.isNone with
  | some idx =>
      have inside := (List.findIdx?_eq_some_iff_findIdx_eq.mp hole).1
      refine Returns.bind (Returns.modify (Returns.i64Add ⟨rfl, ?_, ?_⟩))
      · rw [List.length_set]
        exact small
      · rw [asI64_of_lt (by omega)]
        rfl
  | none =>
      refine Returns.ite (fun room => ?_) (fun _ => Returns.exhaust)
      refine Returns.bind (Returns.modify (Returns.bind (Returns.i64Add (Returns.i64Add ⟨rfl, ?_, ?_⟩))))
      · rw [List.length_append]
        exact room
      · rw [asI64_of_lt (by omega)]
        change ((k.fdTable.length + 1 : Nat) : Int) + -1 + 3 = k.fdTable.length + 3
        omega

section Effects

variable (small : k.fdTable.length < fdCapacity)
include small

theorem sysOpen_effect (path : UInt64) (flags : Int32) :
    Returns (sysOpen path flags) (Effect k (.open_ path flags)) k := by
  refine Returns.ite (fun null => ?_) (fun _ => ?_)
  · have unnamed : k.pathAt path = none := by simp [pathAt, readUserCstr, null]
    exact Returns.ret (.unreadable unnamed)
  refine Returns.andThen (readUserCstr_returns path) (fun text k' => ?_)
  rintro ⟨rfl, name⟩
  cases text with
  | none => exact Returns.ret (.unreadable name.symm)
  | some text =>
      cases found : pathNode text with
      | none =>
          simp only [found]
          exact Returns.ret (.unknown name.symm found)
      | some node =>
          simp only [found]
          refine Returns.ite (fun denied => ?_) (fun allowed => ?_)
          · exact Returns.ret (.refused name.symm found denied)
          refine Returns.mono (install_returns ⟨node, 0⟩ small) ?_
          rintro _ k'' ⟨placed, room, rfl⟩
          exact .opened name.symm found (by simpa using allowed) placed room

theorem sysRead_effect (fd : Int32) (buf count : UInt64) :
    Returns (sysRead fd buf count) (Effect k (.read fd buf count)) k := by
  refine Returns.ite (fun zero => Returns.ret (.readNothing (.inl (by omega)) (.inl zero) rfl)) ?_
  intro nonzero
  refine Returns.ite (fun null => Returns.ret (.readNothing (.inl (by decide)) (.inr (.inl null)) rfl)) ?_
  intro nonnull
  refine Returns.bind (Returns.ite (fun bounded => Returns.ret ?_) (fun _ => Returns.fault buf))
  refine Returns.ite (fun stdin => ?_) (fun _ => ?_)
  · refine Returns.mono (passive_readStdin buf count.toNat k) (fun result k' passed => ?_)
    refine .readNothing (.inr stdin) (.inr (.inr ?_)) passed.fds
    rw [stdin]
    rfl
  refine Returns.andThen (lookup_returns fd small) (fun slot k' => ?_)
  rintro ⟨rfl, found⟩
  cases slot with
  | none => exact Returns.ret (.readNothing (.inl (by decide)) (.inr (.inr found)) rfl)
  | some entry =>
      obtain ⟨idx, file⟩ := entry
      obtain ⟨place, held⟩ := found
      have inside := (List.getElem?_eq_some_iff.mp held).1
      refine Returns.bind (fun n k'' ran => Returns.bind (Returns.modify (Returns.ret ?_)))
      have kept := ((passive_readNode file buf count.toNat).done ran).fds
      refine .read (descriptors_of_held place held) nonzero nonnull bounded ran rfl ?_ ?_
      · dsimp only
        rw [kept, List.length_set]
      · dsimp only
        rw [kept]
        exact descriptors_update place (Slots.get_set inside _)

theorem sysWrite_effect (fd : Int32) (buf count : UInt64) :
    Returns (sysWrite fd buf count) (Effect k (.write fd buf count)) k := by
  refine Returns.ite (fun zero => Returns.ret (.writeNothing (.inl (by omega)) (.inl zero) rfl)) ?_
  intro nonzero
  refine Returns.ite (fun null => Returns.ret (.writeNothing (.inl (by decide)) (.inr (.inl null)) rfl)) ?_
  intro nonnull
  refine Returns.ite (fun console => ?_) (fun _ => ?_)
  · refine Returns.mono (passive_writeConsole buf count k) (fun result k' passed => ?_)
    rcases console with rfl | rfl
    · exact .writeNothing (.inr (by decide)) (.inr (.inr rfl)) passed.fds
    · exact .writeNothing (.inr (by decide)) (.inr (.inr rfl)) passed.fds
  refine Returns.bind (Returns.ite (fun bounded => Returns.ret ?_) (fun _ => Returns.fault buf))
  refine Returns.andThen (lookup_returns fd small) (fun slot k' => ?_)
  rintro ⟨rfl, found⟩
  cases slot with
  | none => exact Returns.ret (.writeNothing (.inl (by decide)) (.inr (.inr found)) rfl)
  | some entry =>
      intro result k'' ran
      have bound := descriptors_of_held found.1 found.2
      exact .write bound nonzero nonnull bounded ran ((passive_writeNode _ _ _).done ran).fds

theorem sysClose_effect (fd : Int32) : Returns (sysClose fd) (Effect k (.close fd)) k := by
  refine Returns.ite (fun standard => ?_) (fun nonstandard => ?_)
  · exact Returns.ret (.closedStandard (Int32.lt_iff_toInt_lt.mp standard))
  have file_ : 3 ≤ fd.toInt := by
    rw [Int32.lt_iff_toInt_lt, show (3 : Int32).toInt = 3 from rfl] at nonstandard
    omega
  refine Returns.andThen (lookup_returns fd small) (fun slot k' => ?_)
  rintro ⟨rfl, found⟩
  cases slot with
  | none => exact Returns.ret (.notOpen file_ found)
  | some entry =>
      obtain ⟨place, held⟩ := found
      have inside := (List.getElem?_eq_some_iff.mp held).1
      refine Returns.bind (Returns.modify (Returns.ret ?_))
      exact .closed (descriptors_of_held place held) List.length_set
        (descriptors_update place (Slots.get_set inside none))

theorem exec_effect (call : FdCall) : Returns call.exec (Effect k call) k := by
  cases call with
  | open_ path flags => exact sysOpen_effect small path flags
  | read fd buf count => exact sysRead_effect small fd buf count
  | write fd buf count => exact sysWrite_effect small fd buf count
  | close fd => exact sysClose_effect small fd

end Effects

theorem readStatic_count (buf : UInt64) (len : Nat) (offset : UInt64) (content : List UInt8) :
    Returns (readStatic buf len offset content) (fun n _ => n ≤ len) k := by
  refine Returns.ite (fun _ => Returns.ret (Nat.zero_le len)) (fun _ => ?_)
  refine Returns.bind (Returns.sliceFrom (fun _ => Returns.bind (Returns.sliceTo (fun _ => ?_))))
  refine Returns.bind (fun _ k' _ => Returns.ret (Nat.min_le_right _ _))

theorem readNode_count (file : OpenFile) (buf : UInt64) (len : Nat) :
    Returns (readNode file buf len) (fun n _ => n ≤ len) k := by
  unfold readNode
  cases file.node with
  | procVersion => exact readStatic_count buf len _ _
  | procUptime => exact Returns.bind (Returns.get (readStatic_count buf len _ _))
  | procMeminfo => exact readStatic_count buf len _ _
  | sysHostname => exact readStatic_count buf len _ _
  | devNull => exact Returns.ret (Nat.zero_le len)
  | devZero => exact Returns.bind (fun _ _ _ => Returns.ret (Nat.le_refl len))
  | devFull => exact Returns.bind (fun _ _ _ => Returns.ret (Nat.le_refl len))
  | devTtyS0 => exact Returns.ret (Nat.zero_le len)

/-- One call is one step of the map. -/
theorem Effect.refines {call : FdCall} {result : Int} {k' : Kernel}
    (effect : Effect k call result k') (small : k.fdTable.length < 2 ^ 31 - 3) :
    Refines k call result k' := by
  cases effect with
  | @opened path flags text node _ name found allowed placed room =>
      intro few
      rw [placed] at few ⊢
      have short : (Slots.place k.fdTable ⟨node, 0⟩).length ≤ 2 ^ 31 - 4 := by
        apply Slots.place_length_le
        · omega
        · omega
      have inside := Slots.firstFree_lt_place k.fdTable ⟨node, 0⟩
      refine ⟨by omega, ?_⟩
      rw [descriptors_update rfl (Slots.get_place _)]
      exact .opened name found allowed firstFree_isLeast_descriptor (by omega)
  | unreadable unnamed => exact .still small rfl (.unreadable unnamed)
  | unknown name missing => exact .still small rfl (.unknown name missing)
  | refused name found denied => exact .still small rfl (.refused name found denied)
  | @read fd buf count file n last _ bound _ _ bounded ran _ length moved =>
      have room := readNode_count file buf count.toNat n last ran
      intro _
      rw [asI64_of_lt (by omega), length, moved]
      exact ⟨small, .read (three_le_of_bound bound) bound room⟩
  | readNothing idle _ same => exact .still small same (.readNothing idle)
  | write _ _ _ _ _ same => exact .still small same .write
  | writeNothing _ _ same => exact .still small same .write
  | closed bound length cleared =>
      intro _
      rw [length, cleared]
      exact ⟨small, .closed (three_le_of_bound bound) bound⟩
  | notOpen nonstandard unbound => exact .still small rfl (.notOpen nonstandard unbound)
  | closedStandard standard => exact .still small rfl (.closedStandard standard)

theorem history_refines {last : List (Option OpenFile)} {events : List FdEvent}
    (history : History table events last) (small : table.length < 2 ^ 31 - 3) :
    last.length < 2 ^ 31 - 3 ∧ MapRun (descriptors table) events (descriptors last) := by
  induction history with
  | nil => exact ⟨small, .nil⟩
  | cons found ran few rest ih =>
      subst found
      have effect := exec_effect (below_fdCapacity small) _ _ _ ran
      obtain ⟨short, step⟩ := effect.refines small few
      obtain ⟨bounded, steps⟩ := ih short
      exact ⟨bounded, .cons step steps⟩

theorem lookup_total {fd : Int32} (nonstandard : 3 ≤ asUsize fd) (k : Kernel) :
    ∃ slot, lookup fd k = .done slot k := by
  have offset : (Exec.usizeSub (asUsize fd) 3 : Exec Kernel Nat) k = .done (asUsize fd - 3) k := by
    simp [Exec.usizeSub, nonstandard]
  unfold lookup
  rw [Exec.bind_of_done offset, Exec.get_bind]
  rcases k.fdTable[asUsize fd - 3]? with _ | _ | file
  · exact ⟨none, rfl⟩
  · exact ⟨none, rfl⟩
  · exact ⟨some (_, file), rfl⟩

theorem sysClose_total (fd : Int32) (k : Kernel) : ∃ result k', sysClose fd k = .done result k' := by
  unfold sysClose
  split
  · exact ⟨0, k, rfl⟩
  next notStandard =>
  have nonstandard : 3 ≤ asUsize fd := by
    rw [← Nat.not_lt, asUsize_lt_three]
    rintro (rfl | rfl | rfl) <;> exact notStandard (by decide)
  obtain ⟨slot, found⟩ := lookup_total nonstandard k
  rw [Exec.bind_of_done found]
  cases slot with
  | none => exact ⟨_, k, rfl⟩
  | some entry => exact ⟨0, _, rfl⟩

theorem install_total (file : OpenFile) (room : k.fdTable.length + 1 < fdCapacity) :
    ∃ result k', install file k = .done result k' := by
  have small : k.fdTable.length + 1 < 2 ^ 59 := room
  unfold install
  rw [Exec.get_bind]
  cases hole : k.fdTable.findIdx? Option.isNone with
  | some idx =>
      have inside := (List.findIdx?_eq_some_iff_findIdx_eq.mp hole).1
      simp only [Exec.modify_bind, Exec.i64Add]
      rw [asI64_of_lt (by omega), if_pos (by omega)]
      exact ⟨_, _, rfl⟩
  | none =>
      simp only [if_pos room, Exec.modify_bind, Exec.i64Add]
      rw [asI64_of_lt (by omega), if_pos (by omega), Exec.ret_bind, if_pos (by omega)]
      exact ⟨_, _, rfl⟩

theorem sysOpen_total {path : UInt64} {text : Option String} (flags : Int32)
    (readable : readUserCstr path 256 k = .done text k)
    (room : k.fdTable.length + 1 < fdCapacity) :
    ∃ result k', sysOpen path flags k = .done result k' := by
  unfold sysOpen
  split
  · exact ⟨_, k, rfl⟩
  rw [Exec.bind_of_done readable]
  cases text with
  | none => exact ⟨_, k, rfl⟩
  | some text =>
      cases found : pathNode text with
      | none =>
          simp only [found]
          exact ⟨_, k, rfl⟩
      | some node =>
          simp only [found]
          split
          · exact ⟨_, k, rfl⟩
          · exact install_total ⟨node, 0⟩ room

/-- The table refines a finite map: whatever calls are made from the empty table,
their results and effects are those of the map, and after them `close` returns for
every descriptor and `open` for every path that can be read. -/
theorem fdTable_refines_map {events : List FdEvent} (history : History [] events table) :
    MapRun (fun _ => none) events (descriptors table) ∧
      ∀ k : Kernel, k.fdTable = table →
        (∀ fd, ∃ result k', sysClose fd k = .done result k') ∧
        ∀ path flags text, readUserCstr path 256 k = .done text k →
          ∃ result k', sysOpen path flags k = .done result k' := by
  obtain ⟨short, run⟩ := history_refines history (by decide)
  rw [descriptors_nil] at run
  refine ⟨run, fun k found => ⟨fun fd => sysClose_total fd k, ?_⟩⟩
  intro path flags text readable
  apply sysOpen_total flags readable
  rw [found]
  unfold fdCapacity
  omega

/-- A kernel whose user memory holds the path `/dev/null`, with a table of its own. -/
def nullAt64 (fdTable : List (Option OpenFile)) : Kernel :=
  { boot (fun _ => none) (fun _ => 0)
      (fun address => (asciiBytes "/dev/null" ++ [0])[address.toNat - 64]?) [] with fdTable }

/-- Two opens, then the first descriptor is closed and given out again. -/
theorem fdTable_refines_map_reopen :
    ∃ events, events.map FdEvent.result = [3, 4, 0, 3] ∧
      History [] events [some ⟨.devNull, 0⟩, some ⟨.devNull, 0⟩] ∧
      MapRun (fun _ => none) events (descriptors [some ⟨.devNull, 0⟩, some ⟨.devNull, 0⟩]) := by
  have history : History []
      [⟨.open_ 64 0, nullAt64 [], 3, nullAt64 [some ⟨.devNull, 0⟩]⟩,
        ⟨.open_ 64 0, nullAt64 [some ⟨.devNull, 0⟩], 4,
          nullAt64 [some ⟨.devNull, 0⟩, some ⟨.devNull, 0⟩]⟩,
        ⟨.close 3, nullAt64 [some ⟨.devNull, 0⟩, some ⟨.devNull, 0⟩], 0,
          nullAt64 [none, some ⟨.devNull, 0⟩]⟩,
        ⟨.open_ 64 0, nullAt64 [none, some ⟨.devNull, 0⟩], 3,
          nullAt64 [some ⟨.devNull, 0⟩, some ⟨.devNull, 0⟩]⟩]
      [some ⟨.devNull, 0⟩, some ⟨.devNull, 0⟩] := by
    refine .cons rfl rfl (by decide) (.cons rfl rfl (by decide) ?_)
    exact .cons rfl rfl (by decide) (.cons rfl rfl (by decide) .nil)
  exact ⟨_, rfl, history, (fdTable_refines_map history).1⟩

end ComputeKernel.Kernel
