import ComputeKernel.Fs.Pseudo
import ComputeKernel.Syscall.Descriptors
import ComputeKernel.Syscall.Panics
import ComputeKernel.Syscall.UserMemory

/-! The files behind `sys_open` compared with those of the mounted filesystems. -/
namespace ComputeKernel.Kernel
open Checked (Exec)
open Memory (Holds)

def mounts : List (String × FileSystem Kernel) :=
  [("/proc", procFs), ("/sys", sysFs), ("/dev", devFs)]

/-- The path below a mount point. -/
def restOf (point path : String) : Option String :=
  if point.toList.isPrefixOf path.toList then
    some (String.ofList (path.toList.drop point.toList.length))
  else none

def resolve (path : String) : Option (FileSystem Kernel × String) :=
  mounts.findSome? (fun mount => (restOf mount.1 path).map (fun rest => (mount.2, rest)))

/-- The filesystem and the inode that a path names, when it is not a directory. -/
def fileAt (path : String) : Option (FileSystem Kernel × Inode) :=
  (resolve path).bind (fun place =>
    match place.1.lookup place.2 with
    | .ok inode => if inode.kind = .directory then none else some (place.1, inode)
    | .error _ => none)

/-- The file of the mounted filesystems that a node stands for. -/
def nodeFile : PseudoNode → FileSystem Kernel × Inode
  | .procVersion => (procFs, Inode.new 2 .regularFile)
  | .procUptime => (procFs, Inode.new 3 .regularFile)
  | .procMeminfo => (procFs, Inode.new 4 .regularFile)
  | .sysHostname => (sysFs, Inode.new 3 .regularFile)
  | .devNull => (devFs, DevFs.device 2 0x1b6)
  | .devZero => (devFs, DevFs.device 3 0x1b6)
  | .devFull => (devFs, DevFs.device 4 0x1b6)
  | .devTtyS0 => (devFs, DevFs.device 5 0x1b0)

theorem restOf_eq_some {point path rest : String} (found : restOf point path = some rest) :
    path = point ++ rest := by
  unfold restOf at found
  split at found
  · next starts =>
      obtain ⟨tail, whole⟩ := List.isPrefixOf_iff_prefix.mp starts
      cases found
      rw [← whole, List.drop_left, ← String.toList_inj, String.toList_append, String.toList_ofList,
        whole]
  · cases found

/-- A path that resolves is a mount point followed by the rest. -/
theorem resolve_eq_some {path rest : String} {fs : FileSystem Kernel}
    (found : resolve path = some (fs, rest)) :
    (fs = procFs ∧ path = "/proc" ++ rest) ∨ (fs = sysFs ∧ path = "/sys" ++ rest) ∨
      fs = devFs ∧ path = "/dev" ++ rest := by
  obtain ⟨mount, member, below⟩ := List.exists_of_findSome?_eq_some found
  obtain ⟨tail, stripped, same⟩ := Option.map_eq_some_iff.mp below
  cases same
  have whole := restOf_eq_some stripped
  simp only [mounts, List.mem_cons, List.not_mem_nil, or_false] at member
  rcases member with rfl | rfl | rfl
  · exact .inl ⟨rfl, whole⟩
  · exact .inr (.inl ⟨rfl, whole⟩)
  · exact .inr (.inr ⟨rfl, whole⟩)

def nodePath : PseudoNode → String
  | .procVersion => "/proc/version"
  | .procUptime => "/proc/uptime"
  | .procMeminfo => "/proc/meminfo"
  | .sysHostname => "/sys/kernel/hostname"
  | .devNull => "/dev/null"
  | .devZero => "/dev/zero"
  | .devFull => "/dev/full"
  | .devTtyS0 => "/dev/ttyS0"

theorem pathNode_eq_some {path : String} {node : PseudoNode} :
    pathNode path = some node ↔ path = nodePath node := by
  constructor
  · intro found
    unfold pathNode at found
    repeat' split at found
    all_goals cases found
    all_goals assumption
  · rintro rfl
    cases node <;> rfl

theorem fileAt_nodePath (node : PseudoNode) : fileAt (nodePath node) = some (nodeFile node) := by
  cases node <;> rfl

theorem fileAt_eq_some {path : String} {file : FileSystem Kernel × Inode}
    (found : fileAt path = some file) :
    ∃ rest, resolve path = some (file.1, rest) ∧ file.1.lookup rest = .ok file.2 ∧
      file.2.kind ≠ .directory := by
  obtain ⟨⟨fs, rest⟩, resolved, looked⟩ := Option.bind_eq_some_iff.mp found
  cases entry : fs.lookup rest with
  | error why => simp [entry] at looked
  | ok inode =>
      simp only [entry] at looked
      split at looked
      · cases looked
      · next file_ =>
          cases looked
          exact ⟨rest, resolved, entry, file_⟩

/-- The mounted filesystems have no other files. -/
theorem nodePath_of_fileAt {path : String} {file : FileSystem Kernel × Inode}
    (found : fileAt path = some file) : ∃ node, path = nodePath node := by
  obtain ⟨fs, inode⟩ := file
  obtain ⟨rest, resolved, entry, file_⟩ := fileAt_eq_some found
  rcases resolve_eq_some resolved with ⟨rfl, rfl⟩ | ⟨rfl, rfl⟩ | ⟨rfl, rfl⟩
  · rcases ProcFs.lookup_file entry file_ with rfl | rfl | rfl
    · exact ⟨.procVersion, rfl⟩
    · exact ⟨.procUptime, rfl⟩
    · exact ⟨.procMeminfo, rfl⟩
  · cases SysFs.lookup_file entry file_
    exact ⟨.sysHostname, rfl⟩
  · rcases DevFs.lookup_file entry file_ with rfl | rfl | rfl | rfl
    · exact ⟨.devNull, rfl⟩
    · exact ⟨.devZero, rfl⟩
    · exact ⟨.devFull, rfl⟩
    · exact ⟨.devTtyS0, rfl⟩

/-- The nodes of `sys_open` are the files of the mounted filesystems. -/
theorem fileAt_eq (path : String) : fileAt path = (pathNode path).map nodeFile := by
  cases found : pathNode path with
  | some node =>
      rw [pathNode_eq_some.mp found]
      exact fileAt_nodePath node
  | none =>
      rw [Option.map_none, Option.eq_none_iff_forall_ne_some]
      intro file there
      obtain ⟨node, same⟩ := nodePath_of_fileAt there
      rw [pathNode_eq_some.mpr same] at found
      cases found

variable {k : Kernel} {path : String}

/-- The paths of the files are short enough for `read_user_cstr`. -/
theorem readUserCstr_of_pathNode {ptr : UInt64} {node : PseudoNode} (stored : k.StoredAt ptr path)
    (found : pathNode path = some node) : readUserCstr ptr 256 k = .done (some path) k := by
  have short : path.toByteArray.data.toList.length < 256 := by
    rw [pathNode_eq_some.mp found]
    cases node <;> decide
  rw [readUserCstr_of_stored stored, if_pos short]

theorem sysOpen_of_pathNode {ptr : UInt64} {node : PseudoNode} (stored : k.StoredAt ptr path)
    (found : pathNode path = some node) : sysOpen ptr 0 k = install ⟨node, 0⟩ k := by
  unfold sysOpen
  rw [if_neg stored.nonnull, Exec.bind_of_done (readUserCstr_of_pathNode stored found)]
  simp only [found]
  exact congrFun (if_neg (by simp [writeRequested, oAccmode, oWronly, oRdwr])) k

theorem sysOpen_of_no_pathNode {ptr : UInt64} (stored : k.StoredAt ptr path)
    (missing : pathNode path = none) : ∃ errno : Errno, sysOpen ptr 0 k = .done errno.code k := by
  unfold sysOpen
  rw [if_neg stored.nonnull, Exec.bind_of_done (readUserCstr_of_stored stored 256)]
  split
  · simp only [missing]
    exact ⟨.noEnt, rfl⟩
  · exact ⟨.fault, rfl⟩

/-- `sys_open` for reading succeeds exactly on the files of the mounted filesystems. -/
theorem sysOpen_succeeds_iff {ptr : UInt64} (stored : k.StoredAt ptr path)
    (room : k.fdTable.length + 1 < fdCapacity) :
    (∃ fd k', sysOpen ptr 0 k = .done fd k' ∧ 0 ≤ fd) ↔ (fileAt path).isSome := by
  rw [fileAt_eq, Option.isSome_map]
  cases found : pathNode path with
  | some node =>
      rw [sysOpen_of_pathNode stored found]
      obtain ⟨fd, k', ran⟩ := install_total ⟨node, 0⟩ room
      have result := (install_returns ⟨node, 0⟩ (by omega) fd k' ran).2.2
      exact iff_of_true ⟨fd, k', ran, by omega⟩ rfl
  | none =>
      obtain ⟨errno, ran⟩ := sysOpen_of_no_pathNode stored found
      apply iff_of_false
      · rintro ⟨fd, k', succeeded, nonneg⟩
        rw [ran] at succeeded
        cases succeeded
        exact absurd nonneg (Int.not_le.mpr errno.code_neg)
      · simp

/-- A descriptor is open on a file. -/
def OpenOn (k : Kernel) (fd : Int32) (file : OpenFile) : Prop :=
  ∃ idx : Nat, fd.toInt = idx + 3 ∧ k.fdTable[idx]? = some (some file)

/-- A buffer of user memory, which a slice can be made of. -/
structure Buffer (k : Kernel) (buf : UInt64) (bytes : List UInt8) : Prop where
  nonnull : buf ≠ 0
  small : bytes.length < 2 ^ 63
  held : Holds k.memory buf bytes

/-- The bytes that a file gives to `sys_read`. -/
def produced (node : PseudoNode) (ticks offset : UInt64) (len : Nat) : List UInt8 :=
  match node with
  | .procVersion => (ProcFs.versionContent.drop offset.toNat).take len
  | .procUptime => ((ProcFs.uptimeContent ticks).drop offset.toNat).take len
  | .procMeminfo => (ProcFs.meminfoContent.drop offset.toNat).take len
  | .sysHostname => (SysFs.hostname.drop offset.toNat).take len
  | .devNull => []
  | .devZero => List.replicate len 0
  | .devFull => List.replicate len 0
  | .devTtyS0 => []

/-- The bytes that `SysFs` and the others give to `read`. -/
def vfsProduced (node : PseudoNode) (ticks offset : UInt64) (len : Nat) : List UInt8 :=
  if node = .sysHostname ∧ 0 < offset then [] else produced node ticks offset len

theorem produced_length_le (node : PseudoNode) (ticks offset : UInt64) (len : Nat) :
    (produced node ticks offset len).length ≤ len := by
  cases node <;> simp [produced]

theorem lookup_of_openOn {fd : Int32} {file : OpenFile} (opened : k.OpenOn fd file) :
    ∃ idx, lookup fd k = .done (some (idx, file)) k := by
  obtain ⟨idx, place, held⟩ := opened
  have value : asUsize fd = idx + 3 := by
    have extended := asUsize_eq fd
    split at extended <;> omega
  have offset : (Exec.usizeSub (asUsize fd) 3 : Exec Kernel Nat) k = .done idx k := by
    rw [value]
    simp [Exec.usizeSub]
  refine ⟨idx, ?_⟩
  unfold lookup
  rw [Exec.bind_of_done offset, Exec.get_bind, held]
  rfl

theorem readStatic_eq {buf : UInt64} {bytes : List UInt8} (held : Holds k.memory buf bytes)
    (offset : UInt64) (content : List UInt8) :
    let source := (content.drop offset.toNat).take bytes.length
    readStatic buf bytes.length offset content k =
      .done source.length { k with memory := Memory.store k.memory buf source } := by
  intro source
  unfold readStatic
  split
  · next beyond =>
      have empty : source = [] := by simp [source, List.drop_eq_nil_of_le beyond]
      rw [empty]
      rfl
  · next inside =>
      have count : min (content.drop offset.toNat).length bytes.length = source.length := by
        simp only [source, List.length_take, Nat.min_comm]
      have taken : (content.drop offset.toNat).take source.length = source := by
        simp only [source, List.length_take, ← List.take_eq_take_min]
      have short : source.length ≤ (content.drop offset.toNat).length := List.length_take_le' _ _
      rw [Exec.bind_of_done (Exec.sliceFrom_of_le (by omega) k), count,
        Exec.bind_of_done (Exec.sliceTo_of_le short k), taken]
      have fits : source.length ≤ bytes.length := by rw [← count]; exact Nat.min_le_right _ _
      rw [copyFromSlice, if_pos ⟨fits, rfl⟩, Exec.bind_of_done (writeBytes_of_holds held fits)]
      rfl

theorem writeZeros_eq {buf : UInt64} {bytes : List UInt8} (held : Holds k.memory buf bytes) :
    (do
      writeBytes buf (List.replicate bytes.length 0)
      Exec.ret bytes.length : Exec Kernel Nat) k =
    .done (List.replicate bytes.length (0 : UInt8)).length
      { k with memory := Memory.store k.memory buf (List.replicate bytes.length 0) } := by
  rw [Exec.bind_of_done (writeBytes_of_holds held (by simp)), Exec.ret_run, List.length_replicate]

theorem readNode_eq {buf : UInt64} {bytes : List UInt8} (held : Holds k.memory buf bytes)
    (node : PseudoNode) (offset : UInt64) :
    readNode ⟨node, offset⟩ buf bytes.length k =
      .done (produced node k.procs.tickCount offset bytes.length).length
        { k with
          memory := Memory.store k.memory buf
            (produced node k.procs.tickCount offset bytes.length) } := by
  cases node with
  | procVersion =>
      rw [readNode, produced]
      exact readStatic_eq held offset ProcFs.versionContent
  | procUptime =>
      simp only [readNode, produced, Exec.get_bind]
      exact readStatic_eq held offset (ProcFs.uptimeContent k.procs.tickCount)
  | procMeminfo =>
      rw [readNode, produced]
      exact readStatic_eq held offset ProcFs.meminfoContent
  | sysHostname =>
      rw [readNode, produced]
      exact readStatic_eq held offset SysFs.hostname
  | devNull => rfl
  | devZero => exact writeZeros_eq held
  | devFull => exact writeZeros_eq held
  | devTtyS0 => rfl

theorem toNat_length {bytes : List UInt8} (small : bytes.length < 2 ^ 63) :
    (UInt64.ofNat bytes.length).toNat = bytes.length := by
  rw [UInt64.toNat_ofNat']
  exact Nat.mod_eq_of_lt (by omega)

theorem length_ne_zero {bytes : List UInt8} (small : bytes.length < 2 ^ 63) (nonempty : bytes ≠ []) :
    UInt64.ofNat bytes.length ≠ 0 := by
  intro zero
  have same := congrArg UInt64.toNat zero
  rw [toNat_length small] at same
  exact nonempty (List.length_eq_zero_iff.mp same)

theorem OpenOn.nonstandard {fd : Int32} {file : OpenFile} (opened : k.OpenOn fd file) :
    fd ≠ 0 ∧ fd ≠ 1 ∧ fd ≠ 2 := by
  obtain ⟨idx, place, _⟩ := opened
  refine ⟨?_, ?_, ?_⟩ <;> rintro rfl <;> simp at place <;> omega

theorem sysRead_of_openOn {fd : Int32} {buf : UInt64} {bytes : List UInt8} {node : PseudoNode}
    {offset : UInt64} (opened : k.OpenOn fd ⟨node, offset⟩) (buffer : k.Buffer buf bytes) :
    ∃ k', sysRead fd buf (UInt64.ofNat bytes.length) k =
        .done (produced node k.procs.tickCount offset bytes.length).length k' ∧
      k'.memory = Memory.store k.memory buf
        (produced node k.procs.tickCount offset bytes.length) := by
  by_cases empty : bytes = []
  · subst empty
    have nothing : produced node k.procs.tickCount offset 0 = [] :=
      List.length_eq_zero_iff.mp (Nat.le_zero.mp (produced_length_le _ _ _ _))
    exact ⟨k, by rw [List.length_nil, nothing]; rfl, by rw [List.length_nil, nothing]; rfl⟩
  have nonzero := length_ne_zero buffer.small empty
  have count := toNat_length buffer.small
  have bound := produced_length_le node k.procs.tickCount offset bytes.length
  have small := buffer.small
  obtain ⟨idx, found⟩ := lookup_of_openOn opened
  unfold sysRead
  rw [if_neg nonzero, if_neg buffer.nonnull, Exec.bind_of_done (fromRawParts_done (by omega) k),
    if_neg opened.nonstandard.1, Exec.bind_of_done found, count]
  dsimp only
  rw [Exec.bind_of_done (readNode_eq buffer.held node offset), Exec.modify_bind, Exec.ret_run,
    asI64_of_lt (by omega)]
  exact ⟨_, rfl, rfl⟩

/-- What `copyAvailable` returns, in terms of the bytes that it copies. -/
theorem copyAvailable_produced (bytes available : List UInt8) :
    FileSystem.copyAvailable bytes available k =
      .done (.ok (available.take bytes.length).length,
        available.take bytes.length ++ bytes.drop (available.take bytes.length).length) k := by
  rw [FileSystem.copyAvailable_eq, List.length_take]

theorem procFs_read {inode : Inode} {content : List UInt8}
    (named : ProcFs.content inode k.procs.tickCount = some content) (offset : UInt64)
    (bytes : List UInt8) :
    let source := (content.drop offset.toNat).take bytes.length
    ProcFs.read inode offset bytes k =
      .done (.ok source.length, source ++ bytes.drop source.length) k := by
  intro source
  unfold ProcFs.read
  rw [Exec.get_bind, named]
  dsimp only
  split
  · next beyond =>
      have empty : source = [] := by simp [source, List.drop_eq_nil_of_le beyond]
      rw [empty]
      rfl
  · next inside =>
      rw [Exec.bind_of_done (Exec.sliceFrom_of_le (by omega) k)]
      exact copyAvailable_produced bytes _

theorem sysFs_read (offset : UInt64) (bytes : List UInt8) :
    let source := vfsProduced .sysHostname k.procs.tickCount offset bytes.length
    SysFs.read (Inode.new 3 .regularFile) offset bytes k =
      .done (.ok source.length, source ++ bytes.drop source.length) k := by
  unfold SysFs.read vfsProduced
  by_cases later : offset > 0
  · rw [if_pos later, if_pos ⟨rfl, later⟩]
    rfl
  · rw [if_neg later, if_neg (fun both => later both.2), if_pos (by rfl)]
    have start : offset.toNat = 0 := by
      rw [gt_iff_lt, UInt64.lt_iff_toNat_lt, UInt64.toNat_zero] at later
      omega
    simp only [produced, start, List.drop_zero]
    exact copyAvailable_produced bytes _

theorem vfsProduced_of_ne {node : PseudoNode} (other : node ≠ .sysHostname) (ticks offset : UInt64)
    (len : Nat) : vfsProduced node ticks offset len = produced node ticks offset len :=
  if_neg (fun both => other both.1)

theorem vfs_read (node : PseudoNode) (offset : UInt64) (bytes : List UInt8) :
    let source := vfsProduced node k.procs.tickCount offset bytes.length
    (nodeFile node).1.read (nodeFile node).2 offset bytes k =
      .done (.ok source.length, source ++ bytes.drop source.length) k := by
  by_cases host : node = .sysHostname
  · subst host
    exact sysFs_read offset bytes
  rw [vfsProduced_of_ne host]
  cases node with
  | procVersion =>
      have named : ProcFs.content (Inode.new 2 .regularFile) k.procs.tickCount =
          some ProcFs.versionContent := rfl
      exact procFs_read named offset bytes
  | procUptime =>
      have named : ProcFs.content (Inode.new 3 .regularFile) k.procs.tickCount =
          some (ProcFs.uptimeContent k.procs.tickCount) := rfl
      exact procFs_read named offset bytes
  | procMeminfo =>
      have named : ProcFs.content (Inode.new 4 .regularFile) k.procs.tickCount =
          some ProcFs.meminfoContent := rfl
      exact procFs_read named offset bytes
  | sysHostname => exact absurd rfl host
  | devNull => rfl
  | devZero => simp [nodeFile, devFs, DevFs.read, DevFs.device, Inode.new, produced]
  | devFull => simp [nodeFile, devFs, DevFs.read, DevFs.device, Inode.new, produced]
  | devTtyS0 => rfl

/-- `sys_read` and the read of the filesystem return the same count and leave the same
bytes in the buffer. -/
def ReadsAgree (k : Kernel) (fd : Int32) (buf : UInt64) (bytes : List UInt8)
    (file : FileSystem Kernel × Inode) (offset : UInt64) : Prop :=
  ∃ (n : Nat) (after : List UInt8) (k₁ k₂ : Kernel),
    file.1.read file.2 offset bytes k = .done (.ok n, after) k₁ ∧
      sysRead fd buf (UInt64.ofNat bytes.length) k = .done n k₂ ∧ Holds k₂.memory buf after

/-- `SysFs` forgets the rest of the host name. -/
def ForgetsRest (node : PseudoNode) (offset : UInt64) (bytes : List UInt8) : Prop :=
  node = .sysHostname ∧ 0 < offset ∧ offset < 14 ∧ bytes ≠ []

theorem produced_of_not_forgotten {node : PseudoNode} {offset : UInt64} {bytes : List UInt8}
    (remembers : ¬ForgetsRest node offset bytes) (ticks : UInt64) :
    vfsProduced node ticks offset bytes.length = produced node ticks offset bytes.length := by
  unfold vfsProduced
  split
  · next later =>
      obtain ⟨rfl, positive⟩ := later
      by_cases empty : bytes = []
      · simp [empty, produced]
      · have beyond : 14 ≤ offset.toNat := by
          by_contra inside
          refine remembers ⟨rfl, positive, ?_, empty⟩
          rw [UInt64.lt_iff_toNat_lt]
          exact Nat.not_le.mp inside
        have length : SysFs.hostname.length = 14 := rfl
        simp only [produced]
        rw [List.drop_eq_nil_of_le (by omega), List.take_nil]
  · rfl

theorem readsAgree_iff {fd : Int32} {buf : UInt64} {bytes : List UInt8} {node : PseudoNode}
    {offset : UInt64} (opened : k.OpenOn fd ⟨node, offset⟩) (buffer : k.Buffer buf bytes) :
    k.ReadsAgree fd buf bytes (nodeFile node) offset ↔ ¬ForgetsRest node offset bytes := by
  obtain ⟨k', ran, memory⟩ := sysRead_of_openOn opened buffer
  have expected := vfs_read (k := k) node offset bytes
  constructor
  · rintro ⟨n, after, k₁, k₂, read, sys, _⟩ ⟨rfl, positive, inside, nonempty⟩
    rw [expected] at read
    rw [ran] at sys
    simp only [vfsProduced, positive, and_self, if_true] at read
    cases read
    have none_ : (produced .sysHostname k.procs.tickCount offset bytes.length).length = 0 := by
      have same := (Checked.Outcome.done.inj sys).1
      exact_mod_cast same
    have length : SysFs.hostname.length = 14 := rfl
    rw [UInt64.lt_iff_toNat_lt] at inside
    have some_ : bytes.length ≠ 0 := fun zero => nonempty (List.length_eq_zero_iff.mp zero)
    simp only [produced, List.length_take, List.length_drop, length] at none_
    change offset.toNat < 14 at inside
    omega
  · intro remembers
    rw [produced_of_not_forgotten remembers] at expected
    refine ⟨_, _, k, k', expected, ran, ?_⟩
    rw [memory]
    have small := buffer.small
    exact buffer.held.store (produced_length_le _ _ _ _) (by omega)

/-- `sys_write` and the write of the filesystem both fail, or return the same count,
and leave the same kernel. -/
def WritesAgree (k : Kernel) (fd : Int32) (buf : UInt64) (bytes : List UInt8)
    (file : FileSystem Kernel × Inode) (offset : UInt64) : Prop :=
  ∃ (result : Except VfsError Nat) (returned : Int) (k' : Kernel),
    file.1.write file.2 offset bytes k = .done result k' ∧
      sysWrite fd buf (UInt64.ofNat bytes.length) k = .done returned k' ∧
      match result with
      | .ok n => returned = n
      | .error _ => returned < 0

/-- The nodes on which every write of the filesystems fails. -/
def refusesWrites (node : PseudoNode) : Bool := node.readOnly || node == .devFull

theorem write_of_refusesWrites {node : PseudoNode} (refuses : refusesWrites node = true)
    (offset : UInt64) (bytes : List UInt8) :
    ∃ why, (nodeFile node).1.write (nodeFile node).2 offset bytes k = .done (.error why) k := by
  cases node with
  | procVersion => exact ⟨.permissionDenied, rfl⟩
  | procUptime => exact ⟨.permissionDenied, rfl⟩
  | procMeminfo => exact ⟨.permissionDenied, rfl⟩
  | sysHostname => exact ⟨.permissionDenied, rfl⟩
  | devFull => exact ⟨.noSpace, rfl⟩
  | _ => cases refuses

/-- Bytes are sent to the serial line as the characters of their codes. -/
theorem forEach_serialPrint (bytes : List UInt8) (k : Kernel) :
    Exec.forEach bytes (fun byte => serialPrint [asChar byte]) k =
      .done () { k with serial := k.serial ++ bytes.map asChar } := by
  induction bytes generalizing k with
  | nil =>
      rw [List.map_nil, List.append_nil]
      rfl
  | cons byte bytes ih =>
      have rest := ih { k with serial := k.serial ++ [asChar byte] }
      rw [List.append_assoc, List.singleton_append] at rest
      exact rest

theorem sysWrite_of_openOn {fd : Int32} {buf : UInt64} {bytes : List UInt8} {file : OpenFile}
    (opened : k.OpenOn fd file) (buffer : k.Buffer buf bytes) (nonempty : bytes ≠ []) :
    sysWrite fd buf (UInt64.ofNat bytes.length) k =
      writeNode file.node buf (UInt64.ofNat bytes.length) k := by
  have small := buffer.small
  have count := toNat_length buffer.small
  obtain ⟨idx, found⟩ := lookup_of_openOn opened
  obtain ⟨_, notOut, notErr⟩ := opened.nonstandard
  unfold sysWrite
  rw [if_neg (length_ne_zero small nonempty), if_neg buffer.nonnull,
    if_neg (not_or.mpr ⟨notOut, notErr⟩), Exec.bind_of_done (fromRawParts_done (by omega) k),
    Exec.bind_of_done found]

/-- A write of the filesystem to a node that takes writes. -/
theorem writesAgree_of_ok {fd : Int32} {buf : UInt64} {bytes : List UInt8} {k' : Kernel}
    {file : FileSystem Kernel × Inode} {offset : UInt64} (small : bytes.length < 2 ^ 63)
    (vfs : file.1.write file.2 offset bytes k = .done (.ok bytes.length) k')
    (sys : sysWrite fd buf (UInt64.ofNat bytes.length) k =
      .done (asI64 (UInt64.ofNat bytes.length).toNat) k') :
    k.WritesAgree fd buf bytes file offset := by
  refine ⟨_, _, k', vfs, sys, ?_⟩
  rw [toNat_length small]
  exact asI64_of_lt small

theorem writesAgree_of_nonempty {fd : Int32} {buf : UInt64} {bytes : List UInt8}
    {node : PseudoNode} {offset : UInt64} (opened : k.OpenOn fd ⟨node, offset⟩)
    (buffer : k.Buffer buf bytes) (nonempty : bytes ≠ []) :
    k.WritesAgree fd buf bytes (nodeFile node) offset := by
  have ran := sysWrite_of_openOn opened buffer nonempty
  have small := buffer.small
  cases node with
  | procVersion => exact ⟨_, _, k, rfl, ran, by decide⟩
  | procUptime => exact ⟨_, _, k, rfl, ran, by decide⟩
  | procMeminfo => exact ⟨_, _, k, rfl, ran, by decide⟩
  | sysHostname => exact ⟨_, _, k, rfl, ran, by decide⟩
  | devNull => exact writesAgree_of_ok small rfl ran
  | devZero => exact writesAgree_of_ok small rfl ran
  | devFull => exact ⟨_, _, k, rfl, ran, by decide⟩
  | devTtyS0 =>
      have printed := forEach_serialPrint bytes k
      have read := readBytes_of_holds buffer.held
      rw [← toNat_length small] at read
      rw [writeNode, Exec.bind_of_done read, Exec.bind_of_done printed] at ran
      apply writesAgree_of_ok small _ ran
      change (Exec.forEach bytes _ >>= fun _ => Exec.ret _) k = _
      rw [Exec.bind_of_done printed]
      rfl

theorem writesAgree_iff {fd : Int32} {buf : UInt64} {bytes : List UInt8} {node : PseudoNode}
    {offset : UInt64} (opened : k.OpenOn fd ⟨node, offset⟩) (buffer : k.Buffer buf bytes) :
    k.WritesAgree fd buf bytes (nodeFile node) offset ↔
      ¬(bytes = [] ∧ refusesWrites node = true) := by
  by_cases empty : bytes = []
  · subst empty
    simp only [true_and]
    constructor
    · rintro ⟨result, returned, k', vfs, sys, agree⟩ refuses
      obtain ⟨why, refused⟩ := write_of_refusesWrites (k := k) refuses offset []
      rw [refused] at vfs
      cases vfs
      cases sys
      exact absurd agree (Int.lt_irrefl 0)
    · intro takes
      cases node <;> first
        | exact absurd rfl takes
        | exact ⟨.ok 0, 0, k, rfl, rfl, rfl⟩
  · exact iff_of_true (writesAgree_of_nonempty opened buffer empty) (fun both => empty both.1)

/-- The files behind the system calls are those of the mounted filesystems: always as
to which paths open, for reads unless `SysFs` has forgotten the rest of the host name,
and for writes unless nothing is written to a file that refuses writes. -/
theorem pseudo_files_are_vfs_files (path : String) (k : Kernel) :
    (∀ ptr, k.StoredAt ptr path → k.fdTable.length + 1 < fdCapacity →
      ((∃ fd k', sysOpen ptr 0 k = .done fd k' ∧ 0 ≤ fd) ↔ (fileAt path).isSome)) ∧
    ∀ node file, pathNode path = some node → fileAt path = some file →
      ∀ fd buf bytes offset, k.OpenOn fd ⟨node, offset⟩ → k.Buffer buf bytes →
        (k.ReadsAgree fd buf bytes file offset ↔ ¬ForgetsRest node offset bytes) ∧
        (k.WritesAgree fd buf bytes file offset ↔
          ¬(bytes = [] ∧ refusesWrites node = true)) := by
  constructor
  · intro ptr stored room
    exact sysOpen_succeeds_iff stored room
  · intro node file found there fd buf bytes offset opened buffer
    rw [fileAt_eq, found] at there
    cases there
    exact ⟨readsAgree_iff opened buffer, writesAgree_iff opened buffer⟩

/-- A kernel whose user memory holds `/sys/kernel/hostname` at 64, with descriptor 3
open on it at an offset. -/
def hostnameOpen (offset : UInt64) : Kernel :=
  { booted with
    memory := fun address =>
      (asciiBytes "/sys/kernel/hostname" ++ List.replicate 64 0)[address.toNat - 64]?
    fdTable := [some ⟨.sysHostname, offset⟩] }

theorem hostnameOpen_buffer (offset : UInt64) : (hostnameOpen offset).Buffer 100 [0, 0, 0, 0] where
  nonnull := by decide
  small := by decide
  held := by
    intro i inside
    have below : i < 4 := inside
    rcases i with _ | _ | _ | _ | i
    · rfl
    · rfl
    · rfl
    · rfl
    · omega

theorem pseudo_files_first_read :
    pathNode "/sys/kernel/hostname" = some .sysHostname ∧
      (hostnameOpen 0).ReadsAgree 3 100 [0, 0, 0, 0] (nodeFile .sysHostname) 0 := by
  have opened : (hostnameOpen 0).OpenOn 3 ⟨.sysHostname, 0⟩ := ⟨0, rfl, rfl⟩
  have agree := (pseudo_files_are_vfs_files "/sys/kernel/hostname" (hostnameOpen 0)).2
    .sysHostname (nodeFile .sysHostname) rfl rfl 3 100 [0, 0, 0, 0] 0 opened (hostnameOpen_buffer 0)
  refine ⟨rfl, agree.1.mpr ?_⟩
  rintro ⟨_, positive, _⟩
  exact absurd positive (by decide)

/-- Four bytes into the host name `sys_read` goes on with the next four, where `SysFs`
returns nothing. -/
theorem hostname_rest_differs :
    (∃ k', sysRead 3 100 4 (hostnameOpen 4) = .done 4 k' ∧
      Holds k'.memory 100 (asciiBytes "utek")) ∧
    sysFs.read (Inode.new 3 .regularFile) 4 [0, 0, 0, 0] (hostnameOpen 4) =
      .done (.ok 0, [0, 0, 0, 0]) (hostnameOpen 4) := by
  have opened : (hostnameOpen 4).OpenOn 3 ⟨.sysHostname, 4⟩ := ⟨0, rfl, rfl⟩
  have buffer := hostnameOpen_buffer 4
  obtain ⟨k', ran, memory⟩ := sysRead_of_openOn opened buffer
  have source : produced .sysHostname (hostnameOpen 4).procs.tickCount 4 4 = asciiBytes "utek" := by
    decide
  have short : (asciiBytes "utek").length = [(0 : UInt8), 0, 0, 0].length := by decide
  have stored := buffer.held.store (Nat.le_of_eq short) (by decide)
  rw [short, List.drop_length, List.append_nil] at stored
  change k'.memory = Memory.store _ 100 (produced .sysHostname _ 4 4) at memory
  rw [source] at memory
  rw [← memory] at stored
  change sysRead 3 100 4 _ = .done ((produced .sysHostname _ 4 4).length : Int) k' at ran
  rw [source] at ran
  exact ⟨⟨k', ran, stored⟩, rfl⟩

end ComputeKernel.Kernel
