import ComputeKernel.Fs.Vfs
import ComputeKernel.Syscall.Model

/-! The filesystems of the kernel's own files (`proc_fs.rs`, `sys_fs.rs`, `dev_fs.rs`). -/
namespace ComputeKernel
open Checked (Exec)
open Kernel (asciiBytes)

/-! `/proc`. -/
namespace ProcFs

def versionContent : List UInt8 := asciiBytes "ComputeKERNEL version 1.0.0 (Rust nightly)\n"

def uptimeContent (ticks : UInt64) : List UInt8 :=
  let seconds := toString (ticks / 100).toNat
  asciiBytes (seconds ++ ".00 " ++ seconds ++ ".00\n")

def meminfoContent : List UInt8 :=
  asciiBytes "MemTotal:         102400 kB\nMemFree:           51200 kB\n"

def lookup (path : String) : Except VfsError Inode :=
  if path = "/" ∨ path = "" then .ok (Inode.new 1 .directory)
  else if path = "/version" then .ok (Inode.new 2 .regularFile)
  else if path = "/uptime" then .ok (Inode.new 3 .regularFile)
  else if path = "/meminfo" then .ok (Inode.new 4 .regularFile)
  else .error .notFound

theorem lookup_file {path : String} {inode : Inode} (found : lookup path = .ok inode)
    (file : inode.kind ≠ .directory) :
    path = "/version" ∨ path = "/uptime" ∨ path = "/meminfo" := by
  unfold lookup at found
  split at found
  · cases found
    exact absurd rfl file
  split at found
  · next same => exact .inl same
  split at found
  · next same => exact .inr (.inl same)
  split at found
  · next same => exact .inr (.inr same)
  · cases found

def content (inode : Inode) (ticks : UInt64) : Option (List UInt8) :=
  if inode.inodeNum = 2 then some versionContent
  else if inode.inodeNum = 3 then some (uptimeContent ticks)
  else if inode.inodeNum = 4 then some meminfoContent
  else none

def read (inode : Inode) (offset : UInt64) (buf : List UInt8) :
    Exec Kernel (Except VfsError Nat × List UInt8) := do
  let k ← Exec.get
  match content inode k.procs.tickCount with
  | none => Exec.ret (.error .notFound, buf)
  | some content =>
      if offset.toNat ≥ content.length then Exec.ret (.ok 0, buf)
      else do
        let available ← Exec.sliceFrom content offset.toNat
        FileSystem.copyAvailable buf available

def readdir (inode : Inode) : Except VfsError (List DirEntry) :=
  if inode.inodeNum ≠ 1 then .error .notADirectory
  else .ok
    [{ name := "version", inodeNum := 2, kind := .regularFile },
      { name := "uptime", inodeNum := 3, kind := .regularFile },
      { name := "meminfo", inodeNum := 4, kind := .regularFile }]

end ProcFs

def procFs : FileSystem Kernel where
  name := "proc"
  lookup := ProcFs.lookup
  read := ProcFs.read
  write := fun _ _ _ => Exec.ret (.error .permissionDenied)
  readdir := ProcFs.readdir
  create := fun _ _ _ _ => .error .permissionDenied
  unlink := fun _ _ => .error .permissionDenied

/-! `/sys`. -/
namespace SysFs

def lookup (path : String) : Except VfsError Inode :=
  if path = "/" ∨ path = "" then .ok (Inode.new 1 .directory)
  else if path = "/kernel" then .ok (Inode.new 2 .directory)
  else if path = "/kernel/hostname" then .ok (Inode.new 3 .regularFile)
  else .error .notFound

theorem lookup_file {path : String} {inode : Inode} (found : lookup path = .ok inode)
    (file : inode.kind ≠ .directory) : path = "/kernel/hostname" := by
  unfold lookup at found
  split at found
  · cases found
    exact absurd rfl file
  split at found
  · cases found
    exact absurd rfl file
  split at found
  · next same => exact same
  · cases found

def hostname : List UInt8 := asciiBytes "computekernel\n"

/-- Unlike the other filesystems, a read past the start finds nothing. -/
def read (inode : Inode) (offset : UInt64) (buf : List UInt8) :
    Exec Kernel (Except VfsError Nat × List UInt8) :=
  if offset > 0 then Exec.ret (.ok 0, buf)
  else if inode.inodeNum = 3 then FileSystem.copyAvailable buf hostname
  else Exec.ret (.error .notFound, buf)

def readdir (inode : Inode) : Except VfsError (List DirEntry) :=
  if inode.inodeNum = 1 then .ok [{ name := "kernel", inodeNum := 2, kind := .directory }]
  else if inode.inodeNum = 2 then .ok [{ name := "hostname", inodeNum := 3, kind := .regularFile }]
  else .error .notADirectory

end SysFs

def sysFs : FileSystem Kernel where
  name := "sysfs"
  lookup := SysFs.lookup
  read := SysFs.read
  write := fun _ _ _ => Exec.ret (.error .permissionDenied)
  readdir := SysFs.readdir
  create := fun _ _ _ _ => .error .permissionDenied
  unlink := fun _ _ => .error .permissionDenied

/-! `/dev`. -/
namespace DevFs

/-- The inode of a device; `0o666` is `0x1b6` and `0o660` is `0x1b0`. -/
def device (inodeNum : UInt64) (mode : UInt16) : Inode :=
  { Inode.new inodeNum .charDevice with mode }

def lookup (path : String) : Except VfsError Inode :=
  if path = "/" ∨ path = "" then .ok (Inode.new 1 .directory)
  else if path = "/null" then .ok (device 2 0x1b6)
  else if path = "/zero" then .ok (device 3 0x1b6)
  else if path = "/full" then .ok (device 4 0x1b6)
  else if path = "/ttyS0" then .ok (device 5 0x1b0)
  else .error .notFound

theorem lookup_file {path : String} {inode : Inode} (found : lookup path = .ok inode)
    (file : inode.kind ≠ .directory) :
    path = "/null" ∨ path = "/zero" ∨ path = "/full" ∨ path = "/ttyS0" := by
  unfold lookup at found
  split at found
  · cases found
    exact absurd rfl file
  split at found
  · next same => exact .inl same
  split at found
  · next same => exact .inr (.inl same)
  split at found
  · next same => exact .inr (.inr (.inl same))
  split at found
  · next same => exact .inr (.inr (.inr same))
  · cases found

def read (inode : Inode) (_offset : UInt64) (buf : List UInt8) :
    Exec Kernel (Except VfsError Nat × List UInt8) :=
  if inode.inodeNum = 2 then Exec.ret (.ok 0, buf)
  else if inode.inodeNum = 3 ∨ inode.inodeNum = 4 then
    Exec.ret (.ok buf.length, List.replicate buf.length 0)
  else if inode.inodeNum = 5 then Exec.ret (.ok 0, buf)
  else Exec.ret (.error .notFound, buf)

def write (inode : Inode) (_offset : UInt64) (buf : List UInt8) :
    Exec Kernel (Except VfsError Nat) :=
  if inode.inodeNum = 2 then Exec.ret (.ok buf.length)
  else if inode.inodeNum = 3 then Exec.ret (.ok buf.length)
  else if inode.inodeNum = 4 then Exec.ret (.error .noSpace)
  else if inode.inodeNum = 5 then do
    Exec.forEach buf (fun byte => Kernel.serialPrint [Kernel.asChar byte])
    Exec.ret (.ok buf.length)
  else Exec.ret (.error .notFound)

def readdir (inode : Inode) : Except VfsError (List DirEntry) :=
  if inode.inodeNum ≠ 1 then .error .notADirectory
  else .ok
    [{ name := "null", inodeNum := 2, kind := .charDevice },
      { name := "zero", inodeNum := 3, kind := .charDevice },
      { name := "full", inodeNum := 4, kind := .charDevice },
      { name := "ttyS0", inodeNum := 5, kind := .charDevice }]

end DevFs

def devFs : FileSystem Kernel where
  name := "devfs"
  lookup := DevFs.lookup
  read := DevFs.read
  write := DevFs.write
  readdir := DevFs.readdir
  create := fun _ _ _ _ => .error .permissionDenied
  unlink := fun _ _ => .error .permissionDenied

end ComputeKernel
