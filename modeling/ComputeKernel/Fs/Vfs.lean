import ComputeKernel.Support.Checked

/-! Inodes and the trait that all filesystems implement (`kernel/src/fs/vfs.rs`). -/
namespace ComputeKernel
open Checked (Exec)

inductive VfsError where
  | notFound
  | permissionDenied
  | notADirectory
  | isADirectory
  | noSpace
  | invalidPath
  | notSupported
  | io
  deriving DecidableEq, Repr

inductive InodeKind where
  | regularFile
  | directory
  | symlink
  | charDevice
  | blockDevice
  | pipe
  | socket
  deriving DecidableEq, Repr

/-- `FileMode::DEFAULT_FILE` and `FileMode::DEFAULT_DIR`, `0o644` and `0o755`. -/
def defaultFile : UInt16 := 0x1a4
def defaultDir : UInt16 := 0x1ed

structure Inode where
  inodeNum : UInt64
  kind : InodeKind
  mode : UInt16
  size : UInt64
  uid : UInt32
  gid : UInt32
  linkCount : UInt32
  atime : UInt64
  mtime : UInt64
  ctime : UInt64
  deriving DecidableEq, Repr

def Inode.new (inodeNum : UInt64) (kind : InodeKind) : Inode :=
  { inodeNum
    kind
    mode :=
      match kind with
      | .directory => defaultDir
      | _ => defaultFile
    size := 0
    uid := 0
    gid := 0
    linkCount := 1
    atime := 0
    mtime := 0
    ctime := 0 }

structure DirEntry where
  name : String
  inodeNum : UInt64
  kind : InodeKind
  deriving DecidableEq, Repr

/-- The trait, over the state that reads and writes may touch. A buffer that the code
fills is passed as the bytes before the call and returned as the bytes after it. -/
structure FileSystem (σ : Type) where
  name : String
  lookup : String → Except VfsError Inode
  read : Inode → UInt64 → List UInt8 → Exec σ (Except VfsError Nat × List UInt8)
  write : Inode → UInt64 → List UInt8 → Exec σ (Except VfsError Nat)
  readdir : Inode → Except VfsError (List DirEntry)
  create : Inode → String → InodeKind → UInt16 → Except VfsError Inode
  unlink : Inode → String → Except VfsError Unit

namespace FileSystem

/-- `buf[..n].copy_from_slice(source)`. -/
def copyFromSlice (buf : List UInt8) (n : Nat) (source : List UInt8) : Exec σ (List UInt8) :=
  if n ≤ buf.length ∧ source.length = n then Exec.ret (source ++ buf.drop n)
  else Exec.panic .bounds

/-- Copies as much of `available` as the buffer takes, and returns how much that was. -/
def copyAvailable (buf available : List UInt8) : Exec σ (Except VfsError Nat × List UInt8) := do
  let n := min buf.length available.length
  let source ← Exec.sliceTo available n
  let buf ← copyFromSlice buf n source
  Exec.ret (.ok n, buf)

theorem copyAvailable_eq (buf available : List UInt8) (s : σ) :
    copyAvailable buf available s =
      .done (.ok (min buf.length available.length),
        available.take buf.length ++ buf.drop (min buf.length available.length)) s := by
  have short : min buf.length available.length ≤ available.length := Nat.min_le_right _ _
  have fits : min buf.length available.length ≤ buf.length ∧
      (available.take (min buf.length available.length)).length =
        min buf.length available.length := by
    rw [List.length_take]
    omega
  unfold copyAvailable copyFromSlice
  rw [Exec.bind_of_done (Exec.sliceTo_of_le short s), if_pos fits, Exec.ret_bind, Exec.ret_run,
    ← List.take_eq_take_min]

end FileSystem
end ComputeKernel
