import ComputeKernel.Fs.Vfs
import ComputeKernel.Syscall.Model

/-! The initramfs (`kernel/src/fs/initramfs.rs`): the parser of cpio archives in the
newc format, and the read-only filesystem on top of its entries. -/
namespace ComputeKernel
open Checked (Exec Overflow)
open Kernel (fromUtf8)

variable {σ : Type}

/-- A slice of bytes. Rust has none longer than `isize::MAX`. -/
structure ByteSlice where
  bytes : List UInt8
  short : bytes.length < 2 ^ 63

structure CpioEntry where
  path : String
  inodeNum : UInt64
  mode : UInt32
  size : UInt64
  dataOffset : Nat
  deriving DecidableEq, Repr

structure InitramFs where
  data : ByteSlice
  entries : List CpioEntry

/-- `b"070701"`. -/
def cpioNewcMagic : List UInt8 := [0x30, 0x37, 0x30, 0x37, 0x30, 0x31]

def headerSize : Nat := 110

/-- `char::to_digit(16)` on a byte. -/
def toDigit (byte : UInt8) : Option Nat :=
  if 0x30 ≤ byte ∧ byte ≤ 0x39 then some (byte.toNat - 0x30)
  else if 0x41 ≤ byte ∧ byte ≤ 0x46 then some (byte.toNat - 0x41 + 10)
  else if 0x61 ≤ byte ∧ byte ≤ 0x66 then some (byte.toNat - 0x61 + 10)
  else none

/-- The digit loop of `u32::from_str_radix`. -/
def radixDigits : Nat → List UInt8 → Option Nat
  | acc, [] => some acc
  | acc, byte :: bytes =>
      match toDigit byte with
      | none => none
      | some digit => if acc * 16 + digit < 2 ^ 32 then radixDigits (acc * 16 + digit) bytes else none

/-- `u32::from_str_radix(s, 16).ok()`, which takes a sign. A sign alone is no number. -/
def fromStrRadix (text : List UInt8) : Option UInt32 :=
  match text with
  | [] => none
  | byte :: rest =>
      if byte = 0x2b then
        if rest = [] then none else (radixDigits 0 rest).map UInt32.ofNat
      else (radixDigits 0 text).map UInt32.ofNat

def parseHex8 (buf : List UInt8) : Option UInt32 :=
  match fromUtf8 buf with
  | none => none
  | some _ => fromStrRadix buf

/-- `(x + 3) & !3`, which clears the two low bits. -/
def align4 (x : Nat) : Exec σ Nat := do
  let up ← Exec.usizeAdd x 3
  Exec.ret (up / 4 * 4)

namespace InitramFs

/-- What a turn of the parser's loop finds: a reason to stop, a field or a name that
cannot be read, or an entry and where its data ends. -/
inductive Found where
  | stop
  | unreadable
  | entry (entry : CpioEntry) (dataEnd : Nat)

/-- The bytes from `start` to `stop` behind an offset. -/
def field (data : List UInt8) (offset start stop : Nat) : Exec σ (List UInt8) := do
  let first ← Exec.usizeAdd offset start
  let last ← Exec.usizeAdd offset stop
  Exec.slice data first last

/-- The name of a record and the place of its data. -/
def readRecord (data : List UInt8) (offset : Nat) (inodeNum : UInt64)
    (namesize filesize mode : UInt32) : Exec σ Found := do
  let nameOffset ← Exec.usizeAdd offset headerSize
  let nameEnd ← Exec.usizeAdd nameOffset namesize.toNat
  if nameEnd > data.length then Exec.ret .stop
  else do
    let nul ← Exec.usizeSub nameEnd 1
    let nameBytes ← Exec.slice data nameOffset nul
    match fromUtf8 nameBytes with
    | none => Exec.ret .unreadable
    | some path => do
        let dataStart ← align4 nameEnd
        let dataEnd ← Exec.usizeAdd dataStart filesize.toNat
        if path = "TRAILER!!!" then Exec.ret .stop
        else Exec.ret (.entry
          { path
            inodeNum
            mode
            size := filesize.toUInt64
            dataOffset := dataStart } dataEnd)

/-- One turn of the loop of `new`, at a header that lies in the data. -/
def readEntry (data : List UInt8) (offset : Nat) (inodeNum : UInt64) : Exec σ Found := do
  let magic ← field data offset 0 6
  if magic ≠ cpioNewcMagic then Exec.ret .stop
  else do
    let namesize ← field data offset 94 102
    match parseHex8 namesize with
    | none => Exec.ret .unreadable
    | some namesize => do
        let filesize ← field data offset 54 62
        match parseHex8 filesize with
        | none => Exec.ret .unreadable
        | some filesize => do
            let mode ← field data offset 14 22
            match parseHex8 mode with
            | none => Exec.ret .unreadable
            | some mode => readRecord data offset inodeNum namesize filesize mode

/-- The loop of `new`, for a number of turns. -/
def parse (data : List UInt8) : Nat → List CpioEntry → Nat → UInt64 → Exec σ (Option (List CpioEntry))
  | 0, _, _, _ => Exec.halt
  | turns + 1, entries, offset, inodeNum => do
      let headerEnd ← Exec.usizeAdd offset headerSize
      if headerEnd ≤ data.length then do
        match ← readEntry data offset inodeNum with
        | .stop => Exec.ret (some entries)
        | .unreadable => Exec.ret none
        | .entry entry dataEnd => do
            let inodeNum ← Exec.u64Add .panics inodeNum 1
            let offset ← align4 dataEnd
            parse data turns (entries ++ [entry]) offset inodeNum
      else Exec.ret (some entries)

/-- Every turn but the last moves on, so there are no more than the data has bytes. -/
def new (data : ByteSlice) : Exec σ (Option InitramFs) := do
  let entries ← parse data.bytes (data.bytes.length + 1) [] 0 2
  Exec.ret (entries.map (fun entries => { data, entries }))

/-- `trim_start_matches('/')`. -/
def trimSlashes (path : String) : String := String.ofList (path.toList.dropWhile (fun c => c = '/'))

def find (fs : InitramFs) (path : String) : Option CpioEntry :=
  fs.entries.find? (fun e => e.path = path ∨ e.path = trimSlashes path)

/-- The entry of an inode. -/
def findInode (fs : InitramFs) (inode : Inode) : Option CpioEntry :=
  fs.entries.find? (fun e => e.inodeNum = inode.inodeNum)

def lookup (fs : InitramFs) (path : String) : Except VfsError Inode :=
  if path = "/" ∨ path = "" then .ok (Inode.new 1 .directory)
  else
    match fs.find path with
    | none => .error .notFound
    | some entry =>
        let kind : InodeKind :=
          if entry.mode &&& 0xF000 = 0x4000 then .directory
          else if entry.mode &&& 0xF000 = 0xA000 then .symlink
          else .regularFile
        .ok { Inode.new entry.inodeNum kind with
          size := entry.size
          mode := entry.mode.toUInt16 }

def read (overflow : Overflow) (fs : InitramFs) (inode : Inode) (offset : UInt64) (buf : List UInt8) :
    Exec σ (Except VfsError Nat × List UInt8) :=
  match fs.findInode inode with
  | none => Exec.ret (.error .notFound, buf)
  | some entry => do
      let start ← Exec.u64Add overflow (UInt64.ofNat entry.dataOffset) offset
      let stop ← Exec.u64Add overflow (UInt64.ofNat entry.dataOffset) entry.size
      if start ≥ stop then Exec.ret (.ok 0, buf)
      else do
        let available ← Exec.slice fs.data.bytes start.toNat stop.toNat
        FileSystem.copyAvailable buf available

/-- The directory entry that `readdir` makes of an entry of the archive, if it takes
the entry for a child of the directory. -/
def child (dir : String) (entry : CpioEntry) : Option DirEntry :=
  if dir.toList.isPrefixOf entry.path.toList then
    let name := (entry.path.toList.drop dir.toList.length).dropWhile (fun c => c = '/')
    if '/' ∈ name ∨ name = [] then none
    else
      some
        { name := String.ofList name
          inodeNum := entry.inodeNum
          kind := if entry.mode &&& 0xF000 = 0x4000 then .directory else .regularFile }
  else none

def readdir (fs : InitramFs) (inode : Inode) : Except VfsError (List DirEntry) :=
  if inode.inodeNum = 1 then .ok (fs.entries.filterMap (child ""))
  else
    match fs.findInode inode with
    | none => .error .notFound
    | some entry => .ok (fs.entries.filterMap (child entry.path))

def fileSystem (overflow : Overflow) (fs : InitramFs) : FileSystem σ where
  name := "initramfs"
  lookup := fs.lookup
  read := fs.read overflow
  write := fun _ _ _ => Exec.ret (.error .permissionDenied)
  readdir := fs.readdir
  create := fun _ _ _ _ => .error .permissionDenied
  unlink := fun _ _ => .error .permissionDenied

end InitramFs
end ComputeKernel
