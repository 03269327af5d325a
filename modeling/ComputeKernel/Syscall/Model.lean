import ComputeKernel.Process.Model
import ComputeKernel.Drivers.Vga
import ComputeKernel.Drivers.Keyboard

/-! The system call layer (`kernel/src/syscall/mod.rs`) with every check that Rust
makes. User memory is a partial map, and interrupts arrive in batches at the points
where the code can be interrupted. -/
namespace ComputeKernel
open Checked (Exec)

/-! System call numbers, `SYS_READ` and so on. -/
namespace Number

def read : UInt64 := 0
def write : UInt64 := 1
def open_ : UInt64 := 2
def close : UInt64 := 3
def brk : UInt64 := 12
def getpid : UInt64 := 39
def fork : UInt64 := 57
def execve : UInt64 := 59
def exit : UInt64 := 60
def wait4 : UInt64 := 61
def kill : UInt64 := 62
def getppid : UInt64 := 110
def exitGroup : UInt64 := 231

end Number

def oWronly : Int32 := 0x1
def oRdwr : Int32 := 0x2
def oAccmode : Int32 := 0x3

inductive PseudoNode where
  | procVersion
  | procUptime
  | procMeminfo
  | sysHostname
  | devNull
  | devZero
  | devFull
  | devTtyS0
  deriving DecidableEq, Repr

/-- The nodes that `sys_open` refuses to open for writing. -/
def PseudoNode.readOnly : PseudoNode → Bool
  | .procVersion => true
  | .procUptime => true
  | .procMeminfo => true
  | .sysHostname => true
  | _ => false

structure OpenFile where
  node : PseudoNode
  offset : UInt64
  deriving DecidableEq, Repr

inductive Errno where
  | perm
  | noEnt
  | srch
  | intr
  | badF
  | acces
  | fault
  | noSpc
  | noSys
  deriving DecidableEq, Repr

/-- `Errno::… as i64`. -/
def Errno.code : Errno → Int
  | .perm => -1
  | .noEnt => -2
  | .srch => -3
  | .intr => -4
  | .badF => -9
  | .acces => -13
  | .fault => -14
  | .noSpc => -28
  | .noSys => -38

structure SyscallFrame where
  num : UInt64
  rdi : UInt64
  rsi : UInt64
  rdx : UInt64
  r10 : UInt64
  r8 : UInt64
  r9 : UInt64
  deriving DecidableEq, Repr

/-- What can happen between two steps of a system call: a tick, a scancode that
reaches the controller, or the keyboard interrupt. -/
inductive Irq where
  | timer
  | scancode (byte : UInt8)
  | keyboard
  deriving DecidableEq, Repr

structure Kernel where
  procs : Procs
  fdTable : List (Option OpenFile)
  memory : UInt64 → Option UInt8
  keyboard : Keyboard
  screen : Vga.Writer
  serial : List Char
  arrivals : List (List Irq)

/-- `rdi as i32` and the like. -/
def asI32 (register : UInt64) : Int32 := register.toUInt32.toInt32

/-- `fd as usize`, which extends the sign. -/
def asUsize (fd : Int32) : Nat := fd.toInt64.toUInt64.toNat

/-- `value as i64` of an unsigned 64-bit value. -/
def asI64 (value : Nat) : Int := (Int64.ofNat value).toInt

/-- A `Vec` holds at most `isize::MAX` bytes, 16 for each slot of the descriptor table. -/
def fdCapacity : Nat := 2 ^ 59

/-- The same bound for the process table, whose entries take more than 32 bytes. -/
def processCapacity : Nat := 2 ^ 58

namespace Kernel

def onProcs (m : Exec Procs α) : Exec Kernel α :=
  m.zoom Kernel.procs (fun procs k => { k with procs })

def onKeyboard (m : Exec Keyboard α) : Exec Kernel α :=
  m.zoom Kernel.keyboard (fun keyboard k => { k with keyboard })

def onScreen (m : Exec Vga.Writer α) : Exec Kernel α :=
  m.zoom Kernel.screen (fun screen k => { k with screen })

/-- `_serial_print`. The driver of the port always returns `Ok`. -/
def serialPrint (text : List Char) : Exec Kernel Unit := do
  Exec.modify (fun k => { k with serial := k.serial ++ text })
  Exec.unwrap (.ok () : Except Unit Unit)

/-- `_kprint`. -/
def kprint (bytes : List UInt8) : Exec Kernel Unit := do
  onScreen (Vga.Writer.writeString bytes)
  Exec.unwrap (.ok () : Except Unit Unit)

def interrupt : Irq → Exec Kernel Unit
  | .timer => Exec.modify (fun k => { k with procs := k.procs.tick })
  | .scancode byte => Exec.modify (fun k =>
      { k with keyboard := { k.keyboard with controller := k.keyboard.controller ++ [byte] } })
  | .keyboard => do
      let echo ← onKeyboard Keyboard.handleInterrupt
      serialPrint echo

/-- The interrupts that arrive at this point, if any. -/
def pending : Exec Kernel Unit := do
  let k ← Exec.get
  match k.arrivals with
  | [] => Exec.ret ()
  | batch :: rest => do
      Exec.modify (fun k => { k with arrivals := rest })
      Exec.forEach batch interrupt

/-- `hlt` waits for the next interrupts, for good when none will arrive. -/
def hlt : Exec Kernel Unit := do
  let k ← Exec.get
  match k.arrivals with
  | [] => Exec.halt
  | _ :: _ => pending

def readByte (address : UInt64) : Exec Kernel UInt8 := do
  let k ← Exec.get
  match k.memory address with
  | some byte => Exec.ret byte
  | none => Exec.fault address

def writeByte (address : UInt64) (byte : UInt8) : Exec Kernel Unit := do
  let k ← Exec.get
  match k.memory address with
  | some _ => Exec.modify (fun k =>
      { k with memory := fun a => if a = address then some byte else k.memory a })
  | none => Exec.fault address

/-- `slice::from_raw_parts`: a slice has at most `isize::MAX` bytes. -/
def fromRawParts (buf count : UInt64) : Exec Kernel Unit :=
  if count.toNat < 2 ^ 63 then Exec.ret () else Exec.fault buf

def readBytes (buf : UInt64) : Nat → Exec Kernel (List UInt8)
  | 0 => Exec.ret []
  | count + 1 => do
      let byte ← readByte buf
      let bytes ← readBytes (buf + 1) count
      Exec.ret (byte :: bytes)

def writeBytes (buf : UInt64) : List UInt8 → Exec Kernel Unit
  | [] => Exec.ret ()
  | byte :: bytes => do
      writeByte buf byte
      writeBytes (buf + 1) bytes

/-- `out[i] = byte` for a slice of user memory. -/
def storeAt (buf : UInt64) (len i : Nat) (byte : UInt8) : Exec Kernel Unit :=
  if i < len then writeByte (buf + UInt64.ofNat i) byte else Exec.panic .bounds

/-- `out[..n].copy_from_slice(source)`. -/
def copyFromSlice (buf : UInt64) (len n : Nat) (source : List UInt8) : Exec Kernel Unit :=
  if n ≤ len ∧ source.length = n then writeBytes buf source else Exec.panic .bounds

def pollChar : Exec Kernel (Option UInt8) := do
  let k ← Exec.get
  let ((byte, echo), keyboard) := k.keyboard.pollChar
  Exec.modify (fun k => { k with keyboard })
  serialPrint echo
  Exec.ret byte

/-- `try_read_char().or_else(|| poll_char())`. -/
def readChar : Exec Kernel (Option UInt8) := do
  pending
  let byte ← onKeyboard Keyboard.tryReadChar
  match byte with
  | some byte => Exec.ret (some byte)
  | none => do
      pending
      pollChar

/-- The first loop on standard input: `false` when the caller has died. Each turn
but the last uses up a batch of interrupts, so the fuel only has to exceed their
number. -/
def readFirst (buf : UInt64) (len : Nat) : Nat → Exec Kernel Bool
  | 0 => Exec.halt
  | fuel + 1 => do
      pending
      let k ← Exec.get
      if k.procs.currentIsZombie then Exec.ret false
      else do
        let ch ← readChar
        match ch with
        | some ch => do
            storeAt buf len 0 ch
            Exec.ret true
        | none => do
            hlt
            readFirst buf len fuel

/-- The second loop, which goes on while characters are there and the slice has
`room` for them. -/
def readRest (buf : UInt64) (len : Nat) : Nat → Nat → Exec Kernel Nat
  | 0, read => Exec.ret read
  | room + 1, read => do
      let ch ← readChar
      match ch with
      | none => Exec.ret read
      | some ch => do
          storeAt buf len read ch
          let read ← Exec.usizeAdd read 1
          if ch = 0x0a ∨ ch = 0x0d then Exec.ret read else readRest buf len room read

def readStdin (buf : UInt64) (len : Nat) : Exec Kernel Int := do
  let k ← Exec.get
  let alive ← readFirst buf len (k.arrivals.length + 1)
  if alive then do
    let read ← readRest buf len (len - 1) 1
    Exec.ret (asI64 read)
  else Exec.ret Errno.intr.code

def readStatic (buf : UInt64) (len : Nat) (offset : UInt64) (content : List UInt8) :
    Exec Kernel Nat :=
  if offset.toNat ≥ content.length then Exec.ret 0
  else do
    let available ← Exec.sliceFrom content offset.toNat
    let n := min available.length len
    let source ← Exec.sliceTo available n
    copyFromSlice buf len n source
    Exec.ret n

/-- The bytes of an ASCII text. -/
def asciiBytes (text : String) : List UInt8 := text.toList.map (fun c => UInt8.ofNat c.toNat)

def uptimeText (ticks : UInt64) : String :=
  let seconds := toString (ticks / 100).toNat
  seconds ++ ".00 " ++ seconds ++ ".00\n"

def readNode (file : OpenFile) (buf : UInt64) (len : Nat) : Exec Kernel Nat :=
  match file.node with
  | .procVersion =>
      readStatic buf len file.offset (asciiBytes "ComputeKERNEL version 1.0.0 (Rust nightly)\n")
  | .procUptime => do
      let k ← Exec.get
      readStatic buf len file.offset (asciiBytes (uptimeText k.procs.tickCount))
  | .procMeminfo =>
      readStatic buf len file.offset
        (asciiBytes "MemTotal:         102400 kB\nMemFree:           51200 kB\n")
  | .sysHostname => readStatic buf len file.offset (asciiBytes "computekernel\n")
  | .devNull => Exec.ret 0
  | .devZero => do
      writeBytes buf (List.replicate len 0)
      Exec.ret len
  | .devFull => do
      writeBytes buf (List.replicate len 0)
      Exec.ret len
  | .devTtyS0 => Exec.ret 0

def saturatingAdd (offset : UInt64) (n : Nat) : UInt64 :=
  UInt64.ofNat (min (offset.toNat + n) (2 ^ 64 - 1))

/-- `table.get_mut(fd as usize - 3)` and the file in the slot. -/
def lookup (fd : Int32) : Exec Kernel (Option (Nat × OpenFile)) := do
  let idx ← Exec.usizeSub (asUsize fd) 3
  let k ← Exec.get
  match k.fdTable[idx]? with
  | some (some file) => Exec.ret (some (idx, file))
  | _ => Exec.ret none

def sysRead (fd : Int32) (buf count : UInt64) : Exec Kernel Int :=
  if count = 0 then Exec.ret 0
  else if buf = 0 then Exec.ret Errno.fault.code
  else do
    fromRawParts buf count
    if fd = 0 then readStdin buf count.toNat
    else do
      let slot ← lookup fd
      match slot with
      | none => Exec.ret Errno.badF.code
      | some (idx, file) => do
          let n ← readNode file buf count.toNat
          let file := { file with offset := saturatingAdd file.offset n }
          Exec.modify (fun k => { k with fdTable := k.fdTable.set idx (some file) })
          Exec.ret (asI64 n)

/-- `core::str::from_utf8`. -/
def fromUtf8 (bytes : List UInt8) : Option String := String.fromUTF8? (ByteArray.mk bytes.toArray)

def writeConsole (buf count : UInt64) : Exec Kernel Int := do
  fromRawParts buf count
  let bytes ← readBytes buf count.toNat
  match fromUtf8 bytes with
  | some text => do
      serialPrint text.toList
      kprint bytes
      Exec.ret (asI64 count.toNat)
  | none => Exec.ret (asI64 count.toNat)

/-- `byte as char`. -/
def asChar (byte : UInt8) : Char := Char.ofNat byte.toNat

def writeNode (node : PseudoNode) (buf count : UInt64) : Exec Kernel Int :=
  match node with
  | .devNull => Exec.ret (asI64 count.toNat)
  | .devZero => Exec.ret (asI64 count.toNat)
  | .devFull => Exec.ret Errno.noSpc.code
  | .devTtyS0 => do
      let bytes ← readBytes buf count.toNat
      Exec.forEach bytes (fun byte => serialPrint [asChar byte])
      Exec.ret (asI64 count.toNat)
  | _ => Exec.ret Errno.perm.code

def sysWrite (fd : Int32) (buf count : UInt64) : Exec Kernel Int :=
  if count = 0 then Exec.ret 0
  else if buf = 0 then Exec.ret Errno.fault.code
  else if fd = 1 ∨ fd = 2 then writeConsole buf count
  else do
    fromRawParts buf count
    let slot ← lookup fd
    match slot with
    | none => Exec.ret Errno.badF.code
    | some (_, file) => writeNode file.node buf count

def readUserBytes : Nat → UInt64 → List UInt8 → Exec Kernel (Option String)
  | 0, _, _ => Exec.ret none
  | left + 1, ptr, bytes => do
      let b ← readByte ptr
      if b = 0 then Exec.ret (fromUtf8 bytes)
      else readUserBytes left (ptr + 1) (bytes ++ [b])

def readUserCstr (ptr : UInt64) (maxLen : Nat) : Exec Kernel (Option String) :=
  if ptr = 0 then Exec.ret none else readUserBytes maxLen ptr []

def pathNode (path : String) : Option PseudoNode :=
  if path = "/proc/version" then some .procVersion
  else if path = "/proc/uptime" then some .procUptime
  else if path = "/proc/meminfo" then some .procMeminfo
  else if path = "/sys/kernel/hostname" then some .sysHostname
  else if path = "/dev/null" then some .devNull
  else if path = "/dev/zero" then some .devZero
  else if path = "/dev/full" then some .devFull
  else if path = "/dev/ttyS0" then some .devTtyS0
  else none

def writeRequested (flags : Int32) : Bool :=
  let access := flags &&& oAccmode
  access == oWronly || access == oRdwr

/-- Takes the first free slot, or pushes a new one. -/
def install (file : OpenFile) : Exec Kernel Int := do
  let k ← Exec.get
  match k.fdTable.findIdx? Option.isNone with
  | some idx => do
      Exec.modify (fun k => { k with fdTable := k.fdTable.set idx (some file) })
      Exec.i64Add (asI64 idx) 3
  | none =>
      if k.fdTable.length + 1 < fdCapacity then do
        Exec.modify (fun k => { k with fdTable := k.fdTable ++ [some file] })
        let last ← Exec.i64Add (asI64 (k.fdTable.length + 1)) (-1)
        Exec.i64Add last 3
      else Exec.exhaust

def sysOpen (path : UInt64) (flags : Int32) : Exec Kernel Int :=
  if path = 0 then Exec.ret Errno.fault.code
  else do
    let text ← readUserCstr path 256
    match text with
    | none => Exec.ret Errno.fault.code
    | some text =>
        match pathNode text with
        | none => Exec.ret Errno.noEnt.code
        | some node =>
            if writeRequested flags && node.readOnly then Exec.ret Errno.acces.code
            else install { node, offset := 0 }

def sysClose (fd : Int32) : Exec Kernel Int :=
  if fd < 3 then Exec.ret 0
  else do
    let slot ← lookup fd
    match slot with
    | none => Exec.ret Errno.badF.code
    | some (idx, _) => do
        Exec.modify (fun k => { k with fdTable := k.fdTable.set idx none })
        Exec.ret 0

def sysGetpid : Exec Kernel Int := do
  pending
  let k ← Exec.get
  Exec.ret k.procs.currentPid.toNat

def sysGetppid : Exec Kernel Int := do
  pending
  let k ← Exec.get
  match k.procs.caller with
  | some p => Exec.ret p.parentPid.toNat
  | none => Exec.ret Errno.srch.code

def sysFork : Exec Kernel Int := do
  pending
  let k ← Exec.get
  if k.procs.fork.2.table.length < processCapacity then do
    Exec.modify (fun k => { k with procs := k.procs.fork.2 })
    match k.procs.fork.1 with
    | .ok child => Exec.ret child.toNat
    | .error _ => Exec.ret Errno.noSys.code
  else Exec.exhaust

def sysExecve (path : UInt64) : Exec Kernel Int :=
  if path = 0 then Exec.ret Errno.fault.code
  else do
    let text ← readUserCstr path 256
    match text with
    | none => Exec.ret Errno.fault.code
    | some text => do
        pending
        let k ← Exec.get
        Exec.modify (fun k => { k with procs := (k.procs.execve text).2 })
        match (k.procs.execve text).1 with
        | .ok _ => Exec.ret 0
        | .error _ => Exec.ret Errno.noEnt.code

/-- The scan of `schedule` over the offsets that are left. -/
def probe (start : Nat) : List Nat → Exec Procs Unit
  | [] => Exec.ret ()
  | i :: rest => do
      let s ← Exec.get
      let sum ← Exec.usizeAdd start i
      let p ← Exec.index s.table (sum % s.table.length)
      if p.runnable then Exec.modify (fun s => { s with currentPid := p.pid })
      else probe start rest

def scheduleMessage (pid : UInt32) : String :=
  "[SCHED] current PID " ++ toString pid ++ " not found; restarting from slot 0\n"

def forceSchedule : Exec Kernel Unit := do
  pending
  let k ← Exec.get
  let n := k.procs.table.length
  if n = 0 then Exec.modify (fun k => { k with procs := { k.procs with currentPid := 0 } })
  else
    match k.procs.table.findIdx? (fun p => p.pid == k.procs.currentPid) with
    | some start => onProcs (probe start (List.range' 1 n))
    | none => do
        serialPrint (scheduleMessage k.procs.currentPid).toList
        onProcs (probe 0 (List.range' 1 n))

def exitMessage (pid : UInt32) (code : Int32) : String :=
  "[PROC] pid " ++ toString pid ++ " exiting with code " ++ toString code ++ "\n"

def sysExit (code : Int32) : Exec Kernel Int := do
  pending
  Exec.modify (fun k => { k with procs := k.procs.exitSection code })
  pending
  let k ← Exec.get
  serialPrint (exitMessage k.procs.currentPid code).toList
  forceSchedule
  Exec.halt

/-- `1u32 << sig`. -/
def shiftOne (sig : UInt8) : Exec Procs UInt32 :=
  if sig < 32 then Exec.ret (1 <<< sig.toUInt32) else Exec.panic .overflow

def killSection (pid : UInt32) (sig : UInt8) : Exec Procs (Except String Unit) := do
  let s ← Exec.get
  match s.table.find? (fun p => p.pid == pid) with
  | none => Exec.ret (.error "kill: process not found")
  | some _ =>
      if sig ≠ 0 then do
        let bit ← shiftOne sig
        Exec.modify (Procs.edit pid (fun p =>
          { p with pendingSignals := p.pendingSignals ||| bit }))
        Exec.ret (.ok ())
      else Exec.ret (.ok ())

def kill (pid : UInt32) (sig : UInt8) : Exec Kernel (Except String Unit) :=
  if sig > 31 then Exec.ret (.error "kill: invalid signal")
  else do
    pending
    onProcs (killSection pid sig)

def sysKill (pid : UInt32) (sig : UInt8) : Exec Kernel Int := do
  let result ← kill pid sig
  match result with
  | .ok _ => Exec.ret 0
  | .error _ => Exec.ret Errno.srch.code

/-- `table.remove(idx)`. -/
def remove (idx : Nat) : Exec Procs Unit := do
  let s ← Exec.get
  if idx < s.table.length then
    Exec.modify (fun s => { s with table := s.table.eraseIdx idx })
  else Exec.panic .bounds

def waitSection (target : Option UInt32) :
    Exec Procs (Except String (Option (UInt32 × Int32))) := do
  let s ← Exec.get
  if s.table.any (s.isChild target) then
    match s.zombieChild target with
    | some (_, idx) => do
        let p ← Exec.index s.table idx
        remove idx
        Exec.ret (.ok (some (p.pid, p.exitCode)))
    | none => Exec.ret (.ok none)
  else Exec.ret (.error "waitpid: no child")

/-- The loop of `waitpid`, with fuel as in `readFirst`. -/
def waitpid (target : Option UInt32) : Nat → Exec Kernel (Except String (UInt32 × Int32))
  | 0 => Exec.halt
  | fuel + 1 => do
      pending
      let result ← onProcs (waitSection target)
      match result with
      | .error message => Exec.ret (.error message)
      | .ok (some child) => Exec.ret (.ok child)
      | .ok none => do
          hlt
          waitpid target fuel

/-- The bytes of an `i32` in memory. -/
def wordBytes (value : Int32) : List UInt8 :=
  let word := value.toUInt32
  [word.toUInt8, (word >>> 8).toUInt8, (word >>> 16).toUInt8, (word >>> 24).toUInt8]

/-- `*status = value`; a pointer to an `i32` is valid only when it is aligned. -/
def writeWord (status : UInt64) (value : Int32) : Exec Kernel Unit :=
  if status % 4 = 0 then writeBytes status (wordBytes value) else Exec.fault status

/-- `if !status.is_null()`. -/
def writeStatus (status : UInt64) (code : Int32) : Exec Kernel Unit :=
  if status = 0 then Exec.ret () else writeWord status ((code &&& 0xff) <<< 8)

def sysWait4 (pid : Int32) (status : UInt64) : Exec Kernel Int := do
  let target := if pid ≤ 0 then none else some pid.toUInt32
  let k ← Exec.get
  let result ← waitpid target (k.arrivals.length + 1)
  match result with
  | .ok (child, code) => do
      writeStatus status code
      Exec.ret child.toNat
  | .error _ => Exec.ret Errno.srch.code

def sysBrk : Exec Kernel Int := Exec.ret 0

def dispatch (frame : SyscallFrame) : Exec Kernel Int :=
  if frame.num = Number.read then sysRead (asI32 frame.rdi) frame.rsi frame.rdx
  else if frame.num = Number.write then sysWrite (asI32 frame.rdi) frame.rsi frame.rdx
  else if frame.num = Number.open_ then sysOpen frame.rdi (asI32 frame.rsi)
  else if frame.num = Number.close then sysClose (asI32 frame.rdi)
  else if frame.num = Number.getpid then sysGetpid
  else if frame.num = Number.fork then sysFork
  else if frame.num = Number.execve then sysExecve frame.rdi
  else if frame.num = Number.exit ∨ frame.num = Number.exitGroup then sysExit (asI32 frame.rdi)
  else if frame.num = Number.wait4 then sysWait4 (asI32 frame.rdi) frame.rsi
  else if frame.num = Number.kill then sysKill frame.rdi.toUInt32 frame.rsi.toUInt8
  else if frame.num = Number.getppid then sysGetppid
  else if frame.num = Number.brk then sysBrk
  else Exec.ret Errno.noSys.code

/-- The kernel after `process::init`, with the static `WRITER` and `KEY_BUFFER`. -/
def boot (decode : List UInt8 → Option DecodedKey) (video : Nat → UInt8)
    (memory : UInt64 → Option UInt8) (arrivals : List (List Irq)) : Kernel :=
  { procs := Procs.boot
    fdTable := []
    memory
    keyboard :=
      { buffer := KeyBuffer.new
        controller := []
        data := 0
        seen := []
        decode }
    screen := Vga.initial video
    serial := []
    arrivals }

end Kernel
end ComputeKernel
