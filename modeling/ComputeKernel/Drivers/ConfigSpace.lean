import ComputeKernel.Support.Sections
import ComputeKernel.Drivers.Pci

/-! Reads and writes of PCI configuration space (`kernel/src/drivers/pci.rs`). Both ports
stand for the one register that the last address written selects, so an access is a pair of
port operations, which `PCI_LOCK` keeps together. What is behind the ports is a parameter. -/
namespace ComputeKernel.Pci
open Checked (Exec Finishes)

/-- What the functions on the buses do when a register is read or written. Reads may have
effects, and a register need not hold what is written to it. -/
structure Hardware (Devices : Type) where
  read : UInt32 → Devices → UInt32 × Devices
  write : UInt32 → UInt32 → Devices → Devices

/-- The address port and the functions behind the data port. -/
structure Bus (Devices : Type) where
  configAddress : UInt32
  devices : Devices

variable {Devices : Type}

namespace Hardware

def configRead32 (hardware : Hardware Devices) (bus device function offset : UInt8) :
    Exec (Bus Devices) UInt32 := do
  Exec.modify (fun s => { s with configAddress := address bus device function offset })
  let s ← Exec.get
  Exec.modify (fun s => { s with devices := (hardware.read s.configAddress s.devices).2 })
  Exec.ret (hardware.read s.configAddress s.devices).1

def configWrite32 (hardware : Hardware Devices) (bus device function offset : UInt8) (value : UInt32) :
    Exec (Bus Devices) Unit := do
  Exec.modify (fun s => { s with configAddress := address bus device function offset })
  Exec.modify (fun s => { s with devices := hardware.write s.configAddress value s.devices })

def configRead16 (hardware : Hardware Devices) (bus device function offset : UInt8) :
    Exec (Bus Devices) UInt16 := do
  let dword ← hardware.configRead32 bus device function (offset &&& ~~~2)
  let shift ← Exec.u8Mul (offset &&& 2) 8
  Exec.ret (dword >>> shift.toUInt32).toUInt16

def readBar (hardware : Hardware Devices) (dev : PciDevice) (barIndex : UInt8) :
    Exec (Bus Devices) UInt32 := do
  let scaled ← Exec.u8Mul barIndex 4
  let offset ← Exec.u8Add 0x10 scaled
  hardware.configRead32 dev.bus dev.device dev.function offset

end Hardware

inductive Request where
  | read32 (bus device function offset : UInt8)
  | read16 (bus device function offset : UInt8)
  | readBar (dev : PciDevice) (barIndex : UInt8)
  | write32 (bus device function offset : UInt8) (value : UInt32)
  deriving DecidableEq, Repr

inductive Answer where
  | dword (value : UInt32)
  | word (value : UInt16)
  | written
  deriving DecidableEq, Repr

def Request.run (hardware : Hardware Devices) : Request → Exec (Bus Devices) Answer
  | .read32 bus device function offset => do
      let value ← hardware.configRead32 bus device function offset
      Exec.ret (.dword value)
  | .read16 bus device function offset => do
      let value ← hardware.configRead16 bus device function offset
      Exec.ret (.word value)
  | .readBar dev barIndex => do
      let value ← hardware.readBar dev barIndex
      Exec.ret (.dword value)
  | .write32 bus device function offset value => do
      hardware.configWrite32 bus device function offset value
      Exec.ret .written

/-- The requests one after another, and what they answer. -/
def runAll (hardware : Hardware Devices) (requests : List Request) :
    Exec (Bus Devices) (List Answer) :=
  Exec.foldEach requests [] (fun request answers => do
    let answer ← request.run hardware
    Exec.ret (answers ++ [answer]))

/-- A location that the address has room for. -/
def Addressable : Location → Prop
  | (_, device, function) => device < 32 ∧ function < 8

instance : (l : Location) → Decidable (Addressable l)
  | (_, device, function) => inferInstanceAs (Decidable (device < 32 ∧ function < 8))

/-- `read_bar` computes its offset in a `u8`. -/
def Request.Proper : Request → Prop
  | .read32 bus device function _ => Addressable (bus, device, function)
  | .read16 bus device function _ => Addressable (bus, device, function)
  | .readBar dev barIndex => Addressable dev.location ∧ barIndex < 60
  | .write32 bus device function _ _ => Addressable (bus, device, function)

instance : (request : Request) → Decidable request.Proper
  | .read32 bus device function _ => inferInstanceAs (Decidable (Addressable (bus, device, function)))
  | .read16 bus device function _ => inferInstanceAs (Decidable (Addressable (bus, device, function)))
  | .readBar dev barIndex => inferInstanceAs (Decidable (Addressable dev.location ∧ barIndex < 60))
  | .write32 bus device function _ _ =>
      inferInstanceAs (Decidable (Addressable (bus, device, function)))

/-- What configuration space is for: the functions on the buses, each with registers of its
own, by number. What a register does when it is read or written is up to the function. -/
structure Functions (Devices : Type) where
  read : Location → Nat → Devices → UInt32 × Devices
  write : Location → Nat → UInt32 → Devices → Devices

namespace Functions

/-- What becomes of the functions: each request is one read or one write of a register. -/
def after (functions : Functions Devices) (devices : Devices) : Request → Devices
  | .read32 bus device function offset =>
      (functions.read (bus, device, function) (offset.toNat / 4) devices).2
  | .read16 bus device function offset =>
      (functions.read (bus, device, function) (offset.toNat / 4) devices).2
  | .readBar dev barIndex => (functions.read dev.location (4 + barIndex.toNat) devices).2
  | .write32 bus device function offset value =>
      functions.write (bus, device, function) (offset.toNat / 4) value devices

/-- The answers that the functions give. A word is one half of a register. -/
def answer (functions : Functions Devices) (devices : Devices) : Request → Answer
  | .read32 bus device function offset =>
      .dword (functions.read (bus, device, function) (offset.toNat / 4) devices).1
  | .read16 bus device function offset =>
      .word (UInt16.ofNat (bits (functions.read (bus, device, function) (offset.toNat / 4) devices).1
        (16 * (offset.toNat / 2 % 2)) 16))
  | .readBar dev barIndex => .dword (functions.read dev.location (4 + barIndex.toNat) devices).1
  | .write32 .. => .written

end Functions

/-- The function that a value in the address port names. -/
def selectedFunction (value : UInt32) : Location :=
  (UInt8.ofNat (bits value 16 8), UInt8.ofNat (bits value 11 5), UInt8.ofNat (bits value 8 3))

/-- What is assumed of the bus: a value in the address port with bit 31 set, and with nothing
in the bits that are reserved, lets the data port stand for the register that it names. -/
structure Hardware.Decodes (hardware : Hardware Devices) (functions : Functions Devices) : Prop where
  read : ∀ value, bits value 24 8 = 0x80 → bits value 0 2 = 0 →
    hardware.read value = functions.read (selectedFunction value) (bits value 2 6)
  write : ∀ value, bits value 24 8 = 0x80 → bits value 0 2 = 0 →
    hardware.write value = functions.write (selectedFunction value) (bits value 2 6)

section Addresses

theorem masked_eq (offset : UInt8) : offset.toNat &&& 0xFC = 4 * (offset.toNat / 4) := by
  have every : ∀ n < 256, n &&& 0xFC = 4 * (n / 4) := by decide +kernel
  exact every offset.toNat offset.toNat_lt

/-- The fields of the address that the two accesses write. -/
theorem address_fields {l : Location} (proper : Addressable l) (offset : UInt8) :
    bits (address l.1 l.2.1 l.2.2 offset) 24 8 = 0x80 ∧
      bits (address l.1 l.2.1 l.2.2 offset) 0 2 = 0 ∧
      selectedFunction (address l.1 l.2.1 l.2.2 offset) = l ∧
      bits (address l.1 l.2.1 l.2.2 offset) 2 6 = offset.toNat / 4 := by
  obtain ⟨bus, device, function⟩ := l
  have number := address_toNat proper.1 proper.2 bus offset
  have busSmall := bus.toNat_lt
  have offsetSmall := offset.toNat_lt
  have few : device.toNat < 32 := UInt8.lt_iff_toNat_lt.mp proper.1
  have fewer : function.toNat < 8 := UInt8.lt_iff_toNat_lt.mp proper.2
  rw [masked_eq] at number
  have busField : bits (address bus device function offset) 16 8 = bus.toNat := by
    unfold bits
    omega
  have deviceField : bits (address bus device function offset) 11 5 = device.toNat := by
    unfold bits
    omega
  have functionField : bits (address bus device function offset) 8 3 = function.toNat := by
    unfold bits
    omega
  refine ⟨?_, ?_, ?_, ?_⟩
  · change bits (address bus device function offset) 24 8 = 0x80
    unfold bits
    omega
  · change bits (address bus device function offset) 0 2 = 0
    unfold bits
    omega
  · change selectedFunction (address bus device function offset) = (bus, device, function)
    unfold selectedFunction
    rw [busField, deviceField, functionField, UInt8.ofNat_toNat, UInt8.ofNat_toNat,
      UInt8.ofNat_toNat]
  · change bits (address bus device function offset) 2 6 = offset.toNat / 4
    unfold bits
    omega

/-- The half of a dword that an offset selects. -/
theorem half_eq (dw : UInt32) (offset : UInt8) :
    (dw >>> ((offset &&& 2) * 8).toUInt32).toUInt16 =
      UInt16.ofNat (bits dw (16 * (offset.toNat / 2 % 2)) 16) := by
  have every : ∀ n < 256, (n &&& 2) * 8 % 256 = 16 * (n / 2 % 2) := by decide +kernel
  have shift : ((offset &&& 2) * 8).toUInt32.toNat = 16 * (offset.toNat / 2 % 2) := by
    rw [UInt8.toNat_toUInt32, UInt8.toNat_mul, UInt8.toNat_and]
    exact every offset.toNat offset.toNat_lt
  have small : 16 * (offset.toNat / 2 % 2) < 32 := by omega
  rw [← UInt16.toNat_inj, UInt32.toNat_toUInt16, UInt32.toNat_shiftRight, shift,
    Nat.mod_eq_of_lt small, Nat.shiftRight_eq_div_pow, UInt16.toNat_ofNat', bits, Nat.mod_mod]

end Addresses

section Requests

variable {hardware : Hardware Devices} {functions : Functions Devices} {s : Bus Devices}
  {bus device function offset : UInt8}

namespace Hardware

theorem configRead32_reads (decodes : hardware.Decodes functions)
    (proper : Addressable (bus, device, function)) :
    Finishes (hardware.configRead32 bus device function offset)
      (fun value s' =>
        (value, s'.devices) = functions.read (bus, device, function) (offset.toNat / 4) s.devices) s := by
  obtain ⟨enabled, aligned, named, register⟩ := address_fields proper offset
  have read := decodes.read _ enabled aligned
  rw [named, register] at read
  refine Finishes.bind (Finishes.modify (Finishes.bind (Finishes.get (Finishes.bind
    (Finishes.modify (Finishes.ret ?_))))))
  rw [← read]

theorem configWrite32_writes (decodes : hardware.Decodes functions)
    (proper : Addressable (bus, device, function)) (value : UInt32) :
    Finishes (hardware.configWrite32 bus device function offset value)
      (fun _ s' =>
        s'.devices = functions.write (bus, device, function) (offset.toNat / 4) value s.devices) s := by
  obtain ⟨enabled, aligned, named, register⟩ := address_fields proper offset
  have write := decodes.write _ enabled aligned
  rw [named, register] at write
  refine Finishes.bind (Finishes.modify (Finishes.modify ?_))
  rw [← write]

theorem configRead16_reads (decodes : hardware.Decodes functions)
    (proper : Addressable (bus, device, function)) :
    Finishes (hardware.configRead16 bus device function offset)
      (fun value s' =>
        value = UInt16.ofNat (bits (functions.read (bus, device, function) (offset.toNat / 4)
          s.devices).1 (16 * (offset.toNat / 2 % 2)) 16) ∧
        s'.devices = (functions.read (bus, device, function) (offset.toNat / 4) s.devices).2) s := by
  have aligned : (offset &&& ~~~2).toNat / 4 = offset.toNat / 4 := by
    have every : ∀ n < 256, (n &&& 253) / 4 = n / 4 := by decide +kernel
    rw [UInt8.toNat_and]
    exact every offset.toNat offset.toNat_lt
  have scaled : (offset &&& 2).toNat * (8 : UInt8).toNat < 2 ^ 8 := by
    have small : (offset &&& 2).toNat ≤ 2 := by
      rw [UInt8.toNat_and]
      exact Nat.and_le_right
    have eight : (8 : UInt8).toNat = 8 := rfl
    rw [eight]
    omega
  refine Finishes.andThen (configRead32_reads decodes proper) ?_
  intro value s' read
  rw [aligned] at read
  refine Finishes.bind (Finishes.of_done (Exec.u8Mul_of_lt scaled s') ?_)
  refine Finishes.ret ⟨?_, congrArg Prod.snd read⟩
  rw [← congrArg Prod.fst read]
  exact half_eq value offset

theorem readBar_reads {dev : PciDevice} {barIndex : UInt8} (decodes : hardware.Decodes functions)
    (proper : Addressable dev.location) (inside : barIndex < 60) :
    Finishes (hardware.readBar dev barIndex)
      (fun value s' =>
        (value, s'.devices) = functions.read dev.location (4 + barIndex.toNat) s.devices) s := by
  have few : barIndex.toNat < 60 := UInt8.lt_iff_toNat_lt.mp inside
  have four : (4 : UInt8).toNat = 4 := rfl
  have base : (0x10 : UInt8).toNat = 16 := rfl
  have product : (barIndex * 4).toNat = barIndex.toNat * 4 := by
    rw [UInt8.toNat_mul, four, Nat.mod_eq_of_lt (by omega)]
  have total : (0x10 + barIndex * 4 : UInt8).toNat / 4 = 4 + barIndex.toNat := by
    rw [UInt8.toNat_add, product, base, Nat.mod_eq_of_lt (by omega)]
    omega
  refine Finishes.bind (Finishes.of_done (Exec.u8Mul_of_lt (by rw [four]; omega) s) ?_)
  refine Finishes.bind (Finishes.of_done (Exec.u8Add_of_lt (by omega) s) ?_)
  rw [← total]
  exact configRead32_reads decodes proper

end Hardware

theorem Request.run_reaches (decodes : hardware.Decodes functions) {request : Request}
    (proper : request.Proper) :
    Finishes (request.run hardware)
      (fun answer s' => answer = functions.answer s.devices request ∧
        s'.devices = functions.after s.devices request) s := by
  cases request with
  | read32 bus device function offset =>
      refine Finishes.andThen (Hardware.configRead32_reads decodes proper) ?_
      intro value s' read
      exact Finishes.ret ⟨congrArg Answer.dword (congrArg Prod.fst read), congrArg Prod.snd read⟩
  | read16 bus device function offset =>
      refine Finishes.andThen (Hardware.configRead16_reads decodes proper) ?_
      intro value s' read
      exact Finishes.ret ⟨congrArg Answer.word read.1, read.2⟩
  | readBar dev barIndex =>
      refine Finishes.andThen (Hardware.readBar_reads decodes proper.1 proper.2) ?_
      intro value s' read
      exact Finishes.ret ⟨congrArg Answer.dword (congrArg Prod.fst read), congrArg Prod.snd read⟩
  | write32 bus device function offset value =>
      refine Finishes.andThen (Hardware.configWrite32_writes decodes proper value) ?_
      intro _ s' written
      exact Finishes.ret ⟨rfl, written⟩

theorem foldEach_reaches (decodes : hardware.Decodes functions) {requests : List Request}
    (proper : ∀ request ∈ requests, request.Proper) (answers : List Answer) :
    Finishes (Exec.foldEach requests answers (fun request answers => do
        let answer ← request.run hardware
        Exec.ret (answers ++ [answer])))
      (fun all s' =>
        all = answers ++ Runs.outputs functions.after
          (fun devices request => some (functions.answer devices request)) s.devices requests ∧
        s'.devices = Runs.run functions.after s.devices requests) s := by
  induction requests generalizing s answers with
  | nil => exact Finishes.ret ⟨(List.append_nil answers).symm, rfl⟩
  | cons request requests ih =>
      refine Finishes.bind (Finishes.andThen
        (request.run_reaches decodes (proper request List.mem_cons_self)) ?_)
      rintro _ s' ⟨rfl, left⟩
      apply Finishes.ret
      refine Finishes.mono (ih (fun other member =>
        proper other (List.mem_cons_of_mem request member)) _) ?_
      rintro _ s'' ⟨rfl, left'⟩
      rw [left] at left' ⊢
      refine ⟨?_, left'⟩
      rw [List.append_assoc]
      rfl

/-- Whatever the functions on the buses do: each call is one read or one write of the one
register that it names, on the function that it names, and answers with what that register
gave; no other register is accessed. -/
theorem requests_reach_their_registers (decodes : hardware.Decodes functions) (s : Bus Devices)
    (requests : List Request) (proper : ∀ request ∈ requests, request.Proper) :
    Finishes (runAll hardware requests)
      (fun answers s' =>
        answers = Runs.outputs functions.after
          (fun devices request => some (functions.answer devices request)) s.devices requests ∧
        s'.devices = Runs.run functions.after s.devices requests) s :=
  foldEach_reaches decodes proper []

/-- A card whose identification cannot be written, whose base address register keeps the
upper half of what is written, and which counts the reads of its last register; and nothing
else on the buses. -/
def card : Functions (UInt32 × UInt32) where
  read l register devices :=
    if l = (0, 3, 0) then
      if register = 0 then (0x100E8086, devices)
      else if register = 4 then (devices.1, devices)
      else if register = 63 then (devices.2, (devices.1, devices.2 + 1))
      else (0, devices)
    else (0xFFFFFFFF, devices)
  write l register value devices :=
    if l = (0, 3, 0) ∧ register = 4 then (value &&& 0xFFFF0000, devices.2) else devices

/-- Hardware that takes the fields of any value in the address port. -/
def Functions.wired (functions : Functions Devices) : Hardware Devices where
  read value := functions.read (selectedFunction value) (bits value 2 6)
  write value := functions.write (selectedFunction value) (bits value 2 6)

theorem Functions.wired_decodes (functions : Functions Devices) : functions.wired.Decodes functions where
  read _ _ _ := rfl
  write _ _ _ := rfl

/-- The register is written on two buses, read back whole and by its upper half, and one
register is read twice. -/
theorem requests_reach_their_registers_card :
    let dev : PciDevice :=
      { bus := 0, device := 3, function := 0, vendorId := 0x8086, deviceId := 0x100E, class_ := 2,
        subclass := 0, progIf := 0, revision := 3, headerType := 0 }
    Finishes (runAll card.wired [.write32 0 3 0 0x10 0xFEBC1234, .write32 1 3 0 0x10 7,
        .readBar dev 0, .read16 0 3 0 0x12, .read32 0 3 0 0xFC, .readBar dev 59, .read32 0 4 0 0])
      (fun answers _ => answers = [.written, .written, .dword 0xFEBC0000, .word 0xFEBC, .dword 0,
        .dword 1, .dword 0xFFFFFFFF])
      { configAddress := 0, devices := (0, 0) } := by
  refine Finishes.mono (requests_reach_their_registers card.wired_decodes _ _ ?_) (fun _ _ left => ?_)
  · decide
  · rw [left.1]
    decide

end Requests

section Callers

variable {ι : Type}

inductive Access where
  | read32 (bus device function offset : UInt8)
  | write32 (bus device function offset : UInt8) (value : UInt32)

def Access.Result : Access → Type
  | .read32 .. => UInt32
  | .write32 .. => Unit

/-- The port operations of `config_read32` and `config_write32` under `PCI_LOCK`. -/
def Access.ports (hardware : Hardware Devices) :
    (access : Access) → Sections.Section (Bus Devices) access.Result
  | .read32 bus device function offset =>
      .access (fun s => { s with configAddress := address bus device function offset }) (fun _ =>
        .access (fun s => { s with devices := (hardware.read s.configAddress s.devices).2 }) (fun s =>
          .leave (hardware.read s.configAddress s.devices).1))
  | .write32 bus device function offset value =>
      .access (fun s => { s with configAddress := address bus device function offset }) (fun _ =>
        .access (fun s => { s with devices := hardware.write s.configAddress value s.devices }) (fun _ =>
          .leave ()))

/-- An access as one operation on the function that it names. -/
def Access.perform (hardware : Hardware Devices) :
    (access : Access) → Devices → access.Result × Devices
  | .read32 bus device function offset => hardware.read (address bus device function offset)
  | .write32 bus device function offset value => fun devices =>
      ((), hardware.write (address bus device function offset) value devices)

theorem Access.ports_perform (hardware : Hardware Devices) :
    Sections.Serves Bus.devices (Access.ports hardware) (Access.perform hardware) := by
  intro access s
  cases access with
  | read32 bus device function offset => exact ⟨rfl, rfl⟩
  | write32 bus device function offset value => exact ⟨rfl, rfl⟩

def Bus.outcome {β : Type} (left : β × Bus Devices) : Checked.Outcome (Bus Devices) β :=
  .done left.1 left.2

/-- Undisturbed, the port operations of a read are those of `config_read32`. -/
theorem configRead32_eq_ports (hardware : Hardware Devices) (bus device function offset : UInt8)
    (s : Bus Devices) :
    hardware.configRead32 bus device function offset s =
      Bus.outcome (((Access.read32 bus device function offset).ports hardware).run s) := rfl

theorem configWrite32_eq_ports (hardware : Hardware Devices) (bus device function offset : UInt8)
    (value : UInt32) (s : Bus Devices) :
    hardware.configWrite32 bus device function offset value s =
      Bus.outcome (((Access.write32 bus device function offset value).ports hardware).run s) :=
  rfl

/-- The dwords that the enumeration reads, as registers that a read leaves alone. -/
def fixed (space : UInt32 → UInt32) : Hardware Unit where
  read register devices := (space register, devices)
  write _ _ devices := devices

/-- The `config_read32` of the enumeration is the general one on such registers. -/
theorem configRead32_eq_fixed (bus device function offset : UInt8) (ports : Ports) :
    ∃ value s, (fixed ports.space).configRead32 bus device function offset ⟨ports.configAddress, ()⟩ =
        .done value s ∧
      configRead32 bus device function offset ports =
        .done value { ports with configAddress := s.configAddress } :=
  ⟨_, _, rfl, rfl⟩

variable [DecidableEq ι]

/-- Callers of `config_read32` and `config_write32` take their steps as scheduled. -/
def interleaved (hardware : Hardware Devices) (bus : Bus Devices)
    (callers : ι → Sections.Caller Access.Result) (schedule : List ι) :
    Sections.Machine (Bus Devices) Access.Result ι :=
  Runs.run (Sections.Machine.step (Access.ports hardware))
    { shared := bus, holder := none, threads := fun i => .outside (callers i) } schedule

/-- The same callers, with whole accesses as steps. -/
def serialised (hardware : Hardware Devices) (devices : Devices)
    (callers : ι → Sections.Caller Access.Result) (serial : List ι) :
    Sections.Atomic Devices Access.Result ι :=
  Runs.run (Sections.Atomic.step (Access.perform hardware)) { shared := devices, callers } serial

/-- However the port operations of any number of callers interleave, and whatever the
hardware does, no access is mixed up with another: for some order of whole accesses, taken
from the schedule, every caller has got the same results and is as far, and the hardware is
in the same state whenever the lock is free. -/
theorem accesses_are_atomic (hardware : Hardware Devices) (bus : Bus Devices)
    (callers : ι → Sections.Caller Access.Result) (schedule : List ι) :
    ∃ serial, serial.Sublist schedule ∧
      (∀ i, (interleaved hardware bus callers schedule).holder ≠ some i →
        (interleaved hardware bus callers schedule).threads i =
          .outside ((serialised hardware bus.devices callers serial).callers i)) ∧
      ((interleaved hardware bus callers schedule).holder = none →
        (interleaved hardware bus callers schedule).shared.devices =
          (serialised hardware bus.devices callers serial).shared) := by
  have start : Sections.Refines Bus.devices
      { shared := bus, holder := none, threads := fun i : ι => .outside (callers i) }
      { shared := bus.devices, callers } :=
    ⟨fun _ => rfl, fun _ _ => rfl, fun _ held => by cases held⟩
  obtain ⟨serial, part, reached⟩ := start.run (Access.ports_perform hardware) schedule
  exact ⟨serial, part, reached.others, fun free => (reached.free free).symm⟩

end Callers
end ComputeKernel.Pci
