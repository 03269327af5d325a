import Mathlib.Data.List.Basic
import Mathlib.Data.Nat.Bitwise
import ComputeKernel.Support.Finishes

/-! The enumeration of the PCI buses (`kernel/src/drivers/pci.rs`). Configuration space
is any function of the value in the address port. -/
namespace ComputeKernel.Pci
open Checked (Exec Finishes)

structure PciDevice where
  bus : UInt8
  device : UInt8
  function : UInt8
  vendorId : UInt16
  deviceId : UInt16
  class_ : UInt8
  subclass : UInt8
  progIf : UInt8
  revision : UInt8
  headerType : UInt8
  deriving DecidableEq, Repr

/-- What was last written to `CONFIG_ADDRESS`, and the dwords that `CONFIG_DATA` then reads. -/
structure Ports where
  configAddress : UInt32
  space : UInt32 → UInt32

/-- The address that `config_read32` computes. -/
def address (bus device function offset : UInt8) : UInt32 :=
  (1 : UInt32) <<< 31 ||| bus.toUInt32 <<< 16 ||| device.toUInt32 <<< 11 ||| function.toUInt32 <<< 8 |||
    (offset.toUInt32 &&& 0xFC)

def configRead32 (bus device function offset : UInt8) : Exec Ports UInt32 := do
  Exec.modify (fun ports => { ports with configAddress := address bus device function offset })
  let ports ← Exec.get
  Exec.ret (ports.space ports.configAddress)

def deviceExists (bus device function : UInt8) : Exec Ports Bool := do
  let dword ← configRead32 bus device function 0
  let vendor := dword &&& 0xFFFF
  Exec.ret (vendor != 0xFFFF)

/-- The record that `probe` fills in. -/
def PciDevice.ofDwords (bus device function : UInt8) (dw0 dw2 dw3 : UInt32) : PciDevice :=
  { bus
    device
    function
    vendorId := (dw0 &&& 0xFFFF).toUInt16
    deviceId := (dw0 >>> 16).toUInt16
    revision := (dw2 &&& 0xFF).toUInt8
    progIf := (dw2 >>> 8 &&& 0xFF).toUInt8
    subclass := (dw2 >>> 16 &&& 0xFF).toUInt8
    class_ := (dw2 >>> 24 &&& 0xFF).toUInt8
    headerType := (dw3 >>> 16 &&& 0xFF).toUInt8 }

def probe (bus device function : UInt8) : Exec Ports (Option PciDevice) := do
  let there ← deviceExists bus device function
  if !there then Exec.ret none
  else do
    let dw0 ← configRead32 bus device function 0
    let dw2 ← configRead32 bus device function 8
    let dw3 ← configRead32 bus device function 0xC
    Exec.ret (some (.ofDwords bus device function dw0 dw2 dw3))

/-- A range of `u8` values. -/
def octets (first count : Nat) : List UInt8 := (List.range' first count).map UInt8.ofNat

/-- The loop over the functions other than 0. -/
def otherFunctions (bus device : UInt8) (devices : List PciDevice) : Exec Ports (List PciDevice) :=
  Exec.foldEach (octets 1 7) devices (fun function devices => do
    let found ← probe bus device function
    match found with
    | none => Exec.ret devices
    | some d => Exec.ret (devices ++ [d]))

/-- One turn of the loop over the devices of a bus. -/
def probeDevice (bus device : UInt8) (devices : List PciDevice) : Exec Ports (List PciDevice) := do
  let found ← probe bus device 0
  match found with
  | none => Exec.ret devices
  | some dev =>
      let multiFunction := dev.headerType &&& 0x80 != 0
      let devices := devices ++ [dev]
      if multiFunction then otherFunctions bus device devices else Exec.ret devices

def enumerate : Exec Ports (List PciDevice) :=
  Exec.foldEach (octets 0 256) [] (fun bus devices =>
    Exec.foldEach (octets 0 32) devices (probeDevice bus))

/-- Bus, device and function. -/
abbrev Location : Type := UInt8 × UInt8 × UInt8

def PciDevice.location (dev : PciDevice) : Location := (dev.bus, dev.device, dev.function)

/-- The order of the buses, of the devices of a bus, and of the functions of a device. -/
def Before : Location → Location → Prop := Prod.Lex (· < ·) (Prod.Lex (· < ·) (· < ·))

/-- A dword of the function at a location. -/
def dword (space : UInt32 → UInt32) (l : Location) (offset : UInt8) : UInt32 :=
  space (address l.1 l.2.1 l.2.2 offset)

/-- The value of a bit field. -/
def bits (dword : UInt32) (low width : Nat) : Nat := dword.toNat / 2 ^ low % 2 ^ width

/-- The function has a vendor. -/
abbrev Present (space : UInt32 → UInt32) (l : Location) : Prop := bits (dword space l 0) 0 16 ≠ 0xFFFF

/-- The functions that there are: function 0 of each device, and with it the others when
bit 7 of its header type is set. -/
abbrev Reported (space : UInt32 → UInt32) : Location → Prop
  | (bus, device, function) =>
      device < 32 ∧ function < 8 ∧ Present space (bus, device, function) ∧
        (function = 0 ∨
          Present space (bus, device, 0) ∧
            (bits (dword space (bus, device, 0) 0xC) 16 8).testBit 7 = true)

/-- The fields of a record are bit fields of the dwords of its own function. -/
structure PciDevice.Describes (dev : PciDevice) (space : UInt32 → UInt32) : Prop where
  vendorId : dev.vendorId.toNat = bits (dword space dev.location 0) 0 16
  deviceId : dev.deviceId.toNat = bits (dword space dev.location 0) 16 16
  revision : dev.revision.toNat = bits (dword space dev.location 8) 0 8
  progIf : dev.progIf.toNat = bits (dword space dev.location 8) 8 8
  subclass : dev.subclass.toNat = bits (dword space dev.location 8) 16 8
  class_ : dev.class_.toNat = bits (dword space dev.location 8) 24 8
  headerType : dev.headerType.toNat = bits (dword space dev.location 0xC) 16 8

section Addresses

variable {bus device function offset bus' device' function' offset' : UInt8}

/-- A field set into the bits below a number. -/
theorem or_field {low width field : Nat} (fits : field < 2 ^ width) (above : Nat) :
    above * 2 ^ (low + width) ||| field * 2 ^ low = (above * 2 ^ width + field) * 2 ^ low := by
  rw [Nat.mul_comm above (2 ^ width), Nat.two_pow_add_eq_or_of_lt fits, ← Nat.shiftLeft_eq,
    ← Nat.shiftLeft_eq, ← Nat.shiftLeft_eq, Nat.shiftLeft_or_distrib, Nat.mul_comm,
    ← Nat.shiftLeft_eq, ← Nat.shiftLeft_add, Nat.add_comm low]

/-- The parts of an address do not overlap. -/
theorem address_toNat (inDevices : device < 32) (inFunctions : function < 8) (bus offset : UInt8) :
    (address bus device function offset).toNat =
      (((2 ^ 15 + bus.toNat) * 2 ^ 5 + device.toNat) * 2 ^ 3 + function.toNat) * 2 ^ 8 +
        (offset.toNat &&& 0xFC) := by
  have small := bus.toNat_lt
  have few : device.toNat < 2 ^ 5 := UInt8.lt_iff_toNat_lt.mp inDevices
  have fewer : function.toNat < 2 ^ 3 := UInt8.lt_iff_toNat_lt.mp inFunctions
  have low : offset.toNat &&& 0xFC < 2 ^ 8 := Nat.and_lt_two_pow _ (by decide)
  have shift {x : UInt8} {k : Nat} (inside : x.toNat * 2 ^ k < 2 ^ 32) :
      x.toNat <<< k % 2 ^ 32 = x.toNat * 2 ^ k := by
    rw [Nat.shiftLeft_eq, Nat.mod_eq_of_lt inside]
  have parts : (address bus device function offset).toNat =
      2 ^ 7 * 2 ^ (16 + 8) ||| bus.toNat * 2 ^ 16 ||| device.toNat * 2 ^ 11 |||
        function.toNat * 2 ^ 8 ||| (offset.toNat &&& 0xFC) * 2 ^ 0 := by
    rw [← shift (x := bus) (by omega), ← shift (x := device) (by omega),
      ← shift (x := function) (by omega)]
    simp [address]
  rw [parts, or_field small, show 16 = 11 + 5 from rfl, or_field few, show 11 = 8 + 3 from rfl,
    or_field fewer, show 8 = 0 + 8 from rfl, or_field low]
  omega

/-- Different functions have different addresses, whatever the offsets. -/
theorem address_inj (inDevices : device < 32) (inFunctions : function < 8)
    (inDevices' : device' < 32) (inFunctions' : function' < 8)
    (same : address bus device function offset = address bus' device' function' offset') :
    bus = bus' ∧ device = device' ∧ function = function' := by
  have low : offset.toNat &&& 0xFC < 2 ^ 8 := Nat.and_lt_two_pow _ (by decide)
  have low' : offset'.toNat &&& 0xFC < 2 ^ 8 := Nat.and_lt_two_pow _ (by decide)
  have few : device.toNat < 32 := UInt8.lt_iff_toNat_lt.mp inDevices
  have few' : device'.toNat < 32 := UInt8.lt_iff_toNat_lt.mp inDevices'
  have fewer : function.toNat < 8 := UInt8.lt_iff_toNat_lt.mp inFunctions
  have fewer' : function'.toNat < 8 := UInt8.lt_iff_toNat_lt.mp inFunctions'
  have sums := congrArg UInt32.toNat same
  rw [address_toNat inDevices inFunctions, address_toNat inDevices' inFunctions'] at sums
  refine ⟨UInt8.toNat_inj.mp ?_, UInt8.toNat_inj.mp ?_, UInt8.toNat_inj.mp ?_⟩ <;> omega

end Addresses

section Fields

theorem bits_mask (dw : UInt32) (low width : Nat) :
    dw.toNat >>> low &&& (2 ^ width - 1) = bits dw low width := by
  rw [Nat.and_two_pow_sub_one_eq_mod, Nat.shiftRight_eq_div_pow, bits]

theorem bits_lt (dw : UInt32) (low width : Nat) : bits dw low width < 2 ^ width :=
  Nat.mod_lt _ (Nat.two_pow_pos width)

/-- A byte taken out of a dword. -/
theorem byte_toNat (dw : UInt32) {low : UInt32} (inside : low < 32) :
    (dw >>> low &&& 0xFF).toUInt8.toNat = bits dw low.toNat 8 := by
  have inside' : low.toNat < 32 := UInt32.lt_iff_toNat_lt.mp inside
  have masked : (dw >>> low &&& 0xFF).toNat = bits dw low.toNat 8 := by
    rw [UInt32.toNat_and, UInt32.toNat_shiftRight, Nat.mod_eq_of_lt inside']
    exact bits_mask dw low.toNat 8
  rw [UInt32.toNat_toUInt8, masked, Nat.mod_eq_of_lt (bits_lt dw low.toNat 8)]

theorem vendor_toNat (dw : UInt32) : (dw &&& 0xFFFF).toNat = bits dw 0 16 := by
  rw [UInt32.toNat_and]
  exact bits_mask dw 0 16

theorem vendor_ne_iff (dw : UInt32) : (dw &&& 0xFFFF != 0xFFFF) = true ↔ bits dw 0 16 ≠ 0xFFFF := by
  rw [bne_iff_ne, Ne, ← UInt32.toNat_inj, vendor_toNat]
  rfl

/-- The record that is read at a location. -/
def deviceAt (space : UInt32 → UInt32) (l : Location) : PciDevice :=
  .ofDwords l.1 l.2.1 l.2.2 (dword space l 0) (dword space l 8) (dword space l 0xC)

theorem deviceAt_describes (space : UInt32 → UInt32) (l : Location) :
    (deviceAt space l).Describes space where
  vendorId := by
    have small : bits (dword space l 0) 0 16 < 2 ^ 16 := bits_lt _ _ _
    change (dword space l 0 &&& 0xFFFF).toUInt16.toNat = bits (dword space l 0) 0 16
    rw [UInt32.toNat_toUInt16, vendor_toNat, Nat.mod_eq_of_lt small]
  deviceId := by
    change (dword space l 0 >>> 16).toUInt16.toNat = bits (dword space l 0) 16 16
    rw [UInt32.toNat_toUInt16, UInt32.toNat_shiftRight, Nat.shiftRight_eq_div_pow]
    rfl
  revision := by
    have shifted := byte_toNat (dword space l 8) (by decide : (0 : UInt32) < 32)
    rwa [UInt32.shiftRight_zero] at shifted
  progIf := byte_toNat (dword space l 8) (by decide)
  subclass := byte_toNat (dword space l 8) (by decide)
  class_ := byte_toNat (dword space l 8) (by decide)
  headerType := byte_toNat (dword space l 0xC) (by decide)

theorem multiFunction_iff (space : UInt32 → UInt32) (l : Location) :
    ((deviceAt space l).headerType &&& 0x80 != 0) = true ↔
      (bits (dword space l 0xC) 16 8).testBit 7 = true := by
  have header := (deviceAt_describes space l).headerType
  rw [bne_iff_ne, Ne, ← UInt8.toNat_inj, UInt8.toNat_and]
  change ¬(_ &&& 2 ^ 7 = 0) ↔ _
  rw [Nat.and_two_pow, header]
  change ¬((bits (dword space l 0xC) 16 8).testBit 7).toNat * 2 ^ 7 = 0 ↔ _
  cases (bits (dword space l 0xC) 16 8).testBit 7 <;> simp

end Fields

section Enumeration

variable {space : UInt32 → UInt32} {ports : Ports} {bus device function : UInt8}

theorem configRead32_finishes (fixed : ports.space = space) (bus device function offset : UInt8) :
    Finishes (configRead32 bus device function offset)
      (fun dw ports' => ports'.space = space ∧ dw = dword space (bus, device, function) offset) ports := by
  subst fixed
  exact ⟨_, _, rfl, rfl, rfl⟩

/-- A probe finds the function when there is one. -/
theorem probe_finishes (fixed : ports.space = space) (bus device function : UInt8) :
    Finishes (probe bus device function)
      (fun found ports' => ports'.space = space ∧
        found = if Present space (bus, device, function) then
          some (deviceAt space (bus, device, function)) else none) ports := by
  refine Finishes.bind (Finishes.andThen (configRead32_finishes fixed _ _ _ _) ?_)
  rintro _ ports ⟨fixed, rfl⟩
  apply Finishes.ret
  by_cases present : Present space (bus, device, function)
  · rw [(vendor_ne_iff _).mpr present, if_pos present]
    refine Finishes.andThen (configRead32_finishes fixed _ _ _ _) ?_
    rintro _ ports ⟨fixed, rfl⟩
    refine Finishes.andThen (configRead32_finishes fixed _ _ _ _) ?_
    rintro _ ports ⟨fixed, rfl⟩
    refine Finishes.andThen (configRead32_finishes fixed _ _ _ _) ?_
    rintro _ ports ⟨fixed, rfl⟩
    exact Finishes.ret ⟨fixed, rfl⟩
  · have absent := mt (vendor_ne_iff _).mp present
    rw [Bool.eq_false_iff.mpr absent, if_neg present]
    exact Finishes.ret ⟨fixed, rfl⟩

theorem mem_octets {first count : Nat} (fits : first + count ≤ 256) {x : UInt8} :
    x ∈ octets first count ↔ first ≤ x.toNat ∧ x.toNat < first + count := by
  unfold octets
  rw [List.mem_map]
  constructor
  · rintro ⟨n, inside, rfl⟩
    obtain ⟨above, below⟩ := List.mem_range'_1.mp inside
    rw [UInt8.toNat_ofNat', Nat.mod_eq_of_lt (by omega)]
    exact ⟨above, below⟩
  · rintro ⟨above, below⟩
    exact ⟨x.toNat, List.mem_range'_1.mpr ⟨above, below⟩, UInt8.ofNat_toNat⟩

theorem octets_increasing {first count : Nat} (fits : first + count ≤ 256) :
    (octets first count).Pairwise (· < ·) := by
  unfold octets
  rw [List.pairwise_map]
  refine (List.pairwise_lt_range' (s := first) (n := count)).imp_of_mem ?_
  intro a b inside inside' less
  have below := (List.mem_range'_1.mp inside).2
  have below' := (List.mem_range'_1.mp inside').2
  rw [UInt8.lt_iff_toNat_lt, UInt8.toNat_ofNat', UInt8.toNat_ofNat', Nat.mod_eq_of_lt (by omega),
    Nat.mod_eq_of_lt (by omega)]
  exact less

/-- The functions of one device. -/
def functionsOf (space : UInt32 → UInt32) (bus device : UInt8) : List Location :=
  ((octets 0 8).map (fun function => (bus, device, function))).filter (fun l => Reported space l)

/-- All functions, in the order of their locations. -/
def locations (space : UInt32 → UInt32) : List Location :=
  (octets 0 256).flatMap (fun bus => (octets 0 32).flatMap (functionsOf space bus))

theorem reported_of_mem_functionsOf {l : Location} (member : l ∈ functionsOf space bus device) :
    l.1 = bus ∧ l.2.1 = device ∧ Reported space l := by
  obtain ⟨made, reported⟩ := List.mem_filter.mp member
  obtain ⟨function, _, rfl⟩ := List.mem_map.mp made
  exact ⟨rfl, rfl, of_decide_eq_true reported⟩

theorem mem_locations {l : Location} : l ∈ locations space ↔ Reported space l := by
  unfold locations
  simp only [List.mem_flatMap]
  constructor
  · rintro ⟨bus, _, device, _, member⟩
    exact (reported_of_mem_functionsOf member).2.2
  · intro reported
    obtain ⟨bus, device, function⟩ := l
    have few : device.toNat < 32 := UInt8.lt_iff_toNat_lt.mp reported.1
    have fewer : function.toNat < 8 := UInt8.lt_iff_toNat_lt.mp reported.2.1
    refine ⟨bus, (mem_octets (by decide)).mpr ⟨Nat.zero_le _, ?_⟩, device,
      (mem_octets (by decide)).mpr ⟨Nat.zero_le _, ?_⟩, List.mem_filter.mpr ⟨?_, ?_⟩⟩
    · rw [Nat.zero_add]
      exact bus.toNat_lt
    · omega
    · refine List.mem_map.mpr ⟨function, (mem_octets (by decide)).mpr ⟨Nat.zero_le _, ?_⟩, rfl⟩
      omega
    · exact decide_eq_true reported

theorem Before.ne {l l' : Location} (before : Before l l') : l ≠ l' := by
  rintro rfl
  rcases Prod.lex_def.mp before with less | ⟨_, inner⟩
  · exact UInt8.lt_irrefl _ less
  · rcases Prod.lex_def.mp inner with less | ⟨_, less⟩
    · exact UInt8.lt_irrefl _ less
    · exact UInt8.lt_irrefl _ less

theorem functionsOf_ordered (space : UInt32 → UInt32) (bus device : UInt8) :
    (functionsOf space bus device).Pairwise Before := by
  apply List.Pairwise.filter
  rw [List.pairwise_map]
  refine (octets_increasing (by decide)).imp ?_
  intro f g less
  exact Prod.Lex.right bus (Prod.Lex.right device less)

/-- The loops go through the locations in their order. -/
theorem locations_ordered (space : UInt32 → UInt32) : (locations space).Pairwise Before := by
  unfold locations
  refine List.pairwise_flatMap.mpr ⟨fun bus _ => List.pairwise_flatMap.mpr ⟨?_, ?_⟩, ?_⟩
  · exact fun device _ => functionsOf_ordered space bus device
  · refine (octets_increasing (by decide)).imp ?_
    rintro device device' less ⟨b, d, f⟩ member ⟨b', d', f'⟩ member'
    obtain ⟨rfl, rfl, _⟩ := reported_of_mem_functionsOf member
    obtain ⟨rfl, rfl, _⟩ := reported_of_mem_functionsOf member'
    exact Prod.Lex.right _ (Prod.Lex.left _ _ less)
  · refine (octets_increasing (by decide)).imp ?_
    rintro bus bus' less ⟨b, d, f⟩ member ⟨b', d', f'⟩ member'
    obtain ⟨_, _, inDevice⟩ := List.mem_flatMap.mp member
    obtain ⟨_, _, inDevice'⟩ := List.mem_flatMap.mp member'
    obtain ⟨rfl, _⟩ := reported_of_mem_functionsOf inDevice
    obtain ⟨rfl, _⟩ := reported_of_mem_functionsOf inDevice'
    exact Prod.Lex.left _ _ less

/-- The functions of a device that is not there. -/
theorem functionsOf_absent (absent : ¬Present space (bus, device, 0)) :
    functionsOf space bus device = [] := by
  rw [functionsOf, List.filter_eq_nil_iff]
  intro l member reported
  obtain ⟨function, _, rfl⟩ := List.mem_map.mp member
  obtain ⟨_, _, present, first | ⟨first, _⟩⟩ := of_decide_eq_true reported
  · rw [first] at present
    exact absent present
  · exact absent first

/-- A function other than 0 depends on function 0 of its device. -/
theorem reported_other_iff (inDevices : device < 32) (present : Present space (bus, device, 0))
    (inside : function ∈ octets 1 7) :
    Reported space (bus, device, function) ↔ Present space (bus, device, function) ∧
      (bits (dword space (bus, device, 0) 0xC) 16 8).testBit 7 = true := by
  obtain ⟨above, below⟩ := (mem_octets (by decide)).mp inside
  have nonzero : function ≠ 0 := by
    rintro rfl
    exact absurd above (by decide)
  constructor
  · rintro ⟨_, _, there, first | ⟨_, several⟩⟩
    · exact absurd first nonzero
    · exact ⟨there, several⟩
  · rintro ⟨there, several⟩
    exact ⟨inDevices, UInt8.lt_iff_toNat_lt.mpr below, there, Or.inr ⟨present, several⟩⟩

/-- Function 0 comes first, and then those of the others that are there. -/
theorem functionsOf_present (inDevices : device < 32) (present : Present space (bus, device, 0)) :
    functionsOf space bus device = (bus, device, 0) ::
      if (bits (dword space (bus, device, 0) 0xC) 16 8).testBit 7 then
        ((octets 1 7).map (fun function => (bus, device, function))).filter (fun l => Present space l)
      else [] := by
  have zero : Reported space (bus, device, 0) := ⟨inDevices, by decide, present, Or.inl rfl⟩
  have split : octets 0 8 = 0 :: octets 1 7 := rfl
  rw [functionsOf, split, List.map_cons, List.filter_cons, if_pos (decide_eq_true zero)]
  congr 1
  split
  · next several =>
      apply List.filter_congr
      intro l member
      obtain ⟨function, inside, rfl⟩ := List.mem_map.mp member
      rw [decide_eq_decide, reported_other_iff inDevices present inside, and_iff_left several]
  · next single =>
      rw [List.filter_eq_nil_iff]
      intro l member reported
      obtain ⟨function, inside, rfl⟩ := List.mem_map.mp member
      have other := (reported_other_iff inDevices present inside).mp (of_decide_eq_true reported)
      exact single other.2

theorem flatMap_found {found : Location → Prop} [DecidablePred found] (make : UInt8 → Location)
    (read : Location → PciDevice) (functions : List UInt8) :
    functions.flatMap (fun f => if found (make f) then [read (make f)] else []) =
      ((functions.map make).filter (fun l => found l)).map read := by
  induction functions with
  | nil => rfl
  | cons f functions ih =>
      rw [List.flatMap_cons, ih, List.map_cons, List.filter_cons]
      by_cases there : found (make f)
      · rw [if_pos there, if_pos (decide_eq_true there)]
        rfl
      · rw [if_neg there, if_neg (mt of_decide_eq_true there)]
        rfl

theorem otherFunctions_finish (fixed : ports.space = space) (bus device : UInt8)
    (devices : List PciDevice) :
    Finishes (otherFunctions bus device devices)
      (fun devices' ports' => ports'.space = space ∧ devices' = devices ++
        (((octets 1 7).map (fun function => (bus, device, function))).filter
          (fun l => Present space l)).map (deviceAt space)) ports := by
  rw [← flatMap_found]
  refine Finishes.collect (fun ports' : Ports => ports'.space = space) _ fixed ?_ devices
  intro function _ devices ports fixed
  refine Finishes.andThen (probe_finishes fixed bus device function) ?_
  rintro _ ports ⟨fixed, rfl⟩
  by_cases present : Present space (bus, device, function)
  · rw [if_pos present]
    exact Finishes.ret ⟨fixed, by rw [if_pos present]⟩
  · rw [if_neg present]
    exact Finishes.ret ⟨fixed, by rw [if_neg present, List.append_nil]⟩

theorem probeDevice_finishes (fixed : ports.space = space) (inDevices : device < 32) (bus : UInt8)
    (devices : List PciDevice) :
    Finishes (probeDevice bus device devices)
      (fun devices' ports' => ports'.space = space ∧
        devices' = devices ++ (functionsOf space bus device).map (deviceAt space)) ports := by
  refine Finishes.andThen (probe_finishes fixed bus device 0) ?_
  rintro _ ports ⟨fixed, rfl⟩
  by_cases present : Present space (bus, device, 0)
  · rw [if_pos present, functionsOf_present inDevices present, List.map_cons]
    dsimp only
    by_cases several : (bits (dword space (bus, device, 0) 0xC) 16 8).testBit 7 = true
    · rw [if_pos ((multiFunction_iff space _).mpr several), if_pos several]
      refine Finishes.mono (otherFunctions_finish fixed bus device _) ?_
      rintro _ ports ⟨fixed, rfl⟩
      exact ⟨fixed, List.append_assoc _ _ _⟩
    · rw [if_neg (mt (multiFunction_iff space _).mp several), if_neg several]
      exact Finishes.ret ⟨fixed, rfl⟩
  · rw [if_neg present, functionsOf_absent present]
    exact Finishes.ret ⟨fixed, (List.append_nil devices).symm⟩

theorem enumerate_finishes (ports : Ports) :
    Finishes enumerate
      (fun devices ports' => ports'.space = ports.space ∧
        devices = (locations ports.space).map (deviceAt ports.space)) ports := by
  unfold enumerate locations
  rw [List.map_flatMap, ← List.nil_append (List.flatMap _ _)]
  refine Finishes.collect (fun ports' : Ports => ports'.space = ports.space) _ rfl ?_ []
  intro bus _ devices ports' fixed
  rw [List.map_flatMap]
  refine Finishes.collect (fun ports' : Ports => ports'.space = ports.space) _ fixed ?_ devices
  intro device inside devices ports' fixed
  have few := ((mem_octets (by decide)).mp inside).2
  exact probeDevice_finishes fixed (UInt8.lt_iff_toNat_lt.mpr few) bus devices

end Enumeration

/-- The enumeration returns each function there is once, in the order of the locations
and with its own fields, and reads different functions at different addresses. -/
theorem enumerate_exact (ports : Ports) :
    ∃ devices ports', enumerate ports = .done devices ports' ∧
      (devices.map PciDevice.location).Pairwise Before ∧
      (devices.map PciDevice.location).Nodup ∧
      (∀ l, l ∈ devices.map PciDevice.location ↔ Reported ports.space l) ∧
      (∀ dev ∈ devices, dev.Describes ports.space) ∧
      ∀ bus device function bus' device' function' offset offset' : UInt8,
        device < 32 → function < 8 → device' < 32 → function' < 8 →
        (bus, device, function) ≠ (bus', device', function') →
        address bus device function offset ≠ address bus' device' function' offset' := by
  obtain ⟨devices, ports', ran, _, rfl⟩ := enumerate_finishes ports
  have located : ((locations ports.space).map (deviceAt ports.space)).map PciDevice.location =
      locations ports.space := by
    rw [List.map_map]
    exact List.map_id _
  refine ⟨_, ports', ran, ?_, ?_, ?_, ?_, ?_⟩
  · rw [located]
    exact locations_ordered ports.space
  · rw [located]
    exact (locations_ordered ports.space).imp Before.ne
  · intro l
    rw [located]
    exact mem_locations
  · intro dev member
    obtain ⟨l, _, rfl⟩ := List.mem_map.mp member
    exact deviceAt_describes ports.space l
  · intro bus device function bus' device' function' offset offset' inD inF inD' inF' differ same
    obtain ⟨rfl, rfl, rfl⟩ := address_inj inD inF inD' inF' same
    exact differ rfl

end ComputeKernel.Pci
