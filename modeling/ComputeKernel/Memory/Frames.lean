import Mathlib.Data.List.Nodup
import Mathlib.Data.List.Perm.Subperm
import ComputeKernel.Support.Finishes

/-! The frame allocator over the memory map of the bootloader
(`kernel/src/memory/frame_allocator.rs`). -/
namespace ComputeKernel
open Checked (Exec FinishesUnless)

inductive MemoryRegionKind where
  | usable
  | bootloader
  | unknownUefi (code : UInt32)
  | unknownBios (code : UInt32)
  deriving DecidableEq, Repr

structure MemoryRegion where
  start : UInt64
  stop : UInt64
  kind : MemoryRegionKind
  deriving DecidableEq, Repr

/-- A frame of 4 KiB of physical memory. -/
@[ext]
structure PhysFrame where
  startAddress : Nat
  aligned : startAddress % 4096 = 0
  deriving DecidableEq

/-- Whether `+` panics or wraps when it overflows. -/
inductive Build where
  | debug
  | release
  deriving DecidableEq, Repr

def Build.usizeAdd (build : Build) (a b : Nat) : Exec σ Nat :=
  match build with
  | .debug => Exec.usizeAdd a b
  | .release => Exec.ret ((a + b) % 2 ^ 64)

/-- `PhysAddr::new`: a physical address has 52 bits. -/
def physAddr (address : Nat) : Exec σ Nat :=
  if address < 2 ^ 52 then Exec.ret address else Exec.panic .unwrap

/-- `PhysFrame::containing_address`. -/
def PhysFrame.containingAddress (address : Nat) : PhysFrame :=
  { startAddress := address - address % 4096
    aligned := by omega }

/-- `(start..stop).step_by(step)`. -/
def stepBy (start stop step : Nat) : List Nat :=
  (List.range ((stop - start + (step - 1)) / step)).map (fun i => start + i * step)

structure BootInfoFrameAllocator where
  memoryRegions : List MemoryRegion
  next : Nat

namespace BootInfoFrameAllocator

def init (memoryRegions : List MemoryRegion) : BootInfoFrameAllocator := { memoryRegions, next := 0 }

/-- The addresses that the iterator of `usable_frames` goes through. -/
def usableAddresses (memoryRegions : List MemoryRegion) : List Nat :=
  (memoryRegions.filter (fun r => r.kind == .usable)).flatMap
    (fun r => stepBy r.start.toNat r.stop.toNat 4096)

/-- `usable_frames().nth(n)`, which makes a frame of every address up to the last. -/
def nth : List Nat → Nat → Exec σ (Option PhysFrame)
  | [], _ => Exec.ret none
  | address :: rest, n => do
      let address ← physAddr address
      let frame := PhysFrame.containingAddress address
      match n with
      | 0 => Exec.ret (some frame)
      | n + 1 => nth rest n

def allocateFrame (build : Build) : Exec BootInfoFrameAllocator (Option PhysFrame) := do
  let allocator ← Exec.get
  let frame ← nth (usableAddresses allocator.memoryRegions) allocator.next
  let next ← build.usizeAdd allocator.next 1
  Exec.modify (fun allocator => { allocator with next })
  Exec.ret frame

/-- Calls one after another, with what they returned. -/
def allocateFrames (build : Build) : Nat → Exec BootInfoFrameAllocator (List (Option PhysFrame))
  | 0 => Exec.ret []
  | n + 1 => do
      let frames ← allocateFrames build n
      let frame ← allocateFrame build
      Exec.ret (frames ++ [frame])

/-- Usable regions are made of whole pages and do not overlap. -/
structure Paged (memoryRegions : List MemoryRegion) : Prop where
  aligned : ∀ r ∈ memoryRegions, r.kind = .usable →
    r.start.toNat % 4096 = 0 ∧ r.stop.toNat % 4096 = 0
  disjoint : (memoryRegions.filter (fun r => r.kind == .usable)).Pairwise (fun r r' =>
    ∀ address, r.start.toNat ≤ address → address < r.stop.toNat →
      ¬(r'.start.toNat ≤ address ∧ address < r'.stop.toNat))

/-- What the kernel assumes of the memory map, the width of a physical address included. -/
structure Sound (memoryRegions : List MemoryRegion) : Prop extends Paged memoryRegions where
  valid : ∀ r ∈ memoryRegions, r.kind = .usable → r.stop.toNat ≤ 2 ^ 52

/-- A frame lies wholly inside a usable region. -/
def Usable (memoryRegions : List MemoryRegion) (frame : PhysFrame) : Prop :=
  ∃ r ∈ memoryRegions, r.kind = .usable ∧ r.start.toNat ≤ frame.startAddress ∧
    frame.startAddress + 4096 ≤ r.stop.toNat

/-- The frames of a region, in order. -/
def framesOf (r : MemoryRegion) : List PhysFrame :=
  (List.range ((r.stop.toNat - r.start.toNat) / 4096)).map (fun i =>
    PhysFrame.containingAddress (r.start.toNat + 4096 * i))

/-- All frames of the usable regions, in the order of the map. -/
def usableFrames (memoryRegions : List MemoryRegion) : List PhysFrame :=
  (memoryRegions.filter (fun r => r.kind == .usable)).flatMap framesOf

variable {memoryRegions : List MemoryRegion} {σ : Type}

/-- The iterator gives the frames of the addresses, or stops at one that is not valid. -/
theorem nth_unless {addresses : List Nat} {excuse : Prop}
    (invalid : ∀ address ∈ addresses, ¬address < 2 ^ 52 → excuse) (n : Nat) (s : σ) :
    FinishesUnless excuse (nth addresses n)
      (fun frame s' => s' = s ∧ frame = (addresses.map PhysFrame.containingAddress)[n]?) s := by
  induction addresses generalizing n with
  | nil => exact FinishesUnless.ret ⟨rfl, rfl⟩
  | cons address rest ih =>
      unfold nth physAddr
      apply FinishesUnless.bind
      split
      · apply FinishesUnless.ret
        cases n with
        | zero => exact FinishesUnless.ret ⟨rfl, rfl⟩
        | succ n =>
            rw [List.map_cons, List.getElem?_cons_succ]
            exact ih (fun address member => invalid address (List.mem_cons_of_mem _ member)) n
      · next large =>
          exact FinishesUnless.panic (invalid address List.mem_cons_self large) _

/-- When the addresses are valid, it gives the frames. -/
theorem nth_eq {addresses : List Nat} (valid : ∀ address ∈ addresses, address < 2 ^ 52) (n : Nat)
    (s : σ) : nth addresses n s = .done (addresses.map PhysFrame.containingAddress)[n]? s := by
  have run : FinishesUnless False (nth addresses n)
      (fun frame s' => s' = s ∧ frame = (addresses.map PhysFrame.containingAddress)[n]?) s :=
    nth_unless (fun address member large => large (valid address member)) n s
  obtain ⟨_, _, ran, rfl, rfl⟩ := run.finishes not_false
  exact ran

theorem mem_stepBy {start stop address : Nat} :
    address ∈ stepBy start stop 4096 ↔ ∃ i, address = start + i * 4096 ∧ address < stop := by
  unfold stepBy
  rw [List.mem_map]
  constructor
  · rintro ⟨i, below, rfl⟩
    rw [List.mem_range] at below
    exact ⟨i, rfl, by omega⟩
  · rintro ⟨i, rfl, below⟩
    exact ⟨i, List.mem_range.mpr (by omega), rfl⟩

theorem usableAddresses_valid (sound : Sound memoryRegions) :
    ∀ address ∈ usableAddresses memoryRegions, address < 2 ^ 52 := by
  intro address member
  obtain ⟨r, kept, inside⟩ := List.mem_flatMap.mp member
  obtain ⟨there, kind⟩ := List.mem_filter.mp kept
  obtain ⟨i, rfl, below⟩ := mem_stepBy.mp inside
  exact Nat.lt_of_lt_of_le below (sound.valid r there (beq_iff_eq.mp kind))

/-- On aligned regions the iterator goes through the frames and nothing else. -/
theorem map_usableAddresses (paged : Paged memoryRegions) :
    (usableAddresses memoryRegions).map PhysFrame.containingAddress = usableFrames memoryRegions := by
  unfold usableAddresses usableFrames
  rw [List.map_flatMap]
  apply List.flatMap_congr
  intro r kept
  obtain ⟨there, kind⟩ := List.mem_filter.mp kept
  obtain ⟨low, high⟩ := paged.aligned r there (beq_iff_eq.mp kind)
  have count : (r.stop.toNat - r.start.toNat + (4096 - 1)) / 4096 =
      (r.stop.toNat - r.start.toNat) / 4096 := by omega
  unfold stepBy framesOf
  rw [List.map_map, count]
  apply List.map_congr_left
  intro i _
  rw [Function.comp_apply, Nat.mul_comm]

theorem usizeAdd_run {build : Build} {a b : Nat} (fits : a + b < 2 ^ 64 ∨ build = .release) (s : σ) :
    build.usizeAdd a b s = .done ((a + b) % 2 ^ 64) s := by
  cases build with
  | release => rfl
  | debug =>
      have small := fits.resolve_right nofun
      rw [Build.usizeAdd, Exec.usizeAdd_of_lt small, Nat.mod_eq_of_lt small]

theorem allocateFrame_eq (sound : Sound memoryRegions) (build : Build) {next : Nat}
    (fits : next + 1 < 2 ^ 64 ∨ build = .release ∧ next + 1 = 2 ^ 64) :
    allocateFrame build { memoryRegions, next } =
      .done (usableFrames memoryRegions)[next]? { memoryRegions, next := (next + 1) % 2 ^ 64 } := by
  unfold allocateFrame
  rw [Exec.get_bind, Exec.bind_of_done (nth_eq (usableAddresses_valid sound) next _),
    map_usableAddresses sound.toPaged, Exec.bind_of_done (usizeAdd_run (fits.imp_right And.left) _),
    Exec.modify_bind, Exec.ret_run]

theorem allocateFrames_eq (sound : Sound memoryRegions) (build : Build) {n : Nat}
    (fits : n < 2 ^ 64 ∨ build = .release ∧ n = 2 ^ 64) :
    allocateFrames build n (init memoryRegions) =
      .done ((List.range n).map (fun i => (usableFrames memoryRegions)[i]?))
        { memoryRegions, next := n % 2 ^ 64 } := by
  induction n with
  | zero => rfl
  | succ n ih =>
      have before := ih (.inl (by omega))
      rw [Nat.mod_eq_of_lt (by omega)] at before
      rw [allocateFrames, Exec.bind_of_done before,
        Exec.bind_of_done (allocateFrame_eq sound build fits), Exec.ret_run, List.range_succ,
        List.map_append]
      rfl

theorem framesOf_address {r : MemoryRegion} (low : r.start.toNat % 4096 = 0) {frame : PhysFrame} :
    frame ∈ framesOf r ↔
      r.start.toNat ≤ frame.startAddress ∧ frame.startAddress + 4096 ≤ r.stop.toNat := by
  have aligned := frame.aligned
  unfold framesOf
  rw [List.mem_map]
  constructor
  · rintro ⟨i, below, rfl⟩
    rw [List.mem_range] at below
    simp only [PhysFrame.containingAddress]
    omega
  · rintro ⟨above, inside⟩
    refine ⟨(frame.startAddress - r.start.toNat) / 4096, List.mem_range.mpr (by omega), ?_⟩
    apply PhysFrame.ext
    simp only [PhysFrame.containingAddress]
    omega

/-- The list holds the frames inside usable regions. -/
theorem mem_usableFrames (paged : Paged memoryRegions) {frame : PhysFrame} :
    frame ∈ usableFrames memoryRegions ↔ Usable memoryRegions frame := by
  unfold usableFrames Usable
  rw [List.mem_flatMap]
  constructor
  · rintro ⟨r, kept, inside⟩
    obtain ⟨there, kind⟩ := List.mem_filter.mp kept
    have usable := beq_iff_eq.mp kind
    exact ⟨r, there, usable, (framesOf_address (paged.aligned r there usable).1).mp inside⟩
  · rintro ⟨r, there, usable, inside⟩
    refine ⟨r, List.mem_filter.mpr ⟨there, beq_iff_eq.mpr usable⟩, ?_⟩
    exact (framesOf_address (paged.aligned r there usable).1).mpr inside

theorem framesOf_nodup {r : MemoryRegion} (low : r.start.toNat % 4096 = 0) : (framesOf r).Nodup := by
  apply List.Nodup.map_on _ List.nodup_range
  intro i _ j _ same
  have address := congrArg PhysFrame.startAddress same
  simp only [PhysFrame.containingAddress] at address
  omega

theorem usableFrames_nodup (paged : Paged memoryRegions) : (usableFrames memoryRegions).Nodup := by
  unfold usableFrames
  rw [List.nodup_flatMap]
  constructor
  · intro r kept
    obtain ⟨there, kind⟩ := List.mem_filter.mp kept
    exact framesOf_nodup (paged.aligned r there (beq_iff_eq.mp kind)).1
  · apply paged.disjoint.imp_of_mem
    intro r r' kept kept' apart frame inside inside'
    obtain ⟨there, kind⟩ := List.mem_filter.mp kept
    obtain ⟨there', kind'⟩ := List.mem_filter.mp kept'
    have first := (framesOf_address (paged.aligned r there (beq_iff_eq.mp kind)).1).mp inside
    have second := (framesOf_address (paged.aligned r' there' (beq_iff_eq.mp kind')).1).mp inside'
    exact apart frame.startAddress first.1 (by omega) ⟨second.1, by omega⟩

/-- Regions below some address have no more frames than there are below it. -/
theorem usableFrames_length_le (paged : Paged memoryRegions) {count : Nat}
    (below : ∀ r ∈ memoryRegions, r.kind = .usable → r.stop.toNat ≤ count * 4096) :
    (usableFrames memoryRegions).length ≤ count := by
  have numbers : ((usableFrames memoryRegions).map (fun f => f.startAddress / 4096)).Nodup := by
    apply List.Nodup.map_on _ (usableFrames_nodup paged)
    intro f _ f' _ same
    have aligned := f.aligned
    have aligned' := f'.aligned
    apply PhysFrame.ext
    omega
  have inside : (usableFrames memoryRegions).map (fun f => f.startAddress / 4096) ⊆
      List.range count := by
    intro number member
    obtain ⟨f, listed, rfl⟩ := List.mem_map.mp member
    obtain ⟨r, there, usable, _, high⟩ := (mem_usableFrames paged).mp listed
    have bound := below r there usable
    rw [List.mem_range]
    omega
  have bound := (List.subperm_of_subset numbers inside).length_le
  rwa [List.length_map, List.length_range] at bound

/-- Physical memory has `2 ^ 40` frames. -/
theorem usableFrames_length_le_physical (sound : Sound memoryRegions) :
    (usableFrames memoryRegions).length ≤ 2 ^ 40 :=
  usableFrames_length_le sound.toPaged (fun r there usable => sound.valid r there usable)

/-- Whatever the map says, its addresses have 64 bits. -/
theorem usableFrames_length_le_addresses (paged : Paged memoryRegions) :
    (usableFrames memoryRegions).length ≤ 2 ^ 52 :=
  usableFrames_length_le paged (fun r _ _ => Nat.le_of_lt r.stop.toNat_lt)

/-- A call gives the next frame, unless the map has an address that is not valid. -/
theorem allocateFrame_unless (paged : Paged memoryRegions) (build : Build) {next : Nat}
    (fits : next + 1 < 2 ^ 64) :
    FinishesUnless (¬Sound memoryRegions) (allocateFrame build)
      (fun frame allocator => frame = (usableFrames memoryRegions)[next]? ∧
        allocator = { memoryRegions, next := next + 1 }) { memoryRegions, next } := by
  have advanced := usizeAdd_run (Or.inl fits : _ ∨ build = .release)
    ({ memoryRegions, next } : BootInfoFrameAllocator)
  rw [Nat.mod_eq_of_lt fits] at advanced
  have invalid (address : Nat) (member : address ∈ usableAddresses memoryRegions)
      (large : ¬address < 2 ^ 52) : ¬Sound memoryRegions :=
    fun sound => large (usableAddresses_valid sound address member)
  refine FinishesUnless.bind (Or.inl ⟨_, _, rfl, ?_⟩)
  refine FinishesUnless.andThen (nth_unless invalid next _) ?_
  rintro _ _ ⟨rfl, rfl⟩
  refine FinishesUnless.bind (Or.inl ⟨_, _, advanced, ?_⟩)
  refine FinishesUnless.bind (FinishesUnless.modify (FinishesUnless.ret ⟨?_, rfl⟩))
  rw [map_usableAddresses paged]

/-- The calls return the usable frames in order: all different, each inside a usable
region, each of them at some call, and nothing once they have run out. -/
theorem allocateFrames_hands_out_each_once (sound : Sound memoryRegions) (build : Build) :
    (∀ n, (n < 2 ^ 64 ∨ build = .release ∧ n = 2 ^ 64) →
      ∃ allocator, allocateFrames build n (init memoryRegions) =
        .done ((List.range n).map (fun i => (usableFrames memoryRegions)[i]?)) allocator) ∧
    (∀ (i j : Nat) (frame : PhysFrame), (usableFrames memoryRegions)[i]? = some frame →
      (usableFrames memoryRegions)[j]? = some frame → i = j) ∧
    (∀ (i : Nat) (frame : PhysFrame), (usableFrames memoryRegions)[i]? = some frame →
      Usable memoryRegions frame) ∧
    (∀ frame, Usable memoryRegions frame →
      ∃ i, i + 1 < 2 ^ 64 ∧ (usableFrames memoryRegions)[i]? = some frame) ∧
    (∀ i j : Nat, (usableFrames memoryRegions)[i]? = none → i ≤ j →
      (usableFrames memoryRegions)[j]? = none) := by
  refine ⟨?_, ?_, ?_, ?_, ?_⟩
  · intro n fits
    exact ⟨_, allocateFrames_eq sound build fits⟩
  · intro i j frame here there
    obtain ⟨inside, value⟩ := List.getElem?_eq_some_iff.mp here
    obtain ⟨inside', value'⟩ := List.getElem?_eq_some_iff.mp there
    exact (usableFrames_nodup sound.toPaged).getElem_inj_iff.mp (value.trans value'.symm)
  · intro i frame here
    exact (mem_usableFrames sound.toPaged).mp (List.mem_of_getElem? here)
  · intro frame usable
    obtain ⟨i, inside, value⟩ := List.getElem_of_mem ((mem_usableFrames sound.toPaged).mpr usable)
    have few := usableFrames_length_le_physical sound
    exact ⟨i, by omega, List.getElem?_eq_some_iff.mpr ⟨inside, value⟩⟩
  · intro i j missing later
    rw [List.getElem?_eq_none_iff] at missing ⊢
    omega

/-- Two usable regions around one that is not. -/
def sampleMap : List MemoryRegion :=
  [⟨0x1000, 0x2000, .usable⟩, ⟨0x2000, 0x5000, .bootloader⟩, ⟨0x5000, 0x6000, .usable⟩]

theorem sampleMap_sound : Sound sampleMap where
  aligned := by decide
  valid := by decide
  disjoint := by
    change List.Pairwise _ ([⟨0x1000, 0x2000, .usable⟩, ⟨0x5000, 0x6000, .usable⟩] :
      List MemoryRegion)
    rw [List.pairwise_pair]
    intro address _ below above
    change address < 0x2000 at below
    change 0x5000 ≤ address ∧ _ at above
    omega

theorem allocateFrames_sample :
    Sound sampleMap ∧ ∃ allocator, allocateFrames .debug 3 (init sampleMap) =
      .done [some ⟨0x1000, rfl⟩, some ⟨0x5000, rfl⟩, none] allocator :=
  ⟨sampleMap_sound,
    (allocateFrames_hands_out_each_once sampleMap_sound .debug).1 3 (.inl (by decide))⟩

end BootInfoFrameAllocator
end ComputeKernel
