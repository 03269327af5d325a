import ComputeKernel.Memory.Frames

/-! The kernel heap (`kernel/src/memory/heap.rs`): one frame for each of its pages, from
the allocator that the mapper takes the frames of its page tables from. The mapper is any
code that takes frames, and then maps the page it was given or fails. -/
namespace ComputeKernel
open BootInfoFrameAllocator (Paged Sound Usable allocateFrame allocateFrame_eq allocateFrame_unless
  mem_usableFrames usableFrames usableFrames_length_le_addresses usableFrames_length_le_physical
  usableFrames_nodup)
open Checked (Exec Finishes FinishesUnless)

/-- A page of 4 KiB of virtual memory. -/
@[ext]
structure Page where
  startAddress : Nat
  aligned : startAddress % 4096 = 0

namespace Page

theorem aligned_down (address : Nat) : (address - address % 4096) % 4096 = 0 := by omega

/-- `Page::containing_address`. -/
def containingAddress (address : Nat) : Page :=
  { startAddress := address - address % 4096
    aligned := aligned_down address }

/-- `Page::range_inclusive`. -/
def rangeInclusive (first last : Page) : List Page :=
  (List.range' (first.startAddress / 4096)
    (last.startAddress / 4096 + 1 - first.startAddress / 4096)).map (fun number =>
      { startAddress := number * 4096
        aligned := Nat.mul_mod_left number 4096 })

end Page

def heapStart : Nat := 0x444444440000
def heapSize : Nat := 2 * 1024 * 1024

def heapPages : List Page :=
  let heapEnd := heapStart + heapSize - 1
  Page.rangeInclusive (Page.containingAddress heapStart) (Page.containingAddress heapEnd)

namespace PageTableFlags

def present : UInt64 := 1
def writable : UInt64 := 2
def noExecute : UInt64 := 0x8000000000000000

end PageTableFlags

def heapFlags : UInt64 :=
  PageTableFlags.present ||| PageTableFlags.writable ||| PageTableFlags.noExecute

inductive MapToError where
  | frameAllocationFailed
  | parentEntryHugePage
  | pageAlreadyMapped (frame : PhysFrame)
  deriving DecidableEq

/-- What a call of `map_to` does, and the mapper after it. It takes frames for its page
tables for as long as it likes, or until it is refused one, and then maps the page or
fails. -/
inductive MapTo (μ : Type) where
  | take (next : PhysFrame → MapTo μ) (refused : Except MapToError Unit × μ)
  | done (result : Except MapToError Unit) (mapper : μ)

/-- The mapper and the allocator, with what has been mapped so far and the frames that
the mapper has taken for itself. -/
structure Paging (μ : Type) where
  allocator : BootInfoFrameAllocator
  mapper : μ
  mapped : List (Page × PhysFrame)
  tables : List PhysFrame

namespace Paging

variable {μ : Type}

def start (memoryRegions : List MemoryRegion) (mapper : μ) : Paging μ :=
  { allocator := BootInfoFrameAllocator.init memoryRegions
    mapper
    mapped := []
    tables := [] }

def onAllocator (m : Exec BootInfoFrameAllocator α) : Exec (Paging μ) α :=
  m.zoom allocator (fun allocator s => { s with allocator })

/-- A call of `map_to` with the allocator at hand. -/
def runMapTo (build : Build) : MapTo μ → Exec (Paging μ) (Except MapToError Unit)
  | .done result mapper => do
      Exec.modify (fun s => { s with mapper })
      Exec.ret result
  | .take next refused => do
      let frame ← onAllocator (allocateFrame build)
      match frame with
      | some frame => do
          Exec.modify (fun s => { s with tables := s.tables ++ [frame] })
          runMapTo build (next frame)
      | none => do
          Exec.modify (fun s => { s with mapper := refused.2 })
          Exec.ret refused.1

/-- The loop of `init_heap` over the pages that are left. -/
def mapPages (build : Build) (mapTo : Page → PhysFrame → UInt64 → μ → MapTo μ) :
    List Page → Exec (Paging μ) (Except MapToError Unit)
  | [] => Exec.ret (.ok ())
  | page :: pages => do
      let frame ← onAllocator (allocateFrame build)
      match frame with
      | none => Exec.ret (.error .frameAllocationFailed)
      | some frame => do
          let s ← Exec.get
          let result ← runMapTo build (mapTo page frame heapFlags s.mapper)
          match result with
          | .error e => Exec.ret (.error e)
          | .ok _ => do
              Exec.modify (fun s => { s with mapped := s.mapped ++ [(page, frame)] })
              mapPages build mapTo pages

def initHeap (build : Build) (mapTo : Page → PhysFrame → UInt64 → μ → MapTo μ) :
    Exec (Paging μ) (Except MapToError Unit) := mapPages build mapTo heapPages

/-- The pages and the frames of what has been mapped. -/
def pages (s : Paging μ) : List Page := s.mapped.map Prod.fst

def frames (s : Paging μ) : List PhysFrame := s.mapped.map Prod.snd

end Paging

/-- The page lies in the range of the heap. -/
def Page.InHeap (page : Page) : Prop :=
  heapStart ≤ page.startAddress ∧ page.startAddress < heapStart + heapSize

theorem mem_heapPages {page : Page} : page ∈ heapPages ↔ page.InHeap := by
  have aligned := page.aligned
  unfold heapPages Page.rangeInclusive Page.InHeap
  simp only [Page.containingAddress, heapStart, heapSize, List.mem_map, List.mem_range'_1]
  constructor
  · rintro ⟨number, inside, rfl⟩
    dsimp only
    omega
  · intro inside
    refine ⟨page.startAddress / 4096, by omega, ?_⟩
    apply Page.ext
    dsimp only
    omega

theorem heapPages_nodup : heapPages.Nodup := by
  unfold heapPages Page.rangeInclusive
  apply List.Nodup.map_on _ List.nodup_range'
  intro i _ j _ same
  have address := congrArg Page.startAddress same
  dsimp only at address
  omega

theorem heapPages_length : heapPages.length = 512 := by
  unfold heapPages Page.rangeInclusive
  rw [List.length_map, List.length_range']
  rfl

namespace Paging

section Invariant

variable {μ : Type} {memoryRegions : List MemoryRegion} {build : Build} {s : Paging μ}
  {refusals : Nat} {held : List PhysFrame} {frame : PhysFrame}
  {mapTo : Page → PhysFrame → UInt64 → μ → MapTo μ}

/-- The frames handed out so far have been mapped, have gone into page tables, or are
held by the caller; the allocator has been asked in vain at most so many times. -/
structure Backing (memoryRegions : List MemoryRegion) (refusals : Nat) (held : List PhysFrame)
    (s : Paging μ) : Prop where
  regions : s.allocator.memoryRegions = memoryRegions
  count : s.allocator.next ≤ (usableFrames memoryRegions).length + refusals
  handed : (s.frames ++ s.tables ++ held).Perm
    ((usableFrames memoryRegions).take s.allocator.next)

theorem start_backing (memoryRegions : List MemoryRegion) (mapper : μ) :
    (start memoryRegions mapper).Backing memoryRegions 0 [] where
  regions := rfl
  count := Nat.zero_le _
  handed := List.Perm.refl []

theorem Backing.mono (h : s.Backing memoryRegions refusals held) {more : Nat} (le : refusals ≤ more) :
    s.Backing memoryRegions more held :=
  ⟨h.regions, Nat.le_trans h.count (Nat.add_le_add_left le _), h.handed⟩

theorem Backing.with_mapper (h : s.Backing memoryRegions refusals held) (mapper : μ) :
    ({ s with mapper } : Paging μ).Backing memoryRegions refusals held :=
  ⟨h.regions, h.count, h.handed⟩

/-- A frame goes into a page table. -/
theorem Backing.take_table (h : s.Backing memoryRegions refusals (held ++ [frame])) :
    ({ s with tables := s.tables ++ [frame] } : Paging μ).Backing memoryRegions refusals held := by
  refine ⟨h.regions, h.count, List.Perm.trans ?_ h.handed⟩
  change (s.frames ++ (s.tables ++ [frame]) ++ held).Perm _
  rw [← List.append_assoc, ← List.append_assoc, List.append_assoc _ [frame]]
  rw [List.append_assoc _ held]
  exact List.perm_append_comm.append_left _

/-- The frame is mapped to a page. -/
theorem Backing.map_page (h : s.Backing memoryRegions refusals [frame]) (page : Page) :
    ({ s with mapped := s.mapped ++ [(page, frame)] } : Paging μ).Backing memoryRegions refusals [] := by
  refine ⟨h.regions, h.count, List.Perm.trans ?_ h.handed⟩
  change ((s.mapped ++ [(page, frame)]).map Prod.snd ++ s.tables ++ []).Perm _
  rw [List.map_append, List.append_nil, List.append_assoc, List.append_assoc]
  exact List.perm_append_comm.append_left _

/-- The allocator after one more call. -/
def advanced (memoryRegions : List MemoryRegion) (s : Paging μ) : Paging μ :=
  { s with allocator := { memoryRegions, next := s.allocator.next + 1 } }

theorem Backing.given (h : s.Backing memoryRegions refusals held)
    (found : (usableFrames memoryRegions)[s.allocator.next]? = some frame) :
    (s.advanced memoryRegions).Backing memoryRegions refusals (held ++ [frame]) := by
  obtain ⟨inside, _⟩ := List.getElem?_eq_some_iff.mp found
  refine ⟨rfl, ?_, ?_⟩
  · change s.allocator.next + 1 ≤ _
    omega
  · change (s.frames ++ s.tables ++ (held ++ [frame])).Perm
      ((usableFrames memoryRegions).take (s.allocator.next + 1))
    rw [List.take_add_one, found, ← List.append_assoc]
    exact h.handed.append_right [frame]

theorem Backing.refused (h : s.Backing memoryRegions refusals held)
    (none_ : (usableFrames memoryRegions)[s.allocator.next]? = none) :
    (s.advanced memoryRegions).Backing memoryRegions (refusals + 1) held := by
  refine ⟨rfl, Nat.succ_le_succ h.count, ?_⟩
  change (s.frames ++ s.tables ++ held).Perm ((usableFrames memoryRegions).take (s.allocator.next + 1))
  rw [List.take_add_one, none_, Option.toList_none, List.append_nil]
  exact h.handed

/-- A request gets the next frame, if there is one left. -/
theorem onAllocator_allocate (paged : Paged memoryRegions) (build : Build)
    (h : s.Backing memoryRegions refusals held) (few : refusals ≤ 512) :
    FinishesUnless (¬Sound memoryRegions) (onAllocator (allocateFrame build))
      (fun frame s' => frame = (usableFrames memoryRegions)[s.allocator.next]? ∧
        s' = s.advanced memoryRegions) s := by
  have count := h.count
  have most := usableFrames_length_le_addresses paged
  have same : s.allocator = { memoryRegions, next := s.allocator.next } := by rw [← h.regions]
  apply FinishesUnless.zoom
  rw [same]
  refine FinishesUnless.mono (allocateFrame_unless paged build (by omega)) ?_
  rintro _ _ ⟨rfl, rfl⟩
  exact ⟨rfl, rfl⟩

/-- `map_to` takes its frames without touching what is mapped. -/
theorem runMapTo_backing (paged : Paged memoryRegions) (build : Build) (call : MapTo μ)
    (h : s.Backing memoryRegions refusals held) (few : refusals ≤ 512) :
    FinishesUnless (¬Sound memoryRegions) (runMapTo build call)
      (fun _ s' => s'.mapped = s.mapped ∧ s'.Backing memoryRegions (refusals + 1) held) s := by
  induction call generalizing s with
  | done result mapper =>
      refine FinishesUnless.bind (FinishesUnless.modify (FinishesUnless.ret ⟨rfl, ?_⟩))
      exact (h.mono (Nat.le_succ refusals)).with_mapper mapper
  | take next refused ih =>
      unfold runMapTo
      refine FinishesUnless.andThen (onAllocator_allocate paged build h few) ?_
      rintro _ _ ⟨rfl, rfl⟩
      cases found : (usableFrames memoryRegions)[s.allocator.next]? with
      | some frame =>
          exact FinishesUnless.bind (FinishesUnless.modify (ih frame (h.given found).take_table))
      | none =>
          refine FinishesUnless.bind (FinishesUnless.modify (FinishesUnless.ret ⟨rfl, ?_⟩))
          exact (h.refused found).with_mapper refused.2

/-- The loop maps all the pages, or returns an error. -/
theorem mapPages_backing (paged : Paged memoryRegions) (build : Build)
    (mapTo : Page → PhysFrame → UInt64 → μ → MapTo μ) (pages : List Page)
    (h : s.Backing memoryRegions refusals []) (few : refusals + pages.length ≤ 512) :
    FinishesUnless (¬Sound memoryRegions) (mapPages build mapTo pages)
      (fun result s' => result = .ok () →
        s'.pages = s.pages ++ pages ∧ ∃ refusals, s'.Backing memoryRegions refusals []) s := by
  induction pages generalizing s refusals with
  | nil => exact FinishesUnless.ret (fun _ => ⟨(List.append_nil s.pages).symm, refusals, h⟩)
  | cons page pages ih =>
      rw [List.length_cons] at few
      refine FinishesUnless.andThen (onAllocator_allocate paged build h (by omega)) ?_
      rintro _ _ ⟨rfl, rfl⟩
      cases found : (usableFrames memoryRegions)[s.allocator.next]? with
      | none => exact FinishesUnless.ret (fun failed => by cases failed)
      | some frame =>
          refine FinishesUnless.bind (Or.inl ⟨_, _, rfl, ?_⟩)
          refine FinishesUnless.andThen (runMapTo_backing paged build _ (h.given found) (by omega)) ?_
          rintro result s' ⟨same, backing⟩
          cases result with
          | error e => exact FinishesUnless.ret (fun failed => by cases failed)
          | ok _ =>
              refine FinishesUnless.bind (FinishesUnless.modify ?_)
              refine FinishesUnless.mono (ih (backing.map_page page) (by omega)) ?_
              intro result s'' mapped ok
              obtain ⟨all, backing⟩ := mapped ok
              refine ⟨all.trans ?_, backing⟩
              change (s'.mapped ++ [(page, frame)]).map Prod.fst ++ pages = _
              rw [same, List.map_append, List.append_assoc]
              rfl

/-- On a sound map a request always returns. -/
theorem allocateFrame_done (sound : Sound memoryRegions) (build : Build)
    (regions : s.allocator.memoryRegions = memoryRegions) (fits : s.allocator.next + 1 < 2 ^ 64) :
    onAllocator (allocateFrame build) s =
      .done (usableFrames memoryRegions)[s.allocator.next]? (s.advanced memoryRegions) := by
  have same : s.allocator = { memoryRegions, next := s.allocator.next } := by rw [← regions]
  have ran := allocateFrame_eq sound build (Or.inl fits)
  rw [← same, Nat.mod_eq_of_lt fits] at ran
  exact Exec.zoom_of_done _ ran

/-- Where the frames have run out, the loop does not get past its next page. -/
theorem mapPages_out_of_frames (sound : Sound memoryRegions) (build : Build)
    (regions : s.allocator.memoryRegions = memoryRegions)
    (out : (usableFrames memoryRegions).length ≤ s.allocator.next)
    (fits : s.allocator.next + 1 < 2 ^ 64) (page : Page) (pages : List Page) :
    Finishes (mapPages build mapTo (page :: pages))
      (fun result s' => result = .error .frameAllocationFailed ∧ s'.mapped = s.mapped) s := by
  have refused := allocateFrame_done sound build regions fits
  rw [List.getElem?_eq_none_iff.mpr out] at refused
  refine Finishes.bind (Finishes.of_done refused ?_)
  exact Finishes.ret ⟨rfl, rfl⟩

end Invariant

/-- Every page of the heap, and no other, is mapped once, to usable frames that are all
different and in no page table. -/
structure HeapBacked (memoryRegions : List MemoryRegion) (s : Paging μ) : Prop where
  pages : ∀ page, page ∈ s.pages ↔ page.InHeap
  once : s.pages.Nodup
  distinct : s.frames.Nodup
  usable : ∀ frame ∈ s.frames, Usable memoryRegions frame
  apart : ∀ frame ∈ s.frames, frame ∉ s.tables

theorem Backing.heapBacked {μ : Type} {memoryRegions : List MemoryRegion} {refusals : Nat}
    {s : Paging μ} (paged : Paged memoryRegions) (h : s.Backing memoryRegions refusals [])
    (all : s.pages = heapPages) : s.HeapBacked memoryRegions := by
  have handed := h.handed
  rw [List.append_nil] at handed
  have different : (s.frames ++ s.tables).Nodup :=
    handed.nodup_iff.mpr ((usableFrames_nodup paged).sublist (List.take_sublist _ _))
  refine ⟨?_, ?_, different.of_append_left, ?_, ?_⟩
  · intro page
    rw [all]
    exact mem_heapPages
  · rw [all]
    exact heapPages_nodup
  · intro frame member
    have listed := handed.mem_iff.mp (List.mem_append_left s.tables member)
    exact (mem_usableFrames paged).mp (List.mem_of_mem_take listed)
  · exact fun frame member => List.disjoint_of_nodup_append different member

/-- A heap that has been set up is backed by frames of its own, and a page that is left
unmapped comes with an error. On a sound map the call returns, and where no frame is left
it returns an error at the next page. -/
theorem heap_backed_by_distinct_frames {memoryRegions : List MemoryRegion}
    (paged : Paged memoryRegions) (build : Build) {μ : Type}
    (mapTo : Page → PhysFrame → UInt64 → μ → MapTo μ) (mapper : μ) :
    (∀ s, initHeap build mapTo (start memoryRegions mapper) = .done (.ok ()) s →
      s.HeapBacked memoryRegions) ∧
    (∀ result s, initHeap build mapTo (start memoryRegions mapper) = .done result s →
      (∃ page : Page, page.InHeap ∧ page ∉ s.pages) → ∃ e, result = .error e) ∧
    (Sound memoryRegions →
      (∃ result s, initHeap build mapTo (start memoryRegions mapper) = .done result s) ∧
      ∀ (s : Paging μ) (page : Page) (pages : List Page),
        s.allocator.memoryRegions = memoryRegions →
        (usableFrames memoryRegions).length ≤ s.allocator.next → s.allocator.next + 1 < 2 ^ 64 →
        Finishes (mapPages build mapTo (page :: pages))
          (fun result s' => result = .error .frameAllocationFailed ∧ s'.mapped = s.mapped) s) := by
  have set_up := mapPages_backing paged build mapTo heapPages (start_backing memoryRegions mapper)
    (by simp only [heapPages_length, Nat.zero_add, Nat.le_refl])
  have backed (s : Paging μ)
      (ran : initHeap build mapTo (start memoryRegions mapper) = .done (.ok ()) s) :
      s.HeapBacked memoryRegions := by
    obtain ⟨all, refusals, backing⟩ := set_up.done ran rfl
    exact backing.heapBacked paged all
  refine ⟨backed, ?_, fun sound => ⟨?_, ?_⟩⟩
  · rintro result s ran ⟨page, inside, unmapped⟩
    cases result with
    | error e => exact ⟨e, rfl⟩
    | ok _ => exact absurd (((backed s ran).pages page).mpr inside) unmapped
  · obtain ⟨result, s, ran, _⟩ := set_up.finishes (not_not_intro sound)
    exact ⟨result, s, ran⟩
  · intro s page pages regions out fits
    exact mapPages_out_of_frames sound build regions out fits page pages

/-- A mapper whose page tables are all there. -/
def plainMapTo (_ : Page) (_ : PhysFrame) (_ : UInt64) (_ : Unit) : MapTo Unit := .done (.ok ()) ()

/-- With such a mapper as many frames as pages are enough. -/
theorem mapPages_plain {memoryRegions : List MemoryRegion} (sound : Sound memoryRegions)
    (build : Build) (pages : List Page) {s : Paging Unit}
    (regions : s.allocator.memoryRegions = memoryRegions)
    (enough : s.allocator.next + pages.length ≤ (usableFrames memoryRegions).length) :
    Finishes (mapPages build plainMapTo pages) (fun result _ => result = .ok ()) s := by
  induction pages generalizing s with
  | nil => exact Finishes.ret rfl
  | cons page pages ih =>
      have most := usableFrames_length_le_physical sound
      rw [List.length_cons] at enough
      have inside : s.allocator.next < (usableFrames memoryRegions).length := by omega
      have given := allocateFrame_done sound build regions (by omega)
      rw [List.getElem?_eq_getElem inside] at given
      refine Finishes.bind (Finishes.of_done given ?_)
      refine Finishes.bind (Finishes.get (Finishes.bind (Finishes.of_done rfl ?_)))
      refine Finishes.bind (Finishes.modify (ih rfl ?_))
      change s.allocator.next + 1 + pages.length ≤ _
      omega

/-- Two megabytes of usable memory. -/
def twoMegabytes : List MemoryRegion := [⟨0x200000, 0x400000, .usable⟩]

theorem twoMegabytes_sound : Sound twoMegabytes where
  aligned := by decide
  valid := by decide
  disjoint := List.pairwise_singleton _ _

theorem heap_backed_two_megabytes :
    Paged twoMegabytes ∧ ∃ s, initHeap .release plainMapTo (start twoMegabytes ()) = .done (.ok ()) s ∧
      s.HeapBacked twoMegabytes := by
  have frames : (usableFrames twoMegabytes).length = 512 := by
    simp [usableFrames, twoMegabytes, BootInfoFrameAllocator.framesOf]
  have enough : (start twoMegabytes ()).allocator.next + heapPages.length ≤
      (usableFrames twoMegabytes).length := by
    rw [frames, heapPages_length]
    decide
  obtain ⟨_, s, ran, rfl⟩ := mapPages_plain twoMegabytes_sound .release heapPages
    (s := start twoMegabytes ()) rfl enough
  have backed := heap_backed_by_distinct_frames twoMegabytes_sound.toPaged .release plainMapTo ()
  exact ⟨twoMegabytes_sound.toPaged, s, ran, backed.1 s ran⟩

end Paging
end ComputeKernel
