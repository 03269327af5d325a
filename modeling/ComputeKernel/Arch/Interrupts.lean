import Mathlib.Data.List.Find
import ComputeKernel.Support.Runs

/-! The hardware interrupts of the kernel (`kernel/src/arch/x86_64/interrupts.rs` and
`idt.rs`): the vectors, the gates, the end of interrupt that each handler sends, and the
masks of `init_pics`. The `pic8259` crate and the two 8259 controllers behind it are no part
of the kernel: they are a parameter here, and what is assumed of them is a structure of
named laws. -/
namespace ComputeKernel.Arch

def pic1Offset : UInt8 := 0x20
def pic2Offset : UInt8 := pic1Offset + 8

inductive InterruptIndex where
  | timer
  | keyboard
  | cascade
  | com2
  | com1
  | lpt2
  | floppyDisk
  | lpt1
  | rtcTimer
  | legacy1
  | legacy2
  | legacy3
  | ps2Mouse
  | fpuCoprocessor
  | primaryAta
  | secondaryAta
  deriving DecidableEq, Repr

/-- The discriminants count up from `PIC_1_OFFSET`. -/
def InterruptIndex.asU8 : InterruptIndex → UInt8
  | .timer => pic1Offset
  | .keyboard => pic1Offset + 1
  | .cascade => pic1Offset + 2
  | .com2 => pic1Offset + 3
  | .com1 => pic1Offset + 4
  | .lpt2 => pic1Offset + 5
  | .floppyDisk => pic1Offset + 6
  | .lpt1 => pic1Offset + 7
  | .rtcTimer => pic1Offset + 8
  | .legacy1 => pic1Offset + 9
  | .legacy2 => pic1Offset + 10
  | .legacy3 => pic1Offset + 11
  | .ps2Mouse => pic1Offset + 12
  | .fpuCoprocessor => pic1Offset + 13
  | .primaryAta => pic1Offset + 14
  | .secondaryAta => pic1Offset + 15

/-- The handler functions for hardware interrupts. -/
inductive IrqHandler where
  | timerInterruptHandler
  | keyboardInterruptHandler
  | primaryAtaHandler
  | secondaryAtaHandler
  | cascadeInterruptHandler
  | com2InterruptHandler
  | com1InterruptHandler
  | lpt2InterruptHandler
  | floppyInterruptHandler
  | lpt1InterruptHandler
  | rtcInterruptHandler
  | legacy1InterruptHandler
  | legacy2InterruptHandler
  | legacy3InterruptHandler
  | mouseInterruptHandler
  | fpuInterruptHandler
  deriving DecidableEq, Repr

/-- The argument of `notify_end_of_interrupt` at the end of each handler. -/
def IrqHandler.notifies : IrqHandler → InterruptIndex
  | .timerInterruptHandler => .timer
  | .keyboardInterruptHandler => .keyboard
  | .primaryAtaHandler => .primaryAta
  | .secondaryAtaHandler => .secondaryAta
  | .cascadeInterruptHandler => .cascade
  | .com2InterruptHandler => .com2
  | .com1InterruptHandler => .com1
  | .lpt2InterruptHandler => .lpt2
  | .floppyInterruptHandler => .floppyDisk
  | .lpt1InterruptHandler => .lpt1
  | .rtcInterruptHandler => .rtcTimer
  | .legacy1InterruptHandler => .legacy1
  | .legacy2InterruptHandler => .legacy2
  | .legacy3InterruptHandler => .legacy3
  | .mouseInterruptHandler => .ps2Mouse
  | .fpuInterruptHandler => .fpuCoprocessor

/-- The gates that `idt::init` sets for hardware interrupts. -/
def gates : List (InterruptIndex × IrqHandler) :=
  [(.timer, .timerInterruptHandler), (.keyboard, .keyboardInterruptHandler),
    (.cascade, .cascadeInterruptHandler), (.com2, .com2InterruptHandler),
    (.com1, .com1InterruptHandler), (.lpt2, .lpt2InterruptHandler),
    (.floppyDisk, .floppyInterruptHandler), (.lpt1, .lpt1InterruptHandler),
    (.rtcTimer, .rtcInterruptHandler), (.legacy1, .legacy1InterruptHandler),
    (.legacy2, .legacy2InterruptHandler), (.legacy3, .legacy3InterruptHandler),
    (.ps2Mouse, .mouseInterruptHandler), (.fpuCoprocessor, .fpuInterruptHandler),
    (.primaryAta, .primaryAtaHandler), (.secondaryAta, .secondaryAtaHandler)]

/-- The handler at a vector. -/
def idt (vector : UInt8) : Option IrqHandler :=
  (gates.find? (fun gate => gate.1.asU8 == vector)).map Prod.snd

def primaryMask : UInt8 := (0xFF : UInt8) &&& ~~~((1 : UInt8) <<< 0 ||| (1 : UInt8) <<< 1 ||| (1 : UInt8) <<< 2)
def secondaryMask : UInt8 := 0xFF

/-- The operations of the `pic8259` crate, and the other ends of the two controllers: a
device raises its line, and the processor accepts an interrupt and is given its vector. -/
structure Pics (Chips : Type) where
  initializeChips : Chips → Chips
  writeMasks (primary secondary : UInt8) : Chips → Chips
  notifyEndOfInterrupt (id : UInt8) : Chips → Chips
  raise (line : Fin 16) : Chips → Chips
  acknowledge : Chips → Option (UInt8 × Chips)

variable {Chips : Type}

def initPics (pics : Pics Chips) (chips : Chips) : Chips :=
  pics.writeMasks primaryMask secondaryMask (pics.initializeChips chips)

/-- The vector of a line: `PICS` is made with the offsets of the two controllers. -/
def vector (line : Fin 16) : UInt8 :=
  if line.val < 8 then pic1Offset + UInt8.ofNat line.val
  else pic2Offset + UInt8.ofNat (line.val - 8)

/-- The bit of a line in the masks of the two controllers. -/
def masked (masks : UInt8 × UInt8) (line : Fin 16) : Bool :=
  if line.val < 8 then masks.1.toNat.testBit line.val else masks.2.toNat.testBit (line.val - 8)

/-- What is assumed of the crate and the controllers. `inService` are the vectors of the
interrupts that have been accepted and not ended. Line 2 of the first controller is the
second one, which gives its own vectors. A controller that has nothing left to serve when it
is asked answers with its last line, and has nothing in service for it. -/
structure Pics.Lawful (pics : Pics Chips) (inService : Chips → List UInt8) (masks : Chips → UInt8 × UInt8) :
    Prop where
  initialized : ∀ chips, inService (pics.initializeChips chips) = []
  masks_written : ∀ primary secondary chips,
    masks (pics.writeMasks primary secondary chips) = (primary, secondary) ∧
      inService (pics.writeMasks primary secondary chips) = inService chips
  raised : ∀ line chips,
    masks (pics.raise line chips) = masks chips ∧ inService (pics.raise line chips) = inService chips
  accepted : ∀ chips v chips', pics.acknowledge chips = some (v, chips') → masks chips' = masks chips ∧
    ((∃ line, line ≠ 2 ∧ masked (masks chips) line = false ∧ v = vector line ∧
        inService chips' = v :: inService chips) ∨
      (v = vector 7 ∧ inService chips' = inService chips) ∨
      ((masks chips).2 ≠ 0xFF ∧ v = vector 15 ∧ inService chips' = vector 2 :: inService chips))
  ended : ∀ v chips, masks (pics.notifyEndOfInterrupt v chips) = masks chips ∧
    (inService chips = [v] ∨ inService chips = [] → inService (pics.notifyEndOfInterrupt v chips) = [])

/-- The controllers, and the vectors that the processor was given with the handlers that have
run; `none` is a vector without a gate. -/
structure Hardware (Chips : Type) where
  chips : Chips
  log : List (UInt8 × Option IrqHandler)

/-- A device raises its line, or the processor accepts an interrupt and runs its handler,
with interrupts off, to the end. -/
inductive Event where
  | raise (line : Fin 16)
  | accept
  deriving DecidableEq, Repr

/-- What the processor does with an interrupt. -/
def Hardware.dispatch (pics : Pics Chips) (v : UInt8) (s : Hardware Chips) : Hardware Chips :=
  match idt v with
  | none => { s with log := s.log ++ [(v, none)] }
  | some handler =>
      { chips := pics.notifyEndOfInterrupt handler.notifies.asU8 s.chips
        log := s.log ++ [(v, some handler)] }

def Hardware.step (pics : Pics Chips) (s : Hardware Chips) : Event → Hardware Chips
  | .raise line => { s with chips := pics.raise line s.chips }
  | .accept =>
      match pics.acknowledge s.chips with
      | none => s
      | some (v, chips) => Hardware.dispatch pics v { s with chips }

/-- The machine after `init_pics`. -/
def Hardware.start (pics : Pics Chips) (chips : Chips) : Hardware Chips :=
  { chips := initPics pics chips, log := [] }

/-- The handler that ran was the one that ends this interrupt. -/
def ServedByOwn (entry : UInt8 × Option IrqHandler) : Prop :=
  ∃ handler : IrqHandler, entry = (handler.notifies.asU8, some handler)

/-- The vectors of the timer, of the keyboard, and of spurious interrupts. -/
def Expected (v : UInt8) : Prop :=
  v = InterruptIndex.timer.asU8 ∨ v = InterruptIndex.keyboard.asU8 ∨ v = InterruptIndex.lpt1.asU8

/-- Every line has a gate of its own, and its handler names the line. -/
theorem gate_of_line (line : Fin 16) :
    (idt (vector line)).map (fun handler => handler.notifies.asU8) = some (vector line) := by
  revert line
  decide

/-- The masks of `init_pics` leave two lines besides the one of the second controller. -/
theorem unmasked_lines {line : Fin 16} (other : line ≠ 2)
    (unmasked : masked (primaryMask, secondaryMask) line = false) : line = 0 ∨ line = 1 := by
  revert line
  decide

theorem own_handler (line : Fin 16) :
    ∃ handler, idt (vector line) = some handler ∧ handler.notifies.asU8 = vector line :=
  Option.map_eq_some_iff.mp (gate_of_line line)

theorem expected_vector {line : Fin 16} (allowed : line = 0 ∨ line = 1 ∨ line = 7) :
    Expected (vector line) := by
  rcases allowed with rfl | rfl | rfl
  · exact .inl rfl
  · exact .inr (.inl rfl)
  · exact .inr (.inr rfl)

section Runs

variable {pics : Pics Chips} {inService : Chips → List UInt8} {masks : Chips → UInt8 × UInt8}

/-- Between two handlers nothing is in service, and the masks are those of `init_pics`. -/
structure Settled (inService : Chips → List UInt8) (masks : Chips → UInt8 × UInt8) (s : Hardware Chips) :
    Prop where
  idle : inService s.chips = []
  masks : masks s.chips = (primaryMask, secondaryMask)
  log : ∀ entry ∈ s.log, ServedByOwn entry ∧ Expected entry.1

theorem start_settled (lawful : pics.Lawful inService masks) (chips : Chips) :
    Settled inService masks (Hardware.start pics chips) where
  idle := (lawful.masks_written _ _ _).2.trans (lawful.initialized chips)
  masks := (lawful.masks_written _ _ _).1
  log := nofun

/-- A handler ends the interrupt that it was entered for. -/
theorem dispatch_settled (lawful : pics.Lawful inService masks) {s : Hardware Chips} {line : Fin 16}
    (allowed : line = 0 ∨ line = 1 ∨ line = 7)
    (serves : inService s.chips = [vector line] ∨ inService s.chips = [])
    (unchanged : masks s.chips = (primaryMask, secondaryMask))
    (log : ∀ entry ∈ s.log, ServedByOwn entry ∧ Expected entry.1) :
    Settled inService masks (s.dispatch pics (vector line)) := by
  obtain ⟨handler, gate, names⟩ := own_handler line
  obtain ⟨kept, ends⟩ := lawful.ended (vector line) s.chips
  simp only [Hardware.dispatch, gate, names]
  refine ⟨ends serves, kept.trans unchanged, fun entry member => ?_⟩
  rcases List.mem_append.mp member with earlier | now
  · exact log entry earlier
  · rw [List.mem_singleton.mp now]
    exact ⟨⟨handler, by rw [names]⟩, expected_vector allowed⟩

theorem step_settled (lawful : pics.Lawful inService masks) {s : Hardware Chips}
    (settled : Settled inService masks s) (event : Event) : Settled inService masks (s.step pics event) := by
  cases event with
  | raise line =>
      obtain ⟨kept, same⟩ := lawful.raised line s.chips
      exact ⟨same.trans settled.idle, kept.trans settled.masks, settled.log⟩
  | accept =>
      unfold Hardware.step
      cases asked : pics.acknowledge s.chips with
      | none => exact settled
      | some found =>
          obtain ⟨v, chips⟩ := found
          obtain ⟨kept, served | spurious | second⟩ := lawful.accepted s.chips v chips asked
          · obtain ⟨line, other, unmasked, rfl, added⟩ := served
            rw [settled.masks] at unmasked kept
            rw [settled.idle] at added
            have allowed : line = 0 ∨ line = 1 ∨ line = 7 :=
              (unmasked_lines other unmasked).imp_right .inl
            exact dispatch_settled lawful allowed (.inl added) kept settled.log
          · obtain ⟨rfl, same⟩ := spurious
            rw [settled.masks] at kept
            rw [settled.idle] at same
            exact dispatch_settled lawful (.inr (.inr rfl)) (.inr same) kept settled.log
          · rw [settled.masks] at second
            exact absurd rfl second.1

/-- Whatever the controllers do within the laws, and whenever devices raise their lines: each
interrupt that the processor accepts after `init_pics` is served by the handler of its own
line and ended by it, so that between two handlers nothing is in service; and only the timer,
the keyboard and spurious interrupts are served. -/
theorem interrupts_served_and_ended (lawful : pics.Lawful inService masks) (chips : Chips)
    (events : List Event) :
    inService (Runs.run (Hardware.step pics) (.start pics chips) events).chips = [] ∧
      ∀ entry ∈ (Runs.run (Hardware.step pics) (.start pics chips) events).log,
        ServedByOwn entry ∧ Expected entry.1 := by
  have settled : Settled inService masks (Runs.run (Hardware.step pics) (.start pics chips) events) := by
    apply Runs.run_invariant (fun s event settled => ?_)
    · exact start_settled lawful chips
    · exact step_settled lawful settled event
  exact ⟨settled.idle, settled.log⟩

end Runs

/-- Controllers that serve the lines in the order in which they were raised. -/
structure Bench where
  raised : List (Fin 16)
  inService : List UInt8
  masks : UInt8 × UInt8
  deriving DecidableEq, Repr

def bench : Pics Bench where
  initializeChips b := { b with inService := [] }
  writeMasks primary secondary b := { b with masks := (primary, secondary) }
  notifyEndOfInterrupt v b := { b with inService := b.inService.erase v }
  raise line b := { b with raised := b.raised ++ [line] }
  acknowledge b :=
    match b.raised.find? (fun line => line != 2 && !masked b.masks line) with
    | none => none
    | some line =>
        some (vector line,
          { b with raised := b.raised.erase line, inService := vector line :: b.inService })

theorem bench_lawful : bench.Lawful Bench.inService Bench.masks where
  initialized _ := rfl
  masks_written _ _ _ := ⟨rfl, rfl⟩
  raised _ _ := ⟨rfl, rfl⟩
  accepted := by
    intro b v b' asked
    unfold bench at asked
    dsimp only at asked
    split at asked
    · cases asked
    · next line found =>
        cases asked
        have chosen := List.find?_some found
        simp only [Bool.and_eq_true, bne_iff_ne, Bool.not_eq_true'] at chosen
        exact ⟨rfl, .inl ⟨line, chosen.1, chosen.2, rfl, rfl⟩⟩
  ended := by
    intro v b
    refine ⟨rfl, fun serves => ?_⟩
    change b.inService.erase v = []
    rcases serves with only | none_
    · rw [only, List.erase_cons_head]
    · rw [none_, List.erase_nil]

/-- The timer, a disk and the keyboard raise their lines, and the disk is not served. -/
theorem interrupts_served_and_ended_bench :
    let s := Runs.run (Hardware.step bench) (.start bench ⟨[], [], (0, 0)⟩)
      [.raise 0, .raise 14, .raise 1, .accept, .accept, .accept]
    s.log = [(0x20, some .timerInterruptHandler), (0x21, some .keyboardInterruptHandler)] ∧
      s.chips.inService = [] := by
  have served := interrupts_served_and_ended bench_lawful ⟨[], [], (0, 0)⟩
    [.raise 0, .raise 14, .raise 1, .accept, .accept, .accept]
  exact ⟨by decide, served.1⟩

end ComputeKernel.Arch
