import ComputeKernel.Syscall.Bystanders
import ComputeKernel.Syscall.Terminal

/-! The way of the keys, from the controller through the interrupt handler, the ring buffer
and `sys_read` into the memory of the programs. With a keyboard whose interrupts are taken
as soon as a scancode has come, no poll overtakes the buffer, and the whole kernel is one
buffer of bounded capacity between the keys and the readers. -/
namespace ComputeKernel
open Checked (Exec Returns Within)
open Window (Kept)

def Irq.scancode? : Irq → Option UInt8
  | .scancode byte => some byte
  | _ => none

/-- Each scancode of the batch is followed by its interrupt. -/
def prompt : List Irq → Bool
  | [] => true
  | .timer :: rest => prompt rest
  | .scancode _ :: .keyboard :: rest => prompt rest
  | _ => false

def scancodes (batches : List (List Irq)) : List UInt8 := batches.flatten.filterMap Irq.scancode?

theorem scancodes_append (before after : List (List Irq)) :
    scancodes (before ++ after) = scancodes before ++ scancodes after := by
  rw [scancodes, List.flatten_append, List.filterMap_append]
  rfl

namespace Keyboard

/-- No scancode waits at the controller. -/
structure Settled (kb : Keyboard) : Prop where
  controller : kb.controller = []
  linked : kb.buffer.Linked

/-- From one keyboard to another these scancodes have come, and the readers have got these
characters. -/
structure Fed (kb : Keyboard) (scancodes got : List UInt8) (kb' : Keyboard) : Prop where
  settled : kb'.Settled
  decode : kb'.decode = kb.decode
  seen : kb'.seen = kb.seen ++ scancodes
  kept : Kept keyBufSize (got ++ kb'.buffer.contents)
    (kb.buffer.contents ++ chars kb.decode kb.seen scancodes)

variable {kb kb' kb'' : Keyboard} {before after got got' : List UInt8}

theorem Fed.refl (settled : kb.Settled) : Fed kb [] [] kb where
  settled := settled
  decode := rfl
  seen := (List.append_nil _).symm
  kept := by
    rw [chars, List.append_nil]
    exact Kept.refl _

theorem Fed.trans (first : Fed kb before got kb') (second : Fed kb' after got' kb'') :
    Fed kb (before ++ after) (got ++ got') kb'' where
  settled := second.settled
  decode := second.decode.trans first.decode
  seen := by rw [second.seen, first.seen, List.append_assoc]
  kept := by
    have later := second.kept
    rw [first.decode, first.seen] at later
    rw [chars_append, ← List.append_assoc kb.buffer.contents]
    exact first.kept.trans later

/-- The reader takes the oldest character of the buffer. -/
theorem tryReadChar_fed (settled : kb.Settled) :
    Returns tryReadChar (fun byte kb' => Fed kb [] byte.toList kb') kb := by
  by_cases empty : kb.buffer.count = 0
  · have popped := tryReadChar_run (KeyBuffer.pop_of_empty empty)
    intro byte kb' ran
    rw [popped] at ran
    cases ran
    exact Fed.refl settled
  · obtain ⟨first, buffer, ran, linked, contents⟩ := KeyBuffer.pop_run settled.linked empty
    have popped := tryReadChar_run ran
    intro byte kb' ran
    rw [popped] at ran
    cases ran
    refine ⟨⟨settled.controller, linked⟩, rfl, (List.append_nil _).symm, ?_⟩
    rw [chars, List.append_nil, contents]
    exact Kept.refl _

/-- When the buffer is full the character is dropped. -/
theorem handleInterrupt_of_full {scancode : UInt8} {rest : List UInt8}
    (full : ¬kb.buffer.count < keyBufSize) (waiting : kb.controller = scancode :: rest) :
    ∃ echo, handleInterrupt kb = .done echo (kb.taken scancode rest) := by
  obtain ⟨byte, after⟩ := decode_of_controller waiting
  unfold handleInterrupt
  rw [Exec.get_bind]
  dsimp only
  rw [byte, after, Exec.modify_bind]
  cases byteOf (kb.decode (kb.seen ++ [scancode])) with
  | none => exact ⟨_, rfl⟩
  | some byte =>
      have pushed : bufferOf (KeyBuffer.push byte) (kb.taken scancode rest) =
          .done () (kb.taken scancode rest) := Exec.zoom_of_done _ (KeyBuffer.push_of_full full byte)
      exact ⟨_, Exec.bind_of_done pushed⟩

/-- The interrupt handler moves a scancode on. -/
theorem handleInterrupt_fed {scancode : UInt8} (waiting : kb.controller = [scancode])
    (linked : kb.buffer.Linked) :
    Returns handleInterrupt (fun _ kb' => Fed kb [scancode] [] kb') kb := by
  by_cases room : kb.buffer.count < keyBufSize
  · obtain ⟨echo, buffer, ran, linked', contents⟩ := handleInterrupt_run linked room waiting
    intro echo' kb' ran'
    rw [ran] at ran'
    cases ran'
    refine ⟨⟨rfl, linked'⟩, rfl, rfl, ?_⟩
    have shown : chars kb.decode kb.seen [scancode] =
        (byteOf (kb.decode (kb.seen ++ [scancode]))).toList := List.append_nil _
    rw [shown, ← contents]
    exact Kept.refl _
  · obtain ⟨echo, ran⟩ := handleInterrupt_of_full room waiting
    intro echo' kb' ran'
    rw [ran] at ran'
    cases ran'
    have full : keyBufSize ≤ kb.buffer.contents.length := by
      rw [KeyBuffer.contents_length]
      exact Nat.le_of_not_lt room
    exact ⟨⟨rfl, linked⟩, rfl, rfl, Kept.dropped full _⟩

end Keyboard

namespace Kernel

/-- Interrupts come promptly, and have come so far. -/
structure Attentive (k : Kernel) : Prop where
  prompt : ∀ batch ∈ k.arrivals, prompt batch = true
  settled : k.keyboard.Settled

/-- From one kernel to another the keyboard has gone on with the batches that have arrived,
and the readers have got these characters. -/
def Takes (got : List UInt8) (k k' : Kernel) : Prop :=
  k.Attentive → ∃ batches, k.arrivals = batches ++ k'.arrivals ∧
    k.keyboard.Fed (scancodes batches) got k'.keyboard

variable {k k' k'' : Kernel} {got got' : List UInt8}

theorem Takes.attentive (takes : Takes got k k') (attentive : k.Attentive) : k'.Attentive := by
  obtain ⟨batches, arrived, fed⟩ := takes attentive
  refine ⟨fun batch member => attentive.prompt batch ?_, fed.settled⟩
  rw [arrived]
  exact List.mem_append_right _ member

theorem Takes.trans (first : Takes got k k') (second : Takes got' k' k'') :
    Takes (got ++ got') k k'' := by
  intro attentive
  obtain ⟨before, arrived, fed⟩ := first attentive
  obtain ⟨after, arrived', fed'⟩ := second (first.attentive attentive)
  refine ⟨before ++ after, ?_, ?_⟩
  · rw [arrived, arrived', List.append_assoc]
  · rw [scancodes_append]
    exact fed.trans fed'

theorem takes_of_same (keyboard : k'.keyboard = k.keyboard) (arrivals : k'.arrivals = k.arrivals) :
    Takes [] k k' := by
  intro attentive
  refine ⟨[], arrivals.symm, ?_⟩
  rw [keyboard]
  exact Keyboard.Fed.refl attentive.settled

/-- Nobody reads the keyboard. -/
def Unread (k k' : Kernel) : Prop := Takes [] k k'

instance : Std.Refl Unread where
  refl _ := takes_of_same rfl rfl

instance : IsTrans Kernel Unread where
  trans _ _ _ first second := Takes.trans first second

theorem Unread.takes (first : Unread k k') (second : Takes got k' k'') : Takes got k k'' :=
  Takes.trans first second

theorem Takes.unread (first : Takes got k k') (second : Unread k' k'') : Takes got k k'' := by
  have both := Takes.trans first second
  rwa [List.append_nil] at both

/-- The handlers of a prompt batch move its scancodes on. -/
theorem forEach_interrupt_fed {batch : List Irq} (prompt : prompt batch = true)
    (settled : k.keyboard.Settled) :
    Returns (Exec.forEach batch interrupt) (fun _ k' => k'.arrivals = k.arrivals ∧
      k.keyboard.Fed (scancodes [batch]) [] k'.keyboard) k := by
  fun_induction ComputeKernel.prompt batch generalizing k with
  | case1 => exact Returns.ret ⟨rfl, Keyboard.Fed.refl settled⟩
  | case2 rest ih => exact Returns.bind (Returns.modify (ih prompt settled))
  | case3 byte rest ih =>
      refine Returns.bind (Returns.modify (Returns.bind (Returns.bind (Returns.zoom ?_))))
      have waiting : k.keyboard.controller ++ [byte] = [byte] := by
        rw [settled.controller, List.nil_append]
      refine Returns.mono (Keyboard.handleInterrupt_fed waiting settled.linked) (fun echo kb handled => ?_)
      have fed : k.keyboard.Fed [byte] [] kb :=
        ⟨handled.settled, handled.decode, handled.seen, handled.kept⟩
      refine Returns.bind (Returns.modify (Returns.ret ?_))
      refine Returns.mono (ih prompt fed.settled) ?_
      rintro _ k' ⟨arrivals, rest⟩
      exact ⟨arrivals, fed.trans rest⟩
  | case4 => cases prompt

theorem unread_pending : Within Unread pending := by
  refine Within.get_bind (fun k => ?_)
  cases arrived : k.arrivals with
  | nil => exact Returns.ret (takes_of_same rfl rfl)
  | cons batch rest =>
      refine Returns.bind (Returns.modify (fun _ k' ran attentive => ?_))
      have first : prompt batch = true := attentive.prompt batch (by simp [arrived])
      have settled : ({ k with arrivals := rest } : Kernel).keyboard.Settled := attentive.settled
      obtain ⟨arrivals, fed⟩ := forEach_interrupt_fed first settled _ _ ran
      refine ⟨[batch], ?_, fed⟩
      rw [arrived, arrivals]
      rfl

theorem unread_tolerant : Tolerant Unread where
  pending := unread_pending
  serialPrint _ _ := Returns.bind (Returns.modify (Returns.ret (takes_of_same rfl rfl)))
  aside same := takes_of_same same.keyboard same.arrivals

theorem writeConsole_unread (buf count : UInt64) : Within Unread (writeConsole buf count) := by
  refine unread_tolerant.writeConsole (fun bytes k => Returns.bind (Returns.zoom ?_)) buf count
  exact fun _ _ _ => Returns.ret (takes_of_same rfl rfl)

section Reading

/-- With nothing at the controller a poll finds nothing. -/
theorem pollChar_takes : Returns pollChar (fun byte k' => Takes byte.toList k k') k := by
  refine Returns.bind (Returns.get (Returns.bind (Returns.modify ?_)))
  refine Returns.bind (Returns.bind (Returns.modify (Returns.ret (Returns.ret ?_))))
  intro attentive
  have nothing := Keyboard.pollChar_of_empty attentive.settled.controller
  refine ⟨[], rfl, ?_⟩
  change k.keyboard.Fed (scancodes []) k.keyboard.pollChar.1.1.toList k.keyboard.pollChar.2
  rw [nothing]
  exact Keyboard.Fed.refl attentive.settled

theorem tryReadChar_takes :
    Returns (onKeyboard Keyboard.tryReadChar) (fun byte k' => Takes byte.toList k k') k := by
  refine Returns.zoom (fun byte kb ran attentive => ⟨[], rfl, ?_⟩)
  exact Keyboard.tryReadChar_fed attentive.settled byte kb ran

theorem readChar_takes : Returns readChar (fun ch k' => Takes ch.toList k k') k := by
  refine Returns.andThen (unread_pending k) (fun _ k₁ passed => ?_)
  refine Returns.andThen tryReadChar_takes (fun byte k₂ tried => ?_)
  cases byte with
  | some byte => exact Returns.ret (passed.takes tried)
  | none =>
      refine Returns.andThen (unread_pending k₂) (fun _ k₃ passed' => ?_)
      exact Returns.mono pollChar_takes (fun ch k' polled => passed.takes (Unread.takes tried (passed'.takes polled)))

theorem awaitChar_takes (fuel : Nat) : Returns (awaitChar fuel) (fun ch k' => Takes ch.toList k k') k := by
  induction fuel generalizing k with
  | zero => exact Returns.halt
  | succ fuel ih =>
      refine Returns.andThen (unread_pending k) (fun _ k₁ passed => Returns.bind (Returns.get ?_))
      refine Returns.ite (fun _ => Returns.ret passed) (fun _ => ?_)
      refine Returns.andThen readChar_takes (fun ch k₂ tried => ?_)
      cases ch with
      | some ch => exact Returns.ret (passed.takes tried)
      | none =>
          refine Returns.andThen (unread_tolerant.hlt k₂) (fun _ k₃ waited => ?_)
          exact Returns.mono ih (fun ch k' taken => passed.takes (Unread.takes tried (waited.takes taken)))

variable {buf : UInt64} {len : Nat}

theorem storeAt_returns (i : Nat) (byte : UInt8) :
    Returns (storeAt buf len i byte) (fun _ k' => k' = withMemory
      (Function.update k.memory (buf + UInt64.ofNat i) (some byte)) k) k := by
  refine Returns.ite (fun _ => Returns.bind (Returns.get ?_)) (fun _ => Returns.panic _)
  cases found : k.memory (buf + UInt64.ofNat i) with
  | none => exact Returns.fault _
  | some old =>
      refine Returns.modify ?_
      unfold withMemory
      congr 1
      funext a
      rw [Function.update_apply]

/-- The second loop stores what it takes from the keyboard. -/
theorem readRest_takes (room read : Nat) :
    Returns (readRest buf len room read) (fun n k' => ∃ bytes, n = read + bytes.length ∧
      bytes.length ≤ room ∧ Takes bytes k k' ∧
      k'.memory = Memory.store k.memory (buf + UInt64.ofNat read) bytes) k := by
  induction room generalizing read k with
  | zero => exact Returns.ret ⟨[], rfl, Nat.le_refl 0, takes_of_same rfl rfl, rfl⟩
  | succ room ih =>
      refine Returns.bind (fun ch k₁ ran => ?_)
      have taken := readChar_takes ch k₁ ran
      have same : k₁.memory = k.memory := memory_of_commutes commutes_readChar ran
      cases ch with
      | none => exact Returns.ret ⟨[], rfl, Nat.zero_le _, taken, same⟩
      | some ch =>
          refine Returns.andThen (storeAt_returns read ch) ?_
          rintro _ _ rfl
          have stored : Takes [ch] k (withMemory
              (Function.update k₁.memory (buf + UInt64.ofNat read) (some ch)) k₁) :=
            taken.unread (takes_of_same rfl rfl)
          refine Returns.bind (Returns.usizeAdd (Returns.ite (fun _ => Returns.ret ?_) (fun _ => ?_)))
          · refine ⟨[ch], rfl, Nat.succ_le_succ (Nat.zero_le room), stored, ?_⟩
            rw [Memory.store, Memory.store, ← same]
            rfl
          · refine Returns.mono (ih (read + 1)) ?_
            rintro n k' ⟨bytes, count, fits, more, memory⟩
            refine ⟨ch :: bytes, ?_, Nat.succ_le_succ fits, Takes.trans stored more, ?_⟩
            · rw [count, List.length_cons]
              omega
            · rw [memory, Memory.store, ← same, UInt64.ofNat_add, UInt64.add_assoc]
              rfl

/-- A read on standard input stores what it takes from the keyboard. -/
theorem readStdin_takes (small : len < 2 ^ 63) (positive : 0 < len) :
    Returns (readStdin buf len) (fun n k' => ∃ bytes, n.toNat = bytes.length ∧ Takes bytes k k' ∧
      k'.memory = Memory.store k.memory buf bytes ∧ bytes.length < 2 ^ 64) k := by
  refine Returns.bind (Returns.get ?_)
  rw [readFirst_eq]
  refine Returns.bind (Returns.bind (fun ch k₁ ran => ?_))
  have taken := awaitChar_takes _ ch k₁ ran
  have same : k₁.memory = k.memory := memory_of_commutes (fun memory => commutes_awaitChar memory _) ran
  cases ch with
  | none => exact Returns.ret (Returns.ret ⟨[], rfl, taken, same, by decide⟩)
  | some ch =>
      refine Returns.andThen (storeAt_returns 0 ch) ?_
      rintro _ _ rfl
      have stored : Takes [ch] k (withMemory
          (Function.update k₁.memory (buf + UInt64.ofNat 0) (some ch)) k₁) :=
        taken.unread (takes_of_same rfl rfl)
      refine Returns.ret (Returns.andThen (readRest_takes (len - 1) 1) ?_)
      rintro _ k' ⟨bytes, rfl, fits, more, memory⟩
      refine Returns.ret ⟨ch :: bytes, ?_, Takes.trans stored more, ?_, ?_⟩
      · rw [asI64_of_lt (by omega), List.length_cons]
        omega
      · rw [memory, Memory.store, ← same, show buf + UInt64.ofNat 0 = buf from UInt64.add_zero buf]
        rfl
      · rw [List.length_cons]
        omega

end Reading

/-- The characters that a call has brought into the memory of its caller. -/
def keysRead (frame : SyscallFrame) (result : Int) (k' : Kernel) : List UInt8 :=
  if frame.num = Number.read ∧ asI32 frame.rdi = 0 then
    Memory.load k'.memory frame.rsi result.toNat
  else []

theorem sysRead_takes {fd : Int32} (input : fd = 0) (buf count : UInt64) :
    Returns (sysRead fd buf count) (fun n k' => Takes (Memory.load k'.memory buf n.toNat) k k') k := by
  refine Returns.ite (fun _ => Returns.ret (takes_of_same rfl rfl)) (fun nonempty => ?_)
  refine Returns.ite (fun _ => Returns.ret (takes_of_same rfl rfl)) (fun _ => ?_)
  refine Returns.bind (Returns.ite (fun small => Returns.ret ?_) (fun _ => Returns.fault _))
  refine Returns.ite (fun _ => ?_) (fun other => absurd input other)
  have positive : 0 < count.toNat := Nat.pos_of_ne_zero (fun zero => nonempty (UInt64.toNat_inj.mp zero))
  refine Returns.mono (readStdin_takes small positive) ?_
  rintro n k' ⟨bytes, length, taken, memory, fits⟩
  rw [length, memory, Memory.load_of_holds (Memory.holds_store fits)]
  exact taken

/-- Every call that returns has taken from the keyboard what it has read. -/
theorem dispatch_takes (frame : SyscallFrame) :
    Returns (dispatch frame) (fun result k' => Takes (keysRead frame result k') k k') k := by
  by_cases reads : frame.num = Number.read ∧ asI32 frame.rdi = 0
  · obtain ⟨call, input⟩ := reads
    refine Returns.ite (fun _ => ?_) (fun other => absurd call other)
    refine Returns.mono (sysRead_takes input _ _) (fun n k' taken => ?_)
    rw [keysRead, if_pos ⟨call, input⟩]
    exact taken
  · have unread : Within Unread (dispatch frame) := unread_tolerant.dispatch_of_blind
      (fun _ _ => takes_of_same rfl rfl) (fun call input => absurd ⟨call, input⟩ reads)
      (fun _ _ => writeConsole_unread _ _)
    refine Returns.mono (unread k) (fun result k' passed => ?_)
    rw [keysRead, if_neg reads]
    exact passed

/-- The scancodes of the batches that have been used up between two states. -/
def arrivedBetween (k k' : Kernel) : List UInt8 :=
  scancodes (k.arrivals.take (k.arrivals.length - k'.arrivals.length))

/-- So many characters can wait for the readers that have got these. -/
def fits (decode : List UInt8 → Option DecodedKey) (arrived got : List UInt8) : Bool :=
  (Keyboard.chars decode [] arrived).length ≤ got.length + keyBufSize

/-- The states of the kernel between system calls, with the scancodes that have come, the
characters that have been read, and whether all of them could always wait in the buffer. User
code changes its memory, and prompt interrupts arrive at any time. -/
inductive Keyed (decode : List UInt8 → Option DecodedKey) :
    Kernel → List UInt8 → List UInt8 → Bool → Prop where
  | boot (video : Nat → UInt8) (memory : UInt64 → Option UInt8) :
      Keyed decode (Kernel.boot decode video memory []) [] [] true
  | user {k : Kernel} {arrived got : List UInt8} {roomy : Bool} (memory : UInt64 → Option UInt8)
      (arrivals : List (List Irq)) (prompts : ∀ batch ∈ arrivals, prompt batch = true) :
      Keyed decode k arrived got roomy → Keyed decode { k with memory, arrivals } arrived got roomy
  | interrupted {k k' : Kernel} {arrived got : List UInt8} {roomy : Bool} :
      Keyed decode k arrived got roomy → pending k = .done () k' →
      Keyed decode k' (arrived ++ arrivedBetween k k') got
        (roomy && fits decode (arrived ++ arrivedBetween k k') got)
  | returned {k k' : Kernel} {arrived got : List UInt8} {roomy : Bool} {frame : SyscallFrame}
      {result : Int} :
      Keyed decode k arrived got roomy → dispatch frame k = .done result k' →
      Keyed decode k' (arrived ++ arrivedBetween k k') (got ++ keysRead frame result k')
        (roomy && fits decode (arrived ++ arrivedBetween k k') got)

/-- What has been read and what waits in the buffer, beside what has been typed. -/
structure Reads (decode : List UInt8 → Option DecodedKey) (k : Kernel) (arrived got : List UInt8)
    (roomy : Bool) : Prop where
  attentive : k.Attentive
  decoder : k.keyboard.decode = decode
  seen : k.keyboard.seen = arrived
  order : (got ++ k.keyboard.buffer.contents).Sublist (Keyboard.chars decode [] arrived)
  whole : roomy = true → got ++ k.keyboard.buffer.contents = Keyboard.chars decode [] arrived

variable {decode : List UInt8 → Option DecodedKey} {arrived : List UInt8} {roomy : Bool}

theorem Reads.takes (reads : Reads decode k arrived got roomy) (takes : Takes got' k k') :
    Reads decode k' (arrived ++ arrivedBetween k k') (got ++ got')
      (roomy && fits decode (arrived ++ arrivedBetween k k') got) := by
  obtain ⟨batches, split, fed⟩ := takes reads.attentive
  have used : arrivedBetween k k' = scancodes batches := by
    rw [arrivedBetween, split, List.length_append, Nat.add_sub_cancel, List.take_left]
  have kept := fed.kept
  have all : Keyboard.chars decode [] (arrived ++ scancodes batches) =
      Keyboard.chars decode [] arrived ++ Keyboard.chars decode arrived (scancodes batches) :=
    Keyboard.chars_append [] arrived (scancodes batches)
  rw [reads.decoder, reads.seen] at kept
  rw [used]
  refine ⟨takes.attentive reads.attentive, fed.decode.trans reads.decoder, ?_, ?_, ?_⟩
  · rw [fed.seen, reads.seen]
  · have later := kept.sublist.append_left got
    have earlier := reads.order.append_right (Keyboard.chars decode arrived (scancodes batches))
    rw [← List.append_assoc, ← List.append_assoc] at later
    rw [all]
    exact later.trans earlier
  · intro both
    rw [Bool.and_eq_true, fits, decide_eq_true_eq, all] at both
    have earlier := reads.whole both.1
    have bound := both.2
    rw [← earlier, List.append_assoc, List.length_append] at bound
    rw [all, ← earlier, List.append_assoc, List.append_assoc, kept.whole (by omega)]

theorem Keyed.reads (keyed : Keyed decode k arrived got roomy) : Reads decode k arrived got roomy := by
  induction keyed with
  | boot video memory =>
      exact ⟨⟨nofun, rfl, KeyBuffer.new_linked⟩, rfl, rfl, List.Sublist.refl _, fun _ => rfl⟩
  | user memory arrivals prompts _ reads =>
      exact { reads with attentive := ⟨prompts, reads.attentive.settled⟩ }
  | @interrupted k k' arrived got roomy _ ran reads =>
      have taken := reads.takes (unread_pending.done ran)
      rwa [List.append_nil] at taken
  | returned _ ran reads => exact reads.takes (dispatch_takes _ _ _ ran)

/-- With a keyboard whose interrupts are taken at once, what programs have read and what
waits for them is in every history what was typed, in order and with nothing twice; and it
is all that was typed as long as no more than 256 characters have had to wait. -/
theorem typing_reaches_readers (keyed : Keyed decode k arrived got roomy) :
    (got ++ k.keyboard.buffer.contents).Sublist (Keyboard.chars decode [] arrived) ∧
      (roomy = true → got ++ k.keyboard.buffer.contents = Keyboard.chars decode [] arrived) :=
  ⟨keyed.reads.order, keyed.reads.whole⟩

/-- A key is pressed while a program waits for it. -/
theorem typing_reaches_readers_key :
    ∃ k, Keyed Console.plainDecoder k [0x61] [0x61] true ∧
      [0x61] ++ k.keyboard.buffer.contents = Keyboard.chars Console.plainDecoder [] [0x61] := by
  have asked : Keyed Console.plainDecoder _ [] [] true :=
    .user (fun _ => some 0) [[.scancode 0x61, .keyboard]] (by decide) (.boot (fun _ => 0) (fun _ => none))
  have read : Keyed Console.plainDecoder _ [0x61] [0x61] true :=
    .returned asked (rfl : dispatch (transfer Number.read 0) _ = .done 1 _)
  exact ⟨_, read, (typing_reaches_readers read).2 rfl⟩

end Kernel
end ComputeKernel
