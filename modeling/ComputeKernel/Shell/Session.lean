import ComputeKernel.Shell.Printing
import ComputeKernel.Shell.Editing

/-! The code of the shell refines the desk over every run of keystrokes, from every state of
the screen and wherever ticks interrupt the code, unless a tick strikes a listing of the
processes. -/
namespace ComputeKernel.Shell
open Checked (Exec Finishes Halts Settles Outcome)
open Scrollback (Roll)
open Vga (Writer Color Cell)

/-- The machine has the desk on its screen, in its buffer and in its process table, which
nobody has locked. -/
structure Holds (d : Desk) (s : System) : Prop where
  screen : s.session.writer.Prints (onBlack .white) d.roll
  line : s.session.line = d.line
  length : s.session.pos = d.line.length
  room : d.line.length < maxCmdLen
  procs : s.procs = d.procs
  free : s.tableHeld = false

/-- What the machine has to do with its power and its reset line. -/
def Ending.done (how : Ending) (before after : System) : Prop :=
  match how with
  | .off => after.interrupts = false ∧ after.commandPort = before.commandPort
  | .reset => after.interrupts = before.interrupts ∧ after.commandPort = before.commandPort ++ [0xFE]

/-- The code has come to the situation, from a given state. -/
def Reaches (before : System) : Situation → Outcome System Unit → Prop
  | .waiting d, outcome => ∃ s, outcome = .done () s ∧ Holds d s ∧ Unswitched before s
  | .ended how d, outcome => ∃ s, outcome = .halted s ∧
      s.session.writer.Prints (onBlack .white) d.roll ∧ s.procs = d.procs ∧ how.done before s

/-- The timer has struck a listing after so many lines: it has counted, and waits for the
lock with interrupts off. -/
structure Struck (d : Desk) (lines : Nat) (s : System) : Prop where
  inside : lines ≤ (listing d.procs.table).length
  screen : s.session.writer.Prints (onBlack .white)
    (sayWhite ((listing d.procs.table).take lines).flatten d.roll)
  procs : s.procs = { d.procs with tickCount := d.procs.tickCount + 1 }
  held : s.tableHeld = true
  interrupts : s.interrupts = false

/-- The session has gone as on the desk up to some line, which asks for the listing, and
the machine hangs in it for good. -/
def Hangs (d : Desk) (keys : List UInt8) (outcome : Outcome System Unit) : Prop :=
  ∃ events d' ch later lines s, keysOf events ++ ch :: later = keys ∧
    Runs.run Situation.step (.waiting d) events = .waiting d' ∧ isEnter ch = true ∧
    Spells d'.line .ps ∧ outcome = .halted s ∧ Struck d'.feed lines s

/-- What comes of the keys: for some order of the ticks and the keys the code comes to the
situation on the desk, or it hangs. -/
def Leads (before : System) (d : Desk) (keys : List UInt8) (outcome : Outcome System Unit) : Prop :=
  (∃ events, keysOf events = keys ∧
      Reaches before (Runs.run Situation.step (.waiting d) events) outcome) ∨
    Hangs d keys outcome

section Refinement

variable {d : Desk} {s s' before : System}

theorem Holds.withWriter (h : Holds d s) {w : Writer} {r : Roll Cell}
    (printed : w.Prints (onBlack .white) r) :
    Holds { d with roll := r } { s with session := { s.session with writer := w } } :=
  ⟨printed, h.line, h.length, h.room, h.procs, h.free⟩

theorem Holds.printed (h : Holds d s) {r : Roll Cell} (printed : Printed (onBlack .white) r s s') :
    ∃ n, Holds (Desk.ticked n { d with roll := r }) s' := by
  obtain ⟨n, ticks⟩ := printed.ticks
  refine ⟨n, printed.screen, ?_, printed.pos.trans h.length, h.room, ?_, printed.held.trans h.free⟩
  · rw [Session.line, printed.buf, printed.pos]
    exact h.line
  · rw [ticks, h.procs]
    rfl

/-- While the shell does nothing, nothing but ticks comes. -/
theorem pending_holds (h : Holds d s) :
    Finishes pending (fun _ s' => ∃ n, Holds (d.ticked n) s' ∧ Unswitched s s') s := by
  refine Finishes.mono (pending_passes h.free) ?_
  rintro _ s' ⟨same, passes⟩
  have printed : Printed (onBlack .white) d.roll s s' :=
    ⟨passes, same ▸ h.screen, same ▸ rfl, same ▸ rfl⟩
  obtain ⟨n, holds⟩ := h.printed printed
  exact ⟨n, holds, passes.toUnswitched⟩

theorem lockTable_locks (h : Holds d s) :
    Finishes lockTable (fun _ s' => ∃ n s₁, Holds (d.ticked n) s₁ ∧ Unswitched s s₁ ∧
      s' = { s₁ with tableHeld := true }) s := by
  refine Finishes.andThen (pending_holds h) ?_
  rintro _ s₁ ⟨n, holds, kept⟩
  refine Finishes.bind (Finishes.get ?_)
  split
  · next locked => exact absurd (holds.free.symm.trans locked) nofun
  · exact Finishes.modify ⟨n, s₁, holds, kept, rfl⟩

/-- A tick strikes while the lock of the table is held. -/
theorem Stuck.struck {lines : Nat} (stuck : Stuck s s') (procs : s.procs = d.procs)
    (inside : lines ≤ (listing d.procs.table).length)
    (screen : s.session.writer.Prints (onBlack .white)
      (sayWhite ((listing d.procs.table).take lines).flatten d.roll)) : Struck d lines s' where
  inside := inside
  screen := stuck.session ▸ screen
  procs := by rw [stuck.procs, procs]
  held := stuck.held
  interrupts := stuck.interrupts

/-- What comes of a command that returns: it is run on what some ticks have left, and more
ticks come until it returns. -/
def Ran (command : Command) (d : Desk) (before after : System) : Prop :=
  ∃ n m, Holds (((d.ticked n).shows command).ticked m) after ∧ Unswitched before after

theorem cmdPs_settles (h : Holds d s) :
    Settles cmdPs (fun _ s' => Ran .ps d s s') (fun s' => ∃ n lines, Struck (d.ticked n) lines s') s := by
  refine Settles.after (lockTable_locks h) ?_
  rintro _ _ ⟨n, s₁, holds, kept, rfl⟩
  refine Settles.get ?_
  have table : s₁.procs.table = (d.ticked n).procs.table := by rw [holds.procs]
  rw [table]
  refine Settles.andThen (Settles.mono (psLines_lists _ _ _ _ rfl holds.screen) (fun _ _ listed => listed) ?_) ?_
  · rintro s' ⟨lines, inside, s₂, printed, same, stuck⟩
    exact ⟨n, lines, stuck.struck (same.trans holds.procs) inside printed.screen⟩
  rintro _ s₂ ⟨printed, same⟩
  refine Settles.andThen (Settles.mono (pending_held printed.held) (fun _ _ quiet => quiet) ?_) ?_
  · intro s' stuck
    refine ⟨n, _, stuck.struck (same.trans holds.procs) (Nat.le_refl _) ?_⟩
    rw [List.take_length]
    exact printed.screen
  rintro _ s₃ ⟨session, procs, passes⟩
  have unswitched : Unswitched s₁ s₃ :=
    ⟨passes.interrupts.trans printed.interrupts, passes.commandPort.trans printed.commandPort⟩
  have listed : Printed (onBlack .white) (sayWhite (listing (d.ticked n).procs.table).flatten d.roll) s₁
      { s₃ with tableHeld := false } :=
    { interrupts := unswitched.interrupts
      commandPort := unswitched.commandPort
      ticks := ⟨0, procs.trans same⟩
      held := holds.free.symm
      screen := session ▸ printed.screen
      buf := (congrArg Session.buf session).trans printed.buf
      pos := (congrArg Session.pos session).trans printed.pos }
  obtain ⟨m, shown⟩ := holds.printed listed
  exact .inl (Finishes.modify ⟨n, m, shown, kept.trans listed.toUnswitched⟩)

/-- A command that returns has printed its text, unless a tick strikes a listing. -/
theorem Command.run_settles (h : Holds d s) {command : Command} (returns : command.ending = none) :
    Settles command.run (fun _ s' => Ran command d s s')
      (fun s' => command = .ps ∧ ∃ n lines, Struck (d.ticked n) lines s') s := by
  have plain {m : Exec System Unit}
      (prints : Finishes m (fun _ s' =>
        Printed (onBlack .white) (command.prints d.procs d.roll) s s') s) :
      Settles m (fun _ s' => Ran command d s s')
        (fun s' => command = .ps ∧ ∃ n lines, Struck (d.ticked n) lines s') s := by
    refine .inl (Finishes.mono prints (fun _ s' printed => ?_))
    obtain ⟨n, holds⟩ := h.printed printed
    exact ⟨0, n, holds, printed.toUnswitched⟩
  have tells {m : Exec System Unit} {text : List String} (told : Tells (onBlack .white) text m)
      (same : command.prints d.procs d.roll = sayWhite text d.roll) :
      Settles m (fun _ s' => Ran command d s s')
        (fun s' => command = .ps ∧ ∃ n lines, Struck (d.ticked n) lines s') s := by
    apply plain
    rw [same]
    exact told _ _ h.free h.screen
  cases command with
  | help => exact tells (cmdHelp_tells _) rfl
  | clear =>
      refine plain (onScreen_printed h.free (Finishes.mono (Writer.Prints.of_clear _) ?_))
      intro _ w printed
      rwa [h.screen.color] at printed
  | echo args => exact tells (print_tells _ _) rfl
  | uname => exact tells (print_tells _ _) rfl
  | version => exact tells (cmdVersion_tells _) rfl
  | ps => exact Settles.mono (cmdPs_settles h) (fun _ _ ran => ran) (fun _ struck => ⟨rfl, struck⟩)
  | uptime =>
      refine Settles.after (pending_holds h) ?_
      rintro _ s₁ ⟨n, holds, kept⟩
      refine Settles.get ?_
      rw [holds.procs]
      refine .inl (Finishes.mono (print_tells _ _ _ _ holds.free holds.screen) (fun _ s' printed => ?_))
      obtain ⟨m, shown⟩ := holds.printed printed
      exact ⟨n, m, shown, kept.trans printed.toUnswitched⟩
  | halt => cases returns
  | reboot => cases returns
  | unknown cmd => exact plain (cmdUnknown_printed h.free h.screen cmd)

/-- The text of a command is printed, and then more ticks may come. -/
theorem print_pending_holds (h : Holds d s) {command : Command} {text : List String}
    (same : ∀ procs, command.prints procs d.roll = sayWhite text d.roll) {next : Exec System Unit}
    {post : System → Prop}
    (rest : ∀ n s', Holds ((d.ticked n).shows command) s' → Unswitched s s' → Halts next post s') :
    Halts (do
      print text
      pending
      next) post s := by
  have shows (n : Nat) :
      Desk.ticked n { d with roll := sayWhite text d.roll } = (d.ticked n).shows command := by
    unfold Desk.shows Desk.ticked
    rw [same]
  refine Halts.after (print_tells _ text _ _ h.free h.screen) (fun _ s₁ printed => ?_)
  obtain ⟨n, shown⟩ : ∃ n, Holds (Desk.ticked n { d with roll := sayWhite text d.roll }) s₁ :=
    h.printed printed
  refine Halts.after (pending_holds shown) ?_
  rintro _ s₂ ⟨m, holds, kept⟩
  rw [Desk.ticked_ticked, shows] at holds
  exact rest _ s₂ holds (printed.toUnswitched.trans kept)

/-- A command that does not return has printed its text and does what the ending asks for. -/
theorem Command.run_halts (h : Holds d s) {command : Command} {how : Ending}
    (ends : command.ending = some how) :
    Halts command.run (fun s' => ∃ n,
      s'.session.writer.Prints (onBlack .white) ((d.ticked n).shows command).roll ∧
        s'.procs = ((d.ticked n).shows command).procs ∧ how.done s s') s := by
  cases command with
  | halt =>
      cases ends
      have same (procs : Procs) :
          Command.prints procs d.roll .halt = sayWhite ["Halting system...\n"] d.roll := rfl
      refine print_pending_holds h same (fun n s' holds kept => Halts.modify (Halts.halt ?_))
      exact ⟨n, holds.screen, holds.procs, rfl, kept.commandPort⟩
  | reboot =>
      cases ends
      have same (procs : Procs) :
          Command.prints procs d.roll .reboot = sayWhite ["Rebooting...\n"] d.roll := rfl
      refine print_pending_holds h same (fun n s' holds kept => Halts.modify (Halts.halt ?_))
      exact ⟨n, holds.screen, holds.procs, kept.interrupts, congrArg (· ++ [0xFE]) kept.commandPort⟩
  | help | clear | echo | uname | version | ps | uptime | unknown => cases ends

theorem beginLine_holds {color : UInt8} (screen : s.session.writer.Prints color d.roll)
    (procs : s.procs = d.procs) (free : s.tableHeld = false) :
    Finishes beginLine (fun _ s' => ∃ n, Holds (d.prompt.ticked n) s' ∧ Unswitched s s') s := by
  refine Finishes.andThen (prompt_printed free screen) (fun _ s₁ printed => ?_)
  obtain ⟨n, ticks⟩ := printed.ticks
  have empty : (Session.start s₁.session.writer).line = [] := List.take_zero
  refine Finishes.modify ⟨n, ?_, printed.interrupts, printed.commandPort⟩
  refine ⟨printed.screen, empty, rfl, Nat.succ_pos 255, ?_, printed.held.trans free⟩
  unfold Desk.ticked Desk.prompt
  rw [← procs]
  exact ticks

/-- A line is run as on the desk, between some of the ticks that come meanwhile; or a tick
strikes the listing that it asks for. -/
theorem execute_reaches (h : Holds d s) (kept : Unswitched before s) :
    (∃ n m, Reaches before ((d.ticked n).execute.ticked m) ((do execute d.line; beginLine) s)) ∨
      (Spells d.line .ps ∧ ∃ n lines s', (do execute d.line; beginLine) s = .halted s' ∧
        Struck (d.ticked n) lines s') := by
  by_cases blank : Blank d.line
  · rw [execute_of_blank blank]
    obtain ⟨_, s', ran, n, holds, kept'⟩ := beginLine_holds h.screen h.procs h.free
    refine .inl ⟨0, n, ?_⟩
    rw [Desk.execute_of_blank (d := d.ticked 0) blank]
    exact ⟨s', ran, holds, kept.trans kept'⟩
  · obtain ⟨command, spells⟩ := exists_spells blank
    rw [spells.execute_eq]
    cases ends : command.ending with
    | none =>
        rcases command.run_settles h ends with ⟨_, s₁, ran, n, m, shown, kept₁⟩ | ⟨s', ran, rfl, n, lines, struck⟩
        · obtain ⟨_, s₂, ran₂, k, holds, kept₂⟩ := beginLine_holds shown.screen shown.procs shown.free
          refine .inl ⟨n, k + m, ?_⟩
          rw [Desk.execute_of_returns (d := d.ticked n) spells ends]
          rw [Desk.prompt_ticked, Desk.ticked_ticked] at holds
          exact ⟨s₂, (Exec.bind_of_done ran).trans ran₂, holds, (kept.trans kept₁).trans kept₂⟩
        · exact .inr ⟨spells, n, lines, s', Exec.bind_of_halted ran, struck⟩
    | some how =>
        obtain ⟨s', ran, n, printed, procs, done⟩ := command.run_halts h ends
        refine .inl ⟨n, 0, ?_⟩
        rw [Desk.execute_of_ends (d := d.ticked n) spells ends]
        refine ⟨s', Exec.bind_of_halted ran, printed, procs, ?_⟩
        cases how with
        | off => exact ⟨done.1, done.2.trans kept.commandPort⟩
        | reset => exact ⟨done.1.trans kept.interrupts, by rw [done.2, kept.commandPort]⟩

section Keys
variable {ch : UInt8}

/-- A key has been read: the desk has changed, and `read_line` returns or goes on. -/
def Read (d : Desk) (before : System) (length : Option Nat) : Option Nat → System → Prop :=
  fun result s => result = length ∧ Holds d s ∧ Unswitched before s

/-- The writer shows a text, and nothing else changes. -/
theorem onWriter_holds (h : Holds d s) (pieces : List String) :
    Finishes (onWriter (kprint pieces)) (fun _ session =>
      Holds { d with roll := sayWhite pieces d.roll } { s with session }) s.session :=
  Finishes.zoom (Finishes.mono (kprint_prints h.screen pieces)
    (fun _ _ printed => h.withWriter printed))

theorem readKey_enter_holds (h : Holds d s) (enter : isEnter ch = true) :
    Finishes (onSession (readKey ch))
      (Read d.feed s (some d.feed.line.length)) s := by
  refine Finishes.zoom ?_
  unfold readKey
  refine Finishes.bind (Finishes.get ?_)
  rw [if_pos enter]
  refine Finishes.andThen (onWriter_holds h ["\n"]) (fun _ session fed => ?_)
  rw [h.length, ← d.feed_line]
  exact Finishes.ret ⟨rfl, fed, rfl, rfl⟩

theorem readKey_cancel_holds (h : Holds d s) (notEnter : isEnter ch = false)
    (notErase : isErase ch = false) (cancel : isCancel ch = true) :
    Finishes (onSession (readKey ch))
      (Read { d with roll := sayWhite ["^C\n"] d.roll } s (some 0)) s := by
  refine Finishes.zoom ?_
  unfold readKey
  refine Finishes.bind (Finishes.get ?_)
  rw [notEnter, if_neg nofun, notErase, if_neg nofun, if_pos cancel]
  refine Finishes.andThen (onWriter_holds h ["^C\n"]) (fun _ session fed => ?_)
  exact Finishes.ret ⟨rfl, fed, rfl, rfl⟩

theorem Holds.pos_lt (h : Holds d s) : s.session.pos < maxCmdLen := h.length ▸ h.room

theorem readKey_insert_holds (h : Holds d s) (notEnter : isEnter ch = false)
    (notErase : isErase ch = false) (notCancel : isCancel ch = false) :
    Finishes (onSession (readKey ch)) (Read (d.insert ch) s none) s := by
  have length := h.length
  have inside := h.pos_lt
  refine Finishes.zoom ?_
  unfold readKey Desk.insert
  refine Finishes.bind (Finishes.get ?_)
  rw [notEnter, if_neg nofun, notErase, if_neg nofun, notCancel, if_neg nofun, length]
  split
  · next accepted =>
      have short : d.line.length + 1 < 2 ^ 64 := by
        simp only [maxCmdLen] at accepted
        omega
      rw [length] at inside
      refine Finishes.bind (Finishes.of_done (store_run inside ch s.session) ?_)
      refine Finishes.bind (Finishes.of_done (Exec.usizeAdd_of_lt short _) ?_)
      refine Finishes.bind (Finishes.modify ?_)
      refine Finishes.bind (Finishes.zoom (Finishes.mono (Writer.writeString_prints h.screen _) ?_))
      intro _ w printed
      refine Finishes.ret ⟨rfl, ⟨printed, ?_, ?_, ?_, h.procs, h.free⟩, rfl, rfl⟩
      · change (s.session.buf.set d.line.length ch inside).toList.take (d.line.length + 1) = d.line ++ [ch]
        have old : s.session.buf.toList.take d.line.length = d.line := length ▸ h.line
        rw [Vector.toList_set, List.take_add_one, List.getElem?_set_self (by rw [Vector.length_toList]; exact inside),
          List.take_set_of_le (Nat.le_refl _), old]
        rfl
      · change d.line.length + 1 = (d.line ++ [ch]).length
        rw [List.length_append, List.length_singleton]
      · change (d.line ++ [ch]).length < maxCmdLen
        rw [List.length_append, List.length_singleton]
        omega
  · exact Finishes.ret ⟨rfl, h, rfl, rfl⟩

theorem readKey_erase_holds (h : Holds d s) (notEnter : isEnter ch = false) (erase : isErase ch = true) :
    Finishes (onSession (readKey ch)) (Read d.erase s none) s := by
  have length := h.length
  have inside := h.pos_lt
  refine Finishes.zoom ?_
  unfold readKey Desk.erase
  refine Finishes.bind (Finishes.get ?_)
  rw [notEnter, if_neg nofun, if_pos erase]
  by_cases empty : d.line = []
  · rw [if_pos empty, if_neg (by rw [length, empty]; decide)]
    exact Finishes.ret ⟨rfl, h, rfl, rfl⟩
  · have some_ : 0 < s.session.pos := by
      rw [length]
      exact List.length_pos_iff.mpr empty
    have before : s.session.pos - 1 < maxCmdLen := by omega
    rw [if_neg empty, if_pos some_]
    refine Finishes.bind (Finishes.of_done (Exec.usizeSub_of_le some_ s.session) ?_)
    refine Finishes.bind (Finishes.modify ?_)
    refine Finishes.bind (Finishes.of_done (store_run before 0 _) ?_)
    refine Finishes.bind (Finishes.zoom (Finishes.mono (Writer.backspace_prints h.screen) ?_))
    intro _ w printed
    refine Finishes.ret ⟨rfl, ⟨printed, ?_, ?_, ?_, h.procs, h.free⟩, rfl, rfl⟩
    · change (s.session.buf.set (s.session.pos - 1) 0 before).toList.take (s.session.pos - 1) = d.line.dropLast
      rw [Vector.toList_set, List.take_set_of_le (Nat.le_refl _), ← h.line, Session.line,
        List.dropLast_take (by rw [Vector.length_toList]; exact inside)]
    · change s.session.pos - 1 = d.line.dropLast.length
      rw [List.length_dropLast, length]
    · change d.line.dropLast.length < maxCmdLen
      rw [List.length_dropLast, ← length]
      exact before

end Keys

/-- The shell runs so much of its buffer as `read_line` has returned. -/
theorem finishLine_run {length : Nat} (inside : length ≤ maxCmdLen) (s : System) :
    finishLine length s = (do execute (s.session.buf.toList.take length); beginLine) s := by
  have sliced : Exec.sliceTo s.session.buf.toList length s =
      .done (s.session.buf.toList.take length) s := by
    rw [Exec.sliceTo, if_pos (by rw [Vector.length_toList]; exact inside)]
    rfl
  unfold finishLine
  rw [Exec.get_bind, Exec.bind_of_done sliced]

theorem finishLine_eq (h : Holds d s) :
    finishLine d.line.length s = (do execute d.line; beginLine) s := by
  have line : s.session.buf.toList.take d.line.length = d.line := h.length ▸ h.line
  rw [finishLine_run (Nat.le_of_lt h.room), line]

/-- Nothing is run after Ctrl+C. -/
theorem finishLine_zero (s : System) : finishLine 0 s = beginLine s := by
  have blank : Blank [] := by
    rw [blank_iff]
    exact congrArg trim (decode_encode [])
  rw [finishLine_run (Nat.zero_le _), List.take_zero, execute_of_blank blank]
  rfl

section Leads

variable {ch : UInt8} {keys : List UInt8} {outcome : Outcome System Unit}

/-- Ticks, a key, and more ticks. -/
theorem run_key (n m : Nat) (ch : UInt8) (d : Desk) :
    Runs.run Situation.step (.waiting d)
        (List.replicate n .tick ++ .key ch :: List.replicate m .tick) =
      ((d.ticked n).press ch).ticked m := by
  rw [Runs.run_append, run_ticks, Runs.run_cons, run_ticks]
  rfl

theorem keysOf_key (n m : Nat) (ch : UInt8) :
    keysOf (List.replicate n .tick ++ .key ch :: List.replicate m .tick) = [ch] := by
  rw [keysOf_append, keysOf_ticks, List.nil_append]
  exact congrArg (ch :: ·) (keysOf_ticks m)

theorem Leads.of_key {n m : Nat}
    (reached : Reaches before (((d.ticked n).press ch).ticked m) outcome) :
    Leads before d [ch] outcome := by
  rw [← run_key] at reached
  exact .inl ⟨_, keysOf_key n m ch, reached⟩

theorem Leads.of_struck {n lines : Nat} (enter : isEnter ch = true) (spells : Spells d.line .ps)
    (halted : outcome = .halted s) (struck : Struck (d.ticked n).feed lines s) :
    Leads before d [ch] outcome := by
  refine .inr ⟨List.replicate n .tick, d.ticked n, ch, [], lines, s, ?_, run_ticks n _, enter, spells,
    halted, struck⟩
  rw [keysOf_ticks, List.nil_append]

/-- What has come of earlier events is where the later keys start. -/
theorem Leads.append {d' : Desk} {events : List Event}
    (ran : Runs.run Situation.step (.waiting d) events = .waiting d') (leads : Leads before d' keys outcome) :
    Leads before d (keysOf events ++ keys) outcome := by
  rcases leads with ⟨more, rfl, reached⟩ | ⟨more, d'', ch, later, lines, s, rfl, ran', rest⟩
  · refine .inl ⟨events ++ more, keysOf_append events more, ?_⟩
    rw [Runs.run_append, ran]
    exact reached
  · refine .inr ⟨events ++ more, d'', ch, later, lines, s, ?_, ?_, rest⟩
    · rw [keysOf_append, List.append_assoc]
    · rw [Runs.run_append, ran, ran']

theorem Leads.of_ticked {n : Nat} (leads : Leads before (d.ticked n) keys outcome) :
    Leads before d keys outcome := by
  have ticks := Leads.append (run_ticks n (.waiting d)) leads
  rwa [keysOf_ticks] at ticks

theorem keysOf_map_key (keys : List UInt8) : keysOf (keys.map .key) = keys := by
  induction keys with
  | nil => rfl
  | cons ch keys ih => exact congrArg (ch :: ·) ih

theorem run_ended (how : Ending) (d : Desk) (events : List Event) :
    Runs.run Situation.step (.ended how d) events = .ended how d := by
  induction events with
  | nil => rfl
  | cons event events ih => exact ih

/-- Keys that come after the end, or when the machine hangs, change nothing. -/
theorem Leads.of_halted {first : List UInt8} (leads : Leads before d first (.halted s)) (keys : List UInt8) :
    Leads before d (first ++ keys) (.halted s) := by
  rcases leads with ⟨events, rfl, reached⟩ | ⟨events, d', ch, later, lines, s', rfl, ran, rest⟩
  · refine .inl ⟨events ++ keys.map .key, by rw [keysOf_append, keysOf_map_key], ?_⟩
    rw [Runs.run_append]
    cases now : Runs.run Situation.step (.waiting d) events with
    | waiting d' =>
        rw [now] at reached
        obtain ⟨_, returned, _⟩ := reached
        cases returned
    | ended how d' =>
        rw [now] at reached
        rw [run_ended]
        exact reached
  · refine .inr ⟨events, d', ch, later ++ keys, lines, s', ?_, ran, rest⟩
    rw [List.append_assoc, List.cons_append]

/-- Code after code that has led somewhere. -/
theorem Leads.bind {first : List UInt8} {m : Exec System Unit} {f : Unit → Exec System Unit}
    (leads : Leads before d first (m s))
    (rest : ∀ d' s', Holds d' s' → Unswitched before s' → Leads before d' keys (f () s')) :
    Leads before d (first ++ keys) ((m >>= f) s) := by
  rcases leads with ⟨events, rfl, reached⟩ |
    ⟨events, d', ch, later, lines, s', rfl, ran, enter, spells, halted, struck⟩
  · cases now : Runs.run Situation.step (.waiting d) events with
    | waiting d' =>
        rw [now] at reached
        obtain ⟨s', returned, holds, kept⟩ := reached
        rw [Exec.bind_of_done returned]
        exact Leads.append now (rest d' s' holds kept)
    | ended how d' =>
        rw [now] at reached
        obtain ⟨s', halted, ended⟩ := reached
        have there : Reaches before (Runs.run Situation.step (.waiting d) events) (.halted s') := by
          rw [now]
          exact ⟨s', rfl, ended⟩
        rw [Exec.bind_of_halted halted]
        exact Leads.of_halted (.inl ⟨events, rfl, there⟩) keys
  · rw [Exec.bind_of_halted halted]
    exact Leads.of_halted (.inr ⟨events, d', ch, later, lines, s', rfl, ran, enter, spells, rfl, struck⟩) keys

end Leads

/-- Ticks that come before the code, and the code on what they leave. -/
theorem Leads.of_pending {keys : List UInt8} {f : Unit → Exec System Unit} (h : Holds d s)
    (kept : Unswitched before s)
    (rest : ∀ d' s', Holds d' s' → Unswitched before s' → Leads before d' keys (f () s')) :
    Leads before d keys ((pending >>= f) s) := by
  obtain ⟨_, s', ran, n, holds, kept'⟩ := pending_holds h
  rw [Exec.bind_of_done ran]
  exact Leads.of_ticked (rest (d.ticked n) s' holds (kept.trans kept'))

/-- A line that has been entered is run. -/
theorem finishLine_leads {ch : UInt8} (enter : isEnter ch = true) (fed : Holds d.feed s)
    (kept : Unswitched before s) : Leads before d [ch] (finishLine d.feed.line.length s) := by
  rw [finishLine_eq fed]
  rcases execute_reaches fed kept with ⟨n, m, reached⟩ | ⟨spells, n, lines, s', halted, struck⟩
  · refine Leads.of_key (n := n) (m := m) ?_
    rw [Desk.press, if_pos enter]
    exact reached
  · exact Leads.of_struck enter spells halted struck

theorem handleKey_leads (h : Holds d s) (kept : Unswitched before s) (ch : UInt8) :
    Leads before d [ch] (handleKey ch s) := by
  unfold handleKey
  refine Leads.of_pending h kept (fun d s h kept => ?_)
  cases enter : isEnter ch with
  | true =>
      obtain ⟨_, s', ran, rfl, fed, kept'⟩ := readKey_enter_holds h enter
      rw [Exec.bind_of_done ran]
      exact finishLine_leads enter fed (kept.trans kept')
  | false =>
      cases erase : isErase ch with
      | true =>
          obtain ⟨_, s', ran, rfl, holds, kept'⟩ := readKey_erase_holds h enter erase
          rw [Exec.bind_of_done ran]
          refine Leads.of_key (n := 0) (m := 0) ?_
          rw [Desk.press, enter, if_neg nofun, if_pos erase]
          exact ⟨s', rfl, holds, kept.trans kept'⟩
      | false =>
          cases cancel : isCancel ch with
          | true =>
              obtain ⟨_, s', ran, rfl, shown, kept'⟩ := readKey_cancel_holds h enter erase cancel
              obtain ⟨_, s'', ran', m, holds, kept''⟩ := beginLine_holds shown.screen shown.procs shown.free
              rw [Exec.bind_of_done ran]
              refine Leads.of_key (n := 0) (m := m) ?_
              rw [Desk.press, enter, if_neg nofun, erase, if_neg nofun, if_pos cancel]
              exact ⟨s'', (finishLine_zero s').trans ran', holds, (kept.trans kept').trans kept''⟩
          | false =>
              obtain ⟨_, s', ran, rfl, holds, kept'⟩ := readKey_insert_holds h enter erase cancel
              rw [Exec.bind_of_done ran]
              refine Leads.of_key (n := 0) (m := 0) ?_
              rw [Desk.press, enter, if_neg nofun, erase, if_neg nofun, cancel, if_neg nofun]
              exact ⟨s', rfl, holds, kept.trans kept'⟩

/-- The keys of a session, from any prompt on. -/
theorem forEach_leads (h : Holds d s) (kept : Unswitched before s) (keys : List UInt8) :
    Leads before d keys (Exec.forEach keys handleKey s) := by
  induction keys generalizing d s with
  | nil => exact .inl ⟨[], rfl, s, rfl, h, kept⟩
  | cons ch keys ih =>
      have pressed := handleKey_leads h kept ch
      exact pressed.bind (fun _ _ holds kept' => ih holds kept')

theorem prompt_leads {color : UInt8} (screen : s.session.writer.Prints color d.roll)
    (procs : s.procs = d.procs) (free : s.tableHeld = false) (kept : Unswitched before s)
    (keys : List UInt8) :
    Leads before d.prompt keys ((do beginLine; Exec.forEach keys handleKey) s) := by
  obtain ⟨_, s', ran, n, holds, kept'⟩ := beginLine_holds screen procs free
  rw [Exec.bind_of_done ran]
  exact Leads.of_ticked (forEach_leads holds (kept.trans kept') keys)

/-- The machine when the shell starts on a screen that nothing has been printed on. Ticks
will come at the first points of the code. -/
def poweredOn : System :=
  { session := Session.start (Vga.initial (fun _ => 0))
    procs := Procs.boot
    tableHeld := false
    interrupts := true
    arrivals := [2, 0, 1, 0, 0, 7]
    commandPort := [] }

end Refinement
end ComputeKernel.Shell
