import ComputeKernel.Shell.Desk

/-! What the shell prints, with ticks between any two of its operations on the screen. While
the process table is not locked, ticks come and go; the first tick that comes while it is
locked is the last. -/
namespace ComputeKernel.Shell
open Checked (Exec Finishes Halts Settles)
open Scrollback (Roll)
open Vga (Writer Color Cell)

/-- The interrupt flag and the command port are as they were. -/
structure Unswitched (before after : System) : Prop where
  interrupts : after.interrupts = before.interrupts
  commandPort : after.commandPort = before.commandPort

section Interrupts

variable {s s' s'' : System}

/-- Nothing but ticks has come. -/
structure Passes (s s' : System) : Prop extends Unswitched s s' where
  ticks : ∃ n, s'.procs = Procs.tick^[n] s.procs
  held : s'.tableHeld = s.tableHeld

theorem Passes.refl (s : System) : Passes s s := ⟨⟨rfl, rfl⟩, ⟨0, rfl⟩, rfl⟩

theorem Unswitched.trans (first : Unswitched s s') (second : Unswitched s' s'') : Unswitched s s'' :=
  ⟨second.interrupts.trans first.interrupts, second.commandPort.trans first.commandPort⟩

theorem Passes.trans (first : Passes s s') (second : Passes s' s'') : Passes s s'' := by
  obtain ⟨n, earlier⟩ := first.ticks
  obtain ⟨m, later⟩ := second.ticks
  refine ⟨first.toUnswitched.trans second.toUnswitched, ⟨m + n, ?_⟩, second.held.trans first.held⟩
  rw [later, earlier, Function.iterate_add_apply]

theorem timer_passes (free : s.tableHeld = false) (on : s.interrupts = true) :
    Finishes timer (fun _ s' => s'.session = s.session ∧ Passes s s') s := by
  refine Finishes.bind (Finishes.modify (Finishes.bind (Finishes.get ?_)))
  split
  · next locked => exact absurd (free.symm.trans locked) nofun
  · exact Finishes.modify ⟨rfl, ⟨on.symm, rfl⟩, ⟨1, rfl⟩, rfl⟩

/-- Where the table is not locked, ticks come and go. -/
theorem pending_passes (free : s.tableHeld = false) :
    Finishes pending (fun _ s' => s'.session = s.session ∧ Passes s s') s := by
  have stays : s.session = s.session ∧ Passes s s := ⟨rfl, .refl s⟩
  refine Finishes.bind (Finishes.get ?_)
  split
  · next on =>
      split
      · exact Finishes.ret stays
      · refine Finishes.bind (Finishes.modify (Finishes.forEach ⟨rfl, ⟨rfl, rfl⟩, ⟨0, rfl⟩, rfl⟩ ?_))
        rintro _ _ s' ⟨session, passes⟩
        refine Finishes.mono (timer_passes (passes.held.trans free) (passes.interrupts.trans on)) ?_
        rintro _ s'' ⟨session', passes'⟩
        exact ⟨session'.trans session, passes.trans passes'⟩
  · exact Finishes.ret stays

/-- The timer waits for a lock that is never free. -/
structure Stuck (s s' : System) : Prop where
  session : s'.session = s.session
  procs : s'.procs = { s.procs with tickCount := s.procs.tickCount + 1 }
  held : s'.tableHeld = true
  interrupts : s'.interrupts = false

theorem timer_stuck (held : s.tableHeld = true) : Halts timer (Stuck s) s := by
  refine Halts.modify (Halts.get ?_)
  split
  · exact Halts.modify (Halts.halt ⟨rfl, rfl, held, rfl⟩)
  · next free => exact absurd held free

/-- Where the table is locked, no tick comes, or the first that comes is stuck. -/
theorem pending_held (held : s.tableHeld = true) :
    Settles pending (fun _ s' => s'.session = s.session ∧ s'.procs = s.procs ∧ Passes s s') (Stuck s) s := by
  have stays : s.session = s.session ∧ s.procs = s.procs ∧ Passes s s := ⟨rfl, rfl, .refl s⟩
  refine Settles.get ?_
  split
  · split
    · exact .inl (Finishes.ret stays)
    · next ticks arrivals _ =>
        refine Settles.modify ?_
        cases ticks with
        | zero => exact .inl (Finishes.ret ⟨rfl, rfl, ⟨rfl, rfl⟩, ⟨0, rfl⟩, rfl⟩)
        | succ ticks =>
            obtain ⟨s', ran, stuck⟩ := timer_stuck (s := { s with arrivals }) held
            exact .inr ⟨s', Exec.bind_of_halted ran, stuck.session, stuck.procs, stuck.held, stuck.interrupts⟩
  · exact .inl (Finishes.ret stays)

end Interrupts

section Printing

variable {color : UInt8} {r : Roll Cell} {w : Writer} {s s' s'' : System}

theorem say_append (color : UInt8) (first second : List String) (r : Roll Cell) :
    say color (first ++ second) r = say color second (say color first r) := by
  unfold say
  rw [List.flatMap_append, List.foldl_append]

theorem say_singleton (color : UInt8) (piece : String) (r : Roll Cell) :
    say color [piece] r =
      (piece.toByteArray.data.toList.map Writer.glyph).foldl (Writer.enterChar color) r := by
  rw [say, List.flatMap_singleton]

theorem kprint_prints (printed : w.Prints color r) (pieces : List String) :
    Finishes (kprint pieces) (fun _ w' => w'.Prints color (say color pieces r)) w := by
  induction pieces generalizing w r with
  | nil => exact Finishes.ret printed
  | cons piece pieces ih =>
      refine Finishes.andThen (Writer.writeString_prints printed _) (fun _ w' written => ?_)
      refine Finishes.mono (ih written) (fun _ w'' done => ?_)
      rwa [← List.singleton_append, say_append, say_singleton]

/-- The screen shows the paper in a colour, the buffer has not changed, and nothing but
ticks has come. -/
structure Printed (color : UInt8) (r : Roll Cell) (s s' : System) : Prop extends Passes s s' where
  screen : s'.session.writer.Prints color r
  buf : s'.session.buf = s.session.buf
  pos : s'.session.pos = s.session.pos

theorem Printed.trans {color' : UInt8} {r' : Roll Cell} (first : Printed color r s s')
    (second : Printed color' r' s' s'') : Printed color' r' s s'' :=
  ⟨first.toPasses.trans second.toPasses, second.screen, second.buf.trans first.buf,
    second.pos.trans first.pos⟩

/-- Code over the writer, after a point where ticks may have come. -/
theorem onWriter_printed {m : Exec Writer Unit}
    (inner : Finishes m (fun _ w => w.Prints color r) s.session.writer)
    (same : s'.session = s.session) (passes : Passes s s') :
    Finishes (onSession (onWriter m)) (fun _ s'' => Printed color r s s'' ∧ s''.procs = s'.procs) s' := by
  rw [← same] at inner
  refine Finishes.zoom (Finishes.zoom (Finishes.mono inner ?_))
  intro _ w printed
  have buf : s'.session.buf = s.session.buf := by rw [same]
  have pos : s'.session.pos = s.session.pos := by rw [same]
  exact ⟨⟨⟨⟨passes.interrupts, passes.commandPort⟩, passes.ticks, passes.held⟩, printed, buf, pos⟩, rfl⟩

theorem onScreen_printed {m : Exec Writer Unit} (free : s.tableHeld = false)
    (inner : Finishes m (fun _ w => w.Prints color r) s.session.writer) :
    Finishes (onScreen m) (fun _ s' => Printed color r s s') s := by
  refine Finishes.andThen (pending_passes free) ?_
  rintro _ s' ⟨same, passes⟩
  exact Finishes.mono (onWriter_printed inner same passes) (fun _ _ printed => printed.1)

/-- The code prints the text in the colour that is set, and keeps the colour. -/
def Tells (color : UInt8) (pieces : List String) (m : Exec System Unit) : Prop :=
  ∀ s r, s.tableHeld = false → s.session.writer.Prints color r →
    Finishes m (fun _ s' => Printed color (say color pieces r) s s') s

theorem print_tells (color : UInt8) (pieces : List String) : Tells color pieces (print pieces) :=
  fun _ _ free printed => onScreen_printed free (kprint_prints printed pieces)

theorem Tells.andThen {first second : List String} {m : Exec System Unit}
    {n : Unit → Exec System Unit} (tells : Tells color first m) (then_ : Tells color second (n ())) :
    Tells color (first ++ second) (m >>= n) := by
  intro s r free printed
  refine Finishes.andThen (tells s r free printed) (fun _ s' said => ?_)
  rw [say_append]
  refine Finishes.mono (then_ s' _ (said.held.trans free) said.screen) (fun _ s'' told => ?_)
  exact said.trans told

theorem cmdHelp_tells (color : UInt8) : Tells color helpText cmdHelp := by
  iterate 9 refine (print_tells color [_]).andThen ?_
  exact print_tells color [_]

theorem cmdVersion_tells (color : UInt8) :
    Tells color ["ComputeKERNEL v1.0.0\n", "Built with Rust (nightly)\n", "Architecture: x86_64\n"]
      cmdVersion :=
  (print_tells color [_]).andThen ((print_tells color [_]).andThen (print_tells color [_]))

theorem welcome_tells (color : UInt8) : Tells color welcomeText welcome :=
  (print_tells color [_]).andThen ((print_tells color [_]).andThen
    ((print_tells color [_]).andThen (print_tells color [_])))

theorem setColor_printed (free : s.tableHeld = false) (h : s.session.writer.Prints color r) (fg : Color) :
    Finishes (setColor fg Color.black) (fun _ s' => Printed (onBlack fg) r s s') s :=
  onScreen_printed free (Writer.setColor_prints h fg Color.black)

/-- Text in a colour of its own. -/
theorem setColor_print_printed (free : s.tableHeld = false) (h : s.session.writer.Prints color r)
    (fg : Color) (pieces : List String) {next : Exec System Unit} {post : Unit → System → Prop}
    (rest : ∀ s', Printed (onBlack fg) (say (onBlack fg) pieces r) s s' → Finishes next post s') :
    Finishes (do
      setColor fg Color.black
      print pieces
      next) post s := by
  refine Finishes.andThen (setColor_printed free h fg) (fun _ s' colored => ?_)
  refine Finishes.andThen (print_tells (onBlack fg) pieces s' r (colored.held.trans free) colored.screen) ?_
  exact fun _ s'' said => rest s'' (colored.trans said)

theorem prompt_printed (free : s.tableHeld = false) (h : s.session.writer.Prints color r) :
    Finishes prompt (fun _ s' => Printed (onBlack .white) (sayPrompt r) s s') s := by
  refine setColor_print_printed free h .lightGreen _ (fun s₁ green => ?_)
  refine setColor_print_printed (green.held.trans free) green.screen .white _ (fun s₂ plain => ?_)
  have plain := green.trans plain
  refine setColor_print_printed (plain.held.trans free) plain.screen .lightCyan _ (fun s₃ cyan => ?_)
  have cyan := plain.trans cyan
  refine Finishes.mono (setColor_printed (cyan.held.trans free) cyan.screen .white) (fun _ s' last => ?_)
  exact cyan.trans last

theorem cmdUnknown_printed (free : s.tableHeld = false) (h : s.session.writer.Prints color r) (cmd : String) :
    Finishes (cmdUnknown cmd) (fun _ s' => Printed (onBlack .white)
      (say (onBlack .lightRed) ["shell: command not found: ", cmd, "\n"] r) s s') s := by
  refine setColor_print_printed free h .lightRed _ (fun s' red => ?_)
  refine Finishes.mono (setColor_printed (red.held.trans free) red.screen .white) (fun _ s'' last => ?_)
  exact red.trans last

end Printing

section Listing

variable {color : UInt8} {r : Roll Cell} {s : System}

theorem say_pair (color : UInt8) (first second : String) (r : Roll Cell) :
    say color [first, second] r = say color [first ++ second] r := by
  unfold say
  simp [String.toByteArray_append]

/-- The pieces that the code prints make up the row. -/
theorem say_psLine (color : UInt8) (p : Process) (r : Roll Cell) :
    say color (psLine p) r = say color (psRow p) r := by
  have pid : say color (padded p.pid) = say color [flushRight 3 (toString p.pid.toNat)] := by
    funext r
    rw [padded, say_pair, flushRight, List.leftpad, String.ofList_append, String.ofList_toList,
      String.length_toList]
  have state : stateLabel p.state = flushLeft 7 (stateName p.state) := by
    cases p.state <;> rfl
  have row : psRow p = ["  "] ++ [flushRight 3 (toString p.pid.toNat)] ++
      ["  ", flushLeft 7 (stateName p.state), "  ", p.name, "\n"] := rfl
  rw [row, psLine, state, say_append, say_append, say_append, say_append, pid]

/-- A line that is printed under the lock. -/
theorem print_settles (held : s.tableHeld = true) (h : s.session.writer.Prints color r)
    (pieces : List String) :
    Settles (print pieces)
      (fun _ s' => Printed color (say color pieces r) s s' ∧ s'.procs = s.procs) (Stuck s) s := by
  refine Settles.andThen (pending_held held) ?_
  rintro _ s' ⟨same, procs, passes⟩
  refine .inl (Finishes.mono (onWriter_printed (kprint_prints h pieces) same passes) ?_)
  exact fun _ _ printed => ⟨printed.1, printed.2.trans procs⟩

/-- Under the lock the code prints these lines and no tick has come, or a tick has struck
after some of them. -/
def Lists (color : UInt8) (lines : List (List String)) (m : Exec System Unit) : Prop :=
  ∀ s r, s.tableHeld = true → s.session.writer.Prints color r →
    Settles m (fun _ s' => Printed color (say color lines.flatten r) s s' ∧ s'.procs = s.procs)
      (fun s' => ∃ printed ≤ lines.length, ∃ s₁,
        Printed color (say color (lines.take printed).flatten r) s s₁ ∧ s₁.procs = s.procs ∧
          Stuck s₁ s') s

theorem Lists.nil (color : UInt8) : Lists color [] (Exec.ret ()) :=
  fun s _ _ h => .inl (Finishes.ret ⟨⟨.refl s, h, rfl, rfl⟩, rfl⟩)

theorem Lists.cons {pieces line : List String} {lines : List (List String)} {m : Exec System Unit}
    (same : ∀ r, say color pieces r = say color line r) (lists : Lists color lines m) :
    Lists color (line :: lines) (print pieces >>= fun _ => m) := by
  intro s r held h
  refine Settles.andThen (Settles.mono (print_settles held h pieces) (fun _ _ said => said) ?_) ?_
  · intro s' stuck
    exact ⟨0, Nat.zero_le _, s, ⟨.refl s, h, rfl, rfl⟩, rfl, stuck⟩
  · rintro _ s₁ ⟨said, procs⟩
    rw [same] at said
    refine Settles.mono (lists s₁ _ (said.held.trans held) said.screen) ?_ ?_
    · rintro _ s₂ ⟨rest, procs'⟩
      rw [List.flatten_cons, say_append]
      exact ⟨said.trans rest, procs'.trans procs⟩
    · rintro s' ⟨printed, inside, s₂, rest, procs', stuck⟩
      refine ⟨printed + 1, Nat.succ_le_succ inside, s₂, ?_, procs'.trans procs, stuck⟩
      rw [List.take_succ_cons, List.flatten_cons, say_append]
      exact said.trans rest

theorem rows_lists (color : UInt8) (table : List Process) :
    Lists color (table.map psRow) (Exec.forEach table (fun p => print (psLine p))) := by
  induction table with
  | nil => exact .nil color
  | cons p table ih => exact .cons (say_psLine color p) ih

theorem psLines_lists (color : UInt8) (table : List Process) :
    Lists color (listing table) (psLines table) :=
  .cons (fun _ => rfl) (rows_lists color table)

end Listing

end ComputeKernel.Shell
