import Mathlib.Logic.Relation
import ComputeKernel.Fs.Newc

/-! The loop of the initramfs parser on any data. A turn is restated as a function of
the data and the offset alone, and the loop as a walk over offsets. -/
namespace ComputeKernel
open Checked (Exec Outcome)
open Kernel (fromUtf8)

namespace InitramFs

variable {σ : Type} {data : List UInt8} {offset : Nat}

/-- What a turn of the loop comes to. A record without a name makes the code slice
backwards. -/
inductive Turn where
  | stop
  | unreadable
  | nameless
  | entry (path : String) (filesize mode : UInt32) (dataStart : Nat)

def Turn.outcome (inodeNum : UInt64) (s : σ) : Turn → Outcome σ Found
  | .stop => .done .stop s
  | .unreadable => .done .unreadable s
  | .nameless => .panicked .bounds
  | .entry path filesize mode dataStart => .done (.entry
      { path
        inodeNum
        mode
        size := filesize.toUInt64
        dataOffset := dataStart } (dataStart + filesize.toNat)) s

def bytesAt (data : List UInt8) (first count : Nat) : List UInt8 := (data.drop first).take count

/-- The number in the field that starts at a place of the header. -/
def hexAt (data : List UInt8) (offset start : Nat) : Option UInt32 :=
  parseHex8 (bytesAt data (offset + start) 8)

def recordAt (data : List UInt8) (offset : Nat) (namesize filesize mode : UInt32) : Turn :=
  if offset + headerSize + namesize.toNat > data.length then .stop
  else if namesize = 0 then .nameless
  else
    match fromUtf8 (bytesAt data (offset + headerSize) (namesize.toNat - 1)) with
    | none => .unreadable
    | some path =>
        if path = "TRAILER!!!" then .stop
        else .entry path filesize mode ((offset + headerSize + namesize.toNat + 3) / 4 * 4)

def turnAt (data : List UInt8) (offset : Nat) : Turn :=
  if bytesAt data offset 6 ≠ cpioNewcMagic then .stop
  else
    match hexAt data offset 94 with
    | none => .unreadable
    | some namesize =>
        match hexAt data offset 54 with
        | none => .unreadable
        | some filesize =>
            match hexAt data offset 14 with
            | none => .unreadable
            | some mode => recordAt data offset namesize filesize mode

section Turns

variable (short : data.length < 2 ^ 63) (header : offset + headerSize ≤ data.length)
include short header

theorem field_run (start stop : Nat) (ordered : start ≤ stop) (inside : stop ≤ headerSize) (s : σ) :
    field data offset start stop s = .done (bytesAt data (offset + start) (stop - start)) s := by
  unfold field
  rw [Exec.bind_of_done (Exec.usizeAdd_of_lt (by omega) s),
    Exec.bind_of_done (Exec.usizeAdd_of_lt (by omega) s), Exec.slice_of_le (by omega) (by omega),
    List.drop_take, Nat.add_sub_add_left, bytesAt]

theorem readRecord_run (inodeNum : UInt64) (namesize filesize mode : UInt32) (s : σ) :
    readRecord data offset inodeNum namesize filesize mode s =
      (recordAt data offset namesize filesize mode).outcome inodeNum s := by
  have size_lt := filesize.toNat_lt
  have name_lt := namesize.toNat_lt
  unfold readRecord recordAt
  rw [Exec.bind_of_done (Exec.usizeAdd_of_lt (by omega) s),
    Exec.bind_of_done (Exec.usizeAdd_of_lt (by omega) s)]
  split
  · rfl
  rw [Exec.bind_of_done (Exec.usizeSub_of_le (by simp only [headerSize]; omega) s)]
  split
  · next nameless =>
      subst nameless
      -- The slice ends one byte before it starts.
      apply Exec.bind_of_panicked
      rw [Exec.slice, if_neg]
      · rfl
      · simp only [headerSize, UInt32.toNat_zero]
        omega
  · next named =>
      have positive : namesize.toNat ≠ 0 := fun zero => named (UInt32.toNat_inj.mp zero)
      rw [Exec.bind_of_done (Exec.slice_of_le (by omega) (by omega) s), List.drop_take,
        show offset + headerSize + namesize.toNat - 1 - (offset + headerSize) = namesize.toNat - 1 by omega,
        bytesAt]
      cases fromUtf8 ((data.drop (offset + headerSize)).take (namesize.toNat - 1)) with
      | none => rfl
      | some path =>
          dsimp only
          rw [Exec.bind_of_done (align4_run (by omega) s),
            Exec.bind_of_done (Exec.usizeAdd_of_lt (by omega) s)]
          split
          · rfl
          · rfl

/-- One turn of the loop is the turn at its offset. -/
theorem readEntry_run (inodeNum : UInt64) (s : σ) :
    readEntry data offset inodeNum s = (turnAt data offset).outcome inodeNum s := by
  have magic := field_run short header 0 6 (by decide) (by decide) s
  have namesize := field_run short header 94 102 (by decide) (by decide) s
  have filesize := field_run short header 54 62 (by decide) (by decide) s
  have mode := field_run short header 14 22 (by decide) (by decide) s
  unfold readEntry turnAt hexAt
  rw [Exec.bind_of_done magic, Nat.add_zero]
  split
  · rfl
  rw [Exec.bind_of_done namesize]
  cases parseHex8 (bytesAt data (offset + 94) 8) with
  | none => rfl
  | some namesize =>
      dsimp only
      rw [Exec.bind_of_done filesize]
      cases parseHex8 (bytesAt data (offset + 54) 8) with
      | none => rfl
      | some filesize =>
          dsimp only
          rw [Exec.bind_of_done mode]
          cases parseHex8 (bytesAt data (offset + 14) 8) with
          | none => rfl
          | some mode => exact readRecord_run short header inodeNum namesize filesize mode s

end Turns

/-- A record whose fields can be read and whose name has no byte, not even the NUL. -/
structure Nameless (data : List UInt8) (offset : Nat) : Prop where
  header : offset + headerSize ≤ data.length
  magic : bytesAt data offset 6 = cpioNewcMagic
  namesize : hexAt data offset 94 = some 0
  filesize : (hexAt data offset 54).isSome
  mode : (hexAt data offset 14).isSome

/-- A turn that gets as far as the name has read the fields it needs. -/
theorem turnAt_fields {turn : Turn} (here : turnAt data offset = turn) (goesOn : turn ≠ .stop)
    (readable : turn ≠ .unreadable) :
    bytesAt data offset 6 = cpioNewcMagic ∧ ∃ namesize filesize mode,
      hexAt data offset 94 = some namesize ∧ hexAt data offset 54 = some filesize ∧
        hexAt data offset 14 = some mode ∧ recordAt data offset namesize filesize mode = turn := by
  unfold turnAt at here
  split at here
  · exact absurd here.symm goesOn
  next magic =>
  split at here
  · exact absurd here.symm readable
  next namesize read =>
  split at here
  · exact absurd here.symm readable
  next filesize read' =>
  split at here
  · exact absurd here.symm readable
  next mode read'' =>
  exact ⟨Decidable.not_not.mp magic, namesize, filesize, mode, read, read', read'', here⟩

/-- The data of an entry starts behind its header, at the end of its name. -/
theorem turnAt_entry {path : String} {filesize mode : UInt32} {dataStart : Nat}
    (turn : turnAt data offset = .entry path filesize mode dataStart) :
    offset + headerSize ≤ dataStart ∧ dataStart ≤ data.length + 3 := by
  obtain ⟨_, namesize, filesize, mode, _, _, _, record⟩ := turnAt_fields turn nofun nofun
  unfold recordAt at record
  split at record
  · cases record
  next nameInside =>
  split at record
  · cases record
  split at record
  · cases record
  split at record
  · cases record
  · cases record
    omega

theorem turnAt_nameless_iff (header : offset + headerSize ≤ data.length) :
    turnAt data offset = .nameless ↔ Nameless data offset := by
  constructor
  · intro turn
    obtain ⟨magic, namesize, filesize, mode, read, size, type, record⟩ := turnAt_fields turn nofun nofun
    have zero : namesize = 0 := by
      unfold recordAt at record
      split at record
      · cases record
      split at record
      · next zero => exact zero
      split at record
      · cases record
      split at record
      · cases record
      · cases record
    subst zero
    exact ⟨header, magic, read, by rw [size]; rfl, by rw [type]; rfl⟩
  · rintro ⟨_, magic, namesize, filesize, mode⟩
    obtain ⟨filesize, size⟩ := Option.isSome_iff_exists.mp filesize
    obtain ⟨mode, type⟩ := Option.isSome_iff_exists.mp mode
    unfold turnAt recordAt
    simp only [magic, namesize, size, type]
    rw [if_neg (by simp), if_neg (by simp; omega), if_pos trivial]

/-- The loop goes from one offset to the next. -/
def Follows (data : List UInt8) (offset next : Nat) : Prop :=
  offset + headerSize ≤ data.length ∧
    ∃ path filesize mode dataStart, turnAt data offset = .entry path filesize mode dataStart ∧
      next = (dataStart + filesize.toNat + 3) / 4 * 4

/-- The loop comes to an offset. -/
def Visits (data : List UInt8) : Nat → Prop := Relation.ReflTransGen (Follows data) 0

/-- The entry is made of the record at an offset. -/
structure RecordedAt (data : List UInt8) (offset : Nat) (e : CpioEntry) : Prop where
  header : offset + headerSize ≤ data.length
  turn : ∃ filesize : UInt32, e.size = filesize.toUInt64 ∧
    turnAt data offset = .entry e.path filesize e.mode e.dataOffset

/-- Entries as a run of the loop leaves them: each is made of the record behind the data
of the one before it, and they are numbered one after another. -/
def Laid (data : List UInt8) : Nat → Nat → List CpioEntry → Prop
  | offset, _, [] => ∀ next, ¬Follows data offset next
  | offset, inodeNum, e :: entries =>
      RecordedAt data offset e ∧ e.inodeNum.toNat = inodeNum ∧
        Laid data ((e.dataOffset + e.size.toNat + 3) / 4 * 4) (inodeNum + 1) entries

/-- The ways in which the loop can end. -/
inductive Ends (data : List UInt8) (offset inodeNum : Nat) (entries : List CpioEntry) (s : σ) :
    Outcome σ (Option (List CpioEntry)) → Prop
  | panics {there : Nat} (visited : Relation.ReflTransGen (Follows data) offset there)
      (nameless : Nameless data there) : Ends data offset inodeNum entries s (.panicked .bounds)
  | unreadable (named : ∀ there, Relation.ReflTransGen (Follows data) offset there →
      ¬Nameless data there) : Ends data offset inodeNum entries s (.done none s)
  | found {found : List CpioEntry}
      (named : ∀ there, Relation.ReflTransGen (Follows data) offset there → ¬Nameless data there)
      (laid : Laid data offset inodeNum found) :
      Ends data offset inodeNum entries s (.done (some (entries ++ found)) s)

/-- An offset that the loop does not leave is the only one it visits from there. -/
theorem named_of_last {there : Nat} (last : ∀ next, ¬Follows data offset next)
    (named : ¬Nameless data offset) (visited : Relation.ReflTransGen (Follows data) offset there) :
    ¬Nameless data there := by
  rcases visited.cases_head with rfl | ⟨next, step, _⟩
  · exact named
  · exact absurd step (last next)

theorem named_of_turn {turn : Turn} (here : turnAt data offset = turn) (other : turn ≠ .nameless) :
    ¬Nameless data offset := by
  intro nameless
  exact other (here.symm.trans ((turnAt_nameless_iff nameless.header).mpr nameless))

theorem not_follows_of_turn (other : ∀ path filesize mode dataStart,
    turnAt data offset ≠ .entry path filesize mode dataStart) (next : Nat) :
    ¬Follows data offset next := by
  rintro ⟨_, path, filesize, mode, dataStart, turn, _⟩
  exact other path filesize mode dataStart turn

section Loop

variable (header : offset + headerSize ≤ data.length) (short : data.length < 2 ^ 63)
include header short

/-- A turn of the loop that finds an entry. -/
theorem parse_of_entry {entry : CpioEntry} {dataEnd inodeNum : Nat} (small : dataEnd + 3 < 2 ^ 64)
    (numbers : inodeNum + 1 < 2 ^ 64) {s : σ}
    (found : readEntry data offset (UInt64.ofNat inodeNum) s = .done (.entry entry dataEnd) s)
    (turns : Nat) (entries : List CpioEntry) :
    parse data (turns + 1) entries offset (UInt64.ofNat inodeNum) s =
      parse data turns (entries ++ [entry]) ((dataEnd + 3) / 4 * 4) (UInt64.ofNat (inodeNum + 1)) s := by
  have number : (UInt64.ofNat inodeNum).toNat + (1 : UInt64).toNat < 2 ^ 64 := by
    rw [UInt64.toNat_ofNat_of_lt' (show _ < 2 ^ 64 by omega)]
    exact numbers
  rw [parse, Exec.bind_of_done (Exec.usizeAdd_of_lt (by omega) s), if_pos header,
    Exec.bind_of_done found]
  dsimp only
  rw [Exec.bind_of_done (Exec.u64Add_of_lt number _ s), Exec.bind_of_done (align4_run small s),
    UInt64.ofNat_add]
  rfl

section Last

variable {inodeNum : UInt64} {s : σ} (turns : Nat) (entries : List CpioEntry)

/-- The turn that finds the end. -/
theorem parse_of_stop (found : readEntry data offset inodeNum s = .done .stop s) :
    parse data (turns + 1) entries offset inodeNum s = .done (some entries) s := by
  rw [parse, Exec.bind_of_done (Exec.usizeAdd_of_lt (by omega) s), if_pos header,
    Exec.bind_of_done found]
  rfl

theorem parse_of_unreadable (found : readEntry data offset inodeNum s = .done .unreadable s) :
    parse data (turns + 1) entries offset inodeNum s = .done none s := by
  rw [parse, Exec.bind_of_done (Exec.usizeAdd_of_lt (by omega) s), if_pos header,
    Exec.bind_of_done found]
  rfl

theorem parse_of_panic (found : readEntry data offset inodeNum s = .panicked .bounds) :
    parse data (turns + 1) entries offset inodeNum s = .panicked .bounds := by
  rw [parse, Exec.bind_of_done (Exec.usizeAdd_of_lt (by omega) s), if_pos header]
  exact Exec.bind_of_panicked found

end Last
end Loop

theorem parse_of_full (full : ¬offset + headerSize ≤ data.length) (fits : offset + headerSize < 2 ^ 64)
    (turns : Nat) (entries : List CpioEntry) (inodeNum : UInt64) (s : σ) :
    parse data (turns + 1) entries offset inodeNum s = .done (some entries) s := by
  rw [parse, Exec.bind_of_done (Exec.usizeAdd_of_lt fits s), if_neg full]
  rfl

theorem Ends.nothing {inodeNum : Nat} {entries : List CpioEntry} {s : σ}
    (last : ∀ next, ¬Follows data offset next) (named : ¬Nameless data offset) :
    Ends data offset inodeNum entries s (.done (some entries) s) := by
  have ended : Ends data offset inodeNum entries s (.done (some (entries ++ [])) s) :=
    .found (fun _ => named_of_last last named) last
  rwa [List.append_nil] at ended

section Records

variable {e : CpioEntry}

theorem RecordedAt.behind (recorded : RecordedAt data offset e) : offset + headerSize ≤ e.dataOffset := by
  obtain ⟨filesize, _, turn⟩ := recorded.turn
  exact (turnAt_entry turn).1

theorem RecordedAt.follows_iff (recorded : RecordedAt data offset e) (next : Nat) :
    Follows data offset next ↔ next = (e.dataOffset + e.size.toNat + 3) / 4 * 4 := by
  obtain ⟨filesize, size, turn⟩ := recorded.turn
  rw [size, UInt32.toNat_toUInt64]
  constructor
  · rintro ⟨_, path', filesize', mode', dataStart', turn', rfl⟩
    rw [turn] at turn'
    cases turn'
    rfl
  · exact fun same => ⟨recorded.header, _, _, _, _, turn, same⟩

theorem RecordedAt.named (recorded : RecordedAt data offset e) : ¬Nameless data offset := by
  obtain ⟨filesize, _, turn⟩ := recorded.turn
  exact named_of_turn turn nofun

/-- A turn that finds an entry puts it before what the rest of the loop finds. -/
theorem Ends.cons {inodeNum : Nat} {entries : List CpioEntry} {s : σ}
    {outcome : Outcome σ (Option (List CpioEntry))} (recorded : RecordedAt data offset e)
    (number : e.inodeNum.toNat = inodeNum)
    (rest : Ends data ((e.dataOffset + e.size.toNat + 3) / 4 * 4) (inodeNum + 1) (entries ++ [e]) s
      outcome) :
    Ends data offset inodeNum entries s outcome := by
  have step := recorded.follows_iff
  generalize (e.dataOffset + e.size.toNat + 3) / 4 * 4 = next at step rest
  have also : (∀ there, Relation.ReflTransGen (Follows data) next there → ¬Nameless data there) →
      ∀ there, Relation.ReflTransGen (Follows data) offset there → ¬Nameless data there := by
    intro later there visited
    rcases visited.cases_head with rfl | ⟨other, first, onward⟩
    · exact recorded.named
    · rw [(step other).mp first] at onward
      exact later there onward
  cases rest with
  | panics visited nameless => exact .panics (.head ((step next).mpr rfl) visited) nameless
  | unreadable later => exact .unreadable (also later)
  | @found found later laid =>
      rw [List.append_assoc]
      refine .found (also later) ⟨recorded, number, ?_⟩
      rw [← (recorded.follows_iff next).mp ((step next).mpr rfl)]
      exact laid

end Records

/-- The loop ends when it has a turn for every byte that is left. -/
theorem parse_ends (short : data.length < 2 ^ 63) {turns inodeNum : Nat} (some_ : 0 < turns)
    (enough : data.length < turns + offset) (near : offset < data.length + 2 ^ 33)
    (few : inodeNum ≤ offset + 2) (entries : List CpioEntry) (s : σ) :
    Ends data offset inodeNum entries s
      (parse data turns entries offset (UInt64.ofNat inodeNum) s) := by
  induction turns generalizing offset inodeNum entries with
  | zero => exact absurd some_ (Nat.lt_irrefl 0)
  | succ turns ih =>
      by_cases header : offset + headerSize ≤ data.length
      · have ran := readEntry_run short header (UInt64.ofNat inodeNum) s
        cases turn : turnAt data offset with
        | stop =>
            rw [turn] at ran
            rw [parse_of_stop header short turns entries ran]
            exact .nothing (not_follows_of_turn (by simp [turn])) (named_of_turn turn nofun)
        | unreadable =>
            rw [turn] at ran
            rw [parse_of_unreadable header short turns entries ran]
            apply Ends.unreadable
            intro there
            exact named_of_last (not_follows_of_turn (by simp [turn])) (named_of_turn turn nofun)
        | nameless =>
            rw [turn] at ran
            rw [parse_of_panic header short turns entries ran]
            exact .panics .refl ((turnAt_nameless_iff header).mp turn)
        | entry path filesize mode dataStart =>
            rw [turn] at ran
            obtain ⟨place, inside⟩ := turnAt_entry turn
            have size_lt := filesize.toNat_lt
            have number : (UInt64.ofNat inodeNum).toNat = inodeNum :=
              UInt64.toNat_ofNat_of_lt' (show _ < 2 ^ 64 by omega)
            have advances : offset < dataStart ∧ offset < data.length := by
              simp only [headerSize] at place header
              omega
            rw [parse_of_entry header short (by omega) (by omega) ran]
            apply Ends.cons (e := ⟨path, UInt64.ofNat inodeNum, mode, filesize.toUInt64, dataStart⟩)
              ⟨header, filesize, rfl, turn⟩ number
            simp only [UInt32.toNat_toUInt64]
            exact ih (by omega) (by omega) (by omega) (by omega) _
      · have last : ∀ next, ¬Follows data offset next := fun next step => header step.1
        rw [parse_of_full header (by simp only [headerSize]; omega)]
        exact .nothing last (fun nameless => header nameless.header)

/-- The loop of `new` on the whole data. -/
theorem parse_all_ends (data : ByteSlice) (s : σ) :
    Ends data.bytes 0 2 [] s (parse data.bytes (data.bytes.length + 1) [] 0 2 s) := by
  have short := data.short
  exact parse_ends short (by omega) (by omega) (by omega) (by omega) [] s

/-- The ways in which `new` can end. -/
theorem new_ends (data : ByteSlice) (s : σ) :
    (new data s = .panicked .bounds ∧ ∃ offset, Visits data.bytes offset ∧ Nameless data.bytes offset) ∨
      (∀ offset, Visits data.bytes offset → ¬Nameless data.bytes offset) ∧
        (new data s = .done none s ∨
          ∃ entries, new data s = .done (some { data, entries }) s ∧ Laid data.bytes 0 2 entries) := by
  have ends := parse_all_ends data s
  unfold new
  cases ran : parse data.bytes (data.bytes.length + 1) [] 0 2 s with
  | done result s' =>
      rw [ran] at ends
      rw [Exec.bind_of_done ran]
      cases ends with
      | unreadable named => exact .inr ⟨named, .inl rfl⟩
      | found named laid => exact .inr ⟨named, .inr ⟨_, rfl, laid⟩⟩
  | panicked why =>
      rw [ran] at ends
      cases ends with
      | panics visited nameless => exact .inl ⟨Exec.bind_of_panicked ran, _, visited, nameless⟩
  | halted s' =>
      rw [ran] at ends
      cases ends
  | faulted address =>
      rw [ran] at ends
      cases ends
  | exhausted =>
      rw [ran] at ends
      cases ends

/-- Parsing returns for exactly the data in which every record that it comes to has a
name, and panics for all other data. -/
theorem new_returns_iff (data : ByteSlice) (s : σ) :
    ((∃ result, new data s = .done result s) ↔
        ∀ offset, Visits data.bytes offset → ¬Nameless data.bytes offset) ∧
      ((∃ offset, Visits data.bytes offset ∧ Nameless data.bytes offset) →
        new data s = .panicked .bounds) := by
  rcases new_ends data s with ⟨panics, offset, visited, nameless⟩ | ⟨named, returns⟩
  · refine ⟨⟨?_, ?_⟩, fun _ => panics⟩
    · rintro ⟨result, returns⟩
      rw [panics] at returns
      cases returns
    · exact fun named => absurd nameless (named offset visited)
  · refine ⟨⟨fun _ => named, fun _ => ?_⟩, ?_⟩
    · rcases returns with unreadable | ⟨entries, parsed, _⟩
      · exact ⟨_, unreadable⟩
      · exact ⟨_, parsed⟩
    · rintro ⟨offset, visited, nameless⟩
      exact absurd nameless (named offset visited)

section Header

variable {before rest : List UInt8} {h : NewcHeader}

theorem hexAt_header (split : data = before ++ h.bytes ++ rest) (short : data.length < 2 ^ 63) {k : Nat}
    {f : HexField} (here : h.fields[k]? = some f) :
    hexAt data before.length (6 + 8 * k) = some (UInt32.ofNat f.value) := by
  have length := congrArg List.length split
  have inside := (List.getElem?_eq_some_iff.mp here).1
  simp only [List.length_append, h.bytes_length] at length
  change k < 13 at inside
  have header : before.length + headerSize ≤ data.length := by omega
  have whole := field_run short header (6 + 8 * k) (14 + 8 * k) (by omega)
    (by simp only [headerSize]; omega) ()
  rw [header_field split short here ()] at whole
  obtain ⟨digits, _⟩ := Outcome.done.inj whole
  rw [show 14 + 8 * k - (6 + 8 * k) = 8 by omega] at digits
  rw [hexAt, ← digits]
  exact f.parse

/-- A header that says so is a record without a name. -/
theorem nameless_of_header (split : data = before ++ h.bytes ++ rest) (short : data.length < 2 ^ 63)
    (zero : h.namesize.value = 0) : Nameless data before.length where
  header := by
    rw [split, List.length_append, List.length_append, h.bytes_length]
    omega
  magic := by
    rw [split, bytesAt, List.append_assoc, List.drop_left]
    rfl
  namesize := by
    rw [hexAt_header split short (k := 11) rfl, zero]
    rfl
  filesize := by
    rw [hexAt_header split short (k := 6) rfl]
    rfl
  mode := by
    rw [hexAt_header split short (k := 1) rfl]
    rfl

end Header

/-- A header whose name has length zero, and nothing else. -/
def namelessArchive : ByteSlice where
  bytes := (NewcHeader.describing 0 0 0).bytes
  short := by decide +kernel

theorem nameless_archive_panics : new namelessArchive () = .panicked .bounds := by
  have split : namelessArchive.bytes = [] ++ (NewcHeader.describing 0 0 0).bytes ++ [] :=
    (List.append_nil _).symm
  have nameless := nameless_of_header split namelessArchive.short (HexField.value_ofNat (by decide))
  rcases new_ends namelessArchive () with ⟨panics, _⟩ | ⟨named, _⟩
  · exact panics
  · exact absurd nameless (named 0 .refl)

end InitramFs
end ComputeKernel
