import ComputeKernel.Support.Utf8
import ComputeKernel.Shell.Commands

/-! What the shell makes of a line. A line is run only if its bytes are UTF-8, and then
as its text reads, whatever blanks surround the words. -/
namespace ComputeKernel.Shell
open Checked (Exec)
open Words (Reads)

/-- The words that name a command of their own. -/
def builtIns : List String :=
  ["help", "clear", "echo", "uname", "version", "ps", "uptime", "halt", "poweroff", "reboot"]

/-- A first word and its argument ask for a command. -/
inductive Names : String → String → Command → Prop
  | help (args : String) : Names "help" args .help
  | clear (args : String) : Names "clear" args .clear
  | echo (args : String) : Names "echo" args (.echo args)
  | uname (args : String) : Names "uname" args .uname
  | version (args : String) : Names "version" args .version
  | ps (args : String) : Names "ps" args .ps
  | uptime (args : String) : Names "uptime" args .uptime
  | halt (args : String) : Names "halt" args .halt
  | poweroff (args : String) : Names "poweroff" args .halt
  | reboot (args : String) : Names "reboot" args .reboot
  | unknown {word : String} (args : String) (other : word ∉ builtIns) :
      Names word args (.unknown word)

/-- The bytes spell a text that asks for a command. -/
def Spells (raw : List UInt8) (command : Command) : Prop :=
  ∃ text word args, Utf8.encode text = raw ∧ Reads isWhitespace ' ' text word args ∧
    Names (String.ofList word) (String.ofList args) command

/-- The bytes are not UTF-8, or there is nothing but blanks in the text. -/
def Blank (raw : List UInt8) : Prop := ∀ text, Utf8.encode text = raw → ∀ c ∈ text, isWhitespace c

section Names

variable {word args : String} {command : Command}

theorem exists_names (word args : String) : ∃ command, Names word args command := by
  by_cases known : word ∈ builtIns
  · simp only [builtIns, List.mem_cons, List.not_mem_nil, or_false] at known
    rcases known with rfl | rfl | rfl | rfl | rfl | rfl | rfl | rfl | rfl | rfl
    · exact ⟨_, .help args⟩
    · exact ⟨_, .clear args⟩
    · exact ⟨_, .echo args⟩
    · exact ⟨_, .uname args⟩
    · exact ⟨_, .version args⟩
    · exact ⟨_, .ps args⟩
    · exact ⟨_, .uptime args⟩
    · exact ⟨_, .halt args⟩
    · exact ⟨_, .poweroff args⟩
    · exact ⟨_, .reboot args⟩
  · exact ⟨_, .unknown args known⟩

theorem Names.unique {other : Command} (names : Names word args command)
    (names' : Names word args other) : other = command := by
  generalize same : word = word' at names'
  cases names with
  | unknown _ missing =>
      cases names' with
      | unknown => rw [same]
      | _ => exact absurd (by rw [same]; decide) missing
  | _ =>
      cases names' with
      | unknown _ missing => exact absurd (by rw [← same]; decide) missing
      | _ => first | rfl | exact absurd same (by decide)

/-- The `match` in `execute` calls the function of the command that is named. -/
theorem Names.dispatch_eq (names : Names word args command) : dispatch word args = command.run := by
  cases names with
  | unknown _ missing =>
      simp only [builtIns, List.mem_cons, List.not_mem_nil, or_false, not_or] at missing
      obtain ⟨help, clear, echo, uname, version, ps, uptime, halt, poweroff, reboot⟩ := missing
      simp only [dispatch, if_neg help, if_neg clear, if_neg echo, if_neg uname, if_neg version,
        if_neg ps, if_neg uptime, if_neg (not_or.mpr ⟨halt, poweroff⟩), if_neg reboot]
      rfl
  | _ => simp [dispatch, Command.run]

end Names

section Lines

variable {raw : List UInt8} {command : Command}

theorem decode_encode (text : List Char) : decode (Utf8.encode text) = text := by
  have decoded : String.fromUTF8? (ByteArray.mk (Utf8.encode text).toArray) =
      some (String.ofList text) := by
    rw [Utf8.fromUTF8?_eq_some_iff, String.toList_ofList]
  rw [decode, decoded]
  exact String.toList_ofList

/-- Bytes that are not UTF-8 are taken for an empty line. -/
theorem decode_of_invalid (invalid : ∀ text, Utf8.encode text ≠ raw) : decode raw = [] := by
  unfold decode
  cases decoded : String.fromUTF8? (ByteArray.mk raw.toArray) with
  | none => rfl
  | some text => exact absurd (Utf8.fromUTF8?_eq_some_iff.mp decoded) (invalid text.toList)

theorem blank_iff : Blank raw ↔ trim (decode raw) = [] := by
  by_cases valid : ∃ text, Utf8.encode text = raw
  · obtain ⟨text, rfl⟩ := valid
    rw [decode_encode, trim, Words.trim_eq_nil_iff]
    constructor
    · exact fun blank => blank text rfl
    · intro blanks other same
      rwa [← decode_encode other, same, decode_encode]
  · have invalid (text : List Char) : Utf8.encode text ≠ raw := fun encoded => valid ⟨text, encoded⟩
    rw [decode_of_invalid invalid]
    exact iff_of_true (fun text encoded => absurd encoded (invalid text)) rfl

/-- The words that the code finds are those that the line spells. -/
theorem Spells.words (spells : Spells raw command) : trim (decode raw) ≠ [] ∧
    Names (String.ofList (words (trim (decode raw))).1) (String.ofList (words (trim (decode raw))).2)
      command := by
  obtain ⟨text, word, args, rfl, reads, names⟩ := spells
  obtain ⟨some_, found⟩ := reads.words_eq
  rw [decode_encode]
  refine ⟨some_, ?_⟩
  unfold Shell.words trim
  rw [found]
  exact names

theorem Spells.unique {other : Command} (spells : Spells raw command) (spells' : Spells raw other) :
    other = command := spells.words.2.unique spells'.words.2

theorem Spells.not_blank (spells : Spells raw command) : ¬Blank raw := by
  rw [blank_iff]
  exact spells.words.1

theorem exists_spells (something : ¬Blank raw) : ∃ command, Spells raw command := by
  have blankSpace : isWhitespace ' ' = true := by decide
  have valid : ∃ text, Utf8.encode text = raw := by
    by_contra invalid
    exact something (fun text encoded => absurd ⟨text, encoded⟩ invalid)
  obtain ⟨text, rfl⟩ := valid
  rw [blank_iff, decode_encode] at something
  obtain ⟨command, names⟩ := exists_names
    (String.ofList (Words.words isWhitespace ' ' (trim text)).1)
    (String.ofList (Words.words isWhitespace ' ' (trim text)).2)
  exact ⟨command, text, _, _, rfl, Words.reads_words blankSpace something, names⟩

theorem execute_of_blank (blank : Blank raw) : execute raw = Exec.ret () := by
  unfold execute
  rw [blank_iff.mp blank]
  rfl

theorem Spells.execute_eq (spells : Spells raw command) : execute raw = command.run := by
  obtain ⟨some_, names⟩ := spells.words
  have filled : ¬(trim (decode raw)).isEmpty = true := by rwa [List.isEmpty_iff]
  unfold execute
  simp only [if_neg filled]
  exact names.dispatch_eq

end Lines

/-- A line is run as the one command that it spells. No other line is run: it is not UTF-8,
or it is blank. -/
theorem execute_runs_what_is_spelled (raw : List UInt8) :
    (Blank raw ∧ execute raw = Exec.ret () ∧ ∀ command, ¬Spells raw command) ∨
      (¬Blank raw ∧ ∃ command, Spells raw command ∧ execute raw = command.run ∧
        ∀ other, Spells raw other → other = command) := by
  by_cases blank : Blank raw
  · exact .inl ⟨blank, execute_of_blank blank, fun _ spells => spells.not_blank blank⟩
  · obtain ⟨command, spells⟩ := exists_spells blank
    exact .inr ⟨blank, command, spells, spells.execute_eq, fun _ spells' => spells.unique spells'⟩

end ComputeKernel.Shell
