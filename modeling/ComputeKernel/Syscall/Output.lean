import ComputeKernel.Support.Utf8
import ComputeKernel.Syscall.PseudoFiles

/-! What reaches the serial line and the screen of the bytes that are written. The console
forwards the bytes of a call when they are text, and `/dev/ttyS0` sends each byte as the
character of its code. -/
namespace ComputeKernel.Kernel
open Checked (Exec)
open Vga (Writer)

variable {k : Kernel}

/-! The serial device. -/

theorem asChar_eq (byte : UInt8) : asChar byte = Char.ofUInt8 byte := by
  have small := byte.toNat_lt
  have valid : byte.toNat.isValidChar := Or.inl (by omega)
  rw [asChar, Char.ofNat, dif_pos valid]
  rfl

/-- The code hands the serial driver a text that is encoded as the bytes, and returns the
number of bytes of it. -/
def Transparent (m : Exec Kernel α) (counted : Nat → α) (bytes : List UInt8) (k : Kernel) : Prop :=
  ∃ text k', m k = .done (counted (Utf8.encode text).length) k' ∧ k'.serial = k.serial ++ text ∧
    Utf8.encode text = bytes

theorem transparent_iff {m : Exec Kernel α} {counted : Nat → α} {bytes : List UInt8}
    (ran : m k = .done (counted bytes.length) { k with serial := k.serial ++ bytes.map asChar }) :
    Transparent m counted bytes k ↔ ∀ byte ∈ bytes, byte < 0x80 := by
  have chars : bytes.map asChar = bytes.map Char.ofUInt8 := List.map_congr_left (fun byte _ => asChar_eq byte)
  rw [chars] at ran
  rw [← Utf8.encode_bytes_iff]
  constructor
  · rintro ⟨text, k', ran', sent, encoded⟩
    rw [ran] at ran'
    obtain ⟨_, rfl⟩ := Checked.Outcome.done.inj ran'
    rw [List.append_cancel_left sent]
    exact encoded
  · intro encoded
    refine ⟨_, { k with serial := k.serial ++ bytes.map Char.ofUInt8 }, ?_, rfl, encoded⟩
    rw [ran, encoded]

theorem sysWrite_tty {fd : Int32} {offset : UInt64} (opened : k.OpenOn fd ⟨.devTtyS0, offset⟩)
    {buf : UInt64} {bytes : List UInt8} (buffer : k.Buffer buf bytes) :
    sysWrite fd buf (UInt64.ofNat bytes.length) k =
      .done (bytes.length : Int) { k with serial := k.serial ++ bytes.map asChar } := by
  have count := toNat_length buffer.small
  by_cases empty : bytes = []
  · subst empty
    rw [List.map_nil, List.append_nil]
    rfl
  · have read := readBytes_of_holds buffer.held
    rw [← count] at read
    rw [sysWrite_of_openOn opened buffer empty, writeNode, Exec.bind_of_done read,
      Exec.bind_of_done (forEach_serialPrint bytes k), Exec.ret_run, count, asI64_of_lt buffer.small]

theorem devFs_write_tty {inode : Inode} (device : inode.inodeNum = 5) (offset : UInt64)
    (bytes : List UInt8) :
    DevFs.write inode offset bytes k =
      .done (.ok bytes.length) { k with serial := k.serial ++ bytes.map asChar } := by
  unfold DevFs.write
  rw [device, if_neg (by decide), if_neg (by decide), if_neg (by decide), if_pos rfl,
    Exec.bind_of_done (forEach_serialPrint bytes k), Exec.ret_run]

/-- Bytes written to `/dev/ttyS0` are transmitted as they are exactly when they are ASCII,
through the system call and through the filesystem. -/
theorem tty_transparent_iff {fd : Int32} {start : UInt64} (opened : k.OpenOn fd ⟨.devTtyS0, start⟩)
    {buf : UInt64} {bytes : List UInt8} (buffer : k.Buffer buf bytes)
    {inode : Inode} (device : inode.inodeNum = 5) (offset : UInt64) :
    (Transparent (sysWrite fd buf (UInt64.ofNat bytes.length)) (fun n => (n : Int)) bytes k ↔
      ∀ byte ∈ bytes, byte < 0x80) ∧
    (Transparent (DevFs.write inode offset bytes) Except.ok bytes k ↔
      ∀ byte ∈ bytes, byte < 0x80) :=
  ⟨transparent_iff (sysWrite_tty opened buffer),
    transparent_iff (devFs_write_tty device offset bytes)⟩

/-- A kernel with `/dev/ttyS0` open and user memory full of one byte. -/
def ttyOpen (byte : UInt8) : Kernel :=
  { booted with
    fdTable := [some ⟨.devTtyS0, 0⟩]
    memory := fun _ => some byte }

theorem ttyOpen_openOn (byte : UInt8) : (ttyOpen byte).OpenOn 3 ⟨.devTtyS0, 0⟩ := ⟨0, rfl, rfl⟩

theorem ttyOpen_buffer (byte : UInt8) : (ttyOpen byte).Buffer 4096 [byte] where
  nonnull := by decide
  small := by rw [List.length_singleton]; decide
  held := by
    intro i inside
    rw [Nat.lt_one_iff.mp inside]
    rfl

theorem tty_transparent_ascii :
    Transparent (sysWrite 3 4096 1) (fun n => (n : Int)) [0x41] (ttyOpen 0x41) ∧
      Transparent (DevFs.write (DevFs.device 5 0x1b0) 0 [0x41]) Except.ok [0x41] (ttyOpen 0x41) := by
  have both := tty_transparent_iff (ttyOpen_openOn 0x41) (ttyOpen_buffer 0x41)
    (rfl : (DevFs.device 5 0x1b0).inodeNum = 5) 0
  have ascii : ∀ byte ∈ [(0x41 : UInt8)], byte < 0x80 := by
    intro byte member
    rw [List.mem_singleton.mp member]
    decide
  exact ⟨both.1.mpr ascii, both.2.mpr ascii⟩

/-- One byte is written, one is reported, and two are sent. -/
theorem high_byte_sent_as_two :
    (∃ k', sysWrite 3 4096 1 (ttyOpen 0xe9) = .done 1 k' ∧ Utf8.encode k'.serial = [0xc3, 0xa9]) ∧
      ∃ k', DevFs.write (DevFs.device 5 0x1b0) 0 [0xe9] (ttyOpen 0xe9) = .done (.ok 1) k' ∧
        Utf8.encode k'.serial = [0xc3, 0xa9] :=
  ⟨⟨_, rfl, by decide⟩, _, rfl, by decide⟩

/-! The console. -/

/-- A write of the bytes that stand at an address. -/
structure Chunk where
  fd : Int32
  buf : UInt64
  bytes : List UInt8

def Chunk.write (c : Chunk) : Exec Kernel Int := sysWrite c.fd c.buf (UInt64.ofNat c.bytes.length)

/-- The write goes to the console, and the bytes are there. -/
structure Chunk.Ready (c : Chunk) (k : Kernel) : Prop where
  console : c.fd = 1 ∨ c.fd = 2
  buffer : k.Buffer c.buf c.bytes

/-- A text has been forwarded to the serial port and to the writer of the screen, and `n` is
the number of its bytes. -/
def Forwards (n : Int) (k k' : Kernel) : Prop :=
  ∃ text : List Char, k'.serial = k.serial ++ text ∧
    Writer.writeString (Utf8.encode text) k.screen = .done () k'.screen ∧
    n = (Utf8.encode text).length

/-- Every one of the writes returns the number of bytes that it forwards. -/
def EachForwards : List Chunk → Kernel → Prop
  | [], _ => True
  | c :: rest, k => ∃ n k', c.write k = .done n k' ∧ Forwards n k k' ∧ EachForwards rest k'

def writeAll (chunks : List Chunk) : Exec Kernel Unit :=
  Exec.forEach chunks (fun c => c.write >>= fun _ => Exec.ret ())

/-- Written in pieces, the bytes reach the serial port and the screen as they do when they
are written at once, and every piece is forwarded as it is reported. -/
def CutAnyhow (whole : Chunk) (pieces : List Chunk) (k : Kernel) : Prop :=
  (∃ n k₁ k₂, whole.write k = .done n k₁ ∧ writeAll pieces k = .done () k₂ ∧
    k₂.serial = k₁.serial ∧ k₂.screen = k₁.screen) ∧
  EachForwards pieces k

/-- The kernel after a text has been forwarded. -/
def printed (k : Kernel) (text : List Char) (screen : Writer) : Kernel :=
  { k with serial := k.serial ++ text, screen }

theorem fromUtf8_eq_some_iff {bytes : List UInt8} {text : String} :
    fromUtf8 bytes = some text ↔ Utf8.encode text.toList = bytes := Utf8.fromUTF8?_eq_some_iff

theorem sysWrite_console {c : Chunk} (ready : c.Ready k) (nonempty : c.bytes ≠ []) :
    c.write k = writeConsole c.buf (UInt64.ofNat c.bytes.length) k := by
  unfold Chunk.write sysWrite
  rw [if_neg (length_ne_zero ready.buffer.small nonempty), if_neg ready.buffer.nonnull,
    if_pos ready.console]

theorem writeConsole_read {c : Chunk} (ready : c.Ready k) :
    (fromRawParts c.buf (UInt64.ofNat c.bytes.length) k = .done () k) ∧
      readBytes c.buf (UInt64.ofNat c.bytes.length).toNat k = .done c.bytes k ∧
      asI64 (UInt64.ofNat c.bytes.length).toNat = c.bytes.length := by
  have count := toNat_length ready.buffer.small
  have small := ready.buffer.small
  rw [count]
  exact ⟨fromRawParts_done (by omega) k, readBytes_of_holds ready.buffer.held, asI64_of_lt small⟩

/-- Text is forwarded. -/
theorem write_of_text {c : Chunk} (ready : c.Ready k) {text : String}
    (decoded : fromUtf8 c.bytes = some text) {screen : Writer}
    (shown : Writer.writeString c.bytes k.screen = .done () screen) :
    c.write k = .done (c.bytes.length : Int) (k.printed text.toList screen) := by
  by_cases empty : c.bytes = []
  · have none_ : text.toList = [] := by
      have encoded := fromUtf8_eq_some_iff.mp decoded
      have size := Utf8.length_le_encode text.toList
      rw [encoded, empty, List.length_nil, Nat.le_zero, List.length_eq_zero_iff] at size
      exact size
    rw [empty] at shown
    cases shown
    unfold Chunk.write printed
    rw [none_, empty, List.append_nil]
    rfl
  · obtain ⟨sliced, read, count⟩ := writeConsole_read ready
    have drawn : onScreen (Writer.writeString c.bytes) { k with serial := k.serial ++ text.toList } =
        .done () (k.printed text.toList screen) := Exec.zoom_of_done _ shown
    have onto : kprint c.bytes { k with serial := k.serial ++ text.toList } =
        .done () (k.printed text.toList screen) := Exec.bind_of_done drawn
    rw [sysWrite_console ready empty, writeConsole, Exec.bind_of_done sliced, Exec.bind_of_done read,
      decoded, count]
    change (serialPrint text.toList >>= fun _ => kprint c.bytes >>= fun _ => Exec.ret _) k = _
    rw [Exec.bind_of_done (rfl : serialPrint text.toList k = .done () _), Exec.bind_of_done onto,
      Exec.ret_run]

/-- What is no text is dropped, and reported as written. -/
theorem write_of_no_text {c : Chunk} (ready : c.Ready k) (nonempty : c.bytes ≠ [])
    (undecoded : fromUtf8 c.bytes = none) : c.write k = .done (c.bytes.length : Int) k := by
  obtain ⟨sliced, read, count⟩ := writeConsole_read ready
  rw [sysWrite_console ready nonempty, writeConsole, Exec.bind_of_done sliced,
    Exec.bind_of_done read, undecoded, count]
  rfl

theorem Chunk.Ready.printed {c : Chunk} (ready : c.Ready k) (text : List Char) (screen : Writer) :
    c.Ready (k.printed text screen) where
  console := ready.console
  buffer := ⟨ready.buffer.nonnull, ready.buffer.small, ready.buffer.held⟩

theorem writeString_append (first second : List UInt8) {w w' : Writer}
    (shown : Writer.writeString first w = .done () w') :
    Writer.writeString (first ++ second) w = Writer.writeString second w' := by
  unfold Writer.writeString
  rw [Exec.forEach_append]
  exact Exec.bind_of_done shown

theorem writeAll_cons {c : Chunk} {rest : List Chunk} {n : Int} {k' : Kernel}
    (ran : c.write k = .done n k') : writeAll (c :: rest) k = writeAll rest k' := by
  have first : (c.write >>= fun _ => Exec.ret ()) k = .done () k' := by
    rw [Exec.bind_of_done ran, Exec.ret_run]
  exact Exec.bind_of_done first

/-- Pieces that are all text are forwarded one after another. -/
theorem writeAll_of_text {pieces : List Chunk} (ready : ∀ c ∈ pieces, c.Ready k)
    (onScreen : k.screen.OnScreen) (decoded : ∀ c ∈ pieces, (fromUtf8 c.bytes).isSome) :
    EachForwards pieces k ∧ ∃ text screen, writeAll pieces k = .done () (k.printed text screen) ∧
      Utf8.encode text = (pieces.map Chunk.bytes).flatten ∧
      Writer.writeString (pieces.map Chunk.bytes).flatten k.screen = .done () screen := by
  induction pieces generalizing k with
  | nil =>
      refine ⟨trivial, [], k.screen, ?_, rfl, rfl⟩
      unfold printed
      rw [List.append_nil]
      rfl
  | cons c rest ih =>
      have ready' := ready c List.mem_cons_self
      obtain ⟨text, found⟩ := Option.isSome_iff_exists.mp (decoded c List.mem_cons_self)
      have encoded := fromUtf8_eq_some_iff.mp found
      obtain ⟨_, screen, shown, kept⟩ := Writer.writeString_keeps c.bytes k.screen onScreen
      have ran := write_of_text ready' found shown
      have later : ∀ d ∈ rest, d.Ready (k.printed text.toList screen) :=
        fun d member => (ready d (List.mem_cons_of_mem c member)).printed _ _
      obtain ⟨forwarded, text', screen', ran', encoded', shown'⟩ :=
        ih later kept (fun d member => decoded d (List.mem_cons_of_mem c member))
      refine ⟨⟨_, _, ran, ⟨text.toList, rfl, ?_, ?_⟩, forwarded⟩, text.toList ++ text', screen', ?_, ?_, ?_⟩
      · rw [encoded]
        exact shown
      · rw [encoded]
      · rw [writeAll_cons ran, ran']
        unfold printed
        rw [List.append_assoc]
      · rw [Utf8.encode_append, encoded, encoded', List.map_cons, List.flatten_cons]
      · rw [List.map_cons, List.flatten_cons, writeString_append _ _ shown]
        exact shown'

/-- A piece that is no text is reported and not forwarded. -/
theorem text_of_forwards {pieces : List Chunk} (ready : ∀ c ∈ pieces, c.Ready k)
    (nonempty : ∀ c ∈ pieces, c.bytes ≠ []) (onScreen : k.screen.OnScreen)
    (forwarded : EachForwards pieces k) : ∀ c ∈ pieces, (fromUtf8 c.bytes).isSome := by
  induction pieces generalizing k with
  | nil => exact nofun
  | cons c rest ih =>
      obtain ⟨n, k', ran, ⟨sent, appended, _, counted⟩, others⟩ := forwarded
      have ready' := ready c List.mem_cons_self
      have nonempty' := nonempty c List.mem_cons_self
      cases found : fromUtf8 c.bytes with
      | none =>
          rw [write_of_no_text ready' nonempty' found] at ran
          obtain ⟨rfl, rfl⟩ := Checked.Outcome.done.inj ran
          have nothing : sent = [] := List.self_eq_append_right.mp appended
          rw [nothing] at counted
          have size := List.length_pos_iff.mpr nonempty'
          change (c.bytes.length : Int) = 0 at counted
          omega
      | some text =>
          obtain ⟨_, screen, shown, kept⟩ := Writer.writeString_keeps c.bytes k.screen onScreen
          rw [write_of_text ready' found shown] at ran
          obtain ⟨_, rfl⟩ := Checked.Outcome.done.inj ran
          have later : ∀ d ∈ rest, d.Ready (k.printed text.toList screen) :=
            fun d member => (ready d (List.mem_cons_of_mem c member)).printed _ _
          intro d member
          rcases List.mem_cons.mp member with rfl | member
          · rw [found]
            rfl
          · exact ih later (fun e inside => nonempty e (List.mem_cons_of_mem c inside)) kept others d member

/-- Text may be cut into writes to the console exactly where no character is cut. -/
theorem cut_anyhow_iff {whole : Chunk} {pieces : List Chunk} (onScreen : k.screen.OnScreen)
    (ready : whole.Ready k) (readyPieces : ∀ c ∈ pieces, c.Ready k)
    (nonempty : ∀ c ∈ pieces, c.bytes ≠ []) (split : (pieces.map Chunk.bytes).flatten = whole.bytes)
    (text : (fromUtf8 whole.bytes).isSome) :
    CutAnyhow whole pieces k ↔ ∀ c ∈ pieces, (fromUtf8 c.bytes).isSome := by
  constructor
  · exact fun cut => text_of_forwards readyPieces nonempty onScreen cut.2
  · intro decoded
    obtain ⟨forwarded, sent, screen, ran, encoded, shown⟩ :=
      writeAll_of_text readyPieces onScreen decoded
    rw [split] at encoded shown
    obtain ⟨whole_, found⟩ := Option.isSome_iff_exists.mp text
    have same : whole_ = String.ofList sent := by
      have again : fromUtf8 whole.bytes = some (String.ofList sent) := by
        rw [fromUtf8_eq_some_iff, String.toList_ofList]
        exact encoded
      rw [found] at again
      exact Option.some.inj again
    rw [same] at found
    refine ⟨⟨_, _, _, write_of_text ready found shown, ran, ?_, rfl⟩, forwarded⟩
    unfold printed
    rw [String.toList_ofList]

/-- A kernel with the two bytes of an accented letter in user memory. -/
def accented : Kernel := { booted with memory := Memory.store (fun _ => none) 4096 [0xc3, 0xa9] }

theorem accented_buffer : accented.Buffer 4096 [0xc3, 0xa9] where
  nonnull := by decide
  small := by decide
  held := Memory.holds_store (by decide)

theorem accented_first : accented.Buffer 4096 [0xc3] where
  nonnull := by decide
  small := by decide
  held := by
    intro i inside
    rw [Nat.lt_one_iff.mp inside]
    exact accented_buffer.held 0 (by decide)

theorem accented_second : accented.Buffer 4097 [0xa9] where
  nonnull := by decide
  small := by decide
  held := (Memory.holds_cons.mp accented_buffer.held).2

theorem accented_onScreen : accented.screen.OnScreen := Writer.initial_onScreen _

/-- A kernel with an accented letter and a plain one in user memory. -/
def accentedWord : Kernel :=
  { booted with memory := Memory.store (fun _ => none) 4096 [0xc3, 0xa9, 0x61] }

theorem accentedWord_held : Memory.Holds accentedWord.memory 4096 [0xc3, 0xa9, 0x61] :=
  Memory.holds_store (by decide)

theorem accentedWord_letter : accentedWord.Buffer 4096 [0xc3, 0xa9] where
  nonnull := by decide
  small := by decide
  held := by
    intro i inside
    have below : i < 2 := inside
    rcases i with _ | _ | i
    · exact accentedWord_held 0 (by decide)
    · exact accentedWord_held 1 (by decide)
    · omega

theorem accentedWord_plain : accentedWord.Buffer 4098 [0x61] where
  nonnull := by decide
  small := by decide
  held := (Memory.holds_cons.mp (Memory.holds_cons.mp accentedWord_held).2).2

theorem accentedWord_whole : accentedWord.Buffer 4096 [0xc3, 0xa9, 0x61] :=
  ⟨by decide, by decide, accentedWord_held⟩

/-- The word may be written letter by letter. -/
theorem cut_anyhow_letters :
    CutAnyhow ⟨1, 4096, [0xc3, 0xa9, 0x61]⟩ [⟨2, 4096, [0xc3, 0xa9]⟩, ⟨1, 4098, [0x61]⟩] accentedWord := by
  have text : (fromUtf8 [0xc3, 0xa9, 0x61]).isSome := by decide +kernel
  refine (cut_anyhow_iff (Writer.initial_onScreen _) ⟨.inl rfl, accentedWord_whole⟩ ?_ ?_ rfl text).mpr ?_
  · exact List.forall_mem_cons.mpr ⟨⟨.inr rfl, accentedWord_letter⟩,
      List.forall_mem_singleton.mpr ⟨.inl rfl, accentedWord_plain⟩⟩
  · exact List.forall_mem_cons.mpr ⟨by decide, List.forall_mem_singleton.mpr (by decide)⟩
  · exact List.forall_mem_cons.mpr ⟨by decide +kernel, List.forall_mem_singleton.mpr (by decide +kernel)⟩

/-- Written at once the letter is forwarded; written byte by byte it is not, and both
writes report success. -/
theorem cut_letter_dropped :
    (∃ k', (⟨1, 4096, [0xc3, 0xa9]⟩ : Chunk).write accented = .done 2 k' ∧ k'.serial = ['é']) ∧
      (⟨1, 4096, [0xc3]⟩ : Chunk).write accented = .done 1 accented ∧
      (⟨1, 4097, [0xa9]⟩ : Chunk).write accented = .done 1 accented ∧ accented.serial = [] := by
  have decoded : fromUtf8 [0xc3, 0xa9] = some (String.ofList ['é']) := by
    rw [fromUtf8_eq_some_iff, String.toList_ofList]
    decide
  obtain ⟨_, screen, shown, _⟩ :=
    Writer.writeString_keeps [0xc3, 0xa9] accented.screen accented_onScreen
  have whole : Chunk.Ready ⟨1, 4096, [0xc3, 0xa9]⟩ accented := ⟨.inl rfl, accented_buffer⟩
  have first : Chunk.Ready ⟨1, 4096, [0xc3]⟩ accented := ⟨.inl rfl, accented_first⟩
  have second : Chunk.Ready ⟨1, 4097, [0xa9]⟩ accented := ⟨.inl rfl, accented_second⟩
  refine ⟨⟨_, write_of_text whole decoded shown, ?_⟩, ?_, ?_, rfl⟩
  · change [] ++ (String.ofList ['é']).toList = ['é']
    rw [String.toList_ofList, List.nil_append]
  · exact write_of_no_text first (by decide) (by decide +kernel)
  · exact write_of_no_text second (by decide) (by decide +kernel)

end ComputeKernel.Kernel
