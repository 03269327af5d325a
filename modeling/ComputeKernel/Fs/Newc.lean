import Mathlib.Data.Nat.Digits.Lemmas
import ComputeKernel.Support.Utf8
import ComputeKernel.Syscall.UserMemory
import ComputeKernel.Fs.Initramfs

/-! The newc format of cpio archives: what a field, a header, a member and an archive
are as bytes, and what the parser reads from each. -/
namespace ComputeKernel
open Checked (Exec)
open Kernel (fromUtf8 fromUtf8_toByteArray)

/-- Eight hexadecimal digits in either case, the most significant first. -/
structure HexField where
  digits : List UInt8
  eight : digits.length = 8
  hex : ∀ digit ∈ digits, (toDigit digit).isSome

def digitValue (digit : UInt8) : Nat := (toDigit digit).getD 0

def HexField.value (f : HexField) : Nat := Nat.ofDigits 16 (f.digits.map digitValue).reverse

/-- The fields of a header in the order of the format. -/
structure NewcHeader where
  ino : HexField
  mode : HexField
  uid : HexField
  gid : HexField
  nlink : HexField
  mtime : HexField
  filesize : HexField
  devmajor : HexField
  devminor : HexField
  rdevmajor : HexField
  rdevminor : HexField
  namesize : HexField
  check : HexField

def NewcHeader.fields (h : NewcHeader) : List HexField :=
  [h.ino, h.mode, h.uid, h.gid, h.nlink, h.mtime, h.filesize, h.devmajor, h.devminor, h.rdevmajor,
    h.rdevminor, h.namesize, h.check]

def NewcHeader.bytes (h : NewcHeader) : List UInt8 :=
  cpioNewcMagic ++ h.fields.flatMap HexField.digits

/-- A file with the paths that an archive can hold. -/
structure CpioFile where
  path : String
  mode : UInt32
  contents : List UInt8
  named : path ≠ ""
  relative : path.toList.head? ≠ some '/'
  notTrailer : path ≠ "TRAILER!!!"

def pathBytes (path : String) : List UInt8 := path.toByteArray.data.toList

/-- A file and a header that describes it. -/
structure Member where
  file : CpioFile
  header : NewcHeader
  mode : header.mode.value = file.mode.toNat
  filesize : header.filesize.value = file.contents.length
  namesize : header.namesize.value = (pathBytes file.path).length + 1

/-- Zeros up to a multiple of four. -/
def padding (length : Nat) : List UInt8 := List.replicate ((4 - length % 4) % 4) 0

def NewcHeader.named (h : NewcHeader) (path : String) : List UInt8 := h.bytes ++ pathBytes path ++ [0]

def Member.record (m : Member) : List UInt8 :=
  m.header.named m.file.path ++ padding (m.header.named m.file.path).length ++
    m.file.contents ++ padding m.file.contents.length

/-- The header of the record that ends an archive. -/
structure Trailer where
  header : NewcHeader
  namesize : header.namesize.value = (pathBytes "TRAILER!!!").length + 1

def archive (members : List Member) (trailer : Trailer) (trailing : List UInt8) : List UInt8 :=
  members.flatMap Member.record ++ trailer.header.named "TRAILER!!!" ++ trailing

section Fields

variable {σ : Type}

theorem toDigit_some {byte : UInt8} {digit : Nat} (h : toDigit byte = some digit) :
    digit < 16 ∧ byte.toNat < 0x80 := by
  simp only [toDigit, UInt8.le_iff_toNat_le] at h
  split at h
  · next range =>
      cases h
      have high : byte.toNat ≤ 0x39 := range.2
      omega
  split at h
  · next range =>
      cases h
      have high : byte.toNat ≤ 0x46 := range.2
      omega
  split at h
  · next range =>
      cases h
      have high : byte.toNat ≤ 0x66 := range.2
      omega
  · cases h

/-- The digit loop reads a number whose digits fit into 32 bits. -/
theorem radixDigits_eq {digits : List UInt8} (hex : ∀ digit ∈ digits, (toDigit digit).isSome)
    (acc : Nat) (fits : (acc + 1) * 16 ^ digits.length ≤ 2 ^ 32) :
    radixDigits acc digits =
      some (acc * 16 ^ digits.length + Nat.ofDigits 16 (digits.map digitValue).reverse) := by
  induction digits generalizing acc with
  | nil => simp [radixDigits]
  | cons byte digits ih =>
      obtain ⟨digit, read⟩ := Option.isSome_iff_exists.mp (hex byte List.mem_cons_self)
      have small := (toDigit_some read).1
      have value : digitValue byte = digit := by rw [digitValue, read, Option.getD_some]
      rw [List.length_cons, Nat.pow_succ'] at fits
      have positive : 0 < 16 ^ digits.length := Nat.pow_pos (by decide)
      have below : (acc * 16 + digit + 1) * 16 ^ digits.length ≤ 2 ^ 32 := by
        refine Nat.le_trans (Nat.mul_le_mul_right _ (by omega : _ ≤ (acc + 1) * 16)) ?_
        rwa [Nat.mul_assoc]
      have word : acc * 16 + digit < 2 ^ 32 := by
        have := Nat.le_mul_of_pos_right (acc * 16 + digit + 1) positive
        omega
      rw [radixDigits, read]
      dsimp only
      rw [if_pos word, ih (fun other member => hex other (List.mem_cons_of_mem byte member)) _ below,
        List.map_cons, Nat.ofDigits_reverse_cons, value, List.length_map, List.length_cons,
        Nat.pow_succ']
      congr 1
      ring

theorem HexField.value_lt (f : HexField) : f.value < 2 ^ 32 := by
  have bound := Nat.ofDigits_lt_base_pow_length (by decide : 1 < 16)
    (l := (f.digits.map digitValue).reverse) (by
      intro digit member
      rw [List.mem_reverse, List.mem_map] at member
      obtain ⟨byte, member, rfl⟩ := member
      obtain ⟨digit, read⟩ := Option.isSome_iff_exists.mp (f.hex byte member)
      rw [digitValue, read]
      exact (toDigit_some read).1)
  rw [List.length_reverse, List.length_map, f.eight] at bound
  exact bound

/-- A text of digits is UTF-8, and so it is with a sign in front. -/
theorem fromUtf8_of_ascii {bytes : List UInt8} (ascii : ∀ byte ∈ bytes, byte < 0x80) :
    ∃ text, fromUtf8 bytes = some text := by
  have text := fromUtf8_toByteArray (String.ofList (bytes.map Char.ofUInt8))
  rw [Utf8.toByteArray_ofList ascii] at text
  exact ⟨_, text⟩

theorem ascii_of_hex {bytes : List UInt8} (hex : ∀ byte ∈ bytes, (toDigit byte).isSome) :
    ∀ byte ∈ bytes, byte < 0x80 := by
  intro byte member
  obtain ⟨value, read⟩ := Option.isSome_iff_exists.mp (hex byte member)
  exact UInt8.lt_iff_toNat_lt.mpr (toDigit_some read).2

theorem HexField.parse (f : HexField) : parseHex8 f.digits = some (UInt32.ofNat f.value) := by
  obtain ⟨_, text⟩ := fromUtf8_of_ascii (ascii_of_hex f.hex)
  have number := radixDigits_eq f.hex 0 (by rw [f.eight]; decide)
  rw [Nat.zero_mul, Nat.zero_add] at number
  rw [parseHex8, text]
  dsimp only
  unfold fromStrRadix
  cases digits : f.digits with
  | nil =>
      have eight := f.eight
      rw [digits] at eight
      cases eight
  | cons digit rest =>
      have unsigned : digit ≠ 0x2b := by
        rintro rfl
        have sign := f.hex 0x2b (by rw [digits]; exact List.mem_cons_self)
        exact absurd sign (by decide)
      dsimp only
      rw [if_neg unsigned, ← digits, number]
      rfl

/-- An ASCII hexadecimal digit of either case. -/
def HexDigit (byte : UInt8) : Prop :=
  (0x30 ≤ byte ∧ byte ≤ 0x39) ∨ (0x41 ≤ byte ∧ byte ≤ 0x46) ∨ (0x61 ≤ byte ∧ byte ≤ 0x66)

theorem toDigit_isSome_iff {byte : UInt8} : (toDigit byte).isSome ↔ HexDigit byte := by
  unfold toDigit HexDigit
  split
  · next decimal => exact iff_of_true rfl (.inl decimal)
  split
  · next upper => exact iff_of_true rfl (.inr (.inl upper))
  split
  · next lower => exact iff_of_true rfl (.inr (.inr lower))
  · next notDecimal notUpper notLower =>
      exact iff_of_false Bool.false_ne_true (by rintro (h | h | h) <;> contradiction)

/-- The digit loop reads nothing but digits. -/
theorem hex_of_radixDigits {digits : List UInt8} {acc value : Nat}
    (read : radixDigits acc digits = some value) : ∀ digit ∈ digits, (toDigit digit).isSome := by
  induction digits generalizing acc with
  | nil =>
      intro digit member
      cases member
  | cons byte digits ih =>
      unfold radixDigits at read
      cases found : toDigit byte with
      | none =>
          rw [found] at read
          cases read
      | some digit =>
          rw [found] at read
          dsimp only at read
          split at read
          · rw [List.forall_mem_cons]
            exact ⟨by rw [found]; rfl, ih read⟩
          · cases read

/-- A sign and then digits only: a number, but no field of the format. -/
def Signed (buf : List UInt8) : Prop := buf.head? = some 0x2b ∧ ∀ byte ∈ buf.tail, HexDigit byte

theorem hex_of_parseHex8 {buf : List UInt8} {value : UInt32} (read : parseHex8 buf = some value) :
    (∀ byte ∈ buf, HexDigit byte) ∨ Signed buf := by
  unfold parseHex8 at read
  split at read
  · cases read
  cases buf with
  | nil => cases read
  | cons byte rest =>
      unfold fromStrRadix at read
      dsimp only at read
      split at read
      · next sign =>
          split at read
          · cases read
          obtain ⟨number, digits, _⟩ := Option.map_eq_some_iff.mp read
          refine .inr ⟨congrArg some sign, ?_⟩
          exact fun byte member => toDigit_isSome_iff.mp (hex_of_radixDigits digits byte member)
      · obtain ⟨number, digits, _⟩ := Option.map_eq_some_iff.mp read
        exact .inl (fun byte member => toDigit_isSome_iff.mp (hex_of_radixDigits digits byte member))

/-- The parser takes the sign. -/
theorem parseHex8_of_signed {buf : List UInt8} (eight : buf.length = 8) (signed : Signed buf) :
    ∃ value, parseHex8 buf = some value := by
  obtain ⟨sign, digits⟩ := signed
  obtain ⟨rest, rfl⟩ := List.head?_eq_some_iff.mp sign
  have hex : ∀ byte ∈ rest, (toDigit byte).isSome :=
    fun byte member => toDigit_isSome_iff.mpr (digits byte member)
  have seven : rest.length = 7 := Nat.succ.inj eight
  have nonempty : rest ≠ [] := by
    rintro rfl
    cases seven
  obtain ⟨_, text⟩ := fromUtf8_of_ascii
    (List.forall_mem_cons.mpr ⟨(by decide : (0x2b : UInt8) < 0x80), ascii_of_hex hex⟩)
  rw [parseHex8, text]
  dsimp only
  rw [fromStrRadix, if_pos rfl, if_neg nonempty, radixDigits_eq hex 0 (by rw [seven]; decide)]
  exact ⟨_, rfl⟩

/-- Eight digits are read as the number they stand for. -/
theorem parseHex8_of_hexDigits {buf : List UInt8} (eight : buf.length = 8)
    (digits : ∀ byte ∈ buf, HexDigit byte) (value : UInt32) :
    parseHex8 buf = some value ↔ value.toNat = Nat.ofDigits 16 (buf.map digitValue).reverse := by
  let field : HexField := ⟨buf, eight, fun byte member => toDigit_isSome_iff.mpr (digits byte member)⟩
  have parsed : parseHex8 buf = some (UInt32.ofNat field.value) := field.parse
  have number : (UInt32.ofNat field.value).toNat = field.value :=
    UInt32.toNat_ofNat_of_lt' field.value_lt
  rw [parsed, Option.some_inj, ← UInt32.toNat_inj, number]
  exact eq_comm

/-- The bytes are read as a number exactly when they are a field, and then as its value. -/
def ReadsField (buf : List UInt8) : Prop :=
  ∀ value, parseHex8 buf = some value ↔
    (∀ byte ∈ buf, HexDigit byte) ∧ value.toNat = Nat.ofDigits 16 (buf.map digitValue).reverse

/-- Eight bytes are read as the format has it unless they begin with a sign and go on with
digits. -/
theorem reads_field_iff {buf : List UInt8} (eight : buf.length = 8) :
    ReadsField buf ↔ ¬Signed buf := by
  constructor
  · intro reads signed
    obtain ⟨value, read⟩ := parseHex8_of_signed eight signed
    have digit := ((reads value).mp read).1 0x2b (List.mem_of_head? signed.1)
    exact absurd (toDigit_isSome_iff.mpr digit) (by decide)
  · intro unsigned value
    constructor
    · intro read
      have digits := (hex_of_parseHex8 read).resolve_right unsigned
      exact ⟨digits, (parseHex8_of_hexDigits eight digits value).mp read⟩
    · rintro ⟨digits, number⟩
      exact (parseHex8_of_hexDigits eight digits value).mpr number

/-- The field `0000006e`, the length of a header. -/
theorem reads_field_110 : ReadsField [0x30, 0x30, 0x30, 0x30, 0x30, 0x30, 0x36, 0x65] :=
  (reads_field_iff rfl).mpr (fun signed => absurd signed.1 (by decide))

/-- The text `+0000001` is read as one. -/
theorem signed_field_read :
    parseHex8 [0x2b, 0x30, 0x30, 0x30, 0x30, 0x30, 0x30, 0x31] = some 1 ∧
      ¬HexDigit 0x2b ∧ ¬ReadsField [0x2b, 0x30, 0x30, 0x30, 0x30, 0x30, 0x30, 0x31] := by
  have read : parseHex8 [0x2b, 0x30, 0x30, 0x30, 0x30, 0x30, 0x30, 0x31] = some 1 := by
    decide +kernel
  have sign : ¬HexDigit 0x2b := fun digit => absurd (toDigit_isSome_iff.mpr digit) (by decide)
  refine ⟨read, sign, fun reads => ?_⟩
  exact sign (((reads 1).mp read).1 0x2b List.mem_cons_self)

/-- A digit in upper case. -/
def hexChar (digit : Nat) : UInt8 := UInt8.ofNat (if digit < 10 then 0x30 + digit else 0x37 + digit)

/-- The last digits of a number. -/
def hexDigits : Nat → Nat → List UInt8
  | 0, _ => []
  | width + 1, n => hexDigits width (n / 16) ++ [hexChar (n % 16)]

theorem toDigit_hexChar : ∀ digit < 16, toDigit (hexChar digit) = some digit := by decide

theorem hexDigits_length (width n : Nat) : (hexDigits width n).length = width := by
  induction width generalizing n with
  | zero => rfl
  | succ width ih => rw [hexDigits, List.length_append, ih, List.length_singleton]

theorem hexDigits_hex (width n : Nat) : ∀ digit ∈ hexDigits width n, (toDigit digit).isSome := by
  induction width generalizing n with
  | zero =>
      intro digit member
      cases member
  | succ width ih =>
      intro digit member
      rcases List.mem_append.mp member with earlier | last
      · exact ih (n / 16) digit earlier
      · rw [List.mem_singleton.mp last, toDigit_hexChar _ (Nat.mod_lt n (by decide))]
        rfl

theorem hexDigits_value {width n : Nat} (fits : n < 16 ^ width) :
    Nat.ofDigits 16 ((hexDigits width n).map digitValue).reverse = n := by
  induction width generalizing n with
  | zero =>
      rw [Nat.lt_one_iff.mp fits]
      rfl
  | succ width ih =>
      have rest : n / 16 < 16 ^ width := by
        rw [Nat.div_lt_iff_lt_mul (by decide), ← Nat.pow_succ]
        exact fits
      have last : digitValue (hexChar (n % 16)) = n % 16 := by
        rw [digitValue, toDigit_hexChar _ (Nat.mod_lt n (by decide)), Option.getD_some]
      rw [hexDigits, List.map_append, List.reverse_append, List.map_singleton, List.reverse_singleton,
        List.singleton_append, Nat.ofDigits_cons, ih rest, last]
      exact Nat.mod_add_div n 16

def HexField.ofNat (n : Nat) : HexField where
  digits := hexDigits 8 n
  eight := hexDigits_length 8 n
  hex := hexDigits_hex 8 n

theorem HexField.value_ofNat {n : Nat} (fits : n < 2 ^ 32) : (HexField.ofNat n).value = n :=
  hexDigits_value fits

/-- A header for a file, with nothing in the fields that do not describe it. -/
def NewcHeader.describing (mode filesize namesize : Nat) : NewcHeader where
  ino := HexField.ofNat 0
  mode := HexField.ofNat mode
  uid := HexField.ofNat 0
  gid := HexField.ofNat 0
  nlink := HexField.ofNat 1
  mtime := HexField.ofNat 0
  filesize := HexField.ofNat filesize
  devmajor := HexField.ofNat 0
  devminor := HexField.ofNat 0
  rdevmajor := HexField.ofNat 0
  rdevminor := HexField.ofNat 0
  namesize := HexField.ofNat namesize
  check := HexField.ofNat 0

/-- Every file that the fields have room for can be a member. -/
def Member.ofFile (f : CpioFile) (contents : f.contents.length < 2 ^ 32)
    (name : (pathBytes f.path).length + 1 < 2 ^ 32) : Member where
  file := f
  header := NewcHeader.describing f.mode.toNat f.contents.length ((pathBytes f.path).length + 1)
  mode := HexField.value_ofNat f.mode.toNat_lt
  filesize := HexField.value_ofNat contents
  namesize := HexField.value_ofNat name

def Trailer.standard : Trailer where
  header := NewcHeader.describing 0 0 11
  namesize := HexField.value_ofNat (by decide)

end Fields

section Records

variable {σ : Type} {data before rest : List UInt8}

/-- A part of a block of the data, when a field is read where it stands. -/
theorem field_eq {part block after : List UInt8} {start stop : Nat}
    (split : data = before ++ (block ++ part ++ after) ++ rest) (starts : block.length = start)
    (stops : start + part.length = stop) (short : data.length < 2 ^ 63) (s : σ) :
    InitramFs.field data before.length start stop s = .done part s := by
  have split : data = (before ++ block) ++ part ++ (after ++ rest) := by
    simp only [split, List.append_assoc]
  have length := congrArg List.length split
  simp only [List.length_append] at length
  have first : before.length + start = (before ++ block).length := by
    rw [List.length_append, starts]
  have last : before.length + stop = ((before ++ block) ++ part).length := by
    rw [List.length_append, ← first]
    omega
  unfold InitramFs.field
  rw [Exec.bind_of_done (Exec.usizeAdd_of_lt (by omega) s),
    Exec.bind_of_done (Exec.usizeAdd_of_lt (by omega) s),
    Exec.slice_of_le (by omega) (by omega), first, last, split, List.take_left, List.drop_left]

theorem fields_length (fields : List HexField) :
    (fields.flatMap HexField.digits).length = 8 * fields.length := by
  induction fields with
  | nil => rfl
  | cons field fields ih =>
      rw [List.flatMap_cons, List.length_append, field.eight, ih, List.length_cons]
      omega

theorem NewcHeader.bytes_length (h : NewcHeader) : h.bytes.length = headerSize := by
  rw [NewcHeader.bytes, List.length_append, fields_length]
  rfl

theorem header_magic {h : NewcHeader} (split : data = before ++ h.bytes ++ rest)
    (short : data.length < 2 ^ 63) (s : σ) :
    InitramFs.field data before.length 0 6 s = .done cpioNewcMagic s := by
  have whole : h.bytes = [] ++ cpioNewcMagic ++ h.fields.flatMap HexField.digits := rfl
  rw [whole] at split
  exact field_eq split rfl rfl short s

/-- The fields of a header stand one after another behind the magic number. -/
theorem header_field {h : NewcHeader} (split : data = before ++ h.bytes ++ rest)
    (short : data.length < 2 ^ 63) {k : Nat} {f : HexField} (here : h.fields[k]? = some f) (s : σ) :
    InitramFs.field data before.length (6 + 8 * k) (14 + 8 * k) s = .done f.digits s := by
  obtain ⟨inside, same⟩ := List.getElem?_eq_some_iff.mp here
  have whole : h.bytes = (cpioNewcMagic ++ (h.fields.take k).flatMap HexField.digits) ++ f.digits ++
      (h.fields.drop (k + 1)).flatMap HexField.digits := by
    have parts : h.fields = h.fields.take k ++ [f] ++ h.fields.drop (k + 1) := by
      rw [← same, List.append_assoc, List.singleton_append, List.getElem_cons_drop,
        List.take_append_drop]
    rw [NewcHeader.bytes]
    conv => lhs; rw [parts]
    simp only [List.flatMap_append, List.flatMap_singleton, List.append_assoc]
  rw [whole] at split
  apply field_eq split _ _ short s
  · rw [List.length_append, fields_length, List.length_take, Nat.min_eq_left (Nat.le_of_lt inside)]
    rfl
  · rw [f.eight]
    omega

/-- A turn of the loop reads its numbers from the header. -/
theorem readEntry_header {h : NewcHeader} (split : data = before ++ h.bytes ++ rest)
    (short : data.length < 2 ^ 63) (inodeNum : UInt64) (s : σ) :
    InitramFs.readEntry data before.length inodeNum s =
      InitramFs.readRecord data before.length inodeNum (UInt32.ofNat h.namesize.value)
        (UInt32.ofNat h.filesize.value) (UInt32.ofNat h.mode.value) s := by
  have mode : InitramFs.field data before.length 14 22 s = .done h.mode.digits s :=
    header_field split short (k := 1) rfl s
  have filesize : InitramFs.field data before.length 54 62 s = .done h.filesize.digits s :=
    header_field split short (k := 6) rfl s
  have namesize : InitramFs.field data before.length 94 102 s = .done h.namesize.digits s :=
    header_field split short (k := 11) rfl s
  unfold InitramFs.readEntry
  rw [Exec.bind_of_done (header_magic split short s), if_neg (by simp),
    Exec.bind_of_done namesize, h.namesize.parse]
  dsimp only
  rw [Exec.bind_of_done filesize, h.filesize.parse]
  dsimp only
  rw [Exec.bind_of_done mode, h.mode.parse]

theorem align4_run {x : Nat} (fits : x + 3 < 2 ^ 64) (s : σ) :
    align4 x s = .done ((x + 3) / 4 * 4) s := by
  unfold align4
  rw [Exec.bind_of_done (Exec.usizeAdd_of_lt fits s), Exec.ret_run]

theorem NewcHeader.named_length {h : NewcHeader} {path : String}
    (namesize : h.namesize.value = (pathBytes path).length + 1) :
    (h.named path).length = headerSize + h.namesize.value := by
  simp only [NewcHeader.named, List.length_append, List.length_singleton, h.bytes_length, namesize]
  omega

/-- The name of a record is the part between its header and the NUL. -/
theorem slice_name {h : NewcHeader} {path : String} (split : data = before ++ h.named path ++ rest)
    (namesize : h.namesize.value = (pathBytes path).length + 1) (s : σ) :
    Exec.slice data (before.length + headerSize) (before.length + headerSize + h.namesize.value - 1) s =
      .done (pathBytes path) s := by
  have parts : data = (before ++ h.bytes) ++ pathBytes path ++ ([0] ++ rest) := by
    rw [split, NewcHeader.named]
    simp only [List.append_assoc]
  have length := congrArg List.length parts
  have first : before.length + headerSize = (before ++ h.bytes).length := by
    rw [List.length_append, h.bytes_length]
  have last : before.length + headerSize + h.namesize.value - 1 =
      ((before ++ h.bytes) ++ pathBytes path).length := by
    rw [List.length_append, ← first, namesize]
    omega
  simp only [List.length_append] at length
  rw [Exec.slice_of_le (by omega) (by rw [last, List.length_append, List.length_append]; omega), last,
    first, parts, List.take_left, List.drop_left]

/-- What a turn makes of a named record, whatever its header says of the data. -/
theorem readRecord_named {h : NewcHeader} {path : String}
    (split : data = before ++ h.named path ++ rest) (short : data.length < 2 ^ 63)
    (namesize : h.namesize.value = (pathBytes path).length + 1) (inodeNum : UInt64)
    (filesize mode : UInt32) (s : σ) :
    InitramFs.readRecord data before.length inodeNum (UInt32.ofNat h.namesize.value) filesize mode s =
      .done (if path = "TRAILER!!!" then .stop
        else .entry
          { path
            inodeNum
            mode
            size := filesize.toUInt64
            dataOffset := (before.length + (h.named path).length + 3) / 4 * 4 }
          ((before.length + (h.named path).length + 3) / 4 * 4 + filesize.toNat)) s := by
  have length := congrArg List.length split
  have name := NewcHeader.named_length namesize
  have word : (UInt32.ofNat h.namesize.value).toNat = h.namesize.value :=
    UInt32.toNat_ofNat_of_lt' h.namesize.value_lt
  have small := filesize.toNat_lt
  simp only [List.length_append, name] at length
  unfold InitramFs.readRecord
  rw [Exec.bind_of_done (Exec.usizeAdd_of_lt (by omega) s), word,
    Exec.bind_of_done (Exec.usizeAdd_of_lt (by omega) s), if_neg (by omega),
    Exec.bind_of_done (Exec.usizeSub_of_le (by omega) s),
    Exec.bind_of_done (slice_name split namesize s), pathBytes, fromUtf8_toByteArray]
  dsimp only
  rw [Exec.bind_of_done (align4_run (by omega) s), Exec.bind_of_done (Exec.usizeAdd_of_lt (by omega) s),
    name, ← Nat.add_assoc]
  split
  · rfl
  · rfl

/-- One turn at a named record. -/
theorem readEntry_named {h : NewcHeader} {path : String}
    (split : data = before ++ h.named path ++ rest) (short : data.length < 2 ^ 63)
    (namesize : h.namesize.value = (pathBytes path).length + 1) (inodeNum : UInt64) (s : σ) :
    InitramFs.readEntry data before.length inodeNum s =
      .done (if path = "TRAILER!!!" then .stop
        else .entry
          { path
            inodeNum
            mode := UInt32.ofNat h.mode.value
            size := (UInt32.ofNat h.filesize.value).toUInt64
            dataOffset := (before.length + (h.named path).length + 3) / 4 * 4 }
          ((before.length + (h.named path).length + 3) / 4 * 4 + h.filesize.value)) s := by
  have header : data = before ++ h.bytes ++ (pathBytes path ++ [0] ++ rest) := by
    rw [split, NewcHeader.named]
    simp only [List.append_assoc]
  rw [readEntry_header header short, readRecord_named split short namesize,
    UInt32.toNat_ofNat_of_lt' h.filesize.value_lt]

end Records

end ComputeKernel
