import Mathlib.Data.List.Nodup
import Mathlib.Data.List.SplitLengths
import ComputeKernel.Support.FirstMatch
import ComputeKernel.Fs.Scan

/-! An archive and the filesystem made from it: the parser finds the members in order,
and lookups and reads give back what was put in. -/
namespace ComputeKernel
open Checked (Exec Overflow)
open InitramFs (bytesAt parse_of_entry parse_of_stop)

variable {σ : Type}

/-- Where the contents start in a record. -/
def Member.dataStart (m : Member) : Nat :=
  (m.header.named m.file.path).length + (padding (m.header.named m.file.path).length).length

def Member.entry (m : Member) (offset inodeNum : Nat) : CpioEntry :=
  { path := m.file.path
    inodeNum := UInt64.ofNat inodeNum
    mode := m.file.mode
    size := UInt64.ofNat m.file.contents.length
    dataOffset := offset + m.dataStart }

/-- The entries of members whose records start at an offset. -/
def entriesOf : Nat → Nat → List Member → List CpioEntry
  | _, _, [] => []
  | offset, inodeNum, m :: members =>
      m.entry offset inodeNum :: entriesOf (offset + m.record.length) (inodeNum + 1) members

section Parser

variable {data before rest : List UInt8}

theorem padding_length (length : Nat) :
    length + (padding length).length = (length + 3) / 4 * 4 := by
  rw [padding, List.length_replicate]
  omega

theorem Member.contents_short (m : Member) : m.file.contents.length < 2 ^ 32 := by
  rw [← m.filesize]
  exact m.header.filesize.value_lt

theorem Member.record_length (m : Member) :
    m.record.length = m.dataStart + (m.file.contents.length + 3) / 4 * 4 := by
  have contents := padding_length m.file.contents.length
  simp only [Member.record, Member.dataStart, List.length_append]
  omega

theorem Member.dataStart_aligned (m : Member) : m.dataStart % 4 = 0 := by
  rw [Member.dataStart, padding_length]
  omega

theorem Member.headerSize_le (m : Member) : headerSize ≤ m.dataStart := by
  have bytes := m.header.bytes_length
  simp only [Member.dataStart, NewcHeader.named, List.length_append]
  omega

/-- One turn finds the member whose record starts at its offset. -/
theorem readEntry_member {m : Member} (split : data = before ++ m.record ++ rest)
    (short : data.length < 2 ^ 63) (aligned : before.length % 4 = 0) (inodeNum : Nat) (s : σ) :
    InitramFs.readEntry data before.length (UInt64.ofNat inodeNum) s =
      .done (.entry (m.entry before.length inodeNum)
        (before.length + m.dataStart + m.file.contents.length)) s := by
  have named : data = before ++ m.header.named m.file.path ++
      (padding (m.header.named m.file.path).length ++ m.file.contents ++
        padding m.file.contents.length ++ rest) := by
    rw [split, Member.record]
    simp only [List.append_assoc]
  have start : (before.length + (m.header.named m.file.path).length + 3) / 4 * 4 =
      before.length + m.dataStart := by
    rw [Member.dataStart, padding_length]
    omega
  have mode : UInt32.ofNat m.header.mode.value = m.file.mode := by
    rw [m.mode, UInt32.ofNat_toNat]
  have contents := m.contents_short
  have size : (UInt32.ofNat m.file.contents.length).toUInt64 = UInt64.ofNat m.file.contents.length := by
    rw [← UInt64.toNat_inj, UInt32.toNat_toUInt64, UInt32.toNat_ofNat_of_lt' contents,
      UInt64.toNat_ofNat_of_lt' (show _ < 2 ^ 64 by omega)]
  rw [readEntry_named named short m.namesize, start, mode, m.filesize, if_neg m.file.notTrailer, size]
  rfl

theorem readEntry_trailer {trailer : Trailer}
    (split : data = before ++ trailer.header.named "TRAILER!!!" ++ rest)
    (short : data.length < 2 ^ 63) (inodeNum : UInt64) (s : σ) :
    InitramFs.readEntry data before.length inodeNum s = .done .stop s := by
  rw [readEntry_named split short trailer.namesize, if_pos rfl]

/-- The loop finds all members up to the trailer. -/
theorem parse_members {members : List Member} {trailer : Trailer}
    (split : data = before ++ (members.flatMap Member.record ++ trailer.header.named "TRAILER!!!") ++ rest)
    (short : data.length < 2 ^ 63) (aligned : before.length % 4 = 0) {turns inodeNum : Nat}
    (enough : members.length < turns) (numbers : inodeNum + members.length < 2 ^ 64)
    (entries : List CpioEntry) (s : σ) :
    InitramFs.parse data turns entries before.length (UInt64.ofNat inodeNum) s =
      .done (some (entries ++ entriesOf before.length inodeNum members)) s := by
  obtain ⟨turns, rfl⟩ := Nat.exists_eq_succ_of_ne_zero (Nat.ne_of_gt (Nat.zero_lt_of_lt enough))
  induction members generalizing before turns inodeNum entries with
  | nil =>
      rw [List.flatMap_nil, List.nil_append] at split
      have length := congrArg List.length split
      have header := trailer.header.bytes_length
      simp only [List.length_append, NewcHeader.named] at length
      rw [entriesOf, List.append_nil]
      exact parse_of_stop (by omega) short turns entries (readEntry_trailer split short _ s)
  | cons m members ih =>
      have first : data = before ++ m.record ++
          ((members.flatMap Member.record ++ trailer.header.named "TRAILER!!!") ++ rest) := by
        rw [split, List.flatMap_cons]
        simp only [List.append_assoc]
      have later : data = (before ++ m.record) ++
          (members.flatMap Member.record ++ trailer.header.named "TRAILER!!!") ++ rest := by
        rw [first]
        simp only [List.append_assoc]
      have length := congrArg List.length first
      have record := m.record_length
      have start := m.dataStart_aligned
      have header := m.headerSize_le
      simp only [List.length_append] at length
      rw [List.length_cons] at enough numbers
      have next : (before.length + m.dataStart + m.file.contents.length + 3) / 4 * 4 =
          (before ++ m.record).length := by
        rw [List.length_append]
        omega
      obtain ⟨turns, rfl⟩ : ∃ left, turns = left + 1 := ⟨turns - 1, by omega⟩
      rw [parse_of_entry (by omega) short (by omega) (by omega)
          (readEntry_member first short aligned inodeNum s), next,
        ih later (by omega) (by omega) (entries ++ [m.entry before.length inodeNum]) turns (by omega),
        entriesOf, List.append_assoc, List.length_append]
      rfl

theorem members_length_le (members : List Member) :
    members.length ≤ (members.flatMap Member.record).length := by
  induction members with
  | nil => exact Nat.le_refl 0
  | cons m members ih =>
      have record := m.record_length
      have header := m.headerSize_le
      simp only [headerSize] at header
      rw [List.flatMap_cons, List.length_append, List.length_cons]
      omega

/-- `new` on an archive. -/
theorem new_archive {members : List Member} {trailer : Trailer} {trailing : List UInt8}
    {data : ByteSlice} (layout : data.bytes = archive members trailer trailing) (s : σ) :
    InitramFs.new data s = .done (some { data, entries := entriesOf 0 2 members }) s := by
  have short := data.short
  have count := members_length_le members
  have split : data.bytes = [] ++ (members.flatMap Member.record ++
      trailer.header.named "TRAILER!!!") ++ trailing := by
    rw [layout, archive, List.nil_append]
  have length := congrArg List.length split
  simp only [List.length_append] at length
  have numbers : 2 + members.length < 2 ^ 64 := by omega
  have parsed : InitramFs.parse data.bytes (data.bytes.length + 1) [] 0 2 s =
      .done (some ([] ++ entriesOf 0 2 members)) s :=
    parse_members split short rfl (by omega) numbers [] s
  unfold InitramFs.new
  rw [Exec.bind_of_done parsed]
  rfl

end Parser

/-- An entry describes a file whose contents stand in the data. -/
structure Stored (data : List UInt8) (e : CpioEntry) (f : CpioFile) : Prop where
  path : e.path = f.path
  mode : e.mode = f.mode
  size : e.size.toNat = f.contents.length
  contents : ∃ before after, data = before ++ f.contents ++ after ∧ before.length = e.dataOffset

section Entries

variable {data before rest : List UInt8} {members : List Member}

theorem Member.entry_number (m : Member) (offset : Nat) {inodeNum : Nat} (small : inodeNum < 2 ^ 64) :
    (m.entry offset inodeNum).inodeNum.toNat = inodeNum := UInt64.toNat_ofNat_of_lt' small

theorem Member.entry_size (m : Member) (offset inodeNum : Nat) :
    (m.entry offset inodeNum).size.toNat = m.file.contents.length := by
  have contents := m.contents_short
  exact UInt64.toNat_ofNat_of_lt' (show _ < 2 ^ 64 by omega)

theorem Member.stored {m : Member} (split : data = before ++ m.record ++ rest) (inodeNum : Nat) :
    Stored data (m.entry before.length inodeNum) m.file where
  path := rfl
  mode := rfl
  size := m.entry_size before.length inodeNum
  contents := by
    refine ⟨before ++ (m.header.named m.file.path ++ padding (m.header.named m.file.path).length),
      padding m.file.contents.length ++ rest, ?_, ?_⟩
    · rw [split, Member.record]
      simp only [List.append_assoc]
    · simp only [List.length_append, Member.entry, Member.dataStart]

theorem entriesOf_stored (split : data = before ++ members.flatMap Member.record ++ rest)
    (inodeNum : Nat) {m : Member} (member : m ∈ members) :
    ∃ e ∈ entriesOf before.length inodeNum members, Stored data e m.file := by
  induction members generalizing before inodeNum with
  | nil => cases member
  | cons first members ih =>
      have here : data = before ++ first.record ++ (members.flatMap Member.record ++ rest) := by
        rw [split, List.flatMap_cons]
        simp only [List.append_assoc]
      rcases List.mem_cons.mp member with rfl | later
      · exact ⟨_, List.mem_cons_self, m.stored here inodeNum⟩
      · have there : data = (before ++ first.record) ++ members.flatMap Member.record ++ rest := by
          rw [here]
          simp only [List.append_assoc]
        obtain ⟨e, inside, stored⟩ := ih there (inodeNum + 1) later
        rw [List.length_append] at inside
        exact ⟨e, List.mem_cons_of_mem _ inside, stored⟩

/-- What a file and its number say of an entry. -/
def summary (inodeNum : Nat) (f : CpioFile) : String × Nat × UInt32 × Nat :=
  (f.path, inodeNum, f.mode, f.contents.length)

def CpioEntry.summary (e : CpioEntry) : String × Nat × UInt32 × Nat :=
  (e.path, e.inodeNum.toNat, e.mode, e.size.toNat)

/-- What can be said of the entries one by one: they are the members in order, numbered
one after another. -/
theorem entriesOf_map {β : Type} {view : CpioEntry → β} {shown : Member × Nat → β}
    (agree : ∀ m offset inodeNum, inodeNum < 2 ^ 64 → view (m.entry offset inodeNum) = shown (m, inodeNum))
    (offset : Nat) {inodeNum : Nat} (numbers : inodeNum + members.length < 2 ^ 64) :
    (entriesOf offset inodeNum members).map view = (members.zipIdx inodeNum).map shown := by
  induction members generalizing offset inodeNum with
  | nil => rfl
  | cons m members ih =>
      rw [List.length_cons] at numbers
      rw [entriesOf, List.map_cons, List.zipIdx_cons, List.map_cons, agree m offset inodeNum (by omega),
        ih _ (by omega)]

theorem entriesOf_summary (offset : Nat) {inodeNum : Nat}
    (numbers : inodeNum + members.length < 2 ^ 64) :
    (entriesOf offset inodeNum members).map CpioEntry.summary =
      members.mapIdx (fun i m => summary (i + inodeNum) m.file) := by
  have shown : (entriesOf offset inodeNum members).map CpioEntry.summary =
      (members.zipIdx inodeNum).map (fun (m, i) => summary i m.file) := by
    apply entriesOf_map _ offset numbers
    intro m offset inodeNum small
    rw [CpioEntry.summary, m.entry_number offset small, m.entry_size]
    rfl
  rw [shown, List.zipIdx_eq_map_add, List.map_map, List.mapIdx_eq_zipIdx_map]
  apply List.map_congr_left
  intro (m, i) _
  exact congrArg (summary · m.file) (Nat.add_comm inodeNum i)

theorem entriesOf_paths (offset : Nat) {inodeNum : Nat}
    (numbers : inodeNum + members.length < 2 ^ 64) :
    (entriesOf offset inodeNum members).map CpioEntry.path = members.map (fun m => m.file.path) := by
  have paths : (entriesOf offset inodeNum members).map CpioEntry.path =
      (members.zipIdx inodeNum).map ((fun m => m.file.path) ∘ Prod.fst) :=
    entriesOf_map (fun _ _ _ _ => rfl) offset numbers
  rw [paths, ← List.map_map, List.zipIdx_map_fst]

theorem entriesOf_numbers (offset : Nat) {inodeNum : Nat}
    (numbers : inodeNum + members.length < 2 ^ 64) :
    (entriesOf offset inodeNum members).map (fun e => e.inodeNum.toNat) =
      List.range' inodeNum members.length := by
  rw [← List.zipIdx_map_snd inodeNum members]
  exact entriesOf_map (fun m offset _ small => m.entry_number offset small) offset numbers

end Entries

/-- Reads into one buffer after another, each from where the one before it ended. The
result has the count of each read and the bytes that it delivered. -/
def FileSystem.readInto (fsys : FileSystem σ) (inode : Inode) :
    UInt64 → List (List UInt8) → Exec σ (Except VfsError (List (Nat × List UInt8)))
  | _, [] => Exec.ret (.ok [])
  | offset, buf :: bufs => do
      match ← fsys.read inode offset buf with
      | (.error error, _) => Exec.ret (.error error)
      | (.ok n, buf) => do
          match ← readInto fsys inode (offset + UInt64.ofNat n) bufs with
          | .error error => Exec.ret (.error error)
          | .ok rest => Exec.ret (.ok ((n, buf.take n) :: rest))

section Files

variable {fs : InitramFs} {inode : Inode} {e : CpioEntry} {f : CpioFile}

def CpioEntry.dataEnd (e : CpioEntry) : Nat := e.dataOffset + e.size.toNat

/-- A read delivers the bytes from where it starts up to the end of the file. -/
theorem read_from {start offset : UInt64} (found : fs.findInode inode = some e)
    (inside : e.dataEnd ≤ fs.data.bytes.length) {overflow : Overflow} {s : σ}
    (first : Exec.u64Add overflow (UInt64.ofNat e.dataOffset) offset s = .done start s)
    (buf : List UInt8) :
    fs.read overflow inode offset buf s =
      .done (.ok (min buf.length (e.dataEnd - start.toNat)),
        bytesAt fs.data.bytes start.toNat (min buf.length (e.dataEnd - start.toNat)) ++
          buf.drop (min buf.length (e.dataEnd - start.toNat))) s := by
  have short := fs.data.short
  unfold CpioEntry.dataEnd at inside ⊢
  have place : (UInt64.ofNat e.dataOffset).toNat = e.dataOffset :=
    UInt64.toNat_ofNat_of_lt' (show _ < 2 ^ 64 by omega)
  have stop : (UInt64.ofNat e.dataOffset + e.size).toNat = e.dataOffset + e.size.toNat := by
    rw [UInt64.toNat_add, place, Nat.mod_eq_of_lt (by omega)]
  unfold InitramFs.read
  rw [found]
  dsimp only
  rw [Exec.bind_of_done first, Exec.bind_of_done (Exec.u64Add_of_lt (by omega) overflow s)]
  split
  · next beyond =>
      rw [ge_iff_le, UInt64.le_iff_toNat_le, stop] at beyond
      rw [Nat.sub_eq_zero_of_le beyond, Nat.min_zero]
      rfl
  · next within =>
      rw [ge_iff_le, UInt64.le_iff_toNat_le, stop] at within
      rw [stop, Exec.bind_of_done (Exec.slice_of_le (by omega) (by omega) s),
        FileSystem.copyAvailable_eq, List.drop_take, List.take_take, List.length_take, List.length_drop,
        bytesAt, Nat.min_eq_left (Nat.sub_le_sub_right inside start.toNat)]

/-- The place in the data where a read at an offset starts. -/
theorem start_of_lt (offset : UInt64) (fits : e.dataOffset + offset.toNat < 2 ^ 64)
    (overflow : Overflow) (s : σ) :
    ∃ start, Exec.u64Add overflow (UInt64.ofNat e.dataOffset) offset s = .done start s ∧
      start.toNat = e.dataOffset + offset.toNat := by
  have place : (UInt64.ofNat e.dataOffset).toNat = e.dataOffset :=
    UInt64.toNat_ofNat_of_lt' (show _ < 2 ^ 64 by omega)
  refine ⟨_, Exec.u64Add_of_lt (by omega) overflow s, ?_⟩
  rw [UInt64.toNat_add, place, Nat.mod_eq_of_lt fits]

theorem Stored.inside {data : List UInt8} (stored : Stored data e f) : e.dataEnd ≤ data.length := by
  obtain ⟨before, after, split, place⟩ := stored.contents
  rw [CpioEntry.dataEnd, split, stored.size, ← place, List.length_append, List.length_append]
  omega

/-- The contents stand in the data where the entry says. -/
theorem Stored.bytesAt_eq {data : List UInt8} (stored : Stored data e f) {offset count : Nat}
    (within : count ≤ f.contents.length - offset) :
    bytesAt data (e.dataOffset + offset) count = (f.contents.drop offset).take count := by
  obtain ⟨before, after, split, place⟩ := stored.contents
  rw [bytesAt, split, ← place, List.append_assoc, ← List.drop_drop, List.drop_left, List.drop_append,
    List.take_append_of_le_length]
  rw [List.length_drop]
  exact within

/-- A read inside a stored file delivers the contents from the offset on. -/
theorem read_stored (found : fs.findInode inode = some e) (stored : Stored fs.data.bytes e f)
    (overflow : Overflow) {offset : UInt64} (inside : offset.toNat ≤ f.contents.length)
    (buf : List UInt8) (s : σ) :
    fs.read overflow inode offset buf s =
      .done (.ok (min buf.length (f.contents.drop offset.toNat).length),
        (f.contents.drop offset.toNat).take buf.length ++
          buf.drop (min buf.length (f.contents.drop offset.toNat).length)) s := by
  have short := fs.data.short
  have within := stored.inside
  have size := stored.size
  unfold CpioEntry.dataEnd at within
  obtain ⟨start, first, value⟩ := start_of_lt (e := e) offset (by omega) overflow s
  have count : e.dataEnd - start.toNat = (f.contents.drop offset.toNat).length := by
    rw [CpioEntry.dataEnd, value, size, List.length_drop]
    omega
  rw [read_from found stored.inside first, count, value, stored.bytesAt_eq]
  · rw [← List.take_eq_take_min]
  · rw [List.length_drop]
    exact Nat.min_le_right _ _

/-- Reads at consecutive offsets deliver the contents piece by piece, and nothing
after their end. -/
theorem readInto_stored (found : fs.findInode inode = some e) (stored : Stored fs.data.bytes e f)
    (overflow : Overflow) {offset : UInt64} (inside : offset.toNat ≤ f.contents.length)
    (bufs : List (List UInt8)) (s : σ) :
    (fs.fileSystem overflow).readInto inode offset bufs s =
      .done (.ok (((bufs.map List.length).splitLengths (f.contents.drop offset.toNat)).map
        (fun piece => (piece.length, piece)))) s := by
  induction bufs generalizing offset with
  | nil => rfl
  | cons buf bufs ih =>
      have first : (fs.fileSystem overflow).read inode offset buf s = _ :=
        read_stored found stored overflow inside buf s
      have size := e.size.toNat_lt
      rw [stored.size] at size
      have left : (f.contents.drop offset.toNat).length = f.contents.length - offset.toNat :=
        List.length_drop
      generalize piece : (f.contents.drop offset.toNat).take buf.length = delivered at first
      have count : delivered.length = min buf.length (f.contents.drop offset.toNat).length := by
        rw [← piece, List.length_take]
      rw [← count] at first
      have next : (offset + UInt64.ofNat delivered.length).toNat = offset.toNat + delivered.length := by
        rw [UInt64.toNat_add, UInt64.toNat_ofNat_of_lt' (show _ < 2 ^ 64 by omega),
          Nat.mod_eq_of_lt (by omega)]
      have remaining : f.contents.drop (offset.toNat + delivered.length) =
          (f.contents.drop offset.toNat).drop buf.length := by
        rw [← List.drop_drop, count, ← List.drop_eq_drop_min]
      have rest := ih (by rw [next]; omega : (offset + UInt64.ofNat delivered.length).toNat ≤ _)
      unfold FileSystem.readInto
      rw [Exec.bind_of_done first]
      dsimp only
      rw [Exec.bind_of_done rest, next, remaining, List.take_left, List.map_cons, List.splitLengths_cons,
        piece]
      rfl

theorem dropSlashes_relative {chars : List Char} (relative : chars.head? ≠ some '/') :
    chars.dropWhile (fun c => c = '/') = chars := by
  cases chars with
  | nil => rfl
  | cons c chars =>
      apply List.dropWhile_cons_of_neg
      simpa using relative

theorem trimSlashes_relative {path : String} (relative : path.toList.head? ≠ some '/') :
    InitramFs.trimSlashes path = path := by
  rw [InitramFs.trimSlashes, dropSlashes_relative relative, String.ofList_toList]

theorem trimSlashes_absolute {path : String} (relative : path.toList.head? ≠ some '/') :
    InitramFs.trimSlashes ("/" ++ path) = path := by
  have slash : ("/" ++ path).toList = '/' :: path.toList := by rw [String.toList_append]; rfl
  rw [InitramFs.trimSlashes, slash, List.dropWhile_cons_of_pos (by decide)]
  exact trimSlashes_relative relative

/-- The only entry with the path is found, with and without a leading slash. -/
theorem find_entry (member : e ∈ fs.entries)
    (relative : ∀ other ∈ fs.entries, other.path.toList.head? ≠ some '/')
    (distinct : (fs.entries.map CpioEntry.path).Nodup) {path : String}
    (given : path = e.path ∨ path = "/" ++ e.path) : fs.find path = some e := by
  have trimmed : InitramFs.trimSlashes path = e.path := by
    rcases given with rfl | rfl
    · exact trimSlashes_relative (relative e member)
    · exact trimSlashes_absolute (relative e member)
  apply FirstMatch.find?_of_unique member
  · rw [decide_eq_true_eq, trimmed]
    exact Or.inr rfl
  · intro other inside found
    rw [decide_eq_true_eq, trimmed] at found
    have same : other.path = e.path := by
      rcases found with found | found
      · rcases given with rfl | rfl
        · exact found
        · -- No entry starts with a slash.
          refine absurd ?_ (relative other inside)
          rw [found, String.toList_append]
          rfl
      · exact found
    exact List.inj_on_of_nodup_map distinct inside member same

/-- What the type bits of the mode say. -/
def CpioEntry.kind (e : CpioEntry) : InodeKind :=
  if e.mode &&& 0xF000 = 0x4000 then .directory
  else if e.mode &&& 0xF000 = 0xA000 then .symlink
  else .regularFile

theorem lookup_found {path : String} (found : fs.find path = some e) (notRoot : path ≠ "/")
    (notEmpty : path ≠ "") :
    fs.lookup path = .ok { Inode.new e.inodeNum e.kind with
      size := e.size
      mode := e.mode.toUInt16 } := by
  unfold InitramFs.lookup
  rw [if_neg (by simp [notRoot, notEmpty]), found]
  rfl

/-- The path of a file is not that of the root, with and without a leading slash. -/
theorem path_not_root {name path : String} (named : name ≠ "") (relative : name.toList.head? ≠ some '/')
    (given : path = name ∨ path = "/" ++ name) : path ≠ "/" ∧ path ≠ "" := by
  rcases given with rfl | rfl
  · refine ⟨?_, named⟩
    intro root
    rw [root] at relative
    exact relative rfl
  · constructor
    · intro root
      apply named
      have chars := congrArg String.toList root
      rw [String.toList_append] at chars
      exact String.toList_inj.mp (List.cons.inj chars).2
    · intro empty
      have chars := congrArg String.toList empty
      rw [String.toList_append] at chars
      cases chars

end Files

/-- A lookup leads to the entry of the member, also when it is sought by its inode. -/
theorem lookup_member (fs : InitramFs) {members : List Member} {rest : List UInt8}
    (split : fs.data.bytes = [] ++ members.flatMap Member.record ++ rest)
    (entries : fs.entries = entriesOf 0 2 members) (numbers : 2 + members.length < 2 ^ 64)
    (distinct : (members.map (fun m => m.file.path)).Nodup) {m : Member} (member : m ∈ members)
    {path : String} (given : path = m.file.path ∨ path = "/" ++ m.file.path) :
    ∃ inode e, fs.lookup path = .ok inode ∧ inode.mode = e.mode.toUInt16 ∧ inode.size = e.size ∧
      fs.findInode inode = some e ∧ Stored fs.data.bytes e m.file := by
  obtain ⟨e, inside, stored⟩ := entriesOf_stored split 2 member
  have paths := entriesOf_paths 0 numbers
  have inodes := entriesOf_numbers 0 numbers
  change e ∈ entriesOf 0 2 members at inside
  rw [← entries] at inside paths inodes
  have relative : ∀ other ∈ fs.entries, other.path.toList.head? ≠ some '/' := by
    intro other inside
    have path := List.mem_map_of_mem (f := CpioEntry.path) inside
    rw [paths, List.mem_map] at path
    obtain ⟨m, _, same⟩ := path
    rw [← same]
    exact m.file.relative
  obtain ⟨notRoot, notEmpty⟩ := path_not_root m.file.named m.file.relative given
  rw [← stored.path] at given
  have found := find_entry inside relative (by rw [paths]; exact distinct) given
  refine ⟨_, e, lookup_found found notRoot notEmpty, rfl, rfl, ?_, stored⟩
  apply FirstMatch.find?_of_unique inside
  · exact decide_eq_true rfl
  · intro other inside' same
    rw [decide_eq_true_eq] at same
    have once : (fs.entries.map (fun e => e.inodeNum.toNat)).Nodup := by
      rw [inodes]
      exact List.nodup_range'
    exact List.inj_on_of_nodup_map once inside' inside (congrArg UInt64.toNat same)

/-- A filesystem made from an archive has the members of the archive as its entries, in
order and numbered from 2. Each file is found under its path, with and without a leading
slash, and buffers that are filled one after another receive the next piece of its
contents each, and nothing after the end. -/
theorem archive_recovered (members : List Member) (trailer : Trailer) (trailing : List UInt8)
    (data : ByteSlice) (layout : data.bytes = archive members trailer trailing)
    (distinct : (members.map (fun m => m.file.path)).Nodup) (overflow : Overflow) (s : σ) :
    ∃ fs, InitramFs.new data s = .done (some fs) s ∧
      fs.entries.map CpioEntry.summary = members.mapIdx (fun i m => summary (i + 2) m.file) ∧
      ∀ m ∈ members, ∀ path, path = m.file.path ∨ path = "/" ++ m.file.path →
        ∃ inode, fs.lookup path = .ok inode ∧ inode.mode = m.file.mode.toUInt16 ∧
          inode.size.toNat = m.file.contents.length ∧
          ∀ bufs, (fs.fileSystem overflow).readInto inode 0 bufs s =
            .done (.ok (((bufs.map List.length).splitLengths m.file.contents).map
              (fun piece => (piece.length, piece)))) s := by
  have short := data.short
  have count := members_length_le members
  have split : data.bytes = [] ++ members.flatMap Member.record ++
      (trailer.header.named "TRAILER!!!" ++ trailing) := by
    rw [layout, archive, List.nil_append, List.append_assoc]
  have length := congrArg List.length split
  simp only [List.length_append] at length
  have numbers : 2 + members.length < 2 ^ 64 := by omega
  refine ⟨_, new_archive layout s, entriesOf_summary 0 numbers, ?_⟩
  intro m member path given
  obtain ⟨inode, e, looked, mode, size, found, stored⟩ :=
    lookup_member { data, entries := entriesOf 0 2 members } split rfl numbers distinct member given
  refine ⟨inode, looked, by rw [mode, stored.mode], by rw [size, stored.size], ?_⟩
  intro bufs
  exact readInto_stored found stored overflow (Nat.zero_le _) bufs s

/-- A regular file. -/
def motd : CpioFile where
  path := "etc/motd"
  mode := 0x81A4
  contents := [0x68, 0x69, 0x0a]
  named := by decide
  relative := by decide
  notTrailer := by decide

def motdArchive : ByteSlice where
  bytes := archive [Member.ofFile motd (by decide) (by decide)] Trailer.standard [0, 0, 0]
  short := by decide +kernel

/-- Another file, in an archive behind the first. -/
def hostname : CpioFile where
  path := "etc/hostname"
  mode := 0x8180
  contents := [0x63, 0x6b, 0x2d, 0x31, 0x0a]
  named := by decide
  relative := by decide
  notTrailer := by decide

def etcMembers : List Member :=
  [Member.ofFile motd (by decide) (by decide), Member.ofFile hostname (by decide) (by decide)]

def etcArchive : ByteSlice where
  bytes := archive etcMembers Trailer.standard [0, 0, 0]
  short := by decide +kernel

theorem archive_recovered_etc :
    ∃ fs, InitramFs.new etcArchive () = .done (some fs) () ∧
      fs.entries.map CpioEntry.summary =
        [("etc/motd", 2, 0x81A4, 3), ("etc/hostname", 3, 0x8180, 5)] ∧
      (∃ inode, fs.lookup "/etc/motd" = .ok inode ∧ inode.mode = 0x81A4 ∧ inode.size.toNat = 3 ∧
        (fs.fileSystem .wraps).readInto inode 0 [[0, 0], [0, 0], [0, 0]] () =
          .done (.ok [(2, [0x68, 0x69]), (1, [0x0a]), (0, [])]) ()) ∧
      ∃ inode, fs.lookup "etc/hostname" = .ok inode ∧ inode.mode = 0x8180 ∧ inode.size.toNat = 5 ∧
        (fs.fileSystem .wraps).readInto inode 0 [[0, 0, 0], [0, 0, 0]] () =
          .done (.ok [(3, [0x63, 0x6b, 0x2d]), (2, [0x31, 0x0a])]) () := by
  obtain ⟨fs, parsed, entries, files⟩ := archive_recovered etcMembers Trailer.standard [0, 0, 0]
    etcArchive rfl (by decide) .wraps ()
  obtain ⟨inode, looked, mode, size, pieces⟩ :=
    files _ List.mem_cons_self "/etc/motd" (Or.inr (by decide))
  obtain ⟨inode', looked', mode', size', pieces'⟩ :=
    files _ (List.mem_cons_of_mem _ List.mem_cons_self) "etc/hostname" (Or.inl rfl)
  exact ⟨fs, parsed, entries, ⟨inode, looked, mode, size, pieces _⟩, inode', looked', mode', size',
    pieces' _⟩

end ComputeKernel
