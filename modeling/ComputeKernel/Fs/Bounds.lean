import ComputeKernel.Fs.Archive

/-! Where the data of the entries lies, and what a read can reach. The parser checks
that a name lies in the archive but not that the data does, and a read adds the offset
before it compares. -/
namespace ComputeKernel
open Checked (Exec Overflow)

variable {σ : Type}

namespace InitramFs

/-- Every file lies in the archive. -/
def Inside (fs : InitramFs) : Prop := ∀ e ∈ fs.entries, e.dataEnd ≤ fs.data.bytes.length

/-- The files have inode numbers of their own, none of them that of the root. -/
structure Numbered (fs : InitramFs) : Prop where
  distinct : (fs.entries.map CpioEntry.inodeNum).Nodup
  notRoot : ∀ e ∈ fs.entries, e.inodeNum ≠ 1

/-- The record at an offset has more data than the archive has bytes left. -/
def Cut (data : List UInt8) (offset : Nat) : Prop :=
  offset + headerSize ≤ data.length ∧
    ∃ path filesize mode dataStart, turnAt data offset = .entry path filesize mode dataStart ∧
      data.length < dataStart + filesize.toNat

section Laid

variable {data : List UInt8} {offset inodeNum : Nat} {entries : List CpioEntry}

theorem Laid.behind (laid : Laid data offset inodeNum entries) :
    ∀ e ∈ entries, offset ≤ e.dataOffset := by
  induction entries generalizing offset inodeNum with
  | nil => nofun
  | cons first entries ih =>
      obtain ⟨recorded, _, rest⟩ := laid
      have place := recorded.behind
      intro e member
      rcases List.mem_cons.mp member with rfl | later
      · omega
      · have below := ih rest e later
        omega

/-- Files that follow each other do not overlap. -/
theorem Laid.ordered (laid : Laid data offset inodeNum entries) :
    entries.Pairwise (fun a b => a.dataEnd ≤ b.dataOffset) := by
  induction entries generalizing offset inodeNum with
  | nil => exact .nil
  | cons first entries ih =>
      obtain ⟨_, _, rest⟩ := laid
      refine .cons ?_ (ih rest)
      intro e later
      have below := rest.behind e later
      unfold CpioEntry.dataEnd
      omega

theorem RecordedAt.cut_iff {e : CpioEntry} (recorded : RecordedAt data offset e) :
    Cut data offset ↔ data.length < e.dataEnd := by
  obtain ⟨filesize, size, turn⟩ := recorded.turn
  rw [CpioEntry.dataEnd, size, UInt32.toNat_toUInt64]
  constructor
  · rintro ⟨_, path', filesize', mode', dataStart', turn', beyond⟩
    rw [turn] at turn'
    cases turn'
    exact beyond
  · exact fun beyond => ⟨recorded.header, _, _, _, _, turn, beyond⟩

/-- The files lie inside when no record that the loop comes to is cut off. -/
theorem Laid.inside_iff (laid : Laid data offset inodeNum entries) :
    (∀ e ∈ entries, e.dataEnd ≤ data.length) ↔
      ∀ there, Relation.ReflTransGen (Follows data) offset there → ¬Cut data there := by
  induction entries generalizing offset inodeNum with
  | nil =>
      constructor
      · rintro _ there visited ⟨header, path, filesize, mode, dataStart, turn, _⟩
        rcases visited.cases_head with rfl | ⟨next, step, _⟩
        · exact laid _ ⟨header, path, filesize, mode, dataStart, turn, rfl⟩
        · exact laid next step
      · exact nofun
  | cons first entries ih =>
      obtain ⟨recorded, _, rest⟩ := laid
      have step := recorded.follows_iff
      rw [List.forall_mem_cons, ih rest, ← Nat.not_lt, ← recorded.cut_iff]
      constructor
      · rintro ⟨whole, later⟩ there visited
        rcases visited.cases_head with rfl | ⟨next, first, onward⟩
        · exact whole
        · rw [(step next).mp first] at onward
          exact later there onward
      · intro whole
        refine ⟨whole offset .refl, ?_⟩
        intro there onward
        exact whole there (.head ((step _).mpr rfl) onward)

theorem Laid.numbers (laid : Laid data offset inodeNum entries) :
    entries.map (fun e => e.inodeNum.toNat) = List.range' inodeNum entries.length := by
  induction entries generalizing offset inodeNum with
  | nil => rfl
  | cons first entries ih =>
      obtain ⟨_, number, rest⟩ := laid
      rw [List.map_cons, number, ih rest, List.length_cons, List.range'_succ]

end Laid

variable {data : ByteSlice} {fs : InitramFs} {s s' : σ}

/-- What `new` returns has been found by its loop. -/
theorem laid_of_new (parsed : new data s = .done (some fs) s') :
    fs.data = data ∧ Laid data.bytes 0 2 fs.entries := by
  rcases new_ends data s with ⟨panics, _⟩ | ⟨_, unreadable | ⟨entries, found, laid⟩⟩
  · rw [panics] at parsed
    cases parsed
  · rw [unreadable] at parsed
    cases parsed
  · rw [found] at parsed
    cases parsed
    exact ⟨rfl, laid⟩

theorem numbered_of_new (parsed : new data s = .done (some fs) s') : fs.Numbered := by
  have numbers := (laid_of_new parsed).2.numbers
  have values : fs.entries.map (fun e => e.inodeNum.toNat) =
      (fs.entries.map CpioEntry.inodeNum).map UInt64.toNat := by rw [List.map_map]; rfl
  constructor
  · apply List.Nodup.of_map UInt64.toNat
    rw [← values, numbers]
    exact List.nodup_range'
  · intro e member root
    have value := List.mem_map_of_mem (f := fun e => e.inodeNum.toNat) member
    rw [numbers, List.mem_range'_1, root] at value
    exact absurd value.1 (by decide)

/-- In an accepted archive every file lies inside, no two overlap, and no read slices
out of range, if and only if no record that the parser comes to is cut off. -/
theorem entries_inside_iff (parsed : new data s = .done (some fs) s') :
    ((∀ e ∈ fs.entries, e.dataEnd ≤ data.bytes.length) ∧
      fs.entries.Pairwise (fun a b => a.dataEnd ≤ b.dataOffset) ∧
      ∀ overflow inode offset buf (t : σ),
        (∀ e ∈ fs.findInode inode, e.dataOffset + offset.toNat < 2 ^ 64) →
          ∃ result, fs.read overflow inode offset buf t = .done result t) ↔
      ∀ offset, Visits data.bytes offset → ¬Cut data.bytes offset := by
  obtain ⟨rfl, laid⟩ := laid_of_new parsed
  constructor
  · rintro ⟨inside, _⟩
    exact laid.inside_iff.mp inside
  intro whole
  have inside := laid.inside_iff.mpr whole
  refine ⟨inside, laid.ordered, ?_⟩
  intro overflow inode offset buf t fits
  cases found : fs.findInode inode with
  | none =>
      unfold read
      rw [found]
      exact ⟨_, rfl⟩
  | some e =>
      obtain ⟨start, first, _⟩ := start_of_lt offset (fits e found) overflow t
      exact ⟨_, read_from found (inside e (List.mem_of_find?_eq_some found)) first buf⟩

theorem new_motdArchive :
    new motdArchive () = .done (some ⟨motdArchive, [⟨"etc/motd", 2, 0x81A4, 3, 120⟩]⟩) () := by
  have entries : entriesOf 0 2 [Member.ofFile motd (by decide) (by decide)] =
      [⟨"etc/motd", 2, 0x81A4, 3, 120⟩] := by decide +kernel
  rw [← entries]
  exact new_archive rfl ()

theorem motdArchive_length : motdArchive.bytes.length = 248 := by decide +kernel

theorem motdArchive_whole (offset : Nat) (visited : Visits motdArchive.bytes offset) :
    ¬Cut motdArchive.bytes offset := by
  apply (laid_of_new new_motdArchive).2.inside_iff.mp _ offset visited
  intro e member
  rw [List.mem_singleton.mp member, motdArchive_length]
  decide

theorem entries_inside_motd :
    ∃ fs, new motdArchive () = .done (some fs) () ∧ fs.Inside ∧
      ∃ result, fs.read .panics (Inode.new 2 .regularFile) 1 [0, 0, 0, 0] () = .done result () := by
  obtain ⟨inside, _, reads⟩ := (entries_inside_iff new_motdArchive).mpr motdArchive_whole
  refine ⟨_, new_motdArchive, inside, reads .panics _ 1 _ () ?_⟩
  rintro e ⟨⟩
  decide

/-- Every read inside a file that reaches beyond the archive panics. -/
theorem read_beyond {inode : Inode} {e : CpioEntry} {offset : UInt64}
    (found : fs.findInode inode = some e) (within : offset < e.size) (fits : e.dataEnd < 2 ^ 64)
    (beyond : fs.data.bytes.length < e.dataEnd) (overflow : Overflow) (buf : List UInt8) (s : σ) :
    fs.read overflow inode offset buf s = .panicked .bounds := by
  rw [UInt64.lt_iff_toNat_lt] at within
  unfold CpioEntry.dataEnd at fits beyond
  obtain ⟨start, first, value⟩ := start_of_lt (e := e) offset (by omega) overflow s
  obtain ⟨stop, second, last⟩ := start_of_lt (e := e) e.size fits overflow s
  unfold read
  rw [found]
  dsimp only
  rw [Exec.bind_of_done first, Exec.bind_of_done second, if_neg]
  · apply Exec.bind_of_panicked
    rw [Exec.slice, if_neg (by omega)]
    rfl
  · rw [ge_iff_le, UInt64.le_iff_toNat_le]
    omega

/-- The archive of one file of five bytes, cut off after the name. -/
def cutArchive : ByteSlice where
  bytes := (NewcHeader.describing 0x81A4 5 2).named "a"
  short := by decide +kernel

theorem cutArchive_length : cutArchive.bytes.length = 112 := by decide +kernel

theorem new_cutArchive :
    new cutArchive () = .done (some ⟨cutArchive, [⟨"a", 2, 0x81A4, 5, 112⟩]⟩) () := by
  have length := cutArchive_length
  have named : cutArchive.bytes = [] ++ (NewcHeader.describing 0x81A4 5 2).named "a" ++ [] :=
    (List.append_nil _).symm
  have mode : (NewcHeader.describing 0x81A4 5 2).mode.value = 0x81A4 := HexField.value_ofNat (by decide)
  have filesize : (NewcHeader.describing 0x81A4 5 2).filesize.value = 5 := HexField.value_ofNat (by decide)
  have namesize : (NewcHeader.describing 0x81A4 5 2).namesize.value = 2 := HexField.value_ofNat (by decide)
  have found := readEntry_named named cutArchive.short namesize (UInt64.ofNat 2) ()
  rw [mode, filesize, show ((NewcHeader.describing 0x81A4 5 2).named "a").length = 112 from length,
    if_neg (by decide)] at found
  have parsed : parse cutArchive.bytes (cutArchive.bytes.length + 1) [] 0 2 () =
      .done (some [⟨"a", 2, 0x81A4, 5, 112⟩]) () := by
    have first := parse_of_entry (by rw [length]; decide) cutArchive.short (by decide) (by decide) found
      cutArchive.bytes.length []
    refine first.trans ?_
    rw [length]
    exact parse_of_full (by rw [length]; decide) (by decide) 111 _ _ ()
  unfold new
  rw [Exec.bind_of_done parsed]
  rfl

/-- The file of a cut archive reaches beyond its end, and reading it panics. -/
theorem cut_file_read_panics :
    ∃ fs, new cutArchive () = .done (some fs) () ∧ ¬fs.Inside ∧
      fs.read .panics (Inode.new 2 .regularFile) 0 [0] () = .panicked .bounds := by
  refine ⟨_, new_cutArchive, ?_, ?_⟩
  · intro inside
    have ends := inside _ List.mem_cons_self
    rw [cutArchive_length] at ends
    exact absurd ends (by decide)
  · exact read_beyond rfl (by decide) (by decide) (by rw [cutArchive_length]; decide) .panics [0] ()

/-- What a read of a file should deliver: the bytes from the offset up to the end of
the file, as far as the buffer takes them, and nothing beyond the end. -/
def fileRead (fs : InitramFs) (e : CpioEntry) (offset : Nat) (buf : List UInt8) :
    Except VfsError Nat × List UInt8 :=
  let n := min buf.length (e.size.toNat - offset)
  (.ok n, bytesAt fs.data.bytes (e.dataOffset + offset) n ++ buf.drop n)

theorem findInode_of_member (numbered : fs.Numbered) {e : CpioEntry} (member : e ∈ fs.entries)
    {inode : Inode} (named : inode.inodeNum = e.inodeNum) : fs.findInode inode = some e := by
  apply FirstMatch.find?_of_unique member
  · rw [decide_eq_true_eq, named]
  · intro other inside same
    rw [decide_eq_true_eq, named] at same
    exact List.inj_on_of_nodup_map numbered.distinct inside member same

/-- Where a read starts when the sum of the offsets wraps around. -/
theorem start_of_wrap {e : CpioEntry} {offset : UInt64} (small : e.dataOffset < 2 ^ 64)
    (wraps : ¬e.dataOffset + offset.toNat < 2 ^ 64) (s : σ) :
    ∃ start, Exec.u64Add .wraps (UInt64.ofNat e.dataOffset) offset s = .done start s ∧
      start.toNat = e.dataOffset + offset.toNat - 2 ^ 64 := by
  have place : (UInt64.ofNat e.dataOffset).toNat = e.dataOffset := UInt64.toNat_ofNat_of_lt' small
  have offset_lt := offset.toNat_lt
  refine ⟨UInt64.ofNat e.dataOffset + offset, ?_, ?_⟩
  · rw [Exec.u64Add, if_neg (by rw [place]; exact wraps)]
    rfl
  · rw [UInt64.toNat_add, place]
    omega

/-- A read stays in its file exactly when the sum of the offsets does not wrap around,
or nothing is read. -/
theorem read_stays_in_file_iff (inside : fs.Inside) (numbered : fs.Numbered) {e : CpioEntry}
    (member : e ∈ fs.entries) {inode : Inode} (named : inode.inodeNum = e.inodeNum) (offset : UInt64)
    (buf : List UInt8) (s : σ) :
    fs.read .wraps inode offset buf s = .done (fs.fileRead e offset.toNat buf) s ↔
      buf = [] ∨ e.dataOffset + offset.toNat < 2 ^ 64 := by
  have found := findInode_of_member numbered member named
  have within := inside e member
  have short := fs.data.short
  have offset_lt := offset.toNat_lt
  by_cases fits : e.dataOffset + offset.toNat < 2 ^ 64
  · obtain ⟨start, first, value⟩ := start_of_lt offset fits .wraps s
    have rest : e.dataEnd - start.toNat = e.size.toNat - offset.toNat := by
      rw [CpioEntry.dataEnd, value]
      omega
    rw [read_from found within first, rest, value]
    simp only [fits, or_true, iff_true]
    rfl
  · unfold CpioEntry.dataEnd at within
    obtain ⟨start, first, value⟩ := start_of_wrap (by omega) fits s
    have beyond : e.size.toNat - offset.toNat = 0 := by omega
    rw [read_from found (inside e member) first, fileRead, beyond, Nat.min_zero]
    simp only [fits, or_false]
    constructor
    · intro same
      have count := (Prod.mk.inj (Checked.Outcome.done.inj same).1).1
      rw [Except.ok.injEq, CpioEntry.dataEnd, value] at count
      apply List.length_eq_zero_iff.mp
      omega
    · rintro rfl
      rw [List.length_nil, Nat.zero_min]
      rfl

/-- The filesystem of the archive with one file. -/
def motdFs : InitramFs := ⟨motdArchive, [⟨"etc/motd", 2, 0x81A4, 3, 120⟩]⟩

theorem motdFs_inside : motdFs.Inside := by
  intro e member
  change e.dataEnd ≤ motdArchive.bytes.length
  rw [List.mem_singleton.mp member, motdArchive_length]
  decide

theorem read_stays_in_motd :
    motdFs.read .wraps (Inode.new 2 .regularFile) 1 [0, 0, 0] () =
      .done (motdFs.fileRead ⟨"etc/motd", 2, 0x81A4, 3, 120⟩ 1 [0, 0, 0]) () :=
  (read_stays_in_file_iff motdFs_inside (numbered_of_new new_motdArchive) List.mem_cons_self rfl 1 [0, 0, 0]
    ()).mpr (.inr (by decide))

/-- At an offset near the top of the range a read delivers the start of the archive. -/
theorem wrapped_read_leaves_file :
    motdFs.read .wraps (Inode.new 2 .regularFile) (0 - 120) [0, 0] () = .done (.ok 2, [0x30, 0x37]) () ∧
      motdFs.fileRead ⟨"etc/motd", 2, 0x81A4, 3, 120⟩ (0 - 120 : UInt64).toNat [0, 0] = (.ok 0, [0, 0]) := by
  constructor
  · have first : Exec.u64Add .wraps (UInt64.ofNat 120) (0 - 120) () = .done 0 () := rfl
    rw [read_from rfl (motdFs_inside _ List.mem_cons_self) first]
    rfl
  · rfl

end InitramFs
end ComputeKernel
