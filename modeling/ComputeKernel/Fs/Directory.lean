import ComputeKernel.Support.Selections
import ComputeKernel.Fs.Bounds

/-! The listing of a directory. `readdir` takes an entry for a child when its path goes on
behind the path of the directory with any number of slashes and a name, where a child has
exactly one slash there. -/

namespace ComputeKernel.InitramFs
open Checked (Exec Outcome)

variable {σ : Type} {s s' : σ} {data : ByteSlice} {fs : InitramFs} {inode : Inode}

/-- No path starts with a slash. -/
def Relative (fs : InitramFs) : Prop := ∀ e ∈ fs.entries, e.path.toList.head? ≠ some '/'

/-- The inode is that of the root, or of an entry that is a directory with this path. -/
inductive Denotes (fs : InitramFs) (inode : Inode) : Option String → Prop
  | root : inode.inodeNum = 1 → Denotes fs inode none
  | entry {e : CpioEntry} : e ∈ fs.entries → e.inodeNum = inode.inodeNum →
      e.mode &&& 0xF000 = 0x4000 → Denotes fs inode (some e.path)

/-- What stands before the name of a child. -/
def below : Option String → List Char
  | none => []
  | some dir => dir.toList ++ ['/']

/-- The name under which a path is a child of a directory. -/
def childName (dir : Option String) (path : String) : Option String :=
  if (below dir).isPrefixOf path.toList then
    let name := path.toList.drop (below dir).length
    if '/' ∈ name ∨ name = [] then none else some (String.ofList name)
  else none

/-- The listing has the children of the directory, in the order of the archive, and
nothing else. -/
def ListsChildren (fs : InitramFs) (inode : Inode) (dir : Option String) : Prop :=
  ∃ listing, fs.readdir inode = .ok listing ∧
    listing.map (fun c => (c.name, c.inodeNum)) =
      fs.entries.filterMap (fun e => (childName dir e.path).map (fun name => (name, e.inodeNum)))

/-- The path is that of the directory, a number of slashes and a name. -/
structure Apart (slashes : Nat) (dir path name : String) : Prop where
  path : path.toList = dir.toList ++ (List.replicate slashes '/' ++ name.toList)
  named : name ≠ ""
  plain : '/' ∉ name.toList

/-- The path looks like that of a child, with no slash between or with several. -/
def Mistaken (dir path : String) : Prop := ∃ slashes name, slashes ≠ 1 ∧ Apart slashes dir path name

section Names

variable {dir path name other : String} {slashes more : Nat}

theorem dropSlashes_plain (slashes : Nat) {chars : List Char} (plain : '/' ∉ chars) :
    (List.replicate slashes '/' ++ chars).dropWhile (fun c => c = '/') = chars := by
  induction slashes with
  | zero =>
      apply dropSlashes_relative
      intro first
      exact plain (List.mem_of_mem_head? first)
  | succ slashes ih =>
      rw [List.replicate_succ, List.cons_append, List.dropWhile_cons_of_pos (by decide)]
      exact ih

theorem exists_slashes (chars : List Char) :
    ∃ slashes, chars = List.replicate slashes '/' ++ chars.dropWhile (fun c => c = '/') := by
  induction chars with
  | nil => exact ⟨0, rfl⟩
  | cons c chars ih =>
      by_cases slash : c = '/'
      · obtain ⟨slashes, split⟩ := ih
        refine ⟨slashes + 1, ?_⟩
        rw [List.dropWhile_cons_of_pos (by simpa using slash), List.replicate_succ, List.cons_append,
          ← split, slash]
      · exact ⟨0, by rw [List.dropWhile_cons_of_neg (by simpa using slash)]; rfl⟩

/-- A path is split in one way only. -/
theorem Apart.unique (apart : Apart slashes dir path name) (apart' : Apart more dir path other) :
    slashes = more ∧ name = other := by
  have split := apart.path.symm.trans apart'.path
  rw [List.append_cancel_left_eq] at split
  have names : name.toList = other.toList := by
    rw [← dropSlashes_plain slashes apart.plain, split, dropSlashes_plain more apart'.plain]
  constructor
  · rw [names, List.append_cancel_right_eq] at split
    simpa only [List.length_replicate] using congrArg List.length split
  · exact String.toList_inj.mp names

/-- The characters that are listed as a name. -/
theorem listed_name_iff {chars : List Char} :
    ¬('/' ∈ chars ∨ chars = []) ∧ String.ofList chars = name ↔
      chars = name.toList ∧ name ≠ "" ∧ '/' ∉ name.toList := by
  constructor
  · rintro ⟨proper, rfl⟩
    rw [not_or] at proper
    rw [String.toList_ofList]
    refine ⟨rfl, ?_, proper.1⟩
    intro empty
    rw [← String.toList_inj, String.toList_ofList] at empty
    exact proper.2 empty
  · rintro ⟨rfl, named, plain⟩
    refine ⟨?_, String.ofList_toList⟩
    rintro (slash | empty)
    · exact plain slash
    · exact named (String.toList_inj.mp empty)

theorem drop_of_isPrefixOf {front whole : List Char} (isPrefix : front.isPrefixOf whole = true) :
    whole = front ++ whole.drop front.length := by
  obtain ⟨rest, rfl⟩ := List.isPrefixOf_iff_prefix.mp isPrefix
  rw [List.drop_left]

/-- The names that `readdir` lists. -/
theorem child_name_iff {e : CpioEntry} {number : UInt64} :
    (child dir e).map (fun c => (c.name, c.inodeNum)) = some (name, number) ↔
      (∃ slashes, Apart slashes dir e.path name) ∧ e.inodeNum = number := by
  unfold child
  split
  · next isPrefix =>
      have split := drop_of_isPrefixOf isPrefix
      generalize e.path.toList.drop dir.toList.length = rest at split
      simp only [Option.map_eq_some_iff, Option.ite_none_left_eq_some, Option.some.injEq,
        Prod.mk.injEq]
      constructor
      · rintro ⟨_, ⟨proper, rfl⟩, same, number⟩
        obtain ⟨stripped, named, plain⟩ := listed_name_iff.mp ⟨proper, same⟩
        obtain ⟨slashes, whole⟩ := exists_slashes rest
        rw [stripped] at whole
        exact ⟨⟨slashes, split.trans (congrArg _ whole), named, plain⟩, number⟩
      · rintro ⟨⟨slashes, path, named, plain⟩, number⟩
        have whole := split.symm.trans path
        rw [List.append_cancel_left_eq] at whole
        have stripped := dropSlashes_plain slashes plain
        rw [← whole] at stripped
        obtain ⟨proper, same⟩ := listed_name_iff.mpr ⟨stripped, named, plain⟩
        exact ⟨_, ⟨proper, rfl⟩, same, number⟩
  · next noPrefix =>
      constructor
      · exact nofun
      · rintro ⟨⟨slashes, apart⟩, _⟩
        exact absurd (List.isPrefixOf_iff_prefix.mpr ⟨_, apart.path.symm⟩) noPrefix

theorem childName_iff {dir : Option String} :
    childName dir path = some name ↔
      path.toList = below dir ++ name.toList ∧ name ≠ "" ∧ '/' ∉ name.toList := by
  unfold childName
  split
  · next isPrefix =>
      have split := drop_of_isPrefixOf isPrefix
      generalize path.toList.drop (below dir).length = rest at split
      rw [split, List.append_cancel_left_eq, ← listed_name_iff, Option.ite_none_left_eq_some,
        Option.some.injEq]
  · next noPrefix =>
      constructor
      · exact nofun
      · rintro ⟨split, _⟩
        exact absurd (List.isPrefixOf_iff_prefix.mpr ⟨_, split.symm⟩) noPrefix

/-- A child of a directory other than the root is one slash away. -/
theorem childName_apart : childName (some dir) path = some name ↔ Apart 1 dir path name := by
  rw [childName_iff, below, List.append_assoc]
  constructor
  · rintro ⟨split, named, plain⟩
    exact ⟨split, named, plain⟩
  · rintro ⟨split, named, plain⟩
    exact ⟨split, named, plain⟩

theorem childName_root (relative : path.toList.head? ≠ some '/') :
    childName none path = some name ↔ ∃ slashes, Apart slashes "" path name := by
  rw [childName_iff, below, List.nil_append]
  constructor
  · rintro ⟨split, named, plain⟩
    exact ⟨0, split, named, plain⟩
  · rintro ⟨slashes, split, named, plain⟩
    cases slashes with
    | zero => exact ⟨split, named, plain⟩
    | succ slashes =>
        -- Such a path starts with a slash.
        rw [split] at relative
        exact absurd rfl relative

end Names

/-- The directory that a listing is made for. -/
theorem readdir_of_denotes (numbered : fs.Numbered) {dir : Option String}
    (denotes : fs.Denotes inode dir) :
    fs.readdir inode = .ok (fs.entries.filterMap (child (dir.getD ""))) := by
  unfold readdir
  cases denotes with
  | root number => rw [if_pos number]; rfl
  | @entry e member number isDirectory =>
      have notRoot := numbered.notRoot e member
      rw [number] at notRoot
      rw [if_neg notRoot, findInode_of_member numbered member number.symm]
      rfl

section Listing

variable {dir : Option String} {e : CpioEntry}

/-- Every child is listed. -/
theorem listed_of_childName (relative : e.path.toList.head? ≠ some '/') {listed : String × UInt64}
    (isChild : (childName dir e.path).map (fun name => (name, e.inodeNum)) = some listed) :
    (child (dir.getD "") e).map (fun c => (c.name, c.inodeNum)) = some listed := by
  obtain ⟨name, named, rfl⟩ := Option.map_eq_some_iff.mp isChild
  rw [child_name_iff]
  refine ⟨?_, rfl⟩
  cases dir with
  | none => exact (childName_root relative).mp named
  | some dir => exact ⟨1, childName_apart.mp named⟩

/-- An entry is treated as it should be, unless it is mistaken for a child. -/
theorem listed_eq_iff (relative : e.path.toList.head? ≠ some '/') :
    (child (dir.getD "") e).map (fun c => (c.name, c.inodeNum)) =
        (childName dir e.path).map (fun name => (name, e.inodeNum)) ↔
      ∀ d, dir = some d → ¬Mistaken d e.path := by
  constructor
  · rintro same d rfl ⟨slashes, name, several, apart⟩
    have listed := child_name_iff.mpr ⟨⟨slashes, apart⟩, rfl⟩
    rw [Option.getD_some] at same
    rw [same] at listed
    obtain ⟨other, isChild, _⟩ := Option.map_eq_some_iff.mp listed
    exact several (apart.unique (childName_apart.mp isChild)).1
  · intro right
    ext ⟨name, number⟩
    constructor
    · intro listed
      obtain ⟨⟨slashes, apart⟩, rfl⟩ := child_name_iff.mp listed
      rw [Option.map_eq_some_iff]
      refine ⟨name, ?_, rfl⟩
      cases dir with
      | none => exact (childName_root relative).mpr ⟨slashes, apart⟩
      | some d =>
          have one : slashes = 1 :=
            Decidable.byContradiction (fun several => right d rfl ⟨slashes, name, several, apart⟩)
          rw [one] at apart
          exact childName_apart.mpr apart
    · exact listed_of_childName relative

end Listing

/-- The root is listed as it should be. Any other directory is if and only if no path of
the archive consists of its path, no slash or several, and a name. -/
theorem readdir_lists_children_iff (parsed : new data s = .done (some fs) s') (relative : fs.Relative)
    {dir : Option String} (denotes : fs.Denotes inode dir) :
    fs.ListsChildren inode dir ↔ ∀ d, dir = some d → ∀ e ∈ fs.entries, ¬Mistaken d e.path := by
  have listing := readdir_of_denotes (numbered_of_new parsed) denotes
  have selections : fs.ListsChildren inode dir ↔
      fs.entries.filterMap (fun e => (child (dir.getD "") e).map (fun c => (c.name, c.inodeNum))) =
        fs.entries.filterMap (fun e => (childName dir e.path).map (fun name => (name, e.inodeNum))) := by
    rw [ListsChildren, listing]
    simp only [Except.ok.injEq, exists_eq_left', List.map_filterMap]
  rw [selections, Selections.filterMap_eq_iff]
  · constructor
    · intro same d isDir e member
      exact (listed_eq_iff (relative e member)).mp (same e member) d isDir
    · intro right e member
      exact (listed_eq_iff (relative e member)).mpr (fun d isDir => right d isDir e member)
  · intro e member listed isChild
    exact listed_of_childName (relative e member) isChild

def etc : CpioFile where
  path := "etc"
  mode := 0x41ED
  contents := []
  named := by decide
  relative := by decide
  notTrailer := by decide

/-- A symbolic link. -/
def lib : CpioFile where
  path := "lib"
  mode := 0xA1FF
  contents := [0x75, 0x73, 0x72]
  named := by decide
  relative := by decide
  notTrailer := by decide

theorem motd_contents_short : motd.contents.length < 2 ^ 32 := by decide

theorem motd_name_short : (pathBytes motd.path).length + 1 < 2 ^ 32 := by decide

def etcMembers : List Member :=
  [Member.ofFile etc (by decide) (by decide), Member.ofFile motd motd_contents_short motd_name_short,
    Member.ofFile lib (by decide) (by decide)]

def etcArchive : ByteSlice where
  bytes := archive etcMembers Trailer.standard []
  short := by decide +kernel

def etcFs : InitramFs where
  data := etcArchive
  entries := [⟨"etc", 2, 0x41ED, 0, 116⟩, ⟨"etc/motd", 3, 0x81A4, 3, 236⟩, ⟨"lib", 4, 0xA1FF, 3, 356⟩]

theorem new_etcArchive : new etcArchive () = .done (some etcFs) () := by
  have entries : entriesOf 0 2 etcMembers = etcFs.entries := by decide +kernel
  change new etcArchive () = .done (some { data := etcArchive, entries := etcFs.entries }) ()
  rw [← entries]
  exact new_archive rfl ()

theorem etcFs_relative : etcFs.Relative := by
  unfold Relative
  decide +kernel

theorem etc_denotes : etcFs.Denotes (Inode.new 2 .directory) (some "etc") :=
  .entry (e := ⟨"etc", 2, 0x41ED, 0, 116⟩) List.mem_cons_self rfl (by decide)

theorem readdir_lists_etc :
    etcFs.ListsChildren (Inode.new 2 .directory) (some "etc") ∧
      etcFs.readdir (Inode.new 2 .directory) = .ok [⟨"motd", 3, .regularFile⟩] := by
  refine ⟨(readdir_lists_children_iff new_etcArchive etcFs_relative etc_denotes).mpr ?_, by decide +kernel⟩
  intro d isDir e member
  cases isDir
  have agree : (child "etc" e).map (fun c => (c.name, c.inodeNum)) =
      (childName (some "etc") e.path).map (fun name => (name, e.inodeNum)) := by
    revert e
    decide +kernel
  have right : _ ↔ ∀ d, some "etc" = some d → _ := listed_eq_iff (etcFs_relative e member)
  exact right.mp agree "etc" rfl

/-- A file whose path starts like that of the directory. -/
def etcetera : CpioFile where
  path := "etcetera"
  mode := 0x81A4
  contents := []
  named := by decide
  relative := by decide
  notTrailer := by decide

def etceteraMembers : List Member :=
  [Member.ofFile etc (by decide) (by decide), Member.ofFile etcetera (by decide) (by decide)]

def etceteraArchive : ByteSlice where
  bytes := archive etceteraMembers Trailer.standard []
  short := by decide +kernel

/-- A file next to a directory is listed inside it, under the rest of its name. -/
theorem etcetera_listed_inside_etc :
    ∃ fs, new etceteraArchive () = .done (some fs) () ∧ fs.Relative ∧
      (fs.entries.map CpioEntry.path).Nodup ∧ fs.Denotes (Inode.new 2 .directory) (some "etc") ∧
      fs.readdir (Inode.new 2 .directory) = .ok [⟨"etera", 3, .regularFile⟩] ∧
      ¬fs.ListsChildren (Inode.new 2 .directory) (some "etc") := by
  have entries : entriesOf 0 2 etceteraMembers =
      [⟨"etc", 2, 0x41ED, 0, 116⟩, ⟨"etcetera", 3, 0x81A4, 0, 236⟩] := by decide +kernel
  have parsed : new etceteraArchive () = _ := new_archive rfl ()
  rw [entries] at parsed
  have listing : (⟨etceteraArchive, [⟨"etc", 2, 0x41ED, 0, 116⟩, ⟨"etcetera", 3, 0x81A4, 0, 236⟩]⟩ :
      InitramFs).readdir (Inode.new 2 .directory) = .ok [⟨"etera", 3, .regularFile⟩] := by decide +kernel
  refine ⟨_, parsed, ?_, by decide +kernel, ?_, listing, ?_⟩
  · unfold Relative
    decide +kernel
  · exact .entry (e := ⟨"etc", 2, 0x41ED, 0, 116⟩) List.mem_cons_self rfl (by decide)
  · rintro ⟨other, listed, children⟩
    rw [listing] at listed
    cases listed
    exact absurd children (by decide +kernel)

section Agreement

variable {e : CpioEntry} {dirent : DirEntry}

/-- Where an entry of a listing comes from. -/
theorem child_of_readdir {listing : List DirEntry} (listed : fs.readdir inode = .ok listing)
    (member : dirent ∈ listing) : ∃ dir, ∃ e ∈ fs.entries, child dir e = some dirent := by
  unfold readdir at listed
  split at listed
  · cases listed
    exact ⟨"", List.mem_filterMap.mp member⟩
  · split at listed
    · cases listed
    · next entry _ =>
        cases listed
        exact ⟨entry.path, List.mem_filterMap.mp member⟩

theorem child_inodeNum {dir : String} (isChild : child dir e = some dirent) :
    dirent.inodeNum = e.inodeNum := by
  have named := congrArg (Option.map (fun c : DirEntry => (c.name, c.inodeNum))) isChild
  exact (child_name_iff.mp named).2.symm

theorem child_named {dir : String} (isChild : child dir e = some dirent) : e.path ≠ "" := by
  have named := congrArg (Option.map (fun c : DirEntry => (c.name, c.inodeNum))) isChild
  obtain ⟨⟨slashes, apart⟩, _⟩ := child_name_iff.mp named
  intro empty
  have chars := apart.path
  rw [empty] at chars
  have rest := (List.append_eq_nil_iff.mp (List.append_eq_nil_iff.mp chars.symm).2).2
  exact apart.named (String.toList_inj.mp rest)

/-- A listing does not tell symbolic links from files. -/
theorem child_kind {dir : String} (isChild : child dir e = some dirent) :
    dirent.kind = if e.mode &&& 0xF000 = 0x4000 then .directory else .regularFile := by
  unfold child at isChild
  split at isChild
  · obtain ⟨_, made⟩ := Option.ite_none_left_eq_some.mp isChild
    cases made
    rfl
  · cases isChild

theorem kind_eq_child_kind_iff {dir : String} (isChild : child dir e = some dirent) :
    e.kind = dirent.kind ↔ e.mode &&& 0xF000 ≠ 0xA000 := by
  rw [child_kind isChild, CpioEntry.kind]
  by_cases isDir : e.mode &&& 0xF000 = 0x4000
  · simp [isDir]
  · by_cases isLink : e.mode &&& 0xF000 = 0xA000
    · simp [isLink]
    · simp [isDir, isLink]

end Agreement

/-- An entry that is listed is found under its path, with and without a leading slash,
with the number it is listed with. Its kind is the one it is listed with if and only if it
is not a symbolic link. -/
theorem readdir_lookup_agree_iff (parsed : new data s = .done (some fs) s') (relative : fs.Relative)
    (distinct : (fs.entries.map CpioEntry.path).Nodup) {listing : List DirEntry}
    (listed : fs.readdir inode = .ok listing) {dirent : DirEntry} (shown : dirent ∈ listing)
    {e : CpioEntry} (member : e ∈ fs.entries) (made : e.inodeNum = dirent.inodeNum)
    {path : String} (full : path = e.path ∨ path = "/" ++ e.path) :
    ∃ found, fs.lookup path = .ok found ∧ found.inodeNum = dirent.inodeNum ∧
      (found.kind = dirent.kind ↔ e.mode &&& 0xF000 ≠ 0xA000) := by
  obtain ⟨dir, source, inside, isChild⟩ := child_of_readdir listed shown
  have same : source = e := List.inj_on_of_nodup_map (numbered_of_new parsed).distinct inside member
    ((child_inodeNum isChild).symm.trans made.symm)
  subst same
  obtain ⟨notRoot, notEmpty⟩ := path_not_root (child_named isChild) (relative source member) full
  have found := find_entry member relative distinct full
  exact ⟨_, lookup_found found notRoot notEmpty, made, kind_eq_child_kind_iff isChild⟩

theorem readdir_lookup_agree_etc :
    ∃ found, etcFs.lookup "/etc" = .ok found ∧ found.inodeNum = 2 ∧ found.kind = .directory := by
  have listed : etcFs.readdir (Inode.new 1 .directory) =
      .ok [⟨"etc", 2, .directory⟩, ⟨"lib", 4, .regularFile⟩] := by decide +kernel
  obtain ⟨found, looked, number, kind⟩ := readdir_lookup_agree_iff new_etcArchive etcFs_relative
    (by decide +kernel) listed List.mem_cons_self (e := ⟨"etc", 2, 0x41ED, 0, 116⟩) List.mem_cons_self
    rfl (show "/etc" = _ ∨ "/etc" = _ from Or.inr rfl)
  exact ⟨found, looked, number, kind.mpr (by decide)⟩

/-- A symbolic link is listed as a file and found as a link. -/
theorem link_listed_as_file :
    new etcArchive () = .done (some etcFs) () ∧ etcFs.Relative ∧
      (etcFs.entries.map CpioEntry.path).Nodup ∧
      etcFs.readdir (Inode.new 1 .directory) =
        .ok [⟨"etc", 2, .directory⟩, ⟨"lib", 4, .regularFile⟩] ∧
      ∃ found, etcFs.lookup "lib" = .ok found ∧ found.inodeNum = 4 ∧ found.kind = .symlink := by
  refine ⟨new_etcArchive, etcFs_relative, by decide +kernel, by decide +kernel, _, rfl, ?_⟩
  decide +kernel

end ComputeKernel.InitramFs
