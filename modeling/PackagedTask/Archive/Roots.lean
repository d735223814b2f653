import PackagedTask.Archive.Construction

namespace PackagedTask.Archive
open Library

/-! The names that the constructor gives to the files below its root. -/

/-- A path below a directory: the directories on the way, and the file. -/
structure Relative where
  parts : List Bytes
  inside : parts ≠ []
  named : ∀ part ∈ parts, part ≠ [] ∧ slash ∉ part
  deriving DecidableEq

def Relative.text (relative : Relative) : Bytes := [slash].intercalate relative.parts

/-- A directory by the name it is opened under, with the regular files below it, each with whether
its extension is `.zip`. -/
structure Folder where
  root_dir : Bytes
  rooted : root_dir ≠ []
  files : List (Relative × Bool)
  distinct : (files.map Prod.fst).Nodup

namespace Folder
variable (folder : Folder)

def path (relative : Relative) : Bytes :=
  if folder.root_dir.getLast? = some slash then folder.root_dir ++ relative.text
  else folder.root_dir ++ slash :: relative.text

def permanent : List Relative := (folder.files.filter fun file => !file.2).map Prod.fst

def fileSystem (disk : Disk) : FileSystem :=
  FileSystem.construct disk folder.root_dir
    (folder.files.map fun file => (folder.path file.1, file.2))

def names (disk : Disk) : List Bytes :=
  ((folder.fileSystem disk).m_files.filter fun entry => !entry.is_zip).map FileData.fname

structure Resolves (disk : Disk) : Prop where
  opens : List.Forall₂
    (fun relative name => SameFile ((folder.fileSystem disk).path name) (folder.path relative))
    folder.permanent (folder.names disk)
  apart : (folder.names disk).Nodup

end Folder

section Collapse
variable {after : Bool} {first path part : Bytes}

theorem collapse_slash (first path : Bytes) :
    collapse after (first ++ slash :: path) = collapse after (first ++ [slash]) ++ collapse true path := by
  induction first generalizing after with
  | nil => cases after <;> simp [collapse]
  | cons byte first ih =>
      rw [List.cons_append, List.cons_append, collapse, collapse]
      split
      · cases after <;> simp [ih]
      · rw [ih, List.cons_append]

/-- The directory's own `/` and the one of `m_data_dir + '/' + name` make no difference together. -/
theorem sameFile_ended (first path : Bytes) :
    SameFile (first ++ [slash] ++ slash :: path) (first ++ [slash] ++ path) := by
  rw [SameFile, ← List.append_cons, ← List.append_cons, collapse_slash, collapse_slash first path,
    collapse, if_pos rfl, if_pos rfl]

theorem collapse_length_le : (collapse after path).length ≤ path.length := by
  induction path generalizing after with
  | nil => rfl
  | cons byte path ih =>
      have shorter : ∀ after, (collapse after path).length ≤ path.length := fun _ => ih
      rw [collapse]
      split
      · split
        · exact (shorter true).trans (Nat.le_succ _)
        · exact Nat.succ_le_succ (shorter true)
      · exact Nat.succ_le_succ (shorter false)

theorem collapse_part (nonempty : part ≠ []) (slashless : slash ∉ part) :
    collapse after (part ++ path) = part ++ collapse false path := by
  induction part generalizing after with
  | nil => exact absurd rfl nonempty
  | cons byte part ih =>
      rw [List.mem_cons, not_or] at slashless
      rw [List.cons_append, collapse, if_neg (Ne.symm slashless.1)]
      cases part with
      | nil => rfl
      | cons second part =>
          rw [ih (List.cons_ne_nil _ _) slashless.2]
          rfl

theorem collapse_intercalate {parts : List Bytes}
    (named : ∀ part ∈ parts, part ≠ [] ∧ slash ∉ part) :
    collapse after ([slash].intercalate parts) = [slash].intercalate parts := by
  induction parts generalizing after with
  | nil => rfl
  | cons part parts ih =>
      rw [List.forall_mem_cons] at named
      cases parts with
      | nil =>
          have alone := @collapse_part after [] part named.1.1 named.1.2
          rw [List.append_nil, collapse, List.append_nil] at alone
          rwa [List.intercalate_singleton]
      | cons second parts =>
          rw [List.intercalate_cons_cons, List.append_assoc, collapse_part named.1.1 named.1.2]
          change part ++ slash :: collapse true ([slash].intercalate (second :: parts)) = _
          rw [ih named.2]
          rfl

end Collapse

theorem construct_permanent (disk : Disk) (root_dir : Bytes) (listed : List (Bytes × Bool)) :
    (FileSystem.construct disk root_dir listed).m_data_dir = root_dir ∧
      ((FileSystem.construct disk root_dir listed).m_files.filter fun entry => !entry.is_zip) =
        (listed.filter fun lp => !lp.2).map fun lp => { fname := lp.1.drop (root_dir.length + 1) } := by
  have folded (zip_file_list : List Bytes) (fs : FileSystem) :
      (zip_file_list.foldl (addZippedDir disk) fs).m_data_dir = fs.m_data_dir ∧
        ((zip_file_list.foldl (addZippedDir disk) fs).m_files.filter fun entry => !entry.is_zip) =
          fs.m_files.filter fun entry => !entry.is_zip := by
    induction zip_file_list generalizing fs with
    | nil => exact ⟨rfl, rfl⟩
    | cons path zip_file_list ih =>
        have members : (disk.index path).filter (fun entry => !entry.is_zip) = [] := by
          rw [List.filter_eq_nil_iff]
          intro entry listed
          simp [(mem_disk_index listed).1]
        rw [List.foldl_cons, addZippedDir_index]
        refine ⟨(ih _).1, (ih _).2.trans ?_⟩
        rw [List.filter_append, members, List.append_nil]
  refine ⟨(folded _ _).1, (folded _ _).2.trans ?_⟩
  rw [List.filter_eq_self]
  intro entry made
  obtain ⟨lp, -, rfl⟩ := List.mem_map.mp made
  rfl

namespace Relative
variable (relative : Relative)

theorem text_injective : Function.Injective Relative.text := by
  rintro ⟨parts, inside, named⟩ ⟨parts', inside', named'⟩ same
  have split := congrArg (List.splitOn slash) same
  rw [text, text, List.splitOn_intercalate _ (fun part here => (named part here).2) inside,
    List.splitOn_intercalate _ (fun part here => (named' part here).2) inside'] at split
  simp only [split]

/-- The first byte of a path below a directory is no `/`, and nowhere are there two in a row. -/
theorem text_cons : ∃ byte rest, relative.text = byte :: rest ∧ byte ≠ slash ∧
    collapse true (byte :: rest) = byte :: rest := by
  obtain ⟨parts, inside, named⟩ := relative
  have clean := @collapse_intercalate true parts named
  obtain ⟨part, parts, rfl⟩ := List.exists_cons_of_ne_nil inside
  rw [List.forall_mem_cons] at named
  obtain ⟨byte, part, rfl⟩ := List.exists_cons_of_ne_nil named.1.1
  rw [List.intercalate_cons_cons_left] at clean
  refine ⟨byte, _, List.intercalate_cons_cons_left, ?_, clean⟩
  rintro rfl
  exact named.1.2 List.mem_cons_self

end Relative

namespace Folder
variable (folder : Folder) (disk : Disk)

theorem names_eq : folder.names disk = folder.permanent.map fun relative =>
    (folder.path relative).drop (folder.root_dir.length + 1) := by
  rw [names, fileSystem, (construct_permanent disk _ _).2, permanent, List.map_map, List.map_map,
    List.filter_map, List.map_map]
  rfl

theorem permanent_nodup : folder.permanent.Nodup :=
  folder.distinct.sublist (List.filter_sublist.map _)

theorem opened (name : Bytes) : (folder.fileSystem disk).path name =
    folder.root_dir ++ slash :: name := by
  rw [FileSystem.path, fileSystem, (construct_permanent disk _ _).1]
  rfl

/-- The iteration and the program name one file, though in two spellings where the root ends with a
`/`. -/
theorem spelled (relative : Relative) :
    SameFile (folder.path relative) (folder.root_dir ++ slash :: relative.text) := by
  by_cases ended : folder.root_dir.getLast? = some slash
  · obtain ⟨front, root⟩ := List.getLast?_eq_some_iff.mp ended
    rw [Folder.path, if_pos ended, root]
    exact (sameFile_ended front relative.text).symm
  · rw [Folder.path, if_neg ended]
    rfl

theorem resolves_of_bare (bare : folder.root_dir.getLast? ≠ some slash) : folder.Resolves disk := by
  have path (relative : Relative) :
      folder.path relative = folder.root_dir ++ slash :: relative.text := if_neg bare
  have names : folder.names disk = folder.permanent.map Relative.text := by
    rw [names_eq]
    refine List.map_congr_left fun relative _ => ?_
    rw [path, List.drop_length_add_append]
    rfl
  constructor
  · rw [names, List.forall₂_map_right_iff, List.forall₂_same]
    intro relative _
    rw [opened, path]
    rfl
  · rw [names]
    exact folder.permanent_nodup.map Relative.text_injective

theorem astray {relative : Relative} (ended : folder.root_dir.getLast? = some slash) :
    ¬ SameFile ((folder.fileSystem disk).path
      ((folder.path relative).drop (folder.root_dir.length + 1))) (folder.path relative) := by
  obtain ⟨front, root⟩ := List.getLast?_eq_some_iff.mp ended
  obtain ⟨byte, rest, text, headed, clean⟩ := relative.text_cons
  have path : folder.path relative = front ++ slash :: byte :: rest := by
    rw [Folder.path, if_pos ended, root, text, List.append_assoc]
    rfl
  have name : (folder.path relative).drop (folder.root_dir.length + 1) = rest := by
    rw [path, List.append_cons, ← root, List.drop_length_add_append]
    rfl
  intro same
  rw [name, opened, path, SameFile, root, ← List.append_cons, collapse_slash,
    collapse_slash front (byte :: rest), List.append_cancel_left_eq, clean, collapse, if_pos rfl,
    if_pos rfl] at same
  have shorter := @collapse_length_le true rest
  rw [same] at shorter
  exact absurd shorter (Nat.not_succ_le_self _)

theorem mem_permanent {relative : Relative} (listed : (relative, false) ∈ folder.files) :
    relative ∈ folder.permanent :=
  List.mem_map.mpr ⟨_, List.mem_filter.mpr ⟨listed, rfl⟩, rfl⟩

/-- The names resolve just if the root does not end with a `/`, or there are archives only. -/
theorem resolves_iff : folder.Resolves disk ↔
    folder.root_dir.getLast? ≠ some slash ∨ ∀ file ∈ folder.files, file.2 = true := by
  constructor
  · intro resolves
    by_contra neither
    push Not at neither
    obtain ⟨ended, ⟨relative, zip⟩, listed, plain⟩ := neither
    obtain rfl : zip = false := by simpa using plain
    have opens := resolves.opens
    rw [names_eq, List.forall₂_map_right_iff, List.forall₂_same] at opens
    exact folder.astray disk ended (opens relative (folder.mem_permanent listed))
  · rintro (bare | archives)
    · exact folder.resolves_of_bare disk bare
    · have none : folder.permanent = [] := by
        rw [permanent, List.filter_eq_nil_iff.mpr fun file listed => by simp [archives file listed]]
        rfl
      have unnamed : folder.names disk = [] := by rw [names_eq, none, List.map_nil]
      constructor
      · rw [unnamed, none]
        exact .nil
      · rw [unnamed]
        exact List.nodup_nil

end Folder

def dataFolder : Folder where
  root_dir := [0x2e, 0x2f, 0x44, 0x61, 0x74, 0x61, 0x2f]
  rooted := List.cons_ne_nil _ _
  files := [(⟨[[0x61], [0x62]], List.cons_ne_nil _ _, by decide⟩, false)]
  distinct := List.nodup_singleton _

theorem dataFolder_astray : dataFolder.names emptyDisk = [[0x2f, 0x62]] ∧
    ¬ dataFolder.Resolves emptyDisk := by
  have names : dataFolder.names emptyDisk = [[0x2f, 0x62]] := by
    rw [Folder.names_eq]
    rfl
  refine ⟨names, fun resolves => ?_⟩
  have opens := resolves.opens
  rw [names] at opens
  cases opens with
  | cons same _ =>
      rw [Folder.opened] at same
      exact absurd same (by decide)

end PackagedTask.Archive
