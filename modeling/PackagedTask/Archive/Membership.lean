import PackagedTask.Archive.Repacking

namespace PackagedTask.Archive
open Library

/-! The members that the index knows against those that `addFileToZIP` knows. -/

/-- The archive `zipname` after `createZIP` and any calls of `addFileToZIP`, within the limits of
the format, with the files that were written. -/
inductive Written (env : Environment) (fs : FileSystem) (zipname : Bytes) : List File → Disk → Prop
  | create {disk disk' : Disk} {filelist : List File} (inhabited : filelist ≠ [])
      (count : filelist.length < 2 ^ 16) (nameable : ∀ file ∈ filelist, file.Nameable)
      (distinct : (filelist.map File.name).Nodup)
      (created : createZIP env fs disk filelist zipname = (true, disk'))
      (small : disk'.Small (fs.path zipname)) : Written env fs zipname filelist disk'
  | append {files : List File} {disk disk' : Disk} {file : File} {added : Bool}
      (written : Written env fs zipname files disk) (count : files.length < 65535)
      (nameable : file.Nameable)
      (ran : addFileToZIP env fs disk file zipname = (added, disk'))
      (small : disk'.Small (fs.path zipname)) :
      Written env fs zipname (if added then files ++ [file] else files) disk'

/-- A new index has a name just if `addFileToZIP` refuses it, whichever path to the archive the new
`FileSystem` comes by. -/
def FoundAgain (env : Environment) (fs : FileSystem) (disk : Disk) (zipname root_dir : Bytes) : Prop :=
  ∀ listed, disk.OneFile listed (fs.path zipname) → ∀ file,
    (FileSystem.fresh disk root_dir listed).isExist file.name = true ↔
      (addFileToZIP env fs disk file zipname).1 = false

section Written
variable {env : Environment} {fs : FileSystem} {zipname : Bytes} {files : List File} {disk : Disk}

structure Packed (env : Environment) (fs : FileSystem) (zipname : Bytes) (files : List File)
    (disk : Disk) : Prop where
  opens : disk.writable (fs.path zipname) = true
  stored : disk.files (fs.path zipname) = some (archive (files.map (memberOf env)))
  intact : Intact (files.map (memberOf env))
  distinct : (files.map File.name).Nodup

theorem Packed.addFileToZIP (packed : Packed env fs zipname files disk) (file : File) :
    Archive.addFileToZIP env fs disk file zipname =
      if file.name ∈ files.map File.name then (false, disk)
      else (true, disk.put (fs.path zipname) (archive ((files ++ [file]).map (memberOf env)))) := by
  rw [addFileToZIP_archive env packed.intact packed.stored packed.opens, List.map_map, List.map_append]
  rfl

theorem Written.packed (written : Written env fs zipname files disk) :
    Packed env fs zipname files disk := by
  induction written with
  | create inhabited count nameable distinct created small =>
      obtain ⟨opens, stored⟩ := createZIP_true created
      exact ⟨opens, stored, intact_of_nameable env inhabited count nameable (small _ stored), distinct⟩
  | @append files disk disk' file added written count nameable ran small ih =>
      rw [ih.addFileToZIP] at ran
      by_cases known : file.name ∈ files.map File.name
      · rw [if_pos known] at ran
        cases ran
        exact ih
      · rw [if_neg known] at ran
        cases ran
        have stored := disk.put_files (fs.path zipname) (archive ((files ++ [file]).map (memberOf env)))
        have grown := small _ stored
        rw [List.map_append] at grown
        rw [if_pos rfl]
        refine ⟨ih.opens, stored, ?_, ?_⟩
        · rw [List.map_append]
          refine ih.intact.concat ?_ (nameable.sound env) grown
          rwa [List.length_map]
        · rw [List.map_append]
          exact (List.nodup_append.mpr ⟨ih.distinct, List.nodup_singleton _, by
            intro name listed other same
            rw [List.map_singleton, List.mem_singleton] at same
            exact fun equal => known (same ▸ equal ▸ listed)⟩)

theorem entries_keys (path : Bytes) (offset : Nat) (members : List Member) :
    (entries path offset members).map FileData.key =
      (members.filter fun member => member.Indexed).map Member.name := by
  induction members generalizing offset with
  | nil => rfl
  | cons member members ih =>
      rw [entries, List.filter_cons]
      by_cases indexed : member.Indexed
      · rw [if_pos indexed, if_pos (decide_eq_true indexed), List.map_cons, ih, List.map_cons]
        rfl
      · rw [if_neg indexed, if_neg (by simpa using indexed), ih]

theorem isExist_iff {fs : FileSystem} {fname : Bytes} :
    fs.isExist fname = true ↔ fname ∈ fs.m_files.map FileData.key := by
  rw [FileSystem.isExist, List.any_eq_true, List.mem_map]
  constructor
  · rintro ⟨entry, listed, same⟩
    exact ⟨entry, listed, (eq_of_beq same).symm⟩
  · rintro ⟨entry, listed, rfl⟩
    exact ⟨entry, listed, beq_self_eq_true _⟩

theorem Packed.isExist_iff (packed : Packed env fs zipname files disk) {listed : Bytes}
    (onto : disk.OneFile listed (fs.path zipname)) (root_dir fname : Bytes) :
    (FileSystem.fresh disk root_dir listed).isExist fname = true ↔
      ∃ file ∈ files, file.size32 ≠ 0 ∧ file.name = fname := by
  rw [Archive.isExist_iff, fresh_files, index_stored ((disk.files_same onto).trans packed.stored),
    index_archive packed.intact, entries_keys, List.filter_map, List.map_map, List.mem_map]
  simp only [List.mem_filter, Function.comp_apply, decide_eq_true_eq, memberOf_indexed_iff, and_assoc]
  rfl

theorem Packed.refused_iff (packed : Packed env fs zipname files disk) (file : File) :
    (Archive.addFileToZIP env fs disk file zipname).1 = false ↔ file.name ∈ files.map File.name := by
  rw [packed.addFileToZIP]
  split <;> simp [*]

theorem File.size32_ne_zero_iff (file : File) : file.size32 ≠ 0 ↔ ¬ 2 ^ 32 ∣ file.data.length := by
  rw [file.size32_eq, Nat.dvd_iff_mod_eq_zero]

/-- A file of no bytes, or of a multiple of 4 GiB, is refused and not found. -/
theorem foundAgain_iff (written : Written env fs zipname files disk) (root_dir : Bytes) :
    FoundAgain env fs disk zipname root_dir ↔ ∀ file ∈ files, ¬ 2 ^ 32 ∣ file.data.length := by
  have packed := written.packed
  constructor
  · intro found file packedIn
    have refused := (packed.refused_iff file).mpr (List.mem_map_of_mem packedIn)
    obtain ⟨other, among, sized, same⟩ :=
      (packed.isExist_iff rfl root_dir _).mp ((found _ rfl file).mpr refused)
    rw [← List.inj_on_of_nodup_map packed.distinct among packedIn same]
    exact other.size32_ne_zero_iff.mp sized
  · intro sized listed onto file
    rw [packed.isExist_iff onto, packed.refused_iff, List.mem_map]
    constructor
    · rintro ⟨other, among, -, same⟩
      exact ⟨other, among, same⟩
    · rintro ⟨other, among, same⟩
      exact ⟨other, among, other.size32_ne_zero_iff.mpr (sized other among), same⟩

end Written

def emptyFile : File := ⟨[0x65], [], 0⟩

def emptyFileDisk : Disk := emptyDisk.put dataZip (archive ([emptyFile].map (memberOf sample)))

theorem emptyFile_written : Written sample dataFolderRoot letterZip [emptyFile] emptyFileDisk := by
  have nameable : emptyFile.Nameable := ⟨by decide, by decide, by decide⟩
  exact .create (List.cons_ne_nil _ _) (by decide) (by simpa using nameable) (List.nodup_singleton _)
    (@createZIP_eq sample _ emptyDisk _ rfl [emptyFile]) (small_of_sum [emptyFile] (by decide) _)

theorem emptyFile_lost : Written sample dataFolderRoot letterZip [emptyFile] emptyFileDisk ∧
    ¬ FoundAgain sample dataFolderRoot emptyFileDisk letterZip dataDir := by
  have packed := emptyFile_written.packed
  refine ⟨emptyFile_written, fun found => ?_⟩
  have refused := (packed.refused_iff emptyFile).mpr (List.mem_singleton_self _)
  obtain ⟨file, among, sized, -⟩ :=
    (packed.isExist_iff rfl dataDir _).mp ((found _ rfl emptyFile).mpr refused)
  rw [List.mem_singleton.mp among] at sized
  exact sized (by decide)

theorem letter_found : FoundAgain sample dataFolderRoot dataDisk letterZip dataDir := by
  have written : Written sample dataFolderRoot letterZip [letterFile] dataDisk :=
    .create (List.cons_ne_nil _ _) (by decide) (by simpa using letterFile_archivable.nameable)
      (List.nodup_singleton _) (@createZIP_eq sample _ emptyDisk _ rfl [letterFile])
      (small_of_sum [letterFile] (by decide) _)
  refine (foundAgain_iff written dataDir).mpr ?_
  rw [List.forall_mem_singleton]
  decide

end PackagedTask.Archive
