import PackagedTask.Archive.Packing

namespace PackagedTask.Archive
open Library Packed FileStream Streams

/-! `addFileToZIP` writes the new record over the old directory and the directory behind it. -/

theorem endRecord_concat (members : List Member) (member : Member) :
    endRecord (members ++ [member]) = grownEnd (endRecord members)
      ((locals members).length + member.localRecord.length)
      (directory 0 members ++ member.centralRecord (locals members).length).length := by
  have number : UInt16.ofNat (members ++ [member]).length = UInt16.ofNat members.length + 1 := by
    rw [List.length_append, List.length_singleton, UInt16.ofNat_add]
    rfl
  have offset : (locals (members ++ [member])).length =
      (locals members).length + member.localRecord.length := by
    rw [locals_append, List.length_append]
    simp [locals]
  have whole : directory 0 (members ++ [member]) =
      directory 0 members ++ member.centralRecord (locals members).length := by
    rw [directory_append, Nat.zero_add]
    simp [directory]
  rw [endRecord, number, offset, whole]
  rfl

theorem archive_concat (members : List Member) (member : Member) :
    archive (members ++ [member]) = locals members ++ member.localRecord ++ directory 0 members ++
      member.centralRecord (locals members).length ++ endBytes (endRecord (members ++ [member])) := by
  rw [archive, locals_append, directory_append, Nat.zero_add]
  simp [locals, directory]

theorem Intact.grown_eq (env : Environment) {members : List Member} (intact : Intact members)
    (file : File) : intact.foreign.grown env file = archive (members ++ [memberOf env file]) := by
  rw [archive_concat, endRecord_concat, ForeignArchive.grown]
  simp only [Intact.foreign, listing_records, List.drop_nil, List.append_nil, List.append_assoc]

theorem addFileToZIP_archive (env : Environment) {members : List Member} (intact : Intact members)
    {fs : FileSystem} {disk : Disk} {zipname : Bytes}
    (stored : disk.files (fs.path zipname) = some (archive members))
    (opens : disk.writable (fs.path zipname) = true) (file : File) :
    addFileToZIP env fs disk file zipname =
      if file.name ∈ members.map Member.name then (false, disk)
      else (true, disk.put (fs.path zipname) (archive (members ++ [memberOf env file]))) := by
  rw [← intact.foreign_content] at stored
  rw [ForeignArchive.addFileToZIP_foreign env intact.foreign_inhabited stored opens
    (fun record inside => intact.foreign_bare record (List.dropLast_subset _ inside)),
    intact.grown_eq]
  rw [show intact.foreign.records = records 0 members intact.sound from rfl, records_pushed]

/-- `zipname` after `createZIP` and any number of calls of `addFileToZIP`, all within the limits of
the format; `names` are the names of its members. -/
inductive Produced (env : Environment) (fs : FileSystem) (zipname : Bytes) :
    List Bytes → Disk → Prop
  | create {disk disk' : Disk} {filelist : List File} (inhabited : filelist ≠ [])
      (count : filelist.length < 2 ^ 16) (archivable : ∀ file ∈ filelist, file.Archivable)
      (created : createZIP env fs disk filelist zipname = (true, disk'))
      (small : disk'.Small (fs.path zipname)) :
      Produced env fs zipname (filelist.map File.name) disk'
  | append {names : List Bytes} {disk disk' : Disk} {file : File} {added : Bool}
      (produced : Produced env fs zipname names disk) (count : names.length < 65535)
      (archivable : file.Archivable)
      (ran : addFileToZIP env fs disk file zipname = (added, disk'))
      (small : disk'.Small (fs.path zipname)) :
      Produced env fs zipname (if added then names ++ [file.name] else names) disk'

section Produced
variable {env : Environment} {fs : FileSystem} {zipname : Bytes} {names : List Bytes} {disk : Disk}

theorem Intact.concat {members : List Member} (intact : Intact members)
    (count : members.length < 65535) {member : Member} (sound : member.Sound)
    (small : (archive (members ++ [member])).length < 2 ^ 32) : Intact (members ++ [member]) where
  inhabited := List.append_ne_nil_of_left_ne_nil intact.inhabited _
  count := by
    rw [List.length_append, List.length_singleton]
    omega
  sound := by
    intro other inside
    rcases List.mem_append.mp inside with old | new
    · exact intact.sound other old
    · exact List.mem_singleton.mp new ▸ sound
  small := small

theorem Produced.intact (produced : Produced env fs zipname names disk) :
    disk.writable (fs.path zipname) = true ∧ ∃ members, Intact members ∧
      disk.files (fs.path zipname) = some (archive members) ∧ members.map Member.name = names := by
  induction produced with
  | @create disk disk' filelist inhabited count archivable created small =>
      obtain ⟨opens, stored⟩ := createZIP_true created
      refine ⟨opens, filelist.map (memberOf env),
        intact_of_files env inhabited count archivable (small _ stored), stored, ?_⟩
      rw [List.map_map]
      rfl
  | @append names disk disk' file added produced count archivable ran small ih =>
      obtain ⟨opens, members, intact, stored, named⟩ := ih
      rw [addFileToZIP_archive env intact stored opens, named] at ran
      by_cases known : file.name ∈ names
      · rw [if_pos known] at ran
        cases ran
        exact ⟨opens, members, intact, stored, named⟩
      · rw [if_neg known] at ran
        cases ran
        have stored' := disk.put_files (fs.path zipname) (archive (members ++ [memberOf env file]))
        refine ⟨opens, members ++ [memberOf env file], ?_, stored', ?_⟩
        · refine intact.concat ?_ (memberOf_sound env archivable) (small _ stored')
          rw [← named, List.length_map] at count
          exact count
        · rw [List.map_append, named]
          rfl

/-- `addFileToZIP` returned true; the entries of the index stay and load as before, and one entry
for the file follows them. -/
def Appends (env : Environment) (fs : FileSystem) (disk : Disk) (file : File) (zipname : Bytes) :
    Prop :=
  ∃ disk' old new, addFileToZIP env fs disk file zipname = (true, disk') ∧
    (∀ fs', (addZippedDir disk fs' (fs.path zipname)).m_files = fs'.m_files ++ old) ∧
    (∀ fs', (addZippedDir disk' fs' (fs.path zipname)).m_files = fs'.m_files ++ (old ++ [new])) ∧
    (∀ entry ∈ old, ∃ loaded, loadZipFile env disk entry = .ok loaded ∧
      loadZipFile env disk' entry = .ok loaded) ∧
    ArchivedAs env disk' file new

theorem old_entries_load (env : Environment) {members : List Member} {member : Member}
    (intact : Intact members) (grown : Intact (members ++ [member])) {disk disk' : Disk}
    {path : Bytes} (stored : disk.files path = some (archive members))
    (stored' : disk'.files path = some (archive (members ++ [member]))) :
    ∀ entry ∈ entries path 0 members, ∃ loaded, loadZipFile env disk entry = .ok loaded ∧
      loadZipFile env disk' entry = .ok loaded := by
  have layout : archive members = [] ++ (locals members ++
      (directory 0 members ++ endBytes (endRecord members))) := by
    rw [List.nil_append, archive]
  -- the local records of the old members stay where they were
  have layout' : ∃ rest, archive (members ++ [member]) = [] ++ (locals members ++ rest) := by
    rw [archive, locals_append, List.append_assoc]
    exact ⟨_, (List.nil_append _).symm⟩
  obtain ⟨rest, layout'⟩ := layout'
  have before := entries_load env intact.sound stored intact.small layout
  have after := entries_load env intact.sound stored' grown.small layout'
  intro entry listed
  obtain ⟨i, inside, rfl⟩ := List.getElem_of_mem listed
  have inside' := before.length_eq ▸ inside
  exact ⟨_, (before.get inside' inside).2.2, (after.get inside' inside).2.2⟩

theorem small_of_appends {file : File} (appends : Appends env fs disk file zipname) :
    file.data.length < 2 ^ 32 := by
  obtain ⟨disk', old, new, -, -, -, -, -, -, loaded, result, same⟩ := appends
  exact same ▸ loadZipFile_length_lt result

theorem appends_of_small (zlib : env.ZlibFaithful) {members : List Member}
    (intact : Intact members) (opens : disk.writable (fs.path zipname) = true)
    (stored : disk.files (fs.path zipname) = some (archive members))
    (count : members.length < 65535) {file : File} (archivable : file.Archivable)
    (fresh : file.name ∉ members.map Member.name)
    (small : (archive (members ++ [memberOf env file])).length < 2 ^ 32)
    (short : file.data.length < 2 ^ 32) : Appends env fs disk file zipname := by
  have sound := memberOf_sound env archivable
  have grown := intact.concat count sound small
  have stored' := disk.put_files (fs.path zipname) (archive (members ++ [memberOf env file]))
  have new : entries (fs.path zipname) 0 (members ++ [memberOf env file]) =
      entries (fs.path zipname) 0 members ++
        [(memberOf env file).entry (fs.path zipname) (locals members).length] := by
    rw [entries_append, Nat.zero_add, entries, entries,
      if_pos (memberOf_indexed env archivable.filled short)]
  have here : (memberOf env file).StoredAt (archive (members ++ [memberOf env file]))
      (locals members).length := by
    rw [archive_concat]
    simp only [List.append_assoc]
    exact ⟨locals members, _, rfl, rfl⟩
  refine ⟨_, entries (fs.path zipname) 0 members,
    (memberOf env file).entry (fs.path zipname) (locals members).length, ?_, ?_, ?_,
    old_entries_load env intact grown stored stored', rfl, rfl, _,
    loadZipFile_member sound stored' small here, ?_⟩
  · rw [addFileToZIP_archive env intact stored opens, if_neg fresh]
  · intro fs'
    rw [addZippedDir_archive intact stored]
  · intro fs'
    rw [addZippedDir_archive grown stored', new]
  · rw [Member.loaded, unpack_memberOf zlib, File.kept_eq short]

theorem appends_iff_small (zlib : env.ZlibFaithful)
    (produced : Produced env fs zipname names disk) (count : names.length < 65535) {file : File}
    (archivable : file.Archivable)
    (small : (addFileToZIP env fs disk file zipname).2.Small (fs.path zipname)) :
    (file.name ∈ names → addFileToZIP env fs disk file zipname = (false, disk)) ∧
      (file.name ∉ names → (Appends env fs disk file zipname ↔ file.data.length < 2 ^ 32)) := by
  obtain ⟨opens, members, intact, stored, rfl⟩ := produced.intact
  rw [List.length_map] at count
  have ran := addFileToZIP_archive env intact stored opens file
  constructor
  · intro known
    rw [ran, if_pos known]
  · intro fresh
    rw [ran, if_neg fresh] at small
    have grown := small _ (disk.put_files _ _)
    exact ⟨small_of_appends,
      appends_of_small zlib intact opens stored count archivable fresh grown⟩

end Produced

def letterDisk : Disk :=
  emptyDisk.put (root.path []) (archive ([letterFile].map (memberOf sample)))

theorem letterDisk_small : letterDisk.Small (root.path []) :=
  small_of_sum [letterFile] (by decide) emptyDisk

theorem letter_intact : Intact ([letterFile].map (memberOf sample)) :=
  intact_of_files sample (List.cons_ne_nil letterFile []) (by decide)
    (by simp [letterFile_archivable]) (letterDisk_small _ (emptyDisk.put_files _ _))

theorem letterDisk_created :
    createZIP sample root emptyDisk [letterFile] [] = (true, letterDisk) :=
  createZIP_eq sample rfl [letterFile]

theorem letterDisk_produced : Produced sample root [] [letterFile.name] letterDisk :=
  .create (List.cons_ne_nil letterFile []) (by decide) (by simp [letterFile_archivable])
    letterDisk_created letterDisk_small

theorem letterDisk_ran (file : File) : addFileToZIP sample root letterDisk file [] =
    if file.name ∈ [letterFile.name] then (false, letterDisk)
    else (true, letterDisk.put (root.path [])
      (archive ([letterFile, file].map (memberOf sample)))) := by
  obtain ⟨opens, stored⟩ := createZIP_true letterDisk_created
  exact addFileToZIP_archive sample letter_intact stored opens file

theorem letters_append : addFileToZIP sample root letterDisk letterFile [] = (false, letterDisk) ∧
    Appends sample root letterDisk lettersFile [] := by
  have known : letterFile.name ∈ [letterFile.name] := List.mem_singleton.mpr rfl
  have fresh : lettersFile.name ∉ [letterFile.name] := by decide
  constructor
  · refine (appends_iff_small sample_zlibFaithful letterDisk_produced (by decide)
      letterFile_archivable ?_).1 known
    rw [letterDisk_ran, if_pos known]
    exact letterDisk_small
  · refine ((appends_iff_small sample_zlibFaithful letterDisk_produced (by decide)
      lettersFile_archivable ?_).2 fresh).mpr (by decide)
    rw [letterDisk_ran, if_neg fresh]
    exact small_of_sum [letterFile, lettersFile] (by decide) _

theorem huge_not_appends : sample.ZlibFaithful ∧
    Produced sample root [] [letterFile.name] letterDisk ∧ huge.name ∉ [letterFile.name] ∧
      huge.Archivable ∧ (addFileToZIP sample root letterDisk huge []).2.Small (root.path []) ∧
        ¬ Appends sample root letterDisk huge [] := by
  have fresh : huge.name ∉ [letterFile.name] :=
    show [(0x7a : UInt8)] ∉ [[(0x78 : UInt8)]] by decide
  refine ⟨sample_zlibFaithful, letterDisk_produced, fresh, huge_archivable, ?_, fun appends => ?_⟩
  · rw [letterDisk_ran, if_neg fresh]
    refine small_of_sum [letterFile, huge] ?_ _
    rw [List.map_cons, List.map_cons, List.map_nil, List.sum_cons, List.sum_cons, List.sum_nil,
      huge_size32, show huge.name.length = 1 from rfl]
    decide
  · have short := small_of_appends appends
    rw [huge_length] at short
    omega

end PackagedTask.Archive
