import PackagedTask.Archive.Roots

namespace PackagedTask.Archive
open Library Packed

/-! Members taken out of an archive and packed again. -/

/-- A new `FileSystem` over a directory whose only file is an archive, listed under this path. -/
def FileSystem.fresh (disk : Disk) (root_dir listed : Bytes) : FileSystem :=
  FileSystem.construct disk root_dir [(listed, true)]

/-- Both index the same names in the same order, and find the same content under each. -/
structure SameMembers (env : Environment) (times : Bytes → Int) (fs fs' : FileSystem)
    (disk disk' : Disk) : Prop where
  names : fs'.m_files.map FileData.key = fs.m_files.map FileData.key
  contents : ∀ name ∈ fs.m_files.map FileData.key, ∃ loaded loaded',
    fs.getFile env times disk name = .ok loaded ∧
      fs'.getFile env times disk' name = .ok loaded' ∧ loaded'.data = loaded.data

/-- The second archive too may be listed under any path that leads to it. -/
def Repacks (env : Environment) (disk : Disk) (root_dir listed : Bytes) : Prop :=
  let fs := FileSystem.fresh disk root_dir listed
  ∀ times, ∃ filelist,
    List.Forall₂ (fun entry file => fs.getFile env times disk entry.key = .ok file) fs.m_files
        filelist ∧
      filelist.map File.name = fs.m_files.map FileData.key ∧
      ∀ zipname disk' listed', createZIP env fs disk filelist zipname = (true, disk') →
        disk'.OneFile listed' (fs.path zipname) →
          SameMembers env times fs (FileSystem.fresh disk' root_dir listed') disk disk'

structure Batch (env : Environment) where
  files : List File
  inhabited : files ≠ []
  count : files.length < 2 ^ 16
  archivable : ∀ file ∈ files, file.Archivable
  short : ∀ file ∈ files, file.data.length < 2 ^ 32
  distinct : (files.map File.name).Nodup
  small : (archive (files.map (memberOf env))).length < 2 ^ 32

theorem exists_partner {α β : Type} {related : α → β → Prop} {first : List α} {second : List β}
    (pairs : List.Forall₂ related first second) {a : α} (listed : a ∈ first) :
    ∃ b ∈ second, related a b := by
  induction pairs with
  | nil => cases listed
  | cons here _ ih =>
      rcases List.mem_cons.mp listed with rfl | later
      · exact ⟨_, List.mem_cons_self, here⟩
      · obtain ⟨b, among, there⟩ := ih later
        exact ⟨b, List.mem_cons_of_mem _ among, there⟩

section Repacking
variable {env : Environment} {times : Bytes → Int} {disk : Disk} {root_dir path : Bytes}

theorem fresh_files : (FileSystem.fresh disk root_dir path).m_files = disk.index path := by
  have indexed := addZippedDir_index disk { m_data_dir := root_dir } path
  exact (congrArg FileSystem.m_files indexed).trans (List.nil_append _)

theorem loadZipFile_name {zf : FileData} {loaded : File}
    (result : loadZipFile env disk zf = .ok loaded) : loaded.name = zf.fname := by
  unfold loadZipFile at result
  cases opened : disk.files zf.fname with
  | none =>
      rw [opened] at result
      cases result
  | some content =>
      rw [opened] at result
      dsimp only at result
      split at result
      · cases result
      · split at result <;> cases result <;> rfl

theorem getFile_fresh_name {name : Bytes} {loaded : File}
    (result : (FileSystem.fresh disk root_dir path).getFile env times disk name = .ok loaded) :
    loaded.name = path := by
  cases found : (FileSystem.fresh disk root_dir path).find name with
  | none =>
      rw [FileSystem.getFile, found] at result
      cases result
  | some entry =>
      have listed := List.mem_of_find?_eq_some found
      rw [fresh_files] at listed
      obtain ⟨zip, stored⟩ := mem_disk_index listed
      rw [getFile_of_find found, if_pos zip] at result
      exact (loadZipFile_name result).trans stored

theorem pack_stamp {file : File} (m_last_write_time : Int) :
    (pack env { file with m_last_write_time }).2 = (pack env file).2 := by
  unfold pack
  dsimp only
  split <;> rfl

theorem archive_stamp {file : File} (m_last_write_time : Int) :
    (archive [memberOf env { file with m_last_write_time }]).length =
      (archive [memberOf env file]).length := by
  have header (file : File) : (memberOf env file).lfh.filenameLength = .ofNat file.name.length :=
    (pack_header env file).2.1
  have payload : (memberOf env { file with m_last_write_time }).payload = (memberOf env file).payload :=
    pack_stamp m_last_write_time
  simp only [archive, locals, directory, List.flatMap_cons, List.flatMap_nil, List.length_append,
    Member.localRecord, Member.centralRecord, LocalFileHeader.format.toBytes_length,
    CentralDirectoryFileHeader.format.toBytes_length, endBytes_length, header, payload]
  rfl

theorem fresh_single (zlib : env.ZlibFaithful) {file : File} (archivable : file.Archivable)
    (short : file.data.length < 2 ^ 32) (small : (archive [memberOf env file]).length < 2 ^ 32)
    (stored : disk.files path = some (archive [memberOf env file])) :
    (FileSystem.fresh disk root_dir path).m_files.map FileData.key = [file.name] ∧
      ∃ loaded, (FileSystem.fresh disk root_dir path).getFile env times disk file.name = .ok loaded ∧
        loaded.data = file.data := by
  obtain ⟨index, indexed, archived⟩ := @roundTrips_of_small env disk [file] zlib
    (List.cons_ne_nil _ _) (Nat.one_lt_two_pow (by decide)) (by simpa using archivable) path stored
    small
    { m_data_dir := root_dir } (by simpa using short)
  have files : (FileSystem.fresh disk root_dir path).m_files = index := indexed
  cases archived with
  | cons here rest =>
      cases rest
      rename_i entry
      obtain ⟨zip, named, loaded, result, same⟩ := here
      have key : entry.key = file.name := by rw [FileData.key, if_pos zip, named]
      have found : (FileSystem.fresh disk root_dir path).find file.name = some entry := by
        rw [FileSystem.find, files]
        exact List.find?_cons_of_pos (by simp [key])
      refine ⟨by rw [files, List.map_singleton, key], loaded, ?_, same⟩
      rw [getFile_of_find found, if_pos zip]
      exact result

end Repacking

section Created
variable {env : Environment} {fs : FileSystem} {disk disk' : Disk} {zipname root_dir listed : Bytes}
  {batch : Batch env}

theorem created_files (created : createZIP env fs disk batch.files zipname = (true, disk'))
    (onto : disk'.OneFile listed (fs.path zipname)) :
    disk'.files listed = some (archive (batch.files.map (memberOf env))) :=
  (disk'.files_same onto).trans (createZIP_true created).2

theorem named_of_repacks (zlib : env.ZlibFaithful)
    (created : createZIP env fs disk batch.files zipname = (true, disk'))
    (onto : disk'.OneFile listed (fs.path zipname)) (repacks : Repacks env disk' root_dir listed) :
    ∀ file ∈ batch.files, file.name = listed := by
  intro file packed
  obtain ⟨filelist, taken, named, -⟩ := repacks fun _ => 0
  obtain ⟨index, indexed, archived⟩ := roundTrips_of_small zlib batch.inhabited batch.count
    batch.archivable (created_files created onto) batch.small { m_data_dir := root_dir } batch.short
  have files : (FileSystem.fresh disk' root_dir listed).m_files = index := indexed
  -- the file has an entry, and what that entry's name loads has the archive's name
  obtain ⟨entry, inside, zip, key, -⟩ := exists_partner archived packed
  have keyed : file.name ∈ filelist.map File.name := by
    rw [named, files, List.mem_map]
    exact ⟨entry, inside, by rw [FileData.key, if_pos zip, key]⟩
  obtain ⟨loaded, among, same⟩ := List.mem_map.mp keyed
  obtain ⟨_, -, result⟩ := exists_partner taken.flip among
  exact same.symm.trans (getFile_fresh_name result)

theorem Batch.alone {path : Bytes} (alike : ∀ file ∈ batch.files, file.name = path) :
    ∃ file, batch.files = [file] := by
  obtain ⟨file, rest, shape⟩ := List.exists_cons_of_ne_nil batch.inhabited
  refine ⟨file, ?_⟩
  cases rest with
  | nil => exact shape
  | cons second rest =>
      have distinct := batch.distinct
      rw [shape, List.map_cons, List.map_cons, List.nodup_cons] at distinct
      rw [shape, List.forall_mem_cons, List.forall_mem_cons] at alike
      rw [alike.1, ← alike.2.1] at distinct
      exact absurd List.mem_cons_self distinct.1

theorem repacks_of_named (zlib : env.ZlibFaithful)
    (created : createZIP env fs disk batch.files zipname = (true, disk'))
    (onto : disk'.OneFile listed (fs.path zipname))
    (alike : ∀ file ∈ batch.files, file.name = listed) : Repacks env disk' root_dir listed := by
  intro times
  obtain ⟨file, alone⟩ := batch.alone alike
  have packed : file ∈ batch.files := alone ▸ List.mem_singleton_self file
  have archivable := batch.archivable file packed
  have stored := created_files created onto
  have small := batch.small
  rw [alone] at stored small
  obtain ⟨keys, loaded, result, same⟩ := @fresh_single env times disk' root_dir listed zlib file
    archivable (batch.short file packed) small stored
  have name : loaded.name = file.name := (getFile_fresh_name result).trans (alike file packed).symm
  have copy : loaded = { file with m_last_write_time := loaded.m_last_write_time } := by
    rw [← name, ← same]
  obtain ⟨entry, single, key⟩ := List.map_eq_singleton_iff.mp keys
  refine ⟨[loaded], ?_, ?_, fun zipname' disk'' listed' again onto' => ?_⟩
  · rw [single]
    exact .cons (key ▸ result) .nil
  · rw [keys, List.map_singleton, name]
  · have lengths := @archive_stamp env file loaded.m_last_write_time
    rw [← copy] at lengths
    obtain ⟨keys', loaded', result', same'⟩ := @fresh_single env times disk'' root_dir _ zlib loaded
      (by rw [copy]; exact ⟨archivable.named, archivable.short, archivable.noNul, archivable.filled⟩)
      (same ▸ batch.short file packed) (lengths ▸ small)
      ((disk''.files_same onto').trans (createZIP_true again).2)
    constructor
    · rw [keys, ← name]
      exact keys'
    · rw [keys, List.forall_mem_singleton]
      exact ⟨loaded, loaded', result, name ▸ result', same'⟩

theorem repacks_iff (zlib : env.ZlibFaithful) (batch : Batch env) (root_dir : Bytes)
    (created : createZIP env fs disk batch.files zipname = (true, disk'))
    (onto : disk'.OneFile listed (fs.path zipname)) :
    Repacks env disk' root_dir listed ↔ ∀ file ∈ batch.files, file.name = listed :=
  ⟨named_of_repacks zlib created onto, repacks_of_named zlib created onto⟩

end Created

def dataFolderRoot : FileSystem := { m_data_dir := dataDir }

def singleBatch (file : File) (archivable : file.Archivable)
    (sizes : 98 + 2 * file.name.length + file.data.length < 2 ^ 32) : Batch sample where
  files := [file]
  inhabited := List.cons_ne_nil _ _
  count := Nat.one_lt_two_pow (by decide)
  archivable := by simpa using archivable
  short := by
    rw [List.forall_mem_singleton]
    omega
  distinct := List.nodup_singleton _
  small := by
    have most := archive_length_le sample [file]
    have kept := file.size32_le
    simp only [List.map_cons, List.map_nil, List.sum_cons, List.sum_nil] at most ⊢
    omega

def zipPlace : Relative := ⟨[letterZip], List.cons_ne_nil _ _, by decide⟩

def zipFolder : Folder where
  root_dir := dataDir ++ [slash]
  rooted := by simp
  files := [(zipPlace, true)]
  distinct := List.nodup_singleton _

def zipFolderRoot : FileSystem := { m_data_dir := zipFolder.root_dir }

def selfNamed : File := ⟨dataZip, oneLetter, 0⟩

theorem selfNamed_archivable : selfNamed.Archivable :=
  ⟨by decide, by decide, by decide, by decide⟩

theorem selfNamed_repacks : ∃ disk,
    createZIP sample zipFolderRoot emptyDisk [selfNamed] letterZip = (true, disk) ∧
      Repacks sample disk zipFolder.root_dir (zipFolder.path zipPlace) := by
  have created := @createZIP_eq sample zipFolderRoot emptyDisk letterZip rfl [selfNamed]
  refine ⟨_, created, (repacks_iff sample_zlibFaithful
    (singleBatch selfNamed selfNamed_archivable (by decide)) zipFolder.root_dir created
      (Disk.slashes _ (zipFolder.spelled zipPlace))).mpr ?_⟩
  intro file packed
  rw [List.mem_singleton.mp packed]
  rfl

theorem letter_renamed :
    createZIP sample dataFolderRoot emptyDisk [letterFile] letterZip = (true, dataDisk) ∧
      ¬ Repacks sample dataDisk dataDir dataZip := by
  have created : createZIP sample dataFolderRoot emptyDisk [letterFile] letterZip =
    (true, dataDisk) := createZIP_eq sample rfl _
  refine ⟨created, fun repacks => ?_⟩
  have named := @named_of_repacks _ _ _ _ _ _ _
    (singleBatch letterFile letterFile_archivable (by decide)) sample_zlibFaithful created rfl repacks
  exact absurd (named letterFile (List.mem_singleton_self _)) (by decide)

end PackagedTask.Archive
