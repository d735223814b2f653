import PackagedTask.Archive.Files
import PackagedTask.Archive.Growing

namespace PackagedTask.Archive
open Library Streams

/-! The index that the constructor builds. -/

/-- The constructor, for the regular files that the iteration over `root_dir` lists, each with
whether its extension is `.zip`. -/
def FileSystem.construct (disk : Disk) (root_dir : Bytes) (listed : List (Bytes × Bool)) :
    FileSystem :=
  let m_files := (listed.filter fun lp => !lp.2).map fun lp =>
    { fname := lp.1.drop (root_dir.length + 1) }
  let zip_file_list := (listed.filter fun lp => lp.2).map Prod.fst
  zip_file_list.foldl (addZippedDir disk) { m_files := m_files, m_data_dir := root_dir }

def Disk.index (disk : Disk) (path : Bytes) : List FileData :=
  (addZippedDir disk { m_data_dir := [] } path).m_files

section Indexing
variable {disk : Disk} {path content : Bytes} {entry : FileData}

theorem index_stored (stored : disk.files path = some content) :
    disk.index path = index path content := by
  rw [Disk.index, addZippedDir_eq_visited stored]
  exact List.nil_append _

theorem addZippedDir_index (disk : Disk) (fs : FileSystem) (path : Bytes) :
    addZippedDir disk fs path = { fs with m_files := fs.m_files ++ disk.index path } := by
  cases stored : disk.files path with
  | none =>
      have unopened (fs : FileSystem) : addZippedDir disk fs path = fs := by
        rw [addZippedDir, stored]
      rw [Disk.index, unopened, unopened, List.append_nil]
  | some content =>
      rw [index_stored stored, addZippedDir_eq_visited stored, index]

theorem mem_index (listed : entry ∈ index path content) :
    entry.is_zip = true ∧ entry.fname = path := by
  rw [index, indexed] at listed
  obtain ⟨record, -, made⟩ := List.mem_filterMap.mp listed
  split at made
  · cases made
    exact ⟨rfl, rfl⟩
  · cases made

theorem mem_disk_index (listed : entry ∈ disk.index path) :
    entry.is_zip = true ∧ entry.fname = path := by
  cases stored : disk.files path with
  | none =>
      rw [Disk.index, addZippedDir, stored] at listed
      cases listed
  | some content => exact mem_index (index_stored stored ▸ listed)

theorem index_near (listed : entry ∈ index path content) : entry.zip_data.lfhOffset < 2 ^ 32 := by
  rw [index, indexed] at listed
  obtain ⟨record, -, made⟩ := List.mem_filterMap.mp listed
  split at made
  · cases made
    exact UInt32.toNat_lt _
  · cases made

variable {members : List Member}

theorem mem_entries_iff {offset : Nat} {entry : FileData} :
    entry ∈ entries path offset members ↔ ∃ first member rest,
      members = first ++ member :: rest ∧ member.Indexed ∧
        entry = member.entry path (offset + (locals first).length) := by
  constructor
  · intro listed
    induction members generalizing offset with
    | nil => cases listed
    | cons member members ih =>
        have later (inside : entry ∈ entries path (offset + member.localRecord.length) members) :
            ∃ first other rest, member :: members = first ++ other :: rest ∧ other.Indexed ∧
              entry = other.entry path (offset + (locals first).length) := by
          obtain ⟨first, other, rest, rfl, indexed, rfl⟩ := ih inside
          refine ⟨member :: first, other, rest, rfl, indexed, ?_⟩
          rw [locals_cons, List.length_append, Nat.add_assoc]
        rw [entries] at listed
        split at listed
        · rename_i indexed
          rcases List.mem_cons.mp listed with rfl | inside
          · exact ⟨[], member, members, rfl, indexed, rfl⟩
          · exact later inside
        · exact later listed
  · rintro ⟨first, member, rest, rfl, indexed, rfl⟩
    rw [entries_append, entries, if_pos indexed]
    exact List.mem_append_right _ List.mem_cons_self

theorem index_archive (intact : Intact members) :
    index path (archive members) = entries path 0 members := by
  have stored := emptyDisk.put_files path (archive members)
  rw [← index_stored stored, Disk.index, addZippedDir_archive intact stored]
  exact List.nil_append _

end Indexing

def dataDir : Bytes := [0x64]
def letterZip : Bytes := [0x7a, 0x2e, 0x7a, 0x69, 0x70]
def dataZip : Bytes := dataDir ++ 0x2f :: letterZip

def dataDisk : Disk := emptyDisk.put dataZip (archive ([letterFile].map (memberOf sample)))

def dataRoot : FileSystem := FileSystem.construct dataDisk dataDir [(dataZip, true)]

theorem dataDisk_stored :
    dataDisk.files dataZip = some (archive ([letterFile].map (memberOf sample))) :=
  emptyDisk.put_files _ _

theorem letter_entries (file : File) (filled : (memberOf sample file).Indexed) :
    entries dataZip 0 ([file].map (memberOf sample)) = [(memberOf sample file).entry dataZip 0] :=
  if_pos filled

theorem dataRoot_eq : dataRoot =
    { m_files := [(memberOf sample letterFile).entry dataZip 0], m_data_dir := dataDir } := by
  have whole : dataRoot = addZippedDir dataDisk { m_data_dir := dataDir } dataZip := rfl
  rw [whole, addZippedDir_archive letter_intact dataDisk_stored,
    letter_entries letterFile (by decide), List.nil_append]

end PackagedTask.Archive
