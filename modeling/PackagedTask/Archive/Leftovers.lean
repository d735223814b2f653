import PackagedTask.Archive.CutDirectories

namespace PackagedTask.Archive
open Library Packed FileStream

/-! What `addFileToZIP` writes behind a walk, and what both walks add in all. -/

/-- The file up to `place`, filled up with zeros where it is shorter. -/
def padded (content : Bytes) (place : Nat) : Bytes :=
  content.take place ++ List.replicate (place - content.length) 0

/-- The file with the new member over its directory, and the directory behind it. -/
def grownOver (env : Environment) (file : File) (content : Bytes) : Bytes :=
  let place := (eocdOf content).centralDirectoryOffset.toNat
  let member := memberOf env file
  let directory := directoryOf content ++ member.centralRecord place
  let new := member.localRecord ++ (directory ++ endBytes
    (grownEnd (eocdOf content) (place + member.localRecord.length) directory.length))
  padded content place ++ new ++ content.drop (place + new.length)

section Updates
variable {env : Environment} {content : Bytes} {file : File} {place : Nat}

theorem padded_length (content : Bytes) (place : Nat) : (padded content place).length = place := by
  rw [padded, List.length_append, List.length_take, List.length_replicate]
  omega

theorem write_padded {data : Bytes} (some : data ≠ []) :
    (⟨content, place, false⟩ : FileStream).write data =
      (between (padded content place) (content.drop place)).write data := by
  rw [between_write, FileStream.write, if_neg (by simpa using some), between, List.length_append,
    padded_length, padded, List.drop_drop]

theorem writeFile_padded (eocd : EOCD) (data : Bytes) :
    addFileToZIP.writeFile env file eocd data ⟨content, place, false⟩ =
      addFileToZIP.writeFile env file eocd data
        (between (padded content place) (content.drop place)) := by
  have header : LocalFileHeader.format.toBytes (pack env file).1 ≠ [] := by
    rw [← List.length_pos_iff, LocalFileHeader.format.toBytes_length]
    exact Nat.zero_lt_succ 29
  have behind : (between (padded content place) (content.drop place)).tell =
      (⟨content, place, false⟩ : FileStream).tell := padded_length content place
  unfold addFileToZIP.writeFile writeLocal
  dsimp only
  rw [write_padded header, behind]

theorem writeFile_at (env : Environment) (file : File) (content : Bytes) :
    (addFileToZIP.writeFile env file (eocdOf content) (directoryOf content)
      ⟨content, (eocdOf content).centralDirectoryOffset.toNat, false⟩).bytes =
        grownOver env file content := by
  rw [writeFile_padded, writeFile_between, between_write, between_bytes, padded_length, List.drop_drop]
  rfl

theorem directory_read (listed : DirectoryWhole content) :
    (⟨content, (eocdOf content).centralDirectoryOffset.toNat, false⟩ : FileStream).read
        (List.replicate (eocdOf content).sizeOfCentralDirectory.toNat 0) =
      (directoryOf content, ⟨content, (eocdOf content).centralDirectoryOffset.toNat +
        (eocdOf content).sizeOfCentralDirectory.toNat, false⟩) := by
  rw [DirectoryWhole, directoryOf, List.length_take] at listed
  rw [read_at (by rw [List.length_replicate]; omega), List.length_replicate, directoryOf]

theorem directory_cut (unlisted : ¬ DirectoryWhole content) :
    ((⟨content, (eocdOf content).centralDirectoryOffset.toNat, false⟩ : FileStream).read
      (List.replicate (eocdOf content).sizeOfCentralDirectory.toNat 0)).2.failed = true := by
  rw [DirectoryWhole, directoryOf, List.length_take] at unlisted
  refine read_short ?_
  rw [List.length_replicate]
  omega

theorem opens_whole (ended : EndWhole content) (listed : DirectoryWhole content) :
    Opens content (eocdOf content) (directoryOf content)
      ⟨content, (eocdOf content).centralDirectoryOffset.toNat, false⟩ := by
  have near := UInt32.toNat_lt (eocdOf content).centralDirectoryOffset
  have directory {ended : FileStream} (same : ended =
      ⟨content, (eocdOf content).centralDirectoryOffset.toNat, false⟩) : ended.read
        (List.replicate (eocdOf content).sizeOfCentralDirectory.toNat 0) = _ :=
    same ▸ directory_read listed
  exact .intro (findEOCD_found ended.1) ended.1 (end_read ended) (directory (seek_at (by omega)))
    (seek_at (by omega))

theorem names_visited (env : Environment) (ended : EndWhole content)
    (listed : DirectoryWhole content) : addFileToZIP.visited env content =
      visits (addFileToZIP.readRecord env) (eocdOf content).numberCentralDirectoryRecord.toNat
        ⟨content, (eocdOf content).centralDirectoryOffset.toNat, false⟩ :=
  (opens_whole ended listed).visited

theorem update_whole (ended : EndWhole content) (listed : DirectoryWhole content) :
    addFileToZIP.update env file ⟨content, content.length, false⟩ =
      match walk (addFileToZIP.readRecord env) (eocdOf content).numberCentralDirectoryRecord.toNat
        ⟨content, (eocdOf content).centralDirectoryOffset.toNat, false⟩ with
      | none => none
      | some last =>
          if file.name ∈ (addFileToZIP.visited env content).filterMap Prod.snd then none
          else some (addFileToZIP.writeFile env file (eocdOf content) (directoryOf content)
            (last.seek (eocdOf content).centralDirectoryOffset.toNat)) :=
  (opens_whole ended listed).update file

theorem writeFile_failed {ofs : FileStream} (failed : ofs.failed = true) (eocd : EOCD)
    (data : Bytes) : addFileToZIP.writeFile env file eocd data ofs = ofs := by
  simp only [addFileToZIP.writeFile, writeLocal, writeEnd, write_failed failed]

def directoryEnd (content : Bytes) : FileStream :=
  (((EOCD.format.read (FileStream.seek ⟨content, EOCD_offset content, false⟩
    (EOCD_offset content)) {}).2.seek (eocdOf content).centralDirectoryOffset.toNat).read
      (List.replicate (eocdOf content).sizeOfCentralDirectory.toNat 0)).2

theorem directoryEnd_failed (found : EOCD_offset content ≠ 0)
    (cut : EndWhole content → ¬ DirectoryWhole content) : (directoryEnd content).failed = true := by
  rw [directoryEnd]
  by_cases ended : EndWhole content
  · have near := UInt32.toNat_lt (eocdOf content).centralDirectoryOffset
    rw [end_read ended, seek_at (by omega)]
    exact directory_cut (cut ended)
  · have failed := end_cut found ended
    rw [seek_failed failed, read_failed failed]
    exact failed

theorem directoryEnd_bytes (content : Bytes) : (directoryEnd content).bytes = content := by
  rw [directoryEnd, read_bytes, seek_bytes, Format.read, read_bytes, seek_bytes]

theorem update_cut (found : EOCD_offset content ≠ 0)
    (cut : EndWhole content → ¬ DirectoryWhole content) :
    addFileToZIP.update env file ⟨content, content.length, false⟩ =
      if (eocdOf content).numberCentralDirectoryRecord.toNat = 0 then some (directoryEnd content)
      else none := by
  have lost := directoryEnd_failed found cut
  unfold addFileToZIP.update
  rw [show (⟨content, content.length, false⟩ : FileStream).tell = content.length from rfl,
    findEOCD_found found]
  dsimp only
  rw [if_neg found, ← eocdOf, ← directoryEnd, seek_failed lost, readNames_eq_visits]
  cases (eocdOf content).numberCentralDirectoryRecord.toNat with
  | zero =>
      rw [walk, Option.map_some]
      dsimp only
      rw [seek_failed lost, writeFile_failed lost]
      rfl
  | succ count =>
      rw [walk_of_none (name_unread lost)]
      rfl

end Updates

/-- What it means that `addFileToZIP` has added the file: all that it went by was read from the
file, and all that it had to write is written. -/
structure Added (env : Environment) (file : File) (content written : Bytes) : Prop where
  ended : EndWhole content
  listed : DirectoryWhole content
  count : (addFileToZIP.visited env content).length =
    (eocdOf content).numberCentralDirectoryRecord.toNat
  headers : ∀ visit ∈ addFileToZIP.visited env content, NameWhole env content visit
  grown : written = grownOver env file content

/-- In a file with this content only records that were really read count. -/
structure OnlyRead (env : Environment) (file : File) (content : Bytes) : Prop where
  indexed : ∀ visit ∈ addZippedDir.visited content, visit.2.1.Indexed → ReadWhole content visit
  few : ∀ (disk : Disk) fs path, disk.files path = some content →
    (addZippedDir disk fs path).m_files.length ≤ fs.m_files.length + (completePlaces content).card
  added : ∀ (fs : FileSystem) disk zipname disk', disk.files (fs.path zipname) = some content →
    addFileToZIP env fs disk file zipname = (true, disk') →
      ∃ written, disk' = disk.put (fs.path zipname) written ∧ Added env file content written
  refused : ∀ (fs : FileSystem) disk zipname disk', disk.files (fs.path zipname) = some content →
    addFileToZIP env fs disk file zipname = (false, disk') → disk' = disk

/-- Neither walk comes upon a record that the end of the file cuts off, but for those it passes
over, and `addFileToZIP` does not do without records. -/
structure Uncut (env : Environment) (file : File) (content : Bytes) : Prop where
  indexed : EndWhole content → ¬ Overreads content
    (eocdOf content).numberCentralDirectoryRecord.toNat {}
      (eocdOf content).centralDirectoryOffset.toNat
  counted : EOCD_offset content ≠ 0 → (eocdOf content).numberCentralDirectoryRecord.toNat = 0 →
    EndWhole content ∧ DirectoryWhole content
  last : EndWhole content → DirectoryWhole content → ¬ CutLast env content file
    (eocdOf content).numberCentralDirectoryRecord.toNat []
      (eocdOf content).centralDirectoryOffset.toNat

section Calls
variable {env : Environment} {file : File} {content : Bytes} {fs : FileSystem} {disk : Disk}
  {zipname : Bytes}

theorem addFileToZIP_of_update (stored : disk.files (fs.path zipname) = some content)
    (opens : disk.writable (fs.path zipname) = true) :
    addFileToZIP env fs disk file zipname =
      match addFileToZIP.update env file ⟨content, content.length, false⟩ with
      | none => (false, disk)
      | some ofs => (true, disk.put (fs.path zipname) ofs.bytes) := by
  unfold addFileToZIP
  rw [stored]
  exact if_pos opens

theorem update_of_true {disk' : Disk} (stored : disk.files (fs.path zipname) = some content)
    (ran : addFileToZIP env fs disk file zipname = (true, disk')) :
    ∃ written, addFileToZIP.update env file ⟨content, content.length, false⟩ = some written ∧
      disk' = disk.put (fs.path zipname) written.bytes := by
  by_cases opens : disk.writable (fs.path zipname) = true
  · rw [addFileToZIP_of_update stored opens] at ran
    split at ran
    · cases ran
    · rename_i written updated
      exact ⟨written, updated, ((Prod.mk.inj ran).2).symm⟩
  · rw [addFileToZIP, stored] at ran
    dsimp only at ran
    rw [if_neg opens] at ran
    cases ran

theorem addFileToZIP_refused {disk' : Disk} (ran : addFileToZIP env fs disk file zipname = (false, disk')) :
    disk' = disk := by
  unfold addFileToZIP at ran
  split at ran
  · exact (Prod.mk.inj ran).2.symm
  · split at ran
    · split at ran
      · exact (Prod.mk.inj ran).2.symm
      · cases ran
    · exact (Prod.mk.inj ran).2.symm

theorem added_of_uncut {ofs : FileStream} (uncut : Uncut env file content)
    (updated : addFileToZIP.update env file ⟨content, content.length, false⟩ = some ofs) :
    Added env file content ofs.bytes := by
  have found : EOCD_offset content ≠ 0 := by
    intro missing
    rw [(unfound env file missing).2] at updated
    cases updated
  by_cases whole : EndWhole content ∧ DirectoryWhole content
  · obtain ⟨ended, listed⟩ := whole
    have near := UInt32.toNat_lt (eocdOf content).centralDirectoryOffset
    rw [update_whole ended listed, names_visited env ended listed] at updated
    split at updated
    · cases updated
    · rename_i last walked
      split at updated
      · cases updated
      · rename_i fresh
        obtain rfl := Option.some.inj updated
        rcases walk_ends walked with ⟨⟨there, rfl⟩, headers⟩ | ⟨failed, -⟩
        · rw [seek_at (by omega)]
          refine ⟨ended, listed, ?_, ?_, writeFile_at env file content⟩
          · rw [names_visited env ended listed, visits_length_of_walk walked]
          · rw [names_visited env ended listed]
            exact headers
        · refine absurd ?_ (uncut.last ended listed)
          exact cutLast_iff.mpr ⟨last, walked, failed, fresh⟩
  · rw [update_cut found fun ended listed => whole ⟨ended, listed⟩] at updated
    split at updated
    · rename_i none
      exact absurd (uncut.counted found none) whole
    · cases updated

theorem uncut_of_added (added : ∀ ofs, addFileToZIP.update env file
      ⟨content, content.length, false⟩ = some ofs → Added env file content ofs.bytes) :
    (EOCD_offset content ≠ 0 → (eocdOf content).numberCentralDirectoryRecord.toNat = 0 →
      EndWhole content ∧ DirectoryWhole content) ∧
    (EndWhole content → DirectoryWhole content → ¬ CutLast env content file
      (eocdOf content).numberCentralDirectoryRecord.toNat []
        (eocdOf content).centralDirectoryOffset.toNat) := by
  constructor
  · intro found none
    by_contra cut
    have updated := @update_cut env content file found fun ended listed => cut ⟨ended, listed⟩
    rw [if_pos none] at updated
    exact cut ⟨(added _ updated).ended, (added _ updated).listed⟩
  · intro ended listed cut
    obtain ⟨last, walked, failed, fresh⟩ := cutLast_iff.mp cut
    have updated := @update_whole env content file ended listed
    rw [walked] at updated
    dsimp only at updated
    rw [List.nil_append] at fresh
    rw [names_visited env ended listed, if_neg fresh] at updated
    have headers := (added _ updated).headers
    rw [names_visited env ended listed] at headers
    rcases walk_ends walked with ⟨⟨there, rfl⟩, -⟩ | ⟨-, unread⟩
    · cases failed
    · exact unread headers

end Calls

theorem onlyRead_iff (env : Environment) (file : File) (content : Bytes) :
    OnlyRead env file content ↔ Uncut env file content := by
  constructor
  · intro only
    have stored := emptyDisk.put_files (root.path []) content
    obtain ⟨counted, last⟩ := @uncut_of_added env file content fun ofs updated => by
      have ran := @addFileToZIP_of_update env file content root _ [] stored rfl
      rw [updated] at ran
      obtain ⟨written, put, added⟩ := only.added root _ [] _ stored ran
      have same := (Disk.put_files _ (root.path []) ofs.bytes).symm.trans
        ((congrArg (fun disk => disk.files (root.path [])) put).trans (Disk.put_files _ _ written))
      exact Option.some.inj same ▸ added
    exact ⟨read_of_visited.mp only.indexed, counted, last⟩
  · intro uncut
    refine ⟨read_of_visited.mpr uncut.indexed, ?_, ?_, fun _ _ _ _ _ => addFileToZIP_refused⟩
    · intro disk fs path stored
      have few := index_length_le path uncut.indexed
      rw [addZippedDir_eq_visited stored, ← index, List.length_append]
      exact Nat.add_le_add_left few _
    · intro fs disk zipname disk' stored ran
      obtain ⟨written, updated, put⟩ := update_of_true stored ran
      exact ⟨written.bytes, put, added_of_uncut uncut updated⟩

def lastTwice : Bytes :=
  0 :: (endBytes
    { numberCentralDirectoryRecord := 2
      sizeOfCentralDirectory := 47
      centralDirectoryOffset := 23 } ++
  (CentralDirectoryFileHeader.format.toBytes
    { signature := centralSignature
      uncompressedSize := 1
      filenameLength := 1 } ++ [0x78]))

def lostDirectory : Bytes :=
  0 :: endBytes { sizeOfCentralDirectory := 1, centralDirectoryOffset := 100 }

theorem lostDirectory_added (env : Environment) (file : File) : ∃ disk : Disk,
    disk.files (root.path []) = some lostDirectory ∧
      (addFileToZIP env root disk file []).1 = true ∧
        (addFileToZIP env root disk file []).2.files (root.path []) = some lostDirectory := by
  have stored := emptyDisk.put_files (root.path []) lostDirectory
  have unlisted : ¬ DirectoryWhole lostDirectory := by decide
  have ran := @addFileToZIP_of_update env file _ root _ [] stored rfl
  rw [update_cut (by decide) fun _ => unlisted, if_pos (by decide)] at ran
  dsimp only at ran
  rw [directoryEnd_bytes] at ran
  refine ⟨_, stored, ?_, ?_⟩
  · rw [ran]
  · rw [ran]
    exact Disk.put_files _ _ _

theorem leftovers_count : ¬ OnlyRead sample letterFile lastTwice ∧
    ¬ OnlyRead sample letterFile lostDirectory := by
  constructor
  · intro only
    have stored := emptyDisk.put_files (root.path []) lastTwice
    have few := only.few _ { m_data_dir := [] } _ stored
    rw [addZippedDir_eq_visited stored, List.nil_append, ← index] at few
    have twice : (index (root.path []) lastTwice).length = 2 := by decide
    have once : (completePlaces lastTwice).card = 1 := by decide
    rw [twice, once] at few
    exact absurd few (by decide)
  · intro only
    obtain ⟨disk, stored, ran, -⟩ := lostDirectory_added sample letterFile
    obtain ⟨written, -, added⟩ := only.added root disk [] _ stored (Prod.ext ran rfl)
    exact absurd added.listed (by decide)

end PackagedTask.Archive
