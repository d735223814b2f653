import PackagedTask.Library.Walks
import PackagedTask.Archive.Layout

namespace PackagedTask.Archive
open Library Packed FileStream

/-! The two directory walks, one record at a time. -/

/-- One round of the loop in `addZippedDir`; `none` where it returns. -/
def addZippedDir.readRecord : CentralDirectoryFileHeader × FileStream →
    Option ((CentralDirectoryFileHeader × Bytes) × CentralDirectoryFileHeader × FileStream)
  | (old, ifs) =>
      let header := CentralDirectoryFileHeader.format.read ifs old
      let cdfh := header.1
      if cdfh.signature ≠ centralSignature then none
      else if cdfh.generalPurposeBitFlag &&& 0x1 ≠ 0 then none
      else if cdfh.generalPurposeBitFlag &&& 0x8 ≠ 0 then none
      else
        let filename := if cdfh.filenameLength ≠ 0 then
            header.2.read (List.replicate cdfh.filenameLength.toNat 0)
          else ([], header.2)
        if cdfh.compressionMethod ≠ 0 ∧ cdfh.compressionMethod ≠ Z_DEFLATED then
          some ((cdfh, cString filename.1), cdfh, filename.2)
        else
          let ifs := if cdfh.extraFieldLength ≠ 0 then
              filename.2.skip cdfh.extraFieldLength.toNat
            else filename.2
          let ifs := if cdfh.fileCommentLength ≠ 0 then ifs.skip cdfh.fileCommentLength.toNat
            else ifs
          some ((cdfh, cString filename.1), cdfh, ifs)

def addFileToZIP.readRecord (env : Environment) (ofs : FileStream) :
    Option (Option Bytes × FileStream) :=
  let header := CentralDirectoryFileHeader.format.read ofs {}
  let cdfh := header.1
  if cdfh.signature ≠ centralSignature then none
  else if cdfh.filenameLength ≠ 0 then
    let filename := header.2.read
      ((env.newChars (cdfh.filenameLength.toNat + 1)).take cdfh.filenameLength.toNat)
    some (some (cString filename.1), filename.2)
  else some (none, header.2)

/-- The method is neither stored nor deflate. -/
abbrev CentralDirectoryFileHeader.Unsupported (cdfh : CentralDirectoryFileHeader) : Prop :=
  cdfh.compressionMethod ≠ 0 ∧ cdfh.compressionMethod ≠ Z_DEFLATED

def CentralDirectoryFileHeader.Indexed (cdfh : CentralDirectoryFileHeader) : Prop :=
  (cdfh.compressionMethod = 0 ∨ cdfh.compressionMethod = Z_DEFLATED) ∧
    ¬ (cdfh.compressionMethod = 0 ∧ cdfh.uncompressedSize = 0)

instance (cdfh : CentralDirectoryFileHeader) : Decidable cdfh.Indexed :=
  inferInstanceAs (Decidable (_ ∧ _))

theorem indexed_iff_of_supported {cdfh : CentralDirectoryFileHeader}
    (supported : ¬ cdfh.Unsupported) : cdfh.Indexed ↔
      cdfh.uncompressedSize.toNat ≠ 0 ∨ cdfh.compressionMethod = Z_DEFLATED := by
  have method : cdfh.compressionMethod = 0 ∨ cdfh.compressionMethod = Z_DEFLATED := by
    by_contra neither
    exact supported (not_or.mp neither)
  have size : cdfh.uncompressedSize.toNat ≠ 0 ↔ cdfh.uncompressedSize ≠ 0 := by
    rw [ne_eq, ne_eq, ← UInt32.toNat_inj]
    rfl
  rw [size]
  constructor
  · rintro ⟨-, nonempty⟩
    rcases method with stored | deflated
    · exact .inl fun empty => nonempty ⟨stored, empty⟩
    · exact .inr deflated
  · rintro (filled | deflated)
    · exact ⟨method, fun empty => filled empty.2⟩
    · refine ⟨method, fun empty => ?_⟩
      rw [deflated] at empty
      cases empty.1

def entryFor (fname : Bytes) (cdfh : CentralDirectoryFileHeader) (name : Bytes) : FileData where
  is_zip := true
  zip_data :=
    { compressed := cdfh.compressionMethod = Z_DEFLATED
      compressedSize := cdfh.compressedSize.toNat
      uncompressedSize := cdfh.uncompressedSize.toNat
      lfhOffset := cdfh.localFileHeaderOffset.toNat
      fname := name }
  fname := fname

def indexed (fname : Bytes) (seen : List (CentralDirectoryFileHeader × Bytes)) : List FileData :=
  seen.filterMap fun record =>
    if record.1.Indexed then some (entryFor fname record.1 record.2) else none

theorem readEntries_eq_visits (fname : Bytes) (count : Nat) (cdfh : CentralDirectoryFileHeader)
    (ifs : FileStream) (m_files : List FileData) :
    addZippedDir.readEntries fname count cdfh ifs m_files = m_files ++
      indexed fname ((visits addZippedDir.readRecord count (cdfh, ifs)).map Prod.snd) := by
  induction count generalizing cdfh ifs m_files with
  | zero => simp [addZippedDir.readEntries, visits, indexed]
  | succ count ih =>
      rw [addZippedDir.readEntries, visits, addZippedDir.readRecord]
      dsimp only
      generalize CentralDirectoryFileHeader.format.read ifs cdfh = header
      obtain ⟨cdfh, ifs⟩ := header
      dsimp only
      by_cases unsigned : cdfh.signature ≠ centralSignature
      · simp [unsigned, indexed]
      by_cases encrypted : cdfh.generalPurposeBitFlag &&& 0x1 ≠ 0
      · simp [unsigned, encrypted, indexed]
      by_cases described : cdfh.generalPurposeBitFlag &&& 0x8 ≠ 0
      · simp [unsigned, encrypted, described, indexed]
      rw [if_neg unsigned, if_neg encrypted, if_neg described, if_neg unsigned, if_neg encrypted,
        if_neg described]
      by_cases unsupported : cdfh.Unsupported
      · have out : ¬ cdfh.Indexed := fun inside => inside.1.elim unsupported.1 unsupported.2
        rw [if_pos unsupported, if_pos unsupported, ih]
        simp [indexed, out]
      · rw [if_neg unsupported, if_neg unsupported, ih]
        by_cases filled : cdfh.uncompressedSize.toNat ≠ 0 ∨ cdfh.compressionMethod = Z_DEFLATED
        · have inside : cdfh.Indexed := (indexed_iff_of_supported unsupported).mpr filled
          simp only [decide_eq_true_eq]
          rw [if_pos filled, List.append_assoc]
          simp [indexed, inside, entryFor]
        · have out : ¬ cdfh.Indexed := fun inside =>
            filled ((indexed_iff_of_supported unsupported).mp inside)
          simp only [decide_eq_true_eq]
          rw [if_neg filled]
          simp [indexed, out]

theorem readNames_eq_visits (env : Environment) (count : Nat) (ofs : FileStream)
    (zip_fnames : List Bytes) :
    addFileToZIP.readNames env count ofs zip_fnames =
      (walk (addFileToZIP.readRecord env) count ofs).map fun last =>
        (zip_fnames ++ (visits (addFileToZIP.readRecord env) count ofs).filterMap Prod.snd, last) := by
  induction count generalizing ofs zip_fnames with
  | zero => simp [addFileToZIP.readNames, walk, visits]
  | succ count ih =>
      rw [addFileToZIP.readNames, walk, visits, addFileToZIP.readRecord]
      dsimp only
      split
      · rfl
      · split
        · rw [ih]
          simp
        · rw [ih]
          simp

def addZippedDir.visited (content : Bytes) :
    List ((CentralDirectoryFileHeader × FileStream) × CentralDirectoryFileHeader × Bytes) :=
  let (EOCD_offset, ifs) := findEOCD (scanStart content.length) ⟨content, content.length, false⟩
  if EOCD_offset = 0 then []
  else
    let (eocd, ifs) := EOCD.format.read (ifs.seek EOCD_offset) {}
    visits addZippedDir.readRecord eocd.numberCentralDirectoryRecord.toNat
      ({}, ifs.seek eocd.centralDirectoryOffset.toNat)

def addFileToZIP.visited (env : Environment) (content : Bytes) :
    List (FileStream × Option Bytes) :=
  let (EOCD_offset, ofs) := findEOCD (scanStart content.length) ⟨content, content.length, false⟩
  if EOCD_offset = 0 then []
  else
    let (eocd, ofs) := EOCD.format.read (ofs.seek EOCD_offset) {}
    let (_, ofs) := (ofs.seek eocd.centralDirectoryOffset.toNat).read
      (List.replicate eocd.sizeOfCentralDirectory.toNat 0)
    visits (addFileToZIP.readRecord env) eocd.numberCentralDirectoryRecord.toNat
      (ofs.seek eocd.centralDirectoryOffset.toNat)

theorem addZippedDir_eq_visited {disk : Disk} {fname content : Bytes}
    (stored : disk.files fname = some content) (fs : FileSystem) :
    addZippedDir disk fs fname = { fs with
      m_files := fs.m_files ++ indexed fname ((addZippedDir.visited content).map Prod.snd) } := by
  unfold addZippedDir addZippedDir.visited
  rw [stored]
  dsimp only
  rw [show ({ bytes := content, pos := content.length } : FileStream).tell = content.length from rfl]
  split
  · simp [indexed]
  · rw [readEntries_eq_visits]

/-- What `addFileToZIP` has read, and where it stands, when its walk over the directory starts. -/
inductive Opens (content : Bytes) (eocd : EOCD) (directory : Bytes) (start : FileStream) : Prop
  | intro {offset : Nat} {scanned ended listed : FileStream}
    (scan : findEOCD (scanStart content.length) ⟨content, content.length, false⟩ = (offset, scanned))
    (found : offset ≠ 0) (readEnd : EOCD.format.read (scanned.seek offset) {} = (eocd, ended))
    (readDirectory : (ended.seek eocd.centralDirectoryOffset.toNat).read
      (List.replicate eocd.sizeOfCentralDirectory.toNat 0) = (directory, listed))
    (there : listed.seek eocd.centralDirectoryOffset.toNat = start)

section Opens
variable {content directory : Bytes} {eocd : EOCD} {start : FileStream} {env : Environment}

theorem Opens.visited (opens : Opens content eocd directory start) :
    addFileToZIP.visited env content =
      visits (addFileToZIP.readRecord env) eocd.numberCentralDirectoryRecord.toNat start := by
  obtain ⟨scan, found, readEnd, readDirectory, there⟩ := opens
  unfold addFileToZIP.visited
  rw [scan]
  dsimp only
  rw [if_neg found, readEnd]
  dsimp only
  rw [readDirectory]
  dsimp only
  rw [there]

theorem Opens.update (opens : Opens content eocd directory start) (file : File) :
    addFileToZIP.update env file ⟨content, content.length, false⟩ =
      match walk (addFileToZIP.readRecord env) eocd.numberCentralDirectoryRecord.toNat start with
      | none => none
      | some last =>
          if file.name ∈ (addFileToZIP.visited env content).filterMap Prod.snd then none
          else some (addFileToZIP.writeFile env file eocd directory
            (last.seek eocd.centralDirectoryOffset.toNat)) := by
  rw [opens.visited]
  obtain ⟨scan, found, readEnd, readDirectory, there⟩ := opens
  unfold addFileToZIP.update
  rw [show (⟨content, content.length, false⟩ : FileStream).tell = content.length from rfl, scan]
  dsimp only
  rw [if_neg found, readEnd]
  dsimp only
  rw [readDirectory]
  dsimp only
  rw [there, readNames_eq_visits]
  cases walk (addFileToZIP.readRecord env) eocd.numberCentralDirectoryRecord.toNat start with
  | none => rfl
  | some last => rfl

end Opens

end PackagedTask.Archive
