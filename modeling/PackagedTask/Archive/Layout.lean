import PackagedTask.Archive.FileSystem

namespace PackagedTask.Archive
open Library Packed FileStream

/-! An archive as its list of members: local records, directory, end record. -/

structure Member where
  name : Bytes
  lfh : LocalFileHeader
  payload : Bytes

namespace Member

def localRecord (member : Member) : Bytes :=
  LocalFileHeader.format.toBytes member.lfh ++ (member.name ++ member.payload)

abbrev centralHeader (member : Member) (offset : Nat) : CentralDirectoryFileHeader :=
  addFileToZIP.centralHeader member.lfh (.ofNat offset)

def centralRecord (member : Member) (offset : Nat) : Bytes :=
  CentralDirectoryFileHeader.format.toBytes (member.centralHeader offset) ++
    member.name.take member.lfh.filenameLength.toNat

end Member

def locals (members : List Member) : Bytes := members.flatMap Member.localRecord

def directory : Nat → List Member → Bytes
  | _, [] => []
  | offset, member :: members =>
      member.centralRecord offset ++ directory (offset + member.localRecord.length) members

def endRecord (members : List Member) : EOCD where
  numberCentralDirectoryRecord := .ofNat members.length
  totalCentralDirectoryRecord := .ofNat members.length
  sizeOfCentralDirectory := .ofNat (directory 0 members).length
  centralDirectoryOffset := .ofNat (locals members).length

def endBytes (eocd : EOCD) : Bytes :=
  LittleEndian.encode 4 endSignature ++ EOCD.format.toBytes eocd

theorem endBytes_length (eocd : EOCD) : (endBytes eocd).length = 22 := by
  rw [endBytes, List.length_append, EOCD.format.toBytes_length, LittleEndian.encode_length]
  rfl

def archive (members : List Member) : Bytes :=
  locals members ++ (directory 0 members ++ endBytes (endRecord members))

def memberOf (env : Environment) (file : File) : Member :=
  ⟨file.name, (pack env file).1, (pack env file).2⟩

theorem locals_cons (member : Member) (members : List Member) :
    locals (member :: members) = member.localRecord ++ locals members := List.flatMap_cons

theorem Member.localRecord_ne_nil (member : Member) : member.localRecord ≠ [] := by
  intro empty
  have header := congrArg List.length empty
  simp only [Member.localRecord, List.length_append, LocalFileHeader.format.toBytes_length,
    List.length_nil] at header
  exact absurd header (by rw [show LocalFileHeader.format.size = 30 from rfl]; omega)

theorem locals_append (first second : List Member) :
    locals (first ++ second) = locals first ++ locals second := List.flatMap_append

theorem directory_append (offset : Nat) (first second : List Member) :
    directory offset (first ++ second) =
      directory offset first ++ directory (offset + (locals first).length) second := by
  induction first generalizing offset with
  | nil => rfl
  | cons member first ih =>
      rw [List.cons_append, directory, directory, ih, locals_cons, List.length_append,
        List.append_assoc, Nat.add_assoc]

theorem writeLocal_between {behind ahead : Bytes} (env : Environment) (file : File) :
    writeLocal (between behind ahead) file.name (pack env file) =
      (between behind ahead).write (memberOf env file).localRecord := by
  rw [writeLocal, between_write_write, between_write_write, List.append_assoc]
  rfl

theorem writeEnd_between {behind ahead : Bytes} (eocd : EOCD) :
    writeEnd (between behind ahead) eocd = (between behind ahead).write (endBytes eocd) :=
  between_write_write _ _

/-- What `createZIP` keeps of the local headers for the directory. -/
def fileInfos (env : Environment) : Nat → List File → List FileInfo
  | _, [] => []
  | offset, file :: filelist =>
      let lfh := (pack env file).1
      ⟨lfh.compressedSize, lfh.uncompressedSize, lfh.compressionMethod, lfh.crc32, .ofNat offset⟩ ::
        fileInfos env (offset + (memberOf env file).localRecord.length) filelist

theorem writeMembers_eq (env : Environment) (filelist : List File) (behind : Bytes)
    (fileInfoList : List FileInfo) :
    createZIP.writeMembers env filelist (between behind []) fileInfoList =
      (between (behind ++ locals (filelist.map (memberOf env))) [],
        fileInfoList ++ fileInfos env behind.length filelist) := by
  induction filelist generalizing behind fileInfoList with
  | nil => simp [createZIP.writeMembers, locals, fileInfos]
  | cons file filelist ih =>
      rw [createZIP.writeMembers, writeLocal_between, between_write, List.drop_nil, ih, List.length_append]
      simp [locals, fileInfos]

theorem pack_header (env : Environment) (file : File) :
    (pack env file).1.signature = localSignature ∧
    (pack env file).1.filenameLength = .ofNat file.name.length ∧
    (pack env file).1.extraFieldLength = 0 ∧
    (pack env file).1.modificationTime = (getDosTime env file.m_last_write_time).1 ∧
    (pack env file).1.modificationDate = (getDosTime env file.m_last_write_time).2 ∧
    (pack env file).1.uncompressedSize = .ofNat file.data.length := by
  unfold pack
  dsimp only
  split <;> exact ⟨rfl, rfl, rfl, rfl, rfl, rfl⟩

theorem writeDirectory_eq (env : Environment) (filelist : List File) (offset : Nat)
    (behind : Bytes) :
    createZIP.writeDirectory env (filelist.zip (fileInfos env offset filelist))
        (between behind []) =
      between (behind ++ directory offset (filelist.map (memberOf env))) [] := by
  induction filelist generalizing offset behind with
  | nil => simp [createZIP.writeDirectory, directory]
  | cons file filelist ih =>
      obtain ⟨-, named, -, time, date, -⟩ := pack_header env file
      rw [fileInfos, List.zip_cons_cons, createZIP.writeDirectory]
      dsimp only
      rw [between_write_write, between_write, List.drop_nil, ih, List.map_cons, directory,
        List.append_assoc]
      rw [Member.centralRecord, Member.centralHeader, addFileToZIP.centralHeader]
      simp only [memberOf, named, time, date]

theorem ofNat_sub (first second : Nat) :
    UInt32.ofNat (first + second) - UInt32.ofNat first = UInt32.ofNat second := by
  rw [UInt32.ofNat_add, add_comm, UInt32.add_sub_cancel]

section Files
variable (disk : Disk) {path other : Bytes} (content : Bytes)

theorem Disk.files_same (same : disk.OneFile other path) : disk.files other = disk.files path :=
  congrArg disk.contents same

theorem Disk.put_files_same (same : disk.OneFile other path) :
    (disk.put path content).files other = some content := by
  rw [files, put, same]
  exact Function.update_self _ _ _

theorem Disk.put_files (path content : Bytes) : (disk.put path content).files path = some content :=
  disk.put_files_same content rfl

theorem Disk.put_files_ne (apart : ¬ disk.OneFile other path) :
    (disk.put path content).files other = disk.files other := Function.update_of_ne apart _ _

end Files

theorem createZIP_eq (env : Environment) {fs : FileSystem} {disk : Disk} {zipname : Bytes}
    (opens : disk.writable (fs.path zipname) = true) (filelist : List File) :
    createZIP env fs disk filelist zipname =
      (true, disk.put (fs.path zipname) (archive (filelist.map (memberOf env)))) := by
  have begin : ({ bytes := [] } : FileStream) = between [] [] := rfl
  unfold createZIP
  rw [if_pos opens, begin, writeMembers_eq]
  dsimp only
  rw [List.nil_append, List.nil_append, List.length_nil, writeDirectory_eq, writeEnd_between,
    between_write, between_bytes]
  simp only [between_tell, List.length_append, ofNat_sub]
  rw [archive, endRecord, List.length_map, List.drop_nil, List.append_nil, List.append_assoc]

def grownEnd (eocd : EOCD) (first size : Nat) : EOCD :=
  { eocd with
    centralDirectoryOffset := .ofNat first
    numberCentralDirectoryRecord := eocd.numberCentralDirectoryRecord + 1
    totalCentralDirectoryRecord := eocd.totalCentralDirectoryRecord + 1
    sizeOfCentralDirectory := .ofNat size }

theorem writeFile_between (env : Environment) (file : File) (eocd : EOCD)
    (behind ahead data : Bytes) :
    let member := memberOf env file
    let directory := data ++ member.centralRecord behind.length
    let first := behind.length + member.localRecord.length
    addFileToZIP.writeFile env file eocd data (between behind ahead) =
      (between behind ahead).write (member.localRecord ++ (directory ++
        endBytes (grownEnd eocd first directory.length))) := by
  intro member directory first
  have filled (front rest : Bytes) :
      (((between front rest).write data).write (CentralDirectoryFileHeader.format.toBytes
        (addFileToZIP.centralHeader (pack env file).1 (.ofNat behind.length)))).write
          (file.name.take (pack env file).1.filenameLength.toNat) =
        (between front rest).write directory := by
    rw [between_write_write, between_write_write, List.append_assoc]
    rfl
  have place : (behind ++ member.localRecord).length = first := List.length_append
  have total : (behind ++ member.localRecord ++ directory).length = first + directory.length := by
    rw [List.length_append, place]
  rw [← between_write_write, between_write member.localRecord, ← between_write_write,
    between_write directory]
  unfold addFileToZIP.writeFile
  dsimp only
  rw [writeLocal_between, between_tell, between_write]
  rw [show (addFileToZIP.centralHeader (pack env file).1 (UInt32.ofNat behind.length)).filenameLength =
    (pack env file).1.filenameLength from rfl, filled, between_tell, between_write, between_tell,
    writeEnd_between, total, place, ofNat_sub]
  rfl

end PackagedTask.Archive
