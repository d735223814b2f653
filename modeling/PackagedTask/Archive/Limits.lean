import PackagedTask.Archive.Appending

namespace PackagedTask.Archive
open Library Packed FileStream

/-! The 16-bit and 32-bit fields of the headers, and what the two writers do beyond them. -/

structure File.Fits (file : File) : Prop where
  name : file.name.length < 2 ^ 16
  data : file.data.length < 2 ^ 32

/-- What an archive of `filelist` needs, counted without narrowing; `offsets` are those of the local
headers and of the directory. -/
structure CreateFits (env : Environment) (filelist : List File) : Prop where
  files : ∀ file ∈ filelist, file.Fits
  count : filelist.length < 2 ^ 16
  offsets : ∀ first rest, filelist = first ++ rest →
    (locals (first.map (memberOf env))).length < 2 ^ 32
  size : (directory 0 (filelist.map (memberOf env))).length < 2 ^ 32

/-- What one more member needs in an archive with the end record `eocd`. -/
structure GrowthFits (env : Environment) (file : File) (eocd : EOCD) : Prop where
  added : file.Fits
  number : eocd.numberCentralDirectoryRecord.toNat + 1 < 2 ^ 16
  total : eocd.totalCentralDirectoryRecord.toNat + 1 < 2 ^ 16
  offset : eocd.centralDirectoryOffset.toNat + (memberOf env file).localRecord.length < 2 ^ 32
  size : eocd.sizeOfCentralDirectory.toNat + (46 + file.name.length) < 2 ^ 32

section Exact

/-- The fields that `createZIP` narrows hold the numbers they stand for. -/
structure CreateExact (env : Environment) (filelist : List File) : Prop where
  files : ∀ file ∈ filelist, (memberOf env file).lfh.filenameLength.toNat = file.name.length ∧
    (memberOf env file).lfh.uncompressedSize.toNat = file.data.length ∧
    (memberOf env file).lfh.compressedSize.toNat = (memberOf env file).payload.length
  count : (endRecord (filelist.map (memberOf env))).numberCentralDirectoryRecord.toNat =
    filelist.length
  total : (endRecord (filelist.map (memberOf env))).totalCentralDirectoryRecord.toNat =
    filelist.length
  offsets : ∀ first file rest, filelist = first ++ file :: rest →
    ((memberOf env file).centralHeader
      (locals (first.map (memberOf env))).length).localFileHeaderOffset.toNat =
        (locals (first.map (memberOf env))).length
  start : (endRecord (filelist.map (memberOf env))).centralDirectoryOffset.toNat =
    (locals (filelist.map (memberOf env))).length
  size : (endRecord (filelist.map (memberOf env))).sizeOfCentralDirectory.toNat =
    (directory 0 (filelist.map (memberOf env))).length

structure GrowthExact (env : Environment) (file : File) (eocd : EOCD) (first size : Nat) :
    Prop where
  name : (memberOf env file).lfh.filenameLength.toNat = file.name.length
  data : (memberOf env file).lfh.uncompressedSize.toNat = file.data.length
  packed : (memberOf env file).lfh.compressedSize.toNat = (memberOf env file).payload.length
  place : ((memberOf env file).centralHeader
    eocd.centralDirectoryOffset.toNat).localFileHeaderOffset.toNat =
      eocd.centralDirectoryOffset.toNat
  number : (grownEnd eocd first size).numberCentralDirectoryRecord.toNat =
    eocd.numberCentralDirectoryRecord.toNat + 1
  total : (grownEnd eocd first size).totalCentralDirectoryRecord.toNat =
    eocd.totalCentralDirectoryRecord.toNat + 1
  offset : (grownEnd eocd first size).centralDirectoryOffset.toNat = first
  size : (grownEnd eocd first size).sizeOfCentralDirectory.toNat = size

variable {env : Environment} {file : File}

end Exact

/-- The end record that the scan in `addFileToZIP` takes, and the stream behind it. -/
def addFileToZIP.readEnd (content : Bytes) : Option (EOCD × FileStream) :=
  let (EOCD_offset, ofs) := findEOCD (scanStart content.length) ⟨content, content.length, false⟩
  if EOCD_offset = 0 then none else some (EOCD.format.read (ofs.seek EOCD_offset) {})

/-- The names that `addFileToZIP` compares with; `none` where it has already returned false. -/
def addFileToZIP.namesOf (env : Environment) (content : Bytes) : Option (List Bytes) := do
  let (eocd, ofs) ← addFileToZIP.readEnd content
  let (_, ofs) := (ofs.seek eocd.centralDirectoryOffset.toNat).read
    (List.replicate eocd.sizeOfCentralDirectory.toNat 0)
  let (zip_fnames, _) ← addFileToZIP.readNames env eocd.numberCentralDirectoryRecord.toNat
    (ofs.seek eocd.centralDirectoryOffset.toNat) []
  pure zip_fnames

end PackagedTask.Archive
