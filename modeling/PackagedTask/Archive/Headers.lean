import PackagedTask.Library.Packed

namespace PackagedTask.Archive
open Library

/-! The packed structures of `fs/zip.h`; fields start at zero. -/

abbrev Bytes := List UInt8

structure EOCD where
  diskNumber : UInt16 := 0
  startDiskNumber : UInt16 := 0
  numberCentralDirectoryRecord : UInt16 := 0
  totalCentralDirectoryRecord : UInt16 := 0
  sizeOfCentralDirectory : UInt32 := 0
  centralDirectoryOffset : UInt32 := 0
  commentLength : UInt16 := 0
  deriving DecidableEq, Repr

structure CentralDirectoryFileHeader where
  signature : UInt32 := 0
  versionMadeBy : UInt16 := 0
  versionToExtract : UInt16 := 0
  generalPurposeBitFlag : UInt16 := 0
  compressionMethod : UInt16 := 0
  modificationTime : UInt16 := 0
  modificationDate : UInt16 := 0
  crc32 : UInt32 := 0
  compressedSize : UInt32 := 0
  uncompressedSize : UInt32 := 0
  filenameLength : UInt16 := 0
  extraFieldLength : UInt16 := 0
  fileCommentLength : UInt16 := 0
  diskNumber : UInt16 := 0
  internalFileAttributes : UInt16 := 0
  externalFileAttributes : UInt32 := 0
  localFileHeaderOffset : UInt32 := 0
  deriving DecidableEq, Repr

structure LocalFileHeader where
  signature : UInt32 := 0
  versionToExtract : UInt16 := 0
  generalPurposeBitFlag : UInt16 := 0
  compressionMethod : UInt16 := 0
  modificationTime : UInt16 := 0
  modificationDate : UInt16 := 0
  crc32 : UInt32 := 0
  compressedSize : UInt32 := 0
  uncompressedSize : UInt32 := 0
  filenameLength : UInt16 := 0
  extraFieldLength : UInt16 := 0
  deriving DecidableEq, Repr

theorem half_fits (value : UInt16) : value.toNat < 256 ^ 2 := value.toNat_lt

theorem word_fits (value : UInt32) : value.toNat < 256 ^ 4 := value.toNat_lt

def EOCD.format : Packed.Format EOCD where
  layout := [2, 2, 2, 2, 4, 4, 2]
  words := fun h => [h.diskNumber.toNat, h.startDiskNumber.toNat,
    h.numberCentralDirectoryRecord.toNat, h.totalCentralDirectoryRecord.toNat,
    h.sizeOfCentralDirectory.toNat, h.centralDirectoryOffset.toNat, h.commentLength.toNat]
  ofWords
    | [diskNumber, startDiskNumber, number, total, size, offset, commentLength] =>
        ⟨.ofNat diskNumber, .ofNat startDiskNumber, .ofNat number, .ofNat total, .ofNat size,
          .ofNat offset, .ofNat commentLength⟩
    | _ => {}
  fits := fun _ => ⟨half_fits _, half_fits _, half_fits _, half_fits _, word_fits _, word_fits _,
    half_fits _, trivial⟩
  ofWords_words := fun _ => by simp

def CentralDirectoryFileHeader.format : Packed.Format CentralDirectoryFileHeader where
  layout := [4, 2, 2, 2, 2, 2, 2, 4, 4, 4, 2, 2, 2, 2, 2, 4, 4]
  words := fun h => [h.signature.toNat, h.versionMadeBy.toNat, h.versionToExtract.toNat,
    h.generalPurposeBitFlag.toNat, h.compressionMethod.toNat, h.modificationTime.toNat,
    h.modificationDate.toNat, h.crc32.toNat, h.compressedSize.toNat, h.uncompressedSize.toNat,
    h.filenameLength.toNat, h.extraFieldLength.toNat, h.fileCommentLength.toNat,
    h.diskNumber.toNat, h.internalFileAttributes.toNat, h.externalFileAttributes.toNat,
    h.localFileHeaderOffset.toNat]
  ofWords
    | [signature, versionMadeBy, versionToExtract, flag, method, time, date, crc32, compressed,
        uncompressed, filename, extra, comment, diskNumber, internal, external, offset] =>
        ⟨.ofNat signature, .ofNat versionMadeBy, .ofNat versionToExtract, .ofNat flag,
          .ofNat method, .ofNat time, .ofNat date, .ofNat crc32, .ofNat compressed,
          .ofNat uncompressed, .ofNat filename, .ofNat extra, .ofNat comment, .ofNat diskNumber,
          .ofNat internal, .ofNat external, .ofNat offset⟩
    | _ => {}
  fits := fun _ => ⟨word_fits _, half_fits _, half_fits _, half_fits _, half_fits _, half_fits _,
    half_fits _, word_fits _, word_fits _, word_fits _, half_fits _, half_fits _, half_fits _,
    half_fits _, half_fits _, word_fits _, word_fits _, trivial⟩
  ofWords_words := fun _ => by simp

def LocalFileHeader.format : Packed.Format LocalFileHeader where
  layout := [4, 2, 2, 2, 2, 2, 4, 4, 4, 2, 2]
  words := fun h => [h.signature.toNat, h.versionToExtract.toNat, h.generalPurposeBitFlag.toNat,
    h.compressionMethod.toNat, h.modificationTime.toNat, h.modificationDate.toNat, h.crc32.toNat,
    h.compressedSize.toNat, h.uncompressedSize.toNat, h.filenameLength.toNat,
    h.extraFieldLength.toNat]
  ofWords
    | [signature, versionToExtract, flag, method, time, date, crc32, compressed, uncompressed,
        filename, extra] =>
        ⟨.ofNat signature, .ofNat versionToExtract, .ofNat flag, .ofNat method, .ofNat time,
          .ofNat date, .ofNat crc32, .ofNat compressed, .ofNat uncompressed, .ofNat filename,
          .ofNat extra⟩
    | _ => {}
  fits := fun _ => ⟨word_fits _, half_fits _, half_fits _, half_fits _, half_fits _, half_fits _,
    word_fits _, word_fits _, word_fits _, half_fits _, half_fits _, trivial⟩
  ofWords_words := fun _ => by simp

end PackagedTask.Archive
