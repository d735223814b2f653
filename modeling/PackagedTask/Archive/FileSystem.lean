import PackagedTask.Archive.Headers
import PackagedTask.Streams.Memory

namespace PackagedTask.Archive
open Library Streams

/-! `fs/file.h` and the archives of `fs/file_system.cpp`. A stream that opens is written without
errors; log messages are left out. -/

structure File where
  name : Bytes
  data : Bytes
  m_last_write_time : Int := 0
  deriving DecidableEq, Repr

structure Tm where
  tm_sec : Int32
  tm_min : Int32
  tm_hour : Int32
  tm_mday : Int32
  tm_mon : Int32
  tm_year : Int32
  deriving DecidableEq

/-- What the code takes from the C library, from zlib and from uninitialised memory. `deflate` is
one raw call with `Z_FINISH`: the output, cut off where `avail_out` bytes are full. -/
structure Environment where
  localtime : Int → Tm
  mktime : Tm → Int
  crc32 : Bytes → UInt32
  deflate : Bytes → Nat → Bytes
  inflate : Bytes → Nat → Bytes
  newChars : Nat → Bytes
  deflate_length_le : ∀ input avail_out, (deflate input avail_out).length ≤ avail_out
  inflate_length_le : ∀ input avail_out, (inflate input avail_out).length ≤ avail_out
  newChars_length : ∀ count, (newChars count).length = count

def slash : UInt8 := 0x2f

/-- The path with one `/` for each run of them; `after` tells whether one stands in front. -/
def collapse : Bool → Bytes → Bytes
  | _, [] => []
  | after, byte :: path =>
      if byte = slash then
        if after then collapse true path else byte :: collapse true path
      else byte :: collapse false path

/-- Two paths that differ in the lengths of their runs of `/` at most. -/
def SameFile (path path' : Bytes) : Prop := collapse false path = collapse false path'

instance (path path' : Bytes) : Decidable (SameFile path path') :=
  inferInstanceAs (Decidable (_ = _))

/-- The files on disk, and those that open for writing, by the place where the operating system
finds a path. A file may have any number of paths: links, `.` and `..` are the system's, and to
repeat a `/` makes no difference to it. -/
structure Disk where
  resolve : Bytes → Bytes
  contents : Bytes → Option Bytes
  opens : Bytes → Bool
  slashes : ∀ {path path'}, SameFile path path' → resolve path = resolve path'

namespace Disk

def files (disk : Disk) (path : Bytes) : Option Bytes := disk.contents (disk.resolve path)

def writable (disk : Disk) (path : Bytes) : Bool := disk.opens (disk.resolve path)

def put (disk : Disk) (path content : Bytes) : Disk :=
  { disk with contents := Function.update disk.contents (disk.resolve path) (some content) }

/-- Both paths lead to one file. -/
def OneFile (disk : Disk) (path path' : Bytes) : Prop := disk.resolve path = disk.resolve path'

instance (disk : Disk) (path path' : Bytes) : Decidable (disk.OneFile path path') :=
  inferInstanceAs (Decidable (_ = _))

end Disk

structure ZFileData where
  compressed : Bool := false
  compressedSize : Nat := 0
  uncompressedSize : Nat := 0
  lfhOffset : Nat := 0
  fname : Bytes := []
  deriving DecidableEq, Repr

structure FileData where
  is_zip : Bool := false
  zip_data : ZFileData := {}
  fname : Bytes := []
  deriving DecidableEq, Repr

structure FileSystem where
  m_files : List FileData := []
  m_data_dir : Bytes

def FileSystem.path (fs : FileSystem) (name : Bytes) : Bytes := fs.m_data_dir ++ 0x2f :: name

def localSignature : UInt32 := 0x04034b50
def centralSignature : UInt32 := 0x02014b50
def endSignature : Nat := 0x06054b50
def Z_DEFLATED : UInt16 := 8

def cString (chars : Bytes) : Bytes := chars.takeWhile (· ≠ 0)

def toUInt16 (value : Int32) : UInt16 := ⟨value.toBitVec.setWidth 16⟩

def getDosTime (env : Environment) (rawtime : Int) : UInt16 × UInt16 :=
  let timeinfo := env.localtime rawtime
  let time := (timeinfo.tm_hour <<< 11) ||| (timeinfo.tm_min <<< 5) ||| (timeinfo.tm_sec >>> 1)
  let date := ((timeinfo.tm_year - 80) <<< 9) ||| ((timeinfo.tm_mon + 1) <<< 5) ||| timeinfo.tm_mday
  (toUInt16 time, toUInt16 date)

def pack (env : Environment) (file : File) : LocalFileHeader × Bytes :=
  let uncompressedSize := UInt32.ofNat file.data.length
  let buf := file.data.take uncompressedSize.toNat
  let dataBuffer := env.deflate buf uncompressedSize.toNat
  let dosTime := getDosTime env file.m_last_write_time
  let lfh : LocalFileHeader :=
    { signature := localSignature
      modificationTime := dosTime.1
      modificationDate := dosTime.2
      crc32 := env.crc32 buf
      uncompressedSize := uncompressedSize
      filenameLength := .ofNat file.name.length }
  if dataBuffer.length ≥ uncompressedSize.toNat then
    ({ lfh with compressedSize := uncompressedSize, compressionMethod := 0 }, buf)
  else
    ({ lfh with compressedSize := .ofNat dataBuffer.length, compressionMethod := Z_DEFLATED },
      dataBuffer)

structure FileInfo where
  compressedSize : UInt32
  uncompressedSize : UInt32
  compressionMethod : UInt16
  crc32 : UInt32
  offset : UInt32

def writeLocal (ofs : FileStream) (name : Bytes) (packed : LocalFileHeader × Bytes) : FileStream :=
  ((ofs.write (LocalFileHeader.format.toBytes packed.1)).write name).write packed.2

def createZIP.writeMembers (env : Environment) :
    List File → FileStream → List FileInfo → FileStream × List FileInfo
  | [], ofs, fileInfoList => (ofs, fileInfoList)
  | file :: filelist, ofs, fileInfoList =>
      let packed := pack env file
      let lfh := packed.1
      let fileInfo : FileInfo := ⟨lfh.compressedSize, lfh.uncompressedSize, lfh.compressionMethod,
        lfh.crc32, .ofNat ofs.tell⟩
      writeMembers env filelist (writeLocal ofs file.name packed) (fileInfoList ++ [fileInfo])

def createZIP.writeDirectory (env : Environment) :
    List (File × FileInfo) → FileStream → FileStream
  | [], ofs => ofs
  | (file, fileInfo) :: rest, ofs =>
      let dosTime := getDosTime env file.m_last_write_time
      let cdfh : CentralDirectoryFileHeader :=
        { compressedSize := fileInfo.compressedSize
          uncompressedSize := fileInfo.uncompressedSize
          compressionMethod := fileInfo.compressionMethod
          crc32 := fileInfo.crc32
          localFileHeaderOffset := fileInfo.offset
          filenameLength := .ofNat file.name.length
          signature := centralSignature
          modificationDate := dosTime.2
          modificationTime := dosTime.1 }
      let ofs := ofs.write (CentralDirectoryFileHeader.format.toBytes cdfh)
      writeDirectory env rest (ofs.write (file.name.take cdfh.filenameLength.toNat))

def writeEnd (ofs : FileStream) (eocd : EOCD) : FileStream :=
  (ofs.write (LittleEndian.encode 4 endSignature)).write (EOCD.format.toBytes eocd)

def createZIP (env : Environment) (fs : FileSystem) (disk : Disk) (filelist : List File)
    (zipname : Bytes) : Bool × Disk :=
  if disk.writable (fs.path zipname) then
    let written := createZIP.writeMembers env filelist { bytes := [] } []
    let ofs := written.1
    let firstOffsetCDFH := UInt32.ofNat ofs.tell
    let ofs := createZIP.writeDirectory env (filelist.zip written.2) ofs
    let lastOffsetCDFH := UInt32.ofNat ofs.tell
    let eocd : EOCD :=
      { centralDirectoryOffset := firstOffsetCDFH
        numberCentralDirectoryRecord := .ofNat filelist.length
        totalCentralDirectoryRecord := .ofNat filelist.length
        sizeOfCentralDirectory := lastOffsetCDFH - firstOffsetCDFH }
    (true, disk.put (fs.path zipname) (writeEnd ofs eocd).bytes)
  else (false, disk)

/-- The scan for the end record, from `offset` down; `EOCD_offset` is 0 where it finds none. -/
def findEOCD : Nat → FileStream → Nat × FileStream
  | 0, ifs => (0, ifs)
  | offset + 1, ifs =>
      let result := (ifs.seek (offset + 1)).read (List.replicate 4 0)
      if LittleEndian.decode result.1 = endSignature then (result.2.tell, result.2)
      else findEOCD offset result.2

/-- `fileSize - sizeof(EOCD)`, which as a `size_t` wraps in a file shorter than the record. -/
def scanStart (fileSize : Nat) : Nat :=
  if fileSize < EOCD.format.size then fileSize + 2 ^ 64 - EOCD.format.size
  else fileSize - EOCD.format.size

/-- The names in the directory, read as `addFileToZIP` does; `none` where it returns false. -/
def addFileToZIP.readNames (env : Environment) :
    Nat → FileStream → List Bytes → Option (List Bytes × FileStream)
  | 0, ofs, zip_fnames => some (zip_fnames, ofs)
  | count + 1, ofs, zip_fnames =>
      let header := CentralDirectoryFileHeader.format.read ofs {}
      let cdfh := header.1
      if cdfh.signature ≠ centralSignature then none
      else if cdfh.filenameLength ≠ 0 then
        let filename := header.2.read
          ((env.newChars (cdfh.filenameLength.toNat + 1)).take cdfh.filenameLength.toNat)
        readNames env count filename.2 (zip_fnames ++ [cString filename.1])
      else readNames env count header.2 zip_fnames

def addFileToZIP.centralHeader (lfh : LocalFileHeader) (lfhOffset : UInt32) :
    CentralDirectoryFileHeader where
  compressedSize := lfh.compressedSize
  uncompressedSize := lfh.uncompressedSize
  compressionMethod := lfh.compressionMethod
  crc32 := lfh.crc32
  localFileHeaderOffset := lfhOffset
  filenameLength := lfh.filenameLength
  signature := centralSignature
  modificationDate := lfh.modificationDate
  modificationTime := lfh.modificationTime

def addFileToZIP.writeFile (env : Environment) (file : File) (eocd : EOCD)
    (centralDirectoryData : Bytes) (ofs : FileStream) : FileStream :=
  let packed := pack env file
  let lfh := packed.1
  let lfhOffset := UInt32.ofNat ofs.tell
  let ofs := writeLocal ofs file.name packed
  let firstOffsetCDFH := UInt32.ofNat ofs.tell
  let ofs := ofs.write centralDirectoryData
  let cdfh := centralHeader lfh lfhOffset
  let ofs := ofs.write (CentralDirectoryFileHeader.format.toBytes cdfh)
  let ofs := ofs.write (file.name.take cdfh.filenameLength.toNat)
  let lastOffsetCDFH := UInt32.ofNat ofs.tell
  writeEnd ofs
    { eocd with
      centralDirectoryOffset := firstOffsetCDFH
      numberCentralDirectoryRecord := eocd.numberCentralDirectoryRecord + 1
      totalCentralDirectoryRecord := eocd.totalCentralDirectoryRecord + 1
      sizeOfCentralDirectory := lastOffsetCDFH - firstOffsetCDFH }

/-- On the opened stream; `none` where `addFileToZIP` returns false, always before it writes. -/
def addFileToZIP.update (env : Environment) (file : File) (ofs : FileStream) : Option FileStream :=
  let (EOCD_offset, ofs) := findEOCD (scanStart ofs.tell) ofs
  if EOCD_offset = 0 then none
  else
    let (eocd, ofs) := EOCD.format.read (ofs.seek EOCD_offset) {}
    let (centralDirectoryData, ofs) := (ofs.seek eocd.centralDirectoryOffset.toNat).read
      (List.replicate eocd.sizeOfCentralDirectory.toNat 0)
    let ofs := ofs.seek eocd.centralDirectoryOffset.toNat
    match addFileToZIP.readNames env eocd.numberCentralDirectoryRecord.toNat ofs [] with
    | none => none
    | some (zip_fnames, ofs) =>
        let ofs := ofs.seek eocd.centralDirectoryOffset.toNat
        if file.name ∈ zip_fnames then none
        else some (addFileToZIP.writeFile env file eocd centralDirectoryData ofs)

def addFileToZIP (env : Environment) (fs : FileSystem) (disk : Disk) (file : File)
    (zipname : Bytes) : Bool × Disk :=
  match disk.files (fs.path zipname) with
  | none => (false, disk)
  | some content =>
      if disk.writable (fs.path zipname) then
        match addFileToZIP.update env file { bytes := content, pos := content.length } with
        | none => (false, disk)
        | some ofs => (true, disk.put (fs.path zipname) ofs.bytes)
      else (false, disk)

/-- The walk over the directory; `cdfh` keeps the fields of the record before. -/
def addZippedDir.readEntries (fname : Bytes) :
    Nat → CentralDirectoryFileHeader → FileStream → List FileData → List FileData
  | 0, _, _, m_files => m_files
  | count + 1, cdfh, ifs, m_files =>
      let header := CentralDirectoryFileHeader.format.read ifs cdfh
      let cdfh := header.1
      if cdfh.signature ≠ centralSignature then m_files
      else if cdfh.generalPurposeBitFlag &&& 0x1 ≠ 0 then m_files
      else if cdfh.generalPurposeBitFlag &&& 0x8 ≠ 0 then m_files
      else
        let filename := if cdfh.filenameLength ≠ 0 then
            header.2.read (List.replicate cdfh.filenameLength.toNat 0)
          else ([], header.2)
        if cdfh.compressionMethod ≠ 0 ∧ cdfh.compressionMethod ≠ Z_DEFLATED then
          readEntries fname count cdfh filename.2 m_files
        else
          let zip_data : ZFileData :=
            { compressed := cdfh.compressionMethod = Z_DEFLATED
              compressedSize := cdfh.compressedSize.toNat
              uncompressedSize := cdfh.uncompressedSize.toNat
              lfhOffset := cdfh.localFileHeaderOffset.toNat
              fname := cString filename.1 }
          let m_files := if zip_data.uncompressedSize ≠ 0 ∨ zip_data.compressed then
              m_files ++ [⟨true, zip_data, fname⟩]
            else m_files
          let ifs := if cdfh.extraFieldLength ≠ 0 then
              filename.2.skip cdfh.extraFieldLength.toNat
            else filename.2
          let ifs := if cdfh.fileCommentLength ≠ 0 then ifs.skip cdfh.fileCommentLength.toNat
            else ifs
          readEntries fname count cdfh ifs m_files

def addZippedDir (disk : Disk) (fs : FileSystem) (fname : Bytes) : FileSystem :=
  match disk.files fname with
  | none => fs
  | some content =>
      let ifs : FileStream := { bytes := content, pos := content.length }
      let (EOCD_offset, ifs) := findEOCD (scanStart ifs.tell) ifs
      if EOCD_offset = 0 then fs
      else
        let (eocd, ifs) := EOCD.format.read (ifs.seek EOCD_offset) {}
        let m_files := addZippedDir.readEntries fname eocd.numberCentralDirectoryRecord.toNat {}
          (ifs.seek eocd.centralDirectoryOffset.toNat) fs.m_files
        { fs with m_files := m_files }

/-- The fields of the DOS words as `loadZipFile` puts them into a `tm`. -/
def dosTm (modificationTime modificationDate : UInt16) : Tm where
  tm_year := .ofNat (((modificationDate &&& 0xFE00) >>> 9).toNat + 1980)
  tm_mon := .ofNat ((modificationDate &&& 0x01E0) >>> 5).toNat
  tm_mday := .ofNat (modificationDate &&& 0x001F).toNat
  tm_hour := .ofNat ((modificationTime &&& 0xF800) >>> 11).toNat
  tm_min := .ofNat ((modificationTime &&& 0x07E0) >>> 5).toNat
  tm_sec := .ofNat ((modificationTime &&& 0x001f).toNat * 2)

def unableToLoad : Fault := .exception "Unable to load file"

/-- `inflate` fills the front of the zeroed `data`. -/
def loadZipFile (env : Environment) (disk : Disk) (zf : FileData) : Except Fault File :=
  match disk.files zf.fname with
  | none => .error unableToLoad
  | some content =>
      let header := LocalFileHeader.format.read
        (FileStream.seek { bytes := content } zf.zip_data.lfhOffset) {}
      let lfh := header.1
      if lfh.signature ≠ localSignature then .error unableToLoad
      else
        let ifs := (header.2.skip lfh.filenameLength.toNat).skip lfh.extraFieldLength.toNat
        let readBuffer := (ifs.read (List.replicate lfh.compressedSize.toNat 0)).1
        let time := env.mktime (dosTm lfh.modificationTime lfh.modificationDate)
        if zf.zip_data.compressed then
          let unc_size := lfh.uncompressedSize.toNat
          let inflated := env.inflate readBuffer unc_size
          .ok ⟨zf.fname, inflated ++ List.replicate (unc_size - inflated.length) 0, time⟩
        else .ok ⟨zf.fname, readBuffer, time⟩

end PackagedTask.Archive
