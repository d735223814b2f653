import PackagedTask.Archive.Walking

namespace PackagedTask.Archive
open Library Packed FileStream

/-! Archives of other tools: extra fields, comments and any flags, methods and names. -/

section Scan
def wordAt (bytes : Bytes) (offset : Nat) : Bytes := (bytes.drop offset).take 4

variable {behind ahead bytes : Bytes} {offset : Nat}

theorem between_split (bytes : Bytes) {offset : Nat} (inside : offset + 4 ≤ bytes.length) :
    bytes = bytes.take offset ++ (wordAt bytes offset ++ bytes.drop (offset + 4)) ∧
      (bytes.take offset).length = offset ∧ (wordAt bytes offset).length = 4 := by
  refine ⟨?_, by simp; omega, by simp [wordAt]; omega⟩
  rw [wordAt, ← List.drop_drop, List.take_append_drop, List.take_append_drop]

theorem findEOCD_probe (same : behind ++ ahead = bytes) (inside : offset + 5 ≤ bytes.length)
    (small : offset + 1 < 2 ^ 63) :
    findEOCD (offset + 1) (between behind ahead) =
      let next := between (bytes.take (offset + 5)) (bytes.drop (offset + 5))
      if LittleEndian.decode (wordAt bytes (offset + 1)) = endSignature then (offset + 5, next)
      else findEOCD offset next := by
  obtain ⟨split, place, four⟩ := between_split bytes (show offset + 1 + 4 ≤ bytes.length by omega)
  have front : bytes.take (offset + 1) ++ wordAt bytes (offset + 1) = bytes.take (offset + 5) := by
    exact (List.take_add (i := offset + 1) (j := 4)).symm
  rw [findEOCD, between_seek (same.trans split) place.symm (by omega), between_read (by simp [four]),
    between_tell, front, List.length_take_of_le inside]

theorem findEOCD_last {steps : Nat} (positive : 0 < offset)
    (found : LittleEndian.decode (wordAt bytes offset) = endSignature)
    (misses : ∀ i < steps, LittleEndian.decode (wordAt bytes (offset + i + 1)) ≠ endSignature)
    (inside : offset + steps + 4 ≤ bytes.length) (small : bytes.length < 2 ^ 63)
    (same : behind ++ ahead = bytes) :
    findEOCD (offset + steps) (between behind ahead) =
      (offset + 4, between (bytes.take (offset + 4)) (bytes.drop (offset + 4))) := by
  induction steps generalizing behind ahead with
  | zero =>
      obtain ⟨offset, rfl⟩ : ∃ before, offset = before + 1 := ⟨offset - 1, by omega⟩
      rw [Nat.add_zero, findEOCD_probe same (by omega) (by omega)]
      exact if_pos found
  | succ steps ih =>
      rw [← Nat.add_assoc, findEOCD_probe same (by omega) (by omega)]
      dsimp only
      rw [if_neg (misses steps (by omega))]
      exact ih (fun i less => misses i (by omega)) (by omega) (List.take_append_drop _ _)

theorem findEOCD_none {steps : Nat}
    (misses : ∀ i < steps, LittleEndian.decode (wordAt bytes (i + 1)) ≠ endSignature)
    (inside : steps + 4 ≤ bytes.length) (small : bytes.length < 2 ^ 63)
    (same : behind ++ ahead = bytes) : (findEOCD steps (between behind ahead)).1 = 0 := by
  induction steps generalizing behind ahead with
  | zero => rfl
  | succ steps ih =>
      rw [findEOCD_probe same (by omega) (by omega)]
      dsimp only
      rw [if_neg (misses steps (by omega))]
      exact ih (fun i less => misses i (by omega)) (by omega) (List.take_append_drop _ _)

end Scan

/-- The file ends with an end record and its comment, and no second record fits behind the
signature of that one. -/
structure EndsWith (content front : Bytes) (eocd : EOCD) (comment : Bytes) : Prop where
  layout : content = front ++ (endBytes eocd ++ comment)
  small : content.length < 2 ^ 62
  once : ∀ offset > front.length, offset + EOCD.format.size ≤ content.length →
    LittleEndian.decode (wordAt content offset) ≠ endSignature

namespace EndsWith
variable {content front comment : Bytes} {eocd : EOCD}

theorem length (ends : EndsWith content front eocd comment) :
    content.length = front.length + 22 + comment.length := by
  simp only [ends.layout, List.length_append, endBytes_length]
  omega

theorem scanStart_eq (ends : EndsWith content front eocd comment) :
    scanStart content.length = front.length + (4 + comment.length) := by
  have length := ends.length
  rw [scanStart, show EOCD.format.size = 18 from rfl, if_neg (by omega), length]
  omega

theorem opened (content : Bytes) :
    (⟨content, content.length, false⟩ : FileStream) = between content [] := by
  simp [between]

theorem misses (ends : EndsWith content front eocd comment) {i : Nat}
    (before : i < 4 + comment.length) :
    LittleEndian.decode (wordAt content (front.length + i + 1)) ≠ endSignature := by
  have length := ends.length
  refine ends.once _ (by omega) ?_
  rw [show EOCD.format.size = 18 from rfl, length]
  omega

theorem scan (ends : EndsWith content front eocd comment) (inhabited : front ≠ []) :
    findEOCD (scanStart content.length) ⟨content, content.length, false⟩ =
      (front.length + 4, between (front ++ LittleEndian.encode 4 endSignature)
        (EOCD.format.toBytes eocd ++ comment)) := by
  have small := ends.small
  have length := ends.length
  have signature : LittleEndian.decode (wordAt content front.length) = endSignature := by
    rw [wordAt, ends.layout, List.drop_left, endBytes, List.append_assoc,
      List.take_left' (LittleEndian.encode_length _ _)]
    decide
  have split : content = front ++ LittleEndian.encode 4 endSignature ++
      (EOCD.format.toBytes eocd ++ comment) := by
    simp only [ends.layout, endBytes, List.append_assoc]
  have behind : (front ++ LittleEndian.encode 4 endSignature).length = front.length + 4 := by
    rw [List.length_append, LittleEndian.encode_length]
  rw [ends.scanStart_eq, opened, findEOCD_last (List.length_pos_iff.mpr inhabited)
    signature (fun i less => ends.misses less) (by omega) (by omega)
    (List.append_nil _), split, List.take_left' behind, List.drop_left' behind]

theorem scan_empty (ends : EndsWith content front eocd comment) (empty : front = []) :
    (findEOCD (scanStart content.length) ⟨content, content.length, false⟩).1 = 0 := by
  have small := ends.small
  have length := ends.length
  have start := ends.scanStart_eq
  rw [empty, List.length_nil, Nat.zero_add] at start
  rw [start, opened]
  refine findEOCD_none (fun i less => ?_) (by omega) (by omega) (List.append_nil _)
  have miss := ends.misses less
  rw [empty, List.length_nil, Nat.zero_add] at miss
  exact miss

theorem readEnd (ends : EndsWith content front eocd comment) :
    EOCD.format.read ((between (front ++ LittleEndian.encode 4 endSignature)
      (EOCD.format.toBytes eocd ++ comment)).seek (front.length + 4)) {} =
    (eocd, between (front ++ endBytes eocd) comment) := by
  have small := ends.small
  have length := ends.length
  have place : front.length + 4 = (front ++ LittleEndian.encode 4 endSignature).length := by
    rw [List.length_append, LittleEndian.encode_length]
  rw [between_seek rfl place (by omega), EOCD.format.read_between,
    endBytes, List.append_assoc _ (LittleEndian.encode _ _)]

theorem seekDirectory {behind ahead directory : Bytes}
    (ends : EndsWith content (front ++ directory) eocd comment)
    (offset : eocd.centralDirectoryOffset.toNat = front.length)
    (same : behind ++ ahead = content) :
    (between behind ahead).seek eocd.centralDirectoryOffset.toNat =
      between front (directory ++ (endBytes eocd ++ comment)) := by
  have small := ends.small
  have length := ends.length
  rw [List.length_append] at length
  refine between_seek ?_ offset (by rw [offset]; omega)
  rw [same, ends.layout, List.append_assoc]

theorem visited_eq {directory : Bytes} (ends : EndsWith content (front ++ directory) eocd comment)
    (occupied : front ++ directory ≠ [])
    (offset : eocd.centralDirectoryOffset.toNat = front.length) :
    addZippedDir.visited content =
      visits addZippedDir.readRecord eocd.numberCentralDirectoryRecord.toNat
        ({}, between front (directory ++ (endBytes eocd ++ comment))) := by
  unfold addZippedDir.visited
  rw [ends.scan occupied]
  dsimp only
  rw [if_neg (by omega), ends.readEnd]
  dsimp only
  rw [ends.seekDirectory offset (by rw [ends.layout, List.append_assoc _ (endBytes _)])]

end EndsWith

/-- A record of the central directory, whose header gives the lengths of what follows it. -/
structure CentralRecord where
  header : CentralDirectoryFileHeader
  name : Bytes
  extra : Bytes
  comment : Bytes
  signature : header.signature = centralSignature
  named : header.filenameLength.toNat = name.length
  extras : header.extraFieldLength.toNat = extra.length
  commented : header.fileCommentLength.toNat = comment.length

namespace CentralRecord

def head (record : CentralRecord) : Bytes :=
  CentralDirectoryFileHeader.format.toBytes record.header ++ record.name

def tail (record : CentralRecord) : Bytes := record.extra ++ record.comment

def bytes (record : CentralRecord) : Bytes := record.head ++ record.tail

def Clear (record : CentralRecord) : Prop :=
  record.header.generalPurposeBitFlag &&& 0x1 = 0 ∧ record.header.generalPurposeBitFlag &&& 0x8 = 0

instance (record : CentralRecord) : Decidable record.Clear := inferInstanceAs (Decidable (_ ∧ _))

/-- What is behind the name reads as another record. -/
def Disguised (record : CentralRecord) : Prop :=
  LittleEndian.encode 4 centralSignature.toNat <+: record.tail

instance (record : CentralRecord) : Decidable record.Disguised :=
  inferInstanceAs (Decidable (_ <+: _))

end CentralRecord

def listing (records : List CentralRecord) : Bytes := records.flatMap CentralRecord.bytes

structure ForeignArchive where
  front : Bytes
  records : List CentralRecord
  eocd : EOCD
  comment : Bytes
  number : eocd.numberCentralDirectoryRecord.toNat = records.length
  size : eocd.sizeOfCentralDirectory.toNat = (listing records).length
  offset : eocd.centralDirectoryOffset.toNat = front.length
  commented : eocd.commentLength.toNat = comment.length
  /-- No second end record fits behind the signature of the first. -/
  endOnce : let content := front ++ listing records ++ (endBytes eocd ++ comment)
    ∀ offset > (front ++ listing records).length, offset + EOCD.format.size ≤ content.length →
      LittleEndian.decode (wordAt content offset) ≠ endSignature

namespace ForeignArchive

def content (archive : ForeignArchive) : Bytes :=
  archive.front ++ listing archive.records ++ (endBytes archive.eocd ++ archive.comment)

def positions (archive : ForeignArchive) : List Nat :=
  offsets archive.front.length (archive.records.map fun record => record.bytes.length)

end ForeignArchive

theorem endOnce_of_rest {front rest : Bytes}
    (misses : ∀ i ≤ rest.length - EOCD.format.size, 0 < i →
      LittleEndian.decode (wordAt rest i) ≠ endSignature) :
    ∀ offset > front.length, offset + EOCD.format.size ≤ (front ++ rest).length →
      LittleEndian.decode (wordAt (front ++ rest) offset) ≠ endSignature := by
  intro offset behind inside
  obtain ⟨i, rfl⟩ := Nat.exists_eq_add_of_lt behind
  rw [List.length_append] at inside
  rw [Nat.add_assoc, wordAt, List.drop_length_add_append]
  exact misses (i + 1) (by omega) (Nat.succ_pos i)

theorem listing_cons (record : CentralRecord) (records : List CentralRecord) :
    listing (record :: records) = record.bytes ++ listing records := List.flatMap_cons

namespace CentralRecord
variable (record : CentralRecord)

theorem header_length : (CentralDirectoryFileHeader.format.toBytes record.header).length = 46 :=
  CentralDirectoryFileHeader.format.toBytes_length _

theorem bytes_length : record.bytes.length = record.head.length + record.tail.length :=
  List.length_append

theorem head_length : record.head.length = 46 + record.name.length := by
  rw [head, List.length_append, record.header_length]

theorem name_length_lt : record.name.length < 2 ^ 16 := record.named ▸ UInt16.toNat_lt _

theorem bytes_length_lt : record.bytes.length < 2 ^ 18 := by
  have name := record.name_length_lt
  have extra : record.extra.length < 2 ^ 16 := record.extras ▸ UInt16.toNat_lt _
  have comment : record.comment.length < 2 ^ 16 := record.commented ▸ UInt16.toNat_lt _
  rw [bytes_length, head_length, tail, List.length_append]
  omega

theorem bytes_append (ahead : Bytes) : record.bytes ++ ahead =
    CentralDirectoryFileHeader.format.toBytes record.header ++
      (record.name ++ (record.tail ++ ahead)) := by
  simp only [bytes, head, List.append_assoc]

theorem bytes_begin : ∃ rest, record.bytes = LittleEndian.encode 4 centralSignature.toNat ++ rest := by
  obtain ⟨rest, shape⟩ : ∃ rest, CentralDirectoryFileHeader.format.toBytes record.header =
      LittleEndian.encode 4 record.header.signature.toNat ++ rest := ⟨_, rfl⟩
  rw [bytes, head, shape, record.signature, List.append_assoc, List.append_assoc]
  exact ⟨_, rfl⟩

end CentralRecord

/-- A file with a directory where its end record says, whatever length that gives the comment. -/
structure Catalogue where
  front : Bytes
  records : List CentralRecord
  /-- Counted as part of the directory, such as a digital signature. -/
  trailer : Bytes
  /-- Between the directory and the end record, such as the end record of a larger format. -/
  gap : Bytes
  eocd : EOCD
  comment : Bytes
  number : eocd.numberCentralDirectoryRecord.toNat = records.length
  size : eocd.sizeOfCentralDirectory.toNat = (listing records ++ trailer).length
  offset : eocd.centralDirectoryOffset.toNat = front.length
  endsWith : EndsWith (front ++ (listing records ++ trailer ++ gap) ++ (endBytes eocd ++ comment))
    (front ++ (listing records ++ trailer ++ gap)) eocd comment

namespace Catalogue
variable (catalogue : Catalogue)

def directory : Bytes := listing catalogue.records ++ catalogue.trailer

def content : Bytes :=
  catalogue.front ++ (catalogue.directory ++ catalogue.gap) ++
    (endBytes catalogue.eocd ++ catalogue.comment)

def start : FileStream :=
  between catalogue.front
    (catalogue.directory ++ catalogue.gap ++ (endBytes catalogue.eocd ++ catalogue.comment))

theorem ends : EndsWith catalogue.content
    (catalogue.front ++ (catalogue.directory ++ catalogue.gap)) catalogue.eocd catalogue.comment :=
  catalogue.endsWith

theorem seekDirectory {behind ahead : Bytes} (same : behind ++ ahead = catalogue.content) :
    (between behind ahead).seek catalogue.eocd.centralDirectoryOffset.toNat = catalogue.start :=
  catalogue.ends.seekDirectory catalogue.offset same

variable {catalogue}

theorem empty_records (empty : catalogue.front ++ (catalogue.directory ++ catalogue.gap) = []) :
    catalogue.records = [] := by
  simp only [directory, List.append_eq_nil_iff] at empty
  have none := empty.2.1.1
  match shape : catalogue.records with
  | [] => rfl
  | record :: records =>
      have size := record.bytes_length
      rw [record.head_length] at size
      rw [shape, listing_cons, List.append_eq_nil_iff] at none
      rw [none.1, List.length_nil] at size
      omega

theorem occupied (inhabited : catalogue.records ≠ []) :
    catalogue.front ++ (catalogue.directory ++ catalogue.gap) ≠ [] :=
  fun empty => inhabited (empty_records empty)

theorem visited_eq (catalogue : Catalogue) : addZippedDir.visited catalogue.content =
    visits addZippedDir.readRecord catalogue.records.length ({}, catalogue.start) := by
  by_cases empty : catalogue.front ++ (catalogue.directory ++ catalogue.gap) = []
  · unfold addZippedDir.visited
    rw [empty_records empty]
    dsimp only
    rw [if_pos (catalogue.ends.scan_empty empty)]
    rfl
  · rw [catalogue.ends.visited_eq empty catalogue.offset, catalogue.number, start]

end Catalogue

namespace ForeignArchive
variable (archive : ForeignArchive)

theorem content_length : archive.content.length =
    archive.front.length + (listing archive.records).length + 22 + archive.comment.length := by
  simp only [content, List.length_append, endBytes_length]
  omega

theorem content_length_lt : archive.content.length < 2 ^ 62 := by
  have front : archive.front.length < 2 ^ 32 := archive.offset ▸ UInt32.toNat_lt _
  have directory : (listing archive.records).length < 2 ^ 32 := archive.size ▸ UInt32.toNat_lt _
  have comment : archive.comment.length < 2 ^ 16 := archive.commented ▸ UInt16.toNat_lt _
  rw [archive.content_length]
  omega

def catalogue : Catalogue where
  front := archive.front
  records := archive.records
  trailer := []
  gap := []
  eocd := archive.eocd
  comment := archive.comment
  number := archive.number
  size := by rw [archive.size, List.append_nil]
  offset := archive.offset
  endsWith := by
    rw [List.append_nil, List.append_nil]
    exact ⟨rfl, archive.content_length_lt, archive.endOnce⟩

theorem catalogue_directory : archive.catalogue.directory = listing archive.records :=
  List.append_nil _

theorem catalogue_content : archive.catalogue.content = archive.content := by
  rw [Catalogue.content, catalogue_directory]
  simp only [catalogue, content, List.append_nil]

def start : FileStream :=
  between archive.front (listing archive.records ++ (endBytes archive.eocd ++ archive.comment))

theorem catalogue_start : archive.catalogue.start = archive.start := by
  rw [Catalogue.start, catalogue_directory]
  simp only [catalogue, start, List.append_nil]

theorem visited_eq : addZippedDir.visited archive.content =
    visits addZippedDir.readRecord archive.records.length ({}, archive.start) := by
  rw [← catalogue_content, ← catalogue_start]
  exact archive.catalogue.visited_eq

end ForeignArchive
end PackagedTask.Archive
