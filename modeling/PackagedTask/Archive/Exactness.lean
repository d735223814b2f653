import PackagedTask.Archive.Following
import PackagedTask.Archive.Packing

namespace PackagedTask.Archive
open Library Packed FileStream

/-! `addZippedDir` on a foreign archive: the record the index loses its way behind is one of an
unsupported method with an extra field or a comment. -/

namespace ForeignArchive

/-- The walk reads every record, and reads it where it is. -/
def ReadInPlace (archive : ForeignArchive) : Prop :=
  (addZippedDir.visited archive.content).map (fun visit => visit.1.2.tell) = archive.positions

def IndexedExactly (disk : Disk) (fs : FileSystem) (fname : Bytes) (archive : ForeignArchive) :
    Prop :=
  (addZippedDir disk fs fname).m_files = fs.m_files ++ archive.index fname

section Exactness
variable {archive : ForeignArchive} {disk : Disk} {fs : FileSystem} {fname : Bytes}

theorem readInPlace_iff (archive : ForeignArchive) : archive.ReadInPlace ↔
    (∀ record ∈ archive.records, record.Clear) ∧
      ∀ record ∈ archive.records.dropLast, ¬ record.Misleads := by
  rw [ReadInPlace, archive.visited_eq]
  exact (addZippedDir_follows archive.content_length_lt).places_eq_iff archive.ahead_start

theorem filterMap_entry_eq_nil {records : List CentralRecord} :
    records.filterMap (CentralRecord.entry fname) = [] ↔
      ∀ record ∈ records, ¬ record.header.Indexed := by
  rw [List.filterMap_eq_nil_iff]
  refine forall₂_congr fun record _ => ?_
  rw [CentralRecord.entry, ite_eq_right_iff]
  simp

theorem indexedExactly_iff (stored : disk.files fname = some archive.content)
    (noNul : ∀ record ∈ archive.records, 0 ∉ record.name)
    (clear : ∀ record ∈ archive.records, record.Clear)
    (honest : ∀ record ∈ archive.records.dropLast, record.Misleads → ¬ record.Disguised) :
    archive.IndexedExactly disk fs fname ↔
      archive.records.Pairwise fun record later => record.Misleads → ¬ later.header.Indexed := by
  have split := reached_append_unreached (fun record => ¬ record.Misleads) archive.records
  have noNul' : ∀ record ∈ reached (fun record => ¬ record.Misleads) archive.records,
      0 ∉ record.name := by
    intro record inside
    exact noNul record (split ▸ List.mem_append_left _ inside)
  have whole : archive.index fname =
      (reached (fun record => ¬ record.Misleads) archive.records).filterMap
          (CentralRecord.entry fname) ++
        (unreached (fun record => ¬ record.Misleads) archive.records).filterMap
          (CentralRecord.entry fname) := by
    rw [← List.filterMap_append, split, index]
  rw [IndexedExactly, addZippedDir_eq_visited stored, seen_eq clear honest, indexed_seen noNul', whole,
    List.append_cancel_left_eq, List.self_eq_append_right, filterMap_entry_eq_nil, unreached_none_iff]
  simp only [not_not]

theorem exactIndex_iff (stored : disk.files fname = some archive.content)
    (noNul : ∀ record ∈ archive.records, 0 ∉ record.name)
    (clear : ∀ record ∈ archive.records, record.Clear) :
    (archive.ReadInPlace ∧ archive.IndexedExactly disk fs fname ↔
        ∀ record ∈ archive.records.dropLast, ¬ record.Misleads) ∧
      ((∀ record ∈ archive.records.dropLast, record.Misleads → ¬ record.Disguised) →
        (archive.IndexedExactly disk fs fname ↔
          archive.records.Pairwise fun record later =>
            record.Misleads → ¬ later.header.Indexed)) := by
  refine ⟨?_, indexedExactly_iff stored noNul clear⟩
  rw [archive.readInPlace_iff]
  constructor
  · rintro ⟨⟨-, straight⟩, -⟩
    exact straight
  · intro straight
    refine ⟨⟨clear, straight⟩, ?_⟩
    rw [IndexedExactly, addZippedDir_foreign stored noNul clear straight]

end Exactness

def annotated : CentralRecord where
  header :=
    { signature := centralSignature
      crc32 := 0xe8b7be43
      compressedSize := 1
      uncompressedSize := 1
      filenameLength := 1
      extraFieldLength := 4
      fileCommentLength := 1 }
  name := [0x78]
  extra := [0x99, 0x99, 0, 0]
  comment := [0x63]
  signature := rfl
  named := rfl
  extras := rfl
  commented := rfl

def reduced : CentralRecord where
  header :=
    { signature := centralSignature
      compressionMethod := 2
      filenameLength := 1
      fileCommentLength := 1
      localFileHeaderOffset := 32 }
  name := [0x79]
  extra := []
  comment := [0x63]
  signature := rfl
  named := rfl
  extras := rfl
  commented := rfl

def twoLocals : Bytes :=
  LocalFileHeader.format.toBytes
    { signature := localSignature
      crc32 := 0xe8b7be43
      compressedSize := 1
      uncompressedSize := 1
      filenameLength := 1 } ++ [0x78] ++ oneLetter ++
  (LocalFileHeader.format.toBytes
    { signature := localSignature
      compressionMethod := 2
      filenameLength := 1 } ++ [0x79])

def twoRecordsEnd : EOCD where
  numberCentralDirectoryRecord := 2
  totalCentralDirectoryRecord := 2
  sizeOfCentralDirectory := 100
  centralDirectoryOffset := 63

def supportedFirst : ForeignArchive where
  front := twoLocals
  records := [annotated, reduced]
  eocd := twoRecordsEnd
  comment := []
  number := rfl
  size := rfl
  offset := rfl
  commented := rfl
  endOnce := endOnce_of_rest (by decide)

def unsupportedFirst : ForeignArchive where
  front := twoLocals
  records := [reduced, annotated]
  eocd := twoRecordsEnd
  comment := []
  number := rfl
  size := rfl
  offset := rfl
  commented := rfl
  endOnce := endOnce_of_rest (by decide)

theorem supportedFirst_exact : ∃ disk : Disk, disk.files [] = some supportedFirst.content ∧
    supportedFirst.ReadInPlace ∧ supportedFirst.IndexedExactly disk root [] := by
  have stored := emptyDisk.put_files [] supportedFirst.content
  exact ⟨_, stored, (exactIndex_iff stored (by decide) (by decide)).1.mpr (by decide)⟩

theorem unsupportedFirst_inexact : ∃ disk : Disk,
    disk.files [] = some unsupportedFirst.content ∧
      (∀ record ∈ unsupportedFirst.records, 0 ∉ record.name) ∧
      (∀ record ∈ unsupportedFirst.records, record.Clear) ∧
      unsupportedFirst.index [] = [entryFor [] annotated.header [0x78]] ∧
      (addZippedDir disk root []).m_files = [] ∧
      ¬ unsupportedFirst.IndexedExactly disk root [] := by
  have stored := emptyDisk.put_files [] unsupportedFirst.content
  have clear : ∀ record ∈ unsupportedFirst.records, record.Clear := by decide
  have index : unsupportedFirst.index [] = [entryFor [] annotated.header [0x78]] := by decide
  have nothing : (addZippedDir (emptyDisk.put [] unsupportedFirst.content) root []).m_files = [] := by
    rw [addZippedDir_eq_visited stored, seen_eq clear (by decide)]
    decide
  refine ⟨_, stored, by decide, clear, index, nothing, ?_⟩
  rw [IndexedExactly, nothing, index]
  exact List.cons_ne_nil _ _ ∘ Eq.symm

end ForeignArchive
end PackagedTask.Archive
