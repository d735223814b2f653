import PackagedTask.Archive.Indexing

namespace PackagedTask.Archive
open Library Packed FileStream Streams

/-! Local records, and what `loadZipFile` makes of them. -/

/-- What stands before a directory: a local header, and behind it all whose length it gives. -/
structure LocalRecord where
  header : LocalFileHeader
  name : Bytes
  extra : Bytes
  payload : Bytes
  signature : header.signature = localSignature
  named : header.filenameLength.toNat = name.length
  extras : header.extraFieldLength.toNat = extra.length
  sized : header.compressedSize.toNat = payload.length

namespace LocalRecord

def bytes (record : LocalRecord) : Bytes :=
  LocalFileHeader.format.toBytes record.header ++ (record.name ++ (record.extra ++ record.payload))

/-- The archive has the record, whole, at this offset. -/
def StoredAt (record : LocalRecord) (content : Bytes) (offset : Nat) : Prop :=
  ∃ front rest, content = front ++ (record.bytes ++ rest) ∧ front.length = offset

/-- The content that the record is for; a deflate stream must give as many bytes as announced. -/
def Holds (env : Environment) (record : LocalRecord) (compressed : Bool) (data : Bytes) : Prop :=
  if compressed then
    data = env.inflate record.payload record.header.uncompressedSize.toNat ∧
      data.length = record.header.uncompressedSize.toNat
  else data = record.payload

def unpack (env : Environment) (record : LocalRecord) (compressed : Bool) : Bytes :=
  if compressed then
    let inflated := env.inflate record.payload record.header.uncompressedSize.toNat
    inflated ++ List.replicate (record.header.uncompressedSize.toNat - inflated.length) 0
  else record.payload

end LocalRecord

/-- The archive has a whole local record where the directory says, with this content. -/
def ZFileData.Holds (env : Environment) (content : Bytes) (zip_data : ZFileData) (data : Bytes) :
    Prop :=
  ∃ record : LocalRecord, record.StoredAt content zip_data.lfhOffset ∧
    record.Holds env zip_data.compressed data

def localHeader (content : Bytes) (offset : Nat) : LocalFileHeader :=
  (LocalFileHeader.format.read (FileStream.seek { bytes := content } offset) {}).1

section Loading
variable {env : Environment} {disk : Disk} {content data : Bytes} {record : LocalRecord}
  {zf : FileData}

theorem loadZipFile_record (stored : disk.files zf.fname = some content)
    (near : zf.zip_data.lfhOffset < 2 ^ 32)
    (here : record.StoredAt content zf.zip_data.lfhOffset) :
    loadZipFile env disk zf = .ok ⟨zf.fname, record.unpack env zf.zip_data.compressed,
      env.mktime (dosTm record.header.modificationTime record.header.modificationDate)⟩ := by
  obtain ⟨front, rest, layout, place⟩ := here
  have opened : ({ bytes := content } : FileStream) = between [] content := rfl
  have name := record.named ▸ UInt16.toNat_lt record.header.filenameLength
  have extra := record.extras ▸ UInt16.toNat_lt record.header.extraFieldLength
  have header : (LocalFileHeader.format.toBytes record.header).length = 30 :=
    LocalFileHeader.format.toBytes_length _
  have sought : (between [] content).seek zf.zip_data.lfhOffset = between front
      (LocalFileHeader.format.toBytes record.header ++
        (record.name ++ (record.extra ++ (record.payload ++ rest)))) := by
    refine between_seek ?_ place.symm (by omega)
    rw [List.nil_append, layout, LocalRecord.bytes]
    simp only [List.append_assoc]
  -- the header's lengths move the position over the name and the extra field
  have skipped : ((between (front ++ LocalFileHeader.format.toBytes record.header)
      (record.name ++ (record.extra ++ (record.payload ++ rest)))).skip record.name.length).skip
        record.extra.length =
        between (front ++ LocalFileHeader.format.toBytes record.header ++ record.name ++ record.extra)
          (record.payload ++ rest) := by
    rw [between_skip rfl (by rw [List.length_append]; omega)]
    exact between_skip rfl (by rw [List.length_append, List.length_append]; omega)
  unfold loadZipFile
  rw [stored]
  dsimp only
  rw [opened, sought, LocalFileHeader.format.read_between]
  dsimp only
  rw [if_neg (not_not.mpr record.signature), record.named, record.extras, record.sized, skipped,
    between_read (by simp)]
  unfold LocalRecord.unpack
  split <;> rfl

theorem loadZipFile_ok_iff (stored : disk.files zf.fname = some content) :
    (∃ loaded, loadZipFile env disk zf = .ok loaded) ↔
      (localHeader content zf.zip_data.lfhOffset).signature = localSignature := by
  unfold loadZipFile localHeader
  rw [stored]
  dsimp only
  split
  · rename_i unsigned
    simp [unsigned]
  · rename_i signed
    rw [not_not] at signed
    split <;> simp [signed]

end Loading

def Member.unpack (env : Environment) (member : Member) : Bytes :=
  if member.lfh.compressionMethod = Z_DEFLATED then
    let inflated := env.inflate member.payload member.lfh.uncompressedSize.toNat
    inflated ++ List.replicate (member.lfh.uncompressedSize.toNat - inflated.length) 0
  else member.payload

def Member.loaded (env : Environment) (path : Bytes) (member : Member) : File :=
  ⟨path, member.unpack env, env.mktime (dosTm member.lfh.modificationTime member.lfh.modificationDate)⟩

def Member.StoredAt (member : Member) (content : Bytes) (offset : Nat) : Prop :=
  ∃ front rest, content = front ++ (member.localRecord ++ rest) ∧ front.length = offset

def Member.Sound.localRecord {member : Member} (sound : member.Sound) : LocalRecord where
  header := member.lfh
  name := member.name
  extra := []
  payload := member.payload
  signature := sound.signature
  named := sound.named
  extras := by
    rw [sound.noExtra]
    rfl
  sized := sound.sized

theorem Member.Sound.storedAt {member : Member} (sound : member.Sound) {content : Bytes}
    {offset : Nat} (here : member.StoredAt content offset) :
    sound.localRecord.StoredAt content offset := here

theorem loadZipFile_member {env : Environment} {disk : Disk} {path content : Bytes}
    {member : Member} (sound : member.Sound) (stored : disk.files path = some content)
    (near : content.length < 2 ^ 32) (here : member.StoredAt content offset) :
    loadZipFile env disk (member.entry path offset) = .ok (member.loaded env path) := by
  have inside : (member.entry path offset).zip_data.lfhOffset < 2 ^ 32 := by
    obtain ⟨front, rest, layout, place⟩ := here
    rw [layout, List.length_append, place] at near
    exact (Nat.le_add_right _ _).trans_lt near
  have loads := @loadZipFile_record env disk content sound.localRecord (member.entry path offset) stored
    inside (sound.storedAt here)
  rw [loads, Member.loaded, Member.unpack, LocalRecord.unpack]
  simp only [Member.entry, Member.Sound.localRecord, decide_eq_true_eq]

end PackagedTask.Archive
