import PackagedTask.Archive.Construction

namespace PackagedTask.Archive
open Library Packed FileStream

/-! Which damage to a member `loadZipFile` reports. -/

def dataStart (content : Bytes) (offset : Nat) : Nat :=
  offset + LocalFileHeader.format.size + (localHeader content offset).filenameLength.toNat +
    (localHeader content offset).extraFieldLength.toNat

def memberData (content : Bytes) (offset : Nat) : Bytes :=
  (content.drop (dataStart content offset)).take (localHeader content offset).compressedSize.toNat

/-- The archive ends inside the local header, or before all of the member's data. -/
def Truncated (content : Bytes) (offset : Nat) : Prop :=
  content.length < offset + LocalFileHeader.format.size ∨
    (memberData content offset).length < (localHeader content offset).compressedSize.toNat

/-- What `inflate` returns with `Z_FINISH`: whether it met the end of the stream. -/
abbrev StreamEnd := Bytes → Nat → Bool

/-- `inflate` gets to the end of the stream with as many bytes as the header announces. -/
def Finishes (env : Environment) (streamEnd : StreamEnd) (content : Bytes) (offset : Nat) : Prop :=
  let uncompressedSize := (localHeader content offset).uncompressedSize.toNat
  streamEnd (memberData content offset) uncompressedSize = true ∧
    (env.inflate (memberData content offset) uncompressedSize).length = uncompressedSize

def Damaged (env : Environment) (streamEnd : StreamEnd) (content : Bytes) (zf : FileData) : Prop :=
  Truncated content zf.zip_data.lfhOffset ∨
    zf.zip_data.compressed = true ∧ ¬ Finishes env streamEnd content zf.zip_data.lfhOffset

/-- The bytes of the archive, or those that `inflate` makes of them, and no others. -/
def Genuine (env : Environment) (content : Bytes) (zf : FileData) (data : Bytes) : Prop :=
  let stored := memberData content zf.zip_data.lfhOffset
  if zf.zip_data.compressed then
    data = env.inflate stored (localHeader content zf.zip_data.lfhOffset).uncompressedSize.toNat
  else data = stored

structure Reported (env : Environment) (streamEnd : StreamEnd) (disk : Disk) (content : Bytes)
    (zf : FileData) : Prop where
  throws : Damaged env streamEnd content zf → ∃ fault, loadZipFile env disk zf = .error fault
  genuine : ∀ loaded, loadZipFile env disk zf = .ok loaded → Genuine env content zf loaded.data

section Loading
variable {env : Environment} {streamEnd : StreamEnd} {disk : Disk} {path content old : Bytes}
  {offset : Nat} {zf : FileData}

theorem localHeader_read (near : offset < 2 ^ 32)
    (whole : offset + LocalFileHeader.format.size ≤ content.length) :
    LocalFileHeader.format.read (FileStream.seek { bytes := content } offset) {} =
      (localHeader content offset, ⟨content, offset + LocalFileHeader.format.size, false⟩) := by
  have inside : (LocalFileHeader.format.toBytes {}).length ≤ (content.drop offset).length := by
    rw [LocalFileHeader.format.toBytes_length, List.length_drop]
    omega
  rw [localHeader, seek_at (by omega), Format.read, read_at inside,
    LocalFileHeader.format.toBytes_length]

theorem loadZipFile_whole (stored : disk.files zf.fname = some content)
    (near : zf.zip_data.lfhOffset < 2 ^ 32)
    (signed : (localHeader content zf.zip_data.lfhOffset).signature = localSignature)
    (whole : ¬ Truncated content zf.zip_data.lfhOffset) :
    ∃ loaded, loadZipFile env disk zf = .ok loaded ∧
      let data := memberData content zf.zip_data.lfhOffset
      let size := (localHeader content zf.zip_data.lfhOffset).uncompressedSize.toNat
      loaded.data = if zf.zip_data.compressed then
          env.inflate data size ++ List.replicate (size - (env.inflate data size).length) 0
        else data := by
  rw [Truncated, not_or, not_lt, not_lt] at whole
  have name := UInt16.toNat_lt (localHeader content zf.zip_data.lfhOffset).filenameLength
  have extra := UInt16.toNat_lt (localHeader content zf.zip_data.lfhOffset).extraFieldLength
  have size : LocalFileHeader.format.size = 30 := rfl
  have full : (List.replicate (localHeader content zf.zip_data.lfhOffset).compressedSize.toNat
      (0 : UInt8)).length ≤ (content.drop (dataStart content zf.zip_data.lfhOffset)).length := by
    have most := whole.2
    rw [memberData, List.length_take] at most
    rw [List.length_replicate]
    omega
  unfold loadZipFile
  rw [stored]
  dsimp only
  rw [localHeader_read near whole.1]
  dsimp only
  rw [if_neg (not_not.mpr signed), skip_at (by omega), skip_at (by omega),
    ← dataStart, read_at full, List.length_replicate, ← memberData]
  split <;> exact ⟨_, rfl, rfl⟩

theorem genuine_of_whole (stored : disk.files zf.fname = some content)
    (near : zf.zip_data.lfhOffset < 2 ^ 32)
    (signed : (localHeader content zf.zip_data.lfhOffset).signature = localSignature)
    (whole : ¬ Damaged env streamEnd content zf) {loaded : File}
    (result : loadZipFile env disk zf = .ok loaded) : Genuine env content zf loaded.data := by
  rw [Damaged, not_or, not_and, not_not] at whole
  obtain ⟨same, returned, data⟩ := @loadZipFile_whole env disk content zf stored near signed whole.1
  rw [result] at returned
  obtain rfl := Except.ok.inj returned
  rw [Genuine, data]
  by_cases compressed : zf.zip_data.compressed = true
  · rw [if_pos compressed, if_pos compressed, (whole.2 compressed).2, Nat.sub_self,
      List.replicate_zero, List.append_nil]
  · rw [if_neg compressed, if_neg compressed]

theorem reported_iff (stored : disk.files path = some content) (indexed : zf ∈ index path old) :
    Reported env streamEnd disk content zf ↔
      ((localHeader content zf.zip_data.lfhOffset).signature = localSignature →
        ¬ Damaged env streamEnd content zf) := by
  rw [← (mem_index indexed).2] at stored
  constructor
  · intro reported signed damaged
    obtain ⟨loaded, result⟩ := (loadZipFile_ok_iff stored).mpr signed
    obtain ⟨fault, thrown⟩ := reported.throws damaged
    rw [result] at thrown
    cases thrown
  · intro undamaged
    constructor
    · intro damaged
      cases result : loadZipFile env disk zf with
      | error fault => exact ⟨fault, rfl⟩
      | ok loaded =>
          have signed := (loadZipFile_ok_iff stored).mp ⟨loaded, result⟩
          exact absurd damaged (undamaged signed)
    · intro loaded result
      have signed := (loadZipFile_ok_iff stored).mp ⟨loaded, result⟩
      exact genuine_of_whole stored (index_near indexed) signed (undamaged signed) result

theorem member_whole {member : Member} (sound : member.Sound) (near : offset < 2 ^ 32)
    (here : member.StoredAt content offset) : localHeader content offset = member.lfh ∧
      memberData content offset = member.payload ∧ ¬ Truncated content offset := by
  obtain ⟨front, rest, layout, place⟩ := here
  have bytes : content = front ++ (LocalFileHeader.format.toBytes member.lfh ++
      (member.name ++ (member.payload ++ rest))) := by
    rw [layout, Member.localRecord]
    simp only [List.append_assoc]
  have size : LocalFileHeader.format.size = 30 := rfl
  have opened : ({ bytes := content } : FileStream) = between [] content := rfl
  have header : localHeader content offset = member.lfh := by
    rw [localHeader, opened, between_seek ((List.nil_append _).trans bytes) place.symm (by omega),
      LocalFileHeader.format.read_between]
  have start : dataStart content offset =
      (front ++ LocalFileHeader.format.toBytes member.lfh ++ member.name).length := by
    simp only [dataStart, header, sound.named, sound.noExtra, List.length_append,
      LocalFileHeader.format.toBytes_length, place, UInt16.toNat_zero, Nat.add_zero]
  have data : memberData content offset = member.payload := by
    rw [memberData, header, sound.sized, start, bytes, ← List.append_assoc, ← List.append_assoc,
      List.drop_left, List.take_left]
  refine ⟨header, data, ?_⟩
  rw [Truncated, data, header, sound.sized, bytes]
  simp only [List.length_append, LocalFileHeader.format.toBytes_length]
  omega

end Loading

def lettersMember : Member := memberOf sample lettersFile

def corrupted : Member := { lettersMember with payload := [0x07, 0x4c, 0x84, 0x01, 0x00] }

def corruptedZip : Bytes := archive [corrupted]

def corruptedDisk : Disk := emptyDisk.put dataZip corruptedZip

def corruptedEntry : FileData := corrupted.entry dataZip 0

/-- Whether zlib meets the end of the two streams that `sample` knows. -/
def sampleEnd : StreamEnd := fun input avail_out =>
  (input = [0x4b, 0x4c, 0x84, 0x01, 0x00] ∧ 10 ≤ avail_out) ∨ (input = [0x4b, 0x04, 0x00] ∧ 1 ≤ avail_out)

theorem corrupted_sound : corrupted.Sound := by
  obtain ⟨signature, named, nonempty, noNul, sized, noExtra, method⟩ :=
    memberOf_sound sample lettersFile_archivable
  exact ⟨signature, named, nonempty, noNul, sized, noExtra, method⟩

theorem corrupted_intact : Intact [corrupted] where
  inhabited := List.cons_ne_nil _ _
  count := by decide
  sound := by simpa using corrupted_sound
  small := by decide

theorem corrupted_stored : corrupted.StoredAt corruptedZip 0 := ⟨[], _, rfl, rfl⟩

theorem corrupted_invented : corruptedEntry ∈ index dataZip corruptedZip ∧
    (∃ loaded, loadZipFile sample corruptedDisk corruptedEntry = .ok loaded ∧
      loaded.data = List.replicate 10 0) ∧
    ¬ Reported sample sampleEnd corruptedDisk corruptedZip corruptedEntry := by
  have result : loadZipFile sample corruptedDisk corruptedEntry =
      .ok (corrupted.loaded sample dataZip) :=
    loadZipFile_member corrupted_sound (emptyDisk.put_files _ _) corrupted_intact.small corrupted_stored
  refine ⟨?_, ⟨_, result, by decide⟩, fun reported => ?_⟩
  · rw [corruptedZip, index_archive corrupted_intact, entries, if_pos (by decide)]
    exact List.mem_cons_self
  · obtain ⟨header, data, -⟩ := member_whole corrupted_sound (by decide) corrupted_stored
    have unfinished : ¬ Finishes sample sampleEnd corruptedZip 0 := by
      intro finishes
      have produced := finishes.2
      rw [header, data] at produced
      exact absurd produced (by decide)
    obtain ⟨fault, thrown⟩ := reported.throws (.inr ⟨rfl, unfinished⟩)
    rw [result] at thrown
    cases thrown

theorem letter_reported : Reported sample sampleEnd dataDisk
    (archive ([letterFile].map (memberOf sample))) ((memberOf sample letterFile).entry dataZip 0) := by
  have sound := memberOf_sound sample letterFile_archivable
  have listed : (memberOf sample letterFile).entry dataZip 0 ∈
      index dataZip (archive ([letterFile].map (memberOf sample))) := by
    rw [index_archive letter_intact, letter_entries letterFile (by decide)]
    exact List.mem_singleton_self _
  refine (reported_iff dataDisk_stored listed).mpr fun _ => ?_
  rintro (truncated | ⟨compressed, -⟩)
  · exact (member_whole sound (by decide) ⟨[], _, rfl, rfl⟩).2.2 truncated
  · exact absurd compressed (by decide)

end PackagedTask.Archive
