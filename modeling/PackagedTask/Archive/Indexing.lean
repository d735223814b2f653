import PackagedTask.Archive.Following

namespace PackagedTask.Archive
open Library Packed FileStream

/-! What the two directory walks find in an archive that follows the layout. -/

/-- A member whose header tells the truth about its name and payload. -/
structure Member.Sound (member : Member) : Prop where
  signature : member.lfh.signature = localSignature
  named : member.lfh.filenameLength.toNat = member.name.length
  nonempty : member.name ≠ []
  noNul : 0 ∉ member.name
  sized : member.lfh.compressedSize.toNat = member.payload.length
  noExtra : member.lfh.extraFieldLength = 0
  method : member.lfh.compressionMethod = 0 ∨ member.lfh.compressionMethod = Z_DEFLATED

structure Intact (members : List Member) : Prop where
  inhabited : members ≠ []
  count : members.length < 2 ^ 16
  sound : ∀ member ∈ members, member.Sound
  small : (archive members).length < 2 ^ 32

namespace Member

def entry (path : Bytes) (offset : Nat) (member : Member) : FileData where
  is_zip := true
  zip_data :=
    { compressed := member.lfh.compressionMethod = Z_DEFLATED
      compressedSize := member.lfh.compressedSize.toNat
      uncompressedSize := member.lfh.uncompressedSize.toNat
      lfhOffset := offset
      fname := member.name }
  fname := path

/-- The walk leaves out stored members that seem empty. -/
def Indexed (member : Member) : Prop :=
  member.lfh.uncompressedSize.toNat ≠ 0 ∨ member.lfh.compressionMethod = Z_DEFLATED

instance (member : Member) : Decidable member.Indexed := inferInstanceAs (Decidable (_ ∨ _))

end Member

def entries (path : Bytes) : Nat → List Member → List FileData
  | _, [] => []
  | offset, member :: members =>
      let rest := entries path (offset + member.localRecord.length) members
      if member.Indexed then member.entry path offset :: rest else rest

theorem entries_append (path : Bytes) (offset : Nat) (first second : List Member) :
    entries path offset (first ++ second) =
      entries path offset first ++ entries path (offset + (locals first).length) second := by
  induction first generalizing offset with
  | nil => rfl
  | cons member first ih =>
      rw [List.cons_append, entries, entries, ih, locals_cons, List.length_append, Nat.add_assoc]
      split <;> rfl

theorem Member.Sound.central {member : Member} (sound : member.Sound) (offset : Nat) :
    member.centralRecord offset =
      CentralDirectoryFileHeader.format.toBytes (member.centralHeader offset) ++ member.name := by
  rw [Member.centralRecord, sound.named, List.take_length]

def Member.Sound.record {member : Member} (sound : member.Sound) (offset : Nat) : CentralRecord where
  header := member.centralHeader offset
  name := member.name
  extra := []
  comment := []
  signature := rfl
  named := sound.named
  extras := rfl
  commented := rfl

def records : Nat → (members : List Member) → (∀ member ∈ members, member.Sound) →
    List CentralRecord
  | _, [], _ => []
  | offset, member :: members, sound =>
      (sound member List.mem_cons_self).record offset ::
        records (offset + member.localRecord.length) members
          fun other inside => sound other (List.mem_cons_of_mem _ inside)

section Records
variable {members : List Member} {offset : Nat}

theorem listing_records (sound : ∀ member ∈ members, member.Sound) :
    listing (records offset members sound) = directory offset members := by
  induction members generalizing offset with
  | nil => rfl
  | cons member members ih =>
      have here : ((sound member List.mem_cons_self).record offset).bytes =
          member.centralRecord offset := by
        rw [(sound member List.mem_cons_self).central]
        exact List.append_nil _
      rw [records, listing_cons, directory, ih, here]

theorem records_length (sound : ∀ member ∈ members, member.Sound) :
    (records offset members sound).length = members.length := by
  induction members generalizing offset with
  | nil => rfl
  | cons member members ih => rw [records, List.length_cons, List.length_cons, ih]

theorem mem_records {sound : ∀ member ∈ members, member.Sound} {record : CentralRecord}
    (inside : record ∈ records offset members sound) :
    ∃ (member : Member) (place : Nat) (sound : member.Sound), record = sound.record place := by
  induction members generalizing offset with
  | nil => cases inside
  | cons member members ih =>
      rw [records] at inside
      rcases List.mem_cons.mp inside with first | later
      · exact ⟨member, offset, _, first⟩
      · exact ih later

theorem record_entry (path : Bytes) {member : Member} (sound : member.Sound)
    (near : offset < 2 ^ 32) : (sound.record offset).entry path =
      if member.Indexed then some (member.entry path offset) else none := by
  have place : (UInt32.ofNat offset).toNat = offset := UInt32.toNat_ofNat_of_lt' near
  have supported : ¬ (sound.record offset).header.Unsupported := by
    rintro ⟨stored, deflated⟩
    exact sound.method.elim stored deflated
  have same : entryFor path (sound.record offset).header member.name = member.entry path offset := by
    rw [entryFor, Member.entry]
    congr 2
  rw [CentralRecord.entry, if_congr (indexed_iff_of_supported supported) rfl rfl]
  exact if_congr Iff.rfl (congrArg some same) rfl

theorem records_entries (path : Bytes) (sound : ∀ member ∈ members, member.Sound)
    (near : offset + (locals members).length < 2 ^ 32) :
    (records offset members sound).filterMap (CentralRecord.entry path) =
      entries path offset members := by
  induction members generalizing offset with
  | nil => rfl
  | cons member members ih =>
      rw [locals_cons, List.length_append] at near
      rw [records, List.filterMap_cons, record_entry path _ (by omega), ih _ (by omega), entries]
      by_cases indexed : member.Indexed
      · rw [if_pos indexed, if_pos indexed]
      · rw [if_neg indexed, if_neg indexed]

theorem records_pushed (sound : ∀ member ∈ members, member.Sound) :
    (records offset members sound).filterMap CentralRecord.pushed = members.map Member.name := by
  induction members generalizing offset with
  | nil => rfl
  | cons member members ih =>
      have here := sound member List.mem_cons_self
      have pushed : (here.record offset).pushed = some member.name :=
        (if_neg here.nonempty).trans (congrArg some (cString_eq here.noNul))
      rw [records, List.filterMap_cons, pushed, ih, List.map_cons]

end Records

/-- The signature and the two zero disk numbers behind it: no shift of these bytes up to four reads
as the signature again. -/
theorem endBytes_misses {eocd : EOCD} (disk : eocd.diskNumber = 0) (start : eocd.startDiskNumber = 0)
    {i : Nat} (within : i ≤ 4) (positive : 0 < i) :
    LittleEndian.decode (wordAt (endBytes eocd) i) ≠ endSignature := by
  obtain ⟨rest, shape⟩ : ∃ rest, EOCD.format.toBytes eocd = 0 :: 0 :: 0 :: 0 :: rest := by
    refine ⟨Packed.encode [2, 2, 4, 4, 2] (EOCD.format.words eocd).tail.tail, ?_⟩
    rw [Packed.Format.toBytes]
    simp [EOCD.format, Packed.encode, disk, start, LittleEndian.encode]
  have signature : LittleEndian.encode 4 endSignature = [0x50, 0x4b, 0x05, 0x06] := by decide
  rw [wordAt, endBytes, signature, shape]
  interval_cases i <;> simp [LittleEndian.decode, endSignature]

namespace Intact
variable {members : List Member}

theorem parts (intact : Intact members) :
    (locals members).length + (directory 0 members).length + 22 < 2 ^ 32 := by
  have small := intact.small
  rw [archive, List.length_append, List.length_append, endBytes_length] at small
  omega

def foreign (intact : Intact members) : ForeignArchive where
  front := locals members
  records := records 0 members intact.sound
  eocd := endRecord members
  comment := []
  number := by
    rw [records_length]
    exact UInt16.toNat_ofNat_of_lt' intact.count
  size := by
    have parts := intact.parts
    rw [listing_records]
    exact UInt32.toNat_ofNat_of_lt' (show _ < 2 ^ 32 by omega)
  offset := by
    have parts := intact.parts
    exact UInt32.toNat_ofNat_of_lt' (show _ < 2 ^ 32 by omega)
  commented := rfl
  endOnce := by
    refine endOnce_of_rest fun i within positive => ?_
    rw [List.append_nil] at within ⊢
    rw [endBytes_length] at within
    exact endBytes_misses rfl rfl within positive

theorem foreign_content (intact : Intact members) : intact.foreign.content = archive members := by
  rw [ForeignArchive.content, archive]
  simp only [foreign, listing_records, List.append_nil, List.append_assoc]

theorem foreign_inhabited (intact : Intact members) : intact.foreign.records ≠ [] := by
  intro empty
  have length : (records 0 members intact.sound).length = members.length := records_length _
  rw [show records 0 members intact.sound = [] from empty] at length
  exact intact.inhabited (List.length_eq_zero_iff.mp length.symm)

theorem foreign_bare (intact : Intact members) : ∀ record ∈ intact.foreign.records, record.tail = [] := by
  intro record inside
  obtain ⟨member, place, sound, rfl⟩ := mem_records inside
  rfl

end Intact

theorem archive_endsWith {members : List Member} (small : (archive members).length < 2 ^ 62) :
    EndsWith (archive members) (locals members ++ directory 0 members) (endRecord members) [] where
  layout := by rw [archive, List.append_nil, List.append_assoc]
  small := small
  once := by
    rw [archive, ← List.append_assoc]
    refine endOnce_of_rest fun i within positive => ?_
    rw [endBytes_length] at within
    exact endBytes_misses rfl rfl within positive

theorem visited_archive {members : List Member} (inhabited : members ≠ [])
    (small : (archive members).length < 2 ^ 32) : addZippedDir.visited (archive members) =
      visits addZippedDir.readRecord (members.length % 2 ^ 16)
        ({}, between (locals members) (directory 0 members ++ endBytes (endRecord members))) := by
  have ends := archive_endsWith (small.trans (by norm_num))
  have length := ends.length
  rw [List.length_append, List.length_nil] at length
  have occupied : locals members ++ directory 0 members ≠ [] := by
    obtain ⟨member, others, rfl⟩ := List.exists_cons_of_ne_nil inhabited
    rw [locals_cons]
    exact List.append_ne_nil_of_left_ne_nil
      (List.append_ne_nil_of_left_ne_nil member.localRecord_ne_nil _) _
  have count : (endRecord members).numberCentralDirectoryRecord.toNat = members.length % 2 ^ 16 :=
    UInt16.toNat_ofNat'
  have place : (endRecord members).centralDirectoryOffset.toNat = (locals members).length :=
    UInt32.toNat_ofNat_of_lt' (show (locals members).length < 2 ^ 32 by omega)
  rw [ends.visited_eq occupied place, count, List.append_nil]

theorem addZippedDir_counted {members : List Member} (inhabited : members ≠ [])
    (sound : ∀ member ∈ members, member.Sound) (small : (archive members).length < 2 ^ 32)
    {disk : Disk} {path : Bytes} (stored : disk.files path = some (archive members))
    (fs : FileSystem) : addZippedDir disk fs path = { fs with
      m_files := fs.m_files ++ entries path 0 (members.take (members.length % 2 ^ 16)) } := by
  have near : (locals members).length < 2 ^ 32 := by
    rw [archive, List.length_append] at small
    omega
  obtain ⟨counted, others, whole, count⟩ : ∃ counted others, counted ++ others = members ∧
      counted.length = members.length % 2 ^ 16 :=
    ⟨_, _, List.take_append_drop (members.length % 2 ^ 16) members,
      List.length_take_of_le (Nat.mod_le _ _)⟩
  have taken : members.take (members.length % 2 ^ 16) = counted := by
    rw [← count, ← whole, List.take_left]
  have sound' : ∀ member ∈ counted, member.Sound := fun member inside =>
    sound member (whole ▸ List.mem_append_left others inside)
  have local_le : (locals counted).length ≤ (locals members).length := by
    rw [← whole, locals_append, List.length_append]
    omega
  have noNul : ∀ record ∈ records 0 counted sound', 0 ∉ record.name := by
    intro record inside
    obtain ⟨member, place, sound, rfl⟩ := mem_records inside
    exact sound.noNul
  have flags : (0 : UInt16) &&& 0x1 = 0 ∧ (0 : UInt16) &&& 0x8 = 0 := by decide
  have clear : ∀ record ∈ records 0 counted sound', record.Clear := by
    intro record inside
    obtain ⟨member, place, sound, rfl⟩ := mem_records inside
    exact flags
  have straight : ∀ record ∈ records 0 counted sound', ¬ record.Misleads := by
    rintro record inside ⟨-, rest⟩
    obtain ⟨member, place, sound, rfl⟩ := mem_records inside
    exact rest rfl
  have ahead : Ahead (archive members) (records 0 counted sound')
      (between (locals members) (directory 0 members ++ endBytes (endRecord members))) := by
    have split : directory 0 members = listing (records 0 counted sound') ++
        directory (0 + (locals counted).length) others := by
      rw [listing_records, ← whole, directory_append]
    refine ⟨locals members, directory (0 + (locals counted).length) others ++
      endBytes (endRecord members), ?_, ?_⟩
    · rw [← List.append_assoc (listing _), ← split, archive]
    · rw [← List.append_assoc (listing _), ← split]
  have seen : (visits addZippedDir.readRecord (records 0 counted sound').length
      ({}, between (locals members) (directory 0 members ++ endBytes (endRecord members)))).map
        Prod.snd = (reached (fun record => ¬ record.Misleads) (records 0 counted sound')).map
          fun record => (record.header, cString record.name) := by
    refine (addZippedDir_follows (small.trans (by norm_num))).seen_eq (fun _ => False)
      (fun _ _ _ honest => honest.elim) ahead clear fun record inside misleads => ?_
    exact misleads (straight record (List.dropLast_subset _ inside))
  rw [records_length, count, reached_eq_iff.mpr fun record inside =>
    straight record (List.dropLast_subset _ inside)] at seen
  rw [addZippedDir_eq_visited stored, visited_archive inhabited small, seen, ForeignArchive.indexed_seen noNul,
    records_entries path sound' (by omega), taken]

theorem addZippedDir_archive {members : List Member} (intact : Intact members) {disk : Disk}
    {path : Bytes} (stored : disk.files path = some (archive members)) (fs : FileSystem) :
    addZippedDir disk fs path = { fs with m_files := fs.m_files ++ entries path 0 members } := by
  rw [addZippedDir_counted intact.inhabited intact.sound intact.small stored,
    Nat.mod_eq_of_lt intact.count, List.take_length]

end PackagedTask.Archive
