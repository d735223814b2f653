import PackagedTask.Archive.Foreign

namespace PackagedTask.Archive
open Library Packed FileStream

/-! How the two walks follow the records of a foreign archive. -/

section Reading
variable {behind ahead : Bytes}

theorem cString_eq {name : Bytes} (noNul : 0 ∉ name) : cString name = name := by
  rw [cString, List.takeWhile_eq_self_iff]
  intro char member
  have present : char ≠ 0 := fun zero => noNul (zero ▸ member)
  simp [present]

theorem length_eq_zero_of_field {field : UInt16} {content : Bytes}
    (size : field.toNat = content.length) (absent : ¬ field ≠ 0) : content = [] := by
  obtain rfl := not_not.mp absent
  exact List.length_eq_zero_iff.mp size.symm

theorem readName_between {field : UInt16} {name : Bytes} (size : field.toNat = name.length) :
    (if field ≠ 0 then (between behind (name ++ ahead)).read (List.replicate field.toNat 0)
      else ([], between behind (name ++ ahead))) = (name, between (behind ++ name) ahead) := by
  split
  · exact between_read (by simp [size])
  · rename_i absent
    obtain rfl := length_eq_zero_of_field size absent
    simp

theorem skip_between {field : UInt16} {content : Bytes} (size : field.toNat = content.length)
    (small : behind.length + content.length < 2 ^ 63) :
    (if field ≠ 0 then (between behind (content ++ ahead)).skip field.toNat
      else between behind (content ++ ahead)) = between (behind ++ content) ahead := by
  split
  · exact between_skip size (by omega)
  · rename_i absent
    obtain rfl := length_eq_zero_of_field size absent
    simp

theorem readRecord_between (record : CentralRecord) (old : CentralDirectoryFileHeader)
    (small : behind.length < 2 ^ 62) :
    addZippedDir.readRecord (old, between behind (record.bytes ++ ahead)) =
      if record.Clear then
        some ((record.header, cString record.name), record.header,
          if record.header.Unsupported then between (behind ++ record.head) (record.tail ++ ahead)
          else between (behind ++ record.bytes) ahead)
      else none := by
  have header := record.header_length
  have name := record.name_length_lt
  have length := record.bytes_length_lt
  rw [record.bytes_length, record.head_length, CentralRecord.tail, List.length_append] at length
  rw [addZippedDir.readRecord, record.bytes_append, CentralDirectoryFileHeader.format.read_between]
  dsimp only
  rw [if_neg (not_not.mpr record.signature), readName_between record.named, List.append_assoc,
    ← CentralRecord.head]
  dsimp only
  by_cases encrypted : record.header.generalPurposeBitFlag &&& 0x1 = 0
  · by_cases described : record.header.generalPurposeBitFlag &&& 0x8 = 0
    · have clear : record.Clear := ⟨encrypted, described⟩
      rw [if_neg (not_not.mpr encrypted), if_neg (not_not.mpr described), if_pos clear]
      by_cases unsupported : record.header.Unsupported
      · rw [if_pos unsupported, if_pos unsupported]
      · rw [if_neg unsupported, if_neg unsupported, CentralRecord.tail, List.append_assoc,
          skip_between record.extras (by rw [List.length_append, record.head_length]; omega),
          skip_between record.commented
            (by rw [List.length_append, List.length_append, record.head_length]; omega),
          CentralRecord.bytes, CentralRecord.tail]
        simp only [List.append_assoc]
    · rw [if_neg (not_not.mpr encrypted), if_pos described, if_neg fun clear => described clear.2]
  · rw [if_pos encrypted, if_neg fun clear => encrypted clear.1]

def CentralRecord.pushed (record : CentralRecord) : Option Bytes :=
  if record.name = [] then none else some (cString record.name)

theorem readRecord_between_name (env : Environment) (record : CentralRecord) :
    addFileToZIP.readRecord env (between behind (record.bytes ++ ahead)) =
      some (record.pushed, between (behind ++ record.head) (record.tail ++ ahead)) := by
  rw [addFileToZIP.readRecord, record.bytes_append, CentralDirectoryFileHeader.format.read_between]
  dsimp only
  rw [if_neg (not_not.mpr record.signature), CentralRecord.pushed, CentralRecord.head]
  by_cases present : record.header.filenameLength ≠ 0
  · have named : record.name ≠ [] := by
      intro empty
      refine present (UInt16.toNat_inj.mp ?_)
      rw [record.named, empty]
      rfl
    have buffer : ((env.newChars (record.header.filenameLength.toNat + 1)).take
        record.header.filenameLength.toNat).length = record.name.length := by
      rw [List.length_take, env.newChars_length, record.named]
      omega
    rw [if_pos present, between_read buffer, if_neg named, List.append_assoc]
  · have empty := length_eq_zero_of_field record.named present
    rw [if_neg present, if_pos empty, empty]
    simp

theorem read_signature {old : CentralDirectoryFileHeader} (long : 46 ≤ ahead.length)
    (signed : (CentralDirectoryFileHeader.format.read (between behind ahead) old).1.signature =
      centralSignature) : LittleEndian.encode 4 centralSignature.toNat <+: ahead := by
  have width (cdfh : CentralDirectoryFileHeader) :
      (CentralDirectoryFileHeader.format.toBytes cdfh).length = 46 :=
    CentralDirectoryFileHeader.format.toBytes_length _
  have got : (between behind (ahead.take 46 ++ ahead.drop 46)).read
      (CentralDirectoryFileHeader.format.toBytes old) =
        (ahead.take 46, between (behind ++ ahead.take 46) (ahead.drop 46)) :=
    between_read (by simp [width, long])
  rw [List.take_append_drop] at got
  rw [Packed.Format.read, got] at signed
  have first : UInt32.ofNat (LittleEndian.decode ((ahead.take 46).take 4)) = centralSignature := signed
  rw [List.take_take] at first
  have four : (ahead.take 4).length = 4 := List.length_take_of_le (by omega)
  have range := LittleEndian.decode_lt (ahead.take 4)
  rw [four] at range
  have value : LittleEndian.decode (ahead.take 4) = centralSignature.toNat := by
    rw [← first]
    exact (UInt32.toNat_ofNat_of_lt' range).symm
  have again := LittleEndian.encode_decode (ahead.take 4)
  rw [four, value] at again
  exact again ▸ List.take_prefix 4 ahead

theorem signature_behind_name {record second : CentralRecord}
    (signed : LittleEndian.encode 4 centralSignature.toNat <+:
      record.tail ++ (second.bytes ++ ahead)) (some : record.tail ≠ []) : record.Disguised := by
  obtain ⟨rest, begins⟩ := second.bytes_begin
  have mark : LittleEndian.encode 4 centralSignature.toNat = [0x50, 0x4b, 0x01, 0x02] := by decide
  unfold CentralRecord.Disguised
  rw [begins, mark] at signed
  rw [mark]
  -- no proper part of the signature ends where another one begins
  match shape : record.tail with
  | [] => exact (some shape).elim
  | [_] => simp [shape] at signed
  | [_, _] => simp [shape] at signed
  | [_, _, _] => simp [shape] at signed
  | _ :: _ :: _ :: _ :: _ => simpa [shape] using signed

end Reading

/-- The walk goes on behind the name instead of behind the comment. -/
def CentralRecord.Misleads (record : CentralRecord) : Prop :=
  record.header.Unsupported ∧ record.tail ≠ []

instance : DecidablePred CentralRecord.Misleads := fun _ => inferInstanceAs (Decidable (_ ∧ _))

def InOrder (content : Bytes) (stream : FileStream) : Prop :=
  ∃ behind ahead, behind ++ ahead = content ∧ stream = between behind ahead

def Ahead (content : Bytes) (records : List CentralRecord) (stream : FileStream) : Prop :=
  ∃ behind ahead, behind ++ (listing records ++ ahead) = content ∧
    stream = between behind (listing records ++ ahead)

section Steps
variable {content : Bytes} {record second : CentralRecord} {records : List CentralRecord}

theorem behind_lt {behind rest : Bytes} {limit : Nat} (same : behind ++ rest = content)
    (small : content.length < limit) : behind.length < limit := by
  rw [← same, List.length_append] at small
  omega

theorem addZippedDir_follows (small : content.length < 2 ^ 62) :
    Follows addZippedDir.readRecord (fun state => state.2.tell) (fun state => InOrder content state.2)
      (fun state records => Ahead content records state.2) (fun record => record.bytes.length)
      (fun record => (record.header, cString record.name)) CentralRecord.Clear
      (fun record => ¬ record.Misleads) where
  opens := by
    rintro state records ⟨behind, ahead, same, here⟩
    exact ⟨behind, _, same, here⟩
  stops := by
    rintro ⟨old, ifs⟩ record records ⟨behind, ahead, same, rfl⟩ unclear
    have near := behind_lt same small
    rw [listing_cons, List.append_assoc, readRecord_between record old near, if_neg unclear]
  reads := by
    rintro ⟨old, ifs⟩ record records ⟨behind, ahead, same, rfl⟩ clear
    have near := behind_lt same small
    rw [listing_cons, List.append_assoc] at same
    rw [listing_cons, List.append_assoc, readRecord_between record old near, if_pos clear]
    have onward : behind ++ record.bytes ++ (listing records ++ ahead) = content := by
      rw [List.append_assoc, same]
    have inside : behind ++ record.head ++ (record.tail ++ (listing records ++ ahead)) = content := by
      rw [← same, CentralRecord.bytes]
      simp only [List.append_assoc]
    refine ⟨_, rfl, ?_, fun straight => ?_, fun misleads => ?_⟩
    · split
      · exact ⟨_, _, inside, rfl⟩
      · exact ⟨_, _, onward, rfl⟩
    · split
      · rename_i unsupported
        have whole : record.tail = [] := by
          by_contra rest
          exact straight ⟨unsupported, rest⟩
        have same' : record.bytes = record.head := by
          rw [CentralRecord.bytes, whole, List.append_nil]
        rw [whole, List.nil_append, ← same']
        exact ⟨⟨_, _, onward, rfl⟩, by simp⟩
      · exact ⟨⟨_, _, onward, rfl⟩, by simp⟩
    · obtain ⟨unsupported, rest⟩ := not_not.mp misleads
      rw [if_pos unsupported]
      have positive := List.length_pos_iff.mpr rest
      have length := record.bytes_length
      simp only [between_tell, List.length_append]
      omega

theorem read_astray (behind : Bytes) {ahead : Bytes} (old : CentralDirectoryFileHeader)
    (rest : record.tail ≠ []) (honest : ¬ record.Disguised) :
    (CentralDirectoryFileHeader.format.read (between behind
      (record.tail ++ (second.bytes ++ ahead))) old).1.signature ≠ centralSignature := by
  intro signed
  have header := second.head_length
  refine honest (signature_behind_name (read_signature ?_ signed) rest)
  rw [List.length_append, List.length_append, second.bytes_length]
  omega

theorem readRecord_astray {old : CentralDirectoryFileHeader} {ifs : FileStream} {next}
    (small : content.length < 2 ^ 62) (ready : Ahead content (record :: second :: records) ifs)
    (read : addZippedDir.readRecord (old, ifs) =
      some ((record.header, cString record.name), next))
    (misleads : record.Misleads) (honest : ¬ record.Disguised) :
    addZippedDir.readRecord next = none := by
  obtain ⟨behind, ahead, same, rfl⟩ := ready
  have near := behind_lt same small
  rw [listing_cons, List.append_assoc, readRecord_between record old near] at read
  split at read
  · obtain rfl := (Prod.mk.inj (Option.some.inj read)).2
    rw [if_pos misleads.1, addZippedDir.readRecord]
    dsimp only
    rw [listing_cons, List.append_assoc, if_pos (read_astray _ _ misleads.2 honest)]
  · cases read

theorem addFileToZIP_follows (env : Environment) (content : Bytes) :
    Follows (addFileToZIP.readRecord env) FileStream.tell (InOrder content)
      (fun ofs records => Ahead content records ofs) (fun record => record.bytes.length)
      CentralRecord.pushed (fun _ => True) (fun record => record.tail = []) where
  opens := by
    rintro ofs records ⟨behind, ahead, same, here⟩
    exact ⟨behind, _, same, here⟩
  stops := fun _ unreadable => (unreadable trivial).elim
  reads := by
    rintro ofs record records ⟨behind, ahead, same, rfl⟩ -
    rw [listing_cons, List.append_assoc] at same
    rw [listing_cons, List.append_assoc, readRecord_between_name]
    have inside : behind ++ record.head ++ (record.tail ++ (listing records ++ ahead)) = content := by
      rw [← same, CentralRecord.bytes]
      simp only [List.append_assoc]
    have length := record.bytes_length
    refine ⟨_, rfl, ⟨_, _, inside, rfl⟩, fun bare => ?_, fun rest => ?_⟩
    · rw [bare, List.nil_append] at inside ⊢
      rw [bare, List.length_nil] at length
      exact ⟨⟨_, _, inside, rfl⟩, by simp [length]⟩
    · have positive := List.length_pos_iff.mpr rest
      simp only [between_tell, List.length_append]
      omega

theorem readRecord_name_astray {env : Environment} {ofs next : FileStream} {seen : Option Bytes}
    (ready : Ahead content (record :: second :: records) ofs)
    (read : addFileToZIP.readRecord env ofs = some (seen, next)) (rest : record.tail ≠ [])
    (honest : ¬ record.Disguised) : addFileToZIP.readRecord env next = none := by
  obtain ⟨behind, ahead, same, rfl⟩ := ready
  rw [listing_cons, List.append_assoc, readRecord_between_name] at read
  obtain rfl := (Prod.mk.inj (Option.some.inj read)).2
  rw [addFileToZIP.readRecord]
  dsimp only
  rw [listing_cons, List.append_assoc, if_pos (read_astray _ _ rest honest)]

end Steps

def CentralRecord.entry (fname : Bytes) (record : CentralRecord) : Option FileData :=
  if record.header.Indexed then some (entryFor fname record.header record.name) else none

namespace Catalogue

def grownFront (env : Environment) (file : File) (catalogue : Catalogue) : Bytes :=
  catalogue.front ++ (memberOf env file).localRecord

def grownDirectory (env : Environment) (file : File) (catalogue : Catalogue) : Bytes :=
  catalogue.directory ++ (memberOf env file).centralRecord catalogue.front.length

def grownEocd (env : Environment) (file : File) (catalogue : Catalogue) : EOCD :=
  grownEnd catalogue.eocd (catalogue.front.length + (memberOf env file).localRecord.length)
    (catalogue.grownDirectory env file).length

/-- What is left of the old file behind the new end record. -/
def grownComment (env : Environment) (file : File) (catalogue : Catalogue) : Bytes :=
  (catalogue.gap ++ (endBytes catalogue.eocd ++ catalogue.comment)).drop
    ((memberOf env file).localRecord.length +
      (((memberOf env file).centralRecord catalogue.front.length).length + 22))

/-- The catalogue with a file written over its directory, the grown directory behind it. -/
def grown (env : Environment) (file : File) (catalogue : Catalogue) : Bytes :=
  catalogue.grownFront env file ++ catalogue.grownDirectory env file ++
    endBytes (catalogue.grownEocd env file) ++ catalogue.grownComment env file

section Adding
variable {catalogue : Catalogue} {env : Environment} {fs : FileSystem} {disk : Disk}
  {zipname : Bytes}

theorem ahead_start (catalogue : Catalogue) :
    Ahead catalogue.content catalogue.records catalogue.start :=
  ⟨catalogue.front, catalogue.trailer ++ catalogue.gap ++
      (endBytes catalogue.eocd ++ catalogue.comment),
    by simp only [content, directory, List.append_assoc],
    by simp only [start, directory, List.append_assoc]⟩

theorem readDirectory (catalogue : Catalogue) :
    catalogue.start.read (List.replicate catalogue.eocd.sizeOfCentralDirectory.toNat 0) =
      (catalogue.directory, between (catalogue.front ++ catalogue.directory)
        (catalogue.gap ++ (endBytes catalogue.eocd ++ catalogue.comment))) := by
  rw [start, List.append_assoc]
  exact between_read (by rw [List.length_replicate, catalogue.size, directory])

theorem opens (occupied : catalogue.front ++ (catalogue.directory ++ catalogue.gap) ≠ []) :
    Opens catalogue.content catalogue.eocd catalogue.directory catalogue.start := by
  have inside : catalogue.front ++ catalogue.directory ++ (catalogue.gap ++
      (endBytes catalogue.eocd ++ catalogue.comment)) = catalogue.content := by
    simp only [content, List.append_assoc]
  refine .intro (catalogue.ends.scan occupied) (by omega) catalogue.ends.readEnd ?_
    (catalogue.seekDirectory inside)
  rw [catalogue.seekDirectory (by rw [content, List.append_assoc _ (endBytes _)])]
  exact catalogue.readDirectory

theorem names_visited_eq
    (occupied : catalogue.front ++ (catalogue.directory ++ catalogue.gap) ≠ []) :
    addFileToZIP.visited env catalogue.content =
      visits (addFileToZIP.readRecord env) catalogue.records.length catalogue.start := by
  rw [(opens occupied).visited, catalogue.number]

theorem writeFile_start (file : File) :
    (addFileToZIP.writeFile env file catalogue.eocd catalogue.directory catalogue.start).bytes =
      catalogue.grown env file := by
  have covers (eocd : EOCD) (central : Bytes) :
      ((memberOf env file).localRecord ++ (catalogue.directory ++ central ++ endBytes eocd)).length =
        catalogue.directory.length +
          ((memberOf env file).localRecord.length + (central.length + 22)) := by
    simp only [List.length_append, endBytes_length]
    omega
  rw [start, writeFile_between, between_write, between_bytes, covers,
    List.append_assoc _ catalogue.gap, List.drop_length_add_append]
  simp only [grown, grownFront, grownDirectory, grownEocd, grownComment, List.append_assoc]

theorem update_eq (occupied : catalogue.front ++ (catalogue.directory ++ catalogue.gap) ≠ [])
    (file : File) :
    addFileToZIP.update env file ⟨catalogue.content, catalogue.content.length, false⟩ =
      match walk (addFileToZIP.readRecord env) catalogue.records.length catalogue.start with
      | none => none
      | some last =>
          if file.name ∈ (addFileToZIP.visited env catalogue.content).filterMap Prod.snd then none
          else some (addFileToZIP.writeFile env file catalogue.eocd catalogue.directory
            (last.seek catalogue.eocd.centralDirectoryOffset.toNat)) := by
  rw [← catalogue.number]
  exact (opens occupied).update file

theorem addFileToZIP_lost (occupied : catalogue.front ++ (catalogue.directory ++ catalogue.gap) ≠ [])
    (stored : disk.files (fs.path zipname) = some catalogue.content)
    (lost : walk (addFileToZIP.readRecord env) catalogue.records.length catalogue.start = none)
    (file : File) : addFileToZIP env fs disk file zipname = (false, disk) := by
  unfold addFileToZIP
  rw [stored]
  dsimp only
  rw [update_eq occupied, lost]
  exact ite_self _

theorem names_seen_of_bare (env : Environment)
    (occupied : catalogue.front ++ (catalogue.directory ++ catalogue.gap) ≠ [])
    (bare : ∀ record ∈ catalogue.records.dropLast, record.tail = []) :
    (addFileToZIP.visited env catalogue.content).map Prod.snd =
      catalogue.records.map CentralRecord.pushed := by
  have seen := (addFileToZIP_follows env catalogue.content).seen_eq (fun _ => False)
    (fun _ _ _ honest => honest.elim) catalogue.ahead_start (fun _ _ => trivial)
    fun record inside rest => rest (bare record inside)
  rw [names_visited_eq occupied, seen, reached_eq_iff.mpr bare]

theorem addFileToZIP_of_bare (env : Environment)
    (occupied : catalogue.front ++ (catalogue.directory ++ catalogue.gap) ≠ [])
    (stored : disk.files (fs.path zipname) = some catalogue.content)
    (opens : disk.writable (fs.path zipname) = true)
    (bare : ∀ record ∈ catalogue.records.dropLast, record.tail = []) (file : File) :
    addFileToZIP env fs disk file zipname =
      if file.name ∈ catalogue.records.filterMap CentralRecord.pushed then (false, disk)
      else (true, disk.put (fs.path zipname) (catalogue.grown env file)) := by
  have follows := addFileToZIP_follows env catalogue.content
  obtain ⟨last, walked, behind, ahead, same, rfl⟩ :=
    follows.walk_of_straight catalogue.ahead_start (fun _ _ => trivial) bare
  have names := congrArg (List.filterMap id) (names_seen_of_bare env occupied bare)
  rw [List.filterMap_map, List.filterMap_map, Function.id_comp, Function.id_comp] at names
  unfold addFileToZIP
  rw [stored]
  dsimp only
  rw [if_pos opens, update_eq occupied, walked, names]
  dsimp only
  rw [catalogue.seekDirectory same]
  by_cases known : file.name ∈ catalogue.records.filterMap CentralRecord.pushed
  · rw [if_pos known, if_pos known]
  · rw [if_neg known, if_neg known]
    dsimp only
    rw [writeFile_start]

theorem bare_of_walk {last : FileStream}
    (honest : ∀ record ∈ catalogue.records.dropLast, record.tail ≠ [] → ¬ record.Disguised)
    (walked : walk (addFileToZIP.readRecord env) catalogue.records.length catalogue.start =
      some last) : ∀ record ∈ catalogue.records.dropLast, record.tail = [] := by
  have seen := (addFileToZIP_follows env catalogue.content).seen_eq (fun record => ¬ record.Disguised)
    (fun ready read rest honest => readRecord_name_astray ready read rest honest)
    catalogue.ahead_start (fun _ _ => trivial) honest
  have all := congrArg List.length seen
  rw [List.length_map, List.length_map, visits_length_of_walk walked] at all
  have split := reached_append_unreached (fun record : CentralRecord => record.tail = [])
    catalogue.records
  have lengths := congrArg List.length split
  rw [List.length_append] at lengths
  have nothing := List.length_eq_zero_iff.mp (Nat.add_eq_left.mp (lengths.trans all))
  rw [nothing, List.append_nil] at split
  exact reached_eq_iff.mp split

end Adding
end Catalogue

namespace ForeignArchive

/-- One entry for each record that is stored or deflate and not both stored and of size 0. -/
def index (fname : Bytes) (archive : ForeignArchive) : List FileData :=
  archive.records.filterMap (CentralRecord.entry fname)

section Indexing
variable {archive : ForeignArchive} {fname : Bytes}

theorem ahead_start (archive : ForeignArchive) :
    Ahead archive.content archive.records archive.start := by
  rw [← archive.catalogue_content, ← archive.catalogue_start]
  exact archive.catalogue.ahead_start

theorem seen_eq (clear : ∀ record ∈ archive.records, record.Clear)
    (honest : ∀ record ∈ archive.records.dropLast, record.Misleads → ¬ record.Disguised) :
    (addZippedDir.visited archive.content).map Prod.snd =
      (reached (fun record => ¬ record.Misleads) archive.records).map
        fun record => (record.header, cString record.name) := by
  rw [archive.visited_eq]
  refine (addZippedDir_follows archive.content_length_lt).seen_eq (fun record => ¬ record.Disguised)
    ?_ archive.ahead_start clear ?_
  · rintro ⟨old, ifs⟩ record second records next ready read misleads
    exact readRecord_astray archive.content_length_lt ready read (not_not.mp misleads)
  · intro record inside misleads
    exact honest record inside (not_not.mp misleads)

theorem seen_of_straight (clear : ∀ record ∈ archive.records, record.Clear)
    (straight : ∀ record ∈ archive.records.dropLast, ¬ record.Misleads) :
    (addZippedDir.visited archive.content).map Prod.snd =
      archive.records.map fun record => (record.header, cString record.name) := by
  have seen := seen_eq clear fun record inside misleads => (straight record inside misleads).elim
  rw [seen, reached_eq_iff.mpr straight]

theorem indexed_seen {records : List CentralRecord} (noNul : ∀ record ∈ records, 0 ∉ record.name) :
    indexed fname (records.map fun record => (record.header, cString record.name)) =
      records.filterMap (CentralRecord.entry fname) := by
  rw [indexed, List.filterMap_map]
  refine List.filterMap_congr fun record inside => ?_
  rw [Function.comp_apply, cString_eq (noNul record inside), CentralRecord.entry]

theorem addZippedDir_foreign {disk : Disk} (stored : disk.files fname = some archive.content)
    (noNul : ∀ record ∈ archive.records, 0 ∉ record.name)
    (clear : ∀ record ∈ archive.records, record.Clear)
    (straight : ∀ record ∈ archive.records.dropLast, ¬ record.Misleads) (fs : FileSystem) :
    addZippedDir disk fs fname = { fs with m_files := fs.m_files ++ archive.index fname } := by
  rw [addZippedDir_eq_visited stored, seen_of_straight clear straight, indexed_seen noNul, index]

end Indexing

/-- The archive with a file written over its directory, the grown directory behind it; what is left
of the comment stays at the end. -/
def grown (env : Environment) (file : File) (archive : ForeignArchive) : Bytes :=
  let member := memberOf env file
  let central := member.centralRecord archive.front.length
  let directory := listing archive.records ++ central
  let eocd := grownEnd archive.eocd (archive.front.length + member.localRecord.length)
    directory.length
  archive.front ++ member.localRecord ++ directory ++ endBytes eocd ++
    archive.comment.drop (member.localRecord.length + central.length)

section Adding
variable {archive : ForeignArchive} {env : Environment} {file : File} {fs : FileSystem}
  {disk : Disk} {zipname : Bytes}

theorem catalogue_grown (archive : ForeignArchive) :
    archive.catalogue.grown env file = archive.grown env file := by
  have rest : archive.catalogue.grownComment env file = archive.comment.drop
      ((memberOf env file).localRecord.length +
        ((memberOf env file).centralRecord archive.front.length).length) := by
    have covers : (memberOf env file).localRecord.length +
        (((memberOf env file).centralRecord archive.front.length).length + 22) =
          (endBytes archive.eocd).length + ((memberOf env file).localRecord.length +
            ((memberOf env file).centralRecord archive.front.length).length) := by
      rw [endBytes_length]
      omega
    rw [Catalogue.grownComment]
    simp only [catalogue, List.nil_append]
    rw [covers, List.drop_length_add_append]
  rw [Catalogue.grown, rest, Catalogue.grownEocd, Catalogue.grownFront, Catalogue.grownDirectory,
    catalogue_directory, grown]
  rfl

theorem names_visited_eq (inhabited : archive.records ≠ []) :
    addFileToZIP.visited env archive.content =
      visits (addFileToZIP.readRecord env) archive.records.length archive.start := by
  rw [← archive.catalogue_content, ← archive.catalogue_start]
  exact archive.catalogue.names_visited_eq (Catalogue.occupied inhabited)

theorem addFileToZIP_lost (inhabited : archive.records ≠ [])
    (stored : disk.files (fs.path zipname) = some archive.content)
    (lost : walk (addFileToZIP.readRecord env) archive.records.length archive.start = none)
    (file : File) : addFileToZIP env fs disk file zipname = (false, disk) := by
  rw [← archive.catalogue_content] at stored
  rw [← archive.catalogue_start] at lost
  exact archive.catalogue.addFileToZIP_lost (Catalogue.occupied inhabited) stored lost file

theorem names_seen_of_bare (env : Environment) (inhabited : archive.records ≠ [])
    (bare : ∀ record ∈ archive.records.dropLast, record.tail = []) :
    (addFileToZIP.visited env archive.content).map Prod.snd =
      archive.records.map CentralRecord.pushed := by
  rw [← archive.catalogue_content]
  exact archive.catalogue.names_seen_of_bare env (Catalogue.occupied inhabited) bare

theorem addFileToZIP_foreign (env : Environment) (inhabited : archive.records ≠ [])
    (stored : disk.files (fs.path zipname) = some archive.content)
    (opens : disk.writable (fs.path zipname) = true)
    (bare : ∀ record ∈ archive.records.dropLast, record.tail = []) (file : File) :
    addFileToZIP env fs disk file zipname =
      if file.name ∈ archive.records.filterMap CentralRecord.pushed then (false, disk)
      else (true, disk.put (fs.path zipname) (archive.grown env file)) := by
  rw [← archive.catalogue_content] at stored
  rw [← archive.catalogue_grown]
  exact archive.catalogue.addFileToZIP_of_bare env (Catalogue.occupied inhabited) stored opens bare file

end Adding
end ForeignArchive
end PackagedTask.Archive
