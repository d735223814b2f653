import PackagedTask.Archive.Loading

namespace PackagedTask.Archive
open Library Packed FileStream Streams

/-! Which files come back from an archive that `createZIP` wrote. -/

/-- The deflate stream is complete where it leaves output space, and `inflate` undoes it. -/
structure Environment.ZlibFaithful (env : Environment) : Prop where
  inflate_deflate : ∀ input avail_out, (env.deflate input avail_out).length < avail_out →
    env.inflate (env.deflate input avail_out) input.length = input

structure File.Archivable (file : File) : Prop where
  named : file.name ≠ []
  short : file.name.length < 2 ^ 16
  noNul : 0 ∉ file.name
  filled : file.data ≠ []

structure File.Nameable (file : File) : Prop where
  named : file.name ≠ []
  short : file.name.length < 2 ^ 16
  noNul : 0 ∉ file.name

theorem File.Archivable.nameable {file : File} (archivable : file.Archivable) : file.Nameable :=
  ⟨archivable.named, archivable.short, archivable.noNul⟩

def File.size32 (file : File) : Nat := (UInt32.ofNat file.data.length).toNat

theorem File.size32_eq (file : File) : file.size32 = file.data.length % 2 ^ 32 :=
  UInt32.toNat_ofNat'

theorem File.size32_le (file : File) : file.size32 ≤ file.data.length := by
  rw [file.size32_eq]
  exact Nat.mod_le _ _

def File.kept (file : File) : Bytes := file.data.take file.size32

theorem File.kept_length (file : File) : file.kept.length = file.size32 :=
  List.length_take_of_le file.size32_le

theorem File.kept_eq {file : File} (short : file.data.length < 2 ^ 32) : file.kept = file.data := by
  rw [File.kept, file.size32_eq, Nat.mod_eq_of_lt short, List.take_length]

theorem pack_cases (env : Environment) (file : File) :
    ((pack env file).1.compressionMethod = 0 ∧ (pack env file).2 = file.kept ∧
      (pack env file).1.compressedSize.toNat = file.size32) ∨
    ((pack env file).1.compressionMethod = Z_DEFLATED ∧
      (pack env file).2 = env.deflate file.kept file.size32 ∧
      (env.deflate file.kept file.size32).length < file.size32 ∧
      (pack env file).1.compressedSize.toNat = (env.deflate file.kept file.size32).length) := by
  have range : file.size32 < 2 ^ 32 := UInt32.toNat_lt _
  by_cases raw : (env.deflate file.kept file.size32).length ≥ file.size32
  · have packed : pack env file = _ := if_pos raw
    rw [packed]
    exact .inl ⟨rfl, rfl, rfl⟩
  · have packed : pack env file = _ := if_neg raw
    rw [packed]
    have shorter : (env.deflate file.kept file.size32).length < file.size32 := by omega
    exact .inr ⟨rfl, rfl, shorter, UInt32.toNat_ofNat_of_lt' (shorter.trans range)⟩

theorem memberOf_sized (env : Environment) (file : File) :
    (memberOf env file).lfh.compressedSize.toNat = (memberOf env file).payload.length := by
  have buffered := file.kept_length
  rcases pack_cases env file with ⟨-, payload, size⟩ | ⟨-, payload, -, size⟩
  · rw [memberOf, size, payload, buffered]
  · rw [memberOf, size, payload]

theorem File.Nameable.sound (env : Environment) {file : File} (nameable : file.Nameable) :
    (memberOf env file).Sound := by
  obtain ⟨signature, named, noExtra, -, -, -⟩ := pack_header env file
  refine ⟨signature, ?_, nameable.named, nameable.noNul, memberOf_sized env file, noExtra, ?_⟩
  · rw [memberOf, named]
    exact UInt16.toNat_ofNat_of_lt' nameable.short
  · rcases pack_cases env file with ⟨method, -⟩ | ⟨method, -⟩
    · exact .inl method
    · exact .inr method

theorem memberOf_sound (env : Environment) {file : File} (archivable : file.Archivable) :
    (memberOf env file).Sound := archivable.nameable.sound env

theorem memberOf_payload {env : Environment} (zlib : env.ZlibFaithful) (file : File) :
    let member := memberOf env file
    if member.lfh.compressionMethod = Z_DEFLATED then
      file.kept = env.inflate member.payload member.lfh.uncompressedSize.toNat ∧
        file.kept.length = member.lfh.uncompressedSize.toNat
    else file.kept = member.payload := by
  have size : (pack env file).1.uncompressedSize.toNat = file.size32 := by
    rw [(pack_header env file).2.2.2.2.2]
    rfl
  have buffered := file.kept_length
  rcases pack_cases env file with ⟨method, payload, -⟩ | ⟨method, payload, complete, -⟩
  · have raw : (memberOf env file).lfh.compressionMethod ≠ Z_DEFLATED := by
      rw [memberOf, method]
      decide
    rw [if_neg raw]
    exact payload.symm
  · have undone := zlib.inflate_deflate _ _ complete
    rw [buffered] at undone
    have deflated : (memberOf env file).lfh.compressionMethod = Z_DEFLATED := method
    rw [if_pos deflated]
    simp only [memberOf, payload, size, undone, buffered, and_self]

theorem memberOf_holds {env : Environment} (zlib : env.ZlibFaithful) {file : File}
    (sound : (memberOf env file).Sound) :
    sound.localRecord.Holds env ((memberOf env file).lfh.compressionMethod = Z_DEFLATED) file.kept := by
  simpa only [LocalRecord.Holds, Member.Sound.localRecord, decide_eq_true_eq] using
    memberOf_payload zlib file

theorem unpack_memberOf {env : Environment} (zlib : env.ZlibFaithful) (file : File) :
    (memberOf env file).unpack env = file.kept := by
  have payload := memberOf_payload zlib file
  unfold Member.unpack
  dsimp only at payload ⊢
  split at payload
  · rw [if_pos ‹_›, ← payload.1, ← payload.2, Nat.sub_self, List.replicate_zero, List.append_nil]
  · rw [if_neg ‹_›, payload]

theorem memberOf_indexed_iff (env : Environment) (file : File) :
    (memberOf env file).Indexed ↔ file.size32 ≠ 0 := by
  have size : (memberOf env file).lfh.uncompressedSize.toNat = file.size32 := by
    rw [memberOf, (pack_header env file).2.2.2.2.2]
    rfl
  rw [Member.Indexed, size]
  constructor
  · rintro (filled | deflated)
    · exact filled
    · rcases pack_cases env file with ⟨stored, -, -⟩ | ⟨-, -, shorter, -⟩
      · exact absurd (deflated.symm.trans stored) (by decide)
      · omega
  · exact .inl

theorem memberOf_indexed (env : Environment) {file : File} (filled : file.data ≠ [])
    (small : file.data.length < 2 ^ 32) : (memberOf env file).Indexed := by
  have positive := List.length_pos_iff.mpr filled
  rw [memberOf_indexed_iff, file.size32_eq, Nat.mod_eq_of_lt small]
  omega

def Disk.Small (disk : Disk) (path : Bytes) : Prop :=
  ∀ content, disk.files path = some content → content.length < 2 ^ 32

def ArchivedAs (env : Environment) (disk : Disk) (file : File) (entry : FileData) : Prop :=
  entry.is_zip = true ∧ entry.zip_data.fname = file.name ∧
    ∃ loaded, loadZipFile env disk entry = .ok loaded ∧ loaded.data = file.data

def RoundTrips (env : Environment) (disk : Disk) (fs : FileSystem) (path : Bytes)
    (filelist : List File) : Prop :=
  ∃ index, (addZippedDir disk fs path).m_files = fs.m_files ++ index ∧
    List.Forall₂ (ArchivedAs env disk) filelist index

section Loading
variable {env : Environment} {disk : Disk} {path content front rest : Bytes}
  {members : List Member}

theorem loadZipFile_length_lt {zf : FileData} {loaded : File}
    (result : loadZipFile env disk zf = .ok loaded) : loaded.data.length < 2 ^ 32 := by
  unfold loadZipFile at result
  cases opened : disk.files zf.fname with
  | none => simp [opened] at result
  | some content =>
      rw [opened] at result
      dsimp only at result
      split at result
      · cases result
      · split at result
        · have inflated := env.inflate_length_le
          cases result
          simp only [List.length_append, List.length_replicate]
          rw [Nat.add_sub_of_le (inflated _ _)]
          exact UInt32.toNat_lt _
        · cases result
          simp only [read_length, List.length_replicate]
          exact UInt32.toNat_lt _

theorem entries_load (env : Environment) (sound : ∀ member ∈ members, member.Sound)
    (stored : disk.files path = some content) (near : content.length < 2 ^ 32)
    (layout : content = front ++ (locals members ++ rest)) :
    List.Forall₂ (fun member entry => entry.is_zip = true ∧ entry.zip_data.fname = member.name ∧
        loadZipFile env disk entry = .ok (member.loaded env path))
      (members.filter fun member => member.Indexed) (entries path front.length members) := by
  induction members generalizing front with
  | nil => exact .nil
  | cons member members ih =>
      rw [locals_cons, List.append_assoc] at layout
      have others := ih (fun m inside => sound m (List.mem_cons_of_mem _ inside))
        (show content = front ++ member.localRecord ++ (locals members ++ rest) by
          rw [layout, List.append_assoc])
      rw [List.length_append] at others
      rw [entries, List.filter_cons]
      by_cases indexed : member.Indexed
      · rw [if_pos (decide_eq_true indexed), if_pos indexed]
        exact .cons ⟨rfl, rfl, loadZipFile_member (sound member List.mem_cons_self) stored near
          ⟨front, _, layout, rfl⟩⟩ others
      · rw [if_neg (by simpa using indexed), if_neg indexed]
        exact others

end Loading

theorem intact_of_nameable (env : Environment) {filelist : List File} (inhabited : filelist ≠ [])
    (count : filelist.length < 2 ^ 16) (nameable : ∀ file ∈ filelist, file.Nameable)
    (small : (archive (filelist.map (memberOf env))).length < 2 ^ 32) :
    Intact (filelist.map (memberOf env)) where
  inhabited := by simpa using inhabited
  count := by simpa using count
  sound := by
    intro member inside
    obtain ⟨file, listed, rfl⟩ := List.mem_map.mp inside
    exact (nameable file listed).sound env
  small := small

theorem intact_of_files (env : Environment) {filelist : List File} (inhabited : filelist ≠ [])
    (count : filelist.length < 2 ^ 16) (archivable : ∀ file ∈ filelist, file.Archivable)
    (small : (archive (filelist.map (memberOf env))).length < 2 ^ 32) :
    Intact (filelist.map (memberOf env)) :=
  intact_of_nameable env inhabited count (fun file listed => (archivable file listed).nameable) small

section Created
variable {env : Environment} {fs : FileSystem} {disk disk' : Disk} {filelist : List File}
  {zipname : Bytes}

theorem createZIP_true (created : createZIP env fs disk filelist zipname = (true, disk')) :
    disk'.writable (fs.path zipname) = true ∧
      disk'.files (fs.path zipname) = some (archive (filelist.map (memberOf env))) := by
  by_cases opens : disk.writable (fs.path zipname) = true
  · rw [createZIP_eq env opens] at created
    cases created
    exact ⟨opens, disk.put_files _ _⟩
  · rw [createZIP, if_neg opens] at created
    cases created

theorem roundTrips_of_small (zlib : env.ZlibFaithful) (inhabited : filelist ≠ [])
    (count : filelist.length < 2 ^ 16) (archivable : ∀ file ∈ filelist, file.Archivable)
    {path : Bytes} (stored : disk.files path = some (archive (filelist.map (memberOf env))))
    (small : (archive (filelist.map (memberOf env))).length < 2 ^ 32) (fs : FileSystem)
    (short : ∀ file ∈ filelist, file.data.length < 2 ^ 32) :
    RoundTrips env disk fs path filelist := by
  have intact := intact_of_files env inhabited count archivable small
  have layout : archive (filelist.map (memberOf env)) = [] ++ (locals (filelist.map (memberOf env)) ++
      (directory 0 (filelist.map (memberOf env)) ++
        endBytes (endRecord (filelist.map (memberOf env))))) := by
    rw [List.nil_append, archive]
  have loads := entries_load env intact.sound stored small layout
  -- a file under 4 GiB keeps its size, so the index skips none of them
  have all : ((filelist.map (memberOf env)).filter fun member => member.Indexed) =
      filelist.map (memberOf env) := by
    rw [List.filter_eq_self]
    intro member inside
    obtain ⟨file, listed, rfl⟩ := List.mem_map.mp inside
    exact decide_eq_true (memberOf_indexed env (archivable file listed).filled (short file listed))
  rw [all, List.forall₂_map_left_iff] at loads
  refine ⟨entries path 0 (filelist.map (memberOf env)), ?_, ?_⟩
  · rw [addZippedDir_archive intact stored fs]
  · refine ((List.forall₂_and_left _ _).mpr ⟨short, loads⟩).imp ?_
    rintro file entry ⟨shortFile, isZip, named, loaded⟩
    refine ⟨isZip, named, _, loaded, ?_⟩
    rw [Member.loaded, unpack_memberOf zlib, File.kept_eq shortFile]

theorem small_of_roundTrips {path : Bytes} (returns : RoundTrips env disk fs path filelist) :
    ∀ file ∈ filelist, file.data.length < 2 ^ 32 := by
  obtain ⟨index, -, archived⟩ := returns
  intro file listed
  obtain ⟨i, inside, here⟩ := List.getElem_of_mem listed
  obtain ⟨-, -, loaded, result, same⟩ := archived.get inside (archived.length_eq ▸ inside)
  rw [List.get_eq_getElem, here] at same
  -- what is loaded has the length that a 32-bit field gave it
  exact same ▸ loadZipFile_length_lt result

theorem roundTrips_iff_small (zlib : env.ZlibFaithful) (inhabited : filelist ≠ [])
    (count : filelist.length < 2 ^ 16) (archivable : ∀ file ∈ filelist, file.Archivable)
    (created : createZIP env fs disk filelist zipname = (true, disk'))
    (small : disk'.Small (fs.path zipname)) (fs' : FileSystem) :
    RoundTrips env disk' fs' (fs.path zipname) filelist ↔
      ∀ file ∈ filelist, file.data.length < 2 ^ 32 := by
  have stored := (createZIP_true created).2
  exact ⟨small_of_roundTrips,
    roundTrips_of_small zlib inhabited count archivable stored (small _ stored) fs'⟩

end Created

theorem memberOf_lengths (env : Environment) (file : File) (offset : Nat) :
    (memberOf env file).localRecord.length ≤ 30 + file.name.length + file.size32 ∧
      ((memberOf env file).centralRecord offset).length ≤ 46 + file.name.length := by
  have header : LocalFileHeader.format.size = 30 := rfl
  have central : CentralDirectoryFileHeader.format.size = 46 := rfl
  have payload : (pack env file).2.length ≤ file.size32 := by
    rcases pack_cases env file with ⟨-, same, -⟩ | ⟨-, same, shorter, -⟩
    · rw [same, file.kept_length]
    · rw [same]
      exact shorter.le
  constructor
  · rw [Member.localRecord, List.length_append, List.length_append,
      LocalFileHeader.format.toBytes_length, header]
    simp only [memberOf]
    omega
  · rw [Member.centralRecord, List.length_append, CentralDirectoryFileHeader.format.toBytes_length,
      central, List.length_take]
    simp only [memberOf]
    omega

theorem archive_length_le (env : Environment) (filelist : List File) :
    (archive (filelist.map (memberOf env))).length ≤
      (filelist.map fun file => 76 + 2 * file.name.length + file.size32).sum + 22 := by
  have parts (offset : Nat) : (locals (filelist.map (memberOf env))).length +
      (directory offset (filelist.map (memberOf env))).length ≤
        (filelist.map fun file => 76 + 2 * file.name.length + file.size32).sum := by
    induction filelist generalizing offset with
    | nil => simp [locals, directory]
    | cons file filelist ih =>
        have here := memberOf_lengths env file offset
        have others := ih (offset + (memberOf env file).localRecord.length)
        rw [List.map_cons, locals_cons, directory, List.length_append, List.length_append,
          List.map_cons, List.sum_cons]
        omega
  have whole := parts 0
  rw [archive, List.length_append, List.length_append, endBytes_length]
  omega

def oneLetter : Bytes := [0x61]
def tenLetters : Bytes := List.replicate 10 0x61

def sample : Environment where
  localtime := fun _ => ⟨0, 0, 0, 1, 0, 70⟩
  mktime := fun _ => 64000195200
  crc32 := fun data => if data = tenLetters then 0x4c11cdf0 else 0xe8b7be43
  deflate := fun input avail_out =>
    if input = tenLetters then [0x4b, 0x4c, 0x84, 0x01, 0x00].take avail_out
    else if input = oneLetter then [0x4b, 0x04, 0x00].take avail_out
    else List.replicate avail_out 0
  inflate := fun input avail_out =>
    if input = [0x4b, 0x4c, 0x84, 0x01, 0x00] then tenLetters.take avail_out
    else if input = [0x4b, 0x04, 0x00] then oneLetter.take avail_out
    else []
  newChars := fun count => List.replicate count 0
  deflate_length_le := by
    intro input avail_out
    split_ifs <;> simp
  inflate_length_le := by
    intro input avail_out
    split_ifs <;> simp
  newChars_length := fun count => by simp

theorem sample_zlibFaithful : sample.ZlibFaithful where
  inflate_deflate := by
    intro input avail_out complete
    have whole {stream : Bytes} (cut : (stream.take avail_out).length < avail_out) :
        stream.take avail_out = stream := by
      rw [List.length_take] at cut
      exact List.take_of_length_le (by omega)
    simp only [sample] at complete ⊢
    by_cases ten : input = tenLetters
    · subst ten
      rw [if_pos rfl] at complete
      rw [if_pos rfl, whole complete]
      rfl
    · rw [if_neg ten] at complete ⊢
      by_cases one : input = oneLetter
      · subst one
        rw [if_pos rfl] at complete
        rw [if_pos rfl, whole complete]
        rfl
      · rw [if_neg one, List.length_replicate] at complete
        exact absurd complete (lt_irrefl _)

def emptyDisk : Disk where
  resolve := collapse false
  contents := fun _ => none
  opens := fun _ => true
  slashes := id

def root : FileSystem := ⟨[], []⟩

theorem small_of_sum (filelist : List File) {path : Bytes}
    (sum : (filelist.map fun file => 76 + 2 * file.name.length + file.size32).sum + 22 < 2 ^ 32)
    (disk : Disk) : (disk.put path (archive (filelist.map (memberOf sample)))).Small path := by
  intro content stored
  rw [disk.put_files, Option.some.injEq] at stored
  exact stored ▸ (archive_length_le sample filelist).trans_lt sum

def letterFile : File := ⟨[0x78], oneLetter, 0⟩
def lettersFile : File := ⟨[0x79], tenLetters, 0⟩

theorem letterFile_archivable : letterFile.Archivable :=
  ⟨by decide, by decide, by decide, by decide⟩

theorem lettersFile_archivable : lettersFile.Archivable :=
  ⟨by decide, by decide, by decide, by decide⟩

theorem letters_roundTrip : ∃ disk,
    createZIP sample root emptyDisk [letterFile, lettersFile] [] = (true, disk) ∧
      RoundTrips sample disk root (root.path []) [letterFile, lettersFile] := by
  have archivable : ∀ file ∈ [letterFile, lettersFile], file.Archivable := by
    simp [letterFile_archivable, lettersFile_archivable]
  have short : ∀ file ∈ [letterFile, lettersFile], file.data.length < 2 ^ 32 := by decide
  exact ⟨_, createZIP_eq sample rfl _, (roundTrips_iff_small sample_zlibFaithful (by decide)
    (by decide) archivable (createZIP_eq sample rfl _) (small_of_sum _ (by decide) _) _).mpr short⟩

def huge : File := ⟨[0x7a], List.replicate (2 ^ 32 + 1) 0x61, 0⟩

theorem huge_length : huge.data.length = 2 ^ 32 + 1 := List.length_replicate

theorem huge_size32 : huge.size32 = 1 := by
  rw [huge.size32_eq, huge_length]
  norm_num

theorem huge_archivable : huge.Archivable where
  named := List.cons_ne_nil _ _
  short := show [(0x7a : UInt8)].length < 2 ^ 16 by decide
  noNul := show 0 ∉ [(0x7a : UInt8)] by decide
  filled := by
    apply List.ne_nil_of_length_pos
    rw [huge_length]
    omega

theorem huge_not_roundTrips : sample.ZlibFaithful ∧ huge.Archivable ∧
    ∃ disk, createZIP sample root emptyDisk [huge] [] = (true, disk) ∧
      disk.Small (root.path []) ∧ ¬ RoundTrips sample disk root (root.path []) [huge] := by
  refine ⟨sample_zlibFaithful, huge_archivable, _, createZIP_eq sample rfl _,
    small_of_sum [huge] ?_ _, fun returns => ?_⟩
  · rw [List.map_cons, List.map_nil, List.sum_cons, List.sum_nil, huge_size32,
      show huge.name.length = 1 from rfl]
    omega
  · have short := small_of_roundTrips returns huge List.mem_cons_self
    rw [huge_length] at short
    omega

end PackagedTask.Archive
