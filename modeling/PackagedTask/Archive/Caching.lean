import PackagedTask.Library.Runs
import PackagedTask.Archive.Construction
import PackagedTask.Archive.Truncation

namespace PackagedTask.Archive
open Library Streams

/-! The index keeps the local header offsets of archives that go on being written. -/

namespace WriteCall

def zipname : WriteCall → Bytes
  | .createZIP _ zipname => zipname
  | .addFileToZIP _ zipname => zipname

def step (env : Environment) (fs : FileSystem) (call : WriteCall) (disk disk' : Disk) : Prop :=
  disk' = (call.run env fs disk).2

end WriteCall

namespace FileData

/-- The directory has the entry's name at the entry's offset, with its method. -/
def ListedIn (entry : FileData) (content : Bytes) : Prop :=
  ∃ member ∈ index entry.fname content, member.zip_data.fname = entry.zip_data.fname ∧
    member.zip_data.lfhOffset = entry.zip_data.lfhOffset ∧
    member.zip_data.compressed = entry.zip_data.compressed

def WholeIn (env : Environment) (entry : FileData) (content : Bytes) : Prop :=
  ∃ data, entry.zip_data.Holds env content data

/-- No local header stands at the entry's offset, unless the directory has the entry there, whole. -/
def SafeIn (env : Environment) (entry : FileData) (content : Bytes) : Prop :=
  (localHeader content entry.zip_data.lfhOffset).signature = localSignature →
    entry.ListedIn content ∧ entry.WholeIn env content

end FileData

def FileSystem.Cached (fs : FileSystem) (entry : FileData) : Prop :=
  entry.is_zip = true ∧ fs.find entry.key = some entry

namespace WriteCall

/-- The call leaves no other member at the offset of an entry of the archive it writes. What
`addFileToZIP` writes leaves alone what stands before the directory. -/
def Spares (env : Environment) (fs : FileSystem) (disk : Disk) (entry : FileData) : WriteCall → Prop
  | .createZIP filelist _ => entry.SafeIn env (archive (filelist.map (memberOf env)))
  | .addFileToZIP file zipname => ∃ catalogue : Catalogue,
      disk.files (fs.path zipname) = some catalogue.content ∧ catalogue.Steady env file ∧
        (GrowthFits env file catalogue.eocd ∧ entry.ListedIn catalogue.content ∧
            entry.WholeIn env catalogue.front ∨
          entry.SafeIn env (catalogue.grown env file))

/-- The archive that the call writes may be indexed under any of its paths. -/
def Harmless (env : Environment) (fs : FileSystem) (call : WriteCall) (disk : Disk) : Prop :=
  ¬ call.Stops env fs disk → ∀ entry, fs.Cached entry →
    disk.OneFile entry.fname (fs.path call.zipname) → call.Spares env fs disk entry

end WriteCall

section Loading
variable {env : Environment} {fs : FileSystem} {disk : Disk} {content data : Bytes}
  {entry : FileData}

theorem FileData.ListedIn.near (listed : entry.ListedIn content) :
    entry.zip_data.lfhOffset < 2 ^ 32 := by
  obtain ⟨member, inside, -, offset, -⟩ := listed
  exact offset ▸ index_near inside

end Loading

section Writing
variable {env : Environment} {fs : FileSystem} {disk : Disk} {entry : FileData}

end Writing

theorem archive_split (first : List Member) (member : Member) (rest : List Member) :
    ∃ later, archive (first ++ member :: rest) = locals first ++ (member.localRecord ++ later) := by
  rw [archive, locals_append, locals_cons]
  simp only [List.append_assoc]
  exact ⟨_, rfl⟩

/-- Where `createZIP` writes with its limits kept, the entry is safe just if its offset is that of a
file with its name and method, or of no local header. -/
theorem safeIn_archive_iff {env : Environment} {filelist : List File} {entry : FileData}
    (zlib : env.ZlibFaithful) (intact : Intact (filelist.map (memberOf env))) :
    entry.SafeIn env (archive (filelist.map (memberOf env))) ↔
      ((localHeader (archive (filelist.map (memberOf env))) entry.zip_data.lfhOffset).signature =
          localSignature →
        ∃ first file rest, filelist = first ++ file :: rest ∧ file.size32 ≠ 0 ∧
          file.name = entry.zip_data.fname ∧
          (locals (first.map (memberOf env))).length = entry.zip_data.lfhOffset ∧
          decide ((memberOf env file).lfh.compressionMethod = Z_DEFLATED) =
            entry.zip_data.compressed) := by
  refine imp_congr_right fun _ => ?_
  rw [FileData.ListedIn, index_archive intact]
  constructor
  · rintro ⟨⟨made, listed, name, offset, compressed⟩, -⟩
    obtain ⟨_, _, _, split, indexed, rfl⟩ := mem_entries_iff.mp listed
    obtain ⟨first, later, rfl, rfl, onward⟩ := List.map_eq_append_iff.mp split
    obtain ⟨file, rest, rfl, rfl, rfl⟩ := List.map_eq_cons_iff.mp onward
    exact ⟨first, file, rest, rfl, (memberOf_indexed_iff env file).mp indexed, name,
      (Nat.zero_add _).symm.trans offset, compressed⟩
  · rintro ⟨first, file, rest, rfl, filled, name, offset, compressed⟩
    rw [List.map_append, List.map_cons] at intact ⊢
    have sound := intact.sound (memberOf env file) (List.mem_append_right _ List.mem_cons_self)
    refine ⟨⟨_, mem_entries_iff.mpr ⟨_, _, _, rfl, (memberOf_indexed_iff env file).mpr filled, rfl⟩,
      name, (Nat.zero_add _).trans offset, compressed⟩, file.kept, sound.localRecord, ?_, ?_⟩
    · obtain ⟨later, layout⟩ := archive_split (first.map (memberOf env)) (memberOf env file)
        (rest.map (memberOf env))
      exact sound.storedAt ⟨_, later, layout, offset⟩
    · exact compressed ▸ memberOf_holds zlib sound

/-! The archive "z.zip" with the member "x" in the directory "d". -/

def overwrittenDisk : Disk := dataDisk.put dataZip (archive ([lettersFile].map (memberOf sample)))

theorem overwritten : createZIP sample dataRoot dataDisk [lettersFile] letterZip =
    (true, overwrittenDisk) := by
  have place : dataRoot.path letterZip = dataZip := by
    rw [dataRoot_eq]
    rfl
  rw [createZIP_eq sample rfl, place, overwrittenDisk]

end PackagedTask.Archive
