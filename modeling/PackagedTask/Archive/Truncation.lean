import PackagedTask.Archive.Growing

namespace PackagedTask.Archive
open Library Packed FileStream

/-! What the two writers write when they return true. -/

inductive WriteCall
  | createZIP (filelist : List File) (zipname : Bytes)
  | addFileToZIP (file : File) (zipname : Bytes)

namespace WriteCall

def run (env : Environment) (fs : FileSystem) (disk : Disk) : WriteCall → Bool × Disk
  | .createZIP filelist zipname => Archive.createZIP env fs disk filelist zipname
  | .addFileToZIP file zipname => Archive.addFileToZIP env fs disk file zipname

/-- Names, counts, sizes and offsets stay within what the format can say. -/
def Fits (env : Environment) (fs : FileSystem) (disk : Disk) : WriteCall → Prop
  | .createZIP filelist _ => CreateFits env filelist
  | .addFileToZIP file zipname => ∀ content eocd ofs,
      disk.files (fs.path zipname) = some content →
      addFileToZIP.readEnd content = some (eocd, ofs) → GrowthFits env file eocd

/-- One of the checks that the writers do make ends the call: the file does not open, or has no
names to compare with, or the name among them. -/
def Stops (env : Environment) (fs : FileSystem) (disk : Disk) : WriteCall → Prop
  | .createZIP _ zipname => disk.writable (fs.path zipname) = false
  | .addFileToZIP file zipname => disk.writable (fs.path zipname) = true →
      ∀ content zip_fnames, disk.files (fs.path zipname) = some content →
        addFileToZIP.namesOf env content = some zip_fnames → file.name ∈ zip_fnames

/-- The fields of all headers that the call fills in hold the numbers they stand for. -/
def Exact (env : Environment) (fs : FileSystem) (disk : Disk) : WriteCall → Prop
  | .createZIP filelist _ => CreateExact env filelist
  | .addFileToZIP file zipname => ∀ content eocd ofs,
      disk.files (fs.path zipname) = some content →
      addFileToZIP.readEnd content = some (eocd, ofs) → GrowthExact env file eocd
        (eocd.centralDirectoryOffset.toNat + (memberOf env file).localRecord.length)
        (eocd.sizeOfCentralDirectory.toNat + (46 + file.name.length))

/-- These headers are the ones in the file. -/
def Written (env : Environment) (fs : FileSystem) (disk after : Disk) : WriteCall → Prop
  | .createZIP filelist zipname =>
      after.files (fs.path zipname) = some (archive (filelist.map (memberOf env)))
  | .addFileToZIP file zipname => ∀ catalogue : Catalogue,
      disk.files (fs.path zipname) = some catalogue.content → catalogue.Steady env file →
        after.files (fs.path zipname) = some (catalogue.grown env file)

end WriteCall

section Writers
variable {env : Environment} {fs : FileSystem} {disk : Disk}

theorem WriteCall.written (call : WriteCall) (ran : (call.run env fs disk).1 = true) :
    call.Written env fs disk (call.run env fs disk).2 := by
  cases call with
  | createZIP filelist zipname =>
      rw [WriteCall.run] at ran ⊢
      exact (createZIP_true (Prod.ext ran rfl)).2
  | addFileToZIP file zipname =>
      intro catalogue stored steady
      rw [WriteCall.run] at ran ⊢
      rcases catalogue.addFileToZIP_cases stored steady with refused | ⟨-, grown⟩
      · rw [refused] at ran
        cases ran
      · rw [grown]
        exact disk.put_files _ _

end Writers

section Full

def copies (count : Nat) : List File := List.replicate count letterFile

variable {count : Nat}

end Full

end PackagedTask.Archive
