import PackagedTask.Archive.Appending

namespace PackagedTask.Archive
open Library Streams

/-! The index `m_files`: permanent files and archive members in one list, searched from the front. -/

def FileData.key (f : FileData) : Bytes := if f.is_zip then f.zip_data.fname else f.fname

/-- `last_write_time` is what the file system tells of a path. -/
def loadPermanentFile (last_write_time : Bytes → Int) (fs : FileSystem) (disk : Disk)
    (f : FileData) : Except Fault File :=
  match disk.files (fs.path f.fname) with
  | none => .error unableToLoad
  | some data => .ok ⟨f.fname, data, last_write_time (fs.path f.fname)⟩

def fileNotFound : Fault := .exception "File not found"

def inPath (path filename : Bytes) : Bytes :=
  if path.isEmpty then filename else path ++ 0x2f :: filename

namespace FileSystem

def isExist (fs : FileSystem) (fname : Bytes) : Bool := fs.m_files.any fun fl => fname == fl.key

def find (fs : FileSystem) (fname : Bytes) : Option FileData :=
  fs.m_files.find? fun f => fname == f.key

def getFile (env : Environment) (last_write_time : Bytes → Int) (fs : FileSystem) (disk : Disk)
    (fname : Bytes) : Except Fault File :=
  match fs.find fname with
  | some res =>
      if res.is_zip then loadZipFile env disk res
      else loadPermanentFile last_write_time fs disk res
  | none => .error fileNotFound

def writeFile (fs : FileSystem) (disk : Disk) (path : Bytes) (file : File) :
    Bool × FileSystem × Disk :=
  let filename := inPath path file.name
  if disk.writable (fs.path filename) then
    let disk := disk.put (fs.path filename) file.data
    if fs.isExist filename then (true, fs, disk)
    else (true, { fs with m_files := fs.m_files ++ [{ fname := filename }] }, disk)
  else (false, fs, disk)

end FileSystem

/-- What `writeFile` owes once it has returned true. The times before and after are those of an
operating system that touches only the written file. -/
structure VisibleIn (env : Environment) (fs : FileSystem) (disk : Disk) (filename data : Bytes)
    (fs' : FileSystem) (disk' : Disk) : Prop where
  exist : fs'.isExist filename = true
  read : ∀ times, ∃ loaded, fs'.getFile env times disk' filename = .ok loaded ∧ loaded.data = data
  others : ∀ entry ∈ fs.m_files, entry.is_zip = false → entry.fname ≠ filename →
    ∀ times times',
      (∀ path, ¬ disk.OneFile path (fs.path filename) → times' path = times path) →
      fs'.getFile env times' disk' entry.fname = fs.getFile env times disk entry.fname

def ReadsWrites (env : Environment) (fs : FileSystem) (disk : Disk) (path : Bytes) (file : File) :
    Prop :=
  ∀ fs' disk', fs.writeFile disk path file = (true, fs', disk') →
    VisibleIn env fs disk (inPath path file.name) file.data fs' disk'

def FileSystem.source (fs : FileSystem) (f : FileData) : Bytes :=
  if f.is_zip then f.fname else fs.path f.fname

/-- No archive member stands in the index before a permanent file and hides the write or breaks by
it, and no other name of a permanent file leads to the written file: where a member comes first it
has the written bytes itself, or loads as before. -/
structure Unshadowed (env : Environment) (fs : FileSystem) (disk : Disk) (filename data : Bytes) :
    Prop where
  own : ∀ entry, fs.find filename = some entry → entry.is_zip = true →
    ∃ loaded, loadZipFile env (disk.put (fs.path filename) data) entry = .ok loaded ∧
      loaded.data = data
  others : ∀ entry ∈ fs.m_files, entry.is_zip = false → entry.fname ≠ filename →
    ∀ first, fs.find entry.fname = some first →
      disk.OneFile (fs.source first) (fs.path filename) → first.is_zip = true ∧
        loadZipFile env (disk.put (fs.path filename) data) first = loadZipFile env disk first

section Reading
variable {env : Environment} {fs : FileSystem} {disk : Disk} {filename data : Bytes}

theorem loadZipFile_put {path : Bytes} {zf : FileData} (apart : ¬ disk.OneFile zf.fname path) :
    loadZipFile env (disk.put path data) zf = loadZipFile env disk zf := by
  unfold loadZipFile
  rw [disk.put_files_ne data apart]

theorem find_key {entry : FileData} (found : fs.find filename = some entry) :
    entry.key = filename := by
  have same := List.find?_some found
  exact (beq_iff_eq.mp same).symm

theorem find_permanent {entry : FileData} (found : fs.find filename = some entry)
    (permanent : entry.is_zip = false) : entry.fname = filename := by
  have same := find_key found
  rw [FileData.key, permanent] at same
  exact same

theorem isExist_eq (fs : FileSystem) (fname : Bytes) :
    fs.isExist fname = (fs.find fname).isSome := by
  rw [FileSystem.isExist, FileSystem.find, List.isSome_find?]

theorem find_append {entry : FileData} {name : Bytes} :
    ({ fs with m_files := fs.m_files ++ [entry] } : FileSystem).find name =
      (fs.find name).or (if name = entry.key then some entry else none) := by
  rw [FileSystem.find, FileSystem.find, List.find?_append, List.find?_singleton]
  simp only [beq_iff_eq]

theorem writeFile_eq {path : Bytes} {file : File}
    (opens : disk.writable (fs.path (inPath path file.name)) = true) :
    ∃ fs', fs.writeFile disk path file =
        (true, fs', disk.put (fs.path (inPath path file.name)) file.data) ∧
      fs'.m_data_dir = fs.m_data_dir ∧
      fs'.find (inPath path file.name) = some ((fs.find (inPath path file.name)).getD
        { fname := inPath path file.name }) ∧
      ∀ name ≠ inPath path file.name, fs'.find name = fs.find name := by
  unfold FileSystem.writeFile
  dsimp only
  rw [if_pos opens, isExist_eq]
  cases found : fs.find (inPath path file.name) with
  | some entry => exact ⟨fs, rfl, rfl, found, fun _ _ => rfl⟩
  | none =>
      have key : ({ fname := inPath path file.name } : FileData).key = inPath path file.name := rfl
      refine ⟨_, rfl, rfl, ?_, fun name apart => ?_⟩
      · rw [find_append, found, key, if_pos rfl]
        rfl
      · rw [find_append, key, if_neg apart, Option.or_none]

theorem getFile_of_find {times : Bytes → Int} {entry : FileData} {name : Bytes}
    (found : fs.find name = some entry) : fs.getFile env times disk name =
      if entry.is_zip then loadZipFile env disk entry
      else loadPermanentFile times fs disk entry := by
  rw [FileSystem.getFile, found]

theorem loadPermanentFile_written {times : Bytes → Int} {entry : FileData} {fs' : FileSystem}
    (root : fs'.m_data_dir = fs.m_data_dir) (named : entry.fname = filename) :
    ∃ loaded, loadPermanentFile times fs' (disk.put (fs.path filename) data) entry = .ok loaded ∧
      loaded.data = data := by
  have path : fs'.path entry.fname = fs.path filename := by
    rw [FileSystem.path, FileSystem.path, root, named]
  unfold loadPermanentFile
  rw [path, Disk.put_files]
  exact ⟨_, rfl, rfl⟩

theorem loadPermanentFile_apart {times times' : Bytes → Int} {entry : FileData} {fs' : FileSystem}
    (root : fs'.m_data_dir = fs.m_data_dir)
    (apart : ¬ disk.OneFile (fs.path entry.fname) (fs.path filename))
    (still : ∀ path, ¬ disk.OneFile path (fs.path filename) → times' path = times path) :
    loadPermanentFile times' fs' (disk.put (fs.path filename) data) entry =
      loadPermanentFile times fs disk entry := by
  have path : fs'.path entry.fname = fs.path entry.fname := by
    rw [FileSystem.path, FileSystem.path, root]
  unfold loadPermanentFile
  rw [path, disk.put_files_ne data apart, still _ apart]

theorem loadPermanentFile_touched {entry : FileData} {fs' : FileSystem}
    (root : fs'.m_data_dir = fs.m_data_dir)
    (onto : disk.OneFile (fs.path entry.fname) (fs.path filename)) :
    loadPermanentFile (fun path => if disk.OneFile path (fs.path filename) then 1 else 0) fs'
      (disk.put (fs.path filename) data) entry ≠ loadPermanentFile (fun _ => 0) fs disk entry := by
  have path : fs'.path entry.fname = fs.path entry.fname := by
    rw [FileSystem.path, FileSystem.path, root]
  unfold loadPermanentFile
  rw [path, disk.put_files_same data onto]
  dsimp only
  rw [if_pos onto]
  cases disk.files (fs.path entry.fname) <;> simp

theorem find_of_mem {entry : FileData} (listed : entry ∈ fs.m_files)
    (permanent : entry.is_zip = false) : ∃ first, fs.find entry.fname = some first := by
  have key : entry.key = entry.fname := by
    rw [FileData.key, permanent]
    rfl
  cases found : fs.find entry.fname with
  | some first => exact ⟨first, rfl⟩
  | none =>
      have missed := List.find?_eq_none.mp found entry listed
      rw [key] at missed
      exact absurd (beq_self_eq_true _) missed

theorem visibleIn_iff {fs' : FileSystem} (root : fs'.m_data_dir = fs.m_data_dir)
    (here : fs'.find filename = some ((fs.find filename).getD { fname := filename }))
    (elsewhere : ∀ name ≠ filename, fs'.find name = fs.find name) :
    VisibleIn env fs disk filename data fs' (disk.put (fs.path filename) data) ↔
      Unshadowed env fs disk filename data := by
  constructor
  · rintro ⟨-, read, others⟩
    constructor
    · intro entry found zip
      obtain ⟨loaded, result, same⟩ := read fun _ => 0
      rw [getFile_of_find here, found, Option.getD_some, if_pos zip] at result
      exact ⟨loaded, result, same⟩
    · intro entry listed permanent apart first found onto
      have found' := (elsewhere _ apart).trans found
      by_cases zip : first.is_zip = true
      · have unchanged := others entry listed permanent apart (fun _ => 0) (fun _ => 0)
          fun _ _ => rfl
        rw [getFile_of_find found, getFile_of_find found', if_pos zip, if_pos zip] at unchanged
        exact ⟨zip, unchanged⟩
      · -- the time of the written file is another after the write
        rw [FileSystem.source, if_neg zip] at onto
        have unchanged := others entry listed permanent apart (fun _ => 0)
          (fun path => if disk.OneFile path (fs.path filename) then 1 else 0)
          fun path elsewhere => if_neg elsewhere
        rw [getFile_of_find found, getFile_of_find found', if_neg zip, if_neg zip] at unchanged
        exact (loadPermanentFile_touched root onto unchanged).elim
  · rintro ⟨own, others⟩
    refine ⟨by rw [isExist_eq, here, Option.isSome_some], fun times => ?_, ?_⟩
    · rw [getFile_of_find here]
      cases found : fs.find filename with
      | none => exact loadPermanentFile_written root rfl
      | some entry =>
          rw [Option.getD_some]
          by_cases zip : entry.is_zip = true
          · rw [if_pos zip]
            exact own entry found zip
          · rw [if_neg zip]
            exact loadPermanentFile_written root (find_permanent found (by simpa using zip))
    · intro entry listed permanent apart times times' still
      obtain ⟨first, found⟩ := find_of_mem listed permanent
      rw [getFile_of_find found, getFile_of_find ((elsewhere _ apart).trans found)]
      have spared := others entry listed permanent apart first found
      by_cases zip : first.is_zip = true
      · rw [if_pos zip, if_pos zip]
        rw [FileSystem.source, if_pos zip] at spared
        by_cases overwritten : disk.OneFile first.fname (fs.path filename)
        · exact (spared overwritten).2
        · exact loadZipFile_put overwritten
      · rw [if_neg zip, if_neg zip]
        rw [FileSystem.source, if_neg zip] at spared
        exact loadPermanentFile_apart root (fun onto => zip (spared onto).1) still

theorem readsWrites_iff (path : Bytes) (file : File) : ReadsWrites env fs disk path file ↔
    (disk.writable (fs.path (inPath path file.name)) = true →
      Unshadowed env fs disk (inPath path file.name) file.data) := by
  by_cases opens : disk.writable (fs.path (inPath path file.name)) = true
  · obtain ⟨fs', wrote, root, here, elsewhere⟩ := @writeFile_eq fs disk path file opens
    rw [← visibleIn_iff root here elsewhere]
    constructor
    · exact fun reads _ => reads fs' _ wrote
    · intro visible fs'' disk'' wrote'
      rw [wrote] at wrote'
      cases wrote'
      exact visible opens
  · have refused : fs.writeFile disk path file = (false, fs, disk) := if_neg opens
    constructor
    · exact fun _ opened => absurd opened opens
    · intro _ fs' disk' wrote
      rw [refused] at wrote
      cases wrote

end Reading

def letterRoot : FileSystem := addZippedDir letterDisk root (root.path [])

theorem letterDisk_stored : letterDisk.files (root.path []) =
    some (archive [memberOf sample letterFile]) := emptyDisk.put_files _ _

theorem letterRoot_eq : letterRoot =
    { root with m_files := [(memberOf sample letterFile).entry (root.path []) 0] } := by
  rw [letterRoot, addZippedDir_archive letter_intact letterDisk_stored root, List.map_singleton,
    entries, entries, if_pos (by decide)]
  rfl

def longerLetterFile : File := ⟨letterFile.name, tenLetters, 0⟩

theorem letterRoot_hides : ¬ ReadsWrites sample letterRoot letterDisk [] longerLetterFile := by
  rw [readsWrites_iff, letterRoot_eq]
  intro condition
  obtain ⟨loaded, result, same⟩ := (condition rfl).own _ rfl rfl
  have elsewhere : ¬ letterDisk.OneFile (root.path []) (root.path letterFile.name) := by decide
  have held : loadZipFile sample letterDisk ((memberOf sample letterFile).entry (root.path []) 0) =
      .ok ((memberOf sample letterFile).loaded sample (root.path [])) :=
    loadZipFile_member (memberOf_sound sample letterFile_archivable) letterDisk_stored
      (letterDisk_small _ letterDisk_stored) ⟨[], _, rfl, rfl⟩
  -- the name still finds the member, with its one letter
  have unchanged := (@loadZipFile_put sample letterDisk tenLetters (root.path letterFile.name) _
    elsewhere).trans held
  obtain rfl := Except.ok.inj (unchanged.symm.trans result)
  rw [Member.loaded, unpack_memberOf sample_zlibFaithful] at same
  exact absurd same (by decide)

end PackagedTask.Archive
