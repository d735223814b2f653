import PackagedTask.Library.Sessions
import PackagedTask.Archive.Roots
import PackagedTask.Archive.Membership

namespace PackagedTask.Archive
open Library

/-! What the files below a root stand for, and what the calls that write them do to it. -/

inductive Content
  | loose (data : Bytes)
  | zip (files : List File)

abbrev Holdings := Relative → Option Content

/-- The calls of `FileSystem` that write; `place` is where. -/
inductive StoreCall
  | createZIP (filelist : List File) (place : Relative)
  | addFileToZIP (file : File) (place : Relative)
  | writeFile (path : Bytes) (file : File) (place : Relative)
      (named : inPath path file.name = place.text)

def StoreCall.run (env : Environment) (state : FileSystem × Disk) :
    StoreCall → Bool × FileSystem × Disk
  | .createZIP filelist place =>
      let result := Archive.createZIP env state.1 state.2 filelist place.text
      (result.1, state.1, result.2)
  | .addFileToZIP file place =>
      let result := Archive.addFileToZIP env state.1 state.2 file place.text
      (result.1, state.1, result.2)
  | .writeFile path file _ _ => state.1.writeFile state.2 path file

def StoreCall.place : StoreCall → Relative
  | .createZIP _ place => place
  | .addFileToZIP _ place => place
  | .writeFile _ _ place _ => place

namespace Holdings

def put (holdings : Holdings) (place : Relative) (content : Content) : Holdings :=
  Function.update holdings place (some content)

def addFile (holdings : Holdings) (file : File) (place : Relative) : Bool × Holdings :=
  match holdings place with
  | some (.zip files) =>
      if (files.map File.name).contains file.name then (false, holdings)
      else (true, holdings.put place (.zip (files ++ [file])))
  | _ => (false, holdings)

/-- What the call is for, where its place `opens` for writing or not. -/
def serve (opens : Relative → Bool) (holdings : Holdings) : StoreCall → Bool × Holdings
  | .createZIP filelist place =>
      if opens place then (true, holdings.put place (.zip filelist)) else (false, holdings)
  | .addFileToZIP file place =>
      if opens place then holdings.addFile file place else (false, holdings)
  | .writeFile _ file place _ =>
      if opens place then (true, holdings.put place (.loose file.data)) else (false, holdings)

/-- A loose file of the name, else the first file of the name in an archive that is not empty or a
multiple of 4 GiB long. -/
def read (holdings : Holdings) (order : List Relative) (name : Bytes) : Option Bytes :=
  (order.findSome? fun place =>
    match holdings place with
    | some (.loose data) => if name = place.text then some data else none
    | _ => none).or
  (order.findSome? fun place =>
    match holdings place with
    | some (.zip files) =>
        (files.find? fun file => name = file.name ∧ file.size32 ≠ 0).map File.kept
    | _ => none)

end Holdings

structure Storable (env : Environment) (files : List File) : Prop where
  inhabited : files ≠ []
  count : files.length < 2 ^ 16
  nameable : ∀ file ∈ files, file.Nameable
  small : (archive (files.map (memberOf env))).length < 2 ^ 32

/-- Archives, and nothing else, stand under names that end in ".zip". -/
def Holdings.WellKept (env : Environment) (zipNamed : Relative → Bool) (holdings : Holdings) : Prop :=
  ∀ place content, holdings place = some content →
    match content with
    | .loose _ => zipNamed place = false
    | .zip files => zipNamed place = true ∧ Storable env files

theorem Holdings.WellKept.put {env : Environment} {zipNamed : Relative → Bool} {holdings : Holdings}
    (kept : holdings.WellKept env zipNamed) {place : Relative} {content : Content}
    (new : match content with
      | .loose _ => zipNamed place = false
      | .zip files => zipNamed place = true ∧ Storable env files) :
    (holdings.put place content).WellKept env zipNamed := by
  intro other held found
  by_cases same : other = place
  · subst same
    rw [Holdings.put, Function.update_self] at found
    exact Option.some.inj found ▸ new
  · rw [Holdings.put, Function.update_of_ne same] at found
    exact kept other held found

/-- `places` are the paths that are in use. -/
def StoreCall.Fitting (places : Set Relative) (zipNamed : Relative → Bool) (call : StoreCall) : Prop :=
  call.place ∈ places ∧ match call with
    | .createZIP _ place => zipNamed place = true
    | .addFileToZIP _ place => zipNamed place = true
    | .writeFile _ _ place _ => zipNamed place = false

def Content.bytes (env : Environment) : Content → Bytes
  | .loose data => data
  | .zip files => archive (files.map (memberOf env))

/-- The disk below `root_dir` has what `holdings` say, and no two of the paths in use lead to one
file, as `.`, `..` and links could. -/
structure Holds (env : Environment) (root_dir : Bytes) (places : Set Relative)
    (opens zipNamed : Relative → Bool) (state : FileSystem × Disk) (holdings : Holdings) : Prop where
  root : state.1.m_data_dir = root_dir
  apart : ∀ place ∈ places, ∀ other ∈ places,
    state.2.OneFile (root_dir ++ slash :: other.text) (root_dir ++ slash :: place.text) →
      other = place
  writable : ∀ place ∈ places, state.2.writable (root_dir ++ slash :: place.text) = opens place
  stored : ∀ place ∈ places, state.2.files (root_dir ++ slash :: place.text) =
    (holdings place).map (Content.bytes env)
  within : ∀ place, (holdings place).isSome → place ∈ places
  kept : holdings.WellKept env zipNamed

/-- The call keeps to the names and leaves the archives within the limits. -/
structure Allowed (env : Environment) (places : Set Relative) (opens zipNamed : Relative → Bool)
    (holdings : Holdings) (call : StoreCall) : Prop where
  fitting : call.Fitting places zipNamed
  kept : (holdings.serve opens call).2.WellKept env zipNamed

section Writing
variable {env : Environment} {root_dir : Bytes} {places : Set Relative}
  {opens zipNamed : Relative → Bool} {state : FileSystem × Disk}
  {holdings : Holdings}

theorem Storable.intact {files : List File} (storable : Storable env files) :
    Intact (files.map (memberOf env)) :=
  intact_of_nameable env storable.inhabited storable.count storable.nameable storable.small

namespace Holds

theorem path (holds : Holds env root_dir places opens zipNamed state holdings) (place : Relative) :
    state.1.path place.text = root_dir ++ slash :: place.text := by
  rw [FileSystem.path, holds.root]
  rfl

theorem put (holds : Holds env root_dir places opens zipNamed state holdings) {place : Relative}
    (used : place ∈ places) {content : Content} {fs : FileSystem} (root : fs.m_data_dir = root_dir)
    (kept : (holdings.put place content).WellKept env zipNamed) :
    Holds env root_dir places opens zipNamed
      (fs, state.2.put (root_dir ++ slash :: place.text) (content.bytes env))
      (holdings.put place content) where
  root := root
  apart := holds.apart
  writable := holds.writable
  stored := by
    intro other among
    by_cases same : other = place
    · subst same
      rw [Disk.put_files, Holdings.put, Function.update_self]
      rfl
    · rw [Disk.put_files_ne _ _ fun one => same (holds.apart place used other among one),
        Holdings.put, Function.update_of_ne same]
      exact holds.stored other among
  within := by
    intro other held
    by_cases same : other = place
    · exact same ▸ used
    · rw [Holdings.put, Function.update_of_ne same] at held
      exact holds.within other held
  kept := kept

theorem createZIP (holds : Holds env root_dir places opens zipNamed state holdings) (filelist : List File)
    {place : Relative} (used : place ∈ places)
    (kept : (holdings.serve opens (.createZIP filelist place)).2.WellKept env zipNamed) :
    (StoreCall.run env state (.createZIP filelist place)).1 =
        (holdings.serve opens (.createZIP filelist place)).1 ∧
      Holds env root_dir places opens zipNamed (StoreCall.run env state (.createZIP filelist place)).2
        (holdings.serve opens (.createZIP filelist place)).2 := by
  simp only [StoreCall.run, Holdings.serve] at kept ⊢
  have writable := holds.writable place used
  by_cases opened : opens place = true
  · rw [opened, ← holds.path] at writable
    rw [if_pos opened] at kept
    rw [if_pos opened, createZIP_eq env writable, holds.path]
    exact ⟨rfl, holds.put used holds.root kept⟩
  · rw [if_neg opened, Archive.createZIP, holds.path, writable, if_neg opened]
    exact ⟨rfl, holds⟩

theorem addFileToZIP (holds : Holds env root_dir places opens zipNamed state holdings) (file : File)
    {place : Relative} (used : place ∈ places) (fitting : zipNamed place = true)
    (kept : (holdings.serve opens (.addFileToZIP file place)).2.WellKept env zipNamed) :
    (StoreCall.run env state (.addFileToZIP file place)).1 =
        (holdings.serve opens (.addFileToZIP file place)).1 ∧
      Holds env root_dir places opens zipNamed (StoreCall.run env state (.addFileToZIP file place)).2
        (holdings.serve opens (.addFileToZIP file place)).2 := by
  simp only [StoreCall.run, Holdings.serve, Holdings.addFile] at kept ⊢
  have writable := holds.writable place used
  have stored := holds.stored place used
  by_cases opened : opens place = true
  · rw [opened] at writable
    rw [if_pos opened] at kept
    rw [if_pos opened]
    cases held : holdings place with
    | none =>
        rw [held] at stored
        rw [Archive.addFileToZIP, holds.path, stored]
        exact ⟨rfl, holds⟩
    | some content =>
        have named := holds.kept place content held
        rw [held] at stored
        cases content with
        | loose data => exact absurd (fitting.symm.trans named) (by simp)
        | zip files =>
            rw [← holds.path] at stored writable
            rw [held] at kept
            simp only [List.contains_iff_mem] at kept ⊢
            rw [addFileToZIP_archive env named.2.intact stored writable, List.map_map,
              show Member.name ∘ memberOf env = File.name from rfl, holds.path]
            by_cases known : file.name ∈ files.map File.name
            · rw [if_pos known, if_pos known]
              exact ⟨rfl, holds⟩
            · rw [if_neg known] at kept
              rw [if_neg known, if_neg known]
              refine ⟨rfl, ?_⟩
              have grown := holds.put used holds.root kept
              rwa [Content.bytes, List.map_append, List.map_singleton] at grown
  · have refused : Archive.addFileToZIP env state.1 state.2 file place.text = (false, state.2) := by
      unfold Archive.addFileToZIP
      rw [holds.path, writable]
      cases state.2.files (root_dir ++ slash :: place.text) with
      | none => rfl
      | some content => exact if_neg opened
    rw [if_neg opened, refused]
    exact ⟨rfl, holds⟩

theorem writeFile (holds : Holds env root_dir places opens zipNamed state holdings) (path : Bytes)
    (file : File) {place : Relative} (used : place ∈ places)
    (named : inPath path file.name = place.text)
    (kept : (holdings.serve opens (.writeFile path file place named)).2.WellKept env zipNamed) :
    (StoreCall.run env state (.writeFile path file place named)).1 =
        (holdings.serve opens (.writeFile path file place named)).1 ∧
      Holds env root_dir places opens zipNamed
        (StoreCall.run env state (.writeFile path file place named)).2
        (holdings.serve opens (.writeFile path file place named)).2 := by
  simp only [StoreCall.run, Holdings.serve] at kept ⊢
  have writable := holds.writable place used
  by_cases opened : opens place = true
  · rw [opened, ← holds.path, ← named] at writable
    rw [if_pos opened] at kept
    obtain ⟨fs, wrote, root, -, -⟩ := @writeFile_eq state.1 state.2 path file writable
    rw [wrote, if_pos opened, named, holds.path]
    exact ⟨rfl, holds.put used (root.trans holds.root) kept⟩
  · have refused : state.1.writeFile state.2 path file = (false, state.1, state.2) := by
      unfold FileSystem.writeFile
      dsimp only
      rw [named, holds.path, writable, if_neg opened]
    rw [if_neg opened, refused]
    exact ⟨rfl, holds⟩

theorem run {call : StoreCall} (holds : Holds env root_dir places opens zipNamed state holdings)
    (allowed : Allowed env places opens zipNamed holdings call) :
    (call.run env state).1 = (holdings.serve opens call).1 ∧
      Holds env root_dir places opens zipNamed (call.run env state).2 (holdings.serve opens call).2 := by
  obtain ⟨⟨used, fitting⟩, kept⟩ := allowed
  cases call with
  | createZIP filelist place => exact holds.createZIP filelist used kept
  | addFileToZIP file place => exact holds.addFileToZIP file used fitting kept
  | writeFile path file place named => exact holds.writeFile path file used named kept

theorem session (holds : Holds env root_dir places opens zipNamed state holdings) {calls : List StoreCall}
    (admitted : Admitted (Holdings.serve opens) (Allowed env places opens zipNamed) holdings calls) :
    (Library.session (StoreCall.run env) state calls).1 =
        (Library.session (Holdings.serve opens) holdings calls).1 ∧
      Holds env root_dir places opens zipNamed (Library.session (StoreCall.run env) state calls).2
        (Library.session (Holdings.serve opens) holdings calls).2 :=
  session_refines (fun holds allowed => holds.run allowed) holds admitted

end Holds
end Writing

def Folder.Lists (folder : Folder) (zipNamed : Relative → Bool) (holdings : Holdings) : Prop :=
  ∀ place zip, (place, zip) ∈ folder.files ↔ (holdings place).isSome ∧ zip = zipNamed place

def Reads (env : Environment) (fs : FileSystem) (disk : Disk) (name : Bytes)
    (answer : Option Bytes) : Prop :=
  fs.isExist name = answer.isSome ∧ ∀ times, (fs.getFile env times disk name).map File.data =
    answer.elim (.error fileNotFound) .ok

section Reading
variable {env : Environment} {disk : Disk} {fs : FileSystem}

def LoadsTo (env : Environment) (fs : FileSystem) (disk : Disk) (entry : FileData) (data : Bytes) :
    Prop :=
  ∀ times, (if entry.is_zip then loadZipFile env disk entry
    else loadPermanentFile times fs disk entry).map File.data = .ok data

theorem reads_of_find {name : Bytes} {answer : Option Bytes}
    (found : Option.Rel (LoadsTo env fs disk) (fs.find name) answer) :
    Reads env fs disk name answer := by
  constructor
  · rw [isExist_eq]
    generalize fs.find name = entry at found
    cases found <;> rfl
  · intro times
    rw [FileSystem.getFile]
    generalize fs.find name = entry at found
    cases found with
    | some loads => exact loads times
    | none => rfl

theorem construct_files (disk : Disk) (root_dir : Bytes) (listed : List (Bytes × Bool)) :
    (FileSystem.construct disk root_dir listed).m_files =
      ((listed.filter fun lp => !lp.2).map fun lp => { fname := lp.1.drop (root_dir.length + 1) }) ++
        ((listed.filter fun lp => lp.2).map Prod.fst).flatMap disk.index := by
  have folded (paths : List Bytes) (fs : FileSystem) :
      (paths.foldl (addZippedDir disk) fs).m_files = fs.m_files ++ paths.flatMap disk.index := by
    induction paths generalizing fs with
    | nil => simp
    | cons path paths ih =>
        rw [List.foldl_cons, addZippedDir_index, ih, List.append_assoc, List.flatMap_cons]
  exact folded _ _

theorem Storable.found {files : List File} (storable : Storable env files) (zlib : env.ZlibFaithful)
    {path : Bytes} (stored : disk.files path = some (archive (files.map (memberOf env))))
    (name : Bytes) : Option.Rel (LoadsTo env fs disk)
      ((disk.index path).find? fun entry => name == entry.key)
      ((files.find? fun file => name = file.name ∧ file.size32 ≠ 0).map File.kept) := by
  have intact := storable.intact
  have layout : archive (files.map (memberOf env)) = [] ++ (locals (files.map (memberOf env)) ++
      (directory 0 (files.map (memberOf env)) ++ endBytes (endRecord (files.map (memberOf env))))) := by
    rw [List.nil_append, archive]
  have loads := (entries_load env intact.sound stored intact.small layout).flip
  rw [List.filter_map, List.forall₂_map_right_iff] at loads
  have kept : (files.filter ((fun member => decide member.Indexed) ∘ memberOf env)) =
      files.filter fun file => file.size32 ≠ 0 := by
    apply List.filter_congr
    intro file _
    simp [memberOf_indexed_iff]
  have picked : (files.find? fun file => name = file.name ∧ file.size32 ≠ 0) =
      (files.filter fun file => file.size32 ≠ 0).find? fun file => name = file.name := by
    rw [List.find?_filter]
    congr 1
    funext file
    simp [and_comm]
  rw [index_stored stored, index_archive intact, picked]
  rw [kept] at loads
  have found := rel_find? (p := fun entry : FileData => name == entry.key)
    (q := fun file : File => name = file.name) ?_ loads
  · apply rel_map _ found
    rintro entry file ⟨zip, -, loaded⟩ times
    rw [if_pos zip, List.length_nil] at *
    rw [loaded, Except.map, Member.loaded, unpack_memberOf zlib]
  · rintro entry file ⟨zip, named, -⟩
    rw [FileData.key, if_pos zip, named]
    exact Bool.beq_eq_decide_eq _ _

namespace Folder
variable (folder : Folder)

theorem find_eq (bare : folder.root_dir.getLast? ≠ some slash) (name : Bytes) :
    (folder.fileSystem disk).find name =
      (folder.files.findSome? fun file =>
        if !file.2 then if name = file.1.text then some { fname := file.1.text } else none
        else none).or
      (folder.files.findSome? fun file =>
        if file.2 then (disk.index (folder.path file.1)).find? fun entry => name == entry.key
        else none) := by
  have path (place : Relative) : folder.path place = folder.root_dir ++ slash :: place.text :=
    if_neg bare
  have short (place : Relative) :
      (folder.path place).drop (folder.root_dir.length + 1) = place.text := by
    rw [path, List.drop_length_add_append]
    rfl
  rw [FileSystem.find, fileSystem, construct_files, List.find?_append, List.find?_flatMap,
    List.find?_eq_findSome?_guard, List.findSome?_map, List.findSome?_map]
  simp only [List.filter_map, List.findSome?_map, findSome?_filter]
  congr 2
  funext file
  by_cases zip : file.2 = true <;> simp [zip, short, Option.guard, FileData.key]

variable {folder} {places : Set Relative} {opens zipNamed : Relative → Bool} {holdings : Holdings}

theorem reads (lists : folder.Lists zipNamed holdings) (bare : folder.root_dir.getLast? ≠ some slash)
    (zlib : env.ZlibFaithful)
    (holds : Holds env folder.root_dir places opens zipNamed (fs, disk) holdings) (name : Bytes) :
    Reads env (folder.fileSystem disk) disk name
      (holdings.read (folder.files.map Prod.fst) name) := by
  have path (place : Relative) : folder.path place = folder.root_dir ++ slash :: place.text :=
    if_neg bare
  have same : List.Forall₂ (fun file place => file ∈ folder.files ∧ place = file.1) folder.files
      (folder.files.map Prod.fst) := by
    rw [List.forall₂_map_right_iff, List.forall₂_same]
    exact fun file listed => ⟨listed, rfl⟩
  apply reads_of_find
  rw [folder.find_eq bare, Holdings.read]
  apply rel_or
  · apply rel_findSome? _ same
    rintro ⟨place, zip⟩ other ⟨listed, same⟩
    obtain rfl : other = place := same
    obtain ⟨here, rfl⟩ := (lists other zip).mp listed
    obtain ⟨content, held⟩ := Option.isSome_iff_exists.mp here
    have named := holds.kept other content held
    cases content with
    | zip files => simp [held, named.1]
    | loose data =>
        simp only [held, named, Bool.not_false, if_true]
        by_cases asked : name = other.text
        · rw [if_pos asked, if_pos asked]
          apply Option.Rel.some
          intro times
          have stored : disk.files (folder.root_dir ++ slash :: other.text) = some data := by
            rw [holds.stored other (holds.within other here), held]
            rfl
          simp [loadPermanentFile, folder.opened, stored, Except.map]
        · rw [if_neg asked, if_neg asked]
          exact .none
  · apply rel_findSome? _ same
    rintro ⟨place, zip⟩ other ⟨listed, same⟩
    obtain rfl : other = place := same
    obtain ⟨here, rfl⟩ := (lists other zip).mp listed
    obtain ⟨content, held⟩ := Option.isSome_iff_exists.mp here
    have named := holds.kept other content held
    have stored := holds.stored other (holds.within other here)
    rw [held, ← path] at stored
    cases content with
    | zip files =>
        simp only [held, named.1, if_true]
        exact named.2.found zlib stored name
    | loose data => simp [held, named]

end Folder

end Reading

def nothing : Holdings := fun _ => none

end PackagedTask.Archive
