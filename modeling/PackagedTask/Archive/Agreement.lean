import PackagedTask.Archive.Appending
import PackagedTask.Archive.Exactness

namespace PackagedTask.Archive
open Library Packed FileStream

/-! `addFileToZIP` walks the directory for itself, and does not skip what `addZippedDir` skips. -/

namespace ForeignArchive

def names (archive : ForeignArchive) : List Bytes := archive.records.map CentralRecord.name

section Adding
variable {archive : ForeignArchive} {env : Environment} {fs : FileSystem} {disk : Disk}
  {zipname : Bytes}

/-- The two walks read the same records under the same names, and the file is refused if it is in
the archive and appended if it is not. -/
structure WalkersAgree (env : Environment) (fs : FileSystem) (disk : Disk) (zipname : Bytes)
    (archive : ForeignArchive) : Prop where
  same : (addFileToZIP.visited env archive.content).map
      (fun visit => (visit.1.tell, visit.2.getD [])) =
    (addZippedDir.visited archive.content).map fun visit => (visit.1.2.tell, visit.2.2)
  refuses : ∀ file : File, file.name ∈ archive.names →
    addFileToZIP env fs disk file zipname = (false, disk)
  appends : ∀ file : File, file.name ∉ archive.names →
    addFileToZIP env fs disk file zipname =
      (true, disk.put (fs.path zipname) (archive.grown env file))

/-- No record that `addZippedDir` stops at, no name that `addFileToZIP` reads differently, and
nothing behind a name but in the last record. -/
structure Plain (archive : ForeignArchive) : Prop where
  clear : ∀ record ∈ archive.records, record.Clear
  named : ∀ record ∈ archive.records, record.name ≠ []
  noNul : ∀ record ∈ archive.records, 0 ∉ record.name
  bare : ∀ record ∈ archive.records.dropLast, record.tail = []

theorem getD_pushed (record : CentralRecord) : record.pushed.getD [] = cString record.name := by
  rw [CentralRecord.pushed]
  split
  · rename_i empty
    rw [empty]
    rfl
  · rfl

theorem names_places_iff (env : Environment) (inhabited : archive.records ≠ []) :
    (addFileToZIP.visited env archive.content).map (fun visit => visit.1.tell) =
      archive.positions ↔ ∀ record ∈ archive.records.dropLast, record.tail = [] := by
  rw [names_visited_eq inhabited]
  refine ((addFileToZIP_follows env archive.content).places_eq_iff archive.ahead_start).trans ?_
  simp

theorem not_misleads_of_bare (bare : ∀ record ∈ archive.records.dropLast, record.tail = []) :
    ∀ record ∈ archive.records.dropLast, ¬ record.Misleads :=
  fun record inside misleads => misleads.2 (bare record inside)

theorem same_of_bare (inhabited : archive.records ≠ [])
    (clear : ∀ record ∈ archive.records, record.Clear)
    (bare : ∀ record ∈ archive.records.dropLast, record.tail = []) :
    (addFileToZIP.visited env archive.content).map
        (fun visit => (visit.1.tell, visit.2.getD [])) =
      (addZippedDir.visited archive.content).map fun visit => (visit.1.2.tell, visit.2.2) := by
  have straight := not_misleads_of_bare bare
  have places := (names_places_iff env inhabited).mpr bare
  have places' : archive.ReadInPlace := archive.readInPlace_iff.mpr ⟨clear, straight⟩
  have names : (addFileToZIP.visited env archive.content).map (fun visit => visit.2.getD []) =
      archive.records.map fun record => cString record.name := by
    have seen := congrArg (List.map fun name => Option.getD name [])
      (names_seen_of_bare env inhabited bare)
    rw [List.map_map, List.map_map] at seen
    exact seen.trans (List.map_congr_left fun record _ => getD_pushed record)
  have names' : (addZippedDir.visited archive.content).map (fun visit => visit.2.2) =
      archive.records.map fun record => cString record.name := by
    have seen := congrArg (List.map Prod.snd) (seen_of_straight clear straight)
    rw [List.map_map, List.map_map] at seen
    exact seen
  rw [← List.zip_map', ← List.zip_map', places, places', names, names']

theorem Plain.agree (plain : archive.Plain) (inhabited : archive.records ≠ [])
    (stored : disk.files (fs.path zipname) = some archive.content)
    (opens : disk.writable (fs.path zipname) = true) :
    archive.WalkersAgree env fs disk zipname := by
  have pushed : archive.records.filterMap CentralRecord.pushed = archive.names := by
    rw [names, ← List.filterMap_eq_map]
    refine List.filterMap_congr fun record inside => ?_
    rw [CentralRecord.pushed, if_neg (plain.named record inside), cString_eq (plain.noNul record inside)]
    rfl
  have added := addFileToZIP_foreign env inhabited stored opens plain.bare
  rw [pushed] at added
  refine ⟨same_of_bare inhabited plain.clear plain.bare, fun file known => ?_, fun file fresh => ?_⟩
  · rw [added, if_pos known]
  · rw [added, if_neg fresh]

theorem plain_of_bare (inhabited : archive.records ≠ [])
    (stored : disk.files (fs.path zipname) = some archive.content)
    (opens : disk.writable (fs.path zipname) = true)
    (clear : ∀ record ∈ archive.records, record.Clear)
    (bare : ∀ record ∈ archive.records.dropLast, record.tail = [])
    (agree : archive.WalkersAgree env fs disk zipname) : archive.Plain := by
  -- the file named as a record is refused, so that name is among those pushed
  have known : ∀ record ∈ archive.records, ∃ other ∈ archive.records,
      other.name ≠ [] ∧ record.name = cString other.name := by
    intro record inside
    have refused := agree.refuses ⟨record.name, [], 0⟩ (List.mem_map_of_mem inside)
    rw [addFileToZIP_foreign env inhabited stored opens bare] at refused
    split at refused
    · rename_i known
      obtain ⟨other, listed, pushed⟩ := List.mem_filterMap.mp known
      rw [CentralRecord.pushed] at pushed
      split at pushed
      · cases pushed
      · rename_i named
        exact ⟨other, listed, named, (Option.some.inj pushed).symm⟩
    · cases (Prod.mk.inj refused).1
  have noNul : ∀ record ∈ archive.records, 0 ∉ record.name := by
    intro record inside zero
    obtain ⟨other, -, -, name⟩ := known record inside
    rw [name, cString] at zero
    simpa using List.mem_takeWhile_imp zero
  refine ⟨clear, fun record inside empty => ?_, noNul, bare⟩
  obtain ⟨other, listed, named, name⟩ := known record inside
  rw [empty, cString_eq (noNul other listed)] at name
  exact named name.symm

theorem exists_fresh (names : List Bytes) : ∃ name, name ∉ names := by
  obtain ⟨name, fresh⟩ := Infinite.exists_notMem_finset names.toFinset
  exact ⟨name, fun known => fresh (List.mem_toFinset.mpr known)⟩

theorem bare_of_agree (inhabited : archive.records ≠ [])
    (stored : disk.files (fs.path zipname) = some archive.content)
    (honest : ∀ record ∈ archive.records.dropLast, ¬ record.Disguised)
    (agree : archive.WalkersAgree env fs disk zipname) :
    ∀ record ∈ archive.records.dropLast, record.tail = [] := by
  obtain ⟨name, fresh⟩ := exists_fresh archive.names
  have added := agree.appends ⟨name, [], 0⟩ fresh
  cases walked : walk (addFileToZIP.readRecord env) archive.records.length archive.start with
  | none =>
      rw [addFileToZIP_lost inhabited stored walked] at added
      cases (Prod.mk.inj added).1
  | some last =>
      rw [← archive.catalogue_start] at walked
      exact archive.catalogue.bare_of_walk (fun record inside _ => honest record inside) walked

theorem walkersAgree_iff (inhabited : archive.records ≠ [])
    (stored : disk.files (fs.path zipname) = some archive.content)
    (opens : disk.writable (fs.path zipname) = true) :
    (archive.ReadInPlace ∧ archive.WalkersAgree env fs disk zipname ↔ archive.Plain) ∧
      ((∀ record ∈ archive.records.dropLast, ¬ record.Disguised) →
        (archive.WalkersAgree env fs disk zipname ↔ archive.Plain)) := by
  have clear_of_places (places : archive.ReadInPlace) : ∀ record ∈ archive.records, record.Clear :=
    (archive.readInPlace_iff.mp places).1
  -- where both walks read the same records, one of them is in place just if the other is
  have places_iff (agree : archive.WalkersAgree env fs disk zipname) :
      archive.ReadInPlace ↔ ∀ record ∈ archive.records.dropLast, record.tail = [] := by
    have places := congrArg (List.map Prod.fst) agree.same
    rw [List.map_map, List.map_map] at places
    rw [← names_places_iff env inhabited]
    exact Eq.congr_left places.symm
  have plain_agree (plain : archive.Plain) : archive.WalkersAgree env fs disk zipname :=
    plain.agree inhabited stored opens
  constructor
  · constructor
    · rintro ⟨places, agree⟩
      exact plain_of_bare inhabited stored opens (clear_of_places places)
        ((places_iff agree).mp places) agree
    · intro plain
      exact ⟨(places_iff (plain_agree plain)).mpr plain.bare, plain_agree plain⟩
  · intro honest
    refine ⟨fun agree => ?_, plain_agree⟩
    have bare := bare_of_agree inhabited stored honest agree
    exact plain_of_bare inhabited stored opens (clear_of_places ((places_iff agree).mpr bare)) bare
      agree

end Adding

def silent : CentralRecord where
  header := { reduced.header with fileCommentLength := 0 }
  name := reduced.name
  extra := []
  comment := []
  signature := rfl
  named := rfl
  extras := rfl
  commented := rfl

def commentLast : ForeignArchive where
  front := twoLocals
  records := [silent, annotated]
  eocd := { twoRecordsEnd with sizeOfCentralDirectory := 99 }
  comment := []
  number := rfl
  size := rfl
  offset := rfl
  commented := rfl
  endOnce := endOnce_of_rest (by decide)

theorem commentLast_agree : ∃ disk : Disk,
    disk.files (root.path []) = some commentLast.content ∧ disk.writable (root.path []) = true ∧
      commentLast.ReadInPlace ∧ commentLast.WalkersAgree sample root disk [] := by
  have stored := emptyDisk.put_files (root.path []) commentLast.content
  have plain : commentLast.Plain := ⟨by decide, by decide, by decide, by decide⟩
  exact ⟨_, stored, rfl, (walkersAgree_iff (by decide) stored rfl).1.mpr plain⟩

theorem commentFirst_disagree : ∃ disk : Disk,
    disk.files (root.path []) = some supportedFirst.content ∧
      disk.writable (root.path []) = true ∧ supportedFirst.records ≠ [] ∧
      supportedFirst.ReadInPlace ∧ [0x7a] ∉ supportedFirst.names ∧
      addFileToZIP sample root disk ⟨[0x7a], oneLetter, 0⟩ [] = (false, disk) ∧
      ¬ supportedFirst.WalkersAgree sample root disk [] := by
  have stored := emptyDisk.put_files (root.path []) supportedFirst.content
  have inhabited : supportedFirst.records ≠ [] := by decide
  have places : supportedFirst.ReadInPlace :=
    supportedFirst.readInPlace_iff.mpr ⟨by decide, by decide⟩
  have lost : walk (addFileToZIP.readRecord sample) supportedFirst.records.length
      supportedFirst.start = none := by decide
  refine ⟨_, stored, rfl, inhabited, places, by decide, addFileToZIP_lost inhabited stored lost _,
    fun agree => ?_⟩
  have bare := bare_of_agree inhabited stored (by decide) agree
  exact absurd (bare annotated List.mem_cons_self) (by decide)

end ForeignArchive
end PackagedTask.Archive
