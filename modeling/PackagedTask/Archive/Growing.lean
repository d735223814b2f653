import PackagedTask.Archive.Limits

namespace PackagedTask.Archive
open Library Packed FileStream

/-! What `addZippedDir` finds in an archive once `addFileToZIP` has written into it. -/

def index (path content : Bytes) : List FileData :=
  indexed path ((addZippedDir.visited content).map Prod.snd)

namespace Catalogue

/-- No extra field or comment looks like a record to `addFileToZIP`, and what is left of the old end
hides no other end record. -/
structure Steady (env : Environment) (file : File) (catalogue : Catalogue) : Prop where
  honest : ∀ record ∈ catalogue.records.dropLast, record.tail ≠ [] → ¬ record.Disguised
  ends : EndsWith (catalogue.grown env file)
    (catalogue.grownFront env file ++ catalogue.grownDirectory env file)
    (catalogue.grownEocd env file) (catalogue.grownComment env file)

section Growing
variable {env : Environment} {file : File} {catalogue : Catalogue} {fs : FileSystem} {disk : Disk}
  {zipname : Bytes}

theorem addFileToZIP_empty
    (empty : catalogue.front ++ (catalogue.directory ++ catalogue.gap) = [])
    (stored : disk.files (fs.path zipname) = some catalogue.content) (file : File) :
    addFileToZIP env fs disk file zipname = (false, disk) := by
  have lost : addFileToZIP.update env file ⟨catalogue.content, catalogue.content.length, false⟩ =
      none := by
    unfold addFileToZIP.update
    rw [show (⟨catalogue.content, catalogue.content.length, false⟩ : FileStream).tell =
      catalogue.content.length from rfl]
    dsimp only
    rw [if_pos (catalogue.ends.scan_empty empty)]
  unfold addFileToZIP
  rw [stored]
  dsimp only
  rw [lost]
  exact ite_self _

theorem addFileToZIP_cases (stored : disk.files (fs.path zipname) = some catalogue.content)
    (steady : catalogue.Steady env file) :
    addFileToZIP env fs disk file zipname = (false, disk) ∨
      (∀ record ∈ catalogue.records.dropLast, record.tail = []) ∧
        addFileToZIP env fs disk file zipname =
          (true, disk.put (fs.path zipname) (catalogue.grown env file)) := by
  by_cases empty : catalogue.front ++ (catalogue.directory ++ catalogue.gap) = []
  · rw [addFileToZIP_empty empty stored]
    exact .inl rfl
  · cases walked : walk (addFileToZIP.readRecord env) catalogue.records.length catalogue.start with
    | none =>
        rw [addFileToZIP_lost empty stored walked]
        exact .inl rfl
    | some last =>
        have bare := bare_of_walk steady.honest walked
        by_cases opens : disk.writable (fs.path zipname) = true
        · rw [addFileToZIP_of_bare env empty stored opens bare file]
          split
          · exact .inl rfl
          · exact .inr ⟨bare, rfl⟩
        · unfold addFileToZIP
          rw [stored]
          dsimp only
          rw [if_neg opens]
          exact .inl rfl

end Growing
end Catalogue

end PackagedTask.Archive
