import PackagedTask.Archive.CutReads

namespace PackagedTask.Archive
open Library Packed FileStream

/-! The end record and the directory of a file that is cut off, and the two walks from there. -/

def eocdOf (content : Bytes) : EOCD :=
  (EOCD.format.read (FileStream.seek ⟨content, EOCD_offset content, false⟩ (EOCD_offset content)) {}).1

/-- The search finds an end record that a stream can seek to, and it lies inside the file. -/
def EndWhole (content : Bytes) : Prop :=
  EOCD_offset content ≠ 0 ∧ EOCD_offset content < 2 ^ 63 ∧
    EOCD_offset content + EOCD.format.size ≤ content.length

instance (content : Bytes) : Decidable (EndWhole content) := inferInstanceAs (Decidable (_ ∧ _))

def directoryOf (content : Bytes) : Bytes :=
  (content.drop (eocdOf content).centralDirectoryOffset.toNat).take
    (eocdOf content).sizeOfCentralDirectory.toNat

def DirectoryWhole (content : Bytes) : Prop :=
  (directoryOf content).length = (eocdOf content).sizeOfCentralDirectory.toNat

instance (content : Bytes) : Decidable (DirectoryWhole content) := inferInstanceAs (Decidable (_ = _))

theorem unsigned_empty : ({} : CentralDirectoryFileHeader).signature ≠ centralSignature := by decide

section Ends
variable {content behind ahead : Bytes} {start : Nat}

theorem findEOCD_stream (same : behind ++ ahead = content) (inside : start + 4 ≤ content.length)
    (small : start < 2 ^ 63) (found : (findEOCD start (between behind ahead)).1 ≠ 0) :
    findEOCD start (between behind ahead) = ((findEOCD start (between behind ahead)).1,
      ⟨content, (findEOCD start (between behind ahead)).1, false⟩) := by
  induction start generalizing behind ahead with
  | zero => exact absurd rfl found
  | succ start ih =>
      rw [findEOCD_probe same (by omega) small] at found ⊢
      dsimp only at found ⊢
      split
      · rw [between, List.take_append_drop, List.length_take_of_le (by omega)]
      · rename_i unsigned
        rw [if_neg unsigned] at found
        exact ih (List.take_append_drop _ _) (by omega) (by omega) found

theorem findEOCD_found (found : EOCD_offset content ≠ 0) :
    findEOCD (scanStart content.length) ⟨content, content.length, false⟩ =
      (EOCD_offset content, ⟨content, EOCD_offset content, false⟩) := by
  have small : scanStart content.length < 2 ^ 63 := by
    by_contra big
    exact found (findEOCD_beyond (not_lt.mp big))
  have size : EOCD.format.size = 18 := rfl
  have inside : scanStart content.length + 4 ≤ content.length := by
    unfold scanStart at small ⊢
    split at small
    · omega
    · rename_i long
      rw [if_neg long]
      omega
  rw [EOCD_offset, EndsWith.opened] at found
  rw [EOCD_offset, EndsWith.opened]
  exact findEOCD_stream (List.append_nil _) inside small found

theorem end_read (whole : EndWhole content) :
    EOCD.format.read (FileStream.seek ⟨content, EOCD_offset content, false⟩ (EOCD_offset content)) {} =
      (eocdOf content, ⟨content, EOCD_offset content + EOCD.format.size, false⟩) := by
  have full : (EOCD.format.toBytes {}).length ≤ (content.drop (EOCD_offset content)).length := by
    have inside := whole.2.2
    rw [EOCD.format.toBytes_length, List.length_drop]
    omega
  rw [eocdOf, seek_at whole.2.1, Format.read, read_at full, EOCD.format.toBytes_length]

theorem end_cut (found : EOCD_offset content ≠ 0) (cut : ¬ EndWhole content) :
    (EOCD.format.read (FileStream.seek ⟨content, EOCD_offset content, false⟩
      (EOCD_offset content)) {}).2.failed = true := by
  by_cases near : EOCD_offset content < 2 ^ 63
  · rw [seek_at near]
    refine read_short ?_
    have short : ¬ EOCD_offset content + EOCD.format.size ≤ content.length :=
      fun inside => cut ⟨found, near, inside⟩
    have size : EOCD.format.size = 18 := rfl
    rw [EOCD.format.toBytes_length, List.length_drop]
    omega
  · rw [FileStream.seek, if_neg Bool.false_ne_true, if_neg near, Format.read, read_failed rfl]

theorem visited_whole (whole : EndWhole content) : addZippedDir.visited content =
    visits addZippedDir.readRecord (eocdOf content).numberCentralDirectoryRecord.toNat
      ({}, ⟨content, (eocdOf content).centralDirectoryOffset.toNat, false⟩) := by
  have near := UInt32.toNat_lt (eocdOf content).centralDirectoryOffset
  unfold addZippedDir.visited
  rw [findEOCD_found whole.1]
  dsimp only
  rw [if_neg whole.1, end_read whole]
  dsimp only
  rw [seek_at (by omega)]

theorem visited_cut (cut : ¬ EndWhole content) : addZippedDir.visited content = [] := by
  by_cases found : EOCD_offset content = 0
  · unfold addZippedDir.visited
    exact if_pos found
  · have failed := end_cut found cut
    unfold addZippedDir.visited
    rw [findEOCD_found found]
    dsimp only
    rw [if_neg found, seek_failed failed]
    cases (EOCD.format.read (FileStream.seek ⟨content, EOCD_offset content, false⟩
      (EOCD_offset content)) {}).1.numberCentralDirectoryRecord.toNat with
    | zero => rfl
    | succ count =>
        refine visits_of_none (readRecord_refused ?_)
        rw [header_failed _ failed]
        exact fun accepted => unsigned_empty accepted.1

theorem read_of_visited : (∀ visit ∈ addZippedDir.visited content, visit.2.1.Indexed →
    ReadWhole content visit) ↔ (EndWhole content → ¬ Overreads content
      (eocdOf content).numberCentralDirectoryRecord.toNat {}
        (eocdOf content).centralDirectoryOffset.toNat) := by
  by_cases whole : EndWhole content
  · have count := UInt16.toNat_lt (eocdOf content).numberCentralDirectoryRecord
    have near := UInt32.toNat_lt (eocdOf content).centralDirectoryOffset
    rw [visited_whole whole, visits_whole_iff (by omega)]
    simp [whole]
  · rw [visited_cut whole]
    simp [whole]

theorem index_length_le (path : Bytes) (sound : EndWhole content → ¬ Overreads content
    (eocdOf content).numberCentralDirectoryRecord.toNat {}
      (eocdOf content).centralDirectoryOffset.toNat) :
    (index path content).length ≤ (completePlaces content).card := by
  have lengths : (index path content).length = (indexedPlaces (addZippedDir.visited content)).length := by
    rw [index, indexed, List.length_filterMap_eq_countP, List.countP_map, indexedPlaces,
      List.length_map, ← List.countP_eq_length_filter]
    refine List.countP_congr fun visit _ => ?_
    rw [Function.comp_apply]
    split <;> simp [*]
  have distinct : (indexedPlaces (addZippedDir.visited content)).Nodup := by
    by_cases whole : EndWhole content
    · have count := UInt16.toNat_lt (eocdOf content).numberCentralDirectoryRecord
      have near := UInt32.toNat_lt (eocdOf content).centralDirectoryOffset
      rw [visited_whole whole]
      exact (places_increase (by omega) (sound whole)).1.imp fun less => less.ne
    · rw [visited_cut whole]
      exact .nil
  rw [lengths, ← List.toFinset_card_of_nodup distinct]
  refine Finset.card_le_card fun place inside => ?_
  rw [List.mem_toFinset, indexedPlaces, List.mem_map] at inside
  obtain ⟨visit, kept, rfl⟩ := inside
  obtain ⟨seen, indexed⟩ := List.mem_filter.mp kept
  obtain ⟨place, here, complete, -⟩ := read_of_visited.mpr sound visit seen (of_decide_eq_true indexed)
  rw [here, completePlaces, Finset.mem_filter, Finset.mem_range]
  have inside := complete.2
  have size : CentralDirectoryFileHeader.format.size = 46 := rfl
  rw [Whole] at inside
  exact ⟨show place < content.length by omega, complete⟩

end Ends

/-- The bytes that `addFileToZIP` takes for a name: what the file does not have stays as it was in
new memory. -/
def nameOver (env : Environment) (content : Bytes) (place : Nat) (cdfh : CentralDirectoryFileHeader) :
    Bytes :=
  nameAt content place cdfh ++ ((env.newChars (cdfh.filenameLength.toNat + 1)).take
    cdfh.filenameLength.toNat).drop (nameAt content place cdfh).length

def pushedOver (env : Environment) (content : Bytes) (place : Nat)
    (cdfh : CentralDirectoryFileHeader) : Option Bytes :=
  if cdfh.filenameLength ≠ 0 then some (cString (nameOver env content place cdfh)) else none

/-- The end of the file cuts off the last of the records, behind its signature, and no name up to
there is that of the file. -/
def CutLast (env : Environment) (content : Bytes) (file : File) : Nat → List Bytes → Nat → Prop
  | 0, _, _ => False
  | count + 1, names, place =>
      let cdfh := headerOver content place {}
      let names := names ++ (pushedOver env content place cdfh).toList
      cdfh.signature = centralSignature ∧
        if Whole content place cdfh then CutLast env content file count names
          (place + CentralDirectoryFileHeader.format.size + cdfh.filenameLength.toNat)
        else count = 0 ∧ file.name ∉ names

/-- As `ReadWhole`, in the walk of `addFileToZIP`. -/
def NameWhole (env : Environment) (content : Bytes) (visit : FileStream × Option Bytes) : Prop :=
  ∃ place, visit.1 = ⟨content, place, false⟩ ∧ CompleteAt content place ∧
    visit.2 = pushedOver env content place (headerOver content place {})

section Names
variable {env : Environment} {content : Bytes} {file : File} {place count : Nat} {ofs : FileStream}

theorem name_unread (failed : ofs.failed = true) : addFileToZIP.readRecord env ofs = none := by
  rw [addFileToZIP.readRecord, header_failed _ failed]
  exact if_pos unsigned_empty

theorem name_unsigned (unsigned : (headerOver content place {}).signature ≠ centralSignature) :
    addFileToZIP.readRecord env ⟨content, place, false⟩ = none := by
  rw [addFileToZIP.readRecord]
  exact if_pos unsigned

theorem newChars_take (env : Environment) (count : Nat) :
    ((env.newChars (count + 1)).take count).length = count := by
  rw [List.length_take, env.newChars_length]
  omega

theorem nameOver_read (env : Environment) {cdfh : CentralDirectoryFileHeader}
    (read : CentralDirectoryFileHeader.format.read ⟨content, place, false⟩ {} = (cdfh, ofs)) :
    (ofs.read ((env.newChars (cdfh.filenameLength.toNat + 1)).take cdfh.filenameLength.toNat)).1 =
      nameOver env content place cdfh := by
  by_cases inside : place + CentralDirectoryFileHeader.format.size ≤ content.length
  · rw [header_read _ inside] at read
    obtain rfl := (Prod.mk.inj read).2
    rw [FileStream.read, if_neg Bool.false_ne_true, newChars_take]
    rfl
  · have failed := header_cut {} (not_le.mp inside)
    rw [read] at failed
    have nothing : nameAt content place cdfh = [] := by
      rw [nameAt, List.drop_eq_nil_of_le (by omega), List.take_nil]
    rw [FileStream.read_failed failed, nameOver, nothing, List.length_nil, List.drop_zero,
      List.nil_append]

theorem name_signed (signed : (headerOver content place {}).signature = centralSignature) :
    ∃ next, addFileToZIP.readRecord env ⟨content, place, false⟩ =
        some (pushedOver env content place (headerOver content place {}), next) ∧
      (Whole content place (headerOver content place {}) → next =
        ⟨content, place + CentralDirectoryFileHeader.format.size +
          (headerOver content place {}).filenameLength.toNat, false⟩) ∧
      (¬ Whole content place (headerOver content place {}) → next.failed = true) := by
  obtain ⟨rest, read⟩ : ∃ rest, CentralDirectoryFileHeader.format.read ⟨content, place, false⟩ {} =
      (headerOver content place {}, rest) := ⟨_, rfl⟩
  rw [addFileToZIP.readRecord, read]
  dsimp only
  rw [if_neg (not_not.mpr signed), nameOver_read env read, pushedOver]
  by_cases inside : place + CentralDirectoryFileHeader.format.size ≤ content.length
  · have here := header_read {} inside
    rw [read] at here
    obtain rfl := (Prod.mk.inj here).2
    by_cases named : (headerOver content place {}).filenameLength ≠ 0
    · rw [if_pos named, if_pos named]
      refine ⟨_, rfl, fun whole => ?_, fun cut => ?_⟩
      · rw [read_at (by rw [newChars_take, List.length_drop]; exact Nat.le_sub_of_add_le' whole),
          newChars_take]
      · refine read_short ?_
        rw [newChars_take, List.length_drop]
        rw [Whole] at cut
        omega
    · rw [if_neg named, if_neg named, not_not.mp named]
      refine ⟨_, rfl, fun _ => rfl, fun cut => absurd ?_ cut⟩
      rw [Whole, not_not.mp named]
      exact inside
  · have failed := header_cut {} (not_le.mp inside)
    rw [read] at failed
    have cut : ¬ Whole content place (headerOver content place {}) :=
      fun whole => inside ((Nat.le_add_right _ _).trans whole)
    rw [read_failed failed]
    refine ⟨rest, ?_, fun whole => absurd whole cut, fun _ => failed⟩
    split <;> rfl

theorem nameWhole_iff (signed : (headerOver content place {}).signature = centralSignature) :
    NameWhole env content (⟨content, place, false⟩,
        pushedOver env content place (headerOver content place {})) ↔
      Whole content place (headerOver content place {}) := by
  unfold NameWhole CompleteAt
  dsimp only
  constructor
  · rintro ⟨there, here, ⟨-, whole⟩, -⟩
    obtain rfl : place = there := congrArg FileStream.pos here
    exact whole
  · intro whole
    exact ⟨place, rfl, ⟨signed, whole⟩, rfl⟩

theorem walk_ends {last : FileStream}
    (walked : walk (addFileToZIP.readRecord env) count ⟨content, place, false⟩ = some last) :
    (∃ there, last = ⟨content, there, false⟩) ∧
        (∀ visit ∈ visits (addFileToZIP.readRecord env) count ⟨content, place, false⟩,
          NameWhole env content visit) ∨
      last.failed = true ∧
        ¬ ∀ visit ∈ visits (addFileToZIP.readRecord env) count ⟨content, place, false⟩,
          NameWhole env content visit := by
  induction count generalizing place with
  | zero =>
      obtain rfl := Option.some.inj walked
      exact .inl ⟨⟨place, rfl⟩, fun visit inside => absurd inside List.not_mem_nil⟩
  | succ count ih =>
      by_cases signed : (headerOver content place {}).signature = centralSignature
      · obtain ⟨next, read, onward, lost⟩ := @name_signed env content place signed
        rw [walk_of_some read] at walked
        rw [visits_of_some read, List.forall_mem_cons]
        by_cases whole : Whole content place (headerOver content place {})
        · rw [onward whole] at walked ⊢
          simpa only [(nameWhole_iff signed).mpr whole, true_and] using ih walked
        · have unread := (@nameWhole_iff env content place signed).not.mpr whole
          cases count with
          | zero =>
              obtain rfl := Option.some.inj walked
              exact .inr ⟨lost whole, fun all => unread all.1⟩
          | succ count =>
              rw [walk_of_none (name_unread (lost whole))] at walked
              cases walked
      · rw [walk_of_none (name_unsigned signed)] at walked
        cases walked

theorem cutLast_iff {names : List Bytes} : CutLast env content file count names place ↔
    ∃ last, walk (addFileToZIP.readRecord env) count ⟨content, place, false⟩ = some last ∧
      last.failed = true ∧ file.name ∉ names ++
        (visits (addFileToZIP.readRecord env) count ⟨content, place, false⟩).filterMap Prod.snd := by
  induction count generalizing names place with
  | zero => simp [CutLast, walk]
  | succ count ih =>
      rw [CutLast]
      by_cases signed : (headerOver content place {}).signature = centralSignature
      · obtain ⟨next, read, onward, lost⟩ := @name_signed env content place signed
        have pushed (rest : List (FileStream × Option Bytes)) :
            (((⟨content, place, false⟩ : FileStream),
              pushedOver env content place (headerOver content place {})) :: rest).filterMap Prod.snd =
                (pushedOver env content place (headerOver content place {})).toList ++
                  rest.filterMap Prod.snd := by
          cases pushedOver env content place (headerOver content place {}) <;> rfl
        rw [walk_of_some read, visits_of_some read, pushed, ← List.append_assoc]
        by_cases whole : Whole content place (headerOver content place {})
        · rw [onward whole, if_pos whole, ← ih]
          simp [signed]
        · rw [if_neg whole]
          cases count with
          | zero => simp [signed, walk, visits, lost whole]
          | succ count =>
              rw [walk_of_none (name_unread (lost whole))]
              simp
      · rw [walk_of_none (name_unsigned signed)]
        simp [signed]

end Names

end PackagedTask.Archive
