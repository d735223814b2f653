import PackagedTask.Archive.Searching
import PackagedTask.Archive.Growing

namespace PackagedTask.Archive
open Library Packed FileStream

/-! Reads that the end of the file cuts off: which of them the two directory walks notice. -/

/-- What a header read at `place` leaves over the fields of `old`. -/
def headerOver (content : Bytes) (place : Nat) (old : CentralDirectoryFileHeader) :
    CentralDirectoryFileHeader :=
  (CentralDirectoryFileHeader.format.read ⟨content, place, false⟩ old).1

def Whole (content : Bytes) (place : Nat) (cdfh : CentralDirectoryFileHeader) : Prop :=
  place + CentralDirectoryFileHeader.format.size + cdfh.filenameLength.toNat ≤ content.length

instance (content : Bytes) (place : Nat) (cdfh : CentralDirectoryFileHeader) :
    Decidable (Whole content place cdfh) := inferInstanceAs (Decidable (_ ≤ _))

def CompleteAt (content : Bytes) (place : Nat) : Prop :=
  (headerOver content place {}).signature = centralSignature ∧
    Whole content place (headerOver content place {})

instance (content : Bytes) (place : Nat) : Decidable (CompleteAt content place) :=
  inferInstanceAs (Decidable (_ ∧ _))

def nameAt (content : Bytes) (place : Nat) (cdfh : CentralDirectoryFileHeader) : Bytes :=
  (content.drop (place + CentralDirectoryFileHeader.format.size)).take cdfh.filenameLength.toNat

namespace CentralDirectoryFileHeader

def Accepted (cdfh : CentralDirectoryFileHeader) : Prop :=
  cdfh.signature = centralSignature ∧ cdfh.generalPurposeBitFlag &&& 0x1 = 0 ∧
    cdfh.generalPurposeBitFlag &&& 0x8 = 0

instance (cdfh : CentralDirectoryFileHeader) : Decidable cdfh.Accepted :=
  inferInstanceAs (Decidable (_ ∧ _))

/-- How far `addZippedDir` moves on from a header. -/
def span (cdfh : CentralDirectoryFileHeader) : Nat :=
  if cdfh.Unsupported then format.size + cdfh.filenameLength.toNat
  else format.size + cdfh.filenameLength.toNat + cdfh.extraFieldLength.toNat +
    cdfh.fileCommentLength.toNat

theorem span_le (cdfh : CentralDirectoryFileHeader) :
    cdfh.span ≤ format.size + cdfh.filenameLength.toNat + cdfh.extraFieldLength.toNat +
      cdfh.fileCommentLength.toNat := by
  rw [span]
  split <;> omega

theorem span_lt (cdfh : CentralDirectoryFileHeader) : cdfh.span < 2 ^ 18 := by
  have name := UInt16.toNat_lt cdfh.filenameLength
  have extra := UInt16.toNat_lt cdfh.extraFieldLength
  have comment := UInt16.toNat_lt cdfh.fileCommentLength
  have most := cdfh.span_le
  rw [show format.size = 46 from rfl] at most
  omega

theorem span_pos (cdfh : CentralDirectoryFileHeader) : 0 < cdfh.span := by
  rw [span, show format.size = 46 from rfl]
  split <;> omega

end CentralDirectoryFileHeader

/-- The walk comes to a header that the end of the file cuts off, and takes what it has of it, and
of the one before, for a record of the index. -/
def Overreads (content : Bytes) : Nat → CentralDirectoryFileHeader → Nat → Prop
  | 0, _, _ => False
  | count + 1, old, place =>
      let cdfh := headerOver content place old
      cdfh.Accepted ∧
        if Whole content place cdfh then Overreads content count cdfh (place + cdfh.span)
        else cdfh.Indexed

instance Overreads.decide (content : Bytes) : (count : Nat) → (old : CentralDirectoryFileHeader) →
    (place : Nat) → Decidable (Overreads content count old place)
  | 0, _, _ => isFalse id
  | count + 1, old, place =>
      have := decide content count (headerOver content place old)
        (place + (headerOver content place old).span)
      inferInstanceAs (Decidable ((headerOver content place old).Accepted ∧
        if Whole content place (headerOver content place old) then
          Overreads content count (headerOver content place old)
            (place + (headerOver content place old).span)
        else (headerOver content place old).Indexed))

section Reading
variable {content : Bytes} {place count : Nat} {old cdfh : CentralDirectoryFileHeader}
  {ifs : FileStream}

theorem header_failed (old : CentralDirectoryFileHeader) (failed : ifs.failed = true) :
    CentralDirectoryFileHeader.format.read ifs old = (old, ifs) := by
  rw [Format.read, read_failed failed, Format.ofBytes_toBytes]

theorem header_read (old : CentralDirectoryFileHeader)
    (inside : place + CentralDirectoryFileHeader.format.size ≤ content.length) :
    CentralDirectoryFileHeader.format.read ⟨content, place, false⟩ old =
      (headerOver content place {}, ⟨content, place + CentralDirectoryFileHeader.format.size, false⟩) := by
  have full (cdfh : CentralDirectoryFileHeader) :
      (CentralDirectoryFileHeader.format.toBytes cdfh).length ≤ (content.drop place).length := by
    rw [CentralDirectoryFileHeader.format.toBytes_length, List.length_drop]
    omega
  rw [headerOver, Format.read, Format.read, read_at (full old), read_at (full {}),
    CentralDirectoryFileHeader.format.toBytes_length, CentralDirectoryFileHeader.format.toBytes_length]

theorem header_cut (old : CentralDirectoryFileHeader)
    (cut : content.length < place + CentralDirectoryFileHeader.format.size) :
    (CentralDirectoryFileHeader.format.read ⟨content, place, false⟩ old).2.failed = true := by
  refine read_short ?_
  rw [CentralDirectoryFileHeader.format.toBytes_length, List.length_drop]
  have positive : CentralDirectoryFileHeader.format.size = 46 := rfl
  omega

theorem headerOver_of_whole (whole : Whole content place (headerOver content place old)) :
    headerOver content place old = headerOver content place {} := by
  rw [headerOver, header_read old ((Nat.le_add_right _ _).trans whole)]

theorem name_read {field : UInt16} (inside : place + field.toNat ≤ content.length) :
    (if field ≠ 0 then (⟨content, place, false⟩ : FileStream).read (List.replicate field.toNat 0)
      else ([], ⟨content, place, false⟩)) =
        ((content.drop place).take field.toNat, ⟨content, place + field.toNat, false⟩) := by
  split
  · rw [read_at (by rw [List.length_replicate, List.length_drop]; omega), List.length_replicate]
  · rename_i absent
    obtain rfl := not_not.mp absent
    rw [UInt16.toNat_zero, List.take_zero, Nat.add_zero]

theorem name_failed {field : UInt16} (failed : ifs.failed = true) :
    (if field ≠ 0 then ifs.read (List.replicate field.toNat 0) else ([], ifs)).2 = ifs := by
  split
  · rw [read_failed failed]
  · rfl

theorem name_cut {field : UInt16} (start : place ≤ content.length)
    (cut : content.length < place + field.toNat) :
    (if field ≠ 0 then (⟨content, place, false⟩ : FileStream).read (List.replicate field.toNat 0)
      else ([], ⟨content, place, false⟩)).2.failed = true := by
  have present : field ≠ 0 := by
    rintro rfl
    rw [UInt16.toNat_zero] at cut
    omega
  rw [if_pos present]
  refine read_short ?_
  rw [List.length_replicate, List.length_drop]
  omega

theorem skip_field {field : UInt16} (small : place + field.toNat < 2 ^ 63) :
    (if field ≠ 0 then (⟨content, place, false⟩ : FileStream).skip field.toNat
      else ⟨content, place, false⟩) = ⟨content, place + field.toNat, false⟩ := by
  split
  · exact skip_at small
  · rename_i absent
    obtain rfl := not_not.mp absent
    rfl

theorem skip_field_failed {field : UInt16} (failed : ifs.failed = true) :
    (if field ≠ 0 then ifs.skip field.toNat else ifs) = ifs := by
  split
  · exact seek_failed failed _
  · rfl

end Reading

/-- The stream is in order at a complete record, whose header and name are what the file has. -/
def ReadWhole (content : Bytes)
    (visit : (CentralDirectoryFileHeader × FileStream) × CentralDirectoryFileHeader × Bytes) : Prop :=
  ∃ place, visit.1.2 = ⟨content, place, false⟩ ∧ CompleteAt content place ∧
    visit.2 = (headerOver content place {},
      cString (nameAt content place (headerOver content place {})))

def indexedPlaces (visited :
    List ((CentralDirectoryFileHeader × FileStream) × CentralDirectoryFileHeader × Bytes)) :
    List Nat :=
  (visited.filter fun visit => visit.2.1.Indexed).map fun visit => visit.1.2.pos

def completePlaces (content : Bytes) : Finset Nat :=
  (Finset.range content.length).filter (CompleteAt content)

section Walk
variable {content : Bytes} {place count : Nat} {old : CentralDirectoryFileHeader} {ifs : FileStream}

theorem readRecord_refused
    (unaccepted : ¬ (CentralDirectoryFileHeader.format.read ifs old).1.Accepted) :
    addZippedDir.readRecord (old, ifs) = none := by
  rw [addZippedDir.readRecord]
  dsimp only
  split
  · rfl
  · split
    · rfl
    · split
      · rfl
      · rename_i signed clear plain
        exact absurd ⟨not_not.mp signed, not_not.mp clear, not_not.mp plain⟩ unaccepted

theorem readRecord_accepted {cdfh : CentralDirectoryFileHeader} {rest : FileStream}
    (read : CentralDirectoryFileHeader.format.read ifs old = (cdfh, rest))
    (accepted : cdfh.Accepted) : addZippedDir.readRecord (old, ifs) =
      let filename := if cdfh.filenameLength ≠ 0 then
          rest.read (List.replicate cdfh.filenameLength.toNat 0)
        else ([], rest)
      let past := if cdfh.extraFieldLength ≠ 0 then filename.2.skip cdfh.extraFieldLength.toNat
        else filename.2
      some ((cdfh, cString filename.1), cdfh, if cdfh.Unsupported then filename.2
        else if cdfh.fileCommentLength ≠ 0 then past.skip cdfh.fileCommentLength.toNat
        else past) := by
  rw [addZippedDir.readRecord, read]
  dsimp only
  rw [if_neg (not_not.mpr accepted.1), if_neg (not_not.mpr accepted.2.1),
    if_neg (not_not.mpr accepted.2.2)]
  split <;> rfl

theorem readRecord_whole (accepted : (headerOver content place old).Accepted)
    (whole : Whole content place (headerOver content place old))
    (small : place + 2 ^ 18 ≤ 2 ^ 63) :
    addZippedDir.readRecord (old, ⟨content, place, false⟩) =
      some ((headerOver content place {}, cString (nameAt content place (headerOver content place {}))),
        headerOver content place {},
        ⟨content, place + (headerOver content place {}).span, false⟩) := by
  rw [headerOver_of_whole whole] at accepted whole
  have name := UInt16.toNat_lt (headerOver content place {}).filenameLength
  have extra := UInt16.toNat_lt (headerOver content place {}).extraFieldLength
  have comment := UInt16.toNat_lt (headerOver content place {}).fileCommentLength
  have size : CentralDirectoryFileHeader.format.size = 46 := rfl
  rw [readRecord_accepted (header_read old ((Nat.le_add_right _ _).trans whole)) accepted,
    name_read whole]
  dsimp only
  rw [skip_field (by omega), skip_field (by omega), nameAt]
  by_cases unsupported : (headerOver content place {}).Unsupported
  · rw [if_pos unsupported, CentralDirectoryFileHeader.span, if_pos unsupported, Nat.add_assoc]
  · rw [if_neg unsupported, CentralDirectoryFileHeader.span, if_neg unsupported]
    simp only [Nat.add_assoc]

theorem readRecord_stale {next} (failed : ifs.failed = true)
    (read : addZippedDir.readRecord (old, ifs) = some next) :
    next.1.1 = old ∧ next.2 = (old, ifs) := by
  by_cases accepted : old.Accepted
  · have same := header_failed old failed
    rw [readRecord_accepted same accepted] at read
    obtain rfl := Option.some.inj read
    dsimp only
    rw [name_failed failed, skip_field_failed failed, skip_field_failed failed, ite_self]
    exact ⟨rfl, rfl⟩
  · rw [readRecord_refused (by rwa [header_failed _ failed])] at read
    cases read

theorem readRecord_cut (accepted : (headerOver content place old).Accepted)
    (cut : ¬ Whole content place (headerOver content place old)) :
    ∃ name ifs, addZippedDir.readRecord (old, ⟨content, place, false⟩) =
      some ((headerOver content place old, name), headerOver content place old, ifs) ∧
        ifs.failed = true := by
  obtain ⟨rest, read⟩ : ∃ rest, CentralDirectoryFileHeader.format.read ⟨content, place, false⟩ old =
      (headerOver content place old, rest) := ⟨_, rfl⟩
  have lost : (if (headerOver content place old).filenameLength ≠ 0 then
      rest.read (List.replicate (headerOver content place old).filenameLength.toNat 0)
        else ([], rest)).2.failed = true := by
    by_cases inside : place + CentralDirectoryFileHeader.format.size ≤ content.length
    · have here := header_read old inside
      rw [read] at here
      obtain rfl := (Prod.mk.inj here).2
      exact name_cut inside (not_le.mp cut)
    · have failed := header_cut old (not_le.mp inside)
      rw [read] at failed
      rw [name_failed failed]
      exact failed
  rw [readRecord_accepted read accepted]
  dsimp only
  refine ⟨_, _, rfl, ?_⟩
  rw [skip_field_failed lost, skip_field_failed lost, ite_self]
  exact lost

theorem visits_stale (failed : ifs.failed = true) :
    ∀ visit ∈ visits addZippedDir.readRecord count (old, ifs), visit.2.1 = old ∧ visit.1.2 = ifs := by
  induction count with
  | zero => simp [visits]
  | succ count ih =>
      rw [visits]
      split
      · simp
      · rename_i seen next read
        obtain ⟨same, still⟩ := readRecord_stale failed read
        rw [show next = (old, ifs) from still, List.forall_mem_cons]
        exact ⟨⟨same, rfl⟩, ih⟩

theorem visits_cases (count : Nat) (old : CentralDirectoryFileHeader)
    (small : place + 2 ^ 18 ≤ 2 ^ 63) :
    let cdfh := headerOver content place old
    let start : CentralDirectoryFileHeader × FileStream := (old, ⟨content, place, false⟩)
    let visited := visits addZippedDir.readRecord (count + 1) start
    (¬ cdfh.Accepted ∧ visited = []) ∨
      (cdfh.Accepted ∧ Whole content place cdfh ∧ ∃ first, ReadWhole content first ∧
        first.1.2.pos = place ∧ first.2.1 = cdfh ∧ visited = first ::
          visits addZippedDir.readRecord count (cdfh, ⟨content, place + cdfh.span, false⟩)) ∨
      (cdfh.Accepted ∧ ¬ Whole content place cdfh ∧ visited ≠ [] ∧
        ∀ visit ∈ visited, visit.2.1 = cdfh ∧ ¬ ReadWhole content visit) := by
  intro cdfh start visited
  by_cases accepted : cdfh.Accepted
  · refine .inr ?_
    by_cases whole : Whole content place cdfh
    · have same : cdfh = headerOver content place {} := headerOver_of_whole whole
      have read : addZippedDir.readRecord start =
          some ((cdfh, cString (nameAt content place cdfh)), cdfh,
            ⟨content, place + cdfh.span, false⟩) := by
        rw [same]
        exact readRecord_whole accepted whole small
      refine .inl ⟨accepted, whole, _, ⟨place, rfl, ⟨?_, same ▸ whole⟩, ?_⟩, rfl, rfl,
        visits_of_some read⟩
      · exact same ▸ accepted.1
      · rw [same]
    · obtain ⟨name, ifs, read, failed⟩ := readRecord_cut accepted whole
      refine .inr ⟨accepted, whole, ?_⟩
      rw [show visited = _ from visits_of_some read]
      refine ⟨List.cons_ne_nil _ _, List.forall_mem_cons.mpr ⟨⟨rfl, ?_⟩, fun visit later => ?_⟩⟩
      · rintro ⟨there, here, complete, same⟩
        obtain rfl : place = there := congrArg FileStream.pos here
        have own : cdfh = headerOver content place {} := (Prod.mk.inj same).1
        exact whole (own ▸ complete.2)
      · obtain ⟨stale, still⟩ := visits_stale failed visit later
        refine ⟨stale, ?_⟩
        rintro ⟨there, here, -⟩
        rw [still] at here
        rw [here] at failed
        cases failed
  · exact .inl ⟨accepted, visits_of_none (readRecord_refused accepted)⟩

theorem visits_whole_iff (small : place + (count + 1) * 2 ^ 18 ≤ 2 ^ 63) :
    (∀ visit ∈ visits addZippedDir.readRecord count (old, ⟨content, place, false⟩),
      visit.2.1.Indexed → ReadWhole content visit) ↔ ¬ Overreads content count old place := by
  induction count generalizing old place with
  | zero => simp [visits, Overreads]
  | succ count ih =>
      rw [Overreads]
      rcases @visits_cases content place count old (by omega) with
        ⟨unaccepted, none⟩ | ⟨accepted, whole, first, read, -, -, more⟩ |
          ⟨accepted, cut, some, stale⟩
      · rw [none]
        simp [unaccepted]
      · have within := (headerOver content place old).span_lt
        rw [more, List.forall_mem_cons, ih (by omega), if_pos whole]
        simp [accepted, read]
      · rw [if_neg cut]
        obtain ⟨visit, inside⟩ := List.exists_mem_of_ne_nil _ some
        constructor
        · rintro reads ⟨-, indexed⟩
          obtain ⟨same, unread⟩ := stale visit inside
          exact unread (reads visit inside (same ▸ indexed))
        · intro sound visit inside indexed
          exact absurd ⟨accepted, (stale visit inside).1 ▸ indexed⟩ sound

theorem places_increase (small : place + (count + 1) * 2 ^ 18 ≤ 2 ^ 63)
    (sound : ¬ Overreads content count old place) :
    let places := indexedPlaces (visits addZippedDir.readRecord count (old, ⟨content, place, false⟩))
    places.Pairwise (· < ·) ∧ ∀ other ∈ places, place ≤ other := by
  induction count generalizing old place with
  | zero => simp [indexedPlaces, visits]
  | succ count ih =>
      intro places
      rw [Overreads] at sound
      rcases @visits_cases content place count old (by omega) with
        ⟨-, none⟩ | ⟨accepted, whole, first, -, here, same, more⟩ | ⟨accepted, cut, -, stale⟩
      · simp [places, indexedPlaces, none]
      · have within := (headerOver content place old).span_lt
        have positive := (headerOver content place old).span_pos
        rw [if_pos whole, not_and] at sound
        obtain ⟨increase, behind⟩ := ih (by omega) (sound accepted)
        have later : ∀ other ∈ indexedPlaces (visits addZippedDir.readRecord count
            (headerOver content place old,
              ⟨content, place + (headerOver content place old).span, false⟩)), place < other := by
          intro other inside
          have far := behind other inside
          omega
        rw [show places = indexedPlaces _ from rfl, more, indexedPlaces, List.filter_cons]
        split
        · rw [List.map_cons, here]
          refine ⟨List.pairwise_cons.mpr ⟨later, increase⟩, fun other inside => ?_⟩
          rcases List.mem_cons.mp inside with rfl | rest
          · exact le_rfl
          · exact (later other rest).le
        · exact ⟨increase, fun other inside => (later other inside).le⟩
      · rw [if_neg cut, not_and] at sound
        have none : (visits addZippedDir.readRecord (count + 1) (old, ⟨content, place, false⟩)).filter
            (fun visit => visit.2.1.Indexed) = [] := by
          rw [List.filter_eq_nil_iff]
          intro visit inside indexed
          exact sound accepted ((stale visit inside).1 ▸ of_decide_eq_true indexed)
        simp [places, indexedPlaces, none]

end Walk

end PackagedTask.Archive
