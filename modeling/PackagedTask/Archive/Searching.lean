import PackagedTask.Archive.Foreign

namespace PackagedTask.Archive
open Library Packed FileStream

/-! Which offsets the search for the end record probes, and which one it selects. -/

def findEOCD.probes : Nat → FileStream → List Nat
  | 0, _ => []
  | offset + 1, ifs =>
      let result := (ifs.seek (offset + 1)).read (List.replicate 4 0)
      if LittleEndian.decode result.1 = endSignature then [offset + 1]
      else (offset + 1) :: probes offset result.2

def SignedAt (content : Bytes) (offset : Nat) : Prop :=
  LittleEndian.decode (wordAt content offset) = endSignature

instance (content : Bytes) (offset : Nat) : Decidable (SignedAt content offset) :=
  inferInstanceAs (Decidable (_ = _))

/-- A signature whose record lies inside the file. -/
def RecordAt (content : Bytes) (offset : Nat) : Prop :=
  SignedAt content offset ∧ offset + 4 + EOCD.format.size ≤ content.length

/-- What both callers get: the offset behind the signature, or 0. -/
def EOCD_offset (content : Bytes) : Nat :=
  (findEOCD (scanStart content.length) ⟨content, content.length, false⟩).1

/-- The search probes nothing beyond the file and selects the last end record. -/
structure ExactSearch (content : Bytes) : Prop where
  inside : ∀ offset ∈ findEOCD.probes (scanStart content.length) ⟨content, content.length, false⟩,
    offset + 4 ≤ content.length
  selected : (∃ offset, IsGreatest {offset | RecordAt content offset} offset ∧
      EOCD_offset content = offset + 4) ∨
    ((∀ offset, ¬ RecordAt content offset) ∧ EOCD_offset content = 0)

/-- The loop comes to this offset, unless it stops before. -/
def Reaches (content : Bytes) (offset : Nat) : Prop :=
  0 < offset ∧ offset + EOCD.format.size ≤ content.length ∧
    content.length - EOCD.format.size < 2 ^ 63

structure Searchable (content : Bytes) : Prop where
  long : EOCD.format.size ≤ content.length
  complete : ∀ offset, Reaches content offset → SignedAt content offset → RecordAt content offset
  later : (∃ offset, RecordAt content offset) →
    ∃ offset, Reaches content offset ∧ RecordAt content offset

section Search
variable {content behind ahead : Bytes} {start : Nat}

def Selects (content : Bytes) (start result : Nat) : Prop :=
  (∃ offset, 0 < offset ∧ offset ≤ start ∧ SignedAt content offset ∧
      (∀ later, offset < later → later ≤ start → ¬ SignedAt content later) ∧
      result = offset + 4) ∨
    ((∀ offset, 0 < offset → offset ≤ start → ¬ SignedAt content offset) ∧ result = 0)

theorem findEOCD_selects (same : behind ++ ahead = content) (inside : start + 4 ≤ content.length)
    (small : start < 2 ^ 63) : Selects content start (findEOCD start (between behind ahead)).1 := by
  induction start generalizing behind ahead with
  | zero => exact .inr ⟨fun offset positive least => absurd positive (by omega), rfl⟩
  | succ start ih =>
      rw [findEOCD_probe same (by omega) small]
      dsimp only
      by_cases signed : LittleEndian.decode (wordAt content (start + 1)) = endSignature
      · rw [if_pos signed]
        refine .inl ⟨start + 1, Nat.succ_pos _, le_rfl, signed, ?_, rfl⟩
        intro later behind before
        omega
      · rw [if_neg signed]
        have below (later : Nat) (least : later ≤ start + 1) (more : ¬ later ≤ start) :
            ¬ SignedAt content later := by
          obtain rfl : later = start + 1 := by omega
          exact signed
        rcases ih (List.take_append_drop _ _) (by omega) (by omega) with
          ⟨offset, positive, least, found, last, result⟩ | ⟨none, result⟩
        · refine .inl ⟨offset, positive, by omega, found, fun later behind before => ?_, result⟩
          by_cases inner : later ≤ start
          · exact last later behind inner
          · exact below later before inner
        · refine .inr ⟨fun offset positive least => ?_, result⟩
          by_cases inner : offset ≤ start
          · exact none offset positive inner
          · exact below offset least inner

theorem findEOCD_failed {ifs : FileStream} (failed : ifs.failed = true) :
    (findEOCD start ifs).1 = 0 := by
  induction start with
  | zero => rfl
  | succ start ih =>
      have still : (ifs.seek (start + 1)).read (List.replicate 4 0) = (List.replicate 4 0, ifs) := by
        rw [FileStream.seek, if_pos failed, FileStream.read, if_pos failed]
      rw [findEOCD, still]
      dsimp only
      rw [if_neg (by decide)]
      exact ih

theorem findEOCD_beyond {ifs : FileStream} (big : 2 ^ 63 ≤ start) : (findEOCD start ifs).1 = 0 := by
  obtain ⟨start, rfl⟩ : ∃ before, start = before + 1 := ⟨start - 1, by omega⟩
  by_cases failed : ifs.failed = true
  · exact findEOCD_failed failed
  · have lost : (ifs.seek (start + 1)).read (List.replicate 4 0) =
        (List.replicate 4 0, { ifs with failed := true }) := by
      rw [FileStream.seek, if_neg failed, if_neg (by omega), FileStream.read, if_pos rfl]
    rw [findEOCD, lost]
    dsimp only
    rw [if_neg (by decide)]
    exact findEOCD_failed rfl

theorem probes_le {ifs : FileStream} : ∀ offset ∈ findEOCD.probes start ifs, offset ≤ start := by
  induction start generalizing ifs with
  | zero => simp [findEOCD.probes]
  | succ start ih =>
      rw [findEOCD.probes]
      split
      · simp
      · intro offset probed
        rcases List.mem_cons.mp probed with rfl | later
        · exact le_rfl
        · exact (ih offset later).trans (Nat.le_succ _)

theorem start_mem_probes {ifs : FileStream} (positive : 0 < start) :
    start ∈ findEOCD.probes start ifs := by
  obtain ⟨start, rfl⟩ : ∃ before, start = before + 1 := ⟨start - 1, by omega⟩
  rw [findEOCD.probes]
  split <;> exact List.mem_cons_self

theorem inside_iff : (∀ offset ∈ findEOCD.probes (scanStart content.length)
    ⟨content, content.length, false⟩, offset + 4 ≤ content.length) ↔
    EOCD.format.size ≤ content.length := by
  rw [show EOCD.format.size = 18 from rfl]
  constructor
  · intro inside
    by_contra short
    have start : scanStart content.length = content.length + 2 ^ 64 - 18 :=
      if_pos (not_le.mp short)
    have first := inside _ (start_mem_probes (by omega))
    omega
  · intro long offset probed
    have least := probes_le offset probed
    rw [scanStart, show EOCD.format.size = 18 from rfl, if_neg (by omega)] at least
    omega

theorem EOCD_offset_selects (long : EOCD.format.size ≤ content.length) :
    (∃ offset, Reaches content offset ∧ SignedAt content offset ∧
      (∀ later, offset < later → Reaches content later → ¬ SignedAt content later) ∧
      EOCD_offset content = offset + 4) ∨
    ((∀ offset, Reaches content offset → ¬ SignedAt content offset) ∧ EOCD_offset content = 0) := by
  have start : scanStart content.length = content.length - EOCD.format.size :=
    if_neg (by omega)
  have reached (offset : Nat) (small : content.length - EOCD.format.size < 2 ^ 63) :
      Reaches content offset ↔ 0 < offset ∧ offset ≤ content.length - EOCD.format.size := by
    simp only [Reaches, small, and_true]
    omega
  by_cases small : content.length - EOCD.format.size < 2 ^ 63
  · have selects := @findEOCD_selects content content [] (content.length - EOCD.format.size)
      (List.append_nil _) (by rw [show EOCD.format.size = 18 from rfl] at *; omega) small
    rw [EOCD_offset, start, EndsWith.opened]
    simp only [reached _ small]
    rcases selects with ⟨offset, positive, least, found, last, result⟩ | ⟨none, result⟩
    · exact .inl ⟨offset, ⟨positive, least⟩, found, fun later behind here => last later behind here.2,
        result⟩
    · exact .inr ⟨fun offset here => none offset here.1 here.2, result⟩
  · refine .inr ⟨fun offset here => absurd here.2.2 small, ?_⟩
    rw [EOCD_offset, start]
    exact findEOCD_beyond (not_lt.mp small)

theorem unfound (env : Environment) (file : File) (missing : EOCD_offset content = 0) :
    addZippedDir.visited content = [] ∧
      addFileToZIP.update env file ⟨content, content.length, false⟩ = none := by
  rw [EOCD_offset] at missing
  constructor
  · rw [addZippedDir.visited]
    exact if_pos missing
  · rw [addFileToZIP.update]
    exact if_pos missing

end Search

theorem exactSearch_iff (content : Bytes) : ExactSearch content ↔ Searchable content := by
  constructor
  · rintro ⟨inside, selected⟩
    have long := inside_iff.mp inside
    constructor
    · exact long
    · intro offset reached signed
      rcases EOCD_offset_selects long with ⟨chosen, -, -, last, result⟩ | ⟨none, -⟩
      · rcases selected with ⟨greatest, ⟨record, -⟩, same⟩ | ⟨-, zero⟩
        · obtain rfl : greatest = chosen := by omega
          have before : offset ≤ greatest := by
            by_contra behind
            exact last offset (not_le.mp behind) reached signed
          exact ⟨signed, le_trans (by omega) record.2⟩
        · omega
      · exact absurd signed (none offset reached)
    · rintro ⟨offset, record⟩
      rcases selected with ⟨greatest, ⟨found, -⟩, same⟩ | ⟨none, -⟩
      · rcases EOCD_offset_selects long with ⟨chosen, reached, -, -, result⟩ | ⟨-, zero⟩
        · obtain rfl : greatest = chosen := by omega
          exact ⟨greatest, reached, found⟩
        · omega
      · exact absurd record (none offset)
  · rintro ⟨long, complete, later⟩
    refine ⟨inside_iff.mpr long, ?_⟩
    rcases EOCD_offset_selects long with ⟨chosen, reached, signed, last, result⟩ | ⟨none, zero⟩
    · refine .inl ⟨chosen, ⟨complete chosen reached signed, fun offset record => ?_⟩, result⟩
      by_contra behind
      have ahead : chosen < offset := not_le.mp behind
      refine last offset ahead ⟨by omega, ?_, reached.2.2⟩ record.1
      exact le_trans (by omega) record.2
    · refine .inr ⟨fun offset record => ?_, zero⟩
      obtain ⟨there, reached, found⟩ := later ⟨offset, record⟩
      exact none there reached found.1

def bareEnd : Bytes := endBytes {}

theorem bareEnd_missed : EOCD_offset bareEnd = 0 ∧ ¬ ExactSearch bareEnd := by
  have zero : EOCD_offset bareEnd = 0 := by decide
  refine ⟨zero, fun exact => ?_⟩
  rcases exact.selected with ⟨greatest, -, same⟩ | ⟨none, -⟩
  · omega
  · exact none 0 ⟨by decide, by decide⟩

end PackagedTask.Archive
