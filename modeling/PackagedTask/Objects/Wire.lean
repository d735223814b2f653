import PackagedTask.Objects.Loading

namespace PackagedTask.Objects
open Streams Library Library.StateError

/-! The byte format the two `write` functions share, stated on its own, and that `read` inverts
it. -/

def word (value : Nat) : List UInt8 := LittleEndian.encode 4 value

def signedWord (value : Int) : List UInt8 := word (value % 2 ^ 32).toNat

inductive Record
  | component (id : Nat) (owner : Option Nat)
  | gameObject (id : Nat) (components : List (Int × Nat))
  deriving DecidableEq, Repr

namespace Record

def id : Record → Nat
  | .component id _ => id
  | .gameObject id _ => id

def classID : Record → Int
  | .component _ _ => classComponent
  | .gameObject _ _ => classGameObject

def payload : Record → List UInt8
  | .component _ none => signedWord 0
  | .component _ (some owner) => signedWord 1 ++ word owner
  | .gameObject _ components =>
      word components.length ++ components.flatMap fun entry => signedWord entry.1 ++ word entry.2

def encode (record : Record) : List UInt8 :=
  signedWord record.classID ++ (word record.id ++ record.payload)

def placeholders (components : List (Int × Nat)) : ComponentMap → ComponentMap :=
  components.foldl fun table entry => table.insert entry.1 (.placeholder entry.2)

def toObject : Record → Object
  | .component id none => { mInstanceId := id, body := .component .null }
  | .component id (some owner) => { mInstanceId := id, body := .component (.ofFileId owner) }
  | .gameObject id components =>
      { mInstanceId := id, body := .gameObject (placeholders components ∅) }

def FitsInt32 (value : Int) : Prop := -2 ^ 31 ≤ value ∧ value < 2 ^ 31

def Fits : Record → Prop
  | .component id owner => id < 2 ^ 32 ∧ ∀ value, owner = some value → value < 2 ^ 32
  | .gameObject id components => id < 2 ^ 32 ∧ components.length < 2 ^ 32 ∧
      ∀ entry ∈ components, FitsInt32 entry.1 ∧ entry.2 < 2 ^ 32

end Record

@[simp] theorem word_length (value : Nat) : (word value).length = 4 :=
  LittleEndian.encode_length 4 value

@[simp] theorem signedWord_length (value : Int) : (signedWord value).length = 4 := word_length _

theorem decode_word {value : Nat} (fits : value < 2 ^ 32) : LittleEndian.decode (word value) = value :=
  LittleEndian.decode_encode_of_lt fits

theorem toInt32_decode_signedWord {value : Int} (fits : Record.FitsInt32 value) :
    toInt32 (LittleEndian.decode (signedWord value)) = value := by
  have range : (value % 2 ^ 32).toNat < 2 ^ 32 := by omega
  obtain ⟨low, high⟩ := fits
  rw [signedWord, decode_word range, toInt32]
  have cast : ((value % 2 ^ 32).toNat : Int) = value % 2 ^ 32 := by omega
  rw [cast, show ((2 : Int) ^ 32) = ((2 ^ 32 : Nat) : Int) by norm_num, Int.emod_bmod]
  exact Int.bmod_eq_of_le (by omega) (by omega)

theorem readWord_holds {stream : InputMemoryStream} {value : Nat} {rest : List UInt8}
    (fits : value < 2 ^ 32) (holds : Holds stream (word value ++ rest)) :
    readWord 4 stream = .ok value (advance stream 4) ∧ Holds (advance stream 4) rest := by
  obtain ⟨ran, later⟩ := read_holds 4 (by simp) holds
  rw [word_length] at ran later
  refine ⟨?_, later⟩
  rw [readWord, bind_of_ok ran, pure_apply, decode_word fits]

theorem readInt32_holds {stream : InputMemoryStream} {rest : List UInt8} (value : Int)
    (fits : Record.FitsInt32 value) (holds : Holds stream (signedWord value ++ rest)) :
    readInt32 stream = .ok value (advance stream 4) ∧ Holds (advance stream 4) rest := by
  have range : (value % 2 ^ 32).toNat < 2 ^ 32 := by omega
  obtain ⟨ran, later⟩ := readWord_holds range holds
  refine ⟨?_, later⟩
  rw [readInt32, bind_of_ok ran, pure_apply]
  have same := toInt32_decode_signedWord fits
  rw [signedWord, decode_word range] at same
  rw [same]

theorem readComponents_holds {components : List (Int × Nat)} {stream : InputMemoryStream}
    {rest : List UInt8} (table : ComponentMap)
    (fits : ∀ entry ∈ components, Record.FitsInt32 entry.1 ∧ entry.2 < 2 ^ 32)
    (holds : Holds stream
      ((components.flatMap fun entry => signedWord entry.1 ++ word entry.2) ++ rest)) :
    GameObject.readComponents components.length table stream =
        .ok (Record.placeholders components table) (advance stream (8 * components.length)) ∧
      Holds (advance stream (8 * components.length)) rest := by
  induction components generalizing stream table with
  | nil => exact ⟨rfl, holds⟩
  | cons entry components ih =>
      rw [List.flatMap_cons, List.append_assoc, List.append_assoc] at holds
      obtain ⟨keyFits, idFits⟩ := fits entry List.mem_cons_self
      obtain ⟨readKey, afterKey⟩ := readInt32_holds _ keyFits holds
      obtain ⟨readId, afterId⟩ := readWord_holds idFits afterKey
      obtain ⟨readRest, afterRest⟩ := ih (table.insert entry.1 (.placeholder entry.2))
        (fun e member => fits e (List.mem_cons_of_mem _ member)) afterId
      simp only [advance_advance] at readRest afterRest readId
      have total : 4 + 4 + 8 * components.length = 8 * (components.length + 1) := by ring
      rw [total] at readRest afterRest
      refine ⟨?_, afterRest⟩
      rw [List.length_cons, GameObject.readComponents, bind_of_ok readKey, bind_of_ok readId]
      exact readRest

theorem components_length (components : List (Int × Nat)) :
    (components.flatMap fun entry => signedWord entry.1 ++ word entry.2).length =
      8 * components.length := by
  induction components with
  | nil => rfl
  | cons entry components ih =>
      rw [List.flatMap_cons, List.length_append, ih, List.length_append, List.length_cons]
      simp only [signedWord_length, word_length]
      ring

theorem Record.classID_fits (record : Record) : FitsInt32 record.classID := by
  cases record <;> simp [Record.classID, FitsInt32, classComponent, classGameObject]

theorem Record.encode_length_pos (record : Record) : 8 ≤ record.encode.length := by
  simp only [Record.encode, List.length_append, signedWord_length, word_length]
  omega

theorem component_read_holds {stream : InputMemoryStream} {id : Nat} {owner : Option Nat}
    {rest : List UInt8} (fits : (Record.component id owner).Fits)
    (holds : Holds stream ((Record.component id owner).encode ++ rest)) :
    Component.read stream = .ok (Record.component id owner).toObject
        (advance stream (Record.component id owner).encode.length) ∧
      Holds (advance stream (Record.component id owner).encode.length) rest := by
  have later := holds.split.2.2
  refine ⟨?_, later⟩
  rw [Record.encode, List.append_assoc, List.append_assoc] at holds
  obtain ⟨readClass, afterClass⟩ := readInt32_holds _ (Record.classID_fits _) holds
  obtain ⟨readId, afterId⟩ := readWord_holds fits.1 afterClass
  simp only [advance_advance, Nat.reduceAdd] at readId afterId
  rw [Component.read, bind_of_ok readClass, bind_of_ok readId]
  cases owner with
  | none =>
      rw [← List.append_nil (Record.payload _), List.append_assoc] at afterId
      obtain ⟨readFlag, -⟩ := readInt32_holds 0 (by simp [Record.FitsInt32]) afterId
      rw [bind_of_ok readFlag]
      simp [advance, Record.toObject, Record.encode, Record.payload, Nat.add_assoc]
  | some value =>
      rw [Record.payload, List.append_assoc] at afterId
      obtain ⟨readFlag, afterFlag⟩ :=
        readInt32_holds 1 (by simp [Record.FitsInt32]) afterId
      obtain ⟨readOwner, -⟩ := readWord_holds (fits.2 value rfl) afterFlag
      rw [bind_of_ok readFlag]
      simp only [ne_eq, one_ne_zero, not_false_eq_true, ↓reduceIte]
      rw [bind_of_ok readOwner]
      simp [advance, Record.toObject, Record.encode, Record.payload, Nat.add_assoc]

theorem gameObject_read_holds {stream : InputMemoryStream} {id : Nat}
    {components : List (Int × Nat)} {rest : List UInt8}
    (fits : (Record.gameObject id components).Fits)
    (holds : Holds stream ((Record.gameObject id components).encode ++ rest)) :
    GameObject.read stream = .ok (Record.gameObject id components).toObject
        (advance stream (Record.gameObject id components).encode.length) ∧
      Holds (advance stream (Record.gameObject id components).encode.length) rest := by
  have later := holds.split.2.2
  refine ⟨?_, later⟩
  obtain ⟨idFits, countFits, entriesFit⟩ := fits
  rw [Record.encode, List.append_assoc, List.append_assoc, Record.payload, List.append_assoc]
    at holds
  obtain ⟨readClass, afterClass⟩ := readInt32_holds _ (Record.classID_fits _) holds
  obtain ⟨readId, afterId⟩ := readWord_holds idFits afterClass
  obtain ⟨readSize, afterSize⟩ := readWord_holds countFits afterId
  obtain ⟨readEntries, -⟩ := readComponents_holds ∅ entriesFit afterSize
  rw [GameObject.read, bind_of_ok readClass, bind_of_ok readId, bind_of_ok readSize,
    bind_of_ok readEntries]
  simp only [pure_apply, advance_advance, Record.toObject, Record.encode, Record.payload,
    List.length_append, signedWord_length, word_length, components_length, Nat.add_assoc]

theorem peek_holds {stream : InputMemoryStream} {record : Record} {rest : List UInt8}
    (holds : Holds stream (record.encode ++ rest)) :
    toInt32 (LittleEndian.decode (stream.peek 4)) = record.classID := by
  rw [Record.encode, List.append_assoc] at holds
  have same := holds.split.1
  rw [signedWord_length] at same
  rw [InputMemoryStream.peek, same, toInt32_decode_signedWord (Record.classID_fits record)]

theorem nextObject_holds {stream : InputMemoryStream} {record : Record} {rest : List UInt8}
    (fits : record.Fits) (holds : Holds stream (record.encode ++ rest)) :
    nextObject stream = .ok record.toObject (advance stream record.encode.length) ∧
      Holds (advance stream record.encode.length) rest := by
  refine ⟨?_, holds.split.2.2⟩
  have class_eq := peek_holds holds
  rw [nextObject, bind_of_ok (get_apply stream)]
  simp only [class_eq]
  cases record with
  | component id owner =>
      have known : s_mClassIDToRttiMap.lookup (Record.component id owner).classID =
          some ⟨classObject, "Component", .component .null⟩ := lookup_registry classComponent
      rw [bind_of_ok (classIDToRTTI_ok_iff.mpr ⟨known, rfl⟩)]
      exact (component_read_holds fits holds).1
  | gameObject id components =>
      have known : s_mClassIDToRttiMap.lookup (Record.gameObject id components).classID =
          some ⟨classObject, "GameObject", .gameObject ∅⟩ := lookup_registry classGameObject
      rw [bind_of_ok (classIDToRTTI_ok_iff.mpr ⟨known, rfl⟩)]
      exact (gameObject_read_holds fits holds).1

theorem remaining_of_le {stream : InputMemoryStream} (inside : stream.head ≤ stream.capacity)
    (small : stream.capacity < 2 ^ 31) :
    stream.getRemainingDataSize = (stream.capacity : Int) - stream.head := by
  unfold InputMemoryStream.getRemainingDataSize toInt32
  exact Int.bmod_eq_of_le (by omega) (by omega)

theorem decodes_records {records : List Record} {stream : InputMemoryStream}
    (fits : ∀ record ∈ records, record.Fits) (small : stream.capacity < 2 ^ 31)
    (holds : Holds stream (records.flatMap Record.encode)) :
    Decodes stream (records.map Record.toObject)
      (advance stream (records.flatMap Record.encode).length) := by
  induction records generalizing stream with
  | nil => exact .nil stream
  | cons record records ih =>
      rw [List.flatMap_cons] at holds ⊢
      obtain ⟨read, later⟩ := nextObject_holds (fits record List.mem_cons_self) holds
      have others := ih (fun r member => fits r (List.mem_cons_of_mem _ member))
        (show (advance stream record.encode.length).capacity < 2 ^ 31 from small) later
      rw [advance_advance, ← List.length_append] at others
      refine .cons ?_ read others
      have inside := holds.2.1
      have positive := record.encode_length_pos
      rw [List.length_append] at inside
      rw [remaining_of_le (by omega) small]
      omega

theorem encode_length_le {records : List Record} {record : Record} (member : record ∈ records) :
    record.encode.length ≤ (records.flatMap Record.encode).length := by
  obtain ⟨front, back, rfl⟩ := List.append_of_mem member
  simp only [List.flatMap_append, List.flatMap_cons, List.length_append]
  omega

theorem records_length_le (records : List Record) :
    8 * records.length ≤ (records.flatMap Record.encode).length := by
  induction records with
  | nil => simp
  | cons record records ih =>
      have positive := record.encode_length_pos
      simp only [List.flatMap_cons, List.length_append, List.length_cons]
      omega

end PackagedTask.Objects
