import PackagedTask.Streams.Memory

namespace PackagedTask.Streams
open Library Library.StateError

/-- `sizeof(T)` of the arithmetic and enumeration types that `write` and `read` accept. -/
inductive Size
  | one
  | two
  | four
  | eight
  deriving DecidableEq, Repr

def Size.bytes : Size → UInt32
  | .one => 1
  | .two => 2
  | .four => 4
  | .eight => 8

def Size.width (size : Size) : Nat := size.bytes.toNat

inductive Kind
  | primitive (size : Size)
  | string
  deriving DecidableEq, Repr

/-- A primitive is its object representation, which `write` and `read` copy. -/
inductive Value
  | primitive (size : Size) (bits : BitVec (8 * size.width))
  | string (inString : List UInt8)

namespace Value

def kind : Value → Kind
  | .primitive size _ => .primitive size
  | .string _ => .string

def write (stream : OutputMemoryStream) : Value → OutputMemoryStream
  | .primitive size bits => stream.writeWord size.width bits.toNat
  | .string inString => stream.writeString inString

def encode : Value → List UInt8
  | .primitive size bits => LittleEndian.encode size.width bits.toNat
  | .string inString => LittleEndian.encode 4 inString.length ++ inString

end Value

def Kind.read : Kind → Reader Value
  | .primitive size => do
      let outData ← readWord size.bytes
      pure (.primitive size (BitVec.ofNat _ outData))
  | .string => do
      let inString ← readString
      pure (.string inString)

def writeValues (values : List Value) (stream : OutputMemoryStream) : OutputMemoryStream :=
  values.foldl Value.write stream

def readValues : List Kind → Reader (List Value)
  | [] => pure []
  | kind :: rest => do
      let value ← kind.read
      let others ← readValues rest
      pure (value :: others)

def Throws {α : Type} (reader : Reader α) (stream : InputMemoryStream) : Prop :=
  ∃ text after, reader stream = .error (.rangeError text) after

theorem Throws.bind {α β : Type} {reader : Reader α} {stream : InputMemoryStream}
    (throws : Throws reader stream) (next : α → Reader β) : Throws (reader >>= next) stream := by
  obtain ⟨text, after, stopped⟩ := throws
  exact ⟨text, after, bind_of_error stopped⟩

theorem Throws.after {α β : Type} {reader : Reader α} {stream after : InputMemoryStream} {a : α}
    {next : α → Reader β} (ran : reader stream = .ok a after) (throws : Throws (next a) after) :
    Throws (reader >>= next) stream := by
  rw [Throws, bind_of_ok ran]
  exact throws

section Writing

theorem writeString_short {inString : List UInt8} (stream : OutputMemoryStream)
    (short : inString.length < 2 ^ 32) :
    stream.writeString inString = stream.write (Value.string inString).encode := by
  rw [OutputMemoryStream.writeString, Nat.mod_eq_of_lt short, List.take_length]
  simp [OutputMemoryStream.writeWord, OutputMemoryStream.write, Value.encode]

theorem Value.write_eq {value : Value} (stream : OutputMemoryStream)
    (short : value.encode.length < 2 ^ 32) : value.write stream = stream.write value.encode := by
  cases value with
  | primitive size bits => rfl
  | string inString =>
      apply writeString_short
      simp only [Value.encode, List.length_append, LittleEndian.encode_length] at short
      omega

theorem writeValues_eq {values : List Value} (stream : OutputMemoryStream)
    (short : (values.flatMap Value.encode).length < 2 ^ 32) :
    writeValues values stream = stream.write (values.flatMap Value.encode) := by
  induction values generalizing stream with
  | nil => simp [writeValues, OutputMemoryStream.write]
  | cons value values ih =>
      rw [List.flatMap_cons, List.length_append] at short
      rw [writeValues, List.foldl_cons, Value.write_eq stream (by omega)]
      have others := ih (stream.write value.encode) (by omega)
      rw [writeValues] at others
      rw [others]
      simp [OutputMemoryStream.write]

end Writing

theorem Size.width_fits {size : Size} (bits : BitVec (8 * size.width)) :
    bits.toNat < 256 ^ size.width := by
  have small := bits.isLt
  rwa [pow_mul] at small

theorem Value.read_holds {value : Value} {stream : InputMemoryStream} {rest : List UInt8}
    (holds : Holds stream (value.encode ++ rest)) :
    value.kind.read stream = .ok value (advance stream value.encode.length) ∧
      Holds (advance stream value.encode.length) rest := by
  refine ⟨?_, holds.split.2.2⟩
  cases value with
  | primitive size bits =>
      have size_eq : size.bytes.toNat = (Value.primitive size bits).encode.length :=
        (LittleEndian.encode_length _ _).symm
      obtain ⟨ran, -⟩ := Streams.read_holds size.bytes size_eq holds
      have decoded : LittleEndian.decode (Value.primitive size bits).encode = bits.toNat :=
        LittleEndian.decode_encode_of_lt (Size.width_fits bits)
      have word : readWord size.bytes stream = .ok bits.toNat
          (advance stream (Value.primitive size bits).encode.length) := by
        rw [readWord, bind_of_ok ran, pure_apply, decoded]
      rw [Value.kind, Kind.read, bind_of_ok word, pure_apply, BitVec.ofNat_toNat,
        BitVec.setWidth_eq]
  | string inString =>
      rw [Value.encode, List.append_assoc] at holds
      have total := holds.2.1
      have narrow := holds.2.2
      simp only [List.length_append, LittleEndian.encode_length] at total
      have fits : inString.length < 256 ^ 4 := by omega
      obtain ⟨ranCount, later⟩ :=
        Streams.read_holds 4 (LittleEndian.encode_length 4 inString.length).symm holds
      rw [LittleEndian.encode_length] at ranCount later
      have count : readWord 4 stream = .ok inString.length (advance stream 4) := by
        rw [readWord, bind_of_ok ranCount, pure_apply, LittleEndian.decode_encode_of_lt fits]
      have size_eq : (UInt32.ofNat inString.length).toNat = inString.length :=
        UInt32.toNat_ofNat_of_lt' fits
      obtain ⟨ranBytes, -⟩ := Streams.read_holds (UInt32.ofNat inString.length) size_eq later
      have string : readString stream = .ok inString
          (advance (advance stream 4) inString.length) := by
        rw [readString, bind_of_ok count, ranBytes]
      rw [Value.kind, Kind.read, bind_of_ok string, pure_apply, advance_advance, Value.encode,
        List.length_append, LittleEndian.encode_length]

theorem readValues_holds {values : List Value} {stream : InputMemoryStream} {rest : List UInt8}
    (holds : Holds stream (values.flatMap Value.encode ++ rest)) :
    readValues (values.map Value.kind) stream =
      .ok values (advance stream (values.flatMap Value.encode).length) := by
  induction values generalizing stream with
  | nil => rfl
  | cons value values ih =>
      rw [List.flatMap_cons, List.append_assoc] at holds
      obtain ⟨ran, later⟩ := Value.read_holds holds
      have others := ih later
      rw [advance_advance] at others
      rw [List.map_cons, readValues, bind_of_ok ran, bind_of_ok others, pure_apply,
        List.flatMap_cons, List.length_append]

/-- The buffer ends after `part`, where the encoding would go on with `missing`. -/
structure Cut (stream : InputMemoryStream) (part missing : List UInt8) : Prop where
  holds : Holds stream part
  ends : stream.capacity = stream.head + part.length
  lost : missing ≠ []
  narrow : stream.head + (part ++ missing).length < 2 ^ 32

namespace Cut

variable {stream : InputMemoryStream} {part missing first rest : List UInt8}

theorem read_throws (cut : Cut stream part missing) {count : UInt32}
    (beyond : part.length < count.toNat) (within : count.toNat ≤ (part ++ missing).length) :
    Throws (read count) stream := by
  have narrow := cut.narrow
  have sum : (stream.head + count.toNat) % 2 ^ 32 = stream.head + count.toNat :=
    Nat.mod_eq_of_lt (by omega)
  refine ⟨_, _, read_error_iff.mpr ⟨?_, rfl, rfl⟩⟩
  rw [sum, cut.ends]
  omega

theorem readWord_throws (cut : Cut stream part missing) {width : UInt32}
    (beyond : part.length < width.toNat) (within : width.toNat ≤ (part ++ missing).length) :
    Throws (readWord width) stream :=
  (cut.read_throws beyond within).bind _

theorem behind (cut : Cut stream (first ++ part) missing) :
    Cut (advance stream first.length) part missing := by
  obtain ⟨holds, ends, lost, narrow⟩ := cut
  refine ⟨holds.split.2.2, ?_, lost, ?_⟩
  · simp only [advance, List.length_append] at ends ⊢
    omega
  · simp only [advance, List.length_append] at narrow ⊢
    omega

theorem cases (cut : Cut stream part missing) (whole : part ++ missing = first ++ rest) :
    part.length < first.length ∨
      ∃ part', part = first ++ part' ∧ part' ++ missing = rest ∧
        Cut (advance stream first.length) part' missing := by
  rcases List.append_eq_append_iff.mp whole with ⟨lost, rfl, rfl⟩ | ⟨part', rfl, rfl⟩
  · cases lost with
    | nil =>
        rw [List.append_nil] at whole ⊢
        have self : Cut stream (part ++ []) rest := by simpa using cut
        exact .inr ⟨[], (List.append_nil part).symm, rfl, self.behind⟩
    | cons byte lost =>
        left
        simp
  · exact .inr ⟨part', rfl, rfl, cut.behind⟩

end Cut

theorem Value.read_cut {value : Value} {stream : InputMemoryStream} {part missing rest : List UInt8}
    (cut : Cut stream part missing) (whole : part ++ missing = value.encode ++ rest)
    (inside : part.length < value.encode.length) : Throws value.kind.read stream := by
  have total : (part ++ missing).length = value.encode.length + rest.length := by
    rw [whole, List.length_append]
  cases value with
  | primitive size bits =>
      rw [Value.encode, LittleEndian.encode_length] at inside total
      have within : size.bytes.toNat ≤ (part ++ missing).length := Nat.le.intro total.symm
      exact (cut.readWord_throws inside within).bind _
  | string inString =>
      rw [Value.encode, List.append_assoc] at whole
      simp only [Value.encode, List.length_append, LittleEndian.encode_length] at inside total
      have width : (4 : UInt32).toNat = 4 := rfl
      apply Throws.bind
      rcases cut.cases whole with short | ⟨part', rfl, whole', cut'⟩
      · rw [LittleEndian.encode_length] at short
        exact (cut.readWord_throws (by omega) (by rw [List.length_append]; omega)).bind _
      · -- the count is whole, so the read of the characters is the one that stops
        have holds := cut.holds
        have narrow := cut.narrow
        simp only [List.length_append, LittleEndian.encode_length] at inside narrow total
        have fits : inString.length < 256 ^ 4 := by omega
        obtain ⟨ranCount, -⟩ :=
          Streams.read_holds 4 (LittleEndian.encode_length 4 inString.length).symm holds
        have count : readWord 4 stream = .ok inString.length
            (advance stream (LittleEndian.encode 4 inString.length).length) := by
          rw [readWord, bind_of_ok ranCount, pure_apply, LittleEndian.decode_encode_of_lt fits]
        have size_eq : (UInt32.ofNat inString.length).toNat = inString.length :=
          UInt32.toNat_ofNat_of_lt' fits
        refine Throws.after count (cut'.read_throws ?_ ?_)
        · rw [size_eq]
          omega
        · rw [size_eq, whole', List.length_append]
          omega

theorem readValues_cut {values : List Value} {stream : InputMemoryStream}
    {part missing : List UInt8} (cut : Cut stream part missing)
    (whole : part ++ missing = values.flatMap Value.encode) :
    Throws (readValues (values.map Value.kind)) stream := by
  induction values generalizing stream part with
  | nil => exact absurd (List.append_eq_nil_iff.mp whole).2 cut.lost
  | cons value values ih =>
      rw [List.flatMap_cons] at whole
      rw [List.map_cons, readValues]
      rcases cut.cases whole with inside | ⟨part', rfl, whole', cut'⟩
      · exact (Value.read_cut cut whole inside).bind _
      · exact Throws.after (Value.read_holds cut.holds).1 ((ih cut' whole').bind _)

/-- What reading back `values` owes, over a buffer that carries what `write` produced. -/
structure RoundTrips (values : List Value) : Prop where
  same : ∀ stream, Carries stream ((writeValues values {}).buffer.take
      (writeValues values {}).getLength) →
    ∃ after, readValues (values.map Value.kind) stream = .ok values after ∧
      after.getRemainingDataSize = 0 ∧ Throws (read 1) after
  cut : ∀ part missing, missing ≠ [] → part ++ missing = (writeValues values {}).buffer →
    ∀ stream, Carries stream part → Throws (readValues (values.map Value.kind)) stream

theorem typedRoundTrip (values : List Value)
    (short : (values.flatMap Value.encode).length < 2 ^ 31) : RoundTrips values := by
  have written : (writeValues values {}).buffer = values.flatMap Value.encode := by
    rw [writeValues_eq {} (by omega)]
    exact List.nil_append _
  have narrow : (values.flatMap Value.encode).length % 2 ^ 32 =
      (values.flatMap Value.encode).length := Nat.mod_eq_of_lt (by omega)
  constructor
  · intro stream carries
    rw [OutputMemoryStream.getLength, written, narrow, List.take_length] at carries
    have holds := carries.holds (by omega)
    rw [← List.append_nil (values.flatMap Value.encode)] at holds
    have ran := readValues_holds holds
    refine ⟨_, ran, ?_, ?_⟩
    · simp [InputMemoryStream.getRemainingDataSize, advance, carries.head, carries.capacity,
        toInt32]
    · refine ⟨_, _, read_error_iff.mpr ⟨?_, rfl, rfl⟩⟩
      simp only [advance, carries.head, carries.capacity, UInt32.toNat_one, Nat.zero_add]
      omega
  · intro part missing lost whole stream carries
    rw [written] at whole
    have total := congrArg List.length whole
    rw [List.length_append] at total
    have ends : stream.capacity = stream.head + part.length := by
      rw [carries.head, carries.capacity, Nat.zero_add]
    refine readValues_cut ⟨carries.holds (by omega), ends, lost, ?_⟩ whole
    rw [carries.head, List.length_append]
    omega

theorem typedRoundTrip_mixed :
    RoundTrips [.primitive .two 0xbeef, .string [0x61, 0x00], .primitive .eight 7, .string []] :=
  typedRoundTrip _ (by decide)

end PackagedTask.Streams
