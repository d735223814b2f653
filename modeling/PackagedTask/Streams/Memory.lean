import PackagedTask.Library.LittleEndian
import PackagedTask.Library.StateError

namespace PackagedTask.Streams
open Library Library.StateError

/-- How a call can end other than by returning: `std::range_error`, `evnt::Exception`, or a step
whose behaviour the language leaves undefined. -/
inductive Fault
  | rangeError (text : String)
  | exception (text : String)
  | undefined
  deriving DecidableEq, Repr

structure OutputMemoryStream where
  buffer : List UInt8 := []
  deriving DecidableEq, Repr

namespace OutputMemoryStream

def getLength (stream : OutputMemoryStream) : Nat := stream.buffer.length % 2 ^ 32

def write (stream : OutputMemoryStream) (inData : List UInt8) : OutputMemoryStream :=
  { stream with buffer := stream.buffer ++ inData }

def writeWord (stream : OutputMemoryStream) (width value : Nat) : OutputMemoryStream :=
  stream.write (LittleEndian.encode width value)

def writeInt32 (stream : OutputMemoryStream) (value : Int) : OutputMemoryStream :=
  stream.writeWord 4 (value % 2 ^ 32).toNat

def writeString (stream : OutputMemoryStream) (inString : List UInt8) : OutputMemoryStream :=
  let elementCount := inString.length % 2 ^ 32
  (stream.writeWord 4 elementCount).write (inString.take elementCount)

end OutputMemoryStream

/-- `data` is the memory from `_data.get()` on; its first `capacity` bytes are the buffer. -/
structure InputMemoryStream where
  data : Nat → UInt8
  head : Nat
  capacity : Nat

/-- The value of the low 32 bits of `value`, read as `int32_t`. -/
def toInt32 (value : Int) : Int := value.bmod (2 ^ 32)

namespace InputMemoryStream

def bytes (stream : InputMemoryStream) (start count : Nat) : List UInt8 :=
  (List.range count).map fun i => stream.data (start + i)

def getRemainingDataSize (stream : InputMemoryStream) : Int :=
  toInt32 ((stream.capacity : Int) - stream.head)

/-- The bytes at `getCurPosPtr()`, which no check protects. -/
def peek (stream : InputMemoryStream) (count : Nat) : List UInt8 := stream.bytes stream.head count

end InputMemoryStream

abbrev Reader (α : Type) := EStateM Fault InputMemoryStream α

def read (inByteCount : UInt32) : Reader (List UInt8) := fun stream =>
  let resultHead := (stream.head + inByteCount.toNat) % 2 ^ 32
  if resultHead > stream.capacity then
    .error (.rangeError "InputMemoryStream::Read - no data to read!") stream
  else
    .ok (stream.bytes stream.head inByteCount.toNat) { stream with head := resultHead }

def readWord (width : UInt32) : Reader Nat := do
  let outData ← read width
  pure (LittleEndian.decode outData)

def readInt32 : Reader Int := do
  let outData ← readWord 4
  pure (toInt32 outData)

def readString : Reader (List UInt8) := do
  let elementCount ← readWord 4
  read (UInt32.ofNat elementCount)

theorem read_ok_iff {count : UInt32} {stream after : InputMemoryStream} {outData : List UInt8} :
    read count stream = .ok outData after ↔
      (stream.head + count.toNat) % 2 ^ 32 ≤ stream.capacity ∧
      outData = stream.bytes stream.head count.toNat ∧
      after = { stream with head := (stream.head + count.toNat) % 2 ^ 32 } := by
  unfold read
  simp only [gt_iff_lt]
  split
  · rename_i outside
    simp only [reduceCtorEq, false_iff, not_and]
    intro inside
    omega
  · rename_i inside
    simp only [EStateM.Result.ok.injEq]
    constructor
    · rintro ⟨rfl, rfl⟩
      exact ⟨by omega, rfl, rfl⟩
    · rintro ⟨-, rfl, rfl⟩
      exact ⟨rfl, rfl⟩

theorem read_error_iff {count : UInt32} {stream after : InputMemoryStream} {fault : Fault} :
    read count stream = .error fault after ↔
      stream.capacity < (stream.head + count.toNat) % 2 ^ 32 ∧
      fault = .rangeError "InputMemoryStream::Read - no data to read!" ∧ after = stream := by
  unfold read
  simp only [gt_iff_lt]
  split
  · rename_i outside
    simp only [EStateM.Result.error.injEq]
    exact ⟨fun ⟨h, h'⟩ => ⟨outside, h.symm, h'.symm⟩, fun ⟨_, h, h'⟩ => ⟨h.symm, h'.symm⟩⟩
  · rename_i inside
    simp only [reduceCtorEq, false_iff]
    exact fun h => inside h.1

theorem bytes_length (stream : InputMemoryStream) (start count : Nat) :
    (stream.bytes start count).length = count := by
  simp [InputMemoryStream.bytes]

theorem bytes_append (stream : InputMemoryStream) (start first second : Nat) :
    stream.bytes start (first + second) =
      stream.bytes start first ++ stream.bytes (start + first) second := by
  simp [InputMemoryStream.bytes, List.range_add, Function.comp_def, Nat.add_assoc]

/-- The bytes from the head on, all inside a buffer that 32-bit heads can address. -/
def Holds (stream : InputMemoryStream) (expected : List UInt8) : Prop :=
  stream.bytes stream.head expected.length = expected ∧
    stream.head + expected.length ≤ stream.capacity ∧ stream.capacity < 2 ^ 32

def advance (stream : InputMemoryStream) (count : Nat) : InputMemoryStream :=
  { stream with head := stream.head + count }

theorem advance_advance (stream : InputMemoryStream) (first second : Nat) :
    advance (advance stream first) second = advance stream (first + second) := by
  simp [advance, Nat.add_assoc]

theorem Holds.split {stream : InputMemoryStream} {first rest : List UInt8}
    (holds : Holds stream (first ++ rest)) :
    stream.bytes stream.head first.length = first ∧
      stream.head + first.length ≤ stream.capacity ∧ Holds (advance stream first.length) rest := by
  obtain ⟨same, inside, narrow⟩ := holds
  rw [List.length_append, bytes_append] at same
  rw [List.length_append] at inside
  obtain ⟨front, back⟩ := List.append_inj same (bytes_length _ _ _)
  exact ⟨front, by omega, back, by simp only [advance]; omega, narrow⟩

theorem read_holds {stream : InputMemoryStream} {expected rest : List UInt8} (count : UInt32)
    (size : count.toNat = expected.length) (holds : Holds stream (expected ++ rest)) :
    read count stream = .ok expected (advance stream expected.length) ∧
      Holds (advance stream expected.length) rest := by
  obtain ⟨same, inside, later⟩ := holds.split
  have narrow : stream.capacity < 2 ^ 32 := holds.2.2
  have sum : (stream.head + expected.length) % 2 ^ 32 = stream.head + expected.length :=
    Nat.mod_eq_of_lt (by omega)
  refine ⟨read_ok_iff.mpr ?_, later⟩
  rw [size, sum, same]
  exact ⟨inside, rfl, rfl⟩

def streamOf (bytes : List UInt8) : InputMemoryStream := ⟨fun i => bytes.getD i 0, 0, bytes.length⟩

structure Carries (stream : InputMemoryStream) (bytes : List UInt8) : Prop where
  head : stream.head = 0
  capacity : stream.capacity = bytes.length
  bytes : stream.bytes 0 bytes.length = bytes

theorem Carries.holds {stream : InputMemoryStream} {bytes : List UInt8}
    (carries : Carries stream bytes) (small : bytes.length < 2 ^ 32) : Holds stream bytes := by
  refine ⟨?_, ?_, ?_⟩
  · rw [carries.head]
    exact carries.bytes
  · rw [carries.head, carries.capacity, Nat.zero_add]
  · rw [carries.capacity]
    exact small

theorem streamOf_carries (bytes : List UInt8) : Carries (streamOf bytes) bytes := by
  refine ⟨rfl, rfl, ?_⟩
  apply List.ext_getElem
  · simp [bytes_length]
  · intro i _ inside
    simp [InputMemoryStream.bytes, streamOf, inside]

end PackagedTask.Streams
