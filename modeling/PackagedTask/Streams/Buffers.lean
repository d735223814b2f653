import PackagedTask.Streams.Memory

namespace PackagedTask.Streams
namespace InputMemoryStream

def setCapacity (stream : InputMemoryStream) (newCapacity : Nat) : InputMemoryStream :=
  { stream with capacity := newCapacity % 2 ^ 32 }

def resetHead (stream : InputMemoryStream) : InputMemoryStream := { stream with head := 0 }

/-- Somebody writes the bytes from `getCurPosPtr()` on. -/
def fill (stream : InputMemoryStream) (bytes : List UInt8) : InputMemoryStream :=
  { stream with
    data := fun i =>
      if stream.head ≤ i then (bytes[i - stream.head]?).getD (stream.data i) else stream.data i }

/-- The copy constructor; `behind` is the memory behind the new allocation. -/
def copy (behind : Nat → UInt8) (other : InputMemoryStream) : InputMemoryStream :=
  { other with data := fun i => if i < other.capacity then other.data i else behind i }

theorem bytes_copy (behind : Nat → UInt8) (stream : InputMemoryStream) :
    (stream.copy behind).bytes 0 stream.capacity = stream.bytes 0 stream.capacity := by
  apply List.map_congr_left
  intro i member
  rw [Nat.zero_add]
  exact if_pos (List.mem_range.mp member)

theorem bytes_fill (stream : InputMemoryStream) (bytes : List UInt8) :
    (stream.fill bytes).bytes stream.head bytes.length = bytes := by
  apply List.ext_getElem
  · exact bytes_length _ _ _
  · intro i _ inside
    simp [InputMemoryStream.bytes, fill, inside]

end InputMemoryStream
end PackagedTask.Streams
