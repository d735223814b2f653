import Mathlib

namespace PackagedTask.Library

/-- A binary file opened for reading and writing: one position for both, and a failure that, once
set, turns every later call into a no-op. -/
structure FileStream where
  bytes : List UInt8
  pos : Nat := 0
  failed : Bool := false
  deriving DecidableEq, Repr

namespace FileStream

/-- Offsets are signed 64-bit numbers. -/
def seek (stream : FileStream) (offset : Nat) : FileStream :=
  if stream.failed then stream
  else if offset < 2 ^ 63 then { stream with pos := offset }
  else { stream with failed := true }

def skip (stream : FileStream) (count : Nat) : FileStream := stream.seek (stream.pos + count)

/-- The position, or `-1` as an unsigned 64-bit number. -/
def tell (stream : FileStream) : Nat := if stream.failed then 2 ^ 64 - 1 else stream.pos

/-- Reads into a buffer that holds `buffer`; past the end of the file the old bytes stay. -/
def read (stream : FileStream) (buffer : List UInt8) : List UInt8 × FileStream :=
  if stream.failed then (buffer, stream)
  else
    let got := (stream.bytes.drop stream.pos).take buffer.length
    (got ++ buffer.drop got.length,
      { stream with pos := stream.pos + got.length, failed := got.length < buffer.length })

/-- Overwrites from the position on; a gap after the old end fills with zeros. -/
def write (stream : FileStream) (data : List UInt8) : FileStream :=
  if stream.failed || data.isEmpty then stream
  else
    let gap := List.replicate (stream.pos - stream.bytes.length) 0
    { stream with
      bytes := stream.bytes.take stream.pos ++ gap ++ data ++
        stream.bytes.drop (stream.pos + data.length)
      pos := stream.pos + data.length }

theorem seek_failed {stream : FileStream} (failed : stream.failed = true) (offset : Nat) :
    stream.seek offset = stream := by
  rw [seek, if_pos failed]

theorem read_failed {stream : FileStream} (failed : stream.failed = true) (buffer : List UInt8) :
    stream.read buffer = (buffer, stream) := by
  rw [FileStream.read, if_pos failed]

theorem write_failed {stream : FileStream} (failed : stream.failed = true) (data : List UInt8) :
    stream.write data = stream := by
  rw [write, failed, Bool.true_or, if_pos rfl]

theorem seek_bytes (stream : FileStream) (offset : Nat) :
    (stream.seek offset).bytes = stream.bytes := by
  unfold seek
  split
  · rfl
  · split <;> rfl

theorem read_bytes (stream : FileStream) (buffer : List UInt8) :
    (stream.read buffer).2.bytes = stream.bytes := by
  unfold read
  split <;> rfl

theorem read_length (stream : FileStream) (buffer : List UInt8) :
    (stream.read buffer).1.length = buffer.length := by
  unfold read
  split
  · rfl
  · simp only [List.length_append, List.length_take, List.length_drop]
    omega

/-- A stream in order, between the bytes behind its position and those ahead. -/
def between (behind ahead : List UInt8) : FileStream := ⟨behind ++ ahead, behind.length, false⟩

variable {behind ahead : List UInt8}

@[simp] theorem between_bytes : (between behind ahead).bytes = behind ++ ahead := rfl

@[simp] theorem between_tell : (between behind ahead).tell = behind.length := rfl

theorem between_seek {behind' ahead' : List UInt8} (same : behind ++ ahead = behind' ++ ahead')
    {offset : Nat} (place : offset = behind'.length) (small : offset < 2 ^ 63) :
    (between behind ahead).seek offset = between behind' ahead' := by
  unfold seek between
  rw [if_neg Bool.false_ne_true, if_pos small, same, place]

theorem between_skip {first : List UInt8} {count : Nat} (size : count = first.length)
    (small : behind.length + count < 2 ^ 63) :
    (between behind (first ++ ahead)).skip count = between (behind ++ first) ahead :=
  between_seek (by rw [List.append_assoc]) (by rw [List.length_append, size]; rfl) small

theorem between_read {first buffer : List UInt8} (size : buffer.length = first.length) :
    (between behind (first ++ ahead)).read buffer = (first, between (behind ++ first) ahead) := by
  have got : ((behind ++ (first ++ ahead)).drop behind.length).take buffer.length = first := by
    rw [List.drop_left, size, List.take_left]
  have whole : buffer.drop first.length = [] := by rw [← size, List.drop_length]
  unfold read between
  rw [if_neg Bool.false_ne_true]
  dsimp only
  rw [got, whole, List.append_nil, size, decide_eq_false (lt_irrefl _), List.length_append,
    List.append_assoc]

theorem between_write (data : List UInt8) : (between behind ahead).write data =
    between (behind ++ data) (ahead.drop data.length) := by
  unfold write between
  cases data with
  | nil => simp
  | cons byte data =>
      have inside : behind.length - (behind ++ ahead).length = 0 := by simp
      rw [Bool.false_or, List.isEmpty_cons, if_neg Bool.false_ne_true]
      dsimp only
      rw [inside, List.replicate_zero, List.append_nil, List.take_left, List.drop_length_add_append,
        List.length_append]

theorem between_write_write (first second : List UInt8) :
    ((between behind ahead).write first).write second =
      (between behind ahead).write (first ++ second) := by
  rw [between_write, between_write, between_write, List.drop_drop, List.length_append,
    List.append_assoc]

section Position
variable {bytes buffer : List UInt8} {pos offset count : Nat}

theorem seek_at (small : offset < 2 ^ 63) :
    (⟨bytes, pos, false⟩ : FileStream).seek offset = ⟨bytes, offset, false⟩ := by
  rw [seek, if_neg Bool.false_ne_true, if_pos small]

theorem skip_at (small : pos + count < 2 ^ 63) :
    (⟨bytes, pos, false⟩ : FileStream).skip count = ⟨bytes, pos + count, false⟩ := seek_at small

theorem read_at (full : buffer.length ≤ (bytes.drop pos).length) :
    (⟨bytes, pos, false⟩ : FileStream).read buffer =
      ((bytes.drop pos).take buffer.length, ⟨bytes, pos + buffer.length, false⟩) := by
  rw [FileStream.read, if_neg Bool.false_ne_true]
  dsimp only
  rw [List.length_take_of_le full, List.drop_length, List.append_nil, decide_eq_false (lt_irrefl _)]

theorem read_short (cut : (bytes.drop pos).length < buffer.length) :
    ((⟨bytes, pos, false⟩ : FileStream).read buffer).2.failed = true := by
  rw [FileStream.read, if_neg Bool.false_ne_true]
  dsimp only
  rw [List.take_of_length_le cut.le]
  exact decide_eq_true cut

end Position

end FileStream
end PackagedTask.Library
