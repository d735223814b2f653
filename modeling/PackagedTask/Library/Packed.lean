import PackagedTask.Library.FileStream
import PackagedTask.Library.LittleEndian

namespace PackagedTask.Library.Packed

/-! Packed records of little-endian words: a layout lists the widths of the words in bytes. -/

def size (layout : List Nat) : Nat := layout.sum

def encode : List Nat → List Nat → List UInt8
  | width :: layout, value :: values => LittleEndian.encode width value ++ encode layout values
  | _, _ => []

def decode : List Nat → List UInt8 → List Nat
  | [], _ => []
  | width :: layout, bytes =>
      LittleEndian.decode (bytes.take width) :: decode layout (bytes.drop width)

def Fits : List Nat → List Nat → Prop
  | [], [] => True
  | width :: layout, value :: values => value < 256 ^ width ∧ Fits layout values
  | _, _ => False

theorem encode_length {layout values : List Nat} (fits : Fits layout values) :
    (encode layout values).length = size layout := by
  induction layout generalizing values with
  | nil =>
      cases values with
      | nil => rfl
      | cons value values => exact fits.elim
  | cons width layout ih =>
      cases values with
      | nil => exact fits.elim
      | cons value values =>
          rw [encode, List.length_append, LittleEndian.encode_length, ih fits.2, size, size,
            List.sum_cons]

theorem decode_encode {layout values : List Nat} (fits : Fits layout values) :
    decode layout (encode layout values) = values := by
  induction layout generalizing values with
  | nil =>
      cases values with
      | nil => rfl
      | cons value values => exact fits.elim
  | cons width layout ih =>
      cases values with
      | nil => exact fits.elim
      | cons value values =>
          have front := LittleEndian.encode_length width value
          have first : (LittleEndian.encode width value ++ encode layout values).take width =
              LittleEndian.encode width value := List.take_left' front
          have rest : (LittleEndian.encode width value ++ encode layout values).drop width =
              encode layout values := List.drop_left' front
          rw [encode, decode, first, rest, LittleEndian.decode_encode_of_lt fits.1, ih fits.2]

/-- A record type kept in a packed layout. -/
structure Format (α : Type) where
  layout : List Nat
  words : α → List Nat
  ofWords : List Nat → α
  fits : ∀ record, Fits layout (words record)
  ofWords_words : ∀ record, ofWords (words record) = record

namespace Format
variable {α : Type} (format : Format α)

def size : Nat := Packed.size format.layout

def toBytes (record : α) : List UInt8 := Packed.encode format.layout (format.words record)

def ofBytes (bytes : List UInt8) : α := format.ofWords (Packed.decode format.layout bytes)

/-- Reads over a record; past the end of the file its old bytes stay. -/
def read (stream : FileStream) (record : α) : α × FileStream :=
  let result := stream.read (format.toBytes record)
  (format.ofBytes result.1, result.2)

theorem toBytes_length (record : α) : (format.toBytes record).length = format.size :=
  encode_length (format.fits record)

theorem ofBytes_toBytes (record : α) : format.ofBytes (format.toBytes record) = record := by
  rw [ofBytes, toBytes, decode_encode (format.fits record), format.ofWords_words]

theorem read_between {behind ahead : List UInt8} (record old : α) :
    format.read (.between behind (format.toBytes record ++ ahead)) old =
      (record, .between (behind ++ format.toBytes record) ahead) := by
  have sizes : (format.toBytes old).length = (format.toBytes record).length := by
    rw [toBytes_length, toBytes_length]
  rw [read, FileStream.between_read sizes]
  simp only [format.ofBytes_toBytes]

end Format
end PackagedTask.Library.Packed
