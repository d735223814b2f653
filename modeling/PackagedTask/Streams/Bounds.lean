import PackagedTask.Streams.Memory

namespace PackagedTask.Streams
open Library Library.StateError

inductive ReadCall
  | raw (inByteCount : UInt32)
  | primitive (size : UInt32)
  | string
  deriving DecidableEq, Repr

def ReadCall.run : ReadCall → Reader (List UInt8)
  | .raw inByteCount => read inByteCount
  | .primitive size => read size
  | .string => readString

/-- The underlying reads of one call: the stream each starts from and its byte count. -/
def ReadCall.accesses : ReadCall → InputMemoryStream → List (InputMemoryStream × UInt32)
  | .raw inByteCount, stream => [(stream, inByteCount)]
  | .primitive size, stream => [(stream, size)]
  | .string, stream =>
      (stream, 4) :: match readWord 4 stream with
        | .ok elementCount after => [(after, UInt32.ofNat elementCount)]
        | .error _ _ => []

/-- The stream a call leaves behind; a caller that caught its exception goes on from there. -/
def finalStream {α : Type} : EStateM.Result Fault InputMemoryStream α → InputMemoryStream
  | .ok _ after => after
  | .error _ after => after

def accesses : List ReadCall → InputMemoryStream → List (InputMemoryStream × UInt32)
  | [], _ => []
  | call :: rest, stream =>
      call.accesses stream ++ accesses rest (finalStream (call.run stream))

/-- What every read keeps, also where the bounds check lets it run past the buffer. -/
def SameBuffer (before after : InputMemoryStream) : Prop :=
  after.data = before.data ∧ after.capacity = before.capacity ∧
    (before.head ≤ before.capacity → after.head ≤ after.capacity)

theorem SameBuffer.refl (stream : InputMemoryStream) : SameBuffer stream stream := ⟨rfl, rfl, id⟩

theorem SameBuffer.trans {a b c : InputMemoryStream} (first : SameBuffer a b)
    (second : SameBuffer b c) : SameBuffer a c :=
  ⟨second.1.trans first.1, second.2.1.trans first.2.1, fun h => second.2.2 (first.2.2 h)⟩

theorem read_sameBuffer (count : UInt32) : Keeps SameBuffer (read count) := by
  intro stream
  constructor
  · intro outData after result
    obtain ⟨fits, -, rfl⟩ := read_ok_iff.mp result
    exact ⟨rfl, rfl, fun _ => fits⟩
  · intro fault after result
    obtain ⟨-, -, rfl⟩ := read_error_iff.mp result
    exact .refl _

theorem readWord_sameBuffer (width : UInt32) : Keeps SameBuffer (readWord width) :=
  .bind .trans (read_sameBuffer width) fun _ => .pure .refl _

theorem run_sameBuffer (call : ReadCall) : Keeps SameBuffer call.run := by
  cases call with
  | raw count => exact read_sameBuffer count
  | primitive size => exact read_sameBuffer size
  | string => exact .bind .trans (readWord_sameBuffer 4) fun _ => read_sameBuffer _

theorem finalStream_sameBuffer (call : ReadCall) (stream : InputMemoryStream) :
    SameBuffer stream (finalStream (call.run stream)) := by
  cases result : call.run stream with
  | ok outData after => exact (run_sameBuffer call stream).1 _ _ result
  | error fault after => exact (run_sameBuffer call stream).2 _ _ result

theorem call_accesses_sameBuffer (call : ReadCall) (stream : InputMemoryStream) :
    ∀ access ∈ call.accesses stream, SameBuffer stream access.1 := by
  intro access member
  cases call with
  | raw count =>
      obtain rfl := List.mem_singleton.mp member
      exact .refl _
  | primitive size =>
      obtain rfl := List.mem_singleton.mp member
      exact .refl _
  | string =>
      simp only [ReadCall.accesses, List.mem_cons] at member
      rcases member with rfl | member
      · exact .refl _
      · cases first : readWord 4 stream with
        | ok count after =>
            simp only [first, List.mem_singleton] at member
            subst member
            exact (readWord_sameBuffer 4 stream).1 _ _ first
        | error fault after => simp [first] at member

theorem accesses_sameBuffer (calls : List ReadCall) (stream : InputMemoryStream) :
    ∀ access ∈ accesses calls stream, SameBuffer stream access.1 := by
  induction calls generalizing stream with
  | nil => simp [accesses]
  | cons call rest ih =>
      intro access member
      rcases List.mem_append.mp member with now | later
      · exact call_accesses_sameBuffer call stream access now
      · exact (finalStream_sameBuffer call stream).trans (ih _ access later)

/-- What one underlying read owes its caller, in exact arithmetic. -/
structure BoundsLaw (stream : InputMemoryStream) (count : UInt32) : Prop where
  succeeds : (∃ outData after, read count stream = .ok outData after) ↔
    stream.head + count.toNat ≤ stream.capacity
  copies : ∀ outData after, read count stream = .ok outData after →
    outData = stream.bytes stream.head count.toNat ∧
      after = { stream with head := stream.head + count.toNat }
  throws : ∀ fault after, read count stream = .error fault after →
    (∃ text, fault = .rangeError text) ∧ after = stream
  inside : ∀ outData after, read count stream = .ok outData after →
    ∀ i < outData.length, stream.head + i < stream.capacity
  forward : ∀ outData after, read count stream = .ok outData after → stream.head ≤ after.head

theorem boundsLaw_of_lt {stream : InputMemoryStream} {count : UInt32}
    (narrow : stream.head + count.toNat < 2 ^ 32) : BoundsLaw stream count := by
  have exact_sum : (stream.head + count.toNat) % 2 ^ 32 = stream.head + count.toNat :=
    Nat.mod_eq_of_lt narrow
  refine ⟨⟨?_, ?_⟩, ?_, ?_, ?_, ?_⟩
  · rintro ⟨outData, after, result⟩
    exact exact_sum ▸ (read_ok_iff.mp result).1
  · intro fits
    exact ⟨_, _, read_ok_iff.mpr ⟨by rwa [exact_sum], rfl, rfl⟩⟩
  · intro outData after result
    obtain ⟨-, rfl, rfl⟩ := read_ok_iff.mp result
    exact ⟨rfl, by rw [exact_sum]⟩
  · intro fault after result
    obtain ⟨-, rfl, rfl⟩ := read_error_iff.mp result
    exact ⟨⟨_, rfl⟩, rfl⟩
  · intro outData after result i within
    obtain ⟨fits, rfl, -⟩ := read_ok_iff.mp result
    rw [exact_sum] at fits
    rw [bytes_length] at within
    omega
  · intro outData after result
    obtain ⟨-, -, rfl⟩ := read_ok_iff.mp result
    simp only [exact_sum]
    omega

theorem read_ok_of_wrap {stream : InputMemoryStream} {count : UInt32}
    (inside : stream.head ≤ stream.capacity) (small : stream.capacity < 2 ^ 32)
    (wraps : 2 ^ 32 ≤ stream.head + count.toNat) :
    ∃ outData after, read count stream = .ok outData after := by
  refine ⟨_, _, read_ok_iff.mpr ⟨?_, rfl, rfl⟩⟩
  have bound := count.toNat_lt
  omega

theorem boundsLaw_iff {stream : InputMemoryStream} {count : UInt32}
    (inside : stream.head ≤ stream.capacity) (small : stream.capacity < 2 ^ 32) :
    BoundsLaw stream count ↔ stream.head + count.toNat < 2 ^ 32 := by
  refine ⟨fun law => ?_, boundsLaw_of_lt⟩
  by_contra wraps
  have fits := law.succeeds.mp (read_ok_of_wrap inside small (by omega))
  omega

theorem reads_bounded_iff (calls : List ReadCall) (stream : InputMemoryStream)
    (inside : stream.head ≤ stream.capacity) (small : stream.capacity < 2 ^ 32) :
    (∀ access ∈ accesses calls stream, BoundsLaw access.1 access.2) ↔
      ∀ access ∈ accesses calls stream, access.1.head + access.2.toNat < 2 ^ 32 := by
  refine forall₂_congr fun access member => ?_
  obtain ⟨-, same, stays⟩ := accesses_sameBuffer calls stream access member
  exact boundsLaw_iff (stays inside) (same ▸ small)

theorem reads_bounded_iff_zeros :
    (∀ access ∈ accesses [.raw 4, .string] ⟨fun _ => 0, 0, 8⟩, BoundsLaw access.1 access.2) ↔
      ∀ access ∈ accesses [.raw 4, .string] ⟨fun _ => 0, 0, 8⟩,
        access.1.head + access.2.toNat < 2 ^ 32 :=
  reads_bounded_iff [.raw 4, .string] ⟨fun _ => 0, 0, 8⟩ (by decide) (by decide)

def longString : InputMemoryStream := ⟨fun i => if i = 0 then 0xfc else 0xff, 0, 8⟩

theorem longString_overruns :
    ¬ ∀ access ∈ accesses [.string] longString, BoundsLaw access.1 access.2 := by
  intro laws
  have law := laws ({ longString with head := 4 }, 0xfffffffc) (by
    simp only [accesses, List.append_nil, ReadCall.accesses]
    exact List.mem_cons_of_mem _ (List.mem_singleton.mpr rfl))
  have fits := law.succeeds.mp (read_ok_of_wrap (by decide) (by decide) (by decide))
  exact absurd fits (by decide)

end PackagedTask.Streams
