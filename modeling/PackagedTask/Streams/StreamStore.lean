import PackagedTask.Streams.Buffers
import PackagedTask.Streams.Moving
import Mathlib.Logic.Function.Basic

namespace PackagedTask.Streams

/-- Streams by index, and the buffers they own by reference. -/
structure StreamStore (ι : Type) where
  streams : ι → StreamObject
  buffers : BufferRef → Option (List UInt8)
  nextBuffer : BufferRef

structure StreamState where
  contents : List UInt8
  head : Nat
  capacity : Nat
  deriving DecidableEq, Repr

/-- Reads that somebody makes, each chosen by what the earlier ones returned or threw. -/
inductive Reads
  | done
  | read (inByteCount : UInt32) (next : Except Fault (List UInt8) → Reads)

namespace StreamStore
variable {ι κ : Type}

/-- Every byte `_data` owns; nobody promises that `_capacity` is all of them. -/
def allocation (store : StreamStore ι) (index : ι) : List UInt8 :=
  ((store.streams index).data.bind store.buffers).getD []

def state (store : StreamStore ι) (index : ι) : StreamState where
  contents := (store.allocation index).take (store.streams index).capacity
  head := (store.streams index).head
  capacity := (store.streams index).capacity

def view (store : StreamStore ι) (index : ι) : InputMemoryStream where
  data := fun i => (store.allocation index).getD i 0
  head := (store.streams index).head
  capacity := (store.streams index).capacity

/-- The store with one stream more, as its member initialisers leave it. -/
def construct (store : StreamStore ι) (stream : StreamObject) : StreamStore (Option ι) :=
  { store with streams := fun index => index.elim stream store.streams }

variable [DecidableEq ι] [DecidableEq κ]

def modify (store : StreamStore ι) (index : ι) (change : StreamObject → StreamObject) :
    StreamStore ι :=
  { store with streams := Function.update store.streams index (change (store.streams index)) }

/-- `_data = std::make_unique<int8_t[]>(_capacity)`, which frees what `_data` owned. -/
def makeUnique (store : StreamStore ι) (this : ι) : StreamStore ι where
  streams := Function.update store.streams this
    { store.streams this with data := some store.nextBuffer }
  buffers := fun ref =>
    if ref = store.nextBuffer then some (List.replicate (store.streams this).capacity 0)
    else if (store.streams this).data = some ref then none
    else store.buffers ref
  nextBuffer := store.nextBuffer + 1

/-- `std::memcpy(_data.get(), other._data.get(), _capacity)`. Bytes copied onto themselves stay. -/
def memcpy (store : StreamStore ι) (this other : ι) : Except Fault (StreamStore ι) :=
  let count := (store.streams this).capacity
  let source := store.allocation other
  let target := store.allocation this
  if count ≤ source.length ∧ count ≤ target.length then
    .ok { store with
      buffers := fun ref =>
        if (store.streams this).data = some ref then
          some (source.take count ++ target.drop count)
        else store.buffers ref }
  else
    .error .undefined

/-- The copy assignment. `other` is read again at each line, and it may be `this`. -/
def copyAssign (store : StreamStore ι) (this other : ι) : Except Fault (StreamStore ι) :=
  let store := store.modify this fun stream =>
    { stream with head := (store.streams other).head }
  let store := store.modify this fun stream =>
    { stream with capacity := (store.streams other).capacity }
  (store.makeUnique this).memcpy this other

/-- The copy constructor; the new stream is `none`. -/
def copyConstruct (store : StreamStore ι) (other : ι) : Except Fault (StreamStore (Option ι)) :=
  let store' := store.construct
    ⟨none, (store.streams other).head, (store.streams other).capacity⟩
  (store'.makeUnique none).memcpy none (some other)

/-- `read` at a stream that owns so much memory and no more. -/
def read (store : StreamStore ι) (index : ι) (inByteCount : UInt32) :
    Except Fault (List UInt8) × StreamStore ι :=
  match Streams.read inByteCount (store.view index) with
  | .error fault _ => (.error fault, store)
  | .ok outData after =>
      if (store.streams index).head + inByteCount.toNat ≤ (store.allocation index).length then
        (.ok outData, store.modify index fun stream => { stream with head := after.head })
      else (.error .undefined, store)

/-- The check lets such a read by: the sum of `_head` and `inByteCount` has wrapped. It runs past
the contents, and still stays in what `_data` owns. -/
def PastContents (store : StreamStore ι) (index : ι) (inByteCount : UInt32) : Prop :=
  let stream := store.streams index
  (stream.head + inByteCount.toNat) % 2 ^ 32 ≤ stream.capacity ∧
    stream.capacity < stream.head + inByteCount.toNat ∧
    stream.head + inByteCount.toNat ≤ (store.allocation index).length

instance (store : StreamStore ι) (index : ι) (inByteCount : UInt32) :
    Decidable (store.PastContents index inByteCount) :=
  inferInstanceAs (Decidable (_ ∧ _ ∧ _))

end StreamStore

namespace Reads
variable {ι : Type} [DecidableEq ι]

/-- What the reads return, one after the other, up to one the language says nothing of. -/
def run (index : ι) : Reads → StreamStore ι → List (Except Fault (List UInt8)) × StreamStore ι
  | .done, store => ([], store)
  | .read inByteCount next, store =>
      let (result, after) := store.read index inByteCount
      if result = .error .undefined then ([result], after)
      else
        let (results, last) := (next result).run index after
        (result :: results, last)

def Within (index : ι) : Reads → StreamStore ι → Prop
  | .done, _ => True
  | .read inByteCount next, store =>
      ¬ store.PastContents index inByteCount ∧
        ((store.read index inByteCount).1 ≠ .error .undefined →
          (next (store.read index inByteCount).1).Within index (store.read index inByteCount).2)

instance decidableWithin (index : ι) :
    (reads : Reads) → (store : StreamStore ι) → Decidable (reads.Within index store)
  | .done, _ => inferInstanceAs (Decidable True)
  | .read inByteCount next, store =>
      have := decidableWithin index (next (store.read index inByteCount).1)
        (store.read index inByteCount).2
      inferInstanceAs (Decidable (_ ∧ (_ → _)))

end Reads

namespace StreamStore
variable {ι κ : Type}

/-- Each stream alone owns its buffer, and new buffers are new. -/
structure Owns (store : StreamStore ι) : Prop where
  allocated : ∀ index ref, (store.streams index).data = some ref → store.buffers ref ≠ none
  alone : ∀ index another ref, (store.streams index).data = some ref →
    (store.streams another).data = some ref → index = another
  fresh : ∀ ref, store.buffers ref ≠ none → ref < store.nextBuffer

def Fits (store : StreamStore ι) (index : ι) : Prop :=
  (store.streams index).head ≤ (store.streams index).capacity ∧
    (store.streams index).capacity ≤ (store.allocation index).length

structure Valid (store : StreamStore ι) : Prop where
  owns : store.Owns
  fits : ∀ index, store.Fits index

structure Unchanged (before : StreamStore ι) (index : ι) (after : StreamStore κ) (index' : κ) :
    Prop where
  object : after.streams index' = before.streams index
  bytes : after.allocation index' = before.allocation index

theorem Unchanged.refl (store : StreamStore ι) (index : ι) : store.Unchanged index store index :=
  ⟨rfl, rfl⟩

theorem Unchanged.trans {first : StreamStore ι} {second third : StreamStore κ} {index : ι}
    {index' : κ} (one : first.Unchanged index second index')
    (two : second.Unchanged index' third index') : first.Unchanged index third index' :=
  ⟨two.object.trans one.object, two.bytes.trans one.bytes⟩

theorem Unchanged.state {before : StreamStore ι} {after : StreamStore κ} {index' : κ}
    (same : before.Unchanged index after index') : after.state index' = before.state index := by
  simp [StreamStore.state, same.object, same.bytes]

theorem Unchanged.fits {before : StreamStore ι} {after : StreamStore κ} {index : ι} {index' : κ}
    (same : before.Unchanged index after index') (fits : before.Fits index) :
    after.Fits index' := by
  rw [Fits, same.object, same.bytes]
  exact fits

theorem allocation_congr {before : StreamStore ι} {after : StreamStore κ} {index' : κ}
    (data : (after.streams index').data = (before.streams index).data)
    (buffers : ∀ ref, (before.streams index).data = some ref →
      after.buffers ref = before.buffers ref) :
    after.allocation index' = before.allocation index := by
  unfold allocation
  rw [data]
  cases owned : (before.streams index).data with
  | none => rfl
  | some ref => simp [buffers ref owned]
theorem state_eq_of_tight {store : StreamStore ι} {index : ι}
    (tight : (store.allocation index).length = (store.streams index).capacity) :
    store.state index =
      ⟨store.allocation index, (store.streams index).head, (store.streams index).capacity⟩ := by
  simp [state, ← tight]

theorem contents_length {store : StreamStore ι} {index : ι} (fits : store.Fits index) :
    (store.state index).contents.length = (store.streams index).capacity := by
  simpa [state] using fits.2

section Ownership
variable {store : StreamStore ι} {this other another : ι}

theorem Owns.construct (owns : store.Owns) (head capacity : Nat) :
    (store.construct ⟨none, head, capacity⟩).Owns := by
  constructor
  · intro index ref owned
    cases index with
    | none => cases owned
    | some index => exact owns.allocated index ref owned
  · intro index another ref owned also
    cases index with
    | none => cases owned
    | some index =>
        cases another with
        | none => cases also
        | some another => exact congrArg some (owns.alone index another ref owned also)
  · exact owns.fresh

theorem Owns.old (owns : store.Owns) {index : ι} {ref : BufferRef}
    (owned : (store.streams index).data = some ref) : ref ≠ store.nextBuffer :=
  (owns.fresh ref (owns.allocated index ref owned)).ne

structure Renewed (before after : StreamStore ι) (this : ι) (bytes : List UInt8) : Prop where
  owns : after.Owns
  object : after.streams this = { before.streams this with data := some before.nextBuffer }
  bytes : after.allocation this = bytes
  others : ∀ another, another ≠ this → before.Unchanged another after another

theorem memcpy_fills (this other : ι) {ref : BufferRef} (owns : store.Owns)
    (owned : (store.streams this).data = some ref)
    (room : (store.streams this).capacity ≤ (store.allocation other).length)
    (space : (store.streams this).capacity ≤ (store.allocation this).length) :
    ∃ after, store.memcpy this other = .ok after ∧ after.Owns ∧ after.streams = store.streams ∧
      after.allocation this = (store.allocation other).take (store.streams this).capacity ++
        (store.allocation this).drop (store.streams this).capacity ∧
      ∀ another, another ≠ this → store.Unchanged another after another := by
  refine ⟨_, if_pos ⟨room, space⟩, ⟨?_, owns.alone, ?_⟩, rfl, ?_, ?_⟩
  · intro index ref' owned'
    dsimp only
    split
    · simp
    · exact owns.allocated index ref' owned'
  · intro ref' used
    dsimp only at used
    split at used
    · next target => exact owns.fresh ref' (owns.allocated this ref' target)
    · exact owns.fresh ref' used
  · simp [allocation, owned]
  · intro another apart
    refine ⟨rfl, allocation_congr rfl fun ref' owned' => if_neg ?_⟩
    exact fun target => apart (owns.alone another this ref' owned' target)

end Ownership

variable [DecidableEq ι] [DecidableEq κ]

section Frames
variable {store : StreamStore ι} {index another : ι}

@[simp] theorem modify_streams_same (change : StreamObject → StreamObject) :
    (store.modify index change).streams index = change (store.streams index) := by
  simp [modify]

theorem modify_unchanged (change : StreamObject → StreamObject) (other : another ≠ index) :
    store.Unchanged another (store.modify index change) another := by
  have object : (store.modify index change).streams another = store.streams another := by
    simp [modify, other]
  exact ⟨object, allocation_congr (congrArg _ object) fun _ _ => rfl⟩

theorem modify_allocation {change : StreamObject → StreamObject}
    (keeps : ∀ stream, (change stream).data = stream.data) :
    (store.modify index change).allocation index = store.allocation index := by
  apply allocation_congr
  · simp [keeps]
  · exact fun _ _ => rfl

end Frames

section Reading
variable {store : StreamStore ι} {index another : ι} {inByteCount : UInt32}

theorem read_outside (outside : (store.streams index).capacity <
      ((store.streams index).head + inByteCount.toNat) % 2 ^ 32) :
    store.read index inByteCount =
      (.error (.rangeError "InputMemoryStream::Read - no data to read!"), store) := by
  have threw : Streams.read inByteCount (store.view index) =
      .error (.rangeError "InputMemoryStream::Read - no data to read!") (store.view index) :=
    read_error_iff.mpr ⟨outside, rfl, rfl⟩
  simp [read, threw]

theorem read_passes (passes : ((store.streams index).head + inByteCount.toNat) % 2 ^ 32 ≤
      (store.streams index).capacity) :
    store.read index inByteCount =
      if (store.streams index).head + inByteCount.toNat ≤ (store.allocation index).length then
        (.ok ((store.view index).bytes (store.streams index).head inByteCount.toNat),
          store.modify index fun stream =>
            { stream with head := (stream.head + inByteCount.toNat) % 2 ^ 32 })
      else (.error .undefined, store) := by
  have returned : Streams.read inByteCount (store.view index) =
      .ok ((store.view index).bytes (store.streams index).head inByteCount.toNat)
        { store.view index with
          head := ((store.streams index).head + inByteCount.toNat) % 2 ^ 32 } :=
    read_ok_iff.mpr ⟨passes, rfl, rfl⟩
  simp only [read, returned]
  rfl

theorem read_cases (store : StreamStore ι) (index : ι) (inByteCount : UInt32) :
    (store.read index inByteCount).2 = store ∨
      (((store.streams index).head + inByteCount.toNat) % 2 ^ 32 ≤ (store.streams index).capacity ∧
        (store.read index inByteCount).2 = store.modify index fun stream =>
          { stream with head := (stream.head + inByteCount.toNat) % 2 ^ 32 }) := by
  rcases Nat.lt_or_ge (store.streams index).capacity
    (((store.streams index).head + inByteCount.toNat) % 2 ^ 32) with outside | passes
  · simp [read_outside outside]
  · rw [read_passes passes]
    split
    · exact .inr ⟨passes, rfl⟩
    · exact .inl rfl

theorem read_unchanged (other : another ≠ index) :
    store.Unchanged another (store.read index inByteCount).2 another := by
  rcases read_cases store index inByteCount with stays | ⟨-, moves⟩
  · rw [stays]
    exact .refl _ _
  · rw [moves]
    exact modify_unchanged _ other

theorem run_unchanged (reads : Reads) (other : another ≠ index) :
    store.Unchanged another (reads.run index store).2 another := by
  induction reads generalizing store with
  | done => exact .refl _ _
  | read inByteCount next ih =>
      have now : store.Unchanged another (store.read index inByteCount).2 another :=
        read_unchanged other
      simp only [Reads.run]
      split
      · exact now
      · exact now.trans (ih _)

end Reading

end StreamStore
end PackagedTask.Streams
