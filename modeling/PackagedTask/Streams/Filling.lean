import PackagedTask.Streams.Renewing

namespace PackagedTask.Streams.StreamStore

/-! Streams that are written into, and streams that come and go. -/

variable {ι κ : Type}

def reindex (store : StreamStore κ) (rename : ι → κ) : StreamStore ι :=
  { store with streams := fun index => store.streams (rename index) }

variable [DecidableEq ι]

/-- Somebody writes the bytes from `getCurPosPtr()` on. -/
def fill (store : StreamStore ι) (index : ι) (bytes : List UInt8) : Except Fault (StreamStore ι) :=
  let start := (store.streams index).head
  let target := store.allocation index
  if start + bytes.length ≤ target.length then
    .ok { store with
      buffers := fun ref =>
        if (store.streams index).data = some ref then
          some (target.take start ++ (bytes ++ target.drop (start + bytes.length)))
        else store.buffers ref }
  else .error .undefined

def setCapacity (store : StreamStore ι) (index : ι) (newCapacity : Nat) : StreamStore ι :=
  store.modify index fun stream => { stream with capacity := newCapacity % 2 ^ 32 }

def resetHead (store : StreamStore ι) (index : ι) : StreamStore ι :=
  store.modify index fun stream => { stream with head := 0 }

/-- The copy constructor, for a stream that is to be `this`. -/
def copyConstructAs (store : StreamStore ι) (this other : ι) : Except Fault (StreamStore ι) := do
  let constructed ← store.copyConstruct other
  pure (constructed.reindex fun index => if index = this then none else some index)

/-- The destructor: `_data` frees what it owns. -/
def destroy (store : StreamStore ι) (index : ι) : StreamStore ι where
  streams := Function.update store.streams index ⟨none, 0, 0⟩
  buffers := fun ref => if (store.streams index).data = some ref then none else store.buffers ref
  nextBuffer := store.nextBuffer

section Reindexing
omit [DecidableEq ι]
variable {store : StreamStore κ} {rename : ι → κ}

theorem reindex_unchanged (store : StreamStore κ) (rename : ι → κ) (index : ι) :
    store.Unchanged (rename index) (store.reindex rename) index := ⟨rfl, rfl⟩

theorem Valid.reindex (valid : store.Valid) (injective : Function.Injective rename) :
    (store.reindex rename).Valid where
  owns :=
    { allocated := fun index => valid.owns.allocated (rename index)
      alone := fun index another ref owned also =>
        injective (valid.owns.alone (rename index) (rename another) ref owned also)
      fresh := valid.owns.fresh }
  fits := fun index => valid.fits (rename index)

theorem Unchanged.view {before : StreamStore ι} {after : StreamStore κ} {index : ι} {index' : κ}
    (same : before.Unchanged index after index') : after.view index' = before.view index := by
  simp only [StreamStore.view, same.object, same.bytes]

end Reindexing

section Spec
variable {store : StreamStore ι} {this other index another : ι} {bytes : List UInt8}

/-- What the copy constructor has made: the original's bytes in a buffer of the copy's own. -/
structure Constructed (before : StreamStore ι) (this other : ι) (after : StreamStore ι) : Prop where
  valid : after.Valid
  view : after.view this = (before.view other).copy fun _ => 0
  others : ∀ another, another ≠ this → before.Unchanged another after another

theorem copyConstructAs_constructs (valid : store.Valid) (this other : ι) :
    ∃ after, store.copyConstructAs this other = .ok after ∧ store.Constructed this other after := by
  obtain ⟨constructed, ran, renewed⟩ := copyConstruct_renews valid other
  refine ⟨_, by rw [copyConstructAs, ran]; rfl, ?_, ?_, ?_⟩
  · apply (copyConstruct_valid valid ran).reindex
    intro index another same
    dsimp only at same
    split at same <;> split at same <;> simp_all
  · rw [← copyConstruct_view valid ran]
    simp [view, allocation, reindex]
  · intro another apart
    have kept := renewed.others (some another) (by simp)
    have placed := constructed.reindex_unchanged
      (fun index => if index = this then none else some index) another
    rw [if_neg apart] at placed
    exact ⟨placed.object.trans kept.object, placed.bytes.trans kept.bytes⟩

theorem getD_overwritten {target : List UInt8} {start : Nat}
    (room : start + bytes.length ≤ target.length) (i : Nat) :
    (target.take start ++ (bytes ++ target.drop (start + bytes.length))).getD i 0 =
      if start ≤ i then (bytes[i - start]?).getD (target.getD i 0) else target.getD i 0 := by
  have most : (target.take start).length = start := by
    rw [List.length_take]
    omega
  rw [List.getD_eq_getElem?_getD, List.getD_eq_getElem?_getD]
  by_cases behind : start ≤ i
  · rw [if_pos behind, List.getElem?_append_right (by omega), most, List.getElem?_append]
    by_cases inside : i - start < bytes.length
    · rw [if_pos inside, List.getElem?_eq_getElem inside]
      rfl
    · have place : start + bytes.length + (i - start - bytes.length) = i := by omega
      rw [if_neg inside, List.getElem?_drop, place,
        List.getElem?_eq_none (Nat.le_of_not_lt inside)]
      rfl
  · have before : i < start := Nat.lt_of_not_le behind
    rw [if_neg behind, List.getElem?_append_left (by omega), List.getElem?_take, if_pos before]

structure Filled (before : StreamStore ι) (index : ι) (bytes : List UInt8) (after : StreamStore ι) :
    Prop where
  valid : after.Valid
  streams : after.streams = before.streams
  length : (after.allocation index).length = (before.allocation index).length
  view : after.view index = (before.view index).fill bytes
  others : ∀ another, another ≠ index → before.Unchanged another after another

theorem fill_fills (valid : store.Valid) (room : (store.streams index).head + bytes.length ≤
      (store.allocation index).length) (owned : (store.streams index).data ≠ none) :
    ∃ after, store.fill index bytes = .ok after ∧ store.Filled index bytes after := by
  obtain ⟨ref, owned⟩ := Option.ne_none_iff_exists'.mp owned
  refine ⟨_, if_pos room, ?_⟩
  generalize told : (⟨store.streams, _, store.nextBuffer⟩ : StreamStore ι) = after
  have streams : after.streams = store.streams := by rw [← told]
  have here : after.allocation index = (store.allocation index).take (store.streams index).head ++
      (bytes ++ (store.allocation index).drop ((store.streams index).head + bytes.length)) := by
    rw [← told]
    simp [allocation, owned]
  have length : (after.allocation index).length = (store.allocation index).length := by
    rw [here]
    simp only [List.length_append, List.length_take, List.length_drop]
    omega
  have others : ∀ another, another ≠ index → store.Unchanged another after another := by
    intro another apart
    refine ⟨congrFun streams another, allocation_congr (by rw [streams]) fun ref' owned' => ?_⟩
    rw [← told]
    exact if_neg fun target => apart (valid.owns.alone another index ref' owned' target)
  refine ⟨⟨⟨?_, ?_, ?_⟩, ?_⟩, streams, length, ?_, others⟩
  · intro another ref' owned'
    rw [streams] at owned'
    rw [← told]
    dsimp only
    split
    · exact Option.some_ne_none _
    · exact valid.owns.allocated another ref' owned'
  · rw [streams]
    exact valid.owns.alone
  · intro ref' used
    rw [← told] at used ⊢
    dsimp only at used
    split at used
    · next target => exact valid.owns.fresh ref' (valid.owns.allocated index ref' target)
    · exact valid.owns.fresh ref' used
  · intro another
    by_cases same : another = index
    · subst same
      rw [Fits, streams, length]
      exact valid.fits another
    · exact (others another same).fits (valid.fits another)
  · simp only [view, streams, here, InputMemoryStream.fill, InputMemoryStream.mk.injEq, and_self,
      and_true]
    funext i
    exact getD_overwritten room i

theorem modify_valid {change : StreamObject → StreamObject} (valid : store.Valid)
    (keeps : ∀ stream, (change stream).data = stream.data)
    (fits : (change (store.streams index)).head ≤ (change (store.streams index)).capacity ∧
      (change (store.streams index)).capacity ≤ (store.allocation index).length) :
    (store.modify index change).Valid := by
  refine ⟨valid.owns.modify keeps, fun another => ?_⟩
  by_cases here : another = index
  · subst here
    rw [Fits, modify_streams_same, modify_allocation keeps]
    exact fits
  · exact (modify_unchanged _ here).fits (valid.fits another)

@[simp] theorem setCapacity_streams_same (store : StreamStore ι) (index : ι) (newCapacity : Nat) :
    (store.setCapacity index newCapacity).streams index =
      { store.streams index with capacity := newCapacity % 2 ^ 32 } := modify_streams_same _

@[simp] theorem resetHead_streams_same (store : StreamStore ι) (index : ι) :
    (store.resetHead index).streams index = { store.streams index with head := 0 } :=
  modify_streams_same _

@[simp] theorem setCapacity_allocation (store : StreamStore ι) (index : ι) (newCapacity : Nat) :
    (store.setCapacity index newCapacity).allocation index = store.allocation index :=
  modify_allocation fun _ => rfl

@[simp] theorem resetHead_allocation (store : StreamStore ι) (index : ι) :
    (store.resetHead index).allocation index = store.allocation index :=
  modify_allocation fun _ => rfl

theorem setCapacity_view (store : StreamStore ι) (index : ι) (newCapacity : Nat) :
    (store.setCapacity index newCapacity).view index = (store.view index).setCapacity newCapacity := by
  simp [view, InputMemoryStream.setCapacity]

theorem setCapacity_unchanged (newCapacity : Nat) (apart : another ≠ index) :
    store.Unchanged another (store.setCapacity index newCapacity) another :=
  modify_unchanged _ apart

theorem resetHead_unchanged (apart : another ≠ index) :
    store.Unchanged another (store.resetHead index) another :=
  modify_unchanged _ apart

theorem resetHead_view (store : StreamStore ι) (index : ι) :
    (store.resetHead index).view index = (store.view index).resetHead := by
  simp [view, InputMemoryStream.resetHead]

theorem resetHead_valid (valid : store.Valid) : (store.resetHead index).Valid :=
  modify_valid valid (fun _ => rfl) ⟨Nat.zero_le _, (valid.fits index).2⟩

theorem destroy_unchanged (owns : store.Owns) (apart : another ≠ index) :
    store.Unchanged another (store.destroy index) another := by
  have object : (store.destroy index).streams another = store.streams another := by
    simp [destroy, apart]
  refine ⟨object, allocation_congr (congrArg _ object) fun ref owned => if_neg ?_⟩
  exact fun freed => apart (owns.alone another index ref owned freed)

theorem destroy_valid (valid : store.Valid) : (store.destroy index).Valid := by
  have there : ∀ another ref, ((store.destroy index).streams another).data = some ref →
      another ≠ index ∧ (store.streams another).data = some ref := by
    intro another ref owned
    by_cases same : another = index
    · simp [destroy, same] at owned
    · exact ⟨same, (destroy_unchanged valid.owns same).object ▸ owned⟩
  refine ⟨⟨?_, ?_, ?_⟩, ?_⟩
  · intro another ref owned
    obtain ⟨apart, before⟩ := there another ref owned
    have notFreed : (store.streams index).data ≠ some ref :=
      fun freed => apart (valid.owns.alone another index ref before freed)
    rw [destroy]
    dsimp only
    rw [if_neg notFreed]
    exact valid.owns.allocated another ref before
  · intro first second ref owned also
    exact valid.owns.alone first second ref (there first ref owned).2 (there second ref also).2
  · intro ref used
    dsimp only [destroy] at used
    split at used
    · exact absurd rfl used
    · exact valid.owns.fresh ref used
  · intro another
    by_cases same : another = index
    · subst same
      simp [Fits, destroy]
    · exact (destroy_unchanged valid.owns same).fits (valid.fits another)

theorem run_reads_valid (valid : store.Valid) (reads : Reads) : (reads.run this store).2.Valid := by
  induction reads generalizing store with
  | done => exact valid
  | read inByteCount next ih =>
      have now := @read_valid _ _ store this valid inByteCount
      simp only [Reads.run]
      split
      · exact now
      · exact ih _ now

end Spec

end PackagedTask.Streams.StreamStore
