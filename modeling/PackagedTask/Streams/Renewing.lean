import PackagedTask.Streams.StreamStore

namespace PackagedTask.Streams.StreamStore

/-! Streams that get a new buffer: what the copy constructor and the copy assignment leave. -/

variable {ι κ : Type} [DecidableEq ι] [DecidableEq κ]

section Renewing
variable {store : StreamStore ι} {this other another : ι}

theorem Owns.modify {change : StreamObject → StreamObject} (owns : store.Owns)
    (keeps : ∀ stream, (change stream).data = stream.data) : (store.modify this change).Owns := by
  have data : ∀ index, ((store.modify this change).streams index).data =
      (store.streams index).data := by
    intro index
    by_cases here : index = this
    · subst here
      simp [keeps]
    · simp [(modify_unchanged change here).object]
  constructor
  · intro index ref owned
    exact owns.allocated index ref (data index ▸ owned)
  · intro index another ref owned also
    exact owns.alone index another ref (data index ▸ owned) (data another ▸ also)
  · exact owns.fresh

theorem makeUnique_streams_same (store : StreamStore ι) (this : ι) :
    (store.makeUnique this).streams this =
      { store.streams this with data := some store.nextBuffer } := by
  simp [makeUnique]

theorem makeUnique_allocation_same (store : StreamStore ι) (this : ι) :
    (store.makeUnique this).allocation this =
      List.replicate (store.streams this).capacity 0 := by
  simp [allocation, makeUnique]

theorem makeUnique_unchanged (owns : store.Owns) (apart : another ≠ this) :
    store.Unchanged another (store.makeUnique this) another := by
  have object : (store.makeUnique this).streams another = store.streams another := by
    simp [makeUnique, apart]
  refine ⟨object, allocation_congr (congrArg _ object) fun ref owned => ?_⟩
  have notFreed : (store.streams this).data ≠ some ref :=
    fun freed => apart (owns.alone another this ref owned freed)
  simp [makeUnique, owns.old owned, notFreed]

theorem Owns.makeUnique (owns : store.Owns) : (store.makeUnique this).Owns := by
  have here : ((store.makeUnique this).streams this).data = some store.nextBuffer := by
    rw [makeUnique_streams_same]
  have there : ∀ index ref, index ≠ this → ((store.makeUnique this).streams index).data = some ref →
      (store.streams index).data = some ref := by
    intro index ref apart owned
    rwa [(makeUnique_unchanged owns apart).object] at owned
  constructor
  · intro index ref owned
    by_cases same : index = this
    · subst same
      obtain rfl := Option.some.inj (here.symm.trans owned)
      simp [StreamStore.makeUnique]
    · have before := there index ref same owned
      have notFreed : (store.streams this).data ≠ some ref :=
        fun freed => same (owns.alone index this ref before freed)
      simp [StreamStore.makeUnique, owns.old before, notFreed, owns.allocated index ref before]
  · intro index another ref owned also
    by_cases same : index = this <;> by_cases same' : another = this
    · exact same.trans same'.symm
    · subst same
      obtain rfl := Option.some.inj (here.symm.trans owned)
      exact absurd rfl (owns.old (there another _ same' also))
    · subst same'
      obtain rfl := Option.some.inj (here.symm.trans also)
      exact absurd rfl (owns.old (there index _ same owned))
    · exact owns.alone index another ref (there index ref same owned) (there another ref same' also)
  · intro ref used
    by_cases new : ref = store.nextBuffer
    · subst new
      exact Nat.lt_succ_self _
    · have before : store.buffers ref ≠ none := by
        intro absent
        simp [StreamStore.makeUnique, new, absent] at used
      exact (owns.fresh ref before).trans (Nat.lt_succ_self _)

/-- The two lines both ways of copying end with. A stream copied to itself has lost its bytes
before they are read. -/
theorem makeUnique_memcpy (this other : ι) (owns : store.Owns)
    (room : this ≠ other → (store.streams this).capacity ≤ (store.allocation other).length) :
    ∃ after, (store.makeUnique this).memcpy this other = .ok after ∧
      store.Renewed after this
        (if this = other then List.replicate (store.streams this).capacity 0
        else (store.allocation other).take (store.streams this).capacity) := by
  have object := makeUnique_streams_same store this
  have zeros := makeUnique_allocation_same store this
  have source : (store.makeUnique this).allocation other =
      if this = other then List.replicate (store.streams this).capacity 0
      else store.allocation other := by
    split
    · next same => rw [← same, zeros]
    · next apart => rw [(makeUnique_unchanged owns (Ne.symm apart)).bytes]
  have enough : (store.streams this).capacity ≤ ((store.makeUnique this).allocation other).length := by
    rw [source]
    split
    · simp
    · next apart => exact room apart
  obtain ⟨after, copied, owned, streams, bytes, others⟩ :=
    memcpy_fills this other owns.makeUnique (by rw [object])
      (by rw [object]; exact enough) (by rw [object, zeros]; simp)
  refine ⟨after, copied, owned, ?_, ?_, ?_⟩
  · rw [streams, object]
  · rw [bytes, object, zeros, source]
    split <;> simp
  · intro another apart
    exact (makeUnique_unchanged owns apart).trans (others another apart)

end Renewing

section Copying
variable {store : StreamStore ι} {this other : ι}

theorem copyAssign_eq (store : StreamStore ι) (this other : ι) :
    store.copyAssign this other =
      ((store.modify this fun stream =>
        ⟨stream.data, (store.streams other).head, (store.streams other).capacity⟩).makeUnique
          this).memcpy this other := by
  by_cases itself : other = this
  · simp [copyAssign, modify, itself]
  · simp [copyAssign, modify, itself]

theorem copyAssign_renews (valid : store.Valid) (this other : ι) :
    ∃ after, store.copyAssign this other = .ok after ∧
      (store.modify this fun stream =>
        ⟨stream.data, (store.streams other).head, (store.streams other).capacity⟩).Renewed after this
        (if this = other then List.replicate (store.streams other).capacity 0
        else (store.state other).contents) := by
  rw [copyAssign_eq]
  generalize told : (store.modify this fun stream =>
    ⟨stream.data, (store.streams other).head, (store.streams other).capacity⟩) = made
  have owns : made.Owns := told ▸ valid.owns.modify fun _ => rfl
  have capacity : (made.streams this).capacity = (store.streams other).capacity := by
    simp [← told]
  have bytes : this ≠ other → made.allocation other = store.allocation other :=
    fun apart => told ▸ (modify_unchanged _ (Ne.symm apart)).bytes
  obtain ⟨after, ran, renewed⟩ := makeUnique_memcpy this other owns fun apart => by
    rw [capacity, bytes apart]
    exact (valid.fits other).2
  refine ⟨after, ran, ?_⟩
  convert renewed using 2
  · rw [capacity]
  · next apart => rw [capacity, bytes apart, state]

theorem copyConstruct_renews (valid : store.Valid) (other : ι) :
    ∃ after, store.copyConstruct other = .ok after ∧
      (store.construct
        ⟨none, (store.streams other).head, (store.streams other).capacity⟩).Renewed after none
        (store.state other).contents := by
  have owns := valid.owns.construct (store.streams other).head (store.streams other).capacity
  obtain ⟨after, ran, renewed⟩ := makeUnique_memcpy none (some other) owns
    fun _ => (valid.fits other).2
  exact ⟨after, ran, renewed⟩

theorem copyConstruct_renewed {after : StreamStore (Option ι)} (valid : store.Valid)
    (ran : store.copyConstruct other = .ok after) :
    (store.construct
      ⟨none, (store.streams other).head, (store.streams other).capacity⟩).Renewed after none
      (store.state other).contents := by
  obtain ⟨constructed, ran', renewed⟩ := copyConstruct_renews valid other
  obtain rfl := Except.ok.inj (ran'.symm.trans ran)
  exact renewed

/-- Seen by itself the new stream is the copy of a stream that knows of no buffers. -/
theorem copyConstruct_view {after : StreamStore (Option ι)} (valid : store.Valid)
    (ran : store.copyConstruct other = .ok after) :
    after.view none = (store.view other).copy fun _ => 0 := by
  have renewed := copyConstruct_renewed valid ran
  simp only [view, renewed.object, renewed.bytes, construct, InputMemoryStream.copy, Option.elim,
    state, InputMemoryStream.mk.injEq, and_self, and_true]
  funext i
  by_cases inside : i < (store.streams other).capacity
  · simp [List.getD, inside]
  · simp [List.getD, inside]

theorem Renewed.valid {made after : StreamStore ι} {bytes : List UInt8}
    (renewed : made.Renewed after this bytes)
    (inside : (made.streams this).head ≤ (made.streams this).capacity)
    (length : bytes.length = (made.streams this).capacity)
    (others : ∀ index, index ≠ this → made.Fits index) : after.Valid := by
  refine ⟨renewed.owns, fun index => ?_⟩
  by_cases here : index = this
  · subst here
    rw [Fits, renewed.object, renewed.bytes, length]
    exact ⟨inside, le_rfl⟩
  · exact (renewed.others index here).fits (others index here)

theorem copyConstruct_valid {after : StreamStore (Option ι)} (valid : store.Valid)
    (ran : store.copyConstruct other = .ok after) : after.Valid := by
  have fits := valid.fits other
  refine (copyConstruct_renewed valid ran).valid fits.1 (contents_length fits) fun index apart => ?_
  cases index with
  | none => exact absurd rfl apart
  | some index => exact valid.fits index

theorem read_valid (valid : store.Valid) (inByteCount : UInt32) :
    (store.read this inByteCount).2.Valid := by
  rcases read_cases store this inByteCount with stays | ⟨passes, moves⟩
  · rwa [stays]
  · rw [moves]
    refine ⟨valid.owns.modify fun _ => rfl, fun index => ?_⟩
    by_cases here : index = this
    · subst here
      simpa [Fits, modify_allocation] using ⟨passes, (valid.fits index).2⟩
    · exact (modify_unchanged _ here).fits (valid.fits index)

end Copying

end PackagedTask.Streams.StreamStore
