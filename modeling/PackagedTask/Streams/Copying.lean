import PackagedTask.Streams.Renewing

namespace PackagedTask.Streams.StreamStore

/-! What the copies of a stream keep of it. -/

variable {ι κ : Type}

/-- The same contents, in a buffer that goes no further. -/
structure Mirrors (before : StreamStore ι) (other : ι) (after : StreamStore κ) (one : κ) :
    Prop where
  state : after.state one = before.state other
  fits : (before.streams other).capacity ≤ (before.allocation other).length
  tight : (after.allocation one).length = (after.streams one).capacity

section Mirroring
variable {before : StreamStore ι} {after : StreamStore κ} {other : ι} {one : κ}

theorem Mirrors.head (mirrors : before.Mirrors other after one) :
    (after.streams one).head = (before.streams other).head :=
  congrArg StreamState.head mirrors.state

theorem Mirrors.capacity (mirrors : before.Mirrors other after one) :
    (after.streams one).capacity = (before.streams other).capacity :=
  congrArg StreamState.capacity mirrors.state

theorem Mirrors.contents (mirrors : before.Mirrors other after one) :
    (after.allocation one).take (before.streams other).capacity =
      (before.allocation other).take (before.streams other).capacity := by
  have contents : (after.allocation one).take (after.streams one).capacity = _ :=
    congrArg StreamState.contents mirrors.state
  rwa [mirrors.capacity] at contents

theorem Mirrors.bytes (mirrors : before.Mirrors other after one) {start count : Nat}
    (within : start + count ≤ (before.streams other).capacity) :
    (after.view one).bytes start count = (before.view other).bytes start count := by
  apply List.map_congr_left
  intro i inside
  have below : start + i < (before.streams other).capacity := by
    have := List.mem_range.mp inside
    omega
  have byte := congrArg (fun bytes => bytes[start + i]?) mirrors.contents
  simp only [List.getElem?_take, below, if_true] at byte
  simp [view, byte]

end Mirroring

variable [DecidableEq ι] [DecidableEq κ]

/-- What `after` owes where `copy` was copied from `other`; `kept` says where a stream is now. -/
structure Copied (before : StreamStore ι) (other : ι) (after : StreamStore κ) (kept : ι → κ)
    (copy : κ) (reads : Reads) : Prop where
  copied : after.state copy = before.state other
  original : after.state (kept other) = before.state other
  others : ∀ index, kept index ≠ copy → before.Unchanged index after (kept index)
  isolated : copy ≠ kept other → ∀ one, one = copy ∨ one = kept other →
    (reads.run one after).1 = (reads.run other before).1 ∧
      ∀ another, another ≠ one → after.Unchanged another (reads.run one after).2 another

/-- Both ways of copying keep a stream, and what is later read from either of two copies. -/
structure Copies (store : StreamStore ι) (this other : ι) (reads : Reads) : Prop where
  assigned : ∃ after, store.copyAssign this other = .ok after ∧
    Copied store other after id this reads
  constructed : ∃ after, store.copyConstruct other = .ok after ∧
    Copied store other after some none reads

section TwoRuns
variable {before : StreamStore ι} {after : StreamStore κ} {other : ι} {one : κ}
  {inByteCount : UInt32}

theorem Unchanged.read (inByteCount : UInt32) (same : before.Unchanged other after one) :
    (after.read one inByteCount).1 = (before.read other inByteCount).1 ∧
      (before.read other inByteCount).2.Unchanged other (after.read one inByteCount).2 one := by
  obtain ⟨object, bytes⟩ := same
  have view : after.view one = before.view other := by
    simp [StreamStore.view, object, bytes]
  rcases Nat.lt_or_ge (before.streams other).capacity
    (((before.streams other).head + inByteCount.toNat) % 2 ^ 32) with outside | passes
  · rw [read_outside outside, read_outside (object ▸ outside)]
    exact ⟨rfl, object, bytes⟩
  · rw [read_passes passes, read_passes (object ▸ passes), view, object, bytes]
    split
    · refine ⟨rfl, ?_, ?_⟩
      · simp [object]
      · simp [modify_allocation, bytes]
    · exact ⟨rfl, object, bytes⟩

theorem Unchanged.run (reads : Reads) (same : before.Unchanged other after one) :
    (reads.run one after).1 = (reads.run other before).1 := by
  induction reads generalizing before after with
  | done => rfl
  | read inByteCount next ih =>
      obtain ⟨result, later⟩ := same.read inByteCount
      simp only [Reads.run, result]
      split
      · rfl
      · simp [ih _ later]

theorem Mirrors.read (mirrors : before.Mirrors other after one)
    (within : ¬ before.PastContents other inByteCount) :
    (after.read one inByteCount).1 = (before.read other inByteCount).1 ∧
      (before.read other inByteCount).2.Mirrors other (after.read one inByteCount).2 one := by
  have head := mirrors.head
  have capacity := mirrors.capacity
  rcases Nat.lt_or_ge (before.streams other).capacity
    (((before.streams other).head + inByteCount.toNat) % 2 ^ 32) with outside | passes
  · rw [read_outside outside, read_outside (by rwa [head, capacity])]
    exact ⟨rfl, mirrors⟩
  · have fits := mirrors.fits
    rw [read_passes passes, read_passes (by rwa [head, capacity]), mirrors.tight, head, capacity]
    by_cases inside : (before.streams other).head + inByteCount.toNat ≤
        (before.streams other).capacity
    · rw [if_pos inside, if_pos (inside.trans fits), mirrors.bytes inside]
      refine ⟨rfl, ?_, ?_, ?_⟩
      · simp [StreamStore.state, modify_allocation, head, capacity, mirrors.contents]
      · simp [modify_allocation, fits]
      · simp [modify_allocation, mirrors.tight]
    · have beyond : ¬ (before.streams other).head + inByteCount.toNat ≤
          (before.allocation other).length :=
        fun still => within ⟨passes, by omega, still⟩
      rw [if_neg inside, if_neg beyond]
      exact ⟨rfl, mirrors⟩

theorem Mirrors.read_past (mirrors : before.Mirrors other after one)
    (past : before.PastContents other inByteCount) :
    (after.read one inByteCount).1 ≠ (before.read other inByteCount).1 := by
  have head := mirrors.head
  have capacity := mirrors.capacity
  obtain ⟨passes, beyond, still⟩ := past
  rw [read_passes passes, read_passes (by rwa [head, capacity]), mirrors.tight, head, capacity,
    if_pos still, if_neg (by omega)]
  simp

theorem Mirrors.run_iff (reads : Reads) (mirrors : before.Mirrors other after one) :
    (reads.run one after).1 = (reads.run other before).1 ↔ reads.Within other before := by
  induction reads generalizing before after with
  | done => simp [Reads.run, Reads.Within]
  | read inByteCount next ih =>
      by_cases past : before.PastContents other inByteCount
      · have differs := mirrors.read_past past
        simp only [Reads.run, Reads.Within, past, not_true_eq_false, false_and, iff_false]
        split <;> split <;> simp [differs]
      · obtain ⟨result, later⟩ := mirrors.read past
        simp only [Reads.run, Reads.Within, past, not_false_eq_true, true_and, result]
        split
        · simp_all
        · simp_all

end TwoRuns

section Copies
variable {store : StreamStore ι} {this other : ι} {reads : Reads}

theorem Renewed.copied_iff {before : StreamStore ι} {made after : StreamStore κ} {kept : ι → κ}
    {copy : κ} {bytes : List UInt8} (renewed : made.Renewed after copy bytes)
    (fits : before.Fits other)
    (head : (made.streams copy).head = (before.streams other).head)
    (capacity : (made.streams copy).capacity = (before.streams other).capacity)
    (length : bytes.length = (before.streams other).capacity)
    (others : ∀ index, kept index ≠ copy → before.Unchanged index made (kept index)) :
    Copied before other after kept copy reads ↔
      bytes = (before.state other).contents ∧
        (copy ≠ kept other → reads.Within other before) := by
  have tight : (after.allocation copy).length = (after.streams copy).capacity := by
    rw [renewed.bytes, renewed.object, length, capacity]
  have shows : after.state copy =
      ⟨bytes, (before.streams other).head, (before.streams other).capacity⟩ := by
    rw [state_eq_of_tight tight, renewed.bytes, renewed.object, head, capacity]
  have apart : ∀ index, kept index ≠ copy → before.Unchanged index after (kept index) :=
    fun index distinct => (others index distinct).trans (renewed.others _ distinct)
  constructor
  · intro copied
    refine ⟨congrArg StreamState.contents (shows.symm.trans copied.copied), fun distinct => ?_⟩
    have mirrors : before.Mirrors other after copy := ⟨copied.copied, fits.2, tight⟩
    exact (mirrors.run_iff reads).mp (copied.isolated distinct copy (.inl rfl)).1
  · rintro ⟨contents, within⟩
    have same : after.state copy = before.state other := by
      rw [shows, contents]
      rfl
    refine ⟨same, ?_, apart, ?_⟩
    · by_cases itself : kept other = copy
      · rw [itself, same]
      · exact (apart other itself).state
    · intro distinct one which
      refine ⟨?_, fun another elsewhere => run_unchanged reads elsewhere⟩
      rcases which with rfl | rfl
      · have mirrors : before.Mirrors other after one := ⟨same, fits.2, tight⟩
        exact (mirrors.run_iff reads).mpr (within distinct)
      · exact (apart other (Ne.symm distinct)).run reads

theorem copies_iff (valid : store.Valid) :
    Copies store this other reads ↔
      (this = other → ∀ byte ∈ (store.state other).contents, byte = 0) ∧
        reads.Within other store := by
  have fits := valid.fits other
  have length := contents_length fits
  obtain ⟨assigned, ran, renewed⟩ := copyAssign_renews valid this other
  obtain ⟨constructed, ran', renewed'⟩ := copyConstruct_renews valid other
  have first : Copied store other assigned id this reads ↔ _ :=
    renewed.copied_iff fits (by simp) (by simp) (by split <;> simp [length]) fun index apart =>
      modify_unchanged _ apart
  have second : Copied store other constructed some none reads ↔ _ :=
    renewed'.copied_iff fits rfl rfl length fun index _ => ⟨rfl, rfl⟩
  constructor
  · rintro ⟨⟨after, ran₁, copied⟩, after', ran₂, copied'⟩
    obtain rfl := Except.ok.inj (ran.symm.trans ran₁)
    obtain rfl := Except.ok.inj (ran'.symm.trans ran₂)
    refine ⟨fun itself byte member => ?_, (second.mp copied').2 (by simp)⟩
    have zeros := (first.mp copied).1
    rw [if_pos itself] at zeros
    exact List.eq_of_mem_replicate (zeros ▸ member)
  · rintro ⟨zeros, within⟩
    refine ⟨⟨_, ran, first.mpr ⟨?_, fun _ => within⟩⟩, _, ran', second.mpr ⟨rfl, fun _ => within⟩⟩
    split
    · next itself => exact (List.eq_replicate_iff.mpr ⟨length, zeros itself⟩).symm
    · rfl

end Copies

section TwoStreams

def twoStreams : StreamStore Bool where
  streams := fun index => if index then ⟨some 1, 0, 2⟩ else ⟨some 0, 1, 3⟩
  buffers := fun ref => if ref = 0 then some [1, 2, 3, 4] else if ref = 1 then some [7, 8] else none
  nextBuffer := 2

theorem twoStreams_valid : twoStreams.Valid := by
  refine ⟨⟨?_, ?_, ?_⟩, ?_⟩
  · rintro (_ | _) ref owned <;> cases owned <;> decide
  · rintro (_ | _) (_ | _) ref owned also <;> cases owned <;> cases also <;> rfl
  · intro ref used
    simp only [twoStreams] at used ⊢
    split at used
    · next first => exact first ▸ Nat.zero_lt_two
    · split at used
      · next second => exact second ▸ Nat.one_lt_two
      · exact absurd rfl used
  · rintro (_ | _) <;> exact ⟨by decide, by decide⟩

theorem twoStreams_copies :
    Copies twoStreams true false (.read 2 fun _ => .read 1 fun _ => .done) :=
  (copies_iff twoStreams_valid).mpr ⟨by decide, by decide⟩

theorem twoStreams_self : twoStreams.Valid ∧ ¬ Copies twoStreams false false .done := by
  refine ⟨twoStreams_valid, ?_⟩
  rintro ⟨⟨after, ran, copied⟩, -⟩
  have zeros : (twoStreams.copyAssign false false).toOption.map (fun after => after.state false) =
      some ⟨[0, 0, 0], 1, 3⟩ := by decide
  rw [ran] at zeros
  have left : after.state false = ⟨[0, 0, 0], 1, 3⟩ := Option.some.inj zeros
  exact absurd (left.symm.trans copied.copied) (by decide)

end TwoStreams

end PackagedTask.Streams.StreamStore
