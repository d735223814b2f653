import PackagedTask.Objects.Termination
import PackagedTask.Streams.Values

namespace PackagedTask.Objects
open Streams Library Library.StateError Library.Iteration

/-! Where `deserialize` touches its buffer: the peek of each type id, then the 4-byte copies of the
record's `read`. -/

def words : Nat → Reader Unit
  | 0 => pure ()
  | count + 1 => do
      let _ ← readWord 4
      words count

/-- Where the copies start; a read that throws copies nothing and is the last. -/
def wordReads : Nat → InputMemoryStream → List Nat
  | 0, _ => []
  | count + 1, stream => match readWord 4 stream with
      | .ok _ after => stream.head :: wordReads count after
      | .error _ _ => []

/-- `n_ptr` of a `Component`'s record, `size` of a `GameObject`'s. -/
def thirdWord : Reader Nat := do
  let _type_id ← readWord 4
  let _inst_id ← readWord 4
  readWord 4

def Body.words : Body → InputMemoryStream → Nat
  | .object, _ => 0
  | .component _, stream => match thirdWord stream with
      | .ok n_ptr _ => if n_ptr = 0 then 3 else 4
      | .error _ _ => 3
  | .gameObject _, stream => match thirdWord stream with
      | .ok size _ => 3 + 2 * size
      | .error _ _ => 3

/-- The accesses of one pass of the loop, each 4 bytes from where it starts. -/
def passAccesses (stream : InputMemoryStream) : List Nat :=
  stream.head :: match s_mClassIDToRttiMap.lookup (nextClassID stream) with
    | some rtti => wordReads (rtti.factory.words stream) stream
    | none => []

def InBounds (stream : InputMemoryStream) : Prop :=
  ∀ n t, Steps streamPass n stream t → 0 < t.getRemainingDataSize →
    ∀ start ∈ passAccesses t, start + 4 ≤ t.capacity

section Words

def forget {α : Type} : EStateM.Result Fault InputMemoryStream α →
    EStateM.Result Fault InputMemoryStream Unit
  | .ok _ after => .ok () after
  | .error fault after => .error fault after

theorem words_add (first second : Nat) (stream : InputMemoryStream) :
    words (first + second) stream = (do words first; words second : Reader Unit) stream := by
  induction first generalizing stream with
  | zero =>
      rw [Nat.zero_add]
      rfl
  | succ first ih =>
      rw [Nat.succ_add, words, words, bind_apply]
      cases read : readWord 4 stream with
      | ok value after =>
          have rest := ih after
          simp only [bind_apply, read] at rest ⊢
          exact rest
      | error fault after => simp only [bind_apply, read]

theorem readInt32_apply (stream : InputMemoryStream) : readInt32 stream =
    match readWord 4 stream with
    | .ok value after => .ok (toInt32 value) after
    | .error fault after => .error fault after := by
  rw [readInt32, bind_apply]
  cases readWord 4 stream <;> rfl

theorem readWord_lt {stream after : InputMemoryStream} {value : Nat}
    (ran : readWord 4 stream = .ok value after) : value < 2 ^ 32 := by
  obtain ⟨outData, middle, taken, result⟩ := bind_ok_iff.mp ran
  obtain ⟨-, rfl, -⟩ := read_ok_iff.mp taken
  rw [pure_apply] at result
  cases result
  refine (LittleEndian.decode_lt _).trans_le ?_
  rw [bytes_length]
  decide

theorem toInt32_eq_zero {value : Nat} (narrow : value < 2 ^ 32) :
    toInt32 value = 0 ↔ value = 0 := by
  unfold toInt32
  constructor
  · intro zero
    have multiple := Int.dvd_of_bmod_eq_zero zero
    omega
  · rintro rfl
    rfl

theorem component_read_words (stream : InputMemoryStream) :
    forget (Component.read stream) = words ((Body.component .null).words stream) stream := by
  rw [Component.read, Body.words, thirdWord]
  simp only [bind_apply, readInt32_apply]
  cases first : readWord 4 stream with
  | error fault after => simp only [forget, words, bind_apply, first]
  | ok type_id second =>
      dsimp only
      cases readId : readWord 4 second with
      | error fault after => simp only [forget, words, bind_apply, first, readId]
      | ok inst_id third =>
          dsimp only
          cases readPtr : readWord 4 third with
          | error fault after => simp only [forget, words, bind_apply, first, readId, readPtr]
          | ok n_ptr fourth =>
              dsimp only
              have zero := toInt32_eq_zero (readWord_lt readPtr)
              by_cases null : n_ptr = 0
              · rw [if_neg (not_not.mpr (zero.mpr null)), if_pos null]
                simp only [forget, words, bind_apply, first, readId, readPtr, pure_apply]
              · rw [if_pos (zero.not.mpr null), if_neg null]
                simp only [words, bind_apply, first, readId, readPtr, pure_apply]
                cases readWord 4 fourth <;> rfl

theorem readComponents_words (size : Nat) (mComponents : ComponentMap)
    (stream : InputMemoryStream) :
    forget (GameObject.readComponents size mComponents stream) = words (2 * size) stream := by
  induction size generalizing mComponents stream with
  | zero => rfl
  | succ size ih =>
      rw [GameObject.readComponents, Nat.mul_succ, words, words]
      simp only [bind_apply, readInt32_apply]
      cases first : readWord 4 stream with
      | error fault after => rfl
      | ok key second =>
          dsimp only
          cases readInst : readWord 4 second with
          | error fault after => rfl
          | ok cmp_inst third => exact ih _ third

theorem gameObject_read_words (stream : InputMemoryStream) :
    forget (GameObject.read stream) = words ((Body.gameObject ∅).words stream) stream := by
  rw [GameObject.read, Body.words, thirdWord]
  simp only [bind_apply, readInt32_apply]
  cases first : readWord 4 stream with
  | error fault after => simp only [forget, words, bind_apply, first]
  | ok type_id second =>
      dsimp only
      cases readId : readWord 4 second with
      | error fault after => simp only [forget, words, bind_apply, first, readId]
      | ok inst_id third =>
          dsimp only
          cases readSize : readWord 4 third with
          | error fault after => simp only [forget, words, bind_apply, first, readId, readSize]
          | ok size fourth =>
              dsimp only
              rw [words_add]
              simp only [words, bind_apply, first, readId, readSize, pure_apply]
              rw [← readComponents_words size ∅ fourth]
              cases GameObject.readComponents size ∅ fourth <;> rfl

theorem readObject_words (body : Body) (stream : InputMemoryStream) :
    forget (readObject body stream) = words (body.words stream) stream := by
  cases body with
  | object => rfl
  | component mGameObj => exact component_read_words stream
  | gameObject mComponents => exact gameObject_read_words stream

theorem forget_ok {α : Type} {result : EStateM.Result Fault InputMemoryStream α}
    {after : InputMemoryStream} (ran : forget result = .ok () after) : ∃ a, result = .ok a after := by
  cases result with
  | ok a last =>
      cases ran
      exact ⟨a, rfl⟩
  | error fault last => cases ran

theorem forget_error {α : Type} {result : EStateM.Result Fault InputMemoryStream α} {fault : Fault}
    {after : InputMemoryStream} (stopped : forget result = .error fault after) :
    result = .error fault after := by
  cases result with
  | ok a last => cases stopped
  | error fault' last =>
      cases stopped
      rfl

end Words

/-! The same from the format: a record's length by the words that stand in the buffer. -/

def wordAt (stream : InputMemoryStream) (offset : Nat) : Nat :=
  LittleEndian.decode (stream.bytes (stream.head + offset) 4)

def Body.size : Body → InputMemoryStream → Nat
  | .object, _ => 0
  | .component _, stream => if wordAt stream 8 = 0 then 12 else 16
  | .gameObject _, stream => 12 + 8 * wordAt stream 8

def recordSize (stream : InputMemoryStream) : Option Nat :=
  (s_mClassIDToRttiMap.lookup (nextClassID stream)).map fun rtti => rtti.factory.size stream

/-- Where a record of the buffer starts, or the last one ends. -/
inductive Boundary (stream : InputMemoryStream) : Nat → Prop
  | first : Boundary stream stream.head
  | next {head size : Nat} (earlier : Boundary stream head)
      (record : recordSize { stream with head := head } = some size)
      (whole : head + size ≤ stream.capacity) : Boundary stream (head + size)

/-- The last bytes are part of a type id, or of a record whose length goes beyond them. -/
def EndsInside (stream : InputMemoryStream) : Prop :=
  ∃ head, Boundary stream head ∧ head < stream.capacity ∧
    (stream.capacity < head + 4 ∨
      ∃ size, recordSize { stream with head := head } = some size ∧ stream.capacity < head + size)

def LoopThrows (stream : InputMemoryStream) : Prop :=
  ∀ store objects, ∃ fuel fault loader,
    runFor Loader.pass fuel (.start store objects stream) = some (.error fault, loader) ∧
      fault ≠ .undefined

structure StaysInside (stream : InputMemoryStream) : Prop where
  inBounds : InBounds stream
  throws : EndsInside stream → LoopThrows stream

def MeetsUnknown (stream : InputMemoryStream) : Prop :=
  ∃ n t, Steps streamPass n stream t ∧ 0 < t.getRemainingDataSize ∧
    s_mClassIDToRttiMap.lookup (nextClassID t) = none

section Loop

variable {stream : InputMemoryStream}

theorem nextObject_known {rtti : RTTI}
    (known : s_mClassIDToRttiMap.lookup (nextClassID stream) = some rtti) :
    nextObject stream = readObject rtti.factory stream := by
  rw [nextClassID] at known
  rw [nextObject, bind_of_ok (get_apply stream),
    bind_of_ok (classIDToRTTI_ok_iff.mpr ⟨known, rfl⟩)]

theorem nextObject_unknown (unknown : s_mClassIDToRttiMap.lookup (nextClassID stream) = none) :
    ∃ text, nextObject stream = .error (.exception text) stream := by
  obtain ⟨text, stopped⟩ := classIDToRTTI_unknown stream unknown
  rw [nextClassID] at stopped
  rw [nextObject, bind_of_ok (get_apply stream), bind_of_error stopped]
  exact ⟨text, rfl⟩

theorem loopThrows_iff : LoopThrows stream ↔ ∃ n t fault after, Steps streamPass n stream t ∧
    0 < t.getRemainingDataSize ∧ nextObject t = .error fault after ∧ fault ≠ .undefined := by
  constructor
  · intro throws
    obtain ⟨fuel, fault, loader, ran, thrown⟩ := throws {} []
    obtain ⟨n, last, walk, left⟩ := steps_of_runFor ran
    obtain ⟨objs, t, length, decoded, rfl⟩ := loaderSteps_iff.mp walk
    rcases pass_inr.mp left with ⟨-, wrong, -⟩ | ⟨remaining, stopped, after, read, same, -⟩
    · cases wrong
    · cases same
      exact ⟨n, t, fault, after, streamSteps_iff.mpr ⟨objs, length, decoded⟩, remaining, read,
        thrown⟩
  · rintro ⟨n, t, fault, after, walk, remaining, read, thrown⟩ store objects
    obtain ⟨objs, length, decoded⟩ := streamSteps_iff.mp walk
    have walk' : Steps Loader.pass n (.start store objects stream)
        { (Loader.start store objects stream).registerAll objs with stream := t } :=
      loaderSteps_iff.mpr ⟨objs, t, length, decoded, rfl⟩
    have left : Loader.pass
        { (Loader.start store objects stream).registerAll objs with stream := t } =
          .inr (.error fault,
            { (Loader.start store objects stream).registerAll objs with stream := after }) :=
      pass_inr.mpr (.inr ⟨remaining, fault, after, read, rfl, rfl⟩)
    exact ⟨n + 1, fault, _, runFor_of_steps walk' left, thrown⟩

theorem MeetsUnknown.loopThrows (unknown : MeetsUnknown stream) : LoopThrows stream := by
  obtain ⟨n, t, walk, remaining, missing⟩ := unknown
  obtain ⟨text, stopped⟩ := nextObject_unknown missing
  exact loopThrows_iff.mpr ⟨n, t, _, _, walk, remaining, stopped, by simp⟩

end Loop

section Heads

variable {stream : InputMemoryStream}

def Addressed (stream : InputMemoryStream) : Prop :=
  (stream.capacity < 2 ^ 31 ∧ stream.head ≤ stream.capacity) ∨
    (2 ^ 32 ≤ stream.capacity ∧ stream.head < 2 ^ 32 ∧ stream.head % 4 = 0)

theorem Walks.addressed {after : InputMemoryStream} (walks : Walks stream after)
    (addressed : Addressed stream) : Addressed after := by
  unfold Addressed
  rw [walks.capacity]
  rcases addressed with ⟨small, inside⟩ | ⟨large, narrow, multiple⟩
  · have onward := (walks.forward small inside).2
    rw [walks.capacity] at onward
    exact .inl ⟨small, onward⟩
  · exact .inr ⟨large, walks.narrow narrow, walks.aligned multiple⟩

theorem readWord_inside {after : InputMemoryStream} {value : Nat} (addressed : Addressed stream)
    (ran : readWord 4 stream = .ok value after) : stream.head + 4 ≤ stream.capacity := by
  obtain ⟨outData, middle, taken, -⟩ := bind_ok_iff.mp ran
  have within := (read_ok_iff.mp taken).1
  rw [show (4 : UInt32).toNat = 4 from rfl] at within
  rcases addressed with ⟨small, inside⟩ | ⟨large, narrow, multiple⟩
  · omega
  · omega

theorem wordReads_inside {count : Nat} (addressed : Addressed stream) :
    ∀ start ∈ wordReads count stream, start + 4 ≤ stream.capacity := by
  induction count generalizing stream with
  | zero => simp [wordReads]
  | succ count ih =>
      intro start member
      rw [wordReads] at member
      cases first : readWord 4 stream with
      | error fault after =>
          rw [first] at member
          cases member
      | ok value after =>
          rw [first] at member
          rcases List.mem_cons.mp member with rfl | later
          · exact readWord_inside addressed first
          · have walks := (readWord_advances.walks stream).1 value after first
            have rest := ih (walks.addressed addressed) start later
            rwa [walks.capacity] at rest

theorem inBounds_iff_peeks (addressed : Addressed stream) :
    InBounds stream ↔ ∀ n t, Steps streamPass n stream t → 0 < t.getRemainingDataSize →
      t.head + 4 ≤ t.capacity := by
  constructor
  · intro inside n t walk remaining
    exact inside n t walk remaining t.head List.mem_cons_self
  · intro peeks n t walk remaining start member
    rcases List.mem_cons.mp member with rfl | copied
    · exact peeks n t walk remaining
    · cases known : s_mClassIDToRttiMap.lookup (nextClassID t) with
      | none =>
          rw [known] at copied
          cases copied
      | some rtti =>
          rw [known] at copied
          exact wordReads_inside ((steps_walks walk).addressed addressed) start copied

end Heads

section Small

variable {stream : InputMemoryStream}

theorem remaining_pos (small : stream.capacity < 2 ^ 31) (remaining : stream.head < stream.capacity) :
    0 < stream.getRemainingDataSize := by
  rw [remaining_of_le remaining.le small]
  omega

theorem readWord_whole (small : stream.capacity < 2 ^ 31)
    (whole : stream.head + 4 ≤ stream.capacity) :
    readWord 4 stream = .ok (wordAt stream 0) (advance stream 4) := by
  have exact_sum : (stream.head + (4 : UInt32).toNat) % 2 ^ 32 = stream.head + 4 :=
    Nat.mod_eq_of_lt (show stream.head + 4 < 2 ^ 32 by omega)
  have taken : read 4 stream = .ok (stream.bytes stream.head 4) (advance stream 4) := by
    refine read_ok_iff.mpr ⟨?_, rfl, ?_⟩
    · rw [exact_sum]
      exact whole
    · rw [exact_sum]
      rfl
  rw [readWord, bind_of_ok taken]
  rfl

theorem readWord_cut (small : stream.capacity < 2 ^ 31) (inside : stream.head ≤ stream.capacity)
    (cut : stream.capacity < stream.head + 4) : Throws (readWord 4) stream := by
  have exact_sum : (stream.head + (4 : UInt32).toNat) % 2 ^ 32 = stream.head + 4 :=
    Nat.mod_eq_of_lt (show stream.head + 4 < 2 ^ 32 by omega)
  refine Throws.bind ⟨_, _, read_error_iff.mpr ⟨?_, rfl, rfl⟩⟩ _
  rw [exact_sum]
  exact cut

theorem words_whole {count : Nat} (small : stream.capacity < 2 ^ 31)
    (whole : stream.head + 4 * count ≤ stream.capacity) :
    words count stream = .ok () (advance stream (4 * count)) := by
  induction count generalizing stream with
  | zero => rfl
  | succ count ih =>
      have rest := @ih (advance stream 4) small (by simp only [advance]; omega)
      rw [words, bind_of_ok (readWord_whole small (by omega)), rest, advance_advance]
      congr 2
      omega

theorem words_cut {count : Nat} (small : stream.capacity < 2 ^ 31)
    (inside : stream.head ≤ stream.capacity) (cut : stream.capacity < stream.head + 4 * count) :
    Throws (words count) stream := by
  induction count generalizing stream with
  | zero => omega
  | succ count ih =>
      rw [words]
      by_cases whole : stream.head + 4 ≤ stream.capacity
      · refine Throws.after (readWord_whole small whole) (ih small whole ?_)
        simp only [advance]
        omega
      · exact (readWord_cut small inside (by omega)).bind _

theorem thirdWord_whole (small : stream.capacity < 2 ^ 31)
    (whole : stream.head + 12 ≤ stream.capacity) :
    thirdWord stream = .ok (wordAt stream 8) (advance stream 12) := by
  have second : (advance stream 4).head + 4 ≤ stream.capacity := by simp only [advance]; omega
  have third : (advance stream 8).head + 4 ≤ stream.capacity := by simp only [advance]; omega
  rw [thirdWord, bind_of_ok (readWord_whole small (by omega)),
    bind_of_ok (@readWord_whole (advance stream 4) small second), advance_advance,
    @readWord_whole (advance stream 8) small third, advance_advance]
  rfl

theorem Body.words_size (body : Body) (small : stream.capacity < 2 ^ 31) :
    4 * body.words stream = body.size stream ∨
      (stream.capacity < stream.head + 12 ∧ 3 ≤ body.words stream ∧ 12 ≤ body.size stream) := by
  by_cases whole : stream.head + 12 ≤ stream.capacity
  · left
    cases body with
    | object => rfl
    | component mGameObj =>
        simp only [Body.words, Body.size, thirdWord_whole small whole]
        split_ifs <;> rfl
    | gameObject mComponents =>
        simp only [Body.words, Body.size, thirdWord_whole small whole]
        omega
  · cases body with
    | object => exact .inl rfl
    | component mGameObj =>
        refine .inr ⟨by omega, ?_, ?_⟩
        · rw [Body.words]
          split <;> [split_ifs <;> omega; exact le_rfl]
        · rw [Body.size]
          split_ifs <;> omega
    | gameObject mComponents =>
        refine .inr ⟨by omega, ?_, ?_⟩
        · rw [Body.words]
          split <;> omega
        · rw [Body.size]
          omega

theorem readObject_whole {body : Body} (small : stream.capacity < 2 ^ 31)
    (whole : stream.head + body.size stream ≤ stream.capacity) :
    ∃ obj, readObject body stream = .ok obj (advance stream (body.size stream)) := by
  rcases body.words_size small with count | ⟨short, -, long⟩
  · rw [← count] at whole ⊢
    exact forget_ok ((readObject_words body stream).trans (words_whole small whole))
  · omega

theorem readObject_cut {body : Body} (small : stream.capacity < 2 ^ 31)
    (inside : stream.head ≤ stream.capacity)
    (cut : stream.capacity < stream.head + body.size stream) : Throws (readObject body) stream := by
  have beyond : stream.capacity < stream.head + 4 * body.words stream := by
    rcases body.words_size small with count | ⟨short, three, -⟩
    · rwa [count]
    · omega
  obtain ⟨text, after, stopped⟩ := words_cut small inside beyond
  exact ⟨text, after, forget_error ((readObject_words body stream).trans stopped)⟩

theorem recordSize_some {size : Nat} (record : recordSize stream = some size) :
    ∃ rtti, s_mClassIDToRttiMap.lookup (nextClassID stream) = some rtti ∧
      rtti.factory.size stream = size :=
  Option.map_eq_some_iff.mp record

theorem streamPass_whole {size : Nat} (small : stream.capacity < 2 ^ 31)
    (remaining : stream.head < stream.capacity) (record : recordSize stream = some size)
    (whole : stream.head + size ≤ stream.capacity) :
    streamPass stream = .inl (advance stream size) := by
  obtain ⟨rtti, known, rfl⟩ := recordSize_some record
  obtain ⟨obj, ran⟩ := readObject_whole small whole
  exact streamPass_inl.mpr
    ⟨remaining_pos small remaining, obj, (nextObject_known known).trans ran⟩

theorem streamPass_record {next : InputMemoryStream} (small : stream.capacity < 2 ^ 31)
    (inside : stream.head ≤ stream.capacity) (step : streamPass stream = .inl next) :
    ∃ size, recordSize stream = some size ∧ stream.head + size ≤ stream.capacity ∧
      next = advance stream size := by
  obtain ⟨remaining, obj, ran⟩ := streamPass_inl.mp step
  obtain ⟨rtti, known, taken⟩ := nextObject_ok ran
  have record : recordSize stream = some (rtti.factory.size stream) := by
    rw [recordSize, nextClassID, known]
    rfl
  have whole : stream.head + rtti.factory.size stream ≤ stream.capacity := by
    by_contra cut
    obtain ⟨text, after, stopped⟩ :=
      @readObject_cut stream rtti.factory small inside (by omega)
    rw [taken] at stopped
    cases stopped
  rw [remaining_of_le inside small] at remaining
  have same := streamPass_whole small (by omega) record whole
  exact ⟨_, record, whole, Sum.inl.inj (step.symm.trans same)⟩

theorem Boundary.inside {head : Nat} (boundary : Boundary stream head)
    (inside : stream.head ≤ stream.capacity) : head ≤ stream.capacity := by
  cases boundary with
  | first => exact inside
  | next earlier record whole => exact whole

theorem Boundary.reached {head : Nat} (boundary : Boundary stream head)
    (small : stream.capacity < 2 ^ 31) (inside : stream.head ≤ stream.capacity) :
    ∃ n, Steps streamPass n stream { stream with head := head } := by
  induction boundary with
  | first => exact ⟨0, rfl⟩
  | @next head size earlier record whole ih =>
      obtain ⟨n, walk⟩ := ih
      rcases (earlier.inside inside).lt_or_eq with remaining | ended
      · exact ⟨n + 1, walk.snoc (streamPass_whole small remaining record whole)⟩
      · obtain rfl : size = 0 := by omega
        exact ⟨n, walk⟩

theorem boundary_of_steps {n : Nat} {t : InputMemoryStream} (small : stream.capacity < 2 ^ 31)
    (inside : stream.head ≤ stream.capacity) (walk : Steps streamPass n stream t) :
    Boundary stream t.head ∧ t = { stream with head := t.head } := by
  have step : ∀ before next,
      (Boundary stream before.head ∧ before = { stream with head := before.head }) →
      streamPass before = .inl next →
        Boundary stream next.head ∧ next = { stream with head := next.head } := by
    rintro before next ⟨boundary, same⟩ pass
    rw [same] at pass
    obtain ⟨size, record, whole, rfl⟩ :=
      @streamPass_record { stream with head := before.head } _ small (boundary.inside inside) pass
    exact ⟨boundary.next record whole, rfl⟩
  exact walk.invariant step ⟨.first, rfl⟩

theorem inBounds_iff_small (small : stream.capacity < 2 ^ 31)
    (inside : stream.head ≤ stream.capacity) : InBounds stream ↔
      ∀ head, Boundary stream head → head < stream.capacity → head + 4 ≤ stream.capacity := by
  rw [inBounds_iff_peeks (.inl ⟨small, inside⟩)]
  constructor
  · intro peeks head boundary remaining
    obtain ⟨n, walk⟩ := boundary.reached small inside
    exact peeks n _ walk (@remaining_pos { stream with head := head } small remaining)
  · intro starts n t walk remaining
    obtain ⟨boundary, same⟩ := boundary_of_steps small inside walk
    have walks := steps_walks walk
    have within := (walks.forward small inside).2
    rw [remaining_of_le within (by rw [walks.capacity]; exact small)] at remaining
    rw [walks.capacity] at remaining ⊢
    exact starts t.head boundary (by omega)

theorem loopThrows_small (small : stream.capacity < 2 ^ 31)
    (inside : stream.head ≤ stream.capacity) {head size : Nat} (boundary : Boundary stream head)
    (remaining : head < stream.capacity)
    (record : recordSize { stream with head := head } = some size)
    (cut : stream.capacity < head + size) : LoopThrows stream := by
  obtain ⟨n, walk⟩ := boundary.reached small inside
  obtain ⟨rtti, known, rfl⟩ := recordSize_some record
  obtain ⟨text, after, stopped⟩ :=
    @readObject_cut { stream with head := head } _ small remaining.le cut
  have passes := @remaining_pos { stream with head := head } small remaining
  exact loopThrows_iff.mpr
    ⟨n, _, _, after, walk, passes, (nextObject_known known).trans stopped, by simp⟩

end Small

section Vast

variable {stream : InputMemoryStream}

theorem words_vast (vast : 2 ^ 32 ≤ stream.capacity) (count : Nat) :
    ∃ after, words count stream = .ok () after := by
  induction count generalizing stream with
  | zero => exact ⟨stream, rfl⟩
  | succ count ih =>
      have within : (stream.head + (4 : UInt32).toNat) % 2 ^ 32 ≤ stream.capacity := by omega
      have taken := read_ok_iff.mpr ⟨within, rfl, rfl⟩
      obtain ⟨after, rest⟩ :=
        @ih { stream with head := (stream.head + (4 : UInt32).toNat) % 2 ^ 32 } vast
      refine ⟨after, ?_⟩
      rw [words, readWord, bind_apply, bind_of_ok taken]
      exact rest

theorem meetsUnknown_of_throws (fresh : stream.head = 0) (large : 2 ^ 31 ≤ stream.capacity)
    (throws : LoopThrows stream) : MeetsUnknown stream := by
  obtain ⟨n, t, fault, after, walk, remaining, stopped, -⟩ := loopThrows_iff.mp throws
  refine ⟨n, t, walk, remaining, ?_⟩
  by_cases fits : stream.capacity ≤ 2 ^ 32
  · obtain rfl := steps_of_large fresh large fits walk
    have done := remaining_of_large fresh large fits
    omega
  · have vast : 2 ^ 32 ≤ t.capacity := by rw [(steps_walks walk).capacity]; omega
    cases known : s_mClassIDToRttiMap.lookup (nextClassID t) with
    | none => rfl
    | some rtti =>
        obtain ⟨last, counted⟩ := words_vast vast (rtti.factory.words t)
        rw [← readObject_words, ← nextObject_known known, stopped] at counted
        cases counted

theorem inBounds_of_large (fresh : stream.head = 0) (large : 2 ^ 31 ≤ stream.capacity) :
    InBounds stream := by
  by_cases fits : stream.capacity ≤ 2 ^ 32
  · intro n t walk remaining
    obtain rfl := steps_of_large fresh large fits walk
    have done := remaining_of_large fresh large fits
    omega
  · have addressed : Addressed stream := .inr ⟨by omega, by omega, by omega⟩
    rw [inBounds_iff_peeks addressed]
    intro n t walk remaining
    rcases (steps_walks walk).addressed addressed with ⟨small, -⟩ | ⟨vast, narrow, multiple⟩
    · rw [(steps_walks walk).capacity] at small
      omega
    · omega

end Vast

/-- Below 2^31 bytes no record may leave 1, 2 or 3 bytes behind it. From there on the loop enters no
record, or reads on as if heads were 32-bit words. -/
theorem staysInside_iff {stream : InputMemoryStream} (fresh : stream.head = 0) :
    StaysInside stream ↔
      (stream.capacity < 2 ^ 31 → ∀ head, Boundary stream head → head < stream.capacity →
        head + 4 ≤ stream.capacity) ∧
      (2 ^ 31 ≤ stream.capacity → EndsInside stream → MeetsUnknown stream) := by
  have inside : stream.head ≤ stream.capacity := by omega
  constructor
  · intro stays
    refine ⟨fun small => (inBounds_iff_small small inside).mp stays.inBounds, fun large ends => ?_⟩
    exact meetsUnknown_of_throws fresh large (stays.throws ends)
  · rintro ⟨starts, meets⟩
    by_cases small : stream.capacity < 2 ^ 31
    · refine ⟨(inBounds_iff_small small inside).mpr (starts small), ?_⟩
      rintro ⟨head, boundary, remaining, stray | ⟨size, record, cut⟩⟩
      · have fits := starts small head boundary remaining
        omega
      · exact loopThrows_small small inside boundary remaining record cut
    · exact ⟨inBounds_of_large fresh (by omega), fun ends => (meets (by omega) ends).loopThrows⟩

theorem loneGameObject_boundary {head : Nat} (boundary : Boundary loneGameObject head) :
    head = 0 ∨ head = 12 := by
  induction boundary with
  | first => exact .inl rfl
  | next earlier record whole ih =>
      rcases ih with rfl | rfl
      · obtain rfl := Option.some.inj
          ((show recordSize { loneGameObject with head := 0 } = some 12 from rfl).symm.trans record)
        exact .inr rfl
      · rw [show recordSize { loneGameObject with head := 12 } = none from rfl] at record
        cases record

theorem staysInside_loneGameObject : StaysInside loneGameObject := by
  refine (staysInside_iff rfl).mpr ⟨fun _ head boundary remaining => ?_, fun large => ?_⟩
  · rw [show loneGameObject.capacity = 12 from rfl] at remaining ⊢
    rcases loneGameObject_boundary boundary with rfl | rfl
    · omega
    · omega
  · exact absurd large (by decide)

def strayByte : InputMemoryStream := streamOf [0xea, 3, 0, 0, 1, 0, 0, 0, 0, 0, 0, 0, 0]

theorem strayByte_leaves : ¬ StaysInside strayByte := by
  intro stays
  have read : streamPass strayByte = .inl { strayByte with head := 12 } := rfl
  have peek := stays.inBounds 1 { strayByte with head := 12 } ⟨_, read, rfl⟩ (by decide) 12
    List.mem_cons_self
  exact absurd peek (by decide)

end PackagedTask.Objects
