import PackagedTask.Objects.Failure

namespace PackagedTask.Objects
open Streams Library Library.StateError Library.Iteration

/-! Whether the loop of `deserialize` ends. Only the records move the head, and an `Object`'s
record has no bytes. -/

/-- What any sequence of 4-byte reads does to a stream. -/
structure Walks (before after : InputMemoryStream) : Prop where
  data : after.data = before.data
  capacity : after.capacity = before.capacity
  aligned : before.head % 4 = 0 → after.head % 4 = 0
  narrow : before.head < 2 ^ 32 → after.head < 2 ^ 32
  forward : before.capacity < 2 ^ 31 → before.head ≤ before.capacity →
    before.head ≤ after.head ∧ after.head ≤ after.capacity

namespace Walks

theorem refl (stream : InputMemoryStream) : Walks stream stream :=
  ⟨rfl, rfl, id, id, fun _ inside => ⟨le_rfl, inside⟩⟩

theorem trans {first second third : InputMemoryStream} (walk : Walks first second)
    (walk' : Walks second third) : Walks first third where
  data := walk'.data.trans walk.data
  capacity := walk'.capacity.trans walk.capacity
  aligned multiple := walk'.aligned (walk.aligned multiple)
  narrow small := walk'.narrow (walk.narrow small)
  forward small inside := by
    obtain ⟨onward, within⟩ := walk.forward small inside
    have small' : second.capacity < 2 ^ 31 := by rw [walk.capacity]; exact small
    obtain ⟨onward', within'⟩ := walk'.forward small' within
    exact ⟨onward.trans onward', within'⟩

end Walks

/-- A computation whose steps are such reads, and which makes at least one unless it throws. -/
structure Advances {α : Type} (x : Reader α) : Prop where
  walks : Keeps Walks x
  strict : ∀ {stream a after}, x stream = .ok a after → stream.capacity < 2 ^ 31 →
    stream.head ≤ stream.capacity → stream.head < after.head

theorem keepsWalks_pure {α : Type} (a : α) : Keeps Walks (pure a : Reader α) :=
  Keeps.pure Walks.refl a

theorem keepsWalks_bind {α β : Type} {x : Reader α} {f : α → Reader β} (first : Keeps Walks x)
    (rest : ∀ a, Keeps Walks (f a)) : Keeps Walks (x >>= f) :=
  @Keeps.bind Fault InputMemoryStream α β Walks Walks.trans x f first rest

theorem Advances.bind {α β : Type} {x : Reader α} {f : α → Reader β} (first : Advances x)
    (rest : ∀ a, Keeps Walks (f a)) : Advances (x >>= f) where
  walks := keepsWalks_bind first.walks rest
  strict := by
    intro stream b after result small inside
    obtain ⟨a, middle, ran, others⟩ := bind_ok_iff.mp result
    have walk := (first.walks stream).1 a middle ran
    have small' : middle.capacity < 2 ^ 31 := by rw [walk.capacity]; exact small
    have onward := ((rest a middle).1 b after others).forward small' (walk.forward small inside).2
    exact (first.strict ran small inside).trans_le onward.1

theorem read_word_advances : Advances (read 4) where
  walks := by
    intro stream
    constructor
    · intro outData after result
      obtain ⟨inside, -, rfl⟩ := read_ok_iff.mp result
      rw [show (4 : UInt32).toNat = 4 from rfl] at inside ⊢
      constructor <;> dsimp only <;> omega
    · intro fault after result
      obtain ⟨-, -, rfl⟩ := read_error_iff.mp result
      exact Walks.refl after
  strict := by
    intro stream outData after result small inside
    obtain ⟨within, -, rfl⟩ := read_ok_iff.mp result
    rw [show (4 : UInt32).toNat = 4 from rfl] at within ⊢
    dsimp only
    omega

theorem readWord_advances : Advances (readWord 4) :=
  read_word_advances.bind fun _ => keepsWalks_pure _

theorem readInt32_advances : Advances readInt32 :=
  readWord_advances.bind fun _ => keepsWalks_pure _

theorem component_read_advances : Advances Component.read := by
  apply readInt32_advances.bind
  intro type_id
  apply keepsWalks_bind readWord_advances.walks
  intro inst_id
  apply keepsWalks_bind readInt32_advances.walks
  intro n_ptr
  split
  · exact keepsWalks_bind readWord_advances.walks fun _ => keepsWalks_pure _
  · exact keepsWalks_pure _

theorem readComponents_walks (size : Nat) (mComponents : ComponentMap) :
    Keeps Walks (GameObject.readComponents size mComponents) := by
  induction size generalizing mComponents with
  | zero => exact keepsWalks_pure _
  | succ size ih =>
      rw [GameObject.readComponents]
      apply keepsWalks_bind readInt32_advances.walks
      intro key
      apply keepsWalks_bind readWord_advances.walks
      intro cmp_inst
      exact ih _

theorem gameObject_read_advances : Advances GameObject.read := by
  apply readInt32_advances.bind
  intro type_id
  apply keepsWalks_bind readWord_advances.walks
  intro inst_id
  apply keepsWalks_bind readWord_advances.walks
  intro size
  exact keepsWalks_bind (readComponents_walks size ∅) fun _ => keepsWalks_pure _

theorem readObject_advances {body : Body} (consumes : body ≠ .object) :
    Advances (readObject body) := by
  cases body with
  | object => exact absurd rfl consumes
  | component mGameObj => exact component_read_advances
  | gameObject mComponents => exact gameObject_read_advances

theorem readObject_walks (body : Body) : Keeps Walks (readObject body) := by
  by_cases consumes : body = .object
  · rw [consumes]
    exact keepsWalks_pure _
  · exact (readObject_advances consumes).walks

def nextClassID (stream : InputMemoryStream) : Int := toInt32 (LittleEndian.decode (stream.peek 4))

theorem streamPass_walks {stream next : InputMemoryStream} (step : streamPass stream = .inl next) :
    Walks stream next := by
  obtain ⟨-, obj, result⟩ := streamPass_inl.mp step
  obtain ⟨rtti, -, taken⟩ := nextObject_ok result
  exact (readObject_walks rtti.factory stream).1 obj next taken

theorem streamPass_advances {stream next : InputMemoryStream} (step : streamPass stream = .inl next)
    (consumes : nextClassID stream ≠ classObject) (small : stream.capacity < 2 ^ 31)
    (inside : stream.head ≤ stream.capacity) : stream.head < next.head := by
  obtain ⟨-, obj, result⟩ := streamPass_inl.mp step
  obtain ⟨rtti, known, taken⟩ := nextObject_ok result
  refine (readObject_advances ?_).strict taken small inside
  intro isObject
  rw [← nextClassID, lookup_registry, if_neg consumes] at known
  split_ifs at known <;> cases known <;> cases isObject

theorem streamPass_object {stream : InputMemoryStream} (remaining : 0 < stream.getRemainingDataSize)
    (isObject : nextClassID stream = classObject) : streamPass stream = .inl stream := by
  refine streamPass_inl.mpr ⟨remaining, { body := .object }, ?_⟩
  rw [nextObject, bind_of_ok (get_apply stream)]
  have known : s_mClassIDToRttiMap.lookup (nextClassID stream) = some ⟨-1, "Object", .object⟩ := by
    rw [isObject]
    rfl
  rw [nextClassID] at known
  rw [bind_of_ok (classIDToRTTI_ok_iff.mpr ⟨known, rfl⟩)]
  rfl

def Terminates (rt : Runtime) (store : Store) (objects : List HandleRef)
    (stream : InputMemoryStream) : Prop :=
  ∃ outcome after, Deserializes rt store objects stream outcome after

def NoObjectRecord (stream : InputMemoryStream) : Prop :=
  ∀ n t, Steps streamPass n stream t → 0 < t.getRemainingDataSize → nextClassID t ≠ classObject

/-- The head comes back to a record of another class that was already read. -/
def Returns (stream : InputMemoryStream) : Prop :=
  ∃ n m t, Steps streamPass n stream t ∧ nextClassID t ≠ classObject ∧
    Steps streamPass (m + 1) t t

def Progresses (stream : InputMemoryStream) : Prop :=
  ∀ n t next, Steps streamPass n stream t → streamPass t = .inl next → t.head < next.head

theorem terminates_iff_halts {rt : Runtime} {store : Store} {objects : List HandleRef}
    {stream : InputMemoryStream} :
    Terminates rt store objects stream ↔ Halts streamPass stream := by
  have projected : Halts Loader.pass (.start store objects stream) ↔ Halts streamPass stream := by
    refine halts_project Loader.stream ?_ ?_ _
    · intro loader next step
      obtain ⟨remaining, obj, after, result, rfl⟩ := pass_inl.mp step
      exact streamPass_inl.mpr ⟨remaining, obj, result⟩
    · intro loader result left
      unfold streamPass
      rcases pass_inr.mp left with ⟨done, -, -⟩ | ⟨remaining, fault, stopped, result, -, -⟩
      · exact ⟨_, if_neg (by omega)⟩
      · rw [if_pos remaining, result]
        exact ⟨_, rfl⟩
  rw [← projected]
  constructor
  · rintro ⟨outcome, after, fuel, ran⟩
    cases looped : runFor Loader.pass fuel (.start store objects stream) with
    | none => simp [deserialize, looped] at ran
    | some loaded => exact ⟨fuel, loaded, looped⟩
  · rintro ⟨fuel, ⟨result, loaded⟩, looped⟩
    unfold Terminates Deserializes deserialize
    cases result with
    | error fault => exact ⟨.error fault, loaded, fuel, by rw [looped]⟩
    | ok value =>
        cases value
        cases linked : linkAll rt loaded.istance_id_remap (rt.objectOrder loaded.store.mObjects)
            loaded.store with
        | ok value final => exact ⟨.ok (), { loaded with store := final }, fuel, by simp [looped, linked]⟩
        | error fault final =>
            exact ⟨.error fault, { loaded with store := final }, fuel, by simp [looped, linked]⟩

theorem steps_walks {n : Nat} {stream t : InputMemoryStream} (walk : Steps streamPass n stream t) :
    Walks stream t :=
  walk.invariant (fun _ _ before step => before.trans (streamPass_walks step)) (Walks.refl stream)

variable {stream : InputMemoryStream}

theorem halts_iff_no_return (fresh : stream.head = 0) :
    Halts streamPass stream ↔ NoObjectRecord stream ∧ ¬ Returns stream := by
  -- the buffer never changes and heads are 32-bit words: the loop has finitely many states
  have finite : ((fun head => { stream with head := head }) '' Set.Iio (2 ^ 32)).Finite :=
    (Set.finite_Iio _).image _
  have stays : ∀ n t, Steps streamPass n stream t →
      t ∈ (fun head => { stream with head := head }) '' Set.Iio (2 ^ 32) := by
    intro n t walk
    have walks := steps_walks walk
    refine ⟨t.head, walks.narrow (by omega), ?_⟩
    rw [← walks.data, ← walks.capacity]
  rw [halts_iff_not_cycles finite stays]
  constructor
  · intro acyclic
    refine ⟨fun n t walk remaining isObject => acyclic ?_, fun returns => acyclic ?_⟩
    · exact ⟨n, 1, t, walk, by omega, t, streamPass_object remaining isObject, rfl⟩
    · obtain ⟨n, m, t, walk, -, around⟩ := returns
      exact ⟨n, m + 1, t, walk, by omega, around⟩
  · rintro ⟨noObject, noReturn⟩ ⟨n, m, t, walk, positive, around⟩
    obtain ⟨m, rfl⟩ : ∃ k, m = k + 1 := ⟨m - 1, by omega⟩
    obtain ⟨next, step, rest⟩ := around
    exact noReturn ⟨n, m, t, walk, noObject n t walk (streamPass_inl.mp step).1, next, step, rest⟩

theorem remaining_of_large (fresh : stream.head = 0) (large : 2 ^ 31 ≤ stream.capacity)
    (fits : stream.capacity ≤ 2 ^ 32) : stream.getRemainingDataSize ≤ 0 := by
  rw [InputMemoryStream.getRemainingDataSize, fresh, toInt32]
  have narrow : ((stream.capacity : Int) - (0 : Nat)).bmod (2 ^ 32) = stream.capacity - 2 ^ 32 := by
    rw [← Int.sub_bmod_right]
    exact Int.bmod_eq_of_le (by omega) (by omega)
  omega

theorem no_pass_of_large (fresh : stream.head = 0) (large : 2 ^ 31 ≤ stream.capacity)
    (fits : stream.capacity ≤ 2 ^ 32) (next : InputMemoryStream) : streamPass stream ≠ .inl next :=
  streamPass_done (remaining_of_large fresh large fits) next

theorem steps_of_large (fresh : stream.head = 0) (large : 2 ^ 31 ≤ stream.capacity)
    (fits : stream.capacity ≤ 2 ^ 32) {n : Nat} {t : InputMemoryStream}
    (walk : Steps streamPass n stream t) : t = stream := by
  cases n with
  | zero => exact Eq.symm walk
  | succ n =>
      obtain ⟨next, step, -⟩ := walk
      exact absurd step (no_pass_of_large fresh large fits next)

theorem no_return_of_fits (fresh : stream.head = 0) (fits : stream.capacity ≤ 2 ^ 32) :
    ¬ Returns stream := by
  rintro ⟨n, m, t, walk, consumes, next, step, rest⟩
  by_cases small : stream.capacity < 2 ^ 31
  · have walks := steps_walks walk
    have within := (walks.forward small (by omega)).2
    have small' : t.capacity < 2 ^ 31 := by rw [walks.capacity]; exact small
    have strict := streamPass_advances step consumes small' within
    have passed := streamPass_walks step
    have small'' : next.capacity < 2 ^ 31 := by rw [passed.capacity]; exact small'
    have back := ((steps_walks rest).forward small'' (passed.forward small' within).2).1
    omega
  · obtain rfl := steps_of_large fresh (by omega) fits walk
    exact no_pass_of_large fresh (by omega) fits next step

theorem progresses_iff (fresh : stream.head = 0) (fits : stream.capacity ≤ 2 ^ 32) :
    Progresses stream ↔ NoObjectRecord stream := by
  constructor
  · intro progresses n t walk remaining isObject
    -- `Object::read` reads nothing, so the pass leaves the head where it is
    exact lt_irrefl _ (progresses n t t walk (streamPass_object remaining isObject))
  · intro noObject n t next walk step
    have consumes := noObject n t walk (streamPass_inl.mp step).1
    by_cases small : stream.capacity < 2 ^ 31
    · have walks := steps_walks walk
      have small' : t.capacity < 2 ^ 31 := by rw [walks.capacity]; exact small
      exact streamPass_advances step consumes small' (walks.forward small (by omega)).2
    · obtain rfl := steps_of_large fresh (by omega) fits walk
      exact absurd step (no_pass_of_large fresh (by omega) fits next)

theorem terminates_iff (rt : Runtime) (store : Store) (objects : List HandleRef)
    (fresh : stream.head = 0) :
    (Terminates rt store objects stream ↔ NoObjectRecord stream ∧ ¬ Returns stream) ∧
      (stream.capacity ≤ 2 ^ 32 →
        ¬ Returns stream ∧ (Progresses stream ↔ NoObjectRecord stream)) := by
  rw [terminates_iff_halts]
  exact ⟨halts_iff_no_return fresh,
    fun fits => ⟨no_return_of_fits fresh fits, progresses_iff fresh fits⟩⟩

theorem loneGameObject_noObjectRecord : NoObjectRecord loneGameObject := by
  intro n t walk remaining
  cases n with
  | zero =>
      obtain rfl : loneGameObject = t := walk
      decide
  | succ n =>
      obtain ⟨next, first, rest⟩ := walk
      have read : streamPass loneGameObject = .inl { loneGameObject with head := 12 } := rfl
      obtain rfl := Sum.inl.inj (read.symm.trans first)
      cases n with
      | zero =>
          obtain rfl : { loneGameObject with head := 12 } = t := rest
          exact absurd remaining (by decide)
      | succ n =>
          obtain ⟨second, step, -⟩ := rest
          cases step

theorem terminates_iff_loneGameObject :
    Terminates plainRuntime {} [] loneGameObject ∧ Progresses loneGameObject := by
  have ends := terminates_iff plainRuntime {} [] (show loneGameObject.head = 0 from rfl)
  obtain ⟨noReturn, progresses⟩ := ends.2 (by decide)
  exact ⟨ends.1.mpr ⟨loneGameObject_noObjectRecord, noReturn⟩,
    progresses.mpr loneGameObject_noObjectRecord⟩

def loneObject : InputMemoryStream := streamOf [0xe8, 3, 0, 0]

theorem loneObject_not_terminates :
    ¬ Terminates plainRuntime {} [] loneObject ∧ ¬ Progresses loneObject := by
  have stuck : streamPass loneObject = .inl loneObject := streamPass_object (by decide) (by decide)
  refine ⟨fun terminates => ?_, fun progresses => ?_⟩
  · exact not_halts_of_cycles ⟨0, 1, loneObject, rfl, by decide, loneObject, stuck, rfl⟩
      (terminates_iff_halts.mp terminates)
  · exact lt_irrefl _ (progresses 0 loneObject loneObject rfl stuck)

end PackagedTask.Objects
