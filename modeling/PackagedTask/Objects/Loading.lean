import PackagedTask.Objects.Records

namespace PackagedTask.Objects
open Streams Library Library.StateError Library.Iteration

abbrev IdRemap := AList fun _ : Nat => Nat

/-- The arguments and locals of `GameObjectManager::deserialize`. -/
structure Loader where
  store : Store
  stream : InputMemoryStream
  objects : List HandleRef
  istance_id_remap : IdRemap

/-- The type id is peeked at the head; `read` then consumes it again. -/
def nextObject : Reader Object := do
  let stream ← get
  let type_id := toInt32 (LittleEndian.decode (stream.peek 4))
  let rtti ← classIDToRTTI s_mClassIDToRttiMap type_id
  readObject rtti.factory

namespace Loader

def register (loader : Loader) (obj : Object) : Loader :=
  let obj_handler := loader.store.nextHandle
  let store := loader.store.registerObj obj
  { loader with
    store := store
    objects := loader.objects ++ [obj_handler]
    istance_id_remap :=
      loader.istance_id_remap.insert obj.mInstanceId (store.getInstanceId obj_handler) }

def pass (loader : Loader) : Loader ⊕ (Except Fault Unit × Loader) :=
  if loader.stream.getRemainingDataSize > 0 then
    match nextObject loader.stream with
    | .ok obj stream => .inl (register { loader with stream := stream } obj)
    | .error fault stream => .inr (.error fault, { loader with stream := stream })
  else .inr (.ok (), loader)

def start (store : Store) (objects : List HandleRef) (stream : InputMemoryStream) : Loader :=
  ⟨objects.foldl Store.dropHandle store, stream, [], ∅⟩

end Loader

def notLinked : Fault := .exception "Trying linking not exist object"

def linkKey : PObjHandle → Managed Nat
  | .null => throw .undefined
  | .placeholder m_link_key => pure m_link_key
  | .shared handle => do
      let store ← get
      match store.handles.lookup handle with
      | some handle => pure handle.m_link_key
      | none => throw .undefined

def GameObject.link (id_remap : IdRemap) (ref : ObjectRef) :
    List (Σ _ : Int, PObjHandle) → Managed Unit
  | [] => pure ()
  | ⟨key, cmp⟩ :: rest => do
      let c_inst ← linkKey cmp
      match id_remap.lookup c_inst with
      | none => throw notLinked
      | some id => do
          let ptr ← getObject id
          modify fun store => store.setComponent ref key ptr
          GameObject.link id_remap ref rest

/-- `(uint32_t)(size_t)mGameObj`: a file id again, or the low half of an address. -/
def Runtime.low32 (rt : Runtime) : GameObjectPtr → Nat
  | .null => 0
  | .fileId id => id
  | .object ref => rt.address ref % 2 ^ 32

def Component.link (rt : Runtime) (id_remap : IdRemap) (ref : ObjectRef)
    (mGameObj : GameObjectPtr) : Managed Unit :=
  match id_remap.lookup (rt.low32 mGameObj) with
  | none => throw notLinked
  | some id => do
      let go ← getObjectPtr id
      modify fun store => store.setGameObject ref (.object go)

def linkObject (rt : Runtime) (id_remap : IdRemap) (ref : ObjectRef) : Managed Unit := do
  let store ← get
  match store.objects.lookup ref with
  | none => throw .undefined
  | some object =>
      match object.body with
      | .object => pure ()
      | .component mGameObj => Component.link rt id_remap ref mGameObj
      | .gameObject mComponents =>
          GameObject.link id_remap ref (rt.componentOrder ref mComponents)

def linkAll (rt : Runtime) (id_remap : IdRemap) : List (Σ _ : Nat, ObjEntry) → Managed Unit
  | [] => pure ()
  | ⟨_, entry⟩ :: rest => do
      linkObject rt id_remap entry.unique
      linkAll rt id_remap rest

/-- `none` is a loop still running after `fuel` passes. -/
def deserialize (fuel : Nat) (rt : Runtime) (store : Store) (objects : List HandleRef)
    (stream : InputMemoryStream) : Option (Except Fault Unit × Loader) :=
  match runFor Loader.pass fuel (.start store objects stream) with
  | none => none
  | some (.error fault, loader) => some (.error fault, loader)
  | some (.ok (), loader) =>
      match linkAll rt loader.istance_id_remap (rt.objectOrder loader.store.mObjects)
          loader.store with
      | .ok () linked => some (.ok (), { loader with store := linked })
      | .error fault linked => some (.error fault, { loader with store := linked })

def Deserializes (rt : Runtime) (store : Store) (objects : List HandleRef)
    (stream : InputMemoryStream) (outcome : Except Fault Unit) (loader : Loader) : Prop :=
  ∃ fuel, deserialize fuel rt store objects stream = some (outcome, loader)

inductive Decodes : InputMemoryStream → List Object → InputMemoryStream → Prop
  | nil (stream : InputMemoryStream) : Decodes stream [] stream
  | cons {stream next last : InputMemoryStream} {obj : Object} {rest : List Object}
      (remaining : 0 < stream.getRemainingDataSize) (first : nextObject stream = .ok obj next)
      (others : Decodes next rest last) : Decodes stream (obj :: rest) last

def Loader.registerAll (loader : Loader) (objs : List Object) : Loader :=
  objs.foldl Loader.register loader

/-- The loop without the manager: where the head goes from record to record. -/
def streamPass (stream : InputMemoryStream) : InputMemoryStream ⊕ Except Fault Unit :=
  if stream.getRemainingDataSize > 0 then
    match nextObject stream with
    | .ok _ next => .inl next
    | .error fault _ => .inr (.error fault)
  else .inr (.ok ())

theorem streamPass_inl {stream next : InputMemoryStream} :
    streamPass stream = .inl next ↔
      0 < stream.getRemainingDataSize ∧ ∃ obj, nextObject stream = .ok obj next := by
  unfold streamPass
  split
  · rename_i remaining
    cases read : nextObject stream <;> simp [remaining]
  · rename_i done
    simp only [reduceCtorEq, false_iff, not_and]
    intro remaining
    exact absurd remaining done

theorem streamSteps_iff {n : Nat} {stream last : InputMemoryStream} :
    Steps streamPass n stream last ↔ ∃ objs, objs.length = n ∧ Decodes stream objs last := by
  induction n generalizing stream with
  | zero =>
      constructor
      · rintro rfl
        exact ⟨[], rfl, .nil stream⟩
      · rintro ⟨objs, empty, decoded⟩
        obtain rfl := List.length_eq_zero_iff.mp empty
        cases decoded
        rfl
  | succ n ih =>
      constructor
      · rintro ⟨next, step, rest⟩
        obtain ⟨remaining, obj, read⟩ := streamPass_inl.mp step
        obtain ⟨objs, length, decoded⟩ := ih.mp rest
        exact ⟨obj :: objs, by simp [length], .cons remaining read decoded⟩
      · rintro ⟨objs, length, decoded⟩
        cases decoded with
        | nil => simp at length
        | cons remaining read others =>
            exact ⟨_, streamPass_inl.mpr ⟨remaining, _, read⟩,
              ih.mpr ⟨_, by simpa using length, others⟩⟩

theorem pass_inl {loader next : Loader} :
    loader.pass = .inl next ↔ 0 < loader.stream.getRemainingDataSize ∧ ∃ obj stream,
      nextObject loader.stream = .ok obj stream ∧
        next = { loader.register obj with stream := stream } := by
  unfold Loader.pass
  split
  · rename_i remaining
    cases read : nextObject loader.stream with
    | ok obj stream =>
        simp only [Sum.inl.injEq, EStateM.Result.ok.injEq]
        constructor
        · rintro rfl
          exact ⟨remaining, obj, stream, ⟨rfl, rfl⟩, rfl⟩
        · rintro ⟨-, _, _, ⟨rfl, rfl⟩, rfl⟩
          rfl
    | error fault stream => simp
  · rename_i done
    simp only [reduceCtorEq, false_iff, not_and]
    intro remaining
    exact absurd remaining done

theorem registerAll_stream (loader : Loader) (objs : List Object) (stream : InputMemoryStream) :
    Loader.registerAll { loader with stream := stream } objs =
      { loader.registerAll objs with stream := stream } := by
  induction objs generalizing loader with
  | nil => rfl
  | cons obj objs ih => exact ih (loader.register obj)

theorem loaderSteps_iff {n : Nat} {loader last : Loader} :
    Steps Loader.pass n loader last ↔ ∃ objs stream, objs.length = n ∧
      Decodes loader.stream objs stream ∧
        last = { loader.registerAll objs with stream := stream } := by
  induction n generalizing loader with
  | zero =>
      constructor
      · rintro rfl
        exact ⟨[], loader.stream, rfl, .nil _, rfl⟩
      · rintro ⟨objs, stream, empty, decoded, rfl⟩
        obtain rfl := List.length_eq_zero_iff.mp empty
        cases decoded
        rfl
  | succ n ih =>
      constructor
      · rintro ⟨next, step, rest⟩
        obtain ⟨remaining, obj, stream, read, rfl⟩ := pass_inl.mp step
        obtain ⟨objs, stream', length, decoded, rfl⟩ := ih.mp rest
        refine ⟨obj :: objs, stream', by simp [length], .cons remaining read decoded, ?_⟩
        rw [registerAll_stream]
        rfl
      · rintro ⟨objs, stream, length, decoded, rfl⟩
        cases decoded with
        | nil => simp at length
        | @cons _ next _ obj objs remaining read others =>
            refine ⟨_, pass_inl.mpr ⟨remaining, obj, next, read, rfl⟩,
              ih.mpr ⟨objs, stream, by simpa using length, others, ?_⟩⟩
            rw [registerAll_stream (loader.register obj) objs next]
            rfl

theorem pass_inr {loader after : Loader} {outcome : Except Fault Unit} :
    loader.pass = .inr (outcome, after) ↔
      (loader.stream.getRemainingDataSize ≤ 0 ∧ outcome = .ok () ∧ after = loader) ∨
      (0 < loader.stream.getRemainingDataSize ∧ ∃ fault stream,
        nextObject loader.stream = .error fault stream ∧ outcome = .error fault ∧
          after = { loader with stream := stream }) := by
  unfold Loader.pass
  split
  · rename_i remaining
    have notDone : ¬ loader.stream.getRemainingDataSize ≤ 0 := by omega
    cases read : nextObject loader.stream with
    | ok obj stream => simp [notDone]
    | error fault stream =>
        simp only [Sum.inr.injEq, Prod.mk.injEq, notDone, false_and, false_or,
          EStateM.Result.error.injEq]
        constructor
        · rintro ⟨rfl, rfl⟩
          exact ⟨remaining, fault, stream, ⟨rfl, rfl⟩, rfl, rfl⟩
        · rintro ⟨-, _, _, ⟨rfl, rfl⟩, rfl, rfl⟩
          exact ⟨rfl, rfl⟩
  · rename_i done
    simp only [Sum.inr.injEq, Prod.mk.injEq]
    constructor
    · rintro ⟨rfl, rfl⟩
      exact .inl ⟨by omega, rfl, rfl⟩
    · rintro (⟨-, rfl, rfl⟩ | ⟨remaining, -⟩)
      · exact ⟨rfl, rfl⟩
      · exact absurd remaining done

def Links (rt : Runtime) (loader : Loader) (outcome : Except Fault Unit) (after : Loader) : Prop :=
  ∃ linked, after = { loader with store := linked } ∧
    match outcome with
    | .ok () => linkAll rt loader.istance_id_remap (rt.objectOrder loader.store.mObjects)
        loader.store = .ok () linked
    | .error fault => linkAll rt loader.istance_id_remap (rt.objectOrder loader.store.mObjects)
        loader.store = .error fault linked

theorem deserialize_of_runFor {fuel : Nat} {rt : Runtime} {store : Store}
    {objects : List HandleRef} {stream : InputMemoryStream} {loaded : Except Fault Unit × Loader}
    (ran : runFor Loader.pass fuel (.start store objects stream) = some loaded)
    (outcome : Except Fault Unit) (loader : Loader) :
    deserialize fuel rt store objects stream = some (outcome, loader) ↔
      match loaded.1 with
      | .error fault => outcome = .error fault ∧ loader = loaded.2
      | .ok () => Links rt loaded.2 outcome loader := by
  unfold deserialize
  rw [ran]
  obtain ⟨result, read⟩ := loaded
  cases result with
  | error fault => simp [eq_comm]
  | ok value =>
      cases value
      simp only [Links]
      cases outcome with
      | ok value =>
          cases value
          cases linkAll rt read.istance_id_remap (rt.objectOrder read.store.mObjects) read.store
          all_goals simp [eq_comm]
      | error fault =>
          cases linkAll rt read.istance_id_remap (rt.objectOrder read.store.mObjects) read.store
          all_goals simp [eq_comm, and_comm]

/-- A run of `deserialize` is a decoded list of records, registered in order, then either a
record that does not decode or the link pass. -/
theorem deserializes_iff {rt : Runtime} {store : Store} {objects : List HandleRef}
    {stream : InputMemoryStream} {outcome : Except Fault Unit} {loader : Loader} :
    Deserializes rt store objects stream outcome loader ↔
      ∃ objs last, Decodes stream objs last ∧
        ((last.getRemainingDataSize ≤ 0 ∧
            Links rt { (Loader.start store objects stream).registerAll objs with stream := last }
              outcome loader) ∨
          (0 < last.getRemainingDataSize ∧ ∃ fault stopped,
            nextObject last = .error fault stopped ∧ outcome = .error fault ∧
              loader = { (Loader.start store objects stream).registerAll objs with
                stream := stopped })) := by
  constructor
  · rintro ⟨fuel, ran⟩
    cases looped : runFor Loader.pass fuel (.start store objects stream) with
    | none => simp [deserialize, looped] at ran
    | some loaded =>
        obtain ⟨n, t, walk, left⟩ := steps_of_runFor looped
        obtain ⟨objs, last, -, decoded, rfl⟩ := loaderSteps_iff.mp walk
        have ended := (deserialize_of_runFor looped outcome loader).mp ran
        refine ⟨objs, last, decoded, ?_⟩
        rcases pass_inr.mp left with ⟨done, result, same⟩ | ⟨remaining, fault, stopped, read, result, same⟩
        · rw [result] at ended
          rw [same] at ended
          exact .inl ⟨done, ended⟩
        · rw [result] at ended
          exact .inr ⟨remaining, fault, stopped, read, ended.1, ended.2.trans same⟩
  · rintro ⟨objs, last, decoded, ended⟩
    have walk := loaderSteps_iff.mpr
      ⟨objs, last, rfl, (show Decodes (Loader.start store objects stream).stream objs last from
        decoded), rfl⟩
    rcases ended with ⟨done, linked⟩ | ⟨remaining, fault, stopped, read, rfl, rfl⟩
    · have looped := runFor_of_steps walk (pass_inr.mpr (.inl ⟨done, rfl, rfl⟩))
      exact ⟨_, (deserialize_of_runFor looped outcome loader).mpr linked⟩
    · have looped := runFor_of_steps walk
        (pass_inr.mpr (.inr ⟨remaining, fault, stopped, read, rfl, rfl⟩))
      exact ⟨_, (deserialize_of_runFor looped _ _).mpr ⟨rfl, rfl⟩⟩

theorem Decodes.deterministic {stream last last' : InputMemoryStream} {objs objs' : List Object}
    (first : Decodes stream objs last) (second : Decodes stream objs' last')
    (ends : ∀ next, streamPass last ≠ .inl next) (ends' : ∀ next, streamPass last' ≠ .inl next) :
    objs = objs' ∧ last = last' := by
  induction first generalizing objs' with
  | nil stream =>
      cases second with
      | nil => exact ⟨rfl, rfl⟩
      | cons remaining read _ => exact absurd (streamPass_inl.mpr ⟨remaining, _, read⟩) (ends _)
  | cons remaining read others ih =>
      cases second with
      | nil => exact absurd (streamPass_inl.mpr ⟨remaining, _, read⟩) (ends' _)
      | cons remaining' read' others' =>
          obtain ⟨rfl, rfl⟩ := EStateM.Result.ok.inj (read.symm.trans read')
          obtain ⟨rfl, rfl⟩ := ih others' ends
          exact ⟨rfl, rfl⟩

end PackagedTask.Objects
