import PackagedTask.Objects.Merge

namespace PackagedTask.Objects
open Streams Library Library.StateError Store

/-! What a `deserialize` that throws leaves behind. -/

namespace Store

def ownedObjects (store : Store) : Set ObjectRef :=
  {ref | ∃ id entry, store.mObjects.lookup id = some entry ∧ entry.unique = ref}

/-- Objects one can get to from the manager's table and from the handles in `vector`. -/
inductive Accessible (store : Store) (vector : List HandleRef) : ObjectRef → Prop
  | owned {ref} (owned : ref ∈ store.ownedObjects) : Accessible store vector ref
  | vector {handle ref} (member : handle ∈ vector)
      (points : store.resolve (.shared handle) = some ref) : Accessible store vector ref
  | component {ref ref' mComponents key ptr} (from_ : Accessible store vector ref)
      (here : store.bodyAt ref = some (.gameObject mComponents))
      (slot : mComponents.lookup key = some ptr) (points : store.resolve ptr = some ref') :
      Accessible store vector ref'
  | owner {ref ref'} (from_ : Accessible store vector ref)
      (here : store.bodyAt ref = some (.component (.object ref'))) : Accessible store vector ref'

/-- A null component handle, or an owner that is still a file id. -/
def Unresolved (store : Store) : Body → Prop
  | .object => False
  | .component mGameObj => ∃ id, mGameObj = .fileId id
  | .gameObject mComponents => ∃ key ptr, mComponents.lookup key = some ptr ∧
      store.resolve ptr = none

def AllResolved (store : Store) (vector : List HandleRef) : Prop :=
  ∀ ref body, store.Accessible vector ref → store.bodyAt ref = some body → ¬ store.Unresolved body

end Store

structure LeavesNoTrace (before : Store) (after : Loader) : Prop where
  owned : after.store.ownedObjects = before.ownedObjects
  resolved : after.store.AllResolved after.objects

def FirstDecodes (stream : InputMemoryStream) : Prop :=
  0 < stream.getRemainingDataSize ∧ ∃ obj next, nextObject stream = .ok obj next

theorem registerObj_mObjects (store : Store) (ob : Object) :
    (store.registerObj ob).mObjects.lookup store.mNextAvailableID =
      some ⟨store.nextObject, store.nextHandle⟩ := by
  unfold registerObj
  split
  · rw [withNewObject, AList.lookup_insert]
  · rw [destroyObject_mObjects, withNewObject, AList.lookup_insert]

theorem registerObj_counters (store : Store) (ob : Object) :
    (store.registerObj ob).nextObject = store.nextObject + 1 ∧
      (store.registerObj ob).nextHandle = store.nextHandle + 1 := by
  unfold registerObj
  split
  · exact ⟨rfl, rfl⟩
  · rename_i overwritten taken
    obtain ⟨-, objects, handles⟩ := destroyObject_keeps (store.withNewObject ob) overwritten.unique
    exact ⟨objects, handles⟩

theorem registerAll_counters (loader : Loader) (objs : List Object) :
    (loader.registerAll objs).store.nextObject = loader.store.nextObject + objs.length ∧
      (loader.registerAll objs).store.nextHandle = loader.store.nextHandle + objs.length := by
  induction objs generalizing loader with
  | nil => exact ⟨rfl, rfl⟩
  | cons obj objs ih =>
      obtain ⟨objects, handles⟩ := ih (loader.register obj)
      obtain ⟨object, handle⟩ := registerObj_counters loader.store obj
      rw [List.length_cons]
      constructor
      · refine objects.trans ?_
        simp only [Loader.register, object]
        lia
      · refine handles.trans ?_
        simp only [Loader.register, handle]
        lia

theorem registerAll_nextObject (loader : Loader) (objs : List Object) :
    (loader.registerAll objs).store.nextObject = loader.store.nextObject + objs.length :=
  (registerAll_counters loader objs).1

theorem registerAll_nextHandle (loader : Loader) (objs : List Object) :
    (loader.registerAll objs).store.nextHandle = loader.store.nextHandle + objs.length :=
  (registerAll_counters loader objs).2

theorem last_owned (loader : Loader) (objs : List Object) (obj : Object) :
    loader.store.nextObject + objs.length ∈
      (loader.registerAll (objs ++ [obj])).store.ownedObjects := by
  rw [← registerAll_nextObject, Loader.registerAll, List.foldl_append]
  exact ⟨_, _, registerObj_mObjects _ _, rfl⟩

theorem linkKey_keeps (ptr : PObjHandle) : Keeps Eq (linkKey ptr) := by
  cases ptr with
  | null => exact .throw (fun _ => rfl) _
  | placeholder m_link_key => exact .pure (fun _ => rfl) _
  | shared handle =>
      apply Keeps.bind_eq (.get fun _ => rfl)
      intro store
      cases store.handles.lookup handle with
      | none => exact .throw (fun _ => rfl) _
      | some cell => exact .pure (fun _ => rfl) _

theorem lookup_keeps {α : Type} (id : Nat) (result : Store → ObjEntry → α) : Keeps Eq (do
    let store ← get
    match store.mObjects.lookup id with
    | none => throw notCreated
    | some entry => pure (result store entry) : Managed α) := by
  apply Keeps.bind_eq (.get fun _ => rfl)
  intro store
  cases store.mObjects.lookup id with
  | none => exact .throw (fun _ => rfl) _
  | some entry => exact .pure (fun _ => rfl) _

theorem getObject_keeps (id : Nat) : Keeps Eq (getObject id) :=
  lookup_keeps id fun store entry => store.lock entry.handle

theorem getObjectPtr_keeps (id : Nat) : Keeps Eq (getObjectPtr id) :=
  lookup_keeps id fun _ entry => entry.unique

def SameTable (before after : Store) : Prop := after.mObjects = before.mObjects

theorem SameTable.refl (store : Store) : SameTable store store := rfl

theorem SameTable.trans {a b c : Store} (first : SameTable a b) (second : SameTable b c) :
    SameTable a c := Eq.trans second first

theorem SameTable.of_eq {a b : Store} (same : a = b) : SameTable a b := same ▸ rfl

theorem setComponent_sameTable (store : Store) (ref : ObjectRef) (key : Int) (ptr : PObjHandle) :
    SameTable store (store.setComponent ref key ptr) := by
  unfold setComponent
  split
  · split
    · exact (release_frame _ _).mObjects
    · rfl
  · rfl

theorem setGameObject_sameTable (store : Store) (ref : ObjectRef) (go : GameObjectPtr) :
    SameTable store (store.setGameObject ref go) := by
  unfold SameTable setGameObject
  rw [modifyObject_eq]

theorem GameObject.link_sameTable (id_remap : IdRemap) (ref : ObjectRef)
    (slots : List (Σ _ : Int, PObjHandle)) : Keeps SameTable (GameObject.link id_remap ref slots) := by
  induction slots with
  | nil => exact .pure .refl _
  | cons slot slots ih =>
      apply Keeps.bind .trans ((linkKey_keeps _).mono .of_eq)
      intro c_inst
      cases id_remap.lookup c_inst with
      | none => exact .throw .refl _
      | some id =>
          apply Keeps.bind .trans ((getObject_keeps id).mono .of_eq)
          intro ptr
          apply Keeps.bind .trans (.modify fun store => setComponent_sameTable store _ _ _)
          exact fun _ => ih

theorem linkObject_sameTable (rt : Runtime) (id_remap : IdRemap) (ref : ObjectRef) :
    Keeps SameTable (linkObject rt id_remap ref) := by
  apply Keeps.bind .trans (.get .refl)
  intro store
  cases store.objects.lookup ref with
  | none => exact .throw .refl _
  | some object =>
      simp only
      cases object.body with
      | object => exact .pure .refl _
      | component mGameObj =>
          simp only [Component.link]
          cases id_remap.lookup (rt.low32 mGameObj) with
          | none => exact .throw .refl _
          | some id =>
              apply Keeps.bind .trans ((getObjectPtr_keeps id).mono .of_eq)
              exact fun go => .modify fun store => setGameObject_sameTable store _ _
      | gameObject mComponents => exact GameObject.link_sameTable id_remap ref _

theorem linkAll_sameTable (rt : Runtime) (id_remap : IdRemap)
    (entries : List (Σ _ : Nat, ObjEntry)) : Keeps SameTable (linkAll rt id_remap entries) := by
  induction entries with
  | nil => exact .pure .refl _
  | cons entry entries ih =>
      exact .bind .trans (linkObject_sameTable rt id_remap entry.2.unique) fun _ => ih

theorem GameObject.link_empty (ref : ObjectRef) (slots : List (Σ _ : Int, PObjHandle)) :
    Keeps Eq (GameObject.link ∅ ref slots) := by
  cases slots with
  | nil => exact .pure (fun _ => rfl) _
  | cons slot slots =>
      apply Keeps.bind_eq (linkKey_keeps _)
      exact fun c_inst => .throw (fun _ => rfl) _

theorem linkAll_empty (rt : Runtime) (entries : List (Σ _ : Nat, ObjEntry)) :
    Keeps Eq (linkAll rt ∅ entries) := by
  induction entries with
  | nil => exact .pure (fun _ => rfl) _
  | cons entry entries ih =>
      refine Keeps.bind_eq ?_ fun _ => ih
      apply Keeps.bind_eq (.get fun _ => rfl)
      intro store
      cases store.objects.lookup entry.2.unique with
      | none => exact .throw (fun _ => rfl) _
      | some object =>
          simp only
          cases object.body with
          | object => exact .pure (fun _ => rfl) _
          | component mGameObj => exact .throw (fun _ => rfl) _
          | gameObject mComponents => exact GameObject.link_empty _ _

variable {rt : Runtime} {store : Store} {objects : List HandleRef} {stream : InputMemoryStream}
  {fault : Fault} {after : Loader}

theorem failed_decodes (failed : Deserializes rt store objects stream (.error fault) after) :
    ∃ objs last, Decodes stream objs last ∧
      SameTable ((Loader.start store objects stream).registerAll objs).store after.store ∧
      (objs = [] → ¬ FirstDecodes stream ∧
        after.store = (Loader.start store objects stream).store ∧ after.objects = []) := by
  obtain ⟨objs, last, decoded, ended⟩ := deserializes_iff.mp failed
  refine ⟨objs, last, decoded, ?_⟩
  rcases ended with ⟨done, linked, rfl, stopped⟩ | ⟨-, _, stopped, failing, -, rfl⟩
  · refine ⟨(linkAll_sameTable rt _ _ _).2 _ _ stopped, ?_⟩
    rintro rfl
    cases decoded
    refine ⟨?_, ((linkAll_empty rt _ _).2 _ _ stopped).symm, rfl⟩
    rintro ⟨remaining, -⟩
    omega
  · refine ⟨rfl, ?_⟩
    rintro rfl
    cases decoded
    refine ⟨?_, rfl, rfl⟩
    rintro ⟨-, obj, next, read⟩
    rw [failing] at read
    cases read

theorem Decodes.nil_of_not_first {last : InputMemoryStream} {objs : List Object}
    (decoded : Decodes stream objs last) (broken : ¬ FirstDecodes stream) : objs = [] := by
  cases decoded with
  | nil => rfl
  | cons remaining read others => exact absurd ⟨remaining, _, _, read⟩ broken

theorem not_firstDecodes_of_noTrace (valid : store.Valid)
    (failed : Deserializes rt store objects stream (.error fault) after)
    (noTrace : LeavesNoTrace store after) : ¬ FirstDecodes stream := by
  obtain ⟨objs, last, -, table, empty⟩ := failed_decodes failed
  rcases List.eq_nil_or_concat' objs with none | ⟨front, final, rfl⟩
  · exact (empty none).1
  · -- the table of a failed load still owns the object registered last
    have owned := last_owned (Loader.start store objects stream) front final
    rw [ownedObjects, ← table] at owned
    have before : _ ∈ after.store.ownedObjects := owned
    rw [noTrace.owned] at before
    obtain ⟨id, entry, found, same⟩ := before
    have bound := valid.unique_lt found
    rw [(start_frame store objects stream).nextObject] at same
    exact absurd same (by lia)

theorem start_resolve (valid : store.Valid) (objects : List HandleRef)
    (stream : InputMemoryStream) {ref : ObjectRef} {mComponents : ComponentMap} {key : Int}
    {ptr : PObjHandle} (here : store.bodyAt ref = some (.gameObject mComponents))
    (slot : mComponents.lookup key = some ptr) :
    (Loader.start store objects stream).store.resolve ptr = store.resolve ptr := by
  have frame := start_frame store objects stream
  cases ptr with
  | null => rfl
  | placeholder m_link_key => rfl
  | shared handle =>
      have count : (Loader.start store objects stream).store.isHeld handle = true :=
        isHeld_iff.mpr (.inr ⟨ref, _, (frame.bodyAt ref (Set.notMem_empty ref)).trans here,
          mem_handles_iff.mpr ⟨key, slot⟩⟩)
      obtain ⟨cell, found⟩ := Option.isSome_iff_exists.mp
        ((valid.dropHandles objects).alive handle count)
      rw [resolve, resolve, frame.fewer handle cell found]
      exact congrArg (Option.bind · ObjHandle.m_ptr) found

theorem Store.Accessible.transfer {first second : Store} {ref : ObjectRef}
    (owned : first.ownedObjects = second.ownedObjects)
    (bodies : ∀ ref, first.bodyAt ref = second.bodyAt ref)
    (resolves : ∀ ref mComponents key ptr, first.bodyAt ref = some (.gameObject mComponents) →
      mComponents.lookup key = some ptr → first.resolve ptr = second.resolve ptr)
    (accessible : first.Accessible [] ref) : second.Accessible [] ref := by
  induction accessible with
  | owned member => exact .owned (owned ▸ member)
  | vector member => cases member
  | component _ here slot points ih =>
      have target := (resolves _ _ _ _ here slot).symm.trans points
      exact .component ih ((bodies _).symm.trans here) slot target
  | owner _ here ih => exact .owner ih ((bodies _).symm.trans here)

theorem start_accessible (valid : store.Valid) (objects : List HandleRef)
    (stream : InputMemoryStream) {ref : ObjectRef} :
    (Loader.start store objects stream).store.Accessible [] ref ↔ store.Accessible [] ref := by
  have frame := start_frame store objects stream
  have bodies (ref : ObjectRef) := frame.bodyAt ref (Set.notMem_empty ref)
  have owned : (Loader.start store objects stream).store.ownedObjects = store.ownedObjects := by
    rw [ownedObjects, frame.mObjects, ownedObjects]
  constructor
  · refine .transfer owned bodies fun ref mComponents key ptr here slot => ?_
    exact start_resolve valid objects stream ((bodies ref).symm.trans here) slot
  · refine .transfer owned.symm (fun ref => (bodies ref).symm) ?_
    intro ref mComponents key ptr here slot
    exact (start_resolve valid objects stream here slot).symm

theorem start_allResolved (valid : store.Valid) (objects : List HandleRef)
    (stream : InputMemoryStream) :
    (Loader.start store objects stream).store.AllResolved [] ↔ store.AllResolved [] := by
  have frame := start_frame store objects stream
  unfold AllResolved
  refine forall_congr' fun ref => forall_congr' fun body => ?_
  rw [start_accessible valid, frame.bodyAt ref (Set.notMem_empty ref)]
  refine imp_congr_right fun _ => imp_congr_right fun here => not_congr ?_
  cases body with
  | object => rfl
  | component mGameObj => rfl
  | gameObject mComponents =>
      refine exists_congr fun key => exists_congr fun ptr => and_congr_right fun slot => ?_
      rw [start_resolve valid objects stream here slot]

theorem leavesNoTrace_iff (valid : store.Valid)
    (failed : Deserializes rt store objects stream (.error fault) after) :
    LeavesNoTrace store after ↔ ¬ FirstDecodes stream ∧ store.AllResolved [] := by
  obtain ⟨objs, last, decoded, -, blank⟩ := failed_decodes failed
  have unread (broken : ¬ FirstDecodes stream) :
      after.store = (Loader.start store objects stream).store ∧ after.objects = [] :=
    (blank (decoded.nil_of_not_first broken)).2
  constructor
  · intro noTrace
    have broken := not_firstDecodes_of_noTrace valid failed noTrace
    obtain ⟨same, empty⟩ := unread broken
    have resolved := noTrace.resolved
    rw [same, empty, start_allResolved valid] at resolved
    exact ⟨broken, resolved⟩
  · rintro ⟨broken, resolved⟩
    obtain ⟨same, empty⟩ := unread broken
    refine ⟨?_, ?_⟩
    · rw [same, ownedObjects, (start_frame store objects stream).mObjects, ownedObjects]
    · rw [same, empty, start_allResolved valid]
      exact resolved

def truncatedRecord : InputMemoryStream := streamOf [0xea, 3, 0, 0]

theorem oneGameObject_allResolved : oneGameObject.AllResolved [] := by
  intro ref body _ here
  rw [oneGameObject, empty_sound.toValid.registerObj_eq, withNewObject_bodyAt] at here
  split at here
  · cases here
    rintro ⟨key, ptr, slot, -⟩
    rw [AList.lookup_empty] at slot
    cases slot
  · cases here

theorem leavesNoTrace_iff_truncated : ∃ fault after,
    Deserializes plainRuntime oneGameObject [0] truncatedRecord (.error fault) after ∧
      LeavesNoTrace oneGameObject after := by
  refine ⟨_, _, ⟨2, rfl⟩, (leavesNoTrace_iff oneGameObject_reached.sound.toValid
    (show Deserializes plainRuntime oneGameObject [0] truncatedRecord _ _ from ⟨2, rfl⟩)).mpr
      ⟨?_, oneGameObject_allResolved⟩⟩
  rintro ⟨-, obj, next, read⟩
  cases read

def ownerless : List Record := [.component 1 none]

theorem ownerless_decodes : Decodes (streamOf (ownerless.flatMap Record.encode))
    (ownerless.map Record.toObject) (advance (streamOf (ownerless.flatMap Record.encode)) 12) :=
  decodes_records (by simp [ownerless, Record.Fits]) (by decide) ((streamOf_carries _).holds (by decide))

theorem ownerless_rejected : ∃ fault after, Deserializes plainRuntime {} []
    (streamOf (ownerless.flatMap Record.encode)) (.error fault) after := by
  apply rejected_of_not_accepted [] ownerless_decodes (by decide)
  rw [accepted_iff_resolvable empty_sound.toValid empty_nothingToLink []
    ownerless_decodes (by decide) (by decide)]
  intro resolvable
  have owner := resolvable _ List.mem_cons_self
  simp [ownerless, Record.toObject, Body.Resolvable, GameObjectPtr.fileKey] at owner

theorem ownerless_leaves_trace : ∃ fault after,
    Deserializes plainRuntime {} [] (streamOf (ownerless.flatMap Record.encode)) (.error fault)
      after ∧ ¬ LeavesNoTrace {} after := by
  obtain ⟨fault, after, failed⟩ := ownerless_rejected
  refine ⟨fault, after, failed, fun noTrace => ?_⟩
  apply not_firstDecodes_of_noTrace empty_sound.toValid failed noTrace
  have decoded := ownerless_decodes
  cases decoded with
  | cons remaining read _ => exact ⟨remaining, _, _, read⟩

end PackagedTask.Objects
