import PackagedTask.Streams.Memory
import PackagedTask.Library.Tables

namespace PackagedTask.Objects
open Streams

/-! The objects of `core/object.h`, `core/component.h` and `core/gameobject.h`, the handles of
`core/objhandle.h` and the state of a `GameObjectManager`. Asserts are compiled out (`NDEBUG`). -/

abbrev ObjectRef := Nat
abbrev HandleRef := Nat

def classObject : Int := 1000
def classComponent : Int := 1001
def classGameObject : Int := 1002

/-- `std::shared_ptr<ObjHandle>`: empty, the placeholder `GameObject::read` makes (`m_ptr` null,
only a link key), or a counted reference to a handle of the store. -/
inductive PObjHandle
  | null
  | placeholder (m_link_key : Nat)
  | shared (handle : HandleRef)
  deriving DecidableEq, Repr

/-- `GameObject *`; `fileId` is what `Component::read` makes of an id by casting it. -/
inductive GameObjectPtr
  | null
  | fileId (id : Nat)
  | object (ref : ObjectRef)
  deriving DecidableEq, Repr

abbrev ComponentMap := AList fun _ : Int => PObjHandle

inductive Body
  | object
  | component (mGameObj : GameObjectPtr)
  | gameObject (mComponents : ComponentMap)
  deriving DecidableEq

namespace Body

def getClassIDVirtual : Body → Int
  | .object => classObject
  | .component _ => classComponent
  | .gameObject _ => classGameObject

/-- The handles that die with the object. -/
def handles : Body → List PObjHandle
  | .gameObject mComponents => mComponents.entries.map Sigma.snd
  | _ => []

end Body

structure Object where
  mInstanceId : Nat := 0
  is_del_it : Bool := false
  body : Body
  deriving DecidableEq

def Object.deleteObj (object : Object) : Object := { object with is_del_it := true }

structure ObjHandle where
  m_ptr : Option ObjectRef
  m_link_key : Nat := 0
  deriving DecidableEq, Repr

structure ObjEntry where
  unique : ObjectRef
  handle : HandleRef
  deriving DecidableEq, Repr

abbrev ObjectMap := AList fun _ : Nat => ObjEntry

/-- The heap objects and handles, the handles that code outside the objects holds, and one
manager. References are never reused; `address` in `Runtime` maps them to memory. -/
structure Store where
  objects : AList (fun _ : ObjectRef => Object) := ∅
  handles : AList (fun _ : HandleRef => ObjHandle) := ∅
  held : List HandleRef := []
  nextObject : ObjectRef := 0
  nextHandle : HandleRef := 0
  mNextAvailableID : Nat := 1
  mObjects : ObjectMap := ∅
  deriving DecidableEq

/-- What the code does not fix: where objects lie in memory and how hash tables iterate. -/
structure Runtime where
  address : ObjectRef → Nat
  objectOrder : ObjectMap → List (Σ _ : Nat, ObjEntry)
  componentOrder : ObjectRef → ComponentMap → List (Σ _ : Int, PObjHandle)
  objectOrder_perm : ∀ table, (objectOrder table).Perm table.entries
  componentOrder_perm : ∀ ref table, (componentOrder ref table).Perm table.entries

def plainRuntime : Runtime where
  address := id
  objectOrder := fun table => table.entries
  componentOrder := fun _ table => table.entries
  objectOrder_perm := fun _ => .refl _
  componentOrder_perm := fun _ _ => .refl _

namespace Store

def owned (handle : HandleRef) (object : Object) : Bool :=
  .shared handle ∈ object.body.handles

def isHeld (store : Store) (handle : HandleRef) : Bool :=
  handle ∈ store.held || store.objects.entries.any fun entry => owned handle entry.2

def modifyObject (store : Store) (ref : ObjectRef) (change : Object → Object) : Store :=
  match store.objects.lookup ref with
  | some object => { store with objects := store.objects.insert ref (change object) }
  | none => store

/-- `if(m_ptr != nullptr) m_ptr->deleteObj();` -/
def deleteTarget (store : Store) : Option ObjectRef → Store
  | some ref => store.modifyObject ref Object.deleteObj
  | none => store

/-- A `PObjHandle` to the handle went away: the last one runs `~ObjHandle`. -/
def releaseHandle (store : Store) (handle : HandleRef) : Store :=
  if store.isHeld handle then store
  else match store.handles.lookup handle with
    | none => store
    | some cell => { store with handles := store.handles.erase handle }.deleteTarget cell.m_ptr

def release (store : Store) : PObjHandle → Store
  | .shared handle => store.releaseHandle handle
  | _ => store

def dropHandle (store : Store) (handle : HandleRef) : Store :=
  { store with held := store.held.erase handle }.releaseHandle handle

/-- `delete` on an object of a `unique_ptr`; the handles in its members go with it. -/
def destroyObject (store : Store) (ref : ObjectRef) : Store :=
  match store.objects.lookup ref with
  | none => store
  | some object =>
      object.body.handles.foldl release { store with objects := store.objects.erase ref }

def lock (store : Store) (handle : HandleRef) : PObjHandle :=
  if (store.handles.lookup handle).isSome then .shared handle else .null

/-- The new object and its handle, before `mObjects[id]` takes them over. -/
def withNewObject (store : Store) (ob : Object) : Store :=
  { store with
    objects := store.objects.insert store.nextObject { ob with mInstanceId := store.mNextAvailableID }
    handles := store.handles.insert store.nextHandle ⟨some store.nextObject, 0⟩
    held := store.nextHandle :: store.held
    nextObject := store.nextObject + 1
    nextHandle := store.nextHandle + 1
    mNextAvailableID := (store.mNextAvailableID + 1) % 2 ^ 32
    mObjects := store.mObjects.insert store.mNextAvailableID ⟨store.nextObject, store.nextHandle⟩ }

/-- The returned handle is `nextHandle`. Once ids wrap, an old entry can be overwritten. -/
def registerObj (store : Store) (ob : Object) : Store :=
  match store.mObjects.lookup store.mNextAvailableID with
  | none => store.withNewObject ob
  | some overwritten => (store.withNewObject ob).destroyObject overwritten.unique

/-- `mComponents[key] = ptr` in the `GameObject` at `ref`; the handle it replaces is released. -/
def setComponent (store : Store) (ref : ObjectRef) (key : Int) (ptr : PObjHandle) : Store :=
  match store.objects.lookup ref with
  | some ⟨mInstanceId, is_del_it, .gameObject mComponents⟩ =>
      let assigned := { store with
        objects := store.objects.insert ref
          ⟨mInstanceId, is_del_it, .gameObject (mComponents.insert key ptr)⟩ }
      match mComponents.lookup key with
      | some replaced => assigned.release replaced
      | none => assigned
  | _ => store

def setGameObject (store : Store) (ref : ObjectRef) (go : GameObjectPtr) : Store :=
  store.modifyObject ref fun object => { object with body := .component go }

def getInstanceId (store : Store) (handle : HandleRef) : Nat :=
  match store.handles.lookup handle with
  | some ⟨some ref, _⟩ => ((store.objects.lookup ref).map Object.mInstanceId).getD 0
  | _ => 0

def isDeleted (store : Store) (ref : ObjectRef) : Bool :=
  ((store.objects.lookup ref).map Object.is_del_it).getD false

def classIDAt (store : Store) (ref : ObjectRef) : Int :=
  ((store.objects.lookup ref).map fun object => object.body.getClassIDVirtual).getD (-1)

def eraseEntry (store : Store) (id : Nat) (entry : ObjEntry) : Store :=
  { store with mObjects := store.mObjects.erase id }.destroyObject entry.unique

def sweep (store : Store) : List (Σ _ : Nat, ObjEntry) → Store
  | [] => store
  | ⟨id, entry⟩ :: rest =>
      if store.isDeleted entry.unique then (store.eraseEntry id entry).sweep rest
      else store.sweep rest

def releaseUnusedObjects (rt : Runtime) (store : Store) : Store :=
  store.sweep (rt.objectOrder store.mObjects)

def nullify (store : Store) (handle : HandleRef) : Store :=
  match store.handles.lookup handle with
  | none => store
  | some ⟨m_ptr, m_link_key⟩ =>
      { store with handles := store.handles.insert handle ⟨none, m_link_key⟩ }.deleteTarget m_ptr

/-- `~GameObjectManager`: the nullify pass, then the members. -/
def destroyManager (rt : Runtime) (store : Store) : Store :=
  let order := rt.objectOrder store.mObjects
  let nullified := order.foldl (fun store entry => store.nullify entry.2.handle) store
  order.foldl (fun store entry => store.destroyObject entry.2.unique)
    { nullified with mObjects := ∅ }

end Store

abbrev Managed (α : Type) := EStateM Fault Store α

def notCreated : Fault := .exception "Trying to acquire not created object."

def getObject (id : Nat) : Managed PObjHandle := do
  let store ← get
  match store.mObjects.lookup id with
  | none => throw notCreated
  | some entry => pure (store.lock entry.handle)

def getObjectPtr (id : Nat) : Managed ObjectRef := do
  let store ← get
  match store.mObjects.lookup id with
  | none => throw notCreated
  | some entry => pure entry.unique

end PackagedTask.Objects
