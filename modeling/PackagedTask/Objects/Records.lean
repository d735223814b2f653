import PackagedTask.Objects.Registry

namespace PackagedTask.Objects
open Streams Library Library.StateError

/-! `write` and `read` of the registered classes, as each class overrides them. -/

def GameObjectPtr.ofFileId (n_ptr : Nat) : GameObjectPtr :=
  if n_ptr = 0 then .null else .fileId n_ptr

def Component.read : Reader Object := do
  let _type_id ← readInt32
  let inst_id ← readWord 4
  let n_ptr ← readInt32
  if n_ptr ≠ 0 then do
    let n_ptr ← readWord 4
    pure { mInstanceId := inst_id, body := .component (.ofFileId n_ptr) }
  else
    pure { mInstanceId := inst_id, body := .component .null }

def GameObject.readComponents : Nat → ComponentMap → Reader ComponentMap
  | 0, mComponents => pure mComponents
  | size + 1, mComponents => do
      let key ← readInt32
      let cmp_inst ← readWord 4
      GameObject.readComponents size (mComponents.insert key (.placeholder cmp_inst))

def GameObject.read : Reader Object := do
  let _type_id ← readInt32
  let inst_id ← readWord 4
  let size ← readWord 4
  let mComponents ← GameObject.readComponents size ∅
  pure { mInstanceId := inst_id, body := .gameObject mComponents }

/-- The virtual call `obj->read` on what the factory made; `Object::read` is empty. -/
def readObject : Body → Reader Object
  | .object => pure { body := .object }
  | .component _ => Component.read
  | .gameObject _ => GameObject.read

def Store.targetId (store : Store) : PObjHandle → Except Fault Nat
  | .shared handle =>
      match store.handles.lookup handle with
      | some ⟨some ref, _⟩ =>
          match store.objects.lookup ref with
          | some object => .ok object.mInstanceId
          | none => .error .undefined
      | _ => .error .undefined
  | _ => .error .undefined

def GameObject.writeComponents (store : Store) :
    List (Σ _ : Int, PObjHandle) → OutputMemoryStream → Except Fault OutputMemoryStream
  | [], out => .ok out
  | ⟨key, cmp⟩ :: rest, out =>
      match store.targetId cmp with
      | .error fault => .error fault
      | .ok id => GameObject.writeComponents store rest ((out.writeInt32 key).writeWord 4 id)

def GameObject.write (rt : Runtime) (store : Store) (ref : ObjectRef) (mInstanceId : Nat)
    (mComponents : ComponentMap) (out : OutputMemoryStream) : Except Fault OutputMemoryStream :=
  let out := (out.writeInt32 classGameObject).writeWord 4 mInstanceId
  if mComponents.entries.isEmpty then .ok (out.writeInt32 0)
  else GameObject.writeComponents store (rt.componentOrder ref mComponents)
    (out.writeWord 4 mComponents.entries.length)

def Component.write (store : Store) (mInstanceId : Nat) (mGameObj : GameObjectPtr)
    (out : OutputMemoryStream) : Except Fault OutputMemoryStream :=
  let out := (out.writeInt32 classComponent).writeWord 4 mInstanceId
  match mGameObj with
  | .null => .ok (out.writeInt32 0)
  | .fileId _ => .error .undefined
  | .object ref =>
      match store.objects.lookup ref with
      | some go => .ok ((out.writeInt32 1).writeWord 4 go.mInstanceId)
      | none => .error .undefined

def writeObject (rt : Runtime) (store : Store) (ref : ObjectRef) (object : Object)
    (out : OutputMemoryStream) : Except Fault OutputMemoryStream :=
  match object.body with
  | .object => .ok out
  | .component mGameObj => Component.write store object.mInstanceId mGameObj out
  | .gameObject mComponents => GameObject.write rt store ref object.mInstanceId mComponents out

def serializeEntries (rt : Runtime) (store : Store) :
    List (Σ _ : Nat, ObjEntry) → OutputMemoryStream → Except Fault OutputMemoryStream
  | [], out => .ok out
  | ⟨_, entry⟩ :: rest, out =>
      match store.objects.lookup entry.unique with
      | none => .error .undefined
      | some object =>
          if object.is_del_it then serializeEntries rt store rest out
          else match writeObject rt store entry.unique object out with
            | .error fault => .error fault
            | .ok out => serializeEntries rt store rest out

def serialize (rt : Runtime) (store : Store) (out : OutputMemoryStream) :
    Except Fault OutputMemoryStream :=
  serializeEntries rt store (rt.objectOrder store.mObjects) out

end PackagedTask.Objects
