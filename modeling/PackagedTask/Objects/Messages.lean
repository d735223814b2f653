import PackagedTask.Objects.Registry

namespace PackagedTask.Objects
open Streams

def msgUndefined : Int := 0
def msgDidAddComponent : Int := 1
def msgTransformChanged : Int := 2

/-- `mCallBackMap`; a callback is known by a number. -/
abbrev CmpMsgsTable := AList fun _ : Int × Int => Nat

namespace CmpMsgsTable

def registerMessageCallback (table : CmpMsgsTable) (mid classid : Int) (fnct : Nat) :
    CmpMsgsTable :=
  table.insert (mid, classid) fnct

def hasMessageCallback (table : CmpMsgsTable) (mid classid : Int) : Bool :=
  (table.lookup (mid, classid)).isSome

end CmpMsgsTable

/-- One invocation `callback(receiver, id, msg_data)`; callbacks are taken to leave the store as
it is. -/
structure Call where
  receiver : ObjectRef
  callback : Nat
  deriving DecidableEq, Repr

/-- `dynamic_ohdl_cast`; it asks the object for its class before it looks for a null pointer. -/
def Store.dynamicCast (store : Store) (classID : Int) : PObjHandle → Except Fault (Option ObjectRef)
  | .shared handle =>
      match store.handles.lookup handle with
      | some ⟨some ref, _⟩ =>
          match store.objects.lookup ref with
          | some object =>
              if isDerivedFromClassID s_mClassIDToRttiMap object.body.getClassIDVirtual classID
              then .ok (some ref) else .ok none
          | none => .error .undefined
      | _ => .error .undefined
  | _ => .error .undefined

def handleMessage (table : CmpMsgsTable) (store : Store) (id : Int) :
    Option ObjectRef → Except Fault Call
  | none => .error .undefined
  | some ref =>
      match store.objects.lookup ref with
      | none => .error .undefined
      | some object =>
          match table.lookup (id, object.body.getClassIDVirtual) with
          | none => .error .undefined
          | some callback => .ok ⟨ref, callback⟩

def sendMessage (table : CmpMsgsTable) (store : Store) (sender messageIdentifier : Int) :
    List (Σ _ : Int, PObjHandle) → Except Fault (List Call)
  | [] => .ok []
  | ⟨key, cmp⟩ :: rest =>
      if table.hasMessageCallback messageIdentifier key && key ≠ sender then do
        let cmp_ptr ← store.dynamicCast classComponent cmp
        let call ← handleMessage table store messageIdentifier cmp_ptr
        let calls ← sendMessage table store sender messageIdentifier rest
        pure (call :: calls)
      else sendMessage table store sender messageIdentifier rest

/-- `Component::sendMessage`: nothing without an owner. -/
def componentSendMessage (rt : Runtime) (table : CmpMsgsTable) (store : Store) (sender : Int)
    (messageIdentifier : Int) : GameObjectPtr → Except Fault (List Call)
  | .null => .ok []
  | .fileId _ => .error .undefined
  | .object ref =>
      match store.objects.lookup ref with
      | some ⟨_, _, .gameObject mComponents⟩ =>
          sendMessage table store sender messageIdentifier (rt.componentOrder ref mComponents)
      | _ => .error .undefined

def addComponent (rt : Runtime) (table : CmpMsgsTable) (store : Store) (go : ObjectRef)
    (com : PObjHandle) : Except Fault (Store × List Call) :=
  match store.dynamicCast classComponent com with
  | .error fault => .error fault
  | .ok none => .error .undefined
  | .ok (some cmp_ptr) =>
      let owned := store.setGameObject cmp_ptr (.object go)
      let cid := owned.classIDAt cmp_ptr
      match componentSendMessage rt table owned cid msgDidAddComponent (.object go) with
      | .error fault => .error fault
      | .ok calls => .ok (owned.setComponent go cid com, calls)

end PackagedTask.Objects
