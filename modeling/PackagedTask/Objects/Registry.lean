import PackagedTask.Library.Iteration
import PackagedTask.Objects.Store

namespace PackagedTask.Objects
open Streams Library

structure RTTI where
  base : Int
  className : String
  factory : Body

abbrev Registry := AList fun _ : Int => RTTI

def registerClass (registry : Registry) (inClassID inBaseClass : Int) (inName : String)
    (inFunc : Body) : Registry :=
  registry.insert inClassID ⟨inBaseClass, inName, inFunc⟩

/-- `s_mClassIDToRttiMap` once every `sm_class_register` has run. -/
def s_mClassIDToRttiMap : Registry :=
  registerClass (registerClass (registerClass ∅ classObject (-1) "Object" .object)
    classComponent classObject "Component" (.component .null))
    classGameObject classObject "GameObject" (.gameObject ∅)

def classIDToRTTI {σ : Type} (registry : Registry) (classID : Int) : EStateM Fault σ RTTI :=
  match registry.lookup classID with
  | some rtti => pure rtti
  | none => throw (.exception s!"Error! Rtti information for class_id:{classID}  not found")

theorem classIDToRTTI_ok_iff {σ : Type} {registry : Registry} {classID : Int} {rtti : RTTI}
    {s s' : σ} :
    classIDToRTTI registry classID s = .ok rtti s' ↔ registry.lookup classID = some rtti ∧ s' = s := by
  unfold classIDToRTTI
  cases registry.lookup classID with
  | none =>
      constructor
      · intro result
        cases result
      · rintro ⟨known, -⟩
        cases known
  | some found =>
      constructor
      · intro result
        cases result
        exact ⟨rfl, rfl⟩
      · rintro ⟨known, rfl⟩
        cases known
        rfl

theorem classIDToRTTI_unknown {σ : Type} {registry : Registry} {classID : Int} (s : σ)
    (unknown : registry.lookup classID = none) :
    ∃ text, classIDToRTTI registry classID s = .error (.exception text) s := by
  unfold classIDToRTTI
  rw [unknown]
  exact ⟨_, rfl⟩

def getSuperClassID (registry : Registry) (classID : Int) : Int :=
  match registry.lookup classID with
  | some rtti => rtti.base
  | none => -1

def derivationPass (registry : Registry) (derivedFromClassID search : Int) : Int ⊕ Bool :=
  if search = -1 then .inr false
  else if search = derivedFromClassID then .inr true
  else .inl (getSuperClassID registry search)

/-- Base links lead from class to class, so the loop ends within one pass for each class. -/
def isDerivedFromClassID (registry : Registry) (classID derivedFromClassID : Int) : Bool :=
  (Iteration.runFor (derivationPass registry derivedFromClassID)
    (registry.entries.length + 2) classID).getD false

theorem lookup_registry (classID : Int) : s_mClassIDToRttiMap.lookup classID =
    if classID = classGameObject then some ⟨classObject, "GameObject", .gameObject ∅⟩
    else if classID = classComponent then some ⟨classObject, "Component", .component .null⟩
    else if classID = classObject then some ⟨-1, "Object", .object⟩
    else none := by
  unfold s_mClassIDToRttiMap registerClass
  split_ifs with game component object
  · rw [game, AList.lookup_insert]
  · rw [AList.lookup_insert_ne game, component, AList.lookup_insert]
  · rw [AList.lookup_insert_ne game, AList.lookup_insert_ne component, object, AList.lookup_insert]
  · rw [AList.lookup_insert_ne game, AList.lookup_insert_ne component,
      AList.lookup_insert_ne object, AList.lookup_empty]

theorem component_derived_iff (body : Body) :
    isDerivedFromClassID s_mClassIDToRttiMap body.getClassIDVirtual classComponent = true ↔
      ∃ mGameObj, body = .component mGameObj := by
  have base : isDerivedFromClassID s_mClassIDToRttiMap classObject classComponent = false := by
    decide
  have itself : isDerivedFromClassID s_mClassIDToRttiMap classComponent classComponent = true := by
    decide
  have sibling : isDerivedFromClassID s_mClassIDToRttiMap classGameObject classComponent = false := by
    decide
  cases body <;> simp [Body.getClassIDVirtual, base, itself, sibling]

theorem gameObject_derived_iff (body : Body) :
    isDerivedFromClassID s_mClassIDToRttiMap body.getClassIDVirtual classGameObject = true ↔
      ∃ mComponents, body = .gameObject mComponents := by
  have base : isDerivedFromClassID s_mClassIDToRttiMap classObject classGameObject = false := by
    decide
  have itself : isDerivedFromClassID s_mClassIDToRttiMap classGameObject classGameObject = true := by
    decide
  have sibling : isDerivedFromClassID s_mClassIDToRttiMap classComponent classGameObject = false := by
    decide
  cases body <;> simp [Body.getClassIDVirtual, base, itself, sibling]

def createDefaultObj (obj_type : Int) : Managed HandleRef := do
  let rtti ← classIDToRTTI s_mClassIDToRttiMap obj_type
  let store ← get
  set (store.registerObj { body := rtti.factory })
  pure store.nextHandle

end PackagedTask.Objects
