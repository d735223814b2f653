import PackagedTask.Objects.Subtyping
import PackagedTask.Objects.Sweeping

namespace PackagedTask.Objects
open Streams Library Store

/-! Casts and messages in programs that derive classes of their own from the engine's. -/

/-- The registered classes of a program, and for each object it will make the class that its
virtual functions name. References are never used twice. -/
structure Program where
  hierarchy : Hierarchy
  engine : ∀ decl ∈ Hierarchy.standard.classes, decl ∈ hierarchy.classes
  getClassIDVirtual : ObjectRef → Int

namespace Program

def IsA (program : Program) (ref : ObjectRef) (classID : Int) : Prop :=
  classID ≠ -1 ∧ program.hierarchy.Below (program.getClassIDVirtual ref) classID

/-- `dynamic_ohdl_cast`: the class is asked for before `castedPtr` is compared with null. -/
def dynamicCast (program : Program) (store : Store) (classID : Int) :
    PObjHandle → Except Fault (Option ObjectRef)
  | .shared handle =>
      match store.handles.lookup handle with
      | some ⟨some ref, _⟩ =>
          match store.objects.lookup ref with
          | some _ =>
              if isDerivedFromClassID program.hierarchy.registry (program.getClassIDVirtual ref)
                classID
              then .ok (some ref) else .ok none
          | none => .error .undefined
      | _ => .error .undefined
  | _ => .error .undefined

def queryComponentImplementation (program : Program) (store : Store) (go : ObjectRef)
    (classID : Int) : Except Fault (Option ObjectRef) :=
  match store.bodyAt go with
  | some (.gameObject mComponents) =>
      match mComponents.lookup classID with
      | some ptr => program.dynamicCast store classComponent ptr
      | none => .ok none
  | _ => .error .undefined

def handleMessage (program : Program) (table : CmpMsgsTable) (store : Store) (id : Int) :
    Option ObjectRef → Except Fault Call
  | none => .error .undefined
  | some rec =>
      match store.objects.lookup rec with
      | none => .error .undefined
      | some _ =>
          match table.lookup (id, program.getClassIDVirtual rec) with
          | none => .error .undefined
          | some callback => .ok ⟨rec, callback⟩

/-- `GameObject::sendMessage` over the slots as they are when it starts; `effect` is what a callback
does before it returns. -/
def sendMessage (program : Program) (table : CmpMsgsTable) (effect : Call → Store → Store)
    (sender messageIdentifier : Int) :
    List (Σ _ : Int, PObjHandle) → Store → Except Fault (Store × List Call)
  | [], store => .ok (store, [])
  | ⟨key, cmp⟩ :: rest, store =>
      if table.hasMessageCallback messageIdentifier key && key ≠ sender then do
        let cmp_ptr ← program.dynamicCast store classComponent cmp
        let call ← program.handleMessage table store messageIdentifier cmp_ptr
        let (sent, calls) ← sendMessage program table effect sender messageIdentifier rest
          (effect call store)
        pure (sent, call :: calls)
      else sendMessage program table effect sender messageIdentifier rest store

def componentSendMessage (program : Program) (rt : Runtime) (table : CmpMsgsTable)
    (effect : Call → Store → Store) (store : Store) (cmp_ptr : ObjectRef)
    (messageIdentifier : Int) : Except Fault (Store × List Call) :=
  match store.bodyAt cmp_ptr with
  | some (.component .null) => .ok (store, [])
  | some (.component (.object mGameObj)) =>
      match store.bodyAt mGameObj with
      | some (.gameObject mComponents) =>
          program.sendMessage table effect (program.getClassIDVirtual cmp_ptr) messageIdentifier
            (rt.componentOrder mGameObj mComponents) store
      | _ => .error .undefined
  | _ => .error .undefined

def addComponent (program : Program) (rt : Runtime) (table : CmpMsgsTable)
    (effect : Call → Store → Store) (store : Store) (go : ObjectRef) (com : PObjHandle) :
    Except Fault (Store × List Call) :=
  match program.dynamicCast store classComponent com with
  | .error fault => .error fault
  | .ok none => .error .undefined
  | .ok (some cmp_ptr) =>
      match program.componentSendMessage rt table effect (store.setGameObject cmp_ptr (.object go))
        cmp_ptr msgDidAddComponent with
      | .error fault => .error fault
      | .ok (sent, calls) =>
          .ok (sent.setComponent go (program.getClassIDVirtual cmp_ptr) com, calls)

/-- A store of the repository's own program, which has no other classes. -/
structure Standard (program : Program) (store : Store) : Prop where
  hierarchy : program.hierarchy = Hierarchy.standard
  classes : ∀ ref body, store.bodyAt ref = some body →
    program.getClassIDVirtual ref = body.getClassIDVirtual

variable {program : Program} {store : Store} {rt : Runtime} {table : CmpMsgsTable}

theorem derived_iff {ref : ObjectRef} {classID : Int} :
    isDerivedFromClassID program.hierarchy.registry (program.getClassIDVirtual ref) classID = true ↔
      program.IsA ref classID := Hierarchy.derived_iff

theorem dynamicCast_of_resolve {ptr : PObjHandle} {ref : ObjectRef}
    (points : store.resolve ptr = some ref) (present : (store.bodyAt ref).isSome) (classID : Int) :
    program.dynamicCast store classID ptr =
      .ok (if isDerivedFromClassID program.hierarchy.registry (program.getClassIDVirtual ref) classID
        then some ref else none) := by
  obtain ⟨handle, m_link_key, rfl, found⟩ := resolve_eq_some_iff.mp points
  obtain ⟨body, here⟩ := Option.isSome_iff_exists.mp present
  obtain ⟨object, known, -⟩ := Option.map_eq_some_iff.mp here
  rw [dynamicCast, found]
  simp only [known]
  split <;> rfl

theorem resolve_of_dynamicCast {ptr : PObjHandle} {classID : Int} {result : Option ObjectRef}
    (cast : program.dynamicCast store classID ptr = .ok result) :
    ∃ ref, store.resolve ptr = some ref ∧ (store.bodyAt ref).isSome := by
  cases ptr with
  | null => cases cast
  | placeholder m_link_key => cases cast
  | shared handle =>
      rw [dynamicCast] at cast
      split at cast
      · rename_i ref m_link_key found
        cases known : store.objects.lookup ref with
        | none =>
            rw [known] at cast
            cases cast
        | some object =>
            refine ⟨ref, ?_, ?_⟩
            · rw [resolve, found, Option.bind_some]
            · rw [bodyAt, known, Option.map_some, Option.isSome_some]
      · cases cast

theorem dynamicCast_some {ptr : PObjHandle} {classID : Int} {ref : ObjectRef}
    (cast : program.dynamicCast store classID ptr = .ok (some ref)) :
    store.resolve ptr = some ref ∧ (store.bodyAt ref).isSome ∧ program.IsA ref classID := by
  obtain ⟨target, points, present⟩ := resolve_of_dynamicCast cast
  rw [dynamicCast_of_resolve points present] at cast
  split at cast
  · rename_i derived
    obtain rfl := Option.some.inj (Except.ok.inj cast)
    exact ⟨points, present, derived_iff.mp derived⟩
  · cases cast

section Callbacks
variable {effect : Call → Store → Store} {inv : Store → Prop} {sent : Store} {calls : List Call}

theorem sendMessage_keeps (kept : ∀ call before, inv before → inv (effect call before))
    {sender messageIdentifier : Int} {slots : List (Σ _ : Int, PObjHandle)} (base : inv store)
    (ran : program.sendMessage table effect sender messageIdentifier slots store =
      .ok (sent, calls)) : inv sent := by
  induction slots generalizing store calls with
  | nil =>
      cases ran
      exact base
  | cons slot rest ih =>
      obtain ⟨key, cmp⟩ := slot
      rw [sendMessage] at ran
      split at ran
      · cases cast : program.dynamicCast store classComponent cmp with
        | error fault =>
            rw [cast] at ran
            cases ran
        | ok cmp_ptr =>
            simp only [cast, bind, Except.bind] at ran
            cases handled : program.handleMessage table store messageIdentifier cmp_ptr with
            | error fault =>
                rw [handled] at ran
                cases ran
            | ok call =>
                simp only [handled] at ran
                cases onward : program.sendMessage table effect sender messageIdentifier rest
                    (effect call store) with
                | error fault =>
                    rw [onward] at ran
                    cases ran
                | ok result =>
                    rw [onward] at ran
                    cases ran
                    exact ih (kept call store base) onward
      · exact ih base ran

theorem componentSendMessage_keeps (kept : ∀ call before, inv before → inv (effect call before))
    {cmp_ptr : ObjectRef} {messageIdentifier : Int} (base : inv store)
    (ran : program.componentSendMessage rt table effect store cmp_ptr messageIdentifier =
      .ok (sent, calls)) : inv sent := by
  unfold componentSendMessage at ran
  split at ran
  · cases ran
    exact base
  · split at ran
    · exact sendMessage_keeps kept base ran
    · cases ran
  · cases ran

theorem addComponent_ok {go : ObjectRef} {com : PObjHandle} {after : Store}
    (result : program.addComponent rt table effect store go com = .ok (after, calls)) :
    ∃ cmp_ptr sent, program.dynamicCast store classComponent com = .ok (some cmp_ptr) ∧
      program.componentSendMessage rt table effect (store.setGameObject cmp_ptr (.object go))
        cmp_ptr msgDidAddComponent = .ok (sent, calls) ∧
      after = sent.setComponent go (program.getClassIDVirtual cmp_ptr) com := by
  unfold addComponent at result
  split at result
  · cases result
  · cases result
  · rename_i cmp_ptr cast
    split at result
    · cases result
    · rename_i sent calls' ran
      cases result
      exact ⟨cmp_ptr, sent, cast, ran, rfl⟩

end Callbacks

section Standard
variable (standard : program.Standard store)
include standard

theorem Standard.dynamicCast (classID : Int) (ptr : PObjHandle) :
    program.dynamicCast store classID ptr = store.dynamicCast classID ptr := by
  cases ptr with
  | null => rfl
  | placeholder m_link_key => rfl
  | shared handle =>
      rw [Program.dynamicCast, Store.dynamicCast]
      cases found : store.handles.lookup handle with
      | none => rfl
      | some cell =>
          obtain ⟨m_ptr, m_link_key⟩ := cell
          cases m_ptr with
          | none => rfl
          | some ref =>
              cases known : store.objects.lookup ref with
              | none => simp only [known]
              | some object =>
                  have kind := standard.classes ref object.body
                    (by rw [bodyAt, known, Option.map_some])
                  simp only [known, kind, standard.hierarchy, Hierarchy.standard_registry]

theorem Standard.handleMessage (id : Int) (rec : Option ObjectRef) :
    program.handleMessage table store id rec = Objects.handleMessage table store id rec := by
  cases rec with
  | none => rfl
  | some rec =>
      rw [Program.handleMessage, Objects.handleMessage]
      cases known : store.objects.lookup rec with
      | none => rfl
      | some object =>
          have kind := standard.classes rec object.body (by rw [bodyAt, known, Option.map_some])
          simp only
          generalize object.body.getClassIDVirtual = classID at kind
          subst kind
          rfl

theorem Standard.sendMessage (sender messageIdentifier : Int)
    (slots : List (Σ _ : Int, PObjHandle)) :
    program.sendMessage table (fun _ store => store) sender messageIdentifier slots store =
      (Objects.sendMessage table store sender messageIdentifier slots).map (Prod.mk store) := by
  induction slots with
  | nil => rfl
  | cons slot slots ih =>
      obtain ⟨key, cmp⟩ := slot
      rw [Program.sendMessage, Objects.sendMessage]
      split
      · rw [standard.dynamicCast]
        cases store.dynamicCast classComponent cmp with
        | error fault => rfl
        | ok cmp_ptr =>
            simp only [bind, Except.bind]
            rw [standard.handleMessage]
            cases Objects.handleMessage table store messageIdentifier cmp_ptr with
            | error fault => rfl
            | ok call =>
                simp only
                rw [ih]
                cases Objects.sendMessage table store sender messageIdentifier slots <;> rfl
      · exact ih

/-- With the repository's classes and callbacks that leave the store alone, `addComponent` is the
function it was before. -/
theorem Standard.addComponent (go : ObjectRef) (com : PObjHandle) :
    program.addComponent rt table (fun _ store => store) store go com =
      Objects.addComponent rt table store go com := by
  rw [Program.addComponent, Objects.addComponent, standard.dynamicCast]
  cases cast : store.dynamicCast classComponent com with
  | error fault => rfl
  | ok result =>
      cases result with
      | none => rfl
      | some cmp_ptr =>
          obtain ⟨handle, cell, mGameObj, -, -, -, here⟩ := dynamicCast_ok cast
          obtain ⟨linked, there⟩ := setGameObject_relinked here (.object go)
          have owned : program.Standard (store.setGameObject cmp_ptr (.object go)) := by
            refine ⟨standard.hierarchy, fun ref body known => ?_⟩
            by_cases same : ref = cmp_ptr
            · rw [same] at known ⊢
              rw [standard.classes cmp_ptr _ here, Option.some.inj (known.symm.trans there)]
              rfl
            · exact standard.classes ref body ((linked.bodyAt ref same).symm.trans known)
          have cid : (store.setGameObject cmp_ptr (.object go)).classIDAt cmp_ptr =
              program.getClassIDVirtual cmp_ptr := by
            obtain ⟨object, known, kind⟩ := Option.map_eq_some_iff.mp there
            rw [classIDAt, known, Option.map_some, Option.getD_some, owned.classes cmp_ptr _ there,
              kind]
          simp only
          rw [componentSendMessage, there, cid, Objects.componentSendMessage]
          simp only [bodyAt]
          cases known : (store.setGameObject cmp_ptr (.object go)).objects.lookup go with
          | none => rfl
          | some object =>
              obtain ⟨mInstanceId, is_del_it, body⟩ := object
              cases body with
              | object => rfl
              | component mGameObj => rfl
              | gameObject mComponents =>
                  simp only [Option.map_some]
                  rw [owned.sendMessage]
                  cases Objects.sendMessage table (store.setGameObject cmp_ptr (.object go))
                    (program.getClassIDVirtual cmp_ptr) msgDidAddComponent
                    (rt.componentOrder go mComponents) <;> rfl

end Standard

end Program
end PackagedTask.Objects
