import PackagedTask.Library.Runs
import PackagedTask.Objects.Programs

namespace PackagedTask.Objects
open Streams Library Library.StateError Store

/-! What a program does with a manager, one statement at a time, so that the statements of a callback
can stand between those of the function that invokes it. -/

structure Manager where
  managed : Bool := true
  store : Store := {}

inductive Action
  | registerObj (ob : Object)
  | getObject (id : Nat)
  | copy (handle : HandleRef)
  | drop (handle : HandleRef)
  | releaseUnusedObjects (rt : Runtime)
  | setGameObject (cmp_ptr go : ObjectRef)
  | setComponent (go : ObjectRef) (com : HandleRef)
  | linkComponent (go : ObjectRef) (key : Int) (id : Nat)
  | destroyManager (rt : Runtime)

/-- Code outside keeps the handle it was given. -/
def Store.hold (store : Store) : PObjHandle → Store
  | .shared handle => { store with held := handle :: store.held }
  | _ => store

namespace Program

structure Fits (program : Program) (ref : ObjectRef) (body : Body) : Prop where
  component : (∃ mGameObj, body = .component mGameObj) ↔ program.IsA ref classComponent
  gameObject : (∃ mComponents, body = .gameObject mComponents) ↔ program.IsA ref classGameObject

inductive Step (program : Program) : Action → Manager → Manager → Prop
  | registerObj {store ob} (room : store.mNextAvailableID < 2 ^ 32 - 1)
      (ready : Registrable store ob) (fits : program.Fits store.nextObject ob.body) :
      Step program (.registerObj ob) ⟨true, store⟩ ⟨true, store.registerObj ob⟩
  | getObject {id store after ptr} (result : getObject id store = .ok ptr after) :
      Step program (.getObject id) ⟨true, store⟩ ⟨true, after.hold ptr⟩
  | copy {managed store handle} (live : (store.handles.lookup handle).isSome) :
      Step program (.copy handle) ⟨managed, store⟩ ⟨managed, store.hold (.shared handle)⟩
  | drop {managed store} (handle : HandleRef) :
      Step program (.drop handle) ⟨managed, store⟩ ⟨managed, store.dropHandle handle⟩
  | releaseUnusedObjects {store} (rt : Runtime) :
      Step program (.releaseUnusedObjects rt) ⟨true, store⟩ ⟨true, store.releaseUnusedObjects rt⟩
  | setGameObject {store cmp_ptr go mGameObj}
      (here : store.bodyAt cmp_ptr = some (.component mGameObj))
      (owner : (store.bodyAt go).isSome) :
      Step program (.setGameObject cmp_ptr go) ⟨true, store⟩
        ⟨true, store.setGameObject cmp_ptr (.object go)⟩
  | setComponent {store go com cmp_ptr mComponents}
      (here : store.bodyAt go = some (.gameObject mComponents))
      (points : store.resolve (.shared com) = some cmp_ptr)
      (kind : program.IsA cmp_ptr classComponent) :
      Step program (.setComponent go com) ⟨true, store⟩
        ⟨true, store.setComponent go (program.getClassIDVirtual cmp_ptr) (.shared com)⟩
  | linkComponent {store after go key id ptr mComponents}
      (here : store.bodyAt go = some (.gameObject mComponents))
      (result : Objects.getObject id store = .ok ptr after) :
      Step program (.linkComponent go key id) ⟨true, store⟩ ⟨true, after.setComponent go key ptr⟩
  | destroyManager {store} (rt : Runtime) :
      Step program (.destroyManager rt) ⟨true, store⟩ ⟨false, store.destroyManager rt⟩

variable {program : Program} {store after : Store} {op : Action} {s t : Manager}

theorem Fits.of_component {ref : ObjectRef} {mGameObj : GameObjectPtr}
    (fits : program.Fits ref (.component mGameObj)) (mGameObj' : GameObjectPtr) :
    program.Fits ref (.component mGameObj') :=
  ⟨fits.component.symm.trans (by simp) |>.symm, fits.gameObject.symm.trans (by simp) |>.symm⟩

theorem Fits.of_gameObject {ref : ObjectRef} {mComponents : ComponentMap}
    (fits : program.Fits ref (.gameObject mComponents)) (mComponents' : ComponentMap) :
    program.Fits ref (.gameObject mComponents') :=
  ⟨fits.component.symm.trans (by simp) |>.symm, fits.gameObject.symm.trans (by simp) |>.symm⟩

theorem fits_of_kind {ref : ObjectRef} {body : Body}
    (standard : program.hierarchy = Hierarchy.standard)
    (kind : program.getClassIDVirtual ref = body.getClassIDVirtual) : program.Fits ref body := by
  constructor
  · rw [← derived_iff, standard, kind, Hierarchy.standard_registry, component_derived_iff]
  · rw [← derived_iff, standard, kind, Hierarchy.standard_registry, gameObject_derived_iff]

theorem lock_held {managed : Bool} (sound : Sound managed [] store) {entry : ObjEntry}
    {handle : HandleRef} (locked : store.lock entry.handle = .shared handle) :
    store.isHeld handle = true := by
  unfold lock at locked
  split at locked
  · rename_i live
    cases locked
    obtain ⟨cell, found⟩ := Option.isSome_iff_exists.mp live
    exact sound.held found
  · cases locked

theorem sound_hold {managed : Bool} (sound : Sound managed [] store) (ptr : PObjHandle)
    (counted : ∀ handle, ptr = .shared handle → store.isHeld handle = true) :
    Sound managed [] (store.hold ptr) := by
  cases ptr with
  | null => exact sound
  | placeholder m_link_key => exact sound
  | shared handle =>
      obtain ⟨cell, found⟩ := Option.isSome_iff_exists.mp (sound.alive handle (counted handle rfl))
      exact sound.hold found

theorem Step.sound (step : program.Step op s t) (sound : Sound s.managed [] s.store) :
    Sound t.managed [] t.store := by
  cases step with
  | registerObj room ready fits =>
      rw [sound.toValid.registerObj_eq]
      exact sound.withNewObject ready room
  | getObject result =>
      obtain ⟨rfl, entry, -, rfl⟩ := getObject_ok result
      exact sound_hold sound _ fun handle locked => lock_held sound locked
  | copy live =>
      obtain ⟨cell, found⟩ := Option.isSome_iff_exists.mp live
      exact sound.hold found
  | drop handle => exact sound.dropHandle handle
  | releaseUnusedObjects rt => exact sound.releaseUnusedObjects rt
  | setGameObject here owner =>
      obtain ⟨body, known⟩ := Option.isSome_iff_exists.mp owner
      exact sound.setGameObject here (sound.objectsFresh _ body known)
  | setComponent here points kind =>
      apply sound.setComponent here
      exact held_of_resolve sound points
  | linkComponent here result =>
      obtain ⟨rfl, entry, -, rfl⟩ := getObject_ok result
      exact sound.assignComponent here _ fun handle locked => lock_held sound locked
  | destroyManager rt => exact sound.destroyManager rt

/-- Handles that are still there have the targets they had. -/
structure Follows (before after : Store) : Prop where
  nextHandle : before.nextHandle ≤ after.nextHandle
  cells : ∀ handle cell, handle < before.nextHandle →
    after.handles.lookup handle = some cell → before.handles.lookup handle = some cell

theorem Follows.refl (store : Store) : Follows store store :=
  ⟨le_rfl, fun _ _ _ found => found⟩

theorem Follows.trans {a b c : Store} (first : Follows a b) (second : Follows b c) : Follows a c where
  nextHandle := first.nextHandle.trans second.nextHandle
  cells := fun handle cell old found => first.cells handle cell old
    (second.cells handle cell (old.trans_le first.nextHandle) found)

theorem Follows.of_frame {touched : Set ObjectRef} (frame : Frame touched store after) :
    Follows store after :=
  ⟨frame.nextHandle.ge, fun handle cell _ found => frame.fewer handle cell found⟩

theorem Follows.resolve (follows : Follows store after) (valid : store.Valid) (valid' : after.Valid)
    {handle : HandleRef} (held : store.isHeld handle = true) (held' : after.isHeld handle = true) :
    after.resolve (.shared handle) = store.resolve (.shared handle) := by
  obtain ⟨cell, found⟩ := Option.isSome_iff_exists.mp (valid'.alive handle held')
  rw [Store.resolve, Store.resolve, found,
    follows.cells handle cell (valid.held_lt held) found]

theorem hold_follows (store : Store) (ptr : PObjHandle) : Follows store (store.hold ptr) := by
  cases ptr <;> exact ⟨le_rfl, fun _ _ _ found => found⟩

theorem Step.follows (step : program.Step op s t) (sound : Sound s.managed [] s.store)
    (alive : t.managed = true) : Follows s.store t.store := by
  cases step with
  | registerObj room ready fits =>
      rw [sound.toValid.registerObj_eq]
      refine ⟨Nat.le_succ _, fun handle cell old found => ?_⟩
      rw [← found]
      exact (withNewObject_oldHandle _ old).symm
  | getObject result =>
      obtain ⟨rfl, entry, -, rfl⟩ := getObject_ok result
      exact hold_follows _ _
  | @copy managed store handle live => exact hold_follows store (.shared handle)
  | drop handle => exact .of_frame (dropHandle_frame _ handle)
  | releaseUnusedObjects rt => exact ⟨(sweep_nextHandle _ _).ge, fun _ _ _ found => sweep_fewer found⟩
  | setGameObject here owner => exact .of_frame (setGameObject_relinked here _).1.toFrame
  | setComponent here points kind => exact .of_frame (setComponent_relinked here _ _).1.toFrame
  | linkComponent here result =>
      obtain ⟨rfl, -⟩ := getObject_ok result
      exact .of_frame (setComponent_relinked here _ _).1.toFrame
  | destroyManager rt => cases alive

inductive Writes (program : Program) (store : Store) : Action → ObjectRef → Body → Prop
  | kept {op ref body} (before : store.bodyAt ref = some body) : Writes program store op ref body
  | registered {ob body} (same : ob.body = body) (fits : program.Fits store.nextObject body) :
      Writes program store (.registerObj ob) store.nextObject body
  | adopted {cmp_ptr go mGameObj} (here : store.bodyAt cmp_ptr = some (.component mGameObj)) :
      Writes program store (.setGameObject cmp_ptr go) cmp_ptr (.component (.object go))
  | installed {go com cmp_ptr mComponents}
      (here : store.bodyAt go = some (.gameObject mComponents))
      (points : store.resolve (.shared com) = some cmp_ptr)
      (kind : program.IsA cmp_ptr classComponent) :
      Writes program store (.setComponent go com) go
        (.gameObject (mComponents.insert (program.getClassIDVirtual cmp_ptr) (.shared com)))
  | linked {go key id ptr mComponents} (here : store.bodyAt go = some (.gameObject mComponents)) :
      Writes program store (.linkComponent go key id) go (.gameObject (mComponents.insert key ptr))

theorem hold_bodyAt (store : Store) (ptr : PObjHandle) (ref : ObjectRef) :
    (store.hold ptr).bodyAt ref = store.bodyAt ref := by
  cases ptr <;> rfl

theorem destroyManager_bodyAt {rt : Runtime} {ref : ObjectRef} {body : Body}
    (here : (store.destroyManager rt).bodyAt ref = some body) : store.bodyAt ref = some body := by
  have members (order : List (Σ _ : Nat, ObjEntry)) {store : Store}
      (here : (order.foldl (fun store entry => store.destroyObject entry.2.unique) store).bodyAt ref =
        some body) : store.bodyAt ref = some body := by
    induction order generalizing store with
    | nil => exact here
    | cons entry order ih =>
        have before := ih here
        rw [destroyObject_bodyAt] at before
        split at before
        · cases before
        · exact before
  have nullified := members _ here
  exact ((nullifyAll (rt.objectOrder store.mObjects) store).bodyAt ref).symm.trans nullified

theorem relinked_cases {target ref : ObjectRef} {body body' : Body}
    (linked : Relinked {target} store after) (there : after.bodyAt target = some body')
    (here : after.bodyAt ref = some body) :
    (ref = target ∧ body = body') ∨ store.bodyAt ref = some body := by
  by_cases same : ref = target
  · rw [same, there] at here
    exact .inl ⟨same, (Option.some.inj here).symm⟩
  · exact .inr ((linked.bodyAt ref same).symm.trans here)

theorem Step.writes (step : program.Step op s t) (sound : Sound s.managed [] s.store)
    {ref : ObjectRef} {body : Body} (here : t.store.bodyAt ref = some body) :
    program.Writes s.store op ref body := by
  cases step with
  | registerObj room ready fits =>
      rw [sound.toValid.registerObj_eq, withNewObject_bodyAt] at here
      split at here
      · rename_i new
        cases here
        rw [new]
        exact .registered rfl fits
      · exact .kept here
  | getObject result =>
      obtain ⟨rfl, -⟩ := getObject_ok result
      rw [hold_bodyAt] at here
      exact .kept here
  | copy live =>
      rw [hold_bodyAt] at here
      exact .kept here
  | drop handle =>
      rw [(dropHandle_frame _ handle).bodyAt ref (Set.notMem_empty ref)] at here
      exact .kept here
  | releaseUnusedObjects rt => exact .kept (sweep_bodyAt here)
  | setGameObject component owner =>
      obtain ⟨linked, there⟩ := setGameObject_relinked component (.object _)
      rcases relinked_cases linked there here with ⟨rfl, rfl⟩ | before
      · exact .adopted component
      · exact .kept before
  | setComponent owner points kind =>
      obtain ⟨linked, there⟩ := setComponent_relinked owner _ _
      rcases relinked_cases linked there here with ⟨rfl, rfl⟩ | before
      · exact .installed owner points kind
      · exact .kept before
  | linkComponent owner result =>
      obtain ⟨rfl, -⟩ := getObject_ok result
      obtain ⟨linked, there⟩ := setComponent_relinked owner _ _
      rcases relinked_cases linked there here with ⟨rfl, rfl⟩ | before
      · exact .linked owner
      · exact .kept before
  | destroyManager rt => exact .kept (destroyManager_bodyAt here)

theorem Step.managed (step : program.Step op s t) (alive : t.managed = true) : s.managed = true := by
  cases step <;> first | exact alive | rfl

theorem resolve_of_held (sound : Sound true [] store) {handle : HandleRef}
    (held : store.isHeld handle = true) :
    ∃ ref, store.resolve (.shared handle) = some ref ∧ (store.bodyAt ref).isSome := by
  obtain ⟨cell, found⟩ := Option.isSome_iff_exists.mp (sound.alive handle held)
  rcases sound.points handle cell found with ⟨destroyed, -⟩ | ⟨id, entry, registered, pointed, -⟩
  · cases destroyed
  · refine ⟨entry.unique, ?_, ?_⟩
    · rw [resolve, found]
      exact pointed
    · have carried := congrArg Option.isSome (sound.keyed id entry registered).2.2
      simpa [idAt, bodyAt] using carried

/-- What holds between any two statements. -/
structure Conforms (program : Program) (state : Manager) : Prop where
  sound : Sound state.managed [] state.store
  fits : ∀ ref body, state.store.bodyAt ref = some body → program.Fits ref body

theorem Conforms.step (conforms : program.Conforms s) (step : program.Step op s t) :
    program.Conforms t where
  sound := step.sound conforms.sound
  fits := by
    intro ref body here
    cases step.writes conforms.sound here with
    | kept before => exact conforms.fits ref body before
    | registered same fits => exact fits
    | adopted before => exact (conforms.fits ref _ before).of_component _
    | installed before points kind => exact (conforms.fits ref _ before).of_gameObject _
    | linked before => exact (conforms.fits ref _ before).of_gameObject _

theorem empty_conforms : program.Conforms {} :=
  ⟨empty_sound, fun _ _ found => (nomatch found)⟩

variable {past : List (Manager × Action)}

theorem Conforms.run (conforms : program.Conforms s) (run : Run program.Step s past t) :
    program.Conforms t := by
  induction run with
  | nil => exact conforms
  | snoc before next ih => exact ih.step next

theorem sound_of_run (run : Run program.Step s past t) (sound : Sound s.managed [] s.store) :
    Sound t.managed [] t.store := by
  induction run with
  | nil => exact sound
  | snoc before next ih => exact next.sound ih

theorem follows_of_run (run : Run program.Step s past t) (sound : Sound s.managed [] s.store)
    (alive : t.managed = true) : Follows s.store t.store := by
  induction run with
  | nil => exact .refl _
  | snoc before next ih =>
      have onward := next.follows (sound_of_run before sound) alive
      exact (ih (next.managed alive)).trans onward

/-- Some statements lead from one store to the other, and none of them destroys the manager. -/
def Leads (program : Program) (before after : Store) : Prop :=
  ∃ past, Run program.Step ⟨true, before⟩ past ⟨true, after⟩

theorem Leads.refl (store : Store) : program.Leads store store := ⟨[], .nil⟩

theorem Leads.trans {a b c : Store} (first : program.Leads a b) (second : program.Leads b c) :
    program.Leads a c := by
  obtain ⟨past, run⟩ := first
  obtain ⟨past', run'⟩ := second
  exact ⟨past ++ past', run.trans run'⟩

theorem Leads.of_step (step : program.Step op ⟨true, store⟩ ⟨true, after⟩) :
    program.Leads store after := ⟨_, .snoc .nil step⟩

theorem Leads.sound (leads : program.Leads store after) (sound : Sound true [] store) :
    Sound true [] after := by
  obtain ⟨past, run⟩ := leads
  exact sound_of_run run sound

theorem Leads.follows (leads : program.Leads store after) (sound : Sound true [] store) :
    Follows store after := by
  obtain ⟨past, run⟩ := leads
  exact follows_of_run run sound rfl

end Program
end PackagedTask.Objects
