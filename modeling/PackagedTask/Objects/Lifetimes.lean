import PackagedTask.Library.Runs
import PackagedTask.Objects.Sweeping
import PackagedTask.Objects.RoundTrip

namespace PackagedTask.Objects
open Library Store

/-! Runs in which objects are also destroyed while the manager lives. -/

inductive Operation
  | createGameObject
  | createComponent
  | addComponent (go : ObjectRef) (com : PObjHandle)
  | copy (handle : HandleRef)
  | drop (handle : HandleRef)

inductive Assembles : Operation → Store → Store → Prop
  | createGameObject {store after handle} (room : store.mNextAvailableID < 2 ^ 32 - 1)
      (result : createDefaultObj classGameObject store = .ok handle after) :
      Assembles .createGameObject store after
  | createComponent {store after handle} (room : store.mNextAvailableID < 2 ^ 32 - 1)
      (result : createDefaultObj classComponent store = .ok handle after) :
      Assembles .createComponent store after
  | addComponent {rt table store after go com calls}
      (result : addComponent rt table store go com = .ok (after, calls)) :
      Assembles (.addComponent go com) store after
  | copy {store handle} (live : (store.handles.lookup handle).isSome) :
      Assembles (.copy handle) store { store with held := handle :: store.held }
  | drop {store} (handle : HandleRef) : Assembles (.drop handle) store (store.dropHandle handle)

inductive Lifetime
  | assemble (op : Operation)
  | releaseUnusedObjects (rt : Runtime)

inductive Lives : Lifetime → Store → Store → Prop
  | assemble {op store after} (next : Assembles op store after) : Lives (.assemble op) store after
  | releaseUnusedObjects {store} (rt : Runtime) :
      Lives (.releaseUnusedObjects rt) store (store.releaseUnusedObjects rt)

theorem Assembles.reached {op : Operation} {store after : Store} {issued : List (Nat × ObjectRef)}
    (next : Assembles op store after) (before : Reached true store issued) :
    ∃ issued', Reached true after issued' := by
  cases next with
  | createGameObject room result => exact ⟨_, .createDefaultObj before room result⟩
  | createComponent room result => exact ⟨_, .createDefaultObj before room result⟩
  | addComponent result => exact ⟨_, .addComponent before result⟩
  | copy live => exact ⟨_, .copy before live⟩
  | drop handle => exact ⟨_, .drop handle before⟩

theorem Lives.reached {op : Lifetime} {store after : Store} {issued : List (Nat × ObjectRef)}
    (next : Lives op store after) (before : Reached true store issued) :
    ∃ issued', Reached true after issued' := by
  cases next with
  | assemble next => exact next.reached before
  | releaseUnusedObjects rt => exact ⟨_, .releaseUnusedObjects rt before⟩

/-- A reached store with nothing in it but what the manager made. -/
structure Peopled (store : Store) : Prop where
  reached : ∃ issued, Reached true store issued
  populated : store.Populated

theorem Peopled.sound {store : Store} (peopled : Peopled store) : Sound true [] store :=
  peopled.reached.choose_spec.sound

theorem Peopled.assemble {op : Operation} {store after : Store} (peopled : Peopled store)
    (next : Assembles op store after) : Peopled after := by
  obtain ⟨issued, reached⟩ := peopled.reached
  obtain ⟨issued', reached'⟩ := next.reached reached
  have sound := peopled.sound
  refine ⟨⟨_, reached'⟩, ?_⟩
  cases next with
  | createGameObject room result =>
      obtain rfl := createDefaultObj_new sound.toValid (lookup_registry classGameObject) result
      exact peopled.populated.withNewObject sound (.inl rfl)
  | createComponent room result =>
      obtain rfl := createDefaultObj_new sound.toValid (lookup_registry classComponent) result
      exact peopled.populated.withNewObject sound (.inr rfl)
  | addComponent result => exact peopled.populated.addComponent reached'.sound.toValid result
  | copy live => exact ⟨peopled.populated.owned, peopled.populated.listed⟩
  | drop handle => exact peopled.populated.dropHandle sound.toValid handle

theorem Peopled.lives {op : Lifetime} {store after : Store} (peopled : Peopled store)
    (next : Lives op store after) : Peopled after := by
  obtain ⟨issued, reached⟩ := peopled.reached
  cases next with
  | assemble next => exact peopled.assemble next
  | releaseUnusedObjects rt =>
      exact ⟨⟨_, .releaseUnusedObjects rt reached⟩, peopled.populated.release peopled.sound rt⟩

theorem empty_peopled : Peopled {} where
  reached := ⟨_, .empty⟩
  populated := ⟨fun _ _ here => (nomatch here), fun _ _ ⟨_, here, _⟩ => (nomatch here)⟩

theorem peopled_of_run {past : List (Store × Lifetime)} {last : Store}
    (run : Run Lives {} past last) : Peopled last := by
  induction run with
  | nil => exact empty_peopled
  | snoc before next ih => exact ih.lives next

structure Kept (store : Store) : Prop where
  reached : ∃ issued, Reached true store issued
  populated : store.Populated
  ownersHeld : store.OwnersHeld

theorem Kept.sound {store : Store} (kept : Kept store) : Sound true [] store :=
  kept.reached.choose_spec.sound

theorem Kept.release_ownersHeld {store : Store} (kept : Kept store) (rt : Runtime) :
    (store.releaseUnusedObjects rt).OwnersHeld ↔ store.OwnersOutlive rt := by
  have sound := kept.sound
  have release_lookup := kept.populated.release_lookup sound rt
  have gameObject_swept {id : Nat} {entry : ObjEntry} {mComponents : ComponentMap}
      (found : store.mObjects.lookup id = some entry)
      (known : store.bodyAt entry.unique = some (.gameObject mComponents)) :=
    kept.populated.gameObject_swept sound (rt.objectOrder store.mObjects) found known
  constructor
  · intro held id entry owner found known marked
    by_contra stays
    have still := (release_lookup id entry).mpr ⟨found, stays⟩
    rcases held id entry _ still ((release_bodyAt sound rt still).trans known) with
      null | ⟨id', entry', mComponents, found', same, known'⟩
    · cases null
    · cases same
      obtain ⟨before, stays'⟩ := (release_lookup id' entry').mp found'
      rw [release_bodyAt sound rt found'] at known'
      exact stays' ((gameObject_swept before known').mpr marked)
  · intro outlive id entry mGameObj found known
    obtain ⟨before, stays⟩ := (release_lookup id entry).mp found
    rw [release_bodyAt sound rt found] at known
    rcases kept.ownersHeld id entry mGameObj before known with
      null | ⟨id', entry', mComponents, found', rfl, known'⟩
    · exact .inl null
    · have still : (store.releaseUnusedObjects rt).mObjects.lookup id' = some entry' := by
        refine (release_lookup id' entry').mpr ⟨found', fun goes => ?_⟩
        exact stays (outlive id entry _ before known ((gameObject_swept found' known').mp goes))
      exact .inr ⟨id', entry', mComponents, still, rfl,
        (release_bodyAt sound rt still).trans known'⟩

theorem Kept.peopled {store : Store} (kept : Kept store) : Peopled store :=
  ⟨kept.reached, kept.populated⟩

theorem Peopled.kept {store : Store} (peopled : Peopled store) (ownersHeld : store.OwnersHeld) :
    Kept store :=
  ⟨peopled.reached, peopled.populated, ownersHeld⟩

theorem Kept.assemble {op : Operation} {store after : Store} (kept : Kept store)
    (next : Assembles op store after) : Kept after := by
  apply (kept.peopled.assemble next).kept
  have sound := kept.sound
  cases next with
  | createGameObject room result =>
      obtain rfl := createDefaultObj_new sound.toValid (lookup_registry classGameObject) result
      exact kept.ownersHeld.withNewObject sound.toValid (.inl rfl)
  | createComponent room result =>
      obtain rfl := createDefaultObj_new sound.toValid (lookup_registry classComponent) result
      exact kept.ownersHeld.withNewObject sound.toValid (.inr rfl)
  | addComponent result => exact kept.ownersHeld.addComponent kept.populated result
  | copy live => exact kept.ownersHeld
  | drop handle => exact kept.ownersHeld.dropHandle handle

def Lifetime.OwnersOutlive : Lifetime → Store → Prop
  | .assemble _, _ => True
  | .releaseUnusedObjects rt, store => store.OwnersOutlive rt

theorem Kept.step {op : Lifetime} {store after : Store} (kept : Kept store)
    (next : Lives op store after) :
    (after.OwnersHeld ↔ op.OwnersOutlive store) ∧ (op.OwnersOutlive store → Kept after) := by
  have peopled := kept.peopled.lives next
  cases next with
  | assemble next =>
      have kept' := kept.assemble next
      exact ⟨iff_of_true kept'.ownersHeld trivial, fun _ => kept'⟩
  | releaseUnusedObjects rt =>
      have held := kept.release_ownersHeld rt
      exact ⟨held, fun outlive => peopled.kept (held.mpr outlive)⟩

theorem empty_kept : Kept {} := empty_peopled.kept fun _ _ _ found => (nomatch found)

theorem ownersHeld_iff {past : List (Store × Lifetime)} {last : Store}
    (run : Run Lives {} past last) :
    Always OwnersHeld past last ↔ ∀ entry ∈ past, entry.2.OwnersOutlive entry.1 :=
  run.always_iff empty_kept Kept.ownersHeld Kept.step

section Adopted

def adoption : List (Store × Lifetime) :=
  [({}, .assemble .createGameObject), (oneGameObject, .assemble .createComponent),
    (oneGameObject.registerObj { body := .component .null },
      .assemble (.addComponent 0 (.shared 1)))]

theorem adoption_run : Run Lives {} adoption adopted := by
  have result : addComponent plainRuntime ∅ (oneGameObject.registerObj { body := .component .null })
      0 (.shared 1) = .ok (adopted, []) := rfl
  exact .snoc (.snoc (.snoc .nil (.assemble (.createGameObject (by decide) (by rfl))))
    (.assemble (.createComponent (by decide) (by rfl)))) (.assemble (.addComponent result))

theorem ownersHeld_adopted :
    Always OwnersHeld (adoption ++ [(adopted, .releaseUnusedObjects plainRuntime)])
      (adopted.releaseUnusedObjects plainRuntime) := by
  refine (ownersHeld_iff (adoption_run.snoc (.releaseUnusedObjects plainRuntime))).mpr ?_
  rw [List.forall_mem_append, List.forall_mem_singleton]
  refine ⟨by simp [adoption, Lifetime.OwnersOutlive], ?_⟩
  intro id entry owner found known marked
  rcases adopted_entry found with ⟨-, rfl⟩ | ⟨-, rfl⟩
  · rw [adopted_bodies.1] at known
    cases known
  · rw [adopted_bodies.2] at known
    cases known
    cases marked

theorem orphan_dangles : ∃ past last, Run Lives {} past last ∧ ¬ Always OwnersHeld past last := by
  refine ⟨_, _, (adoption_run.snoc (.assemble (.drop 0))).snoc
    (.releaseUnusedObjects plainRuntime), fun always => ?_⟩
  rcases always.2 2 ⟨1, 1⟩ (.object 0) rfl rfl with null | ⟨id, entry, mComponents, -, same, known⟩
  · cases null
  · rw [← GameObjectPtr.object.inj same] at known
    cases known

end Adopted

end PackagedTask.Objects
