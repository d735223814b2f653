import PackagedTask.Objects.Handles
import PackagedTask.Objects.Linking
import PackagedTask.Objects.Messages

namespace PackagedTask.Objects
open Streams Library Library.StateError Store

/-! Runs of the manager's public operations. -/

theorem createDefaultObj_ok {obj_type : Int} {store after : Store} {handle : HandleRef}
    (result : createDefaultObj obj_type store = .ok handle after) :
    ∃ rtti, s_mClassIDToRttiMap.lookup obj_type = some rtti ∧
      after = store.registerObj { body := rtti.factory } ∧ handle = store.nextHandle := by
  unfold createDefaultObj at result
  obtain ⟨rtti, s1, found, rest⟩ := bind_ok_iff.mp result
  obtain ⟨known, rfl⟩ := classIDToRTTI_ok_iff.mp found
  rw [bind_of_ok (get_apply _), bind_of_ok (set_apply _ _), pure_apply] at rest
  cases rest
  exact ⟨rtti, known, rfl, rfl⟩

theorem createDefaultObj_new {obj_type : Int} {rtti : RTTI} {store after : Store}
    {handle : HandleRef} (valid : store.Valid)
    (known : s_mClassIDToRttiMap.lookup obj_type = some rtti)
    (result : createDefaultObj obj_type store = .ok handle after) :
    after = store.withNewObject { body := rtti.factory } := by
  obtain ⟨rtti', known', rfl, -⟩ := createDefaultObj_ok result
  obtain rfl := Option.some.inj (known.symm.trans known')
  exact valid.registerObj_eq _

theorem factory_registrable (store : Store) {obj_type : Int} {rtti : RTTI}
    (known : s_mClassIDToRttiMap.lookup obj_type = some rtti) :
    Registrable store { body := rtti.factory } := by
  rw [lookup_registry] at known
  split_ifs at known <;> cases known
  all_goals exact ⟨rfl, fun _ owns => (nomatch owns), fun _ same => (nomatch same)⟩

theorem dynamicCast_ok {store : Store} {com : PObjHandle} {cmp_ptr : ObjectRef}
    (result : store.dynamicCast classComponent com = .ok (some cmp_ptr)) :
    ∃ handle cell mGameObj, com = .shared handle ∧ store.handles.lookup handle = some cell ∧
      cell.m_ptr = some cmp_ptr ∧ store.bodyAt cmp_ptr = some (.component mGameObj) := by
  cases com with
  | null => cases result
  | placeholder m_link_key => cases result
  | shared handle =>
      rw [Store.dynamicCast] at result
      cases found : store.handles.lookup handle with
      | none =>
          rw [found] at result
          cases result
      | some cell =>
          obtain ⟨m_ptr, m_link_key⟩ := cell
          cases m_ptr with
          | none =>
              rw [found] at result
              cases result
          | some ref =>
              rw [found] at result
              cases here : store.objects.lookup ref with
              | none =>
                  simp only [here] at result
                  cases result
              | some object =>
                  simp only [here] at result
                  split at result
                  · rename_i derived
                    cases result
                    obtain ⟨mGameObj, kind⟩ := (component_derived_iff object.body).mp derived
                    refine ⟨handle, _, mGameObj, rfl, found, rfl, ?_⟩
                    rw [bodyAt, here, Option.map_some, kind]
                  · cases result

theorem addComponent_ok {rt : Runtime} {table : CmpMsgsTable} {store after : Store}
    {go : ObjectRef} {com : PObjHandle} {calls : List Call}
    (result : addComponent rt table store go com = .ok (after, calls)) :
    ∃ handle cell cmp_ptr mGameObj mComponents, com = .shared handle ∧
      store.handles.lookup handle = some cell ∧ cell.m_ptr = some cmp_ptr ∧
      store.bodyAt cmp_ptr = some (.component mGameObj) ∧
      (store.setGameObject cmp_ptr (.object go)).bodyAt go = some (.gameObject mComponents) ∧
      after = (store.setGameObject cmp_ptr (.object go)).setComponent go classComponent com := by
  unfold addComponent at result
  cases cast : store.dynamicCast classComponent com with
  | error fault =>
      rw [cast] at result
      cases result
  | ok ptr =>
      rw [cast] at result
      cases ptr with
      | none => cases result
      | some cmp_ptr =>
          obtain ⟨handle, cell, mGameObj, rfl, found, pointed, here⟩ := dynamicCast_ok cast
          obtain ⟨-, there⟩ := setGameObject_relinked here (.object go)
          -- the class id is asked for after `setGameObj`, which leaves the class alone
          have cid : (store.setGameObject cmp_ptr (.object go)).classIDAt cmp_ptr =
              classComponent := by
            obtain ⟨object, present, kind⟩ := Option.map_eq_some_iff.mp there
            rw [classIDAt, present, Option.map_some, kind]
            rfl
          simp only [cid, componentSendMessage] at result
          cases owner : (store.setGameObject cmp_ptr (.object go)).objects.lookup go with
          | none =>
              rw [owner] at result
              cases result
          | some object =>
              obtain ⟨mInstanceId, is_del_it, body⟩ := object
              cases body with
              | object =>
                  rw [owner] at result
                  cases result
              | component mGameObj' =>
                  rw [owner] at result
                  cases result
              | gameObject mComponents =>
                  refine ⟨handle, cell, cmp_ptr, mGameObj, mComponents, rfl, found, pointed, here, ?_, ?_⟩
                  · rw [bodyAt, owner]
                    rfl
                  · rw [owner] at result
                    simp only at result
                    split at result
                    · cases result
                    · cases result
                      rfl

/-- Any sequence of the public operations on an empty manager, ended or not by destroying it. The
list records which object every id was given to. -/
inductive Reached : Bool → Store → List (Nat × ObjectRef) → Prop
  | empty : Reached true {} []
  | createDefaultObj {store after issued obj_type handle}
      (before : Reached true store issued)
      (room : store.mNextAvailableID < 2 ^ 32 - 1)
      (result : createDefaultObj obj_type store = .ok handle after) :
      Reached true after ((store.mNextAvailableID, store.nextObject) :: issued)
  | registerObj {store issued} (ob : Object)
      (before : Reached true store issued)
      (room : store.mNextAvailableID < 2 ^ 32 - 1) (ready : Registrable store ob) :
      Reached true (store.registerObj ob)
        ((store.mNextAvailableID, store.nextObject) :: issued)
  | getObject {store after issued id handle} (before : Reached true store issued)
      (result : getObject id store = .ok (.shared handle) after) :
      Reached true { after with held := handle :: after.held } issued
  | copy {managed store issued handle} (before : Reached managed store issued)
      (live : (store.handles.lookup handle).isSome) :
      Reached managed { store with held := handle :: store.held } issued
  | drop {managed store issued} (handle : HandleRef)
      (before : Reached managed store issued) :
      Reached managed (store.dropHandle handle) issued
  | addComponent {rt table store after issued go com calls} (before : Reached true store issued)
      (result : addComponent rt table store go com = .ok (after, calls)) :
      Reached true after issued
  | releaseUnusedObjects {store issued} (rt : Runtime) (before : Reached true store issued) :
      Reached true (store.releaseUnusedObjects rt) issued
  | destroyManager {store issued} (rt : Runtime) (before : Reached true store issued) :
      Reached false (store.destroyManager rt) issued

theorem empty_sound : Sound true [] {} where
  keyed := fun _ _ found => by cases found
  positive := Nat.one_pos
  narrow := by norm_num
  objectsFresh := fun _ _ found => by cases found
  ownersFresh := fun _ _ found => by cases found
  handlesFresh := fun _ _ found => by cases found
  alive := fun _ count => by cases count
  points := fun _ _ found => by cases found
  emptied := fun destroyed => by cases destroyed
  entryHandles := fun _ _ _ _ found => by cases found
  entriesFresh := fun _ _ found => by cases found
  deleted := fun _ _ found => by cases found
  counted := fun _ _ found => by cases found

theorem addComponent_sound {rt : Runtime} {table : CmpMsgsTable} {store after : Store}
    {go : ObjectRef} {com : PObjHandle} {calls : List Call} (sound : Sound true [] store)
    (result : addComponent rt table store go com = .ok (after, calls)) : Sound true [] after := by
  obtain ⟨handle, cell, cmp_ptr, mGameObj, mComponents, rfl, found, -, here, owner, rfl⟩ :=
    addComponent_ok result
  obtain ⟨step, -⟩ := setGameObject_relinked here (.object go)
  have present : (store.bodyAt go).isSome := by
    rw [← step.present go, owner]
    rfl
  obtain ⟨body, known⟩ := Option.isSome_iff_exists.mp present
  have owned := sound.setGameObject here (sound.objectsFresh go body known)
  apply owned.setComponent owner
  apply (owned.counted handle cell ?_).resolve_right List.not_mem_nil
  rw [Store.setGameObject, modifyObject_eq]
  exact found

theorem getObject_ok {id : Nat} {store after : Store} {ptr : PObjHandle}
    (result : getObject id store = .ok ptr after) : after = store ∧
      ∃ entry, store.mObjects.lookup id = some entry ∧ ptr = store.lock entry.handle := by
  unfold getObject at result
  rw [bind_of_ok (get_apply _)] at result
  cases found : store.mObjects.lookup id with
  | none =>
      rw [found] at result
      cases result
  | some entry =>
      rw [found] at result
      cases result
      exact ⟨rfl, entry, rfl, rfl⟩

theorem Reached.sound {managed : Bool} {store : Store} {issued : List (Nat × ObjectRef)}
    (reached : Reached managed store issued) :
    Sound managed [] store := by
  induction reached with
  | empty => exact empty_sound
  | createDefaultObj before room result ih =>
      obtain ⟨rtti, known, rfl, -⟩ := createDefaultObj_ok result
      rw [ih.toValid.registerObj_eq]
      exact ih.withNewObject (factory_registrable _ known) room
  | registerObj ob before room ready ih =>
      rw [ih.toValid.registerObj_eq]
      exact ih.withNewObject ready room
  | @getObject store after issued id handle before result ih =>
      obtain ⟨rfl, entry, -, locked⟩ := getObject_ok result
      unfold lock at locked
      split at locked
      · rename_i live
        obtain ⟨cell, found⟩ := Option.isSome_iff_exists.mp live
        cases locked
        exact ih.hold found
      · cases locked
  | copy before live ih =>
      obtain ⟨cell, found⟩ := Option.isSome_iff_exists.mp live
      exact ih.hold found
  | drop handle before ih => exact ih.dropHandle handle
  | addComponent before result ih => exact addComponent_sound ih result
  | releaseUnusedObjects rt before ih => exact ih.releaseUnusedObjects rt
  | destroyManager rt before ih => exact ih.destroyManager rt

structure Issues (before after : Store) : Prop where
  counter : after.mNextAvailableID = before.mNextAvailableID
  fewer : ∀ id entry, after.mObjects.lookup id = some entry →
    before.mObjects.lookup id = some entry

theorem Issues.trans {a b c : Store} (first : Issues a b) (second : Issues b c) : Issues a c :=
  ⟨second.counter.trans first.counter,
    fun id entry found => first.fewer id entry (second.fewer id entry found)⟩

theorem Issues.of_frame {touched : Set ObjectRef} {before after : Store}
    (frame : Frame touched before after) : Issues before after :=
  ⟨frame.mNextAvailableID, fun _ _ found => frame.mObjects ▸ found⟩

theorem destroyObject_issues (store : Store) (ref : ObjectRef) :
    Issues store (store.destroyObject ref) := by
  unfold destroyObject
  cases store.objects.lookup ref with
  | none => exact ⟨rfl, fun _ _ found => found⟩
  | some object =>
      have frame := releaseAll_frame object.body.handles
        { store with objects := store.objects.erase ref }
      exact ⟨frame.mNextAvailableID, fun _ _ found => frame.mObjects ▸ found⟩

theorem sweep_issues (entries : List (Σ _ : Nat, ObjEntry)) (store : Store) :
    Issues store (store.sweep entries) := by
  induction entries generalizing store with
  | nil => exact ⟨rfl, fun _ _ found => found⟩
  | cons first rest ih =>
      obtain ⟨id, entry⟩ := first
      rw [sweep]
      split
      · have erased : Issues store { store with mObjects := store.mObjects.erase id } := by
          exact ⟨rfl, fun other entry' found => (lookup_of_erase found).2⟩
        exact (erased.trans (destroyObject_issues _ _)).trans (ih _)
      · exact ih store

theorem destroyManager_issues (rt : Runtime) (store : Store) :
    Issues store (store.destroyManager rt) := by
  have members (order : List (Σ _ : Nat, ObjEntry)) (store : Store) :
      Issues store (order.foldl (fun store entry => store.destroyObject entry.2.unique) store) := by
    induction order generalizing store with
    | nil => exact ⟨rfl, fun _ _ found => found⟩
    | cons entry order ih => exact (destroyObject_issues store _).trans (ih _)
  have nullified : Issues store { (rt.objectOrder store.mObjects).foldl
      (fun store entry => store.nullify entry.2.handle) store with mObjects := ∅ } :=
    ⟨(nullifyAll (rt.objectOrder store.mObjects) store).mNextAvailableID,
      fun _ _ found => by cases found⟩
  exact nullified.trans (members _ _)

theorem addComponent_issues {rt : Runtime} {table : CmpMsgsTable} {store after : Store}
    {go : ObjectRef} {com : PObjHandle} {calls : List Call}
    (result : addComponent rt table store go com = .ok (after, calls)) : Issues store after := by
  obtain ⟨handle, cell, cmp_ptr, mGameObj, mComponents, rfl, -, -, here, owner, rfl⟩ :=
    addComponent_ok result
  obtain ⟨first, -⟩ := setGameObject_relinked here (.object go)
  obtain ⟨second, -⟩ := setComponent_relinked owner classComponent (.shared handle)
  exact (Issues.of_frame first.toFrame).trans (.of_frame second.toFrame)

structure Log (store : Store) (issued : List (Nat × ObjectRef)) : Prop where
  below : ∀ id ref, (id, ref) ∈ issued → id < store.mNextAvailableID
  once : ∀ id ref ref', (id, ref) ∈ issued → (id, ref') ∈ issued → ref = ref'
  complete : ∀ id entry, store.mObjects.lookup id = some entry → (id, entry.unique) ∈ issued

theorem Log.of_issues {before after : Store} {issued : List (Nat × ObjectRef)}
    (log : Log before issued) (issues : Issues before after) : Log after issued where
  below := fun id ref member => issues.counter ▸ log.below id ref member
  once := log.once
  complete := fun id entry found => log.complete id entry (issues.fewer id entry found)

theorem Log.withNewObject {store : Store} {issued : List (Nat × ObjectRef)} (log : Log store issued)
    (ob : Object) (room : store.mNextAvailableID < 2 ^ 32 - 1) :
    Log (store.withNewObject ob) ((store.mNextAvailableID, store.nextObject) :: issued) where
  below := by
    intro id ref member
    have counter : (store.withNewObject ob).mNextAvailableID = store.mNextAvailableID + 1 :=
      Nat.mod_eq_of_lt (by omega)
    rw [counter]
    rcases List.mem_cons.mp member with same | before
    · cases same
      exact Nat.lt_succ_self _
    · exact Nat.lt_succ_of_lt (log.below id ref before)
  once := by
    intro id ref ref' member member'
    rcases List.mem_cons.mp member with same | before
    · cases same
      rcases List.mem_cons.mp member' with same' | before'
      · cases same'
        rfl
      · exact absurd (log.below _ _ before') (lt_irrefl _)
    · rcases List.mem_cons.mp member' with same' | before'
      · cases same'
        exact absurd (log.below _ _ before) (lt_irrefl _)
      · exact log.once id ref ref' before before'
  complete := by
    intro id entry found
    rcases withNewObject_entry found with ⟨rfl, rfl⟩ | ⟨-, before⟩
    · exact List.mem_cons_self
    · exact List.mem_cons_of_mem _ (log.complete id entry before)

theorem Reached.log {managed : Bool} {store : Store} {issued : List (Nat × ObjectRef)}
    (reached : Reached managed store issued) :
    Log store issued := by
  induction reached with
  | empty =>
      exact ⟨fun _ _ member => (nomatch member), fun _ _ _ member => (nomatch member),
        fun _ _ found => (nomatch found)⟩
  | createDefaultObj before room result ih =>
      obtain ⟨rtti, known, rfl, -⟩ := createDefaultObj_ok result
      rw [before.sound.toValid.registerObj_eq]
      exact ih.withNewObject _ room
  | registerObj ob before room ready ih =>
      rw [before.sound.toValid.registerObj_eq]
      exact ih.withNewObject ob room
  | getObject before result ih =>
      obtain ⟨rfl, -⟩ := getObject_ok result
      exact ih.of_issues ⟨rfl, fun _ _ found => found⟩
  | copy before live ih => exact ih.of_issues ⟨rfl, fun _ _ found => found⟩
  | drop handle before ih => exact ih.of_issues (.of_frame (dropHandle_frame _ handle))
  | addComponent before result ih => exact ih.of_issues (addComponent_issues result)
  | releaseUnusedObjects rt before ih => exact ih.of_issues (sweep_issues _ _)
  | destroyManager rt before ih => exact ih.of_issues (destroyManager_issues rt _)

structure StoreInvariant (managed : Bool) (store : Store) (issued : List (Nat × ObjectRef)) :
    Prop where
  keyed : ∀ id entry, store.mObjects.lookup id = some entry →
    id ≠ 0 ∧ id < store.mNextAvailableID ∧ store.idAt entry.unique = some id
  unshared : ∀ id entry ref, store.mObjects.lookup id = some entry →
    ((id, ref) ∈ issued ↔ ref = entry.unique)
  oneHandle : ∀ handle cell ref, store.handles.lookup handle = some cell → cell.m_ptr = some ref →
    ∃ id entry, store.mObjects.lookup id = some entry ∧ entry.unique = ref ∧
      store.lock entry.handle = .shared handle ∧
      ∀ handle' cell', store.handles.lookup handle' = some cell' → cell'.m_ptr = some ref →
        handle' = handle
  deleted : ∀ id entry, store.mObjects.lookup id = some entry →
    (store.isDeleted entry.unique = true ↔ store.lock entry.handle = .null)
  liveHandles : ∀ handle cell, store.handles.lookup handle = some cell →
    (managed = false ∧ cell.m_ptr = none) ∨ ∃ id entry, store.mObjects.lookup id = some entry ∧
      cell.m_ptr = some entry.unique ∧ (store.objects.lookup entry.unique).isSome
  destroyed : managed = false → store.mObjects = ∅
  counted : ∀ handle, (store.handles.lookup handle).isSome ↔ store.isHeld handle = true

theorem reached_storeInvariant {managed : Bool} {store : Store} {issued : List (Nat × ObjectRef)}
    (reached : Reached managed store issued) : StoreInvariant managed store issued := by
  have sound := reached.sound
  have log := reached.log
  -- a handle with a target is the handle of that target's entry, whether or not it is deleted
  have aimed {handle : HandleRef} {cell : ObjHandle} {ref : ObjectRef}
      (found : store.handles.lookup handle = some cell) (pointed : cell.m_ptr = some ref) :
      ∃ id entry, store.mObjects.lookup id = some entry ∧ entry.unique = ref ∧
        entry.handle = handle := by
    rcases sound.points handle cell found with ⟨-, null⟩ | ⟨id, entry, registered, there, same⟩
    · rw [pointed] at null
      cases null
    · exact ⟨id, entry, registered, Option.some.inj (there.symm.trans pointed), same⟩
  refine ⟨?_, ?_, ?_, ?_, ?_, sound.emptied, ?_⟩
  · intro id entry found
    obtain ⟨positive, below, carried⟩ := sound.keyed id entry found
    exact ⟨Nat.ne_of_gt positive, below, carried⟩
  · intro id entry ref found
    have member := log.complete id entry found
    constructor
    · intro member'
      exact log.once id ref entry.unique member' member
    · rintro rfl
      exact member
  · intro handle cell ref found pointed
    obtain ⟨id, entry, registered, unique, same⟩ := aimed found pointed
    refine ⟨id, entry, registered, unique, ?_, ?_⟩
    · rw [lock, same, found]
      rfl
    · intro handle' cell' found' pointed'
      obtain ⟨id', entry', registered', unique', same'⟩ := aimed found' pointed'
      obtain rfl := sound.toValid.unique_injective registered registered' (unique.trans unique'.symm)
      obtain rfl := Option.some.inj (registered.symm.trans registered')
      exact same'.symm.trans same
  · intro id entry found
    rw [sound.deleted id entry found, lock]
    cases store.handles.lookup entry.handle <;> simp
  · intro handle cell found
    refine (sound.points handle cell found).imp_right ?_
    rintro ⟨id, entry, registered, pointed, -⟩
    refine ⟨id, entry, registered, pointed, ?_⟩
    have carried := congrArg Option.isSome (sound.keyed id entry registered).2.2
    simpa [idAt] using carried
  · intro handle
    constructor
    · intro live
      obtain ⟨cell, found⟩ := Option.isSome_iff_exists.mp live
      exact sound.held found
    · exact sound.alive handle

theorem reached_storeInvariant_dropped :
    StoreInvariant true (((({} : Store).registerObj { body := .gameObject ∅ }).registerObj
      { body := .component .null }).dropHandle 0) [(2, 1), (1, 0)] :=
  have bare (store : Store) (body : Body) (factory : body = .gameObject ∅ ∨ body = .component .null) :
      Registrable store { body := body } := by
    rcases factory with rfl | rfl
    all_goals exact ⟨rfl, fun _ owns => (nomatch owns), fun _ same => (nomatch same)⟩
  reached_storeInvariant (.drop 0 (.registerObj _
    (.registerObj _ .empty (by decide) (bare _ _ (.inl rfl))) (by decide) (bare _ _ (.inr rfl))))

end PackagedTask.Objects
