import PackagedTask.Objects.RoundTrip
import PackagedTask.Objects.Sweeping

namespace PackagedTask.Objects
open Streams Library Store

/-! Managers assembled by creating `GameObject`s and `Component`s, adopting and dropping handles. -/

inductive Built : Store → Prop
  | empty : Built {}
  | createGameObject {store after handle} (before : Built store)
      (room : store.mNextAvailableID < 2 ^ 32 - 1)
      (result : createDefaultObj classGameObject store = .ok handle after) : Built after
  | createComponent {store after handle} (before : Built store)
      (room : store.mNextAvailableID < 2 ^ 32 - 1)
      (result : createDefaultObj classComponent store = .ok handle after) : Built after
  | addComponent {rt table store after go com calls} (before : Built store)
      (result : addComponent rt table store go com = .ok (after, calls)) : Built after
  | copy {store handle} (before : Built store) (live : (store.handles.lookup handle).isSome) :
      Built { store with held := handle :: store.held }
  | drop {store} (handle : HandleRef) (before : Built store) : Built (store.dropHandle handle)

theorem Built.reached {store : Store} (built : Built store) : ∃ issued, Reached true store issued := by
  induction built with
  | empty => exact ⟨_, .empty⟩
  | createGameObject before room result ih =>
      obtain ⟨issued, reached⟩ := ih
      exact ⟨_, .createDefaultObj reached room result⟩
  | createComponent before room result ih =>
      obtain ⟨issued, reached⟩ := ih
      exact ⟨_, .createDefaultObj reached room result⟩
  | addComponent before result ih =>
      obtain ⟨issued, reached⟩ := ih
      exact ⟨_, .addComponent reached result⟩
  | copy before live ih =>
      obtain ⟨issued, reached⟩ := ih
      exact ⟨_, .copy reached live⟩
  | drop handle before ih =>
      obtain ⟨issued, reached⟩ := ih
      exact ⟨_, .drop handle reached⟩

theorem Built.sound {store : Store} (built : Built store) : Sound true [] store :=
  built.reached.choose_spec.sound

def Store.Shaped (store : Store) : Body → Prop
  | .object => False
  | .component mGameObj => mGameObj = .null ∨ ∃ ref mComponents, mGameObj = .object ref ∧
      store.bodyAt ref = some (.gameObject mComponents)
  | .gameObject mComponents => ∀ key ptr, mComponents.lookup key = some ptr →
      key = classComponent ∧ ∃ handle, ptr = .shared handle

structure Assembled (store : Store) : Prop where
  shaped : ∀ ref body, store.bodyAt ref = some body → store.Shaped body
  owned : ∀ ref body, store.bodyAt ref = some body →
    ∃ id entry, store.mObjects.lookup id = some entry ∧ entry.unique = ref

theorem Store.Shaped.mono {before after : Store} {body : Body} (shaped : before.Shaped body)
    (stays : ∀ ref mComponents, before.bodyAt ref = some (.gameObject mComponents) →
      ∃ mComponents', after.bodyAt ref = some (.gameObject mComponents')) : after.Shaped body := by
  cases body with
  | object => exact shaped
  | component mGameObj =>
      refine shaped.imp_right ?_
      rintro ⟨ref, mComponents, same, here⟩
      obtain ⟨mComponents', there⟩ := stays ref mComponents here
      exact ⟨ref, mComponents', same, there⟩
  | gameObject mComponents => exact shaped

theorem Assembled.of_same {before after : Store} (assembled : Assembled before)
    (bodies : ∀ ref, after.bodyAt ref = before.bodyAt ref)
    (table : after.mObjects = before.mObjects) : Assembled after where
  shaped := by
    intro ref body here
    rw [bodies] at here
    exact (assembled.shaped ref body here).mono fun _ mComponents there =>
      ⟨mComponents, (bodies _).trans there⟩
  owned := by
    intro ref body here
    rw [bodies] at here
    rw [table]
    exact assembled.owned ref body here

theorem Assembled.withNewObject {store : Store} {body : Body} (assembled : Assembled store)
    (valid : store.Valid) (fresh : body = .gameObject ∅ ∨ body = .component .null) :
    Assembled (store.withNewObject { body := body }) where
  shaped := by
    intro ref body' here
    rw [withNewObject_bodyAt] at here
    split at here
    · cases here
      rcases fresh with rfl | rfl
      · intro key ptr slot
        cases slot
      · exact .inl rfl
    · refine (assembled.shaped ref body' here).mono fun other mComponents there => ⟨mComponents, ?_⟩
      rw [withNewObject_bodyAt, if_neg, there]
      exact Nat.ne_of_lt (valid.objectsFresh other _ there)
  owned := valid.withNewObject_owned _ assembled.owned

theorem Assembled.addComponent {rt : Runtime} {table : CmpMsgsTable} {store after : Store}
    {go : ObjectRef} {com : PObjHandle} {calls : List Call} (assembled : Assembled store)
    (result : Objects.addComponent rt table store go com = .ok (after, calls)) :
    Assembled after := by
  obtain ⟨handle, cmp_ptr, mGameObj, mComponents, rfl, -, here, owner, apart, frame, adopted,
    filed⟩ := addComponent_bodies result
  have others {ref : ObjectRef} (notCmp : ref ≠ cmp_ptr) (notGo : ref ≠ go) :
      after.bodyAt ref = store.bodyAt ref := frame.bodyAt ref (by simp [notCmp, notGo])
  -- a `GameObject` stays one: `addComponent` writes only to the component and to `go` itself
  have stays (ref : ObjectRef) (table' : ComponentMap)
      (there : store.bodyAt ref = some (.gameObject table')) :
      ∃ table'', after.bodyAt ref = some (.gameObject table'') := by
    by_cases same : ref = go
    · subst same
      exact ⟨_, filed⟩
    · have other : ref ≠ cmp_ptr := by
        rintro rfl
        rw [here] at there
        cases there
      exact ⟨table', (others other same).trans there⟩
  refine ⟨?_, ?_⟩
  · intro ref body there
    by_cases atGo : ref = go
    · subst atGo
      rw [filed] at there
      cases there
      intro key ptr slot
      rcases lookup_insert_cases slot with ⟨same, rfl⟩ | ⟨-, before⟩
      · exact ⟨same, handle, rfl⟩
      · exact assembled.shaped ref _ owner key ptr before
    · by_cases atCmp : ref = cmp_ptr
      · subst atCmp
        rw [adopted] at there
        cases there
        obtain ⟨table'', final⟩ := stays go mComponents owner
        exact .inr ⟨go, table'', rfl, final⟩
      · rw [others atCmp atGo] at there
        exact (assembled.shaped ref body there).mono stays
  · exact frame.owned assembled.owned

theorem Built.assembled {store : Store} (built : Built store) : Assembled store := by
  induction built with
  | empty => exact ⟨fun _ _ here => (nomatch here), fun _ _ here => (nomatch here)⟩
  | createGameObject before room result ih =>
      obtain rfl := createDefaultObj_new before.sound.toValid (lookup_registry classGameObject) result
      exact ih.withNewObject before.sound.toValid (.inl rfl)
  | createComponent before room result ih =>
      obtain rfl := createDefaultObj_new before.sound.toValid (lookup_registry classComponent) result
      exact ih.withNewObject before.sound.toValid (.inr rfl)
  | addComponent before result ih => exact ih.addComponent result
  | copy before live ih => exact ih.of_same (fun _ => rfl) rfl
  | @drop store handle before ih =>
      have frame := dropHandle_frame store handle
      exact ih.of_same (fun ref => frame.bodyAt ref (Set.notMem_empty ref)) frame.mObjects

theorem Assembled.slot_points {store : Store} (assembled : Assembled store)
    (sound : Sound true [] store) {ref : ObjectRef} {mComponents : ComponentMap} {key : Int}
    {ptr : PObjHandle} (known : store.bodyAt ref = some (.gameObject mComponents))
    (slot : mComponents.lookup key = some ptr) : key = classComponent ∧
      ∃ id entry, store.mObjects.lookup id = some entry ∧
        store.resolve ptr = some entry.unique ∧ store.isDeleted entry.unique = false := by
  obtain ⟨isComponent, handle, rfl⟩ := assembled.shaped ref _ known key ptr slot
  have count : store.isHeld handle = true :=
    isHeld_iff.mpr (.inr ⟨ref, _, known, mem_handles_iff.mpr ⟨key, slot⟩⟩)
  obtain ⟨cell, found⟩ := Option.isSome_iff_exists.mp (sound.alive handle count)
  rcases sound.points handle cell found with ⟨destroyed, -⟩ | ⟨id, entry, registered, pointed, same⟩
  · cases destroyed
  · refine ⟨isComponent, id, entry, registered, ?_, ?_⟩
    · rw [resolve, found]
      exact pointed
    · cases mark : store.isDeleted entry.unique with
      | false => rfl
      | true =>
          have dead := (sound.deleted id entry registered).mp mark
          rw [same, found] at dead
          cases dead

theorem Assembled.sendable {store : Store} (assembled : Assembled store)
    (sound : Sound true [] store) : store.Sendable where
  valid := sound.toValid
  classes := by
    intro id entry live known
    exact assembled.shaped _ _ known
  owners := by
    intro id entry mGameObj live known
    refine (assembled.shaped _ _ known).imp_right ?_
    rintro ⟨ref, mComponents, rfl, there⟩
    obtain ⟨id', entry', found', rfl⟩ := assembled.owned ref _ there
    exact ⟨id', entry', rfl, found'⟩
  slots := by
    intro id entry mComponents key ptr live known slot
    obtain ⟨rfl, id', entry', found', points, -⟩ := assembled.slot_points sound known slot
    exact ⟨by simp [Record.FitsInt32, classComponent], id', entry', found', points⟩

theorem Assembled.componentsLive {store : Store} (assembled : Assembled store)
    (sound : Sound true [] store) : store.ComponentsLive := by
  intro id entry mComponents key ptr ref live known slot points
  obtain ⟨-, id', entry', -, points', alive⟩ := assembled.slot_points sound known slot
  obtain rfl := Option.some.inj (points'.symm.trans points)
  exact alive

theorem Built.sendable {store : Store} (built : Built store) : store.Sendable :=
  built.assembled.sendable built.sound

theorem Built.componentsLive {store : Store} (built : Built store) : store.ComponentsLive :=
  built.assembled.componentsLive built.sound

/-- The bytes of the store load into a fresh manager; records without an owner come back so. Record
`i` becomes the object with id `i + 1`. -/
def LoadsBack (rt rt' : Runtime) (objects : List HandleRef) (store : Store) : Prop :=
  ∃ out, serialize rt store {} = .ok out ∧ ∀ stream, Carries stream out.buffer →
    ∃ after, Deserializes rt' {} objects stream (.ok ()) after ∧
      ∀ i id, (store.records rt)[i]? = some (.component id none) →
        after.store.bodyOf (i + 1) = some (.component .null)

variable {rt rt' : Runtime} {objects : List HandleRef} {store : Store}

theorem ownersLive_of_loadsBack (built : Built store)
    (small : ∀ out, serialize rt store {} = .ok out → out.buffer.length < 2 ^ 31)
    (loads : LoadsBack rt rt' objects store) : store.OwnersLive := by
  have written := serialize_eq rt built.sendable.valid built.sendable.allWritable
  obtain ⟨out, written', reads⟩ := loads
  obtain rfl := Except.ok.inj (written.symm.trans written')
  obtain ⟨after, accepted, -⟩ := reads _ (streamOf_carries _)
  exact ((written_accepted_iff rt' objects built.sendable (small _ written)
    (streamOf_carries _)).mp ⟨after, accepted⟩).1

theorem no_ownerless_record (sendable : store.Sendable) (owners : store.OwnersLive) {id : Nat}
    (member : .component id none ∈ store.records rt) : False := by
  obtain ⟨⟨id', entry⟩, inside, same⟩ := List.mem_filterMap.mp member
  have live := mem_liveEntries.mp inside
  obtain ⟨body, here, known⟩ := sendable.valid.object_of_live live
  rw [Store.recordOf, here] at same
  cases body with
  | object => cases same
  | component mGameObj =>
      obtain ⟨id'', entry'', rfl, -⟩ := owners id' entry mGameObj live known
      cases same
  | gameObject mComponents => cases same

theorem loadsBack_iff (built : Built store)
    (small : ∀ out, serialize rt store {} = .ok out → out.buffer.length < 2 ^ 31) :
    LoadsBack rt rt' objects store ↔ store.OwnersLive := by
  refine ⟨ownersLive_of_loadsBack built small, fun owners => ?_⟩
  have written := serialize_eq rt built.sendable.valid built.sendable.allWritable
  refine ⟨_, written, fun stream carries => ?_⟩
  obtain ⟨after, accepted⟩ := (written_accepted_iff rt' objects built.sendable (small _ written)
    carries).mpr ⟨owners, built.componentsLive⟩
  refine ⟨after, accepted, fun i id here => ?_⟩
  exact (no_ownerless_record built.sendable owners (List.mem_of_getElem? here)).elim

theorem adopted_built : Built adopted := by
  have game : Built oneGameObject := .createGameObject .empty (by decide) (by rfl)
  have both : Built (oneGameObject.registerObj { body := .component .null }) :=
    .createComponent game (by decide) (by rfl)
  have result : addComponent plainRuntime ∅ (oneGameObject.registerObj { body := .component .null })
      0 (.shared 1) = .ok (adopted, []) := rfl
  exact .addComponent both result

theorem adopted_loadsBack : LoadsBack plainRuntime plainRuntime [] adopted := by
  refine (loadsBack_iff adopted_built ?_).mpr (marked_closed none (by simp)).ownersLive
  rintro out ⟨⟩
  decide

def oneComponent : Store := ({} : Store).registerObj { body := .component .null }

theorem oneComponent_not_loadsBack :
    Built oneComponent ∧ ¬ LoadsBack plainRuntime plainRuntime [] oneComponent := by
  have built : Built oneComponent := .createComponent .empty (by decide) (by rfl)
  refine ⟨built, fun loads => ?_⟩
  have owners := ownersLive_of_loadsBack built (by rintro out ⟨⟩; decide) loads
  obtain ⟨id, entry, same, -⟩ := owners 1 ⟨0, 0⟩ .null ⟨rfl, rfl⟩ rfl
  cases same

end PackagedTask.Objects
