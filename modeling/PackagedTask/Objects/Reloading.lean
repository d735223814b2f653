import PackagedTask.Library.Runs
import PackagedTask.Objects.Histories
import PackagedTask.Objects.Lifetimes

namespace PackagedTask.Objects
open Streams Library Library.StateError Store

/-! A store that `deserialize` built from what `serialize` wrote is again a store to build on and
to write. -/

section Linked

variable {rt : Runtime} {store after : Store} {id_remap : IdRemap} {ref : ObjectRef}

theorem fileHandle_sound (sound : Sound true [] store) (ref : ObjectRef) (key : Int)
    (handle : HandleRef) : Sound true [] (store.setComponent ref key (store.lock handle)) := by
  by_cases filed : ∃ mComponents, store.bodyAt ref = some (.gameObject mComponents)
  · obtain ⟨mComponents, here⟩ := filed
    apply sound.assignComponent here
    intro other same
    unfold lock at same
    split at same
    · rename_i live
      cases same
      obtain ⟨cell, found⟩ := Option.isSome_iff_exists.mp live
      exact sound.held found
    · cases same
  · have same : store.setComponent ref key (store.lock handle) = store := by
      unfold setComponent
      split
      · rename_i here
        exact absurd ⟨_, by rw [bodyAt, here]; rfl⟩ filed
      · rfl
    rw [same]
    exact sound

theorem link_sound {slots : List (Σ _ : Int, PObjHandle)} (sound : Sound true [] store)
    (result : GameObject.link id_remap ref slots store = .ok () after) : Sound true [] after := by
  induction slots generalizing store with
  | nil =>
      cases result
      exact sound
  | cons slot slots ih =>
      rw [GameObject.link] at result
      obtain ⟨c_inst, middle, keyed, ran⟩ := bind_ok_iff.mp result
      obtain ⟨rfl, -⟩ := linkKey_ok keyed
      cases aimed : id_remap.lookup c_inst with
      | none =>
          rw [aimed] at ran
          cases ran
      | some id =>
          rw [aimed] at ran
          simp only at ran
          obtain ⟨ptr, middle', got, ran⟩ := bind_ok_iff.mp ran
          obtain ⟨rfl, entry, -, rfl⟩ := getObject_ok got
          rw [bind_of_ok (modify_apply _ _)] at ran
          exact ih (fileHandle_sound sound ref slot.1 entry.handle) ran

theorem getObjectPtr_ok {id : Nat} {go : ObjectRef} (result : getObjectPtr id store = .ok go after) :
    after = store ∧ ∃ entry, store.mObjects.lookup id = some entry ∧ go = entry.unique := by
  unfold getObjectPtr at result
  rw [bind_of_ok (get_apply _)] at result
  cases found : store.mObjects.lookup id with
  | none =>
      rw [found] at result
      cases result
  | some entry =>
      rw [found] at result
      cases result
      exact ⟨rfl, entry, rfl, rfl⟩

theorem linkObject_sound (sound : Sound true [] store)
    (result : linkObject rt id_remap ref store = .ok () after) : Sound true [] after := by
  rw [linkObject, bind_of_ok (get_apply store)] at result
  cases found : store.objects.lookup ref with
  | none =>
      rw [found] at result
      cases result
  | some object =>
      rw [found] at result
      simp only at result
      have here : store.bodyAt ref = some object.body := by rw [bodyAt, found]; rfl
      cases kind : object.body with
      | object =>
          rw [kind] at result
          cases result
          exact sound
      | component mGameObj =>
          rw [kind] at result here
          simp only [Component.link] at result
          cases aimed : id_remap.lookup (rt.low32 mGameObj) with
          | none =>
              rw [aimed] at result
              cases result
          | some id =>
              rw [aimed] at result
              obtain ⟨go, middle, got, ran⟩ := bind_ok_iff.mp result
              obtain ⟨rfl, entry, registered, rfl⟩ := getObjectPtr_ok got
              rw [modify_apply] at ran
              cases ran
              exact sound.setGameObject here (sound.toValid.unique_lt registered)
      | gameObject mComponents =>
          rw [kind] at result
          exact link_sound sound result

theorem linkAll_sound {entries : List (Σ _ : Nat, ObjEntry)} (sound : Sound true [] store)
    (result : linkAll rt id_remap entries store = .ok () after) : Sound true [] after := by
  induction entries generalizing store with
  | nil =>
      cases result
      exact sound
  | cons entry entries ih =>
      rw [linkAll] at result
      obtain ⟨_, middle, first, rest⟩ := bind_ok_iff.mp result
      exact ih (linkObject_sound sound first) rest

theorem registrable_of_unlinked {ob : Object} (unmarked : ob.is_del_it = false)
    (unlinked : ob.body.Unlinked) (store : Store) : Registrable store ob where
  unmarked := unmarked
  shares := fun handle owns => absurd owns (unlinked.not_shared handle)
  owner := by
    intro ref same
    rw [same] at unlinked
    obtain ⟨id, cast⟩ := unlinked
    unfold GameObjectPtr.ofFileId at cast
    split at cast <;> cases cast

theorem registerAll_sound {loader : Loader} {objs : List Object}
    (sound : Sound true [] loader.store)
    (ready : ∀ obj ∈ objs, obj.is_del_it = false ∧ obj.body.Unlinked)
    (room : loader.store.mNextAvailableID + objs.length < 2 ^ 32) :
    Sound true [] (loader.registerAll objs).store := by
  induction objs generalizing loader with
  | nil => exact sound
  | cons obj objs ih =>
      rw [List.length_cons] at room
      obtain ⟨unmarked, unlinked⟩ := ready obj List.mem_cons_self
      have same : (loader.register obj).store = loader.store.withNewObject obj :=
        sound.toValid.registerObj_eq obj
      apply @ih (loader.register obj)
      · rw [same]
        exact sound.withNewObject (registrable_of_unlinked unmarked unlinked _) (by omega)
      · exact fun other member => ready other (List.mem_cons_of_mem _ member)
      · have counter : (loader.register obj).store.mNextAvailableID =
            loader.store.mNextAvailableID + 1 := by
          rw [same]
          exact Nat.mod_eq_of_lt (by omega)
        omega

end Linked

/-- What linking makes of a body that was read, when record `i` becomes the object `i`. -/
def Body.Restores (fileIds : List Nat) : Body → Body → Prop
  | .object, body => body = .object
  | .component mGameObj, body => ∃ i, lastIndex mGameObj.fileKey fileIds = some i ∧
      body = .component (.object i)
  | .gameObject mComponents, body => ∃ linked, body = .gameObject linked ∧
      (∀ key m_link_key, mComponents.lookup key = some (.placeholder m_link_key) →
        ∃ i, lastIndex m_link_key fileIds = some i ∧ linked.lookup key = some (.shared i)) ∧
      ∀ key, mComponents.lookup key = none → linked.lookup key = none

section Loaded

variable {rt rt' : Runtime} {store linked : Store} {stream last : InputMemoryStream}

def Store.fileObjects (rt : Runtime) (store : Store) : List Object :=
  (store.liveEntries rt).map (store.fileObject rt)

theorem fileObjects_unmarked (sendable : store.Sendable) :
    ∀ obj ∈ store.fileObjects rt, obj.is_del_it = false := by
  intro obj member
  rw [Store.fileObjects, ← records_toObject sendable] at member
  obtain ⟨record, -, rfl⟩ := List.mem_map.mp member
  unfold Record.toObject
  split <;> rfl

/-- `linked` is what a fresh manager is after reading the records of `store`. -/
structure Restored (rt : Runtime) (store linked : Store) : Prop where
  sound : Sound true [] linked
  entries : ∀ id entry, linked.mObjects.lookup id = some entry ↔
    ∃ i < (store.fileObjects rt).length, id = i + 1 ∧ entry = ⟨i, i⟩
  present : ∀ ref body, linked.bodyAt ref = some body → ref < (store.fileObjects rt).length
  alive : ∀ i < (store.fileObjects rt).length, linked.resolve (.shared i) = some i
  bodies : ∀ i obj, (store.fileObjects rt)[i]? = some obj → ∃ body,
    linked.bodyAt i = some body ∧ obj.body.Restores ((store.liveEntries rt).map Sigma.fst) body

theorem restores_of_links {loader after : Loader} {objs : List Object} {body body' : Body}
    (load : Load loader objs after) (fresh : loader.store.nextObject = 0)
    (fresh' : loader.store.nextHandle = 0) (unlinked : body.Unlinked)
    (links : BodyLinks rt' after.istance_id_remap after.store.mObjects body body') :
    body.Restores (objs.map Object.mInstanceId) body' := by
  cases body with
  | object => exact links
  | component mGameObj =>
      obtain ⟨id, rfl⟩ := unlinked
      obtain ⟨entry, aimed, rfl⟩ := links
      rw [low32_ofFileId] at aimed
      obtain ⟨i, -, last, rfl⟩ := load.target_some aimed
      rw [fresh, fresh', Nat.zero_add]
      exact ⟨i, last, rfl⟩
  | gameObject mComponents =>
      obtain ⟨linkedComponents, rfl, slots, absent⟩ := links
      refine ⟨linkedComponents, rfl, ?_, absent⟩
      intro key m_link_key present
      obtain ⟨c_inst, entry, fileKey, aimed, final⟩ := slots key _ present
      obtain rfl := fileKey m_link_key rfl
      obtain ⟨i, -, last, rfl⟩ := load.target_some aimed
      rw [fresh', Nat.zero_add] at final
      exact ⟨i, last, final⟩

theorem restored_of_finishes {loader after : Loader} (sendable : store.Sendable)
    (load : Load loader (store.fileObjects rt) after) (empty : loader.store = {})
    (same : after = loader.registerAll (store.fileObjects rt))
    (finishes : Load.Finishes rt' after linked) : Restored rt store linked := by
  obtain ⟨touched, frame⟩ := load.relinked finishes
  have fresh : loader.store.nextObject = 0 := by rw [empty]
  have fresh' : loader.store.nextHandle = 0 := by rw [empty]
  have first : loader.store.mNextAvailableID = 1 := by rw [empty]
  refine ⟨?_, ?_, ?_, ?_, ?_⟩
  · refine linkAll_sound ?_ finishes
    rw [same]
    apply registerAll_sound
    · rw [empty]
      exact empty_sound
    · exact fun obj member => ⟨fileObjects_unmarked sendable obj member, load.unlinked obj member⟩
    · exact load.narrow
  · intro id entry
    rw [frame.mObjects]
    constructor
    · intro found
      rcases load.registered.entry_cases found with ⟨-, before⟩ | ⟨i, inside, rfl, rfl⟩
      · rw [empty] at before
        cases before
      · exact ⟨i, inside, by omega, by rw [fresh, fresh', Nat.zero_add]⟩
    · rintro ⟨i, inside, rfl, rfl⟩
      have found := load.registered.entry_new inside
      rwa [fresh, fresh', first, Nat.zero_add, Nat.add_comm] at found
  · intro ref body here
    have there : (after.store.bodyAt ref).isSome := by
      rw [← frame.present ref, here]
      rfl
    obtain ⟨body', there⟩ := Option.isSome_iff_exists.mp there
    rcases load.registered.bodyAt_cases there with ⟨-, before⟩ | ⟨i, obj, at_, rfl, -⟩
    · rw [empty] at before
      cases before
    · rw [fresh, Nat.zero_add]
      exact (List.getElem?_eq_some_iff.mp at_).1
  · intro i inside
    have points := load.resolve_linked finishes inside
    rwa [fresh, fresh', Nat.zero_add] at points
  · intro i obj at_
    obtain ⟨body, there, links⟩ := load.new_body_links finishes at_
    rw [fresh, Nat.zero_add] at there
    refine ⟨body, there, ?_⟩
    rw [← fileIds_eq sendable]
    exact restores_of_links load fresh fresh' (load.unlinked obj (List.mem_of_getElem? at_)) links

theorem restored_of_accepted {after : Loader} (sendable : store.Sendable)
    (small : ((store.records rt).flatMap Record.encode).length < 2 ^ 31)
    (carries : Carries stream ((store.records rt).flatMap Record.encode))
    (accepted : Deserializes rt' {} [] stream (.ok ()) after) :
    Restored rt store after.store := by
  obtain ⟨objs, last', linked, decoded', done', finishes, rfl⟩ := deserializes_ok_iff.mp accepted
  obtain ⟨last, decoded, -, done, room⟩ := written_decodes sendable small carries
  obtain ⟨rfl, rfl⟩ :=
    decoded.deterministic decoded' (streamPass_done done) (streamPass_done done')
  have load := Load.of_decodes empty_sound.toValid [] decoded room
  exact restored_of_finishes sendable load rfl rfl finishes

def Store.Mirrored (rt : Runtime) (store : Store) : Body → Body → Prop
  | .object, _ => False
  | .component mGameObj, body => ∃ i id entry, (store.liveEntries rt)[i]? = some ⟨id, entry⟩ ∧
      mGameObj = .object entry.unique ∧ body = .component (.object i)
  | .gameObject mComponents, body => ∃ linked, body = .gameObject linked ∧
      (∀ key ptr, mComponents.lookup key = some ptr → ∃ i id entry,
        (store.liveEntries rt)[i]? = some ⟨id, entry⟩ ∧ store.resolve ptr = some entry.unique ∧
          linked.lookup key = some (.shared i)) ∧
      ∀ key, mComponents.lookup key = none → linked.lookup key = none

theorem last_live (rt : Runtime) {id i : Nat}
    (last : lastIndex id ((store.liveEntries rt).map Sigma.fst) = some i) :
    ∃ entry, (store.liveEntries rt)[i]? = some ⟨id, entry⟩ ∧ store.Live id entry := by
  have there := lastIndex_get last
  rw [List.getElem?_map, Option.map_eq_some_iff] at there
  obtain ⟨⟨_, entry⟩, there, rfl⟩ := there
  exact ⟨entry, there, mem_liveEntries.mp (List.mem_of_getElem? there)⟩

theorem fileObjects_at {i id : Nat} {entry : ObjEntry}
    (at_ : (store.liveEntries rt)[i]? = some ⟨id, entry⟩) :
    (store.fileObjects rt)[i]? = some (store.fileObject rt ⟨id, entry⟩) := by
  rw [Store.fileObjects, List.getElem?_map, at_, Option.map_some]

theorem Restored.mirrored (restored : Restored rt store linked) (sendable : store.Sendable)
    (owners : store.OwnersLive) {i id : Nat} {entry : ObjEntry} {source : Body}
    (at_ : (store.liveEntries rt)[i]? = some ⟨id, entry⟩)
    (known : store.bodyAt entry.unique = some source) :
    ∃ body, linked.bodyAt i = some body ∧ store.Mirrored rt source body := by
  have live : store.Live id entry := mem_liveEntries.mp (List.mem_of_getElem? at_)
  obtain ⟨body, here, restores⟩ := restored.bodies i _ (fileObjects_at at_)
  have mirrors := (fileObject_mirrors rt sendable live known).1
  refine ⟨body, here, ?_⟩
  cases source with
  | object => exact sendable.classes id entry live known
  | component mGameObj =>
      obtain ⟨id', entry', rfl, live'⟩ := owners id entry mGameObj live known
      rw [mirrors.owner _ rfl, writtenId_of_found sendable live'.1] at restores
      obtain ⟨j, last, rfl⟩ := restores
      rw [fileKey_ofFileId] at last
      obtain ⟨entry'', there, live''⟩ := last_live rt last
      obtain rfl := Option.some.inj (live'.1.symm.trans live''.1)
      exact ⟨j, id', entry', there, rfl, rfl⟩
  | gameObject mComponents =>
      obtain ⟨table, shape, lookups⟩ := mirrors.components mComponents rfl
      rw [shape] at restores
      obtain ⟨linkedComponents, rfl, slots, absent⟩ := restores
      refine ⟨linkedComponents, rfl, ?_, fun key blank => absent key (by rw [lookups, blank]; rfl)⟩
      intro key ptr filed
      obtain ⟨-, id', entry', found', points⟩ :=
        sendable.slots id entry mComponents key ptr live known filed
      obtain ⟨j, last, final⟩ := slots key _ (by rw [lookups, filed, Option.map_some])
      rw [points, Option.map_some, Option.getD_some, writtenId_of_found sendable found'] at last
      obtain ⟨entry'', there, live''⟩ := last_live rt last
      obtain rfl := Option.some.inj (found'.symm.trans live''.1)
      exact ⟨j, id', entry', there, points, final⟩

theorem Store.Mirrored.filed {mComponents : ComponentMap} {body : Body}
    (mirrored : store.Mirrored rt (.gameObject mComponents) body) : ∃ linked : ComponentMap,
      body = .gameObject linked ∧
        (∀ key, (linked.lookup key).isSome = (mComponents.lookup key).isSome) ∧
        ∀ key ptr, linked.lookup key = some ptr → ∃ i, ptr = .shared i := by
  obtain ⟨linked, rfl, slots, absent⟩ := mirrored
  refine ⟨linked, rfl, ?_, ?_⟩
  · intro key
    cases there : mComponents.lookup key with
    | none => rw [absent key there]
    | some ptr =>
        obtain ⟨i, -, -, -, -, final⟩ := slots key ptr there
        rw [final]
        rfl
  · intro key ptr final
    cases there : mComponents.lookup key with
    | none =>
        rw [absent key there] at final
        cases final
    | some before =>
        obtain ⟨i, -, -, -, -, final'⟩ := slots key before there
        exact ⟨i, Option.some.inj (final.symm.trans final')⟩

theorem Restored.source (restored : Restored rt store linked) (sendable : store.Sendable)
    (owners : store.OwnersLive) {ref : ObjectRef} {body : Body}
    (here : linked.bodyAt ref = some body) : ∃ id entry source,
      (store.liveEntries rt)[ref]? = some ⟨id, entry⟩ ∧
        store.bodyAt entry.unique = some source ∧ store.Mirrored rt source body := by
  have inside := restored.present ref body here
  rw [Store.fileObjects, List.length_map] at inside
  obtain ⟨⟨id, entry⟩, at_⟩ : ∃ slot, (store.liveEntries rt)[ref]? = some slot :=
    ⟨_, List.getElem?_eq_getElem inside⟩
  have live : store.Live id entry := mem_liveEntries.mp (List.mem_of_getElem? at_)
  obtain ⟨source, -, known⟩ := sendable.valid.object_of_live live
  obtain ⟨body', here', mirrored⟩ := restored.mirrored sendable owners at_ known
  obtain rfl := Option.some.inj (here.symm.trans here')
  exact ⟨id, entry, source, at_, known, mirrored⟩

theorem Restored.assembled (restored : Restored rt store linked) (sendable : store.Sendable)
    (owners : store.OwnersLive) (assembled : Assembled store) : Assembled linked where
  shaped := by
    intro ref body here
    obtain ⟨id, entry, source, at_, known, mirrored⟩ := restored.source sendable owners here
    cases source with
    | object => exact mirrored.elim
    | component mGameObj =>
        obtain ⟨i, id', entry', there, rfl, rfl⟩ := mirrored
        obtain none_ | ⟨owner, mComponents, same, game⟩ := assembled.shaped _ _ known
        · cases none_
        · cases same
          obtain ⟨body', here', linkedComponents, rfl, -⟩ :=
            restored.mirrored sendable owners there game
          exact .inr ⟨i, linkedComponents, rfl, here'⟩
    | gameObject mComponents =>
        obtain ⟨linkedComponents, rfl, filed, shared⟩ := mirrored.filed
        intro key ptr slot
        have there : (mComponents.lookup key).isSome := by
          rw [← filed, slot]
          rfl
        obtain ⟨before, there⟩ := Option.isSome_iff_exists.mp there
        exact ⟨(assembled.shaped _ _ known key before there).1, shared key ptr slot⟩
  owned := by
    intro ref body here
    exact ⟨ref + 1, ⟨ref, ref⟩, (restored.entries _ _).mpr
      ⟨ref, restored.present ref body here, rfl, rfl⟩, rfl⟩

theorem Restored.live_iff (restored : Restored rt store linked) {id : Nat} {entry : ObjEntry} :
    linked.Live id entry ↔ linked.mObjects.lookup id = some entry := by
  refine ⟨And.left, fun found => ⟨found, ?_⟩⟩
  obtain ⟨i, inside, rfl, rfl⟩ := (restored.entries id entry).mp found
  obtain ⟨handle, m_link_key, same, alive⟩ := resolve_eq_some_iff.mp (restored.alive i inside)
  cases same
  rw [← Bool.not_eq_true, restored.sound.deleted _ _ found, alive]
  simp

theorem Restored.ownersLive (restored : Restored rt store linked) (sendable : store.Sendable)
    (owners : store.OwnersLive) : linked.OwnersLive := by
  intro id entry mGameObj live known
  obtain ⟨id', entry', source, at_, known', mirrored⟩ := restored.source sendable owners known
  cases source with
  | object => exact mirrored.elim
  | component before =>
      obtain ⟨i, id'', entry'', there, -, same⟩ := mirrored
      obtain rfl := Body.component.inj same
      refine ⟨i + 1, ⟨i, i⟩, rfl, restored.live_iff.mpr ((restored.entries _ _).mpr ⟨i, ?_, rfl, rfl⟩)⟩
      rw [Store.fileObjects, List.length_map]
      exact (List.getElem?_eq_some_iff.mp there).1
  | gameObject mComponents =>
      obtain ⟨linkedComponents, same, -⟩ := mirrored
      cases same

end Loaded
end PackagedTask.Objects
