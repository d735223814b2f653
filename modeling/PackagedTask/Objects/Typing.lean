import PackagedTask.Objects.Messages
import PackagedTask.Objects.Termination

namespace PackagedTask.Objects
open Streams Library Library.Iteration Store

/-! Whether the objects of an accepted stream have the classes that the code casts them to. -/

def Store.IsA (store : Store) (ref : ObjectRef) (classID : Int) : Prop :=
  ∃ body, store.bodyAt ref = some body ∧
    isDerivedFromClassID s_mClassIDToRttiMap body.getClassIDVirtual classID = true

/-- The entry `key` of a `mComponents` leads to a `Component` of the class `key`. -/
def Store.SlotTyped (store : Store) (key : Int) (ptr : PObjHandle) : Prop :=
  ∃ ref, store.resolve ptr = some ref ∧ store.IsA ref classComponent ∧
    (store.bodyAt ref).map Body.getClassIDVirtual = some key

def Store.BodyTyped (store : Store) : Body → Prop
  | .object => True
  | .component mGameObj => ∃ ref, mGameObj = .object ref ∧ store.IsA ref classGameObject
  | .gameObject mComponents => ∀ key ptr, mComponents.lookup key = some ptr →
      store.SlotTyped key ptr

structure Store.WellTyped (store : Store) : Prop where
  bodies : ∀ id body, store.bodyOf id = some body → store.BodyTyped body
  messages : ∀ id mComponents, store.bodyOf id = some (.gameObject mComponents) →
    ∀ order : List (Σ _ : Int, PObjHandle), order.Perm mComponents.entries →
      ∀ table sender messageIdentifier, ∃ calls,
        sendMessage table store sender messageIdentifier order = .ok calls

def RecordIsA (objs : List Object) (id : Nat) (classID : Int) : Prop :=
  ∃ i obj, lastIndex id (objs.map Object.mInstanceId) = some i ∧ objs[i]? = some obj ∧
    isDerivedFromClassID s_mClassIDToRttiMap obj.body.getClassIDVirtual classID = true

def RecordTyped (objs : List Object) : Body → Prop
  | .object => True
  | .component mGameObj => RecordIsA objs mGameObj.fileKey classGameObject
  | .gameObject mComponents => ∀ key m_link_key,
      mComponents.lookup key = some (.placeholder m_link_key) →
        key = classComponent ∧ RecordIsA objs m_link_key classComponent

/-- Owner ids name `GameObject`s, and component ids name `Component`s under their own class. -/
def RecordsTyped (objs : List Object) : Prop := ∀ obj ∈ objs, RecordTyped objs obj.body

theorem RecordTyped.resolvable {objs : List Object} {body : Body} (typed : RecordTyped objs body) :
    body.Resolvable (objs.map Object.mInstanceId) := by
  have known {id : Nat} {classID : Int} (named : RecordIsA objs id classID) :
      id ∈ objs.map Object.mInstanceId := by
    obtain ⟨i, obj, last, -⟩ := named
    exact lastIndex_isSome_iff.mp (Option.isSome_of_eq_some last)
  cases body with
  | object => trivial
  | component mGameObj => exact known typed
  | gameObject mComponents => exact fun key m_link_key present => known (typed key m_link_key present).2

theorem Store.IsA.component {store : Store} {ref : ObjectRef} (isA : store.IsA ref classComponent) :
    (store.bodyAt ref).map Body.getClassIDVirtual = some classComponent := by
  obtain ⟨body, here, derived⟩ := isA
  obtain ⟨mGameObj, rfl⟩ := (component_derived_iff body).mp derived
  rw [here]
  rfl

theorem dynamicCast_typed {store : Store} {key : Int} {ptr : PObjHandle}
    (typed : store.SlotTyped key ptr) : ∃ ref object,
      store.dynamicCast classComponent ptr = .ok (some ref) ∧
        store.objects.lookup ref = some object ∧ object.body.getClassIDVirtual = key := by
  obtain ⟨ref, points, ⟨body, here, derived⟩, named⟩ := typed
  obtain ⟨handle, m_link_key, rfl, cell⟩ := resolve_eq_some_iff.mp points
  rw [here] at named
  obtain ⟨object, found, rfl⟩ := Option.map_eq_some_iff.mp here
  refine ⟨ref, object, ?_, found, Option.some.inj named⟩
  simp only [Store.dynamicCast, cell, found, derived, if_true]

theorem sendMessage_typed {store : Store} {entries : List (Σ _ : Int, PObjHandle)}
    (typed : ∀ entry ∈ entries, store.SlotTyped entry.1 entry.2) (table : CmpMsgsTable)
    (sender messageIdentifier : Int) :
    ∃ calls, sendMessage table store sender messageIdentifier entries = .ok calls := by
  induction entries with
  | nil => exact ⟨[], rfl⟩
  | cons entry rest ih =>
      obtain ⟨key, cmp⟩ := entry
      obtain ⟨calls, others⟩ := ih fun entry member => typed entry (List.mem_cons_of_mem _ member)
      by_cases addressed : (table.hasMessageCallback messageIdentifier key && key ≠ sender) = true
      · have slot : store.SlotTyped key cmp := typed ⟨key, cmp⟩ List.mem_cons_self
        obtain ⟨ref, object, cast, found, named⟩ := dynamicCast_typed slot
        obtain ⟨callback, listed⟩ := Option.isSome_iff_exists.mp (Bool.and_eq_true_iff.mp addressed).1
        have handled : handleMessage table store messageIdentifier (some ref) = .ok ⟨ref, callback⟩ := by
          simp only [handleMessage, found]
          rw [named, listed]
        refine ⟨⟨ref, callback⟩ :: calls, ?_⟩
        rw [sendMessage, if_pos addressed, cast, others]
        show (handleMessage table store messageIdentifier (some ref) >>= fun call => _) = _
        rw [handled]
        rfl
      · exact ⟨calls, by rw [sendMessage, if_neg addressed, others]⟩

section Loaded
variable {loader after : Loader} {objs : List Object} {rt : Runtime} {linked : Store}

theorem Load.class_at (load : Load loader objs after) (finishes : Load.Finishes rt after linked)
    {i : Nat} {obj : Object} (here : objs[i]? = some obj) :
    ∃ body, linked.bodyAt (loader.store.nextObject + i) = some body ∧
      body.getClassIDVirtual = obj.body.getClassIDVirtual := by
  obtain ⟨body, there, links⟩ := load.new_body_links finishes here
  exact ⟨body, there, Load.class_linked links⟩

theorem Load.isA_iff (load : Load loader objs after) (finishes : Load.Finishes rt after linked)
    {id i : Nat} (last : lastIndex id (objs.map Object.mInstanceId) = some i) (classID : Int) :
    linked.IsA (loader.store.nextObject + i) classID ↔ RecordIsA objs id classID := by
  have here := List.getElem?_eq_getElem (load.lastIndex_lt last)
  obtain ⟨body, there, same⟩ := load.class_at finishes here
  constructor
  · rintro ⟨body', there', derived⟩
    obtain rfl := Option.some.inj (there.symm.trans there')
    exact ⟨i, _, last, here, same ▸ derived⟩
  · rintro ⟨j, obj, last', here', derived⟩
    obtain rfl := Option.some.inj (last.symm.trans last')
    obtain rfl := Option.some.inj (here.symm.trans here')
    exact ⟨body, there, same ▸ derived⟩

theorem Load.slotTyped_iff (load : Load loader objs after)
    (finishes : Load.Finishes rt after linked) {id i : Nat}
    (last : lastIndex id (objs.map Object.mInstanceId) = some i) (key : Int) :
    linked.SlotTyped key (.shared (loader.store.nextHandle + i)) ↔
      key = classComponent ∧ RecordIsA objs id classComponent := by
  have points := load.resolve_linked finishes (load.lastIndex_lt last)
  rw [← load.isA_iff finishes last]
  constructor
  · rintro ⟨ref, points', component, named⟩
    obtain rfl := Option.some.inj (points.symm.trans points')
    exact ⟨Option.some.inj (named.symm.trans component.component), component⟩
  · rintro ⟨rfl, component⟩
    exact ⟨_, points, component, component.component⟩

theorem Load.bodyTyped_iff (load : Load loader objs after)
    (finishes : Load.Finishes rt after linked) {body body' : Body} (unlinked : body.Unlinked)
    (links : BodyLinks rt after.istance_id_remap after.store.mObjects body body') :
    linked.BodyTyped body' ↔ RecordTyped objs body := by
  cases body with
  | object =>
      obtain rfl : body' = .object := links
      exact Iff.rfl
  | component mGameObj =>
      obtain ⟨id, rfl⟩ := unlinked
      obtain ⟨entry, aimed, rfl⟩ := links
      rw [low32_ofFileId] at aimed
      obtain ⟨i, inside, last, rfl⟩ := load.target_some aimed
      rw [RecordTyped, ← load.isA_iff finishes last]
      constructor
      · rintro ⟨ref, same, owner⟩
        cases same
        exact owner
      · exact fun owner => ⟨_, rfl, owner⟩
  | gameObject mComponents =>
      obtain ⟨linkedComponents, rfl, slots, absent⟩ := links
      have slot {key : Int} {m_link_key : Nat}
          (present : mComponents.lookup key = some (.placeholder m_link_key)) :
          ∃ i, lastIndex m_link_key (objs.map Object.mInstanceId) = some i ∧
            linkedComponents.lookup key = some (.shared (loader.store.nextHandle + i)) := by
        obtain ⟨c_inst, entry, fileKey, aimed, final⟩ := slots key _ present
        obtain rfl := fileKey m_link_key rfl
        obtain ⟨i, -, last, rfl⟩ := load.target_some aimed
        exact ⟨i, last, final⟩
      constructor
      · intro typed key m_link_key present
        obtain ⟨i, last, final⟩ := slot present
        exact (load.slotTyped_iff finishes last key).mp (typed key _ final)
      · intro typed key ptr final
        cases present : mComponents.lookup key with
        | none => simp [absent key present] at final
        | some placeholder =>
            obtain ⟨m_link_key, rfl⟩ := unlinked key placeholder present
            obtain ⟨i, last, final'⟩ := slot present
            obtain rfl := Option.some.inj (final'.symm.trans final)
            exact (load.slotTyped_iff finishes last key).mpr (typed key m_link_key present)

theorem Load.linked_wellTyped_iff (load : Load loader objs after)
    (finishes : Load.Finishes rt after linked) (empty : loader.store.mObjects = ∅) :
    linked.WellTyped ↔ RecordsTyped objs := by
  constructor
  · intro typed obj member
    obtain ⟨i, here⟩ := List.getElem?_of_mem member
    obtain ⟨body, found, links⟩ := load.bodyOf_new finishes here
    exact (load.bodyTyped_iff finishes (load.unlinked obj member) links).mp
      (typed.bodies _ body found)
  · intro typed
    have bodies (id : Nat) (body : Body) (found : linked.bodyOf id = some body) :
        linked.BodyTyped body := by
      obtain ⟨entry, registered, -⟩ := Option.bind_eq_some_iff.mp found
      obtain ⟨touched, frame⟩ := load.relinked finishes
      rw [frame.mObjects] at registered
      rcases load.registered.entry_cases registered with ⟨-, before⟩ | ⟨i, inside, rfl, -⟩
      · rw [empty] at before
        cases before
      · have here := List.getElem?_eq_getElem inside
        obtain ⟨body', found', links⟩ := load.bodyOf_new finishes here
        obtain rfl := Option.some.inj (found'.symm.trans found)
        have member := List.getElem_mem inside
        exact (load.bodyTyped_iff finishes (load.unlinked _ member) links).mpr (typed _ member)
    refine ⟨bodies, ?_⟩
    intro id mComponents found order perm table sender messageIdentifier
    refine sendMessage_typed (fun entry member => ?_) table sender messageIdentifier
    exact bodies id _ found entry.1 entry.2 (AList.mem_lookup_iff.mpr (perm.mem_iff.mp member))

end Loaded

theorem records_lt {stream last : InputMemoryStream} {objs : List Object}
    (fresh : stream.head = 0) (decoded : Decodes stream objs last)
    (done : last.getRemainingDataSize ≤ 0) : objs.length < 2 ^ 30 := by
  have walk := streamSteps_iff.mpr ⟨objs, rfl, decoded⟩
  have ended : streamPass last = .inr (.ok ()) := by
    unfold streamPass
    rw [if_neg (by omega)]
  -- heads are multiples of 4, so a quarter of the head already tells the loop's states apart
  have bound := steps_lt_card (fun t : InputMemoryStream => t.head / 4) (Finset.range (2 ^ 30))
    (fun n t walk => by
      have narrow := (steps_walks walk).narrow (by omega)
      rw [Finset.mem_range]
      omega)
    (fun n m t u walk walk' same => by
      have walks := steps_walks walk
      have walks' := steps_walks walk'
      have aligned := walks.aligned (by omega)
      have aligned' := walks'.aligned (by omega)
      obtain ⟨data, head, capacity⟩ := t
      obtain ⟨data', head', capacity'⟩ := u
      obtain rfl : data = data' := walks.data.trans walks'.data.symm
      obtain rfl : capacity = capacity' := walks.capacity.trans walks'.capacity.symm
      obtain rfl : head = head' := by dsimp only at same aligned aligned'; omega
      rfl) walk ended
  rwa [Finset.card_range] at bound

/-- The hypotheses on the manager hold of a new one; `room` keeps `registerObj` below
`UINT32_MAX`. -/
theorem wellTyped_iff {rt : Runtime} {store : Store} {objects : List HandleRef}
    {stream : InputMemoryStream} {after : Loader} (valid : store.Valid)
    (empty : store.mObjects = ∅) (room : store.mNextAvailableID ≤ 3 * 2 ^ 30)
    (fresh : stream.head = 0) (accepted : Deserializes rt store objects stream (.ok ()) after) :
    after.store.WellTyped ↔ ∃ objs last, Decodes stream objs last ∧
      last.getRemainingDataSize ≤ 0 ∧ RecordsTyped objs := by
  obtain ⟨objs, last, linked, decoded, done, finishes, rfl⟩ := deserializes_ok_iff.mp accepted
  have count := records_lt fresh decoded done
  have load := Load.of_decodes valid objects decoded (by omega)
  have started : (Loader.start store objects stream).store.mObjects = ∅ := by
    rw [(start_frame store objects stream).mObjects, empty]
  rw [load.linked_wellTyped_iff finishes started]
  constructor
  · exact fun typed => ⟨objs, last, decoded, done, typed⟩
  · rintro ⟨objs', last', decoded', done', typed⟩
    obtain ⟨rfl, rfl⟩ :=
      decoded.deterministic decoded' (streamPass_done done) (streamPass_done done')
    exact typed

def pair : List Record := [.gameObject 1 [(classComponent, 2)], .component 2 (some 1)]

theorem pair_decodes : Decodes (streamOf (pair.flatMap Record.encode))
    (pair.map Record.toObject) (advance (streamOf (pair.flatMap Record.encode)) 36) :=
  decodes_records (by simp [pair, Record.Fits, Record.FitsInt32, classComponent]) (by decide)
    ((streamOf_carries _).holds (by decide))

theorem pair_typed : RecordsTyped (pair.map Record.toObject) := by
  have owner : RecordIsA (pair.map Record.toObject) 1 classGameObject :=
    ⟨0, _, by decide, rfl, by decide⟩
  have component : RecordIsA (pair.map Record.toObject) 2 classComponent :=
    ⟨1, _, by decide, rfl, by decide⟩
  intro obj member
  rcases List.mem_cons.mp member with rfl | member
  · intro key m_link_key present
    by_cases same : key = classComponent
    · subst same
      rw [Record.placeholders, List.foldl_cons, List.foldl_nil, AList.lookup_insert] at present
      cases present
      exact ⟨rfl, component⟩
    · rw [Record.placeholders, List.foldl_cons, List.foldl_nil, AList.lookup_insert_ne same,
        AList.lookup_empty] at present
      cases present
  · obtain rfl := List.mem_singleton.mp member
    exact owner

theorem pair_accepted : ∃ after, Deserializes plainRuntime {} []
    (streamOf (pair.flatMap Record.encode)) (.ok ()) after :=
  (accepted_iff_resolvable empty_sound.toValid empty_nothingToLink [] pair_decodes (by decide)
    (by decide)).mpr fun obj member => (pair_typed obj member).resolvable

theorem pair_wellTyped : ∃ after, Deserializes plainRuntime {} []
    (streamOf (pair.flatMap Record.encode)) (.ok ()) after ∧ after.store.WellTyped := by
  obtain ⟨after, accepted⟩ := pair_accepted
  exact ⟨after, accepted, (wellTyped_iff empty_sound.toValid rfl (by decide) rfl accepted).mpr
    ⟨_, _, pair_decodes, by decide, pair_typed⟩⟩

def selfOwned : List Record := [.component 1 (some 1)]

theorem selfOwned_not_wellTyped : ∃ after, Deserializes plainRuntime {} []
    (streamOf (selfOwned.flatMap Record.encode)) (.ok ()) after ∧ ¬ after.store.WellTyped := by
  refine ⟨_, ⟨2, rfl⟩, fun typed => ?_⟩
  obtain ⟨ref, same, body, here, derived⟩ := typed.bodies 1 (.component (.object 0)) rfl
  cases same
  cases here
  revert derived
  decide

end PackagedTask.Objects
