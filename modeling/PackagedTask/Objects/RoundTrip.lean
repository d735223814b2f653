import PackagedTask.Objects.Acceptance
import PackagedTask.Objects.Merge
import PackagedTask.Objects.Serialization

namespace PackagedTask.Objects
open Streams Library Store

/-! `serialize` into a fresh stream and `deserialize` of its bytes into a fresh manager. -/

theorem placeholders_lookup {components : List (Int × Nat)} (table : ComponentMap)
    (distinct : (components.map Prod.fst).Nodup) :
    (∀ entry ∈ components,
      (Record.placeholders components table).lookup entry.1 = some (.placeholder entry.2)) ∧
    ∀ key, key ∉ components.map Prod.fst →
      (Record.placeholders components table).lookup key = table.lookup key := by
  induction components generalizing table with
  | nil => exact ⟨fun _ member => (nomatch member), fun _ _ => rfl⟩
  | cons first rest ih =>
      rw [List.map_cons, List.nodup_cons] at distinct
      obtain ⟨inside, outside⟩ := ih (table.insert first.1 (.placeholder first.2)) distinct.2
      refine ⟨?_, ?_⟩
      · intro entry member
        rcases List.mem_cons.mp member with rfl | later
        · exact (outside entry.1 distinct.1).trans (AList.lookup_insert _)
        · exact inside entry later
      · intro key absent
        rw [List.map_cons, List.mem_cons, not_or] at absent
        exact (outside key absent.2).trans (AList.lookup_insert_ne absent.1)

namespace Store

/-- `id` is the id of an object that `serialize` writes. -/
def Live (store : Store) (id : Nat) (entry : ObjEntry) : Prop :=
  store.mObjects.lookup id = some entry ∧ store.isDeleted entry.unique = false

def liveIds (store : Store) : Set Nat := {id | ∃ entry, store.Live id entry}

/-- The live objects are those `serialize` knows to write, and refer to objects of the manager. -/
structure Sendable (store : Store) : Prop where
  valid : store.Valid
  classes : ∀ id entry, store.Live id entry → store.bodyAt entry.unique ≠ some .object
  owners : ∀ id entry mGameObj, store.Live id entry →
    store.bodyAt entry.unique = some (.component mGameObj) → mGameObj = .null ∨
      ∃ id' entry', mGameObj = .object entry'.unique ∧ store.mObjects.lookup id' = some entry'
  slots : ∀ id entry mComponents key ptr, store.Live id entry →
    store.bodyAt entry.unique = some (.gameObject mComponents) →
      mComponents.lookup key = some ptr →
        Record.FitsInt32 key ∧ ∃ id' entry', store.mObjects.lookup id' = some entry' ∧
          store.resolve ptr = some entry'.unique

def OwnersLive (store : Store) : Prop :=
  ∀ id entry mGameObj, store.Live id entry →
    store.bodyAt entry.unique = some (.component mGameObj) →
      ∃ id' entry', mGameObj = .object entry'.unique ∧ store.Live id' entry'

def ComponentsLive (store : Store) : Prop :=
  ∀ id entry mComponents key ptr ref, store.Live id entry →
    store.bodyAt entry.unique = some (.gameObject mComponents) →
      mComponents.lookup key = some ptr → store.resolve ptr = some ref →
        store.isDeleted ref = false

structure Closed (store : Store) : Prop where
  valid : store.Valid
  classes : ∀ id entry, store.Live id entry → store.bodyAt entry.unique ≠ some .object
  owners : ∀ id entry mGameObj, store.Live id entry →
    store.bodyAt entry.unique = some (.component mGameObj) →
      ∃ id' entry' mComponents, mGameObj = .object entry'.unique ∧ store.Live id' entry' ∧
        store.bodyAt entry'.unique = some (.gameObject mComponents)
  slots : ∀ id entry mComponents key ptr, store.Live id entry →
    store.bodyAt entry.unique = some (.gameObject mComponents) →
      mComponents.lookup key = some ptr →
        Record.FitsInt32 key ∧ ∃ id' entry', store.mObjects.lookup id' = some entry' ∧
          store.resolve ptr = some entry'.unique

theorem Closed.ownersLive {store : Store} (closed : store.Closed) : store.OwnersLive := by
  intro id entry mGameObj live known
  obtain ⟨id', entry', mComponents, same, live', -⟩ := closed.owners id entry mGameObj live known
  exact ⟨id', entry', same, live'⟩

theorem Closed.sendable {store : Store} (closed : store.Closed) : store.Sendable where
  valid := closed.valid
  classes := closed.classes
  owners := by
    intro id entry mGameObj live known
    obtain ⟨id', entry', same, live'⟩ := closed.ownersLive id entry mGameObj live known
    exact .inr ⟨id', entry', same, live'.1⟩
  slots := closed.slots

end Store

section Records

variable {rt : Runtime} {store : Store}

theorem Store.Valid.object_of_live (valid : store.Valid) {id : Nat} {entry : ObjEntry}
    (live : store.Live id entry) : ∃ body,
      store.objects.lookup entry.unique = some ⟨id, false, body⟩ ∧
        store.bodyAt entry.unique = some body := by
  obtain ⟨⟨mInstanceId, is_del_it, body⟩, here, carried⟩ :=
    Option.map_eq_some_iff.mp (valid.keyed id entry live.1).2.2
  have mark := live.2
  rw [isDeleted, here] at mark
  obtain rfl : mInstanceId = id := carried
  obtain rfl : is_del_it = false := mark
  exact ⟨body, here, by rw [bodyAt, here]; rfl⟩

theorem Store.Sendable.allWritable (sendable : store.Sendable) : store.AllWritable := by
  intro id entry object found here alive
  have live : store.Live id entry := ⟨found, by rw [isDeleted, here]; exact alive⟩
  have known : store.bodyAt entry.unique = some object.body := by rw [bodyAt, here]; rfl
  cases kind : object.body with
  | object => exact absurd (kind ▸ known) (sendable.classes id entry live)
  | component mGameObj =>
      rcases sendable.owners id entry mGameObj live (kind ▸ known) with
        rfl | ⟨id', entry', rfl, found'⟩
      · trivial
      · exact Option.isSome_of_eq_some (sendable.valid.keyed id' entry' found').2.2
  | gameObject mComponents =>
      intro key ptr slot
      obtain ⟨-, id', entry', found', points⟩ :=
        sendable.slots id entry mComponents key ptr live (kind ▸ known) slot
      exact ⟨_, points, Option.isSome_of_eq_some (sendable.valid.keyed id' entry' found').2.2⟩

theorem mem_liveEntries {id : Nat} {entry : ObjEntry} :
    ⟨id, entry⟩ ∈ store.liveEntries rt ↔ store.Live id entry := by
  rw [Store.liveEntries, List.mem_filter, (rt.objectOrder_perm store.mObjects).mem_iff,
    ← AList.mem_lookup_iff]
  simp [Store.Live]

def Store.fileObject (rt : Runtime) (store : Store) (entry : Σ _ : Nat, ObjEntry) : Object :=
  ((store.recordOf rt entry.2.unique).map Record.toObject).getD ⟨0, false, .object⟩

structure Mirrors (store : Store) (id : Nat) (body : Body) (obj : Object) : Prop where
  carried : obj.mInstanceId = id
  sameClass : obj.body.getClassIDVirtual = body.getClassIDVirtual
  noOwner : body = .component .null → obj.body = .component .null
  owner : ∀ ref, body = .component (.object ref) →
    obj.body = .component (.ofFileId (store.writtenId ref))
  components : ∀ mComponents, body = .gameObject mComponents → ∃ table,
    obj.body = .gameObject table ∧ ∀ key, table.lookup key = (mComponents.lookup key).map fun ptr =>
      .placeholder (((store.resolve ptr).map store.writtenId).getD 0)

theorem fileObject_mirrors (rt : Runtime) (sendable : store.Sendable) {id : Nat} {entry : ObjEntry} {body : Body}
    (live : store.Live id entry) (known : store.bodyAt entry.unique = some body) :
    Mirrors store id body (store.fileObject rt ⟨id, entry⟩) ∧
      ∃ record, store.recordOf rt entry.unique = some record ∧
        store.fileObject rt ⟨id, entry⟩ = record.toObject := by
  obtain ⟨body', here, known'⟩ := sendable.valid.object_of_live live
  obtain rfl := Option.some.inj (known.symm.trans known')
  cases body with
  | object => exact absurd known (sendable.classes id entry live)
  | component mGameObj =>
      rcases sendable.owners id entry mGameObj live known with rfl | ⟨id', entry', rfl, -⟩
      · have record : store.recordOf rt entry.unique = some (.component id none) := by
          rw [Store.recordOf, here]
        refine ⟨?_, _, record, by rw [Store.fileObject, record]; rfl⟩
        rw [Store.fileObject, record]
        refine ⟨rfl, rfl, fun _ => rfl, fun _ same => ?_, fun _ same => ?_⟩ <;> cases same
      · have record : store.recordOf rt entry.unique =
            some (.component id (some (store.writtenId entry'.unique))) := by
          rw [Store.recordOf, here]
        refine ⟨?_, _, record, by rw [Store.fileObject, record]; rfl⟩
        rw [Store.fileObject, record]
        refine ⟨rfl, rfl, fun same => ?_, ?_, fun _ same => ?_⟩
        · cases same
        · rintro ref same
          cases same
          rfl
        · cases same
  | gameObject mComponents =>
      have record : store.recordOf rt entry.unique = some (.gameObject id
          ((rt.componentOrder entry.unique mComponents).map fun slot =>
            (slot.1, ((store.resolve slot.2).map store.writtenId).getD 0))) := by
        rw [Store.recordOf, here]
      refine ⟨?_, _, record, by rw [Store.fileObject, record]; rfl⟩
      rw [Store.fileObject, record]
      refine ⟨rfl, rfl, fun same => ?_, fun _ same => ?_, ?_⟩
      · cases same
      · cases same
      rintro mComponents' same
      cases same
      refine ⟨_, rfl, fun key => ?_⟩
      -- the keys of `mComponents` are written once each, so no placeholder replaces another
      have distinct : (((rt.componentOrder entry.unique mComponents).map fun slot =>
          (slot.1, ((store.resolve slot.2).map store.writtenId).getD 0)).map Prod.fst).Nodup := by
        rw [List.map_map]
        exact componentOrder_keys_nodup rt entry.unique mComponents
      obtain ⟨inside, outside⟩ := placeholders_lookup ∅ distinct
      cases slot : mComponents.lookup key with
      | some ptr =>
          exact inside (key, ((store.resolve ptr).map store.writtenId).getD 0)
            (List.mem_map.mpr ⟨⟨key, ptr⟩, (mem_componentOrder rt _).mpr slot, rfl⟩)
      | none =>
          refine (outside key ?_).trans (AList.lookup_empty key)
          rw [List.map_map]
          intro member
          obtain ⟨⟨_, ptr⟩, there, rfl⟩ := List.mem_map.mp member
          rw [mem_componentOrder] at there
          exact absurd (there.symm.trans slot) (by simp)

theorem records_toObject (sendable : store.Sendable) :
    (store.records rt).map Record.toObject = (store.liveEntries rt).map (store.fileObject rt) := by
  rw [Store.records, List.map_filterMap]
  rw [← List.filterMap_eq_map]
  apply List.filterMap_congr
  rintro ⟨id, entry⟩ member
  have live := mem_liveEntries.mp member
  obtain ⟨body, -, known⟩ := sendable.valid.object_of_live live
  obtain ⟨-, record, same, shape⟩ := fileObject_mirrors rt sendable live known
  rw [same, Option.map_some, Function.comp_apply, shape]

theorem fileIds_eq (sendable : store.Sendable) :
    ((store.liveEntries rt).map (store.fileObject rt)).map Object.mInstanceId =
      (store.liveEntries rt).map Sigma.fst := by
  rw [List.map_map]
  apply List.map_congr_left
  rintro ⟨id, entry⟩ member
  have live := mem_liveEntries.mp member
  obtain ⟨body, -, known⟩ := sendable.valid.object_of_live live
  exact (fileObject_mirrors rt sendable live known).1.carried

theorem liveEntries_nodup (rt : Runtime) (store : Store) :
    ((store.liveEntries rt).map Sigma.fst).Nodup := by
  have all : ((rt.objectOrder store.mObjects).map Sigma.fst).Nodup :=
    ((rt.objectOrder_perm store.mObjects).map Sigma.fst).nodup_iff.mpr store.mObjects.nodupKeys
  exact all.sublist (List.filter_sublist.map Sigma.fst)

theorem mem_liveIds (rt : Runtime) {id : Nat} :
    id ∈ (store.liveEntries rt).map Sigma.fst ↔ id ∈ store.liveIds := by
  rw [List.mem_map]
  constructor
  · rintro ⟨⟨id, entry⟩, member, rfl⟩
    exact ⟨entry, mem_liveEntries.mp member⟩
  · rintro ⟨entry, live⟩
    exact ⟨⟨id, entry⟩, mem_liveEntries.mpr live, rfl⟩

def Store.liveId (rt : Runtime) (store : Store) (i : Nat) : Nat :=
  (((store.liveEntries rt).map Sigma.fst)[i]?).getD 0

theorem lastIndex_live (rt : Runtime) {id : Nat} (live : id ∈ store.liveIds) :
    ∃ i, lastIndex id ((store.liveEntries rt).map Sigma.fst) = some i ∧ store.liveId rt i = id := by
  obtain ⟨i, found⟩ := Option.isSome_iff_exists.mp
    (lastIndex_isSome_iff.mpr ((mem_liveIds rt).mpr live))
  exact ⟨i, found, by rw [Store.liveId, lastIndex_get found]; rfl⟩

theorem fileKey_ofFileId (id : Nat) : (GameObjectPtr.ofFileId id).fileKey = id := by
  unfold GameObjectPtr.ofFileId
  split
  · rename_i zero
    exact zero.symm
  · rfl

theorem writtenId_of_idAt {ref : ObjectRef} {id : Nat} (carried : store.idAt ref = some id) :
    store.writtenId ref = id := by
  rw [Store.writtenId, carried]
  rfl

theorem writtenId_of_found (sendable : store.Sendable) {id : Nat} {entry : ObjEntry}
    (found : store.mObjects.lookup id = some entry) : store.writtenId entry.unique = id :=
  writtenId_of_idAt (sendable.valid.keyed id entry found).2.2

theorem port_written (sendable : store.Sendable) (owners : store.OwnersLive)
    (components : store.ComponentsLive) {id : Nat}
    {entry : ObjEntry} {body : Body} (live : store.Live id entry)
    (known : store.bodyAt entry.unique = some body) (key : Option Int) :
    store.port body key =
      (filePort ((store.liveEntries rt).map Sigma.fst) (store.fileObject rt ⟨id, entry⟩).body
        key).map (Option.map (store.liveId rt)) := by
  have mirrors := (fileObject_mirrors rt sendable live known).1
  cases body with
  | object => exact absurd known (sendable.classes id entry live)
  | component mGameObj =>
      obtain ⟨id', entry', rfl, live'⟩ := owners id entry mGameObj live known
      have carried := (sendable.valid.keyed id' entry' live'.1).2.2
      obtain ⟨i, last, same⟩ := lastIndex_live rt ⟨entry', live'⟩
      rw [mirrors.owner _ rfl, writtenId_of_idAt carried]
      cases key with
      | some key => rfl
      | none => simp [port, filePort, fileKey_ofFileId, last, carried, same]
  | gameObject mComponents =>
      obtain ⟨table, shape, lookups⟩ := mirrors.components mComponents rfl
      rw [shape]
      cases key with
      | none => rfl
      | some key =>
          cases slot : mComponents.lookup key with
          | none => simp [port, filePort, lookups, slot]
          | some ptr =>
              obtain ⟨-, id', entry', found', points⟩ :=
                sendable.slots id entry mComponents key ptr live known slot
              have carried := (sendable.valid.keyed id' entry' found').2.2
              have live' : store.Live id' entry' :=
                ⟨found', components id entry mComponents key ptr _ live known slot points⟩
              obtain ⟨i, last, same⟩ := lastIndex_live rt ⟨entry', live'⟩
              simp [port, filePort, lookups, slot, points, writtenId_of_idAt carried, last, carried,
                same]

theorem bodyOf_live {id : Nat} {entry : ObjEntry} {body : Body} (live : store.Live id entry)
    (known : store.bodyAt entry.unique = some body) : store.bodyOf id = some body := by
  rw [bodyOf, live.1, Option.bind_some, known]

theorem written_iso (rt : Runtime) (sendable : store.Sendable) (owners : store.OwnersLive)
    (components : store.ComponentsLive) :
    (fileGraph ((store.liveEntries rt).map (store.fileObject rt))).IsIso
      (store.graph store.liveIds) (store.liveId rt) := by
  have entryAt {i : Nat} (inside : i < ((store.liveEntries rt).map (store.fileObject rt)).length) :
      ∃ id entry, (store.liveEntries rt)[i]? = some ⟨id, entry⟩ ∧ store.Live id entry ∧
        store.liveId rt i = id := by
    rw [List.length_map] at inside
    have here := List.getElem?_eq_getElem inside
    refine ⟨_, _, here, mem_liveEntries.mp (List.mem_of_getElem? here), ?_⟩
    rw [Store.liveId, List.getElem?_map, here]
    rfl
  refine ⟨⟨?_, ?_, ?_⟩, ?_, ?_⟩
  · intro i inside
    obtain ⟨id, entry, -, live, same⟩ := entryAt inside
    exact same ▸ ⟨entry, live⟩
  · intro i inside j inside' same
    obtain ⟨id, entry, here, -, left⟩ := entryAt inside
    obtain ⟨id', entry', here', -, right⟩ := entryAt inside'
    have bound : i < ((store.liveEntries rt).map Sigma.fst).length := by
      rw [List.length_map]
      exact (List.getElem?_eq_some_iff.mp here).1
    apply (List.getElem?_inj bound (liveEntries_nodup rt store)).mp
    rw [List.getElem?_map, List.getElem?_map, here, here', Option.map_some, Option.map_some]
    exact congrArg some ((left.symm.trans same).trans right)
  · intro id live
    obtain ⟨i, last, same⟩ := lastIndex_live rt live
    refine ⟨i, ?_, same⟩
    have bound := lastIndex_lt last
    rw [List.length_map] at bound
    show i < ((store.liveEntries rt).map (store.fileObject rt)).length
    rw [List.length_map]
    exact bound
  · intro i inside
    obtain ⟨id, entry, here, live, same⟩ := entryAt inside
    obtain ⟨body, -, known⟩ := sendable.valid.object_of_live live
    simp only [graph, fileGraph, same, bodyOf_live live known, List.getElem?_map, here,
      Option.map_some, (fileObject_mirrors rt sendable live known).1.sameClass]
  · intro i inside key
    obtain ⟨id, entry, here, live, same⟩ := entryAt inside
    obtain ⟨body, -, known⟩ := sendable.valid.object_of_live live
    simp only [graph, fileGraph, same, bodyOf_live live known, List.getElem?_map, here,
      Option.map_some, Option.bind_some, fileIds_eq sendable]
    exact port_written sendable owners components live known key

theorem resolvable_written (rt : Runtime) (sendable : store.Sendable) (owners : store.OwnersLive)
    (components : store.ComponentsLive) :
    ∀ obj ∈ (store.liveEntries rt).map (store.fileObject rt),
      obj.body.Resolvable (((store.liveEntries rt).map (store.fileObject rt)).map
        Object.mInstanceId) := by
  rw [fileIds_eq sendable]
  intro obj member
  obtain ⟨⟨id, entry⟩, inside, rfl⟩ := List.mem_map.mp member
  have live := mem_liveEntries.mp inside
  obtain ⟨body, -, known⟩ := sendable.valid.object_of_live live
  have mirrors := (fileObject_mirrors rt sendable live known).1
  cases body with
  | object => exact absurd known (sendable.classes id entry live)
  | component mGameObj =>
      obtain ⟨id', entry', rfl, live'⟩ := owners id entry mGameObj live known
      rw [mirrors.owner _ rfl, writtenId_of_found sendable live'.1]
      show (GameObjectPtr.ofFileId id').fileKey ∈ _
      rw [fileKey_ofFileId, mem_liveIds]
      exact ⟨entry', live'⟩
  | gameObject mComponents =>
      obtain ⟨table, shape, lookups⟩ := mirrors.components mComponents rfl
      rw [shape]
      intro key m_link_key found
      rw [lookups, Option.map_eq_some_iff] at found
      obtain ⟨ptr, slot, same⟩ := found
      obtain ⟨-, id', entry', found', points⟩ :=
        sendable.slots id entry mComponents key ptr live known slot
      obtain rfl : id' = m_link_key := by
        simpa [points, writtenId_of_found sendable found'] using same
      rw [mem_liveIds]
      exact ⟨entry', found', components id entry mComponents key ptr _ live known slot points⟩

theorem componentsLive_of_resolvable (rt : Runtime) (sendable : store.Sendable)
    (resolvable : ∀ obj ∈ (store.liveEntries rt).map (store.fileObject rt),
      obj.body.Resolvable (((store.liveEntries rt).map (store.fileObject rt)).map
        Object.mInstanceId)) : store.ComponentsLive := by
  rw [fileIds_eq sendable] at resolvable
  intro id entry mComponents key ptr ref live known slot points
  have mirrors := (fileObject_mirrors rt sendable live known).1
  obtain ⟨table, shape, lookups⟩ := mirrors.components mComponents rfl
  obtain ⟨-, id', entry', found', points'⟩ :=
    sendable.slots id entry mComponents key ptr live known slot
  obtain rfl : entry'.unique = ref := Option.some.inj (points'.symm.trans points)
  have named := resolvable _ (List.mem_map.mpr ⟨_, mem_liveEntries.mpr live, rfl⟩)
  rw [shape] at named
  have member := named key id' (by
    rw [lookups, slot, Option.map_some, points, Option.map_some, Option.getD_some,
      writtenId_of_found sendable found'])
  obtain ⟨entry'', live''⟩ := (mem_liveIds rt).mp member
  obtain rfl := Option.some.inj (found'.symm.trans live''.1)
  exact live''.2

theorem ownersLive_of_resolvable (rt : Runtime) (sendable : store.Sendable)
    (resolvable : ∀ obj ∈ (store.liveEntries rt).map (store.fileObject rt),
      obj.body.Resolvable (((store.liveEntries rt).map (store.fileObject rt)).map
        Object.mInstanceId)) : store.OwnersLive := by
  rw [fileIds_eq sendable] at resolvable
  intro id entry mGameObj live known
  have mirrors := (fileObject_mirrors rt sendable live known).1
  have named := resolvable _ (List.mem_map.mpr ⟨_, mem_liveEntries.mpr live, rfl⟩)
  rcases sendable.owners id entry mGameObj live known with rfl | ⟨id', entry', rfl, found'⟩
  · rw [mirrors.noOwner rfl] at named
    obtain ⟨entry₀, live₀⟩ := (mem_liveIds rt).mp named
    exact absurd (sendable.valid.keyed 0 entry₀ live₀.1).1 (lt_irrefl 0)
  · rw [mirrors.owner _ rfl, writtenId_of_found sendable found'] at named
    have member : (GameObjectPtr.ofFileId id').fileKey ∈
        (store.liveEntries rt).map Sigma.fst := named
    rw [fileKey_ofFileId] at member
    obtain ⟨entry'', live''⟩ := (mem_liveIds rt).mp member
    obtain rfl := Option.some.inj (found'.symm.trans live''.1)
    exact ⟨id', entry', rfl, live''⟩

theorem record_fits (sendable : store.Sendable) {id : Nat} {entry : ObjEntry} {record : Record}
    (live : store.Live id entry) (same : store.recordOf rt entry.unique = some record)
    (small : record.encode.length < 2 ^ 31) : record.Fits := by
  have idFits {id : Nat} {entry : ObjEntry} (found : store.mObjects.lookup id = some entry) :
      id < 2 ^ 32 := (sendable.valid.keyed id entry found).2.1.trans sendable.valid.narrow
  obtain ⟨body, here, known⟩ := sendable.valid.object_of_live live
  cases body with
  | object => exact absurd known (sendable.classes id entry live)
  | component mGameObj =>
      rcases sendable.owners id entry mGameObj live known with rfl | ⟨id', entry', rfl, found'⟩
      · rw [Store.recordOf, here] at same
        cases same
        refine ⟨idFits live.1, fun _ written => ?_⟩
        cases written
      · rw [Store.recordOf, here] at same
        cases same
        refine ⟨idFits live.1, ?_⟩
        rintro value written
        cases written
        rw [writtenId_of_found sendable found']
        exact idFits found'
  | gameObject mComponents =>
      rw [Store.recordOf, here] at same
      cases same
      refine ⟨idFits live.1, ?_, ?_⟩
      · simp only [Record.encode, Record.payload, List.length_append, signedWord_length, word_length,
          components_length] at small
        omega
      · intro slot member
        obtain ⟨⟨key, ptr⟩, inside, rfl⟩ := List.mem_map.mp member
        obtain ⟨fits, id', entry', found', points⟩ :=
          sendable.slots id entry mComponents key ptr live known ((mem_componentOrder rt _).mp inside)
        refine ⟨fits, ?_⟩
        simp only [points, Option.map_some, Option.getD_some]
        rw [writtenId_of_found sendable found']
        exact idFits found'

theorem records_fit (sendable : store.Sendable)
    (small : ((store.records rt).flatMap Record.encode).length < 2 ^ 31) :
    ∀ record ∈ store.records rt, record.Fits := by
  intro record member
  obtain ⟨⟨id, entry⟩, inside, same⟩ := List.mem_filterMap.mp member
  exact record_fits sendable (mem_liveEntries.mp inside) same
    ((encode_length_le member).trans_lt small)

end Records

theorem written_decodes {rt : Runtime} {store : Store} (sendable : store.Sendable)
    (small : ((store.records rt).flatMap Record.encode).length < 2 ^ 31)
    {stream : InputMemoryStream}
    (carries : Carries stream ((store.records rt).flatMap Record.encode)) :
    ∃ last, Decodes stream ((store.liveEntries rt).map (store.fileObject rt)) last ∧
      last.head = last.capacity ∧ last.getRemainingDataSize ≤ 0 ∧
      1 + ((store.liveEntries rt).map (store.fileObject rt)).length < 2 ^ 32 := by
  have capacity : stream.capacity < 2 ^ 31 := by
    rw [carries.capacity]
    exact small
  have decoded := decodes_records (records_fit sendable small) capacity
    (carries.holds (by omega))
  rw [records_toObject sendable] at decoded
  have full : (advance stream ((store.records rt).flatMap Record.encode).length).head =
      (advance stream ((store.records rt).flatMap Record.encode).length).capacity := by
    simp only [advance, carries.head, carries.capacity, Nat.zero_add]
  refine ⟨_, decoded, full, ?_, ?_⟩
  · rw [remaining_of_le full.le capacity, full]
    omega
  · rw [← records_toObject sendable, List.length_map]
    have count := records_length_le (store.records rt)
    omega

/-- Writing the store and reading the bytes back builds the same graph. -/
def RoundTrips (rt rt' : Runtime) (objects : List HandleRef) (store : Store) : Prop :=
  ∃ out, serialize rt store {} = .ok out ∧ ∀ stream, Carries stream out.buffer →
    ∃ after, Deserializes rt' {} objects stream (.ok ()) after ∧
      after.stream.head = after.stream.capacity ∧
      ∃ f, (store.graph store.liveIds).IsIso (after.store.graph after.store.ids) f

section Main

variable {rt rt' : Runtime} {objects : List HandleRef} {store : Store}

/-- What `serialize` writes is accepted exactly when the references it writes name objects that it
writes too. -/
theorem written_accepted_iff (rt' : Runtime) (objects : List HandleRef) (sendable : store.Sendable)
    (small : ((store.records rt).flatMap Record.encode).length < 2 ^ 31)
    {stream : InputMemoryStream}
    (carries : Carries stream ((store.records rt).flatMap Record.encode)) :
    (∃ after, Deserializes rt' {} objects stream (.ok ()) after) ↔
      store.OwnersLive ∧ store.ComponentsLive := by
  obtain ⟨last, decoded, -, done, room⟩ := written_decodes sendable small carries
  rw [accepted_iff_resolvable empty_sound.toValid empty_nothingToLink objects decoded done room]
  constructor
  · intro resolvable
    exact ⟨ownersLive_of_resolvable rt sendable resolvable,
      componentsLive_of_resolvable rt sendable resolvable⟩
  · rintro ⟨owners, components⟩
    exact resolvable_written rt sendable owners components

theorem componentsLive_of_roundTrips (closed : store.Closed)
    (small : ∀ out, serialize rt store {} = .ok out → out.buffer.length < 2 ^ 31)
    (roundTrips : RoundTrips rt rt' objects store) : store.ComponentsLive := by
  have written := serialize_eq rt closed.valid closed.sendable.allWritable
  obtain ⟨out, written', reads⟩ := roundTrips
  obtain rfl := Except.ok.inj (written.symm.trans written')
  obtain ⟨after, accepted, -⟩ := reads _ (streamOf_carries _)
  exact ((written_accepted_iff rt' objects closed.sendable (small _ written)
    (streamOf_carries _)).mp ⟨after, accepted⟩).2

theorem roundTrips_of_componentsLive (closed : store.Closed)
    (small : ∀ out, serialize rt store {} = .ok out → out.buffer.length < 2 ^ 31)
    (components : store.ComponentsLive) : RoundTrips rt rt' objects store := by
  have sendable := closed.sendable
  have written := serialize_eq rt closed.valid sendable.allWritable
  refine ⟨_, written, fun stream carries => ?_⟩
  obtain ⟨last, decoded, full, done, room⟩ := written_decodes sendable (small _ written) carries
  have load := Load.of_decodes empty_sound.toValid objects decoded room
  obtain ⟨linked, finishes⟩ := load.finishes_of_resolvable rt'
    ((nothingToLink_start {} objects stream).mpr empty_nothingToLink)
    (resolvable_written rt sendable closed.ownersLive components)
  refine ⟨_, deserializes_ok_iff.mpr ⟨_, last, linked, decoded, done, finishes, rfl⟩, full, ?_⟩
  have toFile :=
    (written_iso rt sendable closed.ownersLive components).symm (fileGraph_closed _)
  have fromFile := load.graph_iso finishes
  rw [load.newIds_of_empty finishes (start_frame {} objects stream).mObjects] at fromFile
  exact ⟨_, toFile.trans fromFile⟩

theorem roundTrips_iff (closed : store.Closed)
    (small : ∀ out, serialize rt store {} = .ok out → out.buffer.length < 2 ^ 31) :
    RoundTrips rt rt' objects store ↔ store.ComponentsLive :=
  ⟨componentsLive_of_roundTrips closed small, roundTrips_of_componentsLive closed small⟩

end Main

theorem adopted_entry {id : Nat} {entry : ObjEntry}
    (found : adopted.mObjects.lookup id = some entry) :
    (id = 1 ∧ entry = ⟨0, 0⟩) ∨ (id = 2 ∧ entry = ⟨1, 1⟩) := by
  by_cases second : id = 2
  · subst second
    cases found
    exact .inr ⟨rfl, rfl⟩
  · by_cases first : id = 1
    · subst first
      cases found
      exact .inl ⟨rfl, rfl⟩
    · have absent : adopted.mObjects.lookup id = none :=
        (AList.lookup_insert_ne second).trans (AList.lookup_insert_ne first)
      rw [absent] at found
      cases found

def adoptedComponents : ComponentMap := (∅ : ComponentMap).insert classComponent (.shared 1)

theorem adopted_bodies : adopted.bodyAt 0 = some (.gameObject adoptedComponents) ∧
    adopted.bodyAt 1 = some (.component (.object 0)) := ⟨rfl, rfl⟩

theorem adopted_slot {key : Int} {ptr : PObjHandle}
    (slot : adoptedComponents.lookup key = some ptr) : key = classComponent ∧ ptr = .shared 1 := by
  rcases lookup_insert_cases slot with new | ⟨-, before⟩
  · exact new
  · cases before

theorem marked_closed (marked : Option ObjectRef) (ownerLives : marked ≠ some 0) :
    (adopted.deleteTarget marked).Closed := by
  have table : (adopted.deleteTarget marked).mObjects = adopted.mObjects := by
    rw [deleteTarget_eq]
  have cells : (adopted.deleteTarget marked).handles = adopted.handles := by rw [deleteTarget_eq]
  refine ⟨adopted_reached.sound.toValid.deleteTarget marked, ?_, ?_, ?_⟩
  · rintro id entry ⟨found, -⟩
    rw [deleteTarget_bodyAt]
    rcases adopted_entry (table ▸ found) with ⟨-, rfl⟩ | ⟨-, rfl⟩
    · rw [adopted_bodies.1]
      simp
    · rw [adopted_bodies.2]
      simp
  · rintro id entry mGameObj ⟨found, -⟩ known
    rw [deleteTarget_bodyAt] at known
    rcases adopted_entry (table ▸ found) with ⟨-, rfl⟩ | ⟨-, rfl⟩
    · rw [adopted_bodies.1] at known
      cases known
    · rw [adopted_bodies.2] at known
      cases known
      refine ⟨1, ⟨0, 0⟩, adoptedComponents, rfl, ⟨by rw [table]; rfl, ?_⟩, ?_⟩
      · rw [isDeleted_deleteTarget _ _ ownerLives]
        rfl
      · rw [deleteTarget_bodyAt]
        rfl
  · rintro id entry mComponents key ptr ⟨found, -⟩ known slot
    rw [deleteTarget_bodyAt] at known
    rcases adopted_entry (table ▸ found) with ⟨-, rfl⟩ | ⟨-, rfl⟩
    · rw [adopted_bodies.1] at known
      cases known
      obtain ⟨rfl, rfl⟩ := adopted_slot slot
      refine ⟨by simp [Record.FitsInt32, classComponent], 2, ⟨1, 1⟩, by rw [table]; rfl, ?_⟩
      rw [resolve, cells]
      rfl
    · rw [adopted_bodies.2] at known
      cases known

theorem adopted_roundTrips : RoundTrips plainRuntime plainRuntime [] adopted := by
  refine (roundTrips_iff (marked_closed none (by simp)) ?_).mpr ?_
  · rintro out ⟨⟩
    decide
  · rintro id entry mComponents key ptr ref ⟨found, -⟩ known slot points
    rcases adopted_entry found with ⟨-, rfl⟩ | ⟨-, rfl⟩
    · cases known
      obtain ⟨-, rfl⟩ := adopted_slot slot
      cases points
      rfl
    · cases known

def adoptedMarked : Store := adopted.deleteTarget (some 1)

theorem adoptedMarked_not_roundTrips : adoptedMarked.Closed ∧
    ¬ RoundTrips plainRuntime plainRuntime [] adoptedMarked := by
  have closed : adoptedMarked.Closed := marked_closed (some 1) (by simp)
  refine ⟨closed, fun roundTrips => ?_⟩
  have components := componentsLive_of_roundTrips closed (by rintro out ⟨⟩; decide) roundTrips
  have live := components 1 ⟨0, 0⟩ adoptedComponents classComponent (.shared 1) 1 ⟨rfl, rfl⟩ rfl
    (AList.lookup_insert _) rfl
  cases live

end PackagedTask.Objects
