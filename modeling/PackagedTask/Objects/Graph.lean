import PackagedTask.Library.PortGraph
import PackagedTask.Objects.Linking

namespace PackagedTask.Objects
open Streams Library Store

/-! Objects as a graph: the components of a `GameObject` leave through their keys (`some key`), the
owner of a `Component` through `none`. -/

namespace Store

def resolve (store : Store) : PObjHandle → Option ObjectRef
  | .shared handle => (store.handles.lookup handle).bind ObjHandle.m_ptr
  | _ => none

def port (store : Store) : Body → Option Int → Option (Option Nat)
  | .component (.object ref), none => some (store.idAt ref)
  | .component _, none => some none
  | .gameObject mComponents, some key =>
      (mComponents.lookup key).map fun ptr => (store.resolve ptr).bind store.idAt
  | _, _ => none

def bodyOf (store : Store) (id : Nat) : Option Body :=
  (store.mObjects.lookup id).bind fun entry => store.bodyAt entry.unique

def graph (store : Store) (ids : Set Nat) : PortGraph Nat (Option Int) (Option Int) where
  nodes := ids
  label := fun id => (store.bodyOf id).map Body.getClassIDVirtual
  port := fun id key => (store.bodyOf id).bind fun body => store.port body key

def ids (store : Store) : Set Nat := {id | (store.mObjects.lookup id).isSome}

theorem resolve_eq_some_iff {store : Store} {ptr : PObjHandle} {ref : ObjectRef} :
    store.resolve ptr = some ref ↔ ∃ handle m_link_key, ptr = .shared handle ∧
      store.handles.lookup handle = some ⟨some ref, m_link_key⟩ := by
  constructor
  · intro points
    cases ptr with
    | null => cases points
    | placeholder m_link_key => cases points
    | shared handle =>
        obtain ⟨⟨m_ptr, m_link_key⟩, found, rfl⟩ := Option.bind_eq_some_iff.mp points
        exact ⟨handle, m_link_key, rfl, found⟩
  · rintro ⟨handle, m_link_key, rfl, found⟩
    rw [resolve, found]
    rfl

end Store

def GameObjectPtr.fileKey : GameObjectPtr → Nat
  | .fileId id => id
  | _ => 0

theorem low32_ofFileId (rt : Runtime) (id : Nat) :
    rt.low32 (.ofFileId id) = (GameObjectPtr.ofFileId id).fileKey := by
  unfold GameObjectPtr.ofFileId
  split <;> rfl

/-- The record that a port leads to, when ids mean the last record that carries them. -/
def filePort (fileIds : List Nat) : Body → Option Int → Option (Option Nat)
  | .component mGameObj, none => some (lastIndex mGameObj.fileKey fileIds)
  | .gameObject mComponents, some key => (mComponents.lookup key).map fun ptr =>
      match ptr with
      | .placeholder m_link_key => lastIndex m_link_key fileIds
      | _ => none
  | _, _ => none

def fileGraph (objs : List Object) : PortGraph Nat (Option Int) (Option Int) where
  nodes := {i | i < objs.length}
  label := fun i => (objs[i]?).map fun obj => obj.body.getClassIDVirtual
  port := fun i key => (objs[i]?).bind fun obj =>
    filePort (objs.map Object.mInstanceId) obj.body key

theorem fileGraph_closed (objs : List Object) : (fileGraph objs).Closed := by
  intro i inside key j edge
  obtain ⟨obj, here, edge⟩ := Option.bind_eq_some_iff.mp edge
  have last (id : Nat) (found : lastIndex id (objs.map Object.mInstanceId) = some j) :
      j < objs.length := by
    rw [← List.length_map Object.mInstanceId]
    exact lastIndex_lt found
  unfold filePort at edge
  split at edge
  · exact last _ (Option.some.inj edge)
  · obtain ⟨ptr, -, found⟩ := Option.map_eq_some_iff.mp edge
    split at found
    · exact last _ found
    · cases found
  · cases edge

def Body.Resolvable (fileIds : List Nat) : Body → Prop
  | .object => True
  | .component mGameObj => mGameObj.fileKey ∈ fileIds
  | .gameObject mComponents => ∀ key m_link_key,
      mComponents.lookup key = some (.placeholder m_link_key) → m_link_key ∈ fileIds

def Body.Inert : Body → Prop
  | .object => True
  | .component _ => False
  | .gameObject mComponents => mComponents = ∅

structure Load (loader : Loader) (objs : List Object) (after : Loader) : Prop where
  registered : Registered loader objs after
  valid : loader.store.Valid
  narrow : loader.store.mNextAvailableID + objs.length < 2 ^ 32
  unlinked : ∀ obj ∈ objs, obj.body.Unlinked
  blank : loader.istance_id_remap = ∅

namespace Load

variable {loader after : Loader} {objs : List Object} {rt : Runtime} {linked : Store}

theorem remap (load : Load loader objs after) (key : Nat) :
    after.istance_id_remap.lookup key =
      (lastIndex key (objs.map Object.mInstanceId)).map (loader.store.mNextAvailableID + ·) := by
  rw [load.registered.remap, load.blank]
  cases lastIndex key (objs.map Object.mInstanceId) <;> simp

theorem lastIndex_lt (_ : Load loader objs after) {key i : Nat}
    (found : lastIndex key (objs.map Object.mInstanceId) = some i) : i < objs.length := by
  rw [← List.length_map Object.mInstanceId]
  exact Library.lastIndex_lt found

theorem target_eq (load : Load loader objs after) (key : Nat) :
    target after.istance_id_remap after.store.mObjects key =
      (lastIndex key (objs.map Object.mInstanceId)).map fun i =>
        ⟨loader.store.nextObject + i, loader.store.nextHandle + i⟩ := by
  rw [target, load.remap]
  cases found : lastIndex key (objs.map Object.mInstanceId) with
  | none => rfl
  | some i =>
      rw [Option.map_some, Option.bind_some, Option.map_some]
      exact load.registered.entry_new (load.lastIndex_lt found)

theorem resolving (load : Load loader objs after) :
    Resolving after.istance_id_remap after.store := by
  intro key id found
  rw [load.remap, Option.map_eq_some_iff] at found
  obtain ⟨i, found, rfl⟩ := found
  have inside := load.lastIndex_lt found
  refine ⟨_, load.registered.entry_new inside, ?_, ?_⟩
  · rw [load.registered.held]
    exact .inr ⟨by lia, by lia⟩
  · rw [load.registered.handle_new inside]
    rfl

theorem after_valid (load : Load loader objs after) : after.store.Valid :=
  load.registered.valid load.valid load.narrow load.unlinked

theorem mem_uniques (rt : Runtime) (store : Store) {ref : ObjectRef} :
    ref ∈ uniques (rt.objectOrder store.mObjects) ↔
      ∃ id entry, store.mObjects.lookup id = some entry ∧ entry.unique = ref := by
  unfold uniques
  rw [((rt.objectOrder_perm store.mObjects).map _).mem_iff, List.mem_map]
  constructor
  · rintro ⟨⟨id, entry⟩, member, rfl⟩
    exact ⟨id, entry, AList.mem_lookup_iff.mpr member, rfl⟩
  · rintro ⟨id, entry, found, rfl⟩
    exact ⟨⟨id, entry⟩, AList.mem_lookup_iff.mp found, rfl⟩

theorem uniques_nodup (rt : Runtime) {store : Store} (valid : store.Valid) :
    (uniques (rt.objectOrder store.mObjects)).Nodup := by
  unfold uniques
  rw [((rt.objectOrder_perm store.mObjects).map _).nodup_iff]
  have keys : (store.mObjects.entries.map Sigma.fst).Nodup := store.mObjects.nodupKeys
  apply List.Nodup.map_on _ keys.of_map
  rintro ⟨id, entry⟩ member ⟨id', entry'⟩ member' same
  have found := AList.mem_lookup_iff.mpr member
  have found' := AList.mem_lookup_iff.mpr member'
  obtain rfl := valid.unique_injective found found' same
  obtain rfl := Option.some.inj (found.symm.trans found')
  rfl

theorem uniques_present (rt : Runtime) {store : Store} (valid : store.Valid) :
    ∀ ref ∈ uniques (rt.objectOrder store.mObjects), ∃ body, store.bodyAt ref = some body := by
  intro ref member
  obtain ⟨id, entry, found, rfl⟩ := (mem_uniques rt store).mp member
  obtain ⟨object, present, -⟩ := Option.map_eq_some_iff.mp (valid.keyed id entry found).2.2
  exact ⟨object.body, by rw [Store.bodyAt, present]; rfl⟩

def Finishes (rt : Runtime) (after : Loader) (linked : Store) : Prop :=
  linkAll rt after.istance_id_remap (rt.objectOrder after.store.mObjects) after.store =
    .ok () linked

theorem relinked (load : Load loader objs after) (finishes : Finishes rt after linked) :
    ∃ touched, Relinked touched after.store linked :=
  ⟨_, (linkAll_ok load.resolving (uniques_present rt load.after_valid)
    (uniques_nodup rt load.after_valid) finishes).1⟩

theorem body_links (load : Load loader objs after) (finishes : Finishes rt after linked) {id : Nat}
    {entry : ObjEntry} {body : Body} (found : after.store.mObjects.lookup id = some entry)
    (here : after.store.bodyAt entry.unique = some body) :
    ∃ body', linked.bodyAt entry.unique = some body' ∧
      BodyLinks rt after.istance_id_remap after.store.mObjects body body' :=
  (linkAll_ok load.resolving (uniques_present rt load.after_valid)
    (uniques_nodup rt load.after_valid) finishes).2 entry.unique
      ((mem_uniques rt after.store).mpr ⟨id, entry, found, rfl⟩) body here

theorem new_body_links (load : Load loader objs after) (finishes : Finishes rt after linked)
    {i : Nat} {obj : Object} (here : objs[i]? = some obj) :
    ∃ body', linked.bodyAt (loader.store.nextObject + i) = some body' ∧
      BodyLinks rt after.istance_id_remap after.store.mObjects obj.body body' := by
  have inside := (List.getElem?_eq_some_iff.mp here).1
  apply load.body_links finishes (load.registered.entry_new inside)
  rw [load.registered.bodyAt_new, here]
  rfl

theorem idAt_linked (load : Load loader objs after) (finishes : Finishes rt after linked) {i : Nat}
    (inside : i < objs.length) :
    linked.idAt (loader.store.nextObject + i) = some (loader.store.mNextAvailableID + i) := by
  obtain ⟨touched, frame⟩ := load.relinked finishes
  rw [frame.idAt]
  exact load.registered.idAt_new inside

theorem resolve_linked (load : Load loader objs after) (finishes : Finishes rt after linked)
    {i : Nat} (inside : i < objs.length) :
    linked.resolve (.shared (loader.store.nextHandle + i)) =
      some (loader.store.nextObject + i) := by
  obtain ⟨touched, frame⟩ := load.relinked finishes
  have held : loader.store.nextHandle + i ∈ linked.held := by
    rw [frame.sameHeld, load.registered.held]
    exact .inr ⟨by lia, by lia⟩
  rw [resolve, frame.kept _ held, load.registered.handle_new inside]
  rfl

theorem target_some (load : Load loader objs after) {key : Nat} {entry : ObjEntry}
    (found : target after.istance_id_remap after.store.mObjects key = some entry) :
    ∃ i < objs.length, lastIndex key (objs.map Object.mInstanceId) = some i ∧
      entry = ⟨loader.store.nextObject + i, loader.store.nextHandle + i⟩ := by
  rw [load.target_eq, Option.map_eq_some_iff] at found
  obtain ⟨i, last, same⟩ := found
  exact ⟨i, load.lastIndex_lt last, last, same.symm⟩

theorem port_linked (load : Load loader objs after) (finishes : Finishes rt after linked)
    {body body' : Body} (unlinked : body.Unlinked)
    (links : BodyLinks rt after.istance_id_remap after.store.mObjects body body')
    (key : Option Int) :
    linked.port body' key = (filePort (objs.map Object.mInstanceId) body key).map
      (Option.map (loader.store.mNextAvailableID + ·)) := by
  cases body with
  | object =>
      obtain rfl : body' = .object := links
      rfl
  | component mGameObj =>
      obtain ⟨id, rfl⟩ := unlinked
      obtain ⟨entry, aimed, rfl⟩ := links
      rw [low32_ofFileId] at aimed
      obtain ⟨i, inside, last, rfl⟩ := load.target_some aimed
      cases key with
      | none => simp [port, filePort, last, load.idAt_linked finishes inside]
      | some key => rfl
  | gameObject mComponents =>
      obtain ⟨linkedComponents, rfl, slots, absent⟩ := links
      cases key with
      | none => rfl
      | some key =>
          cases present : mComponents.lookup key with
          | none => simp [port, filePort, present, absent key present]
          | some ptr =>
              obtain ⟨c_inst, entry, fileKey, aimed, final⟩ := slots key ptr present
              obtain ⟨m_link_key, rfl⟩ := unlinked key ptr present
              obtain rfl := fileKey m_link_key rfl
              obtain ⟨i, inside, last, rfl⟩ := load.target_some aimed
              simp [port, filePort, present, final, last, load.resolve_linked finishes inside,
                load.idAt_linked finishes inside]

theorem class_linked {body body' : Body} {id_remap : IdRemap} {mObjects : ObjectMap}
    (links : BodyLinks rt id_remap mObjects body body') :
    body'.getClassIDVirtual = body.getClassIDVirtual := by
  cases body with
  | object =>
      obtain rfl : body' = .object := links
      rfl
  | component mGameObj =>
      obtain ⟨entry, -, rfl⟩ := links
      rfl
  | gameObject mComponents =>
      obtain ⟨linkedComponents, rfl, -⟩ := links
      rfl

def newIds (loader : Loader) (objs : List Object) : Set Nat :=
  {id | loader.store.mNextAvailableID ≤ id ∧ id < loader.store.mNextAvailableID + objs.length}

theorem bodyOf_new (load : Load loader objs after) (finishes : Finishes rt after linked) {i : Nat}
    {obj : Object} (here : objs[i]? = some obj) :
    ∃ body', linked.bodyOf (loader.store.mNextAvailableID + i) = some body' ∧
      BodyLinks rt after.istance_id_remap after.store.mObjects obj.body body' := by
  obtain ⟨touched, frame⟩ := load.relinked finishes
  obtain ⟨body', there, links⟩ := load.new_body_links finishes here
  refine ⟨body', ?_, links⟩
  rw [bodyOf, frame.mObjects, load.registered.entry_new (List.getElem?_eq_some_iff.mp here).1]
  exact there

theorem graph_iso (load : Load loader objs after) (finishes : Finishes rt after linked) :
    (fileGraph objs).IsIso (linked.graph (newIds loader objs))
      (loader.store.mNextAvailableID + ·) where
  bijective := by
    refine ⟨?_, ?_, ?_⟩
    · intro i inside
      have bound : i < objs.length := inside
      exact ⟨by simp, by simpa using bound⟩
    · intro i _ j _ same
      exact Nat.add_left_cancel same
    · rintro id ⟨low, high⟩
      refine ⟨id - loader.store.mNextAvailableID, ?_, ?_⟩
      · show id - loader.store.mNextAvailableID < objs.length
        omega
      · simp only
        omega
  label := by
    intro i inside
    have here := List.getElem?_eq_getElem (l := objs) inside
    obtain ⟨body', there, links⟩ := load.bodyOf_new finishes here
    simp only [graph, fileGraph, there, here, Option.map_some, class_linked links]
  port := by
    intro i inside key
    have here := List.getElem?_eq_getElem (l := objs) inside
    obtain ⟨body', there, links⟩ := load.bodyOf_new finishes here
    simp only [graph, fileGraph, there, here, Option.bind_some]
    exact load.port_linked finishes (load.unlinked _ (List.getElem_mem inside)) links key

theorem resolvable_of_links (load : Load loader objs after) {body body' : Body}
    (unlinked : body.Unlinked)
    (links : BodyLinks rt after.istance_id_remap after.store.mObjects body body') :
    body.Resolvable (objs.map Object.mInstanceId) := by
  cases body with
  | object => trivial
  | component mGameObj =>
      obtain ⟨id, rfl⟩ := unlinked
      obtain ⟨entry, aimed, -⟩ := links
      rw [low32_ofFileId] at aimed
      obtain ⟨i, -, last, -⟩ := load.target_some aimed
      exact lastIndex_isSome_iff.mp (Option.isSome_of_eq_some last)
  | gameObject mComponents =>
      obtain ⟨linkedComponents, rfl, slots, -⟩ := links
      intro key m_link_key present
      obtain ⟨c_inst, entry, fileKey, aimed, -⟩ := slots key _ present
      obtain rfl := fileKey m_link_key rfl
      obtain ⟨i, -, last, -⟩ := load.target_some aimed
      exact lastIndex_isSome_iff.mp (Option.isSome_of_eq_some last)

theorem linkable_of_resolvable (load : Load loader objs after) (rt : Runtime) {body : Body}
    (unlinked : body.Unlinked) (resolvable : body.Resolvable (objs.map Object.mInstanceId)) :
    Linkable rt after.istance_id_remap body := by
  have known (key : Nat) (member : key ∈ objs.map Object.mInstanceId) :
      (after.istance_id_remap.lookup key).isSome := by
    rw [load.remap, Option.isSome_map]
    exact lastIndex_isSome_iff.mpr member
  cases body with
  | object => trivial
  | component mGameObj =>
      obtain ⟨id, rfl⟩ := unlinked
      show (after.istance_id_remap.lookup (rt.low32 (.ofFileId id))).isSome
      rw [low32_ofFileId]
      exact known _ resolvable
  | gameObject mComponents =>
      intro key ptr present
      obtain ⟨m_link_key, rfl⟩ := unlinked key ptr present
      exact ⟨m_link_key, rfl, known _ (resolvable key m_link_key present)⟩

theorem linkable_of_inert (rt : Runtime) (id_remap : IdRemap) {body : Body} (inert : body.Inert) :
    Linkable rt id_remap body := by
  cases body with
  | object => trivial
  | component mGameObj => exact inert.elim
  | gameObject mComponents =>
      obtain rfl : mComponents = ∅ := inert
      intro key ptr present
      simp at present

def OldInert (loader : Loader) : Prop :=
  ∀ id entry body, loader.store.mObjects.lookup id = some entry →
    loader.store.bodyAt entry.unique = some body → body.Inert

theorem finishes_of_resolvable (load : Load loader objs after) (rt : Runtime)
    (inert : OldInert loader)
    (resolvable : ∀ obj ∈ objs, obj.body.Resolvable (objs.map Object.mInstanceId)) :
    ∃ linked, Finishes rt after linked := by
  apply linkAll_total load.resolving (uniques_nodup rt load.after_valid)
  intro ref member
  obtain ⟨id, entry, found, rfl⟩ := (mem_uniques rt after.store).mp member
  obtain ⟨body, here⟩ := uniques_present rt load.after_valid _ member
  refine ⟨body, here, ?_⟩
  rcases load.registered.entry_cases found with ⟨-, before⟩ | ⟨i, inside, rfl, rfl⟩
  · rw [Store.bodyAt, load.registered.lookup_old (load.valid.unique_lt before)] at here
    exact linkable_of_inert rt _ (inert id entry body before here)
  · rw [load.registered.bodyAt_new, Option.map_eq_some_iff] at here
    obtain ⟨obj, here, rfl⟩ := here
    have member := List.mem_of_getElem? here
    exact load.linkable_of_resolvable rt (load.unlinked obj member) (resolvable obj member)

theorem resolvable_of_finishes (load : Load loader objs after) (finishes : Finishes rt after linked) :
    ∀ obj ∈ objs, obj.body.Resolvable (objs.map Object.mInstanceId) := by
  intro obj member
  obtain ⟨i, here⟩ := List.getElem?_of_mem member
  obtain ⟨body', -, links⟩ := load.new_body_links finishes here
  exact load.resolvable_of_links (load.unlinked obj member) links

end Load
end PackagedTask.Objects
