import PackagedTask.Objects.Registration

namespace PackagedTask.Objects
open Streams Library Library.StateError Store

def target (id_remap : IdRemap) (mObjects : ObjectMap) (key : Nat) : Option ObjEntry :=
  (id_remap.lookup key).bind fun id => mObjects.lookup id

def Resolving (id_remap : IdRemap) (store : Store) : Prop :=
  ∀ key id, id_remap.lookup key = some id → ∃ entry, store.mObjects.lookup id = some entry ∧
    entry.handle ∈ store.held ∧ (store.handles.lookup entry.handle).isSome

structure Relinked (touched : Set ObjectRef) (before after : Store) : Prop
    extends Frame touched before after where
  sameHeld : after.held = before.held

variable {touched : Set ObjectRef} {before middle after store : Store} {id_remap : IdRemap}
  {rt : Runtime}

theorem Relinked.refl (touched : Set ObjectRef) (store : Store) : Relinked touched store store :=
  ⟨.refl touched store, rfl⟩

theorem Relinked.trans (first : Relinked touched before middle)
    (second : Relinked touched middle after) : Relinked touched before after :=
  ⟨first.toFrame.trans second.toFrame, second.sameHeld.trans first.sameHeld⟩

theorem Relinked.mono {wider : Set ObjectRef} (linked : Relinked touched before after)
    (within : touched ⊆ wider) : Relinked wider before after :=
  ⟨linked.toFrame.mono within, linked.sameHeld⟩

theorem Resolving.of_relinked (resolving : Resolving id_remap before)
    (linked : Relinked touched before after) : Resolving id_remap after := by
  intro key id found
  obtain ⟨entry, registered, held, alive⟩ := resolving key id found
  have still : entry.handle ∈ after.held := linked.sameHeld ▸ held
  exact ⟨entry, linked.mObjects ▸ registered, still, linked.kept _ still ▸ alive⟩

theorem replaceObject_relinked {ref : ObjectRef} {object : Object} (object' : Object)
    (here : store.objects.lookup ref = some object)
    (same : object'.mInstanceId = object.mInstanceId) :
    Relinked {ref} store { store with objects := store.objects.insert ref object' } := by
  refine ⟨⟨rfl, rfl, rfl, rfl, fun _ member => member, ?_, ?_, fun _ _ => rfl, fun _ _ => id⟩, rfl⟩
  · intro other
    simp only [Store.idAt]
    by_cases at_ref : other = ref
    · subst at_ref
      rw [AList.lookup_insert, here, Option.map_some, Option.map_some, same]
    · rw [AList.lookup_insert_ne at_ref]
  · intro other outside
    simp only [Store.bodyAt]
    rw [AList.lookup_insert_ne (show other ≠ ref from outside)]

theorem setComponent_relinked {ref : ObjectRef} {mComponents : ComponentMap}
    (here : store.bodyAt ref = some (.gameObject mComponents)) (key : Int) (ptr : PObjHandle) :
    Relinked {ref} store (store.setComponent ref key ptr) ∧
      (store.setComponent ref key ptr).bodyAt ref =
        some (.gameObject (mComponents.insert key ptr)) := by
  obtain ⟨⟨mInstanceId, is_del_it, body⟩, found, rfl⟩ := Option.map_eq_some_iff.mp here
  have assigned := replaceObject_relinked
    ⟨mInstanceId, is_del_it, .gameObject (mComponents.insert key ptr)⟩ found rfl
  unfold setComponent
  rw [found]
  cases replaced : mComponents.lookup key with
  | none =>
      simp only [replaced]
      exact ⟨assigned, by simp [Store.bodyAt]⟩
  | some old =>
      simp only [replaced]
      have freed := release_frame { store with objects := (store.objects.insert ref
        ⟨mInstanceId, is_del_it, .gameObject (mComponents.insert key ptr)⟩) } old
      refine ⟨assigned.trans ⟨freed.mono (Set.empty_subset _), release_held _ _⟩, ?_⟩
      rw [freed.bodyAt ref (Set.notMem_empty ref)]
      simp [Store.bodyAt]

theorem setGameObject_relinked {ref : ObjectRef} {body : Body}
    (here : store.bodyAt ref = some body) (go : GameObjectPtr) :
    Relinked {ref} store (store.setGameObject ref go) ∧
      (store.setGameObject ref go).bodyAt ref = some (.component go) := by
  obtain ⟨object, found, rfl⟩ := Option.map_eq_some_iff.mp here
  unfold setGameObject modifyObject
  rw [found]
  exact ⟨replaceObject_relinked _ found rfl, by simp [Store.bodyAt]⟩

theorem getObject_resolving (resolving : Resolving id_remap store) {key id : Nat}
    (found : id_remap.lookup key = some id) :
    ∃ entry, target id_remap store.mObjects key = some entry ∧
      getObject id store = .ok (.shared entry.handle) store ∧
      getObjectPtr id store = .ok entry.unique store := by
  obtain ⟨entry, registered, -, alive⟩ := resolving key id found
  refine ⟨entry, ?_, ?_, ?_⟩
  · rw [target, found, Option.bind_some, registered]
  · rw [getObject, bind_of_ok (get_apply store), registered]
    simp only [pure_apply, lock, alive, ↓reduceIte]
  · rw [getObjectPtr, bind_of_ok (get_apply store), registered]
    rfl

def PObjHandle.FileKey (ptr : PObjHandle) (key : Nat) : Prop :=
  ∀ m_link_key, ptr = .placeholder m_link_key → key = m_link_key

theorem linkKey_ok {ptr : PObjHandle} {key : Nat} (result : linkKey ptr store = .ok key after) :
    after = store ∧ ptr.FileKey key := by
  cases ptr with
  | null => cases result
  | placeholder m_link_key =>
      cases result
      exact ⟨rfl, fun _ same => PObjHandle.placeholder.inj same⟩
  | shared handle =>
      refine ⟨?_, fun _ same => by cases same⟩
      rw [linkKey, bind_of_ok (get_apply store)] at result
      cases found : store.handles.lookup handle with
      | none =>
          rw [found] at result
          cases result
      | some cell =>
          rw [found] at result
          cases result
          rfl

theorem GameObject.link_ok {ref : ObjectRef} {slots : List (Σ _ : Int, PObjHandle)}
    {mComponents : ComponentMap} (resolving : Resolving id_remap store)
    (here : store.bodyAt ref = some (.gameObject mComponents))
    (distinct : (slots.map Sigma.fst).Nodup)
    (result : GameObject.link id_remap ref slots store = .ok () after) :
    Relinked {ref} store after ∧ ∃ linked, after.bodyAt ref = some (.gameObject linked) ∧
      (∀ slot ∈ slots, ∃ key entry, slot.2.FileKey key ∧
        target id_remap store.mObjects key = some entry ∧
          linked.lookup slot.1 = some (.shared entry.handle)) ∧
      ∀ key, key ∉ slots.map Sigma.fst → linked.lookup key = mComponents.lookup key := by
  induction slots generalizing store mComponents with
  | nil =>
      cases result
      exact ⟨.refl _ _, mComponents, here, by simp, fun _ _ => rfl⟩
  | cons slot slots ih =>
      obtain ⟨key, cmp⟩ := slot
      rw [List.map_cons, List.nodup_cons] at distinct
      rw [GameObject.link] at result
      obtain ⟨c_inst, s1, keyed, ran⟩ := bind_ok_iff.mp result
      obtain ⟨rfl, fileKey⟩ := linkKey_ok keyed
      cases found : id_remap.lookup c_inst with
      | none =>
          rw [found] at ran
          cases ran
      | some id =>
          obtain ⟨entry, aimed, got, -⟩ := getObject_resolving resolving found
          rw [found] at ran
          simp only at ran
          rw [bind_of_ok got, bind_of_ok (modify_apply _ _)] at ran
          obtain ⟨step, there⟩ := setComponent_relinked here key (.shared entry.handle)
          obtain ⟨rest, linked, final, slotted, frame⟩ :=
            ih (resolving.of_relinked step) there distinct.2 ran
          rw [step.mObjects] at slotted
          refine ⟨step.trans rest, linked, final, ?_, ?_⟩
          -- keys are distinct, so the slots after this one leave its entry alone
          · rintro other (_ | ⟨_, member⟩)
            · refine ⟨c_inst, entry, fileKey, aimed, ?_⟩
              rw [frame key distinct.1, AList.lookup_insert]
            · exact slotted other member
          · intro other absent
            rw [List.map_cons, List.mem_cons, not_or] at absent
            rw [frame other absent.2, AList.lookup_insert_ne absent.1]

theorem GameObject.link_total {ref : ObjectRef} {slots : List (Σ _ : Int, PObjHandle)}
    {mComponents : ComponentMap} (resolving : Resolving id_remap store)
    (here : store.bodyAt ref = some (.gameObject mComponents))
    (known : ∀ slot ∈ slots, ∃ key, slot.2 = .placeholder key ∧ (id_remap.lookup key).isSome) :
    ∃ after, GameObject.link id_remap ref slots store = .ok () after := by
  induction slots generalizing store mComponents with
  | nil => exact ⟨store, rfl⟩
  | cons slot slots ih =>
      obtain ⟨key, cmp⟩ := slot
      obtain ⟨m_link_key, rfl, aimed⟩ := known ⟨key, cmp⟩ List.mem_cons_self
      obtain ⟨id, found⟩ := Option.isSome_iff_exists.mp aimed
      obtain ⟨entry, -, got, -⟩ := getObject_resolving resolving found
      obtain ⟨step, there⟩ := setComponent_relinked here key (.shared entry.handle)
      obtain ⟨final, ran⟩ := ih (resolving.of_relinked step) there
        fun other member => known other (List.mem_cons_of_mem _ member)
      refine ⟨final, ?_⟩
      have keyed : linkKey (.placeholder m_link_key) store = .ok m_link_key store := rfl
      rw [GameObject.link, bind_of_ok keyed, found]
      simp only
      rw [bind_of_ok got, bind_of_ok (modify_apply _ _)]
      exact ran

def BodyLinks (rt : Runtime) (id_remap : IdRemap) (mObjects : ObjectMap) : Body → Body → Prop
  | .object, body => body = .object
  | .component mGameObj, body => ∃ entry,
      target id_remap mObjects (rt.low32 mGameObj) = some entry ∧
        body = .component (.object entry.unique)
  | .gameObject mComponents, body => ∃ linked, body = .gameObject linked ∧
      (∀ key ptr, mComponents.lookup key = some ptr → ∃ c_inst entry, ptr.FileKey c_inst ∧
        target id_remap mObjects c_inst = some entry ∧
          linked.lookup key = some (.shared entry.handle)) ∧
      ∀ key, mComponents.lookup key = none → linked.lookup key = none

theorem mem_componentOrder (rt : Runtime) (ref : ObjectRef) {mComponents : ComponentMap} {key : Int}
    {ptr : PObjHandle} :
    ⟨key, ptr⟩ ∈ rt.componentOrder ref mComponents ↔ mComponents.lookup key = some ptr := by
  rw [(rt.componentOrder_perm ref mComponents).mem_iff]
  exact AList.mem_lookup_iff.symm

theorem componentOrder_keys_nodup (rt : Runtime) (ref : ObjectRef) (mComponents : ComponentMap) :
    ((rt.componentOrder ref mComponents).map Sigma.fst).Nodup :=
  ((rt.componentOrder_perm ref mComponents).map Sigma.fst).nodup_iff.mpr mComponents.nodupKeys

theorem linkObject_ok {ref : ObjectRef} {body : Body} (resolving : Resolving id_remap store)
    (here : store.bodyAt ref = some body)
    (result : linkObject rt id_remap ref store = .ok () after) :
    Relinked {ref} store after ∧ ∃ linked, after.bodyAt ref = some linked ∧
      BodyLinks rt id_remap store.mObjects body linked := by
  obtain ⟨object, found, rfl⟩ := Option.map_eq_some_iff.mp here
  rw [linkObject, bind_of_ok (get_apply store), found] at result
  simp only at result
  cases kind : object.body with
  | object =>
      rw [kind] at result here
      cases result
      exact ⟨.refl _ _, .object, here, rfl⟩
  | component mGameObj =>
      rw [kind] at result here
      simp only [Component.link] at result
      cases aimed : id_remap.lookup (rt.low32 mGameObj) with
      | none =>
          rw [aimed] at result
          cases result
      | some id =>
          obtain ⟨entry, aims, -, got⟩ := getObject_resolving resolving aimed
          rw [aimed] at result
          simp only at result
          rw [bind_of_ok got, modify_apply] at result
          cases result
          obtain ⟨step, there⟩ := setGameObject_relinked here (.object entry.unique)
          exact ⟨step, _, there, entry, aims, rfl⟩
  | gameObject mComponents =>
      rw [kind] at result here
      obtain ⟨step, linked, there, slotted, frame⟩ :=
        GameObject.link_ok resolving here (componentOrder_keys_nodup rt ref mComponents) result
      refine ⟨step, _, there, linked, rfl, ?_, ?_⟩
      · intro key ptr present
        exact slotted ⟨key, ptr⟩ ((mem_componentOrder rt ref).mpr present)
      · intro key absent
        rw [frame key, absent]
        intro member
        obtain ⟨⟨_, ptr⟩, inside, rfl⟩ := List.mem_map.mp member
        rw [mem_componentOrder] at inside
        rw [inside] at absent
        cases absent

def Linkable (rt : Runtime) (id_remap : IdRemap) : Body → Prop
  | .object => True
  | .component mGameObj => (id_remap.lookup (rt.low32 mGameObj)).isSome
  | .gameObject mComponents => ∀ key ptr, mComponents.lookup key = some ptr →
      ∃ m_link_key, ptr = .placeholder m_link_key ∧ (id_remap.lookup m_link_key).isSome

theorem linkObject_total {ref : ObjectRef} {body : Body} (resolving : Resolving id_remap store)
    (here : store.bodyAt ref = some body) (linkable : Linkable rt id_remap body) :
    ∃ after, linkObject rt id_remap ref store = .ok () after := by
  obtain ⟨object, found, rfl⟩ := Option.map_eq_some_iff.mp here
  rw [linkObject, bind_of_ok (get_apply store), found]
  simp only
  cases kind : object.body with
  | object => exact ⟨store, rfl⟩
  | component mGameObj =>
      rw [kind] at linkable
      obtain ⟨id, aimed⟩ := Option.isSome_iff_exists.mp linkable
      obtain ⟨entry, -, -, got⟩ := getObject_resolving resolving aimed
      simp only [Component.link, aimed]
      rw [bind_of_ok got]
      exact ⟨_, rfl⟩
  | gameObject mComponents =>
      rw [kind] at linkable here
      apply GameObject.link_total resolving here
      rintro ⟨key, ptr⟩ member
      exact linkable key ptr ((mem_componentOrder rt ref).mp member)

def uniques (entries : List (Σ _ : Nat, ObjEntry)) : List ObjectRef :=
  entries.map fun entry => entry.2.unique

theorem linkAll_ok {entries : List (Σ _ : Nat, ObjEntry)} (resolving : Resolving id_remap store)
    (present : ∀ ref ∈ uniques entries, ∃ body, store.bodyAt ref = some body)
    (distinct : (uniques entries).Nodup)
    (result : linkAll rt id_remap entries store = .ok () after) :
    Relinked {ref | ref ∈ uniques entries} store after ∧
      ∀ ref ∈ uniques entries, ∀ body, store.bodyAt ref = some body →
        ∃ linked, after.bodyAt ref = some linked ∧
          BodyLinks rt id_remap store.mObjects body linked := by
  induction entries generalizing store with
  | nil =>
      cases result
      exact ⟨.refl _ _, by simp [uniques]⟩
  | cons entry entries ih =>
      obtain ⟨id, entry⟩ := entry
      simp only [uniques, List.map_cons, List.nodup_cons] at distinct present ⊢
      obtain ⟨body, here⟩ := present entry.unique List.mem_cons_self
      rw [linkAll] at result
      obtain ⟨_, s1, first, result⟩ := bind_ok_iff.mp result
      obtain ⟨step, linked, there, links⟩ := linkObject_ok resolving here first
      have apart : ∀ ref ∈ uniques entries, ref ∉ ({entry.unique} : Set ObjectRef) := by
        rintro ref member rfl
        exact distinct.1 member
      obtain ⟨rest, linkedRest⟩ := ih (resolving.of_relinked step)
        (fun ref member => by
          rw [step.bodyAt ref (apart ref member)]
          exact present ref (List.mem_cons_of_mem _ member)) distinct.2 result
      refine ⟨(step.mono ?_).trans (rest.mono ?_), ?_⟩
      · rintro ref rfl
        exact List.mem_cons_self
      · exact fun ref member => List.mem_cons_of_mem _ member
      · intro ref member body' here'
        rcases List.mem_cons.mp member with rfl | later
        · obtain rfl := Option.some.inj (here.symm.trans here')
          exact ⟨linked, (rest.bodyAt entry.unique distinct.1).trans there, links⟩
        · rw [← step.mObjects]
          apply linkedRest ref later
          rw [step.bodyAt ref (apart ref later)]
          exact here'

theorem linkAll_total {entries : List (Σ _ : Nat, ObjEntry)} (resolving : Resolving id_remap store)
    (distinct : (uniques entries).Nodup)
    (linkable : ∀ ref ∈ uniques entries, ∃ body, store.bodyAt ref = some body ∧
      Linkable rt id_remap body) :
    ∃ after, linkAll rt id_remap entries store = .ok () after := by
  induction entries generalizing store with
  | nil => exact ⟨store, rfl⟩
  | cons entry entries ih =>
      obtain ⟨id, entry⟩ := entry
      simp only [uniques, List.map_cons, List.nodup_cons] at distinct linkable
      obtain ⟨body, here, able⟩ := linkable entry.unique List.mem_cons_self
      obtain ⟨next, first⟩ := linkObject_total resolving here able
      obtain ⟨step, -⟩ := linkObject_ok resolving here first
      obtain ⟨final, ran⟩ := ih (resolving.of_relinked step) distinct.2 (by
        intro ref member
        rw [step.bodyAt ref (by rintro rfl; exact distinct.1 member)]
        exact linkable ref (List.mem_cons_of_mem _ member))
      exact ⟨final, by rw [linkAll, bind_of_ok first]; exact ran⟩

end PackagedTask.Objects
