import PackagedTask.Library.LastIndex
import PackagedTask.Objects.Frame
import PackagedTask.Objects.Loading

namespace PackagedTask.Objects
open Streams Library Library.StateError

/-! What the loop of `deserialize` leaves in the manager: the decoded objects, numbered in stream
order from `mNextAvailableID` on. -/

def Body.Unlinked : Body → Prop
  | .object => True
  | .component mGameObj => ∃ id, mGameObj = .ofFileId id
  | .gameObject mComponents => ∀ key ptr, mComponents.lookup key = some ptr →
      ∃ m_link_key, ptr = .placeholder m_link_key

theorem Body.Unlinked.not_shared {body : Body} (unlinked : body.Unlinked) (handle : HandleRef) :
    .shared handle ∉ body.handles := by
  cases body with
  | object => simp [Body.handles]
  | component mGameObj => simp [Body.handles]
  | gameObject mComponents =>
      intro member
      obtain ⟨key, found⟩ := Store.mem_handles_iff.mp member
      obtain ⟨m_link_key, same⟩ := unlinked key _ found
      cases same

theorem component_read_ok {stream next : InputMemoryStream} {obj : Object}
    (result : Component.read stream = .ok obj next) : ∃ inst_id id,
      obj = { mInstanceId := inst_id, body := .component (.ofFileId id) } := by
  obtain ⟨_, s1, -, result⟩ := bind_ok_iff.mp result
  obtain ⟨inst_id, s2, -, result⟩ := bind_ok_iff.mp result
  obtain ⟨n_ptr, s3, -, result⟩ := bind_ok_iff.mp result
  by_cases owned : n_ptr ≠ 0
  · rw [if_pos owned] at result
    obtain ⟨id, s4, -, result⟩ := bind_ok_iff.mp result
    rw [pure_apply] at result
    cases result
    exact ⟨inst_id, id, rfl⟩
  · rw [if_neg owned, pure_apply] at result
    cases result
    exact ⟨inst_id, 0, rfl⟩

theorem readComponents_unlinked {size : Nat} {table after : ComponentMap}
    {stream next : InputMemoryStream} (unlinked : (Body.gameObject table).Unlinked)
    (result : GameObject.readComponents size table stream = .ok after next) :
    (Body.gameObject after).Unlinked := by
  induction size generalizing table stream with
  | zero =>
      rw [GameObject.readComponents, pure_apply] at result
      cases result
      exact unlinked
  | succ size ih =>
      rw [GameObject.readComponents] at result
      obtain ⟨key, s1, -, result⟩ := bind_ok_iff.mp result
      obtain ⟨cmp_inst, s2, -, result⟩ := bind_ok_iff.mp result
      apply ih _ result
      intro other ptr found
      rcases lookup_insert_cases found with ⟨-, rfl⟩ | ⟨-, before⟩
      · exact ⟨cmp_inst, rfl⟩
      · exact unlinked other ptr before

theorem gameObject_read_ok {stream next : InputMemoryStream} {obj : Object}
    (result : GameObject.read stream = .ok obj next) : ∃ inst_id mComponents,
      obj = { mInstanceId := inst_id, body := .gameObject mComponents } ∧
        (Body.gameObject mComponents).Unlinked := by
  obtain ⟨_, s1, -, result⟩ := bind_ok_iff.mp result
  obtain ⟨inst_id, s2, -, result⟩ := bind_ok_iff.mp result
  obtain ⟨size, s3, -, result⟩ := bind_ok_iff.mp result
  obtain ⟨mComponents, s4, ran, result⟩ := bind_ok_iff.mp result
  rw [pure_apply] at result
  cases result
  refine ⟨inst_id, mComponents, rfl, readComponents_unlinked ?_ ran⟩
  intro key ptr found
  simp at found

theorem nextObject_ok {stream next : InputMemoryStream} {obj : Object}
    (result : nextObject stream = .ok obj next) :
    ∃ rtti, s_mClassIDToRttiMap.lookup (toInt32 (LittleEndian.decode (stream.peek 4))) = some rtti ∧
      readObject rtti.factory stream = .ok obj next := by
  unfold nextObject at result
  obtain ⟨_, _, current, result⟩ := bind_ok_iff.mp result
  rw [get_apply] at current
  cases current
  obtain ⟨rtti, s1, found, result⟩ := bind_ok_iff.mp result
  have known := classIDToRTTI_ok_iff.mp found
  exact ⟨rtti, known.1, known.2 ▸ result⟩

theorem nextObject_unlinked {stream next : InputMemoryStream} {obj : Object}
    (result : nextObject stream = .ok obj next) : obj.body.Unlinked := by
  obtain ⟨rtti, -, result⟩ := nextObject_ok result
  cases kind : rtti.factory with
  | object =>
      rw [kind, readObject, pure_apply] at result
      cases result
      trivial
  | component mGameObj =>
      rw [kind, readObject] at result
      obtain ⟨inst_id, id, rfl⟩ := component_read_ok result
      exact ⟨id, rfl⟩
  | gameObject mComponents =>
      rw [kind, readObject] at result
      obtain ⟨inst_id, mComponents, rfl, unlinked⟩ := gameObject_read_ok result
      exact unlinked

theorem Decodes.unlinked {stream last : InputMemoryStream} {objs : List Object}
    (decoded : Decodes stream objs last) : ∀ obj ∈ objs, obj.body.Unlinked := by
  induction decoded with
  | nil => simp
  | cons remaining first others ih =>
      rintro obj member
      rcases List.mem_cons.mp member with rfl | later
      · exact nextObject_unlinked first
      · exact ih obj later

structure Registered (loader : Loader) (objs : List Object) (after : Loader) : Prop where
  objects : ∀ ref, after.store.objects.lookup ref =
    if ref < loader.store.nextObject then loader.store.objects.lookup ref
    else (objs[ref - loader.store.nextObject]?).map fun obj =>
      { obj with
        mInstanceId := loader.store.mNextAvailableID + (ref - loader.store.nextObject) }
  handles : ∀ handle, after.store.handles.lookup handle =
    if handle < loader.store.nextHandle then loader.store.handles.lookup handle
    else if handle < loader.store.nextHandle + objs.length then
      some ⟨some (loader.store.nextObject + (handle - loader.store.nextHandle)), 0⟩
    else none
  entries : ∀ id, after.store.mObjects.lookup id =
    if id < loader.store.mNextAvailableID then loader.store.mObjects.lookup id
    else if id < loader.store.mNextAvailableID + objs.length then
      some ⟨loader.store.nextObject + (id - loader.store.mNextAvailableID),
        loader.store.nextHandle + (id - loader.store.mNextAvailableID)⟩
    else none
  held : ∀ handle, handle ∈ after.store.held ↔ handle ∈ loader.store.held ∨
    (loader.store.nextHandle ≤ handle ∧ handle < loader.store.nextHandle + objs.length)
  nextObject : after.store.nextObject = loader.store.nextObject + objs.length
  nextHandle : after.store.nextHandle = loader.store.nextHandle + objs.length
  mNextAvailableID : after.store.mNextAvailableID = loader.store.mNextAvailableID + objs.length
  vector : after.objects =
    loader.objects ++ (List.range objs.length).map (loader.store.nextHandle + ·)
  remap : ∀ key, after.istance_id_remap.lookup key =
    match lastIndex key (objs.map Object.mInstanceId) with
    | some i => some (loader.store.mNextAvailableID + i)
    | none => loader.istance_id_remap.lookup key

theorem registered_nil {loader : Loader} (valid : loader.store.Valid) :
    Registered loader [] loader where
  objects := by
    intro ref
    by_cases old : ref < loader.store.nextObject
    · rw [if_pos old]
    · rw [if_neg old]
      cases found : loader.store.objects.lookup ref with
      | none => simp
      | some object =>
          have bound := valid.objectsFresh ref object.body (by rw [Store.bodyAt, found]; rfl)
          exact absurd bound old
  handles := by
    intro handle
    by_cases old : handle < loader.store.nextHandle
    · rw [if_pos old]
    · cases found : loader.store.handles.lookup handle with
      | none => simp
      | some cell => exact absurd (valid.handlesFresh handle cell found) old
  entries := by
    intro id
    by_cases old : id < loader.store.mNextAvailableID
    · rw [if_pos old]
    · cases found : loader.store.mObjects.lookup id with
      | none => simp
      | some entry => exact absurd (valid.keyed id entry found).2.1 old
  held := by simp
  nextObject := rfl
  nextHandle := rfl
  mNextAvailableID := rfl
  vector := by simp
  remap := fun _ => rfl

theorem range_grow {α : Type} {first count n : Nat} (other : n ≠ first + count)
    (old new : Option α) :
    (if n < first then old else if n < first + count then new else none) =
      if n < first then old else if n < first + (count + 1) then new else none := by
  by_cases before : n < first
  · rw [if_pos before, if_pos before]
  · rw [if_neg before, if_neg before]
    refine if_congr ?_ rfl rfl
    omega

theorem registered_concat {loader after : Loader} {objs : List Object} {obj : Object}
    (narrow : loader.store.mNextAvailableID + (objs.length + 1) < 2 ^ 32)
    (registered : Registered loader objs after) :
    Registered loader (objs ++ [obj]) (after.register obj) := by
  have vacant : after.store.mObjects.lookup after.store.mNextAvailableID = none := by
    rw [registered.entries, registered.mNextAvailableID]
    simp
  have step : after.store.registerObj obj = after.store.withNewObject obj := by
    rw [Store.registerObj, vacant]
  have issued : (after.store.withNewObject obj).getInstanceId after.store.nextHandle =
      after.store.mNextAvailableID := by
    simp [Store.getInstanceId, Store.withNewObject]
  have length : (objs ++ [obj]).length = objs.length + 1 := by simp
  constructor
  case objects =>
    intro ref
    simp only [Loader.register, step, Store.withNewObject]
    by_cases new : ref = after.store.nextObject
    · subst new
      rw [AList.lookup_insert, registered.nextObject, registered.mNextAvailableID]
      simp
    · rw [AList.lookup_insert_ne new, registered.objects]
      rw [registered.nextObject] at new
      by_cases old : ref < loader.store.nextObject
      · rw [if_pos old, if_pos old]
      · rw [if_neg old, if_neg old]
        by_cases among : ref - loader.store.nextObject < objs.length
        · rw [List.getElem?_append_left among]
        · rw [List.getElem?_eq_none (by lia), List.getElem?_eq_none (by rw [length]; lia)]
  case handles =>
    intro handle
    simp only [Loader.register, step, Store.withNewObject, length]
    by_cases new : handle = after.store.nextHandle
    · subst new
      rw [AList.lookup_insert, registered.nextHandle, registered.nextObject]
      simp
    · rw [AList.lookup_insert_ne new, registered.handles]
      exact range_grow (registered.nextHandle ▸ new) _ _
  case entries =>
    intro id
    simp only [Loader.register, step, Store.withNewObject, length]
    by_cases new : id = after.store.mNextAvailableID
    · subst new
      rw [AList.lookup_insert, registered.nextHandle, registered.nextObject,
        registered.mNextAvailableID]
      simp
    · rw [AList.lookup_insert_ne new, registered.entries]
      exact range_grow (registered.mNextAvailableID ▸ new) _ _
  case held =>
    intro handle
    simp only [Loader.register, step, Store.withNewObject, length, List.mem_cons, registered.held,
      registered.nextHandle]
    lia
  case nextObject =>
    simp only [Loader.register, step, Store.withNewObject, length, registered.nextObject]
    lia
  case nextHandle =>
    simp only [Loader.register, step, Store.withNewObject, length, registered.nextHandle]
    lia
  case mNextAvailableID =>
    simp only [Loader.register, step, Store.withNewObject, length, registered.mNextAvailableID]
    rw [Nat.mod_eq_of_lt (by omega)]
    omega
  case vector =>
    simp only [Loader.register, length, registered.vector, registered.nextHandle, List.range_succ,
      List.map_append, List.append_assoc]
    rfl
  case remap =>
    -- the record registered last wins, whatever ids the earlier ones carry
    intro key
    simp only [Loader.register, step, issued, List.map_append, List.map_cons, List.map_nil]
    rw [lastIndex_concat, List.length_map]
    by_cases same : obj.mInstanceId = key
    · rw [same, AList.lookup_insert, registered.mNextAvailableID, if_pos rfl]
    · rw [AList.lookup_insert_ne (Ne.symm same), registered.remap, if_neg same]

theorem registerAll_registered {loader : Loader} (valid : loader.store.Valid) (objs : List Object)
    (narrow : loader.store.mNextAvailableID + objs.length < 2 ^ 32) :
    Registered loader objs (loader.registerAll objs) := by
  induction objs using List.reverseRecOn with
  | nil => exact registered_nil valid
  | append_singleton objs obj ih =>
      rw [List.length_append, List.length_singleton] at narrow
      rw [Loader.registerAll, List.foldl_append]
      exact registered_concat narrow (ih (by omega))

variable {loader after : Loader} {objs : List Object}

theorem Registered.bodyAt_new (registered : Registered loader objs after) (i : Nat) :
    after.store.bodyAt (loader.store.nextObject + i) = (objs[i]?).map Object.body := by
  rw [Store.bodyAt, registered.objects, if_neg (by lia), Nat.add_sub_cancel_left, Option.map_map]
  rfl

theorem Registered.idAt_new (registered : Registered loader objs after) {i : Nat}
    (inside : i < objs.length) : after.store.idAt (loader.store.nextObject + i) =
      some (loader.store.mNextAvailableID + i) := by
  rw [Store.idAt, registered.objects, if_neg (by lia), Nat.add_sub_cancel_left,
    List.getElem?_eq_getElem inside]
  rfl

theorem Registered.lookup_old (registered : Registered loader objs after) {ref : ObjectRef}
    (old : ref < loader.store.nextObject) :
    after.store.objects.lookup ref = loader.store.objects.lookup ref := by
  rw [registered.objects, if_pos old]

theorem Registered.entry_new (registered : Registered loader objs after) {i : Nat}
    (inside : i < objs.length) :
    after.store.mObjects.lookup (loader.store.mNextAvailableID + i) =
      some ⟨loader.store.nextObject + i, loader.store.nextHandle + i⟩ := by
  rw [registered.entries, if_neg (by omega), if_pos (by omega), Nat.add_sub_cancel_left]

theorem Registered.handle_new (registered : Registered loader objs after) {i : Nat}
    (inside : i < objs.length) :
    after.store.handles.lookup (loader.store.nextHandle + i) =
      some ⟨some (loader.store.nextObject + i), 0⟩ := by
  rw [registered.handles, if_neg (by lia), if_pos (by lia), Nat.add_sub_cancel_left]

theorem Registered.entry_cases (registered : Registered loader objs after) {id : Nat}
    {entry : ObjEntry} (found : after.store.mObjects.lookup id = some entry) :
    (id < loader.store.mNextAvailableID ∧ loader.store.mObjects.lookup id = some entry) ∨
    ∃ i < objs.length, id = loader.store.mNextAvailableID + i ∧
      entry = ⟨loader.store.nextObject + i, loader.store.nextHandle + i⟩ := by
  rw [registered.entries] at found
  by_cases old : id < loader.store.mNextAvailableID
  · rw [if_pos old] at found
    exact .inl ⟨old, found⟩
  · rw [if_neg old] at found
    by_cases new : id < loader.store.mNextAvailableID + objs.length
    · rw [if_pos new] at found
      exact .inr ⟨id - loader.store.mNextAvailableID, by omega, by omega,
        (Option.some.inj found).symm⟩
    · rw [if_neg new] at found
      cases found

theorem Registered.bodyAt_cases (registered : Registered loader objs after) {ref : ObjectRef}
    {body : Body} (found : after.store.bodyAt ref = some body) :
    (ref < loader.store.nextObject ∧ loader.store.bodyAt ref = some body) ∨
    ∃ i obj, objs[i]? = some obj ∧ ref = loader.store.nextObject + i ∧ obj.body = body := by
  by_cases old : ref < loader.store.nextObject
  · rw [Store.bodyAt, registered.lookup_old old] at found
    exact .inl ⟨old, found⟩
  · obtain ⟨i, rfl⟩ := Nat.exists_eq_add_of_le (Nat.le_of_not_lt old)
    rw [registered.bodyAt_new, Option.map_eq_some_iff] at found
    obtain ⟨obj, here, same⟩ := found
    exact .inr ⟨i, obj, here, rfl, same⟩

theorem Registered.valid (registered : Registered loader objs after) (valid : loader.store.Valid)
    (narrow : loader.store.mNextAvailableID + objs.length < 2 ^ 32)
    (unlinked : ∀ obj ∈ objs, obj.body.Unlinked) : after.store.Valid where
  keyed := by
    intro id entry found
    rw [registered.mNextAvailableID]
    rcases registered.entry_cases found with ⟨old, before⟩ | ⟨i, inside, rfl, rfl⟩
    · obtain ⟨positive, -, carried⟩ := valid.keyed id entry before
      refine ⟨positive, by omega, ?_⟩
      rw [Store.idAt, registered.lookup_old (valid.unique_lt before)]
      exact carried
    · have first : 0 < loader.store.mNextAvailableID := valid.positive
      exact ⟨by omega, by omega, registered.idAt_new inside⟩
  positive := by
    rw [registered.mNextAvailableID]
    exact Nat.add_pos_left valid.positive _
  narrow := registered.mNextAvailableID ▸ narrow
  objectsFresh := by
    intro ref body found
    rw [registered.nextObject]
    rcases registered.bodyAt_cases found with ⟨old, -⟩ | ⟨i, obj, here, rfl, -⟩
    · lia
    · have inside := (List.getElem?_eq_some_iff.mp here).1
      lia
  ownersFresh := by
    intro ref owner found
    rw [registered.nextObject]
    rcases registered.bodyAt_cases found with ⟨old, before⟩ | ⟨i, obj, here, rfl, kind⟩
    · have bound := valid.ownersFresh ref owner before
      lia
    · have file := unlinked obj (List.mem_of_getElem? here)
      rw [kind] at file
      obtain ⟨id, same⟩ := file
      unfold GameObjectPtr.ofFileId at same
      split at same <;> cases same
  handlesFresh := by
    intro handle cell found
    rw [registered.nextHandle]
    rw [registered.handles] at found
    split_ifs at found with old new
    · lia
    · exact new
  alive := by
    intro handle count
    rw [registered.handles]
    have old_alive (before : loader.store.isHeld handle = true) :
        (if handle < loader.store.nextHandle then loader.store.handles.lookup handle
          else if handle < loader.store.nextHandle + objs.length then
            some ⟨some (loader.store.nextObject + (handle - loader.store.nextHandle)), 0⟩
          else none).isSome := by
      rw [if_pos (valid.held_lt before)]
      exact valid.alive handle before
    rcases Store.isHeld_iff.mp count with held | ⟨ref, body, found, owns⟩
    · rcases (registered.held handle).mp held with before | ⟨low, high⟩
      · exact old_alive (Store.isHeld_iff.mpr (.inl before))
      · rw [if_neg (by lia), if_pos high]
        rfl
    · rcases registered.bodyAt_cases found with ⟨-, before⟩ | ⟨i, obj, here, rfl, rfl⟩
      · exact old_alive (Store.isHeld_iff.mpr (.inr ⟨ref, body, before, owns⟩))
      · exact absurd owns ((unlinked obj (List.mem_of_getElem? here)).not_shared handle)

end PackagedTask.Objects
