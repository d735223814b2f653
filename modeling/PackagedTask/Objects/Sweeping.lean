import PackagedTask.Objects.Ownership
import PackagedTask.Objects.Graph

namespace PackagedTask.Objects
open Library Store

/-! What becomes of the raw pointers from components to their owners when objects go. -/

namespace Store

def Lists (store : Store) (ref : ObjectRef) (handle : HandleRef) : Prop :=
  ∃ mComponents, store.bodyAt ref = some (.gameObject mComponents) ∧
    .shared handle ∈ (Body.gameObject mComponents).handles

variable {store : Store} {handle : HandleRef}

theorem isHeld_iff_lists :
    store.isHeld handle = true ↔ handle ∈ store.held ∨ ∃ ref, store.Lists ref handle := by
  rw [isHeld_iff]
  refine or_congr_right (exists_congr fun ref => ?_)
  constructor
  · rintro ⟨body, here, owns⟩
    cases body with
    | object => cases owns
    | component mGameObj => cases owns
    | gameObject mComponents => exact ⟨mComponents, here, owns⟩
  · rintro ⟨mComponents, here, owns⟩
    exact ⟨_, here, owns⟩

theorem Lists.isHeld {ref : ObjectRef} (lists : store.Lists ref handle) :
    store.isHeld handle = true := isHeld_iff_lists.mpr (.inr ⟨ref, lists⟩)

/-- What `Component::sendMessage`, `write` and `dump` rely on. -/
def OwnersHeld (store : Store) : Prop :=
  ∀ id entry mGameObj, store.mObjects.lookup id = some entry →
    store.bodyAt entry.unique = some (.component mGameObj) →
    mGameObj = .null ∨ ∃ id' entry' mComponents, store.mObjects.lookup id' = some entry' ∧
      mGameObj = .object entry'.unique ∧
      store.bodyAt entry'.unique = some (.gameObject mComponents)

/-- No object but the manager's, and only components in the slots. -/
structure Populated (store : Store) : Prop where
  owned : ∀ ref body, store.bodyAt ref = some body →
    ∃ id entry, store.mObjects.lookup id = some entry ∧ entry.unique = ref
  listed : ∀ ref handle, store.Lists ref handle → ∃ cmp_ptr mGameObj,
    store.resolve (.shared handle) = some cmp_ptr ∧
      store.bodyAt cmp_ptr = some (.component mGameObj)

theorem marked_iff (sound : Sound true [] store) {id : Nat} {entry : ObjEntry}
    (found : store.mObjects.lookup id = some entry) :
    store.isDeleted entry.unique = true ↔
      entry.handle ∉ store.held ∧ ∀ ref, ¬ store.Lists ref entry.handle := by
  rw [sound.deleted id entry found, ← not_exists, ← not_or, ← isHeld_iff_lists]
  constructor
  · intro dead held
    have alive := sound.alive entry.handle held
    rw [dead] at alive
    cases alive
  · intro free
    cases cell : store.handles.lookup entry.handle with
    | none => rfl
    | some c => exact absurd (sound.held cell) free

theorem held_of_resolve {managed : Bool} (sound : Sound managed [] store) {ref : ObjectRef}
    (points : store.resolve (.shared handle) = some ref) : store.isHeld handle = true := by
  obtain ⟨cell, found, -⟩ := Option.bind_eq_some_iff.mp points
  exact sound.held found

theorem listed_entry (sound : Sound true [] store) {cmp_ptr : ObjectRef}
    (points : store.resolve (.shared handle) = some cmp_ptr) : ∃ id entry,
      store.mObjects.lookup id = some entry ∧ entry.unique = cmp_ptr ∧ entry.handle = handle := by
  obtain ⟨cell, found, pointed⟩ := Option.bind_eq_some_iff.mp points
  rcases sound.points handle cell found with ⟨destroyed, -⟩ | ⟨id, entry, registered, aimed, same⟩
  · cases destroyed
  · exact ⟨id, entry, registered, Option.some.inj (aimed.symm.trans pointed), same⟩

theorem Populated.not_lists_gameObject (populated : store.Populated) (sound : Sound true [] store)
    {id : Nat} {entry : ObjEntry} (found : store.mObjects.lookup id = some entry)
    {mComponents : ComponentMap}
    (known : store.bodyAt entry.unique = some (.gameObject mComponents)) (ref : ObjectRef) :
    ¬ store.Lists ref entry.handle := by
  intro lists
  obtain ⟨cmp_ptr, mGameObj, points, here⟩ := populated.listed ref entry.handle lists
  obtain ⟨id', entry', found', rfl, same⟩ := listed_entry sound points
  obtain rfl := sound.entryHandles id' id entry' entry found' found same
  rw [Option.some.inj (found'.symm.trans found), known] at here
  cases here

theorem releaseAll_held (pending : List PObjHandle) (store : Store) :
    (pending.foldl release store).held = store.held := by
  induction pending generalizing store with
  | nil => rfl
  | cons ptr pending ih => exact (ih _).trans (release_held store ptr)

theorem releaseAll_isHeld (pending : List PObjHandle) (store : Store) (handle : HandleRef) :
    (pending.foldl release store).isHeld handle = store.isHeld handle :=
  isHeld_congr (releaseAll_held pending store)
    (fun ref => (releaseAll_frame pending store).bodyAt ref (Set.notMem_empty ref)) handle

theorem release_alive (ptr : PObjHandle) (held : store.isHeld handle = true) :
    (store.release ptr).handles.lookup handle = store.handles.lookup handle := by
  cases ptr with
  | shared freed => exact releaseHandle_alive store freed handle held
  | null => rfl
  | placeholder m_link_key => rfl

theorem releaseAll_alive (pending : List PObjHandle) (held : store.isHeld handle = true) :
    (pending.foldl release store).handles.lookup handle = store.handles.lookup handle := by
  induction pending generalizing store with
  | nil => rfl
  | cons ptr pending ih =>
      have still : (store.release ptr).isHeld handle = true := by
        rw [← held]
        exact releaseAll_isHeld [ptr] store handle
      exact (ih still).trans (release_alive ptr held)

theorem eraseEntry_held (id : Nat) (entry : ObjEntry) :
    (store.eraseEntry id entry).held = store.held := by
  unfold eraseEntry destroyObject
  split
  · rfl
  · exact releaseAll_held _ _

theorem eraseEntry_mObjects (id : Nat) (entry : ObjEntry) :
    (store.eraseEntry id entry).mObjects = store.mObjects.erase id :=
  destroyObject_mObjects _ entry.unique

theorem destroyObject_bodyAt (store : Store) (gone ref : ObjectRef) :
    (store.destroyObject gone).bodyAt ref = if ref = gone then none else store.bodyAt ref := by
  unfold destroyObject
  split
  · rename_i absent
    by_cases same : ref = gone
    · rw [if_pos same, same, bodyAt, absent, Option.map_none]
    · rw [if_neg same]
  · rw [(releaseAll_frame _ _).bodyAt ref (Set.notMem_empty ref)]
    by_cases same : ref = gone
    · rw [if_pos same, same, bodyAt, AList.lookup_erase, Option.map_none]
    · rw [if_neg same, bodyAt, AList.lookup_erase_ne same, bodyAt]

theorem eraseEntry_bodyAt (id : Nat) (entry : ObjEntry) (ref : ObjectRef) :
    (store.eraseEntry id entry).bodyAt ref =
      if ref = entry.unique then none else store.bodyAt ref := destroyObject_bodyAt _ _ ref

theorem eraseEntry_lists (id : Nat) (entry : ObjEntry) (ref : ObjectRef) :
    (store.eraseEntry id entry).Lists ref handle ↔
      ref ≠ entry.unique ∧ store.Lists ref handle := by
  simp only [Lists, eraseEntry_bodyAt]
  by_cases same : ref = entry.unique
  · simp [same]
  · simp [same]

theorem eraseEntry_alive {id : Nat} {entry : ObjEntry}
    (held : (store.eraseEntry id entry).isHeld handle = true) :
    (store.eraseEntry id entry).handles.lookup handle = store.handles.lookup handle := by
  unfold eraseEntry destroyObject at held ⊢
  split at held
  · rfl
  · rw [releaseAll_isHeld] at held
    exact releaseAll_alive _ held

theorem eraseEntry_fewer {id : Nat} {entry : ObjEntry} {cell : ObjHandle}
    (found : (store.eraseEntry id entry).handles.lookup handle = some cell) :
    store.handles.lookup handle = some cell := by
  unfold eraseEntry destroyObject at found
  split at found
  · exact found
  · have before := (releaseAll_frame _ _).fewer handle cell found
    exact before

theorem Populated.eraseEntry (populated : store.Populated) (sound : Sound true [] store) {id : Nat}
    {entry : ObjEntry} (found : store.mObjects.lookup id = some entry)
    (marked : store.isDeleted entry.unique = true) : (store.eraseEntry id entry).Populated where
  owned := by
    intro ref body here
    rw [eraseEntry_bodyAt] at here
    split at here
    · cases here
    · rename_i other
      obtain ⟨id', entry', found', rfl⟩ := populated.owned ref body here
      refine ⟨id', entry', ?_, rfl⟩
      rw [eraseEntry_mObjects, AList.lookup_erase_ne, found']
      rintro rfl
      exact other (congrArg _ (Option.some.inj (found'.symm.trans found)))
  listed := by
    intro ref handle lists
    have before := ((eraseEntry_lists id entry ref).mp lists).2
    obtain ⟨cmp_ptr, mGameObj, points, here⟩ := populated.listed ref handle before
    refine ⟨cmp_ptr, mGameObj, ?_, ?_⟩
    · rw [← points, resolve, resolve, eraseEntry_alive lists.isHeld]
    · rw [eraseEntry_bodyAt, if_neg, here]
      -- the object that goes is marked, so nothing lists its handle
      rintro rfl
      obtain ⟨id', entry', found', same, rfl⟩ := listed_entry sound points
      obtain rfl := sound.toValid.unique_injective found' found same
      obtain rfl := Option.some.inj (found'.symm.trans found)
      exact ((marked_iff sound found).mp marked).2 ref before

theorem Populated.withNewObject (populated : store.Populated) (sound : Sound true [] store)
    {body : Body} (fresh : body = .gameObject ∅ ∨ body = .component .null) :
    (store.withNewObject { body := body }).Populated where
  owned := sound.toValid.withNewObject_owned _ populated.owned
  listed := by
    rintro ref handle ⟨mComponents, here, owns⟩
    rw [withNewObject_bodyAt] at here
    split at here
    · rcases fresh with rfl | rfl
      · cases here
        cases owns
      · cases here
    · have lists : store.Lists ref handle := ⟨mComponents, here, owns⟩
      obtain ⟨cmp_ptr, mGameObj, points, known⟩ := populated.listed ref handle lists
      refine ⟨cmp_ptr, mGameObj, ?_, ?_⟩
      · rw [← points, resolve, resolve,
          withNewObject_oldHandle _ (sound.toValid.held_lt lists.isHeld)]
      · rw [withNewObject_bodyAt, if_neg, known]
        exact Nat.ne_of_lt (sound.objectsFresh cmp_ptr _ known)

theorem OwnersHeld.withNewObject (owners : store.OwnersHeld) (valid : store.Valid) {body : Body}
    (fresh : body = .gameObject ∅ ∨ body = .component .null) :
    (store.withNewObject { body := body }).OwnersHeld := by
  intro id entry mGameObj found known
  rw [withNewObject_bodyAt] at known
  split at known
  · rcases fresh with rfl | rfl
    · cases known
    · cases known
      exact .inl rfl
  · rename_i old
    rcases withNewObject_entry found with ⟨-, rfl⟩ | ⟨-, before⟩
    · exact (old rfl).elim
    · refine (owners id entry mGameObj before known).imp_right ?_
      rintro ⟨id', entry', mComponents, found', same, known'⟩
      refine ⟨id', entry', mComponents, valid.withNewObject_oldEntry _ found', same, ?_⟩
      rw [withNewObject_bodyAt, if_neg, known']
      exact Nat.ne_of_lt (valid.unique_lt found')

theorem resolve_of_frame {touched : Set ObjectRef} {after : Store} (valid : after.Valid)
    (frame : Frame touched store after) (held : after.isHeld handle = true) :
    after.resolve (.shared handle) = store.resolve (.shared handle) := by
  obtain ⟨cell, found⟩ := Option.isSome_iff_exists.mp (valid.alive handle held)
  rw [resolve, resolve, found, frame.fewer handle cell found]

theorem Populated.dropHandle (populated : store.Populated) (valid : store.Valid)
    (handle : HandleRef) : (store.dropHandle handle).Populated := by
  have frame := dropHandle_frame store handle
  have bodies (ref : ObjectRef) := frame.bodyAt ref (Set.notMem_empty ref)
  refine ⟨?_, ?_⟩
  · intro ref body here
    rw [frame.mObjects]
    exact populated.owned ref body ((bodies ref).symm.trans here)
  · intro ref other lists
    have before : store.Lists ref other := by
      rw [Lists, ← bodies ref]
      exact lists
    rw [resolve_of_frame (valid.dropHandle handle) frame lists.isHeld]
    simp only [bodies]
    exact populated.listed ref other before

theorem OwnersHeld.dropHandle (owners : store.OwnersHeld) (handle : HandleRef) :
    (store.dropHandle handle).OwnersHeld := by
  have frame := dropHandle_frame store handle
  have bodies (ref : ObjectRef) := frame.bodyAt ref (Set.notMem_empty ref)
  unfold OwnersHeld
  rw [frame.mObjects]
  simp only [bodies]
  exact owners

section Adoption
variable {rt : Runtime} {table : CmpMsgsTable} {go : ObjectRef} {com : PObjHandle}
  {calls : List Call} {after : Store}

theorem addComponent_bodies (result : addComponent rt table store go com = .ok (after, calls)) :
    ∃ handle cmp_ptr mGameObj mComponents, com = .shared handle ∧
      store.resolve com = some cmp_ptr ∧ store.bodyAt cmp_ptr = some (.component mGameObj) ∧
      store.bodyAt go = some (.gameObject mComponents) ∧ go ≠ cmp_ptr ∧
      Relinked {cmp_ptr, go} store after ∧ after.bodyAt cmp_ptr = some (.component (.object go)) ∧
      after.bodyAt go = some (.gameObject (mComponents.insert classComponent com)) := by
  obtain ⟨handle, cell, cmp_ptr, mGameObj, mComponents, rfl, found, pointed, here, owner, rfl⟩ :=
    addComponent_ok result
  obtain ⟨first, adopted⟩ := setGameObject_relinked here (.object go)
  obtain ⟨second, filed⟩ := setComponent_relinked owner classComponent (.shared handle)
  have apart : go ≠ cmp_ptr := by
    rintro rfl
    rw [adopted] at owner
    cases owner
  refine ⟨handle, cmp_ptr, mGameObj, mComponents, rfl, ?_, here,
    (first.bodyAt go apart).symm.trans owner, apart, ?_,
    (second.bodyAt cmp_ptr apart.symm).trans adopted, filed⟩
  · rw [resolve, found]
    exact pointed
  · exact (first.mono (by simp)).trans (second.mono (by simp))

theorem Populated.addComponent (populated : store.Populated) (valid : after.Valid)
    (result : addComponent rt table store go com = .ok (after, calls)) : after.Populated := by
  obtain ⟨handle, cmp_ptr, mGameObj, mComponents, rfl, points, here, owner, apart, frame, adopted,
    filed⟩ := addComponent_bodies result
  have others {ref : ObjectRef} (notCmp : ref ≠ cmp_ptr) (notGo : ref ≠ go) :
      after.bodyAt ref = store.bodyAt ref := frame.bodyAt ref (by simp [notCmp, notGo])
  have component {ref : ObjectRef} {mGameObj' : GameObjectPtr}
      (known : store.bodyAt ref = some (.component mGameObj')) :
      ∃ mGameObj'', after.bodyAt ref = some (.component mGameObj'') := by
    by_cases atCmp : ref = cmp_ptr
    · exact ⟨_, atCmp ▸ adopted⟩
    · refine ⟨mGameObj', ?_⟩
      rw [others atCmp, known]
      rintro rfl
      rw [known] at owner
      cases owner
  refine ⟨frame.owned populated.owned, ?_⟩
  intro ref other lists
  rw [resolve_of_frame valid frame.toFrame lists.isHeld]
  obtain ⟨components, there, owns⟩ := lists
  have known : (∃ ref', store.Lists ref' other) ∨ other = handle := by
    by_cases atGo : ref = go
    · subst atGo
      obtain rfl : mComponents.insert classComponent (.shared handle) = components := by
        simpa [filed] using there
      obtain ⟨key, slot⟩ := mem_handles_iff.mp owns
      rcases lookup_insert_cases slot with ⟨-, same⟩ | ⟨-, before⟩
      · exact .inr (PObjHandle.shared.inj same)
      · exact .inl ⟨ref, mComponents, owner, mem_handles_iff.mpr ⟨key, before⟩⟩
    · by_cases atCmp : ref = cmp_ptr
      · subst atCmp
        rw [adopted] at there
        cases there
      · exact .inl ⟨ref, components, (others atCmp atGo).symm.trans there, owns⟩
  rcases known with ⟨ref', before⟩ | rfl
  · obtain ⟨target, mGameObj', aimed, known⟩ := populated.listed ref' other before
    obtain ⟨mGameObj'', still⟩ := component known
    exact ⟨target, mGameObj'', aimed, still⟩
  · exact ⟨cmp_ptr, _, points, adopted⟩

theorem OwnersHeld.addComponent (owners : store.OwnersHeld) (populated : store.Populated)
    (result : addComponent rt table store go com = .ok (after, calls)) : after.OwnersHeld := by
  obtain ⟨handle, cmp_ptr, mGameObj, mComponents, rfl, -, here, owner, apart, frame, adopted,
    filed⟩ := addComponent_bodies result
  have others {ref : ObjectRef} (notCmp : ref ≠ cmp_ptr) (notGo : ref ≠ go) :
      after.bodyAt ref = store.bodyAt ref := frame.bodyAt ref (by simp [notCmp, notGo])
  intro id entry mGameObj' found known
  rw [frame.mObjects] at found ⊢
  by_cases atCmp : entry.unique = cmp_ptr
  · rw [atCmp, adopted] at known
    cases known
    obtain ⟨id', entry', found', rfl⟩ := populated.owned go _ owner
    exact .inr ⟨id', entry', _, found', rfl, filed⟩
  · by_cases atGo : entry.unique = go
    · rw [atGo, filed] at known
      cases known
    · rw [others atCmp atGo] at known
      refine (owners id entry mGameObj' found known).imp_right ?_
      rintro ⟨id', entry', components, found', same, known'⟩
      by_cases target : entry'.unique = go
      · exact ⟨id', entry', _, found', same, target ▸ filed⟩
      · refine ⟨id', entry', components, found', same, (others ?_ target).trans known'⟩
        intro equal
        rw [equal, here] at known'
        cases known'

end Adoption

/-- Nobody outside holds the handle of the entry, and the `GameObject`s that list it have lost their
own handles and come earlier. -/
def Swept (store : Store) (order : List (Σ _ : Nat, ObjEntry)) (entry : Σ _ : Nat, ObjEntry) :
    Prop :=
  entry.2.handle ∉ store.held ∧ ∀ ref, store.Lists ref entry.2.handle →
    ∃ owner : Σ _ : Nat, ObjEntry, owner.2.unique = ref ∧ owner.2.handle ∉ store.held ∧
      [owner, entry].Sublist order

variable {first : Σ _ : Nat, ObjEntry} {rest : List (Σ _ : Nat, ObjEntry)}

theorem swept_first (sound : Sound true [] store)
    (found : store.mObjects.lookup first.1 = some first.2) (once : first ∉ rest) :
    store.Swept (first :: rest) first ↔ store.isDeleted first.2.unique = true := by
  rw [marked_iff sound found]
  refine and_congr_right fun _ => forall_congr' fun ref => ?_
  constructor
  · intro listers lists
    obtain ⟨owner, -, -, before⟩ := listers lists
    rcases List.cons_sublist_cons'.mp before with later | ⟨-, later⟩
    · exact once (later.subset (List.mem_cons_of_mem _ List.mem_cons_self))
    · exact once (later.subset List.mem_cons_self)
  · exact fun none lists => (none lists).elim

theorem swept_rest_kept (populated : store.Populated) (sound : Sound true [] store)
    (found : store.mObjects.lookup first.1 = some first.2)
    (kept : store.isDeleted first.2.unique = false) (entry : Σ _ : Nat, ObjEntry) :
    store.Swept (first :: rest) entry ↔ store.Swept rest entry := by
  refine and_congr_right fun _ => forall_congr' fun ref => imp_congr_right fun lists => ?_
  constructor
  · rintro ⟨owner, rfl, free, before⟩
    rcases List.cons_sublist_cons'.mp before with later | ⟨rfl, -⟩
    · exact ⟨owner, rfl, free, later⟩
    · -- nothing lists a `GameObject`, so a kept one has a handle outside
      obtain ⟨mComponents, known, -⟩ := lists
      rw [(marked_iff sound found).mpr
        ⟨free, populated.not_lists_gameObject sound found known⟩] at kept
      cases kept
  · rintro ⟨owner, same, free, before⟩
    exact ⟨owner, same, free, before.cons first⟩

theorem swept_rest_erased (sound : Sound true [] store)
    (found : store.mObjects.lookup first.1 = some first.2)
    (marked : store.isDeleted first.2.unique = true)
    {entry : Σ _ : Nat, ObjEntry} (member : entry ∈ rest) :
    store.Swept (first :: rest) entry ↔ (store.eraseEntry first.1 first.2).Swept rest entry := by
  rw [Swept, Swept, eraseEntry_held]
  refine and_congr_right fun _ => forall_congr' fun ref => ?_
  rw [eraseEntry_lists]
  constructor
  · rintro listers ⟨other, lists⟩
    obtain ⟨owner, rfl, free, before⟩ := listers lists
    rcases List.cons_sublist_cons'.mp before with later | ⟨rfl, -⟩
    · exact ⟨owner, rfl, free, later⟩
    · exact (other rfl).elim
  · intro listers lists
    by_cases other : ref = first.2.unique
    · exact ⟨first, other.symm, ((marked_iff sound found).mp marked).1,
        (List.singleton_sublist.mpr member).cons_cons first⟩
    · obtain ⟨owner, same, free, before⟩ := listers ⟨other, lists⟩
      exact ⟨owner, same, free, before.cons first⟩

theorem Populated.sweep {order : List (Σ _ : Nat, ObjEntry)} (populated : store.Populated)
    (sound : Sound true [] store) (distinct : (order.map Sigma.fst).Nodup)
    (registered : ∀ entry ∈ order, store.mObjects.lookup entry.1 = some entry.2) :
    (store.sweep order).Populated ∧ ∀ id entry,
      (store.sweep order).mObjects.lookup id = some entry ↔
        store.mObjects.lookup id = some entry ∧
          ¬ (⟨id, entry⟩ ∈ order ∧ store.Swept order ⟨id, entry⟩) := by
  induction order generalizing store with
  | nil => exact ⟨populated, fun id entry => by simp [Store.sweep]⟩
  | cons first rest ih =>
      rw [List.map_cons, List.nodup_cons] at distinct
      obtain ⟨once, distinct⟩ := distinct
      rw [List.forall_mem_cons] at registered
      obtain ⟨found, registered⟩ := registered
      have notLater : first ∉ rest := fun later => once (List.mem_map.mpr ⟨first, later, rfl⟩)
      rw [Store.sweep]
      cases marked : store.isDeleted first.2.unique with
      | false =>
          obtain ⟨swept, table⟩ := ih populated sound distinct registered
          refine ⟨swept, fun id entry => (table id entry).trans ?_⟩
          refine and_congr_right fun here => not_congr ?_
          rw [← swept_rest_kept populated sound found marked, List.mem_cons]
          constructor
          · rintro ⟨member, goes⟩
            exact ⟨.inr member, goes⟩
          · rintro ⟨rfl | member, goes⟩
            · rw [swept_first sound found notLater, marked] at goes
              cases goes
            · exact ⟨member, goes⟩
      | true =>
          have erased : ∀ entry ∈ rest,
              (store.eraseEntry first.1 first.2).mObjects.lookup entry.1 = some entry.2 := by
            intro entry member
            rw [eraseEntry_mObjects, AList.lookup_erase_ne, registered entry member]
            exact fun same => once (List.mem_map.mpr ⟨entry, member, same⟩)
          obtain ⟨swept, table⟩ := ih (populated.eraseEntry sound found marked)
            (sound.eraseEntry found marked) distinct erased
          refine ⟨swept, fun id entry => (table id entry).trans ?_⟩
          rw [eraseEntry_mObjects]
          by_cases same : id = first.1
          · subst same
            rw [AList.lookup_erase]
            refine iff_of_false (fun here => by cases here.1) ?_
            rintro ⟨here, stays⟩
            obtain rfl := Option.some.inj (here.symm.trans found)
            exact stays ⟨List.mem_cons_self, (swept_first sound found notLater).mpr marked⟩
          · have apart : (⟨id, entry⟩ : Σ _ : Nat, ObjEntry) ≠ first := fun equal =>
              same (congrArg Sigma.fst equal)
            rw [AList.lookup_erase_ne same, List.mem_cons, or_iff_right apart]
            refine and_congr_right fun _ => not_congr (and_congr_right fun member => ?_)
            exact (swept_rest_erased sound found marked member).symm

theorem sweep_bodyAt {order : List (Σ _ : Nat, ObjEntry)} {ref : ObjectRef} {body : Body}
    (here : (store.sweep order).bodyAt ref = some body) : store.bodyAt ref = some body := by
  induction order generalizing store with
  | nil => exact here
  | cons first rest ih =>
      rw [Store.sweep] at here
      split at here
      · have before := ih here
        rw [eraseEntry_bodyAt] at before
        split at before
        · cases before
        · exact before
      · exact ih here

theorem sweep_nextHandle (order : List (Σ _ : Nat, ObjEntry)) (store : Store) :
    (store.sweep order).nextHandle = store.nextHandle := by
  induction order generalizing store with
  | nil => rfl
  | cons first rest ih =>
      rw [Store.sweep]
      split
      · exact (ih _).trans (destroyObject_keeps _ _).2.2
      · exact ih store

theorem sweep_fewer {order : List (Σ _ : Nat, ObjEntry)} {cell : ObjHandle}
    (found : (store.sweep order).handles.lookup handle = some cell) :
    store.handles.lookup handle = some cell := by
  induction order generalizing store with
  | nil => exact found
  | cons first rest ih =>
      rw [Store.sweep] at found
      split at found
      · exact eraseEntry_fewer (ih found)
      · exact ih found

theorem objectOrder_nodup (rt : Runtime) (store : Store) :
    ((rt.objectOrder store.mObjects).map Sigma.fst).Nodup :=
  ((rt.objectOrder_perm store.mObjects).map Sigma.fst).nodup_iff.mpr store.mObjects.nodupKeys

theorem mem_objectOrder {rt : Runtime} {id : Nat} {entry : ObjEntry} :
    ⟨id, entry⟩ ∈ rt.objectOrder store.mObjects ↔ store.mObjects.lookup id = some entry :=
  (rt.objectOrder_perm store.mObjects).mem_iff.trans AList.mem_lookup_iff.symm

theorem sweep_held (order : List (Σ _ : Nat, ObjEntry)) (store : Store) :
    (store.sweep order).held = store.held := by
  induction order generalizing store with
  | nil => rfl
  | cons first rest ih =>
      rw [Store.sweep]
      split
      · exact (ih _).trans (eraseEntry_held first.1 first.2)
      · exact ih store

section Release
variable {id : Nat} {entry : ObjEntry}

theorem Populated.release (populated : store.Populated) (sound : Sound true [] store)
    (rt : Runtime) : (store.releaseUnusedObjects rt).Populated :=
  (populated.sweep sound (objectOrder_nodup rt store) fun _ member => mem_objectOrder.mp member).1

theorem Populated.release_lookup (populated : store.Populated) (sound : Sound true [] store)
    (rt : Runtime) (id : Nat) (entry : ObjEntry) :
    (store.releaseUnusedObjects rt).mObjects.lookup id = some entry ↔
      store.mObjects.lookup id = some entry ∧
        ¬ store.Swept (rt.objectOrder store.mObjects) ⟨id, entry⟩ := by
  have swept := (populated.sweep sound (objectOrder_nodup rt store)
    fun _ member => mem_objectOrder.mp member).2 id entry
  rw [mem_objectOrder] at swept
  refine swept.trans (and_congr_right fun here => ?_)
  rw [and_iff_right here]

theorem release_bodyAt (sound : Sound true [] store) (rt : Runtime)
    (found : (store.releaseUnusedObjects rt).mObjects.lookup id = some entry) :
    (store.releaseUnusedObjects rt).bodyAt entry.unique = store.bodyAt entry.unique := by
  have carried := ((sound.releaseUnusedObjects rt).keyed id entry found).2.2
  obtain ⟨object, here, -⟩ := Option.map_eq_some_iff.mp carried
  have known : (store.releaseUnusedObjects rt).bodyAt entry.unique = some object.body := by
    rw [bodyAt, here, Option.map_some]
  rw [known, sweep_bodyAt known]

theorem Populated.gameObject_swept (populated : store.Populated) (sound : Sound true [] store)
    (order : List (Σ _ : Nat, ObjEntry)) (found : store.mObjects.lookup id = some entry)
    {mComponents : ComponentMap}
    (known : store.bodyAt entry.unique = some (.gameObject mComponents)) :
    store.Swept order ⟨id, entry⟩ ↔ store.isDeleted entry.unique = true := by
  have unlisted := populated.not_lists_gameObject sound found known
  rw [marked_iff sound found]
  exact and_congr_right fun _ => iff_of_true (fun ref lists => (unlisted ref lists).elim) unlisted

end Release

/-- A component whose owner is marked goes in the same sweep. -/
def OwnersOutlive (rt : Runtime) (store : Store) : Prop :=
  ∀ id entry owner, store.mObjects.lookup id = some entry →
    store.bodyAt entry.unique = some (.component (.object owner)) →
    store.isDeleted owner = true → store.Swept (rt.objectOrder store.mObjects) ⟨id, entry⟩

end Store

end PackagedTask.Objects
