import PackagedTask.Objects.Frame

namespace PackagedTask.Objects.Store
open Library

/-! Handles and deletion marks agree, one operation at a time. -/

/-- `managed` says whether the manager still lives; `pending` are references of an object under
destruction that have not been released yet. -/
structure Sound (managed : Bool) (pending : List PObjHandle) (store : Store) : Prop
    extends Valid store where
  points : ∀ handle cell, store.handles.lookup handle = some cell →
    (managed = false ∧ cell.m_ptr = none) ∨ ∃ id entry, store.mObjects.lookup id = some entry ∧
      cell.m_ptr = some entry.unique ∧ entry.handle = handle
  emptied : managed = false → store.mObjects = ∅
  entryHandles : ∀ id id' entry entry', store.mObjects.lookup id = some entry →
    store.mObjects.lookup id' = some entry' → entry.handle = entry'.handle → id = id'
  entriesFresh : ∀ id entry, store.mObjects.lookup id = some entry →
    entry.handle < store.nextHandle
  deleted : ∀ id entry, store.mObjects.lookup id = some entry →
    (store.isDeleted entry.unique = true ↔ store.handles.lookup entry.handle = none)
  counted : ∀ handle cell, store.handles.lookup handle = some cell →
    store.isHeld handle = true ∨ .shared handle ∈ pending

variable {managed : Bool} {store : Store} {pending : List PObjHandle} {handle : HandleRef}

theorem Sound.held {cell : ObjHandle} (sound : Sound managed [] store)
    (found : store.handles.lookup handle = some cell) : store.isHeld handle = true :=
  (sound.counted handle cell found).resolve_right List.not_mem_nil

theorem isDeleted_deleteTarget (m_ptr : Option ObjectRef) (ref : ObjectRef)
    (other : m_ptr ≠ some ref) : (store.deleteTarget m_ptr).isDeleted ref = store.isDeleted ref := by
  rw [isDeleted, deleteTarget_lookup, isDeleted]
  simp [other]

theorem isDeleted_deleteTarget_self {ref : ObjectRef} {id : Nat}
    (present : store.idAt ref = some id) : (store.deleteTarget (some ref)).isDeleted ref = true := by
  obtain ⟨object, found, -⟩ := Option.map_eq_some_iff.mp present
  rw [isDeleted, deleteTarget_lookup, found]
  simp [Object.deleteObj]

theorem Sound.free {cell : ObjHandle} (sound : Sound managed (.shared handle :: pending) store)
    (found : store.handles.lookup handle = some cell)
    (freed : store.releaseHandle handle =
      { store with handles := store.handles.erase handle }.deleteTarget cell.m_ptr) :
    Sound managed pending (store.releaseHandle handle) := by
  have valid : (store.releaseHandle handle).Valid := by
    apply sound.toValid.of_frame (releaseHandle_frame store handle)
    intro other count
    rw [releaseHandle_isHeld] at count
    rw [releaseHandle_alive _ _ _ count]
    exact sound.alive other count
  have count_eq := releaseHandle_isHeld store handle
  have lookup_eq (other : HandleRef) (cell' : ObjHandle)
      (found' : (store.releaseHandle handle).handles.lookup other = some cell') :
      other ≠ handle ∧ store.handles.lookup other = some cell' := by
    rw [freed, deleteTarget_eq] at found'
    exact lookup_of_erase found'
  have objects_eq : (store.releaseHandle handle).mObjects = store.mObjects :=
    (releaseHandle_frame store handle).mObjects
  refine ⟨valid, ?_, ?_, ?_, ?_, ?_, ?_⟩
  · intro other cell' found'
    rw [objects_eq]
    exact sound.points other cell' (lookup_eq other cell' found').2
  · rw [objects_eq]
    exact sound.emptied
  · rw [objects_eq]
    exact sound.entryHandles
  · rw [objects_eq, (releaseHandle_frame store handle).nextHandle]
    exact sound.entriesFresh
  · rw [objects_eq]
    intro id entry registered
    rcases sound.points handle cell found with
      ⟨destroyed, -⟩ | ⟨id₀, entry₀, registered₀, pointed, same₀⟩
    · rw [sound.emptied destroyed, AList.lookup_empty] at registered
      cases registered
    rw [freed, pointed]
    have erased_eq : ({ store with handles := store.handles.erase handle }.deleteTarget
        (some entry₀.unique)).handles = store.handles.erase handle := by
      rw [deleteTarget_eq]
    rw [erased_eq]
    -- only the entry of the dead handle loses its handle, and only its object is marked
    by_cases same : id = id₀
    · subst same
      obtain rfl := Option.some.inj (registered.symm.trans registered₀)
      rw [same₀, AList.lookup_erase]
      have carried := (sound.keyed id entry registered).2.2
      simp only [iff_true]
      exact isDeleted_deleteTarget_self carried
    · have apart : some entry₀.unique ≠ some entry.unique := fun equal =>
        same (sound.toValid.unique_injective registered registered₀ (Option.some.inj equal).symm)
      have other : entry.handle ≠ handle := fun equal =>
        same (sound.entryHandles id id₀ entry entry₀ registered registered₀ (equal.trans same₀.symm))
      rw [isDeleted_deleteTarget _ _ apart, AList.lookup_erase_ne other]
      exact sound.deleted id entry registered
  · intro other cell' found'
    obtain ⟨different, before⟩ := lookup_eq other cell' found'
    rw [count_eq]
    rcases sound.counted other cell' before with held | waiting
    · exact .inl held
    · rcases List.mem_cons.mp waiting with same | later
      · exact absurd (PObjHandle.shared.inj same) different
      · exact .inr later

theorem Sound.releaseHandle (sound : Sound managed (.shared handle :: pending) store) :
    Sound managed pending (store.releaseHandle handle) := by
  rcases releaseHandle_cases store handle with ⟨same, settled⟩ | ⟨-, cell, found, freed⟩
  · rw [same]
    refine { sound with counted := fun other cell found => ?_ }
    rcases sound.counted other cell found with held | waiting
    · exact .inl held
    · rcases List.mem_cons.mp waiting with equal | later
      · obtain rfl := PObjHandle.shared.inj equal
        rcases settled with held | dead
        · exact .inl held
        · rw [dead] at found
          cases found
      · exact .inr later
  · exact sound.free found freed

theorem Sound.release {ptr : PObjHandle} (sound : Sound managed (ptr :: pending) store) :
    Sound managed pending (store.release ptr) := by
  have skip (other : ∀ handle, ptr ≠ .shared handle) : Sound managed pending store :=
    { sound with
      counted := fun handle cell found =>
        (sound.counted handle cell found).imp_right fun waiting =>
          (List.mem_cons.mp waiting).resolve_left fun same => other handle same.symm }
  cases ptr with
  | shared handle => exact sound.releaseHandle
  | null => exact skip (fun _ same => by cases same)
  | placeholder m_link_key => exact skip (fun _ same => by cases same)

theorem Sound.releaseAll (sound : Sound managed pending store) :
    Sound managed [] (pending.foldl Store.release store) := by
  induction pending generalizing store with
  | nil => exact sound
  | cons ptr pending ih => exact ih sound.release

theorem releaseAll_frame (pending : List PObjHandle) (store : Store) :
    Frame ∅ store (pending.foldl release store) := by
  induction pending generalizing store with
  | nil => exact .refl _ _
  | cons ptr pending ih => exact (release_frame store ptr).trans (ih _)

theorem Sound.dropHandle (sound : Sound managed [] store) (handle : HandleRef) :
    Sound managed [] (store.dropHandle handle) := by
  have dropped : Sound managed [.shared handle] { store with held := store.held.erase handle } :=
    { sound with
      alive := fun other count => sound.alive other (isHeld_of_dropped store handle other count)
      counted := by
        intro other cell found
        by_cases same : other = handle
        · exact .inr (List.mem_singleton.mpr (congrArg _ same))
        · have count := sound.held found
          rw [isHeld_iff] at count ⊢
          exact .inl (count.imp_left fun member => (List.mem_erase_of_ne same).mpr member) }
  exact dropped.releaseHandle

theorem Sound.hold (sound : Sound managed [] store) {cell : ObjHandle}
    (found : store.handles.lookup handle = some cell) :
    Sound managed [] { store with held := handle :: store.held } :=
  { sound with
    alive := by
      intro other count
      rw [isHeld_iff] at count
      rcases count with member | owns
      · rcases List.mem_cons.mp member with rfl | before
        · exact Option.isSome_of_eq_some found
        · exact sound.alive other (isHeld_iff.mpr (.inl before))
      · exact sound.alive other (isHeld_iff.mpr (.inr owns))
    counted := by
      intro other cell' found'
      have count := sound.held found'
      rw [isHeld_iff] at count ⊢
      exact .inl (count.imp_left fun member => List.mem_cons_of_mem _ member) }

theorem bodyAt_insert (store : Store) (ref other : ObjectRef) (object : Object) :
    ({ store with objects := store.objects.insert ref object } : Store).bodyAt other =
      if other = ref then some object.body else store.bodyAt other := by
  simp only [bodyAt]
  by_cases same : other = ref
  · rw [same, AList.lookup_insert, if_pos rfl, Option.map_some]
  · rw [AList.lookup_insert_ne same, if_neg same]

theorem bodyAt_of_erase {ref other : ObjectRef} {body : Body}
    (found : ({ store with objects := store.objects.erase ref } : Store).bodyAt other = some body) :
    other ≠ ref ∧ store.bodyAt other = some body := by
  obtain ⟨object, remains, rfl⟩ := Option.map_eq_some_iff.mp found
  obtain ⟨different, before⟩ := lookup_of_erase remains
  exact ⟨different, Option.map_eq_some_iff.mpr ⟨object, before, rfl⟩⟩

theorem withNewObject_bodyAt (store : Store) (ob : Object) (ref : ObjectRef) :
    (store.withNewObject ob).bodyAt ref =
      if ref = store.nextObject then some ob.body else store.bodyAt ref :=
  bodyAt_insert store store.nextObject ref { ob with mInstanceId := store.mNextAvailableID }

/-- What a caller may hand to `registerObj`: an object that nobody has marked, whose references are
handles and objects of this store. -/
structure Registrable (store : Store) (ob : Object) : Prop where
  unmarked : ob.is_del_it = false
  shares : ∀ handle, .shared handle ∈ ob.body.handles → store.isHeld handle = true
  owner : ∀ ref, ob.body = .component (.object ref) → ref < store.nextObject

theorem Valid.vacant (valid : store.Valid) :
    store.mObjects.lookup store.mNextAvailableID = none := by
  cases found : store.mObjects.lookup store.mNextAvailableID with
  | none => rfl
  | some entry => exact absurd (valid.keyed _ entry found).2.1 (lt_irrefl _)

theorem Valid.registerObj_eq (valid : store.Valid) (ob : Object) :
    store.registerObj ob = store.withNewObject ob := by
  rw [Store.registerObj, valid.vacant]

theorem withNewObject_entry {ob : Object} {id : Nat} {entry : ObjEntry}
    (found : (store.withNewObject ob).mObjects.lookup id = some entry) :
    (id = store.mNextAvailableID ∧ entry = ⟨store.nextObject, store.nextHandle⟩) ∨
      (id ≠ store.mNextAvailableID ∧ store.mObjects.lookup id = some entry) :=
  lookup_insert_cases found

theorem withNewObject_handle {ob : Object} {cell : ObjHandle}
    (found : (store.withNewObject ob).handles.lookup handle = some cell) :
    (handle = store.nextHandle ∧ cell = ⟨some store.nextObject, 0⟩) ∨
      (handle ≠ store.nextHandle ∧ store.handles.lookup handle = some cell) :=
  lookup_insert_cases found

theorem withNewObject_isHeld (valid : store.Valid) {ob : Object} (ready : Registrable store ob) :
    (store.withNewObject ob).isHeld handle = true ↔
      handle = store.nextHandle ∨ store.isHeld handle = true := by
  have vacant : store.bodyAt store.nextObject = none := by
    cases found : store.bodyAt store.nextObject with
    | none => rfl
    | some body => exact absurd (valid.objectsFresh _ body found) (lt_irrefl _)
  rw [isHeld_iff]
  constructor
  · rintro (member | ⟨ref, body, found, owns⟩)
    · rcases List.mem_cons.mp member with new | before
      · exact .inl new
      · exact .inr (isHeld_iff.mpr (.inl before))
    · rw [withNewObject_bodyAt] at found
      split at found
      · cases found
        exact .inr (ready.shares handle owns)
      · exact .inr (isHeld_iff.mpr (.inr ⟨ref, body, found, owns⟩))
  · rintro (rfl | count)
    · exact .inl List.mem_cons_self
    · rcases isHeld_iff.mp count with member | ⟨ref, body, found, owns⟩
      · exact .inl (List.mem_cons_of_mem _ member)
      · refine .inr ⟨ref, body, ?_, owns⟩
        rw [withNewObject_bodyAt, if_neg, found]
        rintro rfl
        rw [vacant] at found
        cases found

theorem withNewObject_newObject (store : Store) (ob : Object) :
    (store.withNewObject ob).objects.lookup store.nextObject =
      some { ob with mInstanceId := store.mNextAvailableID } := AList.lookup_insert _

theorem withNewObject_newHandle (store : Store) (ob : Object) :
    (store.withNewObject ob).handles.lookup store.nextHandle = some ⟨some store.nextObject, 0⟩ :=
  AList.lookup_insert _

theorem withNewObject_newEntry (store : Store) (ob : Object) :
    (store.withNewObject ob).mObjects.lookup store.mNextAvailableID =
      some ⟨store.nextObject, store.nextHandle⟩ := AList.lookup_insert _

theorem withNewObject_oldObject (ob : Object) {ref : ObjectRef} (old : ref < store.nextObject) :
    (store.withNewObject ob).objects.lookup ref = store.objects.lookup ref :=
  AList.lookup_insert_ne (Nat.ne_of_lt old)

theorem withNewObject_oldHandle (ob : Object) (old : handle < store.nextHandle) :
    (store.withNewObject ob).handles.lookup handle = store.handles.lookup handle :=
  AList.lookup_insert_ne (Nat.ne_of_lt old)

theorem Valid.withNewObject_oldEntry (valid : store.Valid) (ob : Object) {id : Nat}
    {entry : ObjEntry} (found : store.mObjects.lookup id = some entry) :
    (store.withNewObject ob).mObjects.lookup id = some entry := by
  rw [← found]
  exact AList.lookup_insert_ne (Nat.ne_of_lt (valid.keyed id entry found).2.1)

theorem Valid.withNewObject_owned (valid : store.Valid) (ob : Object)
    (owned : ∀ ref body, store.bodyAt ref = some body →
      ∃ id entry, store.mObjects.lookup id = some entry ∧ entry.unique = ref)
    (ref : ObjectRef) (body : Body) (here : (store.withNewObject ob).bodyAt ref = some body) :
    ∃ id entry, (store.withNewObject ob).mObjects.lookup id = some entry ∧ entry.unique = ref := by
  rw [withNewObject_bodyAt] at here
  split at here
  · rename_i new
    exact ⟨_, _, withNewObject_newEntry store ob, new.symm⟩
  · obtain ⟨id, entry, found, same⟩ := owned ref body here
    exact ⟨id, entry, valid.withNewObject_oldEntry ob found, same⟩

theorem Valid.withNewObject (valid : store.Valid) {ob : Object} (ready : Registrable store ob)
    (room : store.mNextAvailableID < 2 ^ 32 - 1) : (store.withNewObject ob).Valid := by
  -- below `UINT32_MAX` the increment of the counter does not wrap
  have counter : (store.withNewObject ob).mNextAvailableID = store.mNextAvailableID + 1 :=
    Nat.mod_eq_of_lt (by omega)
  constructor
  case keyed =>
    intro id entry found
    rw [counter]
    rcases withNewObject_entry found with ⟨rfl, rfl⟩ | ⟨-, before⟩
    · refine ⟨valid.positive, Nat.lt_succ_self _, ?_⟩
      rw [idAt, withNewObject_newObject]
      rfl
    · obtain ⟨positive, below, carried⟩ := valid.keyed id entry before
      refine ⟨positive, by omega, ?_⟩
      rw [idAt, withNewObject_oldObject ob (valid.unique_lt before)]
      exact carried
  case positive =>
    rw [counter]
    exact Nat.succ_pos _
  case narrow =>
    rw [counter]
    omega
  case objectsFresh =>
    intro ref body found
    rw [withNewObject_bodyAt] at found
    show ref < store.nextObject + 1
    split at found
    · lia
    · have bound := valid.objectsFresh ref body found
      lia
  case ownersFresh =>
    intro ref owner found
    rw [withNewObject_bodyAt] at found
    show owner < store.nextObject + 1
    split at found
    · have bound := ready.owner owner (Option.some.inj found)
      lia
    · have bound := valid.ownersFresh ref owner found
      lia
  case handlesFresh =>
    intro other cell found
    show other < store.nextHandle + 1
    rcases withNewObject_handle found with ⟨rfl, -⟩ | ⟨-, before⟩
    · exact Nat.lt_succ_self _
    · exact Nat.lt_succ_of_lt (valid.handlesFresh other cell before)
  case alive =>
    intro other count
    rcases (withNewObject_isHeld valid ready).mp count with rfl | before
    · rw [withNewObject_newHandle]
      rfl
    · rw [withNewObject_oldHandle ob (valid.held_lt before)]
      exact valid.alive other before

theorem Sound.withNewObject (sound : Sound true [] store) {ob : Object} (ready : Registrable store ob)
    (room : store.mNextAvailableID < 2 ^ 32 - 1) : Sound true [] (store.withNewObject ob) := by
  constructor
  case toValid => exact sound.toValid.withNewObject ready room
  case points =>
    intro other cell found
    rcases withNewObject_handle found with ⟨rfl, rfl⟩ | ⟨-, before⟩
    · exact .inr ⟨_, _, withNewObject_newEntry store ob, rfl, rfl⟩
    · rcases sound.points other cell before with
        ⟨destroyed, -⟩ | ⟨id, entry, registered, pointed, same⟩
      · cases destroyed
      · exact .inr ⟨id, entry, sound.toValid.withNewObject_oldEntry ob registered, pointed, same⟩
  case emptied =>
    intro destroyed
    cases destroyed
  case entryHandles =>
    intro id id' entry entry' found found' same
    rcases withNewObject_entry found with ⟨rfl, rfl⟩ | ⟨-, before⟩
    · rcases withNewObject_entry found' with ⟨rfl, -⟩ | ⟨-, before'⟩
      · rfl
      · exact absurd same.symm (Nat.ne_of_lt (sound.entriesFresh id' entry' before'))
    · rcases withNewObject_entry found' with ⟨rfl, rfl⟩ | ⟨-, before'⟩
      · exact absurd same (Nat.ne_of_lt (sound.entriesFresh id entry before))
      · exact sound.entryHandles id id' entry entry' before before' same
  case entriesFresh =>
    intro id entry found
    show entry.handle < store.nextHandle + 1
    rcases withNewObject_entry found with ⟨-, rfl⟩ | ⟨-, before⟩
    · exact Nat.lt_succ_self _
    · exact Nat.lt_succ_of_lt (sound.entriesFresh id entry before)
  case deleted =>
    intro id entry found
    rcases withNewObject_entry found with ⟨-, rfl⟩ | ⟨-, before⟩
    · rw [isDeleted, withNewObject_newObject, withNewObject_newHandle]
      simp [ready.unmarked]
    · rw [isDeleted, withNewObject_oldObject ob (sound.toValid.unique_lt before),
        withNewObject_oldHandle ob (sound.entriesFresh id entry before)]
      exact sound.deleted id entry before
  case counted =>
    intro other cell found
    rw [withNewObject_isHeld sound.toValid ready]
    rcases withNewObject_handle found with ⟨new, -⟩ | ⟨-, before⟩
    · exact .inl (.inl new)
    · exact .inl (.inr (sound.held before))

theorem Sound.replaceObject {ref : ObjectRef} {object : Object} (object' : Object)
    (sound : Sound managed [] store) (here : store.objects.lookup ref = some object)
    (sameId : object'.mInstanceId = object.mInstanceId)
    (sameMark : object'.is_del_it = object.is_del_it)
    (shares : ∀ handle, .shared handle ∈ object'.body.handles → store.isHeld handle = true)
    (owner : ∀ target, object'.body = .component (.object target) → target < store.nextObject)
    (lost : ∀ handle, .shared handle ∈ object.body.handles →
      .shared handle ∈ object'.body.handles ∨ .shared handle ∈ pending) :
    Sound managed pending { store with objects := store.objects.insert ref object' } := by
  have bodies (other : ObjectRef) (body : Body)
      (found : ({ store with objects := store.objects.insert ref object' } : Store).bodyAt other =
        some body) :
      (other = ref ∧ body = object'.body) ∨ (other ≠ ref ∧ store.bodyAt other = some body) := by
    rw [bodyAt_insert] at found
    split at found
    · exact .inl ⟨‹_›, (Option.some.inj found).symm⟩
    · exact .inr ⟨‹_›, found⟩
  -- assignment gives no handle its first owner
  have count (handle : HandleRef)
      (held : ({ store with objects := store.objects.insert ref object' } : Store).isHeld handle =
        true) : store.isHeld handle = true := by
    rcases isHeld_iff.mp held with member | ⟨other, body, found, owns⟩
    · exact isHeld_iff.mpr (.inl member)
    · rcases bodies other body found with ⟨-, rfl⟩ | ⟨-, before⟩
      · exact shares handle owns
      · exact isHeld_iff.mpr (.inr ⟨other, body, before, owns⟩)
  have known : store.bodyAt ref = some object.body := by rw [bodyAt, here]; rfl
  refine ⟨⟨?_, sound.positive, sound.narrow, ?_, ?_, sound.handlesFresh, ?_⟩, sound.points,
    sound.emptied, sound.entryHandles, sound.entriesFresh, ?_, ?_⟩
  · intro id entry found
    obtain ⟨positive, below, carried⟩ := sound.keyed id entry found
    refine ⟨positive, below, ?_⟩
    rw [idAt]
    by_cases same : entry.unique = ref
    · rw [idAt, same, here] at carried
      rw [same, AList.lookup_insert, Option.map_some, sameId]
      exact carried
    · rw [AList.lookup_insert_ne same]
      exact carried
  · intro other body found
    rcases bodies other body found with ⟨rfl, -⟩ | ⟨-, before⟩
    · exact sound.objectsFresh other _ known
    · exact sound.objectsFresh other body before
  · intro other target found
    rcases bodies other _ found with ⟨-, same⟩ | ⟨-, before⟩
    · exact owner target same.symm
    · exact sound.ownersFresh other target before
  · intro handle held
    exact sound.alive handle (count handle held)
  · intro id entry found
    rw [← sound.deleted id entry found, isDeleted, isDeleted]
    by_cases same : entry.unique = ref
    · rw [same, AList.lookup_insert, here, Option.map_some, Option.map_some, sameMark]
    · rw [AList.lookup_insert_ne same]
  · intro handle cell found
    have before := sound.held found
    have keep (other : ObjectRef) {body : Body} (owns : .shared handle ∈ body.handles)
        (there : ({ store with objects := store.objects.insert ref object' } : Store).bodyAt
          other = some body) :
        ({ store with objects := store.objects.insert ref object' } : Store).isHeld handle =
          true := isHeld_iff.mpr (.inr ⟨other, body, there, owns⟩)
    rcases isHeld_iff.mp before with member | ⟨other, body, there, owns⟩
    · exact .inl (isHeld_iff.mpr (.inl member))
    · by_cases same : other = ref
      · obtain rfl : object.body = body := Option.some.inj (known.symm.trans (same ▸ there))
        rcases lost handle owns with stays | waits
        · refine .inl (keep ref stays ?_)
          rw [bodyAt_insert, if_pos rfl]
        · exact .inr waits
      · refine .inl (keep other owns ?_)
        rw [bodyAt_insert, if_neg same, there]

theorem Sound.setGameObject {ref go : ObjectRef} {mGameObj : GameObjectPtr}
    (sound : Sound managed [] store) (here : store.bodyAt ref = some (.component mGameObj))
    (present : go < store.nextObject) : Sound managed [] (store.setGameObject ref (.object go)) := by
  obtain ⟨object, found, kind⟩ := Option.map_eq_some_iff.mp here
  rw [Store.setGameObject, modifyObject, found]
  apply sound.replaceObject { object with body := .component (.object go) } found rfl rfl
  · intro handle owns
    cases owns
  · intro target same
    cases same
    exact present
  · intro handle owns
    rw [kind] at owns
    cases owns

theorem Sound.assignComponent {ref : ObjectRef} {mComponents : ComponentMap} {ptr : PObjHandle}
    (sound : Sound managed [] store) (here : store.bodyAt ref = some (.gameObject mComponents))
    (key : Int) (counted : ∀ handle, ptr = .shared handle → store.isHeld handle = true) :
    Sound managed [] (store.setComponent ref key ptr) := by
  obtain ⟨⟨mInstanceId, is_del_it, body⟩, found, rfl⟩ := Option.map_eq_some_iff.mp here
  have assigned (pending : List PObjHandle)
      (covers : ∀ replaced, mComponents.lookup key = some replaced → replaced ∈ pending) :
      Sound managed pending { store with objects := (store.objects.insert ref
        ⟨mInstanceId, is_del_it, .gameObject (mComponents.insert key ptr)⟩) } := by
    apply sound.replaceObject
      ⟨mInstanceId, is_del_it, .gameObject (mComponents.insert key ptr)⟩ found rfl rfl
    · intro other owns
      obtain ⟨key', there⟩ := mem_handles_iff.mp owns
      rcases lookup_insert_cases there with ⟨-, same⟩ | ⟨-, before⟩
      · exact counted other same.symm
      · exact isHeld_iff.mpr (.inr ⟨ref, _, here, mem_handles_iff.mpr ⟨key', before⟩⟩)
    · intro target same
      cases same
    · intro other owns
      obtain ⟨key', there⟩ := mem_handles_iff.mp owns
      by_cases same : key' = key
      · exact .inr (covers _ (same ▸ there))
      · refine .inl (mem_handles_iff.mpr ⟨key', ?_⟩)
        rw [AList.lookup_insert_ne same, there]
  rw [Store.setComponent, found]
  simp only
  -- the replaced handle still counts until the assignment releases it
  cases replaced : mComponents.lookup key with
  | none =>
      apply assigned []
      intro old same
      rw [replaced] at same
      cases same
  | some old =>
      apply Sound.release
      apply assigned [old]
      intro old' same
      rw [replaced] at same
      exact List.mem_singleton.mpr (Option.some.inj same).symm

theorem Sound.setComponent {ref : ObjectRef} {mComponents : ComponentMap}
    (sound : Sound managed [] store) (here : store.bodyAt ref = some (.gameObject mComponents))
    (key : Int) (counted : store.isHeld handle = true) :
    Sound managed [] (store.setComponent ref key (.shared handle)) :=
  sound.assignComponent here key fun _ same => PObjHandle.shared.inj same ▸ counted

theorem Sound.destroyObject {ref : ObjectRef} (sound : Sound managed [] store)
    (gone : ∀ id entry, store.mObjects.lookup id = some entry → entry.unique ≠ ref) :
    Sound managed [] (store.destroyObject ref) := by
  unfold Store.destroyObject
  cases here : store.objects.lookup ref with
  | none => exact sound
  | some object =>
      apply Sound.releaseAll
      refine ⟨⟨?_, sound.positive, sound.narrow, ?_, ?_, sound.handlesFresh, ?_⟩, sound.points,
        sound.emptied, sound.entryHandles, sound.entriesFresh, ?_, ?_⟩
      · intro id entry found
        rw [idAt, AList.lookup_erase_ne (gone id entry found)]
        exact sound.keyed id entry found
      · intro other body found
        exact sound.objectsFresh other body (bodyAt_of_erase found).2
      · intro other target found
        exact sound.ownersFresh other target (bodyAt_of_erase found).2
      · intro handle held
        apply sound.alive
        rcases isHeld_iff.mp held with member | ⟨other, body, found, owns⟩
        · exact isHeld_iff.mpr (.inl member)
        · exact isHeld_iff.mpr (.inr ⟨other, body, (bodyAt_of_erase found).2, owns⟩)
      · intro id entry found
        rw [isDeleted, AList.lookup_erase_ne (gone id entry found)]
        exact sound.deleted id entry found
      · intro handle cell found
        have before := sound.held found
        rcases isHeld_iff.mp before with member | ⟨other, body, there, owns⟩
        · exact .inl (isHeld_iff.mpr (.inl member))
        · by_cases same : other = ref
          · rw [same, bodyAt, here] at there
            obtain rfl := Option.some.inj there
            exact .inr owns
          · refine .inl (isHeld_iff.mpr (.inr ⟨other, body, ?_, owns⟩))
            rw [bodyAt, AList.lookup_erase_ne same]
            exact there

theorem destroyObject_keeps (store : Store) (ref : ObjectRef) :
    (store.destroyObject ref).mObjects = store.mObjects ∧
      (store.destroyObject ref).nextObject = store.nextObject ∧
      (store.destroyObject ref).nextHandle = store.nextHandle := by
  unfold Store.destroyObject
  cases store.objects.lookup ref with
  | none => exact ⟨rfl, rfl, rfl⟩
  | some object =>
      have frame := releaseAll_frame object.body.handles
        { store with objects := store.objects.erase ref }
      exact ⟨frame.mObjects, frame.nextObject, frame.nextHandle⟩

theorem destroyObject_mObjects (store : Store) (ref : ObjectRef) :
    (store.destroyObject ref).mObjects = store.mObjects := (destroyObject_keeps store ref).1

theorem Sound.eraseEntry {id : Nat} {entry : ObjEntry} (sound : Sound true [] store)
    (found : store.mObjects.lookup id = some entry)
    (marked : store.isDeleted entry.unique = true) : Sound true [] (store.eraseEntry id entry) := by
  -- a marked object has lost its handle, so no cell points to the entry that goes
  have dead := (sound.deleted id entry found).mp marked
  apply Sound.destroyObject
  · refine { sound with
      keyed := fun other entry' found' => sound.keyed other entry' (lookup_of_erase found').2
      points := ?_
      emptied := fun destroyed => by cases destroyed
      entryHandles := fun first second entry₁ entry₂ found₁ found₂ =>
        sound.entryHandles first second entry₁ entry₂ (lookup_of_erase found₁).2
          (lookup_of_erase found₂).2
      entriesFresh := fun other entry' found' =>
        sound.entriesFresh other entry' (lookup_of_erase found').2
      deleted := fun other entry' found' =>
        sound.deleted other entry' (lookup_of_erase found').2 }
    intro handle cell alive
    rcases sound.points handle cell alive with ⟨destroyed, -⟩ | ⟨id', entry', registered, pointed, same⟩
    · cases destroyed
    · refine .inr ⟨id', entry', ?_, pointed, same⟩
      rw [AList.lookup_erase_ne, registered]
      rintro rfl
      obtain rfl := Option.some.inj (registered.symm.trans found)
      rw [same, alive] at dead
      cases dead
  · intro other entry' found' same
    obtain ⟨different, before⟩ := lookup_of_erase found'
    exact different (sound.toValid.unique_injective before found same)

theorem Sound.sweep {entries : List (Σ _ : Nat, ObjEntry)} (sound : Sound true [] store)
    (distinct : (entries.map Sigma.fst).Nodup)
    (registered : ∀ id entry, ⟨id, entry⟩ ∈ entries → store.mObjects.lookup id = some entry) :
    Sound true [] (store.sweep entries) := by
  induction entries generalizing store with
  | nil => exact sound
  | cons first rest ih =>
      obtain ⟨id, entry⟩ := first
      rw [List.map_cons, List.nodup_cons] at distinct
      rw [Store.sweep]
      have found := registered id entry List.mem_cons_self
      cases marked : store.isDeleted entry.unique with
      | false =>
          exact ih sound distinct.2 fun other entry' member =>
            registered other entry' (List.mem_cons_of_mem _ member)
      | true =>
          apply ih (sound.eraseEntry found marked) distinct.2
          intro other entry' member
          rw [Store.eraseEntry, destroyObject_mObjects, AList.lookup_erase_ne,
            registered other entry' (List.mem_cons_of_mem _ member)]
          rintro rfl
          exact distinct.1 (List.mem_map.mpr ⟨_, member, rfl⟩)

theorem Sound.releaseUnusedObjects (rt : Runtime) (sound : Sound true [] store) :
    Sound true [] (store.releaseUnusedObjects rt) := by
  apply sound.sweep
  · exact ((rt.objectOrder_perm store.mObjects).map Sigma.fst).nodup_iff.mpr store.mObjects.nodupKeys
  · intro id entry member
    exact AList.mem_lookup_iff.mpr ((rt.objectOrder_perm store.mObjects).mem_iff.mp member)

theorem nullify_cases (store : Store) (handle : HandleRef) :
    (store.handles.lookup handle = none ∧ store.nullify handle = store) ∨
    ∃ cell, store.handles.lookup handle = some cell ∧ store.nullify handle =
      { store with handles := store.handles.insert handle { cell with m_ptr := none } }.deleteTarget
        cell.m_ptr := by
  unfold nullify
  cases found : store.handles.lookup handle with
  | none => exact .inl ⟨rfl, rfl⟩
  | some cell => exact .inr ⟨cell, rfl, rfl⟩

structure Nullifies (visited : List HandleRef) (before after : Store) : Prop where
  held : after.held = before.held
  nextObject : after.nextObject = before.nextObject
  nextHandle : after.nextHandle = before.nextHandle
  mNextAvailableID : after.mNextAvailableID = before.mNextAvailableID
  bodyAt : ∀ ref, after.bodyAt ref = before.bodyAt ref
  cells : ∀ other, after.handles.lookup other = (before.handles.lookup other).map fun cell =>
    if other ∈ visited then { cell with m_ptr := none } else cell

theorem nullify_nullifies (store : Store) (handle : HandleRef) :
    Nullifies [handle] store (store.nullify handle) := by
  rcases nullify_cases store handle with ⟨dead, same⟩ | ⟨cell, found, cleared⟩
  · rw [same]
    refine ⟨rfl, rfl, rfl, rfl, fun _ => rfl, fun other => ?_⟩
    by_cases visited : other = handle
    · rw [visited, dead]
      rfl
    · simp [visited]
  · rw [cleared]
    refine ⟨?_, ?_, ?_, ?_, fun ref => deleteTarget_bodyAt _ _ ref, fun other => ?_⟩
    all_goals rw [deleteTarget_eq]
    by_cases visited : other = handle
    · rw [visited, AList.lookup_insert, found]
      simp
    · rw [AList.lookup_insert_ne visited]
      simp [visited]

theorem nullifyAll (order : List (Σ _ : Nat, ObjEntry)) (store : Store) :
    Nullifies (order.map fun entry => entry.2.handle) store
      (order.foldl (fun store entry => store.nullify entry.2.handle) store) := by
  induction order generalizing store with
  | nil => exact ⟨rfl, rfl, rfl, rfl, fun _ => rfl, fun other => by simp⟩
  | cons entry order ih =>
      have first := nullify_nullifies store entry.2.handle
      have rest := ih (store.nullify entry.2.handle)
      refine ⟨rest.held.trans first.held, rest.nextObject.trans first.nextObject,
        rest.nextHandle.trans first.nextHandle,
        rest.mNextAvailableID.trans first.mNextAvailableID,
        fun ref => (rest.bodyAt ref).trans (first.bodyAt ref), fun other => ?_⟩
      rw [List.foldl_cons, rest.cells, first.cells, Option.map_map]
      congr 1
      funext cell
      simp only [Function.comp_apply, List.map_cons, List.mem_cons, List.not_mem_nil, or_false]
      by_cases now : other = entry.2.handle
      · simp [now]
      · rw [if_neg now]
        exact if_congr (or_iff_right now).symm rfl rfl

theorem Sound.nullified (rt : Runtime) (sound : Sound true [] store) :
    Sound false [] { (rt.objectOrder store.mObjects).foldl
      (fun store entry => store.nullify entry.2.handle) store with mObjects := ∅ } := by
  have kept := nullifyAll (rt.objectOrder store.mObjects) store
  have count (handle : HandleRef) :=
    isHeld_congr kept.held kept.bodyAt handle
  refine ⟨⟨?_, ?_, ?_, ?_, ?_, ?_, ?_⟩, ?_, fun _ => rfl, ?_, ?_, ?_, ?_⟩
  · intro id entry found
    cases found
  · exact kept.mNextAvailableID ▸ sound.positive
  · exact kept.mNextAvailableID ▸ sound.narrow
  · intro ref body found
    exact kept.nextObject ▸ sound.objectsFresh ref body ((kept.bodyAt ref).symm.trans found)
  · intro ref owner found
    exact kept.nextObject ▸ sound.ownersFresh ref owner ((kept.bodyAt ref).symm.trans found)
  · intro handle cell found
    rw [kept.cells] at found
    obtain ⟨before, present, -⟩ := Option.map_eq_some_iff.mp found
    exact kept.nextHandle ▸ sound.handlesFresh handle before present
  · intro handle held
    rw [kept.cells, Option.isSome_map]
    exact sound.alive handle ((count handle).symm.trans held)
  · intro handle cell found
    rw [kept.cells] at found
    obtain ⟨before, present, rfl⟩ := Option.map_eq_some_iff.mp found
    rcases sound.points handle before present with ⟨destroyed, -⟩ | ⟨id, entry, registered, -, same⟩
    · cases destroyed
    · refine .inl ⟨rfl, ?_⟩
      have visited : handle ∈ (rt.objectOrder store.mObjects).map fun entry => entry.2.handle :=
        List.mem_map.mpr ⟨⟨id, entry⟩, (rt.objectOrder_perm store.mObjects).mem_iff.mpr
          (AList.mem_lookup_iff.mp registered), same⟩
      rw [if_pos visited]
  · intro id id' entry entry' found
    cases found
  · intro id entry found
    cases found
  · intro id entry found
    cases found
  · intro handle cell found
    rw [kept.cells] at found
    obtain ⟨before, present, -⟩ := Option.map_eq_some_iff.mp found
    exact .inl ((count handle).trans (sound.held present))

theorem Sound.destroyManager (rt : Runtime) (sound : Sound true [] store) :
    Sound false [] (store.destroyManager rt) := by
  have members (order : List (Σ _ : Nat, ObjEntry)) {store : Store}
      (sound : Sound false [] store) :
      Sound false [] (order.foldl (fun store entry => store.destroyObject entry.2.unique) store) := by
    induction order generalizing store with
    | nil => exact sound
    | cons entry order ih =>
        apply ih
        apply sound.destroyObject
        intro id entry' found
        rw [sound.emptied rfl, AList.lookup_empty] at found
        cases found
  exact members _ (sound.nullified rt)

end PackagedTask.Objects.Store
