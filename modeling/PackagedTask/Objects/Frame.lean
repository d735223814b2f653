import PackagedTask.Objects.Store

namespace PackagedTask.Objects
open Library

/-! What the destruction of handles and objects can change: deletion marks and dead handles, but
no object's id, class or references. -/

namespace Store

def bodyAt (store : Store) (ref : ObjectRef) : Option Body :=
  (store.objects.lookup ref).map Object.body

def idAt (store : Store) (ref : ObjectRef) : Option Nat :=
  (store.objects.lookup ref).map Object.mInstanceId

theorem mem_handles_iff {mComponents : ComponentMap} {ptr : PObjHandle} :
    ptr ∈ (Body.gameObject mComponents).handles ↔ ∃ key, mComponents.lookup key = some ptr := by
  simp only [Body.handles, List.mem_map, Sigma.exists]
  constructor
  · rintro ⟨key, value, member, rfl⟩
    exact ⟨key, AList.mem_lookup_iff.mpr member⟩
  · rintro ⟨key, found⟩
    exact ⟨key, ptr, AList.mem_lookup_iff.mp found, rfl⟩

theorem isHeld_iff {store : Store} {handle : HandleRef} :
    store.isHeld handle = true ↔ handle ∈ store.held ∨
      ∃ ref body, store.bodyAt ref = some body ∧ .shared handle ∈ body.handles := by
  simp only [isHeld, owned, Bool.or_eq_true, decide_eq_true_eq, List.any_eq_true, bodyAt,
    Option.map_eq_some_iff]
  refine or_congr_right ⟨?_, ?_⟩
  · rintro ⟨⟨ref, object⟩, member, held⟩
    exact ⟨ref, object.body, ⟨object, AList.mem_lookup_iff.mpr member, rfl⟩, held⟩
  · rintro ⟨ref, body, ⟨object, found, rfl⟩, held⟩
    exact ⟨⟨ref, object⟩, AList.mem_lookup_iff.mp found, held⟩

theorem modifyObject_eq (store : Store) (ref : ObjectRef) (change : Object → Object) :
    store.modifyObject ref change =
      { store with objects := (store.modifyObject ref change).objects } := by
  unfold modifyObject
  split <;> rfl

theorem modifyObject_lookup (store : Store) (ref ref' : ObjectRef) (change : Object → Object) :
    (store.modifyObject ref change).objects.lookup ref' =
      (store.objects.lookup ref').map fun object =>
        if ref' = ref then change object else object := by
  unfold modifyObject
  by_cases same : ref' = ref
  · subst same
    cases found : store.objects.lookup ref' with
    | none => simp [found]
    | some object => simp
  · cases found : store.objects.lookup ref with
    | none => simp [same]
    | some object => simp [AList.lookup_insert_ne same, same]

theorem deleteTarget_eq (store : Store) (m_ptr : Option ObjectRef) :
    store.deleteTarget m_ptr = { store with objects := (store.deleteTarget m_ptr).objects } := by
  cases m_ptr with
  | none => rfl
  | some ref => exact modifyObject_eq store ref Object.deleteObj

theorem deleteTarget_lookup (store : Store) (m_ptr : Option ObjectRef) (ref : ObjectRef) :
    (store.deleteTarget m_ptr).objects.lookup ref =
      (store.objects.lookup ref).map fun object =>
        if m_ptr = some ref then object.deleteObj else object := by
  cases m_ptr with
  | none => simp [deleteTarget]
  | some target =>
      rw [deleteTarget, modifyObject_lookup]
      simp only [Option.some.injEq, eq_comm]

@[simp] theorem deleteTarget_bodyAt (store : Store) (m_ptr : Option ObjectRef) (ref : ObjectRef) :
    (store.deleteTarget m_ptr).bodyAt ref = store.bodyAt ref := by
  rw [bodyAt, deleteTarget_lookup, Option.map_map, bodyAt]
  congr 1
  funext object
  simp only [Function.comp_apply]
  split <;> rfl

@[simp] theorem deleteTarget_idAt (store : Store) (m_ptr : Option ObjectRef) (ref : ObjectRef) :
    (store.deleteTarget m_ptr).idAt ref = store.idAt ref := by
  rw [idAt, deleteTarget_lookup, Option.map_map, idAt]
  congr 1
  funext object
  simp only [Function.comp_apply]
  split <;> rfl

theorem releaseHandle_cases (store : Store) (handle : HandleRef) :
    (store.releaseHandle handle = store ∧
      (store.isHeld handle = true ∨ store.handles.lookup handle = none)) ∨
    (store.isHeld handle = false ∧ ∃ cell, store.handles.lookup handle = some cell ∧
      store.releaseHandle handle =
        { store with handles := store.handles.erase handle }.deleteTarget cell.m_ptr) := by
  unfold releaseHandle
  cases count : store.isHeld handle with
  | true => exact .inl ⟨rfl, .inl rfl⟩
  | false =>
      cases found : store.handles.lookup handle with
      | none => exact .inl ⟨rfl, .inr rfl⟩
      | some cell => exact .inr ⟨rfl, cell, rfl, rfl⟩

/-- `after` differs from `before` at most in the bodies at `touched`, in deletion marks and in
handles that nobody outside held. -/
structure Frame (touched : Set ObjectRef) (before after : Store) : Prop where
  mObjects : after.mObjects = before.mObjects
  nextObject : after.nextObject = before.nextObject
  nextHandle : after.nextHandle = before.nextHandle
  mNextAvailableID : after.mNextAvailableID = before.mNextAvailableID
  held : after.held ⊆ before.held
  idAt : ∀ ref, after.idAt ref = before.idAt ref
  bodyAt : ∀ ref, ref ∉ touched → after.bodyAt ref = before.bodyAt ref
  kept : ∀ handle ∈ after.held, after.handles.lookup handle = before.handles.lookup handle
  fewer : ∀ handle cell, after.handles.lookup handle = some cell →
    before.handles.lookup handle = some cell

variable {touched : Set ObjectRef} {before middle after store : Store}

theorem Frame.refl (touched : Set ObjectRef) (store : Store) : Frame touched store store :=
  ⟨rfl, rfl, rfl, rfl, fun _ member => member, fun _ => rfl, fun _ _ => rfl, fun _ _ => rfl,
    fun _ _ found => found⟩

theorem Frame.trans (first : Frame touched before middle) (second : Frame touched middle after) :
    Frame touched before after where
  mObjects := second.mObjects.trans first.mObjects
  nextObject := second.nextObject.trans first.nextObject
  nextHandle := second.nextHandle.trans first.nextHandle
  mNextAvailableID := second.mNextAvailableID.trans first.mNextAvailableID
  held := fun _ member => first.held (second.held member)
  idAt := fun ref => (second.idAt ref).trans (first.idAt ref)
  bodyAt := fun ref outside => (second.bodyAt ref outside).trans (first.bodyAt ref outside)
  kept := fun handle member =>
    (second.kept handle member).trans (first.kept handle (second.held member))
  fewer := fun handle cell found => first.fewer handle cell (second.fewer handle cell found)

theorem Frame.mono {wider : Set ObjectRef} (frame : Frame touched before after)
    (within : touched ⊆ wider) : Frame wider before after :=
  { frame with bodyAt := fun ref outside => frame.bodyAt ref fun member => outside (within member) }

theorem Frame.present (frame : Frame touched before after) (ref : ObjectRef) :
    (after.bodyAt ref).isSome = (before.bodyAt ref).isSome := by
  have same := congrArg Option.isSome (frame.idAt ref)
  simpa [Store.idAt, Store.bodyAt] using same

theorem Frame.owned (frame : Frame touched before after)
    (owned : ∀ ref body, before.bodyAt ref = some body →
      ∃ id entry, before.mObjects.lookup id = some entry ∧ entry.unique = ref)
    (ref : ObjectRef) (body : Body) (there : after.bodyAt ref = some body) :
    ∃ id entry, after.mObjects.lookup id = some entry ∧ entry.unique = ref := by
  have present := frame.present ref
  rw [there] at present
  obtain ⟨body', here⟩ := Option.isSome_iff_exists.mp present.symm
  rw [frame.mObjects]
  exact owned ref body' here

theorem deleteTarget_frame (store : Store) (m_ptr : Option ObjectRef) :
    Frame ∅ store (store.deleteTarget m_ptr) := by
  refine ⟨?_, ?_, ?_, ?_, ?_, fun ref => deleteTarget_idAt _ _ ref,
    fun ref _ => deleteTarget_bodyAt _ _ ref, ?_, ?_⟩
  all_goals rw [deleteTarget_eq]
  · exact fun _ member => member
  · exact fun _ _ => rfl
  · exact fun _ _ found => found

theorem releaseHandle_frame (store : Store) (handle : HandleRef) :
    Frame ∅ store (store.releaseHandle handle) := by
  rcases releaseHandle_cases store handle with ⟨same, -⟩ | ⟨free, cell, found, freed⟩
  · rw [same]
    exact .refl _ _
  · have outside : handle ∉ store.held := fun member => by
      rw [isHeld_iff.mpr (.inl member)] at free
      cases free
    have erased : Frame ∅ store { store with handles := store.handles.erase handle } :=
      { Frame.refl ∅ store with
        kept := fun other member => AList.lookup_erase_ne fun same => outside (same ▸ member)
        fewer := fun other cell' found' => (lookup_of_erase found').2 }
    rw [freed]
    exact erased.trans (deleteTarget_frame _ cell.m_ptr)

theorem release_frame (store : Store) (ptr : PObjHandle) :
    Frame ∅ store (store.release ptr) := by
  cases ptr with
  | shared handle => exact releaseHandle_frame store handle
  | null => exact .refl _ _
  | placeholder m_link_key => exact .refl _ _

theorem releaseHandle_held (store : Store) (handle : HandleRef) :
    (store.releaseHandle handle).held = store.held := by
  rcases releaseHandle_cases store handle with ⟨same, -⟩ | ⟨-, cell, -, freed⟩
  · rw [same]
  · rw [freed, deleteTarget_eq]

theorem release_held (store : Store) (ptr : PObjHandle) :
    (store.release ptr).held = store.held := by
  cases ptr with
  | shared handle => exact releaseHandle_held store handle
  | null => rfl
  | placeholder m_link_key => rfl

theorem dropHandle_frame (store : Store) (handle : HandleRef) :
    Frame ∅ store (store.dropHandle handle) := by
  have dropped : Frame ∅ store { store with held := store.held.erase handle } :=
    { Frame.refl ∅ store with
      held := List.erase_subset
      kept := fun _ _ => rfl }
  exact dropped.trans (releaseHandle_frame _ handle)

theorem dropHandles_frame (objects : List HandleRef) (store : Store) :
    Frame ∅ store (objects.foldl dropHandle store) := by
  induction objects generalizing store with
  | nil => exact .refl _ _
  | cons handle objects ih => exact (dropHandle_frame store handle).trans (ih _)

/-- The manager owns what its table says, under the ids its objects carry, and names are never
used twice. -/
structure Valid (store : Store) : Prop where
  keyed : ∀ id entry, store.mObjects.lookup id = some entry →
    0 < id ∧ id < store.mNextAvailableID ∧ store.idAt entry.unique = some id
  positive : 0 < store.mNextAvailableID
  narrow : store.mNextAvailableID < 2 ^ 32
  objectsFresh : ∀ ref body, store.bodyAt ref = some body → ref < store.nextObject
  ownersFresh : ∀ ref owner, store.bodyAt ref = some (.component (.object owner)) →
    owner < store.nextObject
  handlesFresh : ∀ handle cell, store.handles.lookup handle = some cell → handle < store.nextHandle
  alive : ∀ handle, store.isHeld handle = true → (store.handles.lookup handle).isSome

theorem Valid.unique_injective (valid : store.Valid) {id id' : Nat} {entry entry' : ObjEntry}
    (found : store.mObjects.lookup id = some entry)
    (found' : store.mObjects.lookup id' = some entry') (same : entry.unique = entry'.unique) :
    id = id' := by
  have first := (valid.keyed id entry found).2.2
  have second := (valid.keyed id' entry' found').2.2
  rw [same, second] at first
  exact (Option.some.inj first).symm

theorem Valid.unique_lt (valid : store.Valid) {id : Nat} {entry : ObjEntry}
    (found : store.mObjects.lookup id = some entry) : entry.unique < store.nextObject := by
  obtain ⟨object, present, -⟩ := Option.map_eq_some_iff.mp (valid.keyed id entry found).2.2
  apply valid.objectsFresh entry.unique object.body
  rw [bodyAt, present, Option.map_some]

theorem Valid.held_lt (valid : store.Valid) {handle : HandleRef}
    (count : store.isHeld handle = true) : handle < store.nextHandle := by
  obtain ⟨cell, found⟩ := Option.isSome_iff_exists.mp (valid.alive handle count)
  exact valid.handlesFresh handle cell found

theorem Valid.of_frame (valid : store.Valid) (frame : Frame ∅ store after)
    (alive : ∀ handle, after.isHeld handle = true → (after.handles.lookup handle).isSome) :
    after.Valid where
  keyed := by
    rw [frame.mObjects, frame.mNextAvailableID]
    intro id entry found
    rw [frame.idAt]
    exact valid.keyed id entry found
  positive := frame.mNextAvailableID ▸ valid.positive
  narrow := frame.mNextAvailableID ▸ valid.narrow
  objectsFresh := by
    intro ref body found
    rw [frame.bodyAt ref (Set.notMem_empty ref)] at found
    exact frame.nextObject ▸ valid.objectsFresh ref body found
  ownersFresh := by
    intro ref owner found
    rw [frame.bodyAt ref (Set.notMem_empty ref)] at found
    exact frame.nextObject ▸ valid.ownersFresh ref owner found
  handlesFresh := fun handle cell found =>
    frame.nextHandle ▸ valid.handlesFresh handle cell (frame.fewer handle cell found)
  alive := alive

theorem isHeld_congr (held : after.held = before.held)
    (bodyAt : ∀ ref, after.bodyAt ref = before.bodyAt ref) (handle : HandleRef) :
    after.isHeld handle = before.isHeld handle := by
  rw [Bool.eq_iff_iff, isHeld_iff, isHeld_iff, held]
  simp only [bodyAt]

theorem Valid.deleteTarget (valid : store.Valid) (m_ptr : Option ObjectRef) :
    (store.deleteTarget m_ptr).Valid := by
  have frame := deleteTarget_frame store m_ptr
  apply valid.of_frame frame
  intro handle count
  have held : (store.deleteTarget m_ptr).held = store.held := by rw [deleteTarget_eq]
  rw [isHeld_congr held fun ref => deleteTarget_bodyAt _ _ ref] at count
  rw [deleteTarget_eq]
  exact valid.alive handle count

theorem releaseHandle_isHeld (store : Store) (handle other : HandleRef) :
    (store.releaseHandle handle).isHeld other = store.isHeld other :=
  isHeld_congr (releaseHandle_held store handle)
    (fun ref => (releaseHandle_frame store handle).bodyAt ref (Set.notMem_empty ref)) other

theorem releaseHandle_alive (store : Store) (handle other : HandleRef)
    (count : store.isHeld other = true) :
    (store.releaseHandle handle).handles.lookup other = store.handles.lookup other := by
  rcases releaseHandle_cases store handle with ⟨same, -⟩ | ⟨free, cell, found, freed⟩
  · rw [same]
  · rw [freed, deleteTarget_eq]
    apply AList.lookup_erase_ne
    rintro rfl
    rw [count] at free
    cases free

theorem isHeld_of_dropped (store : Store) (handle other : HandleRef)
    (count : { store with held := store.held.erase handle }.isHeld other = true) :
    store.isHeld other = true := by
  rw [isHeld_iff] at count ⊢
  exact count.imp_left List.mem_of_mem_erase

theorem Valid.dropHandle (valid : store.Valid) (handle : HandleRef) :
    (store.dropHandle handle).Valid := by
  apply valid.of_frame (dropHandle_frame store handle)
  intro other count
  rw [Store.dropHandle, releaseHandle_isHeld] at count
  rw [Store.dropHandle, releaseHandle_alive _ _ _ count]
  exact valid.alive other (isHeld_of_dropped store handle other count)

theorem Valid.dropHandles (valid : store.Valid) (objects : List HandleRef) :
    (objects.foldl Store.dropHandle store).Valid := by
  induction objects generalizing store with
  | nil => exact valid
  | cons handle objects ih => exact ih (valid.dropHandle handle)

end Store
end PackagedTask.Objects
