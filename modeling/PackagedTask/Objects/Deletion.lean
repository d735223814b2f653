import PackagedTask.Objects.Merge
import PackagedTask.Objects.Sweeping

namespace PackagedTask.Objects
open Library Store

/-! A sweep over objects that `deleteObj` marked although their handles are alive. -/

namespace Store

def deleteObjs (store : Store) (refs : List ObjectRef) : Store :=
  refs.foldl (fun store ref => store.modifyObject ref Object.deleteObj) store

/-- Every handle is null or points to an object that exists. -/
def NoDangling (store : Store) : Prop :=
  ∀ handle cell ref, store.handles.lookup handle = some cell → cell.m_ptr = some ref →
    (store.bodyAt ref).isSome

/-- However far the sweep has come. -/
def SweepsClean (rt : Runtime) (store : Store) : Prop :=
  ∀ done, done <+: rt.objectOrder store.mObjects → (store.sweep done).NoDangling

theorem SweepsClean.released {rt : Runtime} {store : Store} (clean : store.SweepsClean rt) :
    (store.releaseUnusedObjects rt).NoDangling := clean _ List.prefix_rfl

/-- The manager's books, which a mark that came from `deleteObj` alone does not disturb. -/
structure Accounted (store : Store) : Prop where
  keyed : ∀ id entry, store.mObjects.lookup id = some entry → store.idAt entry.unique = some id
  points : ∀ handle cell, store.handles.lookup handle = some cell → ∃ id entry,
    store.mObjects.lookup id = some entry ∧ cell.m_ptr = some entry.unique ∧ entry.handle = handle
  entryHandles : ∀ id id' entry entry', store.mObjects.lookup id = some entry →
    store.mObjects.lookup id' = some entry' → entry.handle = entry'.handle → id = id'
  marked : ∀ id entry, store.mObjects.lookup id = some entry →
    store.handles.lookup entry.handle = none → store.isDeleted entry.unique = true
  counted : ∀ handle cell, store.handles.lookup handle = some cell → store.isHeld handle = true

variable {store : Store} {handle : HandleRef} {ref : ObjectRef}

theorem Sound.accounted (sound : Sound true [] store) : store.Accounted where
  keyed := fun id entry found => (sound.keyed id entry found).2.2
  points := by
    intro handle cell found
    rcases sound.points handle cell found with ⟨destroyed, -⟩ | registered
    · cases destroyed
    · exact registered
  entryHandles := sound.entryHandles
  marked := fun id entry found => (sound.deleted id entry found).mpr
  counted := fun handle cell found => sound.held found

theorem Accounted.deleteObj (accounted : store.Accounted) (ref : ObjectRef) :
    (store.deleteTarget (some ref)).Accounted := by
  have objects := deleteTarget_eq store (some ref)
  refine ⟨?_, ?_, ?_, ?_, ?_⟩
  · intro id entry found
    rw [objects] at found
    rw [deleteTarget_idAt]
    exact accounted.keyed id entry found
  · rw [objects]
    exact accounted.points
  · rw [objects]
    exact accounted.entryHandles
  · intro id entry found dead
    rw [objects] at found dead
    have before := accounted.marked id entry found dead
    rw [isDeleted] at before ⊢
    rw [deleteTarget_lookup]
    cases here : store.objects.lookup entry.unique with
    | none => simp [here] at before
    | some object =>
        simp only [here, Option.map_some, Option.getD_some] at before ⊢
        split
        · rfl
        · exact before
  · intro handle cell found
    rw [isHeld_congr (by rw [objects]) fun ref => deleteTarget_bodyAt _ _ ref]
    rw [objects] at found
    exact accounted.counted handle cell found

theorem Accounted.deleteObjs (accounted : store.Accounted) (refs : List ObjectRef) :
    (store.deleteObjs refs).Accounted := by
  induction refs generalizing store with
  | nil => exact accounted
  | cons ref refs ih => exact ih (accounted.deleteObj ref)

theorem releaseHandle_lookup (store : Store) (freed handle : HandleRef) :
    (store.releaseHandle freed).handles.lookup handle =
      if handle = freed ∧ store.isHeld freed = false then none
      else store.handles.lookup handle := by
  rcases releaseHandle_cases store freed with ⟨same, settled⟩ | ⟨free, cell, -, gone⟩
  · rw [same]
    split
    · rename_i now
      obtain ⟨rfl, free⟩ := now
      rcases settled with held | dead
      · rw [free] at held
        cases held
      · exact dead
    · rfl
  · rw [gone, deleteTarget_eq]
    by_cases now : handle = freed
    · rw [if_pos ⟨now, free⟩, now]
      exact AList.lookup_erase freed store.handles
    · rw [if_neg fun both => now both.1]
      exact AList.lookup_erase_ne now

theorem releaseHandle_isDeleted {id : Nat} (freed : HandleRef) (present : store.idAt ref = some id) :
    (store.releaseHandle freed).isDeleted ref = true ↔
      store.isDeleted ref = true ∨ store.isHeld freed = false ∧
        ∃ cell, store.handles.lookup freed = some cell ∧ cell.m_ptr = some ref := by
  rcases releaseHandle_cases store freed with ⟨same, settled⟩ | ⟨free, cell, found, gone⟩
  · rw [same]
    refine (or_iff_left ?_).symm
    rintro ⟨free, cell, found, -⟩
    rcases settled with held | dead
    · rw [free] at held
      cases held
    · rw [dead] at found
      cases found
  · rw [gone]
    by_cases aimed : cell.m_ptr = some ref
    · rw [aimed]
      refine iff_of_true ?_ (.inr ⟨free, cell, found, aimed⟩)
      exact isDeleted_deleteTarget_self present
    · rw [isDeleted_deleteTarget _ _ aimed]
      refine (or_iff_left ?_).symm
      rintro ⟨-, cell', found', aimed'⟩
      obtain rfl := Option.some.inj (found.symm.trans found')
      exact aimed aimed'

theorem release_isHeld (ptr : PObjHandle) (handle : HandleRef) :
    (store.release ptr).isHeld handle = store.isHeld handle := releaseAll_isHeld [ptr] store handle

theorem releaseAll_lookup (pending : List PObjHandle) (store : Store) (handle : HandleRef) :
    (pending.foldl release store).handles.lookup handle =
      if .shared handle ∈ pending ∧ store.isHeld handle = false then none
      else store.handles.lookup handle := by
  induction pending generalizing store with
  | nil => simp
  | cons ptr pending ih =>
      rw [List.foldl_cons, ih, release_isHeld]
      cases ptr with
      | shared freed =>
          rw [release, releaseHandle_lookup]
          by_cases now : handle = freed
          · subst now
            cases store.isHeld handle <;> simp
          · have apart : PObjHandle.shared handle ≠ .shared freed :=
              fun same => now (PObjHandle.shared.inj same)
            simp [now, apart]
      | null => simp [release]
      | placeholder m_link_key => simp [release]

theorem releaseAll_isDeleted {id : Nat} (pending : List PObjHandle)
    (present : store.idAt ref = some id) : (pending.foldl release store).isDeleted ref = true ↔
      store.isDeleted ref = true ∨ ∃ freed, .shared freed ∈ pending ∧
        store.isHeld freed = false ∧
        ∃ cell, store.handles.lookup freed = some cell ∧ cell.m_ptr = some ref := by
  induction pending generalizing store with
  | nil => simp
  | cons ptr pending ih =>
      have still : (store.release ptr).idAt ref = some id :=
        ((release_frame store ptr).idAt ref).trans present
      rw [List.foldl_cons, ih still]
      simp only [release_isHeld, List.mem_cons]
      cases ptr with
      | shared first =>
          rw [release, releaseHandle_isDeleted first present]
          constructor
          · rintro ((marked | ⟨free, cell, found, aimed⟩) | ⟨freed, later, free, cell, found, aimed⟩)
            · exact .inl marked
            · exact .inr ⟨first, .inl rfl, free, cell, found, aimed⟩
            · exact .inr ⟨freed, .inr later, free, cell,
                (releaseHandle_frame store first).fewer freed cell found, aimed⟩
          · rintro (marked | ⟨freed, member, free, cell, found, aimed⟩)
            · exact .inl (.inl marked)
            · by_cases now : freed = first
              · subst now
                exact .inl (.inr ⟨free, cell, found, aimed⟩)
              · refine .inr ⟨freed, member.resolve_left fun same => now (PObjHandle.shared.inj same),
                  free, cell, ?_, aimed⟩
                rw [releaseHandle_lookup, if_neg fun both => now both.1, found]
      | null => simp [release]
      | placeholder m_link_key => simp [release]

theorem lists_iff_owns {object : Object} (here : store.objects.lookup ref = some object) :
    store.Lists ref handle ↔ .shared handle ∈ object.body.handles := by
  have known : store.bodyAt ref = some object.body := by rw [bodyAt, here, Option.map_some]
  rw [Lists, known]
  cases object.body with
  | object => simp [Body.handles]
  | component mGameObj => simp [Body.handles]
  | gameObject mComponents => simp

theorem eraseEntry_eq {id : Nat} {entry : ObjEntry} {object : Object}
    (here : store.objects.lookup entry.unique = some object) :
    store.eraseEntry id entry = object.body.handles.foldl release { store with
      mObjects := store.mObjects.erase id, objects := store.objects.erase entry.unique } := by
  rw [eraseEntry, destroyObject]
  simp only [here]

theorem eraseEntry_freed {id : Nat} {entry : ObjEntry} (lists : store.Lists entry.unique handle)
    (free : (store.eraseEntry id entry).isHeld handle = false) :
    (store.eraseEntry id entry).handles.lookup handle = none := by
  have ⟨mComponents, known, _⟩ := lists
  obtain ⟨object, here, -⟩ := Option.map_eq_some_iff.mp known
  rw [eraseEntry_eq here, releaseAll_isHeld] at free
  rw [eraseEntry_eq here, releaseAll_lookup, if_pos ⟨(lists_iff_owns here).mp lists, free⟩]

theorem eraseEntry_unlisted {id : Nat} {entry : ObjEntry}
    (unlisted : ¬ store.Lists entry.unique handle) :
    (store.eraseEntry id entry).handles.lookup handle = store.handles.lookup handle := by
  cases here : store.objects.lookup entry.unique with
  | none =>
      rw [eraseEntry, destroyObject]
      simp only [here]
  | some object =>
      rw [lists_iff_owns here] at unlisted
      rw [eraseEntry_eq here, releaseAll_lookup, if_neg fun both => unlisted both.1]

theorem eraseEntry_none_iff {id : Nat} {entry : ObjEntry} :
    (store.eraseEntry id entry).handles.lookup handle = none ↔
      store.handles.lookup handle = none ∨
        store.Lists entry.unique handle ∧ (store.eraseEntry id entry).isHeld handle = false := by
  constructor
  · intro dead
    by_cases lists : store.Lists entry.unique handle
    · cases held : (store.eraseEntry id entry).isHeld handle with
      | false => exact .inr ⟨lists, rfl⟩
      | true => exact .inl (eraseEntry_alive held ▸ dead)
    · exact .inl (eraseEntry_unlisted lists ▸ dead)
  · rintro (dead | ⟨lists, free⟩)
    · cases alive : (store.eraseEntry id entry).handles.lookup handle with
      | none => rfl
      | some cell =>
          rw [eraseEntry_fewer alive] at dead
          cases dead
    · exact eraseEntry_freed lists free

theorem eraseEntry_isDeleted {id id' : Nat} {entry : ObjEntry} {object : Object}
    (here : store.objects.lookup entry.unique = some object) (apart : ref ≠ entry.unique)
    (present : store.idAt ref = some id') : (store.eraseEntry id entry).isDeleted ref = true ↔
      store.isDeleted ref = true ∨ ∃ freed, store.Lists entry.unique freed ∧
        (store.eraseEntry id entry).isHeld freed = false ∧
        ∃ cell, store.handles.lookup freed = some cell ∧ cell.m_ptr = some ref := by
  have still : ({ store with
      mObjects := store.mObjects.erase id, objects := store.objects.erase entry.unique } :
        Store).idAt ref = some id' := by
    rw [idAt, AList.lookup_erase_ne apart]
    exact present
  simp only [lists_iff_owns here, eraseEntry_eq here, releaseAll_isHeld]
  rw [releaseAll_isDeleted _ still, isDeleted, AList.lookup_erase_ne apart, isDeleted]

theorem eraseEntry_idAt {id : Nat} {entry : ObjEntry} (apart : ref ≠ entry.unique) :
    (store.eraseEntry id entry).idAt ref = store.idAt ref := by
  unfold eraseEntry destroyObject
  split
  · rfl
  · rw [(releaseAll_frame _ _).idAt, idAt, AList.lookup_erase_ne apart, idAt]

theorem eraseEntry_isHeld_iff {id : Nat} {entry : ObjEntry} :
    (store.eraseEntry id entry).isHeld handle = true ↔
      handle ∈ store.held ∨ ∃ ref, ref ≠ entry.unique ∧ store.Lists ref handle := by
  rw [isHeld_iff_lists, eraseEntry_held]
  simp only [eraseEntry_lists]

theorem Accounted.unique_injective (accounted : store.Accounted) {id id' : Nat}
    {entry entry' : ObjEntry} (found : store.mObjects.lookup id = some entry)
    (found' : store.mObjects.lookup id' = some entry') (same : entry.unique = entry'.unique) :
    id = id' ∧ entry = entry' := by
  have first := accounted.keyed id entry found
  rw [same, accounted.keyed id' entry' found'] at first
  obtain rfl := Option.some.inj first
  exact ⟨rfl, Option.some.inj (found.symm.trans found')⟩

theorem Accounted.pointed_iff (accounted : store.Accounted) {id : Nat} {entry : ObjEntry}
    {cell : ObjHandle} (found : store.mObjects.lookup id = some entry)
    (alive : store.handles.lookup handle = some cell) :
    cell.m_ptr = some entry.unique ↔ handle = entry.handle := by
  obtain ⟨id', entry', found', aimed, rfl⟩ := accounted.points handle cell alive
  constructor
  · intro here
    rw [(accounted.unique_injective found found' (Option.some.inj (here.symm.trans aimed))).2]
  · intro same
    obtain rfl := accounted.entryHandles id' id entry' entry found' found same
    rw [aimed, Option.some.inj (found'.symm.trans found)]

/-- What the sweep destroys: what is marked when it begins, and what loses its last handle to
`GameObject`s that go earlier. -/
inductive Goes (store : Store) (order : List (Σ _ : Nat, ObjEntry)) : (Σ _ : Nat, ObjEntry) → Prop
  | marked {entry} (member : entry ∈ order) (marked : store.isDeleted entry.2.unique = true) :
      Goes store order entry
  | freed {entry} (member : entry ∈ order) (free : entry.2.handle ∉ store.held)
      (owner : ObjectRef → Σ _ : Nat, ObjEntry)
      (earlier : ∀ ref, store.Lists ref entry.2.handle →
        (owner ref).2.unique = ref ∧ [owner ref, entry].Sublist order)
      (gone : ∀ ref, store.Lists ref entry.2.handle → Goes store order (owner ref)) :
      Goes store order entry

/-- Nothing has a handle to the entry any more when the sweep comes to it, but for the entry's own
members. -/
def FreedFirst (store : Store) (order : List (Σ _ : Nat, ObjEntry)) (entry : Σ _ : Nat, ObjEntry) :
    Prop :=
  entry.2.handle ∉ store.held ∧ ∀ ref, store.Lists ref entry.2.handle → ref = entry.2.unique ∨
    ∃ owner : Σ _ : Nat, ObjEntry, owner.2.unique = ref ∧ [owner, entry].Sublist order ∧
      Goes store order owner

theorem Goes.member {order : List (Σ _ : Nat, ObjEntry)} {entry : Σ _ : Nat, ObjEntry}
    (goes : Goes store order entry) : entry ∈ order := by
  cases goes with
  | marked member => exact member
  | freed member => exact member

structure Passes (store : Store) (order : List (Σ _ : Nat, ObjEntry)) : Prop where
  distinct : order.Nodup
  registered : ∀ entry ∈ order, store.mObjects.lookup entry.1 = some entry.2

structure Midway (store : Store) (order done : List (Σ _ : Nat, ObjEntry)) (after : Store) :
    Prop where
  held : after.held = store.held
  gone : ∀ entry ∈ done, Goes store order entry → after.bodyAt entry.2.unique = none
  kept : ∀ ref, (∀ entry ∈ done, Goes store order entry → entry.2.unique ≠ ref) →
    after.bodyAt ref = store.bodyAt ref ∧ after.idAt ref = store.idAt ref
  alive : ∀ handle, after.isHeld handle = true →
    after.handles.lookup handle = store.handles.lookup handle
  dead : ∀ handle, after.isHeld handle = false → after.handles.lookup handle = none
  marks : ∀ id entry, store.mObjects.lookup id = some entry → (after.bodyAt entry.unique).isSome →
    (after.isDeleted entry.unique = true ↔ store.isDeleted entry.unique = true ∨
      after.handles.lookup entry.handle = none)

namespace Midway

variable {order done : List (Σ _ : Nat, ObjEntry)} {entry : Σ _ : Nat, ObjEntry} {after : Store}

theorem start (accounted : store.Accounted) : Midway store order [] store where
  held := rfl
  gone := fun _ member => (List.not_mem_nil member).elim
  kept := fun _ _ => ⟨rfl, rfl⟩
  alive := fun _ _ => rfl
  dead := by
    intro handle free
    cases found : store.handles.lookup handle with
    | none => rfl
    | some cell =>
        rw [accounted.counted handle cell found] at free
        cases free
  marks := by
    intro id entry found _
    exact ⟨.inl, fun marked => marked.elim (fun given => given) (accounted.marked id entry found)⟩

theorem lists (midway : Midway store order done after) :
    after.Lists ref handle ↔ store.Lists ref handle ∧
      ∀ entry ∈ done, Goes store order entry → entry.2.unique ≠ ref := by
  constructor
  · rintro ⟨mComponents, known, owns⟩
    have stays : ∀ entry ∈ done, Goes store order entry → entry.2.unique ≠ ref := by
      rintro entry member goes rfl
      rw [midway.gone entry member goes] at known
      cases known
    exact ⟨⟨mComponents, (midway.kept ref stays).1 ▸ known, owns⟩, stays⟩
  · rintro ⟨⟨mComponents, known, owns⟩, stays⟩
    exact ⟨mComponents, (midway.kept ref stays).1.trans known, owns⟩

theorem held_iff (midway : Midway store order done after) :
    after.isHeld handle = true ↔ handle ∈ store.held ∨ ∃ ref, store.Lists ref handle ∧
      ∀ entry ∈ done, Goes store order entry → entry.2.unique ≠ ref := by
  rw [isHeld_iff_lists, midway.held]
  simp only [midway.lists]

theorem cell_before (midway : Midway store order done after) {cell : ObjHandle}
    (found : after.handles.lookup handle = some cell) :
    store.handles.lookup handle = some cell := by
  cases held : after.isHeld handle with
  | false =>
      rw [midway.dead handle held] at found
      cases found
  | true => exact midway.alive handle held ▸ found

variable {rest : List (Σ _ : Nat, ObjEntry)}

theorem notPassed (passes : Passes store order) (accounted : store.Accounted)
    (split : order = done ++ entry :: rest) :
    ∀ earlier ∈ done, earlier.2.unique ≠ entry.2.unique := by
  intro earlier member same
  have found := passes.registered entry (split ▸ List.mem_append_right _ List.mem_cons_self)
  have found' := passes.registered earlier (split ▸ List.mem_append_left _ member)
  obtain ⟨key, value⟩ := accounted.unique_injective found' found same
  obtain rfl : earlier = entry := Sigma.ext key (heq_of_eq value)
  have distinct := split ▸ passes.distinct
  exact (List.nodup_append.mp distinct).2.2 earlier member earlier List.mem_cons_self rfl

theorem passed_of_sublist (distinct : order.Nodup) {owner : Σ _ : Nat, ObjEntry}
    (split : order = done ++ entry :: rest) (before : [owner, entry].Sublist order) :
    owner ∈ done := by
  subst split
  have later := (List.nodup_cons.mp (List.nodup_append.mp distinct).2.1).1
  obtain ⟨front, back, whole, inFront, inBack⟩ := List.sublist_append_iff.mp before
  cases front with
  | nil =>
      obtain rfl : [owner, entry] = back := whole
      rcases List.cons_sublist_cons'.mp inBack with inBack | ⟨-, inBack⟩
      · exact (later (inBack.subset (by simp))).elim
      · exact (later (inBack.subset (by simp))).elim
  | cons first front =>
      obtain ⟨rfl, -⟩ := List.cons.inj whole
      exact inFront.subset List.mem_cons_self

theorem goes_iff (midway : Midway store order done after) (passes : Passes store order)
    (accounted : store.Accounted) (split : order = done ++ entry :: rest) :
    after.isDeleted entry.2.unique = true ↔ Goes store order entry := by
  have inOrder : entry ∈ order := split ▸ List.mem_append_right _ List.mem_cons_self
  have found := passes.registered entry inOrder
  have present : (after.bodyAt entry.2.unique).isSome := by
    have stays := notPassed passes accounted split
    rw [(midway.kept _ fun earlier member _ => stays earlier member).1]
    obtain ⟨object, here, -⟩ := Option.map_eq_some_iff.mp (accounted.keyed _ _ found)
    rw [bodyAt, here]
    rfl
  rw [midway.marks entry.1 entry.2 found present]
  constructor
  · rintro (marked | dead)
    · exact .marked inOrder marked
    · cases held : after.isHeld entry.2.handle with
      | true =>
          rw [midway.alive _ held] at dead
          exact .marked inOrder (accounted.marked entry.1 entry.2 found dead)
      | false =>
          rw [Bool.eq_false_iff, ne_eq, midway.held_iff] at held
          push Not at held
          have : Nonempty (Σ _ : Nat, ObjEntry) := ⟨entry⟩
          obtain ⟨free, gone⟩ := held
          choose! owner passed goes same using gone
          refine .freed inOrder free owner (fun ref lists => ⟨same ref lists, ?_⟩) goes
          rw [split]
          have first := List.singleton_sublist.mpr (passed ref lists)
          have second : [entry].Sublist (entry :: rest) :=
            List.singleton_sublist.mpr List.mem_cons_self
          exact first.append second
  · intro goes
    cases goes with
    | marked _ marked => exact .inl marked
    | freed _ free owner earlier gone =>
        refine .inr (midway.dead _ ?_)
        rw [Bool.eq_false_iff, ne_eq, midway.held_iff]
        rintro (member | ⟨ref, lists, stays⟩)
        · exact free member
        · obtain ⟨same, before⟩ := earlier ref lists
          have passed := passed_of_sublist passes.distinct split before
          exact stays _ passed (gone ref lists) same

theorem pass (midway : Midway store order done after) (stays : ¬ Goes store order entry) :
    Midway store order (done ++ [entry]) after where
  held := midway.held
  gone := by
    intro other member goes
    rcases List.mem_append.mp member with earlier | now
    · exact midway.gone other earlier goes
    · exact (stays (List.mem_singleton.mp now ▸ goes)).elim
  kept := fun ref other =>
    midway.kept ref fun entry member => other entry (List.mem_append_left _ member)
  alive := midway.alive
  dead := midway.dead
  marks := midway.marks

theorem erase (midway : Midway store order done after) (accounted : store.Accounted)
    {object : Object} (here : after.objects.lookup entry.2.unique = some object)
    (goes : Goes store order entry) :
    Midway store order (done ++ [entry]) (after.eraseEntry entry.1 entry.2) where
  held := (eraseEntry_held entry.1 entry.2).trans midway.held
  gone := by
    intro other member goes'
    rw [eraseEntry_bodyAt]
    split
    · rfl
    · rename_i apart
      rcases List.mem_append.mp member with earlier | now
      · exact midway.gone other earlier goes'
      · obtain rfl := List.mem_singleton.mp now
        exact (apart rfl).elim
  kept := by
    intro ref other
    have apart : ref ≠ entry.2.unique := (other entry (by simp) goes).symm
    have before := midway.kept ref fun entry member => other entry (List.mem_append_left _ member)
    rw [eraseEntry_bodyAt, if_neg apart, eraseEntry_idAt apart]
    exact before
  alive := by
    intro handle held
    rw [eraseEntry_alive held]
    apply midway.alive
    rw [eraseEntry_isHeld_iff] at held
    rw [isHeld_iff_lists]
    exact held.imp_right fun ⟨ref, _, lists⟩ => ⟨ref, lists⟩
  dead := by
    intro handle free
    by_cases lists : after.Lists entry.2.unique handle
    · exact eraseEntry_freed lists free
    · rw [eraseEntry_unlisted lists]
      apply midway.dead
      rw [Bool.eq_false_iff, ne_eq, eraseEntry_isHeld_iff] at free
      rw [Bool.eq_false_iff, ne_eq, isHeld_iff_lists]
      rintro (member | ⟨ref, lists'⟩)
      · exact free (.inl member)
      · refine free (.inr ⟨ref, ?_, lists'⟩)
        rintro rfl
        exact lists lists'
  marks := by
    intro id other found present
    have apart : other.unique ≠ entry.2.unique := by
      intro same
      rw [eraseEntry_bodyAt, if_pos same] at present
      cases present
    rw [eraseEntry_bodyAt, if_neg apart] at present
    obtain ⟨carried, there⟩ : ∃ id', after.idAt other.unique = some id' := by
      obtain ⟨body, known⟩ := Option.isSome_iff_exists.mp present
      obtain ⟨object', there, -⟩ := Option.map_eq_some_iff.mp known
      exact ⟨object'.mInstanceId, by rw [idAt, there, Option.map_some]⟩
    rw [eraseEntry_isDeleted here apart there, midway.marks id other found present, or_assoc,
      eraseEntry_none_iff]
    refine or_congr_right ⟨?_, ?_⟩
    · rintro (dead | ⟨freed, lists, free, cell, alive, aimed⟩)
      · exact .inl dead
      · obtain rfl := (accounted.pointed_iff found (midway.cell_before alive)).mp aimed
        exact .inr ⟨lists, free⟩
    · rintro (dead | ⟨lists, free⟩)
      · exact .inl dead
      · cases alive : after.handles.lookup other.handle with
        | none => exact .inl rfl
        | some cell =>
            have aimed := (accounted.pointed_iff found (midway.cell_before alive)).mpr rfl
            exact .inr ⟨other.handle, lists, free, cell, alive, aimed⟩

end Midway

variable {order done rest : List (Σ _ : Nat, ObjEntry)} {entry : Σ _ : Nat, ObjEntry}

theorem sweep_append (first second : List (Σ _ : Nat, ObjEntry)) (store : Store) :
    store.sweep (first ++ second) = (store.sweep first).sweep second := by
  induction first generalizing store with
  | nil => rfl
  | cons entry first ih =>
      rw [List.cons_append, Store.sweep, Store.sweep]
      split
      · exact ih _
      · exact ih _

theorem Accounted.midway (accounted : store.Accounted) (passes : Passes store order)
    (split : order = done ++ rest) : Midway store order done (store.sweep done) := by
  induction done using List.reverseRecOn generalizing rest with
  | nil => exact .start accounted
  | append_singleton done entry ih =>
      rw [List.append_assoc] at split
      have midway := ih split
      have marked := midway.goes_iff passes accounted split
      rw [sweep_append, Store.sweep]
      by_cases goes : Goes store order entry
      · have deleted := marked.mpr goes
        rw [if_pos deleted]
        cases here : (store.sweep done).objects.lookup entry.2.unique with
        | none =>
            rw [isDeleted, here] at deleted
            cases deleted
        | some object => exact midway.erase accounted here goes
      · rw [if_neg fun deleted => goes (marked.mp deleted)]
        exact midway.pass goes

theorem order_passes (rt : Runtime) (store : Store) :
    Passes store (rt.objectOrder store.mObjects) where
  distinct := (objectOrder_nodup rt store).of_map _
  registered := fun _ member => mem_objectOrder.mp member

theorem Midway.unheld {after : Store} (midway : Midway store order done after)
    (passes : Passes store order) (split : order = done ++ rest) (passed : entry ∈ done)
    (goes : Goes store order entry) (first : FreedFirst store order entry) :
    after.isHeld entry.2.handle = false := by
  rw [Bool.eq_false_iff, ne_eq, midway.held_iff]
  rintro (member | ⟨ref, lists, stays⟩)
  · exact first.1 member
  · rcases first.2 ref lists with rfl | ⟨owner, same, before, gone⟩
    · exact stays entry passed goes rfl
    · obtain ⟨front, back, rfl⟩ := List.append_of_mem passed
      have split' : order = front ++ entry :: (back ++ rest) := by
        rw [split, List.append_assoc, List.cons_append]
      have earlier := Midway.passed_of_sublist passes.distinct split' before
      exact stays owner (List.mem_append_left _ earlier) gone same

theorem Goes.freedFirst (goes : Goes store order entry)
    (explicit : store.isDeleted entry.2.unique = true → FreedFirst store order entry) :
    FreedFirst store order entry := by
  cases goes with
  | marked _ marked => exact explicit marked
  | freed _ free owner earlier gone =>
      refine ⟨free, fun ref lists => .inr ⟨owner ref, ?_⟩⟩
      exact ⟨(earlier ref lists).1, (earlier ref lists).2, gone ref lists⟩

/-- What `deleteObj` marked has no handle left by the time the sweep comes to it. -/
def ExplicitFreedFirst (rt : Runtime) (store : Store) : Prop :=
  ∀ id entry, store.mObjects.lookup id = some entry → store.isDeleted entry.unique = true →
    (store.handles.lookup entry.handle).isSome →
    FreedFirst store (rt.objectOrder store.mObjects) ⟨id, entry⟩

theorem Accounted.clean_iff (accounted : store.Accounted) (rt : Runtime) :
    store.SweepsClean rt ↔ store.ExplicitFreedFirst rt := by
  have passes := order_passes rt store
  constructor
  · intro clean id entry found marked alive
    obtain ⟨cell, known⟩ := Option.isSome_iff_exists.mp alive
    have aimed := (accounted.pointed_iff found known).mpr rfl
    have member : ⟨id, entry⟩ ∈ rt.objectOrder store.mObjects := mem_objectOrder.mpr found
    have goes : Goes store (rt.objectOrder store.mObjects) ⟨id, entry⟩ := .marked member marked
    obtain ⟨done, rest, split⟩ := List.append_of_mem member
    have split' : rt.objectOrder store.mObjects = (done ++ [⟨id, entry⟩]) ++ rest := by
      rw [split, List.append_assoc]
      rfl
    have midway := accounted.midway passes split'
    have gone := midway.gone ⟨id, entry⟩ (by simp) goes
    -- the handle that pointed to the entry is dead, so whatever held it went before
    have free : (store.sweep (done ++ [⟨id, entry⟩])).isHeld entry.handle = false := by
      rw [Bool.eq_false_iff]
      intro held
      have present := clean _ ⟨rest, split'.symm⟩ entry.handle cell entry.unique
        ((midway.alive _ held).trans known) aimed
      rw [gone] at present
      cases present
    rw [Bool.eq_false_iff, ne_eq, midway.held_iff] at free
    push Not at free
    refine ⟨free.1, fun ref lists => ?_⟩
    obtain ⟨owner, passed, goes', same⟩ := free.2 ref lists
    rcases List.mem_append.mp passed with earlier | now
    · refine .inr ⟨owner, same, ?_, goes'⟩
      rw [split]
      exact (List.singleton_sublist.mpr earlier).append
        (List.singleton_sublist.mpr List.mem_cons_self)
    · obtain rfl := List.mem_singleton.mp now
      exact .inl same.symm
  · rintro freed done ⟨rest, split⟩ handle cell ref alive aimed
    have midway := accounted.midway passes split.symm
    have before := midway.cell_before alive
    obtain ⟨id, entry, found, aimed', rfl⟩ := accounted.points handle cell before
    obtain rfl := Option.some.inj (aimed.symm.trans aimed')
    by_cases gone : ∃ other ∈ done, Goes store (rt.objectOrder store.mObjects) other ∧
        other.2.unique = entry.unique
    · obtain ⟨other, passed, goes, same⟩ := gone
      have registered := passes.registered other goes.member
      obtain ⟨key, value⟩ := accounted.unique_injective registered found same
      obtain rfl : other = ⟨id, entry⟩ := Sigma.ext key (heq_of_eq value)
      have first := goes.freedFirst fun marked =>
        freed id entry found marked (by rw [before]; rfl)
      have free := midway.unheld passes split.symm passed goes first
      rw [midway.dead _ free] at alive
      cases alive
    · push Not at gone
      rw [(midway.kept entry.unique gone).1]
      obtain ⟨object, here, -⟩ := Option.map_eq_some_iff.mp (accounted.keyed id entry found)
      rw [bodyAt, here]
      rfl

end Store

theorem Reached.accounted {store : Store} {issued : List (Nat × ObjectRef)}
    (reached : Reached true store issued) : store.Accounted := reached.sound.accounted

theorem sweepsClean_iff {store : Store} (accounted : store.Accounted) (refs : List ObjectRef)
    (rt : Runtime) :
    (store.deleteObjs refs).SweepsClean rt ↔ (store.deleteObjs refs).ExplicitFreedFirst rt :=
  (accounted.deleteObjs refs).clean_iff rt

section Adopted

theorem sweepsClean_iff_adopted : (adopted.deleteObjs [0, 1]).SweepsClean plainRuntime ↔
    (adopted.deleteObjs [0, 1]).ExplicitFreedFirst plainRuntime :=
  sweepsClean_iff adopted_reached.accounted [0, 1] plainRuntime

theorem heldObject_dangles :
    ¬ ∀ store issued, Reached true store issued → ∀ refs rt,
      ((store.deleteObjs refs).releaseUnusedObjects rt).NoDangling := by
  intro clean
  have present := clean oneGameObject _ oneGameObject_reached [0] plainRuntime 0 ⟨some 0, 0⟩ 0
    (by decide) rfl
  exact absurd present (by decide)

end Adopted

end PackagedTask.Objects
