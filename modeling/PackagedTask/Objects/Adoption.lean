import PackagedTask.Objects.Histories
import PackagedTask.Objects.Lifetimes

namespace PackagedTask.Objects
open Library Store

/-! The slots of `GameObject`s against the owners of their components, along runs that destroy
nothing. -/

theorem Assembles.built {op : Operation} {store after : Store} (next : Assembles op store after)
    (before : Built store) : Built after := by
  cases next with
  | createGameObject room result => exact .createGameObject before room result
  | createComponent room result => exact .createComponent before room result
  | addComponent result => exact .addComponent before result
  | copy live => exact .copy before live
  | drop handle => exact .drop handle before

namespace Store

structure LiveObject (store : Store) (ref : ObjectRef) (body : Body) : Prop where
  here : store.bodyAt ref = some body
  unmarked : store.isDeleted ref = false
  registered : ∃ id entry, store.mObjects.lookup id = some entry ∧ entry.unique = ref

def Files (store : Store) (mComponents : ComponentMap) (key : Int) (cmp_ptr : ObjectRef) : Prop :=
  (mComponents.lookup key).bind store.resolve = some cmp_ptr

structure TwoSided (store : Store) : Prop where
  agrees : ∀ cmp_ptr mGameObj go mComponents, store.LiveObject cmp_ptr (.component mGameObj) →
    store.LiveObject go (.gameObject mComponents) →
    (mGameObj = .object go ↔
      store.Files mComponents (Body.component mGameObj).getClassIDVirtual cmp_ptr)
  listedOnce : ∀ cmp_ptr mGameObj go go' mComponents mComponents',
    store.LiveObject cmp_ptr (.component mGameObj) →
    store.LiveObject go (.gameObject mComponents) →
    store.LiveObject go' (.gameObject mComponents') →
    store.Files mComponents (Body.component mGameObj).getClassIDVirtual cmp_ptr →
    store.Files mComponents' (Body.component mGameObj).getClassIDVirtual cmp_ptr → go = go'

/-- The component has no other live owner, and a component that it displaces from a live
`GameObject` is held by nobody else. -/
structure Adoptable (store : Store) (go : ObjectRef) (com : PObjHandle) : Prop where
  unowned : ∀ cmp_ptr owner, store.resolve com = some cmp_ptr →
    store.bodyAt cmp_ptr = some (.component (.object owner)) →
    owner = go ∨ store.isDeleted owner = true
  displaces : store.isDeleted go = false → ∀ mComponents old,
    store.bodyAt go = some (.gameObject mComponents) →
    mComponents.lookup classComponent = some (.shared old) → com ≠ .shared old →
    old ∉ store.held ∧ ∀ ref, store.Lists ref old → ref = go

variable {store after : Store}

theorem TwoSided.of_agrees (agrees : ∀ cmp_ptr mGameObj go mComponents,
    store.LiveObject cmp_ptr (.component mGameObj) →
    store.LiveObject go (.gameObject mComponents) →
    (mGameObj = .object go ↔ store.Files mComponents classComponent cmp_ptr)) :
    store.TwoSided where
  agrees := agrees
  listedOnce := by
    intro cmp_ptr mGameObj go go' mComponents mComponents' live owner owner' files files'
    have first := (agrees cmp_ptr mGameObj go mComponents live owner).mpr files
    have second := (agrees cmp_ptr mGameObj go' mComponents' live owner').mpr files'
    exact GameObjectPtr.object.inj (first.symm.trans second)

theorem files_congr {go : ObjectRef} {mComponents : ComponentMap}
    (here : after.bodyAt go = some (.gameObject mComponents))
    (resolves : ∀ handle, after.Lists go handle →
      after.resolve (.shared handle) = store.resolve (.shared handle))
    (key : Int) (cmp_ptr : ObjectRef) :
    after.Files mComponents key cmp_ptr ↔ store.Files mComponents key cmp_ptr := by
  unfold Files
  cases slot : mComponents.lookup key with
  | none => simp
  | some ptr =>
      cases ptr with
      | null => simp [resolve]
      | placeholder m_link_key => simp [resolve]
      | shared handle =>
          have lists : after.Lists go handle :=
            ⟨mComponents, here, mem_handles_iff.mpr ⟨key, slot⟩⟩
          rw [Option.bind_some, Option.bind_some, resolves handle lists]

theorem Files.entry (sound : Sound true [] store) {mComponents : ComponentMap} {key : Int}
    {cmp_ptr : ObjectRef} (files : store.Files mComponents key cmp_ptr) :
    ∃ handle id entry, mComponents.lookup key = some (.shared handle) ∧
      store.resolve (.shared handle) = some cmp_ptr ∧ store.mObjects.lookup id = some entry ∧
      entry.unique = cmp_ptr ∧ entry.handle = handle := by
  obtain ⟨ptr, slot, points⟩ := Option.bind_eq_some_iff.mp files
  obtain ⟨handle, m_link_key, rfl, -⟩ := resolve_eq_some_iff.mp points
  obtain ⟨id, entry, found, same, own⟩ := listed_entry sound points
  exact ⟨handle, id, entry, slot, points, found, same, own⟩

theorem LiveObject.handle {ref : ObjectRef} {body : Body} (live : store.LiveObject ref body)
    (sound : Sound true [] store) : ∃ id entry, store.mObjects.lookup id = some entry ∧
      entry.unique = ref ∧ store.isHeld entry.handle = true := by
  obtain ⟨id, entry, found, rfl⟩ := live.registered
  refine ⟨id, entry, found, rfl, ?_⟩
  by_contra free
  rw [isHeld_iff_lists, not_or, not_exists] at free
  have marked := (marked_iff sound found).mpr free
  rw [live.unmarked] at marked
  cases marked

theorem unmarked_of_held (sound : Sound true [] store) {id : Nat} {entry : ObjEntry}
    (found : store.mObjects.lookup id = some entry) (held : store.isHeld entry.handle = true) :
    store.isDeleted entry.unique = false := by
  rw [← Bool.not_eq_true, marked_iff sound found, ← not_exists, ← not_or, ← isHeld_iff_lists]
  exact fun free => free held

theorem TwoSided.of_frame (two : store.TwoSided) (sound : Sound true [] store)
    (sound' : Sound true [] after) (frame : Frame ∅ store after) : after.TwoSided := by
  have bodies (ref : ObjectRef) := frame.bodyAt ref (Set.notMem_empty ref)
  have before {ref : ObjectRef} {body : Body} (live : after.LiveObject ref body) :
      store.LiveObject ref body := by
    obtain ⟨id, entry, found, rfl, held⟩ := live.handle sound'
    have held' : store.isHeld entry.handle = true := by
      rw [isHeld_iff] at held ⊢
      simp only [bodies] at held
      exact held.imp_left fun member => frame.held member
    rw [frame.mObjects] at found
    exact ⟨(bodies _).symm.trans live.here, unmarked_of_held sound found held', id, entry, found, rfl⟩
  apply TwoSided.of_agrees
  intro cmp_ptr mGameObj go mComponents live owner
  rw [files_congr owner.here fun _ lists => resolve_of_frame sound'.toValid frame lists.isHeld]
  exact two.agrees cmp_ptr mGameObj go mComponents (before live) (before owner)

theorem TwoSided.hold (two : store.TwoSided) (handle : HandleRef) :
    TwoSided { store with held := handle :: store.held } := by
  apply TwoSided.of_agrees
  intro cmp_ptr mGameObj go mComponents live owner
  exact two.agrees cmp_ptr mGameObj go mComponents ⟨live.here, live.unmarked, live.registered⟩
    ⟨owner.here, owner.unmarked, owner.registered⟩

theorem LiveObject.before_new {ob : Object} {ref : ObjectRef} {body : Body}
    (live : (store.withNewObject ob).LiveObject ref body) (sound : Sound true [] store)
    (old : ref ≠ store.nextObject) : store.LiveObject ref body := by
  have here := live.here
  rw [withNewObject_bodyAt, if_neg old] at here
  obtain ⟨id, entry, found, same⟩ := live.registered
  refine ⟨here, ?_, ?_⟩
  · have unmarked := live.unmarked
    rw [isDeleted, withNewObject_oldObject _ (sound.objectsFresh ref _ here)] at unmarked
    exact unmarked
  · rcases withNewObject_entry found with ⟨-, rfl⟩ | ⟨-, found'⟩
    · exact (old same.symm).elim
    · exact ⟨id, entry, found', same⟩

theorem resolve_withNewObject (sound : Sound true [] store) (ob : Object) {go : ObjectRef}
    {mComponents : ComponentMap} (here : store.bodyAt go = some (.gameObject mComponents))
    {handle : HandleRef} (lists : (store.withNewObject ob).Lists go handle) :
    (store.withNewObject ob).resolve (.shared handle) = store.resolve (.shared handle) := by
  obtain ⟨components, there, owns⟩ := lists
  have old : go ≠ store.nextObject := Nat.ne_of_lt (sound.objectsFresh go _ here)
  rw [withNewObject_bodyAt, if_neg old] at there
  have held : store.isHeld handle = true := Lists.isHeld ⟨components, there, owns⟩
  rw [resolve, resolve, withNewObject_oldHandle _ (sound.toValid.held_lt held)]

theorem TwoSided.withNewObject (two : store.TwoSided) (sound : Sound true [] store) {body : Body}
    (fresh : body = .gameObject ∅ ∨ body = .component .null) :
    (store.withNewObject { body := body }).TwoSided := by
  apply TwoSided.of_agrees
  intro cmp_ptr mGameObj go mComponents live owner
  by_cases newOwner : go = store.nextObject
  · -- a new `GameObject` is empty, and nothing points to it yet
    have empty := owner.here
    rw [withNewObject_bodyAt, if_pos newOwner] at empty
    rcases fresh with rfl | rfl
    · cases empty
      refine iff_of_false ?_ (by simp [Files])
      rintro rfl
      have other : cmp_ptr ≠ store.nextObject := by
        rintro rfl
        have here := live.here
        rw [withNewObject_bodyAt, if_pos rfl] at here
        cases here
      have bound := sound.ownersFresh cmp_ptr go (live.before_new sound other).here
      exact absurd newOwner (Nat.ne_of_lt bound)
    · cases empty
  · have owner' := owner.before_new sound newOwner
    rw [files_congr owner.here fun _ lists => resolve_withNewObject sound _ owner'.here lists]
    by_cases new : cmp_ptr = store.nextObject
    · have bare := live.here
      rw [withNewObject_bodyAt, if_pos new] at bare
      rcases fresh with rfl | rfl
      · cases bare
      · cases bare
        refine iff_of_false (fun same => by cases same) fun files => ?_
        obtain ⟨handle, id, entry, -, -, found, same, -⟩ := files.entry sound
        exact absurd (same.trans new) (Nat.ne_of_lt (sound.toValid.unique_lt found))
    · exact two.agrees cmp_ptr mGameObj go mComponents (live.before_new sound new) owner'

end Store

section AddComponent
variable {store after : Store} {rt : Runtime} {table : CmpMsgsTable} {go : ObjectRef}
  {com : PObjHandle} {calls : List Call}

structure Adopts (store after : Store) (go : ObjectRef) (handle : HandleRef)
    (cmp_ptr : ObjectRef) (mGameObj : GameObjectPtr) (mComponents : ComponentMap) : Prop where
  points : store.resolve (.shared handle) = some cmp_ptr
  component : store.bodyAt cmp_ptr = some (.component mGameObj)
  owner : store.bodyAt go = some (.gameObject mComponents)
  adopted : after.bodyAt cmp_ptr = some (.component (.object go))
  filed : after.bodyAt go = some (.gameObject (mComponents.insert classComponent (.shared handle)))
  others : ∀ ref, ref ≠ cmp_ptr → ref ≠ go → after.bodyAt ref = store.bodyAt ref
  table : after.mObjects = store.mObjects
  held : after.held = store.held
  resolves : ∀ other, after.isHeld other = true →
    after.resolve (.shared other) = store.resolve (.shared other)
  lists : ∀ ref other, after.Lists ref other ↔
    (ref = go ∧ other = handle) ∨ (ref ≠ go ∧ store.Lists ref other)

theorem adopts_of_addComponent (built' : Built after)
    (result : addComponent rt table store go com = .ok (after, calls)) :
    ∃ handle cmp_ptr mGameObj mComponents, com = .shared handle ∧
      Adopts store after go handle cmp_ptr mGameObj mComponents := by
  obtain ⟨handle, cmp_ptr, mGameObj, mComponents, rfl, points, here, owner, apart, linked, adopted,
    filed⟩ := addComponent_bodies result
  have others (ref : ObjectRef) (notCmp : ref ≠ cmp_ptr) (notGo : ref ≠ go) :
      after.bodyAt ref = store.bodyAt ref := linked.bodyAt ref (by simp [notCmp, notGo])
  refine ⟨handle, cmp_ptr, mGameObj, mComponents, rfl, points, here, owner, adopted, filed, others,
    linked.mObjects, linked.sameHeld,
    fun other held => resolve_of_frame built'.sound.toValid linked.toFrame held, fun ref other => ?_⟩
  constructor
  · rintro ⟨components, there, owns⟩
    by_cases atGo : ref = go
    · subst atGo
      obtain ⟨key, slot⟩ := mem_handles_iff.mp owns
      -- every slot has the key of its component, so the new one is the only one
      obtain ⟨rfl, -⟩ := built'.assembled.shaped ref _ there key _ slot
      obtain rfl : mComponents.insert classComponent (.shared handle) = components := by
        simpa [filed] using there
      rw [AList.lookup_insert] at slot
      exact .inl ⟨rfl, (PObjHandle.shared.inj (Option.some.inj slot)).symm⟩
    · refine .inr ⟨atGo, components, ?_, owns⟩
      rw [← others ref _ atGo, there]
      rintro rfl
      rw [adopted] at there
      cases there
  · rintro (⟨rfl, rfl⟩ | ⟨notGo, components, there, owns⟩)
    · exact ⟨_, filed, mem_handles_iff.mpr ⟨classComponent, AList.lookup_insert _⟩⟩
    · refine ⟨components, ?_, owns⟩
      rw [others ref _ notGo, there]
      rintro rfl
      rw [here] at there
      cases there

namespace Adopts
variable {handle : HandleRef} {cmp_ptr : ObjectRef} {mGameObj : GameObjectPtr}
  {mComponents : ComponentMap} (adopts : Adopts store after go handle cmp_ptr mGameObj mComponents)
include adopts

theorem handle_held (sound : Sound true [] store) : store.isHeld handle = true := by
  exact held_of_resolve sound adopts.points

theorem held_before (sound : Sound true [] store) {other : HandleRef}
    (held : after.isHeld other = true) : store.isHeld other = true := by
  rcases isHeld_iff_lists.mp held with member | ⟨ref, lists⟩
  · exact isHeld_iff_lists.mpr (.inl (adopts.held ▸ member))
  · rcases (adopts.lists ref other).mp lists with ⟨-, rfl⟩ | ⟨-, before⟩
    · exact adopts.handle_held sound
    · exact before.isHeld

theorem unmarked_before (sound : Sound true [] store) (sound' : Sound true [] after)
    {ref : ObjectRef} {body : Body} (live : after.LiveObject ref body) :
    store.isDeleted ref = false ∧
      ∃ id entry, store.mObjects.lookup id = some entry ∧ entry.unique = ref := by
  obtain ⟨id, entry, found, rfl, held⟩ := live.handle sound'
  rw [adopts.table] at found
  exact ⟨unmarked_of_held sound found (adopts.held_before sound held), id, entry, found, rfl⟩

theorem live_after (sound' : Sound true [] after) {id : Nat} {entry : ObjEntry} {body : Body}
    (found : store.mObjects.lookup id = some entry) (held : after.isHeld entry.handle = true)
    (here : after.bodyAt entry.unique = some body) : after.LiveObject entry.unique body := by
  rw [← adopts.table] at found
  exact ⟨here, unmarked_of_held sound' found held, id, entry, found, rfl⟩

theorem component_live (sound : Sound true [] store) (sound' : Sound true [] after) :
    store.LiveObject cmp_ptr (.component mGameObj) ∧
      after.LiveObject cmp_ptr (.component (.object go)) := by
  obtain ⟨id, entry, found, rfl, rfl⟩ := listed_entry sound adopts.points
  have lists : after.Lists go entry.handle := (adopts.lists go _).mpr (.inl ⟨rfl, rfl⟩)
  exact ⟨⟨adopts.component, unmarked_of_held sound found (adopts.handle_held sound), id, entry,
    found, rfl⟩, adopts.live_after sound' found lists.isHeld adopts.adopted⟩

theorem gameObject_live (kept : Kept store) (kept' : Kept after) {ref : ObjectRef}
    {components components' : ComponentMap} (live : store.LiveObject ref (.gameObject components))
    (here : after.bodyAt ref = some (.gameObject components')) :
    after.LiveObject ref (.gameObject components') := by
  obtain ⟨id, entry, found, rfl, held⟩ := live.handle kept.sound
  rcases isHeld_iff_lists.mp held with member | ⟨ref', lists⟩
  · rw [← adopts.held] at member
    exact adopts.live_after kept'.sound found (isHeld_iff_lists.mpr (.inl member)) here
  · exact absurd lists (kept.populated.not_lists_gameObject kept.sound found live.here ref')

theorem files_before {ref : ObjectRef} {components : ComponentMap}
    (there : after.bodyAt ref = some (.gameObject components)) (key : Int) (cmp : ObjectRef) :
    after.Files components key cmp ↔ store.Files components key cmp :=
  files_congr there (fun handle lists => adopts.resolves handle lists.isHeld) key cmp

theorem files_new (cmp : ObjectRef) :
    after.Files (mComponents.insert classComponent (.shared handle)) classComponent cmp ↔
      cmp = cmp_ptr := by
  rw [adopts.files_before adopts.filed, Files, AList.lookup_insert, Option.bind_some,
    adopts.points, Option.some.injEq, eq_comm]

theorem cmp_ptr_unique (sound : Sound true [] store) {other : HandleRef}
    (points : store.resolve (.shared other) = some cmp_ptr) : other = handle := by
  obtain ⟨id, entry, found, same, rfl⟩ := listed_entry sound points
  obtain ⟨id', entry', found', same', rfl⟩ := listed_entry sound adopts.points
  obtain rfl := sound.toValid.unique_injective found found' (same.trans same'.symm)
  rw [Option.some.inj (found.symm.trans found')]

theorem unowned (kept : Kept store) (kept' : Kept after) (built : Built store)
    (two : store.TwoSided) (two' : after.TwoSided) {owner : ObjectRef}
    (owned : store.bodyAt cmp_ptr = some (.component (.object owner))) :
    owner = go ∨ store.isDeleted owner = true := by
  obtain ⟨live, live'⟩ := adopts.component_live kept.sound kept'.sound
  obtain rfl : mGameObj = .object owner := by simpa [adopts.component] using owned
  by_contra other
  rw [not_or, Bool.not_eq_true] at other
  obtain ⟨notGo, unmarked⟩ := other
  rcases built.assembled.shaped cmp_ptr _ adopts.component with null | ⟨ref, components, same, there⟩
  · cases null
  · obtain rfl := GameObjectPtr.object.inj same
    have ownerLive : store.LiveObject owner (.gameObject components) :=
      ⟨there, unmarked, kept.populated.owned owner _ there⟩
    have notCmp : owner ≠ cmp_ptr := by
      rintro rfl
      rw [adopts.component] at there
      cases there
    have there' := (adopts.others owner notCmp notGo).trans there
    have ownerLive' := adopts.gameObject_live kept kept' ownerLive there'
    -- the old owner still lists the component
    have files := (two.agrees cmp_ptr _ owner components live ownerLive).mp rfl
    have files' := (adopts.files_before there' _ _).mpr files
    have same := (two'.agrees cmp_ptr _ owner components live' ownerLive').mpr files'
    exact notGo (GameObjectPtr.object.inj same).symm

theorem displaces (kept : Kept store) (kept' : Kept after) (two : store.TwoSided)
    (two' : after.TwoSided) (unmarked : store.isDeleted go = false) {old : HandleRef}
    (slot : mComponents.lookup classComponent = some (.shared old)) (differs : handle ≠ old) :
    old ∉ store.held ∧ ∀ ref, store.Lists ref old → ref = go := by
  have goLive : store.LiveObject go (.gameObject mComponents) :=
    ⟨adopts.owner, unmarked, kept.populated.owned go _ adopts.owner⟩
  have goLive' := adopts.gameObject_live kept kept' goLive adopts.filed
  have lists : store.Lists go old :=
    ⟨mComponents, adopts.owner, mem_handles_iff.mpr ⟨classComponent, slot⟩⟩
  obtain ⟨displaced, itsOwner, points, known⟩ := kept.populated.listed go old lists
  obtain ⟨id, entry, found, rfl, rfl⟩ := listed_entry kept.sound points
  have notCmp : entry.unique ≠ cmp_ptr := fun same =>
    differs (adopts.cmp_ptr_unique kept.sound (same ▸ points)).symm
  have notGo : entry.unique ≠ go := by
    intro same
    rw [same, adopts.owner] at known
    cases known
  by_contra shared
  have held' : after.isHeld entry.handle = true := by
    rw [not_and_or, not_not, not_forall] at shared
    refine isHeld_iff_lists.mpr ?_
    rcases shared with member | ⟨ref, another⟩
    · exact .inl (adopts.held ▸ member)
    · obtain ⟨lists', other⟩ := Classical.not_imp.mp another
      exact .inr ⟨ref, (adopts.lists ref _).mpr (.inr ⟨other, lists'⟩)⟩
  have displacedLive : store.LiveObject entry.unique (.component itsOwner) :=
    ⟨known, unmarked_of_held kept.sound found lists.isHeld, id, entry, found, rfl⟩
  have displacedLive' := adopts.live_after kept'.sound found held'
    ((adopts.others entry.unique notCmp notGo).trans known)
  -- the displaced component still points to the `GameObject`, which lists another one
  have owned : itsOwner = .object go :=
    (two.agrees _ _ go mComponents displacedLive goLive).mpr (by
      show store.Files mComponents classComponent entry.unique
      rw [Files, slot]
      exact points)
  have files := (two'.agrees _ _ go _ displacedLive' goLive').mp owned
  exact notCmp ((adopts.files_new entry.unique).mp files)

theorem adoptable (kept : Kept store) (kept' : Kept after) (built : Built store)
    (two : store.TwoSided) (two' : after.TwoSided) : store.Adoptable go (.shared handle) where
  unowned := by
    intro cmp owner points here
    obtain rfl := Option.some.inj (adopts.points.symm.trans points)
    exact adopts.unowned kept kept' built two two' here
  displaces := by
    intro unmarked components old here slot differs
    obtain rfl : mComponents = components := by simpa [adopts.owner] using here
    exact adopts.displaces kept kept' two two' unmarked slot fun same => differs (congrArg _ same)

theorem owner_iff_files (sound : Sound true [] store) (sound' : Sound true [] after)
    (two : store.TwoSided) (adoptable : store.Adoptable go (.shared handle)) {ref : ObjectRef}
    {components : ComponentMap} (owner : after.LiveObject ref (.gameObject components)) :
    GameObjectPtr.object go = .object ref ↔ after.Files components classComponent cmp_ptr := by
  obtain ⟨unmarked, registered⟩ := adopts.unmarked_before sound sound' owner
  have notCmp : ref ≠ cmp_ptr := by
    rintro rfl
    have here := owner.here
    rw [adopts.adopted] at here
    cases here
  by_cases atGo : ref = go
  · subst atGo
    obtain rfl : mComponents.insert classComponent (.shared handle) = components := by
      simpa [adopts.filed] using owner.here
    exact iff_of_true rfl ((adopts.files_new cmp_ptr).mpr rfl)
  · refine iff_of_false (fun same => atGo (GameObjectPtr.object.inj same).symm) fun files => ?_
    -- a `GameObject` that lists the component was its owner before
    have there := (adopts.others ref notCmp atGo).symm.trans owner.here
    have was := (two.agrees cmp_ptr mGameObj ref components
      (adopts.component_live sound sound').1 ⟨there, unmarked, registered⟩).mpr
      ((adopts.files_before owner.here _ _).mp files)
    have owned := adopts.component
    rw [was] at owned
    rcases adoptable.unowned cmp_ptr ref adopts.points owned with same | marked
    · exact atGo same
    · rw [unmarked] at marked
      cases marked

theorem displaced_marked (sound : Sound true [] store) (sound' : Sound true [] after)
    (two : store.TwoSided) (adoptable : store.Adoptable go (.shared handle)) {cmp : ObjectRef}
    (atCmp : cmp ≠ cmp_ptr) (here : store.bodyAt cmp = some (.component (.object go)))
    (live : after.LiveObject cmp (.component (.object go))) {components : ComponentMap}
    (owner : after.LiveObject go (.gameObject components)) : False := by
  obtain ⟨unmarked, registered⟩ := adopts.unmarked_before sound sound' live
  obtain ⟨ownerUnmarked, ownerRegistered⟩ := adopts.unmarked_before sound sound' owner
  have files := (two.agrees cmp _ go mComponents ⟨here, unmarked, registered⟩
    ⟨adopts.owner, ownerUnmarked, ownerRegistered⟩).mp rfl
  obtain ⟨old, id, entry, slot, points, found, rfl, rfl⟩ := files.entry sound
  have differs : PObjHandle.shared handle ≠ .shared entry.handle := by
    intro same
    rw [← PObjHandle.shared.inj same, adopts.points] at points
    exact atCmp (Option.some.inj points).symm
  -- the slot was the component's, and nobody but the slot held its handle
  obtain ⟨outside, listers⟩ :=
    adoptable.displaces ownerUnmarked mComponents entry.handle adopts.owner slot differs
  obtain ⟨id', entry', found', same, held⟩ := live.handle sound'
  rw [adopts.table] at found'
  obtain rfl := sound.toValid.unique_injective found' found same
  obtain rfl := Option.some.inj (found'.symm.trans found)
  rcases isHeld_iff_lists.mp held with member | ⟨other, lists⟩
  · exact outside (adopts.held ▸ member)
  · rcases (adopts.lists other _).mp lists with ⟨-, same'⟩ | ⟨notThis, before⟩
    · exact differs (congrArg _ same'.symm)
    · exact notThis (listers other before)

theorem twoSided (sound : Sound true [] store) (sound' : Sound true [] after)
    (two : store.TwoSided) (adoptable : store.Adoptable go (.shared handle)) : after.TwoSided := by
  apply TwoSided.of_agrees
  intro cmp itsOwner ref components live owner
  have notGo : cmp ≠ go := by
    rintro rfl
    have here := live.here
    rw [adopts.filed] at here
    cases here
  have notCmp : ref ≠ cmp_ptr := by
    rintro rfl
    have here := owner.here
    rw [adopts.adopted] at here
    cases here
  by_cases atCmp : cmp = cmp_ptr
  · subst atCmp
    obtain rfl : .object go = itsOwner := by simpa [adopts.adopted] using live.here
    exact adopts.owner_iff_files sound sound' two adoptable owner
  · have here := (adopts.others cmp atCmp notGo).symm.trans live.here
    by_cases atGo : ref = go
    · subst atGo
      obtain rfl : mComponents.insert classComponent (.shared handle) = components := by
        simpa [adopts.filed] using owner.here
      refine iff_of_false ?_ fun files => atCmp ((adopts.files_new cmp).mp files)
      rintro rfl
      exact adopts.displaced_marked sound sound' two adoptable atCmp here live owner
    · obtain ⟨unmarked, registered⟩ := adopts.unmarked_before sound sound' live
      obtain ⟨ownerUnmarked, ownerRegistered⟩ := adopts.unmarked_before sound sound' owner
      have there := (adopts.others ref notCmp atGo).symm.trans owner.here
      rw [adopts.files_before owner.here]
      exact two.agrees cmp itsOwner ref components ⟨here, unmarked, registered⟩
        ⟨there, ownerUnmarked, ownerRegistered⟩

end Adopts

end AddComponent

structure Paired (store : Store) : Prop extends Kept store where
  built : Built store
  twoSided : store.TwoSided

def Operation.Adoptable : Operation → Store → Prop
  | .addComponent go com, store => store.Adoptable go com
  | _, _ => True

theorem Paired.step {op : Operation} {store after : Store} (paired : Paired store)
    (next : Assembles op store after) :
    (after.TwoSided ↔ op.Adoptable store) ∧ (op.Adoptable store → Paired after) := by
  have kept := paired.toKept
  have kept' := kept.assemble next
  have built' := next.built paired.built
  have sound := kept.sound
  have always (two : after.TwoSided) (trivially : op.Adoptable store) :
      (after.TwoSided ↔ op.Adoptable store) ∧ (op.Adoptable store → Paired after) :=
    ⟨iff_of_true two trivially, fun _ => ⟨kept', built', two⟩⟩
  cases next with
  | createGameObject room result =>
      obtain rfl := createDefaultObj_new sound.toValid (lookup_registry classGameObject) result
      refine always ?_ trivial
      exact paired.twoSided.withNewObject sound (.inl rfl)
  | createComponent room result =>
      obtain rfl := createDefaultObj_new sound.toValid (lookup_registry classComponent) result
      refine always ?_ trivial
      exact paired.twoSided.withNewObject sound (.inr rfl)
  | addComponent result =>
      obtain ⟨handle, cmp_ptr, mGameObj, mComponents, rfl, adopts⟩ :=
        adopts_of_addComponent built' result
      have two' := adopts.twoSided sound kept'.sound paired.twoSided
      exact ⟨⟨adopts.adoptable kept kept' paired.built paired.twoSided, two'⟩,
        fun adoptable => ⟨kept', built', two' adoptable⟩⟩
  | copy live => exact always (paired.twoSided.hold _) trivial
  | drop handle =>
      exact always (paired.twoSided.of_frame sound kept'.sound (dropHandle_frame _ handle)) trivial

theorem empty_paired : Paired {} where
  toKept := empty_kept
  built := .empty
  twoSided := TwoSided.of_agrees fun _ _ _ _ live => (nomatch live.here)

theorem twoSided_iff {past : List (Store × Operation)} {last : Store}
    (run : Run Assembles {} past last) :
    Always TwoSided past last ↔ ∀ entry ∈ past, entry.2.Adoptable entry.1 :=
  run.always_iff empty_paired Paired.twoSided Paired.step

section Adopted

def pairing : List (Store × Operation) :=
  [({}, .createGameObject), (oneGameObject, .createComponent),
    (oneGameObject.registerObj { body := .component .null }, .addComponent 0 (.shared 1))]

theorem pairing_run : Run Assembles {} pairing adopted := by
  have result : addComponent plainRuntime ∅ (oneGameObject.registerObj { body := .component .null })
      0 (.shared 1) = .ok (adopted, []) := rfl
  exact .snoc (.snoc (.snoc .nil (.createGameObject (by decide) (by rfl)))
    (.createComponent (by decide) (by rfl))) (.addComponent result)

theorem twoSided_adopted : Always TwoSided pairing adopted := by
  refine (twoSided_iff pairing_run).mpr ?_
  simp only [pairing, List.forall_mem_cons, Operation.Adoptable]
  refine ⟨trivial, trivial, ⟨?_, ?_⟩, fun _ none => (List.not_mem_nil none).elim⟩
  · intro cmp_ptr owner points here
    obtain rfl : 1 = cmp_ptr := Option.some.inj points
    cases here
  · intro unmarked mComponents old here slot
    cases here
    cases slot

def displaced : Store :=
  ((adopted.registerObj { body := .component .null }).setGameObject 2
    (.object 0)).setComponent 0 classComponent (.shared 2)

theorem displaced_one_sided : ∃ past last,
    Run Assembles {} past last ∧ ¬ Always TwoSided past last := by
  have result : addComponent plainRuntime ∅ (adopted.registerObj { body := .component .null })
      0 (.shared 2) = .ok (displaced, []) := rfl
  refine ⟨_, displaced, (pairing_run.snoc (.createComponent (by decide) (by rfl))).snoc
    (.addComponent result), fun always => ?_⟩
  have first : displaced.LiveObject 1 (.component (.object 0)) := ⟨rfl, rfl, 2, ⟨1, 1⟩, rfl, rfl⟩
  have owner : displaced.LiveObject 0
      (.gameObject (adoptedComponents.insert classComponent (.shared 2))) :=
    ⟨rfl, rfl, 1, ⟨0, 0⟩, rfl, rfl⟩
  have files := (always.2.agrees 1 (.object 0) 0 _ first owner).mp rfl
  cases files

end Adopted

end PackagedTask.Objects
