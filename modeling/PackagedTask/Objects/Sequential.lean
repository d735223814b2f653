import PackagedTask.Objects.Managers
import PackagedTask.Objects.Reloading
import PackagedTask.Objects.Sharing

namespace PackagedTask.Objects.Sharing
open Streams Library Library.StateError

/-! The registry of the threads against the `Store` of one thread whose objects have no handles. -/

def Bare (store : Store) : Prop := ∀ ref body, store.bodyAt ref = some body → body.handles = []

def objectExists (store : Store) (id : Nat) : Bool := (store.mObjects.lookup id).isSome

def obtained (store : Store) : PObjHandle → Result
  | .shared handle => .handle (store.getInstanceId handle)
  | _ => .null

inductive Uses : Call × Result → Store → Store → Prop
  | registerObj {store : Store} {ob : Object} (room : store.mNextAvailableID < 2 ^ 32 - 1)
      (ready : Store.Registrable store ob) (bare : ob.body.handles = []) :
      Uses (.registerObj, .handle store.mNextAvailableID) store (store.registerObj ob)
  | objectExists {store : Store} (id : Nat) :
      Uses (.objectExists id, .exist (objectExists store id)) store store
  | getObject {store after : Store} {id ptr} (result : Objects.getObject id store = .ok ptr after) :
      Uses (.getObject id, obtained store ptr) store (after.hold ptr)
  | getObject_thrown {store after : Store} {id fault}
      (result : Objects.getObject id store = .error fault after) :
      Uses (.getObject id, .thrown fault) store after
  | getObjectPtr {store after : Store} {id ref other}
      (result : Objects.getObjectPtr id store = .ok ref after)
      (this : store.idAt ref = some other) : Uses (.getObjectPtr id, .object other) store after
  | getObjectPtr_thrown {store after : Store} {id fault}
      (result : Objects.getObjectPtr id store = .error fault after) :
      Uses (.getObjectPtr id, .thrown fault) store after
  | releaseUnusedObjects {store : Store} (rt : Runtime) :
      Uses (.releaseUnusedObjects, .nothing) store (store.releaseUnusedObjects rt)
  | drop {store : Store} {handle} (has : handle ∈ store.held) :
      Uses (.drop (store.getInstanceId handle), .nothing) store (store.dropHandle handle)
  | copy {store : Store} {handle} (has : handle ∈ store.held) :
      Uses (.copy (store.getInstanceId handle), .handle (store.getInstanceId handle)) store
        (store.hold (.shared handle))

structure Records (store : Store) (registry : Registry) : Prop where
  sound : Store.Sound true [] store
  bare : Bare store
  issued : ∀ id ∈ registry.issued, id < store.mNextAvailableID
  handles : ∀ id, registry.handles id =
    (store.mObjects.lookup id).map fun entry => store.held.count entry.handle

variable {store after : Store} {registry : Registry} {handle : HandleRef} {id : Nat} {entry : ObjEntry}

theorem Bare.isHeld_iff (bare : Bare store) : store.isHeld handle = true ↔ handle ∈ store.held := by
  rw [Store.isHeld_iff]
  apply or_iff_left
  rintro ⟨ref, body, here, owns⟩
  rw [bare ref body here] at owns
  cases owns

namespace Records

theorem live_iff (records : Records store registry) :
    (store.handles.lookup handle).isSome ↔ handle ∈ store.held := by
  rw [← records.bare.isHeld_iff]
  constructor
  · intro live
    obtain ⟨cell, found⟩ := Option.isSome_iff_exists.mp live
    exact records.sound.held found
  · exact records.sound.alive handle

theorem entry_of_held (records : Records store registry) (has : handle ∈ store.held) :
    ∃ entry, store.mObjects.lookup (store.getInstanceId handle) = some entry ∧
      entry.handle = handle := by
  obtain ⟨cell, found⟩ := Option.isSome_iff_exists.mp (records.live_iff.mpr has)
  rcases records.sound.points handle cell found with ⟨unmanaged, -⟩ | ⟨id, entry, listed, points, same⟩
  · cases unmanaged
  · have numbered := (records.sound.keyed id entry listed).2.2
    have this : store.getInstanceId handle = id := by
      obtain ⟨m_ptr, m_link_key⟩ := cell
      obtain rfl : m_ptr = some entry.unique := points
      rw [Store.idAt] at numbered
      simp [Store.getInstanceId, found, numbered]
    exact ⟨entry, this ▸ listed, same⟩

theorem getInstanceId_eq (records : Records store registry)
    (listed : store.mObjects.lookup id = some entry) (has : entry.handle ∈ store.held) :
    store.getInstanceId entry.handle = id := by
  obtain ⟨other, found, same⟩ := records.entry_of_held has
  exact records.sound.entryHandles _ _ _ _ found listed same

theorem handles_of (records : Records store registry)
    (listed : store.mObjects.lookup id = some entry) :
    registry.handles id = some (store.held.count entry.handle) := by
  rw [records.handles, listed, Option.map_some]

theorem recount (records : Records store registry) (sound : Store.Sound true [] after)
    (bare : Bare after) (objects : after.mObjects = store.mObjects)
    (next : after.mNextAvailableID = store.mNextAvailableID)
    (listed : store.mObjects.lookup id = some entry)
    (others : ∀ other, other ≠ entry.handle → after.held.count other = store.held.count other) :
    Records after (registry.count id (after.held.count entry.handle)) where
  sound := sound
  bare := bare
  issued := by
    rw [next]
    exact records.issued
  handles := by
    intro other
    rw [objects]
    by_cases same : other = id
    · subst same
      simp [Registry.count, listed]
    · have kept : (registry.count id (after.held.count entry.handle)).handles other =
        registry.handles other := by simp [Registry.count, same]
      rw [kept, records.handles]
      apply Option.map_congr
      intro entry' found
      rw [others]
      intro twice
      exact same (records.sound.entryHandles _ _ _ _ found listed twice)

theorem registered {ob : Object} (records : Records store registry)
    (room : store.mNextAvailableID < 2 ^ 32 - 1) (ready : Store.Registrable store ob)
    (plain : ob.body.handles = []) :
    Records (store.withNewObject ob) (registry.register store.mNextAvailableID) where
  sound := records.sound.withNewObject ready room
  bare := by
    intro ref body here
    rw [Store.withNewObject_bodyAt] at here
    split at here
    · cases here
      exact plain
    · exact records.bare ref body here
  issued := by
    have next : (store.mNextAvailableID + 1) % 2 ^ 32 = store.mNextAvailableID + 1 :=
      Nat.mod_eq_of_lt (by omega)
    intro id listed
    simp only [Store.withNewObject, next]
    rcases listed with rfl | old
    · exact Nat.lt_succ_self _
    · exact Nat.lt_succ_of_lt (records.issued id old)
  handles := by
    intro id
    by_cases same : id = store.mNextAvailableID
    · subst same
      have fresh : store.nextHandle ∉ store.held := by
        intro has
        obtain ⟨cell, found⟩ := Option.isSome_iff_exists.mp (records.live_iff.mpr has)
        exact (records.sound.handlesFresh _ cell found).false
      simp [Registry.register, Store.withNewObject, List.count_eq_zero_of_not_mem fresh]
    · have kept : (registry.register store.mNextAvailableID).handles id = registry.handles id := by
        simp [Registry.register, same]
      have old : (store.withNewObject ob).mObjects.lookup id = store.mObjects.lookup id :=
        AList.lookup_insert_ne same
      rw [kept, records.handles, old]
      apply Option.map_congr
      intro entry found
      exact (List.count_cons_of_ne (records.sound.entriesFresh id entry found).ne').symm

end Records

theorem sweep_entries {entries : List (Σ _ : Nat, ObjEntry)} (sound : Store.Sound true [] store)
    (distinct : (entries.map Sigma.fst).Nodup)
    (listed : ∀ id entry, ⟨id, entry⟩ ∈ entries → store.mObjects.lookup id = some entry) (id : Nat) :
    (store.sweep entries).mObjects.lookup id = store.mObjects.lookup id ∨
      (store.sweep entries).mObjects.lookup id = none ∧
        ∃ entry, store.mObjects.lookup id = some entry ∧ entry.handle ∉ store.held := by
  induction entries generalizing store with
  | nil => exact .inl rfl
  | cons first rest ih =>
      obtain ⟨erased, entry⟩ := first
      rw [List.map_cons, List.nodup_cons] at distinct
      rw [Store.sweep]
      have found := listed erased entry List.mem_cons_self
      cases marked : store.isDeleted entry.unique with
      | false =>
          exact ih sound distinct.2 fun other entry' member =>
            listed other entry' (List.mem_cons_of_mem _ member)
      | true =>
          have left (other : Nat) : (store.eraseEntry erased entry).mObjects.lookup other =
              if other = erased then none else store.mObjects.lookup other := by
            rw [Store.eraseEntry, Store.destroyObject_mObjects]
            split
            · next same => rw [same, AList.lookup_erase]
            · next apart => exact AList.lookup_erase_ne apart
          have later := ih (sound.eraseEntry found marked) distinct.2 (by
            intro other entry' member
            rw [left, if_neg, listed other entry' (List.mem_cons_of_mem _ member)]
            rintro rfl
            exact distinct.1 (List.mem_map.mpr ⟨_, member, rfl⟩))
          rw [Store.eraseEntry_held, left id] at later
          by_cases same : id = erased
          · subst same
            have dead := (sound.deleted id entry found).mp marked
            have unheld : entry.handle ∉ store.held := by
              intro has
              have live := sound.alive entry.handle (Store.isHeld_iff.mpr (.inl has))
              rw [dead] at live
              cases live
            rw [if_pos rfl] at later
            right
            refine ⟨?_, entry, found, unheld⟩
            rcases later with gone | ⟨gone, -⟩ <;> exact gone
          · rwa [if_neg same] at later

theorem getObject_error {fault : Fault} (result : Objects.getObject id store = .error fault after) :
    after = store ∧ fault = notCreated ∧ store.mObjects.lookup id = none := by
  unfold Objects.getObject at result
  rw [bind_of_ok (get_apply _)] at result
  cases found : store.mObjects.lookup id with
  | none =>
      rw [found] at result
      cases result
      exact ⟨rfl, rfl, rfl⟩
  | some entry =>
      rw [found] at result
      cases result

theorem getObjectPtr_error {fault : Fault}
    (result : Objects.getObjectPtr id store = .error fault after) :
    after = store ∧ fault = notCreated ∧ store.mObjects.lookup id = none := by
  unfold Objects.getObjectPtr at result
  rw [bind_of_ok (get_apply _)] at result
  cases found : store.mObjects.lookup id with
  | none =>
      rw [found] at result
      cases result
      exact ⟨rfl, rfl, rfl⟩
  | some entry =>
      rw [found] at result
      cases result

namespace Records

theorem missing (records : Records store registry) (absent : store.mObjects.lookup id = none) :
    registry.handles id = none := by
  rw [records.handles, absent, Option.map_none]

theorem used (records : Records store registry) (listed : store.mObjects.lookup id = some entry)
    (has : entry.handle ∈ store.held) :
    ∃ handles, registry.handles id = some (handles + 1) ∧
      store.held.count entry.handle = handles + 1 := by
  obtain ⟨handles, same⟩ := Nat.exists_eq_succ_of_ne_zero (List.count_pos_iff.mpr has).ne'
  exact ⟨handles, by rw [records.handles_of listed, same], same⟩

theorem held (records : Records store registry) (listed : store.mObjects.lookup id = some entry)
    (has : entry.handle ∈ store.held) {handles : Nat}
    (count : store.held.count entry.handle = handles + 1) :
    Records (store.hold (.shared entry.handle)) (registry.count id (handles + 2)) := by
  obtain ⟨cell, found⟩ := Option.isSome_iff_exists.mp (records.live_iff.mpr has)
  have more : (store.hold (.shared entry.handle)).held.count entry.handle = handles + 2 := by
    simp [Store.hold, count]
  rw [← more]
  apply records.recount (records.sound.hold found) records.bare rfl rfl listed
  intro other apart
  exact List.count_cons_of_ne apart.symm

theorem dropped (records : Records store registry) (listed : store.mObjects.lookup id = some entry)
    {handles : Nat} (count : store.held.count entry.handle = handles + 1) :
    Records (store.dropHandle entry.handle) (registry.count id handles) := by
  have frame := Store.dropHandle_frame store entry.handle
  have left : (store.dropHandle entry.handle).held = store.held.erase entry.handle :=
    Store.releaseHandle_held _ _
  have fewer : (store.dropHandle entry.handle).held.count entry.handle = handles := by
    rw [left, List.count_erase_self, count, Nat.add_sub_cancel]
  have same : registry.count id handles =
      registry.count id ((store.dropHandle entry.handle).held.count entry.handle) := by rw [fewer]
  rw [same]
  apply records.recount (records.sound.dropHandle _) _ frame.mObjects frame.mNextAvailableID listed
  · intro other apart
    rw [left, List.count_erase_of_ne apart]
  · intro ref body here
    rw [frame.bodyAt ref (Set.notMem_empty ref)] at here
    exact records.bare ref body here

theorem swept (records : Records store registry) (rt : Runtime) :
    ∃ registry', registry.Sweeps registry' ∧ Records (store.releaseUnusedObjects rt) registry' := by
  have held : (store.releaseUnusedObjects rt).held = store.held := Store.sweep_held _ store
  have issues : Issues store (store.releaseUnusedObjects rt) := sweep_issues _ store
  have entries := sweep_entries records.sound (Store.objectOrder_nodup rt store)
    fun id entry member => Store.mem_objectOrder.mp member
  refine ⟨⟨registry.issued, fun id => ((store.releaseUnusedObjects rt).mObjects.lookup id).map
    fun entry => store.held.count entry.handle⟩, ⟨rfl, ?_⟩, ?_⟩
  · intro id
    rcases entries id with kept | ⟨gone, entry, listed, unheld⟩
    · left
      rw [records.handles]
      exact congrArg (Option.map fun entry => store.held.count entry.handle) kept
    · right
      rw [records.handles_of listed, List.count_eq_zero_of_not_mem unheld]
      exact ⟨rfl, congrArg (Option.map fun entry => store.held.count entry.handle) gone⟩
  · constructor
    · exact records.sound.releaseUnusedObjects rt
    · exact fun ref body here => records.bare ref body (Store.sweep_bodyAt here)
    · rw [issues.counter]
      exact records.issued
    · intro id
      rw [held]

theorem follows {call : Call × Result} (records : Records store registry)
    (uses : Uses call store after) : ∃ registry', Serves call registry registry' ∧
      Records after registry' := by
  cases uses with
  | registerObj room ready bare =>
      have new : store.mNextAvailableID ∉ registry.issued :=
        fun listed => (records.issued _ listed).false
      rw [records.sound.toValid.registerObj_eq]
      exact ⟨_, .registerObj records.sound.positive new, records.registered room ready bare⟩
  | objectExists id =>
      have same : objectExists store id = (registry.handles id).isSome := by
        rw [records.handles, Option.isSome_map, objectExists]
      rw [same]
      exact ⟨registry, .objectExists id, records⟩
  | @getObject _ now id _ result =>
      obtain ⟨rfl, entry, listed, rfl⟩ := getObject_ok result
      by_cases has : entry.handle ∈ now.held
      · have locked : now.lock entry.handle = .shared entry.handle :=
          if_pos (records.live_iff.mpr has)
        obtain ⟨handles, used, count⟩ := records.used listed has
        rw [locked, obtained, records.getInstanceId_eq listed has]
        exact ⟨_, .getObject used, records.held listed has count⟩
      · have locked : now.lock entry.handle = .null :=
          if_neg fun live => has (records.live_iff.mp live)
        have unused := records.handles_of listed
        rw [List.count_eq_zero_of_not_mem has] at unused
        rw [locked]
        exact ⟨registry, .getObject_unused unused, records⟩
  | getObject_thrown result =>
      obtain ⟨rfl, rfl, absent⟩ := getObject_error result
      exact ⟨registry, .getObject_missing (records.missing absent), records⟩
  | getObjectPtr result this =>
      obtain ⟨rfl, entry, listed, rfl⟩ := getObjectPtr_ok result
      rw [(records.sound.keyed _ entry listed).2.2] at this
      cases this
      exact ⟨registry, .getObjectPtr (records.handles_of listed), records⟩
  | getObjectPtr_thrown result =>
      obtain ⟨rfl, rfl, absent⟩ := getObjectPtr_error result
      exact ⟨registry, .getObjectPtr_missing (records.missing absent), records⟩
  | releaseUnusedObjects rt =>
      obtain ⟨registry', sweeps, after⟩ := records.swept rt
      exact ⟨registry', .releaseUnusedObjects sweeps, after⟩
  | drop has =>
      obtain ⟨entry, listed, rfl⟩ := records.entry_of_held has
      obtain ⟨handles, used, count⟩ := records.used listed has
      exact ⟨_, .drop used, records.dropped listed count⟩
  | copy has =>
      obtain ⟨entry, listed, rfl⟩ := records.entry_of_held has
      obtain ⟨handles, used, count⟩ := records.used listed has
      exact ⟨_, .copy used, records.held listed has count⟩

end Records

theorem records_empty : Records {} {} where
  sound := empty_sound
  bare := fun _ _ here => by cases here
  issued := fun _ listed => listed.elim
  handles := fun _ => rfl

variable {past : List (Store × (Call × Result))} {last : Store}

theorem store_refines_registry (run : Run Uses {} past last) :
    ∃ served registry, Run Serves {} served registry ∧
      served.map Prod.snd = past.map Prod.snd ∧ Records last registry := by
  induction run with
  | nil => exact ⟨[], {}, .nil, rfl, records_empty⟩
  | snoc before next ih =>
      obtain ⟨served, registry, run, same, records⟩ := ih
      obtain ⟨registry', serves, records'⟩ := records.follows next
      refine ⟨_, registry', run.snoc serves, ?_, records'⟩
      simp [same]

def plainObject : Object := { body := .object }

theorem plainObject_ready : Store.Registrable {} plainObject where
  unmarked := rfl
  shares := fun _ owns => by cases owns
  owner := fun _ same => by cases same

def oneObjectAnswers : List (Call × Result) :=
  [(.registerObj, .handle 1), (.getObject 1, .handle 1), (.drop 1, .nothing), (.drop 1, .nothing),
    (.getObject 1, .null), (.objectExists 1, .exist true), (.releaseUnusedObjects, .nothing),
    (.getObject 1, .thrown notCreated)]

theorem oneObject_refines : ∃ past last, Run Uses {} past last ∧
    past.map Prod.snd = oneObjectAnswers ∧
    ∃ served registry, Run Serves {} served registry ∧
      served.map Prod.snd = oneObjectAnswers ∧ Records last registry := by
  have run := @Run.nil Store (Call × Result) Uses {}
    |>.snoc (.registerObj (by decide) plainObject_ready rfl)
    |>.snoc (@Uses.getObject _ _ 1 _ rfl)
    |>.snoc (@Uses.drop _ 0 (by decide))
    |>.snoc (@Uses.drop _ 0 (by decide))
    |>.snoc (@Uses.getObject _ _ 1 _ rfl)
    |>.snoc (.objectExists 1)
    |>.snoc (.releaseUnusedObjects plainRuntime)
    |>.snoc (@Uses.getObject_thrown _ _ 1 _ rfl)
  obtain ⟨served, registry, serves, same, records⟩ := store_refines_registry run
  exact ⟨_, _, run, rfl, served, registry, serves, same, records⟩

end PackagedTask.Objects.Sharing
