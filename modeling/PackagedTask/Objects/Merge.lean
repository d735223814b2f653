import PackagedTask.Objects.Acceptance
import PackagedTask.Objects.Ownership

namespace PackagedTask.Objects
open Streams Library Store

/-- A load of `stream` succeeds and only adds to the manager what `alone` got from it. -/
def OnlyAdds (rt : Runtime) (store : Store) (objects : List HandleRef)
    (stream : InputMemoryStream) (alone : Store) : Prop :=
  ∃ after, Deserializes rt store objects stream (.ok ()) after ∧
    (∃ f, (alone.graph alone.ids).IsIso
      (after.store.graph {id | id ∈ after.store.ids ∧ id ∉ store.ids}) f) ∧
    ∀ id entry, store.mObjects.lookup id = some entry →
      after.store.mObjects.lookup id = some entry ∧
        after.store.bodyAt entry.unique = store.bodyAt entry.unique

namespace Load

variable {rt : Runtime} {loader after : Loader} {objs : List Object} {linked : Store}

theorem entry_old (load : Load loader objs after) {id : Nat} {entry : ObjEntry}
    (found : loader.store.mObjects.lookup id = some entry) :
    after.store.mObjects.lookup id = some entry := by
  rw [load.registered.entries, if_pos (load.valid.keyed id entry found).2.1, found]

theorem bodyAt_old (load : Load loader objs after) {id : Nat} {entry : ObjEntry}
    (found : loader.store.mObjects.lookup id = some entry) :
    after.store.bodyAt entry.unique = loader.store.bodyAt entry.unique := by
  rw [bodyAt, load.registered.lookup_old (load.valid.unique_lt found), bodyAt]

theorem newIds_eq (load : Load loader objs after) (finishes : Finishes rt after linked) :
    {id | id ∈ linked.ids ∧ id ∉ loader.store.ids} = newIds loader objs := by
  obtain ⟨touched, frame⟩ := load.relinked finishes
  ext id
  simp only [Store.ids, newIds, Set.mem_ofPred_eq, frame.mObjects]
  constructor
  · rintro ⟨present, absent⟩
    obtain ⟨entry, found⟩ := Option.isSome_iff_exists.mp present
    rcases load.registered.entry_cases found with ⟨-, before⟩ | ⟨i, inside, rfl, -⟩
    · rw [before] at absent
      exact absurd rfl absent
    · omega
  · rintro ⟨low, high⟩
    obtain ⟨i, rfl⟩ := Nat.exists_eq_add_of_le low
    refine ⟨?_, ?_⟩
    · rw [load.registered.entry_new (by omega)]
      rfl
    · intro present
      obtain ⟨entry, found⟩ := Option.isSome_iff_exists.mp present
      have below := (load.valid.keyed _ entry found).2.1
      omega

theorem newIds_of_empty (load : Load loader objs after) (finishes : Finishes rt after linked)
    (empty : loader.store.mObjects = ∅) : newIds loader objs = linked.ids := by
  rw [← load.newIds_eq finishes]
  ext id
  simp [Store.ids, empty]

theorem inert_of_nil_lookup {mComponents : ComponentMap}
    (empty : ∀ key, mComponents.lookup key = none) : mComponents = ∅ := by
  apply AList.ext
  rw [AList.empty_entries]
  apply List.eq_nil_iff_forall_not_mem.mpr
  rintro ⟨key, ptr⟩ member
  have found := AList.mem_lookup_iff.mpr member
  rw [empty key] at found
  cases found

theorem inert_linked {id_remap : IdRemap} {mObjects : ObjectMap} {body body' : Body}
    (inert : body.Inert) (links : BodyLinks rt id_remap mObjects body body') : body' = body := by
  cases body with
  | object => exact links
  | component mGameObj => exact inert.elim
  | gameObject mComponents =>
      obtain rfl : mComponents = ∅ := inert
      obtain ⟨linkedComponents, rfl, -, absent⟩ := links
      rw [inert_of_nil_lookup fun key => absent key (AList.lookup_empty key)]

theorem inert_of_fixed (load : Load loader objs after) {ref : ObjectRef} {body : Body}
    (old : loader.store.bodyAt ref = some body)
    (links : BodyLinks rt after.istance_id_remap after.store.mObjects body body) : body.Inert := by
  cases body with
  | object => trivial
  | component mGameObj =>
      obtain ⟨entry, aimed, same⟩ := links
      obtain ⟨i, -, -, rfl⟩ := load.target_some aimed
      obtain rfl := Body.component.inj same
      -- linking would aim it at a new object, and an old reference is below those
      have bound := load.valid.ownersFresh ref _ old
      simp only at bound
      lia
  | gameObject mComponents =>
      obtain ⟨linkedComponents, same, slots, -⟩ := links
      obtain rfl := Body.gameObject.inj same
      apply inert_of_nil_lookup
      intro key
      cases present : mComponents.lookup key with
      | none => rfl
      | some ptr =>
          obtain ⟨c_inst, entry, -, aimed, final⟩ := slots key ptr present
          obtain ⟨i, -, -, rfl⟩ := load.target_some aimed
          have owns := mem_handles_iff.mpr ⟨key, final⟩
          have bound := load.valid.held_lt (isHeld_iff.mpr (.inr ⟨ref, _, old, owns⟩))
          simp only at bound
          lia

theorem unchanged_iff (load : Load loader objs after) (finishes : Finishes rt after linked) :
    (∀ id entry, loader.store.mObjects.lookup id = some entry →
      linked.mObjects.lookup id = some entry ∧
        linked.bodyAt entry.unique = loader.store.bodyAt entry.unique) ↔ OldInert loader := by
  obtain ⟨touched, frame⟩ := load.relinked finishes
  constructor
  · intro unchanged id entry body found here
    have there := load.bodyAt_old found
    obtain ⟨body', final, links⟩ :=
      load.body_links finishes (load.entry_old found) (there.trans here)
    rw [(unchanged id entry found).2, here] at final
    obtain rfl := Option.some.inj final
    exact load.inert_of_fixed here links
  · intro inert id entry found
    refine ⟨frame.mObjects ▸ load.entry_old found, ?_⟩
    cases here : loader.store.bodyAt entry.unique with
    | none =>
        obtain ⟨object, present, -⟩ :=
          Option.map_eq_some_iff.mp (load.valid.keyed id entry found).2.2
        rw [bodyAt, present] at here
        cases here
    | some body =>
        obtain ⟨body', final, links⟩ :=
          load.body_links finishes (load.entry_old found) ((load.bodyAt_old found).trans here)
        rw [final, inert_linked (inert id entry body found here) links]

end Load

variable {rt rt' : Runtime} {store : Store} {objects : List HandleRef} {stream : InputMemoryStream}
  {alone : Loader}

theorem accepted_decodes (accepted : Deserializes rt' {} [] stream (.ok ()) alone)
    (valid : store.Valid) (room : store.mNextAvailableID + alone.objects.length < 2 ^ 32) :
    ∃ objs last, Decodes stream objs last ∧ last.getRemainingDataSize ≤ 0 ∧
      store.mNextAvailableID + objs.length < 2 ^ 32 ∧
      Load (Loader.start {} [] stream) objs ((Loader.start {} [] stream).registerAll objs) ∧
      Load.Finishes rt' ((Loader.start {} [] stream).registerAll objs) alone.store := by
  obtain ⟨objs, last, linked, decoded, done, finishes, rfl⟩ := deserializes_ok_iff.mp accepted
  rw [registerAll_length] at room
  have count : store.mNextAvailableID + objs.length < 2 ^ 32 := by
    simpa [Loader.start] using room
  have empty : ({} : Store).mNextAvailableID + objs.length < 2 ^ 32 := by
    have first := valid.positive
    show 1 + objs.length < 2 ^ 32
    omega
  exact ⟨objs, last, decoded, done, count,
    .of_decodes empty_sound.toValid [] decoded empty, finishes⟩

theorem nothingToLink_of_onlyAdds (valid : store.Valid)
    (accepted : Deserializes rt' {} [] stream (.ok ()) alone)
    (room : store.mNextAvailableID + alone.objects.length < 2 ^ 32)
    (added : OnlyAdds rt store objects stream alone.store) : store.NothingToLink := by
  obtain ⟨objs, last, decoded, done, count, -, -⟩ := accepted_decodes accepted valid room
  obtain ⟨after, loaded, -, unchanged⟩ := added
  obtain ⟨objs', last', linked, decoded', done', finishes, rfl⟩ := deserializes_ok_iff.mp loaded
  obtain ⟨rfl, rfl⟩ := decoded.deterministic decoded' (streamPass_done done) (streamPass_done done')
  have load := Load.of_decodes valid objects decoded count
  have frame := start_frame store objects stream
  rw [← nothingToLink_start store objects stream]
  apply (load.unchanged_iff finishes).mp
  intro id entry found
  rw [frame.mObjects] at found
  rw [frame.bodyAt _ (Set.notMem_empty _)]
  exact unchanged id entry found

theorem onlyAdds_of_nothingToLink (valid : store.Valid)
    (accepted : Deserializes rt' {} [] stream (.ok ()) alone)
    (room : store.mNextAvailableID + alone.objects.length < 2 ^ 32)
    (inert : store.NothingToLink) : OnlyAdds rt store objects stream alone.store := by
  obtain ⟨objs, last, decoded, done, count, load₀, finishes₀⟩ :=
    accepted_decodes accepted valid room
  have load := Load.of_decodes valid objects decoded count
  have frame := start_frame store objects stream
  have oldInert := (nothingToLink_start store objects stream).mpr inert
  obtain ⟨linked, finishes⟩ :=
    load.finishes_of_resolvable rt oldInert (load₀.resolvable_of_finishes finishes₀)
  refine ⟨_, deserializes_ok_iff.mpr ⟨objs, last, linked, decoded, done, finishes, rfl⟩, ?_, ?_⟩
  · have fromFile := load.graph_iso finishes
    have toFile := (load₀.graph_iso finishes₀).symm (fileGraph_closed objs)
    rw [← load.newIds_eq finishes] at fromFile
    rw [load₀.newIds_of_empty finishes₀ rfl] at toFile
    have sameIds : (Loader.start store objects stream).store.ids = store.ids := by
      rw [Store.ids, frame.mObjects, Store.ids]
    rw [sameIds] at fromFile
    exact ⟨_, toFile.trans fromFile⟩
  · have unchanged := (load.unchanged_iff finishes).mpr oldInert
    intro id entry found
    rw [← frame.mObjects] at found
    rw [← frame.bodyAt _ (Set.notMem_empty _)]
    exact unchanged id entry found

theorem onlyAdds_iff (valid : store.Valid)
    (accepted : Deserializes rt' {} [] stream (.ok ()) alone)
    (room : store.mNextAvailableID + alone.objects.length < 2 ^ 32) :
    OnlyAdds rt store objects stream alone.store ↔ store.NothingToLink :=
  ⟨nothingToLink_of_onlyAdds valid accepted room, onlyAdds_of_nothingToLink valid accepted room⟩

def loneGameObject : InputMemoryStream := streamOf [0xea, 3, 0, 0, 1, 0, 0, 0, 0, 0, 0, 0]

theorem loneGameObject_accepted :
    ∃ alone, Deserializes plainRuntime {} [] loneGameObject (.ok ()) alone ∧
      alone.objects.length = 1 :=
  ⟨_, ⟨2, rfl⟩, rfl⟩

def oneGameObject : Store := ({} : Store).registerObj { body := .gameObject ∅ }

theorem oneGameObject_reached : Reached true oneGameObject [(1, 0)] :=
  .registerObj _ .empty (by decide) ⟨rfl, fun _ owns => (nomatch owns), fun _ same => (nomatch same)⟩

theorem oneGameObject_nothingToLink : oneGameObject.NothingToLink := by
  intro id entry body found here
  by_cases same : id = 1
  · subst same
    cases found
    cases here
    rfl
  · have absent : oneGameObject.mObjects.lookup id = none := AList.lookup_insert_ne same
    rw [absent] at found
    cases found

theorem onlyAdds_iff_gameObjects : ∃ alone,
    OnlyAdds plainRuntime oneGameObject [0] loneGameObject alone := by
  obtain ⟨alone, accepted, count⟩ := loneGameObject_accepted
  exact ⟨alone.store, (onlyAdds_iff oneGameObject_reached.sound.toValid accepted
    (by rw [count]; decide)).mpr oneGameObject_nothingToLink⟩

def adopted : Store :=
  ((oneGameObject.registerObj { body := .component .null }).setGameObject 1
    (.object 0)).setComponent 0 classComponent (.shared 1)

theorem adopted_reached : Reached true adopted [(2, 1), (1, 0)] := by
  have created : Reached true (oneGameObject.registerObj { body := .component .null })
      [(2, 1), (1, 0)] :=
    .registerObj _ oneGameObject_reached (by decide)
      ⟨rfl, fun _ owns => (nomatch owns), fun _ same => (nomatch same)⟩
  have result : addComponent plainRuntime ∅ (oneGameObject.registerObj { body := .component .null })
      0 (.shared 1) = .ok (adopted, []) := rfl
  exact .addComponent created result

theorem adopted_not_onlyAdds : ∃ alone,
    Deserializes plainRuntime {} [] loneGameObject (.ok ()) alone ∧
      ¬ OnlyAdds plainRuntime adopted [] loneGameObject alone.store := by
  obtain ⟨alone, accepted, count⟩ := loneGameObject_accepted
  refine ⟨alone, accepted, fun added => ?_⟩
  exact nothingToLink_of_onlyAdds adopted_reached.sound.toValid accepted
    (by rw [count]; decide) added 2 ⟨1, 1⟩ (.component (.object 0)) rfl rfl

end PackagedTask.Objects
