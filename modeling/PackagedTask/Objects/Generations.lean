import PackagedTask.Objects.Adoption
import PackagedTask.Objects.Reloading

namespace PackagedTask.Objects
open Streams Library Store

/-! Any number of saves and loads, with edits in between. -/

def Body.writtenSize : Body → Nat
  | .object => 0
  | .component .null => 12
  | .component _ => 16
  | .gameObject mComponents => 12 + 8 * mComponents.entries.length

variable {rt : Runtime} {store linked : Store}

theorem entries_length_eq {first second : ComponentMap}
    (same : ∀ key, (first.lookup key).isSome = (second.lookup key).isSome) :
    first.entries.length = second.entries.length := by
  have keys : first.entries.keys.Perm second.entries.keys := by
    rw [List.perm_ext_iff_of_nodup first.nodupKeys second.nodupKeys]
    intro key
    have both : key ∈ first ↔ key ∈ second := by
      rw [← AList.lookup_isSome, ← AList.lookup_isSome, same]
    exact both
  simpa [List.keys] using keys.length_eq

theorem Store.Mirrored.writtenSize {source body : Body} (mirrored : store.Mirrored rt source body) :
    body.writtenSize = source.writtenSize := by
  cases source with
  | object => exact mirrored.elim
  | component mGameObj =>
      obtain ⟨i, id, entry, -, rfl, rfl⟩ := mirrored
      rfl
  | gameObject mComponents =>
      obtain ⟨linkedComponents, rfl, filed, -⟩ := mirrored.filed
      rw [Body.writtenSize, entries_length_eq filed, Body.writtenSize]

theorem record_length (rt : Runtime) (sendable : store.Sendable) {id : Nat} {entry : ObjEntry}
    {body : Body} (live : store.Live id entry) (known : store.bodyAt entry.unique = some body) :
    ∃ record, store.recordOf rt entry.unique = some record ∧ record.encode.length = body.writtenSize := by
  obtain ⟨body', here, known'⟩ := sendable.valid.object_of_live live
  obtain rfl := Option.some.inj (known.symm.trans known')
  cases body with
  | object => exact absurd known (sendable.classes id entry live)
  | component mGameObj =>
      rcases sendable.owners id entry mGameObj live known with rfl | ⟨id', entry', rfl, -⟩
      · exact ⟨.component id none, by rw [Store.recordOf, here], by
          simp [Record.encode, Record.payload, Body.writtenSize]⟩
      · exact ⟨.component id (some (store.writtenId entry'.unique)), by rw [Store.recordOf, here], by
          simp [Record.encode, Record.payload, Body.writtenSize]⟩
  | gameObject mComponents =>
      refine ⟨_, by rw [Store.recordOf, here], ?_⟩
      have count := (rt.componentOrder_perm entry.unique mComponents).length_eq
      simp only [Record.encode, Record.payload, List.length_append, signedWord_length, word_length,
        components_length, List.length_map, count, Body.writtenSize]
      omega

def Store.sizeAt (store : Store) (ref : ObjectRef) : Nat :=
  ((store.bodyAt ref).map Body.writtenSize).getD 0

theorem written_length (rt : Runtime) (sendable : store.Sendable) :
    ((store.records rt).flatMap Record.encode).length =
      ((store.liveEntries rt).map fun entry => store.sizeAt entry.2.unique).sum := by
  have all : ∀ entry ∈ store.liveEntries rt, ∃ record,
      store.recordOf rt entry.2.unique = some record ∧
        record.encode.length = store.sizeAt entry.2.unique := by
    rintro ⟨id, entry⟩ member
    have live := mem_liveEntries.mp member
    obtain ⟨body, -, known⟩ := sendable.valid.object_of_live live
    obtain ⟨record, same, size⟩ := record_length rt sendable live known
    exact ⟨record, same, by rw [size, Store.sizeAt, known]; rfl⟩
  rw [Store.records]
  generalize store.liveEntries rt = entries at all
  induction entries with
  | nil => rfl
  | cons entry entries ih =>
      rw [List.forall_mem_cons] at all
      obtain ⟨⟨record, same, size⟩, rest⟩ := all
      rw [List.filterMap_cons, same]
      simp only [List.flatMap_cons, List.length_append, List.map_cons, List.sum_cons, size, ih rest]

theorem Restored.liveEntries_perm (restored : Restored rt store linked) (rt' : Runtime) :
    (linked.liveEntries rt').Perm ((List.range (store.liveEntries rt).length).map fun i =>
      ⟨i + 1, ⟨i, i⟩⟩) := by
  have fresh : ((List.range (store.liveEntries rt).length).map fun i =>
      (⟨i + 1, ⟨i, i⟩⟩ : Σ _ : Nat, ObjEntry)).Nodup := by
    apply List.nodup_range.map
    intro i j same
    simpa using congrArg Sigma.fst same
  rw [List.perm_ext_iff_of_nodup (liveEntries_nodup rt' linked).of_map fresh]
  rintro ⟨id, entry⟩
  rw [mem_liveEntries, restored.live_iff, restored.entries, Store.fileObjects, List.length_map,
    List.mem_map]
  constructor
  · rintro ⟨i, inside, rfl, rfl⟩
    exact ⟨i, List.mem_range.mpr inside, rfl⟩
  · rintro ⟨i, inside, same⟩
    cases same
    exact ⟨i, List.mem_range.mp inside, rfl, rfl⟩

theorem Restored.written_length (restored : Restored rt store linked) (rt' : Runtime)
    (sendable : store.Sendable) (owners : store.OwnersLive) (sendable' : linked.Sendable) :
    ((linked.records rt').flatMap Record.encode).length =
      ((store.records rt).flatMap Record.encode).length := by
  rw [Objects.written_length rt' sendable', Objects.written_length rt sendable,
    ((restored.liveEntries_perm rt').map _).sum_eq, List.map_map]
  congr 1
  apply List.ext_getElem
  · rw [List.length_map, List.length_map, List.length_range]
  · intro i inside inside'
    rw [List.length_map] at inside'
    obtain ⟨⟨id, entry⟩, at_⟩ : ∃ slot, (store.liveEntries rt)[i]? = some slot :=
      ⟨_, List.getElem?_eq_getElem inside'⟩
    have live : store.Live id entry := mem_liveEntries.mp (List.mem_of_getElem? at_)
    obtain ⟨source, -, known⟩ := sendable.valid.object_of_live live
    obtain ⟨body, here, mirrored⟩ := restored.mirrored sendable owners at_ known
    have same := (List.getElem?_eq_some_iff.mp at_).2
    simp only [List.getElem_map, List.getElem_range, Function.comp_apply, same, Store.sizeAt, here,
      known, Option.map_some, Option.getD_some, mirrored.writtenSize]

inductive Edit
  | assemble (op : Operation)
  | reload

/-- A step of a program that builds objects, and now and then saves the manager and goes on with a
fresh one that has loaded the bytes. -/
inductive Edits : Edit → Store → Store → Prop
  | assemble {op store after} (next : Assembles op store after) : Edits (.assemble op) store after
  | reload {rt rt' store out stream after} (written : serialize rt store {} = .ok out)
      (small : out.buffer.length < 2 ^ 31) (carries : Carries stream out.buffer)
      (read : Deserializes rt' {} [] stream (.ok ()) after) : Edits .reload store after.store

structure Authored (store : Store) : Prop where
  sound : Sound true [] store
  assembled : Assembled store

theorem Authored.empty : Authored {} := ⟨empty_sound, Built.empty.assembled⟩

theorem Authored.sendable (authored : Authored store) : store.Sendable :=
  authored.assembled.sendable authored.sound

theorem Authored.assemble {op : Operation} {after : Store} (authored : Authored store)
    (next : Assembles op store after) : Authored after := by
  obtain ⟨sound, assembled⟩ := authored
  cases next with
  | createGameObject room result =>
      obtain rfl := createDefaultObj_new sound.toValid (lookup_registry classGameObject) result
      exact ⟨sound.withNewObject (factory_registrable _ (lookup_registry classGameObject)) room,
        assembled.withNewObject sound.toValid (.inl rfl)⟩
  | createComponent room result =>
      obtain rfl := createDefaultObj_new sound.toValid (lookup_registry classComponent) result
      exact ⟨sound.withNewObject (factory_registrable _ (lookup_registry classComponent)) room,
        assembled.withNewObject sound.toValid (.inr rfl)⟩
  | addComponent result => exact ⟨addComponent_sound sound result, assembled.addComponent result⟩
  | copy live =>
      obtain ⟨cell, found⟩ := Option.isSome_iff_exists.mp live
      exact ⟨sound.hold found, assembled.of_same (fun _ => rfl) rfl⟩
  | drop handle =>
      have frame := dropHandle_frame store handle
      exact ⟨sound.dropHandle handle,
        assembled.of_same (fun ref => frame.bodyAt ref (Set.notMem_empty ref)) frame.mObjects⟩

/-- What holds of `store`, the bytes written of it and the store that they load into. -/
structure Reloaded (store : Store) (out : OutputMemoryStream) (after : Store) : Prop where
  graph : ∃ f, (store.graph store.liveIds).IsIso (after.graph after.liveIds) f
  unmarked : after.liveIds = after.ids
  owners : after.OwnersLive
  length : ∀ rt out', serialize rt after {} = .ok out' → out'.buffer.length = out.buffer.length

section Reload

variable {rt' : Runtime} {stream : InputMemoryStream} {after : Loader}

theorem Authored.written (authored : Authored store) (rt : Runtime) :
    serialize rt store {} = .ok ⟨(store.records rt).flatMap Record.encode⟩ :=
  serialize_eq rt authored.sound.toValid authored.sendable.allWritable

theorem Authored.accepted_iff (authored : Authored store)
    (small : ((store.records rt).flatMap Record.encode).length < 2 ^ 31)
    (carries : Carries stream ((store.records rt).flatMap Record.encode)) :
    (∃ after, Deserializes rt' {} [] stream (.ok ()) after) ↔ store.OwnersLive := by
  rw [written_accepted_iff rt' [] authored.sendable small carries]
  exact and_iff_left (authored.assembled.componentsLive authored.sound)

theorem Authored.restored (authored : Authored store)
    (small : ((store.records rt).flatMap Record.encode).length < 2 ^ 31)
    (carries : Carries stream ((store.records rt).flatMap Record.encode))
    (read : Deserializes rt' {} [] stream (.ok ()) after) :
    store.OwnersLive ∧ Restored rt store after.store :=
  ⟨(authored.accepted_iff small carries).mp ⟨after, read⟩,
    restored_of_accepted authored.sendable small carries read⟩

theorem Authored.reload (authored : Authored store)
    (small : ((store.records rt).flatMap Record.encode).length < 2 ^ 31)
    (carries : Carries stream ((store.records rt).flatMap Record.encode))
    (read : Deserializes rt' {} [] stream (.ok ()) after) : Authored after.store := by
  obtain ⟨owners, restored⟩ := authored.restored small carries read
  exact ⟨restored.sound, restored.assembled authored.sendable owners authored.assembled⟩

theorem Restored.liveIds_eq (restored : Restored rt store linked) : linked.liveIds = linked.ids := by
  ext id
  simp only [liveIds, ids, restored.live_iff, Set.mem_ofPred_eq, Option.isSome_iff_exists]

theorem Authored.reloaded (authored : Authored store)
    (small : ((store.records rt).flatMap Record.encode).length < 2 ^ 31)
    (carries : Carries stream ((store.records rt).flatMap Record.encode))
    (read : Deserializes rt' {} [] stream (.ok ()) after) :
    Reloaded store ⟨(store.records rt).flatMap Record.encode⟩ after.store := by
  have sendable := authored.sendable
  have authored' := authored.reload small carries read
  obtain ⟨owners, restored⟩ := authored.restored small carries read
  refine ⟨?_, restored.liveIds_eq, restored.ownersLive sendable owners, ?_⟩
  · obtain ⟨objs, last', linked, decoded', done', finishes, rfl⟩ := deserializes_ok_iff.mp read
    obtain ⟨last, decoded, -, done, room⟩ := written_decodes sendable small carries
    obtain ⟨rfl, rfl⟩ :=
      decoded.deterministic decoded' (streamPass_done done) (streamPass_done done')
    have load := Load.of_decodes empty_sound.toValid [] decoded room
    have components := authored.assembled.componentsLive authored.sound
    have toFile := (written_iso rt sendable owners components).symm (fileGraph_closed _)
    have fromFile := load.graph_iso finishes
    rw [load.newIds_of_empty finishes rfl] at fromFile
    rw [restored.liveIds_eq]
    exact ⟨_, toFile.trans fromFile⟩
  · intro rt'' out' written
    obtain rfl := Except.ok.inj ((authored'.written rt'').symm.trans written)
    exact restored.written_length rt'' sendable owners authored'.sendable

end Reload

theorem authored_of_run {past : List (Store × Edit)} {last : Store} (run : Run Edits {} past last) :
    Authored last := by
  induction run with
  | nil => exact .empty
  | snoc before next ih =>
      cases next with
      | assemble next => exact ih.assemble next
      | @reload rt _ _ _ _ _ written small carries read =>
          obtain rfl := Except.ok.inj ((ih.written rt).symm.trans written)
          exact ih.reload small carries read

theorem edits_reload {past : List (Store × Edit)} {last : Store} (run : Run Edits {} past last)
    (rt : Runtime) : ∃ out, serialize rt last {} = .ok out ∧ (out.buffer.length < 2 ^ 31 →
      ∀ rt' stream, Carries stream out.buffer →
        ((∃ after, Deserializes rt' {} [] stream (.ok ()) after) ↔ last.OwnersLive) ∧
        ∀ after, Deserializes rt' {} [] stream (.ok ()) after → Reloaded last out after.store) := by
  have authored := authored_of_run run
  refine ⟨_, authored.written rt, fun small rt' stream carries => ?_⟩
  exact ⟨authored.accepted_iff small carries, fun after read =>
    authored.reloaded small carries read⟩

def building : List (Store × Edit) := pairing.map fun entry => (entry.1, .assemble entry.2)

theorem assembles_edits {past : List (Store × Operation)} {last : Store}
    (run : Run Assembles {} past last) :
    Run Edits {} (past.map fun entry => (entry.1, .assemble entry.2)) last := by
  induction run with
  | nil => exact .nil
  | snoc before next ih =>
      rw [List.map_append]
      exact ih.snoc (.assemble next)

theorem adopted_edits : Run Edits {} building adopted := assembles_edits pairing_run

theorem adopted_reload : ∃ out, serialize plainRuntime adopted {} = .ok out ∧
    ∀ rt' stream, Carries stream out.buffer →
      ∀ after, Deserializes rt' {} [] stream (.ok ()) after → Reloaded adopted out after.store := by
  obtain ⟨out, written, reloads⟩ := edits_reload adopted_edits plainRuntime
  refine ⟨out, written, fun rt' stream carries => (reloads ?_ rt' stream carries).2⟩
  cases written
  decide

theorem liveEntries_perm (rt rt' : Runtime) (store : Store) :
    (store.liveEntries rt).Perm (store.liveEntries rt') :=
  ((rt.objectOrder_perm store.mObjects).trans (rt'.objectOrder_perm store.mObjects).symm).filter _

theorem Authored.length_eq (authored : Authored store) {rt rt' : Runtime}
    {out out' : OutputMemoryStream} (written : serialize rt store {} = .ok out)
    (written' : serialize rt' store {} = .ok out') : out'.buffer.length = out.buffer.length := by
  obtain rfl := Except.ok.inj ((authored.written rt).symm.trans written)
  obtain rfl := Except.ok.inj ((authored.written rt').symm.trans written')
  show ((store.records rt').flatMap Record.encode).length =
    ((store.records rt).flatMap Record.encode).length
  rw [written_length rt' authored.sendable, written_length rt authored.sendable,
    ((liveEntries_perm rt' rt store).map _).sum_eq]

/-- Once all live components have live owners, any number of saves and loads gives the same graph
again, and leaves a store that can be saved and loaded once more. -/
theorem reloads_faithful {past more : List (Store × Edit)} {first last : Store} {rt : Runtime}
    {out : OutputMemoryStream} (run : Run Edits {} past first) (owners : first.OwnersLive)
    (written : serialize rt first {} = .ok out) (small : out.buffer.length < 2 ^ 31)
    (again : Run Edits first more last) (only : ∀ entry ∈ more, entry.2 = .reload) :
    (∃ f, (first.graph first.liveIds).IsIso (last.graph last.liveIds) f) ∧
      ∃ next, Edits .reload last next := by
  -- each generation is written as long as the first, so the bound stays true
  have kept : Authored last ∧ last.OwnersLive ∧
      (∃ f, (first.graph first.liveIds).IsIso (last.graph last.liveIds) f) ∧
      ∀ rt' out', serialize rt' last {} = .ok out' → out'.buffer.length = out.buffer.length := by
    induction again with
    | nil =>
        have authored := authored_of_run run
        exact ⟨authored, owners, ⟨id, .refl _⟩, fun rt' out' => authored.length_eq written⟩
    | snoc before next ih =>
        rw [List.forall_mem_append, List.forall_mem_singleton] at only
        obtain ⟨authored, owners', ⟨f, iso⟩, length⟩ := ih only.1
        cases next with
        | assemble next => cases only.2
        | @reload rt' _ _ _ _ _ written' small' carries read =>
            obtain rfl := Except.ok.inj ((authored.written rt').symm.trans written')
            have reloaded := authored.reloaded small' carries read
            obtain ⟨g, iso'⟩ := reloaded.graph
            refine ⟨authored.reload small' carries read, reloaded.owners, ⟨_, iso.trans iso'⟩, ?_⟩
            intro rt'' out'' written''
            exact (reloaded.length rt'' out'' written'').trans (length rt' _ written')
  obtain ⟨authored, owners', iso, length⟩ := kept
  have written' := authored.written rt
  have small' := (length rt _ written').trans_lt small
  obtain ⟨after, read⟩ := (@Authored.accepted_iff rt last rt _ authored small'
    (streamOf_carries _)).mpr owners'
  exact ⟨iso, after.store, .reload written' small' (streamOf_carries _) read⟩

theorem adopted_reloads : ∃ again, Edits .reload adopted again ∧
    ∃ f, (adopted.graph adopted.liveIds).IsIso (again.graph again.liveIds) f := by
  have authored := authored_of_run adopted_edits
  have owners := (marked_closed none (by simp)).ownersLive
  have written := authored.written plainRuntime
  have small : ((adopted.records plainRuntime).flatMap Record.encode).length < 2 ^ 31 := by decide
  obtain ⟨after, read⟩ := (@Authored.accepted_iff plainRuntime adopted plainRuntime _ authored small
    (streamOf_carries _)).mpr owners
  have next : Edits .reload adopted after.store := .reload written small (streamOf_carries _) read
  exact ⟨after.store, next, (reloads_faithful adopted_edits owners written small
    (Run.nil.snoc next) (by simp)).1⟩

end PackagedTask.Objects
