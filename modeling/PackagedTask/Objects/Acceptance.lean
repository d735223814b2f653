import PackagedTask.Objects.Graph
import PackagedTask.Objects.Wire

namespace PackagedTask.Objects
open Streams Library Store

/-! Which streams `deserialize` accepts: those whose references all name records of the stream. -/

theorem registerAll_length (objs : List Object) (loader : Loader) :
    (loader.registerAll objs).objects.length = loader.objects.length + objs.length := by
  induction objs generalizing loader with
  | nil => rfl
  | cons obj objs ih =>
      rw [Loader.registerAll, List.foldl_cons]
      refine (ih (loader.register obj)).trans ?_
      simp only [Loader.register, List.length_append, List.length_cons, List.length_nil]
      omega

theorem start_frame (store : Store) (objects : List HandleRef) (stream : InputMemoryStream) :
    Frame ∅ store (Loader.start store objects stream).store := dropHandles_frame objects store

theorem Load.of_decodes {store : Store} (valid : store.Valid) (objects : List HandleRef)
    {stream last : InputMemoryStream} {objs : List Object} (decoded : Decodes stream objs last)
    (narrow : store.mNextAvailableID + objs.length < 2 ^ 32) :
    Load (Loader.start store objects stream) objs
      ((Loader.start store objects stream).registerAll objs) := by
  have started : (Loader.start store objects stream).store.Valid := valid.dropHandles objects
  have room : (Loader.start store objects stream).store.mNextAvailableID + objs.length < 2 ^ 32 := by
    rw [(start_frame store objects stream).mNextAvailableID]
    exact narrow
  exact ⟨registerAll_registered started objs room, started, room, decoded.unlinked, rfl⟩

theorem deserializes_ok_iff {rt : Runtime} {store : Store} {objects : List HandleRef}
    {stream : InputMemoryStream} {after : Loader} :
    Deserializes rt store objects stream (.ok ()) after ↔ ∃ objs last linked,
      Decodes stream objs last ∧ last.getRemainingDataSize ≤ 0 ∧
      Load.Finishes rt ((Loader.start store objects stream).registerAll objs) linked ∧
      after = { (Loader.start store objects stream).registerAll objs with
        stream := last, store := linked } := by
  rw [deserializes_iff]
  constructor
  · rintro ⟨objs, last, decoded, ⟨done, linked, same, finishes⟩ | ⟨-, fault, stopped, -, wrong, -⟩⟩
    · exact ⟨objs, last, linked, decoded, done, finishes, same⟩
    · cases wrong
  · rintro ⟨objs, last, linked, decoded, done, finishes, same⟩
    exact ⟨objs, last, decoded, .inl ⟨done, linked, same, finishes⟩⟩

theorem streamPass_done {last : InputMemoryStream} (done : last.getRemainingDataSize ≤ 0)
    (next : InputMemoryStream) : streamPass last ≠ .inl next := by
  intro step
  have remaining := (streamPass_inl.mp step).1
  omega

def Store.NothingToLink (store : Store) : Prop :=
  ∀ id entry body, store.mObjects.lookup id = some entry →
    store.bodyAt entry.unique = some body → body.Inert

theorem empty_nothingToLink : ({} : Store).NothingToLink := fun _ _ _ found => (nomatch found)

theorem nothingToLink_start (store : Store) (objects : List HandleRef)
    (stream : InputMemoryStream) :
    Load.OldInert (Loader.start store objects stream) ↔ store.NothingToLink := by
  have frame := start_frame store objects stream
  unfold Load.OldInert Store.NothingToLink
  rw [frame.mObjects]
  simp only [frame.bodyAt _ (Set.notMem_empty _)]

variable {rt : Runtime} {store : Store} {stream last : InputMemoryStream} {objs : List Object}

theorem accepted_iff_resolvable (valid : store.Valid) (inert : store.NothingToLink)
    (objects : List HandleRef) (decoded : Decodes stream objs last)
    (done : last.getRemainingDataSize ≤ 0)
    (room : store.mNextAvailableID + objs.length < 2 ^ 32) :
    (∃ after, Deserializes rt store objects stream (.ok ()) after) ↔
      ∀ obj ∈ objs, obj.body.Resolvable (objs.map Object.mInstanceId) := by
  have load := Load.of_decodes valid objects decoded room
  constructor
  · rintro ⟨after, accepted⟩
    obtain ⟨objs', last', linked, decoded', done', finishes, rfl⟩ :=
      deserializes_ok_iff.mp accepted
    obtain ⟨rfl, rfl⟩ :=
      decoded.deterministic decoded' (streamPass_done done) (streamPass_done done')
    exact load.resolvable_of_finishes finishes
  · intro resolvable
    obtain ⟨linked, finishes⟩ := load.finishes_of_resolvable rt
      ((nothingToLink_start store objects stream).mpr inert) resolvable
    exact ⟨_, deserializes_ok_iff.mpr ⟨objs, last, linked, decoded, done, finishes, rfl⟩⟩

theorem rejected_of_not_accepted (objects : List HandleRef) (decoded : Decodes stream objs last)
    (done : last.getRemainingDataSize ≤ 0)
    (refused : ¬ ∃ after, Deserializes rt store objects stream (.ok ()) after) :
    ∃ fault after, Deserializes rt store objects stream (.error fault) after := by
  cases linked : linkAll rt ((Loader.start store objects stream).registerAll objs).istance_id_remap
      (rt.objectOrder ((Loader.start store objects stream).registerAll objs).store.mObjects)
      ((Loader.start store objects stream).registerAll objs).store with
  | ok value final =>
      cases value
      exact absurd ⟨_, deserializes_ok_iff.mpr ⟨objs, last, final, decoded, done, linked, rfl⟩⟩ refused
  | error fault final =>
      exact ⟨fault, _, deserializes_iff.mpr
        ⟨objs, last, decoded, .inl ⟨done, final, rfl, linked⟩⟩⟩

end PackagedTask.Objects
