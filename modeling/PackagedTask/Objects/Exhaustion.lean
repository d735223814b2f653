import PackagedTask.Objects.Termination

namespace PackagedTask.Objects
open Streams Library Library.Iteration Store

/-! What a normal return of `deserialize` says about how far it read. -/

/-- `handles` has one handle for each record, in the order of the records: the one under which the
manager entered the record's object. -/
structure OneHandleEach (loader : Loader) (objs : List Object) (handles : List HandleRef) : Prop where
  length : handles.length = objs.length
  distinct : handles.Nodup
  entered : ∀ i obj, objs[i]? = some obj → ∃ handle, handles[i]? = some handle ∧
    ((loader.registerAll (objs.take i)).register obj).store.mObjects.lookup
        (loader.registerAll (objs.take i)).store.mNextAvailableID =
      some ⟨(loader.registerAll (objs.take i)).store.nextObject, handle⟩

def DecodesWhole (stream : InputMemoryStream) : Prop :=
  ∀ rt store objects after, Deserializes rt store objects stream (.ok ()) after →
    after.stream.head = stream.capacity ∧
      ∃ objs, Decodes stream objs after.stream ∧
        OneHandleEach (.start store objects stream) objs after.objects

theorem registerAll_objects (loader : Loader) (objs : List Object) :
    (loader.registerAll objs).objects =
      loader.objects ++ (List.range objs.length).map (loader.store.nextHandle + ·) := by
  induction objs using List.reverseRecOn with
  | nil => simp [Loader.registerAll]
  | append_singleton objs obj ih =>
      have last : (loader.registerAll (objs ++ [obj])).objects =
          (loader.registerAll objs).objects ++ [(loader.registerAll objs).store.nextHandle] := by
        rw [Loader.registerAll, List.foldl_append]
        rfl
      rw [last, ih, registerAll_nextHandle, List.length_append, List.length_singleton,
        List.range_succ, List.map_append, List.append_assoc]
      rfl

theorem registerAll_oneHandleEach {loader : Loader} (fresh : loader.objects = [])
    (objs : List Object) : OneHandleEach loader objs (loader.registerAll objs).objects := by
  rw [registerAll_objects, fresh, List.nil_append]
  constructor
  · simp
  · exact List.nodup_range.map fun _ _ same => Nat.add_left_cancel same
  · intro i obj here
    obtain ⟨inside, -⟩ := List.getElem?_eq_some_iff.mp here
    refine ⟨loader.store.nextHandle + i, by simp [inside], ?_⟩
    have issued := registerAll_nextHandle loader (objs.take i)
    rw [List.length_take, Nat.min_eq_left inside.le] at issued
    rw [← issued]
    exact registerObj_mObjects _ obj

variable {stream : InputMemoryStream}

theorem decodesWhole_of_small (small : stream.capacity < 2 ^ 31)
    (inside : stream.head ≤ stream.capacity) : DecodesWhole stream := by
  intro rt store objects after accepted
  obtain ⟨objs, last, linked, decoded, done, finishes, rfl⟩ := deserializes_ok_iff.mp accepted
  refine ⟨?_, objs, decoded, registerAll_oneHandleEach rfl objs⟩
  -- the head is inside the buffer, so the narrowed difference is the true one
  have walks := steps_walks (streamSteps_iff.mpr ⟨objs, rfl, decoded⟩)
  have within := (walks.forward small inside).2
  have small' : last.capacity < 2 ^ 31 := by rw [walks.capacity]; exact small
  rw [remaining_of_le within small', walks.capacity] at done
  rw [walks.capacity] at within
  dsimp only
  omega

theorem not_decodesWhole_of_large (fresh : stream.head = 0) (large : 2 ^ 31 ≤ stream.capacity)
    (fits : stream.capacity ≤ 2 ^ 32) : ¬ DecodesWhole stream := by
  intro whole
  have accepted : Deserializes plainRuntime {} [] stream (.ok ()) (.start {} [] stream) :=
    deserializes_ok_iff.mpr
      ⟨[], stream, {}, .nil stream, remaining_of_large fresh large fits, rfl, rfl⟩
  have ended := (whole plainRuntime {} [] _ accepted).1
  rw [show (Loader.start {} [] stream).stream.head = stream.head from rfl, fresh] at ended
  omega

theorem decodesWhole_iff (fresh : stream.head = 0) (fits : stream.capacity < 2 ^ 32) :
    DecodesWhole stream ↔ stream.capacity < 2 ^ 31 := by
  constructor
  · intro whole
    by_contra large
    exact not_decodesWhole_of_large fresh (by omega) fits.le whole
  · exact fun small => decodesWhole_of_small small (by omega)

theorem decodesWhole_loneGameObject : DecodesWhole loneGameObject :=
  (decodesWhole_iff rfl (by decide)).mpr (by decide)

def halfRange : InputMemoryStream := ⟨fun _ => 0, 0, 2 ^ 31⟩

theorem halfRange_unread : ¬ DecodesWhole halfRange :=
  not_decodesWhole_of_large rfl le_rfl (by decide)

end PackagedTask.Objects
