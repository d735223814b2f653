import PackagedTask.Objects.Lifetimes

namespace PackagedTask.Objects
open Library Store

/-! What one call of `releaseUnusedObjects` leaves for the next. -/

namespace Store

def AllUnmarked (store : Store) : Prop :=
  ∀ id entry, store.mObjects.lookup id = some entry → store.isDeleted entry.unique = false

/-- After the sweep nothing marked is left, and another sweep, in any order, changes nothing. -/
structure SweepComplete (rt : Runtime) (store : Store) : Prop where
  unmarked : (store.releaseUnusedObjects rt).AllUnmarked
  settled : ∀ rt', (store.releaseUnusedObjects rt).releaseUnusedObjects rt' =
    store.releaseUnusedObjects rt

/-- What only marked `GameObject`s keep alive comes after all of them. -/
def OwnersFirst (rt : Runtime) (store : Store) : Prop :=
  ∀ id entry, store.mObjects.lookup id = some entry → entry.handle ∉ store.held →
    (∀ ref, store.Lists ref entry.handle → store.isDeleted ref = true) →
    ∀ ref, store.Lists ref entry.handle → ∃ owner : Σ _ : Nat, ObjEntry,
      owner.2.unique = ref ∧ [owner, ⟨id, entry⟩].Sublist (rt.objectOrder store.mObjects)

variable {store : Store} {rt : Runtime}

theorem sweep_of_unmarked {order : List (Σ _ : Nat, ObjEntry)}
    (unmarked : ∀ entry ∈ order, store.isDeleted entry.2.unique = false) :
    store.sweep order = store := by
  induction order with
  | nil => rfl
  | cons first rest ih =>
      rw [List.forall_mem_cons] at unmarked
      rw [Store.sweep, unmarked.1]
      exact ih unmarked.2

theorem AllUnmarked.settled (unmarked : store.AllUnmarked) (rt : Runtime) :
    store.releaseUnusedObjects rt = store :=
  sweep_of_unmarked fun entry member => unmarked entry.1 entry.2 (mem_objectOrder.mp member)

variable {id : Nat} {entry : ObjEntry} {ref : ObjectRef} {handle : HandleRef}

theorem Populated.release_lists (populated : store.Populated) (sound : Sound true [] store)
    (rt : Runtime) : (store.releaseUnusedObjects rt).Lists ref handle ↔
      store.Lists ref handle ∧ ∃ id entry,
        (store.releaseUnusedObjects rt).mObjects.lookup id = some entry ∧ entry.unique = ref := by
  constructor
  · rintro ⟨mComponents, known, owns⟩
    exact ⟨⟨mComponents, sweep_bodyAt known, owns⟩,
      (populated.release sound rt).owned ref _ known⟩
  · rintro ⟨⟨mComponents, known, owns⟩, id, entry, found, rfl⟩
    exact ⟨mComponents, (release_bodyAt sound rt found).trans known, owns⟩

theorem Populated.lister_goes (populated : store.Populated) (sound : Sound true [] store)
    (lists : store.Lists ref handle) :
    (¬ (store.releaseUnusedObjects rt).Lists ref handle) ↔ store.isDeleted ref = true := by
  obtain ⟨mComponents, known, owns⟩ := lists
  obtain ⟨id, entry, found, rfl⟩ := populated.owned ref _ known
  rw [← populated.gameObject_swept sound (rt.objectOrder store.mObjects) found known,
    populated.release_lists sound rt]
  constructor
  · intro gone
    by_contra stays
    exact gone ⟨⟨mComponents, known, owns⟩, id, entry,
      (populated.release_lookup sound rt id entry).mpr ⟨found, stays⟩, rfl⟩
  · rintro goes ⟨-, id', entry', found', same⟩
    obtain ⟨before, stays⟩ := (populated.release_lookup sound rt id' entry').mp found'
    obtain rfl := sound.toValid.unique_injective before found same
    obtain rfl := Option.some.inj (before.symm.trans found)
    exact stays goes

theorem Populated.release_marked (populated : store.Populated) (sound : Sound true [] store)
    (found : (store.releaseUnusedObjects rt).mObjects.lookup id = some entry) :
    (store.releaseUnusedObjects rt).isDeleted entry.unique = true ↔ entry.handle ∉ store.held ∧
      ∀ ref, store.Lists ref entry.handle → store.isDeleted ref = true := by
  have held : (store.releaseUnusedObjects rt).held = store.held := sweep_held _ store
  rw [marked_iff (sound.releaseUnusedObjects rt) found, held]
  refine and_congr_right fun _ => forall_congr' fun ref => ?_
  constructor
  · exact fun gone lists => (populated.lister_goes sound lists).mp gone
  · intro marked still
    have lists := ((populated.release_lists sound rt).mp still).1
    exact (populated.lister_goes sound lists).mpr (marked lists) still

theorem Populated.complete_iff (populated : store.Populated) (sound : Sound true [] store) :
    store.SweepComplete rt ↔ store.OwnersFirst rt := by
  constructor
  · intro complete id entry found free marked ref lists
    -- the sweep takes the entry away, since it would leave it marked
    have goes : store.Swept (rt.objectOrder store.mObjects) ⟨id, entry⟩ := by
      by_contra stays
      have still := (populated.release_lookup sound rt id entry).mpr ⟨found, stays⟩
      have left := (populated.release_marked sound still).mpr ⟨free, marked⟩
      rw [complete.unmarked id entry still] at left
      cases left
    obtain ⟨owner, same, -, before⟩ := goes.2 ref lists
    exact ⟨owner, same, before⟩
  · intro first
    have unmarked : (store.releaseUnusedObjects rt).AllUnmarked := by
      intro id entry still
      rw [Bool.eq_false_iff]
      intro left
      obtain ⟨free, marked⟩ := (populated.release_marked sound still).mp left
      obtain ⟨found, stays⟩ := (populated.release_lookup sound rt id entry).mp still
      refine stays ⟨free, fun ref lists => ?_⟩
      obtain ⟨owner, rfl, before⟩ := first id entry found free marked ref lists
      have registered := mem_objectOrder.mp (before.subset List.mem_cons_self)
      exact ⟨owner, rfl, ((marked_iff sound registered).mp (marked _ lists)).1, before⟩
    exact ⟨unmarked, unmarked.settled⟩

end Store

theorem sweepComplete_iff {past : List (Store × Lifetime)} {last : Store}
    (run : Run Lives {} past last) (rt : Runtime) :
    last.SweepComplete rt ↔ last.OwnersFirst rt :=
  have peopled := peopled_of_run run
  peopled.populated.complete_iff peopled.sound

section Adopted

def abandoned : Store := (adopted.dropHandle 1).dropHandle 0

theorem abandoned_run : Run Lives {} (adoption ++ [(adopted, .assemble (.drop 1)),
    (adopted.dropHandle 1, .assemble (.drop 0))]) abandoned :=
  (adoption_run.snoc (.assemble (.drop 1))).snoc (.assemble (.drop 0))

def ownerFirst : Runtime :=
  { plainRuntime with
    objectOrder := fun table => table.entries.reverse
    objectOrder_perm := fun table => table.entries.reverse_perm }

theorem abandoned_mObjects : abandoned.mObjects = adopted.mObjects :=
  (dropHandle_frame _ 0).mObjects.trans (dropHandle_frame _ 1).mObjects

theorem abandoned_lists {ref : ObjectRef} {handle : HandleRef} (lists : abandoned.Lists ref handle) :
    ref = 0 ∧ handle = 1 := by
  obtain ⟨mComponents, known, owns⟩ := lists
  have populated := (peopled_of_run abandoned_run).populated
  obtain ⟨id, entry, found, rfl⟩ := populated.owned ref _ known
  rcases adopted_entry (abandoned_mObjects ▸ found) with ⟨-, rfl⟩ | ⟨-, rfl⟩
  · have body : abandoned.bodyAt 0 = some (.gameObject adoptedComponents) := rfl
    cases body.symm.trans known
    have single : (Body.gameObject adoptedComponents).handles = [.shared 1] := rfl
    rw [single, List.mem_singleton] at owns
    exact ⟨rfl, PObjHandle.shared.inj owns⟩
  · have body : abandoned.bodyAt 1 = some (.component (.object 0)) := rfl
    cases body.symm.trans known

theorem sweepComplete_abandoned : ∃ past, Run Lives {} past abandoned ∧
    abandoned.isDeleted 0 = true ∧ abandoned.isDeleted 1 = false ∧
      abandoned.SweepComplete ownerFirst := by
  refine ⟨_, abandoned_run, by decide, by decide, (sweepComplete_iff abandoned_run ownerFirst).mpr ?_⟩
  intro id entry found free marked ref lists
  obtain ⟨rfl, second⟩ := abandoned_lists lists
  rcases adopted_entry (abandoned_mObjects ▸ found) with ⟨rfl, rfl⟩ | ⟨rfl, rfl⟩
  · cases second
  · exact ⟨⟨1, ⟨0, 0⟩⟩, rfl, .refl _⟩

theorem componentFirst_incomplete :
    ¬ ∀ past last, Run Lives {} past last → ∀ rt, last.SweepComplete rt := by
  intro complete
  have unmarked := (complete _ _ abandoned_run plainRuntime).unmarked 2 ⟨1, 1⟩ rfl
  exact absurd unmarked (by decide)

end Adopted
end PackagedTask.Objects
