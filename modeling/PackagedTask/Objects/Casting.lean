import PackagedTask.Objects.Managers

namespace PackagedTask.Objects
open Library Store

/-! Which handles `dynamic_ohdl_cast` is safe for. -/

namespace Program

/-- The cast returns, and what it returns is the object just if there is one and it is of the class. -/
def Casts (program : Program) (store : Store) (classID : Int) (ptr : PObjHandle) : Prop :=
  ∃ result, program.dynamicCast store classID ptr = .ok result ∧ ∀ ref, result = some ref ↔
    store.resolve ptr = some ref ∧ (store.bodyAt ref).isSome ∧ program.IsA ref classID

def Queries (program : Program) (store : Store) (go : ObjectRef) (mComponents : ComponentMap)
    (classID : Int) : Prop :=
  ∃ result, program.queryComponentImplementation store go classID = .ok result ∧
    ∀ ref, result = some ref ↔ ∃ ptr, mComponents.lookup classID = some ptr ∧
      store.resolve ptr = some ref ∧ (store.bodyAt ref).isSome ∧ program.IsA ref classComponent

end Program

/-- A handle that code outside holds, one in the slot of a `GameObject`, or an uncounted one copied
from a slot or got from `getObject` before. -/
inductive Obtained (past : List (Manager × Action)) (last : Manager) : PObjHandle → Prop
  | held {handle} (member : handle ∈ last.store.held) : Obtained past last (.shared handle)
  | slot {go mComponents key ptr} (here : last.store.bodyAt go = some (.gameObject mComponents))
      (slot : mComponents.lookup key = some ptr) : Obtained past last ptr
  | got {before id after ptr} (earlier : (before, .getObject id) ∈ past)
      (result : getObject id before.store = .ok ptr after)
      (uncounted : ∀ handle, ptr ≠ .shared handle) : Obtained past last ptr
  | copied {before op go mComponents key ptr} (earlier : (before, op) ∈ past)
      (here : before.store.bodyAt go = some (.gameObject mComponents))
      (slot : mComponents.lookup key = some ptr)
      (uncounted : ∀ handle, ptr ≠ .shared handle) : Obtained past last ptr

/-- The manager lives, and the handle is one that it made: not the placeholder of `GameObject::read`
and not the empty one that `getObject` returns for an object without a handle. -/
def Manager.Counts (manager : Manager) (ptr : PObjHandle) : Prop :=
  manager.managed = true ∧ ∃ handle, ptr = .shared handle

variable {past : List (Manager × Action)} {last : Manager}

theorem Obtained.isHeld {handle : HandleRef} (obtained : Obtained past last (.shared handle)) :
    last.store.isHeld handle = true := by
  cases obtained with
  | held member => exact isHeld_iff.mpr (.inl member)
  | slot here slot => exact isHeld_iff.mpr (.inr ⟨_, _, here, mem_handles_iff.mpr ⟨_, slot⟩⟩)
  | got earlier result uncounted => exact absurd rfl (uncounted handle)
  | copied earlier here slot uncounted => exact absurd rfl (uncounted handle)

namespace Program
variable {program : Program} {store : Store}

theorem casts_iff_resolve {ptr : PObjHandle} {classID : Int} :
    program.Casts store classID ptr ↔
      ∃ ref, store.resolve ptr = some ref ∧ (store.bodyAt ref).isSome := by
  constructor
  · rintro ⟨result, cast, -⟩
    exact resolve_of_dynamicCast cast
  · rintro ⟨ref, points, present⟩
    refine ⟨_, dynamicCast_of_resolve points present classID, fun other => ?_⟩
    constructor
    · intro same
      exact dynamicCast_some (same ▸ dynamicCast_of_resolve points present classID)
    · rintro ⟨aimed, -, kind⟩
      obtain rfl := Option.some.inj (points.symm.trans aimed)
      rw [if_pos (derived_iff.mpr kind)]

theorem managed_of_resolve (sound : Sound last.managed [] last.store) {ptr : PObjHandle}
    {ref : ObjectRef} (points : last.store.resolve ptr = some ref) : last.Counts ptr := by
  obtain ⟨handle, m_link_key, rfl, found⟩ := resolve_eq_some_iff.mp points
  refine ⟨?_, handle, rfl⟩
  rcases sound.points handle _ found with ⟨-, null⟩ | ⟨id, entry, registered, -⟩
  · cases null
  · cases alive : last.managed with
    | true => rfl
    | false =>
        rw [sound.emptied alive, AList.lookup_empty] at registered
        cases registered

theorem casts_iff_counts (conforms : program.Conforms last) {ptr : PObjHandle}
    (counted : ∀ handle, ptr = .shared handle → last.store.isHeld handle = true) (classID : Int) :
    program.Casts last.store classID ptr ↔ last.Counts ptr := by
  rw [casts_iff_resolve]
  constructor
  · rintro ⟨ref, points, -⟩
    exact managed_of_resolve conforms.sound points
  · rintro ⟨alive, handle, rfl⟩
    have sound := conforms.sound
    rw [alive] at sound
    exact resolve_of_held sound (counted handle rfl)

theorem queries_iff {go : ObjectRef} {mComponents : ComponentMap} {classID : Int}
    (here : store.bodyAt go = some (.gameObject mComponents)) :
    program.Queries store go mComponents classID ↔ ∀ ptr, mComponents.lookup classID = some ptr →
      program.Casts store classComponent ptr := by
  unfold Queries queryComponentImplementation
  rw [here]
  cases slot : mComponents.lookup classID with
  | none => simp [slot]
  | some ptr => simp [slot, Casts]

theorem total_iff_counts (run : Run program.Step {} past last) :
    (∀ ptr, Obtained past last ptr → ∀ classID,
      program.Casts last.store classID ptr ↔ last.Counts ptr) ∧
    ∀ go mComponents, last.store.bodyAt go = some (.gameObject mComponents) → ∀ classID,
      program.Queries last.store go mComponents classID ↔
        ∀ ptr, mComponents.lookup classID = some ptr → last.Counts ptr := by
  have conforms := empty_conforms.run run
  constructor
  · intro ptr obtained classID
    apply casts_iff_counts conforms
    rintro handle rfl
    exact obtained.isHeld
  · intro go mComponents here classID
    rw [queries_iff here]
    refine forall_congr' fun ptr => imp_congr_right fun slot => ?_
    apply casts_iff_counts conforms
    rintro handle rfl
    have obtained : Obtained past last (.shared handle) := .slot here slot
    exact obtained.isHeld

def components : Program where
  hierarchy := Hierarchy.standard
  engine := fun _ listed => listed
  getClassIDVirtual := fun _ => classComponent

theorem one_component_run : Run components.Step {} [({}, .registerObj { body := .component .null })]
    ⟨true, ({} : Store).registerObj { body := .component .null }⟩ := by
  refine .snoc .nil (.registerObj (by decide) ?_ (fits_of_kind rfl rfl))
  exact ⟨rfl, fun _ owns => (nomatch owns), fun _ same => (nomatch same)⟩

theorem total_iff_counts_one : components.Casts
    (({} : Store).registerObj { body := .component .null }) classGameObject (.shared 0) :=
  ((total_iff_counts one_component_run).1 (.shared 0) (.held (by decide)) classGameObject).mpr
    ⟨rfl, 0, rfl⟩

theorem nullified_not_casts : ∃ past last ptr, Run components.Step {} past last ∧
    Obtained past last ptr ∧ ∀ classID, ¬ components.Casts last.store classID ptr := by
  refine ⟨_, _, .shared 0, .snoc one_component_run (.destroyManager plainRuntime),
    .held (by decide), fun classID casts => ?_⟩
  obtain ⟨ref, points, -⟩ := casts_iff_resolve.mp casts
  cases points

end Program
end PackagedTask.Objects
