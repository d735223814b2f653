import PackagedTask.Objects.Managers

namespace PackagedTask.Objects
open Library Store

/-! Which callbacks a message to the components of a `GameObject` invokes. -/

/-- `go` is made without components, and after that only `addComponent` gives it some. -/
def OnlyAdded (go : ObjectRef) : Action → Manager → Prop
  | .registerObj ob, manager => manager.store.nextObject = go → ob.body = .gameObject ∅
  | .linkComponent ref _ _, _ => ref ≠ go
  | _, _ => True

/-- `go` lists what it did, and the components that it lists are still there. -/
structure Untouched (go : ObjectRef) (before after : Store) : Prop where
  components : after.bodyAt go = before.bodyAt go
  listed : ∀ handle cmp_ptr, before.Lists go handle →
    before.resolve (.shared handle) = some cmp_ptr →
      after.resolve (.shared handle) = some cmp_ptr ∧ (after.bodyAt cmp_ptr).isSome

inductive Called (effect : Call → Store → Store) (start : Store) : Store → Prop
  | start : Called effect start start
  | call {before} (earlier : Called effect start before) (call : Call) :
      Called effect start (effect call before)

/-- Callbacks may do anything else. -/
def Quiet (effect : Call → Store → Store) (go : ObjectRef) (start : Store) : Prop :=
  ∀ store, Called effect start store → Untouched go start store

namespace Program

structure Receives (program : Program) (table : CmpMsgsTable) (store : Store)
    (sender messageIdentifier : Int) (cmp : PObjHandle) (call : Call) : Prop where
  points : store.resolve cmp = some call.receiver
  other : program.getClassIDVirtual call.receiver ≠ sender
  registered : table.lookup (messageIdentifier, program.getClassIDVirtual call.receiver) =
    some call.callback

/-- The components that a `GameObject` lists, except those of the sender's class and those without a
callback, get their callbacks, each once, and nothing else is invoked. -/
structure Notifies (program : Program) (table : CmpMsgsTable) (store : Store)
    (mComponents : ComponentMap) (sender messageIdentifier : Int) (calls : List Call) : Prop where
  once : (calls.map Call.receiver).Nodup
  exact : ∀ call, call ∈ calls ↔ ∃ key cmp, mComponents.lookup key = some cmp ∧
    program.Receives table store sender messageIdentifier cmp call

/-- Every slot holds a component of the class that is its key. -/
def Installed (program : Program) (store : Store) (go : ObjectRef) : Prop :=
  ∀ mComponents key ptr, store.bodyAt go = some (.gameObject mComponents) →
    mComponents.lookup key = some ptr → ∃ handle cmp_ptr, ptr = .shared handle ∧
      store.resolve ptr = some cmp_ptr ∧ program.getClassIDVirtual cmp_ptr = key ∧
      program.IsA cmp_ptr classComponent

variable {program : Program} {store start : Store} {op : Action} {s t : Manager} {go : ObjectRef}
  {past : List (Manager × Action)} {mComponents : ComponentMap} {table : CmpMsgsTable}
  {effect : Call → Store → Store} {sender messageIdentifier : Int}

theorem slot_held {key : Int} {handle : HandleRef}
    (here : store.bodyAt go = some (.gameObject mComponents))
    (slot : mComponents.lookup key = some (.shared handle)) : store.isHeld handle = true :=
  isHeld_iff.mpr (.inr ⟨go, _, here, mem_handles_iff.mpr ⟨key, slot⟩⟩)

theorem Installed.step (installed : program.Installed s.store go) (conforms : program.Conforms s)
    (step : program.Step op s t) (alive : t.managed = true) (added : OnlyAdded go op s) :
    program.Installed t.store go := by
  intro mComponents key ptr here slot
  have follows := step.follows conforms.sound alive
  have valid := conforms.sound.toValid
  have valid' := (step.sound conforms.sound).toValid
  have listed {components : ComponentMap}
      (before : s.store.bodyAt go = some (.gameObject components))
      (slotBefore : components.lookup key = some ptr) : ∃ handle cmp_ptr, ptr = .shared handle ∧
        t.store.resolve ptr = some cmp_ptr ∧ program.getClassIDVirtual cmp_ptr = key ∧
        program.IsA cmp_ptr classComponent := by
    obtain ⟨handle, cmp_ptr, rfl, points, keyed, kind⟩ := installed components key ptr before slotBefore
    refine ⟨handle, cmp_ptr, rfl, ?_, keyed, kind⟩
    rw [follows.resolve valid valid' (slot_held before slotBefore) (slot_held here slot)]
    exact points
  cases step.writes conforms.sound here with
  | kept before => exact listed before slot
  | registered same fits =>
      have empty := (added rfl).symm.trans same
      cases empty
      cases slot
  | installed before points kind =>
      rcases lookup_insert_cases slot with ⟨rfl, rfl⟩ | ⟨-, slotBefore⟩
      · refine ⟨_, _, rfl, ?_, rfl, kind⟩
        have held := held_of_resolve conforms.sound points
        rw [follows.resolve valid valid' held (slot_held here slot)]
        exact points
      · exact listed before slotBefore
  | linked before => exact absurd rfl added

theorem installed_of_run (run : Run program.Step {} past t) (alive : t.managed = true)
    (added : ∀ entry ∈ past, OnlyAdded go entry.2 entry.1) : program.Installed t.store go := by
  induction run with
  | nil => exact fun _ _ _ here => (nomatch here)
  | snoc before next ih =>
      rw [List.forall_mem_append, List.forall_mem_singleton] at added
      have installed := ih (next.managed alive) added.1
      exact installed.step (empty_conforms.run before) next alive added.2

section Loop
variable {key : Int} {cmp : PObjHandle} {cmp_ptr : ObjectRef}
  {rest slots : List (Σ _ : Int, PObjHandle)}

theorem sendMessage_skips (skips : table.lookup (messageIdentifier, key) = none ∨ key = sender) :
    program.sendMessage table effect sender messageIdentifier (⟨key, cmp⟩ :: rest) store =
      program.sendMessage table effect sender messageIdentifier rest store := by
  rw [sendMessage, if_neg]
  rw [CmpMsgsTable.hasMessageCallback]
  rcases skips with none | same
  · simp [none]
  · simp [same]

theorem sendMessage_sends {callback : Nat}
    (registered : table.lookup (messageIdentifier, key) = some callback) (other : key ≠ sender)
    (points : store.resolve cmp = some cmp_ptr) (present : (store.bodyAt cmp_ptr).isSome)
    (kind : program.IsA cmp_ptr classComponent) (keyed : program.getClassIDVirtual cmp_ptr = key) :
    program.sendMessage table effect sender messageIdentifier (⟨key, cmp⟩ :: rest) store =
      (program.sendMessage table effect sender messageIdentifier rest
        (effect ⟨cmp_ptr, callback⟩ store)).map fun (sent, calls) =>
          (sent, ⟨cmp_ptr, callback⟩ :: calls) := by
  have cast : program.dynamicCast store classComponent cmp = .ok (some cmp_ptr) := by
    rw [dynamicCast_of_resolve points present, if_pos (derived_iff.mpr kind)]
  have handled : program.handleMessage table store messageIdentifier (some cmp_ptr) =
      .ok ⟨cmp_ptr, callback⟩ := by
    obtain ⟨body, here⟩ := Option.isSome_iff_exists.mp present
    obtain ⟨object, known, -⟩ := Option.map_eq_some_iff.mp here
    rw [handleMessage, known]
    simp only
    rw [keyed, registered]
  rw [sendMessage, if_pos, cast]
  · simp only [bind, Except.bind, handled]
    cases program.sendMessage table effect sender messageIdentifier rest
      (effect ⟨cmp_ptr, callback⟩ store) <;> rfl
  · simp [CmpMsgsTable.hasMessageCallback, registered, other]

variable (here : start.bodyAt go = some (.gameObject mComponents))
  (installed : program.Installed start go) (quiet : Quiet effect go start)
include here installed quiet

theorem sendMessage_exact (listed : ∀ slot ∈ slots, mComponents.lookup slot.1 = some slot.2)
    (distinct : (slots.map Sigma.fst).Nodup) (called : Called effect start store) :
    ∃ sent calls,
      program.sendMessage table effect sender messageIdentifier slots store = .ok (sent, calls) ∧
        (calls.map Call.receiver).Nodup ∧ ∀ call, call ∈ calls ↔ ∃ slot ∈ slots,
          program.Receives table start sender messageIdentifier slot.2 call := by
  induction slots generalizing store with
  | nil => exact ⟨store, [], rfl, List.nodup_nil, by simp⟩
  | cons slot rest ih =>
      obtain ⟨key, cmp⟩ := slot
      rw [List.map_cons, List.nodup_cons] at distinct
      rw [List.forall_mem_cons] at listed
      obtain ⟨slot, listed⟩ := listed
      obtain ⟨handle, cmp_ptr, rfl, points, keyed, kind⟩ := installed _ _ _ here slot
      by_cases skips : table.lookup (messageIdentifier, key) = none ∨ key = sender
      · obtain ⟨sent, calls, ran, once, exact⟩ := ih listed distinct.2 called
        refine ⟨sent, calls, (sendMessage_skips skips).trans ran, once, fun call => ?_⟩
        rw [exact, List.exists_mem_cons_iff, or_iff_right]
        rintro ⟨aimed, other, registered⟩
        rw [← Option.some.inj (points.symm.trans aimed), keyed] at other registered
        rcases skips with none | same
        · rw [none] at registered
          cases registered
        · exact other same
      · rw [not_or] at skips
        obtain ⟨callback, registered⟩ := Option.ne_none_iff_exists'.mp skips.1
        have lists : start.Lists go handle := ⟨mComponents, here, mem_handles_iff.mpr ⟨key, slot⟩⟩
        obtain ⟨now, present⟩ := (quiet store called).listed handle cmp_ptr lists points
        obtain ⟨sent, calls, ran, once, exact⟩ :=
          ih listed distinct.2 (called.call ⟨cmp_ptr, callback⟩)
        refine ⟨sent, ⟨cmp_ptr, callback⟩ :: calls, ?_, ?_, fun call => ?_⟩
        · rw [sendMessage_sends registered skips.2 now present kind keyed, ran]
          rfl
        · -- another slot with this receiver would have its class, which is this key
          rw [List.map_cons, List.nodup_cons]
          refine ⟨fun again => ?_, once⟩
          obtain ⟨call, called, twice⟩ := List.mem_map.mp again
          obtain ⟨slot', member, receives⟩ := (exact call).mp called
          obtain ⟨-, target, -, aimed, keyed', -⟩ := installed _ _ _ here (listed slot' member)
          have target_eq := Option.some.inj (aimed.symm.trans receives.points)
          rw [target_eq, twice, keyed] at keyed'
          exact distinct.1 (List.mem_map.mpr ⟨slot', member, keyed'.symm⟩)
        · rw [List.mem_cons, exact, List.exists_mem_cons_iff]
          refine or_congr_left ?_
          constructor
          · rintro rfl
            exact ⟨points, keyed ▸ skips.2, keyed ▸ registered⟩
          · rintro ⟨aimed, -, found⟩
            have target_eq := Option.some.inj (points.symm.trans aimed)
            rw [← target_eq, keyed, registered] at found
            cases call
            cases target_eq
            cases found
            rfl

theorem sendMessage_notifies (rt : Runtime) : ∃ sent calls,
    program.sendMessage table effect sender messageIdentifier (rt.componentOrder go mComponents)
      start = .ok (sent, calls) ∧ sent.bodyAt go = start.bodyAt go ∧
    program.Notifies table start mComponents sender messageIdentifier calls := by
  obtain ⟨sent, calls, ran, once, exact⟩ := sendMessage_exact here installed quiet
    (fun slot member => (mem_componentOrder rt go).mp member)
    (componentOrder_keys_nodup rt go mComponents) .start
  have called := @sendMessage_keeps program start table effect (Called effect start) sent calls
    (fun call before earlier => earlier.call call) _ _ _ .start ran
  refine ⟨sent, calls, ran, (quiet sent called).components, once, fun call => ?_⟩
  simp only [exact, Sigma.exists, mem_componentOrder]

end Loop

theorem resolve_setGameObject (ref : ObjectRef) (owner : GameObjectPtr) (ptr : PObjHandle) :
    (store.setGameObject ref owner).resolve ptr = store.resolve ptr := by
  cases ptr with
  | null => rfl
  | placeholder m_link_key => rfl
  | shared handle => rw [resolve, resolve, Store.setGameObject, modifyObject_eq]

theorem receives_setGameObject (ref : ObjectRef) (owner : GameObjectPtr) (cmp : PObjHandle)
    (call : Call) :
    program.Receives table (store.setGameObject ref owner) sender messageIdentifier cmp call ↔
      program.Receives table store sender messageIdentifier cmp call := by
  have same : (store.setGameObject ref owner).resolve cmp = store.resolve cmp :=
    resolve_setGameObject ref owner cmp
  constructor
  · rintro ⟨points, other, registered⟩
    exact ⟨same.symm.trans points, other, registered⟩
  · rintro ⟨points, other, registered⟩
    exact ⟨same.trans points, other, registered⟩

theorem notifies_setGameObject {ref : ObjectRef} {owner : GameObjectPtr} {calls : List Call}
    (notifies : program.Notifies table (store.setGameObject ref owner) mComponents sender
      messageIdentifier calls) :
    program.Notifies table store mComponents sender messageIdentifier calls := by
  refine ⟨notifies.once, fun call => (notifies.exact call).trans ?_⟩
  simp only [receives_setGameObject]

theorem addComponent_notifies {cmp_ptr : ObjectRef} {com : HandleRef}
    (conforms : program.Conforms ⟨true, store⟩)
    (here : store.bodyAt go = some (.gameObject mComponents))
    (installed : program.Installed store go) (rt : Runtime)
    (points : store.resolve (.shared com) = some cmp_ptr)
    (kind : program.IsA cmp_ptr classComponent)
    (quiet : Quiet effect go (store.setGameObject cmp_ptr (.object go))) :
    ∃ sent : Store, ∃ calls,
      program.addComponent rt table effect store go (.shared com) =
        .ok (sent.setComponent go (program.getClassIDVirtual cmp_ptr) (.shared com), calls) ∧
      sent.bodyAt go = some (.gameObject mComponents) ∧
      program.Notifies table store mComponents (program.getClassIDVirtual cmp_ptr)
        msgDidAddComponent calls := by
  have sound : Sound true [] store := conforms.sound
  have held := held_of_resolve sound points
  obtain ⟨target, aimed, present⟩ := resolve_of_held sound held
  obtain rfl := Option.some.inj (points.symm.trans aimed)
  have cast : program.dynamicCast store classComponent (.shared com) = .ok (some cmp_ptr) := by
    rw [dynamicCast_of_resolve points present, if_pos (derived_iff.mpr kind)]
  obtain ⟨body, component⟩ := Option.isSome_iff_exists.mp present
  obtain ⟨mGameObj, rfl⟩ := (conforms.fits cmp_ptr body component).component.mpr kind
  obtain ⟨linked, there⟩ := setGameObject_relinked component (.object go)
  have apart : go ≠ cmp_ptr := by
    rintro rfl
    rw [component] at here
    cases here
  have owner := (linked.bodyAt go apart).trans here
  have adopted : program.Step (.setGameObject cmp_ptr go) ⟨true, store⟩
      ⟨true, store.setGameObject cmp_ptr (.object go)⟩ :=
    .setGameObject component (by rw [here]; rfl)
  have installed' := @Installed.step program _ _ _ go installed conforms adopted rfl trivial
  obtain ⟨sent, calls, ran, still, notifies⟩ := sendMessage_notifies owner installed' quiet rt
  refine ⟨sent, calls, ?_, still.trans owner, notifies_setGameObject notifies⟩
  rw [addComponent, cast]
  simp only
  rw [componentSendMessage, there]
  simp only
  rw [owner]
  simp only [ran]

theorem quiet_of_leads (sound : Sound true [] start)
    (leads : ∀ call before, program.Leads start before → before.bodyAt go = start.bodyAt go →
      program.Leads before (effect call before) ∧
        (effect call before).bodyAt go = start.bodyAt go) : Quiet effect go start := by
  intro store called
  have reached : program.Leads start store ∧ store.bodyAt go = start.bodyAt go := by
    induction called with
    | start => exact ⟨.refl start, rfl⟩
    | call earlier call ih =>
        obtain ⟨next, same⟩ := leads call _ ih.1 ih.2
        exact ⟨ih.1.trans next, same⟩
  refine ⟨reached.2, ?_⟩
  rintro handle cmp_ptr lists points
  have now := reached.1.sound sound
  have held : store.isHeld handle = true := by
    obtain ⟨mComponents, here, owns⟩ := lists
    exact isHeld_iff.mpr (.inr ⟨go, _, reached.2.trans here, owns⟩)
  obtain ⟨target, aimed, present⟩ := resolve_of_held now held
  have kept := (reached.1.follows sound).resolve sound.toValid now.toValid lists.isHeld held
  obtain rfl := Option.some.inj (aimed.symm.trans (kept.trans points))
  exact ⟨aimed, present⟩

/-- Messages reach the components they are for, in every state in which only `addComponent` has
changed what `go` lists. -/
theorem dispatch_exact (run : Run program.Step {} past ⟨true, store⟩)
    (added : ∀ entry ∈ past, OnlyAdded go entry.2 entry.1)
    (here : store.bodyAt go = some (.gameObject mComponents)) (rt : Runtime)
    (table : CmpMsgsTable) (effect : Call → Store → Store) :
    (Quiet effect go store → ∀ sender messageIdentifier, ∃ sent calls,
      program.sendMessage table effect sender messageIdentifier (rt.componentOrder go mComponents)
        store = .ok (sent, calls) ∧
      program.Notifies table store mComponents sender messageIdentifier calls) ∧
    ∀ com cmp_ptr, store.resolve (.shared com) = some cmp_ptr →
      program.IsA cmp_ptr classComponent →
      Quiet effect go (store.setGameObject cmp_ptr (.object go)) →
      ∃ sent : Store, ∃ calls,
        program.addComponent rt table effect store go (.shared com) =
          .ok (sent.setComponent go (program.getClassIDVirtual cmp_ptr) (.shared com), calls) ∧
        sent.bodyAt go = some (.gameObject mComponents) ∧
        program.Notifies table store mComponents (program.getClassIDVirtual cmp_ptr)
          msgDidAddComponent calls := by
  have conforms := empty_conforms.run run
  have installed := installed_of_run run rfl added
  constructor
  · intro quiet sender messageIdentifier
    obtain ⟨sent, calls, ran, -, notifies⟩ := sendMessage_notifies here installed quiet rt
    exact ⟨sent, calls, ran, notifies⟩
  · intro com cmp_ptr points kind quiet
    exact addComponent_notifies conforms here installed rt points kind quiet

section Sample

def classTransform : Int := 1003

def withTransform : Hierarchy where
  classes := Hierarchy.standard.classes ++
    [⟨classTransform, classComponent, "Transform", .component .null⟩]
  distinct := by decide
  named := by decide
  acyclic := Hierarchy.acyclic_of_rank (fun classID => (classID - 999).toNat) (by decide)

def transforms : Program where
  hierarchy := withTransform
  engine := fun _ listed => List.mem_append_left _ listed
  getClassIDVirtual := fun ref =>
    if ref = 0 then classGameObject else if ref = 1 then classTransform else classComponent

def callbacks : CmpMsgsTable :=
  [(msgDidAddComponent, classTransform), (msgDidAddComponent, classComponent),
    (msgTransformChanged, classTransform), (msgTransformChanged, classComponent)].zipIdx.foldl
      (fun table entry => table.registerMessageCallback entry.1.1 entry.1.2 entry.2) ∅

def fourObjects : Store :=
  [.gameObject ∅, .component .null, .component .null, .component .null].foldl
    (fun store body => store.registerObj { body := body }) {}

def oneListed : Store :=
  (fourObjects.setGameObject 1 (.object 0)).setComponent 0 classTransform (.shared 1)

def twoListed : Store :=
  (oneListed.setGameObject 2 (.object 0)).setComponent 0 classComponent (.shared 2)

def listed : ComponentMap :=
  ((∅ : ComponentMap).insert classTransform (.shared 1)).insert classComponent (.shared 2)

theorem transforms_component {ref : ObjectRef} (other : ref ≠ 0) : transforms.Fits ref
    (.component .null) := by
  have kind : transforms.getClassIDVirtual ref = classTransform ∨
      transforms.getClassIDVirtual ref = classComponent := by
    simp only [transforms, if_neg other]
    split
    · exact .inl rfl
    · exact .inr rfl
  constructor
  · refine iff_of_true ⟨_, rfl⟩ (derived_iff.mp ?_)
    rcases kind with kind | kind <;> rw [kind] <;> decide
  · refine iff_of_false (fun ⟨_, same⟩ => by cases same) fun derived => ?_
    have found := derived_iff.mpr derived
    rcases kind with kind | kind <;> rw [kind] at found <;> revert found <;> decide

theorem transforms_gameObject : transforms.Fits 0 (.gameObject ∅) := by
  constructor
  · refine iff_of_false (fun ⟨_, same⟩ => by cases same) fun derived => ?_
    have found := derived_iff.mpr derived
    revert found
    decide
  · exact iff_of_true ⟨_, rfl⟩ (derived_iff.mp (by decide))

theorem two_listed_run : ∃ past, Run transforms.Step {} past ⟨true, twoListed⟩ ∧
    ∀ entry ∈ past, OnlyAdded 0 entry.2 entry.1 := by
  have bare (store : Store) : Registrable store { body := .component .null } :=
    ⟨rfl, fun _ owns => (nomatch owns), fun _ same => (nomatch same)⟩
  have empty (store : Store) : Registrable store { body := .gameObject ∅ } :=
    ⟨rfl, fun _ owns => (nomatch owns), fun _ same => (nomatch same)⟩
  have made : Run transforms.Step {} _ ⟨true, fourObjects⟩ :=
    .snoc (.snoc (.snoc (.snoc .nil
      (.registerObj (by decide) (empty _) transforms_gameObject))
      (.registerObj (by decide) (bare _) (transforms_component (by decide))))
      (.registerObj (by decide) (bare _) (transforms_component (by decide))))
      (.registerObj (by decide) (bare _) (transforms_component (by decide)))
  have isComponent {ref : ObjectRef} (other : ref ≠ 0) : transforms.IsA ref classComponent :=
    (transforms_component other).component.mp ⟨_, rfl⟩
  have adopts : transforms.Step (.setGameObject 1 0) ⟨true, fourObjects⟩
      ⟨true, fourObjects.setGameObject 1 (.object 0)⟩ := .setGameObject rfl rfl
  have lists : transforms.Step (.setComponent 0 1)
      ⟨true, fourObjects.setGameObject 1 (.object 0)⟩ ⟨true, oneListed⟩ :=
    @Step.setComponent transforms _ 0 1 1 _ rfl rfl (isComponent (by decide))
  have adopts' : transforms.Step (.setGameObject 2 0) ⟨true, oneListed⟩
      ⟨true, oneListed.setGameObject 2 (.object 0)⟩ := .setGameObject rfl rfl
  have lists' : transforms.Step (.setComponent 0 2)
      ⟨true, oneListed.setGameObject 2 (.object 0)⟩ ⟨true, twoListed⟩ :=
    @Step.setComponent transforms _ 0 2 2 _ rfl rfl (isComponent (by decide))
  refine ⟨_, (((made.snoc adopts).snoc lists).snoc adopts').snoc lists', ?_⟩
  simp only [List.forall_mem_append, List.forall_mem_singleton, OnlyAdded, and_true, implies_true]
  refine ⟨⟨⟨fun _ none => (List.not_mem_nil none).elim, ?_⟩, ?_⟩, ?_⟩
  all_goals exact fun late => absurd late (by decide)

theorem dispatch_exact_listed : (∃ sent calls, transforms.sendMessage callbacks
      (fun _ store => store) classObject msgTransformChanged (plainRuntime.componentOrder 0 listed)
      twoListed = .ok (sent, calls) ∧ transforms.Notifies callbacks twoListed listed classObject
        msgTransformChanged calls) ∧
    ∃ sent : Store, ∃ calls, transforms.addComponent plainRuntime callbacks (fun _ store => store)
      twoListed 0 (.shared 3) = .ok (sent.setComponent 0 classComponent (.shared 3), calls) ∧
      sent.bodyAt 0 = some (.gameObject listed) ∧
      transforms.Notifies callbacks twoListed listed classComponent msgDidAddComponent calls := by
  obtain ⟨past, run, added⟩ := two_listed_run
  have idle {start : Store} (sound : Sound true [] start) : Quiet (fun _ store => store) 0 start :=
    @quiet_of_leads transforms start 0 _ sound fun _ before _ same => ⟨.refl before, same⟩
  have sound : Sound true [] twoListed := (empty_conforms.run run).sound
  have adopts : transforms.Step (.setGameObject 3 0) ⟨true, twoListed⟩
      ⟨true, twoListed.setGameObject 3 (.object 0)⟩ := .setGameObject rfl rfl
  have exact := dispatch_exact run added (show twoListed.bodyAt 0 = some (.gameObject listed) from
    rfl) plainRuntime callbacks fun _ store => store
  have kind : transforms.IsA 3 classComponent :=
    (transforms_component (by decide)).component.mp ⟨_, rfl⟩
  exact ⟨exact.1 (idle sound) classObject msgTransformChanged,
    exact.2 3 3 rfl kind (idle (adopts.sound sound))⟩

/-- A callback that marks a listed component and sweeps makes the next cast fail, and a listed
component of the class of the one that is added is not notified. -/
theorem dispatch_not_exact :
    (∃ past, Run transforms.Step {} past ⟨true, twoListed⟩ ∧
      ∀ entry ∈ past, OnlyAdded 0 entry.2 entry.1) ∧
    twoListed.bodyAt 0 = some (.gameObject listed) ∧
    (∃ effect : Call → Store → Store,
      (∀ call, (effect call twoListed).bodyAt 0 = twoListed.bodyAt 0) ∧
      transforms.sendMessage callbacks effect classObject msgTransformChanged
        (plainRuntime.componentOrder 0 listed) twoListed = .error .undefined) ∧
    ∃ after, transforms.addComponent plainRuntime callbacks (fun _ store => store) twoListed 0
        (.shared 3) = .ok (after, [⟨1, 0⟩]) ∧
      listed.lookup classComponent = some (.shared 2) ∧
      twoListed.resolve (.shared 2) = some 2 ∧
      callbacks.lookup (msgDidAddComponent, transforms.getClassIDVirtual 2) = some 1 := by
  refine ⟨two_listed_run, rfl, ⟨fun _ store =>
    (store.deleteTarget (some 1)).releaseUnusedObjects plainRuntime, fun _ => rfl, rfl⟩, ?_⟩
  exact ⟨_, rfl, rfl, rfl, rfl⟩

end Sample

end Program
end PackagedTask.Objects
