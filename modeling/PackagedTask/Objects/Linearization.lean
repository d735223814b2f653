import PackagedTask.Objects.Serving

namespace PackagedTask.Objects.Sharing
open Library Library.Threads

/-! The threads against the registry: every call takes effect at one of its accesses. -/

variable {θ : Type} [DecidableEq θ] [Fintype θ] {machine after : Machine θ}

abbrev Atomic (θ : Type) := AtomicObject θ Call Result Registry

structure Abstracts (machine : Machine θ) (object : Atomic θ) : Prop where
  sound : Sound machine object.shared
  clients : ∀ t, object.position t = client (machine.position t)

section Simulation
variable {object : Atomic θ} {action : Action θ} {t : θ} {p : Position} {shared : Shared}

omit [Fintype θ] in
theorem clients_move (clients : ∀ t, object.position t = client (machine.position t))
    (registry : Registry) (u : θ) :
    (object.move t (client p) registry).position u =
      client ((machine.move t p shared).position u) := by
  by_cases same : u = t
  · rw [same, move_self, move_self]
  · rw [move_other same, move_other same, clients u]

omit [Fintype θ] in
theorem clients_stay (clients : ∀ t, object.position t = client (machine.position t))
    (same : client p = client (machine.position t)) (u : θ) :
    object.position u = client ((machine.move t p shared).position u) := by
  by_cases here : u = t
  · rw [here, move_self, same, clients t]
  · rw [move_other here, clients u]

theorem Follows.simulated (follows : Follows machine object.shared t p shared)
    (clients : ∀ t, object.position t = client (machine.position t)) :
    ∃ past object', Run (AtomicObject.Step Serves) object past object' ∧
      Abstracts (machine.move t p shared) object' ∧ observed Moment.shown past = [] := by
  obtain ⟨registry, sound, effect⟩ := follows
  cases effect with
  | idle same => exact ⟨[], object, .nil, ⟨sound, clients_stay clients same⟩, rfl⟩
  | serve waits answered serves =>
      rw [← clients t] at waits
      refine ⟨_, _, Run.nil.snoc (.effect waits serves), ⟨sound, ?_⟩, rfl⟩
      rw [← answered]
      exact clients_move clients registry

theorem Abstracts.follows (abstracts : Abstracts machine object) (step : Step action machine after) :
    ∃ past object', Run (AtomicObject.Step Serves) object past object' ∧ Abstracts after object' ∧
      observed Moment.shown past = action.shown.toList := by
  obtain ⟨sound, clients⟩ := abstracts
  cases step with
  | call t call idle has =>
      have waits : object.position t = .idle := by rw [clients, idle, client]
      refine ⟨_, _, Run.nil.snoc (.call call waits), ⟨sound.called call idle has, ?_⟩, rfl⟩
      have entered : client (some (call, call.entry)) = .called call := by cases call <;> rfl
      rw [← entered]
      exact clients_move clients object.shared
  | run order here goes => exact (sound.run here goes).simulated clients
  | @respond _ t call result here =>
      have answered : object.position t = .answered result := by rw [clients, here, client]
      refine ⟨_, _, Run.nil.snoc (.respond answered), ⟨sound.returned here, ?_⟩, rfl⟩
      exact clients_move (p := none) clients object.shared

omit [DecidableEq θ] in
theorem abstracts_start : Abstracts (start : Machine θ) (AtomicObject.start {}) :=
  ⟨sound_start, fun _ => rfl⟩

end Simulation

section Runs
variable {past : List (Machine θ × Action θ)} {registry : Registry} {call : Call} {stage : Stage}
  {t : θ} {id : Nat}

theorem atomic_of_run (run : Run Step start past machine) :
    ∃ atomic object, Run (AtomicObject.Step Serves) (AtomicObject.start {}) atomic object ∧
      Abstracts machine object ∧ observed Moment.shown atomic = observed Action.shown past :=
  run.simulated abstracts_start Abstracts.follows

theorem sound_of_run (run : Run Step start past machine) : ∃ registry, Sound machine registry := by
  obtain ⟨-, object, -, abstracts, -⟩ := atomic_of_run run
  exact ⟨object.shared, abstracts.sound⟩

/-- While no call is under way the registry is what is in memory. -/
def Registry.Shows (registry : Registry) (shared : Shared) : Prop :=
  ∀ id, registry.handles id = if id ∈ shared.mObjects then some (shared.held id) else none

omit [DecidableEq θ] in
theorem Sound.shows (sound : Sound machine registry) (idle : ∀ t, machine.position t = none) :
    registry.Shows machine.shared := by
  intro id
  by_cases listed : id ∈ machine.shared.mObjects
  · have counted := sound.counts id
    have nothing : machine.total (carries id) = 0 := by simp [total, idle]
    rw [if_pos listed, ((sound.entries id).listed listed).2, counted, nothing, Nat.add_zero]
  · rw [if_neg listed]
    exact sound.settled (by simp [idle]) id listed

theorem shared_manager_linearizable (run : Run Step start past machine) :
    ∃ atomic object, Run (AtomicObject.Step Serves) (AtomicObject.start {}) atomic object ∧
      observed Moment.shown atomic = observed Action.shown past ∧
      ((∀ t, machine.position t = none) → object.shared.Shows machine.shared) := by
  obtain ⟨atomic, object, runs, abstracts, shown⟩ := atomic_of_run run
  exact ⟨atomic, object, runs, shown, abstracts.sound.shows⟩

structure Safe (machine : Machine θ) : Prop where
  exclusive : ∀ t u, Inside (machine.position t) → Inside (machine.position u) → t = u
  defined : ∀ t call stage, machine.position t = some (call, stage) →
    (∀ result, stage ≠ .leaving result) →
    (∀ new, stage = .locking new → machine.shared.mMutex = false) →
    (stage = .fetching → machine.shared.mNextAvailableID < 2 ^ 32 - 1) →
    ∃ order next, advance order call machine.shared stage = some next
  distinct : ∀ id t u, 0 < registers id (machine.position t) →
    0 < registers id (machine.position u) → t = u
  markedOnce : ∀ id t u, 0 < destroys id (machine.position t) →
    0 < destroys id (machine.position u) → t = u
  counted : ∀ id, machine.shared.uses id = machine.shared.held id + machine.total (carries id)
  held : ∀ id, 0 < machine.shared.held id →
    id ∈ machine.shared.mObjects ∧ machine.shared.is_del_it id = some false
  returned : ∀ t call id, machine.position t = some (call, .leaving (.handle id)) →
    id ∈ machine.shared.mObjects ∧ machine.shared.is_del_it id = some false

theorem Sound.defined (sound : Sound machine registry)
    (here : machine.position t = some (call, stage)) (stays : ∀ result, stage ≠ .leaving result)
    (free : ∀ new, stage = .locking new → machine.shared.mMutex = false)
    (ids : stage = .fetching → machine.shared.mNextAvailableID < 2 ^ 32 - 1) :
    ∃ order next, advance order call machine.shared stage = some next := by
  have place := sound.place here
  cases stage with
  | fetching => exact ⟨[], _, if_pos (ids rfl)⟩
  | locking new => exact ⟨[], _, if_neg (by simp [free new rfl])⟩
  | inserting id => exact ⟨[], _, rfl⟩
  | finding =>
      obtain ⟨stage, found⟩ := place
      exact ⟨[], (stage, machine.shared), by simp [advance, found]⟩
  | copying =>
      obtain ⟨id, -, rfl⟩ := place
      by_cases unused : machine.shared.uses id = 0
      · exact ⟨[], _, if_pos unused⟩
      · exact ⟨[], _, if_neg unused⟩
  | scanning =>
      refine ⟨machine.shared.mObjects.toList, _, if_pos ⟨?_, ?_⟩⟩
      · exact Finset.nodup_toList _
      · exact Finset.toList_toFinset _
  | sweeping rest =>
      cases rest with
      | nil => exact ⟨[], _, rfl⟩
      | cons id rest =>
          have stored := place.2.2 id (List.mem_cons_self ..)
          obtain ⟨deleted, flag⟩ := Option.ne_none_iff_exists'.mp ((sound.entries id).stored stored)
          let next := if deleted then machine.shared.erase id else machine.shared
          exact ⟨[], (.sweeping rest, next), by simp [advance, flag, next]⟩
  | unlocking result => exact ⟨[], _, rfl⟩
  | counting =>
      obtain ⟨id, rfl⟩ := place
      exact ⟨[], _, if_neg (sound.counting here).1⟩
  | releasing =>
      obtain ⟨id, rfl⟩ := place
      exact ⟨[], _, if_neg (sound.releasing here).1⟩
  | destroying id =>
      have flag := (sound.destroying_last here).1
      exact ⟨[], (.leaving .nothing, machine.shared.deleteObj id), by simp [advance, flag]⟩
  | leaving result => exact (stays result rfl).elim

theorem one_thread {share : Position → Nat} {u : θ} (most : machine.total share ≤ 1)
    (first : 0 < share (machine.position t)) (second : 0 < share (machine.position u)) : t = u := by
  by_contra apart
  have both : share (machine.position u) + share (machine.position t) ≤ machine.total share :=
    shares_le_total apart
  omega

theorem Sound.safe (sound : Sound machine registry) : Safe machine where
  exclusive := sound.guarded.exclusive
  defined := fun _ _ _ here stays free ids => sound.defined here stays free ids
  distinct := by
    intro id t u
    apply one_thread
    rw [sound.registering, Shared.unlisted]
    split <;> omega
  markedOnce := by
    intro id t u
    apply one_thread
    rw [sound.destroying, Shared.unmarked]
    split <;> omega
  counted := sound.counts
  held := fun _ held => (sound.held held).symm
  returned := by
    intro t call id here
    have carried : 0 < carries id (machine.position t) := by simp [here]
    obtain ⟨flag, listed, -⟩ := sound.carried carried (by simp [here])
    exact ⟨listed, flag⟩

theorem shared_manager_safe (run : Run Step start past machine) : Safe machine := by
  obtain ⟨registry, sound⟩ := sound_of_run run
  exact sound.safe

end Runs

section Witness

def dropRace : List (Choice Bool) :=
  .call true .registerObj :: .call false .registerObj ::
    ([true, false, false, false, false, false, true, true, true, true].map fun t => .go t []) ++
    .call false (.getObject 1) :: .call true (.drop 1) ::
    ([false, false, true, false, false, false, true, true].map fun t => .go t []) ++
    [.call false .releaseUnusedObjects, .go false []]

def sweepRace : List (Choice Bool) :=
  ([false, false, false, false, false, false].map fun t => .go t [1, 2]) ++
    .call true (.objectExists 1) :: List.replicate 4 (.go true [])

def dropRaceShown : List (Shown Bool Call Result) :=
  [.called true .registerObj, .called false .registerObj, .returned false (.handle 2),
    .returned true (.handle 1), .called false (.getObject 1), .called true (.drop 1),
    .returned false .null, .returned true .nothing, .called false .releaseUnusedObjects,
    .returned false .nothing, .called true (.objectExists 1), .returned true (.exist false)]

theorem dropRace_run : ∃ past last, Run Step (start : Machine Bool) past last ∧
    observed Action.shown past = dropRaceShown ∧ ∀ t, last.position t = none := by
  have performed : perform choose start (dropRace ++ sweepRace) = some _ := rfl
  refine ⟨_, _, perform_run choose_step performed, rfl, ?_⟩
  intro t
  cases t <;> rfl

theorem dropRace_linearizable : ∃ past last, Run Step (start : Machine Bool) past last ∧
    ∃ atomic object, Run (AtomicObject.Step Serves) (AtomicObject.start {}) atomic object ∧
      observed Moment.shown atomic = dropRaceShown ∧ object.shared.Shows last.shared := by
  obtain ⟨past, last, run, shown, idle⟩ := dropRace_run
  obtain ⟨atomic, object, runs, same, shows⟩ := shared_manager_linearizable run
  exact ⟨past, last, run, atomic, object, runs, same.trans shown, shows idle⟩

theorem dropRace_safe : ∃ past last, Run Step (start : Machine Bool) past last ∧
    observed Action.shown past = dropRaceShown ∧ Safe last := by
  obtain ⟨past, last, run, shown, -⟩ := dropRace_run
  exact ⟨past, last, run, shown, shared_manager_safe run⟩

example : (perform choose (start : Machine Bool)
    (.call true .registerObj :: List.replicate 5 (.go true []) ++
      [.call true (.copy 1), .call false (.copy 1), .go true [], .go false [], .go false [], .go true []])).map
    (fun performed => performed.2.shared.held 1) = some 3 := rfl

end Witness
end PackagedTask.Objects.Sharing
